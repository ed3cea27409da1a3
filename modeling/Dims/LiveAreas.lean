import Dims.PlacedRecords

/-!
# Areas over whole runs

Transactions are placed and included, and iterations of the flush loop are completed. As long as
what the flush loop spends is proper, the areas of the transactions with an unspent output have
no byte in common, and the trees mark these areas and no others.
-/

namespace Dims
open CSegmentFileStorage HeapTree
open CSimpleBuddy hiding Apart Occupied

/-- What every transaction of the queue and every input that it spends preserve. -/
structure QueueRule (ctx : StorageContext) (locations : Finset CLocation)
    (ok : List Placement → QueueStep → Prop)
    (Inv : List Placement → CSegmentFileStorage → Prop) : Prop where
  store : ∀ placed s s' tx, Inv placed s → ok placed (.store tx) →
    s.storeTransaction ctx locations tx = some s' → Inv (placed.map (·.store tx)) s'
  spend : ∀ placed s s' tx txIn, Inv placed s → ok placed (.spend tx txIn.prevout) →
    s.spendOutput ctx tx txIn = some s' → Inv (placed.map (·.spend ctx.hashes txIn.prevout)) s'

namespace QueueRule

variable {ctx : StorageContext} {locations : Finset CLocation}
  {ok : List Placement → QueueStep → Prop} {Inv : List Placement → CSegmentFileStorage → Prop}
  {placed : List Placement} {s s' : CSegmentFileStorage}

theorem spendOutputs (rule : QueueRule ctx locations ok Inv) {tx : CTransaction} {vin : List CTxIn}
    (h : Inv placed s) (hguarded : GuardedRun.Guarded (QueueStep.apply ctx.hashes) ok placed
      (vin.map fun txIn => .spend tx txIn.prevout))
    (hspent : CSegmentFileStorage.spendOutputs ctx tx vin s = some s') :
    Inv (GuardedRun.run (QueueStep.apply ctx.hashes) placed
      (vin.map fun txIn => .spend tx txIn.prevout)) s' := by
  induction vin generalizing s placed with
  | nil =>
    cases hspent
    exact h
  | cons txIn vin ih =>
    obtain ⟨s₁, hfirst, hrest⟩ := Option.bind_eq_some_iff.mp hspent
    exact ih (rule.spend placed s s₁ tx txIn h hguarded.1 hfirst) hguarded.2 hrest

theorem processQueue (rule : QueueRule ctx locations ok Inv) {txs : List CTransaction}
    (h : Inv placed s)
    (hguarded : GuardedRun.Guarded (QueueStep.apply ctx.hashes) ok placed (QueueStep.steps txs))
    (hprocessed : CSegmentFileStorage.processQueue ctx locations txs s = some s') :
    Inv (GuardedRun.run (QueueStep.apply ctx.hashes) placed (QueueStep.steps txs)) s' := by
  induction txs generalizing s placed with
  | nil =>
    cases hprocessed
    exact h
  | cons tx txs ih =>
    obtain ⟨s₂, hfirst, hrest⟩ := Option.bind_eq_some_iff.mp hprocessed
    obtain ⟨s₁, hstored, hspent⟩ := Option.bind_eq_some_iff.mp hfirst
    rw [QueueStep.steps, List.flatMap_cons, List.cons_append] at hguarded ⊢
    obtain ⟨hstore, hguarded⟩ := hguarded
    obtain ⟨hspends, hlater⟩ := (GuardedRun.guarded_append _ _).mp hguarded
    have hinv := rule.store placed s s₁ tx h hstore hstored
    rw [GuardedRun.run_cons, GuardedRun.run_append]
    exact ih (rule.spendOutputs hinv hspends hspent) hlater hrest

end QueueRule

/-- The storage in the middle of an iteration: what the database holds has not changed since it
began. -/
structure SoundQueue (P : CLocation → Prop) (found : Uint256 → Option UInt64)
    (saved : CLocation → Option CDiskBlock) (placed : List Placement) (s : CSegmentFileStorage) :
    Prop where
  places : SoundPlaces placed s saved
  filed : Filed P s saved
  found : s.support.transactionSpecificData = found

namespace SoundQueue

variable {ctx : StorageContext} {P : CLocation → Prop} {found : Uint256 → Option UInt64}
  {saved : CLocation → Option CDiskBlock} {locations : Finset CLocation}
  (hP : ∀ location, P location → Regular location)
  (hlocations : ∀ location ∈ locations, P location)

include hP hlocations

/-- The files only grow, so if they fit at the end of the queue they have fitted all along. -/
theorem rule : QueueRule ctx locations (QueueStep.Proper ctx.hashes found)
    fun placed s => s.Fits → SoundQueue P found saved placed s where
  store := by
    intro placed s s' tx h hproper hstored hfits
    obtain ⟨hplaces, hfiled, hdata⟩ := h (hfits.of_keeps (keeps_storeTransaction hstored))
    obtain ⟨hplaces', hdata'⟩ := hplaces.store hP hfiled hlocations hproper hstored hfits
    exact ⟨hplaces', (hfiled.storeTransaction hP hlocations hstored hfits).1, hdata'.trans hdata⟩
  spend := by
    intro placed s s' tx txIn h hproper hspent hfits
    obtain ⟨hplaces, hfiled, hdata⟩ := h (hfits.of_keeps (keeps_spendOutput hspent))
    rw [← hdata] at hproper
    obtain ⟨hplaces', hdata'⟩ := hplaces.spend hP hfiled hproper hspent hfits
    exact ⟨hplaces', hfiled.spendOutput hP hspent hfits, hdata'.trans hdata⟩

end SoundQueue

section Iteration

variable {ctx : StorageContext} {P : CLocation → Prop} {placed : List Placement}
  {s s' : CSegmentFileStorage} {saved : CLocation → Option CDiskBlock}

theorem SoundPlaces.flush_cases {blocks : List (CLocation × CDiskBlock)}
    (h : SoundPlaces placed s saved) (hfiled : Filed P s saved)
    (hflush : s.flushIteration ctx = some (blocks, s')) (hfits : s'.Fits) :
    (∀ location ∈ s.locationUsedFromLastUpdate, P location) ∧
    SoundQueue P s.support.transactionSpecificData saved placed s.clearQueue ∧
    ∃ processed,
      processQueue ctx s.locationUsedFromLastUpdate s.queued s.clearQueue = some processed ∧
      processed.Fits ∧ s'.support = processed.support.flush ∧
      ∀ {placed'}, SoundPlaces placed' processed saved →
        SoundPlaces placed' s' (savedBy blocks saved) := by
  obtain ⟨hmarked, processed, filled, hprocessed, hsaved, rfl, rfl⟩ := flushIteration_cases hflush
  have hflushFits := (show filled.Fits from ⟨hfits.blocks, hfits.headers⟩).of_keeps
    (keeps_saveBlocks hsaved)
  have hframe := frame_saveBlocks hsaved
  refine ⟨fun location hin => ?_, ⟨⟨h.areas.congr rfl rfl, h.known, h.length, h.fresh, h.held⟩,
    hfiled.frame [] s.usedBuddy s.locationUsedFromLastUpdate hfiled.trees hfiled.known, rfl⟩,
    processed, hprocessed, ⟨hflushFits.blocks, hflushFits.headers⟩, ?_, ?_⟩
  · obtain ⟨tree, htree⟩ := Option.isSome_iff_exists.mp (hmarked location hin)
    exact (hfiled.trees location tree htree).1
  · rw [hframe]
    rfl
  · intro placed' hprocessedPlaces
    obtain ⟨hareas, hknown, hlength, hfresh, hheld⟩ := hprocessedPlaces
    refine ⟨hareas.congr ?_ ?_, fun p hp => ?_, hlength, hfresh, fun p hp hwritten hlive => ?_⟩
    · rw [hframe]
      rfl
    · rw [hframe]
      rfl
    · have hsome := hknown p hp
      rw [hframe]
      exact hsome
    · obtain ⟨block, hblock, hholds⟩ := hheld p hp hwritten hlive
      exact ⟨block, (savedBy_entries processed.usedBlocks saved _).trans hblock, hholds⟩

theorem SoundPlaces.flush (hP : ∀ location, P location → Regular location)
    {blocks : List (CLocation × CDiskBlock)} (h : SoundPlaces placed s saved)
    (hfiled : Filed P s saved)
    (hguarded : GuardedRun.Guarded (QueueStep.apply ctx.hashes)
      (QueueStep.Proper ctx.hashes s.support.transactionSpecificData) placed
      (QueueStep.steps s.queued))
    (hflush : s.flushIteration ctx = some (blocks, s')) (hfits : s'.Fits) :
    SoundPlaces (GuardedRun.run (QueueStep.apply ctx.hashes) placed (QueueStep.steps s.queued)) s'
      (savedBy blocks saved) := by
  obtain ⟨hlocations, hstart, processed, hprocessed, hprocessedFits, -, hrest⟩ :=
    h.flush_cases hfiled hflush hfits
  have hqueue := (SoundQueue.rule hP hlocations).processQueue (fun _ => hstart) hguarded hprocessed
  exact hrest (hqueue hprocessedFits).places

end Iteration

namespace PlacedStorage

section Runs

variable {ctx : StorageContext}

/-- The storage is at rest, and holds what has a place. -/
structure Sound (h : PlacedStorage) : Prop where
  atRest : AtRest (fun _ => False) h.storage h.saved
  places : SoundPlaces h.placed h.storage h.saved

theorem sound_init : init.Sound :=
  ⟨atRest_init, .sound_init, nofun, nofun, nofun, nofun⟩

theorem Sound.congr {h : PlacedStorage} {s' : CSegmentFileStorage} (hsound : h.Sound)
    (houtside : Outside h.storage s')
    (htrees : s'.transactionLocationToBuddy = h.storage.transactionLocationToBuddy)
    (hused : s'.usedBuddy = h.storage.usedBuddy) : ({ h with storage := s' } : PlacedStorage).Sound := by
  refine ⟨hsound.atRest.outside houtside, hsound.places.areas.congr htrees hused,
    fun p hp => houtside.trees _ (hsound.places.known p hp), hsound.places.length,
    hsound.places.fresh, ?_⟩
  have hcurrent : s'.current h.saved = h.storage.current h.saved := by
    funext location
    rw [current, current, houtside.frame]
  rw [hcurrent]
  exact hsound.places.held

theorem Sound.assignPosition {h : PlacedStorage} {s' : CSegmentFileStorage} {tx : CTransaction}
    {position : Option UInt64} (hsound : h.Sound)
    (hassigned : h.storage.assignPosition ctx tx = some (position, s'))
    (houtput : (tx.vout.any fun txOut => !txOut.isNull) = true)
    (hroom : ∀ bucket < maxBucket, h.storage.blocksOf bucket < 2 ^ 32) :
    Sound ⟨s', h.saved,
      h.placed ++ position.toList.map fun full => .new (tx.setLocation full)⟩ := by
  have houtside := (assignPosition_spec hassigned).outside
  have hnew : ∀ p ∈ position.toList.map fun full => Placement.new (tx.setLocation full),
      ∃ full, position = some full ∧ p = .new (tx.setLocation full) := by
    intro p hp
    obtain ⟨full, hfull, rfl⟩ := List.mem_map.mp hp
    exact ⟨full, Option.mem_toList.mp hfull, rfl⟩
  refine ⟨hsound.atRest.outside houtside, hsound.places.areas.assign hassigned houtput hroom,
    List.forall_mem_append.mpr
      ⟨fun p hp => houtside.trees _ (hsound.places.known p hp), fun p hp => ?_⟩,
    List.forall_mem_append.mpr ⟨hsound.places.length, fun p hp => ?_⟩,
    List.forall_mem_append.mpr ⟨hsound.places.fresh, fun p hp _ => ?_⟩,
    List.forall_mem_append.mpr ⟨fun p hp hwritten hlive => ?_, fun p hp hwritten => ?_⟩⟩
  · obtain ⟨full, rfl, rfl⟩ := hnew p hp
    exact (assignPosition_spec hassigned).inMap full rfl
  · obtain ⟨full, rfl, rfl⟩ := hnew p hp
    obtain ⟨i, level, k, hrequested, hk, rfl⟩ := assignPosition_created hassigned
    obtain ⟨hlevel, hsize⟩ := getBuddyLevel_spec hrequested
    have hparts := getLevel_createFullPosition i
      ((start_lt hk hlevel).trans (by decide)) (hlevel.trans_lt (by decide))
      ((calculateBucket_lt (tx.getHash ctx.hashes)).trans (by decide))
    change _ ≤ getBuddySize (getLevel (createFullPosition i _ level _))
    rw [hparts]
    exact (CTransaction.length_encode_setLocation tx _).trans_le hsize
  · obtain ⟨full, -, rfl⟩ := hnew p hp
    exact ⟨rfl, houtput⟩
  · obtain ⟨block, hblock, hheld⟩ := hsound.places.held p hp hwritten hlive
    refine ⟨block, ?_, hheld⟩
    rw [← hblock, current, current, houtside.frame]
  · obtain ⟨full, -, rfl⟩ := hnew p hp
    cases hwritten

/-- Every orderly call leaves the storage sound. -/
theorem Sound.react {h h' : PlacedStorage} {call : PlacedCall} (hsound : h.Sound)
    (horderly : Orderly ctx (some h) call) (hreact : h.react ctx call = some h')
    (hfits : h'.storage.Fits) : h'.Sound := by
  cases call with
  | assignPosition tx =>
    obtain ⟨⟨position, s'⟩, hassigned, rfl⟩ := Option.map_eq_some_iff.mp hreact
    exact hsound.assignPosition hassigned horderly.1 horderly.2
  | setLocation tx =>
    obtain rfl := Option.some.inj hreact
    obtain ⟨p, hp, rfl⟩ := horderly
    obtain ⟨hrest, hplaces⟩ := hsound.congr
      (outside_setTransactionLocation (p.tx.getHash ctx.hashes) (hsound.places.known p hp)) rfl rfl
    exact ⟨hrest, hplaces.locate p.tx⟩
  | flushLocations =>
    obtain rfl := Option.some.inj hreact
    exact hsound.congr (outside_flushSupport _) rfl rfl
  | includeTransaction tx timeStamp =>
    obtain ⟨s', hincluded, rfl⟩ := Option.map_eq_some_iff.mp hreact
    obtain ⟨hframe, -⟩ := frame_addToRecentlyUsed hincluded
    refine hsound.congr (outside_includeTransaction hincluded) ?_ ?_
    · rw [hframe]
      rfl
    · rw [hframe]
      rfl
  | includeTransactions txs timeStamp =>
    obtain ⟨s', hincluded, rfl⟩ := Option.map_eq_some_iff.mp hreact
    obtain ⟨hframe, -⟩ := frame_foldlM hincluded
    refine hsound.congr ((outside_queueTransactions _ txs timeStamp).trans
      (outside_foldlM hincluded)) ?_ ?_
    · rw [hframe]
      rfl
    · rw [hframe]
      rfl
  | flush =>
    obtain ⟨⟨blocks, s'⟩, hflush, rfl⟩ := Option.map_eq_some_iff.mp hreact
    exact ⟨(hsound.atRest.flush hflush hfits).1,
      hsound.places.flush hsound.atRest.regular hsound.atRest.filed horderly hflush hfits⟩

theorem fits_of_react {h h' : PlacedStorage} {call : PlacedCall} (hreact : h.react ctx call = some h')
    (hfits : h'.storage.Fits) : h.storage.Fits := by
  cases call with
  | assignPosition tx =>
    obtain ⟨⟨position, s'⟩, hassigned, rfl⟩ := Option.map_eq_some_iff.mp hreact
    exact hfits.of_outside (assignPosition_spec hassigned).outside
  | setLocation tx =>
    obtain rfl := Option.some.inj hreact
    exact ⟨hfits.blocks, hfits.headers⟩
  | flushLocations =>
    obtain rfl := Option.some.inj hreact
    exact ⟨hfits.blocks, hfits.headers⟩
  | includeTransaction tx timeStamp =>
    obtain ⟨s', hincluded, rfl⟩ := Option.map_eq_some_iff.mp hreact
    exact hfits.of_outside (outside_includeTransaction hincluded)
  | includeTransactions txs timeStamp =>
    obtain ⟨s', hincluded, rfl⟩ := Option.map_eq_some_iff.mp hreact
    exact hfits.of_outside ((outside_queueTransactions _ txs timeStamp).trans
      (outside_foldlM hincluded))
  | flush =>
    obtain ⟨⟨blocks, s'⟩, hflush, rfl⟩ := Option.map_eq_some_iff.mp hreact
    obtain ⟨-, hnumbers, hheaders, -⟩ := flushIteration_frame hflush
    exact ⟨(Nat.mul_le_mul_left _ hnumbers).trans hfits.blocks,
      (Nat.mul_le_mul_left _ hheaders).trans hfits.headers⟩

theorem sound_of_guarded {calls : List PlacedCall} {h : PlacedStorage}
    (hguarded : GuardedRun.Guarded (step ctx) (Orderly ctx) (some init) calls)
    (hrun : GuardedRun.run (step ctx) (some init) calls = some h) (hfits : h.storage.Fits) :
    h.Sound := by
  have hstep : ∀ (s : Option PlacedStorage) (call : PlacedCall),
      (∀ h, s = some h → h.storage.Fits → h.Sound) → Orderly ctx s call →
        ∀ h', step ctx s call = some h' → h'.storage.Fits → h'.Sound := by
    intro s call hs horderly h' hh' hfits'
    obtain ⟨h, rfl, hreact⟩ := Option.bind_eq_some_iff.mp hh'
    exact (hs h rfl (fits_of_react hreact hfits')).react horderly hreact hfits'
  have hstart : ∀ h', some init = some h' → h'.storage.Fits → h'.Sound := by
    intro h' heq _
    rw [← Option.some.inj heq]
    exact sound_init
  exact hguarded.invariant hstep hstart h hrun hfits

end Runs

section Exact

/-- Live transactions have areas without a common byte, in blocks that have a tree, and each tree
lists the areas of the live transactions of its block and no others. -/
structure AreasExact (h : PlacedStorage) : Prop where
  disjoint : h.placed.Pairwise fun p q : Placement =>
    p.isLive = true → q.isLive = true → Apart p.tx.location q.tx.location
  known : ∀ p ∈ h.placed, p.isLive = true →
    (h.storage.transactionLocationToBuddy (CLocation.ofFullPosition p.tx.location)).isSome
  listed : ∀ location tree, h.storage.transactionLocationToBuddy location = some tree →
    ∀ level ≤ baseLevel, ∀ index, index ∈ tree.getNotEmptyIndexes level ↔
      ∃ p ∈ h.placed, p.isLive = true ∧ CLocation.ofFullPosition p.tx.location = location ∧
        getLevel p.tx.location = level ∧ getIndex p.tx.location = index

theorem Sound.areasExact {h : PlacedStorage} (hsound : h.Sound) : h.AreasExact := by
  refine ⟨hsound.places.areas.apart, fun p hp _ => hsound.places.known p hp,
    fun location tree htree level hlevel index => ?_⟩
  rw [CSimpleBuddy.mem_getNotEmptyIndexes]
  constructor
  · rintro ⟨k, hk, rfl, hused⟩
    exact hsound.places.areas.exact location tree htree level hlevel k hk hused
  · rintro ⟨p, hp, hlive, rfl, rfl, rfl⟩
    obtain ⟨tree', htree', -, -, k, hk, hat, hused⟩ := hsound.places.areas.marked hp hlive
    cases htree.symm.trans htree'
    exact ⟨k, hk, hat.2.2, hused⟩

/-- In every orderly run the areas are exact, if the places in the files are not reduced. -/
theorem areasExact_of_orderly {ctx : StorageContext} {calls : List PlacedCall} {h : PlacedStorage}
    (hguarded : GuardedRun.Guarded (step ctx) (Orderly ctx) (some init) calls)
    (hrun : GuardedRun.run (step ctx) (some init) calls = some h) (hfits : h.storage.Fits) :
    h.AreasExact :=
  (sound_of_guarded hguarded hrun hfits).areasExact

end Exact

end PlacedStorage

namespace TwoBlocks
open PlacedStorage

/-- The hash is the first byte of the version, and so is the bucket, up to 16. -/
def context : StorageContext :=
  ⟨⟨fun bytes => BitVec.ofNat 256 (bytes.headD 0).toNat, fun _ => 0⟩, fun _ => 0⟩

def funds : CTransaction := ⟨1, [], [⟨5, []⟩, ⟨6, []⟩], 0, 0⟩

def spender (version : Int32) (n : UInt32) : CTransaction :=
  ⟨version, [⟨⟨1, n⟩, [], 0⟩], [⟨5, []⟩], 0, 0⟩

def add (tx : CTransaction) (location : UInt64) : List PlacedCall :=
  [.assignPosition tx, .setLocation (tx.setLocation location), .flushLocations,
    .includeTransaction (tx.setLocation location) 0]

def put (tx : CTransaction) (location : UInt64) : List PlacedCall := add tx location ++ [.flush]

/-- The outputs are spent by two transactions of the same bucket. -/
def sameBlock : List PlacedCall :=
  put funds 3073 ++ put (spender 17 0) 68609 ++ put (spender 33 1) 134145

/-- The last output is spent by a transaction of another bucket. -/
def otherBlock : List PlacedCall :=
  put funds 3073 ++ put (spender 17 0) 68609 ++ put (spender 2 1) 3074

theorem areas_sameBlock : ∃ h,
    GuardedRun.run (step context) (some init) sameBlock = some h ∧
      (h.placed.map fun p => (p.tx.location, p.spent, p.isLive)) =
        [(3073, [0, 1], false), (68609, [], true), (134145, [], true)] ∧ h.AreasExact := by
  have hresult : (GuardedRun.run (step context) (some init) sameBlock).map (fun h =>
      (h.placed.map fun p => (p.tx.location, p.spent, p.isLive), h.storage.lastSegmentIndex,
        h.storage.headersCache.length)) =
      some ([(3073, [0, 1], false), (68609, [], true), (134145, [], true)], 1, 1) := by
    decide +kernel
  have hguarded : GuardedRun.Guarded (step context) (Orderly context) (some init) sameBlock := by
    decide +kernel
  obtain ⟨h, hrun, hfacts⟩ := Option.map_eq_some_iff.mp hresult
  obtain ⟨hplaced, hsizes⟩ := Prod.mk.inj hfacts
  obtain ⟨hnumbers, hheaders⟩ := Prod.mk.inj hsizes
  have hfits : h.storage.Fits := ⟨by rw [hnumbers]; decide, by rw [hheaders]; decide⟩
  exact ⟨h, hrun, hplaced, areasExact_of_orderly hguarded hrun hfits⟩

/-- The last output is spent by a transaction of another block, which loses its own area. -/
theorem area_lost : ¬∀ (ctx : StorageContext) (calls : List PlacedCall) (h : PlacedStorage),
    GuardedRun.run (step ctx) (some init) calls = some h → h.storage.Fits → h.AreasExact := by
  intro hall
  have hresult : (GuardedRun.run (step context) (some init) otherBlock).map (fun h =>
      ((h.storage.transactionLocationToBuddy (CLocation.ofFullPosition 3074)).map fun tree =>
        tree (node baseLevel 0), decide (⟨(spender 2 1).setLocation 3074, [], true, true⟩ ∈ h.placed),
        h.storage.lastSegmentIndex, h.storage.headersCache.length)) =
      some (some CSimpleBuddy.nodeUnused, true, 2, 1) := by
    decide +kernel
  obtain ⟨h, hrun, hfacts⟩ := Option.map_eq_some_iff.mp hresult
  obtain ⟨hnode, hrest⟩ := Prod.mk.inj hfacts
  obtain ⟨hplaced, hsizes⟩ := Prod.mk.inj hrest
  obtain ⟨hnumbers, hheaders⟩ := Prod.mk.inj hsizes
  obtain ⟨tree, htree, hunused⟩ := Option.map_eq_some_iff.mp hnode
  have hfits : h.storage.Fits := ⟨by rw [hnumbers]; decide, by rw [hheaders]; decide⟩
  have hlisted := ((hall context otherBlock h hrun hfits).listed _ tree htree baseLevel le_rfl 0).mpr
    ⟨_, of_decide_eq_true hplaced, by decide, rfl, by decide, by decide⟩
  obtain ⟨k, -, hstart, hused⟩ := CSimpleBuddy.mem_getNotEmptyIndexes.mp hlisted
  obtain rfl : k = 0 := by
    rw [start, Nat.sub_self, pow_zero, Nat.mul_one] at hstart
    exact hstart.symm
  rw [Used, hunused] at hused
  exact absurd hused (by decide)

end TwoBlocks

end Dims
