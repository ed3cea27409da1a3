import Dims.StorageFiling
import Dims.GuardedRun

/-!
# Runs of the storage

Transactions are placed and included, and iterations of the flush loop are completed.
Between the calls every block that has been saved is in the segment file under the number
in the record of its location, and no other block lies there.
-/

namespace Dims

namespace CSegmentFileStorage

variable (ctx : StorageContext)

/-- The loop of `addTransactionsToStorage`, each transaction with the time of its include; false
where an exception leaves it. -/
def addTransactions : List (CTransaction × UInt64) → CSegmentFileStorage →
    Option (Bool × CSegmentFileStorage)
  | [], s => some (true, s)
  | (tx, timeStamp) :: txs, s =>
    (s.assignPosition ctx tx).bind fun assigned =>
      match assigned.1 with
      | none => some (false, assigned.2)
      | some location =>
        ({ assigned.2 with support :=
            assigned.2.support.setTransactionLocation (tx.getHash ctx.hashes) location
          }.includeTransaction { tx with location := location } timeStamp).bind (addTransactions txs)

def addTransactionsToStorage (s : CSegmentFileStorage) (txs : List (CTransaction × UInt64)) :
    Option CSegmentFileStorage :=
  (addTransactions ctx txs s).map fun added =>
    if added.1 then { added.2 with support := added.2.support.flush } else added.2

end CSegmentFileStorage

/-- The storage, the block that has been saved last at each location, and the transactions that
have been flushed. -/
structure StorageHistory where
  storage : CSegmentFileStorage
  saved : CLocation → Option CDiskBlock
  stored : List CTransaction

inductive StorageCall
  | assignPosition (tx : CTransaction)
  | includeTransaction (tx : CTransaction) (timeStamp : UInt64)
  | includeTransactions (txs : List CTransaction) (timeStamp : UInt64)
  | addTransactionsToStorage (txs : List (CTransaction × UInt64))
  | flush

namespace StorageHistory
open CSegmentFileStorage

def init : StorageHistory := ⟨.init, fun _ => none, []⟩

variable (ctx : StorageContext)

def react (h : StorageHistory) : StorageCall → Option StorageHistory
  | .assignPosition tx =>
    (h.storage.assignPosition ctx tx).map fun assigned => { h with storage := assigned.2 }
  | .includeTransaction tx timeStamp =>
    (h.storage.includeTransaction tx timeStamp).map fun storage => { h with storage := storage }
  | .includeTransactions txs timeStamp =>
    (h.storage.includeTransactions txs timeStamp).map fun storage => { h with storage := storage }
  | .addTransactionsToStorage txs =>
    (h.storage.addTransactionsToStorage ctx txs).map fun storage => { h with storage := storage }
  | .flush =>
    (h.storage.flushIteration ctx).map fun flushed =>
      ⟨flushed.2, savedBy flushed.1 h.saved, h.stored ++ h.storage.queued⟩

def step (s : Option StorageHistory) (call : StorageCall) : Option StorageHistory :=
  s.bind fun h => h.react ctx call

end StorageHistory

namespace CSegmentFileStorage

variable {ctx : StorageContext} {s s' : CSegmentFileStorage}

section Outside

/-- What the calls other than an iteration of the flush loop do: the map of trees grows by
locations of the buckets, and a location that the support database comes to know is in it. -/
structure Outside (s s' : CSegmentFileStorage) : Prop where
  frame : s' = { s with
    transactionQueue := s'.transactionQueue
    usedBuddy := s'.usedBuddy
    transactionLocationToBuddy := s'.transactionLocationToBuddy
    locationUsedFromLastUpdate := s'.locationUsedFromLastUpdate
    support := s'.support }
  trees : ∀ location, (s.transactionLocationToBuddy location).isSome →
    (s'.transactionLocationToBuddy location).isSome
  regular : ∀ location, (s'.transactionLocationToBuddy location).isSome →
    (s.transactionLocationToBuddy location).isSome ∨ Regular location
  shapes : TreesWellFormed s.transactionLocationToBuddy →
    TreesWellFormed s'.transactionLocationToBuddy
  known : ∀ hash full, s'.support.transactionSpecificData hash = some full ∨
      s'.support.transactionToLocationCacheInsert hash = some full →
    (∃ hash', s.support.transactionSpecificData hash' = some full ∨
      s.support.transactionToLocationCacheInsert hash' = some full) ∨
    (s'.transactionLocationToBuddy (CLocation.ofFullPosition full)).isSome

namespace Outside

theorem refl (s : CSegmentFileStorage) : Outside s s :=
  ⟨rfl, fun _ => id, fun _ => .inl, id, fun hash _ hin => .inl ⟨hash, hin⟩⟩

theorem trans {s₁ s₂ s₃ : CSegmentFileStorage} (h : Outside s₁ s₂) (h' : Outside s₂ s₃) :
    Outside s₁ s₃ := by
  refine ⟨?_, fun location hsome => h'.trees location (h.trees location hsome),
    fun location hsome => (h'.regular location hsome).elim (h.regular location) .inr,
    fun hold => h'.shapes (h.shapes hold), fun hash full hin => ?_⟩
  · rw [h'.frame, h.frame]
  · obtain ⟨hash', hold⟩ | hsome := h'.known hash full hin
    · exact (h.known hash' full hold).imp_right (h'.trees _)
    · exact .inr hsome

end Outside

theorem Placed.outside {position : Option UInt64} (h : Placed s position s') : Outside s s' := by
  have hsupport : s'.support = s.support := by rw [h.frame]
  refine ⟨?_, h.trees, h.regular, h.shapes, fun hash full hin => ?_⟩
  · rw [h.frame]
  · rw [hsupport] at hin
    exact .inl ⟨hash, hin⟩

theorem outside_setTransactionLocation {full : UInt64} (hash : Uint256)
    (hfull : (s.transactionLocationToBuddy (CLocation.ofFullPosition full)).isSome) :
    Outside s { s with support := s.support.setTransactionLocation hash full } := by
  refine ⟨rfl, fun _ => id, fun _ => .inl, id, fun hash' full' hin => ?_⟩
  obtain hold | hnew := hin
  · exact .inl ⟨hash', .inl hold⟩
  · change insertNew _ _ _ hash' = some full' at hnew
    by_cases hhash : hash' = hash
    · rw [hhash, insertNew_self] at hnew
      obtain hold | ⟨-, heq⟩ := Option.or_eq_some_iff.mp hnew
      · exact .inl ⟨hash, .inr hold⟩
      · right
        rwa [← Option.some.inj heq]
    · rw [insertNew_of_ne hhash] at hnew
      exact .inl ⟨hash', .inr hnew⟩

theorem outside_flushSupport (s : CSegmentFileStorage) :
    Outside s { s with support := s.support.flush } := by
  refine ⟨rfl, fun _ => id, fun _ => .inl, id, fun hash full hin => ?_⟩
  obtain hfound | hempty := hin
  · obtain hnew | ⟨-, hold⟩ := Option.or_eq_some_iff.mp hfound
    · exact .inl ⟨hash, .inr hnew⟩
    · exact .inl ⟨hash, .inl hold⟩
  · cases hempty

theorem outside_queueTransactions (s : CSegmentFileStorage) (txs : List CTransaction)
    (timeStamp : UInt64) : Outside s (s.queueTransactions txs timeStamp) :=
  ⟨rfl, fun _ => id, fun _ => .inl, id, fun hash _ hin => .inl ⟨hash, hin⟩⟩

theorem outside_addToRecentlyUsed {tx : CTransaction} (h : s.addToRecentlyUsed tx = some s') :
    Outside s s' := by
  obtain ⟨hframe, hfound, hinsert, -, -⟩ := markInputs_spec h
  have htrees : s'.transactionLocationToBuddy = s.transactionLocationToBuddy := by rw [hframe]
  refine ⟨?_, fun location hsome => by rwa [htrees], fun location hsome => ?_,
    fun hold => by rwa [htrees], fun hash full hin => ?_⟩
  · rw [hframe]
  · rw [htrees] at hsome
    exact .inl hsome
  · rw [hfound, hinsert] at hin
    exact .inl ⟨hash, hin⟩

theorem outside_includeTransaction {tx : CTransaction} {timeStamp : UInt64}
    (h : s.includeTransaction tx timeStamp = some s') : Outside s s' :=
  (outside_queueTransactions s [tx] timeStamp).trans (outside_addToRecentlyUsed h)

theorem outside_foldlM {txs : List CTransaction} (h : txs.foldlM addToRecentlyUsed s = some s') :
    Outside s s' := by
  induction txs generalizing s with
  | nil =>
    cases h
    exact .refl _
  | cons tx txs ih =>
    rw [List.foldlM_cons] at h
    obtain ⟨s₁, hfirst, hrest⟩ := Option.bind_eq_some_iff.mp h
    exact (outside_addToRecentlyUsed hfirst).trans (ih hrest)

theorem outside_addTransactions {txs : List (CTransaction × UInt64)} {all : Bool}
    (h : addTransactions ctx txs s = some (all, s')) : Outside s s' := by
  induction txs generalizing s with
  | nil =>
    cases h
    exact .refl _
  | cons entry txs ih =>
    obtain ⟨tx, timeStamp⟩ := entry
    obtain ⟨⟨position, s₁⟩, hassigned, h⟩ := Option.bind_eq_some_iff.mp h
    have hplaced := assignPosition_spec hassigned
    cases position with
    | none =>
      cases h
      exact hplaced.outside
    | some location =>
      obtain ⟨s₂, hincluded, hrest⟩ := Option.bind_eq_some_iff.mp h
      have hset := outside_setTransactionLocation (tx.getHash ctx.hashes)
        (hplaced.inMap location rfl)
      exact hplaced.outside.trans (hset.trans
        ((outside_includeTransaction hincluded).trans (ih hrest)))

theorem outside_addTransactionsToStorage {txs : List (CTransaction × UInt64)}
    (h : s.addTransactionsToStorage ctx txs = some s') : Outside s s' := by
  obtain ⟨⟨all, s₁⟩, hadded, rfl⟩ := Option.map_eq_some_iff.mp h
  have hloop := outside_addTransactions hadded
  cases all with
  | true => exact hloop.trans (outside_flushSupport s₁)
  | false => exact hloop

end Outside

section AtRest

/-- The locations that the storage knows of: those in the map, and those that meet `Extra`. -/
def KnownTo (Extra : CLocation → Prop) (s : CSegmentFileStorage) (location : CLocation) : Prop :=
  (s.transactionLocationToBuddy location).isSome ∨ Extra location

/-- The state between the calls. -/
structure AtRest (Extra : CLocation → Prop) (s : CSegmentFileStorage)
    (saved : CLocation → Option CDiskBlock) : Prop where
  filed : Filed (KnownTo Extra s) s saved
  regular : ∀ location, KnownTo Extra s location → Regular location
  headers : HeadersStored s.headersCache s.headers
  usedBlocks : s.usedBlocks = .empty

variable {Extra : CLocation → Prop} {saved : CLocation → Option CDiskBlock}

theorem Filed.mono {P Q : CLocation → Prop} (h : Filed P s saved)
    (hPQ : ∀ location, P location → Q location) : Filed Q s saved := by
  refine ⟨fun location tree hin => (h.trees location tree hin).imp_left (hPQ _),
    fun hash full hin => hPQ _ (h.known hash full hin),
    fun location block hin => (h.inUse location block hin).imp_left (hPQ _), h.cached,
    fun location block hsaved => (h.stored location block hsaved).imp_left (hPQ _),
    fun header index n hn => ?_, h.numbered, h.counted, h.chained, h.headers⟩
  obtain ⟨location, hP, hplace⟩ := h.recorded header index n hn
  exact ⟨location, hPQ _ hP, hplace⟩

theorem AtRest.outside (h : AtRest Extra s saved) (houtside : Outside s s') :
    AtRest Extra s' saved := by
  have hknown : ∀ location, KnownTo Extra s location → KnownTo Extra s' location :=
    fun location hin => hin.imp_left (houtside.trees location)
  have hfiled := h.filed.mono hknown
  have hshapes := houtside.shapes fun location tree hin => (h.filed.trees location tree hin).2
  have hframe := houtside.frame
  refine ⟨?_, fun location hin => ?_, ?_, ?_⟩
  · rw [hframe]
    refine hfiled.frame _ _ _ (fun location tree hin => ⟨?_, hshapes location tree hin⟩)
      fun hash full hin => ?_
    · exact .inl (Option.isSome_of_mem hin)
    · obtain ⟨hash', hold⟩ | hsome := houtside.known hash full hin
      · exact hfiled.known hash' full hold
      · exact .inl hsome
  · obtain hsome | hextra := hin
    · exact (houtside.regular location hsome).elim (fun hold => h.regular _ (.inl hold)) id
    · exact h.regular _ (.inr hextra)
  · rw [hframe]
    exact h.headers
  · rw [hframe]
    exact h.usedBlocks

theorem Fits.of_outside (h : s'.Fits) (houtside : Outside s s') : s.Fits := by
  rw [houtside.frame] at h
  exact ⟨h.blocks, h.headers⟩

theorem AtRest.flush {blocks : List (CLocation × CDiskBlock)} (h : AtRest Extra s saved)
    (hflush : s.flushIteration ctx = some (blocks, s')) (hfits : s'.Fits) :
    AtRest Extra s' (savedBy blocks saved) ∧
      ∀ tx ∈ s.queued, (savedBy blocks saved (CLocation.ofFullPosition tx.location)).isSome := by
  obtain ⟨hfiled, hheaders, hstored⟩ := h.filed.flush h.regular hflush hfits
  obtain ⟨htrees, -, -, hempty⟩ := flushIteration_frame hflush
  have hknown : ∀ location, KnownTo Extra s' location ↔ KnownTo Extra s location :=
    fun location => or_congr_left (htrees location)
  exact ⟨⟨hfiled.mono fun location => (hknown location).mpr,
    fun location hin => h.regular location ((hknown location).mp hin), hheaders, hempty⟩, hstored⟩

theorem atRest_init : AtRest (fun _ => False) init fun _ => none := by
  refine ⟨⟨nofun, fun hash full hin => ?_, nofun, nofun, nofun, nofun, ⟨rfl, nofun, nofun⟩, le_rfl,
    nofun, fun _ => rfl⟩, fun location hin => ?_, ⟨fun _ => rfl, nofun⟩, rfl⟩
  · obtain hin | hin := hin <;> cases hin
  · obtain hin | hin := hin <;> cases hin

end AtRest

end CSegmentFileStorage

namespace StorageHistory
open CSegmentFileStorage

section Runs

variable {ctx : StorageContext} {Extra : CLocation → Prop}

/-- The storage is at rest, and the transactions that have been flushed are in saved blocks. -/
structure InFiles (Extra : CLocation → Prop) (h : StorageHistory) : Prop where
  atRest : AtRest Extra h.storage h.saved
  stored : ∀ tx ∈ h.stored, (h.saved (CLocation.ofFullPosition tx.location)).isSome

/-- A call works outside of the blocks, or is an iteration of the flush loop. -/
theorem react_cases {h h' : StorageHistory} {call : StorageCall} (hreact : h.react ctx call = some h') :
    (∃ s', Outside h.storage s' ∧ h' = { h with storage := s' }) ∨
    ∃ blocks s', h.storage.flushIteration ctx = some (blocks, s') ∧
      h' = ⟨s', savedBy blocks h.saved, h.stored ++ h.storage.queued⟩ := by
  cases call with
  | assignPosition tx =>
    obtain ⟨⟨position, s'⟩, hassigned, rfl⟩ := Option.map_eq_some_iff.mp hreact
    exact .inl ⟨s', (assignPosition_spec hassigned).outside, rfl⟩
  | includeTransaction tx timeStamp =>
    obtain ⟨s', hincluded, rfl⟩ := Option.map_eq_some_iff.mp hreact
    exact .inl ⟨s', outside_includeTransaction hincluded, rfl⟩
  | includeTransactions txs timeStamp =>
    obtain ⟨s', hincluded, rfl⟩ := Option.map_eq_some_iff.mp hreact
    exact .inl ⟨s', (outside_queueTransactions _ txs timeStamp).trans (outside_foldlM hincluded), rfl⟩
  | addTransactionsToStorage txs =>
    obtain ⟨s', hadded, rfl⟩ := Option.map_eq_some_iff.mp hreact
    exact .inl ⟨s', outside_addTransactionsToStorage hadded, rfl⟩
  | flush =>
    obtain ⟨⟨blocks, s'⟩, hflush, rfl⟩ := Option.map_eq_some_iff.mp hreact
    exact .inr ⟨blocks, s', hflush, rfl⟩

theorem InFiles.react {h h' : StorageHistory} {call : StorageCall} (hin : InFiles Extra h)
    (hreact : h.react ctx call = some h') (hfits : h'.storage.Fits) : InFiles Extra h' := by
  obtain ⟨s', houtside, rfl⟩ | ⟨blocks, s', hflush, rfl⟩ := react_cases hreact
  · exact ⟨hin.atRest.outside houtside, hin.stored⟩
  · obtain ⟨hrest, hstored⟩ := hin.atRest.flush hflush hfits
    refine ⟨hrest, fun tx htx => ?_⟩
    obtain hold | hnew := List.mem_append.mp htx
    · exact savedBy_isSome (hin.stored tx hold)
    · exact hstored tx hnew

theorem fits_of_react {h h' : StorageHistory} {call : StorageCall}
    (hreact : h.react ctx call = some h') (hfits : h'.storage.Fits) : h.storage.Fits := by
  obtain ⟨s', houtside, rfl⟩ | ⟨blocks, s', hflush, rfl⟩ := react_cases hreact
  · exact hfits.of_outside houtside
  · obtain ⟨-, hnumbers, hheaders, -⟩ := flushIteration_frame hflush
    exact ⟨(Nat.mul_le_mul_left _ hnumbers).trans hfits.blocks,
      (Nat.mul_le_mul_left _ hheaders).trans hfits.headers⟩

/-- The files only grow, so if they fit at the end of a run they have fitted all along. -/
theorem InFiles.run {h h' : StorageHistory} {calls : List StorageCall} (hin : InFiles Extra h)
    (hrun : GuardedRun.run (step ctx) (some h) calls = some h') (hfits : h'.storage.Fits) :
    InFiles Extra h' := by
  have hstep : ∀ (s : Option StorageHistory) (call : StorageCall),
      (∀ h, s = some h → h.storage.Fits → InFiles Extra h) →
        ∀ h', step ctx s call = some h' → h'.storage.Fits → InFiles Extra h' := by
    intro s call hs h' hh' hfits'
    obtain ⟨h, rfl, hreact⟩ := Option.bind_eq_some_iff.mp hh'
    exact (hs h rfl (fits_of_react hreact hfits')).react hreact hfits'
  have hstart : ∀ h'', some h = some h'' → h''.storage.Fits → InFiles Extra h'' := by
    intro h'' heq _
    rwa [← Option.some.inj heq]
  exact GuardedRun.run_invariant hstep hstart calls h' hrun hfits

theorem inFiles_init : InFiles (fun _ => False) init := ⟨atRest_init, nofun⟩

end Runs

end StorageHistory

end Dims
