import Dims.LiveAreas
import Dims.StorageRestart

/-!
# Transactions that have been spent in part

The hash of a transaction leads to its place as long as it has an unspent output, although the
record is written again under another hash whenever an output is spent. What has been recorded
may wait for the next flush of the support database.
-/

namespace Dims
open CSegmentFileStorage HeapTree

namespace CSupportTransactionsDatabase

/-- What is found for a hash after the next flush. -/
def effective (s : CSupportTransactionsDatabase) (hash : Uint256) : Option UInt64 :=
  (s.transactionToLocationCacheInsert hash).or (s.transactionSpecificData hash)

variable {s s' : CSupportTransactionsDatabase} {hash hash' : Uint256} {full : UInt64}

@[simp] theorem effective_flush : s.flush.effective hash = s.effective hash := rfl

theorem effective_congr
    (hdata : s'.transactionSpecificData = s.transactionSpecificData)
    (hinsert : s'.transactionToLocationCacheInsert = s.transactionToLocationCacheInsert) :
    s'.effective hash = s.effective hash := by
  rw [effective, effective, hdata, hinsert]

theorem effective_set_of_ne (h : hash' ≠ hash) :
    (s.setTransactionLocation hash full).effective hash' = s.effective hash' := by
  change (insertNew s.transactionToLocationCacheInsert hash full hash').or _ = _
  rw [insertNew_of_ne h]
  rfl

theorem effective_set_self : (s.setTransactionLocation hash full).effective hash =
    (s.transactionToLocationCacheInsert hash).or (some full) := by
  change (insertNew s.transactionToLocationCacheInsert hash full hash).or _ = _
  rw [insertNew_self, Option.or_assoc, Option.some_or]

/-- A hash that leads to a location does so after the location has been recorded again. -/
theorem effective_set (h : s.effective hash' = some full) :
    (s.setTransactionLocation hash full).effective hash' = some full := by
  by_cases hhash : hash' = hash
  · subst hhash
    rw [effective_set_self]
    cases hwaiting : s.transactionToLocationCacheInsert hash' with
    | none => rfl
    | some full' =>
      rw [effective, hwaiting, Option.some_or] at h
      rw [Option.some_or, h]
  · rw [effective_set_of_ne hhash, h]

end CSupportTransactionsDatabase

namespace QueueStep

/-- What is left of a transaction does not get the hash of a transaction at another place. -/
def Distinct (H : HashFunctions) (placed : List Placement) : QueueStep → Prop
  | .store _ => True
  | .spend _ o => ∀ p ∈ placed, p.tx.getHash H = o.hash → (p.spend H o).isLive = true →
      ∀ q ∈ placed, q.recorded = true → q.isLive = true →
        q.tx.getHash H = (p.spend H o).record.getHash H → q.tx.location = p.tx.location

instance decidableDistinct (H : HashFunctions) (placed : List Placement) :
    ∀ step, Decidable (Distinct H placed step)
  | .store _ => inferInstanceAs (Decidable True)
  | .spend _ _ => inferInstanceAs (Decidable (∀ p ∈ placed, _ → _ → ∀ q ∈ placed, _ → _ → _ → _))

end QueueStep

/-- The hash of a transaction that has been recorded and has an unspent output leads to its
place. -/
def Found (H : HashFunctions) (placed : List Placement) (support : CSupportTransactionsDatabase) :
    Prop :=
  ∀ p ∈ placed, p.recorded = true → p.isLive = true →
    support.effective (p.tx.getHash H) = some p.tx.location

namespace Found

variable {H : HashFunctions} {placed : List Placement} {s s' : CSupportTransactionsDatabase}

theorem congr (h : Found H placed s)
    (hdata : s'.transactionSpecificData = s.transactionSpecificData)
    (hinsert : s'.transactionToLocationCacheInsert = s.transactionToLocationCacheInsert) :
    Found H placed s' := by
  intro p hp hrecorded hlive
  rw [CSupportTransactionsDatabase.effective_congr hdata hinsert]
  exact h p hp hrecorded hlive

theorem flush (h : Found H placed s) : Found H placed s.flush := by
  intro p hp hrecorded hlive
  rw [CSupportTransactionsDatabase.effective_flush]
  exact h p hp hrecorded hlive

theorem map (h : Found H placed s) {f : Placement → Placement} (htx : ∀ p, (f p).tx = p.tx)
    (hrecorded : ∀ p, (f p).recorded = p.recorded)
    (hlive : ∀ p, (f p).isLive = true → p.isLive = true) : Found H (placed.map f) s := by
  refine List.forall_mem_map.mpr fun p hp hrec hl => ?_
  rw [hrecorded] at hrec
  rw [htx]
  exact h p hp hrec (hlive p hl)

theorem set (h : Found H placed s) {hash : Uint256} {full : UInt64}
    (hsame : ∀ p ∈ placed, p.recorded = true → p.isLive = true → p.tx.getHash H = hash →
      p.tx.location = full) : Found H placed (s.setTransactionLocation hash full) := by
  intro p hp hrecorded hlive
  have hfound := h p hp hrecorded hlive
  by_cases hhash : p.tx.getHash H = hash
  · rw [hsame p hp hrecorded hlive hhash] at hfound ⊢
    exact CSupportTransactionsDatabase.effective_set hfound
  · rwa [CSupportTransactionsDatabase.effective_set_of_ne hhash]

end Found

section Support

variable {ctx : StorageContext} {P : CLocation → Prop} {placed : List Placement}
  {s s' : CSegmentFileStorage} {saved : CLocation → Option CDiskBlock} {p : Placement}
  {tx : CTransaction}

theorem CSegmentFileStorage.support_storeTransaction {locations : Finset CLocation}
    (hstored : s.storeTransaction ctx locations tx = some s') : s'.support = s.support := by
  obtain ⟨⟨block, s₁⟩, hused, hrest⟩ := Option.bind_eq_some_iff.mp hstored
  obtain ⟨written, -, hrest⟩ := Option.bind_eq_some_iff.mp hrest
  split at hrest
  case isFalse => cases hrest
  case isTrue =>
    obtain ⟨buddy, -, rfl⟩ := Option.map_eq_some_iff.mp hrest
    obtain ⟨hframe, -⟩ := useBlock_frame hused
    rw [hframe]
    rfl

theorem SoundPlaces.support_spend (hP : ∀ location, P location → Regular location)
    (h : SoundPlaces placed s saved) (hfiled : Filed P s saved) {txIn : CTxIn} (hp : p ∈ placed)
    (hhash : p.tx.getHash ctx.hashes = txIn.prevout.hash) (hwritten : p.written = true)
    (hlive : p.isLive = true)
    (hfound : s.support.transactionSpecificData txIn.prevout.hash = some p.tx.location)
    (hspent : s.spendOutput ctx tx txIn = some s') (hfits : s'.Fits) :
    ∃ support : CSupportTransactionsDatabase,
      support.transactionSpecificData = s.support.transactionSpecificData ∧
      support.transactionToLocationCacheInsert = s.support.transactionToLocationCacheInsert ∧
      s'.support = if (p.spend ctx.hashes txIn.prevout).isLive then
        support.setTransactionLocation ((p.spend ctx.hashes txIn.prevout).record.getHash ctx.hashes)
          p.tx.location else support := by
  obtain ⟨block, s₁, hused, -, hreleased⟩ :=
    h.spendOutput_read hP hfiled hp hhash hwritten hlive hfound hspent hfits
  obtain ⟨hframe, -⟩ := useBlock_frame hused
  refine ⟨s₁.support.eraseTransactionLocation txIn.prevout.hash, ?_, ?_, ?_⟩
  · rw [hframe]
    exact transactionSpecificData_erase_read hfound
  · rw [CSupportTransactionsDatabase.cacheInsert_eraseTransactionLocation, hframe]
    exact CSupportTransactionsDatabase.cacheInsert_getTransactionLocation
  · unfold releaseOutput at hreleased
    split at hreleased
    case isTrue hunspent =>
      obtain ⟨written, -, rfl⟩ := Option.map_eq_some_iff.mp hreleased
      exact (if_pos hunspent).symm
    case isFalse hlost =>
      obtain ⟨tree, -, hrest⟩ := Option.bind_eq_some_iff.mp hreleased
      obtain ⟨buddy, -, hrest⟩ := Option.bind_eq_some_iff.mp hrest
      obtain ⟨freed, -, rfl⟩ := Option.map_eq_some_iff.mp hrest
      exact (if_neg hlost).symm

end Support

section Queue

variable {ctx : StorageContext} {P : CLocation → Prop} {found : Uint256 → Option UInt64}
  {saved : CLocation → Option CDiskBlock} {placed : List Placement}
  {s s' : CSegmentFileStorage} {tx : CTransaction}

theorem Found.store (h : Found ctx.hashes placed s.support) {locations : Finset CLocation}
    (hstored : s.storeTransaction ctx locations tx = some s') :
    Found ctx.hashes (placed.map (·.store tx)) s'.support := by
  rw [support_storeTransaction hstored]
  exact h.map (fun _ => Placement.tx_store) (fun _ => Placement.recorded_store)
    fun _ hlive => Placement.isLive_store.symm.trans hlive

/-- The new hash of what is left leads to the place as well, and the old one still does. -/
theorem Found.spend (h : Found ctx.hashes placed s.support)
    (hP : ∀ location, P location → Regular location) (hplaces : SoundPlaces placed s saved)
    (hfiled : Filed P s saved) {txIn : CTxIn}
    (hproper : QueueStep.Proper ctx.hashes s.support.transactionSpecificData placed
      (.spend tx txIn.prevout))
    (hdistinct : QueueStep.Distinct ctx.hashes placed (.spend tx txIn.prevout))
    (hspent : s.spendOutput ctx tx txIn = some s') (hfits : s'.Fits) :
    Found ctx.hashes (placed.map (·.spend ctx.hashes txIn.prevout)) s'.support := by
  obtain ⟨p, hp, hhash, hwritten, hplive, hfound, -⟩ := hproper
  obtain ⟨support, hdata, hinsert, heq⟩ :=
    hplaces.support_spend hP hfiled hp hhash hwritten hplive hfound hspent hfits
  have hbefore : Found ctx.hashes placed support := h.congr hdata hinsert
  have hafter : Found ctx.hashes placed s'.support := by
    rw [heq]
    split
    case isTrue hlive => exact hbefore.set (hdistinct p hp hhash hlive)
    case isFalse => exact hbefore
  exact hafter.map (fun _ => Placement.tx_spend) (fun _ => Placement.recorded_spend)
    fun _ => Placement.isLive_of_spend

theorem Found.rule {locations : Finset CLocation}
    (hP : ∀ location, P location → Regular location)
    (hlocations : ∀ location ∈ locations, P location) :
    QueueRule ctx locations
      (fun placed step => QueueStep.Proper ctx.hashes found placed step ∧
        QueueStep.Distinct ctx.hashes placed step)
      fun placed s => s.Fits → SoundQueue P found saved placed s ∧
        Found ctx.hashes placed s.support where
  store := by
    intro placed s s' tx h hproper hstored hfits
    obtain ⟨hsound, hfound⟩ := h (hfits.of_keeps (keeps_storeTransaction hstored))
    exact ⟨(SoundQueue.rule hP hlocations).store placed s s' tx (fun _ => hsound) hproper.1 hstored
      hfits, hfound.store hstored⟩
  spend := by
    intro placed s s' tx txIn h hproper hspent hfits
    obtain ⟨hsound, hfound⟩ := h (hfits.of_keeps (keeps_spendOutput hspent))
    refine ⟨(SoundQueue.rule hP hlocations).spend placed s s' tx txIn (fun _ => hsound) hproper.1
      hspent hfits, ?_⟩
    obtain ⟨hproper, hdistinct⟩ := hproper
    rw [← hsound.found] at hproper
    exact hfound.spend hP hsound.places hsound.filed hproper hdistinct hspent hfits

end Queue

namespace PlacedStorage

/-- A location is recorded for a hash for which no other one waits or is recorded, and what is
left of a transaction does not get the hash of another one. -/
def Traceable (ctx : StorageContext) : Option PlacedStorage → PlacedCall → Prop
  | none, _ => True
  | some _, .assignPosition _ => True
  | some h, .setLocation tx =>
    (h.storage.support.transactionToLocationCacheInsert (tx.getHash ctx.hashes) = none ∨
      h.storage.support.transactionToLocationCacheInsert (tx.getHash ctx.hashes) =
        some tx.location) ∧
    ∀ p ∈ h.placed, p.recorded = true → p.isLive = true →
      p.tx.getHash ctx.hashes = tx.getHash ctx.hashes → p.tx.location = tx.location
  | some _, .flushLocations => True
  | some _, .includeTransaction .. => True
  | some _, .includeTransactions .. => True
  | some h, .flush => GuardedRun.Guarded (QueueStep.apply ctx.hashes) (QueueStep.Distinct ctx.hashes)
      h.placed (QueueStep.steps h.storage.queued)

instance decidableTraceable (ctx : StorageContext) : ∀ s call, Decidable (Traceable ctx s call)
  | none, _ => inferInstanceAs (Decidable True)
  | some _, .assignPosition _ => inferInstanceAs (Decidable True)
  | some h, .setLocation _ => inferInstanceAs (Decidable
      ((_ = _ ∨ _ = _) ∧ ∀ p ∈ h.placed, _ → _ → _ → _))
  | some _, .flushLocations => inferInstanceAs (Decidable True)
  | some _, .includeTransaction .. => inferInstanceAs (Decidable True)
  | some _, .includeTransactions .. => inferInstanceAs (Decidable True)
  | some _, .flush => inferInstanceAs (Decidable (GuardedRun.Guarded ..))

section Runs

variable {ctx : StorageContext}

theorem found_setLocation {h : PlacedStorage} {tx : CTransaction}
    (hfound : Found ctx.hashes h.placed h.storage.support)
    (htraceable : Traceable ctx (some h) (.setLocation tx)) :
    Found ctx.hashes (h.placed.map (·.locate tx))
      (h.storage.support.setTransactionLocation (tx.getHash ctx.hashes) tx.location) := by
  obtain ⟨hwaiting, hsame⟩ := htraceable
  have hold := hfound.set hsame
  refine List.forall_mem_map.mpr fun p hp hrecorded hlive => ?_
  rw [Placement.isLive_locate] at hlive
  rw [Placement.tx_locate]
  by_cases htx : p.tx = tx
  · rw [htx, CSupportTransactionsDatabase.effective_set_self]
    obtain hnone | hsome := hwaiting
    · rw [hnone, Option.none_or]
    · rw [hsome, Option.some_or]
  · rw [Placement.locate, if_neg htx] at hrecorded
    exact hold p hp hrecorded hlive

theorem found_react {h h' : PlacedStorage} {call : PlacedCall} (hsound : h.Sound)
    (hfound : Found ctx.hashes h.placed h.storage.support) (horderly : Orderly ctx (some h) call)
    (htraceable : Traceable ctx (some h) call) (hreact : h.react ctx call = some h')
    (hfits : h'.storage.Fits) : Found ctx.hashes h'.placed h'.storage.support := by
  cases call with
  | assignPosition tx =>
    obtain ⟨⟨position, s'⟩, hassigned, rfl⟩ := Option.map_eq_some_iff.mp hreact
    change Found ctx.hashes _ s'.support
    rw [(assignPosition_spec hassigned).frame]
    refine List.forall_mem_append.mpr ⟨hfound, fun p hp hrecorded => ?_⟩
    obtain ⟨full, -, rfl⟩ := List.mem_map.mp hp
    cases hrecorded
  | setLocation tx =>
    obtain rfl := Option.some.inj hreact
    exact found_setLocation hfound htraceable
  | flushLocations =>
    obtain rfl := Option.some.inj hreact
    exact hfound.flush
  | includeTransaction tx timeStamp =>
    obtain ⟨s', hincluded, rfl⟩ := Option.map_eq_some_iff.mp hreact
    obtain ⟨-, hdata, hinsert⟩ := frame_addToRecentlyUsed hincluded
    exact hfound.congr hdata hinsert
  | includeTransactions txs timeStamp =>
    obtain ⟨s', hincluded, rfl⟩ := Option.map_eq_some_iff.mp hreact
    obtain ⟨-, hdata, hinsert⟩ := frame_foldlM hincluded
    exact hfound.congr hdata hinsert
  | flush =>
    obtain ⟨⟨blocks, s'⟩, hflush, rfl⟩ := Option.map_eq_some_iff.mp hreact
    obtain ⟨hlocations, hstart, processed, hprocessed, hprocessedFits, hsupport, -⟩ :=
      hsound.places.flush_cases hsound.atRest.filed hflush hfits
    have hqueue := (Found.rule hsound.atRest.regular hlocations).processQueue
      (fun _ => ⟨hstart, hfound⟩) ((GuardedRun.guarded_and _ _).mpr ⟨horderly, htraceable⟩) hprocessed
    change Found ctx.hashes _ s'.support
    rw [hsupport]
    exact (hqueue hprocessedFits).2.flush

/-- The storage is sound, and what has been recorded is found. -/
def Traced (ctx : StorageContext) (h : PlacedStorage) : Prop :=
  h.Sound ∧ Found ctx.hashes h.placed h.storage.support

theorem traced_of_guarded {calls : List PlacedCall} {h : PlacedStorage}
    (hguarded : GuardedRun.Guarded (step ctx) (fun s call => Orderly ctx s call ∧
      Traceable ctx s call) (some init) calls)
    (hrun : GuardedRun.run (step ctx) (some init) calls = some h) (hfits : h.storage.Fits) :
    Traced ctx h := by
  have hstep : ∀ (s : Option PlacedStorage) (call : PlacedCall),
      (∀ h, s = some h → h.storage.Fits → Traced ctx h) →
        Orderly ctx s call ∧ Traceable ctx s call →
          ∀ h', step ctx s call = some h' → h'.storage.Fits → Traced ctx h' := by
    intro s call hs hok h' hh' hfits'
    obtain ⟨horderly, htraceable⟩ := hok
    obtain ⟨h, rfl, hreact⟩ := Option.bind_eq_some_iff.mp hh'
    obtain ⟨hsound, hfound⟩ := hs h rfl (fits_of_react hreact hfits')
    exact ⟨hsound.react horderly hreact hfits',
      found_react hsound hfound horderly htraceable hreact hfits'⟩
  have hstart : ∀ h', some init = some h' → h'.storage.Fits → Traced ctx h' := by
    intro h' heq _
    rw [← Option.some.inj heq]
    exact ⟨sound_init, nofun⟩
  exact hguarded.invariant hstep hstart h hrun hfits

end Runs

/-- The hash of the transaction leads to its place, and the block of this place is read back from
the segment file with the transaction, the outputs that have been spent nulled. -/
def Kept (ctx : StorageContext) (h : PlacedStorage) (p : Placement) : Prop :=
  (h.storage.support.getTransactionLocation (p.tx.getHash ctx.hashes)).1 = some p.tx.location ∧
  ∃ blockNumber block,
    numberOf h.storage.headersCache (CLocation.ofFullPosition p.tx.location) = some blockNumber ∧
    h.storage.getBlock blockNumber.toNat = some (some block) ∧
    block.read p.tx.location = some (p.tx.nullOutputs p.spent)

section Kept

variable {ctx : StorageContext}

theorem Sound.stored {h : PlacedStorage} (hsound : h.Sound) {p : Placement} (hp : p ∈ h.placed)
    (hwritten : p.written = true) (hlive : p.isLive = true) : ∃ blockNumber block,
    numberOf h.storage.headersCache (CLocation.ofFullPosition p.tx.location) = some blockNumber ∧
    h.storage.getBlock blockNumber.toNat = some (some block) ∧
    block.read p.tx.location = some p.record := by
  obtain ⟨block, hcurrent, hheld⟩ := hsound.places.held p hp hwritten hlive
  rw [current, hsound.atRest.usedBlocks] at hcurrent
  obtain ⟨-, -, blockNumber, hnumber, hlt, hstores⟩ := hsound.atRest.filed.stored _ block hcurrent
  obtain ⟨read, hread, hsame⟩ := getBlock_of_stores hstores hlt
  have hfits : FitsArea p.record p.tx.location := hsound.places.fitsArea hp hlive p.spent
  exact ⟨blockNumber, read, hnumber, hread, (hheld.of_sameSegment hsame hfits).read hfits⟩

theorem found_of_flush {h h' : PlacedStorage} (hreact : h.react ctx .flush = some h')
    (hash : Uint256) : h'.storage.support.transactionSpecificData hash =
      h'.storage.support.effective hash := by
  obtain ⟨⟨blocks, s'⟩, hflush, rfl⟩ := Option.map_eq_some_iff.mp hreact
  obtain ⟨-, processed, saved, -, hsaved, -, rfl⟩ := flushIteration_cases hflush
  have hsupport : saved.support = processed.support.flush := by
    rw [frame_saveBlocks hsaved]
  change saved.support.transactionSpecificData hash = saved.support.effective hash
  rw [hsupport]
  rfl

/-- After every completed iteration of an orderly and traceable run, every transaction that has
been stored and recorded and has an unspent output is kept, if the places in the files are not
reduced. -/
theorem kept_of_traceable {calls : List PlacedCall} {h : PlacedStorage}
    (hguarded : GuardedRun.Guarded (step ctx) (fun s call => Orderly ctx s call ∧
      Traceable ctx s call) (some init) (calls ++ [.flush]))
    (hrun : GuardedRun.run (step ctx) (some init) (calls ++ [.flush]) = some h)
    (hfits : h.storage.Fits) :
    ∀ p ∈ h.placed, p.written = true → p.recorded = true → p.isLive = true → Kept ctx h p := by
  intro p hp hwritten hrecorded hlive
  obtain ⟨hsound, hfound⟩ := traced_of_guarded hguarded hrun hfits
  refine ⟨?_, hsound.stored hp hwritten hlive⟩
  rw [GuardedRun.run_append] at hrun
  obtain ⟨before, -, hreact⟩ := Option.bind_eq_some_iff.mp hrun
  rw [CSupportTransactionsDatabase.getTransactionLocation_fst, found_of_flush hreact]
  exact hfound p hp hrecorded hlive

end Kept

end PlacedStorage

namespace TwoBlocks
open PlacedStorage

/-- An output is spent, and another one is left. -/
def inPart : List PlacedCall := put funds 3073 ++ add (spender 17 0) 68609

/-- A transaction with two outputs spends the last output of another bucket, and loses its area
to the one that spends its first output. -/
def victim : CTransaction := ⟨2, [⟨⟨1, 1⟩, [], 0⟩], [⟨5, []⟩, ⟨6, []⟩], 0, 0⟩

def heir : CTransaction := ⟨18, [⟨⟨2, 0⟩, [], 0⟩], [⟨5, []⟩], 0, 0⟩

def inheritance : List PlacedCall :=
  put funds 3073 ++ put (spender 17 0) 68609 ++ put victim 3074 ++ add heir 3074

theorem kept_inPart : ∃ h,
    GuardedRun.run (step context) (some init) (inPart ++ [.flush]) = some h ∧
      ∃ p ∈ h.placed, p.tx = funds.setLocation 3073 ∧ p.spent = [0] ∧ p.isLive = true ∧
        Kept context h p := by
  have hresult : (GuardedRun.run (step context) (some init) (inPart ++ [.flush])).map (fun h =>
      (decide (⟨funds.setLocation 3073, [0], true, true⟩ ∈ h.placed), h.storage.lastSegmentIndex,
        h.storage.headersCache.length)) = some (true, 1, 1) := by
    decide +kernel
  have hguarded : GuardedRun.Guarded (step context) (fun s call => Orderly context s call ∧
      Traceable context s call) (some init) (inPart ++ [.flush]) := by
    decide +kernel
  obtain ⟨h, hrun, hfacts⟩ := Option.map_eq_some_iff.mp hresult
  obtain ⟨hplaced, hsizes⟩ := Prod.mk.inj hfacts
  obtain ⟨hnumbers, hheaders⟩ := Prod.mk.inj hsizes
  have hfits : h.storage.Fits := ⟨by rw [hnumbers]; decide, by rw [hheaders]; decide⟩
  have hin := of_decide_eq_true hplaced
  exact ⟨h, hrun, _, hin, rfl, rfl, by decide,
    kept_of_traceable hguarded hrun hfits _ hin rfl rfl (by decide)⟩

/-- The record of the victim is overwritten, although one of its outputs is unspent. -/
theorem record_lost : ¬∀ (ctx : StorageContext) (calls : List PlacedCall) (h : PlacedStorage),
    GuardedRun.run (step ctx) (some init) (calls ++ [.flush]) = some h → h.storage.Fits →
      ∀ p ∈ h.placed, p.written = true → p.recorded = true → p.isLive = true → Kept ctx h p := by
  intro hall
  have hresult : (GuardedRun.run (step context) (some init) (inheritance ++ [.flush])).map
      (fun h => (decide (⟨victim.setLocation 3074, [0], true, true⟩ ∈ h.placed),
        ((numberOf h.storage.headersCache (CLocation.ofFullPosition 3074)).bind fun blockNumber =>
          (h.storage.getBlock blockNumber.toNat).bind fun block =>
            block.bind fun block => block.read 3074),
        h.storage.lastSegmentIndex, h.storage.headersCache.length)) =
      some (true, some (heir.setLocation 3074), 2, 1) := by
    decide +kernel
  obtain ⟨h, hrun, hfacts⟩ := Option.map_eq_some_iff.mp hresult
  obtain ⟨hplaced, hrest⟩ := Prod.mk.inj hfacts
  obtain ⟨hread, hsizes⟩ := Prod.mk.inj hrest
  obtain ⟨hnumbers, hheaders⟩ := Prod.mk.inj hsizes
  have hfits : h.storage.Fits := ⟨by rw [hnumbers]; decide, by rw [hheaders]; decide⟩
  obtain ⟨-, blockNumber, block, hnumber, hblock, hrecord⟩ :=
    hall context inheritance h hrun hfits _ (of_decide_eq_true hplaced) rfl rfl (by decide)
  change numberOf h.storage.headersCache (CLocation.ofFullPosition 3074) = _ at hnumber
  change block.read 3074 = _ at hrecord
  rw [hnumber, Option.bind_some, hblock, Option.bind_some, Option.bind_some, hrecord] at hread
  exact absurd hread (by decide)

end TwoBlocks

end Dims
