import Dims.AssignPosition

/-!
# What the parts of the storage leave alone

One lemma for each part of an include and of an iteration of the flush loop.
-/

namespace Dims.CSegmentFileStorage

section Frame

variable {ctx : StorageContext} {s s' : CSegmentFileStorage} {location : CLocation}

/-- The block of a location is in use already, or comes from the cache or from the segment
file, where it has a number; one that is not found there is new. -/
theorem useBlock_cases {block : CDiskBlock} (h : s.useBlock ctx location = some (block, s')) :
    s' = s ∧ s.usedBlocks.lookup location = some block ∨
      s.usedBlocks.lookup location = none ∧
        (s' = s.setUsedBlock location block ∧ (location, block) ∈ s.discBlockCache ∨
          ∃ s₁ blockNumber index, Assigned s location blockNumber s₁ index ∧
            s' = s₁.setUsedBlock location block ∧
            (blockNumber = -1 ∧ block = .new ctx.memory ∨
              ∃ found, s₁.getBlock blockNumber.toNat = some found ∧
                block = found.getD (.new ctx.memory))) := by
  unfold useBlock at h
  split at h
  case h_1 used hused =>
    cases h
    exact .inl ⟨rfl, hused⟩
  case h_2 hnone =>
    refine .inr ⟨hnone, ?_⟩
    split at h
    case h_1 element hfound =>
      cases h
      have hlocation : element.1 = location := by simpa using List.find?_some hfound
      subst hlocation
      exact .inl ⟨rfl, List.mem_of_find?_eq_some hfound⟩
    case h_2 =>
      obtain ⟨⟨found, s₁⟩, hfound, heq⟩ := Option.map_eq_some_iff.mp h
      cases heq
      obtain ⟨⟨blockNumber, s₂⟩, hassigned, hblock⟩ := Option.bind_eq_some_iff.mp hfound
      obtain ⟨index, hspec⟩ := assignBlockNumber_spec hassigned
      refine .inr ⟨s₂, blockNumber, index, hspec, ?_⟩
      split at hblock
      case isTrue hunset =>
        cases hblock
        exact ⟨rfl, .inl ⟨hunset, rfl⟩⟩
      case isFalse =>
        obtain ⟨read, hread, heq⟩ := Option.map_eq_some_iff.mp hblock
        cases heq
        exact ⟨rfl, .inr ⟨read, hread, rfl⟩⟩

/-- What the iteration leaves as it was for the other thread, and what only grows. -/
structure Keeps (s s' : CSegmentFileStorage) : Prop where
  queue : s'.transactionQueue = s.transactionQueue
  marked : s'.locationUsedFromLastUpdate = s.locationUsedFromLastUpdate
  found : ∀ hash location, s'.support.transactionSpecificData hash = some location →
    s.support.transactionSpecificData hash = some location
  trees : ∀ location, (s'.transactionLocationToBuddy location).isSome ↔
    (s.transactionLocationToBuddy location).isSome
  numbers : s.lastSegmentIndex ≤ s'.lastSegmentIndex
  headers : s.headersCache.length ≤ s'.headersCache.length
  inUse : ∀ location, (s.usedBlocks.lookup location).isSome →
    (s'.usedBlocks.lookup location).isSome

theorem Keeps.refl (s : CSegmentFileStorage) : Keeps s s :=
  ⟨rfl, rfl, fun _ _ => id, fun _ => Iff.rfl, le_rfl, le_rfl, fun _ => id⟩

theorem Keeps.trans {s₁ s₂ s₃ : CSegmentFileStorage} (h : Keeps s₁ s₂) (h' : Keeps s₂ s₃) :
    Keeps s₁ s₃ :=
  ⟨h'.queue.trans h.queue, h'.marked.trans h.marked,
    fun hash location hfound => h.found hash location (h'.found hash location hfound),
    fun location => (h'.trees location).trans (h.trees location), h.numbers.trans h'.numbers,
    h.headers.trans h'.headers,
    fun location hin => h'.inUse location (h.inUse location hin)⟩

theorem lookup_setUsedBlock (s : CSegmentFileStorage) (location : CLocation) (block : CDiskBlock)
    (location' : CLocation) : (s.setUsedBlock location block).usedBlocks.lookup location' =
      if location' = location then some block else s.usedBlocks.lookup location' := by
  change (s.usedBlocks.assign location block).lookup location' = _
  split
  case isTrue hsame => rw [hsame, OrderedMap.lookup_assign_self]
  case isFalse hne => rw [OrderedMap.lookup_assign_of_ne hne]

theorem keeps_setUsedBlock (s : CSegmentFileStorage) (location : CLocation) (block : CDiskBlock) :
    Keeps s (s.setUsedBlock location block) := by
  refine ⟨rfl, rfl, fun _ _ => id, fun _ => Iff.rfl, le_rfl, le_rfl, fun location' hin => ?_⟩
  rw [lookup_setUsedBlock]
  split
  · rfl
  · exact hin

theorem Assigned.keeps {blockNumber : UInt32} {index : Fin recordsNumber}
    (h : Assigned s location blockNumber s' index) : Keeps s s' := by
  have hnumbers : s.lastSegmentIndex ≤ s'.lastSegmentIndex := by
    obtain ⟨-, hlast, -⟩ | ⟨-, -, hlast, -⟩ := h.number <;> omega
  have hheaders : s.headersCache.length ≤ s'.headersCache.length := by
    rw [h.length]
    exact le_max_left _ _
  rw [h.frame] at hnumbers hheaders ⊢
  exact ⟨rfl, rfl, fun _ _ => id, fun _ => Iff.rfl, hnumbers, hheaders, fun _ => id⟩

theorem keeps_useBlock {block : CDiskBlock} (h : s.useBlock ctx location = some (block, s')) :
    Keeps s s' := by
  obtain ⟨rfl, -⟩ | ⟨-, ⟨rfl, -⟩ | ⟨s₁, blockNumber, index, hassigned, rfl, -⟩⟩ := useBlock_cases h
  · exact .refl _
  · exact keeps_setUsedBlock ..
  · exact hassigned.keeps.trans (keeps_setUsedBlock ..)

theorem keeps_of_eq (hqueue : s'.transactionQueue = s.transactionQueue)
    (hmarked : s'.locationUsedFromLastUpdate = s.locationUsedFromLastUpdate)
    (hfound : ∀ hash location, s'.support.transactionSpecificData hash = some location →
      s.support.transactionSpecificData hash = some location)
    (htrees : ∀ location, (s'.transactionLocationToBuddy location).isSome ↔
      (s.transactionLocationToBuddy location).isSome)
    (hnumbers : s'.lastSegmentIndex = s.lastSegmentIndex)
    (hheaders : s'.headersCache = s.headersCache) (hinUse : s'.usedBlocks = s.usedBlocks) :
    Keeps s s' :=
  ⟨hqueue, hmarked, hfound, htrees, hnumbers.ge, (congrArg List.length hheaders).ge,
    fun _ hin => hinUse ▸ hin⟩

theorem keeps_storeTransaction {locations : Finset CLocation} {tx : CTransaction}
    (h : s.storeTransaction ctx locations tx = some s') : Keeps s s' := by
  obtain ⟨⟨block, s₁⟩, hused, h⟩ := Option.bind_eq_some_iff.mp h
  obtain ⟨written, -, h⟩ := Option.bind_eq_some_iff.mp h
  split at h
  case isFalse => cases h
  case isTrue =>
    obtain ⟨buddy, -, rfl⟩ := Option.map_eq_some_iff.mp h
    exact (keeps_useBlock hused).trans (keeps_setUsedBlock ..)

theorem releaseOutput_cases {tx inTransaction : CTransaction} {block : CDiskBlock} {full : UInt64}
    (h : s.releaseOutput ctx tx inTransaction block full = some s') :
    (∃ written, block.write full inTransaction = some written ∧ s' = { s with
      support := s.support.setTransactionLocation (inTransaction.getHash ctx.hashes) full
      }.setUsedBlock (CLocation.ofFullPosition full) written) ∨
    ∃ buddy tree freed,
      s.transactionLocationToBuddy (CLocation.ofFullPosition tx.location) = some buddy ∧
        block.tree.buddyFree (getIndex full) = some tree ∧
        buddy.buddyFree (getIndex full) = some freed ∧
        s' = { s with
          transactionLocationToBuddy := Function.update s.transactionLocationToBuddy
            (CLocation.ofFullPosition tx.location) (some freed)
          }.setUsedBlock (CLocation.ofFullPosition full) { block with tree := tree } := by
  unfold releaseOutput at h
  split at h
  case isTrue =>
    obtain ⟨written, hwritten, rfl⟩ := Option.map_eq_some_iff.mp h
    exact .inl ⟨written, hwritten, rfl⟩
  case isFalse =>
    obtain ⟨tree, htree, h⟩ := Option.bind_eq_some_iff.mp h
    obtain ⟨buddy, hbuddy, h⟩ := Option.bind_eq_some_iff.mp h
    obtain ⟨freed, hfreed, rfl⟩ := Option.map_eq_some_iff.mp h
    exact .inr ⟨buddy, tree, freed, hbuddy, htree, hfreed, rfl⟩

theorem keeps_releaseOutput {tx inTransaction : CTransaction} {block : CDiskBlock} {full : UInt64}
    (h : s.releaseOutput ctx tx inTransaction block full = some s') : Keeps s s' := by
  obtain ⟨written, -, rfl⟩ | ⟨buddy, tree, freed, hbuddy, -, -, rfl⟩ := releaseOutput_cases h
  · have hset : Keeps s { s with
        support := s.support.setTransactionLocation (inTransaction.getHash ctx.hashes) full } :=
      keeps_of_eq rfl rfl (fun _ _ => id) (fun _ => Iff.rfl) rfl rfl rfl
    exact hset.trans (keeps_setUsedBlock ..)
  · have hfreed : Keeps s { s with
        transactionLocationToBuddy := Function.update s.transactionLocationToBuddy
          (CLocation.ofFullPosition tx.location) (some freed) } :=
      keeps_of_eq rfl rfl (fun _ _ => id) (fun _ => isSome_update hbuddy) rfl rfl rfl
    exact hfreed.trans (keeps_setUsedBlock ..)

theorem spendOutput_cases {tx : CTransaction} {txIn : CTxIn}
    (h : s.spendOutput ctx tx txIn = some s') :
    ∃ full block s₁ inTransaction,
      s.support.transactionSpecificData txIn.prevout.hash = some full ∧
      { s with support := (s.support.getTransactionLocation txIn.prevout.hash).2 }.useBlock ctx
        (CLocation.ofFullPosition full) = some (block, s₁) ∧
      { s₁ with
        support := s₁.support.eraseTransactionLocation txIn.prevout.hash }.releaseOutput ctx tx
          inTransaction block full = some s' := by
  obtain ⟨full, hfull, h⟩ := Option.bind_eq_some_iff.mp h
  obtain ⟨⟨block, s₁⟩, hused, h⟩ := Option.bind_eq_some_iff.mp h
  obtain ⟨inTransaction, -, h⟩ := Option.bind_eq_some_iff.mp h
  split at h
  case isFalse => cases h
  case isTrue => exact ⟨full, block, s₁, _, by simpa using hfull, hused, h⟩

theorem keeps_lookup (s : CSegmentFileStorage) (hash : Uint256) :
    Keeps s { s with support := (s.support.getTransactionLocation hash).2 } :=
  keeps_of_eq rfl rfl (fun _ _ hfound => by simpa using hfound) (fun _ => Iff.rfl) rfl rfl rfl

theorem keeps_erase (s : CSegmentFileStorage) (hash : Uint256) :
    Keeps s { s with support := s.support.eraseTransactionLocation hash } :=
  keeps_of_eq rfl rfl (fun _ _ => CSupportTransactionsDatabase.eq_of_eraseTransactionLocation)
    (fun _ => Iff.rfl) rfl rfl rfl

theorem keeps_spendOutput {tx : CTransaction} {txIn : CTxIn}
    (h : s.spendOutput ctx tx txIn = some s') : Keeps s s' := by
  obtain ⟨full, block, s₁, inTransaction, -, hused, hreleased⟩ := spendOutput_cases h
  exact (keeps_lookup s _).trans
    ((keeps_useBlock hused).trans ((keeps_erase s₁ _).trans (keeps_releaseOutput hreleased)))

theorem keeps_spendOutputs {tx : CTransaction} {vin : List CTxIn}
    (h : spendOutputs ctx tx vin s = some s') : Keeps s s' := by
  induction vin generalizing s with
  | nil =>
    cases h
    exact .refl _
  | cons txIn vin ih =>
    obtain ⟨s₁, hfirst, hrest⟩ := Option.bind_eq_some_iff.mp h
    exact (keeps_spendOutput hfirst).trans (ih hrest)

theorem keeps_processTransaction {locations : Finset CLocation} {tx : CTransaction}
    (h : s.processTransaction ctx locations tx = some s') : Keeps s s' := by
  obtain ⟨s₁, hstored, hspent⟩ := Option.bind_eq_some_iff.mp h
  exact (keeps_storeTransaction hstored).trans (keeps_spendOutputs hspent)

theorem keeps_processQueue {locations : Finset CLocation} {txs : List CTransaction}
    (h : processQueue ctx locations txs s = some s') : Keeps s s' := by
  induction txs generalizing s with
  | nil =>
    cases h
    exact .refl _
  | cons tx txs ih =>
    obtain ⟨s₁, hfirst, hrest⟩ := Option.bind_eq_some_iff.mp h
    exact (keeps_processTransaction hfirst).trans (ih hrest)

theorem keeps_saveBlock (s : CSegmentFileStorage) (index : ℕ) (block : CDiskBlock) :
    Keeps s (s.saveBlock index block) :=
  keeps_of_eq rfl rfl (fun _ _ => id) (fun _ => Iff.rfl) rfl rfl rfl

theorem keeps_saveBlocks {blocks : List (CLocation × CDiskBlock)}
    (h : saveBlocks blocks s = some s') : Keeps s s' := by
  induction blocks generalizing s with
  | nil =>
    cases h
    exact .refl _
  | cons block blocks ih =>
    obtain ⟨⟨blockNumber, s₁⟩, hassigned, hrest⟩ := Option.bind_eq_some_iff.mp h
    obtain ⟨index, hspec⟩ := assignBlockNumber_spec hassigned
    exact hspec.keeps.trans ((keeps_saveBlock ..).trans (ih hrest))

theorem usedBlocks_saveBlocks {blocks : List (CLocation × CDiskBlock)}
    (h : saveBlocks blocks s = some s') : s'.usedBlocks = s.usedBlocks := by
  induction blocks generalizing s with
  | nil =>
    cases h
    rfl
  | cons block blocks ih =>
    obtain ⟨⟨blockNumber, s₁⟩, hassigned, hrest⟩ := Option.bind_eq_some_iff.mp h
    obtain ⟨index, hspec⟩ := assignBlockNumber_spec hassigned
    have hsame : s₁.usedBlocks = s.usedBlocks := by rw [hspec.frame]
    exact (ih hrest).trans hsame

theorem saveAll_cases (h : s.saveAll = some s') :
    ∃ saved, saveBlocks s.usedBlocks.entries { s with support := s.support.flush } = some saved ∧
      s' = saved.saveHeaders.reloadCache := by
  obtain ⟨saved, hsaved, rfl⟩ := Option.map_eq_some_iff.mp h
  exact ⟨saved, hsaved, rfl⟩

theorem flushIteration_cases {blocks : List (CLocation × CDiskBlock)}
    (h : s.flushIteration ctx = some (blocks, s')) :
    s.locationsKnown ∧ ∃ processed saved,
      processQueue ctx s.locationUsedFromLastUpdate s.queued s.clearQueue = some processed ∧
      saveBlocks processed.usedBlocks.entries
        { processed with support := processed.support.flush } = some saved ∧
      blocks = processed.usedBlocks.entries ∧ s' = saved.saveHeaders.reloadCache.clearUsed := by
  unfold flushIteration at h
  split at h
  case isFalse => cases h
  case isTrue hknown =>
    obtain ⟨processed, hprocessed, h⟩ := Option.bind_eq_some_iff.mp h
    obtain ⟨all, hall, heq⟩ := Option.map_eq_some_iff.mp h
    obtain ⟨saved, hsaved, rfl⟩ := saveAll_cases hall
    cases heq
    exact ⟨hknown, processed, saved, hprocessed, hsaved, rfl, rfl⟩

/-- An iteration leaves no block in use; the map keeps its locations, and the files grow. -/
theorem flushIteration_frame {blocks : List (CLocation × CDiskBlock)}
    (h : s.flushIteration ctx = some (blocks, s')) :
    (∀ location, (s'.transactionLocationToBuddy location).isSome ↔
      (s.transactionLocationToBuddy location).isSome) ∧
      s.lastSegmentIndex ≤ s'.lastSegmentIndex ∧
      s.headersCache.length ≤ s'.headersCache.length ∧ s'.usedBlocks = .empty := by
  obtain ⟨-, processed, saved, hprocessed, hsaved, -, rfl⟩ := flushIteration_cases h
  have hkeeps := keeps_processQueue hprocessed
  have hkeeps' := keeps_saveBlocks hsaved
  exact ⟨fun location => (hkeeps'.trees location).trans (hkeeps.trees location),
    hkeeps.numbers.trans hkeeps'.numbers, hkeeps.headers.trans hkeeps'.headers, rfl⟩

theorem mem_insertQueue {timeStamp : UInt64} {txs : List CTransaction}
    {queue : List (UInt64 × List CTransaction)} {tx : CTransaction} :
    tx ∈ (insertQueue timeStamp txs queue).flatMap Prod.snd ↔
      tx ∈ txs ∨ tx ∈ queue.flatMap Prod.snd := by
  induction queue with
  | nil => simp [insertQueue]
  | cons entry queue ih =>
    rw [insertQueue]
    split
    · simp
    · rw [List.flatMap_cons, List.mem_append, ih, List.flatMap_cons, List.mem_append]
      exact or_left_comm

theorem markInputs_spec {vin : List CTxIn} (h : s.markInputs vin = some s') :
    s' = { s with
      support := s'.support, locationUsedFromLastUpdate := s'.locationUsedFromLastUpdate } ∧
      s'.support.transactionSpecificData = s.support.transactionSpecificData ∧
      s'.support.transactionToLocationCacheInsert = s.support.transactionToLocationCacheInsert ∧
      s.locationUsedFromLastUpdate ⊆ s'.locationUsedFromLastUpdate ∧
      ∀ txIn ∈ vin, txIn.prevout.isNull = false →
        ∀ location, s.support.transactionSpecificData txIn.prevout.hash = some location →
          CLocation.ofFullPosition location ∈ s'.locationUsedFromLastUpdate := by
  induction vin generalizing s with
  | nil =>
    cases h
    exact ⟨rfl, rfl, rfl, Finset.Subset.refl _, nofun⟩
  | cons txIn vin ih =>
    rw [markInputs] at h
    split at h
    case isTrue hnull =>
      obtain ⟨hframe, hfound, hinsert, hsub, hmarked⟩ := ih h
      refine ⟨hframe, hfound, hinsert, hsub, fun txIn' hmem hnotNull => ?_⟩
      obtain rfl | hrest := List.mem_cons.mp hmem
      · rw [hnull] at hnotNull
        cases hnotNull
      · exact hmarked txIn' hrest hnotNull
    case isFalse =>
      obtain ⟨location, hlocation, h⟩ := Option.bind_eq_some_iff.mp h
      obtain ⟨hframe, hfound, hinsert, hsub, hmarked⟩ := ih h
      refine ⟨hframe, hfound.trans (by simp), hinsert.trans (by simp),
        (Finset.subset_insert _ _).trans hsub, fun txIn' hmem hnotNull location' hlocation' => ?_⟩
      obtain rfl | hrest := List.mem_cons.mp hmem
      · rw [CSupportTransactionsDatabase.getTransactionLocation_fst, hlocation'] at hlocation
        cases hlocation
        exact hsub (Finset.mem_insert_self _ _)
      · exact hmarked txIn' hrest hnotNull location' (by simpa using hlocation')

end Frame

end Dims.CSegmentFileStorage
