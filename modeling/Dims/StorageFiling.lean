import Dims.FlushIteration

/-!
# The blocks in the segment file

Every used record belongs to one location, and its number is the place where the block of
the location has been saved last. An iteration of the flush loop keeps this as long as
the places in the files are not reduced.
-/

namespace Dims.CSegmentFileStorage
open CSegmentHeader SegmentFile

section HeadersFile

variable {file : Option SegmentFile}

theorem saveHeadersFrom_eq (start : ℕ) (headers : List CSegmentHeader) :
    saveHeadersFrom start headers file =
      saveFrom segmentSize start (headers.map CSegmentHeader.segment) file := by
  induction headers generalizing start file with
  | nil => rfl
  | cons header headers ih => exact ih (start + 1)

/-- The file holds the headers. -/
def HeadersStored (headersCache : List CSegmentHeader) (file : Option SegmentFile) : Prop :=
  (headersCache = [] → file = none) ∧
    ∀ i header, headersCache[i]? = some header → Stores segmentSize i header.segment file

theorem saveHeadersFrom_stores {headers : List CSegmentHeader}
    (hrange : segmentSize * headers.length ≤ 2 ^ 32) {i : ℕ} {header : CSegmentHeader}
    (hi : headers[i]? = some header) :
    Stores segmentSize i header.segment (saveHeadersFrom 0 headers file) := by
  have hstored : Stores segmentSize (0 + i) header.segment
      (saveFrom segmentSize 0 (headers.map CSegmentHeader.segment) file) := by
    refine stores_saveFrom ?_ ?_
    · rwa [Nat.zero_add, List.length_map]
    · rw [List.getElem?_map, hi, Option.map_some]
  rwa [saveHeadersFrom_eq, ← Nat.zero_add i]

end HeadersFile

structure Fits (s : CSegmentFileStorage) : Prop where
  blocks : CDiskBlock.segmentSize * s.lastSegmentIndex ≤ 2 ^ 32
  headers : segmentSize * s.headersCache.length ≤ 2 ^ 32

theorem Fits.lt {s : CSegmentFileStorage} (h : s.Fits) : s.lastSegmentIndex < 2 ^ 32 := by
  have hsize : CDiskBlock.segmentSize = 532480 := by decide
  have hblocks := h.blocks
  rw [hsize] at hblocks
  omega

theorem Fits.of_keeps {s s' : CSegmentFileStorage} (h : s'.Fits) (hkeeps : Keeps s s') : s.Fits :=
  ⟨(Nat.mul_le_mul_left _ hkeeps.numbers).trans h.blocks,
    (Nat.mul_le_mul_left _ hkeeps.headers).trans h.headers⟩

/-- What has been saved last at each location, after the blocks have been saved. -/
def savedBy (blocks : List (CLocation × CDiskBlock)) (saved : CLocation → Option CDiskBlock) :
    CLocation → Option CDiskBlock :=
  blocks.foldl (fun saved block => Function.update saved block.1 (some block.2)) saved

theorem segment_ofSegment (read : ℕ → UInt8) (i : ℕ) :
    (CDiskBlock.ofSegment read).segment i = read i := by
  unfold CDiskBlock.segment CDiskBlock.ofSegment
  split
  case isTrue htree => exact if_pos htree
  case isFalse hnot =>
    exact congrArg read (Nat.add_sub_cancel' (Nat.le_of_not_lt hnot))

def SameSegment (block block' : CDiskBlock) : Prop :=
  ∀ i < CDiskBlock.segmentSize, block.segment i = block'.segment i

theorem SameSegment.tree {block block' : CDiskBlock} (h : SameSegment block block') {i : ℕ}
    (hi : i < CSimpleBuddy.treeSize) : block.tree i = block'.tree i := by
  have hsegment := h i (Nat.lt_add_right _ hi)
  rwa [CDiskBlock.segment, CDiskBlock.segment, if_pos hi, if_pos hi] at hsegment

/-- The locations that the storage knows of meet `P`, the trees are well formed, and the cache,
the headers and the segment file hold what has been saved. -/
structure Filed (P : CLocation → Prop) (s : CSegmentFileStorage)
    (saved : CLocation → Option CDiskBlock) : Prop where
  trees : ∀ location tree, s.transactionLocationToBuddy location = some tree →
    P location ∧ tree.WellFormed
  known : ∀ hash full, s.support.transactionSpecificData hash = some full ∨
    s.support.transactionToLocationCacheInsert hash = some full → P (CLocation.ofFullPosition full)
  inUse : ∀ location block, s.usedBlocks.lookup location = some block →
    P location ∧ block.tree.WellFormed
  cached : ∀ element ∈ s.discBlockCache, s.usedBlocks.lookup element.1 = none →
    saved element.1 = some element.2
  stored : ∀ location block, saved location = some block → P location ∧ block.tree.WellFormed ∧
    ∃ blockNumber, numberOf s.headersCache location = some blockNumber ∧
      blockNumber.toNat < s.alreadyStoredSegments ∧
      Stores CDiskBlock.segmentSize blockNumber.toNat block.segment s.segments
  recorded : ∀ header index blockNumber, numberAt s.headersCache header index = some blockNumber →
    ∃ location, P location ∧ headerOf location = header ∧ indexOf location = some index ∧
      ((s.usedBlocks.lookup location).or (saved location)).isSome
  numbered : Numbered s.headersCache s.lastSegmentIndex
  counted : s.alreadyStoredSegments ≤ s.lastSegmentIndex
  chained : Chained s.headersCache
  headers : s.headersCache = [] → s.headers = none

namespace Filed

variable {ctx : StorageContext} {P : CLocation → Prop} {s s' s₁ : CSegmentFileStorage}
  {saved : CLocation → Option CDiskBlock} {location : CLocation} {block : CDiskBlock}

theorem frame (h : Filed P s saved) (queue : List (UInt64 × List CTransaction))
    (usedBuddy : ℕ → Option ℕ) {buddies : CLocation → Option CSimpleBuddy}
    (marked : Finset CLocation) {support : CSupportTransactionsDatabase}
    (htrees : ∀ location tree, buddies location = some tree → P location ∧ tree.WellFormed)
    (hknown : ∀ hash full, support.transactionSpecificData hash = some full ∨
      support.transactionToLocationCacheInsert hash = some full → P (CLocation.ofFullPosition full)) :
    Filed P { s with
      transactionQueue := queue
      usedBuddy := usedBuddy
      transactionLocationToBuddy := buddies
      locationUsedFromLastUpdate := marked
      support := support } saved :=
  ⟨htrees, hknown, h.inUse, h.cached, h.stored, h.recorded, h.numbered, h.counted, h.chained,
    h.headers⟩

theorem setUsedBlock (h : Filed P s saved) (hlocation : P location)
    (hblock : block.tree.WellFormed) : Filed P (s.setUsedBlock location block) saved := by
  refine ⟨h.trees, h.known, fun location' block' hin => ?_, fun element hin hnone => ?_, h.stored,
    fun header index blockNumber hnumber => ?_, h.numbered, h.counted, h.chained, h.headers⟩
  · rw [lookup_setUsedBlock] at hin
    split at hin
    case isTrue hsame =>
      cases hin
      exact ⟨hsame ▸ hlocation, hblock⟩
    case isFalse => exact h.inUse location' block' hin
  · rw [lookup_setUsedBlock] at hnone
    split at hnone
    case isTrue => cases hnone
    case isFalse => exact h.cached element hin hnone
  · obtain ⟨location', hP, hheader, hindex, howned⟩ := h.recorded header index blockNumber hnumber
    refine ⟨location', hP, hheader, hindex, ?_⟩
    rw [lookup_setUsedBlock]
    split
    case isTrue => rfl
    case isFalse => exact howned

section Numbers

variable {blockNumber : UInt32} {index : Fin recordsNumber}

theorem assign (h : Filed P s saved) (hlocation : P location)
    (hassigned : Assigned s location blockNumber s₁ index) (hlast : s.lastSegmentIndex < 2 ^ 32)
    (hblock : block.tree.WellFormed) : Filed P (s₁.setUsedBlock location block) saved := by
  have hframe : s₁.setUsedBlock location block = { s.setUsedBlock location block with
      headersCache := s₁.headersCache, lastSegmentIndex := s₁.lastSegmentIndex } := by
    rw [hassigned.frame]
    rfl
  have hused := h.setUsedBlock hlocation hblock
  have hnumbered := h.numbered.assign hassigned hlast
  rw [hframe]
  refine ⟨hused.trees, hused.known, hused.inUse, hused.cached, fun location' block' hsaved => ?_,
    fun header index' n hn => ?_, hnumbered, h.counted.trans hassigned.keeps.numbers,
    hassigned.chained h.chained, fun hempty => ?_⟩
  · obtain ⟨hP, hshape, n, hn, hstored⟩ := h.stored location' block' hsaved
    exact ⟨hP, hshape, n, hassigned.numberOf_eq hn, hstored⟩
  · change numberAt s₁.headersCache header index' = some n at hn
    rw [hassigned.numbers] at hn
    split at hn
    case isTrue hplace =>
      refine ⟨location, hlocation, hplace.1.symm, ?_, ?_⟩
      · rw [hassigned.place, hplace.2]
      · change (((s.setUsedBlock location block).usedBlocks.lookup location).or _).isSome
        rw [lookup_setUsedBlock, if_pos rfl]
        rfl
    case isFalse => exact hused.recorded header index' n hn
  · have hlength := hassigned.length
    change s₁.headersCache = [] at hempty
    rw [hempty, List.length_nil] at hlength
    omega

variable (hP : ∀ location, P location → Regular location)

include hP

theorem numberAt_eq_none (h : Filed P s saved) (hlocation : P location)
    (hindex : indexOf location = some index) (hnone : s.usedBlocks.lookup location = none)
    (hsaved : saved location = none) : numberAt s.headersCache (headerOf location) index = none := by
  cases hat : numberAt s.headersCache (headerOf location) index with
  | none => rfl
  | some n =>
    obtain ⟨location', hlocation', hheader, hindex', howned⟩ := h.recorded _ _ _ hat
    have hsame := (hP _ hlocation').eq_of_place (hP _ hlocation) hheader (hindex'.trans hindex.symm)
    rw [hsame, hnone, hsaved] at howned
    cases howned

/-- What is read for a location that is not in use is what has been saved there last, or nothing. -/
theorem read (h : Filed P s saved) (hlocation : P location)
    (hassigned : Assigned s location blockNumber s₁ index) (hfits : s₁.Fits)
    (hnone : s.usedBlocks.lookup location = none)
    (hread : blockNumber = -1 ∧ block = .new ctx.memory ∨
      ∃ found, s₁.getBlock blockNumber.toNat = some found ∧ block = found.getD (.new ctx.memory)) :
    match saved location with
    | some block' => SameSegment block block'
    | none => block = .new ctx.memory := by
  have hstored : s₁.alreadyStoredSegments = s.alreadyStoredSegments := by rw [hassigned.frame]
  have hsegments : s₁.segments = s.segments := by rw [hassigned.frame]
  have hlast := hfits.lt
  have hkeeps := hassigned.keeps.numbers
  cases hsaved : saved location with
  | none =>
    obtain ⟨-, hnew⟩ | ⟨found, hfound, rfl⟩ := hread
    · exact hnew
    · obtain ⟨hold, -⟩ | ⟨-, hnumber, -⟩ := hassigned.number
      · rw [h.numberAt_eq_none hP hlocation hassigned.place hnone hsaved] at hold
        cases hold
      · have hbeyond : s₁.alreadyStoredSegments ≤ blockNumber.toNat := by
          rw [hnumber, hstored, UInt32.toNat_ofNat_of_lt' (show s.lastSegmentIndex < 2 ^ 32 by omega)]
          exact h.counted
        rw [CSegmentFileStorage.getBlock, if_pos hbeyond] at hfound
        cases hfound
        rfl
  | some block' =>
    obtain ⟨-, -, n, hn, hlt, hstores⟩ := h.stored location block' hsaved
    have hsame : n = blockNumber := by
      rw [numberOf, hassigned.place, Option.bind_some] at hn
      obtain ⟨hold, -⟩ | ⟨hfree, -⟩ := hassigned.number
      · exact Option.some.inj (hn.symm.trans hold)
      · rw [hfree] at hn
        cases hn
    subst hsame
    obtain ⟨hunset, -⟩ | ⟨found, hfound, rfl⟩ := hread
    · -- the largest number is that of no block
      have hcounted := h.counted
      have hmax : (-1 : UInt32).toNat = 2 ^ 32 - 1 := by decide
      have hsize : CDiskBlock.segmentSize = 532480 := by decide
      have hblocks := hfits.blocks
      rw [hsize] at hblocks
      rw [hunset, hmax] at hlt
      omega
    · obtain ⟨file, hfile, read, hload, hread⟩ := hstores
      rw [CSegmentFileStorage.getBlock, if_neg (by omega), hsegments, hfile] at hfound
      simp only [hload, Option.map_some, Option.some.injEq] at hfound
      subst hfound
      intro i hi
      rw [← hread i hi, Option.getD_some, segment_ofSegment]

/-- What is used for a location is the block in use, or what has been saved last, or new. -/
theorem useBlock (h : Filed P s saved) (hlocation : P location)
    (hused : s.useBlock ctx location = some (block, s')) (hfits : s'.Fits) :
    Filed P s' saved ∧ block.tree.WellFormed ∧ s'.usedBlocks.lookup location = some block ∧
      match (s.usedBlocks.lookup location).or (saved location) with
      | some block' => SameSegment block block'
      | none => block = .new ctx.memory := by
  obtain ⟨rfl, hin⟩ | ⟨hnone, ⟨rfl, hcached⟩ | ⟨s₁, n, index, hassigned, rfl, hread⟩⟩ :=
    useBlock_cases hused
  · refine ⟨h, (h.inUse location block hin).2, hin, ?_⟩
    rw [hin]
    exact fun _ _ => rfl
  · have hsaved := h.cached (location, block) hcached hnone
    have hblock := (h.stored location block hsaved).2.1
    refine ⟨h.setUsedBlock hlocation hblock, hblock, by rw [lookup_setUsedBlock, if_pos rfl], ?_⟩
    rw [hnone, Option.none_or, hsaved]
    exact fun _ _ => rfl
  · have hfits₁ : s₁.Fits := ⟨hfits.blocks, hfits.headers⟩
    have hsame := h.read hP hlocation hassigned hfits₁ hnone hread
    have hblock : block.tree.WellFormed := by
      cases hsaved : saved location with
      | none =>
        rw [hsaved] at hsame
        rw [hsame]
        exact CSimpleBuddy.new_wellFormed
      | some block' =>
        rw [hsaved] at hsame
        exact (h.stored location block' hsaved).2.1.of_agree fun i hi => hsame.tree hi
    refine ⟨h.assign hlocation hassigned (hfits₁.of_keeps hassigned.keeps).lt hblock, hblock,
      by rw [lookup_setUsedBlock, if_pos rfl], ?_⟩
    rwa [hnone, Option.none_or]

end Numbers

section Process

theorem write_tree {full : UInt64} {tx : CTransaction} {written : CDiskBlock}
    (h : block.write full tx = some written) : written.tree = block.tree := by
  unfold CDiskBlock.write at h
  dsimp only at h
  split at h
  case isTrue =>
    cases h
    rfl
  case isFalse => cases h

theorem releaseOutput {tx inTransaction : CTransaction} {full : UInt64} (h : Filed P s saved)
    (hfull : P (CLocation.ofFullPosition full)) (hblock : block.tree.WellFormed)
    (hreleased : s.releaseOutput ctx tx inTransaction block full = some s') : Filed P s' saved := by
  obtain ⟨written, hwritten, rfl⟩ | ⟨buddy, tree, freed, hbuddy, htree, hfreed, rfl⟩ :=
    releaseOutput_cases hreleased
  · refine (h.frame s.transactionQueue s.usedBuddy s.locationUsedFromLastUpdate h.trees
      fun hash full' hin => ?_).setUsedBlock hfull (by rwa [write_tree hwritten])
    obtain hold | hnew := hin
    · exact h.known hash full' (.inl hold)
    · change insertNew _ _ _ hash = some full' at hnew
      by_cases hhash : hash = inTransaction.getHash ctx.hashes
      · rw [hhash, insertNew_self] at hnew
        obtain hold | ⟨-, heq⟩ := Option.or_eq_some_iff.mp hnew
        · exact h.known _ full' (.inr hold)
        · rwa [← Option.some.inj heq]
      · rw [insertNew_of_ne hhash] at hnew
        exact h.known hash full' (.inr hnew)
  · refine (h.frame s.transactionQueue s.usedBuddy s.locationUsedFromLastUpdate
      (fun location' tree' hin => ?_) h.known).setUsedBlock hfull (hblock.buddyFree htree)
    obtain ⟨hknown, hshape⟩ := h.trees _ _ hbuddy
    by_cases hsame : location' = CLocation.ofFullPosition tx.location
    · rw [hsame, Function.update_self] at hin
      cases hin
      exact ⟨hsame ▸ hknown, hshape.buddyFree hfreed⟩
    · rw [Function.update_of_ne hsame] at hin
      exact h.trees location' tree' hin

variable (hP : ∀ location, P location → Regular location)

include hP

theorem storeTransaction {locations : Finset CLocation} {tx : CTransaction} (h : Filed P s saved)
    (hlocations : ∀ location ∈ locations, P location)
    (hstored : s.storeTransaction ctx locations tx = some s') (hfits : s'.Fits) :
    Filed P s' saved ∧ (s'.usedBlocks.lookup (CLocation.ofFullPosition tx.location)).isSome := by
  obtain ⟨⟨block, s₁⟩, hused, hstored⟩ := Option.bind_eq_some_iff.mp hstored
  obtain ⟨written, -, hstored⟩ := Option.bind_eq_some_iff.mp hstored
  split at hstored
  case isFalse => cases hstored
  case isTrue hin =>
    obtain ⟨buddy, hbuddy, rfl⟩ := Option.map_eq_some_iff.mp hstored
    have hlocation := hlocations _ hin
    obtain ⟨hfiled, -⟩ := h.useBlock hP hlocation hused (hfits.of_keeps (keeps_setUsedBlock ..))
    refine ⟨hfiled.setUsedBlock hlocation (hfiled.trees _ _ hbuddy).2, ?_⟩
    rw [lookup_setUsedBlock, if_pos rfl]
    rfl

theorem spendOutput {tx : CTransaction} {txIn : CTxIn} (h : Filed P s saved)
    (hspent : s.spendOutput ctx tx txIn = some s') (hfits : s'.Fits) : Filed P s' saved := by
  obtain ⟨full, block, s₁, inTransaction, hfull, hused, hreleased⟩ := spendOutput_cases hspent
  have hlocation := h.known _ full (.inl hfull)
  have hlookup : Filed P
      { s with support := (s.support.getTransactionLocation txIn.prevout.hash).2 } saved :=
    h.frame s.transactionQueue s.usedBuddy s.locationUsedFromLastUpdate h.trees
      fun hash full' hin => h.known hash full' (by simpa using hin)
  obtain ⟨hfiled, hblock, -⟩ := hlookup.useBlock hP hlocation hused
    (hfits.of_keeps ((keeps_erase s₁ _).trans (keeps_releaseOutput hreleased)))
  refine (hfiled.frame s₁.transactionQueue s₁.usedBuddy s₁.locationUsedFromLastUpdate hfiled.trees
    fun hash full' hin => ?_).releaseOutput hlocation hblock hreleased
  refine hfiled.known hash full' (hin.imp CSupportTransactionsDatabase.eq_of_eraseTransactionLocation
    fun hin => ?_)
  rwa [CSupportTransactionsDatabase.cacheInsert_eraseTransactionLocation] at hin

theorem spendOutputs {tx : CTransaction} {vin : List CTxIn} (h : Filed P s saved)
    (hspent : spendOutputs ctx tx vin s = some s') (hfits : s'.Fits) : Filed P s' saved := by
  induction vin generalizing s with
  | nil =>
    cases hspent
    exact h
  | cons txIn vin ih =>
    obtain ⟨s₁, hfirst, hrest⟩ := Option.bind_eq_some_iff.mp hspent
    exact ih (h.spendOutput hP hfirst (hfits.of_keeps (keeps_spendOutputs hrest))) hrest

theorem processQueue {locations : Finset CLocation} {txs : List CTransaction} (h : Filed P s saved)
    (hlocations : ∀ location ∈ locations, P location)
    (hprocessed : processQueue ctx locations txs s = some s') (hfits : s'.Fits) :
    Filed P s' saved ∧
      ∀ tx ∈ txs, (s'.usedBlocks.lookup (CLocation.ofFullPosition tx.location)).isSome := by
  induction txs generalizing s with
  | nil =>
    cases hprocessed
    exact ⟨h, nofun⟩
  | cons tx txs ih =>
    obtain ⟨s₂, hfirst, hrest⟩ := Option.bind_eq_some_iff.mp hprocessed
    obtain ⟨s₁, hstored, hspent⟩ := Option.bind_eq_some_iff.mp hfirst
    have hlater := keeps_processQueue hrest
    have hspending := keeps_spendOutputs hspent
    obtain ⟨hfiled, hin⟩ := h.storeTransaction hP hlocations hstored
      (hfits.of_keeps (hspending.trans hlater))
    obtain ⟨hdone, hinUse⟩ := ih (hfiled.spendOutputs hP hspent (hfits.of_keeps hlater)) hrest
    refine ⟨hdone, fun tx' htx' => ?_⟩
    obtain rfl | hmem := List.mem_cons.mp htx'
    · exact (hspending.trans hlater).inUse _ hin
    · exact hinUse tx' hmem

end Process

section Save

variable (hP : ∀ location, P location → Regular location)

include hP

theorem saveBlock (h : Filed P s saved) (hin : s.usedBlocks.lookup location = some block)
    {blockNumber : UInt32} {index : Fin recordsNumber}
    (hassigned : Assigned s location blockNumber s₁ index) (hfits : s₁.Fits) :
    Filed P (s₁.saveBlock blockNumber.toNat block)
      (Function.update saved location (some block)) := by
  obtain ⟨hlocation, hblock⟩ := h.inUse location block hin
  have hlast := (hfits.of_keeps hassigned.keeps).lt
  have hnumbered := h.numbered.assign hassigned hlast
  have hframe : s₁.saveBlock blockNumber.toNat block = { s with
      headersCache := s₁.headersCache
      lastSegmentIndex := s₁.lastSegmentIndex
      alreadyStoredSegments := max s.alreadyStoredSegments (blockNumber.toNat + 1)
      segments := saveIn CDiskBlock.segmentSize blockNumber.toNat block.segment s.segments } := by
    rw [hassigned.frame]
    rfl
  have hown : numberAt s₁.headersCache (headerOf location) index = some blockNumber := by
    rw [hassigned.numbers, if_pos ⟨rfl, rfl⟩]
  have hnumber : numberOf s₁.headersCache location = some blockNumber := by
    rw [numberOf, hassigned.place, Option.bind_some, hown]
  have hrange : ∀ i k n, numberAt s₁.headersCache i k = some n →
      InRange CDiskBlock.segmentSize n.toNat := fun i k n hn =>
    inRange_of_lt hfits.blocks (hnumbered.below i k n hn)
  have hcounted : max s.alreadyStoredSegments (blockNumber.toNat + 1) ≤ s₁.lastSegmentIndex :=
    max_le (h.counted.trans hassigned.keeps.numbers) (hnumbered.below _ _ _ hown)
  rw [hframe]
  refine ⟨h.trees, h.known, h.inUse, fun element hcached hnone => ?_,
    fun location' block' hsaved => ?_, fun header index' n hn => ?_, hnumbered, hcounted,
    hassigned.chained h.chained, fun hempty => ?_⟩
  · have hne : element.1 ≠ location := by
      intro hsame
      change s.usedBlocks.lookup element.1 = none at hnone
      rw [hsame, hin] at hnone
      cases hnone
    rw [Function.update_of_ne hne]
    exact h.cached element hcached hnone
  · by_cases hsame : location' = location
    · subst hsame
      rw [Function.update_self] at hsaved
      cases hsaved
      exact ⟨hlocation, hblock, blockNumber, hnumber, by simp, stores_saveIn ..⟩
    · rw [Function.update_of_ne hsame] at hsaved
      obtain ⟨hP', hshape, n, hn, hlt, hstored⟩ := h.stored location' block' hsaved
      have hn' := hassigned.numberOf_eq hn
      obtain ⟨index', hindex', hat⟩ := Option.bind_eq_some_iff.mp hn'
      have hne : n ≠ blockNumber := by
        rintro rfl
        obtain ⟨hheader, hindex⟩ := hnumbered.distinct _ _ _ _ _ hat hown
        refine hsame ((hP _ hP').eq_of_place (hP _ hlocation) hheader ?_)
        rw [hindex', hassigned.place, hindex]
      refine ⟨hP', hshape, n, hn', hlt.trans_le (le_max_left _ _), hstored.saveIn_of_ne
        (hrange _ _ _ hat) (hrange _ _ _ hown) fun heq => hne (UInt32.toNat_inj.mp heq)⟩
  · change numberAt s₁.headersCache header index' = some n at hn
    rw [hassigned.numbers] at hn
    split at hn
    case isTrue hplace =>
      refine ⟨location, hlocation, hplace.1.symm, ?_, ?_⟩
      · rw [hassigned.place, hplace.2]
      · change ((s.usedBlocks.lookup location).or _).isSome
        rw [hin]
        rfl
    case isFalse =>
      obtain ⟨location', hP', hheader, hindex, howned⟩ := h.recorded header index' n hn
      refine ⟨location', hP', hheader, hindex, ?_⟩
      by_cases hsame : location' = location
      · rw [hsame, Function.update_self, Option.isSome_or]
        exact Bool.or_true _
      · rwa [Function.update_of_ne hsame]
  · have hlength := hassigned.length
    change s₁.headersCache = [] at hempty
    rw [hempty, List.length_nil] at hlength
    omega

theorem saveBlocks {blocks : List (CLocation × CDiskBlock)} (h : Filed P s saved)
    (hblocks : ∀ block ∈ blocks, s.usedBlocks.lookup block.1 = some block.2)
    (hsaved : saveBlocks blocks s = some s') (hfits : s'.Fits) :
    Filed P s' (savedBy blocks saved) := by
  induction blocks generalizing s saved with
  | nil =>
    cases hsaved
    exact h
  | cons block blocks ih =>
    obtain ⟨⟨blockNumber, s₁⟩, hassigned, hrest⟩ := Option.bind_eq_some_iff.mp hsaved
    obtain ⟨index, hspec⟩ := assignBlockNumber_spec hassigned
    have hfirst := h.saveBlock hP (hblocks block List.mem_cons_self) hspec
      (hfits.of_keeps ((keeps_saveBlock ..).trans (keeps_saveBlocks hrest)))
    have hsame : s₁.usedBlocks = s.usedBlocks := by rw [hspec.frame]
    refine ih hfirst (fun block' hin => ?_) hrest
    change s₁.usedBlocks.lookup block'.1 = some block'.2
    rw [hsame]
    exact hblocks block' (List.mem_cons_of_mem _ hin)

end Save

end Filed

theorem savedBy_entries (m : OrderedMap CLocation CDiskBlock)
    (saved : CLocation → Option CDiskBlock) (location : CLocation) :
    savedBy m.entries saved location = (m.lookup location).or (saved location) :=
  m.foldl_update saved location

theorem savedBy_isSome {blocks : List (CLocation × CDiskBlock)}
    {saved : CLocation → Option CDiskBlock} {location : CLocation} (h : (saved location).isSome) :
    (savedBy blocks saved location).isSome := by
  induction blocks generalizing saved with
  | nil => exact h
  | cons block blocks ih =>
    apply ih
    change (Function.update saved block.1 (some block.2) location).isSome
    by_cases hsame : location = block.1
    · rw [hsame, Function.update_self]
      rfl
    · rwa [Function.update_of_ne hsame]

theorem mem_insertCache {elements cache : List (CLocation × CDiskBlock)}
    {element : CLocation × CDiskBlock} (h : element ∈ elements.foldl insertCache cache) :
    element ∈ cache ∨ element ∈ elements := by
  induction elements generalizing cache with
  | nil => exact .inl h
  | cons first elements ih =>
    obtain hcache | hrest := ih h
    · unfold insertCache at hcache
      obtain hold | hfirst := List.mem_append.mp hcache
      · left
        split at hold
        · exact List.mem_of_mem_tail hold
        · exact hold
      · right
        rw [List.mem_singleton.mp hfirst]
        exact List.mem_cons_self
    · exact .inr (List.mem_cons_of_mem _ hrest)

theorem Filed.rest {P : CLocation → Prop} {s : CSegmentFileStorage}
    {saved : CLocation → Option CDiskBlock} (h : Filed P s (savedBy s.usedBlocks.entries saved)) :
    Filed P s.saveHeaders.reloadCache (savedBy s.usedBlocks.entries saved) := by
  have hlookup : ∀ location block, s.usedBlocks.lookup location = some block →
      savedBy s.usedBlocks.entries saved location = some block := by
    intro location block hin
    rw [savedBy_entries, hin, Option.some_or]
  refine ⟨h.trees, h.known, nofun, fun element hin _ => ?_, h.stored,
    fun header index blockNumber hnumber => ?_, h.numbered, h.counted, h.chained, fun hempty => ?_⟩
  · obtain hkept | hnew := mem_insertCache hin
    · obtain ⟨old, hold, rfl⟩ := List.mem_map.mp hkept
      change savedBy s.usedBlocks.entries saved old.1 = some ((s.usedBlocks.lookup old.1).getD old.2)
      cases hlooked : s.usedBlocks.lookup old.1 with
      | none => exact h.cached old hold hlooked
      | some block => exact hlookup _ _ hlooked
    · exact hlookup _ _ (OrderedMap.mem_entries.mp (List.mem_of_mem_filter hnew))
  · obtain ⟨location, hP, hheader, hindex, howned⟩ := h.recorded header index blockNumber hnumber
    refine ⟨location, hP, hheader, hindex, ?_⟩
    change (Option.or none _).isSome
    rw [Option.none_or]
    cases hlooked : s.usedBlocks.lookup location with
    | none => rwa [hlooked, Option.none_or] at howned
    | some block =>
      rw [hlookup _ _ hlooked]
      rfl
  · change s.headersCache = [] at hempty
    change saveHeadersFrom 0 s.headersCache s.headers = none
    rw [hempty]
    exact h.headers hempty

theorem Filed.flush {ctx : StorageContext} {P : CLocation → Prop} {s s' : CSegmentFileStorage}
    {saved : CLocation → Option CDiskBlock} {blocks : List (CLocation × CDiskBlock)}
    (hP : ∀ location, P location → Regular location) (h : Filed P s saved)
    (hflush : s.flushIteration ctx = some (blocks, s')) (hfits : s'.Fits) :
    Filed P s' (savedBy blocks saved) ∧ HeadersStored s'.headersCache s'.headers ∧
      ∀ tx ∈ s.queued, (savedBy blocks saved (CLocation.ofFullPosition tx.location)).isSome := by
  obtain ⟨hknown, processed, filled, hprocessed, hsaved, rfl, rfl⟩ := flushIteration_cases hflush
  have hfilledFits : filled.Fits := ⟨hfits.blocks, hfits.headers⟩
  have hflushFits := hfilledFits.of_keeps (keeps_saveBlocks hsaved)
  have hcleared : Filed P s.clearQueue saved :=
    h.frame [] s.usedBuddy s.locationUsedFromLastUpdate h.trees h.known
  have hlocations : ∀ location ∈ s.locationUsedFromLastUpdate, P location := by
    intro location hin
    obtain ⟨tree, htree⟩ := Option.isSome_iff_exists.mp (hknown location hin)
    exact (h.trees location tree htree).1
  obtain ⟨hdone, hinUse⟩ := hcleared.processQueue hP hlocations hprocessed
    ⟨hflushFits.blocks, hflushFits.headers⟩
  have hflushed : Filed P { processed with support := processed.support.flush } saved := by
    refine hdone.frame processed.transactionQueue processed.usedBuddy
      processed.locationUsedFromLastUpdate hdone.trees fun hash full hin => ?_
    obtain hfound | hempty := hin
    · obtain hnew | ⟨-, hold⟩ := Option.or_eq_some_iff.mp hfound
      · exact hdone.known hash full (.inr hnew)
      · exact hdone.known hash full (.inl hold)
    · cases hempty
  have hfiled := hflushed.saveBlocks hP (fun block hin => OrderedMap.mem_entries.mp hin) hsaved
    hfilledFits
  have hused : filled.usedBlocks = processed.usedBlocks := by
    have hsame := usedBlocks_saveBlocks hsaved
    exact hsame
  rw [← hused] at hfiled ⊢
  have hrest := hfiled.rest
  refine ⟨hrest.frame _ _ ∅ hrest.trees hrest.known, ⟨hrest.headers, fun i header hi => ?_⟩,
    fun tx htx => ?_⟩
  · exact saveHeadersFrom_stores hfilledFits.headers hi
  · rw [savedBy_entries, hused, Option.isSome_or, hinUse tx htx]
    rfl

end Dims.CSegmentFileStorage
