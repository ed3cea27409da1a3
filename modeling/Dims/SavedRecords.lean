import Dims.CopyStorageHandler

/-!
# What an iteration of the flush loop leaves in the files

While the files are saved nothing else changes the headers and the blocks in use, so the
files of a finished iteration have as many headers and blocks as the headers in memory
count, as long as no place in them is reduced.
-/

namespace Dims

namespace StorageThreads
open CSegmentFileStorage

/-- What the steps of the other threads leave to the copy loop, unless a transaction is
processed. -/
structure Undisturbed (t t' : StorageThreads) : Prop where
  headersCache : t'.storage.headersCache = t.storage.headersCache
  lastSegmentIndex : t'.storage.lastSegmentIndex = t.storage.lastSegmentIndex
  segments : t'.storage.segments = t.storage.segments
  headers : t'.storage.headers = t.storage.headers
  usedBlocks : t'.storage.usedBlocks = t.storage.usedBlocks
  done : t.phase = .processing ∧ t.processedTransactionQueue = [] →
    t'.phase = .processing ∧ t'.processedTransactionQueue = []

theorem Undisturbed.refl (t : StorageThreads) : Undisturbed t t := ⟨rfl, rfl, rfl, rfl, rfl, id⟩

theorem react_undisturbed {ctx : StorageContext} {t t' : StorageThreads} {event : StorageEvent}
    (hevent : event ≠ .saveAll) (h : t.react ctx event = some t') :
    Undisturbed t t' ∨ ∃ tx txs storage, t.phase = .processing ∧
      t.processedTransactionQueue = tx :: txs ∧
      t.storage.processTransaction ctx t.processedLocationToBuddy tx = some storage ∧
      t' = { t with storage := storage, processedTransactionQueue := txs } := by
  cases event with
  | assignPosition tx =>
    obtain ⟨⟨position, storage⟩, hassigned, rfl⟩ := Option.map_eq_some_iff.mp h
    have hframe := (assignPosition_spec hassigned).frame
    refine .inl ⟨?_, ?_, ?_, ?_, ?_, id⟩ <;> exact hframe ▸ rfl
  | setTransactionLocation hash location =>
    cases h
    exact .inl ⟨rfl, rfl, rfl, rfl, rfl, id⟩
  | flushSupport =>
    cases h
    exact .inl ⟨rfl, rfl, rfl, rfl, rfl, id⟩
  | includeTransactions txs timeStamp =>
    rw [react] at h
    split at h
    · cases h
      exact .inl ⟨rfl, rfl, rfl, rfl, rfl, id⟩
    · cases h
      exact .inl (.refl t)
  | addToRecentlyUsed =>
    rw [react] at h
    split at h
    · cases h
      exact .inl (.refl t)
    · obtain ⟨storage, hmarked, rfl⟩ := Option.map_eq_some_iff.mp h
      have hframe := (markInputs_spec hmarked).1
      refine .inl ⟨?_, ?_, ?_, ?_, ?_, id⟩ <;> exact hframe ▸ rfl
  | takeLocations =>
    rw [react] at h
    split at h
    · next hphase =>
      split at h
      · cases h
        refine .inl ⟨rfl, rfl, rfl, rfl, rfl, fun hdone => ?_⟩
        rw [hphase] at hdone
        cases hdone.1
      · cases h
    · cases h
      exact .inl (.refl t)
  | swapQueue =>
    rw [react] at h
    split at h
    · next henabled =>
      cases h
      refine .inl ⟨rfl, rfl, rfl, rfl, rfl, fun hdone => ?_⟩
      rw [henabled.1] at hdone
      cases hdone.1
    · cases h
      exact .inl (.refl t)
  | processTransaction =>
    rw [react] at h
    split at h
    · next tx txs hphase hqueue =>
      obtain ⟨storage, hprocessed, rfl⟩ := Option.map_eq_some_iff.mp h
      exact .inr ⟨tx, txs, storage, hphase, hqueue, hprocessed, rfl⟩
    · cases h
      exact .inl (.refl t)
  | saveAll => exact absurd rfl hevent
  | clearUsed =>
    rw [react] at h
    split at h
    · next hphase =>
      cases h
      refine .inl ⟨rfl, rfl, rfl, rfl, rfl, fun hdone => ?_⟩
      rw [hphase] at hdone
      cases hdone.1
    · cases h
      exact .inl (.refl t)

end StorageThreads

/-- The places in the files of a record are not reduced. -/
structure FlushRecord.Fits (record : FlushRecord) : Prop where
  blocks : CDiskBlock.segmentSize * record.blockCount ≤ 2 ^ 32
  headers : CSegmentHeader.segmentSize * record.headerCount ≤ 2 ^ 32

/-- The files have as many segments as were counted. -/
structure FlushRecord.Whole (record : FlushRecord) : Prop where
  headers : SegmentFile.count CSegmentHeader.segmentSize record.headers = record.headerCount
  segments : SegmentFile.count CDiskBlock.segmentSize record.segments = record.blockCount

namespace CopyThreads
open CSegmentFileStorage SegmentFile

variable {κ : Type} {t t' : CopyThreads κ}

section Flush

variable (t) in
/-- The locations whose blocks are still to be saved. -/
def pending : CLocation → Prop :=
  match t.saving with
  | .idle => t.threads.storage.InUse
  | .blocks rest => fun location => ∃ block, (location, block) ∈ rest
  | .headers _ _ => fun _ => False

variable (t) in
/-- The invariant of the flush loop: nothing but the saving itself happens while it saves, and
a finished iteration has left as many blocks and headers in the files as it counts. -/
structure Flushing : Prop where
  total : t.threads.storage.Total
  counted : t.threads.storage.Fits → Counted t.pending t.threads.storage
  processed : t.saving ≠ .idle →
    t.threads.phase = .processing ∧ t.threads.processedTransactionQueue = []
  headers : ∀ headerId rest, t.saving = .headers headerId rest →
    headerId ≤ t.getSegmentHeaderSize ∧ rest = t.threads.storage.headersCache.drop headerId ∧
      (t.threads.storage.Fits →
        CSegmentHeader.segmentSize * headerId ≤ lengthOf t.threads.storage.headers)
  last : t.saving = .idle → t.history.last.headers = t.threads.storage.headers ∧
    t.history.last.segments = t.threads.storage.segments
  whole : ∀ record ∈ t.history.last :: t.history.earlier, record.Fits → record.Whole

theorem flushing_start : Flushing (start : CopyThreads κ) := by
  refine ⟨rfl, fun _ => .init _, fun h => absurd rfl h, nofun, fun _ => ⟨rfl, rfl⟩, ?_⟩
  intro record hrecord _
  obtain rfl := List.mem_singleton.mp hrecord
  exact ⟨Nat.zero_div _, Nat.zero_div _⟩

theorem Flushing.of_eq (h : t.Flushing) (hthreads : t'.threads = t.threads)
    (hsaving : t'.saving = t.saving) (hlast : t'.history.last = t.history.last)
    (hearlier : t'.history.earlier = t.history.earlier) : t'.Flushing := by
  have hpending : t'.pending = t.pending := by rw [pending, pending, hsaving, hthreads]
  have hsize : t'.getSegmentHeaderSize = t.getSegmentHeaderSize := by
    rw [getSegmentHeaderSize, getSegmentHeaderSize, hthreads]
  constructor
  · rw [hthreads]
    exact h.total
  · rw [hthreads, hpending]
    exact h.counted
  · rw [hthreads, hsaving]
    exact h.processed
  · rw [hthreads, hsaving, hsize]
    exact h.headers
  · rw [hthreads, hsaving, hlast]
    exact h.last
  · rw [hlast, hearlier]
    exact h.whole

theorem Flushing.undisturbed {threads : StorageThreads} (h : t.Flushing)
    (hsame : t.threads.Undisturbed threads) : Flushing { t with threads := threads } := by
  have hfits : threads.storage.Fits → t.threads.storage.Fits := by
    intro hfits
    exact ⟨hsame.lastSegmentIndex ▸ hfits.blocks, hsame.headersCache ▸ hfits.headers⟩
  have hpending : pending { t with threads := threads } = t.pending := by
    have hinUse : threads.storage.InUse = t.threads.storage.InUse := by
      funext location
      rw [InUse, InUse, hsame.usedBlocks]
    rw [pending, pending]
    cases t.saving with
    | idle => exact hinUse
    | blocks rest => rfl
    | headers headerId rest => rfl
  constructor
  · change calculateStoredBlockNumber threads.storage.headersCache = threads.storage.lastSegmentIndex
    rw [hsame.headersCache, hsame.lastSegmentIndex]
    exact h.total
  · intro hfit
    rw [hpending]
    exact (h.counted (hfits hfit)).congr hsame.headersCache hsame.lastSegmentIndex hsame.segments
      hsame.headers
  · exact fun hsaving => hsame.done (h.processed hsaving)
  · intro headerId rest hsaving
    obtain ⟨hle, hrest, hlength⟩ := h.headers headerId rest hsaving
    refine ⟨?_, ?_, fun hfit => ?_⟩
    · change headerId ≤ threads.storage.headersCache.length
      rw [hsame.headersCache]
      exact hle
    · rw [hsame.headersCache]
      exact hrest
    · rw [hsame.headers]
      exact hlength (hfits hfit)
  · intro hsaving
    obtain ⟨hheaders, hsegments⟩ := h.last hsaving
    exact ⟨hheaders.trans hsame.headers.symm, hsegments.trans hsame.segments.symm⟩
  · exact h.whole

theorem Flushing.processTransaction {tx : CTransaction} {txs : List CTransaction}
    {storage : CSegmentFileStorage} (h : t.Flushing)
    (hqueue : t.threads.processedTransactionQueue = tx :: txs) (hworks : Works t.threads.storage storage) :
    Flushing { t with threads := { t.threads with
      storage := storage
      processedTransactionQueue := txs } } := by
  have hidle : t.saving = .idle := by
    by_contra hsaving
    have hnone := (h.processed hsaving).2
    rw [hqueue] at hnone
    cases hnone
  have hpending : t.pending = t.threads.storage.InUse := by rw [pending, hidle]
  constructor
  · exact hworks.total h.total
  · intro hfits
    have hcounted := h.counted (hfits.of_keeps hworks.keeps)
    rw [hpending] at hcounted
    rw [pending, hidle]
    exact hworks.counted hfits hcounted
  · exact fun hsaving => absurd hidle hsaving
  · intro headerId rest hsaving
    rw [hidle] at hsaving
    cases hsaving
  · intro hsaving
    obtain ⟨hheaders, hsegments⟩ := h.last hsaving
    exact ⟨hheaders.trans hworks.headers.symm, hsegments.trans hworks.segments.symm⟩
  · exact h.whole

theorem Flushing.startSaving (h : t.Flushing) : t.startSaving.Flushing := by
  rw [CopyThreads.startSaving]
  split
  case h_2 => exact h
  case h_1 hidle =>
    split
    case isFalse => exact h
    case isTrue hdone =>
      have hpending : t.pending = t.threads.storage.InUse := by rw [pending, hidle]
      constructor
      · exact h.total
      · intro hfits
        have hcounted := h.counted ⟨hfits.blocks, hfits.headers⟩
        rw [hpending] at hcounted
        refine (hcounted.mono fun location hin => ?_).congr rfl rfl rfl rfl
        obtain ⟨block, hblock⟩ := Option.isSome_iff_exists.mp hin
        exact ⟨block, OrderedMap.mem_entries.mpr hblock⟩
      · exact fun _ => hdone
      · rintro _ _ ⟨⟩
      · rintro ⟨⟩
      · exact h.whole

/-- The number of a block is that in the record of its location, and is given to no other. -/
theorem Flushing.saveBlock {block : CLocation × CDiskBlock} {rest : List (CLocation × CDiskBlock)}
    {number : UInt32} {storage : CSegmentFileStorage} (h : t.Flushing)
    (hsaving : t.saving = .blocks (block :: rest))
    (hassigned : t.threads.storage.assignBlockNumberInHeaderCache block.1 = some (number, storage)) :
    Flushing (t.setStorage (storage.saveBlock number.toNat block.2) (.blocks rest)) := by
  obtain ⟨index, hspec⟩ := assignBlockNumber_spec hassigned
  have hpending : t.pending = fun location => ∃ b, (location, b) ∈ block :: rest := by
    rw [pending, hsaving]
  have hnumber : numberOf storage.headersCache block.1 = some number := by
    rw [numberOf, hspec.place, Option.bind_some, hspec.numbers, if_pos ⟨rfl, rfl⟩]
  constructor
  · have htotal : storage.Total := h.total.assign hspec
    exact htotal
  · intro hfits
    have hstorage : storage.Fits := ⟨hfits.blocks, hfits.headers⟩
    have hold : t.threads.storage.Fits := hstorage.of_keeps hspec.keeps
    have hcounted := h.counted hold
    rw [hpending] at hcounted
    refine ((hcounted.assign hspec hold.lt).saveBlock hnumber hstorage).mono ?_
    intro location hin
    obtain ⟨⟨b, hb⟩ | hsame, hne⟩ := hin
    · obtain hfirst | hlater := List.mem_cons.mp hb
      · exact absurd (congrArg Prod.fst hfirst) hne
      · exact ⟨b, hlater⟩
    · exact absurd hsame hne
  · refine fun _ => h.processed ?_
    rw [hsaving]
    rintro ⟨⟩
  · rintro _ _ ⟨⟩
  · rintro ⟨⟩
  · exact h.whole

theorem Flushing.blocksSaved (h : t.Flushing) (hsaving : t.saving = .blocks []) :
    Flushing { t with saving := .headers 0 t.threads.storage.headersCache } := by
  constructor
  · exact h.total
  · intro hfits
    refine (h.counted hfits).mono fun location hin => ?_
    rw [pending, hsaving] at hin
    obtain ⟨_, hnone⟩ := hin
    cases hnone
  · exact fun _ => h.processed (by rw [hsaving]; exact nofun)
  · intro headerId rest heq
    cases heq
    exact ⟨Nat.zero_le _, rfl, fun _ => Nat.zero_le _⟩
  · exact nofun
  · exact h.whole

theorem Flushing.saveHeader {headerId : ℕ} {header : CSegmentHeader} {rest : List CSegmentHeader}
    (h : t.Flushing) (hsaving : t.saving = .headers headerId (header :: rest)) :
    Flushing (t.setStorage
      { t.threads.storage with
        headers := saveIn CSegmentHeader.segmentSize headerId header.segment
          t.threads.storage.headers } (.headers (headerId + 1) rest)) := by
  obtain ⟨hle, hrest, hlength⟩ := h.headers headerId _ hsaving
  have hpending : t.pending = fun _ => False := by rw [pending, hsaving]
  have hlt : headerId < t.threads.storage.headersCache.length := by
    by_contra hge
    rw [List.drop_eq_nil_of_le (by omega)] at hrest
    cases hrest
  have hsaved : t.threads.storage.Fits →
      lengthOf (saveIn CSegmentHeader.segmentSize headerId header.segment
        t.threads.storage.headers) =
      max (lengthOf t.threads.storage.headers) (CSegmentHeader.segmentSize * (headerId + 1)) := by
    intro hfits
    exact lengthOf_saveIn _ _ (by decide) (inRange_of_lt hfits.headers hlt)
  constructor
  · exact h.total
  · intro hfits
    have hold : t.threads.storage.Fits := ⟨hfits.blocks, hfits.headers⟩
    have hcounted := h.counted hold
    rw [hpending] at hcounted
    refine ⟨hcounted.numbered, hcounted.blocks, hcounted.stored, ?_⟩
    exact (hsaved hold).le.trans (max_le hcounted.headers (Nat.mul_le_mul_left _ hlt))
  · exact fun _ => h.processed (by rw [hsaving]; exact nofun)
  · intro headerId' rest' heq
    cases heq
    refine ⟨hlt, ?_, fun hfits => ?_⟩
    · change rest = t.threads.storage.headersCache.drop (headerId + 1)
      rw [← List.tail_drop, ← hrest, List.tail_cons]
    · have hold : t.threads.storage.Fits := ⟨hfits.blocks, hfits.headers⟩
      exact (le_max_right _ _).trans (hsaved hold).ge
  · exact nofun
  · exact h.whole

theorem Flushing.finishSaving {headerId : ℕ} (h : t.Flushing)
    (hsaving : t.saving = .headers headerId []) : t.finishSaving.Flushing := by
  obtain ⟨hle, hrest, hlength⟩ := h.headers headerId _ hsaving
  have hpending : t.pending = fun _ => False := by rw [pending, hsaving]
  have hall : t.getSegmentHeaderSize ≤ headerId := List.drop_eq_nil_iff.mp hrest.symm
  constructor
  · exact h.total
  · intro hfits
    have hold : t.threads.storage.Fits := ⟨hfits.blocks, hfits.headers⟩
    have hcounted := h.counted hold
    rw [hpending] at hcounted
    exact (hcounted.mono fun _ => False.elim).congr rfl rfl rfl rfl
  · exact fun hne => absurd rfl hne
  · exact nofun
  · exact fun _ => ⟨rfl, rfl⟩
  · intro record hrecord hfits
    obtain rfl | hearlier := List.mem_cons.mp hrecord
    · have htotal : t.getDiscBlockSize = t.threads.storage.lastSegmentIndex := h.total
      have hblocks := hfits.blocks
      change CDiskBlock.segmentSize * t.getDiscBlockSize ≤ 2 ^ 32 at hblocks
      rw [htotal] at hblocks
      have hold : t.threads.storage.Fits := ⟨hblocks, hfits.headers⟩
      have hcounted := h.counted hold
      rw [hpending] at hcounted
      have hheaders : lengthOf t.threads.storage.headers =
          CSegmentHeader.segmentSize * t.getSegmentHeaderSize :=
        le_antisymm hcounted.headers ((Nat.mul_le_mul_left _ hall).trans (hlength hold))
      constructor
      · change lengthOf t.threads.storage.headers / CSegmentHeader.segmentSize = _
        rw [hheaders]
        exact Nat.mul_div_cancel_left _ (by decide)
      · change lengthOf t.threads.storage.segments / CDiskBlock.segmentSize = t.getDiscBlockSize
        rw [hcounted.complete, htotal]
        exact Nat.mul_div_cancel_left _ (by decide)
    · exact h.whole record hearlier hfits

theorem Flushing.saveStep (h : t.Flushing) (hstep : t.saveStep = some t') : t'.Flushing := by
  rw [CopyThreads.saveStep] at hstep
  split at hstep
  · cases hstep
    exact h
  · next hsaving =>
    cases hstep
    exact h.blocksSaved hsaving
  · next hsaving =>
    obtain ⟨⟨number, storage⟩, hassigned, rfl⟩ := Option.map_eq_some_iff.mp hstep
    exact h.saveBlock hsaving hassigned
  · next hsaving =>
    cases hstep
    exact h.saveHeader hsaving
  · next hsaving =>
    cases hstep
    exact h.finishSaving hsaving

end Flush

end CopyThreads

end Dims
