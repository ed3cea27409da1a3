import Dims.StorageFiling

/-!
# The numbers of the stored blocks

A block gets its number when it comes into use, and is stored when the iteration saves it.
So every number below the next one is that of a stored block or of one that is still to be
saved, and once all are saved the segment file has as many blocks as the headers have
used records.
-/

namespace Dims.CSegmentFileStorage
open CSegmentHeader SegmentFile

def InUse (s : CSegmentFileStorage) (location : CLocation) : Prop :=
  (s.usedBlocks.lookup location).isSome

/-- The blocks of the `pending` locations are still to be saved; the files are not longer
than the headers say. -/
structure Counted (pending : CLocation → Prop) (s : CSegmentFileStorage) : Prop where
  numbered : Numbered s.headersCache s.lastSegmentIndex
  blocks : lengthOf s.segments ≤ CDiskBlock.segmentSize * s.lastSegmentIndex
  stored : ∀ n < s.lastSegmentIndex, CDiskBlock.segmentSize * (n + 1) ≤ lengthOf s.segments ∨
    ∃ location number, pending location ∧ numberOf s.headersCache location = some number ∧
      number.toNat = n
  headers : lengthOf s.headers ≤ segmentSize * s.headersCache.length

namespace Counted

variable {P Q : CLocation → Prop} {s s' s₁ : CSegmentFileStorage} {location : CLocation}
  {block : CDiskBlock}

theorem mono (h : Counted P s) (hsub : ∀ location, P location → Q location) : Counted Q s := by
  refine ⟨h.numbered, h.blocks, fun n hn => (h.stored n hn).imp_right ?_, h.headers⟩
  rintro ⟨location, number, hpending, hnumber⟩
  exact ⟨location, number, hsub location hpending, hnumber⟩

theorem congr (h : Counted P s) (hcache : s'.headersCache = s.headersCache)
    (hlast : s'.lastSegmentIndex = s.lastSegmentIndex) (hsegments : s'.segments = s.segments)
    (hheaders : s'.headers = s.headers) : Counted P s' := by
  constructor
  · rw [hcache, hlast]
    exact h.numbered
  · rw [hlast, hsegments]
    exact h.blocks
  · rw [hcache, hlast, hsegments]
    exact h.stored
  · rw [hcache, hheaders]
    exact h.headers

theorem init (P : CLocation → Prop) : Counted P .init :=
  ⟨⟨rfl, nofun, nofun⟩, le_rfl, nofun, le_rfl⟩

theorem complete (h : Counted (fun _ => False) s) :
    lengthOf s.segments = CDiskBlock.segmentSize * s.lastSegmentIndex := by
  apply le_antisymm h.blocks
  cases hlast : s.lastSegmentIndex with
  | zero => exact Nat.zero_le _
  | succ n =>
    obtain hstored | ⟨_, _, hpending, _⟩ := h.stored n (by omega)
    · exact hstored
    · exact hpending.elim

theorem assign (h : Counted P s) {number : UInt32} {index : Fin recordsNumber}
    (hassigned : Assigned s location number s₁ index) (hlast : s.lastSegmentIndex < 2 ^ 32) :
    Counted (fun location' => P location' ∨ location' = location) s₁ := by
  have hown : numberOf s₁.headersCache location = some number := by
    rw [numberOf, hassigned.place, Option.bind_some, hassigned.numbers, if_pos ⟨rfl, rfl⟩]
  have hnumbers : s.lastSegmentIndex ≤ s₁.lastSegmentIndex := hassigned.keeps.numbers
  have hsegments : s₁.segments = s.segments := by rw [hassigned.frame]
  have hheaders : s₁.headers = s.headers := by rw [hassigned.frame]
  refine ⟨h.numbered.assign hassigned hlast, ?_, fun n hn => ?_, ?_⟩
  · rw [hsegments]
    exact h.blocks.trans (Nat.mul_le_mul_left _ hnumbers)
  · rw [hsegments]
    by_cases hold : n < s.lastSegmentIndex
    · apply (h.stored n hold).imp_right
      rintro ⟨location', number', hpending, hnumber, heq⟩
      exact ⟨location', number', .inl hpending, hassigned.numberOf_eq hnumber, heq⟩
    · -- The only number that is not below the old bound is the one given to the location.
      obtain ⟨-, hsame, -⟩ | ⟨-, rfl, hnext, -⟩ := hassigned.number
      · omega
      · refine .inr ⟨location, _, .inr rfl, hown, ?_⟩
        rw [UInt32.toNat_ofNat_of_lt' hlast]
        omega
  · rw [hheaders]
    exact h.headers.trans (Nat.mul_le_mul_left _ hassigned.keeps.headers)

theorem saveBlock (h : Counted P s) {number : UInt32}
    (hnumber : numberOf s.headersCache location = some number) (hfits : s.Fits) :
    Counted (fun location' => P location' ∧ location' ≠ location)
      (s.saveBlock number.toNat block) := by
  obtain ⟨index, -, hat⟩ := Option.bind_eq_some_iff.mp hnumber
  have hlt : number.toNat < s.lastSegmentIndex := h.numbered.below _ _ _ hat
  have hlength : lengthOf (s.saveBlock number.toNat block).segments =
      max (lengthOf s.segments) (CDiskBlock.segmentSize * (number.toNat + 1)) :=
    lengthOf_saveIn _ _ (by decide) (inRange_of_lt hfits.blocks hlt)
  refine ⟨h.numbered, ?_, fun n hn => ?_, h.headers⟩
  · rw [hlength]
    exact max_le h.blocks (Nat.mul_le_mul_left _ hlt)
  · rw [hlength]
    obtain hstored | ⟨location', number', hpending, hnumber', rfl⟩ := h.stored n hn
    · exact .inl (hstored.trans (le_max_left _ _))
    · by_cases hsame : location' = location
      · subst hsame
        rw [hnumber] at hnumber'
        cases hnumber'
        exact .inl (le_max_right _ _)
      · exact .inr ⟨location', number', ⟨hpending, hsame⟩, hnumber', rfl⟩

end Counted

/-- The headers have as many used records as numbers were given. -/
def Total (s : CSegmentFileStorage) : Prop :=
  calculateStoredBlockNumber s.headersCache = s.lastSegmentIndex

theorem Total.assign {s s₁ : CSegmentFileStorage} {location : CLocation} {number : UInt32}
    {index : Fin recordsNumber} (h : s.Total) (hassigned : Assigned s location number s₁ index) :
    s₁.Total := by
  obtain ⟨-, hlast, htotal⟩ | ⟨-, -, hlast, htotal⟩ := hassigned.number
  · rw [Total, hlast, htotal]
    exact h
  · rw [Total, hlast, htotal]
    exact congrArg (· + 1) h

section Process

variable {ctx : StorageContext} {s s' s₁ : CSegmentFileStorage} {location : CLocation}
  {block : CDiskBlock}

/-- A step between two flushes of the files: they stay, and the new numbers are those of
blocks in use. -/
structure Works (s s' : CSegmentFileStorage) : Prop where
  keeps : Keeps s s'
  segments : s'.segments = s.segments
  headers : s'.headers = s.headers
  total : s.Total → s'.Total
  counted : s'.Fits → Counted s.InUse s → Counted s'.InUse s'

theorem Works.trans {s₁ s₂ s₃ : CSegmentFileStorage} (h : Works s₁ s₂) (h' : Works s₂ s₃) :
    Works s₁ s₃ :=
  ⟨h.keeps.trans h'.keeps, h'.segments.trans h.segments, h'.headers.trans h.headers,
    h'.total ∘ h.total, fun hfits hcounted => h'.counted hfits (h.counted (hfits.of_keeps h'.keeps) hcounted)⟩

theorem works_of_eq (hkeeps : Keeps s s') (hused : s'.usedBlocks = s.usedBlocks)
    (hcache : s'.headersCache = s.headersCache) (hlast : s'.lastSegmentIndex = s.lastSegmentIndex)
    (hsegments : s'.segments = s.segments) (hheaders : s'.headers = s.headers) : Works s s' := by
  refine ⟨hkeeps, hsegments, hheaders, fun htotal => ?_, fun _ hcounted => ?_⟩
  · rw [Total, hcache, hlast]
    exact htotal
  · have hsame : s'.InUse = s.InUse := by
      funext location
      rw [InUse, InUse, hused]
    rw [hsame]
    exact hcounted.congr hcache hlast hsegments hheaders

theorem works_setUsedBlock (s : CSegmentFileStorage) (location : CLocation) (block : CDiskBlock) :
    Works s (s.setUsedBlock location block) := by
  refine ⟨keeps_setUsedBlock .., rfl, rfl, id, fun _ hcounted => ?_⟩
  have hsame : Counted s.InUse (s.setUsedBlock location block) := hcounted.congr rfl rfl rfl rfl
  exact hsame.mono fun location' hin => (keeps_setUsedBlock s location block).inUse location' hin

theorem works_assign {number : UInt32} {index : Fin recordsNumber}
    (hassigned : Assigned s location number s₁ index) :
    Works s (s₁.setUsedBlock location block) := by
  have hkeeps := hassigned.keeps.trans (keeps_setUsedBlock s₁ location block)
  have hsegments : s₁.segments = s.segments := by rw [hassigned.frame]
  have hheaders : s₁.headers = s.headers := by rw [hassigned.frame]
  have hused : s₁.usedBlocks = s.usedBlocks := by rw [hassigned.frame]
  have htotal : s.Total → s₁.Total := fun htotal => htotal.assign hassigned
  refine ⟨hkeeps, hsegments, hheaders, htotal, fun hfits hcounted => ?_⟩
  have hnew := hcounted.assign hassigned (hfits.of_keeps hkeeps).lt
  have hsame : Counted (fun location' => s.InUse location' ∨ location' = location)
      (s₁.setUsedBlock location block) := hnew.congr rfl rfl rfl rfl
  apply hsame.mono
  intro location' hin
  rw [InUse, lookup_setUsedBlock]
  split
  · rfl
  · next hne =>
    have hold := hin.resolve_right hne
    rwa [InUse, ← hused] at hold

theorem works_useBlock (hused : s.useBlock ctx location = some (block, s')) : Works s s' := by
  obtain ⟨rfl, -⟩ | ⟨-, ⟨rfl, -⟩ | ⟨s₁, number, index, hassigned, rfl, -⟩⟩ := useBlock_cases hused
  · exact works_of_eq (.refl _) rfl rfl rfl rfl rfl
  · exact works_setUsedBlock ..
  · exact works_assign hassigned

theorem works_storeTransaction {locations : Finset CLocation} {tx : CTransaction}
    (hstored : s.storeTransaction ctx locations tx = some s') : Works s s' := by
  obtain ⟨⟨block, s₁⟩, hused, hstored⟩ := Option.bind_eq_some_iff.mp hstored
  obtain ⟨written, -, hstored⟩ := Option.bind_eq_some_iff.mp hstored
  split at hstored
  case isFalse => cases hstored
  case isTrue =>
    obtain ⟨buddy, -, rfl⟩ := Option.map_eq_some_iff.mp hstored
    exact (works_useBlock hused).trans (works_setUsedBlock ..)

theorem works_releaseOutput {tx inTransaction : CTransaction} {full : UInt64}
    (hreleased : s.releaseOutput ctx tx inTransaction block full = some s') : Works s s' := by
  obtain ⟨written, -, rfl⟩ | ⟨buddy, tree, freed, hbuddy, -, -, rfl⟩ := releaseOutput_cases hreleased
  · have hset : Works s { s with
        support := s.support.setTransactionLocation (inTransaction.getHash ctx.hashes) full } :=
      works_of_eq (keeps_of_eq rfl rfl (fun _ _ => id) (fun _ => Iff.rfl) rfl rfl rfl)
        rfl rfl rfl rfl rfl
    exact hset.trans (works_setUsedBlock ..)
  · have hfreed : Works s { s with
        transactionLocationToBuddy := Function.update s.transactionLocationToBuddy
          (CLocation.ofFullPosition tx.location) (some freed) } :=
      works_of_eq (keeps_of_eq rfl rfl (fun _ _ => id) (fun _ => isSome_update hbuddy) rfl rfl rfl)
        rfl rfl rfl rfl rfl
    exact hfreed.trans (works_setUsedBlock ..)

theorem works_spendOutput {tx : CTransaction} {txIn : CTxIn}
    (hspent : s.spendOutput ctx tx txIn = some s') : Works s s' := by
  obtain ⟨full, block, s₁, inTransaction, -, hused, hreleased⟩ := spendOutput_cases hspent
  have hlookup : Works s
      { s with support := (s.support.getTransactionLocation txIn.prevout.hash).2 } :=
    works_of_eq (keeps_lookup s _) rfl rfl rfl rfl rfl
  have herase : Works s₁
      { s₁ with support := s₁.support.eraseTransactionLocation txIn.prevout.hash } :=
    works_of_eq (keeps_erase s₁ _) rfl rfl rfl rfl rfl
  exact hlookup.trans ((works_useBlock hused).trans (herase.trans (works_releaseOutput hreleased)))

theorem works_spendOutputs {tx : CTransaction} {vin : List CTxIn}
    (hspent : spendOutputs ctx tx vin s = some s') : Works s s' := by
  induction vin generalizing s with
  | nil =>
    cases hspent
    exact works_of_eq (.refl _) rfl rfl rfl rfl rfl
  | cons txIn vin ih =>
    obtain ⟨s₁, hfirst, hrest⟩ := Option.bind_eq_some_iff.mp hspent
    exact (works_spendOutput hfirst).trans (ih hrest)

theorem works_processTransaction {locations : Finset CLocation} {tx : CTransaction}
    (hprocessed : s.processTransaction ctx locations tx = some s') : Works s s' := by
  obtain ⟨s₁, hstored, hspent⟩ := Option.bind_eq_some_iff.mp hprocessed
  exact (works_storeTransaction hstored).trans (works_spendOutputs hspent)

end Process

end Dims.CSegmentFileStorage
