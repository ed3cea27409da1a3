import Dims.InPlaceCopy
import Dims.ValidateTransactions

/-!
# Removal of the invalid transactions

`COriginInitial` closes the gaps that the reported transactions leave in the vector,
block by block and in place.
-/

namespace Dims
open InPlaceCopy

/-- A default-constructed transaction, whose location is what its memory was. -/
def CTransaction.null (location : UInt64) : CTransaction := ⟨1, [], [], 0, location⟩

/-- The vector with the iterators of the loop, as positions. -/
structure Removal where
  transactions : List CTransaction
  last : ℕ
  previous : ℕ

namespace Removal

/-- The body of the loop. The distance is an `unsigned int`. -/
def closeGap (r : Removal) (index : UInt32) : Option Removal :=
  let next := index.toNat
  let distance := UInt32.ofInt ((next : ℤ) - r.previous)
  if 1 < distance then
    (copyRange (r.previous + 1) next r.last r.transactions).map fun transactions =>
      ⟨transactions, r.last + distance.toNat - 1, next⟩
  else some { r with previous := next }

/-- What stands behind the last index. -/
def closeTail (r : Removal) : Option Removal :=
  if r.previous + 1 ≠ r.transactions.length then
    (copyRange (r.previous + 1) r.transactions.length r.last r.transactions).map fun transactions =>
      { r with
        transactions := transactions
        last := r.last + (r.transactions.length - (r.previous + 1)) }
  else some r

end Removal

/-- The removal in `COriginInitial::react`; no value if it accesses what is outside of
the vector. -/
def removeInvalid (location : UInt64) (transactions : List CTransaction) :
    List UInt32 → Option (List CTransaction)
  | [] => some transactions
  | index :: indexes =>
    ((indexes.foldlM Removal.closeGap ⟨transactions, index.toNat, index.toNat⟩).bind
      Removal.closeTail).map fun r => resize (.null location) r.last r.transactions

namespace Removal

/-- Up to the last index that was gone through the gaps are closed, and behind it nothing
has been written. -/
structure Closed (listed : List ℕ) (transactions : List CTransaction) (r : Removal) : Prop where
  length : r.transactions.length = transactions.length
  inside : r.previous < transactions.length
  mem : r.previous ∈ listed
  written : r.last ≤ r.previous
  kept : r.transactions.take r.last = unlisted listed 0 (transactions.take r.previous)
  untouched : r.transactions.drop (r.previous + 1) = transactions.drop (r.previous + 1)

variable {listed : List ℕ} {transactions : List CTransaction} {r : Removal}

theorem Closed.copyRange (h : r.Closed listed transactions) {next : ℕ} (hlt : r.previous < next)
    (hnext : next ≤ transactions.length) (hbetween : ∀ i ∈ listed, r.previous < i → next ≤ i) :
    ∃ copied, copyRange (r.previous + 1) next r.last r.transactions = some copied ∧
      copied.length = transactions.length ∧
      copied.take (r.last + (next - (r.previous + 1))) =
        unlisted listed 0 (transactions.take next) ∧
      copied.drop next = transactions.drop next := by
  have hwritten := h.written
  have hlength := h.length
  refine ⟨_, copyRange_eq (by omega) (by omega) (by omega), ?_, ?_, ?_⟩
  · simp only [List.length_append, List.length_take, List.length_drop]
    omega
  · rw [List.take_append_of_le_length (by simp; omega), List.take_of_length_le (by simp; omega),
      h.kept, h.untouched, unlisted_take_next h.mem hlt hnext hbetween]
  · have huntouched := congrArg (List.drop (next - (r.previous + 1))) h.untouched
    rw [List.drop_drop, List.drop_drop, Nat.add_sub_of_le hlt] at huntouched
    have hcopied : (r.transactions.take r.last ++
        (r.transactions.drop (r.previous + 1)).take (next - (r.previous + 1))).length =
          r.last + (next - (r.previous + 1)) := by
      simp only [List.length_append, List.length_take, List.length_drop]
      omega
    rw [List.drop_append, List.drop_of_length_le (by omega), hcopied, List.nil_append,
      List.drop_drop, ← huntouched]
    congr 1
    omega

theorem Closed.closeGap (h : r.Closed listed transactions) {index : UInt32}
    (hmem : index.toNat ∈ listed) (hlt : r.previous < index.toNat)
    (hin : index.toNat < transactions.length)
    (hbetween : ∀ i ∈ listed, r.previous < i → index.toNat ≤ i) :
    ∃ r', r.closeGap index = some r' ∧ r'.Closed listed transactions ∧ r'.previous = index.toNat := by
  have hwritten := h.written
  have hdistance : (UInt32.ofInt ((index.toNat : ℤ) - r.previous)).toNat =
      index.toNat - r.previous := by
    have hsmall : index.toNat - r.previous < 2 ^ 32 :=
      lt_of_le_of_lt (Nat.sub_le _ _) index.toNat_lt
    rw [← Int.ofNat_sub hlt.le, UInt32.ofInt,
      Int.emod_eq_of_lt (Int.natCast_nonneg _) (by exact_mod_cast hsmall), Int.toNat_natCast]
    exact UInt32.toNat_ofNat_of_lt' hsmall
  obtain ⟨copied, hcopy, hlength, hkept, huntouched⟩ := h.copyRange hlt hin.le hbetween
  simp only [Removal.closeGap]
  split
  case isTrue hgap =>
    refine ⟨_, by rw [hcopy]; rfl, ⟨hlength, hin, hmem, ?_, ?_, ?_⟩, rfl⟩
    · show r.last + (UInt32.ofInt _).toNat - 1 ≤ index.toNat
      rw [hdistance]
      omega
    · show copied.take (r.last + (UInt32.ofInt _).toNat - 1) = _
      rw [hdistance, ← hkept]
      congr 1
      omega
    · have hnext := congrArg (List.drop 1) huntouched
      rwa [List.drop_drop, List.drop_drop] at hnext
  case isFalse hadjacent =>
    rw [UInt32.not_lt, UInt32.le_iff_toNat_le, hdistance] at hadjacent
    have hnext : index.toNat = r.previous + 1 := by
      have hone : (1 : UInt32).toNat = 1 := rfl
      omega
    refine ⟨_, rfl, ⟨h.length, hin, hmem, ?_, ?_, ?_⟩, rfl⟩
    · show r.last ≤ index.toNat
      omega
    · show r.transactions.take r.last = _
      rw [unlisted_take_next h.mem hlt hin.le hbetween, h.kept, hnext, Nat.sub_self, List.take_zero,
        List.append_nil]
    · have hrest := congrArg (List.drop 1) h.untouched
      rw [List.drop_drop, List.drop_drop] at hrest
      show r.transactions.drop (index.toNat + 1) = _
      rw [hnext, hrest]

/-- Gap after gap is closed; no listed position is above the last one. -/
theorem Closed.foldlM_closeGap {indexes : List UInt32} (h : r.Closed listed transactions)
    (hsorted : (r.previous :: indexes.map UInt32.toNat).Pairwise (· < ·))
    (hin : ∀ index ∈ indexes, index.toNat < transactions.length)
    (hmem : ∀ i, r.previous < i → (i ∈ listed ↔ i ∈ indexes.map UInt32.toNat)) :
    ∃ r', indexes.foldlM Removal.closeGap r = some r' ∧ r'.Closed listed transactions ∧
      ∀ i ∈ listed, i ≤ r'.previous := by
  induction indexes generalizing r with
  | nil =>
    refine ⟨r, rfl, h, fun i hi => ?_⟩
    by_contra hlt
    exact List.not_mem_nil ((hmem i (not_le.mp hlt)).mp hi)
  | cons index indexes ih =>
    obtain ⟨hfirst, hrest⟩ := List.forall_mem_cons.mp hin
    rw [List.map_cons] at hsorted hmem
    obtain ⟨hprevious, htail⟩ := List.pairwise_cons.mp hsorted
    have hlt := hprevious index.toNat List.mem_cons_self
    have hbetween : ∀ i ∈ listed, r.previous < i → index.toNat ≤ i := by
      intro i hi hlt'
      rcases List.mem_cons.mp ((hmem i hlt').mp hi) with rfl | htail'
      · exact le_rfl
      · exact ((List.pairwise_cons.mp htail).1 i htail').le
    obtain ⟨r', hgap, hclosed, hat⟩ := h.closeGap ((hmem _ hlt).mpr List.mem_cons_self) hlt hfirst
      hbetween
    rw [List.foldlM_cons, hgap]
    refine ih hclosed (by rwa [hat]) hrest fun i hi => ?_
    rw [hat] at hi
    rw [hmem i (hlt.trans hi), List.mem_cons]
    exact or_iff_right hi.ne'

theorem Closed.closeTail (h : r.Closed listed transactions) (hlast : ∀ i ∈ listed, i ≤ r.previous) :
    ∃ r', r.closeTail = some r' ∧ r'.last ≤ r'.transactions.length ∧
      r'.transactions.take r'.last = unlisted listed 0 transactions := by
  have hwritten := h.written
  have hinside := h.inside
  obtain ⟨copied, hcopy, hlength, hkept, -⟩ := h.copyRange hinside le_rfl
    fun i hi hlt => absurd (hlast i hi) (not_le.mpr hlt)
  rw [List.take_length] at hkept
  unfold Removal.closeTail
  rw [h.length]
  split
  case isTrue htail =>
    refine ⟨_, by rw [hcopy]; rfl, ?_, hkept⟩
    show r.last + _ ≤ copied.length
    omega
  case isFalse hend =>
    rw [not_not] at hend
    refine ⟨r, rfl, by rw [h.length]; omega, ?_⟩
    have hnext := unlisted_take_next h.mem hinside le_rfl
      fun i hi hlt => absurd (hlast i hi) (not_le.mpr hlt)
    rw [← hend, Nat.sub_self, List.take_zero, List.append_nil, hend, List.take_length] at hnext
    rw [hnext, h.kept]

end Removal

open CTransactionRecordManager

/-- The removal leaves the transactions whose indexes are not listed, in their order, and
stays within the vector. -/
theorem removeInvalid_eq (location : UInt64) (transactions : List CTransaction)
    (indexes : List UInt32) (hsorted : indexes.Pairwise (· < ·))
    (hin : ∀ index ∈ indexes, index.toNat < transactions.length) :
    removeInvalid location transactions indexes =
      some (dropInvalid transactions (indexes.map UInt32.toNat)) := by
  cases indexes with
  | nil =>
    have hall : unlisted [] 0 transactions = transactions :=
      unlisted_eq_self fun i hi => absurd hi List.not_mem_nil
    exact congrArg some hall.symm
  | cons index indexes =>
    obtain ⟨hfirst, hrest⟩ := List.forall_mem_cons.mp hin
    have hsorted' : ((index :: indexes).map UInt32.toNat).Pairwise (· < ·) :=
      hsorted.map _ fun _ _ => UInt32.lt_iff_toNat_lt.mp
    rw [List.map_cons] at hsorted'
    have hbefore : unlisted (index.toNat :: indexes.map UInt32.toNat) 0
        (transactions.take index.toNat) = transactions.take index.toNat := by
      refine unlisted_eq_self fun i hi _ => ?_
      rw [List.length_take]
      rcases List.mem_cons.mp hi with rfl | htail
      · omega
      · have hlt := (List.pairwise_cons.mp hsorted').1 i htail
        omega
    have hclosed : Removal.Closed (index.toNat :: indexes.map UInt32.toNat) transactions
        ⟨transactions, index.toNat, index.toNat⟩ :=
      ⟨rfl, hfirst, List.mem_cons_self, le_rfl, hbefore.symm, rfl⟩
    obtain ⟨r, hloop, hr, hlast⟩ := hclosed.foldlM_closeGap hsorted' hrest fun i hi => by
      rw [List.mem_cons]
      exact or_iff_right hi.ne'
    obtain ⟨r', htail, hle, hkept⟩ := hr.closeTail hlast
    simp only [removeInvalid, hloop, Option.bind_some, htail, Option.map_some, resize_of_le hle,
      hkept]
    rfl

theorem exists_mapM_getElem? {α : Type} {xs : List α} {positions : List ℕ}
    (h : ∀ i ∈ positions, i < xs.length) : ∃ ys, positions.mapM (xs[·]?) = some ys := by
  induction positions with
  | nil => exact ⟨[], rfl⟩
  | cons i positions ih =>
    obtain ⟨hfirst, hrest⟩ := List.forall_mem_cons.mp h
    obtain ⟨ys, hys⟩ := ih hrest
    rw [List.mapM_cons, hys, List.getElem?_eq_getElem hfirst]
    exact ⟨_, rfl⟩

/-- The reaction to a validation leaves the transactions whose indexes are not listed, in
their order; the removal of the others stays within the vector. -/
theorem reactOriginInitial_removes (env : NodeContext) (a : CValidateTransactionsAction)
    (location : UInt64) (indexes : List UInt32) (hsorted : indexes.Pairwise (· < ·))
    (hin : ∀ index ∈ indexes, index.toNat < a.transactions.length) :
    removeInvalid location a.transactions indexes =
        some (dropInvalid a.transactions (indexes.map UInt32.toNat)) ∧
      (a.reactOriginInitial env (.validation (indexes.map UInt32.toNat))).map (·.transactions) =
        some (dropInvalid a.transactions (indexes.map UInt32.toNat)) := by
  refine ⟨removeInvalid_eq location a.transactions indexes hsorted hin, ?_⟩
  have hpositions : ∀ i ∈ indexes.map UInt32.toNat, i < a.transactions.length := by
    intro i hi
    obtain ⟨index, hindex, rfl⟩ := List.mem_map.mp hi
    exact hin index hindex
  obtain ⟨invalid, hinvalid⟩ := exists_mapM_getElem? hpositions
  simp only [CValidateTransactionsAction.reactOriginInitial, hinvalid, Option.map_some,
    Option.some.injEq]
  split
  · rfl
  · split
    · rfl
    · unfold CValidateTransactionsAction.enterApproved
      split <;> rfl

namespace FourTransactions

def context : NodeContext :=
  ⟨⟨fun _ => 0, fun _ => 0⟩, ⟨fun _ _ _ => true⟩, [], fun _ => true, fun _ => true⟩

def transaction (nVersion : Int32) : CTransaction := { CTransaction.null 0 with nVersion := nVersion }

def action : CValidateTransactionsAction :=
  .origin 0 [transaction 1, transaction 2, transaction 3, transaction 4]

/-- The first transaction and the last two are removed. -/
theorem removed :
    removeInvalid 0 action.transactions [0, 2, 3] = some [transaction 2] ∧
      (action.reactOriginInitial context (.validation [0, 2, 3])).map (·.transactions) =
        some [transaction 2] :=
  reactOriginInitial_removes context action 0 [0, 2, 3] (by decide) fun _ hindex =>
    (by decide : ∀ i ∈ [0, 2, 3], i < 4) _ (List.mem_map_of_mem hindex)

end FourTransactions

end Dims
