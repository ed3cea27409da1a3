import Mathlib.Data.List.Sort
import Mathlib.Order.Basic
import Mathlib.Order.Defs.LinearOrder

/-!
# Sets as ordered lists

A finite set that is gone through in the order of its elements.
-/

namespace Dims

universe u

/-- Bit vectors in the order of the numbers that they stand for. -/
instance instLinearOrderBitVec (w : ℕ) : LinearOrder (BitVec w) where
  le := (· ≤ ·)
  lt := (· < ·)
  le_refl := BitVec.le_refl
  le_trans _ _ _ := BitVec.le_trans
  le_antisymm _ _ := BitVec.le_antisymm
  le_total a b := BitVec.le_total a b
  lt_iff_le_not_ge a b := by
    rw [BitVec.lt_def, BitVec.le_def, BitVec.le_def]
    omega
  toDecidableLE := inferInstance
  toDecidableEq := inferInstance
  toDecidableLT := inferInstance

instance instLinearOrderUInt8 : LinearOrder UInt8 where
  le := (· ≤ ·)
  lt := (· < ·)
  le_refl := UInt8.le_refl
  le_trans _ _ _ := UInt8.le_trans
  le_antisymm _ _ := UInt8.le_antisymm
  le_total a b := UInt8.le_total a b
  lt_iff_le_not_ge a b := by
    rw [UInt8.lt_iff_toNat_lt, UInt8.le_iff_toNat_le, UInt8.le_iff_toNat_le]
    omega
  toDecidableLE := inferInstance
  toDecidableEq := inferInstance
  toDecidableLT := inferInstance

structure OrderedSet (κ : Type u) [LinearOrder κ] where
  elements : List κ
  sorted : elements.Pairwise (· < ·)

namespace OrderedSet

variable {κ : Type u} [LinearOrder κ]

instance : Membership κ (OrderedSet κ) := ⟨fun s k => k ∈ s.elements⟩

theorem mem_def {s : OrderedSet κ} {k : κ} : k ∈ s ↔ k ∈ s.elements := Iff.rfl

instance (k : κ) (s : OrderedSet κ) : Decidable (k ∈ s) := inferInstanceAs (Decidable (k ∈ s.elements))

def empty : OrderedSet κ := ⟨[], .nil⟩

def insertElement (k : κ) : List κ → List κ
  | [] => [k]
  | a :: elements =>
    if k = a then a :: elements
    else if k < a then k :: a :: elements
    else a :: insertElement k elements

theorem mem_insertElement {k b : κ} {elements : List κ} :
    b ∈ insertElement k elements ↔ b = k ∨ b ∈ elements := by
  induction elements with
  | nil => simp [insertElement]
  | cons a elements ih =>
    rw [insertElement]
    split_ifs with heq hlt
    · subst heq
      simp
    · simp
    · simp only [List.mem_cons, ih]
      tauto

theorem sorted_insertElement (k : κ) {elements : List κ} (h : elements.Pairwise (· < ·)) :
    (insertElement k elements).Pairwise (· < ·) := by
  induction elements with
  | nil => simp [insertElement]
  | cons a elements ih =>
    have hrest := List.pairwise_cons.mp h
    rw [insertElement]
    split_ifs with heq hlt
    · exact h
    · refine List.pairwise_cons.mpr ⟨fun b hb => ?_, h⟩
      rcases List.mem_cons.mp hb with rfl | hb
      · exact hlt
      · exact hlt.trans (hrest.1 b hb)
    · refine List.pairwise_cons.mpr ⟨fun b hb => ?_, ih hrest.2⟩
      rcases mem_insertElement.mp hb with rfl | hb
      · exact lt_of_le_of_ne (not_lt.mp hlt) (Ne.symm heq)
      · exact hrest.1 b hb

def insert (s : OrderedSet κ) (k : κ) : OrderedSet κ :=
  ⟨insertElement k s.elements, sorted_insertElement k s.sorted⟩

def erase (s : OrderedSet κ) (k : κ) : OrderedSet κ :=
  ⟨s.elements.filter (· ≠ k), s.sorted.filter _⟩

@[simp] theorem mem_insert {s : OrderedSet κ} {k b : κ} : b ∈ s.insert k ↔ b = k ∨ b ∈ s :=
  mem_insertElement

@[simp] theorem mem_erase {s : OrderedSet κ} {k b : κ} : b ∈ s.erase k ↔ b ∈ s ∧ b ≠ k := by
  simp [mem_def, erase]

theorem insertElement_of_forall_lt {k : κ} {elements : List κ} (h : ∀ a ∈ elements, a < k) :
    insertElement k elements = elements ++ [k] := by
  induction elements with
  | nil => rfl
  | cons a elements ih =>
    obtain ⟨ha, hrest⟩ := List.forall_mem_cons.mp h
    rw [insertElement, if_neg ha.ne', if_neg ha.not_gt, ih hrest, List.cons_append]

theorem elements_erase_head {s : OrderedSet κ} {k : κ} {elements : List κ}
    (h : s.elements = k :: elements) : (s.erase k).elements = elements := by
  have hsorted := s.sorted
  rw [h] at hsorted
  have hlt := (List.pairwise_cons.mp hsorted).1
  change s.elements.filter (· ≠ k) = elements
  rw [h, List.filter_cons_of_neg (by simp)]
  exact List.filter_eq_self.mpr fun a ha => by simpa using (hlt a ha).ne'

theorem mem_foldl_insert {ks : List κ} {s : OrderedSet κ} {b : κ} :
    b ∈ ks.foldl insert s ↔ b ∈ ks ∨ b ∈ s := by
  induction ks generalizing s with
  | nil => simp
  | cons k ks ih =>
    rw [List.foldl_cons, ih, mem_insert, List.mem_cons]
    tauto

theorem mem_foldl_erase {ks : List κ} {s : OrderedSet κ} {b : κ} :
    b ∈ ks.foldl erase s ↔ b ∈ s ∧ b ∉ ks := by
  induction ks generalizing s with
  | nil => simp
  | cons k ks ih =>
    rw [List.foldl_cons, ih, mem_erase, List.mem_cons]
    tauto

end OrderedSet

end Dims
