import Mathlib.Algebra.BigOperators.Group.List.Basic
import Mathlib.Algebra.Order.BigOperators.Group.List
import Mathlib.Data.Int.Basic
import Mathlib.Tactic.Ring

/-!
# Sums of signed 64-bit numbers

As long as a result is in the range of `Int64`, it is the one of the integers. The numbers of a
list that are not negative have all their partial sums in the range if the whole sum is.
-/

namespace Dims.SignedSums

def FitsInt64 (z : ℤ) : Prop := -2 ^ 63 ≤ z ∧ z < 2 ^ 63

theorem bmod_of_fits {z : ℤ} (h : FitsInt64 z) : z.bmod (2 ^ 64) = z := by
  obtain ⟨hlow, hhigh⟩ := h
  exact Int.bmod_eq_of_le (by omega) (by omega)

theorem toInt_add_of_fits {a b : Int64} (h : FitsInt64 (a.toInt + b.toInt)) :
    (a + b).toInt = a.toInt + b.toInt := by
  rw [Int64.toInt_add, bmod_of_fits h]

def total (numbers : List Int64) : ℤ := (numbers.map Int64.toInt).sum

@[simp] theorem total_cons (a : Int64) (numbers : List Int64) :
    total (a :: numbers) = a.toInt + total numbers := List.sum_cons

@[simp] theorem total_append (first second : List Int64) :
    total (first ++ second) = total first + total second := by
  rw [total, List.map_append, List.sum_append]
  rfl

theorem total_perm {first second : List Int64} (h : first.Perm second) :
    total first = total second := (h.map _).sum_eq

theorem total_nonneg {numbers : List Int64} (h : ∀ a ∈ numbers, 0 ≤ a.toInt) : 0 ≤ total numbers := by
  refine List.sum_nonneg fun z hz => ?_
  obtain ⟨a, ha, rfl⟩ := List.mem_map.mp hz
  exact h a ha

theorem total_le_of_sublist {part numbers : List Int64} (h : part.Sublist numbers)
    (hnonneg : ∀ a ∈ numbers, 0 ≤ a.toInt) : total part ≤ total numbers := by
  refine (h.map Int64.toInt).sum_le_sum fun z hz => ?_
  obtain ⟨a, ha, rfl⟩ := List.mem_map.mp hz
  exact hnonneg a ha

theorem toInt_sum {numbers : List Int64} (hnonneg : ∀ a ∈ numbers, 0 ≤ a.toInt)
    (hfits : total numbers < 2 ^ 63) : numbers.sum.toInt = total numbers := by
  induction numbers with
  | nil => rfl
  | cons a numbers ih =>
    obtain ⟨ha, hrest⟩ := List.forall_mem_cons.mp hnonneg
    have htail := total_nonneg hrest
    rw [total_cons] at hfits
    have hsum := ih hrest (by omega)
    rw [List.sum_cons, total_cons, toInt_add_of_fits (by rw [hsum]; constructor <;> omega), hsum]

end Dims.SignedSums
