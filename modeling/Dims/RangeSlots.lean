import Mathlib.Data.List.Basic
import Mathlib.Data.List.Range
import Mathlib.Tactic.Common

/-!
# What a range of slots holds

The slots that hold something, in their order. Slots that are filled from the front are
found again by counting.
-/

namespace Dims.RangeSlots

universe u v

variable {α : Type u} {β : Type v}

theorem filterMap_single {f : ℕ → Option β} {k n : ℕ} (hk : k < n)
    (hother : ∀ i, i ≠ k → f i = none) : (List.range n).filterMap f = (f k).toList := by
  induction n with
  | zero => exact absurd hk (Nat.not_lt_zero k)
  | succ n ih =>
    rw [List.range_succ, List.filterMap_append]
    by_cases heq : k = n
    · subst heq
      have hnone : (List.range k).filterMap f = [] :=
        List.filterMap_eq_nil_iff.mpr fun i hi => hother i (List.mem_range.mp hi).ne
      rw [hnone, List.nil_append, List.filterMap_cons]
      cases f k <;> rfl
    · rw [ih (by omega), List.filterMap_cons, hother n (Ne.symm heq)]
      exact List.append_nil _

theorem flatMap_filterMap (f : α → ℕ → Option β) {k : ℕ} (hk : 0 < k) (l : List α) :
    l.flatMap (fun a => (List.range k).filterMap (f a)) =
      (List.range (l.length * k)).filterMap fun i => l[i / k]?.bind fun a => f a (i % k) := by
  induction l with
  | nil =>
    rw [List.length_nil, Nat.zero_mul]
    rfl
  | cons a l ih =>
    rw [List.flatMap_cons, ih, List.length_cons, Nat.add_mul, Nat.one_mul, Nat.add_comm,
      List.range_add, List.filterMap_append, List.filterMap_map]
    congr 1
    · refine List.filterMap_congr fun i hi => ?_
      have hlt := List.mem_range.mp hi
      rw [Nat.div_eq_of_lt hlt, Nat.mod_eq_of_lt hlt]
      rfl
    · refine List.filterMap_congr fun i _ => ?_
      rw [Function.comp_apply, Nat.add_div_left i hk, Nat.add_mod_left]
      rfl

/-- No slot before a filled one is empty. -/
def Gapless (f : ℕ → Option β) : Prop := ∀ i j, i < j → (f j).isSome → (f i).isSome

theorem Gapless.getElem?_filterMap {f : ℕ → Option β} (h : Gapless f) (n i : ℕ) :
    ((List.range n).filterMap f)[i]? = if i < n then f i else none := by
  induction n generalizing i with
  | zero => rw [if_neg (Nat.not_lt_zero i)]; rfl
  | succ n ih =>
    rw [List.range_succ, List.filterMap_append]
    cases hn : f n with
    | none =>
      rw [List.filterMap_cons_none hn, List.filterMap_nil, List.append_nil, ih]
      by_cases heq : i = n
      · rw [if_neg (by omega), heq, if_pos (Nat.lt_succ_self n), hn]
      · exact if_congr (by omega) rfl rfl
    | some b =>
      -- every slot before is filled, so that as many are counted
      have hlength : ((List.range n).filterMap f).length = n := by
        apply le_antisymm
        · exact (List.length_filterMap_le ..).trans List.length_range.le
        · by_contra hshort
          have hend := ih ((List.range n).filterMap f).length
          rw [List.getElem?_eq_none le_rfl, if_pos (by omega)] at hend
          have hsome := h _ n (Nat.lt_of_not_le hshort) (Option.isSome_of_mem hn)
          rw [← hend] at hsome
          cases hsome
      rw [List.filterMap_cons_some hn, List.filterMap_nil]
      by_cases hlt : i < n
      · rw [List.getElem?_append_left (by omega), ih, if_pos hlt, if_pos (by omega)]
      · rw [List.getElem?_append_right (by omega), hlength]
        by_cases heq : i = n
        · rw [heq, Nat.sub_self, if_pos (Nat.lt_succ_self n), hn]
          rfl
        · rw [if_neg (by omega), List.getElem?_eq_none (by simp only [List.length_singleton]; omega)]

end Dims.RangeSlots
