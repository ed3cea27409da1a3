import Mathlib.Data.List.Forall2
import Mathlib.Tactic.Common

/-!
# Greedy matching in order

The elements of one list are to be matched with elements of another, in the same order. It
is enough to go through the second list once and to match each of its elements with the
first element that is still waiting, and to stop when too few are left.
-/

namespace Dims.GreedyMatching

universe u v

variable {α : Type u} {β : Type v}

/-- Whether the walk matches all elements of the first list. -/
def greedy (check : α → β → Bool) : List α → List β → Bool
  | [], _ => true
  | _ :: _, [] => false
  | a :: as, b :: bs =>
    let as' := if check a b then as else a :: as
    if bs.length < as'.length then false else greedy check as' bs

section Matching

variable {R : α → β → Prop} {as : List α} {bs : List β}

theorem length_le_of_sublistForall₂ (h : List.SublistForall₂ R as bs) :
    as.length ≤ bs.length := by
  obtain ⟨bs', hall, hsub⟩ := List.sublistForall₂_iff.mp h
  rw [hall.length_eq]
  exact hsub.length_le

theorem sublistForall₂_of_cons {a : α} (h : List.SublistForall₂ R (a :: as) bs) :
    List.SublistForall₂ R as bs := by
  induction bs with
  | nil => cases h
  | cons b bs ih =>
    cases h with
    | cons _ hrest => exact .cons_right hrest
    | cons_right hrest => exact .cons_right (ih hrest)

theorem sublistForall₂_cons_of_rel {a : α} {b : β} (hab : R a b) :
    List.SublistForall₂ R (a :: as) (b :: bs) ↔ List.SublistForall₂ R as bs := by
  constructor
  · intro h
    cases h with
    | cons _ hrest => exact hrest
    | cons_right hrest => exact sublistForall₂_of_cons hrest
  · exact fun h => .cons hab h

theorem sublistForall₂_cons_of_not_rel {a : α} {b : β} (hab : ¬ R a b) :
    List.SublistForall₂ R (a :: as) (b :: bs) ↔ List.SublistForall₂ R (a :: as) bs := by
  constructor
  · intro h
    cases h with
    | cons hrel _ => exact absurd hrel hab
    | cons_right hrest => exact hrest
  · exact fun h => .cons_right h

/-- The walk finds a matching exactly if there is one. -/
theorem greedy_iff {check : α → β → Bool} :
    greedy check as bs = true ↔ List.SublistForall₂ (fun a b => check a b = true) as bs := by
  induction bs generalizing as with
  | nil =>
    cases as with
    | nil => simp [greedy, List.SublistForall₂.nil]
    | cons a as =>
      simp only [greedy, Bool.false_eq_true, false_iff]
      intro h
      cases h
  | cons b bs ih =>
    cases as with
    | nil => simp [greedy, List.SublistForall₂.nil]
    | cons a as =>
      have hwalk : ∀ as' : List α, (if bs.length < as'.length then false
          else greedy check as' bs) = true ↔
            List.SublistForall₂ (fun a b => check a b = true) as' bs := by
        intro as'
        split
        case isTrue hlt =>
          simp only [Bool.false_eq_true, false_iff]
          intro h
          have := length_le_of_sublistForall₂ h
          omega
        case isFalse => exact ih
      rw [greedy, hwalk]
      by_cases hab : check a b = true
      · rw [if_pos hab, sublistForall₂_cons_of_rel (R := fun a b => check a b = true) hab]
      · rw [if_neg hab, sublistForall₂_cons_of_not_rel (R := fun a b => check a b = true) hab]

end Matching

end Dims.GreedyMatching
