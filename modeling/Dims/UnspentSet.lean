import Mathlib.Algebra.BigOperators.Group.Finset.Piecewise
import Mathlib.Algebra.Order.BigOperators.Group.Finset
import Mathlib.Algebra.Order.Group.Int
import Mathlib.Algebra.Ring.Int.Defs

/-!
# Sets of unspent tokens

An unspent set maps each token to its value while the token can be spent. Tokens
are spent one after another, and new ones are created. A history records the
spent tokens; it is exclusive if no token occurs twice in it and none of its
tokens is unspent again.
-/

namespace Dims.UnspentSet

universe u v

variable {Token : Type u} {Value : Type v}

section Spend

variable [DecidableEq Token]

def spendAll (unspent : Token → Option Value) (tokens : List Token) : Token → Option Value :=
  fun t => if t ∈ tokens then none else unspent t

theorem spendAll_nil (unspent : Token → Option Value) :
    spendAll unspent [] = unspent := by
  funext t
  simp [spendAll]

theorem spendAll_cons (unspent : Token → Option Value) (t : Token) (tokens : List Token) :
    spendAll (Function.update unspent t none) tokens = spendAll unspent (t :: tokens) := by
  funext t'
  unfold spendAll
  by_cases ht : t' = t
  · subst ht
    simp
  · simp [ht]

end Spend

/-- No token was spent twice and no spent token can be spent again. -/
structure Exclusive (unspent : Token → Option Value) (spent : List Token) : Prop where
  nodup : spent.Nodup
  gone : ∀ t ∈ spent, unspent t = none

theorem Exclusive.nil (unspent : Token → Option Value) : Exclusive unspent [] :=
  ⟨List.nodup_nil, fun _ h => absurd h List.not_mem_nil⟩

/-- A step keeps a history exclusive if it spends distinct unspent tokens and
makes nothing unspent that is or was spent. -/
theorem Exclusive.step {unspent unspent' : Token → Option Value} {spent now : List Token}
    (h : Exclusive unspent spent) (hnodup : now.Nodup)
    (havailable : ∀ t ∈ now, (unspent t).isSome = true)
    (hgone : ∀ t ∈ spent ++ now, unspent' t = none) : Exclusive unspent' (spent ++ now) := by
  refine ⟨List.nodup_append'.mpr ⟨h.nodup, hnodup, ?_⟩, hgone⟩
  intro t hspent hnow
  have hsome := havailable t hnow
  rw [h.gone t hspent] at hsome
  cases hsome

section Total

variable (value : Value → ℤ)

def valueAt (unspent : Token → Option Value) (t : Token) : ℤ := ((unspent t).map value).getD 0

variable [Fintype Token]

def total (unspent : Token → Option Value) : ℤ := ∑ t, valueAt value unspent t

theorem total_spendAll [DecidableEq Token] (unspent : Token → Option Value)
    {tokens : List Token} (hnodup : tokens.Nodup) :
    total value (spendAll unspent tokens) =
      total value unspent - (tokens.map (valueAt value unspent)).sum := by
  have hvalue : ∀ t, valueAt value (spendAll unspent tokens) t =
      valueAt value unspent t - if t ∈ tokens.toFinset then valueAt value unspent t else 0 := by
    intro t
    by_cases ht : t ∈ tokens
    · simp [valueAt, spendAll, ht]
    · simp [valueAt, spendAll, ht]
  have hsum : (tokens.map (valueAt value unspent)).sum =
      ∑ t ∈ tokens.toFinset, valueAt value unspent t := (List.sum_toFinset _ hnodup).symm
  rw [total, total, hsum]
  simp only [hvalue, Finset.sum_sub_distrib, Finset.sum_ite_mem, Finset.univ_inter]

end Total

end Dims.UnspentSet
