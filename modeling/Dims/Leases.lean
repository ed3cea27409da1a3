import Mathlib.Algebra.Order.Group.Int
import Mathlib.Data.Option.Basic
import Mathlib.Logic.Function.Basic
import Mathlib.Order.Lattice
import Mathlib.Tactic.Common

/-!
# Leases

What is held until a time. A lease is renewed from now on or prolonged from its end, ends when
it is looked at after its time, and can be revoked.
-/

namespace Dims

universe u

/-- The holders, each with the time until which it holds its lease. -/
def Leases (κ : Type u) : Type u := κ → Option ℤ

namespace Leases

variable {κ : Type u}

def empty : Leases κ := fun _ => none

/-- Those that look at the leases at a time drop the ones that have ended before. -/
def expire (l : Leases κ) (now : ℤ) : Leases κ := fun k => (l k).filter (now ≤ ·)

/-- What is left of a lease; nothing where there is no lease. -/
def remaining (l : Leases κ) (now : ℤ) (k : κ) : ℤ := max 0 ((l k).getD now - now)

section Granting

variable [DecidableEq κ]

/-- A period from now on; a lease that lasts longer stays as it is. -/
def renew (l : Leases κ) (k : κ) (now period : ℤ) : Leases κ :=
  Function.update l k (some (max ((l k).getD now) (now + period)))

/-- A period from the end of the lease on, or from now on. -/
def prolong (l : Leases κ) (k : κ) (now period : ℤ) : Leases κ :=
  Function.update l k (some ((l k).getD now + period))

def revoke (l : Leases κ) (ks : List κ) : Leases κ := fun k => if k ∈ ks then none else l k

end Granting

variable {l : Leases κ} {k k' : κ} {now period t : ℤ}

theorem expire_eq_some : l.expire now k = some t ↔ l k = some t ∧ now ≤ t := by
  rw [expire, Option.filter_eq_some_iff, decide_eq_true_iff]

variable [DecidableEq κ]

theorem renew_self : l.renew k now period k = some (max ((l k).getD now) (now + period)) :=
  Function.update_self ..

theorem renew_of_ne (h : k' ≠ k) : l.renew k now period k' = l k' := Function.update_of_ne h ..

theorem prolong_self : l.prolong k now period k = some ((l k).getD now + period) :=
  Function.update_self ..

theorem prolong_of_ne (h : k' ≠ k) : l.prolong k now period k' = l k' := Function.update_of_ne h ..

theorem revoke_of_notMem {ks : List κ} (h : k ∉ ks) : l.revoke ks k = l k := if_neg h

/-- The lease lasts at least as long in the other leases. -/
def Lasts (l l' : Leases κ) (k : κ) : Prop := ∀ t, l k = some t → ∃ t', l' k = some t' ∧ t ≤ t'

omit [DecidableEq κ] in
theorem Lasts.refl (l : Leases κ) (k : κ) : Lasts l l k := fun t h => ⟨t, h, le_rfl⟩

theorem lasts_renew (k' : κ) : Lasts l (l.renew k now period) k' := by
  intro t ht
  by_cases hk : k' = k
  · subst hk
    refine ⟨_, renew_self, ?_⟩
    rw [ht]
    exact le_max_left ..
  · exact ⟨t, (renew_of_ne hk).trans ht, le_rfl⟩

theorem lasts_prolong (hperiod : 0 ≤ period) (k' : κ) : Lasts l (l.prolong k now period) k' := by
  intro t ht
  by_cases hk : k' = k
  · subst hk
    refine ⟨_, prolong_self, ?_⟩
    rw [ht]
    exact le_add_of_nonneg_right hperiod
  · exact ⟨t, (prolong_of_ne hk).trans ht, le_rfl⟩

theorem remaining_renew (hperiod : 0 ≤ period) (k' : κ) :
    l.remaining now k' ≤ (l.renew k now period).remaining now k' ∧
      (l.renew k now period).remaining now k' ≤ l.remaining now k' + period := by
  by_cases hk : k' = k
  · subst hk
    simp only [remaining, renew_self, Option.getD_some]
    omega
  · simp only [remaining, renew_of_ne hk]
    omega

theorem remaining_prolong (hperiod : 0 ≤ period) (k' : κ) :
    l.remaining now k' ≤ (l.prolong k now period).remaining now k' ∧
      (l.prolong k now period).remaining now k' ≤ l.remaining now k' + period := by
  by_cases hk : k' = k
  · subst hk
    simp only [remaining, prolong_self, Option.getD_some]
    omega
  · simp only [remaining, prolong_of_ne hk]
    omega

end Leases

end Dims
