import Mathlib.Data.List.Pairwise
import Mathlib.Logic.Function.Basic

/-!
# Ledgers that several parties keep

A transfer takes tokens out of a ledger and writes new ones. Every party holds the transfers that
it has taken up and applies them in an order of its own. If what is taken up fits and is apart from
all that is held, the ledgers of two parties that have applied the same transfers agree.
-/

namespace Dims

universe u v w x

structure Transfer (Token : Type u) (Value : Type v) where
  spent : List Token
  /-- What is found under a token that is written, which may be nothing. -/
  written : Token → Option (Option Value)

namespace Transfer

variable {Token : Type u} {Value : Type v} [DecidableEq Token]

def apply (t : Transfer Token Value) (ledger : Token → Option Value) : Token → Option Value :=
  fun k => (t.written k).getD (if k ∈ t.spent then none else ledger k)

def run (start : Token → Option Value) (ts : List (Transfer Token Value)) : Token → Option Value :=
  ts.foldl (fun ledger t => t.apply ledger) start

def consumed (ts : List (Transfer Token Value)) : List Token := ts.flatMap spent

/-- What is taken is there, and what is written is not and has not been taken before. -/
structure Fits (t : Transfer Token Value) (ledger : Token → Option Value) (gone : List Token) :
    Prop where
  available : ∀ k ∈ t.spent, (ledger k).isSome = true
  fresh : ∀ k, (t.written k).isSome = true → ledger k = none ∧ k ∉ gone

/-- The transfers take different tokens and write different ones. -/
structure Apart (t t' : Transfer Token Value) : Prop where
  spent : ∀ k ∈ t.spent, k ∉ t'.spent
  written : ∀ k, t.written k = none ∨ t'.written k = none

/-- Every transfer fits when it is applied. -/
inductive Legal (start : Token → Option Value) : List (Transfer Token Value) → Prop
  | nil : Legal start []
  | snoc {ts : List (Transfer Token Value)} {t : Transfer Token Value} (hts : Legal start ts)
      (hfits : t.Fits (run start ts) (consumed ts)) : Legal start (ts ++ [t])

variable {t t' : Transfer Token Value} {ts ts' : List (Transfer Token Value)}
  {start ledger : Token → Option Value} {gone : List Token} {k : Token}

omit [DecidableEq Token] in
theorem Apart.symm (h : Apart t t') : Apart t' t :=
  ⟨fun k hk' hk => h.spent k hk hk', fun k => (h.written k).symm⟩

omit [DecidableEq Token] in
theorem consumed_snoc (ts : List (Transfer Token Value)) (t : Transfer Token Value) :
    consumed (ts ++ [t]) = consumed ts ++ t.spent := by
  rw [consumed, List.flatMap_append, List.flatMap_singleton, consumed]

theorem run_snoc (start : Token → Option Value) (ts : List (Transfer Token Value))
    (t : Transfer Token Value) : run start (ts ++ [t]) = t.apply (run start ts) := by
  rw [run, List.foldl_append, List.foldl_cons, List.foldl_nil, run]

omit [DecidableEq Token] in
theorem Fits.written_eq_none (h : t.Fits ledger gone) (hk : (ledger k).isSome = true) :
    t.written k = none := by
  by_contra hwritten
  rw [(h.fresh k (Option.isSome_iff_ne_none.mpr hwritten)).1] at hk
  cases hk

theorem Fits.after (h : t.Fits ledger gone) (h' : t'.Fits ledger gone) (hapart : Apart t t') :
    t'.Fits (t.apply ledger) (gone ++ t.spent) where
  available k hk := by
    have hsome := h'.available k hk
    rw [apply, h.written_eq_none hsome, if_neg fun hspent => hapart.spent k hspent hk]
    exact hsome
  fresh k hk := by
    obtain ⟨hnone, hgone⟩ := h'.fresh k hk
    have hspent : k ∉ t.spent := fun hspent => by
      have hsome := h.available k hspent
      rw [hnone] at hsome
      cases hsome
    have hwritten : t.written k = none := (hapart.written k).resolve_right fun hwritten => by
      rw [hwritten] at hk
      cases hk
    refine ⟨?_, fun hin => (List.mem_append.mp hin).elim hgone hspent⟩
    rw [apply, hwritten, if_neg hspent, Option.getD_none, hnone]

/-- Where every transfer fits, what is in the ledger at the end does not depend on their order. -/
theorem Legal.run_eq_some_iff (h : Legal start ts) (k : Token) (v : Value) :
    run start ts k = some v ↔
      k ∉ consumed ts ∧ ((∃ t ∈ ts, t.written k = some (some v)) ∨ start k = some v) := by
  induction h generalizing v with
  | nil => simp [run, consumed]
  | @snoc ts t hts hfits ih =>
    rw [run_snoc, consumed_snoc, apply, List.mem_append]
    simp only [List.mem_append, List.mem_singleton, or_and_right, exists_or, exists_eq_left]
    cases hwritten : t.written k with
    | some v' =>
      -- nothing has been there before
      obtain ⟨hnone, hgone⟩ := hfits.fresh k (by rw [hwritten]; rfl)
      have hspent : k ∉ t.spent := fun hspent => by
        rw [hfits.written_eq_none (hfits.available k hspent)] at hwritten
        cases hwritten
      have hbefore : ¬ ((∃ t ∈ ts, t.written k = some (some v)) ∨ start k = some v) :=
        fun hbefore => by
          rw [(ih v).mpr ⟨hgone, hbefore⟩] at hnone
          cases hnone
      rw [Option.getD_some, Option.some.injEq]
      constructor
      · intro hv
        exact ⟨not_or.mpr ⟨hgone, hspent⟩, .inl (.inr hv)⟩
      · rintro ⟨-, (hbefore' | hv) | hstart⟩
        · exact absurd (.inl hbefore') hbefore
        · exact hv
        · exact absurd (.inr hstart) hbefore
    | none =>
      rw [Option.getD_none]
      by_cases hspent : k ∈ t.spent
      · simp [hspent]
      · rw [if_neg hspent, ih v]
        simp [hspent]

theorem Legal.run_congr (h : Legal start ts) (h' : Legal start ts') (hmem : ∀ t, t ∈ ts ↔ t ∈ ts') :
    run start ts = run start ts' := by
  funext k
  apply Option.ext
  intro v
  rw [h.run_eq_some_iff, h'.run_eq_some_iff, consumed, consumed]
  simp only [List.mem_flatMap, hmem]

theorem Legal.pairwise (h : Legal start ts) :
    ts.Pairwise fun t t' => ∀ k ∈ t.spent, k ∉ t'.spent := by
  induction h with
  | nil => exact .nil
  | @snoc ts t hts hfits ih =>
    refine List.pairwise_append.mpr ⟨ih, List.pairwise_singleton _ _, fun t' ht' t'' ht'' k hk hk' => ?_⟩
    rw [List.mem_singleton.mp ht''] at hk'
    obtain ⟨v, hv⟩ := Option.isSome_iff_exists.mp (hfits.available k hk')
    exact ((hts.run_eq_some_iff k v).mp hv).1 (List.mem_flatMap.mpr ⟨t', ht', hk⟩)

end Transfer

open Transfer

/-- The ledgers, what is held under which key, and what has been applied. -/
structure Replicas (Party : Type w) (Key : Type x) (Token : Type u) (Value : Type v) where
  ledger : Party → Token → Option Value
  held : Party → Key → Option (Transfer Token Value)
  applied : Party → List (Transfer Token Value)

namespace Replicas

variable {Party : Type w} {Key : Type x} {Token : Type u} {Value : Type v} [DecidableEq Token]

/-- Whatever is held fits, and two that are held under different keys are apart. -/
structure Sound (start : Token → Option Value) (r : Replicas Party Key Token Value) : Prop where
  legal : ∀ p, Legal start (r.applied p)
  ledger : ∀ p, r.ledger p = run start (r.applied p)
  fits : ∀ p k t, r.held p k = some t → t.Fits (r.ledger p) (consumed (r.applied p))
  apart : ∀ p q k k' t t', k ≠ k' → r.held p k = some t → r.held q k' = some t' → Apart t t'

variable {start : Token → Option Value} {r r' : Replicas Party Key Token Value}

theorem Sound.mono (h : r.Sound start) (hledger : r'.ledger = r.ledger)
    (happlied : r'.applied = r.applied)
    (hheld : ∀ p k t, r'.held p k = some t → r.held p k = some t) : r'.Sound start where
  legal p := by
    rw [happlied]
    exact h.legal p
  ledger p := by
    rw [hledger, happlied]
    exact h.ledger p
  fits p k t ht := by
    rw [hledger, happlied]
    exact h.fits p k t (hheld p k t ht)
  apart p q k k' t t' hne ht ht' := h.apart p q k k' t t' hne (hheld p k t ht) (hheld q k' t' ht')

theorem Sound.hold (h : r.Sound start) {p : Party} {k : Key} {t : Transfer Token Value}
    (hfits : t.Fits (r.ledger p) (consumed (r.applied p)))
    (hapart : ∀ q k' t', k' ≠ k → r.held q k' = some t' → Apart t t')
    (hledger : r'.ledger = r.ledger) (happlied : r'.applied = r.applied)
    (hheld : ∀ q k' t', r'.held q k' = some t' → r.held q k' = some t' ∨ q = p ∧ k' = k ∧ t' = t) :
    r'.Sound start where
  legal q := by
    rw [happlied]
    exact h.legal q
  ledger q := by
    rw [hledger, happlied]
    exact h.ledger q
  fits q k' t' ht' := by
    rw [hledger, happlied]
    rcases hheld q k' t' ht' with hold | ⟨rfl, rfl, rfl⟩
    · exact h.fits q k' t' hold
    · exact hfits
  apart q q' k₁ k₂ t₁ t₂ hne h₁ h₂ := by
    rcases hheld q k₁ t₁ h₁ with hold₁ | ⟨rfl, rfl, rfl⟩
    · rcases hheld q' k₂ t₂ h₂ with hold₂ | ⟨rfl, rfl, rfl⟩
      · exact h.apart q q' k₁ k₂ t₁ t₂ hne hold₁ hold₂
      · exact (hapart q k₁ t₁ hne hold₁).symm
    · rcases hheld q' k₂ t₂ h₂ with hold₂ | ⟨rfl, rfl, rfl⟩
      · exact hapart q' k₂ t₂ hne.symm hold₂
      · exact absurd rfl hne

theorem Sound.apply [DecidableEq Party] (h : r.Sound start) {p : Party} {k : Key}
    {t : Transfer Token Value} (hfits : t.Fits (r.ledger p) (consumed (r.applied p)))
    (hapart : ∀ k' t', k' ≠ k → r.held p k' = some t' → Apart t t')
    (hledger : r'.ledger = Function.update r.ledger p (t.apply (r.ledger p)))
    (happlied : r'.applied = Function.update r.applied p (r.applied p ++ [t]))
    (hheld : ∀ q k' t', r'.held q k' = some t' →
      r.held q k' = some t' ∧ ¬ (q = p ∧ k' = k)) : r'.Sound start where
  legal q := by
    rw [happlied]
    by_cases hq : q = p
    · subst hq
      rw [Function.update_self]
      exact (h.legal q).snoc (h.ledger q ▸ hfits)
    · rw [Function.update_of_ne hq]
      exact h.legal q
  ledger q := by
    rw [hledger, happlied]
    by_cases hq : q = p
    · subst hq
      rw [Function.update_self, Function.update_self, run_snoc, h.ledger q]
    · rw [Function.update_of_ne hq, Function.update_of_ne hq]
      exact h.ledger q
  fits q k' t' ht' := by
    obtain ⟨hold, hother⟩ := hheld q k' t' ht'
    have hfits' := h.fits q k' t' hold
    rw [hledger, happlied]
    by_cases hq : q = p
    · subst hq
      have hk' : k' ≠ k := fun heq => hother ⟨rfl, heq⟩
      rw [Function.update_self, Function.update_self, consumed_snoc]
      exact hfits.after hfits' (hapart k' t' hk' hold)
    · rw [Function.update_of_ne hq, Function.update_of_ne hq]
      exact hfits'
  apart q q' k₁ k₂ t₁ t₂ hne h₁ h₂ :=
    h.apart q q' k₁ k₂ t₁ t₂ hne (hheld q k₁ t₁ h₁).1 (hheld q' k₂ t₂ h₂).1

end Replicas

end Dims
