import Mathlib.Data.List.Infix

/-!
# Runs whose steps may fail

A step for each input either fails or gives the next state, and a run stops at its
first failure. A run is guarded if every input meets a condition in the state that
it is applied to. Where the condition says exactly which steps succeed, or which keep
a property, the guarded runs are exactly those that succeed, or keep it throughout.
-/

namespace Dims.FallibleRun

universe u v w

variable {ε : Type u} {σ : Type v} {ι : Type w}
variable (step : σ → ι → Except ε σ) (ok : σ → ι → Prop)

def run (s : σ) : List ι → Except ε σ
  | [] => .ok s
  | i :: inputs => (step s i).bind fun t => run t inputs

def Guarded : σ → List ι → Prop
  | _, [] => True
  | s, i :: inputs => ok s i ∧ ∀ t, step s i = .ok t → Guarded t inputs

instance decidableGuarded [∀ s i, Decidable (ok s i)] :
    ∀ (s : σ) (inputs : List ι), Decidable (Guarded step ok s inputs)
  | _, [] => .isTrue trivial
  | s, i :: inputs =>
    match hstep : step s i with
    | .error _ => decidable_of_iff (ok s i)
        ⟨fun hi => ⟨hi, fun t ht => by simp [hstep] at ht⟩, And.left⟩
    | .ok t =>
      have := decidableGuarded t inputs
      decidable_of_iff (ok s i ∧ Guarded step ok t inputs)
        ⟨fun h => ⟨h.1, fun u hu => by simpa [Except.ok.inj (hstep.symm.trans hu)] using h.2⟩,
          fun h => ⟨h.1, h.2 t hstep⟩⟩

variable {step ok}

theorem run_cons_ok {s : σ} {i : ι} {inputs : List ι} {u : σ} :
    run step s (i :: inputs) = .ok u ↔ ∃ t, step s i = .ok t ∧ run step t inputs = .ok u := by
  cases hstep : step s i with
  | error e => simp [run, hstep, Except.bind]
  | ok t => simp [run, hstep, Except.bind]

theorem Guarded.cons {s t : σ} {i : ι} {inputs : List ι} (hok : ok s i) (hstep : step s i = .ok t)
    (hrest : Guarded step ok t inputs) : Guarded step ok s (i :: inputs) :=
  ⟨hok, fun _ ht => Except.ok.inj (hstep.symm.trans ht) ▸ hrest⟩

/-- If a step that meets the condition succeeds and keeps an invariant, so does a guarded run. -/
theorem Guarded.exists_run {Inv : σ → Prop}
    (hstep : ∀ s i, Inv s → ok s i → ∃ t, step s i = .ok t ∧ Inv t) {s : σ} {inputs : List ι}
    (hs : Inv s) (h : Guarded step ok s inputs) : ∃ t, run step s inputs = .ok t ∧ Inv t := by
  induction inputs generalizing s with
  | nil => exact ⟨s, rfl, hs⟩
  | cons i inputs ih =>
    obtain ⟨hi, hrest⟩ := h
    obtain ⟨t, hfirst, ht⟩ := hstep s i hs hi
    obtain ⟨u, hu, hinv⟩ := ih ht (hrest t hfirst)
    exact ⟨u, run_cons_ok.mpr ⟨t, hfirst, hu⟩, hinv⟩

/-- If the condition decides which steps succeed, it decides which runs do. -/
theorem run_ok_iff {Inv : σ → Prop} (hstep : ∀ s i t, Inv s → step s i = .ok t → Inv t)
    (hok : ∀ s i, Inv s → ((∃ t, step s i = .ok t) ↔ ok s i)) {s : σ} {inputs : List ι}
    (hs : Inv s) : (∃ t, run step s inputs = .ok t) ↔ Guarded step ok s inputs := by
  induction inputs generalizing s with
  | nil => exact iff_of_true ⟨s, rfl⟩ trivial
  | cons i inputs ih =>
    constructor
    · rintro ⟨u, hu⟩
      obtain ⟨t, hfirst, hrest⟩ := run_cons_ok.mp hu
      refine ⟨(hok s i hs).mp ⟨t, hfirst⟩, fun t₂ ht₂ => ?_⟩
      obtain rfl : t = t₂ := Except.ok.inj (hfirst.symm.trans ht₂)
      exact (ih (hstep s i t hs hfirst)).mp ⟨u, hrest⟩
    · rintro ⟨hi, hrest⟩
      obtain ⟨t, hfirst⟩ := (hok s i hs).mpr hi
      obtain ⟨u, hu⟩ := (ih (hstep s i t hs hfirst)).mpr (hrest t hfirst)
      exact ⟨u, run_cons_ok.mpr ⟨t, hfirst, hu⟩⟩

/-- If the condition decides which steps succeed and keep a property, every state of a
run has the property if and only if the run is guarded. -/
theorem always_iff {Inv Good : σ → Prop} (hstep : ∀ s i t, Inv s → step s i = .ok t → Inv t)
    (hok : ∀ s i, Inv s → Good s → ((∃ t, step s i = .ok t ∧ Good t) ↔ ok s i)) {s : σ}
    {inputs : List ι} (hs : Inv s) (hgood : Good s) :
    (∀ past, past <+: inputs → ∃ t, run step s past = .ok t ∧ Good t) ↔
      Guarded step ok s inputs := by
  induction inputs generalizing s with
  | nil =>
    refine iff_of_true (fun past hpast => ?_) trivial
    rw [List.prefix_nil.mp hpast]
    exact ⟨s, rfl, hgood⟩
  | cons i inputs ih =>
    constructor
    · intro hall
      obtain ⟨t, ht, hnext⟩ := hall [i] ⟨inputs, rfl⟩
      obtain ⟨t', hfirst, hlast⟩ := run_cons_ok.mp ht
      cases hlast
      refine ⟨(hok s i hs hgood).mp ⟨t, hfirst, hnext⟩, fun t₂ ht₂ => ?_⟩
      obtain rfl : t = t₂ := Except.ok.inj (hfirst.symm.trans ht₂)
      refine (ih (hstep s i t hs hfirst) hnext).mp fun past hpast => ?_
      obtain ⟨u, hu, hlater⟩ := hall (i :: past) (List.cons_prefix_cons.mpr ⟨rfl, hpast⟩)
      obtain ⟨t₃, hfirst₃, hrest⟩ := run_cons_ok.mp hu
      obtain rfl : t = t₃ := Except.ok.inj (hfirst.symm.trans hfirst₃)
      exact ⟨u, hrest, hlater⟩
    · rintro ⟨hi, hrest⟩ past hpast
      obtain ⟨t, hfirst, hnext⟩ := (hok s i hs hgood).mpr hi
      cases past with
      | nil => exact ⟨s, rfl, hgood⟩
      | cons j past =>
        obtain ⟨rfl, htail⟩ := List.cons_prefix_cons.mp hpast
        obtain ⟨u, hu, hlater⟩ := (ih (hstep s j t hs hfirst) hnext).mpr (hrest t hfirst) past htail
        exact ⟨u, run_cons_ok.mpr ⟨t, hfirst, hu⟩, hlater⟩

end Dims.FallibleRun
