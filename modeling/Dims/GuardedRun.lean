import Mathlib.Data.List.Infix

/-!
# Runs whose steps meet a condition

A deterministic system takes one step for each input. A run is guarded if every
input meets a condition in the state it is applied to. Invariants and transition
properties that hold under the condition then hold along the whole run.
-/

namespace Dims.GuardedRun

universe u v

variable {σ : Type u} {ι : Type v} (step : σ → ι → σ) (ok : σ → ι → Prop)

def run (s : σ) (inputs : List ι) : σ := inputs.foldl step s

def Guarded : σ → List ι → Prop
  | _, [] => True
  | s, i :: inputs => ok s i ∧ Guarded (step s i) inputs

instance decidableGuarded [∀ s i, Decidable (ok s i)] :
    ∀ s inputs, Decidable (Guarded step ok s inputs)
  | _, [] => inferInstanceAs (Decidable True)
  | s, i :: inputs =>
    have := decidableGuarded (step s i) inputs
    inferInstanceAs (Decidable (ok s i ∧ Guarded step ok (step s i) inputs))

@[simp] theorem run_nil (s : σ) : run step s [] = s := rfl

@[simp] theorem run_cons (s : σ) (i : ι) (inputs : List ι) :
    run step s (i :: inputs) = run step (step s i) inputs := rfl

theorem run_append (s : σ) (first second : List ι) :
    run step s (first ++ second) = run step (run step s first) second := List.foldl_append

theorem guarded_append {s : σ} {first second : List ι} :
    Guarded step ok s (first ++ second) ↔
      Guarded step ok s first ∧ Guarded step ok (run step s first) second := by
  induction first generalizing s with
  | nil => simp [Guarded]
  | cons i first ih => simp [Guarded, ih, and_assoc]

theorem guarded_and {ok' : σ → ι → Prop} {s : σ} {inputs : List ι} :
    Guarded step (fun s i => ok s i ∧ ok' s i) s inputs ↔
      Guarded step ok s inputs ∧ Guarded step ok' s inputs := by
  induction inputs generalizing s with
  | nil => simp [Guarded]
  | cons i inputs ih => simp [Guarded, ih, and_and_and_comm]

variable {step ok}

theorem run_invariant {Inv : σ → Prop} (hstep : ∀ s i, Inv s → Inv (step s i)) {s : σ}
    (hs : Inv s) (inputs : List ι) : Inv (run step s inputs) := by
  induction inputs generalizing s with
  | nil => exact hs
  | cons i inputs ih => exact ih (hstep s i hs)

theorem Guarded.invariant {Inv : σ → Prop} (hstep : ∀ s i, Inv s → ok s i → Inv (step s i))
    {s : σ} {inputs : List ι} (hrun : Guarded step ok s inputs) (hs : Inv s) :
    Inv (run step s inputs) := by
  induction inputs generalizing s with
  | nil => exact hs
  | cons i inputs ih => exact ih hrun.2 (hstep s i hs hrun.1)

/-- An invariant may speak of the inputs that have been taken. -/
theorem Guarded.history {Inv : List ι → σ → Prop}
    (hstep : ∀ past s i, Inv past s → ok s i → Inv (past ++ [i]) (step s i))
    {s : σ} {inputs : List ι} (hrun : Guarded step ok s inputs) (hs : Inv [] s) :
    Inv inputs (run step s inputs) := by
  suffices h : ∀ past, Inv past s → Inv (past ++ inputs) (run step s inputs) from h [] hs
  clear hs
  induction inputs generalizing s with
  | nil =>
    intro past hs
    rwa [List.append_nil]
  | cons i inputs ih =>
    intro past hs
    have hrest := ih hrun.2 (past ++ [i]) (hstep past s i hs hrun.1)
    rwa [List.append_assoc] at hrest

/-- If the condition decides which steps keep a property, every state of a run has the
property if and only if the run is guarded. Only the inputs of the run matter. -/
theorem always_iff_of_mem {Inv Good : σ → Prop} {P : ι → Prop}
    (hstep : ∀ s i, P i → Inv s → Inv (step s i))
    (hok : ∀ s i, P i → Inv s → Good s → (Good (step s i) ↔ ok s i)) {s : σ} {inputs : List ι}
    (hinputs : ∀ i ∈ inputs, P i) (hs : Inv s) (hgood : Good s) :
    (∀ past, past <+: inputs → Good (run step s past)) ↔ Guarded step ok s inputs := by
  induction inputs generalizing s with
  | nil =>
    refine iff_of_true (fun past hpast => ?_) trivial
    rw [List.prefix_nil.mp hpast]
    exact hgood
  | cons i inputs ih =>
    obtain ⟨hP, hrest⟩ := List.forall_mem_cons.mp hinputs
    constructor
    · intro hall
      have hnext : Good (step s i) := hall [i] ⟨inputs, rfl⟩
      refine ⟨(hok s i hP hs hgood).mp hnext, (ih hrest (hstep s i hP hs) hnext).mp fun past hpast => ?_⟩
      exact hall (i :: past) (List.cons_prefix_cons.mpr ⟨rfl, hpast⟩)
    · rintro ⟨hi, hguarded⟩ past hpast
      cases past with
      | nil => exact hgood
      | cons j past =>
        obtain ⟨rfl, htail⟩ := List.cons_prefix_cons.mp hpast
        exact (ih hrest (hstep s j hP hs) ((hok s j hP hs hgood).mpr hi)).mpr hguarded past htail

theorem always_iff {Inv Good : σ → Prop} (hstep : ∀ s i, Inv s → Inv (step s i))
    (hok : ∀ s i, Inv s → Good s → (Good (step s i) ↔ ok s i)) {s : σ} {inputs : List ι}
    (hs : Inv s) (hgood : Good s) :
    (∀ past, past <+: inputs → Good (run step s past)) ↔ Guarded step ok s inputs :=
  always_iff_of_mem (P := fun _ => True) (fun s i _ => hstep s i) (fun s i _ => hok s i)
    (fun _ _ => trivial) hs hgood

/-- The last step of a guarded run starts in a state with the invariant and
meets the condition there. -/
theorem Guarded.last {Inv : σ → Prop} (hstep : ∀ s i, Inv s → ok s i → Inv (step s i))
    {s : σ} {inputs : List ι} {i : ι} (hrun : Guarded step ok s (inputs ++ [i])) (hs : Inv s) :
    Inv (run step s inputs) ∧ ok (run step s inputs) i := by
  rcases (guarded_append step ok).mp hrun with ⟨hfirst, hlast⟩
  exact ⟨hfirst.invariant hstep hs, hlast.1⟩

end Dims.GuardedRun
