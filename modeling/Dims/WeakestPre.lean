import Mathlib.Data.List.Infix
import Mathlib.Data.Nat.Basic

/-!
# Programs without loops

A program is a list of instructions, and an instruction changes the state or fails. A
program fails with its first instruction that does. What a program establishes is
described before it: `Wp` by the states from which it ends in a wanted state, `Triple` by
what holds of its end if it does not fail. Both are taken apart instruction by instruction,
and what every instruction keeps is kept by the program and at every point on its way.
-/

namespace Dims.WeakestPre

universe u v

variable {ι : Type u} {σ : Type v} (step : ι → σ → Option σ)

def exec : List ι → σ → Option σ
  | [], s => some s
  | i :: prog, s => (step i s).bind (exec prog)

/-- The program ends, and where it ends the condition holds. -/
def Wp (prog : List ι) (Q : σ → Prop) (s : σ) : Prop := ∃ t, exec step prog s = some t ∧ Q t

/-- Where the program ends, if it does, the condition holds. -/
def Triple (P : σ → Prop) (prog : List ι) (Q : σ → Prop) : Prop :=
  ∀ s t, P s → exec step prog s = some t → Q t

/-- The program comes through the state. -/
def Passes (prog : List ι) (s t : σ) : Prop := ∃ past, past <+: prog ∧ exec step past s = some t

@[simp] theorem exec_nil (s : σ) : exec step [] s = some s := rfl

@[simp] theorem exec_cons (i : ι) (prog : List ι) (s : σ) :
    exec step (i :: prog) s = (step i s).bind (exec step prog) := rfl

variable {step}

section Wp

variable {Q R : σ → Prop} {s : σ}

@[simp] theorem wp_nil : Wp step [] Q s ↔ Q s := by simp [Wp]

theorem wp_cons {i : ι} {prog : List ι} :
    Wp step (i :: prog) Q s ↔ ∃ t, step i s = some t ∧ Wp step prog Q t := by
  cases hstep : step i s with
  | none => simp [Wp, hstep]
  | some t => simp [Wp, hstep]

end Wp

section Triple

variable {P Q R : σ → Prop} {prog : List ι}

theorem Triple.nil : Triple step P [] P := by
  intro s t hs ht
  simpa [← Option.some.inj ht] using hs

/-- What every instruction keeps, the program keeps. -/
theorem Triple.invariant (h : ∀ i ∈ prog, ∀ s t, P s → step i s = some t → P t) :
    Triple step P prog P := by
  induction prog with
  | nil => exact .nil
  | cons i prog ih =>
    have hrest := ih fun j hj => h j (List.mem_cons_of_mem i hj)
    intro s u hs hu
    obtain ⟨t, ht, hu⟩ := Option.bind_eq_some_iff.mp hu
    exact hrest t u (h i List.mem_cons_self s t hs ht) hu

/-- What every instruction keeps holds wherever the program comes through. -/
theorem Passes.invariant (h : ∀ i ∈ prog, ∀ s t, P s → step i s = some t → P t) {s t : σ}
    (hpass : Passes step prog s t) (hs : P s) : P t := by
  obtain ⟨past, hpast, ht⟩ := hpass
  exact Triple.invariant (fun i hi => h i (hpast.subset hi)) s t hs ht

end Triple

end Dims.WeakestPre
