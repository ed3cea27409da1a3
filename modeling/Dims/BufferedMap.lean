import Mathlib.Logic.Function.Basic
import Mathlib.Data.List.Basic

/-!
# A map whose insertions wait for a flush

Insertions are collected and take effect together, erasures take effect at once and also
reach what is collected. Once nothing is collected the map holds what a plain map would.
-/

namespace Dims

universe u v

structure BufferedMap (κ : Type u) (α : Type v) where
  effective : κ → Option α
  pending : κ → Option α

namespace BufferedMap

inductive Call (κ : Type u) (α : Type v)
  | set (key : κ) (value : α)
  | erase (key : κ)
  | flush
  | read (key : κ)

variable {κ : Type u} {α : Type v} [DecidableEq κ]

def ofContent (content : κ → Option α) : BufferedMap κ α := ⟨content, fun _ => none⟩

def step (m : BufferedMap κ α) : Call κ α → BufferedMap κ α
  | .set key value => { m with pending := Function.update m.pending key (some value) }
  | .erase key =>
    ⟨Function.update m.effective key none, Function.update m.pending key none⟩
  | .flush => ⟨fun key => (m.pending key).or (m.effective key), fun _ => none⟩
  | .read _ => m

def run (content : κ → Option α) (calls : List (Call κ α)) : BufferedMap κ α :=
  calls.foldl step (ofContent content)

/-- The same call of a map without a buffer. -/
def plainStep (content : κ → Option α) : Call κ α → κ → Option α
  | .set key value => Function.update content key (some value)
  | .erase key => Function.update content key none
  | .flush => content
  | .read _ => content

def plain (content : κ → Option α) (calls : List (Call κ α)) : κ → Option α :=
  calls.foldl plainStep content

/-- What the map holds once what is collected has taken effect. -/
def total (m : BufferedMap κ α) (key : κ) : Option α := (m.pending key).or (m.effective key)

theorem total_step (m : BufferedMap κ α) (call : Call κ α) :
    (m.step call).total = plainStep m.total call := by
  funext key
  cases call with
  | set key' value =>
    by_cases hkey : key = key'
    · subst hkey
      simp [total, step, plainStep]
    · simp [total, step, plainStep, hkey]
  | erase key' =>
    by_cases hkey : key = key'
    · subst hkey
      simp [total, step, plainStep]
    · simp [total, step, plainStep, hkey]
  | flush => rfl
  | read => rfl

theorem total_foldl (m : BufferedMap κ α) (calls : List (Call κ α)) :
    (calls.foldl step m).total = plain m.total calls := by
  induction calls generalizing m with
  | nil => rfl
  | cons call calls ih =>
    rw [List.foldl_cons, ih, total_step]
    rfl

theorem effective_eq_plain (content : κ → Option α) (calls : List (Call κ α)) {key : κ}
    (h : (run content calls).pending key = none) :
    (run content calls).effective key = plain content calls key := by
  have htotal : (run content calls).total key = _ :=
    congrFun (total_foldl (ofContent content) calls) key
  rwa [total, h, Option.none_or] at htotal

end BufferedMap

end Dims
