import Mathlib.Data.Set.Basic

/-!
# Blocks that name their predecessor

A list of blocks is linked from a start if each block names the one before it, the
first one the start. Where no two blocks name the same predecessor, lists that are
linked from one start agree block by block.
-/

namespace Dims.HashChain

universe u v

variable {α : Type u} {η : Type v} (prev hash : α → η)

def Linked : η → List α → Prop
  | _, [] => True
  | start, b :: blocks => prev b = start ∧ Linked (hash b) blocks

def tip : η → List α → η
  | start, [] => start
  | _, b :: blocks => tip (hash b) blocks

/-- Blocks that name the same predecessor are the same. -/
def ForkFree (S : Set α) : Prop := ∀ a ∈ S, ∀ b ∈ S, prev a = prev b → hash a = hash b

variable {prev hash}

theorem ForkFree.mono {S T : Set α} (h : ForkFree prev hash T) (hsub : S ⊆ T) :
    ForkFree prev hash S :=
  fun a ha b hb => h a (hsub ha) b (hsub hb)

theorem tip_append (start : η) (first second : List α) :
    tip hash start (first ++ second) = tip hash (tip hash start first) second := by
  induction first generalizing start with
  | nil => rfl
  | cons b first ih => exact ih (hash b)

theorem tip_mem (start : η) (blocks : List α) : tip hash start blocks ∈ start :: blocks.map hash := by
  induction blocks generalizing start with
  | nil => exact List.mem_cons_self
  | cons b blocks ih => exact List.mem_cons_of_mem _ (ih (hash b))

theorem linked_append {start : η} {first second : List α} :
    Linked prev hash start (first ++ second) ↔
      Linked prev hash start first ∧ Linked prev hash (tip hash start first) second := by
  induction first generalizing start with
  | nil => simp [Linked, tip]
  | cons b first ih => simp [Linked, tip, ih, and_assoc]

theorem Linked.head {start : η} {blocks : List α} {b : α} (h : Linked prev hash start blocks)
    (hb : blocks[0]? = some b) : prev b = start := by
  cases blocks with
  | nil => cases hb
  | cons c blocks =>
    cases hb
    exact h.1

theorem Linked.take_drop {start : η} {blocks : List α} (h : Linked prev hash start blocks) (n : ℕ) :
    Linked prev hash start (blocks.take n) ∧
      Linked prev hash (tip hash start (blocks.take n)) (blocks.drop n) := by
  rw [← List.take_append_drop n blocks] at h
  exact linked_append.mp h

/-- Lists linked from one start agree as far as both reach. -/
theorem ForkFree.agree {S : Set α} (hfree : ForkFree prev hash S) {start : η} {first second : List α}
    (hfirst : Linked prev hash start first) (hsecond : Linked prev hash start second)
    (hfirstIn : ∀ b ∈ first, b ∈ S) (hsecondIn : ∀ b ∈ second, b ∈ S) {i : ℕ} {a b : α}
    (ha : first[i]? = some a) (hb : second[i]? = some b) : prev a = prev b ∧ hash a = hash b := by
  induction first generalizing start second i with
  | nil => cases ha
  | cons c first ih =>
    cases second with
    | nil => cases hb
    | cons d second =>
      have hprev : prev c = prev d := hfirst.1.trans hsecond.1.symm
      have hhash : hash c = hash d :=
        hfree c (hfirstIn c List.mem_cons_self) d (hsecondIn d List.mem_cons_self) hprev
      cases i with
      | zero =>
        cases ha
        cases hb
        exact ⟨hprev, hhash⟩
      | succ i =>
        refine ih (i := i) hfirst.2 ?_ (fun b hb => hfirstIn b (List.mem_cons_of_mem _ hb))
          (fun b hb => hsecondIn b (List.mem_cons_of_mem _ hb)) ha hb
        rw [hhash]
        exact hsecond.2

theorem ForkFree.tip_take {S : Set α} (hfree : ForkFree prev hash S) {start : η}
    {first second : List α} (hfirst : Linked prev hash start first)
    (hsecond : Linked prev hash start second) (hfirstIn : ∀ b ∈ first, b ∈ S)
    (hsecondIn : ∀ b ∈ second, b ∈ S) {n : ℕ} (hn : n ≤ first.length) (hn' : n ≤ second.length) :
    tip hash start (first.take n) = tip hash start (second.take n) := by
  induction n generalizing start first second with
  | zero => rfl
  | succ n ih =>
    cases first with
    | nil => exact absurd hn (by simp)
    | cons c first =>
      cases second with
      | nil => exact absurd hn' (by simp)
      | cons d second =>
        have hhash : hash c = hash d :=
          hfree c (hfirstIn c List.mem_cons_self) d (hsecondIn d List.mem_cons_self)
            (hfirst.1.trans hsecond.1.symm)
        have hsecond' : Linked prev hash (hash c) second := by
          rw [hhash]
          exact hsecond.2
        rw [List.take_succ_cons, List.take_succ_cons, tip, tip, ← hhash]
        exact ih hfirst.2 hsecond' (fun b hb => hfirstIn b (List.mem_cons_of_mem _ hb))
          (fun b hb => hsecondIn b (List.mem_cons_of_mem _ hb)) (by simpa using hn) (by simpa using hn')

theorem Linked.prev_mem {start : η} {blocks : List α} (h : Linked prev hash start blocks) {b : α}
    (hb : b ∈ blocks) : prev b ∈ start :: blocks.map hash := by
  obtain ⟨before, after, rfl⟩ := List.append_of_mem hb
  rw [(linked_append.mp h).2.1, List.map_append, ← List.cons_append]
  exact List.mem_append_left _ (tip_mem start before)

/-- If no two places of a chain are the same, a block of it follows on the place that it names
and on no other. -/
theorem Linked.head_of_prev {start : η} {first second : List α}
    (h : Linked prev hash start (first ++ second))
    (hdistinct : (start :: (first ++ second).map hash).Nodup) {b : α} (hb : b ∈ first ++ second)
    (hprev : prev b = tip hash start first) : second.head? = some b := by
  induction first generalizing start with
  | nil =>
    cases second with
    | nil => cases hb
    | cons c second =>
      obtain rfl | hlater := List.mem_cons.mp hb
      · rfl
      · have hin : prev b ∈ (c :: second).map hash := Linked.prev_mem h.2 hlater
        rw [hprev] at hin
        exact absurd hin (List.nodup_cons.mp hdistinct).1
  | cons c first ih =>
    obtain ⟨hstart, hrest⟩ := List.nodup_cons.mp hdistinct
    obtain rfl | hlater := List.mem_cons.mp hb
    · have hin : tip hash (hash b) first ∈ (b :: (first ++ second)).map hash := by
        rw [List.map_cons, List.map_append, ← List.cons_append]
        exact List.mem_append_left _ (tip_mem (hash b) first)
      rw [show tip hash (hash b) first = start from hprev.symm.trans h.1] at hin
      exact absurd hin hstart
    · exact ih h.2 hrest hlater hprev

end Dims.HashChain
