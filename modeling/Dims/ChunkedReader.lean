import Mathlib.Data.List.Basic

/-!
# Reading a stream in chunks

A machine takes one symbol after the other, or refuses one. A reader takes some of the
symbols of a chunk at a time, and is called again as long as there are more. If what it does
at a time is what the machine does with these symbols, the limits of the chunks do not matter.
-/

namespace Dims.ChunkedReader

universe u v

variable {σ : Type u} {α : Type v}

/-- The reader takes at least one symbol of a chunk, and does with what it takes what the
machine does. Where it refuses, the machine refuses one of the symbols. -/
structure Follows (step : σ → α → Option σ) (read : σ → List α → Option (ℕ × σ)) : Prop where
  taken : ∀ {s chunk n t}, chunk ≠ [] → read s chunk = some (n, t) →
    0 < n ∧ (chunk.take n).foldlM step s = some t
  refused : ∀ {s chunk}, chunk ≠ [] → read s chunk = none →
    ∃ n, (chunk.take n).foldlM step s = none

section Reading

variable (read : σ → List α → Option (ℕ × σ))

/-- The reader is called until nothing is left of the chunk. -/
def readMany : ℕ → σ → List α → Option σ
  | 0, s, _ => some s
  | fuel + 1, s, chunk =>
    if chunk.isEmpty then some s
    else (read s chunk).bind fun p => readMany fuel p.2 (chunk.drop p.1)

/-- At least one symbol is taken in each call. -/
def readChunk (s : σ) (chunk : List α) : Option σ := readMany read chunk.length s chunk

end Reading

section Machine

variable {step : σ → α → Option σ} {read : σ → List α → Option (ℕ × σ)}

theorem foldlM_take_drop (s : σ) (chunk : List α) (n : ℕ) :
    chunk.foldlM step s =
      ((chunk.take n).foldlM step s).bind fun t => (chunk.drop n).foldlM step t := by
  conv_lhs => rw [← List.take_append_drop n chunk]
  exact List.foldlM_append

theorem readMany_eq (h : Follows step read) (fuel : ℕ) :
    ∀ (s : σ) (chunk : List α), chunk.length ≤ fuel →
      readMany read fuel s chunk = chunk.foldlM step s := by
  induction fuel with
  | zero =>
    intro s chunk hlength
    obtain rfl := List.length_eq_zero_iff.mp (Nat.le_zero.mp hlength)
    rfl
  | succ fuel ih =>
    intro s chunk hlength
    by_cases hchunk : chunk = []
    · subst hchunk
      rfl
    · rw [readMany, if_neg (by simpa using hchunk)]
      cases hread : read s chunk with
      | none =>
        obtain ⟨n, hn⟩ := h.refused hchunk hread
        rw [foldlM_take_drop s chunk n, hn]
        rfl
      | some p =>
        obtain ⟨hpos, hp⟩ := h.taken hchunk hread
        have hshort : (chunk.drop p.1).length ≤ fuel := by
          have := List.length_pos_iff.mpr hchunk
          rw [List.length_drop]
          omega
        rw [foldlM_take_drop s chunk p.1, hp, Option.bind_some, Option.bind_some,
          ih p.2 _ hshort]

theorem readChunk_eq (h : Follows step read) (s : σ) (chunk : List α) :
    readChunk read s chunk = chunk.foldlM step s :=
  readMany_eq h chunk.length s chunk (Nat.le_refl _)

/-- The limits of the chunks do not matter. -/
theorem foldlM_readChunk (h : Follows step read) (chunks : List (List α)) (s : σ) :
    chunks.foldlM (readChunk read) s = readChunk read s chunks.flatten := by
  induction chunks generalizing s with
  | nil => rfl
  | cons chunk chunks ih =>
    rw [List.foldlM_cons, List.flatten_cons, readChunk_eq h, readChunk_eq h, List.foldlM_append]
    congr 1
    funext t
    rw [ih, readChunk_eq h]

/-- What each symbol preserves, with all the symbols that have been taken, a stream preserves. -/
theorem foldlM_preserves {P : σ → List α → Prop}
    (h : ∀ {s before a t}, P s before → step s a = some t → P t (before ++ [a]))
    (symbols : List α) : ∀ {s t : σ} {before : List α}, P s before →
      symbols.foldlM step s = some t → P t (before ++ symbols) := by
  induction symbols with
  | nil =>
    intro s t before hs hrun
    obtain rfl := Option.some.inj hrun
    simpa using hs
  | cons a symbols ih =>
    intro s t before hs hrun
    rw [List.foldlM_cons] at hrun
    obtain ⟨m, hm, hrest⟩ := Option.bind_eq_some_iff.mp hrun
    simpa using ih (h hs hm) hrest

theorem exists_of_foldlM_eq_none (symbols : List α) : ∀ {s : σ}, symbols.foldlM step s = none →
    ∃ before a after t, symbols = before ++ a :: after ∧ before.foldlM step s = some t ∧
      step t a = none := by
  induction symbols with
  | nil =>
    intro s h
    cases h
  | cons a symbols ih =>
    intro s h
    rw [List.foldlM_cons] at h
    cases ha : step s a with
    | none => exact ⟨[], a, symbols, s, rfl, rfl, ha⟩
    | some m =>
      rw [ha] at h
      obtain ⟨before, b, after, t, rfl, hbefore, hb⟩ := ih h
      refine ⟨a :: before, b, after, t, rfl, ?_, hb⟩
      rw [List.foldlM_cons, ha]
      exact hbefore

end Machine

end Dims.ChunkedReader
