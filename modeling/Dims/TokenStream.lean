import Mathlib.Data.List.Infix
import Mathlib.Data.List.Basic
import Mathlib.Tactic.Common

/-!
# Tokens of a word

A lexer reads one token from the front of a word. What it reads does not depend on what
follows, so a word falls apart into the chunks of its tokens and a tail from which no
token is read. Chunks can be taken out and put together again: the lexer finds the same
tokens. A scan that removes a pattern wherever a token begins removes the chunks that are
the pattern, if the pattern is itself the chunk of a token.
-/

namespace Dims.TokenStream

universe u v

variable {α : Type u} {τ : Type v}

structure Lexer (α : Type u) (τ : Type v) where
  read : List α → Option (τ × List α)
  chunk_of_read : ∀ {word token rest}, read word = some (token, rest) →
    ∃ chunk, chunk ≠ [] ∧ word = chunk ++ rest ∧
      ∀ rest', read (chunk ++ rest') = some (token, rest')

namespace Lexer

variable (L : Lexer α τ)

/-- The letters up to where the rest begins. -/
def stepped (word rest : List α) : List α := word.take (word.length - rest.length)

@[simp] theorem stepped_append (chunk rest : List α) : stepped (chunk ++ rest) rest = chunk := by
  simp [stepped]

/-- The chunk is that of the token, whatever follows. -/
def IsChunk (chunk : List α) (token : τ) : Prop :=
  chunk ≠ [] ∧ ∀ rest, L.read (chunk ++ rest) = some (token, rest)

variable {L}

theorem isChunk_of_read {word rest : List α} {token : τ} (h : L.read word = some (token, rest)) :
    L.IsChunk (stepped word rest) token ∧ word = stepped word rest ++ rest := by
  obtain ⟨chunk, hne, rfl, hread⟩ := L.chunk_of_read h
  simpa using ⟨hne, hread⟩

theorem length_lt_of_read {word rest : List α} {token : τ}
    (h : L.read word = some (token, rest)) : rest.length < word.length := by
  obtain ⟨chunk, hne, rfl, -⟩ := L.chunk_of_read h
  have := List.length_pos_iff.mpr hne
  simp only [List.length_append]
  omega

@[simp] theorem read_nil : L.read [] = none := by
  cases h : L.read [] with
  | none => rfl
  | some p => exact absurd (length_lt_of_read h) (by simp)

theorem IsChunk.eq_of_append {chunk chunk' rest rest' : List α} {token token' : τ}
    (h : L.IsChunk chunk token) (h' : L.IsChunk chunk' token')
    (heq : chunk ++ rest = chunk' ++ rest') : chunk = chunk' := by
  have hread := h.2 rest
  rw [heq, h'.2 rest'] at hread
  cases hread
  exact List.append_cancel_right heq

theorem IsChunk.prefix_iff {chunk pattern rest : List α} {token token' : τ}
    (h : L.IsChunk chunk token) (hpattern : L.IsChunk pattern token') :
    pattern <+: chunk ++ rest ↔ chunk = pattern := by
  constructor
  · intro hprefix
    obtain ⟨rest', heq⟩ := hprefix
    exact h.eq_of_append hpattern heq.symm
  · intro heq
    subst heq
    exact List.prefix_append _ _

section Tokens

variable (L)

/-- The chunks with their tokens, and the tail, of a word of `fuel` letters. -/
def tokensFuel : ℕ → List α → List (List α × τ) × List α
  | 0, word => ([], word)
  | fuel + 1, word =>
    match L.read word with
    | none => ([], word)
    | some (token, rest) =>
      ((stepped word rest, token) :: (tokensFuel fuel rest).1, (tokensFuel fuel rest).2)

def tokens (word : List α) : List (List α × τ) × List α := tokensFuel L word.length word

/-- The word that the chunks and the tail make. -/
def join (parts : List (List α × τ)) (tail : List α) : List α :=
  (parts.map Prod.fst).flatten ++ tail

@[simp] theorem join_nil (tail : List α) : join ([] : List (List α × τ)) tail = tail := rfl

@[simp] theorem join_cons (p : List α × τ) (parts : List (List α × τ)) (tail : List α) :
    join (p :: parts) tail = p.1 ++ join parts tail := by
  simp [join]

variable {L}

theorem tokensFuel_eq (fuel : ℕ) (word : List α) (h : word.length ≤ fuel) :
    L.tokensFuel fuel word = L.tokens word := by
  induction fuel using Nat.strong_induction_on generalizing word with
  | _ fuel ih =>
    cases fuel with
    | zero =>
      obtain rfl : word = [] := by simpa using h
      rfl
    | succ fuel =>
      rw [tokens]
      cases hword : word.length with
      | zero =>
        obtain rfl : word = [] := by simpa using hword
        simp [tokensFuel]
      | succ n =>
        simp only [tokensFuel]
        cases hread : L.read word with
        | none => rfl
        | some p =>
          have hlt := length_lt_of_read hread
          simp only [ih fuel (by omega) p.2 (by omega)]
          by_cases hn : n < fuel + 1
          · simp only [ih n hn p.2 (by omega)]
          · omega

theorem tokens_of_none {word : List α} (h : L.read word = none) : L.tokens word = ([], word) := by
  rw [tokens]
  cases word.length <;> simp [tokensFuel, h]

theorem tokens_of_read {word rest : List α} {token : τ} (h : L.read word = some (token, rest)) :
    L.tokens word = ((stepped word rest, token) :: (L.tokens rest).1, (L.tokens rest).2) := by
  have hlt := length_lt_of_read h
  rw [← tokensFuel_eq (word.length + 1) word (by omega)]
  simp only [tokensFuel, h, tokensFuel_eq word.length rest (by omega)]

theorem tokens_chunk {chunk : List α} {token : τ} (h : L.IsChunk chunk token) (rest : List α) :
    L.tokens (chunk ++ rest) = ((chunk, token) :: (L.tokens rest).1, (L.tokens rest).2) := by
  rw [tokens_of_read (h.2 rest), stepped_append]

/-- Induction along the tokens of a word. -/
theorem word_induction {P : List α → Prop} (tail : ∀ word, L.read word = none → P word)
    (token : ∀ chunk token rest, L.IsChunk chunk token → P rest → P (chunk ++ rest))
    (word : List α) : P word := by
  induction hn : word.length using Nat.strong_induction_on generalizing word with
  | _ n ih =>
    cases hread : L.read word with
    | none => exact tail word hread
    | some p =>
      have hlt := length_lt_of_read hread
      obtain ⟨hchunk, hword⟩ := isChunk_of_read hread
      rw [hword]
      exact token _ p.1 p.2 hchunk (ih p.2.length (by omega) p.2 rfl)

/-- The word is its chunks and its tail; every chunk is that of its token, and the tail has
no token. -/
theorem tokens_spec (word : List α) :
    join (L.tokens word).1 (L.tokens word).2 = word ∧
      (∀ p ∈ (L.tokens word).1, L.IsChunk p.1 p.2) ∧ L.read (L.tokens word).2 = none := by
  induction word using word_induction (L := L) with
  | tail word h => simp [tokens_of_none h, h]
  | token chunk token rest h ih =>
    rw [tokens_chunk h]
    refine ⟨by rw [join_cons, ih.1], ?_, ih.2.2⟩
    intro p hp
    rcases List.mem_cons.mp hp with rfl | hp
    · exact h
    · exact ih.2.1 p hp

theorem tokens_join {parts : List (List α × τ)} {tail : List α}
    (hparts : ∀ p ∈ parts, L.IsChunk p.1 p.2) (htail : L.read tail = none) :
    L.tokens (join parts tail) = (parts, tail) := by
  induction parts with
  | nil => rw [join_nil, tokens_of_none htail]
  | cons p parts ih =>
    have hrest := ih fun q hq => hparts q (List.mem_cons_of_mem p hq)
    rw [join_cons, tokens_chunk (hparts p List.mem_cons_self), hrest]

end Tokens

section Delete

variable [DecidableEq α] (L)

/-- The scan through a word of `fuel` letters: the pattern is removed as often as it is
found, then a token is stepped over. -/
def deleteFuel (pattern : List α) : ℕ → List α → List α
  | 0, word => word
  | fuel + 1, word =>
    if pattern <+: word then deleteFuel pattern fuel (word.drop pattern.length)
    else match L.read word with
      | none => word
      | some (_, rest) => stepped word rest ++ deleteFuel pattern fuel rest

def delete (pattern word : List α) : List α :=
  if pattern = [] then word else deleteFuel L pattern word.length word

variable {L}

theorem deleteFuel_eq {pattern : List α} {token : τ} (hpattern : L.IsChunk pattern token)
    (fuel : ℕ) (word : List α) (h : word.length ≤ fuel) :
    deleteFuel L pattern fuel word =
      join ((L.tokens word).1.filter (·.1 ≠ pattern)) (L.tokens word).2 := by
  induction word using word_induction (L := L) generalizing fuel with
  | tail word hread =>
    have hno : ¬ pattern <+: word := by
      rintro ⟨rest, rfl⟩
      simp [hpattern.2 rest] at hread
    rw [tokens_of_none hread]
    cases fuel <;> simp [deleteFuel, hno, hread]
  | token chunk token' rest hchunk ih =>
    have hpos := List.length_pos_iff.mpr hchunk.1
    simp only [List.length_append] at h
    cases fuel with
    | zero => omega
    | succ fuel =>
      have hrest := ih fuel (by omega)
      rw [tokens_chunk hchunk, deleteFuel]
      simp only [hchunk.prefix_iff hpattern]
      by_cases heq : chunk = pattern
      · subst heq
        simp [hrest]
      · simp [heq, hchunk.2 rest, hrest]

/-- Removing a pattern that is a token removes its chunks, and nothing else changes. -/
theorem tokens_delete {pattern : List α} {token : τ} (hpattern : L.IsChunk pattern token)
    (word : List α) :
    L.tokens (L.delete pattern word) =
      ((L.tokens word).1.filter (·.1 ≠ pattern), (L.tokens word).2) := by
  obtain ⟨-, hparts, htail⟩ := L.tokens_spec word
  rw [delete, if_neg hpattern.1, deleteFuel_eq hpattern _ _ (Nat.le_refl _)]
  exact tokens_join (fun p hp => hparts p (List.mem_of_mem_filter hp)) htail

end Delete

end Lexer

end Dims.TokenStream
