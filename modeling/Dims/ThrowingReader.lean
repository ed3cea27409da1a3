import Dims.ByteCodec

/-!
# Readers that throw

A reader over a buffer with a position throws when the buffer is too short or a value is
refused. What has been read until then stays read: the position is behind it.
-/

namespace Dims.ByteCodec

universe u v

variable {α : Type u} {β : Type v}

/-- The value, unless the reader throws, and what it leaves in both cases. -/
abbrev ThrowingReader (α : Type u) := Bytes → Option α × Bytes

namespace ThrowingReader

/-- Exactly `n` bytes, or none. -/
def take (n : ℕ) : ThrowingReader Bytes := fun bs =>
  if n ≤ bs.length then (some (bs.take n), bs.drop n) else (none, bs)

def value (a : α) : ThrowingReader α := fun bs => (some a, bs)

def refuse : ThrowingReader α := fun bs => (none, bs)

def andThen (read : ThrowingReader α) (next : α → ThrowingReader β) : ThrowingReader β := fun bs =>
  match read bs with
  | (none, rest) => (none, rest)
  | (some a, rest) => next a rest

/-- The reader for those who do not go on after an exception. -/
def reader (read : ThrowingReader α) : Reader α := fun bs =>
  (read bs).1.map fun a => (a, (read bs).2)

theorem reader_take (n : ℕ) : (take n).reader = takeBytes n := by
  funext bs
  unfold reader take takeBytes
  split <;> rfl

theorem reader_value (a : α) (bs : Bytes) : (value a).reader bs = some (a, bs) := rfl

theorem reader_refuse (bs : Bytes) : (refuse : ThrowingReader α).reader bs = none := rfl

theorem reader_andThen (read : ThrowingReader α) (next : α → ThrowingReader β) (bs : Bytes) :
    (read.andThen next).reader bs = (read.reader bs).bind fun p => (next p.1).reader p.2 := by
  unfold reader andThen
  rcases read bs with ⟨_ | a, rest⟩ <;> rfl

theorem reader_eq_some_iff {read : ThrowingReader α} {bs rest : Bytes} {a : α} :
    read.reader bs = some (a, rest) ↔ read bs = (some a, rest) := by
  unfold reader
  rcases read bs with ⟨_ | b, left⟩ <;> simp

/-- A reader that never goes back. -/
def Forward (read : ThrowingReader α) : Prop := ∀ bs, (read bs).2.length ≤ bs.length

theorem forward_take (n : ℕ) : Forward (take n) := by
  intro bs
  unfold take
  split
  · exact (List.drop_sublist n bs).length_le
  · exact le_rfl

theorem forward_value (a : α) : Forward (value a) := fun _ => le_rfl

theorem forward_refuse : Forward (refuse : ThrowingReader α) := fun _ => le_rfl

theorem Forward.andThen {read : ThrowingReader α} {next : α → ThrowingReader β}
    (hread : read.Forward) (hnext : ∀ a, (next a).Forward) : (read.andThen next).Forward := by
  intro bs
  have hle := hread bs
  unfold ThrowingReader.andThen
  cases hbs : read bs with
  | mk a rest =>
    rw [hbs] at hle
    cases a with
    | none => exact hle
    | some a => exact (hnext a rest).trans hle

theorem andThen_take_of_lt {n : ℕ} {next : Bytes → ThrowingReader β} {bs : Bytes}
    (h : bs.length < n) : (take n).andThen next bs = (none, bs) := by
  unfold andThen take
  rw [if_neg (Nat.not_le_of_lt h)]

theorem andThen_take_of_le {n : ℕ} {next : Bytes → ThrowingReader β} {bs : Bytes}
    (h : n ≤ bs.length) : (take n).andThen next bs = next (bs.take n) (bs.drop n) := by
  unfold andThen take
  rw [if_pos h]

end ThrowingReader

end Dims.ByteCodec
