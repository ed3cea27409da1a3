import Mathlib.Data.List.Basic
import Mathlib.Tactic.Ring

/-!
# Prefix codecs over byte strings

A codec writes a value as bytes and reads it back from the front of a longer
byte string, returning the unread remainder. The round-trip law is a field, so a
codec built from the combinators below carries its own correctness. `Fits` is
the domain on which the law holds: a length prefix of bounded size cannot
describe every list.
-/

namespace Dims.ByteCodec

universe u v

abbrev Bytes := List UInt8

/-- The `n` least significant bytes of `v`, least significant first. -/
def leBytes : ℕ → ℕ → Bytes
  | 0, _ => []
  | n + 1, v => UInt8.ofNat v :: leBytes n (v / 256)

/-- The number written by a little-endian byte string. -/
def leValue : Bytes → ℕ
  | [] => 0
  | b :: bs => b.toNat + 256 * leValue bs

@[simp] theorem length_leBytes (n v : ℕ) : (leBytes n v).length = n := by
  induction n generalizing v with
  | zero => rfl
  | succ n ih => simp [leBytes, ih]

theorem leValue_leBytes (n v : ℕ) : leValue (leBytes n v) = v % 256 ^ n := by
  induction n generalizing v with
  | zero => simp [leBytes, leValue, Nat.mod_one]
  | succ n ih =>
    have hsplit : v % 256 ^ (n + 1) = v % 256 + 256 * (v / 256 % 256 ^ n) := by
      rw [pow_succ', Nat.mod_mul]
    simp [leBytes, leValue, ih, hsplit]

theorem leValue_leBytes_of_lt {n v : ℕ} (h : v < 256 ^ n) : leValue (leBytes n v) = v := by
  rw [leValue_leBytes, Nat.mod_eq_of_lt h]

/-- A reader takes the front of a byte string or fails. -/
abbrev Reader (α : Type u) := Bytes → Option (α × Bytes)

/-- Read exactly `n` bytes. -/
def takeBytes (n : ℕ) : Reader Bytes := fun bs =>
  if n ≤ bs.length then some (bs.take n, bs.drop n) else none

theorem takeBytes_append {w : Bytes} {n : ℕ} (h : w.length = n) (rest : Bytes) :
    takeBytes n (w ++ rest) = some (w, rest) := by
  subst h
  simp [takeBytes]

theorem takeBytes_spec {n : ℕ} {bs w rest : Bytes} (h : takeBytes n bs = some (w, rest)) :
    bs = w ++ rest ∧ w.length = n := by
  unfold takeBytes at h
  split at h
  case isTrue hn =>
    simp only [Option.some.injEq, Prod.mk.injEq] at h
    obtain ⟨rfl, rfl⟩ := h
    exact ⟨(List.take_append_drop n bs).symm, by simpa using hn⟩
  case isFalse => cases h

/-- A value format: how it is written, how it is read from the front of a byte
string, and for which values reading undoes writing. -/
structure Codec (α : Type u) where
  encode : α → Bytes
  decode : Reader α
  Fits : α → Prop
  decode_encode : ∀ a rest, Fits a → decode (encode a ++ rest) = some (a, rest)
  decode_suffix : ∀ bs a rest, decode bs = some (a, rest) → rest <:+ bs

namespace Codec

variable {α : Type u} {β : Type v}

/-- An unsigned integer of `n` bytes. -/
def uint (n : ℕ) : Codec ℕ where
  encode v := leBytes n v
  decode bs := (takeBytes n bs).map fun p => (leValue p.1, p.2)
  Fits v := v < 256 ^ n
  decode_encode := by
    intro v rest hv
    rw [takeBytes_append (length_leBytes n v)]
    simp [leValue_leBytes_of_lt hv]
  decode_suffix := by
    intro bs a rest h
    obtain ⟨⟨w, rest'⟩, hw, heq⟩ := Option.map_eq_some_iff.mp h
    obtain ⟨rfl, -⟩ := takeBytes_spec hw
    cases heq
    exact List.suffix_append _ _

/-- Transport a codec along a retraction: `pack` undoes `unpack`. -/
def imap (c : Codec α) (unpack : β → α) (pack : α → β) (h : ∀ b, pack (unpack b) = b) :
    Codec β where
  encode b := c.encode (unpack b)
  decode bs := (c.decode bs).map fun p => (pack p.1, p.2)
  Fits b := c.Fits (unpack b)
  decode_encode := by
    intro b rest hb
    simp [c.decode_encode _ rest hb, h]
  decode_suffix := by
    intro bs b rest hd
    obtain ⟨⟨a, rest'⟩, ha, heq⟩ := Option.map_eq_some_iff.mp hd
    cases heq
    exact c.decode_suffix _ _ _ ha

/-- One value after another. -/
def prod (ca : Codec α) (cb : Codec β) : Codec (α × β) where
  encode p := ca.encode p.1 ++ cb.encode p.2
  decode bs := (ca.decode bs).bind fun p => (cb.decode p.2).map fun q => ((p.1, q.1), q.2)
  Fits p := ca.Fits p.1 ∧ cb.Fits p.2
  decode_encode := by
    rintro ⟨a, b⟩ rest ⟨ha, hb⟩
    simp [List.append_assoc, ca.decode_encode _ _ ha, cb.decode_encode _ _ hb]
  decode_suffix := by
    intro bs ab rest h
    obtain ⟨⟨a, mid⟩, ha, hrest⟩ := Option.bind_eq_some_iff.mp h
    obtain ⟨⟨b, tail⟩, hb, heq⟩ := Option.map_eq_some_iff.mp hrest
    cases heq
    exact (cb.decode_suffix _ _ _ hb).trans (ca.decode_suffix _ _ _ ha)

/-- Read `n` values one after another. -/
def decodeMany (c : Codec α) : ℕ → Reader (List α)
  | 0, bs => some ([], bs)
  | n + 1, bs => (c.decode bs).bind fun p =>
      (decodeMany c n p.2).map fun q => (p.1 :: q.1, q.2)

theorem decodeMany_encode (c : Codec α) (xs : List α) (rest : Bytes) (h : ∀ a ∈ xs, c.Fits a) :
    c.decodeMany xs.length (xs.flatMap c.encode ++ rest) = some (xs, rest) := by
  induction xs with
  | nil => rfl
  | cons x xs ih =>
    have hx := c.decode_encode x (xs.flatMap c.encode ++ rest) (h x (by simp))
    have hxs := ih fun a ha => h a (List.mem_cons_of_mem _ ha)
    simp [decodeMany, List.append_assoc, hx, hxs]

theorem decodeMany_suffix (c : Codec α) (n : ℕ) (bs : Bytes) (xs : List α) (rest : Bytes)
    (h : c.decodeMany n bs = some (xs, rest)) : rest <:+ bs := by
  induction n generalizing bs xs rest with
  | zero =>
    cases h
    exact List.suffix_rfl
  | succ n ih =>
    obtain ⟨⟨a, mid⟩, ha, hrest⟩ := Option.bind_eq_some_iff.mp h
    obtain ⟨⟨as, tail⟩, has, heq⟩ := Option.map_eq_some_iff.mp hrest
    cases heq
    exact (ih _ _ _ has).trans (c.decode_suffix _ _ _ ha)

/-- A list behind the count that `count` writes. -/
def list (count : Codec ℕ) (c : Codec α) : Codec (List α) where
  encode xs := count.encode xs.length ++ xs.flatMap c.encode
  decode bs := (count.decode bs).bind fun p => c.decodeMany p.1 p.2
  Fits xs := count.Fits xs.length ∧ ∀ a ∈ xs, c.Fits a
  decode_encode := by
    rintro xs rest ⟨hn, hxs⟩
    simp [List.append_assoc, count.decode_encode _ _ hn, c.decodeMany_encode _ _ hxs]
  decode_suffix := by
    intro bs xs rest h
    obtain ⟨⟨n, mid⟩, hn, hrest⟩ := Option.bind_eq_some_iff.mp h
    exact (c.decodeMany_suffix _ _ _ _ hrest).trans (count.decode_suffix _ _ _ hn)

/-- A byte string behind the count that `count` writes. -/
def bytes (count : Codec ℕ) : Codec Bytes where
  encode w := count.encode w.length ++ w
  decode bs := (count.decode bs).bind fun p => takeBytes p.1 p.2
  Fits w := count.Fits w.length
  decode_encode := by
    intro w rest hw
    simp [List.append_assoc, count.decode_encode _ _ hw, takeBytes_append]
  decode_suffix := by
    intro bs w rest h
    obtain ⟨⟨n, mid⟩, hn, hrest⟩ := Option.bind_eq_some_iff.mp h
    obtain ⟨rfl, -⟩ := takeBytes_spec hrest
    exact (List.suffix_append _ _).trans (count.decode_suffix _ _ _ hn)

theorem bytes_decode_length (count : Codec ℕ) {bs w rest : Bytes}
    (h : (bytes count).decode bs = some (w, rest)) : w.length + rest.length ≤ bs.length := by
  obtain ⟨⟨n, mid⟩, hn, hrest⟩ := Option.bind_eq_some_iff.mp h
  obtain ⟨rfl, -⟩ := takeBytes_spec hrest
  have := (count.decode_suffix _ _ _ hn).length_le
  simpa using this

theorem decode_length_le (c : Codec α) {bs : Bytes} {a : α} {rest : Bytes}
    (h : c.decode bs = some (a, rest)) : rest.length ≤ bs.length :=
  (c.decode_suffix _ _ _ h).length_le

theorem encode_injective (c : Codec α) {a b : α} (ha : c.Fits a) (hb : c.Fits b)
    (h : c.encode a = c.encode b) : a = b := by
  have h1 := c.decode_encode a [] ha
  have h2 := c.decode_encode b [] hb
  rw [h] at h1
  exact (Prod.mk.inj (Option.some.inj (h1.symm.trans h2))).1

end Codec

end Dims.ByteCodec
