import Dims.ByteCodec

/-!
# The stream format of serialize.h

Fixed-width integers are written least significant byte first. A vector is
written behind its size in the one-, three-, five- or nine-byte form of
`WriteCompactSize`; reading rejects a form longer than needed and a size above
`MAX_SIZE`.
-/

namespace Dims.Serialize
open ByteCodec

/-- `MAX_SIZE` -/
def maxSize : ℕ := 0x02000000

def writeCompactSize (nSize : ℕ) : Bytes :=
  if nSize < 253 then leBytes 1 nSize
  else if nSize ≤ 0xffff then 253 :: leBytes 2 nSize
  else if nSize ≤ 0xffffffff then 254 :: leBytes 4 nSize
  else 255 :: leBytes 8 nSize

/-- The value behind a marker byte, refused below the least value that needs it. -/
def readMarked (width least : ℕ) : Reader ℕ := fun bs =>
  (takeBytes width bs).bind fun p =>
    if least ≤ leValue p.1 then some (leValue p.1, p.2) else none

/-- The size as written, before the comparison with `MAX_SIZE`. -/
def readSize : Reader ℕ
  | [] => none
  | chSize :: bs =>
    if chSize < 253 then some (chSize.toNat, bs)
    else if chSize = 253 then readMarked 2 253 bs
    else if chSize = 254 then readMarked 4 0x10000 bs
    else readMarked 8 0x100000000 bs

def readCompactSize : Reader ℕ := fun bs =>
  (readSize bs).bind fun p => if p.1 ≤ maxSize then some p else none

theorem readMarked_leBytes {width least n : ℕ} (hlo : least ≤ n) (hhi : n < 256 ^ width)
    (rest : Bytes) : readMarked width least (leBytes width n ++ rest) = some (n, rest) := by
  rw [readMarked, takeBytes_append (length_leBytes width n)]
  simp [leValue_leBytes_of_lt hhi, hlo]

theorem readMarked_suffix {width least : ℕ} {bs : Bytes} {n : ℕ} {rest : Bytes}
    (h : readMarked width least bs = some (n, rest)) : rest <:+ bs := by
  obtain ⟨⟨w, rest'⟩, hw, hcheck⟩ := Option.bind_eq_some_iff.mp h
  obtain ⟨rfl, -⟩ := takeBytes_spec hw
  split at hcheck
  · cases hcheck
    exact List.suffix_append _ _
  · cases hcheck

theorem readCompactSize_write (n : ℕ) (hn : n ≤ maxSize) (rest : Bytes) :
    readCompactSize (writeCompactSize n ++ rest) = some (n, rest) := by
  have hread : readSize (writeCompactSize n ++ rest) = some (n, rest) := by
    have hmax : maxSize < 2 ^ 32 := by decide
    unfold writeCompactSize
    split
    case isTrue h1 =>
      have hlt : UInt8.ofNat n < 253 := by
        rw [UInt8.lt_iff_toNat_lt]
        simp only [UInt8.toNat_ofNat']
        exact lt_of_le_of_lt (Nat.mod_le _ _) h1
      simp [leBytes, readSize, hlt, Nat.mod_eq_of_lt (show n < 256 by omega)]
    case isFalse h1 =>
      split
      case isTrue h2 =>
        have hmarked : readMarked 2 253 (leBytes 2 n ++ rest) = some (n, rest) :=
          readMarked_leBytes (by omega) (by norm_num; omega) rest
        simpa [readSize] using hmarked
      case isFalse h2 =>
        have hmarked : readMarked 4 0x10000 (leBytes 4 n ++ rest) = some (n, rest) :=
          readMarked_leBytes (by omega) (by norm_num; omega) rest
        rw [if_pos (by omega)]
        simpa [readSize] using hmarked
  simp [readCompactSize, hread, hn]

theorem readSize_suffix {bs : Bytes} {n : ℕ} {rest : Bytes}
    (h : readSize bs = some (n, rest)) : rest <:+ bs := by
  cases bs with
  | nil => cases h
  | cons chSize tail =>
    have htail : rest <:+ tail := by
      simp only [readSize] at h
      split at h
      case isTrue =>
        cases h
        exact List.suffix_rfl
      case isFalse =>
        split at h
        · exact readMarked_suffix h
        · split at h <;> exact readMarked_suffix h
    exact htail.trans (List.suffix_cons _ _)

/-- The size prefix of a vector. -/
def compactSize : Codec ℕ where
  encode := writeCompactSize
  decode := readCompactSize
  Fits n := n ≤ maxSize
  decode_encode n rest hn := readCompactSize_write n hn rest
  decode_suffix := by
    intro bs n rest h
    obtain ⟨⟨m, rest'⟩, hm, hcheck⟩ := Option.bind_eq_some_iff.mp h
    split at hcheck
    · cases hcheck
      exact readSize_suffix hm
    · cases hcheck

/-- A vector of bytes. -/
def byteVector : Codec Bytes := Codec.bytes compactSize

theorem byteVector_fits {w : Bytes} (h : w.length ≤ maxSize) : byteVector.Fits w := h

/-- A vector of serializable objects. -/
def vector {α : Type*} (c : Codec α) : Codec (List α) := Codec.list compactSize c

def uint32 : Codec UInt32 :=
  (Codec.uint 4).imap UInt32.toNat UInt32.ofNat (by simp)

def uint64 : Codec UInt64 :=
  (Codec.uint 8).imap UInt64.toNat UInt64.ofNat (by simp)

def int32 : Codec Int32 :=
  uint32.imap Int32.toUInt32 UInt32.toInt32 (by simp)

def int64 : Codec Int64 :=
  uint64.imap Int64.toUInt64 UInt64.toInt64 (by simp)

/-- `uint160` and `uint256` are written as their raw words. -/
def bitVec (n : ℕ) : Codec (BitVec (8 * n)) :=
  (Codec.uint n).imap BitVec.toNat (BitVec.ofNat (8 * n)) (by simp)

@[simp] theorem uint32_fits (x : UInt32) : uint32.Fits x := by
  simpa [uint32, Codec.imap, Codec.uint] using x.toNat_lt

@[simp] theorem uint64_fits (x : UInt64) : uint64.Fits x := by
  simpa [uint64, Codec.imap, Codec.uint] using x.toNat_lt

@[simp] theorem int32_fits (x : Int32) : int32.Fits x := uint32_fits _

@[simp] theorem int64_fits (x : Int64) : int64.Fits x := uint64_fits _

@[simp] theorem bitVec_fits (n : ℕ) (x : BitVec (8 * n)) : (bitVec n).Fits x := by
  have hpow : (256 : ℕ) ^ n = 2 ^ (8 * n) := by rw [pow_mul]; norm_num
  simpa [bitVec, Codec.imap, Codec.uint, hpow] using x.isLt

end Dims.Serialize
