import Dims.Core
import Mathlib.Data.List.Lex

/-!
# Public keys

`CPubKey` keeps a 65-byte buffer whose first byte determines how much of it is
the key. Only that part is compared, hashed and written, so a key is its header
byte and the bytes the header asks for. Memory that reading a short key leaves
untouched counts as zero.
-/

namespace Dims
open ByteCodec Serialize

/-- `CPubKey::GetLen` -/
def getLen (chHeader : UInt8) : ℕ :=
  if chHeader = 2 ∨ chHeader = 3 then 33
  else if chHeader = 4 ∨ chHeader = 6 ∨ chHeader = 7 then 65
  else 0

theorem getLen_le (chHeader : UInt8) : getLen chHeader ≤ 65 := by
  unfold getLen
  split
  · decide
  · split <;> decide

structure CPubKey where
  chHeader : UInt8
  body : Bytes
  body_length : body.length = getLen chHeader - 1
  deriving DecidableEq

namespace CPubKey

/-- The key left by `Invalidate`. -/
def invalid : CPubKey := ⟨0xff, [], rfl⟩

theorem length_take_buffer (h : UInt8) (t : Bytes) :
    ((t ++ List.replicate 64 0).take (getLen h - 1)).length = getLen h - 1 := by
  have := getLen_le h
  simp only [List.length_take, List.length_append, List.length_replicate]
  omega

/-- The key in a buffer whose first bytes are `buf`. -/
def ofBuffer : Bytes → CPubKey
  | [] => invalid
  | h :: t => ⟨h, (t ++ List.replicate 64 0).take (getLen h - 1), length_take_buffer h t⟩

/-- `Set`: a byte range is a key only if its first byte announces its length. -/
def ofBytes (vch : Bytes) : CPubKey :=
  if vch.length = getLen (vch.headD 0xff) then ofBuffer vch else invalid

def size (k : CPubKey) : ℕ := getLen k.chHeader

def isValid (k : CPubKey) : Bool := 0 < k.size

/-- The range from `begin()` to `end()`. -/
def bytes (k : CPubKey) : Bytes := if k.isValid then k.chHeader :: k.body else []

def getID (H : HashFunctions) (k : CPubKey) : CKeyID := H.hash160 k.bytes

@[simp] theorem isValid_invalid : invalid.isValid = false := by decide

@[simp] theorem length_bytes (k : CPubKey) : k.bytes.length = k.size := by
  have hbody := k.body_length
  unfold bytes isValid size
  by_cases h : 0 < getLen k.chHeader
  · simp only [h, decide_true, if_true, List.length_cons]
    omega
  · simp only [h, decide_false, Bool.false_eq_true, if_false, List.length_nil]
    omega

theorem size_le (k : CPubKey) : k.size ≤ 65 := getLen_le _

theorem ofBuffer_bytes (k : CPubKey) (hk : k.isValid = true) : ofBuffer k.bytes = k := by
  obtain ⟨h, body, hbody⟩ := k
  simp only [bytes, hk, if_true, ofBuffer, mk.injEq, true_and]
  rw [← hbody, List.take_left']
  rfl

/-- A key is written like a byte vector. Reading takes at most 65 bytes into a
new object; a longer vector is skipped and leaves the key invalid. -/
def codec : Codec CPubKey where
  encode k := writeCompactSize k.size ++ k.bytes
  decode bs := (readCompactSize bs).bind fun p =>
    (takeBytes p.1 p.2).map fun q => (if p.1 ≤ 65 then ofBuffer q.1 else invalid, q.2)
  Fits k := k.isValid = true ∨ k = invalid
  decode_encode := by
    intro k rest hk
    have hmax : k.size ≤ maxSize := le_trans k.size_le (by decide)
    rw [List.append_assoc, readCompactSize_write _ hmax, Option.bind_some,
      takeBytes_append k.length_bytes, Option.map_some, if_pos k.size_le]
    rcases hk with hk | rfl
    · rw [ofBuffer_bytes k hk]
    · rfl
  decode_suffix := by
    intro bs k rest h
    obtain ⟨⟨n, mid⟩, hn, hrest⟩ := Option.bind_eq_some_iff.mp h
    obtain ⟨⟨w, tail⟩, hw, heq⟩ := Option.map_eq_some_iff.mp hrest
    obtain ⟨rfl, -⟩ := takeBytes_spec hw
    cases heq
    exact (List.suffix_append _ _).trans (compactSize.decode_suffix _ _ _ hn)

/-- The numbers that keys are ordered by. -/
def digits (k : CPubKey) : List ℕ := k.chHeader.toNat :: k.body.map UInt8.toNat

theorem digits_injective : Function.Injective digits := by
  intro a b h
  obtain ⟨header, body, _⟩ := a
  obtain ⟨header', body', _⟩ := b
  obtain ⟨hheader, hbody⟩ := List.cons_eq_cons.mp h
  have hsame : body = body' := List.map_injective_iff.mpr (fun _ _ => UInt8.toNat_inj.mp) hbody
  cases UInt8.toNat_inj.mp hheader
  cases hsame
  rfl

instance : LinearOrder CPubKey where
  le a b := a.digits ≤ b.digits
  lt a b := a.digits < b.digits
  le_refl a := le_refl a.digits
  le_trans _ _ _ := le_trans
  le_antisymm _ _ h h' := digits_injective (le_antisymm h h')
  le_total a b := le_total a.digits b.digits
  lt_iff_le_not_ge a b := lt_iff_le_not_ge (a := a.digits) (b := b.digits)
  toDecidableLE a b := inferInstanceAs (Decidable (a.digits ≤ b.digits))
  toDecidableEq := inferInstance
  toDecidableLT a b := inferInstanceAs (Decidable (a.digits < b.digits))

end CPubKey

/-- The signatures of key.cpp, computed by OpenSSL: `check` is `CECKey::Verify`
for a key that OpenSSL accepts. -/
structure SignatureScheme where
  check : CPubKey → Uint256 → Bytes → Bool

/-- `CPubKey::Verify` -/
def SignatureScheme.verify (S : SignatureScheme) (key : CPubKey) (hash : Uint256)
    (vchSig : Bytes) : Bool :=
  key.isValid && S.check key hash vchSig

end Dims
