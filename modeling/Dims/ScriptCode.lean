import Dims.Script
import Dims.TokenStream

/-!
# The operations of a script as its chunks

`GetOp` is a lexer: a script is the chunks of its operations and what is left where the
reading fails. On this rests what `FindAndDelete` takes out of a script when a signature is
checked, and what the signature hash reads of it.
-/

namespace Dims
open ByteCodec TokenStream

namespace CScript

section GetOp

theorem takeBytes_eq_some {n : ℕ} {bs w rest : Bytes} (h : takeBytes n bs = some (w, rest)) :
    bs = w ++ rest ∧ ∀ rest', takeBytes n (w ++ rest') = some (w, rest') := by
  obtain ⟨rfl, hlen⟩ := takeBytes_spec h
  exact ⟨rfl, takeBytes_append hlen⟩

theorem uint_eq_some {k n : ℕ} {bs rest : Bytes}
    (h : (Codec.uint k).decode bs = some (n, rest)) :
    ∃ w, bs = w ++ rest ∧ ∀ rest', (Codec.uint k).decode (w ++ rest') = some (n, rest') := by
  obtain ⟨⟨w, rest'⟩, hw, heq⟩ := Option.map_eq_some_iff.mp h
  cases heq
  obtain ⟨rfl, htake⟩ := takeBytes_eq_some hw
  exact ⟨w, rfl, fun rest' => by simp [Codec.uint, htake rest']⟩

theorem pushSize_eq_some {opcode : UInt8} {script rest : CScript} {n : ℕ}
    (h : pushSize opcode script = some (n, rest)) :
    ∃ w, script = w ++ rest ∧ ∀ rest', pushSize opcode (w ++ rest') = some (n, rest') := by
  simp only [pushSize] at h ⊢
  split at h
  case isTrue hop =>
    cases h
    exact ⟨[], rfl, fun rest' => by simp [hop]⟩
  case isFalse hop =>
    simp only [hop, if_false]
    split at h
    case isTrue hop1 =>
      simp only [hop1, if_true]
      exact uint_eq_some h
    case isFalse hop1 =>
      simp only [hop1, if_false]
      split at h
      case isTrue hop2 =>
        simp only [hop2, if_true]
        exact uint_eq_some h
      case isFalse hop2 =>
        simp only [hop2, if_false]
        exact uint_eq_some h

theorem getOp_eq_some {script rest : CScript} {op : UInt8 × Bytes}
    (h : getOp script = some (op, rest)) :
    ∃ chunk, chunk ≠ [] ∧ script = chunk ++ rest ∧
      ∀ rest', getOp (chunk ++ rest') = some (op, rest') := by
  cases script with
  | nil => cases h
  | cons opcode script =>
    simp only [getOp] at h
    split at h
    case isTrue hpush =>
      obtain ⟨⟨n, mid⟩, hsize, hdata⟩ := Option.bind_eq_some_iff.mp h
      obtain ⟨⟨data, rest'⟩, htake, heq⟩ := Option.map_eq_some_iff.mp hdata
      cases heq
      obtain ⟨w, rfl, hw⟩ := pushSize_eq_some hsize
      obtain ⟨rfl, hdata⟩ := takeBytes_eq_some htake
      refine ⟨opcode :: (w ++ data), by simp, by simp, fun rest' => ?_⟩
      simp only [List.cons_append, List.append_assoc, getOp, hpush, if_true, hw,
        Option.bind_some, hdata, Option.map_some]
    case isFalse hpush =>
      cases h
      exact ⟨[opcode], by simp, rfl, fun rest' => by simp [getOp, hpush]⟩

def ops : Lexer UInt8 (UInt8 × Bytes) where
  read := getOp
  chunk_of_read := getOp_eq_some

/-- The operations that are read one after another are those of the chunks. -/
theorem decodeOps_eq (script : CScript) :
    decodeOps script = ((ops.tokens script).1.map Prod.snd, (ops.tokens script).2.isEmpty) := by
  induction script using Lexer.word_induction (L := ops) with
  | tail script h =>
    rw [Lexer.tokens_of_none h]
    by_cases hne : script = []
    · subst hne
      rfl
    · rw [decodeOps_cons hne, show getOp script = none from h]
      simp [hne]
  | token chunk op rest h ih =>
    have hread : getOp (chunk ++ rest) = some (op, rest) := h.2 rest
    rw [Lexer.tokens_chunk h, decodeOps_cons (by simp [h.1]), hread]
    simp [ih]

theorem parses_iff {script : CScript} : parses script = true ↔ (ops.tokens script).2 = [] := by
  rw [parses, decodeOps_eq]
  simp

end GetOp

section Push

/-- `CScript() << vch`: the opcode and size a push of these bytes is given. -/
def pushHeader (size : ℕ) : Bytes :=
  if size < 0x4c then [UInt8.ofNat size]
  else if size ≤ 0xff then [0x4c, UInt8.ofNat size]
  else if size ≤ 0xffff then 0x4d :: leBytes 2 size
  else 0x4e :: leBytes 4 size

def push (vch : Bytes) : CScript := pushHeader vch.length ++ vch

theorem uint_decode_leBytes {k n : ℕ} (h : n < 256 ^ k) (rest : Bytes) :
    (Codec.uint k).decode (leBytes k n ++ rest) = some (n, rest) :=
  (Codec.uint k).decode_encode n rest h

theorem leBytes_one (n : ℕ) : leBytes 1 n = [UInt8.ofNat n] := rfl

/-- What is pushed is read back by `GetOp`, up to the size that four bytes count. -/
theorem getOp_push {vch : Bytes} (h : vch.length < 2 ^ 32) :
    ∃ opcode, opcode ≤ 0x4e ∧ ∀ rest, getOp (push vch ++ rest) = some ((opcode, vch), rest) := by
  have htake : ∀ rest, takeBytes vch.length (vch ++ rest) = some (vch, rest) :=
    takeBytes_append rfl
  simp only [push, pushHeader]
  split
  case isTrue h0 =>
    have hmod : vch.length % 2 ^ 8 = vch.length := by omega
    have hlt : UInt8.ofNat vch.length < 0x4c := by
      simp only [UInt8.lt_iff_toNat_lt, UInt8.toNat_ofNat', hmod, UInt8.reduceToNat]
      omega
    have hle : UInt8.ofNat vch.length ≤ 0x4e := by
      simp only [UInt8.le_iff_toNat_le, UInt8.toNat_ofNat', hmod, UInt8.reduceToNat]
      omega
    refine ⟨_, hle, fun rest => ?_⟩
    simp only [List.cons_append, List.nil_append, getOp, hle, if_true, pushSize, hlt,
      Option.bind_some, UInt8.toNat_ofNat', hmod, htake, Option.map_some]
  case isFalse h0 =>
    split
    case isTrue h1 =>
      refine ⟨0x4c, by decide, fun rest => ?_⟩
      have hsize := uint_decode_leBytes (k := 1) (n := vch.length) (by omega) (vch ++ rest)
      simp only [leBytes_one, List.cons_append, List.nil_append] at hsize
      simp only [List.cons_append, List.nil_append, getOp]
      simp [pushSize, hsize, htake]
    case isFalse h1 =>
      split
      case isTrue h2 =>
        refine ⟨0x4d, by decide, fun rest => ?_⟩
        have hsize := uint_decode_leBytes (k := 2) (n := vch.length) (by omega) (vch ++ rest)
        simp only [List.append_assoc, List.cons_append, getOp]
        simp [pushSize, hsize, htake]
      case isFalse h2 =>
        refine ⟨0x4e, by decide, fun rest => ?_⟩
        have hsize := uint_decode_leBytes (k := 4) (n := vch.length) (by omega) (vch ++ rest)
        simp only [List.append_assoc, List.cons_append, getOp]
        simp [pushSize, hsize, htake]

theorem pushHeader_ne_nil (size : ℕ) : pushHeader size ≠ [] := by
  simp only [pushHeader]
  split
  · simp
  · split
    · simp
    · split <;> simp

theorem isChunk_push {vch : Bytes} (h : vch.length < 2 ^ 32) :
    ∃ op, ops.IsChunk (push vch) op ∧ op.1 ≤ 0x4e ∧ op.2 = vch := by
  obtain ⟨opcode, hle, hread⟩ := getOp_push h
  exact ⟨(opcode, vch), ⟨by simp [push, pushHeader_ne_nil], hread⟩, hle, rfl⟩

end Push

section FindAndDelete

/-- `FindAndDelete(CScript(vch))`: the script without the pushes of these bytes. -/
def findAndDelete (script vch : CScript) : CScript := ops.delete (push vch) script

/-- Where a script with a signature pushed into it goes, only that push goes: all other
operations of the script, and what is left where it breaks off, stay as they are. -/
theorem tokens_findAndDelete {vch : Bytes} (h : vch.length < 2 ^ 32) (script : CScript) :
    ops.tokens (script.findAndDelete vch) =
      ((ops.tokens script).1.filter (·.1 ≠ push vch), (ops.tokens script).2) := by
  obtain ⟨op, hop, -⟩ := isChunk_push h
  exact Lexer.tokens_delete hop script

/-- The push in front goes. The same bytes inside the data of the other push stay. -/
theorem tokens_findAndDelete_nested :
    ops.tokens (findAndDelete [1, 9, 2, 1, 9, 0xac] [9]) =
      ((ops.tokens [1, 9, 2, 1, 9, 0xac]).1.filter (·.1 ≠ push [9]),
        (ops.tokens [1, 9, 2, 1, 9, 0xac]).2) :=
  tokens_findAndDelete (by decide) [1, 9, 2, 1, 9, 0xac]

end FindAndDelete

end CScript

end Dims
