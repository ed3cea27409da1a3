import Dims.ScriptCode
import Dims.Core

/-!
# What a signature signs

`SignatureHash` of script.cpp: a transaction with the modifications that the hash type
asks for, as `CTransactionSignatureSerializer` writes it. An `int` is kept as its 32 bits.
The bytes are those of a transaction, the masked one, followed by the hash type, so that
a signature commits to what the mask leaves and to nothing else.
-/

namespace Dims
open ByteCodec Serialize TokenStream

/-- `SIGHASH_ANYONECANPAY` -/
def fAnyoneCanPay (nHashType : UInt32) : Bool := nHashType &&& 0x80 ≠ 0

/-- `SIGHASH_SINGLE` -/
def fHashSingle (nHashType : UInt32) : Bool := nHashType &&& 0x1f = 3

/-- `SIGHASH_NONE` -/
def fHashNone (nHashType : UInt32) : Bool := nHashType &&& 0x1f = 2

namespace CScript

/-- How far a call of `GetOp` that fails moves: behind the opcode and a size it could read. -/
def failedOp : CScript → CScript
  | [] => []
  | opcode :: script =>
    match pushSize opcode script with
    | none => script
    | some (_, rest) => rest

/-- The bytes that the loop of `SerializeScriptCode` walks over, without the
`OP_CODESEPARATOR`s. -/
def codeBytesFuel : ℕ → CScript → Bytes
  | 0, _ => []
  | fuel + 1, script =>
    match getOp script with
    | none => Lexer.stepped script (failedOp script)
    | some (op, rest) =>
      (if op.1 = 0xab then [] else Lexer.stepped script rest) ++ codeBytesFuel fuel rest

/-- `SerializeScriptCode` -/
def serializeScriptCode (script : CScript) : Bytes :=
  writeCompactSize (script.length - (decodeOps script).1.countP (·.1 = 0xab)) ++
    codeBytesFuel script.length script

/-- The script without its `OP_CODESEPARATOR`s. -/
def withoutSeparators (script : CScript) : CScript :=
  Lexer.join ((ops.tokens script).1.filter (·.2.1 ≠ 0xab)) (ops.tokens script).2

end CScript

namespace SignatureSerializer

variable (scriptCode : CScript) (tx : CTransaction) (nIn : ℕ) (nHashType : UInt32)

def serializeInput (nInput : ℕ) : Bytes :=
  let nInput := if fAnyoneCanPay nHashType then nIn else nInput
  match tx.vin[nInput]? with
  | none => []
  | some txIn =>
    COutPoint.codec.encode txIn.prevout ++
      ((if nInput ≠ nIn then byteVector.encode [] else scriptCode.serializeScriptCode) ++
        (if nInput ≠ nIn ∧ (fHashSingle nHashType ∨ fHashNone nHashType) then uint32.encode 0
          else uint32.encode txIn.nSequence))

def serializeOutput (nOutput : ℕ) : Bytes :=
  if fHashSingle nHashType ∧ nOutput ≠ nIn then CTxOut.codec.encode CTxOut.null
  else match tx.vout[nOutput]? with
    | none => []
    | some txOut => CTxOut.codec.encode txOut

/-- `CTransactionSignatureSerializer::Serialize` -/
def serialize : Bytes :=
  let nInputs := if fAnyoneCanPay nHashType then 1 else tx.vin.length
  let nOutputs :=
    if fHashNone nHashType then 0 else if fHashSingle nHashType then nIn + 1 else tx.vout.length
  int32.encode tx.nVersion ++
    ((writeCompactSize nInputs ++
        (List.range nInputs).flatMap (serializeInput scriptCode tx nIn nHashType)) ++
      ((writeCompactSize nOutputs ++
          (List.range nOutputs).flatMap (serializeOutput tx nIn nHashType)) ++
        uint32.encode tx.nLockTime))

end SignatureSerializer

section Hash

variable (scriptCode : CScript) (tx : CTransaction) (nIn : ℕ) (nHashType : UInt32)

/-- The input is there, and the output that `SIGHASH_SINGLE` signs. -/
def Signable : Prop :=
  nIn < tx.vin.length ∧ (fHashSingle nHashType → nIn < tx.vout.length)

instance : Decidable (Signable tx nIn nHashType) := by
  unfold Signable
  infer_instance

def signatureBytes : Bytes :=
  SignatureSerializer.serialize scriptCode tx nIn nHashType ++ uint32.encode nHashType

/-- `SignatureHash`; the hash is 1 where there is nothing to sign. -/
def signatureHash (H : HashFunctions) : Uint256 :=
  if Signable tx nIn nHashType then H.hash (signatureBytes scriptCode tx nIn nHashType) else 1

end Hash

section Mask

variable (scriptCode : CScript) (tx : CTransaction) (nIn : ℕ) (nHashType : UInt32)

/-- What a signature commits to of the input at a position. -/
def maskedInput (nInput : ℕ) (txIn : CTxIn) : CTxIn :=
  if nInput = nIn then { txIn with scriptSig := scriptCode.withoutSeparators }
  else
    { txIn with
      scriptSig := []
      nSequence := if fHashSingle nHashType ∨ fHashNone nHashType then 0 else txIn.nSequence }

/-- What it commits to of the output at a position. -/
def maskedOutput (nOutput : ℕ) (txOut : CTxOut) : CTxOut :=
  if fHashSingle nHashType ∧ nOutput ≠ nIn then CTxOut.null else txOut

def maskedInputs : List CTxIn :=
  if fAnyoneCanPay nHashType then tx.vin[nIn]?.toList.map (maskedInput scriptCode nIn nHashType nIn)
  else tx.vin.mapIdx (maskedInput scriptCode nIn nHashType)

def maskedOutputs : List CTxOut :=
  if fHashNone nHashType then []
  else
    (if fHashSingle nHashType then tx.vout.take (nIn + 1) else tx.vout).mapIdx
      (maskedOutput nIn nHashType)

/-- The transaction as the signature of one of its inputs sees it. -/
def maskedTransaction : CTransaction :=
  ⟨tx.nVersion, maskedInputs scriptCode tx nIn nHashType, maskedOutputs tx nIn nHashType,
    tx.nLockTime, 0⟩

end Mask

section ScriptCode
open CScript

theorem getOp_of_lt {opcode : UInt8} (h : ¬ opcode ≤ 0x4e) (script : CScript) :
    getOp (opcode :: script) = some ((opcode, []), script) := by
  simp [getOp, h]

theorem opcode_of_getOp {opcode : UInt8} {script rest : CScript} {op : UInt8 × Bytes}
    (h : getOp (opcode :: script) = some (op, rest)) : op.1 = opcode := by
  simp only [getOp] at h
  split at h
  · obtain ⟨p, -, hdata⟩ := Option.bind_eq_some_iff.mp h
    obtain ⟨q, -, heq⟩ := Option.map_eq_some_iff.mp hdata
    cases heq
    rfl
  · cases h
    rfl

theorem chunk_of_lt {chunk : CScript} {op : UInt8 × Bytes} (h : ops.IsChunk chunk op)
    (hop : ¬ op.1 ≤ 0x4e) : chunk = [op.1] := by
  obtain ⟨hne, hread⟩ := h
  cases chunk with
  | nil => exact absurd rfl hne
  | cons opcode chunk =>
    have hfirst : getOp (opcode :: chunk) = some (op, []) := by simpa [ops] using hread []
    have hopcode := opcode_of_getOp hfirst
    rw [getOp_of_lt (hopcode ▸ hop)] at hfirst
    cases hfirst
    rfl

theorem codeBytesFuel_eq (fuel : ℕ) (script : CScript) (h : script.length ≤ fuel) :
    codeBytesFuel fuel script =
      Lexer.join ((ops.tokens script).1.filter (·.2.1 ≠ 0xab))
        (Lexer.stepped (ops.tokens script).2 (failedOp (ops.tokens script).2)) := by
  induction script using Lexer.word_induction (L := ops) generalizing fuel with
  | tail script hread =>
    rw [Lexer.tokens_of_none hread]
    cases fuel with
    | zero =>
      obtain rfl : script = [] := by simpa using h
      rfl
    | succ fuel => simp [codeBytesFuel, show getOp script = none from hread]
  | token chunk op rest hchunk ih =>
    have hpos := List.length_pos_iff.mpr hchunk.1
    have hread : getOp (chunk ++ rest) = some (op, rest) := hchunk.2 rest
    simp only [List.length_append] at h
    cases fuel with
    | zero => omega
    | succ fuel =>
      rw [Lexer.tokens_chunk hchunk, codeBytesFuel, hread]
      simp only [ih fuel (by omega), Lexer.stepped_append]
      by_cases hop : op.1 = 0xab <;> simp [hop]

theorem length_withoutSeparators (script : CScript) :
    script.withoutSeparators.length + (decodeOps script).1.countP (·.1 = 0xab) =
      script.length := by
  induction script using Lexer.word_induction (L := ops) with
  | tail script hread =>
    rw [decodeOps_eq, withoutSeparators, Lexer.tokens_of_none hread]
    simp
  | token chunk op rest hchunk ih =>
    rw [decodeOps_eq, withoutSeparators] at ih ⊢
    rw [Lexer.tokens_chunk hchunk]
    by_cases hop : op.1 = 0xab
    · have hlen : chunk.length = 1 := by
        rw [chunk_of_lt hchunk (by rw [hop]; decide)]
        rfl
      simp only [hop, ne_eq, not_true_eq_false, decide_false, Bool.false_eq_true,
        not_false_eq_true, List.filter_cons_of_neg, List.map_cons, decide_true,
        List.countP_cons_of_pos, List.length_append, hlen] at ih ⊢
      omega
    · simp only [hop, ne_eq, not_false_eq_true, decide_true, List.filter_cons_of_pos,
        Lexer.join_cons, List.map_cons, decide_false, Bool.false_eq_true,
        List.countP_cons_of_neg, List.length_append] at ih ⊢
      omega

/-- What is written of a script that can be read to its end is the script without its
separators. -/
theorem serializeScriptCode_eq {script : CScript} (h : script.parses = true) :
    serializeScriptCode script = byteVector.encode script.withoutSeparators := by
  have hlen := length_withoutSeparators script
  have hsub : script.length - (decodeOps script).1.countP (·.1 = 0xab) =
      script.withoutSeparators.length := by omega
  rw [serializeScriptCode, hsub, codeBytesFuel_eq _ _ (Nat.le_refl _), parses_iff.mp h,
    withoutSeparators, parses_iff.mp h]
  rfl

end ScriptCode

section Serialize

theorem flatMap_range {α β : Type*} (c : α → List β) (xs : List α) (f : ℕ → List β)
    (g : ℕ → α → α) (h : ∀ n x, xs[n]? = some x → f n = c (g n x)) :
    (List.range xs.length).flatMap f = (xs.mapIdx g).flatMap c := by
  induction xs generalizing f g with
  | nil => rfl
  | cons x xs ih =>
    have hrest := ih (fun n => f (n + 1)) (fun n => g (n + 1)) fun n y hy => h (n + 1) y hy
    rw [List.length_cons, List.range_succ_eq_map, List.flatMap_cons, List.flatMap_map,
      List.mapIdx_cons, List.flatMap_cons, h 0 x rfl]
    exact congrArg _ hrest

variable {scriptCode : CScript} {tx : CTransaction} {nIn : ℕ} {nHashType : UInt32}

theorem encode_maskedInput (hcode : scriptCode.parses = true) (nInput : ℕ) (txIn : CTxIn) :
    CTxIn.codec.encode (maskedInput scriptCode nIn nHashType nInput txIn) =
      COutPoint.codec.encode txIn.prevout ++
        ((if nInput ≠ nIn then byteVector.encode [] else scriptCode.serializeScriptCode) ++
          (if nInput ≠ nIn ∧ (fHashSingle nHashType ∨ fHashNone nHashType) then uint32.encode 0
            else uint32.encode txIn.nSequence)) := by
  rw [serializeScriptCode_eq hcode, maskedInput]
  by_cases hin : nInput = nIn
  · simp only [hin, if_true, ne_eq, not_true_eq_false, if_false, false_and]
    rfl
  · simp only [hin, if_false, ne_eq, not_false_eq_true, if_true, true_and]
    split <;> rfl

theorem serializeInputs_eq (hcode : scriptCode.parses = true) (hin : nIn < tx.vin.length) :
    (List.range (if fAnyoneCanPay nHashType then 1 else tx.vin.length)).flatMap
        (SignatureSerializer.serializeInput scriptCode tx nIn nHashType) =
      (maskedInputs scriptCode tx nIn nHashType).flatMap CTxIn.codec.encode := by
  by_cases hany : fAnyoneCanPay nHashType = true
  · simp [hany, maskedInputs, SignatureSerializer.serializeInput, encode_maskedInput hcode,
      List.getElem?_eq_getElem hin]
  · simp only [hany, Bool.false_eq_true, if_false, maskedInputs]
    apply flatMap_range
    intro n txIn htxIn
    simp only [SignatureSerializer.serializeInput, hany, Bool.false_eq_true, if_false, htxIn,
      encode_maskedInput hcode]

theorem length_maskedInputs (hin : nIn < tx.vin.length) :
    (maskedInputs scriptCode tx nIn nHashType).length =
      if fAnyoneCanPay nHashType then 1 else tx.vin.length := by
  rw [maskedInputs]
  split <;> simp [List.getElem?_eq_getElem hin]

theorem serializeOutputs_eq (hout : fHashSingle nHashType → nIn < tx.vout.length) :
    (List.range (if fHashNone nHashType then 0 else if fHashSingle nHashType then nIn + 1
        else tx.vout.length)).flatMap (SignatureSerializer.serializeOutput tx nIn nHashType) =
      (maskedOutputs tx nIn nHashType).flatMap CTxOut.codec.encode := by
  by_cases hnone : fHashNone nHashType = true
  · simp [hnone, maskedOutputs]
  · by_cases hsingle : fHashSingle nHashType = true
    · have hlen : (tx.vout.take (nIn + 1)).length = nIn + 1 := by
        have := hout hsingle
        simp only [List.length_take]
        omega
      simp only [hnone, Bool.false_eq_true, if_false, hsingle, if_true, maskedOutputs]
      nth_rewrite 1 [← hlen]
      apply flatMap_range
      intro n txOut htxOut
      have hat : tx.vout[n]? = some txOut := by
        rw [List.getElem?_take] at htxOut
        split at htxOut
        · exact htxOut
        · cases htxOut
      simp only [SignatureSerializer.serializeOutput, hsingle, true_and, hat, maskedOutput]
      split <;> rfl
    · simp only [hnone, Bool.false_eq_true, if_false, hsingle, maskedOutputs]
      apply flatMap_range
      intro n txOut htxOut
      simp [SignatureSerializer.serializeOutput, hsingle, htxOut, maskedOutput]

theorem length_maskedOutputs (hout : fHashSingle nHashType → nIn < tx.vout.length) :
    (maskedOutputs tx nIn nHashType).length =
      if fHashNone nHashType then 0 else if fHashSingle nHashType then nIn + 1
        else tx.vout.length := by
  rw [maskedOutputs]
  split
  · rfl
  · split
    case isTrue hsingle =>
      have := hout hsingle
      simp only [List.length_mapIdx, List.length_take]
      omega
    case isFalse => simp

/-- The serializer writes the masked transaction. -/
theorem serialize_eq (hcode : scriptCode.parses = true) (h : Signable tx nIn nHashType) :
    SignatureSerializer.serialize scriptCode tx nIn nHashType =
      CTransaction.contentsCodec.encode (maskedTransaction scriptCode tx nIn nHashType).contents := by
  have hvin : (maskedInputs scriptCode tx nIn nHashType).length =
      if fAnyoneCanPay nHashType then 1 else tx.vin.length := length_maskedInputs h.1
  rw [SignatureSerializer.serialize, serializeInputs_eq hcode h.1, serializeOutputs_eq h.2,
    ← hvin, ← length_maskedOutputs h.2]
  rfl

end Serialize

section Commitment

variable {scriptCode scriptCode' : CScript} {tx tx' : CTransaction} {nIn nIn' : ℕ}
  {nHashType nHashType' : UInt32}

theorem fits_vector {α : Type*} {c : Codec α} {xs : List α} (hlen : xs.length ≤ maxSize)
    (h : ∀ x ∈ xs, c.Fits x) : (vector c).Fits xs := ⟨hlen, h⟩

theorem length_withoutSeparators_le (script : CScript) :
    script.withoutSeparators.length ≤ script.length := by
  have := length_withoutSeparators script
  omega

theorem fits_maskedInput (hcode : scriptCode.length ≤ maxSize) (nInput : ℕ) (txIn : CTxIn) :
    CTxIn.codec.Fits (maskedInput scriptCode nIn nHashType nInput txIn) := by
  have hle := length_withoutSeparators_le scriptCode
  have hscript : byteVector.Fits (maskedInput scriptCode nIn nHashType nInput txIn).scriptSig := by
    rw [maskedInput]
    split
    · exact byteVector_fits (le_trans hle hcode)
    · exact byteVector_fits (by simp)
  exact ⟨⟨uint256_fits _, uint32_fits _⟩, hscript, uint32_fits _⟩

theorem fits_maskedOutput {nOutput : ℕ} {txOut : CTxOut} (h : CTxOut.codec.Fits txOut) :
    CTxOut.codec.Fits (maskedOutput nIn nHashType nOutput txOut) := by
  rw [maskedOutput]
  split
  · exact ⟨int64_fits _, byteVector_fits (by simp [CTxOut.null])⟩
  · exact h

theorem fits_maskedTransaction (hcode : scriptCode.length ≤ maxSize)
    (htx : CTransaction.contentsCodec.Fits tx.contents) :
    CTransaction.contentsCodec.Fits
      (maskedTransaction scriptCode tx nIn nHashType).contents := by
  have hvin : tx.vin.length ≤ maxSize := htx.2.1.1
  have hvout : tx.vout.length ≤ maxSize := htx.2.2.1.1
  have houts : ∀ txOut ∈ tx.vout, CTxOut.codec.Fits txOut := htx.2.2.1.2
  refine ⟨int32_fits _, fits_vector ?_ ?_, fits_vector ?_ ?_, uint32_fits _⟩
  · change (maskedInputs scriptCode tx nIn nHashType).length ≤ maxSize
    rw [maskedInputs]
    split
    · have hone : tx.vin[nIn]?.toList.length ≤ 1 := by cases tx.vin[nIn]? <;> simp
      have : 1 ≤ maxSize := by decide
      simp only [List.length_map]
      omega
    · simpa using hvin
  · change ∀ x ∈ maskedInputs scriptCode tx nIn nHashType, CTxIn.codec.Fits x
    intro x hx
    rw [maskedInputs] at hx
    split at hx
    · obtain ⟨txIn, -, rfl⟩ := List.mem_map.mp hx
      exact fits_maskedInput hcode _ _
    · obtain ⟨n, hn, rfl⟩ := List.mem_mapIdx.mp hx
      exact fits_maskedInput hcode _ _
  · change (maskedOutputs tx nIn nHashType).length ≤ maxSize
    rw [maskedOutputs]
    split
    · simp
    · split
      · simp only [List.length_mapIdx, List.length_take]
        exact le_trans (Nat.min_le_right _ _) hvout
      · simpa using hvout
  · change ∀ x ∈ maskedOutputs tx nIn nHashType, CTxOut.codec.Fits x
    intro x hx
    rw [maskedOutputs] at hx
    split at hx
    · simp at hx
    · obtain ⟨n, hn, rfl⟩ := List.mem_mapIdx.mp hx
      apply fits_maskedOutput
      apply houts
      split
      · exact List.mem_of_mem_take (List.getElem_mem _)
      · exact List.getElem_mem _

/-- What a signature commits to. The bytes that are hashed for an input of one transaction
and for an input of another agree exactly if the masked transactions have the same contents
and the hash types are the same. -/
theorem signatureBytes_eq_iff (hcode : scriptCode.parses = true)
    (hcode' : scriptCode'.parses = true) (hlen : scriptCode.length ≤ maxSize)
    (hlen' : scriptCode'.length ≤ maxSize) (h : Signable tx nIn nHashType)
    (h' : Signable tx' nIn' nHashType') (hfits : CTransaction.contentsCodec.Fits tx.contents)
    (hfits' : CTransaction.contentsCodec.Fits tx'.contents) :
    signatureBytes scriptCode tx nIn nHashType = signatureBytes scriptCode' tx' nIn' nHashType' ↔
      (maskedTransaction scriptCode tx nIn nHashType).contents =
          (maskedTransaction scriptCode' tx' nIn' nHashType').contents ∧
        nHashType = nHashType' := by
  simp only [signatureBytes, serialize_eq hcode h, serialize_eq hcode' h']
  constructor
  · intro heq
    have hpair := (CTransaction.contentsCodec.prod uint32).encode_injective
      (a := (_, nHashType)) (b := (_, nHashType'))
      ⟨fits_maskedTransaction hlen hfits, uint32_fits _⟩
      ⟨fits_maskedTransaction hlen' hfits', uint32_fits _⟩ heq
    exact Prod.mk.inj hpair
  · rintro ⟨hcontents, rfl⟩
    rw [hcontents]

theorem fits_contents {tx : CTransaction} (hvin : tx.vin.length ≤ maxSize)
    (hscriptSig : ∀ txIn ∈ tx.vin, txIn.scriptSig.length ≤ maxSize)
    (hvout : tx.vout.length ≤ maxSize)
    (hscriptPubKey : ∀ txOut ∈ tx.vout, txOut.scriptPubKey.length ≤ maxSize) :
    CTransaction.contentsCodec.Fits tx.contents := by
  refine ⟨int32_fits _, fits_vector hvin ?_, fits_vector hvout ?_, uint32_fits _⟩
  · intro txIn hin
    exact ⟨⟨uint256_fits _, uint32_fits _⟩, byteVector_fits (hscriptSig txIn hin), uint32_fits _⟩
  · intro txOut hout
    exact ⟨int64_fits _, byteVector_fits (hscriptPubKey txOut hout)⟩

/-- With `SIGHASH_SINGLE` another output may be added behind the one that is signed. -/
theorem signatureBytes_single :
    signatureBytes [0xac] ⟨1, [⟨⟨7, 0⟩, [], 0⟩], [⟨5, []⟩], 0, 0⟩ 0 3 =
      signatureBytes [0xac] ⟨1, [⟨⟨7, 0⟩, [], 0⟩], [⟨5, []⟩, ⟨6, []⟩], 0, 0⟩ 0 3 := by
  apply (signatureBytes_eq_iff (by decide) (by decide) (by decide) (by decide) (by decide)
    (by decide) (fits_contents _ _ _ _) (fits_contents _ _ _ _)).mpr
  all_goals decide

end Commitment

section Scripts

/-- The transactions differ in the scripts of their inputs at most. -/
structure SameButScripts (tx tx' : CTransaction) : Prop where
  nVersion : tx.nVersion = tx'.nVersion
  vin : tx.vin.map (fun txIn => (txIn.prevout, txIn.nSequence)) =
    tx'.vin.map fun txIn => (txIn.prevout, txIn.nSequence)
  vout : tx.vout = tx'.vout
  nLockTime : tx.nLockTime = tx'.nLockTime

namespace SameButScripts

variable {tx tx' tx'' : CTransaction}

theorem refl (tx : CTransaction) : SameButScripts tx tx := ⟨rfl, rfl, rfl, rfl⟩

theorem trans (h : SameButScripts tx tx') (h' : SameButScripts tx' tx'') :
    SameButScripts tx tx'' :=
  ⟨h.nVersion.trans h'.nVersion, h.vin.trans h'.vin, h.vout.trans h'.vout,
    h.nLockTime.trans h'.nLockTime⟩

theorem symm (h : SameButScripts tx tx') : SameButScripts tx' tx :=
  ⟨h.nVersion.symm, h.vin.symm, h.vout.symm, h.nLockTime.symm⟩

theorem length_vin (h : SameButScripts tx tx') : tx.vin.length = tx'.vin.length := by
  simpa using congrArg List.length h.vin

theorem setScript (tx : CTransaction) (nIn : ℕ) (scriptSig : CScript) :
    SameButScripts tx
      { tx with vin := tx.vin.modify nIn fun txIn => { txIn with scriptSig := scriptSig } } := by
  refine ⟨rfl, ?_, rfl, rfl⟩
  apply List.ext_getElem?
  intro n
  simp only [List.getElem?_map, List.getElem?_modify]
  split
  · cases tx.vin[n]? <;> rfl
  · cases tx.vin[n]? <;> rfl

theorem serializeInput_eq (h : SameButScripts tx tx') (scriptCode : CScript) (nIn : ℕ)
    (nHashType : UInt32) :
    SignatureSerializer.serializeInput scriptCode tx nIn nHashType =
      SignatureSerializer.serializeInput scriptCode tx' nIn nHashType := by
  funext nInput
  have hat : ∀ k : ℕ, tx.vin[k]?.map (fun txIn => (txIn.prevout, txIn.nSequence)) =
      tx'.vin[k]?.map fun txIn => (txIn.prevout, txIn.nSequence) := by
    intro k
    rw [← List.getElem?_map, ← List.getElem?_map, h.vin]
  have hsame := hat (if fAnyoneCanPay nHashType then nIn else nInput)
  simp only [SignatureSerializer.serializeInput]
  generalize (if fAnyoneCanPay nHashType then nIn else nInput) = k at hsame ⊢
  cases hin : tx.vin[k]? with
  | none =>
    cases hin' : tx'.vin[k]? with
    | none => rfl
    | some txIn' => simp [hin, hin'] at hsame
  | some txIn =>
    cases hin' : tx'.vin[k]? with
    | none => simp [hin, hin'] at hsame
    | some txIn' =>
      simp only [hin, hin', Option.map_some, Option.some.injEq, Prod.mk.injEq] at hsame
      simp only [hsame]

end SameButScripts

theorem signatureHash_congr {tx tx' : CTransaction} (h : SameButScripts tx tx')
    (scriptCode : CScript) (nIn : ℕ) (nHashType : UInt32) (H : HashFunctions) :
    signatureHash scriptCode tx nIn nHashType H = signatureHash scriptCode tx' nIn nHashType H := by
  have houtput : SignatureSerializer.serializeOutput tx nIn nHashType =
      SignatureSerializer.serializeOutput tx' nIn nHashType := by
    funext nOutput
    simp only [SignatureSerializer.serializeOutput, h.vout]
  have hbytes : signatureBytes scriptCode tx nIn nHashType =
      signatureBytes scriptCode tx' nIn nHashType := by
    simp only [signatureBytes, SignatureSerializer.serialize, h.nVersion, h.nLockTime, h.length_vin,
      h.vout, h.serializeInput_eq, houtput]
  simp only [signatureHash, Signable, hbytes, h.length_vin, h.vout]

end Scripts

end Dims
