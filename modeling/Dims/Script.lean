import Dims.Key

/-!
# Scripts

The part of script.cpp that the ledger reads: the operations of a script, the
standard templates recognized by `Solver`, and the keys that inputs and outputs
name. What the ledger asks of the execution of scripts is `ScriptVerifier`.
-/

namespace Dims
open ByteCodec

namespace CScript

/-- The number of bytes an opcode up to `OP_PUSHDATA4` pushes, and the rest. -/
def pushSize (opcode : UInt8) : Reader ℕ := fun script =>
  if opcode < 0x4c then some (opcode.toNat, script)
  else if opcode = 0x4c then (Codec.uint 1).decode script
  else if opcode = 0x4d then (Codec.uint 2).decode script
  else (Codec.uint 4).decode script

/-- `GetOp`: the opcode and its data. -/
def getOp : Reader (UInt8 × Bytes)
  | [] => none
  | opcode :: script =>
    if opcode ≤ 0x4e then
      (pushSize opcode script).bind fun p =>
        (takeBytes p.1 p.2).map fun q => ((opcode, q.1), q.2)
    else some ((opcode, []), script)

theorem pushSize_suffix {opcode : UInt8} {script : CScript} {n : ℕ} {rest : CScript}
    (h : pushSize opcode script = some (n, rest)) : rest <:+ script := by
  simp only [pushSize] at h
  split at h
  · cases h
    exact List.suffix_rfl
  · split at h
    · exact (Codec.uint 1).decode_suffix _ _ _ h
    · split at h
      · exact (Codec.uint 2).decode_suffix _ _ _ h
      · exact (Codec.uint 4).decode_suffix _ _ _ h

theorem getOp_length {script : CScript} {op : UInt8 × Bytes} {rest : CScript}
    (h : getOp script = some (op, rest)) : rest.length < script.length := by
  cases script with
  | nil => cases h
  | cons opcode tail =>
    simp only [getOp] at h
    split at h
    · rcases Option.bind_eq_some_iff.mp h with ⟨⟨n, mid⟩, hsize, hdata⟩
      rcases Option.map_eq_some_iff.mp hdata with ⟨⟨data, rest'⟩, htake, heq⟩
      have hmid : mid = data ++ rest' := (takeBytes_spec htake).1
      cases heq
      have hle : mid.length ≤ tail.length := (pushSize_suffix hsize).length_le
      simp only [hmid, List.length_append, List.length_cons] at hle ⊢
      omega
    · cases h
      simp

/-- The operations that at most `fuel` calls of `GetOp` yield, and whether they
reach the end of the script. -/
def decodeOpsFuel : ℕ → CScript → List (UInt8 × Bytes) × Bool
  | 0, script => ([], script.isEmpty)
  | fuel + 1, script =>
    if script = [] then ([], true)
    else match getOp script with
      | none => ([], false)
      | some (op, rest) =>
        let ops := decodeOpsFuel fuel rest
        (op :: ops.1, ops.2)

/-- The operations of a script up to its end or to the first that is cut off. -/
def decodeOps (script : CScript) : List (UInt8 × Bytes) × Bool :=
  decodeOpsFuel script.length script

theorem decodeOpsFuel_eq (fuel : ℕ) (script : CScript) (h : script.length ≤ fuel) :
    decodeOpsFuel fuel script = decodeOps script := by
  induction fuel using Nat.strong_induction_on generalizing script with
  | _ fuel ih =>
    cases script with
    | nil => cases fuel <;> rfl
    | cons b tail =>
      cases fuel with
      | zero => simp at h
      | succ fuel =>
        simp only [decodeOps, List.length_cons, decodeOpsFuel, reduceCtorEq, if_false]
        cases hop : getOp (b :: tail) with
        | none => rfl
        | some p =>
          have hlt := getOp_length hop
          simp only [List.length_cons] at hlt h
          simp only [ih fuel (by omega) p.2 (by omega)]
          by_cases hfuel : tail.length < fuel + 1
          · simp only [ih tail.length hfuel p.2 (by omega)]
          · omega

theorem decodeOps_cons {script : CScript} (hne : script ≠ []) :
    decodeOps script = match getOp script with
      | none => ([], false)
      | some (op, rest) => (op :: (decodeOps rest).1, (decodeOps rest).2) := by
  cases script with
  | nil => exact absurd rfl hne
  | cons b tail =>
    simp only [decodeOps, List.length_cons, decodeOpsFuel, reduceCtorEq, if_false]
    cases hop : getOp (b :: tail) with
    | none => rfl
    | some p =>
      have hlt := getOp_length hop
      simp only [List.length_cons] at hlt
      simp only [decodeOpsFuel_eq tail.length p.2 (by omega), decodeOps]

def parses (script : CScript) : Bool := (decodeOps script).2

@[simp] theorem parses_nil : parses [] = true := rfl

def isUnspendable (script : CScript) : Bool := script.head? = some 0x6a

def isPayToScriptHash (script : CScript) : Bool :=
  script.length = 23 ∧ script[0]? = some 0xa9 ∧ script[1]? = some 0x14 ∧ script[22]? = some 0x87

end CScript

inductive TxnOutType
  | nonstandard | pubkey | pubkeyhash | scripthash | multisig | nullData
  deriving DecidableEq, Repr

namespace Solver
open CScript

/-- The templates in the order in which they are scanned. -/
def templates : List (TxnOutType × List UInt8) :=
  [(.pubkey, [0xfe, 0xac]), (.pubkeyhash, [0x76, 0xa9, 0xfd, 0x88, 0xac]),
    (.multisig, [0xfa, 0xfb, 0xfa, 0xae]), (.nullData, [0x6a, 0xf9]), (.nullData, [0x6a])]

/-- The solutions after comparing an operation with a template opcode other than
`OP_PUBKEYS`. -/
def matchOp (opcode2 : UInt8) (op : UInt8 × Bytes) (solutions : List Bytes) :
    Option (List Bytes) :=
  if opcode2 = 0xfe then
    if 33 ≤ op.2.length ∧ op.2.length ≤ 120 then some (solutions ++ [op.2]) else none
  else if opcode2 = 0xfd then
    if op.2.length = 20 then some (solutions ++ [op.2]) else none
  else if opcode2 = 0xfa then
    if op.1 = 0 then some (solutions ++ [[0]])
    else if 0x51 ≤ op.1 ∧ op.1 ≤ 0x60 then some (solutions ++ [[op.1 - 0x50]])
    else none
  else if opcode2 = 0xf9 then
    if op.2.length ≤ 80 then some solutions else none
  else if op.1 = opcode2 ∧ op.2 = [] then some solutions
  else none

/-- The public keys taken by `OP_PUBKEYS`, then the first operation that is not
one (`OP_INVALIDOPCODE` where the script ends) and what follows it. -/
def takePubKeys (op : UInt8 × Bytes) (script : CScript) (solutions : List Bytes) :
    (UInt8 × Bytes) × CScript × List Bytes :=
  if 33 ≤ op.2.length ∧ op.2.length ≤ 120 then
    match _h : getOp script with
    | none => ((0xff, []), script, solutions ++ [op.2])
    | some (op', rest) => takePubKeys op' rest (solutions ++ [op.2])
  else (op, script, solutions)
termination_by script.length
decreasing_by exact getOp_length _h

def matchTemplate : List UInt8 → CScript → List Bytes → Option (List Bytes)
  | [], script, solutions => if script = [] then some solutions else none
  | opcode2 :: template, script, solutions =>
    (getOp script).bind fun p =>
      if opcode2 = 0xfb then
        let taken := takePubKeys p.1 p.2 solutions
        match template with
        | [] => none
        | opcode2' :: template' =>
          (matchOp opcode2' taken.1 taken.2.2).bind (matchTemplate template' taken.2.1)
      else (matchOp opcode2 p.1 solutions).bind (matchTemplate template p.2)

/-- The additional checks for `TX_MULTISIG`. -/
def multisigOk (solutions : List Bytes) : Bool :=
  let m := (solutions.headD []).headD 0
  let n := (solutions.getLastD []).headD 0
  1 ≤ m ∧ 1 ≤ n ∧ m ≤ n ∧ solutions.length - 2 = n.toNat

end Solver

/-- `Solver`: the type and the solutions of a standard script. The scan ends at
the first template that matches. -/
def solver (scriptPubKey : CScript) : Option (TxnOutType × List Bytes) :=
  if scriptPubKey.isPayToScriptHash then
    some (.scripthash, [(scriptPubKey.drop 2).take 20])
  else
    (Solver.templates.findSome? fun t =>
      (Solver.matchTemplate t.2 scriptPubKey []).map fun solutions => (t.1, solutions)).bind
    fun r => if r.1 = .multisig ∧ ¬ Solver.multisigOk r.2 then none else some r

/-- `uint160` of a byte vector. -/
def uint160OfBytes (vch : Bytes) : Uint160 :=
  if vch.length = 20 then BitVec.ofNat 160 (leValue vch) else 0

/-- The first push of the length of a public key. No value where the script
breaks off before it. -/
def findKeyPush (script : CScript) : Option (Option Bytes) :=
  match script.decodeOps.1.find? (fun op => op.2.length = 33 ∨ op.2.length = 65) with
  | some op => some (some op.2)
  | none => if script.parses then some none else none

/-- `common::getTransactionInputs`: for each input the key it presents. -/
def getTransactionInputs (H : HashFunctions) : List CTxIn → Option (List CKeyID)
  | [] => some []
  | txIn :: vin =>
    (findKeyPush txIn.scriptSig).bind fun data =>
      (getTransactionInputs H vin).map fun inputs =>
        match data with
        | some data => (CPubKey.ofBytes data).getID H :: inputs
        | none => inputs

/-- Script execution, `VerifyScript` of script.cpp. `EvalScript` reads the script
with `GetOp` and fails where that fails. -/
structure ScriptVerifier where
  verifyScript : CScript → CScript → CTransaction → ℕ → Bool
  parses_scriptSig : ∀ scriptSig scriptPubKey tx n,
    verifyScript scriptSig scriptPubKey tx n = true → scriptSig.parses = true

theorem parses_of_rejected (scriptSig : CScript) :
    CScript → CTransaction → ℕ → false = true → scriptSig.parses = true := by
  rintro _ _ _ ⟨⟩

end Dims
