import Dims.SignatureHash
import Dims.StackOps
import Dims.WeakestPre
import Dims.GreedyMatching

/-!
# Execution of scripts

`EvalScript` and `VerifyScript` of script.cpp. A script is executed operation by operation
and fails with the first that does; exceptions count as failures. Digests and signatures are
those of OpenSSL and come from outside. The signature cache is left out: it answers what the
check of the signature would.
-/

namespace Dims
open ByteCodec TokenStream WeakestPre

/-- The flags of script.h; `SCRIPT_VERIFY_NOCACHE` concerns the signature cache alone. -/
structure ScriptFlags where
  p2sh : Bool
  strictEnc : Bool
  evenS : Bool
  noCache : Bool
  deriving DecidableEq, Repr

/-- What the execution of a script is about: the input of a transaction that it unlocks. -/
structure ScriptContext where
  digests : ScriptDigests
  scheme : SignatureScheme
  flags : ScriptFlags
  txTo : CTransaction
  nIn : ℕ
  nHashType : UInt32

section Signatures

def isCanonicalPubKey (flags : ScriptFlags) (vchPubKey : Bytes) : Bool :=
  if !flags.strictEnc then true
  else if vchPubKey.length < 33 then false
  else if vchPubKey.headD 0 = 4 then vchPubKey.length = 65
  else if vchPubKey.headD 0 = 2 ∨ vchPubKey.headD 0 = 3 then vchPubKey.length = 33
  else false

/-- A number in a signature, from its first byte on: its type, its length, not negative and
not padded. -/
def isCanonicalInteger (vchSig : Bytes) (start size : ℕ) : Bool :=
  vchSig.getD (start - 2) 0 = 2 ∧ size ≠ 0 ∧ vchSig.getD start 0 &&& 0x80 = 0 ∧
    ¬(1 < size ∧ vchSig.getD start 0 = 0 ∧ vchSig.getD (start + 1) 0 &&& 0x80 = 0)

def isCanonicalSignature (flags : ScriptFlags) (vchSig : Bytes) : Bool :=
  if !flags.strictEnc then true
  else if vchSig.length < 9 ∨ 73 < vchSig.length then false
  else
    let nHashType := vchSig.getLastD 0 &&& ~~~0x80
    let nLenR := (vchSig.getD 3 0).toNat
    let nLenS := (vchSig.getD (5 + nLenR) 0).toNat
    if nHashType < 1 ∨ 3 < nHashType then false
    else if vchSig.getD 0 0 ≠ 0x30 ∨ (vchSig.getD 1 0).toNat ≠ vchSig.length - 3 then false
    else if vchSig.length ≤ 5 + nLenR ∨ nLenR + nLenS + 7 ≠ vchSig.length then false
    else if !isCanonicalInteger vchSig 4 nLenR || !isCanonicalInteger vchSig (6 + nLenR) nLenS then
      false
    else !(flags.evenS && vchSig.getD (6 + nLenR + nLenS - 1) 0 &&& 1 ≠ 0)

namespace ScriptContext

variable (c : ScriptContext)

/-- `CheckSig`. The hash type is the last byte of the signature. -/
def checkSig (vchSig vchPubKey : Bytes) (scriptCode : CScript) : Bool :=
  let pubkey := CPubKey.ofBytes vchPubKey
  if !pubkey.isValid then false
  else match vchSig.getLast? with
    | none => false
    | some back =>
      if c.nHashType ≠ 0 ∧ c.nHashType ≠ back.toUInt32 then false
      else
        c.scheme.verify pubkey
          (signatureHash scriptCode c.txTo c.nIn back.toUInt32 c.digests.toHashFunctions)
          vchSig.dropLast

/-- The check of a signature in a script. -/
def checkCanonicalSig (scriptCode : CScript) (vchSig vchPubKey : Bytes) : Bool :=
  isCanonicalSignature c.flags vchSig && isCanonicalPubKey c.flags vchPubKey &&
    c.checkSig vchSig vchPubKey scriptCode

end ScriptContext

/-- The loop of `OP_CHECKMULTISIG`: each key is tried on the first signature that has none
yet, until too few keys are left. -/
def multiSigLoop (check : Bytes → Bytes → Bool) (sigs keys : List Bytes) : Bool :=
  GreedyMatching.greedy check sigs keys

end Signatures

/-- The operations that are no pushes of data. -/
inductive Op
  | nop
  | if_ (notIf : Bool)
  | else_
  | endIf
  | return_
  | toAltStack
  | fromAltStack
  | stack (op : StackOp)
  | codeSeparator
  | checkSig (verify : Bool)
  | checkMultiSig (verify : Bool)
  deriving DecidableEq, Repr

/-- The operations under their opcodes, `OP_1NEGATE` to `OP_NOP10`. All others fail when
they are executed. -/
def opTable : List (UInt8 × Op) :=
  [(0x4f, .stack (.number 0x4f)),
    (0x51, .stack (.number 0x51)), (0x52, .stack (.number 0x52)), (0x53, .stack (.number 0x53)),
    (0x54, .stack (.number 0x54)), (0x55, .stack (.number 0x55)), (0x56, .stack (.number 0x56)),
    (0x57, .stack (.number 0x57)), (0x58, .stack (.number 0x58)), (0x59, .stack (.number 0x59)),
    (0x5a, .stack (.number 0x5a)), (0x5b, .stack (.number 0x5b)), (0x5c, .stack (.number 0x5c)),
    (0x5d, .stack (.number 0x5d)), (0x5e, .stack (.number 0x5e)), (0x5f, .stack (.number 0x5f)),
    (0x60, .stack (.number 0x60)),
    (0x61, .nop), (0x63, .if_ false), (0x64, .if_ true), (0x67, .else_), (0x68, .endIf),
    (0x69, .stack .verify), (0x6a, .return_),
    (0x6b, .toAltStack), (0x6c, .fromAltStack),
    (0x6d, .stack .drop2), (0x6e, .stack .dup2), (0x6f, .stack .dup3), (0x70, .stack .over2),
    (0x71, .stack .rot2), (0x72, .stack .swap2), (0x73, .stack .ifDup), (0x74, .stack .depth),
    (0x75, .stack .drop), (0x76, .stack .dup), (0x77, .stack .nip), (0x78, .stack .over),
    (0x79, .stack .pick), (0x7a, .stack .roll), (0x7b, .stack .rot), (0x7c, .stack .swap),
    (0x7d, .stack .tuck), (0x82, .stack .size),
    (0x87, .stack .equal), (0x88, .stack .equalVerify),
    (0x8b, .stack (.unary .add1)), (0x8c, .stack (.unary .sub1)),
    (0x8f, .stack (.unary .negate)), (0x90, .stack (.unary .abs)),
    (0x91, .stack (.unary .not)), (0x92, .stack (.unary .notEqual0)),
    (0x93, .stack (.binary .add)), (0x94, .stack (.binary .sub)),
    (0x9a, .stack (.binary .boolAnd)), (0x9b, .stack (.binary .boolOr)),
    (0x9c, .stack (.binary .numEqual)), (0x9d, .stack .numEqualVerify),
    (0x9e, .stack (.binary .numNotEqual)), (0x9f, .stack (.binary .lessThan)),
    (0xa0, .stack (.binary .greaterThan)), (0xa1, .stack (.binary .lessThanOrEqual)),
    (0xa2, .stack (.binary .greaterThanOrEqual)), (0xa3, .stack (.binary .min)),
    (0xa4, .stack (.binary .max)), (0xa5, .stack .within),
    (0xa6, .stack (.digest .ripemd160)), (0xa7, .stack (.digest .sha1)),
    (0xa8, .stack (.digest .sha256)), (0xa9, .stack (.digest .hash160)),
    (0xaa, .stack (.digest .hash256)),
    (0xab, .codeSeparator), (0xac, .checkSig false), (0xad, .checkSig true),
    (0xae, .checkMultiSig false), (0xaf, .checkMultiSig true),
    (0xb0, .nop), (0xb1, .nop), (0xb2, .nop), (0xb3, .nop), (0xb4, .nop), (0xb5, .nop),
    (0xb6, .nop), (0xb7, .nop), (0xb8, .nop), (0xb9, .nop)]

/-- The disabled operations, which fail also where they are not executed. -/
def disabledOpcodes : List UInt8 :=
  [0x7e, 0x7f, 0x80, 0x81, 0x83, 0x84, 0x85, 0x86, 0x8d, 0x8e, 0x95, 0x96, 0x97, 0x98, 0x99]

/-- The variables of `EvalScript`. The innermost condition is the head of `vfExec`, and
`codeHash` is the script from `pbegincodehash` on. -/
structure EvalState where
  stack : List Bytes
  altstack : List Bytes
  vfExec : List Bool
  nOpCount : ℕ
  codeHash : CScript
  deriving DecidableEq, Repr

namespace EvalState

variable (s : EvalState)

/-- No surrounding condition has failed. -/
def fExec : Bool := s.vfExec.all id

def setStack (stack : List Bytes) : EvalState := { s with stack := stack }

def push (vch : Bytes) : EvalState := s.setStack (vch :: s.stack)

def limitSize : Option EvalState :=
  if 1000 < s.stack.length + s.altstack.length then none else some s

/-- The result of a check, on the stack or verified. -/
def pushResult (verify fSuccess : Bool) (stack : List Bytes) : Option EvalState :=
  if verify then if fSuccess then some (s.setStack stack) else none
  else some (s.setStack (vchBool fSuccess :: stack))

end EvalState

namespace ScriptContext

variable (c : ScriptContext)

/-- `OP_IF` and `OP_NOTIF`: where the surrounding code is not executed, no operand is
taken. -/
def evalIf (notIf : Bool) (s : EvalState) : Option EvalState :=
  if s.fExec then
    match s.stack with
    | [] => none
    | vch :: stack =>
      some { s with stack := stack, vfExec := (castToBool vch != notIf) :: s.vfExec }
  else some { s with vfExec := false :: s.vfExec }

def evalCheckSig (verify : Bool) (s : EvalState) : Option EvalState :=
  match s.stack with
  | vchPubKey :: vchSig :: stack =>
    s.pushResult verify
      (c.checkCanonicalSig (s.codeHash.findAndDelete vchSig) vchSig vchPubKey) stack
  | _ => none

/-- A count on the stack that `OP_CHECKMULTISIG` reads. -/
def readCount (max : ℕ) (vch : Bytes) : Option ℕ :=
  (castToBigNum vch).bind fun bn =>
    if CBigNum.getint bn < 0 ∨ (max : ℤ) < CBigNum.getint bn then none
    else some (CBigNum.getint bn).toNat

/-- The operands of `OP_CHECKMULTISIG`: the keys, the signatures, and the stack without
these, their counts and the one element more that is taken. -/
def multiSigOperands (stack : List Bytes) : Option (List Bytes × List Bytes × List Bytes) :=
  stack.head?.bind fun vchKeys =>
    (readCount 20 vchKeys).bind fun nKeysCount =>
      stack[1 + nKeysCount]?.bind fun vchSigs =>
        (readCount nKeysCount vchSigs).bind fun nSigsCount =>
          if stack.length < 3 + nKeysCount + nSigsCount then none
          else some ((stack.drop 1).take nKeysCount,
            (stack.drop (2 + nKeysCount)).take nSigsCount,
            stack.drop (3 + nKeysCount + nSigsCount))

def evalCheckMultiSig (verify : Bool) (s : EvalState) : Option EvalState :=
  (multiSigOperands s.stack).bind fun operands =>
    let nOpCount := s.nOpCount + operands.1.length
    if 201 < nOpCount then none
    else
      let scriptCode := operands.2.1.foldl CScript.findAndDelete s.codeHash
      { s with nOpCount := nOpCount }.pushResult verify
        (multiSigLoop (c.checkCanonicalSig scriptCode) operands.2.1 operands.1) operands.2.2

/-- The switch of `EvalScript`; `rest` is what follows the operation. -/
def evalOp (op : Op) (rest : CScript) (s : EvalState) : Option EvalState :=
  match op with
  | .nop => some s
  | .if_ notIf => evalIf notIf s
  | .else_ =>
    match s.vfExec with
    | [] => none
    | fValue :: vfExec => some { s with vfExec := (!fValue) :: vfExec }
  | .endIf =>
    match s.vfExec with
    | [] => none
    | _ :: vfExec => some { s with vfExec := vfExec }
  | .return_ => none
  | .toAltStack =>
    match s.stack with
    | [] => none
    | vch :: stack => some { s with stack := stack, altstack := vch :: s.altstack }
  | .fromAltStack =>
    match s.altstack with
    | [] => none
    | vch :: altstack => some { s with stack := vch :: s.stack, altstack := altstack }
  | .stack op => (op.eval c.digests s.stack).map s.setStack
  | .codeSeparator => some { s with codeHash := rest }
  | .checkSig verify => c.evalCheckSig verify s
  | .checkMultiSig verify => c.evalCheckMultiSig verify s

/-- An operation after its opcode is counted and found not to be disabled. -/
def dispatch (op : UInt8 × Bytes) (rest : CScript) (s : EvalState) : Option EvalState :=
  if s.fExec ∧ op.1 ≤ 0x4e then some (s.push op.2)
  else if s.fExec ∨ (0x63 ≤ op.1 ∧ op.1 ≤ 0x68) then
    (opTable.lookup op.1).bind fun op => c.evalOp op rest s
  else some s

/-- The counter of operations, which pushes do not raise. -/
def countOp (op : UInt8) (s : EvalState) : Option EvalState :=
  if 0x60 < op then
    if 201 < s.nOpCount + 1 then none else some { s with nOpCount := s.nOpCount + 1 }
  else some s

/-- One turn of the loop of `EvalScript`. -/
def step (i : (UInt8 × Bytes) × CScript) (s : EvalState) : Option EvalState :=
  if 520 < i.1.2.length then none
  else (countOp i.1.1 s).bind fun s =>
    if disabledOpcodes.contains i.1.1 then none
    else (c.dispatch i.1 i.2 s).bind EvalState.limitSize

/-- The loop of `EvalScript` from a position of the script on. -/
def evalLoop : ℕ → CScript → EvalState → Option EvalState
  | 0, script, s => if script = [] then some s else none
  | fuel + 1, script, s =>
    if script = [] then some s
    else (CScript.getOp script).bind fun p => (c.step p s).bind (evalLoop fuel p.2)

def initialState (stack : List Bytes) (script : CScript) : EvalState :=
  ⟨stack, [], [], 0, script⟩

/-- `EvalScript`: the stack it leaves where it returns true. -/
def evalScript (stack : List Bytes) (script : CScript) : Option (List Bytes) :=
  if 10000 < script.length then none
  else (c.evalLoop script.length script (initialState stack script)).bind fun s =>
    if s.vfExec = [] then some s.stack else none

def topIsTrue : List Bytes → Bool
  | [] => false
  | vch :: _ => castToBool vch

end ScriptContext

/-- `IsPushOnly` -/
def CScript.isPushOnly (script : CScript) : Bool :=
  script.parses && script.decodeOps.1.all fun op => op.1 ≤ 0x60

namespace ScriptContext

variable (c : ScriptContext)

/-- The additional check of `VerifyScript` for an output that pays to a script. -/
def verifySubscript (scriptSig : CScript) (stackCopy : List Bytes) : Bool :=
  scriptSig.isPushOnly &&
    match stackCopy with
    | [] => false
    | pubKeySerialized :: stackCopy =>
      match c.evalScript stackCopy pubKeySerialized with
      | none => false
      | some stack => topIsTrue stack

/-- `VerifyScript` -/
def verifyScript (scriptSig scriptPubKey : CScript) : Bool :=
  match c.evalScript [] scriptSig with
  | none => false
  | some stackCopy =>
    match c.evalScript stackCopy scriptPubKey with
    | none => false
    | some stack =>
      topIsTrue stack &&
        if c.flags.p2sh && scriptPubKey.isPayToScriptHash then
          c.verifySubscript scriptSig stackCopy
        else true

end ScriptContext

namespace CScript

/-- The operations, each with what follows it. -/
def placed : List (Bytes × (UInt8 × Bytes)) → CScript → List ((UInt8 × Bytes) × CScript)
  | [], _ => []
  | p :: parts, tail => (p.2, Lexer.join parts tail) :: placed parts tail

def instructions (script : CScript) : List ((UInt8 × Bytes) × CScript) :=
  placed (ops.tokens script).1 (ops.tokens script).2

@[simp] theorem instructions_nil : instructions [] = [] := rfl

theorem instructions_of_none {script : CScript} (h : getOp script = none) :
    instructions script = [] := by
  have htokens : ops.tokens script = ([], script) := Lexer.tokens_of_none h
  rw [instructions, htokens]
  rfl

theorem instructions_of_getOp {script rest : CScript} {op : UInt8 × Bytes}
    (h : getOp script = some (op, rest)) :
    instructions script = (op, rest) :: instructions rest := by
  have htokens := Lexer.tokens_of_read (L := ops) h
  rw [instructions, htokens, placed, (ops.tokens_spec rest).1]
  rfl

theorem parses_of_getOp {script rest : CScript} {op : UInt8 × Bytes}
    (h : getOp script = some (op, rest)) : parses script = parses rest := by
  have htokens := Lexer.tokens_of_read (L := ops) h
  rw [Bool.eq_iff_iff, parses_iff, parses_iff, htokens]

theorem not_parses_of_none {script : CScript} (h : getOp script = none) (hne : script ≠ []) :
    parses script = false := by
  have htokens : ops.tokens script = ([], script) := Lexer.tokens_of_none h
  rw [← Bool.not_eq_true, parses_iff, htokens]
  exact hne

end CScript

namespace ScriptContext
open CScript

variable {c : ScriptContext}

/-- The loop executes the operations, and fails where the script breaks off. -/
theorem evalLoop_eq (fuel : ℕ) (script : CScript) (s : EvalState) (h : script.length ≤ fuel) :
    c.evalLoop fuel script s =
      (exec c.step script.instructions s).bind fun t => if script.parses then some t else none := by
  induction fuel generalizing script s with
  | zero =>
    obtain rfl : script = [] := by simpa using h
    simp [evalLoop]
  | succ fuel ih =>
    by_cases hne : script = []
    · subst hne
      simp [evalLoop]
    · rw [evalLoop, if_neg hne]
      cases hop : getOp script with
      | none => simp [instructions_of_none hop, not_parses_of_none hop hne]
      | some p =>
        have hlt := getOp_length hop
        rw [Option.bind_some, instructions_of_getOp hop, exec_cons, parses_of_getOp hop,
          Option.bind_assoc]
        exact congrArg _ (funext fun t => ih p.2 t (by omega))

/-- A script succeeds where it can be read to its end, its operations can be executed, and
no condition is left open. -/
theorem evalScript_eq_some {stack stack' : List Bytes} {script : CScript} :
    c.evalScript stack script = some stack' ↔
      script.length ≤ 10000 ∧ script.parses = true ∧
        Wp c.step script.instructions (fun t => t.vfExec = [] ∧ t.stack = stack')
          (initialState stack script) := by
  rw [evalScript, evalLoop_eq _ _ _ (Nat.le_refl _)]
  by_cases hlen : 10000 < script.length
  · simp [hlen]
  · cases hexec : exec c.step script.instructions (initialState stack script) with
    | none => simp [hexec, Wp]
    | some t =>
      by_cases hparse : script.parses = true
      · simp [hlen, hexec, hparse, Wp]
        omega
      · simp [hparse]

end ScriptContext

end Dims
