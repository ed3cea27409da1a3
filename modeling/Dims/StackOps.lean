import Dims.ScriptNumber

/-!
# Operations on the stack

The operations of `EvalScript` that read and change the stack alone. The top of the stack
is the head of the list. An operation fails where an operand is missing, where an operand
is no number, and where it is to verify what does not hold.
-/

namespace Dims
open ByteCodec CBigNum

/-- The digests that scripts compute, beside those of hash.h. -/
structure ScriptDigests extends HashFunctions where
  ripemd160 : Bytes → Uint160
  sha1 : Bytes → Uint160
  sha256 : Bytes → Uint256

def vchFalse : Bytes := []

def vchTrue : Bytes := [1]

def vchBool (fValue : Bool) : Bytes := if fValue then vchTrue else vchFalse

@[simp] theorem castToBool_vchBool (fValue : Bool) : castToBool (vchBool fValue) = fValue := by
  cases fValue <;> decide

inductive UnaryOp
  | add1 | sub1 | negate | abs | not | notEqual0
  deriving DecidableEq, Repr

inductive BinaryOp
  | add | sub | boolAnd | boolOr | numEqual | numNotEqual | lessThan | greaterThan
  | lessThanOrEqual | greaterThanOrEqual | min | max
  deriving DecidableEq, Repr

inductive HashOp
  | ripemd160 | sha1 | sha256 | hash160 | hash256
  deriving DecidableEq, Repr

/-- `number` stands for `OP_1NEGATE` and `OP_1` to `OP_16`. -/
inductive StackOp
  | number (opcode : UInt8)
  | verify
  | drop2 | dup2 | dup3 | over2 | rot2 | swap2 | ifDup | depth | drop | dup | nip | over
  | pick | roll | rot | swap | tuck
  | size
  | equal | equalVerify
  | unary (op : UnaryOp)
  | binary (op : BinaryOp)
  | numEqualVerify
  | within
  | digest (op : HashOp)
  deriving DecidableEq, Repr

def boolNum (fValue : Bool) : ℤ := if fValue then 1 else 0

def UnaryOp.eval : UnaryOp → ℤ → ℤ
  | .add1, bn => bn + 1
  | .sub1, bn => bn - 1
  | .negate, bn => -bn
  | .abs, bn => if bn < 0 then -bn else bn
  | .not, bn => boolNum (bn = 0)
  | .notEqual0, bn => boolNum (bn ≠ 0)

def BinaryOp.eval : BinaryOp → ℤ → ℤ → ℤ
  | .add, bn1, bn2 => bn1 + bn2
  | .sub, bn1, bn2 => bn1 - bn2
  | .boolAnd, bn1, bn2 => boolNum (bn1 ≠ 0 ∧ bn2 ≠ 0)
  | .boolOr, bn1, bn2 => boolNum (bn1 ≠ 0 ∨ bn2 ≠ 0)
  | .numEqual, bn1, bn2 => boolNum (bn1 = bn2)
  | .numNotEqual, bn1, bn2 => boolNum (bn1 ≠ bn2)
  | .lessThan, bn1, bn2 => boolNum (bn1 < bn2)
  | .greaterThan, bn1, bn2 => boolNum (bn1 > bn2)
  | .lessThanOrEqual, bn1, bn2 => boolNum (bn1 ≤ bn2)
  | .greaterThanOrEqual, bn1, bn2 => boolNum (bn1 ≥ bn2)
  | .min, bn1, bn2 => if bn1 < bn2 then bn1 else bn2
  | .max, bn1, bn2 => if bn1 > bn2 then bn1 else bn2

/-- The bytes of a digest as it lies in memory. -/
def uint160Bytes (h : Uint160) : Bytes := leBytes 20 h.toNat

def uint256Bytes (h : Uint256) : Bytes := leBytes 32 h.toNat

def HashOp.eval (D : ScriptDigests) : HashOp → Bytes → Bytes
  | .ripemd160, vch => uint160Bytes (D.ripemd160 vch)
  | .sha1, vch => uint160Bytes (D.sha1 vch)
  | .sha256, vch => uint256Bytes (D.sha256 vch)
  | .hash160, vch => uint160Bytes (D.hash160 vch)
  | .hash256, vch => uint256Bytes (D.hash vch)

namespace StackOp

/-- `OP_VERIFY`, also as the second half of the operations that verify their result. -/
def verifyTop : List Bytes → Option (List Bytes)
  | vch :: stack => if castToBool vch then some stack else none
  | [] => none

/-- The element that `OP_PICK` and `OP_ROLL` name, and the stack below the operand. -/
def selected : List Bytes → Option (ℕ × Bytes × List Bytes)
  | vch :: x :: stack =>
    (castToBigNum vch).bind fun bn =>
      if getint bn < 0 then none
      else (x :: stack)[(getint bn).toNat]?.map fun picked =>
        ((getint bn).toNat, picked, x :: stack)
  | _ => none

def eval (D : ScriptDigests) (op : StackOp) (stack : List Bytes) : Option (List Bytes) :=
  match op with
  | .number opcode => some (getvch ((opcode.toNat : ℤ) - 0x50) :: stack)
  | .verify => verifyTop stack
  | .drop2 =>
    match stack with
    | _ :: _ :: stack => some stack
    | _ => none
  | .dup2 =>
    match stack with
    | x2 :: x1 :: stack => some (x2 :: x1 :: x2 :: x1 :: stack)
    | _ => none
  | .dup3 =>
    match stack with
    | x3 :: x2 :: x1 :: stack => some (x3 :: x2 :: x1 :: x3 :: x2 :: x1 :: stack)
    | _ => none
  | .over2 =>
    match stack with
    | x4 :: x3 :: x2 :: x1 :: stack => some (x2 :: x1 :: x4 :: x3 :: x2 :: x1 :: stack)
    | _ => none
  | .rot2 =>
    match stack with
    | x6 :: x5 :: x4 :: x3 :: x2 :: x1 :: stack =>
      some (x2 :: x1 :: x6 :: x5 :: x4 :: x3 :: stack)
    | _ => none
  | .swap2 =>
    match stack with
    | x4 :: x3 :: x2 :: x1 :: stack => some (x2 :: x1 :: x4 :: x3 :: stack)
    | _ => none
  | .ifDup =>
    match stack with
    | x :: stack => some (if castToBool x then x :: x :: stack else x :: stack)
    | [] => none
  | .depth => some (getvch stack.length :: stack)
  | .drop =>
    match stack with
    | _ :: stack => some stack
    | [] => none
  | .dup =>
    match stack with
    | x :: stack => some (x :: x :: stack)
    | [] => none
  | .nip =>
    match stack with
    | x2 :: _ :: stack => some (x2 :: stack)
    | _ => none
  | .over =>
    match stack with
    | x2 :: x1 :: stack => some (x1 :: x2 :: x1 :: stack)
    | _ => none
  | .pick => (selected stack).map fun p => p.2.1 :: p.2.2
  | .roll => (selected stack).map fun p => p.2.1 :: p.2.2.eraseIdx p.1
  | .rot =>
    match stack with
    | x3 :: x2 :: x1 :: stack => some (x1 :: x3 :: x2 :: stack)
    | _ => none
  | .swap =>
    match stack with
    | x2 :: x1 :: stack => some (x1 :: x2 :: stack)
    | _ => none
  | .tuck =>
    match stack with
    | x2 :: x1 :: stack => some (x2 :: x1 :: x2 :: stack)
    | _ => none
  | .size =>
    match stack with
    | x :: stack => some (getvch x.length :: x :: stack)
    | [] => none
  | .equal =>
    match stack with
    | x2 :: x1 :: stack => some (vchBool (x1 = x2) :: stack)
    | _ => none
  | .equalVerify =>
    match stack with
    | x2 :: x1 :: stack => verifyTop (vchBool (x1 = x2) :: stack)
    | _ => none
  | .unary op =>
    match stack with
    | x :: stack => (castToBigNum x).map fun bn => getvch (op.eval bn) :: stack
    | [] => none
  | .binary op =>
    match stack with
    | x2 :: x1 :: stack =>
      (castToBigNum x1).bind fun bn1 => (castToBigNum x2).map fun bn2 =>
        getvch (op.eval bn1 bn2) :: stack
    | _ => none
  | .numEqualVerify =>
    match stack with
    | x2 :: x1 :: stack =>
      (castToBigNum x1).bind fun bn1 => (castToBigNum x2).bind fun bn2 =>
        verifyTop (getvch (BinaryOp.numEqual.eval bn1 bn2) :: stack)
    | _ => none
  | .within =>
    match stack with
    | x3 :: x2 :: x1 :: stack =>
      (castToBigNum x1).bind fun bn1 => (castToBigNum x2).bind fun bn2 =>
        (castToBigNum x3).map fun bn3 => vchBool (bn2 ≤ bn1 ∧ bn1 < bn3) :: stack
    | _ => none
  | .digest op =>
    match stack with
    | x :: stack => some (op.eval D x :: stack)
    | [] => none

end StackOp

end Dims
