import Dims.EvalScript
import Dims.CreateTransaction

/-!
# Rules for scripts

What has to hold before an operation for the rest of a script to end as wanted. The rules
are for operations that are executed; from them the conditions are worked out under which
the scripts of the standard outputs accept.
-/

namespace Dims
open ByteCodec WeakestPre

namespace ScriptContext

variable {c : ScriptContext} {prog : List ((UInt8 × Bytes) × CScript)} {rest : CScript}
  {s : EvalState} {Q : EvalState → Prop}

/-- The state after an operation has been counted. -/
def counted (s : EvalState) : EvalState := { s with nOpCount := s.nOpCount + 1 }

theorem bind_limitSize_eq_some {o : Option EvalState} {t : EvalState} :
    o.bind EvalState.limitSize = some t ↔
      o = some t ∧ t.stack.length + t.altstack.length ≤ 1000 := by
  constructor
  · intro h
    obtain ⟨t', ht', hlimit⟩ := Option.bind_eq_some_iff.mp h
    unfold EvalState.limitSize at hlimit
    split at hlimit
    case isTrue => cases hlimit
    case isFalse hsize =>
      cases hlimit
      exact ⟨ht', by omega⟩
  · rintro ⟨rfl, hsize⟩
    rw [Option.bind_some, EvalState.limitSize, if_neg (by omega)]

theorem wp_push {opcode : UInt8} {data : Bytes} (hop : opcode ≤ 0x4e) (hexec : s.fExec = true) :
    Wp c.step (((opcode, data), rest) :: prog) Q s ↔
      data.length ≤ 520 ∧ s.stack.length + 1 + s.altstack.length ≤ 1000 ∧
        Wp c.step prog Q (s.push data) := by
  have hcount : countOp opcode s = some s := by
    have hlow : ¬ 0x60 < opcode := by
      simp only [UInt8.le_iff_toNat_le, UInt8.lt_iff_toNat_lt, UInt8.reduceToNat] at hop ⊢
      omega
    rw [countOp, if_neg hlow]
  have hdis : disabledOpcodes.contains opcode = false := by
    have hall : ∀ b ∈ disabledOpcodes, ¬ b ≤ 0x4e := by simp [disabledOpcodes]
    simpa using fun hmem => hall opcode hmem hop
  have hstep : c.step ((opcode, data), rest) s =
      if 520 < data.length then none else (some (s.push data)).bind EvalState.limitSize := by
    simp only [step, hcount, Option.bind_some, hdis, Bool.false_eq_true, if_false, dispatch, hexec, hop, and_self,
      if_true]
  have hsize : (s.push data).stack.length + (s.push data).altstack.length =
      s.stack.length + 1 + s.altstack.length := rfl
  simp only [wp_cons, hstep]
  by_cases hdata : 520 < data.length
  · simp only [hdata, if_true, reduceCtorEq, false_and, exists_false, false_iff]
    omega
  · simp only [hdata, if_false, bind_limitSize_eq_some, Option.some.injEq]
    constructor
    · rintro ⟨t, ⟨rfl, hle⟩, hrest⟩
      exact ⟨by omega, hsize ▸ hle, hrest⟩
    · rintro ⟨-, hle, hrest⟩
      exact ⟨_, ⟨rfl, hsize ▸ hle⟩, hrest⟩

theorem wp_op {opcode : UInt8} {op : Op} (hlookup : opTable.lookup opcode = some op)
    (hcount : 0x60 < opcode) (hdis : disabledOpcodes.contains opcode = false) (hexec : s.fExec = true) :
    Wp c.step (((opcode, []), rest) :: prog) Q s ↔
      s.nOpCount < 201 ∧ ∃ t, c.evalOp op rest (counted s) = some t ∧
        t.stack.length + t.altstack.length ≤ 1000 ∧ Wp c.step prog Q t := by
  have hpush : ¬ opcode ≤ 0x4e := by
    simp only [UInt8.le_iff_toNat_le, UInt8.lt_iff_toNat_lt, UInt8.reduceToNat] at hcount ⊢
    omega
  have hexec' : (counted s).fExec = true := hexec
  have hstep : c.step ((opcode, []), rest) s =
      if 201 < s.nOpCount + 1 then none
      else (c.evalOp op rest (counted s)).bind EvalState.limitSize := by
    simp only [step, List.length_nil, Nat.not_lt_zero, if_false, countOp, hcount, if_true]
    split
    · rfl
    · simp only [Option.bind_some]
      rw [show ({ s with nOpCount := s.nOpCount + 1 } : EvalState) = counted s from rfl]
      simp only [hdis, Bool.false_eq_true, dispatch, hexec', hpush, and_false, if_false, true_or,
        if_true, hlookup, Option.bind_some]
  simp only [wp_cons, hstep]
  by_cases hle : 201 < s.nOpCount + 1
  · simp only [hle, if_true, reduceCtorEq, false_and, exists_false, false_iff]
    omega
  · simp only [hle, if_false, bind_limitSize_eq_some, and_assoc]
    constructor
    · exact fun h => ⟨by omega, h⟩
    · exact fun h => h.2

section Plain

/-- A state outside of all conditions, with nothing put aside. -/
def plain (stack : List Bytes) (nOpCount : ℕ) (codeHash : CScript) : EvalState :=
  ⟨stack, [], [], nOpCount, codeHash⟩

variable {stack : List Bytes} {nOpCount : ℕ} {codeHash : CScript}

theorem wp_push_plain {opcode : UInt8} {data : Bytes} (hop : opcode ≤ 0x4e) :
    Wp c.step (((opcode, data), rest) :: prog) Q (plain stack nOpCount codeHash) ↔
      data.length ≤ 520 ∧ stack.length + 1 ≤ 1000 ∧
        Wp c.step prog Q (plain (data :: stack) nOpCount codeHash) :=
  wp_push hop rfl

theorem wp_stackOp {opcode : UInt8} {op : StackOp}
    (hlookup : opTable.lookup opcode = some (.stack op)) (hcount : 0x60 < opcode)
    (hdis : disabledOpcodes.contains opcode = false) :
    Wp c.step (((opcode, []), rest) :: prog) Q (plain stack nOpCount codeHash) ↔
      nOpCount < 201 ∧ ∃ stack', op.eval c.digests stack = some stack' ∧ stack'.length ≤ 1000 ∧
        Wp c.step prog Q (plain stack' (nOpCount + 1) codeHash) := by
  rw [wp_op hlookup hcount hdis rfl]
  simp only [evalOp, Option.map_eq_some_iff]
  constructor
  · rintro ⟨hlt, t, ⟨stack', hstack, rfl⟩, hsize, hrest⟩
    exact ⟨hlt, stack', hstack, hsize, hrest⟩
  · rintro ⟨hlt, stack', hstack, hsize, hrest⟩
    exact ⟨hlt, _, ⟨stack', hstack, rfl⟩, hsize, hrest⟩

theorem wp_number {opcode : UInt8}
    (hlookup : opTable.lookup opcode = some (.stack (.number opcode)))
    (hpush : ¬ opcode ≤ 0x4e) (hcount : ¬ 0x60 < opcode) (hdis : disabledOpcodes.contains opcode = false) :
    Wp c.step (((opcode, []), rest) :: prog) Q (plain stack nOpCount codeHash) ↔
      stack.length + 1 ≤ 1000 ∧
        Wp c.step prog Q
          (plain (CBigNum.getvch ((opcode.toNat : ℤ) - 0x50) :: stack) nOpCount codeHash) := by
  have hstep : c.step ((opcode, []), rest) (plain stack nOpCount codeHash) =
      (some (plain (CBigNum.getvch ((opcode.toNat : ℤ) - 0x50) :: stack) nOpCount codeHash)).bind
        EvalState.limitSize := by
    simp [-List.contains_eq_mem, step, countOp, hcount, hdis, dispatch, hpush, EvalState.fExec,
      plain, hlookup, evalOp, StackOp.eval, EvalState.setStack]
  simp only [wp_cons, hstep, bind_limitSize_eq_some, Option.some.injEq]
  constructor
  · rintro ⟨t, ⟨rfl, hle⟩, hrest⟩
    exact ⟨hle, hrest⟩
  · rintro ⟨hle, hrest⟩
    exact ⟨_, ⟨rfl, hle⟩, hrest⟩

/-- `OP_CHECKSIG` takes the key and the signature below it, whatever the check says. -/
theorem wp_checkSig :
    Wp c.step (((0xac, []), rest) :: prog) Q (plain stack nOpCount codeHash) ↔
      nOpCount < 201 ∧ ∃ vchPubKey vchSig below, stack = vchPubKey :: vchSig :: below ∧
        below.length + 1 ≤ 1000 ∧
          Wp c.step prog Q
            (plain (vchBool (c.checkCanonicalSig (codeHash.findAndDelete vchSig) vchSig vchPubKey) ::
              below) (nOpCount + 1) codeHash) := by
  have hlookup : opTable.lookup 0xac = some (.checkSig false) := rfl
  rw [wp_op hlookup (by decide) (by decide) rfl]
  constructor
  · rintro ⟨hlt, t, ht, hsize, hrest⟩
    simp only [evalOp, evalCheckSig] at ht
    split at ht
    case h_1 vchPubKey vchSig below hstack =>
      cases ht
      exact ⟨hlt, vchPubKey, vchSig, below, hstack, hsize, hrest⟩
    case h_2 => cases ht
  · rintro ⟨hlt, vchPubKey, vchSig, below, rfl, hsize, hrest⟩
    exact ⟨hlt, _, rfl, hsize, hrest⟩

/-- `OP_CHECKMULTISIG` takes the keys, the signatures and one element more. -/
theorem wp_checkMultiSig :
    Wp c.step (((0xae, []), rest) :: prog) Q (plain stack nOpCount codeHash) ↔
      nOpCount < 201 ∧ ∃ operands, multiSigOperands stack = some operands ∧
        nOpCount + 1 + operands.1.length ≤ 201 ∧ operands.2.2.length + 1 ≤ 1000 ∧
          Wp c.step prog Q
            (plain (vchBool (multiSigLoop
              (c.checkCanonicalSig (operands.2.1.foldl CScript.findAndDelete codeHash))
              operands.2.1 operands.1) :: operands.2.2) (nOpCount + 1 + operands.1.length)
              codeHash) := by
  have hlookup : opTable.lookup 0xae = some (.checkMultiSig false) := rfl
  rw [wp_op hlookup (by decide) (by decide) rfl]
  simp only [evalOp, evalCheckMultiSig, Option.bind_eq_some_iff]
  constructor
  · rintro ⟨hlt, t, ⟨operands, hoperands, ht⟩, hsize, hrest⟩
    split at ht
    case isTrue => cases ht
    case isFalse hcount =>
      cases ht
      exact ⟨hlt, operands, hoperands, not_lt.mp hcount, hsize, hrest⟩
  · rintro ⟨hlt, operands, hoperands, hcount, hsize, hrest⟩
    exact ⟨hlt, _, ⟨operands, hoperands, if_neg (not_lt.mpr hcount)⟩, hsize, hrest⟩

/-- `PushAll` -/
def pushAll (values : List Bytes) : CScript := values.flatMap CScript.push

theorem wp_pushAll {values : List Bytes} (hvalues : ∀ vch ∈ values, vch.length < 2 ^ 32)
    (script : CScript) :
    Wp c.step (pushAll values ++ script).instructions Q (plain stack nOpCount codeHash) ↔
      (∀ vch ∈ values, vch.length ≤ 520) ∧
        (values ≠ [] → stack.length + values.length ≤ 1000) ∧
          Wp c.step script.instructions Q (plain (values.reverse ++ stack) nOpCount codeHash) := by
  induction values generalizing stack with
  | nil => simp [pushAll]
  | cons vch values ih =>
    obtain ⟨opcode, hle, hop⟩ := CScript.getOp_push (hvalues vch List.mem_cons_self)
    have hrest : pushAll (vch :: values) ++ script =
        CScript.push vch ++ (pushAll values ++ script) := by simp [pushAll]
    rw [hrest, CScript.instructions_of_getOp (hop _), wp_push_plain hle,
      ih fun vch' hvch' => hvalues vch' (List.mem_cons_of_mem vch hvch')]
    simp only [List.length_cons, List.mem_cons, forall_eq_or_imp, ne_eq, reduceCtorEq,
      not_false_eq_true, true_implies, List.reverse_cons, List.append_assoc, List.cons_append,
      List.nil_append]
    constructor
    · rintro ⟨hvch, hone, hall, hsize, hwp⟩
      refine ⟨⟨hvch, hall⟩, ?_, hwp⟩
      by_cases hnil : values = []
      · simp only [hnil, List.length_nil]
        omega
      · have := hsize hnil
        omega
    · rintro ⟨⟨hvch, hall⟩, hsize, hwp⟩
      exact ⟨hvch, by omega, hall, fun _ => by omega, hwp⟩

theorem parses_pushAll {values : List Bytes} (hvalues : ∀ vch ∈ values, vch.length < 2 ^ 32)
    (script : CScript) : (pushAll values ++ script).parses = script.parses := by
  induction values with
  | nil => simp [pushAll]
  | cons vch values ih =>
    obtain ⟨opcode, -, hop⟩ := CScript.getOp_push (hvalues vch List.mem_cons_self)
    have hrest : pushAll (vch :: values) ++ script =
        CScript.push vch ++ (pushAll values ++ script) := by simp [pushAll]
    rw [hrest, CScript.parses_of_getOp (hop _),
      ih fun vch' hvch' => hvalues vch' (List.mem_cons_of_mem vch hvch')]

theorem evalScript_pushAll {values : List Bytes} (hvalues : ∀ vch ∈ values, vch.length < 2 ^ 32)
    {stack : List Bytes} :
    c.evalScript [] (pushAll values) = some stack ↔
      (pushAll values).length ≤ 10000 ∧ (∀ vch ∈ values, vch.length ≤ 520) ∧
        values.length ≤ 1000 ∧ values.reverse = stack := by
  have hparses : (pushAll values).parses = true := by
    have := parses_pushAll hvalues []
    simpa using this
  have hrun : ∀ Q : EvalState → Prop,
      Wp c.step (pushAll values).instructions Q (initialState [] (pushAll values)) ↔
        Wp c.step (pushAll values ++ []).instructions Q (plain [] 0 (pushAll values)) := by
    intro Q
    rw [List.append_nil]
    exact Iff.rfl
  rw [evalScript_eq_some, hrun, wp_pushAll hvalues, CScript.instructions_nil]
  simp only [hparses, true_and, List.length_nil, Nat.zero_add, List.append_nil, wp_nil, plain]
  constructor
  · rintro ⟨hlength, hall, hcount, hresult⟩
    refine ⟨hlength, hall, ?_, hresult⟩
    by_cases hnil : values = []
    · simp [hnil]
    · exact hcount hnil
  · rintro ⟨hlength, hall, hcount, hresult⟩
    exact ⟨hlength, hall, fun _ => hcount, hresult⟩

end Plain

end ScriptContext

end Dims
