import Dims.EvalScript

/-!
# The limits of a script

At every moment of the execution of a script there are no more than 1000 elements on the
two stacks, none of them larger than what may be pushed, no more than 201 operations have
been counted, and no more than 201 signatures have been checked. The limits hold of any
scripts and of every execution of `VerifyScript`.
-/

namespace Dims
open ByteCodec WeakestPre

/-- The elements that may be on a stack: none is larger than `MAX_SCRIPT_ELEMENT_SIZE`. -/
def FitElements (stack : List Bytes) : Prop := ∀ vch ∈ stack, vch.length ≤ 520

section Elements

@[simp] theorem fitElements_nil : FitElements [] := by simp [FitElements]

@[simp] theorem fitElements_cons {vch : Bytes} {stack : List Bytes} :
    FitElements (vch :: stack) ↔ vch.length ≤ 520 ∧ FitElements stack := by
  simp [FitElements]

theorem FitElements.mono {stack stack' : List Bytes} (h : FitElements stack)
    (hsub : stack' ⊆ stack) : FitElements stack' := fun vch hvch => h vch (hsub hvch)

@[simp] theorem length_vchBool_le (fValue : Bool) : (vchBool fValue).length ≤ 520 := by
  cases fValue <;> decide

theorem length_getvch_of_lt {v : ℤ} (h : v.natAbs < 2 ^ 39) :
    (CBigNum.getvch v).length ≤ 520 := by
  have := CBigNum.length_getvch_le (k := 5) h
  omega

theorem natAbs_boolNum (fValue : Bool) : (boolNum fValue).natAbs ≤ 1 := by
  cases fValue <;> decide

theorem UnaryOp.natAbs_eval (op : UnaryOp) (bn : ℤ) : (op.eval bn).natAbs ≤ bn.natAbs + 1 := by
  cases op with
  | add1 => simp only [UnaryOp.eval]; omega
  | sub1 => simp only [UnaryOp.eval]; omega
  | negate => simp only [UnaryOp.eval]; omega
  | abs =>
    simp only [UnaryOp.eval]
    split <;> omega
  | not => exact le_trans (natAbs_boolNum _) (by omega)
  | notEqual0 => exact le_trans (natAbs_boolNum _) (by omega)

theorem BinaryOp.natAbs_eval (op : BinaryOp) (bn1 bn2 : ℤ) :
    (op.eval bn1 bn2).natAbs ≤ bn1.natAbs + bn2.natAbs + 1 := by
  cases op with
  | add => simp only [BinaryOp.eval]; omega
  | sub => simp only [BinaryOp.eval]; omega
  | min =>
    simp only [BinaryOp.eval]
    split <;> omega
  | max =>
    simp only [BinaryOp.eval]
    split <;> omega
  | _ => exact le_trans (natAbs_boolNum _) (by omega)

theorem HashOp.length_eval_le (D : ScriptDigests) (op : HashOp) (vch : Bytes) :
    (op.eval D vch).length ≤ 520 := by
  cases op <;> simp [HashOp.eval, uint160Bytes, uint256Bytes]

theorem StackOp.fitElements_verifyTop {stack stack' : List Bytes}
    (h : StackOp.verifyTop stack = some stack') (hfit : FitElements stack) :
    FitElements stack' := by
  cases stack with
  | nil => cases h
  | cons vch stack =>
    simp only [StackOp.verifyTop, Option.ite_none_right_eq_some, Option.some.injEq] at h
    exact h.2 ▸ (fitElements_cons.mp hfit).2

theorem StackOp.selected_spec {stack below : List Bytes} {n : ℕ} {picked : Bytes}
    (h : StackOp.selected stack = some (n, picked, below)) (hfit : FitElements stack) :
    picked.length ≤ 520 ∧ FitElements below := by
  unfold StackOp.selected at h
  split at h
  case h_1 vch x stack =>
    obtain ⟨bn, -, h⟩ := Option.bind_eq_some_iff.mp h
    split at h
    case isTrue => cases h
    case isFalse =>
      obtain ⟨found, hfound, heq⟩ := Option.map_eq_some_iff.mp h
      cases heq
      have hbelow := (fitElements_cons.mp hfit).2
      exact ⟨hbelow _ (List.mem_of_getElem? hfound), hbelow⟩
  case h_2 => cases h

theorem StackOp.fitElements_eval {D : ScriptDigests} {op : StackOp} {stack stack' : List Bytes}
    (h : op.eval D stack = some stack') (hfit : FitElements stack) (hlen : stack.length ≤ 1000) :
    FitElements stack' := by
  cases op with
  | number opcode =>
    have := opcode.toNat_lt
    cases h
    exact fitElements_cons.mpr ⟨length_getvch_of_lt (by omega), hfit⟩
  | verify => exact fitElements_verifyTop h hfit
  | ifDup =>
    simp only [eval] at h
    split at h
    · cases h
      split <;> simp_all
    · cases h
  | depth =>
    cases h
    exact fitElements_cons.mpr ⟨length_getvch_of_lt (by omega), hfit⟩
  | pick =>
    obtain ⟨p, hp, rfl⟩ := Option.map_eq_some_iff.mp h
    obtain ⟨hpicked, hbelow⟩ := selected_spec hp hfit
    exact fitElements_cons.mpr ⟨hpicked, hbelow⟩
  | roll =>
    obtain ⟨p, hp, rfl⟩ := Option.map_eq_some_iff.mp h
    obtain ⟨hpicked, hbelow⟩ := selected_spec hp hfit
    exact fitElements_cons.mpr ⟨hpicked, hbelow.mono List.eraseIdx_subset⟩
  | size =>
    simp only [eval] at h
    split at h
    · cases h
      have := (fitElements_cons.mp hfit).1
      exact fitElements_cons.mpr ⟨length_getvch_of_lt (by omega), hfit⟩
    · cases h
  | equalVerify =>
    simp only [eval] at h
    split at h
    · exact fitElements_verifyTop h (by simp_all)
    · cases h
  | unary op =>
    simp only [eval] at h
    split at h
    · obtain ⟨bn, hbn, rfl⟩ := Option.map_eq_some_iff.mp h
      have hrange := natAbs_lt_of_castToBigNum hbn
      have hresult := op.natAbs_eval bn
      exact fitElements_cons.mpr
        ⟨length_getvch_of_lt (by omega), (fitElements_cons.mp hfit).2⟩
    · cases h
  | binary op =>
    simp only [eval] at h
    split at h
    · obtain ⟨bn1, hbn1, h⟩ := Option.bind_eq_some_iff.mp h
      obtain ⟨bn2, hbn2, rfl⟩ := Option.map_eq_some_iff.mp h
      have hrange1 := natAbs_lt_of_castToBigNum hbn1
      have hrange2 := natAbs_lt_of_castToBigNum hbn2
      have hresult := op.natAbs_eval bn1 bn2
      exact fitElements_cons.mpr
        ⟨length_getvch_of_lt (by omega), (fitElements_cons.mp (fitElements_cons.mp hfit).2).2⟩
    · cases h
  | numEqualVerify =>
    simp only [eval] at h
    split at h
    · obtain ⟨bn1, hbn1, h⟩ := Option.bind_eq_some_iff.mp h
      obtain ⟨bn2, hbn2, h⟩ := Option.bind_eq_some_iff.mp h
      have hresult := natAbs_boolNum (bn1 = bn2)
      apply fitElements_verifyTop h
      exact fitElements_cons.mpr ⟨length_getvch_of_lt (lt_of_le_of_lt hresult (by norm_num)),
        (fitElements_cons.mp (fitElements_cons.mp hfit).2).2⟩
    · cases h
  | within =>
    simp only [eval] at h
    split at h
    · obtain ⟨bn1, -, h⟩ := Option.bind_eq_some_iff.mp h
      obtain ⟨bn2, -, h⟩ := Option.bind_eq_some_iff.mp h
      obtain ⟨bn3, -, rfl⟩ := Option.map_eq_some_iff.mp h
      simp_all
    · cases h
  | digest op =>
    simp only [eval] at h
    split at h
    · cases h
      exact fitElements_cons.mpr ⟨HashOp.length_eval_le _ _ _, (fitElements_cons.mp hfit).2⟩
    · cases h
  -- the other operations move elements of the stack and drop them
  | _ =>
    simp only [eval] at h
    split at h
    · cases h
      simp_all
    · cases h

end Elements

namespace EvalState

/-- What a script may need while it is executed. -/
structure WithinLimits (s : EvalState) : Prop where
  stack : FitElements s.stack
  altstack : FitElements s.altstack
  elements : s.stack.length + s.altstack.length ≤ 1000
  opCount : s.nOpCount ≤ 201
  conditions : s.vfExec.length ≤ s.nOpCount

/-- What the operations of the switch keep, before the elements are counted. -/
structure Fits (s : EvalState) : Prop where
  stack : FitElements s.stack
  altstack : FitElements s.altstack
  opCount : s.nOpCount ≤ 201
  conditions : s.vfExec.length ≤ s.nOpCount

theorem WithinLimits.fits {s : EvalState} (h : s.WithinLimits) : s.Fits :=
  ⟨h.stack, h.altstack, h.opCount, h.conditions⟩

theorem Fits.setStack {s : EvalState} (h : s.Fits) {stack : List Bytes}
    (hstack : FitElements stack) : (s.setStack stack).Fits :=
  ⟨hstack, h.altstack, h.opCount, h.conditions⟩

theorem Fits.pushResult {s t : EvalState} (h : s.Fits) {verify fSuccess : Bool}
    {stack : List Bytes} (hstack : FitElements stack)
    (ht : s.pushResult verify fSuccess stack = some t) : t.Fits := by
  unfold EvalState.pushResult at ht
  split at ht
  · split at ht
    · cases ht
      exact h.setStack hstack
    · cases ht
  · cases ht
    exact h.setStack (fitElements_cons.mpr ⟨length_vchBool_le _, hstack⟩)

end EvalState

namespace ScriptContext
open EvalState

variable {c : ScriptContext}

theorem length_multiSigOperands {stack : List Bytes} {operands : List Bytes × List Bytes × List Bytes}
    (h : multiSigOperands stack = some operands) :
    operands.1.length ≤ 20 ∧ operands.2.1.length ≤ operands.1.length ∧
      operands.2.2 ⊆ stack := by
  obtain ⟨vchKeys, hkeys, h⟩ := Option.bind_eq_some_iff.mp h
  obtain ⟨nKeysCount, hnKeys, h⟩ := Option.bind_eq_some_iff.mp h
  obtain ⟨vchSigs, hsigs, h⟩ := Option.bind_eq_some_iff.mp h
  obtain ⟨nSigsCount, hnSigs, h⟩ := Option.bind_eq_some_iff.mp h
  have hcount : ∀ {max : ℕ} {vch : Bytes} {n : ℕ}, readCount max vch = some n → n ≤ max := by
    intro max vch n hn
    obtain ⟨bn, -, hn⟩ := Option.bind_eq_some_iff.mp hn
    split at hn
    · cases hn
    · cases hn
      omega
  have hle20 := hcount hnKeys
  have hle := hcount hnSigs
  split at h
  case isTrue => cases h
  case isFalse hlen =>
    cases h
    refine ⟨?_, ?_, List.drop_subset _ _⟩
    · simp only [List.length_take, List.length_drop]
      omega
    · simp only [List.length_take, List.length_drop]
      omega

/-- The switch leaves no large element, and opens a condition only where the operation has
been counted. -/
theorem fits_evalOp {op : Op} {rest : CScript} {s t : EvalState} (h : c.evalOp op rest s = some t)
    (hs : s.Fits) (hlen : s.stack.length ≤ 1000)
    (hif : ∀ notIf, op = .if_ notIf → s.vfExec.length + 1 ≤ s.nOpCount) : t.Fits := by
  cases op with
  | nop =>
    cases h
    exact hs
  | if_ notIf =>
    have hopen := hif notIf rfl
    simp only [evalOp, evalIf] at h
    split at h
    · split at h
      case h_1 => cases h
      case h_2 vch stack hstack =>
        cases h
        have hfit := hs.stack
        rw [hstack] at hfit
        exact ⟨(fitElements_cons.mp hfit).2, hs.altstack, hs.opCount, hopen⟩
    · cases h
      exact ⟨hs.stack, hs.altstack, hs.opCount, hopen⟩
  | else_ =>
    simp only [evalOp] at h
    split at h
    case h_1 => cases h
    case h_2 fValue vfExec hvf =>
      cases h
      have hle := hs.conditions
      rw [hvf] at hle
      exact ⟨hs.stack, hs.altstack, hs.opCount, hle⟩
  | endIf =>
    simp only [evalOp] at h
    split at h
    case h_1 => cases h
    case h_2 fValue vfExec hvf =>
      cases h
      have hle := hs.conditions
      rw [hvf, List.length_cons] at hle
      exact ⟨hs.stack, hs.altstack, hs.opCount, Nat.le_of_succ_le hle⟩
  | return_ => cases h
  | toAltStack =>
    simp only [evalOp] at h
    split at h
    case h_1 => cases h
    case h_2 vch stack hstack =>
      cases h
      have hfit := hs.stack
      rw [hstack] at hfit
      have hparts := fitElements_cons.mp hfit
      exact ⟨hparts.2, fitElements_cons.mpr ⟨hparts.1, hs.altstack⟩, hs.opCount, hs.conditions⟩
  | fromAltStack =>
    simp only [evalOp] at h
    split at h
    case h_1 => cases h
    case h_2 vch altstack haltstack =>
      cases h
      have hfit := hs.altstack
      rw [haltstack] at hfit
      have hparts := fitElements_cons.mp hfit
      exact ⟨fitElements_cons.mpr ⟨hparts.1, hs.stack⟩, hparts.2, hs.opCount, hs.conditions⟩
  | stack op =>
    obtain ⟨stack, hstack, rfl⟩ := Option.map_eq_some_iff.mp h
    exact hs.setStack (StackOp.fitElements_eval hstack hs.stack hlen)
  | codeSeparator =>
    cases h
    exact ⟨hs.stack, hs.altstack, hs.opCount, hs.conditions⟩
  | checkSig verify =>
    simp only [evalOp, evalCheckSig] at h
    split at h
    case h_1 vchPubKey vchSig stack hstack =>
      have hfit := hs.stack
      rw [hstack] at hfit
      exact hs.pushResult (fitElements_cons.mp (fitElements_cons.mp hfit).2).2 h
    case h_2 => cases h
  | checkMultiSig verify =>
    obtain ⟨operands, hoperands, h⟩ := Option.bind_eq_some_iff.mp h
    obtain ⟨-, -, hsub⟩ := length_multiSigOperands hoperands
    dsimp only at h
    split at h
    case isTrue => cases h
    case isFalse hcount =>
      have hcounted : EvalState.Fits { s with nOpCount := s.nOpCount + operands.1.length } :=
        ⟨hs.stack, hs.altstack, by simpa using hcount,
          le_trans hs.conditions (Nat.le_add_right _ _)⟩
      exact hcounted.pushResult (hs.stack.mono hsub) h

section Step

theorem mem_opTable {opcode : UInt8} {op : Op} (h : opTable.lookup opcode = some op) :
    (opcode, op) ∈ opTable := by
  obtain ⟨before, after, heq, -⟩ := List.lookup_eq_some_iff.mp h
  simp [heq]

theorem counted_of_lookup {opcode : UInt8} {op : Op} (h : opTable.lookup opcode = some op)
    (hop : ∀ n, op ≠ .stack (.number n)) : 0x60 < opcode := by
  have hall : ∀ p ∈ opTable, 0x60 < p.1 ∨ p.2 = .stack (.number p.1) := by decide
  rcases hall _ (mem_opTable h) with hlt | hnumber
  · exact hlt
  · exact absurd hnumber (hop _)

theorem countOp_eq_some {opcode : UInt8} {s t : EvalState} (h : countOp opcode s = some t) :
    t = { s with nOpCount := s.nOpCount + if 0x60 < opcode then 1 else 0 } ∧
      (0x60 < opcode → t.nOpCount ≤ 201) := by
  unfold countOp at h
  split at h
  case isTrue hcount =>
    split at h
    case isTrue => cases h
    case isFalse hle =>
      cases h
      exact ⟨by simp [hcount], fun _ => by simpa using hle⟩
  case isFalse hcount =>
    cases h
    exact ⟨by simp [hcount], fun hlt => absurd hlt hcount⟩

theorem step_eq_some {i : (UInt8 × Bytes) × CScript} {s t : EvalState}
    (h : c.step i s = some t) :
    i.1.2.length ≤ 520 ∧ ∃ counted, countOp i.1.1 s = some counted ∧
      c.dispatch i.1 i.2 counted = some t ∧ t.stack.length + t.altstack.length ≤ 1000 := by
  unfold step at h
  split at h
  case isTrue => cases h
  case isFalse hdata =>
    obtain ⟨counted, hcount, h⟩ := Option.bind_eq_some_iff.mp h
    split at h
    case isTrue => cases h
    case isFalse =>
      obtain ⟨t', hdispatch, h⟩ := Option.bind_eq_some_iff.mp h
      unfold EvalState.limitSize at h
      split at h
      case isTrue => cases h
      case isFalse hsize =>
        cases h
        exact ⟨by omega, counted, hcount, hdispatch, by omega⟩

theorem Fits.count {opcode : UInt8} {s t : EvalState} (hs : s.Fits)
    (h : countOp opcode s = some t) : t.Fits := by
  obtain ⟨rfl, hcount⟩ := countOp_eq_some h
  refine ⟨hs.stack, hs.altstack, ?_, le_trans hs.conditions (Nat.le_add_right _ _)⟩
  by_cases hlt : 0x60 < opcode
  · exact hcount hlt
  · simpa [hlt] using hs.opCount

theorem dispatch_eq_some {op : UInt8 × Bytes} {rest : CScript} {s t : EvalState}
    (h : c.dispatch op rest s = some t) :
    (op.1 ≤ 0x4e ∧ t = s.push op.2) ∨ (s.fExec = false ∧ t = s) ∨
      ∃ found, opTable.lookup op.1 = some found ∧ c.evalOp found rest s = some t := by
  unfold dispatch at h
  split at h
  case isTrue hpush =>
    cases h
    exact .inl ⟨hpush.2, rfl⟩
  case isFalse =>
    split at h
    case isTrue => exact .inr (.inr (Option.bind_eq_some_iff.mp h))
    case isFalse hskip =>
      cases h
      exact .inr (.inl ⟨by simpa using fun hexec => hskip (.inl hexec), rfl⟩)

theorem withinLimits_step {i : (UInt8 × Bytes) × CScript} {s t : EvalState}
    (h : c.step i s = some t) (hs : s.WithinLimits) : t.WithinLimits := by
  obtain ⟨hdata, counted, hcount, hdispatch, helements⟩ := step_eq_some h
  have hcounted : counted.Fits := Fits.count hs.fits hcount
  have ht : t.Fits := by
    rcases dispatch_eq_some hdispatch with ⟨-, rfl⟩ | ⟨-, rfl⟩ | ⟨op, hlookup, hop⟩
    · exact hcounted.setStack (fitElements_cons.mpr ⟨hdata, hcounted.stack⟩)
    · exact hcounted
    · obtain ⟨rfl, -⟩ := countOp_eq_some hcount
      apply fits_evalOp hop hcounted (le_trans (Nat.le_add_right _ _) hs.elements)
      intro notIf hnotIf
      have hlt := counted_of_lookup hlookup (by simp [hnotIf])
      simpa [hlt] using hs.conditions
  exact ⟨ht.stack, ht.altstack, helements, ht.opCount, ht.conditions⟩

end Step

section Checks

/-- The turns of the loop of `OP_CHECKMULTISIG`. -/
def multiSigTries (check : Bytes → Bytes → Bool) : List Bytes → List Bytes → ℕ
  | [], _ => 0
  | _ :: _, [] => 0
  | vchSig :: sigs, vchPubKey :: keys =>
    let sigs' := if check vchSig vchPubKey then sigs else vchSig :: sigs
    1 + if keys.length < sigs'.length then 0 else multiSigTries check sigs' keys

variable (c) in
/-- The signatures that an operation checks when it is executed. -/
def opChecks : Op → EvalState → ℕ
  | .checkSig _, s => if 2 ≤ s.stack.length then 1 else 0
  | .checkMultiSig _, s =>
    match multiSigOperands s.stack with
    | none => 0
    | some operands =>
      if 201 < s.nOpCount + operands.1.length then 0
      else
        multiSigTries (c.checkCanonicalSig (operands.2.1.foldl CScript.findAndDelete s.codeHash))
          operands.2.1 operands.1
  | _, _ => 0

variable (c) in
/-- The signatures that one turn of the loop of `EvalScript` checks. -/
def sigChecks (i : (UInt8 × Bytes) × CScript) (s : EvalState) : ℕ :=
  match countOp i.1.1 s with
  | none => 0
  | some s =>
    if s.fExec then
      match opTable.lookup i.1.1 with
      | none => 0
      | some op => c.opChecks op s
    else 0

variable (c) in
/-- The signatures that a run checks, up to its end or to the operation that fails. -/
def totalChecks : List ((UInt8 × Bytes) × CScript) → EvalState → ℕ
  | [], _ => 0
  | i :: prog, s =>
    c.sigChecks i s +
      match c.step i s with
      | none => 0
      | some t => totalChecks prog t

theorem multiSigTries_le (check : Bytes → Bytes → Bool) (sigs keys : List Bytes) :
    multiSigTries check sigs keys ≤ keys.length := by
  induction keys generalizing sigs with
  | nil => cases sigs <;> simp [multiSigTries]
  | cons vchPubKey keys ih =>
    cases sigs with
    | nil => simp [multiSigTries]
    | cons vchSig sigs =>
      have hrest := ih (if check vchSig vchPubKey then sigs else vchSig :: sigs)
      rw [multiSigTries, List.length_cons]
      generalize (if check vchSig vchPubKey then sigs else vchSig :: sigs) = sigs' at hrest ⊢
      split <;> omega

theorem nOpCount_pushResult {s t : EvalState} {verify fSuccess : Bool} {stack : List Bytes}
    (h : s.pushResult verify fSuccess stack = some t) : t.nOpCount = s.nOpCount := by
  unfold EvalState.pushResult at h
  split at h
  · split at h
    · cases h
      rfl
    · cases h
  · cases h
    rfl

/-- `OP_CHECKMULTISIG` counts its keys, each of which is tried once at most. -/
theorem opChecks_le {op : Op} {s : EvalState} (hs : s.nOpCount ≤ 201) :
    s.nOpCount + c.opChecks op s ≤ 202 := by
  cases op with
  | checkSig verify =>
    rw [opChecks]
    split <;> omega
  | checkMultiSig verify =>
    rw [opChecks]
    split
    case h_1 => omega
    case h_2 operands _ =>
      have htries := multiSigTries_le
        (c.checkCanonicalSig (operands.2.1.foldl CScript.findAndDelete s.codeHash))
        operands.2.1 operands.1
      split <;> omega
  | _ =>
    simp only [opChecks]
    omega

theorem opChecks_evalOp {op : Op} {rest : CScript} {s t : EvalState}
    (h : c.evalOp op rest s = some t) : s.nOpCount + (c.opChecks op s - 1) ≤ t.nOpCount := by
  cases op with
  | nop => cases h; simp [opChecks]
  | if_ notIf =>
    simp only [evalOp, evalIf] at h
    split at h
    · split at h <;> cases h
      simp [opChecks]
    · cases h
      simp [opChecks]
  | else_ => simp only [evalOp] at h; split at h <;> cases h; simp [opChecks]
  | endIf => simp only [evalOp] at h; split at h <;> cases h; simp [opChecks]
  | return_ => cases h
  | toAltStack => simp only [evalOp] at h; split at h <;> cases h; simp [opChecks]
  | fromAltStack => simp only [evalOp] at h; split at h <;> cases h; simp [opChecks]
  | stack op =>
    obtain ⟨stack, -, rfl⟩ := Option.map_eq_some_iff.mp h
    simp [opChecks, EvalState.setStack]
  | codeSeparator => cases h; simp [opChecks]
  | checkSig verify =>
    simp only [evalOp, evalCheckSig] at h
    split at h
    · rw [nOpCount_pushResult h, opChecks]
      split <;> omega
    · cases h
  | checkMultiSig verify =>
    obtain ⟨operands, hoperands, h⟩ := Option.bind_eq_some_iff.mp h
    have htries := multiSigTries_le
      (c.checkCanonicalSig (operands.2.1.foldl CScript.findAndDelete s.codeHash))
      operands.2.1 operands.1
    dsimp only at h
    split at h
    case isTrue => cases h
    case isFalse hcount =>
      rw [nOpCount_pushResult h]
      simp only [opChecks, hoperands, hcount, if_false]
      omega

theorem opChecks_of_not_counted {opcode : UInt8} {op : Op} {s : EvalState}
    (h : opTable.lookup opcode = some op) (hcount : ¬ 0x60 < opcode) : c.opChecks op s = 0 := by
  cases op with
  | checkSig verify => exact absurd (counted_of_lookup h (by simp)) hcount
  | checkMultiSig verify => exact absurd (counted_of_lookup h (by simp)) hcount
  | _ => rfl

theorem sigChecks_eq {i : (UInt8 × Bytes) × CScript} {s counted : EvalState}
    (hcount : countOp i.1.1 s = some counted) :
    c.sigChecks i s = 0 ∨ (counted.fExec = true ∧ 0x60 < i.1.1 ∧
      ∃ op, opTable.lookup i.1.1 = some op ∧ c.sigChecks i s = c.opChecks op counted) := by
  simp only [sigChecks, hcount]
  split
  case isFalse => exact .inl rfl
  case isTrue hexec =>
    cases hlookup : opTable.lookup i.1.1 with
    | none => exact .inl rfl
    | some op =>
      by_cases hlt : 0x60 < i.1.1
      · exact .inr ⟨hexec, hlt, op, rfl, rfl⟩
      · exact .inl (opChecks_of_not_counted hlookup hlt)

/-- Every check of a signature is paid for by the counter of operations. -/
theorem sigChecks_le {i : (UInt8 × Bytes) × CScript} {s : EvalState} (hs : s.nOpCount ≤ 201) :
    s.nOpCount + c.sigChecks i s ≤ 201 := by
  cases hcount : countOp i.1.1 s with
  | none => simpa [sigChecks, hcount] using hs
  | some counted =>
    obtain ⟨hcounted, hle⟩ := countOp_eq_some hcount
    rcases sigChecks_eq (c := c) hcount with hzero | ⟨-, hlt, op, -, heq⟩
    · omega
    · have hn : counted.nOpCount = s.nOpCount + 1 := by simp [hcounted, hlt]
      have : counted.nOpCount + c.opChecks op counted ≤ 202 := opChecks_le (hle hlt)
      omega

theorem sigChecks_step {i : (UInt8 × Bytes) × CScript} {s t : EvalState}
    (h : c.step i s = some t) : s.nOpCount + c.sigChecks i s ≤ t.nOpCount := by
  obtain ⟨-, counted, hcount, hdispatch, -⟩ := step_eq_some h
  obtain ⟨hcounted, -⟩ := countOp_eq_some hcount
  have hle : s.nOpCount ≤ counted.nOpCount := by simp [hcounted]
  rcases dispatch_eq_some hdispatch with ⟨hpush, rfl⟩ | ⟨hskip, rfl⟩ | ⟨op, hlookup, hop⟩
  · rcases sigChecks_eq (c := c) hcount with hzero | ⟨-, hlt, -⟩
    · rw [hzero]
      exact hle
    · simp only [UInt8.le_iff_toNat_le, UInt8.lt_iff_toNat_lt, UInt8.reduceToNat] at hpush hlt
      omega
  · rcases sigChecks_eq (c := c) hcount with hzero | ⟨hexec, -⟩
    · simpa [hzero] using hle
    · rw [hskip] at hexec
      cases hexec
  · have hop' := opChecks_evalOp hop
    rcases sigChecks_eq (c := c) hcount with hzero | ⟨-, hlt, op', hlookup', heq⟩
    · omega
    · rw [hlookup, Option.some.injEq] at hlookup'
      subst hlookup'
      have hn : counted.nOpCount = s.nOpCount + 1 := by simp [hcounted, hlt]
      omega

theorem totalChecks_le {prog : List ((UInt8 × Bytes) × CScript)} {s : EvalState}
    (hs : s.WithinLimits) : s.nOpCount + c.totalChecks prog s ≤ 201 := by
  induction prog generalizing s with
  | nil => simpa [totalChecks] using hs.opCount
  | cons i prog ih =>
    have hnow := sigChecks_le (c := c) (i := i) hs.opCount
    rw [totalChecks]
    cases hstep : c.step i s with
    | none => simpa using hnow
    | some t =>
      have hpaid := sigChecks_step hstep
      have hrest := ih (withinLimits_step hstep hs)
      dsimp only
      omega

end Checks

section Verify

/-- The states that the executions of `VerifyScript` come through: those of the input's
script, of the output's script, and of the script that was paid to. -/
inductive Visited (c : ScriptContext) (scriptSig scriptPubKey : CScript) : EvalState → Prop
  | input {t : EvalState} (h : Passes c.step scriptSig.instructions (initialState [] scriptSig) t) :
    Visited c scriptSig scriptPubKey t
  | output {stack : List Bytes} {t : EvalState} (hsig : c.evalScript [] scriptSig = some stack)
    (h : Passes c.step scriptPubKey.instructions (initialState stack scriptPubKey) t) :
    Visited c scriptSig scriptPubKey t
  | subscript {pubKey2 : Bytes} {stackCopy : List Bytes} {t : EvalState}
    (hsig : c.evalScript [] scriptSig = some (pubKey2 :: stackCopy))
    (h : Passes c.step (CScript.instructions pubKey2) (initialState stackCopy pubKey2) t) :
    Visited c scriptSig scriptPubKey t

/-- A stack on which a script may be started. -/
def StackFits (stack : List Bytes) : Prop := FitElements stack ∧ stack.length ≤ 1000

theorem withinLimits_initial {stack : List Bytes} {script : CScript} (h : StackFits stack) :
    (initialState stack script).WithinLimits :=
  ⟨h.1, fitElements_nil, by simpa [initialState] using h.2, by simp [initialState],
    by simp [initialState]⟩

theorem withinLimits_passes {stack : List Bytes} {script : CScript} {t : EvalState}
    (hstack : StackFits stack)
    (h : Passes c.step script.instructions (initialState stack script) t) : t.WithinLimits :=
  h.invariant (fun _ _ _ _ hs ht => withinLimits_step ht hs) (withinLimits_initial hstack)

theorem stackFits_evalScript {stack stack' : List Bytes} {script : CScript}
    (hstack : StackFits stack) (h : c.evalScript stack script = some stack') :
    StackFits stack' := by
  obtain ⟨-, -, t, ht, -, rfl⟩ := evalScript_eq_some.mp h
  have hpass : Passes c.step script.instructions (initialState stack script) t :=
    ⟨_, List.prefix_rfl, ht⟩
  have hlimits := withinLimits_passes hstack hpass
  exact ⟨hlimits.stack, le_trans (Nat.le_add_right _ _) hlimits.elements⟩

/-- Whatever scripts are verified, and under whatever flags, every state that the execution of
one of them comes through is within the limits, and from there on this script checks no more
signatures than its counter of operations leaves. The next script has its own counter. -/
theorem visited_withinLimits (c : ScriptContext) (scriptSig scriptPubKey : CScript)
    (t : EvalState) (h : Visited c scriptSig scriptPubKey t) :
    t.WithinLimits ∧
      ∀ prog : List ((UInt8 × Bytes) × CScript), t.nOpCount + c.totalChecks prog t ≤ 201 := by
  have hempty : StackFits [] := ⟨fitElements_nil, by simp⟩
  have ht : t.WithinLimits := by
    cases h with
    | input h => exact withinLimits_passes hempty h
    | output hsig h => exact withinLimits_passes (stackFits_evalScript hempty hsig) h
    | subscript hsig h =>
      obtain ⟨helements, hlen⟩ := stackFits_evalScript hempty hsig
      apply withinLimits_passes ⟨(fitElements_cons.mp helements).2, ?_⟩ h
      simp only [List.length_cons] at hlen
      omega
  exact ⟨ht, fun prog => totalChecks_le ht⟩

end Verify

end ScriptContext

namespace SmallScript
open ScriptContext

def context : ScriptContext where
  digests := ⟨⟨fun _ => 0, fun _ => 0⟩, fun _ => 0, fun _ => 0, fun _ => 0⟩
  scheme := ⟨fun key _ _ => key.bytes.headD 0 = 2⟩
  flags := ⟨true, true, false, false⟩
  txTo := ⟨1, [⟨⟨7, 0⟩, [], 0⟩], [⟨5, []⟩], 0, 0⟩
  nIn := 0
  nHashType := 0

/-- A signature and a key are on the stack, and one operation is counted: the output's script
stands before its `OP_CHECKSIG`. -/
def halfway : EvalState :=
  ⟨[2 :: List.replicate 32 0, [0x30, 6, 2, 1, 1, 2, 1, 1, 1]], [], [], 1, [0x61, 0xac]⟩

theorem withinLimits_halfway :
    halfway.WithinLimits ∧ context.totalChecks [((0xac, []), [])] halfway = 1 ∧
      ∀ prog : List ((UInt8 × Bytes) × CScript), 1 + context.totalChecks prog halfway ≤ 201 := by
  have hsig : context.evalScript [] (9 :: [0x30, 6, 2, 1, 1, 2, 1, 1, 1] ++ 33 :: 2 ::
      List.replicate 32 0) = some halfway.stack := by decide +kernel
  have hvisited : Visited context _ [0x61, 0xac] halfway :=
    .output hsig ⟨[((0x61, []), [0xac])], ⟨[((0xac, []), [])], rfl⟩, rfl⟩
  obtain ⟨hlimits, hchecks⟩ := context.visited_withinLimits _ _ halfway hvisited
  exact ⟨hlimits, by decide +kernel, hchecks⟩

end SmallScript

end Dims
