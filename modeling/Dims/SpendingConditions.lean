import Dims.ScriptRules
import Dims.ScriptLimits

/-!
# What it takes to spend an output

The conditions under which `VerifyScript` accepts the scripts of the standard outputs, for
any script of the input. What the input's script computes is open; the output's script
looks at the top of the stack that it leaves.
-/

namespace Dims
open ByteCodec TokenStream WeakestPre

namespace ScriptContext
open CScript

variable {c : ScriptContext}

section Verify

theorem topIsTrue_vchBool (fValue : Bool) (stack : List Bytes) :
    topIsTrue (vchBool fValue :: stack) = fValue := castToBool_vchBool fValue

/-- Both scripts succeed one after the other and leave what counts as true; under
`SCRIPT_VERIFY_P2SH` the script that was paid to does, too. -/
theorem verifyScript_iff {scriptSig scriptPubKey : CScript} :
    c.verifyScript scriptSig scriptPubKey = true ↔
      ∃ stack stack', c.evalScript [] scriptSig = some stack ∧
        c.evalScript stack scriptPubKey = some stack' ∧ topIsTrue stack' = true ∧
          (c.flags.p2sh = true → scriptPubKey.isPayToScriptHash = true →
            c.verifySubscript scriptSig stack = true) := by
  unfold verifyScript
  cases hsig : c.evalScript [] scriptSig with
  | none => simp
  | some stack =>
    cases hkey : c.evalScript stack scriptPubKey with
    | none => simp [hkey]
    | some stack' =>
      simp only [hkey, Option.some.injEq, exists_eq_left', exists_and_left]
      grind

theorem parses_of_verifyScript {scriptSig scriptPubKey : CScript}
    (h : c.verifyScript scriptSig scriptPubKey = true) : scriptSig.parses = true := by
  obtain ⟨stack, -, hsig, -⟩ := verifyScript_iff.mp h
  exact (evalScript_eq_some.mp hsig).2.1

end Verify

section KeyHash

@[simp] theorem verifyTop_vchBool (fValue : Bool) (stack : List Bytes) :
    StackOp.verifyTop (vchBool fValue :: stack) = if fValue then some stack else none := by
  simp [StackOp.verifyTop]

theorem hash160_eval_eq_iff {vch : Bytes} {h : Uint160} :
    HashOp.hash160.eval c.digests vch = leBytes 20 h.toNat ↔ c.digests.hash160 vch = h := by
  constructor
  · intro heq
    have hlt : (c.digests.hash160 vch).toNat < 256 ^ 20 := (c.digests.hash160 vch).isLt
    have hlt' : h.toNat < 256 ^ 20 := h.isLt
    have hvalue := congrArg leValue heq
    rw [HashOp.eval, uint160Bytes, leValue_leBytes_of_lt hlt, leValue_leBytes_of_lt hlt'] at hvalue
    exact BitVec.eq_of_toNat_eq hvalue
  · rintro rfl
    rfl

theorem instructions_setDestination (keyId : CKeyID) :
    (setDestination keyId).instructions =
      [((0x76, []), 0xa9 :: 0x14 :: (leBytes 20 keyId.toNat ++ [0x88, 0xac])),
        ((0xa9, []), 0x14 :: (leBytes 20 keyId.toNat ++ [0x88, 0xac])),
        ((0x14, leBytes 20 keyId.toNat), [0x88, 0xac]), ((0x88, []), [0xac]),
        ((0xac, []), [])] := by
  rw [instructions_of_getOp (getOp_setDestination keyId),
    instructions_of_getOp (getOp_hash160 _), instructions_of_getOp (getOp_keyId keyId)]
  rfl

/-- The script that pays to a key takes a key of the hash and below it a signature. -/
theorem evalScript_setDestination {keyId : CKeyID} {stack stack' : List Bytes} :
    c.evalScript stack (setDestination keyId) = some stack' ↔
      ∃ vchPubKey vchSig below, stack = vchPubKey :: vchSig :: below ∧
        below.length ≤ 996 ∧ c.digests.hash160 vchPubKey = keyId ∧
        vchBool (c.checkCanonicalSig ((setDestination keyId).findAndDelete vchSig)
          vchSig vchPubKey) :: below = stack' := by
  have hlength : (setDestination keyId).length ≤ 10000 := by simp [setDestination]
  have hdup : opTable.lookup 0x76 = some (.stack .dup) := rfl
  have hhash : opTable.lookup 0xa9 = some (.stack (.digest .hash160)) := rfl
  have hequal : opTable.lookup 0x88 = some (.stack .equalVerify) := rfl
  rw [evalScript_eq_some, instructions_setDestination]
  simp only [hlength, parses_setDestination, true_and]
  rw [show initialState stack (setDestination keyId) = plain stack 0 (setDestination keyId) from rfl,
    wp_stackOp hdup (by decide) (by decide)]
  cases stack with
  | nil => simp [StackOp.eval]
  | cons vchPubKey stack =>
    simp only [StackOp.eval, Option.some.injEq, exists_eq_left']
    rw [wp_stackOp hhash (by decide) (by decide)]
    simp only [StackOp.eval, Option.some.injEq, exists_eq_left']
    rw [wp_push_plain (by decide), wp_stackOp hequal (by decide) (by decide)]
    simp only [StackOp.eval, verifyTop_vchBool, decide_eq_true_eq, hash160_eval_eq_iff,
      Option.ite_none_right_eq_some, Option.some.injEq, and_assoc, exists_and_left,
      exists_eq_left', wp_checkSig, wp_nil, List.length_cons, length_leBytes]
    constructor
    · rintro ⟨-, -, -, -, -, hlimit, -, hhash, -, -, _, vchSig, below, heq, -, -, hresult⟩
      cases heq
      simp only [List.length_cons] at hlimit
      exact ⟨vchPubKey, vchSig, below, rfl, by omega, hhash, hresult⟩
    · rintro ⟨_, vchSig, below, heq, hlimit, hhash, hresult⟩
      cases heq
      simp only [List.length_cons]
      exact ⟨by omega, by omega, by omega, by omega, by omega, by omega, by omega, hhash,
        by omega, by omega, vchPubKey, vchSig, below, rfl, by omega, rfl, hresult⟩

theorem isPayToScriptHash_setDestination (keyId : CKeyID) :
    (setDestination keyId).isPayToScriptHash = false := by
  have hlength : (setDestination keyId).length = 25 := by simp [setDestination]
  simp [isPayToScriptHash, hlength]

/-- An output that pays to the hash of a key is spent exactly by a script that leaves a key
of this hash and below it a signature of this input by the key. -/
theorem verifyScript_setDestination (c : ScriptContext) (scriptSig : CScript) (keyId : CKeyID) :
    c.verifyScript scriptSig (setDestination keyId) = true ↔
      ∃ vchPubKey vchSig below,
        c.evalScript [] scriptSig = some (vchPubKey :: vchSig :: below) ∧ below.length ≤ 996 ∧
          c.digests.hash160 vchPubKey = keyId ∧
            c.checkCanonicalSig ((setDestination keyId).findAndDelete vchSig) vchSig vchPubKey =
              true := by
  simp only [verifyScript_iff, isPayToScriptHash_setDestination, Bool.false_eq_true, false_implies,
    implies_true, and_true]
  constructor
  · rintro ⟨stack, stack', hsig, hkey, htop⟩
    obtain ⟨vchPubKey, vchSig, below, rfl, hlimit, hhash, rfl⟩ := evalScript_setDestination.mp hkey
    rw [topIsTrue_vchBool] at htop
    exact ⟨vchPubKey, vchSig, below, hsig, hlimit, hhash, htop⟩
  · rintro ⟨vchPubKey, vchSig, below, hsig, hlimit, hhash, hcheck⟩
    refine ⟨_, _, hsig, evalScript_setDestination.mpr
      ⟨vchPubKey, vchSig, below, rfl, hlimit, hhash, rfl⟩, ?_⟩
    rw [topIsTrue_vchBool, hcheck]

end KeyHash

section MultiSig

/-- `EncodeOP_N` -/
def encodeOpN (n : ℕ) : UInt8 := if n = 0 then 0 else UInt8.ofNat (0x50 + n)

/-- `SetMultisig` -/
def setMultisig (nRequired : ℕ) (keys : List Bytes) : CScript :=
  encodeOpN nRequired :: (pushAll keys ++ [encodeOpN keys.length, 0xae])

theorem wp_encodeOpN {n nOpCount : ℕ} {prog : List ((UInt8 × Bytes) × CScript)} {rest codeHash : CScript}
    {stack : List Bytes} {Q : EvalState → Prop} (hn : 1 ≤ n ∧ n ≤ 16) :
    Wp c.step (((encodeOpN n, []), rest) :: prog) Q (plain stack nOpCount codeHash) ↔
      stack.length + 1 ≤ 1000 ∧
        Wp c.step prog Q (plain (CBigNum.getvch n :: stack) nOpCount codeHash) := by
  have hall : ∀ k ∈ List.range' 1 16, opTable.lookup (encodeOpN k) = some (.stack (.number (encodeOpN k))) ∧
      ¬ encodeOpN k ≤ 0x4e ∧ ¬ 0x60 < encodeOpN k ∧ disabledOpcodes.contains (encodeOpN k) = false ∧
        (encodeOpN k).toNat = 0x50 + k := by decide
  obtain ⟨hlookup, hpush, hcount, hdis, hvalue⟩ := hall n (by simp; omega)
  have hnumber : ((encodeOpN n).toNat : ℤ) - 0x50 = n := by omega
  rw [wp_number hlookup hpush hcount hdis, hnumber]

theorem readCount_getvch {n max : ℕ} (hn : n ≤ max) (hmax : max ≤ 20) :
    readCount max (CBigNum.getvch n) = some n := by
  have hlen : (CBigNum.getvch (n : ℤ)).length ≤ 4 :=
    CBigNum.length_getvch_le (by simp only [Int.natAbs_natCast]; omega)
  have hcast : castToBigNum (CBigNum.getvch (n : ℤ)) = some (n : ℤ) :=
    castToBigNum_eq_some.mpr ⟨hlen, CBigNum.setvch_getvch n⟩
  rw [readCount, hcast, Option.bind_some, getint_of_castToBigNum hcast, if_neg (by omega)]
  simp

theorem length_pushAll_le {values : List Bytes} (h : ∀ vch ∈ values, vch.length < 0x4c) :
    (pushAll values).length ≤ 76 * values.length := by
  induction values with
  | nil => simp [pushAll]
  | cons vch values ih =>
    have hvch := h vch List.mem_cons_self
    have hrest := ih fun vch' hvch' => h vch' (List.mem_cons_of_mem vch hvch')
    have hpush : (push vch).length = vch.length + 1 := by simp [push, pushHeader, hvch]
    simp only [pushAll, List.flatMap_cons, List.length_append, List.length_cons] at hrest ⊢
    omega

/-- What `OP_CHECKMULTISIG` finds after the script of such an output. -/
theorem multiSigOperands_eq_some {nRequired : ℕ} {keys stack : List Bytes}
    {operands : List Bytes × List Bytes × List Bytes} (hreq : nRequired ≤ keys.length)
    (hkeys : keys.length ≤ 20) :
    multiSigOperands (CBigNum.getvch keys.length :: (keys ++ CBigNum.getvch nRequired :: stack)) =
        some operands ↔
      nRequired + 1 ≤ stack.length ∧
        operands = (keys, stack.take nRequired, stack.drop (nRequired + 1)) := by
  have hat : (CBigNum.getvch keys.length ::
      (keys ++ CBigNum.getvch nRequired :: stack))[1 + keys.length]? =
        some (CBigNum.getvch (nRequired : ℤ)) := by
    rw [Nat.add_comm, List.getElem?_cons_succ, List.getElem?_append_right (Nat.le_refl _)]
    simp
  have hbelow : (CBigNum.getvch keys.length :: (keys ++ CBigNum.getvch nRequired :: stack)).drop
      (2 + keys.length) = stack := by
    rw [show CBigNum.getvch keys.length :: (keys ++ CBigNum.getvch (nRequired : ℤ) :: stack) =
      (CBigNum.getvch keys.length :: (keys ++ [CBigNum.getvch (nRequired : ℤ)])) ++ stack by simp]
    apply List.drop_left'
    simp only [List.length_cons, List.length_append, List.length_nil]
    omega
  have hrest : (CBigNum.getvch keys.length :: (keys ++ CBigNum.getvch nRequired :: stack)).drop
      (3 + keys.length + nRequired) = stack.drop (nRequired + 1) := by
    rw [show 3 + keys.length + nRequired = 2 + keys.length + (nRequired + 1) by omega,
      ← List.drop_drop, hbelow]
  simp only [multiSigOperands, List.head?_cons, Option.bind_some,
    readCount_getvch hkeys (Nat.le_refl 20), hat, readCount_getvch hreq hkeys, hbelow, hrest,
    List.drop_succ_cons, List.drop_zero, List.take_left, List.length_cons, List.length_append]
  split
  case isTrue hshort =>
    simp only [reduceCtorEq, false_iff, not_and]
    omega
  case isFalse hlong =>
    rw [Option.some.injEq, eq_comm]
    exact ⟨fun h => ⟨by omega, h⟩, fun h => h.2⟩

theorem instructions_setMultisig_nil (nKeys : ℕ) (hn : 1 ≤ nKeys ∧ nKeys ≤ 16) :
    instructions [encodeOpN nKeys, 0xae] = [((encodeOpN nKeys, []), [0xae]), ((0xae, []), [])] := by
  have hall : ∀ k ∈ List.range' 1 16, instructions [encodeOpN k, 0xae] =
      [((encodeOpN k, []), [0xae]), ((0xae, []), [])] := by decide
  exact hall nKeys (by simp; omega)

/-- The script that pays to several keys takes a signature for each key that is required,
in the order of the keys, and one element more. -/
theorem evalScript_setMultisig {nRequired : ℕ} {keys stack stack' : List Bytes}
    (hreq : 1 ≤ nRequired ∧ nRequired ≤ keys.length) (hkeys : keys.length ≤ 16)
    (hsize : ∀ vch ∈ keys, vch.length < 0x4c) :
    c.evalScript stack (setMultisig nRequired keys) = some stack' ↔
      nRequired + 1 ≤ stack.length ∧ stack.length + keys.length ≤ 998 ∧
        vchBool (multiSigLoop
            (c.checkCanonicalSig
              ((stack.take nRequired).foldl findAndDelete (setMultisig nRequired keys)))
            (stack.take nRequired) keys.reverse) :: stack.drop (nRequired + 1) = stack' := by
  have hsmall : ∀ vch ∈ keys, vch.length < 2 ^ 32 := fun vch hvch =>
    lt_trans (hsize vch hvch) (by omega)
  have hfit : ∀ vch ∈ keys, vch.length ≤ 520 := fun vch hvch => by
    have := hsize vch hvch
    omega
  have hopcode : ∀ k ∈ List.range' 1 16, ¬ encodeOpN k ≤ 0x4e := by decide
  have hlength : (setMultisig nRequired keys).length ≤ 10000 := by
    have := length_pushAll_le hsize
    simp only [setMultisig, List.length_cons, List.length_append, List.length_nil]
    omega
  have hfirst : getOp (setMultisig nRequired keys) =
      some ((encodeOpN nRequired, []), pushAll keys ++ [encodeOpN keys.length, 0xae]) :=
    getOp_of_lt (hopcode nRequired (by simp; omega)) _
  have hparses : (setMultisig nRequired keys).parses = true := by
    have hlast : ∀ k ∈ List.range' 1 16, parses [encodeOpN k, 0xae] = true := by decide
    rw [parses_of_getOp hfirst, parses_pushAll hsmall, hlast keys.length (by simp; omega)]
  rw [evalScript_eq_some, instructions_of_getOp hfirst]
  simp only [hlength, hparses, true_and]
  rw [show initialState stack (setMultisig nRequired keys) =
      plain stack 0 (setMultisig nRequired keys) from rfl,
    wp_encodeOpN (by omega), wp_pushAll hsmall, instructions_setMultisig_nil _ (by omega),
    wp_encodeOpN (by omega), wp_checkMultiSig]
  have hoperands : ∀ operands, multiSigOperands
      (CBigNum.getvch keys.length :: (keys.reverse ++ CBigNum.getvch nRequired :: stack)) = some operands ↔
        nRequired + 1 ≤ stack.length ∧
          operands = (keys.reverse, stack.take nRequired, stack.drop (nRequired + 1)) := by
    intro operands
    have hreq' : nRequired ≤ keys.reverse.length := by simpa using hreq.2
    have := @multiSigOperands_eq_some nRequired keys.reverse stack operands hreq' (by simp; omega)
    simpa using this
  have hlen : (keys.reverse ++ CBigNum.getvch (nRequired : ℤ) :: stack).length =
      keys.length + (stack.length + 1) := by simp
  constructor
  · rintro ⟨-, -, -, hlimit, -, operands, hfound, -, -, hwp⟩
    obtain ⟨hstack, rfl⟩ := (hoperands operands).mp hfound
    exact ⟨hstack, by omega, (wp_nil.mp hwp).2⟩
  · rintro ⟨hstack, hlimit, hresult⟩
    refine ⟨by omega, hfit, fun _ => by simp only [List.length_cons]; omega, by omega, by omega, _,
      (hoperands _).mpr ⟨hstack, rfl⟩, ?_, ?_, wp_nil.mpr ⟨rfl, hresult⟩⟩
    · simp only [List.length_reverse]
      omega
    · simp only [List.length_drop]
      omega

theorem isPayToScriptHash_setMultisig (nRequired : ℕ) (keys : List Bytes) :
    (setMultisig nRequired keys).isPayToScriptHash = false := by
  by_contra h
  simp only [isPayToScriptHash, Bool.not_eq_false, decide_eq_true_eq] at h
  have hlast : (setMultisig nRequired keys)[(setMultisig nRequired keys).length - 1]? = some 0xae := by
    rw [← List.getLast?_eq_getElem?]
    simp [setMultisig, List.getLast?_cons]
  rw [h.1, h.2.2.2] at hlast
  exact absurd hlast (by decide)

/-- An output that pays to several keys is spent exactly by a script that leaves on top of
one element more the signatures that are required, each by a key of its own and in the
order of the keys. -/
theorem verifyScript_setMultisig (c : ScriptContext) (scriptSig : CScript) (nRequired : ℕ)
    (keys : List Bytes) (hreq : 1 ≤ nRequired ∧ nRequired ≤ keys.length) (hkeys : keys.length ≤ 16)
    (hsize : ∀ vch ∈ keys, vch.length < 0x4c) :
    c.verifyScript scriptSig (setMultisig nRequired keys) = true ↔
      ∃ sigs dummy below, c.evalScript [] scriptSig = some (sigs ++ dummy :: below) ∧
        sigs.length = nRequired ∧ nRequired + below.length + keys.length ≤ 997 ∧
          List.SublistForall₂
            (fun vchSig vchPubKey => c.checkCanonicalSig
              (sigs.foldl findAndDelete (setMultisig nRequired keys)) vchSig vchPubKey = true)
            sigs keys.reverse := by
  simp only [verifyScript_iff, isPayToScriptHash_setMultisig, Bool.false_eq_true, false_implies,
    implies_true, and_true]
  constructor
  · rintro ⟨stack, stack', hsig, hkey, htop⟩
    obtain ⟨hstack, hlimit, rfl⟩ := (evalScript_setMultisig hreq hkeys hsize).mp hkey
    rw [topIsTrue_vchBool, multiSigLoop, GreedyMatching.greedy_iff] at htop
    have hdrop : stack.drop nRequired = stack[nRequired] :: stack.drop (nRequired + 1) :=
      List.drop_eq_getElem_cons (by omega)
    refine ⟨stack.take nRequired, stack[nRequired], stack.drop (nRequired + 1), ?_, ?_, ?_, htop⟩
    · rw [← hdrop, List.take_append_drop, hsig]
    · simp only [List.length_take]
      omega
    · simp only [List.length_drop]
      omega
  · rintro ⟨sigs, dummy, below, hsig, hlen, hlimit, hall⟩
    subst hlen
    refine ⟨_, _, hsig, (evalScript_setMultisig hreq hkeys hsize).mpr ⟨?_, ?_, rfl⟩, ?_⟩
    · simp
    · simp only [List.length_append, List.length_cons]
      omega
    · rw [topIsTrue_vchBool, List.take_left, multiSigLoop, GreedyMatching.greedy_iff]
      exact hall

/-- One of two keys has signed. -/
theorem verifyScript_oneOfTwo :
    let keys := [2 :: List.replicate 32 0, 3 :: List.replicate 32 0]
    let vchSig := [0x30, 6, 2, 1, 1, 2, 1, 1, 1]
    SmallScript.context.verifyScript (pushAll [[], vchSig]) (setMultisig 1 keys) = true := by
  apply (verifyScript_setMultisig SmallScript.context _ 1 _ (by decide) (by decide) (by decide)).mpr
  refine ⟨[[0x30, 6, 2, 1, 1, 2, 1, 1, 1]], [], [], by decide +kernel, rfl, by decide, ?_⟩
  exact .cons_right (.cons (by decide +kernel) .nil)

end MultiSig

section ScriptHash

/-- `SetDestination` for the hash of a script. -/
def setScriptDestination (scriptId : Uint160) : CScript :=
  0xa9 :: 0x14 :: (leBytes 20 scriptId.toNat ++ [0x87])

theorem isPayToScriptHash_setScriptDestination (scriptId : Uint160) :
    (setScriptDestination scriptId).isPayToScriptHash = true := by
  have hlast : (setScriptDestination scriptId)[22]? = some 0x87 := by
    rw [setScriptDestination, List.getElem?_cons_succ, List.getElem?_cons_succ,
      List.getElem?_append_right (by simp)]
    simp
  simp only [isPayToScriptHash, hlast]
  simp [setScriptDestination]

theorem getOp_scriptId (scriptId : Uint160) :
    getOp (0x14 :: (leBytes 20 scriptId.toNat ++ [0x87])) =
      some ((0x14, leBytes 20 scriptId.toNat), [0x87]) := by
  have hsize : pushSize 0x14 (leBytes 20 scriptId.toNat ++ [0x87]) =
      some (20, leBytes 20 scriptId.toNat ++ [0x87]) := rfl
  rw [getOp, if_pos (by decide), hsize, Option.bind_some,
    takeBytes_append (length_leBytes 20 scriptId.toNat)]
  rfl

theorem evalScript_setScriptDestination {scriptId : Uint160} {stack stack' : List Bytes} :
    c.evalScript stack (setScriptDestination scriptId) = some stack' ↔
      ∃ vch below, stack = vch :: below ∧ below.length ≤ 998 ∧
        vchBool (c.digests.hash160 vch = scriptId) :: below = stack' := by
  have hlength : (setScriptDestination scriptId).length ≤ 10000 := by simp [setScriptDestination]
  have hhash : opTable.lookup 0xa9 = some (.stack (.digest .hash160)) := rfl
  have hequal : opTable.lookup 0x87 = some (.stack .equal) := rfl
  have hfirst : getOp (setScriptDestination scriptId) =
      some ((0xa9, []), 0x14 :: (leBytes 20 scriptId.toNat ++ [0x87])) := rfl
  have hparses : (setScriptDestination scriptId).parses = true := by
    rw [parses_of_getOp hfirst, parses_of_getOp (getOp_scriptId _)]
    decide
  have hlast : instructions [0x87] = [((0x87, []), [])] := by decide
  rw [evalScript_eq_some, instructions_of_getOp hfirst, instructions_of_getOp (getOp_scriptId _),
    hlast]
  simp only [hlength, hparses, true_and]
  rw [show initialState stack (setScriptDestination scriptId) =
      plain stack 0 (setScriptDestination scriptId) from rfl, wp_stackOp hhash (by decide) (by decide)]
  cases stack with
  | nil => simp [StackOp.eval]
  | cons vch stack =>
    simp only [StackOp.eval, Option.some.injEq, exists_eq_left']
    rw [wp_push_plain (by decide), wp_stackOp hequal (by decide) (by decide)]
    simp only [StackOp.eval, hash160_eval_eq_iff, Option.some.injEq, exists_eq_left', wp_nil,
      List.length_cons, length_leBytes]
    constructor
    · rintro ⟨-, -, -, hlimit, -, -, -, hresult⟩
      exact ⟨vch, stack, rfl, by omega, hresult⟩
    · rintro ⟨_, below, heq, hlimit, hresult⟩
      cases heq
      exact ⟨by omega, by omega, by omega, by omega, by omega, by omega, rfl, hresult⟩

/-- An output that pays to a script is spent exactly by a script that leaves bytes of this
hash. Only under `SCRIPT_VERIFY_P2SH` do these bytes have to be a script that accepts, and the
input to push them. -/
theorem verifyScript_setScriptDestination (c : ScriptContext) (scriptSig : CScript)
    (scriptId : Uint160) :
    c.verifyScript scriptSig (setScriptDestination scriptId) = true ↔
      ∃ vch below, c.evalScript [] scriptSig = some (vch :: below) ∧ below.length ≤ 998 ∧
        c.digests.hash160 vch = scriptId ∧
          (c.flags.p2sh = true → scriptSig.isPushOnly = true ∧
            ∃ stack, c.evalScript below vch = some stack ∧ topIsTrue stack = true) := by
  simp only [verifyScript_iff, isPayToScriptHash_setScriptDestination, true_implies]
  have hsub : ∀ vch below, c.verifySubscript scriptSig (vch :: below) = true ↔
      scriptSig.isPushOnly = true ∧
        ∃ stack, c.evalScript below vch = some stack ∧ topIsTrue stack = true := by
    intro vch below
    simp only [verifySubscript, Bool.and_eq_true]
    cases c.evalScript below vch <;> simp
  constructor
  · rintro ⟨stack, stack', hsig, hkey, htop, hverify⟩
    obtain ⟨vch, below, rfl, hlimit, rfl⟩ := evalScript_setScriptDestination.mp hkey
    rw [topIsTrue_vchBool, decide_eq_true_eq] at htop
    exact ⟨vch, below, hsig, hlimit, htop, fun hflag => (hsub vch below).mp (hverify hflag)⟩
  · rintro ⟨vch, below, hsig, hlimit, hhash, hverify⟩
    refine ⟨_, _, hsig, evalScript_setScriptDestination.mpr ⟨vch, below, rfl, hlimit, rfl⟩, ?_,
      fun hflag => (hsub vch below).mpr (hverify hflag)⟩
    rw [topIsTrue_vchBool, hhash]
    simp

end ScriptHash

end ScriptContext

end Dims
