import Dims.ChargeRegister
import Dims.ValidateTransactions
import Mathlib.Data.List.Infix
import Mathlib.Algebra.BigOperators.Group.List.Basic

/-!
# The check of the fees

A tracker checks the fees of the transactions of its clients before it validates them.
The outputs that were found and the running sum are not reset between the transactions,
and two tests each put a transaction into a list.
-/

namespace Dims
open ByteCodec

/-- The local variables of the constructor of `COriginInitial`. -/
structure FeeCheck where
  txOuts : List CTxOut
  value : UInt32
  validTransactions : List CTransaction
  invalidTransactions : List CTransaction

namespace FeeCheck

variable (H : HashFunctions) (myKeyId : CKeyID) (price : UInt32)

def empty : FeeCheck := ⟨[], 0, [], []⟩

/-- The vector that `findOutputInTransaction` appends to. -/
def foundOutputs (c : FeeCheck) (tx : CTransaction) : List CTxOut :=
  c.txOuts ++ findOutputInTransaction H myKeyId tx.vout

/-- What `findOutputInTransaction` returns. -/
def isFound (c : FeeCheck) (tx : CTransaction) : Bool :=
  (tx.vout.all fun txOut => txOut.scriptPubKey.parses) && !(c.foundOutputs H myKeyId tx).isEmpty

def addValues (value : UInt32) (txOuts : List CTxOut) : UInt32 :=
  txOuts.foldl (fun value txOut => value + UInt32.ofInt txOut.nValue.toInt) value

/-- The comparison with the price, in 64 bits. -/
def isPaid (c : FeeCheck) (tx : CTransaction) : Bool :=
  price.toUInt64 * (UInt64.ofNat tx.vout.length - 2) ≤
    (addValues c.value (c.foundOutputs H myKeyId tx)).toUInt64

def checkFee (c : FeeCheck) (tx : CTransaction) : FeeCheck :=
  let invalidTransactions :=
    if c.isFound H myKeyId tx then c.invalidTransactions else c.invalidTransactions ++ [tx]
  let txOuts := c.foundOutputs H myKeyId tx
  let value := addValues c.value txOuts
  if c.isPaid H myKeyId price tx then
    ⟨txOuts, value, c.validTransactions ++ [tx], invalidTransactions⟩
  else ⟨txOuts, value, c.validTransactions, invalidTransactions ++ [tx]⟩

def checkFees (transactions : List CTransaction) : FeeCheck :=
  transactions.foldl (checkFee H myKeyId price) empty

/-- The action of a tracker whose clients have sent the transactions, before the check. -/
def enterOriginInitial (actionKey : Uint256) (transactions : List CTransaction) :
    CValidateTransactionsAction :=
  let c := checkFees H myKeyId price transactions
  (CValidateTransactionsAction.origin actionKey c.validTransactions).setClientResponses .invalid
    c.invalidTransactions

def paysTo (txOut : CTxOut) : Bool :=
  match solver txOut.scriptPubKey with
  | some (type, solutions) => solutions.any (isSearchedKey H myKeyId type)
  | none => false

def paid (tx : CTransaction) : ℤ :=
  ((tx.vout.filter (paysTo H myKeyId)).map fun txOut => txOut.nValue.toInt).sum

/-- The price of a transaction, which has two outputs free of charge. -/
def fee (tx : CTransaction) : ℤ := price.toNat * (tx.vout.length - 2)

def PaysFee (tx : CTransaction) : Prop := fee price tx ≤ paid H myKeyId tx

instance (tx : CTransaction) : Decidable (PaysFee H myKeyId price tx) :=
  inferInstanceAs (Decidable (fee price tx ≤ paid H myKeyId tx))

/-- The sum that has run up: every transaction adds what was found in it and in those
before it. -/
def carried (transactions : List CTransaction) : ℤ :=
  (transactions.inits.map fun past => (past.map (paid H myKeyId)).sum).sum

/-- A transaction is decided after others: its scripts can be read, an output to the key was
found in it or before, and the two remainders compare as the fee and what was paid for it. -/
structure Decided (past : List CTransaction) (tx : CTransaction) : Prop where
  parses : ∀ txOut ∈ tx.vout, txOut.scriptPubKey.parses
  found : ∃ tx' ∈ past ++ [tx], ∃ txOut ∈ tx'.vout, paysTo H myKeyId txOut
  compares : fee price tx % 2 ^ 64 ≤ carried H myKeyId (past ++ [tx]) % 2 ^ 32 ↔
    PaysFee H myKeyId price tx

section Verdicts

variable {α : Type} {keep : α → Bool} {groups : List (α × List Bool)}

/-- The elements, each as often as it got the verdict. -/
def withVerdict (verdict : Bool) (groups : List (α × List Bool)) : List α :=
  groups.flatMap fun g => (g.2.filter (· = verdict)).map fun _ => g.1

theorem mem_withVerdict {verdict : Bool} {g : α × List Bool} (hg : g ∈ groups)
    (hverdict : verdict ∈ g.2) : g.1 ∈ withVerdict verdict groups :=
  List.mem_flatMap.mpr ⟨g, hg, List.mem_map.mpr
    ⟨verdict, List.mem_filter.mpr ⟨hverdict, decide_eq_true rfl⟩, rfl⟩⟩

theorem length_withVerdict (groups : List (α × List Bool)) :
    (withVerdict true groups).length + (withVerdict false groups).length =
      (groups.map fun g => g.2.length).sum := by
  induction groups with
  | nil => rfl
  | cons g groups ih =>
    have hsplit : (g.2.filter (· = true)).length + (g.2.filter (· = false)).length = g.2.length := by
      have hcount := List.length_eq_length_filter_add (l := g.2) (fun b => b)
      simpa using hcount.symm
    simp only [withVerdict, List.flatMap_cons, List.length_append, List.length_map, List.map_cons,
      List.sum_cons] at ih ⊢
    omega

theorem length_eq_one_of_sum_le {groups : List (α × List Bool)} (hne : ∀ g ∈ groups, g.2 ≠ [])
    (hsum : (groups.map fun g => g.2.length).sum ≤ groups.length) : ∀ g ∈ groups, g.2.length = 1 := by
  induction groups with
  | nil => exact fun g hg => absurd hg List.not_mem_nil
  | cons first groups ih =>
    obtain ⟨hfirst, hrest⟩ := List.forall_mem_cons.mp hne
    have hpos : 0 < first.2.length := List.length_pos_iff.mpr hfirst
    have hge : groups.length ≤ (groups.map fun g => g.2.length).sum := by
      simpa using List.length_le_sum_of_one_le (groups.map fun g => g.2.length) (by
        intro n hn
        obtain ⟨g, hg, rfl⟩ := List.mem_map.mp hn
        exact List.length_pos_iff.mpr (hrest g hg))
    rw [List.map_cons, List.sum_cons, List.length_cons] at hsum
    exact List.forall_mem_cons.mpr ⟨by omega, ih hrest (by omega)⟩

/-- If every element got a verdict, the lists of the verdicts are those of a test if and only
if every element got the verdict of the test, once. -/
theorem withVerdict_eq_filter_iff (hne : ∀ g ∈ groups, g.2 ≠ []) :
    withVerdict true groups = (groups.map Prod.fst).filter keep ∧
      withVerdict false groups = (groups.map Prod.fst).filter (fun x => !keep x) ↔
    ∀ g ∈ groups, g.2 = [keep g.1] := by
  constructor
  · rintro ⟨htrue, hfalse⟩ g hg
    have hsum := length_withVerdict groups
    rw [htrue, hfalse, ← List.length_eq_length_filter_add, List.length_map] at hsum
    obtain ⟨verdict, hverdict⟩ := List.length_eq_one_iff.mp
      (length_eq_one_of_sum_le hne hsum.ge g hg)
    have hmem : verdict ∈ g.2 := by
      rw [hverdict]
      exact List.mem_singleton_self _
    have hlisted := mem_withVerdict hg hmem
    cases verdict with
    | true =>
      rw [htrue] at hlisted
      rw [hverdict, (List.mem_filter.mp hlisted).2]
    | false =>
      rw [hfalse] at hlisted
      have hdropped : keep g.1 = false := by simpa using (List.mem_filter.mp hlisted).2
      rw [hverdict, hdropped]
  · intro h
    induction groups with
    | nil => exact ⟨rfl, rfl⟩
    | cons g groups ih =>
      obtain ⟨hfirst, hrest⟩ := List.forall_mem_cons.mp h
      obtain ⟨htrue, hfalse⟩ := ih (List.forall_mem_cons.mp hne).2 hrest
      simp only [withVerdict, List.flatMap_cons, hfirst, List.map_cons, List.filter_cons] at htrue hfalse ⊢
      rw [htrue, hfalse]
      cases keep g.1 <;> exact ⟨rfl, rfl⟩

end Verdicts

variable {H myKeyId price}

variable (H myKeyId price) in
/-- What becomes of a transaction, in the order of the two tests. -/
def verdicts (c : FeeCheck) (tx : CTransaction) : List Bool :=
  (if c.isFound H myKeyId tx then [] else [false]) ++ [c.isPaid H myKeyId price tx]

variable (H myKeyId price) in
/-- The verdicts on the transactions, each with the sums that it is checked with. -/
def verdictsFrom (c : FeeCheck) : List CTransaction → List (CTransaction × List Bool)
  | [] => []
  | tx :: transactions =>
    (tx, c.verdicts H myKeyId price tx) :: verdictsFrom (c.checkFee H myKeyId price tx) transactions

theorem checkFee_lists (c : FeeCheck) (tx : CTransaction) :
    (c.checkFee H myKeyId price tx).validTransactions = c.validTransactions ++
        withVerdict true [(tx, c.verdicts H myKeyId price tx)] ∧
      (c.checkFee H myKeyId price tx).invalidTransactions = c.invalidTransactions ++
        withVerdict false [(tx, c.verdicts H myKeyId price tx)] := by
  unfold checkFee verdicts withVerdict
  cases c.isFound H myKeyId tx <;> cases c.isPaid H myKeyId price tx <;> simp

theorem foldl_checkFee_lists (transactions : List CTransaction) (c : FeeCheck) :
    (transactions.foldl (checkFee H myKeyId price) c).validTransactions = c.validTransactions ++
        withVerdict true (verdictsFrom H myKeyId price c transactions) ∧
      (transactions.foldl (checkFee H myKeyId price) c).invalidTransactions =
        c.invalidTransactions ++ withVerdict false (verdictsFrom H myKeyId price c transactions) := by
  induction transactions generalizing c with
  | nil => simp [verdictsFrom, withVerdict]
  | cons tx transactions ih =>
    obtain ⟨hvalid, hinvalid⟩ := ih (c.checkFee H myKeyId price tx)
    obtain ⟨hvalid', hinvalid'⟩ := @checkFee_lists H myKeyId price c tx
    rw [List.foldl_cons, hvalid, hinvalid, hvalid', hinvalid', verdictsFrom]
    simp [withVerdict]

theorem map_fst_verdictsFrom (transactions : List CTransaction) (c : FeeCheck) :
    (verdictsFrom H myKeyId price c transactions).map Prod.fst = transactions := by
  induction transactions generalizing c with
  | nil => rfl
  | cons tx transactions ih => rw [verdictsFrom, List.map_cons, ih]

theorem mem_verdictsFrom_iff {transactions : List CTransaction} {c : FeeCheck}
    {g : CTransaction × List Bool} :
    g ∈ verdictsFrom H myKeyId price c transactions ↔ ∃ past tx rest,
      transactions = past ++ tx :: rest ∧
        g = (tx, (past.foldl (checkFee H myKeyId price) c).verdicts H myKeyId price tx) := by
  induction transactions generalizing c with
  | nil => simp [verdictsFrom]
  | cons first transactions ih =>
    rw [verdictsFrom, List.mem_cons, ih]
    constructor
    · rintro (rfl | ⟨past, tx, rest, rfl, rfl⟩)
      · exact ⟨[], first, transactions, rfl, rfl⟩
      · exact ⟨first :: past, tx, rest, rfl, rfl⟩
    · rintro ⟨past, tx, rest, heq, rfl⟩
      cases past with
      | nil =>
        obtain ⟨rfl, rfl⟩ := List.cons.inj heq
        exact .inl rfl
      | cons head past =>
        obtain ⟨rfl, rfl⟩ := List.cons.inj heq
        exact .inr ⟨past, tx, rest, rfl, rfl⟩

theorem matchTemplate_cons_eq_some {opcode2 : UInt8} {template : List UInt8} {script : CScript}
    {solutions found : List Bytes} (hopcode : opcode2 ≠ 0xfb)
    (h : Solver.matchTemplate (opcode2 :: template) script solutions = some found) :
    ∃ op rest next, Solver.matchOp opcode2 op solutions = some next ∧
      Solver.matchTemplate template rest next = some found := by
  rw [Solver.matchTemplate, Option.bind_eq_some_iff] at h
  obtain ⟨⟨op, rest⟩, -, hop⟩ := h
  rw [if_neg hopcode, Option.bind_eq_some_iff] at hop
  obtain ⟨next, hnext, hrest⟩ := hop
  exact ⟨op, rest, next, hnext, hrest⟩

theorem matchOp_plain {opcode2 : UInt8} {op : UInt8 × Bytes} {solutions next : List Bytes}
    (hopcode : opcode2 < 0xf9) (h : Solver.matchOp opcode2 op solutions = some next) :
    next = solutions := by
  have hne : ∀ special : UInt8, 0xf9 ≤ special → opcode2 ≠ special := fun special hle heq =>
    absurd (heq ▸ hopcode) (UInt8.not_lt.mpr hle)
  rw [Solver.matchOp, if_neg (hne 0xfe (by decide)), if_neg (hne 0xfd (by decide)),
    if_neg (hne 0xfa (by decide)), if_neg (hne 0xf9 (by decide))] at h
  split at h
  · exact (Option.some.inj h).symm
  · cases h

theorem matchTemplate_pubkey {script : CScript} {solutions : List Bytes}
    (h : Solver.matchTemplate [0xfe, 0xac] script [] = some solutions) :
    ∃ solution, solutions = [solution] := by
  obtain ⟨key, rest, next, hkey, hrest⟩ := matchTemplate_cons_eq_some (by decide) h
  obtain ⟨checksig, rest, last, hchecksig, hend⟩ := matchTemplate_cons_eq_some (by decide) hrest
  obtain rfl := matchOp_plain (by decide) hchecksig
  rw [Solver.matchTemplate] at hend
  split at hend
  · obtain rfl := Option.some.inj hend
    rw [Solver.matchOp, if_pos rfl] at hkey
    split at hkey
    · exact ⟨key.2, (Option.some.inj hkey).symm⟩
    · cases hkey
  · cases hend

theorem matchTemplate_pubkeyhash {script : CScript} {solutions : List Bytes}
    (h : Solver.matchTemplate [0x76, 0xa9, 0xfd, 0x88, 0xac] script [] = some solutions) :
    ∃ solution, solutions = [solution] := by
  obtain ⟨dup, rest, _, hdup, hafterDup⟩ := matchTemplate_cons_eq_some (by decide) h
  obtain rfl := matchOp_plain (by decide) hdup
  obtain ⟨hash160, rest, _, hhash160, hafterHash⟩ := matchTemplate_cons_eq_some (by decide) hafterDup
  obtain rfl := matchOp_plain (by decide) hhash160
  obtain ⟨keyId, rest, next, hkeyId, hafterKey⟩ := matchTemplate_cons_eq_some (by decide) hafterHash
  obtain ⟨verify, rest, _, hverify, hafterVerify⟩ := matchTemplate_cons_eq_some (by decide) hafterKey
  obtain rfl := matchOp_plain (by decide) hverify
  obtain ⟨checksig, rest, _, hchecksig, hend⟩ := matchTemplate_cons_eq_some (by decide) hafterVerify
  obtain rfl := matchOp_plain (by decide) hchecksig
  rw [Solver.matchTemplate] at hend
  split at hend
  · obtain rfl := Option.some.inj hend
    rw [Solver.matchOp, if_neg (by decide), if_pos rfl] at hkeyId
    split at hkeyId
    · exact ⟨keyId.2, (Option.some.inj hkeyId).symm⟩
    · cases hkeyId
  · cases hend

theorem solver_solutions {script : CScript} {type : TxnOutType} {solutions : List Bytes}
    (hsolver : solver script = some (type, solutions)) (htype : type = .pubkey ∨ type = .pubkeyhash) :
    ∃ solution, solutions = [solution] := by
  unfold solver at hsolver
  split at hsolver
  · obtain ⟨rfl, -⟩ := Prod.mk.inj (Option.some.inj hsolver)
    rcases htype with h | h <;> cases h
  · obtain ⟨⟨type', solutions'⟩, hscan, hsome⟩ := Option.bind_eq_some_iff.mp hsolver
    split at hsome
    · cases hsome
    · obtain ⟨rfl, rfl⟩ := Prod.mk.inj (Option.some.inj hsome)
      obtain ⟨⟨type'', template⟩, htemplate, hmatch⟩ := List.exists_of_findSome?_eq_some hscan
      obtain ⟨found, hfound, heq⟩ := Option.map_eq_some_iff.mp hmatch
      obtain ⟨rfl, rfl⟩ := Prod.mk.inj heq
      have hkeys : template = [0xfe, 0xac] ∨ template = [0x76, 0xa9, 0xfd, 0x88, 0xac] := by
        rcases htype with rfl | rfl
        · exact .inl (by simpa [Solver.templates] using htemplate)
        · exact .inr (by simpa [Solver.templates] using htemplate)
      rcases hkeys with rfl | rfl
      · exact matchTemplate_pubkey hfound
      · exact matchTemplate_pubkeyhash hfound

theorem findOutputInTransaction_eq_filter {vout : List CTxOut}
    (hparses : ∀ txOut ∈ vout, txOut.scriptPubKey.parses) :
    findOutputInTransaction H myKeyId vout = vout.filter (paysTo H myKeyId) := by
  induction vout with
  | nil => rfl
  | cons txOut vout ih =>
    obtain ⟨hfirst, hrest⟩ := List.forall_mem_cons.mp hparses
    rw [findOutputInTransaction, if_pos hfirst, ih hrest, List.filter_cons, paysTo]
    cases hsolver : solver txOut.scriptPubKey with
    | none => simp
    | some found =>
      obtain ⟨type, solutions⟩ := found
      by_cases htype : type = .pubkey ∨ type = .pubkeyhash
      · obtain ⟨solution, rfl⟩ := solver_solutions hsolver htype
        cases hkey : isSearchedKey H myKeyId type solution <;> simp [hkey]
      · have hnone : ∀ solution, isSearchedKey H myKeyId type solution = false := by
          intro solution
          cases type with
          | pubkey => exact absurd (.inl rfl) htype
          | pubkeyhash => exact absurd (.inr rfl) htype
          | _ => rfl
        simp [hnone]

theorem addValues_eq (txOuts : List CTxOut) (value : UInt32) :
    addValues value txOuts = value + UInt32.ofInt (txOuts.map fun txOut => txOut.nValue.toInt).sum := by
  induction txOuts generalizing value with
  | nil => exact (UInt32.add_zero value).symm
  | cons txOut txOuts ih =>
    have hrest := ih (value + UInt32.ofInt txOut.nValue.toInt)
    rw [addValues, List.foldl_cons, ← addValues, hrest, List.map_cons, List.sum_cons,
      UInt32.ofInt_add, UInt32.add_assoc]

variable (H myKeyId) in
def foundSum (tx : CTransaction) : ℤ :=
  ((findOutputInTransaction H myKeyId tx.vout).map fun txOut => txOut.nValue.toInt).sum

variable (H myKeyId) in
def runUp (transactions : List CTransaction) : ℤ :=
  (transactions.inits.map fun past => (past.map (foundSum H myKeyId)).sum).sum

theorem runUp_append (past : List CTransaction) (tx : CTransaction) :
    runUp H myKeyId (past ++ [tx]) =
      runUp H myKeyId past + ((past ++ [tx]).map (foundSum H myKeyId)).sum := by
  simp [runUp, List.inits_append]

theorem sum_foundOutputs (past : List CTransaction) :
    ((past.flatMap fun tx => findOutputInTransaction H myKeyId tx.vout).map fun txOut =>
      txOut.nValue.toInt).sum = (past.map (foundSum H myKeyId)).sum := by
  induction past with
  | nil => rfl
  | cons tx past ih =>
    rw [List.flatMap_cons, List.map_append, List.sum_append, ih]
    rfl

theorem foldl_checkFee_sums (past : List CTransaction) :
    (past.foldl (checkFee H myKeyId price) empty).txOuts =
        past.flatMap (fun tx => findOutputInTransaction H myKeyId tx.vout) ∧
      (past.foldl (checkFee H myKeyId price) empty).value = UInt32.ofInt (runUp H myKeyId past) := by
  induction past using List.reverseRecOn with
  | nil => exact ⟨rfl, rfl⟩
  | append_singleton past tx ih =>
    obtain ⟨htxOuts, hvalue⟩ := ih
    have hstep : ∀ c : FeeCheck, (c.checkFee H myKeyId price tx).txOuts = c.foundOutputs H myKeyId tx ∧
        (c.checkFee H myKeyId price tx).value =
          addValues c.value (c.foundOutputs H myKeyId tx) := by
      intro c
      cases hpaid : c.isPaid H myKeyId price tx <;> simp [checkFee, hpaid]
    obtain ⟨htxOuts', hvalue'⟩ := hstep (past.foldl (checkFee H myKeyId price) empty)
    have hall : foundOutputs H myKeyId (past.foldl (checkFee H myKeyId price) empty) tx =
        (past ++ [tx]).flatMap fun tx => findOutputInTransaction H myKeyId tx.vout := by
      rw [foundOutputs, htxOuts, List.flatMap_append, List.flatMap_singleton]
    rw [List.foldl_append, List.foldl_cons, List.foldl_nil, htxOuts', hvalue', hall, hvalue,
      addValues_eq, sum_foundOutputs, runUp_append, UInt32.ofInt_add]
    exact ⟨rfl, rfl⟩

theorem addValues_foundOutputs (past : List CTransaction) (tx : CTransaction) :
    addValues (past.foldl (checkFee H myKeyId price) empty).value
        (foundOutputs H myKeyId (past.foldl (checkFee H myKeyId price) empty) tx) =
      UInt32.ofInt (runUp H myKeyId (past ++ [tx])) := by
  obtain ⟨htxOuts, hvalue⟩ := @foldl_checkFee_sums H myKeyId price past
  rw [foundOutputs, htxOuts, hvalue, addValues_eq, runUp_append, ← sum_foundOutputs,
    List.flatMap_append, List.flatMap_singleton, UInt32.ofInt_add]

/-- If all scripts can be read, what is found is what was paid. -/
theorem runUp_eq_carried {transactions : List CTransaction}
    (hparses : ∀ tx ∈ transactions, ∀ txOut ∈ tx.vout, txOut.scriptPubKey.parses) :
    runUp H myKeyId transactions = carried H myKeyId transactions := by
  have hpaid : ∀ tx ∈ transactions, foundSum H myKeyId tx = paid H myKeyId tx := fun tx htx => by
    rw [foundSum, findOutputInTransaction_eq_filter (hparses tx htx), paid]
  rw [runUp, carried]
  congr 1
  refine List.map_congr_left fun past hpast => ?_
  rw [List.map_congr_left fun tx htx => hpaid tx ((List.mem_inits _ _).mp hpast |>.subset htx)]

theorem toNat_ofInt32 (x : ℤ) : ((UInt32.ofInt x).toNat : ℤ) = x % 2 ^ 32 := by
  have hnonneg : 0 ≤ x % 2 ^ 32 := Int.emod_nonneg _ (by decide)
  have hlt : x % 2 ^ 32 < 2 ^ 32 := Int.emod_lt_of_pos _ (by decide)
  rw [UInt32.ofInt, UInt32.toNat_ofNat_of_lt' (by show _ < 2 ^ 32; omega)]
  exact Int.toNat_of_nonneg hnonneg

theorem toNat_ofInt64 (x : ℤ) : ((UInt64.ofInt x).toNat : ℤ) = x % 2 ^ 64 := by
  have hnonneg : 0 ≤ x % 2 ^ 64 := Int.emod_nonneg _ (by decide)
  have hlt : x % 2 ^ 64 < 2 ^ 64 := Int.emod_lt_of_pos _ (by decide)
  rw [UInt64.ofInt, UInt64.toNat_ofNat_of_lt' (by show _ < 2 ^ 64; omega)]
  exact Int.toNat_of_nonneg hnonneg

theorem ofInt_natCast64 (n : ℕ) : UInt64.ofInt n = UInt64.ofNat n := by
  have hcast := toNat_ofInt64 n
  apply UInt64.toNat_inj.mp
  rw [UInt64.toNat_ofNat']
  omega

theorem toUInt64_eq_ofInt (x : UInt32) : x.toUInt64 = UInt64.ofInt x.toNat := by
  apply UInt64.toNat_inj.mp
  rw [ofInt_natCast64, UInt32.toNat_toUInt64,
    UInt64.toNat_ofNat_of_lt' (x.toNat_lt.trans (by decide))]

theorem isPaid_iff {c : FeeCheck} {tx : CTransaction} {sum : ℤ}
    (hvalue : addValues c.value (c.foundOutputs H myKeyId tx) = UInt32.ofInt sum) :
    c.isPaid H myKeyId price tx ↔ fee price tx % 2 ^ 64 ≤ sum % 2 ^ 32 := by
  have hfee : price.toUInt64 * (UInt64.ofNat tx.vout.length - 2) = UInt64.ofInt (fee price tx) := by
    rw [fee, UInt64.ofInt_mul, Int.sub_eq_add_neg, UInt64.ofInt_add, UInt64.ofInt_neg,
      ofInt_natCast64 tx.vout.length, toUInt64_eq_ofInt, UInt64.sub_eq_add_neg]
    rfl
  rw [isPaid, decide_eq_true_iff, hvalue, hfee, UInt64.le_iff_toNat_le, UInt32.toNat_toUInt64,
    ← Int.ofNat_le, toNat_ofInt64, toNat_ofInt32]

theorem isFound_iff {past : List CTransaction} {tx : CTransaction}
    (hparses : ∀ tx' ∈ past ++ [tx], ∀ txOut ∈ tx'.vout, txOut.scriptPubKey.parses) :
    (past.foldl (checkFee H myKeyId price) empty).isFound H myKeyId tx ↔
      ∃ tx' ∈ past ++ [tx], ∃ txOut ∈ tx'.vout, paysTo H myKeyId txOut := by
  obtain ⟨hpast, hlast⟩ := List.forall_mem_append.mp hparses
  have hown := hlast tx (List.mem_singleton_self tx)
  have hall : (tx.vout.all fun txOut => txOut.scriptPubKey.parses) = true :=
    List.all_eq_true.mpr hown
  have hfound : ∀ tx' ∈ past ++ [tx], findOutputInTransaction H myKeyId tx'.vout =
      tx'.vout.filter (paysTo H myKeyId) :=
    fun tx' htx' => findOutputInTransaction_eq_filter (hparses tx' htx')
  have houtputs : foundOutputs H myKeyId (past.foldl (checkFee H myKeyId price) empty) tx =
      (past ++ [tx]).flatMap fun tx => findOutputInTransaction H myKeyId tx.vout := by
    rw [foundOutputs, (foldl_checkFee_sums past).1, List.flatMap_append, List.flatMap_singleton]
  rw [isFound, hall, Bool.true_and, houtputs, Bool.not_eq_true',
    List.isEmpty_eq_false_iff_exists_mem]
  simp only [List.mem_flatMap]
  constructor
  · rintro ⟨txOut, tx', htx', htxOut⟩
    rw [hfound tx' htx'] at htxOut
    exact ⟨tx', htx', txOut, List.mem_filter.mp htxOut⟩
  · rintro ⟨tx', htx', txOut, htxOut⟩
    refine ⟨txOut, tx', htx', ?_⟩
    rw [hfound tx' htx']
    exact List.mem_filter.mpr htxOut

theorem verdicts_eq_singleton_iff {c : FeeCheck} {tx : CTransaction} {verdict : Bool} :
    c.verdicts H myKeyId price tx = [verdict] ↔
      c.isFound H myKeyId tx ∧ c.isPaid H myKeyId price tx = verdict := by
  unfold verdicts
  cases c.isFound H myKeyId tx <;> simp

theorem parses_of_isFound {c : FeeCheck} {tx : CTransaction} (h : c.isFound H myKeyId tx) :
    ∀ txOut ∈ tx.vout, txOut.scriptPubKey.parses :=
  List.all_eq_true.mp (Bool.and_eq_true_iff.mp h).1

/-- After transactions whose scripts can be read, one verdict is the right one if and only if
the transaction is decided. -/
theorem verdicts_iff_decided {past : List CTransaction} {tx : CTransaction}
    (hpast : ∀ tx' ∈ past, ∀ txOut ∈ tx'.vout, txOut.scriptPubKey.parses) :
    (past.foldl (checkFee H myKeyId price) empty).verdicts H myKeyId price tx =
      [decide (PaysFee H myKeyId price tx)] ↔ Decided H myKeyId price past tx := by
  have hboth : (∀ txOut ∈ tx.vout, txOut.scriptPubKey.parses) →
      ((past.foldl (checkFee H myKeyId price) empty).isFound H myKeyId tx ↔
          ∃ tx' ∈ past ++ [tx], ∃ txOut ∈ tx'.vout, paysTo H myKeyId txOut) ∧
        ((past.foldl (checkFee H myKeyId price) empty).isPaid H myKeyId price tx ↔
          fee price tx % 2 ^ 64 ≤ carried H myKeyId (past ++ [tx]) % 2 ^ 32) := by
    intro hown
    have hparses : ∀ tx' ∈ past ++ [tx], ∀ txOut ∈ tx'.vout, txOut.scriptPubKey.parses :=
      List.forall_mem_append.mpr ⟨hpast, fun tx' htx' => by rwa [List.mem_singleton.mp htx']⟩
    refine ⟨isFound_iff hparses, ?_⟩
    rw [isPaid_iff (addValues_foundOutputs past tx), runUp_eq_carried hparses]
  rw [verdicts_eq_singleton_iff]
  constructor
  · rintro ⟨hfound, hpaid⟩
    have hown := parses_of_isFound hfound
    obtain ⟨hfound', hpaid'⟩ := hboth hown
    refine ⟨hown, hfound'.mp hfound, ?_⟩
    rw [← hpaid', hpaid, decide_eq_true_iff]
  · rintro ⟨hown, hfound, hcompares⟩
    obtain ⟨hfound', hpaid'⟩ := hboth hown
    refine ⟨hfound'.mpr hfound, ?_⟩
    rw [Bool.eq_iff_iff, hpaid', hcompares, decide_eq_true_iff]

theorem carried_append (past : List CTransaction) (tx : CTransaction) :
    carried H myKeyId (past ++ [tx]) =
      carried H myKeyId past + ((past ++ [tx]).map (paid H myKeyId)).sum := by
  simp [carried, List.inits_append]

theorem paid_eq_zero {tx : CTransaction} (h : ∀ txOut ∈ tx.vout, paysTo H myKeyId txOut = false) :
    paid H myKeyId tx = 0 := by
  rw [paid, List.filter_eq_nil_iff.mpr fun txOut htxOut => by simp [h txOut htxOut]]
  rfl

theorem carried_eq_zero {past : List CTransaction} (h : ∀ tx ∈ past, paid H myKeyId tx = 0) :
    carried H myKeyId past = 0 := by
  induction past using List.reverseRecOn with
  | nil => rfl
  | append_singleton past tx ih =>
    rw [carried_append, ih fun tx' htx' => h tx' (List.mem_append_left _ htx'),
      List.map_congr_left h]
    simp

/-- The first transaction that pays the key is decided if what it pays fits in 32 bits. -/
theorem decided_of_first {past : List CTransaction} {tx : CTransaction}
    (hpast : ∀ tx' ∈ past, ∀ txOut ∈ tx'.vout, paysTo H myKeyId txOut = false)
    (hparses : ∀ txOut ∈ tx.vout, txOut.scriptPubKey.parses)
    (hpays : ∃ txOut ∈ tx.vout, paysTo H myKeyId txOut)
    (hpaid : 0 ≤ paid H myKeyId tx ∧ paid H myKeyId tx < 2 ^ 32)
    (hcount : 2 ≤ tx.vout.length ∧ tx.vout.length ≤ 2 ^ 32) : Decided H myKeyId price past tx := by
  have hzero : ∀ tx' ∈ past, paid H myKeyId tx' = 0 := fun tx' htx' => paid_eq_zero (hpast tx' htx')
  have hcarried : carried H myKeyId (past ++ [tx]) = paid H myKeyId tx := by
    rw [carried_append, carried_eq_zero hzero, List.map_append, List.map_congr_left hzero]
    simp
  have hprice : (price.toNat : ℤ) < 2 ^ 32 := by exact_mod_cast price.toNat_lt
  have hoff : 0 ≤ (tx.vout.length : ℤ) - 2 ∧ (tx.vout.length : ℤ) - 2 < 2 ^ 32 := by omega
  have hfee : 0 ≤ fee price tx ∧ fee price tx < 2 ^ 64 := by
    refine ⟨mul_nonneg (Int.natCast_nonneg _) hoff.1, ?_⟩
    calc (price.toNat : ℤ) * (tx.vout.length - 2)
        ≤ 2 ^ 32 * (tx.vout.length - 2) := mul_le_mul_of_nonneg_right hprice.le hoff.1
      _ < 2 ^ 32 * 2 ^ 32 := by linarith only [hoff.2]
  refine ⟨hparses, ⟨tx, List.mem_append_right _ (List.mem_singleton_self tx), hpays⟩, ?_⟩
  rw [hcarried, Int.emod_eq_of_lt hfee.1 hfee.2, Int.emod_eq_of_lt hpaid.1 hpaid.2, PaysFee]

/-- Every transaction gets one verdict, by its own outputs, if and only if every transaction
is decided. The first one that pays the key is, if what it pays fits in 32 bits. -/
theorem checkFees_iff (H : HashFunctions) (myKeyId : CKeyID) (price : UInt32)
    (transactions : List CTransaction) :
    ((checkFees H myKeyId price transactions).validTransactions =
        transactions.filter (fun tx => PaysFee H myKeyId price tx) ∧
      (checkFees H myKeyId price transactions).invalidTransactions =
        transactions.filter (fun tx => !decide (PaysFee H myKeyId price tx)) ↔
      ∀ past tx rest, transactions = past ++ tx :: rest → Decided H myKeyId price past tx) ∧
    ∀ past tx, (∀ tx' ∈ past, ∀ txOut ∈ tx'.vout, paysTo H myKeyId txOut = false) →
      (∀ txOut ∈ tx.vout, txOut.scriptPubKey.parses) →
      (∃ txOut ∈ tx.vout, paysTo H myKeyId txOut) →
      0 ≤ paid H myKeyId tx ∧ paid H myKeyId tx < 2 ^ 32 →
      2 ≤ tx.vout.length ∧ tx.vout.length ≤ 2 ^ 32 → Decided H myKeyId price past tx := by
  refine ⟨?_, fun past tx => decided_of_first⟩
  obtain ⟨hvalid, hinvalid⟩ := @foldl_checkFee_lists H myKeyId price transactions empty
  have hverdict : ∀ g ∈ verdictsFrom H myKeyId price empty transactions, g.2 ≠ [] := by
    intro g hg
    obtain ⟨past, tx, rest, -, rfl⟩ := mem_verdictsFrom_iff.mp hg
    exact List.append_ne_nil_of_right_ne_nil _ (List.cons_ne_nil _ _)
  have hlists := @withVerdict_eq_filter_iff _ (fun tx => PaysFee H myKeyId price tx) _ hverdict
  rw [map_fst_verdictsFrom] at hlists
  rw [checkFees, hvalid, hinvalid]
  refine hlists.trans ?_
  constructor
  · intro h
    have hone : ∀ past tx rest, transactions = past ++ tx :: rest →
        (past.foldl (checkFee H myKeyId price) empty).verdicts H myKeyId price tx =
          [decide (PaysFee H myKeyId price tx)] :=
      fun past tx rest heq => h _ (mem_verdictsFrom_iff.mpr ⟨past, tx, rest, heq, rfl⟩)
    have hparses : ∀ tx ∈ transactions, ∀ txOut ∈ tx.vout, txOut.scriptPubKey.parses := by
      intro tx htx
      obtain ⟨past, rest, heq⟩ := List.append_of_mem htx
      exact parses_of_isFound (verdicts_eq_singleton_iff.mp (hone past tx rest heq)).1
    intro past tx rest heq
    refine (verdicts_iff_decided fun tx' htx' => hparses tx' ?_).mp (hone past tx rest heq)
    rw [heq]
    exact List.mem_append_left _ htx'
  · intro h g hg
    obtain ⟨past, tx, rest, heq, rfl⟩ := mem_verdictsFrom_iff.mp hg
    refine (verdicts_iff_decided fun tx' htx' => ?_).mpr (h past tx rest heq)
    obtain ⟨before, after, rfl⟩ := List.append_of_mem htx'
    exact (h before tx' (after ++ tx :: rest) (by rw [heq, List.append_assoc]; rfl)).parses

namespace PaidOnce

def hashes : HashFunctions := ⟨fun _ => 0, fun _ => 0⟩

def toKey (keyId : UInt8) : CScript :=
  [0x76, 0xa9, 0x14, keyId] ++ List.replicate 19 0 ++ [0x88, 0xac]

def transaction : CTransaction := ⟨1, [], [⟨3, toKey 6⟩, ⟨7, toKey 9⟩, ⟨2, toKey 5⟩], 0, 0⟩

/-- A transaction that pays its fee gets one verdict, and one that does not gets the other. -/
theorem one_verdict :
    (checkFees hashes 9 7 [transaction]).validTransactions = [transaction] ∧
      (checkFees hashes 9 7 [transaction]).invalidTransactions = [] ∧
      (checkFees hashes 9 8 [transaction]).validTransactions = [] ∧
      (checkFees hashes 9 8 [transaction]).invalidTransactions = [transaction] := by
  have hdecided : ∀ price, ∀ past tx rest, [transaction] = past ++ tx :: rest →
      Decided hashes 9 price past tx := by
    intro price past tx rest heq
    obtain ⟨rfl, rfl, rfl⟩ : past = [] ∧ tx = transaction ∧ rest = [] := by
      cases past with
      | nil => simpa [eq_comm] using heq
      | cons first past => simp at heq
    exact (checkFees_iff hashes 9 price []).2 [] transaction nofun (by decide +kernel)
      (by decide +kernel) (by decide +kernel) (by decide +kernel)
  obtain ⟨hvalid, hinvalid⟩ := (checkFees_iff hashes 9 7 [transaction]).1.mpr (hdecided 7)
  obtain ⟨hvalid', hinvalid'⟩ := (checkFees_iff hashes 9 8 [transaction]).1.mpr (hdecided 8)
  rw [hvalid, hinvalid, hvalid', hinvalid']
  decide +kernel

end PaidOnce

namespace TwoFreeOutputs

def hashes : HashFunctions := ⟨fun _ => 0, fun _ => 0⟩

def transaction : CTransaction := ⟨1, [], [⟨0, []⟩, ⟨0, []⟩], 0, 0⟩

/-- It is put into both lists. -/
theorem both_verdicts :
    ¬∀ (H : HashFunctions) (myKeyId : CKeyID) (price : UInt32) (transactions : List CTransaction),
      (checkFees H myKeyId price transactions).validTransactions =
          transactions.filter (fun tx => PaysFee H myKeyId price tx) ∧
        (checkFees H myKeyId price transactions).invalidTransactions =
          transactions.filter (fun tx => !decide (PaysFee H myKeyId price tx)) := by
  intro h
  have hinvalid := (h hashes 1 1 [transaction]).2
  have hboth : (checkFees hashes 1 1 [transaction]).invalidTransactions = [transaction] := rfl
  rw [hboth] at hinvalid
  exact absurd hinvalid (by decide)

end TwoFreeOutputs

end FeeCheck

end Dims
