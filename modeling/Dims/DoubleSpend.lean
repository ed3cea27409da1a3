import Dims.LedgerSteps
import Dims.GuardedRun

/-!
# Double spending

Bundles are validated and applied one after another, and every outpoint that an
input of the run consumes is recorded. Validation compares each transaction with
the view before the bundle only, and applying a transaction replaces the coins
under its hash, so the record stays exclusive under the conditions collected in
`Compatible`.
-/

namespace Dims
open ByteCodec UnspentSet GuardedRun

namespace CTransactionRecordManager

variable (env : Environment)

theorem view_checkInputs (v : CCoinsViewCache) (tx : CTransaction) :
    (checkInputs env v tx).2.view = v.view := by
  unfold checkInputs
  split
  · rfl
  · dsimp only
    split <;> exact CCoinsViewCache.view_haveInputs v tx

theorem view_validateFrom (v : CCoinsViewCache) (i : ℕ) (txs : List CTransaction) :
    (validateFrom env v i txs).2.view = v.view := by
  induction txs generalizing v i with
  | nil => rfl
  | cons tx txs ih =>
    rw [validateFrom]
    dsimp only
    split
    · exact view_checkInputs env v tx
    · rw [ih, view_checkInputs]

theorem view_validated (s : CTransactionRecordManager) (txs : List CTransaction) :
    (s.validated env txs).coinsViewCache.view = s.coinsViewCache.view :=
  view_validateFrom env _ _ _

theorem unspent_validated (s : CTransactionRecordManager) (txs : List CTransaction) :
    (s.validated env txs).unspent = s.unspent :=
  unspent_of_view_eq (view_validated env s txs)

theorem keptTransactions_subset (s : CTransactionRecordManager) (txs : List CTransaction) :
    s.keptTransactions env txs ⊆ txs := by
  intro tx htx
  rcases List.mem_map.mp htx with ⟨p, hp, rfl⟩
  exact List.fst_mem_of_mem_zipIdx (List.mem_of_mem_filter hp)

def consumedBy (s : CTransactionRecordManager) (txs : List CTransaction) : List COutPoint :=
  (s.validated env txs).spentInputs env ((s.keptTransactions env txs).flatMap CTransaction.vin)

end CTransactionRecordManager

open CTransactionRecordManager

/-- The outpoints that transactions name, those of coinbase transactions left out. -/
def spends (txs : List CTransaction) : List COutPoint :=
  (txs.filter fun tx => !tx.isCoinBase).flatMap CTransaction.prevouts

theorem mem_spends {txs : List CTransaction} {o : COutPoint} :
    o ∈ spends txs ↔ ∃ tx ∈ txs, tx.isCoinBase = false ∧ o ∈ tx.prevouts := by
  simp [spends, and_assoc]

/-- A ledger and the outpoints consumed on the way to it. -/
structure History where
  ledger : CTransactionRecordManager
  consumed : List COutPoint

namespace History

variable (env : Environment)

def initial (ledger : CTransactionRecordManager) : History := ⟨ledger, []⟩

def process (h : History) (bundle : List CTransaction) : History :=
  ⟨h.ledger.processBundle env bundle, h.consumed ++ h.ledger.consumedBy env bundle⟩

/-- The bundles that cannot lead to a double spend. -/
structure Compatible (h : History) (bundle : List CTransaction) : Prop where
  /-- The inputs of every transaction are there, so validation does not end early. -/
  haveInputs : ∀ tx ∈ bundle, (h.ledger.coinsViewCache.haveInputs tx).1 = true
  /-- The null outpoint of a coinbase transaction names no coins. -/
  coinbase : ∀ tx ∈ h.ledger.keptTransactions env bundle, tx.isCoinBase = true →
    h.ledger.coinsViewCache.view 0 = none
  /-- No two inputs of the kept transactions name the same outpoint. -/
  distinct : (spends (h.ledger.keptTransactions env bundle)).Nodup
  /-- No kept transaction has the hash of a consumed outpoint and that output. -/
  fresh : ∀ tx ∈ h.ledger.keptTransactions env bundle,
    ∀ o ∈ h.consumed ++ spends (h.ledger.keptTransactions env bundle),
      tx.getHash env.hashes = o.hash → (CCoins.ofTransaction tx).unspent o.n.toNat = none

private theorem view_zero_spendInput {s s' : CTransactionRecordManager} {txIn : CTxIn}
    (h : s.spendInput env txIn = (none, s')) (hzero : s.coinsViewCache.view 0 = none) :
    s'.coinsViewCache.view 0 = none := by
  rcases spendInput_continues env h with ⟨coins, hview, -, hview', -⟩
  have hne : (0 : Uint256) ≠ txIn.prevout.hash := by
    intro heq
    rw [← heq, hzero] at hview
    cases hview
  rw [hview', Function.update_of_ne hne, hzero]

private theorem spentInputs_append_sublist {c : Prop} (s : CTransactionRecordManager)
    (first second : List CTxIn) (hzero : s.coinsViewCache.view 0 = none ∨ c)
    {os : List COutPoint}
    (hsecond : ∀ s' : CTransactionRecordManager, (s'.coinsViewCache.view 0 = none ∨ c) →
      List.Sublist (s'.spentInputs env second) os) :
    List.Sublist (s.spentInputs env (first ++ second)) (first.map CTxIn.prevout ++ os) := by
  induction first generalizing s with
  | nil => exact hsecond s hzero
  | cons txIn first ih =>
    rw [List.cons_append, spentInputs]
    rcases hstep : s.spendInput env txIn with ⟨_ | result, s'⟩
    · apply List.Sublist.cons_cons
      apply ih
      rcases hzero with hzero | hc
      · exact .inl (view_zero_spendInput env hstep hzero)
      · exact .inr hc
    · exact List.nil_sublist _

/-- The application spends only outpoints of ordinary transactions. -/
theorem spentInputs_sublist (s : CTransactionRecordManager) (txs : List CTransaction)
    (hcoinbase : s.coinsViewCache.view 0 = none ∨ ∀ tx ∈ txs, tx.isCoinBase = false) :
    List.Sublist (s.spentInputs env (txs.flatMap CTransaction.vin)) (spends txs) := by
  induction txs generalizing s with
  | nil => exact List.nil_sublist _
  | cons tx txs ih =>
    rw [List.flatMap_cons]
    cases hcb : tx.isCoinBase with
    | false =>
      have hspends : spends (tx :: txs) = tx.vin.map CTxIn.prevout ++ spends txs := by
        simp [spends, hcb, CTransaction.prevouts]
      rw [hspends]
      apply spentInputs_append_sublist env s (c := ∀ tx' ∈ txs, tx'.isCoinBase = false)
      · rcases hcoinbase with hzero | hall
        · exact .inl hzero
        · exact .inr fun tx' htx' => hall tx' (List.mem_cons_of_mem _ htx')
      · exact fun s' hs' => ih s' hs'
    | true =>
      have hzero : s.coinsViewCache.view 0 = none := by
        rcases hcoinbase with hzero | hall
        · exact hzero
        · have hfalse := hall tx List.mem_cons_self
          rw [hcb] at hfalse
          cases hfalse
      -- a coinbase transaction has one input, whose coins are not found
      have hnil : s.spentInputs env (tx.vin ++ txs.flatMap CTransaction.vin) = [] := by
        unfold CTransaction.isCoinBase at hcb
        split at hcb
        case h_1 txIn hvin =>
          have hnull : txIn.prevout.hash = 0 := by
            simp only [COutPoint.isNull, decide_eq_true_eq] at hcb
            exact hcb.1
          have hcoins : s.coinsViewCache.view txIn.prevout.hash = none := by rw [hnull, hzero]
          have hstop := spendInput_of_view_none env hcoins
          rw [hvin, List.singleton_append, spentInputs]
          rcases hstep : s.spendInput env txIn with ⟨_ | result, s'⟩
          · rw [hstep] at hstop
            cases hstop
          · rfl
        case h_2 => cases hcb
      rw [hnil]
      exact List.nil_sublist _

variable {env} {h : History} {bundle : List CTransaction}

theorem Compatible.sublist (hc : Compatible env h bundle) :
    List.Sublist (h.ledger.consumedBy env bundle) (spends (h.ledger.keptTransactions env bundle)) := by
  apply spentInputs_sublist
  rw [view_validated]
  by_cases hall : ∀ tx ∈ h.ledger.keptTransactions env bundle, tx.isCoinBase = false
  · exact .inr hall
  · push Not at hall
    rcases hall with ⟨tx, htx, hcb⟩
    exact .inl (hc.coinbase tx htx (by simpa using hcb))

theorem Compatible.available (hc : Compatible env h bundle) :
    ∀ o ∈ h.ledger.consumedBy env bundle, (h.ledger.unspent o).isSome = true := by
  intro o ho
  rcases mem_spends.mp (hc.sublist.subset ho) with ⟨tx, htx, hcb, hprevout⟩
  have hinputs := hc.haveInputs tx (keptTransactions_subset env _ _ htx)
  exact (CCoinsViewCache.haveInputs_fst _ _ hcb).mp hinputs o hprevout

theorem Compatible.gone (hc : Compatible env h bundle)
    (hex : Exclusive h.ledger.unspent h.consumed) :
    ∀ o ∈ h.consumed ++ h.ledger.consumedBy env bundle,
      (h.process env bundle).ledger.unspent o = none := by
  intro o ho
  have hspends : o ∈ h.consumed ++ spends (h.ledger.keptTransactions env bundle) := by
    rcases List.mem_append.mp ho with hold | hnow
    · exact List.mem_append_left _ hold
    · exact List.mem_append_right _ (hc.sublist.subset hnow)
  have hold : (h.ledger.unspent o).isSome = true → o ∈ h.ledger.consumedBy env bundle := by
    intro hsome
    rcases List.mem_append.mp ho with hconsumed | hnow
    · rw [hex.gone o hconsumed] at hsome
      cases hsome
    · exact hnow
  by_contra hne
  have hsome : ((h.process env bundle).ledger.unspent o).isSome = true :=
    Option.isSome_iff_ne_none.mpr hne
  unfold process processBundle at hsome
  dsimp only at hsome
  split at hsome
  case isTrue hnil =>
    have hunspent : (h.ledger.unspent o).isSome = true := by
      rwa [← unspent_validated env h.ledger bundle]
    have hnow := hold hunspent
    unfold consumedBy at hnow
    rw [hnil] at hnow
    cases hnow
  case isFalse =>
    rcases unspent_addValidated env hsome with ⟨hunspent, hnot⟩ | ⟨tx, htx, hhash, hcreated⟩
    · apply hnot
      apply hold
      rwa [← unspent_validated env h.ledger bundle]
    · rw [hc.fresh tx htx o hspends hhash] at hcreated
      cases hcreated

/-- One compatible bundle keeps the history exclusive. -/
theorem Compatible.exclusive (hc : Compatible env h bundle)
    (hex : Exclusive h.ledger.unspent h.consumed) :
    Exclusive (h.process env bundle).ledger.unspent (h.process env bundle).consumed :=
  hex.step (hc.sublist.nodup hc.distinct) hc.available (hc.gone hex)

/-- No double spend: along a run of compatible bundles no output is consumed by
two inputs, and every bundle consumes outputs that are unspent in the view it
was validated against. -/
theorem no_double_spend (env : Environment) (ledger : CTransactionRecordManager)
    (bundles : List (List CTransaction))
    (hrun : Guarded (process env) (Compatible env) (initial ledger) bundles) :
    (run (process env) (initial ledger) bundles).consumed.Nodup ∧
    ∀ before bundle, before ++ [bundle] <+: bundles →
      ∀ o ∈ (run (process env) (initial ledger) before).ledger.consumedBy env bundle,
        ((run (process env) (initial ledger) before).ledger.unspent o).isSome = true := by
  have hstep : ∀ (h : History) bundle, Exclusive h.ledger.unspent h.consumed →
      Compatible env h bundle →
      Exclusive (h.process env bundle).ledger.unspent (h.process env bundle).consumed :=
    fun h bundle hex hc => hc.exclusive hex
  constructor
  · exact (hrun.invariant hstep (Exclusive.nil _)).nodup
  · rintro before bundle ⟨after, rfl⟩
    have hbefore := ((guarded_append _ _).mp hrun).1
    exact (hbefore.last hstep (Exclusive.nil _)).2.available

end History

namespace OneCoin

/-- Accepts `OP_1` for an output without a script. -/
def verifier : ScriptVerifier where
  verifyScript scriptSig scriptPubKey _ _ := scriptSig = [0x51] ∧ scriptPubKey = []
  parses_scriptSig := by
    intro scriptSig scriptPubKey tx n h
    simp only [decide_eq_true_eq] at h
    rw [h.1]
    decide

def env : Environment :=
  ⟨⟨fun w => BitVec.ofNat 256 (leValue w), fun w => BitVec.ofNat 160 (leValue w)⟩, verifier,
    fun _ _ => .null⟩

def ledger : CTransactionRecordManager :=
  ⟨⟨fun _ => none, fun h => if h = 7 then some ⟨[⟨5, []⟩]⟩ else none⟩, .empty⟩

/-- A transaction that spends the output of `ledger` in favour of a new one. -/
def spend (nVersion : Int32) (nValue : Int64) : CTransaction :=
  ⟨nVersion, [⟨⟨7, 0⟩, [0x51], 0xffffffff⟩], [⟨nValue, []⟩], 0, 0⟩

/-- A transaction that spends the output of `spend 1 5`. -/
def spendNext : CTransaction :=
  ⟨3, [⟨⟨(spend 1 5).getHash env.hashes, 0⟩, [0x51], 0xffffffff⟩], [⟨4, []⟩], 0, 0⟩

/-- Two bundles, the second spending what the first created. -/
theorem spent_in_two_bundles :
    let h := History.initial ledger
    (run (History.process env) h [[spend 1 5], [spendNext]]).consumed.Nodup ∧
    ∀ before bundle, before ++ [bundle] <+: [[spend 1 5], [spendNext]] →
      ∀ o ∈ (run (History.process env) h before).ledger.consumedBy env bundle,
        ((run (History.process env) h before).ledger.unspent o).isSome = true := by
  apply History.no_double_spend
  refine ⟨⟨by decide, by decide, by decide, by decide⟩, ?_, trivial⟩
  exact ⟨by decide, by decide, by decide, by decide⟩

/-- Two transactions of one bundle that spend the same output are both kept and
applied with success, and the output is consumed twice. -/
theorem spent_twice_in_bundle :
    ledger.keptTransactions env [spend 1 5, spend 2 5] = [spend 1 5, spend 2 5] ∧
    ((ledger.validated env [spend 1 5, spend 2 5]).addValidatedTransactionBundle env
      [spend 1 5, spend 2 5]).1 = .returned true ∧
    ¬ (History.process env (.initial ledger) [spend 1 5, spend 2 5]).consumed.Nodup := by
  refine ⟨by decide, by decide, by decide⟩

end OneCoin

end Dims
