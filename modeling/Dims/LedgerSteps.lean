import Dims.TransactionRecordManager
import Dims.UnspentSet

/-!
# What the ledger operations do to the unspent outputs

Each loop of the application, seen through the unspent outputs: an input that is
processed spends its outpoint, a transaction that is processed replaces the
outputs under its hash. The lists of processed inputs and transactions name how
far a loop came.
-/

namespace Dims
open UnspentSet

namespace CTransactionRecordManager

variable (env : Environment)

def unspent (s : CTransactionRecordManager) (o : COutPoint) : Option CTxOut :=
  s.coinsViewCache.unspent o

/-- The unspent outputs after the coins under a hash were replaced. -/
def createUnspent (u : COutPoint → Option CTxOut) (hash : Uint256) (coins : CCoins) :
    COutPoint → Option CTxOut :=
  fun o => if o.hash = hash then coins.unspent o.n.toNat else u o

theorem unspent_of_view_eq {v w : CCoinsViewCache} (h : v.view = w.view) :
    v.unspent = w.unspent := by
  funext o
  unfold CCoinsViewCache.unspent
  rw [h]

theorem unspent_setCoins (v : CCoinsViewCache) (hash : Uint256) (coins : CCoins) :
    (v.setCoins hash coins).unspent = createUnspent v.unspent hash coins := by
  funext o
  unfold CCoinsViewCache.unspent createUnspent
  rw [CCoinsViewCache.view_setCoins]
  by_cases h : o.hash = hash
  · simp [h]
  · simp [h]

/-- Setting the coins of an outpoint with that output null spends it. -/
theorem unspent_setCoins_setNull {v : CCoinsViewCache} {o : COutPoint} {coins : CCoins}
    (hview : v.view o.hash = some coins) :
    (v.setCoins o.hash (coins.setNull o.n.toNat)).unspent = Function.update v.unspent o none := by
  rw [unspent_setCoins]
  funext p
  unfold createUnspent
  by_cases hp : p = o
  · subst hp
    simp [CCoins.unspent_setNull]
  · rw [Function.update_of_ne hp]
    by_cases hhash : p.hash = o.hash
    · have hn : ¬ o.n.toNat = p.n.toNat := by
        intro hn
        apply hp
        cases p
        cases o
        simp only [UInt32.toNat_inj] at hn
        simp_all
      rw [if_pos hhash, CCoins.unspent_setNull, if_neg hn, CCoinsViewCache.unspent, hhash, hview]
      rfl
    · rw [if_neg hhash]

theorem spendInput_of_view_none {s : CTransactionRecordManager} {txIn : CTxIn}
    (h : s.coinsViewCache.view txIn.prevout.hash = none) :
    (s.spendInput env txIn).1 = some (.returned false) := by
  unfold spendInput
  simp only [CCoinsViewCache.getCoins_fst, h]

theorem spendInput_continues {s s' : CTransactionRecordManager} {txIn : CTxIn}
    (h : s.spendInput env txIn = (none, s')) :
    ∃ coins, s.coinsViewCache.view txIn.prevout.hash = some coins ∧
      txIn.prevout.n.toNat < coins.vout.length ∧
      s'.coinsViewCache.view = Function.update s.coinsViewCache.view txIn.prevout.hash
        (some (coins.setNull txIn.prevout.n.toNat)) ∧
      s'.unspent = Function.update s.unspent txIn.prevout none := by
  unfold spendInput at h
  simp only [CCoinsViewCache.getCoins_fst] at h
  cases hview : s.coinsViewCache.view txIn.prevout.hash with
  | none => simp [hview] at h
  | some coins =>
    simp only [hview] at h
    split at h
    · simp at h
    · split at h
      case isTrue hlt =>
        simp only [Prod.mk.injEq, true_and] at h
        subst h
        refine ⟨coins, rfl, hlt, ?_, ?_⟩
        · rw [CCoinsViewCache.view_setCoins, CCoinsViewCache.view_getCoins]
        · unfold unspent
          rw [unspent_setCoins_setNull (by rw [CCoinsViewCache.view_getCoins, hview])]
          rw [unspent_of_view_eq (CCoinsViewCache.view_getCoins _ _)]
      case isFalse => simp at h

theorem spendInput_stops {s s' : CTransactionRecordManager} {txIn : CTxIn}
    {result : BundleResult} (h : s.spendInput env txIn = (some result, s')) :
    s'.coinsViewCache.view = s.coinsViewCache.view := by
  unfold spendInput at h
  simp only [CCoinsViewCache.getCoins_fst] at h
  cases hview : s.coinsViewCache.view txIn.prevout.hash with
  | none =>
    simp only [hview, Prod.mk.injEq] at h
    rw [← h.2]
    exact CCoinsViewCache.view_getCoins _ _
  | some coins =>
    simp only [hview] at h
    split at h
    · simp only [Prod.mk.injEq] at h
      rw [← h.2]
      exact CCoinsViewCache.view_getCoins _ _
    · split at h
      · simp at h
      · simp only [Prod.mk.injEq] at h
        rw [← h.2]
        exact CCoinsViewCache.view_getCoins _ _

/-- The outpoints that the first loop spends before it ends. -/
def spentInputs (s : CTransactionRecordManager) : List CTxIn → List COutPoint
  | [] => []
  | txIn :: vin =>
    match s.spendInput env txIn with
    | (none, s') => txIn.prevout :: spentInputs s' vin
    | (some _, _) => []

theorem spendInputs_cons (s : CTransactionRecordManager) (txIn : CTxIn) (vin : List CTxIn) :
    s.spendInputs env (txIn :: vin) = match s.spendInput env txIn with
      | (none, s') => s'.spendInputs env vin
      | (some result, s') => (some result, s') := by
  rw [spendInputs]
  rcases s.spendInput env txIn with ⟨_ | result, s'⟩ <;> rfl

/-- The first loop spends `spentInputs` and nothing else. -/
theorem unspent_spendInputs (s : CTransactionRecordManager) (vin : List CTxIn) :
    (s.spendInputs env vin).2.unspent = spendAll s.unspent (s.spentInputs env vin) := by
  induction vin generalizing s with
  | nil => exact (spendAll_nil _).symm
  | cons txIn vin ih =>
    rw [spendInputs_cons, spentInputs]
    rcases hstep : s.spendInput env txIn with ⟨_ | result, s'⟩
    · rcases spendInput_continues env hstep with ⟨coins, -, -, -, hunspent⟩
      dsimp only
      rw [ih, hunspent, spendAll_cons]
    · dsimp only
      rw [spendAll_nil]
      exact unspent_of_view_eq (spendInput_stops env hstep)

theorem spendInputs_completes {s s' : CTransactionRecordManager} {vin : List CTxIn}
    (h : s.spendInputs env vin = (none, s')) :
    s.spentInputs env vin = vin.map CTxIn.prevout ∧
      ∀ txIn ∈ vin, (s.coinsViewCache.view txIn.prevout.hash).isSome = true := by
  induction vin generalizing s with
  | nil => exact ⟨rfl, fun _ h => absurd h List.not_mem_nil⟩
  | cons txIn vin ih =>
    rw [spendInputs_cons] at h
    rw [spentInputs]
    rcases hstep : s.spendInput env txIn with ⟨_ | result, s1⟩
    · rw [hstep] at h
      rcases spendInput_continues env hstep with ⟨coins, hview, -, hview', -⟩
      rcases ih h with ⟨hspent, hfound⟩
      dsimp only
      refine ⟨by rw [hspent, List.map_cons], ?_⟩
      intro other hother
      rcases List.mem_cons.mp hother with rfl | htail
      · rw [hview]
        rfl
      · have hsome := hfound other htail
        rw [hview'] at hsome
        by_cases hhash : other.prevout.hash = txIn.prevout.hash
        · rw [hhash, hview]
          rfl
        · rwa [Function.update_of_ne hhash] at hsome
    · rw [hstep] at h
      cases h

/-- Every transaction the second loop processes replaces the outputs under its
hash, also the one at which the loop ends. -/
theorem unspent_createCoins (s : CTransactionRecordManager) (tx : CTransaction) :
    (s.createCoins env tx).2.unspent =
      createUnspent s.unspent (tx.getHash env.hashes) (CCoins.ofTransaction tx) := by
  unfold createCoins
  dsimp only
  split
  · exact unspent_setCoins _ _ _
  · split <;> exact unspent_setCoins _ _ _

/-- The transactions that the second loop processes. -/
def createdTransactions (s : CTransactionRecordManager) : List CTransaction → List CTransaction
  | [] => []
  | tx :: txs =>
    match s.createCoins env tx with
    | (none, s') => tx :: createdTransactions s' txs
    | (some _, _) => [tx]

theorem createAllCoins_cons (s : CTransactionRecordManager) (tx : CTransaction)
    (txs : List CTransaction) :
    s.createAllCoins env (tx :: txs) = match s.createCoins env tx with
      | (none, s') => s'.createAllCoins env txs
      | (some result, s') => (some result, s') := by
  rw [createAllCoins]
  rcases s.createCoins env tx with ⟨_ | result, s'⟩ <;> rfl

theorem unspent_createAllCoins (s : CTransactionRecordManager) (txs : List CTransaction) :
    (s.createAllCoins env txs).2.unspent =
      (s.createdTransactions env txs).foldl (fun u tx =>
        createUnspent u (tx.getHash env.hashes) (CCoins.ofTransaction tx)) s.unspent := by
  induction txs generalizing s with
  | nil => rfl
  | cons tx txs ih =>
    have hstep := unspent_createCoins env s tx
    rw [createAllCoins_cons, createdTransactions]
    rcases hcreate : s.createCoins env tx with ⟨_ | result, s'⟩
    · rw [hcreate] at hstep
      dsimp only at hstep ⊢
      rw [ih, List.foldl_cons, hstep]
    · rw [hcreate] at hstep
      exact hstep

theorem createdTransactions_initial (s : CTransactionRecordManager) (txs : List CTransaction) :
    s.createdTransactions env txs <+: txs := by
  induction txs generalizing s with
  | nil => exact List.prefix_rfl
  | cons tx txs ih =>
    rw [createdTransactions]
    rcases s.createCoins env tx with ⟨_ | result, s'⟩
    · exact List.cons_prefix_cons.mpr ⟨rfl, ih s'⟩
    · exact List.cons_prefix_cons.mpr ⟨rfl, List.nil_prefix⟩

theorem createUnspent_foldl_eq_some {u : COutPoint → Option CTxOut} {txs : List CTransaction}
    {o : COutPoint} {out : CTxOut}
    (h : txs.foldl (fun u tx => createUnspent u (tx.getHash env.hashes)
      (CCoins.ofTransaction tx)) u o = some out) :
    u o = some out ∨ ∃ tx ∈ txs, tx.getHash env.hashes = o.hash ∧
      (CCoins.ofTransaction tx).unspent o.n.toNat = some out := by
  induction txs generalizing u with
  | nil => exact .inl h
  | cons tx txs ih =>
    rcases ih h with hu | ⟨tx', htx', hcreated⟩
    · simp only [createUnspent] at hu
      split at hu
      case isTrue hhash => exact .inr ⟨tx, List.mem_cons_self, hhash.symm, hu⟩
      case isFalse => exact .inl hu
    · exact .inr ⟨tx', List.mem_cons_of_mem _ htx', hcreated⟩

theorem isSome_of_unspent_flush {s : CTransactionRecordManager} {o : COutPoint}
    (h : (s.flush.unspent o).isSome = true) : (s.unspent o).isSome = true := by
  rcases CCoinsViewCache.unspent_flush s.coinsViewCache o with heq | heq
  · have hsame : s.flush.unspent o = s.unspent o := heq
    rwa [← hsame]
  · have hrewritten : s.flush.unspent o = (s.unspent o).bind CTxOut.rewritten := heq
    rw [hrewritten] at h
    cases hu : s.unspent o with
    | none => simp [hu] at h
    | some out => rfl

/-- What is unspent after a bundle was applied, however far, was unspent before
and not spent by it, or was created by it. -/
theorem unspent_addValidated {s : CTransactionRecordManager} {txs : List CTransaction}
    {o : COutPoint}
    (h : ((s.addValidatedTransactionBundle env txs).2.unspent o).isSome = true) :
    ((s.unspent o).isSome = true ∧ o ∉ s.spentInputs env (txs.flatMap CTransaction.vin)) ∨
      ∃ tx ∈ txs, tx.getHash env.hashes = o.hash ∧
        ((CCoins.ofTransaction tx).unspent o.n.toNat).isSome = true := by
  have hspent := unspent_spendInputs env s (txs.flatMap CTransaction.vin)
  have hfirst : ∀ {u : Option CTxOut},
      spendAll s.unspent (s.spentInputs env (txs.flatMap CTransaction.vin)) o = u →
      u.isSome = true →
      (s.unspent o).isSome = true ∧ o ∉ s.spentInputs env (txs.flatMap CTransaction.vin) := by
    intro u hu hsome
    subst hu
    unfold spendAll at hsome
    split at hsome
    · cases hsome
    · exact ⟨hsome, by assumption⟩
  unfold addValidatedTransactionBundle at h
  rcases hloop : s.spendInputs env (txs.flatMap CTransaction.vin) with ⟨_ | result, s1⟩
  · rw [hloop] at hspent
    simp only [hloop] at h
    dsimp only at hspent
    have hcreated : ((s1.createAllCoins env txs).2.unspent o).isSome = true := by
      unfold addRetrivedTransactionBundle at h
      dsimp only at h
      split at h
      · exact h
      · exact isSome_of_unspent_flush h
    rcases Option.isSome_iff_exists.mp hcreated with ⟨out, hout⟩
    rw [unspent_createAllCoins] at hout
    rcases createUnspent_foldl_eq_some env hout with hold | ⟨tx, htx, hhash, hcoins⟩
    · rw [hspent] at hold
      exact .inl (hfirst hold rfl)
    · refine .inr ⟨tx, (createdTransactions_initial env s1 txs).subset htx, hhash, ?_⟩
      rw [hcoins]
      rfl
  · rw [hloop] at hspent
    simp only [hloop] at h
    dsimp only at hspent
    rw [hspent] at h
    exact .inl (hfirst rfl h)

inductive LedgerOp
  | coinbase (tx : CTransaction) (keyId : CKeyID)
  | bundle (txs : List CTransaction)
  | retrieved (txs : List CTransaction)

def applyOp (s : CTransactionRecordManager) : LedgerOp → CTransactionRecordManager
  | .coinbase tx keyId => (s.addCoinbaseTransaction env tx keyId).2
  | .bundle txs => s.processBundle env txs
  | .retrieved txs => (s.addRetrivedTransactionBundle env txs).2

end CTransactionRecordManager

end Dims
