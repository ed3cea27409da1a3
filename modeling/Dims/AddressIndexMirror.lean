import Dims.Payments
import Dims.DoubleSpend

/-!
# The address index mirrors the coins view

The index has one entry for a key and a transaction, while outputs are spent one
by one; the entry goes when the first input presents its key. Index and view say
the same along every run in which an entry is erased exactly when its last
output is spent, and in which the new entries find room in their buckets.
-/

namespace Dims
open GuardedRun CTransactionRecordManager ByteCodec

section Conditions

variable (env : Environment)

def consumedPayee (view : Uint256 → Option CCoins) (txIn : CTxIn) : Option CKeyID :=
  (view txIn.prevout.hash).bind fun coins =>
    coins.vout[txIn.prevout.n.toNat]?.bind (payee env.hashes)

def consumedEntries (view : Uint256 → Option CCoins) (vin : List CTxIn) :
    List (CKeyID × Uint256) :=
  vin.filterMap fun txIn =>
    (consumedPayee env view txIn).map fun keyId => (keyId, txIn.prevout.hash)

def processedInputs (view : Uint256 → Option CCoins) (txs : List CTransaction) : List CTxIn :=
  (txs.flatMap CTransaction.vin).takeWhile fun txIn => Accepted view txIn

/-- The inputs erase the entries whose outputs they use up. -/
structure SpendsMirrored (view : Uint256 → Option CCoins) (vin : List CTxIn) : Prop where
  /-- An entry is presented only if no other output of the transaction pays its key. -/
  erased : ∀ p ∈ presentedEntries env view [] vin,
    ¬ Paid env.hashes (leftView view (vin.map CTxIn.prevout)) p.1 p.2
  /-- The last output that pays a key is spent by an input that presents the key. -/
  consumed : ∀ p ∈ consumedEntries env view vin,
    Paid env.hashes (leftView view (vin.map CTxIn.prevout)) p.1 p.2 ∨
      p ∈ presentedEntries env view [] vin

/-- The new transactions add the entries of their outputs and no others. -/
structure CreatesMirrored (s : CTransactionRecordManager) (vin : List CTxIn)
    (txs : List CTransaction) : Prop where
  creatable : ∀ tx ∈ txs, Creatable env.hashes tx
  stable : ∀ tx ∈ txs, (CCoins.ofTransaction tx).Stable
  /-- An output that pays nobody counts for the key id 0. -/
  nobody : ∀ tx ∈ txs, 0 ∈ indexKeys env.hashes tx →
    (CCoins.ofTransaction tx).Pays env.hashes 0
  /-- Transactions of the bundle with one hash have the same outputs. -/
  agree : ∀ tx ∈ txs, ∀ tx' ∈ txs, tx.getHash env.hashes = tx'.getHash env.hashes →
    CCoins.ofTransaction tx = CCoins.ofTransaction tx'
  /-- Coins that were there under the hash pay no other keys. -/
  repaid : ∀ tx ∈ txs, ∀ coins ∈ s.coinsViewCache.view (tx.getHash env.hashes),
    ∀ o ∈ coins.vout, ∀ keyId ∈ payee env.hashes o,
      (CCoins.ofTransaction tx).Pays env.hashes keyId
  /-- The new entries find room once the presented ones are erased. -/
  room : ∀ keyId, (s.addressToCoinsViewCache.eraseAll
    (presentedEntries env s.coinsViewCache.view [] vin)).addressToCoins.HasRoom keyId
      (newEntries env.hashes txs keyId)

/-- What a coinbase transaction pays, and what its hash paid before, is the key
id it is added for. -/
structure CoinbaseMirrored (s : CTransactionRecordManager) (tx : CTransaction) (keyId : CKeyID) :
    Prop where
  inputs : (getTransactionInputs env.hashes tx.vin).isSome = true
  stable : (CCoins.ofTransaction tx).Stable
  pays : ∀ k, (CCoins.ofTransaction tx).Pays env.hashes k ↔
    Paid env.hashes s.coinsViewCache.view k (tx.getHash env.hashes) ∨ k = keyId

/-- The operations after which the index still mirrors the view. -/
def Mirrored (s : CTransactionRecordManager) : LedgerOp → Prop
  | .coinbase tx keyId => CoinbaseMirrored env s tx keyId
  | .retrieved txs => CreatesMirrored env s [] txs
  | .bundle txs =>
    let view := s.coinsViewCache.view
    let kept := s.keptTransactions env txs
    (∀ txIn ∈ kept.flatMap CTransaction.vin, ∀ coins ∈ view txIn.prevout.hash,
        txIn.prevout.n.toNat < coins.vout.length) ∧
      SpendsMirrored env view (processedInputs view kept) ∧
      (processedInputs view kept = kept.flatMap CTransaction.vin →
        CreatesMirrored env s (kept.flatMap CTransaction.vin) kept)

/-- The index says what the view pays, and nothing waits for a flush. -/
structure MirrorInvariant (s : CTransactionRecordManager) : Prop where
  faithful : s.addressToCoinsViewCache.Faithful (Paid env.hashes s.coinsViewCache.view)
  flushed : ∀ keyId, s.addressToCoinsViewCache.insertCacheCoins keyId = []
  stable : StableView s.coinsViewCache.view

end Conditions

section Steps

variable {env : Environment} {s : CTransactionRecordManager}

theorem mirrorInvariant_empty : MirrorInvariant env .empty where
  faithful := CAddressToCoinsViewCache.faithful_empty.congr (by
    intro keyId hash
    simp [Paid, CTransactionRecordManager.empty, CCoinsViewCache.empty, CCoinsViewCache.view])
  flushed _ := rfl
  stable _ coins h := by
    simp [CTransactionRecordManager.empty, CCoinsViewCache.empty, CCoinsViewCache.view] at h

theorem paid_of_leftView {view : Uint256 → Option CCoins} {named : List COutPoint} {keyId : CKeyID}
    {hash : Uint256} (h : Paid env.hashes (leftView view named) keyId hash) :
    Paid env.hashes view keyId hash := by
  rcases h with ⟨coins, hcoins, o, ho, hpays⟩
  rcases Option.map_eq_some_iff.mp hcoins with ⟨before, hbefore, rfl⟩
  rcases List.mem_iff_getElem?.mp ho with ⟨n, hn⟩
  rw [CCoins.getElem?_leave] at hn
  rcases Option.map_eq_some_iff.mp hn with ⟨o', ho', heq⟩
  split at heq
  · rw [← heq, payee_of_isNull _ CTxOut.isNull_null] at hpays
    cases hpays
  · subst heq
    exact ⟨before, hbefore, o', List.mem_of_getElem? ho', hpays⟩

theorem mem_consumedEntries {view : Uint256 → Option CCoins} {vin : List CTxIn} {keyId : CKeyID}
    {hash : Uint256} (hpaid : Paid env.hashes view keyId hash)
    (hgone : ¬ Paid env.hashes (leftView view (vin.map CTxIn.prevout)) keyId hash) :
    (keyId, hash) ∈ consumedEntries env view vin := by
  rcases hpaid with ⟨coins, hcoins, o, ho, hpays⟩
  rcases List.mem_iff_getElem?.mp ho with ⟨n, hn⟩
  by_contra hnone
  apply hgone
  refine ⟨coins.leave hash (vin.map CTxIn.prevout), ?_, o, ?_, hpays⟩
  · have hcoins : view hash = some coins := hcoins
    simp [leftView, hcoins]
  · apply List.mem_of_getElem? (i := n)
    rw [CCoins.getElem?_leave, hn, Option.map_some, if_neg]
    rintro ⟨p, hp, hhash, hpos⟩
    rcases List.mem_map.mp hp with ⟨txIn, htxIn, rfl⟩
    apply hnone
    apply List.mem_filterMap.mpr
    refine ⟨txIn, htxIn, ?_⟩
    have hcoins : view txIn.prevout.hash = some coins := by rw [hhash]; exact hcoins
    rw [consumedPayee, hcoins, Option.bind_some, hpos, hn, Option.bind_some, hpays, hhash]
    rfl

theorem SpendsMirrored.paid_iff {view : Uint256 → Option CCoins} {vin : List CTxIn}
    (h : SpendsMirrored env view vin) (keyId : CKeyID) (hash : Uint256) :
    Paid env.hashes view keyId hash ∧ (keyId, hash) ∉ presentedEntries env view [] vin ↔
      Paid env.hashes (leftView view (vin.map CTxIn.prevout)) keyId hash := by
  constructor
  · rintro ⟨hpaid, hkept⟩
    by_contra hgone
    rcases h.consumed _ (mem_consumedEntries hpaid hgone) with hleft | hpresented
    · exact hgone hleft
    · exact hkept hpresented
  · intro hleft
    exact ⟨paid_of_leftView hleft, fun hpresented => h.erased _ hpresented hleft⟩

theorem createdView_cases (H : HashFunctions) (txs : List CTransaction)
    (view : Uint256 → Option CCoins) (hash : Uint256) :
    (∃ tx ∈ txs, tx.getHash H = hash ∧
      createdView H txs view hash = some (CCoins.ofTransaction tx)) ∨
    (∀ tx ∈ txs, tx.getHash H ≠ hash) ∧ createdView H txs view hash = view hash := by
  induction txs generalizing view with
  | nil => exact .inr ⟨by simp, rfl⟩
  | cons tx txs ih =>
    have hstep : createdView H (tx :: txs) view = createdView H txs
        (Function.update view (tx.getHash H) (some (CCoins.ofTransaction tx))) := rfl
    rcases ih (Function.update view (tx.getHash H) (some (CCoins.ofTransaction tx))) with
      ⟨tx', htx', hhash, hcoins⟩ | ⟨hnone, hold⟩
    · exact .inl ⟨tx', List.mem_cons_of_mem _ htx', hhash, by rw [hstep, hcoins]⟩
    · by_cases hhash : tx.getHash H = hash
      · refine .inl ⟨tx, List.mem_cons_self, hhash, ?_⟩
        rw [hstep, hold, ← hhash, Function.update_self]
      · refine .inr ⟨?_, ?_⟩
        · intro tx' htx'
          rcases List.mem_cons.mp htx' with rfl | htail
          · exact hhash
          · exact hnone tx' htail
        · rw [hstep, hold, Function.update_of_ne (Ne.symm hhash)]

theorem StableView.createdView {view : Uint256 → Option CCoins} (h : StableView view)
    (H : HashFunctions) (txs : List CTransaction)
    (htxs : ∀ tx ∈ txs, (CCoins.ofTransaction tx).Stable) : StableView (createdView H txs view) := by
  intro hash coins hcoins
  have hcoins : Dims.createdView H txs view hash = some coins := hcoins
  rcases createdView_cases H txs view hash with ⟨tx, htx, -, hnew⟩ | ⟨-, hold⟩
  · rw [hnew, Option.some.injEq] at hcoins
    rw [← hcoins]
    exact htxs tx htx
  · rw [hold] at hcoins
    exact h hash coins hcoins

theorem CreatesMirrored.mem_indexKeys {vin : List CTxIn} {txs : List CTransaction}
    (h : CreatesMirrored env s vin txs) {tx : CTransaction} (htx : tx ∈ txs) (keyId : CKeyID) :
    keyId ∈ indexKeys env.hashes tx ↔ (CCoins.ofTransaction tx).Pays env.hashes keyId := by
  constructor
  · intro hmem
    rcases List.mem_map.mp hmem with ⟨o, ho, heq⟩
    cases hpayee : payee env.hashes o with
    | none =>
      rw [hpayee, Option.getD_none] at heq
      subst heq
      exact h.nobody tx htx hmem
    | some k =>
      rw [hpayee, Option.getD_some] at heq
      exact ⟨o, ho, by rw [hpayee, heq]⟩
  · rintro ⟨o, ho, hpays⟩
    exact List.mem_map.mpr ⟨o, ho, by rw [hpays, Option.getD_some]⟩

theorem CreatesMirrored.paid_createdView {vin : List CTxIn} {txs : List CTransaction}
    (h : CreatesMirrored env s vin txs) (named : List COutPoint) (keyId : CKeyID) (hash : Uint256) :
    Paid env.hashes (createdView env.hashes txs (leftView s.coinsViewCache.view named)) keyId hash ↔
      Paid env.hashes (leftView s.coinsViewCache.view named) keyId hash ∨
        hash ∈ newEntries env.hashes txs keyId := by
  rw [mem_newEntries]
  rcases createdView_cases env.hashes txs (leftView s.coinsViewCache.view named) hash with
    ⟨tx, htx, rfl, hnew⟩ | ⟨hnone, hold⟩
  · have hpaid : Paid env.hashes
        (createdView env.hashes txs (leftView s.coinsViewCache.view named)) keyId
        (tx.getHash env.hashes) ↔ (CCoins.ofTransaction tx).Pays env.hashes keyId := by
      simp [Paid, hnew]
    rw [hpaid]
    constructor
    · intro hpays
      exact .inr ⟨tx, htx, rfl, (h.mem_indexKeys htx keyId).mpr hpays⟩
    · rintro (hleft | ⟨tx', htx', hhash, hmem⟩)
      · rcases paid_of_leftView hleft with ⟨coins, hcoins, o, ho, hpays⟩
        exact h.repaid tx htx coins hcoins o ho keyId hpays
      · rw [h.agree tx htx tx' htx' hhash.symm]
        exact (h.mem_indexKeys htx' keyId).mp hmem
  · have hpaid : Paid env.hashes
        (createdView env.hashes txs (leftView s.coinsViewCache.view named)) keyId hash ↔
        Paid env.hashes (leftView s.coinsViewCache.view named) keyId hash := by
      simp only [Paid, hold]
    rw [hpaid]
    constructor
    · exact .inl
    · rintro (hleft | ⟨tx, htx, hhash, -⟩)
      · exact hleft
      · exact absurd hhash (hnone tx htx)

theorem hasRoom_of_length_le (db : CAddressToCoins) (keyId : CKeyID) {coins : List Uint256}
    (h : coins.length ≤ 2) : db.HasRoom keyId coins := by
  intro c _
  calc (db.newCoins keyId (getBucket c) coins).card
      ≤ (coins.filter _).length := List.toFinset_card_le _
    _ ≤ coins.length := List.length_filter_le _ _
    _ ≤ 2 := h
    _ ≤ db.capacity keyId (getBucket c) := Nat.le_max_left 2 _

/-- The second loop and the flush after it keep the mirror. -/
theorem CreatesMirrored.step {vin : List CTxIn} {txs : List CTransaction}
    (h : CreatesMirrored env s vin txs) (hinv : MirrorInvariant env s)
    (hleft : ∀ keyId hash, Paid env.hashes s.coinsViewCache.view keyId hash ∧
      (keyId, hash) ∉ presentedEntries env s.coinsViewCache.view [] vin ↔
        Paid env.hashes (leftView s.coinsViewCache.view (vin.map CTxIn.prevout)) keyId hash)
    (s' : CTransactionRecordManager)
    (hview : s'.coinsViewCache.view = leftView s.coinsViewCache.view (vin.map CTxIn.prevout))
    (hindex : s'.addressToCoinsViewCache = s.addressToCoinsViewCache.eraseAll
      (presentedEntries env s.coinsViewCache.view [] vin)) :
    MirrorInvariant env (s'.addRetrivedTransactionBundle env txs).2 := by
  rcases createAllCoins_of_creatable env txs h.creatable s' with ⟨s2, hloop, hview2, hindex2⟩
  have hstable2 : StableView s2.coinsViewCache.view := by
    rw [hview2, hview]
    exact (hinv.stable.leftView _).createdView env.hashes txs h.stable
  have hentries : ∀ keyId, s2.addressToCoinsViewCache.insertCacheCoins keyId =
      newEntries env.hashes txs keyId := by
    intro keyId
    rw [hindex2, hindex]
    simp only [collectAll, CAddressToCoinsViewCache.insertCacheCoins_eraseAll, hinv.flushed,
      List.nil_append]
  have hfaithful : s2.addressToCoinsViewCache.Faithful
      (Paid env.hashes (leftView s.coinsViewCache.view (vin.map CTxIn.prevout))) := by
    rw [hindex2, hindex]
    exact ((hinv.faithful.eraseAll _).congr hleft).collected _ _
  have hflush := hfaithful.flush (by
    intro keyId
    rw [hentries, hindex2, hindex]
    exact h.room keyId)
  have hresult : (s'.addRetrivedTransactionBundle env txs).2 = s2.flush := by
    simp only [addRetrivedTransactionBundle, hloop]
  rw [hresult]
  refine ⟨?_, fun _ => rfl, hstable2.flush⟩
  apply hflush.congr
  intro keyId hash
  rw [hentries, CTransactionRecordManager.flush]
  dsimp only
  rw [paid_flush hstable2, hview2, hview, h.paid_createdView]

theorem MirrorInvariant.validated (h : MirrorInvariant env s) (txs : List CTransaction) :
    MirrorInvariant env (s.validated env txs) := by
  have hview := view_validated env s txs
  refine ⟨?_, h.flushed, ?_⟩
  · rw [hview]
    exact h.faithful
  · rw [hview]
    exact h.stable

theorem MirrorInvariant.coinbase (h : MirrorInvariant env s) {tx : CTransaction} {keyId : CKeyID}
    (hc : CoinbaseMirrored env s tx keyId) :
    MirrorInvariant env (s.addCoinbaseTransaction env tx keyId).2 := by
  rcases Option.isSome_iff_exists.mp hc.inputs with ⟨inputs, hinputs⟩
  have hstable : StableView (s.coinsViewCache.setCoins (tx.getHash env.hashes)
      (CCoins.ofTransaction tx)).view := by
    rw [CCoinsViewCache.view_setCoins]
    exact h.stable.createdView env.hashes [tx] (by simpa using hc.stable)
  have hinsert : ∀ k, ((s.addressToCoinsViewCache.setCoins keyId
      (tx.getHash env.hashes)).setTransactionInputs (tx.getHash env.hashes)
      inputs).insertCacheCoins k = if k = keyId then [tx.getHash env.hashes] else [] := by
    intro k
    by_cases hk : k = keyId
    · simp [CAddressToCoinsViewCache.setTransactionInputs, CAddressToCoinsViewCache.setCoins, hk,
        h.flushed]
    · simp [CAddressToCoinsViewCache.setTransactionInputs, CAddressToCoinsViewCache.setCoins, hk,
        h.flushed]
  have hfaithful : ((s.addressToCoinsViewCache.setCoins keyId
      (tx.getHash env.hashes)).setTransactionInputs (tx.getHash env.hashes) inputs).Faithful
        (Paid env.hashes s.coinsViewCache.view) := h.faithful.collected _ _
  have hflush := hfaithful.flush (by
    intro k
    apply hasRoom_of_length_le
    rw [hinsert]
    split <;> simp)
  simp only [addCoinbaseTransaction, hinputs]
  refine ⟨?_, fun _ => rfl, hstable.flush⟩
  apply hflush.congr
  intro k hash
  rw [hinsert, CTransactionRecordManager.flush]
  dsimp only
  rw [paid_flush hstable, CCoinsViewCache.view_setCoins]
  by_cases hhash : hash = tx.getHash env.hashes
  · subst hhash
    have hpaid : Paid env.hashes (Function.update s.coinsViewCache.view (tx.getHash env.hashes)
        (some (CCoins.ofTransaction tx))) k (tx.getHash env.hashes) ↔
        (CCoins.ofTransaction tx).Pays env.hashes k := by
      simp [Paid]
    rw [hpaid, hc.pays]
    by_cases hk : k = keyId
    · simp [hk]
    · simp [hk]
  · have hpaid : Paid env.hashes (Function.update s.coinsViewCache.view (tx.getHash env.hashes)
        (some (CCoins.ofTransaction tx))) k hash ↔ Paid env.hashes s.coinsViewCache.view k hash := by
      simp [Paid, hhash]
    rw [hpaid]
    by_cases hk : k = keyId
    · simp [hk, hhash]
    · simp [hk]

theorem MirrorInvariant.retrieved (h : MirrorInvariant env s) {txs : List CTransaction}
    (hc : CreatesMirrored env s [] txs) :
    MirrorInvariant env (s.addRetrivedTransactionBundle env txs).2 := by
  apply hc.step h _ s (leftView_nil _).symm rfl
  intro keyId hash
  simp [presentedEntries]

/-- A bundle is validated, its first loop runs up to the first input that is
refused, and where none is the second loop follows. -/
theorem MirrorInvariant.bundle (h : MirrorInvariant env s) {txs : List CTransaction}
    (hc : Mirrored env s (.bundle txs)) : MirrorInvariant env (s.processBundle env txs) := by
  rcases hc with ⟨hrange, hspends, hcreates⟩
  unfold processBundle
  split
  case isTrue => exact h.validated txs
  case isFalse =>
    have hview := view_validated env s txs
    generalize hkept : s.keptTransactions env txs = kept at *
    have hsplit : kept.flatMap CTransaction.vin = processedInputs s.coinsViewCache.view kept ++
        (kept.flatMap CTransaction.vin).dropWhile fun txIn =>
          Accepted s.coinsViewCache.view txIn := List.takeWhile_append_dropWhile.symm
    have haccepted : ∀ txIn ∈ processedInputs s.coinsViewCache.view kept,
        Accepted s.coinsViewCache.view txIn := by
      intro txIn htxIn
      simpa using List.mem_takeWhile_imp htxIn
    rcases spendInputs_of_accepted env [] _ haccepted (hview.trans (leftView_nil _).symm) with
      ⟨s2, hloop, hview2, hindex2⟩
    rw [List.append_nil, leftView_reverse] at hview2
    cases hrest : (kept.flatMap CTransaction.vin).dropWhile fun txIn =>
        Accepted s.coinsViewCache.view txIn with
    | nil =>
      rw [hrest, List.append_nil] at hsplit
      have hall := hcreates hsplit.symm
      have hresult : ((s.validated env txs).addValidatedTransactionBundle env kept).2 =
          (s2.addRetrivedTransactionBundle env kept).2 := by
        rw [← hsplit] at hloop
        simp only [addValidatedTransactionBundle, hloop]
      rw [hresult]
      rw [← hsplit] at hspends hview2 hindex2
      exact hall.step h hspends.paid_iff s2 hview2 hindex2
    | cons txIn rest =>
      rw [hrest] at hsplit
      have hrefused : ¬ Accepted s.coinsViewCache.view txIn := by
        have hhead := List.head?_dropWhile_not
          (fun txIn => decide (Accepted s.coinsViewCache.view txIn)) (kept.flatMap CTransaction.vin)
        rw [hrest] at hhead
        simpa using hhead
      have hmem : txIn ∈ kept.flatMap CTransaction.vin := by
        rw [hsplit]
        simp
      rcases spendInput_of_refused env hview2 (hrange txIn hmem) hrefused with
        ⟨result, s3, hstop, hview3, hindex3⟩
      have hresult : ((s.validated env txs).addValidatedTransactionBundle env kept).2 = s3 := by
        have hspent : (s.validated env txs).spendInputs env (kept.flatMap CTransaction.vin) =
            (some result, s3) := by
          rw [hsplit, spendInputs_append, hloop]
          dsimp only
          rw [spendInputs_cons, hstop]
        simp only [addValidatedTransactionBundle, hspent]
      rw [hresult]
      refine ⟨?_, ?_, ?_⟩
      · rw [hindex3, hview3, hview2, hindex2]
        exact (h.faithful.eraseAll _).congr hspends.paid_iff
      · intro keyId
        rw [hindex3, hindex2, CAddressToCoinsViewCache.insertCacheCoins_eraseAll]
        exact h.flushed keyId
      · rw [hview3, hview2]
        exact h.stable.leftView _

theorem MirrorInvariant.applyOp (h : MirrorInvariant env s) {op : LedgerOp}
    (hop : Mirrored env s op) : MirrorInvariant env (applyOp env s op) := by
  cases op with
  | coinbase tx keyId => exact h.coinbase hop
  | bundle txs => exact h.bundle hop
  | retrieved txs => exact h.retrieved hop

end Steps

/-- The index mirrors the view: after a run from the empty ledger in which every
operation meets `Mirrored`, the index lists for a key id exactly the hashes under
which the view holds an unspent output that pays the key. -/
theorem index_mirrors_view (env : Environment) (ops : List LedgerOp)
    (hrun : Guarded (applyOp env) (Mirrored env) .empty ops) (keyId : CKeyID) :
    ∃ coins index,
      (run (applyOp env) .empty ops).addressToCoinsViewCache.getCoins keyId = some (coins, index) ∧
      ∀ hash, hash ∈ coins ↔
        Paid env.hashes (run (applyOp env) .empty ops).coinsViewCache.view keyId hash := by
  have hinv := hrun.invariant (fun _ _ h hop => MirrorInvariant.applyOp h hop) mirrorInvariant_empty
  exact hinv.faithful.getCoins keyId

namespace TwoKeys

def verifier : ScriptVerifier where
  verifyScript scriptSig _ _ _ := scriptSig = [1, 0x30]
  parses_scriptSig := by
    intro scriptSig scriptPubKey tx n h
    simp only [decide_eq_true_eq] at h
    rw [h]
    decide

def env : Environment :=
  ⟨⟨fun w => BitVec.ofNat 256 (leValue w), fun w => BitVec.ofNat 160 (leValue w)⟩, verifier,
    fun _ _ => .null⟩

def pubKey (b : UInt8) : Bytes := 2 :: b :: List.replicate 31 0

def keyId (b : UInt8) : CKeyID := env.hashes.hash160 (pubKey b)

def payTo (nValue : Int64) (b : UInt8) : CTxOut := ⟨nValue, 33 :: pubKey b ++ [0xac]⟩

def mint (vout : List CTxOut) : CTransaction :=
  ⟨1, [⟨⟨0, 0xffffffff⟩, [], 0xffffffff⟩], vout, 0, 0⟩

def spendFirst (tx : CTransaction) (vout : List CTxOut) : CTransaction :=
  ⟨2, [⟨⟨tx.getHash env.hashes, 0⟩, [1, 0x30], 0xffffffff⟩], vout, 0, 0⟩

set_option maxRecDepth 10000 in
private theorem mint_mirrored :
    CoinbaseMirrored env .empty (mint [payTo 5 1]) (keyId 1) := by
  refine ⟨by decide, by decide, ?_⟩
  intro k
  have hcoins : CCoins.ofTransaction (mint [payTo 5 1]) = ⟨[payTo 5 1]⟩ := by decide
  have hpayee : payee env.hashes (payTo 5 1) = some (keyId 1) := by decide
  rw [hcoins]
  simp [CCoins.Pays, Paid, hpayee, CTransactionRecordManager.empty, CCoinsViewCache.empty,
    CCoinsViewCache.view, eq_comm]

set_option maxRecDepth 10000 in
private theorem spend_mirrored :
    Mirrored env (applyOp env .empty (.coinbase (mint [payTo 5 1]) (keyId 1)))
      (.bundle [spendFirst (mint [payTo 5 1]) [payTo 5 2]]) := by
  have hkept : (applyOp env .empty (.coinbase (mint [payTo 5 1]) (keyId 1))).keptTransactions env
      [spendFirst (mint [payTo 5 1]) [payTo 5 2]] =
        [spendFirst (mint [payTo 5 1]) [payTo 5 2]] := by decide
  have hprocessed : processedInputs (applyOp env .empty
      (.coinbase (mint [payTo 5 1]) (keyId 1))).coinsViewCache.view
        [spendFirst (mint [payTo 5 1]) [payTo 5 2]] =
      (spendFirst (mint [payTo 5 1]) [payTo 5 2]).vin := by decide
  have hpresented : presentedEntries env (applyOp env .empty
      (.coinbase (mint [payTo 5 1]) (keyId 1))).coinsViewCache.view []
        (spendFirst (mint [payTo 5 1]) [payTo 5 2]).vin =
      [(keyId 1, (mint [payTo 5 1]).getHash env.hashes)] := by decide
  have hconsumed : consumedEntries env (applyOp env .empty
      (.coinbase (mint [payTo 5 1]) (keyId 1))).coinsViewCache.view
        (spendFirst (mint [payTo 5 1]) [payTo 5 2]).vin =
      [(keyId 1, (mint [payTo 5 1]).getHash env.hashes)] := by decide
  simp only [Mirrored, hkept, hprocessed]
  refine ⟨by decide, ⟨?_, ?_⟩, fun _ => ⟨by decide, by decide, by decide, by decide, by decide, ?_⟩⟩
  · rw [hpresented, List.forall_mem_singleton]
    decide
  · rw [hpresented, hconsumed, List.forall_mem_singleton]
    exact .inr List.mem_cons_self
  · intro k
    apply hasRoom_of_length_le
    simp only [newEntries, List.flatMap_cons, List.flatMap_nil, List.append_nil, List.length_map]
    exact le_trans (List.length_filter_le _ _) (by decide)

/-- A minted output is spent in favour of another key. -/
theorem mirrored_after_spending :
    let ops := [LedgerOp.coinbase (mint [payTo 5 1]) (keyId 1),
      .bundle [spendFirst (mint [payTo 5 1]) [payTo 5 2]]]
    ∃ coins index, (run (applyOp env) .empty ops).addressToCoinsViewCache.getCoins (keyId 2) =
        some (coins, index) ∧
      ∀ hash, hash ∈ coins ↔
        Paid env.hashes (run (applyOp env) .empty ops).coinsViewCache.view (keyId 2) hash :=
  index_mirrors_view env [.coinbase (mint [payTo 5 1]) (keyId 1),
    .bundle [spendFirst (mint [payTo 5 1]) [payTo 5 2]]] ⟨mint_mirrored, spend_mirrored, trivial⟩
    (keyId 2)

set_option maxRecDepth 10000 in
/-- Of two outputs that pay one key the first is spent, and the entry of both is
erased. -/
theorem entry_lost :
    let minted := mint [payTo 5 1, payTo 5 1]
    let s := run (applyOp env) .empty [.coinbase minted (keyId 1)]
    let bundle := [spendFirst minted [payTo 5 2]]
    s.keptTransactions env bundle = bundle ∧
    ((s.validated env bundle).addValidatedTransactionBundle env bundle).1 = .returned true ∧
    ((applyOp env s (.bundle bundle)).addressToCoinsViewCache.getCoins (keyId 1)).map Prod.fst =
      some [] ∧
    Paid env.hashes (applyOp env s (.bundle bundle)).coinsViewCache.view (keyId 1)
      (minted.getHash env.hashes) := by
  refine ⟨by decide, by decide, by decide, by decide⟩

end TwoKeys

end Dims
