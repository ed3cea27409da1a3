import Dims.CheckQueue
import Dims.DoubleSpend

/-!
# Validation of a bundle

The transactions of a bundle are checked one by one, with one check queue for the scripts
of all of them. The indexes that are reported are compared with the verdicts of the view.
-/

namespace Dims
open ByteCodec

/-- `CScriptCheck` -/
structure CScriptCheck where
  scriptPubKey : CScript
  txTo : CTransaction
  nIn : ℕ

namespace CScriptCheck

/-- The call operator. -/
def check (env : Environment) (c : CScriptCheck) : Bool :=
  match c.txTo.vin[c.nIn]? with
  | some txIn => env.verifier.verifyScript txIn.scriptSig c.scriptPubKey c.txTo c.nIn
  | none => false

end CScriptCheck

namespace CTransactionRecordManager

variable (env : Environment)

/-- The check of one input, which copies the script of the output that it spends. -/
def scriptCheck (view : CCoinsViewCache) (tx : CTransaction) (txIn : CTxIn) (nIn : ℕ) :
    Option CScriptCheck :=
  ((view.view txIn.prevout.hash).bind fun coins => coins.vout[txIn.prevout.n.toNat]?).map
    fun prevOut => ⟨prevOut.scriptPubKey, tx, nIn⟩

/-- `CheckInputs` with a vector for the checks; no vector where it returns false. -/
def gatherChecks (view : CCoinsViewCache) (tx : CTransaction) :
    Option (List CScriptCheck) × CCoinsViewCache :=
  if tx.isCoinBase then (some [], view)
  else
    let found := view.haveInputs tx
    if found.1 then
      (some (tx.vin.zipIdx.filterMap fun p => scriptCheck found.2 tx p.1 p.2), found.2)
    else (none, found.2)

/-- `validateTransactionBundle` from the transaction with the given index on, with the result
and the indexes, for any order of the steps of the queue. -/
inductive ValidatesFrom :
    CCoinsViewCache → CCheckQueue CScriptCheck → ℕ → List CTransaction → Bool × List ℕ → Prop
  | nil (view : CCoinsViewCache) (q : CCheckQueue CScriptCheck) (transactionIndex : ℕ) :
    ValidatesFrom view q transactionIndex [] (true, [])
  | fails {view : CCoinsViewCache} {tx : CTransaction} (q : CCheckQueue CScriptCheck)
      (transactionIndex : ℕ) (txs : List CTransaction) (hcheck : (gatherChecks view tx).1 = none) :
    ValidatesFrom view q transactionIndex (tx :: txs) (false, [])
  | waits {view : CCoinsViewCache} {q q' : CCheckQueue CScriptCheck} {transactionIndex : ℕ}
      {tx : CTransaction} {txs : List CTransaction} {vChecks : List CScriptCheck} {fRet : Bool}
      {result : Bool × List ℕ} (hcheck : (gatherChecks view tx).1 = some vChecks)
      (hwait : CCheckQueue.Waits (CScriptCheck.check env) (q.add vChecks) fRet q')
      (hrest : ValidatesFrom (gatherChecks view tx).2 q' (transactionIndex + 1) txs result) :
    ValidatesFrom view q transactionIndex (tx :: txs)
      (result.1, if fRet then result.2 else transactionIndex :: result.2)

/-- The input check of the view. A coinbase has no inputs to check. -/
def InputsAvailable (view : CCoinsViewCache) (tx : CTransaction) : Prop :=
  tx.isCoinBase ∨ ∀ o ∈ tx.prevouts, (view.unspent o).isSome

/-- The script check of an input fails against the output that it spends. -/
def ScriptFails (view : CCoinsViewCache) (tx : CTransaction) : Prop :=
  tx.isCoinBase = false ∧ ∃ p ∈ tx.vin.zipIdx, ∃ prevOut, view.unspent p.1.prevout = some prevOut ∧
    env.verifier.verifyScript p.1.scriptSig prevOut.scriptPubKey tx p.2 = false

def Fails (view : CCoinsViewCache) (tx : CTransaction) : Prop :=
  ¬InputsAvailable view tx ∨ ScriptFails env view tx

/-- The indexes of the transactions that fail, in their order. -/
structure Exact (view : CCoinsViewCache) (txs : List CTransaction) (invalidTransactions : List ℕ) :
    Prop where
  increasing : invalidTransactions.Pairwise (· < ·)
  mem_iff : ∀ i, i ∈ invalidTransactions ↔ ∃ tx, txs[i]? = some tx ∧ Fails env view tx

variable {env} {view : CCoinsViewCache}

theorem vout_of_unspent {o : COutPoint} {prevOut : CTxOut} (h : view.unspent o = some prevOut) :
    ((view.view o.hash).bind fun coins => coins.vout[o.n.toNat]?) = some prevOut := by
  obtain ⟨coins, hcoins, hunspent⟩ := Option.bind_eq_some_iff.mp h
  obtain ⟨found, hfound, hnull⟩ := Option.bind_eq_some_iff.mp hunspent
  obtain ⟨rfl, -⟩ := CTxOut.ifUnspent_eq_some.mp hnull
  rw [hcoins]
  exact hfound

theorem inputsAvailable_iff {tx : CTransaction} (htx : tx.isCoinBase = false) :
    InputsAvailable view tx ↔ (view.haveInputs tx).1 = true := by
  rw [CCoinsViewCache.haveInputs_fst view tx htx, InputsAvailable, htx]
  simp

theorem gatherChecks_eq_none_iff {tx : CTransaction} :
    (gatherChecks view tx).1 = none ↔ ¬InputsAvailable view tx := by
  unfold gatherChecks
  cases htx : tx.isCoinBase with
  | true =>
    have havailable : InputsAvailable view tx := .inl htx
    simp [havailable]
  | false =>
    rw [inputsAvailable_iff htx]
    cases hfound : (view.haveInputs tx).1 <;> simp [hfound]

/-- The checks that are gathered succeed unless the script check of an input fails. -/
theorem all_check_iff {tx : CTransaction} {vChecks : List CScriptCheck}
    (h : (gatherChecks view tx).1 = some vChecks) :
    vChecks.all (CScriptCheck.check env) ↔ ¬ScriptFails env view tx := by
  cases htx : tx.isCoinBase with
  | true =>
    simp only [gatherChecks, htx, ↓reduceIte, Option.some.injEq] at h
    subst h
    simp [ScriptFails, htx]
  | false =>
    have havailable : (view.haveInputs tx).1 = true := by
      rw [← inputsAvailable_iff htx]
      by_contra hmissing
      rw [gatherChecks_eq_none_iff.mpr hmissing] at h
      cases h
    simp only [gatherChecks, htx, Bool.false_eq_true, ↓reduceIte, havailable, Option.some.injEq] at h
    subst h
    have hunspent := (CCoinsViewCache.haveInputs_fst view tx htx).mp havailable
    have hcheck : ∀ p ∈ tx.vin.zipIdx, ∀ prevOut, view.unspent p.1.prevout = some prevOut →
        scriptCheck (view.haveInputs tx).2 tx p.1 p.2 = some ⟨prevOut.scriptPubKey, tx, p.2⟩ ∧
          CScriptCheck.check env ⟨prevOut.scriptPubKey, tx, p.2⟩ =
            env.verifier.verifyScript p.1.scriptSig prevOut.scriptPubKey tx p.2 := by
      intro p hp prevOut hprevOut
      have hvin : tx.vin[p.2]? = some p.1 := List.mem_zipIdx_iff_getElem?.mp hp
      refine ⟨?_, by simp [CScriptCheck.check, hvin]⟩
      rw [scriptCheck, CCoinsViewCache.view_haveInputs, vout_of_unspent hprevOut]
      rfl
    simp only [List.all_eq_true, List.mem_filterMap, ScriptFails, htx, true_and, not_exists, not_and]
    constructor
    · intro hall p hp prevOut hprevOut hfails
      obtain ⟨hgathered, hresult⟩ := hcheck p hp prevOut hprevOut
      have hok := hall _ ⟨p, hp, hgathered⟩
      rw [hresult, hfails] at hok
      cases hok
    · rintro hall c ⟨p, hp, hgathered⟩
      have hin : p.1.prevout ∈ tx.prevouts :=
        List.mem_map_of_mem (List.fst_mem_of_mem_zipIdx hp)
      obtain ⟨prevOut, hprevOut⟩ := Option.isSome_iff_exists.mp (hunspent _ hin)
      obtain ⟨hgathered', hresult⟩ := hcheck p hp prevOut hprevOut
      obtain rfl := Option.some.inj (hgathered.symm.trans hgathered')
      rw [hresult]
      exact Bool.eq_true_of_not_eq_false (hall p hp prevOut hprevOut)

theorem view_gatherChecks (view : CCoinsViewCache) (tx : CTransaction) :
    (gatherChecks view tx).2.view = view.view := by
  unfold gatherChecks
  split
  · rfl
  · dsimp only
    split <;> exact CCoinsViewCache.view_haveInputs view tx

theorem inputsAvailable_congr {view' : CCoinsViewCache} (h : view'.view = view.view)
    (tx : CTransaction) : InputsAvailable view' tx ↔ InputsAvailable view tx := by
  simp only [InputsAvailable, unspent_of_view_eq h]

theorem fails_congr {view' : CCoinsViewCache} (h : view'.view = view.view) (tx : CTransaction) :
    Fails env view' tx ↔ Fails env view tx := by
  simp only [Fails, ScriptFails, inputsAvailable_congr h, unspent_of_view_eq h]

variable (env) in
theorem exists_validatesFrom (txs : List CTransaction) (view : CCoinsViewCache)
    (transactionIndex : ℕ) :
    ∃ result, ValidatesFrom env view .unused transactionIndex txs result := by
  induction txs generalizing view transactionIndex with
  | nil => exact ⟨_, .nil view .unused transactionIndex⟩
  | cons tx txs ih =>
    cases hcheck : (gatherChecks view tx).1 with
    | none => exact ⟨_, .fails .unused transactionIndex txs hcheck⟩
    | some vChecks =>
      obtain ⟨result, hrest⟩ := ih (gatherChecks view tx).2 (transactionIndex + 1)
      exact ⟨_, .waits hcheck (CCheckQueue.waits_add_iff.mpr ⟨rfl, rfl⟩) hrest⟩

theorem ValidatesFrom.increasing {q : CCheckQueue CScriptCheck} {transactionIndex : ℕ}
    {txs : List CTransaction} {result : Bool × List ℕ}
    (h : ValidatesFrom env view q transactionIndex txs result) :
    (∀ i ∈ result.2, transactionIndex ≤ i) ∧ result.2.Pairwise (· < ·) := by
  induction h with
  | nil => exact ⟨fun i hi => absurd hi List.not_mem_nil, .nil⟩
  | fails => exact ⟨fun i hi => absurd hi List.not_mem_nil, .nil⟩
  | @waits view q q' transactionIndex tx txs vChecks fRet result hcheck hwait hrest ih =>
    obtain ⟨hle, hsorted⟩ := ih
    cases fRet with
    | true => exact ⟨fun i hi => (Nat.le_succ _).trans (hle i hi), hsorted⟩
    | false =>
      refine ⟨fun i hi => ?_, List.pairwise_cons.mpr ⟨fun i hi => hle i hi, hsorted⟩⟩
      rcases List.mem_cons.mp hi with rfl | hi
      · exact le_rfl
      · exact (Nat.le_succ _).trans (hle i hi)

/-- The indexes are right if and only if every transaction passes the input check: at the
first one that does not, the loop is left. -/
theorem ValidatesFrom.mem_iff_iff {transactionIndex : ℕ} {txs : List CTransaction}
    {result : Bool × List ℕ} (h : ValidatesFrom env view .unused transactionIndex txs result) :
    (∀ k, transactionIndex + k ∈ result.2 ↔ ∃ tx, txs[k]? = some tx ∧ Fails env view tx) ↔
      ∀ tx ∈ txs, InputsAvailable view tx := by
  induction txs generalizing view transactionIndex result with
  | nil =>
    cases h
    simp
  | cons tx txs ih =>
    cases h with
    | fails q i txs hcheck =>
      have hmissing := gatherChecks_eq_none_iff.mp hcheck
      refine iff_of_false (fun hright => ?_) fun hall => hmissing (hall tx List.mem_cons_self)
      exact absurd ((hright 0).mpr ⟨tx, rfl, .inl hmissing⟩) List.not_mem_nil
    | @waits _ _ _ _ _ _ vChecks fRet result hcheck hwait hrest =>
      obtain ⟨rfl, rfl⟩ := CCheckQueue.waits_add_iff.mp hwait
      have havailable : InputsAvailable view tx := by
        by_contra hmissing
        rw [gatherChecks_eq_none_iff.mpr hmissing] at hcheck
        cases hcheck
      have hfails : Fails env view tx ↔ ¬vChecks.all (CScriptCheck.check env) := by
        rw [all_check_iff hcheck, not_not]
        exact or_iff_right fun hmissing => hmissing havailable
      have hbefore : transactionIndex ∉ result.2 := fun hin =>
        absurd (hrest.increasing.1 _ hin) (Nat.not_succ_le_self _)
      have htail := ih hrest
      simp only [inputsAvailable_congr (view_gatherChecks view tx),
        fails_congr (view_gatherChecks view tx)] at htail
      rw [List.forall_mem_cons, and_iff_right havailable, ← htail]
      have hlater : ∀ k, transactionIndex + (k + 1) ∈ (if vChecks.all (CScriptCheck.check env) then
          result.2 else transactionIndex :: result.2) ↔ transactionIndex + 1 + k ∈ result.2 := by
        intro k
        rw [Nat.add_right_comm, Nat.add_assoc]
        split
        · rfl
        · rw [List.mem_cons]
          exact or_iff_right (by omega)
      constructor
      · intro hall k
        rw [← hlater k, hall (k + 1), List.getElem?_cons_succ]
      · rintro hall (_ | k)
        · simp only [Nat.add_zero, List.getElem?_cons_zero, Option.some.injEq, exists_eq_left', hfails]
          split
          case isTrue hok => exact iff_of_false hbefore (not_not.mpr hok)
          case isFalse hnot => exact iff_of_true List.mem_cons_self hnot
        · rw [hlater k, hall k, List.getElem?_cons_succ]

/-- To check the scripts of a transaction at once is to gather the checks and to run all of
them. -/
theorem checkInputs_eq (env : Environment) (view : CCoinsViewCache) (tx : CTransaction) :
    checkInputs env view tx =
      ((gatherChecks view tx).1.map fun vChecks => vChecks.all (CScriptCheck.check env),
        (gatherChecks view tx).2) := by
  cases htx : tx.isCoinBase with
  | true => simp [checkInputs, gatherChecks, htx]
  | false =>
    cases hfound : (view.haveInputs tx).1 with
    | false => simp [checkInputs, gatherChecks, htx, hfound]
    | true =>
      have hgathered : (gatherChecks view tx).1 = some (tx.vin.zipIdx.filterMap fun p =>
          scriptCheck (view.haveInputs tx).2 tx p.1 p.2) := by
        simp [gatherChecks, htx, hfound]
      have hunspent := (CCoinsViewCache.haveInputs_fst view tx htx).mp hfound
      simp only [checkInputs, gatherChecks, htx, hfound, Bool.false_eq_true, ↓reduceIte,
        Option.map_some, Prod.mk.injEq, Option.some.injEq, and_true]
      rw [Bool.eq_iff_iff, all_check_iff hgathered, List.all_eq_true]
      simp only [ScriptFails, htx, true_and, not_exists, not_and, Bool.not_eq_false,
        CCoinsViewCache.view_haveInputs]
      refine forall₂_congr fun p hp => ?_
      have hin : p.1.prevout ∈ tx.prevouts :=
        List.mem_map_of_mem (List.fst_mem_of_mem_zipIdx hp)
      obtain ⟨prevOut, hprevOut⟩ := Option.isSome_iff_exists.mp (hunspent _ hin)
      rw [vout_of_unspent hprevOut, hprevOut]
      simp

/-- The functional model of the validation is what the queue computes. -/
theorem validatesFrom_iff {transactionIndex : ℕ} {txs : List CTransaction}
    {result : Bool × List ℕ} :
    ValidatesFrom env view .unused transactionIndex txs result ↔
      result = (validateFrom env view transactionIndex txs).1 := by
  have hforward : ∀ {result : Bool × List ℕ},
      ValidatesFrom env view .unused transactionIndex txs result →
        result = (validateFrom env view transactionIndex txs).1 := by
    induction txs generalizing view transactionIndex with
    | nil =>
      intro result h
      cases h
      rfl
    | cons tx txs ih =>
      intro result h
      cases h with
      | fails q i txs hcheck => simp [validateFrom, checkInputs_eq, hcheck]
      | @waits _ _ _ _ _ _ vChecks fRet result hcheck hwait hrest =>
        obtain ⟨rfl, rfl⟩ := CCheckQueue.waits_add_iff.mp hwait
        simp [validateFrom, checkInputs_eq, hcheck, ih hrest]
  refine ⟨hforward, ?_⟩
  rintro rfl
  obtain ⟨result, hresult⟩ := exists_validatesFrom env txs view transactionIndex
  rwa [← hforward hresult]

/-- Validation is exact if and only if every transaction of the bundle passes the input check
against the view. -/
theorem validates_exactly_iff (env : Environment) (s : CTransactionRecordManager)
    (txs : List CTransaction) :
    ((∃ result, ValidatesFrom env s.coinsViewCache .unused 0 txs result) ∧
      ∀ result, ValidatesFrom env s.coinsViewCache .unused 0 txs result →
        Exact env s.coinsViewCache txs result.2) ↔
      ∀ tx ∈ txs, InputsAvailable s.coinsViewCache tx := by
  obtain ⟨result, hresult⟩ := exists_validatesFrom env txs s.coinsViewCache 0
  have hiff : ∀ result, ValidatesFrom env s.coinsViewCache .unused 0 txs result →
      (Exact env s.coinsViewCache txs result.2 ↔ ∀ tx ∈ txs, InputsAvailable s.coinsViewCache tx) := by
    intro result h
    rw [← h.mem_iff_iff]
    simp only [Nat.zero_add]
    exact ⟨fun hexact => hexact.mem_iff, fun hmem => ⟨h.increasing.2, hmem⟩⟩
  exact ⟨fun hall => (hiff result hresult).mp (hall.2 result hresult),
    fun hall => ⟨⟨result, hresult⟩, fun result h => (hiff result h).mpr hall⟩⟩

namespace MissingCoins

def environment : Environment :=
  ⟨⟨fun _ => 0, fun _ => 0⟩, ⟨fun _ _ _ _ => false, parses_of_rejected⟩, fun _ _ => .null⟩

def transaction : CTransaction := ⟨1, [⟨⟨7, 0⟩, [], 0⟩], [], 0, 0⟩

/-- It is not reported. -/
theorem unreported :
    ¬∀ (env : Environment) (s : CTransactionRecordManager) (txs : List CTransaction),
      (∃ result, ValidatesFrom env s.coinsViewCache .unused 0 txs result) ∧
        ∀ result, ValidatesFrom env s.coinsViewCache .unused 0 txs result →
          Exact env s.coinsViewCache txs result.2 := by
  intro h
  have hexact := (h environment .empty [transaction]).2 (false, []) (.fails .unused 0 [] rfl)
  have hfails : Fails environment empty.coinsViewCache transaction := .inl (by
    rw [inputsAvailable_iff rfl]
    decide)
  exact absurd ((hexact.mem_iff 0).mpr ⟨transaction, rfl, hfails⟩) List.not_mem_nil

end MissingCoins

end CTransactionRecordManager

end Dims
