import Dims.SpendingConditions
import Dims.BundleValidation

/-!
# Who may spend

The ledger with the scripts executed. Along a run of bundles an output that pays to the hash
of a key stays as it is until a transaction is kept that spends it, and that transaction
presents a key of this hash and a signature by the key over itself.
-/

namespace Dims
open ByteCodec GuardedRun UnspentSet

/-- The flags with which the tracker checks the inputs of a bundle, `SCRIPT_VERIFY_NOCACHE`
and nothing else. -/
def bundleFlags : ScriptFlags := ⟨false, false, false, true⟩

/-- The execution of the script of an input as the ledger orders it. -/
def bundleContext (D : ScriptDigests) (S : SignatureScheme) (tx : CTransaction) (nIn : ℕ) :
    ScriptContext :=
  ⟨D, S, bundleFlags, tx, nIn, 0⟩

/-- `VerifyScript` as the ledger calls it. -/
def scriptVerifier (D : ScriptDigests) (S : SignatureScheme) : ScriptVerifier where
  verifyScript scriptSig scriptPubKey tx nIn :=
    (bundleContext D S tx nIn).verifyScript scriptSig scriptPubKey
  parses_scriptSig _ _ _ _ h := ScriptContext.parses_of_verifyScript h

/-- The ledger's surroundings with the execution of scripts spelled out. -/
def scriptEnvironment (D : ScriptDigests) (S : SignatureScheme)
    (stray : CCoins → UInt32 → CTxOut) : Environment :=
  ⟨D.toHashFunctions, scriptVerifier D S, stray⟩

/-- An input of the transaction names the outpoint, and its script presents a key with the hash
and a signature by the key over the transaction. -/
def PresentsKey (D : ScriptDigests) (S : SignatureScheme) (keyId : CKeyID) (o : COutPoint)
    (tx : CTransaction) : Prop :=
  ∃ nIn txIn vchPubKey vchSig below, tx.vin[nIn]? = some txIn ∧ txIn.prevout = o ∧
    (bundleContext D S tx nIn).evalScript [] txIn.scriptSig =
      some (vchPubKey :: vchSig :: below) ∧
    D.hash160 vchPubKey = keyId ∧
    (bundleContext D S tx nIn).checkSig vchSig vchPubKey
      ((CScript.setDestination keyId).findAndDelete vchSig) = true

namespace CTransactionRecordManager

section Kept

variable {env : Environment} {s : CTransactionRecordManager} {bundle : List CTransaction}

theorem not_fails_of_kept (havailable : ∀ tx ∈ bundle, InputsAvailable s.coinsViewCache tx)
    {tx : CTransaction} (htx : tx ∈ s.keptTransactions env bundle) :
    ¬ Fails env s.coinsViewCache tx := by
  obtain ⟨⟨tx, i⟩, hmem, rfl⟩ := List.mem_map.mp htx
  obtain ⟨hzip, hnot⟩ := List.mem_filter.mp hmem
  have hat : bundle[i]? = some tx := List.mem_zipIdx_iff_getElem?.mp hzip
  have hresult : ValidatesFrom env s.coinsViewCache .unused 0 bundle
      (s.validateTransactionBundle env bundle).1 := validatesFrom_iff.mpr rfl
  have hiff := hresult.mem_iff_iff.mpr havailable i
  rw [Nat.zero_add] at hiff
  intro hfails
  exact (of_decide_eq_true hnot) (hiff.mpr ⟨tx, hat, hfails⟩)

theorem kept_of_not_fails (havailable : ∀ tx ∈ bundle, InputsAvailable s.coinsViewCache tx)
    {tx : CTransaction} (htx : tx ∈ bundle) (hright : ¬ Fails env s.coinsViewCache tx) :
    tx ∈ s.keptTransactions env bundle := by
  obtain ⟨i, hat⟩ := List.mem_iff_getElem?.mp htx
  have hresult : ValidatesFrom env s.coinsViewCache .unused 0 bundle
      (s.validateTransactionBundle env bundle).1 := validatesFrom_iff.mpr rfl
  have hiff := hresult.mem_iff_iff.mpr havailable i
  rw [Nat.zero_add] at hiff
  have hnot : i ∉ (s.validateTransactionBundle env bundle).1.2 := by
    intro hin
    obtain ⟨tx', hat', hfails⟩ := hiff.mp hin
    rw [hat, Option.some.injEq] at hat'
    exact hright (hat' ▸ hfails)
  exact List.mem_map.mpr
    ⟨(tx, i), List.mem_filter.mpr ⟨List.mem_zipIdx_iff_getElem?.mpr hat, decide_eq_true hnot⟩, rfl⟩

theorem verifyScript_of_kept (havailable : ∀ tx ∈ bundle, InputsAvailable s.coinsViewCache tx)
    {tx : CTransaction} (htx : tx ∈ s.keptTransactions env bundle) (hcoinbase : tx.isCoinBase = false)
    {nIn : ℕ} {txIn : CTxIn} (hin : tx.vin[nIn]? = some txIn) {prevOut : CTxOut}
    (hprevOut : s.unspent txIn.prevout = some prevOut) :
    env.verifier.verifyScript txIn.scriptSig prevOut.scriptPubKey tx nIn = true := by
  by_contra hrejected
  rw [Bool.not_eq_true] at hrejected
  exact not_fails_of_kept havailable htx
    (.inr ⟨hcoinbase, (txIn, nIn), List.mem_zipIdx_iff_getElem?.mpr hin, prevOut, hprevOut, hrejected⟩)

end Kept

theorem rewritten_of_lt {out : CTxOut} (h : out.nValue.toUInt64.toNat < 2 ^ 60) :
    out.rewritten = some out := by
  have hnull : out.isNull = false := by
    by_contra hnull
    simp only [CTxOut.isNull, Bool.not_eq_false, decide_eq_true_eq] at hnull
    rw [hnull] at h
    exact absurd h (by decide)
  have hstored : out.stored = out := by
    rw [CTxOut.stored, hnull, if_neg (by decide), CTxOut.storedAmount,
      CTxOut.decompressAmount_compressAmount _ h]
    simp
  rw [CTxOut.rewritten, hstored, CTxOut.ifUnspent_eq_some]
  exact ⟨rfl, hnull⟩

section Unspent

variable {env : Environment} {s : CTransactionRecordManager} {o : COutPoint} {out : CTxOut}

theorem createUnspent_foldl_of_ne {u : COutPoint → Option CTxOut} {txs : List CTransaction}
    (hne : ∀ tx ∈ txs, tx.getHash env.hashes ≠ o.hash) :
    txs.foldl (fun u tx => createUnspent u (tx.getHash env.hashes) (CCoins.ofTransaction tx)) u o =
      u o := by
  induction txs generalizing u with
  | nil => rfl
  | cons tx txs ih =>
    rw [List.foldl_cons, ih fun tx' htx' => hne tx' (List.mem_cons_of_mem tx htx')]
    exact if_neg (Ne.symm (hne tx List.mem_cons_self))

theorem unspent_flush_of_rewritten (hout : s.unspent o = some out)
    (hrewritten : out.rewritten = some out) : s.flush.unspent o = some out := by
  rcases CCoinsViewCache.unspent_flush s.coinsViewCache o with hsame | hread
  · exact hsame.trans hout
  · exact hread.trans (by rw [show s.coinsViewCache.unspent o = some out from hout]; exact hrewritten)

theorem unspent_addValidated_of_not_mem {txs : List CTransaction} (hout : s.unspent o = some out)
    (hrewritten : out.rewritten = some out)
    (hfresh : ∀ tx ∈ txs, tx.getHash env.hashes ≠ o.hash)
    (hspent : o ∉ s.spentInputs env (txs.flatMap CTransaction.vin)) :
    (s.addValidatedTransactionBundle env txs).2.unspent o = some out := by
  have hfirst := congrFun (unspent_spendInputs env s (txs.flatMap CTransaction.vin)) o
  rw [spendAll, if_neg hspent, hout] at hfirst
  unfold addValidatedTransactionBundle
  rcases hloop : s.spendInputs env (txs.flatMap CTransaction.vin) with ⟨_ | result, s1⟩
  · rw [hloop] at hfirst
    have hcreated : (s1.createAllCoins env txs).2.unspent o = some out := by
      rw [unspent_createAllCoins, createUnspent_foldl_of_ne]
      · exact hfirst
      · intro tx htx
        exact hfresh tx ((createdTransactions_initial env s1 txs).subset htx)
    dsimp only
    unfold addRetrivedTransactionBundle
    dsimp only
    split
    · exact hcreated
    · exact unspent_flush_of_rewritten hcreated hrewritten
  · rw [hloop] at hfirst
    exact hfirst

theorem mem_vin_of_spentInputs {vin : List CTxIn} (h : o ∈ s.spentInputs env vin) :
    ∃ txIn ∈ vin, txIn.prevout = o := by
  induction vin generalizing s with
  | nil => cases h
  | cons txIn vin ih =>
    rw [spentInputs] at h
    rcases hstep : s.spendInput env txIn with ⟨_ | result, s'⟩
    · rw [hstep] at h
      rcases List.mem_cons.mp h with rfl | hrest
      · exact ⟨txIn, List.mem_cons_self, rfl⟩
      · obtain ⟨txIn', hmem, heq⟩ := ih hrest
        exact ⟨txIn', List.mem_cons_of_mem txIn hmem, heq⟩
    · rw [hstep] at h
      cases h

/-- One bundle: the output stays, or a kept transaction names it. -/
theorem unspent_processBundle {bundle : List CTransaction} (hout : s.unspent o = some out)
    (hrewritten : out.rewritten = some out)
    (hfresh : ∀ tx ∈ s.keptTransactions env bundle, tx.getHash env.hashes ≠ o.hash) :
    (s.processBundle env bundle).unspent o = some out ∨
      ∃ tx ∈ s.keptTransactions env bundle, ∃ txIn ∈ tx.vin, txIn.prevout = o := by
  have hvalidated : (s.validated env bundle).unspent o = some out := by
    rw [unspent_validated, hout]
  unfold processBundle
  split
  case isTrue => exact .inl hvalidated
  case isFalse =>
    by_cases hspent : o ∈ (s.validated env bundle).spentInputs env
        ((s.keptTransactions env bundle).flatMap CTransaction.vin)
    · obtain ⟨txIn, hmem, heq⟩ := mem_vin_of_spentInputs hspent
      obtain ⟨tx, htx, hin⟩ := List.mem_flatMap.mp hmem
      exact .inr ⟨tx, htx, txIn, hin, heq⟩
    · exact .inl (unspent_addValidated_of_not_mem hvalidated hrewritten hfresh hspent)

end Unspent

section Authority

variable {D : ScriptDigests} {S : SignatureScheme} {stray : CCoins → UInt32 → CTxOut}

/-- The bundles of a run: the inputs of each are there, so that its validation comes to its end,
and no kept transaction has the hash of the outpoint. -/
def Orderly (env : Environment) (o : COutPoint) (s : CTransactionRecordManager)
    (bundle : List CTransaction) : Prop :=
  (∀ tx ∈ bundle, InputsAvailable s.coinsViewCache tx) ∧
    ∀ tx ∈ s.keptTransactions env bundle, tx.getHash env.hashes ≠ o.hash

/-- A kept transaction that names an output to a key presents the key and its signature. -/
theorem presentsKey_of_kept {s : CTransactionRecordManager} {bundle : List CTransaction}
    {keyId : CKeyID} {o : COutPoint} {nValue : Int64} {tx : CTransaction} {txIn : CTxIn}
    (hok : Orderly (scriptEnvironment D S stray) o s bundle)
    (hout : s.unspent o = some ⟨nValue, .setDestination keyId⟩) (hnull : o.isNull = false)
    (htx : tx ∈ s.keptTransactions (scriptEnvironment D S stray) bundle) (hin : txIn ∈ tx.vin)
    (heq : txIn.prevout = o) : PresentsKey D S keyId o tx := by
  obtain ⟨nIn, hat⟩ := List.mem_iff_getElem?.mp hin
  have hcoinbase : tx.isCoinBase = false := by
    unfold CTransaction.isCoinBase
    split
    case h_1 only hvin =>
      rw [hvin, List.mem_singleton] at hin
      rw [← hin, heq, hnull]
    case h_2 => rfl
  have hverify := verifyScript_of_kept hok.1 htx hcoinbase hat (by rw [heq]; exact hout)
  obtain ⟨vchPubKey, vchSig, below, hsig, -, hhash, hcheck⟩ :=
    (ScriptContext.verifyScript_setDestination _ _ _).mp hverify
  simp only [ScriptContext.checkCanonicalSig, Bool.and_eq_true] at hcheck
  exact ⟨nIn, txIn, vchPubKey, vchSig, below, hat, heq, hsig, hhash, hcheck.2⟩

/-- Along every orderly run an output that pays to the hash of a key is unspent and unchanged,
or on the way a transaction was kept that names it and presents a key of this hash and a
signature by the key over the transaction. -/
theorem spent_only_with_key (D : ScriptDigests) (S : SignatureScheme)
    (stray : CCoins → UInt32 → CTxOut) (ledger : CTransactionRecordManager)
    (bundles : List (List CTransaction)) (o : COutPoint) (nValue : Int64) (keyId : CKeyID)
    (hrun : Guarded (processBundle (scriptEnvironment D S stray))
      (Orderly (scriptEnvironment D S stray) o) ledger bundles)
    (hout : ledger.unspent o = some ⟨nValue, .setDestination keyId⟩)
    (hvalue : nValue.toUInt64.toNat < 2 ^ 60) (hnull : o.isNull = false) :
    (run (processBundle (scriptEnvironment D S stray)) ledger bundles).unspent o =
        some ⟨nValue, .setDestination keyId⟩ ∨
      ∃ before bundle, before ++ [bundle] <+: bundles ∧
        ∃ tx ∈ (run (processBundle (scriptEnvironment D S stray)) ledger before).keptTransactions
            (scriptEnvironment D S stray) bundle, PresentsKey D S keyId o tx := by
  induction bundles generalizing ledger with
  | nil => exact .inl hout
  | cons bundle bundles ih =>
    have hrewritten : (⟨nValue, .setDestination keyId⟩ : CTxOut).rewritten =
        some ⟨nValue, .setDestination keyId⟩ := rewritten_of_lt hvalue
    rcases unspent_processBundle hout hrewritten hrun.1.2 with hstays | ⟨tx, htx, txIn, hin, heq⟩
    · rcases ih _ hrun.2 hstays with hend | ⟨before, later, hprefix, tx, htx, hkey⟩
      · exact .inl hend
      · exact .inr ⟨bundle :: before, later, List.cons_prefix_cons.mpr ⟨rfl, hprefix⟩, tx, htx, hkey⟩
    · exact .inr ⟨[], bundle, List.cons_prefix_cons.mpr ⟨rfl, List.nil_prefix⟩, tx, htx,
        presentsKey_of_kept hrun.1 hout hnull htx hin heq⟩

end Authority

end CTransactionRecordManager

namespace KeyedCoin
open CTransactionRecordManager

def digests : ScriptDigests :=
  ⟨⟨fun w => BitVec.ofNat 256 w.length, fun w => BitVec.ofNat 160 (leValue w)⟩, fun _ => 0, fun _ => 0,
    fun _ => 0⟩

def scheme : SignatureScheme := ⟨fun _ _ vchSig => vchSig = [9]⟩

def vchPubKey : Bytes := 2 :: List.replicate 32 0

def ledger : CTransactionRecordManager :=
  ⟨⟨fun _ => none, fun h => if h = 7 then some ⟨[⟨5, .setDestination 2⟩]⟩ else none⟩, .empty⟩

def spend : CTransaction :=
  ⟨1, [⟨⟨7, 0⟩, ScriptContext.pushAll [[9, 1], vchPubKey], 0xffffffff⟩], [⟨4, []⟩], 0, 0⟩

def stray : CCoins → UInt32 → CTxOut := fun _ _ => .null

/-- The output is spent by a transaction that presents the key. -/
theorem spent_with_key :
    ∃ before bundle, before ++ [bundle] <+: [[spend]] ∧
      ∃ tx ∈ (run (processBundle (scriptEnvironment digests scheme stray)) ledger
          before).keptTransactions (scriptEnvironment digests scheme stray) bundle,
        PresentsKey digests scheme 2 ⟨7, 0⟩ tx := by
  have hinputs : ∀ tx ∈ [spend], InputsAvailable ledger.coinsViewCache tx := by
    simp only [List.mem_singleton, forall_eq]
    exact .inr (List.forall_mem_singleton.mpr rfl)
  have hkept : ledger.keptTransactions (scriptEnvironment digests scheme stray) [spend] = [spend] := by
    decide
  have hfresh : ∀ tx ∈ ledger.keptTransactions (scriptEnvironment digests scheme stray) [spend],
      tx.getHash (scriptEnvironment digests scheme stray).hashes ≠ 7 := by
    rw [hkept]
    decide
  rcases spent_only_with_key digests scheme stray ledger [[spend]] ⟨7, 0⟩ 5 2
    ⟨⟨hinputs, hfresh⟩, trivial⟩ rfl (by decide) (by decide) with hstays | hspent
  · exact absurd hstays (by decide)
  · exact hspent

end KeyedCoin

end Dims
