import Dims.SpendingAuthority

/-!
# Signing

`SignSignature` of script.cpp with the keys of a key store. It tests what it has made against
the script of the output, more strictly than the ledger does. A transaction that the wallet
creates is signed input by input, and the scripts of all inputs are accepted by the ledger
when the transaction is complete.
-/

namespace Dims
open ByteCodec

universe u

/-- The keys of key.cpp, computed by OpenSSL. -/
structure KeyScheme (κ : Type u) where
  getPubKey : κ → CPubKey
  sign : κ → Uint256 → Option Bytes

/-- `CBasicKeyStore` -/
structure CKeyStore (κ : Type u) where
  mapKeys : CKeyID → Option κ
  mapScripts : Uint160 → Option CScript

/-- Everything that signs: the digests and signatures of OpenSSL and the keys at hand. -/
structure SigningContext (κ : Type u) where
  digests : ScriptDigests
  scheme : SignatureScheme
  keys : KeyScheme κ
  keystore : CKeyStore κ

namespace SigningContext

variable {κ : Type u} (c : SigningContext κ)

/-- `Sign1` -/
def sign1 (address : CKeyID) (hash : Uint256) (nHashType : UInt32) (scriptSigRet : CScript) :
    Option CScript :=
  (c.keystore.mapKeys address).bind fun key =>
    (c.keys.sign key hash).map fun vchSig =>
      scriptSigRet ++ CScript.push (vchSig ++ [nHashType.toUInt8])

/-- The loop of `SignN`: keys that are not at hand are passed over. -/
def signNLoop (hash : Uint256) (nHashType : UInt32) (nRequired : ℕ) :
    List Bytes → ℕ → CScript → ℕ × CScript
  | [], nSigned, scriptSigRet => (nSigned, scriptSigRet)
  | pubkey :: pubkeys, nSigned, scriptSigRet =>
    if nSigned < nRequired then
      match c.sign1 ((CPubKey.ofBytes pubkey).getID c.digests.toHashFunctions) hash nHashType
          scriptSigRet with
      | some scriptSigRet => signNLoop hash nHashType nRequired pubkeys (nSigned + 1) scriptSigRet
      | none => signNLoop hash nHashType nRequired pubkeys nSigned scriptSigRet
    else (nSigned, scriptSigRet)

/-- `SignN` -/
def signN (multisigdata : List Bytes) (hash : Uint256) (nHashType : UInt32)
    (scriptSigRet : CScript) : Option CScript :=
  let nRequired := ((multisigdata.headD []).headD 0).toNat
  let signed := c.signNLoop hash nHashType nRequired (multisigdata.tail.dropLast) 0 scriptSigRet
  if signed.1 = nRequired then some signed.2 else none

/-- `Solver` with a key store: the type of the output and the script for the input. -/
def solverSign (scriptPubKey : CScript) (hash : Uint256) (nHashType : UInt32) :
    Option (TxnOutType × CScript) :=
  (solver scriptPubKey).bind fun solved =>
    let solution := solved.2.headD []
    match solved.1 with
    | .nonstandard | .nullData => none
    | .pubkey =>
      (c.sign1 ((CPubKey.ofBytes solution).getID c.digests.toHashFunctions) hash nHashType []).map
        fun scriptSig => (.pubkey, scriptSig)
    | .pubkeyhash =>
      (c.sign1 (uint160OfBytes solution) hash nHashType []).bind fun scriptSig =>
        (c.keystore.mapKeys (uint160OfBytes solution)).map fun key =>
          (.pubkeyhash, scriptSig ++ CScript.push (c.keys.getPubKey key).bytes)
    | .scripthash =>
      (c.keystore.mapScripts (uint160OfBytes solution)).map fun subscript => (.scripthash, subscript)
    | .multisig =>
      (c.signN solved.2 hash nHashType [0]).map fun scriptSig => (.multisig, scriptSig)

/-- The flags of the test at the end of `SignSignature`, `SCRIPT_VERIFY_P2SH` and
`SCRIPT_VERIFY_STRICTENC`. -/
def strictFlags : ScriptFlags := ⟨true, true, false, false⟩

/-- The script that `SignSignature` gives to the input, before it is tested. -/
def makeScriptSig (fromPubKey : CScript) (txTo : CTransaction) (nIn : ℕ) (nHashType : UInt32) :
    Option CScript :=
  (c.solverSign fromPubKey (signatureHash fromPubKey txTo nIn nHashType c.digests.toHashFunctions)
      nHashType).bind fun solved =>
    if solved.1 = .scripthash then
      (c.solverSign solved.2 (signatureHash solved.2 txTo nIn nHashType c.digests.toHashFunctions)
        nHashType).bind fun subSolved =>
          if subSolved.1 = .scripthash then none
          else some (subSolved.2 ++ CScript.push solved.2)
    else some solved.2

/-- The execution that tests what was made. -/
def testContext (txTo : CTransaction) (nIn : ℕ) : ScriptContext :=
  ⟨c.digests, c.scheme, strictFlags, txTo, nIn, 0⟩

/-- `SignSignature`: the script of the input, where it returns true. -/
def signSignature (nHashType : UInt32) (fromPubKey : CScript) (txTo : CTransaction) (nIn : ℕ) :
    Option CScript :=
  (c.makeScriptSig fromPubKey txTo nIn nHashType).bind fun scriptSig =>
    let txTo :=
      { txTo with vin := txTo.vin.modify nIn fun txIn => { txIn with scriptSig := scriptSig } }
    if (c.testContext txTo nIn).verifyScript scriptSig fromPubKey then some scriptSig else none

end SigningContext

namespace ScriptContext

/-- The check of a signature is the same for transactions that differ in the scripts of their
inputs. -/
theorem checkSig_congr {c c' : ScriptContext} (hdigests : c.digests = c'.digests)
    (hscheme : c.scheme = c'.scheme) (hIn : c.nIn = c'.nIn) (hHashType : c.nHashType = c'.nHashType)
    (htx : SameButScripts c.txTo c'.txTo) (vchSig vchPubKey : Bytes) (scriptCode : CScript) :
    c.checkSig vchSig vchPubKey scriptCode = c'.checkSig vchSig vchPubKey scriptCode := by
  simp only [checkSig, hdigests, hscheme, hIn, hHashType, signatureHash_congr htx]

theorem length_le_pushAll {values : List Bytes} {vch : Bytes} (h : vch ∈ values) :
    vch.length ≤ (pushAll values).length := by
  induction values with
  | nil => cases h
  | cons first values ih =>
    simp only [pushAll, List.flatMap_cons, CScript.push, List.length_append] at ih ⊢
    rcases List.mem_cons.mp h with rfl | hrest
    · omega
    · have := ih hrest
      omega

theorem evalScript_pushAll_congr {c c' : ScriptContext} {values stack : List Bytes}
    (h : c.evalScript [] (pushAll values) = some stack) :
    c'.evalScript [] (pushAll values) = some stack := by
  have hlength : (pushAll values).length ≤ 10000 := (evalScript_eq_some.mp h).1
  have hsmall : ∀ vch ∈ values, vch.length < 2 ^ 32 := fun vch hvch => by
    have := length_le_pushAll hvch
    omega
  exact (evalScript_pushAll hsmall).mpr ((evalScript_pushAll hsmall).mp h)

end ScriptContext

namespace SigningContext
open CScript

variable {κ : Type u} {c : SigningContext κ} {tx tx' : CTransaction} {nIn : ℕ} {nHashType : UInt32}
  {keyId : CKeyID} {scriptSig : CScript}

theorem makeScriptSig_setDestination :
    c.makeScriptSig (setDestination keyId) tx nIn nHashType =
      (c.keystore.mapKeys keyId).bind fun key =>
        (c.keys.sign key (signatureHash (setDestination keyId) tx nIn nHashType
          c.digests.toHashFunctions)).map fun vchSig =>
            ScriptContext.pushAll [vchSig ++ [nHashType.toUInt8], (c.keys.getPubKey key).bytes] := by
  simp only [makeScriptSig, solverSign, solver_setDestination, Option.bind_some, List.headD_cons,
    uint160OfBytes_leBytes, sign1]
  cases c.keystore.mapKeys keyId with
  | none => rfl
  | some key =>
    simp only [Option.bind_some, Option.map_some]
    cases c.keys.sign key (signatureHash (setDestination keyId) tx nIn nHashType
      c.digests.toHashFunctions) with
    | none => rfl
    | some vchSig => simp [ScriptContext.pushAll]

theorem checkSig_testContext (htx : SameButScripts tx tx') (vchSig vchPubKey : Bytes)
    (scriptCode : CScript) :
    (c.testContext tx nIn).checkSig vchSig vchPubKey scriptCode =
      (bundleContext c.digests c.scheme tx' nIn).checkSig vchSig vchPubKey scriptCode :=
  @ScriptContext.checkSig_congr (c.testContext tx nIn) (bundleContext c.digests c.scheme tx' nIn)
    rfl rfl rfl rfl htx vchSig vchPubKey scriptCode

/-- What was signed for an output to a key is accepted by the ledger, whatever scripts the other
inputs have been given since. -/
theorem accepted_of_signed (stray : CCoins → UInt32 → CTxOut)
    (h : c.signSignature nHashType (setDestination keyId) tx nIn = some scriptSig)
    (htx : SameButScripts tx tx') :
    (scriptEnvironment c.digests c.scheme stray).verifier.verifyScript scriptSig
      (setDestination keyId) tx' nIn = true := by
  obtain ⟨made, hmade, htest⟩ := Option.bind_eq_some_iff.mp h
  dsimp only at htest
  split at htest
  case isFalse => cases htest
  case isTrue hverify =>
    cases htest
    obtain ⟨vchPubKey, vchSig, below, hsig, hlimit, hhash, hcheck⟩ :=
      (ScriptContext.verifyScript_setDestination _ _ _).mp hverify
    rw [makeScriptSig_setDestination] at hmade
    obtain ⟨key, -, hmade⟩ := Option.bind_eq_some_iff.mp hmade
    obtain ⟨signature, -, rfl⟩ := Option.map_eq_some_iff.mp hmade
    simp only [ScriptContext.checkCanonicalSig, Bool.and_eq_true] at hcheck
    apply (ScriptContext.verifyScript_setDestination _ _ _).mpr
    refine ⟨vchPubKey, vchSig, below, ScriptContext.evalScript_pushAll_congr hsig, hlimit, hhash, ?_⟩
    have hcanonical : isCanonicalSignature bundleFlags vchSig = true ∧
        isCanonicalPubKey bundleFlags vchPubKey = true := ⟨rfl, rfl⟩
    have hcheckSig := hcheck.2
    rw [checkSig_testContext ((SameButScripts.setScript tx nIn _).symm.trans htx)] at hcheckSig
    simp only [ScriptContext.checkCanonicalSig, bundleContext, hcanonical, Bool.true_and]
    exact hcheckSig

end SigningContext

namespace CWalletContext

variable {W : CWalletContext}

/-- The inputs are signed one after another. A script that was made stays in its place, and the
complete transaction differs from the one it was made for in scripts alone. -/
theorem signInputs_signed {coins : List CAvailableCoin} {nIn : ℕ} {tx signed : CTransaction}
    (hsign : W.signInputs coins nIn tx = some signed) :
    SameButScripts tx signed ∧ (∀ k < nIn, signed.vin[k]? = tx.vin[k]?) ∧
      ∀ i coin txIn, coins[i]? = some coin → signed.vin[nIn + i]? = some txIn →
        ∃ tx', W.signSignature coin.coin.scriptPubKey tx' (nIn + i) = some txIn.scriptSig ∧
          SameButScripts tx' signed := by
  induction coins generalizing nIn tx with
  | nil =>
    obtain rfl := Option.some.inj hsign
    exact ⟨.refl tx, fun _ _ => rfl, fun _ _ _ h => by simp at h⟩
  | cons coin coins ih =>
    obtain ⟨scriptSig, hscript, hrest⟩ := Option.bind_eq_some_iff.mp hsign
    obtain ⟨hsame, hbefore, hsigned⟩ := ih hrest
    have htx : SameButScripts tx signed := (SameButScripts.setScript tx nIn scriptSig).trans hsame
    refine ⟨htx, fun k hk => ?_, fun i coin' txIn hcoin hin => ?_⟩
    · rw [hbefore k (by omega)]
      simp only [List.getElem?_modify, show nIn ≠ k by omega, if_false]
      cases tx.vin[k]? <;> rfl
    · cases i with
      | zero =>
        obtain rfl : coin = coin' := by simpa using hcoin
        rw [Nat.add_zero, hbefore nIn (by omega)] at hin
        simp only [List.getElem?_modify, if_true, Option.map_eq_map, Option.map_eq_some_iff] at hin
        obtain ⟨txIn', -, rfl⟩ := hin
        exact ⟨tx, hscript, htx⟩
      | succ i =>
        rw [show nIn + (i + 1) = nIn + 1 + i by omega] at hin ⊢
        exact hsigned i coin' txIn (by simpa using hcoin) hin

/-- The coins that a transaction may be made of: those that the caller asks for and those that
the wallet chooses. -/
def Offers (W : CWalletContext) (coinsToUse : List CAvailableCoin) (coin : CAvailableCoin) : Prop :=
  coin ∈ coinsToUse ∨ ∃ nValue setCoins nValueIn,
    W.selectCoins nValue = some (setCoins, nValueIn) ∧ coin ∈ setCoins

theorem requestCoins_subset (nTotalValue : Int64) (coinsToUse : List CAvailableCoin) :
    (requestCoins nTotalValue coinsToUse).2.2 ⊆ coinsToUse := by
  induction coinsToUse generalizing nTotalValue with
  | nil => simp [requestCoins]
  | cons coin coinsToUse ih =>
    simp only [requestCoins]
    split
    · simp
    · exact List.cons_subset_cons coin (ih _)

theorem createTransaction_signed {H : HashFunctions} {outputs : List (CKeyID × Int64)}
    {coinsToUse : List CAvailableCoin} {trackerKey : CPubKey} {price : UInt32} {tx : CTransaction}
    (hcreate : W.createTransaction H outputs coinsToUse trackerKey price = some tx) {nIn : ℕ}
    {txIn : CTxIn} (hin : tx.vin[nIn]? = some txIn) :
    ∃ coin, W.Offers coinsToUse coin ∧ txIn.prevout = ⟨coin.hash, coin.position⟩ ∧
      ∃ tx', W.signSignature coin.coin.scriptPubKey tx' nIn = some txIn.scriptSig ∧
        SameButScripts tx' tx := by
  simp only [createTransaction] at hcreate
  split at hcreate
  · cases hcreate
  · split at hcreate
    · cases hcreate
    · obtain ⟨⟨setCoins, nValueIn⟩, hselect, hselected⟩ := Option.bind_eq_some_iff.mp hcreate
      obtain ⟨vout, -, hsigning⟩ := Option.bind_eq_some_iff.mp hselected
      obtain ⟨signed, hsigned, hsize⟩ := Option.bind_eq_some_iff.mp hsigning
      split at hsize
      · cases hsize
      · obtain rfl := Option.some.inj hsize
        obtain ⟨hsame, -, hscripts⟩ := signInputs_signed hsigned
        have hvin := congrArg (·[nIn]?) hsame.vin
        simp only [List.getElem?_map, hin, Option.map_some] at hvin
        obtain ⟨_, hnew, hprevout⟩ := Option.map_eq_some_iff.mp hvin
        obtain ⟨coin, hcoin, rfl⟩ := Option.map_eq_some_iff.mp hnew
        refine ⟨coin, ?_, (Prod.mk.inj hprevout).1.symm, ?_⟩
        · rcases List.mem_append.mp (List.mem_of_getElem? hcoin) with hset | hrequested
          · exact .inr ⟨_, setCoins, nValueIn, hselect, hset⟩
          · exact .inl (requestCoins_subset _ _ hrequested)
        · have := hscripts nIn coin txIn hcoin (by rwa [Nat.zero_add])
          rwa [Nat.zero_add] at this

end CWalletContext

namespace CTransactionRecordManager
open CWalletContext

universe v

/-- A wallet that signs each input with some key store makes transactions that the ledger keeps:
if the coins it is offered are unspent in the ledger and pay to keys, the transaction is among
the kept ones of every bundle whose validation comes to its end. -/
theorem kept_of_created {κ : Type v} (c : SigningContext κ) (stray : CCoins → UInt32 → CTxOut)
    (W : CWalletContext)
    (hsign : ∀ fromPubKey tx nIn, ∃ keystore, W.signSignature fromPubKey tx nIn =
      { c with keystore := keystore }.signSignature 1 fromPubKey tx nIn)
    (outputs : List (CKeyID × Int64)) (coinsToUse : List CAvailableCoin) (trackerKey : CPubKey)
    (price : UInt32) (tx : CTransaction)
    (hcreate : W.createTransaction c.digests.toHashFunctions outputs coinsToUse trackerKey price =
      some tx)
    (s : CTransactionRecordManager)
    (hcoins : ∀ coin, W.Offers coinsToUse coin → s.unspent ⟨coin.hash, coin.position⟩ = some coin.coin ∧
      ∃ keyId, coin.coin.scriptPubKey = .setDestination keyId)
    (bundle : List CTransaction) (htx : tx ∈ bundle)
    (havailable : ∀ tx ∈ bundle, InputsAvailable s.coinsViewCache tx) :
    tx ∈ s.keptTransactions (scriptEnvironment c.digests c.scheme stray) bundle := by
  have haccepted : ¬ ScriptFails (scriptEnvironment c.digests c.scheme stray) s.coinsViewCache tx := by
    rintro ⟨-, ⟨txIn, nIn⟩, hzip, prevOut, hprevOut, hrejected⟩
    have hin : tx.vin[nIn]? = some txIn := List.mem_zipIdx_iff_getElem?.mp hzip
    obtain ⟨coin, hoffer, hprevout, tx', hscript, hsame⟩ := createTransaction_signed hcreate hin
    obtain ⟨hunspent, keyId, hpays⟩ := hcoins coin hoffer
    obtain rfl : coin.coin = prevOut := by
      dsimp only at hprevOut
      rw [hprevout] at hprevOut
      exact Option.some.inj (hunspent.symm.trans hprevOut)
    obtain ⟨keystore, hstore⟩ := hsign coin.coin.scriptPubKey tx' nIn
    rw [hstore, hpays] at hscript
    have htrue := SigningContext.accepted_of_signed stray hscript hsame
    dsimp only at hrejected
    rw [hpays, htrue] at hrejected
    cases hrejected
  exact kept_of_not_fails havailable htx fun hfails =>
    hfails.elim (fun hmissing => hmissing (havailable tx htx)) haccepted

end CTransactionRecordManager

namespace SignedCoin
open CWalletContext CTransactionRecordManager
open KeyedCoin (digests vchPubKey stray)

/-- A signature in the canonical form, of two numbers that are one. -/
def vchSig : Bytes := [0x30, 6, 2, 1, 1, 2, 1, 1]

def scheme : SignatureScheme := ⟨fun _ _ signature => signature = vchSig⟩

def signing : SigningContext Unit :=
  ⟨digests, scheme, ⟨fun _ => .ofBytes vchPubKey, fun _ _ => some vchSig⟩,
    ⟨fun keyId => if keyId = 2 then some () else none, fun _ => none⟩⟩

def ledger : CTransactionRecordManager :=
  ⟨⟨fun _ => none,
    fun h => if h = 7 ∨ h = 8 then some ⟨[⟨5, .setDestination 2⟩]⟩ else none⟩, .empty⟩

def coin : CAvailableCoin := ⟨⟨5, .setDestination 2⟩, 0, 7⟩

def second : CAvailableCoin := ⟨⟨5, .setDestination 2⟩, 0, 8⟩

/-- The wallet chooses both outputs for whatever is to be paid. -/
def wallet : CWalletContext where
  selectCoins _ := some ([coin, second], 10)
  determineChangeAddress _ := none
  getRandInt _ := 0
  signSignature := signing.signSignature 1

def scriptSig : CScript := ScriptContext.pushAll [vchSig ++ [1], vchPubKey]

def payment : CTransaction :=
  ⟨1, [⟨⟨7, 0⟩, scriptSig, 0xffffffff⟩, ⟨⟨8, 0⟩, scriptSig, 0xffffffff⟩], payTo [(3, 10), (2, 0)],
    0, 0⟩

theorem coin_of_offers {coin' : CAvailableCoin} (h : wallet.Offers [] coin') :
    coin' = coin ∨ coin' = second := by
  rcases h with hmem | ⟨nValue, setCoins, nValueIn, hselect, hmem⟩
  · cases hmem
  · cases hselect
    simpa using hmem

/-- What the wallet makes of its coins is kept: both inputs are signed by the key. -/
theorem payment_kept :
    payment ∈ ledger.keptTransactions (scriptEnvironment digests scheme stray) [payment] := by
  have havailable : ∀ tx ∈ [payment], InputsAvailable ledger.coinsViewCache tx := by
    simp only [List.mem_singleton, forall_eq]
    refine .inr fun txIn hin => ?_
    rcases List.mem_pair.mp hin with rfl | rfl <;> rfl
  apply kept_of_created signing stray wallet (fun _ _ _ => ⟨signing.keystore, rfl⟩) [(3, 10)] []
    (.ofBytes vchPubKey) 0 payment
  · decide +kernel
  · intro coin' hcoin
    rcases coin_of_offers hcoin with rfl | rfl <;> exact ⟨rfl, 2, rfl⟩
  · exact List.mem_singleton_self payment
  · exact havailable

end SignedCoin

end Dims
