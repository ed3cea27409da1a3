import Dims.PendingTransactions
import Dims.LedgerSteps

/-!
# The wallet and the ledger

The wallet follows the ledger if the coins that are available for its keys are exactly the
unspent outputs that pay to them. A transaction of the wallet is applied to the ledger, and its
admission removes and adds what has been recorded when it was created.
-/

namespace Dims
open OrderedMultimap UnspentSet CTransactionRecordManager

/-- The key that a script pays to: `ExtractDestination`, but a key that is pushed is hashed as
`getAvailableCoins` does it, as a whole and also where it is malformed. -/
def extractDestination (H : HashFunctions) (scriptPubKey : CScript) : Option CKeyID :=
  match solver scriptPubKey with
  | some (.pubkey, vSolution :: _) => some (H.hash160 vSolution)
  | some (.pubkeyhash, vSolution :: _) => some (uint160OfBytes vSolution)
  | _ => none

theorem extractDestination_setDestination (H : HashFunctions) (keyId : CKeyID) :
    extractDestination H (.setDestination keyId) = some keyId := by
  rw [extractDestination, solver_setDestination]
  exact congrArg some (uint160OfBytes_leBytes keyId)

/-- The unspent outputs after a transaction: what it spends is gone, what it creates is there. -/
def ledgerAfter (H : HashFunctions) (u : COutPoint → Option CTxOut) (tx : CTransaction) :
    COutPoint → Option CTxOut :=
  createUnspent (spendAll u tx.spent) (tx.getHash H) (CCoins.ofTransaction tx)

namespace CWallet

structure IsUnspent (H : HashFunctions) (keys : Set CKeyID) (u : COutPoint → Option CTxOut)
    (keyId : CKeyID) (coin : CAvailableCoin) : Prop where
  own : keyId ∈ keys
  unspent : u coin.outPoint = some coin.coin
  pays : extractDestination H coin.coin.scriptPubKey = some keyId

/-- The coins of every key are the unspent outputs that pay to it, each once. -/
structure Follows (H : HashFunctions) (keys : Set CKeyID) (w : CWallet)
    (u : COutPoint → Option CTxOut) : Prop where
  coins : ∀ keyId coin, coin ∈ w.availableCoins.equalRange keyId ↔ IsUnspent H keys u keyId coin
  once : ∀ keyId, (w.availableCoins.equalRange keyId).Nodup

def change (w : CWallet) (S : CWalletServices) (outputs : List (CKeyID × Int64))
    (coinsToUse : List CAvailableCoin) (price : UInt32) : Int64 :=
  let requested := CWalletContext.requestCoins (neededValue outputs price) coinsToUse
  match w.selectCoins S.sort requested.1 with
  | some (_, nValueIn) => nValueIn + requested.2.1 - neededValue outputs price
  | none => 0

end CWallet

/-- The output of a transaction at the place of a coin pays to a key of the wallet. -/
structure CTransaction.IsOwnOutput (H : HashFunctions) (keys : Set CKeyID) (tx : CTransaction)
    (keyId : CKeyID) (coin : CAvailableCoin) : Prop where
  hash : coin.hash = tx.getHash H
  own : keyId ∈ keys
  output : tx.vout[coin.position.toNat]? = some coin.coin
  pays : extractDestination H coin.coin.scriptPubKey = some keyId

/-- Changes that have been waiting under the hash of a transaction already: they remove what it
spends, and what they add are its outputs to the wallet, which they remove as well. -/
structure CUpdateCoins.Matches (update : CUpdateCoins) (H : HashFunctions) (keys : Set CKeyID)
    (availableCoins : OrderedMultimap CKeyID CAvailableCoin) (tx : CTransaction) : Prop where
  found : ∀ coin ∈ update.toAdd.values, coin.coin ∈ tx.vout
  removes : ∀ keyId, ∀ coin ∈ availableCoins.equalRange keyId,
    coin ∈ update.toRemove.equalRange keyId ↔ coin.outPoint ∈ tx.spent
  adds : ∀ keyId coin, coin ∈ (update.toAdd.equalRange keyId).map (CWallet.locateCoin H tx) ↔
    tx.IsOwnOutput H keys keyId coin
  once : ∀ keyId, ((update.toAdd.equalRange keyId).map (CWallet.locateCoin H tx)).Nodup
  again : ∀ keyId, (update.toAdd.equalRange keyId).map (CWallet.locateCoin H tx) ⊆
    update.toRemove.equalRange keyId

namespace CWallet

/-- Nothing is paid to the wallet itself, and no coin that is given and used is available; or
older changes under the same hash match. -/
def AdmittedExactly (w : CWallet) (S : CWalletServices) (H : HashFunctions) (keys : Set CKeyID)
    (outputs : List (CKeyID × Int64)) (coinsToUse : List CAvailableCoin) (trackerKey : CPubKey)
    (price : UInt32) (tx : CTransaction) : Prop :=
  match w.waitingChanges.lookup (tx.getHash H) with
  | none =>
    (∀ target ∈ outputs, target.1 ∉ keys) ∧ trackerKey.getID H ∉ keys ∧
      w.change S outputs coinsToUse price ≤ 0 ∧
      ∀ used ∈ usedCoins outputs coinsToUse price, ∀ coin ∈ w.availableCoins.values,
        used.outPoint ≠ coin.outPoint
  | some update => update.Matches H keys w.availableCoins tx

section Locate

variable {H : HashFunctions} {tx : CTransaction}

@[simp] theorem locateCoin_locateCoin (coin : CAvailableCoin) :
    locateCoin H tx (locateCoin H tx coin) = locateCoin H tx coin := rfl

theorem hash_of_mem_map_locateCoin {coins : List CAvailableCoin} {coin : CAvailableCoin}
    (h : coin ∈ coins.map (locateCoin H tx)) : coin.hash = tx.getHash H := by
  obtain ⟨expected, -, rfl⟩ := List.mem_map.mp h
  rfl

end Locate

section Admissions

variable {H : HashFunctions} {keys : Set CKeyID} {w w₁ : CWallet} {u : COutPoint → Option CTxOut}
  {tx : CTransaction} {hash : Uint256} {update : CUpdateCoins}

/-- The second admission finds the same places, and adds the coins again unless they are removed
first. -/
theorem addmit_again_iff (hupdate : w.waitingChanges.lookup hash = some update)
    (hfirst : w.addmitNewTransaction H hash tx = some w₁) :
    w₁.addmitNewTransaction H hash tx = some w₁ ↔
      ∀ keyId, (update.toAdd.equalRange keyId).map (locateCoin H tx) ⊆
        update.toRemove.equalRange keyId := by
  obtain ⟨hfound, hcoins, hinputs, hwaiting⟩ := addmitNewTransaction_spec hupdate hfirst
  have hupdate₁ : w₁.waitingChanges.lookup hash =
      some { update with toAdd := update.toAdd.mapValues (locateCoin H tx) } := by
    rw [hwaiting, OrderedMap.lookup_assign_self]
  have hfound₁ : ∀ coin ∈ (update.toAdd.mapValues (locateCoin H tx)).values, coin.coin ∈ tx.vout := by
    intro coin hcoin
    obtain ⟨keyId, hkey⟩ := mem_values.mp hcoin
    rw [equalRange_mapValues] at hkey
    obtain ⟨expected, hexpected, rfl⟩ := List.mem_map.mp hkey
    exact hfound expected (mem_values.mpr ⟨keyId, hexpected⟩)
  obtain ⟨w₂, hsecond⟩ := isSome_addmitNewTransaction (w := w₁) (H := H) hupdate₁ hfound₁
  obtain ⟨-, hcoins₂, hinputs₂, hwaiting₂⟩ := addmitNewTransaction_spec hupdate₁ hsecond
  have hadded : (update.toAdd.mapValues (locateCoin H tx)).mapValues (locateCoin H tx) =
      update.toAdd.mapValues (locateCoin H tx) := by
    refine eq_of_equalRange fun keyId => ?_
    rw [equalRange_mapValues, equalRange_mapValues, List.map_map]
    rfl
  -- what the second admission sees under a key
  have hseen : ∀ keyId, w₂.availableCoins.equalRange keyId =
      (w.availableCoins.equalRange keyId).filter (· ∉ update.toRemove.equalRange keyId) ++
        (((update.toAdd.equalRange keyId).map (locateCoin H tx)).filter
          (· ∉ update.toRemove.equalRange keyId) ++
            (update.toAdd.equalRange keyId).map (locateCoin H tx)) := by
    intro keyId
    rw [hcoins₂, hcoins, ← equalRange_mapValues (locateCoin H tx) (mapValues _ update.toAdd), hadded,
      equalRange_mapValues, List.filter_append, List.filter_filter, List.append_assoc]
    simp only [Bool.and_self]
  rw [hsecond, Option.some.injEq]
  constructor
  · intro hsame keyId coin hcoin
    by_contra hkept
    have hlength := congrArg (fun w : CWallet => (w.availableCoins.equalRange keyId).length) hsame
    have hmem : coin ∈ ((update.toAdd.equalRange keyId).map (locateCoin H tx)).filter
        (· ∉ update.toRemove.equalRange keyId) :=
      List.mem_filter.mpr ⟨hcoin, decide_eq_true hkept⟩
    have hpos := List.length_pos_of_mem hmem
    simp only [hseen, hcoins, List.length_append] at hlength
    omega
  · intro hremoved
    have hsame : w₂.availableCoins = w₁.availableCoins := by
      refine eq_of_equalRange fun keyId => ?_
      have hnone : ((update.toAdd.equalRange keyId).map (locateCoin H tx)).filter
          (· ∉ update.toRemove.equalRange keyId) = [] := by
        refine List.filter_eq_nil_iff.mpr fun coin hcoin => ?_
        simpa using hremoved keyId hcoin
      rw [hseen, hcoins, hnone, List.nil_append]
    have hsameWaiting : w₂.waitingChanges = w₁.waitingChanges := by
      rw [hwaiting₂, hwaiting, hadded, OrderedMap.assign_assign_self]
    obtain ⟨coins₁, inputs₁, waiting₁⟩ := w₁
    obtain ⟨coins₂, inputs₂, waiting₂⟩ := w₂
    exact congr (congr (congrArg CWallet.mk hsame) hinputs₂) hsameWaiting

theorem hash_of_follows (hfollows : Follows H keys w u)
    (hfresh : ∀ o, o.hash = tx.getHash H → u o = none) {keyId : CKeyID} {coin : CAvailableCoin}
    (hcoin : coin ∈ w.availableCoins.equalRange keyId) : coin.hash ≠ tx.getHash H := by
  intro hhash
  have hunspent := ((hfollows.coins keyId coin).mp hcoin).unspent
  rw [hfresh coin.outPoint hhash] at hunspent
  cases hunspent

theorem isUnspent_ledgerAfter_iff
    (houtputs : ∀ n, (CCoins.ofTransaction tx).unspent n = tx.vout[n]?)
    (keyId : CKeyID) (coin : CAvailableCoin) :
    IsUnspent H keys (ledgerAfter H u tx) keyId coin ↔
      tx.IsOwnOutput H keys keyId coin ∨
        coin.hash ≠ tx.getHash H ∧ IsUnspent H keys u keyId coin ∧ coin.outPoint ∉ tx.spent := by
  have hledger : ledgerAfter H u tx coin.outPoint =
      if coin.hash = tx.getHash H then tx.vout[coin.position.toNat]?
      else if coin.outPoint ∈ tx.spent then none else u coin.outPoint := by
    rw [ledgerAfter, createUnspent, houtputs]
    rfl
  by_cases hhash : coin.hash = tx.getHash H
  · rw [if_pos hhash] at hledger
    constructor
    · rintro ⟨hown, hunspent, hpays⟩
      exact .inl ⟨hhash, hown, hledger ▸ hunspent, hpays⟩
    · rintro (⟨-, hown, houtput, hpays⟩ | ⟨hne, -⟩)
      · exact ⟨hown, hledger.trans houtput, hpays⟩
      · exact absurd hhash hne
  · rw [if_neg hhash] at hledger
    constructor
    · rintro ⟨hown, hunspent, hpays⟩
      rw [hledger] at hunspent
      split at hunspent
      · cases hunspent
      · exact .inr ⟨hhash, ⟨hown, hunspent, hpays⟩, ‹_›⟩
    · rintro (⟨heq, -⟩ | ⟨-, ⟨hown, hunspent, hpays⟩, hkept⟩)
      · exact absurd heq hhash
      · exact ⟨hown, by rw [hledger, if_neg hkept, hunspent], hpays⟩

/-- The first admission keeps to the ledger if and only if the coins that are spent are those
that are removed, and the outputs to the wallet are those that are added. -/
theorem follows_addmit_iff (hfollows : Follows H keys w u)
    (hfresh : ∀ o, o.hash = tx.getHash H → u o = none)
    (houtputs : ∀ n, (CCoins.ofTransaction tx).unspent n = tx.vout[n]?)
    (hcoins : ∀ keyId, w₁.availableCoins.equalRange keyId =
      (w.availableCoins.equalRange keyId).filter (· ∉ update.toRemove.equalRange keyId) ++
        (update.toAdd.equalRange keyId).map (locateCoin H tx)) :
    Follows H keys w₁ (ledgerAfter H u tx) ↔
      (∀ keyId, ∀ coin ∈ w.availableCoins.equalRange keyId,
        coin ∈ update.toRemove.equalRange keyId ↔ coin.outPoint ∈ tx.spent) ∧
      (∀ keyId coin, coin ∈ (update.toAdd.equalRange keyId).map (locateCoin H tx) ↔
        tx.IsOwnOutput H keys keyId coin) ∧
      ∀ keyId, ((update.toAdd.equalRange keyId).map (locateCoin H tx)).Nodup := by
  have hmem : ∀ keyId coin, coin ∈ w₁.availableCoins.equalRange keyId ↔
      (coin ∈ w.availableCoins.equalRange keyId ∧ coin ∉ update.toRemove.equalRange keyId) ∨
        coin ∈ (update.toAdd.equalRange keyId).map (locateCoin H tx) := by
    intro keyId coin
    rw [hcoins, List.mem_append, List.mem_filter, decide_eq_true_iff]
  constructor
  · intro hafter
    refine ⟨fun keyId coin hcoin => ?_, fun keyId coin => ?_, fun keyId => ?_⟩
    · have hhash := hash_of_follows hfollows hfresh hcoin
      have hold := (hfollows.coins keyId coin).mp hcoin
      have hiff := (hmem keyId coin).symm.trans
        ((hafter.coins keyId coin).trans (isUnspent_ledgerAfter_iff houtputs keyId coin))
      have hnotAdded : coin ∉ (update.toAdd.equalRange keyId).map (locateCoin H tx) :=
        fun h => hhash (hash_of_mem_map_locateCoin h)
      have hnotOutput : ¬tx.IsOwnOutput H keys keyId coin := fun h => hhash h.hash
      have hkept : coin ∉ update.toRemove.equalRange keyId ↔ coin.outPoint ∉ tx.spent := by
        simpa [hcoin, hnotAdded, hnotOutput, hhash, hold] using hiff
      exact not_iff_not.mp hkept
    · by_cases hhash : coin.hash = tx.getHash H
      · have hnotOld : coin ∉ w.availableCoins.equalRange keyId :=
          fun h => hash_of_follows hfollows hfresh h hhash
        have hiff := (hmem keyId coin).symm.trans
          ((hafter.coins keyId coin).trans (isUnspent_ledgerAfter_iff houtputs keyId coin))
        simpa only [hnotOld, false_and, false_or, hhash, ne_eq, not_true_eq_false, or_false] using hiff
      · exact iff_of_false (fun h => hhash (hash_of_mem_map_locateCoin h)) fun h => hhash h.hash
    · have honce := hafter.once keyId
      rw [hcoins] at honce
      exact (List.nodup_append'.mp honce).2.1
  · rintro ⟨hremoves, hadds, honce⟩
    refine ⟨fun keyId coin => ?_, fun keyId => ?_⟩
    · rw [hmem, isUnspent_ledgerAfter_iff houtputs, hadds, or_comm, ← hfollows.coins]
      refine or_congr_right ⟨fun ⟨hcoin, hkept⟩ => ?_, fun ⟨_, hcoin, hkept⟩ => ?_⟩
      · exact ⟨hash_of_follows hfollows hfresh hcoin, hcoin,
          fun hspent => hkept ((hremoves keyId coin hcoin).mpr hspent)⟩
      · exact ⟨hcoin, fun hremoved => hkept ((hremoves keyId coin hcoin).mp hremoved)⟩
    · rw [hcoins, List.nodup_append']
      refine ⟨(hfollows.once keyId).filter _, honce keyId, fun coin hold hadded => ?_⟩
      exact hash_of_follows hfollows hfresh (List.mem_filter.mp hold).1
        (hash_of_mem_map_locateCoin hadded)

theorem admitted_iff_matches (hfollows : Follows H keys w u)
    (hfresh : ∀ o, o.hash = tx.getHash H → u o = none)
    (houtputs : ∀ n, (CCoins.ofTransaction tx).unspent n = tx.vout[n]?)
    (hupdate : w.waitingChanges.lookup hash = some update) :
    (∃ w₁, w.addmitNewTransaction H hash tx = some w₁ ∧ Follows H keys w₁ (ledgerAfter H u tx) ∧
        w₁.addmitNewTransaction H hash tx = some w₁) ↔ update.Matches H keys w.availableCoins tx := by
  constructor
  · rintro ⟨w₁, hfirst, hafter, hagain⟩
    obtain ⟨hfound, hcoins, -, -⟩ := addmitNewTransaction_spec hupdate hfirst
    obtain ⟨hremoves, hadds, honce⟩ :=
      (follows_addmit_iff hfollows hfresh houtputs hcoins).mp hafter
    exact ⟨hfound, hremoves, hadds, honce, (addmit_again_iff hupdate hfirst).mp hagain⟩
  · rintro ⟨hfound, hremoves, hadds, honce, hagain⟩
    obtain ⟨w₁, hfirst⟩ := isSome_addmitNewTransaction (H := H) hupdate hfound
    obtain ⟨-, hcoins, -, -⟩ := addmitNewTransaction_spec hupdate hfirst
    refine ⟨w₁, hfirst, ?_, (addmit_again_iff hupdate hfirst).mpr hagain⟩
    exact (follows_addmit_iff hfollows hfresh houtputs hcoins).mpr ⟨hremoves, hadds, honce⟩

end Admissions

theorem unspent_ofTransaction {tx : CTransaction}
    (h : ∀ txOut ∈ tx.vout, txOut.isNull = false ∧ txOut.scriptPubKey.isUnspendable = false) (n : ℕ) :
    (CCoins.ofTransaction tx).unspent n = tx.vout[n]? := by
  rw [CCoins.ofTransaction, CCoins.clearUnspendable, CCoins.unspent_cleanup, CCoins.unspent,
    List.getElem?_map]
  cases hget : tx.vout[n]? with
  | none => rfl
  | some txOut =>
    obtain ⟨hnull, hspendable⟩ := h txOut (List.mem_of_getElem? hget)
    simp [hspendable, CTxOut.ifUnspent, hnull]

theorem fee_ne_null {price : UInt32} {n : ℕ} (hn : n < 1000) :
    (price.toUInt64 * UInt64.ofNat n).toInt64 ≠ -1 := by
  have hprice := price.toNat_lt
  have hproduct : price.toNat * n < 2 ^ 42 := by
    calc price.toNat * n ≤ 2 ^ 32 * n := Nat.mul_le_mul_right n hprice.le
      _ < 2 ^ 42 := by omega
  have hnat : (price.toUInt64 * UInt64.ofNat n).toNat = price.toNat * n := by
    rw [UInt64.toNat_mul, UInt32.toNat_toUInt64, UInt64.toNat_ofNat_of_lt' (hn.trans (by decide)),
      Nat.mod_eq_of_lt (by omega)]
  intro heq
  have hminus : price.toUInt64 * UInt64.ofNat n = 0xffffffffffffffff :=
    congrArg Int64.toUInt64 heq
  rw [hminus] at hnat
  have hmax : (0xffffffffffffffff : UInt64).toNat = 2 ^ 64 - 1 := rfl
  omega

section Creation

variable {H : HashFunctions} {keys : Set CKeyID} {w w' : CWallet} {S : CWalletServices}
  {outputs : List (CKeyID × Int64)} {coinsToUse : List CAvailableCoin} {trackerKey : CPubKey}
  {price : UInt32} {tx : CTransaction} {u : COutPoint → Option CTxOut}

theorem addChange_cases {nChange : Int64} {setCoins : List CAvailableCoin}
    {targets : List (CKeyID × Int64)} {vout : List CTxOut}
    {toAdd toAdd' : OrderedMultimap CKeyID CAvailableCoin}
    (h : w.addChange S nChange setCoins (CWalletContext.payTo targets) toAdd = some (vout, toAdd')) :
    (nChange ≤ 0 ∧ vout = CWalletContext.payTo targets ∧ toAdd' = toAdd) ∨
      0 < nChange ∧ ∃ keyId, w.determineChangeAddress setCoins = some keyId ∧
        ∀ txOut, txOut ∈ vout ↔
          txOut = ⟨nChange, .setDestination keyId⟩ ∨ txOut ∈ CWalletContext.payTo targets := by
  rw [addChange] at h
  split at h
  case isTrue hpos =>
    obtain ⟨keyId, hkeyId, heq⟩ := Option.map_eq_some_iff.mp h
    cases heq
    refine .inr ⟨hpos, keyId, hkeyId, fun txOut => ?_⟩
    refine List.mem_insertIdx (Nat.lt_succ_iff.mp ?_)
    exact S.getRandInt_lt _ (Nat.succ_pos _)
  case isFalse hnone =>
    cases h
    exact .inl ⟨Int64.not_lt.mp hnone, rfl, rfl⟩

theorem mem_vout_iff
    (hcreate : w.createTransaction S H outputs coinsToUse trackerKey price = some (tx, w')) :
    ∃ changes : List (CKeyID × Int64),
      (changes = [] ↔ w.change S outputs coinsToUse price ≤ 0) ∧
      (∀ target ∈ changes, 0 < target.2 ∧ (w.availableCoins.equalRange target.1) ≠ []) ∧
      ∀ txOut, txOut ∈ tx.vout ↔ ∃ target ∈ changes ++ (outputs ++ [(trackerKey.getID H,
        (price.toUInt64 * UInt64.ofNat outputs.length).toInt64)]),
          txOut = ⟨target.2, .setDestination target.1⟩ := by
  obtain ⟨setCoins, nValueIn, toRemove, toAdd, hselected, hchange, -⟩ := createTransaction_spec hcreate
  have hvalue : w.change S outputs coinsToUse price = nValueIn +
      (CWalletContext.requestCoins (neededValue outputs price) coinsToUse).2.1 -
        neededValue outputs price := by
    simp only [change, hselected]
  have hpayTo : ∀ (targets : List (CKeyID × Int64)) txOut, txOut ∈ CWalletContext.payTo targets ↔
      ∃ target ∈ targets, txOut = ⟨target.2, .setDestination target.1⟩ := by
    intro targets txOut
    simp only [CWalletContext.payTo, List.mem_map, eq_comm]
  rcases addChange_cases hchange with ⟨hnone, hvout, -⟩ | ⟨hpos, keyId, hkeyId, hvout⟩
  · refine ⟨[], iff_of_true rfl (hvalue ▸ hnone), by simp, fun txOut => ?_⟩
    rw [hvout, hpayTo, List.nil_append]
  · refine ⟨[(keyId, w.change S outputs coinsToUse price)], ?_, ?_, fun txOut => ?_⟩
    · exact iff_of_false (List.cons_ne_nil _ _) (hvalue ▸ Int64.not_le.mpr hpos)
    · intro target htarget
      obtain rfl := List.mem_singleton.mp htarget
      obtain ⟨coin, -, hcoin⟩ := determineChangeAddress_spec hkeyId
      exact ⟨hvalue ▸ hpos, List.ne_nil_of_mem hcoin⟩
    · rw [hvout, hpayTo, List.singleton_append, ← hvalue]
      simp only [List.exists_mem_cons_iff]

theorem length_createTransaction
    (hcreate : w.createTransaction S H outputs coinsToUse trackerKey price = some (tx, w')) :
    tx.vout.length < 1000 ∧ outputs.length < 1000 := by
  have hcontext := map_fst_createTransaction w S H outputs coinsToUse trackerKey price
  rw [hcreate, Option.map_some] at hcontext
  obtain ⟨-, all, hvout, hall, hsize⟩ := CWalletContext.createTransaction_vout hcontext.symm
  have hvoutLength := (CTransaction.length_vout_le tx).trans_lt hsize
  refine ⟨hvoutLength, ?_⟩
  have houtputs := hall.length_le
  rw [List.length_append] at houtputs
  rw [hvout, CWalletContext.payTo, List.length_map] at hvoutLength
  exact lt_of_le_of_lt (by omega) hvoutLength

theorem unspent_createTransaction
    (hcreate : w.createTransaction S H outputs coinsToUse trackerKey price = some (tx, w')) (n : ℕ) :
    (CCoins.ofTransaction tx).unspent n = tx.vout[n]? := by
  obtain ⟨changes, -, hchanges, hvout⟩ := mem_vout_iff hcreate
  obtain ⟨-, -, -, -, -, -, -, -, hpositive, -⟩ := createTransaction_spec hcreate
  refine unspent_ofTransaction (fun txOut htxOut => ?_) n
  obtain ⟨target, htarget, rfl⟩ := (hvout txOut).mp htxOut
  have hvalue : target.2 ≠ -1 := by
    rcases List.mem_append.mp htarget with hchange | hrest
    · intro heq
      have hpos := (hchanges target hchange).1
      rw [heq] at hpos
      exact absurd hpos (by decide)
    · rcases List.mem_append.mp hrest with houtput | hfee
      · intro heq
        exact hpositive target houtput (heq ▸ by decide)
      · obtain rfl := List.mem_singleton.mp hfee
        exact fee_ne_null (length_createTransaction hcreate).2
  exact ⟨by simpa [CTxOut.isNull] using hvalue, rfl⟩

/-- No output pays to the wallet if and only if none is asked for, the fee does not, and there is
no change. -/
theorem no_ownOutput_iff (hfollows : Follows H keys w u)
    (hcreate : w.createTransaction S H outputs coinsToUse trackerKey price = some (tx, w')) :
    (∀ keyId coin, ¬tx.IsOwnOutput H keys keyId coin) ↔
      (∀ target ∈ outputs, target.1 ∉ keys) ∧ trackerKey.getID H ∉ keys ∧
        w.change S outputs coinsToUse price ≤ 0 := by
  obtain ⟨changes, hnil, hchanges, hvout⟩ := mem_vout_iff hcreate
  have howned : ∀ target ∈ changes, target.1 ∈ keys := by
    intro target htarget
    obtain ⟨coin, hcoin⟩ := List.exists_mem_of_ne_nil _ (hchanges target htarget).2
    exact ((hfollows.coins target.1 coin).mp hcoin).own
  -- an output is that of the coin at its place
  have hoccurs : ∀ target : CKeyID × Int64, target.1 ∈ keys →
      (⟨target.2, .setDestination target.1⟩ : CTxOut) ∈ tx.vout →
        ∃ coin, tx.IsOwnOutput H keys target.1 coin := by
    intro target hown hmem
    obtain ⟨i, hi, hget⟩ := List.mem_iff_getElem.mp hmem
    have hlength := (length_createTransaction hcreate).1
    have hposition : (UInt32.ofNat i).toNat = i :=
      UInt32.toNat_ofNat_of_lt' (lt_trans (hi.trans hlength) (by decide))
    refine ⟨⟨⟨target.2, .setDestination target.1⟩, UInt32.ofNat i, tx.getHash H⟩, rfl, hown, ?_,
      extractDestination_setDestination H target.1⟩
    rw [hposition, List.getElem?_eq_getElem hi, hget]
  constructor
  · intro hnone
    have hpaid : ∀ target ∈ changes ++ (outputs ++ [(trackerKey.getID H,
        (price.toUInt64 * UInt64.ofNat outputs.length).toInt64)]), target.1 ∉ keys := by
      intro target htarget hown
      obtain ⟨coin, hcoin⟩ := hoccurs target hown ((hvout _).mpr ⟨target, htarget, rfl⟩)
      exact hnone target.1 coin hcoin
    refine ⟨fun target htarget => ?_, ?_, ?_⟩
    · exact hpaid target (List.mem_append_right _ (List.mem_append_left _ htarget))
    · exact hpaid _ (List.mem_append_right _ (List.mem_append_right _ (List.mem_singleton_self _)))
    · refine hnil.mp (List.eq_nil_iff_forall_not_mem.mpr fun target htarget => ?_)
      exact hpaid target (List.mem_append_left _ htarget) (howned target htarget)
  · rintro ⟨houtputs, htracker, hchange⟩ keyId coin ⟨-, hown, houtput, hpays⟩
    obtain ⟨target, htarget, heq⟩ := (hvout coin.coin).mp (List.mem_of_getElem? houtput)
    rw [heq, extractDestination_setDestination] at hpays
    obtain rfl := Option.some.inj hpays
    rw [hnil.mpr hchange, List.nil_append] at htarget
    rcases List.mem_append.mp htarget with hmem | hfee
    · exact houtputs target hmem hown
    · obtain rfl := List.mem_singleton.mp hfee
      exact htracker hown

theorem expectedCoins_eq_empty (hfollows : Follows H keys w u)
    (h : ∀ target ∈ outputs, target.1 ∉ keys) : w.expectedCoins outputs = .empty := by
  have hnone : outputs.filter (fun target => w.isMine target.1) = [] := by
    refine List.filter_eq_nil_iff.mpr fun target htarget hmine => ?_
    obtain ⟨p, hp, hkey⟩ := List.any_eq_true.mp hmine
    have hcoin : p.2 ∈ w.availableCoins.equalRange target.1 := by
      rw [mem_equalRange, ← of_decide_eq_true hkey]
      exact hp
    exact h target htarget ((hfollows.coins target.1 p.2).mp hcoin).own
  rw [expectedCoins, hnone]
  rfl

theorem getKeyForCoin_eq (hfollows : Follows H keys w u) {keyId : CKeyID} {coin : CAvailableCoin}
    (hcoin : coin ∈ w.availableCoins.equalRange keyId) : w.getKeyForCoin coin = some keyId := by
  have hsome : (w.getKeyForCoin coin).isSome := by
    rw [getKeyForCoin, Option.isSome_map, List.find?_isSome]
    exact ⟨(keyId, coin), mem_equalRange.mp hcoin, decide_eq_true rfl⟩
  obtain ⟨keyId', hkeyId'⟩ := Option.isSome_iff_exists.mp hsome
  have hpays := ((hfollows.coins keyId coin).mp hcoin).pays
  have hpays' := ((hfollows.coins keyId' coin).mp (getKeyForCoin_spec hkeyId')).pays
  rw [hkeyId']
  exact hpays'.symm.trans hpays

theorem eq_of_outPoint (hfollows : Follows H keys w u) {keyId keyId' : CKeyID}
    {coin coin' : CAvailableCoin} (hcoin : coin ∈ w.availableCoins.equalRange keyId)
    (hcoin' : coin' ∈ w.availableCoins.equalRange keyId') (h : coin.outPoint = coin'.outPoint) :
    coin = coin' := by
  have hunspent := ((hfollows.coins keyId coin).mp hcoin).unspent
  have hunspent' := ((hfollows.coins keyId' coin').mp hcoin').unspent
  have hout : coin.coin = coin'.coin := by
    rw [h, hunspent'] at hunspent
    exact (Option.some.inj hunspent).symm
  obtain ⟨out, position, hash⟩ := coin
  obtain ⟨out', position', hash'⟩ := coin'
  obtain ⟨rfl, rfl⟩ := COutPoint.mk.inj h
  obtain rfl : out = out' := hout
  rfl

/-- The recorded changes match if and only if nothing is paid to the wallet and no coin that is
given and used is available. -/
theorem matches_created_iff (hfollows : Follows H keys w u)
    (hfresh : ∀ o, o.hash = tx.getHash H → u o = none) (hnodup : tx.spent.Nodup)
    (hcreate : w.createTransaction S H outputs coinsToUse trackerKey price = some (tx, w')) :
    ∃ update : CUpdateCoins,
      w' = { w with waitingChanges := w.waitingChanges.insertNew (tx.getHash H) update } ∧
      (update.Matches H keys w.availableCoins tx ↔
        (∀ target ∈ outputs, target.1 ∉ keys) ∧ trackerKey.getID H ∉ keys ∧
          w.change S outputs coinsToUse price ≤ 0 ∧
          ∀ used ∈ usedCoins outputs coinsToUse price, ∀ coin ∈ w.availableCoins.values,
            used.outPoint ≠ coin.outPoint) := by
  have howns := no_ownOutput_iff hfollows hcreate
  obtain ⟨setCoins, nValueIn, toRemove, toAdd, hselected, hchange, hremoved, hspent, -, -, hw'⟩ :=
    createTransaction_spec hcreate
  have hsubset := selectCoins_subset S hselected
  obtain ⟨removed, hremoved', hmem⟩ := coinsToRemove_spec hsubset OrderedMultimap.empty
  obtain rfl : toRemove = removed := Option.some.inj (hremoved.symm.trans hremoved')
  have hmemRemove : ∀ keyId, ∀ coin ∈ w.availableCoins.equalRange keyId,
      coin ∈ toRemove.equalRange keyId ↔ coin ∈ setCoins := by
    intro keyId coin hcoin
    rw [hmem, getKeyForCoin_eq hfollows hcoin]
    simp
  rw [← CTransaction.spent, List.map_append] at hspent
  refine ⟨⟨toRemove, toAdd⟩, hw', ?_, ?_⟩
  · rintro ⟨-, hremoves, hadds, -, hagain⟩
    -- what is added has a new hash, what is removed has an old one
    have hnone : ∀ keyId, (toAdd.equalRange keyId).map (locateCoin H tx) = [] := by
      intro keyId
      refine List.eq_nil_iff_forall_not_mem.mpr fun coin hcoin => ?_
      rcases (hmem keyId coin).mp (hagain keyId hcoin) with hempty | ⟨-, hkey⟩
      · cases hempty
      · exact hash_of_follows hfollows hfresh (getKeyForCoin_spec hkey)
          (hash_of_mem_map_locateCoin hcoin)
    have hnoOwn : ∀ keyId coin, ¬tx.IsOwnOutput H keys keyId coin := by
      intro keyId coin hown
      have hcoin := (hadds keyId coin).mpr hown
      rw [hnone keyId] at hcoin
      cases hcoin
    obtain ⟨houtputs, htracker, hle⟩ := howns.mp hnoOwn
    refine ⟨houtputs, htracker, hle, fun used hused coin hcoin heq => ?_⟩
    obtain ⟨keyId, hkey⟩ := mem_values.mp hcoin
    have hspentCoin : coin.outPoint ∈ tx.spent := by
      rw [hspent, ← heq]
      exact List.mem_append_right _ (List.mem_map_of_mem hused)
    have hselectedCoin := (hmemRemove keyId coin hkey).mp ((hremoves keyId coin hkey).mpr hspentCoin)
    rw [hspent] at hnodup
    exact (List.nodup_append'.mp hnodup).2.2 (List.mem_map_of_mem hselectedCoin)
      (heq ▸ List.mem_map_of_mem hused)
  · rintro ⟨houtputs, htracker, hle, hused⟩
    have hnoOwn := howns.mpr ⟨houtputs, htracker, hle⟩
    have hempty : toAdd = .empty := by
      rcases addChange_cases hchange with ⟨-, -, hsame⟩ | ⟨hpos, -⟩
      · exact hsame.trans (expectedCoins_eq_empty hfollows houtputs)
      · refine absurd hpos (Int64.not_lt.mpr ?_)
        simpa only [change, hselected] using hle
    subst hempty
    refine ⟨by simp [OrderedMultimap.values, OrderedMultimap.empty], fun keyId coin hcoin => ?_, fun keyId coin => ?_,
      fun keyId => List.nodup_nil, fun keyId => List.nil_subset _⟩
    · rw [hmemRemove keyId coin hcoin, hspent, List.mem_append]
      constructor
      · exact fun hselectedCoin => .inl (List.mem_map_of_mem hselectedCoin)
      · rintro (hselectedCoin | husedCoin)
        · obtain ⟨coin', hcoin', heq⟩ := List.mem_map.mp hselectedCoin
          obtain ⟨keyId', hkey'⟩ := mem_values.mp (hsubset hcoin')
          rwa [← eq_of_outPoint hfollows hkey' hcoin heq]
        · obtain ⟨used, hmemUsed, heq⟩ := List.mem_map.mp husedCoin
          exact absurd heq (hused used hmemUsed coin (mem_values.mpr ⟨keyId, hcoin⟩))
    · exact iff_of_false (fun h => by cases h) (hnoOwn keyId coin)

/-- A transaction of a wallet that follows the ledger is applied to the ledger and admitted twice.
The wallet follows the ledger and the second admission changes nothing if and only if nothing is
paid to the wallet itself and no coin that is given and used is available. -/
theorem admittedExactly_iff (H : HashFunctions) (keys : Set CKeyID) (w w' : CWallet)
    (S : CWalletServices) (u : COutPoint → Option CTxOut) (outputs : List (CKeyID × Int64))
    (coinsToUse : List CAvailableCoin) (trackerKey : CPubKey) (price : UInt32) (tx : CTransaction)
    (hfollows : Follows H keys w u)
    (hcreate : w.createTransaction S H outputs coinsToUse trackerKey price = some (tx, w'))
    (hfresh : ∀ o, o.hash = tx.getHash H → u o = none) (hnodup : tx.spent.Nodup) :
    (∃ w₁, w'.addmitNewTransaction H (tx.getHash H) tx = some w₁ ∧
        Follows H keys w₁ (ledgerAfter H u tx) ∧
        w₁.addmitNewTransaction H (tx.getHash H) tx = some w₁) ↔
      w.AdmittedExactly S H keys outputs coinsToUse trackerKey price tx := by
  obtain ⟨update, rfl, hmatches⟩ := matches_created_iff hfollows hfresh hnodup hcreate
  have houtputs := unspent_createTransaction hcreate
  have hfollows' : Follows H keys { w with
      waitingChanges := w.waitingChanges.insertNew (tx.getHash H) update } u :=
    ⟨hfollows.coins, hfollows.once⟩
  have hupdate := OrderedMap.lookup_insertNew_self w.waitingChanges (tx.getHash H) update
  rw [AdmittedExactly]
  split
  case h_1 hnone =>
    rw [hnone, Option.getD_none] at hupdate
    rw [← hmatches]
    exact admitted_iff_matches hfollows' hfresh houtputs hupdate
  case h_2 older holder =>
    rw [holder, Option.getD_some] at hupdate
    exact admitted_iff_matches hfollows' hfresh houtputs hupdate

end Creation

namespace OneCoin

open PendingWallet.OneCoin

def ledger (o : COutPoint) : Option CTxOut :=
  if o = ⟨1, 0⟩ then some ⟨10, .setDestination 5⟩ else none

theorem follows_wallet : Follows hashes {5} wallet ledger := by
  have hcoins : ∀ keyId, wallet.availableCoins.equalRange keyId =
      if (5 : CKeyID) = keyId then [⟨⟨10, .setDestination 5⟩, 0, 1⟩] else [] := by
    intro keyId
    rw [wallet, equalRange_addCoins]
    rfl
  refine ⟨fun keyId coin => ?_, fun keyId => ?_⟩
  · rw [hcoins]
    constructor
    · intro hcoin
      split at hcoin
      case isTrue heq =>
        subst heq
        obtain rfl := List.mem_singleton.mp hcoin
        exact ⟨rfl, rfl, extractDestination_setDestination hashes 5⟩
      case isFalse => cases hcoin
    · rintro ⟨hown, hunspent, -⟩
      obtain rfl : keyId = 5 := hown
      obtain ⟨out, position, hash⟩ := coin
      obtain ⟨heq, hout⟩ := Option.ite_none_right_eq_some.mp hunspent
      obtain ⟨rfl, rfl⟩ := COutPoint.mk.inj heq
      obtain rfl : _ = out := Option.some.inj hout
      exact List.mem_singleton_self _
  · rw [hcoins]
    split
    · exact List.nodup_singleton _
    · exact List.nodup_nil

def exactly : CTransaction :=
  ⟨1, [⟨⟨1, 0⟩, [1], 0xffffffff⟩], [⟨10, .setDestination 6⟩, ⟨0, .setDestination 9⟩], 0, 0⟩

theorem fresh (tx : CTransaction) (h : tx.getHash hashes ≠ 1) (o : COutPoint)
    (ho : o.hash = tx.getHash hashes) : ledger o = none := by
  refine if_neg fun heq => h ?_
  rw [← ho, heq]

theorem created_exactly :
    (wallet.createTransaction .plain hashes [(6, 10)] [] trackerKey 0).map Prod.fst = some exactly := by
  decide +kernel

theorem created_transaction :
    (wallet.createTransaction .plain hashes [(6, 4)] [] trackerKey 0).map Prod.fst =
      some transaction := by
  decide +kernel

theorem admitted_exactly :
    ∃ w', wallet.createTransaction .plain hashes [(6, 10)] [] trackerKey 0 = some (exactly, w') ∧
      ∃ w₁, w'.addmitNewTransaction hashes (exactly.getHash hashes) exactly = some w₁ ∧
        Follows hashes {5} w₁ (ledgerAfter hashes ledger exactly) ∧
        w₁.addmitNewTransaction hashes (exactly.getHash hashes) exactly = some w₁ := by
  have hother : (6 : CKeyID) ≠ 5 ∧ trackerKey.getID hashes ≠ 5 := by decide +kernel
  obtain ⟨⟨_, w'⟩, hcreate, rfl⟩ := Option.map_eq_some_iff.mp created_exactly
  refine ⟨w', hcreate, ?_⟩
  refine (admittedExactly_iff hashes {5} wallet w' .plain ledger [(6, 10)] [] trackerKey 0
    exactly follows_wallet hcreate (fresh exactly (by decide +kernel)) (by decide)).mpr ?_
  refine ⟨fun target htarget => ?_, hother.2, by decide +kernel, fun used hused => ?_⟩
  · obtain rfl := List.mem_singleton.mp htarget
    exact hother.1
  · cases hused

/-- The change is added again by the second admission. -/
theorem change_twice :
    ¬∀ (H : HashFunctions) (keys : Set CKeyID) (w w' : CWallet) (S : CWalletServices)
      (u : COutPoint → Option CTxOut) (outputs : List (CKeyID × Int64))
      (coinsToUse : List CAvailableCoin) (trackerKey : CPubKey) (price : UInt32) (tx : CTransaction),
      Follows H keys w u →
      w.createTransaction S H outputs coinsToUse trackerKey price = some (tx, w') →
      (∀ o, o.hash = tx.getHash H → u o = none) → tx.spent.Nodup →
      ∃ w₁, w'.addmitNewTransaction H (tx.getHash H) tx = some w₁ ∧
        Follows H keys w₁ (ledgerAfter H u tx) ∧
        w₁.addmitNewTransaction H (tx.getHash H) tx = some w₁ := by
  intro h
  obtain ⟨⟨_, w'⟩, hcreate, rfl⟩ := Option.map_eq_some_iff.mp created_transaction
  obtain ⟨w₁, hfirst, hafter, hagain⟩ := h hashes {5} wallet w' .plain ledger [(6, 4)] [] trackerKey 0
    transaction follows_wallet hcreate (fresh transaction (by decide +kernel)) (by decide)
  have htwice : ((wallet.createTransaction .plain hashes [(6, 4)] [] trackerKey 0).bind fun created =>
      (created.2.addmitNewTransaction hashes (transaction.getHash hashes) transaction).bind fun w₁ =>
        w₁.addmitNewTransaction hashes (transaction.getHash hashes) transaction).map
          (fun w₂ => (w₂.availableCoins.equalRange 5).length) = some 2 := by
    decide +kernel
  have honce : ((wallet.createTransaction .plain hashes [(6, 4)] [] trackerKey 0).bind fun created =>
      created.2.addmitNewTransaction hashes (transaction.getHash hashes) transaction).map
        (fun w₁ => (w₁.availableCoins.equalRange 5).length) = some 1 := by
    decide +kernel
  rw [hcreate, Option.bind_some, hfirst, Option.bind_some, hagain] at htwice
  rw [hcreate, Option.bind_some, hfirst] at honce
  rw [Option.map_some] at htwice honce
  have hlengths := htwice.symm.trans honce
  exact absurd hlengths (by decide)

end OneCoin

end CWallet

end Dims
