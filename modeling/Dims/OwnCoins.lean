import Dims.Wallet
import Dims.Coins

/-!
# The coins of a transaction that pay to a key

analyseTransaction.cpp. The outputs of a transaction are searched for those of a key, and what is
found is added to the wallet.
-/

namespace Dims

/-- A solution of the script is the key. -/
def CTxOut.paysToKey (H : HashFunctions) (pubId : CKeyID) (txout : CTxOut) : Bool :=
  match solver txout.scriptPubKey with
  | none => false
  | some (type, solutions) => solutions.any (isSearchedKey H pubId type)

section Search

variable (H : HashFunctions) (pubId : CKeyID) (hash : Uint256)

/-- The outputs from the one with the number `i` on. A script that cannot be read ends the search
without any coin. -/
def searchAvailableCoins : List CTxOut → ℕ → List CAvailableCoin → List CAvailableCoin
  | [], _, availableCoins => availableCoins
  | txout :: vout, i, availableCoins =>
    if txout.scriptPubKey.parses then
      searchAvailableCoins vout (i + 1)
        (if txout.paysToKey H pubId ∧ ¬ txout.isNull then
          availableCoins ++ [⟨txout, UInt32.ofNat i, hash⟩]
        else availableCoins)
    else []

def getAvailableCoins (coins : CCoins) : List CAvailableCoin :=
  searchAvailableCoins H pubId hash coins.vout 0 []

def payingCoins (coins : CCoins) : List CAvailableCoin :=
  (coins.vout.zipIdx.filter fun p => p.1.paysToKey H pubId ∧ ¬ p.1.isNull).map fun p =>
    ⟨p.1, UInt32.ofNat p.2, hash⟩

theorem searchAvailableCoins_eq (vout : List CTxOut) (i : ℕ) (availableCoins : List CAvailableCoin) :
    searchAvailableCoins H pubId hash vout i availableCoins =
      if vout.all (·.scriptPubKey.parses) then
        availableCoins ++ ((vout.zipIdx i).filter fun p => p.1.paysToKey H pubId ∧ ¬ p.1.isNull).map
          fun p => ⟨p.1, UInt32.ofNat p.2, hash⟩
      else [] := by
  induction vout generalizing i availableCoins with
  | nil => simp [searchAvailableCoins]
  | cons txout vout ih =>
    rw [searchAvailableCoins, ih, List.zipIdx_cons, List.filter_cons, List.all_cons]
    cases hparses : txout.scriptPubKey.parses with
    | false => simp
    | true =>
      by_cases hpays : txout.paysToKey H pubId ∧ ¬ txout.isNull
      · simp [hpays]
      · simp only [hpays, if_false, decide_false, Bool.false_eq_true, Bool.true_and]
        rfl

/-- Either all the outputs to the key are found, or one of the scripts cannot be read. -/
theorem getAvailableCoins_eq (coins : CCoins) :
    getAvailableCoins H pubId hash coins =
      if coins.vout.all (·.scriptPubKey.parses) then payingCoins H pubId hash coins else [] := by
  rw [getAvailableCoins, searchAvailableCoins_eq, List.nil_append]
  rfl

end Search

/-- The coins of a transaction that a node finds to be its own. -/
def selfCoins (H : HashFunctions) (myKeyId : CKeyID) (tx : CTransaction) : List CAvailableCoin :=
  getAvailableCoins H myKeyId (tx.getHash H) (CCoins.ofTransaction tx)

namespace CWallet

def findSelfCoinsAndAddToWallet (w : CWallet) (H : HashFunctions) (myKeyId : CKeyID)
    (tx : CTransaction) : CWallet :=
  w.addCoins myKeyId (selfCoins H myKeyId tx)

theorem perm_values_addCoins (w : CWallet) (keyId : CKeyID) (coins : List CAvailableCoin) :
    (w.addCoins keyId coins).availableCoins.values.Perm (w.availableCoins.values ++ coins) := by
  have hall := OrderedMultimap.perm_values_foldl_insert (fun _ : CAvailableCoin => keyId) id coins
    w.availableCoins
  rwa [List.map_id] at hall

theorem perm_values_findSelfCoins (w : CWallet) (H : HashFunctions) (myKeyId : CKeyID)
    (transactions : List CTransaction) :
    (transactions.foldl (fun w tx => w.findSelfCoinsAndAddToWallet H myKeyId tx)
        w).availableCoins.values.Perm
      (w.availableCoins.values ++ transactions.flatMap (selfCoins H myKeyId)) := by
  induction transactions generalizing w with
  | nil => simp
  | cons tx transactions ih =>
    rw [List.foldl_cons, List.flatMap_cons, ← List.append_assoc]
    exact (ih _).trans ((w.perm_values_addCoins myKeyId _).append_right _)

end CWallet

end Dims
