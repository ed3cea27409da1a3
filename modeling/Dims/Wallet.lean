import Dims.CreateTransaction
import Dims.OrderedMap
import Dims.OrderedSet
import Dims.OrderedMultimap

/-!
# The coins of the wallet

wallet.cpp. The wallet keeps the coins that are available for each key. What a transaction takes
from them and adds to them is recorded when it is created and waits for its admission.
-/

namespace Dims
open OrderedMultimap

def CAvailableCoin.outPoint (coin : CAvailableCoin) : COutPoint := ⟨coin.hash, coin.position⟩

structure CUpdateCoins where
  toRemove : OrderedMultimap CKeyID CAvailableCoin
  toAdd : OrderedMultimap CKeyID CAvailableCoin

structure CWallet where
  availableCoins : OrderedMultimap CKeyID CAvailableCoin
  inputs : OrderedMap Uint256 (List CKeyID)
  waitingChanges : OrderedMap Uint256 CUpdateCoins

/-- What is left to the library, to chance and to the keys. -/
structure CWalletServices where
  /-- `std::sort` with the greatest value first; coins of one value stand in any order. -/
  sort : List CAvailableCoin → List CAvailableCoin
  sort_perm : ∀ coins, (sort coins).Perm coins
  sort_sorted : ∀ coins, (sort coins).Pairwise fun a b => b.coin.nValue ≤ a.coin.nValue
  getRandInt : ℕ → ℕ
  getRandInt_lt : ∀ n, 0 < n → getRandInt n < n
  /-- `SignSignature` for the input with an index that spends an output with the script. -/
  signSignature : CScript → CTransaction → ℕ → Option CScript

namespace CWallet

def empty : CWallet := ⟨.empty, .empty, .empty⟩

def addCoins (w : CWallet) (keyId : CKeyID) (coins : List CAvailableCoin) : CWallet :=
  { w with availableCoins := coins.foldl (fun m coin => m.insert keyId coin) w.availableCoins }

/-- The coins of a key that are not among the previous ones. -/
def leftCoins (w : CWallet) (keyId : CKeyID) (previousCoins : List CAvailableCoin) :
    List CAvailableCoin :=
  (w.availableCoins.equalRange keyId).filter (· ∉ previousCoins)

def removeCoins (w : CWallet) (keyId : CKeyID) (previousCoins : List CAvailableCoin) : CWallet :=
  { w with availableCoins :=
      w.availableCoins.filter fun key coin => ¬(key = keyId ∧ coin ∈ previousCoins) }

/-- `replaceAvailableCoins` -/
def replaceCoins (w : CWallet) (keyId : CKeyID) (coins : List CAvailableCoin) : CWallet :=
  { w with availableCoins := w.availableCoins.erase keyId }.addCoins keyId coins

/-- The inputs that are there already stay. -/
def addInputs (w : CWallet) (inputs : OrderedMap Uint256 (List CKeyID)) : CWallet :=
  { w with inputs := w.inputs.insertAll inputs }

/-- A key is taken for one of the wallet if there are coins of it. -/
def isMine (w : CWallet) (keyId : CKeyID) : Bool :=
  w.availableCoins.entries.any fun p => p.1 = keyId

/-- The coins below the value that is looked for, and the least one above it. -/
structure Candidates where
  vValue : List CAvailableCoin
  nTotalLower : Int64
  coinLowestLarger : Int64 × Option CAvailableCoin

/-- A coin of the very value ends the search. -/
def searchCoins (nTargetValue : Int64) :
    List CAvailableCoin → Candidates → CAvailableCoin ⊕ Candidates
  | [], found => .inr found
  | coin :: coins, found =>
    let n := coin.coin.nValue
    if n = nTargetValue then .inl coin
    else if n < nTargetValue then
      searchCoins nTargetValue coins { found with
        vValue := found.vValue ++ [coin]
        nTotalLower := found.nTotalLower + n }
    else if n < found.coinLowestLarger.1 then
      searchCoins nTargetValue coins { found with coinLowestLarger := (n, some coin) }
    else searchCoins nTargetValue coins found

/-- Coins are taken until they are worth more than the value. -/
def takeCoins (nTargetValue : Int64) :
    List CAvailableCoin → List CAvailableCoin × Int64 → Option (List CAvailableCoin × Int64)
  | [], taken => if nTargetValue ≤ taken.2 then some taken else none
  | coin :: coins, taken =>
    if taken.2 ≤ nTargetValue then
      takeCoins nTargetValue coins (taken.1 ++ [coin], taken.2 + coin.coin.nValue)
    else some taken

def selectCoins (w : CWallet) (sort : List CAvailableCoin → List CAvailableCoin)
    (nTargetValue : Int64) : Option (List CAvailableCoin × Int64) :=
  match searchCoins nTargetValue w.availableCoins.values ⟨[], 0, 0x7fffffffffffffff, none⟩ with
  | .inl coin => some ([coin], coin.coin.nValue)
  | .inr found =>
    if found.nTotalLower = nTargetValue then some (found.vValue, nTargetValue)
    else if found.nTotalLower < nTargetValue then
      found.coinLowestLarger.2.map fun coin => ([coin], found.coinLowestLarger.1)
    else takeCoins nTargetValue (sort found.vValue) ([], 0)

/-- The first key whose coin it is. -/
def getKeyForCoin (w : CWallet) (coin : CAvailableCoin) : Option CKeyID :=
  (w.availableCoins.entries.find? fun p => p.2 = coin).map Prod.fst

def determineChangeAddress (w : CWallet) (coinsForTransaction : List CAvailableCoin) :
    Option CKeyID :=
  (w.availableCoins.entries.find? fun p => p.2 ∈ coinsForTransaction).map Prod.fst

/-- The wallet as `CreateTransaction` sees it. -/
def context (w : CWallet) (S : CWalletServices) : CWalletContext where
  selectCoins := w.selectCoins S.sort
  determineChangeAddress := w.determineChangeAddress
  getRandInt := S.getRandInt
  signSignature := S.signSignature

/-- A coin that is expected, with `-1` for its position and its hash. -/
def expectedCoin (txOut : CTxOut) : CAvailableCoin := ⟨txOut, 0xffffffff, 0xffffffffffffffff⟩

/-- The outputs to keys that are taken for keys of the wallet. The fee of the tracker is not
among them. -/
def expectedCoins (w : CWallet) (outputs : List (CKeyID × Int64)) :
    OrderedMultimap CKeyID CAvailableCoin :=
  (outputs.filter fun target => w.isMine target.1).foldl (fun toAdd target =>
    toAdd.insert target.1 (expectedCoin ⟨target.2, .setDestination target.1⟩)) .empty

/-- The outputs with the change, which is expected too. -/
def addChange (w : CWallet) (S : CWalletServices) (nChange : Int64)
    (setCoins : List CAvailableCoin) (vout : List CTxOut)
    (toAdd : OrderedMultimap CKeyID CAvailableCoin) :
    Option (List CTxOut × OrderedMultimap CKeyID CAvailableCoin) :=
  if 0 < nChange then
    (w.determineChangeAddress setCoins).map fun keyId =>
      let newTxOut : CTxOut := ⟨nChange, .setDestination keyId⟩
      (vout.insertIdx (S.getRandInt (vout.length + 1)) newTxOut,
        toAdd.insert keyId (expectedCoin newTxOut))
  else some (vout, toAdd)

/-- The coins that are spent, each under its key. No value where the assertion fails. -/
def coinsToRemove (w : CWallet) :
    List CAvailableCoin → OrderedMultimap CKeyID CAvailableCoin →
      Option (OrderedMultimap CKeyID CAvailableCoin)
  | [], toRemove => some toRemove
  | coin :: setCoins, toRemove =>
    (w.getKeyForCoin coin).bind fun keyId => w.coinsToRemove setCoins (toRemove.insert keyId coin)

open CWalletContext in
/-- The transaction, and the wallet in which its changes wait. -/
def createTransaction (w : CWallet) (S : CWalletServices) (H : HashFunctions)
    (outputs : List (CKeyID × Int64)) (coinsToUse : List CAvailableCoin) (trackerKey : CPubKey)
    (price : UInt32) : Option (CTransaction × CWallet) :=
  if outputs.any (·.2 < 0) then none
  else if outputs = [] then none
  else
    let trackerFee := (price.toUInt64 * UInt64.ofNat outputs.length).toInt64
    let vout := payTo (outputs ++ [(trackerKey.getID H, trackerFee)])
    let nValue := (outputs.map Prod.snd).sum + trackerFee
    let requested := requestCoins nValue coinsToUse
    (w.selectCoins S.sort requested.1).bind fun (setCoins, nValueIn) =>
      let nChange := nValueIn + requested.2.1 - nValue
      (w.addChange S nChange setCoins vout (w.expectedCoins outputs)).bind fun (vout, toAdd) =>
        (w.coinsToRemove setCoins .empty).bind fun toRemove =>
          let coins := setCoins ++ requested.2.2
          let vin := coins.map fun coin => ⟨⟨coin.hash, coin.position⟩, [], 0xffffffff⟩
          ((w.context S).signInputs coins 0 ⟨1, vin, vout, 0, 0⟩).bind fun wtxNew =>
            if maxStandardTxSize ≤ (CTransaction.contentsCodec.encode wtxNew.contents).length then
              none
            else some (wtxNew, { w with waitingChanges :=
              w.waitingChanges.insertNew (wtxNew.getHash H) ⟨toRemove, toAdd⟩ })

/-- An expected coin with the place of the first output that is equal to it. -/
def locateCoin (H : HashFunctions) (tx : CTransaction) (coin : CAvailableCoin) : CAvailableCoin :=
  { coin with position := UInt32.ofNat (tx.vout.idxOf coin.coin), hash := tx.getHash H }

/-- No value where an assertion fails. The places of the expected coins are kept in what waits,
which stays. -/
def addmitNewTransaction (w : CWallet) (H : HashFunctions) (initialHash : Uint256)
    (addmitedTransaction : CTransaction) : Option CWallet :=
  (w.waitingChanges.lookup initialHash).bind fun update =>
    let w := passGroups removeCoins 0 [] update.toRemove.entries w
    if update.toAdd.values.all fun coin => coin.coin ∈ addmitedTransaction.vout then
      let toAdd := update.toAdd.mapValues (locateCoin H addmitedTransaction)
      let w := { w with waitingChanges :=
        w.waitingChanges.assign initialHash { update with toAdd := toAdd } }
      some (passGroups addCoins 0 [] toAdd.entries w)
    else none

section Coins

variable (w : CWallet) (keyId key : CKeyID) (coins : List CAvailableCoin)

theorem equalRange_addCoins :
    (w.addCoins keyId coins).availableCoins.equalRange key =
      w.availableCoins.equalRange key ++ if keyId = key then coins else [] :=
  equalRange_foldl_insert keyId key coins w.availableCoins

theorem equalRange_removeCoins :
    (w.removeCoins keyId coins).availableCoins.equalRange key =
      if keyId = key then (w.availableCoins.equalRange key).filter (· ∉ coins)
      else w.availableCoins.equalRange key := by
  rw [removeCoins, equalRange_filter]
  by_cases hkey : keyId = key
  · simp [hkey]
  · simp [hkey, Ne.symm hkey]

theorem equalRange_replaceCoins :
    (w.replaceCoins keyId coins).availableCoins.equalRange key =
      if keyId = key then coins else w.availableCoins.equalRange key := by
  rw [replaceCoins, equalRange_addCoins, equalRange_erase]
  by_cases hkey : keyId = key <;> simp [hkey]

theorem lookup_addInputs (inputs : OrderedMap Uint256 (List CKeyID)) (hash : Uint256) :
    (w.addInputs inputs).inputs.lookup hash = (w.inputs.lookup hash).or (inputs.lookup hash) :=
  OrderedMap.lookup_insertAll w.inputs inputs hash

end Coins

section Choice

variable {w : CWallet} {nTargetValue : Int64} {coins : List CAvailableCoin}

theorem searchCoins_inl {found : Candidates} {coin : CAvailableCoin}
    (h : searchCoins nTargetValue coins found = .inl coin) : coin ∈ coins := by
  induction coins generalizing found with
  | nil => cases h
  | cons first coins ih =>
    simp only [searchCoins] at h
    split at h
    · cases h
      exact List.mem_cons_self
    · split at h
      · exact List.mem_cons_of_mem _ (ih h)
      · split at h
        · exact List.mem_cons_of_mem _ (ih h)
        · exact List.mem_cons_of_mem _ (ih h)

theorem searchCoins_inr {all : List CAvailableCoin} {found found' : Candidates}
    (h : searchCoins nTargetValue coins found = .inr found') (hcoins : coins ⊆ all)
    (hvalue : found.vValue ⊆ all)
    (hlarger : ∀ coin, found.coinLowestLarger.2 = some coin → coin ∈ all) :
    found'.vValue ⊆ all ∧ ∀ coin, found'.coinLowestLarger.2 = some coin → coin ∈ all := by
  induction coins generalizing found with
  | nil =>
    cases h
    exact ⟨hvalue, hlarger⟩
  | cons first coins ih =>
    obtain ⟨hfirst, hrest⟩ := List.cons_subset.mp hcoins
    simp only [searchCoins] at h
    split at h
    · cases h
    · split at h
      · refine ih h hrest ?_ hlarger
        exact List.append_subset.mpr ⟨hvalue, List.cons_subset.mpr ⟨hfirst, List.nil_subset _⟩⟩
      · split at h
        · refine ih h hrest hvalue fun coin hcoin => ?_
          obtain rfl := Option.some.inj hcoin
          exact hfirst
        · exact ih h hrest hvalue hlarger

theorem takeCoins_subset {taken result : List CAvailableCoin × Int64}
    (h : takeCoins nTargetValue coins taken = some result) : result.1 ⊆ taken.1 ++ coins := by
  induction coins generalizing taken with
  | nil =>
    rw [takeCoins] at h
    split at h
    · cases h
      exact List.subset_append_left _ _
    · cases h
  | cons first coins ih =>
    rw [takeCoins] at h
    split at h
    · have hrest := ih h
      rwa [List.append_assoc] at hrest
    · cases h
      exact List.subset_append_left _ _

theorem selectCoins_subset (S : CWalletServices) {setCoins : List CAvailableCoin}
    {nValueRet : Int64} (h : w.selectCoins S.sort nTargetValue = some (setCoins, nValueRet)) :
    setCoins ⊆ w.availableCoins.values := by
  rw [selectCoins] at h
  split at h
  case h_1 coin hcoin =>
    cases h
    exact List.cons_subset.mpr ⟨searchCoins_inl hcoin, List.nil_subset _⟩
  case h_2 found hfound =>
    obtain ⟨hvalue, hlarger⟩ := searchCoins_inr hfound (List.Subset.refl _) (List.nil_subset _)
      fun _ hnone => by cases hnone
    split at h
    · cases h
      exact hvalue
    · split at h
      · obtain ⟨coin, hcoin, heq⟩ := Option.map_eq_some_iff.mp h
        cases heq
        exact List.cons_subset.mpr ⟨hlarger coin hcoin, List.nil_subset _⟩
      · intro coin hcoin
        have htaken := takeCoins_subset h hcoin
        exact hvalue ((S.sort_perm found.vValue).subset htaken)

end Choice

/-- What the outputs and the fee of the tracker amount to. -/
def neededValue (outputs : List (CKeyID × Int64)) (price : UInt32) : Int64 :=
  (outputs.map Prod.snd).sum + (price.toUInt64 * UInt64.ofNat outputs.length).toInt64

def usedCoins (outputs : List (CKeyID × Int64)) (coinsToUse : List CAvailableCoin)
    (price : UInt32) : List CAvailableCoin :=
  (CWalletContext.requestCoins (neededValue outputs price) coinsToUse).2.2

section Creation

variable {w w' : CWallet} {S : CWalletServices} {H : HashFunctions}
  {outputs : List (CKeyID × Int64)} {coinsToUse : List CAvailableCoin} {trackerKey : CPubKey}
  {price : UInt32} {tx : CTransaction}

theorem requestCoins_subset (nTotalValue : Int64) (coinsToUse : List CAvailableCoin) :
    (CWalletContext.requestCoins nTotalValue coinsToUse).2.2 ⊆ coinsToUse := by
  induction coinsToUse generalizing nTotalValue with
  | nil => exact List.Subset.refl _
  | cons coin coinsToUse ih =>
    simp only [CWalletContext.requestCoins]
    split
    · exact List.cons_subset.mpr ⟨List.mem_cons_self, List.nil_subset _⟩
    · exact List.cons_subset_cons _ (ih _)

theorem getKeyForCoin_spec {coin : CAvailableCoin} {keyId : CKeyID}
    (h : w.getKeyForCoin coin = some keyId) : coin ∈ w.availableCoins.equalRange keyId := by
  obtain ⟨p, hfound, rfl⟩ := Option.map_eq_some_iff.mp h
  have hcoin : p.2 = coin := by simpa using List.find?_some hfound
  rw [mem_equalRange, ← hcoin]
  exact List.mem_of_find?_eq_some hfound

theorem determineChangeAddress_spec {setCoins : List CAvailableCoin} {keyId : CKeyID}
    (h : w.determineChangeAddress setCoins = some keyId) :
    ∃ coin ∈ setCoins, coin ∈ w.availableCoins.equalRange keyId := by
  obtain ⟨p, hfound, rfl⟩ := Option.map_eq_some_iff.mp h
  refine ⟨p.2, by simpa using List.find?_some hfound, ?_⟩
  exact mem_equalRange.mpr (List.mem_of_find?_eq_some hfound)

/-- The assertion does not fail for coins that are available, and each is recorded under a key
that has it. -/
theorem coinsToRemove_spec {setCoins : List CAvailableCoin}
    (hsubset : setCoins ⊆ w.availableCoins.values)
    (toRemove : OrderedMultimap CKeyID CAvailableCoin) :
    ∃ removed, w.coinsToRemove setCoins toRemove = some removed ∧
      ∀ key coin, coin ∈ removed.equalRange key ↔
        coin ∈ toRemove.equalRange key ∨ coin ∈ setCoins ∧ w.getKeyForCoin coin = some key := by
  induction setCoins generalizing toRemove with
  | nil => exact ⟨toRemove, rfl, by simp⟩
  | cons first setCoins ih =>
    obtain ⟨hfirst, hrest⟩ := List.cons_subset.mp hsubset
    have hkey : ∃ keyId, w.getKeyForCoin first = some keyId := by
      obtain ⟨p, hp, rfl⟩ := List.mem_map.mp hfirst
      rw [← Option.isSome_iff_exists, getKeyForCoin, Option.isSome_map, List.find?_isSome]
      exact ⟨p, hp, decide_eq_true rfl⟩
    obtain ⟨keyId, hkeyId⟩ := hkey
    obtain ⟨removed, hremoved, hmem⟩ := ih hrest (toRemove.insert keyId first)
    refine ⟨removed, ?_, fun key coin => ?_⟩
    · rw [coinsToRemove, hkeyId, Option.bind_some, hremoved]
    · rw [hmem, equalRange_insert, List.mem_append, List.mem_cons, or_assoc]
      refine or_congr_right ?_
      constructor
      · rintro (hnew | ⟨hcoin, hfound⟩)
        · split at hnew
          case isTrue heq =>
            obtain rfl := List.mem_singleton.mp hnew
            exact ⟨.inl rfl, heq ▸ hkeyId⟩
          case isFalse => cases hnew
        · exact ⟨.inr hcoin, hfound⟩
      · rintro ⟨rfl | hcoin, hfound⟩
        · obtain rfl : keyId = key := Option.some.inj (hkeyId.symm.trans hfound)
          exact .inl (by simp)
        · exact .inr ⟨hcoin, hfound⟩

theorem signInputs_prevout {W : CWalletContext} {coins : List CAvailableCoin} {nIn : ℕ}
    {unsigned signed : CTransaction} (h : W.signInputs coins nIn unsigned = some signed) :
    signed.vin.map (·.prevout) = unsigned.vin.map (·.prevout) := by
  induction coins generalizing nIn unsigned with
  | nil =>
    obtain rfl := Option.some.inj h
    rfl
  | cons coin coins ih =>
    obtain ⟨scriptSig, -, hrest⟩ := Option.bind_eq_some_iff.mp h
    rw [ih hrest]
    refine List.ext_getElem (by simp) fun i hi hi' => ?_
    simp only [List.getElem_map, List.getElem_modify]
    split <;> rfl

theorem createTransaction_spec
    (h : w.createTransaction S H outputs coinsToUse trackerKey price = some (tx, w')) :
    ∃ setCoins nValueIn toRemove toAdd,
      w.selectCoins S.sort (CWalletContext.requestCoins (neededValue outputs price) coinsToUse).1 =
        some (setCoins, nValueIn) ∧
      w.addChange S (nValueIn +
          (CWalletContext.requestCoins (neededValue outputs price) coinsToUse).2.1 -
            neededValue outputs price) setCoins
        (CWalletContext.payTo (outputs ++ [(trackerKey.getID H,
          (price.toUInt64 * UInt64.ofNat outputs.length).toInt64)]))
        (w.expectedCoins outputs) = some (tx.vout, toAdd) ∧
      w.coinsToRemove setCoins .empty = some toRemove ∧
      tx.vin.map (·.prevout) =
        (setCoins ++ usedCoins outputs coinsToUse price).map CAvailableCoin.outPoint ∧
      (∀ target ∈ outputs, ¬target.2 < 0) ∧
      (CTransaction.contentsCodec.encode tx.contents).length < maxStandardTxSize ∧
      w' = { w with
        waitingChanges := w.waitingChanges.insertNew (tx.getHash H) ⟨toRemove, toAdd⟩ } := by
  simp only [createTransaction] at h
  split at h
  case isTrue => cases h
  case isFalse hpositive =>
    split at h
    · cases h
    · obtain ⟨⟨setCoins, nValueIn⟩, hselected, h⟩ := Option.bind_eq_some_iff.mp h
      obtain ⟨⟨vout, toAdd⟩, hchange, h⟩ := Option.bind_eq_some_iff.mp h
      obtain ⟨toRemove, hremove, h⟩ := Option.bind_eq_some_iff.mp h
      obtain ⟨signed, hsigned, h⟩ := Option.bind_eq_some_iff.mp h
      split at h
      · cases h
      · cases h
        have hvout : tx.vout = vout := CWalletContext.signInputs_vout hsigned
        refine ⟨setCoins, nValueIn, toRemove, toAdd, hselected, ?_, hremove, ?_, ?_, not_le.mp ‹_›, rfl⟩
        · rw [hvout]
          exact hchange
        · rw [signInputs_prevout hsigned, List.map_map]
          rfl
        · simpa using hpositive

theorem map_fst_addChange (nChange : Int64) (setCoins : List CAvailableCoin) (vout : List CTxOut)
    (toAdd : OrderedMultimap CKeyID CAvailableCoin) :
    (w.addChange S nChange setCoins vout toAdd).map Prod.fst =
      (w.context S).addChange nChange setCoins vout := by
  rw [addChange, CWalletContext.addChange]
  split
  · rw [Option.map_map]
    rfl
  · rfl

/-- The transaction is the one that the context of the wallet gives; the wallet only records
what it changes. -/
theorem map_fst_createTransaction (w : CWallet) (S : CWalletServices) (H : HashFunctions)
    (outputs : List (CKeyID × Int64)) (coinsToUse : List CAvailableCoin) (trackerKey : CPubKey)
    (price : UInt32) :
    (w.createTransaction S H outputs coinsToUse trackerKey price).map Prod.fst =
      (w.context S).createTransaction H outputs coinsToUse trackerKey price := by
  simp only [createTransaction, CWalletContext.createTransaction]
  split
  · rfl
  · split
    · rfl
    · rw [Option.map_bind]
      refine Option.bind_congr fun selected hselected => ?_
      obtain ⟨setCoins, nValueIn⟩ := selected
      rw [← map_fst_addChange _ _ _ (w.expectedCoins outputs), Function.comp_apply, Option.map_bind,
        Option.bind_map]
      refine Option.bind_congr fun changed _ => ?_
      obtain ⟨removed, hremoved, -⟩ :=
        coinsToRemove_spec (selectCoins_subset S hselected) OrderedMultimap.empty
      simp only [Function.comp_apply, hremoved, Option.bind_some, Option.map_bind]
      refine Option.bind_congr fun signed _ => ?_
      split <;> rfl

end Creation

section Admission

variable {w w' : CWallet} {H : HashFunctions} {initialHash : Uint256} {tx : CTransaction}
  {update : CUpdateCoins}

theorem kept_passGroups (pass : CWallet → CKeyID → List CAvailableCoin → CWallet)
    (hpass : ∀ w key coins, (pass w key coins).inputs = w.inputs ∧
      (pass w key coins).waitingChanges = w.waitingChanges)
    (entries : List (CKeyID × CAvailableCoin)) (w : CWallet) :
    (passGroups pass 0 [] entries w).inputs = w.inputs ∧
      (passGroups pass 0 [] entries w).waitingChanges = w.waitingChanges := by
  refine passGroups_invariant pass (P := fun w₁ => w₁.inputs = w.inputs ∧
    w₁.waitingChanges = w.waitingChanges) (fun w₁ key coins hkept => ?_) ⟨rfl, rfl⟩
  exact ⟨(hpass w₁ key coins).1.trans hkept.1, (hpass w₁ key coins).2.trans hkept.2⟩

theorem equalRange_removeGroups (toRemove : OrderedMultimap CKeyID CAvailableCoin) (w : CWallet)
    (key : CKeyID) :
    (passGroups removeCoins 0 [] toRemove.entries w).availableCoins.equalRange key =
      (w.availableCoins.equalRange key).filter (· ∉ toRemove.equalRange key) :=
  seen_passGroups_entries removeCoins (fun w key => w.availableCoins.equalRange key)
    (fun coins removed => coins.filter (· ∉ removed)) (fun coins => by simp)
    (fun w keyId key coins => w.equalRange_removeCoins keyId key coins) toRemove 0 key w

theorem equalRange_addGroups (toAdd : OrderedMultimap CKeyID CAvailableCoin) (w : CWallet)
    (key : CKeyID) :
    (passGroups addCoins 0 [] toAdd.entries w).availableCoins.equalRange key =
      w.availableCoins.equalRange key ++ toAdd.equalRange key :=
  seen_passGroups_entries addCoins (fun w key => w.availableCoins.equalRange key)
    (fun coins added => coins ++ added) List.append_nil
    (fun w keyId key coins => by
      rw [equalRange_addCoins]
      by_cases hkey : keyId = key <;> simp [hkey]) toAdd 0 key w

/-- What is removed and added under each key. No value if what is expected is not found. -/
theorem addmitNewTransaction_spec (hupdate : w.waitingChanges.lookup initialHash = some update) :
    w.addmitNewTransaction H initialHash tx = some w' →
    (∀ coin ∈ update.toAdd.values, coin.coin ∈ tx.vout) ∧
      (∀ key, w'.availableCoins.equalRange key =
        (w.availableCoins.equalRange key).filter (· ∉ update.toRemove.equalRange key) ++
          (update.toAdd.equalRange key).map (locateCoin H tx)) ∧
      w'.inputs = w.inputs ∧
      w'.waitingChanges = w.waitingChanges.assign initialHash
        { update with toAdd := update.toAdd.mapValues (locateCoin H tx) } := by
  intro h
  rw [addmitNewTransaction, hupdate, Option.bind_some] at h
  dsimp only at h
  split at h
  case isFalse => cases h
  case isTrue hfound =>
    cases h
    have hremoved := kept_passGroups removeCoins (fun _ _ _ => ⟨rfl, rfl⟩) update.toRemove.entries w
    refine ⟨by simpa using hfound, fun key => ?_, ?_, ?_⟩
    · rw [equalRange_addGroups, equalRange_removeGroups, equalRange_mapValues]
    · rw [(kept_passGroups addCoins (fun _ _ _ => ⟨rfl, rfl⟩) _ _).1]
      exact hremoved.1
    · rw [(kept_passGroups addCoins (fun _ _ _ => ⟨rfl, rfl⟩) _ _).2, hremoved.2]

theorem isSome_addmitNewTransaction (hupdate : w.waitingChanges.lookup initialHash = some update)
    (hfound : ∀ coin ∈ update.toAdd.values, coin.coin ∈ tx.vout) :
    ∃ w', w.addmitNewTransaction H initialHash tx = some w' := by
  rw [addmitNewTransaction, hupdate, Option.bind_some]
  dsimp only
  rw [if_pos (by simpa using hfound)]
  exact ⟨_, rfl⟩

end Admission

end CWallet

end Dims
