import Dims.OwnCoins
import Dims.PendingTransactions

/-!
# The outpoints of the available coins

The coins of the wallet are reported by bundles, by scans, by admissions and by balance answers,
and they are kept in a map that takes a coin again. What a call leaves of the coins and what it
adds to them decides whether an outpoint is there twice.
-/

namespace Dims
open OrderedMultimap

namespace CWallet

def DistinctCoins (w : CWallet) : Prop :=
  (w.availableCoins.values.map CAvailableCoin.outPoint).Nodup

end CWallet

/-- The calls that change the coins, and the creation of the transactions that are admitted. -/
inductive CoinCall
  | createTransaction (S : CWalletServices) (outputs : List (CKeyID × Int64))
      (coinsToUse : List CAvailableCoin) (trackerKey : CPubKey) (price : UInt32)
  | replaceAvailableCoins (keyId : CKeyID) (coins : List CAvailableCoin)
  | addAvailableCoins (keyId : CKeyID) (coins : List CAvailableCoin)
  | findSelfCoinsAndAddToWallet (tx : CTransaction)
  | removeCoins (keyId : CKeyID) (previousCoins : List CAvailableCoin)
  | addmitNewTransaction (initialHash : Uint256) (tx : CTransaction)

namespace CoinCall
open CWallet

section

variable (H : HashFunctions) (myKeyId : CKeyID)

/-- One call. There is no wallet once an assertion has failed. -/
def step (s : Option CWallet) (call : CoinCall) : Option CWallet :=
  s.bind fun w => match call with
    | .createTransaction S outputs coinsToUse trackerKey price =>
      some (((w.createTransaction S H outputs coinsToUse trackerKey price).map Prod.snd).getD w)
    | .replaceAvailableCoins keyId coins => some (w.replaceCoins keyId coins)
    | .addAvailableCoins keyId coins => some (w.addCoins keyId coins)
    | .findSelfCoinsAndAddToWallet tx => some (w.findSelfCoinsAndAddToWallet H myKeyId tx)
    | .removeCoins keyId previousCoins => some (w.removeCoins keyId previousCoins)
    | .addmitNewTransaction initialHash tx => w.addmitNewTransaction H initialHash tx

/-- What a transaction was recorded to remove and to add, if all that it adds is found in it. -/
def admitted (w : CWallet) (initialHash : Uint256) (tx : CTransaction) : Option CUpdateCoins :=
  (w.waitingChanges.lookup initialHash).filter fun update =>
    update.toAdd.values.all fun coin => coin.coin ∈ tx.vout

def kept (w : CWallet) : CoinCall → OrderedMultimap CKeyID CAvailableCoin
  | .replaceAvailableCoins keyId _ => w.availableCoins.erase keyId
  | .removeCoins keyId previousCoins =>
    w.availableCoins.filter fun key coin => ¬(key = keyId ∧ coin ∈ previousCoins)
  | .addmitNewTransaction initialHash tx =>
    match admitted w initialHash tx with
    | none => w.availableCoins
    | some update => w.availableCoins.filter fun key coin => coin ∉ update.toRemove.equalRange key
  | _ => w.availableCoins

def added (w : CWallet) : CoinCall → List CAvailableCoin
  | .createTransaction .. => []
  | .replaceAvailableCoins _ coins => coins
  | .addAvailableCoins _ coins => coins
  | .findSelfCoinsAndAddToWallet tx => selfCoins H myKeyId tx
  | .removeCoins .. => []
  | .addmitNewTransaction initialHash tx =>
    match admitted w initialHash tx with
    | none => []
    | some update => update.toAdd.values.map (locateCoin H tx)

/-- The coins that a call adds are different ones, and none of them is there. -/
structure AddsNew (w : CWallet) (call : CoinCall) : Prop where
  distinct : ((added H myKeyId w call).map CAvailableCoin.outPoint).Nodup
  fresh : ∀ coin ∈ added H myKeyId w call, ∀ other ∈ (kept w call).values,
    other.outPoint ≠ coin.outPoint

end

section Steps

variable {H : HashFunctions} {myKeyId : CKeyID}

theorem kept_sublist (w : CWallet) (call : CoinCall) :
    (kept w call).values.Sublist w.availableCoins.values := by
  cases call with
  | createTransaction => exact .refl _
  | replaceAvailableCoins keyId coins => exact values_filter_sublist _ _
  | addAvailableCoins => exact .refl _
  | findSelfCoinsAndAddToWallet => exact .refl _
  | removeCoins keyId previousCoins => exact values_filter_sublist _ _
  | addmitNewTransaction initialHash tx =>
    rw [kept]
    split
    · exact .refl _
    · exact values_filter_sublist _ _

theorem availableCoins_addmitNewTransaction {w w' : CWallet} {initialHash : Uint256}
    {tx : CTransaction} {update : CUpdateCoins}
    (hadmitted : admitted w initialHash tx = some update)
    (h : w.addmitNewTransaction H initialHash tx = some w') :
    w'.availableCoins = update.toAdd.entries.foldl (fun m p => m.insert p.1 (locateCoin H tx p.2))
      (w.availableCoins.filter fun key coin => coin ∉ update.toRemove.equalRange key) := by
  obtain ⟨hupdate, -⟩ := Option.filter_eq_some_iff.mp hadmitted
  obtain ⟨-, hcoins, -⟩ := addmitNewTransaction_spec hupdate h
  refine eq_of_equalRange fun key => ?_
  -- the values of a key are inserted in their order
  have hinserted : ∀ (entries : List (CKeyID × CAvailableCoin))
      (m : OrderedMultimap CKeyID CAvailableCoin),
      (entries.foldl (fun m p => m.insert p.1 (locateCoin H tx p.2)) m).equalRange key =
        m.equalRange key ++ (valuesOf key entries).map (locateCoin H tx) := by
    intro entries
    induction entries with
    | nil => intro m; simp
    | cons p entries ih =>
      intro m
      rw [List.foldl_cons, ih, equalRange_insert, valuesOf_cons, List.map_append, List.append_assoc]
      by_cases hkey : p.1 = key <;> simp [hkey]
  rw [hcoins, hinserted, equalRange_filter]
  rfl

theorem perm_values_step {w w' : CWallet} {call : CoinCall}
    (h : step H myKeyId (some w) call = some w') :
    w'.availableCoins.values.Perm ((kept w call).values ++ added H myKeyId w call) := by
  cases call with
  | createTransaction S outputs coinsToUse trackerKey price =>
    cases h
    rw [added, List.append_nil]
    cases hcreate : w.createTransaction S H outputs coinsToUse trackerKey price with
    | none => exact .refl _
    | some created =>
      obtain ⟨setCoins, nValueIn, toRemove, toAdd, -, -, -, -, -, -, hw⟩ :=
        createTransaction_spec hcreate
      rw [Option.map_some, Option.getD_some, hw]
      exact .refl _
  | replaceAvailableCoins keyId coins =>
    cases h
    exact perm_values_addCoins { w with availableCoins := w.availableCoins.erase keyId } keyId coins
  | addAvailableCoins keyId coins =>
    cases h
    exact perm_values_addCoins w keyId coins
  | findSelfCoinsAndAddToWallet tx =>
    cases h
    exact perm_values_addCoins w myKeyId (selfCoins H myKeyId tx)
  | removeCoins keyId previousCoins =>
    cases h
    rw [added, List.append_nil]
    exact .refl _
  | addmitNewTransaction initialHash tx =>
    have hsome : w.addmitNewTransaction H initialHash tx = some w' := h
    cases hadmitted : admitted w initialHash tx with
    | none =>
      -- the assertion has failed
      have hnone : w.addmitNewTransaction H initialHash tx = none := by
        rw [CWallet.addmitNewTransaction]
        cases hupdate : w.waitingChanges.lookup initialHash with
        | none => rfl
        | some update =>
          have hnot := hadmitted
          rw [admitted, hupdate, Option.filter_eq_none_iff] at hnot
          rw [Option.bind_some]
          exact if_neg (hnot update rfl)
      rw [hnone] at hsome
      cases hsome
    | some update =>
      rw [availableCoins_addmitNewTransaction hadmitted hsome]
      simp only [kept, added, hadmitted]
      have hall := perm_values_foldl_insert Prod.fst
        (fun p : CKeyID × CAvailableCoin => locateCoin H tx p.2) update.toAdd.entries
        (w.availableCoins.filter fun key coin => coin ∉ update.toRemove.equalRange key)
      rwa [← Function.comp_def, ← List.map_map] at hall

/-- A call keeps the outpoints distinct if and only if it adds new ones. -/
theorem distinctCoins_step {w w' : CWallet} {call : CoinCall} (hw : w.DistinctCoins)
    (h : step H myKeyId (some w) call = some w') :
    w'.DistinctCoins ↔ AddsNew H myKeyId w call := by
  have hperm := (perm_values_step h).map CAvailableCoin.outPoint
  have hkept : ((kept w call).values.map CAvailableCoin.outPoint).Nodup :=
    hw.sublist ((kept_sublist w call).map _)
  rw [DistinctCoins, hperm.nodup_iff, List.map_append, List.nodup_append]
  constructor
  · rintro ⟨-, hadded, hnew⟩
    exact ⟨hadded, fun coin hcoin other hother =>
      hnew _ (List.mem_map_of_mem hother) _ (List.mem_map_of_mem hcoin)⟩
  · rintro ⟨hadded, hnew⟩
    refine ⟨hkept, hadded, fun o ho o' ho' => ?_⟩
    obtain ⟨other, hother, rfl⟩ := List.mem_map.mp ho
    obtain ⟨coin, hcoin, rfl⟩ := List.mem_map.mp ho'
    exact hnew coin hcoin other hother

theorem addsNew_of_abort {w : CWallet} {call : CoinCall} (h : step H myKeyId (some w) call = none) :
    AddsNew H myKeyId w call := by
  have hnothing : added H myKeyId w call = [] := by
    cases call with
    | createTransaction => cases h
    | replaceAvailableCoins => cases h
    | addAvailableCoins => cases h
    | findSelfCoinsAndAddToWallet => cases h
    | removeCoins => cases h
    | addmitNewTransaction initialHash tx =>
      cases hadmitted : admitted w initialHash tx with
      | none => simp only [added, hadmitted]
      | some update =>
        obtain ⟨hupdate, hfound⟩ := Option.filter_eq_some_iff.mp hadmitted
        obtain ⟨w', hw'⟩ := isSome_addmitNewTransaction (H := H) hupdate (by simpa using hfound)
        exact absurd (h.symm.trans hw') (by simp)
  constructor <;> simp [hnothing]

end Steps

/-- No outpoint is ever available twice if and only if every call adds coins that are new. -/
theorem distinctCoins_always_iff (H : HashFunctions) (myKeyId : CKeyID) (w : CWallet)
    (calls : List CoinCall) (hw : w.DistinctCoins) :
    (∀ past, past <+: calls → ∀ w' ∈ GuardedRun.run (step H myKeyId) (some w) past,
        w'.DistinctCoins) ↔
      GuardedRun.Guarded (step H myKeyId) (fun s call => ∀ w ∈ s, AddsNew H myKeyId w call)
        (some w) calls := by
  have hgood : ∀ v ∈ some w, v.DistinctCoins := by
    rintro _ ⟨⟩
    exact hw
  have hstep : ∀ (s : Option CWallet) (call : CoinCall), True → (∀ v ∈ s, v.DistinctCoins) →
      ((∀ v ∈ step H myKeyId s call, v.DistinctCoins) ↔ ∀ w ∈ s, AddsNew H myKeyId w call) := by
    intro s call _ hs
    cases s with
    | none => simp [step]
    | some v =>
      have hv : v.DistinctCoins := hs v rfl
      cases hnext : step H myKeyId (some v) call with
      | none => simpa using addsNew_of_abort hnext
      | some v' => simpa using distinctCoins_step hv hnext
  exact GuardedRun.always_iff (fun _ _ _ => trivial) hstep trivial hgood

namespace Reported

open PendingWallet.OneCoin

def transaction : CTransaction := ⟨1, [], [⟨10, .setDestination 5⟩], 0, 0⟩

/-- A bundle and a scan report the same transaction. -/
theorem not_distinctCoins_twice :
    ∃ w, GuardedRun.run (step hashes 5) (some CWallet.empty)
        [.findSelfCoinsAndAddToWallet transaction, .findSelfCoinsAndAddToWallet transaction] = some w ∧
      ¬ w.DistinctCoins :=
  ⟨_, rfl, by rw [DistinctCoins]; decide +kernel⟩

theorem distinctCoins_once :
    ∃ w, GuardedRun.run (step hashes 5) (some CWallet.empty)
        [.findSelfCoinsAndAddToWallet transaction, .replaceAvailableCoins 5 []] = some w ∧
      w.DistinctCoins := by
  refine ⟨_, rfl, (distinctCoins_always_iff hashes 5 CWallet.empty
    [.findSelfCoinsAndAddToWallet transaction, .replaceAvailableCoins 5 []] List.nodup_nil).mpr ?_
      _ List.prefix_rfl _ rfl⟩
  have hself : selfCoins hashes 5 transaction =
      [⟨⟨10, .setDestination 5⟩, 0, transaction.getHash hashes⟩] := by decide +kernel
  refine ⟨?_, ?_, trivial⟩
  · rintro _ ⟨⟩
    refine ⟨?_, fun coin _ other hother => ?_⟩
    · rw [added, hself]
      exact List.nodup_singleton _
    · cases hother
  · rintro _ ⟨⟩
    exact ⟨List.nodup_nil, fun coin hcoin => by cases hcoin⟩

end Reported

end CoinCall

end Dims
