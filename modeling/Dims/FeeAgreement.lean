import Dims.CreateTransaction
import Dims.FeeCheck

/-!
# The fee of a wallet at the tracker

The wallet pays the price for each output that is asked for; the tracker asks the price for
each output of the transaction but two, of what has run up in the batch.
-/

namespace Dims
open ByteCodec Serialize FeeCheck

namespace CWalletContext

section Agreement

variable {W : CWalletContext} {H : HashFunctions} {outputs : List (CKeyID × Int64)}
  {coinsToUse : List CAvailableCoin} {trackerKey : CPubKey} {price : UInt32} {tx : CTransaction}

theorem parses_createTransaction
    (hcreate : W.createTransaction H outputs coinsToUse trackerKey price = some tx) :
    ∀ txOut ∈ tx.vout, txOut.scriptPubKey.parses := by
  obtain ⟨-, all, hvout, -, -⟩ := createTransaction_vout hcreate
  intro txOut htxOut
  rw [hvout] at htxOut
  obtain ⟨target, -, rfl⟩ := List.mem_map.mp htxOut
  exact CScript.parses_setDestination target.1

theorem isFound_createTransaction
    (hcreate : W.createTransaction H outputs coinsToUse trackerKey price = some tx) (c : FeeCheck) :
    c.isFound H (trackerKey.getID H) tx := by
  obtain ⟨-, all, hvout, hall, -⟩ := createTransaction_vout hcreate
  have hfee := mem_findOutputInTransaction_payTo H (hall.subset (List.mem_append_right _
    (List.mem_singleton_self _)))
  have hparses : (tx.vout.all fun txOut => txOut.scriptPubKey.parses) = true :=
    List.all_eq_true.mpr (parses_createTransaction hcreate)
  rw [isFound, hparses, Bool.true_and, Bool.not_eq_true', List.isEmpty_eq_false_iff_exists_mem]
  rw [← hvout] at hfee
  exact ⟨_, List.mem_append_right _ hfee⟩

theorem fee_createTransaction
    (hcreate : W.createTransaction H outputs coinsToUse trackerKey price = some tx) :
    0 ≤ fee price tx ∧ fee price tx < 2 ^ 64 := by
  obtain ⟨hne, all, hvout, hall, hsize⟩ := createTransaction_vout hcreate
  have hsmall : tx.vout.length < 1000 := lt_of_le_of_lt (CTransaction.length_vout_le tx) hsize
  have htwo : 2 ≤ tx.vout.length := by
    have hlength := hall.length_le
    have hsome : 0 < outputs.length := List.length_pos_iff.mpr hne
    rw [List.length_append, List.length_singleton] at hlength
    rw [hvout, payTo, List.length_map]
    omega
  have hprice : (price.toNat : ℤ) < 2 ^ 32 := by exact_mod_cast price.toNat_lt
  have hnonneg : (0 : ℤ) ≤ price.toNat := Int.natCast_nonneg _
  have hcount : 0 ≤ (tx.vout.length : ℤ) - 2 ∧ (tx.vout.length : ℤ) - 2 < 2 ^ 32 := by omega
  refine ⟨mul_nonneg hnonneg hcount.1, ?_⟩
  calc (price.toNat : ℤ) * (tx.vout.length - 2)
      ≤ 2 ^ 32 * (tx.vout.length - 2) := mul_le_mul_of_nonneg_right hprice.le hcount.1
    _ < 2 ^ 32 * 2 ^ 32 := by linarith only [hcount.2]

theorem getElem?_verdictsFrom {past rest : List CTransaction} {c : FeeCheck} {myKeyId : CKeyID} :
    (verdictsFrom H myKeyId price c (past ++ tx :: rest))[past.length]? =
      some (tx, (past.foldl (checkFee H myKeyId price) c).verdicts H myKeyId price tx) := by
  induction past generalizing c with
  | nil => rfl
  | cons first past ih =>
    rw [List.cons_append, verdictsFrom, List.length_cons, List.getElem?_cons_succ, ih]
    rfl

/-- The tracker accepts a transaction of the wallet if and only if the price of its outputs but
two is within the remainder of what has run up. -/
theorem accepted_iff (W : CWalletContext) (H : HashFunctions) (outputs : List (CKeyID × Int64))
    (coinsToUse : List CAvailableCoin) (trackerKey : CPubKey) (price : UInt32) (tx : CTransaction)
    (hcreate : W.createTransaction H outputs coinsToUse trackerKey price = some tx)
    (past rest : List CTransaction) :
    (verdictsFrom H (trackerKey.getID H) price empty (past ++ tx :: rest))[past.length]? =
        some (tx, [true]) ↔
      fee price tx ≤ runUp H (trackerKey.getID H) (past ++ [tx]) % 2 ^ 32 := by
  obtain ⟨hnonneg, hsmall⟩ := fee_createTransaction hcreate
  rw [getElem?_verdictsFrom, Option.some.injEq, Prod.mk.injEq, and_iff_right rfl,
    verdicts_eq_singleton_iff, and_iff_right (isFound_createTransaction hcreate _),
    isPaid_iff (addValues_foundOutputs past tx), Int.emod_eq_of_lt hnonneg hsmall]

end Agreement

namespace LargeFee

def hashes : HashFunctions := ⟨fun _ => 0, fun _ => 9⟩

def trackerKey : CPubKey := .ofBytes (2 :: List.replicate 32 1)

def coin : CAvailableCoin := ⟨⟨10000000000, .setDestination 5⟩, 0, 1⟩

def wallet : CWalletContext where
  selectCoins nTargetValue :=
    if nTargetValue ≤ coin.coin.nValue then some ([coin], coin.coin.nValue) else none
  determineChangeAddress _ := some 5
  getRandInt _ := 0
  signSignature _ _ _ := some [1]

/-- A transaction of the wallet that pays two outputs at a price, with the change in front. -/
def transaction (price : UInt32) : CTransaction :=
  let trackerFee := (price.toUInt64 * 2).toInt64
  ⟨1, [⟨⟨1, 0⟩, [1], 0xffffffff⟩],
    [⟨10000000000 - 2 - trackerFee, .setDestination 5⟩, ⟨1, .setDestination 6⟩,
      ⟨1, .setDestination 7⟩, ⟨trackerFee, .setDestination 9⟩], 0, 0⟩

theorem created_ten : wallet.createTransaction hashes [(6, 1), (7, 1)] [] trackerKey 10 =
    some (transaction 10) := by
  decide +kernel

theorem created_large : wallet.createTransaction hashes [(6, 1), (7, 1)] [] trackerKey 0xffffffff =
    some (transaction 0xffffffff) := by
  decide +kernel

def neighbour : CTransaction :=
  ⟨1, [⟨⟨3, 0⟩, [1], 0xffffffff⟩], [⟨2, .setDestination 6⟩, ⟨4, .setDestination 9⟩], 0, 0⟩

/-- At a price of ten the tracker accepts it between two transactions that pay the tracker. -/
theorem accepted_ten : (verdictsFrom hashes (trackerKey.getID hashes) 10 empty
    ([neighbour] ++ transaction 10 :: [neighbour]))[[neighbour].length]? =
      some (transaction 10, [true]) :=
  (accepted_iff wallet hashes [(6, 1), (7, 1)] [] trackerKey 10 (transaction 10) created_ten
    [neighbour] [neighbour]).mpr (by decide +kernel)

/-- The fee of the largest price does not fit in the sum of the tracker. -/
theorem rejected_large :
    ¬∀ (W : CWalletContext) (H : HashFunctions) (outputs : List (CKeyID × Int64))
      (coinsToUse : List CAvailableCoin) (trackerKey : CPubKey) (price : UInt32) (tx : CTransaction),
      W.createTransaction H outputs coinsToUse trackerKey price = some tx →
      ∀ past rest : List CTransaction,
        (verdictsFrom H (trackerKey.getID H) price empty (past ++ tx :: rest))[past.length]? =
          some (tx, [true]) := by
  intro h
  have haccepted := h wallet hashes [(6, 1), (7, 1)] [] trackerKey 0xffffffff _ created_large [] []
  have hverdict : verdictsFrom hashes (trackerKey.getID hashes) 0xffffffff empty
      ([] ++ transaction 0xffffffff :: []) ≠ [(transaction 0xffffffff, [true])] := by
    decide +kernel
  exact hverdict (congrArg (fun found => found.toList) haccepted)

end LargeFee

end CWalletContext

end Dims
