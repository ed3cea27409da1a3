import Dims.CoinSelection

/-!
# Created transactions balance

What is spent by a transaction of the wallet is compared with what it pays, in the integers. The
coins to use come first; the wallet selects coins for what they leave open, and the change goes to
the key of a coin that it has selected.
-/

namespace Dims
open SignedSums

namespace CWalletContext

variable (W : CWalletContext) (H : HashFunctions) (outputs : List (CKeyID × Int64))
  (coinsToUse : List CAvailableCoin) (trackerKey : CPubKey) (price : UInt32)

/-- `int64_t trackerFee = _price * _outputs.size();` -/
def trackerFee : Int64 := (price.toUInt64 * UInt64.ofNat outputs.length).toInt64

variable {W}

end CWalletContext

namespace CWallet
open CWalletContext

/-- What is asked for and the fee of the tracker, in the integers. -/
def need (outputs : List (CKeyID × Int64)) (price : UInt32) : ℤ :=
  total (outputs.map Prod.snd) + price.toNat * outputs.length

def remaining (outputs : List (CKeyID × Int64)) (coinsToUse : List CAvailableCoin)
    (price : UInt32) : Int64 :=
  (requestCoins (neededValue outputs price) coinsToUse).1

/-- There are no negative amounts, and the sums are in the range of `int64_t`. -/
structure InRange (w : CWallet) (outputs : List (CKeyID × Int64)) (coinsToUse : List CAvailableCoin)
    (price : UInt32) : Prop where
  amounts : ∀ target ∈ outputs, 0 ≤ target.2.toInt
  available : NonnegCoins w.availableCoins.values
  given : NonnegCoins coinsToUse
  needFits : need outputs price < 2 ^ 63
  supply : worth w.availableCoins.values + worth coinsToUse < 2 ^ 63

section Amounts

variable {w : CWallet} {outputs : List (CKeyID × Int64)} {coinsToUse : List CAvailableCoin}
  {price : UInt32}

theorem toInt_trackerFee (h : price.toNat * outputs.length < 2 ^ 63) :
    (trackerFee outputs price).toInt = price.toNat * outputs.length := by
  have hnat : (price.toUInt64 * UInt64.ofNat outputs.length).toNat = price.toNat * outputs.length := by
    rw [UInt64.toNat_mul, UInt32.toNat_toUInt64, UInt64.toNat_ofNat', Nat.mul_mod_mod,
      Nat.mod_eq_of_lt (by omega)]
  rw [trackerFee, Int64.toInt, UInt64.toBitVec_toInt64, BitVec.toInt_eq_toNat_of_lt]
  · rw [UInt64.toNat_toBitVec, hnat]
    exact Nat.cast_mul _ _
  · rw [UInt64.toNat_toBitVec, hnat]
    omega

theorem InRange.amounts_total (h : InRange w outputs coinsToUse price) :
    0 ≤ total (outputs.map Prod.snd) ∧
      (outputs.map Prod.snd).sum.toInt = total (outputs.map Prod.snd) ∧
      (trackerFee outputs price).toInt = price.toNat * outputs.length := by
  have hnonneg : ∀ a ∈ outputs.map Prod.snd, 0 ≤ a.toInt := by
    intro a ha
    obtain ⟨target, htarget, rfl⟩ := List.mem_map.mp ha
    exact h.amounts target htarget
  have hamounts := total_nonneg hnonneg
  have hneed := h.needFits
  have hfee : (0 : ℤ) ≤ price.toNat * outputs.length := Int.mul_nonneg (Int.natCast_nonneg _) (Int.natCast_nonneg _)
  rw [CWallet.need] at hneed
  refine ⟨hamounts, toInt_sum hnonneg (by omega), toInt_trackerFee ?_⟩
  have hlt : (price.toNat : ℤ) * outputs.length < 2 ^ 63 := by omega
  exact_mod_cast hlt

theorem InRange.neededValue (h : InRange w outputs coinsToUse price) :
    (neededValue outputs price).toInt = CWallet.need outputs price ∧ 0 ≤ CWallet.need outputs price := by
  obtain ⟨hamounts, hsum, hfee⟩ := h.amounts_total
  have hneed := h.needFits
  have hfeeNonneg : (0 : ℤ) ≤ price.toNat * outputs.length := Int.mul_nonneg (Int.natCast_nonneg _) (Int.natCast_nonneg _)
  rw [CWallet.need] at hneed ⊢
  have hfits : FitsInt64 ((outputs.map Prod.snd).sum.toInt + (trackerFee outputs price).toInt) := by
    rw [hsum, hfee]
    constructor <;> omega
  refine ⟨?_, by omega⟩
  rw [CWallet.neededValue, ← hsum, ← hfee]
  exact toInt_add_of_fits hfits

end Amounts

section Unsigned

variable {w : CWallet} {S : CWalletServices} {H : HashFunctions} {outputs : List (CKeyID × Int64)}
  {coinsToUse : List CAvailableCoin} {trackerKey : CPubKey} {price : UInt32}
  {selected : List CAvailableCoin × Int64}

end Unsigned

def Covers (w : CWallet) (outputs : List (CKeyID × Int64)) (coinsToUse : List CAvailableCoin)
    (price : UInt32) : Prop :=
  need outputs price ≤ worth w.availableCoins.values + worth coinsToUse

section Building

variable {w : CWallet} {S : CWalletServices} {H : HashFunctions} {outputs : List (CKeyID × Int64)}
  {coinsToUse : List CAvailableCoin} {trackerKey : CPubKey} {price : UInt32}

end Building

section Property

variable {w : CWallet} {S : CWalletServices} {H : HashFunctions} {outputs : List (CKeyID × Int64)}
  {coinsToUse : List CAvailableCoin} {trackerKey : CPubKey} {price : UInt32}

end Property

namespace OneCoin

open PendingWallet.OneCoin

end OneCoin

end CWallet

end Dims
