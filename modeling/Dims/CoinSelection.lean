import Dims.PendingTransactions
import Dims.SignedSums

/-!
# What the selection of coins finds

The search gathers the coins below the value that is looked for and the least one above it.
For coins without negative values, whose sum is in the range of `int64_t`, the result is compared
with what the coins are worth.
-/

namespace Dims.CWallet
open SignedSums

def values (coins : List CAvailableCoin) : List Int64 := coins.map fun coin => coin.coin.nValue

/-- What coins are worth, in the integers. -/
def worth (coins : List CAvailableCoin) : ℤ := total (values coins)

section Worth

@[simp] theorem worth_nil : worth [] = 0 := rfl

@[simp] theorem worth_cons (coin : CAvailableCoin) (coins : List CAvailableCoin) :
    worth (coin :: coins) = coin.coin.nValue.toInt + worth coins := total_cons _ _

@[simp] theorem worth_append (first second : List CAvailableCoin) :
    worth (first ++ second) = worth first + worth second := by
  rw [worth, values, List.map_append]
  exact total_append _ _

theorem worth_perm {first second : List CAvailableCoin} (h : first.Perm second) :
    worth first = worth second := total_perm (h.map _)

def NonnegCoins (coins : List CAvailableCoin) : Prop := ∀ coin ∈ coins, 0 ≤ coin.coin.nValue.toInt

instance (coins : List CAvailableCoin) : Decidable (NonnegCoins coins) :=
  inferInstanceAs (Decidable (∀ _ ∈ _, _))

variable {part coins : List CAvailableCoin}

theorem NonnegCoins.values (h : NonnegCoins coins) : ∀ a ∈ values coins, 0 ≤ a.toInt := by
  intro a ha
  obtain ⟨coin, hcoin, rfl⟩ := List.mem_map.mp ha
  exact h coin hcoin

theorem NonnegCoins.subset (h : NonnegCoins coins) (hpart : part ⊆ coins) : NonnegCoins part :=
  fun coin hcoin => h coin (hpart hcoin)

theorem NonnegCoins.worth_nonneg (h : NonnegCoins coins) : 0 ≤ worth coins := total_nonneg h.values

theorem NonnegCoins.worth_le (h : NonnegCoins coins) (hpart : part.Subperm coins) :
    worth part ≤ worth coins := by
  obtain ⟨part', hperm, hsub⟩ := hpart
  rw [← worth_perm hperm]
  exact total_le_of_sublist (hsub.map _) h.values

end Worth

/-- The value that no coin is less than before one is found. -/
def greatestValue : Int64 := 0x7fffffffffffffff

theorem toInt_greatestValue : greatestValue.toInt = 2 ^ 63 - 1 := by decide

theorem le_greatestValue (a : Int64) : a ≤ greatestValue := by
  have hlt := a.toInt_lt
  rw [Int64.le_iff_toInt_le, toInt_greatestValue]
  omega

/-- What has been found when the coins `seen` have been gone through. -/
structure Scanned (nTargetValue : Int64) (seen : List CAvailableCoin) (found : Candidates) : Prop where
  unequal : ∀ coin ∈ seen, coin.coin.nValue ≠ nTargetValue
  lower : found.vValue = seen.filter fun coin => coin.coin.nValue < nTargetValue
  totalLower : found.nTotalLower.toInt = worth found.vValue
  larger : (∃ coin ∈ seen, found.coinLowestLarger = (coin.coin.nValue, some coin) ∧
      nTargetValue < coin.coin.nValue ∧ coin.coin.nValue < greatestValue) ∨
    found.coinLowestLarger = (greatestValue, none) ∧
      ∀ coin ∈ seen, nTargetValue < coin.coin.nValue → greatestValue ≤ coin.coin.nValue

section Search

variable {nTargetValue : Int64} {seen coins : List CAvailableCoin} {coin : CAvailableCoin}
  {found found' : Candidates}

theorem scanned_nil (nTargetValue : Int64) : Scanned nTargetValue [] ⟨[], 0, greatestValue, none⟩ where
  unequal := by simp
  lower := rfl
  totalLower := rfl
  larger := .inr ⟨rfl, by simp⟩

theorem Scanned.lower_subset (h : Scanned nTargetValue seen found) : found.vValue.Sublist seen :=
  h.lower ▸ List.filter_sublist

theorem Scanned.addLower (h : Scanned nTargetValue seen found)
    (hlt : coin.coin.nValue < nTargetValue) (hnonneg : NonnegCoins (seen ++ [coin]))
    (hfits : worth (seen ++ [coin]) < 2 ^ 63) :
    Scanned nTargetValue (seen ++ [coin]) { found with
      vValue := found.vValue ++ [coin]
      nTotalLower := found.nTotalLower + coin.coin.nValue } where
  unequal := List.forall_mem_append.mpr ⟨h.unequal, List.forall_mem_singleton.mpr (Int64.ne_of_lt hlt)⟩
  lower := by simp [h.lower, hlt]
  totalLower := by
    have hpart : (found.vValue ++ [coin]).Subperm (seen ++ [coin]) :=
      (h.lower_subset.append_right [coin]).subperm
    have hle := hnonneg.worth_le hpart
    have hpos := (hnonneg.subset hpart.subset).worth_nonneg
    have hsum : worth (found.vValue ++ [coin]) = found.nTotalLower.toInt + coin.coin.nValue.toInt := by
      rw [worth_append, worth_cons, worth_nil, add_zero, h.totalLower]
    rw [toInt_add_of_fits (by rw [← hsum]; constructor <;> omega), hsum]
  larger := by
    have hnot : ¬ nTargetValue < coin.coin.nValue := Int64.not_lt.mpr (Int64.le_of_lt hlt)
    rcases h.larger with ⟨c, hc, hlarger⟩ | ⟨hlarger, hall⟩
    · exact .inl ⟨c, List.mem_append_left _ hc, hlarger⟩
    · refine .inr ⟨hlarger, List.forall_mem_append.mpr ⟨hall, List.forall_mem_singleton.mpr ?_⟩⟩
      exact fun hlt => absurd hlt hnot

theorem Scanned.addLarger (h : Scanned nTargetValue seen found)
    (hlt : nTargetValue < coin.coin.nValue) {larger : Int64 × Option CAvailableCoin}
    (hlarger : larger = (coin.coin.nValue, some coin) ∧ coin.coin.nValue < greatestValue ∨
      larger = found.coinLowestLarger ∧ found.coinLowestLarger.1 ≤ coin.coin.nValue) :
    Scanned nTargetValue (seen ++ [coin]) { found with coinLowestLarger := larger } where
  unequal := List.forall_mem_append.mpr
    ⟨h.unequal, List.forall_mem_singleton.mpr (Int64.ne_of_lt hlt).symm⟩
  lower := by
    have hnot : ¬ coin.coin.nValue < nTargetValue := Int64.not_lt.mpr (Int64.le_of_lt hlt)
    simp [h.lower, hnot]
  totalLower := h.totalLower
  larger := by
    rcases hlarger with ⟨rfl, hless⟩ | ⟨rfl, hle⟩
    · exact .inl ⟨coin, List.mem_append_right _ List.mem_cons_self, rfl, hlt, hless⟩
    · rcases h.larger with ⟨c, hc, hkept⟩ | ⟨hnone, hall⟩
      · exact .inl ⟨c, List.mem_append_left _ hc, hkept⟩
      · rw [hnone] at hle
        refine .inr ⟨hnone, List.forall_mem_append.mpr ⟨hall, List.forall_mem_singleton.mpr ?_⟩⟩
        exact fun _ => hle

theorem Scanned.searchCoins (h : Scanned nTargetValue seen found)
    (hnonneg : NonnegCoins (seen ++ coins)) (hfits : worth (seen ++ coins) < 2 ^ 63)
    (hfound : searchCoins nTargetValue coins found = .inr found') :
    Scanned nTargetValue (seen ++ coins) found' := by
  induction coins generalizing seen found with
  | nil =>
    cases hfound
    rwa [List.append_nil]
  | cons coin coins ih =>
    have happend : seen ++ coin :: coins = (seen ++ [coin]) ++ coins := List.append_cons _ _ _
    rw [happend] at hnonneg hfits ⊢
    have hseen : NonnegCoins (seen ++ [coin]) := hnonneg.subset (List.subset_append_left _ _)
    have hseenFits : worth (seen ++ [coin]) < 2 ^ 63 :=
      (hnonneg.worth_le (List.sublist_append_left _ _).subperm).trans_lt hfits
    simp only [CWallet.searchCoins] at hfound
    split at hfound
    · cases hfound
    case isFalse hne =>
      split at hfound
      case isTrue hlt => exact ih (h.addLower hlt hseen hseenFits) hnonneg hfits hfound
      case isFalse hnot =>
        have hlt : nTargetValue < coin.coin.nValue :=
          Int64.lt_of_le_of_ne (Int64.not_lt.mp hnot) (Ne.symm hne)
        split at hfound
        case isTrue hless =>
          have hleast := Int64.lt_of_lt_of_le hless (le_greatestValue _)
          exact ih (h.addLarger hlt (.inl ⟨rfl, hleast⟩)) hnonneg hfits hfound
        case isFalse hge =>
          have hkept := h.addLarger hlt (.inr ⟨rfl, Int64.not_lt.mp hge⟩)
          exact ih hkept hnonneg hfits hfound

theorem value_of_searchCoins_inl (h : CWallet.searchCoins nTargetValue coins found = .inl coin) :
    coin.coin.nValue = nTargetValue := by
  induction coins generalizing found with
  | nil => cases h
  | cons first coins ih =>
    simp only [CWallet.searchCoins] at h
    split at h
    case isTrue heq =>
      cases h
      exact heq
    case isFalse =>
      split at h
      · exact ih h
      · split at h
        · exact ih h
        · exact ih h

end Search

/-- If there is enough, some of the first coins are taken, and they are worth the value. -/
theorem takeCoins_spec {nTargetValue : Int64} {coins : List CAvailableCoin}
    {taken : List CAvailableCoin × Int64} (htaken : taken.2.toInt = worth taken.1)
    (hnonneg : NonnegCoins (taken.1 ++ coins)) (hfits : worth (taken.1 ++ coins) < 2 ^ 63)
    (henough : nTargetValue.toInt ≤ worth (taken.1 ++ coins)) :
    ∃ result, takeCoins nTargetValue coins taken = some result ∧
      result.1.Sublist (taken.1 ++ coins) ∧ result.2.toInt = worth result.1 ∧
      nTargetValue ≤ result.2 := by
  induction coins generalizing taken with
  | nil =>
    rw [List.append_nil, ← htaken] at henough
    refine ⟨taken, ?_, List.sublist_append_left _ _, htaken, Int64.le_iff_toInt_le.mpr henough⟩
    rw [takeCoins, if_pos (Int64.le_iff_toInt_le.mpr henough)]
  | cons coin coins ih =>
    rw [takeCoins]
    split
    case isTrue =>
      have happend : taken.1 ++ coin :: coins = (taken.1 ++ [coin]) ++ coins := List.append_cons _ _ _
      rw [happend] at hnonneg hfits henough ⊢
      have hpart : (taken.1 ++ [coin]).Subperm ((taken.1 ++ [coin]) ++ coins) :=
        (List.sublist_append_left _ _).subperm
      have hle := hnonneg.worth_le hpart
      have hpos := (hnonneg.subset hpart.subset).worth_nonneg
      have hsum : worth (taken.1 ++ [coin]) = taken.2.toInt + coin.coin.nValue.toInt := by
        rw [worth_append, worth_cons, worth_nil, add_zero, htaken]
      have htaken' : (taken.2 + coin.coin.nValue).toInt = worth (taken.1 ++ [coin]) := by
        rw [toInt_add_of_fits (by rw [← hsum]; constructor <;> omega), hsum]
      exact ih htaken' hnonneg hfits henough
    case isFalse hmore =>
      exact ⟨taken, rfl, List.sublist_append_left _ _, htaken, Int64.le_of_lt (Int64.not_le.mp hmore)⟩

/-- The coins that are selected are some of the available ones, they are worth the value that is
reported, and that is enough. -/
structure Selects (w : CWallet) (nTargetValue : Int64) (selected : List CAvailableCoin × Int64) :
    Prop where
  subperm : selected.1.Subperm w.availableCoins.values
  value : selected.2.toInt = worth selected.1
  enough : nTargetValue ≤ selected.2

/-- There is a coin of the value that the search begins with, and less is looked for. -/
def GreatestUnseen (w : CWallet) (nTargetValue : Int64) : Prop :=
  (∃ coin ∈ w.availableCoins.values, coin.coin.nValue = greatestValue) ∧
    0 < nTargetValue ∧ nTargetValue < greatestValue

section Selection

variable {w : CWallet} {S : CWalletServices} {nTargetValue : Int64}

/-- Without a larger coin, what is below the value is all that there is, or a coin was not seen. -/
theorem Scanned.less_or_unseen {found : Candidates} (h : Scanned nTargetValue w.availableCoins.values found)
    (hnonneg : NonnegCoins w.availableCoins.values)
    (hall : ∀ coin ∈ w.availableCoins.values, nTargetValue < coin.coin.nValue →
      greatestValue ≤ coin.coin.nValue)
    (hless : found.nTotalLower < nTargetValue) :
    worth w.availableCoins.values < nTargetValue.toInt ∨ w.GreatestUnseen nTargetValue := by
  have hlessInt := Int64.lt_iff_toInt_lt.mp hless
  rw [h.totalLower] at hlessInt
  by_cases hgreatest : ∃ coin ∈ w.availableCoins.values, nTargetValue < coin.coin.nValue
  · obtain ⟨coin, hcoin, hlt⟩ := hgreatest
    have hvalue : coin.coin.nValue = greatestValue :=
      Int64.le_antisymm (le_greatestValue _) (hall coin hcoin hlt)
    have hlowerNonneg := (hnonneg.subset h.lower_subset.subset).worth_nonneg
    refine .inr ⟨⟨coin, hcoin, hvalue⟩, ?_, hvalue ▸ hlt⟩
    rw [Int64.lt_iff_toInt_lt, Int64.toInt_zero]
    omega
  · have hevery : found.vValue = w.availableCoins.values := by
      rw [h.lower, List.filter_eq_self]
      intro coin hcoin
      have hnot : ¬ nTargetValue < coin.coin.nValue := fun hlt => hgreatest ⟨coin, hcoin, hlt⟩
      exact decide_eq_true (Int64.lt_of_le_of_ne (Int64.not_lt.mp hnot) (h.unequal coin hcoin))
    rw [← hevery]
    exact .inl hlessInt

theorem Scanned.exists_takeCoins {found : Candidates}
    (h : Scanned nTargetValue w.availableCoins.values found)
    (hnonneg : NonnegCoins w.availableCoins.values) (hfits : worth w.availableCoins.values < 2 ^ 63)
    (henough : nTargetValue ≤ found.nTotalLower) :
    ∃ result, takeCoins nTargetValue (S.sort found.vValue) ([], 0) = some result ∧
      w.Selects nTargetValue result := by
  have hlower := h.lower_subset
  have hsort := S.sort_perm found.vValue
  have hsorted : NonnegCoins (S.sort found.vValue) :=
    hnonneg.subset (List.Subset.trans hsort.subset hlower.subset)
  have hsortedFits : worth (S.sort found.vValue) < 2 ^ 63 := by
    rw [worth_perm hsort]
    exact (hnonneg.worth_le hlower.subperm).trans_lt hfits
  have hsortedEnough : nTargetValue.toInt ≤ worth (S.sort found.vValue) := by
    rw [worth_perm hsort, ← h.totalLower]
    exact Int64.le_iff_toInt_le.mp henough
  have hzero : (([], 0) : List CAvailableCoin × Int64).2.toInt = worth [] := rfl
  obtain ⟨result, hresult, hsub, hvalue, hright⟩ :=
    takeCoins_spec hzero hsorted hsortedFits hsortedEnough
  exact ⟨result, hresult, (hsub.subperm.trans hsort.subperm).trans hlower.subperm, hvalue, hright⟩

/-- Where nothing is found, there is not enough, or there is a coin that was not seen. -/
theorem selectCoins_outcome (hnonneg : NonnegCoins w.availableCoins.values)
    (hfits : worth w.availableCoins.values < 2 ^ 63) :
    (∃ selected, w.selectCoins S.sort nTargetValue = some selected ∧ w.Selects nTargetValue selected) ∨
    w.selectCoins S.sort nTargetValue = none ∧
      (worth w.availableCoins.values < nTargetValue.toInt ∨ w.GreatestUnseen nTargetValue) := by
  rw [selectCoins]
  split
  case h_1 coin hfound =>
    refine .inl ⟨_, rfl, ?_, ?_, ?_⟩
    · exact List.singleton_subperm_iff.mpr (searchCoins_inl hfound)
    · rw [worth_cons, worth_nil, add_zero]
    · exact Int64.le_of_eq (value_of_searchCoins_inl hfound).symm
  case h_2 found hfound =>
    have hscanned : Scanned nTargetValue w.availableCoins.values found :=
      (scanned_nil nTargetValue).searchCoins hnonneg hfits hfound
    split
    case isTrue heq =>
      refine .inl ⟨_, rfl, hscanned.lower_subset.subperm, ?_, Int64.le_refl _⟩
      rw [← heq]
      exact hscanned.totalLower
    case isFalse =>
      split
      case isTrue hless =>
        rcases hscanned.larger with ⟨coin, hcoin, hlarger, hlt, -⟩ | ⟨hlarger, hall⟩
        · rw [hlarger]
          refine .inl ⟨_, rfl, List.singleton_subperm_iff.mpr hcoin, ?_, Int64.le_of_lt hlt⟩
          rw [worth_cons, worth_nil, add_zero]
        · rw [hlarger]
          exact .inr ⟨rfl, hscanned.less_or_unseen hnonneg hall hless⟩
      case isFalse hnot =>
        obtain ⟨result, hresult, hright⟩ := hscanned.exists_takeCoins hnonneg hfits (Int64.not_lt.mp hnot)
        exact .inl ⟨result, hresult, hright⟩

theorem selectCoins_of_greatestUnseen (hnonneg : NonnegCoins w.availableCoins.values)
    (hfits : worth w.availableCoins.values < 2 ^ 63) (h : w.GreatestUnseen nTargetValue) :
    w.selectCoins S.sort nTargetValue = none := by
  obtain ⟨⟨coin, hcoin, hvalue⟩, hpositive, hlt⟩ := h
  rw [Int64.lt_iff_toInt_lt, Int64.toInt_zero] at hpositive
  -- beside the coin there is room for no value
  have hothers : ∀ part : List CAvailableCoin, part.Subperm w.availableCoins.values → coin ∉ part →
      worth part ≤ 0 := by
    intro part hpart hnot
    have hboth := hnonneg.worth_le (List.cons_subperm_of_not_mem_of_mem hnot hcoin hpart)
    rw [worth_cons, hvalue, toInt_greatestValue] at hboth
    omega
  have hother : ∀ c ∈ w.availableCoins.values, c.coin.nValue ≠ greatestValue →
      c.coin.nValue.toInt ≤ 0 := by
    intro c hc hne
    have hnot : coin ∉ [c] := fun hmem => hne (List.mem_singleton.mp hmem ▸ hvalue)
    have hworth := hothers [c] (List.singleton_subperm_iff.mpr hc) hnot
    rwa [worth_cons, worth_nil, add_zero] at hworth
  rw [selectCoins]
  split
  case h_1 c hfound =>
    have hc := value_of_searchCoins_inl hfound
    have hworth := hother c (searchCoins_inl hfound) (hc ▸ Int64.ne_of_lt hlt)
    rw [hc] at hworth
    omega
  case h_2 found hfound =>
    have hscanned : Scanned nTargetValue w.availableCoins.values found :=
      (scanned_nil nTargetValue).searchCoins hnonneg hfits hfound
    have hnot : coin ∉ found.vValue := by
      rw [hscanned.lower, List.mem_filter]
      rintro ⟨-, hlower⟩
      rw [hvalue] at hlower
      exact Int64.lt_irrefl (Int64.lt_trans (of_decide_eq_true hlower) hlt)
    have hlower := hothers found.vValue hscanned.lower_subset.subperm hnot
    rw [← hscanned.totalLower] at hlower
    have hless : found.nTotalLower < nTargetValue := Int64.lt_iff_toInt_lt.mpr (by omega)
    rw [if_neg (Int64.ne_of_lt hless), if_pos hless]
    rcases hscanned.larger with ⟨c, hc, -, hlarger, hleast⟩ | ⟨hnone, -⟩
    · have hworth := hother c hc (Int64.ne_of_lt hleast)
      have hlargerInt := Int64.lt_iff_toInt_lt.mp hlarger
      omega
    · rw [hnone, Option.map_none]

/-- Coins are selected if and only if there are enough, and those that are selected are right. -/
def SelectsExactly (w : CWallet) (S : CWalletServices) (nTargetValue : Int64) : Prop :=
  ((w.selectCoins S.sort nTargetValue).isSome ↔
    nTargetValue.toInt ≤ worth w.availableCoins.values) ∧
  ∀ selected, w.selectCoins S.sort nTargetValue = some selected → w.Selects nTargetValue selected

/-- The selection is exact but for a coin of the greatest value when less is looked for. -/
theorem selectsExactly_iff (hnonneg : NonnegCoins w.availableCoins.values)
    (hfits : worth w.availableCoins.values < 2 ^ 63) :
    w.SelectsExactly S nTargetValue ↔ ¬ w.GreatestUnseen nTargetValue := by
  constructor
  · rintro ⟨hfound, -⟩ hunseen
    rw [selectCoins_of_greatestUnseen hnonneg hfits hunseen] at hfound
    obtain ⟨⟨coin, hcoin, hvalue⟩, -, hlt⟩ := hunseen
    have hworth := hnonneg.worth_le (List.singleton_subperm_iff.mpr hcoin)
    have hltInt := Int64.lt_iff_toInt_lt.mp hlt
    rw [worth_cons, worth_nil, add_zero, hvalue] at hworth
    exact absurd (hfound.mpr (by omega)) (by simp)
  · intro hunseen
    have houtcome : (∃ selected, w.selectCoins S.sort nTargetValue = some selected ∧
          w.Selects nTargetValue selected) ∨ w.selectCoins S.sort nTargetValue = none ∧
        (worth w.availableCoins.values < nTargetValue.toInt ∨ w.GreatestUnseen nTargetValue) :=
      selectCoins_outcome hnonneg hfits
    rcases houtcome with ⟨selected, hselected, hright⟩ | ⟨hnone, hwhy⟩
    · rw [SelectsExactly, hselected]
      refine ⟨iff_of_true rfl ?_, ?_⟩
      · have hle := hnonneg.worth_le hright.subperm
        have henough := Int64.le_iff_toInt_le.mp hright.enough
        rw [hright.value] at henough
        exact henough.trans hle
      · rintro _ ⟨⟩
        exact hright
    · rw [SelectsExactly, hnone]
      refine ⟨iff_of_false (by simp) ?_, by simp⟩
      rcases hwhy with hless | hgreatest
      · exact not_le.mpr hless
      · exact absurd hgreatest hunseen

def twoCoins : CWallet := CWallet.empty.addCoins 5 [⟨⟨3, []⟩, 0, 1⟩, ⟨⟨4, []⟩, 1, 1⟩]

/-- Both coins are needed for a value of 5. -/
theorem selectsExactly_twoCoins : twoCoins.SelectsExactly .plain 5 := by
  refine (selectsExactly_iff (by decide) (by decide) : _ ↔ _).mpr ?_
  rintro ⟨⟨coin, hcoin, hvalue⟩, -⟩
  have hsmall : ∀ coin ∈ twoCoins.availableCoins.values, coin.coin.nValue ≠ greatestValue := by decide
  exact hsmall coin hcoin hvalue

def greatestCoin : CWallet := CWallet.empty.addCoins 5 [⟨⟨greatestValue, []⟩, 0, 1⟩]

/-- The coin is not found for a value of one. -/
theorem not_selectsExactly_greatestCoin : ¬ greatestCoin.SelectsExactly .plain 1 := by
  rintro ⟨hfound, -⟩
  have hnone : (greatestCoin.selectCoins CWalletServices.plain.sort 1).isSome = false := by decide
  rw [hnone] at hfound
  exact absurd (hfound.mpr (by decide)) Bool.false_ne_true

end Selection

end Dims.CWallet
