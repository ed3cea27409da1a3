import Dims.Wallet
import Dims.GuardedRun
import Mathlib.Data.List.Sort

/-!
# Transactions that wait for their admission

The coins that a transaction spends stay available until it is admitted, and the answers of
trackers put them back. The transactions that have been created and wait are kept beside the
wallet, each with the coins that its caller has given.
-/

namespace Dims

namespace CTransaction

def spent (tx : CTransaction) : List COutPoint := tx.vin.map (·.prevout)

end CTransaction

namespace CWalletServices

/-- Greatest values first; every signature is one byte. -/
def plain : CWalletServices where
  sort := List.insertionSort fun a b => b.coin.nValue ≤ a.coin.nValue
  sort_perm coins := List.perm_insertionSort _ coins
  sort_sorted coins := by
    have htotal : Std.Total fun a b : CAvailableCoin => b.coin.nValue ≤ a.coin.nValue :=
      ⟨fun a b => Int64.le_total b.coin.nValue a.coin.nValue⟩
    have htrans : IsTrans CAvailableCoin fun a b => b.coin.nValue ≤ a.coin.nValue :=
      ⟨fun a b c hab hbc => Int64.le_trans hbc hab⟩
    exact List.pairwise_insertionSort _ coins
  getRandInt _ := 0
  getRandInt_lt _ h := h
  signSignature _ _ _ := some [1]

end CWalletServices

structure PendingWallet where
  wallet : CWallet
  waiting : List (CTransaction × List CAvailableCoin)

namespace PendingWallet

variable (H : HashFunctions)

inductive Call
  | createTransaction (S : CWalletServices) (outputs : List (CKeyID × Int64))
      (coinsToUse : List CAvailableCoin) (trackerKey : CPubKey) (price : UInt32)
  | addmitNewTransaction (initialHash : Uint256) (addmitedTransaction : CTransaction)
  | replaceAvailableCoins (keyId : CKeyID) (coins : List CAvailableCoin)
  | addAvailableCoins (keyId : CKeyID) (coins : List CAvailableCoin)

/-- A creation that fails, or an admission that aborts the program, leaves everything as it is. -/
def step (s : PendingWallet) : Call → PendingWallet
  | .createTransaction S outputs coinsToUse trackerKey price =>
    match s.wallet.createTransaction S H outputs coinsToUse trackerKey price with
    | none => s
    | some (tx, wallet) => ⟨wallet, s.waiting ++ [(tx, coinsToUse)]⟩
  | .addmitNewTransaction initialHash addmitedTransaction =>
    match s.wallet.addmitNewTransaction H initialHash addmitedTransaction with
    | none => s
    | some wallet => ⟨wallet, s.waiting.filter fun p => p.1.getHash H ≠ initialHash⟩
  | .replaceAvailableCoins keyId coins => { s with wallet := s.wallet.replaceCoins keyId coins }
  | .addAvailableCoins keyId coins => { s with wallet := s.wallet.addCoins keyId coins }

/-- Of the transactions that wait, the later ones share with the earlier ones only inputs that
their callers have given. -/
def Separate (s : PendingWallet) : Prop :=
  s.waiting.Pairwise fun earlier later => ∀ o ∈ later.1.spent, o ∈ earlier.1.spent →
    o ∈ later.2.map CAvailableCoin.outPoint

/-- When a transaction is to be created, no coin is available that a waiting transaction spends,
apart from those that are given. -/
def Clear (s : PendingWallet) : Call → Prop
  | .createTransaction _ _ coinsToUse _ _ =>
    ∀ coin ∈ s.wallet.availableCoins.values, ∀ p ∈ s.waiting,
      coin.outPoint ∈ p.1.spent → coin.outPoint ∈ coinsToUse.map CAvailableCoin.outPoint
  | _ => True

instance (s : PendingWallet) : Decidable s.Separate :=
  have : DecidableRel fun earlier later : CTransaction × List CAvailableCoin =>
      ∀ o ∈ later.1.spent, o ∈ earlier.1.spent → o ∈ later.2.map CAvailableCoin.outPoint :=
    fun _ _ => List.decidableBAll _ _
  List.instDecidablePairwise _

instance (s : PendingWallet) : ∀ call : Call, Decidable (s.Clear call)
  | .createTransaction .. => inferInstanceAs (Decidable (∀ coin ∈ s.wallet.availableCoins.values, _))
  | .addmitNewTransaction .. => inferInstanceAs (Decidable True)
  | .replaceAvailableCoins .. => inferInstanceAs (Decidable True)
  | .addAvailableCoins .. => inferInstanceAs (Decidable True)

section Steps

variable {H} {s : PendingWallet}

theorem mem_spent_createTransaction {w w' : CWallet} {S : CWalletServices}
    {outputs : List (CKeyID × Int64)} {coinsToUse : List CAvailableCoin} {trackerKey : CPubKey}
    {price : UInt32} {tx : CTransaction}
    (hcreate : w.createTransaction S H outputs coinsToUse trackerKey price = some (tx, w'))
    {o : COutPoint} (ho : o ∈ tx.spent) :
    (∃ coin ∈ w.availableCoins.values, coin.outPoint = o) ∨
      o ∈ coinsToUse.map CAvailableCoin.outPoint := by
  obtain ⟨setCoins, nValueIn, toRemove, toAdd, hselected, -, -, hspent, -⟩ :=
    CWallet.createTransaction_spec hcreate
  rw [CTransaction.spent, hspent, List.map_append, List.mem_append] at ho
  rcases ho with hselection | hgiven
  · obtain ⟨coin, hcoin, rfl⟩ := List.mem_map.mp hselection
    exact .inl ⟨coin, CWallet.selectCoins_subset S hselected hcoin, rfl⟩
  · exact .inr (List.map_subset _ (CWallet.requestCoins_subset _ coinsToUse) hgiven)

theorem separate_step (hs : s.Separate) (call : Call) (hclear : s.Clear call) :
    (s.step H call).Separate := by
  cases call with
  | createTransaction S outputs coinsToUse trackerKey price =>
    simp only [step]
    split
    case h_1 => exact hs
    case h_2 tx wallet hcreate =>
      refine List.pairwise_append.mpr ⟨hs, List.pairwise_singleton _ _, ?_⟩
      intro earlier hearlier later hlater o ho hshared
      obtain rfl := List.mem_singleton.mp hlater
      rcases mem_spent_createTransaction hcreate ho with ⟨coin, hcoin, rfl⟩ | hgiven
      · exact hclear coin hcoin earlier hearlier hshared
      · exact hgiven
  | addmitNewTransaction initialHash addmitedTransaction =>
    simp only [step]
    split
    · exact hs
    · exact List.Pairwise.filter _ hs
  | replaceAvailableCoins keyId coins => exact hs
  | addAvailableCoins keyId coins => exact hs

/-- Where no coin is available that a waiting transaction spends, unless it is given, whenever
`CreateTransaction` is called, the waiting transactions never conflict. -/
theorem separate_of_clear (H : HashFunctions) (wallet : CWallet) (calls : List Call)
    (hclear : GuardedRun.Guarded (step H) Clear ⟨wallet, []⟩ calls) :
    ∀ past, past <+: calls → (GuardedRun.run (step H) ⟨wallet, []⟩ past).Separate := by
  rintro past ⟨later, rfl⟩
  obtain ⟨hpast, -⟩ := (GuardedRun.guarded_append (step H) Clear).mp hclear
  exact hpast.invariant (fun s call hs hok => separate_step hs call hok) List.Pairwise.nil

end Steps

namespace OneCoin

def hashes : HashFunctions := ⟨fun bytes => BitVec.ofNat 256 (bytes.map UInt8.toNat).sum, fun _ => 9⟩

def trackerKey : CPubKey := .ofBytes (2 :: List.replicate 32 1)

def wallet : CWallet := CWallet.empty.addCoins 5 [⟨⟨10, .setDestination 5⟩, 0, 1⟩]

def create (keyId : CKeyID) : Call := .createTransaction .plain [(keyId, 4)] [] trackerKey 0

def transaction : CTransaction :=
  ⟨1, [⟨⟨1, 0⟩, [1], 0xffffffff⟩],
    [⟨6, .setDestination 5⟩, ⟨4, .setDestination 6⟩, ⟨0, .setDestination 9⟩], 0, 0⟩

/-- The second transaction is created after the admission of the first one. -/
def calls : List Call :=
  [create 6, .addmitNewTransaction (transaction.getHash hashes) transaction, create 7]

theorem separate_calls : (GuardedRun.run (step hashes) ⟨wallet, []⟩ calls).Separate :=
  separate_of_clear hashes wallet calls
    ⟨by decide +kernel, by decide +kernel, by decide +kernel, trivial⟩ calls (List.prefix_refl calls)

/-- Without the admission both spend the one coin. -/
theorem same_coin : ¬∀ (H : HashFunctions) (wallet : CWallet) (calls : List Call),
    (GuardedRun.run (step H) ⟨wallet, []⟩ calls).Separate := by
  intro h
  have hshared : ¬(GuardedRun.run (step hashes) ⟨wallet, []⟩ [create 6, create 7]).Separate := by
    decide +kernel
  exact hshared (h hashes wallet [create 6, create 7])

end OneCoin

end PendingWallet

end Dims
