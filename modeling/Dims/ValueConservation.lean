import Dims.DoubleSpend
import Mathlib.Algebra.BigOperators.Group.Finset.Sigma
import Mathlib.Data.BitVec
import Mathlib.Data.Fintype.EquivFin
import Mathlib.Data.Fintype.BigOperators

/-!
# Conservation of value

The total value of the unspent outputs is a sum over all outpoints. Validation
compares no output with an input, so a bundle keeps the total down exactly as
far as its transactions do.
-/

namespace Dims
open UnspentSet GuardedRun CTransactionRecordManager

noncomputable section

instance : Fintype Uint256 :=
  have : Finite Uint256 := Finite.of_equiv _ BitVec.equivFin.toEquiv.symm
  Fintype.ofFinite _

instance instFintypeUInt32 : Fintype UInt32 :=
  have : Finite (BitVec 32) := Finite.of_equiv _ BitVec.equivFin.toEquiv.symm
  have : Finite UInt32 := Finite.of_injective UInt32.toBitVec fun _ _ => UInt32.toBitVec_inj.mp
  Fintype.ofFinite _

theorem leftInverse_outPoint : Function.LeftInverse (fun p : Uint256 × UInt32 => COutPoint.mk p.1 p.2)
    fun o => (o.hash, o.n) := fun _ => rfl

def outPointEquiv : COutPoint ≃ Uint256 × UInt32 where
  toFun o := (o.hash, o.n)
  invFun p := ⟨p.1, p.2⟩
  left_inv := leftInverse_outPoint

instance : Fintype COutPoint := Fintype.ofEquiv _ outPointEquiv.symm

def amount (o : CTxOut) : ℤ := o.nValue.toInt

def totalValue (s : CTransactionRecordManager) : ℤ := total amount s.unspent

end

def CCoins.value (coins : CCoins) : ℤ :=
  (coins.vout.map fun o => if o.isNull then 0 else o.nValue.toInt).sum

/-- An amount that is not negative and is read back as it was written. -/
def SoundAmount (o : CTxOut) : Prop :=
  0 ≤ o.nValue.toInt ∧ CTxOut.storedAmount o.nValue = o.nValue

instance (o : CTxOut) : Decidable (SoundAmount o) := inferInstanceAs (Decidable (_ ∧ _))

def Sound (u : COutPoint → Option CTxOut) : Prop := ∀ o out, u o = some out → SoundAmount out

/-- Every output of the coins is null or has a sound amount. -/
def CCoins.Sound (coins : CCoins) : Prop := ∀ o ∈ coins.vout, o.isNull = false → SoundAmount o

instance (coins : CCoins) : Decidable coins.Sound := List.decidableBAll _ _

theorem CCoins.Sound.unspent {coins : CCoins} (h : coins.Sound) {n : ℕ} {out : CTxOut}
    (hout : coins.unspent n = some out) : SoundAmount out := by
  rcases unspent_eq_some.mp hout with ⟨hget, hnull⟩
  exact h out (List.mem_of_getElem? hget) hnull

theorem Sound.valueAt_nonneg {u : COutPoint → Option CTxOut} (h : Dims.Sound u) (o : COutPoint) :
    0 ≤ valueAt amount u o := by
  unfold valueAt
  cases hu : u o with
  | none => simp
  | some out => exact (h o out hu).1

theorem Sound.spendAll {u : COutPoint → Option CTxOut} (h : Dims.Sound u) (os : List COutPoint) :
    Dims.Sound (UnspentSet.spendAll u os) := by
  intro o out hout
  unfold UnspentSet.spendAll at hout
  split at hout
  · cases hout
  · exact h o out hout

theorem Sound.create {u : COutPoint → Option CTxOut} (h : Dims.Sound u) {coins : CCoins}
    (hcoins : coins.Sound) (hash : Uint256) : Dims.Sound (createUnspent u hash coins) := by
  intro o out hout
  unfold createUnspent at hout
  split at hout
  · exact hcoins.unspent hout
  · exact h o out hout

theorem Sound.flush {s : CTransactionRecordManager} (h : Dims.Sound s.unspent) :
    s.flush.unspent = s.unspent := by
  funext o
  rcases CCoinsViewCache.unspent_flush s.coinsViewCache o with heq | heq
  · exact heq
  · have hrewritten : s.flush.unspent o = (s.unspent o).bind CTxOut.rewritten := heq
    rw [hrewritten]
    cases hu : s.unspent o with
    | none => rfl
    | some out =>
      have hnull : out.isNull = false := by
        have hview : s.coinsViewCache.unspent o = some out := hu
        rcases Option.bind_eq_some_iff.mp hview with ⟨coins, -, hout⟩
        exact (CCoins.unspent_eq_some.mp hout).2
      simp [CTxOut.rewritten, CTxOut.stored, hnull, (h o out hu).2, CTxOut.ifUnspent]

theorem Sound.flushed {s : CTransactionRecordManager} (h : Dims.Sound s.unspent) :
    Dims.Sound s.flush.unspent := by
  rw [h.flush]
  exact h

private def valueAtPos (coins : CCoins) (i : ℕ) : ℤ := ((coins.unspent i).map amount).getD 0

private theorem valueAtPos_nonneg {coins : CCoins} (h : coins.Sound) (i : ℕ) :
    0 ≤ valueAtPos coins i := by
  unfold valueAtPos
  cases hu : coins.unspent i with
  | none => simp
  | some out => exact (h.unspent hu).1

private theorem sum_valueAtPos (vout : List CTxOut) :
    ∑ i ∈ Finset.range vout.length, valueAtPos ⟨vout⟩ i = CCoins.value ⟨vout⟩ := by
  induction vout with
  | nil => rfl
  | cons o vout ih =>
    have htail : ∀ i, valueAtPos ⟨o :: vout⟩ (i + 1) = valueAtPos ⟨vout⟩ i := by
      intro i
      simp [valueAtPos, CCoins.unspent]
    have hhead : valueAtPos ⟨o :: vout⟩ 0 = if o.isNull then 0 else o.nValue.toInt := by
      cases hnull : o.isNull <;>
        simp [valueAtPos, CCoins.unspent, CTxOut.ifUnspent, hnull, amount]
    rw [List.length_cons, Finset.sum_range_succ']
    simp only [htail, hhead, ih, CCoins.value, List.map_cons, List.sum_cons]
    ring

theorem sum_unspent_le {coins : CCoins} (h : coins.Sound) :
    ∑ n : UInt32, ((coins.unspent n.toNat).map amount).getD 0 ≤ coins.value := by
  have hinj : Set.InjOn UInt32.toNat (Finset.univ : Finset UInt32) :=
    fun a _ b _ hab => UInt32.toNat_inj.mp hab
  calc ∑ n : UInt32, valueAtPos coins n.toNat
      = ∑ i ∈ Finset.univ.image UInt32.toNat, valueAtPos coins i :=
        (Finset.sum_image hinj).symm
    _ = ∑ i ∈ (Finset.univ.image UInt32.toNat).filter (· < coins.vout.length),
          valueAtPos coins i := by
        symm
        apply Finset.sum_filter_of_ne
        intro i _ hne
        by_contra hlt
        apply hne
        simp [valueAtPos, CCoins.unspent, List.getElem?_eq_none (not_lt.mp hlt)]
    _ ≤ ∑ i ∈ Finset.range coins.vout.length, valueAtPos coins i := by
        apply Finset.sum_le_sum_of_subset_of_nonneg
        · intro i hi
          exact Finset.mem_range.mpr (Finset.mem_filter.mp hi).2
        · intro i _ _
          exact valueAtPos_nonneg h i
    _ = coins.value := sum_valueAtPos coins.vout

theorem total_create_le {u : COutPoint → Option CTxOut} (hu : Sound u) {coins : CCoins}
    (hcoins : coins.Sound) (hash : Uint256) :
    total amount (createUnspent u hash coins) ≤ total amount u + coins.value := by
  have hpoint : ∀ o, valueAt amount (createUnspent u hash coins) o ≤
      valueAt amount u o +
        if o.hash = hash then ((coins.unspent o.n.toNat).map amount).getD 0 else 0 := by
    intro o
    have hnonneg := hu.valueAt_nonneg o
    unfold valueAt createUnspent at *
    split
    · omega
    · omega
  have hunder : ∑ o : COutPoint, (if o.hash = hash then
      ((coins.unspent o.n.toNat).map amount).getD 0 else 0) =
        ∑ n : UInt32, ((coins.unspent n.toNat).map amount).getD 0 := by
    have hprod := Fintype.sum_equiv outPointEquiv (fun o : COutPoint => if o.hash = hash then
      ((coins.unspent o.n.toNat).map amount).getD 0 else 0) (fun p : Uint256 × UInt32 =>
      if p.1 = hash then ((coins.unspent p.2.toNat).map amount).getD 0 else 0) (fun o => rfl)
    rw [hprod, Fintype.sum_prod_type, Finset.sum_eq_single hash]
    · simp
    · intro h _ hne
      simp [hne]
    · intro hmem
      exact absurd (Finset.mem_univ hash) hmem
  calc total amount (createUnspent u hash coins)
      ≤ ∑ o, (valueAt amount u o +
          if o.hash = hash then ((coins.unspent o.n.toNat).map amount).getD 0 else 0) :=
        Finset.sum_le_sum fun o _ => hpoint o
    _ = total amount u + ∑ n : UInt32, ((coins.unspent n.toNat).map amount).getD 0 := by
        rw [Finset.sum_add_distrib, hunder, total]
    _ ≤ total amount u + coins.value := by
        have := sum_unspent_le hcoins
        omega

section Operations

variable (env : Environment)

private theorem total_createAll_le {txs : List CTransaction}
    (hcoins : ∀ tx ∈ txs, (CCoins.ofTransaction tx).Sound) {u : COutPoint → Option CTxOut}
    (hu : Sound u) :
    let u' := txs.foldl (fun u tx => createUnspent u (tx.getHash env.hashes)
      (CCoins.ofTransaction tx)) u
    Sound u' ∧
      total amount u' ≤ total amount u + (txs.map fun tx => (CCoins.ofTransaction tx).value).sum := by
  induction txs generalizing u with
  | nil => exact ⟨hu, by simp⟩
  | cons tx txs ih =>
    have htx := hcoins tx List.mem_cons_self
    have hstep := total_create_le hu htx (tx.getHash env.hashes)
    rcases ih (fun tx' h => hcoins tx' (List.mem_cons_of_mem _ h))
      (hu.create htx (tx.getHash env.hashes)) with ⟨hsound, hle⟩
    refine ⟨hsound, ?_⟩
    simp only [List.foldl_cons, List.map_cons, List.sum_cons]
    omega

theorem addRetrived_total {s : CTransactionRecordManager} (hs : Sound s.unspent)
    {txs : List CTransaction} (hcoins : ∀ tx ∈ txs, (CCoins.ofTransaction tx).Sound) :
    Sound (s.addRetrivedTransactionBundle env txs).2.unspent ∧
      totalValue (s.addRetrivedTransactionBundle env txs).2 ≤ totalValue s +
        ((s.createdTransactions env txs).map fun tx => (CCoins.ofTransaction tx).value).sum := by
  have hcreated := total_createAll_le env (fun tx htx =>
    hcoins tx ((createdTransactions_initial env s txs).subset htx)) hs
  rw [← unspent_createAllCoins] at hcreated
  unfold addRetrivedTransactionBundle
  dsimp only
  split
  · exact hcreated
  · unfold totalValue
    dsimp only at hcreated ⊢
    rw [Sound.flush hcreated.1]
    exact hcreated

/-- The bundles that keep the total down: distinct outpoints are spent, amounts
are sound, and no transaction creates more than its inputs hold. -/
structure Balanced (s : CTransactionRecordManager) (bundle : List CTransaction) : Prop where
  coinbase : ∀ tx ∈ s.keptTransactions env bundle, tx.isCoinBase = true →
    s.coinsViewCache.view 0 = none
  distinct : (spends (s.keptTransactions env bundle)).Nodup
  amounts : ∀ tx ∈ s.keptTransactions env bundle, (CCoins.ofTransaction tx).Sound
  balanced : ∀ tx ∈ s.keptTransactions env bundle, tx.isCoinBase = false →
    (CCoins.ofTransaction tx).value ≤ (tx.prevouts.map (valueAt amount s.unspent)).sum

private theorem sum_prevouts_nonneg {u : COutPoint → Option CTxOut} (hu : Sound u)
    (os : List COutPoint) : 0 ≤ (os.map (valueAt amount u)).sum := by
  apply List.sum_nonneg
  intro v hv
  rcases List.mem_map.mp hv with ⟨o, -, rfl⟩
  exact hu.valueAt_nonneg o

private theorem sum_value_le {u : COutPoint → Option CTxOut} (hu : Sound u)
    {part txs : List CTransaction} (hpart : part <+: txs)
    (hbalanced : ∀ tx ∈ txs,
      (CCoins.ofTransaction tx).value ≤ (tx.prevouts.map (valueAt amount u)).sum) :
    (part.map fun tx => (CCoins.ofTransaction tx).value).sum ≤
      ((txs.flatMap CTransaction.prevouts).map (valueAt amount u)).sum := by
  induction txs generalizing part with
  | nil =>
    rw [List.prefix_nil.mp hpart]
    simp
  | cons tx txs ih =>
    cases part with
    | nil => exact sum_prevouts_nonneg hu _
    | cons tx' part =>
      rcases List.cons_prefix_cons.mp hpart with ⟨rfl, htail⟩
      have hhead := hbalanced tx' List.mem_cons_self
      have hrest := ih htail fun tx h => hbalanced tx (List.mem_cons_of_mem _ h)
      simp only [List.map_cons, List.sum_cons, List.flatMap_cons, List.map_append,
        List.sum_append]
      omega

theorem addValidated_sound {s : CTransactionRecordManager} (hs : Sound s.unspent)
    {txs : List CTransaction} (hcoins : ∀ tx ∈ txs, (CCoins.ofTransaction tx).Sound) :
    Sound (s.addValidatedTransactionBundle env txs).2.unspent := by
  have hspent := unspent_spendInputs env s (txs.flatMap CTransaction.vin)
  have hsound : Sound (s.spendInputs env (txs.flatMap CTransaction.vin)).2.unspent := by
    rw [hspent]
    exact hs.spendAll _
  unfold addValidatedTransactionBundle
  dsimp only
  split
  · exact hsound
  · exact (addRetrived_total env hsound hcoins).1

theorem addValidated_total {s : CTransactionRecordManager} (hs : Sound s.unspent)
    {txs : List CTransaction}
    (hcoinbase : ∀ tx ∈ txs, tx.isCoinBase = true → s.coinsViewCache.view 0 = none)
    (hdistinct : (spends txs).Nodup) (hcoins : ∀ tx ∈ txs, (CCoins.ofTransaction tx).Sound)
    (hbalanced : ∀ tx ∈ txs, tx.isCoinBase = false →
      (CCoins.ofTransaction tx).value ≤ (tx.prevouts.map (valueAt amount s.unspent)).sum) :
    totalValue (s.addValidatedTransactionBundle env txs).2 ≤ totalValue s := by
  have hspent := unspent_spendInputs env s (txs.flatMap CTransaction.vin)
  have hnodup : (s.spentInputs env (txs.flatMap CTransaction.vin)).Nodup := by
    apply List.Sublist.nodup _ hdistinct
    apply History.spentInputs_sublist
    by_cases hall : ∀ tx ∈ txs, tx.isCoinBase = false
    · exact .inr hall
    · push Not at hall
      rcases hall with ⟨tx, htx, hcb⟩
      exact .inl (hcoinbase tx htx (by simpa using hcb))
  have htotal := total_spendAll amount s.unspent hnodup
  unfold addValidatedTransactionBundle
  rcases hloop : s.spendInputs env (txs.flatMap CTransaction.vin) with ⟨_ | result, s1⟩
  · rcases spendInputs_completes env hloop with ⟨hall, hfound⟩
    have hprevouts : s.spentInputs env (txs.flatMap CTransaction.vin) =
        txs.flatMap CTransaction.prevouts := by
      rw [hall, List.map_flatMap]
      rfl
    -- a coinbase transaction would have ended the loop
    have hordinary : ∀ tx ∈ txs, tx.isCoinBase = false := by
      intro tx htx
      by_contra hcb
      have hzero := hcoinbase tx htx (by simpa using hcb)
      rw [Bool.not_eq_false] at hcb
      unfold CTransaction.isCoinBase at hcb
      split at hcb
      case h_1 txIn hvin =>
        have hnull : txIn.prevout.hash = 0 := by
          simp only [COutPoint.isNull, decide_eq_true_eq] at hcb
          exact hcb.1
        have hsome := hfound txIn (List.mem_flatMap.mpr ⟨tx, htx, by simp [hvin]⟩)
        rw [hnull, hzero] at hsome
        cases hsome
      case h_2 => cases hcb
    rw [hloop] at hspent
    dsimp only at hspent ⊢
    have hs1 : Sound s1.unspent := by
      rw [hspent]
      exact hs.spendAll _
    have hle := (addRetrived_total env hs1 hcoins).2
    have hvalue := sum_value_le hs (createdTransactions_initial env s1 txs)
      fun tx htx => hbalanced tx htx (hordinary tx htx)
    have hs1total : totalValue s1 = totalValue s -
        ((txs.flatMap CTransaction.prevouts).map (valueAt amount s.unspent)).sum := by
      rw [totalValue, hspent, htotal, hprevouts]
      rfl
    omega
  · rw [hloop] at hspent
    dsimp only at hspent ⊢
    unfold totalValue
    rw [hspent, htotal]
    have := sum_prevouts_nonneg hs (s.spentInputs env (txs.flatMap CTransaction.vin))
    omega

theorem processBundle_sound {s : CTransactionRecordManager} (hs : Sound s.unspent)
    {bundle : List CTransaction}
    (hcoins : ∀ tx ∈ s.keptTransactions env bundle, (CCoins.ofTransaction tx).Sound) :
    Sound (s.processBundle env bundle).unspent := by
  have hsound : Sound (s.validated env bundle).unspent := by
    rw [unspent_validated]
    exact hs
  unfold processBundle
  split
  · exact hsound
  · exact addValidated_sound env hsound hcoins

/-- One balanced bundle does not raise the total. -/
theorem processBundle_total {s : CTransactionRecordManager} (hs : Sound s.unspent)
    {bundle : List CTransaction} (hb : Balanced env s bundle) :
    totalValue (s.processBundle env bundle) ≤ totalValue s := by
  have hunspent := unspent_validated env s bundle
  have htotal : totalValue (s.validated env bundle) = totalValue s := by
    unfold totalValue
    rw [hunspent]
  unfold processBundle
  split
  · exact htotal.le
  · rw [← htotal]
    apply addValidated_total env
    · rw [← hunspent] at hs
      exact hs
    · rw [view_validated]
      exact hb.coinbase
    · exact hb.distinct
    · exact hb.amounts
    · rw [hunspent]
      exact hb.balanced

theorem addCoinbase_total {s : CTransactionRecordManager} (hs : Sound s.unspent)
    {tx : CTransaction} (htx : (CCoins.ofTransaction tx).Sound) (keyId : CKeyID) :
    Sound (s.addCoinbaseTransaction env tx keyId).2.unspent ∧
      totalValue (s.addCoinbaseTransaction env tx keyId).2 ≤
        totalValue s + (CCoins.ofTransaction tx).value := by
  have hle := total_create_le hs htx (tx.getHash env.hashes)
  have hcreate : Sound (s.coinsViewCache.setCoins (tx.getHash env.hashes)
      (CCoins.ofTransaction tx)).unspent := by
    rw [unspent_setCoins]
    exact hs.create htx _
  rw [show createUnspent s.unspent (tx.getHash env.hashes) (CCoins.ofTransaction tx) = _ from
    (unspent_setCoins _ _ _).symm] at hle
  unfold addCoinbaseTransaction
  dsimp only
  split
  · exact ⟨hcreate, hle⟩
  · refine ⟨Sound.flushed hcreate, ?_⟩
    unfold totalValue
    dsimp only
    rw [Sound.flush]
    · exact hle
    · exact hcreate

/-- The operations whose amounts are sound and whose bundles are balanced. -/
def Conserving (s : CTransactionRecordManager) : LedgerOp → Prop
  | .coinbase tx _ => (CCoins.ofTransaction tx).Sound
  | .bundle txs => Balanced env s txs
  | .retrieved txs => ∀ tx ∈ txs, (CCoins.ofTransaction tx).Sound

theorem applyOp_sound {s : CTransactionRecordManager} {op : LedgerOp} (hs : Sound s.unspent)
    (hop : Conserving env s op) : Sound (s.applyOp env op).unspent := by
  cases op with
  | coinbase tx keyId => exact (addCoinbase_total env hs hop keyId).1
  | bundle txs => exact processBundle_sound env hs hop.amounts
  | retrieved txs => exact (addRetrived_total env hs hop).1

theorem sound_empty : Sound CTransactionRecordManager.empty.unspent := by
  intro o out hout
  cases hout

/-- Value conservation: along a run from the empty ledger whose operations are
conserving, no bundle raises the total. -/
theorem value_conserved (ops : List LedgerOp)
    (hrun : Guarded (applyOp env) (Conserving env) .empty ops) :
    ∀ before bundle, before ++ [.bundle bundle] <+: ops →
      totalValue (run (applyOp env) .empty (before ++ [.bundle bundle])) ≤
        totalValue (run (applyOp env) .empty before) := by
  rintro before bundle ⟨after, rfl⟩
  have hbefore := ((guarded_append _ _).mp hrun).1
  have hstep : ∀ (s : CTransactionRecordManager) op, Sound s.unspent → Conserving env s op →
      Sound (s.applyOp env op).unspent := fun s op hs hop => applyOp_sound env hs hop
  rcases hbefore.last hstep sound_empty with ⟨hsound, hok⟩
  rw [run_append]
  exact processBundle_total env hsound hok

end Operations

namespace OneCoin

def mint : CTransaction := ⟨1, [⟨.null, [0x51], 0xffffffff⟩], [⟨5, []⟩], 0, 0⟩

def spendMint (nValue : Int64) : CTransaction :=
  ⟨2, [⟨⟨mint.getHash env.hashes, 0⟩, [0x51], 0xffffffff⟩], [⟨nValue, []⟩], 0, 0⟩

/-- A mint, then a bundle that passes its value on. -/
theorem value_conserved_after_mint :
    let ops := [LedgerOp.coinbase mint 9, .bundle [spendMint 5]]
    ∀ before bundle, before ++ [.bundle bundle] <+: ops →
      totalValue (run (applyOp env) .empty (before ++ [.bundle bundle])) ≤
        totalValue (run (applyOp env) .empty before) := by
  apply value_conserved
  refine ⟨?_, ?_, trivial⟩
  · show (CCoins.ofTransaction mint).Sound
    decide
  · exact ⟨by decide, by decide, by decide, by decide⟩

set_option maxRecDepth 10000 in
/-- A bundle that spends an output of value 5 and creates one of value 50 is kept
and raises the total. -/
theorem total_raised_by_bundle :
    let minted := applyOp env .empty (.coinbase mint 9)
    minted.keptTransactions env [spendMint 50] = [spendMint 50] ∧
      totalValue minted < totalValue (minted.processBundle env [spendMint 50]) := by
  intro minted
  have hmint : (CCoins.ofTransaction mint).Sound := by decide
  rcases addCoinbase_total env sound_empty hmint 9 with ⟨hsound, hle⟩
  have hbefore : totalValue minted ≤ 5 := by
    have hempty : totalValue .empty = 0 := Finset.sum_eq_zero fun o _ => rfl
    have hvalue : (CCoins.ofTransaction mint).value = 5 := by decide
    rw [hempty, hvalue] at hle
    exact hle
  have hafter : Sound (minted.processBundle env [spendMint 50]).unspent :=
    processBundle_sound env hsound (by decide)
  have hcreated : valueAt amount (minted.processBundle env [spendMint 50]).unspent
      ⟨(spendMint 50).getHash env.hashes, 0⟩ = 50 := by decide
  have hsingle := Finset.single_le_sum (fun o _ => hafter.valueAt_nonneg o)
    (Finset.mem_univ (⟨(spendMint 50).getHash env.hashes, 0⟩ : COutPoint))
  refine ⟨by decide, ?_⟩
  calc totalValue minted ≤ 5 := hbefore
    _ < 50 := by decide
    _ ≤ totalValue (minted.processBundle env [spendMint 50]) := by
        rw [← hcreated]
        exact hsingle

end OneCoin

end Dims
