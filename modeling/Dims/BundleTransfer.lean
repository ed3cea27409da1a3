import Dims.AddressIndexMirror
import Dims.Replicas

/-!
# A bundle as a transfer

What a bundle takes out of the coins view and what it writes there. A bundle whose inputs are
unspent, and whose scripts the application can read, is applied to its end and does to the
unspent outputs what its transfer says.
-/

namespace Dims

/-- The outputs that the bundle spends, and what is found under the hashes of its transactions
after it. -/
def bundleTransfer (H : HashFunctions) (txs : List CTransaction) : Transfer COutPoint CTxOut where
  spent := txs.flatMap CTransaction.prevouts
  written o := (createdView H txs (fun _ => none) o.hash).map fun coins => coins.unspent o.n.toNat

/-- Every unspent output is read back from the database as it was written. -/
def StableUnspent (unspent : COutPoint → Option CTxOut) : Prop :=
  ∀ o out, unspent o = some out → out.stored = out

/-- The application reads the bundle to its end, and the database reads the new outputs back as
they were written. -/
structure Applicable (H : HashFunctions) (txs : List CTransaction) : Prop where
  presents : ∀ tx ∈ txs, ∀ txIn ∈ tx.vin, (findKeyPush txIn.scriptSig).isSome = true
  creatable : ∀ tx ∈ txs, Creatable H tx
  stable : ∀ tx ∈ txs, ∀ out ∈ (CCoins.ofTransaction tx).vout, out.isNull = false →
    out.stored = out

section Views

variable {s : CCoinsViewCache}

theorem createdView_eq_or (H : HashFunctions) (txs : List CTransaction)
    (view : Uint256 → Option CCoins) (hash : Uint256) :
    createdView H txs view hash = (createdView H txs (fun _ => none) hash).or (view hash) := by
  induction txs using List.reverseRecOn with
  | nil => rfl
  | append_singleton txs tx ih =>
    have hlast : ∀ v : Uint256 → Option CCoins, createdView H (txs ++ [tx]) v =
        Function.update (createdView H txs v) (tx.getHash H) (some (CCoins.ofTransaction tx)) :=
      fun v => List.foldl_append
    rw [hlast, hlast]
    by_cases hhash : hash = tx.getHash H
    · rw [hhash, Function.update_self, Function.update_self, Option.some_or]
    · rw [Function.update_of_ne hhash, Function.update_of_ne hhash, ih]

theorem CCoins.unspent_leave (coins : CCoins) (o : COutPoint) (named : List COutPoint) :
    (coins.leave o.hash named).unspent o.n.toNat =
      if o ∈ named then none else coins.unspent o.n.toNat := by
  have hnamed : (∃ p ∈ named, p.hash = o.hash ∧ p.n.toNat = o.n.toNat) ↔ o ∈ named := by
    constructor
    · rintro ⟨⟨hash, n⟩, hp, hhash, hn⟩
      cases o
      cases hhash
      cases UInt32.toNat_inj.mp hn
      exact hp
    · intro ho
      exact ⟨o, ho, rfl, rfl⟩
  rw [CCoins.unspent, CCoins.getElem?_leave, CCoins.unspent]
  simp only [hnamed]
  cases coins.vout[o.n.toNat]? with
  | none => exact (ite_self none).symm
  | some out =>
    split
    · rfl
    · rfl

/-- A flush changes no unspent output that is read back as it was written. -/
theorem unspent_flush_of_stable (h : StableUnspent s.unspent) : s.flush.unspent = s.unspent := by
  funext o
  rcases s.unspent_flush o with hsame | hrewritten
  · exact hsame
  · rw [hrewritten]
    cases hunspent : s.unspent o with
    | none => rfl
    | some out =>
      obtain ⟨coins, -, hcoins⟩ := Option.bind_eq_some_iff.mp hunspent
      rw [Option.bind_some, CTxOut.rewritten, h o out hunspent]
      exact CTxOut.ifUnspent_eq_some.mpr ⟨rfl, (CCoins.unspent_eq_some.mp hcoins).2⟩

end Views

section Application
open CTransactionRecordManager

variable {env : Environment} {s : CTransactionRecordManager} {txs : List CTransaction}
  {gone : List COutPoint}

theorem accepted_of_available (happlicable : Applicable env.hashes txs)
    (havailable : ∀ o ∈ (bundleTransfer env.hashes txs).spent,
      (s.coinsViewCache.unspent o).isSome = true) :
    ∀ txIn ∈ txs.flatMap CTransaction.vin, Accepted s.coinsViewCache.view txIn := by
  intro txIn htxIn
  obtain ⟨tx, htx, hvin⟩ := List.mem_flatMap.mp htxIn
  have hspent : txIn.prevout ∈ txs.flatMap CTransaction.prevouts :=
    List.mem_flatMap.mpr ⟨tx, htx, List.mem_map_of_mem hvin⟩
  obtain ⟨out, hout⟩ := Option.isSome_iff_exists.mp (havailable _ hspent)
  obtain ⟨coins, hcoins, hunspent⟩ := Option.bind_eq_some_iff.mp hout
  obtain ⟨hget, -⟩ := CCoins.unspent_eq_some.mp hunspent
  exact ⟨coins, hcoins, happlicable.presents tx htx txIn hvin, (List.getElem?_eq_some_iff.mp hget).1⟩

theorem stableUnspent_apply {unspent : COutPoint → Option CTxOut} (h : StableUnspent unspent)
    (happlicable : Applicable env.hashes txs) :
    StableUnspent ((bundleTransfer env.hashes txs).apply unspent) := by
  intro o out hout
  rw [Transfer.apply, bundleTransfer] at hout
  dsimp only at hout
  rcases createdView_cases env.hashes txs (fun _ => none) o.hash with
    ⟨tx, htx, -, hcoins⟩ | ⟨-, hnone⟩
  · rw [hcoins, Option.map_some, Option.getD_some] at hout
    obtain ⟨hget, hnull⟩ := CCoins.unspent_eq_some.mp hout
    exact happlicable.stable tx htx out (List.mem_of_getElem? hget) hnull
  · rw [hnone, Option.map_none, Option.getD_none] at hout
    split at hout
    · cases hout
    · exact h o out hout

/-- A bundle that fits is applied, and the outputs that are unspent then are those of its
transfer. -/
theorem addValidated_of_fits (hstable : StableUnspent s.coinsViewCache.unspent)
    (happlicable : Applicable env.hashes txs)
    (hfits : (bundleTransfer env.hashes txs).Fits s.coinsViewCache.unspent gone) :
    ∃ s', s.addValidatedTransactionBundle env txs = (.returned true, s') ∧
      s'.coinsViewCache.unspent =
        (bundleTransfer env.hashes txs).apply s.coinsViewCache.unspent := by
  obtain ⟨s1, hspend, hview1, -⟩ := spendInputs_of_accepted env [] (txs.flatMap CTransaction.vin)
    (accepted_of_available happlicable hfits.available) (leftView_nil _).symm
  obtain ⟨s2, hcreate, hview2, -⟩ := createAllCoins_of_creatable env txs happlicable.creatable s1
  have hnamed : ((txs.flatMap CTransaction.vin).map CTxIn.prevout).reverse ++ [] =
      (txs.flatMap CTransaction.prevouts).reverse := by
    rw [List.append_nil, List.map_flatMap]
    rfl
  rw [hnamed, leftView_reverse] at hview1
  rw [hview1] at hview2
  have hunspent : s2.coinsViewCache.unspent =
      (bundleTransfer env.hashes txs).apply s.coinsViewCache.unspent := by
    funext o
    rw [CCoinsViewCache.unspent, hview2, createdView_eq_or, Transfer.apply, bundleTransfer]
    dsimp only
    cases createdView env.hashes txs (fun _ => none) o.hash with
    | some coins => rfl
    | none =>
      rw [Option.none_or, Option.map_none, Option.getD_none, leftView, CCoinsViewCache.unspent]
      cases s.coinsViewCache.view o.hash with
      | none => exact (ite_self none).symm
      | some coins => exact coins.unspent_leave o _
  refine ⟨s2.flush, ?_, ?_⟩
  · rw [addValidatedTransactionBundle, hspend]
    dsimp only
    rw [addRetrivedTransactionBundle, hcreate]
  · have hstable2 : StableUnspent s2.coinsViewCache.unspent := by
      rw [hunspent]
      exact stableUnspent_apply hstable happlicable
    exact (unspent_flush_of_stable hstable2).trans hunspent

end Application

end Dims
