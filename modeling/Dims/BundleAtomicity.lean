import Dims.Payments
import Dims.DoubleSpend

/-!
# Applying a bundle is not atomic

An application that fails keeps what its loops have done. It leaves no trace
exactly when every step that it took was void: the outputs it spent were null
already, the entries it erased were not there, the coins it set were there, and
the records it looked up are written back as they were.
-/

namespace Dims
open CTransactionRecordManager

section Overwrites

universe u v w

variable {ι : Type u} {κ : Type v} {α : Type w} [DecidableEq κ]

def lastWrite (place : ι → κ) (writes : List ι) (k : κ) : Option ι :=
  writes.reverse.find? fun i => place i = k

theorem foldl_update_apply (place : ι → κ) (value : ι → α) (writes : List ι) (m : κ → α) (k : κ) :
    writes.foldl (fun m i => Function.update m (place i) (value i)) m k =
      ((lastWrite place writes k).map value).getD (m k) := by
  induction writes using List.reverseRecOn with
  | nil => rfl
  | append_singleton writes i ih =>
    rw [List.foldl_append, List.foldl_cons, List.foldl_nil, lastWrite, List.reverse_append,
      List.reverse_singleton, List.singleton_append, List.find?_cons]
    by_cases hk : place i = k
    · simp [hk]
    · rw [Function.update_of_ne (Ne.symm hk), ih]
      simp [hk, lastWrite]

theorem lastWrite_eq_none {place : ι → κ} {writes : List ι} {k : κ} :
    lastWrite place writes k = none ↔ k ∉ writes.map place := by
  rw [lastWrite, List.find?_eq_none, List.mem_map]
  simp

/-- A loop of writes changes nothing exactly when every last write does not. -/
theorem foldl_update_eq_self_iff (place : ι → κ) (value : ι → α) (writes : List ι) (m : κ → α) :
    writes.foldl (fun m i => Function.update m (place i) (value i)) m = m ↔
      ∀ k, ∀ i ∈ lastWrite place writes k, value i = m k := by
  constructor
  · intro heq k i hi
    have happly := congrFun heq k
    rw [foldl_update_apply, Option.mem_def.mp hi] at happly
    exact happly
  · intro hvoid
    funext k
    rw [foldl_update_apply]
    cases hlast : lastWrite place writes k with
    | none => rfl
    | some i => exact hvoid k i hlast

end Overwrites

/-- The ledgers look the same, now and after a flush. -/
structure SameLedger (s s' : CTransactionRecordManager) : Prop where
  view : s'.coinsViewCache.view = s.coinsViewCache.view
  flushed : s'.coinsViewCache.flush.view = s.coinsViewCache.flush.view
  index : s'.addressToCoinsViewCache = s.addressToCoinsViewCache

section Coins

/-- Writing the record back changes nothing that a flush would not change anyway. -/
def Settled (v : CCoinsViewCache) (hash : Uint256) : Prop :=
  v.flush.view hash = (v.view hash).bind CCoins.stored

instance (v : CCoinsViewCache) (hash : Uint256) : Decidable (Settled v hash) :=
  inferInstanceAs (Decidable (v.flush.view hash = (v.view hash).bind CCoins.stored))

theorem flush_view_of_cached {v : CCoinsViewCache} {hash : Uint256}
    (h : (v.cacheCoins hash).isSome = true) :
    v.flush.view hash = (v.view hash).bind CCoins.stored := by
  rcases Option.isSome_iff_exists.mp h with ⟨coins, hcoins⟩
  rw [CCoinsViewCache.view_flush, hcoins]
  simp [CCoinsViewCache.view, hcoins]

theorem flush_view_of_not_cached {v : CCoinsViewCache} {hash : Uint256}
    (h : v.cacheCoins hash = none) : v.flush.view hash = v.base hash := by
  rw [CCoinsViewCache.view_flush, h]
  simp [CCoinsViewCache.view, h]

/-- The database is the same, and the records under the hashes are cached besides. -/
structure Touched (v w : CCoinsViewCache) (hashes : List Uint256) : Prop where
  base : w.base = v.base
  cached : ∀ hash, (w.cacheCoins hash).isSome = true ↔
    (v.cacheCoins hash).isSome = true ∨ hash ∈ hashes

variable {v w x : CCoinsViewCache} {hashes hashes' : List Uint256}

theorem Touched.refl (v : CCoinsViewCache) : Touched v v [] := ⟨rfl, by simp⟩

theorem Touched.trans (h : Touched v w hashes) (h' : Touched w x hashes') :
    Touched v x (hashes ++ hashes') where
  base := h'.base.trans h.base
  cached hash := by rw [h'.cached, h.cached, List.mem_append, or_assoc]

theorem Touched.setCoins (h : Touched v w hashes) (txid : Uint256) (coins : CCoins) :
    Touched v (w.setCoins txid coins) (hashes ++ [txid]) := by
  apply h.trans
  refine ⟨rfl, ?_⟩
  intro hash
  by_cases hhash : hash = txid
  · simp [CCoinsViewCache.setCoins, hhash]
  · simp [CCoinsViewCache.setCoins, hhash]

theorem touched_getCoins (v : CCoinsViewCache) (txid : Uint256) :
    Touched v (v.getCoins txid).2 (if (v.view txid).isSome then [txid] else []) := by
  unfold CCoinsViewCache.getCoins CCoinsViewCache.view
  cases hcache : v.cacheCoins txid with
  | some coins =>
    refine ⟨rfl, ?_⟩
    intro hash
    simp only [Option.some_or, Option.isSome_some, if_true, List.mem_singleton]
    constructor
    · exact .inl
    · rintro (h | rfl)
      · exact h
      · rw [hcache]
        rfl
  | none =>
    cases hbase : v.base txid with
    | some coins => exact (Touched.refl v).setCoins txid coins
    | none => exact Touched.refl v

/-- Both the view and the flushed view are the same exactly when the view is and
the touched records are settled. -/
theorem Touched.same_iff (h : Touched v w hashes) :
    w.view = v.view ∧ w.flush.view = v.flush.view ↔
      w.view = v.view ∧ ∀ hash ∈ hashes, Settled v hash := by
  constructor
  · rintro ⟨hview, hflush⟩
    refine ⟨hview, ?_⟩
    intro hash hmem
    rw [Settled, ← hflush, flush_view_of_cached ((h.cached hash).mpr (.inr hmem)), hview]
  · rintro ⟨hview, hsettled⟩
    refine ⟨hview, ?_⟩
    funext hash
    cases hcached : w.cacheCoins hash with
    | some coins =>
      have hsome : (w.cacheCoins hash).isSome = true := by rw [hcached]; rfl
      rw [flush_view_of_cached hsome, hview]
      rcases (h.cached hash).mp hsome with hold | hmem
      · exact (flush_view_of_cached hold).symm
      · exact (hsettled hash hmem).symm
    | none =>
      have hnone : v.cacheCoins hash = none := by
        by_contra hne
        have hsome := (h.cached hash).mpr (.inl (Option.isSome_iff_ne_none.mpr hne))
        rw [hcached] at hsome
        cases hsome
      rw [flush_view_of_not_cached hcached, flush_view_of_not_cached hnone, h.base]

theorem settled_of_view_none {hash : Uint256} (h : v.view hash = none) : Settled v hash := by
  rcases Option.or_eq_none_iff.mp h with ⟨hcache, hbase⟩
  rw [Settled, flush_view_of_not_cached hcache, hbase, h]
  rfl

/-- What a later user of the view can do. -/
inductive ViewOp
  | lookup (txid : Uint256)
  | set (txid : Uint256) (coins : CCoins)
  | flush

def ViewOp.apply (v : CCoinsViewCache) : ViewOp → CCoinsViewCache
  | lookup txid => (v.getCoins txid).2
  | set txid coins => v.setCoins txid coins
  | flush => v.flush

theorem flush_view_setCoins (v : CCoinsViewCache) (txid : Uint256) (coins : CCoins) :
    (v.setCoins txid coins).flush.view = Function.update v.flush.view txid coins.stored := by
  funext hash
  by_cases hhash : hash = txid
  · simp [CCoinsViewCache.setCoins, CCoinsViewCache.flush, CCoinsViewCache.view, hhash]
  · simp [CCoinsViewCache.setCoins, CCoinsViewCache.flush, CCoinsViewCache.view, hhash]

theorem flush_view_getCoins (v : CCoinsViewCache) (txid : Uint256) :
    (v.getCoins txid).2.flush.view =
      Function.update v.flush.view txid ((v.view txid).bind CCoins.stored) := by
  unfold CCoinsViewCache.getCoins
  cases hcache : v.cacheCoins txid with
  | some coins =>
    have hcached : (v.cacheCoins txid).isSome = true := by rw [hcache]; rfl
    have hsettled := flush_view_of_cached hcached
    rw [← hsettled, Function.update_eq_self]
  | none =>
    cases hbase : v.base txid with
    | some coins =>
      have hview : v.view txid = some coins := by simp [CCoinsViewCache.view, hcache, hbase]
      rw [hview]
      exact flush_view_setCoins v txid coins
    | none =>
      have hsettled : Settled v txid :=
        settled_of_view_none (by simp [CCoinsViewCache.view, hcache, hbase])
      rw [← hsettled, Function.update_eq_self]

/-- Views that look the same now and after a flush look the same whatever is done
with them. -/
theorem same_run (ops : List ViewOp) (hview : w.view = v.view)
    (hflushed : w.flush.view = v.flush.view) :
    (ops.foldl ViewOp.apply w).view = (ops.foldl ViewOp.apply v).view := by
  induction ops generalizing v w with
  | nil => exact hview
  | cons op ops ih =>
    cases op with
    | lookup txid =>
      apply ih
      · rw [ViewOp.apply, ViewOp.apply, CCoinsViewCache.view_getCoins,
          CCoinsViewCache.view_getCoins, hview]
      · rw [ViewOp.apply, ViewOp.apply, flush_view_getCoins, flush_view_getCoins, hview, hflushed]
    | set txid coins =>
      apply ih
      · rw [ViewOp.apply, ViewOp.apply, CCoinsViewCache.view_setCoins,
          CCoinsViewCache.view_setCoins, hview]
      · rw [ViewOp.apply, ViewOp.apply, flush_view_setCoins, flush_view_setCoins, hflushed]
    | flush =>
      apply ih
      · exact hflushed
      · exact hflushed

end Coins

section Index

/-- The index has no entry for the key and the hash. -/
def CAddressToCoinsViewCache.Absent (index : CAddressToCoinsViewCache)
    (p : CKeyID × Uint256) : Prop :=
  p.2 ∉ index.cacheCoins p.1 ∧ index.addressToCoins.findSlot p.1 p.2 = none

/-- What is left of an index after erasures. -/
structure CAddressToCoinsViewCache.Below (i j : CAddressToCoinsViewCache) : Prop where
  cached : ∀ keyId, (i.cacheCoins keyId).Sublist (j.cacheCoins keyId)
  coins : ∀ bucket keyId n c, i.addressToCoins.coins bucket keyId n = some c →
    j.addressToCoins.coins bucket keyId n = some c

open CAddressToCoinsViewCache

variable {index : CAddressToCoinsViewCache}

theorem below_eraseCoins (index : CAddressToCoinsViewCache) (keyId : CKeyID) (coin : Uint256) :
    (index.eraseCoins keyId coin).Below index := by
  constructor
  · intro k
    by_cases hk : k = keyId
    · subst hk
      simpa [eraseCoins] using List.erase_sublist
    · simp [eraseCoins, hk]
  · intro bucket k n c hc
    simp only [eraseCoins, CAddressToCoins.eraseCoin] at hc
    split at hc
    · exact hc
    · dsimp only at hc
      split at hc
      · cases hc
      · exact hc

theorem CAddressToCoinsViewCache.Below.trans {i j k : CAddressToCoinsViewCache} (h : i.Below j)
    (h' : j.Below k) : i.Below k :=
  ⟨fun keyId => (h.cached keyId).trans (h'.cached keyId),
    fun b keyId n c hc => h'.coins b keyId n c (h.coins b keyId n c hc)⟩

theorem below_eraseAll (index : CAddressToCoinsViewCache) (entries : List (CKeyID × Uint256)) :
    (index.eraseAll entries).Below index := by
  induction entries generalizing index with
  | nil => exact ⟨fun _ => List.Sublist.refl _, fun _ _ _ _ h => h⟩
  | cons p entries ih => exact (ih (index.eraseCoins p.1 p.2)).trans (below_eraseCoins _ _ _)

theorem eraseCoins_of_absent {p : CKeyID × Uint256} (h : index.Absent p) :
    index.eraseCoins p.1 p.2 = index := by
  simp only [eraseCoins, CAddressToCoins.eraseCoin, h.2, List.erase_of_not_mem h.1,
    Function.update_eq_self]

theorem absent_of_below {p : CKeyID × Uint256} (h : index.Below (index.eraseCoins p.1 p.2)) :
    index.Absent p := by
  constructor
  · intro hmem
    have hle := (h.cached p.1).length_le
    simp only [eraseCoins, Function.update_self, List.length_erase_of_mem hmem] at hle
    have hpos := List.length_pos_of_mem hmem
    omega
  · cases hfind : index.addressToCoins.findSlot p.1 p.2 with
    | none => rfl
    | some slot =>
      have hslot : index.addressToCoins.coins (getBucket p.2) p.1 slot = some p.2 := by
        simpa using List.find?_some hfind
      have hkept := h.coins _ _ _ _ hslot
      simp [eraseCoins, CAddressToCoins.eraseCoin, hfind] at hkept

theorem absent_of_below_eraseAll (index : CAddressToCoinsViewCache)
    (entries : List (CKeyID × Uint256)) (h : index.Below (index.eraseAll entries)) :
    ∀ p ∈ entries, index.Absent p := by
  induction entries with
  | nil => simp
  | cons p entries ih =>
    have hcons : index.eraseAll (p :: entries) = (index.eraseCoins p.1 p.2).eraseAll entries := rfl
    rw [hcons] at h
    have habsent := absent_of_below (h.trans (below_eraseAll _ _))
    rw [eraseCoins_of_absent habsent] at h
    intro q hq
    rcases List.mem_cons.mp hq with rfl | htail
    · exact habsent
    · exact ih h q htail

theorem eraseAll_of_absent {entries : List (CKeyID × Uint256)}
    (h : ∀ p ∈ entries, index.Absent p) : index.eraseAll entries = index := by
  induction entries with
  | nil => rfl
  | cons p entries ih =>
    have hcons : index.eraseAll (p :: entries) = (index.eraseCoins p.1 p.2).eraseAll entries := rfl
    rw [hcons, eraseCoins_of_absent (h p List.mem_cons_self)]
    exact ih fun q hq => h q (List.mem_cons_of_mem _ hq)

theorem eraseAll_eq_self_iff (entries : List (CKeyID × Uint256)) :
    index.eraseAll entries = index ↔ ∀ p ∈ entries, index.Absent p := by
  refine ⟨?_, eraseAll_of_absent⟩
  intro heq
  apply absent_of_below_eraseAll
  rw [heq]
  exact ⟨fun _ => List.Sublist.refl _, fun _ _ _ _ h => h⟩

/-- New transactions change nothing in the index exactly when they have no
outputs and their input keys are known. -/
theorem collectAll_eq_self_iff (H : HashFunctions) (txs : List CTransaction) :
    collectAll H txs index = index ↔
      (∀ tx ∈ txs, (CCoins.ofTransaction tx).vout = []) ∧
      ∀ hash, ∀ tx ∈ lastWrite (CTransaction.getHash H) txs hash,
        getTransactionInputs H tx.vin = index.addressToCoins.transactionInputs hash := by
  rw [← foldl_update_eq_self_iff (CTransaction.getHash H) fun tx => getTransactionInputs H tx.vin]
  constructor
  · intro heq
    refine ⟨?_, ?_⟩
    · intro tx htx
      by_contra hne
      rcases List.exists_mem_of_ne_nil _ hne with ⟨o, ho⟩
      have hkey : (payee H o).getD 0 ∈ indexKeys H tx := List.mem_map.mpr ⟨o, ho, rfl⟩
      have hentry := mem_newEntries.mpr ⟨tx, htx, rfl, hkey⟩
      have hinsert := congrFun (congrArg insertCacheCoins heq) ((payee H o).getD 0)
      rw [collectAll, List.append_right_eq_self] at hinsert
      rw [hinsert] at hentry
      cases hentry
    · exact congrArg (fun i => i.addressToCoins.transactionInputs) heq
  · rintro ⟨hvout, hinputs⟩
    have hnone : ∀ keyId, newEntries H txs keyId = [] := by
      intro keyId
      apply List.eq_nil_iff_forall_not_mem.mpr
      intro hash hmem
      rcases mem_newEntries.mp hmem with ⟨tx, htx, -, hkey⟩
      rw [indexKeys, hvout tx htx] at hkey
      cases hkey
    simp only [collectAll, hinputs, hnone, List.append_nil]

/-- What is erased and what is added do not make up for each other. -/
theorem collectAll_eraseAll_eq_self_iff (index : CAddressToCoinsViewCache) (H : HashFunctions)
    (txs : List CTransaction) (entries : List (CKeyID × Uint256)) :
    collectAll H txs (index.eraseAll entries) = index ↔
      (∀ p ∈ entries, index.Absent p) ∧ collectAll H txs index = index := by
  constructor
  · intro heq
    have habsent := absent_of_below_eraseAll index entries (by
      constructor
      · intro keyId
        have hcached := congrFun (congrArg cacheCoins heq) keyId
        exact hcached ▸ List.Sublist.refl _
      · intro bucket keyId n c hc
        have hcoins := congrArg (fun i => i.addressToCoins.coins bucket keyId n) heq
        exact hcoins.trans hc)
    rw [eraseAll_of_absent habsent] at heq
    exact ⟨habsent, heq⟩
  · rintro ⟨habsent, heq⟩
    rw [eraseAll_of_absent habsent, heq]

end Index

section View

/-- The output at an outpoint, if there is one, is the null output already. -/
def Nulled (view : Uint256 → Option CCoins) (p : COutPoint) : Prop :=
  ∀ coins ∈ view p.hash, ∀ o ∈ coins.vout[p.n.toNat]?, o = CTxOut.null

theorem leave_eq_self_iff (coins : CCoins) (hash : Uint256) (named : List COutPoint) :
    coins.leave hash named = coins ↔
      ∀ p ∈ named, p.hash = hash → ∀ o ∈ coins.vout[p.n.toNat]?, o = CTxOut.null := by
  constructor
  · intro heq p hp hhash o ho
    have hget := CCoins.getElem?_leave coins hash named p.n.toNat
    rw [heq, Option.mem_def.mp ho, Option.map_some, if_pos ⟨p, hp, hhash, rfl⟩,
      Option.some.injEq] at hget
    exact hget
  · intro hnull
    have hvout : (coins.leave hash named).vout = coins.vout := by
      apply List.ext_getElem?
      intro n
      rw [CCoins.getElem?_leave]
      cases hget : coins.vout[n]? with
      | none => rfl
      | some o =>
        rw [Option.map_some]
        split
        case isTrue hnamed =>
          rcases hnamed with ⟨p, hp, hhash, rfl⟩
          rw [hnull p hp hhash o hget]
        case isFalse => rfl
    cases coins
    exact congrArg CCoins.mk hvout

theorem leftView_apply_eq_iff (view : Uint256 → Option CCoins) (named : List COutPoint)
    (hash : Uint256) :
    leftView view named hash = view hash ↔ ∀ p ∈ named, p.hash = hash → Nulled view p := by
  unfold leftView Nulled
  cases hview : view hash with
  | none =>
    refine ⟨?_, fun _ => rfl⟩
    intro _ p _ hhash coins hcoins
    rw [hhash, hview] at hcoins
    cases hcoins
  | some coins =>
    rw [Option.map_some, Option.some.injEq, leave_eq_self_iff]
    constructor
    · intro hnull p hp hhash coins' hcoins'
      rw [hhash, hview] at hcoins'
      cases hcoins'
      exact hnull p hp hhash
    · intro hnull p hp hhash
      exact hnull p hp hhash coins (by rw [hhash, hview]; rfl)

theorem leftView_eq_self_iff (view : Uint256 → Option CCoins) (named : List COutPoint) :
    leftView view named = view ↔ ∀ p ∈ named, Nulled view p := by
  constructor
  · intro heq p hp
    exact (leftView_apply_eq_iff view named p.hash).mp (congrFun heq p.hash) p hp rfl
  · intro hnull
    funext hash
    exact (leftView_apply_eq_iff view named hash).mpr fun p hp _ => hnull p hp

/-- Spending and creating change nothing exactly when the last coins created
under each hash are there, and elsewhere all outputs are null. -/
theorem createdView_leftView_eq_self_iff (H : HashFunctions) (txs : List CTransaction)
    (view : Uint256 → Option CCoins) (named : List COutPoint) :
    createdView H txs (leftView view named) = view ↔
      (∀ p ∈ named, p.hash ∉ txs.map (CTransaction.getHash H) → Nulled view p) ∧
      ∀ hash, ∀ tx ∈ lastWrite (CTransaction.getHash H) txs hash,
        view hash = some (CCoins.ofTransaction tx) := by
  have happly : ∀ hash, createdView H txs (leftView view named) hash =
      ((lastWrite (CTransaction.getHash H) txs hash).map fun tx =>
        some (CCoins.ofTransaction tx)).getD (leftView view named hash) := by
    intro hash
    exact foldl_update_apply (CTransaction.getHash H)
      (fun tx => some (CCoins.ofTransaction tx)) txs _ hash
  constructor
  · intro heq
    constructor
    · intro p hp hfresh
      have hview := happly p.hash
      rw [heq, lastWrite_eq_none.mpr hfresh] at hview
      exact (leftView_apply_eq_iff view named p.hash).mp hview.symm p hp rfl
    · intro hash tx htx
      have hview := happly hash
      rw [heq, Option.mem_def.mp htx] at hview
      exact hview
  · rintro ⟨hnull, hcreated⟩
    funext hash
    rw [happly]
    cases hlast : lastWrite (CTransaction.getHash H) txs hash with
    | none =>
      apply (leftView_apply_eq_iff view named hash).mpr
      rintro p hp rfl
      exact hnull p hp (lastWrite_eq_none.mp hlast)
    | some tx => exact (hcreated hash tx hlast).symm

end View

section Loops

variable (env : Environment)

/-- The inputs up to the first that is not accepted, that one included. -/
def reachedInputs (view : Uint256 → Option CCoins) (vin : List CTxIn) : List CTxIn :=
  vin.takeWhile (fun txIn => Accepted view txIn) ++
    (vin.dropWhile fun txIn => Accepted view txIn).head?.toList

/-- The transactions that the second loop processes to their end. -/
def createdToEnd (H : HashFunctions) (txs : List CTransaction) : List CTransaction :=
  txs.takeWhile fun tx => Creatable H tx

/-- The same and the one at which it ends. -/
def reachedTransactions (H : HashFunctions) (txs : List CTransaction) : List CTransaction :=
  createdToEnd H txs ++ (txs.dropWhile fun tx => Creatable H tx).head?.toList

/-- The first loop ends early and every step of it was void. -/
structure SpendsVoid (s : CTransactionRecordManager) (vin : List CTxIn) : Prop where
  erased : ∀ p ∈ presentedEntries env s.coinsViewCache.view []
    (reachedInputs s.coinsViewCache.view vin), s.addressToCoinsViewCache.Absent p
  nulled : ∀ txIn ∈ vin.takeWhile (fun txIn => Accepted s.coinsViewCache.view txIn),
    Nulled s.coinsViewCache.view txIn.prevout
  settled : ∀ txIn ∈ reachedInputs s.coinsViewCache.view vin,
    Settled s.coinsViewCache txIn.prevout.hash

/-- The first loop runs to its end, the second ends early, and they changed nothing. -/
structure CreatesVoid (s : CTransactionRecordManager) (vin : List CTxIn)
    (txs : List CTransaction) : Prop where
  erased : ∀ p ∈ presentedEntries env s.coinsViewCache.view [] vin,
    s.addressToCoinsViewCache.Absent p
  nulled : ∀ txIn ∈ vin, txIn.prevout.hash ∉
    (reachedTransactions env.hashes txs).map (CTransaction.getHash env.hashes) →
      Nulled s.coinsViewCache.view txIn.prevout
  created : ∀ hash, ∀ tx ∈ lastWrite (CTransaction.getHash env.hashes)
    (reachedTransactions env.hashes txs) hash,
      s.coinsViewCache.view hash = some (CCoins.ofTransaction tx)
  entries : ∀ tx ∈ createdToEnd env.hashes txs, (CCoins.ofTransaction tx).vout = []
  inputs : ∀ hash, ∀ tx ∈ lastWrite (CTransaction.getHash env.hashes)
    (createdToEnd env.hashes txs) hash, getTransactionInputs env.hashes tx.vin =
      s.addressToCoinsViewCache.addressToCoins.transactionInputs hash
  settled : ∀ hash ∈ vin.map (fun txIn => txIn.prevout.hash) ++
    (reachedTransactions env.hashes txs).map (CTransaction.getHash env.hashes),
      Settled s.coinsViewCache hash

/-- The bundles that are applied with success or whose failure leaves no trace. -/
def LeavesNoTrace (s : CTransactionRecordManager) (txs : List CTransaction) : Prop :=
  ((∃ txIn ∈ txs.flatMap CTransaction.vin, ¬ Accepted s.coinsViewCache.view txIn) →
    SpendsVoid env s (txs.flatMap CTransaction.vin)) ∧
  ((∀ txIn ∈ txs.flatMap CTransaction.vin, Accepted s.coinsViewCache.view txIn) →
    (∃ tx ∈ txs, ¬ Creatable env.hashes tx) →
      CreatesVoid env s (txs.flatMap CTransaction.vin) txs)

theorem touched_spendInput (s : CTransactionRecordManager) (txIn : CTxIn) :
    Touched s.coinsViewCache (s.spendInput env txIn).2.coinsViewCache
      (if (s.coinsViewCache.view txIn.prevout.hash).isSome then [txIn.prevout.hash] else []) := by
  have hlookup := touched_getCoins s.coinsViewCache txIn.prevout.hash
  unfold spendInput
  simp only [CCoinsViewCache.getCoins_fst]
  cases hview : s.coinsViewCache.view txIn.prevout.hash with
  | none =>
    rw [hview] at hlookup
    exact hlookup
  | some coins =>
    rw [hview] at hlookup
    simp only [Option.isSome_some, if_true] at hlookup ⊢
    split
    · exact hlookup
    · split
      · refine ⟨(hlookup.setCoins _ _).base, ?_⟩
        intro hash
        rw [(hlookup.setCoins txIn.prevout.hash (coins.setNull txIn.prevout.n.toNat)).cached]
        simp
      · exact hlookup

theorem touched_createCoins (s : CTransactionRecordManager) (tx : CTransaction) :
    Touched s.coinsViewCache (s.createCoins env tx).2.coinsViewCache [tx.getHash env.hashes] := by
  have hset := (Touched.refl s.coinsViewCache).setCoins (tx.getHash env.hashes)
    (CCoins.ofTransaction tx)
  unfold createCoins
  dsimp only
  split
  · exact hset
  · split <;> exact hset

theorem touched_spendInputs {s s' : CTransactionRecordManager} {vin : List CTxIn}
    (h : s.spendInputs env vin = (none, s')) :
    Touched s.coinsViewCache s'.coinsViewCache (vin.map fun txIn => txIn.prevout.hash) := by
  induction vin generalizing s with
  | nil =>
    cases h
    exact Touched.refl _
  | cons txIn vin ih =>
    rw [spendInputs_cons] at h
    have htouched := touched_spendInput env s txIn
    rcases hstep : s.spendInput env txIn with ⟨_ | result, s1⟩
    · rw [hstep] at h htouched
      rcases spendInput_continues env hstep with ⟨coins, hview, -, -, -⟩
      rw [hview, Option.isSome_some, if_pos rfl] at htouched
      exact htouched.trans (ih h)
    · rw [hstep] at h
      cases h

theorem touched_createAllCoins {s s' : CTransactionRecordManager} {txs : List CTransaction}
    (h : s.createAllCoins env txs = (none, s')) :
    Touched s.coinsViewCache s'.coinsViewCache
      (txs.map (CTransaction.getHash env.hashes)) := by
  induction txs generalizing s with
  | nil =>
    cases h
    exact Touched.refl _
  | cons tx txs ih =>
    rw [createAllCoins_cons] at h
    have htouched := touched_createCoins env s tx
    rcases hstep : s.createCoins env tx with ⟨_ | result, s1⟩
    · rw [hstep] at h htouched
      exact htouched.trans (ih h)
    · rw [hstep] at h
      cases h

theorem accepted_leftView {view : Uint256 → Option CCoins} {named : List COutPoint}
    {txIn : CTxIn} : Accepted (leftView view named) txIn ↔ Accepted view txIn := by
  unfold Accepted leftView
  cases view txIn.prevout.hash with
  | none => simp
  | some coins => simp [CCoins.length_leave]

/-- An input that is not accepted ends the loop; if only its position is out of
range it has erased an entry before. -/
theorem spendInput_of_not_accepted {s : CTransactionRecordManager} {txIn : CTxIn}
    (h : ¬ Accepted s.coinsViewCache.view txIn) :
    ∃ result s', s.spendInput env txIn = (some result, s') ∧ result.Failed ∧
      s'.coinsViewCache.view = s.coinsViewCache.view ∧
      s'.addressToCoinsViewCache = s.addressToCoinsViewCache.eraseAll
        (presentedEntries env s.coinsViewCache.view [] [txIn]) := by
  have hend : ∀ result, s.spendInput env txIn = (some result, (s.spendInput env txIn).2) →
      (s.spendInput env txIn).2.coinsViewCache.view = s.coinsViewCache.view :=
    fun result hresult => spendInput_stops env hresult
  cases hview : s.coinsViewCache.view txIn.prevout.hash with
  | none =>
    have hstep : s.spendInput env txIn =
        (some (.returned false), (s.spendInput env txIn).2) := by
      simp only [spendInput, CCoinsViewCache.getCoins_fst, hview]
    refine ⟨_, _, hstep, by simp [BundleResult.Failed], hend _ hstep, ?_⟩
    simp only [spendInput, CCoinsViewCache.getCoins_fst, hview, presentedEntries, presentedKey]
    rfl
  | some coins =>
    have hentries : presentedEntries env s.coinsViewCache.view [] [txIn] =
        ((retrieveInputIds env.hashes env.stray txIn 0 coins).map fun keyId =>
          (keyId, txIn.prevout.hash)).toList := by
      simp only [presentedEntries, presentedKey, hview, Option.bind_some, List.not_mem_nil,
        if_false, List.append_nil]
    rw [hentries]
    cases hkey : retrieveInputIds env.hashes env.stray txIn 0 coins with
    | none =>
      have hstep : s.spendInput env txIn =
          (some (.returned false), (s.spendInput env txIn).2) := by
        simp only [spendInput, CCoinsViewCache.getCoins_fst, hview, hkey]
      refine ⟨_, _, hstep, by simp [BundleResult.Failed], hend _ hstep, ?_⟩
      simp only [spendInput, CCoinsViewCache.getCoins_fst, hview, hkey]
      rfl
    | some keyId =>
      have hrange : ¬ txIn.prevout.n.toNat < coins.vout.length := by
        intro hlt
        apply h
        refine ⟨coins, hview, ?_, hlt⟩
        cases hdata : findKeyPush txIn.scriptSig with
        | none => simp [retrieveInputIds, hdata] at hkey
        | some data => rfl
      have hstep : s.spendInput env txIn = (some .threw, (s.spendInput env txIn).2) := by
        simp only [spendInput, CCoinsViewCache.getCoins_fst, hview, hkey, if_neg hrange]
      refine ⟨_, _, hstep, by simp [BundleResult.Failed], hend _ hstep, ?_⟩
      simp only [spendInput, CCoinsViewCache.getCoins_fst, hview, hkey, if_neg hrange]
      rfl

theorem presentedEntries_append (view : Uint256 → Option CCoins) (named : List COutPoint)
    (first second : List CTxIn) :
    presentedEntries env view named (first ++ second) = presentedEntries env view named first ++
      presentedEntries env view ((first.map CTxIn.prevout).reverse ++ named) second := by
  induction first generalizing named with
  | nil => rfl
  | cons txIn first ih =>
    rw [List.cons_append, presentedEntries, presentedEntries, ih, List.append_assoc]
    simp

theorem presentedKey_of_not_accepted {view : Uint256 → Option CCoins} {txIn : CTxIn}
    (h : ¬ Accepted view txIn) (named : List COutPoint) :
    presentedKey env view named txIn = presentedKey env view [] txIn := by
  unfold presentedKey
  cases hview : view txIn.prevout.hash with
  | none => rfl
  | some coins =>
    rw [Option.bind_some, Option.bind_some, if_neg List.not_mem_nil]
    by_cases hnamed : txIn.prevout ∈ named
    · rw [if_pos hnamed]
      by_cases hlt : txIn.prevout.n.toNat < coins.vout.length
      · have hdata : findKeyPush txIn.scriptSig = none := by
          by_contra hsome
          exact h ⟨coins, hview, Option.isSome_iff_ne_none.mpr hsome, hlt⟩
        simp [retrieveInputIds, hdata]
      · have hsame : coins.setNull txIn.prevout.n.toNat = coins := by
          cases coins
          exact congrArg CCoins.mk (List.set_eq_of_length_le (by simpa using hlt))
        rw [hsame]
    · rw [if_neg hnamed]

private theorem takeWhile_stops {α : Type} (c : α → Bool) {l : List α} (h : ∃ a ∈ l, ¬ c a = true) :
    ∃ first a rest, l = first ++ a :: rest ∧ l.takeWhile c = first ∧ ¬ c a = true ∧
      l.takeWhile c ++ (l.dropWhile c).head?.toList = first ++ [a] := by
  rcases hrest : l.dropWhile c with _ | ⟨a, rest⟩
  · rcases h with ⟨a, ha, hc⟩
    exact absurd (List.dropWhile_eq_nil_iff.mp hrest a ha) hc
  · have hhead := List.head?_dropWhile_not c l
    rw [hrest] at hhead
    refine ⟨l.takeWhile c, a, rest, ?_, rfl, by simpa using hhead, rfl⟩
    rw [← hrest]
    exact List.takeWhile_append_dropWhile.symm

/-- The first loop where it ends early. -/
theorem spendInputs_void_iff {s : CTransactionRecordManager} {vin : List CTxIn}
    (h : ∃ txIn ∈ vin, ¬ Accepted s.coinsViewCache.view txIn) :
    ∃ result s', s.spendInputs env vin = (some result, s') ∧ result.Failed ∧
      (SameLedger s s' ↔ SpendsVoid env s vin) := by
  rcases takeWhile_stops (fun txIn => Accepted s.coinsViewCache.view txIn) (l := vin)
    (by simpa using h) with ⟨first, txIn, rest, hsplit, hfirst, hrefused, hreached⟩
  rw [decide_eq_true_eq] at hrefused
  have haccepted : ∀ txIn ∈ first, Accepted s.coinsViewCache.view txIn := by
    intro txIn htxIn
    rw [← hfirst] at htxIn
    simpa using List.mem_takeWhile_imp htxIn
  rcases spendInputs_of_accepted env [] first haccepted (leftView_nil _).symm with
    ⟨s1, hloop, hview1, hindex1⟩
  rw [List.append_nil, leftView_reverse] at hview1
  have htouched1 := touched_spendInputs env hloop
  have hrefused1 : ¬ Accepted s1.coinsViewCache.view txIn := by
    rw [hview1, accepted_leftView]
    exact hrefused
  rcases spendInput_of_not_accepted env hrefused1 with ⟨result, s2, hstep, hfailed, hview2, hindex2⟩
  have htouched2 := touched_spendInput env s1 txIn
  rw [hstep] at htouched2
  refine ⟨result, s2, ?_, hfailed, ?_⟩
  · rw [hsplit, spendInputs_append, hloop]
    dsimp only
    rw [spendInputs_cons, hstep]
  · have hsame := (htouched1.trans htouched2).same_iff
    have hvoid : s2.coinsViewCache.view = s.coinsViewCache.view ↔
        ∀ txIn ∈ first, Nulled s.coinsViewCache.view txIn.prevout := by
      rw [hview2, hview1, leftView_eq_self_iff]
      simp
    -- where the view has not changed, the last input presents what it would have at first
    have hentries : s2.coinsViewCache.view = s.coinsViewCache.view →
        s2.addressToCoinsViewCache = s.addressToCoinsViewCache.eraseAll
          (presentedEntries env s.coinsViewCache.view []
            (reachedInputs s.coinsViewCache.view vin)) := by
      intro hview
      have hlast : presentedEntries env s1.coinsViewCache.view [] [txIn] =
          presentedEntries env s.coinsViewCache.view
            ((first.map CTxIn.prevout).reverse ++ []) [txIn] := by
        rw [← hview2, hview]
        simp only [presentedEntries]
        rw [presentedKey_of_not_accepted env hrefused ((first.map CTxIn.prevout).reverse ++ [])]
      rw [hindex2, hindex1, hlast, reachedInputs, hreached, presentedEntries_append,
        CAddressToCoinsViewCache.eraseAll, CAddressToCoinsViewCache.eraseAll,
        CAddressToCoinsViewCache.eraseAll, List.foldl_append]
    have hsettled : (∀ hash ∈ first.map (fun txIn => txIn.prevout.hash) ++
        (if (s1.coinsViewCache.view txIn.prevout.hash).isSome then [txIn.prevout.hash] else []),
          Settled s.coinsViewCache hash) ↔
        ∀ txIn ∈ reachedInputs s.coinsViewCache.view vin,
          Settled s.coinsViewCache txIn.prevout.hash := by
      rw [reachedInputs, hreached, List.forall_mem_append, List.forall_mem_append,
        List.forall_mem_map, List.forall_mem_singleton]
      by_cases hfound : (s1.coinsViewCache.view txIn.prevout.hash).isSome = true
      · rw [if_pos hfound, List.forall_mem_singleton]
      · have hnone : s.coinsViewCache.view txIn.prevout.hash = none := by
          rw [hview1, leftView, Option.isSome_map] at hfound
          simpa using hfound
        simp [hfound, settled_of_view_none hnone]
    constructor
    · intro hledger
      rcases hsame.mp ⟨hledger.view, hledger.flushed⟩ with ⟨hview, hall⟩
      refine ⟨?_, ?_, hsettled.mp hall⟩
      · apply (eraseAll_eq_self_iff _).mp
        rw [← hentries hview, hledger.index]
      · rw [hfirst]
        exact hvoid.mp hview
    · intro hc
      have hview := hvoid.mpr (hfirst ▸ hc.nulled)
      rcases hsame.mpr ⟨hview, hsettled.mpr hc.settled⟩ with ⟨-, hflushed⟩
      refine ⟨hview, hflushed, ?_⟩
      rw [hentries hview]
      exact (eraseAll_eq_self_iff _).mpr hc.erased

theorem mapM_retrieveKeyIds_eq_none (H : HashFunctions) {vout : List CTxOut}
    (h : ∃ o ∈ vout, ¬ o.scriptPubKey.parses = true) :
    vout.mapM (fun o => retrieveKeyIds H o 0 pubkeyOrHash) = none := by
  induction vout with
  | nil => simp at h
  | cons o vout ih =>
    have hfirst := retrieveKeyIds_eq H o 0
    rw [List.mapM_cons]
    by_cases hparses : o.scriptPubKey.parses = true
    · rw [if_pos hparses] at hfirst
      rcases h with ⟨o', ho', hbad⟩
      rcases List.mem_cons.mp ho' with rfl | htail
      · exact absurd hparses hbad
      · rw [hfirst, ih ⟨o', htail, hbad⟩]
        rfl
    · rw [if_neg hparses] at hfirst
      rw [hfirst]
      rfl

theorem createCoins_of_not_creatable {s : CTransactionRecordManager} {tx : CTransaction}
    (h : ¬ Creatable env.hashes tx) :
    ∃ result s', s.createCoins env tx = (some result, s') ∧ result.Failed ∧
      s'.coinsViewCache.view = createdView env.hashes [tx] s.coinsViewCache.view ∧
      s'.addressToCoinsViewCache = s.addressToCoinsViewCache := by
  by_cases hparses : ∀ o ∈ (CCoins.ofTransaction tx).vout, o.scriptPubKey.parses = true
  · have hinputs : getTransactionInputs env.hashes tx.vin = none := by
      by_contra hsome
      exact h ⟨hparses, Option.isSome_iff_ne_none.mpr hsome⟩
    have hkeys := mapM_retrieveKeyIds env.hashes _ hparses
    refine ⟨.aborted, (s.createCoins env tx).2, ?_, by simp [BundleResult.Failed], ?_, ?_⟩ <;>
      simp only [createCoins, hkeys, hinputs]
    exact CCoinsViewCache.view_setCoins _ _ _
  · push Not at hparses
    have hkeys := mapM_retrieveKeyIds_eq_none env.hashes hparses
    refine ⟨.returned false, (s.createCoins env tx).2, ?_, by simp [BundleResult.Failed], ?_, ?_⟩ <;>
      simp only [createCoins, hkeys]
    exact CCoinsViewCache.view_setCoins _ _ _

theorem createAllCoins_append (s : CTransactionRecordManager) (first second : List CTransaction) :
    s.createAllCoins env (first ++ second) = match s.createAllCoins env first with
      | (none, s') => s'.createAllCoins env second
      | (some result, s') => (some result, s') := by
  induction first generalizing s with
  | nil => rfl
  | cons tx first ih =>
    rw [List.cons_append, createAllCoins_cons, createAllCoins_cons]
    rcases s.createCoins env tx with ⟨_ | result, s'⟩
    · exact ih s'
    · rfl

/-- The second loop where it ends early, after a first loop that does not. -/
theorem createAllCoins_void_iff {s s1 : CTransactionRecordManager} {vin : List CTxIn}
    {txs : List CTransaction} (hloop : s.spendInputs env vin = (none, s1))
    (hview1 : s1.coinsViewCache.view = leftView s.coinsViewCache.view (vin.map CTxIn.prevout))
    (hindex1 : s1.addressToCoinsViewCache = s.addressToCoinsViewCache.eraseAll
      (presentedEntries env s.coinsViewCache.view [] vin))
    (h : ∃ tx ∈ txs, ¬ Creatable env.hashes tx) :
    ∃ result s', s1.createAllCoins env txs = (some result, s') ∧ result.Failed ∧
      (SameLedger s s' ↔ CreatesVoid env s vin txs) := by
  rcases takeWhile_stops (fun tx => Creatable env.hashes tx) (l := txs)
    (by simpa using h) with ⟨first, tx, rest, hsplit, hfirst, hbad, hreached⟩
  rw [decide_eq_true_eq] at hbad
  have hdone : createdToEnd env.hashes txs = first := hfirst
  have hreached : reachedTransactions env.hashes txs = first ++ [tx] := hreached
  have hcreatable : ∀ tx ∈ first, Creatable env.hashes tx := by
    intro tx htx
    rw [← hfirst] at htx
    simpa using List.mem_takeWhile_imp htx
  rcases createAllCoins_of_creatable env first hcreatable s1 with ⟨s2, hloop2, hview2, hindex2⟩
  rcases createCoins_of_not_creatable env (s := s2) hbad with
    ⟨result, s3, hstep, hfailed, hview3, hindex3⟩
  have htouched3 := touched_createCoins env s2 tx
  rw [hstep] at htouched3
  have hsame := (((touched_spendInputs env hloop).trans (touched_createAllCoins env hloop2)).trans
    htouched3).same_iff
  have hview : s3.coinsViewCache.view = createdView env.hashes (first ++ [tx])
      (leftView s.coinsViewCache.view (vin.map CTxIn.prevout)) := by
    rw [hview3, hview2, hview1, createdView, createdView, createdView, List.foldl_append]
  have hindex : s3.addressToCoinsViewCache = collectAll env.hashes first
      (s.addressToCoinsViewCache.eraseAll (presentedEntries env s.coinsViewCache.view [] vin)) := by
    rw [hindex3, hindex2, hindex1]
  refine ⟨result, s3, ?_, hfailed, ?_⟩
  · rw [hsplit, createAllCoins_append, hloop2]
    dsimp only
    rw [createAllCoins_cons, hstep]
  · have hhashes : (vin.map fun txIn => txIn.prevout.hash) ++
        first.map (CTransaction.getHash env.hashes) ++ [tx.getHash env.hashes] =
        (vin.map fun txIn => txIn.prevout.hash) ++
          (reachedTransactions env.hashes txs).map (CTransaction.getHash env.hashes) := by
      rw [hreached, List.map_append, List.append_assoc]
      rfl
    rw [hhashes] at hsame
    have hviewed := createdView_leftView_eq_self_iff env.hashes (first ++ [tx])
      s.coinsViewCache.view (vin.map CTxIn.prevout)
    rw [← hview, ← hreached] at hviewed
    have hindexed := collectAll_eraseAll_eq_self_iff s.addressToCoinsViewCache env.hashes first
      (presentedEntries env s.coinsViewCache.view [] vin)
    rw [← hindex, collectAll_eq_self_iff, ← hdone] at hindexed
    have hnulled : (∀ p ∈ vin.map CTxIn.prevout, p.hash ∉
        (reachedTransactions env.hashes txs).map (CTransaction.getHash env.hashes) →
          Nulled s.coinsViewCache.view p) ↔ ∀ txIn ∈ vin, txIn.prevout.hash ∉
        (reachedTransactions env.hashes txs).map (CTransaction.getHash env.hashes) →
          Nulled s.coinsViewCache.view txIn.prevout := List.forall_mem_map
    rw [hnulled] at hviewed
    constructor
    · intro hledger
      rcases hsame.mp ⟨hledger.view, hledger.flushed⟩ with ⟨hview, hsettled⟩
      rcases hviewed.mp hview with ⟨hnull, hcreated⟩
      rcases hindexed.mp hledger.index with ⟨herased, hentries, hinputs⟩
      exact ⟨herased, hnull, hcreated, hentries, hinputs, hsettled⟩
    · intro hc
      have hview := hviewed.mpr ⟨hc.nulled, hc.created⟩
      rcases hsame.mpr ⟨hview, hc.settled⟩ with ⟨-, hflushed⟩
      exact ⟨hview, hflushed, hindexed.mpr ⟨hc.erased, hc.entries, hc.inputs⟩⟩

/-- A failed application leaves the ledger as it was exactly when every step it
took was void. -/
theorem failed_same_iff (s : CTransactionRecordManager) (txs : List CTransaction) :
    ((s.addValidatedTransactionBundle env txs).1.Failed →
      SameLedger s (s.addValidatedTransactionBundle env txs).2) ↔ LeavesNoTrace env s txs := by
  by_cases hall : ∀ txIn ∈ txs.flatMap CTransaction.vin, Accepted s.coinsViewCache.view txIn
  · rcases spendInputs_of_accepted env [] _ hall (leftView_nil _).symm with
      ⟨s1, hloop, hview1, hindex1⟩
    rw [List.append_nil, leftView_reverse] at hview1
    have hfirst : ¬ ∃ txIn ∈ txs.flatMap CTransaction.vin, ¬ Accepted s.coinsViewCache.view txIn := by
      push Not
      exact hall
    by_cases hcreatable : ∀ tx ∈ txs, Creatable env.hashes tx
    · rcases createAllCoins_of_creatable env txs hcreatable s1 with ⟨s2, hloop2, -, -⟩
      have hresult : (s.addValidatedTransactionBundle env txs).1 = .returned true := by
        simp only [addValidatedTransactionBundle, addRetrivedTransactionBundle, hloop, hloop2]
      have hsecond : ¬ ∃ tx ∈ txs, ¬ Creatable env.hashes tx := by
        push Not
        exact hcreatable
      constructor
      · intro _
        exact ⟨fun h => absurd h hfirst, fun _ h => absurd h hsecond⟩
      · intro _ hfailed
        exact absurd hresult hfailed
    · push Not at hcreatable
      rcases createAllCoins_void_iff env hloop hview1 hindex1 hcreatable with
        ⟨result, s2, hloop2, hfailed, hvoid⟩
      have hresult : s.addValidatedTransactionBundle env txs = (result, s2) := by
        simp only [addValidatedTransactionBundle, addRetrivedTransactionBundle, hloop, hloop2]
      rw [hresult]
      constructor
      · intro hsame
        exact ⟨fun h => absurd h hfirst, fun _ _ => hvoid.mp (hsame hfailed)⟩
      · intro hc _
        exact hvoid.mpr (hc.2 hall hcreatable)
  · push Not at hall
    rcases spendInputs_void_iff env hall with ⟨result, s1, hloop, hfailed, hvoid⟩
    have hresult : s.addValidatedTransactionBundle env txs = (result, s1) := by
      simp only [addValidatedTransactionBundle, hloop]
    rw [hresult]
    constructor
    · intro hsame
      refine ⟨fun _ => hvoid.mp (hsame hfailed), ?_⟩
      intro hacc
      rcases hall with ⟨txIn, hmem, hrefused⟩
      exact absurd (hacc txIn hmem) hrefused
    · intro hc _
      exact hvoid.mpr (hc.1 hall)

end Loops

namespace OneCoin

def spendMissing : CTransaction :=
  ⟨4, [⟨⟨9, 0⟩, [0x51], 0xffffffff⟩], [⟨5, []⟩], 0, 0⟩

/-- The second transaction of a bundle is refused, and the output spent by the
first is gone. -/
theorem spent_by_failed_bundle :
    let applied := ledger.addValidatedTransactionBundle env [spend 1 5, spendMissing]
    applied.1 = .returned false ∧
    ledger.unspent ⟨7, 0⟩ = some ⟨5, []⟩ ∧ applied.2.unspent ⟨7, 0⟩ = none ∧
    ¬ (applied.1.Failed → SameLedger ledger applied.2) := by
  have hresult : (ledger.addValidatedTransactionBundle env [spend 1 5, spendMissing]).1 =
      .returned false := by decide
  have hgone : (ledger.addValidatedTransactionBundle env
      [spend 1 5, spendMissing]).2.unspent ⟨7, 0⟩ = none := by decide
  refine ⟨hresult, by decide, hgone, ?_⟩
  intro hsame
  have hledger := hsame (by rw [hresult]; simp [BundleResult.Failed])
  have hunspent : ledger.unspent ⟨7, 0⟩ = none := by
    rw [← hgone]
    exact congrFun (unspent_of_view_eq hledger.view.symm) _
  exact absurd hunspent (by decide)

end OneCoin

end Dims
