import Dims.LedgerSteps
import Dims.AddressIndex

/-!
# Payments

Which keys the unspent outputs of a transaction pay, and what the two loops of
the application do to the view and to the index where they run to their end. The
first loop leaves the outputs that no input names and erases the entry that each
input presents; the second collects an entry for each output it creates.
-/

namespace Dims

section Pays

variable (H : HashFunctions)

def CCoins.Pays (coins : CCoins) (keyId : CKeyID) : Prop :=
  ∃ o ∈ coins.vout, payee H o = some keyId

instance (coins : CCoins) (keyId : CKeyID) : Decidable (coins.Pays H keyId) :=
  inferInstanceAs (Decidable (∃ o ∈ coins.vout, payee H o = some keyId))

def Paid (view : Uint256 → Option CCoins) (keyId : CKeyID) (hash : Uint256) : Prop :=
  ∃ coins ∈ view hash, coins.Pays H keyId

instance (view : Uint256 → Option CCoins) (keyId : CKeyID) (hash : Uint256) :
    Decidable (Paid H view keyId hash) :=
  inferInstanceAs (Decidable (∃ coins ∈ view hash, coins.Pays H keyId))

theorem payee_of_isNull {o : CTxOut} (h : o.isNull = true) : payee H o = none := by
  simp [payee, h]

theorem CCoins.pays_cleanup (coins : CCoins) (keyId : CKeyID) :
    coins.cleanup.Pays H keyId ↔ coins.Pays H keyId := by
  have hsplit : coins.vout = coins.cleanup.vout ++ coins.vout.rtakeWhile CTxOut.isNull :=
    List.rdropWhile_append_rtakeWhile.symm
  constructor
  · rintro ⟨o, ho, hpays⟩
    refine ⟨o, ?_, hpays⟩
    rw [hsplit]
    exact List.mem_append_left _ ho
  · rintro ⟨o, ho, hpays⟩
    rw [hsplit] at ho
    rcases List.mem_append.mp ho with ho | htail
    · exact ⟨o, ho, hpays⟩
    · rw [payee_of_isNull H (List.mem_rtakeWhile_imp htail)] at hpays
      cases hpays

/-- Every output is read back from the database as it was written. -/
def CCoins.Stable (coins : CCoins) : Prop := ∀ o ∈ coins.vout, o.stored = o

instance (coins : CCoins) : Decidable coins.Stable :=
  inferInstanceAs (Decidable (∀ o ∈ coins.vout, o.stored = o))

theorem CCoins.Stable.cleanup {coins : CCoins} (h : coins.Stable) : coins.cleanup.Stable := by
  intro o ho
  have hsplit : coins.vout = coins.cleanup.vout ++ coins.vout.rtakeWhile CTxOut.isNull :=
    List.rdropWhile_append_rtakeWhile.symm
  apply h
  rw [hsplit]
  exact List.mem_append_left _ ho

theorem CCoins.Stable.stored {coins : CCoins} (h : coins.Stable) :
    coins.stored = if coins.isPruned then none else some coins.cleanup := by
  unfold CCoins.stored
  rw [List.map_congr_left (g := id) h, List.map_id]

def StableView (view : Uint256 → Option CCoins) : Prop :=
  ∀ hash, ∀ coins ∈ view hash, coins.Stable

variable {H} {s : CCoinsViewCache}

theorem paid_flush (h : StableView s.view) (keyId : CKeyID) (hash : Uint256) :
    Paid H s.flush.view keyId hash ↔ Paid H s.view keyId hash := by
  unfold Paid
  rw [CCoinsViewCache.view_flush]
  cases hcache : s.cacheCoins hash with
  | none => rfl
  | some coins =>
    have hview : s.view hash = some coins := by simp [CCoinsViewCache.view, hcache]
    dsimp only
    rw [hview, (h hash coins hview).stored]
    by_cases hpruned : coins.isPruned = true
    · rw [if_pos hpruned]
      constructor
      · rintro ⟨c, hc, -⟩
        cases hc
      · rintro ⟨c, hc, o, ho, hpays⟩
        cases hc
        rw [payee_of_isNull H (List.all_eq_true.mp hpruned o ho)] at hpays
        cases hpays
    · rw [if_neg hpruned]
      simp [CCoins.pays_cleanup]

theorem StableView.flush (h : StableView s.view) : StableView s.flush.view := by
  intro hash coins hcoins
  rw [CCoinsViewCache.view_flush] at hcoins
  cases hcache : s.cacheCoins hash with
  | none =>
    rw [hcache] at hcoins
    exact h hash coins hcoins
  | some old =>
    have hview : s.view hash = some old := by simp [CCoinsViewCache.view, hcache]
    rw [hcache] at hcoins
    dsimp only at hcoins
    rw [(h hash old hview).stored] at hcoins
    split at hcoins
    · cases hcoins
    · cases hcoins
      exact (h hash old hview).cleanup

end Pays

section LeftView

/-- The coins under a hash without the outputs that the outpoints name. -/
def CCoins.leave (coins : CCoins) (hash : Uint256) (named : List COutPoint) : CCoins :=
  ⟨coins.vout.mapIdx fun n o =>
    if ∃ p ∈ named, p.hash = hash ∧ p.n.toNat = n then CTxOut.null else o⟩

/-- The view without the outputs that the outpoints name. -/
def leftView (view : Uint256 → Option CCoins) (named : List COutPoint) : Uint256 → Option CCoins :=
  fun hash => (view hash).map fun coins => coins.leave hash named

theorem CCoins.getElem?_leave (coins : CCoins) (hash : Uint256) (named : List COutPoint) (n : ℕ) :
    (coins.leave hash named).vout[n]? = coins.vout[n]?.map fun o =>
      if ∃ p ∈ named, p.hash = hash ∧ p.n.toNat = n then CTxOut.null else o := by
  simp only [CCoins.leave, List.getElem?_mapIdx]

theorem CCoins.length_leave (coins : CCoins) (hash : Uint256) (named : List COutPoint) :
    (coins.leave hash named).vout.length = coins.vout.length := by
  simp [CCoins.leave]

@[simp] theorem CCoins.leave_nil (coins : CCoins) (hash : Uint256) :
    coins.leave hash [] = coins := by
  have hvout : (coins.leave hash []).vout = coins.vout := by
    apply List.ext_getElem?
    intro n
    simp [CCoins.getElem?_leave]
  cases coins
  exact congrArg CCoins.mk hvout

@[simp] theorem leftView_nil (view : Uint256 → Option CCoins) : leftView view [] = view := by
  funext hash
  simp [leftView]

theorem CCoins.setNull_leave (coins : CCoins) (named : List COutPoint) (p : COutPoint) :
    (coins.leave p.hash named).setNull p.n.toNat = coins.leave p.hash (p :: named) := by
  have hvout : ((coins.leave p.hash named).setNull p.n.toNat).vout =
      (coins.leave p.hash (p :: named)).vout := by
    apply List.ext_getElem?
    intro n
    rw [CCoins.getElem?_leave, CCoins.setNull, List.getElem?_set, CCoins.getElem?_leave,
      CCoins.length_leave]
    by_cases hn : p.n.toNat = n
    · subst hn
      by_cases hlt : p.n.toNat < coins.vout.length
      · simp [hlt]
      · simp [hlt]
    · simp [hn]
  generalize (coins.leave p.hash named).setNull p.n.toNat = c at hvout ⊢
  cases c
  exact congrArg CCoins.mk hvout

theorem CCoins.leave_of_ne (coins : CCoins) {hash : Uint256} (named : List COutPoint)
    {p : COutPoint} (h : hash ≠ p.hash) : coins.leave hash (p :: named) = coins.leave hash named := by
  unfold CCoins.leave
  congr 1
  apply List.ext_getElem?
  intro n
  simp [List.getElem?_mapIdx, Ne.symm h]

theorem update_leftView {view : Uint256 → Option CCoins} {named : List COutPoint} {p : COutPoint}
    {coins : CCoins} (h : leftView view named p.hash = some coins) :
    Function.update (leftView view named) p.hash (some (coins.setNull p.n.toNat)) =
      leftView view (p :: named) := by
  rcases Option.map_eq_some_iff.mp h with ⟨before, hbefore, rfl⟩
  funext hash
  by_cases hhash : hash = p.hash
  · subst hhash
    rw [Function.update_self, CCoins.setNull_leave, leftView, hbefore, Option.map_some]
  · rw [Function.update_of_ne hhash]
    unfold leftView
    cases view hash with
    | none => rfl
    | some c => rw [Option.map_some, Option.map_some, CCoins.leave_of_ne _ _ hhash]

theorem leave_perm (coins : CCoins) (hash : Uint256) {named named' : List COutPoint}
    (h : ∀ p, p ∈ named ↔ p ∈ named') : coins.leave hash named = coins.leave hash named' := by
  unfold CCoins.leave
  simp only [h]

theorem leftView_reverse (view : Uint256 → Option CCoins) (named : List COutPoint) :
    leftView view named.reverse = leftView view named := by
  funext hash
  unfold leftView
  congr 1
  funext coins
  exact leave_perm coins hash fun p => List.mem_reverse

theorem StableView.leftView {view : Uint256 → Option CCoins} (h : StableView view)
    (named : List COutPoint) : StableView (leftView view named) := by
  intro hash coins hcoins o ho
  rcases Option.map_eq_some_iff.mp hcoins with ⟨before, hbefore, rfl⟩
  rcases List.mem_iff_getElem?.mp ho with ⟨n, hn⟩
  rw [CCoins.getElem?_leave] at hn
  rcases Option.map_eq_some_iff.mp hn with ⟨o', ho', rfl⟩
  split
  · exact CTxOut.stored_null
  · exact h hash before hbefore o' (List.mem_of_getElem? ho')

end LeftView

section Loops
open CTransactionRecordManager

variable (env : Environment)

/-- An input that the first loop processes: its coins are found, its script can
be read up to a key, and its output is in range. -/
def Accepted (view : Uint256 → Option CCoins) (txIn : CTxIn) : Prop :=
  ∃ coins ∈ view txIn.prevout.hash, (findKeyPush txIn.scriptSig).isSome = true ∧
    txIn.prevout.n.toNat < coins.vout.length

instance (view : Uint256 → Option CCoins) (txIn : CTxIn) : Decidable (Accepted view txIn) :=
  inferInstanceAs (Decidable (∃ coins ∈ view txIn.prevout.hash,
    (findKeyPush txIn.scriptSig).isSome = true ∧ txIn.prevout.n.toNat < coins.vout.length))

/-- The key id that an input presents, the outpoints named before it spent. -/
def presentedKey (view : Uint256 → Option CCoins) (named : List COutPoint) (txIn : CTxIn) :
    Option CKeyID :=
  (view txIn.prevout.hash).bind fun coins =>
    retrieveInputIds env.hashes env.stray txIn 0
      (if txIn.prevout ∈ named then coins.setNull txIn.prevout.n.toNat else coins)

def presentedEntries (view : Uint256 → Option CCoins) :
    List COutPoint → List CTxIn → List (CKeyID × Uint256)
  | _, [] => []
  | named, txIn :: vin =>
    ((presentedKey env view named txIn).map fun keyId => (keyId, txIn.prevout.hash)).toList ++
      presentedEntries view (txIn.prevout :: named) vin

/-- Only the output at the position of an input decides which key it presents. -/
theorem retrieveInputIds_congr (H : HashFunctions) (stray : CCoins → UInt32 → CTxOut)
    {txIn : CTxIn} (keyId : CKeyID) {coins coins' : CCoins} {o : CTxOut}
    (h : coins.vout[txIn.prevout.n.toNat]? = some o)
    (h' : coins'.vout[txIn.prevout.n.toNat]? = some o) :
    retrieveInputIds H stray txIn keyId coins = retrieveInputIds H stray txIn keyId coins' := by
  unfold retrieveInputIds
  rw [h, h']
  rfl

theorem spendInput_of_accepted {s : CTransactionRecordManager} {view : Uint256 → Option CCoins}
    {named : List COutPoint} {txIn : CTxIn} (hview : s.coinsViewCache.view = leftView view named)
    (hacc : Accepted view txIn) :
    ∃ keyId s', presentedKey env view named txIn = some keyId ∧
      s.spendInput env txIn = (none, s') ∧
      s'.coinsViewCache.view = leftView view (txIn.prevout :: named) ∧
      s'.addressToCoinsViewCache =
        s.addressToCoinsViewCache.eraseCoins keyId txIn.prevout.hash := by
  rcases hacc with ⟨coins, hcoins, hparses, hlt⟩
  rcases Option.isSome_iff_exists.mp hparses with ⟨data, hdata⟩
  have hcoins : view txIn.prevout.hash = some coins := hcoins
  have hfound : s.coinsViewCache.view txIn.prevout.hash =
      some (coins.leave txIn.prevout.hash named) := by
    rw [hview, leftView, hcoins, Option.map_some]
  -- the coins now and the coins before differ at other positions only
  have hkey : retrieveInputIds env.hashes env.stray txIn 0 (coins.leave txIn.prevout.hash named) =
      presentedKey env view named txIn := by
    have hget := List.getElem?_eq_getElem hlt
    rw [presentedKey, hcoins, Option.bind_some]
    by_cases hnamed : txIn.prevout ∈ named
    · rw [if_pos hnamed]
      apply retrieveInputIds_congr (o := CTxOut.null)
      · rw [CCoins.getElem?_leave, hget, Option.map_some, if_pos ⟨_, hnamed, rfl, rfl⟩]
      · rw [CCoins.setNull, List.getElem?_set_self hlt]
    · rw [if_neg hnamed]
      apply retrieveInputIds_congr (o := coins.vout[txIn.prevout.n.toNat]) _ _ _ _ hget
      rw [CCoins.getElem?_leave, hget, Option.map_some, if_neg]
      rintro ⟨p, hp, hhash, hn⟩
      apply hnamed
      rcases txIn with ⟨⟨hash, n⟩, scriptSig, nSequence⟩
      rcases p with ⟨hash', n'⟩
      have hn' : n' = n := UInt32.toNat_inj.mp hn
      cases hhash
      cases hn'
      exact hp
  have hsome : (presentedKey env view named txIn).isSome = true := by
    rw [← hkey, retrieveInputIds, hdata]
    rfl
  rcases Option.isSome_iff_exists.mp hsome with ⟨keyId, hkeyId⟩
  refine ⟨keyId, (s.spendInput env txIn).2, hkeyId, ?_, ?_, ?_⟩ <;>
    simp only [spendInput, CCoinsViewCache.getCoins_fst, hfound, hkey, hkeyId,
      CCoins.length_leave, hlt, if_true]
  · rw [CCoinsViewCache.view_setCoins, CCoinsViewCache.view_getCoins, hview]
    apply update_leftView
    rw [← hview, hfound]

theorem spendInputs_of_accepted {view : Uint256 → Option CCoins} (named : List COutPoint)
    (vin : List CTxIn) (hacc : ∀ txIn ∈ vin, Accepted view txIn) {s : CTransactionRecordManager}
    (hview : s.coinsViewCache.view = leftView view named) :
    ∃ s', s.spendInputs env vin = (none, s') ∧
      s'.coinsViewCache.view = leftView view ((vin.map CTxIn.prevout).reverse ++ named) ∧
      s'.addressToCoinsViewCache =
        s.addressToCoinsViewCache.eraseAll (presentedEntries env view named vin) := by
  induction vin generalizing s named with
  | nil => exact ⟨s, rfl, hview, rfl⟩
  | cons txIn vin ih =>
    rcases spendInput_of_accepted env hview (hacc txIn List.mem_cons_self) with
      ⟨keyId, s1, hkey, hstep, hview1, hindex1⟩
    rcases ih _ (fun txIn' h => hacc txIn' (List.mem_cons_of_mem _ h)) hview1 with
      ⟨s', hrest, hview', hindex'⟩
    refine ⟨s', ?_, ?_, ?_⟩
    · rw [spendInputs_cons, hstep]
      exact hrest
    · rw [hview', List.map_cons, List.reverse_cons, List.append_assoc]
      rfl
    · rw [hindex', hindex1, presentedEntries, hkey]
      rfl

/-- An input that is not accepted, but would be in range, is refused without
effect on lookups and index. -/
theorem spendInput_of_refused {s : CTransactionRecordManager} {view : Uint256 → Option CCoins}
    {named : List COutPoint} {txIn : CTxIn} (hview : s.coinsViewCache.view = leftView view named)
    (hrange : ∀ coins ∈ view txIn.prevout.hash, txIn.prevout.n.toNat < coins.vout.length)
    (hrefused : ¬ Accepted view txIn) :
    ∃ result s', s.spendInput env txIn = (some result, s') ∧
      s'.coinsViewCache.view = s.coinsViewCache.view ∧
      s'.addressToCoinsViewCache = s.addressToCoinsViewCache := by
  cases hcoins : view txIn.prevout.hash with
  | none =>
    have hfound : s.coinsViewCache.view txIn.prevout.hash = none := by
      rw [hview, leftView, hcoins, Option.map_none]
    refine ⟨.returned false, (s.spendInput env txIn).2, ?_, ?_, ?_⟩ <;>
      simp only [spendInput, CCoinsViewCache.getCoins_fst, hfound, CCoinsViewCache.view_getCoins]
  | some coins =>
    have hfound : s.coinsViewCache.view txIn.prevout.hash =
        some (coins.leave txIn.prevout.hash named) := by
      rw [hview, leftView, hcoins, Option.map_some]
    have hdata : findKeyPush txIn.scriptSig = none := by
      by_contra hsome
      apply hrefused
      exact ⟨coins, hcoins, Option.isSome_iff_ne_none.mpr hsome, hrange coins hcoins⟩
    have hkey : retrieveInputIds env.hashes env.stray txIn 0
        (coins.leave txIn.prevout.hash named) = none := by
      rw [retrieveInputIds, hdata, Option.map_none]
    refine ⟨.returned false, (s.spendInput env txIn).2, ?_, ?_, ?_⟩ <;>
      simp only [spendInput, CCoinsViewCache.getCoins_fst, hfound, hkey,
        CCoinsViewCache.view_getCoins]

theorem spendInputs_append (s : CTransactionRecordManager) (first second : List CTxIn) :
    s.spendInputs env (first ++ second) = match s.spendInputs env first with
      | (none, s') => s'.spendInputs env second
      | (some result, s') => (some result, s') := by
  induction first generalizing s with
  | nil => rfl
  | cons txIn first ih =>
    rw [List.cons_append, spendInputs_cons, spendInputs_cons]
    rcases s.spendInput env txIn with ⟨_ | result, s'⟩
    · exact ih s'
    · rfl

/-- The key ids under which a new transaction is indexed, output by output; an
output that pays nobody counts for the key id 0. -/
def indexKeys (H : HashFunctions) (tx : CTransaction) : List CKeyID :=
  (CCoins.ofTransaction tx).vout.map fun o => (payee H o).getD 0

/-- A transaction that the second loop processes to its end. -/
def Creatable (H : HashFunctions) (tx : CTransaction) : Prop :=
  (∀ o ∈ (CCoins.ofTransaction tx).vout, o.scriptPubKey.parses = true) ∧
    (getTransactionInputs H tx.vin).isSome = true

instance (H : HashFunctions) (tx : CTransaction) : Decidable (Creatable H tx) :=
  inferInstanceAs (Decidable ((∀ o ∈ (CCoins.ofTransaction tx).vout,
    o.scriptPubKey.parses = true) ∧ (getTransactionInputs H tx.vin).isSome = true))

/-- The view after the coins of new transactions were set. -/
def createdView (H : HashFunctions) (txs : List CTransaction) (view : Uint256 → Option CCoins) :
    Uint256 → Option CCoins :=
  txs.foldl (fun v tx => Function.update v (tx.getHash H) (some (CCoins.ofTransaction tx))) view

def newEntries (H : HashFunctions) (txs : List CTransaction) (keyId : CKeyID) : List Uint256 :=
  txs.flatMap fun tx =>
    ((indexKeys H tx).filter fun k => k = keyId).map fun _ => tx.getHash H

def collectAll (H : HashFunctions) (txs : List CTransaction) (index : CAddressToCoinsViewCache) :
    CAddressToCoinsViewCache where
  addressToCoins := ⟨index.addressToCoins.amounts, index.addressToCoins.coins,
    txs.foldl (fun inputs tx =>
      Function.update inputs (tx.getHash H) (getTransactionInputs H tx.vin))
        index.addressToCoins.transactionInputs⟩
  cacheCoins := index.cacheCoins
  insertCacheCoins keyId := index.insertCacheCoins keyId ++ newEntries H txs keyId

theorem mem_newEntries {H : HashFunctions} {txs : List CTransaction} {keyId : CKeyID}
    {hash : Uint256} :
    hash ∈ newEntries H txs keyId ↔ ∃ tx ∈ txs, tx.getHash H = hash ∧ keyId ∈ indexKeys H tx := by
  simp only [newEntries, List.mem_flatMap, List.mem_map, List.mem_filter, decide_eq_true_eq]
  constructor
  · rintro ⟨tx, htx, k, ⟨hkey, rfl⟩, hhash⟩
    exact ⟨tx, htx, hhash, hkey⟩
  · rintro ⟨tx, htx, hhash, hkey⟩
    exact ⟨tx, htx, keyId, ⟨hkey, rfl⟩, hhash⟩

theorem mapM_retrieveKeyIds (H : HashFunctions) (vout : List CTxOut)
    (h : ∀ o ∈ vout, o.scriptPubKey.parses = true) :
    vout.mapM (fun o => retrieveKeyIds H o 0 pubkeyOrHash) =
      some (vout.map fun o => (payee H o).getD 0) := by
  induction vout with
  | nil => rfl
  | cons o vout ih =>
    have hfirst := retrieveKeyIds_eq H o 0
    rw [if_pos (h o List.mem_cons_self)] at hfirst
    rw [List.mapM_cons, hfirst, ih fun o' ho' => h o' (List.mem_cons_of_mem _ ho')]
    rfl

theorem foldl_setCoins (keyIds : List CKeyID) (hash : Uint256) (index : CAddressToCoinsViewCache) :
    keyIds.foldl (fun index k => index.setCoins k hash) index =
      { index with insertCacheCoins := fun keyId =>
          index.insertCacheCoins keyId ++ (keyIds.filter fun k => k = keyId).map fun _ => hash } := by
  induction keyIds generalizing index with
  | nil => simp
  | cons k keyIds ih =>
    rw [List.foldl_cons, ih, CAddressToCoinsViewCache.setCoins]
    congr 1
    funext keyId
    by_cases hk : k = keyId
    · subst hk
      simp
    · simp [hk, Ne.symm hk]

theorem createCoins_of_creatable (s : CTransactionRecordManager) {tx : CTransaction}
    (htx : Creatable env.hashes tx) :
    ∃ s', s.createCoins env tx = (none, s') ∧
      s'.coinsViewCache.view = createdView env.hashes [tx] s.coinsViewCache.view ∧
      s'.addressToCoinsViewCache = collectAll env.hashes [tx] s.addressToCoinsViewCache := by
  rcases htx with ⟨hparses, hinputs⟩
  rcases Option.isSome_iff_exists.mp hinputs with ⟨inputs, hinputs⟩
  have hkeys : (CCoins.ofTransaction tx).vout.mapM
      (fun o => retrieveKeyIds env.hashes o 0 pubkeyOrHash) = some (indexKeys env.hashes tx) :=
    mapM_retrieveKeyIds env.hashes _ hparses
  refine ⟨(s.createCoins env tx).2, ?_⟩
  simp only [createCoins, hkeys, hinputs, true_and]
  refine ⟨CCoinsViewCache.view_setCoins _ _ _, ?_⟩
  rw [foldl_setCoins]
  simp [collectAll, newEntries, hinputs, CAddressToCoinsViewCache.setTransactionInputs,
    CAddressToCoins.setTransactionInputs]

theorem createAllCoins_of_creatable (txs : List CTransaction)
    (htxs : ∀ tx ∈ txs, Creatable env.hashes tx) (s : CTransactionRecordManager) :
    ∃ s', s.createAllCoins env txs = (none, s') ∧
      s'.coinsViewCache.view = createdView env.hashes txs s.coinsViewCache.view ∧
      s'.addressToCoinsViewCache = collectAll env.hashes txs s.addressToCoinsViewCache := by
  induction txs generalizing s with
  | nil =>
    refine ⟨s, rfl, rfl, ?_⟩
    simp [collectAll, newEntries]
  | cons tx txs ih =>
    rcases createCoins_of_creatable env s (htxs tx List.mem_cons_self) with
      ⟨s1, hstep, hview1, hindex1⟩
    rcases ih (fun tx' h => htxs tx' (List.mem_cons_of_mem _ h)) s1 with
      ⟨s', hrest, hview', hindex'⟩
    refine ⟨s', ?_, ?_, ?_⟩
    · rw [createAllCoins_cons, hstep]
      exact hrest
    · rw [hview', hview1]
      rfl
    · rw [hindex', hindex1]
      simp [collectAll, newEntries]

end Loops

end Dims
