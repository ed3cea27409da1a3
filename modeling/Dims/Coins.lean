import Dims.Script
import Dims.CompressAmount
import Mathlib.Data.List.DropRight

/-!
# The coins view

`CCoins` holds the outputs of a transaction, the spent ones null. The view is a
cache of coins over a database; a lookup copies the database record into the
cache, and a flush writes every cached record back. A record is written without
its null outputs and with compressed amounts, so what is read back is the record
as `stored` describes it.
-/

namespace Dims

structure CCoins where
  vout : List CTxOut
  deriving DecidableEq, Repr

namespace CTxOut

/-- The amount read back after it was written. -/
def storedAmount (nValue : Int64) : Int64 :=
  (decompressAmount (compressAmount nValue.toUInt64)).toInt64

def stored (o : CTxOut) : CTxOut :=
  if o.isNull then null else { o with nValue := storedAmount o.nValue }

@[simp] theorem stored_null : null.stored = null := by simp [stored]

/-- The output itself, if it is not null. -/
def ifUnspent (o : CTxOut) : Option CTxOut := if o.isNull then none else some o

/-- What an unspent output becomes when its record is written and read back. -/
def rewritten (o : CTxOut) : Option CTxOut := o.stored.ifUnspent

@[simp] theorem ifUnspent_eq_some {o o' : CTxOut} :
    o.ifUnspent = some o' ↔ o = o' ∧ o.isNull = false := by
  unfold ifUnspent
  split <;> simp_all

end CTxOut

namespace CCoins

def isAvailable (coins : CCoins) (nPos : ℕ) : Bool :=
  match coins.vout[nPos]? with
  | some o => !o.isNull
  | none => false

def isPruned (coins : CCoins) : Bool := coins.vout.all CTxOut.isNull

def cleanup (coins : CCoins) : CCoins := ⟨coins.vout.rdropWhile CTxOut.isNull⟩

def clearUnspendable (coins : CCoins) : CCoins :=
  cleanup ⟨coins.vout.map fun o => if o.scriptPubKey.isUnspendable then o.setNull else o⟩

def ofTransaction (tx : CTransaction) : CCoins := clearUnspendable ⟨tx.vout⟩

def setNull (coins : CCoins) (nPos : ℕ) : CCoins := ⟨coins.vout.set nPos CTxOut.null⟩

/-- The record read back after the coins were written; pruned coins are erased. -/
def stored (coins : CCoins) : Option CCoins :=
  if coins.isPruned then none else some (cleanup ⟨coins.vout.map CTxOut.stored⟩)

def unspent (coins : CCoins) (nPos : ℕ) : Option CTxOut :=
  coins.vout[nPos]?.bind CTxOut.ifUnspent

theorem isAvailable_eq (coins : CCoins) (n : ℕ) :
    coins.isAvailable n = (coins.unspent n).isSome := by
  unfold isAvailable unspent
  cases coins.vout[n]? with
  | none => rfl
  | some o => cases h : o.isNull <;> simp [CTxOut.ifUnspent, h]

theorem unspent_eq_some {coins : CCoins} {n : ℕ} {o : CTxOut} :
    coins.unspent n = some o ↔ coins.vout[n]? = some o ∧ o.isNull = false := by
  constructor
  · intro h
    rcases Option.bind_eq_some_iff.mp h with ⟨o', hget, ho'⟩
    rcases CTxOut.ifUnspent_eq_some.mp ho' with ⟨rfl, hnull⟩
    exact ⟨hget, hnull⟩
  · rintro ⟨hget, hnull⟩
    exact Option.bind_eq_some_iff.mpr ⟨o, hget, CTxOut.ifUnspent_eq_some.mpr ⟨rfl, hnull⟩⟩

theorem isPruned_iff (coins : CCoins) :
    coins.isPruned = true ↔ ∀ n, coins.unspent n = none := by
  constructor
  · intro hpruned n
    by_contra hne
    rcases Option.ne_none_iff_exists'.mp hne with ⟨o, ho⟩
    rcases unspent_eq_some.mp ho with ⟨hget, hnull⟩
    have hmem := List.mem_of_getElem? hget
    rw [List.all_eq_true.mp hpruned o hmem] at hnull
    cases hnull
  · intro hall
    apply List.all_eq_true.mpr
    intro o ho
    rcases List.mem_iff_getElem?.mp ho with ⟨n, hget⟩
    by_contra hnull
    have hsome := unspent_eq_some.mpr ⟨hget, by simpa using hnull⟩
    rw [hall n] at hsome
    cases hsome

@[simp] theorem unspent_cleanup (coins : CCoins) (n : ℕ) :
    coins.cleanup.unspent n = coins.unspent n := by
  have hsplit : coins.vout = coins.cleanup.vout ++ coins.vout.rtakeWhile CTxOut.isNull :=
    List.rdropWhile_append_rtakeWhile.symm
  unfold unspent
  rw [hsplit]
  by_cases hn : n < coins.cleanup.vout.length
  · rw [List.getElem?_append_left hn]
  · rw [List.getElem?_append_right (by omega), List.getElem?_eq_none (by omega)]
    cases htail : (coins.vout.rtakeWhile CTxOut.isNull)[n - coins.cleanup.vout.length]? with
    | none => rfl
    | some o =>
      have hnull := List.mem_rtakeWhile_imp (List.mem_of_getElem? htail)
      simp [CTxOut.ifUnspent, hnull]

theorem unspent_setNull (coins : CCoins) (m n : ℕ) :
    (coins.setNull m).unspent n = if m = n then none else coins.unspent n := by
  unfold unspent setNull
  rw [List.getElem?_set]
  by_cases hmn : m = n
  · subst hmn
    by_cases hlt : m < coins.vout.length
    · simp [hlt, CTxOut.ifUnspent]
    · simp [hlt]
  · simp [hmn]

theorem unspent_stored {coins coins' : CCoins} (h : coins.stored = some coins') (n : ℕ) :
    coins'.unspent n = (coins.unspent n).bind CTxOut.rewritten := by
  unfold stored at h
  split at h
  · cases h
  · cases h
    rw [unspent_cleanup]
    unfold unspent
    simp only [List.getElem?_map]
    cases coins.vout[n]? with
    | none => rfl
    | some o =>
      cases hnull : o.isNull with
      | true => simp [CTxOut.stored, CTxOut.ifUnspent, hnull]
      | false => simp [CTxOut.rewritten, CTxOut.ifUnspent, hnull]

theorem unspent_of_stored_none {coins : CCoins} (h : coins.stored = none) (n : ℕ) :
    coins.unspent n = none := by
  unfold stored at h
  split at h
  case isTrue hpruned => exact (isPruned_iff coins).mp hpruned n
  case isFalse => cases h

end CCoins

/-- `CCoinsViewCache` over a `CCoinsViewDB`. -/
structure CCoinsViewCache where
  cacheCoins : Uint256 → Option CCoins
  base : Uint256 → Option CCoins

namespace CCoinsViewCache

def empty : CCoinsViewCache := ⟨fun _ => none, fun _ => none⟩

def view (s : CCoinsViewCache) (txid : Uint256) : Option CCoins :=
  (s.cacheCoins txid).or (s.base txid)

def setCoins (s : CCoinsViewCache) (txid : Uint256) (coins : CCoins) : CCoinsViewCache :=
  { s with cacheCoins := Function.update s.cacheCoins txid (some coins) }

/-- `GetCoins`: a record found in the database is copied into the cache. -/
def getCoins (s : CCoinsViewCache) (txid : Uint256) : Option CCoins × CCoinsViewCache :=
  match s.cacheCoins txid with
  | some coins => (some coins, s)
  | none =>
    match s.base txid with
    | some coins => (some coins, s.setCoins txid coins)
    | none => (none, s)

/-- `HaveCoins`, whose `FetchCoins` copies like `GetCoins`. -/
def haveCoins (s : CCoinsViewCache) (txid : Uint256) : Bool × CCoinsViewCache :=
  ((s.getCoins txid).1.isSome, (s.getCoins txid).2)

/-- The first loop of `HaveInputs`. -/
def haveAllCoins (s : CCoinsViewCache) : List CTxIn → Bool × CCoinsViewCache
  | [] => (true, s)
  | txIn :: vin =>
    let found := s.haveCoins txIn.prevout.hash
    if found.1 then haveAllCoins found.2 vin else (false, found.2)

def haveInputs (s : CCoinsViewCache) (tx : CTransaction) : Bool × CCoinsViewCache :=
  if tx.isCoinBase then (true, s)
  else
    let found := s.haveAllCoins tx.vin
    if found.1 then
      (tx.vin.all fun txIn => match found.2.view txIn.prevout.hash with
        | some coins => coins.isAvailable txIn.prevout.n.toNat
        | none => false, found.2)
    else (false, found.2)

/-- `BatchWrite` of the cache into the database, which empties the cache. -/
def flush (s : CCoinsViewCache) : CCoinsViewCache where
  cacheCoins _ := none
  base txid := match s.cacheCoins txid with
    | some coins => coins.stored
    | none => s.base txid

def unspent (s : CCoinsViewCache) (o : COutPoint) : Option CTxOut :=
  (s.view o.hash).bind fun coins => coins.unspent o.n.toNat

theorem view_setCoins (s : CCoinsViewCache) (txid : Uint256) (coins : CCoins) :
    (s.setCoins txid coins).view = Function.update s.view txid (some coins) := by
  funext h
  by_cases hh : h = txid
  · subst hh
    simp [view, setCoins]
  · simp [view, setCoins, hh]

@[simp] theorem getCoins_fst (s : CCoinsViewCache) (txid : Uint256) :
    (s.getCoins txid).1 = s.view txid := by
  unfold getCoins view
  cases s.cacheCoins txid with
  | some coins => rfl
  | none => cases s.base txid <;> rfl

@[simp] theorem view_getCoins (s : CCoinsViewCache) (txid : Uint256) :
    (s.getCoins txid).2.view = s.view := by
  unfold getCoins
  cases hcache : s.cacheCoins txid with
  | some coins => rfl
  | none =>
    cases hbase : s.base txid with
    | none => rfl
    | some coins =>
      have hview : s.view txid = some coins := by simp [view, hcache, hbase]
      simp only [view_setCoins]
      rw [← hview, Function.update_eq_self]

@[simp] theorem haveCoins_fst (s : CCoinsViewCache) (txid : Uint256) :
    (s.haveCoins txid).1 = (s.view txid).isSome := by
  rw [haveCoins, getCoins_fst]

@[simp] theorem view_haveCoins (s : CCoinsViewCache) (txid : Uint256) :
    (s.haveCoins txid).2.view = s.view := view_getCoins s txid

@[simp] theorem view_haveAllCoins (s : CCoinsViewCache) (vin : List CTxIn) :
    (s.haveAllCoins vin).2.view = s.view := by
  induction vin generalizing s with
  | nil => rfl
  | cons txIn vin ih =>
    simp only [haveAllCoins]
    split
    · rw [ih, view_haveCoins]
    · exact view_haveCoins s _

theorem haveAllCoins_fst (s : CCoinsViewCache) (vin : List CTxIn) :
    (s.haveAllCoins vin).1 = vin.all fun txIn => (s.view txIn.prevout.hash).isSome := by
  induction vin generalizing s with
  | nil => rfl
  | cons txIn vin ih =>
    simp only [haveAllCoins, List.all_cons]
    split
    case isTrue h =>
      rw [haveCoins_fst] at h
      rw [ih, view_haveCoins, h, Bool.true_and]
    case isFalse h =>
      rw [haveCoins_fst, Bool.not_eq_true] at h
      rw [h, Bool.false_and]

@[simp] theorem view_haveInputs (s : CCoinsViewCache) (tx : CTransaction) :
    (s.haveInputs tx).2.view = s.view := by
  unfold haveInputs
  split
  · rfl
  · dsimp only
    split <;> exact view_haveAllCoins s tx.vin

theorem haveInputs_fst (s : CCoinsViewCache) (tx : CTransaction) (h : tx.isCoinBase = false) :
    (s.haveInputs tx).1 = true ↔ ∀ o ∈ tx.prevouts, (s.unspent o).isSome = true := by
  have hall : (s.haveInputs tx).1 = tx.vin.all fun txIn => (s.unspent txIn.prevout).isSome := by
    unfold haveInputs
    rw [if_neg (by simp [h])]
    dsimp only
    split
    case isTrue hfound =>
      apply List.all_congr rfl
      intro txIn
      rw [view_haveAllCoins]
      unfold unspent
      cases s.view txIn.prevout.hash with
      | none => rfl
      | some coins => exact coins.isAvailable_eq _
    case isFalse hfound =>
      rw [haveAllCoins_fst] at hfound
      symm
      rw [Bool.eq_false_iff]
      intro hunspent
      apply hfound
      apply List.all_eq_true.mpr
      intro txIn htxIn
      have hin := List.all_eq_true.mp hunspent txIn htxIn
      unfold unspent at hin
      cases hview : s.view txIn.prevout.hash with
      | none => simp [hview] at hin
      | some coins => rfl
  rw [hall, List.all_eq_true, CTransaction.prevouts]
  simp

/-- After a flush each record is as it was found before or as it is read back. -/
theorem view_flush (s : CCoinsViewCache) (txid : Uint256) :
    s.flush.view txid = match s.cacheCoins txid with
      | some coins => coins.stored
      | none => s.view txid := by
  cases hcache : s.cacheCoins txid with
  | some coins => simp [view, flush, hcache]
  | none => simp [view, flush, hcache]

theorem unspent_flush (s : CCoinsViewCache) (o : COutPoint) :
    s.flush.unspent o = s.unspent o ∨ s.flush.unspent o = (s.unspent o).bind CTxOut.rewritten := by
  unfold unspent
  rw [view_flush]
  cases hcache : s.cacheCoins o.hash with
  | none => exact .inl rfl
  | some coins =>
    have hview : s.view o.hash = some coins := by simp [view, hcache]
    rw [hview, Option.bind_some]
    right
    dsimp only
    cases hstored : coins.stored with
    | none => rw [CCoins.unspent_of_stored_none hstored]; rfl
    | some coins' => rw [Option.bind_some, CCoins.unspent_stored hstored]

end CCoinsViewCache

end Dims
