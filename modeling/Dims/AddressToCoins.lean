import Dims.Core
import Mathlib.Logic.Function.Basic

/-!
# The address index

For each key id and each bucket of transaction hashes the database keeps a
number of slots and in each slot a hash or nothing. A cache of hash lists stands
over it; new entries are collected and enter the database and the cache with the
next flush. The slot `id` of a key has the database key `(key << 96) + id`; slot numbers
have 64 bits, so no two slots share one.
-/

namespace Dims

/-- `CAddressToCoins`: the slots by bucket and key, and the input keys of each
transaction. -/
structure CAddressToCoins where
  amounts : UInt8 → CKeyID → Option ℕ
  coins : UInt8 → CKeyID → ℕ → Option Uint256
  transactionInputs : Uint256 → Option (List CKeyID)

def getBucket (coin : Uint256) : UInt8 := UInt8.ofNat (getLow64 coin)

namespace CAddressToCoins

def empty : CAddressToCoins := ⟨fun _ _ => none, fun _ _ _ => none, fun _ => none⟩

/-- The number of slots of a key's bucket, none where nothing is stored. -/
def storedAmount (db : CAddressToCoins) (keyId : CKeyID) (bucket : UInt8) : ℕ :=
  (db.amounts bucket keyId).getD 0

def bucketCoins (db : CAddressToCoins) (keyId : CKeyID) (bucket : UInt8) : List Uint256 :=
  (List.range (db.storedAmount keyId bucket)).filterMap (db.coins bucket keyId)

def getCoins (db : CAddressToCoins) (keyId : CKeyID) : List Uint256 :=
  (List.range 256).flatMap fun bucket => db.bucketCoins keyId (UInt8.ofNat bucket)

def getCoinsAmount (db : CAddressToCoins) (keyId : CKeyID) : ℕ :=
  ((List.range 256).map fun bucket =>
    ((List.range (db.storedAmount keyId (UInt8.ofNat bucket))).filter fun id =>
      (db.coins (UInt8.ofNat bucket) keyId id).isSome).length).sum

def findSlot (db : CAddressToCoins) (keyId : CKeyID) (coin : Uint256) : Option ℕ :=
  (List.range (db.storedAmount keyId (getBucket coin))).find? fun id =>
    db.coins (getBucket coin) keyId id = some coin

/-- `eraseCoin` empties the first slot that holds the coin. -/
def eraseCoin (db : CAddressToCoins) (keyId : CKeyID) (coin : Uint256) : CAddressToCoins :=
  match db.findSlot keyId coin with
  | none => db
  | some id =>
    { db with coins := fun b k i =>
        if b = getBucket coin ∧ k = keyId ∧ i = id then none else db.coins b k i }

end CAddressToCoins

/-- What `batchWrite` keeps for one bucket while it goes through the coins of a
key: the amount it has looked up, the slots it has filled and its entries of the
two batches. A later write of a batch replaces an earlier one; `amount` and
`recentlyIncluded` keep what was inserted first. -/
structure BucketBatch where
  amount : Option ℕ
  recentlyIncluded : ℕ → Option Uint256
  amountBatch : Option ℕ
  coinsBatch : ℕ → Option Uint256

namespace BucketBatch

def empty : BucketBatch := ⟨none, fun _ => none, none, fun _ => none⟩

/-- The search through slots for a coin: no value where the coin is already
there, else the last slot found empty. -/
def searchSlots (recentlyIncluded slots : ℕ → Option Uint256) (coin : Uint256) :
    List ℕ → Option ℕ → Option (Option ℕ)
  | [], empty => some empty
  | i :: ids, empty =>
    match recentlyIncluded i with
    | some recent =>
      if recent = coin then none else searchSlots recentlyIncluded slots coin ids empty
    | none =>
      match slots i with
      | none => searchSlots recentlyIncluded slots coin ids (some i)
      | some present =>
        if present = coin then none else searchSlots recentlyIncluded slots coin ids empty

/-- One coin of the loop in `batchWrite`, over the slots and the amount that the
database has for its bucket. -/
def includeCoin (slots : ℕ → Option Uint256) (stored : ℕ) (batch : BucketBatch)
    (coin : Uint256) : BucketBatch :=
  let amount := batch.amount.getD stored
  match searchSlots batch.recentlyIncluded slots coin (List.range amount) none with
  | none => batch
  | some found =>
    let slot := found.getD amount
    let amount' := if found.isSome then amount else amount + 1
    { amount := some (batch.amount.getD amount')
      recentlyIncluded := Function.update batch.recentlyIncluded slot
        (some ((batch.recentlyIncluded slot).getD coin))
      amountBatch := some amount'
      coinsBatch := Function.update batch.coinsBatch slot (some coin) }

end BucketBatch

namespace CAddressToCoins

def writeKey (db : CAddressToCoins) (keyId : CKeyID) (coins : List Uint256) :
    UInt8 → BucketBatch :=
  coins.foldl (fun batch coin => Function.update batch (getBucket coin)
    ((batch (getBucket coin)).includeCoin (db.coins (getBucket coin) keyId)
      (db.storedAmount keyId (getBucket coin)) coin)) fun _ => .empty

/-- `batchWrite` of a multimap from keys to coins. -/
def batchWrite (db : CAddressToCoins) (mapCoins : CKeyID → List Uint256) : CAddressToCoins where
  amounts bucket keyId := (db.writeKey keyId (mapCoins keyId) bucket).amountBatch.or
    (db.amounts bucket keyId)
  coins bucket keyId id := ((db.writeKey keyId (mapCoins keyId) bucket).coinsBatch id).or
    (db.coins bucket keyId id)
  transactionInputs := db.transactionInputs

def setTransactionInputs (db : CAddressToCoins) (hash : Uint256) (inputs : List CKeyID) :
    CAddressToCoins :=
  { db with transactionInputs := Function.update db.transactionInputs hash (some inputs) }

/-- The database is destroyed and opened again. -/
def clearView (_ : CAddressToCoins) : CAddressToCoins := empty

end CAddressToCoins

/-- `CAddressToCoinsViewCache`: both multimaps list the entries of a key in the
order of their insertion. -/
structure CAddressToCoinsViewCache where
  addressToCoins : CAddressToCoins
  cacheCoins : CKeyID → List Uint256
  insertCacheCoins : CKeyID → List Uint256

namespace CAddressToCoinsViewCache

def empty : CAddressToCoinsViewCache := ⟨.empty, fun _ => [], fun _ => []⟩

/-- `fetchCoins`: a key without cached entries is loaded. No value where the
assertion fails that a cached key has as many entries as the database. -/
def fetchCoins (s : CAddressToCoinsViewCache) (keyId : CKeyID) :
    Option CAddressToCoinsViewCache :=
  if s.cacheCoins keyId ≠ [] then
    if (s.cacheCoins keyId).length = s.addressToCoins.getCoinsAmount keyId then some s else none
  else if s.addressToCoins.getCoins keyId = [] then some s
  else if (s.addressToCoins.getCoins keyId).length = s.addressToCoins.getCoinsAmount keyId then
    some { s with cacheCoins :=
      Function.update s.cacheCoins keyId (s.addressToCoins.getCoins keyId) }
  else none

def getCoins (s : CAddressToCoinsViewCache) (keyId : CKeyID) :
    Option (List Uint256 × CAddressToCoinsViewCache) :=
  (s.fetchCoins keyId).map fun s' => (s'.cacheCoins keyId, s')

def setCoins (s : CAddressToCoinsViewCache) (keyId : CKeyID) (coin : Uint256) :
    CAddressToCoinsViewCache :=
  { s with insertCacheCoins :=
      Function.update s.insertCacheCoins keyId (s.insertCacheCoins keyId ++ [coin]) }

def eraseCoins (s : CAddressToCoinsViewCache) (keyId : CKeyID) (coin : Uint256) :
    CAddressToCoinsViewCache :=
  { s with
    cacheCoins := Function.update s.cacheCoins keyId ((s.cacheCoins keyId).erase coin)
    addressToCoins := s.addressToCoins.eraseCoin keyId coin }

/-- The cached entries of a key after the collected ones that are new to it. -/
def insertNew (cached : List Uint256) : List Uint256 → List Uint256
  | [] => cached
  | coin :: coins => insertNew (if coin ∈ cached then cached else cached ++ [coin]) coins

def flush (s : CAddressToCoinsViewCache) : CAddressToCoinsViewCache where
  addressToCoins := s.addressToCoins.batchWrite s.insertCacheCoins
  cacheCoins keyId := insertNew (s.cacheCoins keyId) (s.insertCacheCoins keyId)
  insertCacheCoins _ := []

def setTransactionInputs (s : CAddressToCoinsViewCache) (hash : Uint256)
    (inputs : List CKeyID) : CAddressToCoinsViewCache :=
  { s with addressToCoins := s.addressToCoins.setTransactionInputs hash inputs }

end CAddressToCoinsViewCache

end Dims
