import Dims.Core
import Mathlib.Logic.Function.Basic

/-!
# Where transactions are stored

The support database maps the hash of a transaction to its place in the segment
files, with one cache for what has been read and one for what is to be written.
-/

namespace Dims

universe u v

section Insert

variable {κ : Type u} {α : Type v} [DecidableEq κ]

/-- `insert` of a map: an entry that is there stays. -/
def insertNew (m : κ → Option α) (k : κ) (a : α) : κ → Option α :=
  Function.update m k ((m k).or (some a))

variable {m : κ → Option α} {k k' : κ} {a b : α}

@[simp] theorem insertNew_self : insertNew m k a k = (m k).or (some a) := Function.update_self ..

theorem insertNew_of_ne (h : k' ≠ k) : insertNew m k a k' = m k' := Function.update_of_ne h ..

theorem insertNew_of_some (h : m k' = some b) : insertNew m k a k' = some b := by
  by_cases hkey : k' = k
  · subst hkey
    rw [insertNew_self, h, Option.some_or]
  · rw [insertNew_of_ne hkey, h]

theorem insertNew_of_none (h : m k = none) : insertNew m k a k = some a := by
  rw [insertNew_self, h, Option.none_or]

theorem isSome_insertNew : (insertNew m k a k').isSome ↔ k' = k ∨ (m k').isSome := by
  by_cases hkey : k' = k
  · subst hkey
    simp [insertNew_self]
  · simp [insertNew_of_ne hkey, hkey]

end Insert

structure CSupportTransactionsDatabase where
  transactionToLocationCache : Uint256 → Option UInt64
  transactionToLocationCacheInsert : Uint256 → Option UInt64
  transactionSpecificData : Uint256 → Option UInt64

namespace CSupportTransactionsDatabase

def empty : CSupportTransactionsDatabase := ⟨fun _ => none, fun _ => none, fun _ => none⟩

/-- What the cache holds is overwritten by what the database holds, and without that there
is no success. -/
def getTransactionLocation (s : CSupportTransactionsDatabase) (hash : Uint256) :
    Option UInt64 × CSupportTransactionsDatabase :=
  match s.transactionSpecificData hash with
  | none => (none, s)
  | some location =>
    (some location, { s with
      transactionToLocationCache := insertNew s.transactionToLocationCache hash location })

def setTransactionLocation (s : CSupportTransactionsDatabase) (hash : Uint256) (location : UInt64) :
    CSupportTransactionsDatabase :=
  { s with
    transactionToLocationCacheInsert :=
      insertNew s.transactionToLocationCacheInsert hash location }

/-- The database is left alone if the cache has the entry. -/
def eraseTransactionLocation (s : CSupportTransactionsDatabase) (hash : Uint256) :
    CSupportTransactionsDatabase :=
  if (s.transactionToLocationCache hash).isSome then
    { s with
      transactionToLocationCache := Function.update s.transactionToLocationCache hash none }
  else
    { s with transactionSpecificData := Function.update s.transactionSpecificData hash none }

def flush (s : CSupportTransactionsDatabase) : CSupportTransactionsDatabase :=
  { s with
    transactionToLocationCacheInsert := fun _ => none
    transactionSpecificData := fun hash =>
      (s.transactionToLocationCacheInsert hash).or (s.transactionSpecificData hash) }

variable {s : CSupportTransactionsDatabase} {hash : Uint256}

@[simp] theorem getTransactionLocation_fst :
    (s.getTransactionLocation hash).1 = s.transactionSpecificData hash := by
  unfold getTransactionLocation
  cases h : s.transactionSpecificData hash <;> rfl

@[simp] theorem transactionSpecificData_getTransactionLocation :
    (s.getTransactionLocation hash).2.transactionSpecificData = s.transactionSpecificData := by
  unfold getTransactionLocation
  cases s.transactionSpecificData hash <;> rfl

@[simp] theorem cacheInsert_getTransactionLocation :
    (s.getTransactionLocation hash).2.transactionToLocationCacheInsert =
      s.transactionToLocationCacheInsert := by
  unfold getTransactionLocation
  cases s.transactionSpecificData hash <;> rfl

@[simp] theorem cacheInsert_eraseTransactionLocation :
    (s.eraseTransactionLocation hash).transactionToLocationCacheInsert =
      s.transactionToLocationCacheInsert := by
  unfold eraseTransactionLocation
  split <;> rfl

theorem eq_of_eraseTransactionLocation {hash' : Uint256} {location : UInt64}
    (h : (s.eraseTransactionLocation hash).transactionSpecificData hash' = some location) :
    s.transactionSpecificData hash' = some location := by
  unfold eraseTransactionLocation at h
  split at h
  · exact h
  · change Function.update s.transactionSpecificData hash none hash' = _ at h
    by_cases hkey : hash' = hash
    · rw [hkey, Function.update_self] at h
      cases h
    · rwa [Function.update_of_ne hkey] at h

end CSupportTransactionsDatabase

end Dims
