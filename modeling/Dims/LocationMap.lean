import Dims.SupportTransactionsDatabase
import Dims.BufferedMap
import Dims.GuardedRun

/-!
# The support database as a map

`setTransactionLocation` collects insertions for the next `flush`. The database is a map
with this buffer as long as no hash is set twice with different locations between two
flushes, and none is erased that waits in the buffer or has been read into the cache.
-/

namespace Dims

/-- The calls of `CSupportTransactionsDatabase`, by hash. -/
abbrev LocationCall := BufferedMap.Call Uint256 UInt64

namespace CSupportTransactionsDatabase

/-- The database as it is opened. -/
def ofContent (content : Uint256 → Option UInt64) : CSupportTransactionsDatabase :=
  ⟨fun _ => none, fun _ => none, content⟩

def call (s : CSupportTransactionsDatabase) : LocationCall → CSupportTransactionsDatabase
  | .set hash location => s.setTransactionLocation hash location
  | .erase hash => s.eraseTransactionLocation hash
  | .flush => s.flush
  | .read hash => (s.getTransactionLocation hash).2

/-- The calls that the layers agree on. -/
def Agreeing (s : CSupportTransactionsDatabase) : LocationCall → Prop
  | .set hash location => s.transactionToLocationCacheInsert hash = none ∨
      s.transactionToLocationCacheInsert hash = some location
  | .erase hash => s.transactionToLocationCacheInsert hash = none ∧
      (s.transactionToLocationCache hash = none ∨ s.transactionSpecificData hash = none)
  | .flush => True
  | .read _ => True

/-- The layers are those of a map with a buffer. -/
structure Refines (s : CSupportTransactionsDatabase) (m : BufferedMap Uint256 UInt64) : Prop where
  effective : s.transactionSpecificData = m.effective
  pending : s.transactionToLocationCacheInsert = m.pending

variable {s : CSupportTransactionsDatabase} {m : BufferedMap Uint256 UInt64}

theorem insertNew_eq_update {map : Uint256 → Option UInt64} {hash : Uint256} {location : UInt64}
    (h : map hash = none ∨ map hash = some location) :
    insertNew map hash location = Function.update map hash (some location) := by
  obtain hnone | hsome := h
  · rw [insertNew, hnone, Option.none_or]
  · rw [insertNew, hsome, Option.some_or]

theorem Refines.call (h : s.Refines m) {call : LocationCall} (hagree : s.Agreeing call) :
    (s.call call).Refines (m.step call) := by
  obtain ⟨heffective, hpending⟩ := h
  cases call with
  | set hash location =>
    refine ⟨heffective, ?_⟩
    change insertNew s.transactionToLocationCacheInsert hash location = _
    rw [insertNew_eq_update hagree, hpending]
    rfl
  | erase hash =>
    obtain ⟨hwaiting, hread⟩ := hagree
    have hpending' : m.pending = Function.update m.pending hash none := by
      rw [← hpending, ← hwaiting, Function.update_eq_self]
    refine ⟨?_, ?_⟩
    · change (s.eraseTransactionLocation hash).transactionSpecificData = _
      unfold eraseTransactionLocation
      split
      case isTrue hcached =>
        -- the hash is cached, so the database does not have it
        obtain hnone | hnone := hread
        · rw [hnone] at hcached
          cases hcached
        · change s.transactionSpecificData = Function.update m.effective hash none
          rw [← heffective, ← hnone, Function.update_eq_self]
      case isFalse =>
        change Function.update s.transactionSpecificData hash none = _
        rw [heffective]
        rfl
    · change (s.eraseTransactionLocation hash).transactionToLocationCacheInsert = _
      rw [cacheInsert_eraseTransactionLocation, hpending]
      exact hpending'
  | flush =>
    refine ⟨?_, rfl⟩
    funext hash
    change (s.transactionToLocationCacheInsert hash).or (s.transactionSpecificData hash) = _
    rw [heffective, hpending]
    rfl
  | read hash =>
    refine ⟨?_, ?_⟩
    · exact transactionSpecificData_getTransactionLocation.trans heffective
    · exact cacheInsert_getTransactionLocation.trans hpending

theorem refines_run (h : s.Refines m) {calls : List LocationCall}
    (hagree : GuardedRun.Guarded call Agreeing s calls) :
    (GuardedRun.run call s calls).Refines (calls.foldl BufferedMap.step m) := by
  induction calls generalizing s m with
  | nil => exact h
  | cons c calls ih => exact ih (h.call hagree.1) hagree.2

def after (content : Uint256 → Option UInt64) (calls : List LocationCall) :
    CSupportTransactionsDatabase := GuardedRun.run call (ofContent content) calls

/-- Along agreeing calls every hash is found as in a map with a buffer, and as in a plain map if
nothing is collected for it. -/
theorem answers_buffered {content : Uint256 → Option UInt64} {calls : List LocationCall}
    (hagree : GuardedRun.Guarded call Agreeing (ofContent content) calls) (hash : Uint256) :
    ((after content calls).getTransactionLocation hash).1 =
        (BufferedMap.run content calls).effective hash ∧
      ((BufferedMap.run content calls).pending hash = none →
        ((after content calls).getTransactionLocation hash).1 =
          BufferedMap.plain content calls hash) := by
  have hrefines : (ofContent content).Refines (.ofContent content) := ⟨rfl, rfl⟩
  have heffective : ((after content calls).getTransactionLocation hash).1 =
      (BufferedMap.run content calls).effective hash :=
    getTransactionLocation_fst.trans (congrFun (refines_run hrefines hagree).effective hash)
  exact ⟨heffective, fun hnone =>
    heffective.trans (BufferedMap.effective_eq_plain content calls hnone)⟩

namespace EraseAfterFlush

/-- A location is set, takes effect, is erased unread, and is set again. -/
def calls : List LocationCall := [.set 1 7, .flush, .erase 1, .read 1, .set 1 8]

theorem erased_in_effect :
    ((after (fun _ => none) calls).getTransactionLocation 1).1 =
        (BufferedMap.run (fun _ => none) calls).effective 1 ∧
      ((BufferedMap.run (fun _ => none) calls).pending 1 = none →
        ((after (fun _ => none) calls).getTransactionLocation 1).1 =
          BufferedMap.plain (fun _ => none) calls 1) := by
  have hagree : GuardedRun.Guarded call Agreeing (ofContent fun _ => none) calls :=
    ⟨.inl rfl, trivial, ⟨rfl, .inl rfl⟩, trivial, .inl rfl, trivial⟩
  exact answers_buffered hagree 1

end EraseAfterFlush

/-- A location that has been set is not found before the flush. -/
theorem absent_in_buffer : ¬∀ hash,
    ((after (fun _ => none) [.set 1 7]).getTransactionLocation hash).1 =
      BufferedMap.plain (fun _ => none) [.set 1 7] hash := by
  intro h
  exact absurd (h 1) (by decide)

end CSupportTransactionsDatabase

end Dims
