import Dims.TransactionRecordManager
import Dims.ClientProtocol
import Dims.OrderedSet
import Dims.OrderedMap
import Dims.GuardedRun

/-!
# The status of a transaction

A tracker keeps the transactions that it has applied for a few periods of time, and answers
questions for their status from what it keeps: to clients in clientRequestsManager.cpp, to
other nodes in passTransactionAction.cpp.
-/

namespace Dims
open ByteCodec

/-- `UsedTimePeriod` -/
def usedTimePeriod : BitVec 64 := 240

/-- `PeriodsCount` -/
def periodsCount : ℕ := 4

structure CRecentTransactions where
  recentTransactions : OrderedMap (BitVec 64) (OrderedMap Uint256 CTransaction)
  lastUsedTime : BitVec 64
  usedTimes : OrderedSet (BitVec 64)

namespace CRecentTransactions

variable (H : HashFunctions)

def empty : CRecentTransactions := ⟨.empty, 0, .empty⟩

/-- The oldest of the periods makes room when there are as many as can be kept. -/
def dropPeriod (s : CRecentTransactions) : CRecentTransactions :=
  if s.usedTimes.elements.length = periodsCount then
    match s.usedTimes.elements with
    | [] => s
    | time :: _ => { s with
        recentTransactions := s.recentTransactions.erase time
        usedTimes := s.usedTimes.erase time }
  else s

/-- A new period begins when the last one is over. -/
def openPeriod (s : CRecentTransactions) (time : BitVec 64) : CRecentTransactions :=
  if usedTimePeriod < time - s.lastUsedTime then
    let s := s.dropPeriod
    { s with usedTimes := s.usedTimes.insert s.lastUsedTime, lastUsedTime := time }
  else s

def setTransactionToTemporary (s : CRecentTransactions) (time : BitVec 64) (tx : CTransaction) :
    CRecentTransactions :=
  let s := s.openPeriod time
  let period := (s.recentTransactions.lookup s.lastUsedTime).getD .empty
  { s with recentTransactions :=
      s.recentTransactions.assign s.lastUsedTime (period.insertNew (tx.getHash H) tx) }

def getTransaction (s : CRecentTransactions) (hash : Uint256) : Option CTransaction :=
  s.recentTransactions.entries.findSome? fun period => period.2.lookup hash

/-- The answer to another node. -/
def nodeStatus (s : CRecentTransactions) (hash : Uint256) : TransactionsStatus :=
  match s.getTransaction hash with
  | some _ => .unconfirmed
  | none => .validated

end CRecentTransactions

structure CTransactionStatusResponse where
  status : TransactionsStatus
  hash : Uint256
  signature : Bytes

/-- The answer to a client; the hash of a transaction that is kept is signed. -/
def CRecentTransactions.clientStatus (H : HashFunctions) (sign : Uint256 → Bytes)
    (s : CRecentTransactions) (hash : Uint256) : CTransactionStatusResponse :=
  match s.getTransaction hash with
  | some tx => ⟨.confirmed, tx.getHash H, sign (tx.getHash H)⟩
  | none => ⟨.unconfirmed, hash, []⟩

/-- What the one who asks takes for settled: a client, or another node. -/
inductive StatusPath
  | client
  | node
  deriving DecidableEq, Repr

def StatusPath.settled : StatusPath → TransactionsStatus
  | .client => .confirmed
  | .node => .validated

/-- The tracker with the hashes of the transactions that it has applied. -/
structure StatusTracker where
  manager : CTransactionRecordManager
  recent : CRecentTransactions
  applied : List Uint256

namespace StatusTracker

variable (env : Environment)

def init : StatusTracker := ⟨.empty, .empty, []⟩

inductive Event
  /-- The transactions come with the times at which they are put to the recent ones. -/
  | addValidatedTransactionBundle (txs : List (CTransaction × BitVec 64))
  | addRetrivedTransactionBundle (txs : List (CTransaction × BitVec 64))

def Event.transactions : Event → List (CTransaction × BitVec 64)
  | .addValidatedTransactionBundle txs => txs
  | .addRetrivedTransactionBundle txs => txs

/-- The ledger after the event, and whether the bundle is applied. -/
def applyBundle (manager : CTransactionRecordManager) : Event → BundleResult × CTransactionRecordManager
  | .addValidatedTransactionBundle txs =>
    manager.addValidatedTransactionBundle env (txs.map Prod.fst)
  | .addRetrivedTransactionBundle txs =>
    manager.addRetrivedTransactionBundle env (txs.map Prod.fst)

def step (s : StatusTracker) (event : Event) : StatusTracker :=
  match applyBundle env s.manager event with
  | (.returned true, manager) => {
      manager := manager
      recent := event.transactions.foldl (fun recent tx =>
        recent.setTransactionToTemporary env.hashes tx.2 tx.1) s.recent
      applied := s.applied ++ event.transactions.map fun tx => tx.1.getHash env.hashes }
  | (_, manager) => { s with manager := manager }

def status (sign : Uint256 → Bytes) (s : StatusTracker) (path : StatusPath) (hash : Uint256) :
    TransactionsStatus :=
  match path with
  | .client => (s.recent.clientStatus env.hashes sign hash).status
  | .node => s.recent.nodeStatus hash

def Settled (sign : Uint256 → Bytes) (s : StatusTracker) (path : StatusPath) (hash : Uint256) :
    Prop :=
  s.status env sign path hash = path.settled

/-- What the answers of a tracker say in a run. -/
structure Truthful (sign : Uint256 → Bytes) (events : List Event) : Prop where
  agree : ∀ past, past <+: events → ∀ hash,
    (Settled env sign (GuardedRun.run (step env) init past) .client hash ↔
      Settled env sign (GuardedRun.run (step env) init past) .node hash)
  applied : ∀ past, past <+: events → ∀ path hash,
    Settled env sign (GuardedRun.run (step env) init past) path hash →
      hash ∈ (GuardedRun.run (step env) init past).applied
  monotone : ∀ past later, past <+: later → later <+: events → ∀ path path' hash,
    Settled env sign (GuardedRun.run (step env) init past) path hash →
      Settled env sign (GuardedRun.run (step env) init later) path' hash

section Recent

open CRecentTransactions

variable {s : CRecentTransactions} {time : BitVec 64} {tx : CTransaction} {hash : Uint256}

theorem getTransaction_isSome_iff : (s.getTransaction hash).isSome ↔
    ∃ time period, s.recentTransactions.lookup time = some period ∧
      (period.lookup hash).isSome := by
  rw [getTransaction, List.findSome?_isSome_iff]
  constructor
  · rintro ⟨⟨time, period⟩, hin, hfound⟩
    exact ⟨time, period, OrderedMap.mem_entries.mp hin, hfound⟩
  · rintro ⟨time, period, hlookup, hfound⟩
    exact ⟨(time, period), OrderedMap.mem_entries.mpr hlookup, hfound⟩

theorem getTransaction_openPeriod (time : BitVec 64)
    (h : ((s.openPeriod time).getTransaction hash).isSome) : (s.getTransaction hash).isSome := by
  have hdropped : (s.dropPeriod.getTransaction hash).isSome → (s.getTransaction hash).isSome := by
    intro hfound
    unfold dropPeriod at hfound
    split at hfound
    · split at hfound
      · exact hfound
      · obtain ⟨time', period, hlookup, hin⟩ := getTransaction_isSome_iff.mp hfound
        refine getTransaction_isSome_iff.mpr ⟨time', period, ?_, hin⟩
        rw [OrderedMap.erase, OrderedMap.lookup_filter] at hlookup
        exact (Option.filter_eq_some_iff.mp hlookup).1
    · exact hfound
  unfold openPeriod at h
  split at h
  · exact hdropped h
  · exact h

theorem getTransaction_setTransactionToTemporary (H : HashFunctions) (time : BitVec 64)
    (tx : CTransaction) : ((s.setTransactionToTemporary H time tx).getTransaction hash).isSome ↔
      hash = tx.getHash H ∨ ((s.openPeriod time).getTransaction hash).isSome := by
  unfold setTransactionToTemporary
  generalize s.openPeriod time = s'
  simp only [getTransaction_isSome_iff]
  constructor
  · rintro ⟨time', period, hlookup, hin⟩
    obtain ⟨rfl, rfl⟩ | hold := OrderedMap.eq_or_lookup_of_assign hlookup
    · obtain rfl | hin := OrderedMap.isSome_lookup_insertNew.mp hin
      · exact .inl rfl
      · cases hperiod : s'.recentTransactions.lookup s'.lastUsedTime with
        | none => simp [hperiod] at hin
        | some period => exact .inr ⟨_, period, hperiod, by simpa [hperiod] using hin⟩
    · exact .inr ⟨time', period, hold, hin⟩
  · intro h
    by_cases heq : hash = tx.getHash H
    · subst heq
      exact ⟨s'.lastUsedTime, _, OrderedMap.lookup_assign_self .., by
        simp [OrderedMap.isSome_lookup_insertNew]⟩
    · obtain ⟨time', period, hlookup, hin⟩ := h.resolve_left heq
      by_cases hsame : time' = s'.lastUsedTime
      · subst hsame
        refine ⟨s'.lastUsedTime, _, OrderedMap.lookup_assign_self .., ?_⟩
        simp [OrderedMap.isSome_lookup_insertNew, hlookup, hin]
      · exact ⟨time', period, by rwa [OrderedMap.lookup_assign_of_ne hsame], hin⟩

theorem getTransaction_foldl (H : HashFunctions) (txs : List (CTransaction × BitVec 64))
    (s : CRecentTransactions)
    (h : ((txs.foldl (fun recent tx => recent.setTransactionToTemporary H tx.2 tx.1) s).getTransaction
      hash).isSome) :
    (s.getTransaction hash).isSome ∨ hash ∈ txs.map fun tx => tx.1.getHash H := by
  induction txs generalizing s with
  | nil => exact .inl h
  | cons tx txs ih =>
    obtain hfound | hin := ih _ h
    · obtain rfl | hfound := (getTransaction_setTransactionToTemporary H tx.2 tx.1).mp hfound
      · exact .inr List.mem_cons_self
      · exact .inl (getTransaction_openPeriod tx.2 hfound)
    · exact .inr (List.mem_cons_of_mem _ hin)

end Recent

section Answers

variable (sign : Uint256 → Bytes) {s : StatusTracker} {hash : Uint256}

theorem settled_client_iff :
    Settled env sign s .client hash ↔ (s.recent.getTransaction hash).isSome := by
  unfold Settled status CRecentTransactions.clientStatus
  cases s.recent.getTransaction hash with
  | none => exact iff_of_false nofun nofun
  | some tx => exact iff_of_true rfl rfl

theorem settled_node_iff :
    Settled env sign s .node hash ↔ ¬(s.recent.getTransaction hash).isSome := by
  unfold Settled status CRecentTransactions.nodeStatus
  cases s.recent.getTransaction hash with
  | none => exact iff_of_true rfl nofun
  | some tx => exact iff_of_false nofun fun h => h rfl

/-- One path says settled exactly when the other one does not. -/
theorem settled_client_iff_not_node :
    Settled env sign s .client hash ↔ ¬Settled env sign s .node hash := by
  rw [settled_client_iff, settled_node_iff, not_not]

/-- What is kept has been applied. -/
def RecentApplied (s : StatusTracker) : Prop :=
  ∀ hash, (s.recent.getTransaction hash).isSome → hash ∈ s.applied

theorem RecentApplied.step (h : s.RecentApplied) (event : Event) :
    (step env s event).RecentApplied := by
  intro hash hfound
  unfold StatusTracker.step at hfound ⊢
  split at hfound
  · obtain hold | hnew := getTransaction_foldl env.hashes _ _ hfound
    · exact List.mem_append_left _ (h hash hold)
    · exact List.mem_append_right _ hnew
  · exact h hash hfound

/-- A client is told of no transaction that has not been applied. -/
theorem applied_of_settled_client (events : List Event)
    (h : Settled env sign (GuardedRun.run (StatusTracker.step env) init events) .client hash) :
    hash ∈ (GuardedRun.run (StatusTracker.step env) init events).applied := by
  have hinit : init.RecentApplied := by
    intro hash hfound
    cases hfound
  have hrun : (GuardedRun.run (StatusTracker.step env) init events).RecentApplied :=
    GuardedRun.run_invariant (fun _ event h => h.step env event) hinit events
  exact hrun hash ((settled_client_iff env sign).mp h)

/-- The answers are truthful in no run, as the two paths never agree. -/
theorem not_truthful (events : List Event) : ¬Truthful env sign events := by
  intro h
  have hagree := h.agree [] List.nil_prefix 0
  rw [settled_client_iff_not_node] at hagree
  exact iff_not_self hagree.symm

end Answers

end StatusTracker

namespace UnknownTransaction
open StatusTracker

def env : Environment := ⟨⟨fun _ => 0, fun _ => 0⟩, ⟨fun _ _ _ _ => false, parses_of_rejected⟩, fun _ _ => ⟨0, []⟩⟩

/-- A node that asks a new tracker for any hash is told that the transaction is validated. -/
theorem told_validated : ¬∀ events, Truthful env (fun _ => []) events := by
  intro h
  have hsettled : Settled env (fun _ => []) (GuardedRun.run (step env) init []) .node 7 := rfl
  exact absurd ((h []).applied [] List.nil_prefix .node 7 hsettled) List.not_mem_nil

end UnknownTransaction

end Dims
