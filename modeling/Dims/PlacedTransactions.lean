import Dims.ReadTransactions
import Dims.StorageHistory

/-!
# Transactions with their places

Runs of the storage in which every transaction keeps the place that it was assigned. The outputs
that the flush loop spends are written down beside it, in the order of the queue.
-/

namespace Dims

/-- A transaction with its place. The numbers are those of the outputs that have been spent, the
first one first; the flush loop may have stored it, and its place may have been recorded. -/
structure Placement where
  tx : CTransaction
  spent : List ℕ
  written : Bool
  recorded : Bool
  deriving DecidableEq

namespace Placement

def new (tx : CTransaction) : Placement := ⟨tx, [], false, false⟩

def record (p : Placement) : CTransaction := p.tx.nullOutputs p.spent

def isLive (p : Placement) : Bool := p.record.vout.any fun txOut => !txOut.isNull

def store (tx : CTransaction) (p : Placement) : Placement :=
  if p.tx = tx then { p with written := true } else p

def locate (tx : CTransaction) (p : Placement) : Placement :=
  if p.tx = tx then { p with recorded := true } else p

def spend (H : HashFunctions) (o : COutPoint) (p : Placement) : Placement :=
  if p.tx.getHash H = o.hash then { p with spent := p.spent ++ [o.n.toNat] } else p

end Placement

inductive QueueStep
  | store (tx : CTransaction)
  | spend (tx : CTransaction) (o : COutPoint)

namespace QueueStep

def steps (txs : List CTransaction) : List QueueStep :=
  txs.flatMap fun tx =>
    .store tx :: (if tx.isCoinBase then [] else tx.vin).map fun txIn => .spend tx txIn.prevout

def apply (H : HashFunctions) (placed : List Placement) : QueueStep → List Placement
  | .store tx => placed.map (·.store tx)
  | .spend _ o => placed.map (·.spend H o)

/-- A transaction is stored once, at the place that it was assigned. An output is spent of a
transaction that has been stored and has an unspent output; its place is found under its hash,
and if this was its last output, it lies in the block of the spending transaction. -/
def Proper (H : HashFunctions) (found : Uint256 → Option UInt64) (placed : List Placement) :
    QueueStep → Prop
  | .store tx => ∃ p ∈ placed, p.tx = tx ∧ p.written = false
  | .spend tx o => ∃ p ∈ placed, p.tx.getHash H = o.hash ∧ p.written = true ∧ p.isLive = true ∧
      found o.hash = some p.tx.location ∧
      (∀ q ∈ placed, q.isLive = true → q.tx.getHash H = o.hash → q = p) ∧
      ((p.spend H o).isLive = true ∨
        CLocation.ofFullPosition p.tx.location = CLocation.ofFullPosition tx.location)

instance decidableProper (H : HashFunctions) (found : Uint256 → Option UInt64)
    (placed : List Placement) : ∀ step, Decidable (Proper H found placed step)
  | .store _ => inferInstanceAs (Decidable (∃ p ∈ placed, _ ∧ _))
  | .spend _ _ => inferInstanceAs (Decidable (∃ p ∈ placed, _ ∧ _))

end QueueStep

/-- The storage, the block that has been saved last at each location, and the transactions that
have a place. -/
structure PlacedStorage where
  storage : CSegmentFileStorage
  saved : CLocation → Option CDiskBlock
  placed : List Placement

inductive PlacedCall
  | assignPosition (tx : CTransaction)
  /-- `setTransactionLocation` with the hash and the place of the transaction. -/
  | setLocation (tx : CTransaction)
  /-- `flush` of the support database -/
  | flushLocations
  | includeTransaction (tx : CTransaction) (timeStamp : UInt64)
  | includeTransactions (txs : List CTransaction) (timeStamp : UInt64)
  | flush

namespace PlacedStorage
open CSegmentFileStorage

def init : PlacedStorage := ⟨.init, fun _ => none, []⟩

variable (ctx : StorageContext)

def react (h : PlacedStorage) : PlacedCall → Option PlacedStorage
  | .assignPosition tx =>
    (h.storage.assignPosition ctx tx).map fun assigned =>
      ⟨assigned.2, h.saved, h.placed ++ assigned.1.toList.map fun full => .new (tx.setLocation full)⟩
  | .setLocation tx =>
    some ⟨{ h.storage with
      support := h.storage.support.setTransactionLocation (tx.getHash ctx.hashes) tx.location },
      h.saved, h.placed.map (·.locate tx)⟩
  | .flushLocations =>
    some { h with storage := { h.storage with support := h.storage.support.flush } }
  | .includeTransaction tx timeStamp =>
    (h.storage.includeTransaction tx timeStamp).map fun storage => { h with storage := storage }
  | .includeTransactions txs timeStamp =>
    (h.storage.includeTransactions txs timeStamp).map fun storage => { h with storage := storage }
  | .flush =>
    (h.storage.flushIteration ctx).map fun flushed =>
      ⟨flushed.2, savedBy flushed.1 h.saved,
        GuardedRun.run (QueueStep.apply ctx.hashes) h.placed (QueueStep.steps h.storage.queued)⟩

def step (s : Option PlacedStorage) (call : PlacedCall) : Option PlacedStorage :=
  s.bind fun h => h.react ctx call

/-- A transaction that is placed has an output, and its bucket has fewer blocks than a position
can tell apart; a location is recorded for the transaction that has it; and what the flush loop
does is proper. -/
def Orderly : Option PlacedStorage → PlacedCall → Prop
  | none, _ => True
  | some h, .assignPosition tx => (tx.vout.any fun txOut => !txOut.isNull) = true ∧
      ∀ bucket < maxBucket, h.storage.blocksOf bucket < 2 ^ 32
  | some h, .setLocation tx => ∃ p ∈ h.placed, p.tx = tx
  | some _, .flushLocations => True
  | some _, .includeTransaction .. => True
  | some _, .includeTransactions .. => True
  | some h, .flush => GuardedRun.Guarded (QueueStep.apply ctx.hashes)
      (QueueStep.Proper ctx.hashes h.storage.support.transactionSpecificData) h.placed
      (QueueStep.steps h.storage.queued)

instance decidableOrderly : ∀ s call, Decidable (Orderly ctx s call)
  | none, _ => inferInstanceAs (Decidable True)
  | some _, .assignPosition _ => inferInstanceAs (Decidable (_ = true ∧ ∀ bucket < maxBucket, _))
  | some h, .setLocation _ => inferInstanceAs (Decidable (∃ p ∈ h.placed, _ = _))
  | some _, .flushLocations => inferInstanceAs (Decidable True)
  | some _, .includeTransaction .. => inferInstanceAs (Decidable True)
  | some _, .includeTransactions .. => inferInstanceAs (Decidable True)
  | some _, .flush => inferInstanceAs (Decidable (GuardedRun.Guarded ..))

end PlacedStorage

end Dims
