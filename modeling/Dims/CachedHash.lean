import Dims.Core
import Dims.GuardedRun
import Mathlib.Logic.Function.Basic

/-!
# The memoized hash of a transaction

core.h, core.cpp. `GetHash` keeps the hash in the object, and every copy takes it along. What
resets or refills the object does not look at it. The other modules take `GetHash` for the hash
of the contents; it is that in the runs that are told here.
-/

namespace Dims
open ByteCodec

/-- Whether a stream has the location: `SER_DISK`, or one of the others. -/
inductive SerializeType
  | disk
  | network
  deriving DecidableEq, Repr

/-- An object with its `m_hash`. -/
structure CTransactionObject where
  transaction : CTransaction
  hash : Option Uint256
  /-- `SetNull` or a deserialization has run on the object, or on the one that it is a copy of. -/
  refilled : Bool
  deriving DecidableEq, Repr

namespace CTransactionObject

variable (H : HashFunctions)

def getHash (o : CTransactionObject) : Uint256 × CTransactionObject :=
  match o.hash with
  | some hash => (hash, o)
  | none => (o.transaction.getHash H, { o with hash := some (o.transaction.getHash H) })

/-- What `SetNull` leaves in the fields. -/
def nulled (tx : CTransaction) : CTransaction :=
  { tx with nVersion := 1, vin := [], vout := [], nLockTime := 0 }

/-- The constructor: the location is not set. Whether its `SetNull` counts as one is left open. -/
def new (counts : Bool) (location : UInt64) : CTransactionObject :=
  ⟨⟨1, [], [], 0, location⟩, none, counts⟩

def setNull (o : CTransactionObject) : CTransactionObject :=
  { o with transaction := nulled o.transaction, refilled := true }

/-- What `operator>>` leaves in the fields. A stream that throws leaves something of what it has
read, which is `left`. -/
def unserialized (nType : SerializeType) (stream : Bytes) (left tx : CTransaction) : CTransaction :=
  match nType with
  | .disk => ((CTransaction.diskCodec.decode stream).map Prod.fst).getD left
  | .network =>
    (((CTransaction.networkCodec.decode stream).map Prod.fst).getD left).setLocation tx.location

def unserialize (nType : SerializeType) (stream : Bytes) (left : CTransaction)
    (o : CTransactionObject) : CTransactionObject :=
  { o with transaction := unserialized nType stream left o.transaction, refilled := true }

def withInput (txIn : CTxIn) (tx : CTransaction) : CTransaction :=
  { tx with vin := tx.vin ++ [txIn] }

def withOutput (position : ℕ) (txOut : CTxOut) (tx : CTransaction) : CTransaction :=
  { tx with vout := tx.vout.insertIdx position txOut }

def addInput (txIn : CTxIn) (o : CTransactionObject) : CTransactionObject :=
  { o with transaction := withInput txIn o.transaction }

def addOutput (position : ℕ) (txOut : CTxOut) (o : CTransactionObject) : CTransactionObject :=
  { o with transaction := withOutput position txOut o.transaction }

/-- What is asked of an object that has been reset or refilled. -/
def Right (o : CTransactionObject) : Prop :=
  o.refilled = true → (o.getHash H).1 = o.transaction.getHash H

/-- The object has no hash, or the one of the transaction. -/
def Accepts (o : CTransactionObject) (tx : CTransaction) : Prop :=
  ∀ hash, o.hash = some hash → hash = tx.getHash H

variable {H} {o : CTransactionObject}

theorem getHash_eq_iff :
    (o.getHash H).1 = o.transaction.getHash H ↔ o.Accepts H o.transaction := by
  unfold getHash Accepts
  cases o.hash with
  | none => simp
  | some hash => simp

theorem right_iff : o.Right H ↔ (o.refilled = true → o.Accepts H o.transaction) :=
  imp_congr_right fun _ => getHash_eq_iff

theorem right_getHash (h : o.Right H) : (o.getHash H).2.Right H := by
  obtain ⟨tx, hash, refilled⟩ := o
  cases hash with
  | none => exact fun _ => rfl
  | some hash => exact h

end CTransactionObject

abbrev TransactionObjects := ℕ → Option CTransactionObject

namespace TransactionObjects
open CTransactionObject

inductive Operation
  | construct (i : ℕ) (location : UInt64)
  | copy (i j : ℕ)
  | assign (i j : ℕ)
  | getHash (i : ℕ)
  | setNull (i : ℕ)
  | unserialize (i : ℕ) (nType : SerializeType) (stream : Bytes) (left : CTransaction)
  | addInput (i : ℕ) (txIn : CTxIn)
  | addOutput (i position : ℕ) (txOut : CTxOut)

def empty : TransactionObjects := fun _ => none

def modify (s : TransactionObjects) (i : ℕ) (f : CTransactionObject → CTransactionObject) :
    TransactionObjects :=
  Function.update s i ((s i).map f)

/-- All members are copied, `m_hash` too. There is nothing to copy where there is no object. -/
def copyFrom (s : TransactionObjects) (i j : ℕ) : TransactionObjects :=
  match s j with
  | some o => Function.update s i (some o)
  | none => s

variable (H : HashFunctions) (counts : Bool)

def step (s : TransactionObjects) : Operation → TransactionObjects
  | .construct i location => Function.update s i (some (.new counts location))
  | .copy i j | .assign i j => s.copyFrom i j
  | .getHash i => s.modify i fun o => (o.getHash H).2
  | .setNull i => s.modify i setNull
  | .unserialize i nType stream left => s.modify i (unserialize nType stream left)
  | .addInput i txIn => s.modify i (addInput txIn)
  | .addOutput i position txOut => s.modify i (addOutput position txOut)

/-- `GetHash` of any object gives the hash of the transaction that the object holds. -/
def HashesRight (s : TransactionObjects) : Prop := ∀ i o, s i = some o → o.Right H

/-- What an operation writes has the hash that the object has, if it has one. -/
def Accepted (s : TransactionObjects) : Operation → Prop
  | .setNull i => ∀ o, s i = some o → o.Accepts H (nulled o.transaction)
  | .unserialize i nType stream left => ∀ o, s i = some o →
    o.Accepts H (unserialized nType stream left o.transaction)
  | .addInput i txIn => ∀ o, s i = some o → o.refilled = true →
    o.Accepts H (withInput txIn o.transaction)
  | .addOutput i position txOut => ∀ o, s i = some o → o.refilled = true →
    o.Accepts H (withOutput position txOut o.transaction)
  | .construct .. | .copy .. | .assign .. | .getHash .. => True

section Steps

variable {H counts} {s : TransactionObjects}

theorem hashesRight_empty : HashesRight H empty := by
  intro i o h
  cases h

theorem hashesRight_update (h : s.HashesRight H) (i : ℕ) {o : CTransactionObject} (ho : o.Right H) :
    HashesRight H (Function.update s i (some o)) := by
  intro k o' hk
  by_cases hki : k = i
  · subst hki
    rw [Function.update_self] at hk
    cases hk
    exact ho
  · rw [Function.update_of_ne hki] at hk
    exact h k o' hk

theorem hashesRight_modify_iff (h : s.HashesRight H) (i : ℕ)
    (f : CTransactionObject → CTransactionObject) :
    HashesRight H (s.modify i f) ↔ ∀ o, s i = some o → (f o).Right H := by
  rw [modify]
  cases hi : s i with
  | none =>
    have hsame : Function.update s i none = s := by rw [← hi, Function.update_eq_self]
    rw [Option.map_none, hsame]
    exact iff_of_true h fun o ho => by cases ho
  | some o =>
    rw [Option.map_some]
    constructor
    · rintro hall _ ⟨⟩
      exact hall i (f o) (Function.update_self ..)
    · exact fun hright => hashesRight_update h i (hright o rfl)

theorem hashesRight_copyFrom (h : s.HashesRight H) (i j : ℕ) : HashesRight H (s.copyFrom i j) := by
  unfold copyFrom
  split
  case h_1 o hj => exact hashesRight_update h i (h j o hj)
  case h_2 => exact h

/-- A step keeps the hashes right if and only if it is accepted. -/
theorem hashesRight_step_iff (h : s.HashesRight H) (operation : Operation) :
    HashesRight H (step H counts s operation) ↔ Accepted H s operation := by
  cases operation with
  | construct i location => exact iff_of_true (hashesRight_update h i fun _ => rfl) trivial
  | copy i j => exact iff_of_true (hashesRight_copyFrom h i j) trivial
  | assign i j => exact iff_of_true (hashesRight_copyFrom h i j) trivial
  | getHash i =>
    refine iff_of_true ((hashesRight_modify_iff h i _).mpr fun o ho => ?_) trivial
    exact right_getHash (h i o ho)
  | setNull i =>
    refine (hashesRight_modify_iff h i _).trans (forall₂_congr fun o _ => ?_)
    exact right_iff.trans (forall_prop_of_true rfl)
  | unserialize i nType stream left =>
    refine (hashesRight_modify_iff h i _).trans (forall₂_congr fun o _ => ?_)
    exact right_iff.trans (forall_prop_of_true rfl)
  | addInput i txIn => exact (hashesRight_modify_iff h i _).trans (forall₂_congr fun o _ => right_iff)
  | addOutput i position txOut =>
    exact (hashesRight_modify_iff h i _).trans (forall₂_congr fun o _ => right_iff)

end Steps

/-- In every state of a run all hashes are right if and only if each step is accepted. Two objects
of an accepted run, or one at two times, have one key only if they hold transactions with one
hash. -/
theorem hashesRight_always_iff (operations : List Operation) :
    ((∀ past, past <+: operations → HashesRight H (GuardedRun.run (step H counts) empty past)) ↔
      GuardedRun.Guarded (step H counts) (Accepted H) empty operations) ∧
    (GuardedRun.Guarded (step H counts) (Accepted H) empty operations →
      ∀ past past', past <+: operations → past' <+: operations → ∀ i i' o o',
        GuardedRun.run (step H counts) empty past i = some o →
        GuardedRun.run (step H counts) empty past' i' = some o' →
        o.refilled = true → o'.refilled = true →
        ((o.getHash H).1 = (o'.getHash H).1 ↔ o.transaction.getHash H = o'.transaction.getHash H)) := by
  have halways : (∀ past, past <+: operations →
      HashesRight H (GuardedRun.run (step H counts) empty past)) ↔
        GuardedRun.Guarded (step H counts) (Accepted H) empty operations := by
    have hstep : ∀ (s : TransactionObjects) (operation : Operation), True → s.HashesRight H →
        (HashesRight H (step H counts s operation) ↔ Accepted H s operation) :=
      fun _ operation _ h => hashesRight_step_iff h operation
    have hgood : HashesRight H empty := hashesRight_empty
    exact GuardedRun.always_iff (fun _ _ _ => trivial) hstep trivial hgood
  refine ⟨halways, fun hguarded past past' hpast hpast' i i' o o' ho ho' hrefilled hrefilled' => ?_⟩
  have hright := halways.mpr hguarded
  rw [hright past hpast i o ho hrefilled, hright past' hpast' i' o' ho' hrefilled']

/-- `readTransactions` takes a new object for each record. -/
def readRecord (location : UInt64) (record : Bytes × CTransaction) : List Operation :=
  [.construct 0 location, .unserialize 0 .disk record.1 record.2, .getHash 0]

theorem guarded_readRecords (location : UInt64) (records : List (Bytes × CTransaction))
    (s : TransactionObjects) :
    GuardedRun.Guarded (step H counts) (Accepted H) s (records.flatMap (readRecord location)) := by
  induction records generalizing s with
  | nil => trivial
  | cons record records ih =>
    rw [List.flatMap_cons, readRecord, GuardedRun.guarded_append]
    refine ⟨⟨trivial, fun o ho => ?_, trivial, trivial⟩, ih _⟩
    rw [step, Function.update_self] at ho
    cases ho
    rintro _ ⟨⟩

namespace OneObject

def hashes : HashFunctions := ⟨fun bytes => BitVec.ofNat 256 (bytes.map UInt8.toNat).sum, fun _ => 0⟩

def first : CTransaction := ⟨1, [], [⟨4, []⟩], 0, 0⟩

def second : CTransaction := ⟨1, [], [⟨5, []⟩], 0, 0⟩

def readTwice : List Operation :=
  [.construct 0 0, .unserialize 0 .disk (CTransaction.diskCodec.encode first) first, .getHash 0,
    .unserialize 0 .disk (CTransaction.diskCodec.encode second) second]

/-- The second transaction has the key of the first one. -/
theorem second_has_first_key :
    ¬ HashesRight hashes (GuardedRun.run (step hashes false) empty readTwice) ∧
    ∃ o, GuardedRun.run (step hashes false) empty readTwice 0 = some o ∧ o.refilled = true ∧
      o.transaction = second ∧ (o.getHash hashes).1 = first.getHash hashes ∧
      first.getHash hashes ≠ second.getHash hashes := by
  have hrun : GuardedRun.run (step hashes false) empty readTwice 0 =
      some ⟨second, some (first.getHash hashes), true⟩ := by
    decide +kernel
  have hne : first.getHash hashes ≠ second.getHash hashes := by decide +kernel
  exact ⟨fun hright => hne (hright 0 _ hrun rfl), _, hrun, rfl, rfl, rfl, hne⟩

end OneObject

end TransactionObjects

end Dims
