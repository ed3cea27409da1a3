import Dims.Script
import Dims.GuardedRun
import Mathlib.Algebra.BigOperators.Group.List.Basic
import Mathlib.Data.Finset.Insert

/-!
# The scanner of the origin address

originAddressScanner.cpp: bitcoin transactions to the origin address wait in a map by
time stamp until the loop creates a coinbase transaction for each of them and hands
it to the storage. A transaction is marked as processed when it is added.
-/

namespace Dims
open ByteCodec

/-- The hash functions and the id of the origin address. -/
structure OriginContext where
  hashes : HashFunctions
  originAddressKeyId : Uint160

/-- One call of `createBaseTransaction`, and what the storage then gets. -/
structure CMinting where
  origin : CTransaction
  success : Bool
  baseTx : CTransaction
  baseKey : CKeyID

/-- The scanner with the calls it has made: what it has flushed, the transactions
searched for own coins, and the transactions given to the storage. -/
structure COriginAddressScanner where
  transactionToProcess : List (Int64 × CTransaction)
  alreadyProcessed : Finset Uint256
  currentTime : UInt64
  totalBalance : UInt64
  keys : List Bytes
  balances : List UInt64
  flushed : List (UInt64 × UInt64 × List Bytes × List UInt64)
  searched : List CTransaction
  stored : List CMinting

namespace COriginAddressScanner

def init : COriginAddressScanner := ⟨[], ∅, 0, 0, [], [], [], [], []⟩

section CreateBaseTransaction

variable (env : OriginContext)

/-- A solution of a script of this type is the origin address. -/
def isOrigin (type : TxnOutType) (solution : Bytes) : Bool :=
  match type with
  | .pubkey => env.originAddressKeyId = env.hashes.hash160 solution
  | .pubkeyhash => env.originAddressKeyId = uint160OfBytes solution
  | _ => false

/-- The sum is an `unsigned int`. -/
def addOutput (valueSum : UInt32) (txout : CTxOut) : UInt32 :=
  match solver txout.scriptPubKey with
  | none => valueSum
  | some (type, solutions) => solutions.foldl (fun sum solution =>
      if isOrigin env type solution then sum + UInt32.ofInt txout.nValue.toInt else sum) valueSum

/-- The loop over the outputs; no value where a script cannot be read. -/
def sumOutputs : UInt32 → List CTxOut → Option UInt32
  | valueSum, [] => some valueSum
  | valueSum, txout :: vout =>
    if txout.scriptPubKey.parses then sumOutputs (addOutput env valueSum txout) vout else none

/-- The loop over the inputs: the first push of the size of a public key. -/
def findBaseKey : List CTxIn → Option Bytes
  | [] => none
  | txin :: vin =>
    (findKeyPush txin.scriptSig).bind fun data =>
      match data with
      | some data => some data
      | none => findBaseKey vin

/-- The value and the key of the base transaction, if there is one. -/
def findBase (tx : CTransaction) : Option (UInt32 × Bytes) :=
  (sumOutputs env 0 tx.vout).bind fun valueSum =>
    if valueSum = 0 then none else (findBaseKey tx.vin).map fun data => (valueSum, data)

/-- `CScript() << key << OP_CHECKSIG` -/
def payToKey (key : CPubKey) : CScript := UInt8.ofNat key.size :: key.bytes ++ [0xac]

def baseTransaction (valueSum : UInt32) (data : Bytes) : CTransaction :=
  ⟨1, [⟨.null, [], 0xffffffff⟩], [⟨Int64.ofNat valueSum.toNat, payToKey (.ofBytes data)⟩], 0, 0⟩

/-- What `createBaseTransaction` returns; where it fails the results are as the loop
has constructed them. -/
def minting (tx : CTransaction) : CMinting :=
  match findBase env tx with
  | none => ⟨tx, false, ⟨1, [], [], 0, 0⟩, 0⟩
  | some (valueSum, data) =>
    ⟨tx, true, baseTransaction valueSum data, (CPubKey.ofBytes data).getID env.hashes⟩

/-- The balances that `createBaseTransaction` keeps. -/
def createBaseTransaction (s : COriginAddressScanner) (tx : CTransaction) :
    COriginAddressScanner :=
  match findBase env tx with
  | none => s
  | some (valueSum, data) =>
    { s with
      balances := s.balances ++ [valueSum.toUInt64]
      keys := s.keys ++ [data]
      totalBalance := s.totalBalance + valueSum.toUInt64 }

end CreateBaseTransaction

section Steps

variable (env : OriginContext)

/-- `insert` into the map: an entry that is there stays. -/
def insertTransaction (time : Int64) (tx : CTransaction) :
    List (Int64 × CTransaction) → List (Int64 × CTransaction)
  | [] => [(time, tx)]
  | entry :: entries =>
    if time = entry.1 then entry :: entries
    else if time < entry.1 then (time, tx) :: entry :: entries
    else entry :: insertTransaction time tx entries

/-- `addTransaction`, under the lock. -/
def addTransaction (s : COriginAddressScanner) (timeStamp : UInt64) (tx : CTransaction) :
    COriginAddressScanner :=
  if tx.getHash env.hashes ∈ s.alreadyProcessed then s
  else { s with
    alreadyProcessed := insert (tx.getHash env.hashes) s.alreadyProcessed
    transactionToProcess := insertTransaction timeStamp.toInt64 tx s.transactionToProcess
    flushed :=
      if s.currentTime ≠ 0 ∨ s.currentTime ≠ timeStamp then
        s.flushed ++ [(s.currentTime, s.totalBalance, s.keys, s.balances)]
      else s.flushed
    currentTime := timeStamp }

/-- One transaction of an iteration. The result of `createBaseTransaction` is not
looked at. -/
def processTransaction (s : COriginAddressScanner) (tx : CTransaction) : COriginAddressScanner :=
  let s := { s with searched := s.searched ++ [tx] }
  { s.createBaseTransaction env tx with stored := s.stored ++ [minting env tx] }

/-- One iteration of `loop`, under the lock. -/
def loop (s : COriginAddressScanner) : COriginAddressScanner :=
  { (s.transactionToProcess.map Prod.snd).foldl (processTransaction env) s with
    transactionToProcess := [] }

end Steps

end COriginAddressScanner

inductive ScannerEvent
  | addTransaction (timeStamp : UInt64) (tx : CTransaction)
  | loop

namespace COriginAddressScanner

section

variable (env : OriginContext)

def step (s : COriginAddressScanner) : ScannerEvent → COriginAddressScanner
  | .addTransaction timeStamp tx => s.addTransaction env timeStamp tx
  | .loop => s.loop env

/-- What the output pays to the origin address, once for each solution that is it. -/
def originAmount (txout : CTxOut) : ℤ :=
  match solver txout.scriptPubKey with
  | none => 0
  | some (type, solutions) => solutions.countP (isOrigin env type) * txout.nValue.toInt

/-- A transaction from which something can be minted: all its output scripts can be
read, it pays to the origin address an amount that is not zero as an `unsigned int`,
and the scripts of its inputs can be read up to a push of the size of a public key. -/
structure Mintable (tx : CTransaction) : Prop where
  readable : ∀ txout ∈ tx.vout, txout.scriptPubKey.parses = true
  paying : UInt32.ofInt (tx.vout.map (originAmount env)).sum ≠ 0
  payable : ∃ passed txin rest data, tx.vin = passed ++ txin :: rest ∧
    (∀ i ∈ passed, findKeyPush i.scriptSig = some none) ∧
    findKeyPush txin.scriptSig = some (some data)

/-- What the scanner relies on: a new transaction comes with a time stamp that no
waiting one has, and something can be minted from it. -/
def Separate (s : COriginAddressScanner) : ScannerEvent → Prop
  | .addTransaction timeStamp tx => tx.getHash env.hashes ∉ s.alreadyProcessed →
      (∀ entry ∈ s.transactionToProcess, entry.1 ≠ timeStamp.toInt64) ∧ Mintable env tx
  | .loop => True

def waiting (s : COriginAddressScanner) (hash : Uint256) : ℕ :=
  s.transactionToProcess.countP fun entry => entry.2.getHash env.hashes = hash

/-- How many transactions the storage has got for the hash. -/
def storedFor (s : COriginAddressScanner) (hash : Uint256) : ℕ :=
  s.stored.countP fun m => m.origin.getHash env.hashes = hash

/-- How many of them come from a successful `createBaseTransaction`. -/
def minted (s : COriginAddressScanner) (hash : Uint256) : ℕ :=
  s.stored.countP fun m => m.success && m.origin.getHash env.hashes = hash

end

variable {env : OriginContext}

section Minting

private theorem add_ofInt_zero (sum : UInt32) : sum = sum + UInt32.ofInt 0 := (UInt32.add_zero sum).symm

theorem addOutput_eq (valueSum : UInt32) (txout : CTxOut) :
    addOutput env valueSum txout = valueSum + UInt32.ofInt (originAmount env txout) := by
  unfold addOutput originAmount
  cases solver txout.scriptPubKey with
  | none => exact add_ofInt_zero valueSum
  | some p =>
    obtain ⟨type, solutions⟩ := p
    dsimp only
    induction solutions generalizing valueSum with
    | nil =>
      rw [List.foldl_nil, List.countP_nil, Nat.cast_zero, zero_mul]
      exact add_ofInt_zero valueSum
    | cons solution solutions ih =>
      rw [List.foldl_cons, ih, List.countP_cons]
      by_cases horigin : isOrigin env type solution = true
      · rw [if_pos horigin, if_pos horigin, Nat.cast_add, add_mul, UInt32.ofInt_add]
        simp only [Nat.cast_one, one_mul]
        ac_rfl
      · rw [if_neg horigin, if_neg horigin, Nat.add_zero]

theorem sumOutputs_eq (valueSum : UInt32) {vout : List CTxOut}
    (hreadable : ∀ txout ∈ vout, txout.scriptPubKey.parses = true) :
    sumOutputs env valueSum vout =
      some (valueSum + UInt32.ofInt (vout.map (originAmount env)).sum) := by
  induction vout generalizing valueSum with
  | nil => exact congrArg some (add_ofInt_zero valueSum)
  | cons txout vout ih =>
    rw [sumOutputs, if_pos (hreadable txout List.mem_cons_self),
      ih _ fun o ho => hreadable o (List.mem_cons_of_mem _ ho), addOutput_eq, List.map_cons,
      List.sum_cons, UInt32.ofInt_add]
    ac_rfl

theorem readable_of_sumOutputs {valueSum sum : UInt32} {vout : List CTxOut}
    (h : sumOutputs env valueSum vout = some sum) :
    ∀ txout ∈ vout, txout.scriptPubKey.parses = true := by
  induction vout generalizing valueSum with
  | nil => exact nofun
  | cons txout vout ih =>
    rw [sumOutputs] at h
    split at h
    case isTrue hparses =>
      intro o ho
      rcases List.mem_cons.mp ho with rfl | hrest
      · exact hparses
      · exact ih h o hrest
    case isFalse => cases h

theorem findBaseKey_eq_some {vin : List CTxIn} {data : Bytes} :
    findBaseKey vin = some data ↔ ∃ passed txin rest, vin = passed ++ txin :: rest ∧
      (∀ i ∈ passed, findKeyPush i.scriptSig = some none) ∧
      findKeyPush txin.scriptSig = some (some data) := by
  induction vin with
  | nil => simp [findBaseKey]
  | cons txin vin ih =>
    rw [findBaseKey]
    constructor
    · intro h
      obtain ⟨pushed, hpush, hrest⟩ := Option.bind_eq_some_iff.mp h
      cases pushed with
      | some found =>
        cases hrest
        exact ⟨[], txin, vin, rfl, nofun, hpush⟩
      | none =>
        obtain ⟨passed, txin', rest, rfl, hpassed, hfound⟩ := ih.mp hrest
        refine ⟨txin :: passed, txin', rest, rfl, fun i hi => ?_, hfound⟩
        rcases List.mem_cons.mp hi with rfl | hi
        · exact hpush
        · exact hpassed i hi
    · rintro ⟨passed, txin', rest, hvin, hpassed, hfound⟩
      cases passed with
      | nil =>
        cases hvin
        rw [hfound]
        rfl
      | cons first passed =>
        cases hvin
        rw [hpassed txin List.mem_cons_self]
        exact ih.mpr ⟨passed, txin', rest, rfl, fun i hi => hpassed i (List.mem_cons_of_mem _ hi),
          hfound⟩

theorem findBase_isSome_iff (tx : CTransaction) :
    (findBase env tx).isSome = true ↔ Mintable env tx := by
  constructor
  · intro h
    obtain ⟨⟨valueSum, data⟩, hbase⟩ := Option.isSome_iff_exists.mp h
    obtain ⟨sum, hsum, hrest⟩ := Option.bind_eq_some_iff.mp hbase
    have hreadable := readable_of_sumOutputs hsum
    rw [sumOutputs_eq 0 hreadable, UInt32.zero_add] at hsum
    cases hsum
    split at hrest
    · cases hrest
    · next hpaying =>
      obtain ⟨data', hkey, -⟩ := Option.map_eq_some_iff.mp hrest
      obtain ⟨passed, txin, rest, hvin, hpassed, hfound⟩ := findBaseKey_eq_some.mp hkey
      exact ⟨hreadable, hpaying, passed, txin, rest, data', hvin, hpassed, hfound⟩
  · rintro ⟨hreadable, hpaying, passed, txin, rest, data, hvin, hpassed, hfound⟩
    have hkey : findBaseKey tx.vin = some data :=
      findBaseKey_eq_some.mpr ⟨passed, txin, rest, hvin, hpassed, hfound⟩
    rw [findBase, sumOutputs_eq 0 hreadable, UInt32.zero_add, Option.bind_some, if_neg hpaying, hkey]
    rfl

@[simp] theorem origin_minting (tx : CTransaction) : (minting env tx).origin = tx := by
  unfold minting
  split <;> rfl

theorem success_minting {tx : CTransaction} (h : Mintable env tx) :
    (minting env tx).success = true := by
  obtain ⟨p, hp⟩ := Option.isSome_iff_exists.mp ((findBase_isSome_iff tx).mpr h)
  rw [minting, hp]

end Minting

section Loop

theorem stored_foldl (txs : List CTransaction) (s : COriginAddressScanner) :
    (txs.foldl (processTransaction env) s).stored = s.stored ++ txs.map (minting env) ∧
      (txs.foldl (processTransaction env) s).alreadyProcessed = s.alreadyProcessed := by
  induction txs generalizing s with
  | nil => exact ⟨(List.append_nil _).symm, rfl⟩
  | cons tx txs ih =>
    obtain ⟨hstored, hprocessed⟩ := ih (processTransaction env s tx)
    have hone : (processTransaction env s tx).stored = s.stored ++ [minting env tx] ∧
        (processTransaction env s tx).alreadyProcessed = s.alreadyProcessed := by
      unfold processTransaction createBaseTransaction
      split <;> exact ⟨rfl, rfl⟩
    rw [List.foldl_cons, hstored, hprocessed, hone.1, hone.2, List.append_assoc]
    exact ⟨rfl, rfl⟩

/-- An iteration mints from everything that waits, and leaves nothing waiting. -/
theorem stored_loop (s : COriginAddressScanner) :
    (s.loop env).stored = s.stored ++ (s.transactionToProcess.map Prod.snd).map (minting env) :=
  (stored_foldl _ s).1

@[simp] theorem alreadyProcessed_loop (s : COriginAddressScanner) :
    (s.loop env).alreadyProcessed = s.alreadyProcessed := (stored_foldl _ s).2

@[simp] theorem transactionToProcess_loop (s : COriginAddressScanner) :
    (s.loop env).transactionToProcess = [] := rfl

theorem storedFor_loop (s : COriginAddressScanner) (hash : Uint256) :
    storedFor env (s.loop env) hash = storedFor env s hash + waiting env s hash := by
  rw [storedFor, stored_loop, List.countP_append, List.countP_map, List.countP_map]
  have hsame : ((fun m : CMinting => decide (m.origin.getHash env.hashes = hash)) ∘ minting env) ∘
      Prod.snd = fun entry : Int64 × CTransaction => decide (entry.2.getHash env.hashes = hash) := by
    funext entry
    simp
  rw [hsame]
  rfl

theorem insertTransaction_perm {time : Int64} {tx : CTransaction}
    {entries : List (Int64 × CTransaction)} (hfree : ∀ entry ∈ entries, entry.1 ≠ time) :
    (insertTransaction time tx entries).Perm ((time, tx) :: entries) := by
  induction entries with
  | nil => exact .refl _
  | cons entry entries ih =>
    rw [insertTransaction, if_neg (hfree entry List.mem_cons_self).symm]
    split
    · exact .refl _
    · exact ((ih fun e he => hfree e (List.mem_cons_of_mem _ he)).cons entry).trans (.swap _ _ _)

end Loop

section Invariant

variable (env)

/-- What a guarded run keeps: the marked transactions are waiting or stored, once,
and what is stored has been minted. -/
structure Accounted (s : COriginAddressScanner) : Prop where
  once : ∀ hash, waiting env s hash + storedFor env s hash =
    if hash ∈ s.alreadyProcessed then 1 else 0
  mintable : ∀ entry ∈ s.transactionToProcess, Mintable env entry.2
  minted : ∀ m ∈ s.stored, m = minting env m.origin ∧ m.success = true

variable {env}

theorem accounted_init : Accounted env init := ⟨fun _ => rfl, nofun, nofun⟩

theorem Accounted.addTransaction {s : COriginAddressScanner} (h : Accounted env s)
    {timeStamp : UInt64} {tx : CTransaction} (hseparate : Separate env s (.addTransaction timeStamp tx)) :
    Accounted env (s.addTransaction env timeStamp tx) := by
  unfold COriginAddressScanner.addTransaction
  split
  case isTrue => exact h
  case isFalse hnew =>
    obtain ⟨hfree, hmintable⟩ := hseparate hnew
    have hperm : (insertTransaction timeStamp.toInt64 tx s.transactionToProcess).Perm
        ((timeStamp.toInt64, tx) :: s.transactionToProcess) := insertTransaction_perm hfree
    refine ⟨fun hash => ?_, fun entry hentry => ?_, h.minted⟩
    · have hold := h.once hash
      have hcount : (insertTransaction timeStamp.toInt64 tx s.transactionToProcess).countP
          (fun entry => entry.2.getHash env.hashes = hash) =
            waiting env s hash + if tx.getHash env.hashes = hash then 1 else 0 := by
        rw [hperm.countP_eq, List.countP_cons]
        simp [waiting]
      change List.countP _ _ + storedFor env s hash = _
      rw [hcount]
      by_cases hsame : tx.getHash env.hashes = hash
      · subst hsame
        rw [if_neg hnew] at hold
        rw [if_pos rfl, if_pos (Finset.mem_insert_self _ _)]
        omega
      · rw [if_neg hsame]
        simp only [Finset.mem_insert, Ne.symm hsame, false_or]
        omega
    · rcases List.mem_cons.mp (hperm.mem_iff.mp hentry) with rfl | hold
      · exact hmintable
      · exact h.mintable entry hold

theorem Accounted.loop {s : COriginAddressScanner} (h : Accounted env s) :
    Accounted env (s.loop env) := by
  refine ⟨fun hash => ?_, nofun, fun m hm => ?_⟩
  · rw [storedFor_loop, alreadyProcessed_loop, ← h.once hash]
    simp only [waiting, transactionToProcess_loop, List.countP_nil]
    omega
  · rw [stored_loop] at hm
    rcases List.mem_append.mp hm with hold | hnew
    · exact h.minted m hold
    · obtain ⟨tx, htx, rfl⟩ := List.mem_map.mp hnew
      obtain ⟨entry, hentry, rfl⟩ := List.mem_map.mp htx
      exact ⟨by rw [origin_minting], success_minting (h.mintable entry hentry)⟩

theorem Accounted.step {s : COriginAddressScanner} {event : ScannerEvent} (h : Accounted env s)
    (hseparate : Separate env s event) : Accounted env (step env s event) := by
  cases event with
  | addTransaction timeStamp tx => exact h.addTransaction hseparate
  | loop => exact h.loop

theorem Accounted.minted_eq {s : COriginAddressScanner} (h : Accounted env s) (hash : Uint256) :
    COriginAddressScanner.minted env s hash = storedFor env s hash := by
  refine List.countP_congr fun m hm => ?_
  simp [(h.minted m hm).2]

end Invariant

section Run

theorem marked_run {events : List ScannerEvent} {s : COriginAddressScanner} {timeStamp : UInt64}
    {tx : CTransaction}
    (h : tx.getHash env.hashes ∈ s.alreadyProcessed ∨ .addTransaction timeStamp tx ∈ events) :
    tx.getHash env.hashes ∈ (GuardedRun.run (step env) s events).alreadyProcessed := by
  induction events generalizing s with
  | nil => exact h.resolve_right nofun
  | cons event events ih =>
    refine ih ?_
    have hkept : s.alreadyProcessed ⊆ (step env s event).alreadyProcessed := by
      cases event with
      | addTransaction timeStamp' tx' =>
        change _ ⊆ (s.addTransaction env timeStamp' tx').alreadyProcessed
        unfold addTransaction
        split
        · exact Finset.Subset.refl _
        · exact Finset.subset_insert _ _
      | loop =>
        change _ ⊆ (s.loop env).alreadyProcessed
        rw [alreadyProcessed_loop]
    rcases h with hmarked | hevent
    · exact .inl (hkept hmarked)
    · rcases List.mem_cons.mp hevent with rfl | hlater
      · refine .inl ?_
        change _ ∈ (s.addTransaction env timeStamp tx).alreadyProcessed
        unfold addTransaction
        split
        case isTrue hmarked => exact hmarked
        case isFalse => exact Finset.mem_insert_self _ _
      · exact .inr hlater

/-- In a guarded run every marked transaction waits or has been minted, once in all,
what was added has been minted once after the next iteration, and the storage gets
nothing else. -/
theorem minted_exactly_once {events : List ScannerEvent}
    (hguarded : GuardedRun.Guarded (step env) (Separate env) init events) :
    (∀ hash ∈ (GuardedRun.run (step env) init events).alreadyProcessed,
        waiting env (GuardedRun.run (step env) init events) hash +
          minted env (GuardedRun.run (step env) init events) hash = 1) ∧
      (∀ timeStamp tx, .addTransaction timeStamp tx ∈ events →
        minted env (GuardedRun.run (step env) init (events ++ [.loop])) (tx.getHash env.hashes) = 1) ∧
      ∀ m ∈ (GuardedRun.run (step env) init events).stored,
        m = minting env m.origin ∧ m.success = true := by
  have haccounted : Accounted env (GuardedRun.run (step env) init events) :=
    hguarded.invariant (fun _ _ hs hok => hs.step hok) accounted_init
  refine ⟨fun hash hmarked => ?_, fun timeStamp tx hadded => ?_, haccounted.minted⟩
  · rw [haccounted.minted_eq, haccounted.once, if_pos hmarked]
  · have hmarked : tx.getHash env.hashes ∈
        (GuardedRun.run (step env) init events).alreadyProcessed := marked_run (.inr hadded)
    rw [GuardedRun.run_append]
    change minted env ((GuardedRun.run (step env) init events).loop env) _ = 1
    rw [haccounted.loop.minted_eq, storedFor_loop, Nat.add_comm, haccounted.once, if_pos hmarked]

end Run

end COriginAddressScanner

namespace SameTimeStamp
open COriginAddressScanner

/-- The digest is the first byte, and the id of the origin address is zero. -/
def context : OriginContext :=
  ⟨⟨fun bytes => BitVec.ofNat 256 (bytes.headD 0).toNat, fun _ => 0⟩, 0⟩

def origin (nVersion : Int32) : CTransaction :=
  ⟨nVersion, [⟨.null, 0x21 :: 2 :: List.replicate 32 1, 0⟩],
    [⟨5, [0x76, 0xa9, 0x14] ++ List.replicate 20 0 ++ [0x88, 0xac]⟩], 0, 0⟩

set_option maxRecDepth 10000 in
theorem mintable_origin (nVersion : Int32) : Mintable context (origin nVersion) := by
  have hsome : (findBase context (origin 1)).isSome = true := by decide
  obtain ⟨hreadable, hpaying, hpayable⟩ := (findBase_isSome_iff (origin 1)).mp hsome
  exact ⟨hreadable, hpaying, hpayable⟩

/-- Two transactions under different time stamps, one of them added again, and a third that comes
behind the loop under a time stamp that was used. -/
def separated : List ScannerEvent :=
  [.addTransaction 0 (origin 1), .addTransaction 1 (origin 2), .addTransaction 2 (origin 1), .loop,
    .addTransaction 0 (origin 3)]

set_option maxRecDepth 10000 in
theorem guarded_separated :
    GuardedRun.Guarded (step context) (Separate context) init separated := by
  refine ⟨fun _ => ⟨by decide, mintable_origin 1⟩, fun _ => ⟨by decide, mintable_origin 2⟩,
    fun hnew => absurd ?_ hnew, trivial, fun _ => ⟨by decide, mintable_origin 3⟩, trivial⟩
  decide

/-- Each of them is minted once. -/
theorem minted_separated :
    [origin 1, origin 2, origin 3].map (fun tx =>
      minted context (GuardedRun.run (step context) init (separated ++ [.loop]))
        (tx.getHash context.hashes)) = [1, 1, 1] := by
  have hminted := (minted_exactly_once guarded_separated).2.1
  simp only [List.map_cons, List.map_nil, hminted 0 (origin 1) (by simp [separated]),
    hminted 1 (origin 2) (by simp [separated]), hminted 0 (origin 3) (by simp [separated])]

set_option maxRecDepth 10000 in
/-- Of two transactions that are added with one time stamp before the loop comes by,
the second is marked and never minted. -/
theorem marked_not_minted :
    let s := GuardedRun.run (step context) init
      ([.addTransaction 0 (origin 1), .addTransaction 0 (origin 2)] ++ [.loop])
    Mintable context (origin 2) ∧ (origin 2).getHash context.hashes ∈ s.alreadyProcessed ∧
      waiting context s ((origin 2).getHash context.hashes) = 0 ∧
      minted context s ((origin 2).getHash context.hashes) = 0 := by
  refine ⟨mintable_origin 2, ?_, rfl, ?_⟩
  · decide
  · decide

end SameTimeStamp

end Dims
