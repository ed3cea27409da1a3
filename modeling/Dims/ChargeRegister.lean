import Dims.Script
import Dims.GuardedRun
import Mathlib.Data.Finset.Basic
import Mathlib.Data.Finset.Dedup

/-!
# The charge register

A monitor that asks for a price is shown a transaction that pays it. The register
keeps the transactions that arrive while a paid registration waits, and a loop
searches them for those that are to be found. The states of paid registrations switch the
storing of transactions on when they are created and off when they are destroyed; the
actions that admit a bundle read the flag before they store its transactions.
-/

namespace Dims
open ByteCodec

/-- `common::findKeyInInputs`: the search ends at an input that cannot be read. -/
def findKeyInInputs (H : HashFunctions) (keyId : CKeyID) : List CTxIn → Bool
  | [] => false
  | txin :: vin =>
    if txin.scriptSig.decodeOps.1.any fun op =>
        (op.2.length = 33 ∨ op.2.length = 65) ∧ (CPubKey.ofBytes op.2).getID H = keyId then true
    else if txin.scriptSig.parses then findKeyInInputs H keyId vin else false

/-- A solution of a script of this type is the searched key. -/
def isSearchedKey (H : HashFunctions) (findId : CKeyID) (type : TxnOutType) (solution : Bytes) :
    Bool :=
  match type with
  | .pubkey => findId = H.hash160 solution
  | .pubkeyhash => findId = uint160OfBytes solution
  | _ => false

/-- `common::findOutputInTransaction`: the outputs to a key, each as often as a solution
of its script is the key. Those before a script that cannot be read are kept. -/
def findOutputInTransaction (H : HashFunctions) (findId : CKeyID) : List CTxOut → List CTxOut
  | [] => []
  | txout :: vout =>
    if txout.scriptPubKey.parses then
      let found := match solver txout.scriptPubKey with
        | none => []
        | some (type, solutions) =>
          (solutions.filter (isSearchedKey H findId type)).map fun _ => txout
      found ++ findOutputInTransaction H findId vout
    else []

structure CTransactionCheck where
  keyId : CKeyID
  price : UInt32
  deriving DecidableEq, Repr

structure CChargeRegister where
  /-- The map of the checks by hash; its order is not seen. -/
  searchTransaction : List (Uint256 × CTransactionCheck)
  acceptedTransactons : Finset Uint256
  toSearch : List CTransaction
  /-- `m_storeTransactions` -/
  storeFlag : Bool
  counter : ℤ

namespace CChargeRegister

/-- The constructor sets the counter; the flag has the value that its memory had. -/
def new (storeTransactions : Bool) : CChargeRegister := ⟨[], ∅, [], storeTransactions, 0⟩

/-- The check that is there already stays. -/
def addTransactionToSearch (r : CChargeRegister) (hash : Uint256) (check : CTransactionCheck) :
    CChargeRegister :=
  if r.searchTransaction.any (·.1 = hash) then r
  else { r with searchTransaction := r.searchTransaction ++ [(hash, check)] }

def storeTransactions (r : CChargeRegister) (transactions : List CTransaction) : CChargeRegister :=
  { r with toSearch := r.toSearch ++ transactions }

def setStoreTransactions (r : CChargeRegister) (store : Bool) : CChargeRegister :=
  let counter := if store then r.counter else r.counter - 1
  { r with
    toSearch := if !store ∧ counter < 1 then [] else r.toSearch
    counter := counter + 1
    storeFlag := store }

def getStoreTransactions (r : CChargeRegister) : Bool := r.storeFlag

def isTransactionPresent (r : CChargeRegister) (hash : Uint256) : Bool :=
  hash ∈ r.acceptedTransactons

section Loop

variable (H : HashFunctions) (myKeyId : CKeyID) (price : UInt32)

/-- What the loop sums up as an `unsigned int`. -/
def value (tx : CTransaction) : UInt32 :=
  (findOutputInTransaction H myKeyId tx.vout).foldl
    (fun value txOut => value + UInt32.ofInt txOut.nValue.toInt) 0

/-- The entry is found among the stored transactions. The price is the one that the
controller asks for at this moment. -/
def accepts (transactions : List CTransaction) (entry : Uint256 × CTransactionCheck) : Bool :=
  transactions.any fun tx =>
    entry.1 = tx.getHash H ∧ findKeyInInputs H entry.2.keyId tx.vin ∧ price ≤ value H myKeyId tx

/-- One iteration of `loop`. -/
def iterate (r : CChargeRegister) : CChargeRegister :=
  let remove := (r.searchTransaction.filter (accepts H myKeyId price r.toSearch)).map Prod.fst
  { r with
    acceptedTransactons := r.acceptedTransactons ∪ remove.toFinset
    searchTransaction := r.searchTransaction.filter (·.1 ∉ remove) }

end Loop

end CChargeRegister

/-- For each paid registration that is alive, the transactions stored since its
creation are recorded. -/
structure Retention where
  chargeRegister : CChargeRegister
  /-- The bundles whose actions have read the flag and have not stored them yet. -/
  arrived : List (List CTransaction)
  outstanding : List (List CTransaction)

namespace Retention

inductive Event
  /-- A constructor of `CPaidRegistration` or `CPaidEnterance`. -/
  | create
  /-- The destructor of one of those that are alive. -/
  | destroy (position : ℕ)
  /-- `getStoreTransactions` in `CWaitForBundle`. -/
  | arrive (transactions : List CTransaction)
  /-- The call of `storeTransactions` that follows. -/
  | store (position : ℕ)

def start (storeTransactions : Bool) : Retention := ⟨.new storeTransactions, [], []⟩

def step (s : Retention) : Event → Retention
  | .create =>
    { s with
      chargeRegister := s.chargeRegister.setStoreTransactions true
      outstanding := s.outstanding ++ [[]] }
  | .destroy position =>
    if position < s.outstanding.length then
      { s with
        chargeRegister := s.chargeRegister.setStoreTransactions false
        outstanding := s.outstanding.eraseIdx position }
    else s
  | .arrive transactions =>
    if s.chargeRegister.getStoreTransactions then
      { s with arrived := s.arrived ++ [transactions] }
    else s
  | .store position =>
    match s.arrived[position]? with
    | none => s
    | some transactions =>
      ⟨s.chargeRegister.storeTransactions transactions, s.arrived.eraseIdx position,
        s.outstanding.map (· ++ transactions)⟩

/-- Storing is on while a registration is alive, what was stored since its creation is
still there, and nothing is kept for no registration. -/
structure Retains (s : Retention) : Prop where
  storing : s.chargeRegister.storeFlag = true ↔ s.outstanding ≠ []
  kept : ∀ since ∈ s.outstanding, since <:+ s.chargeRegister.toSearch
  emptied : s.outstanding = [] → s.chargeRegister.toSearch = []

/-- A registration that ends is the only one, and the first one or one for which nothing
was stored; a bundle is stored while one is alive. -/
def Fits (s : Retention) : Event → Prop
  | .destroy position => position < s.outstanding.length →
      s.outstanding.length = 1 ∧
        (s.chargeRegister.counter ≤ 1 ∨ s.chargeRegister.toSearch = [])
  | .store position => ∀ transactions, s.arrived[position]? = some transactions →
      s.outstanding ≠ [] ∨ transactions = []
  | _ => True

theorem step_arrive (s : Retention) (transactions : List CTransaction) :
    (s.step (.arrive transactions)).chargeRegister = s.chargeRegister ∧
      (s.step (.arrive transactions)).outstanding = s.outstanding := by
  simp only [step]
  split <;> exact ⟨rfl, rfl⟩

theorem Retains.create {s : Retention} (h : s.Retains) : (s.step .create).Retains := by
  refine ⟨?_, ?_, ?_⟩
  · simp [step, CChargeRegister.setStoreTransactions]
  · intro since hsince
    rcases List.mem_append.mp hsince with hold | hnew
    · simpa [step, CChargeRegister.setStoreTransactions] using h.kept since hold
    · rw [List.mem_singleton.mp hnew]
      exact List.nil_suffix
  · simp [step]

theorem Retains.arrive {s : Retention} (h : s.Retains) (transactions : List CTransaction) :
    (s.step (.arrive transactions)).Retains := by
  obtain ⟨hregister, houtstanding⟩ := step_arrive s transactions
  refine ⟨?_, ?_, ?_⟩
  · rw [hregister, houtstanding]
    exact h.storing
  · rw [hregister, houtstanding]
    exact h.kept
  · rw [hregister, houtstanding]
    exact h.emptied

theorem step_destroy {s : Retention} {position : ℕ} (h : position < s.outstanding.length) :
    s.step (.destroy position) =
      { s with
        chargeRegister := s.chargeRegister.setStoreTransactions false
        outstanding := s.outstanding.eraseIdx position } :=
  if_pos h

/-- The flag goes off with any registration, so none may be left; what was stored is
cleared at the last one only. -/
theorem retains_destroy_iff {s : Retention} {position : ℕ}
    (hposition : position < s.outstanding.length) :
    (s.step (.destroy position)).Retains ↔ s.Fits (.destroy position) := by
  have hlength : (s.outstanding.eraseIdx position).length + 1 = s.outstanding.length :=
    List.length_eraseIdx_add_one hposition
  rw [step_destroy hposition]
  constructor
  · intro hnext _
    have hnone : s.outstanding.eraseIdx position = [] := by
      by_contra hsome
      exact Bool.false_ne_true (hnext.storing.mpr hsome)
    refine ⟨by rw [← hlength, hnone, List.length_nil], ?_⟩
    have hempty := hnext.emptied hnone
    by_cases hcounter : s.chargeRegister.counter ≤ 1
    · exact .inl hcounter
    · have hnot : ¬s.chargeRegister.counter - 1 < 1 := by omega
      simp only [CChargeRegister.setStoreTransactions, Bool.false_eq_true, ↓reduceIte,
        Bool.not_false, hnot, and_false] at hempty
      exact .inr hempty
  · intro hfits
    obtain ⟨hone, hempty⟩ := hfits hposition
    have hnone : s.outstanding.eraseIdx position = [] :=
      List.eq_nil_of_length_eq_zero (by omega)
    refine ⟨?_, ?_, ?_⟩
    · simp [CChargeRegister.setStoreTransactions, hnone]
    · simp [hnone]
    · intro _
      rcases hempty with hcounter | hempty
      · have hlow : s.chargeRegister.counter - 1 < 1 := by omega
        simp [CChargeRegister.setStoreTransactions, hlow]
      · simp [CChargeRegister.setStoreTransactions, hempty]

theorem step_store {s : Retention} {position : ℕ} {transactions : List CTransaction}
    (hbundle : s.arrived[position]? = some transactions) :
    s.step (.store position) =
      ⟨s.chargeRegister.storeTransactions transactions, s.arrived.eraseIdx position,
        s.outstanding.map (· ++ transactions)⟩ := by
  simp [step, hbundle]

/-- The flag was read at the arrival, so the bundle is stored for no registration if the
last one has ended in between. -/
theorem Retains.store_iff {s : Retention} (h : s.Retains) {position : ℕ}
    {transactions : List CTransaction} (hbundle : s.arrived[position]? = some transactions) :
    (s.step (.store position)).Retains ↔ s.Fits (.store position) := by
  rw [step_store hbundle]
  constructor
  · intro hnext bundle hsome
    obtain rfl : transactions = bundle := Option.some.inj (hbundle.symm.trans hsome)
    by_cases hnone : s.outstanding = []
    · have hempty := hnext.emptied (by simp [hnone])
      exact .inr (List.append_eq_nil_iff.mp hempty).2
    · exact .inl hnone
  · intro hfits
    refine ⟨?_, ?_, ?_⟩
    · simpa [CChargeRegister.storeTransactions] using h.storing
    · intro since hsince
      obtain ⟨before, hbefore, rfl⟩ := List.mem_map.mp hsince
      obtain ⟨earlier, heq⟩ := h.kept before hbefore
      exact ⟨earlier, by rw [← List.append_assoc, heq]; rfl⟩
    · intro hnone
      have hnone' := List.map_eq_nil_iff.mp hnone
      have htransactions := (hfits transactions hbundle).resolve_left fun hsome => hsome hnone'
      simp [CChargeRegister.storeTransactions, h.emptied hnone', htransactions]

theorem retains_step_iff {s : Retention} (h : s.Retains) (event : Event) :
    (s.step event).Retains ↔ s.Fits event := by
  cases event with
  | create => exact iff_of_true h.create trivial
  | destroy position =>
    by_cases hposition : position < s.outstanding.length
    · exact retains_destroy_iff hposition
    · have hsame : s.step (.destroy position) = s := if_neg hposition
      rw [hsame]
      exact iff_of_true h fun hlt => absurd hlt hposition
  | arrive transactions => exact iff_of_true (h.arrive transactions) trivial
  | store position =>
    cases hbundle : s.arrived[position]? with
    | none =>
      have hsame : s.step (.store position) = s := by simp [step, hbundle]
      rw [hsame]
      exact iff_of_true h fun transactions hsome => by rw [hbundle] at hsome; cases hsome
    | some transactions => exact h.store_iff hbundle

theorem retains_start_iff (storeTransactions : Bool) :
    (start storeTransactions).Retains ↔ storeTransactions = false := by
  constructor
  · intro h
    by_contra htrue
    exact h.storing.mp (Bool.eq_true_of_not_eq_false htrue) rfl
  · rintro rfl
    refine ⟨?_, ?_, fun _ => rfl⟩
    · simp [start, CChargeRegister.new]
    · simp [start]

/-- Transactions are retained throughout a run if and only if the flag is off at the
start, and registrations end and bundles are stored as `Fits` says. -/
theorem retains_throughout_iff (storeTransactions : Bool) (events : List Event) :
    (∀ past, past <+: events → (GuardedRun.run step (start storeTransactions) past).Retains) ↔
      storeTransactions = false ∧ GuardedRun.Guarded step Fits (start storeTransactions) events := by
  have hok : ∀ (s : Retention) event, True → s.Retains → ((s.step event).Retains ↔ s.Fits event) :=
    fun _ event _ h => retains_step_iff h event
  constructor
  · intro hall
    have hstart : (start storeTransactions).Retains := hall [] List.nil_prefix
    exact ⟨(retains_start_iff storeTransactions).mp hstart,
      (GuardedRun.always_iff (fun _ _ _ => trivial) hok trivial hstart).mp hall⟩
  · rintro ⟨hflag, hguarded⟩
    have hstart := (retains_start_iff storeTransactions).mpr hflag
    exact (GuardedRun.always_iff (fun _ _ _ => trivial) hok trivial hstart).mpr hguarded

/-- One of two registrations ends, and nothing is stored for the other one any more. -/
theorem storing_off_while_waiting :
    ¬∀ events past : List Event, past <+: events →
      (GuardedRun.run step (start false) past).Retains := by
  intro h
  have hretains := h [.create, .create, .destroy 0] _ List.prefix_rfl
  exact Bool.false_ne_true (hretains.storing.mpr (List.cons_ne_nil _ _))

/-- The second registration leaves what was stored for it. -/
example :
    (GuardedRun.run step (start false) [.create, .destroy 0, .create,
      .arrive [⟨1, [], [], 0, 0⟩], .store 0, .destroy 0]).chargeRegister.toSearch =
        [⟨1, [], [], 0, 0⟩] := rfl

end Retention

end Dims
