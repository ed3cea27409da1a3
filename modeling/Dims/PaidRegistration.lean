import Dims.ChargeRegister
import Dims.ReputationTracker

/-!
# Paid registrations

Trackers and monitors are admitted for a payment: an action waits for the hash of a
transaction, has the charge register search for it and grants a period when the hash
is accepted. All actions share the register.
-/

namespace Dims

inductive PaidKind
  /-- `CPaidRegistration`, of new trackers and of those that extend. -/
  | registration
  /-- `CPaidEnterance` -/
  | enterance
  deriving DecidableEq, Repr

/-- An action in one of the two states. -/
structure PaidAction where
  kind : PaidKind
  partnerKey : CPubKey
  proofHash : Uint256
  messageId : Uint256
  pubKey : CPubKey
  address : CAddress
  closeTime : Int64
  /-- A time event has been asked for and has not come. -/
  timeRequested : Bool
  exit : Bool
  /-- The state is not destroyed yet. -/
  alive : Bool
  /-- The price that the last check was requested with. -/
  recordedPrice : UInt32

/-- The action reacts to a time event. -/
def PaidAction.Waits (a : PaidAction) : Prop := a.alive ∧ a.timeRequested

instance (a : PaidAction) : Decidable a.Waits := inferInstanceAs (Decidable (_ ∧ _))

structure CheckRequest where
  hash : Uint256
  check : CTransactionCheck

/-- A period or an entrance that a node was granted for a hash, and the price recorded
when the check was requested. -/
structure Grant where
  hash : Uint256
  key : CPubKey
  price : UInt32

inductive PaidMessage
  | ack (messageId : Uint256) (receiver : CPubKey)
  | result (messageId : Uint256) (receiver : CPubKey)

/-- The register and the ranking of a monitor, its prices and its paid actions, with
the messages sent and a record of what was stored, requested and granted. -/
structure PaidAdmission where
  chargeRegister : CChargeRegister
  reputation : CReputationTracker
  price : UInt32
  enterancePrice : UInt32
  actions : List PaidAction
  sent : List PaidMessage
  stored : List CTransaction
  requests : List CheckRequest
  granted : List Grant

namespace PaidAdmission
open CReputationTracker

inductive Event
  /-- The constructor of a state. The close time of a registration is set if there are
  no trackers, and keeps the value of its memory otherwise. -/
  | start (kind : PaidKind) (partnerKey : CPubKey) (now uninitialized : Int64)
  /-- A proof from a node; its address, that of the key, is known. -/
  | proof (action : ℕ) (pubKey : CPubKey) (hash messageId : Uint256) (address : CAddress)
  /-- A time event; the address of the partner is known. -/
  | time (action : ℕ) (now : Int64) (period tryPeriod : UInt64) (address : CAddress)
  | ack (action : ℕ)
  /-- The destructor, after the action has asked to exit. -/
  | finish (action : ℕ)
  | storeTransactions (transactions : List CTransaction)
  /-- An iteration of the loop of the register. -/
  | loop
  | setPrice (price : UInt32)
  | setEnterancePrice (price : UInt32)

variable (env : ReputationContext)

def start (storeTransactions : Bool) (reputation : CReputationTracker) (price enterancePrice : UInt32) :
    PaidAdmission :=
  ⟨.new storeTransactions, reputation, price, enterancePrice, [], [], [], [], []⟩

/-- The price that a kind of action records. -/
def askedPrice (s : PaidAdmission) : PaidKind → UInt32
  | .registration => s.price
  | .enterance => s.enterancePrice

def construct (s : PaidAdmission) (kind : PaidKind) (partnerKey : CPubKey)
    (now uninitialized : Int64) : PaidAdmission :=
  let first := kind = .registration ∧ s.reputation.registeredTrackers.entries = []
  { s with
    chargeRegister := s.chargeRegister.setStoreTransactions true
    reputation :=
      if first then s.reputation.addNodeToSynch (keyId env partnerKey) else s.reputation
    actions := s.actions ++ [⟨kind, partnerKey, 0, 0, .invalid, ⟨0, 0, 0, 0⟩,
      if first then now else uninitialized, false, false, true, 0⟩] }

/-- `react( CMessageResult )` of both states. -/
def reactProof (s : PaidAdmission) (i : ℕ) (a : PaidAction) (pubKey : CPubKey)
    (hash messageId : Uint256) (address : CAddress) : PaidAdmission :=
  let check : CTransactionCheck := ⟨keyId env pubKey, s.askedPrice a.kind⟩
  { s with
    chargeRegister := s.chargeRegister.addTransactionToSearch hash check
    actions := s.actions.set i { a with
      proofHash := hash
      messageId := messageId
      pubKey := pubKey
      address := if a.kind = .enterance then address else a.address
      timeRequested := true
      recordedPrice := check.price }
    sent := s.sent ++ [.ack messageId pubKey]
    requests := s.requests ++ [⟨hash, check⟩] }

/-- What `CPaidRegistration` registers: the period is added to the time of a tracker
that is registered already. -/
def grantedTracker (s : PaidAdmission) (a : PaidAction) (now : Int64) (period : UInt64)
    (address : CAddress) : CTrackerData :=
  match s.reputation.getTracker (keyId env a.partnerKey) with
  | some data => { data with networkTime := data.networkTime + period }
  | none => ⟨⟨a.partnerKey, address⟩, 0, period, now.toUInt64⟩

/-- `react( CTimeEvent )` of both states. An entrance that was granted stays as it is. -/
def reactTime (s : PaidAdmission) (i : ℕ) (a : PaidAction) (now : Int64)
    (period tryPeriod : UInt64) (address : CAddress) : PaidAdmission :=
  let late := a.kind = .registration ∧ a.closeTime.toUInt64 + tryPeriod < now.toUInt64
  if s.chargeRegister.isTransactionPresent a.proofHash then
    let reputation := match a.kind with
      | .registration => s.reputation.addTracker env (grantedTracker env s a now period address)
      | .enterance => s.reputation.addAllyMonitor env ⟨⟨a.partnerKey, a.address⟩⟩
    { s with
      reputation := reputation.addNodeToSynch (keyId env a.partnerKey)
      actions := s.actions.set i { a with
        timeRequested := false
        exit := a.exit ∨ a.kind = .registration }
      sent := s.sent ++ [.result a.messageId
        (match a.kind with
          | .registration => a.partnerKey
          | .enterance => a.pubKey)]
      granted := s.granted ++ [⟨a.proofHash, a.partnerKey, a.recordedPrice⟩] }
  else
    { s with actions := s.actions.set i { a with timeRequested := true, exit := a.exit ∨ late } }

def step (s : PaidAdmission) : Event → PaidAdmission
  | .start kind partnerKey now uninitialized => s.construct env kind partnerKey now uninitialized
  | .proof i pubKey hash messageId address =>
    match s.actions[i]? with
    | some a => if a.alive then s.reactProof env i a pubKey hash messageId address else s
    | none => s
  | .time i now period tryPeriod address =>
    match s.actions[i]? with
    | some a =>
      if a.Waits then s.reactTime env i a now period tryPeriod address else s
    | none => s
  | .ack i =>
    match s.actions[i]? with
    | some a =>
      if a.alive then { s with actions := s.actions.set i { a with exit := true } } else s
    | none => s
  | .finish i =>
    match s.actions[i]? with
    | some a =>
      if a.alive ∧ a.exit then
        { s with
          chargeRegister := s.chargeRegister.setStoreTransactions false
          actions := s.actions.set i { a with alive := false } }
      else s
    | none => s
  | .storeTransactions transactions =>
    { s with
      chargeRegister := s.chargeRegister.storeTransactions transactions
      stored := s.stored ++ transactions }
  | .loop =>
    { s with chargeRegister := s.chargeRegister.iterate env.hashes (keyId env env.myKey) s.price }
  | .setPrice price => { s with price := price }
  | .setEnterancePrice price => { s with enterancePrice := price }

def paid (tx : CTransaction) : ℤ :=
  ((findOutputInTransaction env.hashes (keyId env env.myKey) tx.vout).map fun txOut =>
    txOut.nValue.toInt).sum

/-- The transaction of a hash is one of the node with a key and pays at least a price. -/
def PaidBy (s : PaidAdmission) (hash : Uint256) (keyId : CKeyID) (price : UInt32) : Prop :=
  ∃ tx ∈ s.stored, tx.getHash env.hashes = hash ∧ findKeyInInputs env.hashes keyId tx.vin ∧
    (price.toNat : ℤ) ≤ paid env tx

/-- One payment buys one registration. -/
structure Fair (s : PaidAdmission) : Prop where
  once : (s.granted.map Grant.hash).Nodup
  paid : ∀ grant ∈ s.granted, s.PaidBy env grant.hash (keyId env grant.key) grant.price

/-- The condition of a step. A proof comes from the partner and names a hash that no
other node has named, no other action waits for and nothing was granted for; if it has been
accepted, then at no lower price. The loop compares with no less than what was recorded,
and stored outputs are not negative. -/
def Bound (s : PaidAdmission) : Event → Prop
  | .proof i pubKey hash _ _ => ∀ a, s.actions[i]? = some a → a.alive →
    keyId env pubKey = keyId env a.partnerKey ∧
    (∀ request ∈ s.requests, request.hash = hash → request.check.keyId = keyId env pubKey) ∧
    (∀ j b, s.actions[j]? = some b → b.Waits → b.proofHash = hash → j = i) ∧
    (∀ grant ∈ s.granted, grant.hash ≠ hash) ∧
    (hash ∈ s.chargeRegister.acceptedTransactons →
      ∃ request ∈ s.requests, request.hash = hash ∧ s.askedPrice a.kind ≤ request.check.price)
  | .loop => ∀ entry ∈ s.chargeRegister.searchTransaction,
    (∃ tx ∈ s.chargeRegister.toSearch, tx.getHash env.hashes = entry.1) →
      ∀ request ∈ s.requests, request.hash = entry.1 → request.check.price ≤ s.price
  | .storeTransactions transactions => ∀ tx ∈ transactions, ∀ txOut ∈ tx.vout, 0 ≤ txOut.nValue
  | _ => True

/-- A hash that is accepted was requested, and its transaction meets every request. -/
def Met (requests : List CheckRequest) (stored : List CTransaction) (hash : Uint256) : Prop :=
  (∃ request ∈ requests, request.hash = hash) ∧
    ∃ tx ∈ stored, tx.getHash env.hashes = hash ∧ ∀ request ∈ requests, request.hash = hash →
      findKeyInInputs env.hashes request.check.keyId tx.vin ∧
        (request.check.price.toNat : ℤ) ≤ paid env tx

/-- What the register looks for and has accepted, by the requests and the stored
transactions. -/
structure Searches (r : CChargeRegister) (requests : List CheckRequest)
    (stored : List CTransaction) : Prop where
  sameKey : ∀ request ∈ requests, ∀ other ∈ requests, request.hash = other.hash →
    request.check.keyId = other.check.keyId
  searched : ∀ entry ∈ r.searchTransaction, ∃ request ∈ requests,
    request.hash = entry.1 ∧ request.check = entry.2
  accepted : ∀ hash ∈ r.acceptedTransactons, Met env requests stored hash
  kept : ∀ tx ∈ r.toSearch, tx ∈ stored
  positive : ∀ tx ∈ stored, ∀ txOut ∈ tx.vout, 0 ≤ txOut.nValue

/-- An action that waits has requested its hash with the key of its partner, is the only
one that waits for it, and nothing was granted for it. -/
structure Waiting (actions : List PaidAction) (requests : List CheckRequest)
    (granted : List Grant) : Prop where
  requested : ∀ (i : ℕ) (a : PaidAction), actions[i]? = some a → a.Waits → ∃ request ∈ requests,
    request.hash = a.proofHash ∧ request.check = ⟨keyId env a.partnerKey, a.recordedPrice⟩
  ungranted : ∀ (i : ℕ) (a : PaidAction), actions[i]? = some a → a.Waits →
    ∀ grant ∈ granted, grant.hash ≠ a.proofHash
  unshared : ∀ (i j : ℕ) (a b : PaidAction), actions[i]? = some a → actions[j]? = some b →
    a.Waits → b.Waits → a.proofHash = b.proofHash → i = j

structure Invariant (s : PaidAdmission) : Prop where
  fair : s.Fair env
  searches : Searches env s.chargeRegister s.requests s.stored
  waiting : Waiting env s.actions s.requests s.granted

variable {env} {s : PaidAdmission}

theorem mem_findOutputInTransaction {H : HashFunctions} {findId : CKeyID} {vout : List CTxOut}
    {txOut : CTxOut} (h : txOut ∈ findOutputInTransaction H findId vout) : txOut ∈ vout := by
  induction vout with
  | nil => exact absurd h List.not_mem_nil
  | cons first vout ih =>
    rw [findOutputInTransaction] at h
    split at h
    · rcases List.mem_append.mp h with hfound | hrest
      · cases hsolver : solver first.scriptPubKey with
        | none => simp [hsolver] at hfound
        | some solution =>
          simp only [hsolver, List.mem_map] at hfound
          obtain ⟨-, -, rfl⟩ := hfound
          exact List.mem_cons_self
      · exact List.mem_cons_of_mem _ (ih hrest)
    · exact absurd h List.not_mem_nil

theorem toNat_foldl_add_le (outputs : List CTxOut) (value : UInt32)
    (h : ∀ txOut ∈ outputs, 0 ≤ txOut.nValue) :
    ((outputs.foldl (fun value txOut => value + UInt32.ofInt txOut.nValue.toInt) value).toNat : ℤ) ≤
      value.toNat + (outputs.map fun txOut => txOut.nValue.toInt).sum := by
  induction outputs generalizing value with
  | nil => simp
  | cons txOut outputs ih =>
    have hfirst : 0 ≤ txOut.nValue.toInt := by
      have hle := h txOut List.mem_cons_self
      rwa [Int64.le_iff_toInt_le] at hle
    have hstep : ((value + UInt32.ofInt txOut.nValue.toInt).toNat : ℤ) ≤
        value.toNat + txOut.nValue.toInt := by
      have hnat : (UInt32.ofInt txOut.nValue.toInt).toNat =
          (txOut.nValue.toInt % 4294967296).toNat := by
        simp only [UInt32.ofInt, UInt32.toNat_ofNat']
        omega
      rw [UInt32.toNat_add, hnat]
      omega
    have hrest := ih (value + UInt32.ofInt txOut.nValue.toInt)
      fun out hout => h out (List.mem_cons_of_mem _ hout)
    rw [List.foldl_cons, List.map_cons, List.sum_cons]
    omega

variable (env) in
theorem value_le_paid {tx : CTransaction} (h : ∀ txOut ∈ tx.vout, 0 ≤ txOut.nValue) :
    ((CChargeRegister.value env.hashes (keyId env env.myKey) tx).toNat : ℤ) ≤ paid env tx := by
  have hsum := toNat_foldl_add_le (findOutputInTransaction env.hashes (keyId env env.myKey) tx.vout) 0
    fun txOut hout => h txOut (mem_findOutputInTransaction hout)
  simpa [CChargeRegister.value, paid] using hsum

section Requests

variable {r : CChargeRegister} {requests : List CheckRequest} {stored : List CTransaction}
  {actions : List PaidAction} {granted : List Grant}

/-- The loop accepts a hash only if its transaction meets all requests for it. -/
theorem Searches.iterate (h : Searches env r requests stored) {price : UInt32}
    (hprice : ∀ entry ∈ r.searchTransaction,
      (∃ tx ∈ r.toSearch, tx.getHash env.hashes = entry.1) →
        ∀ request ∈ requests, request.hash = entry.1 → request.check.price ≤ price) :
    Searches env (r.iterate env.hashes (keyId env env.myKey) price) requests stored := by
  refine ⟨h.sameKey, fun entry hentry => ?_, fun hash hhash => ?_, h.kept, h.positive⟩
  · exact h.searched entry (List.mem_filter.mp hentry).1
  · rcases Finset.mem_union.mp hhash with hold | hnew
    · exact h.accepted hash hold
    · obtain ⟨entry, hentry, rfl⟩ := List.mem_map.mp (List.mem_toFinset.mp hnew)
      obtain ⟨hentry, haccepts⟩ := List.mem_filter.mp hentry
      obtain ⟨tx, htx, hfound⟩ := List.any_eq_true.mp haccepts
      obtain ⟨hhash, hkey, hvalue⟩ := of_decide_eq_true hfound
      obtain ⟨first, hfirst, hfirsthash, hcheck⟩ := h.searched entry hentry
      refine ⟨⟨first, hfirst, hfirsthash⟩, tx, h.kept tx htx, hhash.symm,
        fun request hrequest hsame => ?_⟩
      have hkeyId : request.check.keyId = entry.2.keyId := by
        rw [h.sameKey request hrequest first hfirst (hsame.trans hfirsthash.symm), hcheck]
      have hasked := hprice entry hentry ⟨tx, htx, hhash.symm⟩ request hrequest hsame
      have hpaid := value_le_paid env (h.positive tx (h.kept tx htx))
      refine ⟨hkeyId ▸ hkey, ?_⟩
      rw [UInt32.le_iff_toNat_le] at hasked hvalue
      omega

theorem Met.store {hash : Uint256} (h : Met env requests stored hash)
    (transactions : List CTransaction) : Met env requests (stored ++ transactions) hash := by
  obtain ⟨hrequested, tx, htx, hmeets⟩ := h
  exact ⟨hrequested, tx, List.mem_append_left _ htx, hmeets⟩

theorem Searches.storeTransactions (h : Searches env r requests stored)
    {transactions : List CTransaction}
    (hpositive : ∀ tx ∈ transactions, ∀ txOut ∈ tx.vout, 0 ≤ txOut.nValue) :
    Searches env (r.storeTransactions transactions) requests (stored ++ transactions) := by
  refine ⟨h.sameKey, h.searched, fun hash hhash => (h.accepted hash hhash).store _,
    fun tx htx => ?_, fun tx htx => ?_⟩
  · rcases List.mem_append.mp htx with hold | hnew
    · exact List.mem_append_left _ (h.kept tx hold)
    · exact List.mem_append_right _ hnew
  · rcases List.mem_append.mp htx with hold | hnew
    · exact h.positive tx hold
    · exact hpositive tx hnew

theorem Searches.setStoreTransactions (h : Searches env r requests stored) (store : Bool) :
    Searches env (r.setStoreTransactions store) requests stored := by
  refine ⟨h.sameKey, h.searched, h.accepted, fun tx htx => ?_, h.positive⟩
  have hsub : (r.setStoreTransactions store).toSearch = [] ∨
      (r.setStoreTransactions store).toSearch = r.toSearch := ite_eq_or_eq _ _ _
  rcases hsub with hempty | hsame
  · rw [hempty] at htx
    exact absurd htx List.not_mem_nil
  · rw [hsame] at htx
    exact h.kept tx htx

/-- A request that comes with the key of the earlier ones changes nothing for what has
been accepted, if its price is no higher than one of these. -/
theorem Met.request {hash : Uint256} (h : Met env requests stored hash) (request : CheckRequest)
    (hearlier : request.hash = hash → ∃ earlier ∈ requests, earlier.hash = hash ∧
      request.check.keyId = earlier.check.keyId ∧ request.check.price ≤ earlier.check.price) :
    Met env (requests ++ [request]) stored hash := by
  obtain ⟨⟨first, hfirst, hfirsthash⟩, tx, htx, hsame, hmeets⟩ := h
  refine ⟨⟨first, List.mem_append_left _ hfirst, hfirsthash⟩, tx, htx, hsame, fun q hq hqhash => ?_⟩
  rcases List.mem_append.mp hq with hq | hq
  · exact hmeets q hq hqhash
  · obtain rfl := List.mem_singleton.mp hq
    obtain ⟨earlier, hmem, hhash, hkey, hprice⟩ := hearlier hqhash
    obtain ⟨hfound, hpaid⟩ := hmeets earlier hmem hhash
    rw [UInt32.le_iff_toNat_le] at hprice
    refine ⟨hkey ▸ hfound, ?_⟩
    omega

theorem Searches.addTransactionToSearch (h : Searches env r requests stored)
    (request : CheckRequest)
    (hkey : ∀ earlier ∈ requests, earlier.hash = request.hash →
      earlier.check.keyId = request.check.keyId)
    (hprice : request.hash ∈ r.acceptedTransactons → ∃ earlier ∈ requests,
      earlier.hash = request.hash ∧ request.check.price ≤ earlier.check.price) :
    Searches env (r.addTransactionToSearch request.hash request.check) (requests ++ [request])
      stored := by
  have hrest : (r.addTransactionToSearch request.hash request.check).acceptedTransactons =
      r.acceptedTransactons ∧
        (r.addTransactionToSearch request.hash request.check).toSearch = r.toSearch := by
    simp only [CChargeRegister.addTransactionToSearch]
    split <;> exact ⟨rfl, rfl⟩
  refine ⟨fun q hq other hother hsame => ?_, fun entry hentry => ?_, fun hash hhash => ?_,
    hrest.2 ▸ h.kept, h.positive⟩
  · rcases List.mem_append.mp hq with hold | hnew
    · rcases List.mem_append.mp hother with hold' | hnew'
      · exact h.sameKey q hold other hold' hsame
      · rw [List.mem_singleton.mp hnew'] at hsame ⊢
        exact hkey q hold hsame
    · rw [List.mem_singleton.mp hnew] at hsame ⊢
      rcases List.mem_append.mp hother with hold' | hnew'
      · exact (hkey other hold' hsame.symm).symm
      · rw [List.mem_singleton.mp hnew']
  · have hcases : entry ∈ r.searchTransaction ∨ entry = (request.hash, request.check) := by
      simp only [CChargeRegister.addTransactionToSearch] at hentry
      split at hentry
      · exact .inl hentry
      · simpa using hentry
    rcases hcases with hold | rfl
    · obtain ⟨q, hq, hsame⟩ := h.searched entry hold
      exact ⟨q, List.mem_append_left _ hq, hsame⟩
    · exact ⟨request, List.mem_append_right _ (List.mem_singleton_self _), rfl, rfl⟩
  · rw [hrest.1] at hhash
    refine (h.accepted hash hhash).request request fun hsame => ?_
    obtain ⟨earlier, hmem, hearlier, hle⟩ := hprice (hsame ▸ hhash)
    exact ⟨earlier, hmem, hearlier.trans hsame, (hkey earlier hmem hearlier).symm, hle⟩

theorem Waiting.mono (h : Waiting env actions requests granted) {actions' : List PaidAction}
    (hbefore : ∀ (i : ℕ) (a : PaidAction), actions'[i]? = some a → a.Waits →
      ∃ b, actions[i]? = some b ∧ b.Waits ∧ b.proofHash = a.proofHash ∧
        b.partnerKey = a.partnerKey ∧ b.recordedPrice = a.recordedPrice) :
    Waiting env actions' requests granted := by
  refine ⟨fun i a ha hwaits => ?_, fun i a ha hwaits => ?_, fun i j a a' ha ha' hwaits hwaits' hhash => ?_⟩
  · obtain ⟨b, hb, hb', hhash, hkey, hprice⟩ := hbefore i a ha hwaits
    rw [← hhash, ← hkey, ← hprice]
    exact h.requested i b hb hb'
  · obtain ⟨b, hb, hb', hhash, -⟩ := hbefore i a ha hwaits
    rw [← hhash]
    exact h.ungranted i b hb hb'
  · obtain ⟨b, hb, hbw, hbhash, -⟩ := hbefore i a ha hwaits
    obtain ⟨b', hb', hbw', hbhash', -⟩ := hbefore j a' ha' hwaits'
    exact h.unshared i j b b' hb hb' hbw hbw' (by rw [hbhash, hbhash', hhash])

theorem Waiting.set (h : Waiting env actions requests granted) {i : ℕ} {a a' : PaidAction}
    (ha : actions[i]? = some a) (hwaits : a'.Waits → a.Waits ∧ a.proofHash = a'.proofHash ∧
      a.partnerKey = a'.partnerKey ∧ a.recordedPrice = a'.recordedPrice) :
    Waiting env (actions.set i a') requests granted := by
  refine h.mono fun j b hb hbw => ?_
  by_cases hij : i = j
  · subst hij
    obtain rfl : a' = b := by simpa [List.getElem?_set_self', ha] using hb
    obtain ⟨hw, hhash, hkey, hprice⟩ := hwaits hbw
    exact ⟨a, ha, hw, hhash, hkey, hprice⟩
  · rw [List.getElem?_set_ne hij] at hb
    exact ⟨b, hb, hbw, rfl, rfl, rfl⟩

theorem Waiting.append (h : Waiting env actions requests granted) {a : PaidAction}
    (hwaits : ¬a.Waits) : Waiting env (actions ++ [a]) requests granted := by
  refine h.mono fun j b hb hbw => ?_
  have hmem : actions[j]? = some b := by
    rcases Nat.lt_or_ge j actions.length with hlt | hge
    · rwa [List.getElem?_append_left hlt] at hb
    · rw [List.getElem?_append_right hge] at hb
      have hlast : b ∈ [a] := List.mem_of_getElem? hb
      exact absurd (List.mem_singleton.mp hlast ▸ hbw) hwaits
  exact ⟨b, hmem, hbw, rfl, rfl, rfl⟩

theorem Waiting.request (h : Waiting env actions requests granted) {i : ℕ} {a a' : PaidAction}
    (ha : actions[i]? = some a) {request : CheckRequest} (hhash : request.hash = a'.proofHash)
    (hcheck : request.check = ⟨keyId env a'.partnerKey, a'.recordedPrice⟩)
    (hothers : ∀ j b, actions[j]? = some b → b.Waits → b.proofHash = a'.proofHash → j = i)
    (hgranted : ∀ grant ∈ granted, grant.hash ≠ a'.proofHash) :
    Waiting env (actions.set i a') (requests ++ [request]) granted := by
  have hself : ∀ b, (actions.set i a')[i]? = some b → b = a' := fun b hb => by
    rw [List.getElem?_set_self', ha] at hb
    exact (Option.some.inj hb).symm
  refine ⟨fun j b hb hbw => ?_, fun j b hb hbw => ?_, fun j k b c hb hc hbw hcw hsame => ?_⟩
  · by_cases hij : i = j
    · subst hij
      obtain rfl := hself b hb
      exact ⟨request, List.mem_append_right _ (List.mem_singleton_self _), hhash, hcheck⟩
    · rw [List.getElem?_set_ne hij] at hb
      obtain ⟨q, hq, hmatch⟩ := h.requested j b hb hbw
      exact ⟨q, List.mem_append_left _ hq, hmatch⟩
  · by_cases hij : i = j
    · subst hij
      obtain rfl := hself b hb
      exact hgranted
    · rw [List.getElem?_set_ne hij] at hb
      exact h.ungranted j b hb hbw
  · by_cases hij : i = j
    · subst hij
      obtain rfl := hself b hb
      by_cases hik : i = k
      · exact hik
      · rw [List.getElem?_set_ne hik] at hc
        exact (hothers k c hc hcw hsame.symm).symm
    · rw [List.getElem?_set_ne hij] at hb
      by_cases hik : i = k
      · subst hik
        obtain rfl := hself c hc
        exact hothers j b hb hbw hsame
      · rw [List.getElem?_set_ne hik] at hc
        exact h.unshared j k b c hb hc hbw hcw hsame

theorem Waiting.grant (h : Waiting env actions requests granted) {i : ℕ} {a a' : PaidAction}
    (ha : actions[i]? = some a) (hwaits : a.Waits) (hdone : ¬a'.Waits) {grant : Grant}
    (hhash : grant.hash = a.proofHash) :
    Waiting env (actions.set i a') requests (granted ++ [grant]) := by
  have hset := h.set ha (fun hwaits' => absurd hwaits' hdone)
  refine ⟨hset.requested, fun j b hb hbw g hg => ?_, hset.unshared⟩
  rcases List.mem_append.mp hg with hold | hnew
  · exact hset.ungranted j b hb hbw g hold
  · rw [List.mem_singleton.mp hnew, hhash]
    intro hsame
    by_cases hij : i = j
    · subst hij
      obtain rfl : a' = b := by simpa [List.getElem?_set_self', ha] using hb
      exact hdone hbw
    · rw [List.getElem?_set_ne hij] at hb
      exact hij (h.unshared i j a b ha hb hwaits hbw hsame)

end Requests

theorem Fair.congr {s' : PaidAdmission} (h : s.Fair env) (hgranted : s'.granted = s.granted)
    (hstored : s.stored ⊆ s'.stored) : s'.Fair env := by
  refine ⟨hgranted ▸ h.once, fun grant hgrant => ?_⟩
  obtain ⟨tx, htx, hpays⟩ := h.paid grant (hgranted ▸ hgrant)
  exact ⟨tx, hstored htx, hpays⟩

theorem Invariant.reactProof (h : s.Invariant env) {i : ℕ} {a : PaidAction}
    (ha : s.actions[i]? = some a) {pubKey : CPubKey} {hash messageId : Uint256} {address : CAddress}
    (halive : a.alive) (hbound : s.Bound env (.proof i pubKey hash messageId address)) :
    (s.reactProof env i a pubKey hash messageId address).Invariant env := by
  obtain ⟨hkey, hnamed, hothers, hgranted, haccepted⟩ := hbound a ha halive
  refine ⟨h.fair.congr rfl (List.Subset.refl _), ?_, ?_⟩
  · exact h.searches.addTransactionToSearch ⟨hash, ⟨keyId env pubKey, s.askedPrice a.kind⟩⟩ hnamed haccepted
  · exact h.waiting.request ha rfl (by rw [hkey]) hothers hgranted

theorem Invariant.reactTime (h : s.Invariant env) {i : ℕ} {a : PaidAction}
    (ha : s.actions[i]? = some a) (hwaits : a.Waits) (now : Int64) (period tryPeriod : UInt64)
    (address : CAddress) :
    (s.reactTime env i a now period tryPeriod address).Invariant env := by
  simp only [PaidAdmission.reactTime]
  split
  case isTrue hpresent =>
    refine ⟨⟨?_, fun grant hgrant => ?_⟩, h.searches, h.waiting.grant ha hwaits ?_ rfl⟩
    · rw [List.map_append, List.nodup_append]
      refine ⟨h.fair.once, List.nodup_singleton _, fun hash hhash other hother => ?_⟩
      obtain ⟨grant, hgrant, rfl⟩ := List.mem_map.mp hhash
      rw [List.mem_singleton.mp hother]
      exact h.waiting.ungranted i a ha hwaits grant hgrant
    · rcases List.mem_append.mp hgrant with hold | hnew
      · exact h.fair.paid grant hold
      · rw [List.mem_singleton.mp hnew]
        obtain ⟨-, tx, htx, hhash, hmeets⟩ := h.searches.accepted a.proofHash (of_decide_eq_true hpresent)
        obtain ⟨request, hrequest, hsame, hcheck⟩ := h.waiting.requested i a ha hwaits
        have hpays := hmeets request hrequest hsame
        rw [hcheck] at hpays
        exact ⟨tx, htx, hhash, hpays⟩
    · simp [PaidAction.Waits]
  case isFalse hmissing =>
    refine ⟨h.fair.congr rfl (List.Subset.refl _), h.searches, h.waiting.set ha fun _ => ?_⟩
    exact ⟨hwaits, rfl, rfl, rfl⟩

theorem Invariant.step (h : s.Invariant env) (event : Event) (hbound : s.Bound env event) :
    (s.step env event).Invariant env := by
  cases event with
  | start kind partnerKey now uninitialized =>
    refine ⟨h.fair.congr rfl (List.Subset.refl _), h.searches.setStoreTransactions true, ?_⟩
    exact h.waiting.append (by simp [PaidAction.Waits])
  | proof i pubKey hash messageId address =>
    simp only [PaidAdmission.step]
    split
    · split
      · exact h.reactProof ‹_› ‹_› hbound
      · exact h
    · exact h
  | time i now period tryPeriod address =>
    simp only [PaidAdmission.step]
    split
    · split
      · exact h.reactTime ‹_› ‹_› now period tryPeriod address
      · exact h
    · exact h
  | ack i =>
    simp only [PaidAdmission.step]
    split
    case h_1 a ha =>
      split
      · refine ⟨h.fair.congr rfl (List.Subset.refl _), h.searches, h.waiting.set ha fun hwaits => ?_⟩
        exact ⟨hwaits, rfl, rfl, rfl⟩
      · exact h
    case h_2 => exact h
  | finish i =>
    simp only [PaidAdmission.step]
    split
    case h_1 a ha =>
      split
      · refine ⟨h.fair.congr rfl (List.Subset.refl _), h.searches.setStoreTransactions false,
          h.waiting.set ha fun hwaits => ?_⟩
        exact absurd hwaits.1 (by simp)
      · exact h
    case h_2 => exact h
  | storeTransactions transactions =>
    refine ⟨h.fair.congr rfl (List.subset_append_left _ _), ?_, h.waiting⟩
    exact h.searches.storeTransactions hbound
  | loop => exact ⟨h.fair.congr rfl (List.Subset.refl _), h.searches.iterate hbound, h.waiting⟩
  | setPrice price =>
    exact ⟨h.fair.congr rfl (List.Subset.refl _), h.searches, h.waiting⟩
  | setEnterancePrice price =>
    exact ⟨h.fair.congr rfl (List.Subset.refl _), h.searches, h.waiting⟩

variable (env) in
theorem invariant_start (storeTransactions : Bool) (reputation : CReputationTracker)
    (price enterancePrice : UInt32) :
    (start storeTransactions reputation price enterancePrice).Invariant env := by
  refine ⟨⟨List.nodup_nil, ?_⟩, ⟨?_, ?_, ?_, ?_, ?_⟩, ⟨?_, ?_, ?_⟩⟩ <;>
    simp [start, CChargeRegister.new]

variable (env) in
/-- In a run whose steps meet their conditions, a payment buys one registration. -/
theorem fair_throughout (storeTransactions : Bool) (reputation : CReputationTracker)
    (price enterancePrice : UInt32) {events : List Event}
    (hguarded : GuardedRun.Guarded (PaidAdmission.step env) (PaidAdmission.Bound env)
      (start storeTransactions reputation price enterancePrice) events)
    (past : List Event) (hpast : past <+: events) :
    (GuardedRun.run (PaidAdmission.step env) (start storeTransactions reputation price enterancePrice)
      past).Fair env := by
  obtain ⟨rest, rfl⟩ := hpast
  have hfirst := ((GuardedRun.guarded_append _ _).mp hguarded).1
  have hinvariant := hfirst.invariant (fun _ event h hbound => Invariant.step h event hbound)
    (invariant_start env storeTransactions reputation price enterancePrice)
  exact hinvariant.fair

namespace PaidTwice
open ByteCodec

def myKey : CPubKey := .ofBytes (2 :: List.replicate 32 1)

def trackerKey : CPubKey := .ofBytes (3 :: List.replicate 32 2)

def context : ReputationContext :=
  ⟨⟨fun _ => 7, fun bytes => BitVec.ofNat 160 (leValue bytes)⟩, myKey, fun _ => false⟩

def transaction : CTransaction :=
  ⟨1, [⟨.null, 33 :: 3 :: List.replicate 32 2, 0⟩], [⟨5, 33 :: 2 :: (List.replicate 32 1 ++ [0xac])⟩], 0, 0⟩

def registration (i : ℕ) : List Event :=
  [.start .registration trackerKey 100 0, .proof i trackerKey 7 1 ⟨0, 0, 0, 0⟩,
    .storeTransactions [transaction], .loop, .time i 110 3600 60 ⟨0, 0, 0, 0⟩, .finish i]

def admission : PaidAdmission := start false .empty 5 5

theorem registration_guarded :
    GuardedRun.Guarded (step context) (Bound context) admission (registration 0) := by
  refine ⟨trivial, fun a ha _ => ?_, fun tx htx => ?_, fun entry hentry _ request hrequest _ => ?_,
    trivial, trivial, trivial⟩
  · obtain rfl := Option.some.inj ha
    refine ⟨rfl, fun request hrequest => (nomatch hrequest), fun j b hb hwaits => ?_,
      fun grant hgrant => (nomatch hgrant), fun hin => (nomatch hin)⟩
    have hmem := List.mem_of_getElem? hb
    rw [List.mem_singleton.mp hmem] at hwaits
    exact absurd hwaits.2 Bool.false_ne_true
  · intro txOut htxOut
    rw [List.mem_singleton.mp htx] at htxOut
    rw [List.mem_singleton.mp htxOut]
    decide
  · rw [List.mem_singleton.mp hrequest]
    decide

/-- A registration for a payment of five. -/
theorem registration_fair :
    (GuardedRun.run (step context) admission (registration 0)).Fair context :=
  fair_throughout context false .empty 5 5 registration_guarded _ List.prefix_rfl

/-- The tracker names the same transaction again and is granted a second period. -/
theorem hash_granted_twice :
    ¬∀ (env : ReputationContext) (events past : List Event), past <+: events →
      (GuardedRun.run (step env) (start false .empty 5 5) past).Fair env := by
  intro h
  have hfair := h context (registration 0 ++ registration 1) _ List.prefix_rfl
  have hgranted : (GuardedRun.run (step context) admission
      (registration 0 ++ registration 1)).granted.map Grant.hash = [7, 7] := rfl
  exact absurd (hgranted ▸ hfair.once) (by decide)

end PaidTwice

end PaidAdmission

end Dims
