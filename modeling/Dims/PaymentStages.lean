import Dims.CreateTransaction
import Dims.LocalPayment

/-!
# The stages of a local payment

A payment creates two transactions. The first one is admitted before the second one is created;
the initial hash is kept of the first one only.
-/

namespace Dims
open ByteCodec

/-- The places of the outputs that `findOutputInTransaction` finds. -/
def findOutputPositions (H : HashFunctions) (findId : CKeyID) (i : UInt32) :
    List CTxOut → List UInt32
  | [] => []
  | txout :: vout =>
    if txout.scriptPubKey.parses then
      let found := match solver txout.scriptPubKey with
        | none => []
        | some (type, solutions) => (solutions.filter (isSearchedKey H findId type)).map fun _ => i
      found ++ findOutputPositions H findId (i + 1) vout
    else []

namespace CPayLocalApplicationAction

/-- The outputs of the first transaction that are given to the second one. -/
def coinsToUse (a : CPayLocalApplicationAction) (H : HashFunctions) (txOuts : List CTxOut) :
    List CAvailableCoin :=
  (txOuts.zip (findOutputPositions H a.privKeyId 0 a.firstTransaction.vout)).map fun found =>
    ⟨found.1, found.2, a.firstTransaction.getHash H⟩

/-- The outputs and coins of the `CreateTransaction` that a reaction from one action to another
has called. -/
def creation (H : HashFunctions) (a a' : CPayLocalApplicationAction) :
    Option (List (CKeyID × Int64) × List CAvailableCoin) :=
  match a.state, a'.state with
  | .checkAppData, .serviceByTracker | .resolveByMonitor, .serviceByTracker =>
    some ([(a.privKeyId, a.value)], [])
  | .checkTransactionStatus, .secondTransaction =>
    some ([(a.targetKey, a.value)],
      a.coinsToUse H (findOutputInTransaction H a.privKeyId a.firstTransaction.vout))
  | _, _ => none

/-- The event, where the transactions are created by a wallet. -/
def Event.createWith
    (create : List (CKeyID × Int64) → List CTxOut → CPubKey → UInt32 → Option CTransaction) :
    Event → Event
  | .timeEvent context => .timeEvent { context with createTransaction := create }
  | .monitorData context ip monitor trackers monitors =>
    .monitorData { context with createTransaction := create } ip monitor trackers monitors
  | .transactionStatus context tracker nodePtr status =>
    .transactionStatus { context with createTransaction := create } tracker nodePtr status
  | event => event

/-- The call of `transactionAddmited` that a reaction makes. -/
def addmits (a : CPayLocalApplicationAction) : Event → Option (Uint256 × CTransaction)
  | .transactionStatus _ _ _ .confirmed =>
    if a.state = .checkTransactionStatus then some (a.firstInitialHash, a.firstTransaction) else none
  | _ => none

theorem createWith_eq_transactionAck
    {create : List (CKeyID × Int64) → List CTxOut → CPubKey → UInt32 → Option CTransaction}
    {event : Event} {status : TransactionsStatus} {tx : CTransaction}
    (h : event.createWith create = .transactionAck status tx) : event = .transactionAck status tx := by
  cases event <;> simp only [Event.createWith, reduceCtorEq] at h
  exact h

theorem createWith_eq_transactionStatus
    {create : List (CKeyID × Int64) → List CTxOut → CPubKey → UInt32 → Option CTransaction}
    {event : Event} {context : PaymentContext} {tracker : CPubKey}
    {nodePtr : ℕ} {status : TransactionsStatus}
    (h : event.createWith create = .transactionStatus context tracker nodePtr status) :
    ∃ context', event = .transactionStatus context' tracker nodePtr status := by
  cases event <;> simp only [Event.createWith, reduceCtorEq] at h
  cases h
  exact ⟨_, rfl⟩

theorem addmits_createWith
    (create : List (CKeyID × Int64) → List CTxOut → CPubKey → UInt32 → Option CTransaction)
    (a : CPayLocalApplicationAction) (event : Event) :
    a.addmits (event.createWith create) = a.addmits event := by
  cases event with
  | transactionStatus context tracker nodePtr status => cases status <;> rfl
  | _ => rfl

def AfterFirst (a : CPayLocalApplicationAction) : Prop :=
  a.state = .secondTransaction ∨ a.state = .secondCheck ∨ a.state = .sendTransactionData

/-- The ways into the states that matter for what is admitted. -/
structure Advances
    (H : HashFunctions)
    (create : List (CKeyID × Int64) → List CTxOut → CPubKey → UInt32 → Option CTransaction)
    (event : Event) (a a' : CPayLocalApplicationAction) : Prop where
  service : a'.exit = false → a'.state = .serviceByTracker →
    a.exit = false ∧ a.state = .serviceByTracker ∧ a'.firstInitialHash = a.firstInitialHash ∨
      a.creation H a' = some ([(a.privKeyId, a.value)], []) ∧
        ∃ tx, create [(a.privKeyId, a.value)] [] a'.trackerStats.key a'.trackerStats.price = some tx ∧
          a'.firstInitialHash = tx.getHash H
  check : a'.state = .checkTransactionStatus → a'.firstInitialHash = a.firstInitialHash ∧
    (a.state = .checkTransactionStatus ∧ a'.firstTransaction = a.firstTransaction ∨
      a.state = .serviceByTracker ∧ event = .transactionAck .validated a'.firstTransaction)
  second : a'.AfterFirst → a'.firstInitialHash = a.firstInitialHash ∧
    a'.firstTransaction = a.firstTransaction ∧
      (a.AfterFirst ∨ a.addmits event = some (a.firstInitialHash, a.firstTransaction))
  sent : a'.sent = a.sent ∨ a'.state = .sendTransactionData ∧ a.state = .secondCheck ∧
    ∃ context tracker nodePtr, event = .transactionStatus context tracker nodePtr .confirmed
  last : a.state = .sendTransactionData → a'.state = .sendTransactionData

section Advances

variable {H : HashFunctions} {N : NodeSignatures} {a a' : CPayLocalApplicationAction}
  {create : List (CKeyID × Int64) → List CTxOut → CPubKey → UInt32 → Option CTransaction}
  {event : Event}

theorem advances_of_same (hstate : a'.state = a.state) (hexit : a'.exit = a.exit)
    (hhash : a'.firstInitialHash = a.firstInitialHash)
    (hfirst : a'.firstTransaction = a.firstTransaction) (hsent : a'.sent = a.sent) :
    Advances H create event a a' where
  service hgoes hservice := .inl ⟨hexit ▸ hgoes, hstate ▸ hservice, hhash⟩
  check hcheck := ⟨hhash, .inl ⟨hstate ▸ hcheck, hfirst⟩⟩
  second hsecond := ⟨hhash, hfirst, .inl (by simpa [AfterFirst, hstate] using hsecond)⟩
  sent := .inl hsent
  last hlast := hstate ▸ hlast

theorem advances_enterServiceByTracker {context : PaymentContext} {keyId : CKeyID}
    (hstate : a.state = .checkAppData ∨ a.state = .resolveByMonitor)
    (hcontext : context.createTransaction = create)
    (h : a.enterServiceByTracker H context keyId = some a') : Advances H create event a a' := by
  subst hcontext
  obtain ⟨trackerStats, -, heq⟩ := Option.map_eq_some_iff.mp h
  dsimp only at heq
  have hcreation : ∀ b : CPayLocalApplicationAction, b.state = .serviceByTracker →
      a.creation H b = some ([(a.privKeyId, a.value)], []) := by
    intro b hb
    rcases hstate with hstate | hstate <;> simp only [creation, hstate, hb]
  have hother : ∀ b : CPayLocalApplicationAction, b.state = .serviceByTracker → ¬b.AfterFirst := by
    intro b hb
    simp [AfterFirst, hb]
  have hlast : a.state ≠ .sendTransactionData := by
    rcases hstate with hstate | hstate <;> simp [hstate]
  split at heq
  case h_1 =>
    subst heq
    refine ⟨fun hexit => ?_, fun hstate => ?_, fun hstate => ?_, .inl rfl, fun h => absurd h hlast⟩
    · cases hexit
    · cases hstate
    · exact absurd hstate (hother _ rfl)
  case h_2 tx hcreate =>
    subst heq
    refine ⟨fun _ _ => .inr ⟨hcreation _ rfl, tx, hcreate, rfl⟩, fun hstate => ?_, fun hstate => ?_,
      .inl rfl, fun h => absurd h hlast⟩
    · cases hstate
    · exact absurd hstate (hother _ rfl)

theorem advances_reactTimeEvent {context : PaymentContext} (hstate : a.state = .checkAppData)
    (hcontext : context.createTransaction = create)
    (h : a.reactTimeEvent H context = some a') : Advances H create event a a' := by
  rw [reactTimeEvent] at h
  split at h
  · split at h
    · exact advances_enterServiceByTracker (.inl hstate) hcontext h
    · split at h
      · cases h
        refine ⟨fun _ hnext => ?_, fun hnext => ?_, fun hnext => ?_, .inl rfl, fun hlast => ?_⟩
        · cases hnext
        · cases hnext
        · rcases hnext with h | h | h <;> cases h
        · cases hstate.symm.trans hlast
      · cases h
        exact advances_of_same rfl rfl rfl rfl rfl
  · cases h
    exact advances_of_same rfl rfl rfl rfl rfl

theorem advances_reactTransactionAck (status : TransactionsStatus) (tx : CTransaction) :
    Advances H create (.transactionAck status tx) a (a.reactTransactionAck H status tx) := by
  rw [reactTransactionAck]
  split
  case isTrue hstatus =>
    subst hstatus
    split
    case h_1 hstate =>
      refine ⟨fun _ hnext => ?_, fun _ => ⟨rfl, .inr ⟨hstate, rfl⟩⟩, fun hnext => ?_, .inl rfl,
        fun hlast => ?_⟩
      · cases hnext
      · rcases hnext with h | h | h <;> cases h
      · cases hstate.symm.trans hlast
    case h_2 hstate =>
      refine ⟨fun _ hnext => ?_, fun hnext => ?_, fun _ => ⟨rfl, rfl, .inl (.inl hstate)⟩, .inl rfl,
        fun hlast => ?_⟩
      · cases hnext
      · cases hnext
      · cases hstate.symm.trans hlast
    case h_3 => exact advances_of_same rfl rfl rfl rfl rfl
  case isFalse => exact advances_of_same rfl rfl rfl rfl rfl

theorem advances_enterSecondTransaction {context : PaymentContext} {tracker : CPubKey} {nodePtr : ℕ}
    (hstate : a.state = .checkTransactionStatus)
    (h : a.enterSecondTransaction H context = some a') (context' : PaymentContext) :
    Advances H create (.transactionStatus context' tracker nodePtr .confirmed) a a' := by
  have hadmits : a.addmits (.transactionStatus context' tracker nodePtr .confirmed) =
      some (a.firstInitialHash, a.firstTransaction) := by
    rw [addmits, if_pos hstate]
  simp only [enterSecondTransaction] at h
  split at h
  · cases h
  · split at h <;> cases h
    all_goals
      refine ⟨fun _ hnext => ?_, fun hnext => ?_, fun _ => ⟨rfl, rfl, .inr hadmits⟩, .inl rfl,
        fun hlast => ?_⟩
      · cases hnext
      · cases hnext
      · cases hstate.symm.trans hlast

theorem advances_reactTransactionStatus {context : PaymentContext} {tracker : CPubKey}
    {nodePtr : ℕ} {status : TransactionsStatus}
    (h : a.reactTransactionStatus H N context tracker nodePtr status = some a') :
    Advances H create (.transactionStatus context tracker nodePtr status) a a' := by
  simp only [reactTransactionStatus] at h
  split at h
  case h_1 hstate => exact advances_enterSecondTransaction hstate h context
  case h_2 hstate =>
    cases h
    exact advances_of_same rfl rfl rfl rfl rfl
  case h_3 hstate =>
    cases h
    refine ⟨fun _ hnext => ?_, fun hnext => ?_, fun _ => ⟨rfl, rfl, .inl (.inr (.inl hstate))⟩,
      .inr ⟨rfl, hstate, context, tracker, nodePtr, rfl⟩, fun _ => rfl⟩
    · cases hnext
    · cases hnext
  case h_4 hstate =>
    cases h
    exact advances_of_same rfl rfl rfl rfl rfl
  case h_5 =>
    cases h
    exact advances_of_same rfl rfl rfl rfl rfl

theorem advances_reactMonitorData {context : PaymentContext} {ip : Bytes} {monitor : CPubKey}
    {monitorData : CMonitorData} (hstate : a.state = .resolveByMonitor)
    (hcontext : context.createTransaction = create)
    (h : a.reactMonitorData H context ip monitor monitorData = some a') :
    Advances H create event a a' := by
  have hadvances : Advances H create event { a with
      monitorData := monitorData
      servicingMonitor := (context.ipToKey ip).getD .invalid
      resolvedBy := some monitor } a' :=
    advances_enterServiceByTracker (.inr hstate) hcontext h
  exact ⟨hadvances.service, hadvances.check, hadvances.second, hadvances.sent, hadvances.last⟩

theorem createTransaction_of_createWith {context : PaymentContext}
    (h : event.createWith create = .timeEvent context ∨
      (∃ ip monitor trackers monitors,
        event.createWith create = .monitorData context ip monitor trackers monitors)) :
    context.createTransaction = create := by
  rcases h with h | ⟨ip, monitor, trackers, monitors, h⟩
  all_goals
    cases event <;> simp only [Event.createWith, reduceCtorEq] at h
    cases h
    rfl

theorem advances_react (h : a.react H N (event.createWith create) = some a') :
    Advances H create (event.createWith create) a a' := by
  unfold react at h
  split at h
  · cases h
    exact advances_of_same rfl rfl rfl rfl rfl
  · split at h
    case h_1 accepts hstate hevent =>
      cases h
      cases accepts with
      | true => exact advances_of_same rfl rfl rfl rfl rfl
      | false =>
        refine ⟨fun hexit => ?_, fun hnext => ?_, fun hnext => ?_, .inl rfl, fun hlast => ?_⟩
        · cases hexit
        · cases hnext
        · rcases hnext with h | h | h <;> cases h
        · cases hstate.symm.trans hlast
    case h_2 context hstate hevent =>
      exact advances_reactTimeEvent hstate (createTransaction_of_createWith (.inl hevent)) h
    case h_3 context ip monitor trackers monitors hstate hevent =>
      obtain ⟨monitorData, -, hreact⟩ := Option.bind_eq_some_iff.mp h
      exact advances_reactMonitorData hstate
        (createTransaction_of_createWith (.inr ⟨_, _, _, _, hevent⟩)) hreact
    case h_4 => cases h
    case h_5 status tx hevent =>
      cases h
      rw [hevent]
      exact advances_reactTransactionAck status tx
    case h_6 context tracker nodePtr status hevent =>
      rw [hevent]
      exact advances_reactTransactionStatus h
    case h_7 =>
      cases h
      exact advances_of_same rfl rfl rfl rfl rfl

/-- What is known of every payment: the initial hash is that of a transaction that the wallet has
created, and the first transaction is admitted before the second one. -/
structure Recorded (H : HashFunctions) (created : List CTransaction)
    (admitted : List (Uint256 × CTransaction)) (a : CPayLocalApplicationAction) : Prop where
  initial : a.exit = false → a.state = .serviceByTracker →
    ∃ tx ∈ created, a.firstInitialHash = tx.getHash H
  first : a.AfterFirst → (a.firstInitialHash, a.firstTransaction) ∈ admitted
  sent : a.sent.isSome → a.state = .sendTransactionData

/-- The first transaction is the one that the wallet has created, and the proof has not been handed
over. -/
structure Acknowledged (H : HashFunctions) (created : List CTransaction)
    (a : CPayLocalApplicationAction) : Prop where
  check : a.state = .checkTransactionStatus →
    a.firstTransaction ∈ created ∧ a.firstInitialHash = a.firstTransaction.getHash H
  sent : a.sent = none

theorem Recorded.mono {created created' : List CTransaction}
    {admitted admitted' : List (Uint256 × CTransaction)} (ha : a.Recorded H created admitted)
    (hcreated : created ⊆ created') (hadmitted : admitted ⊆ admitted') :
    a.Recorded H created' admitted' where
  initial hexit hstate := by
    obtain ⟨tx, htx, hhash⟩ := ha.initial hexit hstate
    exact ⟨tx, hcreated htx, hhash⟩
  first hfirst := hadmitted (ha.first hfirst)
  sent := ha.sent

theorem Acknowledged.mono {created created' : List CTransaction} (ha : a.Acknowledged H created)
    (hcreated : created ⊆ created') : a.Acknowledged H created' where
  check hstate := ⟨hcreated (ha.check hstate).1, (ha.check hstate).2⟩
  sent := ha.sent

theorem Recorded.advances {created : List CTransaction} {admitted : List (Uint256 × CTransaction)}
    (ha : a.Recorded H created admitted) (h : Advances H create event a a')
    (hcreated : a.creation H a' = some ([(a.privKeyId, a.value)], []) → ∀ tx,
      create [(a.privKeyId, a.value)] [] a'.trackerStats.key a'.trackerStats.price = some tx →
        tx ∈ created)
    (hadmitted : ∀ call ∈ a.addmits event, call ∈ admitted) : a'.Recorded H created admitted where
  initial hexit hstate := by
    rcases h.service hexit hstate with ⟨hexit', hstate', hhash⟩ | ⟨hcreation, tx, hcreate, hhash⟩
    · rw [hhash]
      exact ha.initial hexit' hstate'
    · exact ⟨tx, hcreated hcreation tx hcreate, hhash⟩
  first hfirst := by
    obtain ⟨hhash, hsame, hsecond | hadmits⟩ := h.second hfirst
    · rw [hhash, hsame]
      exact ha.first hsecond
    · rw [hhash, hsame]
      exact hadmitted _ hadmits
  sent hsent := by
    rcases h.sent with hsame | ⟨hstate, -⟩
    · rw [hsame] at hsent
      exact h.last (ha.sent hsent)
    · exact hstate

theorem Acknowledged.advances {created : List CTransaction} (ha : a.Acknowledged H created)
    (h : Advances H create event a a')
    (hack : ∀ tx, event = .transactionAck .validated tx → a.state = .serviceByTracker →
      tx ∈ created ∧ a.firstInitialHash = tx.getHash H)
    (hcheck : ∀ context tracker nodePtr,
      event = .transactionStatus context tracker nodePtr .confirmed → a.state ≠ .secondCheck) :
    a'.Acknowledged H created where
  check hstate := by
    obtain ⟨hhash, ⟨hstate', hsame⟩ | ⟨hstate', hevent⟩⟩ := h.check hstate
    · rw [hhash, hsame]
      exact ha.check hstate'
    · rw [hhash]
      exact hack _ hevent hstate'
  sent := by
    rcases h.sent with hsame | ⟨-, hstate, context, tracker, nodePtr, hevent⟩
    · exact hsame.trans ha.sent
    · exact absurd hstate (hcheck context tracker nodePtr hevent)

end Advances

end CPayLocalApplicationAction

end Dims
