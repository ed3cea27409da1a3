import Dims.ClientActions
import Dims.PaymentProof
import Dims.GuardedRun

/-!
# Dead ends of the client actions

An action goes on as long as one of its requests can be answered. It is at a dead end if it has
none left and has not asked to exit.
-/

namespace Dims
open ByteCodec

namespace CSendTransactionAction

def Alive (a : CSendTransactionAction) : Prop := a.exit = true ∨ a.requests ≠ []

/-- The status is one that is looked at, and there is a medium to ask for it. -/
def GoesOn (a : CSendTransactionAction) : Event → Prop
  | .transactionAck .. => True
  | .transactionStatus _ status =>
    a.state = .transactionStatus → a.exit = false → status = .confirmed ∨ status = .unconfirmed
  | .noMedium => a.state = .transactionStatus → a.exit = true

def request : SendState → ClientRequest
  | .prepareAndSendTransaction => .createTransaction
  | .transactionStatus => .transactionStatus

/-- There is one request at most, that of the state, and none when the action is to exit. -/
structure Waiting (a : CSendTransactionAction) : Prop where
  requests : a.requests = [] ∨ a.requests = [request a.state]
  exit : a.exit = true → a.requests = []

theorem waiting_init (outputs : List (CKeyID × Int64)) (sendCoins : List CAvailableCoin) (ptr : ℕ) :
    (init outputs sendCoins ptr).Waiting :=
  ⟨.inr rfl, fun h => nomatch h⟩

theorem answers_request (state : SendState) (event : Event) :
    event.answers (request state) = true ↔
      (∃ status tx count, state = .prepareAndSendTransaction ∧ event = .transactionAck status tx count) ∨
        state = .transactionStatus ∧
          ((∃ nodePtr status, event = .transactionStatus nodePtr status) ∨ event = .noMedium) := by
  cases state <;> cases event <;> simp [request, Event.answers, ClientRequest.isClientMessage]

variable {a : CSendTransactionAction}

theorem step_of_nil (h : a.requests = []) (event : Event) : a.step event = a := by
  simp [step, h]

/-- The answer to the one request reaches the reaction, and no other event does. -/
theorem step_of_request (h : a.requests = [request a.state]) (event : Event) :
    a.step event = if event.answers (request a.state) then { a with requests := [] }.react event
      else a := by
  simp only [step, h, List.any_cons, List.any_nil, Bool.or_false]
  split
  · simp [*]
  · rfl

theorem Waiting.exit_of_requests (ha : a.Waiting) (h : a.requests ≠ []) : a.exit = false := by
  by_contra hexit
  exact h (ha.exit (by simpa using hexit))

theorem Waiting.step (ha : a.Waiting) (event : Event) : (a.step event).Waiting := by
  rcases ha.requests with hnil | hrequest
  · rw [step_of_nil hnil]
    exact ha
  · have hexit : a.exit ≠ true := by
      simp [ha.exit_of_requests (by simp [hrequest])]
    rw [step_of_request hrequest]
    split
    case isFalse => exact ha
    case isTrue hanswers =>
      rcases (answers_request _ _).mp hanswers with
        ⟨status, tx, count, hstate, rfl⟩ | ⟨hstate, ⟨nodePtr, status, rfl⟩ | rfl⟩
      · simp only [react, hstate]
        split
        · exact ⟨.inr rfl, fun h => absurd h hexit⟩
        · exact ⟨.inl rfl, fun _ => rfl⟩
      · simp only [react, hstate]
        cases status with
        | confirmed => exact ⟨.inl rfl, fun _ => rfl⟩
        | unconfirmed => exact ⟨.inr rfl, fun h => absurd h hexit⟩
        | invalid => exact ⟨.inl rfl, fun _ => rfl⟩
        | validated => exact ⟨.inl rfl, fun _ => rfl⟩
      · simp only [react, hstate]
        exact ⟨.inl rfl, fun _ => rfl⟩

theorem alive_step_iff (ha : a.Waiting) (halive : a.Alive) (event : Event) :
    (a.step event).Alive ↔ a.GoesOn event := by
  rcases halive with hexit | hne
  · rw [step_of_nil (ha.exit hexit)]
    refine iff_of_true (.inl hexit) ?_
    cases event <;> simp [GoesOn, hexit]
  · have hrequest := ha.requests.resolve_left hne
    have hexit := ha.exit_of_requests hne
    rw [step_of_request hrequest]
    split
    case isTrue hanswers =>
      rcases (answers_request _ _).mp hanswers with
        ⟨status, tx, count, hstate, rfl⟩ | ⟨hstate, ⟨nodePtr, status, rfl⟩ | rfl⟩
      · refine iff_of_true ?_ trivial
        simp only [react, hstate]
        split
        · exact .inr (List.cons_ne_nil _ _)
        · exact .inl rfl
      · simp only [react, hstate, GoesOn, hexit, true_implies]
        cases status <;> simp [Alive]
      · simp [react, hstate, GoesOn, hexit, Alive]
    case isFalse hanswers =>
      refine iff_of_true (.inr hne) ?_
      rw [answers_request] at hanswers
      cases event with
      | transactionAck => trivial
      | transactionStatus nodePtr status =>
        exact fun hstate => absurd (.inr ⟨hstate, .inl ⟨nodePtr, status, rfl⟩⟩) hanswers
      | noMedium => exact fun hstate => absurd (.inr ⟨hstate, .inr rfl⟩) hanswers

end CSendTransactionAction

namespace ClientPayment

open CPayLocalApplicationAction

variable (H : HashFunctions) (S : NodeSignatures)

def Alive (p : ClientPayment) : Prop := p.payment.exit = true ∨ p.requests ≠ []

/-- A tracker or a monitor is known, there is a medium for what is asked, the transactions are
validated, and the status is one that is looked at. -/
def GoesOn (p : ClientPayment) (event : Event) : Prop :=
  p.payment.exit = false →
    match p.payment.state, event with
    | .checkAppData, .timeEvent context =>
      context.isClientReady = true →
        (∃ keyId ∈ p.payment.trackers, (context.getTrackerStats H keyId).isSome) ∨
          ∃ keyId ∈ p.payment.monitors, keyId ∈ context.monitors
    | .serviceByTracker, .transactionAck status _ | .secondTransaction, .transactionAck status _ =>
      status = .validated
    | .checkTransactionStatus, .transactionStatus _ _ _ status
    | .secondCheck, .transactionStatus _ _ _ status => status = .confirmed ∨ status = .unconfirmed
    | .serviceByTracker, .noMedium | .checkTransactionStatus, .noMedium
    | .secondTransaction, .noMedium | .secondCheck, .noMedium => False
    | _, _ => True

def request : PaymentState → ClientRequest
  | .checkAppData => .timeEvent
  | .indicateErrorCondition => .errorForApp
  | .resolveByMonitor => .monitorInfo
  | .serviceByTracker | .secondTransaction => .transaction
  | .checkTransactionStatus | .secondCheck => .transactionStatus
  | .sendTransactionData => .proof

/-- The action has not asked to exit. There is one request at most, that of the state. -/
structure Open (p : ClientPayment) : Prop where
  exit : p.payment.exit = false
  enabled : p.payment.userEnabled = true
  errors : p.payment.errors = []
  sent : p.payment.state ≠ .sendTransactionData → p.payment.sent = none
  requests : p.requests = [] ∨ p.requests = [request p.payment.state]

structure Done (p : ClientPayment) : Prop where
  exit : p.payment.exit = true
  requests : p.requests = [.errorForApp]
  messages : messages p.payment = 1

def Waiting (p : ClientPayment) : Prop := p.Open ∨ p.Done

theorem waiting_start (privKeyId targetKey : CKeyID) (value : Int64) (trackers monitors : List CKeyID)
    (accepts : Bool) : (start privKeyId targetKey value trackers monitors accepts).Waiting := by
  cases accepts with
  | true => exact .inl ⟨rfl, rfl, rfl, fun _ => rfl, .inr rfl⟩
  | false => exact .inr ⟨rfl, rfl, rfl⟩

section Entering

variable {H S} {a a' : CPayLocalApplicationAction} {context : PaymentContext}

structure Unsent (a : CPayLocalApplicationAction) : Prop where
  exit : a.exit = false
  enabled : a.userEnabled = true
  errors : a.errors = []
  sent : a.sent = none

structure Created (a : CPayLocalApplicationAction) : Prop where
  enabled : a.userEnabled = true
  sent : a.sent = none
  state : a.state = .serviceByTracker ∨ a.state = .secondTransaction
  errors : a.exit = false ∧ a.errors = [] ∨ a.exit = true ∧ a.errors = [.notEnoughFunds]

theorem created_enterServiceByTracker {keyId : CKeyID} (ha : Unsent a)
    (h : a.enterServiceByTracker H context keyId = some a') : Created a' := by
  obtain ⟨trackerStats, -, heq⟩ := Option.map_eq_some_iff.mp h
  dsimp only at heq
  split at heq
  · subst heq
    exact ⟨ha.enabled, ha.sent, .inl rfl, .inr ⟨rfl, by rw [ha.errors]; rfl⟩⟩
  · subst heq
    exact ⟨ha.enabled, ha.sent, .inl rfl, .inl ⟨ha.exit, ha.errors⟩⟩

theorem created_enterSecondTransaction (ha : Unsent a)
    (h : a.enterSecondTransaction H context = some a') : Created a' := by
  simp only [enterSecondTransaction] at h
  split at h
  · cases h
  · split at h
    · cases h
      exact ⟨ha.enabled, ha.sent, .inr rfl, .inr ⟨rfl, by rw [ha.errors]; rfl⟩⟩
    · cases h
      exact ⟨ha.enabled, ha.sent, .inr rfl, .inl ⟨ha.exit, ha.errors⟩⟩

theorem Created.goes_on (ha : Created a) :
    (ClientPayment.mk a (entered [] a)).Waiting ∧ (ClientPayment.mk a (entered [] a)).Alive := by
  have hentered : entered [] a = if a.exit then [.errorForApp] else [.transaction] := by
    rcases ha.state with hstate | hstate <;> rw [ClientPayment.entered, hstate] <;> rfl
  have hrequest : request a.state = .transaction := by
    rcases ha.state with hstate | hstate <;> rw [hstate] <;> rfl
  have hsent : a.state ≠ .sendTransactionData := by
    rcases ha.state with hstate | hstate <;> rw [hstate] <;> decide
  rw [hentered]
  rcases ha.errors with ⟨hexit, herrors⟩ | ⟨hexit, herrors⟩
  · refine ⟨.inl ⟨hexit, ha.enabled, herrors, fun _ => ha.sent, .inr ?_⟩, .inr ?_⟩
    · simp [hexit, hrequest]
    · simp [hexit]
  · refine ⟨.inr ⟨hexit, by simp [hexit], ?_⟩, .inl hexit⟩
    simp [messages, herrors, ha.sent]

theorem Unsent.asks {requests : List ClientRequest} (ha : Unsent a)
    (h : requests = [request a.state]) :
    (ClientPayment.mk a requests).Waiting ∧ (ClientPayment.mk a requests).Alive :=
  ⟨.inl ⟨ha.exit, ha.enabled, ha.errors, fun _ => ha.sent, .inr h⟩, .inr (by simp [h])⟩

theorem Unsent.stuck (ha : Unsent a) :
    (ClientPayment.mk a []).Waiting ∧ ¬(ClientPayment.mk a []).Alive :=
  ⟨.inl ⟨ha.exit, ha.enabled, ha.errors, fun _ => ha.sent, .inl rfl⟩, by simp [Alive, ha.exit]⟩

end Entering

section Reactions

variable {H S} {p : ClientPayment} {a' : CPayLocalApplicationAction} {event : Event}

def after (p : ClientPayment) (event : Event) (a' : CPayLocalApplicationAction) : ClientPayment :=
  ⟨a', requestsAfter [] p.payment a' event⟩

/-- What an answer makes of an action. -/
def Answered (H : HashFunctions) (p : ClientPayment) (event : Event)
    (a' : CPayLocalApplicationAction) : Prop :=
  (p.after event a').Waiting ∧ ((p.after event a').Alive ↔ p.GoesOn H event)

theorem answered_of_alive (h : (p.after event a').Waiting ∧ (p.after event a').Alive)
    (hgoes : p.GoesOn H event) : Answered H p event a' :=
  ⟨h.1, iff_of_true h.2 hgoes⟩

theorem answered_of_not_alive (h : (p.after event a').Waiting ∧ ¬(p.after event a').Alive)
    (hgoes : ¬p.GoesOn H event) : Answered H p event a' :=
  ⟨h.1, iff_of_false h.2 hgoes⟩

theorem answered_timeEvent {context : PaymentContext} (hp : Unsent p.payment)
    (hstate : p.payment.state = .checkAppData)
    (h : p.payment.reactTimeEvent H context = some a') : Answered H p (.timeEvent context) a' := by
  rw [reactTimeEvent] at h
  split at h
  case isTrue hready =>
    have hafter : p.after (.timeEvent context) a' = ⟨a', entered [] a'⟩ := by
      simp only [after, requestsAfter, hstate, if_pos hready]
    split at h
    case h_1 keyId hfound =>
      refine answered_of_alive ?_ ?_
      · rw [hafter]
        exact (created_enterServiceByTracker hp h).goes_on
      · intro _
        simp only [hstate]
        have hknown := List.find?_some hfound
        exact fun _ => .inl ⟨keyId, List.mem_of_find?_eq_some hfound, hknown⟩
    case h_2 hnone =>
      have hunknown : ¬∃ keyId ∈ p.payment.trackers, (context.getTrackerStats H keyId).isSome := by
        rintro ⟨keyId, hmem, hknown⟩
        exact absurd hknown (List.find?_eq_none.mp hnone keyId hmem)
      split at h
      case h_1 keyId hfound =>
        cases h
        refine answered_of_alive ?_ ?_
        · rw [hafter]
          exact Unsent.asks ⟨hp.exit, hp.enabled, hp.errors, hp.sent⟩ rfl
        · intro _
          simp only [hstate]
          have hknown := List.find?_some hfound
          exact fun _ => .inr ⟨keyId, List.mem_of_find?_eq_some hfound, of_decide_eq_true hknown⟩
      case h_2 hnone' =>
        cases h
        refine answered_of_not_alive ?_ ?_
        · have hentered : entered [] p.payment = [] := by rw [entered, hstate]
          rw [hafter, hentered]
          exact hp.stuck
        · intro hgoes
          have hgoes := hgoes hp.exit
          simp only [hstate] at hgoes
          rcases hgoes hready.1 with hknown | ⟨keyId, hmem, hknown⟩
          · exact hunknown hknown
          · exact List.find?_eq_none.mp hnone' keyId hmem (decide_eq_true hknown)
  case isFalse hready =>
    cases h
    refine answered_of_alive ?_ ?_
    · refine hp.asks ?_
      simp only [requestsAfter, hstate, if_neg hready, request, List.nil_append]
    · intro _
      simp only [hstate]
      exact fun hclient => absurd ⟨hclient, hp.enabled⟩ hready

theorem answered_monitorData {context : PaymentContext} {ip : Bytes} {monitor : CPubKey}
    {trackers : List CTrackerData} {monitors : List CNodeInfo} {monitorData : CMonitorData}
    (hp : Unsent p.payment) (hstate : p.payment.state = .resolveByMonitor)
    (h : p.payment.reactMonitorData H context ip monitor monitorData = some a') :
    Answered H p (.monitorData context ip monitor trackers monitors) a' := by
  refine answered_of_alive ?_ ?_
  · have hafter : p.after (.monitorData context ip monitor trackers monitors) a' =
        ⟨a', entered [] a'⟩ := by
      simp only [after, requestsAfter, hstate]
    rw [hafter]
    refine (created_enterServiceByTracker ?_ h).goes_on
    exact ⟨hp.exit, hp.enabled, hp.errors, hp.sent⟩
  · intro _
    simp only [hstate]

theorem answered_transactionAck {status : TransactionsStatus} {tx : CTransaction}
    (hp : Unsent p.payment)
    (hstate : p.payment.state = .serviceByTracker ∨ p.payment.state = .secondTransaction) :
    Answered H p (.transactionAck status tx) (p.payment.reactTransactionAck H status tx) := by
  by_cases hstatus : status = .validated
  · subst hstatus
    refine answered_of_alive ?_ ?_
    · rcases hstate with hstate | hstate
      all_goals
        simp only [after, requestsAfter, reactTransactionAck, hstate, if_true]
        exact Unsent.asks ⟨hp.exit, hp.enabled, hp.errors, hp.sent⟩ rfl
    · intro _
      rcases hstate with hstate | hstate <;> simp only [hstate]
  · refine answered_of_not_alive ?_ ?_
    · rcases hstate with hstate | hstate
      all_goals
        simp only [after, requestsAfter, reactTransactionAck, hstate, if_neg hstatus]
        exact hp.stuck
    · intro hgoes
      have hgoes := hgoes hp.exit
      rcases hstate with hstate | hstate
      all_goals
        simp only [hstate] at hgoes
        exact hstatus hgoes

theorem answered_transactionStatus {context : PaymentContext} {tracker : CPubKey} {nodePtr : ℕ}
    {status : TransactionsStatus} (hp : Unsent p.payment)
    (hstate : p.payment.state = .checkTransactionStatus ∨ p.payment.state = .secondCheck)
    (h : p.payment.reactTransactionStatus H S context tracker nodePtr status = some a') :
    Answered H p (.transactionStatus context tracker nodePtr status) a' := by
  have hgoes : p.GoesOn H (.transactionStatus context tracker nodePtr status) ↔
      status = .confirmed ∨ status = .unconfirmed := by
    rcases hstate with hstate | hstate <;> simp [GoesOn, hp.exit, hstate]
  cases status with
  | invalid | validated =>
    refine answered_of_not_alive ?_ (by simp [hgoes])
    rcases hstate with hstate | hstate
    all_goals
      simp only [reactTransactionStatus, hstate] at h
      cases h
      simp only [after, requestsAfter, hstate]
      exact hp.stuck
  | unconfirmed =>
    refine answered_of_alive ?_ (by simp [hgoes])
    rcases hstate with hstate | hstate
    all_goals
      simp only [reactTransactionStatus, hstate] at h
      cases h
      simp only [after, requestsAfter, hstate]
      exact Unsent.asks ⟨hp.exit, hp.enabled, hp.errors, hp.sent⟩ rfl
  | confirmed =>
    refine answered_of_alive ?_ (by simp [hgoes])
    rcases hstate with hstate | hstate
    all_goals
      simp only [reactTransactionStatus, hstate] at h
      simp only [after, requestsAfter, hstate]
    · exact (created_enterSecondTransaction hp h).goes_on
    · cases h
      refine ⟨.inl ⟨hp.exit, hp.enabled, hp.errors, fun hne => absurd rfl hne, .inr rfl⟩, ?_⟩
      exact .inr (List.cons_ne_nil _ _)

end Reactions

variable {H S} {p : ClientPayment}

theorem Open.unsent (hp : p.Open) (h : p.payment.state ≠ .sendTransactionData) : Unsent p.payment :=
  ⟨hp.exit, hp.enabled, hp.errors, hp.sent h⟩

theorem answers_request (state : PaymentState) (event : Event) :
    answers event (request state) = true ↔
      (state = .checkAppData ∧ ∃ context, event = .timeEvent context) ∨
      (state = .resolveByMonitor ∧ (event = .noMedium ∨ ∃ context ip monitor trackers monitors,
        event = .monitorData context ip monitor trackers monitors)) ∨
      ((state = .serviceByTracker ∨ state = .secondTransaction) ∧
        (event = .noMedium ∨ ∃ status tx, event = .transactionAck status tx)) ∨
      ((state = .checkTransactionStatus ∨ state = .secondCheck) ∧
        (event = .noMedium ∨ ∃ context tracker nodePtr status,
          event = .transactionStatus context tracker nodePtr status)) := by
  cases state <;> cases event <;> simp [request, answers, ClientRequest.isClientMessage]

theorem answered_react {event : Event} {a' : CPayLocalApplicationAction} (hp : p.Open)
    (hanswers : answers event (request p.payment.state) = true)
    (h : p.payment.react H S event = some a') : Answered H p event a' := by
  have hstuck : p.payment.state = .serviceByTracker ∨ p.payment.state = .secondTransaction ∨
      p.payment.state = .checkTransactionStatus ∨ p.payment.state = .secondCheck →
        p.payment.react H S .noMedium = some a' → Answered H p .noMedium a' := by
    intro hstate h
    have hunsent := hp.unsent (by rcases hstate with h | h | h | h <;> rw [h] <;> decide)
    refine answered_of_not_alive ?_ fun hgoes => ?_
    · rcases hstate with hstate | hstate | hstate | hstate
      all_goals
        simp only [react, hp.exit, hstate, Bool.false_eq_true, if_false] at h
        cases h
        simp only [after, requestsAfter, hstate]
        exact hunsent.stuck
    · have hgoes := hgoes hp.exit
      rcases hstate with hstate | hstate | hstate | hstate <;> simp only [hstate] at hgoes
  rcases (answers_request _ _).mp hanswers with ⟨hstate, context, rfl⟩ |
    ⟨hstate, rfl | ⟨context, ip, monitor, trackers, monitors, rfl⟩⟩ |
    ⟨hstate, rfl | ⟨status, tx, rfl⟩⟩ | ⟨hstate, rfl | ⟨context, tracker, nodePtr, status, rfl⟩⟩
  · simp only [react, hp.exit, hstate, Bool.false_eq_true, if_false] at h
    exact answered_timeEvent (hp.unsent (by rw [hstate]; decide)) hstate h
  · simp only [react, hp.exit, hstate, Bool.false_eq_true, if_false] at h
    cases h
  · simp only [react, hp.exit, hstate, Bool.false_eq_true, if_false] at h
    obtain ⟨monitorData, -, hreact⟩ := Option.bind_eq_some_iff.mp h
    exact answered_monitorData (hp.unsent (by rw [hstate]; decide)) hstate hreact
  · exact hstuck (hstate.imp id .inl) h
  · have hreact : a' = p.payment.reactTransactionAck H status tx := by
      rcases hstate with hstate | hstate <;> simpa [react, hp.exit, hstate] using h.symm
    rw [hreact]
    exact answered_transactionAck (hp.unsent (by rcases hstate with h | h <;> rw [h] <;> decide)) hstate
  · exact hstuck (.inr (.inr hstate)) h
  · have hreact : p.payment.reactTransactionStatus H S context tracker nodePtr status = some a' := by
      rcases hstate with hstate | hstate <;> simpa [react, hp.exit, hstate] using h
    exact answered_transactionStatus
      (hp.unsent (by rcases hstate with h | h <;> rw [h] <;> decide)) hstate hreact

theorem step_of_open (hp : p.Open) (event : Event) :
    step H S (some p) event =
      if p.requests ≠ [] ∧ answers event (request p.payment.state) = true then
        (p.payment.react H S event).map (p.after event)
      else some p := by
  rcases hp.requests with hnil | hrequest
  · simp [step, hnil]
  · by_cases hanswers : answers event (request p.payment.state) = true
    · simp [step, hrequest, hanswers]
      rfl
    · simp [step, hrequest, hanswers]

theorem step_of_done (hp : p.Done) (event : Event) : step H S (some p) event = some p := by
  have hnone : answers event .errorForApp = false := by cases event <;> rfl
  simp [step, hp.requests, hnone]

theorem goesOn_of_not_answers {event : Event}
    (h : ¬answers event (request p.payment.state) = true) : p.GoesOn H event := by
  intro _
  rw [answers_request] at h
  cases hstate : p.payment.state <;> cases event <;> simp_all

theorem waiting_step {s : Option ClientPayment} (hs : ∀ p ∈ s, p.Waiting) (event : Event) :
    ∀ p ∈ step H S s event, p.Waiting := by
  cases s with
  | none => exact hs
  | some p =>
    rcases hs p rfl with hopen | hdone
    · rw [step_of_open hopen]
      split
      case isTrue hanswers =>
        rintro p' hp'
        obtain ⟨a', hreact, rfl⟩ := Option.map_eq_some_iff.mp hp'
        exact (answered_react hopen hanswers.2 hreact).1
      case isFalse => exact hs
    · rw [step_of_done hdone]
      exact hs

theorem goesOn_of_aborts {event : Event} (hp : p.Open) (h : p.payment.react H S event = none) :
    p.GoesOn H event := by
  intro _
  split
  case h_1 context hstate =>
    intro hready
    simp only [react, hp.exit, hstate, Bool.false_eq_true, if_false, reactTimeEvent,
      if_pos (And.intro hready hp.enabled)] at h
    split at h
    case h_1 keyId hfound =>
      have hknown := List.find?_some hfound
      exact .inl ⟨keyId, List.mem_of_find?_eq_some hfound, hknown⟩
    case h_2 => split at h <;> cases h
  case h_2 hstate | h_3 hstate =>
    simp [react, hp.exit, hstate] at h
  case h_4 status hstate | h_5 status hstate =>
    cases status <;> simp [react, hp.exit, reactTransactionStatus, hstate] at h ⊢
  case h_6 hstate | h_7 hstate | h_8 hstate | h_9 hstate =>
    simp [react, hp.exit, hstate] at h
  case h_10 => trivial

theorem alive_step_iff {s : Option ClientPayment} (hs : ∀ p ∈ s, p.Waiting)
    (halive : ∀ p ∈ s, p.Alive) (event : Event) :
    (∀ p ∈ step H S s event, p.Alive) ↔ ∀ p ∈ s, p.GoesOn H event := by
  cases s with
  | none => exact iff_of_true (fun _ h => by cases h) (fun _ h => by cases h)
  | some p =>
    have hunit : ∀ P : ClientPayment → Prop, (∀ q ∈ some p, P q) ↔ P p := by simp
    rw [hunit]
    rcases hs p rfl with hopen | hdone
    · have hrequests : p.requests ≠ [] :=
        (halive p rfl).resolve_left (by simp [hopen.exit])
      rw [step_of_open hopen]
      by_cases hanswers : answers event (request p.payment.state) = true
      · rw [if_pos ⟨hrequests, hanswers⟩]
        cases hreact : p.payment.react H S event with
        | none => exact iff_of_true (fun _ h => by cases h) (goesOn_of_aborts hopen hreact)
        | some a' => simpa using (answered_react hopen hanswers hreact).2
      · rw [if_neg (fun h => hanswers h.2), hunit]
        exact iff_of_true (halive p rfl) (goesOn_of_not_answers hanswers)
    · rw [step_of_done hdone, hunit]
      exact iff_of_true (.inl hdone.exit) fun h => absurd hdone.exit (by simp [h])

theorem Waiting.messages (hp : p.Waiting) (h : p.payment.exit = true) :
    ClientPayment.messages p.payment = 1 := by
  rcases hp with hopen | hdone
  · exact absurd h (by simp [hopen.exit])
  · exact hdone.messages

end ClientPayment

namespace CSendBalanceInfoAction

def Alive (a : CSendBalanceInfoAction) : Prop := a.exit = true ∨ a.requests ≠ []

def GoesOn (a : CSendBalanceInfoAction) : Event → Prop
  | .noMedium => a.exit = true
  | .availableCoins .. => True

/-- There is one request at most, and none when the action is to exit. -/
structure Waiting (a : CSendBalanceInfoAction) : Prop where
  requests : a.requests = [] ∨ a.requests = [.balanceInfo]
  exit : a.exit = true → a.requests = []

variable {a : CSendBalanceInfoAction}

theorem askNext_spec (hexit : a.exit = false) (hrequests : a.requests = []) :
    a.askNext.Waiting ∧ a.askNext.Alive := by
  rw [askNext]
  split
  · exact ⟨⟨.inr rfl, fun h => absurd h (by simp [hexit])⟩, .inr (List.cons_ne_nil _ _)⟩
  · exact ⟨⟨.inl hrequests, fun _ => hrequests⟩, .inl rfl⟩

theorem step_of_nil (h : a.requests = []) (event : Event) : a.step event = a := by
  simp [step, h]

theorem step_of_request (h : a.requests = [.balanceInfo]) (event : Event) :
    a.step event = { a with requests := [] }.react event := by
  cases event
  all_goals
    simp [step, h, Event.answers, ClientRequest.isClientMessage]
    rfl

theorem Waiting.exit_of_request (ha : a.Waiting) (h : a.requests = [.balanceInfo]) :
    a.exit = false := by
  by_contra hexit
  have hnone := ha.exit (by simpa using hexit)
  simp [h] at hnone

theorem Waiting.step (ha : a.Waiting) (event : Event) : (a.step event).Waiting := by
  rcases ha.requests with hnil | hrequest
  · rw [step_of_nil hnil]
    exact ha
  · rw [step_of_request hrequest]
    cases event with
    | noMedium => exact ⟨.inl rfl, fun _ => rfl⟩
    | availableCoins coins inputs =>
      refine (askNext_spec ?_ rfl).1
      exact ha.exit_of_request hrequest

theorem alive_step_iff (ha : a.Waiting) (halive : a.Alive) (event : Event) :
    (a.step event).Alive ↔ a.GoesOn event := by
  rcases ha.requests with hnil | hrequest
  · have hexit : a.exit = true := halive.resolve_right (· hnil)
    rw [step_of_nil hnil]
    refine iff_of_true halive ?_
    cases event with
    | noMedium => exact hexit
    | availableCoins => trivial
  · have hexit := ha.exit_of_request hrequest
    rw [step_of_request hrequest]
    cases event with
    | noMedium => simp [react, Alive, GoesOn, hexit]
    | availableCoins coins inputs =>
      refine iff_of_true (askNext_spec ?_ rfl).2 trivial
      exact hexit

end CSendBalanceInfoAction

/-- No action is ever at a dead end, and a local payment that exits has sent one message, if and
only if every event lets its action go on. -/
theorem noDeadEnd_iff (H : HashFunctions) (S : NodeSignatures) :
    (∀ (outputs : List (CKeyID × Int64)) (sendCoins : List CAvailableCoin) (ptr : ℕ)
        (events : List CSendTransactionAction.Event),
      (∀ past, past <+: events → (GuardedRun.run CSendTransactionAction.step
          (CSendTransactionAction.init outputs sendCoins ptr) past).Alive) ↔
        GuardedRun.Guarded CSendTransactionAction.step CSendTransactionAction.GoesOn
          (CSendTransactionAction.init outputs sendCoins ptr) events) ∧
    (∀ (privKeyId targetKey : CKeyID) (value : Int64) (trackers monitors : List CKeyID)
        (accepts : Bool) (events : List CPayLocalApplicationAction.Event),
      (∀ past, past <+: events → ∀ p ∈ GuardedRun.run (ClientPayment.step H S)
          (some (ClientPayment.start privKeyId targetKey value trackers monitors accepts)) past,
        p.Alive ∧ (p.payment.exit = true → ClientPayment.messages p.payment = 1)) ↔
        GuardedRun.Guarded (ClientPayment.step H S) (fun s event => ∀ p ∈ s, p.GoesOn H event)
          (some (ClientPayment.start privKeyId targetKey value trackers monitors accepts)) events) ∧
    ∀ (addresses : List CKeyID) (wallet : CWallet) (events : List CSendBalanceInfoAction.Event),
      (∀ past, past <+: events → (GuardedRun.run CSendBalanceInfoAction.step
          (CSendBalanceInfoAction.init addresses wallet) past).Alive) ↔
        GuardedRun.Guarded CSendBalanceInfoAction.step CSendBalanceInfoAction.GoesOn
          (CSendBalanceInfoAction.init addresses wallet) events := by
  refine ⟨fun outputs sendCoins ptr events => ?_,
    fun privKeyId targetKey value trackers monitors accepts events => ?_,
    fun addresses wallet events => ?_⟩
  · exact @GuardedRun.always_iff _ _ _ _ CSendTransactionAction.Waiting
      CSendTransactionAction.Alive (fun a event ha => ha.step event)
      (fun a event ha halive => CSendTransactionAction.alive_step_iff ha halive event) _ _
      (CSendTransactionAction.waiting_init outputs sendCoins ptr) (.inr (List.cons_ne_nil _ _))
  · have hwaiting : ∀ p ∈ some (ClientPayment.start privKeyId targetKey value trackers monitors
        accepts), p.Waiting := by
      simpa using ClientPayment.waiting_start privKeyId targetKey value trackers monitors accepts
    have hgood : ∀ s : Option ClientPayment, (∀ p ∈ s, p.Waiting) →
        ((∀ p ∈ s, p.Alive ∧ (p.payment.exit = true → ClientPayment.messages p.payment = 1)) ↔
          ∀ p ∈ s, p.Alive) := fun s hs =>
      ⟨fun h p hp => (h p hp).1, fun h p hp => ⟨h p hp, (hs p hp).messages⟩⟩
    refine @GuardedRun.always_iff _ _ _ _ (fun s : Option ClientPayment => ∀ p ∈ s, p.Waiting)
      (fun s : Option ClientPayment => ∀ p ∈ s,
        p.Alive ∧ (p.payment.exit = true → ClientPayment.messages p.payment = 1))
      (fun s event hs => ClientPayment.waiting_step hs event) (fun s event hs hgoes => ?_) _ _
      hwaiting ?_
    · rw [hgood _ (ClientPayment.waiting_step hs event)]
      exact ClientPayment.alive_step_iff hs ((hgood s hs).mp hgoes) event
    · rw [hgood _ hwaiting]
      cases accepts <;> simp [ClientPayment.start, ClientPayment.Alive,
        CPayLocalApplicationAction.indicateErrorCondition]
  · have hinit := @CSendBalanceInfoAction.askNext_spec ⟨addresses, 0, 0, 0, wallet, [], false⟩ rfl rfl
    exact @GuardedRun.always_iff _ _ _ _ CSendBalanceInfoAction.Waiting
      CSendBalanceInfoAction.Alive (fun a event ha => ha.step event)
      (fun a event ha halive => CSendBalanceInfoAction.alive_step_iff ha halive event) _ _
      hinit.1 hinit.2

namespace DeadEnds

open AnotherTracker

/-- A transaction that is found to be invalid later, one that is not validated, and a missing
medium leave the actions without a request. -/
theorem dead_ends :
    ¬(GuardedRun.run CSendTransactionAction.step (CSendTransactionAction.init [(6, 4)] [] 0)
      [.transactionAck .validated payment 2, .transactionStatus 7 .invalid]).Alive ∧
    ¬(∀ p ∈ GuardedRun.run (ClientPayment.step hashes signatures)
        (some (ClientPayment.start 0 1 5 [servicing.getID hashes] [] true))
        [.timeEvent context, .transactionAck .invalid payment], p.Alive) ∧
    ¬(GuardedRun.run CSendBalanceInfoAction.step (CSendBalanceInfoAction.init [5] .empty)
      [.noMedium]).Alive := by
  refine ⟨?_, ?_, ?_⟩
  · rintro (hexit | hrequests)
    · cases hexit
    · exact hrequests rfl
  · intro h
    rcases h _ rfl with hexit | hrequests
    · cases hexit
    · exact hrequests rfl
  · rintro (hexit | hrequests)
    · cases hexit
    · exact hrequests rfl

end DeadEnds

end Dims
