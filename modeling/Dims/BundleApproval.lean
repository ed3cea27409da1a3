import Dims.ValidateTransactions
import Dims.GuardedRun

/-!
# Who approves a bundle

An origin approves a bundle once its partners are used up by the participants of
messages that read as Validated; a tracker that was sent a bundle approves it on
a message that reads as Confirmed. What such a message is about and who it comes
from is read off its innermost layer, which the action does not look at further.
-/

namespace Dims
open ByteCodec Serialize

namespace CValidateTransactionsAction

variable (env : NodeContext)

/-- `react` along the events; an action that has aborted stays so. -/
def step (s : Option CValidateTransactionsAction) (event : ActionEvent) :
    Option CValidateTransactionsAction := s.bind fun a => a.react env event

/-- The innermost layer of a message reads as the status. -/
def Reads (status : CBundleStatus) (message : CMessage) (pubKey : CPubKey) : Prop :=
  ∃ original key, Innermost message pubKey original key ∧
    readStatus original.payload = some status.toInt

/-- The key id has signed a layer of a message which states that the bundle of
the action is validated. -/
def Endorsed (actionKey : Uint256) (id : CKeyID) (event : ActionEvent) : Prop :=
  ∃ message pubKey layer key original innerKey, event = .messageResult message pubKey ∧
    Layer message pubKey layer key ∧ key.getID env.hashes = id ∧
    Authentic env.hashes env.signatures layer key ∧
    Innermost message pubKey original innerKey ∧
    original.header.payloadKind = CPayloadKind.statusTransactions.toInt ∧
    original.header.actionKey = actionKey ∧
    readStatus original.payload = some CBundleStatus.validated.toInt

/-- What an origin relies on: a message that reads as Validated is a status of its
own bundle, and no layer of it goes without a signature. -/
def Relevant (actionKey : Uint256) (event : ActionEvent) : Prop :=
  ∀ message pubKey, event = .messageResult message pubKey → Reads .validated message pubKey →
    (∀ original key, Innermost message pubKey original key →
      original.header.payloadKind = CPayloadKind.statusTransactions.toInt ∧
        original.header.actionKey = actionKey) ∧
    ∀ layer key, Layer message pubKey layer key →
      layer.header.payloadKind = CPayloadKind.introductionReq.toInt →
      Authentic env.hashes env.signatures layer key

/-- The events of an origin that waits for its partners are relevant. -/
def RelevantTo (s : Option CValidateTransactionsAction) (event : ActionEvent) : Prop :=
  ∀ a partners, s = some a → a.state = .propagateBundle partners →
    Relevant env a.actionKey event

variable {env}

section States

@[simp] theorem state_enterApproved (env : NodeContext) (a : CValidateTransactionsAction) :
    (a.enterApproved env).state = .approved := by
  unfold enterApproved
  split <;> rfl

/-- The states that are left only by the end of the action. -/
def Decided (a : CValidateTransactionsAction) : Prop := a.state = .approved ∨ a.state = .rejected

theorem Decided.react {a a' : CValidateTransactionsAction} {event : ActionEvent} (h : a.Decided)
    (hstep : a.react env event = some a') : a'.Decided := by
  rcases h with happroved | hrejected
  · rw [CValidateTransactionsAction.react, happroved] at hstep
    cases event <;> cases hstep <;> exact .inl happroved
  · rw [CValidateTransactionsAction.react, hrejected] at hstep
    cases hstep
    exact .inr hrejected

end States

section Origin

/-- An event takes a partner off the set only by an endorsement of it, and ends the
waiting with success only if it does so for all that are left. -/
theorem react_propagateBundle {a a' : CValidateTransactionsAction} {partners : Finset CKeyID}
    {event : ActionEvent} (hstate : a.state = .propagateBundle partners)
    (hrelevant : Relevant env a.actionKey event) (hstep : a.react env event = some a') :
    a'.actionKey = a.actionKey ∧
      ((∃ remaining, a'.state = .propagateBundle remaining ∧
          ∀ id ∈ partners, id ∈ remaining ∨ Endorsed env a.actionKey id event) ∨
        a'.state = .approved ∧ (∀ id ∈ partners, Endorsed env a.actionKey id event) ∨
        a'.state = .rejected) := by
  rw [react, hstate] at hstep
  have hstay : ∀ id ∈ partners, id ∈ partners ∨ Endorsed env a.actionKey id event :=
    fun id hid => .inl hid
  cases event with
  | messageResult message pubKey =>
    obtain ⟨⟨original, participants⟩, hunwind, hrest⟩ := Option.bind_eq_some_iff.mp hstep
    obtain ⟨status, hstatus, hresult⟩ := Option.map_eq_some_iff.mp hrest
    obtain ⟨hall, ⟨innerKey, hinner⟩, hparticipants⟩ := unwindAsserted_spec hunwind
    by_cases hvalidated : status = CBundleStatus.validated.toInt
    · subst hvalidated
      obtain ⟨hdirected, hsigned⟩ := hrelevant message pubKey rfl ⟨original, innerKey, hinner, hstatus⟩
      -- every participant has signed the layer it is attributed to
      have hendorsed : ∀ id ∈ env.keyIds participants,
          Endorsed env a.actionKey id (.messageResult message pubKey) := by
        intro id hid
        obtain ⟨key, hkey, rfl⟩ := Finset.mem_image.mp hid
        obtain ⟨layer, hlayer⟩ := (hparticipants key).mp hkey
        exact ⟨message, pubKey, layer, key, original, innerKey, rfl, hlayer, rfl,
          authentic_of_unwindable hall hlayer (hsigned layer key hlayer), hinner,
          (hdirected original innerKey hinner).1, (hdirected original innerKey hinner).2, hstatus⟩
      rw [if_pos rfl] at hresult
      by_cases hempty : partners \ env.keyIds participants = ∅
      · rw [if_pos hempty] at hresult
        subst hresult
        refine ⟨?_, .inr (.inl ⟨state_enterApproved env _, fun id hid => ?_⟩)⟩
        · unfold enterApproved
          split <;> rfl
        · exact hendorsed id (Finset.sdiff_eq_empty_iff_subset.mp hempty hid)
      · rw [if_neg hempty] at hresult
        subst hresult
        refine ⟨rfl, .inl ⟨_, rfl, fun id hid => ?_⟩⟩
        by_cases hgone : id ∈ env.keyIds participants
        · exact .inr (hendorsed id hgone)
        · exact .inl (Finset.mem_sdiff.mpr ⟨hid, hgone⟩)
    · rw [if_neg hvalidated] at hresult
      subst hresult
      exact ⟨rfl, .inr (.inr rfl)⟩
  | timeEvent =>
    cases hstep
    exact ⟨rfl, .inl ⟨partners, hstate, hstay⟩⟩
  | validation =>
    cases hstep
    exact ⟨rfl, .inl ⟨partners, hstate, hstay⟩⟩
  | ack =>
    cases hstep
    exact ⟨rfl, .inl ⟨partners, hstate, hstay⟩⟩
  | noMedium =>
    cases hstep
    exact ⟨rfl, .inl ⟨partners, hstate, hstay⟩⟩

/-- What a guarded run of an origin keeps: while it waits, the partners it no longer
waits for have endorsed. -/
def Accounted (env : NodeContext) (actionKey : Uint256) (partners : Finset CKeyID)
    (past : List ActionEvent) (s : Option CValidateTransactionsAction) : Prop :=
  ∀ a, s = some a → a.Decided ∨ a.actionKey = actionKey ∧
    ∃ remaining, a.state = .propagateBundle remaining ∧
      ∀ id ∈ partners, id ∈ remaining ∨ ∃ e ∈ past, Endorsed env actionKey id e

theorem Accounted.step {actionKey : Uint256} {partners : Finset CKeyID} {past : List ActionEvent}
    {s : Option CValidateTransactionsAction} {event : ActionEvent}
    (h : Accounted env actionKey partners past s) (hrelevant : RelevantTo env s event) :
    Accounted env actionKey partners (past ++ [event]) (step env s event) := by
  intro a' ha'
  obtain ⟨a, rfl, hreact⟩ := Option.bind_eq_some_iff.mp ha'
  rcases h a rfl with hdecided | ⟨rfl, remaining, hstate, hpartners⟩
  · exact .inl (hdecided.react hreact)
  · obtain ⟨hkey, hcase⟩ := react_propagateBundle hstate (hrelevant a remaining rfl hstate) hreact
    rcases hcase with ⟨remaining', hstate', hendorsed⟩ | ⟨happroved, -⟩ | hrejected
    · refine .inr ⟨hkey, remaining', hstate', fun id hid => ?_⟩
      rcases hpartners id hid with hleft | ⟨e, he, hearlier⟩
      · rcases hendorsed id hleft with hstill | hnow
        · exact .inl hstill
        · exact .inr ⟨event, List.mem_append_right _ List.mem_cons_self, hnow⟩
      · exact .inr ⟨e, List.mem_append_left _ he, hearlier⟩
    · exact .inl (.inl happroved)
    · exact .inl (.inr hrejected)

/-- An origin that passes from propagating to approved has the endorsement of every
tracker that was an active partner when it sent the bundle. -/
theorem approved_only_if_endorsed {a b a' : CValidateTransactionsAction}
    {remaining : Finset CKeyID} {events : List ActionEvent} {event : ActionEvent}
    (hguarded : GuardedRun.Guarded (step env) (RelevantTo env) (some (a.enterPropagateBundle env))
      (events ++ [event]))
    (hrun : GuardedRun.run (step env) (some (a.enterPropagateBundle env)) events = some b)
    (hwaiting : b.state = .propagateBundle remaining)
    (hstep : b.react env event = some a') (happroved : a'.state = .approved) :
    ∀ id ∈ env.activePartners,
      ∃ e ∈ events ++ [event], Endorsed env a.actionKey id e := by
  obtain ⟨hfirst, hlast⟩ := (GuardedRun.guarded_append (step env) (RelevantTo env)).mp hguarded
  have haccounted : Accounted env a.actionKey env.activePartners [] (some (a.enterPropagateBundle env)) := by
    intro b hb
    cases hb
    exact .inr ⟨rfl, env.activePartners, rfl, fun id hid => .inl hid⟩
  obtain hdecided | ⟨hkey, remaining', hstate, hpartners⟩ :=
    hfirst.history (fun _ _ _ hs hok => hs.step hok) haccounted b hrun
  · rcases hdecided with h | h <;> rw [hwaiting] at h <;> cases h
  rw [hwaiting] at hstate
  cases hstate
  have hrelevant : Relevant env b.actionKey event := hlast.1 b remaining hrun hwaiting
  obtain ⟨-, hcase⟩ := react_propagateBundle hwaiting hrelevant hstep
  intro id hid
  rcases hpartners id hid with hleft | ⟨e, he, hendorsed⟩
  · refine ⟨event, List.mem_append_right _ List.mem_cons_self, ?_⟩
    rcases hcase with ⟨_, hstate, -⟩ | ⟨-, hall⟩ | hrejected
    · rw [happroved] at hstate
      cases hstate
    · rw [hkey] at hall
      exact hall id hleft
    · rw [happroved] at hrejected
      cases hrejected
  · exact ⟨e, List.mem_append_left _ he, hendorsed⟩

end Origin

section Receiver

/-- The message carried the bundle of the action when it came from the key. -/
def BundleFrom (env : NodeContext) (message : CMessage) (key : CPubKey)
    (transactions : List CTransaction) : Prop :=
  ∃ original, unwindMessage env.hashes env.signatures message key = some (some original) ∧
    readBundle original.payload = some transactions

/-- The initiating node of a receiving action is the sender of its bundle. -/
structure Initiated (env : NodeContext) (a : CValidateTransactionsAction) : Prop where
  receiver : a.state ≠ .originInitial ∧ ∀ partners, a.state ≠ .propagateBundle partners
  sender : ∀ message, a.transactionsMessage = some message →
    BundleFrom env message a.initiatingNodeKey a.transactions

theorem Initiated.of_eq {a a' : CValidateTransactionsAction} (h : a.Initiated env)
    (hreceiver : a'.state ≠ .originInitial ∧ ∀ partners, a'.state ≠ .propagateBundle partners)
    (htransactions : a'.transactions = a.transactions)
    (hkey : a'.initiatingNodeKey = a.initiatingNodeKey)
    (hmessage : a'.transactionsMessage = a.transactionsMessage) : a'.Initiated env := by
  refine ⟨hreceiver, fun message h' => ?_⟩
  rw [hmessage] at h'
  rw [htransactions, hkey]
  exact h.sender message h'

theorem Initiated.enterApproved {a : CValidateTransactionsAction} (h : a.Initiated env) :
    (a.enterApproved env).Initiated env := by
  unfold CValidateTransactionsAction.enterApproved
  split
  · exact h.of_eq ⟨nofun, nofun⟩ rfl rfl rfl
  · exact h.of_eq ⟨nofun, nofun⟩ rfl rfl rfl

theorem Initiated.reactPassBundle {a a' : CValidateTransactionsAction} {event : ActionEvent}
    (h : a.Initiated env) (hstep : a.reactPassBundle env event = some a') : a'.Initiated env := by
  cases event with
  | messageResult message pubKey =>
    obtain ⟨unwound, hunwound, hrest⟩ := Option.bind_eq_some_iff.mp hstep
    obtain ⟨original, rfl, hrest⟩ := Option.bind_eq_some_iff.mp hrest
    obtain ⟨transactions, hbundle, rfl⟩ := Option.map_eq_some_iff.mp hrest
    refine ⟨h.receiver, fun m hm => ?_⟩
    cases hm
    exact ⟨original, hunwound, hbundle⟩
  | validation =>
    cases hstep
    split
    · exact h.of_eq ⟨nofun, nofun⟩ rfl rfl rfl
    · exact h.of_eq ⟨nofun, nofun⟩ rfl rfl rfl
  | ack => cases hstep; exact h
  | timeEvent => cases hstep; exact h
  | noMedium => cases hstep; exact h

theorem Initiated.reactBroadcastBundle {a a' : CValidateTransactionsAction} {event : ActionEvent}
    {known validate partners : Finset CKeyID} (h : a.Initiated env)
    (hstep : a.reactBroadcastBundle env known validate partners event = some a') :
    a'.Initiated env := by
  -- whatever was recorded, the action goes on waiting or starts to validate
  have hcompare : ∀ (b : CValidateTransactionsAction) known' validate',
      b.transactions = a.transactions → b.initiatingNodeKey = a.initiatingNodeKey →
      b.transactionsMessage = a.transactionsMessage →
      (if validate' ∪ known' = partners then b.enterPassBundleValidate known'
        else { b with state := .broadcastBundle known' validate' partners }).Initiated env := by
    intro b known' validate' htransactions hkey hmessage
    split
    · exact h.of_eq ⟨nofun, nofun⟩ htransactions hkey hmessage
    · exact h.of_eq ⟨nofun, nofun⟩ htransactions hkey hmessage
  cases event with
  | messageResult message pubKey =>
    dsimp only [CValidateTransactionsAction.reactBroadcastBundle] at hstep
    split at hstep
    · obtain ⟨⟨original, participants⟩, -, rfl⟩ := Option.map_eq_some_iff.mp hstep
      exact hcompare _ _ _ rfl rfl rfl
    · split at hstep
      · obtain ⟨⟨original, participants⟩, -, hrest⟩ := Option.bind_eq_some_iff.mp hstep
        obtain ⟨status, -, rfl⟩ := Option.map_eq_some_iff.mp hrest
        split
        · exact hcompare _ _ _ rfl rfl rfl
        · split
          · exact hcompare _ _ _ rfl rfl rfl
          · exact hcompare _ _ _ rfl rfl rfl
      · cases hstep
        exact hcompare _ _ _ rfl rfl rfl
  | validation => cases hstep; exact h
  | ack => cases hstep; exact h
  | timeEvent => cases hstep; exact h.of_eq ⟨nofun, nofun⟩ rfl rfl rfl
  | noMedium => cases hstep; exact h.of_eq ⟨nofun, nofun⟩ rfl rfl rfl

theorem Initiated.reactPassBundleValidate {a a' : CValidateTransactionsAction} {event : ActionEvent}
    {exceptions : Finset CKeyID} (h : a.Initiated env)
    (hstep : a.reactPassBundleValidate env exceptions event = some a') : a'.Initiated env := by
  cases event with
  | messageResult message pubKey =>
    dsimp only [CValidateTransactionsAction.reactPassBundleValidate] at hstep
    split at hstep
    · obtain ⟨⟨original, participants⟩, -, hrest⟩ := Option.bind_eq_some_iff.mp hstep
      obtain ⟨status, -, rfl⟩ := Option.map_eq_some_iff.mp hrest
      split
      · refine Initiated.enterApproved ?_
        exact h.of_eq h.receiver rfl rfl rfl
      · exact h.of_eq ⟨nofun, nofun⟩ rfl rfl rfl
    · cases hstep
      exact h.of_eq h.receiver rfl rfl rfl
  | validation => cases hstep; exact h
  | ack => cases hstep; exact h
  | timeEvent => cases hstep; exact h.of_eq h.receiver rfl rfl rfl
  | noMedium => cases hstep

theorem Initiated.reactApproved {a a' : CValidateTransactionsAction} {event : ActionEvent}
    (h : a.Initiated env) (hstep : a.reactApproved event = some a') : a'.Initiated env := by
  cases event with
  | ack => cases hstep; exact h.of_eq h.receiver rfl rfl rfl
  | noMedium => cases hstep; exact h.of_eq h.receiver rfl rfl rfl
  | messageResult => cases hstep; exact h
  | validation => cases hstep; exact h
  | timeEvent => cases hstep; exact h

theorem Initiated.react {a a' : CValidateTransactionsAction} {event : ActionEvent}
    (h : a.Initiated env) (hstep : a.react env event = some a') : a'.Initiated env := by
  unfold CValidateTransactionsAction.react at hstep
  split at hstep
  next hstate => exact absurd hstate h.receiver.1
  next partners hstate => exact absurd hstate (h.receiver.2 partners)
  next => exact h.reactPassBundle hstep
  next => exact h.reactBroadcastBundle hstep
  next => exact h.reactPassBundleValidate hstep
  next => exact h.reactApproved hstep
  next => cases hstep; exact h
  next => cases hstep; exact h

variable (env) in
/-- The event is a confirmation by the key: the innermost layer of the message says
so and is signed by it. -/
def ConfirmedBy (key : CPubKey) (event : ActionEvent) : Prop :=
  ∃ message pubKey original, event = .messageResult message pubKey ∧
    Innermost message pubKey original key ∧
    Authentic env.hashes env.signatures original key ∧
    readStatus original.payload = some CBundleStatus.confirmed.toInt

variable (env) in
/-- What a receiver relies on: a status that reads as Confirmed comes from the
initiating node, which has signed it. -/
def FromInitiator (s : Option CValidateTransactionsAction) (event : ActionEvent) : Prop :=
  ∀ a exceptions, s = some a → a.state = .passBundleValidate exceptions →
    ∀ message pubKey, event = .messageResult message pubKey →
      message.header.payloadKind = CPayloadKind.statusTransactions.toInt →
      Reads .confirmed message pubKey →
      ∀ original key, Innermost message pubKey original key → key = a.initiatingNodeKey ∧
        (original.header.payloadKind = CPayloadKind.introductionReq.toInt →
          Authentic env.hashes env.signatures original key)

/-- A receiver leaves the last waiting state for approval on a confirmation only. -/
theorem react_passBundleValidate {a a' : CValidateTransactionsAction} {exceptions : Finset CKeyID}
    {event : ActionEvent} (hstate : a.state = .passBundleValidate exceptions)
    (hfrom : FromInitiator env (some a) event) (hstep : a.react env event = some a')
    (happroved : a'.state = .approved) : ConfirmedBy env a.initiatingNodeKey event := by
  rw [react, hstate] at hstep
  have hstay : ∀ b, b.state = a.state → some b = some a' →
      ConfirmedBy env a.initiatingNodeKey event := by
    intro b hb heq
    cases heq
    rw [hb, hstate] at happroved
    cases happroved
  cases event with
  | messageResult message pubKey =>
    dsimp only [reactPassBundleValidate] at hstep
    split at hstep
    next hkind =>
      obtain ⟨⟨original, participants⟩, hunwind, hrest⟩ := Option.bind_eq_some_iff.mp hstep
      obtain ⟨status, hstatus, hresult⟩ := Option.map_eq_some_iff.mp hrest
      obtain ⟨hall, ⟨innerKey, hinner⟩, -⟩ := unwindAsserted_spec hunwind
      by_cases hconfirmed : status = CBundleStatus.confirmed.toInt
      · subst hconfirmed
        obtain ⟨rfl, hsigned⟩ := hfrom a exceptions rfl hstate message pubKey rfl hkind
          ⟨original, innerKey, hinner, hstatus⟩ original innerKey hinner
        exact ⟨message, pubKey, original, rfl, hinner,
          authentic_of_unwindable hall hinner.1 hsigned, hstatus⟩
      · rw [if_neg hconfirmed] at hresult
        subst hresult
        cases happroved
    next => exact hstay (a.addRequests _) rfl hstep
  | validation => exact hstay a rfl hstep
  | ack => exact hstay a rfl hstep
  | timeEvent => exact hstay { a with exit := true } rfl hstep
  | noMedium => cases hstep

theorem initiated_passing (env : NodeContext) (actionKey : Uint256) :
    (passing actionKey).Initiated env := ⟨⟨nofun, nofun⟩, nofun⟩

/-- In a run of a receiving action every step from waiting to approval is taken on
a confirmation by the node that sent the bundle. -/
theorem approved_only_by_initiator {actionKey : Uint256} {b a' : CValidateTransactionsAction}
    {exceptions : Finset CKeyID} {events : List ActionEvent} {event : ActionEvent}
    (hguarded : GuardedRun.Guarded (step env) (FromInitiator env) (some (passing actionKey))
      (events ++ [event]))
    (hrun : GuardedRun.run (step env) (some (passing actionKey)) events = some b)
    (hwaiting : b.state = .passBundleValidate exceptions)
    (hstep : b.react env event = some a') (happroved : a'.state = .approved) :
    ConfirmedBy env b.initiatingNodeKey event ∧
      ∀ message, b.transactionsMessage = some message →
        BundleFrom env message b.initiatingNodeKey b.transactions := by
  have hkeeps : ∀ (s : Option CValidateTransactionsAction) (e : ActionEvent),
      (∀ a, s = some a → a.Initiated env) → FromInitiator env s e →
      ∀ a, step env s e = some a → a.Initiated env := by
    intro s e hs _ a ha
    obtain ⟨a₀, rfl, hreact⟩ := Option.bind_eq_some_iff.mp ha
    exact (hs a₀ rfl).react hreact
  obtain ⟨hinitiated, hfrom⟩ := hguarded.last hkeeps fun a ha => by
    cases ha
    exact initiated_passing env actionKey
  rw [hrun] at hfrom
  exact ⟨react_passBundleValidate hwaiting hfrom hstep happroved, (hinitiated b hrun).sender⟩

end Receiver

end CValidateTransactionsAction

namespace OnePartner
open CValidateTransactionsAction

/-- A network of one other tracker, in which `[1]` is the signature of everything. -/
def context : NodeContext :=
  ⟨⟨fun _ => 0, fun _ => 0⟩, ⟨fun _ _ sig => sig = [1]⟩,
    [CPubKey.ofBytes (2 :: List.replicate 32 1)], fun _ => true, fun _ => true⟩

def partner : CPubKey := CPubKey.ofBytes (2 :: List.replicate 32 1)

def signed (kind : CPayloadKind) (payload : Bytes) : CMessage :=
  ⟨⟨kind.toInt, [1], 0, .invalid, 7, 0⟩, payload⟩

theorem unwind_signed {kind : CPayloadKind} {payload : Bytes} {sender : CPubKey}
    (hcheck : checkLayer context.hashes context.signatures sender (signed kind payload) = some true) :
    context.unwind (signed kind payload) sender = some (signed kind payload, {sender}) :=
  unwindAsserted_of_last context.hashes context.signatures CPubKey.isValid_invalid hcheck

theorem innermost_signed (kind : CPayloadKind) (payload : Bytes) (sender : CPubKey) :
    Innermost (signed kind payload) sender (signed kind payload) sender :=
  ⟨.outer _ _, CPubKey.isValid_invalid⟩

/-- Whatever its kind, one signed message that reads as Validated is enough. -/
theorem approved_by_signed (kind : CPayloadKind) (payload : Bytes)
    (hcheck : checkLayer context.hashes context.signatures partner (signed kind payload) = some true)
    (hstatus : readStatus payload = some CBundleStatus.validated.toInt) :
    ∃ a', ((origin 7 []).enterPropagateBundle context).react context
        (.messageResult (signed kind payload) partner) = some a' ∧ a'.state = .approved := by
  have hremaining : context.activePartners \ context.keyIds {partner} = ∅ := by decide
  refine ⟨(((origin 7 []).enterPropagateBundle context).addRequests
    [.sendStatus .confirmed (some 0) .trackers]).enterApproved context, ?_,
    state_enterApproved context _⟩
  change (context.unwind (signed kind payload) partner).bind _ = _
  rw [unwind_signed hcheck, Option.bind_some]
  change (readStatus payload).map _ = _
  rw [hstatus, Option.map_some, if_pos rfl, if_pos hremaining]
  rfl

def validated : ActionEvent := .messageResult (signed .statusTransactions [0, 0, 0, 0]) partner

theorem endorsed_by_partner :
    ∃ e ∈ [] ++ [validated], Endorsed context 7 (partner.getID context.hashes) e := by
  obtain ⟨a', hstep, happroved⟩ := approved_by_signed .statusTransactions [0, 0, 0, 0]
    (by decide) (by decide)
  have hguarded : GuardedRun.Guarded (step context) (RelevantTo context)
      (some ((origin 7 []).enterPropagateBundle context)) ([] ++ [validated]) := by
    refine ⟨fun a partners ha hstate m k hm hreads => ?_, trivial⟩
    cases ha
    cases hm
    refine ⟨fun original key hinner => ?_, fun layer key hlayer hkind => ?_⟩
    · obtain ⟨rfl, -⟩ := innermost_unique hinner (innermost_signed _ _ _)
      exact ⟨rfl, rfl⟩
    · obtain ⟨rfl, -⟩ := hlayer.cases_of_no_prevKey CPubKey.isValid_invalid
      exact absurd hkind (by decide)
  exact approved_only_if_endorsed hguarded rfl rfl hstep happroved _ (by decide)

/-- A request for network information, which is of kind 0, reads as Validated: the
origin approves the bundle although its partner has not said a word about it. -/
theorem approved_by_info_request :
    ∃ a', ((origin 7 []).enterPropagateBundle context).react context
        (.messageResult (signed .infoReq [0, 0, 0, 0, 0]) partner) = some a' ∧
      a'.state = .approved ∧ partner.getID context.hashes ∈ context.activePartners ∧
      ¬Endorsed context 7 (partner.getID context.hashes)
        (.messageResult (signed .infoReq [0, 0, 0, 0, 0]) partner) := by
  obtain ⟨a', hstep, happroved⟩ := approved_by_signed .infoReq [0, 0, 0, 0, 0]
    (by decide) (by decide)
  refine ⟨a', hstep, happroved, by decide, ?_⟩
  rintro ⟨m, k, layer, key, original, innerKey, hm, -, -, -, hinner, hkind, -, -⟩
  cases hm
  obtain ⟨rfl, -⟩ := innermost_unique hinner (innermost_signed _ _ _)
  exact absurd hkind (by decide)

end OnePartner

namespace TwoPeers
open CValidateTransactionsAction OnePartner

def outsider : CPubKey := CPubKey.ofBytes (3 :: List.replicate 32 1)

def bundle : ActionEvent := .messageResult (signed .transactions [0]) partner

def confirmation (sender : CPubKey) : ActionEvent :=
  .messageResult (signed .statusTransactions [3, 0, 0, 0]) sender

/-- The run up to the confirmation: the bundle is valid, and no other tracker
reacts in time. -/
def waitingRun : List ActionEvent := [bundle, .validation [], .timeEvent]

def received : CValidateTransactionsAction :=
  { (passing 7).addRequests [.ack 0 (.byKey partner), .validateTransactions []] with
    transactions := []
    initiatingNodeKey := partner
    transactionsMessage := some (signed .transactions [0]) }

theorem react_bundle : (passing 7).react context bundle = some received := by
  have hcheck : checkLayer context.hashes context.signatures partner (signed .transactions [0]) =
      some true := by decide
  have hlast : (signed .transactions [0]).header.prevKey.isValid = false := CPubKey.isValid_invalid
  have hunwound : unwindMessage context.hashes context.signatures (signed .transactions [0]) partner =
      some (some (signed .transactions [0])) := by
    rw [unwindMessage, hcheck]
    simp [hlast]
  have hread : readBundle [0] = some [] := by decide
  change (unwindMessage _ _ (signed .transactions [0]) partner).bind _ = _
  rw [hunwound, Option.bind_some, Option.bind_some]
  change (readBundle [0]).map _ = _
  rw [hread, Option.map_some]
  rfl

def waiting : CValidateTransactionsAction :=
  (received.enterBroadcastBundle context).enterPassBundleValidate
    (context.activePartners.erase (partner.getID context.hashes))

theorem run_waitingRun :
    GuardedRun.run (step context) (some (passing 7)) waitingRun = some waiting := by
  rw [waitingRun, GuardedRun.run_cons, step, Option.bind_some, react_bundle]
  rfl

theorem approved_by_confirmation (sender : CPubKey)
    (hcheck : checkLayer context.hashes context.signatures sender
      (signed .statusTransactions [3, 0, 0, 0]) = some true) :
    ∃ a', waiting.react context (confirmation sender) = some a' ∧ a'.state = .approved := by
  have hread : readStatus [3, 0, 0, 0] = some CBundleStatus.confirmed.toInt := by decide
  refine ⟨((waiting.addRequests [.ack 0 (.byKey sender)]).addRequests
    [.forward (signed .statusTransactions [3, 0, 0, 0]) sender
      (.trackersExcept (∅ ∪ context.keyIds {sender}))]).enterApproved context, ?_,
    state_enterApproved context _⟩
  change (context.unwind (signed .statusTransactions [3, 0, 0, 0]) sender).bind _ = _
  rw [unwind_signed hcheck, Option.bind_some]
  change (readStatus [3, 0, 0, 0]).map _ = _
  rw [hread, Option.map_some, if_pos rfl]
  rfl

theorem confirmed_by_initiator :
    ConfirmedBy context waiting.initiatingNodeKey (confirmation partner) ∧
      ∀ message, waiting.transactionsMessage = some message →
        BundleFrom context message waiting.initiatingNodeKey waiting.transactions := by
  obtain ⟨a', hstep, happroved⟩ := approved_by_confirmation partner (by decide)
  have hguarded : GuardedRun.Guarded (step context) (FromInitiator context) (some (passing 7))
      (waitingRun ++ [confirmation partner]) := by
    refine (GuardedRun.guarded_append (step context) (FromInitiator context)).mpr ⟨?_, ?_, trivial⟩
    · refine ⟨fun a exceptions ha hstate => ?_, fun a exceptions _ _ m k hm => ?_,
        fun a exceptions _ _ m k hm => ?_, trivial⟩
      · cases ha
        cases hstate
      · cases hm
      · cases hm
    · intro a exceptions ha _ m k hm _ _ original key hinner
      rw [run_waitingRun] at ha
      cases ha
      cases hm
      obtain ⟨rfl, rfl⟩ := innermost_unique hinner (innermost_signed _ _ _)
      exact ⟨rfl, fun hkind => absurd hkind (by decide)⟩
  exact approved_only_by_initiator hguarded run_waitingRun rfl hstep happroved

/-- An outsider confirms the bundle that the partner has started. -/
theorem approved_by_outsider :
    GuardedRun.run (step context) (some (passing 7)) waitingRun = some waiting ∧
      waiting.state = .passBundleValidate ∅ ∧ waiting.initiatingNodeKey = partner ∧
      ∃ a', waiting.react context (confirmation outsider) = some a' ∧ a'.state = .approved ∧
        ¬ConfirmedBy context waiting.initiatingNodeKey (confirmation outsider) := by
  obtain ⟨a', hstep, happroved⟩ := approved_by_confirmation outsider (by decide)
  refine ⟨run_waitingRun, rfl, rfl, a', hstep, happroved, ?_⟩
  rintro ⟨m, k, original, hm, hinner, -, -⟩
  cases hm
  obtain ⟨-, hsame⟩ := innermost_unique hinner (innermost_signed _ _ _)
  exact absurd hsame (by decide)

end TwoPeers

end Dims
