import Dims.BundleApproval

/-!
# When a receiver stops to wait for the other trackers

A tracker that was sent a bundle waits in `CBroadcastBundle` until it knows of its partners
that they have the bundle or have validated it. The initiator is known from the beginning
and is not a partner, so the sets that are compared never agree.
-/

namespace Dims
open ByteCodec Serialize

namespace CValidateTransactionsAction

variable (env : NodeContext)

/-- The statuses with which a tracker tells that it has the bundle. -/
def Holding (payload : Bytes) : Prop :=
  readStatus payload = some CBundleStatus.validated.toInt ∨
    readStatus payload = some CBundleStatus.known.toInt

instance (payload : Bytes) : Decidable (Holding payload) := inferInstanceAs (Decidable (_ ∨ _))

/-- The key ids that an event reports to have the bundle, or to have validated it. -/
def reported : ActionEvent → Finset CKeyID
  | .messageResult message pubKey =>
    match env.unwind message pubKey with
    | none => ∅
    | some (original, participants) =>
      if message.header.payloadKind = CPayloadKind.transactions.toInt ∨
          message.header.payloadKind = CPayloadKind.statusTransactions.toInt ∧
            Holding original.payload then env.keyIds participants
      else ∅
  | _ => ∅

/-- Of every partner other than the initiator it is known that it has the bundle. -/
def Covered (initiator : CKeyID) (events : List ActionEvent) : Prop :=
  ∀ id ∈ env.activePartners, id ≠ initiator → ∃ event ∈ events, id ∈ reported env event

/-- The action waits in `CBroadcastBundle`. -/
def Waits (s : Option CValidateTransactionsAction) : Prop :=
  ∃ a known validate partners, s = some a ∧ a.state = .broadcastBundle known validate partners

/-- The event is a message that comes while the action waits, and is the first with which all
partners are covered. -/
def Completes (initiator : CKeyID) (s : Option CValidateTransactionsAction)
    (past : List ActionEvent) (event : ActionEvent) : Prop :=
  Waits s ∧ (∃ message pubKey, event = .messageResult message pubKey) ∧
    ¬Covered env initiator past ∧ Covered env initiator (past ++ [event])

/-- The action moves to `CPassBundleValidate` through the message. -/
def MovesBy (s : Option CValidateTransactionsAction) (event : ActionEvent) : Prop :=
  Waits s ∧ (∃ message pubKey, event = .messageResult message pubKey) ∧
    ∃ a' exceptions, step env s event = some a' ∧ a'.state = .passBundleValidate exceptions

/-- In the run after the action has come to `CBroadcastBundle` it moves on through a message
exactly when that completes the reports. -/
def MovesWhenCovered (a : CValidateTransactionsAction) (events : List ActionEvent) : Prop :=
  ∀ past event, past ++ [event] <+: events →
    (MovesBy env (GuardedRun.run (step env) (some (a.enterBroadcastBundle env)) past) event ↔
      Completes env (a.initiatingNodeKey.getID env.hashes)
        (GuardedRun.run (step env) (some (a.enterBroadcastBundle env)) past) past event)

variable {env}

theorem union_ne {initiator : CKeyID} {known validate partners : Finset CKeyID}
    (hknown : initiator ∈ known) (hpartners : initiator ∉ partners) :
    validate ∪ known ≠ partners := by
  rintro rfl
  exact hpartners (Finset.mem_union_right _ hknown)

theorem react_message {a a' : CValidateTransactionsAction} {initiator : CKeyID}
    {known validate partners : Finset CKeyID} {message : CMessage} {pubKey : CPubKey}
    (hstate : a.state = .broadcastBundle known validate partners) (hknown : initiator ∈ known)
    (hpartners : initiator ∉ partners)
    (hstep : a.react env (.messageResult message pubKey) = some a') :
    ∃ known' validate', a'.state = .broadcastBundle known' validate' partners ∧
      initiator ∈ known' := by
  have hcompare : ∀ (b : CValidateTransactionsAction) known' validate', initiator ∈ known' →
      ∃ known'' validate'', (if validate' ∪ known' = partners then b.enterPassBundleValidate known'
        else { b with state := .broadcastBundle known' validate' partners }).state =
          .broadcastBundle known'' validate'' partners ∧ initiator ∈ known'' := by
    intro b known' validate' hknown'
    rw [if_neg (union_ne hknown' hpartners)]
    exact ⟨known', validate', rfl, hknown'⟩
  rw [react, hstate] at hstep
  dsimp only [reactBroadcastBundle] at hstep
  split at hstep
  · obtain ⟨⟨original, participants⟩, -, rfl⟩ := Option.map_eq_some_iff.mp hstep
    exact hcompare _ _ _ (Finset.mem_union_left _ hknown)
  · split at hstep
    · obtain ⟨⟨original, participants⟩, -, hrest⟩ := Option.bind_eq_some_iff.mp hstep
      obtain ⟨status, -, rfl⟩ := Option.map_eq_some_iff.mp hrest
      split
      · exact hcompare _ _ _ hknown
      · split
        · exact hcompare _ _ _ (Finset.mem_union_left _ hknown)
        · exact hcompare _ _ _ hknown
    · cases hstep
      exact hcompare _ _ _ hknown

/-- A state that has been left is not entered again. -/
def Passed (a : CValidateTransactionsAction) : Prop :=
  (∃ exceptions, a.state = .passBundleValidate exceptions) ∨ a.state = .approved

theorem Passed.react {a a' : CValidateTransactionsAction} {event : ActionEvent} (h : a.Passed)
    (hstep : a.react env event = some a') : a'.Passed := by
  obtain ⟨exceptions, hstate⟩ | hstate := h
  · rw [CValidateTransactionsAction.react, hstate] at hstep
    cases event with
    | messageResult message pubKey =>
      dsimp only [reactPassBundleValidate] at hstep
      split at hstep
      · obtain ⟨⟨original, participants⟩, -, hrest⟩ := Option.bind_eq_some_iff.mp hstep
        obtain ⟨status, -, rfl⟩ := Option.map_eq_some_iff.mp hrest
        split
        · exact .inr (state_enterApproved env _)
        · exact .inl ⟨_, rfl⟩
      · cases hstep
        exact .inl ⟨_, hstate⟩
    | validation => cases hstep; exact .inl ⟨_, hstate⟩
    | ack => cases hstep; exact .inl ⟨_, hstate⟩
    | timeEvent => cases hstep; exact .inl ⟨_, hstate⟩
    | noMedium => cases hstep
  · rw [CValidateTransactionsAction.react, hstate] at hstep
    cases event <;> cases hstep <;> exact .inr hstate

/-- What holds of the action from `CBroadcastBundle` on. -/
def Broadcasting (initiator : CKeyID) (partners : Finset CKeyID)
    (s : Option CValidateTransactionsAction) : Prop :=
  ∀ a, s = some a → a.Passed ∨
    ∃ known validate, a.state = .broadcastBundle known validate partners ∧ initiator ∈ known

theorem Broadcasting.step {initiator : CKeyID} {partners : Finset CKeyID}
    (hpartners : initiator ∉ partners) {s : Option CValidateTransactionsAction}
    (event : ActionEvent) (h : Broadcasting initiator partners s) :
    Broadcasting initiator partners (step env s event) := by
  intro a' ha'
  obtain ⟨a, rfl, hreact⟩ := Option.bind_eq_some_iff.mp ha'
  obtain hpassed | ⟨known, validate, hstate, hknown⟩ := h a rfl
  · exact .inl (hpassed.react hreact)
  · cases event with
    | messageResult message pubKey =>
      obtain ⟨known', validate', hstate', hknown'⟩ := react_message hstate hknown hpartners hreact
      exact .inr ⟨known', validate', hstate', hknown'⟩
    | validation => rw [react, hstate] at hreact; cases hreact; exact .inr ⟨_, _, hstate, hknown⟩
    | ack => rw [react, hstate] at hreact; cases hreact; exact .inr ⟨_, _, hstate, hknown⟩
    | timeEvent => rw [react, hstate] at hreact; cases hreact; exact .inl (.inl ⟨_, rfl⟩)
    | noMedium => rw [react, hstate] at hreact; cases hreact; exact .inl (.inl ⟨_, rfl⟩)

/-- Whatever has happened since the action began to wait, no message ends the waiting. -/
theorem not_movesBy (a : CValidateTransactionsAction) (past : List ActionEvent)
    (event : ActionEvent) :
    ¬MovesBy env (GuardedRun.run (step env) (some (a.enterBroadcastBundle env)) past) event := by
  have hinitiator : a.initiatingNodeKey.getID env.hashes ∉
      env.activePartners.erase (a.initiatingNodeKey.getID env.hashes) := Finset.notMem_erase _ _
  have hrun : Broadcasting (a.initiatingNodeKey.getID env.hashes)
      (env.activePartners.erase (a.initiatingNodeKey.getID env.hashes))
      (GuardedRun.run (step env) (some (a.enterBroadcastBundle env)) past) := by
    refine GuardedRun.run_invariant (fun s event h => h.step hinitiator event) ?_ past
    intro b hb
    cases hb
    exact .inr ⟨_, _, rfl, Finset.mem_singleton_self _⟩
  rintro ⟨⟨b, known, validate, partners, hb, hstate⟩, ⟨message, pubKey, rfl⟩, a', exceptions, hstep,
    hmoved⟩
  rw [hb] at hstep
  obtain hpassed | ⟨known', validate', hstate', hknown⟩ := hrun b hb
  · obtain ⟨exceptions, hpassed⟩ | hpassed := hpassed <;> rw [hstate] at hpassed <;> cases hpassed
  · obtain ⟨known'', validate'', hstill, -⟩ := react_message hstate' hknown hinitiator hstep
    rw [hmoved] at hstill
    cases hstill

/-- The action does what it waits for only as long as no message completes the reports. -/
theorem movesWhenCovered_iff (a : CValidateTransactionsAction) (events : List ActionEvent) :
    MovesWhenCovered env a events ↔ ∀ past event, past ++ [event] <+: events →
      ¬Completes env (a.initiatingNodeKey.getID env.hashes)
        (GuardedRun.run (step env) (some (a.enterBroadcastBundle env)) past) past event := by
  refine forall_congr' fun past => forall_congr' fun event => imp_congr_right fun _ => ?_
  rw [iff_false_left (not_movesBy a past event)]

end CValidateTransactionsAction

namespace OtherPartner
open CValidateTransactionsAction

def hashes : HashFunctions := ⟨fun _ => 0, fun bytes => BitVec.ofNat 160 (bytes.headD 0).toNat⟩

def initiator : CPubKey := CPubKey.ofBytes (2 :: List.replicate 32 1)

def partner : CPubKey := CPubKey.ofBytes (3 :: List.replicate 32 1)

/-- A network of two other trackers, in which `[1]` is the signature of everything. -/
def context : NodeContext :=
  ⟨hashes, ⟨fun _ _ sig => sig = [1]⟩, [initiator, partner], fun _ => true, fun _ => true⟩

def received : CValidateTransactionsAction :=
  { passing 7 with initiatingNodeKey := initiator }

def validated : CMessage :=
  ⟨⟨CPayloadKind.statusTransactions.toInt, [1], 0, .invalid, 7, 0⟩, [0, 0, 0, 0]⟩

theorem unwind_validated : context.unwind validated partner = some (validated, {partner}) :=
  unwindAsserted_of_last context.hashes context.signatures CPubKey.isValid_invalid (by decide)

theorem reported_validated :
    reported context (.messageResult validated partner) = {partner.getID context.hashes} := by
  rw [reported, unwind_validated]
  decide

/-- The only partner other than the initiator validates the bundle, and the action goes on
waiting. -/
theorem waits_on : ¬MovesWhenCovered context received [.messageResult validated partner] := by
  intro h
  refine not_movesBy received [] (.messageResult validated partner)
    ((h [] _ (List.prefix_refl _)).mpr
      ⟨⟨_, _, _, _, rfl, rfl⟩, ⟨_, _, rfl⟩, fun hcovered => ?_, fun id hid hne => ?_⟩)
  · obtain ⟨event, hevent, -⟩ := hcovered (partner.getID context.hashes) (by decide) (by decide)
    cases hevent
  · refine ⟨_, List.mem_cons_self, ?_⟩
    have hpartners : context.activePartners =
        {initiator.getID context.hashes, partner.getID context.hashes} := by decide
    rw [hpartners, Finset.mem_insert] at hid
    rw [reported_validated]
    exact hid.resolve_left hne

end OtherPartner

end Dims
