import Dims.Participants
import Dims.SignedPayload
import Dims.GuardedRun
import Mathlib.Data.Finset.Image

/-!
# The activity of nodes

A node that hears that another one has become active or inactive checks it and sends the
message on. `CRecognizeNodeState` exists in trackers and in monitors; the two differ in
what they do with the first message and when time is up. A chain of nodes is a network
in which each node receives what the one before it has sent on, among any other messages.
-/

namespace Dims
open ByteCodec Serialize

inductive CActivitySatatus
  | active
  | inactive
  deriving DecidableEq, Repr

def CActivitySatatus.toInt (status : CActivitySatatus) : Int32 := Int32.ofNat status.ctorIdx

structure CActivationStatus where
  keyId : CKeyID
  status : Int32
  deriving DecidableEq

def CActivationStatus.codec : Codec CActivationStatus :=
  (uint160.prod int32).imap (fun s => (s.keyId, s.status)) (fun p => ⟨p.1, p.2⟩) (fun _ => rfl)

/-- `convertPayload` into a `CActivationStatus` -/
def readActivationStatus (payload : Bytes) : Option CActivationStatus :=
  (CActivationStatus.codec.decode payload).map Prod.fst

/-- The message without arguments. -/
def CMessage.uninitiated : CMessage :=
  ⟨⟨CPayloadKind.uninitiated.toInt, [], 0, .invalid, 0, 0⟩, []⟩

inductive ActivityRequest
  | ack (respondsTo : Uint256) (pubKey : CPubKey)
  | connectNode (address : CAddress)
  /-- The message goes to every node except the informing ones. -/
  | sendOn (message : CMessage) (informingNodes : Finset CKeyID)

def ActivityRequest.sentMessage : ActivityRequest → Option CMessage
  | sendOn message _ => some message
  | _ => none

structure CRecognizeNodeState where
  informingNodes : Finset CKeyID
  message : CMessage
  lastKey : CPubKey
  activationStatus : CActivationStatus
  alreadyInformed : Bool

structure CActivityControllerAction where
  actionKey : Uint256
  /-- None after the transition to `CRestorePosition`. -/
  recognizeNodeState : Option CRecognizeNodeState
  exit : Bool
  /-- The handler of the actions has not removed it yet. -/
  alive : Bool
  requests : List ActivityRequest
  /-- The status that was taken from a message, with the participants of the message. -/
  received : Option (CActivationStatus × Finset CPubKey)

inductive NodeProgram
  | tracker
  | monitor
  deriving DecidableEq, Repr

structure ActivityNode where
  program : NodeProgram
  authentication : CAuthenticationProvider

/-- What the rest of the node answers during an event: the nodes manager of a tracker, the
reputation tracker of a monitor, the clock and the identifiers of requests. -/
structure ActivitySurroundings where
  getNodeInfo : CKeyID → Option CAddress
  myMonitor : CKeyID
  /-- The monitor that controls a tracker. -/
  checkForTracker : CKeyID → Option CPubKey
  getAddresFromKey : CKeyID → Option CAddress
  time : Int64
  id : Uint256

inductive ActivityEvent
  | messageResult (message : CMessage) (pubKey : CPubKey)
  /-- `CFailureEvent`: the node could not be connected to. -/
  | failure
  /-- `CNetworkInfoResult`: the node has answered. -/
  | networkInfo
  | ack
  | timeEvent
  | noMedium
  | remove

section

variable (H : HashFunctions) (S : SignatureScheme) (node : ActivityNode) (env : ActivitySurroundings)

def CRecognizeNodeState.informedBy (s : CRecognizeNodeState) (participants : Finset CPubKey) :
    Finset CKeyID :=
  s.informingNodes ∪ participants.image (CPubKey.getID H)

/-- A monitor believes that a tracker is inactive if its controlling monitor says so. -/
def toldByMonitor (informingNodes : Finset CKeyID) (status : CActivationStatus) : Prop :=
  status.status = CActivitySatatus.inactive.toInt ∧
    ∃ monitor ∈ env.checkForTracker status.keyId, monitor.getID H ∈ informingNodes

instance (informingNodes : Finset CKeyID) (status : CActivationStatus) :
    Decidable (toldByMonitor H env informingNodes status) :=
  inferInstanceAs (Decidable (_ ∧ _))

/-- In this state the event makes the node send the message on. -/
def CRecognizeNodeState.SendsOn (s : CRecognizeNodeState) : ActivityEvent → Prop
  | .messageResult message pubKey =>
    node.program = .monitor ∧ s.alreadyInformed = false ∧
      ∃ original participants status,
        unwindAsserted H S message pubKey = some (original, participants) ∧
        original.header.payloadKind = CPayloadKind.activationStatus.toInt ∧
        readActivationStatus original.payload = some status ∧
        toldByMonitor H env (s.informedBy H participants) status
  | .failure => s.activationStatus.status = CActivitySatatus.inactive.toInt
  | .networkInfo => s.activationStatus.status = CActivitySatatus.active.toInt
  | _ => False

namespace CActivityControllerAction

/-- `CSendMessageRequest` with the stored message and the last key -/
def sendOn (a : CActivityControllerAction) (s : CRecognizeNodeState) :
    Option CActivityControllerAction :=
  (CMessage.wrap H node.authentication s.message s.lastKey a.actionKey env.id
    env.time).map fun message =>
      { a with
        recognizeNodeState := some s
        requests := a.requests ++ [.sendOn message s.informingNodes] }

def connectNode (a : CActivityControllerAction) : Option CAddress → CActivityControllerAction
  | none => a
  | some address => { a with requests := a.requests ++ [.connectNode address] }

/-- The state is informed for the first time, by an original message about the activity
of a node. In a monitor the key of the node is still the one without arguments. -/
def inform (a : CActivityControllerAction) (s : CRecognizeNodeState) (status : CActivationStatus) :
    Option CActivityControllerAction :=
  match node.program with
  | .tracker => some (a.connectNode (env.getNodeInfo status.keyId))
  | .monitor =>
    if toldByMonitor H env s.informingNodes status then a.sendOn H node env s
    else some (a.connectNode (env.getAddresFromKey (CPubKey.invalid.getID H)))

/-- The stored message is not assigned. -/
def reactMessageResult (a : CActivityControllerAction) (s : CRecognizeNodeState)
    (message : CMessage) (pubKey : CPubKey) : Option CActivityControllerAction :=
  (unwindAsserted H S message pubKey).bind fun (original, participants) =>
    let s := { s with lastKey := pubKey, informingNodes := s.informedBy H participants }
    if original.header.payloadKind = CPayloadKind.activationStatus.toInt ∧
        s.alreadyInformed = false then
      (readActivationStatus original.payload).bind fun status =>
        let s := { s with alreadyInformed := true, activationStatus := status }
        let a := { a with
          recognizeNodeState := some s
          requests := a.requests ++ [ActivityRequest.ack message.header.id pubKey]
          received := some (status, participants) }
        a.inform H node env s status
    else some { a with recognizeNodeState := some s }

/-- A tracker whose own monitor is gone looks for a new position. -/
def reactFailure (a : CActivityControllerAction) (s : CRecognizeNodeState) :
    Option CActivityControllerAction :=
  if s.activationStatus.status = CActivitySatatus.inactive.toInt then
    (a.sendOn H node env s).map fun a =>
      if node.program = .tracker ∧ s.activationStatus.keyId = env.myMonitor then
        { a with recognizeNodeState := none }
      else a
  else some a

def reactNetworkInfo (a : CActivityControllerAction) (s : CRecognizeNodeState) :
    Option CActivityControllerAction :=
  if s.activationStatus.status = CActivitySatatus.active.toInt then a.sendOn H node env s
  else some a

/-- A monitor asserts that time is never up. -/
def reactTimeEvent (a : CActivityControllerAction) : Option CActivityControllerAction :=
  match node.program with
  | .tracker => some { a with exit := true }
  | .monitor => none

/-- No value where an assertion fails, the stream throws or a digest is undefined. -/
def react (a : CActivityControllerAction) (s : CRecognizeNodeState) :
    ActivityEvent → Option CActivityControllerAction
  | .messageResult message pubKey => a.reactMessageResult H S node env s message pubKey
  | .failure => a.reactFailure H node env s
  | .networkInfo => a.reactNetworkInfo H node env s
  | .ack => some { a with exit := true }
  | .timeEvent => a.reactTimeEvent node
  | .noMedium => some { a with exit := true }
  | .remove => some { a with alive := !a.exit }

def step (a : CActivityControllerAction) (event : ActivityEvent) :
    Option CActivityControllerAction :=
  match a.recognizeNodeState with
  | none => some a
  | some s => if a.alive then a.react H S node env s event else some a

def sentOn (a : CActivityControllerAction) : List CMessage :=
  a.requests.filterMap ActivityRequest.sentMessage

def SendsOn (a : CActivityControllerAction) (event : ActivityEvent) : Prop :=
  a.alive ∧ ∃ s ∈ a.recognizeNodeState, s.SendsOn H S node env event

end CActivityControllerAction

/-- A node that receives the message from the owner of the key learns the status, and
learns that the participants know it. -/
def UnwindsTo (message : CMessage) (pubKey : CPubKey) (status : CActivationStatus)
    (participants : Finset CPubKey) : Prop :=
  ∃ original, unwindAsserted H S message pubKey =
      some (original, participants) ∧
    original.header.payloadKind = CPayloadKind.activationStatus.toInt ∧
    readActivationStatus original.payload = some status

/-- What was sent on says what was received, with the node itself as one more participant. -/
def CActivityControllerAction.KeepsContent (a : CActivityControllerAction) : Prop :=
  ∀ message ∈ a.sentOn,
    ∃ status participants, a.received = some (status, participants) ∧
      UnwindsTo H S message node.authentication.myKey status
        (insert node.authentication.myKey participants)

end

section Network

variable (H : HashFunctions) (S : SignatureScheme) {ι : Type} [DecidableEq ι]
variable (nodes : ι → ActivityNode)

/-- An event at one of the nodes. A message may come from any sender. -/
structure ActivityInput (ι : Type) where
  index : ι
  surroundings : ActivitySurroundings
  event : ActivityEvent

namespace ActivityNetwork

/-- The actions before their first events; the status that no message has set yet is what
the memory holds. -/
def start (actionKey : ι → Uint256) (memory : ι → CActivationStatus) :
    ι → Option CActivityControllerAction :=
  fun i => some ⟨actionKey i, some ⟨∅, .uninitiated, .invalid, memory i, false⟩, false, true, [], none⟩

/-- A node whose reaction has no value is gone. -/
def step (network : ι → Option CActivityControllerAction) (input : ActivityInput ι) :
    ι → Option CActivityControllerAction :=
  Function.update network input.index
    ((network input.index).bind fun a =>
      a.step H S (nodes input.index) input.surroundings input.event)

def KeepsContent (network : ι → Option CActivityControllerAction) : Prop :=
  ∀ i, ∀ a ∈ network i, a.KeepsContent H S (nodes i)

/-- The event makes its node send nothing on. -/
def Quiet (network : ι → Option CActivityControllerAction) (input : ActivityInput ι) : Prop :=
  ∀ a ∈ network input.index,
    ¬ a.SendsOn H S (nodes input.index) input.surroundings input.event

end ActivityNetwork

end Network

section Content

variable {H : HashFunctions} {S : SignatureScheme} {node : ActivityNode}

theorem readPayload_uninitiated :
    readPayload (CMessage.codec.encode .uninitiated) = some .uninitiated := by
  have hfits : CMessage.codec.Fits .uninitiated :=
    ⟨⟨int32_fits _, byteVector_fits (by decide), int64_fits _, .inr rfl, uint256_fits _,
      uint256_fits _⟩, byteVector_fits (by decide)⟩
  have hdecode := CMessage.codec.decode_encode .uninitiated [] hfits
  rw [List.append_nil] at hdecode
  simp [readPayload, hdecode]

theorem exists_wrap_uninitiated (H : HashFunctions) (A : CAuthenticationProvider)
    (prevKey : CPubKey) (actionKey id : Uint256) (time : Int64) :
    ∃ message, CMessage.wrap H A .uninitiated prevKey actionKey id time = some message := by
  have hne : CMessage.codec.encode .uninitiated ≠ [] := by
    intro hnil
    have hread := readPayload_length readPayload_uninitiated
    rw [hnil] at hread
    exact absurd hread (Nat.not_lt_zero _)
  simp [CMessage.wrap, signPayload, payloadHash, hashedRange_of_ne hne]

theorem checkLayer_uninitiated (H : HashFunctions) (S : SignatureScheme) (pubKey : CPubKey) :
    checkLayer H S pubKey .uninitiated = none := by
  have hkind : CMessage.uninitiated.header.payloadKind ≠ CPayloadKind.introductionReq.toInt := by
    decide
  rw [checkLayer, if_pos hkind]
  rfl

/-- The message without arguments, sent on, never unwinds to a status. -/
theorem not_unwindsTo_wrap {message : CMessage} {prevKey : CPubKey} {actionKey id : Uint256}
    {time : Int64} (hwrap : CMessage.wrap H node.authentication .uninitiated prevKey
      actionKey id time = some message) (pubKey : CPubKey) (status : CActivationStatus)
    (participants : Finset CPubKey) : ¬ UnwindsTo H S message pubKey status participants := by
  rintro ⟨original, hunwind, hkind, -⟩
  obtain ⟨hall, ⟨key, hinnermost⟩, -⟩ := unwindAsserted_spec hunwind
  obtain ⟨signedHash, -, rfl⟩ := Option.map_eq_some_iff.mp hwrap
  by_cases hprev : prevKey.isValid = true
  · -- The layer inside is the message without arguments, and checking it is undefined.
    have hcheck := (hall _ _ (.inner hprev readPayload_uninitiated (.outer _ _))).1
    rw [checkLayer_uninitiated] at hcheck
    cases hcheck
  · have hlast : prevKey.isValid = false := by simpa using hprev
    obtain ⟨rfl, -⟩ := innermost_unique hinnermost ⟨.outer _ _, hlast⟩
    have hne : CMessage.uninitiated.header.payloadKind ≠ CPayloadKind.activationStatus.toInt := by
      decide
    exact hne hkind

end Content

namespace CActivityControllerAction

variable {H : HashFunctions} {S : SignatureScheme} {node : ActivityNode}
variable {env : ActivitySurroundings} {a a' : CActivityControllerAction} {s : CRecognizeNodeState}

variable (H node) in
/-- A message that is the one without arguments, sent on. -/
def Forwarded (message : CMessage) : Prop :=
  ∃ prevKey actionKey id time,
    CMessage.wrap H node.authentication .uninitiated prevKey actionKey id time =
      some message

variable (H node a) in
/-- The stored message is the one without arguments, now and whenever it was sent on. -/
structure Sound : Prop where
  stored : ∀ s ∈ a.recognizeNodeState, s.message = .uninitiated
  forwarded : ∀ message ∈ a.sentOn, Forwarded H node message

variable (H node a a') in
/-- A reaction sends one message on or none. -/
structure Effect (sends : Prop) : Prop where
  stored : ∀ s ∈ a'.recognizeNodeState, s.message = .uninitiated
  sentOn : (sends ∧ ∃ message, Forwarded H node message ∧ a'.sentOn = a.sentOn ++ [message]) ∨
    (¬ sends ∧ a'.sentOn = a.sentOn)

/-- Only a node that has sent nothing on keeps the content. -/
theorem Sound.keepsContent_iff (h : a.Sound H node) : a.KeepsContent H S node ↔ a.sentOn = [] := by
  constructor
  · intro hkeeps
    apply List.eq_nil_iff_forall_not_mem.mpr
    intro message hmem
    obtain ⟨prevKey, actionKey, id, time, hwrap⟩ := h.forwarded message hmem
    obtain ⟨status, participants, -, hunwinds⟩ := hkeeps message hmem
    exact not_unwindsTo_wrap hwrap _ _ _ hunwinds
  · intro hnone message hmem
    rw [hnone] at hmem
    cases hmem

theorem Effect.sound {sends : Prop} (heffect : Effect H node a a' sends) (h : a.Sound H node) :
    a'.Sound H node := by
  refine ⟨heffect.stored, fun message hmem => ?_⟩
  rcases heffect.sentOn with ⟨-, added, hadded, heq⟩ | ⟨-, heq⟩
  · rw [heq, List.mem_append, List.mem_singleton] at hmem
    rcases hmem with hold | rfl
    · exact h.forwarded message hold
    · exact hadded
  · rw [heq] at hmem
    exact h.forwarded message hmem

theorem Effect.sentOn_eq_nil_iff {sends : Prop} (heffect : Effect H node a a' sends) :
    a'.sentOn = [] ↔ a.sentOn = [] ∧ ¬ sends := by
  rcases heffect.sentOn with ⟨hsends, added, -, heq⟩ | ⟨hquiet, heq⟩
  · simp [heq, hsends]
  · simp [heq, hquiet]

theorem Effect.congr {sends sends' : Prop} (heffect : Effect H node a a' sends)
    (h : sends ↔ sends') : Effect H node a a' sends' := by
  rwa [← propext h]

/-- The requests before the reaction do not count if none of them sends a message on. -/
theorem Effect.of_sentOn_eq {a₀ : CActivityControllerAction} {sends : Prop}
    (heffect : Effect H node a a' sends) (h : a.sentOn = a₀.sentOn) : Effect H node a₀ a' sends := by
  refine ⟨heffect.stored, ?_⟩
  rw [← h]
  exact heffect.sentOn

theorem effect_silent {sends : Prop} (hquiet : ¬ sends) (heq : a'.sentOn = a.sentOn)
    (hstored : ∀ s ∈ a'.recognizeNodeState, s.message = .uninitiated) : Effect H node a a' sends :=
  ⟨hstored, .inr ⟨hquiet, heq⟩⟩

theorem effect_sendOn {sends : Prop} (hsends : sends) (hs : s.message = .uninitiated)
    (h : a.sendOn H node env s = some a') : Effect H node a a' sends := by
  obtain ⟨message, hwrap, rfl⟩ := Option.map_eq_some_iff.mp h
  rw [hs] at hwrap
  constructor
  · intro s' hs'
    cases hs'
    exact hs
  · refine .inl ⟨hsends, message, ⟨_, _, _, _, hwrap⟩, ?_⟩
    simp [CActivityControllerAction.sentOn, ActivityRequest.sentMessage]

@[simp] theorem sentOn_connectNode (address : Option CAddress) :
    (a.connectNode address).sentOn = a.sentOn := by
  cases address with
  | none => rfl
  | some address => simp [connectNode, sentOn, ActivityRequest.sentMessage]

@[simp] theorem recognizeNodeState_connectNode (address : Option CAddress) :
    (a.connectNode address).recognizeNodeState = a.recognizeNodeState := by
  cases address <;> rfl

theorem inform_effect {status : CActivationStatus} (ha : a.recognizeNodeState = some s)
    (hs : s.message = .uninitiated) (h : a.inform H node env s status = some a') :
    Effect H node a a'
      (node.program = .monitor ∧ toldByMonitor H env s.informingNodes status) := by
  have hstored : ∀ address, ∀ s' ∈ (a.connectNode address).recognizeNodeState,
      s'.message = .uninitiated := by
    intro address s' hs'
    rw [recognizeNodeState_connectNode, ha] at hs'
    cases hs'
    exact hs
  rw [inform] at h
  cases hprogram : node.program with
  | tracker =>
    rw [hprogram] at h
    cases h
    exact effect_silent (by simp) (by simp) (hstored _)
  | monitor =>
    rw [hprogram] at h
    by_cases htold : toldByMonitor H env s.informingNodes status
    · rw [if_pos htold] at h
      exact effect_sendOn ⟨rfl, htold⟩ hs h
    · rw [if_neg htold] at h
      cases h
      exact effect_silent (fun hsends => htold hsends.2) (by simp) (hstored _)

theorem reactMessageResult_effect {message : CMessage} {pubKey : CPubKey}
    (hs : s.message = .uninitiated)
    (h : a.reactMessageResult H S node env s message pubKey = some a') :
    Effect H node a a' (s.SendsOn H S node env (.messageResult message pubKey)) := by
  obtain ⟨⟨original, participants⟩, hunwind, hrest⟩ := Option.bind_eq_some_iff.mp h
  dsimp only at hrest
  split at hrest
  · next hfirst =>
    obtain ⟨status, hstatus, hinform⟩ := Option.bind_eq_some_iff.mp hrest
    have heffect := inform_effect (by rfl) (by exact hs) hinform
    refine (heffect.congr ?_).of_sentOn_eq ?_
    · simp [CRecognizeNodeState.SendsOn, hunwind, hfirst, hstatus]
    · simp [sentOn, ActivityRequest.sentMessage]
  · next hother =>
    cases hrest
    refine effect_silent ?_ rfl ?_
    · rintro ⟨-, hinformed, original', participants', status, hunwind', hkind, -⟩
      rw [hunwind] at hunwind'
      cases hunwind'
      exact hother ⟨hkind, hinformed⟩
    · intro s' hs'
      cases hs'
      exact hs

theorem reactFailure_effect (ha : a.recognizeNodeState = some s) (hs : s.message = .uninitiated)
    (h : a.reactFailure H node env s = some a') :
    Effect H node a a' (s.SendsOn H S node env .failure) := by
  by_cases hinactive : s.activationStatus.status = CActivitySatatus.inactive.toInt
  · rw [reactFailure, if_pos hinactive] at h
    obtain ⟨a₁, hsend, rfl⟩ := Option.map_eq_some_iff.mp h
    have heffect : Effect H node a a₁ (s.SendsOn H S node env .failure) :=
      effect_sendOn hinactive hs hsend
    split
    · exact ⟨fun s' hs' => (nomatch hs'), heffect.sentOn⟩
    · exact heffect
  · rw [reactFailure, if_neg hinactive] at h
    cases h
    refine effect_silent hinactive rfl fun s' hs' => ?_
    rw [ha] at hs'
    cases hs'
    exact hs

theorem reactNetworkInfo_effect (ha : a.recognizeNodeState = some s)
    (hs : s.message = .uninitiated) (h : a.reactNetworkInfo H node env s = some a') :
    Effect H node a a' (s.SendsOn H S node env .networkInfo) := by
  by_cases hactive : s.activationStatus.status = CActivitySatatus.active.toInt
  · rw [reactNetworkInfo, if_pos hactive] at h
    exact effect_sendOn hactive hs h
  · rw [reactNetworkInfo, if_neg hactive] at h
    cases h
    refine effect_silent hactive rfl fun s' hs' => ?_
    rw [ha] at hs'
    cases hs'
    exact hs

theorem reactTimeEvent_eq (h : a.reactTimeEvent node = some a') : a' = { a with exit := true } := by
  rw [reactTimeEvent] at h
  cases hprogram : node.program <;> rw [hprogram] at h <;> cases h
  rfl

theorem react_effect {event : ActivityEvent} (ha : a.recognizeNodeState = some s)
    (hs : s.message = .uninitiated) (h : a.react H S node env s event = some a') :
    Effect H node a a' (s.SendsOn H S node env event) := by
  have hstored : ∀ s' ∈ a.recognizeNodeState, s'.message = .uninitiated := by
    intro s' hs'
    rw [ha] at hs'
    cases hs'
    exact hs
  cases event with
  | messageResult message pubKey => exact reactMessageResult_effect hs h
  | failure => exact reactFailure_effect ha hs h
  | networkInfo => exact reactNetworkInfo_effect ha hs h
  | timeEvent =>
    obtain rfl := reactTimeEvent_eq h
    exact effect_silent id rfl hstored
  | ack | noMedium | remove =>
    cases h
    exact effect_silent id rfl hstored

theorem step_effect {event : ActivityEvent} (hsound : a.Sound H node)
    (h : a.step H S node env event = some a') : Effect H node a a' (a.SendsOn H S node env event) := by
  rw [step] at h
  cases hstate : a.recognizeNodeState with
  | none =>
    rw [hstate] at h
    cases h
    exact effect_silent (fun hsends => by simpa [hstate] using hsends.2) rfl hsound.stored
  | some s =>
    rw [hstate] at h
    by_cases halive : a.alive = true
    · simp only [halive, if_true] at h
      refine (react_effect hstate (hsound.stored s hstate) h).congr ?_
      simp [SendsOn, halive, hstate]
    · simp only [halive] at h
      cases h
      exact effect_silent (fun hsends => halive hsends.1) rfl hsound.stored

theorem exists_sendOn (a : CActivityControllerAction) (hs : s.message = .uninitiated) :
    ∃ a', a.sendOn H node env s = some a' := by
  obtain ⟨message, hwrap⟩ := exists_wrap_uninitiated H node.authentication s.lastKey
    a.actionKey env.id env.time
  rw [sendOn, hs, hwrap]
  exact ⟨_, rfl⟩

theorem exists_step {event : ActivityEvent} (hsound : a.Sound H node)
    (hsends : a.SendsOn H S node env event) : ∃ a', a.step H S node env event = some a' := by
  obtain ⟨halive, s, hstate, hsends⟩ := hsends
  have hs := hsound.stored s hstate
  have hreact : a.step H S node env event = a.react H S node env s event := by
    simp only [step, show a.recognizeNodeState = some s from hstate, halive, if_true]
  rw [hreact]
  cases event with
  | messageResult message pubKey =>
    obtain ⟨hprogram, hfirst, original, participants, status, hunwind, hkind, hstatus, htold⟩ :=
      hsends
    simp only [react, reactMessageResult, hunwind, Option.bind_some, hkind, hfirst, hstatus,
      inform, hprogram]
    rw [if_pos ⟨trivial, trivial⟩, if_pos htold]
    exact exists_sendOn _ hs
  | failure =>
    have hinactive : s.activationStatus.status = CActivitySatatus.inactive.toInt := hsends
    obtain ⟨a₁, hsend⟩ : ∃ a₁, a.sendOn H node env s = some a₁ := exists_sendOn a hs
    rw [react, reactFailure, if_pos hinactive, hsend]
    exact ⟨_, rfl⟩
  | networkInfo =>
    have hactive : s.activationStatus.status = CActivitySatatus.active.toInt := hsends
    rw [react, reactNetworkInfo, if_pos hactive]
    exact exists_sendOn a hs
  | ack | timeEvent | noMedium | remove => cases hsends

end CActivityControllerAction

namespace ActivityNetwork

section

variable {H : HashFunctions} {S : SignatureScheme} {ι : Type} [DecidableEq ι]
variable {nodes : ι → ActivityNode} {network : ι → Option CActivityControllerAction}

variable (H nodes network) in
def Sound : Prop := ∀ i, ∀ a ∈ network i, a.Sound H (nodes i)

omit [DecidableEq ι] in
theorem start_sound (actionKey : ι → Uint256) (memory : ι → CActivationStatus) :
    Sound H nodes (start actionKey memory) := by
  intro i a ha
  cases ha
  refine ⟨fun s hs => ?_, fun message hmem => nomatch hmem⟩
  cases hs
  rfl

theorem mem_step {input : ActivityInput ι} {i : ι} {a' : CActivityControllerAction}
    (h : a' ∈ step H S nodes network input i) :
    (i = input.index ∧ ∃ a ∈ network input.index,
      a.step H S (nodes input.index) input.surroundings input.event = some a') ∨
    (i ≠ input.index ∧ a' ∈ network i) := by
  by_cases hi : i = input.index
  · subst hi
    rw [step, Function.update_self] at h
    exact .inl ⟨rfl, Option.bind_eq_some_iff.mp h⟩
  · rw [step, Function.update_of_ne hi] at h
    exact .inr ⟨hi, h⟩

theorem step_sound (input : ActivityInput ι) (h : Sound H nodes network) :
    Sound H nodes (step H S nodes network input) := by
  intro i a' ha'
  rcases mem_step ha' with ⟨rfl, a, ha, hstep⟩ | ⟨-, hold⟩
  · have hsound := h input.index a ha
    exact (CActivityControllerAction.step_effect hsound hstep).sound hsound
  · exact h i a' hold

/-- While the nodes keep the content, the quiet events are those after which they still do. -/
theorem keepsContent_step_iff (input : ActivityInput ι) (h : Sound H nodes network)
    (hkeeps : KeepsContent H S nodes network) :
    KeepsContent H S nodes (step H S nodes network input) ↔ Quiet H S nodes network input := by
  constructor
  · intro hnext a ha hsends
    have hsound := h input.index a ha
    obtain ⟨a', hstep⟩ := CActivityControllerAction.exists_step hsound hsends
    have heffect := CActivityControllerAction.step_effect hsound hstep
    have hmem : a' ∈ step H S nodes network input input.index := by
      rw [step, Function.update_self]
      exact Option.bind_eq_some_iff.mpr ⟨a, ha, hstep⟩
    have hnone := (heffect.sound hsound).keepsContent_iff.mp (hnext input.index a' hmem)
    exact (heffect.sentOn_eq_nil_iff.mp hnone).2 hsends
  · intro hquiet i a' ha'
    rcases mem_step ha' with ⟨rfl, a, ha, hstep⟩ | ⟨-, hold⟩
    · have hsound := h input.index a ha
      have heffect := CActivityControllerAction.step_effect hsound hstep
      have hnone := hsound.keepsContent_iff.mp (hkeeps input.index a ha)
      exact (heffect.sound hsound).keepsContent_iff.mpr
        (heffect.sentOn_eq_nil_iff.mpr ⟨hnone, hquiet a ha⟩)
    · exact hkeeps i a' hold

/-- In every network, whichever messages reach its nodes, what the nodes send on says what
they received, after every event, if and only if no event makes a node send anything on. -/
theorem keepsContent_throughout_iff (H : HashFunctions) (S : SignatureScheme)
    (nodes : ι → ActivityNode) (actionKey : ι → Uint256) (memory : ι → CActivationStatus) (inputs : List (ActivityInput ι)) :
    (∀ past, past <+: inputs →
      KeepsContent H S nodes (GuardedRun.run (step H S nodes) (start actionKey memory) past)) ↔
    GuardedRun.Guarded (step H S nodes) (Quiet H S nodes) (start actionKey memory) inputs := by
  have hsound : ∀ network input, Sound H nodes network → Sound H nodes (step H S nodes network input) :=
    fun network input h => step_sound input h
  have hok : ∀ network input, Sound H nodes network → KeepsContent H S nodes network →
      (KeepsContent H S nodes (step H S nodes network input) ↔ Quiet H S nodes network input) :=
    fun network input h hkeeps => keepsContent_step_iff input h hkeeps
  refine GuardedRun.always_iff hsound hok (start_sound actionKey memory) ?_
  intro i a ha message hmem
  cases ha
  cases hmem

end

end ActivityNetwork

namespace NotStored
open ActivityNetwork

def hashes : HashFunctions := ⟨fun _ => 0, fun _ => 0⟩

/-- The signature of a digest is its bytes. -/
def scheme : SignatureScheme := ⟨fun _ h sig => uint256.encode h = sig⟩

def node : ActivityNode := ⟨.tracker, CPubKey.ofBytes (2 :: List.replicate 32 1), uint256.encode⟩

def peer : CPubKey := CPubKey.ofBytes (3 :: List.replicate 32 1)

def status : CActivationStatus := ⟨7, CActivitySatatus.inactive.toInt⟩

def message : CMessage :=
  ⟨⟨CPayloadKind.activationStatus.toInt, uint256.encode 0, 0, .invalid, 0, 0⟩,
    CActivationStatus.codec.encode status⟩

def surroundings : ActivitySurroundings :=
  ⟨fun _ => none, 0, fun _ => none, fun _ => none, 0, 0⟩

def inputs : List (ActivityInput Unit) :=
  [⟨(), surroundings, .messageResult message peer⟩, ⟨(), surroundings, .failure⟩]

def initial : Unit → Option CActivityControllerAction := start (fun _ => 0) fun _ => ⟨0, 0⟩

def told : CRecognizeNodeState := ⟨{0}, .uninitiated, peer, status, true⟩

def informed : CActivityControllerAction :=
  ⟨0, some told, false, true, [.ack 0 peer], some (status, {peer})⟩

private theorem step_message :
    step hashes scheme (fun _ => node) initial ⟨(), surroundings, .messageResult message peer⟩ =
      fun _ => some informed := by
  have hunwind : unwindAsserted hashes scheme message peer =
      some (message, {peer}) := unwindAsserted_of_last _ _ (by decide) (by decide)
  have hread : readActivationStatus message.payload = some status := by decide
  funext i
  simp only [step, initial, start, CActivityControllerAction.step, Function.update_self,
    Option.bind_some, if_true, CActivityControllerAction.react,
    CActivityControllerAction.reactMessageResult, hunwind, hread]
  rfl

private theorem step_failure {sent : CMessage}
    (hwrap : CMessage.wrap hashes node.authentication .uninitiated peer 0 0 0 = some sent) :
    step hashes scheme (fun _ => node) (fun _ => some informed) ⟨(), surroundings, .failure⟩ () =
      some { informed with requests := [.ack 0 peer, .sendOn sent {0}] } := by
  have hsend : informed.sendOn hashes node surroundings told =
      some { informed with requests := [.ack 0 peer, .sendOn sent {0}] } := by
    rw [CActivityControllerAction.sendOn]
    exact congrArg (Option.map _) hwrap
  have hinactive : told.activationStatus.status = CActivitySatatus.inactive.toInt := rfl
  have hfailure : informed.reactFailure hashes node surroundings told =
      some { informed with requests := [.ack 0 peer, .sendOn sent {0}] } := by
    rw [CActivityControllerAction.reactFailure, if_pos hinactive, hsend]
    rfl
  rw [step, Function.update_self]
  exact hfailure

/-- The message that is sent on does not say what the node has received. -/
theorem content_lost :
    (∃ a ∈ GuardedRun.run (step hashes scheme fun _ => node) initial inputs (),
      a.received = some (status, {peer})) ∧
    ¬ KeepsContent hashes scheme (fun _ => node)
      (GuardedRun.run (step hashes scheme fun _ => node) initial inputs) := by
  obtain ⟨sent, hwrap⟩ := exists_wrap_uninitiated hashes node.authentication peer 0 0 0
  have hrun : GuardedRun.run (step hashes scheme fun _ => node) initial inputs () =
      some { informed with requests := [.ack 0 peer, .sendOn sent {0}] } := by
    rw [inputs, GuardedRun.run_cons, step_message, GuardedRun.run_cons, GuardedRun.run_nil]
    exact step_failure hwrap
  constructor
  · exact ⟨_, hrun, rfl⟩
  · intro hkeeps
    obtain ⟨_, _, -, hunwinds⟩ := hkeeps () _ hrun sent (.head _)
    exact not_unwindsTo_wrap hwrap _ _ _ hunwinds

end NotStored

end Dims
