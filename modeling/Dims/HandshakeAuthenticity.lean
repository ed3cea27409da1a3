import Dims.ConnectNodeAction
import Dims.GuardedRun

/-!
# What a recorded key stands for

A key that the handshake records is to be backed by a signature over the payload
that the own side has sent. The signature the action checks is one over the payload
that came with it, and the passive side sends no payload at all.
-/

namespace Dims
open ByteCodec Serialize

namespace CConnectNodeAction

variable (env : HandshakeContext)

/-- `react` along the events; an action that has aborted stays so. -/
def step (s : Option CConnectNodeAction) (event : ConnectNodeEvent) : Option CConnectNodeAction :=
  s.bind fun a => a.react env event

/-- The event is an identification with a signature by the key over the challenge. -/
def SignedChallenge (challenge : Bytes) (key : CPubKey) (event : ConnectNodeEvent) : Prop :=
  ∃ identify address id, event = .identificationResult identify address id ∧
    identify.key = key ∧ ∃ hash, payloadHash env.hashes challenge = some hash ∧
      env.signatures.verify key hash identify.signed = true

/-- The keys that the call records are vouched for. -/
def Backed (vouched : CPubKey → Prop) : NodesManagerCall → Prop
  | .setPublicKey _ pubKey => vouched pubKey
  | .setNodeInfo validNodeInfo _ => vouched validNodeInfo.publicKey
  | .setKeyToNode pubKey _ => vouched pubKey
  | .setActiveNode idKey => ∃ pubKey, pubKey.getID env.hashes = idKey ∧ vouched pubKey
  | .addNode _ => True
  | .connectedToTracker => True

/-- What the action relies on: the identification that the active side waits for is
valid and about the payload it has sent, and the passive side gets neither a valid
identification nor an acknowledgment before one. -/
def Answered (s : Option CConnectNodeAction) (event : ConnectNodeEvent) : Prop :=
  ∀ a, s = some a →
    (a.state = .pairIdentifiedConnecting → ∀ identify address id,
      event = .identificationResult identify address id →
      verifyIdentification env.hashes env.signatures identify = some true ∧
        payloadHash env.hashes identify.payload = payloadHash env.hashes a.payload) ∧
    (a.state = .bothUnidentifiedConnected → event ≠ .ack ∧ ∀ identify address id,
      event = .identificationResult identify address id →
      verifyIdentification env.hashes env.signatures identify ≠ some true)

/-- The states in which the key of the pair is taken for proved. -/
def Identified : ConnectNodeState → Prop
  | .determineRoleConnecting | .determineRoleConnected | .connectedToSeed
  | .getNetworkInfo _ _ => True
  | _ => False

/-- All recorded keys, and the key that is still to be recorded, are vouched for. -/
structure Authenticated (challenge : Bytes) (vouched : CPubKey → Prop) (a : CConnectNodeAction) :
    Prop where
  payload : a.payload = challenge
  calls : ∀ call ∈ a.calls, Backed env vouched call
  key : Identified a.state → vouched a.key

variable {env} {challenge : Bytes} {vouched : CPubKey → Prop}

theorem Backed.imp {vouched' : CPubKey → Prop} (h : ∀ key, vouched key → vouched' key)
    {call : NodesManagerCall} (hbacked : Backed env vouched call) : Backed env vouched' call := by
  cases call with
  | setActiveNode idKey =>
    obtain ⟨pubKey, hid, hvouched⟩ := hbacked
    exact ⟨pubKey, hid, h pubKey hvouched⟩
  | setPublicKey => exact h _ hbacked
  | setNodeInfo => exact h _ hbacked
  | setKeyToNode => exact h _ hbacked
  | addNode => trivial
  | connectedToTracker => trivial

theorem Authenticated.imp {vouched' : CPubKey → Prop} (h : ∀ key, vouched key → vouched' key)
    {a : CConnectNodeAction} (ha : a.Authenticated env challenge vouched) :
    a.Authenticated env challenge vouched' :=
  ⟨ha.payload, fun call hcall => (ha.calls call hcall).imp h, fun hstate => h _ (ha.key hstate)⟩

theorem Authenticated.of_eq {a a' : CConnectNodeAction} (h : a.Authenticated env challenge vouched)
    (hpayload : a'.payload = a.payload) (hcalls : a'.calls = a.calls)
    (hkey : Identified a'.state → Identified a.state ∧ a'.key = a.key) :
    a'.Authenticated env challenge vouched := by
  refine ⟨hpayload.trans h.payload, fun call hcall => ?_, fun hstate => ?_⟩
  · rw [hcalls] at hcall
    exact h.calls call hcall
  · obtain ⟨hidentified, heq⟩ := hkey hstate
    rw [heq]
    exact h.key hidentified

theorem Authenticated.addCalls {a : CConnectNodeAction} (h : a.Authenticated env challenge vouched)
    {calls : List NodesManagerCall} (hcalls : ∀ call ∈ calls, Backed env vouched call) :
    (a.addCalls calls).Authenticated env challenge vouched := by
  refine ⟨h.payload, fun call hcall => ?_, h.key⟩
  rcases List.mem_append.mp hcall with hold | hnew
  · exact h.calls call hold
  · exact hcalls call hnew

theorem Authenticated.enterByRole {a : CConnectNodeAction}
    (h : a.Authenticated env challenge vouched) (hkey : Identified a.state) (role : Int32) :
    (a.enterByRole env role).Authenticated env challenge vouched := by
  have hvouched : vouched a.key := h.key hkey
  have hinfo : ∀ b : CConnectNodeAction, b.Authenticated env challenge vouched → b.key = a.key →
      (b.enterGetNetworkInfo env).Authenticated env challenge vouched := by
    intro b hb hsame
    rw [← hsame] at hvouched
    have hcalls : ∀ call ∈ [.setNodeInfo b.validNodeInfo b.role, .setKeyToNode b.key b.nodePtr,
        .setActiveNode (b.key.getID env.hashes)], Backed env vouched call := by
      intro call hcall
      simp only [List.mem_cons, List.not_mem_nil, or_false] at hcall
      rcases hcall with rfl | rfl | rfl
      · exact hvouched
      · exact hvouched
      · exact ⟨b.key, rfl, hvouched⟩
    exact ⟨hb.payload, (hb.addCalls hcalls).calls, fun _ => hvouched⟩
  unfold CConnectNodeAction.enterByRole
  split
  · refine hinfo _ (h.addCalls fun call hcall => ?_) rfl
    rw [List.mem_singleton.mp hcall]
    trivial
  · split
    · have hcalls : ∀ call ∈ [.setNodeInfo a.validNodeInfo CRole.seed.toInt],
          Backed env vouched call := by
        intro call hcall
        rw [List.mem_singleton.mp hcall]
        exact hvouched
      exact ⟨h.payload, (h.addCalls hcalls).calls, fun _ => hvouched⟩
    · split
      · exact hinfo a h rfl
      · exact h

theorem Authenticated.answerRole {a a' : CConnectNodeAction} {message original : CMessage}
    (h : a.Authenticated env challenge vouched) (hstep : a.answerRole message original = some a') :
    a'.Authenticated env challenge vouched := by
  obtain ⟨infoRequest, -, hrest⟩ := Option.bind_eq_some_iff.mp hstep
  split at hrest
  · cases hrest
    exact h.of_eq rfl rfl fun hstate => ⟨hstate, rfl⟩
  · cases hrest

theorem Authenticated.answerNetworkInfo {a a' : CConnectNodeAction} {message original : CMessage}
    (h : a.Authenticated env challenge vouched)
    (hstep : a.answerNetworkInfo env message original = some a') :
    a'.Authenticated env challenge vouched ∧ a'.state = a.state := by
  obtain ⟨infoRequest, -, hrest⟩ := Option.bind_eq_some_iff.mp hstep
  split at hrest
  · cases hrest
    exact ⟨h.of_eq rfl rfl fun hstate => ⟨hstate, rfl⟩, rfl⟩
  · cases hrest

theorem Authenticated.takeRole {a a' : CConnectNodeAction} {message original : CMessage}
    (h : a.Authenticated env challenge vouched) (hstep : a.takeRole message original = some a') :
    a'.Authenticated env challenge vouched ∧ a'.state = a.state := by
  obtain ⟨role, -, rfl⟩ := Option.map_eq_some_iff.mp hstep
  exact ⟨h.of_eq rfl rfl fun hstate => ⟨hstate, rfl⟩, rfl⟩

theorem Authenticated.exchanged {a : CConnectNodeAction} (h : a.Authenticated env challenge vouched)
    (hkey : Identified a.state) (infoSend infoReceive : Bool) :
    (a.exchanged infoSend infoReceive).Authenticated env challenge vouched :=
  h.of_eq rfl rfl fun _ => ⟨hkey, rfl⟩

/-- A valid identification about the challenge is a signature over it. -/
theorem signedChallenge_of_verified {identify : CIdentifyMessage} {address : CAddress}
    {id : Uint256} (hverified : verifyIdentification env.hashes env.signatures identify = some true)
    (hchallenge : payloadHash env.hashes identify.payload = payloadHash env.hashes challenge) :
    SignedChallenge env challenge identify.key (.identificationResult identify address id) := by
  obtain ⟨hash, hhash, hverify⟩ := Option.map_eq_some_iff.mp hverified
  exact ⟨identify, address, id, rfl, rfl, hash, hchallenge ▸ hhash, hverify⟩

theorem Authenticated.enterCantReachNode {a : CConnectNodeAction}
    (h : a.Authenticated env challenge vouched) :
    a.enterCantReachNode.Authenticated env challenge vouched :=
  h.of_eq rfl rfl False.elim

theorem Authenticated.reactUnconnected {a a' : CConnectNodeAction} {event : ConnectNodeEvent}
    (h : a.Authenticated env challenge vouched) (hstep : a.reactUnconnected env event = some a') :
    a'.Authenticated env challenge vouched := by
  cases event with
  | nodeConnected node addr =>
    obtain ⟨identify, -, rfl⟩ := Option.map_eq_some_iff.mp hstep
    have hcalls : ∀ call ∈ [.addNode node], Backed env vouched call := by
      intro call hcall
      rw [List.mem_singleton.mp hcall]
      trivial
    exact ⟨h.payload, (h.addCalls hcalls).calls, False.elim⟩
  | cantReachNode => cases hstep; exact h.enterCantReachNode
  | identificationResult => cases hstep; exact h
  | messageResult => cases hstep; exact h
  | ack => cases hstep; exact h
  | timeEvent => cases hstep; exact h

theorem Authenticated.reactBothUnidentifiedConnecting {a a' : CConnectNodeAction}
    {event : ConnectNodeEvent} (h : a.Authenticated env challenge vouched)
    (hstep : a.reactBothUnidentifiedConnecting event = some a') :
    a'.Authenticated env challenge vouched := by
  cases event with
  | ack => cases hstep; exact h.of_eq rfl rfl False.elim
  | timeEvent => cases hstep; exact h.enterCantReachNode
  | nodeConnected => cases hstep; exact h
  | cantReachNode => cases hstep; exact h
  | identificationResult => cases hstep; exact h
  | messageResult => cases hstep; exact h

/-- The one place where a key becomes proved: the identification that the active side
waits for. -/
theorem Authenticated.reactPairIdentifiedConnecting {a a' : CConnectNodeAction}
    {event : ConnectNodeEvent} (h : a.Authenticated env challenge vouched)
    (hactive : ∀ identify address id, event = .identificationResult identify address id →
      verifyIdentification env.hashes env.signatures identify = some true ∧
        payloadHash env.hashes identify.payload = payloadHash env.hashes a.payload)
    (hvouched : ∀ key, SignedChallenge env challenge key event → vouched key)
    (hstep : a.reactPairIdentifiedConnecting env event = some a') :
    a'.Authenticated env challenge vouched := by
  cases event with
  | identificationResult identify address id =>
    obtain ⟨hverified, hchallenge⟩ := hactive identify address id rfl
    rw [h.payload] at hchallenge
    have hkey : vouched identify.key :=
      hvouched _ (signedChallenge_of_verified hverified hchallenge)
    dsimp only [CConnectNodeAction.reactPairIdentifiedConnecting] at hstep
    rw [hverified, Option.map_some, if_pos rfl] at hstep
    cases hstep
    have hcalls : ∀ call ∈ [.setPublicKey a.addrConnect identify.key],
        Backed env vouched call := by
      intro call hcall
      rw [List.mem_singleton.mp hcall]
      exact hkey
    exact ⟨h.payload, (h.addCalls hcalls).calls, fun _ => hkey⟩
  | timeEvent => cases hstep; exact h.enterCantReachNode
  | nodeConnected => cases hstep; exact h
  | cantReachNode => cases hstep; exact h
  | messageResult => cases hstep; exact h
  | ack => cases hstep; exact h

theorem Authenticated.reactDetermineRoleConnecting {a a' : CConnectNodeAction}
    {event : ConnectNodeEvent} (h : a.Authenticated env challenge vouched)
    (hkey : Identified a.state) (hstep : a.reactDetermineRoleConnecting env event = some a') :
    a'.Authenticated env challenge vouched := by
  cases event with
  | messageResult message =>
    obtain ⟨original, -, hrest⟩ := Option.bind_eq_some_iff.mp hstep
    split at hrest
    · exact h.answerRole hrest
    · split at hrest
      · exact (h.takeRole hrest).1
      · cases hrest
        exact h
  | ack => cases hstep; exact h.enterByRole hkey a.role
  | timeEvent => cases hstep; exact h.enterCantReachNode
  | nodeConnected => cases hstep; exact h
  | cantReachNode => cases hstep; exact h
  | identificationResult => cases hstep; exact h

theorem Authenticated.reactBothUnidentifiedConnected {a a' : CConnectNodeAction}
    {event : ConnectNodeEvent} (h : a.Authenticated env challenge vouched)
    (hack : event ≠ .ack)
    (hpassive : ∀ identify address id, event = .identificationResult identify address id →
      verifyIdentification env.hashes env.signatures identify ≠ some true)
    (hstep : a.reactBothUnidentifiedConnected env event = some a') :
    a'.Authenticated env challenge vouched := by
  cases event with
  | identificationResult identify address id =>
    obtain ⟨verified, hverified, hrest⟩ := Option.bind_eq_some_iff.mp hstep
    have hfailed : verified ≠ true := by
      rintro rfl
      exact hpassive identify address id rfl hverified
    rw [if_neg hfailed] at hrest
    cases hrest
    exact h
  | ack => exact absurd rfl hack
  | nodeConnected => cases hstep; exact h
  | cantReachNode => cases hstep; exact h
  | messageResult => cases hstep; exact h
  | timeEvent => cases hstep; exact h

theorem Authenticated.reactDetermineRoleConnected {a a' : CConnectNodeAction}
    {event : ConnectNodeEvent} (h : a.Authenticated env challenge vouched)
    (hkey : Identified a.state) (hstep : a.reactDetermineRoleConnected env event = some a') :
    a'.Authenticated env challenge vouched := by
  cases event with
  | messageResult message =>
    obtain ⟨original, -, hrest⟩ := Option.bind_eq_some_iff.mp hstep
    split at hrest
    · exact h.answerRole hrest
    · split at hrest
      · obtain ⟨b, htake, rfl⟩ := Option.map_eq_some_iff.mp hrest
        obtain ⟨hb, hsame⟩ := h.takeRole htake
        rw [← hsame] at hkey
        exact hb.enterByRole hkey b.role
      · cases hrest
        exact h
  | ack => cases hstep; exact h.of_eq rfl rfl fun hstate => ⟨hstate, rfl⟩
  | nodeConnected => cases hstep; exact h
  | cantReachNode => cases hstep; exact h
  | identificationResult => cases hstep; exact h
  | timeEvent => cases hstep; exact h

theorem Authenticated.reactConnectedToSeed {a a' : CConnectNodeAction} {event : ConnectNodeEvent}
    (h : a.Authenticated env challenge vouched)
    (hstep : a.reactConnectedToSeed env event = some a') :
    a'.Authenticated env challenge vouched := by
  cases event with
  | messageResult message =>
    obtain ⟨original, -, hrest⟩ := Option.bind_eq_some_iff.mp hstep
    split at hrest
    · exact (h.answerNetworkInfo hrest).1
    · cases hrest
      exact h
  | ack => cases hstep; exact h.of_eq rfl rfl False.elim
  | timeEvent => cases hstep; exact h.of_eq rfl rfl fun hstate => ⟨hstate, rfl⟩
  | nodeConnected => cases hstep; exact h
  | cantReachNode => cases hstep; exact h
  | identificationResult => cases hstep; exact h

theorem Authenticated.reactGetNetworkInfo {a a' : CConnectNodeAction} {event : ConnectNodeEvent}
    (h : a.Authenticated env challenge vouched) (hkey : Identified a.state)
    {infoSend infoReceive : Bool}
    (hstep : a.reactGetNetworkInfo env infoSend infoReceive event = some a') :
    a'.Authenticated env challenge vouched := by
  cases event with
  | messageResult message =>
    obtain ⟨original, -, hrest⟩ := Option.bind_eq_some_iff.mp hstep
    split at hrest
    · obtain ⟨b, hanswer, rfl⟩ := Option.map_eq_some_iff.mp hrest
      obtain ⟨hb, hsame⟩ := h.answerNetworkInfo hanswer
      rw [← hsame] at hkey
      exact hb.exchanged hkey true infoReceive
    · split at hrest
      · obtain ⟨known, -, rfl⟩ := Option.map_eq_some_iff.mp hrest
        exact h.of_eq rfl rfl fun _ => ⟨hkey, rfl⟩
      · cases hrest
        exact h.exchanged hkey infoSend infoReceive
  | timeEvent => cases hstep; exact h.of_eq rfl rfl fun hstate => ⟨hstate, rfl⟩
  | nodeConnected => cases hstep; exact h
  | cantReachNode => cases hstep; exact h
  | identificationResult => cases hstep; exact h
  | ack => cases hstep; exact h

theorem Authenticated.react {a a' : CConnectNodeAction} {event : ConnectNodeEvent}
    (h : a.Authenticated env challenge vouched) (hanswered : Answered env (some a) event)
    (hstep : a.react env event = some a')
    (hvouched : ∀ key, SignedChallenge env challenge key event → vouched key) :
    a'.Authenticated env challenge vouched := by
  obtain ⟨hactive, hpassive⟩ := hanswered a rfl
  unfold CConnectNodeAction.react at hstep
  split at hstep
  next => exact h.reactUnconnected hstep
  next => exact h.reactBothUnidentifiedConnecting hstep
  next hstate => exact h.reactPairIdentifiedConnecting (hactive hstate) hvouched hstep
  next hstate => exact h.reactDetermineRoleConnecting (hstate ▸ trivial) hstep
  next hstate =>
    exact h.reactBothUnidentifiedConnected (hpassive hstate).1 (hpassive hstate).2 hstep
  next hstate => exact h.reactDetermineRoleConnected (hstate ▸ trivial) hstep
  next => exact h.reactConnectedToSeed hstep
  next hstate => exact h.reactGetNetworkInfo (hstate ▸ trivial) hstep
  next => cases hstep; exact h
  next => cases hstep; exact h

theorem Started.authenticated {a : CConnectNodeAction} (h : Started a) :
    a.Authenticated env a.payload vouched := by
  cases h with
  | connecting => exact ⟨rfl, nofun, False.elim⟩
  | connected => exact ⟨rfl, nofun, False.elim⟩

/-- What a guarded run keeps: the peer has signed the challenge with every key. -/
def Accounted (env : HandshakeContext) (challenge : Bytes) (past : List ConnectNodeEvent)
    (s : Option CConnectNodeAction) : Prop :=
  ∀ a, s = some a → a.Authenticated env challenge
    fun key => ∃ e ∈ past, SignedChallenge env challenge key e

theorem Accounted.step {past : List ConnectNodeEvent} {s : Option CConnectNodeAction}
    {event : ConnectNodeEvent} (h : Accounted env challenge past s)
    (hanswered : Answered env s event) :
    Accounted env challenge (past ++ [event]) (step env s event) := by
  intro a' ha'
  obtain ⟨a, rfl, hreact⟩ := Option.bind_eq_some_iff.mp ha'
  refine Authenticated.react ((h a rfl).imp ?_) hanswered hreact ?_
  · rintro key ⟨e, he, hsigned⟩
    exact ⟨e, List.mem_append_left _ he, hsigned⟩
  · intro key hsigned
    exact ⟨event, List.mem_append_right _ List.mem_cons_self, hsigned⟩

/-- In a run that keeps to what the action relies on, the peer has signed the
challenge of the action with every key that the action records. -/
theorem recorded_only_if_signed {a₀ a : CConnectNodeAction} {events : List ConnectNodeEvent}
    (hstarted : Started a₀)
    (hguarded : GuardedRun.Guarded (step env) (Answered env) (some a₀) events)
    (hrun : GuardedRun.run (step env) (some a₀) events = some a) :
    ∀ call ∈ a.calls,
      Backed env (fun key => ∃ e ∈ events, SignedChallenge env a₀.payload key e) call := by
  have haccounted : Accounted env a₀.payload [] (some a₀) := by
    intro b hb
    cases hb
    exact hstarted.authenticated
  exact (hguarded.history (fun _ _ _ hs hok => hs.step hok) haccounted a hrun).calls

end CConnectNodeAction

namespace ReplayedIdentification
open CConnectNodeAction

/-- The digest is the first byte, and the signature of a digest is its bytes. -/
def context : HandshakeContext :=
  ⟨⟨fun bytes => BitVec.ofNat 256 (bytes.headD 0).toNat, fun _ => 0⟩,
    ⟨fun _ h sig => uint256.encode h = sig⟩,
    ⟨CPubKey.ofBytes (2 :: List.replicate 32 1), fun h => uint256.encode h⟩, fun _ => ∅⟩

def peer : CPubKey := CPubKey.ofBytes (3 :: List.replicate 32 1)

def address : CAddress := ⟨0, 0, 0, 0⟩

def challenge : Bytes := 1 :: List.replicate 31 0

/-- The identification of the peer for a payload. -/
def identification (payload : Bytes) : CIdentifyMessage :=
  ⟨payload, peer, uint256.encode (BitVec.ofNat 256 (payload.headD 0).toNat)⟩

def start : CConnectNodeAction := connecting "" address challenge 0 0

/-- The connection is made, the own identification acknowledged, and the pair's
comes in for some payload. -/
def events (payload : Bytes) : List ConnectNodeEvent :=
  [.nodeConnected 5 address, .ack, .identificationResult (identification payload) address 0]

def identifying : CConnectNodeAction :=
  { start with
    state := .pairIdentifiedConnecting
    nodePtr := 5
    calls := [.addNode 5]
    requests := [.connectToTracker "" address,
      .sendIdentifyData ⟨challenge, context.authenticationProvider.myKey, uint256.encode 1⟩ 5,
      .timeEvent trackerLoopTime, .timeEvent trackerLoopTime] }

theorem run_events {payload : Bytes}
    (hverified : verifyIdentification context.hashes context.signatures (identification payload) =
      some true) :
    GuardedRun.run (step context) (some start) (events payload) =
      some (identifying.identified (identification payload) 0).enterDetermineRoleConnecting := by
  change (verifyIdentification context.hashes context.signatures (identification payload)).map _ = _
  rw [hverified]
  rfl

theorem recorded_key (payload : Bytes)
    (hverified : verifyIdentification context.hashes context.signatures (identification payload) =
      some true) :
    ∃ a, GuardedRun.run (step context) (some start) (events payload) = some a ∧
      .setPublicKey address peer ∈ a.calls :=
  ⟨_, run_events hverified, by simp [identified, enterDetermineRoleConnecting, addRequests, addCalls,
    identifying, start, connecting, identification]⟩

/-- The pair signs the challenge. -/
theorem recorded_answer :
    ∃ a, GuardedRun.run (step context) (some start) (events challenge) = some a ∧
      .setPublicKey address peer ∈ a.calls ∧
      ∀ call ∈ a.calls,
        Backed context (fun key => ∃ e ∈ events challenge, SignedChallenge context challenge key e)
          call := by
  have hverified : verifyIdentification context.hashes context.signatures
      (identification challenge) = some true := by decide
  obtain ⟨a, hrun, hrecorded⟩ := recorded_key challenge hverified
  have hguarded : GuardedRun.Guarded (step context) (Answered context) (some start)
      (events challenge) := by
    refine ⟨fun b hb => ?_, fun b hb => ?_, fun b hb => ?_, trivial⟩
    · cases hb
      exact ⟨nofun, nofun⟩
    · cases hb
      exact ⟨nofun, nofun⟩
    · cases hb
      refine ⟨fun _ identify address id h => ?_, nofun⟩
      cases h
      exact ⟨hverified, rfl⟩
  have hstarted : Started start := .connecting "" address challenge 0 0
  exact ⟨a, hrun, hrecorded, recorded_only_if_signed hstarted hguarded hrun⟩

/-- The pair replays an identification for a payload of another run, and its key is
recorded. -/
theorem recorded_replay :
    Started start ∧ ∃ a, GuardedRun.run (step context) (some start) (events [2, 0]) = some a ∧
      .setPublicKey address peer ∈ a.calls ∧
      ¬∃ e ∈ events [2, 0], SignedChallenge context start.payload peer e := by
  obtain ⟨a, hrun, hrecorded⟩ := recorded_key [2, 0] (by decide)
  refine ⟨.connecting "" address challenge 0 0, a, hrun, hrecorded, ?_⟩
  rintro ⟨e, he, identify, addr, id, rfl, -, hash, hhash, hverify⟩
  simp only [events, List.mem_cons, reduceCtorEq, false_or, List.not_mem_nil, or_false] at he
  cases he
  have hchallenge : payloadHash context.hashes start.payload = some 1 := by decide
  cases hchallenge.symm.trans hhash
  exact absurd hverify (by decide)

/-- The passive side has no payload that could be signed, and records the key too. -/
theorem recorded_without_challenge :
    ∃ a, GuardedRun.run (step context) (some (connected address 5 0))
        [.identificationResult (identification challenge) address 0] = some a ∧
      .setPublicKey address peer ∈ a.calls ∧
      ¬∃ key e, SignedChallenge context (connected address 5 0).payload key e := by
  have hverified : verifyIdentification context.hashes context.signatures
      (identification challenge) = some true := by decide
  have hresponse : createIdentifyResponse context.hashes context.authenticationProvider challenge =
      some ⟨challenge, context.authenticationProvider.myKey, uint256.encode 1⟩ := by decide
  refine ⟨(((connected address 5 0).identified (identification challenge) 0).addRequests
    [.sendIdentifyData ⟨challenge, context.authenticationProvider.myKey, uint256.encode 1⟩ 5]),
    ?_, by simp [identified, addRequests, addCalls, connected, identification], ?_⟩
  · rw [GuardedRun.run_cons, GuardedRun.run_nil, step, Option.bind_some]
    change reactBothUnidentifiedConnected context (connected address 5 0)
      (.identificationResult (identification challenge) address 0) = _
    rw [reactBothUnidentifiedConnected, hverified, Option.bind_some, if_pos rfl]
    change (createIdentifyResponse context.hashes context.authenticationProvider challenge).map _ = _
    rw [hresponse]
    rfl
  · rintro ⟨key, e, identify, addr, id, -, -, hash, hhash, -⟩
    cases hhash

end ReplayedIdentification

end Dims
