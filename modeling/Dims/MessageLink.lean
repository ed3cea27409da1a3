import Dims.NodeEvents
import Dims.FallibleRun

/-!
# Two nodes and the connection between them

The bytes that one node sends arrive at the other in their order, in pieces of any length. The
threads of both nodes, and the actions, come in any order.
-/

namespace Dims
open ByteCodec Serialize CSelfNode

/-- A node, the bytes that are under way to it, the messages given to it to be sent, those it
has read, and those its loop has gone on with. -/
structure CLinkEnd where
  node : CSelfNode
  incoming : Bytes
  given : List CMessage
  read : List CMessage
  dispatched : List CMessage

structure CLink where
  own : CLinkEnd
  peer : CLinkEnd

inductive LinkFault
  | assertion
  deriving DecidableEq, Repr

namespace CLinkEnd

def start : CLinkEnd := ⟨.start, [], [], [], []⟩

def acted (own : CLinkEnd) (event : Event) (o : Outcome) : CLinkEnd where
  node := o.node
  incoming := own.incoming.drop event.received.length
  given := own.given ++ event.given
  read := own.read ++ o.read
  dispatched := own.dispatched ++ o.dispatched

def reached (peer : CLinkEnd) (o : Outcome) : CLinkEnd :=
  { peer with incoming := peer.incoming ++ o.sent }

end CLinkEnd

namespace CLink

def start : CLink := ⟨.start, .start⟩

def swap (link : CLink) : CLink := ⟨link.peer, link.own⟩

def actOwn (P : CConnectionParams) (event : Event) (link : CLink) : Option CLink :=
  (link.own.node.act P event).map fun o => ⟨link.own.acted event o, link.peer.reached o⟩

/-- An event at one end; the peer's are the own ones of the link seen from there. -/
def act (P : CConnectionParams) (link : CLink) : Bool × Event → Option CLink
  | (true, event) => link.actOwn P event
  | (false, event) => (link.swap.actOwn P event).map swap

def step (P : CConnectionParams) (link : CLink) (e : Bool × Event) : Except LinkFault CLink :=
  (link.act P e).elim (.error .assertion) .ok

/-- What is sent fits a message, and what is received has been under way. -/
def AllowedOwn (link : CLink) (event : Event) : Prop :=
  link.own.node.Fitting event ∧ event.received <+: link.own.incoming

def Allowed (link : CLink) : Bool × Event → Prop
  | (true, event) => link.AllowedOwn event
  | (false, event) => link.swap.AllowedOwn event

instance (link : CLink) (event : Event) : Decidable (link.AllowedOwn event) :=
  inferInstanceAs (Decidable (_ ∧ _))

instance (link : CLink) : (e : Bool × Event) → Decidable (link.Allowed e)
  | (true, event) => inferInstanceAs (Decidable (link.AllowedOwn event))
  | (false, event) => inferInstanceAs (Decidable (link.swap.AllowedOwn event))

section Delivery

variable (P : CConnectionParams)

/-- The messages from one end to the other: those read came first, and the others are in the
frames that arrive or have not been sent. -/
structure Flows (sender receiver : CLinkEnd) : Prop where
  read : receiver.read <+: sender.given
  dispatched : receiver.dispatched.Sublist receiver.read
  arriving : receiver.node.fDisconnect = false → ∃ later, (∀ frame ∈ later, frame.Sealed P) ∧
    sender.given = receiver.read ++ (messagesOf later ++ sender.node.messagesToSend) ∧
      Arriving receiver.node.vRecvMsg (receiver.incoming ++ sender.node.unsent) later

variable {P} {sender receiver own peer : CLinkEnd} {event : Event} {o : Outcome}

/-- What is given comes after all that was, what is sent after all that is under way. -/
theorem Flows.sent {frames : List NetFrame} (h : Flows P sender receiver)
    (hemits : Emits P sender.node event o frames) :
    Flows P (sender.acted event o) (receiver.reached o) where
  read := h.read.trans (List.prefix_append _ _)
  dispatched := h.dispatched
  arriving hopen := by
    obtain ⟨later, hsealed, hgiven, harriving⟩ := h.arriving hopen
    refine ⟨later ++ frames, ?_, ?_, ?_⟩
    · intro frame hframe
      rcases List.mem_append.mp hframe with hframe | hframe
      · exact hsealed frame hframe
      · exact hemits.frames_sealed frame hframe
    · change sender.given ++ event.given = receiver.read ++ (_ ++ o.node.messagesToSend)
      rw [hgiven, messagesOf_append]
      simp [hemits.messages]
    · change Arriving receiver.node.vRecvMsg (receiver.incoming ++ o.sent ++ o.node.unsent) _
      have hbytes : receiver.incoming ++ o.sent ++ o.node.unsent =
          receiver.incoming ++ sender.node.unsent ++ NetFrame.codec.encodeAll frames := by
        rw [List.append_assoc, hemits.bytes, List.append_assoc]
      rw [hbytes]
      exact harriving.append frames

theorem Flows.received (h : Flows P sender receiver) (hfront : event.received <+: receiver.incoming)
    (htakes : Takes P receiver.node event o) :
    Flows P (sender.reached o) (receiver.acted event o) := by
  have hdispatched : (receiver.dispatched ++ o.dispatched).Sublist (receiver.read ++ o.read) :=
    h.dispatched.append htakes.dispatched
  by_cases hclosed : receiver.node.fDisconnect = true
  · obtain ⟨hnow, hread⟩ := htakes.closed hclosed
    refine ⟨?_, hdispatched, fun hopen => absurd (hopen.symm.trans hnow) Bool.false_ne_true⟩
    change receiver.read ++ o.read <+: sender.given
    rw [hread, List.append_nil]
    exact h.read
  · obtain ⟨wire, hwire⟩ := hfront
    obtain ⟨later, hsealed, hgiven, harriving⟩ := h.arriving (Bool.eq_false_of_not_eq_true hclosed)
    rw [← hwire, List.append_assoc] at harriving
    obtain ⟨taken, others, rfl, hread, hleft⟩ :=
      htakes.arriving (Bool.eq_false_of_not_eq_true hclosed) _ later hsealed harriving
    have hall : sender.given =
        receiver.read ++ o.read ++ (messagesOf others ++ sender.node.messagesToSend) := by
      rw [hgiven, hread, messagesOf_append]
      simp
    refine ⟨⟨_, hall.symm⟩, hdispatched, fun hopen => ⟨others, ?_, hall, ?_⟩⟩
    · exact fun frame hframe => hsealed frame (List.mem_append_right _ hframe)
    · change Arriving o.node.vRecvMsg
        (receiver.incoming.drop event.received.length ++ sender.node.unsent) others
      rw [← hwire, List.drop_left]
      exact hleft hopen

theorem flows_start : Flows P .start .start :=
  ⟨List.prefix_rfl, List.Sublist.refl _, fun _ => ⟨[], nofun, rfl, arriving_nil⟩⟩

/-- Nothing is left to send, under way or to be processed. -/
structure Settled (sender receiver : CLinkEnd) : Prop where
  messagesToSend : sender.node.messagesToSend = []
  vSendMsg : sender.node.vSendMsg = []
  incoming : receiver.incoming = []
  incomplete : ∀ msg ∈ receiver.node.vRecvMsg, msg.complete = false

/-- What one end reads is what the other has been given, in its order and each message once;
while the connection stands, none is lost. -/
structure Delivers (sender receiver : CLinkEnd) : Prop where
  read : receiver.read <+: sender.given
  dispatched : receiver.dispatched.Sublist receiver.read
  settled : receiver.node.fDisconnect = false → Settled sender receiver →
    receiver.read = sender.given

theorem Flows.delivers (h : Flows P sender receiver) (hqueued : sender.node.toCNode.Queued) :
    Delivers sender receiver := by
  refine ⟨h.read, h.dispatched, fun hopen hsettled => ?_⟩
  obtain ⟨later, hsealed, hgiven, harriving⟩ := h.arriving hopen
  rw [hsettled.incoming, hqueued.unsent_eq_nil_iff.mpr hsettled.vSendMsg, List.append_nil]
    at harriving
  have hnone := harriving.eq_nil (fun frame hf => (hsealed frame hf).fits) hsettled.incomplete
  rw [hgiven, hnone, hsettled.messagesToSend]
  simp

end Delivery

structure Sound (P : CConnectionParams) (link : CLink) : Prop where
  own : link.own.node.Steady
  peer : link.peer.node.Steady
  outward : Flows P link.own link.peer
  inward : Flows P link.peer link.own

variable {P : CConnectionParams} {link : CLink}

theorem sound_start : start.Sound P := ⟨steady_start, steady_start, flows_start, flows_start⟩

theorem Sound.swap (h : link.Sound P) : link.swap.Sound P := ⟨h.peer, h.own, h.inward, h.outward⟩

theorem Sound.actOwn {event : Event} (h : link.Sound P) (hallowed : link.AllowedOwn event) :
    ∃ next, link.actOwn P event = some next ∧ next.Sound P := by
  obtain ⟨hfits, hfront⟩ := hallowed
  obtain ⟨o, frames, hact, hsteady, hemits, htakes⟩ := act_spec (P := P) h.own hfits
  refine ⟨⟨link.own.acted event o, link.peer.reached o⟩, ?_, hsteady, h.peer,
    h.outward.sent hemits, h.inward.received hfront htakes⟩
  rw [CLink.actOwn, hact]
  rfl

theorem Sound.step {e : Bool × Event} (h : link.Sound P) (hallowed : link.Allowed e) :
    ∃ next, link.step P e = .ok next ∧ next.Sound P := by
  obtain ⟨side, event⟩ := e
  cases side with
  | true =>
    obtain ⟨next, hnext, hsound⟩ := h.actOwn hallowed
    exact ⟨next, by rw [CLink.step, act, hnext]; rfl, hsound⟩
  | false =>
    obtain ⟨next, hnext, hsound⟩ := h.swap.actOwn hallowed
    exact ⟨next.swap, by rw [CLink.step, act, hnext]; rfl, hsound.swap⟩

/-- No assertion fails in any run of the two nodes. Each reads a prefix of what the other has been
given, and all of it once nothing is under way, unless the connection is closed. -/
theorem delivered_in_order (P : CConnectionParams) (events : List (Bool × Event))
    (h : FallibleRun.Guarded (step P) Allowed start events) :
    ∃ link, FallibleRun.run (step P) start events = .ok link ∧
      Delivers link.own link.peer ∧ Delivers link.peer link.own := by
  obtain ⟨link, hrun, hsound⟩ :=
    h.exists_run (fun link e hlink hallowed => Sound.step (P := P) hlink hallowed) sound_start
  exact ⟨link, hrun, hsound.outward.delivers hsound.own.queued,
    hsound.inward.delivers hsound.peer.queued⟩

namespace Pieces

def params : CConnectionParams :=
  ⟨⟨fun bytes => BitVec.ofNat 256 (bytes.map UInt8.toNat).sum, fun _ => 0⟩, [0xf9, 0xbe, 0xb4, 0xd9],
    rfl, 1000000, 5000000⟩

def message (payload : Bytes) : CMessage := ⟨⟨0, [7], 0, .invalid, 0, 0⟩, payload⟩

/-- The bytes of two messages that have been given together. -/
def wire : Bytes := NetFrame.codec.encode (CNode.frameOf params commandDims
  ((vector CMessage.codec).encode [message [1], message [2, 3]]))

/-- The socket takes ten bytes first, and the peer receives them, before the others. -/
def events : List (Bool × Event) :=
  [(true, .setMessageToSend (message [1])), (true, .setMessageToSend (message [2, 3])),
    (true, .sendMessages ⟨10, false, true⟩), (false, .receive (wire.take 10)),
    (false, .processMessages (fun _ => .goesOn) ⟨4096, false, true⟩),
    (true, .socketSendData ⟨4096, false, true⟩), (false, .receive (wire.drop 10)),
    (false, .processMessages (fun _ => .goesOn) ⟨4096, false, true⟩)]

theorem delivered_in_pieces : ∃ link, FallibleRun.run (step params) start events = .ok link ∧
    Delivers link.own link.peer ∧ Delivers link.peer link.own ∧
      link.peer.read = [message [1], message [2, 3]] := by
  obtain ⟨link, hrun, hout, hin⟩ := delivered_in_order params events (by decide +kernel)
  have hread : (FallibleRun.run (step params) start events).toOption.map (fun l => l.peer.read) =
      some [message [1], message [2, 3]] := by decide +kernel
  rw [hrun] at hread
  exact ⟨link, hrun, hout, hin, Option.some.inj hread⟩

end Pieces

end CLink

end Dims
