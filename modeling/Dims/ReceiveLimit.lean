import Mathlib.Algebra.Order.BigOperators.Group.List
import Dims.MessageLink

/-!
# How much a node keeps of what it receives

The thread of the sockets reads on only if nothing waits to be sent, and if no message is
complete or there is space left. Whatever the peer sends, the messages that are kept stay small,
and the node can go on.
-/

namespace Dims
open ByteCodec Serialize CSelfNode

/-- No message is complete, or there is space left in the buffer. -/
def CNode.takesMore (P : CConnectionParams) (node : CNode) : Bool :=
  match node.vRecvMsg.head? with
  | none => true
  | some msg => !msg.complete || decide (getTotalRecvSize node.vRecvMsg ≤ P.receiveFloodSize)

/-- The socket is one of those that `select` is to find something to read from; the locks on the
node are free. -/
def CNode.fdsetRecv (P : CConnectionParams) (node : CNode) : Bool :=
  node.vSendMsg = [] && node.takesMore P

/-- The size of the buffer that `recv` fills. -/
def recvBufferSize : ℕ := 0x10000

section Bytes
open CNetMessage

variable {vRecvMsg : List CNetMessage} {bytes : Bytes}

theorem CNetMessage.length_received_le (msg : CNetMessage) : msg.received.length ≤ msg.recvSize := by
  cases msg with
  | inHeader hdrbuf hlength => exact hlength.le
  | inData hdr vRecv hfits hsize hlength =>
    rw [received, recvSize, List.length_append, CMessageHeader.length_encode hfits]
    omega

theorem CNetMessage.recvSize_le (msg : CNetMessage) :
    msg.recvSize ≤ maxSize + CMessageHeader.headerSize := by
  cases msg with
  | inHeader hdrbuf hlength => exact Nat.le_add_left _ _
  | inData hdr vRecv hfits hsize hlength => exact Nat.add_le_add_right hsize _

theorem length_le_getTotalRecvSize (h : Stored vRecvMsg bytes) :
    bytes.length ≤ getTotalRecvSize vRecvMsg := by
  rw [← h.bytes, List.length_flatMap, getTotalRecvSize]
  exact List.sum_le_sum fun msg _ => msg.length_received_le

theorem length_le_of_takesMore {P : CConnectionParams} {node : CNode}
    (h : Stored node.vRecvMsg bytes) (hmore : node.takesMore P = true) :
    bytes.length ≤ max P.receiveFloodSize (maxSize + CMessageHeader.headerSize) := by
  cases hlist : node.vRecvMsg with
  | nil =>
    rw [← h.bytes, hlist]
    exact Nat.zero_le _
  | cons msg rest =>
    rw [CNode.takesMore, hlist] at hmore
    rcases Bool.or_eq_true_iff.mp hmore with hincomplete | hspace
    · -- a message that is not complete is the only one
      have hsingle : rest = [] := by
        rcases List.eq_nil_or_concat' rest with rfl | ⟨front, last, rfl⟩
        · rfl
        · have hwhole := h.whole msg (by rw [hlist]; simp [List.dropLast_cons_of_ne_nil])
          rw [hwhole] at hincomplete
          cases hincomplete
      rw [← h.bytes, hlist, hsingle]
      simpa using .inr (msg.length_received_le.trans msg.recvSize_le)
    · rw [← hlist, decide_eq_true_eq] at hspace
      exact le_max_of_le_left ((length_le_getTotalRecvSize h).trans hspace)

end Bytes

namespace CNode

variable {P : CConnectionParams}

theorem processMessages_takes {node : CNode} {msg : CNetMessage} {rest : List CNetMessage}
    (hlist : node.vRecvMsg = msg :: rest) (hcomplete : msg.complete = true)
    (hopen : node.fDisconnect = false) (hsize : node.nSendSize < P.sendBufferSize)
    {body : CMessage → CBodyEnd} {os : CSocketRoom} {p : ProcessedMessages}
    (hp : node.processMessages P body os = some p) :
    p.node.fDisconnect = true ∨ p.node.vRecvMsg.length < node.vRecvMsg.length := by
  obtain ⟨frame, hframe, -⟩ := CNetMessage.exists_frame hcomplete
  have hsuffix : (processLoop P node.vRecvMsg).2.2 <:+ rest := by
    have hnext := processLoop_suffix (P := P) rest
    rw [hlist, processLoop, hframe]
    dsimp only
    split_ifs
    · exact List.suffix_rfl
    · exact hnext
    · exact hnext
    · exact hnext
    · exact List.suffix_rfl
  have hlength : (processLoop P node.vRecvMsg).2.2.length < node.vRecvMsg.length := by
    have hle := hsuffix.length_le
    rw [hlist, List.length_cons] at *
    omega
  have hready : ¬(node.fDisconnect = true ∨ P.sendBufferSize ≤ node.nSendSize) := by
    simp [hopen, hsize]
  rw [processMessages, if_neg hready] at hp
  rcases hloop : processLoop P node.vRecvMsg with ⟨fOk, handed, left⟩
  rw [hloop] at hp hlength
  cases handed with
  | none =>
    obtain rfl := Option.some.inj hp
    exact .inr hlength
  | some vRecv =>
    dsimp only at hp
    split at hp
    · obtain ⟨q, -, rfl⟩ := Option.map_eq_some_iff.mp hp
      dsimp only
      split
      next hclosed => exact .inl hclosed
      next => exact .inr hlength
    · obtain rfl := Option.some.inj hp
      exact .inr hlength

end CNode

namespace CSelfNode

def step (P : CConnectionParams) (node : CSelfNode) (event : Event) :
    Except LinkFault CSelfNode :=
  (node.act P event).elim (.error .assertion) fun o => .ok o.node

/-- What is sent fits a message, and the socket is read only if more is taken. -/
def Serves (P : CConnectionParams) (node : CSelfNode) (event : Event) : Prop :=
  node.Fitting event ∧ event.received.length ≤ recvBufferSize ∧
    (event.received ≠ [] → node.takesMore P = true)

instance (P : CConnectionParams) (node : CSelfNode) (event : Event) :
    Decidable (node.Serves P event) :=
  inferInstanceAs (Decidable (node.Fitting event ∧ event.received.length ≤ recvBufferSize ∧
    (event.received ≠ [] → node.takesMore P = true)))

/-- What holds of a node whatever its peer sends. -/
structure Limited (P : CConnectionParams) (node : CSelfNode) : Prop where
  steady : node.Steady
  stored : ∃ bytes, Stored node.vRecvMsg bytes ∧ bytes.length ≤
    max P.receiveFloodSize (maxSize + CMessageHeader.headerSize) + recvBufferSize

variable {P : CConnectionParams} {node : CSelfNode}

theorem Limited.step {event : Event} (h : node.Limited P) (hserves : node.Serves P event) :
    ∃ next, node.step P event = .ok next ∧ next.Limited P := by
  obtain ⟨hfits, hbuffer, hmore⟩ := hserves
  obtain ⟨o, frames, hact, hsteady, -, htakes⟩ := act_spec (P := P) h.steady hfits
  obtain ⟨bytes, hstored, hlimit⟩ := h.stored
  obtain ⟨later, hlater, hlength⟩ := htakes.stored bytes hstored
  refine ⟨o.node, by rw [CSelfNode.step, hact]; rfl, hsteady, later, hlater, ?_⟩
  by_cases hnone : event.received = []
  · rw [hnone, List.length_nil, Nat.add_zero] at hlength
    exact hlength.trans hlimit
  · have hfew := length_le_of_takesMore hstored (hmore hnone)
    omega

/-- What the threads can do next: send, wait for data, or process a message. -/
def GoesOn (P : CConnectionParams) (node : CSelfNode) : Prop :=
  node.vSendMsg ≠ [] ∨ node.fdsetRecv P = true ∨
    ∀ body os, ∃ p, node.toCNode.processMessages P body os = some p ∧
      (p.node.fDisconnect = true ∨ p.node.vRecvMsg.length < node.vRecvMsg.length)

theorem Limited.goesOn (h : node.Limited P) (hsize : 0 < P.sendBufferSize)
    (hopen : node.fDisconnect = false) : node.GoesOn P := by
  by_cases hwaits : node.vSendMsg = []
  swap
  · exact .inl hwaits
  by_cases hmore : node.takesMore P = true
  · exact .inr (.inl (by simp [CNode.fdsetRecv, hwaits, hmore]))
  · refine .inr (.inr fun body os => ?_)
    obtain ⟨p, -, hp, -⟩ := processMessages_spec (P := P) h.steady.queued body os
    refine ⟨p, hp, ?_⟩
    cases hlist : node.vRecvMsg with
    | nil => exact absurd (by rw [CNode.takesMore, hlist]; rfl) hmore
    | cons msg rest =>
      have hcomplete : msg.complete = true := by
        rw [CNode.takesMore, hlist] at hmore
        simp at hmore
        exact hmore.1
      have hempty : node.nSendSize < P.sendBufferSize := by
        rw [h.steady.queued.nSendSize_eq_zero hwaits]
        exact hsize
      rw [← hlist]
      exact CNode.processMessages_takes hlist hcomplete hopen hempty hp

namespace Announced
open CLink.Pieces

/-- After a message the peer announces one of the greatest size, of which no data come. -/
def events : List Event :=
  [.receive (wire.take 10), .receive (wire.drop 10),
    .receive (CMessageHeader.codec.encode
      ⟨params.messageStart, CMessageHeader.padCommand commandDims, .ofNat maxSize, 0⟩),
    .setMessageToSend (message [4]), .sendMessages ⟨10, false, true⟩,
    .processMessages (fun _ => .goesOn) ⟨4096, false, true⟩]

end Announced

end CSelfNode

end Dims
