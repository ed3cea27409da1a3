import Dims.ConnectionSending

/-!
# What the events of a node do

Every event sends bytes of whole messages only, and takes the messages that have come from the
front. Of a peer that sends sealed messages nothing is refused.
-/

namespace Dims
open ByteCodec Serialize Codec

section Sealed

variable (P : CConnectionParams)

/-- A message that `processMessages` does not throw away. -/
structure NetFrame.Sealed (frame : NetFrame) : Prop where
  fits : NetFrame.codec.Fits frame
  valid : frame.1.isValid P.messageStart = true
  checksum : checksum P.hashes frame.2 = frame.1.nChecksum

/-- The messages in the data of a message "dims". -/
def NetFrame.messages (frame : NetFrame) : List CMessage :=
  if frame.1.getCommand = commandDims then
    ((vector CMessage.codec).decode frame.2).elim [] Prod.fst
  else []

def messagesOf (frames : List NetFrame) : List CMessage := frames.flatMap NetFrame.messages

@[simp] theorem messagesOf_nil : messagesOf [] = [] := rfl

@[simp] theorem messagesOf_cons (frame : NetFrame) (frames : List NetFrame) :
    messagesOf (frame :: frames) = frame.messages ++ messagesOf frames := rfl

@[simp] theorem messagesOf_append (frames later : List NetFrame) :
    messagesOf (frames ++ later) = messagesOf frames ++ messagesOf later := List.flatMap_append

variable {P}

theorem NetFrame.Sealed.messageStart {frame : NetFrame} (h : frame.Sealed P) :
    frame.1.pchMessageStart = P.messageStart := by
  have hvalid := h.valid
  simp only [CMessageHeader.isValid, decide_eq_true_eq] at hvalid
  exact hvalid.1

theorem CNode.sealed_frameOf {pszCommand payload : Bytes} (hpayload : payload.length ≤ maxSize)
    (hcommand : CMessageHeader.validCommand (CMessageHeader.padCommand pszCommand) = true) :
    (frameOf P pszCommand payload).Sealed P := by
  have hfits : NetFrame.codec.Fits (frameOf P pszCommand payload) := fits_frameOf hpayload
  refine ⟨hfits, ?_, rfl⟩
  simp only [CMessageHeader.isValid, decide_eq_true_eq]
  exact ⟨rfl, hcommand, hfits.2.2⟩

theorem CNode.messages_dims {messages : List CMessage}
    (h : (vector CMessage.codec).Fits messages) :
    (frameOf P commandDims ((vector CMessage.codec).encode messages)).messages = messages := by
  have hdecode := (vector CMessage.codec).decode_encode messages [] h
  rw [List.append_nil] at hdecode
  have hcommand : (frameOf P commandDims
      ((vector CMessage.codec).encode messages)).1.getCommand = commandDims := rfl
  have hpayload : (frameOf P commandDims ((vector CMessage.codec).encode messages)).2 =
      (vector CMessage.codec).encode messages := rfl
  rw [NetFrame.messages, if_pos hcommand, hpayload, hdecode]
  rfl

theorem CNode.messages_version (payload : Bytes) :
    (frameOf P commandVersion payload).messages = [] := by
  have hcommand : (frameOf P commandVersion payload).1.getCommand = commandVersion := rfl
  rw [NetFrame.messages, hcommand, if_neg (by decide)]

theorem CNode.messages_reject (payload : Bytes) :
    (frameOf P commandReject payload).messages = [] := by
  have hcommand : (frameOf P commandReject payload).1.getCommand = commandReject := rfl
  rw [NetFrame.messages, hcommand, if_neg (by decide)]

end Sealed

section Arriving
open CNetMessage

/-- The frames are still to be processed: some of their bytes have come, the others are under
way. -/
def Arriving (vRecvMsg : List CNetMessage) (wire : Bytes) (later : List NetFrame) : Prop :=
  ∃ bytes, Stored vRecvMsg bytes ∧ NetFrame.codec.encodeAll later = bytes ++ wire

variable {P : CConnectionParams} {vRecvMsg : List CNetMessage} {wire pch : Bytes}
  {later : List NetFrame}

theorem arriving_nil : Arriving [] [] [] := ⟨[], stored_nil, rfl⟩

theorem Arriving.append (h : Arriving vRecvMsg wire later) (frames : List NetFrame) :
    Arriving vRecvMsg (wire ++ NetFrame.codec.encodeAll frames) (later ++ frames) := by
  obtain ⟨bytes, hstored, hbytes⟩ := h
  exact ⟨bytes, hstored, by rw [encodeAll_append, hbytes, List.append_assoc]⟩

theorem Arriving.receive (h : Arriving vRecvMsg (pch ++ wire) later)
    (hfits : ∀ frame ∈ later, NetFrame.codec.Fits frame) :
    ∃ next, receiveMsgBytes vRecvMsg pch = some next ∧ Arriving next wire later := by
  obtain ⟨bytes, hstored, hbytes⟩ := h
  have hboth : receiveMsgBytes [] (bytes ++ pch) = receiveMsgBytes vRecvMsg pch := by
    rw [receiveMsgBytes_eq, List.foldlM_append, hstored.foldlM_eq, receiveMsgBytes_eq]
    rfl
  cases hreceive : receiveMsgBytes vRecvMsg pch with
  | some next =>
    exact ⟨next, rfl, bytes ++ pch, hstored.receive hreceive, by rw [hbytes, List.append_assoc]⟩
  | none =>
    -- a header that announces too much would be that of one of the frames
    rw [← hboth, receiveMsgBytes_eq_none_iff] at hreceive
    obtain ⟨frames, hdr, rest, hframes, hhdr, hsize, hrefused⟩ := hreceive
    have hsplit : NetFrame.codec.encodeAll later = NetFrame.codec.encodeAll frames ++
        (CMessageHeader.codec.encode hdr ++ (rest ++ wire)) := by
      rw [hbytes, ← List.append_assoc, hrefused]
      simp
    obtain ⟨others, rfl, hothers⟩ :=
      exists_append_of_encodeAll_eq NetFrame.encode_ne_nil hfits hframes hsplit
    have hheader := CMessageHeader.codec.decode_encode hdr (rest ++ wire) hhdr
    cases others with
    | nil =>
      exact absurd (List.append_eq_nil_iff.mp hothers.symm).1 (CMessageHeader.encode_ne_nil hhdr)
    | cons frame others =>
      have hframe := hfits frame (List.mem_append_right _ (List.mem_cons_self ..))
      have hfirst := CMessageHeader.codec.decode_encode frame.1
        (frame.2 ++ NetFrame.codec.encodeAll others) hframe.1
      rw [← hothers, encodeAll_cons] at hheader
      have hsame : NetFrame.codec.encode frame ++ NetFrame.codec.encodeAll others =
          CMessageHeader.codec.encode frame.1 ++ (frame.2 ++ NetFrame.codec.encodeAll others) :=
        List.append_assoc _ _ _
      rw [hsame, hfirst] at hheader
      obtain ⟨rfl, -⟩ := Prod.mk.inj (Option.some.inj hheader)
      exact absurd hframe.2.2 (Nat.not_le.mpr hsize)

theorem Stored.tail {msg : CNetMessage} {rest : List CNetMessage} {bytes : Bytes}
    (h : Stored (msg :: rest) bytes) :
    ∃ later, bytes = msg.received ++ later ∧ Stored rest later := by
  refine ⟨rest.flatMap received, by rw [← h.bytes, List.flatMap_cons], rfl, fun m hm => ?_,
    fun m hm => h.begun m (List.mem_cons_of_mem _ hm)⟩
  refine h.whole m ?_
  cases rest with
  | nil => cases hm
  | cons next rest => exact List.mem_cons_of_mem _ hm

theorem Stored.suffix {left : List CNetMessage} {bytes : Bytes} (h : Stored vRecvMsg bytes)
    (hsuffix : left <:+ vRecvMsg) : ∃ later, Stored left later ∧ later.length ≤ bytes.length := by
  induction vRecvMsg generalizing bytes with
  | nil =>
    obtain rfl := List.suffix_nil.mp hsuffix
    exact ⟨bytes, h, le_rfl⟩
  | cons msg rest ih =>
    rcases List.suffix_cons_iff.mp hsuffix with rfl | hrest
    · exact ⟨bytes, h, le_rfl⟩
    · obtain ⟨tail, rfl, htail⟩ := h.tail
      obtain ⟨later, hleft, hlength⟩ := ih htail hrest
      exact ⟨later, hleft, hlength.trans (by simp)⟩

theorem CNetMessage.received_of_frame {msg : CNetMessage} {frame : NetFrame}
    (h : msg.frame = some frame) :
    NetFrame.codec.Fits frame ∧ msg.received = NetFrame.codec.encode frame := by
  cases hcomplete : msg.complete with
  | false =>
    rw [frame_eq_none hcomplete] at h
    cases h
  | true =>
    obtain ⟨frame', hframe, hfits, hreceived⟩ := exists_frame hcomplete
    rw [h] at hframe
    obtain rfl := Option.some.inj hframe
    exact ⟨hfits, hreceived⟩

/-- A message that is complete is the first of the frames. -/
theorem Arriving.first {msg : CNetMessage} {rest : List CNetMessage} {frame : NetFrame}
    (h : Arriving (msg :: rest) wire later)
    (hfits : ∀ frame ∈ later, NetFrame.codec.Fits frame) (hframe : msg.frame = some frame) :
    ∃ others, later = frame :: others ∧ Arriving rest wire others := by
  obtain ⟨bytes, hstored, hbytes⟩ := h
  obtain ⟨left, rfl, hrest⟩ := hstored.tail
  obtain ⟨hfirst, hreceived⟩ := received_of_frame hframe
  have hsplit : NetFrame.codec.encodeAll later =
      NetFrame.codec.encodeAll [frame] ++ (left ++ wire) := by
    rw [hbytes, hreceived, encodeAll_cons, encodeAll_nil, List.append_nil, List.append_assoc]
  obtain ⟨others, rfl, hothers⟩ := exists_append_of_encodeAll_eq NetFrame.encode_ne_nil hfits
    (List.forall_mem_singleton.mpr hfirst) hsplit
  exact ⟨others, rfl, left, hrest, hothers⟩

/-- The loop takes frames from the front, and hands on the data of a message "dims" if it is the
last of them. -/
theorem processLoop_spec (hsealed : ∀ frame ∈ later, frame.Sealed P)
    (h : Arriving vRecvMsg wire later) :
    ∃ taken others handed left, later = taken ++ others ∧
      CNode.processLoop P vRecvMsg = (true, handed, left) ∧ Arriving left wire others ∧
        messagesOf taken = handed.elim []
          fun vRecv => ((vector CMessage.codec).decode vRecv).elim [] Prod.fst := by
  induction vRecvMsg generalizing later with
  | nil => exact ⟨[], later, none, [], rfl, rfl, h, rfl⟩
  | cons msg rest ih =>
    cases hframe : msg.frame with
    | none =>
      refine ⟨[], later, none, msg :: rest, rfl, ?_, h, rfl⟩
      rw [CNode.processLoop, hframe]
    | some frame =>
      obtain ⟨others, rfl, hrest⟩ := h.first (fun f hf => (hsealed f hf).fits) hframe
      obtain ⟨hfirst, hothers⟩ := List.forall_mem_cons.mp hsealed
      have hloop : CNode.processLoop P (msg :: rest) =
          if frame.1.getCommand ≠ commandDims then CNode.processLoop P rest
          else (true, some frame.2, rest) := by
        rw [CNode.processLoop, hframe]
        simp [hfirst.messageStart, hfirst.valid, hfirst.checksum]
      rw [hloop]
      by_cases hdims : frame.1.getCommand = commandDims
      · refine ⟨[frame], others, some frame.2, rest, rfl, ?_, hrest, ?_⟩
        · rw [if_neg (not_not.mpr hdims)]
        · rw [messagesOf_cons, messagesOf_nil, List.append_nil, NetFrame.messages, if_pos hdims]
          rfl
      · obtain ⟨taken, later, handed, left, rfl, hrun, harriving, hmessages⟩ := ih hothers hrest
        refine ⟨frame :: taken, later, handed, left, rfl, ?_, harriving, ?_⟩
        · rw [if_pos hdims, hrun]
        · rw [messagesOf_cons, NetFrame.messages, if_neg hdims, List.nil_append, hmessages]

theorem Arriving.eq_nil (h : Arriving vRecvMsg [] later)
    (hfits : ∀ frame ∈ later, NetFrame.codec.Fits frame)
    (hincomplete : ∀ msg ∈ vRecvMsg, msg.complete = false) : later = [] := by
  obtain ⟨bytes, hstored, hbytes⟩ := h
  rw [List.append_nil] at hbytes
  obtain ⟨hsplit, -⟩ := hstored.bytes_eq
  have hnone : wholeFrames vRecvMsg = [] :=
    List.filterMap_eq_nil_iff.mpr fun msg hmsg => frame_eq_none (hincomplete msg hmsg)
  rw [hnone, encodeAll_nil, List.nil_append] at hsplit
  cases later with
  | nil => rfl
  | cons frame later =>
    have hdecode := NetFrame.codec.decode_encode frame (NetFrame.codec.encodeAll later)
      (hfits frame (List.mem_cons_self ..))
    rw [← encodeAll_cons, hbytes, hsplit,
      CNetMessage.decode_received (complete_currentMessage vRecvMsg)] at hdecode
    cases hdecode

end Arriving

theorem CMessage.fits_iff {message : CMessage} : CMessage.codec.Fits message ↔
    message.header.signedHash.length ≤ maxSize ∧
      (message.header.prevKey.isValid = true ∨ message.header.prevKey = .invalid) ∧
        message.payload.length ≤ maxSize := by
  constructor
  · rintro ⟨⟨-, hhash, -, hkey, -⟩, hpayload⟩
    exact ⟨hhash, hkey, hpayload⟩
  · rintro ⟨hhash, hkey, hpayload⟩
    exact ⟨⟨int32_fits _, hhash, int64_fits _, hkey, uint256_fits _, uint256_fits _⟩, hpayload⟩

instance (message : CMessage) : Decidable (CMessage.codec.Fits message) :=
  decidable_of_iff _ CMessage.fits_iff.symm

instance (messages : List CMessage) : Decidable ((vector CMessage.codec).Fits messages) :=
  inferInstanceAs (Decidable (messages.length ≤ maxSize ∧
    ∀ message ∈ messages, CMessage.codec.Fits message))

namespace CSelfNode
open CNode

section Events

variable (P : CConnectionParams)

/-- The data of an event can be sent in one message. -/
def Fitting (node : CSelfNode) : Event → Prop
  | .sendMessages _ => (vector CMessage.codec).Fits node.messagesToSend ∧
      ((vector CMessage.codec).encode node.messagesToSend).length ≤ maxSize
  | .pushVersion payload _ => payload.length ≤ maxSize
  | _ => True

instance (node : CSelfNode) : (event : Event) → Decidable (node.Fitting event)
  | .sendMessages _ => inferInstanceAs (Decidable (_ ∧ _ ≤ _))
  | .pushVersion _ _ => inferInstanceAs (Decidable (_ ≤ _))
  | .setMessageToSend _ | .socketSendData _ | .receive _ | .processMessages _ _
  | .closeSocketDisconnect _ | .disconnect => .isTrue trivial

structure Steady (node : CSelfNode) : Prop where
  queued : node.toCNode.Queued
  closed : node.hSocket = false → node.fDisconnect = true

/-- The bytes that are sent, and those that are to be, are those of whole frames, and these carry
the messages that are gone. -/
structure Emits (node : CSelfNode) (event : Event) (o : Outcome) (frames : List NetFrame) :
    Prop where
  bytes : o.sent ++ o.node.unsent = node.unsent ++ NetFrame.codec.encodeAll frames
  messages : node.messagesToSend ++ event.given = messagesOf frames ++ o.node.messagesToSend
  frames_sealed : ∀ frame ∈ frames, frame.Sealed P

/-- Of the frames that arrive the first ones are taken, and what is read is theirs. -/
structure Takes (node : CSelfNode) (event : Event) (o : Outcome) : Prop where
  closed : node.fDisconnect = true → o.node.fDisconnect = true ∧ o.read = []
  arriving : node.fDisconnect = false → ∀ wire later, (∀ frame ∈ later, frame.Sealed P) →
    Arriving node.vRecvMsg (event.received ++ wire) later →
      ∃ taken others, later = taken ++ others ∧ o.read = messagesOf taken ∧
        (o.node.fDisconnect = false → Arriving o.node.vRecvMsg wire others)
  dispatched : o.dispatched.Sublist o.read
  /-- Whatever the peer has sent. -/
  stored : ∀ bytes, Stored node.vRecvMsg bytes → ∃ later, Stored o.node.vRecvMsg later ∧
    later.length ≤ bytes.length + event.received.length

variable {P} {node : CSelfNode}

theorem stored_of_suffix {event : Event} {after : CNode} (h : after.vRecvMsg <:+ node.vRecvMsg)
    (bytes : Bytes) (hstored : Stored node.vRecvMsg bytes) :
    ∃ later, Stored after.vRecvMsg later ∧ later.length ≤ bytes.length + event.received.length := by
  obtain ⟨later, hlater, hlength⟩ := hstored.suffix h
  exact ⟨later, hlater, hlength.trans (Nat.le_add_right _ _)⟩

theorem takes_of_keeps {event : Event} {after : CSelfNode} {sent : Bytes}
    (hreceived : event.received = [])
    (h : KeepsReceiving node.toCNode after.toCNode) :
    Takes P node event ⟨after, sent, [], []⟩ := by
  refine ⟨fun hclosed => ⟨?_, rfl⟩, fun hopen wire later _ harriving => ⟨[], later, rfl, rfl, ?_⟩,
    List.Sublist.refl _, stored_of_suffix h.suffix⟩
  · rcases h with ⟨-, hsame, -⟩ | ⟨-, hnow, -⟩
    · exact hsame.trans hclosed
    · exact hnow
  · rw [hreceived, List.nil_append] at harriving
    rintro hopen'
    rcases h with ⟨-, -, hsame⟩ | ⟨-, hnow, -⟩
    · change Arriving after.vRecvMsg wire later
      rwa [hsame]
    · cases hopen'.symm.trans hnow

theorem Steady.of_keeps {after : CSelfNode} (h : node.Steady) (hqueued : after.toCNode.Queued)
    (hkeeps : KeepsReceiving node.toCNode after.toCNode) : after.Steady := by
  refine ⟨hqueued, fun hclosed => ?_⟩
  rcases hkeeps with ⟨hsocket, hsame, -⟩ | ⟨-, hnow, -⟩
  · exact hsame.trans (h.closed (hsocket.symm.trans hclosed))
  · exact hnow

theorem emits_of_same {event : Event} {after : CSelfNode} {read dispatched : List CMessage}
    (hsame : SameSending node.toCNode after.toCNode)
    (hmessages : after.messagesToSend = node.messagesToSend ++ event.given) :
    Emits P node event ⟨after, [], read, dispatched⟩ [] :=
  ⟨by simp [hsame.unsent], by simp [hmessages], nofun⟩

theorem steady_start : start.Steady := ⟨queued_start, nofun⟩

variable (P) in
def Does (node : CSelfNode) (event : Event) : Prop :=
  ∃ o frames, node.act P event = some o ∧ o.node.Steady ∧ Emits P node event o frames ∧
    Takes P node event o

theorem does_setMessageToSend (h : node.Steady) (message : CMessage) :
    Does P node (.setMessageToSend message) :=
  ⟨_, [], rfl, ⟨h.queued, h.closed⟩, emits_of_same ⟨rfl, rfl, rfl, rfl⟩ rfl,
    takes_of_keeps rfl (keepsReceiving_refl _)⟩

theorem does_sendMessages (h : node.Steady) {os : CSocketRoom}
    (hfits : node.Fitting (.sendMessages os)) : Does P node (.sendMessages os) := by
  by_cases hnone : node.messagesToSend = []
  · have hact : node.act P (.sendMessages os) = some ⟨node, [], [], []⟩ := by
      rw [act, sendMessages, if_pos hnone]
      rfl
    exact ⟨_, [], hact, h, emits_of_same ⟨rfl, rfl, rfl, rfl⟩ (List.append_nil _).symm,
      takes_of_keeps rfl (keepsReceiving_refl _)⟩
  · obtain ⟨p, hp, hsends⟩ := pushMessage_spec (P := P) h.queued commandDims
      ((vector CMessage.codec).encode node.messagesToSend) os
    have hact : node.act P (.sendMessages os) = some ⟨⟨p.2, []⟩, p.1, [], []⟩ := by
      rw [act, sendMessages, if_neg hnone, hp]
      rfl
    have hmessages := messages_dims (P := P) hfits.1
    refine ⟨_, [frameOf P commandDims ((vector CMessage.codec).encode node.messagesToSend)], hact,
      h.of_keeps hsends.queued hsends.keeps, ⟨?_, ?_, ?_⟩, takes_of_keeps rfl hsends.keeps⟩
    · rw [encodeAll_cons, encodeAll_nil, List.append_nil]
      exact hsends.bytes
    · simp [Event.given, hmessages]
    · exact List.forall_mem_singleton.mpr (sealed_frameOf hfits.2 (by decide))

theorem does_pushVersion (h : node.Steady) {payload : Bytes} {os : CSocketRoom}
    (hfits : node.Fitting (.pushVersion payload os)) : Does P node (.pushVersion payload os) := by
  obtain ⟨p, hp, hsends⟩ := pushMessage_spec (P := P) h.queued commandVersion payload os
  have hact : node.act P (.pushVersion payload os) =
      some ⟨⟨p.2, node.messagesToSend⟩, p.1, [], []⟩ := by
    rw [act, hp]
    rfl
  refine ⟨_, [frameOf P commandVersion payload], hact, h.of_keeps hsends.queued hsends.keeps,
    ⟨?_, ?_, ?_⟩, takes_of_keeps rfl hsends.keeps⟩
  · rw [encodeAll_cons, encodeAll_nil, List.append_nil]
    exact hsends.bytes
  · simp [Event.given, messages_version]
  · exact List.forall_mem_singleton.mpr (sealed_frameOf hfits (by decide))

theorem does_socketSendData (h : node.Steady) (os : CSocketRoom) :
    Does P node (.socketSendData os) := by
  obtain ⟨p, hp, hsends, -⟩ := socketSendData_spec h.queued os
  have hact : node.act P (.socketSendData os) =
      some ⟨⟨p.2, node.messagesToSend⟩, p.1, [], []⟩ := by
    rw [act, hp]
    rfl
  exact ⟨_, [], hact, h.of_keeps hsends.queued hsends.keeps,
    ⟨hsends.bytes, (List.append_nil _), nofun⟩, takes_of_keeps rfl hsends.keeps⟩

theorem does_closeSocketDisconnect (h : node.Steady) (lockRecv : Bool) :
    Does P node (.closeSocketDisconnect lockRecv) := by
  have hsame : SameSending node.toCNode (node.toCNode.closeSocketDisconnect lockRecv) :=
    ⟨rfl, rfl, rfl, rfl⟩
  exact ⟨_, [], rfl, ⟨hsame.queued h.queued, fun _ => rfl⟩,
    emits_of_same hsame (List.append_nil _).symm, takes_of_keeps rfl (keepsReceiving_close _ _)⟩

theorem does_disconnect (h : node.Steady) : Does P node .disconnect :=
  ⟨_, [], rfl, ⟨⟨h.queued.ssSend, h.queued.waiting⟩, fun _ => rfl⟩,
    emits_of_same ⟨rfl, rfl, rfl, rfl⟩ (List.append_nil _).symm,
    fun _ => ⟨rfl, rfl⟩, fun _ _ later _ _ => ⟨[], later, rfl, rfl, nofun⟩, List.Sublist.refl _,
    stored_of_suffix List.suffix_rfl⟩

/-- Whatever is received, the sending side stays; what arrives of sealed frames is taken. -/
theorem does_receive (h : node.Steady) (pchBuf : Bytes) : Does P node (.receive pchBuf) := by
  have hact : ∀ after, node.toCNode.receive pchBuf = after →
      node.act P (.receive pchBuf) = some ⟨⟨after, node.messagesToSend⟩, [], [], []⟩ := by
    rintro _ rfl
    rfl
  by_cases hsocket : node.hSocket = true
  · cases hreceive : receiveMsgBytes node.vRecvMsg pchBuf with
    | some next =>
      have hafter : node.toCNode.receive pchBuf = { node.toCNode with vRecvMsg := next } := by
        rw [CNode.receive, if_pos hsocket, hreceive]
      refine ⟨_, [], hact _ hafter, ⟨⟨h.queued.ssSend, h.queued.waiting⟩, h.closed⟩,
        emits_of_same ⟨rfl, rfl, rfl, rfl⟩ (List.append_nil _).symm, fun hclosed => ⟨hclosed, rfl⟩,
        fun _ wire later hsealed harriving => ⟨[], later, rfl, rfl, fun _ => ?_⟩,
        List.Sublist.refl _, fun bytes hstored =>
          ⟨_, hstored.receive hreceive, List.length_append.le⟩⟩
      obtain ⟨next', hnext', hnext⟩ := harriving.receive fun frame hf => (hsealed frame hf).fits
      obtain rfl := Option.some.inj (hreceive.symm.trans hnext')
      exact hnext
    | none =>
      have hafter : node.toCNode.receive pchBuf = node.toCNode.closeSocketDisconnect true := by
        rw [CNode.receive, if_pos hsocket, hreceive]
      exact ⟨_, [], hact _ hafter, ⟨⟨h.queued.ssSend, h.queued.waiting⟩, fun _ => rfl⟩,
        emits_of_same ⟨rfl, rfl, rfl, rfl⟩ (List.append_nil _).symm, fun _ => ⟨rfl, rfl⟩,
        fun _ _ later _ _ => ⟨[], later, rfl, rfl, nofun⟩, List.Sublist.refl _,
        fun _ _ => ⟨[], stored_nil, Nat.zero_le _⟩⟩
  · have hafter : node.toCNode.receive pchBuf = node.toCNode := by
      rw [CNode.receive, if_neg hsocket]
    have hclosed := h.closed (Bool.eq_false_of_not_eq_true hsocket)
    exact ⟨_, [], hact _ hafter, h, emits_of_same ⟨rfl, rfl, rfl, rfl⟩ (List.append_nil _).symm,
      fun _ => ⟨hclosed, rfl⟩, fun hopen => absurd (hopen.symm.trans hclosed) Bool.false_ne_true,
      List.Sublist.refl _, stored_of_suffix List.suffix_rfl⟩

end Events

section Processing

variable (P : CConnectionParams)

/-- What `processMessages` does: it rejects a message at most, and takes frames from the front. -/
structure Processes (node : CNode) (p : ProcessedMessages) (frames : List NetFrame) : Prop where
  queued : p.node.Queued
  bytes : p.sent ++ p.node.unsent = node.unsent ++ NetFrame.codec.encodeAll frames
  rejects : ∀ frame ∈ frames, frame = frameOf P commandReject rejectPayload
  closed : p.node.hSocket = false → node.hSocket = false ∨ p.node.fDisconnect = true
  disconnected : node.fDisconnect = true → p.node.fDisconnect = true ∧ p.processed.read = []
  arriving : node.fDisconnect = false → ∀ wire later, (∀ frame ∈ later, frame.Sealed P) →
    Arriving node.vRecvMsg wire later → p.fOk = true ∧
      ∃ taken others, later = taken ++ others ∧ p.processed.read = messagesOf taken ∧
        (p.node.fDisconnect = false → Arriving p.node.vRecvMsg wire others)
  dispatched : p.processed.dispatched.Sublist p.processed.read
  suffix : p.node.vRecvMsg <:+ node.vRecvMsg

variable {P}

theorem processLoop_suffix (vRecvMsg : List CNetMessage) :
    (processLoop P vRecvMsg).2.2 <:+ vRecvMsg := by
  induction vRecvMsg with
  | nil => exact List.suffix_rfl
  | cons msg rest ih =>
    have htail : rest <:+ msg :: rest := List.suffix_cons msg rest
    have hnext : (processLoop P rest).2.2 <:+ msg :: rest := ih.trans htail
    rw [processLoop]
    cases msg.frame with
    | none => exact List.suffix_rfl
    | some frame =>
      dsimp only
      split_ifs
      all_goals assumption

theorem prefix_dispatchLoop (body : CMessage → CBodyEnd) (messages : List CMessage) :
    (dispatchLoop body messages).1 <+: messages := by
  induction messages with
  | nil => exact List.prefix_rfl
  | cons message messages ih =>
    rw [dispatchLoop]
    split
    · exact (List.prefix_cons_inj message).mpr ih
    all_goals exact List.nil_prefix

theorem processMessage_read (body : CMessage → CBodyEnd) (vRecv : Bytes) :
    (processMessage body vRecv).read = ((vector CMessage.codec).decode vRecv).elim [] Prod.fst ∧
      (processMessage body vRecv).dispatched.Sublist (processMessage body vRecv).read := by
  rw [processMessage]
  cases (vector CMessage.codec).decode vRecv with
  | none => exact ⟨rfl, List.Sublist.refl _⟩
  | some p => exact ⟨rfl, (prefix_dispatchLoop body p.1).sublist⟩

theorem processes_of_left {node : CNode} (h : node.Queued) (hopen : node.fDisconnect = false)
    {fOk : Bool} {handed : Option Bytes} {left : List CNetMessage} {processed : Processed}
    (hloop : processLoop P node.vRecvMsg = (fOk, handed, left))
    (hread : processed.read = handed.elim []
      fun vRecv => ((vector CMessage.codec).decode vRecv).elim [] Prod.fst)
    (hdispatched : processed.dispatched.Sublist processed.read) :
    Processes P node ⟨[], { node with vRecvMsg := left }, processed, fOk⟩ [] := by
  refine ⟨⟨h.ssSend, h.waiting⟩, (List.append_nil _).symm, nofun, .inl,
    fun hclosed => absurd (hopen.symm.trans hclosed) Bool.false_ne_true,
    fun _ wire later hsealed harriving => ?_, hdispatched, ?_⟩
  swap
  · have hsuffix := processLoop_suffix (P := P) node.vRecvMsg
    rwa [hloop] at hsuffix
  obtain ⟨taken, others, handed', left', rfl, hloop', hleft, hmessages⟩ :=
    processLoop_spec hsealed harriving
  rw [hloop] at hloop'
  obtain ⟨rfl, hrest⟩ := Prod.mk.inj hloop'
  obtain ⟨rfl, rfl⟩ := Prod.mk.inj hrest
  exact ⟨rfl, taken, others, rfl, hread.trans hmessages.symm, fun _ => hleft⟩

theorem processes_of_rejects {node : CNode} (hopen : node.fDisconnect = false) {fOk : Bool}
    {left : List CNetMessage} {processed : Processed}
    (h : Processes P node ⟨[], { node with vRecvMsg := left }, processed, fOk⟩ [])
    {os : CSocketRoom} {p : Bytes × CNode}
    (hsends : Sends os node (NetFrame.codec.encode (frameOf P commandReject rejectPayload)) p) :
    Processes P node
      ⟨p.1, if p.2.fDisconnect then p.2 else { p.2 with vRecvMsg := left }, processed, fOk⟩
      [frameOf P commandReject rejectPayload] := by
  set after := if p.2.fDisconnect then p.2 else { p.2 with vRecvMsg := left } with hafter
  have hsame : SameSending p.2 after := by
    rw [hafter]
    split <;> exact ⟨rfl, rfl, rfl, rfl⟩
  have hdisconnect : after.fDisconnect = p.2.fDisconnect := by
    rw [hafter]
    split <;> rfl
  have hsocket : after.hSocket = p.2.hSocket := by
    rw [hafter]
    split <;> rfl
  refine ⟨hsame.queued hsends.queued, ?_, by simp, fun hclosed => ?_,
    fun hclosed => absurd (hopen.symm.trans hclosed) Bool.false_ne_true,
    fun hopen wire later hsealed harriving => ?_, h.dispatched, ?_⟩
  · rw [hsame.unsent, encodeAll_cons, encodeAll_nil, List.append_nil]
    exact hsends.bytes
  · rw [hsocket] at hclosed
    rcases hsends.keeps with ⟨hsame, -⟩ | ⟨-, hnow, -⟩
    · exact .inl (hsame.symm.trans hclosed)
    · exact .inr (hdisconnect.trans hnow)
  · obtain ⟨hok, taken, others, hlater, hread, hleft⟩ := h.arriving hopen wire later hsealed
      harriving
    refine ⟨hok, taken, others, hlater, hread, fun hstays => ?_⟩
    have hkept : after.vRecvMsg = left := by
      rw [hafter, if_neg (by rw [← hdisconnect, hstays]; exact Bool.false_ne_true)]
    rw [hkept]
    exact hleft hopen
  · change after.vRecvMsg <:+ node.vRecvMsg
    rw [hafter]
    split
    · exact hsends.keeps.suffix
    · exact h.suffix

theorem processMessages_spec {node : CNode} (h : node.Queued) (body : CMessage → CBodyEnd)
    (os : CSocketRoom) :
    ∃ p frames, node.processMessages P body os = some p ∧ Processes P node p frames := by
  by_cases hidle : node.fDisconnect ∨ P.sendBufferSize ≤ node.nSendSize
  · refine ⟨_, [], if_pos hidle, h, (List.append_nil _).symm, nofun, .inl,
      fun hclosed => ⟨hclosed, rfl⟩, fun _ wire later _ harriving => ⟨rfl, [], later, rfl, rfl,
        fun _ => harriving⟩, List.Sublist.refl _, List.suffix_rfl⟩
  · obtain ⟨hconnected, -⟩ := not_or.mp hidle
    have hopen : node.fDisconnect = false := Bool.eq_false_of_not_eq_true hconnected
    rcases hloop : processLoop P node.vRecvMsg with ⟨fOk, handed, left⟩
    have hprocess : node.processMessages P body os = _ := if_neg hidle
    rw [hloop] at hprocess
    cases handed with
    | none => exact ⟨_, [], hprocess, processes_of_left h hopen hloop rfl (List.Sublist.refl _)⟩
    | some vRecv =>
      obtain ⟨hread, hdispatched⟩ := processMessage_read body vRecv
      have hleft := processes_of_left h hopen hloop hread hdispatched
      by_cases hfailed : (processMessage body vRecv).failed = true
      · obtain ⟨p, hp, hsends⟩ := pushMessage_spec (P := P) h commandReject rejectPayload
          { os with lockRecv := true }
        simp only [hfailed, if_true, hp, Option.map_some] at hprocess
        exact ⟨_, [frameOf P commandReject rejectPayload], hprocess,
          processes_of_rejects hopen hleft hsends⟩
      · simp only [hfailed, Bool.false_eq_true, if_false] at hprocess
        exact ⟨_, [], hprocess, hleft⟩

/-- The socket is closed where `processMessages` has returned false. -/
theorem Processes.close {node : CNode} {p : ProcessedMessages} {frames : List NetFrame}
    (h : Processes P node p frames) (hfailed : p.fOk ≠ true) :
    Processes P node { p with node := p.node.closeSocketDisconnect true } frames := by
  have hsame : SameSending p.node (p.node.closeSocketDisconnect true) := ⟨rfl, rfl, rfl, rfl⟩
  refine ⟨hsame.queued h.queued, ?_, h.rejects, fun _ => .inr rfl,
    fun hclosed => ⟨rfl, (h.disconnected hclosed).2⟩,
    fun hopen wire later hsealed harriving => ?_, h.dispatched, List.nil_suffix⟩
  · change p.sent ++ CNode.unsent (p.node.closeSocketDisconnect true) = _
    rw [hsame.unsent]
    exact h.bytes
  · exact absurd (h.arriving hopen wire later hsealed harriving).1 hfailed

theorem handleMessages_spec {node : CNode} (h : node.Queued) (body : CMessage → CBodyEnd)
    (os : CSocketRoom) :
    ∃ p frames, node.handleMessages P body os = some p ∧ Processes P node p frames := by
  obtain ⟨p, frames, hp, hprocess⟩ := processMessages_spec (P := P) h body os
  by_cases hok : p.fOk = true
  · exact ⟨p, frames, by rw [handleMessages, hp, Option.map_some, if_pos hok], hprocess⟩
  · exact ⟨_, frames, by rw [handleMessages, hp, Option.map_some, if_neg hok],
      hprocess.close hok⟩

end Processing

section Events

variable {P : CConnectionParams} {node : CSelfNode}

theorem does_processMessages (h : node.Steady) (body : CMessage → CBodyEnd) (os : CSocketRoom) :
    Does P node (.processMessages body os) := by
  obtain ⟨p, frames, hp, hprocess⟩ := handleMessages_spec (P := P) h.queued body os
  have hact : node.act P (.processMessages body os) =
      some ⟨⟨p.node, node.messagesToSend⟩, p.sent, p.processed.read, p.processed.dispatched⟩ := by
    rw [act, hp]
    rfl
  have hrejects : messagesOf frames = [] := by
    refine List.flatMap_eq_nil_iff.mpr fun frame hframe => ?_
    rw [hprocess.rejects frame hframe]
    exact messages_reject rejectPayload
  refine ⟨_, frames, hact, ⟨hprocess.queued, fun hclosed => ?_⟩,
    ⟨hprocess.bytes, by simp [Event.given, hrejects], fun frame hframe => ?_⟩,
    ⟨hprocess.disconnected, fun hopen wire later hsealed harriving => ?_, hprocess.dispatched,
      stored_of_suffix hprocess.suffix⟩⟩
  · rcases hprocess.closed hclosed with hbefore | hnow
    · exact (hprocess.disconnected (h.closed hbefore)).1
    · exact hnow
  · rw [hprocess.rejects frame hframe]
    exact sealed_frameOf (by decide) (by decide)
  · exact (hprocess.arriving hopen wire later hsealed harriving).2

/-- No event makes an assertion fail, whatever the node has received. -/
theorem act_spec (h : node.Steady) {event : Event} (hfits : node.Fitting event) :
    Does P node event := by
  cases event with
  | setMessageToSend message => exact does_setMessageToSend h message
  | sendMessages os => exact does_sendMessages h hfits
  | pushVersion payload os => exact does_pushVersion h hfits
  | socketSendData os => exact does_socketSendData h os
  | receive pchBuf => exact does_receive h pchBuf
  | processMessages body os => exact does_processMessages h body os
  | closeSocketDisconnect lockRecv => exact does_closeSocketDisconnect h lockRecv
  | disconnect => exact does_disconnect h

end Events

end CSelfNode

end Dims
