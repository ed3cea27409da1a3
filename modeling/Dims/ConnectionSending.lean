import Dims.ConnectionNode

/-!
# What a node sends

The socket takes the bytes of the queued messages from the front, as many as it has room for.
No assertion of the sending code fails, and a message that is queued carries its size and its
checksum.
-/

namespace Dims
open ByteCodec Serialize Codec

namespace CNode

/-- The messages that wait: some bytes of the first one may have been sent, but not all. -/
structure Waiting (vSendMsg : List Bytes) (nSendOffset nSendSize : ℕ) : Prop where
  first : match vSendMsg with
    | [] => nSendOffset = 0
    | data :: _ => nSendOffset < data.length
  others : ∀ data ∈ vSendMsg.tail, data ≠ []
  size : nSendSize = (vSendMsg.map List.length).sum

theorem waiting_nil : Waiting [] 0 0 := ⟨rfl, by simp, rfl⟩

variable {vSendMsg rest : List Bytes} {data : Bytes} {nSendOffset nSendSize : ℕ}

theorem Waiting.next (h : Waiting (data :: rest) nSendOffset nSendSize) :
    Waiting rest 0 (nSendSize - data.length) := by
  have hsize := h.size
  refine ⟨?_, fun d hd => h.others d (List.mem_of_mem_tail hd), ?_⟩
  · cases rest with
    | nil => rfl
    | cons d rest => exact List.length_pos_iff.mpr (h.others d (List.mem_cons_self ..))
  · rw [List.map_cons, List.sum_cons] at hsize
    omega

theorem Waiting.le_length (h : Waiting vSendMsg nSendOffset nSendSize) :
    nSendOffset ≤ vSendMsg.flatten.length := by
  cases vSendMsg with
  | nil => exact h.first.le
  | cons data rest =>
    have hfirst : nSendOffset < data.length := h.first
    rw [List.flatten_cons, List.length_append]
    omega

theorem Waiting.append (h : Waiting vSendMsg nSendOffset nSendSize) {message : Bytes}
    (hmessage : message ≠ []) :
    Waiting (vSendMsg ++ [message]) nSendOffset (nSendSize + message.length) := by
  have hsize := h.size
  cases vSendMsg with
  | nil =>
    obtain rfl : nSendOffset = 0 := h.first
    exact ⟨List.length_pos_iff.mpr hmessage, by simp, by simpa using hsize⟩
  | cons data rest =>
    refine ⟨h.first, fun d hd => ?_, by simp [hsize, Nat.add_assoc]⟩
    rcases List.mem_append.mp hd with hd | hd
    · exact h.others d hd
    · obtain rfl := List.mem_singleton.mp hd
      exact hmessage

theorem Waiting.drop_eq_nil_iff (h : Waiting vSendMsg nSendOffset nSendSize) :
    vSendMsg.flatten.drop nSendOffset = [] ↔ vSendMsg = [] := by
  cases vSendMsg with
  | nil => simp
  | cons data rest =>
    have hfirst : nSendOffset < data.length := h.first
    refine iff_of_false (fun hnil => ?_) (by simp)
    have hlength := List.drop_eq_nil_iff.mp hnil
    rw [List.flatten_cons, List.length_append] at hlength
    omega

/-- The loop sends as many bytes as the socket has room for, from the front. -/
theorem sendLoop_spec (h : Waiting vSendMsg nSendOffset nSendSize) (room : ℕ) :
    ∃ r, sendLoop room vSendMsg nSendOffset nSendSize = some r ∧
      Waiting r.vSendMsg r.nSendOffset r.nSendSize ∧
        r.sent = (vSendMsg.flatten.drop nSendOffset).take room ∧
          r.vSendMsg.flatten.drop r.nSendOffset = (vSendMsg.flatten.drop nSendOffset).drop room := by
  induction vSendMsg generalizing nSendOffset nSendSize room with
  | nil =>
    obtain rfl : nSendOffset = 0 := h.first
    obtain rfl : nSendSize = 0 := h.size
    exact ⟨_, rfl, h, by simp, by simp⟩
  | cons data rest ih =>
    have hfirst : nSendOffset < data.length := h.first
    have hunsent : (data :: rest).flatten.drop nSendOffset =
        data.drop nSendOffset ++ rest.flatten := by
      rw [List.flatten_cons, List.drop_append_of_le_length hfirst.le]
    rw [sendLoop, if_neg (Nat.not_le.mpr hfirst), hunsent]
    by_cases hroom : room = 0
    · subst hroom
      exact ⟨_, if_pos rfl, h, by simp, hunsent⟩
    · rw [if_neg hroom]
      by_cases hall : (data.drop nSendOffset).length ≤ room
      · obtain ⟨r, hr, hwaiting, hsent, hleft⟩ := ih h.next (room - (data.drop nSendOffset).length)
        rw [if_pos hall, hr]
        rw [List.drop_zero] at hsent hleft
        refine ⟨_, rfl, hwaiting, ?_, ?_⟩
        · rw [List.take_append, List.take_of_length_le hall, ← hsent]
        · rw [List.drop_append, List.drop_of_length_le hall, List.nil_append]
          exact hleft
      · have hlt : room < (data.drop nSendOffset).length := Nat.not_le.mp hall
        have hoffset : nSendOffset + room < data.length := by
          rw [List.length_drop] at hlt
          omega
        rw [if_neg hall]
        refine ⟨_, rfl, ⟨hoffset, h.others, h.size⟩, ?_, ?_⟩
        · rw [List.take_append_of_le_length hlt.le]
        · rw [List.flatten_cons, List.drop_append_of_le_length hoffset.le,
            List.drop_append_of_le_length hlt.le, List.drop_drop]

def unsent (node : CNode) : Bytes := node.vSendMsg.flatten.drop node.nSendOffset

/-- What holds of the sending side between the calls. -/
structure Queued (node : CNode) : Prop where
  ssSend : node.ssSend = []
  waiting : Waiting node.vSendMsg node.nSendOffset node.nSendSize

theorem queued_start : start.Queued := ⟨rfl, waiting_nil⟩

theorem Queued.unsent_eq_nil_iff {node : CNode} (h : node.Queued) :
    node.unsent = [] ↔ node.vSendMsg = [] := h.waiting.drop_eq_nil_iff

theorem Queued.nSendSize_eq_zero {node : CNode} (h : node.Queued) (hnil : node.vSendMsg = []) :
    node.nSendSize = 0 := by
  rw [h.waiting.size, hnil]
  rfl

structure SameSending (node after : CNode) : Prop where
  ssSend : after.ssSend = node.ssSend
  nSendSize : after.nSendSize = node.nSendSize
  nSendOffset : after.nSendOffset = node.nSendOffset
  vSendMsg : after.vSendMsg = node.vSendMsg

theorem SameSending.queued {node after : CNode} (h : SameSending node after) (hnode : node.Queued) :
    after.Queued := by
  obtain ⟨hssSend, hsize, hoffset, hqueue⟩ := h
  exact ⟨hssSend.trans hnode.ssSend, by rw [hqueue, hoffset, hsize]; exact hnode.waiting⟩

theorem SameSending.unsent {node after : CNode} (h : SameSending node after) :
    after.unsent = node.unsent := by
  rw [CNode.unsent, CNode.unsent, h.vSendMsg, h.nSendOffset]

/-- The receiving side is the same, or the socket has been closed. -/
def KeepsReceiving (node after : CNode) : Prop :=
  (after.hSocket = node.hSocket ∧ after.fDisconnect = node.fDisconnect ∧
      after.vRecvMsg = node.vRecvMsg) ∨
    (after.hSocket = false ∧ after.fDisconnect = true ∧
      (after.vRecvMsg = node.vRecvMsg ∨ after.vRecvMsg = []))

theorem keepsReceiving_refl (node : CNode) : KeepsReceiving node node := .inl ⟨rfl, rfl, rfl⟩

theorem keepsReceiving_close (node : CNode) (lockRecv : Bool) :
    KeepsReceiving node (node.closeSocketDisconnect lockRecv) := by
  refine .inr ⟨rfl, rfl, ?_⟩
  cases lockRecv
  · exact .inl rfl
  · exact .inr rfl

theorem KeepsReceiving.suffix {node after : CNode} (h : KeepsReceiving node after) :
    after.vRecvMsg <:+ node.vRecvMsg := by
  rcases h with ⟨-, -, hsame⟩ | ⟨-, -, hsame | hnil⟩
  · rw [hsame]
  · rw [hsame]
  · rw [hnil]
    exact List.nil_suffix

/-- What sending does: the socket takes bytes of what waits and of what is added. -/
structure Sends (os : CSocketRoom) (node : CNode) (added : Bytes) (p : Bytes × CNode) : Prop where
  queued : p.2.Queued
  bytes : p.1 ++ p.2.unsent = node.unsent ++ added
  room : p.1.length ≤ os.room
  closed : node.hSocket = false → p.1 = []
  keeps : KeepsReceiving node p.2
  /-- A socket that does not fail stays open. -/
  open_ : os.fails = false → node.hSocket = true → p.2.hSocket = true ∧
    p.2.fDisconnect = node.fDisconnect ∧ p.2.vRecvMsg = node.vRecvMsg

theorem socketSendData_spec {node : CNode} (h : node.Queued) (os : CSocketRoom) :
    ∃ p, node.socketSendData os = some p ∧ Sends os node [] p ∧
      (node.hSocket = true → p.1 = node.unsent.take os.room) := by
  obtain ⟨r, hr, hwaiting, hsent, hleft⟩ := sendLoop_spec h.waiting (if node.hSocket then os.room else 0)
  set after : CNode := { node with
    vSendMsg := r.vSendMsg
    nSendOffset := r.nSendOffset
    nSendSize := r.nSendSize } with hafter
  have hqueued : after.Queued := ⟨h.ssSend, hwaiting⟩
  have hbytes : r.sent ++ after.unsent = node.unsent := by
    rw [hafter, unsent, hleft, hsent, unsent]
    exact List.take_append_drop _ _
  have hroom : r.sent.length ≤ os.room := by
    rw [hsent, List.length_take]
    split <;> omega
  have hclosed : node.hSocket = false → r.sent = [] := by
    intro hsocket
    rw [hsent, hsocket]
    simp
  have hsend : node.socketSendData os = some (r.sent,
      if r.stuck ∧ (os.fails ∨ !node.hSocket) then after.closeSocketDisconnect os.lockRecv
      else after) := by
    rw [socketSendData, hr]
    rfl
  refine ⟨_, hsend, ?_, fun hsocket => ?_⟩
  · by_cases hclose : r.stuck ∧ (os.fails ∨ !node.hSocket)
    · have hsame : SameSending after (after.closeSocketDisconnect os.lockRecv) := ⟨rfl, rfl, rfl, rfl⟩
      rw [if_pos hclose]
      refine ⟨hsame.queued hqueued, ?_, hroom, hclosed, keepsReceiving_close after os.lockRecv, ?_⟩
      · rw [hsame.unsent, List.append_nil]
        exact hbytes
      · intro hfails hsocket
        simp [hfails, hsocket] at hclose
    · rw [if_neg hclose]
      exact ⟨hqueued, by rw [List.append_nil]; exact hbytes, hroom, hclosed, .inl ⟨rfl, rfl, rfl⟩,
        fun _ hsocket => ⟨hsocket, rfl, rfl⟩⟩
  · rw [hsent, if_pos hsocket]
    rfl

section Messages

variable (P : CConnectionParams)

def frameOf (pszCommand payload : Bytes) : NetFrame :=
  (⟨P.messageStart, CMessageHeader.padCommand pszCommand, .ofNat payload.length,
    checksum P.hashes payload⟩, payload)

variable {P}

theorem overwrite_append (first old last w : Bytes) (h : old.length = w.length) :
    overwrite (first ++ (old ++ last)) first.length w = first ++ (w ++ last) := by
  rw [overwrite, List.take_left', List.append_assoc]
  · congr 2
    rw [← List.append_assoc, ← h, ← List.length_append, List.drop_left]
  · rfl

theorem sealMessage_eq (pszCommand payload : Bytes) :
    sealMessage P (CMessageHeader.codec.encode
      ⟨P.messageStart, CMessageHeader.padCommand pszCommand, 0, 0⟩ ++ payload) =
        NetFrame.codec.encode (frameOf P pszCommand payload) := by
  have hstart := P.length_messageStart
  have hcommand := CMessageHeader.length_padCommand pszCommand
  set first := P.messageStart ++ CMessageHeader.padCommand pszCommand with hfirst
  have hlength : first.length = 16 := by
    rw [hfirst, List.length_append, hstart, hcommand]
    rfl
  have hbuffer : CMessageHeader.codec.encode
      ⟨P.messageStart, CMessageHeader.padCommand pszCommand, 0, 0⟩ ++ payload =
        first ++ (leBytes 4 0 ++ (leBytes 4 0 ++ payload)) := by
    rw [CMessageHeader.encode_eq]
    simp [hfirst]
  have hdata : (first ++ (leBytes 4 0 ++ (leBytes 4 0 ++ payload))).drop
      CMessageHeader.headerSize = payload := by
    rw [← List.append_assoc, ← List.append_assoc]
    refine List.drop_left' ?_
    simp [hlength, CMessageHeader.headerSize]
  have hsize : (first ++ (leBytes 4 0 ++ (leBytes 4 0 ++ payload))).length -
      CMessageHeader.headerSize = payload.length := by
    simp only [List.length_append, hlength, length_leBytes, CMessageHeader.headerSize]
    omega
  have hsized : ∀ w : Bytes, w.length = 4 →
      overwrite (first ++ (leBytes 4 0 ++ (leBytes 4 0 ++ payload))) 16 w =
        (first ++ w) ++ (leBytes 4 0 ++ payload) := by
    intro w hw
    have h := overwrite_append first (leBytes 4 0) (leBytes 4 0 ++ payload) w (by simp [hw])
    rw [hlength] at h
    exact h.trans (List.append_assoc _ _ _).symm
  rw [hbuffer, sealMessage, hdata, hsize, hsized _ (length_leBytes _ _)]
  set sized := first ++ leBytes 4 (UInt32.ofNat payload.length).toNat with hsizedEq
  have hsizedLength : sized.length = 20 := by
    rw [hsizedEq, List.length_append, hlength, length_leBytes]
  have hchecked := overwrite_append sized (leBytes 4 0) payload
    (leBytes 4 (checksum P.hashes payload).toNat) (by simp)
  rw [hsizedLength] at hchecked
  rw [hchecked]
  change _ = CMessageHeader.codec.encode (frameOf P pszCommand payload).1 ++ payload
  rw [CMessageHeader.encode_eq]
  simp [hsizedEq, hfirst, frameOf]

theorem fits_frameOf {pszCommand payload : Bytes} (h : payload.length ≤ maxSize) :
    NetFrame.codec.Fits (frameOf P pszCommand payload) := by
  have hmax : maxSize < 2 ^ 32 := by decide
  have hsize : (UInt32.ofNat payload.length).toNat = payload.length :=
    UInt32.toNat_ofNat_of_lt' (lt_of_le_of_lt h hmax)
  refine ⟨CMessageHeader.fits_iff.mpr ⟨P.length_messageStart, CMessageHeader.length_padCommand _⟩,
    ?_, ?_⟩
  · exact hsize.symm
  · change (UInt32.ofNat payload.length).toNat ≤ maxSize
    rwa [hsize]

/-- Pushing a message adds its bytes to those that are to be sent. -/
theorem pushMessage_spec {node : CNode} (h : node.Queued) (pszCommand payload : Bytes)
    (os : CSocketRoom) :
    ∃ p, node.pushMessage P pszCommand payload os = some p ∧
      Sends os node (NetFrame.codec.encode (frameOf P pszCommand payload)) p := by
  set message := NetFrame.codec.encode (frameOf P pszCommand payload) with hmessage
  have hwhole : ∀ size sum, CMessageHeader.codec.encode
      ⟨P.messageStart, CMessageHeader.padCommand pszCommand, size, sum⟩ ++ payload ≠ [] :=
    fun size sum => List.append_ne_nil_of_left_ne_nil (CMessageHeader.encode_ne_nil
      (CMessageHeader.fits_iff.mpr ⟨P.length_messageStart, CMessageHeader.length_padCommand _⟩)) _
  have hne : message ≠ [] := hwhole _ _
  set queued : CNode := { node with
    ssSend := []
    vSendMsg := node.vSendMsg ++ [message]
    nSendSize := node.nSendSize + message.length } with hqueued
  have hpush : node.pushMessage P pszCommand payload os =
      if node.vSendMsg = [] then queued.socketSendData os else some ([], queued) := by
    rw [pushMessage, beginMessage, if_pos h.ssSend, Option.bind_some, endMessage, if_neg (hwhole 0 0),
      sealMessage_eq]
  have hwaiting : queued.Queued := ⟨rfl, h.waiting.append hne⟩
  have hunsent : queued.unsent = node.unsent ++ message := by
    rw [hqueued, unsent, unsent, List.flatten_append, List.drop_append_of_le_length h.waiting.le_length]
    simp
  rw [hpush]
  by_cases hempty : node.vSendMsg = []
  · rw [if_pos hempty]
    obtain ⟨p, hp, hsends, -⟩ := socketSendData_spec hwaiting os
    exact ⟨p, hp, hsends.queued, by rw [hsends.bytes, hunsent, List.append_nil], hsends.room,
      hsends.closed, hsends.keeps, hsends.open_⟩
  · rw [if_neg hempty]
    exact ⟨_, rfl, hwaiting, hunsent, Nat.zero_le _, fun _ => rfl, .inl ⟨rfl, rfl, rfl⟩,
      fun _ hsocket => ⟨hsocket, rfl, rfl⟩⟩

end Messages

end CNode

end Dims
