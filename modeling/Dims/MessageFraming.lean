import Dims.NetMessage
import Mathlib.Data.List.Induction

/-!
# How the bytes of a connection become messages

The messages that a node holds are those whose bytes have come, whole and in their order,
and at the end the beginning of another one. They do not depend on the chunks in which the
bytes have come.
-/

namespace Dims
open ByteCodec Serialize Codec ChunkedReader

/-- A message on the wire. -/
abbrev NetFrame := CMessageHeader × Bytes

def NetFrame.codec : Codec NetFrame :=
  framed CMessageHeader.codec (fun hdr => hdr.nMessageSize.toNat) maxSize

namespace NetFrame

theorem extends_codec : Extends codec.decode := extends_framed CMessageHeader.extends_codec

theorem encode_ne_nil (frame : NetFrame) (h : codec.Fits frame) : codec.encode frame ≠ [] :=
  List.append_ne_nil_of_left_ne_nil (CMessageHeader.encode_ne_nil h.1) frame.2

end NetFrame

namespace CNetMessage

def push (b : UInt8) : CNetMessage → Option CNetMessage
  | .inHeader hdrbuf _ =>
    if h : (hdrbuf ++ [b]).length < CMessageHeader.headerSize then some (.inHeader (hdrbuf ++ [b]) h)
    else beginData (hdrbuf ++ [b])
  | .inData hdr vRecv hfits hsize _ =>
    if h : (vRecv ++ [b]).length ≤ hdr.nMessageSize.toNat then
      some (.inData hdr (vRecv ++ [b]) hfits hsize h)
    else none

def pushAll (msg : CNetMessage) (bytes : Bytes) : Option CNetMessage :=
  bytes.foldlM (fun msg b => msg.push b) msg

@[simp] theorem complete_inHeader (hdrbuf : Bytes) (h) : (inHeader hdrbuf h).complete = false := rfl

@[simp] theorem received_fresh : fresh.received = [] := rfl

@[simp] theorem complete_fresh : fresh.complete = false := rfl

theorem pushAll_append (msg : CNetMessage) (first last : Bytes) :
    msg.pushAll (first ++ last) = (msg.pushAll first).bind fun next => next.pushAll last :=
  List.foldlM_append

theorem beginData_encode {hdr : CMessageHeader} (hfits : CMessageHeader.codec.Fits hdr)
    (hsize : hdr.nMessageSize.toNat ≤ maxSize) :
    beginData (CMessageHeader.codec.encode hdr) = some (.inData hdr [] hfits hsize (Nat.zero_le _)) := by
  have hdecode := CMessageHeader.codec.decode_encode hdr [] hfits
  rw [List.append_nil] at hdecode
  rw [beginData]
  split
  next hnone => simp [hdecode] at hnone
  next hdr' _ hsome =>
    obtain ⟨rfl, -⟩ := Prod.mk.inj (Option.some.inj (hdecode.symm.trans hsome))
    rw [dif_pos hsize]

theorem beginData_eq_none {hdr : CMessageHeader} (hfits : CMessageHeader.codec.Fits hdr)
    (hsize : maxSize < hdr.nMessageSize.toNat) :
    beginData (CMessageHeader.codec.encode hdr) = none := by
  have hdecode := CMessageHeader.codec.decode_encode hdr [] hfits
  rw [List.append_nil] at hdecode
  rw [beginData]
  split
  · rfl
  next hdr' _ hsome =>
    obtain ⟨rfl, -⟩ := Prod.mk.inj (Option.some.inj (hdecode.symm.trans hsome))
    rw [dif_neg (Nat.not_le.mpr hsize)]

theorem received_beginData {hdrbuf : Bytes} {msg : CNetMessage}
    (hlength : hdrbuf.length = CMessageHeader.headerSize) (h : beginData hdrbuf = some msg) :
    msg.received = hdrbuf := by
  obtain ⟨hdr, hfits, rfl⟩ := CMessageHeader.exists_decode hlength
  by_cases hsize : hdr.nMessageSize.toNat ≤ maxSize
  · rw [beginData_encode hfits hsize] at h
    obtain rfl := Option.some.inj h
    exact List.append_nil _
  · rw [beginData_eq_none hfits (Nat.not_le.mp hsize)] at h
    cases h

theorem received_push {msg next : CNetMessage} {b : UInt8} (h : msg.push b = some next) :
    next.received = msg.received ++ [b] := by
  cases msg with
  | inHeader hdrbuf hlength =>
    rw [push] at h
    split at h
    · obtain rfl := Option.some.inj h
      rfl
    next hfull =>
      change next.received = hdrbuf ++ [b]
      refine received_beginData ?_ h
      rw [List.length_append, List.length_singleton] at hfull ⊢
      omega
  | inData hdr vRecv hfits hsize hlength =>
    rw [push] at h
    split at h
    · obtain rfl := Option.some.inj h
      simp [received]
    · cases h

theorem pushAll_inHeader (bytes : Bytes) : ∀ {hdrbuf : Bytes} (h)
    (hlength : (hdrbuf ++ bytes).length < CMessageHeader.headerSize),
    (inHeader hdrbuf h).pushAll bytes = some (.inHeader (hdrbuf ++ bytes) hlength) := by
  induction bytes with
  | nil =>
    intro hdrbuf h hlength
    simp [pushAll]
  | cons b bytes ih =>
    intro hdrbuf h hlength
    have hfirst : (hdrbuf ++ [b]).length < CMessageHeader.headerSize := by
      simp only [List.length_append, List.length_cons, List.length_nil] at hlength ⊢
      omega
    change ((inHeader hdrbuf h).push b).bind _ = _
    rw [push, dif_pos hfirst]
    have hrest := ih hfirst (by simpa using hlength)
    simpa [pushAll] using hrest

theorem pushAll_header {hdrbuf bytes : Bytes} (h)
    (hlength : (hdrbuf ++ bytes).length = CMessageHeader.headerSize) :
    (inHeader hdrbuf h).pushAll bytes = beginData (hdrbuf ++ bytes) := by
  rcases List.eq_nil_or_concat' bytes with rfl | ⟨front, b, rfl⟩
  · rw [List.append_nil] at hlength
    omega
  · have hfront : (hdrbuf ++ front).length < CMessageHeader.headerSize := by
      simp only [List.length_append, List.length_singleton] at hlength ⊢
      omega
    rw [pushAll_append, pushAll_inHeader front h hfront, Option.bind_some]
    change ((inHeader (hdrbuf ++ front) hfront).push b).bind some = _
    rw [push, dif_neg (by rw [List.append_assoc, hlength]; exact lt_irrefl _),
      Option.bind_fun_some, List.append_assoc]

theorem pushAll_inData (bytes : Bytes) : ∀ {hdr : CMessageHeader} {vRecv : Bytes} (hfits hsize h)
    (hlength : (vRecv ++ bytes).length ≤ hdr.nMessageSize.toNat),
    (inData hdr vRecv hfits hsize h).pushAll bytes =
      some (.inData hdr (vRecv ++ bytes) hfits hsize hlength) := by
  induction bytes with
  | nil =>
    intro hdr vRecv hfits hsize h hlength
    simp [pushAll]
  | cons b bytes ih =>
    intro hdr vRecv hfits hsize h hlength
    have hfirst : (vRecv ++ [b]).length ≤ hdr.nMessageSize.toNat := by
      simp only [List.length_append, List.length_cons, List.length_nil] at hlength ⊢
      omega
    change ((inData hdr vRecv hfits hsize h).push b).bind _ = _
    rw [push, dif_pos hfirst]
    have hrest := ih hfits hsize hfirst (by simpa using hlength)
    simpa [pushAll] using hrest

/-- No message is complete before all of the bytes have been taken. -/
def Steady (msg : CNetMessage) (bytes : Bytes) : Prop :=
  ∀ k, 0 < k → k < bytes.length → ∀ next, msg.pushAll (bytes.take k) = some next →
    next.complete = false

theorem steady_inHeader {hdrbuf bytes : Bytes} (h)
    (hlength : (hdrbuf ++ bytes).length ≤ CMessageHeader.headerSize) :
    (inHeader hdrbuf h).Steady bytes := by
  intro k hpos hk next hnext
  have htake : (hdrbuf ++ bytes.take k).length < CMessageHeader.headerSize := by
    simp only [List.length_append, List.length_take] at hlength ⊢
    omega
  rw [pushAll_inHeader _ h htake] at hnext
  obtain rfl := Option.some.inj hnext
  rfl

theorem steady_inData {hdr : CMessageHeader} {vRecv bytes : Bytes} (hfits hsize h)
    (hlength : (vRecv ++ bytes).length ≤ hdr.nMessageSize.toNat) :
    (inData hdr vRecv hfits hsize h).Steady bytes := by
  intro k hpos hk next hnext
  have htake : (vRecv ++ bytes.take k).length < hdr.nMessageSize.toNat := by
    simp only [List.length_append, List.length_take] at hlength ⊢
    omega
  rw [pushAll_inData _ hfits hsize h htake.le] at hnext
  obtain rfl := Option.some.inj hnext
  simp only [complete, decide_eq_false_iff_not]
  omega

/-- A message takes of a chunk what it takes byte by byte. -/
theorem read_eq_some {msg next : CNetMessage} {pch : Bytes} {n : ℕ} (hincomplete : msg.complete = false)
    (hpch : pch ≠ []) (h : msg.read pch = some (n, next)) :
    0 < n ∧ msg.pushAll (pch.take n) = some next ∧ msg.Steady (pch.take n) := by
  have hpos := List.length_pos_iff.mpr hpch
  cases msg with
  | inHeader hdrbuf hlength =>
    rw [read, readHeader] at h
    split at h
    next hpart =>
      obtain ⟨rfl, rfl⟩ := Prod.mk.inj (Option.some.inj h)
      exact ⟨by omega, pushAll_inHeader _ _ hpart, steady_inHeader _ hpart.le⟩
    next hfull =>
      obtain ⟨msg, hmsg, heq⟩ := Option.map_eq_some_iff.mp h
      obtain ⟨rfl, rfl⟩ := Prod.mk.inj heq
      have hall : (hdrbuf ++ pch.take (min (CMessageHeader.headerSize - hdrbuf.length)
          pch.length)).length = CMessageHeader.headerSize := by
        simp only [List.length_append, List.length_take] at hfull ⊢
        omega
      exact ⟨by omega, (pushAll_header _ hall).trans hmsg, steady_inHeader _ hall.le⟩
  | inData hdr vRecv hfits hsize hlength =>
    obtain ⟨rfl, rfl⟩ := Prod.mk.inj (Option.some.inj h)
    simp only [complete, decide_eq_false_iff_not] at hincomplete
    exact ⟨by omega, pushAll_inData _ hfits hsize hlength (length_append_take hlength pch),
      steady_inData hfits hsize hlength (length_append_take hlength pch)⟩

theorem read_eq_none {msg : CNetMessage} {pch : Bytes} (h : msg.read pch = none) :
    ∃ n, msg.pushAll (pch.take n) = none ∧ msg.Steady (pch.take n) := by
  cases msg with
  | inHeader hdrbuf hlength =>
    rw [read, readHeader] at h
    split at h
    · cases h
    next hfull =>
      have hall : (hdrbuf ++ pch.take (min (CMessageHeader.headerSize - hdrbuf.length)
          pch.length)).length = CMessageHeader.headerSize := by
        simp only [List.length_append, List.length_take] at hfull ⊢
        omega
      exact ⟨_, (pushAll_header _ hall).trans (Option.map_eq_none_iff.mp h),
        steady_inHeader _ hall.le⟩
  | inData hdr vRecv hfits hsize hlength => cases h

end CNetMessage

section Machine
open CNetMessage

def absorbByte (vRecvMsg : List CNetMessage) (b : UInt8) : Option (List CNetMessage) :=
  ((currentMessage vRecvMsg).2.push b).map fun msg => (currentMessage vRecvMsg).1 ++ [msg]

@[simp] theorem currentMessage_nil : currentMessage [] = ([], .fresh) := rfl

theorem currentMessage_of_incomplete (front : List CNetMessage) {msg : CNetMessage}
    (h : msg.complete = false) : currentMessage (front ++ [msg]) = (front, msg) := by
  simp [currentMessage, h]

theorem currentMessage_of_complete (front : List CNetMessage) {msg : CNetMessage}
    (h : msg.complete = true) :
    currentMessage (front ++ [msg]) = (front ++ [msg], .fresh) := by
  simp [currentMessage, h]

theorem currentMessage_of_whole {vRecvMsg : List CNetMessage}
    (h : ∀ msg ∈ vRecvMsg, msg.complete = true) :
    currentMessage vRecvMsg = (vRecvMsg, .fresh) := by
  rcases List.eq_nil_or_concat' vRecvMsg with rfl | ⟨front, msg, rfl⟩
  · rfl
  · exact currentMessage_of_complete front (h msg (by simp))

theorem complete_currentMessage (vRecvMsg : List CNetMessage) :
    (currentMessage vRecvMsg).2.complete = false := by
  rcases List.eq_nil_or_concat' vRecvMsg with rfl | ⟨front, msg, rfl⟩
  · rfl
  · cases h : msg.complete with
    | true => rw [currentMessage_of_complete front h, complete_fresh]
    | false => rw [currentMessage_of_incomplete front h, h]

/-- As long as no message is complete before, the bytes go to the current message. -/
theorem foldlM_absorbByte (bytes : Bytes) : ∀ {vRecvMsg front : List CNetMessage} {msg : CNetMessage},
    currentMessage vRecvMsg = (front, msg) → bytes ≠ [] → msg.Steady bytes →
      bytes.foldlM absorbByte vRecvMsg = (msg.pushAll bytes).map fun next => front ++ [next] := by
  induction bytes with
  | nil =>
    intro vRecvMsg front msg _ hne
    exact absurd rfl hne
  | cons b rest ih =>
    intro vRecvMsg front msg hcurrent _ hsteady
    have hpush : msg.pushAll (b :: rest) = (msg.push b).bind fun next => next.pushAll rest := rfl
    rw [List.foldlM_cons, absorbByte, hcurrent, hpush]
    cases hb : msg.push b with
    | none => rfl
    | some next =>
      by_cases hrest : rest = []
      · subst hrest
        rfl
      · have hlength := List.length_pos_iff.mpr hrest
        have hfirst : msg.pushAll [b] = some next := by
          simp [pushAll, hb]
        have hincomplete : next.complete = false :=
          hsteady 1 Nat.one_pos (by rw [List.length_cons]; omega) next hfirst
        refine ih (currentMessage_of_incomplete front hincomplete) hrest ?_
        intro k hpos hk last hlast
        refine hsteady (k + 1) (Nat.succ_pos k) (by rw [List.length_cons]; omega) last ?_
        change (msg.push b).bind _ = _
        rw [hb]
        exact hlast

theorem follows_absorb : Follows absorbByte absorb where
  taken := by
    intro vRecvMsg pch n next hpch h
    obtain ⟨⟨count, msg⟩, hmsg, heq⟩ := Option.map_eq_some_iff.mp h
    obtain ⟨rfl, rfl⟩ := Prod.mk.inj heq
    obtain ⟨hpos, hpush, hsteady⟩ := read_eq_some (complete_currentMessage vRecvMsg) hpch hmsg
    have hne : pch.take count ≠ [] := by
      simp [hpch, hpos.ne']
    refine ⟨hpos, ?_⟩
    rw [foldlM_absorbByte _ (Prod.eta (currentMessage vRecvMsg)).symm hne hsteady, hpush]
    rfl
  refused := by
    intro vRecvMsg pch hpch h
    obtain ⟨n, hpush, hsteady⟩ := read_eq_none (Option.map_eq_none_iff.mp h)
    have hne : pch.take n ≠ [] := by
      intro hnil
      rw [hnil] at hpush
      cases hpush
    refine ⟨n, ?_⟩
    rw [foldlM_absorbByte _ (Prod.eta (currentMessage vRecvMsg)).symm hne hsteady, hpush]
    rfl

theorem receiveMsgBytes_eq (vRecvMsg : List CNetMessage) (pch : Bytes) :
    receiveMsgBytes vRecvMsg pch = pch.foldlM absorbByte vRecvMsg :=
  readChunk_eq follows_absorb vRecvMsg pch

theorem foldlM_receiveMsgBytes (chunks : List Bytes) (vRecvMsg : List CNetMessage) :
    chunks.foldlM receiveMsgBytes vRecvMsg = receiveMsgBytes vRecvMsg chunks.flatten :=
  foldlM_readChunk follows_absorb chunks vRecvMsg

end Machine

section Stored
open CNetMessage

/-- The messages hold these bytes: all but the last message are complete, and some byte of each
has come. -/
structure Stored (vRecvMsg : List CNetMessage) (bytes : Bytes) : Prop where
  bytes : vRecvMsg.flatMap received = bytes
  whole : ∀ msg ∈ vRecvMsg.dropLast, msg.complete = true
  begun : ∀ msg ∈ vRecvMsg, msg.received ≠ []

variable {vRecvMsg next : List CNetMessage} {bytes : Bytes}

theorem stored_nil : Stored [] [] := ⟨rfl, by simp, by simp⟩

/-- What is before the current message is complete, and holds all other bytes. -/
theorem Stored.current (h : Stored vRecvMsg bytes) :
    (∀ msg ∈ (currentMessage vRecvMsg).1, msg.complete = true ∧ msg.received ≠ []) ∧
      bytes = (currentMessage vRecvMsg).1.flatMap received ++ (currentMessage vRecvMsg).2.received := by
  rcases List.eq_nil_or_concat' vRecvMsg with rfl | ⟨front, msg, rfl⟩
  · exact ⟨by simp, by simpa using h.bytes.symm⟩
  · have hfront : ∀ m ∈ front, m.complete = true ∧ m.received ≠ [] := fun m hm =>
      ⟨h.whole m (by simpa using hm), h.begun m (List.mem_append_left _ hm)⟩
    cases hcomplete : msg.complete with
    | true =>
      rw [currentMessage_of_complete front hcomplete]
      refine ⟨fun m hm => ?_, by simpa using h.bytes.symm⟩
      rcases List.mem_append.mp hm with hm | hm
      · exact hfront m hm
      · obtain rfl := List.mem_singleton.mp hm
        exact ⟨hcomplete, h.begun m (by simp)⟩
    | false =>
      rw [currentMessage_of_incomplete front hcomplete]
      exact ⟨hfront, by simpa using h.bytes.symm⟩

theorem Stored.push {b : UInt8} (h : Stored vRecvMsg bytes)
    (hstep : absorbByte vRecvMsg b = some next) : Stored next (bytes ++ [b]) := by
  obtain ⟨msg, hmsg, rfl⟩ := Option.map_eq_some_iff.mp hstep
  obtain ⟨hfront, hbytes⟩ := h.current
  have hreceived := received_push hmsg
  refine ⟨by simp [hbytes, hreceived], fun m hm => (hfront m (by simpa using hm)).1, fun m hm => ?_⟩
  rcases List.mem_append.mp hm with hm | hm
  · exact (hfront m hm).2
  · obtain rfl := List.mem_singleton.mp hm
    simp [hreceived]

theorem Stored.receive {pch : Bytes} (h : Stored vRecvMsg bytes)
    (hreceive : receiveMsgBytes vRecvMsg pch = some next) : Stored next (bytes ++ pch) := by
  rw [receiveMsgBytes_eq] at hreceive
  exact foldlM_preserves (fun hs hstep => hs.push hstep) pch h hreceive

theorem foldlM_received {front : List CNetMessage} (msg : CNetMessage)
    (hfront : currentMessage front = (front, .fresh)) (hbegun : msg.received ≠ []) :
    msg.received.foldlM absorbByte front = some (front ++ [msg]) := by
  cases msg with
  | inHeader hdrbuf hlength =>
    have hsteady : fresh.Steady hdrbuf := steady_inHeader _ hlength.le
    have hall : ([] ++ hdrbuf).length < CMessageHeader.headerSize := hlength
    have hpush : fresh.pushAll hdrbuf = some (.inHeader hdrbuf hlength) :=
      pushAll_inHeader hdrbuf _ hall
    have hne : hdrbuf ≠ [] := hbegun
    change hdrbuf.foldlM absorbByte front = _
    rw [foldlM_absorbByte _ hfront hne hsteady, hpush]
    rfl
  | inData hdr vRecv hfits hsize hlength =>
    have hheader := CMessageHeader.length_encode hfits
    have hne := CMessageHeader.encode_ne_nil hfits
    have hsteady : fresh.Steady (CMessageHeader.codec.encode hdr) :=
      steady_inHeader _ hheader.le
    have hwhole : ([] ++ CMessageHeader.codec.encode hdr).length = CMessageHeader.headerSize := hheader
    have hbegin : fresh.pushAll (CMessageHeader.codec.encode hdr) =
        some (.inData hdr [] hfits hsize (Nat.zero_le _)) :=
      (pushAll_header _ hwhole).trans (beginData_encode hfits hsize)
    have hfirst : (CMessageHeader.codec.encode hdr).foldlM absorbByte front =
        some (front ++ [.inData hdr [] hfits hsize (Nat.zero_le _)]) := by
      rw [foldlM_absorbByte _ hfront hne hsteady, hbegin]
      rfl
    rw [received, List.foldlM_append, hfirst]
    change List.foldlM absorbByte _ vRecv = _
    by_cases hdata : vRecv = []
    · subst hdata
      rfl
    · have hpos := List.length_pos_iff.mpr hdata
      have hincomplete : (inData hdr [] hfits hsize (Nat.zero_le _)).complete = false := by
        simp only [complete, List.length_nil, decide_eq_false_iff_not]
        omega
      have hall : ([] ++ vRecv).length ≤ hdr.nMessageSize.toNat := hlength
      rw [foldlM_absorbByte _ (currentMessage_of_incomplete front hincomplete) hdata
        (steady_inData hfits hsize _ hall), pushAll_inData _ hfits hsize _ hall]
      rfl

/-- Messages of which each has been begun and all but the last one are complete are made by
their bytes. -/
theorem Stored.foldlM_eq (h : Stored vRecvMsg bytes) : bytes.foldlM absorbByte [] = some vRecvMsg := by
  induction vRecvMsg using List.reverseRecOn generalizing bytes with
  | nil =>
    obtain rfl := h.bytes
    rfl
  | append_singleton front msg ih =>
    have hfront : ∀ m ∈ front, m.complete = true := fun m hm => h.whole m (by simpa using hm)
    have hstored : Stored front (front.flatMap received) :=
      ⟨rfl, fun m hm => hfront m (List.dropLast_subset _ hm),
        fun m hm => h.begun m (List.mem_append_left _ hm)⟩
    obtain rfl := h.bytes
    rw [List.flatMap_append, List.foldlM_append, ih hstored]
    simpa using foldlM_received msg (currentMessage_of_whole hfront) (h.begun msg (by simp))

theorem receiveMsgBytes_eq_some_iff :
    receiveMsgBytes [] bytes = some vRecvMsg ↔ Stored vRecvMsg bytes := by
  constructor
  · intro h
    simpa using stored_nil.receive h
  · intro h
    rw [receiveMsgBytes_eq]
    exact h.foldlM_eq

end Stored

section Frames
open CNetMessage

def CNetMessage.frame : CNetMessage → Option NetFrame
  | .inHeader _ _ => none
  | .inData hdr vRecv _ _ _ => if hdr.nMessageSize.toNat = vRecv.length then some (hdr, vRecv) else none

theorem CNetMessage.frame_eq_none {msg : CNetMessage} (h : msg.complete = false) :
    msg.frame = none := by
  cases msg with
  | inHeader hdrbuf hlength => rfl
  | inData hdr vRecv hfits hsize hlength =>
    simp only [complete, decide_eq_false_iff_not] at h
    exact if_neg h

theorem CNetMessage.exists_frame {msg : CNetMessage} (h : msg.complete = true) :
    ∃ frame, msg.frame = some frame ∧ NetFrame.codec.Fits frame ∧
      msg.received = NetFrame.codec.encode frame := by
  cases msg with
  | inHeader hdrbuf hlength => cases h
  | inData hdr vRecv hfits hsize hlength =>
    simp only [complete, decide_eq_true_eq] at h
    exact ⟨(hdr, vRecv), if_pos h, ⟨hfits, h.symm, hsize⟩, rfl⟩

/-- No message can be read in the bytes of one that is not complete. -/
theorem CNetMessage.decode_received {msg : CNetMessage} (h : msg.complete = false) :
    NetFrame.codec.decode msg.received = none := by
  cases msg with
  | inHeader hdrbuf hlength =>
    refine framed_decode_of_head ?_
    refine Option.eq_none_iff_forall_ne_some.mpr ?_
    rintro ⟨hdr, rest⟩ hdecode
    obtain ⟨hfits, hbytes⟩ := CMessageHeader.sound_codec hdecode
    have hheader := CMessageHeader.length_encode hfits
    have heq := congrArg List.length hbytes
    rw [List.length_append] at heq
    change hdrbuf.length = _ at heq
    omega
  | inData hdr vRecv hfits hsize hlength =>
    simp only [complete, decide_eq_false_iff_not] at h
    exact framed_decode_of_short hfits (by omega)

def wholeFrames (vRecvMsg : List CNetMessage) : List NetFrame := vRecvMsg.filterMap CNetMessage.frame

variable {vRecvMsg : List CNetMessage} {bytes : Bytes}

theorem encodeAll_wholeFrames (h : ∀ msg ∈ vRecvMsg, msg.complete = true) :
    NetFrame.codec.encodeAll (wholeFrames vRecvMsg) = vRecvMsg.flatMap received ∧
      ∀ frame ∈ wholeFrames vRecvMsg, NetFrame.codec.Fits frame := by
  induction vRecvMsg with
  | nil => exact ⟨rfl, by simp [wholeFrames]⟩
  | cons msg rest ih =>
    obtain ⟨hmsg, hrest⟩ := List.forall_mem_cons.mp h
    obtain ⟨frame, hframe, hfits, hreceived⟩ := exists_frame hmsg
    obtain ⟨hencode, hall⟩ := ih hrest
    have hcons : wholeFrames (msg :: rest) = frame :: wholeFrames rest := by
      simp [wholeFrames, hframe]
    rw [hcons, encodeAll_cons, hencode, List.flatMap_cons, hreceived]
    exact ⟨rfl, List.forall_mem_cons.mpr ⟨hfits, hall⟩⟩

theorem wholeFrames_current (vRecvMsg : List CNetMessage) :
    wholeFrames (currentMessage vRecvMsg).1 = wholeFrames vRecvMsg := by
  rcases List.eq_nil_or_concat' vRecvMsg with rfl | ⟨front, msg, rfl⟩
  · rfl
  · cases h : msg.complete with
    | true => rw [currentMessage_of_complete front h]
    | false => simp [currentMessage_of_incomplete front h, wholeFrames, frame_eq_none h]

theorem Stored.bytes_eq (h : Stored vRecvMsg bytes) :
    bytes = NetFrame.codec.encodeAll (wholeFrames vRecvMsg) ++ (currentMessage vRecvMsg).2.received ∧
      ∀ frame ∈ wholeFrames vRecvMsg, NetFrame.codec.Fits frame := by
  obtain ⟨hfront, hbytes⟩ := h.current
  obtain ⟨hencode, hfits⟩ := encodeAll_wholeFrames fun msg hmsg => (hfront msg hmsg).1
  rw [wholeFrames_current] at hencode hfits
  exact ⟨by rw [hencode]; exact hbytes, hfits⟩

def CNetMessage.ofFrame (frame : NetFrame) (h : NetFrame.codec.Fits frame) : CNetMessage :=
  .inData frame.1 frame.2 h.1 h.2.2 h.2.1.le

theorem CNetMessage.complete_ofFrame {frame : NetFrame} (h : NetFrame.codec.Fits frame) :
    (ofFrame frame h).complete = true := by
  simp only [ofFrame, complete, decide_eq_true_eq]
  exact h.2.1.symm

theorem exists_stored_encodeAll {frames : List NetFrame}
    (h : ∀ frame ∈ frames, NetFrame.codec.Fits frame) :
    ∃ msgs, Stored msgs (NetFrame.codec.encodeAll frames) ∧ ∀ msg ∈ msgs, msg.complete = true := by
  refine ⟨frames.attach.map fun frame => .ofFrame frame.1 (h frame.1 frame.2), ⟨?_, ?_, ?_⟩, ?_⟩
  · have hencode : frames.attach.flatMap (fun frame => NetFrame.codec.encode frame.1) =
        NetFrame.codec.encodeAll frames := by
      rw [encodeAll, List.flatMap_subtype (g := NetFrame.codec.encode) (by simp),
        List.unattach_attach]
    rw [List.flatMap_map, ← hencode]
    rfl
  · intro msg hmsg
    obtain ⟨frame, -, rfl⟩ := List.mem_map.mp (List.dropLast_subset _ hmsg)
    exact complete_ofFrame _
  · intro msg hmsg
    obtain ⟨frame, -, rfl⟩ := List.mem_map.mp hmsg
    exact NetFrame.encode_ne_nil frame.1 (h frame.1 frame.2)
  · intro msg hmsg
    obtain ⟨frame, -, rfl⟩ := List.mem_map.mp hmsg
    exact complete_ofFrame _

theorem CNetMessage.push_eq_none {msg : CNetMessage} {b : UInt8} (hincomplete : msg.complete = false)
    (h : msg.push b = none) :
    ∃ hdr, CMessageHeader.codec.Fits hdr ∧ maxSize < hdr.nMessageSize.toNat ∧
      msg.received ++ [b] = CMessageHeader.codec.encode hdr := by
  cases msg with
  | inHeader hdrbuf hlength =>
    rw [push] at h
    split at h
    · cases h
    next hfull =>
      have hwhole : (hdrbuf ++ [b]).length = CMessageHeader.headerSize := by
        rw [List.length_append, List.length_singleton] at hfull ⊢
        omega
      obtain ⟨hdr, hfits, hencode⟩ := CMessageHeader.exists_decode hwhole
      refine ⟨hdr, hfits, Nat.not_le.mp fun hsize => ?_, hencode.symm⟩
      rw [← hencode, beginData_encode hfits hsize] at h
      cases h
  | inData hdr vRecv hfits hsize hlength =>
    simp only [complete, decide_eq_false_iff_not] at hincomplete
    rw [push, dif_pos (by rw [List.length_append, List.length_singleton]; omega)] at h
    cases h

/-- Bytes are refused if and only if, after some whole messages, a header announces too much. -/
theorem receiveMsgBytes_eq_none_iff : receiveMsgBytes [] bytes = none ↔
    ∃ frames hdr rest, (∀ frame ∈ frames, NetFrame.codec.Fits frame) ∧
      CMessageHeader.codec.Fits hdr ∧ maxSize < hdr.nMessageSize.toNat ∧
        bytes = NetFrame.codec.encodeAll frames ++ (CMessageHeader.codec.encode hdr ++ rest) := by
  rw [receiveMsgBytes_eq]
  constructor
  · intro h
    obtain ⟨before, b, after, msgs, rfl, hbefore, hb⟩ := exists_of_foldlM_eq_none bytes h
    rw [← receiveMsgBytes_eq] at hbefore
    obtain ⟨hbytes, hfits⟩ := (receiveMsgBytes_eq_some_iff.mp hbefore).bytes_eq
    obtain ⟨hdr, hheader, hsize, hencode⟩ :=
      push_eq_none (complete_currentMessage msgs) (Option.map_eq_none_iff.mp hb)
    refine ⟨wholeFrames msgs, hdr, after, hfits, hheader, hsize, ?_⟩
    rw [← hencode, hbytes]
    simp
  · rintro ⟨frames, hdr, rest, hfits, hheader, hsize, rfl⟩
    obtain ⟨msgs, hstored, hcomplete⟩ := exists_stored_encodeAll hfits
    have hcurrent := currentMessage_of_whole hcomplete
    have hlength := CMessageHeader.length_encode hheader
    have hwhole : ([] ++ CMessageHeader.codec.encode hdr).length = CMessageHeader.headerSize := hlength
    have hrefused : fresh.pushAll (CMessageHeader.codec.encode hdr) = none :=
      (pushAll_header _ hwhole).trans (beginData_eq_none hheader hsize)
    have hne := CMessageHeader.encode_ne_nil hheader
    rw [List.foldlM_append, hstored.foldlM_eq]
    change (CMessageHeader.codec.encode hdr ++ rest).foldlM absorbByte msgs = none
    rw [List.foldlM_append, foldlM_absorbByte _ hcurrent hne (steady_inHeader _ hwhole.le), hrefused]
    rfl

/-- In whatever chunks its bytes come, a stream is held as its whole messages and the one that
has been begun, unless one of its headers announces too much: then it is refused. -/
theorem receiveChunks_iff (chunks : List Bytes) :
    (∀ msgs, chunks.foldlM receiveMsgBytes [] = some msgs ↔ Stored msgs chunks.flatten) ∧
      (chunks.foldlM receiveMsgBytes [] = none ↔
        ∃ frames hdr rest, (∀ frame ∈ frames, NetFrame.codec.Fits frame) ∧
          CMessageHeader.codec.Fits hdr ∧ maxSize < hdr.nMessageSize.toNat ∧
            chunks.flatten =
              NetFrame.codec.encodeAll frames ++ (CMessageHeader.codec.encode hdr ++ rest)) := by
  rw [foldlM_receiveMsgBytes]
  exact ⟨fun msgs => receiveMsgBytes_eq_some_iff, receiveMsgBytes_eq_none_iff⟩

end Frames

end Dims
