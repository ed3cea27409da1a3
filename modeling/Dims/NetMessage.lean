import Dims.FrameStreams
import Dims.ChunkedReader
import Dims.Core

/-!
# The messages of a connection

A message is a header of 24 bytes, which says how many bytes of data follow it, and the
data. A connection hands over the bytes of its messages in chunks of any size.
-/

namespace Dims
open ByteCodec Serialize Codec ChunkedReader

structure CMessageHeader where
  pchMessageStart : Bytes
  pchCommand : Bytes
  nMessageSize : UInt32
  nChecksum : UInt32
  deriving DecidableEq

namespace CMessageHeader

/-- `COMMAND_SIZE` -/
def commandSize : ℕ := 12

/-- `HEADER_SIZE` -/
def headerSize : ℕ := 24

/-- `GetCommand`: the command ends with the first zero, if there is one at the end. -/
def getCommand (hdr : CMessageHeader) : Bytes :=
  if hdr.pchCommand.getLast? = some 0 then hdr.pchCommand.takeWhile (· ≠ 0) else hdr.pchCommand

/-- Printable characters, and only zeros after the first zero. -/
def validCommand : Bytes → Bool
  | [] => true
  | b :: rest =>
    if b = 0 then rest.all (· = 0)
    else if b < 0x20 ∨ 0x7e < b then false
    else validCommand rest

def isValid (messageStart : Bytes) (hdr : CMessageHeader) : Bool :=
  hdr.pchMessageStart = messageStart ∧ validCommand hdr.pchCommand ∧
    hdr.nMessageSize.toNat ≤ maxSize

/-- `strncpy` of the command: cut at its size, filled with zeros. -/
def padCommand (pszCommand : Bytes) : Bytes :=
  (pszCommand ++ List.replicate commandSize 0).take commandSize

def codec : Codec CMessageHeader :=
  ((flat 4).prod ((flat commandSize).prod (uint32.prod uint32))).imap
    (fun h => (h.pchMessageStart, h.pchCommand, h.nMessageSize, h.nChecksum))
    (fun p => ⟨p.1, p.2.1, p.2.2.1, p.2.2.2⟩) (fun _ => rfl)

theorem fits_iff {hdr : CMessageHeader} : codec.Fits hdr ↔
    hdr.pchMessageStart.length = 4 ∧ hdr.pchCommand.length = commandSize := by
  constructor
  · rintro ⟨hstart, hcommand, -⟩
    exact ⟨hstart, hcommand⟩
  · rintro ⟨hstart, hcommand⟩
    exact ⟨hstart, hcommand, uint32_fits _, uint32_fits _⟩

theorem sound_codec : codec.Sound :=
  sound_imap (sound_prod (sound_flat 4) (sound_prod (sound_flat _)
    (sound_prod sound_uint32 sound_uint32))) _ _ _ fun _ _ => rfl

theorem extends_codec : Extends codec.decode :=
  extends_imap (extends_prod (extends_flat 4) (extends_prod (extends_flat _)
    (extends_prod extends_uint32 extends_uint32))) _ _ _

theorem encode_eq (hdr : CMessageHeader) : codec.encode hdr =
    hdr.pchMessageStart ++ (hdr.pchCommand ++ (leBytes 4 hdr.nMessageSize.toNat ++
      leBytes 4 hdr.nChecksum.toNat)) := rfl

theorem length_encode {hdr : CMessageHeader} (h : codec.Fits hdr) :
    (codec.encode hdr).length = headerSize := by
  obtain ⟨hstart, hcommand⟩ := fits_iff.mp h
  simp [encode_eq, hstart, hcommand, commandSize, headerSize]

theorem encode_ne_nil {hdr : CMessageHeader} (h : codec.Fits hdr) : codec.encode hdr ≠ [] := by
  intro hnil
  have hlength := length_encode h
  rw [hnil] at hlength
  cases hlength

theorem length_padCommand (pszCommand : Bytes) : (padCommand pszCommand).length = commandSize := by
  simp [padCommand]

theorem exists_decode {bs : Bytes} (h : bs.length = headerSize) :
    ∃ hdr, codec.Fits hdr ∧ codec.encode hdr = bs := by
  set size := (bs.drop 16).take 4 with hsize
  set checksum := bs.drop 20 with hchecksum
  have hbs : bs = bs.take 4 ++ ((bs.drop 4).take 12 ++ (size ++ checksum)) := by
    rw [hsize, hchecksum]
    have h16 : bs.drop 16 = (bs.drop 16).take 4 ++ bs.drop 20 := by
      simpa using (List.take_append_drop 4 (bs.drop 16)).symm
    have h4 : bs.drop 4 = (bs.drop 4).take 12 ++ bs.drop 16 := by
      simpa using (List.take_append_drop 12 (bs.drop 4)).symm
    rw [← h16, ← h4, List.take_append_drop]
  have hword : ∀ w : Bytes, w.length = 4 → leBytes 4 (UInt32.ofNat (leValue w)).toNat = w := by
    intro w hw
    have hlt := leValue_lt w
    rw [hw] at hlt
    rw [UInt32.toNat_ofNat_of_lt' (by simpa using hlt), ← hw, leBytes_leValue]
  have hsize4 : size.length = 4 := by simp [hsize, h, headerSize]
  have hchecksum4 : checksum.length = 4 := by simp [hchecksum, h, headerSize]
  refine ⟨⟨bs.take 4, (bs.drop 4).take 12, .ofNat (leValue size), .ofNat (leValue checksum)⟩,
    fits_iff.mpr ⟨by simp [h, headerSize], by simp [h, headerSize, commandSize]⟩, ?_⟩
  rw [encode_eq, hword size hsize4, hword checksum hchecksum4]
  exact hbs.symm

end CMessageHeader

/-- A message of which some bytes have come: of its header, or all of its header, which does
not announce too much, and some of its data. -/
inductive CNetMessage
  | inHeader (hdrbuf : Bytes) (hlength : hdrbuf.length < CMessageHeader.headerSize)
  | inData (hdr : CMessageHeader) (vRecv : Bytes) (hfits : CMessageHeader.codec.Fits hdr)
      (hsize : hdr.nMessageSize.toNat ≤ maxSize) (hlength : vRecv.length ≤ hdr.nMessageSize.toNat)

namespace CNetMessage

/-- The message that the constructor makes. -/
def fresh : CNetMessage := .inHeader [] (by decide)

def complete : CNetMessage → Bool
  | .inHeader _ _ => false
  | .inData hdr vRecv _ _ _ => hdr.nMessageSize.toNat = vRecv.length

/-- The header has come: it is read, and a message that is too large is refused. -/
def beginData (hdrbuf : Bytes) : Option CNetMessage :=
  match h : CMessageHeader.codec.decode hdrbuf with
  | none => none
  | some (hdr, _) =>
    if hsize : hdr.nMessageSize.toNat ≤ maxSize then
      some (.inData hdr [] (CMessageHeader.sound_codec h).1 hsize (Nat.zero_le _))
    else none

/-- How many bytes are taken, and the message with them; `none` where the source gives -1. -/
def readHeader (hdrbuf : Bytes) (pch : Bytes) : Option (ℕ × CNetMessage) :=
  let nCopy := min (CMessageHeader.headerSize - hdrbuf.length) pch.length
  if h : (hdrbuf ++ pch.take nCopy).length < CMessageHeader.headerSize then
    some (nCopy, .inHeader (hdrbuf ++ pch.take nCopy) h)
  else (beginData (hdrbuf ++ pch.take nCopy)).map fun msg => (nCopy, msg)

theorem length_append_take {hdr : CMessageHeader} {vRecv : Bytes}
    (h : vRecv.length ≤ hdr.nMessageSize.toNat) (pch : Bytes) :
    (vRecv ++ pch.take (min (hdr.nMessageSize.toNat - vRecv.length) pch.length)).length ≤
      hdr.nMessageSize.toNat := by
  simp only [List.length_append, List.length_take]
  omega

/-- `readHeader` or `readData` -/
def read (pch : Bytes) : CNetMessage → Option (ℕ × CNetMessage)
  | .inHeader hdrbuf _ => readHeader hdrbuf pch
  | .inData hdr vRecv hfits hsize hlength =>
    let nCopy := min (hdr.nMessageSize.toNat - vRecv.length) pch.length
    some (nCopy, .inData hdr (vRecv ++ pch.take nCopy) hfits hsize (length_append_take hlength pch))

/-- `vRecv.size() + 24` -/
def recvSize : CNetMessage → ℕ
  | .inHeader _ _ => CMessageHeader.headerSize
  | .inData hdr _ _ _ _ => hdr.nMessageSize.toNat + CMessageHeader.headerSize

def received : CNetMessage → Bytes
  | .inHeader hdrbuf _ => hdrbuf
  | .inData hdr vRecv _ _ _ => CMessageHeader.codec.encode hdr ++ vRecv

end CNetMessage

/-- The messages without the last one if that is not complete, and that one or a new one. -/
def currentMessage (vRecvMsg : List CNetMessage) : List CNetMessage × CNetMessage :=
  match vRecvMsg.getLast? with
  | none => (vRecvMsg, .fresh)
  | some msg => if msg.complete then (vRecvMsg, .fresh) else (vRecvMsg.dropLast, msg)

/-- The body of the loop of `ReceiveMsgBytes`. -/
def absorb (vRecvMsg : List CNetMessage) (pch : Bytes) : Option (ℕ × List CNetMessage) :=
  ((currentMessage vRecvMsg).2.read pch).map fun p =>
    (p.1, (currentMessage vRecvMsg).1 ++ [p.2])

/-- `CNode::ReceiveMsgBytes`; `none` where it returns false. -/
def receiveMsgBytes (vRecvMsg : List CNetMessage) (pch : Bytes) : Option (List CNetMessage) :=
  readChunk absorb vRecvMsg pch

/-- `CNode::GetTotalRecvSize` -/
def getTotalRecvSize (vRecvMsg : List CNetMessage) : ℕ := (vRecvMsg.map CNetMessage.recvSize).sum

end Dims
