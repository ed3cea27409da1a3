import Dims.Core
import Dims.StreamFraming

/-!
# Messages between clients and nodes

clientProtocol.h. A message of a client is a header with a kind and an identifier, and a
payload; the answer carries the identifier of the request. Both sides keep what is to be
sent and what has been received in buffers of one size.
-/

namespace Dims
open ByteCodec Serialize Codec

inductive CMainRequestType
  | transaction
  | transactionStatusReq
  | monitorInfoReq
  | trackerInfoReq
  | balanceInfoReq
  | requestSatatusReq
  | networkInfoReq
  | none
  deriving DecidableEq, Repr

/-- The value of an enumerator as the header carries it. -/
def CMainRequestType.toInt (kind : CMainRequestType) : Int32 := Int32.ofNat kind.ctorIdx

inductive TransactionsStatus
  | invalid | validated | unconfirmed | confirmed
  deriving DecidableEq, Repr

structure CClientHeader where
  payloadKind : Int32
  id : Uint256
  deriving DecidableEq

def CClientHeader.codec : Codec CClientHeader :=
  (int32.prod uint256).imap (fun h => (h.payloadKind, h.id)) (fun p => ⟨p.1, p.2⟩) (fun _ => rfl)

structure CClientMessage where
  header : CClientHeader
  payload : Bytes
  deriving DecidableEq

def CClientMessage.codec : Codec CClientMessage :=
  (CClientHeader.codec.prod byteVector).imap (fun m => (m.header, m.payload))
    (fun p => ⟨p.1, p.2⟩) (fun _ => rfl)

namespace CClientMessage

theorem extends_codec : Extends CClientMessage.codec.decode :=
  extends_imap (extends_prod (extends_imap (extends_prod extends_int32 (extends_bitVec 32)) _ _ _)
    extends_byteVector) _ _ _

theorem fits_iff {message : CClientMessage} :
    CClientMessage.codec.Fits message ↔ message.payload.length ≤ maxSize :=
  and_iff_right ⟨int32_fits _, bitVec_fits 32 _⟩

theorem header_length_le (message : CClientMessage) :
    36 + message.payload.length ≤ (CClientMessage.codec.encode message).length := by
  have hkind : (int32.encode message.header.payloadKind).length = 4 := length_leBytes _ _
  have hid : (uint256.encode message.header.id).length = 32 := length_leBytes _ _
  have hencode : CClientMessage.codec.encode message =
      (int32.encode message.header.payloadKind ++ uint256.encode message.header.id) ++
        (writeCompactSize message.payload.length ++ message.payload) := rfl
  rw [hencode]
  simp only [List.length_append, hkind, hid]
  omega

theorem length_encode (message : CClientMessage) :
    message.payload.length < (CClientMessage.codec.encode message).length := by
  have hle := header_length_le message
  omega

theorem encode_ne_nil (message : CClientMessage) : CClientMessage.codec.encode message ≠ [] := by
  intro hnil
  have hlength := length_encode message
  rw [hnil] at hlength
  exact Nat.not_lt_zero _ hlength

end CClientMessage

/-- `MaxBufferSize` -/
def maxBufferSize : ℕ := 2 ^ 14

structure CCommunicationBuffer where
  buffer : ℕ → UInt8
  usedSize : ℕ

namespace CCommunicationBuffer

def front (b : CCommunicationBuffer) (size : ℕ) : Bytes := (List.range size).map b.buffer

/-- `CBufferAsStream::write` into the buffer at a position, where there is room. -/
def fill (b : CCommunicationBuffer) (position : ℕ) (bytes : Bytes) : CCommunicationBuffer :=
  { b with buffer := fun i =>
      if position ≤ i ∧ i < position + bytes.length then bytes.getD (i - position) 0
      else b.buffer i }

variable {b : CCommunicationBuffer} {position : ℕ} {bytes : Bytes}

@[simp] theorem length_front (size : ℕ) : (b.front size).length = size := by
  rw [front, List.length_map, List.length_range]

theorem buffer_fill (i : ℕ) : (b.fill position bytes).buffer i =
    if position ≤ i ∧ i < position + bytes.length then bytes.getD (i - position) 0
    else b.buffer i :=
  rfl

theorem front_fill : (b.fill position bytes).front (position + bytes.length) =
    b.front position ++ bytes := by
  refine List.ext_getElem (by simp) fun i hi hi' => ?_
  simp only [front, List.getElem_map, List.getElem_range, List.getElem_append, buffer_fill]
  rw [length_front] at hi
  by_cases hlt : i < position
  · rw [if_neg fun hand => Nat.not_le_of_lt hlt hand.1, dif_pos (by simpa using hlt)]
  · rw [if_pos ⟨Nat.le_of_not_lt hlt, hi⟩, dif_neg (by simpa using hlt)]
    simp only [List.length_map, List.length_range]
    exact (List.getElem_eq_getD 0).symm

end CCommunicationBuffer

end Dims
