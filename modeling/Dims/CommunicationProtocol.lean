import Dims.Key
import Mathlib.Data.Finset.Insert

/-!
# Messages and their signatures

A message is a header and a payload. A forwarded message is the payload of a new
message whose header names the key of the previous signer, so a received message
is a tower of layers. The digest that is signed and checked is `Hash` of the
range from the first to the last byte of the payload, the end excluded; for an
empty payload that range does not exist and the call is undefined.
-/

namespace Dims
open ByteCodec Serialize

inductive CPayloadKind
  | transactions | infoReq | infoRes | introductionReq | introductionRes | roleInfo
  | networkInfo | synchronizationInfo | synchronizationGet | synchronizationBlock
  | synchronizationHeader | uninitiated | ack | get | ackTransactions | statusTransactions
  | message | registrationTerms | result | admitProof | validRegistration | admitAsk
  | ping | pong | balance | clientTransaction | clientStatusTransaction | trackerInfo
  | synchronizationAsk | synchronizationBitcoinHeader | enterNetworkAsk
  | enterNetworkCondition | rankingInfo | fullRankingInfo | extendRegistration
  | activationStatus | transactionsCleanup
  deriving DecidableEq, Repr

/-- The value of an enumerator as the header carries it. -/
def CPayloadKind.toInt (kind : CPayloadKind) : Int32 := Int32.ofNat kind.ctorIdx

structure CHeader where
  payloadKind : Int32
  signedHash : Bytes
  time : Int64
  prevKey : CPubKey
  actionKey : Uint256
  id : Uint256
  deriving DecidableEq

def CHeader.codec : Codec CHeader :=
  (int32.prod (byteVector.prod (int64.prod (CPubKey.codec.prod (uint256.prod uint256))))).imap
    (fun h => (h.payloadKind, h.signedHash, h.time, h.prevKey, h.actionKey, h.id))
    (fun p => ⟨p.1, p.2.1, p.2.2.1, p.2.2.2.1, p.2.2.2.2.1, p.2.2.2.2.2⟩) (fun _ => rfl)

structure CMessage where
  header : CHeader
  payload : Bytes
  deriving DecidableEq

def CMessage.codec : Codec CMessage :=
  (CHeader.codec.prod byteVector).imap (fun m => (m.header, m.payload)) (fun p => ⟨p.1, p.2⟩)
    (fun _ => rfl)

/-- `readPayload` into a message; the stream throws where this is `none`. -/
def readPayload (payload : Bytes) : Option CMessage :=
  (CMessage.codec.decode payload).map Prod.fst

private theorem uint32_decode_length {bs : Bytes} {v : UInt32} {rest : Bytes}
    (h : uint32.decode bs = some (v, rest)) : rest.length + 4 = bs.length := by
  obtain ⟨⟨n, mid⟩, hn, heq⟩ := Option.map_eq_some_iff.mp h
  obtain ⟨⟨w, tail⟩, hw, heq'⟩ := Option.map_eq_some_iff.mp hn
  obtain ⟨rfl, hlen⟩ := takeBytes_spec hw
  cases heq'
  cases heq
  simp only [List.length_append]
  omega

private theorem header_decode_length {bs : Bytes} {h : CHeader} {rest : Bytes}
    (hd : CHeader.codec.decode bs = some (h, rest)) : rest.length < bs.length := by
  obtain ⟨⟨p, mid⟩, hp, heq⟩ := Option.map_eq_some_iff.mp hd
  cases heq
  obtain ⟨⟨kind, afterKind⟩, hkind, htail⟩ := Option.bind_eq_some_iff.mp hp
  obtain ⟨⟨fields, tail⟩, hfields, heq⟩ := Option.map_eq_some_iff.mp htail
  cases heq
  obtain ⟨⟨word, afterWord⟩, hword, heq⟩ := Option.map_eq_some_iff.mp hkind
  cases heq
  have h4 : afterWord.length + 4 = bs.length := uint32_decode_length hword
  have hle : tail.length ≤ afterWord.length := Codec.decode_length_le _ hfields
  show tail.length < bs.length
  omega

/-- An inner message is shorter than the payload it is read from. -/
theorem readPayload_length {payload : Bytes} {m : CMessage} (h : readPayload payload = some m) :
    m.payload.length < payload.length := by
  obtain ⟨⟨m', rest⟩, hdecode, rfl⟩ := Option.map_eq_some_iff.mp h
  obtain ⟨⟨⟨header, body⟩, rest'⟩, hp, heq⟩ := Option.map_eq_some_iff.mp hdecode
  cases heq
  obtain ⟨⟨header', mid⟩, hheader, htail⟩ := Option.bind_eq_some_iff.mp hp
  obtain ⟨⟨body', tail⟩, hbody, heq⟩ := Option.map_eq_some_iff.mp htail
  cases heq
  have hlt : mid.length < payload.length := header_decode_length hheader
  have hle : body'.length + tail.length ≤ mid.length := Codec.bytes_decode_length _ hbody
  show body'.length < payload.length
  omega

/-- The bytes that `Hash( &v.front(), &v.back() )` hashes: the end of the range
is the address of the last byte. -/
def hashedRange (v : Bytes) : Option Bytes := if v = [] then none else some v.dropLast

@[simp] theorem hashedRange_nil : hashedRange [] = none := rfl

theorem hashedRange_of_ne {v : Bytes} (hv : v ≠ []) : hashedRange v = some v.dropLast := if_neg hv

theorem hashedRange_eq_some {v w : Bytes} : hashedRange v = some w ↔ v ≠ [] ∧ v.dropLast = w := by
  by_cases hv : v = []
  · simp [hv]
  · simp [hashedRange_of_ne hv, hv]

def payloadHash (H : HashFunctions) (payload : Bytes) : Option Uint256 :=
  (hashedRange payload).map H.hash

/-- The node's own key with the signing function of its private key. -/
structure CAuthenticationProvider where
  myKey : CPubKey
  sign : Uint256 → Bytes

/-- `CommunicationProtocol::signPayload` -/
def signPayload (H : HashFunctions) (A : CAuthenticationProvider) (payload : Bytes) :
    Option Bytes :=
  (payloadHash H payload).map A.sign

namespace CMessage

def ofPayload (H : HashFunctions) (A : CAuthenticationProvider) (messageKind : Int32)
    (payload : Bytes) (actionKey id : Uint256) (time : Int64) : Option CMessage :=
  (signPayload H A payload).map fun signedHash =>
    ⟨⟨messageKind, signedHash, time, .invalid, actionKey, id⟩, payload⟩

/-- The message that forwards another one, received under `prevKey`. -/
def wrap (H : HashFunctions) (A : CAuthenticationProvider) (message : CMessage)
    (prevKey : CPubKey) (actionKey id : Uint256) (time : Int64) : Option CMessage :=
  (signPayload H A (codec.encode message)).map fun signedHash =>
    ⟨⟨message.header.payloadKind, signedHash, time, prevKey, actionKey, id⟩, codec.encode message⟩

end CMessage

section Unwind

variable (H : HashFunctions) (S : SignatureScheme)

/-- The signature of a layer checked over that layer's payload. -/
def verifyPayload (pubKey : CPubKey) (message : CMessage) : Option Bool :=
  (payloadHash H message.payload).map fun messageHash =>
    S.verify pubKey messageHash message.header.signedHash

/-- The check one layer goes through: none for an introduction request. -/
def checkLayer (pubKey : CPubKey) (message : CMessage) : Option Bool :=
  if message.header.payloadKind ≠ CPayloadKind.introductionReq.toInt then
    verifyPayload H S pubKey message
  else some true

/-- What an unwinding call leaves: its result, the message it assigned on
success and the participants collected on the way. -/
structure Unwound where
  result : Bool
  originalMessage : Option CMessage
  participants : Finset CPubKey

/-- `unwindMessage`. No value where a digest is undefined or the stream throws;
the comparison of the two times guards no statement. -/
def unwindMessage (message : CMessage) (pubKey : CPubKey) : Option (Option CMessage) :=
  (checkLayer H S pubKey message).bind fun passed =>
    if passed then
      if message.header.prevKey.isValid then
        match _h : readPayload message.payload with
        | none => none
        | some inner => unwindMessage inner message.header.prevKey
      else some (some message)
    else some none
termination_by message.payload.length
decreasing_by exact readPayload_length _h

/-- `unwindMessageAndParticipants` -/
def unwindMessageAndParticipants (message : CMessage) (pubKey : CPubKey)
    (participants : Finset CPubKey) : Option Unwound :=
  (checkLayer H S pubKey message).bind fun passed =>
    if passed then
      if message.header.prevKey.isValid then
        match _h : readPayload message.payload with
        | none => none
        | some inner =>
          unwindMessageAndParticipants inner message.header.prevKey (insert pubKey participants)
      else some ⟨true, some message, insert pubKey participants⟩
    else some ⟨false, none, participants⟩
termination_by message.payload.length
decreasing_by exact readPayload_length _h

end Unwind

end Dims
