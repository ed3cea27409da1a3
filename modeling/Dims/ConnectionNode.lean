import Dims.MessageFraming
import Dims.CommunicationProtocol

/-!
# A node and its connection

What a node sends is kept as whole messages until the socket has taken their bytes. What
comes is handed on one message of the command "dims" at a time, as the vector of messages
that it holds.
-/

namespace Dims
open ByteCodec Serialize Codec

/-- What all nodes of a network have in common. -/
structure CConnectionParams where
  hashes : HashFunctions
  /-- `Params().MessageStart()` -/
  messageStart : Bytes
  length_messageStart : messageStart.length = 4
  /-- `SendBufferSize()` -/
  sendBufferSize : ℕ
  /-- `ReceiveFloodSize()` -/
  receiveFloodSize : ℕ

/-- What a socket does with the calls of `send` until the next one: how many bytes it takes,
and whether the call after them fails; then whether the lock on the received messages is free. -/
structure CSocketRoom where
  room : ℕ
  fails : Bool
  lockRecv : Bool

structure CNode where
  /-- `hSocket` is not `INVALID_SOCKET`. -/
  hSocket : Bool
  ssSend : Bytes
  nSendSize : ℕ
  nSendOffset : ℕ
  vSendMsg : List Bytes
  vRecvMsg : List CNetMessage
  fDisconnect : Bool

/-- The first bytes of the hash, as they stand in memory. -/
def checksum (H : HashFunctions) (data : Bytes) : UInt32 := .ofNat (H.hash data).toNat

/-- `memcpy` into a buffer. -/
def overwrite (buffer : Bytes) (offset : ℕ) (w : Bytes) : Bytes :=
  buffer.take offset ++ w ++ buffer.drop (offset + w.length)

namespace CNode

def start : CNode := ⟨true, [], 0, 0, [], [], false⟩

def closeSocketDisconnect (lockRecv : Bool) (node : CNode) : CNode := { node with
  fDisconnect := true
  hSocket := false
  vRecvMsg := if lockRecv then [] else node.vRecvMsg }

/-- What the loop of `SocketSendData` has done. -/
structure SendLoop where
  sent : Bytes
  vSendMsg : List Bytes
  nSendOffset : ℕ
  nSendSize : ℕ
  /-- The last call of `send` has taken nothing. -/
  stuck : Bool

/-- The loop of `SocketSendData`; `none` where an assertion fails. -/
def sendLoop (room : ℕ) : List Bytes → ℕ → ℕ → Option SendLoop
  | [], nSendOffset, nSendSize =>
    if nSendOffset = 0 ∧ nSendSize = 0 then some ⟨[], [], nSendOffset, nSendSize, false⟩ else none
  | data :: rest, nSendOffset, nSendSize =>
    if data.length ≤ nSendOffset then none
    else if room = 0 then some ⟨[], data :: rest, nSendOffset, nSendSize, true⟩
    else if (data.drop nSendOffset).length ≤ room then
      (sendLoop (room - (data.drop nSendOffset).length) rest 0 (nSendSize - data.length)).map
        fun r => { r with sent := data.drop nSendOffset ++ r.sent }
    else
      some ⟨(data.drop nSendOffset).take room, data :: rest, nSendOffset + room, nSendSize, false⟩

/-- `SocketSendData`: the bytes that the socket has taken, and the node. -/
def socketSendData (os : CSocketRoom) (node : CNode) : Option (Bytes × CNode) :=
  (sendLoop (if node.hSocket then os.room else 0) node.vSendMsg node.nSendOffset
    node.nSendSize).map fun r =>
      let after := { node with
        vSendMsg := r.vSendMsg
        nSendOffset := r.nSendOffset
        nSendSize := r.nSendSize }
      (r.sent, if r.stuck ∧ (os.fails ∨ !node.hSocket) then
        after.closeSocketDisconnect os.lockRecv else after)

variable (P : CConnectionParams)

def beginMessage (pszCommand : Bytes) (node : CNode) : Option CNode :=
  if node.ssSend = [] then
    some { node with
      ssSend := CMessageHeader.codec.encode
        ⟨P.messageStart, CMessageHeader.padCommand pszCommand, 0, 0⟩ }
  else none

/-- `ssSend` with the size and the checksum. -/
def sealMessage (ssSend : Bytes) : Bytes :=
  let data := ssSend.drop CMessageHeader.headerSize
  let sized := overwrite ssSend 16
    (leBytes 4 (UInt32.ofNat (ssSend.length - CMessageHeader.headerSize)).toNat)
  overwrite sized 20 (leBytes 4 (checksum P.hashes data).toNat)

/-- `EndMessage`: the message is queued, and sent at once if nothing else waits. -/
def endMessage (os : CSocketRoom) (node : CNode) : Option (Bytes × CNode) :=
  if node.ssSend = [] then some ([], node)
  else
    let message := sealMessage P node.ssSend
    let queued := { node with
      ssSend := []
      vSendMsg := node.vSendMsg ++ [message]
      nSendSize := node.nSendSize + message.length }
    if node.vSendMsg = [] then queued.socketSendData os else some ([], queued)

def pushMessage (pszCommand payload : Bytes) (os : CSocketRoom) (node : CNode) :
    Option (Bytes × CNode) :=
  (node.beginMessage P pszCommand).bind fun begun =>
    endMessage P os { begun with ssSend := begun.ssSend ++ payload }

end CNode

/-- How the body of the loop over the messages ends: it goes on with the next message, or
returns, or throws `std::ios_base::failure` or something else. -/
inductive CBodyEnd
  | goesOn
  | returns
  | fails
  | throws
  deriving DecidableEq

def commandDims : Bytes := [100, 105, 109, 115]

def commandVersion : Bytes := [118, 101, 114, 115, 105, 111, 110]

def commandReject : Bytes := [114, 101, 106, 101, 99, 116]

/-- "error parsing message" -/
def rejectReason : Bytes :=
  [101, 114, 114, 111, 114, 32, 112, 97, 114, 115, 105, 110, 103, 32, 109, 101, 115, 115, 97, 103, 101]

/-- The command that is rejected, `REJECT_MALFORMED` and the reason. -/
def rejectPayload : Bytes :=
  byteVector.encode commandDims ++ 1 :: byteVector.encode rejectReason

namespace CNode

/-- What has been done with the data of a message: the messages read from it, those with which
the loop has gone on, and whether `std::ios_base::failure` has been thrown. -/
structure Processed where
  read : List CMessage
  dispatched : List CMessage
  failed : Bool

def dispatchLoop (body : CMessage → CBodyEnd) : List CMessage → List CMessage × Bool
  | [] => ([], false)
  | message :: rest =>
    match body message with
    | .goesOn => (message :: (dispatchLoop body rest).1, (dispatchLoop body rest).2)
    | .returns => ([], false)
    | .fails => ([], true)
    | .throws => ([], false)

/-- `processMessage` of a tracker or a monitor. -/
def processMessage (body : CMessage → CBodyEnd) (vRecv : Bytes) : Processed :=
  match (vector CMessage.codec).decode vRecv with
  | none => ⟨[], [], true⟩
  | some (messages, _) =>
    ⟨messages, (dispatchLoop body messages).1, (dispatchLoop body messages).2⟩

variable (P : CConnectionParams)

/-- The loop of `processMessages`: what it returns, the data of the message that it hands on, and
the messages that are left. -/
def processLoop : List CNetMessage → Bool × Option Bytes × List CNetMessage
  | [] => (true, none, [])
  | msg :: rest =>
    match msg.frame with
    | none => (true, none, msg :: rest)
    | some (hdr, vRecv) =>
      if hdr.pchMessageStart ≠ P.messageStart then (false, none, rest)
      else if !hdr.isValid P.messageStart then processLoop rest
      else if checksum P.hashes vRecv ≠ hdr.nChecksum then processLoop rest
      else if hdr.getCommand ≠ commandDims then processLoop rest
      else (true, some vRecv, rest)

/-- What `processMessages` gives: the bytes that the socket has taken, the node, what has been
done with the data and what is returned. -/
structure ProcessedMessages where
  sent : Bytes
  node : CNode
  processed : Processed
  fOk : Bool

/-- `CManageNetwork::processMessages`, which holds the lock on the received messages. -/
def processMessages (body : CMessage → CBodyEnd) (os : CSocketRoom) (node : CNode) :
    Option ProcessedMessages :=
  if node.fDisconnect ∨ P.sendBufferSize ≤ node.nSendSize then
    some ⟨[], node, ⟨[], [], false⟩, true⟩
  else
    match processLoop P node.vRecvMsg with
    | (fOk, none, left) => some ⟨[], { node with vRecvMsg := left }, ⟨[], [], false⟩, fOk⟩
    | (fOk, some vRecv, left) =>
      let processed := processMessage body vRecv
      if processed.failed then
        (node.pushMessage P commandReject rejectPayload { os with lockRecv := true }).map fun p =>
          ⟨p.1, if p.2.fDisconnect then p.2 else { p.2 with vRecvMsg := left }, processed, fOk⟩
      else some ⟨[], { node with vRecvMsg := left }, processed, fOk⟩

end CNode

/-- The thread of the sockets: what `recv` has given is taken, or the socket is closed. -/
def CNode.receive (pchBuf : Bytes) (node : CNode) : CNode :=
  if node.hSocket then
    match receiveMsgBytes node.vRecvMsg pchBuf with
    | some vRecvMsg => { node with vRecvMsg := vRecvMsg }
    | none => node.closeSocketDisconnect true
  else node

/-- The thread of the messages, where it has the lock. -/
def CNode.handleMessages (P : CConnectionParams) (body : CMessage → CBodyEnd) (os : CSocketRoom)
    (node : CNode) : Option CNode.ProcessedMessages :=
  (node.processMessages P body os).map fun p =>
    if p.fOk then p else { p with node := p.node.closeSocketDisconnect true }

structure CSelfNode extends CNode where
  messagesToSend : List CMessage

namespace CSelfNode

def start : CSelfNode := ⟨.start, []⟩

def setMessageToSend (message : CMessage) (node : CSelfNode) : CSelfNode :=
  { node with messagesToSend := node.messagesToSend ++ [message] }

def sendMessages (P : CConnectionParams) (os : CSocketRoom) (node : CSelfNode) :
    Option (Bytes × CSelfNode) :=
  if node.messagesToSend = [] then some ([], node)
  else
    (node.toCNode.pushMessage P commandDims ((vector CMessage.codec).encode node.messagesToSend)
      os).map fun p => (p.1, ⟨p.2, []⟩)

inductive Event
  | setMessageToSend (message : CMessage)
  | sendMessages (os : CSocketRoom)
  | pushVersion (payload : Bytes) (os : CSocketRoom)
  | socketSendData (os : CSocketRoom)
  | receive (pchBuf : Bytes)
  | processMessages (body : CMessage → CBodyEnd) (os : CSocketRoom)
  | closeSocketDisconnect (lockRecv : Bool)
  /-- `fDisconnect` is set, by the medium of the node or by an action. -/
  | disconnect

/-- The messages that an event gives to the node to send. -/
def Event.given : Event → List CMessage
  | .setMessageToSend message => [message]
  | _ => []

/-- The bytes that an event takes from the socket. -/
def Event.received : Event → Bytes
  | .receive pchBuf => pchBuf
  | _ => []

/-- The node after an event, the bytes that the socket has taken, the messages that have been
read, and those with which the loop over them has gone on. -/
structure Outcome where
  node : CSelfNode
  sent : Bytes
  read : List CMessage
  dispatched : List CMessage

/-- What an event does; no outcome where an assertion fails. -/
def act (P : CConnectionParams) (node : CSelfNode) : Event → Option Outcome
  | .setMessageToSend message => some ⟨node.setMessageToSend message, [], [], []⟩
  | .sendMessages os => (node.sendMessages P os).map fun p => ⟨p.2, p.1, [], []⟩
  | .pushVersion payload os => (node.toCNode.pushMessage P commandVersion payload os).map
      fun p => ⟨⟨p.2, node.messagesToSend⟩, p.1, [], []⟩
  | .socketSendData os => (node.toCNode.socketSendData os).map
      fun p => ⟨⟨p.2, node.messagesToSend⟩, p.1, [], []⟩
  | .receive pchBuf => some ⟨⟨node.toCNode.receive pchBuf, node.messagesToSend⟩, [], [], []⟩
  | .processMessages body os => (node.toCNode.handleMessages P body os).map
      fun p => ⟨⟨p.node, node.messagesToSend⟩, p.sent, p.processed.read, p.processed.dispatched⟩
  | .closeSocketDisconnect lockRecv =>
    some ⟨⟨node.toCNode.closeSocketDisconnect lockRecv, node.messagesToSend⟩, [], [], []⟩
  | .disconnect => some ⟨{ node with fDisconnect := true }, [], [], []⟩

end CSelfNode

end Dims
