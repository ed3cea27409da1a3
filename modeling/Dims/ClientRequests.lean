import Dims.ClientProtocol
import Dims.OrderedMap
import Dims.OrderedSet
import Dims.StreamFraming

/-!
# The client server of a tracker

tracker/server.cpp and tracker/clientRequestsManager.cpp. The thread of a connection reads
what it has received as a stream of messages, registers the requests and writes the answers
that have come; another thread handles the registered requests, and actions give the
answers that it does not give itself.
-/

namespace Dims
open ByteCodec Serialize

inductive NodeRequests
  | trackerStatsReq
  | monitorInfoReq (monitorPubKey : Uint256)
  | addressBalanceReq (address : Bytes)
  | transactionMessage (transaction : CTransaction)
  | networkInfoReq
  | transactionStatusReq (hash : Uint256)
  deriving DecidableEq

/-- The answers, each by the payload that `createPayload` makes of it. -/
inductive ClientResponse
  | availableCoinsData (payload : Bytes)
  | clientNetworkInfoResult (payload : Bytes)
  | transactionAck (payload : Bytes)
  | transactionStatusResponse (payload : Bytes)
  | trackerSpecificStats (payload : Bytes)
  deriving DecidableEq

/-- `CHandleResponseVisitor` -/
def ClientResponse.message (token : Uint256) : ClientResponse → CClientMessage
  | availableCoinsData payload => ⟨⟨CMainRequestType.balanceInfoReq.toInt, token⟩, payload⟩
  | trackerSpecificStats payload => ⟨⟨CMainRequestType.trackerInfoReq.toInt, token⟩, payload⟩
  | clientNetworkInfoResult payload => ⟨⟨CMainRequestType.networkInfoReq.toInt, token⟩, payload⟩
  | transactionAck payload => ⟨⟨CMainRequestType.transaction.toInt, token⟩, payload⟩
  | transactionStatusResponse payload =>
    ⟨⟨CMainRequestType.transactionStatusReq.toInt, token⟩, payload⟩

@[simp] theorem ClientResponse.id_message (token : Uint256) (response : ClientResponse) :
    (response.message token).header.id = token := by
  cases response <;> rfl

structure CClientRequestsManager where
  getInfoRequest : OrderedMap Uint256 NodeRequests
  infoResponseRecord : OrderedMap Uint256 ClientResponse

namespace CClientRequestsManager

def empty : CClientRequestsManager := ⟨.empty, .empty⟩

def addRequest (m : CClientRequestsManager) (nodeRequest : NodeRequests) (hash : Uint256) :
    CClientRequestsManager :=
  { m with getInfoRequest := m.getInfoRequest.insertNew hash nodeRequest }

/-- An answer is given once. -/
def getResponse (m : CClientRequestsManager) (token : Uint256) :
    Option (ClientResponse × CClientRequestsManager) :=
  (m.infoResponseRecord.lookup token).map fun response =>
    (response, { m with infoResponseRecord := m.infoResponseRecord.erase token })

def setClientResponse (m : CClientRequestsManager) (hash : Uint256) (response : ClientResponse) :
    CClientRequestsManager :=
  { m with infoResponseRecord := m.infoResponseRecord.assign hash response }

end CClientRequestsManager

/-- What the rest of the tracker answers: the record manager, the controller and the nodes
manager. -/
structure RequestSurroundings where
  transactionStatus : Uint256 → Bytes
  trackerStats : Bytes
  networkInfo : Bytes

/-- The request of a message; nothing where the stream throws, and no request where the kind
is unknown. -/
def readRequest (message : CClientMessage) : Option (Option NodeRequests) :=
  let payloadKind := message.header.payloadKind
  if payloadKind = CMainRequestType.transaction.toInt then
    (CTransaction.networkCodec.decode message.payload).map fun p => some (.transactionMessage p.1)
  else if payloadKind = CMainRequestType.trackerInfoReq.toInt then some (some .trackerStatsReq)
  else if payloadKind = CMainRequestType.monitorInfoReq.toInt then some (some (.monitorInfoReq 0))
  else if payloadKind = CMainRequestType.transactionStatusReq.toInt then
    (uint256.decode message.payload).map fun p => some (.transactionStatusReq p.1)
  else if payloadKind = CMainRequestType.balanceInfoReq.toInt then
    (byteVector.decode message.payload).map fun p => some (.addressBalanceReq p.1)
  else if payloadKind = CMainRequestType.networkInfoReq.toInt then some (some .networkInfoReq)
  else some none

inductive ReadOutcome
  | eof
  | unknownKind
  /-- The stream throws. -/
  | failure
  deriving DecidableEq, Repr

/-- The loop over the pull stream, with at least as many steps as there are bytes: the
requests that are registered, and how it ends. -/
def readRequests : ℕ → Bytes → List (Uint256 × NodeRequests) × ReadOutcome
  | _, [] => ([], .eof)
  | 0, _ :: _ => ([], .failure)
  | steps + 1, bytes =>
    match CClientMessage.codec.decode bytes with
    | none => ([], .failure)
    | some (message, rest) =>
      match readRequest message with
      | none => ([], .failure)
      | some none => ([], .unknownKind)
      | some (some request) =>
        let (requests, outcome) := readRequests steps rest
        ((message.header.id, request) :: requests, outcome)

inductive ConnectionStatus
  | running
  | closed
  /-- An exception has left `run`. -/
  | failed
  deriving DecidableEq, Repr

/-- The buffers by the bytes that are in use. -/
structure CTcpServerConnection where
  tokens : OrderedSet Uint256
  pullBuffer : Bytes
  pushBuffer : Bytes
  status : ConnectionStatus

/-- The manager with a connection and its client, the actions that were started, and the
requests that the connection has registered. -/
structure ClientServer where
  manager : CClientRequestsManager
  connection : CTcpServerConnection
  /-- What the client has sent and the server has not received. -/
  incoming : Bytes
  /-- What the client has got. -/
  sent : Bytes
  registered : List (Uint256 × NodeRequests)
  /-- `CGetBalanceAction` with the address and the token. -/
  balanceActions : List (Bytes × Uint256)
  /-- The transactions that were given to `addClientTransaction`. -/
  clientTransactions : List CTransaction

namespace ClientServer

def start (incoming : Bytes) : ClientServer :=
  ⟨.empty, ⟨.empty, [], [], .running⟩, incoming, [], [], [], []⟩

/-- `addRequest`, and the token is inserted. A request with a token that waits already is
not registered. -/
def register (s : ClientServer) (request : Uint256 × NodeRequests) : ClientServer :=
  { s with
    manager := s.manager.addRequest request.2 request.1
    connection := { s.connection with tokens := s.connection.tokens.insert request.1 }
    registered :=
      if (s.manager.getInfoRequest.lookup request.1).isSome then s.registered
      else s.registered ++ [request] }

/-- What the loop over the tokens has written. -/
structure Answering where
  manager : CClientRequestsManager
  pushed : Bytes
  toRemove : List Uint256
  /-- The push stream has thrown. -/
  thrown : Bool

def Answering.answer (a : Answering) (token : Uint256) : Answering :=
  if a.thrown then a
  else
    match a.manager.getResponse token with
    | none => a
    | some (response, manager) =>
      let pushed := a.pushed ++ CClientMessage.codec.encode (response.message token)
      if pushed.length ≤ maxBufferSize then ⟨manager, pushed, a.toRemove ++ [token], false⟩
      else ⟨manager, a.pushed, a.toRemove, true⟩

def fail (s : ClientServer) : ClientServer :=
  { s with connection := { s.connection with status := .failed } }

/-- The buffer is cleared only if all of it was read. -/
def handleIncommingBuffor (s : ClientServer) : ClientServer :=
  let (requests, outcome) :=
    readRequests s.connection.pullBuffer.length s.connection.pullBuffer
  let s := requests.foldl register s
  match outcome with
  | .failure => s.fail
  | .unknownKind => { s with connection := { s.connection with pushBuffer := [] } }
  | .eof =>
    let a := s.connection.tokens.elements.foldl Answering.answer ⟨s.manager, [], [], false⟩
    if a.thrown then { s with manager := a.manager }.fail
    else
      { s with
        manager := a.manager
        connection := { s.connection with
          tokens := a.toRemove.foldl OrderedSet.erase s.connection.tokens
          pullBuffer := []
          pushBuffer := a.pushed } }

/-- `receiveBytes`: at most so many bytes as there are and as the buffer holds. -/
def receive (s : ClientServer) (size : ℕ) : ClientServer :=
  { s with
    connection := { s.connection with pullBuffer := s.incoming.take (min size maxBufferSize) }
    incoming := s.incoming.drop (min size maxBufferSize) }

/-- An iteration of `run`, in which bytes are received or not, and the socket can be written
to or not. -/
def iterate (s : ClientServer) (received : Option ℕ) (writable : Bool) : ClientServer :=
  let s := (received.elim s s.receive).handleIncommingBuffor
  if s.connection.status = .failed then s
  else
    let s := if writable then { s with sent := s.sent ++ s.connection.pushBuffer } else s
    if s.connection.tokens.elements = [] then
      { s with connection := { s.connection with status := .closed } }
    else s

def run (s : ClientServer) (received : Option ℕ) (writable : Bool) : ClientServer :=
  if s.connection.status = .running then s.iterate received writable else s

def answer (s : ClientServer) (token : Uint256) (response : ClientResponse) : ClientServer :=
  { s with manager := s.manager.setClientResponse token response }

/-- `CHandleClientRequestVisitor`; a request for monitor information is not handled. -/
def handleClientRequest (env : RequestSurroundings) (s : ClientServer)
    (request : Uint256 × NodeRequests) : ClientServer :=
  match request.2 with
  | .transactionStatusReq hash =>
    s.answer request.1 (.transactionStatusResponse (env.transactionStatus hash))
  | .trackerStatsReq => s.answer request.1 (.trackerSpecificStats env.trackerStats)
  | .transactionMessage transaction =>
    { s with clientTransactions := s.clientTransactions ++ [transaction] }
  | .addressBalanceReq address =>
    { s with balanceActions := s.balanceActions ++ [(address, request.1)] }
  | .networkInfoReq => s.answer request.1 (.clientNetworkInfoResult env.networkInfo)
  | .monitorInfoReq _ => s

/-- An iteration of `processRequestLoop`. -/
def processRequests (s : ClientServer) (env : RequestSurroundings) : ClientServer :=
  let s := s.manager.getInfoRequest.entries.foldl (handleClientRequest env) s
  { s with manager := { s.manager with getInfoRequest := .empty } }

end ClientServer

/-- A step of the threads of the server, of an action that answers, or of another
connection. -/
inductive ServerEvent
  | run (received : Option ℕ) (writable : Bool)
  | processRequests (env : RequestSurroundings)
  | setClientResponse (token : Uint256) (response : ClientResponse)
  | otherRequest (token : Uint256) (request : NodeRequests)
  | otherResponse (token : Uint256)

namespace ClientServer

def step (s : ClientServer) : ServerEvent → ClientServer
  | .run received writable => s.run received writable
  | .processRequests env => s.processRequests env
  | .setClientResponse token response => s.answer token response
  | .otherRequest token request => { s with manager := s.manager.addRequest request token }
  | .otherResponse token =>
    match s.manager.getResponse token with
    | none => s
    | some (_, manager) => { s with manager := manager }

end ClientServer

end Dims
