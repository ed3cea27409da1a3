import Dims.SignedPayload

/-!
# The handshake of a tracker

The state machine of connectNodeAction.cpp. The active side sends a random payload
with its identification and waits for the peer's; the passive side answers the
identification it has received. What the action tells the nodes manager and the
controller is kept as the list of its calls. Requests stay listed also where the
source forgets them.
-/

namespace Dims
open ByteCodec Serialize

inductive CRole
  | tracker | seed | monitor
  deriving DecidableEq, Repr

def CRole.toInt (role : CRole) : Int32 := Int32.ofNat role.ctorIdx

inductive CInfoKind
  | networkInfoAsk | roleInfoAsk | isRegistered | storageInfoAsk | bitcoinHeaderAsk | balanceAsk
  | rankingAsk | trackerInfo | enterConditionAsk | registrationTermsAsk | clientTrasactionStatus
  | isAddmited | rankingFullInfo
  deriving DecidableEq, Repr

def CInfoKind.toInt (kind : CInfoKind) : Int32 := Int32.ofNat kind.ctorIdx

structure CKnownNetworkInfo where
  trackersInfo : Finset CValidNodeInfo
  monitorsInfo : Finset CValidNodeInfo

/-- `convertPayload` into a `CInfoRequestData`: the kind and the payload. -/
def readInfoRequest (payload : Bytes) : Option (Int32 × Bytes) :=
  ((int32.prod byteVector).decode payload).map Prod.fst

/-- `convertPayload` into a `CNetworkRole` -/
def readNetworkRole (payload : Bytes) : Option Int32 := (int32.decode payload).map Prod.fst

/-- `convertPayload` into a `CKnownNetworkInfo` -/
def readKnownNetworkInfo (payload : Bytes) : Option CKnownNetworkInfo :=
  (((vector CValidNodeInfo.codec).prod (vector CValidNodeInfo.codec)).decode payload).map
    fun p => ⟨p.1.1.toFinset, p.1.2.toFinset⟩

inductive ConnectNodeRequest
  | connectToTracker (nodeAddress : String) (serviceAddress : CAddress)
  | sendIdentifyData (identify : CIdentifyMessage) (node : UInt64)
  | infoRequest (kind : CInfoKind) (node : UInt64)
  | roleInfo (role : CRole) (respondsTo : Uint256) (node : UInt64)
  | networkInfo (info : CKnownNetworkInfo) (respondsTo : Uint256) (node : UInt64)
  | ack (id : Uint256) (node : UInt64)
  | timeEvent (time : ℕ)

/-- The calls of the nodes manager and the event for the controller. -/
inductive NodesManagerCall
  | addNode (node : UInt64)
  | setPublicKey (address : CAddress) (pubKey : CPubKey)
  | setNodeInfo (validNodeInfo : CValidNodeInfo) (role : Int32)
  | setKeyToNode (pubKey : CPubKey) (node : UInt64)
  | setActiveNode (idKey : CKeyID)
  | connectedToTracker

inductive ConnectNodeResult
  | failure (serviceAddress : CAddress)
  | networkInfo (nodeSelfInfo : CValidNodeInfo) (role : Int32) (known : CKnownNetworkInfo)

inductive ConnectNodeEvent
  | nodeConnected (node : UInt64) (addr : CAddress)
  | cantReachNode
  | identificationResult (identify : CIdentifyMessage) (address : CAddress) (id : Uint256)
  | messageResult (message : CMessage)
  | ack
  | timeEvent

inductive ConnectNodeState
  | unconnected
  | bothUnidentifiedConnecting
  | pairIdentifiedConnecting
  | determineRoleConnecting
  | bothUnidentifiedConnected
  | determineRoleConnected
  | cantReachNode
  | connectedToSeed
  | getNetworkInfo (infoSend infoReceive : Bool)
  | stop
  deriving DecidableEq

structure CConnectNodeAction where
  state : ConnectNodeState
  nodeAddress : String
  payload : Bytes
  passive : Bool
  addrConnect : CAddress
  key : CPubKey
  nodePtr : UInt64
  role : Int32
  requests : List ConnectNodeRequest
  calls : List NodesManagerCall
  result : Option ConnectNodeResult
  exit : Bool

/-- The cryptography with the own key, and the nodes that the nodes manager knows
for a role. -/
structure HandshakeContext where
  hashes : HashFunctions
  signatures : SignatureScheme
  authenticationProvider : CAuthenticationProvider
  nodesInfo : CRole → Finset CValidNodeInfo

namespace CConnectNodeAction

def trackerLoopTime : ℕ := 20000

def seedLoopTime : ℕ := 25000

def monitorLoopTime : ℕ := 20000

def addRequests (a : CConnectNodeAction) (requests : List ConnectNodeRequest) :
    CConnectNodeAction :=
  { a with requests := a.requests ++ requests }

def addCalls (a : CConnectNodeAction) (calls : List NodesManagerCall) : CConnectNodeAction :=
  { a with calls := a.calls ++ calls }

def validNodeInfo (a : CConnectNodeAction) : CValidNodeInfo := ⟨a.key, a.addrConnect⟩

section Start

/-- An action that connects, by an address or a name, with its random payload. The
memory of the node pointer and of the role is not initialized. -/
def connecting (nodeAddress : String) (addrConnect : CAddress) (payload : Bytes)
    (nodePtr : UInt64) (role : Int32) : CConnectNodeAction :=
  ⟨.unconnected, nodeAddress, payload, false, addrConnect, .invalid, nodePtr, role,
    [.connectToTracker nodeAddress addrConnect], [], none, false⟩

/-- The action of the side that was connected to, which has no payload. -/
def connected (addrConnect : CAddress) (nodePtr : UInt64) (role : Int32) : CConnectNodeAction :=
  ⟨.bothUnidentifiedConnected, "", [], true, addrConnect, .invalid, nodePtr, role, [], [], none,
    false⟩

inductive Started : CConnectNodeAction → Prop
  | connecting (nodeAddress : String) (addrConnect : CAddress) (payload : Bytes)
      (nodePtr : UInt64) (role : Int32) :
      Started (connecting nodeAddress addrConnect payload nodePtr role)
  | connected (addrConnect : CAddress) (nodePtr : UInt64) (role : Int32) :
      Started (connected addrConnect nodePtr role)

end Start

variable (env : HandshakeContext)

section Entering

/-- No value where the digest of an empty payload is taken. -/
def enterBothUnidentifiedConnecting (a : CConnectNodeAction) (node : UInt64) (addr : CAddress) :
    Option CConnectNodeAction :=
  (createIdentifyResponse env.hashes env.authenticationProvider a.payload).map fun identify =>
    { (a.addCalls [.addNode node]).addRequests
        [.sendIdentifyData identify node, .timeEvent trackerLoopTime] with
      state := .bothUnidentifiedConnecting
      nodePtr := node
      addrConnect := addr }

def enterPairIdentifiedConnecting (a : CConnectNodeAction) : CConnectNodeAction :=
  { a.addRequests [.timeEvent trackerLoopTime] with state := .pairIdentifiedConnecting }

def enterDetermineRoleConnecting (a : CConnectNodeAction) : CConnectNodeAction :=
  { a.addRequests [.infoRequest .roleInfoAsk a.nodePtr, .timeEvent trackerLoopTime] with
    state := .determineRoleConnecting }

def enterCantReachNode (a : CConnectNodeAction) : CConnectNodeAction :=
  { a with
    state := .cantReachNode
    result := some (.failure a.addrConnect)
    exit := true }

def enterConnectedToSeed (a : CConnectNodeAction) : CConnectNodeAction :=
  { (a.addCalls [.setNodeInfo a.validNodeInfo CRole.seed.toInt]).addRequests
      [.timeEvent seedLoopTime] with state := .connectedToSeed }

def enterGetNetworkInfo (a : CConnectNodeAction) : CConnectNodeAction :=
  { (a.addCalls [.setNodeInfo a.validNodeInfo a.role, .setKeyToNode a.key a.nodePtr,
        .setActiveNode (a.key.getID env.hashes)]).addRequests
      [.infoRequest .networkInfoAsk a.nodePtr, .timeEvent monitorLoopTime] with
    state := .getNetworkInfo false false }

/-- The switch over the role of the pair. -/
def enterByRole (a : CConnectNodeAction) (role : Int32) : CConnectNodeAction :=
  if role = CRole.tracker.toInt then (a.addCalls [.connectedToTracker]).enterGetNetworkInfo env
  else if role = CRole.seed.toInt then a.enterConnectedToSeed
  else if role = CRole.monitor.toInt then a.enterGetNetworkInfo env
  else a

def enterStop (a : CConnectNodeAction) : CConnectNodeAction :=
  { a with state := .stop, exit := true }

end Entering

section Reactions

/-- The pair has proved its key: it is stored for the address of the pair. -/
def identified (a : CConnectNodeAction) (identify : CIdentifyMessage) (id : Uint256) :
    CConnectNodeAction :=
  { (a.addCalls [.setPublicKey a.addrConnect identify.key]).addRequests [.ack id a.nodePtr] with
    key := identify.key }

/-- The innermost layer of a message of the pair, asserted to unwind. -/
def unwound (a : CConnectNodeAction) (message : CMessage) : Option CMessage :=
  (unwindMessage env.hashes env.signatures message a.key).bind id

/-- The pair asks for the own role. -/
def answerRole (a : CConnectNodeAction) (message original : CMessage) :
    Option CConnectNodeAction :=
  (readInfoRequest original.payload).bind fun infoRequest =>
    if infoRequest.1 = CInfoKind.roleInfoAsk.toInt then
      some (a.addRequests [.roleInfo .tracker message.header.id a.nodePtr])
    else none

/-- The pair asks for the known nodes. -/
def answerNetworkInfo (a : CConnectNodeAction) (message original : CMessage) :
    Option CConnectNodeAction :=
  (readInfoRequest original.payload).bind fun infoRequest =>
    if infoRequest.1 = CInfoKind.networkInfoAsk.toInt then
      some (a.addRequests [.networkInfo ⟨env.nodesInfo .tracker, env.nodesInfo .monitor⟩
        message.header.id a.nodePtr])
    else none

/-- The pair tells its role. -/
def takeRole (a : CConnectNodeAction) (message original : CMessage) :
    Option CConnectNodeAction :=
  (readNetworkRole original.payload).map fun role =>
    { a.addRequests [.ack message.header.id a.nodePtr] with role := role }

def reactUnconnected (a : CConnectNodeAction) : ConnectNodeEvent → Option CConnectNodeAction
  | .nodeConnected node addr => a.enterBothUnidentifiedConnecting env node addr
  | .cantReachNode => some a.enterCantReachNode
  | _ => some a

def reactBothUnidentifiedConnecting (a : CConnectNodeAction) :
    ConnectNodeEvent → Option CConnectNodeAction
  | .ack => some a.enterPairIdentifiedConnecting
  | .timeEvent => some a.enterCantReachNode
  | _ => some a

/-- The payload that is verified is the one that came with the signature. -/
def reactPairIdentifiedConnecting (a : CConnectNodeAction) :
    ConnectNodeEvent → Option CConnectNodeAction
  | .identificationResult identify _ id =>
    (verifyIdentification env.hashes env.signatures identify).map fun verified =>
      (if verified then a.identified identify id else a).enterDetermineRoleConnecting
  | .timeEvent => some a.enterCantReachNode
  | _ => some a

def reactDetermineRoleConnecting (a : CConnectNodeAction) :
    ConnectNodeEvent → Option CConnectNodeAction
  | .messageResult message =>
    (a.unwound env message).bind fun original =>
      if original.header.payloadKind = CPayloadKind.infoReq.toInt then
        a.answerRole message original
      else if original.header.payloadKind = CPayloadKind.roleInfo.toInt then
        a.takeRole message original
      else some a
  | .ack => some (a.enterByRole env a.role)
  | .timeEvent => some a.enterCantReachNode
  | _ => some a

/-- The passive side signs the payload it was sent and sends none of its own. -/
def reactBothUnidentifiedConnected (a : CConnectNodeAction) :
    ConnectNodeEvent → Option CConnectNodeAction
  | .identificationResult identify address id =>
    (verifyIdentification env.hashes env.signatures identify).bind fun verified =>
      if verified then
        (createIdentifyResponse env.hashes env.authenticationProvider identify.payload).map
          fun response =>
            ({ a with addrConnect := address }.identified identify id).addRequests
              [.sendIdentifyData response a.nodePtr]
      else some a
  | .ack => some { a with state := .determineRoleConnected }
  | _ => some a

def reactDetermineRoleConnected (a : CConnectNodeAction) :
    ConnectNodeEvent → Option CConnectNodeAction
  | .messageResult message =>
    (a.unwound env message).bind fun original =>
      if original.header.payloadKind = CPayloadKind.infoReq.toInt then
        a.answerRole message original
      else if original.header.payloadKind = CPayloadKind.roleInfo.toInt then
        (a.takeRole message original).map fun a => a.enterByRole env a.role
      else some a
  | .ack => some (a.addRequests [.infoRequest .roleInfoAsk a.nodePtr])
  | _ => some a

def reactConnectedToSeed (a : CConnectNodeAction) : ConnectNodeEvent → Option CConnectNodeAction
  | .messageResult message =>
    (a.unwound env message).bind fun original =>
      if original.header.payloadKind = CPayloadKind.infoReq.toInt then
        a.answerNetworkInfo env message original
      else some a
  | .ack => some a.enterStop
  | .timeEvent => some { a with exit := true }
  | _ => some a

/-- Both infos exchanged, the action ends. -/
def exchanged (a : CConnectNodeAction) (infoSend infoReceive : Bool) : CConnectNodeAction :=
  { a with
    state := .getNetworkInfo infoSend infoReceive
    exit := a.exit || (infoReceive && infoSend) }

def reactGetNetworkInfo (a : CConnectNodeAction) (infoSend infoReceive : Bool) :
    ConnectNodeEvent → Option CConnectNodeAction
  | .messageResult message =>
    (a.unwound env message).bind fun original =>
      if original.header.payloadKind = CPayloadKind.infoReq.toInt then
        (a.answerNetworkInfo env message original).map fun a => a.exchanged true infoReceive
      else if original.header.payloadKind = CPayloadKind.networkInfo.toInt then
        (readKnownNetworkInfo original.payload).map fun known =>
          { a.addRequests [.ack message.header.id a.nodePtr] with
            result := some (.networkInfo a.validNodeInfo a.role known) }.exchanged infoSend true
      else some (a.exchanged infoSend infoReceive)
  | .timeEvent => some { a with exit := true }
  | _ => some a

/-- `process_event`; no value where an assertion fails or a stream throws. -/
def react (a : CConnectNodeAction) (event : ConnectNodeEvent) : Option CConnectNodeAction :=
  match a.state with
  | .unconnected => a.reactUnconnected env event
  | .bothUnidentifiedConnecting => a.reactBothUnidentifiedConnecting event
  | .pairIdentifiedConnecting => a.reactPairIdentifiedConnecting env event
  | .determineRoleConnecting => a.reactDetermineRoleConnecting env event
  | .bothUnidentifiedConnected => a.reactBothUnidentifiedConnected env event
  | .determineRoleConnected => a.reactDetermineRoleConnected env event
  | .connectedToSeed => a.reactConnectedToSeed env event
  | .getNetworkInfo infoSend infoReceive => a.reactGetNetworkInfo env infoSend infoReceive event
  | .cantReachNode => some a
  | .stop => some a

end Reactions

end CConnectNodeAction

end Dims
