import Dims.ClientProtocol
import Dims.Participants
import Dims.TransactionRecordManager
import Mathlib.Data.Finset.Image
import Mathlib.Data.Finset.SDiff

/-!
# The validation action of a tracker

The state machine of validateTransactionsAction.cpp. An action either starts
from transactions of clients and propagates them, or from a bundle that another
tracker has sent. The check of the fees is not part of the model: an action of
the first kind starts with the transactions that have passed it. Requests stay
listed also where the source forgets them, since a forgotten request is still
sent.
-/

namespace Dims
open ByteCodec Serialize

/-- The status of a bundle that trackers tell each other. -/
inductive CBundleStatus
  | validated | notValid | known | confirmed
  deriving DecidableEq, Repr

/-- The value of `m_status` in a `CTransactionsBundleStatus`. -/
def CBundleStatus.toInt (status : CBundleStatus) : Int32 := Int32.ofNat status.ctorIdx

/-- `convertPayload` into a `CTransactionsBundleStatus`. -/
def readStatus (payload : Bytes) : Option Int32 := (int32.decode payload).map Prod.fst

/-- `convertPayload` into a `CTransactionBundle`. -/
def readBundle (payload : Bytes) : Option (List CTransaction) :=
  ((vector CTransaction.networkCodec).decode payload).map Prod.fst

inductive CMediumFilter
  | trackers
  | monitors
  | trackersExcept (exceptions : Finset CKeyID)
  | nodes (keyIds : Finset CKeyID)
  | byKey (key : CPubKey)

inductive CRequest
  | sendTransactions (transactions : List CTransaction) (filter : CMediumFilter)
  | sendStatus (status : CBundleStatus) (respondsTo : Option Uint256) (filter : CMediumFilter)
  | forward (message : CMessage) (prevKey : CPubKey) (filter : CMediumFilter)
  | ack (id : Uint256) (filter : CMediumFilter)
  | validateTransactions (transactions : List CTransaction)
  | timeEvent (time : ℕ)

inductive ActionEvent
  | messageResult (message : CMessage) (pubKey : CPubKey)
  | validation (invalidTransactionIndexes : List ℕ)
  | ack
  | timeEvent
  | noMedium

/-- The states of the machine with their sets of key ids. -/
inductive ValidationState
  | originInitial
  | propagateBundle (partners : Finset CKeyID)
  | passBundle
  | broadcastBundle (known validate partners : Finset CKeyID)
  | passBundleValidate (exceptions : Finset CKeyID)
  | passBundleInvalidate
  | approved
  | rejected

structure CValidateTransactionsAction where
  state : ValidationState
  actionKey : Uint256
  transactions : List CTransaction
  initiatingNodeKey : CPubKey
  passValidationTargets : Finset CKeyID
  transactionsMessage : Option CMessage
  requests : List CRequest
  clientResponses : List (TransactionsStatus × CTransaction)
  exit : Bool

/-- What the action asks of the rest of the node: the cryptography, the trackers
of the network and those of them that are active, and whether
`addValidatedTransactionBundle` succeeds. -/
structure NodeContext where
  hashes : HashFunctions
  signatures : SignatureScheme
  networkTrackers : List CPubKey
  isActiveNode : CKeyID → Bool
  addBundle : List CTransaction → Bool

namespace NodeContext

variable (env : NodeContext)

/-- The partners that `CPropagateBundle` and `CBroadcastBundle` collect. -/
def activePartners : Finset CKeyID :=
  ((env.networkTrackers.map (CPubKey.getID env.hashes)).filter env.isActiveNode).toFinset

def keyIds (participants : Finset CPubKey) : Finset CKeyID :=
  participants.image (CPubKey.getID env.hashes)

/-- The unwinding, asserted to succeed: the innermost message and the participants. -/
def unwind (message : CMessage) (pubKey : CPubKey) : Option (CMessage × Finset CPubKey) :=
  unwindAsserted env.hashes env.signatures message pubKey

end NodeContext

namespace CValidateTransactionsAction

def propagateWaitTime : ℕ := 15000

/-- The action of a tracker whose clients have sent the transactions. -/
def origin (actionKey : Uint256) (transactions : List CTransaction) :
    CValidateTransactionsAction :=
  ⟨.originInitial, actionKey, transactions, .invalid, ∅, none, [.validateTransactions transactions],
    [], false⟩

/-- The action of a tracker that another tracker sends a bundle. -/
def passing (actionKey : Uint256) : CValidateTransactionsAction :=
  ⟨.passBundle, actionKey, [], .invalid, ∅, none, [], [], false⟩

variable (env : NodeContext)

def addRequests (a : CValidateTransactionsAction) (requests : List CRequest) :
    CValidateTransactionsAction :=
  { a with requests := a.requests ++ requests }

def setClientResponses (a : CValidateTransactionsAction) (status : TransactionsStatus)
    (transactions : List CTransaction) : CValidateTransactionsAction :=
  { a with clientResponses := a.clientResponses ++ transactions.map fun tx => (status, tx) }

section Entering

def enterPropagateBundle (a : CValidateTransactionsAction) : CValidateTransactionsAction :=
  { a.addRequests [.sendTransactions a.transactions .trackers, .timeEvent propagateWaitTime] with
    state := .propagateBundle env.activePartners }

def enterBroadcastBundle (a : CValidateTransactionsAction) : CValidateTransactionsAction :=
  let initiator := a.initiatingNodeKey.getID env.hashes
  let forwarded := a.transactionsMessage.toList.map fun message =>
    CRequest.forward message a.initiatingNodeKey (.trackersExcept {initiator})
  { a.addRequests (forwarded ++ [.timeEvent propagateWaitTime]) with
    state := .broadcastBundle {initiator} ∅ (env.activePartners.erase initiator) }

def enterPassBundleValidate (a : CValidateTransactionsAction) (targets : Finset CKeyID) :
    CValidateTransactionsAction :=
  { a.addRequests [.sendStatus .validated none (.nodes targets), .timeEvent propagateWaitTime] with
    passValidationTargets := targets
    state := .passBundleValidate ∅ }

def enterPassBundleInvalidate (a : CValidateTransactionsAction) : CValidateTransactionsAction :=
  { a.addRequests [.sendStatus .notValid none (.byKey a.initiatingNodeKey)] with
    state := .passBundleInvalidate
    exit := true }

def enterApproved (a : CValidateTransactionsAction) : CValidateTransactionsAction :=
  if env.addBundle a.transactions then
    { a.addRequests [.sendTransactions a.transactions .monitors] with state := .approved }
  else { a with state := .approved, exit := true }

def enterRejected (a : CValidateTransactionsAction) : CValidateTransactionsAction :=
  { a with state := .rejected, exit := true }

end Entering

section Reactions

/-- `COriginInitial`: the reported transactions are answered and dropped. -/
def reactOriginInitial (a : CValidateTransactionsAction) :
    ActionEvent → Option CValidateTransactionsAction
  | .validation invalidTransactionIndexes =>
    (invalidTransactionIndexes.mapM (a.transactions[·]?)).map fun invalid =>
      let kept := CTransactionRecordManager.dropInvalid a.transactions invalidTransactionIndexes
      let a := { (a.setClientResponses .invalid invalid).setClientResponses .validated kept with
        transactions := kept }
      if kept = [] then a.enterRejected
      else if env.networkTrackers ≠ [] then a.enterPropagateBundle env
      else a.enterApproved env
  | _ => some a

/-- `CPropagateBundle`. The comparison of the payload kind ends in a semicolon,
so a message of every kind is read as a status. -/
def reactPropagateBundle (a : CValidateTransactionsAction) (partners : Finset CKeyID) :
    ActionEvent → Option CValidateTransactionsAction
  | .messageResult message pubKey =>
    (env.unwind message pubKey).bind fun (original, participants) =>
      (readStatus original.payload).map fun status =>
        if status = CBundleStatus.validated.toInt then
          let remaining := partners \ env.keyIds participants
          if remaining = ∅ then
            (a.addRequests [.sendStatus .confirmed (some message.header.id) .trackers]).enterApproved
              env
          else { a with state := .propagateBundle remaining }
        else (a.setClientResponses .invalid a.transactions).enterRejected
  | .timeEvent => some { a with exit := true }
  | _ => some a

/-- `CBroadcastBundle` -/
def reactBroadcastBundle (a : CValidateTransactionsAction)
    (known validate partners : Finset CKeyID) : ActionEvent → Option CValidateTransactionsAction
  | .messageResult message pubKey =>
    let a := a.addRequests [.ack message.header.id (.byKey pubKey)]
    let compare := fun (a : CValidateTransactionsAction) (known validate : Finset CKeyID) =>
      if validate ∪ known = partners then a.enterPassBundleValidate known
      else { a with state := .broadcastBundle known validate partners }
    if message.header.payloadKind = CPayloadKind.transactions.toInt then
      (env.unwind message pubKey).map fun (_, participants) =>
        compare (a.addRequests [.sendStatus .known none (.byKey pubKey)])
          (known ∪ env.keyIds participants) validate
    else if message.header.payloadKind = CPayloadKind.statusTransactions.toInt then
      (env.unwind message pubKey).bind fun (original, participants) =>
        (readStatus original.payload).map fun status =>
          if status = CBundleStatus.validated.toInt then
            compare a known (validate ∪ env.keyIds participants)
          else if status = CBundleStatus.known.toInt then
            compare a (known ∪ env.keyIds participants) validate
          else compare a known validate
    else some (compare a known validate)
  | .noMedium => some (a.enterPassBundleValidate known)
  | .timeEvent => some (a.enterPassBundleValidate partners)
  | _ => some a

/-- `CPassBundle`. Here too the comparison of the payload kind guards nothing. -/
def reactPassBundle (a : CValidateTransactionsAction) :
    ActionEvent → Option CValidateTransactionsAction
  | .messageResult message pubKey =>
    (unwindMessage env.hashes env.signatures message pubKey).bind fun unwound =>
      unwound.bind fun original =>
        (readBundle original.payload).map fun transactions =>
          { a.addRequests [.ack message.header.id (.byKey pubKey),
              .validateTransactions transactions] with
            transactions := transactions
            initiatingNodeKey := pubKey
            transactionsMessage := some message }
  | .validation invalidTransactionIndexes =>
    some (if invalidTransactionIndexes = [] then a.enterBroadcastBundle env
      else a.enterPassBundleInvalidate)
  | _ => some a

/-- `CPassBundleValidate` -/
def reactPassBundleValidate (a : CValidateTransactionsAction) (exceptions : Finset CKeyID) :
    ActionEvent → Option CValidateTransactionsAction
  | .messageResult message pubKey =>
    let a := a.addRequests [.ack message.header.id (.byKey pubKey)]
    if message.header.payloadKind = CPayloadKind.statusTransactions.toInt then
      (env.unwind message pubKey).bind fun (original, participants) =>
        let exceptions := exceptions ∪ env.keyIds participants
        (readStatus original.payload).map fun status =>
          if status = CBundleStatus.confirmed.toInt then
            (a.addRequests [.forward message pubKey (.trackersExcept exceptions)]).enterApproved env
          else { a with state := .passBundleValidate exceptions }
    else some a
  | .timeEvent => some { a with exit := true }
  | .noMedium => none
  | _ => some a

/-- `CApproved` waits for the monitors. -/
def reactApproved (a : CValidateTransactionsAction) :
    ActionEvent → Option CValidateTransactionsAction
  | .ack => some { a with exit := true }
  | .noMedium => some { a with exit := true }
  | _ => some a

/-- `process_event`; no value where an assertion fails or a stream throws. -/
def react (a : CValidateTransactionsAction) (event : ActionEvent) :
    Option CValidateTransactionsAction :=
  match a.state with
  | .originInitial => a.reactOriginInitial env event
  | .propagateBundle partners => a.reactPropagateBundle env partners event
  | .passBundle => a.reactPassBundle env event
  | .broadcastBundle known validate partners =>
    a.reactBroadcastBundle env known validate partners event
  | .passBundleValidate exceptions => a.reactPassBundleValidate env exceptions event
  | .approved => a.reactApproved event
  | .passBundleInvalidate => some a
  | .rejected => some a

end Reactions

end CValidateTransactionsAction

end Dims
