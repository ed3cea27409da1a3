import Dims.LocalPayment
import Dims.Wallet

/-!
# The actions of a client and their requests

client/sendTransactionAction.cpp, payLocalApplicationAction.cpp and sendBalanceInfoAction.cpp.
Each action keeps the requests that have not been answered; an event is the answer to one of
them. The state machine of a local payment is that of its proof, with its requests beside it.
-/

namespace Dims

inductive ClientRequest
  | timeEvent
  | createTransaction
  | monitorInfo
  | transaction
  | transactionStatus
  | balanceInfo
  | errorForApp
  | proof
  deriving DecidableEq, Repr

/-- `CSendClientMessageRequest`, which the error medium answers if there is no other one. -/
def ClientRequest.isClientMessage : ClientRequest → Bool
  | .monitorInfo | .transaction | .transactionStatus | .balanceInfo => true
  | _ => false

inductive SendState
  | prepareAndSendTransaction
  | transactionStatus
  deriving DecidableEq, Repr

/-- Which trackers are asked. -/
inductive TrackerFilter
  | trackersBalanced
  | trackersBalancedExcept (nodePtr : ℕ)
  | trackersRepExcept (nodePtr : ℕ)

structure CSendTransactionAction where
  outputs : List (CKeyID × Int64)
  sendCoins : List CAvailableCoin
  state : SendState
  transaction : CTransaction
  /-- Nothing sets it. -/
  processingTrackerPtr : ℕ
  filter : TrackerFilter
  requests : List ClientRequest
  exit : Bool

namespace CSendTransactionAction

inductive Event
  | transactionAck (status : TransactionsStatus) (tx : CTransaction) (determinedTrackersCount : ℕ)
  | transactionStatus (nodePtr : ℕ) (status : TransactionsStatus)
  | noMedium

def Event.answers : Event → ClientRequest → Bool
  | .transactionAck .., .createTransaction => true
  | .transactionStatus .., .transactionStatus => true
  | .noMedium, request => request.isClientMessage
  | _, _ => false

def init (outputs : List (CKeyID × Int64)) (sendCoins : List CAvailableCoin)
    (processingTrackerPtr : ℕ) : CSendTransactionAction where
  outputs := outputs
  sendCoins := sendCoins
  state := .prepareAndSendTransaction
  transaction := ⟨1, [], [], 0, 0⟩
  processingTrackerPtr := processingTrackerPtr
  filter := .trackersBalanced
  requests := [.createTransaction]
  exit := false

/-- The constructor of `CTransactionStatus`. -/
def enterTransactionStatus (a : CSendTransactionAction) (determinedTrackersCount : ℕ) :
    CSendTransactionAction :=
  { a with
    state := .transactionStatus
    filter := if 1 < determinedTrackersCount then .trackersBalancedExcept a.processingTrackerPtr
      else .trackersBalanced
    requests := [.transactionStatus] }

def react (a : CSendTransactionAction) (event : Event) : CSendTransactionAction :=
  match a.state, event with
  | .prepareAndSendTransaction, .transactionAck status tx determinedTrackersCount =>
    if status = .validated then
      { a with transaction := tx }.enterTransactionStatus determinedTrackersCount
    else { a with requests := [], exit := true }
  | .transactionStatus, .transactionStatus nodePtr status =>
    match status with
    | .confirmed => { a with exit := true }
    | .unconfirmed => { a with
        filter := .trackersRepExcept nodePtr
        requests := [.transactionStatus] }
    | _ => a
  | _, _ => a

/-- The call of `transactionAddmited` that a reaction makes. -/
def addmits (a : CSendTransactionAction) (H : HashFunctions) : Event → Option (Uint256 × CTransaction)
  | .transactionStatus _ .confirmed =>
    if a.state = .transactionStatus then some (a.transaction.getHash H, a.transaction) else none
  | _ => none

def step (a : CSendTransactionAction) (event : Event) : CSendTransactionAction :=
  if a.requests.any event.answers then
    { a with requests := a.requests.eraseP event.answers }.react event
  else a

end CSendTransactionAction

structure ClientPayment where
  payment : CPayLocalApplicationAction
  requests : List ClientRequest

namespace ClientPayment

variable (H : HashFunctions) (S : NodeSignatures)

open CPayLocalApplicationAction

/-- The action when the client has answered. -/
def start (privKeyId targetKey : CKeyID) (value : Int64) (trackers monitors : List CKeyID)
    (accepts : Bool) : ClientPayment :=
  let a := CPayLocalApplicationAction.init privKeyId targetKey value trackers monitors
  ⟨{ if accepts then a else a.indicateErrorCondition .refusedByClient with userEnabled := true },
    if accepts then [.timeEvent] else [.errorForApp]⟩

def answers : Event → ClientRequest → Bool
  | .timeEvent _, .timeEvent => true
  | .monitorData .., .monitorInfo => true
  | .transactionAck .., .transaction => true
  | .transactionStatus .., .transactionStatus => true
  | .noMedium, request => request.isClientMessage
  | _, _ => false

/-- What the constructors of the states that have been entered ask for. -/
def entered (rest : List ClientRequest) (a : CPayLocalApplicationAction) : List ClientRequest :=
  match a.state with
  | .serviceByTracker | .secondTransaction =>
    if a.exit then rest ++ [.errorForApp] else [.transaction]
  | .resolveByMonitor => [.monitorInfo]
  | _ => rest

/-- The requests after a reaction, from those that were left before it and the action after it. -/
def requestsAfter (rest : List ClientRequest) (a a' : CPayLocalApplicationAction) (event : Event) :
    List ClientRequest :=
  match a.state, event with
  | .checkAppData, .timeEvent context =>
    if context.isClientReady ∧ a.userEnabled then entered rest a' else rest ++ [.timeEvent]
  | .resolveByMonitor, .monitorData .. => entered rest a'
  | .serviceByTracker, .transactionAck status _ | .secondTransaction, .transactionAck status _ =>
    if status = .validated then [.transactionStatus] else []
  | .checkTransactionStatus, .transactionStatus _ _ _ status =>
    match status with
    | .confirmed => entered rest a'
    | .unconfirmed => [.transactionStatus]
    | _ => rest
  | .secondCheck, .transactionStatus _ _ _ status =>
    match status with
    | .confirmed => [.proof]
    | .unconfirmed => [.transactionStatus]
    | _ => rest
  | _, _ => rest

/-- An event that answers a request. No value where the program is aborted. -/
def step (p : Option ClientPayment) (event : Event) : Option ClientPayment :=
  p.bind fun p =>
    if p.requests.any (answers event) then
      (p.payment.react H S event).map fun a =>
        ⟨a, requestsAfter (p.requests.eraseP (answers event)) p.payment a event⟩
    else some p

def messages (a : CPayLocalApplicationAction) : ℕ := a.errors.length + a.sent.toList.length

end ClientPayment

/-- The addresses stand for their keys. -/
structure CSendBalanceInfoAction where
  addresses : List CKeyID
  addressIndex : ℕ
  pubKey : CKeyID
  total : Int64
  wallet : CWallet
  requests : List ClientRequest
  exit : Bool

namespace CSendBalanceInfoAction

inductive Event
  | noMedium
  /-- The coins of the key that has been asked for, and the inputs of their transactions. -/
  | availableCoins (coins : List CAvailableCoin) (inputs : OrderedMap Uint256 (List CKeyID))

def Event.answers : Event → ClientRequest → Bool
  | .noMedium, request => request.isClientMessage
  | .availableCoins .., .balanceInfo => true
  | _, _ => false

def askNext (a : CSendBalanceInfoAction) : CSendBalanceInfoAction :=
  match a.addresses[a.addressIndex]? with
  | some address => { a with
      pubKey := address
      addressIndex := a.addressIndex + 1
      requests := [.balanceInfo] }
  | none => { a with exit := true }

/-- The constructor of `CGetBalanceInfo`. -/
def init (addresses : List CKeyID) (wallet : CWallet) : CSendBalanceInfoAction :=
  askNext ⟨addresses, 0, 0, 0, wallet, [], false⟩

def react (a : CSendBalanceInfoAction) : Event → CSendBalanceInfoAction
  | .noMedium => { a with requests := [] }
  | .availableCoins coins inputs => askNext { a with
      wallet := (a.wallet.addInputs inputs).replaceCoins a.pubKey coins
      total := a.total + (coins.map (·.coin.nValue)).sum }

def step (a : CSendBalanceInfoAction) (event : Event) : CSendBalanceInfoAction :=
  if a.requests.any event.answers then
    { a with requests := a.requests.eraseP event.answers }.react event
  else a

end CSendBalanceInfoAction

end Dims
