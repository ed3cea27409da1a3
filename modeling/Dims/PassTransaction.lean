import Dims.CreateTransaction
import Dims.TransactionStatus

/-!
# Payments by a sub-action

`CPassTransactionAction` of trackers and monitors pays to a key. The result that it has set last
is handed to the action that has scheduled it when it is destroyed.
-/

namespace Dims
open ByteCodec

/-- A transaction that has been constructed and not been filled. -/
def CTransaction.new : CTransaction := ⟨1, [], [], 0, 0⟩

structure CTransactionAck where
  status : TransactionsStatus
  transaction : CTransaction

inductive PassState
  | validInNetwork (transactionHash : Uint256)
  | processAsClient
  | fetchBalance
  | processTransaction
  | checkStatus
  deriving DecidableEq, Repr

structure CPassTransactionAction where
  keyId : CKeyID
  amount : Int64
  state : PassState
  servicingTracker : CPubKey
  servicingPrice : UInt32
  hash : Uint256
  /-- No value while the result is the one that it was constructed with. -/
  result : Option CTransactionAck
  exit : Bool

/-- The responses to a sub-action. The wallet is the one of the moment. -/
inductive PassEvent
  | timeEvent
  /-- The message of a tracker, or what `CProvideInfoAction` got of one. -/
  | trackerInfo (key : CPubKey) (price : UInt32) (isAdmitted : Bool) (wallet : CWalletContext)
  /-- The balance has been fetched, or not. -/
  | balance (correct : Bool) (wallet : CWalletContext)
  | messageResult (result : Bool)
  | transactionStatus (status : TransactionsStatus)

/-- The sub-action after a step, and the transaction that it has created and submitted. -/
abbrev PassStep := CPassTransactionAction × Option CTransaction

namespace CPassTransactionAction

variable (H : HashFunctions)

def new (keyId : CKeyID) (amount : Int64) (state : PassState) : CPassTransactionAction :=
  ⟨keyId, amount, state, .invalid, 0, 0, none, false⟩

def setInvalid (a : CPassTransactionAction) : CPassTransactionAction :=
  { a with result := some ⟨.invalid, .new⟩, exit := true }

def outputs (a : CPassTransactionAction) : List (CKeyID × Int64) := [(a.keyId, a.amount)]

/-- The transaction that pays for the servicing tracker, too. -/
def payAsClient (a : CPassTransactionAction) (wallet : CWalletContext) : Option CTransaction :=
  wallet.createTransaction H a.outputs [] a.servicingTracker a.servicingPrice

namespace Tracker

/-- The constructor of `CValidInNetwork`. Where no transaction is created, what is left of it
goes to the pool; the action exits before it looks for its hash. -/
def enterValidInNetwork (a : CPassTransactionAction) (wallet : CWalletContext) : PassStep :=
  match wallet.createTransaction H a.outputs [] .invalid 0 with
  | none => (a.setInvalid, none)
  | some tx => ({ a with state := .validInNetwork (tx.getHash H) }, some tx)

def construct (keyId : CKeyID) (amount : Int64) (isConnected : Bool) (wallet : CWalletContext) :
    PassStep :=
  if isConnected then enterValidInNetwork H (new keyId amount (.validInNetwork 0)) wallet
  else (new keyId amount .processAsClient, none)

/-- The constructor of `CProcessTransaction`. The result is set again after a failure, and
holds the transaction of the state, which nothing is assigned to. -/
def enterProcessTransaction (a : CPassTransactionAction) (wallet : CWalletContext) : PassStep :=
  let a := { a with state := .processTransaction }
  match a.payAsClient H wallet with
  | none => ({ a.setInvalid with result := some ⟨.validated, .new⟩ }, none)
  | some tx => ({ a with hash := tx.getHash H, result := some ⟨.validated, .new⟩ }, some tx)

/-- No value where an assertion fails. -/
def react (recent : CRecentTransactions) (a : CPassTransactionAction) (event : PassEvent) :
    Option PassStep :=
  match a.state, event with
  | .validInNetwork transactionHash, .timeEvent =>
    match recent.getTransaction transactionHash with
    | some transaction =>
      some ({ a with result := some ⟨.confirmed, transaction⟩, exit := true }, none)
    | none => some (a, none)
  | .processAsClient, .timeEvent => some ({ a with exit := true }, none)
  | .processAsClient, .trackerInfo key price _ _ =>
    some ({ a with state := .fetchBalance, servicingTracker := key, servicingPrice := price }, none)
  | .fetchBalance, .balance correct wallet =>
    if correct then some (enterProcessTransaction H a wallet)
    else some ({ a with exit := true }, none)
  | .processTransaction, .timeEvent => some ({ a with exit := true }, none)
  | .processTransaction, .messageResult result =>
    if result then some ({ a with state := .checkStatus }, none) else none
  | .checkStatus, .timeEvent => some ({ a with exit := true }, none)
  | _, _ => some (a, none)

end Tracker

namespace Monitor

/-- The constructor of `CProcessTransaction`; its result holds the transaction of the state,
which nothing is assigned to. -/
def enterProcessTransaction (a : CPassTransactionAction) (wallet : CWalletContext) : PassStep :=
  let a := { a with state := .processTransaction }
  match a.payAsClient H wallet with
  | none => (a.setInvalid, none)
  | some tx => ({ a with hash := tx.getHash H, result := some ⟨.validated, .new⟩ }, some tx)

def construct (keyId : CKeyID) (amount : Int64) : PassStep :=
  (new keyId amount .processAsClient, none)

/-- No value where an assertion fails. -/
def react (a : CPassTransactionAction) (event : PassEvent) : Option PassStep :=
  match a.state, event with
  | .processAsClient, .trackerInfo key price isAdmitted wallet =>
    let a := { a with servicingTracker := key, servicingPrice := price }
    if isAdmitted then some (enterProcessTransaction H a wallet)
    else some ({ a with state := .fetchBalance }, none)
  | .fetchBalance, .timeEvent => some (a.setInvalid, none)
  | .fetchBalance, .balance true wallet => some (enterProcessTransaction H a wallet)
  | .processTransaction, .timeEvent => some ({ a with exit := true }, none)
  | .processTransaction, .messageResult result =>
    if result then some ({ a with state := .checkStatus }, none) else none
  | .checkStatus, .transactionStatus .validated => some ({ a with exit := true }, none)
  | _, _ => some (a, none)

end Monitor

end CPassTransactionAction

/-- A sub-action with the request that has scheduled it, as long as that is not forgotten. -/
structure ScheduledPayment where
  action : CPassTransactionAction
  requested : Bool

/-- The sub-actions that an action has scheduled and that are not destroyed, and the
transactions that they have created and submitted. -/
structure ScheduledPayments where
  actions : List ScheduledPayment
  submitted : List CTransaction

namespace ScheduledPayments

def empty : ScheduledPayments := ⟨[], []⟩

def schedule (s : ScheduledPayments) (action : PassStep) : ScheduledPayments :=
  ⟨s.actions ++ [⟨action.1, true⟩], s.submitted ++ action.2.toList⟩

/-- The responses to the requests so far are not looked for any more. -/
def forgetRequests (s : ScheduledPayments) : ScheduledPayments :=
  { s with actions := s.actions.map fun a => { a with requested := false } }

/-- A response to a sub-action that has not asked to exit. -/
def respond (s : ScheduledPayments) (i : ℕ)
    (react : CPassTransactionAction → Option PassStep) : Option ScheduledPayments :=
  match s.actions[i]? with
  | none => some s
  | some a =>
    if a.action.exit then some s
    else (react a.action).map fun action =>
      ⟨s.actions.set i { a with action := action.1 }, s.submitted ++ action.2.toList⟩

/-- The result that a sub-action hands over when it is destroyed. -/
def result (s : ScheduledPayments) (i : ℕ) : Option CTransactionAck :=
  match s.actions[i]? with
  | none => none
  | some a => if a.action.exit ∧ a.requested then a.action.result else none

/-- The sub-action is destroyed if it has asked to exit. -/
def destroy (s : ScheduledPayments) (i : ℕ) : ScheduledPayments :=
  match s.actions[i]? with
  | none => s
  | some a => if a.action.exit then { s with actions := s.actions.eraseIdx i } else s

end ScheduledPayments

end Dims
