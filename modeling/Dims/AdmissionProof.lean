import Dims.PaymentTraces
import Dims.GuardedRun

/-!
# The proof of admission

A tracker that registers with a monitor, and a monitor that enters the network of another one,
pay the price by a sub-action and send the hash of the transaction that it hands back.
-/

namespace Dims
open ByteCodec

inductive RegisterState
  | registrationExtension
  | originateRegistration
  | freeRegistration
  | synchronize
  | noTrackers
  | networkAlive
  deriving DecidableEq, Repr

/-- A tracker with its registration. The price is not set before the terms are known, and the
payment not before the registration has been accepted. -/
structure CRegisterAction where
  partnerKey : CPubKey
  state : RegisterState
  price : UInt32
  registerPayment : Int64
  exit : Bool
  recent : CRecentTransactions
  payments : ScheduledPayments
  /-- The hashes in the proofs of admission. -/
  admitProofs : List Uint256

namespace CRegisterAction

variable (H : HashFunctions)

inductive Event
  | extendRegistration (price : UInt32) (autoRenewRegistration : Bool)
  | registrationTerms (price : UInt32)
  | messageResult (result trackersInfoEmpty isConnected : Bool) (wallet : CWalletContext)
  | synchronizationResult (result isConnected : Bool) (wallet : CWalletContext)
  | failure
  | timeEvent (isConnected : Bool) (wallet : CWalletContext)
  | ack (isConnected : Bool) (wallet : CWalletContext)
  /-- A response to a sub-action. -/
  | payment (action : ℕ) (event : PassEvent)
  /-- A sub-action is destroyed. -/
  | paid (action : ℕ)
  /-- A transaction of the network is applied. -/
  | recentTransaction (time : BitVec 64) (tx : CTransaction)

/-- A new registration or the extension of one; the price and the payment are those that their
memory holds. -/
def init (partnerKey : CPubKey) (extension : Bool) (price : UInt32) (registerPayment : Int64) :
    CRegisterAction :=
  ⟨partnerKey, if extension then .registrationExtension else .originateRegistration, price,
    registerPayment, false, .empty, .empty, []⟩

def partnerId (s : CRegisterAction) : CKeyID := s.partnerKey.getID H

def forgetRequests (s : CRegisterAction) : CRegisterAction :=
  { s with payments := s.payments.forgetRequests }

/-- The state is one of `CNoTrackers` and `CNetworkAlive`. -/
def Pays (s : CRegisterAction) : Prop := s.state = .noTrackers ∨ s.state = .networkAlive

instance (s : CRegisterAction) : Decidable s.Pays := inferInstanceAs (Decidable (_ ∨ _))

def schedulePayment (s : CRegisterAction) (isConnected : Bool) (wallet : CWalletContext) :
    CRegisterAction :=
  { s with
    payments := s.payments.schedule
      (CPassTransactionAction.Tracker.construct H (s.partnerId H) s.registerPayment isConnected wallet) }

/-- The answer to `AdmitAsk`. -/
def reactAdmitted (s : CRegisterAction) (trackersInfoEmpty isConnected : Bool)
    (wallet : CWalletContext) : CRegisterAction :=
  if s.price = 0 then { s with state := .freeRegistration }
  else
    let s := { s with registerPayment := priceAmount s.price }
    if trackersInfoEmpty then { s with state := .synchronize }
    else { s with state := .networkAlive }.schedulePayment H isConnected wallet

/-- The result of a payment; one that was invalid is made again after a while. -/
def reactTransactionAck (s : CRegisterAction) (ack : CTransactionAck) : CRegisterAction :=
  if s.Pays ∧ ack.status ≠ .invalid then
    { s with admitProofs := s.admitProofs ++ [ack.transaction.getHash H] }
  else s

/-- No value where an assertion fails. -/
def react (s : CRegisterAction) (event : Event) : Option CRegisterAction :=
  match s.state, event with
  | .registrationExtension, .extendRegistration price autoRenewRegistration =>
    some (if autoRenewRegistration then { s with price := price } else s)
  | .registrationExtension, .timeEvent _ _ => some { s with exit := true }
  | .registrationExtension, .ack isConnected wallet =>
    let s := if s.price ≠ 0 then { s with state := .noTrackers }.schedulePayment H isConnected wallet
      else s
    some { s with exit := true }
  | .originateRegistration, .registrationTerms price => some { s with price := price }
  | .originateRegistration, .messageResult result trackersInfoEmpty isConnected wallet =>
    some (if result then s.reactAdmitted H trackersInfoEmpty isConnected wallet
      else { s with exit := true })
  | .originateRegistration, .failure => some { s with exit := true }
  | .originateRegistration, .timeEvent _ _ => some { s with exit := true }
  | .freeRegistration, .synchronizationResult _ _ _ => some { s with exit := true }
  | .synchronize, .synchronizationResult result isConnected wallet =>
    some (if result then { s with state := .noTrackers }.schedulePayment H isConnected wallet else s)
  | .noTrackers, .messageResult result _ _ _ => if result then some s else none
  | .noTrackers, .timeEvent isConnected wallet => some (s.schedulePayment H isConnected wallet)
  | .networkAlive, .messageResult result _ _ _ => if result then some s.forgetRequests else none
  | .networkAlive, .timeEvent isConnected wallet =>
    some (s.forgetRequests.schedulePayment H isConnected wallet)
  | .networkAlive, .synchronizationResult result _ _ =>
    if result then some { s with exit := true } else none
  | _, _ => some s

/-- Once the action has asked to exit nothing is sent any more. -/
def next (s : CRegisterAction) : Event → Option CRegisterAction
  | .payment i event =>
    (s.payments.respond i fun a => CPassTransactionAction.Tracker.react H s.recent a event).map
      fun payments => { s with payments := payments }
  | .paid i =>
    let s' := { s with payments := s.payments.destroy i }
    match s.payments.result i with
    | some ack => some (if s.exit then s' else s'.reactTransactionAck H ack)
    | none => some s'
  | .recentTransaction time tx =>
    some { s with recent := s.recent.setTransactionToTemporary H time tx }
  | event => if s.exit then some s else s.react H event

def step (s : Option CRegisterAction) (event : Event) : Option CRegisterAction :=
  s.bind fun s => s.next H event

end CRegisterAction

inductive EnterState
  | admissionCondition
  | askForAddmision
  | networkAlive
  | synchronization
  deriving DecidableEq, Repr

/-- A monitor that enters a network. The key of the monitor that has answered and its price
are variables that all such actions share. -/
structure CEnterNetworkAction where
  partnerKey : CPubKey
  state : EnterState
  /-- The price that the partner has asked for. -/
  askedPrice : UInt32
  monitorKey : CPubKey
  price : UInt32
  exit : Bool
  payments : ScheduledPayments
  admitProofs : List Uint256

namespace CEnterNetworkAction

variable (H : HashFunctions)

inductive Event
  | enteranceTerms (price : UInt32)
  | messageResult (key : CPubKey) (result : Bool)
  | failure
  | timeEvent
  /-- Another action sets the shared variables. -/
  | anotherAction (monitorKey : CPubKey) (price : UInt32)
  | payment (action : ℕ) (event : PassEvent)
  | paid (action : ℕ)

def init (partnerKey monitorKey : CPubKey) (price : UInt32) : CEnterNetworkAction :=
  ⟨partnerKey, .admissionCondition, 0, monitorKey, price, false, .empty, []⟩

def schedulePayment (s : CEnterNetworkAction) : CEnterNetworkAction :=
  { s with
    payments := s.payments.schedule
      (CPassTransactionAction.Monitor.construct (s.monitorKey.getID H) (priceAmount s.price)) }

def reactTransactionAck (s : CEnterNetworkAction) (ack : CTransactionAck) : CEnterNetworkAction :=
  if s.state = .networkAlive then
    if ack.status = .invalid then { s with exit := true }
    else { s with admitProofs := s.admitProofs ++ [ack.transaction.getHash H] }
  else s

/-- No value where an assertion fails. -/
def react (s : CEnterNetworkAction) (event : Event) : Option CEnterNetworkAction :=
  match s.state, event with
  | .admissionCondition, .enteranceTerms price =>
    some { s with state := .askForAddmision, askedPrice := price, price := price }
  | .admissionCondition, .failure => some { s with exit := true }
  | .askForAddmision, .messageResult key true =>
    let s := { s with monitorKey := key }
    some (if s.price = (0 : UInt32) then { s with state := .synchronization }
      else { s with state := .networkAlive }.schedulePayment H)
  | .askForAddmision, .messageResult _ false => none
  | .askForAddmision, .timeEvent => some { s with exit := true }
  | .networkAlive, .messageResult _ true => some { s with state := .synchronization }
  | .networkAlive, .messageResult _ false => none
  | .networkAlive, .timeEvent => some { s with exit := true }
  | _, _ => some s

def next (s : CEnterNetworkAction) : Event → Option CEnterNetworkAction
  | .payment i event =>
    (s.payments.respond i fun a => CPassTransactionAction.Monitor.react H a event).map
      fun payments => { s with payments := payments }
  | .paid i =>
    let s' := { s with payments := s.payments.destroy i }
    match s.payments.result i with
    | some ack => some (if s.exit then s' else s'.reactTransactionAck H ack)
    | none => some s'
  | .anotherAction monitorKey price => some { s with monitorKey := monitorKey, price := price }
  | event => if s.exit then some s else s.react H event

def step (s : Option CEnterNetworkAction) (event : Event) : Option CEnterNetworkAction :=
  s.bind fun s => s.next H event

end CEnterNetworkAction

end Dims
