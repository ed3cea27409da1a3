import Dims.SignedPayload
import Dims.ChargeRegister
import Dims.ClientProtocol
import Dims.GuardedRun

/-!
# The proof of a local payment

client/payLocalApplicationAction.cpp. The client pays to a key of the application, passes the
coins on to the owner of the application, asks for the status of the second transaction and
hands the answer over as a proof. The application checks the proof in paymentProcessing.cpp.
-/

namespace Dims
open ByteCodec

/-- What the client needs of a tracker. -/
structure CTrackerStats where
  key : CPubKey
  price : UInt32

/-- The ranking, the wallet and the state of the client when an event comes. -/
structure PaymentContext where
  isClientReady : Bool
  /-- The trackers and monitors that are known. -/
  trackers : List CTrackerStats
  monitors : List CKeyID
  ipToKey : Bytes → Option CPubKey
  /-- `CreateTransaction` with the outputs, the coins to use, the tracker and its price. -/
  createTransaction : List (CKeyID × Int64) → List CTxOut → CPubKey → UInt32 → Option CTransaction

def PaymentContext.getTrackerStats (H : HashFunctions) (context : PaymentContext)
    (trackerId : CKeyID) : Option CTrackerStats :=
  context.trackers.find? fun stats => stats.key.getID H = trackerId

/-- The nodes sign with their keys. A signature verifies under no other key and for no other
hash. -/
structure NodeSignatures extends SignatureScheme where
  sign : CPubKey → Uint256 → Bytes
  verify_sign_iff : ∀ key signer hash hash',
    toSignatureScheme.verify key hash (sign signer hash') = true ↔
      key.isValid = true ∧ key = signer ∧ hash = hash'

structure CPayApplicationData where
  transaction : CTransaction
  transactionStatusSignature : Bytes
  servicingTracker : CPubKey
  monitorData : CMonitorData
  servicingMonitor : CPubKey

inductive CAppError
  | refusedByClient
  | notEnoughFunds
  deriving DecidableEq, Repr

inductive PaymentState
  | checkAppData
  | indicateErrorCondition
  | resolveByMonitor
  | serviceByTracker
  | checkTransactionStatus
  | secondTransaction
  | secondCheck
  | sendTransactionData
  deriving DecidableEq, Repr

/-- Who a status request goes to. -/
inductive StatusReceiver
  | byKey (keyId : CKeyID)
  | trackersRep
  | trackersRepExcept (nodePtr : ℕ)

structure CPayLocalApplicationAction where
  /-- The key that the application is paid with, and the one of its owner. -/
  privKeyId : CKeyID
  targetKey : CKeyID
  value : Int64
  trackers : List CKeyID
  monitors : List CKeyID
  state : PaymentState
  userEnabled : Bool
  exit : Bool
  trackerStats : CTrackerStats
  servicingTracker : CPubKey
  firstInitialHash : Uint256
  firstTransaction : CTransaction
  secondTransaction : CTransaction
  signature : Bytes
  monitorData : CMonitorData
  servicingMonitor : CPubKey
  /-- The monitor that has sent the monitor data. -/
  resolvedBy : Option CPubKey
  asked : Option StatusReceiver
  errors : List CAppError
  sent : Option CPayApplicationData

namespace CPayLocalApplicationAction

variable (H : HashFunctions) (S : NodeSignatures)

def init (privKeyId targetKey : CKeyID) (value : Int64) (trackers monitors : List CKeyID) :
    CPayLocalApplicationAction where
  privKeyId := privKeyId
  targetKey := targetKey
  value := value
  trackers := trackers
  monitors := monitors
  state := .checkAppData
  userEnabled := false
  exit := false
  trackerStats := ⟨.invalid, 0⟩
  servicingTracker := .invalid
  firstInitialHash := 0
  firstTransaction := ⟨1, [], [], 0, 0⟩
  secondTransaction := ⟨1, [], [], 0, 0⟩
  signature := []
  monitorData := ⟨[], [], []⟩
  servicingMonitor := .invalid
  resolvedBy := none
  asked := none
  errors := []
  sent := none

/-- `CIndicateErrorCondition` -/
def indicateErrorCondition (a : CPayLocalApplicationAction) (error : CAppError) :
    CPayLocalApplicationAction :=
  { a with state := .indicateErrorCondition, errors := a.errors ++ [error], exit := true }

/-- The constructor of `CServiceByTracker`. No value where its assertion fails. -/
def enterServiceByTracker (a : CPayLocalApplicationAction) (context : PaymentContext)
    (keyId : CKeyID) : Option CPayLocalApplicationAction :=
  (context.getTrackerStats H keyId).map fun trackerStats =>
    let a := { a with state := .serviceByTracker, trackerStats := trackerStats }
    match context.createTransaction [(a.privKeyId, a.value)] [] trackerStats.key trackerStats.price with
    | none => { a with errors := a.errors ++ [.notEnoughFunds], exit := true }
    | some tx => { a with servicingTracker := trackerStats.key, firstInitialHash := tx.getHash H }

def reactTimeEvent (a : CPayLocalApplicationAction) (context : PaymentContext) :
    Option CPayLocalApplicationAction :=
  if context.isClientReady ∧ a.userEnabled then
    match a.trackers.find? fun keyId => (context.getTrackerStats H keyId).isSome with
    | some keyId => a.enterServiceByTracker H context keyId
    | none =>
      match a.monitors.find? (· ∈ context.monitors) with
      | some _ => some { a with state := .resolveByMonitor }
      | none => some a
  else some a

/-- The price of the best tracker is not kept, so the last one that is known is taken. -/
def best (context : PaymentContext) (trackers : List CTrackerData) : CTrackerStats :=
  trackers.foldl (fun best tracker =>
    match context.getTrackerStats H (tracker.publicKey.getID H) with
    | none => best
    | some trackerStats => if trackerStats.price < 0xffffffff then trackerStats else best)
    ⟨.invalid, 0⟩

/-- The outcome of `Verify` is not looked at. -/
def reactMonitorData (a : CPayLocalApplicationAction) (context : PaymentContext) (ip : Bytes)
    (monitor : CPubKey) (monitorData : CMonitorData) : Option CPayLocalApplicationAction :=
  let a := { a with
    monitorData := monitorData
    servicingMonitor := (context.ipToKey ip).getD .invalid
    resolvedBy := some monitor }
  a.enterServiceByTracker H context ((best H context monitorData.trackers).key.getID H)

/-- The constructor of `CSecondTransaction`. No value where its assertion fails:
`findOutputInTransaction` has found nothing, or a script that cannot be read. -/
def enterSecondTransaction (a : CPayLocalApplicationAction) (context : PaymentContext) :
    Option CPayLocalApplicationAction :=
  let txOuts := findOutputInTransaction H a.privKeyId a.firstTransaction.vout
  if txOuts = [] ∨ ¬a.firstTransaction.vout.all (·.scriptPubKey.parses) then none
  else
    let a := { a with state := .secondTransaction }
    match context.createTransaction [(a.targetKey, a.value)] txOuts a.trackerStats.key
        a.trackerStats.price with
    | none => some { a with errors := a.errors ++ [.notEnoughFunds], exit := true }
    | some _ => some a

def reactTransactionAck (a : CPayLocalApplicationAction) (status : TransactionsStatus)
    (tx : CTransaction) : CPayLocalApplicationAction :=
  if status = .validated then
    match a.state with
    | .serviceByTracker => { a with
        state := .checkTransactionStatus
        firstTransaction := tx
        asked := some (.byKey (a.trackerStats.key.getID H)) }
    | .secondTransaction => { a with
        state := .secondCheck
        secondTransaction := tx
        asked := some (.byKey (a.trackerStats.key.getID H)) }
    | _ => a
  else a

/-- `CSendTransactionData` -/
def sendTransactionData (a : CPayLocalApplicationAction) : CPayLocalApplicationAction :=
  { a with
    state := .sendTransactionData
    sent := some ⟨a.secondTransaction, a.signature, a.servicingTracker, a.monitorData,
      a.servicingMonitor⟩ }

/-- The answer of a tracker to the question for the status of the transaction that the action
waits for. It is signed if the transaction is confirmed. -/
def reactTransactionStatus (a : CPayLocalApplicationAction) (context : PaymentContext)
    (tracker : CPubKey) (nodePtr : ℕ) (status : TransactionsStatus) :
    Option CPayLocalApplicationAction :=
  match a.state, status with
  | .checkTransactionStatus, .confirmed => a.enterSecondTransaction H context
  | .checkTransactionStatus, .unconfirmed => some { a with asked := some .trackersRep }
  | .secondCheck, .confirmed => some
      { a with signature := S.sign tracker (a.secondTransaction.getHash H) }.sendTransactionData
  | .secondCheck, .unconfirmed => some { a with asked := some (.trackersRepExcept nodePtr) }
  | _, _ => some a

inductive Event
  /-- The client has been asked; `m_userEnabled` is set when it has refused, too. -/
  | userAsked (accepts : Bool)
  | timeEvent (context : PaymentContext)
  /-- The monitor signs the lists that it sends. -/
  | monitorData (context : PaymentContext) (ip : Bytes) (monitor : CPubKey)
      (trackers : List CTrackerData) (monitors : List CNodeInfo)
  | noMedium
  | transactionAck (status : TransactionsStatus) (tx : CTransaction)
  | transactionStatus (context : PaymentContext) (tracker : CPubKey) (nodePtr : ℕ)
      (status : TransactionsStatus)

def signedData (monitor : CPubKey) (trackers : List CTrackerData) (monitors : List CNodeInfo) :
    Option CMonitorData :=
  signMonitorData H ⟨monitor, S.sign monitor⟩ ⟨trackers, monitors, []⟩

/-- No value where the program is aborted. -/
def react (a : CPayLocalApplicationAction) (event : Event) : Option CPayLocalApplicationAction :=
  if a.exit then some a
  else
    match a.state, event with
    | .checkAppData, .userAsked accepts =>
      some { if accepts then a else a.indicateErrorCondition .refusedByClient with
        userEnabled := true }
    | .checkAppData, .timeEvent context => a.reactTimeEvent H context
    | .resolveByMonitor, .monitorData context ip monitor trackers monitors =>
      (signedData H S monitor trackers monitors).bind (a.reactMonitorData H context ip monitor)
    | .resolveByMonitor, .noMedium => none
    | _, .transactionAck status tx => some (a.reactTransactionAck H status tx)
    | _, .transactionStatus context tracker nodePtr status =>
      a.reactTransactionStatus H S context tracker nodePtr status
    | _, _ => some a

def step (a : Option CPayLocalApplicationAction) (event : Event) :
    Option CPayLocalApplicationAction :=
  a.bind fun a => a.react H S event

end CPayLocalApplicationAction

/-- `CPaymentProcessing::verifyData`: the checks of the signatures. -/
def CPayApplicationData.verifyData (H : HashFunctions) (S : SignatureScheme)
    (possibleMonitor possibleTracker : CPubKey → Bool) (data : CPayApplicationData) : Bool :=
  let transactionVerified := S.verify data.servicingTracker (data.transaction.getHash H)
    data.transactionStatusSignature
  possibleMonitor data.servicingMonitor &&
      verifyMonitorData H S data.servicingMonitor data.monitorData = some true &&
      data.monitorData.trackers.any (·.publicKey = data.servicingTracker) && transactionVerified ||
    possibleTracker data.servicingTracker && transactionVerified

end Dims
