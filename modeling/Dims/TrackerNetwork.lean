import Dims.BundleApproval
import Dims.BundleTransfer

/-!
# Trackers that validate bundles together

Every tracker of the network is connected to the others, all are active, and each keeps a record
manager of its own. A bundle has an action at every tracker it has come to. What is under way for
it arrives in any order, and nothing is lost; a validation reads the coins view when it is run,
and its result reaches the action later. Time-outs do not fire, and the wallet and the storage of
a tracker are not part of the model.
-/

namespace Dims
open ByteCodec Serialize

/-- What the trackers have in common, how each signs, and who they are. -/
structure TrackerNetwork where
  env : Environment
  signatures : SignatureScheme
  sign : CPubKey → Uint256 → Bytes
  trackers : List CPubKey

/-- The trackers are told apart by the ids of their keys, and their signatures are accepted. -/
structure TrackerNetwork.Honest (net : TrackerNetwork) : Prop where
  distinct : (net.trackers.map (CPubKey.getID net.env.hashes)).Nodup
  verifies : ∀ x ∈ net.trackers, ∀ hash, net.signatures.verify x hash (net.sign x hash) = true

inductive Delivery
  | message (sender : CPubKey) (message : CMessage)
  | ack
  | noMedium
  /-- A validation that has not been run. -/
  | validation (transactions : List CTransaction)
  | validated (invalidTransactionIndexes : List ℕ)
  deriving DecidableEq

structure Parcel where
  receiver : CPubKey
  delivery : Delivery
  deriving DecidableEq

/-- A bundle under its action key: the tracker that has started it, the actions, and what is
under way to them. -/
structure BundleRun where
  initiator : Option CPubKey
  actions : CPubKey → Option CValidateTransactionsAction
  underWay : List Parcel

structure NetworkState where
  managers : CPubKey → CTransactionRecordManager
  bundles : Uint256 → BundleRun
  /-- The bundles that `addValidatedTransactionBundle` has added, the oldest first. -/
  applied : CPubKey → List (Uint256 × List CTransaction)

/-- What a step finds outside: the id that its messages get, the time, and whether a monitor is
connected. -/
structure Stamp where
  id : Uint256
  time : Int64
  monitored : Bool

inductive NetworkEvent
  | start (tracker : CPubKey) (actionKey : Uint256) (transactions : List CTransaction)
  | deliver (actionKey : Uint256) (index : ℕ) (stamp : Stamp)
  | cleanup (tracker : CPubKey) (actionKey : Uint256)

/-- The bundle that the event is about. -/
def NetworkEvent.actionKey : NetworkEvent → Uint256
  | .start _ k _ => k
  | .deliver k _ _ => k
  | .cleanup _ k => k

namespace CValidateTransactionsAction

def isApproved (a : CValidateTransactionsAction) : Bool :=
  match a.state with
  | .approved => true
  | _ => false

/-- The bundle that the action has found valid and not yet added. -/
def held (a : CValidateTransactionsAction) : Option (List CTransaction) :=
  match a.state with
  | .propagateBundle _ | .broadcastBundle .. | .passBundleValidate _ => some a.transactions
  | _ => none

/-- The bundle with which the action goes on after a validation. -/
def takenUp (a : CValidateTransactionsAction) : ActionEvent → Option (List CTransaction)
  | .validation invalidTransactionIndexes =>
    match a.state with
    | .originInitial =>
      let kept := CTransactionRecordManager.dropInvalid a.transactions invalidTransactionIndexes
      if kept = [] then none else some kept
    | .passBundle => if invalidTransactionIndexes = [] then some a.transactions else none
    | _ => none
  | _ => none

end CValidateTransactionsAction

namespace NetworkState

def initial (managers : CPubKey → CTransactionRecordManager) : NetworkState :=
  ⟨managers, fun _ => ⟨none, fun _ => none, []⟩, fun _ => []⟩

def put (s : NetworkState) (k : Uint256) (run : BundleRun) : NetworkState :=
  { s with bundles := Function.update s.bundles k run }

/-- `addValidatedTransactionBundle` was called in `CApproved`; no value where it has thrown or
aborted. -/
def add (s : NetworkState) (x : CPubKey) (k : Uint256) (transactions : List CTransaction) :
    BundleResult × CTransactionRecordManager → Option NetworkState
  | (.returned true, manager) => some { s with
      managers := Function.update s.managers x manager
      applied := Function.update s.applied x (s.applied x ++ [(k, transactions)]) }
  | (.returned false, manager) =>
    some { s with managers := Function.update s.managers x manager }
  | _ => none

end NetworkState

namespace TrackerNetwork

variable (net : TrackerNetwork)

section Media

def others (x : CPubKey) : List CPubKey := net.trackers.filter fun y => y ≠ x

/-- `getMediums`, for the media of trackers. -/
def getMediums (x : CPubKey) : CMediumFilter → List CPubKey
  | .trackers => net.others x
  | .monitors => []
  | .trackersExcept exceptions =>
    (net.others x).filter fun y => y.getID net.env.hashes ∉ exceptions
  | .nodes keyIds => (net.others x).filter fun y => y.getID net.env.hashes ∈ keyIds
  | .byKey key =>
    (net.others x).filter fun y => y.getID net.env.hashes = key.getID net.env.hashes

/-- A message without a medium is answered with `CNoMedium`. -/
def send (x : CPubKey) (filter : CMediumFilter) (message : CMessage) : List Parcel :=
  match net.getMediums x filter with
  | [] => [⟨x, .noMedium⟩]
  | receivers => receivers.map fun y => ⟨y, .message x message⟩

/-- What is under way once a request has been run. A monitor that is sent a bundle acknowledges
it. -/
def post (x : CPubKey) (actionKey : Uint256) (stamp : Stamp) : CRequest → Option (List Parcel)
  | .sendTransactions transactions filter =>
    match filter with
    | .monitors => some [⟨x, if stamp.monitored then .ack else .noMedium⟩]
    | filter =>
      (CMessage.ofPayload net.env.hashes ⟨x, net.sign x⟩ CPayloadKind.transactions.toInt
        ((vector CTransaction.networkCodec).encode transactions) actionKey stamp.id
        stamp.time).map (net.send x filter)
  | .sendStatus status respondsTo filter =>
    (CMessage.ofPayload net.env.hashes ⟨x, net.sign x⟩ CPayloadKind.statusTransactions.toInt
      (int32.encode status.toInt) actionKey (respondsTo.getD stamp.id) stamp.time).map
        (net.send x filter)
  | .forward message prevKey filter =>
    (message.wrap net.env.hashes ⟨x, net.sign x⟩ prevKey actionKey stamp.id stamp.time).map
      (net.send x filter)
  | .ack _ filter => some ((net.getMediums x filter).map fun y => ⟨y, .ack⟩)
  | .validateTransactions transactions => some [⟨x, .validation transactions⟩]
  | .timeEvent _ => some []

def postAll (x : CPubKey) (actionKey : Uint256) (stamp : Stamp) (requests : List CRequest) :
    Option (List Parcel) :=
  (requests.mapM (net.post x actionKey stamp)).map List.flatten

end Media

section Steps

def context (s : NetworkState) (x : CPubKey) : NodeContext where
  hashes := net.env.hashes
  signatures := net.signatures
  networkTrackers := net.others x
  isActiveNode _ := true
  addBundle txs := ((s.managers x).addValidatedTransactionBundle net.env txs).1 = .returned true

/-- The action of a tracker reacts, its new requests are run, and the bundle is added when the
action gets to `CApproved`. What else is under way is `rest`. -/
def act (s : NetworkState) (x : CPubKey) (k : Uint256) (stamp : Stamp) (rest : List Parcel)
    (a : CValidateTransactionsAction) (event : ActionEvent) : Option NetworkState :=
  (a.react (net.context s x) event).bind fun a' =>
    (net.postAll x k stamp (a'.requests.drop a.requests.length)).bind fun parcels =>
      let s' := s.put k ⟨(s.bundles k).initiator,
        Function.update (s.bundles k).actions x (some a'), rest ++ parcels⟩
      if a'.isApproved ∧ ¬a.isApproved then
        s'.add x k a'.transactions
          ((s.managers x).addValidatedTransactionBundle net.env a'.transactions)
      else some s'

/-- A parcel arrives. A message for no action makes one if it carries a bundle, and is dropped
otherwise. Only a status comes to an action that is there: whatever else a message carries, it is
looked up under a request that has never been made. -/
def arrive (s : NetworkState) (k : Uint256) (stamp : Stamp) (rest : List Parcel)
    (parcel : Parcel) : Option NetworkState :=
  let x := parcel.receiver
  let dropped := s.put k { s.bundles k with underWay := rest }
  let react := fun event => match (s.bundles k).actions x with
    | some a => net.act s x k stamp rest a event
    | none => some dropped
  match parcel.delivery with
  | .message sender message =>
    match (s.bundles k).actions x with
    | some a =>
      if message.header.payloadKind = CPayloadKind.statusTransactions.toInt then
        net.act s x k stamp rest a (.messageResult message sender)
      else none
    | none =>
      if message.header.payloadKind = CPayloadKind.transactions.toInt then
        net.act s x k stamp rest (.passing k) (.messageResult message sender)
      else some dropped
  | .ack => react .ack
  | .noMedium => react .noMedium
  | .validated invalidTransactionIndexes => react (.validation invalidTransactionIndexes)
  | .validation transactions =>
    let validated := (s.managers x).validateTransactionBundle net.env transactions
    some { s.put k { s.bundles k with underWay := rest ++ [⟨x, .validated validated.1.2⟩] } with
      managers := Function.update s.managers x validated.2 }

/-- One step of the network; no value where the event cannot happen, and where it aborts a
tracker or leaves undefined what it does. The key of an action is new. -/
def step (s : NetworkState) : NetworkEvent → Option NetworkState
  | .start x k transactions =>
    if x ∈ net.trackers ∧ (s.bundles k).initiator = none then
      some (s.put k ⟨some x, Function.update (s.bundles k).actions x
        (some (.origin k transactions)), [⟨x, .validation transactions⟩]⟩)
    else none
  | .deliver k index stamp =>
    (s.bundles k).underWay[index]?.bind fun parcel =>
      net.arrive s k stamp ((s.bundles k).underWay.eraseIdx index) parcel
  | .cleanup x k =>
    ((s.bundles k).actions x).bind fun a =>
      if a.exit then
        some (s.put k { s.bundles k with actions := Function.update (s.bundles k).actions x none })
      else none

def next (s : Option NetworkState) (event : NetworkEvent) : Option NetworkState :=
  s.bind fun s => net.step s event

end Steps

end TrackerNetwork

end Dims
