import Dims.Leases
import Dims.PaidRegistration

/-!
# Registration of trackers

monitor/admitTrackerAction.cpp, with the expiry of the reputation tracker, the ranking
database and the entering of another network. A tracker is registered for a time, in the map of
the reputation tracker and in the database, which are written by separate calls.
-/

namespace Dims
open CReputationTracker

/-- The states in which nothing is to be paid, and the end of the action or its transition to
`CPaidRegistration`, where it is one of the paid actions. -/
inductive AdmitState
  | waitForInfo
  | extendRegistration
  | left
  deriving DecidableEq, Repr

structure CAdmitTrackerAction where
  partnerKey : CPubKey
  state : AdmitState

/-- A monitor with its actions that admit trackers. The price, the reputation tracker and the
actions that are to be paid are those of the paid admission. -/
structure TrackerRegistration where
  paid : PaidAdmission
  /-- `CRankingDatabase`, by the ids of the keys. -/
  database : OrderedMap CKeyID CTrackerData
  actions : List CAdmitTrackerAction
  period : UInt64
  admitted : Bool
  /-- `GetTime` -/
  time : Int64
  /-- What the trackers were granted: the purpose of the registration, and not a part of the
  source. -/
  leases : Leases CKeyID

namespace TrackerRegistration

inductive Event
  /-- The clock does not go back. -/
  | clock (now : Int64)
  | setPeriod (period : UInt64)
  | setAdmitted (admitted : Bool)
  /-- A tracker asks to be admitted. -/
  | register (partnerKey : CPubKey)
  /-- `react( CMessageResult )` with `AdmitAsk`; the address of the partner is known. -/
  | admitAsk (action : ℕ) (address : CAddress) (uninitialized : Int64)
  | ack (action : ℕ) (address : CAddress) (uninitialized : Int64)
  | timeEvent (action : ℕ)
  /-- An event of the paid admission. -/
  | paid (event : PaidAdmission.Event)
  /-- An iteration of `CReputationTracker::loop`. -/
  | loop
  /-- `CFetchRankingTimeAndInfo::react`; the address of the partner is known. -/
  | enter (partnerKey : CPubKey) (address : CAddress) (info : CRankingFullInfo)
  | restart (storeTransactions : Bool)
  | storeCurrentRanking
  | loadCurrentRanking

variable (env : ReputationContext)

abbrev reputation (s : TrackerRegistration) : CReputationTracker := s.paid.reputation

def setReputation (s : TrackerRegistration) (t : CReputationTracker) : TrackerRegistration :=
  { s with paid := { s.paid with reputation := t } }

/-- `writeTrackerData` -/
def writeTrackerData (database : OrderedMap CKeyID CTrackerData) (data : CTrackerData) :
    OrderedMap CKeyID CTrackerData :=
  database.assign (keyId env data.publicKey) data

/-- `writeTrackerData` and `addTracker` -/
def writeAndAdd (s : TrackerRegistration) (data : CTrackerData) : TrackerRegistration :=
  { s.setReputation (s.reputation.addTracker env data) with
    database := writeTrackerData env s.database data }

def leave (s : TrackerRegistration) (i : ℕ) (a : CAdmitTrackerAction) : TrackerRegistration :=
  { s with actions := s.actions.set i { a with state := .left } }

/-- What is registered where there is no price: the time starts again. -/
def freeTracker (s : TrackerRegistration) (partnerKey : CPubKey) (address : CAddress) : CTrackerData :=
  match s.reputation.getTracker (keyId env partnerKey) with
  | some data => { data with networkTime := s.period, contractTime := s.time.toUInt64 }
  | none => ⟨⟨partnerKey, address⟩, 0, s.period, s.time.toUInt64⟩

def grantFree (s : TrackerRegistration) (partnerKey : CPubKey) (address : CAddress) :
    TrackerRegistration :=
  { s.writeAndAdd env (s.freeTracker env partnerKey address) with
    leases := s.leases.renew (keyId env partnerKey) s.time.toInt s.period.toNat }

/-- `transit< CPaidRegistration >` -/
def transit (s : TrackerRegistration) (i : ℕ) (a : CAdmitTrackerAction) (uninitialized : Int64) :
    TrackerRegistration :=
  { s.leave i a with paid := s.paid.construct env .registration a.partnerKey s.time uninitialized }

def reactAdmitAsk (s : TrackerRegistration) (i : ℕ) (a : CAdmitTrackerAction) (address : CAddress)
    (uninitialized : Int64) : TrackerRegistration :=
  match a.state with
  | .waitForInfo => if s.admitted then s else s.leave i a
  | .extendRegistration =>
    if s.paid.price ≠ 0 then s.transit env i a uninitialized
    else if s.admitted then (s.grantFree env a.partnerKey address).leave i a
    else s.leave i a
  | .left => s

/-- With a price, an action waits for its time event if there are trackers. -/
def reactAck (s : TrackerRegistration) (i : ℕ) (a : CAdmitTrackerAction) (address : CAddress)
    (uninitialized : Int64) : TrackerRegistration :=
  match a.state with
  | .waitForInfo =>
    if s.paid.price ≠ 0 then
      if s.reputation.registeredTrackers.entries = [] then s.transit env i a uninitialized else s
    else
      ((s.setReputation (s.reputation.addNodeToSynch (keyId env a.partnerKey))).grantFree env
        a.partnerKey address).leave i a
  | .extendRegistration | .left => s

def reactTime (s : TrackerRegistration) (i : ℕ) (a : CAdmitTrackerAction) : TrackerRegistration :=
  match a.state with
  | .waitForInfo => s.leave i a
  | .extendRegistration =>
    (s.setReputation { s.reputation with
      extendInProgress := s.reputation.extendInProgress.erase a.partnerKey }).leave i a
  | .left => s

/-- A paid admission takes its time and its period from here, and its registrations begin
by a transition. -/
def stamp (s : TrackerRegistration) : PaidAdmission.Event → PaidAdmission.Event
  | .start _ partnerKey _ uninitialized => .start .enterance partnerKey s.time uninitialized
  | .time i _ _ tryPeriod address => .time i s.time s.period tryPeriod address
  | event => event

/-- The tracker that `CPaidRegistration` registers, if an event leads to it. -/
def paidTracker (p : PaidAdmission) : PaidAdmission.Event → Option CTrackerData
  | .time i now period _ address => (p.actions[i]?).bind fun a =>
    if a.Waits ∧ a.kind = .registration ∧ p.chargeRegister.isTransactionPresent a.proofHash then
      some (p.grantedTracker env a now period address)
    else none
  | _ => none

def reactPaid (s : TrackerRegistration) (event : PaidAdmission.Event) : TrackerRegistration :=
  match paidTracker env s.paid event with
  | some data =>
    { s with
      paid := s.paid.step env event
      database := writeTrackerData env s.database data
      leases := s.leases.prolong (keyId env data.publicKey) s.time.toInt s.period.toNat }
  | none => { s with paid := s.paid.step env event }

def check (s : TrackerRegistration) : TrackerRegistration :=
  let c := s.reputation.iterate env s.time
  { s.setReputation c.reputation with
    database := c.toBeRemoved.foldl OrderedMap.erase s.database
    actions := s.actions ++ c.admitted.map fun key => ⟨key, .extendRegistration⟩
    leases := s.leases.expire s.time.toInt }

/-- What becomes of a tracker that was registered before the network was entered. -/
def keptTracker (t : CReputationTracker) (data : CTrackerData) : Option CTrackerData :=
  if (t.allyTrackersRankings.lookup (keyId env data.publicKey)).isSome then none
  else some { data with reputation := 0 }

/-- The body of the loop over the old trackers. -/
def keepTracker (t : CReputationTracker) (data : CTrackerData) : CReputationTracker :=
  (keptTracker env t data).elim t (t.addTracker env)

/-- The ranking of the network that is entered, before the old trackers are looked at. -/
def enteredRanking (t : CReputationTracker) (partnerKey : CPubKey) (address : CAddress)
    (info : CRankingFullInfo) : CReputationTracker :=
  let t := t.clearRankingData.addAllyMonitor env ⟨⟨partnerKey, address⟩⟩
  let t := info.allyTrackers.foldl (addAllyTracker env) t
  let t := info.allyMonitors.foldl (addAllyMonitor env) t
  let t := info.trackers.foldl (fun t data => t.addAllyTracker env ⟨data, partnerKey⟩) t
  info.synchronizedTrackers.foldl setTrackerSynchronized t

/-- The trackers of other monitors in a ranking. -/
def takenOver (info : CRankingFullInfo) : List CKeyID :=
  info.allyTrackers.map (fun data => keyId env data.publicKey) ++
    info.trackers.map fun data => keyId env data.publicKey

/-- `clearRankingData` resets the database, and nothing is written to it afterwards. -/
def enter (s : TrackerRegistration) (partnerKey : CPubKey) (address : CAddress)
    (info : CRankingFullInfo) : TrackerRegistration :=
  let oldTrackers := s.reputation.registeredTrackers.entries.map Prod.snd
  let t := oldTrackers.foldl (keepTracker env)
    (enteredRanking env s.reputation partnerKey address info)
  { s.setReputation { t with presentNodes := insert (keyId env partnerKey) t.presentNodes } with
    database := .empty
    leases := s.leases.revoke (takenOver env info) }

/-- The body of the loop in the constructor of the reputation tracker. -/
def loadTracker (t : CReputationTracker) (data : CTrackerData) : CReputationTracker :=
  (t.addTracker env data).addNodeToSynch (keyId env data.publicKey)

/-- The process starts, with what the constructors set; of the memory only the database is left. -/
def restart (s : TrackerRegistration) (storeTransactions : Bool) : TrackerRegistration :=
  { s with
    paid := .start storeTransactions
      ((s.database.entries.map Prod.snd).foldl (loadTracker env) .empty) 0 0
    actions := []
    period := 3600
    admitted := false }

def storeCurrentRanking (s : TrackerRegistration) : TrackerRegistration :=
  let trackers := s.reputation.registeredTrackers.entries.map Prod.snd
  { s with database := trackers.foldl (writeTrackerData env) s.database }

/-- The entries that are there already stay. -/
def loadEntry (trackers : OrderedMap CKeyID CTrackerData) (data : CTrackerData) :
    OrderedMap CKeyID CTrackerData :=
  trackers.insertNew (keyId env data.publicKey) data

def loadCurrentRanking (s : TrackerRegistration) : TrackerRegistration :=
  let entries := s.database.entries.map Prod.snd
  let trackers := entries.foldl (loadEntry env) s.reputation.registeredTrackers
  s.setReputation { s.reputation with registeredTrackers := trackers }

def step (s : TrackerRegistration) : Event → TrackerRegistration
  | .clock now => if s.time ≤ now then { s with time := now } else s
  | .setPeriod period => { s with period := period }
  | .setAdmitted admitted => { s with admitted := admitted }
  | .register partnerKey => { s with actions := s.actions ++ [⟨partnerKey, .waitForInfo⟩] }
  | .admitAsk i address uninitialized =>
    match s.actions[i]? with
    | some a => s.reactAdmitAsk env i a address uninitialized
    | none => s
  | .ack i address uninitialized =>
    match s.actions[i]? with
    | some a => s.reactAck env i a address uninitialized
    | none => s
  | .timeEvent i =>
    match s.actions[i]? with
    | some a => s.reactTime i a
    | none => s
  | .paid event => s.reactPaid env (s.stamp event)
  | .loop => s.check env
  | .enter partnerKey address info => s.enter env partnerKey address info
  | .restart storeTransactions => s.restart env storeTransactions
  | .storeCurrentRanking => s.storeCurrentRanking env
  | .loadCurrentRanking => s.loadCurrentRanking env

/-- A monitor without a database, at a time. -/
def start (storeTransactions : Bool) (time : Int64) : TrackerRegistration :=
  ⟨.start storeTransactions .empty 0 0, .empty, [], 3600, false, time, .empty⟩

end TrackerRegistration

end Dims
