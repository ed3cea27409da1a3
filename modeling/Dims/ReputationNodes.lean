import Dims.ReputationTracker
import Dims.TrackerNodesManager

/-!
# The nodes manager of a monitor

The reputation tracker of a monitor is also its nodes manager. It knows its nodes by the
pointer of the connection, by the address and by the key, and it keeps which of the
trackers and monitors of its ranking are present.
-/

namespace Dims

/-- A medium by its address, with the pointer of its node. -/
structure CMonitorNodeMedium where
  medium : ℕ
  node : ℕ
  deriving DecidableEq

structure CReputationNodesManager extends CReputationTracker where
  ptrToNodes : OrderedMap ℕ CMonitorNodeMedium
  /-- Addresses are compared by `ToStringIP`, without the port. -/
  keyStore : OrderedMap (BitVec (8 * 16)) CPubKey
  pubKeyToNodeIndicator : OrderedMap CPubKey ℕ
  knownTrackers : OrderedMap CPubKey CValidNodeInfo
  knownMonitors : OrderedMap CPubKey CValidNodeInfo

namespace CReputationNodesManager
open CReputationTracker

def empty : CReputationNodesManager := ⟨.empty, .empty, .empty, .empty, .empty, .empty⟩

def addNode (m : CReputationNodesManager) (medium : CMonitorNodeMedium) : CReputationNodesManager :=
  { m with ptrToNodes := m.ptrToNodes.insertNew medium.node medium }

def findNodeMedium (m : CReputationNodesManager) (ptr : ℕ) : Option CMonitorNodeMedium :=
  m.ptrToNodes.lookup ptr

/-- The address is read from the node of the medium. -/
def getAddress (m : CReputationNodesManager) (nodes : ℕ → Option CAddress) (nodePtr : ℕ) :
    Option CAddress :=
  (m.ptrToNodes.lookup nodePtr).bind fun medium => nodes medium.node

def setPublicKey (m : CReputationNodesManager) (address : CAddress) (pubKey : CPubKey) :
    CReputationNodesManager :=
  { m with keyStore := m.keyStore.insertNew address.ip pubKey }

def getPublicKey (m : CReputationNodesManager) (address : CAddress) : Option CPubKey :=
  m.keyStore.lookup address.ip

def erasePubKey (m : CReputationNodesManager) (address : CAddress) : CReputationNodesManager :=
  { m with keyStore := m.keyStore.erase address.ip }

def setNodeInfo (m : CReputationNodesManager) (info : CValidNodeInfo) :
    CRole → CReputationNodesManager
  | .seed => m
  | .tracker => { m with knownTrackers := m.knownTrackers.insertNew info.publicKey info }
  | .monitor => { m with knownMonitors := m.knownMonitors.insertNew info.publicKey info }

def setPresentNode (m : CReputationNodesManager) (nodeId : CKeyID) : CReputationNodesManager :=
  { m with presentNodes := insert nodeId m.presentNodes }

def setKeyToNode (m : CReputationNodesManager) (pubKey : CPubKey) (nodeIndicator : ℕ) :
    CReputationNodesManager :=
  { m with
    pubKeyToNodeIndicator := (m.pubKeyToNodeIndicator.erase pubKey).insertNew pubKey nodeIndicator }

def getNodeToKey (m : CReputationNodesManager) (nodeIndicator : ℕ) : Option CPubKey :=
  (m.pubKeyToNodeIndicator.findEntry fun _ indicator => indicator = nodeIndicator).map Prod.fst

variable (env : ReputationContext)

/-- The node of the first key with the id. -/
def getKeyToNode (m : CReputationNodesManager) (pubKeyId : CKeyID) : Option ℕ :=
  (m.pubKeyToNodeIndicator.findEntry fun key _ => keyId env key = pubKeyId).map Prod.snd

/-- The medium of a key; none where an assertion fails. -/
def mediumOfKey (m : CReputationNodesManager) (pubKeyId : CKeyID) : Option CMonitorNodeMedium :=
  (m.getKeyToNode env pubKeyId).bind m.findNodeMedium

/-- The loops over nodes that are only known. -/
def knownMediums (m : CReputationNodesManager) (nodes : OrderedMap CPubKey CValidNodeInfo) :
    List CMonitorNodeMedium :=
  (nodes.entries.map Prod.snd).filterMap fun node => m.mediumOfKey env (keyId env node.publicKey)

/-- The loops over nodes that are present; no value where an assertion fails. -/
def mediumsOf (m : CReputationNodesManager) : List CPubKey → Option (List CMonitorNodeMedium)
  | [] => some []
  | key :: keys =>
    (m.mediumOfKey env (keyId env key)).bind fun medium => (m.mediumsOf keys).map (medium :: ·)

def presentTrackers (m : CReputationNodesManager) : List CPubKey :=
  let present := fun id : CKeyID => decide (id ∈ m.presentNodes ∧ id ∈ m.synchronizedTrackers)
  ((m.registeredTrackers.entries.filter fun entry => present entry.1).map (·.2.publicKey)) ++
    (m.allyTrackersRankings.entries.filter fun entry => present entry.1).map (·.2.publicKey)

def presentMonitors (m : CReputationNodesManager) : List CPubKey :=
  (m.allyMonitors.entries.filter fun entry => entry.1 ∈ m.presentNodes).map (·.2.publicKey)

def getNodesByClass (m : CReputationNodesManager) (isAdmitted : Bool) :
    CMediumKinds → Option (List CMonitorNodeMedium)
  | .dimsNodes =>
    if isAdmitted then m.mediumsOf env (m.presentTrackers ++ m.presentMonitors)
    else some (m.knownMediums env m.knownMonitors ++ m.knownMediums env m.knownTrackers)
  | .trackers =>
    if isAdmitted then m.mediumsOf env m.presentTrackers
    else some (m.knownMediums env m.knownTrackers)
  | .monitors =>
    if isAdmitted then m.mediumsOf env m.presentMonitors
    else some (m.knownMediums env m.knownMonitors)
  | _ => some []

/-- What is left, with the key and the address of the activity action that is started. -/
def eraseMedium (m : CReputationNodesManager) (nodes : ℕ → Option CAddress) (nodePtr : ℕ) :
    CReputationNodesManager × Option (CPubKey × CAddress) :=
  match m.getNodeToKey nodePtr with
  | none => (m, none)
  | some key =>
    let m := { m with
      presentNodes := m.presentNodes.erase (keyId env key)
      pubKeyToNodeIndicator := m.pubKeyToNodeIndicator.erase key }
    match m.getAddress nodes nodePtr with
    | none => (m, none)
    | some address =>
      let m := m.erasePubKey address
      ({ m with ptrToNodes := m.ptrToNodes.erase nodePtr }, some (key, address))

section Lookups

variable {env} {m m' : CReputationNodesManager}

theorem getKeyToNode_eq_some_iff {id : CKeyID} {nodePtr : ℕ} :
    m.getKeyToNode env id = some nodePtr ↔
      ∃ key, m.pubKeyToNodeIndicator.lookup key = some nodePtr ∧ keyId env key = id ∧
        ∀ other < key, keyId env other = id → m.pubKeyToNodeIndicator.lookup other = none := by
  simp only [getKeyToNode, Option.map_eq_some_iff, Prod.exists, OrderedMap.findEntry_eq_some_iff,
    exists_eq_right, decide_eq_true_eq, decide_eq_false_iff_not]
  refine exists_congr fun key => and_congr_right fun _ => and_congr_right fun _ => ?_
  refine forall₂_congr fun other _ => ?_
  rw [Option.eq_none_iff_forall_ne_some]
  constructor
  · intro hnot hid ptr hptr
    exact hnot ptr hptr hid
  · intro hnone ptr hptr hid
    exact hnone hid ptr hptr

theorem getKeyToNode_congr {id : CKeyID} (h : ∀ key, keyId env key = id →
    m'.pubKeyToNodeIndicator.lookup key = m.pubKeyToNodeIndicator.lookup key) :
    m'.getKeyToNode env id = m.getKeyToNode env id := by
  ext nodePtr
  rw [getKeyToNode_eq_some_iff, getKeyToNode_eq_some_iff]
  refine exists_congr fun key => ?_
  constructor
  · rintro ⟨hptr, hid, hfirst⟩
    refine ⟨(h key hid).symm.trans hptr, hid, fun other hlt hother => ?_⟩
    exact (h other hother).symm.trans (hfirst other hlt hother)
  · rintro ⟨hptr, hid, hfirst⟩
    refine ⟨(h key hid).trans hptr, hid, fun other hlt hother => ?_⟩
    exact (h other hother).trans (hfirst other hlt hother)

theorem getNodeToKey_eq_none_iff {nodePtr : ℕ} :
    m.getNodeToKey nodePtr = none ↔ ∀ key, m.pubKeyToNodeIndicator.lookup key ≠ some nodePtr := by
  simp only [getNodeToKey, Option.map_eq_none_iff, OrderedMap.findEntry_eq_none_iff,
    decide_eq_false_iff_not]
  refine forall_congr' fun key => ?_
  constructor
  · intro h hptr
    exact h nodePtr hptr rfl
  · rintro h ptr hptr rfl
    exact h hptr

theorem lookup_setKeyToNode_self (m : CReputationNodesManager) (pubKey : CPubKey) (nodePtr : ℕ) :
    (m.setKeyToNode pubKey nodePtr).pubKeyToNodeIndicator.lookup pubKey = some nodePtr := by
  simp [setKeyToNode, OrderedMap.lookup_insertNew_self]

theorem lookup_setKeyToNode_of_ne {pubKey other : CPubKey} (h : other ≠ pubKey)
    (m : CReputationNodesManager) (nodePtr : ℕ) :
    (m.setKeyToNode pubKey nodePtr).pubKeyToNodeIndicator.lookup other =
      m.pubKeyToNodeIndicator.lookup other := by
  simp [setKeyToNode, OrderedMap.lookup_insertNew_of_ne h, OrderedMap.lookup_erase_of_ne h]

theorem isSome_mediumsOf {keys : List CPubKey} :
    (m.mediumsOf env keys).isSome ↔ ∀ key ∈ keys, (m.mediumOfKey env (keyId env key)).isSome := by
  induction keys with
  | nil => simp [mediumsOf]
  | cons key keys ih =>
    rw [List.forall_mem_cons, ← ih, mediumsOf]
    cases m.mediumOfKey env (keyId env key) with
    | none => simp
    | some medium => simp

end Lookups

end CReputationNodesManager

end Dims
