import Dims.ConnectNodeAction
import Dims.NodeData
import Dims.OrderedMap
import Dims.OrderedSet
import Dims.GuardedRun
import Mathlib.Data.Finset.Erase

/-!
# The nodes manager of a tracker

A tracker knows its nodes by the pointer of the connection, by the address, by the key
and by the role. The maps of a base class and of a derived class describe the same nodes,
and the operations each change some of them.
-/

namespace Dims

inductive CMediumKinds
  | internal | bitcoinsNodes | dimsNodes | trackers | monitors | seeds | time | schedule | all
  deriving DecidableEq, Repr

/-- A medium by its address, with the pointer and the address of its node. -/
structure CTrackerNodeMedium where
  medium : ℕ
  node : ℕ
  address : CAddress
  deriving DecidableEq

structure TrackerContext where
  hashes : HashFunctions
  myKey : CPubKey

structure CTrackerNodesManager where
  ptrToNodes : OrderedMap ℕ CTrackerNodeMedium
  /-- Addresses are compared by `ToStringIP`, without the port. -/
  keyStore : OrderedMap (BitVec (8 * 16)) CPubKey
  pubKeyToNodeIndicator : OrderedMap CKeyID ℕ
  trackers : OrderedMap CKeyID CValidNodeInfo
  monitors : OrderedMap CKeyID CValidNodeInfo
  seeds : OrderedMap CKeyID CValidNodeInfo
  networkTrackers : OrderedMap CKeyID CValidNodeInfo
  networkMonitors : OrderedMap CKeyID CValidNodeInfo
  activeNodes : Finset CKeyID

namespace CTrackerNodesManager

def empty : CTrackerNodesManager :=
  ⟨.empty, .empty, .empty, .empty, .empty, .empty, .empty, .empty, ∅⟩

section Base

def addNode (m : CTrackerNodesManager) (medium : CTrackerNodeMedium) : CTrackerNodesManager :=
  { m with ptrToNodes := m.ptrToNodes.insertNew medium.node medium }

def findNodeMedium (m : CTrackerNodesManager) (ptr : ℕ) : Option CTrackerNodeMedium :=
  m.ptrToNodes.lookup ptr

def getAddress (m : CTrackerNodesManager) (nodePtr : ℕ) : Option CAddress :=
  (m.ptrToNodes.lookup nodePtr).map CTrackerNodeMedium.address

def setPublicKey (m : CTrackerNodesManager) (address : CAddress) (pubKey : CPubKey) :
    CTrackerNodesManager :=
  { m with keyStore := m.keyStore.insertNew address.ip pubKey }

def getPublicKey (m : CTrackerNodesManager) (address : CAddress) : Option CPubKey :=
  m.keyStore.lookup address.ip

end Base

variable (env : TrackerContext)

def keyId (key : CPubKey) : CKeyID := key.getID env.hashes

def setNodeInfo (m : CTrackerNodesManager) (info : CValidNodeInfo) : CRole → CTrackerNodesManager
  | .seed => { m with seeds := m.seeds.insertNew (keyId env info.publicKey) info }
  | .tracker =>
    if env.myKey = info.publicKey then m
    else { m with trackers := m.trackers.insertNew (keyId env info.publicKey) info }
  | .monitor => { m with monitors := m.monitors.insertNew (keyId env info.publicKey) info }

def setKeyToNode (m : CTrackerNodesManager) (pubKey : CPubKey) (nodeIndicator : ℕ) :
    CTrackerNodesManager :=
  { m with
    pubKeyToNodeIndicator := m.pubKeyToNodeIndicator.insertNew (keyId env pubKey) nodeIndicator }

def getKeyToNode (m : CTrackerNodesManager) (keyId : CKeyID) : Option ℕ :=
  m.pubKeyToNodeIndicator.lookup keyId

def getAddresFromKey (m : CTrackerNodesManager) (pubKeyId : CKeyID) : Option CAddress :=
  (m.getKeyToNode pubKeyId).bind m.getAddress

/-- The medium of a key; none where an assertion fails. -/
def mediumOfKey (m : CTrackerNodesManager) (keyId : CKeyID) : Option CTrackerNodeMedium :=
  (m.getKeyToNode keyId).bind m.findNodeMedium

/-- A loop over nodes; no value where an assertion fails. -/
def mediumsOf (m : CTrackerNodesManager) : List CValidNodeInfo → Option (List CTrackerNodeMedium)
  | [] => some []
  | node :: nodes =>
    (m.mediumOfKey (keyId env node.publicKey)).bind fun medium =>
      (m.mediumsOf nodes).map (medium :: ·)

def activeOf (m : CTrackerNodesManager) (nodes : OrderedMap CKeyID CValidNodeInfo) :
    List CValidNodeInfo :=
  (nodes.entries.map Prod.snd).filter fun node => keyId env node.publicKey ∈ m.activeNodes

/-- The trackers and the monitors that are gone through: of the network, those that are
active. -/
def trackersOf (m : CTrackerNodesManager) (isConnected : Bool) : List CValidNodeInfo :=
  if isConnected then m.activeOf env m.networkTrackers else m.trackers.entries.map Prod.snd

def monitorsOf (m : CTrackerNodesManager) (isConnected : Bool) : List CValidNodeInfo :=
  if isConnected then m.activeOf env m.networkMonitors else m.monitors.entries.map Prod.snd

def getNodesByClass (m : CTrackerNodesManager) (isConnected : Bool) :
    CMediumKinds → Option (List CTrackerNodeMedium)
  | .dimsNodes => m.mediumsOf env (m.trackersOf env isConnected ++ m.monitorsOf env isConnected)
  | .trackers => m.mediumsOf env (m.trackersOf env isConnected)
  | .monitors => m.mediumsOf env (m.monitorsOf env isConnected)
  | .seeds => m.mediumsOf env (m.seeds.entries.map Prod.snd)
  | _ => some []

/-- The key of a node is forgotten with its medium, if the address is still known for it. -/
def eraseMedium (m : CTrackerNodesManager) (nodePtr : ℕ) : CTrackerNodesManager :=
  match m.getAddress nodePtr with
  | none => m
  | some address =>
    let m := { m with ptrToNodes := m.ptrToNodes.erase nodePtr }
    match m.getPublicKey address with
    | none => m
    | some pubKey =>
      { m with
        pubKeyToNodeIndicator := m.pubKeyToNodeIndicator.erase (keyId env pubKey)
        activeNodes := m.activeNodes.erase (keyId env pubKey)
        keyStore := m.keyStore.erase address.ip }

def isInNetwork (m : CTrackerNodesManager) (keyId : CKeyID) : Bool :=
  (m.networkTrackers.lookup keyId).isSome ∨ (m.networkMonitors.lookup keyId).isSome

def setNetworkTracker (m : CTrackerNodesManager) (info : CValidNodeInfo) : CTrackerNodesManager :=
  if env.myKey = info.publicKey then m
  else
    { m with
      networkTrackers := m.networkTrackers.insertNew (keyId env info.publicKey) info
      trackers := m.trackers.insertNew (keyId env info.publicKey) info }

def setNetworkMonitor (m : CTrackerNodesManager) (info : CValidNodeInfo) : CTrackerNodesManager :=
  { m with
    networkMonitors := m.networkMonitors.insertNew (keyId env info.publicKey) info
    monitors := m.monitors.insertNew (keyId env info.publicKey) info }

def eraseNetworkTracker (m : CTrackerNodesManager) (keyId : CKeyID) : CTrackerNodesManager :=
  { m with networkTrackers := m.networkTrackers.erase keyId }

def eraseNetworkMonitor (m : CTrackerNodesManager) (keyId : CKeyID) : CTrackerNodesManager :=
  { m with networkMonitors := m.networkMonitors.erase keyId }

def setActiveNode (m : CTrackerNodesManager) (idKey : CKeyID) : CTrackerNodesManager :=
  { m with activeNodes := insert idKey m.activeNodes }

def removeActiveNode (m : CTrackerNodesManager) (idKey : CKeyID) : CTrackerNodesManager :=
  { m with activeNodes := m.activeNodes.erase idKey }

end CTrackerNodesManager

/-- The manager in a run, with the flag of the controller, the mediums that were added and
not erased, and the connection that each key was last identified on. -/
structure TrackerNodes where
  manager : CTrackerNodesManager
  isConnected : Bool
  added : List CTrackerNodeMedium
  latest : CKeyID → Option ℕ

namespace TrackerNodes
open CTrackerNodesManager

inductive Event
  /-- A medium is made by the connecting action or when the first message comes. -/
  | addNode (medium : CTrackerNodeMedium)
  | setPublicKey (address : CAddress) (pubKey : CPubKey)
  /-- `ConnectedToSeed`, which does not set the node of the key. -/
  | connectedToSeed (info : CValidNodeInfo)
  /-- The constructor of `CGetNetworkInfo`. -/
  | getNetworkInfo (info : CValidNodeInfo) (role : CRole) (nodePtr : ℕ)
  | setNetworkTracker (info : CValidNodeInfo)
  | setNetworkMonitor (info : CValidNodeInfo)
  | eraseNetworkTracker (keyId : CKeyID)
  | eraseNetworkMonitor (keyId : CKeyID)
  | setActiveNode (idKey : CKeyID)
  | removeActiveNode (idKey : CKeyID)
  | setConnected (connected : Bool)
  | eraseMedium (nodePtr : ℕ)

variable (env : TrackerContext)

def start : TrackerNodes := ⟨.empty, false, [], fun _ => none⟩

def step (s : TrackerNodes) : Event → TrackerNodes
  | .addNode medium => { s with manager := s.manager.addNode medium, added := s.added ++ [medium] }
  | .setPublicKey address pubKey => { s with manager := s.manager.setPublicKey address pubKey }
  | .connectedToSeed info => { s with manager := s.manager.setNodeInfo env info .seed }
  | .getNetworkInfo info role nodePtr =>
    { s with
      manager := ((s.manager.setNodeInfo env info role).setKeyToNode env info.publicKey
        nodePtr).setActiveNode (keyId env info.publicKey)
      latest := Function.update s.latest (keyId env info.publicKey) (some nodePtr) }
  | .setNetworkTracker info => { s with manager := s.manager.setNetworkTracker env info }
  | .setNetworkMonitor info => { s with manager := s.manager.setNetworkMonitor env info }
  | .eraseNetworkTracker keyId => { s with manager := s.manager.eraseNetworkTracker keyId }
  | .eraseNetworkMonitor keyId => { s with manager := s.manager.eraseNetworkMonitor keyId }
  | .setActiveNode idKey => { s with manager := s.manager.setActiveNode idKey }
  | .removeActiveNode idKey => { s with manager := s.manager.removeActiveNode idKey }
  | .setConnected connected => { s with isConnected := connected }
  | .eraseMedium nodePtr =>
    { s with
      manager := s.manager.eraseMedium env nodePtr
      added := s.added.filter (·.node ≠ nodePtr)
      latest := fun keyId => (s.latest keyId).filter (· ≠ nodePtr) }

/-- Lookups by class, key and node find mediums that were added and not erased, and a key
has its latest connection. -/
structure Consistent (s : TrackerNodes) : Prop where
  byClass : ∀ kind, ∃ mediums, s.manager.getNodesByClass env s.isConnected kind = some mediums ∧
    ∀ medium ∈ mediums, medium ∈ s.added
  byKey : ∀ keyId nodePtr, s.manager.getKeyToNode keyId = some nodePtr →
    ∃ medium, s.manager.findNodeMedium nodePtr = some medium ∧ medium ∈ s.added
  byNode : ∀ nodePtr medium, s.manager.findNodeMedium nodePtr = some medium →
    medium ∈ s.added ∧ medium.node = nodePtr
  latest : ∀ keyId nodePtr, s.latest keyId = some nodePtr →
    s.manager.getKeyToNode keyId = some nodePtr

/-- A key is listed if a lookup by class goes through it. -/
def Listed (s : TrackerNodes) (keyId : CKeyID) : Prop :=
  (s.manager.seeds.lookup keyId).isSome ∨
    if s.isConnected then
      keyId ∈ s.manager.activeNodes ∧ ((s.manager.networkTrackers.lookup keyId).isSome ∨
        (s.manager.networkMonitors.lookup keyId).isSome)
    else (s.manager.trackers.lookup keyId).isSome ∨ (s.manager.monitors.lookup keyId).isSome

/-- The condition of a step: a key that comes to be listed has a node; a key is identified
on a connection that is there, and not on another one while it has one; and a medium that
is erased takes along its key, which has no other connection and is not listed in a class
that it stays in. -/
def Fits (s : TrackerNodes) : Event → Prop
  | .connectedToSeed info => (s.manager.getKeyToNode (keyId env info.publicKey)).isSome
  | .getNetworkInfo info _ nodePtr => (s.manager.findNodeMedium nodePtr).isSome ∧
    ∀ other, s.manager.getKeyToNode (keyId env info.publicKey) = some other → other = nodePtr
  | .setNetworkTracker info => env.myKey ≠ info.publicKey →
    (s.isConnected → keyId env info.publicKey ∈ s.manager.activeNodes) →
      (s.manager.getKeyToNode (keyId env info.publicKey)).isSome
  | .setNetworkMonitor info =>
    (s.isConnected → keyId env info.publicKey ∈ s.manager.activeNodes) →
      (s.manager.getKeyToNode (keyId env info.publicKey)).isSome
  | .setActiveNode idKey => s.isConnected → s.manager.isInNetwork idKey →
    (s.manager.getKeyToNode idKey).isSome
  | .setConnected connected => ∀ keyId, Listed { s with isConnected := connected } keyId →
    (s.manager.getKeyToNode keyId).isSome
  | .eraseMedium nodePtr => ∀ address, s.manager.getAddress nodePtr = some address →
    match s.manager.getPublicKey address with
    | none => ∀ keyId, s.manager.getKeyToNode keyId ≠ some nodePtr
    | some pubKey =>
      (∀ keyId', s.manager.getKeyToNode keyId' = some nodePtr → keyId' = keyId env pubKey) ∧
      (∀ other, s.latest (keyId env pubKey) = some other → other = nodePtr) ∧
      s.manager.seeds.lookup (keyId env pubKey) = none ∧
      (s.isConnected = false → s.manager.trackers.lookup (keyId env pubKey) = none ∧
        s.manager.monitors.lookup (keyId env pubKey) = none)
  | _ => True

variable {env} {m : CTrackerNodesManager} {nodes : OrderedMap CKeyID CValidNodeInfo}

variable (env) in
/-- Nodes are kept under the ids of their keys. -/
def KeyedMap (nodes : OrderedMap CKeyID CValidNodeInfo) : Prop :=
  ∀ id info, nodes.lookup id = some info → keyId env info.publicKey = id

theorem KeyedMap.insertNew (h : KeyedMap env nodes) (info : CValidNodeInfo) :
    KeyedMap env (nodes.insertNew (keyId env info.publicKey) info) := by
  intro id other hother
  rcases OrderedMap.eq_or_lookup_of_insertNew hother with ⟨rfl, rfl⟩ | hold
  · rfl
  · exact h id other hold

theorem KeyedMap.erase (h : KeyedMap env nodes) (keyId : CKeyID) : KeyedMap env (nodes.erase keyId) := by
  intro id info hinfo
  by_cases hid : id = keyId
  · subst hid
    rw [OrderedMap.lookup_erase_self] at hinfo
    cases hinfo
  · rw [OrderedMap.lookup_erase_of_ne hid] at hinfo
    exact h id info hinfo

theorem KeyedMap.forall_iff (h : KeyedMap env nodes) (P : CKeyID → Prop) :
    (∀ info ∈ nodes.entries.map Prod.snd, P (keyId env info.publicKey)) ↔
      ∀ id, (nodes.lookup id).isSome → P id := by
  constructor
  · intro hall id hsome
    obtain ⟨info, hinfo⟩ := Option.isSome_iff_exists.mp hsome
    rw [← h id info hinfo]
    exact hall info (List.mem_map.mpr ⟨(id, info), OrderedMap.mem_entries.mpr hinfo, rfl⟩)
  · intro hall info hinfo
    obtain ⟨⟨id, info⟩, hentry, rfl⟩ := List.mem_map.mp hinfo
    have hlookup := OrderedMap.mem_entries.mp hentry
    rw [h id info hlookup]
    exact hall id (Option.isSome_iff_exists.mpr ⟨info, hlookup⟩)

theorem KeyedMap.forall_activeOf_iff (h : KeyedMap env nodes) (P : CKeyID → Prop) :
    (∀ info ∈ m.activeOf env nodes, P (keyId env info.publicKey)) ↔
      ∀ id, id ∈ m.activeNodes ∧ (nodes.lookup id).isSome → P id := by
  have hall := h.forall_iff fun id => id ∈ m.activeNodes → P id
  simp only [activeOf, List.mem_filter, decide_eq_true_eq]
  constructor
  · rintro hactive id ⟨hid, hsome⟩
    exact hall.mp (fun info hinfo hin => hactive info ⟨hinfo, hin⟩) id hsome hid
  · rintro hactive info ⟨hinfo, hin⟩
    exact hall.mpr (fun id hsome hid => hactive id ⟨hid, hsome⟩) info hinfo hin

theorem isSome_mediumsOf {nodes : List CValidNodeInfo} :
    (m.mediumsOf env nodes).isSome ↔
      ∀ info ∈ nodes, (m.mediumOfKey (keyId env info.publicKey)).isSome := by
  induction nodes with
  | nil => simp [mediumsOf]
  | cons node nodes ih =>
    rw [List.forall_mem_cons, ← ih, mediumsOf]
    cases m.mediumOfKey (keyId env node.publicKey) with
    | none => simp
    | some medium => simp

theorem mem_of_mediumsOf {nodes : List CValidNodeInfo} {mediums : List CTrackerNodeMedium}
    (h : m.mediumsOf env nodes = some mediums) {medium : CTrackerNodeMedium}
    (hmedium : medium ∈ mediums) : ∃ nodePtr, m.findNodeMedium nodePtr = some medium := by
  induction nodes generalizing mediums with
  | nil =>
    cases h
    cases hmedium
  | cons node nodes ih =>
    rw [mediumsOf] at h
    obtain ⟨first, hfirst, hrest⟩ := Option.bind_eq_some_iff.mp h
    obtain ⟨others, hothers, rfl⟩ := Option.map_eq_some_iff.mp hrest
    rcases List.mem_cons.mp hmedium with rfl | hin
    · obtain ⟨nodePtr, -, hfound⟩ := Option.bind_eq_some_iff.mp hfirst
      exact ⟨nodePtr, hfound⟩
    · exact ih hothers hin

variable (env) in
/-- What holds in every run, whether it meets the conditions or not. -/
structure Keyed (m : CTrackerNodesManager) : Prop where
  trackers : KeyedMap env m.trackers
  monitors : KeyedMap env m.monitors
  seeds : KeyedMap env m.seeds
  networkTrackers : KeyedMap env m.networkTrackers
  networkMonitors : KeyedMap env m.networkMonitors
  self : ∀ id info, m.networkTrackers.lookup id = some info → env.myKey ≠ info.publicKey

variable (env) in
structure Invariant (s : TrackerNodes) : Prop where
  keyed : Keyed env s.manager
  byNode : ∀ nodePtr medium, s.manager.findNodeMedium nodePtr = some medium →
    medium ∈ s.added ∧ medium.node = nodePtr

variable {s : TrackerNodes}

theorem forall_trackersOf_iff (h : Keyed env m) (isConnected : Bool) (P : CKeyID → Prop) :
    (∀ info ∈ m.trackersOf env isConnected, P (keyId env info.publicKey)) ↔
      ∀ id, (if isConnected then id ∈ m.activeNodes ∧ (m.networkTrackers.lookup id).isSome
        else (m.trackers.lookup id).isSome) → P id := by
  cases isConnected with
  | true => exact h.networkTrackers.forall_activeOf_iff P
  | false => exact h.trackers.forall_iff P

theorem forall_monitorsOf_iff (h : Keyed env m) (isConnected : Bool) (P : CKeyID → Prop) :
    (∀ info ∈ m.monitorsOf env isConnected, P (keyId env info.publicKey)) ↔
      ∀ id, (if isConnected then id ∈ m.activeNodes ∧ (m.networkMonitors.lookup id).isSome
        else (m.monitors.lookup id).isSome) → P id := by
  cases isConnected with
  | true => exact h.networkMonitors.forall_activeOf_iff P
  | false => exact h.monitors.forall_iff P

/-- No lookup by class fails an assertion if and only if every listed key has a medium. -/
theorem isSome_getNodesByClass_iff (h : Keyed env s.manager) :
    (∀ kind, (s.manager.getNodesByClass env s.isConnected kind).isSome) ↔
      ∀ id, s.Listed id → (s.manager.mediumOfKey id).isSome := by
  have htrackers := forall_trackersOf_iff h s.isConnected fun id => (s.manager.mediumOfKey id).isSome
  have hmonitors := forall_monitorsOf_iff h s.isConnected fun id => (s.manager.mediumOfKey id).isSome
  have hseeds := h.seeds.forall_iff fun id => (s.manager.mediumOfKey id).isSome
  constructor
  · intro hall id hlisted
    rcases hlisted with hseed | hnetwork
    · exact hseeds.mp (isSome_mediumsOf.mp (hall .seeds)) id hseed
    · have htracker := htrackers.mp (isSome_mediumsOf.mp (hall .trackers)) id
      have hmonitor := hmonitors.mp (isSome_mediumsOf.mp (hall .monitors)) id
      split at hnetwork
      case isTrue hconnected =>
        rw [hconnected] at htracker hmonitor
        rcases hnetwork with ⟨hactive, hin | hin⟩
        · exact htracker ⟨hactive, hin⟩
        · exact hmonitor ⟨hactive, hin⟩
      case isFalse hconnected =>
        rw [Bool.eq_false_of_not_eq_true hconnected] at htracker hmonitor
        rcases hnetwork with hin | hin
        · exact htracker hin
        · exact hmonitor hin
  · intro hall kind
    have htracker := htrackers.mpr fun id hin => hall id (.inr (by
      cases hconnected : s.isConnected <;> rw [hconnected] at hin
      · exact .inl hin
      · exact ⟨hin.1, .inl hin.2⟩))
    have hmonitor := hmonitors.mpr fun id hin => hall id (.inr (by
      cases hconnected : s.isConnected <;> rw [hconnected] at hin
      · exact .inr hin
      · exact ⟨hin.1, .inr hin.2⟩))
    have hseed := hseeds.mpr fun id hin => hall id (.inl hin)
    cases kind with
    | dimsNodes =>
      refine isSome_mediumsOf.mpr fun info hinfo => ?_
      rcases List.mem_append.mp hinfo with hin | hin
      · exact htracker info hin
      · exact hmonitor info hin
    | trackers => exact isSome_mediumsOf.mpr htracker
    | monitors => exact isSome_mediumsOf.mpr hmonitor
    | seeds => exact isSome_mediumsOf.mpr hseed
    | _ => rfl

/-- Every listed key has a node, every node of a key has a medium, and it is the latest. -/
structure Sound (s : TrackerNodes) : Prop where
  listed : ∀ id, s.Listed id → (s.manager.getKeyToNode id).isSome
  present : ∀ id nodePtr, s.manager.getKeyToNode id = some nodePtr →
    (s.manager.findNodeMedium nodePtr).isSome
  latest : ∀ id nodePtr, s.latest id = some nodePtr → s.manager.getKeyToNode id = some nodePtr

theorem consistent_iff (h : Invariant env s) : s.Consistent env ↔ s.Sound := by
  constructor
  · intro hconsistent
    have hclass : ∀ kind, (s.manager.getNodesByClass env s.isConnected kind).isSome := fun kind => by
      obtain ⟨mediums, hmediums, -⟩ := hconsistent.byClass kind
      rw [hmediums]
      rfl
    refine ⟨fun id hlisted => ?_, fun id nodePtr hnode => ?_, hconsistent.latest⟩
    · have hmedium := (isSome_getNodesByClass_iff h.keyed).mp hclass id hlisted
      obtain ⟨medium, hmedium⟩ := Option.isSome_iff_exists.mp hmedium
      obtain ⟨nodePtr, hnode, -⟩ := Option.bind_eq_some_iff.mp hmedium
      rw [hnode]
      rfl
    · obtain ⟨medium, hmedium, -⟩ := hconsistent.byKey id nodePtr hnode
      rw [hmedium]
      rfl
  · intro hsound
    have hlisted : ∀ id, s.Listed id → (s.manager.mediumOfKey id).isSome := fun id hid => by
      obtain ⟨nodePtr, hnode⟩ := Option.isSome_iff_exists.mp (hsound.listed id hid)
      rw [mediumOfKey, hnode]
      exact hsound.present id nodePtr hnode
    refine ⟨fun kind => ?_, fun id nodePtr hnode => ?_, h.byNode, hsound.latest⟩
    · obtain ⟨mediums, hmediums⟩ :=
        Option.isSome_iff_exists.mp ((isSome_getNodesByClass_iff h.keyed).mpr hlisted kind)
      refine ⟨mediums, hmediums, fun medium hmedium => ?_⟩
      have hfound : ∃ nodePtr, s.manager.findNodeMedium nodePtr = some medium := by
        cases kind with
        | dimsNodes => exact mem_of_mediumsOf hmediums hmedium
        | trackers => exact mem_of_mediumsOf hmediums hmedium
        | monitors => exact mem_of_mediumsOf hmediums hmedium
        | seeds => exact mem_of_mediumsOf hmediums hmedium
        | _ =>
          cases hmediums
          cases hmedium
      obtain ⟨nodePtr, hnode⟩ := hfound
      exact (h.byNode nodePtr medium hnode).1
    · obtain ⟨medium, hmedium⟩ := Option.isSome_iff_exists.mp (hsound.present id nodePtr hnode)
      exact ⟨medium, hmedium, (h.byNode nodePtr medium hmedium).1⟩

theorem Keyed.setNodeInfo (h : Keyed env m) (info : CValidNodeInfo) (role : CRole) :
    Keyed env (m.setNodeInfo env info role) := by
  cases role with
  | seed => exact { h with seeds := h.seeds.insertNew info }
  | tracker =>
    simp only [CTrackerNodesManager.setNodeInfo]
    split
    · exact h
    · exact { h with trackers := h.trackers.insertNew info }
  | monitor => exact { h with monitors := h.monitors.insertNew info }

theorem Keyed.setNetworkTracker (h : Keyed env m) (info : CValidNodeInfo) :
    Keyed env (m.setNetworkTracker env info) := by
  simp only [CTrackerNodesManager.setNetworkTracker]
  split
  · exact h
  case isFalse hother =>
    refine { h with
      trackers := h.trackers.insertNew info
      networkTrackers := h.networkTrackers.insertNew info
      self := fun id node hnode => ?_ }
    rcases OrderedMap.eq_or_lookup_of_insertNew hnode with ⟨-, rfl⟩ | hold
    · exact hother
    · exact h.self id node hold

theorem Keyed.eraseNetworkTracker (h : Keyed env m) (keyId : CKeyID) :
    Keyed env (m.eraseNetworkTracker keyId) := by
  refine { h with
    networkTrackers := h.networkTrackers.erase keyId
    self := fun id info hinfo => ?_ }
  by_cases hid : id = keyId
  · subst hid
    rw [CTrackerNodesManager.eraseNetworkTracker, OrderedMap.lookup_erase_self] at hinfo
    cases hinfo
  · rw [CTrackerNodesManager.eraseNetworkTracker, OrderedMap.lookup_erase_of_ne hid] at hinfo
    exact h.self id info hinfo

variable (env) in
theorem eraseMedium_spec (m : CTrackerNodesManager) (nodePtr : ℕ) :
    ∃ indicator activeNodes keyStore, m.eraseMedium env nodePtr = { m with
      ptrToNodes := (m.eraseMedium env nodePtr).ptrToNodes
      pubKeyToNodeIndicator := indicator
      activeNodes := activeNodes
      keyStore := keyStore } ∧
    ∀ ptr, (m.eraseMedium env nodePtr).findNodeMedium ptr =
      if ptr = nodePtr then none else m.findNodeMedium ptr := by
  have herased : ∀ ptr, (m.ptrToNodes.erase nodePtr).lookup ptr =
      if ptr = nodePtr then none else m.ptrToNodes.lookup ptr := fun ptr => by
    split
    case isTrue heq =>
      subst heq
      exact OrderedMap.lookup_erase_self ..
    case isFalse hne => exact OrderedMap.lookup_erase_of_ne hne
  simp only [eraseMedium]
  split
  case h_1 hnone =>
    refine ⟨_, _, _, rfl, fun ptr => ?_⟩
    split
    case isTrue heq =>
      subst heq
      exact Option.map_eq_none_iff.mp hnone
    case isFalse => rfl
  case h_2 =>
    split
    · exact ⟨_, _, _, rfl, herased⟩
    · exact ⟨_, _, _, rfl, herased⟩

theorem findNodeMedium_getNetworkInfo (s : TrackerNodes) (info : CValidNodeInfo) (role : CRole)
    (nodePtr ptr : ℕ) :
    (s.step env (.getNetworkInfo info role nodePtr)).manager.findNodeMedium ptr =
      s.manager.findNodeMedium ptr := by
  cases role with
  | tracker =>
    simp only [step, CTrackerNodesManager.setNodeInfo]
    split <;> rfl
  | _ => rfl

theorem getKeyToNode_getNetworkInfo (s : TrackerNodes) (info : CValidNodeInfo) (role : CRole)
    (nodePtr : ℕ) (id : CKeyID) :
    (s.step env (.getNetworkInfo info role nodePtr)).manager.getKeyToNode id =
      (s.manager.pubKeyToNodeIndicator.insertNew (keyId env info.publicKey) nodePtr).lookup id := by
  cases role with
  | tracker =>
    simp only [step, CTrackerNodesManager.setNodeInfo]
    split <;> rfl
  | _ => rfl

theorem invariant_step (h : Invariant env s) (event : Event) : Invariant env (s.step env event) := by
  obtain ⟨hkeyed, hnode⟩ := h
  cases event with
  | addNode medium =>
    refine ⟨{ hkeyed with }, fun nodePtr found hfound => ?_⟩
    rcases OrderedMap.eq_or_lookup_of_insertNew hfound with ⟨rfl, rfl⟩ | hold
    · exact ⟨List.mem_append_right _ (List.mem_singleton_self _), rfl⟩
    · exact ⟨List.mem_append_left _ (hnode nodePtr found hold).1, (hnode nodePtr found hold).2⟩
  | setPublicKey address pubKey => exact ⟨{ hkeyed with }, hnode⟩
  | connectedToSeed info => exact ⟨hkeyed.setNodeInfo info .seed, hnode⟩
  | getNetworkInfo info role nodePtr =>
    have hset := hkeyed.setNodeInfo info role
    refine ⟨{ hset with }, fun ptr medium hmedium => hnode ptr medium ?_⟩
    rwa [findNodeMedium_getNetworkInfo] at hmedium
  | setNetworkTracker info =>
    refine ⟨hkeyed.setNetworkTracker info, fun ptr medium hmedium => hnode ptr medium ?_⟩
    rw [← hmedium]
    simp only [step, CTrackerNodesManager.setNetworkTracker]
    split <;> rfl
  | setNetworkMonitor info =>
    refine ⟨{ hkeyed with
      monitors := hkeyed.monitors.insertNew info
      networkMonitors := hkeyed.networkMonitors.insertNew info }, hnode⟩
  | eraseNetworkTracker keyId => exact ⟨hkeyed.eraseNetworkTracker keyId, hnode⟩
  | eraseNetworkMonitor keyId =>
    exact ⟨{ hkeyed with networkMonitors := hkeyed.networkMonitors.erase keyId }, hnode⟩
  | setActiveNode idKey => exact ⟨{ hkeyed with }, hnode⟩
  | removeActiveNode idKey => exact ⟨{ hkeyed with }, hnode⟩
  | setConnected connected => exact ⟨hkeyed, hnode⟩
  | eraseMedium nodePtr =>
    obtain ⟨indicator, activeNodes, keyStore, heq, hfind⟩ := eraseMedium_spec env s.manager nodePtr
    refine ⟨?_, fun ptr medium hmedium => ?_⟩
    · show Keyed env (s.manager.eraseMedium env nodePtr)
      rw [heq]
      exact { hkeyed with }
    · have hmedium : (s.manager.eraseMedium env nodePtr).findNodeMedium ptr = some medium := hmedium
      rw [hfind] at hmedium
      split at hmedium
      case isTrue => cases hmedium
      case isFalse hptr =>
        obtain ⟨hadded, hptr'⟩ := hnode ptr medium hmedium
        exact ⟨List.mem_filter.mpr ⟨hadded, decide_eq_true (hptr' ▸ hptr)⟩, hptr'⟩

/-- A step that leaves keys and mediums alone is sound if the keys that come to be listed
have nodes. -/
theorem Sound.relist_iff (h : s.Sound) {s' : TrackerNodes} (q : Prop)
    (hkey : s'.manager.pubKeyToNodeIndicator = s.manager.pubKeyToNodeIndicator)
    (hptr : s'.manager.ptrToNodes = s.manager.ptrToNodes) (hlatest : s'.latest = s.latest)
    (hlisted : (∀ id, s'.Listed id → (s.manager.getKeyToNode id).isSome) ↔ q) : s'.Sound ↔ q := by
  rw [← hlisted]
  constructor
  · intro hsound id hid
    have hsome := hsound.listed id hid
    rwa [getKeyToNode, hkey] at hsome
  · intro hall
    refine ⟨fun id hid => ?_, fun id nodePtr hnode => ?_, fun id nodePtr hnode => ?_⟩
    · rw [getKeyToNode, hkey]
      exact hall id hid
    · rw [getKeyToNode, hkey] at hnode
      rw [findNodeMedium, hptr]
      exact h.present id nodePtr hnode
    · rw [hlatest] at hnode
      rw [getKeyToNode, hkey]
      exact h.latest id nodePtr hnode

theorem sound_addNode_iff (h : s.Sound) (medium : CTrackerNodeMedium) :
    (s.step env (.addNode medium)).Sound := by
  refine ⟨h.listed, fun id nodePtr hnode => ?_, h.latest⟩
  exact OrderedMap.isSome_lookup_insertNew.mpr (.inr (h.present id nodePtr hnode))

theorem listed_setActiveNode {idKey id : CKeyID} :
    Listed { s with manager := s.manager.setActiveNode idKey } id ↔
      s.Listed id ∨ id = idKey ∧ s.isConnected ∧ s.manager.isInNetwork idKey := by
  simp only [Listed, CTrackerNodesManager.setActiveNode, isInNetwork, Finset.mem_insert,
    Bool.decide_or, Bool.or_eq_true, decide_eq_true_eq]
  split
  case isTrue hconnected =>
    simp only [hconnected, true_and]
    constructor
    · rintro (hseed | ⟨rfl | hactive, hin⟩)
      · exact .inl (.inl hseed)
      · exact .inr ⟨rfl, hin⟩
      · exact .inl (.inr ⟨hactive, hin⟩)
    · rintro ((hseed | ⟨hactive, hin⟩) | ⟨rfl, hin⟩)
      · exact .inl hseed
      · exact .inr ⟨.inr hactive, hin⟩
      · exact .inr ⟨.inl rfl, hin⟩
  case isFalse hconnected => simp [hconnected]

theorem sound_setActiveNode_iff (h : s.Sound) (idKey : CKeyID) :
    (s.step env (.setActiveNode idKey)).Sound ↔ s.Fits env (.setActiveNode idKey) := by
  refine h.relist_iff _ rfl rfl rfl ⟨fun hall hconnected hin => ?_, fun hfits id hid => ?_⟩
  · exact hall idKey (listed_setActiveNode.mpr (.inr ⟨rfl, hconnected, hin⟩))
  · rcases listed_setActiveNode.mp hid with hold | ⟨rfl, hconnected, hin⟩
    · exact h.listed id hold
    · exact hfits hconnected hin

theorem listed_insertNew {id : CKeyID} (networkTrackers trackers networkMonitors monitors :
      OrderedMap CKeyID CValidNodeInfo) {new : CKeyID}
    (hnetwork : ∀ id, (networkTrackers.lookup id).isSome ∨ (networkMonitors.lookup id).isSome ↔
      id = new ∨ (s.manager.networkTrackers.lookup id).isSome ∨
        (s.manager.networkMonitors.lookup id).isSome)
    (hknown : ∀ id, (trackers.lookup id).isSome ∨ (monitors.lookup id).isSome ↔
      id = new ∨ (s.manager.trackers.lookup id).isSome ∨ (s.manager.monitors.lookup id).isSome) :
    Listed { s with manager := { s.manager with
      networkTrackers := networkTrackers
      networkMonitors := networkMonitors
      trackers := trackers
      monitors := monitors } } id ↔
        s.Listed id ∨ id = new ∧ (s.isConnected → new ∈ s.manager.activeNodes) := by
  simp only [Listed, hnetwork, hknown]
  split
  case isTrue hconnected =>
    simp only [hconnected, forall_const]
    constructor
    · rintro (hseed | ⟨hactive, rfl | hin⟩)
      · exact .inl (.inl hseed)
      · exact .inr ⟨rfl, hactive⟩
      · exact .inl (.inr ⟨hactive, hin⟩)
    · rintro ((hseed | ⟨hactive, hin⟩) | ⟨rfl, hactive⟩)
      · exact .inl hseed
      · exact .inr ⟨hactive, .inr hin⟩
      · exact .inr ⟨hactive, .inl rfl⟩
  case isFalse hconnected =>
    simp only [hconnected, Bool.false_eq_true, false_implies, and_true]
    tauto

theorem sound_setNetworkTracker_iff (h : s.Sound) (info : CValidNodeInfo) :
    (s.step env (.setNetworkTracker info)).Sound ↔ s.Fits env (.setNetworkTracker info) := by
  by_cases hself : env.myKey = info.publicKey
  · have hsame : s.step env (.setNetworkTracker info) = s := by
      simp only [step, CTrackerNodesManager.setNetworkTracker, if_pos hself]
    rw [hsame]
    exact iff_of_true h fun hother => absurd hself hother
  · have hstep : s.step env (.setNetworkTracker info) = { s with manager := { s.manager with
        networkTrackers := s.manager.networkTrackers.insertNew (keyId env info.publicKey) info
        trackers := s.manager.trackers.insertNew (keyId env info.publicKey) info } } := by
      simp only [step, CTrackerNodesManager.setNetworkTracker, if_neg hself]
    have hlisted := fun id => @listed_insertNew s id
      (s.manager.networkTrackers.insertNew (keyId env info.publicKey) info)
      (s.manager.trackers.insertNew (keyId env info.publicKey) info)
      s.manager.networkMonitors s.manager.monitors (keyId env info.publicKey)
      (fun id => by rw [OrderedMap.isSome_lookup_insertNew, or_assoc])
      (fun id => by rw [OrderedMap.isSome_lookup_insertNew, or_assoc])
    rw [hstep]
    refine h.relist_iff _ rfl rfl rfl ⟨fun hall _ hactive => ?_, fun hfits id hid => ?_⟩
    · exact hall _ ((hlisted _).mpr (.inr ⟨rfl, hactive⟩))
    · rcases (hlisted id).mp hid with hold | ⟨rfl, hactive⟩
      · exact h.listed id hold
      · exact hfits hself hactive

theorem sound_setNetworkMonitor_iff (h : s.Sound) (info : CValidNodeInfo) :
    (s.step env (.setNetworkMonitor info)).Sound ↔ s.Fits env (.setNetworkMonitor info) := by
  have hlisted := fun id => @listed_insertNew s id
    s.manager.networkTrackers s.manager.trackers
    (s.manager.networkMonitors.insertNew (keyId env info.publicKey) info)
    (s.manager.monitors.insertNew (keyId env info.publicKey) info) (keyId env info.publicKey)
    (fun id => by rw [OrderedMap.isSome_lookup_insertNew, or_left_comm])
    (fun id => by rw [OrderedMap.isSome_lookup_insertNew, or_left_comm])
  refine h.relist_iff _ rfl rfl rfl ⟨fun hall hactive => ?_, fun hfits id hid => ?_⟩
  · exact hall _ ((hlisted _).mpr (.inr ⟨rfl, hactive⟩))
  · rcases (hlisted id).mp hid with hold | ⟨rfl, hactive⟩
    · exact h.listed id hold
    · exact hfits hactive

theorem sound_connectedToSeed_iff (h : s.Sound) (info : CValidNodeInfo) :
    (s.step env (.connectedToSeed info)).Sound ↔ s.Fits env (.connectedToSeed info) := by
  have hlisted : ∀ id, (s.step env (.connectedToSeed info)).Listed id ↔
      s.Listed id ∨ id = keyId env info.publicKey := fun id => by
    simp only [step, Listed, CTrackerNodesManager.setNodeInfo, OrderedMap.isSome_lookup_insertNew]
    tauto
  refine h.relist_iff _ rfl rfl rfl ⟨fun hall => ?_, fun hfits id hid => ?_⟩
  · exact hall _ ((hlisted _).mpr (.inr rfl))
  · rcases (hlisted id).mp hid with hold | rfl
    · exact h.listed id hold
    · exact hfits

theorem listed_getNetworkInfo {info : CValidNodeInfo} {role : CRole} {nodePtr : ℕ} {id : CKeyID}
    (h : (s.step env (.getNetworkInfo info role nodePtr)).Listed id) :
    s.Listed id ∨ id = keyId env info.publicKey := by
  by_cases hid : id = keyId env info.publicKey
  · exact .inr hid
  · refine .inl ?_
    cases role with
    | tracker =>
      by_cases hself : env.myKey = info.publicKey
      · simpa [step, Listed, CTrackerNodesManager.setNodeInfo, CTrackerNodesManager.setKeyToNode,
          CTrackerNodesManager.setActiveNode, hself, hid] using h
      · simpa [step, Listed, CTrackerNodesManager.setNodeInfo, CTrackerNodesManager.setKeyToNode,
          CTrackerNodesManager.setActiveNode, hself, hid, OrderedMap.isSome_lookup_insertNew] using h
    | seed =>
      simpa [step, Listed, CTrackerNodesManager.setNodeInfo, CTrackerNodesManager.setKeyToNode,
        CTrackerNodesManager.setActiveNode, hid, OrderedMap.isSome_lookup_insertNew] using h
    | monitor =>
      simpa [step, Listed, CTrackerNodesManager.setNodeInfo, CTrackerNodesManager.setKeyToNode,
        CTrackerNodesManager.setActiveNode, hid, OrderedMap.isSome_lookup_insertNew] using h

theorem sound_getNetworkInfo_iff (h : s.Sound) (info : CValidNodeInfo) (role : CRole) (nodePtr : ℕ) :
    (s.step env (.getNetworkInfo info role nodePtr)).Sound ↔
      s.Fits env (.getNetworkInfo info role nodePtr) := by
  constructor
  · intro hsound
    have hnode := hsound.latest (keyId env info.publicKey) nodePtr (Function.update_self ..)
    have hpresent := hsound.present _ _ hnode
    rw [findNodeMedium_getNetworkInfo] at hpresent
    refine ⟨hpresent, fun other hother => ?_⟩
    have hother : s.manager.pubKeyToNodeIndicator.lookup (keyId env info.publicKey) = some other :=
      hother
    rw [getKeyToNode_getNetworkInfo, OrderedMap.lookup_insertNew_self, hother] at hnode
    exact Option.some.inj hnode
  · rintro ⟨hpresent, hsame⟩
    have hself : (s.step env (.getNetworkInfo info role nodePtr)).manager.getKeyToNode
        (keyId env info.publicKey) = some nodePtr := by
      rw [getKeyToNode_getNetworkInfo, OrderedMap.lookup_insertNew_self]
      cases hold : s.manager.pubKeyToNodeIndicator.lookup (keyId env info.publicKey) with
      | none => rfl
      | some old => rw [← hsame old hold, Option.getD_some]
    have hothers : ∀ id, id ≠ keyId env info.publicKey →
        (s.step env (.getNetworkInfo info role nodePtr)).manager.getKeyToNode id =
          s.manager.getKeyToNode id := fun id hid => by
      rw [getKeyToNode_getNetworkInfo, OrderedMap.lookup_insertNew_of_ne hid]
      rfl
    refine ⟨fun id hid => ?_, fun id ptr hnode => ?_, fun id ptr hnode => ?_⟩
    · by_cases hnew : id = keyId env info.publicKey
      · rw [hnew, hself]
        rfl
      · rw [hothers id hnew]
        exact h.listed id ((listed_getNetworkInfo hid).resolve_right hnew)
    · rw [findNodeMedium_getNetworkInfo]
      by_cases hnew : id = keyId env info.publicKey
      · rw [hnew, hself] at hnode
        rwa [← Option.some.inj hnode]
      · rw [hothers id hnew] at hnode
        exact h.present id ptr hnode
    · have hlatest : Function.update s.latest (keyId env info.publicKey) (some nodePtr) id =
          some ptr := hnode
      by_cases hnew : id = keyId env info.publicKey
      · subst hnew
        rwa [Function.update_self, ← hself] at hlatest
      · rw [Function.update_of_ne hnew] at hlatest
        rw [hothers id hnew]
        exact h.latest id ptr hlatest

theorem sound_eraseMedium_of_unknown (h : s.Sound) {nodePtr : ℕ} {address : CAddress}
    (haddress : s.manager.getAddress nodePtr = some address)
    (hunknown : s.manager.getPublicKey address = none) :
    (s.step env (.eraseMedium nodePtr)).Sound ↔
      ∀ keyId, s.manager.getKeyToNode keyId ≠ some nodePtr := by
  have hmanager : s.manager.eraseMedium env nodePtr =
      { s.manager with ptrToNodes := s.manager.ptrToNodes.erase nodePtr } := by
    have hunknown' : getPublicKey { s.manager with
        ptrToNodes := s.manager.ptrToNodes.erase nodePtr } address = none := hunknown
    simp only [CTrackerNodesManager.eraseMedium, haddress, hunknown']
  have hstep : s.step env (.eraseMedium nodePtr) = { s with
      manager := { s.manager with ptrToNodes := s.manager.ptrToNodes.erase nodePtr }
      added := s.added.filter (·.node ≠ nodePtr)
      latest := fun keyId => (s.latest keyId).filter (· ≠ nodePtr) } := by
    rw [← hmanager]
    rfl
  rw [hstep]
  constructor
  · intro hsound keyId hnode
    have hpresent := OrderedMap.isSome_lookup_erase.mp (hsound.present keyId nodePtr hnode)
    exact hpresent.1 rfl
  · intro hnone
    refine ⟨h.listed, fun id ptr hnode => ?_, fun id ptr hlatest => ?_⟩
    · have hne : ptr ≠ nodePtr := fun heq => hnone id (heq ▸ hnode)
      exact OrderedMap.isSome_lookup_erase.mpr ⟨hne, h.present id ptr hnode⟩
    · exact h.latest id ptr (Option.filter_eq_some_iff.mp hlatest).1

theorem eraseMedium_of_known {nodePtr : ℕ} {address : CAddress} {pubKey : CPubKey}
    (haddress : m.getAddress nodePtr = some address)
    (hknown : m.getPublicKey address = some pubKey) :
    m.eraseMedium env nodePtr = { m with
      ptrToNodes := m.ptrToNodes.erase nodePtr
      pubKeyToNodeIndicator := m.pubKeyToNodeIndicator.erase (keyId env pubKey)
      activeNodes := m.activeNodes.erase (keyId env pubKey)
      keyStore := m.keyStore.erase address.ip } := by
  have hknown' : getPublicKey { m with ptrToNodes := m.ptrToNodes.erase nodePtr } address =
      some pubKey := hknown
  simp only [CTrackerNodesManager.eraseMedium, haddress, hknown']

theorem listed_eraseMedium_of_known {nodePtr : ℕ} {address : CAddress} {pubKey : CPubKey}
    (haddress : s.manager.getAddress nodePtr = some address)
    (hknown : s.manager.getPublicKey address = some pubKey) (id : CKeyID) :
    (s.step env (.eraseMedium nodePtr)).Listed id ↔
      if id = keyId env pubKey then (s.manager.seeds.lookup id).isSome ∨ s.isConnected = false ∧
        ((s.manager.trackers.lookup id).isSome ∨ (s.manager.monitors.lookup id).isSome)
      else s.Listed id := by
  simp only [step, Listed, eraseMedium_of_known haddress hknown, Finset.mem_erase]
  cases s.isConnected with
  | false => simp
  | true =>
    by_cases hid : id = keyId env pubKey
    · simp [hid]
    · simp [hid]

theorem sound_eraseMedium_of_known (h : s.Sound) {nodePtr : ℕ} {address : CAddress} {pubKey : CPubKey}
    (haddress : s.manager.getAddress nodePtr = some address)
    (hknown : s.manager.getPublicKey address = some pubKey) :
    (s.step env (.eraseMedium nodePtr)).Sound ↔
      (∀ keyId', s.manager.getKeyToNode keyId' = some nodePtr → keyId' = keyId env pubKey) ∧
      (∀ other, s.latest (keyId env pubKey) = some other → other = nodePtr) ∧
      s.manager.seeds.lookup (keyId env pubKey) = none ∧
      (s.isConnected = false → s.manager.trackers.lookup (keyId env pubKey) = none ∧
        s.manager.monitors.lookup (keyId env pubKey) = none) := by
  have hlisted := @listed_eraseMedium_of_known env s nodePtr address pubKey haddress hknown
  have hgone : (s.step env (.eraseMedium nodePtr)).manager.getKeyToNode (keyId env pubKey) = none := by
    simp only [step, eraseMedium_of_known haddress hknown]
    exact OrderedMap.lookup_erase_self ..
  have hothers : ∀ id, id ≠ keyId env pubKey →
      (s.step env (.eraseMedium nodePtr)).manager.getKeyToNode id = s.manager.getKeyToNode id :=
    fun id hid => by
      simp only [step, eraseMedium_of_known haddress hknown]
      exact OrderedMap.lookup_erase_of_ne hid
  obtain ⟨-, -, -, -, hfind⟩ := eraseMedium_spec env s.manager nodePtr
  constructor
  · intro hsound
    have hnot : ¬(s.step env (.eraseMedium nodePtr)).Listed (keyId env pubKey) := fun hin => by
      have hsome := hsound.listed _ hin
      rw [hgone] at hsome
      cases hsome
    rw [hlisted, if_pos rfl, not_or, not_and, not_or] at hnot
    refine ⟨fun id hnode => ?_, fun other hlatest => ?_, Option.not_isSome_iff_eq_none.mp hnot.1,
      fun hconnected => (hnot.2 hconnected).imp Option.not_isSome_iff_eq_none.mp
        Option.not_isSome_iff_eq_none.mp⟩
    · by_contra hid
      have hpresent := hsound.present id nodePtr ((hothers id hid).trans hnode)
      rw [step, hfind, if_pos rfl] at hpresent
      cases hpresent
    · by_contra hne
      have hnode := hsound.latest (keyId env pubKey) other
        (Option.filter_eq_some_iff.mpr ⟨hlatest, decide_eq_true hne⟩)
      rw [hgone] at hnode
      cases hnode
  · rintro ⟨honly, hlast, hseed, hroles⟩
    refine ⟨fun id hid => ?_, fun id ptr hnode => ?_, fun id ptr hlatest => ?_⟩
    · rw [hlisted] at hid
      split at hid
      case isTrue heq =>
        subst heq
        rcases hid with hin | ⟨hconnected, hin⟩
        · rw [hseed] at hin
          cases hin
        · rw [(hroles hconnected).1, (hroles hconnected).2] at hin
          rcases hin with hin | hin <;> cases hin
      case isFalse hne =>
        rw [hothers id hne]
        exact h.listed id hid
    · have hid : id ≠ keyId env pubKey := fun heq => by
        rw [heq, hgone] at hnode
        cases hnode
      rw [hothers id hid] at hnode
      have hne : ptr ≠ nodePtr := fun heq => hid (honly id (heq ▸ hnode))
      rw [step, hfind, if_neg hne]
      exact h.present id ptr hnode
    · obtain ⟨hlatest, hne⟩ := Option.filter_eq_some_iff.mp hlatest
      have hid : id ≠ keyId env pubKey := fun heq =>
        of_decide_eq_true hne (hlast ptr (heq ▸ hlatest))
      exact (hothers id hid).trans (h.latest id ptr hlatest)

/-- A step is sound if and only if it meets its condition. -/
theorem sound_step_iff (h : s.Sound) (event : Event) : (s.step env event).Sound ↔ s.Fits env event := by
  cases event with
  | addNode medium => exact iff_of_true (sound_addNode_iff h medium) trivial
  | setPublicKey address pubKey => exact iff_of_true ⟨h.listed, h.present, h.latest⟩ trivial
  | connectedToSeed info => exact sound_connectedToSeed_iff h info
  | getNetworkInfo info role nodePtr => exact sound_getNetworkInfo_iff h info role nodePtr
  | setNetworkTracker info => exact sound_setNetworkTracker_iff h info
  | setNetworkMonitor info => exact sound_setNetworkMonitor_iff h info
  | eraseNetworkTracker keyId =>
    refine h.relist_iff _ rfl rfl rfl (iff_of_true (fun id hid => h.listed id ?_) trivial)
    simp only [step, Listed, CTrackerNodesManager.eraseNetworkTracker,
      OrderedMap.isSome_lookup_erase] at hid ⊢
    cases hconnected : s.isConnected <;>
      simp only [hconnected, Bool.false_eq_true, ↓reduceIte] at hid ⊢ <;> tauto
  | eraseNetworkMonitor keyId =>
    refine h.relist_iff _ rfl rfl rfl (iff_of_true (fun id hid => h.listed id ?_) trivial)
    simp only [step, Listed, CTrackerNodesManager.eraseNetworkMonitor,
      OrderedMap.isSome_lookup_erase] at hid ⊢
    cases hconnected : s.isConnected <;>
      simp only [hconnected, Bool.false_eq_true, ↓reduceIte] at hid ⊢ <;> tauto
  | setActiveNode idKey => exact sound_setActiveNode_iff h idKey
  | removeActiveNode idKey =>
    refine h.relist_iff _ rfl rfl rfl (iff_of_true (fun id hid => h.listed id ?_) trivial)
    simp only [step, Listed, CTrackerNodesManager.removeActiveNode, Finset.mem_erase] at hid ⊢
    cases hconnected : s.isConnected <;>
      simp only [hconnected, Bool.false_eq_true, ↓reduceIte] at hid ⊢ <;> tauto
  | setConnected connected => exact h.relist_iff _ rfl rfl rfl Iff.rfl
  | eraseMedium nodePtr =>
    simp only [Fits]
    cases haddress : s.manager.getAddress nodePtr with
    | none =>
      have hmanager : s.manager.eraseMedium env nodePtr = s.manager := by
        simp only [CTrackerNodesManager.eraseMedium, haddress]
      refine iff_of_true ⟨fun id hid => ?_, fun id ptr hnode => ?_, fun id ptr hlatest => ?_⟩
        fun address hsome => (nomatch hsome)
      · rw [step, hmanager] at hid ⊢
        exact h.listed id hid
      · rw [step, hmanager] at hnode ⊢
        exact h.present id ptr hnode
      · rw [step, hmanager]
        exact h.latest id ptr (Option.filter_eq_some_iff.mp hlatest).1
    | some address =>
      cases hkey : s.manager.getPublicKey address with
      | none =>
        rw [sound_eraseMedium_of_unknown h haddress hkey]
        refine ⟨fun hnone address' hsome => ?_, fun hall => ?_⟩
        · cases hsome
          simpa only [hkey] using hnone
        · simpa only [hkey] using hall address rfl
      | some pubKey =>
        rw [sound_eraseMedium_of_known h haddress hkey]
        refine ⟨fun hnone address' hsome => ?_, fun hall => ?_⟩
        · cases hsome
          simpa only [hkey] using hnone
        · simpa only [hkey] using hall address rfl

variable (env) in
theorem invariant_start : Invariant env start :=
  ⟨⟨fun _ _ h => (nomatch h), fun _ _ h => (nomatch h), fun _ _ h => (nomatch h),
    fun _ _ h => (nomatch h), fun _ _ h => (nomatch h), fun _ _ h => (nomatch h)⟩,
    fun _ _ h => (nomatch h)⟩

variable (env) in
/-- The manager is consistent throughout a run if and only if every step meets its
condition. -/
theorem maps_agree_throughout_iff (events : List Event) :
    (∀ past, past <+: events → (GuardedRun.run (step env) start past).Consistent env) ↔
      GuardedRun.Guarded (step env) (Fits env) start events := by
  have hsound : start.Sound := ⟨fun id hid => by simp [Listed, start, CTrackerNodesManager.empty] at hid,
    fun _ _ h => (nomatch h), fun _ _ h => (nomatch h)⟩
  have hstart : start.Consistent env := (consistent_iff (invariant_start env)).mpr hsound
  have hok : ∀ (s : TrackerNodes) event, Invariant env s → s.Consistent env →
      ((s.step env event).Consistent env ↔ s.Fits env event) := fun s event h hgood => by
    rw [consistent_iff (invariant_step h event)]
    exact sound_step_iff ((consistent_iff h).mp hgood) event
  exact GuardedRun.always_iff (fun _ event h => invariant_step h event) hok (invariant_start env) hstart

namespace Disconnected

def context : TrackerContext := ⟨⟨fun _ => 0, fun _ => 1⟩, .invalid⟩

def address : CAddress := ⟨0, 0, 1, 0⟩

def info : CValidNodeInfo := ⟨.ofBytes (2 :: List.replicate 32 1), address⟩

/-- A tracker connects and disconnects. -/
def events : List Event :=
  [.addNode ⟨0, 1, address⟩, .setPublicKey address info.publicKey, .getNetworkInfo info .tracker 1,
    .eraseMedium 1]

/-- The tracker stays known when its connection has gone, and the lookup of the trackers
fails. -/
theorem lookup_fails :
    ¬∀ (env : TrackerContext) (events past : List Event), past <+: events →
      (GuardedRun.run (step env) start past).Consistent env := by
  intro h
  have hconsistent := h context events _ List.prefix_rfl
  obtain ⟨mediums, hmediums, -⟩ := hconsistent.byClass .trackers
  cases hmediums

end Disconnected

end TrackerNodes

end Dims
