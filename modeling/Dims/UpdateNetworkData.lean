import Dims.TrackerNodesManager
import Mathlib.Data.List.Nodup

/-!
# The network of a tracker

A ranking message replaces the trackers and the monitors of the network by those that it
names. Nodes that are in the network, with either role, are not set again, and those that
are not named are erased.
-/

namespace Dims
namespace CTrackerNodesManager

variable (env : TrackerContext)

/-- Insertion into a set that compares nodes by their keys. -/
def insertInfo (nodes : List CValidNodeInfo) (node : CValidNodeInfo) : List CValidNodeInfo :=
  if nodes.any (·.publicKey = node.publicKey) then nodes else nodes ++ [node]

/-- The nodes of the two lists that are named as synchronized. -/
def synchronizedNodes (info : CRankingFullInfo) : List CValidNodeInfo :=
  (info.allyTrackers.map (·.toCValidNodeInfo) ++ info.trackers.map (·.toCValidNodeInfo)).filter
    fun node => keyId env node.publicKey ∈ info.synchronizedTrackers

/-- The body of the loop over the trackers; the action that connects is left out. -/
def joinTracker (m : CTrackerNodesManager) (tracker : CValidNodeInfo) : CTrackerNodesManager :=
  if m.isInNetwork (keyId env tracker.publicKey) then m else m.setNetworkTracker env tracker

def leaveTracker (trackers : List CValidNodeInfo) (m : CTrackerNodesManager)
    (node : CValidNodeInfo) : CTrackerNodesManager :=
  if trackers.any (·.publicKey = node.publicKey) then m
  else m.eraseNetworkTracker (keyId env node.publicKey)

def joinMonitor (m : CTrackerNodesManager) (monitor : CValidNodeInfo) : CTrackerNodesManager :=
  if m.isInNetwork (keyId env monitor.publicKey) then m else m.setNetworkMonitor env monitor

def leaveMonitor (sender : CPubKey) (monitors : List CValidNodeInfo) (m : CTrackerNodesManager)
    (node : CValidNodeInfo) : CTrackerNodesManager :=
  if ¬monitors.any (·.publicKey = node.publicKey) ∧ sender ≠ node.publicKey then
    m.eraseNetworkMonitor (keyId env node.publicKey)
  else m

/-- `CUpdateNetworkData`, with the decoded message of a node; no value where the address of
the node is not known, which fails an assertion. -/
def updateNetworkData (m : CTrackerNodesManager) (sender : CPubKey) (info : CRankingFullInfo) :
    Option CTrackerNodesManager :=
  let trackers := (synchronizedNodes env info).foldl insertInfo []
  let m := trackers.foldl (joinTracker env) m
  let m := (m.networkTrackers.entries.map Prod.snd).foldl (leaveTracker env trackers) m
  (m.getAddresFromKey (keyId env sender)).map fun address =>
    let monitors := (info.allyMonitors.map (·.toCValidNodeInfo)).foldl insertInfo [⟨sender, address⟩]
    let m := monitors.foldl (joinMonitor env) m
    (m.networkMonitors.entries.map Prod.snd).foldl (leaveMonitor env sender monitors) m

def IsMonitor (m : CTrackerNodesManager) (key : CPubKey) : Prop :=
  (m.monitors.lookup (keyId env key)).isSome

/-- The message names no tracker twice. -/
def NamesOnce (info : CRankingFullInfo) : Prop :=
  ((info.allyTrackers.map (·.toCValidNodeInfo) ++ info.trackers.map (·.toCValidNodeInfo)).map
    fun node => keyId env node.publicKey).Nodup

/-- A tracker of the network that the message gives: it is synchronized and not this node. -/
def Named (info : CRankingFullInfo) (id : CKeyID) (node : CValidNodeInfo) : Prop :=
  node ∈ synchronizedNodes env info ∧ env.myKey ≠ node.publicKey ∧ keyId env node.publicKey = id

/-- The sender or one of the monitors that it names. -/
def NamedMonitor (sender : CPubKey) (info : CRankingFullInfo) (key : CPubKey) : Prop :=
  key = sender ∨ ∃ monitor ∈ info.allyMonitors, monitor.publicKey = key

/-- The network is that of the message. -/
structure Replaced (sender : CPubKey) (info : CRankingFullInfo) (m : CTrackerNodesManager) :
    Prop where
  trackers : ∀ id node, m.networkTrackers.lookup id = some node ↔ Named env info id node
  monitors : ∀ id, (m.networkMonitors.lookup id).isSome ↔
    ∃ key, NamedMonitor sender info key ∧ keyId env key = id

/-- The network is what it was. -/
structure Unchanged (m m' : CTrackerNodesManager) : Prop where
  trackers : ∀ id, m'.networkTrackers.lookup id = m.networkTrackers.lookup id
  monitors : ∀ id, m'.networkMonitors.lookup id = m.networkMonitors.lookup id

/-- Messages of monitors replace the network, those of others change nothing. -/
def OnlyMonitors (m : CTrackerNodesManager) (sender : CPubKey) (info : CRankingFullInfo) : Prop :=
  ∃ m', m.updateNetworkData env sender info = some m' ∧
    (IsMonitor env m sender → Replaced env sender info m') ∧
    (¬IsMonitor env m sender → Unchanged m m')

def reached (events : List TrackerNodes.Event) : CTrackerNodesManager :=
  (GuardedRun.run (TrackerNodes.step env) TrackerNodes.start events).manager

/-- When the network becomes that of the message: a tracker that it names is in the network
as it is named, or not at all; a monitor that it names is there, or is neither in the
network nor named as a tracker. -/
structure Replaces (m : CTrackerNodesManager) (sender : CPubKey) (info : CRankingFullInfo) :
    Prop where
  trackers : ∀ id node, Named env info id node →
    m.networkTrackers.lookup id = some node ∨ m.isInNetwork id = false
  monitors : ∀ key, NamedMonitor sender info key →
    (∃ node, m.networkMonitors.lookup (keyId env key) = some node ∧
      NamedMonitor sender info node.publicKey) ∨
    (m.networkMonitors.lookup (keyId env key) = none ∧ ∀ node, ¬Named env info (keyId env key) node)

/-- When nothing changes: all that are named are in the network, and all trackers and
monitors of the network are named. -/
structure Keeps (m : CTrackerNodesManager) (sender : CPubKey) (info : CRankingFullInfo) : Prop where
  trackers : ∀ id node, Named env info id node → m.isInNetwork id
  namedTrackers : ∀ id node, m.networkTrackers.lookup id = some node →
    ∃ tracker ∈ synchronizedNodes env info, tracker.publicKey = node.publicKey
  monitors : ∀ key, NamedMonitor sender info key → m.isInNetwork (keyId env key)
  namedMonitors : ∀ id node, m.networkMonitors.lookup id = some node →
    NamedMonitor sender info node.publicKey

variable {env} {m : CTrackerNodesManager} {sender : CPubKey} {info : CRankingFullInfo}

theorem isInNetwork_eq_false {id : CKeyID} : m.isInNetwork id = false ↔
    m.networkTrackers.lookup id = none ∧ m.networkMonitors.lookup id = none := by
  simp [isInNetwork]

theorem foldl_insertInfo_of_distinct (nodes start : List CValidNodeInfo)
    (h : ((start ++ nodes).map CValidNodeInfo.publicKey).Nodup) :
    nodes.foldl insertInfo start = start ++ nodes := by
  induction nodes generalizing start with
  | nil => simp
  | cons node nodes ih =>
    have hnew : ¬start.any (·.publicKey = node.publicKey) := fun hany => by
      obtain ⟨old, hold, hkey⟩ := List.any_eq_true.mp hany
      rw [List.map_append, List.map_cons, List.nodup_append] at h
      exact h.2.2 _ (List.mem_map_of_mem hold) _ List.mem_cons_self (of_decide_eq_true hkey)
    have hfirst : insertInfo start node = start ++ [node] := if_neg hnew
    rw [List.foldl_cons, hfirst, ih _ (by simpa using h)]
    simp

theorem foldl_insertInfo_keys (nodes start : List CValidNodeInfo) (key : CPubKey) :
    (∃ node ∈ nodes.foldl insertInfo start, node.publicKey = key) ↔
      (∃ node ∈ start, node.publicKey = key) ∨ ∃ node ∈ nodes, node.publicKey = key := by
  induction nodes generalizing start with
  | nil => simp
  | cons first nodes ih =>
    have hinsert : (∃ node ∈ insertInfo start first, node.publicKey = key) ↔
        (∃ node ∈ start, node.publicKey = key) ∨ first.publicKey = key := by
      simp only [insertInfo]
      split
      case isTrue hany =>
        obtain ⟨old, hold, hkey⟩ := List.any_eq_true.mp hany
        refine (or_iff_left_of_imp ?_).symm
        rintro rfl
        exact ⟨old, hold, of_decide_eq_true hkey⟩
      case isFalse => simp [or_and_right, exists_or]
    rw [List.foldl_cons, ih, hinsert]
    simp [or_assoc]

variable (env) in
/-- What the loop over the named trackers leaves. -/
structure Joined (trackers : List CValidNodeInfo) (m m' : CTrackerNodesManager) : Prop where
  indicator : m'.pubKeyToNodeIndicator = m.pubKeyToNodeIndicator
  nodes : m'.ptrToNodes = m.ptrToNodes
  monitors : m'.networkMonitors = m.networkMonitors
  trackers : ∀ id node, m'.networkTrackers.lookup id = some node ↔
    m.networkTrackers.lookup id = some node ∨ m.isInNetwork id = false ∧ node ∈ trackers ∧
      env.myKey ≠ node.publicKey ∧ keyId env node.publicKey = id
  keyed : TrackerNodes.Keyed env m → TrackerNodes.Keyed env m'

theorem networkTrackers_joinTracker (m : CTrackerNodesManager) (tracker : CValidNodeInfo) :
    (joinTracker env m tracker).networkTrackers =
      if m.networkMonitors.lookup (keyId env tracker.publicKey) = none ∧
          env.myKey ≠ tracker.publicKey then
        m.networkTrackers.insertNew (keyId env tracker.publicKey) tracker
      else m.networkTrackers := by
  by_cases hin : m.isInNetwork (keyId env tracker.publicKey)
  · have hsame : joinTracker env m tracker = m := if_pos hin
    rw [hsame]
    split
    case isTrue hout =>
      have htracker : (m.networkTrackers.lookup (keyId env tracker.publicKey)).isSome := by
        simpa [isInNetwork, hout.1] using hin
      exact (OrderedMap.insertNew_of_isSome htracker tracker).symm
    case isFalse => rfl
  · have hstep : joinTracker env m tracker = m.setNetworkTracker env tracker := if_neg hin
    have hnone := (isInNetwork_eq_false.mp (Bool.eq_false_of_not_eq_true hin)).2
    rw [hstep, setNetworkTracker]
    by_cases hself : env.myKey = tracker.publicKey
    · rw [if_pos hself, if_neg fun h => h.2 hself]
    · rw [if_neg hself, if_pos ⟨hnone, hself⟩]

theorem joinTracker_frame (m : CTrackerNodesManager) (tracker : CValidNodeInfo) :
    (joinTracker env m tracker).pubKeyToNodeIndicator = m.pubKeyToNodeIndicator ∧
      (joinTracker env m tracker).ptrToNodes = m.ptrToNodes ∧
      (joinTracker env m tracker).networkMonitors = m.networkMonitors := by
  simp only [joinTracker, setNetworkTracker]
  split
  · exact ⟨rfl, rfl, rfl⟩
  · split <;> exact ⟨rfl, rfl, rfl⟩

theorem foldl_joinTracker_frame (trackers : List CValidNodeInfo) (m : CTrackerNodesManager) :
    (trackers.foldl (joinTracker env) m).pubKeyToNodeIndicator = m.pubKeyToNodeIndicator ∧
      (trackers.foldl (joinTracker env) m).ptrToNodes = m.ptrToNodes ∧
      (trackers.foldl (joinTracker env) m).networkMonitors = m.networkMonitors := by
  induction trackers generalizing m with
  | nil => exact ⟨rfl, rfl, rfl⟩
  | cons tracker trackers ih =>
    obtain ⟨hindicator, hnodes, hmonitors⟩ := @joinTracker_frame env m tracker
    obtain ⟨hindicator', hnodes', hmonitors'⟩ := ih (joinTracker env m tracker)
    exact ⟨hindicator'.trans hindicator, hnodes'.trans hnodes, hmonitors'.trans hmonitors⟩

theorem networkTrackers_foldl_joinTracker (trackers : List CValidNodeInfo)
    (m : CTrackerNodesManager) :
    (trackers.foldl (joinTracker env) m).networkTrackers =
      (trackers.filter fun node => m.networkMonitors.lookup (keyId env node.publicKey) = none ∧
        env.myKey ≠ node.publicKey).foldl
          (fun nodes node => nodes.insertNew (keyId env node.publicKey) node) m.networkTrackers := by
  induction trackers generalizing m with
  | nil => rfl
  | cons tracker trackers ih =>
    rw [List.foldl_cons, ih, (joinTracker_frame m tracker).2.2, networkTrackers_joinTracker,
      List.filter_cons]
    split
    case isTrue hjoins => rw [if_pos (decide_eq_true hjoins), List.foldl_cons]
    case isFalse hstays => rw [if_neg fun htrue => hstays (of_decide_eq_true htrue)]

theorem keyed_foldl_joinTracker (trackers : List CValidNodeInfo) {m : CTrackerNodesManager}
    (h : TrackerNodes.Keyed env m) : TrackerNodes.Keyed env (trackers.foldl (joinTracker env) m) := by
  refine List.foldlRecOn trackers (joinTracker env) h fun m hm tracker _ => ?_
  simp only [joinTracker]
  split
  · exact hm
  · exact hm.setNetworkTracker tracker

theorem find?_keyId_iff {nodes : List CValidNodeInfo}
    (h : (nodes.map fun node => keyId env node.publicKey).Nodup) {id : CKeyID}
    {node : CValidNodeInfo} :
    (nodes.find? fun node => keyId env node.publicKey = id) = some node ↔
      node ∈ nodes ∧ keyId env node.publicKey = id := by
  constructor
  · intro hfind
    exact ⟨List.mem_of_find?_eq_some hfind, by simpa using List.find?_some hfind⟩
  · rintro ⟨hnode, rfl⟩
    cases hfind : nodes.find? fun other => keyId env other.publicKey = keyId env node.publicKey with
    | none => exact absurd (decide_eq_true rfl) (List.find?_eq_none.mp hfind node hnode)
    | some other =>
      have hsame : keyId env other.publicKey = keyId env node.publicKey := by
        simpa using List.find?_some hfind
      rw [List.inj_on_of_nodup_map h (List.mem_of_find?_eq_some hfind) hnode hsame]

theorem joined_foldl (trackers : List CValidNodeInfo) (m : CTrackerNodesManager)
    (h : (trackers.map fun node => keyId env node.publicKey).Nodup) :
    Joined env trackers m (trackers.foldl (joinTracker env) m) := by
  obtain ⟨hindicator, hnodes, hmonitors⟩ := @foldl_joinTracker_frame env trackers m
  refine ⟨hindicator, hnodes, hmonitors, fun id node => ?_, keyed_foldl_joinTracker trackers⟩
  rw [networkTrackers_foldl_joinTracker, OrderedMap.lookup_foldl_insertNew, Option.or_eq_some_iff,
    find?_keyId_iff (h.sublist (List.filter_sublist.map _)), isInNetwork_eq_false, and_assoc,
    List.mem_filter, decide_eq_true_eq]
  refine or_congr_right (and_congr_right fun _ => ?_)
  constructor
  · rintro ⟨⟨hnode, hnone, hself⟩, rfl⟩
    exact ⟨hnone, hnode, hself, rfl⟩
  · rintro ⟨hnone, hnode, hself, rfl⟩
    exact ⟨⟨hnode, hnone, hself⟩, rfl⟩

theorem foldl_leaveTracker (trackers nodes : List CValidNodeInfo) (m : CTrackerNodesManager) :
    nodes.foldl (leaveTracker env trackers) m = { m with
      networkTrackers := ((nodes.filter fun node =>
        ¬trackers.any (·.publicKey = node.publicKey)).map fun node =>
          keyId env node.publicKey).foldl OrderedMap.erase m.networkTrackers } := by
  induction nodes generalizing m with
  | nil => rfl
  | cons node nodes ih =>
    rw [List.foldl_cons, ih]
    by_cases hstays : trackers.any (·.publicKey = node.publicKey)
    · have hstep : leaveTracker env trackers m node = m := if_pos hstays
      rw [hstep, List.filter_cons, if_neg (by simpa using hstays)]
    · have hstep : leaveTracker env trackers m node =
          m.eraseNetworkTracker (keyId env node.publicKey) := if_neg hstays
      rw [hstep, List.filter_cons, if_pos (decide_eq_true hstays)]
      rfl

theorem foldl_leaveMonitor (monitors nodes : List CValidNodeInfo) (m : CTrackerNodesManager) :
    nodes.foldl (leaveMonitor env sender monitors) m = { m with
      networkMonitors := ((nodes.filter fun node =>
        ¬monitors.any (·.publicKey = node.publicKey) ∧ sender ≠ node.publicKey).map fun node =>
          keyId env node.publicKey).foldl OrderedMap.erase m.networkMonitors } := by
  induction nodes generalizing m with
  | nil => rfl
  | cons node nodes ih =>
    rw [List.foldl_cons, ih]
    by_cases hleaves : ¬monitors.any (·.publicKey = node.publicKey) ∧ sender ≠ node.publicKey
    · have hstep : leaveMonitor env sender monitors m node =
          m.eraseNetworkMonitor (keyId env node.publicKey) := if_pos hleaves
      rw [hstep, List.filter_cons, if_pos (decide_eq_true hleaves)]
      rfl
    · have hstep : leaveMonitor env sender monitors m node = m := if_neg hleaves
      rw [hstep, List.filter_cons, if_neg fun htrue => hleaves (of_decide_eq_true htrue)]

theorem lookup_foldl_erase_filter {nodes : OrderedMap CKeyID CValidNodeInfo}
    (h : TrackerNodes.KeyedMap env nodes) (leaves : CValidNodeInfo → Bool) (id : CKeyID)
    (node : CValidNodeInfo) :
    ((((nodes.entries.map Prod.snd).filter leaves).map fun node =>
      keyId env node.publicKey).foldl OrderedMap.erase nodes).lookup id = some node ↔
        nodes.lookup id = some node ∧ leaves node = false := by
  rw [OrderedMap.lookup_foldl_erase]
  constructor
  · intro hsome
    split at hsome
    · cases hsome
    case isFalse hkept =>
      refine ⟨hsome, Bool.eq_false_iff.mpr fun hleaves => hkept (List.mem_map.mpr ⟨node, ?_, ?_⟩)⟩
      · exact List.mem_filter.mpr
          ⟨List.mem_map.mpr ⟨(id, node), OrderedMap.mem_entries.mpr hsome, rfl⟩, hleaves⟩
      · exact h id node hsome
  · rintro ⟨hsome, hstays⟩
    rw [if_neg, hsome]
    intro hin
    obtain ⟨other, hother, hid⟩ := List.mem_map.mp hin
    obtain ⟨hother, hleaves⟩ := List.mem_filter.mp hother
    obtain ⟨⟨id', other⟩, hentry, rfl⟩ := List.mem_map.mp hother
    have hlookup := OrderedMap.mem_entries.mp hentry
    rw [h id' other hlookup] at hid
    subst hid
    rw [hsome] at hlookup
    obtain rfl := Option.some.inj hlookup
    exact Bool.eq_false_iff.mp hstays hleaves

/-- What the loop over the trackers of the network leaves. -/
structure LeftTrackers (env : TrackerContext) (trackers : List CValidNodeInfo)
    (m m' : CTrackerNodesManager) : Prop where
  indicator : m'.pubKeyToNodeIndicator = m.pubKeyToNodeIndicator
  nodes : m'.ptrToNodes = m.ptrToNodes
  monitors : m'.networkMonitors = m.networkMonitors
  trackers : ∀ id node, m'.networkTrackers.lookup id = some node ↔
    m.networkTrackers.lookup id = some node ∧ ∃ tracker ∈ trackers, tracker.publicKey = node.publicKey
  keyed : TrackerNodes.Keyed env m'

theorem leftTrackers_foldl (h : TrackerNodes.Keyed env m) (trackers : List CValidNodeInfo) :
    LeftTrackers env trackers m
      ((m.networkTrackers.entries.map Prod.snd).foldl (leaveTracker env trackers) m) := by
  rw [foldl_leaveTracker]
  have htrackers := fun id node => lookup_foldl_erase_filter h.networkTrackers
    (fun node => ¬trackers.any (·.publicKey = node.publicKey)) id node
  refine ⟨rfl, rfl, rfl, fun id node => ?_, { h with
    networkTrackers := fun id node hnode => ?_, self := fun id node hnode => ?_ }⟩
  · rw [htrackers id node]
    simp [List.any_eq_true]
  · exact h.networkTrackers id node ((htrackers id node).mp hnode).1
  · exact h.self id node ((htrackers id node).mp hnode).1

theorem leftMonitors_foldl (h : TrackerNodes.Keyed env m) {monitors : List CValidNodeInfo}
    (hsender : ∃ node ∈ monitors, node.publicKey = sender) :
    ((m.networkMonitors.entries.map Prod.snd).foldl (leaveMonitor env sender monitors)
      m).networkTrackers = m.networkTrackers ∧ ∀ id node,
        ((m.networkMonitors.entries.map Prod.snd).foldl (leaveMonitor env sender monitors)
          m).networkMonitors.lookup id = some node ↔ m.networkMonitors.lookup id = some node ∧
            ∃ monitor ∈ monitors, monitor.publicKey = node.publicKey := by
  rw [foldl_leaveMonitor]
  refine ⟨rfl, fun id node => ?_⟩
  rw [lookup_foldl_erase_filter h.networkMonitors, decide_eq_false_iff_not, not_and_or, not_not,
    not_not]
  refine and_congr_right fun _ => ?_
  simp only [List.any_eq_true, decide_eq_true_eq]
  refine or_iff_left_of_imp fun heq => ?_
  rwa [← heq]

/-- What the loop over the named monitors leaves. -/
structure JoinedMonitors (env : TrackerContext) (monitors : List CValidNodeInfo)
    (m m' : CTrackerNodesManager) : Prop where
  trackers : m'.networkTrackers = m.networkTrackers
  old : ∀ id node, m.networkMonitors.lookup id = some node → m'.networkMonitors.lookup id = some node
  new : ∀ id, m.networkMonitors.lookup id = none → ((m'.networkMonitors.lookup id).isSome ↔
    m.networkTrackers.lookup id = none ∧ ∃ node ∈ monitors, keyId env node.publicKey = id)
  origin : ∀ id node, m'.networkMonitors.lookup id = some node →
    m.networkMonitors.lookup id = some node ∨ node ∈ monitors
  keyed : TrackerNodes.Keyed env m → TrackerNodes.Keyed env m'

/-- As with the trackers, except that the node itself may be a monitor. -/
theorem networkMonitors_joinMonitor (m : CTrackerNodesManager) (monitor : CValidNodeInfo) :
    (joinMonitor env m monitor).networkMonitors =
      if m.networkTrackers.lookup (keyId env monitor.publicKey) = none then
        m.networkMonitors.insertNew (keyId env monitor.publicKey) monitor
      else m.networkMonitors := by
  by_cases hin : m.isInNetwork (keyId env monitor.publicKey)
  · have hsame : joinMonitor env m monitor = m := if_pos hin
    rw [hsame]
    split
    case isTrue hout =>
      have hmonitor : (m.networkMonitors.lookup (keyId env monitor.publicKey)).isSome := by
        simpa [isInNetwork, hout] using hin
      exact (OrderedMap.insertNew_of_isSome hmonitor monitor).symm
    case isFalse => rfl
  · have hstep : joinMonitor env m monitor = m.setNetworkMonitor env monitor := if_neg hin
    rw [hstep, if_pos (isInNetwork_eq_false.mp (Bool.eq_false_of_not_eq_true hin)).1]
    rfl

theorem networkTrackers_joinMonitor (m : CTrackerNodesManager) (monitor : CValidNodeInfo) :
    (joinMonitor env m monitor).networkTrackers = m.networkTrackers := by
  simp only [joinMonitor]
  split <;> rfl

theorem networkTrackers_foldl_joinMonitor (monitors : List CValidNodeInfo)
    (m : CTrackerNodesManager) :
    (monitors.foldl (joinMonitor env) m).networkTrackers = m.networkTrackers := by
  induction monitors generalizing m with
  | nil => rfl
  | cons monitor monitors ih => rw [List.foldl_cons, ih, networkTrackers_joinMonitor]

theorem networkMonitors_foldl_joinMonitor (monitors : List CValidNodeInfo)
    (m : CTrackerNodesManager) :
    (monitors.foldl (joinMonitor env) m).networkMonitors =
      (monitors.filter fun node =>
        m.networkTrackers.lookup (keyId env node.publicKey) = none).foldl
          (fun nodes node => nodes.insertNew (keyId env node.publicKey) node) m.networkMonitors := by
  induction monitors generalizing m with
  | nil => rfl
  | cons monitor monitors ih =>
    rw [List.foldl_cons, ih, networkTrackers_joinMonitor, networkMonitors_joinMonitor,
      List.filter_cons]
    split
    case isTrue hjoins => rw [if_pos (decide_eq_true hjoins), List.foldl_cons]
    case isFalse hstays => rw [if_neg fun htrue => hstays (of_decide_eq_true htrue)]

theorem keyed_foldl_joinMonitor (monitors : List CValidNodeInfo) {m : CTrackerNodesManager}
    (h : TrackerNodes.Keyed env m) : TrackerNodes.Keyed env (monitors.foldl (joinMonitor env) m) := by
  refine List.foldlRecOn monitors (joinMonitor env) h fun m hm monitor _ => ?_
  simp only [joinMonitor]
  split
  · exact hm
  · exact { hm with
      monitors := hm.monitors.insertNew monitor
      networkMonitors := hm.networkMonitors.insertNew monitor }

theorem joinedMonitors_foldl (monitors : List CValidNodeInfo) (m : CTrackerNodesManager) :
    JoinedMonitors env monitors m (monitors.foldl (joinMonitor env) m) := by
  have hlookup : ∀ id, (monitors.foldl (joinMonitor env) m).networkMonitors.lookup id =
      (m.networkMonitors.lookup id).or ((monitors.filter fun node =>
        m.networkTrackers.lookup (keyId env node.publicKey) = none).find? fun node =>
          keyId env node.publicKey = id) := fun id => by
    rw [networkMonitors_foldl_joinMonitor, OrderedMap.lookup_foldl_insertNew]
  refine ⟨networkTrackers_foldl_joinMonitor monitors m, fun id node hnode => ?_,
    fun id hnone => ?_, fun id node hnode => ?_, keyed_foldl_joinMonitor monitors⟩
  · rw [hlookup, hnode]
    rfl
  · rw [hlookup, hnone, Option.none_or, List.find?_isSome]
    simp only [List.mem_filter, decide_eq_true_eq]
    constructor
    · rintro ⟨node, ⟨hnode, hout⟩, rfl⟩
      exact ⟨hout, node, hnode, rfl⟩
    · rintro ⟨hout, node, hnode, rfl⟩
      exact ⟨node, ⟨hnode, hout⟩, rfl⟩
  · rw [hlookup, Option.or_eq_some_iff] at hnode
    rcases hnode with hold | ⟨-, hfind⟩
    · exact .inl hold
    · exact .inr (List.mem_of_mem_filter (List.mem_of_find?_eq_some hfind))

variable (env) in
/-- The network after a message, by the network before it. -/
structure Updated (m : CTrackerNodesManager) (sender : CPubKey) (info : CRankingFullInfo)
    (m' : CTrackerNodesManager) : Prop where
  trackers : ∀ id node, m'.networkTrackers.lookup id = some node ↔
    (m.networkTrackers.lookup id = some node ∨ m.isInNetwork id = false ∧ Named env info id node) ∧
      ∃ tracker ∈ synchronizedNodes env info, tracker.publicKey = node.publicKey
  old : ∀ id node, m.networkMonitors.lookup id = some node → ∀ node',
    m'.networkMonitors.lookup id = some node' ↔ node' = node ∧ NamedMonitor sender info node.publicKey
  new : ∀ id, m.networkMonitors.lookup id = none → ((m'.networkMonitors.lookup id).isSome ↔
    m'.networkTrackers.lookup id = none ∧ ∃ key, NamedMonitor sender info key ∧ keyId env key = id)

theorem namedMonitor_iff {address : CAddress} {key : CPubKey} :
    (∃ node ∈ (info.allyMonitors.map (·.toCValidNodeInfo)).foldl insertInfo [⟨sender, address⟩],
      node.publicKey = key) ↔ NamedMonitor sender info key := by
  rw [foldl_insertInfo_keys]
  simp [NamedMonitor, eq_comm]

theorem namedMonitor_keyId_iff {address : CAddress} {id : CKeyID} :
    (∃ node ∈ (info.allyMonitors.map (·.toCValidNodeInfo)).foldl insertInfo [⟨sender, address⟩],
      keyId env node.publicKey = id) ↔ ∃ key, NamedMonitor sender info key ∧ keyId env key = id := by
  constructor
  · rintro ⟨node, hnode, rfl⟩
    exact ⟨node.publicKey, namedMonitor_iff.mp ⟨node, hnode, rfl⟩, rfl⟩
  · rintro ⟨key, hnamed, rfl⟩
    obtain ⟨node, hnode, rfl⟩ := namedMonitor_iff.mpr hnamed
    exact ⟨node, hnode, rfl⟩

theorem joined_synchronizedNodes (honce : NamesOnce env info) (m : CTrackerNodesManager) :
    (synchronizedNodes env info).foldl insertInfo [] = synchronizedNodes env info ∧
      Joined env (synchronizedNodes env info) m
        ((synchronizedNodes env info).foldl (joinTracker env) m) := by
  have hids : ((synchronizedNodes env info).map fun node => keyId env node.publicKey).Nodup :=
    List.Nodup.sublist (List.Sublist.map _ List.filter_sublist) honce
  refine ⟨foldl_insertInfo_of_distinct _ [] (List.Nodup.of_map (keyId env) ?_), joined_foldl _ m hids⟩
  rwa [List.nil_append, List.map_map]

theorem updated (h : TrackerNodes.Keyed env m) (honce : NamesOnce env info)
    {m' : CTrackerNodesManager} (hm' : m.updateNetworkData env sender info = some m') :
    Updated env m sender info m' := by
  obtain ⟨hset, hjoined⟩ := joined_synchronizedNodes honce m
  simp only [updateNetworkData, hset] at hm'
  obtain ⟨address, -, rfl⟩ := Option.map_eq_some_iff.mp hm'
  generalize (synchronizedNodes env info).foldl (joinTracker env) m = m₁ at hjoined
  have hleft := leftTrackers_foldl (hjoined.keyed h) (synchronizedNodes env info)
  generalize (m₁.networkTrackers.entries.map Prod.snd).foldl
    (leaveTracker env (synchronizedNodes env info)) m₁ = m₂ at hleft
  have hkeys := fun key => @namedMonitor_iff sender info address key
  have hids := fun id => @namedMonitor_keyId_iff env sender info address id
  generalize (info.allyMonitors.map (·.toCValidNodeInfo)).foldl insertInfo [⟨sender, address⟩] =
    monitors at hkeys hids
  have hjoined' := @joinedMonitors_foldl env monitors m₂
  generalize monitors.foldl (joinMonitor env) m₂ = m₃ at hjoined'
  obtain ⟨hsame, hleft'⟩ :=
    leftMonitors_foldl (hjoined'.keyed hleft.keyed) ((hkeys sender).mpr (.inl rfl))
  generalize (m₃.networkMonitors.entries.map Prod.snd).foldl (leaveMonitor env sender monitors) m₃ =
    m₄ at hsame hleft'
  have hmonitors : m₂.networkMonitors = m.networkMonitors := hleft.monitors.trans hjoined.monitors
  refine ⟨fun id node => ?_, fun id node hnode node' => ?_, fun id hnone => ?_⟩
  · rw [hsame, hjoined'.trackers, hleft.trackers, hjoined.trackers]
    rfl
  · have hkept := hjoined'.old id node (hmonitors ▸ hnode)
    rw [hleft' id node', hkept, hkeys]
    constructor
    · rintro ⟨heq, hnamed⟩
      obtain rfl := Option.some.inj heq
      exact ⟨rfl, hnamed⟩
    · rintro ⟨rfl, hnamed⟩
      exact ⟨rfl, hnamed⟩
  · have hnew := hjoined'.new id (hmonitors ▸ hnone)
    rw [hsame, hjoined'.trackers, ← hids id, ← hnew]
    constructor
    · intro hsome
      obtain ⟨node, hnode⟩ := Option.isSome_iff_exists.mp hsome
      rw [((hleft' id node).mp hnode).1]
      rfl
    · intro hsome
      obtain ⟨node, hnode⟩ := Option.isSome_iff_exists.mp hsome
      rcases hjoined'.origin id node hnode with hold | hin
      · rw [hmonitors, hnone] at hold
        cases hold
      · rw [(hleft' id node).mpr ⟨hnode, node, hin, rfl⟩]
        rfl

/-- A message is taken if the address of its sender is known, which it leaves alone. -/
theorem isSome_updateNetworkData_iff (h : TrackerNodes.Keyed env m) (honce : NamesOnce env info) :
    (m.updateNetworkData env sender info).isSome ↔
      (m.getAddresFromKey (keyId env sender)).isSome := by
  obtain ⟨hset, hjoined⟩ := joined_synchronizedNodes honce m
  have hleft := leftTrackers_foldl (hjoined.keyed h) (synchronizedNodes env info)
  have hsame : ∀ m' : CTrackerNodesManager, m'.pubKeyToNodeIndicator = m.pubKeyToNodeIndicator →
      m'.ptrToNodes = m.ptrToNodes →
        m'.getAddresFromKey (keyId env sender) = m.getAddresFromKey (keyId env sender) := by
    intro m' hindicator hnodes
    simp only [getAddresFromKey, getKeyToNode, hindicator]
    refine Option.bind_congr fun nodePtr _ => ?_
    rw [getAddress, getAddress, hnodes]
  simp only [updateNetworkData, hset, Option.isSome_map]
  rw [hsame _ (hleft.indicator.trans hjoined.indicator) (hleft.nodes.trans hjoined.nodes)]

variable {m' : CTrackerNodesManager}

theorem trackers_named_iff (h : TrackerNodes.Keyed env m) (hupdated : Updated env m sender info m') :
    (∀ id node, m'.networkTrackers.lookup id = some node ↔ Named env info id node) ↔
      ∀ id node, Named env info id node →
        m.networkTrackers.lookup id = some node ∨ m.isInNetwork id = false := by
  constructor
  · intro hnames id node hnamed
    have hafter := (hupdated.trackers id node).mp ((hnames id node).mpr hnamed)
    exact hafter.1.imp_right And.left
  · intro htrackers id node
    rw [hupdated.trackers]
    constructor
    · rintro ⟨hold | ⟨-, hnamed⟩, tracker, htracker, hkey⟩
      · have hnamed : Named env info id tracker := by
          refine ⟨htracker, hkey ▸ h.self id node hold, ?_⟩
          rw [hkey]
          exact h.networkTrackers id node hold
        rcases htrackers id tracker hnamed with hsame | hout
        · obtain rfl := Option.some.inj (hold.symm.trans hsame)
          exact hnamed
        · rw [(isInNetwork_eq_false.mp hout).1] at hold
          cases hold
      · exact hnamed
    · intro hnamed
      exact ⟨(htrackers id node hnamed).imp_right fun hout => ⟨hout, hnamed⟩, node, hnamed.1, rfl⟩

theorem monitors_named_iff (h : TrackerNodes.Keyed env m) (hupdated : Updated env m sender info m')
    (hnames : ∀ id node, m'.networkTrackers.lookup id = some node ↔ Named env info id node) :
    (∀ id, (m'.networkMonitors.lookup id).isSome ↔
      ∃ key, NamedMonitor sender info key ∧ keyId env key = id) ↔
      ∀ key, NamedMonitor sender info key →
        (∃ node, m.networkMonitors.lookup (keyId env key) = some node ∧
          NamedMonitor sender info node.publicKey) ∨
        (m.networkMonitors.lookup (keyId env key) = none ∧
          ∀ node, ¬Named env info (keyId env key) node) := by
  constructor
  · intro hmonitors key hnamed
    have hsome := (hmonitors (keyId env key)).mpr ⟨key, hnamed, rfl⟩
    cases hold : m.networkMonitors.lookup (keyId env key) with
    | some node =>
      obtain ⟨node', hnode'⟩ := Option.isSome_iff_exists.mp hsome
      exact .inl ⟨node, rfl, ((hupdated.old _ node hold node').mp hnode').2⟩
    | none =>
      have hnone := ((hupdated.new _ hold).mp hsome).1
      refine .inr ⟨rfl, fun node hnode => ?_⟩
      rw [(hnames _ node).mpr hnode] at hnone
      cases hnone
  · intro hmonitors id
    cases hold : m.networkMonitors.lookup id with
    | some node =>
      constructor
      · intro hsome
        obtain ⟨node', hnode'⟩ := Option.isSome_iff_exists.mp hsome
        have hnamed := ((hupdated.old id node hold node').mp hnode').2
        exact ⟨node.publicKey, hnamed, h.networkMonitors id node hold⟩
      · rintro ⟨key, hnamed, rfl⟩
        rcases hmonitors key hnamed with ⟨other, hother, hnamed'⟩ | ⟨hnone, -⟩
        · obtain rfl := Option.some.inj (hold.symm.trans hother)
          rw [(hupdated.old _ node hold node).mpr ⟨rfl, hnamed'⟩]
          rfl
        · rw [hold] at hnone
          cases hnone
    | none =>
      rw [hupdated.new id hold]
      refine and_iff_right_of_imp ?_
      rintro ⟨key, hnamed, rfl⟩
      rcases hmonitors key hnamed with ⟨other, hother, -⟩ | ⟨-, hfree⟩
      · rw [hold] at hother
        cases hother
      · refine Option.eq_none_iff_forall_ne_some.mpr fun node hnode => ?_
        exact hfree node ((hnames _ node).mp hnode)

theorem replaced_iff (h : TrackerNodes.Keyed env m) (hupdated : Updated env m sender info m') :
    Replaced env sender info m' ↔ Replaces env m sender info := by
  constructor
  · rintro ⟨htrackers, hmonitors⟩
    exact ⟨(trackers_named_iff h hupdated).mp htrackers,
      (monitors_named_iff h hupdated htrackers).mp hmonitors⟩
  · rintro ⟨htrackers, hmonitors⟩
    have hnames := (trackers_named_iff h hupdated).mpr htrackers
    exact ⟨hnames, (monitors_named_iff h hupdated hnames).mpr hmonitors⟩

theorem unchanged_iff (hupdated : Updated env m sender info m') :
    Unchanged m m' ↔ Keeps env m sender info := by
  constructor
  · rintro ⟨htrackers, hmonitors⟩
    refine ⟨fun id node hnamed => ?_, fun id node hnode => ?_, fun key hnamed => ?_,
      fun id node hnode => ?_⟩
    · by_contra hout
      have hout := Bool.eq_false_of_not_eq_true hout
      have hafter := (hupdated.trackers id node).mpr ⟨.inr ⟨hout, hnamed⟩, node, hnamed.1, rfl⟩
      rw [htrackers, (isInNetwork_eq_false.mp hout).1] at hafter
      cases hafter
    · exact ((hupdated.trackers id node).mp ((htrackers id).trans hnode)).2
    · by_contra hout
      obtain ⟨hnone, hnone'⟩ := isInNetwork_eq_false.mp (Bool.eq_false_of_not_eq_true hout)
      have hsome := (hupdated.new _ hnone').mpr ⟨(htrackers _).trans hnone, key, hnamed, rfl⟩
      rw [hmonitors, hnone'] at hsome
      cases hsome
    · exact ((hupdated.old id node hnode node).mp ((hmonitors id).trans hnode)).2
  · rintro ⟨htrackers, hnamedTrackers, hmonitors, hnamedMonitors⟩
    have hsame : ∀ id, m'.networkTrackers.lookup id = m.networkTrackers.lookup id := by
      intro id
      ext node
      rw [hupdated.trackers]
      constructor
      · rintro ⟨hold | ⟨hout, hnamed⟩, -⟩
        · exact hold
        · exact absurd (htrackers id node hnamed) (Bool.eq_false_iff.mp hout)
      · exact fun hold => ⟨.inl hold, hnamedTrackers id node hold⟩
    refine ⟨hsame, fun id => ?_⟩
    cases hold : m.networkMonitors.lookup id with
    | some node => exact (hupdated.old id node hold node).mpr ⟨rfl, hnamedMonitors id node hold⟩
    | none =>
      by_contra hsome
      obtain ⟨hout, key, hnamed, rfl⟩ := (hupdated.new id hold).mp (Option.isSome_iff_ne_none.mpr hsome)
      rw [hsame] at hout
      exact absurd (hmonitors key hnamed)
        (Bool.eq_false_iff.mp (isInNetwork_eq_false.mpr ⟨hout, hold⟩))

variable (env) in
/-- In every state of the tracker, a message that names no tracker twice is taken as the
role of its sender wants it if and only if the address of the sender is known, and it
fits the network. -/
theorem onlyMonitors_iff (events : List TrackerNodes.Event) (sender : CPubKey)
    (info : CRankingFullInfo) (honce : NamesOnce env info) :
    OnlyMonitors env (reached env events) sender info ↔
      ((reached env events).getAddresFromKey (keyId env sender)).isSome ∧
      (IsMonitor env (reached env events) sender → Replaces env (reached env events) sender info) ∧
      (¬IsMonitor env (reached env events) sender → Keeps env (reached env events) sender info) := by
  have hstep : ∀ (s : TrackerNodes) event, TrackerNodes.Invariant env s →
      TrackerNodes.Invariant env (s.step env event) := fun _ event h => TrackerNodes.invariant_step h event
  have hkeyed : TrackerNodes.Keyed env (reached env events) :=
    (GuardedRun.run_invariant hstep (TrackerNodes.invariant_start env) events).keyed
  rw [← isSome_updateNetworkData_iff hkeyed honce]
  constructor
  · rintro ⟨m', hm', hmonitor, hother⟩
    have hupdated := updated hkeyed honce hm'
    refine ⟨Option.isSome_iff_exists.mpr ⟨m', hm'⟩, fun h => ?_, fun h => ?_⟩
    · exact (replaced_iff hkeyed hupdated).mp (hmonitor h)
    · exact (unchanged_iff hupdated).mp (hother h)
  · rintro ⟨hsome, hmonitor, hother⟩
    obtain ⟨m', hm'⟩ := Option.isSome_iff_exists.mp hsome
    have hupdated := updated hkeyed honce hm'
    refine ⟨m', hm', fun h => ?_, fun h => ?_⟩
    · exact (replaced_iff hkeyed hupdated).mpr (hmonitor h)
    · exact (unchanged_iff hupdated).mpr (hother h)

namespace RankingFromTracker

/-- The id of a key is its first byte. -/
def context : TrackerContext :=
  ⟨⟨fun _ => 0, fun bytes => BitVec.ofNat 160 (bytes.headD 0).toNat⟩, .invalid⟩

def address : CAddress := ⟨0, 0, 1, 0⟩

def peerKey : CPubKey := .ofBytes (2 :: List.replicate 32 1)

def connects (role : CRole) : List TrackerNodes.Event :=
  [.addNode ⟨0, 1, address⟩, .setPublicKey address peerKey, .getNetworkInfo ⟨peerKey, address⟩ role 1]

def emptyRanking : CRankingFullInfo := ⟨[], [], [], [], 0, 0⟩

/-- A synchronized tracker, one that is not synchronized, and another monitor. -/
def ranking : CRankingFullInfo where
  allyTrackers := [⟨⟨⟨.ofBytes (3 :: List.replicate 32 1), address⟩, 0, 0, 0⟩, peerKey⟩]
  allyMonitors := [⟨⟨.ofBytes (4 :: List.replicate 64 1), address⟩⟩]
  trackers := [⟨⟨.ofBytes (6 :: List.replicate 64 1), address⟩, 0, 0, 0⟩]
  synchronizedTrackers := [3]
  time := 0
  leadingKey := 0

def joined : List TrackerNodes.Event :=
  connects .monitor ++ [.setNetworkTracker ⟨.ofBytes (6 :: List.replicate 64 1), address⟩]

theorem monitor_replaces :
    OnlyMonitors context (reached context joined) peerKey ranking := by
  have hnamed : ∀ id node, Named context ranking id node → id = 3 := by
    rintro id node ⟨hnode, -, rfl⟩
    have hnodes : synchronizedNodes context ranking =
        [⟨.ofBytes (3 :: List.replicate 32 1), address⟩] := by decide +kernel
    rw [hnodes, List.mem_singleton] at hnode
    subst hnode
    decide +kernel
  have honce : NamesOnce context ranking := by
    unfold NamesOnce
    decide +kernel
  refine (onlyMonitors_iff context joined peerKey ranking honce).mpr
    ⟨rfl, fun _ => ⟨fun id node htracker => .inr ?_, fun key hmonitor => .inr ⟨rfl, ?_⟩⟩,
      fun hother => absurd rfl hother⟩
  · rw [hnamed id node htracker]
    decide +kernel
  · intro node htracker
    have hid := hnamed _ node htracker
    rcases hmonitor with rfl | ⟨monitor, hmember, rfl⟩
    · exact absurd hid (by decide +kernel)
    · obtain rfl := List.mem_singleton.mp hmember
      exact absurd hid (by decide +kernel)

/-- A tracker that sends an empty ranking becomes a monitor of the network. -/
theorem tracker_becomes_monitor :
    ¬∀ (env : TrackerContext) (events : List TrackerNodes.Event) (sender : CPubKey)
      (info : CRankingFullInfo), NamesOnce env info →
        OnlyMonitors env (reached env events) sender info := by
  intro h
  obtain ⟨m', hm', -, hother⟩ := h context (connects .tracker) peerKey emptyRanking List.nodup_nil
  have hunchanged := hother fun hmonitor => (nomatch hmonitor)
  have hmonitors := hunchanged.monitors (keyId context peerKey)
  cases hm'
  cases hmonitors

end RankingFromTracker

end CTrackerNodesManager
end Dims
