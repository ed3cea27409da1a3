import Dims.RankingConsistency
import Dims.ReputationNodes

/-!
# The present nodes of a monitor

Nodes connect, identify themselves, come back on new connections and leave; presence and
the ranking are also changed by what others tell. A node of the ranking that is present
should be reached by its key, and a connection that has gone should be forgotten.
-/

namespace Dims

/-- The manager with the nodes that exist, by their pointers, and their addresses. -/
structure MonitorNodes where
  manager : CReputationNodesManager
  nodes : ℕ → Option CAddress
  /-- The connection that was erased in the last step. -/
  erased : Option (ℕ × CAddress)
  /-- The activity actions that were started for nodes that have gone. -/
  started : List (CPubKey × CAddress)

namespace MonitorNodes
open CReputationTracker CReputationNodesManager

inductive Event
  | connect (nodePtr : ℕ) (address : CAddress)
  /-- A medium is made by the connecting action or when the first message comes. -/
  | addNode (medium : CMonitorNodeMedium)
  | setPublicKey (address : CAddress) (pubKey : CPubKey)
  /-- The constructor of `CGetNetworkInfo`. -/
  | getNetworkInfo (info : CValidNodeInfo) (role : CRole) (nodePtr : ℕ)
  /-- By an activation message, the end of a synchronization or the entering of a network. -/
  | setPresentNode (nodeId : CKeyID)
  | erasePresentNode (nodeId : CKeyID)
  | ranking (op : Ranking.Operation)
  /-- The destructor of a node. -/
  | eraseMedium (nodePtr : ℕ)

def start : MonitorNodes := ⟨.empty, fun _ => none, none, []⟩

def manage (s : MonitorNodes) (manager : CReputationNodesManager) : MonitorNodes :=
  { s with manager := manager, erased := none }

variable (env : ReputationContext)

def rank (op : Ranking.Operation) (t : CReputationTracker) : CReputationTracker :=
  (Ranking.step env ⟨t, ∅⟩ op).reputation

def step (s : MonitorNodes) : Event → MonitorNodes
  | .connect nodePtr address =>
    { s with
      nodes := Function.update s.nodes nodePtr (some ((s.nodes nodePtr).getD address))
      erased := none }
  | .addNode medium => s.manage (s.manager.addNode medium)
  | .setPublicKey address pubKey => s.manage (s.manager.setPublicKey address pubKey)
  | .getNetworkInfo info role nodePtr =>
    s.manage (((s.manager.setKeyToNode info.publicKey nodePtr).setNodeInfo info role).setPresentNode
      (keyId env info.publicKey))
  | .setPresentNode nodeId => s.manage (s.manager.setPresentNode nodeId)
  | .erasePresentNode nodeId =>
    s.manage { s.manager with
      toCReputationTracker := s.manager.toCReputationTracker.erasePresentNode nodeId }
  | .ranking op =>
    s.manage { s.manager with toCReputationTracker := rank env op s.manager.toCReputationTracker }
  | .eraseMedium nodePtr =>
    match s.nodes nodePtr with
    | none => { s with erased := none }
    | some address =>
      let (manager, action) := s.manager.eraseMedium env s.nodes nodePtr
      ⟨manager, Function.update s.nodes nodePtr none, some (nodePtr, address),
        s.started ++ action.toList⟩

/-- A registered tracker, an ally tracker or an ally monitor. -/
def InRanking (t : CReputationTracker) (id : CKeyID) : Prop :=
  (t.registeredTrackers.lookup id).isSome ∨ (t.allyTrackersRankings.lookup id).isSome ∨
    (t.allyMonitors.lookup id).isSome

def Listed (t : CReputationTracker) (id : CKeyID) : Prop := id ∈ t.presentNodes ∧ InRanking t id

/-- There is a medium, and its node exists. -/
def Live (s : MonitorNodes) (nodePtr : ℕ) : Prop :=
  ∃ medium, s.manager.findNodeMedium nodePtr = some medium ∧ (s.nodes medium.node).isSome

def Reaches (s : MonitorNodes) (id : CKeyID) : Prop :=
  ∃ nodePtr, s.manager.getKeyToNode env id = some nodePtr ∧ s.Live nodePtr

/-- A key is kept for the address, and no other node has it. -/
def KeepsKey (s : MonitorNodes) (address : CAddress) : Prop :=
  (s.manager.getPublicKey address).isSome ∧
    ∀ other otherAddress, s.nodes other = some otherAddress → otherAddress.ip ≠ address.ip

def RefersTo (s : MonitorNodes) (nodePtr : ℕ) (address : CAddress) : Prop :=
  (s.manager.findNodeMedium nodePtr).isSome ∨
    (∃ key, s.manager.pubKeyToNodeIndicator.lookup key = some nodePtr) ∨ s.KeepsKey address

structure Reachable (s : MonitorNodes) : Prop where
  present : ∀ id, Listed s.manager.toCReputationTracker id → s.Reaches env id
  byClass : ∀ isAdmitted kind, (s.manager.getNodesByClass env isAdmitted kind).isSome
  forgotten : ∀ nodePtr address, s.erased = some (nodePtr, address) → ¬s.RefersTo nodePtr address

/-- The nodes that an operation puts into the ranking, whether they are there already or not. -/
def Names (t : CReputationTracker) (id : CKeyID) : Ranking.Operation → Prop
  | .addTracker data => keyId env data.publicKey = id
  | .addAllyTracker data => keyId env data.publicKey = id
  | .addAllyMonitor data => env.myKey ≠ data.publicKey ∧ keyId env data.publicKey = id
  | .updateRankingInfo pubKey info => t.isAddmitedMonitor (keyId env pubKey) ∧
    (id ∈ info.trackers.map (fun data => keyId env data.publicKey) ∨
      ∃ data ∈ info.allyMonitors, env.myKey ≠ data.publicKey ∧ keyId env data.publicKey = id)
  | _ => False

/-- The condition of a step: a node that comes to be present in the ranking is reached by
its key, or is identified on a live connection; and a connection that goes has a key and
no other, or has left no medium. -/
def Fits (s : MonitorNodes) : Event → Prop
  | .getNetworkInfo info _ nodePtr =>
    InRanking s.manager.toCReputationTracker (keyId env info.publicKey) →
      ((∀ other < info.publicKey, keyId env other = keyId env info.publicKey →
        s.manager.pubKeyToNodeIndicator.lookup other = none) ∧ s.Live nodePtr) ∨
      ((∃ other < info.publicKey, keyId env other = keyId env info.publicKey ∧
        (s.manager.pubKeyToNodeIndicator.lookup other).isSome) ∧
          s.Reaches env (keyId env info.publicKey))
  | .setPresentNode nodeId => InRanking s.manager.toCReputationTracker nodeId → s.Reaches env nodeId
  | .ranking op => ∀ id ∈ s.manager.presentNodes,
    Names env s.manager.toCReputationTracker id op → s.Reaches env id
  | .eraseMedium nodePtr => ∀ address, s.nodes nodePtr = some address →
    (s.manager.findNodeMedium nodePtr = none →
      s.manager.getPublicKey address = none ∨
        ∃ other ≠ nodePtr, ∃ otherAddress, s.nodes other = some otherAddress ∧
          otherAddress.ip = address.ip) ∧
    match s.manager.getNodeToKey nodePtr with
    | none => s.manager.findNodeMedium nodePtr = none
    | some key => ∀ other, s.manager.pubKeyToNodeIndicator.lookup other = some nodePtr → other = key
  | _ => True

variable {env} {t : CReputationTracker}

theorem isSome_allyMonitors_foldl {monitors : List CAllyMonitorData} {id : CKeyID} :
    ((monitors.foldl (addAllyMonitor env) t).allyMonitors.lookup id).isSome ↔
      (t.allyMonitors.lookup id).isSome ∨
        ∃ data ∈ monitors, env.myKey ≠ data.publicKey ∧ keyId env data.publicKey = id := by
  induction monitors generalizing t with
  | nil => simp
  | cons data monitors ih =>
    rw [List.foldl_cons, ih, addAllyMonitor]
    by_cases hself : env.myKey = data.publicKey
    · simp [hself]
    · rw [if_neg hself, OrderedMap.isSome_lookup_insertNew]
      simp only [List.mem_cons, exists_eq_or_imp, ne_eq, hself, not_false_eq_true, true_and]
      rw [eq_comm, or_comm (a := _ = id), or_assoc]

/-- The message of a monitor changes which monitors are allied, and not who is present. -/
theorem updateRankingInfo_rest {pubKey : CPubKey} (info : CRankingFullInfo)
    (hmonitor : t.isAddmitedMonitor (keyId env pubKey)) :
    (updateRankingInfo env t pubKey info).allyMonitors =
        (info.allyMonitors.foldl (addAllyMonitor env) t).allyMonitors ∧
      (updateRankingInfo env t pubKey info).presentNodes = t.presentNodes := by
  obtain ⟨allyMonitors, hmonitors, -⟩ := foldl_addAllyMonitor env info.allyMonitors t
  have hrest := (ranked_foldl env pubKey info.trackers
    (info.allyMonitors.foldl (addAllyMonitor env) t)).rest
  simp only [updateRankingInfo, hmonitor, ↓reduceIte, foldl_deleteTracker,
    foldl_setTrackerSynchronized]
  rw [hrest, hmonitors]
  exact ⟨rfl, rfl⟩

theorem presentNodes_foldl_leaveTracker (pubKeyId : CKeyID) (trackers : List CAllyTrackerData) :
    (trackers.foldl (leaveTracker env pubKeyId) t).presentNodes ⊆ t.presentNodes := by
  refine List.foldlRecOn trackers _
    (motive := fun t' : CReputationTracker => t'.presentNodes ⊆ t.presentNodes)
    (Finset.Subset.refl _) fun t' hsubset data _ => ?_
  rw [leaveTracker]
  split
  · exact (Finset.erase_subset _ _).trans hsubset
  · exact hsubset

theorem presentNodes_updateMonitorData (pubKeyId : CKeyID) :
    (t.updateMonitorData env pubKeyId).presentNodes ⊆ t.presentNodes := by
  rw [updateMonitorData]
  split
  · exact presentNodes_foldl_leaveTracker _ _
  · split <;> exact Finset.Subset.refl _

variable (env t) in
/-- What an operation does to those who are listed. -/
structure Relists (op : Ranking.Operation) (t' : CReputationTracker) : Prop where
  present : t'.presentNodes ⊆ t.presentNodes
  inRanking : ∀ id, InRanking t' id → InRanking t id ∨ Names env t id op
  names : ∀ id ∈ t.presentNodes, Names env t id op → Listed t' id

theorem Relists.of_shrinks {op : Ranking.Operation} {t' : CReputationTracker}
    (hnames : ∀ id, ¬Names env t id op) (hpresent : t'.presentNodes ⊆ t.presentNodes)
    (hregistered : ∀ id, (t'.registeredTrackers.lookup id).isSome →
      (t.registeredTrackers.lookup id).isSome)
    (hally : ∀ id, (t'.allyTrackersRankings.lookup id).isSome →
      (t.allyTrackersRankings.lookup id).isSome)
    (hmonitors : ∀ id, (t'.allyMonitors.lookup id).isSome → (t.allyMonitors.lookup id).isSome) :
    Relists env t op t' :=
  ⟨hpresent, fun id hid => .inl (hid.imp (hregistered id) (Or.imp (hally id) (hmonitors id))),
    fun id _ hname => absurd hname (hnames id)⟩

theorem relists_updateRankingInfo (hm : (⟨t, ∅⟩ : Ranking).Maintained env) (pubKey : CPubKey)
    (info : CRankingFullInfo) :
    Relists env t (.updateRankingInfo pubKey info) (updateRankingInfo env t pubKey info) := by
  by_cases hmonitor : t.isAddmitedMonitor (keyId env pubKey)
  · have hupdated := updated hm.sameDomain info hmonitor
    obtain ⟨hmonitors, hpresent⟩ := updateRankingInfo_rest info hmonitor
    refine ⟨by rw [hpresent], fun id hid => ?_, fun id hid hname => ⟨by rwa [hpresent], ?_⟩⟩
    · rw [InRanking, hupdated.registered, hupdated.stays, hmonitors,
        isSome_allyMonitors_foldl] at hid
      rcases hid with hin | (hin | ⟨data, hdata, -⟩) | (hin | hin)
      · exact .inl (.inl hin)
      · exact .inr ⟨hmonitor, .inl hin⟩
      · exact .inl (.inr (.inl (Option.isSome_iff_exists.mpr ⟨data, hdata⟩)))
      · exact .inl (.inr (.inr hin))
      · exact .inr ⟨hmonitor, .inr hin⟩
    · rw [InRanking, hupdated.registered, hupdated.stays, hmonitors, isSome_allyMonitors_foldl]
      rcases hname.2 with hin | hin
      · exact .inr (.inl (.inl hin))
      · exact .inr (.inr (.inr hin))
  · have hsame : updateRankingInfo env t pubKey info = t := by
      rw [updateRankingInfo, if_neg hmonitor]
    rw [hsame]
    exact ⟨Finset.Subset.refl _, fun id hid => .inl hid, fun id _ hname => absurd hname.1 hmonitor⟩

theorem relists_updateMonitorData (hm : (⟨t, ∅⟩ : Ranking).Maintained env) (pubKeyId : CKeyID) :
    Relists env t (.updateMonitorData pubKeyId) (t.updateMonitorData env pubKeyId) := by
  refine Relists.of_shrinks (fun _ h => h) (presentNodes_updateMonitorData pubKeyId) ?_ ?_ ?_
  all_goals
    intro id hid
    by_cases hmonitor : t.isAddmitedMonitor pubKeyId
    · obtain ⟨ids, presentNodes, -, heq⟩ := updateMonitorData_of_monitor hm.keyed hmonitor
      rw [heq] at hid
      first
      | exact hid
      | exact (OrderedMap.isSome_lookup_erase.mp hid).2
      | obtain ⟨data, hdata⟩ := Option.isSome_iff_exists.mp hid
        exact Option.isSome_iff_exists.mpr ⟨data, (lookup_of_foldl_erase hdata).2⟩
    · rw [updateMonitorData, if_neg hmonitor] at hid
      split at hid <;> exact hid

theorem relists_rank (hm : (⟨t, ∅⟩ : Ranking).Maintained env) (op : Ranking.Operation) :
    Relists env t op (rank env op t) := by
  cases op with
  | addTracker data =>
    refine ⟨Finset.Subset.refl _, fun id hid => ?_, fun id hid hname => ⟨hid, .inl ?_⟩⟩
    · rcases hid with hin | hin
      · rcases OrderedMap.isSome_lookup_assign.mp hin with rfl | hold
        · exact .inr rfl
        · exact .inl (.inl hold)
      · exact .inl (.inr hin)
    · exact OrderedMap.isSome_lookup_assign.mpr (.inl hname.symm)
  | addAllyTracker data =>
    refine ⟨Finset.Subset.refl _, fun id hid => ?_, fun id hid hname => ⟨hid, .inr (.inl ?_)⟩⟩
    · rcases hid with hin | hin | hin
      · exact .inl (.inl hin)
      · rcases OrderedMap.isSome_lookup_assign.mp hin with rfl | hold
        · exact .inr rfl
        · exact .inl (.inr (.inl hold))
      · exact .inl (.inr (.inr hin))
    · exact OrderedMap.isSome_lookup_assign.mpr (.inl hname.symm)
  | addAllyMonitor data =>
    have hmonitors := @isSome_allyMonitors_foldl env t [data]
    have hone : rank env (.addAllyMonitor data) t = addAllyMonitor env t data := rfl
    have hrest : addAllyMonitor env t data =
        { t with allyMonitors := (addAllyMonitor env t data).allyMonitors } := by
      unfold addAllyMonitor
      split <;> rfl
    simp only [List.foldl_cons, List.foldl_nil, List.mem_singleton, exists_eq_left] at hmonitors
    rw [hone, hrest]
    refine ⟨Finset.Subset.refl _, fun id hid => ?_, fun id hid hname => ⟨hid, .inr (.inr ?_)⟩⟩
    · rcases hid with hin | hin | hin
      · exact .inl (.inl hin)
      · exact .inl (.inr (.inl hin))
      · exact (hmonitors.mp hin).imp_left fun hold => .inr (.inr hold)
    · exact hmonitors.mpr (.inr hname)
  | updateRankingInfo pubKey info => exact relists_updateRankingInfo hm pubKey info
  | updateMonitorData pubKeyId => exact relists_updateMonitorData hm pubKeyId
  | expire now =>
    obtain ⟨registered, extendInProgress, allowSynchronization, heq, -, hlookup⟩ :=
      iterate_spec hm.keyed.registered now
    have hrank : rank env (.expire now) t = (iterate env t now).reputation := rfl
    rw [hrank, heq]
    refine Relists.of_shrinks (fun _ h => h) (Finset.Subset.refl _) (fun id hid => ?_)
      (fun _ h => h) fun _ h => h
    have hid : (registered.lookup id).isSome := hid
    rw [hlookup] at hid
    split at hid
    · cases hid
    · exact hid
  | removeTracker _ => exact ⟨Finset.Subset.refl _, fun _ hid => .inl hid, fun _ _ h => h.elim⟩
  | removeAllyTracker _ =>
    exact Relists.of_shrinks (fun _ h => h) (Finset.Subset.refl _) (fun _ h => h)
      (fun _ h => (OrderedMap.isSome_lookup_erase.mp h).2) fun _ h => h
  | removeAllyMonitor _ =>
    exact Relists.of_shrinks (fun _ h => h) (Finset.Subset.refl _) (fun _ h => h) (fun _ h => h)
      fun _ h => (OrderedMap.isSome_lookup_erase.mp h).2
  | clearRankingData =>
    exact Relists.of_shrinks (fun _ h => h) (Finset.empty_subset _) (fun _ h => (nomatch h))
      (fun _ h => (nomatch h)) fun _ h => (nomatch h)
  | setTrackerSynchronized _ => exact ⟨Finset.Subset.refl _, fun _ hid => .inl hid, fun _ _ h => h.elim⟩
  | removeTrackerSynchronized _ =>
    exact ⟨Finset.Subset.refl _, fun _ hid => .inl hid, fun _ _ h => h.elim⟩

theorem keyedMonitors_addAllyMonitor (h : ∀ id data, t.allyMonitors.lookup id = some data →
    keyId env data.publicKey = id) (data : CAllyMonitorData) :
    ∀ id data', (addAllyMonitor env t data).allyMonitors.lookup id = some data' →
      keyId env data'.publicKey = id := by
  intro id data' hdata
  unfold addAllyMonitor at hdata
  split at hdata
  · exact h id data' hdata
  · rcases OrderedMap.eq_or_lookup_of_insertNew hdata with ⟨rfl, rfl⟩ | hold
    · rfl
    · exact h id data' hold

theorem keyedMonitors_rank (hm : (⟨t, ∅⟩ : Ranking).Maintained env)
    (h : ∀ id data, t.allyMonitors.lookup id = some data → keyId env data.publicKey = id)
    (op : Ranking.Operation) : ∀ id data, (rank env op t).allyMonitors.lookup id = some data →
      keyId env data.publicKey = id := by
  have herase : ∀ pubKeyId id data, (t.allyMonitors.erase pubKeyId).lookup id = some data →
      keyId env data.publicKey = id := fun pubKeyId id data hdata =>
    h id data (@lookup_of_foldl_erase _ [pubKeyId] _ _ _ hdata).2
  cases op with
  | addAllyMonitor data => exact keyedMonitors_addAllyMonitor h data
  | removeAllyMonitor pubKeyId => exact herase pubKeyId
  | updateRankingInfo pubKey info =>
    intro id data hdata
    have hdata : (updateRankingInfo env t pubKey info).allyMonitors.lookup id = some data := hdata
    by_cases hmonitor : t.isAddmitedMonitor (keyId env pubKey)
    · rw [(updateRankingInfo_rest info hmonitor).1] at hdata
      exact List.foldlRecOn info.allyMonitors _
        (motive := fun t' : CReputationTracker => ∀ id data, t'.allyMonitors.lookup id = some data →
          keyId env data.publicKey = id)
        h (fun _ hold new _ => keyedMonitors_addAllyMonitor hold new) id data hdata
    · rw [updateRankingInfo, if_neg hmonitor] at hdata
      exact h id data hdata
  | updateMonitorData pubKeyId =>
    intro id data hdata
    have hdata : (t.updateMonitorData env pubKeyId).allyMonitors.lookup id = some data := hdata
    by_cases hmonitor : t.isAddmitedMonitor pubKeyId
    · obtain ⟨ids, presentNodes, -, heq⟩ := updateMonitorData_of_monitor hm.keyed hmonitor
      rw [heq] at hdata
      exact herase pubKeyId id data hdata
    · rw [updateMonitorData, if_neg hmonitor] at hdata
      split at hdata <;> exact h id data hdata
  | expire now =>
    obtain ⟨registered, extendInProgress, allowSynchronization, heq, -, -⟩ :=
      iterate_spec hm.keyed.registered now
    have hrank : rank env (.expire now) t = (iterate env t now).reputation := rfl
    rw [hrank, heq]
    exact h
  | clearRankingData => rintro id data ⟨⟩
  | _ => exact h

variable {s s' : MonitorNodes}

variable (env) in
structure Maintained (s : MonitorNodes) : Prop where
  ranking : (⟨s.manager.toCReputationTracker, ∅⟩ : Ranking).Maintained env
  monitors : ∀ id data, s.manager.allyMonitors.lookup id = some data → keyId env data.publicKey = id
  mediums : ∀ nodePtr medium, s.manager.findNodeMedium nodePtr = some medium → medium.node = nodePtr

variable (env) in
/-- What is left when the node of a key has gone. -/
structure Erases (key : CPubKey) (nodePtr : ℕ) (address : CAddress)
    (m m' : CReputationNodesManager) : Prop where
  tracker : m'.toCReputationTracker =
    { m.toCReputationTracker with presentNodes := m.presentNodes.erase (keyId env key) }
  keys : m'.pubKeyToNodeIndicator = m.pubKeyToNodeIndicator.erase key
  mediums : ∀ ptr, m'.findNodeMedium ptr = if ptr = nodePtr then none else m.findNodeMedium ptr
  keyStore : m'.getPublicKey address =
    if (m.findNodeMedium nodePtr).isSome then none else m.getPublicKey address

theorem erases_eraseMedium {nodePtr : ℕ} {address : CAddress} {key : CPubKey}
    (hmediums : ∀ nodePtr medium, s.manager.findNodeMedium nodePtr = some medium →
      medium.node = nodePtr)
    (hnode : s.nodes nodePtr = some address) (hkey : s.manager.getNodeToKey nodePtr = some key) :
    Erases env key nodePtr address s.manager (s.manager.eraseMedium env s.nodes nodePtr).1 := by
  rw [eraseMedium, hkey]
  cases hmedium : s.manager.ptrToNodes.lookup nodePtr with
  | none =>
    have haddress : getAddress { s.manager with
        presentNodes := s.manager.presentNodes.erase (keyId env key)
        pubKeyToNodeIndicator := s.manager.pubKeyToNodeIndicator.erase key } s.nodes nodePtr =
        none := by
      simp only [getAddress, hmedium, Option.bind_none]
    simp only [haddress]
    refine ⟨rfl, rfl, fun ptr => ?_, ?_⟩
    · split
      case isTrue heq =>
        rw [heq]
        exact hmedium
      case isFalse => rfl
    · rw [findNodeMedium, hmedium]
      rfl
  | some medium =>
    have haddress : getAddress { s.manager with
        presentNodes := s.manager.presentNodes.erase (keyId env key)
        pubKeyToNodeIndicator := s.manager.pubKeyToNodeIndicator.erase key } s.nodes nodePtr =
        some address := by
      simp only [getAddress, hmedium, Option.bind_some, hmediums nodePtr medium hmedium, hnode]
    simp only [haddress]
    refine ⟨rfl, rfl, fun ptr => ?_, ?_⟩
    · split
      case isTrue heq =>
        rw [heq]
        exact OrderedMap.lookup_erase_self ..
      case isFalse hne => exact OrderedMap.lookup_erase_of_ne hne
    · rw [findNodeMedium, hmedium]
      exact OrderedMap.lookup_erase_self ..

theorem eraseMedium_of_unknown {m : CReputationNodesManager} {nodes : ℕ → Option CAddress}
    {nodePtr : ℕ} (h : m.getNodeToKey nodePtr = none) : m.eraseMedium env nodes nodePtr = (m, none) := by
  rw [eraseMedium, h]

theorem Maintained.step (hm : s.Maintained env) (event : Event) : (s.step env event).Maintained env := by
  obtain ⟨hranking, hmonitors, hmediums⟩ := hm
  have hset : ∀ presentNodes, (⟨{ s.manager.toCReputationTracker with presentNodes := presentNodes },
      ∅⟩ : Ranking).Maintained env := fun presentNodes =>
    ⟨⟨hranking.keyed.registered, hranking.keyed.ally⟩, hranking.sameDomain⟩
  cases event with
  | connect nodePtr address => exact ⟨hranking, hmonitors, hmediums⟩
  | addNode medium =>
    refine ⟨hranking, hmonitors, fun nodePtr found hfound => ?_⟩
    rcases OrderedMap.eq_or_lookup_of_insertNew hfound with ⟨rfl, rfl⟩ | hold
    · rfl
    · exact hmediums nodePtr found hold
  | setPublicKey address pubKey => exact ⟨hranking, hmonitors, hmediums⟩
  | getNetworkInfo info role nodePtr =>
    cases role with
    | _ => exact ⟨hset _, hmonitors, hmediums⟩
  | setPresentNode nodeId => exact ⟨hset _, hmonitors, hmediums⟩
  | erasePresentNode nodeId => exact ⟨hset _, hmonitors, hmediums⟩
  | ranking op =>
    have hnext := hranking.step op
    exact ⟨⟨hnext.keyed, hnext.sameDomain⟩, keyedMonitors_rank hranking hmonitors op, hmediums⟩
  | eraseMedium nodePtr =>
    simp only [MonitorNodes.step]
    split
    · exact ⟨hranking, hmonitors, hmediums⟩
    case h_2 address hnode =>
      cases hkey : s.manager.getNodeToKey nodePtr with
      | none =>
        rw [eraseMedium_of_unknown hkey]
        exact ⟨hranking, hmonitors, hmediums⟩
      | some key =>
        have herases := @erases_eraseMedium env s nodePtr address key hmediums hnode hkey
        refine ⟨?_, fun id data hdata => hmonitors id data ?_, fun ptr medium hmedium => ?_⟩
        · rw [herases.tracker]
          exact hset _
        · rw [herases.tracker] at hdata
          exact hdata
        · have hmedium : (s.manager.eraseMedium env s.nodes nodePtr).1.findNodeMedium ptr =
            some medium := hmedium
          rw [herases.mediums] at hmedium
          split at hmedium
          · cases hmedium
          · exact hmediums ptr medium hmedium

theorem Reaches.isSome_mediumOfKey {id : CKeyID} (h : s.Reaches env id) :
    (s.manager.mediumOfKey env id).isSome := by
  obtain ⟨nodePtr, hnode, medium, hmedium, -⟩ := h
  rw [mediumOfKey, hnode, Option.bind_some, hmedium]
  rfl

theorem isSome_getNodesByClass (hm : s.Maintained env)
    (h : ∀ id, Listed s.manager.toCReputationTracker id → s.Reaches env id) (isAdmitted : Bool)
    (kind : CMediumKinds) : (s.manager.getNodesByClass env isAdmitted kind).isSome := by
  have htrackers : (s.manager.mediumsOf env s.manager.presentTrackers).isSome := by
    refine isSome_mediumsOf.mpr fun key hkey => ?_
    rcases List.mem_append.mp hkey with hin | hin
    · obtain ⟨⟨id, data⟩, hentry, rfl⟩ := List.mem_map.mp hin
      obtain ⟨hentry, hpresent⟩ := List.mem_filter.mp hentry
      have hdata := OrderedMap.mem_entries.mp hentry
      dsimp only
      rw [hm.ranking.keyed.registered id data hdata]
      exact (h id ⟨(of_decide_eq_true hpresent).1,
        .inl (Option.isSome_iff_exists.mpr ⟨data, hdata⟩)⟩).isSome_mediumOfKey
    · obtain ⟨⟨id, data⟩, hentry, rfl⟩ := List.mem_map.mp hin
      obtain ⟨hentry, hpresent⟩ := List.mem_filter.mp hentry
      have hdata := OrderedMap.mem_entries.mp hentry
      dsimp only
      rw [hm.ranking.keyed.ally id data hdata]
      exact (h id ⟨(of_decide_eq_true hpresent).1,
        .inr (.inl (Option.isSome_iff_exists.mpr ⟨data, hdata⟩))⟩).isSome_mediumOfKey
  have hmonitors : (s.manager.mediumsOf env s.manager.presentMonitors).isSome := by
    refine isSome_mediumsOf.mpr fun key hkey => ?_
    obtain ⟨⟨id, data⟩, hentry, rfl⟩ := List.mem_map.mp hkey
    obtain ⟨hentry, hpresent⟩ := List.mem_filter.mp hentry
    have hdata := OrderedMap.mem_entries.mp hentry
    dsimp only
    rw [hm.monitors id data hdata]
    exact (h id ⟨of_decide_eq_true hpresent,
      .inr (.inr (Option.isSome_iff_exists.mpr ⟨data, hdata⟩))⟩).isSome_mediumOfKey
  cases isAdmitted with
  | false => cases kind <;> rfl
  | true =>
    cases kind with
    | dimsNodes =>
      refine isSome_mediumsOf.mpr fun key hkey => ?_
      rcases List.mem_append.mp hkey with hin | hin
      · exact isSome_mediumsOf.mp htrackers key hin
      · exact isSome_mediumsOf.mp hmonitors key hin
    | trackers => exact htrackers
    | monitors => exact hmonitors
    | _ => rfl

theorem reachable_iff (hm : s.Maintained env) : s.Reachable env ↔
    (∀ id, Listed s.manager.toCReputationTracker id → s.Reaches env id) ∧
      ∀ nodePtr address, s.erased = some (nodePtr, address) → ¬s.RefersTo nodePtr address :=
  ⟨fun h => ⟨h.present, h.forgotten⟩,
    fun h => ⟨h.1, fun isAdmitted kind => isSome_getNodesByClass hm h.1 isAdmitted kind, h.2⟩⟩

theorem Reaches.mono {id : CKeyID} (h : s.Reaches env id)
    (hkeys : s'.manager.getKeyToNode env id = s.manager.getKeyToNode env id)
    (hmediums : ∀ ptr medium, s.manager.findNodeMedium ptr = some medium →
      s'.manager.findNodeMedium ptr = some medium)
    (hnodes : ∀ ptr, (s.nodes ptr).isSome → (s'.nodes ptr).isSome) : s'.Reaches env id := by
  obtain ⟨nodePtr, hnode, medium, hmedium, hlive⟩ := h
  exact ⟨nodePtr, hkeys.trans hnode, medium, hmediums nodePtr medium hmedium, hnodes _ hlive⟩

theorem reachable_relist_iff (hm' : s'.Maintained env) (q : Prop) (herased : s'.erased = none)
    (hkeys : s'.manager.pubKeyToNodeIndicator = s.manager.pubKeyToNodeIndicator)
    (hmediums : s'.manager.ptrToNodes = s.manager.ptrToNodes) (hnodes : s'.nodes = s.nodes)
    (hlisted : (∀ id, Listed s'.manager.toCReputationTracker id → s.Reaches env id) ↔ q) :
    s'.Reachable env ↔ q := by
  have hreaches : ∀ id, s'.Reaches env id ↔ s.Reaches env id := fun id => by
    simp only [Reaches, Live, getKeyToNode, findNodeMedium, hkeys, hmediums, hnodes]
  rw [reachable_iff hm', ← hlisted]
  simp only [hreaches]
  refine and_iff_left fun nodePtr address hsome => ?_
  rw [herased] at hsome
  cases hsome

theorem reachable_connect (hm : s.Maintained env) (h : s.Reachable env) (nodePtr : ℕ)
    (address : CAddress) : (s.step env (.connect nodePtr address)).Reachable env := by
  refine (reachable_iff (hm.step (.connect nodePtr address))).mpr ⟨fun id hid => ?_, fun _ _ hsome =>
    (nomatch hsome)⟩
  refine (h.present id hid).mono rfl (fun _ _ hmedium => hmedium) fun ptr hptr => ?_
  by_cases heq : ptr = nodePtr
  · subst heq
    simp only [step, Function.update_self, Option.isSome_some]
  · simpa only [step, Function.update_of_ne heq] using hptr

theorem reachable_addNode (hm : s.Maintained env) (h : s.Reachable env)
    (medium : CMonitorNodeMedium) : (s.step env (.addNode medium)).Reachable env := by
  refine (reachable_iff (hm.step (.addNode medium))).mpr ⟨fun id hid => ?_, fun _ _ hsome =>
    (nomatch hsome)⟩
  refine (h.present id hid).mono rfl (fun ptr found hfound => ?_) fun _ hptr => hptr
  have hfound : s.manager.ptrToNodes.lookup ptr = some found := hfound
  show (s.manager.ptrToNodes.insertNew medium.node medium).lookup ptr = some found
  by_cases heq : ptr = medium.node
  · rw [OrderedMap.insertNew_of_isSome (heq ▸ Option.isSome_iff_exists.mpr ⟨found, hfound⟩), hfound]
  · rw [OrderedMap.lookup_insertNew_of_ne heq, hfound]

theorem reachable_setPresentNode_iff (hm : s.Maintained env) (h : s.Reachable env) (nodeId : CKeyID) :
    (s.step env (.setPresentNode nodeId)).Reachable env ↔ s.Fits env (.setPresentNode nodeId) := by
  refine reachable_relist_iff (hm.step (.setPresentNode nodeId)) _ rfl rfl rfl rfl ?_
  constructor
  · intro hall hranking
    exact hall nodeId ⟨Finset.mem_insert_self _ _, hranking⟩
  · rintro hfits id ⟨hpresent, hranking⟩
    rcases Finset.mem_insert.mp hpresent with rfl | hold
    · exact hfits hranking
    · exact h.present id ⟨hold, hranking⟩

theorem reachable_ranking_iff (hm : s.Maintained env) (h : s.Reachable env) (op : Ranking.Operation) :
    (s.step env (.ranking op)).Reachable env ↔ s.Fits env (.ranking op) := by
  have hrelists := relists_rank hm.ranking op
  refine reachable_relist_iff (hm.step (.ranking op)) _ rfl rfl rfl rfl ?_
  constructor
  · intro hall id hpresent hname
    exact hall id (hrelists.names id hpresent hname)
  · rintro hfits id ⟨hpresent, hranking⟩
    have hold := hrelists.present hpresent
    rcases hrelists.inRanking id hranking with hin | hname
    · exact h.present id ⟨hold, hin⟩
    · exact hfits id hold hname

theorem step_getNetworkInfo (s : MonitorNodes) (info : CValidNodeInfo) (role : CRole) (nodePtr : ℕ) :
    ∃ knownTrackers knownMonitors, s.step env (.getNetworkInfo info role nodePtr) =
      s.manage { s.manager.setKeyToNode info.publicKey nodePtr with
        presentNodes := insert (keyId env info.publicKey) s.manager.presentNodes
        knownTrackers := knownTrackers
        knownMonitors := knownMonitors } := by
  cases role with
  | _ => exact ⟨_, _, rfl⟩

section Identified

variable {m : CReputationNodesManager} {pubKey : CPubKey} {nodePtr : ℕ}

/-- The id of a key leads to its node if no key before it has the same id. -/
theorem getKeyToNode_setKeyToNode_self (h : ∀ other < pubKey, keyId env other = keyId env pubKey →
    m.pubKeyToNodeIndicator.lookup other = none) :
    (m.setKeyToNode pubKey nodePtr).getKeyToNode env (keyId env pubKey) = some nodePtr := by
  refine getKeyToNode_eq_some_iff.mpr ⟨pubKey, lookup_setKeyToNode_self m pubKey nodePtr, rfl,
    fun other hlt hid => ?_⟩
  rw [lookup_setKeyToNode_of_ne hlt.ne]
  exact h other hlt hid

/-- A key with the same id that comes before it decides. -/
theorem getKeyToNode_setKeyToNode_of_shadowed {other : CPubKey} (hlt : other < pubKey)
    (hid : keyId env other = keyId env pubKey) (hother : (m.pubKeyToNodeIndicator.lookup other).isSome) :
    (m.setKeyToNode pubKey nodePtr).getKeyToNode env (keyId env pubKey) =
      m.getKeyToNode env (keyId env pubKey) := by
  have hbefore : ∀ key < pubKey, (m.setKeyToNode pubKey nodePtr).pubKeyToNodeIndicator.lookup key =
      m.pubKeyToNodeIndicator.lookup key := fun key hkey => lookup_setKeyToNode_of_ne hkey.ne m nodePtr
  -- No key after the other one can be the first.
  have hfirst : ∀ (m' : CReputationNodesManager) key, (m'.pubKeyToNodeIndicator.lookup other).isSome →
      (∀ k < key, keyId env k = keyId env pubKey → m'.pubKeyToNodeIndicator.lookup k = none) →
      key < pubKey := fun m' key hsome hnone => by
    refine lt_of_le_of_lt (not_lt.mp fun hgt => ?_) hlt
    rw [hnone other hgt hid] at hsome
    cases hsome
  ext ptr
  rw [getKeyToNode_eq_some_iff, getKeyToNode_eq_some_iff]
  constructor
  · rintro ⟨key, hptr, hkey, hnone⟩
    have hkeylt := hfirst _ key (by rwa [hbefore other hlt]) hnone
    refine ⟨key, (hbefore key hkeylt).symm.trans hptr, hkey, fun k hk hkid => ?_⟩
    exact (hbefore k (hk.trans hkeylt)).symm.trans (hnone k hk hkid)
  · rintro ⟨key, hptr, hkey, hnone⟩
    have hkeylt := hfirst _ key hother hnone
    refine ⟨key, (hbefore key hkeylt).trans hptr, hkey, fun k hk hkid => ?_⟩
    exact (hbefore k (hk.trans hkeylt)).trans (hnone k hk hkid)

theorem getKeyToNode_setKeyToNode_of_ne {id : CKeyID} (h : id ≠ keyId env pubKey) :
    (m.setKeyToNode pubKey nodePtr).getKeyToNode env id = m.getKeyToNode env id :=
  getKeyToNode_congr fun _ hkey =>
    lookup_setKeyToNode_of_ne (fun heq => h (hkey.symm.trans (congrArg _ heq))) m nodePtr

end Identified

theorem reachable_getNetworkInfo_iff (hm : s.Maintained env) (h : s.Reachable env)
    (info : CValidNodeInfo) (role : CRole) (nodePtr : ℕ) :
    (s.step env (.getNetworkInfo info role nodePtr)).Reachable env ↔
      s.Fits env (.getNetworkInfo info role nodePtr) := by
  rw [reachable_iff (hm.step _)]
  obtain ⟨knownTrackers, knownMonitors, heq⟩ := @step_getNetworkInfo env s info role nodePtr
  rw [heq]
  have hreaches : ∀ id, (s.manage { s.manager.setKeyToNode info.publicKey nodePtr with
        presentNodes := insert (keyId env info.publicKey) s.manager.presentNodes
        knownTrackers := knownTrackers
        knownMonitors := knownMonitors }).Reaches env id ↔
      ∃ ptr, (s.manager.setKeyToNode info.publicKey nodePtr).getKeyToNode env id = some ptr ∧
        s.Live ptr := fun id => Iff.rfl
  simp only [hreaches]
  rw [and_iff_left fun _ _ hsome => (nomatch hsome)]
  have hself : (∃ ptr, (s.manager.setKeyToNode info.publicKey nodePtr).getKeyToNode env
        (keyId env info.publicKey) = some ptr ∧ s.Live ptr) ↔
      ((∀ other < info.publicKey, keyId env other = keyId env info.publicKey →
        s.manager.pubKeyToNodeIndicator.lookup other = none) ∧ s.Live nodePtr) ∨
      ((∃ other < info.publicKey, keyId env other = keyId env info.publicKey ∧
        (s.manager.pubKeyToNodeIndicator.lookup other).isSome) ∧
          s.Reaches env (keyId env info.publicKey)) := by
    by_cases hshadowed : ∃ other < info.publicKey, keyId env other = keyId env info.publicKey ∧
        (s.manager.pubKeyToNodeIndicator.lookup other).isSome
    · have hnot : ¬∀ other < info.publicKey, keyId env other = keyId env info.publicKey →
          s.manager.pubKeyToNodeIndicator.lookup other = none := fun hnone => by
        obtain ⟨other, hlt, hid, hsome⟩ := hshadowed
        rw [hnone other hlt hid] at hsome
        cases hsome
      obtain ⟨other, hlt, hid, hsome⟩ := id hshadowed
      rw [getKeyToNode_setKeyToNode_of_shadowed hlt hid hsome]
      simp only [hnot, false_and, false_or, hshadowed, true_and]
      rfl
    · have hnone : ∀ other < info.publicKey, keyId env other = keyId env info.publicKey →
          s.manager.pubKeyToNodeIndicator.lookup other = none := fun other hlt hid => by
        rw [← Option.not_isSome_iff_eq_none]
        exact fun hsome => hshadowed ⟨other, hlt, hid, hsome⟩
      rw [getKeyToNode_setKeyToNode_self hnone]
      simp only [Option.some.injEq, exists_eq_left', hshadowed, false_and, or_false]
      exact (and_iff_right hnone).symm
  constructor
  · intro hall hranking
    exact hself.mp (hall _ ⟨Finset.mem_insert_self _ _, hranking⟩)
  · rintro hfits id ⟨hpresent, hranking⟩
    by_cases hid : id = keyId env info.publicKey
    · subst hid
      exact hself.mpr (hfits hranking)
    · rw [getKeyToNode_setKeyToNode_of_ne hid]
      exact h.present id ⟨Finset.mem_of_mem_insert_of_ne hpresent hid, hranking⟩

theorem not_keepsKey_iff {nodePtr : ℕ} {address : CAddress}
    (hnodes : s'.nodes = Function.update s.nodes nodePtr none) : ¬s'.KeepsKey address ↔
      s'.manager.getPublicKey address = none ∨
        ∃ other ≠ nodePtr, ∃ otherAddress, s.nodes other = some otherAddress ∧
          otherAddress.ip = address.ip := by
  rw [KeepsKey, not_and_or, Option.not_isSome_iff_eq_none, hnodes]
  refine or_congr_right ?_
  simp only [not_forall, not_not]
  refine exists_congr fun other => ?_
  by_cases hother : other = nodePtr
  · subst hother
    simp
  · simp [hother]

theorem Reaches.of_closed (hm : s.Maintained env) {nodePtr : ℕ} {id : CKeyID}
    (h : s.Reaches env id) (hother : s.manager.getKeyToNode env id ≠ some nodePtr ∨
      s.manager.findNodeMedium nodePtr = none)
    (hkeys : s'.manager.getKeyToNode env id = s.manager.getKeyToNode env id)
    (hmediums : ∀ ptr ≠ nodePtr, s'.manager.findNodeMedium ptr = s.manager.findNodeMedium ptr)
    (hnodes : s'.nodes = Function.update s.nodes nodePtr none) : s'.Reaches env id := by
  obtain ⟨ptr, hnode, medium, hmedium, hlive⟩ := h
  have hne : ptr ≠ nodePtr := by
    rintro rfl
    rcases hother with hkey | hnone
    · exact hkey hnode
    · rw [hnone] at hmedium
      cases hmedium
  refine ⟨ptr, hkeys.trans hnode, medium, (hmediums ptr hne).trans hmedium, ?_⟩
  rwa [hnodes, Function.update_of_ne (by rwa [hm.mediums ptr medium hmedium])]

theorem reachable_eraseMedium_of_unknown (hm : s.Maintained env) (h : s.Reachable env) {nodePtr : ℕ}
    {address : CAddress} (hnode : s.nodes nodePtr = some address)
    (hkey : s.manager.getNodeToKey nodePtr = none) :
    (s.step env (.eraseMedium nodePtr)).Reachable env ↔ s.Fits env (.eraseMedium nodePtr) := by
  have hstep : s.step env (.eraseMedium nodePtr) = ⟨s.manager, Function.update s.nodes nodePtr none,
      some (nodePtr, address), s.started ++ []⟩ := by
    simp only [step, hnode, eraseMedium_of_unknown hkey, Option.toList_none]
  have hkeeps := @not_keepsKey_iff s (s.step env (.eraseMedium nodePtr)) nodePtr address (by rw [hstep])
  rw [reachable_iff (hm.step _)]
  simp only [Fits, hnode, Option.some.injEq, hkey, forall_eq']
  rw [hstep] at hkeeps ⊢
  constructor
  · rintro ⟨-, hforgotten⟩
    have hnot := hforgotten nodePtr address rfl
    rw [RefersTo, not_or, not_or, hkeeps] at hnot
    exact ⟨fun _ => hnot.2.2, Option.not_isSome_iff_eq_none.mp hnot.1⟩
  · rintro ⟨hforgets, hnone⟩
    refine ⟨fun id hid => ?_, fun ptr addr hsome => ?_⟩
    · exact (h.present id hid).of_closed hm (.inr hnone) rfl (fun _ _ => rfl) rfl
    · cases hsome
      rw [RefersTo, not_or, not_or, hkeeps]
      refine ⟨Option.not_isSome_iff_eq_none.mpr hnone, ?_, hforgets hnone⟩
      rintro ⟨key, hlookup⟩
      exact getNodeToKey_eq_none_iff.mp hkey key hlookup

theorem reachable_eraseMedium_of_known (hm : s.Maintained env) (h : s.Reachable env) {nodePtr : ℕ}
    {address : CAddress} {key : CPubKey} (hnode : s.nodes nodePtr = some address)
    (hkey : s.manager.getNodeToKey nodePtr = some key) :
    (s.step env (.eraseMedium nodePtr)).Reachable env ↔ s.Fits env (.eraseMedium nodePtr) := by
  obtain ⟨s', hstep⟩ : ∃ s', s.step env (.eraseMedium nodePtr) = s' := ⟨_, rfl⟩
  have hnodes : s'.nodes = Function.update s.nodes nodePtr none := by
    simp only [← hstep, step, hnode]
  have herased : s'.erased = some (nodePtr, address) := by simp only [← hstep, step, hnode]
  have herases : Erases env key nodePtr address s.manager s'.manager := by
    have hmanager : s'.manager = (s.manager.eraseMedium env s.nodes nodePtr).1 := by
      simp only [← hstep, step, hnode]
    rw [hmanager]
    exact erases_eraseMedium hm.mediums hnode hkey
  have hkeeps := @not_keepsKey_iff s s' nodePtr address hnodes
  rw [reachable_iff (hm.step _), hstep]
  simp only [Fits, hnode, Option.some.injEq, hkey, forall_eq']
  have hlookup : ∀ other, s'.manager.pubKeyToNodeIndicator.lookup other = some nodePtr ↔
      other ≠ key ∧ s.manager.pubKeyToNodeIndicator.lookup other = some nodePtr := fun other => by
    rw [herases.keys]
    by_cases hother : other = key
    · subst hother
      simp
    · simp [OrderedMap.lookup_erase_of_ne hother, hother]
  have hmedium : s'.manager.findNodeMedium nodePtr = none := by rw [herases.mediums, if_pos rfl]
  constructor
  · rintro ⟨-, hforgotten⟩
    have hnot := hforgotten nodePtr address herased
    rw [RefersTo, not_or, not_or, hkeeps, herases.keyStore] at hnot
    refine ⟨fun hnone => ?_, fun other hother => ?_⟩
    · rw [hnone] at hnot
      exact hnot.2.2
    · by_contra hne
      exact hnot.2.1 ⟨other, (hlookup other).mpr ⟨hne, hother⟩⟩
  · rintro ⟨hforgets, honly⟩
    refine ⟨fun id hid => ?_, fun ptr addr hsome => ?_⟩
    · rw [herases.tracker] at hid
      obtain ⟨hpresent, hranking⟩ := hid
      obtain ⟨hid, hold⟩ := Finset.mem_erase.mp hpresent
      have hkeys : s'.manager.getKeyToNode env id = s.manager.getKeyToNode env id :=
        getKeyToNode_congr fun other hother => by
          rw [herases.keys]
          exact OrderedMap.lookup_erase_of_ne fun heq => hid (hother.symm.trans (congrArg _ heq))
      refine (h.present id ⟨hold, hranking⟩).of_closed hm (.inl fun hthis => ?_) hkeys
        (fun ptr hptr => by rw [herases.mediums, if_neg hptr]) hnodes
      obtain ⟨other, hother, hotherid, -⟩ := getKeyToNode_eq_some_iff.mp hthis
      rw [honly other hother] at hotherid
      exact hid hotherid.symm
    · rw [herased] at hsome
      cases hsome
      rw [RefersTo, not_or, not_or, hkeeps, herases.keyStore, hmedium]
      refine ⟨Bool.false_ne_true, ?_, ?_⟩
      · rintro ⟨other, hother⟩
        obtain ⟨hne, hold⟩ := (hlookup other).mp hother
        exact hne (honly other hold)
      · cases hmedium : s.manager.findNodeMedium nodePtr with
        | none => exact hforgets hmedium
        | some medium => exact .inl rfl

theorem reachable_eraseMedium_iff (hm : s.Maintained env) (h : s.Reachable env) (nodePtr : ℕ) :
    (s.step env (.eraseMedium nodePtr)).Reachable env ↔ s.Fits env (.eraseMedium nodePtr) := by
  cases hnode : s.nodes nodePtr with
  | none =>
    have hstep : s.step env (.eraseMedium nodePtr) = { s with erased := none } := by
      simp only [step, hnode]
    refine iff_of_true ?_ fun address hsome => ?_
    · rw [hstep]
      exact ⟨h.present, h.byClass, fun _ _ hsome => (nomatch hsome)⟩
    · rw [hnode] at hsome
      cases hsome
  | some address =>
    cases hkey : s.manager.getNodeToKey nodePtr with
    | none => exact reachable_eraseMedium_of_unknown hm h hnode hkey
    | some key => exact reachable_eraseMedium_of_known hm h hnode hkey

/-- While everyone who is listed is reached, a step keeps this and forgets what goes if and
only if it meets its condition. -/
theorem reachable_step_iff (hm : s.Maintained env) (h : s.Reachable env) (event : Event) :
    (s.step env event).Reachable env ↔ s.Fits env event := by
  cases event with
  | connect nodePtr address => exact iff_of_true (reachable_connect hm h nodePtr address) trivial
  | addNode medium => exact iff_of_true (reachable_addNode hm h medium) trivial
  | setPublicKey address pubKey =>
    refine reachable_relist_iff (hm.step (.setPublicKey address pubKey)) _ rfl rfl rfl rfl ?_
    exact iff_of_true h.present trivial
  | getNetworkInfo info role nodePtr => exact reachable_getNetworkInfo_iff hm h info role nodePtr
  | setPresentNode nodeId => exact reachable_setPresentNode_iff hm h nodeId
  | erasePresentNode nodeId =>
    refine reachable_relist_iff (hm.step (.erasePresentNode nodeId)) _ rfl rfl rfl rfl ?_
    refine iff_of_true (fun id hid => h.present id ⟨?_, hid.2⟩) trivial
    exact (Finset.mem_erase.mp hid.1).2
  | ranking op => exact reachable_ranking_iff hm h op
  | eraseMedium nodePtr => exact reachable_eraseMedium_iff hm h nodePtr

/-- In every run, whoever is present is reached and whoever has gone is forgotten, after
every step, if and only if every step meets its condition. -/
theorem reachable_throughout_iff (env : ReputationContext) (events : List Event) :
    (∀ past, past <+: events → (GuardedRun.run (step env) start past).Reachable env) ↔
      GuardedRun.Guarded (step env) (Fits env) start events := by
  have hstep : ∀ (s : MonitorNodes) event, s.Maintained env → (s.step env event).Maintained env :=
    fun _ event hm => hm.step event
  have hok : ∀ (s : MonitorNodes) event, s.Maintained env → s.Reachable env →
      ((s.step env event).Reachable env ↔ s.Fits env event) :=
    fun _ event hm h => reachable_step_iff hm h event
  have hm : start.Maintained env :=
    ⟨⟨⟨fun _ _ h => (nomatch h), fun _ _ h => (nomatch h)⟩, fun _ => rfl⟩,
      fun _ _ h => (nomatch h), fun _ _ h => (nomatch h)⟩
  refine GuardedRun.always_iff hstep hok hm ((reachable_iff hm).mpr ⟨fun id hid => ?_, ?_⟩)
  · exact absurd hid.1 (Finset.notMem_empty id)
  · exact fun _ _ hsome => (nomatch hsome)

namespace Reconnected

def context : ReputationContext := ⟨⟨fun _ => 0, fun _ => 1⟩, .invalid, fun _ => false⟩

/-- A tracker on one host, and on another one. -/
def info : CValidNodeInfo := ⟨CPubKey.ofBytes (2 :: List.replicate 32 1), ⟨0, 1, 1, 20000⟩⟩

def moved : CAddress := ⟨0, 1, 2, 20000⟩

/-- The tracker connects, connects again while the first connection lasts, and then the
first connection goes. -/
def events : List Event :=
  [.connect 1 info.address, .addNode ⟨10, 1⟩, .setPublicKey info.address info.publicKey,
    .getNetworkInfo info .tracker 1, .connect 2 moved, .addNode ⟨20, 2⟩,
    .setPublicKey moved info.publicKey, .getNetworkInfo ⟨info.publicKey, moved⟩ .tracker 2,
    .eraseMedium 1]

/-- The medium of the connection that has gone is still found. -/
theorem medium_stays : ∃ past, past <+: events ∧
    ¬(GuardedRun.run (step context) start past).Reachable context := by
  refine ⟨events, List.prefix_rfl, fun h => h.forgotten 1 info.address ?_ (.inl ?_)⟩
  · rfl
  · rfl

end Reconnected

end MonitorNodes

end Dims
