import Dims.NodeData
import Dims.OrderedMap
import Dims.OrderedSet
import Dims.GuardedRun
import Mathlib.Data.Finset.Basic
import Mathlib.Data.Finset.Lattice.Lemmas

/-!
# The ranking of a monitor

A monitor keeps the trackers that are registered with it, the monitors it is allied
with and the trackers of these monitors. The maps and sets that describe the same
trackers are changed by operations that each touch some of them.
-/

namespace Dims

structure CReputationTracker where
  trackerToMonitor : OrderedMap CKeyID CKeyID
  registeredTrackers : OrderedMap CKeyID CTrackerData
  allyTrackersRankings : OrderedMap CKeyID CAllyTrackerData
  allyMonitors : OrderedMap CKeyID CAllyMonitorData
  presentNodes : Finset CKeyID
  extendInProgress : Finset CPubKey
  allowSynchronization : Finset CKeyID
  synchronizedTrackers : Finset CKeyID

/-- What the tracker reads from elsewhere: the digests, the own key of the authentication
provider, and the comparison of a time with a part of the period, made in floating point. -/
structure ReputationContext where
  hashes : HashFunctions
  myKey : CPubKey
  triggersExtend : Int64 → Bool

namespace CReputationTracker

def empty : CReputationTracker := ⟨.empty, .empty, .empty, .empty, ∅, ∅, ∅, ∅⟩

section Operations

variable (env : ReputationContext)

def keyId (key : CPubKey) : CKeyID := key.getID env.hashes

def addTracker (t : CReputationTracker) (data : CTrackerData) : CReputationTracker :=
  { t with registeredTrackers := t.registeredTrackers.assign (keyId env data.publicKey) data }

def getTracker (t : CReputationTracker) (pubKeyId : CKeyID) : Option CTrackerData :=
  t.registeredTrackers.lookup pubKeyId

/-- The entry is looked for, and that is all. -/
def removeTracker (t : CReputationTracker) (_pubKeyId : CKeyID) : CReputationTracker := t

def addAllyTracker (t : CReputationTracker) (data : CAllyTrackerData) : CReputationTracker :=
  { t with
    allyTrackersRankings := t.allyTrackersRankings.assign (keyId env data.publicKey) data
    trackerToMonitor :=
      t.trackerToMonitor.assign (keyId env data.publicKey) (keyId env data.allyMonitorKey) }

def removeAllyTracker (t : CReputationTracker) (pubKeyId : CKeyID) : CReputationTracker :=
  { t with
    allyTrackersRankings := t.allyTrackersRankings.erase pubKeyId
    trackerToMonitor := t.trackerToMonitor.erase pubKeyId }

/-- The entry that is there already stays. -/
def addAllyMonitor (t : CReputationTracker) (data : CAllyMonitorData) : CReputationTracker :=
  if env.myKey = data.publicKey then t
  else { t with allyMonitors := t.allyMonitors.insertNew (keyId env data.publicKey) data }

def removeAllyMonitor (t : CReputationTracker) (pubKeyId : CKeyID) : CReputationTracker :=
  { t with allyMonitors := t.allyMonitors.erase pubKeyId }

def isAddmitedMonitor (t : CReputationTracker) (pubKeyId : CKeyID) : Bool :=
  (t.allyMonitors.lookup pubKeyId).isSome

def isRegisteredTracker (t : CReputationTracker) (pubKeyId : CKeyID) : Bool :=
  (t.registeredTrackers.lookup pubKeyId).isSome ∨
    (t.allyTrackersRankings.lookup pubKeyId).isSome

def setTrackerSynchronized (t : CReputationTracker) (pubKeyId : CKeyID) : CReputationTracker :=
  { t with synchronizedTrackers := insert pubKeyId t.synchronizedTrackers }

def removeTrackerSynchronized (t : CReputationTracker) (pubKeyId : CKeyID) : CReputationTracker :=
  { t with synchronizedTrackers := t.synchronizedTrackers.erase pubKeyId }

def addNodeToSynch (t : CReputationTracker) (pubKeyId : CKeyID) : CReputationTracker :=
  { t with allowSynchronization := insert pubKeyId t.allowSynchronization }

def erasePresentNode (t : CReputationTracker) (nodeId : CKeyID) : CReputationTracker :=
  { t with presentNodes := t.presentNodes.erase nodeId }

def clearRankingData (t : CReputationTracker) : CReputationTracker :=
  { t with
    trackerToMonitor := .empty
    registeredTrackers := .empty
    allyTrackersRankings := .empty
    allyMonitors := .empty
    presentNodes := ∅
    extendInProgress := ∅ }

/-- The body of the loop over the trackers of a ranking message. -/
def addRankedTracker (monitor : CPubKey) (t : CReputationTracker) (data : CTrackerData) :
    CReputationTracker :=
  if (t.allyTrackersRankings.lookup (keyId env data.publicKey)).isSome then t
  else
    { t with
      allyTrackersRankings := t.allyTrackersRankings.insertNew (keyId env data.publicKey)
        ⟨data, monitor⟩
      trackerToMonitor :=
        t.trackerToMonitor.insertNew (keyId env data.publicKey) (keyId env monitor) }

/-- The trackers of a monitor that it does not name any more. -/
def deleteTrackersList (t : CReputationTracker) (monitor : CPubKey) (presentTrackers : List CKeyID) :
    List CKeyID :=
  (t.trackerToMonitor.entries.filter fun trackerToMonitor =>
    trackerToMonitor.2 = keyId env monitor ∧ trackerToMonitor.1 ∉ presentTrackers).map Prod.fst

/-- The body of the loop over the trackers that are deleted. -/
def deleteTracker (t : CReputationTracker) (trackerKey : CKeyID) : CReputationTracker :=
  (t.removeAllyTracker trackerKey).removeTrackerSynchronized trackerKey

def updateRankingInfo (t : CReputationTracker) (pubKey : CPubKey) (info : CRankingFullInfo) :
    CReputationTracker :=
  if t.isAddmitedMonitor (keyId env pubKey) then
    let t := info.allyMonitors.foldl (addAllyMonitor env) t
    let t := info.trackers.foldl (addRankedTracker env pubKey) t
    let presentTrackers := info.trackers.map fun data => keyId env data.publicKey
    let t := (deleteTrackersList env t pubKey presentTrackers).foldl deleteTracker t
    info.synchronizedTrackers.foldl setTrackerSynchronized t
  else t

/-- The body of the loop over the ally trackers, when a monitor has gone. -/
def leaveTracker (pubKeyId : CKeyID) (t : CReputationTracker) (data : CAllyTrackerData) :
    CReputationTracker :=
  if keyId env data.allyMonitorKey = pubKeyId then
    deleteTracker (t.erasePresentNode (keyId env data.publicKey)) (keyId env data.publicKey)
  else t

/-- `updateMonitorData` of the activity controller, for a node that has gone. -/
def updateMonitorData (t : CReputationTracker) (pubKeyId : CKeyID) : CReputationTracker :=
  if t.isAddmitedMonitor pubKeyId then
    let t := t.removeAllyMonitor pubKeyId
    (t.allyTrackersRankings.entries.map Prod.snd).foldl (leaveTracker env pubKeyId) t
  else if t.isRegisteredTracker pubKeyId then t.removeTrackerSynchronized pubKeyId
  else t

def timeLeft (now : Int64) (data : CTrackerData) : Int64 :=
  let timePassed := (now.toUInt64 - data.contractTime).toInt64
  (data.networkTime - timePassed.toUInt64).toInt64

/-- What an iteration of the loop collects, and the partners of the actions that it starts. -/
structure Checked where
  reputation : CReputationTracker
  toBeRemoved : List CKeyID
  admitted : List CPubKey

/-- The body of the loop over the registered trackers. -/
def checkTracker (now : Int64) (c : Checked) (data : CTrackerData) : Checked :=
  let t := c.reputation
  if timeLeft now data < 0 then
    { c with
      reputation := { t with
        allowSynchronization := t.allowSynchronization.erase (keyId env data.publicKey) }
      toBeRemoved := c.toBeRemoved ++ [keyId env data.publicKey] }
  else if env.triggersExtend (timeLeft now data) then
    if data.publicKey ∈ t.extendInProgress then c
    else
      { c with
        reputation := { t with extendInProgress := insert data.publicKey t.extendInProgress }
        admitted := c.admitted ++ [data.publicKey] }
  else
    { c with
      reputation := { t with extendInProgress := t.extendInProgress.erase data.publicKey } }

/-- One iteration of `loop` at a time; it announces the network data if any tracker is
removed. -/
def iterate (t : CReputationTracker) (now : Int64) : Checked :=
  let c := (t.registeredTrackers.entries.map Prod.snd).foldl (checkTracker env now) ⟨t, [], []⟩
  { c with
    reputation := { c.reputation with
      registeredTrackers :=
        c.toBeRemoved.foldl OrderedMap.erase c.reputation.registeredTrackers } }

end Operations

section Effects

variable (env : ReputationContext)

/-- Trackers are kept under the ids of their own keys. -/
structure Keyed (t : CReputationTracker) : Prop where
  registered : ∀ id data, t.registeredTrackers.lookup id = some data →
    keyId env data.publicKey = id
  ally : ∀ id data, t.allyTrackersRankings.lookup id = some data →
    keyId env data.publicKey = id

/-- The maps from a tracker to its monitor and to its data have one domain and agree. -/
def SameDomain (t : CReputationTracker) : Prop :=
  ∀ id, t.trackerToMonitor.lookup id =
    (t.allyTrackersRankings.lookup id).map fun data => keyId env data.allyMonitorKey

variable {env} {t : CReputationTracker}

variable (env) in
theorem foldl_addAllyMonitor (monitors : List CAllyMonitorData) (t : CReputationTracker) :
    ∃ allyMonitors, monitors.foldl (addAllyMonitor env) t = { t with allyMonitors := allyMonitors } ∧
      ∀ id, (t.allyMonitors.lookup id).isSome → (allyMonitors.lookup id).isSome := by
  induction monitors generalizing t with
  | nil => exact ⟨t.allyMonitors, rfl, fun _ h => h⟩
  | cons data monitors ih =>
    obtain ⟨allyMonitors, heq, hgrows⟩ := ih (addAllyMonitor env t data)
    refine ⟨allyMonitors, ?_, fun id hid => hgrows id ?_⟩
    · rw [List.foldl_cons, heq]
      unfold addAllyMonitor
      split <;> rfl
    · unfold addAllyMonitor
      split
      · exact hid
      · exact OrderedMap.isSome_lookup_insertNew.mpr (.inr hid)

variable (env) in
/-- What the trackers named by a monitor add to the ally trackers. -/
structure Ranked (monitor : CPubKey) (ids : List CKeyID) (t t' : CReputationTracker) : Prop where
  rest : t' = { t with
    allyTrackersRankings := t'.allyTrackersRankings
    trackerToMonitor := t'.trackerToMonitor }
  sameDomain : SameDomain env t → SameDomain env t'
  old : ∀ id data, t.allyTrackersRankings.lookup id = some data →
    t'.allyTrackersRankings.lookup id = some data
  added : ∀ id ∈ ids, (t'.allyTrackersRankings.lookup id).isSome
  origin : ∀ id data, t'.allyTrackersRankings.lookup id = some data →
    t.allyTrackersRankings.lookup id = some data ∨
      data.allyMonitorKey = monitor ∧ id ∈ ids ∧ keyId env data.publicKey = id

variable (env) in
theorem ranked_addRankedTracker (monitor : CPubKey) (t : CReputationTracker) (data : CTrackerData) :
    Ranked env monitor [keyId env data.publicKey] t (addRankedTracker env monitor t data) := by
  unfold addRankedTracker
  split
  case isTrue hsome =>
    refine ⟨rfl, id, fun _ _ h => h, fun id hid => ?_, fun _ _ h => .inl h⟩
    rwa [List.mem_singleton.mp hid]
  case isFalse hnone =>
    rw [Option.not_isSome_iff_eq_none] at hnone
    refine ⟨rfl, fun hsame id => ?_, fun id old hold => ?_, fun id hid => ?_, fun id new hnew => ?_⟩
    · by_cases hid : id = keyId env data.publicKey
      · subst hid
        have hmonitor := hsame (keyId env data.publicKey)
        rw [hnone] at hmonitor
        simp [OrderedMap.lookup_insertNew_self, hnone, hmonitor]
      · simpa [OrderedMap.lookup_insertNew_of_ne hid] using hsame id
    · have hid : id ≠ keyId env data.publicKey := by
        rintro rfl
        rw [hnone] at hold
        cases hold
      simpa [OrderedMap.lookup_insertNew_of_ne hid] using hold
    · exact OrderedMap.isSome_lookup_insertNew.mpr (.inl (List.mem_singleton.mp hid))
    · rcases OrderedMap.eq_or_lookup_of_insertNew hnew with ⟨rfl, rfl⟩ | hold
      · exact .inr ⟨rfl, List.mem_singleton_self _, rfl⟩
      · exact .inl hold

theorem Ranked.trans {monitor : CPubKey} {ids ids' : List CKeyID} {t t' t'' : CReputationTracker}
    (h : Ranked env monitor ids t t') (h' : Ranked env monitor ids' t' t'') :
    Ranked env monitor (ids ++ ids') t t'' := by
  refine ⟨?_, fun hsame => h'.sameDomain (h.sameDomain hsame),
    fun id data hold => h'.old id data (h.old id data hold), fun id hid => ?_,
    fun id data hnew => ?_⟩
  · have hrest := h'.rest
    rw [h.rest] at hrest
    exact hrest
  · rcases List.mem_append.mp hid with hid | hid
    · obtain ⟨data, hdata⟩ := Option.isSome_iff_exists.mp (h.added id hid)
      exact Option.isSome_iff_exists.mpr ⟨data, h'.old id data hdata⟩
    · exact h'.added id hid
  · rcases h'.origin id data hnew with hold | ⟨hmonitor, hid, hkey⟩
    · refine (h.origin id data hold).imp_right fun ⟨hmonitor, hid, hkey⟩ => ?_
      exact ⟨hmonitor, List.mem_append_left _ hid, hkey⟩
    · exact .inr ⟨hmonitor, List.mem_append_right _ hid, hkey⟩

variable (env) in
theorem ranked_foldl (monitor : CPubKey) (trackers : List CTrackerData) (t : CReputationTracker) :
    Ranked env monitor (trackers.map fun data => keyId env data.publicKey) t
      (trackers.foldl (addRankedTracker env monitor) t) := by
  induction trackers generalizing t with
  | nil =>
    refine ⟨rfl, id, fun _ _ h => h, fun id hid => ?_, fun _ _ h => .inl h⟩
    exact absurd hid List.not_mem_nil
  | cons data trackers ih =>
    rw [List.foldl_cons, List.map_cons, ← List.singleton_append]
    exact (ranked_addRankedTracker env monitor t data).trans (ih _)

theorem foldl_deleteTracker (ids : List CKeyID) (t : CReputationTracker) :
    ids.foldl deleteTracker t = { t with
      allyTrackersRankings := ids.foldl OrderedMap.erase t.allyTrackersRankings
      trackerToMonitor := ids.foldl OrderedMap.erase t.trackerToMonitor
      synchronizedTrackers := t.synchronizedTrackers \ ids.toFinset } := by
  induction ids generalizing t with
  | nil => simp
  | cons id ids ih =>
    rw [List.foldl_cons, ih]
    simp only [deleteTracker, removeAllyTracker, removeTrackerSynchronized, List.foldl_cons,
      List.toFinset_cons, mk.injEq, true_and]
    ext k
    simp only [Finset.mem_sdiff, Finset.mem_erase, Finset.mem_insert, List.mem_toFinset, not_or]
    tauto

theorem foldl_setTrackerSynchronized (ids : List CKeyID) (t : CReputationTracker) :
    ids.foldl setTrackerSynchronized t = { t with
      synchronizedTrackers := t.synchronizedTrackers ∪ ids.toFinset } := by
  induction ids generalizing t with
  | nil => simp
  | cons id ids ih =>
    rw [List.foldl_cons, ih, List.toFinset_cons, Finset.union_insert, ← Finset.insert_union]
    rfl

theorem SameDomain.erase {ids : List CKeyID} (h : SameDomain env t) :
    SameDomain env { t with
      allyTrackersRankings := ids.foldl OrderedMap.erase t.allyTrackersRankings
      trackerToMonitor := ids.foldl OrderedMap.erase t.trackerToMonitor } := by
  intro id
  simp only [OrderedMap.lookup_foldl_erase]
  split
  · rfl
  · exact h id

theorem mem_deleteTrackersList (hsame : SameDomain env t) {monitor : CPubKey}
    {presentTrackers : List CKeyID} {id : CKeyID} :
    id ∈ deleteTrackersList env t monitor presentTrackers ↔
      (∃ data, t.allyTrackersRankings.lookup id = some data ∧
        keyId env data.allyMonitorKey = keyId env monitor) ∧ id ∉ presentTrackers := by
  have hmember : id ∈ deleteTrackersList env t monitor presentTrackers ↔
      t.trackerToMonitor.lookup id = some (keyId env monitor) ∧ id ∉ presentTrackers := by
    simp only [deleteTrackersList, List.mem_map, List.mem_filter, decide_eq_true_eq, Prod.exists,
      exists_and_right, exists_eq_right, OrderedMap.mem_entries]
    constructor
    · rintro ⟨key, hkey, rfl, hid⟩
      exact ⟨hkey, hid⟩
    · rintro ⟨hkey, hid⟩
      exact ⟨_, hkey, rfl, hid⟩
  rw [hmember, hsame id, Option.map_eq_some_iff]

variable (env) in
/-- The trackers of a ranking message, without what it does not name any more. -/
structure Updated (pubKey : CPubKey) (info : CRankingFullInfo) (t t' : CReputationTracker) : Prop where
  registered : t'.registeredTrackers = t.registeredTrackers
  monitors : ∀ id, (t.allyMonitors.lookup id).isSome → (t'.allyMonitors.lookup id).isSome
  sameDomain : SameDomain env t'
  ally : ∀ id data, t'.allyTrackersRankings.lookup id = some data →
    t.allyTrackersRankings.lookup id = some data ∨
      data.allyMonitorKey = pubKey ∧ id ∈ info.trackers.map (fun d => keyId env d.publicKey) ∧
        keyId env data.publicKey = id
  stays : ∀ id, (t'.allyTrackersRankings.lookup id).isSome ↔
    id ∈ info.trackers.map (fun d => keyId env d.publicKey) ∨
      ∃ data, t.allyTrackersRankings.lookup id = some data ∧
        keyId env data.allyMonitorKey ≠ keyId env pubKey
  synchronized : ∀ id, id ∈ t'.synchronizedTrackers ↔ id ∈ info.synchronizedTrackers ∨
    id ∈ t.synchronizedTrackers ∧ ¬((∃ data, t.allyTrackersRankings.lookup id = some data ∧
      keyId env data.allyMonitorKey = keyId env pubKey) ∧
        id ∉ info.trackers.map (fun d => keyId env d.publicKey))

theorem lookup_of_foldl_erase {α : Type} {ids : List CKeyID} {m : OrderedMap CKeyID α} {id : CKeyID}
    {data : α} (h : (ids.foldl OrderedMap.erase m).lookup id = some data) :
    id ∉ ids ∧ m.lookup id = some data := by
  rw [OrderedMap.lookup_foldl_erase] at h
  split at h
  · cases h
  · exact ⟨‹_›, h⟩

theorem Ranked.isSome_iff {monitor : CPubKey} {ids : List CKeyID} {t' : CReputationTracker}
    (h : Ranked env monitor ids t t') {id : CKeyID} :
    (t'.allyTrackersRankings.lookup id).isSome ↔
      id ∈ ids ∨ (t.allyTrackersRankings.lookup id).isSome := by
  constructor
  · intro hsome
    obtain ⟨data, hdata⟩ := Option.isSome_iff_exists.mp hsome
    rcases h.origin id data hdata with hold | ⟨-, hin, -⟩
    · exact .inr (Option.isSome_iff_exists.mpr ⟨data, hold⟩)
    · exact .inl hin
  · rintro (hin | hsome)
    · exact h.added id hin
    · obtain ⟨data, hdata⟩ := Option.isSome_iff_exists.mp hsome
      exact Option.isSome_iff_exists.mpr ⟨data, h.old id data hdata⟩

/-- What a monitor names is not deleted, so only old trackers are. -/
theorem Ranked.mem_deleteTrackersList_iff {monitor : CPubKey} {ids : List CKeyID}
    {t' : CReputationTracker} (h : Ranked env monitor ids t t') (hsame : SameDomain env t')
    {id : CKeyID} :
    id ∈ deleteTrackersList env t' monitor ids ↔
      (∃ data, t.allyTrackersRankings.lookup id = some data ∧
        keyId env data.allyMonitorKey = keyId env monitor) ∧ id ∉ ids := by
  rw [mem_deleteTrackersList hsame]
  refine and_congr_left fun hpresent => exists_congr fun data => and_congr_left fun _ => ?_
  constructor
  · intro hdata
    exact (h.origin id data hdata).resolve_right fun hnew => hpresent hnew.2.1
  · exact h.old id data

theorem updateRankingInfo_of_monitor {pubKey : CPubKey} (info : CRankingFullInfo)
    (hmonitor : t.isAddmitedMonitor (keyId env pubKey)) :
    ∃ allyMonitors ranked, (∀ id, (t.allyMonitors.lookup id).isSome → (allyMonitors.lookup id).isSome) ∧
      Ranked env pubKey (info.trackers.map fun d => keyId env d.publicKey)
        { t with allyMonitors := allyMonitors } ranked ∧
      updateRankingInfo env t pubKey info =
        let deleted := deleteTrackersList env ranked pubKey
          (info.trackers.map fun d => keyId env d.publicKey)
        { ranked with
          allyTrackersRankings := deleted.foldl OrderedMap.erase ranked.allyTrackersRankings
          trackerToMonitor := deleted.foldl OrderedMap.erase ranked.trackerToMonitor
          synchronizedTrackers := (ranked.synchronizedTrackers \ deleted.toFinset) ∪
            info.synchronizedTrackers.toFinset } := by
  obtain ⟨allyMonitors, hmonitors, hgrows⟩ := foldl_addAllyMonitor env info.allyMonitors t
  refine ⟨allyMonitors, _, hgrows, ranked_foldl env pubKey info.trackers _, ?_⟩
  simp only [updateRankingInfo, hmonitor, ↓reduceIte, hmonitors, foldl_deleteTracker,
    foldl_setTrackerSynchronized]

theorem updated (hsame : SameDomain env t) {pubKey : CPubKey} (info : CRankingFullInfo)
    (hmonitor : t.isAddmitedMonitor (keyId env pubKey)) :
    Updated env pubKey info t (updateRankingInfo env t pubKey info) := by
  obtain ⟨allyMonitors, ranked, hgrows, hspec, hresult⟩ := updateRankingInfo_of_monitor info hmonitor
  have hsame' := hspec.sameDomain hsame
  have hdeleted := fun id => @Ranked.mem_deleteTrackersList_iff _ _ _ _ _ hspec hsame' id
  have hregistered : ranked.registeredTrackers = t.registeredTrackers := by rw [hspec.rest]
  have hkept : ranked.allyMonitors = allyMonitors := by rw [hspec.rest]
  have hsync : ranked.synchronizedTrackers = t.synchronizedTrackers := by rw [hspec.rest]
  generalize deleteTrackersList env ranked pubKey
    (info.trackers.map fun d => keyId env d.publicKey) = deleted at hdeleted hresult
  rw [hresult]
  refine ⟨hregistered, fun id hid => ?_, SameDomain.erase hsame',
    fun id data hdata => ?_, fun id => ?_, fun id => ?_⟩
  · show (ranked.allyMonitors.lookup id).isSome
    rw [hkept]
    exact hgrows id hid
  · exact hspec.origin id data (lookup_of_foldl_erase hdata).2
  · rw [OrderedMap.lookup_foldl_erase]
    split
    case isTrue hgone =>
      obtain ⟨⟨data, hdata, heq⟩, hpresent⟩ := (hdeleted id).mp hgone
      refine iff_of_false (fun hsome => (nomatch hsome)) ?_
      rintro (hin | ⟨data', hdata', hother⟩)
      · exact hpresent hin
      · obtain rfl : data = data' := Option.some.inj (hdata.symm.trans hdata')
        exact hother heq
    case isFalse hstays =>
      rw [hspec.isSome_iff]
      refine or_congr_right' fun hpresent => ?_
      constructor
      · intro hsome
        obtain ⟨data, hdata⟩ := Option.isSome_iff_exists.mp hsome
        exact ⟨data, hdata, fun heq => hstays ((hdeleted id).mpr ⟨⟨data, hdata, heq⟩, hpresent⟩)⟩
      · rintro ⟨data, hdata, -⟩
        exact Option.isSome_iff_exists.mpr ⟨data, hdata⟩
  · rw [Finset.mem_union, Finset.mem_sdiff, List.mem_toFinset, List.mem_toFinset, hsync, hdeleted]
    exact or_comm

variable (env) in
theorem foldl_leaveTracker (pubKeyId : CKeyID) (trackers : List CAllyTrackerData)
    (t : CReputationTracker) :
    ∃ presentNodes, trackers.foldl (leaveTracker env pubKeyId) t =
      { ((trackers.filter fun data => keyId env data.allyMonitorKey = pubKeyId).map fun data =>
        keyId env data.publicKey).foldl deleteTracker t with presentNodes := presentNodes } := by
  induction trackers generalizing t with
  | nil => exact ⟨t.presentNodes, rfl⟩
  | cons data trackers ih =>
    obtain ⟨presentNodes, heq⟩ := ih (leaveTracker env pubKeyId t data)
    refine ⟨presentNodes, ?_⟩
    rw [List.foldl_cons, heq, List.filter_cons]
    by_cases hleaves : keyId env data.allyMonitorKey = pubKeyId
    · rw [leaveTracker, if_pos hleaves, if_pos (decide_eq_true hleaves), List.map_cons,
        List.foldl_cons, foldl_deleteTracker, foldl_deleteTracker]
      rfl
    · rw [leaveTracker, if_neg hleaves, if_neg fun htrue => hleaves (of_decide_eq_true htrue)]

theorem updateMonitorData_of_monitor (hkeyed : Keyed env t) {pubKeyId : CKeyID}
    (hmonitor : t.isAddmitedMonitor pubKeyId) :
    ∃ (ids : List CKeyID) (presentNodes : Finset CKeyID), (∀ id, id ∈ ids ↔ ∃ data,
        t.allyTrackersRankings.lookup id = some data ∧
          keyId env data.allyMonitorKey = pubKeyId) ∧
      updateMonitorData env t pubKeyId = { t with
        allyMonitors := t.allyMonitors.erase pubKeyId
        allyTrackersRankings := ids.foldl OrderedMap.erase t.allyTrackersRankings
        trackerToMonitor := ids.foldl OrderedMap.erase t.trackerToMonitor
        synchronizedTrackers := t.synchronizedTrackers \ ids.toFinset
        presentNodes := presentNodes } := by
  obtain ⟨presentNodes, heq⟩ := foldl_leaveTracker env pubKeyId
    (t.allyTrackersRankings.entries.map Prod.snd) (t.removeAllyMonitor pubKeyId)
  rw [foldl_deleteTracker] at heq
  generalize hids : ((t.allyTrackersRankings.entries.map Prod.snd).filter fun data =>
    keyId env data.allyMonitorKey = pubKeyId).map (fun data => keyId env data.publicKey) = ids at heq
  refine ⟨ids, presentNodes, fun id => ?_, ?_⟩
  · rw [← OrderedMap.exists_mem_values_iff hkeyed.ally, ← hids]
    simp only [List.mem_map, List.mem_filter, decide_eq_true_eq, and_assoc]
  · rw [updateMonitorData, if_pos hmonitor]
    exact heq

theorem Keyed.mono {t' : CReputationTracker} (h : Keyed env t)
    (hregistered : ∀ id data, t'.registeredTrackers.lookup id = some data →
      t.registeredTrackers.lookup id = some data)
    (hally : ∀ id data, t'.allyTrackersRankings.lookup id = some data →
      t.allyTrackersRankings.lookup id = some data) : Keyed env t' :=
  ⟨fun id data hdata => h.registered id data (hregistered id data hdata),
    fun id data hdata => h.ally id data (hally id data hdata)⟩

variable (env) in
theorem foldl_checkTracker (now : Int64) (trackers : List CTrackerData) (c : Checked) :
    ∃ extendInProgress allowSynchronization,
      (trackers.foldl (checkTracker env now) c).reputation = { c.reputation with
        extendInProgress := extendInProgress
        allowSynchronization := allowSynchronization } ∧
      (trackers.foldl (checkTracker env now) c).toBeRemoved = c.toBeRemoved ++
        (trackers.filter fun data => timeLeft now data < 0).map fun data =>
          keyId env data.publicKey := by
  induction trackers generalizing c with
  | nil => exact ⟨_, _, rfl, by simp⟩
  | cons data trackers ih =>
    obtain ⟨extendInProgress, allowSynchronization, heq, hremoved⟩ := ih (checkTracker env now c data)
    refine ⟨extendInProgress, allowSynchronization, ?_, ?_⟩
    · rw [List.foldl_cons, heq]
      unfold checkTracker
      dsimp only
      split
      · rfl
      · split
        · split <;> rfl
        · rfl
    · rw [List.foldl_cons, hremoved]
      unfold checkTracker
      dsimp only
      split
      case isTrue hexpired => simp [hexpired]
      case isFalse hlives =>
        have hrest : (data :: trackers).filter (fun data => timeLeft now data < 0) =
            trackers.filter fun data => timeLeft now data < 0 := by simp [hlives]
        rw [hrest]
        split
        · split <;> rfl
        · rfl

/-- The iteration removes the trackers whose time is over, and touches nothing else of
the ranking. -/
theorem iterate_spec (hkeyed : ∀ id data, t.registeredTrackers.lookup id = some data →
    keyId env data.publicKey = id) (now : Int64) :
    ∃ registered extendInProgress allowSynchronization,
      (iterate env t now).reputation = { t with
        registeredTrackers := registered
        extendInProgress := extendInProgress
        allowSynchronization := allowSynchronization } ∧
      (∀ id, id ∈ (iterate env t now).toBeRemoved ↔
        ∃ data, t.registeredTrackers.lookup id = some data ∧ timeLeft now data < 0) ∧
      ∀ id, registered.lookup id =
        if id ∈ (iterate env t now).toBeRemoved then none else t.registeredTrackers.lookup id := by
  obtain ⟨extendInProgress, allowSynchronization, heq, hremoved⟩ :=
    foldl_checkTracker env now (t.registeredTrackers.entries.map Prod.snd) ⟨t, [], []⟩
  refine ⟨_, extendInProgress, allowSynchronization, ?_, fun id => ?_, fun id =>
    OrderedMap.lookup_foldl_erase _ _ id⟩
  · simp only [iterate, heq]
  · have hmember : id ∈ (iterate env t now).toBeRemoved ↔ ∃ data ∈
        t.registeredTrackers.entries.map Prod.snd, timeLeft now data < 0 ∧
          keyId env data.publicKey = id := by
      simp only [iterate, hremoved, List.nil_append, List.mem_map, List.mem_filter,
        decide_eq_true_eq, and_assoc]
    rw [hmember, OrderedMap.exists_mem_values_iff hkeyed]

end Effects

end CReputationTracker

end Dims
