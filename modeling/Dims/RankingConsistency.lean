import Dims.ReputationTracker

/-!
# Consistency of the ranking

What the maps of a reputation tracker say about the same trackers, and which operations
keep them consistent.
-/

namespace Dims

/-- The trackers that were removed, or removed by the loop, and not added again are
recorded. -/
structure Ranking where
  reputation : CReputationTracker
  gone : Finset CKeyID

namespace Ranking
open CReputationTracker

inductive Operation
  | addTracker (data : CTrackerData)
  | removeTracker (pubKeyId : CKeyID)
  | addAllyTracker (data : CAllyTrackerData)
  | removeAllyTracker (pubKeyId : CKeyID)
  | addAllyMonitor (data : CAllyMonitorData)
  | removeAllyMonitor (pubKeyId : CKeyID)
  | updateRankingInfo (pubKey : CPubKey) (info : CRankingFullInfo)
  | expire (now : Int64)
  | clearRankingData
  | setTrackerSynchronized (pubKeyId : CKeyID)
  | removeTrackerSynchronized (pubKeyId : CKeyID)
  | updateMonitorData (pubKeyId : CKeyID)

variable (env : ReputationContext)

def empty : Ranking := ⟨.empty, ∅⟩

def step (s : Ranking) : Operation → Ranking
  | .addTracker data =>
    ⟨s.reputation.addTracker env data, s.gone.erase (keyId env data.publicKey)⟩
  | .removeTracker pubKeyId => ⟨s.reputation.removeTracker pubKeyId, insert pubKeyId s.gone⟩
  | .addAllyTracker data => { s with reputation := s.reputation.addAllyTracker env data }
  | .removeAllyTracker pubKeyId => { s with reputation := s.reputation.removeAllyTracker pubKeyId }
  | .addAllyMonitor data => { s with reputation := s.reputation.addAllyMonitor env data }
  | .removeAllyMonitor pubKeyId => { s with reputation := s.reputation.removeAllyMonitor pubKeyId }
  | .updateRankingInfo pubKey info =>
    { s with reputation := s.reputation.updateRankingInfo env pubKey info }
  | .expire now =>
    let c := s.reputation.iterate env now
    ⟨c.reputation, s.gone ∪ c.toBeRemoved.toFinset⟩
  | .clearRankingData => { s with reputation := s.reputation.clearRankingData }
  | .setTrackerSynchronized pubKeyId =>
    { s with reputation := s.reputation.setTrackerSynchronized pubKeyId }
  | .removeTrackerSynchronized pubKeyId =>
    { s with reputation := s.reputation.removeTrackerSynchronized pubKeyId }
  | .updateMonitorData pubKeyId => { s with reputation := s.reputation.updateMonitorData env pubKeyId }

structure Consistent (s : Ranking) : Prop where
  sameDomain : SameDomain env s.reputation
  apart : ∀ id, (s.reputation.registeredTrackers.lookup id).isSome →
    s.reputation.allyTrackersRankings.lookup id = none
  monitored : ∀ id data, s.reputation.allyTrackersRankings.lookup id = some data →
    s.reputation.isAddmitedMonitor (keyId env data.allyMonitorKey)
  synchronized : ∀ id ∈ s.reputation.synchronizedTrackers, s.reputation.isRegisteredTracker id
  gone : ∀ id ∈ s.gone, s.reputation.registeredTrackers.lookup id = none

/-- The condition of each operation. -/
def Keeps (s : Ranking) : Operation → Prop
  | .addTracker data => s.reputation.allyTrackersRankings.lookup (keyId env data.publicKey) = none
  | .removeTracker pubKeyId => s.reputation.registeredTrackers.lookup pubKeyId = none
  | .addAllyTracker data =>
    s.reputation.registeredTrackers.lookup (keyId env data.publicKey) = none ∧
      s.reputation.isAddmitedMonitor (keyId env data.allyMonitorKey)
  | .removeAllyTracker pubKeyId =>
    (s.reputation.allyTrackersRankings.lookup pubKeyId).isSome →
      pubKeyId ∉ s.reputation.synchronizedTrackers
  | .removeAllyMonitor pubKeyId =>
    ∀ id data, s.reputation.allyTrackersRankings.lookup id = some data →
      keyId env data.allyMonitorKey ≠ pubKeyId
  | .updateRankingInfo pubKey info => s.reputation.isAddmitedMonitor (keyId env pubKey) →
    (∀ data ∈ info.trackers,
      s.reputation.registeredTrackers.lookup (keyId env data.publicKey) = none) ∧
    ∀ id ∈ info.synchronizedTrackers,
      (s.reputation.registeredTrackers.lookup id).isSome ∨
      id ∈ info.trackers.map (fun data => keyId env data.publicKey) ∨
      ∃ data, s.reputation.allyTrackersRankings.lookup id = some data ∧
        keyId env data.allyMonitorKey ≠ keyId env pubKey
  | .expire now => ∀ id data, s.reputation.registeredTrackers.lookup id = some data →
    timeLeft now data < 0 → id ∉ s.reputation.synchronizedTrackers
  | .clearRankingData => s.reputation.synchronizedTrackers = ∅
  | .setTrackerSynchronized pubKeyId => s.reputation.isRegisteredTracker pubKeyId
  | .addAllyMonitor _ | .removeTrackerSynchronized _ | .updateMonitorData _ => True

/-- What holds in every state, whatever the operations. -/
structure Maintained (s : Ranking) : Prop where
  keyed : Keyed env s.reputation
  sameDomain : SameDomain env s.reputation

variable {env} {s : Ranking}

theorem isRegisteredTracker_iff {t : CReputationTracker} {id : CKeyID} :
    t.isRegisteredTracker id ↔ (t.registeredTrackers.lookup id).isSome ∨
      (t.allyTrackersRankings.lookup id).isSome := decide_eq_true_iff

theorem Maintained.addTracker (h : s.Maintained env) (data : CTrackerData) :
    (s.step env (.addTracker data)).Maintained env := by
  refine ⟨⟨fun id data' hdata => ?_, h.keyed.ally⟩, h.sameDomain⟩
  rcases OrderedMap.eq_or_lookup_of_assign hdata with ⟨rfl, rfl⟩ | hold
  · rfl
  · exact h.keyed.registered id data' hold

theorem Maintained.addAllyTracker (h : s.Maintained env) (data : CAllyTrackerData) :
    (s.step env (.addAllyTracker data)).Maintained env := by
  refine ⟨⟨h.keyed.registered, fun id data' hdata => ?_⟩, fun id => ?_⟩
  · rcases OrderedMap.eq_or_lookup_of_assign hdata with ⟨rfl, rfl⟩ | hold
    · rfl
    · exact h.keyed.ally id data' hold
  · by_cases hid : id = keyId env data.publicKey
    · subst hid
      simp [Ranking.step, CReputationTracker.addAllyTracker]
    · simpa [Ranking.step, CReputationTracker.addAllyTracker,
        OrderedMap.lookup_assign_of_ne hid] using h.sameDomain id

theorem Maintained.removeAllyTracker (h : s.Maintained env) (pubKeyId : CKeyID) :
    (s.step env (.removeAllyTracker pubKeyId)).Maintained env := by
  refine ⟨h.keyed.mono (fun _ _ hdata => hdata) fun id data hdata => ?_,
    @SameDomain.erase env s.reputation [pubKeyId] h.sameDomain⟩
  exact (@lookup_of_foldl_erase _ [pubKeyId] _ _ _ hdata).2

theorem step_updateRankingInfo_of_other {pubKey : CPubKey} (info : CRankingFullInfo)
    (hother : ¬s.reputation.isAddmitedMonitor (keyId env pubKey)) :
    s.step env (.updateRankingInfo pubKey info) = s := by
  simp only [Ranking.step, CReputationTracker.updateRankingInfo, hother]
  rfl

theorem Maintained.updateRankingInfo (h : s.Maintained env) (pubKey : CPubKey)
    (info : CRankingFullInfo) : (s.step env (.updateRankingInfo pubKey info)).Maintained env := by
  by_cases hmonitor : s.reputation.isAddmitedMonitor (keyId env pubKey)
  · have hupdated := updated h.sameDomain info hmonitor
    refine ⟨⟨fun id data hdata => ?_, fun id data hdata => ?_⟩, hupdated.sameDomain⟩
    · refine h.keyed.registered id data ?_
      rw [← hupdated.registered]
      exact hdata
    · rcases hupdated.ally id data hdata with hold | ⟨-, -, hkey⟩
      · exact h.keyed.ally id data hold
      · exact hkey
  · rwa [step_updateRankingInfo_of_other info hmonitor]

theorem Maintained.expire (h : s.Maintained env) (now : Int64) :
    (s.step env (.expire now)).Maintained env := by
  obtain ⟨registered, extendInProgress, allowSynchronization, heq, -, hlookup⟩ :=
    iterate_spec h.keyed.registered now
  simp only [Ranking.step, heq]
  refine ⟨h.keyed.mono (fun id data hdata => ?_) fun _ _ hdata => hdata, h.sameDomain⟩
  rw [hlookup] at hdata
  split at hdata
  · cases hdata
  · exact hdata

theorem Maintained.updateMonitorData (h : s.Maintained env) (pubKeyId : CKeyID) :
    (s.step env (.updateMonitorData pubKeyId)).Maintained env := by
  by_cases hmonitor : s.reputation.isAddmitedMonitor pubKeyId
  · obtain ⟨ids, presentNodes, -, heq⟩ := updateMonitorData_of_monitor h.keyed hmonitor
    simp only [Ranking.step, heq]
    exact ⟨h.keyed.mono (fun _ _ hdata => hdata) fun id data hdata =>
      (lookup_of_foldl_erase hdata).2, h.sameDomain.erase⟩
  · simp only [Ranking.step, CReputationTracker.updateMonitorData, hmonitor]
    split
    · exact absurd ‹_› Bool.false_ne_true
    · split <;> exact ⟨⟨h.keyed.registered, h.keyed.ally⟩, h.sameDomain⟩

theorem Maintained.step (h : s.Maintained env) (op : Operation) : (s.step env op).Maintained env := by
  cases op with
  | addTracker data => exact h.addTracker data
  | addAllyTracker data => exact h.addAllyTracker data
  | removeAllyTracker pubKeyId => exact h.removeAllyTracker pubKeyId
  | updateRankingInfo pubKey info => exact h.updateRankingInfo pubKey info
  | expire now => exact h.expire now
  | updateMonitorData pubKeyId => exact h.updateMonitorData pubKeyId
  | addAllyMonitor data =>
    simp only [Ranking.step, CReputationTracker.addAllyMonitor]
    split <;> exact ⟨⟨h.keyed.registered, h.keyed.ally⟩, h.sameDomain⟩
  | removeTracker _ => exact ⟨h.keyed, h.sameDomain⟩
  | removeAllyMonitor _ => exact ⟨⟨h.keyed.registered, h.keyed.ally⟩, h.sameDomain⟩
  | clearRankingData =>
    refine ⟨⟨fun id data hdata => ?_, fun id data hdata => ?_⟩, fun _ => rfl⟩
    · cases hdata
    · cases hdata
  | setTrackerSynchronized _ => exact ⟨⟨h.keyed.registered, h.keyed.ally⟩, h.sameDomain⟩
  | removeTrackerSynchronized _ => exact ⟨⟨h.keyed.registered, h.keyed.ally⟩, h.sameDomain⟩

section Steps

variable (h : s.Consistent env) (hm : s.Maintained env)
include h hm

theorem addTracker_iff (data : CTrackerData) :
    (s.step env (.addTracker data)).Consistent env ↔ s.Keeps env (.addTracker data) := by
  constructor
  · intro hnext
    apply hnext.apart
    simp [Ranking.step, CReputationTracker.addTracker]
  · intro hkeeps
    refine ⟨(hm.step _).sameDomain, fun id hid => ?_, h.monitored, fun id hid => ?_,
      fun id hid => ?_⟩
    · by_cases hkey : id = keyId env data.publicKey
      · rw [hkey]
        exact hkeeps
      · simp only [Ranking.step, CReputationTracker.addTracker,
          OrderedMap.lookup_assign_of_ne hkey] at hid
        exact h.apart id hid
    · rw [isRegisteredTracker_iff]
      by_cases hkey : id = keyId env data.publicKey
      · simp [Ranking.step, CReputationTracker.addTracker, hkey]
      · simp only [Ranking.step, CReputationTracker.addTracker, OrderedMap.lookup_assign_of_ne hkey]
        exact isRegisteredTracker_iff.mp (h.synchronized id hid)
    · obtain ⟨hkey, hgone⟩ := Finset.mem_erase.mp hid
      simpa [Ranking.step, CReputationTracker.addTracker,
        OrderedMap.lookup_assign_of_ne hkey] using h.gone id hgone

omit hm in
theorem removeTracker_iff (pubKeyId : CKeyID) :
    (s.step env (.removeTracker pubKeyId)).Consistent env ↔ s.Keeps env (.removeTracker pubKeyId) := by
  constructor
  · intro hnext
    exact hnext.gone pubKeyId (Finset.mem_insert_self _ _)
  · intro hkeeps
    refine ⟨h.sameDomain, h.apart, h.monitored, h.synchronized, fun id hid => ?_⟩
    rcases Finset.mem_insert.mp hid with rfl | hgone
    · exact hkeeps
    · exact h.gone id hgone

theorem addAllyTracker_iff (data : CAllyTrackerData) :
    (s.step env (.addAllyTracker data)).Consistent env ↔ s.Keeps env (.addAllyTracker data) := by
  constructor
  · intro hnext
    constructor
    · by_contra hsome
      have hnone := hnext.apart (keyId env data.publicKey) (Option.isSome_iff_ne_none.mpr hsome)
      simp [Ranking.step, CReputationTracker.addAllyTracker] at hnone
    · apply hnext.monitored (keyId env data.publicKey) data
      simp [Ranking.step, CReputationTracker.addAllyTracker]
  · rintro ⟨hnone, hmonitor⟩
    refine ⟨(hm.step _).sameDomain, fun id hid => ?_, fun id data' hdata => ?_, fun id hid => ?_,
      h.gone⟩
    · have hkey : id ≠ keyId env data.publicKey := by
        rintro rfl
        rw [show (s.step env (.addAllyTracker data)).reputation.registeredTrackers =
          s.reputation.registeredTrackers from rfl, hnone] at hid
        cases hid
      simpa [Ranking.step, CReputationTracker.addAllyTracker,
        OrderedMap.lookup_assign_of_ne hkey] using h.apart id hid
    · rcases OrderedMap.eq_or_lookup_of_assign hdata with ⟨rfl, rfl⟩ | hold
      · exact hmonitor
      · exact h.monitored id data' hold
    · rw [isRegisteredTracker_iff]
      by_cases hkey : id = keyId env data.publicKey
      · simp [Ranking.step, CReputationTracker.addAllyTracker, hkey]
      · simp only [Ranking.step, CReputationTracker.addAllyTracker,
          OrderedMap.lookup_assign_of_ne hkey]
        exact isRegisteredTracker_iff.mp (h.synchronized id hid)

theorem removeAllyTracker_iff (pubKeyId : CKeyID) :
    (s.step env (.removeAllyTracker pubKeyId)).Consistent env ↔
      s.Keeps env (.removeAllyTracker pubKeyId) := by
  constructor
  · intro hnext hsome hmem
    have hregistered := isRegisteredTracker_iff.mp (hnext.synchronized pubKeyId hmem)
    simp only [Ranking.step, CReputationTracker.removeAllyTracker, OrderedMap.lookup_erase_self,
      Option.isSome_none, Bool.false_eq_true, or_false] at hregistered
    rw [h.apart pubKeyId hregistered] at hsome
    cases hsome
  · intro hkeeps
    refine ⟨(hm.step _).sameDomain, fun id hid => ?_, fun id data hdata => ?_, fun id hid => ?_,
      h.gone⟩
    · have hnone := h.apart id hid
      simp only [Ranking.step, CReputationTracker.removeAllyTracker, OrderedMap.erase,
        OrderedMap.lookup_filter, hnone, Option.filter_none]
    · exact h.monitored id data (@lookup_of_foldl_erase _ [pubKeyId] _ _ _ hdata).2
    · rw [isRegisteredTracker_iff]
      rcases isRegisteredTracker_iff.mp (h.synchronized id hid) with hregistered | hally
      · exact .inl hregistered
      · have hkey : id ≠ pubKeyId := fun heq => by
          rw [heq] at hally hid
          exact hkeeps hally hid
        refine .inr ?_
        simpa [Ranking.step, CReputationTracker.removeAllyTracker,
          OrderedMap.lookup_erase_of_ne hkey] using hally

theorem addAllyMonitor_consistent (data : CAllyMonitorData) :
    (s.step env (.addAllyMonitor data)).Consistent env := by
  obtain ⟨allyMonitors, heq, hgrows⟩ := foldl_addAllyMonitor env [data] s.reputation
  have hstep : (s.step env (.addAllyMonitor data)).reputation =
      { s.reputation with allyMonitors := allyMonitors } := heq
  refine ⟨(hm.step _).sameDomain, ?_, ?_, ?_, ?_⟩
  · rw [hstep]
    exact h.apart
  · rw [hstep]
    exact fun id data hdata => hgrows _ (h.monitored id data hdata)
  · rw [hstep]
    exact h.synchronized
  · rw [hstep]
    exact h.gone

omit hm in
theorem removeAllyMonitor_iff (pubKeyId : CKeyID) :
    (s.step env (.removeAllyMonitor pubKeyId)).Consistent env ↔
      s.Keeps env (.removeAllyMonitor pubKeyId) := by
  constructor
  · rintro hnext id data hdata rfl
    have hmonitor := hnext.monitored id data hdata
    simp [Ranking.step, CReputationTracker.removeAllyMonitor, isAddmitedMonitor] at hmonitor
  · intro hkeeps
    refine ⟨h.sameDomain, h.apart, fun id data hdata => ?_, h.synchronized, h.gone⟩
    have hmonitor := h.monitored id data hdata
    simpa [Ranking.step, CReputationTracker.removeAllyMonitor, isAddmitedMonitor,
      OrderedMap.lookup_erase_of_ne (hkeeps id data hdata)] using hmonitor

omit h hm in
theorem keeps_of_updated {pubKey : CPubKey} {info : CRankingFullInfo}
    (hupdated : Updated env pubKey info s.reputation
      (s.step env (.updateRankingInfo pubKey info)).reputation)
    (hnext : (s.step env (.updateRankingInfo pubKey info)).Consistent env) :
    s.Keeps env (.updateRankingInfo pubKey info) := by
  refine fun _ => ⟨fun data hdata => ?_, fun id hid => ?_⟩
  · by_contra hsome
    have hadded := (hupdated.stays (keyId env data.publicKey)).mpr (.inl (List.mem_map_of_mem hdata))
    have hnone := hnext.apart (keyId env data.publicKey)
      (by rw [hupdated.registered]; exact Option.isSome_iff_ne_none.mpr hsome)
    exact Option.isSome_iff_ne_none.mp hadded hnone
  · have hin := hnext.synchronized id ((hupdated.synchronized id).mpr (.inl hid))
    rw [isRegisteredTracker_iff, hupdated.registered] at hin
    exact hin.imp_right (hupdated.stays id).mp

omit hm in
theorem consistent_of_updated {pubKey : CPubKey} {info : CRankingFullInfo}
    (hmonitor : s.reputation.isAddmitedMonitor (keyId env pubKey))
    (hupdated : Updated env pubKey info s.reputation
      (s.step env (.updateRankingInfo pubKey info)).reputation)
    (hkeeps : s.Keeps env (.updateRankingInfo pubKey info)) :
    (s.step env (.updateRankingInfo pubKey info)).Consistent env := by
  obtain ⟨hnew, hsynchronized⟩ := hkeeps hmonitor
  refine ⟨hupdated.sameDomain, fun id hid => ?_, fun id data hdata => ?_, fun id hid => ?_,
    fun id hid => ?_⟩
  · rw [hupdated.registered] at hid
    by_contra hsome
    rcases (hupdated.stays id).mp (Option.isSome_iff_ne_none.mpr hsome) with
      hpresent | ⟨data, hdata, -⟩
    · obtain ⟨data, hdata, rfl⟩ := List.mem_map.mp hpresent
      rw [hnew data hdata] at hid
      cases hid
    · rw [h.apart id hid] at hdata
      cases hdata
  · rcases hupdated.ally id data hdata with hold | ⟨rfl, -, -⟩
    · exact hupdated.monitors _ (h.monitored id data hold)
    · exact hupdated.monitors _ hmonitor
  · rw [isRegisteredTracker_iff, hupdated.registered]
    rcases (hupdated.synchronized id).mp hid with hlist | ⟨hold, hstays⟩
    · exact (hsynchronized id hlist).imp_right (hupdated.stays id).mpr
    · refine (isRegisteredTracker_iff.mp (h.synchronized id hold)).imp_right fun hally => ?_
      obtain ⟨data, hdata⟩ := Option.isSome_iff_exists.mp hally
      refine (hupdated.stays id).mpr ?_
      by_cases hmine : keyId env data.allyMonitorKey = keyId env pubKey
      · by_contra hneither
        exact hstays ⟨⟨data, hdata, hmine⟩, fun hpresent => hneither (.inl hpresent)⟩
      · exact .inr ⟨data, hdata, hmine⟩
  · rw [hupdated.registered]
    exact h.gone id hid

theorem updateRankingInfo_iff (pubKey : CPubKey) (info : CRankingFullInfo) :
    (s.step env (.updateRankingInfo pubKey info)).Consistent env ↔
      s.Keeps env (.updateRankingInfo pubKey info) := by
  by_cases hmonitor : s.reputation.isAddmitedMonitor (keyId env pubKey)
  · have hupdated := updated hm.sameDomain info hmonitor
    exact ⟨keeps_of_updated hupdated, consistent_of_updated h hmonitor hupdated⟩
  · rw [step_updateRankingInfo_of_other info hmonitor]
    exact iff_of_true h fun hm' => absurd hm' hmonitor

theorem expire_iff (now : Int64) :
    (s.step env (.expire now)).Consistent env ↔ s.Keeps env (.expire now) := by
  obtain ⟨registered, extendInProgress, allowSynchronization, heq, hremoved, hlookup⟩ :=
    iterate_spec hm.keyed.registered now
  have hstep : (s.step env (.expire now)).reputation = { s.reputation with
      registeredTrackers := registered
      extendInProgress := extendInProgress
      allowSynchronization := allowSynchronization } := heq
  constructor
  · intro hnext id data hdata hexpired hmem
    have hgone : registered.lookup id = none := by
      rw [hlookup, if_pos ((hremoved id).mpr ⟨data, hdata, hexpired⟩)]
    have hin := hnext.synchronized id (by rw [hstep]; exact hmem)
    have hnone := h.apart id (Option.isSome_iff_exists.mpr ⟨data, hdata⟩)
    rw [isRegisteredTracker_iff, hstep] at hin
    simp [hgone, hnone] at hin
  · intro hkeeps
    refine ⟨(hm.step _).sameDomain, ?_, ?_, ?_, ?_⟩
    · rw [hstep]
      intro id hid
      obtain ⟨data, hdata⟩ := Option.isSome_iff_exists.mp hid
      rw [hlookup] at hdata
      split at hdata
      · cases hdata
      · exact h.apart id (Option.isSome_iff_exists.mpr ⟨data, hdata⟩)
    · rw [hstep]
      exact h.monitored
    · rw [hstep]
      intro id hid
      rw [isRegisteredTracker_iff]
      refine (isRegisteredTracker_iff.mp (h.synchronized id hid)).imp_left fun hregistered => ?_
      have hstays : id ∉ (iterate env s.reputation now).toBeRemoved := fun hin => by
        obtain ⟨data, hdata, hexpired⟩ := (hremoved id).mp hin
        exact hkeeps id data hdata hexpired hid
      rw [hlookup, if_neg hstays]
      exact hregistered
    · rw [hstep]
      intro id hid
      rw [hlookup]
      split
      · rfl
      · rename_i hstays
        rcases Finset.mem_union.mp hid with hgone | hin
        · exact h.gone id hgone
        · exact absurd (List.mem_toFinset.mp hin) hstays

omit h hm in
theorem clearRankingData_iff :
    (s.step env .clearRankingData).Consistent env ↔ s.Keeps env .clearRankingData := by
  constructor
  · intro hnext
    refine Finset.eq_empty_of_forall_notMem fun id hid => ?_
    have hin := isRegisteredTracker_iff.mp (hnext.synchronized id hid)
    simp [Ranking.step, CReputationTracker.clearRankingData] at hin
  · intro hkeeps
    refine ⟨fun _ => rfl, fun _ _ => rfl, fun id data hdata => ?_, fun id hid => ?_, fun _ _ => rfl⟩
    · cases hdata
    · have hid' : id ∈ s.reputation.synchronizedTrackers := hid
      rw [show s.reputation.synchronizedTrackers = ∅ from hkeeps] at hid'
      exact absurd hid' (Finset.notMem_empty id)

omit hm in
theorem setTrackerSynchronized_iff (pubKeyId : CKeyID) :
    (s.step env (.setTrackerSynchronized pubKeyId)).Consistent env ↔
      s.Keeps env (.setTrackerSynchronized pubKeyId) := by
  constructor
  · intro hnext
    exact hnext.synchronized pubKeyId (Finset.mem_insert_self _ _)
  · intro hkeeps
    refine ⟨h.sameDomain, h.apart, h.monitored, fun id hid => ?_, h.gone⟩
    rcases Finset.mem_insert.mp hid with rfl | hold
    · exact hkeeps
    · exact h.synchronized id hold

omit hm in
theorem removeTrackerSynchronized_consistent (pubKeyId : CKeyID) :
    (s.step env (.removeTrackerSynchronized pubKeyId)).Consistent env :=
  ⟨h.sameDomain, h.apart, h.monitored,
    fun id hid => h.synchronized id (Finset.mem_of_mem_erase hid), h.gone⟩

theorem updateMonitorData_consistent (pubKeyId : CKeyID) :
    (s.step env (.updateMonitorData pubKeyId)).Consistent env := by
  by_cases hmonitor : s.reputation.isAddmitedMonitor pubKeyId
  · obtain ⟨ids, presentNodes, hids, heq⟩ := updateMonitorData_of_monitor hm.keyed hmonitor
    refine ⟨(hm.step _).sameDomain, ?_, ?_, ?_, ?_⟩
    all_goals simp only [Ranking.step, heq]
    · intro id hid
      rw [OrderedMap.lookup_foldl_erase, h.apart id hid, ite_self]
    · intro id data hdata
      obtain ⟨hstays, hold⟩ := lookup_of_foldl_erase hdata
      have hother : keyId env data.allyMonitorKey ≠ pubKeyId := fun hmine =>
        hstays ((hids id).mpr ⟨data, hold, hmine⟩)
      simpa [isAddmitedMonitor, OrderedMap.lookup_erase_of_ne hother] using h.monitored id data hold
    · intro id hid
      obtain ⟨hold, hstays⟩ := Finset.mem_sdiff.mp hid
      rw [isRegisteredTracker_iff]
      refine (isRegisteredTracker_iff.mp (h.synchronized id hold)).imp_right fun hally => ?_
      rw [OrderedMap.lookup_foldl_erase, if_neg fun hin => hstays (List.mem_toFinset.mpr hin)]
      exact hally
    · exact h.gone
  · simp only [Ranking.step, CReputationTracker.updateMonitorData, hmonitor]
    split
    · exact absurd ‹_› Bool.false_ne_true
    · split
      · exact removeTrackerSynchronized_consistent h pubKeyId
      · exact h

theorem consistent_step_iff (op : Operation) :
    (s.step env op).Consistent env ↔ s.Keeps env op := by
  cases op with
  | addTracker data => exact addTracker_iff h hm data
  | removeTracker pubKeyId => exact removeTracker_iff h pubKeyId
  | addAllyTracker data => exact addAllyTracker_iff h hm data
  | removeAllyTracker pubKeyId => exact removeAllyTracker_iff h hm pubKeyId
  | addAllyMonitor data => exact iff_of_true (addAllyMonitor_consistent h hm data) trivial
  | removeAllyMonitor pubKeyId => exact removeAllyMonitor_iff h pubKeyId
  | updateRankingInfo pubKey info => exact updateRankingInfo_iff h hm pubKey info
  | expire now => exact expire_iff h hm now
  | clearRankingData => exact clearRankingData_iff
  | setTrackerSynchronized pubKeyId => exact setTrackerSynchronized_iff h pubKeyId
  | removeTrackerSynchronized pubKeyId =>
    exact iff_of_true (removeTrackerSynchronized_consistent h pubKeyId) trivial
  | updateMonitorData pubKeyId =>
    exact iff_of_true (updateMonitorData_consistent h hm pubKeyId) trivial

end Steps

theorem maintained_empty : (empty : Ranking).Maintained env :=
  ⟨⟨fun _ _ h => (nomatch h), fun _ _ h => (nomatch h)⟩, fun _ => rfl⟩

theorem consistent_empty : (empty : Ranking).Consistent env :=
  ⟨fun _ => rfl, fun _ _ => rfl, fun _ _ h => (nomatch h),
    fun id h => absurd h (Finset.notMem_empty id), fun _ _ => rfl⟩

/-- The ranking is consistent throughout a run, which begins by adding the trackers of
the database, if and only if every operation meets its condition. -/
theorem consistent_throughout_iff (ops : List Operation) :
    (∀ past, past <+: ops → (GuardedRun.run (step env) empty past).Consistent env) ↔
      GuardedRun.Guarded (step env) (Keeps env) empty ops := by
  have hstep : ∀ (s : Ranking) op, s.Maintained env → (s.step env op).Maintained env :=
    fun _ op hm => hm.step op
  have hok : ∀ (s : Ranking) op, s.Maintained env → s.Consistent env →
      ((s.step env op).Consistent env ↔ s.Keeps env op) :=
    fun _ op hm h => consistent_step_iff h hm op
  exact GuardedRun.always_iff hstep hok maintained_empty consistent_empty

namespace RemovedTracker

def context : ReputationContext := ⟨⟨fun _ => 0, fun _ => 1⟩, .invalid, fun _ => false⟩

def tracker : CTrackerData :=
  ⟨⟨.ofBytes (2 :: List.replicate 32 1), ⟨0, 0, 0, 0⟩⟩, 0, 3600, 0⟩

/-- A tracker that is removed stays registered. -/
theorem still_registered :
    ¬∀ (env : ReputationContext) (ops past : List Operation), past <+: ops →
      (GuardedRun.run (step env) empty past).Consistent env := by
  intro h
  have hconsistent := h context [.addTracker tracker, .removeTracker 1] _ List.prefix_rfl
  have hnone := hconsistent.gone 1 (Finset.mem_insert_self _ _)
  cases hnone

end RemovedTracker

end Ranking

end Dims
