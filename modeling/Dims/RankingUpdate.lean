import Dims.RankingConsistency

/-!
# Ranking messages of a monitor

A monitor names its trackers in every ranking message. A tracker that is known already
keeps the data and the monitor it has.
-/

namespace Dims.CReputationTracker

variable (env : ReputationContext)

def presentTrackers (info : CRankingFullInfo) : List CKeyID :=
  info.trackers.map fun data => keyId env data.publicKey

/-- A tracker is attributed to a monitor, with its data. -/
def TrackerOf (t : CReputationTracker) (pubKeyId id : CKeyID) (data : CTrackerData) : Prop :=
  t.trackerToMonitor.lookup id = some pubKeyId ∧
    ∃ ally, t.allyTrackersRankings.lookup id = some ally ∧ ally.toCTrackerData = data

/-- The message of a monitor takes effect exactly. -/
structure TakesEffect (t : CReputationTracker) (pubKey : CPubKey) (info : CRankingFullInfo) : Prop where
  listed : ∀ id data, (updateRankingInfo env t pubKey info).TrackerOf (keyId env pubKey) id data ↔
    data ∈ info.trackers ∧ keyId env data.publicKey = id
  others : ∀ id pubKeyId, t.trackerToMonitor.lookup id = some pubKeyId →
    pubKeyId ≠ keyId env pubKey → id ∉ presentTrackers env info →
    (updateRankingInfo env t pubKey info).trackerToMonitor.lookup id = some pubKeyId ∧
      (updateRankingInfo env t pubKey info).allyTrackersRankings.lookup id =
        t.allyTrackersRankings.lookup id
  again : updateRankingInfo env (updateRankingInfo env t pubKey info) pubKey info =
    updateRankingInfo env t pubKey info

/-- The message does not say two things about one tracker, and says about a known tracker
what is known, its monitor included. -/
def SaysTheSame (t : CReputationTracker) (pubKey : CPubKey) (info : CRankingFullInfo) : Prop :=
  ∀ data ∈ info.trackers,
    (∀ data' ∈ info.trackers, keyId env data'.publicKey = keyId env data.publicKey → data' = data) ∧
    ∀ ally, t.allyTrackersRankings.lookup (keyId env data.publicKey) = some ally →
      ally.toCTrackerData = data ∧ keyId env ally.allyMonitorKey = keyId env pubKey

variable {env} {t : CReputationTracker} {pubKey : CPubKey} {info : CRankingFullInfo}

variable (env pubKey) in
theorem allyTrackersRankings_foldl_addRankedTracker (trackers : List CTrackerData)
    (t : CReputationTracker) :
    (trackers.foldl (addRankedTracker env pubKey) t).allyTrackersRankings =
      (trackers.map fun data => (⟨data, pubKey⟩ : CAllyTrackerData)).foldl
        (fun m ally => m.insertNew (keyId env ally.publicKey) ally) t.allyTrackersRankings := by
  induction trackers generalizing t with
  | nil => rfl
  | cons data trackers ih =>
    rw [List.foldl_cons, ih, List.map_cons, List.foldl_cons]
    congr 1
    unfold addRankedTracker
    split
    · exact (OrderedMap.insertNew_of_isSome ‹_› _).symm
    · rfl

/-- A tracker that is listed keeps its entry, or gets one; any other one keeps its entry
unless it is attributed to the monitor. -/
theorem lookup_updateRankingInfo (hsame : SameDomain env t)
    (hmonitor : t.isAddmitedMonitor (keyId env pubKey)) (id : CKeyID) :
    (updateRankingInfo env t pubKey info).allyTrackersRankings.lookup id =
      if id ∈ presentTrackers env info then
        (t.allyTrackersRankings.lookup id).or
          ((info.trackers.find? fun data => keyId env data.publicKey = id).map fun data =>
            ⟨data, pubKey⟩)
      else
        (t.allyTrackersRankings.lookup id).filter fun ally =>
          keyId env ally.allyMonitorKey ≠ keyId env pubKey := by
  obtain ⟨allyMonitors, hmonitors, -⟩ := foldl_addAllyMonitor env info.allyMonitors t
  have hspec := ranked_foldl env pubKey info.trackers { t with allyMonitors := allyMonitors }
  have hdeleted := fun id => @Ranked.mem_deleteTrackersList_iff _ _ _ _ _ hspec
    (hspec.sameDomain hsame) id
  have hranked := allyTrackersRankings_foldl_addRankedTracker env pubKey info.trackers
    { t with allyMonitors := allyMonitors }
  simp only [updateRankingInfo, hmonitor, ↓reduceIte, hmonitors, foldl_deleteTracker,
    foldl_setTrackerSynchronized, OrderedMap.lookup_foldl_erase, hdeleted, hranked,
    OrderedMap.lookup_foldl_insertNew, List.find?_map, Function.comp_def]
  by_cases hpresent : id ∈ presentTrackers env info
  · rw [if_pos hpresent, if_neg fun hgone => hgone.2 hpresent]
  · have hunlisted : (info.trackers.find? fun data => keyId env data.publicKey = id) = none := by
      refine List.find?_eq_none.mpr fun data hdata hkey => hpresent ?_
      exact List.mem_map.mpr ⟨data, hdata, of_decide_eq_true hkey⟩
    rw [if_neg hpresent, hunlisted, Option.map_none, Option.or_none]
    cases hlookup : t.allyTrackersRankings.lookup id with
    | none => simp
    | some ally =>
      by_cases hmine : keyId env ally.allyMonitorKey = keyId env pubKey
      · rw [if_pos ⟨⟨ally, rfl, hmine⟩, hpresent⟩, Option.filter_some_neg]
        simpa using hmine
      · rw [if_neg, Option.filter_some_pos]
        · simpa using hmine
        · rintro ⟨⟨ally', heq, hmine'⟩, -⟩
          exact hmine (by rwa [Option.some.inj heq])

theorem trackerOf_iff (hsame : SameDomain env t) {pubKeyId id : CKeyID} {data : CTrackerData} :
    t.TrackerOf pubKeyId id data ↔ ∃ ally, t.allyTrackersRankings.lookup id = some ally ∧
      keyId env ally.allyMonitorKey = pubKeyId ∧ ally.toCTrackerData = data := by
  unfold TrackerOf
  rw [hsame id, Option.map_eq_some_iff]
  constructor
  · rintro ⟨⟨ally, hally, rfl⟩, ally', hally', rfl⟩
    obtain rfl : ally = ally' := Option.some.inj (hally.symm.trans hally')
    exact ⟨ally, hally, rfl, rfl⟩
  · rintro ⟨ally, hally, rfl, rfl⟩
    exact ⟨⟨ally, hally, rfl⟩, ally, hally, rfl⟩

theorem others_updateRankingInfo (hsame : SameDomain env t)
    (hmonitor : t.isAddmitedMonitor (keyId env pubKey)) {id pubKeyId : CKeyID}
    (hother : t.trackerToMonitor.lookup id = some pubKeyId) (hne : pubKeyId ≠ keyId env pubKey)
    (hunlisted : id ∉ presentTrackers env info) :
    (updateRankingInfo env t pubKey info).trackerToMonitor.lookup id = some pubKeyId ∧
      (updateRankingInfo env t pubKey info).allyTrackersRankings.lookup id =
        t.allyTrackersRankings.lookup id := by
  have hkept : (updateRankingInfo env t pubKey info).allyTrackersRankings.lookup id =
      t.allyTrackersRankings.lookup id := by
    rw [lookup_updateRankingInfo hsame hmonitor, if_neg hunlisted]
    rw [hsame id, Option.map_eq_some_iff] at hother
    obtain ⟨ally, hally, rfl⟩ := hother
    simp [hally, hne]
  refine ⟨?_, hkept⟩
  rw [(updated hsame info hmonitor).sameDomain id, hkept, ← hsame id]
  exact hother

theorem foldl_addAllyMonitor_eq (monitors : List CAllyMonitorData) (t : CReputationTracker) :
    monitors.foldl (addAllyMonitor env) t = { t with
      allyMonitors := (monitors.filter fun data => env.myKey ≠ data.publicKey).foldl
        (fun m data => m.insertNew (keyId env data.publicKey) data) t.allyMonitors } := by
  induction monitors generalizing t with
  | nil => rfl
  | cons data monitors ih =>
    rw [List.foldl_cons, ih, List.filter_cons]
    unfold addAllyMonitor
    by_cases hmine : env.myKey = data.publicKey
    · simp [hmine]
    · simp [hmine]

theorem foldl_addRankedTracker_of_known {trackers : List CTrackerData}
    (hknown : ∀ data ∈ trackers, (t.allyTrackersRankings.lookup (keyId env data.publicKey)).isSome) :
    trackers.foldl (addRankedTracker env pubKey) t = t := by
  induction trackers with
  | nil => rfl
  | cons data trackers ih =>
    obtain ⟨hfirst, hrest⟩ := List.forall_mem_cons.mp hknown
    rw [List.foldl_cons, addRankedTracker, if_pos hfirst]
    exact ih hrest

theorem updateRankingInfo_of_known (hsame : SameDomain env t)
    (hmonitors : ∀ data ∈ info.allyMonitors, env.myKey ≠ data.publicKey →
      (t.allyMonitors.lookup (keyId env data.publicKey)).isSome)
    (htrackers : ∀ data ∈ info.trackers,
      (t.allyTrackersRankings.lookup (keyId env data.publicKey)).isSome)
    (hlisted : ∀ id ally, t.allyTrackersRankings.lookup id = some ally →
      keyId env ally.allyMonitorKey = keyId env pubKey → id ∈ presentTrackers env info)
    (hsync : ∀ id ∈ info.synchronizedTrackers, id ∈ t.synchronizedTrackers) :
    updateRankingInfo env t pubKey info = t := by
  have hknown : (info.allyMonitors.filter fun data => env.myKey ≠ data.publicKey).foldl
      (fun m data => m.insertNew (keyId env data.publicKey) data) t.allyMonitors =
        t.allyMonitors := by
    refine OrderedMap.foldl_insertNew_of_isSome fun data hdata => ?_
    obtain ⟨hin, hother⟩ := List.mem_filter.mp hdata
    exact hmonitors data hin (of_decide_eq_true hother)
  have hnone : deleteTrackersList env t pubKey (presentTrackers env info) = [] := by
    refine List.eq_nil_iff_forall_not_mem.mpr fun id hid => ?_
    obtain ⟨⟨ally, hally, hmine⟩, hunlisted⟩ := (mem_deleteTrackersList hsame).mp hid
    exact hunlisted (hlisted id ally hally hmine)
  have hsubset : info.synchronizedTrackers.toFinset ⊆ t.synchronizedTrackers := fun id hid =>
    hsync id (List.mem_toFinset.mp hid)
  unfold presentTrackers at hnone
  unfold updateRankingInfo
  split
  · simp only [foldl_addAllyMonitor_eq, hknown, foldl_addRankedTracker_of_known htrackers, hnone,
      List.foldl_nil, foldl_setTrackerSynchronized, Finset.union_eq_left.mpr hsubset]
  · rfl

theorem updateRankingInfo_again (hsame : SameDomain env t)
    (hmonitor : t.isAddmitedMonitor (keyId env pubKey)) :
    updateRankingInfo env (updateRankingInfo env t pubKey info) pubKey info =
      updateRankingInfo env t pubKey info := by
  have hupdated := updated hsame info hmonitor
  refine updateRankingInfo_of_known hupdated.sameDomain (fun data hdata hother => ?_)
    (fun data hdata => ?_) (fun id ally hally hmine => ?_) fun id hid => ?_
  · have hkept : (updateRankingInfo env t pubKey info).allyMonitors =
        (info.allyMonitors.filter fun data => env.myKey ≠ data.publicKey).foldl
          (fun m data => m.insertNew (keyId env data.publicKey) data) t.allyMonitors := by
      rw [updateRankingInfo, if_pos hmonitor]
      simp only [foldl_setTrackerSynchronized, foldl_deleteTracker]
      rw [(ranked_foldl env pubKey info.trackers _).rest, foldl_addAllyMonitor_eq]
    rw [hkept, OrderedMap.lookup_foldl_insertNew, Option.isSome_or, Bool.or_eq_true,
      List.find?_isSome]
    exact .inr ⟨data, List.mem_filter.mpr ⟨hdata, decide_eq_true hother⟩, decide_eq_true rfl⟩
  · exact (hupdated.stays _).mpr (.inl (List.mem_map_of_mem hdata))
  · rcases (hupdated.stays id).mp (Option.isSome_iff_exists.mpr ⟨ally, hally⟩) with
      hpresent | ⟨old, hold, hother⟩
    · exact hpresent
    · by_contra hunlisted
      rw [lookup_updateRankingInfo hsame hmonitor, if_neg hunlisted,
        Option.filter_eq_some_iff] at hally
      exact of_decide_eq_true hally.2 hmine
  · exact (hupdated.synchronized id).mpr (.inl hid)

theorem takesEffect_iff (hsame : SameDomain env t)
    (hmonitor : t.isAddmitedMonitor (keyId env pubKey)) :
    TakesEffect env t pubKey info ↔ SaysTheSame env t pubKey info := by
  have hsame' := (updated hsame info hmonitor).sameDomain
  constructor
  · intro heffect data hdata
    have htracker := (heffect.listed _ data).mpr ⟨hdata, rfl⟩
    obtain ⟨ally, hally, hmine, hally_data⟩ := (trackerOf_iff hsame').mp htracker
    refine ⟨fun data' hdata' hkey => ?_, fun known hknown => ?_⟩
    · have htracker' := (heffect.listed _ data').mpr ⟨hdata', hkey⟩
      obtain ⟨-, ally', hally', rfl⟩ := htracker'
      rw [← hally_data, Option.some.inj (hally.symm.trans hally')]
    · have hpresent : keyId env data.publicKey ∈ presentTrackers env info := List.mem_map_of_mem hdata
      rw [lookup_updateRankingInfo hsame hmonitor, if_pos hpresent, hknown, Option.some_or] at hally
      obtain rfl := Option.some.inj hally
      exact ⟨hally_data, hmine⟩
  · intro hagrees
    refine ⟨fun id data => ?_, fun id pubKeyId hother hne hunlisted =>
      others_updateRankingInfo hsame hmonitor hother hne hunlisted,
      updateRankingInfo_again hsame hmonitor⟩
    rw [trackerOf_iff hsame', lookup_updateRankingInfo hsame hmonitor]
    constructor
    · rintro ⟨ally, hally, hmine, rfl⟩
      split at hally
      case isTrue hpresent =>
        obtain ⟨data, hdata, rfl⟩ := List.mem_map.mp hpresent
        rcases Option.or_eq_some_iff.mp hally with hknown | ⟨-, hnew⟩
        · rw [((hagrees data hdata).2 ally hknown).1]
          exact ⟨hdata, rfl⟩
        · obtain ⟨first, hfirst, rfl⟩ := Option.map_eq_some_iff.mp hnew
          exact ⟨List.mem_of_find?_eq_some hfirst,
            of_decide_eq_true (List.find?_eq_some_iff_append.mp hfirst).1⟩
      case isFalse hunlisted =>
        rw [Option.filter_eq_some_iff] at hally
        exact absurd hmine (of_decide_eq_true hally.2)
    · rintro ⟨hdata, rfl⟩
      have hpresent : keyId env data.publicKey ∈ presentTrackers env info := List.mem_map_of_mem hdata
      rw [if_pos hpresent]
      cases hknown : t.allyTrackersRankings.lookup (keyId env data.publicKey) with
      | some ally =>
        obtain ⟨hsame_data, hmine⟩ := (hagrees data hdata).2 ally hknown
        exact ⟨ally, rfl, hmine, hsame_data⟩
      | none =>
        have hfound : (info.trackers.find? fun data' =>
            keyId env data'.publicKey = keyId env data.publicKey).isSome :=
          List.find?_isSome.mpr ⟨data, hdata, decide_eq_true rfl⟩
        obtain ⟨first, hfirst⟩ := Option.isSome_iff_exists.mp hfound
        have hkey : keyId env first.publicKey = keyId env data.publicKey :=
          of_decide_eq_true (List.find?_eq_some_iff_append.mp hfirst).1
        refine ⟨⟨first, pubKey⟩, ?_, rfl,
          (hagrees data hdata).1 first (List.mem_of_find?_eq_some hfirst) hkey⟩
        rw [hfirst]
        rfl

end Dims.CReputationTracker

namespace Dims.Ranking
open CReputationTracker

variable (env : ReputationContext)

theorem maintained_run (ops : List Operation) :
    (GuardedRun.run (step env) empty ops).Maintained env :=
  GuardedRun.run_invariant (fun _ op hm => hm.step op) maintained_empty ops

/-- In every reachable state, the message of an admitted monitor takes effect exactly if and
only if it says about known trackers what is known. -/
theorem message_takesEffect_iff (ops : List Operation) (pubKey : CPubKey) (info : CRankingFullInfo)
    (hmonitor : (GuardedRun.run (step env) empty ops).reputation.isAddmitedMonitor
      (keyId env pubKey)) :
    TakesEffect env (GuardedRun.run (step env) empty ops).reputation pubKey info ↔
      SaysTheSame env (GuardedRun.run (step env) empty ops).reputation pubKey info :=
  takesEffect_iff (maintained_run env ops).sameDomain hmonitor

namespace ExtendedContract

def context : ReputationContext :=
  ⟨⟨fun _ => 0, fun bytes => if bytes.head? = some 3 then 2 else 1⟩, .invalid, fun _ => false⟩

def monitor : CAllyMonitorData :=
  ⟨⟨.ofBytes (3 :: List.replicate 32 1), ⟨0, 0, 0, 0⟩⟩⟩

def tracker (networkTime : UInt64) : CTrackerData :=
  ⟨⟨.ofBytes (2 :: List.replicate 32 1), ⟨0, 0, 0, 0⟩⟩, 0, networkTime, 0⟩

def message (trackers : List CTrackerData) : CRankingFullInfo := ⟨[], [], trackers, [], 0, 0⟩

/-- The first message of the monitor takes effect. -/
theorem first_takesEffect : TakesEffect context
    (GuardedRun.run (step context) empty [.addAllyMonitor monitor]).reputation monitor.publicKey
      (message [tracker 3600]) := by
  have hmonitor : (GuardedRun.run (step context) empty
      [.addAllyMonitor monitor]).reputation.isAddmitedMonitor
        (keyId context monitor.publicKey) = true := by rfl
  refine (message_takesEffect_iff context _ _ _ hmonitor).mpr fun data hdata => ?_
  obtain rfl := List.mem_singleton.mp hdata
  refine ⟨fun data' hdata' _ => List.mem_singleton.mp hdata', fun ally hally => ?_⟩
  cases hally

/-- A tracker whose contract was extended keeps the data of the first message. -/
theorem extension_ignored :
    ¬∀ (env : ReputationContext) (ops : List Operation) (pubKey : CPubKey) (info : CRankingFullInfo),
      (GuardedRun.run (step env) empty ops).reputation.isAddmitedMonitor (keyId env pubKey) →
        TakesEffect env (GuardedRun.run (step env) empty ops).reputation pubKey info := by
  intro h
  have heffect := h context [.addAllyMonitor monitor,
    .updateRankingInfo monitor.publicKey (message [tracker 3600])] monitor.publicKey
      (message [tracker 7200]) rfl
  obtain ⟨-, ally, hally, hdata⟩ := (heffect.listed 1 (tracker 7200)).mpr
    ⟨List.mem_singleton_self _, rfl⟩
  obtain rfl : (⟨tracker 3600, monitor.publicKey⟩ : CAllyTrackerData) = ally :=
    Option.some.inj hally
  cases congrArg CTrackerData.networkTime hdata

end ExtendedContract

end Dims.Ranking
