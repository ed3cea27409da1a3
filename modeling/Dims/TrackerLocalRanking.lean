import Dims.FieldSets
import Dims.OrderedSet
import Dims.SignedPayload

/-!
# The trackers that a client asks

client/trackerLocalRanking.cpp. The client keeps the trackers that it knows in a set that looks
at their addresses. For a request it puts them into a set that looks at the price or at the
reputation, and connects to them in the order of that set.
-/

namespace Dims.LocalRanking
open ByteCodec FieldSets

structure CTrackerStats extends CNodeInfo where
  reputation : UInt32
  price : UInt32
  deriving DecidableEq

structure CUnidentifiedNodeInfo where
  ip : Bytes
  port : UInt32
  deriving DecidableEq

inductive ClientMediums
  | trackersBalanced
  | trackersRep
  | trackersPrice
  | monitors
  | seed
  | time
  | networkInfo
  | unknown
  | undeterminedTrackers
  | undeterminedMonitors
  deriving DecidableEq, Repr

/-- A connection and the address that it has been made for. -/
structure CMedium where
  ip : Bytes
  pointer : ℕ
  deriving DecidableEq

structure CTrackerLocalRanking where
  /-- The set of trackers, whose comparator looks at the address. -/
  trackers : OrderedMap Bytes CTrackerStats
  createdMediums : OrderedMap Bytes CMedium
  /-- Where the next connection is allocated. -/
  nextPointer : ℕ
  unidentifiedNodes : OrderedMap Bytes CUnidentifiedNodeInfo
  monitors : OrderedMap CPubKey CNodeInfo
  undeterminedTrackers : OrderedMap CPubKey CNodeInfo
  undeterminedMonitors : OrderedMap CPubKey CNodeInfo
  /-- A connection is kept under the address that it has been made for. -/
  own : ∀ ip medium, createdMediums.lookup ip = some medium → medium.ip = ip

/-- `(unsigned int)-1` -/
def noLimit : UInt32 := -1

namespace CTrackerLocalRanking

variable (s : CTrackerLocalRanking)

def resetTrackers : CTrackerLocalRanking :=
  { s with undeterminedTrackers := .empty, trackers := .empty }

def addTracker (stats : CTrackerStats) : CTrackerLocalRanking :=
  { s with trackers := s.trackers.insertNew stats.ip stats }

theorem own_insert (ip : Bytes) (pointer : ℕ) (ip' : Bytes) (medium : CMedium)
    (h : (s.createdMediums.insertNew ip ⟨ip, pointer⟩).lookup ip' = some medium) :
    medium.ip = ip' := by
  rcases OrderedMap.eq_or_lookup_of_insertNew h with ⟨rfl, rfl⟩ | hold
  · rfl
  · exact s.own ip' medium hold

def getNetworkConnection (ip : Bytes) : CMedium × CTrackerLocalRanking :=
  match s.createdMediums.lookup ip with
  | some medium => (medium, s)
  | none =>
    (⟨ip, s.nextPointer⟩, { s with
      createdMediums := s.createdMediums.insertNew ip ⟨ip, s.nextPointer⟩
      nextPointer := s.nextPointer + 1
      own := s.own_insert ip s.nextPointer })

def getNetworkConnections (s : CTrackerLocalRanking) : List Bytes → List CMedium × CTrackerLocalRanking
  | [] => ([], s)
  | ip :: ips =>
    let later := getNetworkConnections (s.getNetworkConnection ip).2 ips
    ((s.getNetworkConnection ip).1 :: later.1, later.2)

/-- The addresses of the nodes of a class. The balanced class is ordered by floating point
numbers. -/
def addresses (balanced : List CTrackerStats → List CTrackerStats) : ClientMediums → List Bytes
  | .unknown => (elements s.unidentifiedNodes).map fun stats => stats.ip
  | .undeterminedTrackers => (elements s.undeterminedTrackers).map fun stats => stats.ip
  | .undeterminedMonitors => (elements s.undeterminedMonitors).map fun stats => stats.ip
  | .monitors => (elements s.monitors).map fun stats => stats.ip
  | .trackersPrice =>
    (elements (insertAll CTrackerStats.price (elements s.trackers))).map fun stats => stats.ip
  | .trackersRep =>
    (elements (insertAll CTrackerStats.reputation (elements s.trackers))).map fun stats => stats.ip
  | .trackersBalanced => (balanced (elements s.trackers)).map fun stats => stats.ip
  | .seed | .time | .networkInfo => []

def getMediumByClass (balanced : List CTrackerStats → List CTrackerStats)
    (requestKind : ClientMediums) (mediumNumber : UInt32) : List CMedium × CTrackerLocalRanking :=
  let r := s.getNetworkConnections (s.addresses balanced requestKind)
  (if mediumNumber ≠ noLimit ∧ mediumNumber.toNat < r.1.length then r.1.take mediumNumber.toNat
    else r.1, r.2)

/-- How many trackers of so many are asked for. -/
def limit (mediumNumber : UInt32) (count : ℕ) : ℕ :=
  if mediumNumber = noLimit then count else min mediumNumber.toNat count

/-- The connections are those to the chosen trackers, which the ranking has, as many as are
asked for, and no tracker that has been added is left out for a worse one. -/
structure Picks (better : CTrackerStats → CTrackerStats → Prop) (added : List CTrackerStats)
    (mediumNumber : UInt32) (s : CTrackerLocalRanking) (r : List CMedium × CTrackerLocalRanking)
    (chosen : List CTrackerStats) : Prop where
  known : ∀ stats ∈ chosen, stats ∈ elements s.trackers
  connected : r.1.map CMedium.ip = chosen.map fun stats => stats.ip
  kept : ∀ medium ∈ r.1, r.2.createdMediums.lookup medium.ip = some medium
  distinct : chosen.Nodup
  count : chosen.length = limit mediumNumber added.length
  best : ∀ stats ∈ added, stats ∉ chosen → ∀ other ∈ chosen, ¬ better stats other

/-- The trackers that are the first ones with their addresses. -/
def firstAdded (added : List CTrackerStats) : List CTrackerStats := firsts (fun stats => stats.ip) added

/-- So many trackers are better than one that is the first with its address: these are all first
ones with their addresses too, and no two of them are equal in what counts. -/
def Leads (value : CTrackerStats → UInt32) (added better : List CTrackerStats) (count : ℕ) : Prop :=
  Leaders value (firstAdded added) better count

/-- The condition of the price class. -/
def PricesApart (added : List CTrackerStats) (count : ℕ) : Prop :=
  count = 0 ∨ ∃ last ∈ firstAdded added,
    Leads CTrackerStats.price added (added.filter fun stats => stats.price < last.price) count

/-- The condition of the reputation class: the least reputation of all is among those that are
asked for. -/
def ReputationsApart (added : List CTrackerStats) (count : ℕ) : Prop :=
  count = 0 ∨ ∃ last ∈ firstAdded added,
    (∀ stats ∈ firstAdded added, last.reputation ≤ stats.reputation) ∧
    Leads CTrackerStats.reputation added
      (added.filter fun stats => last.reputation < stats.reputation) count

section Connections

variable {s}

theorem ip_getNetworkConnection (ip : Bytes) : (s.getNetworkConnection ip).1.ip = ip := by
  unfold getNetworkConnection
  split
  case h_1 medium hlookup => exact s.own ip medium hlookup
  case h_2 => rfl

theorem lookup_getNetworkConnection (ip : Bytes) :
    (s.getNetworkConnection ip).2.createdMediums.lookup ip = some (s.getNetworkConnection ip).1 := by
  unfold getNetworkConnection
  split
  case h_1 medium hlookup => exact hlookup
  case h_2 hlookup =>
    change (s.createdMediums.insertNew _ _).lookup ip = _
    rw [OrderedMap.lookup_insertNew_self, hlookup]
    rfl

theorem lookup_getNetworkConnection_of_some {ip ip' : Bytes} {medium : CMedium}
    (h : s.createdMediums.lookup ip' = some medium) :
    (s.getNetworkConnection ip).2.createdMediums.lookup ip' = some medium := by
  unfold getNetworkConnection
  split
  case h_1 => exact h
  case h_2 hlookup =>
    have hne : ip' ≠ ip := fun heq => by
      rw [heq, hlookup] at h
      cases h
    change (s.createdMediums.insertNew _ _).lookup ip' = _
    rw [OrderedMap.lookup_insertNew_of_ne hne, h]

theorem map_ip_getNetworkConnections (ips : List Bytes) :
    (s.getNetworkConnections ips).1.map CMedium.ip = ips := by
  induction ips generalizing s with
  | nil => rfl
  | cons ip ips ih =>
    rw [getNetworkConnections, List.map_cons, ih, ip_getNetworkConnection]

theorem lookup_getNetworkConnections_of_some {ip : Bytes} {medium : CMedium} (ips : List Bytes)
    (h : s.createdMediums.lookup ip = some medium) :
    (s.getNetworkConnections ips).2.createdMediums.lookup ip = some medium := by
  induction ips generalizing s with
  | nil => exact h
  | cons first ips ih => exact ih (lookup_getNetworkConnection_of_some h)

theorem lookup_getNetworkConnections (ips : List Bytes) :
    ∀ medium ∈ (s.getNetworkConnections ips).1,
      (s.getNetworkConnections ips).2.createdMediums.lookup medium.ip = some medium := by
  induction ips generalizing s with
  | nil => simp [getNetworkConnections]
  | cons ip ips ih =>
    refine List.forall_mem_cons.mpr ⟨?_, ih⟩
    rw [ip_getNetworkConnection]
    exact lookup_getNetworkConnections_of_some ips (lookup_getNetworkConnection ip)

end Connections

section Ranking

variable {s} {added : List CTrackerStats} {mediumNumber : UInt32}
  {balanced : List CTrackerStats → List CTrackerStats} {value : CTrackerStats → UInt32}

theorem trackers_foldl_addTracker (s : CTrackerLocalRanking) (added : List CTrackerStats) :
    (added.foldl addTracker s.resetTrackers).trackers = insertAll (fun stats => stats.ip) added := by
  have hany : ∀ s : CTrackerLocalRanking, (added.foldl addTracker s).trackers =
      added.foldl (fun m stats => m.insertNew stats.ip stats) s.trackers := by
    induction added with
    | nil => exact fun _ => rfl
    | cons stats added ih => exact fun s => ih (s.addTracker stats)
  exact hany s.resetTrackers

/-- The trackers of a class, in the order that the client connects to them. -/
def ranked (value : CTrackerStats → UInt32) (s : CTrackerLocalRanking) : List CTrackerStats :=
  elements (insertAll value (elements s.trackers))

theorem map_ip_getMediumByClass (mediumNumber : UInt32) {requestKind : ClientMediums}
    (hclass : s.addresses balanced requestKind = (s.ranked value).map fun stats => stats.ip)
    (hlength : (s.ranked value).length ≤ added.length) :
    (s.getMediumByClass balanced requestKind mediumNumber).1.map CMedium.ip =
      ((s.ranked value).take (limit mediumNumber added.length)).map fun stats => stats.ip := by
  have hips := map_ip_getNetworkConnections (s := s) (s.addresses balanced requestKind)
  have hcount := congrArg List.length hips
  rw [List.length_map, hclass, List.length_map] at hcount
  unfold getMediumByClass limit
  simp only [hclass] at hips hcount ⊢
  by_cases hall : mediumNumber = noLimit
  · rw [if_neg (fun hand => hand.1 hall), if_pos hall, List.take_of_length_le hlength, hips]
  · rw [if_neg hall]
    split
    case isTrue hcut =>
      rw [List.map_take, hips, ← List.map_take]
      rw [hcount] at hcut
      rw [min_eq_left (hcut.2.le.trans hlength)]
    case isFalse hwhole =>
      have hle : (s.ranked value).length ≤ mediumNumber.toNat := by
        by_contra hlt
        exact hwhole ⟨hall, by omega⟩
      rw [hips, List.take_of_length_le (le_min hle hlength)]

theorem kept_getMediumByClass {requestKind : ClientMediums} :
    ∀ medium ∈ (s.getMediumByClass balanced requestKind mediumNumber).1,
      (s.getMediumByClass balanced requestKind mediumNumber).2.createdMediums.lookup medium.ip =
        some medium := by
  intro medium hmedium
  refine lookup_getNetworkConnections (s.addresses balanced requestKind) medium ?_
  unfold getMediumByClass at hmedium
  dsimp only at hmedium
  split at hmedium
  · exact List.mem_of_mem_take hmedium
  · exact hmedium

/-- The choice that is looked for can only be the first trackers of the class. -/
theorem exists_picks_iff {requestKind : ClientMediums} {better : CTrackerStats → CTrackerStats → Prop}
    (htrackers : s.trackers = insertAll (fun stats => stats.ip) added)
    (hclass : s.addresses balanced requestKind = (s.ranked value).map fun stats => stats.ip) :
    (∃ chosen, Picks better added mediumNumber s
        (s.getMediumByClass balanced requestKind mediumNumber) chosen) ↔
      ((s.ranked value).take (limit mediumNumber added.length)).length =
          limit mediumNumber added.length ∧
        ∀ stats ∈ added, stats ∉ (s.ranked value).take (limit mediumNumber added.length) →
          ∀ other ∈ (s.ranked value).take (limit mediumNumber added.length), ¬ better stats other := by
  have hranks : Ranks value (firstAdded added) (s.ranked value) := by
    rw [ranked, htrackers]
    exact ranks_firsts value (fun stats : CTrackerStats => stats.ip) added
  have hknown : ∀ stats ∈ s.ranked value,
      stats ∈ elements (insertAll (fun stats : CTrackerStats => stats.ip) added) :=
    fun stats hstats => mem_firsts.mp (hranks.subset stats hstats)
  have hnodup : (s.ranked value).Nodup := hranks.nodup_map.of_map _
  have hlength : (s.ranked value).length ≤ added.length :=
    (hnodup.subperm fun stats hstats => mem_of_mem_elements (hknown stats hstats)).length_le
  have hips := map_ip_getMediumByClass mediumNumber hclass hlength
  have htake : ∀ stats ∈ (s.ranked value).take (limit mediumNumber added.length),
      stats ∈ elements (insertAll (fun stats : CTrackerStats => stats.ip) added) :=
    fun stats hstats => hknown stats (List.mem_of_mem_take hstats)
  constructor
  · rintro ⟨chosen, hchosen⟩
    have hknownChosen := hchosen.known
    rw [htrackers] at hknownChosen
    have hsame := eq_of_map_field_eq hknownChosen htake (hchosen.connected.symm.trans hips)
    rw [← hsame]
    exact ⟨hchosen.count, hchosen.best⟩
  · rintro ⟨hcount, hbest⟩
    refine ⟨_, ?_, hips, kept_getMediumByClass, hnodup.sublist (List.take_sublist _ _), hcount, hbest⟩
    rw [htrackers]
    exact htake

end Ranking

/-- Of all trackers that have been added to a ranking without trackers the best ones get the
connections of the price class, and of the reputation class, exactly under the conditions. -/
theorem getMediumByClass_iff (s : CTrackerLocalRanking)
    (balanced : List CTrackerStats → List CTrackerStats) (added : List CTrackerStats)
    (mediumNumber : UInt32) (hkeys : (added.map fun stats => stats.key).Nodup) :
    ((∃ chosen, Picks (fun stats other => stats.price < other.price) added mediumNumber
        (added.foldl addTracker s.resetTrackers)
        ((added.foldl addTracker s.resetTrackers).getMediumByClass balanced .trackersPrice mediumNumber)
        chosen) ↔
      PricesApart added (limit mediumNumber added.length)) ∧
    ((∃ chosen, Picks (fun stats other => other.reputation < stats.reputation) added mediumNumber
        (added.foldl addTracker s.resetTrackers)
        ((added.foldl addTracker s.resetTrackers).getMediumByClass balanced .trackersRep mediumNumber)
        chosen) ↔
      ReputationsApart added (limit mediumNumber added.length)) := by
  have htrackers := trackers_foldl_addTracker s added
  have hadded := hkeys.of_map _
  have hkept : ∀ stats ∈ firstAdded added, stats ∈ added := fun stats hstats =>
    List.mem_of_mem_filter hstats
  have hranks : ∀ value : CTrackerStats → UInt32,
      Ranks value (firstAdded added) (ranked value (added.foldl addTracker s.resetTrackers)) := by
    intro value
    rw [ranked, htrackers]
    exact ranks_firsts value (fun stats : CTrackerStats => stats.ip) added
  constructor
  · rw [exists_picks_iff htrackers rfl]
    exact take_least_iff (hranks CTrackerStats.price) hkept hadded _
  · rw [exists_picks_iff htrackers rfl]
    exact take_greatest_iff (hranks CTrackerStats.reputation) hkept hadded _

end CTrackerLocalRanking

namespace TwoTrackers
open CTrackerLocalRanking

def ranking : CTrackerLocalRanking := ⟨.empty, .empty, 0, .empty, .empty, .empty, .empty, nofun⟩

def tracker (number : UInt8) (reputation price : UInt32) : CTrackerStats :=
  ⟨⟨[number], 20020, CPubKey.ofBytes (2 :: List.replicate 32 number), 0⟩, reputation, price⟩

def connections (requestKind : ClientMediums) (first second : CTrackerStats) (mediumNumber : UInt32) :
    List CMedium × CTrackerLocalRanking :=
  ([first, second].foldl addTracker ranking.resetTrackers).getMediumByClass id requestKind mediumNumber

/-- Of two trackers with one reputation the cheaper one is asked. -/
theorem picks_cheaper :
    (∃ chosen, Picks (fun stats other => stats.price < other.price) [tracker 1 0 7, tracker 2 0 5] 1
        ([tracker 1 0 7, tracker 2 0 5].foldl addTracker ranking.resetTrackers)
        (connections .trackersPrice (tracker 1 0 7) (tracker 2 0 5) 1) chosen) ∧
    ∃ chosen, Picks (fun stats other => other.reputation < stats.reputation)
        [tracker 1 0 7, tracker 2 0 5] 1
        ([tracker 1 0 7, tracker 2 0 5].foldl addTracker ranking.resetTrackers)
        (connections .trackersRep (tracker 1 0 7) (tracker 2 0 5) 1) chosen := by
  have h := getMediumByClass_iff ranking id [tracker 1 0 7, tracker 2 0 5] 1 (by decide)
  refine ⟨h.1.mpr (.inr ⟨tracker 2 0 5, by decide, ?_⟩), h.2.mpr (.inr ⟨tracker 2 0 5, by decide, ?_, ?_⟩)⟩
  · exact ⟨by decide, by decide, by decide⟩
  · decide
  · exact ⟨by decide, by decide, by decide⟩

/-- Of two trackers with one price one is asked, and of two with different reputations the one
with the lower one. -/
theorem not_picks_equal_price_and_best_reputation :
    (¬∃ chosen, Picks (fun stats other => stats.price < other.price) [tracker 1 0 7, tracker 2 0 7] 2
        ([tracker 1 0 7, tracker 2 0 7].foldl addTracker ranking.resetTrackers)
        (connections .trackersPrice (tracker 1 0 7) (tracker 2 0 7) 2) chosen) ∧
    ¬∃ chosen, Picks (fun stats other => other.reputation < stats.reputation)
        [tracker 1 3 7, tracker 2 4 7] 1
        ([tracker 1 3 7, tracker 2 4 7].foldl addTracker ranking.resetTrackers)
        (connections .trackersRep (tracker 1 3 7) (tracker 2 4 7) 1) chosen := by
  constructor
  · rintro ⟨chosen, h⟩
    have hlength := congrArg List.length h.connected
    rw [List.length_map, List.length_map, h.count] at hlength
    revert hlength
    decide
  · rintro ⟨chosen, h⟩
    have hips : (chosen.map fun stats => stats.ip) = [[1]] := h.connected.symm
    match chosen, hips, h with
    | [stats], hip, h =>
      have hknown := h.known stats (List.mem_singleton_self _)
      have hworse : stats = tracker 1 3 7 := by
        have hone : ∀ other ∈ elements ([tracker 1 3 7, tracker 2 4 7].foldl addTracker
            ranking.resetTrackers).trackers, [other.ip] = [[1]] → other = tracker 1 3 7 := by decide
        exact hone stats hknown hip
      refine h.best (tracker 2 4 7) (by decide) ?_ stats (List.mem_singleton_self _) ?_
      · rw [hworse]
        decide
      · rw [hworse]
        decide

end TwoTrackers

end Dims.LocalRanking
