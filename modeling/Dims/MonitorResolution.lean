import Dims.PaymentProof

/-!
# The tracker that a monitor resolves a payment to

`CResolveByMonitor` of client/payLocalApplicationAction.cpp is there to find the cheapest of the
trackers that a monitor lists. The price of the best one is never written down and the outcome of
`Verify` is dropped: what is found is the last listed tracker that is known.
-/

namespace Dims
open ByteCodec

theorem foldl_getD_eq_getLastD {α β : Type*} (find : α → Option β) (init : β) (l : List α) :
    l.foldl (fun best a => (find a).getD best) init = (l.filterMap find).getLastD init := by
  induction l generalizing init with
  | nil => rfl
  | cons a l ih =>
    rw [List.foldl_cons, ih]
    cases hfind : find a with
    | none => rw [List.filterMap_cons_none hfind, Option.getD_none]
    | some b => rw [List.filterMap_cons_some hfind, List.getLastD_cons, Option.getD_some]

namespace PaymentContext

variable (H : HashFunctions)

/-- A tracker that is known and that the monitor lists. -/
def KnownListed (context : PaymentContext) (trackers : List CTrackerData) (stats : CTrackerStats) :
    Prop :=
  stats ∈ context.trackers ∧ ∃ tracker ∈ trackers, tracker.publicKey.getID H = stats.key.getID H

structure IsCheapest (context : PaymentContext) (trackers : List CTrackerData)
    (stats : CTrackerStats) : Prop where
  knownListed : context.KnownListed H trackers stats
  least : ∀ other, context.KnownListed H trackers other → ¬ other.price < stats.price

/-- The signature is the one of the monitor with the address. -/
def Authentic (S : SignatureScheme) (context : PaymentContext) (ip : Bytes)
    (monitorData : CMonitorData) : Prop :=
  verifyMonitorData H S ((context.ipToKey ip).getD .invalid) monitorData = some true

/-- The entries for the listed trackers that are below the price that the search starts with. -/
def priced (context : PaymentContext) (trackers : List CTrackerData) : List CTrackerStats :=
  trackers.filterMap fun tracker =>
    (context.getTrackerStats H (tracker.publicKey.getID H)).filter (·.price < 0xffffffff)

/-- The last one that is below the starting price is the cheapest. Where none is, the one that has
the id of the invalid key. -/
def TakesCheapest (context : PaymentContext) (trackers : List CTrackerData) : Prop :=
  (∃ before stats, context.priced H trackers = before ++ [stats] ∧
    context.IsCheapest H trackers stats) ∨
  (context.priced H trackers = [] ∧ ∃ stats,
    context.getTrackerStats H (CPubKey.invalid.getID H) = some stats ∧
      context.IsCheapest H trackers stats)

/-- Nothing is below the starting price, and nothing has the id of the invalid key. -/
def FindsNone (context : PaymentContext) (trackers : List CTrackerData) : Prop :=
  context.priced H trackers = [] ∧ context.getTrackerStats H (CPubKey.invalid.getID H) = none

variable {H} {context : PaymentContext} {trackers : List CTrackerData} {stats : CTrackerStats}

theorem mem_priced (h : stats ∈ context.priced H trackers) :
    context.getTrackerStats H (stats.key.getID H) = some stats := by
  obtain ⟨tracker, -, hfind⟩ := List.mem_filterMap.mp h
  obtain ⟨hstats, -⟩ := Option.filter_eq_some_iff.mp hfind
  rw [(getTrackerStats_eq_some hstats).2]
  exact hstats

theorem takesCheapest_of_nil (h : context.priced H trackers = []) :
    context.TakesCheapest H trackers ↔ ∃ stats,
      context.getTrackerStats H (CPubKey.invalid.getID H) = some stats ∧
        context.IsCheapest H trackers stats := by
  simp [TakesCheapest, h]

theorem takesCheapest_of_concat {before : List CTrackerStats}
    (h : context.priced H trackers = before ++ [stats]) :
    context.TakesCheapest H trackers ↔ context.IsCheapest H trackers stats := by
  rw [TakesCheapest, h]
  constructor
  · rintro (⟨before', stats', heq, hcheapest⟩ | ⟨hnil, -⟩)
    · obtain ⟨-, hlast⟩ := List.append_inj' heq rfl
      cases hlast
      exact hcheapest
    · exact absurd hnil (List.append_ne_nil_of_right_ne_nil _ (List.cons_ne_nil _ _))
  · exact fun hcheapest => .inl ⟨before, stats, rfl, hcheapest⟩

end PaymentContext

namespace CPayLocalApplicationAction
open PaymentContext

variable (H : HashFunctions) (S : SignatureScheme)

/-- What is asked of the outcome. Whether an assertion may fail where a listed tracker is known is
left open. -/
structure Resolves (mayAbort : Bool) (a : CPayLocalApplicationAction) (context : PaymentContext)
    (ip : Bytes) (monitorData : CMonitorData) (outcome : Option CPayLocalApplicationAction) :
    Prop where
  completes : mayAbort = false → outcome.isSome = true
  serviced : ∀ a', outcome = some a' → a'.state = .serviceByTracker →
    context.Authentic H S ip monitorData ∧
      context.IsCheapest H monitorData.trackers a'.trackerStats
  reported : (∀ stats, ¬ context.KnownListed H monitorData.trackers stats) →
    ∃ a', outcome = some a' ∧ a'.errors ≠ a.errors

section Search

variable {H} {context : PaymentContext} {trackers : List CTrackerData}

theorem best_eq : best H context trackers = (context.priced H trackers).getLastD ⟨.invalid, 0⟩ := by
  rw [PaymentContext.priced, ← foldl_getD_eq_getLastD, best]
  congr 1
  funext best tracker
  cases context.getTrackerStats H (tracker.publicKey.getID H) with
  | none => rfl
  | some stats =>
    by_cases hprice : stats.price < 0xffffffff
    · simp [Option.filter_some, hprice]
    · simp [Option.filter_some, hprice]

theorem getTrackerStats_best_of_concat {before : List CTrackerStats} {stats : CTrackerStats}
    (h : context.priced H trackers = before ++ [stats]) :
    context.getTrackerStats H ((best H context trackers).key.getID H) = some stats := by
  have hmem : stats ∈ context.priced H trackers := by
    rw [h]
    exact List.mem_concat_self
  rw [best_eq, h, List.getLastD_concat]
  exact mem_priced hmem

theorem getTrackerStats_best_of_nil (h : context.priced H trackers = []) :
    context.getTrackerStats H ((best H context trackers).key.getID H) =
      context.getTrackerStats H (CPubKey.invalid.getID H) := by
  rw [best_eq, h, List.getLastD_nil]

end Search

section Outcome

variable {H S} {mayAbort : Bool} {a : CPayLocalApplicationAction} {context : PaymentContext}
  {ip : Bytes} {monitor : CPubKey} {monitorData : CMonitorData}

theorem exists_enterServiceByTracker {keyId : CKeyID} {stats : CTrackerStats}
    (hstats : context.getTrackerStats H keyId = some stats) :
    ∃ a', a.enterServiceByTracker H context keyId = some a' ∧ a'.state = .serviceByTracker ∧
      a'.trackerStats = stats := by
  rw [enterServiceByTracker, hstats, Option.map_some]
  refine ⟨_, rfl, ?_, ?_⟩
  · dsimp only
    split <;> rfl
  · dsimp only
    split <;> rfl

theorem enterServiceByTracker_eq_none {keyId : CKeyID}
    (hstats : context.getTrackerStats H keyId = none) :
    a.enterServiceByTracker H context keyId = none := by
  rw [enterServiceByTracker, hstats, Option.map_none]

theorem resolves_iff_of_some {stats : CTrackerStats}
    (hstats : context.getTrackerStats H ((best H context monitorData.trackers).key.getID H) =
      some stats) :
    Resolves H S mayAbort a context ip monitorData
        (a.reactMonitorData H context ip monitor monitorData) ↔
      context.Authentic H S ip monitorData ∧ context.IsCheapest H monitorData.trackers stats := by
  obtain ⟨a', henter, hstate, rfl⟩ := exists_enterServiceByTracker hstats
  rw [reactMonitorData, henter]
  constructor
  · intro hresolves
    exact hresolves.serviced a' rfl hstate
  · rintro ⟨hauthentic, hcheapest⟩
    refine ⟨fun _ => rfl, ?_, fun hnone => ?_⟩
    · rintro _ ⟨⟩ _
      exact ⟨hauthentic, hcheapest⟩
    · exact absurd hcheapest.knownListed (hnone _)

theorem resolves_iff_of_none
    (hstats : context.getTrackerStats H ((best H context monitorData.trackers).key.getID H) =
      none) :
    Resolves H S mayAbort a context ip monitorData
        (a.reactMonitorData H context ip monitor monitorData) ↔
      mayAbort = true ∧ ∃ stats, context.KnownListed H monitorData.trackers stats := by
  rw [reactMonitorData, enterServiceByTracker_eq_none hstats]
  constructor
  · intro hresolves
    refine ⟨?_, ?_⟩
    · by_contra hmay
      have hsome := hresolves.completes (Bool.eq_false_iff.mpr hmay)
      cases hsome
    · by_contra hnone
      obtain ⟨_, hsome, -⟩ := hresolves.reported (not_exists.mp hnone)
      cases hsome
  · rintro ⟨hmay, stats, hlisted⟩
    refine ⟨fun hnot => ?_, fun _ hsome => ?_, fun hnone => absurd hlisted (hnone _)⟩
    · rw [hmay] at hnot
      cases hnot
    · cases hsome

end Outcome

/-- The payment is resolved to the cheapest authentic tracker if and only if the signature verifies
and the tracker that is found last is the cheapest. -/
theorem resolves_reactMonitorData_iff (mayAbort : Bool) (a : CPayLocalApplicationAction)
    (context : PaymentContext) (ip : Bytes) (monitor : CPubKey) (monitorData : CMonitorData) :
    Resolves H S mayAbort a context ip monitorData
        (a.reactMonitorData H context ip monitor monitorData) ↔
      (context.Authentic H S ip monitorData ∧ context.TakesCheapest H monitorData.trackers) ∨
      (mayAbort = true ∧ context.FindsNone H monitorData.trackers ∧
        ∃ stats, context.KnownListed H monitorData.trackers stats) := by
  rcases List.eq_nil_or_concat (context.priced H monitorData.trackers) with
    hnil | ⟨before, stats, hconcat⟩
  · rw [takesCheapest_of_nil hnil]
    have hbest := getTrackerStats_best_of_nil hnil
    cases hinvalid : context.getTrackerStats H (CPubKey.invalid.getID H) with
    | some stats =>
      rw [resolves_iff_of_some (hbest.trans hinvalid)]
      simp [FindsNone, hinvalid]
    | none =>
      rw [resolves_iff_of_none (hbest.trans hinvalid)]
      simp [FindsNone, hnil, hinvalid]
  · rw [List.concat_eq_append] at hconcat
    rw [resolves_iff_of_some (getTrackerStats_best_of_concat hconcat),
      takesCheapest_of_concat hconcat]
    simp [FindsNone, hconcat]

namespace TwoTrackers

def hashes : HashFunctions := ⟨fun _ => 0, fun bytes => BitVec.ofNat 160 (bytes.map UInt8.toNat).sum⟩

/-- A key signs with its bytes. -/
def scheme : SignatureScheme := ⟨fun key _ vchSig => vchSig = key.bytes⟩

def key (n : UInt8) : CPubKey := CPubKey.ofBytes (2 :: List.replicate 32 n)

def listing (n : UInt8) : CTrackerData := ⟨⟨key n, ⟨0, 1, 0, 0⟩⟩, 0, 0, 0⟩

/-- The key 3 is the one of the monitor. -/
def context (trackers : List CTrackerStats) : PaymentContext where
  isClientReady := true
  trackers := trackers
  monitors := [(key 3).getID hashes]
  ipToKey := fun _ => some (key 3)
  createTransaction := fun _ _ _ _ => some ⟨1, [], [], 0, 0⟩

def monitorData (signer : UInt8) : CMonitorData := ⟨[listing 1, listing 2], [], (key signer).bytes⟩

def action : CPayLocalApplicationAction :=
  { init 0 1 10 [] [(key 3).getID hashes] with state := .resolveByMonitor }

def outcome (trackers : List CTrackerStats) (signer : UInt8) : Option CPayLocalApplicationAction :=
  action.reactMonitorData hashes (context trackers) [] (key 3) (monitorData signer)

/-- The dearer tracker is taken as it is listed last, a list that another key has signed is taken,
and an assertion fails where no tracker is known. -/
theorem dearer_is_taken :
    ¬ Resolves hashes scheme true action (context [⟨key 1, 5⟩, ⟨key 2, 7⟩]) [] (monitorData 3)
      (outcome [⟨key 1, 5⟩, ⟨key 2, 7⟩] 3) ∧
    ¬ Resolves hashes scheme true action (context [⟨key 1, 5⟩]) [] (monitorData 4)
      (outcome [⟨key 1, 5⟩] 4) ∧
    ¬ Resolves hashes scheme true action (context []) [] (monitorData 3) (outcome [] 3) := by
  refine ⟨fun hresolves => ?_, fun hresolves => ?_, fun hresolves => ?_⟩
  · have htaken : (outcome [⟨key 1, 5⟩, ⟨key 2, 7⟩] 3).map
        (fun a => (a.state, a.trackerStats.price)) = some (.serviceByTracker, 7) := by
      decide +kernel
    obtain ⟨a', houtcome, hserviced⟩ := Option.map_eq_some_iff.mp htaken
    obtain ⟨hstate, hprice⟩ := Prod.mk.inj hserviced
    have hcheaper : (context [⟨key 1, 5⟩, ⟨key 2, 7⟩]).KnownListed hashes [listing 1, listing 2]
        ⟨key 1, 5⟩ :=
      ⟨List.mem_cons_self, listing 1, List.mem_cons_self, rfl⟩
    have hleast := (hresolves.serviced a' houtcome hstate).2.least _ hcheaper
    rw [hprice] at hleast
    exact hleast (by decide)
  · have htaken : (outcome [⟨key 1, 5⟩] 4).map (·.state) = some .serviceByTracker := by
      decide +kernel
    obtain ⟨a', houtcome, hstate⟩ := Option.map_eq_some_iff.mp htaken
    have hforged : verifyMonitorData hashes scheme (key 3) (monitorData 4) = some false := by
      decide +kernel
    have hverified := (hresolves.serviced a' houtcome hstate).1
    cases hforged.symm.trans hverified
  · obtain ⟨_, houtcome, -⟩ := hresolves.reported fun _ hlisted => by cases hlisted.1
    cases houtcome

end TwoTrackers

end CPayLocalApplicationAction

end Dims
