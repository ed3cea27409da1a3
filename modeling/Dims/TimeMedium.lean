import Mathlib.Algebra.Order.Floor.Ring
import Mathlib.Data.Rat.Floor
import Dims.OrderedMap
import Dims.OrderedMultimap
import Dims.GuardedRun

/-!
# The medium of the time events

A request waits in a map with the time that is left to it. The loop of the medium sleeps,
goes through the map, and moves what is due to the responses, which another caller takes.
What becomes of a request is told by a timer of its own that sees no other request.
-/

namespace Dims

-- A request is known by the address it is kept at.
variable {Request : Type} [LinearOrder Request]

structure CTimeEvent where
  deriving DecidableEq, Repr

/-- The times are `int64_t`; `timeLeft_inRange` says which differences are taken. -/
structure CTimeMedium (Request : Type) [LinearOrder Request] where
  responses : OrderedMultimap Request CTimeEvent
  timeLeftToTrigger : OrderedMap Request Int

namespace CTimeMedium

/-- `m_sleepTime`, in milliseconds -/
def sleepTime : Int := 100

def empty : CTimeMedium Request := ⟨.empty, .empty⟩

/-- A request that waits keeps the time that is left to it. -/
def add (medium : CTimeMedium Request) (request : Request) (eventTime : Int) :
    CTimeMedium Request :=
  { medium with timeLeftToTrigger := medium.timeLeftToTrigger.insertNew request eventTime }

def deleteRequest (medium : CTimeMedium Request) (request : Request) : CTimeMedium Request where
  timeLeftToTrigger := medium.timeLeftToTrigger.erase request
  responses := medium.responses.erase request

def clearResponses (medium : CTimeMedium Request) : CTimeMedium Request :=
  { medium with responses := .empty }

/-- The responses that are handed over, and the medium they are gone from. -/
def getResponseAndClear (medium : CTimeMedium Request) :
    OrderedMultimap Request CTimeEvent × CTimeMedium Request :=
  (medium.responses, medium.clearResponses)

def due (left : Int) : Bool := left - sleepTime ≤ 0

def toTrigger (medium : CTimeMedium Request) : List Request :=
  (medium.timeLeftToTrigger.entries.filter fun p => due p.2).map Prod.fst

/-- What the scan of the map leaves in it. The entries that are due are erased afterwards. -/
def decremented (medium : CTimeMedium Request) : CTimeMedium Request :=
  { medium with
    timeLeftToTrigger := medium.timeLeftToTrigger.mapValues fun left =>
      if due left then left else left - sleepTime }

def trigger (medium : CTimeMedium Request) (timeEventReq : Request) : CTimeMedium Request where
  timeLeftToTrigger := medium.timeLeftToTrigger.erase timeEventReq
  responses := medium.responses.insert timeEventReq ⟨⟩

/-- One round of `workLoop`, once the medium has slept. -/
def tick (medium : CTimeMedium Request) : CTimeMedium Request :=
  medium.toTrigger.foldl trigger medium.decremented

def Waiting (medium : CTimeMedium Request) (request : Request) : Prop :=
  (medium.timeLeftToTrigger.lookup request).isSome

instance (medium : CTimeMedium Request) (request : Request) :
    Decidable (medium.Waiting request) :=
  inferInstanceAs (Decidable (_ = true))

/-- The mutex of the medium puts the calls and the rounds of the loop in some order. -/
inductive Step (Request : Type)
  | add (request : Request) (eventTime : Int)
  | deleteRequest (request : Request)
  | getResponseAndClear
  | tick

def step (medium : CTimeMedium Request) : Step Request → CTimeMedium Request
  | .add request eventTime => medium.add request eventTime
  | .deleteRequest request => medium.deleteRequest request
  | .getResponseAndClear => medium.getResponseAndClear.2
  | .tick => medium.tick

def run : CTimeMedium Request → List (Step Request) → CTimeMedium Request := GuardedRun.run step

/-- The ticks of a run, by their numbers, that produce an event for the request; one number for
each event. `n` ticks went before. -/
def eventTicks (request : Request) : ℕ → CTimeMedium Request → List (Step Request) → List ℕ
  | _, _, [] => []
  | n, medium, .tick :: steps =>
    (medium.toTrigger.filter (· = request)).map (fun _ => n + 1) ++
      eventTicks request (n + 1) medium.tick steps
  | n, medium, s :: steps => eventTicks request n (medium.step s) steps

/-- The events of the request that the calls of a run hand over. -/
def handedOver (request : Request) : CTimeMedium Request → List (Step Request) → List CTimeEvent
  | _, [] => []
  | medium, .getResponseAndClear :: steps =>
    medium.getResponseAndClear.1.equalRange request ++
      handedOver request medium.getResponseAndClear.2 steps
  | medium, s :: steps => handedOver request (medium.step s) steps

def ticks : List (Step Request) → ℕ
  | [] => 0
  | .tick :: steps => ticks steps + 1
  | _ :: steps => ticks steps

def Step.Adds (request : Request) : Step Request → Prop
  | .add r _ => r = request
  | _ => False

def Step.Deletes (request : Request) : Step Request → Prop
  | .deleteRequest r => r = request
  | _ => False

/-- What the medium knows of one request. -/
structure Timer where
  left : Option Int
  events : List CTimeEvent
  deriving DecidableEq, Repr

def timer (medium : CTimeMedium Request) (request : Request) : Timer where
  left := medium.timeLeftToTrigger.lookup request
  events := medium.responses.equalRange request

namespace Timer

def isDue (t : Timer) : Bool := t.left.any due

def tick (t : Timer) : Timer where
  left := if t.isDue then none else t.left.map (· - sleepTime)
  events := t.events ++ if t.isDue then [⟨⟩] else []

/-- A timer sees the steps that name its request, those that take all the responses and the
ticks. -/
def step (request : Request) (t : Timer) : Step Request → Timer
  | .add r eventTime => if r = request then { t with left := some (t.left.getD eventTime) } else t
  | .deleteRequest r => if r = request then ⟨none, []⟩ else t
  | .getResponseAndClear => { t with events := [] }
  | .tick => t.tick

variable {request : Request} {t : Timer} {s : Step Request}

theorem left_step_of_none (hnone : t.left = none) (hadd : ¬ s.Adds request) :
    (t.step request s).left = none := by
  cases s with
  | add r eventTime =>
    rw [step, if_neg (show ¬ r = request from hadd)]
    exact hnone
  | deleteRequest r =>
    rw [step]
    split
    · rfl
    · exact hnone
  | getResponseAndClear => exact hnone
  | tick => simp [step, tick, hnone]

theorem left_step_of_some {left : Int} (hleft : t.left = some left) (hdelete : ¬ s.Deletes request)
    (htick : s ≠ .tick) : (t.step request s).left = some left := by
  cases s with
  | add r eventTime =>
    rw [step]
    split
    · simp [hleft]
    · exact hleft
  | deleteRequest r =>
    rw [step, if_neg (show ¬ r = request from hdelete)]
    exact hleft
  | getResponseAndClear => exact hleft
  | tick => exact absurd rfl htick

end Timer

section

variable (medium : CTimeMedium Request) (request : Request)

/-- A scan of the map gathers a request once, if it is due. -/
theorem filter_toTrigger :
    medium.toTrigger.filter (· = request) = if (medium.timer request).isDue then [request] else [] := by
  have hswap : medium.toTrigger.filter (· = request) =
      ((medium.timeLeftToTrigger.entries.filter fun p => p.1 = request).filter
        fun p => due p.2).map Prod.fst := by
    rw [toTrigger, List.filter_map, List.filter_filter, List.filter_filter]
    exact congrArg _ (List.filter_congr fun p _ => Bool.and_comm _ _)
  have hdue : (medium.timer request).isDue = (medium.timeLeftToTrigger.lookup request).any due := rfl
  rw [hswap, OrderedMap.filter_entries, hdue]
  cases medium.timeLeftToTrigger.lookup request with
  | none => rfl
  | some left => cases hdue : due left <;> simp [hdue]

theorem mem_toTrigger : request ∈ medium.toTrigger ↔ (medium.timer request).isDue := by
  have hmem : request ∈ medium.toTrigger ↔ request ∈ medium.toTrigger.filter (· = request) := by
    simp
  rw [hmem, filter_toTrigger]
  cases (medium.timer request).isDue <;> simp

theorem timer_foldl_trigger (triggered : List Request) :
    (triggered.foldl trigger medium).timer request =
      ⟨if request ∈ triggered then none else (medium.timer request).left,
        (medium.timer request).events ++ (triggered.filter (· = request)).map fun _ => ⟨⟩⟩ := by
  induction triggered generalizing medium with
  | nil => simp [timer]
  | cons first triggered ih =>
    rw [List.foldl_cons, ih, List.filter_cons]
    by_cases hfirst : first = request
    · subst hfirst
      simp [timer, trigger, OrderedMultimap.equalRange_insert]
    · simp [timer, trigger, OrderedMultimap.equalRange_insert, hfirst,
        OrderedMap.lookup_erase_of_ne (Ne.symm hfirst), Ne.symm hfirst]

theorem timer_tick : medium.tick.timer request = (medium.timer request).tick := by
  rw [tick, timer_foldl_trigger, filter_toTrigger]
  simp only [mem_toTrigger, Timer.tick]
  cases hdue : (medium.timer request).isDue with
  | true => simp [timer, decremented]
  | false =>
    simp only [Timer.isDue, timer] at hdue
    simp only [timer, decremented, OrderedMap.lookup_mapValues]
    cases hleft : medium.timeLeftToTrigger.lookup request with
    | none => simp
    | some left =>
      rw [hleft, Option.any_some] at hdue
      simp [hdue]

/-- What a step does to a request depends on no other request. -/
theorem timer_step (s : Step Request) :
    (medium.step s).timer request = (medium.timer request).step request s := by
  cases s with
  | add r eventTime =>
    by_cases hr : r = request
    · subst hr
      simp [step, Timer.step, timer, add, OrderedMap.lookup_insertNew_self]
    · simp [step, Timer.step, timer, add, hr, OrderedMap.lookup_insertNew_of_ne (Ne.symm hr)]
  | deleteRequest r =>
    by_cases hr : r = request
    · subst hr
      simp [step, Timer.step, timer, deleteRequest, OrderedMultimap.equalRange_erase]
    · simp [step, Timer.step, timer, deleteRequest, hr, OrderedMultimap.equalRange_erase,
        OrderedMap.lookup_erase_of_ne (Ne.symm hr)]
  | getResponseAndClear => rfl
  | tick => exact timer_tick medium request

end

/-- The tick that an event time is rounded up to. -/
def eventTick (eventTime : Int) : ℕ := (max 1 ⌈(eventTime : ℚ) / sleepTime⌉).toNat

theorem eventTick_of_due {left : Int} (h : due left) : eventTick left = 1 := by
  have hle : left ≤ sleepTime := by simpa [due] using h
  have hceil : ⌈(left : ℚ) / sleepTime⌉ ≤ 1 := by
    rw [Int.ceil_le, Int.cast_one, div_le_one (by norm_num [sleepTime])]
    exact_mod_cast hle
  rw [eventTick, max_eq_left hceil]
  rfl

theorem eventTick_of_not_due {left : Int} (h : due left = false) :
    eventTick left = eventTick (left - sleepTime) + 1 := by
  have hlt : sleepTime < left := by simpa [due] using h
  have hpos : (0 : ℚ) < sleepTime := by norm_num [sleepTime]
  have hone : 1 ≤ ⌈((left - sleepTime : ℤ) : ℚ) / sleepTime⌉ := by
    rw [Int.one_le_ceil_iff]
    exact div_pos (by exact_mod_cast sub_pos.mpr hlt) hpos
  have hsub : ⌈((left - sleepTime : ℤ) : ℚ) / sleepTime⌉ = ⌈(left : ℚ) / sleepTime⌉ - 1 := by
    rw [Int.cast_sub, sub_div, div_self hpos.ne', Int.ceil_sub_one]
  rw [eventTick, eventTick, max_eq_right hone, hsub]
  omega

section

variable {request : Request} {medium : CTimeMedium Request} {steps : List (Step Request)} {n : ℕ}

theorem eventTicks_tick_cons :
    eventTicks request n medium (.tick :: steps) =
      (if (medium.timer request).isDue then [n + 1] else []) ++
        eventTicks request (n + 1) medium.tick steps := by
  rw [eventTicks, filter_toTrigger]
  cases (medium.timer request).isDue <;> rfl

theorem eventTicks_cons_of_ne_tick {s : Step Request} (h : s ≠ .tick) :
    eventTicks request n medium (s :: steps) = eventTicks request n (medium.step s) steps := by
  cases s with
  | tick => exact absurd rfl h
  | _ => rfl

omit [LinearOrder Request] in
theorem ticks_cons_of_ne_tick {s : Step Request} (h : s ≠ .tick) : ticks (s :: steps) = ticks steps := by
  cases s with
  | tick => exact absurd rfl h
  | _ => rfl

theorem lt_of_mem_eventTicks {k : ℕ} (h : k ∈ eventTicks request n medium steps) : n < k := by
  induction steps generalizing n medium with
  | nil => cases h
  | cons s steps ih =>
    by_cases hs : s = .tick
    · rw [hs, eventTicks_tick_cons] at h
      rcases List.mem_append.mp h with hnow | hlater
      · have hk : k = n + 1 := by
          split at hnow
          · exact List.mem_singleton.mp hnow
          · cases hnow
        omega
      · exact Nat.lt_of_succ_lt (ih hlater)
    · rw [eventTicks_cons_of_ne_tick hs] at h
      exact ih h

theorem eventTicks_eq_nil (hnone : (medium.timer request).left = none)
    (hadd : ∀ s ∈ steps, ¬ s.Adds request) : eventTicks request n medium steps = [] := by
  induction steps generalizing n medium with
  | nil => rfl
  | cons s steps ih =>
    obtain ⟨hfirst, hrest⟩ := List.forall_mem_cons.mp hadd
    have hnext : ((medium.step s).timer request).left = none := by
      rw [timer_step]
      exact Timer.left_step_of_none hnone hfirst
    by_cases hs : s = .tick
    · subst hs
      have hisDue : (medium.timer request).isDue = false := by rw [Timer.isDue, hnone, Option.any_none]
      rw [eventTicks_tick_cons, hisDue]
      exact ih hnext hrest
    · rw [eventTicks_cons_of_ne_tick hs]
      exact ih hnext hrest

/-- What is handed over and what is still kept are the answers that were there and the events. -/
theorem length_handedOver (hdelete : ∀ s ∈ steps, ¬ s.Deletes request) :
    (handedOver request medium steps).length + ((medium.run steps).timer request).events.length =
      (medium.timer request).events.length + (eventTicks request n medium steps).length := by
  induction steps generalizing n medium with
  | nil => simp [handedOver, eventTicks, run]
  | cons s steps ih =>
    obtain ⟨hfirst, hrest⟩ := List.forall_mem_cons.mp hdelete
    have hrun : medium.run (s :: steps) = (medium.step s).run steps := rfl
    have hkept := timer_step medium request s
    rw [hrun]
    cases s with
    | add r eventTime =>
      have hsame : ((medium.step (.add r eventTime)).timer request).events =
          (medium.timer request).events := by
        rw [hkept, Timer.step]
        split <;> rfl
      rw [← hsame]
      exact ih hrest
    | deleteRequest r =>
      have hsame : ((medium.step (.deleteRequest r)).timer request).events =
          (medium.timer request).events := by
        rw [hkept, Timer.step, if_neg (show ¬ r = request from hfirst)]
      rw [← hsame]
      exact ih hrest
    | getResponseAndClear =>
      have hcleared : ((medium.step .getResponseAndClear).timer request).events = [] := by
        rw [hkept, Timer.step]
      have hlaw : (handedOver request (medium.step .getResponseAndClear) steps).length +
          (((medium.step .getResponseAndClear).run steps).timer request).events.length =
          ((medium.step .getResponseAndClear).timer request).events.length +
            (eventTicks request n (medium.step .getResponseAndClear) steps).length := ih hrest
      rw [hcleared, List.length_nil, Nat.zero_add] at hlaw
      rw [handedOver, List.length_append, Nat.add_assoc]
      exact congrArg _ hlaw
    | tick =>
      have hmore : ((medium.step .tick).timer request).events.length =
          (medium.timer request).events.length + if (medium.timer request).isDue then 1 else 0 := by
        rw [hkept, Timer.step, Timer.tick, List.length_append]
        split <;> rfl
      have hlaw : (handedOver request (medium.step .tick) steps).length +
          (((medium.step .tick).run steps).timer request).events.length =
          ((medium.step .tick).timer request).events.length +
            (eventTicks request (n + 1) (medium.step .tick) steps).length := ih hrest
      rw [hmore] at hlaw
      rw [eventTicks_tick_cons, List.length_append]
      refine hlaw.trans ?_
      rw [Nat.add_assoc]
      split <;> rfl

theorem handedOver_eq_nil (hidle : medium.timer request = ⟨none, []⟩)
    (hadd : ∀ s ∈ steps, ¬ s.Adds request) : handedOver request medium steps = [] := by
  induction steps generalizing medium with
  | nil => rfl
  | cons s steps ih =>
    obtain ⟨hfirst, hrest⟩ := List.forall_mem_cons.mp hadd
    have hnext : (medium.step s).timer request = ⟨none, []⟩ := by
      rw [timer_step, hidle]
      cases s with
      | add r eventTime => exact if_neg hfirst
      | deleteRequest r => exact ite_self _
      | getResponseAndClear => rfl
      | tick => rfl
    cases s with
    | add r eventTime => exact ih hnext hrest
    | deleteRequest r => exact ih hnext hrest
    | getResponseAndClear =>
      have hnone : medium.getResponseAndClear.1.equalRange request = [] := congrArg Timer.events hidle
      rw [handedOver, hnone, List.nil_append]
      exact ih hnext hrest
    | tick => exact ih hnext hrest

/-- A request that waits gets its event when its time is over; there are later ones only if it
is added again. -/
theorem eventTicks_of_left {left : Int} (hleft : (medium.timer request).left = some left)
    (hdelete : ∀ s ∈ steps, ¬ s.Deletes request) :
    ∃ later, eventTicks request n medium steps =
        (if eventTick left ≤ ticks steps then [n + eventTick left] else []) ++ later ∧
      (∀ k ∈ later, n + eventTick left < k) ∧
      ((∀ s ∈ steps, ¬ s.Adds request) → later = []) := by
  induction steps generalizing n medium left with
  | nil =>
    have hpos : ¬ eventTick left ≤ 0 := by
      cases hdue : due left with
      | true => simp [eventTick_of_due hdue]
      | false => simp [eventTick_of_not_due hdue]
    exact ⟨[], by simp [eventTicks, ticks, hpos], by simp, fun _ => rfl⟩
  | cons s steps ih =>
    obtain ⟨hfirst, hrest⟩ := List.forall_mem_cons.mp hdelete
    have hadds : (∀ s' ∈ s :: steps, ¬ s'.Adds request) → ∀ s' ∈ steps, ¬ s'.Adds request :=
      fun h s' hs' => h s' (List.mem_cons_of_mem _ hs')
    by_cases hs : s = .tick
    · subst hs
      have hisDue : (medium.timer request).isDue = due left := by rw [Timer.isDue, hleft, Option.any_some]
      rw [eventTicks_tick_cons, hisDue]
      cases hdue : due left with
      | true =>
        -- what follows is not of this addition
        rw [eventTick_of_due hdue]
        refine ⟨eventTicks request (n + 1) medium.tick steps, by simp [ticks], ?_, fun h => ?_⟩
        · intro k hk
          exact lt_of_mem_eventTicks hk
        · refine eventTicks_eq_nil ?_ (hadds h)
          rw [timer_tick, Timer.tick, hisDue, hdue]
          rfl
      | false =>
        have hnext : ((medium.step .tick).timer request).left = some (left - sleepTime) := by
          rw [timer_step, Timer.step, Timer.tick, hisDue, hdue, hleft]
          rfl
        obtain ⟨later, heq, hlast, hnone⟩ := ih (n := n + 1) hnext hrest
        rw [eventTick_of_not_due hdue]
        refine ⟨later, ?_, fun k hk => ?_, fun h => hnone (hadds h)⟩
        · refine heq.trans ?_
          simp only [ticks, Nat.add_le_add_iff_right]
          rw [Nat.add_right_comm n 1, Nat.add_assoc n]
        · have := hlast k hk
          omega
    · -- the other steps leave the request its time
      have hsame : ((medium.step s).timer request).left = some left := by
        rw [timer_step]
        exact Timer.left_step_of_some hleft hfirst hs
      obtain ⟨later, heq, hlast, hnone⟩ := ih (n := n) hsame hrest
      rw [eventTicks_cons_of_ne_tick hs, ticks_cons_of_ne_tick hs]
      exact ⟨later, heq, hlast, fun h => hnone (hadds h)⟩

end

theorem events_run_getResponseAndClear (medium : CTimeMedium Request) (request : Request)
    (before : List (Step Request)) :
    ((medium.run (before ++ [.getResponseAndClear])).timer request).events = [] := by
  rw [run, GuardedRun.run_append]
  rfl

/-- Whatever the medium holds and whatever happens afterwards: a request that is added gets one
event, at the tick that its time is rounded up to, and events of it that come later are those of
later additions. Its events wait until `getResponseAndClear` hands them over, all of them and none
twice. To add a request that waits changes nothing. Behind a deletion there are no events. -/
theorem timers_fire_once (medium : CTimeMedium Request) (request : Request) (eventTime : Int)
    (steps : List (Step Request)) :
    (medium.Waiting request → medium.add request eventTime = medium) ∧
    (¬ medium.Waiting request → (∀ s ∈ steps, ¬ s.Deletes request) →
      (∃ later,
        eventTicks request 0 (medium.add request eventTime) steps =
          (if eventTick eventTime ≤ ticks steps then [eventTick eventTime] else []) ++ later ∧
        (∀ k ∈ later, eventTick eventTime < k) ∧
        ((∀ s ∈ steps, ¬ s.Adds request) → later = [])) ∧
      (handedOver request (medium.add request eventTime) steps).length +
          (((medium.add request eventTime).run steps).responses.equalRange request).length =
        (medium.responses.equalRange request).length +
          (eventTicks request 0 (medium.add request eventTime) steps).length ∧
      ∀ before, steps = before ++ [.getResponseAndClear] →
        (handedOver request (medium.add request eventTime) steps).length =
          (medium.responses.equalRange request).length +
            (eventTicks request 0 (medium.add request eventTime) steps).length) ∧
    ((∀ s ∈ steps, ¬ s.Adds request) →
      eventTicks request 0 (medium.deleteRequest request) steps = [] ∧
      handedOver request (medium.deleteRequest request) steps = []) := by
  refine ⟨fun hwaits => ?_, fun hwaits hdelete => ⟨?_, length_handedOver hdelete, ?_⟩, fun hadd => ?_⟩
  · rw [add, OrderedMap.insertNew_of_isSome hwaits]
  · have hleft : ((medium.add request eventTime).timer request).left = some eventTime := by
      have hnone := Option.not_isSome_iff_eq_none.mp hwaits
      simp [timer, add, OrderedMap.lookup_insertNew_self, hnone]
    have hevents := eventTicks_of_left (n := 0) hleft hdelete
    simpa only [Nat.zero_add] using hevents
  · rintro before rfl
    have hbalance : (handedOver request (medium.add request eventTime) _).length + _ = _ :=
      length_handedOver (n := 0) hdelete
    rwa [events_run_getResponseAndClear, List.length_nil, Nat.add_zero] at hbalance
  · have hidle : (medium.deleteRequest request).timer request = ⟨none, []⟩ := by
      simp [timer, deleteRequest, OrderedMultimap.equalRange_erase]
    exact ⟨eventTicks_eq_nil (congrArg Timer.left hidle) hadd, handedOver_eq_nil hidle hadd⟩

/-- Two requests of 250 and 90 milliseconds: the first gets its event with the third tick, and the
call that follows hands it over. -/
theorem timers_fire_once_first :
    eventTicks 1 0 ((empty : CTimeMedium ℕ).add 1 250)
        [.add 2 90, .tick, .getResponseAndClear, .tick, .tick, .getResponseAndClear] = [3] ∧
      (handedOver 1 ((empty : CTimeMedium ℕ).add 1 250)
        [.add 2 90, .tick, .getResponseAndClear, .tick, .tick, .getResponseAndClear]).length = 1 := by
  have hfires := (timers_fire_once (empty : CTimeMedium ℕ) 1 250
    [.add 2 90, .tick, .getResponseAndClear, .tick, .tick, .getResponseAndClear]).2.1 (by decide)
    (by simp [Step.Deletes])
  obtain ⟨⟨later, hevents, -, hnone⟩, -, hhanded⟩ := hfires
  have htick : eventTick 250 = 3 := by
    rw [eventTick_of_not_due rfl, eventTick_of_not_due rfl, eventTick_of_due rfl]
  have hticks : eventTicks 1 0 ((empty : CTimeMedium ℕ).add 1 250)
      [.add 2 90, .tick, .getResponseAndClear, .tick, .tick, .getResponseAndClear] = [3] := by
    rw [hevents, hnone (by simp [Step.Adds]), htick]
    rfl
  refine ⟨hticks, ?_⟩
  rw [hhanded [.add 2 90, .tick, .getResponseAndClear, .tick, .tick] rfl, hticks]
  rfl

/-- What `int64_t` holds even when the medium sleeps once more. -/
def TimeInRange (left : Int) : Prop := -2 ^ 63 + sleepTime ≤ left ∧ left < 2 ^ 63

def Step.InRange : Step Request → Prop
  | .add _ eventTime => TimeInRange eventTime
  | _ => True

/-- If the requested delays are far enough from the least `int64_t`, every difference that a tick
takes is one of that type. -/
theorem timeLeft_inRange {medium : CTimeMedium Request} {steps : List (Step Request)}
    (hsteps : ∀ s ∈ steps, s.InRange)
    (hmedium : ∀ request, ∀ left ∈ (medium.timer request).left, TimeInRange left) :
    ∀ request, ∀ left ∈ ((medium.run steps).timer request).left, TimeInRange left := by
  induction steps generalizing medium with
  | nil => exact hmedium
  | cons s steps ih =>
    obtain ⟨hfirst, hrest⟩ := List.forall_mem_cons.mp hsteps
    refine ih hrest fun request left hleft => ?_
    have hold := hmedium request
    rw [timer_step, Option.mem_def] at hleft
    cases s with
    | add r eventTime =>
      rw [Timer.step] at hleft
      split at hleft
      · cases hwaits : (medium.timer request).left with
        | none =>
          rw [hwaits] at hleft
          cases hleft
          exact hfirst
        | some old =>
          rw [hwaits] at hleft
          cases hleft
          exact hold _ hwaits
      · exact hold left hleft
    | deleteRequest r =>
      rw [Timer.step] at hleft
      split at hleft
      · cases hleft
      · exact hold left hleft
    | getResponseAndClear => exact hold left hleft
    | tick =>
      simp only [Timer.step, Timer.tick] at hleft
      split at hleft
      · cases hleft
      case isFalse hdue =>
        obtain ⟨old, hwaits, rfl⟩ := Option.map_eq_some_iff.mp hleft
        have hlt : sleepTime < old := by
          simpa [Timer.isDue, hwaits, due] using hdue
        obtain ⟨-, hmax⟩ := hold old hwaits
        unfold TimeInRange sleepTime at *
        omega

end CTimeMedium

end Dims
