import Dims.SavedRecords
import Dims.GuardedRun

/-!
# The copy is one snapshot

The files are copied one after the other, and actions see that a copy is created before
their own is. If no file is saved while or between the two are copied, and who has asked
waits for its own copy, what is seen is one snapshot.
-/

namespace Dims
namespace CopyThreads
open CSegmentFileStorage SegmentFile

variable {κ : Type} {t t' : CopyThreads κ}

section Copy

theorem copyHeader_cases (h : t.copyHeader = some t') :
    (t.handler.headerSize = 0 ∧ t' = { t with
      handler := { t.handler with phase := .headersCopied }
      history := { t.history with headersTaken := t.history.clock } }) ∨
    t.handler.headerSize ≠ 0 ∧ ∃ file, t.threads.storage.headers = some file ∧ t' = { t with
      handler := { t.handler with phase := .headersCopied, copyHeaders := some file }
      history := { t.history with
        headersTaken := t.history.clock
        copied := t.history.last } } := by
  rw [copyHeader] at h
  split at h
  · next hnone =>
    cases h
    exact .inl ⟨hnone, rfl⟩
  · next hsome =>
    obtain ⟨file, hfile, rfl⟩ := Option.map_eq_some_iff.mp h
    exact .inr ⟨hsome, file, hfile, rfl⟩

theorem copyStorage_cases (h : t.copyStorage = some t') :
    (t.handler.storageSize = 0 ∧ t' = { t with
      handler := { t.handler with phase := .storageCopied }
      history := { t.history with segmentsTaken := t.history.clock } }) ∨
    t.handler.storageSize ≠ 0 ∧ ∃ file, t.threads.storage.segments = some file ∧ t' = { t with
      handler := { t.handler with phase := .storageCopied, copySegments := some file }
      history := { t.history with segmentsTaken := t.history.clock } } := by
  rw [copyStorage] at h
  split at h
  · next hnone =>
    cases h
    exact .inl ⟨hnone, rfl⟩
  · next hsome =>
    obtain ⟨file, hfile, rfl⟩ := Option.map_eq_some_iff.mp h
    exact .inr ⟨hsome, file, hfile, rfl⟩

theorem Flushing.copyStep {time : Int64} (h : t.Flushing) (hstep : t.copyStep time = some t') :
    t'.Flushing := by
  rw [CopyThreads.copyStep] at hstep
  split at hstep
  · split at hstep <;> cases hstep
    · exact h.of_eq rfl rfl rfl rfl
    · exact h
  · cases hstep
    exact h.of_eq rfl rfl rfl rfl
  · cases hstep
    exact h.of_eq rfl rfl rfl rfl
  · cases hstep
    exact h.of_eq rfl rfl rfl rfl
  · obtain ⟨-, rfl⟩ | ⟨-, file, -, rfl⟩ := copyHeader_cases hstep
    · exact h.of_eq rfl rfl rfl rfl
    · exact h.of_eq rfl rfl rfl rfl
  · obtain ⟨-, rfl⟩ | ⟨-, file, -, rfl⟩ := copyStorage_cases hstep
    · exact h.of_eq rfl rfl rfl rfl
    · exact h.of_eq rfl rfl rfl rfl
  · cases hstep
    exact h.of_eq rfl rfl rfl rfl
  · cases hstep
    exact h.of_eq rfl rfl rfl rfl

variable (t) in
/-- The invariant of the copies under the condition: they show one iteration, from which
between the two copies nothing is saved. -/
structure Copying : Prop where
  onRecord : t.history.copied ∈ t.history.last :: t.history.earlier
  headers : t.handler.copyHeaders = t.history.copied.headers
  segments : t.handler.copySegments = t.history.copied.segments ∨
    t.handler.phase = .headersCopied ∧ t.handler.headerSize ≠ 0
  between : t.handler.phase = .headersCopied →
    (t.handler.headerSize = 0 ↔ t.handler.storageSize = 0) ∧
      (t.handler.headerSize ≠ 0 → t.saving = .idle ∧ t.history.copied = t.history.last)

theorem copying_start : Copying (start : CopyThreads κ) :=
  ⟨List.mem_cons_self, rfl, .inl rfl, nofun⟩

theorem Copying.of_eq (h : t.Copying) (hcopied : t'.history.copied = t.history.copied)
    (hlast : t'.history.last = t.history.last) (hearlier : t'.history.earlier = t.history.earlier)
    (hheaders : t'.handler.copyHeaders = t.handler.copyHeaders)
    (hsegments : t'.handler.copySegments = t.handler.copySegments)
    (hphase : t.handler.phase ≠ .headersCopied ∧ t'.handler.phase ≠ .headersCopied ∨
      t'.handler.phase = t.handler.phase ∧ t'.handler.headerSize = t.handler.headerSize ∧
        t'.handler.storageSize = t.handler.storageSize ∧ t'.saving = t.saving) : t'.Copying := by
  constructor
  · rw [hcopied, hlast, hearlier]
    exact h.onRecord
  · rw [hheaders, hcopied]
    exact h.headers
  · rw [hsegments, hcopied]
    obtain ⟨hbefore, -⟩ | ⟨hsame, hsize, -⟩ := hphase
    · exact .inl (h.segments.resolve_right fun hcase => hbefore hcase.1)
    · rw [hsame, hsize]
      exact h.segments
  · obtain ⟨-, hafter⟩ | ⟨hsame, hsize, hstorage, hsaving⟩ := hphase
    · exact fun hcopied => absurd hcopied hafter
    · rw [hsame, hsize, hstorage, hsaving, hcopied, hlast]
      exact h.between

theorem Copying.copyHeader (h : t.Copying) (hflushing : t.Flushing)
    (hphase : t.handler.phase = .sized) (hidle : t.saving = .idle)
    (hsizes : t.handler.headerSize = 0 ↔ t.handler.storageSize = 0)
    (hstep : t.copyHeader = some t') : t'.Copying := by
  have hsegments : t.handler.copySegments = t.history.copied.segments := by
    refine h.segments.resolve_right fun hcase => ?_
    rw [hphase] at hcase
    exact (nomatch hcase.1)
  obtain ⟨hnone, rfl⟩ | ⟨hsome, file, hfile, rfl⟩ := copyHeader_cases hstep
  · exact ⟨h.onRecord, h.headers, .inl hsegments, fun _ => ⟨hsizes, fun hne => absurd hnone hne⟩⟩
  · have hlast : t.history.last.headers = some file := (hflushing.last hidle).1.trans hfile
    exact ⟨List.mem_cons_self, hlast.symm, .inr ⟨rfl, hsome⟩, fun _ =>
      ⟨hsizes, fun _ => ⟨hidle, rfl⟩⟩⟩

theorem Copying.copyStorage (h : t.Copying) (hflushing : t.Flushing)
    (hphase : t.handler.phase = .headersCopied) (hstep : t.copyStorage = some t') : t'.Copying := by
  obtain ⟨hsizes, hbetween⟩ := h.between hphase
  obtain ⟨hnone, rfl⟩ | ⟨hsome, file, hfile, rfl⟩ := copyStorage_cases hstep
  · refine ⟨h.onRecord, h.headers, .inl (h.segments.resolve_right fun hcase => ?_), nofun⟩
    exact hcase.2 (hsizes.mpr hnone)
  · obtain ⟨hidle, hcopied⟩ := hbetween fun hzero => hsome (hsizes.mp hzero)
    have hlast : t.history.last.segments = some file := (hflushing.last hidle).2.trans hfile
    refine ⟨h.onRecord, h.headers, .inl ?_, nofun⟩
    change some file = t.history.copied.segments
    rw [hcopied, hlast]

theorem Copying.copyStep {time : Int64} (h : t.Copying) (hflushing : t.Flushing)
    (hseparate : t.Separate (.copyStep time)) (hstep : t.copyStep time = some t') : t'.Copying := by
  rw [CopyThreads.copyStep] at hstep
  split at hstep
  · next hphase =>
    split at hstep <;> cases hstep
    · exact h.of_eq rfl rfl rfl rfl rfl (.inl ⟨by rw [hphase]; exact nofun, nofun⟩)
    · exact h
  · next hphase =>
    cases hstep
    exact h.of_eq rfl rfl rfl rfl rfl (.inl ⟨by rw [hphase]; exact nofun, nofun⟩)
  · next hphase =>
    cases hstep
    exact h.of_eq rfl rfl rfl rfl rfl (.inl ⟨by rw [hphase]; exact nofun, nofun⟩)
  · next hphase =>
    cases hstep
    exact h.of_eq rfl rfl rfl rfl rfl (.inl ⟨by rw [hphase]; exact nofun, nofun⟩)
  · next hphase =>
    obtain ⟨hidle, hsizes⟩ := hseparate hphase
    exact h.copyHeader hflushing hphase hidle hsizes hstep
  · next hphase => exact h.copyStorage hflushing hphase hstep
  · next hphase =>
    cases hstep
    exact h.of_eq rfl rfl rfl rfl rfl (.inl ⟨by rw [hphase]; exact nofun, nofun⟩)
  · next hphase =>
    cases hstep
    exact h.of_eq rfl rfl rfl rfl rfl (.inl ⟨by rw [hphase]; exact nofun, nofun⟩)

theorem Copying.startSaving (h : t.Copying) (hphase : t.handler.phase ≠ .headersCopied) :
    t.startSaving.Copying := by
  rw [CopyThreads.startSaving]
  split
  · split
    · exact h.of_eq rfl rfl rfl rfl rfl (.inl ⟨hphase, hphase⟩)
    · exact h
  · exact h

/-- While the files are saved, the copy loop is not between its copies, or copies nothing. -/
theorem Copying.saveStep (h : t.Copying) (hstep : t.saveStep = some t') : t'.Copying := by
  by_cases hidle : t.saving = .idle
  · rw [CopyThreads.saveStep, hidle] at hstep
    cases hstep
    exact h
  · have hbetween : t.handler.phase = .headersCopied → t.handler.headerSize = 0 := by
      intro hphase
      by_contra hne
      exact hidle ((h.between hphase).2 hne).1
    have hsegments : t.handler.copySegments = t.history.copied.segments :=
      h.segments.resolve_right fun hcase => hcase.2 (hbetween hcase.1)
    have hkept : ∀ t₁ : CopyThreads κ, t₁.handler = t.handler →
        t₁.history.copied = t.history.copied →
        t.history.copied ∈ t₁.history.last :: t₁.history.earlier → t₁.Copying := by
      intro t₁ hhandler hcopied honRecord
      constructor
      · rw [hcopied]
        exact honRecord
      · rw [hhandler, hcopied]
        exact h.headers
      · rw [hhandler, hcopied]
        exact .inl hsegments
      · rw [hhandler]
        exact fun hphase => ⟨(h.between hphase).1, fun hne => absurd (hbetween hphase) hne⟩
    rw [CopyThreads.saveStep] at hstep
    split at hstep
    · next heq => exact absurd heq hidle
    · cases hstep
      exact hkept _ rfl rfl h.onRecord
    · obtain ⟨assigned, -, rfl⟩ := Option.map_eq_some_iff.mp hstep
      exact hkept _ rfl rfl h.onRecord
    · cases hstep
      exact hkept _ rfl rfl h.onRecord
    · cases hstep
      exact hkept _ rfl rfl (List.mem_cons_of_mem _ h.onRecord)

end Copy

section Requests

variable (t) in
/-- The invariant of the requests: an action that was not refused waits, is being worked for,
or has got its copy. -/
structure Requesting : Prop where
  clock : ∀ action, t.history.requestedAt action ≤ t.history.clock
  waiting : ∀ action, t.history.waiting = some action →
    t.handler.copyRequest = true ∧ t.handler.phase.BeforeReset
  created : t.handler.copyCreated = true →
    t.handler.phase.BeforeReset ∨ t.handler.phase = .created
  served : ∀ action, (t.serving action).copyRequestDone = true →
    t.history.waiting = some action ∨ t.handler.phase.BeforeCopies ∨
    t.handler.phase = .headersCopied ∧ t.history.requestedAt action < t.history.headersTaken ∨
    t.history.requestedAt action < t.history.headersTaken ∧
      t.history.requestedAt action < t.history.segmentsTaken

theorem requesting_start : Requesting (start : CopyThreads κ) :=
  ⟨fun _ => le_rfl, nofun, nofun, nofun⟩

theorem Requesting.of_eq (h : t.Requesting) (hhandler : t'.handler = t.handler)
    (hserving : ∀ action, (t'.serving action).copyRequestDone = (t.serving action).copyRequestDone)
    (hclock : t'.history.clock = t.history.clock) (hwaiting : t'.history.waiting = t.history.waiting)
    (hrequested : t'.history.requestedAt = t.history.requestedAt)
    (hheaders : t'.history.headersTaken = t.history.headersTaken)
    (hsegments : t'.history.segmentsTaken = t.history.segmentsTaken) : t'.Requesting := by
  constructor
  · rw [hrequested, hclock]
    exact h.clock
  · rw [hwaiting, hhandler]
    exact h.waiting
  · rw [hhandler]
    exact h.created
  · intro action hdone
    rw [hserving] at hdone
    rw [hwaiting, hhandler, hrequested, hheaders, hsegments]
    exact h.served action hdone

theorem Requesting.waiting_eq_none (h : t.Requesting) (hphase : ¬ t.handler.phase.BeforeReset) :
    t.history.waiting = none := by
  apply Option.eq_none_iff_forall_ne_some.mpr
  intro action hwaiting
  exact hphase (h.waiting action hwaiting).2

/-- The flag of the last copy is reset until the next one is created. -/
theorem Requesting.copyCreated_eq_false (h : t.Requesting) (hphase : ¬ t.handler.phase.BeforeReset)
    (hcreated : t.handler.phase ≠ .created) : t.handler.copyCreated = false := by
  by_contra hset
  obtain hbefore | heq := h.created (Bool.eq_true_of_not_eq_false hset)
  · exact hphase hbefore
  · exact hcreated heq

theorem Requesting.taken (h : t.Requesting) (hbefore : ¬ t.handler.phase.BeforeCopies)
    (hheaders : t.handler.phase ≠ .headersCopied) {action : κ}
    (hdone : (t.serving action).copyRequestDone = true)
    (hwaiting : t.history.waiting ≠ some action) :
    t.history.requestedAt action < t.history.headersTaken ∧
      t.history.requestedAt action < t.history.segmentsTaken := by
  obtain hwaits | hearly | hcopied | htaken := h.served action hdone
  · exact absurd hwaits hwaiting
  · exact absurd hearly hbefore
  · exact absurd hcopied.1 hheaders
  · exact htaken

theorem Requesting.working (h : t.Requesting) (hphase : ¬ t.handler.phase.BeforeReset)
    (hcreated : t.handler.phase ≠ .created)
    (hrequested : t'.history.requestedAt = t.history.requestedAt)
    (hclock : t'.history.clock = t.history.clock)
    (hwaiting : t'.history.waiting = t.history.waiting)
    (hflag : t'.handler.copyCreated = t.handler.copyCreated)
    (hserved : ∀ action, (t'.serving action).copyRequestDone = true →
      t'.handler.phase.BeforeCopies ∨
      t'.handler.phase = .headersCopied ∧
        t'.history.requestedAt action < t'.history.headersTaken ∨
      t'.history.requestedAt action < t'.history.headersTaken ∧
        t'.history.requestedAt action < t'.history.segmentsTaken) : t'.Requesting := by
  constructor
  · rw [hrequested, hclock]
    exact h.clock
  · rw [hwaiting, h.waiting_eq_none hphase]
    exact nofun
  · rw [hflag, h.copyCreated_eq_false hphase hcreated]
    exact nofun
  · exact fun action hdone => .inr (hserved action hdone)

theorem Requesting.copyHeader (h : t.Requesting) (hphase : t.handler.phase = .sized)
    (hfresh : ∀ action, t.history.requestedAt action < t.history.clock)
    (hstep : t.copyHeader = some t') : t'.Requesting := by
  have hpast : ¬ t.handler.phase.BeforeReset := by
    rw [hphase]
    decide
  have hcreated : t.handler.phase ≠ .created := by
    rw [hphase]
    decide
  obtain ⟨-, rfl⟩ | ⟨-, file, -, rfl⟩ := copyHeader_cases hstep
  · exact h.working hpast hcreated rfl rfl rfl rfl fun action _ => .inr (.inl ⟨rfl, hfresh action⟩)
  · exact h.working hpast hcreated rfl rfl rfl rfl fun action _ => .inr (.inl ⟨rfl, hfresh action⟩)

theorem Requesting.copyStorage (h : t.Requesting) (hphase : t.handler.phase = .headersCopied)
    (hfresh : ∀ action, t.history.requestedAt action < t.history.clock)
    (hstep : t.copyStorage = some t') : t'.Requesting := by
  have hpast : ¬ t.handler.phase.BeforeReset := by
    rw [hphase]
    decide
  have hcreated : t.handler.phase ≠ .created := by
    rw [hphase]
    decide
  have htaken : ∀ action, (t.serving action).copyRequestDone = true →
      t.history.requestedAt action < t.history.headersTaken := by
    intro action hdone
    obtain hwaits | hbefore | ⟨-, hlt⟩ | ⟨hlt, -⟩ := h.served action hdone
    · rw [h.waiting_eq_none hpast] at hwaits
      cases hwaits
    · rw [hphase] at hbefore
      exact absurd hbefore (by decide)
    · exact hlt
    · exact hlt
  obtain ⟨-, rfl⟩ | ⟨-, file, -, rfl⟩ := copyStorage_cases hstep
  · exact h.working hpast hcreated rfl rfl rfl rfl fun action hdone =>
      .inr (.inr ⟨htaken action hdone, hfresh action⟩)
  · exact h.working hpast hcreated rfl rfl rfl rfl fun action hdone =>
      .inr (.inr ⟨htaken action hdone, hfresh action⟩)

theorem Requesting.around (h : t.Requesting) (hbefore : ¬ t.handler.phase.BeforeCopies)
    (hheaders : t.handler.phase ≠ .headersCopied) {handler : CCopyStorageHandler}
    (hwaiting : ∀ action, t.history.waiting = some action →
      handler.copyRequest = true ∧ handler.phase.BeforeReset)
    (hcreated : handler.copyCreated = true → handler.phase.BeforeReset ∨ handler.phase = .created) :
    Requesting { t with handler := handler } := by
  refine ⟨h.clock, hwaiting, hcreated, fun action hdone => ?_⟩
  by_cases hwaits : t.history.waiting = some action
  · exact .inl hwaits
  · exact .inr (.inr (.inr (h.taken hbefore hheaders hdone hwaits)))

theorem Requesting.copyStep {time : Int64} (h : t.Requesting)
    (hfresh : ∀ action, t.history.requestedAt action < t.history.clock)
    (hstep : t.copyStep time = some t') : t'.Requesting := by
  have hnone : ¬ t.handler.phase.BeforeReset → ∀ action, t.history.waiting ≠ some action := by
    intro hpast action hwaits
    rw [h.waiting_eq_none hpast] at hwaits
    cases hwaits
  rw [CopyThreads.copyStep] at hstep
  split at hstep
  · next hphase =>
    split at hstep
    · next hrequest =>
      cases hstep
      exact h.around (by rw [hphase]; decide) (by rw [hphase]; decide)
        (fun action _ => ⟨hrequest, .inr rfl⟩) (fun _ => .inl (.inr rfl))
    · cases hstep
      exact h
  · cases hstep
    exact ⟨h.clock, nofun, nofun, fun _ _ => .inr (.inl (.inl rfl))⟩
  · next hphase =>
    cases hstep
    exact h.working (by rw [hphase]; decide) (by rw [hphase]; decide) rfl rfl rfl rfl
      fun _ _ => .inl (.inr (.inl rfl))
  · next hphase =>
    cases hstep
    exact h.working (by rw [hphase]; decide) (by rw [hphase]; decide) rfl rfl rfl rfl
      fun _ _ => .inl (.inr (.inr rfl))
  · next hphase => exact h.copyHeader hphase hfresh hstep
  · next hphase => exact h.copyStorage hphase hfresh hstep
  · next hphase =>
    cases hstep
    exact h.around (by rw [hphase]; decide) (by rw [hphase]; decide)
      (fun action hwaits => absurd hwaits (hnone (by rw [hphase]; decide) action))
      (fun _ => .inr rfl)
  · next hphase =>
    cases hstep
    exact h.around (by rw [hphase]; decide) (by rw [hphase]; decide)
      (fun action hwaits => absurd hwaits (hnone (by rw [hphase]; decide) action))
      (fun _ => .inl (.inl rfl))

variable [DecidableEq κ]

theorem Requesting.createCopyRequest (h : t.Requesting)
    (hfresh : ∀ action, t.history.requestedAt action < t.history.clock) (action : κ) :
    (t.createCopyRequest action).Requesting := by
  rw [CopyThreads.createCopyRequest]
  split
  case isFalse => exact h
  case isTrue hfree =>
    obtain ⟨hphase, hrequest⟩ := hfree
    refine ⟨fun other => ?_, fun other _ => ⟨rfl, .inl hphase⟩, fun _ => .inl (.inl hphase),
      fun other hdone => ?_⟩
    · by_cases hsame : other = action
      · subst hsame
        exact (Function.update_self ..).le
      · exact (Function.update_of_ne hsame ..).le.trans (hfresh other).le
    · by_cases hsame : other = action
      · exact .inl (congrArg some hsame.symm)
      · change (Function.update t.serving action _ other).copyRequestDone = true at hdone
        rw [Function.update_of_ne hsame] at hdone
        have hwaits : t.history.waiting ≠ some other := by
          intro hwaits
          have hset := (h.waiting other hwaits).1
          rw [hrequest] at hset
          cases hset
        have htaken := h.taken (by rw [hphase]; decide) (by rw [hphase]; decide) hdone hwaits
        refine .inr (.inr (.inr ?_))
        change Function.update t.history.requestedAt action t.history.clock other < _ ∧
          Function.update t.history.requestedAt action t.history.clock other < _
        rwa [Function.update_of_ne hsame]

theorem copyRequestDone_update (serving : κ → CSynchronizedProvideCopy) (action : κ)
    {state : CSynchronizedProvideCopy}
    (h : state.copyRequestDone = (serving action).copyRequestDone) (other : κ) :
    (Function.update serving action state other).copyRequestDone =
      (serving other).copyRequestDone := by
  by_cases hsame : other = action
  · subst hsame
    rw [Function.update_self, h]
  · rw [Function.update_of_ne hsame]

theorem Requesting.reactTimeEvent (h : t.Requesting)
    (hfresh : ∀ action, t.history.requestedAt action < t.history.clock) (action : κ) :
    (t.reactTimeEvent action).Requesting := by
  rw [CopyThreads.reactTimeEvent]
  split
  · exact h
  · split
    · exact h.createCopyRequest hfresh action
    · split
      · exact h.of_eq rfl (copyRequestDone_update t.serving action rfl) rfl rfl rfl rfl rfl
      · exact h

theorem Requesting.reactAck (h : t.Requesting) (action : κ) : (t.reactAck action).Requesting :=
  h.of_eq rfl (copyRequestDone_update t.serving action rfl) rfl rfl rfl rfl rfl

end Requests

section Run

variable (t) in
structure Invariant : Prop where
  flushing : t.Flushing
  copying : t.Copying
  requesting : t.Requesting

theorem invariant_start : Invariant (start : CopyThreads κ) :=
  ⟨flushing_start, copying_start, requesting_start⟩

theorem saveStep_frame (hstep : t.saveStep = some t') : t'.handler = t.handler ∧
    t'.serving = t.serving ∧ t'.history.clock = t.history.clock ∧
    t'.history.waiting = t.history.waiting ∧ t'.history.requestedAt = t.history.requestedAt ∧
    t'.history.headersTaken = t.history.headersTaken ∧
    t'.history.segmentsTaken = t.history.segmentsTaken := by
  rw [CopyThreads.saveStep] at hstep
  split at hstep
  case h_3 =>
    obtain ⟨assigned, -, rfl⟩ := Option.map_eq_some_iff.mp hstep
    exact ⟨rfl, rfl, rfl, rfl, rfl, rfl, rfl⟩
  all_goals
    cases hstep
    exact ⟨rfl, rfl, rfl, rfl, rfl, rfl, rfl⟩

theorem Invariant.storage {ctx : StorageContext} {event : StorageEvent} {threads : StorageThreads} (h : t.Invariant)
    (hevent : event ≠ .saveAll) (hreact : t.threads.react ctx event = some threads) :
    Invariant { t with threads := threads } := by
  have hcopying : Copying { t with threads := threads } :=
    h.copying.of_eq rfl rfl rfl rfl rfl (.inr ⟨rfl, rfl, rfl, rfl⟩)
  have hrequesting : Requesting { t with threads := threads } :=
    h.requesting.of_eq rfl (fun _ => rfl) rfl rfl rfl rfl rfl
  refine ⟨?_, hcopying, hrequesting⟩
  obtain hsame | ⟨tx, txs, storage, -, hqueue, hprocessed, rfl⟩ :=
    StorageThreads.react_undisturbed hevent hreact
  · exact h.flushing.undisturbed hsame
  · exact h.flushing.processTransaction hqueue (works_processTransaction hprocessed)

theorem Invariant.consistent {action : κ} (h : t.Invariant) (hobserves : t.Observes action)
    (hseparate : t.Separate (.timeEvent action)) : t.Consistent action := by
  obtain ⟨hwaiting, ⟨hheaders, hblocks⟩, hfits⟩ := hseparate hobserves
  obtain ⟨-, hdone, hcreated⟩ := hobserves
  have hphase : t.handler.phase.BeforeReset ∨ t.handler.phase = .created :=
    h.requesting.created hcreated
  have hbefore : ¬ t.handler.phase.BeforeCopies := by
    obtain (hphase | hphase) | hphase := hphase <;> rw [hphase] <;> decide
  have hnot : t.handler.phase ≠ .headersCopied := by
    obtain (hphase | hphase) | hphase := hphase <;> rw [hphase] <;> decide
  obtain ⟨hheadersTaken, hsegmentsTaken⟩ := h.requesting.taken hbefore hnot hdone hwaiting
  have hsegments : t.handler.copySegments = t.history.copied.segments :=
    h.copying.segments.resolve_right fun hcase => hnot hcase.1
  have htotal : t.getDiscBlockSize = t.threads.storage.lastSegmentIndex := h.flushing.total
  have hrecord : t.history.copied.Fits := by
    constructor
    · rw [← hblocks, htotal]
      exact hfits.blocks
    · rw [← hheaders]
      exact hfits.headers
  obtain ⟨hheaderCount, hblockCount⟩ := h.flushing.whole _ h.copying.onRecord hrecord
  refine ⟨hheadersTaken, hsegmentsTaken, ⟨_, h.copying.onRecord, h.copying.headers, hsegments⟩,
    ?_, ?_⟩
  · rw [h.copying.headers, hheaderCount]
    exact hheaders
  · rw [hsegments, hblockCount]
    exact hblocks

variable {ctx : StorageContext} [DecidableEq κ]

theorem react_storage {event : StorageEvent} (hevent : event ≠ .saveAll) (t : CopyThreads κ) :
    t.react ctx (.storage event) =
      (t.threads.react ctx event).map fun threads => { t with threads := threads } := by
  cases event with
  | saveAll => exact absurd rfl hevent
  | _ => rfl

theorem reactTimeEvent_frame (t : CopyThreads κ) (action : κ) :
    (t.reactTimeEvent action).threads = t.threads ∧
    (t.reactTimeEvent action).saving = t.saving ∧
    (t.reactTimeEvent action).history.last = t.history.last ∧
    (t.reactTimeEvent action).history.earlier = t.history.earlier ∧
    (t.reactTimeEvent action).history.copied = t.history.copied ∧
    (t.reactTimeEvent action).handler.copyHeaders = t.handler.copyHeaders ∧
    (t.reactTimeEvent action).handler.copySegments = t.handler.copySegments ∧
    (t.reactTimeEvent action).handler.phase = t.handler.phase ∧
    (t.reactTimeEvent action).handler.headerSize = t.handler.headerSize ∧
    (t.reactTimeEvent action).handler.storageSize = t.handler.storageSize ∧
    (t.reactTimeEvent action).saving = t.saving := by
  rw [CopyThreads.reactTimeEvent, CopyThreads.createCopyRequest]
  split
  · simp
  · split
    · split <;> simp
    · split <;> simp [announce]

theorem Invariant.react {event : CopyEvent κ} (h : t.Invariant)
    (hfresh : ∀ action, t.history.requestedAt action < t.history.clock)
    (hseparate : t.Separate event) (hreact : t.react ctx event = some t') : t'.Invariant := by
  cases event with
  | storage event =>
    by_cases hevent : event = .saveAll
    · subst hevent
      cases hreact
      have hrequesting : t.startSaving.Requesting := by
        rw [startSaving]
        split
        · split
          · exact h.requesting.of_eq rfl (fun _ => rfl) rfl rfl rfl rfl rfl
          · exact h.requesting
        · exact h.requesting
      exact ⟨h.flushing.startSaving, h.copying.startSaving hseparate, hrequesting⟩
    · rw [react_storage hevent] at hreact
      obtain ⟨threads, hthreads, rfl⟩ := Option.map_eq_some_iff.mp hreact
      exact h.storage hevent hthreads
  | saveStep =>
    obtain ⟨hhandler, hserving, hclock, hwaiting, hrequested, hheaders, hsegments⟩ :=
      saveStep_frame hreact
    exact ⟨h.flushing.saveStep hreact, h.copying.saveStep hreact,
      h.requesting.of_eq hhandler (fun action => by rw [hserving]) hclock hwaiting hrequested
        hheaders hsegments⟩
  | copyStep time =>
    exact ⟨h.flushing.copyStep hreact, h.copying.copyStep h.flushing hseparate hreact,
      h.requesting.copyStep hfresh hreact⟩
  | timeEvent action =>
    cases hreact
    obtain ⟨hthreads, hsaving, hlast, hearlier, hcopied, hheaders, hsegments, hphase⟩ :=
      reactTimeEvent_frame t action
    exact ⟨h.flushing.of_eq hthreads hsaving hlast hearlier,
      h.copying.of_eq hcopied hlast hearlier hheaders hsegments (.inr hphase),
      h.requesting.reactTimeEvent hfresh action⟩
  | ack action =>
    cases hreact
    exact ⟨h.flushing.of_eq rfl rfl rfl rfl,
      h.copying.of_eq rfl rfl rfl rfl rfl (.inr ⟨rfl, rfl, rfl, rfl⟩),
      h.requesting.reactAck action⟩

theorem step_invariant {s : Option (CopyThreads κ)} {event : CopyEvent κ}
    (h : ∀ t, s = some t → t.Invariant) (hseparate : SeparateIn s event) :
    ∀ t, step ctx s event = some t → t.Invariant := by
  intro t' hstep
  obtain ⟨t, rfl, hreact⟩ := Option.bind_eq_some_iff.mp hstep
  have hold := h t rfl
  have htick : t.tick.Invariant :=
    ⟨hold.flushing.of_eq rfl rfl rfl rfl,
      hold.copying.of_eq rfl rfl rfl rfl rfl (.inr ⟨rfl, rfl, rfl, rfl⟩),
      ⟨fun action => (hold.requesting.clock action).trans (Nat.le_succ _), hold.requesting.waiting,
        hold.requesting.created, hold.requesting.served⟩⟩
  have hfresh : ∀ action, t.tick.history.requestedAt action < t.tick.history.clock :=
    fun action => Nat.lt_succ_of_le (hold.requesting.clock action)
  exact htick.react hfresh (hseparate t rfl) hreact

/-- In a run that keeps the savings and the copies apart, whenever an action sees that the
copy is created, the copy is one snapshot that is newer than its request, and has as many
headers and blocks as are announced. -/
theorem snapshot_throughout {events past : List (CopyEvent κ)} {action : κ} {t : CopyThreads κ}
    (hguarded : GuardedRun.Guarded (step ctx) SeparateIn (some start) events)
    (hpast : past ++ [.timeEvent action] <+: events)
    (hrun : GuardedRun.run (step ctx) (some start) past = some t) (hobserves : t.Observes action) :
    t.Consistent action := by
  obtain ⟨rest, rfl⟩ := hpast
  have hfirst := ((GuardedRun.guarded_append _ _).mp hguarded).1
  have hstep : ∀ (s : Option (CopyThreads κ)) event, (∀ t, s = some t → t.Invariant) →
      SeparateIn s event → ∀ t, step ctx s event = some t → t.Invariant :=
    fun s event h hseparate => step_invariant h hseparate
  have hstart : ∀ t, some (start : CopyThreads κ) = some t → t.Invariant := by
    intro t ht
    cases ht
    exact invariant_start
  obtain ⟨hinvariant, hseparate⟩ := hfirst.last hstep hstart
  exact (hinvariant t hrun).consistent hobserves (hseparate t hrun)

end Run

end CopyThreads

namespace StaleCopy
open CopyThreads

def context : StorageContext := ⟨⟨fun _ => 0, fun _ => 0⟩, fun _ => 0⟩

/-- A transaction at the first area of the first block of its bucket. -/
def tx : CTransaction := ⟨1, [], [], 0, 3072⟩

/-- An iteration of the flush loop saves its block and its header. -/
def flush : List (CopyEvent Bool) :=
  [.storage (.assignPosition tx), .storage (.includeTransactions [tx] 0),
    .storage .addToRecentlyUsed, .storage .takeLocations, .storage .swapQueue,
    .storage .processTransaction, .storage .saveAll, .saveStep, .saveStep, .saveStep, .saveStep,
    .storage .clearUsed]

def copied : List (CopyEvent Bool) := flush ++ .timeEvent false :: List.replicate 8 (.copyStep 0)

/-- Another action asks for a copy, and is shown the old one. -/
theorem request_unserved :
    ∃ t, GuardedRun.run (step context) (some start) (copied ++ [.timeEvent true]) = some t ∧
      t.Observes true ∧ ¬ t.Consistent true :=
  ⟨_, rfl, ⟨rfl, rfl, rfl⟩, fun hconsistent => absurd hconsistent.headersTaken (by decide)⟩

section Separate

variable {s : Option (CopyThreads Bool)}

private theorem separateIn_copyStep (phase : CopyPhase)
    (hphase : s.map (fun t => t.handler.phase) = some phase) (hne : phase ≠ .sized) :
    SeparateIn s (.copyStep 0) := by
  intro t ht hsized
  subst ht
  cases hphase
  exact absurd hsized hne

private theorem separateIn_copyHeader
    (h : s.map (fun t => (t.saving, t.handler.headerSize, t.handler.storageSize)) =
      some (.idle, 1, 1)) : SeparateIn s (.copyStep 0) := by
  intro t ht _
  subst ht
  obtain ⟨hsaving, hsizes⟩ := Prod.mk.inj (Option.some.inj h)
  obtain ⟨hheader, hstorage⟩ := Prod.mk.inj hsizes
  rw [hheader, hstorage]
  exact ⟨hsaving, Iff.rfl⟩

private theorem separateIn_saveAll (h : s.map (fun t => t.handler.phase) = some .idle) :
    SeparateIn s (.storage .saveAll) := by
  intro t ht
  subst ht
  have hphase : t.handler.phase = .idle := Option.some.inj h
  rw [Separate, hphase]
  exact nofun

private theorem separateIn_request
    (h : s.map (fun t => (t.serving false).copyRequestDone) = some false) :
    SeparateIn s (.timeEvent false) := by
  intro t ht hobserves
  subst ht
  have hrefused : (t.serving false).copyRequestDone = false := Option.some.inj h
  exact absurd (hrefused.symm.trans hobserves.2.1) Bool.false_ne_true

private theorem separateIn_observed (hwaiting : s.map (fun t => t.history.waiting) = some none)
    (hgrown : s.map (fun t => (t.getSegmentHeaderSize, t.history.copied.headerCount,
      t.getDiscBlockSize, t.history.copied.blockCount)) = some (1, 1, 1, 1))
    (hlast : s.map (fun t => t.threads.storage.lastSegmentIndex) = some 1) :
    SeparateIn s (.timeEvent false) := by
  intro t ht _
  subst ht
  obtain ⟨hsize, hrest⟩ := Prod.mk.inj (Option.some.inj hgrown)
  obtain ⟨hcount, hrest⟩ := Prod.mk.inj hrest
  obtain ⟨hblocks, hblockCount⟩ := Prod.mk.inj hrest
  have hlength : t.threads.storage.headersCache.length = 1 := hsize
  have hnone : t.history.waiting = none := Option.some.inj hwaiting
  have hindex : t.threads.storage.lastSegmentIndex = 1 := Option.some.inj hlast
  refine ⟨?_, ⟨hsize.trans hcount.symm, hblocks.trans hblockCount.symm⟩, ?_, ?_⟩
  · rw [hnone]
    exact nofun
  · rw [hindex]
    decide
  · rw [hlength]
    decide

end Separate

/-- The first action sees its copy before anything else happens. -/
theorem request_served :
    ∃ t, GuardedRun.run (step context) (some start) copied = some t ∧
      t.synchronizationInfo = ⟨0, 1, 1⟩ ∧ t.Consistent false := by
  have hguarded : GuardedRun.Guarded (step context) SeparateIn (some start)
      (copied ++ [.timeEvent false]) := by
    refine ⟨fun _ _ => trivial, fun _ _ => trivial, fun _ _ => trivial, fun _ _ => trivial,
      fun _ _ => trivial, fun _ _ => trivial, separateIn_saveAll rfl, fun _ _ => trivial,
      fun _ _ => trivial, fun _ _ => trivial, fun _ _ => trivial, fun _ _ => trivial,
      separateIn_request rfl, separateIn_copyStep .idle rfl nofun,
      separateIn_copyStep .locked rfl nofun, separateIn_copyStep .reset rfl nofun,
      separateIn_copyStep .storageSized rfl nofun, separateIn_copyHeader rfl,
      separateIn_copyStep .headersCopied rfl nofun, separateIn_copyStep .storageCopied rfl nofun,
      separateIn_copyStep .created rfl nofun, separateIn_observed rfl rfl rfl, trivial⟩
  exact ⟨_, rfl, by decide, snapshot_throughout hguarded List.prefix_rfl rfl ⟨rfl, rfl, rfl⟩⟩

end StaleCopy

end Dims
