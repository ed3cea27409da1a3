import Dims.ActionHandler

/-!
# Handlers and the media they are for

A medium makes the handlers that were made for it invalid when it is deleted, but a handler
stays in the set at its address. A request is run by the medium that it is addressed to as
long as no medium gets the address of a handler that is left.
-/

namespace Dims
open CNodeMedium

namespace CActionHandler

variable {ρ : Type}

def identityAt (s : CActionHandler ρ) (address : ℕ) : Option ℕ :=
  (s.media address).map LiveMedium.identity

/-- The handler at the address of a medium is valid and refers to it. A request that is run is
run by the medium that it was set for, and one that is skipped was set for a medium that
has been deleted. -/
structure Bound (s : CActionHandler ρ) : Prop where
  live : ∀ address medium handler, s.identityAt address = some medium →
    s.requestHandlers address = some handler →
      handler.valid = true ∧ handler.usedMedium = medium
  executed : ∀ execution ∈ s.executed, execution.executor = some execution.addressee
  skipped : ∀ request ∈ s.skipped, ∀ address, s.identityAt address ≠ some request.2

/-- No medium is made at an address at which there is a handler. -/
def Unreused (s : Option (CActionHandler ρ)) : Event ρ → Prop
  | .createMedium address => ∀ t, s = some t → t.media address = none →
    t.requestHandlers address = none
  | _ => True

structure Tracked (s : CActionHandler ρ) : Prop where
  fresh : ∀ address medium, s.identityAt address = some medium → medium < s.created
  distinct : ∀ address address' medium, s.identityAt address = some medium →
    s.identityAt address' = some medium → address' = address
  bound : ∀ address handler, s.requestHandlers address = some handler → handler.valid = true →
    s.identityAt address = some handler.usedMedium
  made : ∀ address handler, s.requestHandlers address = some handler →
    handler.usedMedium < s.created
  pending : ∀ address handler, s.requestHandlers address = some handler →
    ∀ request ∈ handler.newRequest, request.2 < s.created ∧
      (∀ address', s.identityAt address' = some request.2 → address' = address) ∧
      (handler.valid = true → request.2 = handler.usedMedium)
  passed : ∀ request ∈ s.skipped, request.2 < s.created

structure SameBinding (s t : CActionHandler ρ) : Prop where
  identityAt : t.identityAt = s.identityAt
  created : t.created = s.created
  requestHandlers : t.requestHandlers = s.requestHandlers
  executed : t.executed = s.executed
  skipped : t.skipped = s.skipped

section Frame

variable {s t : CActionHandler ρ} {address : ℕ}

theorem SameBinding.refl (s : CActionHandler ρ) : SameBinding s s := ⟨rfl, rfl, rfl, rfl, rfl⟩

theorem SameBinding.trans {u : CActionHandler ρ} (h : SameBinding s t) (h' : SameBinding t u) :
    SameBinding s u :=
  ⟨h'.identityAt.trans h.identityAt, h'.created.trans h.created,
    h'.requestHandlers.trans h.requestHandlers, h'.executed.trans h.executed,
    h'.skipped.trans h.skipped⟩

theorem SameBinding.foldl {α : Type*} {f : CActionHandler ρ → α → CActionHandler ρ}
    (h : ∀ s a, SameBinding s (f s a)) (as : List α) (s : CActionHandler ρ) :
    SameBinding s (as.foldl f s) :=
  as.foldlRecOn f (.refl s) fun t ht a _ => ht.trans (h t a)

theorem Tracked.same (h : s.Tracked) (hsame : SameBinding s t) : t.Tracked := by
  obtain ⟨hidentity, hcreated, hhandlers, -, hskipped⟩ := hsame
  constructor
  · rw [hidentity, hcreated]
    exact h.fresh
  · rw [hidentity]
    exact h.distinct
  · rw [hidentity, hhandlers]
    exact h.bound
  · rw [hhandlers, hcreated]
    exact h.made
  · rw [hidentity, hhandlers, hcreated]
    exact h.pending
  · rw [hskipped, hcreated]
    exact h.passed

theorem Bound.same (h : s.Bound) (hsame : SameBinding s t) : t.Bound := by
  obtain ⟨hidentity, -, hhandlers, hexecuted, hskipped⟩ := hsame
  constructor
  · rw [hidentity, hhandlers]
    exact h.live
  · rw [hexecuted]
    exact h.executed
  · rw [hidentity, hskipped]
    exact h.skipped

theorem identityAt_modifyMedium (s : CActionHandler ρ) (address : ℕ)
    (f : CNodeMedium ρ → CNodeMedium ρ) : (s.modifyMedium address f).identityAt = s.identityAt := by
  funext address'
  unfold modifyMedium
  split
  case h_1 => rfl
  case h_2 medium hmedium =>
    by_cases hsame : address' = address
    · subst hsame
      simp [identityAt, hmedium]
    · simp [identityAt, Function.update_of_ne hsame]

theorem sameBinding_modifyMedium (s : CActionHandler ρ) (address : ℕ)
    (f : CNodeMedium ρ → CNodeMedium ρ) : SameBinding s (s.modifyMedium address f) := by
  refine ⟨identityAt_modifyMedium s address f, ?_, ?_, ?_, ?_⟩ <;> unfold modifyMedium <;> split <;> rfl

theorem sameBinding_message (s : CActionHandler ρ) (address : ℕ) (actionKey id : Uint256)
    (direct : Bool) (response : ρ) :
    SameBinding s (s.message address actionKey id direct response) := by
  unfold message
  split
  · exact sameBinding_modifyMedium ..
  · exact .refl s

theorem sameBinding_executeAction (s : CActionHandler ρ) (address : ℕ) (actionKey : Uint256) :
    SameBinding s (s.executeAction address actionKey) := by
  unfold executeAction
  split <;> exact ⟨rfl, rfl, rfl, rfl, rfl⟩

theorem sameBinding_addRequest (s : CActionHandler ρ) (address : ℕ) (request : CRequest) :
    SameBinding s (s.addRequest address request) := by
  unfold addRequest
  split <;> exact ⟨rfl, rfl, rfl, rfl, rfl⟩

theorem sameBinding_destroy (s : CActionHandler ρ) (address : ℕ) :
    SameBinding s (s.destroy address) := by
  unfold destroy
  split <;> exact ⟨rfl, rfl, rfl, rfl, rfl⟩

theorem sameBinding_release (action : CAction) (request : CRequest) (s : CActionHandler ρ)
    (address : ℕ) : SameBinding s (release action request s address) := by
  unfold release
  split
  · exact .refl s
  · split
    · exact sameBinding_modifyMedium ..
    · exact .refl s

theorem sameBinding_cleanUp (s : CActionHandler ρ) (action : CAction) :
    SameBinding s (s.cleanUp action) := by
  have hreleased : ∀ (s : CActionHandler ρ) request,
      SameBinding s (releaseHandlers action s request) := fun s request =>
    (SameBinding.foldl (sameBinding_release action request) _ s).trans ⟨rfl, rfl, rfl, rfl, rfl⟩
  exact (SameBinding.foldl hreleased action.combined s).trans ⟨rfl, rfl, rfl, rfl, rfl⟩

theorem sameBinding_getDirectActionResponse (s : CActionHandler ρ) (address action : ℕ) :
    SameBinding s (s.getDirectActionResponse address action) := by
  unfold getDirectActionResponse
  split
  · exact sameBinding_modifyMedium ..
  · exact .refl s

theorem sameBinding_processMediumResponses (h : s.processMediumResponses address = some t) :
    SameBinding s t := by
  unfold processMediumResponses at h
  split at h
  · split at h
    · obtain ⟨read, -, rfl⟩ := Option.map_eq_some_iff.mp h
      exact sameBinding_modifyMedium ..
    · cases h
      exact .refl s
  · cases h
    exact .refl s

theorem sameBinding_next (s : CActionHandler ρ) : SameBinding s s.next := by
  unfold next
  split
  · split <;> exact ⟨rfl, rfl, rfl, rfl, rfl⟩
  · exact ⟨rfl, rfl, rfl, rfl, rfl⟩
  · split <;> exact ⟨rfl, rfl, rfl, rfl, rfl⟩

end Frame

section Media

variable {s : CActionHandler ρ} {address : ℕ}

theorem identityAt_eq_none : s.identityAt address = none ↔ s.media address = none :=
  Option.map_eq_none_iff

theorem createMedium_of_none (h : s.media address = none) :
    (s.createMedium address).identityAt = Function.update s.identityAt address (some s.created) ∧
      (s.createMedium address).created = s.created + 1 ∧
      (s.createMedium address).requestHandlers = s.requestHandlers ∧
      (s.createMedium address).executed = s.executed ∧
      (s.createMedium address).skipped = s.skipped := by
  unfold createMedium
  rw [h]
  refine ⟨?_, rfl, rfl, rfl, rfl⟩
  funext address'
  by_cases hsame : address' = address
  · subst hsame
    simp [identityAt]
  · simp [identityAt, Function.update_of_ne hsame]

theorem createMedium_of_some {medium : LiveMedium ρ} (h : s.media address = some medium) :
    s.createMedium address = s := by
  unfold createMedium
  rw [h]

theorem Tracked.not_valid (h : s.Tracked) {handler : CRequestHandler}
    (hfree : s.media address = none) (hhandler : s.requestHandlers address = some handler) :
    ¬handler.valid = true := by
  intro hvalid
  have hbound := h.bound address handler hhandler hvalid
  rw [identityAt_eq_none.mpr hfree] at hbound
  cases hbound

theorem Tracked.createMedium (h : s.Tracked) (address : ℕ) : (s.createMedium address).Tracked := by
  cases hfree : s.media address with
  | some medium => rwa [createMedium_of_some hfree]
  | none =>
    obtain ⟨hidentity, hcreated, hhandlers, -, hskipped⟩ := createMedium_of_none hfree
    have hcases : ∀ address' medium, (s.createMedium address).identityAt address' = some medium →
        address' = address ∧ medium = s.created ∨ s.identityAt address' = some medium := by
      intro address' medium hat
      rw [hidentity] at hat
      by_cases hsame : address' = address
      · rw [hsame, Function.update_self] at hat
        exact .inl ⟨hsame, (Option.some.inj hat).symm⟩
      · rw [Function.update_of_ne hsame] at hat
        exact .inr hat
    refine ⟨fun address' medium hat => ?_, fun first second medium hat hat' => ?_,
      fun address' handler hhandler hvalid => ?_, fun address' handler hhandler => ?_,
      fun address' handler hhandler request hin => ?_, fun request hin => ?_⟩
    · rw [hcreated]
      obtain ⟨-, rfl⟩ | hold := hcases address' medium hat
      · exact Nat.lt_succ_self _
      · exact (h.fresh address' medium hold).trans (Nat.lt_succ_self _)
    · obtain ⟨rfl, rfl⟩ | hold := hcases first medium hat
      · obtain ⟨rfl, -⟩ | hold' := hcases second _ hat'
        · rfl
        · exact absurd (h.fresh second _ hold') (Nat.lt_irrefl _)
      · obtain ⟨-, rfl⟩ | hold' := hcases second medium hat'
        · exact absurd (h.fresh first _ hold) (Nat.lt_irrefl _)
        · exact h.distinct first second medium hold hold'
    · rw [hhandlers] at hhandler
      have hne : address' ≠ address := by
        rintro rfl
        exact h.not_valid hfree hhandler hvalid
      rw [hidentity, Function.update_of_ne hne]
      exact h.bound address' handler hhandler hvalid
    · rw [hhandlers] at hhandler
      rw [hcreated]
      exact (h.made address' handler hhandler).trans (Nat.lt_succ_self _)
    · rw [hhandlers] at hhandler
      obtain ⟨hlt, hplace, hvalid⟩ := h.pending address' handler hhandler request hin
      rw [hcreated]
      refine ⟨hlt.trans (Nat.lt_succ_self _), fun other hat => ?_, hvalid⟩
      obtain ⟨-, heq⟩ | hold := hcases other request.2 hat
      · exact absurd (heq ▸ hlt) (Nat.lt_irrefl _)
      · exact hplace other hold
    · rw [hskipped] at hin
      rw [hcreated]
      exact (h.passed request hin).trans (Nat.lt_succ_self _)

/-- A new medium is bound if there is no handler at its address. -/
theorem Bound.createMedium_iff (h : s.Bound) (htracked : s.Tracked) :
    (s.createMedium address).Bound ↔
      (s.media address = none → s.requestHandlers address = none) := by
  cases hfree : s.media address with
  | some medium =>
    rw [createMedium_of_some hfree]
    exact iff_of_true h nofun
  | none =>
    obtain ⟨hidentity, -, hhandlers, hexecuted, hskipped⟩ := createMedium_of_none hfree
    constructor
    · intro hbound _
      refine Option.eq_none_iff_forall_ne_some.mpr fun handler hhandler => ?_
      have hat : (s.createMedium address).identityAt address = some s.created := by
        rw [hidentity, Function.update_self]
      have hvalid := (hbound.live address _ handler hat (hhandlers ▸ hhandler)).1
      exact htracked.not_valid hfree hhandler hvalid
    · intro hnone
      refine ⟨fun address' medium handler hat hhandler => ?_, ?_, fun request hin address' hat => ?_⟩
      · rw [hhandlers] at hhandler
        have hne : address' ≠ address := by
          rintro rfl
          rw [hnone rfl] at hhandler
          cases hhandler
        rw [hidentity, Function.update_of_ne hne] at hat
        exact h.live address' medium handler hat hhandler
      · rw [hexecuted]
        exact h.executed
      · rw [hskipped] at hin
        rw [hidentity] at hat
        by_cases hsame : address' = address
        · rw [hsame, Function.update_self] at hat
          exact absurd (htracked.passed request hin) (Option.some.inj hat ▸ Nat.lt_irrefl _)
        · rw [Function.update_of_ne hsame] at hat
          exact h.skipped request hin address' hat

theorem deleteMedium_cases (s : CActionHandler ρ) (address : ℕ) :
    s.deleteMedium address = s ∨ ∃ medium, s.identityAt address = some medium ∧
      (s.deleteMedium address).identityAt = Function.update s.identityAt address none ∧
      (s.deleteMedium address).created = s.created ∧
      (s.deleteMedium address).requestHandlers = Function.update s.requestHandlers address
        ((s.requestHandlers address).map (setInvalid medium)) ∧
      (s.deleteMedium address).executed = s.executed ∧
      (s.deleteMedium address).skipped = s.skipped := by
  unfold deleteMedium
  split
  case h_1 => exact .inl rfl
  case h_2 medium hmedium =>
    refine .inr ⟨medium.identity, by rw [identityAt, hmedium, Option.map_some], ?_, rfl, rfl, rfl, rfl⟩
    funext address'
    by_cases hsame : address' = address
    · subst hsame
      simp [identityAt]
    · simp [identityAt, Function.update_of_ne hsame]

theorem setInvalid_cases (medium : ℕ) (handler : CRequestHandler) :
    (setInvalid medium handler).usedMedium = handler.usedMedium ∧
      (setInvalid medium handler).newRequest = handler.newRequest ∧
      ((setInvalid medium handler).valid = true ↔
        handler.valid = true ∧ handler.usedMedium ≠ medium) := by
  unfold setInvalid
  split
  case isTrue heq => simp [heq]
  case isFalse hne => simp [hne]

theorem Tracked.deleteMedium (h : s.Tracked) (address : ℕ) : (s.deleteMedium address).Tracked := by
  obtain hsame | ⟨medium, hmedium, hidentity, hcreated, hhandlers, -, hskipped⟩ :=
    deleteMedium_cases s address
  · rwa [hsame]
  · have hat : ∀ address' other, (s.deleteMedium address).identityAt address' = some other →
        s.identityAt address' = some other := by
      intro address' other hother
      rw [hidentity] at hother
      by_cases hsame : address' = address
      · rw [hsame, Function.update_self] at hother
        cases hother
      · rwa [Function.update_of_ne hsame] at hother
    have hold : ∀ address' handler,
        (s.deleteMedium address).requestHandlers address' = some handler →
          ∃ old, s.requestHandlers address' = some old ∧ handler.usedMedium = old.usedMedium ∧
            handler.newRequest = old.newRequest ∧
            (handler.valid = true → old.valid = true ∧ address' ≠ address) := by
      intro address' handler hhandler
      rw [hhandlers] at hhandler
      by_cases hsame : address' = address
      · subst hsame
        rw [Function.update_self] at hhandler
        obtain ⟨old, hold, rfl⟩ := Option.map_eq_some_iff.mp hhandler
        obtain ⟨hused, hnew, hvalid⟩ := setInvalid_cases medium old
        refine ⟨old, hold, hused, hnew, fun hv => ?_⟩
        obtain ⟨hv', hne⟩ := hvalid.mp hv
        have hbound := h.bound address' old hold hv'
        rw [hmedium] at hbound
        exact absurd (Option.some.inj hbound).symm hne
      · rw [Function.update_of_ne hsame] at hhandler
        exact ⟨handler, hhandler, rfl, rfl, fun hv => ⟨hv, hsame⟩⟩
    refine ⟨fun address' other hother => ?_, fun first second other hfirst hsecond => ?_,
      fun address' handler hhandler hvalid => ?_, fun address' handler hhandler => ?_,
      fun address' handler hhandler request hin => ?_, fun request hin => ?_⟩
    · rw [hcreated]
      exact h.fresh address' other (hat _ _ hother)
    · exact h.distinct first second other (hat _ _ hfirst) (hat _ _ hsecond)
    · obtain ⟨old, hold', hused, -, hstays⟩ := hold address' handler hhandler
      obtain ⟨hv, hne⟩ := hstays hvalid
      rw [hidentity, Function.update_of_ne hne, hused]
      exact h.bound address' old hold' hv
    · obtain ⟨old, hold', hused, -, -⟩ := hold address' handler hhandler
      rw [hcreated, hused]
      exact h.made address' old hold'
    · obtain ⟨old, hold', hused, hnew, hstays⟩ := hold address' handler hhandler
      obtain ⟨hlt, hplace, hvalid⟩ := h.pending address' old hold' request (hnew ▸ hin)
      rw [hcreated, hused]
      exact ⟨hlt, fun other hother => hplace other (hat _ _ hother), fun hv => hvalid (hstays hv).1⟩
    · rw [hskipped] at hin
      rw [hcreated]
      exact h.passed request hin

theorem Bound.deleteMedium (h : s.Bound) (address : ℕ) : (s.deleteMedium address).Bound := by
  obtain hsame | ⟨medium, -, hidentity, -, hhandlers, hexecuted, hskipped⟩ :=
    deleteMedium_cases s address
  · rwa [hsame]
  · refine ⟨fun address' other handler hat hhandler => ?_, ?_, fun request hin address' hat => ?_⟩
    · rw [hidentity] at hat
      rw [hhandlers] at hhandler
      have hne : address' ≠ address := by
        rintro rfl
        rw [Function.update_self] at hat
        cases hat
      rw [Function.update_of_ne hne] at hat hhandler
      exact h.live address' other handler hat hhandler
    · rw [hexecuted]
      exact h.executed
    · rw [hskipped] at hin
      rw [hidentity] at hat
      by_cases hsame : address' = address
      · rw [hsame, Function.update_self] at hat
        cases hat
      · rw [Function.update_of_ne hsame] at hat
        exact h.skipped request hin address' hat

end Media

section Requests

variable {s t : CActionHandler ρ} {address : ℕ}

theorem useHandler_cases (request : CRequest) (s : CActionHandler ρ) (address : ℕ) :
    useHandler request s address = s ∨ ∃ medium handler, s.identityAt address = some medium ∧
      (s.requestHandlers address = some handler ∨ handler = ⟨true, medium, []⟩ ∧
        s.requestHandlers address = none) ∧
      (useHandler request s address).identityAt = s.identityAt ∧
      (useHandler request s address).created = s.created ∧
      (useHandler request s address).requestHandlers = Function.update s.requestHandlers address
        (some { handler with newRequest := handler.newRequest ++ [(request, medium)] }) ∧
      (useHandler request s address).executed = s.executed ∧
      (useHandler request s address).skipped = s.skipped := by
  unfold useHandler
  split
  case h_1 => exact .inl rfl
  case h_2 medium hmedium =>
    refine .inr ⟨medium.identity, (s.requestHandlers address).getD ⟨true, medium.identity, []⟩,
      by rw [identityAt, hmedium, Option.map_some], ?_, rfl, rfl, rfl, rfl, rfl⟩
    cases s.requestHandlers address with
    | none => exact .inr ⟨rfl, rfl⟩
    | some handler => exact .inl rfl

theorem Tracked.useHandler (h : s.Tracked) (request : CRequest) (address : ℕ) :
    (useHandler request s address).Tracked := by
  obtain hsame | ⟨medium, handler, hmedium, hhandler, hidentity, hcreated, hhandlers, -, hskipped⟩ :=
    useHandler_cases request s address
  · rwa [hsame]
  · have hlt := h.fresh address medium hmedium
    -- the handler was tracked, or it is the one that is made for the medium
    have hused : handler.usedMedium < s.created ∧
        (handler.valid = true → handler.usedMedium = medium) ∧
        ∀ pending ∈ handler.newRequest, pending.2 < s.created ∧
          (∀ address', s.identityAt address' = some pending.2 → address' = address) ∧
          (handler.valid = true → pending.2 = handler.usedMedium) := by
      obtain hold | ⟨rfl, -⟩ := hhandler
      · refine ⟨h.made address handler hold, fun hvalid => ?_, h.pending address handler hold⟩
        have hbound := h.bound address handler hold hvalid
        rw [hmedium] at hbound
        exact (Option.some.inj hbound).symm
      · exact ⟨hlt, fun _ => rfl, nofun⟩
    obtain ⟨hmade, hvalid, hpending⟩ := hused
    refine ⟨?_, ?_, fun address' other hother hv => ?_, fun address' other hother => ?_,
      fun address' other hother pending hin => ?_, ?_⟩
    · rw [hidentity, hcreated]
      exact h.fresh
    · rw [hidentity]
      exact h.distinct
    · rw [hhandlers] at hother
      rw [hidentity]
      by_cases hsame : address' = address
      · rw [hsame, Function.update_self] at hother
        cases hother
        rw [hsame, hmedium]
        exact congrArg some (hvalid hv).symm
      · rw [Function.update_of_ne hsame] at hother
        exact h.bound address' other hother hv
    · rw [hhandlers] at hother
      rw [hcreated]
      by_cases hsame : address' = address
      · rw [hsame, Function.update_self] at hother
        cases hother
        exact hmade
      · rw [Function.update_of_ne hsame] at hother
        exact h.made address' other hother
    · rw [hhandlers] at hother
      rw [hidentity, hcreated]
      by_cases hsame : address' = address
      · subst hsame
        rw [Function.update_self] at hother
        cases hother
        obtain hold | hnew := List.mem_append.mp hin
        · exact hpending pending hold
        · rw [List.mem_singleton.mp hnew]
          exact ⟨hlt, fun other hother => h.distinct address' other medium hmedium hother,
            fun hv => (hvalid hv).symm⟩
      · rw [Function.update_of_ne hsame] at hother
        exact h.pending address' other hother pending hin
    · rw [hskipped, hcreated]
      exact h.passed

theorem Bound.useHandler (h : s.Bound) (request : CRequest) (address : ℕ) :
    (useHandler request s address).Bound := by
  obtain hsame | ⟨medium, handler, hmedium, hhandler, hidentity, -, hhandlers, hexecuted, hskipped⟩ :=
    useHandler_cases request s address
  · rwa [hsame]
  · refine ⟨fun address' other found hat hfound => ?_, ?_, ?_⟩
    · rw [hidentity] at hat
      rw [hhandlers] at hfound
      by_cases hsame : address' = address
      · rw [hsame, Function.update_self] at hfound
        cases hfound
        rw [hsame, hmedium] at hat
        cases hat
        obtain hold | ⟨rfl, -⟩ := hhandler
        · exact h.live address medium handler hmedium hold
        · exact ⟨rfl, rfl⟩
      · rw [Function.update_of_ne hsame] at hfound
        exact h.live address' other found hat hfound
    · rw [hexecuted]
      exact h.executed
    · rw [hidentity, hskipped]
      exact h.skipped

theorem service_induction {P : CActionHandler ρ → Prop}
    (hsame : ∀ s t, SameBinding s t → P s → P t)
    (huse : ∀ s request address, P s → P (useHandler request s address)) (hs : P s) (address : ℕ)
    (mediums : CRequest → List ℕ) : P (s.service address mediums) := by
  unfold service
  split
  case h_1 => exact hs
  case h_2 action _ =>
    split
    · exact hsame _ _ (sameBinding_cleanUp s action) hs
    · refine action.combined.foldlRecOn (submit mediums) hs fun t ht request _ => ?_
      unfold submit
      split
      · exact ht
      · exact (mediums request).foldlRecOn (CActionHandler.useHandler request) ht
          fun u hu address _ => huse u request address hu

theorem foldl_runRequest (address : ℕ) (requests : List (CRequest × ℕ)) (s : CActionHandler ρ) :
    (requests.foldl (runRequest address) s).identityAt = s.identityAt ∧
      (requests.foldl (runRequest address) s).created = s.created ∧
      (requests.foldl (runRequest address) s).requestHandlers = s.requestHandlers ∧
      (requests.foldl (runRequest address) s).executed = s.executed ++
        requests.map (fun request => ⟨request.1, request.2, s.identityAt address⟩) ∧
      (requests.foldl (runRequest address) s).skipped = s.skipped := by
  induction requests generalizing s with
  | nil => simp
  | cons request requests ih =>
    have hfirst := sameBinding_modifyMedium s address (·.add request.1)
    obtain ⟨hidentity, hcreated, hhandlers, hexecuted, hskipped⟩ := ih (runRequest address s request)
    have hat : (runRequest address s request).identityAt = s.identityAt := hfirst.identityAt
    rw [List.foldl_cons]
    refine ⟨hidentity.trans hat, hcreated.trans hfirst.created,
      hhandlers.trans hfirst.requestHandlers, ?_, hskipped.trans hfirst.skipped⟩
    rw [hexecuted, hat, List.map_cons, List.append_cons]
    rfl

theorem runRequests_cases (s : CActionHandler ρ) (address : ℕ) :
    s.runRequests address = s ∨ ∃ handler, s.requestHandlers address = some handler ∧
      (s.runRequests address).identityAt = s.identityAt ∧
      (s.runRequests address).created = s.created ∧
      (s.runRequests address).requestHandlers = Function.update s.requestHandlers address
        (some { handler with newRequest := [] }) ∧
      (handler.valid = true ∧ (s.runRequests address).skipped = s.skipped ∧
          (s.runRequests address).executed = s.executed ++ handler.newRequest.map
            (fun request => ⟨request.1, request.2, s.identityAt address⟩) ∨
        handler.valid = false ∧ (s.runRequests address).executed = s.executed ∧
          (s.runRequests address).skipped = s.skipped ++ handler.newRequest) := by
  unfold runRequests
  split
  case h_1 => exact .inl rfl
  case h_2 handler hhandler =>
    refine .inr ⟨handler, hhandler, ?_⟩
    cases hvalid : handler.valid with
    | true =>
      obtain ⟨hidentity, hcreated, hhandlers, hexecuted, hskipped⟩ :=
        foldl_runRequest address handler.newRequest s
      simp only [if_true]
      refine ⟨hidentity, hcreated, ?_, .inl ⟨trivial, hskipped, hexecuted⟩⟩
      rw [hhandlers]
    | false =>
      simp only [Bool.false_eq_true, if_false]
      exact ⟨rfl, trivial, trivial, .inr ⟨trivial, trivial, trivial⟩⟩

theorem Tracked.runRequests (h : s.Tracked) (address : ℕ) : (s.runRequests address).Tracked := by
  obtain hsame | ⟨handler, hhandler, hidentity, hcreated, hhandlers, hlog⟩ :=
    runRequests_cases s address
  · rwa [hsame]
  · have hold : ∀ address' found, (s.runRequests address).requestHandlers address' = some found →
        ∃ old, s.requestHandlers address' = some old ∧ found.valid = old.valid ∧
          found.usedMedium = old.usedMedium ∧ ∀ request ∈ found.newRequest, request ∈ old.newRequest := by
      intro address' found hfound
      rw [hhandlers] at hfound
      by_cases hsame : address' = address
      · rw [hsame, Function.update_self] at hfound
        cases hfound
        exact ⟨handler, hsame ▸ hhandler, rfl, rfl, nofun⟩
      · rw [Function.update_of_ne hsame] at hfound
        exact ⟨found, hfound, rfl, rfl, fun _ => id⟩
    refine ⟨?_, ?_, fun address' found hfound hvalid => ?_, fun address' found hfound => ?_,
      fun address' found hfound request hin => ?_, fun request hin => ?_⟩
    · rw [hidentity, hcreated]
      exact h.fresh
    · rw [hidentity]
      exact h.distinct
    · obtain ⟨old, hold', hv, hused, -⟩ := hold address' found hfound
      rw [hidentity, hused]
      exact h.bound address' old hold' (hv ▸ hvalid)
    · obtain ⟨old, hold', -, hused, -⟩ := hold address' found hfound
      rw [hcreated, hused]
      exact h.made address' old hold'
    · obtain ⟨old, hold', hv, hused, hsub⟩ := hold address' found hfound
      rw [hidentity, hcreated, hv, hused]
      exact h.pending address' old hold' request (hsub request hin)
    · rw [hcreated]
      obtain ⟨-, hskipped, -⟩ | ⟨-, -, hskipped⟩ := hlog
      · rw [hskipped] at hin
        exact h.passed request hin
      · rw [hskipped] at hin
        obtain hold' | hnew := List.mem_append.mp hin
        · exact h.passed request hold'
        · exact (h.pending address handler hhandler request hnew).1

theorem Bound.runRequests (h : s.Bound) (htracked : s.Tracked) (address : ℕ) :
    (s.runRequests address).Bound := by
  obtain hsame | ⟨handler, hhandler, hidentity, hcreated, hhandlers, hlog⟩ :=
    runRequests_cases s address
  · rwa [hsame]
  · refine ⟨fun address' medium found hat hfound => ?_, fun execution hin => ?_,
      fun request hin address' hat => ?_⟩
    · rw [hidentity] at hat
      rw [hhandlers] at hfound
      by_cases hsame : address' = address
      · rw [hsame, Function.update_self] at hfound
        cases hfound
        exact h.live address' medium handler hat (hsame ▸ hhandler)
      · rw [Function.update_of_ne hsame] at hfound
        exact h.live address' medium found hat hfound
    · obtain ⟨hvalid, -, hexecuted⟩ | ⟨-, hexecuted, -⟩ := hlog
      · rw [hexecuted] at hin
        obtain hold | hnew := List.mem_append.mp hin
        · exact h.executed execution hold
        · obtain ⟨request, hrequest, rfl⟩ := List.mem_map.mp hnew
          have hused := (htracked.pending address handler hhandler request hrequest).2.2 hvalid
          change s.identityAt address = some request.2
          rw [hused]
          exact htracked.bound address handler hhandler hvalid
      · rw [hexecuted] at hin
        exact h.executed execution hin
    · rw [hidentity] at hat
      obtain ⟨-, hskipped, -⟩ | ⟨hvalid, -, hskipped⟩ := hlog
      · rw [hskipped] at hin
        exact h.skipped request hin address' hat
      · rw [hskipped] at hin
        obtain hold | hnew := List.mem_append.mp hin
        · exact h.skipped request hold address' hat
        · obtain rfl := (htracked.pending address handler hhandler request hnew).2.1 address' hat
          have hlive := (h.live address' _ handler hat hhandler).1
          rw [hvalid] at hlive
          cases hlive

end Requests

section Runs

variable {s t : CActionHandler ρ}

/-- A step makes or deletes a medium, services an action or runs requests, or leaves the
handlers as they are. -/
theorem react_cases {event : Event ρ} (h : s.react event = some t) :
    (∃ address, event = .createMedium address ∧ t = s.createMedium address) ∨
    (∃ address, t = s.deleteMedium address) ∨
    (∃ address mediums, t = s.service address mediums) ∨
    (∃ address, t = s.runRequests address) ∨ SameBinding s t := by
  cases event with
  | createMedium address =>
    cases h
    exact .inl ⟨address, rfl, rfl⟩
  | deleteMedium address =>
    cases h
    exact .inr (.inl ⟨address, rfl⟩)
  | message address actionKey id direct response =>
    cases h
    exact .inr (.inr (.inr (.inr (sameBinding_message ..))))
  | executeAction address actionKey =>
    cases h
    exact .inr (.inr (.inr (.inr (sameBinding_executeAction ..))))
  | addRequest address request =>
    cases h
    exact .inr (.inr (.inr (.inr (sameBinding_addRequest ..))))
  | forgetRequests address =>
    cases h
    exact .inr (.inr (.inr (.inr ⟨rfl, rfl, rfl, rfl, rfl⟩)))
  | setExit address =>
    cases h
    exact .inr (.inr (.inr (.inr ⟨rfl, rfl, rfl, rfl, rfl⟩)))
  | service address mediums =>
    cases h
    split
    · exact .inr (.inr (.inl ⟨address, mediums, rfl⟩))
    · exact .inr (.inr (.inr (.inr (.refl s))))
  | destroy address =>
    cases h
    exact .inr (.inr (.inr (.inr (sameBinding_destroy ..))))
  | getDirectActionResponse address action =>
    cases h
    split
    · exact .inr (.inr (.inr (.inr (sameBinding_getDirectActionResponse ..))))
    · exact .inr (.inr (.inr (.inr (.refl s))))
  | processMediumResponses address =>
    rw [react] at h
    split at h
    · exact .inr (.inr (.inr (.inr (sameBinding_processMediumResponses h))))
    · cases h
      exact .inr (.inr (.inr (.inr (.refl s))))
  | runRequests address =>
    cases h
    split
    · exact .inr (.inr (.inr (.inl ⟨address, rfl⟩)))
    · exact .inr (.inr (.inr (.inr (.refl s))))
  | next =>
    cases h
    exact .inr (.inr (.inr (.inr (sameBinding_next s))))

theorem Tracked.react {event : Event ρ} (h : s.Tracked) (hreact : s.react event = some t) :
    t.Tracked := by
  obtain ⟨address, -, rfl⟩ | ⟨address, rfl⟩ | ⟨address, mediums, rfl⟩ | ⟨address, rfl⟩ | hsame :=
    react_cases hreact
  · exact h.createMedium address
  · exact h.deleteMedium address
  · exact service_induction (fun _ _ hsame hs => hs.same hsame)
      (fun _ request address hs => hs.useHandler request address) h address mediums
  · exact h.runRequests address
  · exact h.same hsame

theorem Bound.react {event : Event ρ} (h : s.Bound) (htracked : s.Tracked)
    (hreact : s.react event = some t) (hother : ∀ address, event ≠ .createMedium address) :
    t.Bound := by
  obtain ⟨address, heq, -⟩ | ⟨address, rfl⟩ | ⟨address, mediums, rfl⟩ | ⟨address, rfl⟩ | hsame :=
    react_cases hreact
  · exact absurd heq (hother address)
  · exact h.deleteMedium address
  · exact service_induction (fun _ _ hsame hs => hs.same hsame)
      (fun _ request address hs => hs.useHandler request address) h address mediums
  · exact h.runRequests htracked address
  · exact h.same hsame

def AllTracked (s : Option (CActionHandler ρ)) : Prop := ∀ t, s = some t → t.Tracked

def AllBound (s : Option (CActionHandler ρ)) : Prop := ∀ t, s = some t → t.Bound

theorem AllTracked.step {s : Option (CActionHandler ρ)} (h : AllTracked s) (event : Event ρ) :
    AllTracked (step s event) := by
  intro t ht
  obtain ⟨s', rfl, hreact⟩ := Option.bind_eq_some_iff.mp ht
  exact (h s' rfl).react hreact

theorem allBound_step_iff {s : Option (CActionHandler ρ)} (htracked : AllTracked s)
    (h : AllBound s) (event : Event ρ) : AllBound (step s event) ↔ Unreused s event := by
  by_cases hcreate : ∃ address, event = .createMedium address
  · obtain ⟨address, rfl⟩ := hcreate
    cases s with
    | none => exact iff_of_true nofun nofun
    | some s =>
      have hiff : (s.createMedium address).Bound ↔
          (s.media address = none → s.requestHandlers address = none) :=
        (h s rfl).createMedium_iff (htracked s rfl)
      constructor
      · intro hall t ht
        cases ht
        exact hiff.mp (hall _ rfl)
      · intro hunused t ht
        cases ht
        exact hiff.mpr (hunused s rfl)
  · have hother : ∀ address, event ≠ .createMedium address := fun address heq =>
      hcreate ⟨address, heq⟩
    refine iff_of_true (fun t ht => ?_) ?_
    · obtain ⟨s', rfl, hreact⟩ := Option.bind_eq_some_iff.mp ht
      exact (h s' rfl).react (htracked s' rfl) hreact hother
    · cases event with
      | createMedium address => exact absurd rfl (hother address)
      | _ => trivial

theorem tracked_init : (init : CActionHandler ρ).Tracked :=
  ⟨nofun, nofun, nofun, nofun, nofun, nofun⟩

theorem bound_init : (init : CActionHandler ρ).Bound := ⟨nofun, nofun, nofun⟩

/-- The handlers are bound in every state of a run if and only if no medium is made at the
address of a handler that is left. -/
theorem handlers_bound_iff (events : List (Event ρ)) :
    (∀ past s, past <+: events → GuardedRun.run step (some init) past = some s → s.Bound) ↔
      GuardedRun.Guarded step Unreused (some (init : CActionHandler ρ)) events := by
  have htracked : AllTracked (some (init : CActionHandler ρ)) := by
    intro t ht
    cases ht
    exact tracked_init
  have hbound : AllBound (some (init : CActionHandler ρ)) := by
    intro t ht
    cases ht
    exact bound_init
  have hstep : ∀ (s : Option (CActionHandler ρ)) event, AllTracked s → AllTracked (step s event) :=
    fun _ event h => h.step event
  have hok : ∀ (s : Option (CActionHandler ρ)) event, AllTracked s → AllBound s →
      (AllBound (step s event) ↔ Unreused s event) := fun _ event htracked h =>
    allBound_step_iff htracked h event
  rw [← GuardedRun.always_iff hstep hok htracked hbound]
  exact ⟨fun h past hpast s => h past s hpast, fun h past s hpast => h past hpast s⟩

end Runs

end CActionHandler

namespace ReusedAddress
open CActionHandler

def request : CRequest := ⟨1, 1⟩

/-- One turn of the loop, with a filter that gives the medium at the address 5. -/
def turn (action : ℕ) : List (Event Unit) :=
  [.service action fun _ => [5], .next, .next, .runRequests 5, .next]

/-- A node is connected after another one has gone, and its medium gets the same address. -/
def events : List (Event Unit) :=
  [.createMedium 5, .executeAction 1 7, .addRequest 1 request] ++ turn 1 ++
    [.deleteMedium 5, .createMedium 5, .executeAction 2 8, .addRequest 2 ⟨2, 2⟩] ++ turn 2

theorem request_skipped : ¬ ∀ events s,
    GuardedRun.run step (some (CActionHandler.init : CActionHandler Unit)) events = some s →
      s.Bound := by
  intro h
  have hbound := h events _ rfl
  exact hbound.skipped (⟨2, 2⟩, 1) (by decide) 5 rfl

end ReusedAddress

end Dims
