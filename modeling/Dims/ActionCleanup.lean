import Dims.HandlerBinding

/-!
# What a finished action leaves on the media

When an action is deleted, what the media keep of it is removed through the handlers that
its requests have used. What came for it on another medium, or comes afterwards under an
identifier of its requests, stays.
-/

namespace Dims
open CNodeMedium

/-- What a medium keeps under an identifier: a place in the queue, responses and requests, or
responses that are for an action directly. -/
inductive MediumEntry
  | queue
  | request
  | action

namespace CNodeMedium

variable {ρ : Type} {m : CNodeMedium ρ} {id : Uint256}

def Keeps (m : CNodeMedium ρ) : MediumEntry → Uint256 → Prop
  | .queue, id => id ∈ m.synchronizeQueue
  | .request, id => id ∈ m.responses.map Prod.fst ∨ m.idToRequest id ≠ none
  | .action, id => id ∈ m.actionToResponse.map Prod.fst

theorem not_keeps_empty (entry : MediumEntry) : ¬(empty : CNodeMedium ρ).Keeps entry id := by
  cases entry <;> simp [Keeps, empty]

theorem keeps_add {request : CRequest} {entry : MediumEntry}
    (h : (m.add request).Keeps entry id) : m.Keeps entry id ∨ id = request.getId := by
  cases entry with
  | queue => exact .inl h
  | action => exact .inl h
  | request =>
    by_cases heq : id = request.getId
    · exact .inr heq
    · refine .inl (h.imp_right fun hmapped => ?_)
      simp only [add, setLastRequest, Function.update_of_ne heq] at hmapped
      exact hmapped

theorem keeps_setResponse {id' : Uint256} {response : ρ} {entry : MediumEntry}
    (h : (m.setResponse id' response).Keeps entry id) : m.Keeps entry id ∨ id = id' := by
  cases entry with
  | action => exact .inl h
  | queue => exact (List.mem_append.mp h).imp_right List.mem_singleton.mp
  | request =>
    obtain hresponse | hmapped := h
    · rw [setResponse, List.map_append] at hresponse
      exact (List.mem_append.mp hresponse).imp .inl List.mem_singleton.mp
    · exact .inl (.inr hmapped)

theorem keeps_addActionResponse {actionId : Uint256} {response : ρ} {entry : MediumEntry}
    (h : (m.addActionResponse actionId response).Keeps entry id) :
    m.Keeps entry id ∨ id = actionId := by
  cases entry with
  | request => exact .inl h
  | queue => exact (List.mem_append.mp h).imp_right List.mem_singleton.mp
  | action =>
    rw [Keeps, addActionResponse, List.map_append] at h
    exact (List.mem_append.mp h).imp_right List.mem_singleton.mp

theorem mem_eraseKey {id' : Uint256} {responses : List (Uint256 × ρ)} :
    id ∈ (eraseKey id' responses).map Prod.fst ↔ id ∈ responses.map Prod.fst ∧ id ≠ id' := by
  simp only [eraseKey, List.mem_map, List.mem_filter, decide_eq_true_eq]
  constructor
  · rintro ⟨response, ⟨hin, hne⟩, rfl⟩
    exact ⟨⟨response, hin, rfl⟩, hne⟩
  · rintro ⟨⟨response, hin, rfl⟩, hne⟩
    exact ⟨response, ⟨hin, hne⟩, rfl⟩

theorem keeps_getDirectActionResponseAndClear {actionKey : Uint256} {entry : MediumEntry}
    (h : (m.getDirectActionResponseAndClear actionKey).1.Keeps entry id) : m.Keeps entry id := by
  unfold getDirectActionResponseAndClear at h
  split at h
  case h_1 => exact h
  case h_2 front queue hqueue =>
    split at h
    · exact h
    · cases entry with
      | queue =>
        rw [Keeps, hqueue]
        exact List.mem_cons_of_mem _ h
      | request => exact h
      | action => exact (mem_eraseKey.mp h).1

theorem keeps_getResponseAndClear {read : CNodeMedium ρ × List (CRequest × ρ)}
    {entry : MediumEntry} (hread : m.getResponseAndClear = .ok read)
    (h : read.1.Keeps entry id) : m.Keeps entry id := by
  have hcollectable := m.collectable_of_getResponseAndClear hread
  rw [m.getResponseAndClear_of_collectable hcollectable] at hread
  cases hread
  cases entry with
  | queue => exact List.mem_of_mem_drop h
  | action => exact h
  | request =>
    obtain hresponse | hmapped := h
    · obtain ⟨response, hin, rfl⟩ := List.mem_map.mp hresponse
      exact .inl (List.mem_map_of_mem (List.mem_filter.mp hin).1)
    · exact .inr hmapped

/-- What is removed when a handler of the request is released for the action. -/
def Drops (action : CAction) (request : CRequest) : MediumEntry → Uint256 → Prop
  | .queue, id => id = action.actionKey ∨ id = request.getId
  | .request, id => id = request.getId
  | .action, id => id = action.actionKey

theorem keeps_release_iff {action : CAction} {request : CRequest} {entry : MediumEntry} :
    ((m.deleteAction action.actionKey).deleteRequest request).Keeps entry id ↔
      m.Keeps entry id ∧ ¬Drops action request entry id := by
  cases entry with
  | queue =>
    simp only [Keeps, Drops, deleteAction, deleteRequest, List.mem_filter, decide_eq_true_eq, not_or,
      ne_eq, and_assoc]
  | action => exact mem_eraseKey
  | request =>
    have hmapped : Function.update m.idToRequest request.getId none id ≠ none ↔
        m.idToRequest id ≠ none ∧ id ≠ request.getId := by
      by_cases heq : id = request.getId
      · simp [heq]
      · simp [heq]
    simp only [Keeps, Drops, deleteAction, deleteRequest, mem_eraseKey, hmapped, or_and_right]

end CNodeMedium

namespace CActionHandler

variable {ρ : Type}

def nodeAt (s : CActionHandler ρ) (address : ℕ) : Option (CNodeMedium ρ) :=
  (s.media address).map LiveMedium.node

def Keeps (s : CActionHandler ρ) (address : ℕ) (entry : MediumEntry) (id : Uint256) : Prop :=
  ∃ medium, s.nodeAt address = some medium ∧ medium.Keeps entry id

/-- The identifier belongs to an action that is cleaned up, and to none that is in progress. -/
def Dead (s : CActionHandler ρ) (id : Uint256) : Prop :=
  id ∈ s.retired ∧ ∀ action ∈ s.actions, id ∉ action.ids

/-- No medium keeps anything of an action that is cleaned up. -/
def Clean (s : CActionHandler ρ) : Prop :=
  ∀ id, s.Dead id → ∀ address entry, ¬s.Keeps address entry id

/-- The handler at an address is released for a request of the action. -/
def Releases (s : CActionHandler ρ) (action : CAction) (address : ℕ) (request : CRequest) : Prop :=
  request ∈ action.combined ∧ (request, address) ∈ s.currentlyUsedHandlers ∧
    (s.validHandler address).isSome

/-- What the media keep of an action alone is under identifiers for which a handler of the
medium is released. -/
def Reached (s : CActionHandler ρ) (action : CAction) : Prop :=
  ∀ id ∈ action.ids, (∀ other ∈ s.actions, other.address ≠ action.address → id ∉ other.ids) →
    ∀ address entry, s.Keeps address entry id →
      ∃ request, s.Releases action address request ∧ Drops action request entry id

/-- An action that is cleaned up is reached on all media, and no message comes under an
identifier of an action that has been cleaned up. -/
def Contained (s : Option (CActionHandler ρ)) : Event ρ → Prop
  | .message address actionKey id direct _ => ∀ t, s = some t →
    actionKey ∈ t.actionsInProgress → (t.media address).isSome →
      ¬t.Dead (if direct then actionKey else id)
  | .service address _ => ∀ t, s = some t → t.phase = .acting → ∀ action,
    t.actions.find? (·.address = address) = some action → action.needToExit t.processed →
      t.Reached action
  | _ => True

section Media

variable {s t : CActionHandler ρ} {address address' : ℕ} {entry : MediumEntry} {id : Uint256}

theorem modifyMedium_eq (s : CActionHandler ρ) (address : ℕ) (f : CNodeMedium ρ → CNodeMedium ρ) :
    ∃ media, s.modifyMedium address f = { s with media := media } := by
  unfold modifyMedium
  split
  · exact ⟨s.media, rfl⟩
  · exact ⟨_, rfl⟩

theorem nodeAt_modifyMedium (f : CNodeMedium ρ → CNodeMedium ρ) :
    (s.modifyMedium address f).nodeAt =
      Function.update s.nodeAt address ((s.nodeAt address).map f) := by
  funext address'
  unfold modifyMedium
  split
  case h_1 hnone =>
    by_cases heq : address' = address
    · subst heq
      simp [nodeAt, hnone]
    · rw [Function.update_of_ne heq]
  case h_2 medium hmedium =>
    by_cases heq : address' = address
    · subst heq
      simp [nodeAt, hmedium]
    · simp [nodeAt, Function.update_of_ne heq]

theorem keeps_modifyMedium_self {f : CNodeMedium ρ → CNodeMedium ρ} :
    (s.modifyMedium address f).Keeps address entry id ↔
      ∃ medium, s.nodeAt address = some medium ∧ (f medium).Keeps entry id := by
  simp only [Keeps, nodeAt_modifyMedium, Function.update_self, Option.map_eq_some_iff]
  constructor
  · rintro ⟨-, ⟨medium, hmedium, rfl⟩, hkeeps⟩
    exact ⟨medium, hmedium, hkeeps⟩
  · rintro ⟨medium, hmedium, hkeeps⟩
    exact ⟨f medium, ⟨medium, hmedium, rfl⟩, hkeeps⟩

theorem keeps_modifyMedium_of_ne {f : CNodeMedium ρ → CNodeMedium ρ} (h : address' ≠ address) :
    (s.modifyMedium address f).Keeps address' entry id ↔ s.Keeps address' entry id := by
  simp only [Keeps, nodeAt_modifyMedium, Function.update_of_ne h]

theorem keeps_of_modifyMedium {f : CNodeMedium ρ → CNodeMedium ρ} {P : Uint256 → Prop}
    (hf : ∀ medium entry id, (f medium).Keeps entry id → medium.Keeps entry id ∨ P id)
    (h : (s.modifyMedium address f).Keeps address' entry id) :
    s.Keeps address' entry id ∨ (s.nodeAt address).isSome ∧ P id := by
  by_cases heq : address' = address
  · subst heq
    obtain ⟨medium, hmedium, hkeeps⟩ := keeps_modifyMedium_self.mp h
    obtain hold | hnew := hf medium entry id hkeeps
    · exact .inl ⟨medium, hmedium, hold⟩
    · exact .inr ⟨Option.isSome_iff_exists.mpr ⟨medium, hmedium⟩, hnew⟩
  · exact .inl ((keeps_modifyMedium_of_ne heq).mp h)

theorem Clean.mono (h : s.Clean) (hdead : ∀ id, t.Dead id → s.Dead id)
    (hkeeps : ∀ address entry id, t.Keeps address entry id → t.Dead id →
      s.Keeps address entry id) : t.Clean := fun id hid address entry hkept =>
  h id (hdead id hid) address entry (hkeeps address entry id hkept hid)

theorem Clean.reduce (h : s.Clean) (hactions : t.actions = s.actions)
    (hretired : t.retired = s.retired)
    (hkeeps : ∀ address entry id, t.Keeps address entry id → s.Keeps address entry id) :
    t.Clean := by
  refine h.mono (fun id hdead => ?_) fun address entry id hkept _ => hkeeps address entry id hkept
  rwa [Dead, hactions, hretired] at hdead

end Media

section Release

variable {s t u : CActionHandler ρ} {action : CAction}

/-- What is kept has been reduced by what is dropped for requests at the addresses. -/
def Released (action : CAction) (P : ℕ → CRequest → Prop) (s t : CActionHandler ρ) : Prop :=
  ∀ address entry id, t.Keeps address entry id ↔
    s.Keeps address entry id ∧ ∀ request, P address request → ¬Drops action request entry id

theorem Released.trans {P Q : ℕ → CRequest → Prop} (h : Released action P s t)
    (h' : Released action Q t u) :
    Released action (fun address request => P address request ∨ Q address request) s u := by
  intro address entry id
  rw [h' address entry id, h address entry id, and_assoc, ← forall_and]
  simp only [or_imp]

theorem Released.congr {P Q : ℕ → CRequest → Prop} (h : Released action P s t)
    (hPQ : ∀ address request, P address request ↔ Q address request) : Released action Q s t := by
  intro address entry id
  simp only [h address entry id, hPQ]

theorem release_eq (action : CAction) (request : CRequest) (s : CActionHandler ρ) (address : ℕ) :
    ∃ media, release action request s address = { s with media := media } := by
  unfold release
  split
  · exact ⟨s.media, rfl⟩
  · split
    · exact modifyMedium_eq ..
    · exact ⟨s.media, rfl⟩

theorem released_release (request : CRequest) (s : CActionHandler ρ) (address : ℕ) :
    Released action (fun a r => r = request ∧ a = address ∧ (s.validHandler a).isSome) s
      (release action request s address) := by
  intro address' entry id
  by_cases hvalid : (s.validHandler address).isSome
  · obtain ⟨handler, hhandler⟩ := Option.isSome_iff_exists.mp hvalid
    obtain ⟨hin, hhandler⟩ := Option.filter_eq_some_iff.mp hhandler
    rw [release, hin]
    simp only [hhandler, if_true]
    by_cases heq : address' = address
    · subst heq
      simp only [keeps_modifyMedium_self, keeps_release_iff, hvalid, and_true, forall_eq]
      simp only [Keeps, ← and_assoc, exists_and_right]
    · simp [keeps_modifyMedium_of_ne heq, heq]
  · have hsame : release action request s address = s := by
      unfold release
      split
      case h_1 => rfl
      case h_2 handler hin =>
        refine if_neg fun hhandler => hvalid ?_
        rw [validHandler, hin, Option.filter_some, if_pos hhandler]
        rfl
    rw [hsame]
    refine ⟨fun hkeeps => ⟨hkeeps, ?_⟩, And.left⟩
    rintro request ⟨-, rfl, h⟩
    exact absurd h hvalid

theorem foldl_release (action : CAction) (request : CRequest) (addresses : List ℕ) (s : CActionHandler ρ) :
    (∃ media, addresses.foldl (release action request) s = { s with media := media }) ∧
      Released action (fun a r => r = request ∧ a ∈ addresses ∧ (s.validHandler a).isSome) s
        (addresses.foldl (release action request) s) := by
  induction addresses generalizing s with
  | nil => exact ⟨⟨s.media, rfl⟩, fun _ _ _ => by simp⟩
  | cons address addresses ih =>
    obtain ⟨media, hmedia⟩ := release_eq action request s address
    obtain ⟨⟨media', hmedia'⟩, hrest⟩ := ih (release action request s address)
    rw [List.foldl_cons]
    refine ⟨⟨media', ?_⟩, ((released_release request s address).trans hrest).congr fun a r => ?_⟩
    · rw [hmedia', hmedia]
    · rw [hmedia, List.mem_cons]
      simp only [validHandler]
      tauto

theorem releaseHandlers_spec (action : CAction) (s : CActionHandler ρ) (request : CRequest) :
    (∃ media, releaseHandlers action s request = { s with
      media := media
      currentlyUsedHandlers := s.currentlyUsedHandlers.filter (·.1 ≠ request) }) ∧
      Released action (fun a r => r = request ∧ (r, a) ∈ s.currentlyUsedHandlers ∧
        (s.validHandler a).isSome) s (releaseHandlers action s request) := by
  obtain ⟨⟨media, hmedia⟩, hreleased⟩ := foldl_release action request
    ((s.currentlyUsedHandlers.filter (·.1 = request)).map Prod.snd) s
  refine ⟨⟨media, ?_⟩, Released.congr (t := releaseHandlers action s request) hreleased fun a r => ?_⟩
  · rw [releaseHandlers, hmedia]
  · refine and_congr_right ?_
    rintro rfl
    refine and_congr_left fun _ => ?_
    simp only [List.mem_map, List.mem_filter, decide_eq_true_eq]
    constructor
    · rintro ⟨entry, ⟨hin, rfl⟩, rfl⟩
      exact hin
    · intro hin
      exact ⟨(r, a), ⟨hin, rfl⟩, rfl⟩

theorem foldl_releaseHandlers (action : CAction) (requests : List CRequest) (s : CActionHandler ρ) :
    (∃ media, requests.foldl (releaseHandlers action) s = { s with
      media := media
      currentlyUsedHandlers := s.currentlyUsedHandlers.filter (·.1 ∉ requests) }) ∧
      Released action (fun a r => r ∈ requests ∧ (r, a) ∈ s.currentlyUsedHandlers ∧
        (s.validHandler a).isSome) s (requests.foldl (releaseHandlers action) s) := by
  induction requests generalizing s with
  | nil =>
    refine ⟨⟨s.media, ?_⟩, fun _ _ _ => by simp⟩
    simp only [List.foldl_nil, List.not_mem_nil, not_false_eq_true, decide_true, List.filter_true]
  | cons request requests ih =>
    obtain ⟨⟨media, hmedia⟩, hfirst⟩ := releaseHandlers_spec action s request
    obtain ⟨⟨media', hmedia'⟩, hrest⟩ := ih (releaseHandlers action s request)
    rw [List.foldl_cons]
    refine ⟨⟨media', ?_⟩, (hfirst.trans hrest).congr fun a r => ?_⟩
    · rw [hmedia', hmedia, List.filter_filter]
      simp only [List.mem_cons, not_or, Bool.decide_and, ne_eq, Bool.and_comm]
    · rw [hmedia, List.mem_cons]
      simp only [validHandler, List.mem_filter, decide_eq_true_eq]
      tauto

theorem cleanUp_spec (s : CActionHandler ρ) (action : CAction) :
    (∃ media, s.cleanUp action = { s with
      media := media
      currentlyUsedHandlers := s.currentlyUsedHandlers.filter (·.1 ∉ action.combined)
      actions := s.actions.filter (·.address ≠ action.address)
      closing := s.closing ++ [action]
      retired := s.retired ++ action.ids }) ∧
      Released action (s.Releases action) s (s.cleanUp action) := by
  obtain ⟨⟨media, hmedia⟩, hreleased⟩ := foldl_releaseHandlers action action.combined s
  refine ⟨⟨media, ?_⟩, hreleased⟩
  rw [cleanUp, hmedia]

end Release

/-- A request waits in the handler at an address: it is one of an action in progress and has
not been run. -/
structure Waiting (s : CActionHandler ρ) (address : ℕ) (request : CRequest) : Prop where
  live : ∃ action ∈ s.actions, request ∈ action.combined
  scheduled : address ∈ s.requestHandlersToExecute
  used : ∃ used ∈ s.currentlyUsedHandlers, used.1 = request
  unprocessed : s.phase ≠ .running → request ∉ s.processed

/-- What holds of the requests in every run. -/
structure Scheduled (s : CActionHandler ρ) : Prop where
  distinct : ∀ action ∈ s.actions, ∀ other ∈ s.actions, action.address = other.address →
    action = other
  disjoint : ∀ action ∈ s.actions, ∀ other ∈ s.actions, ∀ request ∈ action.combined,
    request ∈ other.combined → action.address = other.address
  waiting : ∀ address handler, s.requestHandlers address = some handler →
    ∀ request ∈ handler.newRequest, s.Waiting address request.1
  used : ∀ action ∈ s.actions, ∀ request ∈ action.combined, request ∈ s.processed →
    ∃ used ∈ s.currentlyUsedHandlers, used.1 = request

section Scheduled

variable {s t : CActionHandler ρ} {address : ℕ}

theorem Scheduled.of_media (h : s.Scheduled) (media : ℕ → Option (LiveMedium ρ)) :
    Scheduled { s with media := media } :=
  ⟨h.distinct, h.disjoint, fun address handler hhandler request hin =>
    let hwaiting := h.waiting address handler hhandler request hin
    ⟨hwaiting.live, hwaiting.scheduled, hwaiting.used, hwaiting.unprocessed⟩, h.used⟩

theorem Scheduled.modifyMedium (h : s.Scheduled) (address : ℕ)
    (f : CNodeMedium ρ → CNodeMedium ρ) : (s.modifyMedium address f).Scheduled := by
  obtain ⟨media, heq⟩ := modifyMedium_eq s address f
  rw [heq]
  exact h.of_media media

theorem Scheduled.createMedium (h : s.Scheduled) (address : ℕ) :
    (s.createMedium address).Scheduled := by
  unfold CActionHandler.createMedium
  split
  · exact h
  · exact ⟨h.distinct, h.disjoint, fun address handler hhandler request hin =>
      let hwaiting := h.waiting address handler hhandler request hin
      ⟨hwaiting.live, hwaiting.scheduled, hwaiting.used, hwaiting.unprocessed⟩, h.used⟩

theorem Scheduled.deleteMedium (h : s.Scheduled) (address : ℕ) :
    (s.deleteMedium address).Scheduled := by
  unfold CActionHandler.deleteMedium
  split
  case h_1 => exact h
  case h_2 medium _ =>
    refine ⟨h.distinct, h.disjoint, fun address' handler hhandler request hin => ?_, h.used⟩
    have hold : ∃ old, s.requestHandlers address' = some old ∧
        old.newRequest = handler.newRequest := by
      dsimp only at hhandler
      by_cases heq : address' = address
      · subst heq
        rw [Function.update_self] at hhandler
        obtain ⟨old, hold, rfl⟩ := Option.map_eq_some_iff.mp hhandler
        exact ⟨old, hold, (setInvalid_cases medium.identity old).2.1.symm⟩
      · rw [Function.update_of_ne heq] at hhandler
        exact ⟨handler, hhandler, rfl⟩
    obtain ⟨old, hold, hnew⟩ := hold
    have hwaiting := h.waiting address' old hold request (hnew ▸ hin)
    exact ⟨hwaiting.live, hwaiting.scheduled, hwaiting.used, hwaiting.unprocessed⟩

theorem Scheduled.modifyAction (h : s.Scheduled) {f : CAction → CAction} {P : CRequest → Prop}
    (haddress : ∀ action, (f action).address = action.address)
    (hcombined : ∀ action request, request ∈ (f action).combined ↔
      request ∈ action.combined ∨ P request)
    (hfresh : ∀ request, P request → request ∉ s.processed ∧
      ∀ action ∈ s.actions, request ∉ action.combined) (address : ℕ) :
    (s.modifyAction address f).Scheduled := by
  -- each action comes from one at the same address
  have hold : ∀ action ∈ (s.modifyAction address f).actions, ∃ old ∈ s.actions,
      action.address = old.address ∧ action = (if old.address = address then f old else old) ∧
      ∀ request, request ∈ action.combined ↔
        request ∈ old.combined ∨ old.address = address ∧ P request := by
    intro action hin
    obtain ⟨old, hold, rfl⟩ := List.mem_map.mp hin
    by_cases heq : old.address = address
    · exact ⟨old, hold, by rw [if_pos heq, haddress], rfl, fun request => by simp [heq, hcombined]⟩
    · exact ⟨old, hold, by rw [if_neg heq], rfl, fun request => by simp [heq]⟩
  refine ⟨fun action hin other hin' heq => ?_, fun action hin other hin' request hr hr' => ?_,
    fun address' handler hhandler request hin => ?_, fun action hin request hr hprocessed => ?_⟩
  · obtain ⟨old, hold₁, haddr, hdef, -⟩ := hold action hin
    obtain ⟨old', hold₂, haddr', hdef', -⟩ := hold other hin'
    have hsame : old = old' := h.distinct old hold₁ old' hold₂ (haddr ▸ haddr' ▸ heq)
    rw [hdef, hdef', hsame]
  · obtain ⟨old, hold₁, haddr, -, hmem⟩ := hold action hin
    obtain ⟨old', hold₂, haddr', -, hmem'⟩ := hold other hin'
    rw [haddr, haddr']
    obtain hr | ⟨hat, hnew⟩ := (hmem request).mp hr
    · obtain hr' | ⟨-, hnew⟩ := (hmem' request).mp hr'
      · exact h.disjoint old hold₁ old' hold₂ request hr hr'
      · exact absurd hr ((hfresh request hnew).2 old hold₁)
    · obtain hr' | ⟨hat', -⟩ := (hmem' request).mp hr'
      · exact absurd hr' ((hfresh request hnew).2 old' hold₂)
      · rw [hat, hat']
  · have hwaiting := h.waiting address' handler hhandler request hin
    obtain ⟨action, haction, hr⟩ := hwaiting.live
    refine ⟨⟨_, List.mem_map_of_mem haction, ?_⟩, hwaiting.scheduled, hwaiting.used,
      hwaiting.unprocessed⟩
    split
    · exact (hcombined action request.1).mpr (.inl hr)
    · exact hr
  · obtain ⟨old, hold₁, -, -, hmem⟩ := hold action hin
    obtain hr | ⟨-, hnew⟩ := (hmem request).mp hr
    · exact h.used old hold₁ request hr hprocessed
    · exact absurd hprocessed (hfresh request hnew).1

theorem Scheduled.forgetRequests (h : s.Scheduled) (address : ℕ) :
    (s.modifyAction address CAction.forgetRequests).Scheduled :=
  h.modifyAction (f := CAction.forgetRequests) (P := fun _ => False) (fun _ => rfl)
    (fun action request => by simp [CAction.forgetRequests, CAction.combined]) (fun _ => False.elim)
    address

theorem Scheduled.setExit (h : s.Scheduled) (address : ℕ) :
    (s.modifyAction address CAction.setExit).Scheduled :=
  h.modifyAction (f := CAction.setExit) (P := fun _ => False) (fun _ => rfl)
    (fun action request => by simp [CAction.setExit, CAction.combined]) (fun _ => False.elim)
    address

theorem Scheduled.addRequest (h : s.Scheduled) (address : ℕ) (request : CRequest) :
    (s.addRequest address request).Scheduled := by
  unfold CActionHandler.addRequest
  split
  case isTrue => exact h
  case isFalse hfresh =>
    have hforget : Scheduled
        { s with processed := s.processed.filter (·.address ≠ request.address) } := by
      refine ⟨h.distinct, h.disjoint, fun address handler hhandler request hin => ?_,
        fun action hin request hr hprocessed => ?_⟩
      · have hwaiting := h.waiting address handler hhandler request hin
        exact ⟨hwaiting.live, hwaiting.scheduled, hwaiting.used,
          fun hphase hin => hwaiting.unprocessed hphase (List.mem_filter.mp hin).1⟩
      · exact h.used action hin request hr (List.mem_filter.mp hprocessed).1
    refine hforget.modifyAction (f := (·.addRequest request)) (P := (· = request)) (fun _ => rfl)
      (fun action other => ?_) ?_ address
    · simp [CAction.addRequest, CAction.combined, or_assoc]
    · rintro other rfl
      refine ⟨by simp, fun action haction hin => hfresh ?_⟩
      refine List.any_eq_true.mpr ⟨other, List.mem_flatMap.mpr ⟨action, ?_, hin⟩, by simp⟩
      exact List.mem_append_left _ haction

theorem Scheduled.executeAction (h : s.Scheduled) (address : ℕ) (actionKey : Uint256) :
    (s.executeAction address actionKey).Scheduled := by
  unfold CActionHandler.executeAction
  split
  case isTrue => exact h
  case isFalse hfresh =>
    have hne : ∀ action ∈ s.actions, action.address ≠ address := by
      intro action hin heq
      exact hfresh (List.any_eq_true.mpr ⟨action, List.mem_append_left _ hin, by simp [heq]⟩)
    refine ⟨fun action hin other hin' heq => ?_, fun action hin other hin' request hr hr' => ?_,
      fun address' handler hhandler request hin => ?_, fun action hin request hr hprocessed => ?_⟩
    · obtain hin | hin := List.mem_append.mp hin
      · obtain hin' | hin' := List.mem_append.mp hin'
        · exact h.distinct action hin other hin' heq
        · rw [List.mem_singleton.mp hin'] at heq
          exact absurd heq (hne action hin)
      · obtain hin' | hin' := List.mem_append.mp hin'
        · rw [List.mem_singleton.mp hin] at heq
          exact absurd heq.symm (hne other hin')
        · rw [List.mem_singleton.mp hin, List.mem_singleton.mp hin']
    · obtain hin | hin := List.mem_append.mp hin
      · obtain hin' | hin' := List.mem_append.mp hin'
        · exact h.disjoint action hin other hin' request hr hr'
        · rw [List.mem_singleton.mp hin'] at hr'
          exact absurd hr' List.not_mem_nil
      · rw [List.mem_singleton.mp hin] at hr
        exact absurd hr List.not_mem_nil
    · have hwaiting := h.waiting address' handler hhandler request hin
      obtain ⟨action, haction, hr⟩ := hwaiting.live
      exact ⟨⟨action, List.mem_append_left _ haction, hr⟩, hwaiting.scheduled, hwaiting.used,
        hwaiting.unprocessed⟩
    · obtain hin | hin := List.mem_append.mp hin
      · exact h.used action hin request hr hprocessed
      · rw [List.mem_singleton.mp hin] at hr
        exact absurd hr List.not_mem_nil

theorem Scheduled.destroy (h : s.Scheduled) (address : ℕ) : (s.destroy address).Scheduled := by
  unfold CActionHandler.destroy
  split
  · exact h
  · exact ⟨h.distinct, h.disjoint, fun address handler hhandler request hin =>
      let hwaiting := h.waiting address handler hhandler request hin
      ⟨hwaiting.live, hwaiting.scheduled, hwaiting.used, hwaiting.unprocessed⟩, h.used⟩

theorem useHandler_eq (request : CRequest) (s : CActionHandler ρ) (address : ℕ) :
    (useHandler request s address).media = s.media ∧
      (useHandler request s address).actions = s.actions ∧
      (useHandler request s address).processed = s.processed ∧
      (useHandler request s address).retired = s.retired := by
  unfold useHandler
  split <;> exact ⟨rfl, rfl, rfl, rfl⟩

theorem Scheduled.useHandler (h : s.Scheduled) {request : CRequest}
    (hlive : ∃ action ∈ s.actions, request ∈ action.combined) (hprocessed : request ∉ s.processed)
    (address : ℕ) : (useHandler request s address).Scheduled := by
  unfold CActionHandler.useHandler
  split
  case h_1 => exact h
  case h_2 medium hmedium =>
    refine ⟨h.distinct, h.disjoint, fun address' handler hhandler other hin => ?_,
      fun action hin other hr hdone => ?_⟩
    · have hcases : other.1 = request ∧ address' = address ∨ s.Waiting address' other.1 := by
        dsimp only at hhandler
        by_cases heq : address' = address
        · subst heq
          rw [Function.update_self] at hhandler
          cases hhandler
          obtain hold | hnew := List.mem_append.mp hin
          · cases hhandler : s.requestHandlers address' with
            | none =>
              rw [hhandler] at hold
              exact absurd hold List.not_mem_nil
            | some handler =>
              rw [hhandler] at hold
              exact .inr (h.waiting address' handler hhandler other hold)
          · rw [List.mem_singleton.mp hnew]
            exact .inl ⟨rfl, rfl⟩
        · rw [Function.update_of_ne heq] at hhandler
          exact .inr (h.waiting address' handler hhandler other hin)
      obtain ⟨heq, rfl⟩ | hwaiting := hcases
      · rw [heq]
        exact ⟨hlive, Finset.mem_insert_self _ _, ⟨(request, address'), by simp, rfl⟩,
          fun _ => hprocessed⟩
      · obtain ⟨used, hused, heq⟩ := hwaiting.used
        exact ⟨hwaiting.live, Finset.mem_insert_of_mem hwaiting.scheduled,
          ⟨used, List.mem_append_left _ hused, heq⟩, hwaiting.unprocessed⟩
    · obtain ⟨used, hused, heq⟩ := h.used action hin other hr hdone
      exact ⟨used, List.mem_append_left _ hused, heq⟩

theorem Scheduled.submit (h : s.Scheduled) {action : CAction} {request : CRequest}
    (haction : action ∈ s.actions) (hrequest : request ∈ action.combined)
    (mediums : CRequest → List ℕ) :
    (submit mediums s request).Scheduled ∧ (submit mediums s request).media = s.media ∧
      (submit mediums s request).actions = s.actions ∧
      (submit mediums s request).retired = s.retired := by
  unfold CActionHandler.submit
  split
  case isTrue => exact ⟨h, rfl, rfl, rfl⟩
  case isFalse hunused =>
    have hprocessed : request ∉ s.processed := by
      intro hin
      obtain ⟨used, hused, heq⟩ := h.used action haction request hrequest hin
      exact hunused (List.any_eq_true.mpr ⟨used, hused, by simp [heq]⟩)
    have hfold := (mediums request).foldlRecOn (CActionHandler.useHandler request)
      (motive := fun t => t.Scheduled ∧ t.media = s.media ∧ t.actions = s.actions ∧
        t.processed = s.processed ∧ t.retired = s.retired)
      ⟨h, rfl, rfl, rfl, rfl⟩ fun t ht address _ => by
        obtain ⟨hscheduled, hmedia, hactions, hdone, hretired⟩ := ht
        obtain ⟨hmedia', hactions', hdone', hretired'⟩ := useHandler_eq request t address
        exact ⟨hscheduled.useHandler ⟨action, hactions ▸ haction, hrequest⟩ (hdone ▸ hprocessed)
          address, hmedia'.trans hmedia, hactions'.trans hactions, hdone'.trans hdone,
          hretired'.trans hretired⟩
    exact ⟨hfold.1, hfold.2.1, hfold.2.2.1, hfold.2.2.2.2⟩

/-- A clean-up takes place when all requests of the action have been run, and not while
requests are run. -/
theorem Scheduled.cleanUp (h : s.Scheduled) {action : CAction} (haction : action ∈ s.actions)
    (hphase : s.phase = .acting) (hexit : action.needToExit s.processed) :
    (s.cleanUp action).Scheduled := by
  obtain ⟨⟨media, heq⟩, -⟩ := cleanUp_spec s action
  have hdone : ∀ request ∈ action.combined, request ∈ s.processed := by
    simp only [CAction.needToExit, Bool.and_eq_true, List.all_eq_true, decide_eq_true_eq] at hexit
    exact hexit.2
  have hfilter : ∀ other ∈ s.actions.filter (·.address ≠ action.address),
      other ∈ s.actions ∧ other.address ≠ action.address := by
    intro other hin
    simpa using hin
  rw [heq]
  refine ⟨fun first hin second hin' => h.distinct first (hfilter first hin).1 second
      (hfilter second hin').1, fun first hin second hin' => h.disjoint first (hfilter first hin).1
      second (hfilter second hin').1, fun address handler hhandler request hin => ?_,
    fun other hin request hr hprocessed => ?_⟩
  · have hwaiting := h.waiting address handler hhandler request hin
    have hnot : request.1 ∉ s.processed := hwaiting.unprocessed (by rw [hphase]; decide)
    have hother : request.1 ∉ action.combined := fun hr => hnot (hdone request.1 hr)
    obtain ⟨owner, howner, hr⟩ := hwaiting.live
    obtain ⟨used, hused, hsame⟩ := hwaiting.used
    refine ⟨⟨owner, ?_, hr⟩, hwaiting.scheduled, ⟨used, ?_, hsame⟩, hwaiting.unprocessed⟩
    · have hne : owner.address ≠ action.address := fun heq =>
        hother (h.distinct owner howner action haction heq ▸ hr)
      simpa using ⟨howner, hne⟩
    · rw [← hsame] at hother
      simpa using ⟨hused, hother⟩
  · obtain ⟨hin, hne⟩ := hfilter other hin
    obtain ⟨used, hused, hsame⟩ := h.used other hin request hr hprocessed
    have hother : used.1 ∉ action.combined := fun hr' =>
      hne (h.disjoint other hin action haction request hr (hsame ▸ hr'))
    exact ⟨used, by simpa using ⟨hused, hother⟩, hsame⟩

theorem foldl_runRequest_eq (address : ℕ) (requests : List (CRequest × ℕ))
    (s : CActionHandler ρ) :
    ∃ media executed, requests.foldl (runRequest address) s = { s with
      media := media
      processed := s.processed ++ requests.map Prod.fst
      executed := executed } := by
  induction requests generalizing s with
  | nil => exact ⟨s.media, s.executed, by simp⟩
  | cons request requests ih =>
    obtain ⟨media, hmedia⟩ := modifyMedium_eq s address (·.add request.1)
    obtain ⟨media', executed, hrest⟩ := ih (runRequest address s request)
    refine ⟨media', executed, ?_⟩
    rw [List.foldl_cons, hrest, runRequest, hmedia]
    simp only [List.map_cons, List.append_assoc, List.singleton_append]

theorem runRequests_eq {handler : CRequestHandler}
    (hhandler : s.requestHandlers address = some handler) :
    ∃ media executed skipped, s.runRequests address = { s with
      media := media
      processed := s.processed ++ handler.newRequest.map Prod.fst
      executed := executed
      skipped := skipped
      requestHandlers :=
        Function.update s.requestHandlers address (some { handler with newRequest := [] })
      requestHandlersToExecute := s.requestHandlersToExecute.erase address
      requestHandlersToRead := insert address s.requestHandlersToRead } := by
  unfold runRequests
  rw [hhandler]
  by_cases hvalid : handler.valid = true
  · obtain ⟨media, executed, heq⟩ := foldl_runRequest_eq address handler.newRequest s
    exact ⟨media, executed, s.skipped, by simp only [hvalid, if_true, heq]⟩
  · exact ⟨s.media, s.executed, s.skipped ++ handler.newRequest, by simp only [hvalid, Bool.false_eq_true, if_false]⟩

theorem Scheduled.runRequests (h : s.Scheduled) (hphase : s.phase = .running) (address : ℕ) :
    (s.runRequests address).Scheduled := by
  cases hhandler : s.requestHandlers address with
  | none =>
    unfold CActionHandler.runRequests
    rw [hhandler]
    exact h
  | some handler =>
    obtain ⟨media, executed, skipped, heq⟩ := runRequests_eq hhandler
    rw [heq]
    refine ⟨h.distinct, h.disjoint, fun address' other hother request hin => ?_,
      fun action hin request hr hprocessed => ?_⟩
    · dsimp only at hother
      by_cases hsame : address' = address
      · rw [hsame, Function.update_self] at hother
        cases hother
        exact absurd hin List.not_mem_nil
      · rw [Function.update_of_ne hsame] at hother
        have hwaiting := h.waiting address' other hother request hin
        exact ⟨hwaiting.live, Finset.mem_erase.mpr ⟨hsame, hwaiting.scheduled⟩, hwaiting.used,
          fun hne => absurd hphase hne⟩
    · obtain hold | hnew := List.mem_append.mp hprocessed
      · exact h.used action hin request hr hold
      · obtain ⟨pending, hpending, rfl⟩ := List.mem_map.mp hnew
        exact (h.waiting address handler hhandler pending hpending).used

theorem Scheduled.next (h : s.Scheduled) : s.next.Scheduled := by
  -- nothing waits when the last phase is left
  have hwaiting : ∀ phase, (s.phase = .running → s.requestHandlersToExecute = ∅) →
      Scheduled { s with phase := phase } := by
    refine fun phase hempty => ⟨h.distinct, h.disjoint, fun address handler hhandler request hin => ?_,
      h.used⟩
    have hwaiting := h.waiting address handler hhandler request hin
    refine ⟨hwaiting.live, hwaiting.scheduled, hwaiting.used, fun _ => hwaiting.unprocessed ?_⟩
    intro hphase
    exact absurd hwaiting.scheduled (hempty hphase ▸ Finset.notMem_empty address)
  unfold CActionHandler.next
  split
  case h_1 hphase =>
    split
    · exact hwaiting .reading fun heq => by rw [hphase] at heq; cases heq
    · exact h
  case h_2 hphase => exact hwaiting .running fun heq => by rw [hphase] at heq; cases heq
  case h_3 =>
    split
    case isTrue hempty => exact hwaiting .acting fun _ => hempty
    case isFalse => exact h

theorem getDirectActionResponse_cases (s : CActionHandler ρ) (address action : ℕ) :
    s.getDirectActionResponse address action = s ∨ ∃ actionKey,
      s.getDirectActionResponse address action = s.modifyMedium address fun medium =>
        (medium.getDirectActionResponseAndClear actionKey).1 := by
  unfold getDirectActionResponse
  split
  · exact .inr ⟨_, rfl⟩
  · exact .inl rfl

theorem processMediumResponses_cases (h : s.processMediumResponses address = some t) :
    t = s ∨ ∃ medium read, s.nodeAt address = some medium ∧
      medium.getResponseAndClear = .ok read ∧ t = s.modifyMedium address fun _ => read.1 := by
  unfold processMediumResponses at h
  split at h
  case h_1 handler medium _ hmedium =>
    split at h
    · obtain ⟨read, hread, rfl⟩ := Option.map_eq_some_iff.mp h
      refine .inr ⟨medium.node, read, by rw [nodeAt, hmedium, Option.map_some], ?_, rfl⟩
      cases hget : medium.node.getResponseAndClear with
      | error fault =>
        rw [hget] at hread
        cases hread
      | ok found =>
        rw [hget] at hread
        cases hread
        rfl
    · cases h
      exact .inl rfl
  case h_2 =>
    cases h
    exact .inl rfl

end Scheduled

section Steps

variable {s t : CActionHandler ρ} {address : ℕ}

theorem Scheduled.service_cases (h : s.Scheduled) (address : ℕ) (mediums : CRequest → List ℕ) :
    (∃ action ∈ s.actions, s.actions.find? (·.address = address) = some action ∧
      action.needToExit s.processed ∧ s.service address mediums = s.cleanUp action) ∨
    (s.service address mediums).Scheduled ∧ (s.service address mediums).media = s.media ∧
      (s.service address mediums).actions = s.actions ∧
      (s.service address mediums).retired = s.retired ∧
      ∀ action, s.actions.find? (·.address = address) = some action →
        ¬action.needToExit s.processed := by
  unfold service
  split
  case h_1 hnone =>
    refine .inr ⟨h, rfl, rfl, rfl, fun action hfind => ?_⟩
    rw [hnone] at hfind
    cases hfind
  case h_2 action hfind =>
    have haction : action ∈ s.actions := List.mem_of_find?_eq_some hfind
    split
    case isTrue hexit => exact .inl ⟨action, haction, hfind, hexit, rfl⟩
    case isFalse hexit =>
      have hfold := action.combined.foldlRecOn (CActionHandler.submit mediums)
        (motive := fun t => t.Scheduled ∧ t.media = s.media ∧ t.actions = s.actions ∧
          t.retired = s.retired)
        ⟨h, rfl, rfl, rfl⟩ fun t ht request hrequest => by
          obtain ⟨hscheduled, hmedia, hactions, hretired⟩ := ht
          obtain ⟨hscheduled', hmedia', hactions', hretired'⟩ :=
            hscheduled.submit (hactions ▸ haction) hrequest mediums
          exact ⟨hscheduled', hmedia'.trans hmedia, hactions'.trans hactions,
            hretired'.trans hretired⟩
      obtain ⟨hscheduled, hmedia, hactions, hretired⟩ := hfold
      refine .inr ⟨hscheduled, hmedia, hactions, hretired, fun other hother => ?_⟩
      rw [hfind] at hother
      cases hother
      exact hexit

theorem Scheduled.react {event : Event ρ} (h : s.Scheduled) (hreact : s.react event = some t) :
    t.Scheduled := by
  cases event with
  | createMedium address =>
    cases hreact
    exact h.createMedium address
  | deleteMedium address =>
    cases hreact
    exact h.deleteMedium address
  | message address actionKey id direct response =>
    cases hreact
    unfold message
    split
    · exact h.modifyMedium ..
    · exact h
  | executeAction address actionKey =>
    cases hreact
    exact h.executeAction address actionKey
  | addRequest address request =>
    cases hreact
    exact h.addRequest address request
  | forgetRequests address =>
    cases hreact
    exact h.forgetRequests address
  | setExit address =>
    cases hreact
    exact h.setExit address
  | service address mediums =>
    cases hreact
    split
    case isTrue hphase =>
      obtain ⟨action, haction, -, hexit, heq⟩ | ⟨hscheduled, -⟩ := h.service_cases address mediums
      · rw [heq]
        exact h.cleanUp haction hphase hexit
      · exact hscheduled
    case isFalse => exact h
  | destroy address =>
    cases hreact
    exact h.destroy address
  | getDirectActionResponse address action =>
    cases hreact
    split
    · obtain heq | ⟨actionKey, heq⟩ := getDirectActionResponse_cases s address action
      · rwa [heq]
      · rw [heq]
        exact h.modifyMedium ..
    · exact h
  | processMediumResponses address =>
    rw [CActionHandler.react] at hreact
    split at hreact
    · obtain rfl | ⟨medium, read, -, -, rfl⟩ := processMediumResponses_cases hreact
      · exact h
      · exact h.modifyMedium ..
    · cases hreact
      exact h
  | runRequests address =>
    cases hreact
    split
    case isTrue hphase => exact h.runRequests hphase.1 address
    case isFalse => exact h
  | next =>
    cases hreact
    exact h.next

theorem clean_modifyMedium (h : s.Clean) {f : CNodeMedium ρ → CNodeMedium ρ} {P : Uint256 → Prop}
    (hf : ∀ medium entry id, (f medium).Keeps entry id → medium.Keeps entry id ∨ P id)
    (hP : (s.nodeAt address).isSome → ∀ id, P id → ¬s.Dead id) :
    (s.modifyMedium address f).Clean := by
  obtain ⟨media, heq⟩ := modifyMedium_eq s address f
  have hdead : ∀ id, (s.modifyMedium address f).Dead id → s.Dead id := by
    rw [heq]
    exact fun _ => id
  refine h.mono hdead fun address' entry id hkept hid => ?_
  obtain hold | ⟨hsome, hnew⟩ := keeps_of_modifyMedium hf hkept
  · exact hold
  · exact absurd (hdead id hid) (hP hsome id hnew)

theorem Clean.message_iff (h : s.Clean) {actionKey id : Uint256} {direct : Bool} {response : ρ} :
    (s.message address actionKey id direct response).Clean ↔
      (actionKey ∈ s.actionsInProgress → (s.media address).isSome →
        ¬s.Dead (if direct then actionKey else id)) := by
  unfold message
  by_cases hprogress : actionKey ∈ s.actionsInProgress
  case neg => simpa only [hprogress, if_false, false_imp_iff, iff_true] using h
  case pos =>
    have hsome : (s.nodeAt address).isSome = (s.media address).isSome := Option.isSome_map
    simp only [hprogress, if_true, true_imp_iff]
    constructor
    · intro hclean hmedium hdead
      obtain ⟨medium, hnode⟩ := Option.isSome_iff_exists.mp (hsome.trans hmedium)
      refine hclean (if direct then actionKey else id) ?_ address .queue
        (keeps_modifyMedium_self.mpr ⟨medium, hnode, ?_⟩)
      · obtain ⟨media, heq⟩ := modifyMedium_eq s address fun medium : CNodeMedium ρ =>
          if direct then medium.addActionResponse actionKey response
          else medium.setResponse id response
        rw [heq]
        exact hdead
      · cases direct with
        | true => exact List.mem_append_right _ List.mem_cons_self
        | false => exact List.mem_append_right _ List.mem_cons_self
    · intro hdead
      refine clean_modifyMedium (P := (· = if direct then actionKey else id)) h
        (fun medium entry other hkeeps => ?_) ?_
      · cases direct with
        | true => exact keeps_addActionResponse hkeeps
        | false => exact keeps_setResponse hkeeps
      · rintro hnode other rfl
        exact hdead (hsome.symm.trans hnode)

theorem Clean.cleanUp_iff (h : s.Clean) (hscheduled : s.Scheduled) {action : CAction}
    (haction : action ∈ s.actions) : (s.cleanUp action).Clean ↔ s.Reached action := by
  obtain ⟨⟨media, heq⟩, hreleased⟩ := cleanUp_spec s action
  have hdead : ∀ id, (s.cleanUp action).Dead id ↔ (id ∈ s.retired ∨ id ∈ action.ids) ∧
      ∀ other ∈ s.actions, other.address ≠ action.address → id ∉ other.ids := by
    intro id
    rw [heq]
    simp only [Dead, List.mem_append, List.mem_filter, decide_eq_true_eq, and_imp]
  constructor
  · intro hclean id hid hother address entry hkeeps
    by_contra hnone
    refine hclean id ((hdead id).mpr ⟨.inr hid, hother⟩) address entry
      ((hreleased address entry id).mpr ⟨hkeeps, fun request hreleases hdrops => ?_⟩)
    exact hnone ⟨request, hreleases, hdrops⟩
  · intro hreached id hid address entry hkept
    obtain ⟨hretired, hother⟩ := (hdead id).mp hid
    obtain ⟨hkeeps, hnone⟩ := (hreleased address entry id).mp hkept
    by_cases hin : id ∈ action.ids
    · obtain ⟨request, hreleases, hdrops⟩ := hreached id hin hother address entry hkeeps
      exact hnone request hreleases hdrops
    · refine h id ⟨hretired.resolve_right hin, fun other hmem => ?_⟩ address entry hkeeps
      by_cases hsame : other.address = action.address
      · rwa [hscheduled.distinct other hmem action haction hsame]
      · exact hother other hmem hsame

theorem keeps_foldl_runRequest {requests : List (CRequest × ℕ)} {address' : ℕ}
    {entry : MediumEntry} {id : Uint256}
    (h : (requests.foldl (runRequest address) s).Keeps address' entry id) :
    s.Keeps address' entry id ∨ ∃ request ∈ requests, id = request.1.getId := by
  induction requests generalizing s with
  | nil => exact .inl h
  | cons request requests ih =>
    obtain hkept | ⟨other, hother, heq⟩ := ih h
    · have hmodified : (s.modifyMedium address (·.add request.1)).Keeps address' entry id := hkept
      obtain hold | ⟨-, heq⟩ := keeps_of_modifyMedium (fun _ _ _ => keeps_add) hmodified
      · exact .inl hold
      · exact .inr ⟨request, List.mem_cons_self, heq⟩
    · exact .inr ⟨other, List.mem_cons_of_mem _ hother, heq⟩

theorem Clean.runRequests (h : s.Clean) (hscheduled : s.Scheduled) (address : ℕ) :
    (s.runRequests address).Clean := by
  cases hhandler : s.requestHandlers address with
  | none =>
    unfold CActionHandler.runRequests
    rwa [hhandler]
  | some handler =>
    have hkept : ∀ address' entry id, (s.runRequests address).Keeps address' entry id →
        s.Keeps address' entry id ∨ ∃ request ∈ handler.newRequest, id = request.1.getId := by
      intro address' entry id hkeeps
      unfold CActionHandler.runRequests at hkeeps
      rw [hhandler] at hkeeps
      by_cases hvalid : handler.valid = true
      · simp only [hvalid, if_true] at hkeeps
        exact keeps_foldl_runRequest hkeeps
      · simp only [hvalid] at hkeeps
        exact .inl hkeeps
    obtain ⟨media, executed, skipped, heq⟩ := runRequests_eq hhandler
    have hdead : ∀ id, (s.runRequests address).Dead id → s.Dead id := by
      rw [heq]
      exact fun _ => id
    refine h.mono hdead fun address' entry id hkeeps hid => ?_
    obtain hold | ⟨request, hrequest, rfl⟩ := hkept address' entry id hkeeps
    · exact hold
    · obtain ⟨action, haction, hr⟩ := (hscheduled.waiting address handler hhandler request hrequest).live
      exact absurd (List.mem_cons_of_mem _ (List.mem_map_of_mem hr)) ((hdead _ hid).2 action haction)

theorem keeps_createMedium {address' : ℕ} {entry : MediumEntry} {id : Uint256}
    (h : (s.createMedium address).Keeps address' entry id) : s.Keeps address' entry id := by
  unfold CActionHandler.createMedium at h
  split at h
  case h_1 => exact h
  case h_2 hnone =>
    obtain ⟨medium, hmedium, hkeeps⟩ := h
    by_cases heq : address' = address
    · subst heq
      simp only [nodeAt, Function.update_self, Option.map_some, Option.some.injEq] at hmedium
      exact absurd (hmedium ▸ hkeeps) (not_keeps_empty entry)
    · simp only [nodeAt, Function.update_of_ne heq] at hmedium
      exact ⟨medium, hmedium, hkeeps⟩

theorem keeps_deleteMedium {address' : ℕ} {entry : MediumEntry} {id : Uint256}
    (h : (s.deleteMedium address).Keeps address' entry id) : s.Keeps address' entry id := by
  unfold CActionHandler.deleteMedium at h
  split at h
  case h_1 => exact h
  case h_2 hsome =>
    obtain ⟨medium, hmedium, hkeeps⟩ := h
    by_cases heq : address' = address
    · subst heq
      simp [nodeAt] at hmedium
    · simp only [nodeAt, Function.update_of_ne heq] at hmedium
      exact ⟨medium, hmedium, hkeeps⟩

theorem Clean.modifyAction (h : s.Clean) {f : CAction → CAction}
    (hf : ∀ action, ∀ id ∈ action.ids, id ∈ (f action).ids) (address : ℕ) :
    (s.modifyAction address f).Clean := by
  refine h.mono (fun id hdead => ⟨hdead.1, fun action haction hin => ?_⟩) fun _ _ _ hkeeps _ => hkeeps
  refine hdead.2 _ (List.mem_map_of_mem haction) ?_
  split
  · exact hf action id hin
  · exact hin

end Steps

section Runs

variable {s t : CActionHandler ρ}

/-- An action that ends while it is served leaves the media clean if it reaches them all. -/
theorem Clean.service_iff (h : s.Clean) (hscheduled : s.Scheduled) (address : ℕ)
    (mediums : CRequest → List ℕ) :
    (if s.phase = .acting then s.service address mediums else s).Clean ↔
      Contained (some s) (.service address mediums : Event ρ) := by
  by_cases hphase : s.phase = .acting
  case neg =>
    rw [if_neg hphase]
    refine iff_of_true h fun t ht hacting => ?_
    cases ht
    exact absurd hacting hphase
  case pos =>
    rw [if_pos hphase]
    obtain ⟨action, haction, hfind, hexit, heq⟩ | ⟨-, hmedia, hactions, hretired, hstays⟩ :=
      hscheduled.service_cases address mediums
    · rw [heq, h.cleanUp_iff hscheduled haction]
      constructor
      · intro hreached t ht _ other hother _
        cases ht
        rw [hfind] at hother
        cases hother
        exact hreached
      · exact fun hcontained => hcontained s rfl hphase action hfind hexit
    · refine iff_of_true (h.reduce hactions hretired fun address entry id hkeeps => ?_)
        fun t ht _ action hfind hexit => ?_
      · rwa [Keeps, nodeAt, hmedia] at hkeeps
      · cases ht
        exact absurd hexit (hstays action hfind)

theorem Clean.processMediumResponses {address : ℕ} (h : s.Clean)
    (hprocess : s.processMediumResponses address = some t) : t.Clean := by
  obtain rfl | ⟨medium, read, hmedium, hread, rfl⟩ := processMediumResponses_cases hprocess
  · exact h
  · obtain ⟨media, heq⟩ := modifyMedium_eq s address fun _ => read.1
    refine h.reduce (by rw [heq]) (by rw [heq]) fun address' entry id hkeeps => ?_
    by_cases hsame : address' = address
    · subst hsame
      obtain ⟨-, -, hkept⟩ := keeps_modifyMedium_self.mp hkeeps
      exact ⟨medium, hmedium, keeps_getResponseAndClear hread hkept⟩
    · exact (keeps_modifyMedium_of_ne hsame).mp hkeeps

/-- A step keeps the media clean if and only if it is contained. -/
theorem Clean.react_iff {event : Event ρ} (h : s.Clean) (hscheduled : s.Scheduled)
    (hreact : s.react event = some t) : t.Clean ↔ Contained (some s) event := by
  cases event with
  | createMedium address =>
    cases hreact
    refine iff_of_true (h.reduce ?_ ?_ fun _ _ _ => keeps_createMedium) trivial <;>
      unfold CActionHandler.createMedium <;> split <;> rfl
  | deleteMedium address =>
    cases hreact
    refine iff_of_true (h.reduce ?_ ?_ fun _ _ _ => keeps_deleteMedium) trivial <;>
      unfold CActionHandler.deleteMedium <;> split <;> rfl
  | message address actionKey id direct response =>
    cases hreact
    rw [h.message_iff]
    constructor
    · intro hmessage t ht
      cases ht
      exact hmessage
    · exact fun hcontained => hcontained s rfl
  | executeAction address actionKey =>
    cases hreact
    refine iff_of_true (h.mono (fun id hdead => ?_) fun _ _ _ hkeeps _ => ?_) trivial
    · unfold CActionHandler.executeAction at hdead
      split at hdead
      · exact hdead
      · exact ⟨hdead.1, fun action haction => hdead.2 action (List.mem_append_left _ haction)⟩
    · unfold CActionHandler.executeAction at hkeeps
      split at hkeeps <;> exact hkeeps
  | addRequest address request =>
    cases hreact
    refine iff_of_true ?_ trivial
    unfold CActionHandler.addRequest
    split
    · exact h
    · refine Clean.modifyAction (s := { s with processed := _ }) h (fun action id hin => ?_) address
      simp only [CAction.ids, CAction.combined, CAction.addRequest, List.mem_cons, List.map_append,
        List.mem_append] at hin ⊢
      tauto
  | forgetRequests address =>
    cases hreact
    refine iff_of_true (h.modifyAction (fun action id hin => ?_) address) trivial
    simpa [CAction.ids, CAction.combined, CAction.forgetRequests] using hin
  | setExit address =>
    cases hreact
    exact iff_of_true (h.modifyAction (f := CAction.setExit) (fun _ _ hin => hin) address) trivial
  | service address mediums =>
    cases hreact
    exact h.service_iff hscheduled address mediums
  | destroy address =>
    cases hreact
    refine iff_of_true (h.reduce ?_ ?_ fun address entry id hkeeps => ?_) trivial
    · unfold CActionHandler.destroy
      split <;> rfl
    · unfold CActionHandler.destroy
      split <;> rfl
    · unfold CActionHandler.destroy at hkeeps
      split at hkeeps <;> exact hkeeps
  | getDirectActionResponse address action =>
    cases hreact
    refine iff_of_true ?_ trivial
    split
    · obtain heq | ⟨actionKey, heq⟩ := getDirectActionResponse_cases s address action
      · rwa [heq]
      · rw [heq]
        exact clean_modifyMedium (P := fun _ => False) h
          (fun _ _ _ hkeeps => .inl (keeps_getDirectActionResponseAndClear hkeeps)) fun _ _ => False.elim
    · exact h
  | processMediumResponses address =>
    refine iff_of_true ?_ trivial
    rw [CActionHandler.react] at hreact
    split at hreact
    · exact h.processMediumResponses hreact
    · cases hreact
      exact h
  | runRequests address =>
    cases hreact
    refine iff_of_true ?_ trivial
    split
    · exact h.runRequests hscheduled address
    · exact h
  | next =>
    cases hreact
    have hsame : ∃ phase, s.next = { s with phase := phase } := by
      unfold CActionHandler.next
      split
      · split <;> exact ⟨_, rfl⟩
      · exact ⟨_, rfl⟩
      · split <;> exact ⟨_, rfl⟩
    obtain ⟨phase, heq⟩ := hsame
    rw [heq]
    exact iff_of_true (h.reduce rfl rfl fun _ _ _ hkeeps => hkeeps) trivial

def AllScheduled (s : Option (CActionHandler ρ)) : Prop := ∀ t, s = some t → t.Scheduled

def AllClean (s : Option (CActionHandler ρ)) : Prop := ∀ t, s = some t → t.Clean

theorem scheduled_init : (init : CActionHandler ρ).Scheduled := ⟨nofun, nofun, nofun, nofun⟩

theorem clean_init : (init : CActionHandler ρ).Clean := fun _ hdead => absurd hdead.1 List.not_mem_nil

theorem allClean_step_iff {s : Option (CActionHandler ρ)} (hscheduled : AllScheduled s)
    (h : AllClean s) (event : Event ρ) : AllClean (step s event) ↔ Contained s event := by
  cases s with
  | none =>
    refine iff_of_true nofun ?_
    cases event <;> first | trivial | nofun
  | some s =>
    cases hreact : s.react event with
    | some t =>
      have hiff := (h s rfl).react_iff (hscheduled s rfl) hreact
      rw [← hiff]
      have hstep : step (some s) event = some t := hreact
      rw [hstep]
      exact ⟨fun hall => hall t rfl, fun hclean u hu => Option.some.inj hu ▸ hclean⟩
    | none =>
      have hstep : step (some s) event = none := hreact
      rw [hstep]
      refine iff_of_true nofun ?_
      cases event with
      | message => cases hreact
      | service => cases hreact
      | _ => trivial

/-- The media are clean in every state of a run if and only if each message and each clean-up
is contained. -/
theorem media_clean_iff (events : List (Event ρ)) :
    (∀ past s, past <+: events → GuardedRun.run step (some init) past = some s → s.Clean) ↔
      GuardedRun.Guarded step Contained (some (init : CActionHandler ρ)) events := by
  have hscheduled : AllScheduled (some (init : CActionHandler ρ)) := by
    intro t ht
    cases ht
    exact scheduled_init
  have hclean : AllClean (some (init : CActionHandler ρ)) := by
    intro t ht
    cases ht
    exact clean_init
  have hstep : ∀ (s : Option (CActionHandler ρ)) event, AllScheduled s →
      AllScheduled (step s event) := by
    intro s event h t ht
    obtain ⟨s', rfl, hreact⟩ := Option.bind_eq_some_iff.mp ht
    exact (h s' rfl).react hreact
  have hok : ∀ (s : Option (CActionHandler ρ)) event, AllScheduled s → AllClean s →
      (AllClean (step s event) ↔ Contained s event) := fun _ event hscheduled h =>
    allClean_step_iff hscheduled h event
  rw [← GuardedRun.always_iff hstep hok hscheduled hclean]
  exact ⟨fun h past hpast s => h past s hpast, fun h past s hpast => h past hpast s⟩

end Runs

end CActionHandler

namespace DirectMessage
open CActionHandler

/-- The request of an action goes to one medium, and a message that is for the action comes on
another one. -/
def events : List (Event Unit) :=
  [.createMedium 5, .createMedium 6, .executeAction 1 7, .addRequest 1 ⟨1, 1⟩,
    .service 1 fun _ => [5], .next, .next, .runRequests 5, .next, .message 6 7 0 true (),
    .setExit 1, .service 1 fun _ => [5], .destroy 1]

theorem entry_left : ¬ ∀ events s,
    GuardedRun.run step (some (CActionHandler.init : CActionHandler Unit)) events = some s →
      s.Clean := by
  intro h
  have hclean := h events _ rfl
  exact hclean 7 ⟨by decide, nofun⟩ 6 .queue ⟨_, rfl, List.mem_cons_self⟩

end DirectMessage

end Dims
