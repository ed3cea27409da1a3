import Dims.NodeMedium

/-!
# Delivery of the responses of a medium

The queue of a medium is meant to hand out the responses to requests and actions in
the order of their arrival. What arrived and what was handed out is recorded next to
the medium, and the medium is compared with a queue of the letters that wait.
-/

namespace Dims.ResponseDelivery
open CNodeMedium

inductive Addressee
  | request (id : Uint256)
  | action (key : Uint256)
  deriving DecidableEq, Repr

def Addressee.id : Addressee → Uint256
  | .request id => id
  | .action key => key

abbrev Letter (ρ : Type) := Addressee × ρ

variable {ρ : Type}

def toRequest : Letter ρ → Option (Uint256 × ρ)
  | (.request id, response) => some (id, response)
  | (.action _, _) => none

def toAction : Letter ρ → Option (Uint256 × ρ)
  | (.request _, _) => none
  | (.action key, response) => some (key, response)

structure Exchange (ρ : Type) where
  medium : CNodeMedium ρ
  arrived : List (Letter ρ)
  handed : List (Letter ρ)

/-- The calls on a medium that delete nothing. -/
inductive Call (ρ : Type)
  | add (request : CRequest)
  | setResponse (id : Uint256) (response : ρ)
  | addActionResponse (actionId : Uint256) (response : ρ)
  | getResponseAndClear
  | getDirectActionResponseAndClear (actionKey : Uint256)

namespace Exchange

def start : Exchange ρ := ⟨CNodeMedium.empty, [], []⟩

def step (e : Exchange ρ) : Call ρ → Except Fault (Exchange ρ)
  | .add request => .ok { e with medium := e.medium.add request }
  | .setResponse id response =>
    .ok ⟨e.medium.setResponse id response, e.arrived ++ [(.request id, response)], e.handed⟩
  | .addActionResponse actionId response =>
    .ok ⟨e.medium.addActionResponse actionId response, e.arrived ++ [(.action actionId, response)],
      e.handed⟩
  | .getResponseAndClear =>
    e.medium.getResponseAndClear.map fun r =>
      ⟨r.1, e.arrived, e.handed ++ r.2.map fun p => (.request p.1.getId, p.2)⟩
  | .getDirectActionResponseAndClear actionKey =>
    let r := e.medium.getDirectActionResponseAndClear actionKey
    .ok ⟨r.1, e.arrived, e.handed ++ r.2.map fun response => (.action actionKey, response)⟩

/-- The letters that wait are those that arrived after the ones that were handed out,
and the medium holds them, one entry of the queue for each. -/
structure Delivers (e : Exchange ρ) (waiting : List (Letter ρ)) : Prop where
  inOrder : e.arrived = e.handed ++ waiting
  queue : e.medium.synchronizeQueue = waiting.map fun letter => letter.1.id
  responses : e.medium.responses = waiting.filterMap toRequest
  actions : e.medium.actionToResponse = waiting.filterMap toAction
  /-- No letter is overlooked by the collecting calls. -/
  indexed : ∀ id response, (Addressee.request id, response) ∈ waiting → id ∈ e.medium.indexes

/-- Requests are kept under their own ids, and each response has an index. -/
structure Kept (e : Exchange ρ) : Prop where
  getId : ∀ id request, e.medium.idToRequest id = some request → request.getId = id
  indexed : ∀ p ∈ e.medium.responses, p.1 ∈ e.medium.indexes

/-- The letters that wait, were the deliveries right so far. -/
def waiting (e : Exchange ρ) : List (Letter ρ) := e.arrived.drop e.handed.length

theorem Delivers.waiting_eq {e : Exchange ρ} {waiting : List (Letter ρ)} (h : e.Delivers waiting) :
    e.waiting = waiting := by
  rw [Exchange.waiting, h.inOrder, List.drop_left]

/-- The condition of the calls that hand out: what they take from the queue belongs to
letters of theirs, and no letter to the same addressee waits behind it. -/
def Orderly (e : Exchange ρ) : Call ρ → Prop
  | .getResponseAndClear => e.medium.Collectable ∧
      ∀ letters rest, e.waiting = letters ++ rest →
        (letters.map fun letter => letter.1.id).Pairwise (· < ·) →
        (∀ letter ∈ letters, letter.1.id ∈ e.medium.indexes) →
        ∀ letter ∈ letters, letter.1 = .request letter.1.id ∧ ∀ later ∈ rest, later.1 ≠ letter.1
  | .getDirectActionResponseAndClear actionKey =>
      ∀ letter rest, e.waiting = letter :: rest → letter.1.id = actionKey →
        letter.1 = .action actionKey ∧ ∀ later ∈ rest, later.1 ≠ .action actionKey
  | _ => True

end Exchange

section Letters

def lettersTo (addressee : Addressee) (letters : List (Letter ρ)) : List (Letter ρ) :=
  letters.filter (·.1 = addressee)

variable {letters rest waiting : List (Letter ρ)}

theorem mem_lettersTo {addressee : Addressee} {letter : Letter ρ} :
    letter ∈ lettersTo addressee letters ↔ letter ∈ letters ∧ letter.1 = addressee := by
  simp [lettersTo]

theorem lettersTo_append (addressee : Addressee) :
    lettersTo addressee (letters ++ rest) =
      lettersTo addressee letters ++ lettersTo addressee rest := List.filter_append ..

theorem lettersTo_eq_nil {addressee : Addressee} (h : ∀ letter ∈ letters, letter.1 ≠ addressee) :
    lettersTo addressee letters = [] := by
  simpa [lettersTo] using fun a b hmem => h (a, b) hmem

theorem mem_filterMap_toRequest {p : Uint256 × ρ} :
    p ∈ letters.filterMap toRequest ↔ (.request p.1, p.2) ∈ letters := by
  rw [List.mem_filterMap]
  constructor
  · rintro ⟨⟨addressee, response⟩, hmem, hp⟩
    cases addressee with
    | request id =>
      cases hp
      exact hmem
    | action key => cases hp
  · intro hmem
    exact ⟨_, hmem, rfl⟩

theorem responsesOf_toRequest (id : Uint256) :
    ((responsesOf id (waiting.filterMap toRequest)).map fun p => (Addressee.request id, p.2)) =
      lettersTo (.request id) waiting := by
  induction waiting with
  | nil => rfl
  | cons letter waiting ih =>
    obtain ⟨addressee, response⟩ := letter
    cases addressee with
    | action key =>
      rw [List.filterMap_cons_none rfl]
      simpa [lettersTo] using ih
    | request id' =>
      by_cases h : id' = id
      · subst h
        simpa [toRequest, lettersTo, responsesOf] using ih
      · simpa [toRequest, lettersTo, responsesOf, h] using ih

theorem responsesOf_toAction (key : Uint256) :
    ((responsesOf key (waiting.filterMap toAction)).map fun p => (Addressee.action key, p.2)) =
      lettersTo (.action key) waiting := by
  induction waiting with
  | nil => rfl
  | cons letter waiting ih =>
    obtain ⟨addressee, response⟩ := letter
    cases addressee with
    | request id =>
      rw [List.filterMap_cons_none rfl]
      simpa [lettersTo] using ih
    | action key' =>
      by_cases h : key' = key
      · subst h
        simpa [toAction, lettersTo, responsesOf] using ih
      · simpa [toAction, lettersTo, responsesOf, h] using ih

theorem lettersTo_self (hdistinct : (letters.map fun letter => letter.1.id).Pairwise (· < ·))
    {letter : Letter ρ} (h : letter ∈ letters) : lettersTo letter.1 letters = [letter] := by
  induction letters with
  | nil => exact absurd h List.not_mem_nil
  | cons first letters ih =>
    rw [List.map_cons, List.pairwise_cons] at hdistinct
    obtain ⟨hfirst, hrest⟩ := hdistinct
    have hother : ∀ l ∈ letters, l.1 ≠ first.1 := fun l hl heq =>
      (hfirst _ (List.mem_map_of_mem hl)).ne (congrArg Addressee.id heq.symm)
    rcases List.mem_cons.mp h with rfl | h
    · have hnone := lettersTo_eq_nil hother
      simpa [lettersTo] using hnone
    · simpa [lettersTo, (hother letter h).symm] using ih hrest h

/-- Handing out everything for each taken id hands out the taken letters if and only
if they answer requests and no later letter has one of their addressees. -/
theorem flatMap_lettersTo_eq (hdistinct : (letters.map fun letter => letter.1.id).Pairwise (· < ·)) :
    (letters.flatMap fun letter => lettersTo (.request letter.1.id) (letters ++ rest)) = letters ↔
      ∀ letter ∈ letters, letter.1 = .request letter.1.id ∧ ∀ later ∈ rest, later.1 ≠ letter.1 := by
  constructor
  · intro heq letter hletter
    have hanswer : letter.1 = .request letter.1.id := by
      have hmem := heq.symm ▸ hletter
      obtain ⟨first, -, hfirst⟩ := List.mem_flatMap.mp hmem
      have haddressee := (mem_lettersTo.mp hfirst).2
      simp [haddressee, Addressee.id]
    refine ⟨hanswer, fun later hlater hsame => ?_⟩
    -- both letters would be handed out, with one id
    have hpair : ([letter] ++ [later]).Sublist
        (lettersTo (.request letter.1.id) (letters ++ rest)) := by
      rw [lettersTo_append]
      apply List.Sublist.append
      · exact List.singleton_sublist.mpr (mem_lettersTo.mpr ⟨hletter, hanswer⟩)
      · exact List.singleton_sublist.mpr (mem_lettersTo.mpr ⟨hlater, hsame.trans hanswer⟩)
    have hall : (lettersTo (.request letter.1.id) (letters ++ rest)).Sublist letters := by
      have hsub := List.sublist_flatten_of_mem (List.mem_map_of_mem
        (f := fun l : Letter ρ => lettersTo (.request l.1.id) (letters ++ rest)) hletter)
      rwa [← List.flatMap_def, heq] at hsub
    have hids := hdistinct.sublist ((hpair.trans hall).map fun letter => letter.1.id)
    simp [hsame] at hids
  · intro h
    have hone : ∀ letter ∈ letters,
        lettersTo (.request letter.1.id) (letters ++ rest) = [letter] := by
      intro letter hletter
      obtain ⟨hanswer, hlater⟩ := h letter hletter
      rw [← hanswer, lettersTo_append, lettersTo_self hdistinct hletter, lettersTo_eq_nil hlater,
        List.append_nil]
    rw [List.flatMap_congr hone, List.flatMap_singleton']

end Letters

namespace Exchange

variable {e e' : Exchange ρ} {waiting letters rest batch : List (Letter ρ)}

/-- After a batch for so many entries of the queue, the deliveries are right if and
only if the batch consists of the letters of these entries, and only they are gone. -/
theorem delivers_iff (h : e.Delivers (letters ++ rest)) (harrived : e'.arrived = e.arrived)
    (hhanded : e'.handed = e.handed ++ batch)
    (hqueue : e'.medium.synchronizeQueue = rest.map fun letter => letter.1.id)
    (hindexes : e'.medium.indexes = e.medium.indexes) :
    (∃ waiting, e'.Delivers waiting) ↔ batch = letters ∧
      e'.medium.responses = rest.filterMap toRequest ∧
        e'.medium.actionToResponse = rest.filterMap toAction := by
  constructor
  · rintro ⟨waiting, h'⟩
    have hsplit : batch ++ waiting = letters ++ rest := by
      have hinOrder := h'.inOrder
      rw [harrived, hhanded, h.inOrder, List.append_assoc] at hinOrder
      exact (List.append_cancel_left hinOrder).symm
    have hlength : waiting.length = rest.length := by
      simpa using congrArg List.length (h'.queue.symm.trans hqueue)
    obtain ⟨hbatch, rfl⟩ := List.append_inj' hsplit hlength
    exact ⟨hbatch, h'.responses, h'.actions⟩
  · rintro ⟨rfl, hresponses, hactions⟩
    refine ⟨rest, ⟨?_, hqueue, hresponses, hactions, fun id response hmem => ?_⟩⟩
    · rw [harrived, hhanded, h.inOrder, List.append_assoc]
    · rw [hindexes]
      exact h.indexed id response (List.mem_append_right _ hmem)

/-- A collecting call hands out the letters to the requests that it takes from the queue. -/
def collected (e : Exchange ρ) (waiting : List (Letter ρ)) : Exchange ρ :=
  ⟨{ e.medium with
      synchronizeQueue := e.medium.synchronizeQueue.drop e.medium.takenIds.length
      responses := e.medium.responses.filter (·.1 ∉ e.medium.takenIds) },
    e.arrived, e.handed ++ e.medium.takenIds.flatMap fun id => lettersTo (.request id) waiting⟩

theorem step_getResponseAndClear (h : e.Delivers waiting) (hkept : e.Kept)
    (hcollectable : e.medium.Collectable) :
    e.step .getResponseAndClear = .ok (e.collected waiting) := by
  have hletters : ∀ id ∈ e.medium.takenIds,
      ((e.medium.deliveries id).map fun p => (Addressee.request p.1.getId, p.2)) =
        lettersTo (.request id) waiting := by
    intro id hid
    rw [← responsesOf_toRequest, ← h.responses, deliveries]
    cases hrequest : e.medium.idToRequest id with
    | none =>
      have hnone : responsesOf id e.medium.responses = [] := by
        by_contra hsome
        obtain ⟨request, hr⟩ := hcollectable.addressed hid hsome
        rw [hrequest] at hr
        cases hr
      simp [hnone]
    | some request => simp [hkept.getId id request hrequest]
  have hbatch := List.flatMap_congr hletters
  rw [Exchange.step, e.medium.getResponseAndClear_of_collectable hcollectable, Except.map,
    List.map_flatMap, hbatch, collected]

theorem Kept.step {call : Call ρ} (h : e.Kept) (hstep : e.step call = .ok e') : e'.Kept := by
  cases call with
  | add request =>
    cases hstep
    refine ⟨fun id kept hkept => ?_, h.indexed⟩
    by_cases hid : id = request.getId
    · subst hid
      simp only [CNodeMedium.add, setLastRequest, Function.update_self, Option.some.injEq] at hkept
      rw [← hkept]
    · simp only [CNodeMedium.add, setLastRequest, Function.update_of_ne hid] at hkept
      exact h.getId id kept hkept
  | setResponse id response =>
    cases hstep
    refine ⟨h.getId, fun p hp => ?_⟩
    simp only [CNodeMedium.setResponse, List.mem_append, List.mem_singleton] at hp
    rcases hp with hp | rfl
    · exact OrderedSet.mem_insert.mpr (.inr (h.indexed p hp))
    · exact OrderedSet.mem_insert.mpr (.inl rfl)
  | addActionResponse actionId response =>
    cases hstep
    exact ⟨h.getId, h.indexed⟩
  | getResponseAndClear =>
    cases hget : e.medium.getResponseAndClear with
    | error fault => simp [Exchange.step, hget, Except.map] at hstep
    | ok r =>
      have hcollectable := e.medium.collectable_of_getResponseAndClear hget
      rw [Exchange.step, e.medium.getResponseAndClear_of_collectable hcollectable] at hstep
      cases hstep
      exact ⟨h.getId, fun p hp => h.indexed p (List.mem_filter.mp hp).1⟩
  | getDirectActionResponseAndClear actionKey =>
    cases hstep
    unfold getDirectActionResponseAndClear
    split
    · exact ⟨h.getId, h.indexed⟩
    · split <;> exact ⟨h.getId, h.indexed⟩

theorem Delivers.split (h : e.Delivers waiting) : ∃ letters rest, waiting = letters ++ rest ∧
    e.medium.takenIds = letters.map (fun letter => letter.1.id) ∧
    e.medium.synchronizeQueue.drop e.medium.takenIds.length =
      rest.map fun letter => letter.1.id := by
  have hpre := e.medium.takenIds_spec.1
  rw [h.queue, List.prefix_iff_eq_take] at hpre
  refine ⟨waiting.take e.medium.takenIds.length, waiting.drop e.medium.takenIds.length,
    (List.take_append_drop _ _).symm, ?_, ?_⟩
  · rw [List.map_take]
    exact hpre
  · rw [h.queue, List.map_drop]

theorem collected_delivers_iff (h : e.Delivers (letters ++ rest))
    (hids : e.medium.takenIds = letters.map fun letter => letter.1.id)
    (hdrop : e.medium.synchronizeQueue.drop e.medium.takenIds.length =
      rest.map fun letter => letter.1.id) :
    (∃ w, (e.collected (letters ++ rest)).Delivers w) ↔
      ∀ letter ∈ letters, letter.1 = .request letter.1.id ∧ ∀ later ∈ rest, later.1 ≠ letter.1 := by
  have hasc := e.medium.takenIds_spec.2.1
  rw [hids] at hasc
  have hiff : (∃ w, (e.collected (letters ++ rest)).Delivers w) ↔ _ :=
    delivers_iff h rfl rfl hdrop rfl
  rw [hids, List.flatMap_map, flatMap_lettersTo_eq hasc] at hiff
  rw [hiff]
  refine and_iff_left_of_imp fun hcond => ⟨?_, ?_⟩
  · have hgone : (letters.filterMap toRequest).filter (·.1 ∉ e.medium.takenIds) = [] := by
      refine List.filter_eq_nil_iff.mpr fun p hp => ?_
      have hid : p.1 ∈ e.medium.takenIds := by
        rw [hids]
        exact List.mem_map_of_mem (mem_filterMap_toRequest.mp hp)
      simp [hid]
    have hstays : (rest.filterMap toRequest).filter (·.1 ∉ e.medium.takenIds) =
        rest.filterMap toRequest := by
      refine List.filter_eq_self.mpr fun p hp => decide_eq_true fun hid => ?_
      rw [hids] at hid
      obtain ⟨letter, hletter, hsame⟩ := List.mem_map.mp hid
      obtain ⟨hanswer, hlater⟩ := hcond letter hletter
      exact hlater _ (mem_filterMap_toRequest.mp hp) (by rw [hanswer, hsame])
    have hresponses := h.responses
    rw [List.filterMap_append] at hresponses
    simp only [collected, hresponses, List.filter_append, hgone, hstays, List.nil_append]
  · have hnone : letters.filterMap toAction = [] := by
      refine List.filterMap_eq_nil_iff.mpr fun letter hletter => ?_
      obtain ⟨addressee, response⟩ := letter
      have hanswer : addressee = .request addressee.id := (hcond _ hletter).1
      rw [hanswer]
      rfl
    have hactions := h.actions
    rw [List.filterMap_append, hnone, List.nil_append] at hactions
    exact hactions

theorem getResponseAndClear_delivers_iff (h : e.Delivers waiting) (hkept : e.Kept) :
    (∃ t, e.step .getResponseAndClear = .ok t ∧ ∃ w, t.Delivers w) ↔
      e.Orderly .getResponseAndClear := by
  obtain ⟨letters, rest, rfl, hids, hdrop⟩ := h.split
  obtain ⟨hpre, hasc, hsub⟩ := e.medium.takenIds_spec
  rw [hids] at hasc hsub
  have hmeets : e.Orderly .getResponseAndClear ↔ e.medium.Collectable ∧
      ∀ letter ∈ letters, letter.1 = .request letter.1.id ∧ ∀ later ∈ rest, later.1 ≠ letter.1 := by
    refine and_congr_right fun _ => ⟨fun hall => ?_, fun hall first behind hfirst hasc' hsub' => ?_⟩
    · exact hall letters rest h.waiting_eq hasc fun letter hl => hsub _ (List.mem_map_of_mem hl)
    · -- no other run of ascending ids is longer than the one that is taken
      rw [h.waiting_eq] at hfirst
      have hshorter : first.map (fun letter => letter.1.id) <+: e.medium.takenIds := by
        refine prefix_taken e.medium.indexes.sorted ?_ hasc' fun id hid => ?_
        · rw [h.queue, hfirst, List.map_append]
          exact List.prefix_append _ _
        · obtain ⟨letter, hl, rfl⟩ := List.mem_map.mp hid
          exact hsub' letter hl
      have hlength : first.length ≤ letters.length := by
        simpa [hids] using hshorter.length_le
      obtain ⟨middle, rfl⟩ : first <+: letters :=
        List.prefix_of_prefix_length_le ⟨behind, hfirst.symm⟩ (List.prefix_append _ _) hlength
      rw [List.append_assoc] at hfirst
      obtain rfl := List.append_cancel_left hfirst
      intro letter hletter
      refine ⟨(hall letter (List.mem_append_left _ hletter)).1, fun later hlater hsame => ?_⟩
      rcases List.mem_append.mp hlater with hmiddle | hrest
      · rw [List.map_append, List.pairwise_append] at hasc
        have hlt := hasc.2.2 _ (List.mem_map_of_mem hletter) _ (List.mem_map_of_mem hmiddle)
        exact hlt.ne (congrArg Addressee.id hsame.symm)
      · exact (hall letter (List.mem_append_left _ hletter)).2 later hrest hsame
  rw [hmeets, ← collected_delivers_iff h hids hdrop]
  constructor
  · rintro ⟨t, ht, hgood⟩
    have hcollectable : e.medium.Collectable := by
      cases hget : e.medium.getResponseAndClear with
      | error fault => simp [Exchange.step, hget, Except.map] at ht
      | ok r => exact e.medium.collectable_of_getResponseAndClear hget
    rw [step_getResponseAndClear h hkept hcollectable] at ht
    obtain rfl := (Except.ok.inj ht).symm
    exact ⟨hcollectable, hgood⟩
  · rintro ⟨hcollectable, hgood⟩
    exact ⟨_, step_getResponseAndClear h hkept hcollectable, hgood⟩

/-- What an action takes when its key is in front. -/
def taken (e : Exchange ρ) (actionKey : Uint256) (waiting rest : List (Letter ρ)) : Exchange ρ :=
  ⟨{ e.medium with
      synchronizeQueue := rest.map fun letter => letter.1.id
      actionToResponse := eraseKey actionKey e.medium.actionToResponse },
    e.arrived, e.handed ++ lettersTo (.action actionKey) waiting⟩

theorem taken_delivers_iff {actionKey : Uint256} {letter : Letter ρ}
    (h : e.Delivers (letter :: rest)) :
    (∃ w, (e.taken actionKey (letter :: rest) rest).Delivers w) ↔
      letter.1 = .action actionKey ∧ ∀ later ∈ rest, later.1 ≠ .action actionKey := by
  have hiff : (∃ w, (e.taken actionKey (letter :: rest) rest).Delivers w) ↔ _ :=
    delivers_iff (show e.Delivers ([letter] ++ rest) from h) rfl rfl rfl rfl
  have hbatch : lettersTo (.action actionKey) (letter :: rest) = [letter] ↔
      letter.1 = .action actionKey ∧ ∀ later ∈ rest, later.1 ≠ .action actionKey := by
    by_cases hmine : letter.1 = .action actionKey
    · simp [lettersTo, hmine]
    · refine iff_of_false (fun heq => hmine ?_) fun hcond => hmine hcond.1
      exact (mem_lettersTo.mp (heq.symm ▸ List.mem_singleton_self letter)).2
  rw [hiff, hbatch]
  refine and_iff_left_of_imp fun ⟨hmine, hlater⟩ => ⟨?_, ?_⟩
  · obtain ⟨addressee, response⟩ := letter
    obtain rfl : addressee = .action actionKey := hmine
    have hresponses := h.responses
    rw [List.filterMap_cons_none rfl] at hresponses
    exact hresponses
  · obtain ⟨addressee, response⟩ := letter
    obtain rfl : addressee = .action actionKey := hmine
    have hnone : responsesOf actionKey (rest.filterMap toAction) = [] := by
      have hrest : _ = lettersTo (.action actionKey) rest := responsesOf_toAction actionKey
      rw [lettersTo_eq_nil hlater] at hrest
      exact List.map_eq_nil_iff.mp hrest
    have hactions : e.medium.actionToResponse = (actionKey, response) :: rest.filterMap toAction :=
      h.actions
    have hfirst : eraseKey actionKey ((actionKey, response) :: rest.filterMap toAction) =
        eraseKey actionKey (rest.filterMap toAction) := by
      simp [eraseKey]
    show eraseKey actionKey e.medium.actionToResponse = rest.filterMap toAction
    rw [hactions, hfirst, eraseKey_of_responsesOf hnone]

theorem getDirectActionResponseAndClear_delivers_iff (h : e.Delivers waiting) (actionKey : Uint256) :
    (∃ t, e.step (.getDirectActionResponseAndClear actionKey) = .ok t ∧ ∃ w, t.Delivers w) ↔
      e.Orderly (.getDirectActionResponseAndClear actionKey) := by
  have hunfold : e.Orderly (.getDirectActionResponseAndClear actionKey) ↔
      ∀ letter rest, waiting = letter :: rest → letter.1.id = actionKey →
        letter.1 = .action actionKey ∧ ∀ later ∈ rest, later.1 ≠ .action actionKey := by
    rw [← h.waiting_eq]
    rfl
  rw [hunfold]
  cases waiting with
  | nil =>
    have hstep : e.step (.getDirectActionResponseAndClear actionKey) = .ok e := by
      simp [Exchange.step, getDirectActionResponseAndClear, h.queue]
    exact iff_of_true ⟨e, hstep, [], h⟩ fun letter rest heq => by cases heq
  | cons letter rest =>
    by_cases hkey : actionKey = letter.1.id
    · have hstep : e.step (.getDirectActionResponseAndClear actionKey) =
          .ok (e.taken actionKey (letter :: rest) rest) := by
        simp [Exchange.step, getDirectActionResponseAndClear, h.queue, ← hkey, taken,
          ← responsesOf_toAction, ← h.actions]
      rw [hstep]
      constructor
      · rintro ⟨t, ht, hgood⟩ letter' rest' heq -
        cases heq
        cases ht
        exact (taken_delivers_iff h).mp hgood
      · intro hcond
        exact ⟨_, rfl, (taken_delivers_iff h).mpr (hcond letter rest rfl hkey.symm)⟩
    · have hstep : e.step (.getDirectActionResponseAndClear actionKey) = .ok e := by
        simp [Exchange.step, getDirectActionResponseAndClear, h.queue, hkey]
      refine iff_of_true ⟨e, hstep, _, h⟩ fun letter' rest' heq hid => ?_
      cases heq
      exact absurd hid.symm hkey

theorem step_delivers_iff (h : e.Delivers waiting) (hkept : e.Kept) (call : Call ρ) :
    (∃ t, e.step call = .ok t ∧ ∃ w, t.Delivers w) ↔ e.Orderly call := by
  cases call with
  | add request =>
    exact iff_of_true ⟨_, rfl, waiting, h.inOrder, h.queue, h.responses, h.actions, h.indexed⟩ trivial
  | setResponse id response =>
    refine iff_of_true ⟨_, rfl, waiting ++ [(.request id, response)], ?_, ?_, ?_, ?_, ?_⟩ trivial
    · simp [h.inOrder]
    · simp [CNodeMedium.setResponse, h.queue, Addressee.id]
    · simp [CNodeMedium.setResponse, h.responses, toRequest]
    · simp [CNodeMedium.setResponse, h.actions, toAction]
    · intro id' response' hmem
      apply OrderedSet.mem_insert.mpr
      rcases List.mem_append.mp hmem with hold | hnew
      · exact .inr (h.indexed id' response' hold)
      · cases List.mem_singleton.mp hnew
        exact .inl rfl
  | addActionResponse actionId response =>
    refine iff_of_true ⟨_, rfl, waiting ++ [(.action actionId, response)], ?_, ?_, ?_, ?_, ?_⟩ trivial
    · simp [h.inOrder]
    · simp [CNodeMedium.addActionResponse, h.queue, Addressee.id]
    · simp [CNodeMedium.addActionResponse, h.responses, toRequest]
    · simp [CNodeMedium.addActionResponse, h.actions, toAction]
    · intro id' response' hmem
      rcases List.mem_append.mp hmem with hold | hnew
      · exact h.indexed id' response' hold
      · cases List.mem_singleton.mp hnew
  | getResponseAndClear => exact getResponseAndClear_delivers_iff h hkept
  | getDirectActionResponseAndClear actionKey =>
    exact getDirectActionResponseAndClear_delivers_iff h actionKey

theorem delivers_start : (start : Exchange ρ).Delivers [] :=
  ⟨rfl, rfl, rfl, rfl, fun _ _ hmem => absurd hmem List.not_mem_nil⟩

theorem kept_start : (start : Exchange ρ).Kept :=
  ⟨fun _ _ h => (nomatch h), fun _ hp => absurd hp List.not_mem_nil⟩

/-- Throughout a run every response is handed out once, to its addressee and in the
order of arrival, and the queue holds nothing else than the letters that wait, if and
only if the calls that hand out are orderly. -/
theorem delivers_throughout_iff (calls : List (Call ρ)) :
    (∀ past, past <+: calls →
      ∃ e, FallibleRun.run step start past = .ok e ∧ ∃ waiting, e.Delivers waiting) ↔
        FallibleRun.Guarded step Orderly (start : Exchange ρ) calls :=
  FallibleRun.always_iff (fun _ _ _ hkept hstep => hkept.step hstep)
    (fun _ call hkept ⟨_, h⟩ => step_delivers_iff h hkept call) kept_start ⟨[], delivers_start⟩

/-- Two responses with one id are collected together, and an entry stays in the queue. -/
theorem stale_entry :
    ¬∀ (calls past : List (Call ℕ)), past <+: calls →
      ∃ e, FallibleRun.run step start past = .ok e ∧ ∃ waiting, e.Delivers waiting := by
  intro h
  obtain ⟨e, he, waiting, hdelivers⟩ :=
    h [.add ⟨0, 1⟩, .setResponse 1 10, .setResponse 1 11, .getResponseAndClear] _ (List.prefix_refl _)
  cases he
  have hqueue := hdelivers.queue
  have harrived := hdelivers.inOrder
  cases waiting with
  | nil => cases hqueue
  | cons letter waiting => simpa [start] using congrArg List.length harrived

end Exchange

end Dims.ResponseDelivery
