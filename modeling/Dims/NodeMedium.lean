import Dims.Core
import Dims.OrderedSet
import Dims.FallibleRun

/-!
# The medium of a node

What is kept of the requests that were sent to a node, and of the responses that
came from it, until the requests and actions ask for them. The ids of the responses
are read from messages of the peer. Reading the front of an empty queue, and using
an entry that is not there, is undefined behaviour in the source and a fault here.
-/

namespace Dims

/-- A request is known by its address; several may carry one id. -/
structure CNodeMedium.CRequest where
  address : ℕ
  id : Uint256
  deriving DecidableEq, Repr

def CNodeMedium.CRequest.getId (request : CRequest) : Uint256 := request.id

structure CNodeMedium (ρ : Type) where
  /-- The multimap of responses by id, in the order of insertion. -/
  responses : List (Uint256 × ρ)
  indexes : OrderedSet Uint256
  synchronizeQueue : List Uint256
  idToRequest : Uint256 → Option CNodeMedium.CRequest
  actionToResponse : List (Uint256 × ρ)

namespace CNodeMedium

variable {ρ : Type}

inductive Fault
  | emptyQueue
  | missingRequest
  | missingResponse
  deriving DecidableEq, Repr

def empty : CNodeMedium ρ := ⟨[], .empty, [], fun _ => none, []⟩

/-- The responses from `lower_bound` to `upper_bound` of an id. -/
def responsesOf (id : Uint256) (responses : List (Uint256 × ρ)) : List (Uint256 × ρ) :=
  responses.filter (·.1 = id)

/-- A multimap without the entries of a key. -/
def eraseKey (id : Uint256) (responses : List (Uint256 × ρ)) : List (Uint256 × ρ) :=
  responses.filter (·.1 ≠ id)

def serviced (m : CNodeMedium ρ) : Bool := !m.responses.isEmpty

def setLastRequest (m : CNodeMedium ρ) (id : Uint256) (request : CRequest) : CNodeMedium ρ :=
  { m with idToRequest := Function.update m.idToRequest id (some request) }

def add (m : CNodeMedium ρ) (request : CRequest) : CNodeMedium ρ :=
  m.setLastRequest request.getId request

/-- What the collecting loop changes: the queue, the multimap that it fills (in the
order of insertion) and the ids to be cleared. -/
structure Collecting (ρ : Type) where
  queue : List Uint256
  requestResponse : List (CRequest × ρ)
  deleteList : List Uint256

/-- The inner loop, over the responses with the id of the index. -/
def insertResponses (m : CNodeMedium ρ) (index : Uint256) :
    List (Uint256 × ρ) → Collecting ρ → Except Fault (Collecting ρ)
  | [], c => .ok c
  | response :: responses, c =>
    match m.idToRequest index with
    | none => .error .missingRequest
    | some request =>
      m.insertResponses index responses { c with
        requestResponse := c.requestResponse ++ [(request, response.2)]
        deleteList := c.deleteList ++ [index] }

/-- The outer loop, over the indexes. The queue is read at each of them. -/
def collect (m : CNodeMedium ρ) : List Uint256 → Collecting ρ → Except Fault (Collecting ρ)
  | [], c => .ok c
  | index :: indexes, c =>
    match c.queue with
    | [] => .error .emptyQueue
    | front :: queue =>
      if index ≠ front then m.collect indexes c
      else
        (m.insertResponses index (responsesOf index m.responses) { c with queue := queue }).bind
          (m.collect indexes)

/-- The first response of each id is erased. Where there is none, `lower_bound`
gives another entry or the end. -/
def clearResponses : List Uint256 → List (Uint256 × ρ) → Except Fault (List (Uint256 × ρ))
  | [], responses => .ok responses
  | id :: deleteList, responses =>
    if responses.any (·.1 = id) then clearResponses deleteList (responses.eraseP (·.1 = id))
    else .error .missingResponse

def getResponseAndClear (m : CNodeMedium ρ) :
    Except Fault (CNodeMedium ρ × List (CRequest × ρ)) :=
  if m.synchronizeQueue = [] then .ok (m, [])
  else
    (m.collect m.indexes.elements ⟨m.synchronizeQueue, [], []⟩).bind fun c =>
      (clearResponses c.deleteList m.responses).bind fun responses =>
        .ok ({ m with synchronizeQueue := c.queue, responses := responses }, c.requestResponse)

def setResponse (m : CNodeMedium ρ) (id : Uint256) (response : ρ) : CNodeMedium ρ :=
  { m with
    responses := m.responses ++ [(id, response)]
    indexes := m.indexes.insert id
    synchronizeQueue := m.synchronizeQueue ++ [id] }

def addActionResponse (m : CNodeMedium ρ) (actionId : Uint256) (response : ρ) : CNodeMedium ρ :=
  { m with
    actionToResponse := m.actionToResponse ++ [(actionId, response)]
    synchronizeQueue := m.synchronizeQueue ++ [actionId] }

def deleteAction (m : CNodeMedium ρ) (actionKey : Uint256) : CNodeMedium ρ :=
  { m with
    actionToResponse := eraseKey actionKey m.actionToResponse
    synchronizeQueue := m.synchronizeQueue.filter (· ≠ actionKey) }

def getDirectActionResponseAndClear (m : CNodeMedium ρ) (actionKey : Uint256) :
    CNodeMedium ρ × List ρ :=
  match m.synchronizeQueue with
  | [] => (m, [])
  | front :: queue =>
    if actionKey ≠ front then (m, [])
    else
      ({ m with
          synchronizeQueue := queue
          actionToResponse := eraseKey actionKey m.actionToResponse },
        (responsesOf actionKey m.actionToResponse).map Prod.snd)

def deleteRequest (m : CNodeMedium ρ) (request : CRequest) : CNodeMedium ρ :=
  { m with
    idToRequest := Function.update m.idToRequest request.getId none
    responses := eraseKey request.getId m.responses
    indexes := m.indexes.erase request.getId
    synchronizeQueue := m.synchronizeQueue.filter (· ≠ request.getId) }

/-- The calls that are made on a medium. An action is known by its key. -/
inductive Call (ρ : Type)
  | add (request : CRequest)
  | setResponse (id : Uint256) (response : ρ)
  | addActionResponse (actionId : Uint256) (response : ρ)
  | deleteRequest (request : CRequest)
  | deleteAction (actionKey : Uint256)
  | getResponseAndClear
  | getDirectActionResponseAndClear (actionKey : Uint256)

def call (m : CNodeMedium ρ) : Call ρ → Except Fault (CNodeMedium ρ)
  | .add request => .ok (m.add request)
  | .setResponse id response => .ok (m.setResponse id response)
  | .addActionResponse actionId response => .ok (m.addActionResponse actionId response)
  | .deleteRequest request => .ok (m.deleteRequest request)
  | .deleteAction actionKey => .ok (m.deleteAction actionKey)
  | .getResponseAndClear => m.getResponseAndClear.map Prod.fst
  | .getDirectActionResponseAndClear actionKey =>
    .ok (m.getDirectActionResponseAndClear actionKey).1

/-- The responses of an id can be handed out if a request with the id is kept. -/
def Addressed (m : CNodeMedium ρ) (id : Uint256) : Prop :=
  responsesOf id m.responses ≠ [] → ∃ request, m.idToRequest id = some request

/-- A collecting call is safe if what it takes from the queue, a run of ascending
indexes, is addressed and leaves either an entry in the queue or no index above it. -/
def Collectable (m : CNodeMedium ρ) : Prop :=
  m.synchronizeQueue ≠ [] → ∀ ids, ids <+: m.synchronizeQueue → ids.Pairwise (· < ·) →
    (∀ id ∈ ids, id ∈ m.indexes) → (∀ id ∈ ids, m.Addressed id) ∧
      (ids = m.synchronizeQueue → ∀ index ∈ m.indexes, ∃ id ∈ ids, index ≤ id)

/-- What the outer loop takes from the queue. -/
def taken : List Uint256 → List Uint256 → List Uint256
  | index :: indexes, front :: queue =>
    if index ≠ front then taken indexes (front :: queue) else front :: taken indexes queue
  | _, _ => []

section Taken

variable {index front : Uint256} {indexes queue : List Uint256}

@[simp] theorem taken_nil (queue : List Uint256) : taken [] queue = [] := rfl

@[simp] theorem taken_nil_right (indexes : List Uint256) : taken indexes [] = [] := by
  cases indexes <;> rfl

theorem taken_cons_of_ne (h : index ≠ front) :
    taken (index :: indexes) (front :: queue) = taken indexes (front :: queue) := if_pos h

@[simp] theorem taken_cons_self :
    taken (front :: indexes) (front :: queue) = front :: taken indexes queue :=
  if_neg fun h => h rfl

theorem taken_spec (hsorted : indexes.Pairwise (· < ·)) (queue : List Uint256) :
    taken indexes queue <+: queue ∧ (taken indexes queue).Pairwise (· < ·) ∧
      ∀ id ∈ taken indexes queue, id ∈ indexes := by
  induction indexes generalizing queue with
  | nil => simp
  | cons index indexes ih =>
    obtain ⟨habove, hrest⟩ := List.pairwise_cons.mp hsorted
    cases queue with
    | nil => simp
    | cons front queue =>
      by_cases heq : index = front
      · subst heq
        obtain ⟨hpre, hasc, hsub⟩ := ih hrest queue
        rw [taken_cons_self]
        refine ⟨List.cons_prefix_cons.mpr ⟨rfl, hpre⟩,
          List.pairwise_cons.mpr ⟨fun id hid => habove id (hsub id hid), hasc⟩, fun id hid => ?_⟩
        rcases List.mem_cons.mp hid with rfl | hid
        · exact List.mem_cons_self
        · exact List.mem_cons_of_mem _ (hsub id hid)
      · obtain ⟨hpre, hasc, hsub⟩ := ih hrest (front :: queue)
        rw [taken_cons_of_ne heq]
        exact ⟨hpre, hasc, fun id hid => List.mem_cons_of_mem _ (hsub id hid)⟩

/-- No longer prefix of the queue ascends through the indexes. -/
theorem prefix_taken (hsorted : indexes.Pairwise (· < ·)) {ids queue : List Uint256}
    (hpre : ids <+: queue) (hasc : ids.Pairwise (· < ·)) (hsub : ∀ id ∈ ids, id ∈ indexes) :
    ids <+: taken indexes queue := by
  induction indexes generalizing queue ids with
  | nil =>
    cases ids with
    | nil => exact List.nil_prefix
    | cons id ids => simpa using hsub id List.mem_cons_self
  | cons index indexes ih =>
    obtain ⟨habove, hrest⟩ := List.pairwise_cons.mp hsorted
    cases ids with
    | nil => exact List.nil_prefix
    | cons id ids =>
      cases queue with
      | nil => simp at hpre
      | cons front queue =>
        obtain ⟨rfl, htail⟩ := List.cons_prefix_cons.mp hpre
        obtain ⟨hover, hasc'⟩ := List.pairwise_cons.mp hasc
        by_cases heq : index = id
        · subst heq
          rw [taken_cons_self]
          refine List.cons_prefix_cons.mpr ⟨rfl, ih hrest htail hasc' fun k hk => ?_⟩
          rcases List.mem_cons.mp (hsub k (List.mem_cons_of_mem _ hk)) with rfl | h
          · exact absurd (hover k hk) (lt_irrefl _)
          · exact h
        · have hid : id ∈ indexes :=
            (List.mem_cons.mp (hsub id List.mem_cons_self)).resolve_left (Ne.symm heq)
          rw [taken_cons_of_ne heq]
          refine ih hrest hpre hasc fun k hk => ?_
          rcases List.mem_cons.mp hk with rfl | hk
          · exact hid
          · rcases List.mem_cons.mp (hsub k (List.mem_cons_of_mem _ hk)) with rfl | h
            · exact absurd ((habove id hid).trans (hover k hk)) (lt_irrefl _)
            · exact h

end Taken

section Collect

variable (m : CNodeMedium ρ)

/-- What is handed out for an id. -/
def deliveries (id : Uint256) : List (CRequest × ρ) :=
  match m.idToRequest id with
  | none => []
  | some request => (responsesOf id m.responses).map fun response => (request, response.2)

/-- The ids that an id puts on the list of those to be cleared. -/
def deleted (id : Uint256) : List Uint256 := (responsesOf id m.responses).map fun _ => id

theorem insertResponses_of_some {index : Uint256} {request : CRequest}
    (h : m.idToRequest index = some request) (responses : List (Uint256 × ρ)) (c : Collecting ρ) :
    m.insertResponses index responses c = .ok { c with
      requestResponse := c.requestResponse ++ responses.map fun response => (request, response.2)
      deleteList := c.deleteList ++ responses.map fun _ => index } := by
  induction responses generalizing c with
  | nil => simp [insertResponses]
  | cons response responses ih => simp [insertResponses, h, ih]

theorem insertResponses_of_addressed {index : Uint256} (h : m.Addressed index)
    (c : Collecting ρ) :
    m.insertResponses index (responsesOf index m.responses) c = .ok { c with
      requestResponse := c.requestResponse ++ m.deliveries index
      deleteList := c.deleteList ++ m.deleted index } := by
  by_cases hnone : responsesOf index m.responses = []
  · have hdeliveries : m.deliveries index = [] := by
      unfold deliveries
      rw [hnone]
      split <;> rfl
    simp [insertResponses, hnone, hdeliveries, deleted]
  · obtain ⟨request, hrequest⟩ := h hnone
    rw [m.insertResponses_of_some hrequest, deliveries, hrequest, deleted]

theorem insertResponses_of_not_addressed {index : Uint256} (h : ¬m.Addressed index)
    (c : Collecting ρ) :
    m.insertResponses index (responsesOf index m.responses) c = .error .missingRequest := by
  obtain ⟨hsome, hnone⟩ := Classical.not_imp.mp h
  have hrequest : m.idToRequest index = none :=
    Option.eq_none_iff_forall_ne_some.mpr fun request hr => hnone ⟨request, hr⟩
  obtain ⟨response, responses, heq⟩ := List.exists_cons_of_ne_nil hsome
  rw [heq, insertResponses, hrequest]

/-- The outer loop meets no fault: it takes addressed ids, and does not empty the
queue before the last index. -/
structure Drains (indexes queue : List Uint256) : Prop where
  addressed : ∀ id ∈ taken indexes queue, m.Addressed id
  stops : taken indexes queue = queue → ∀ index ∈ indexes, ∃ id ∈ queue, index ≤ id

theorem not_drains_nil_right (index : Uint256) (indexes : List Uint256) :
    ¬m.Drains (index :: indexes) [] := by
  intro h
  obtain ⟨id, hid, -⟩ := h.stops rfl index List.mem_cons_self
  exact absurd hid List.not_mem_nil

theorem drains_cons_of_ne {index front : Uint256} {indexes queue : List Uint256}
    (hsorted : (index :: indexes).Pairwise (· < ·)) (hne : index ≠ front) :
    m.Drains (index :: indexes) (front :: queue) ↔ m.Drains indexes (front :: queue) := by
  obtain ⟨habove, hrest⟩ := List.pairwise_cons.mp hsorted
  have heq : taken (index :: indexes) (front :: queue) = taken indexes (front :: queue) :=
    taken_cons_of_ne hne
  constructor
  · intro h
    exact ⟨fun id hid => h.addressed id (heq ▸ hid),
      fun hall k hk => h.stops (heq.trans hall) k (List.mem_cons_of_mem _ hk)⟩
  · intro h
    refine ⟨fun id hid => h.addressed id (heq ▸ hid), fun hall k hk => ?_⟩
    rw [heq] at hall
    rcases List.mem_cons.mp hk with rfl | hk
    · have hfront : front ∈ indexes :=
        (taken_spec hrest (front :: queue)).2.2 front (by rw [hall]; exact List.mem_cons_self)
      exact ⟨front, List.mem_cons_self, (habove front hfront).le⟩
    · exact h.stops hall k hk

theorem drains_cons_self {front : Uint256} {indexes queue : List Uint256}
    (hsorted : (front :: indexes).Pairwise (· < ·)) :
    m.Drains (front :: indexes) (front :: queue) ↔ m.Addressed front ∧ m.Drains indexes queue := by
  obtain ⟨habove, -⟩ := List.pairwise_cons.mp hsorted
  constructor
  · intro h
    refine ⟨h.addressed front (by simp), ⟨fun id hid => h.addressed id (by simp [hid]), ?_⟩⟩
    intro hall k hk
    obtain ⟨id, hid, hle⟩ := h.stops (by rw [taken_cons_self, hall]) k (List.mem_cons_of_mem _ hk)
    rcases List.mem_cons.mp hid with rfl | hid
    · exact absurd (habove k hk) (not_lt.mpr hle)
    · exact ⟨id, hid, hle⟩
  · rintro ⟨hfront, h⟩
    refine ⟨fun id hid => ?_, fun hall k hk => ?_⟩
    · rw [taken_cons_self] at hid
      rcases List.mem_cons.mp hid with rfl | hid
      · exact hfront
      · exact h.addressed id hid
    · rw [taken_cons_self, List.cons.injEq] at hall
      rcases List.mem_cons.mp hk with rfl | hk
      · exact ⟨k, List.mem_cons_self, le_rfl⟩
      · obtain ⟨id, hid, hle⟩ := h.stops hall.2 k hk
        exact ⟨id, List.mem_cons_of_mem _ hid, hle⟩

theorem collect_of_drains {indexes queue : List Uint256} (hsorted : indexes.Pairwise (· < ·))
    (h : m.Drains indexes queue) (requestResponse : List (CRequest × ρ))
    (deleteList : List Uint256) :
    m.collect indexes ⟨queue, requestResponse, deleteList⟩ =
      .ok ⟨queue.drop (taken indexes queue).length,
        requestResponse ++ (taken indexes queue).flatMap m.deliveries,
        deleteList ++ (taken indexes queue).flatMap m.deleted⟩ := by
  induction indexes generalizing queue requestResponse deleteList with
  | nil => simp [collect]
  | cons index indexes ih =>
    have hrest := (List.pairwise_cons.mp hsorted).2
    cases queue with
    | nil => exact absurd h (m.not_drains_nil_right index indexes)
    | cons front queue =>
      by_cases heq : index = front
      · subst heq
        obtain ⟨haddressed, hdrains⟩ := (m.drains_cons_self hsorted).mp h
        simp [collect, m.insertResponses_of_addressed haddressed, Except.bind, ih hrest hdrains]
      · have hdrains := (m.drains_cons_of_ne hsorted heq).mp h
        simp [collect, heq, ih hrest hdrains, taken_cons_of_ne heq]

theorem drains_of_collect {indexes : List Uint256} (hsorted : indexes.Pairwise (· < ·))
    {c d : Collecting ρ} (h : m.collect indexes c = .ok d) : m.Drains indexes c.queue := by
  induction indexes generalizing c with
  | nil => exact ⟨by simp, by simp⟩
  | cons index indexes ih =>
    obtain ⟨queue, requestResponse, deleteList⟩ := c
    have hrest := (List.pairwise_cons.mp hsorted).2
    cases queue with
    | nil => simp [collect] at h
    | cons front queue =>
      by_cases heq : index = front
      · subst heq
        by_cases haddressed : m.Addressed index
        · simp only [collect, ne_eq, not_true_eq_false, ↓reduceIte,
            m.insertResponses_of_addressed haddressed, Except.bind] at h
          exact (m.drains_cons_self hsorted).mpr ⟨haddressed, ih hrest h⟩
        · simp [collect, m.insertResponses_of_not_addressed haddressed, Except.bind] at h
      · simp only [collect, ne_eq, heq, not_false_eq_true, ↓reduceIte] at h
        exact (m.drains_cons_of_ne hsorted heq).mpr (ih hrest h)

theorem drains_iff_collectable (hqueue : m.synchronizeQueue ≠ []) :
    m.Drains m.indexes.elements m.synchronizeQueue ↔ m.Collectable := by
  obtain ⟨hpre, hasc, hsub⟩ := taken_spec m.indexes.sorted m.synchronizeQueue
  constructor
  · intro h _ ids hids hascending hmem
    have htaken := prefix_taken m.indexes.sorted hids hascending hmem
    refine ⟨fun id hid => h.addressed id (htaken.subset hid), fun hall => ?_⟩
    subst hall
    exact h.stops (hpre.eq_of_length_le htaken.length_le)
  · intro h
    obtain ⟨haddressed, hstops⟩ := h hqueue _ hpre hasc hsub
    refine ⟨haddressed, fun hall => ?_⟩
    rw [hall] at hstops
    exact hstops rfl

end Collect

section Clear

variable {responses : List (Uint256 × ρ)} {id : Uint256}

theorem responsesOf_eraseP :
    responsesOf id (responses.eraseP (·.1 = id)) = (responsesOf id responses).tail := by
  induction responses with
  | nil => rfl
  | cons response responses ih =>
    by_cases h : response.1 = id
    · simp [responsesOf, h]
    · simpa [responsesOf, h] using ih

theorem eraseKey_eraseP : eraseKey id (responses.eraseP (·.1 = id)) = eraseKey id responses := by
  induction responses with
  | nil => rfl
  | cons response responses ih =>
    by_cases h : response.1 = id
    · simp [eraseKey, h]
    · simpa [eraseKey, h] using ih

theorem responsesOf_eq_nil (h : ¬responses.any (·.1 = id)) : responsesOf id responses = [] := by
  refine List.filter_eq_nil_iff.mpr fun p hp hkey => h (List.any_eq_true.mpr ⟨p, hp, hkey⟩)

theorem eraseKey_of_responsesOf (h : responsesOf id responses = []) :
    eraseKey id responses = responses :=
  List.filter_eq_self.mpr fun p hp => by simpa using List.filter_eq_nil_iff.mp h p hp

theorem clearResponses_append (deleteList : List Uint256) :
    clearResponses (((responsesOf id responses).map fun _ => id) ++ deleteList) responses =
      clearResponses deleteList (eraseKey id responses) := by
  generalize hn : (responsesOf id responses).length = n
  induction n generalizing responses with
  | zero =>
    have hnone := List.length_eq_zero_iff.mp hn
    rw [hnone, eraseKey_of_responsesOf hnone, List.map_nil, List.nil_append]
  | succ n ih =>
    have hany : responses.any (·.1 = id) := by
      by_contra h
      rw [responsesOf_eq_nil h] at hn
      exact absurd hn (by simp)
    obtain ⟨response, rest, hsplit⟩ := List.exists_cons_of_length_eq_add_one hn
    have hrest : responsesOf id (responses.eraseP (·.1 = id)) = rest := by
      rw [responsesOf_eraseP, hsplit, List.tail_cons]
    have hlength : (responsesOf id (responses.eraseP (·.1 = id))).length = n := by
      rw [hsplit, List.length_cons] at hn
      rw [hrest]
      omega
    have hcleared := ih hlength
    rw [hrest, eraseKey_eraseP] at hcleared
    rw [hsplit, List.map_cons, List.cons_append, clearResponses, if_pos hany, hcleared]

theorem responsesOf_eraseKey {id' : Uint256} (h : id ≠ id') :
    responsesOf id (eraseKey id' responses) = responsesOf id responses := by
  rw [responsesOf, eraseKey, List.filter_filter]
  refine List.filter_congr fun p _ => ?_
  by_cases hp : p.1 = id
  · simp [hp, h]
  · simp [hp]

/-- A collecting call never clears an id that has no response left. -/
theorem clearResponses_deleted {ids : List Uint256} (hnodup : ids.Nodup) :
    clearResponses (ids.flatMap fun id => (responsesOf id responses).map fun _ => id) responses =
      .ok (responses.filter (·.1 ∉ ids)) := by
  induction ids generalizing responses with
  | nil => simp [clearResponses]
  | cons id ids ih =>
    obtain ⟨hid, hrest⟩ := List.nodup_cons.mp hnodup
    have hsame : (ids.flatMap fun k => (responsesOf k responses).map fun _ => k) =
        ids.flatMap fun k => (responsesOf k (eraseKey id responses)).map fun _ => k := by
      refine List.flatMap_congr fun k hk => ?_
      rw [responsesOf_eraseKey (ne_of_mem_of_not_mem hk hid)]
    rw [List.flatMap_cons, clearResponses_append, hsame, ih hrest, eraseKey, List.filter_filter]
    refine congrArg _ (List.filter_congr fun p _ => ?_)
    simp only [List.mem_cons, not_or, Bool.decide_and, ne_eq, Bool.and_comm]

end Clear

section Safety

variable (m : CNodeMedium ρ)

/-- What the queue loses in a collecting call. -/
def takenIds : List Uint256 := taken m.indexes.elements m.synchronizeQueue

theorem takenIds_spec : m.takenIds <+: m.synchronizeQueue ∧ m.takenIds.Pairwise (· < ·) ∧
    ∀ id ∈ m.takenIds, id ∈ m.indexes := taken_spec m.indexes.sorted m.synchronizeQueue

variable {m} in
theorem Collectable.addressed (h : m.Collectable) {id : Uint256} (hid : id ∈ m.takenIds) :
    m.Addressed id := by
  obtain ⟨hpre, hasc, hsub⟩ := m.takenIds_spec
  exact (h (List.ne_nil_of_mem (hpre.subset hid)) _ hpre hasc hsub).1 id hid

theorem getResponseAndClear_of_collectable (h : m.Collectable) :
    m.getResponseAndClear = .ok ({ m with
      synchronizeQueue := m.synchronizeQueue.drop m.takenIds.length
      responses := m.responses.filter (·.1 ∉ m.takenIds) },
      m.takenIds.flatMap m.deliveries) := by
  by_cases hqueue : m.synchronizeQueue = []
  · have hnone : m.takenIds = [] := by rw [takenIds, hqueue, taken_nil_right]
    have hall : m.responses.filter (·.1 ∉ ([] : List Uint256)) = m.responses :=
      List.filter_eq_self.mpr fun _ _ => rfl
    rw [getResponseAndClear, if_pos hqueue, hnone, hall]
    rfl
  · have hdrains := (m.drains_iff_collectable hqueue).mpr h
    have hnodup : m.takenIds.Nodup := m.takenIds_spec.2.1.imp fun hlt => ne_of_lt hlt
    have hclear : clearResponses (m.takenIds.flatMap m.deleted) m.responses =
        .ok (m.responses.filter (·.1 ∉ m.takenIds)) := clearResponses_deleted hnodup
    simp only [getResponseAndClear, hqueue, ↓reduceIte,
      m.collect_of_drains m.indexes.sorted hdrains, Except.bind, List.nil_append]
    rw [← takenIds, hclear]

theorem collectable_of_getResponseAndClear {r : CNodeMedium ρ × List (CRequest × ρ)}
    (h : m.getResponseAndClear = .ok r) : m.Collectable := by
  intro hqueue
  rw [getResponseAndClear, if_neg hqueue] at h
  cases hcollect : m.collect m.indexes.elements ⟨m.synchronizeQueue, [], []⟩ with
  | error e => simp [hcollect, Except.bind] at h
  | ok c =>
    have hdrains := m.drains_of_collect m.indexes.sorted hcollect
    exact (m.drains_iff_collectable hqueue).mp hdrains hqueue

/-- The only calls that can go wrong are collecting calls. -/
def Ready : Call ρ → Prop
  | .getResponseAndClear => m.Collectable
  | _ => True

theorem call_ok_iff (c : Call ρ) : (∃ t, m.call c = .ok t) ↔ m.Ready c := by
  cases c with
  | getResponseAndClear =>
    constructor
    · rintro ⟨t, ht⟩
      cases hget : m.getResponseAndClear with
      | error e => simp [call, hget, Except.map] at ht
      | ok r => exact m.collectable_of_getResponseAndClear hget
    · intro h
      exact ⟨_, by rw [call, m.getResponseAndClear_of_collectable h]; rfl⟩
  | _ => exact iff_of_true ⟨_, rfl⟩ trivial

/-- No call of a run meets a fault if and only if every collecting call finds the
queue in order. -/
theorem calls_safe_iff (calls : List (Call ρ)) :
    (∃ m, FallibleRun.run call (empty : CNodeMedium ρ) calls = .ok m) ↔
      FallibleRun.Guarded call Ready (empty : CNodeMedium ρ) calls :=
  FallibleRun.run_ok_iff (fun _ _ _ (_ : True) _ => trivial) (fun m c _ => m.call_ok_iff c) trivial

/-- Two requests are answered one after the other, the second one first. The collecting
call that follows the other answer takes it and goes on to the larger index. -/
theorem front_of_empty_queue :
    ¬∀ calls : List (Call Unit), ∃ m, FallibleRun.run call (empty : CNodeMedium Unit) calls = .ok m := by
  intro h
  obtain ⟨m, hm⟩ := h [.add ⟨0, 1⟩, .add ⟨1, 2⟩, .setResponse 2 (), .getResponseAndClear,
    .setResponse 1 (), .getResponseAndClear]
  cases hm

/-- An id that no request carries is looked up all the same. -/
example : FallibleRun.run call (empty : CNodeMedium Unit)
    [.add ⟨0, 1⟩, .setResponse 7 (), .getResponseAndClear] = .error .missingRequest := rfl

end Safety

end CNodeMedium

end Dims
