import Mathlib.Data.List.Basic

/-!
# The new requests of a request handler

Requests wait in a vector until the handler runs them. A `BOOST_FOREACH` over a vector takes
its first and its last position when it begins. In each round it reads the cell it has come
to, and does not look whether the vector still holds that cell.
-/

namespace Dims.RequestQueue

universe u v

inductive Fault
  /-- A cell is read that the vector does not hold. -/
  | pastEnd
  /-- The body of the loop throws. -/
  | exception
  deriving DecidableEq, Repr

section ForEach

variable {σ : Type u} {α : Type v}

/-- The rounds that are left to a loop which has come to the cell `i`. A fault comes with the
state it leaves. -/
def forEach (vector : σ → List α) (body : σ → α → Except (Fault × σ) σ) :
    ℕ → ℕ → σ → Except (Fault × σ) σ
  | 0, _, s => .ok s
  | left + 1, i, s =>
    match (vector s)[i]? with
    | none => .error (.pastEnd, s)
    | some a => (body s a).bind (forEach vector body left (i + 1))

variable {vector : σ → List α} {body : σ → α → Except (Fault × σ) σ}

/-- A body that leaves the vector alone is run on its cells one after the other. -/
theorem forEach_eq_foldlM (hbody : ∀ s a t, body s a = .ok t → vector t = vector s)
    {seen rest : List α} {s : σ} (hs : vector s = seen ++ rest) :
    forEach vector body rest.length seen.length s = rest.foldlM body s := by
  induction rest generalizing seen s with
  | nil => rfl
  | cons a rest ih =>
    have hcell : (vector s)[seen.length]? = some a := by simp [hs]
    rw [List.foldlM_cons, List.length_cons, forEach, hcell]
    change (body s a).bind (forEach vector body rest.length (seen.length + 1)) =
      (body s a).bind fun t => rest.foldlM body t
    cases hstep : body s a with
    | error fault => rfl
    | ok t =>
      have ht : vector t = (seen ++ [a]) ++ rest := by
        rw [hbody s a t hstep, hs, List.append_assoc]
        rfl
      have hnext := ih ht
      rw [List.length_append] at hnext
      exact hnext

end ForEach

/-- The functions of a medium that the handler calls. `accept` is the medium's `add` for the
kind of the request; where it throws there is no medium to go on with. -/
structure CMedium (Medium : Type u) (Request : Type v) where
  prepareMedium : Medium → Medium
  accept : Medium → Request → Option Medium
  flush : Medium → Medium

/-- `processed` records the calls of `setProcessed`. -/
structure CRequestHandler (Medium : Type u) (Request : Type v) where
  valid : Bool
  newRequest : List Request
  usedMedium : Medium
  processed : List Request
  deriving DecidableEq, Repr

namespace CRequestHandler

variable {Medium : Type u} {Request : Type v}

def setInvalid (handler : CRequestHandler Medium Request) : CRequestHandler Medium Request :=
  { handler with valid := false }

def setRequest (handler : CRequestHandler Medium Request) (request : Request) :
    CRequestHandler Medium Request :=
  { handler with newRequest := handler.newRequest ++ [request] }

def setProcessed (handler : CRequestHandler Medium Request) (request : Request) :
    CRequestHandler Medium Request :=
  { handler with processed := handler.processed ++ [request] }

def clear (handler : CRequestHandler Medium Request) : CRequestHandler Medium Request :=
  { handler with newRequest := [] }

/-- The body of the loop on a medium that is gone: the vector is cleared in every round. -/
def dropRequest (handler : CRequestHandler Medium Request) (request : Request) :
    Except (Fault × CRequestHandler Medium Request) (CRequestHandler Medium Request) :=
  .ok (handler.setProcessed request).clear

variable (medium : CMedium Medium Request)

/-- The body of the loop on a medium that is there. -/
def runRequest (handler : CRequestHandler Medium Request) (request : Request) :
    Except (Fault × CRequestHandler Medium Request) (CRequestHandler Medium Request) :=
  match medium.accept handler.usedMedium request with
  | none => .error (.exception, handler.setProcessed request)
  | some used => .ok { handler.setProcessed request with usedMedium := used }

def runRequests (handler : CRequestHandler Medium Request) :
    Except (Fault × CRequestHandler Medium Request) (CRequestHandler Medium Request) :=
  if handler.valid then
    (forEach newRequest (runRequest medium) handler.newRequest.length 0
      { handler with usedMedium := medium.prepareMedium handler.usedMedium }).map
        fun handler => { handler.clear with usedMedium := medium.flush handler.usedMedium }
  else forEach newRequest dropRequest handler.newRequest.length 0 handler

/-- The call returns, it has marked every request that waited once, in their order, and none
waits any more. -/
def Drains (handler : CRequestHandler Medium Request) : Prop :=
  ∃ after, handler.runRequests medium = .ok after ∧
    after.processed = handler.processed ++ handler.newRequest ∧ after.newRequest = []

theorem foldlM_runRequest (handler : CRequestHandler Medium Request) (requests : List Request) :
    (∀ after, requests.foldlM (runRequest medium) handler = .ok after →
      after.processed = handler.processed ++ requests) ∧
    ((∃ after, requests.foldlM (runRequest medium) handler = .ok after) ↔
      (requests.foldlM medium.accept handler.usedMedium).isSome) := by
  induction requests generalizing handler with
  | nil =>
    refine ⟨fun after h => ?_, iff_of_true ⟨handler, rfl⟩ rfl⟩
    cases h
    exact (List.append_nil _).symm
  | cons request requests ih =>
    simp only [List.foldlM_cons, runRequest]
    cases haccept : medium.accept handler.usedMedium request with
    | none =>
      refine ⟨fun after h => ?_, iff_of_false (fun hruns => ?_) Bool.false_ne_true⟩
      · cases h
      · obtain ⟨after, h⟩ := hruns
        cases h
    | some used =>
      obtain ⟨hmarked, hruns⟩ := ih { handler.setProcessed request with usedMedium := used }
      refine ⟨fun after h => ?_, hruns⟩
      rw [hmarked after h, setProcessed, List.append_assoc]
      rfl

theorem drains_of_valid_iff {handler : CRequestHandler Medium Request} (h : handler.valid = true) :
    handler.Drains medium ↔
      (handler.newRequest.foldlM medium.accept (medium.prepareMedium handler.usedMedium)).isSome := by
  have hbody : ∀ s a t, runRequest medium s a = .ok t → t.newRequest = s.newRequest := by
    intro s a t hrun
    rw [runRequest] at hrun
    split at hrun
    · cases hrun
    · cases hrun
      rfl
  have hloop : ∀ s : CRequestHandler Medium Request, forEach newRequest (runRequest medium)
      s.newRequest.length 0 s = s.newRequest.foldlM (runRequest medium) s := by
    intro s
    have hs : s.newRequest = [] ++ s.newRequest := rfl
    exact forEach_eq_foldlM hbody hs
  have hprepared := hloop { handler with usedMedium := medium.prepareMedium handler.usedMedium }
  obtain ⟨hmarked, hruns⟩ := foldlM_runRequest medium
    { handler with usedMedium := medium.prepareMedium handler.usedMedium } handler.newRequest
  rw [← hruns, Drains, runRequests, if_pos h, hprepared]
  constructor
  · rintro ⟨after, hafter, -⟩
    cases hfold : handler.newRequest.foldlM (runRequest medium)
      { handler with usedMedium := medium.prepareMedium handler.usedMedium } with
    | error fault =>
      rw [hfold] at hafter
      cases hafter
    | ok t => exact ⟨t, rfl⟩
  · rintro ⟨t, ht⟩
    rw [ht]
    exact ⟨_, rfl, hmarked t ht, rfl⟩

theorem drains_of_invalid_iff {handler : CRequestHandler Medium Request} (h : handler.valid = false) :
    handler.Drains medium ↔ handler.newRequest.length ≤ 1 := by
  obtain ⟨valid, newRequest, usedMedium, processed⟩ := handler
  cases h
  match newRequest with
  | [] => exact iff_of_true ⟨_, rfl, (List.append_nil _).symm, rfl⟩ (Nat.zero_le 1)
  | [request] => exact iff_of_true ⟨_, rfl, rfl, rfl⟩ (Nat.le_refl 1)
  | first :: second :: rest =>
    -- the second round finds the vector cleared
    refine iff_of_false (fun ⟨after, hafter, _⟩ => ?_) (by simp)
    cases hafter

/-- A queue is drained if the medium accepts all of it, or if the medium is gone and there are
not two requests in the queue. -/
theorem drains_iff (handler : CRequestHandler Medium Request) :
    handler.Drains medium ↔
      if handler.valid then
        (handler.newRequest.foldlM medium.accept (medium.prepareMedium handler.usedMedium)).isSome
      else handler.newRequest.length ≤ 1 := by
  cases h : handler.valid with
  | true => simpa using drains_of_valid_iff medium h
  | false => simpa using drains_of_invalid_iff medium h

/-- Two requests wait when their medium is destroyed. -/
theorem not_drains_two :
    ¬ ((((⟨true, [], (), []⟩ : CRequestHandler Unit ℕ).setRequest 1).setRequest 2).setInvalid).Drains
      ⟨id, fun medium _ => some medium, id⟩ := by
  rintro ⟨after, hafter, -⟩
  cases hafter

end CRequestHandler

end Dims.RequestQueue
