import Mathlib.Logic.Relation
import Mathlib.Algebra.Order.Group.Nat
import Mathlib.Order.WellFounded
import Mathlib.Algebra.Order.BigOperators.Group.List
import Mathlib.Data.List.Basic
import Mathlib.Algebra.GroupWithZero.Nat

/-!
# The check queue

The queue of checkqueue.h, which a master fills with checks and which the master and its
workers empty. A step is one critical section, or one check that a thread executes
outside of it; the steps of the threads come in any order. A condition variable may wake
its threads at any time.
-/

namespace Dims

universe u

/-- The checks that a thread has taken, and those of them that it has still to execute. -/
structure CheckBatch (T : Type u) where
  vChecks : List T
  fOk : Bool
  nNow : ℕ

/-- The queue has its back at the head. -/
structure CCheckQueue (T : Type u) where
  queue : List T
  nTodo : ℕ
  fAllOk : Bool
  batches : List (CheckBatch T)

namespace CCheckQueue

variable {T : Type u}

/-- A queue that is unused, as the constructor of its control asserts it. -/
def unused : CCheckQueue T := ⟨[], 0, true, []⟩

/-- `Add` -/
def add (q : CCheckQueue T) (vChecks : List T) : CCheckQueue T :=
  { q with queue := vChecks.reverse ++ q.queue, nTodo := q.nTodo + vChecks.length }

/-- How many checks are taken at once. -/
def batchSize (nBatchSize nTotal nIdle size : ℕ) : ℕ :=
  max 1 (min nBatchSize (size / (nTotal + nIdle + 1)))

variable (check : T → Bool)

/-- A step of one of the threads. The counters of threads say no more than how many checks
are taken. -/
inductive Step : CCheckQueue T → CCheckQueue T → Prop
  | take (q : CCheckQueue T) (nBatchSize nTotal nIdle : ℕ) (hne : q.queue ≠ []) :
    Step q { q with
      queue := q.queue.drop (batchSize nBatchSize nTotal nIdle q.queue.length)
      batches := ⟨q.queue.take (batchSize nBatchSize nTotal nIdle q.queue.length), q.fAllOk,
        batchSize nBatchSize nTotal nIdle q.queue.length⟩ :: q.batches }
  | execute (q : CCheckQueue T) (first rest : List (CheckBatch T)) (vCheck : T) (vChecks : List T)
      (fOk : Bool) (nNow : ℕ) (hbatch : q.batches = first ++ ⟨vCheck :: vChecks, fOk, nNow⟩ :: rest) :
    Step q { q with batches := first ++ ⟨vChecks, fOk && check vCheck, nNow⟩ :: rest }
  | finish (q : CCheckQueue T) (first rest : List (CheckBatch T)) (fOk : Bool) (nNow : ℕ)
      (hbatch : q.batches = first ++ ⟨[], fOk, nNow⟩ :: rest) :
    Step q { q with
      fAllOk := q.fAllOk && fOk
      nTodo := q.nTodo - nNow
      batches := first ++ rest }

/-- `Wait` returns a value and leaves a queue. -/
def Waits (q : CCheckQueue T) (fRet : Bool) (q' : CCheckQueue T) : Prop :=
  ∃ last, Relation.ReflTransGen (Step check) q last ∧ last.queue = [] ∧ last.nTodo = 0 ∧
    fRet = last.fAllOk ∧ q' = { last with fAllOk := true }

/-- The checks that were added succeed if and only if no thread has found otherwise and all
the checks that remain succeed. What is to do is counted. -/
structure Checks (vChecks : List T) (q : CCheckQueue T) : Prop where
  counted : q.nTodo = q.queue.length + (q.batches.map CheckBatch.nNow).sum
  taken : ∀ batch ∈ q.batches, 0 < batch.nNow
  result : (q.fAllOk = true ∧ (∀ batch ∈ q.batches, batch.fOk = true ∧ ∀ c ∈ batch.vChecks, check c) ∧
    ∀ c ∈ q.queue, check c) ↔ ∀ c ∈ vChecks, check c

variable {check} {vChecks : List T} {q q' : CCheckQueue T}

theorem one_le_batchSize (nBatchSize nTotal nIdle size : ℕ) :
    1 ≤ batchSize nBatchSize nTotal nIdle size := le_max_left _ _

theorem batchSize_le {nBatchSize nTotal nIdle size : ℕ} (h : 0 < size) :
    batchSize nBatchSize nTotal nIdle size ≤ size :=
  max_le h ((min_le_right _ _).trans (Nat.div_le_self _ _))

theorem checks_add (vChecks : List T) : Checks check vChecks (unused.add vChecks) := by
  refine ⟨?_, ?_, ?_⟩
  · simp [unused, add]
  · exact fun batch hbatch => absurd hbatch List.not_mem_nil
  · simp [unused, add]

theorem Checks.step (h : Checks check vChecks q) (hstep : Step check q q') :
    Checks check vChecks q' := by
  cases hstep with
  | take nBatchSize nTotal nIdle hne =>
    have hpos := one_le_batchSize nBatchSize nTotal nIdle q.queue.length
    have hle := @batchSize_le nBatchSize nTotal nIdle _ (List.length_pos_iff.mpr hne)
    generalize batchSize nBatchSize nTotal nIdle q.queue.length = n at hpos hle
    refine ⟨?_, ?_, ?_⟩
    · have hcounted := h.counted
      simp only [List.map_cons, List.sum_cons, List.length_drop]
      omega
    · exact List.forall_mem_cons.mpr ⟨hpos, h.taken⟩
    · rw [← h.result]
      have hqueue : (∀ c ∈ q.queue, check c) ↔
          (∀ c ∈ q.queue.take n, check c) ∧ ∀ c ∈ q.queue.drop n, check c := by
        rw [← List.forall_mem_append, List.take_append_drop]
      rw [hqueue, List.forall_mem_cons]
      tauto
  | execute first rest vCheck vChecks' fOk nNow hbatch =>
    refine ⟨?_, ?_, ?_⟩
    · have hcounted := h.counted
      simpa [hbatch] using hcounted
    · have htaken := h.taken
      rw [hbatch] at htaken
      obtain ⟨hfirst, hrest⟩ := List.forall_mem_append.mp htaken
      obtain ⟨hthis, hrest⟩ := List.forall_mem_cons.mp hrest
      exact List.forall_mem_append.mpr ⟨hfirst, List.forall_mem_cons.mpr ⟨hthis, hrest⟩⟩
    · rw [← h.result, hbatch]
      simp only [List.forall_mem_append, List.forall_mem_cons, Bool.and_eq_true]
      tauto
  | finish first rest fOk nNow hbatch =>
    have htaken := h.taken
    rw [hbatch] at htaken
    obtain ⟨hfirst, hrest⟩ := List.forall_mem_append.mp htaken
    obtain ⟨-, hrest⟩ := List.forall_mem_cons.mp hrest
    refine ⟨?_, List.forall_mem_append.mpr ⟨hfirst, hrest⟩, ?_⟩
    · have hcounted := h.counted
      simp only [hbatch, List.map_append, List.sum_append, List.map_cons, List.sum_cons] at hcounted ⊢
      omega
    · rw [← h.result, hbatch]
      simp only [List.forall_mem_append, List.forall_mem_cons, Bool.and_eq_true]
      simp only [List.not_mem_nil, false_implies, implies_true, and_true]
      tauto

theorem Checks.run (h : Checks check vChecks q) (hrun : Relation.ReflTransGen (Step check) q q') :
    Checks check vChecks q' := by
  induction hrun with
  | refl => exact h
  | tail _ hstep ih => exact ih.step hstep

theorem Checks.batches_eq_nil (h : Checks check vChecks q) (hdone : q.nTodo = 0) :
    q.batches = [] := by
  refine List.eq_nil_iff_forall_not_mem.mpr fun batch hbatch => ?_
  have hpos := h.taken batch hbatch
  have hle : batch.nNow ≤ (q.batches.map CheckBatch.nNow).sum :=
    List.le_sum_of_mem (List.mem_map_of_mem hbatch)
  have hcounted := h.counted
  omega

/-- What is left to do. Every step makes it less. -/
def work (q : CCheckQueue T) : ℕ :=
  3 * q.queue.length + (q.batches.map fun batch => batch.vChecks.length + 1).sum

theorem Step.work_lt (h : Step check q q') : q'.work < q.work := by
  cases h with
  | take nBatchSize nTotal nIdle hne =>
    have hpos := one_le_batchSize nBatchSize nTotal nIdle q.queue.length
    have hle := @batchSize_le nBatchSize nTotal nIdle _ (List.length_pos_iff.mpr hne)
    simp only [work, List.map_cons, List.sum_cons, List.length_drop, List.length_take]
    omega
  | execute first rest vCheck vChecks fOk nNow hbatch =>
    simp only [work, hbatch, List.map_append, List.sum_append, List.map_cons, List.sum_cons,
      List.length_cons]
    omega
  | finish first rest fOk nNow hbatch =>
    simp only [work, hbatch, List.map_append, List.sum_append, List.map_cons, List.sum_cons,
      List.length_nil]
    omega

theorem step_wellFounded (check : T → Bool) : WellFounded fun q' q => Step check q q' :=
  (InvImage.wf work wellFounded_lt).mono fun _ _ h => h.work_lt

theorem Checks.exists_step (h : Checks check vChecks q) (hbusy : ¬(q.queue = [] ∧ q.nTodo = 0)) :
    ∃ q', Step check q q' := by
  by_cases hqueue : q.queue = []
  · cases hbatches : q.batches with
    | nil =>
      have hcounted := h.counted
      rw [hqueue, hbatches] at hcounted
      exact absurd ⟨hqueue, hcounted⟩ hbusy
    | cons batch batches =>
      obtain ⟨remaining, fOk, nNow⟩ := batch
      cases remaining with
      | nil => exact ⟨_, .finish q [] batches fOk nNow hbatches⟩
      | cons vCheck remaining => exact ⟨_, .execute q [] batches vCheck remaining fOk nNow hbatches⟩
  · exact ⟨_, .take q 0 0 0 hqueue⟩

theorem Checks.exists_done (h : Checks check vChecks q) :
    ∃ last, Relation.ReflTransGen (Step check) q last ∧ last.queue = [] ∧ last.nTodo = 0 := by
  induction q using (step_wellFounded check).induction with
  | _ q ih =>
    by_cases hdone : q.queue = [] ∧ q.nTodo = 0
    · exact ⟨q, .refl, hdone⟩
    · obtain ⟨next, hstep⟩ := h.exists_step hdone
      obtain ⟨last, hrun, hlast⟩ := ih next hstep (h.step hstep)
      exact ⟨last, .head hstep hrun, hlast⟩

/-- Whatever the order of the steps, the queue answers whether the checks that were added
succeed, and is unused again. -/
theorem waits_add_iff {fRet : Bool} :
    Waits check (unused.add vChecks) fRet q' ↔ fRet = vChecks.all check ∧ q' = unused := by
  have hanswer : ∀ fRet q', Waits check (unused.add vChecks) fRet q' →
      fRet = vChecks.all check ∧ q' = unused := by
    rintro fRet q' ⟨last, hrun, hqueue, htodo, rfl, rfl⟩
    have hlast := (checks_add vChecks).run hrun
    have hbatches := hlast.batches_eq_nil htodo
    have hresult := hlast.result
    rw [hqueue, hbatches] at hresult
    refine ⟨?_, ?_⟩
    · rw [Bool.eq_iff_iff, List.all_eq_true, ← hresult]
      simp
    · rw [hqueue, htodo, hbatches]
      rfl
  constructor
  · exact hanswer fRet q'
  · rintro ⟨rfl, rfl⟩
    obtain ⟨last, hrun, hqueue, htodo⟩ := (@checks_add _ check vChecks).exists_done
    have hwaits : Waits check (unused.add vChecks) last.fAllOk { last with fAllOk := true } :=
      ⟨last, hrun, hqueue, htodo, rfl, rfl⟩
    obtain ⟨hret, hunused⟩ := hanswer _ _ hwaits
    rwa [hret, hunused] at hwaits

end CCheckQueue

end Dims
