import Dims.FlushIteration
import Dims.GuardedRun

/-!
# Includes between the steps of the flush loop

The critical sections of the storage as steps of two threads. An include holds the lock
of the queue and marks its transactions one by one under the lock of the map; the flush
loop takes the marked locations, then the queue, and forgets the marks at its end.
-/

namespace Dims

inductive FlushPhase
  | waiting
  | located
  | processing
  | saved
  deriving DecidableEq, Repr

/-- The storage, the transactions of the running include that are not marked yet, and what the
flush loop has taken. -/
structure StorageThreads where
  storage : CSegmentFileStorage
  adding : List CTransaction
  phase : FlushPhase
  processedLocationToBuddy : Finset CLocation
  processedTransactionQueue : List CTransaction

inductive StorageEvent
  | assignPosition (tx : CTransaction)
  | setTransactionLocation (hash : Uint256) (location : UInt64)
  | flushSupport
  | includeTransactions (txs : List CTransaction) (timeStamp : UInt64)
  | addToRecentlyUsed
  | takeLocations
  | swapQueue
  | processTransaction
  | saveAll
  | clearUsed

namespace StorageThreads
open CSegmentFileStorage

def init : StorageThreads := ⟨.init, [], .waiting, ∅, []⟩

variable (ctx : StorageContext)

/-- A thread that waits for a lock, or is at another place, does nothing; no value where an
assertion fails or an entry that is missing is used. -/
def react (t : StorageThreads) : StorageEvent → Option StorageThreads
  | .assignPosition tx =>
    (t.storage.assignPosition ctx tx).map fun assigned => { t with storage := assigned.2 }
  | .setTransactionLocation hash location =>
    some { t with storage := { t.storage with
      support := t.storage.support.setTransactionLocation hash location } }
  | .flushSupport =>
    some { t with storage := { t.storage with support := t.storage.support.flush } }
  | .includeTransactions txs timeStamp =>
    if t.adding = [] then
      some { t with storage := t.storage.queueTransactions txs timeStamp, adding := txs }
    else some t
  | .addToRecentlyUsed =>
    match t.adding with
    | [] => some t
    | tx :: txs =>
      (t.storage.addToRecentlyUsed tx).map fun storage =>
        { t with storage := storage, adding := txs }
  | .takeLocations =>
    if t.phase = .waiting then
      if t.storage.locationsKnown then
        some { t with
          phase := .located
          processedLocationToBuddy := t.storage.locationUsedFromLastUpdate }
      else none
    else some t
  | .swapQueue =>
    if t.phase = .located ∧ t.adding = [] then
      some { t with
        storage := t.storage.clearQueue
        phase := .processing
        processedTransactionQueue := t.storage.queued }
    else some t
  | .processTransaction =>
    match t.phase, t.processedTransactionQueue with
    | .processing, tx :: txs =>
      (t.storage.processTransaction ctx t.processedLocationToBuddy tx).map fun storage =>
        { t with storage := storage, processedTransactionQueue := txs }
    | _, _ => some t
  | .saveAll =>
    if t.phase = .processing ∧ t.processedTransactionQueue = [] then
      t.storage.saveAll.map fun storage => { t with storage := storage, phase := .saved }
    else some t
  | .clearUsed =>
    if t.phase = .saved then
      some { t with
        storage := t.storage.clearUsed
        phase := .waiting
        processedLocationToBuddy := ∅ }
    else some t

def step (s : Option StorageThreads) (event : StorageEvent) : Option StorageThreads :=
  s.bind fun t => t.react ctx event

section Property

/-- The location of a transaction and the locations of those it spends are among the given. -/
def Located (locations : Finset CLocation) (support : CSupportTransactionsDatabase)
    (tx : CTransaction) : Prop :=
  CLocation.ofFullPosition tx.location ∈ locations ∧
    ∀ txIn ∈ tx.vin, txIn.prevout.isNull = false →
      ∀ location, support.transactionSpecificData txIn.prevout.hash = some location →
        CLocation.ofFullPosition location ∈ locations

/-- The iteration finds a tree for everything that it processes. -/
def Provided (t : StorageThreads) : Prop :=
  ∀ tx ∈ t.processedTransactionQueue,
    Located t.processedLocationToBuddy t.storage.support tx ∧
    (t.storage.transactionLocationToBuddy (CLocation.ofFullPosition tx.location)).isSome

def waitingTransactions (t : StorageThreads) : List CTransaction :=
  t.storage.queued ++ t.processedTransactionQueue

/-- No waiting transaction spends one for which another location is about to be written. -/
def Settled (t : StorageThreads) : Prop :=
  ∀ tx ∈ t.waitingTransactions, ∀ txIn ∈ tx.vin, ∀ location,
    t.storage.support.transactionToLocationCacheInsert txIn.prevout.hash = some location →
      t.storage.support.transactionSpecificData txIn.prevout.hash = some location

/-- Nothing is marked while the flush loop processes and saves, and after it has taken the
locations only what it has taken. -/
def MarksInTime (t : StorageThreads) : Prop :=
  ∀ tx ∈ t.adding.head?, t.phase = .waiting ∨
    t.phase = .located ∧ Located t.processedLocationToBuddy t.storage.support tx

/-- The condition on a step. -/
def InTime (s : Option StorageThreads) : StorageEvent → Prop
  | .addToRecentlyUsed => ∀ t, s = some t → t.MarksInTime
  | .flushSupport => ∀ t, s = some t → t.Settled
  | .saveAll => ∀ t, s = some t → t.Settled
  | _ => True

end Property

section Invariant

variable {ctx}

/-- A transaction of the queue is located, or the running include still has to mark it. -/
def QueueLocated (t : StorageThreads) (locations : Finset CLocation) : Prop :=
  ∀ tx ∈ t.storage.queued, tx ∈ t.adding ∨ Located locations t.storage.support tx

/-- Between the taking of the queue and the end of the iteration nothing is marked. -/
def QueueUnmarked (t : StorageThreads) : Prop := ∀ tx ∈ t.storage.queued, tx ∈ t.adding

/-- What the phase of the flush loop says about the two queues. -/
def PhaseLocated (t : StorageThreads) : Prop :=
  match t.phase with
  | .waiting => t.QueueLocated t.storage.locationUsedFromLastUpdate ∧ t.processedTransactionQueue = []
  | .located =>
    t.QueueLocated t.processedLocationToBuddy ∧ t.processedTransactionQueue = [] ∧
      t.processedLocationToBuddy ⊆ t.storage.locationUsedFromLastUpdate
  | .processing =>
    (∀ tx ∈ t.processedTransactionQueue,
      Located t.processedLocationToBuddy t.storage.support tx) ∧ t.QueueUnmarked
  | .saved => t.processedTransactionQueue = [] ∧ t.QueueUnmarked

/-- The invariant of the runs that mark in time. -/
structure Orderly (t : StorageThreads) : Prop where
  queues : t.PhaseLocated
  trees : ∀ location ∈ t.processedLocationToBuddy,
    (t.storage.transactionLocationToBuddy location).isSome

theorem Located.mono {locations locations' : Finset CLocation}
    {support support' : CSupportTransactionsDatabase} {tx : CTransaction}
    (h : Located locations support tx) (hsub : locations ⊆ locations')
    (hfound : ∀ txIn ∈ tx.vin, ∀ location,
      support'.transactionSpecificData txIn.prevout.hash = some location →
        support.transactionSpecificData txIn.prevout.hash = some location) :
    Located locations' support' tx :=
  ⟨hsub h.1, fun txIn hin hnull location hlocation =>
    hsub (h.2 txIn hin hnull location (hfound txIn hin location hlocation))⟩

/-- A change of the storage under which both queues stay located. -/
structure Harmless (t : StorageThreads) (storage : CSegmentFileStorage) : Prop where
  queue : storage.transactionQueue = t.storage.transactionQueue
  marked : t.storage.locationUsedFromLastUpdate ⊆ storage.locationUsedFromLastUpdate
  found : ∀ tx ∈ t.waitingTransactions, ∀ txIn ∈ tx.vin, ∀ location,
    storage.support.transactionSpecificData txIn.prevout.hash = some location →
      t.storage.support.transactionSpecificData txIn.prevout.hash = some location
  trees : ∀ location, (t.storage.transactionLocationToBuddy location).isSome →
    (storage.transactionLocationToBuddy location).isSome

theorem Harmless.ofKeeps {t : StorageThreads} {storage : CSegmentFileStorage}
    (h : Keeps t.storage storage) : t.Harmless storage :=
  ⟨h.queue, h.marked ▸ Finset.Subset.refl _,
    fun _ _ txIn _ location hfound => h.found txIn.prevout.hash location hfound,
    fun location => (h.trees location).mpr⟩

theorem Orderly.harmless {t : StorageThreads} {storage : CSegmentFileStorage} (h : t.Orderly)
    (hharmless : t.Harmless storage) : Orderly { t with storage := storage } := by
  have hqueued : storage.queued = t.storage.queued :=
    congrArg (List.flatMap Prod.snd) hharmless.queue
  have hkept : ∀ locations locations' : Finset CLocation, locations ⊆ locations' →
      t.QueueLocated locations →
        QueueLocated { t with storage := storage } locations' := by
    intro locations locations' hsub hlocated tx htx
    have hold : tx ∈ t.storage.queued := hqueued ▸ htx
    exact (hlocated tx hold).imp_right fun hlocated =>
      hlocated.mono hsub (hharmless.found tx (List.mem_append_left _ hold))
  have hunmarked : t.QueueUnmarked → QueueUnmarked { t with storage := storage } :=
    fun hunmarked tx htx => hunmarked tx (hqueued ▸ htx)
  refine ⟨?_, fun location hlocation => hharmless.trees location (h.trees location hlocation)⟩
  have hqueues := h.queues
  unfold PhaseLocated at hqueues ⊢
  cases hphase : t.phase with
  | waiting =>
    simp only [hphase] at hqueues ⊢
    exact ⟨hkept _ _ hharmless.marked hqueues.1, hqueues.2⟩
  | located =>
    simp only [hphase] at hqueues ⊢
    exact ⟨hkept _ _ (Finset.Subset.refl _) hqueues.1, hqueues.2.1,
      hqueues.2.2.trans hharmless.marked⟩
  | processing =>
    simp only [hphase] at hqueues ⊢
    refine ⟨fun tx htx => (hqueues.1 tx htx).mono (Finset.Subset.refl _) ?_, hunmarked hqueues.2⟩
    exact hharmless.found tx (List.mem_append_right _ htx)
  | saved =>
    simp only [hphase] at hqueues ⊢
    exact ⟨hqueues.1, hunmarked hqueues.2⟩

theorem Orderly.includeTransactions {t : StorageThreads} (h : t.Orderly) (hadding : t.adding = [])
    (txs : List CTransaction) (timeStamp : UInt64) :
    Orderly { t with storage := t.storage.queueTransactions txs timeStamp, adding := txs } := by
  have hlocated : ∀ locations, t.QueueLocated locations → QueueLocated
      { t with storage := t.storage.queueTransactions txs timeStamp, adding := txs } locations := by
    intro locations hold tx htx
    obtain hnew | hqueued := mem_insertQueue.mp htx
    · exact .inl hnew
    · obtain hin | hlocated := hold tx hqueued
      · rw [hadding] at hin
        cases hin
      · exact .inr hlocated
  have hunmarked : t.QueueUnmarked → QueueUnmarked
      { t with storage := t.storage.queueTransactions txs timeStamp, adding := txs } := by
    intro hold tx htx
    obtain hnew | hqueued := mem_insertQueue.mp htx
    · exact hnew
    · have hin := hold tx hqueued
      rw [hadding] at hin
      cases hin
  refine ⟨?_, h.trees⟩
  have hqueues := h.queues
  unfold PhaseLocated at hqueues ⊢
  cases hphase : t.phase with
  | waiting =>
    simp only [hphase] at hqueues ⊢
    exact ⟨hlocated _ hqueues.1, hqueues.2⟩
  | located =>
    simp only [hphase] at hqueues ⊢
    exact ⟨hlocated _ hqueues.1, hqueues.2⟩
  | processing =>
    simp only [hphase] at hqueues ⊢
    exact ⟨hqueues.1, hunmarked hqueues.2⟩
  | saved =>
    simp only [hphase] at hqueues ⊢
    exact ⟨hqueues.1, hunmarked hqueues.2⟩

theorem Orderly.addToRecentlyUsed {t : StorageThreads} {tx : CTransaction} {txs : List CTransaction}
    {storage : CSegmentFileStorage} (h : t.Orderly) (hadding : t.adding = tx :: txs)
    (hintime : t.MarksInTime) (hmarked : t.storage.addToRecentlyUsed tx = some storage) :
    Orderly { t with storage := storage, adding := txs } := by
  obtain ⟨hframe, hfound, -, hsub, hinputs⟩ := markInputs_spec hmarked
  have hqueue : storage.transactionQueue = t.storage.transactionQueue := by rw [hframe]
  have hbuddy : storage.transactionLocationToBuddy = t.storage.transactionLocationToBuddy := by
    rw [hframe]
  have hharmless : t.Harmless storage :=
    ⟨hqueue, (Finset.subset_insert _ _).trans hsub, fun _ _ _ _ _ hin => by rwa [hfound] at hin,
      fun location hsome => by rwa [hbuddy]⟩
  have hlocated : Located storage.locationUsedFromLastUpdate storage.support tx :=
    ⟨hsub (Finset.mem_insert_self _ _), fun txIn hin hnull location hlocation =>
      hinputs txIn hin hnull location (by rwa [hfound] at hlocation)⟩
  -- the transaction that is marked is the only one that leaves the running include
  have hrest : ∀ locations, Located locations storage.support tx →
      QueueLocated { t with storage := storage } locations →
        QueueLocated { t with storage := storage, adding := txs } locations := by
    intro locations htx hold tx' htx'
    obtain hin | hlocated := hold tx' htx'
    · change tx' ∈ t.adding at hin
      rw [hadding] at hin
      obtain rfl | hlater := List.mem_cons.mp hin
      · exact .inr htx
      · exact .inl hlater
    · exact .inr hlocated
  have hkept := h.harmless hharmless
  refine ⟨?_, hkept.trees⟩
  have hqueues := hkept.queues
  unfold PhaseLocated at hqueues ⊢
  obtain hwaiting | ⟨hphase, htaken⟩ := hintime tx (by rw [hadding]; rfl)
  · simp only [hwaiting] at hqueues ⊢
    exact ⟨hrest _ hlocated hqueues.1, hqueues.2⟩
  · simp only [hphase] at hqueues ⊢
    refine ⟨hrest _ (htaken.mono (Finset.Subset.refl _) fun _ _ _ hin => ?_) hqueues.1, hqueues.2⟩
    rwa [hfound] at hin

theorem Orderly.takeLocations {t : StorageThreads} (h : t.Orderly) (hphase : t.phase = .waiting)
    (hknown : t.storage.locationsKnown) :
    Orderly { t with
      phase := .located
      processedLocationToBuddy := t.storage.locationUsedFromLastUpdate } := by
  have hqueues := h.queues
  unfold PhaseLocated at hqueues
  simp only [hphase] at hqueues
  exact ⟨⟨hqueues.1, hqueues.2, Finset.Subset.refl _⟩, hknown⟩

theorem Orderly.swapQueue {t : StorageThreads} (h : t.Orderly) (hphase : t.phase = .located)
    (hadding : t.adding = []) :
    Orderly { t with
      storage := t.storage.clearQueue
      phase := .processing
      processedTransactionQueue := t.storage.queued } := by
  have hqueues := h.queues
  unfold PhaseLocated at hqueues
  simp only [hphase] at hqueues
  refine ⟨⟨fun tx htx => (hqueues.1 tx htx).resolve_left ?_, nofun⟩, h.trees⟩
  rw [hadding]
  exact List.not_mem_nil

theorem Orderly.processTransaction {t : StorageThreads} {tx : CTransaction}
    {txs : List CTransaction} {storage : CSegmentFileStorage} (h : t.Orderly)
    (hphase : t.phase = .processing) (hqueue : t.processedTransactionQueue = tx :: txs)
    (hprocessed : t.storage.processTransaction ctx t.processedLocationToBuddy tx = some storage) :
    Orderly { t with storage := storage, processedTransactionQueue := txs } := by
  have hkept := h.harmless (.ofKeeps (keeps_processTransaction hprocessed))
  refine ⟨?_, hkept.trees⟩
  have hqueues := hkept.queues
  unfold PhaseLocated at hqueues ⊢
  simp only [hphase] at hqueues ⊢
  refine ⟨fun tx' htx' => hqueues.1 tx' ?_, hqueues.2⟩
  rw [hqueue]
  exact List.mem_cons_of_mem _ htx'

theorem Orderly.flushSupport {t : StorageThreads} (h : t.Orderly) (hsettled : t.Settled) :
    Orderly { t with storage := { t.storage with support := t.storage.support.flush } } := by
  refine h.harmless ⟨rfl, Finset.Subset.refl _, fun tx htx txIn hin location hfound => ?_,
    fun _ => id⟩
  obtain hnew | ⟨-, hold⟩ := Option.or_eq_some_iff.mp hfound
  · exact hsettled tx htx txIn hin location hnew
  · exact hold

theorem Orderly.saveAll {t : StorageThreads} {storage : CSegmentFileStorage} (h : t.Orderly)
    (hsettled : t.Settled) (hphase : t.phase = .processing)
    (hqueue : t.processedTransactionQueue = []) (hsaved : t.storage.saveAll = some storage) :
    Orderly { t with storage := storage, phase := .saved } := by
  obtain ⟨saved, hblocks, rfl⟩ := saveAll_cases hsaved
  have hkeeps : Keeps { t.storage with support := t.storage.support.flush } saved :=
    keeps_saveBlocks hblocks
  have hharmless := Harmless.ofKeeps
    (t := { t with storage := { t.storage with support := t.storage.support.flush } }) hkeeps
  have hkept : Orderly { t with storage := saved.saveHeaders.reloadCache } :=
    (h.flushSupport hsettled).harmless
      ⟨hharmless.queue, hharmless.marked, hharmless.found, hharmless.trees⟩
  refine ⟨?_, hkept.trees⟩
  have hqueues := hkept.queues
  unfold PhaseLocated at hqueues
  simp only [hphase] at hqueues
  exact ⟨hqueue, hqueues.2⟩

theorem Orderly.clearUsed {t : StorageThreads} (h : t.Orderly) (hphase : t.phase = .saved) :
    Orderly { t with
      storage := t.storage.clearUsed
      phase := .waiting
      processedLocationToBuddy := ∅ } := by
  have hqueues := h.queues
  unfold PhaseLocated at hqueues
  simp only [hphase] at hqueues
  exact ⟨⟨fun tx htx => .inl (hqueues.2 tx htx), hqueues.1⟩, nofun⟩

theorem Orderly.react {t t' : StorageThreads} {event : StorageEvent} (h : t.Orderly)
    (hintime : InTime (some t) event) (hreact : t.react ctx event = some t') : t'.Orderly := by
  cases event with
  | assignPosition tx =>
    obtain ⟨⟨position, storage⟩, hassigned, rfl⟩ := Option.map_eq_some_iff.mp hreact
    have hplaced := assignPosition_spec hassigned
    have hqueue : storage.transactionQueue = t.storage.transactionQueue := by rw [hplaced.frame]
    have hsupport : storage.support = t.storage.support := by rw [hplaced.frame]
    exact h.harmless ⟨hqueue, hplaced.marked, fun _ _ _ _ _ hin => by rwa [hsupport] at hin,
      hplaced.trees⟩
  | setTransactionLocation hash location =>
    cases hreact
    exact h.harmless ⟨rfl, Finset.Subset.refl _, fun _ _ _ _ _ => id, fun _ => id⟩
  | flushSupport =>
    cases hreact
    exact h.flushSupport (hintime t rfl)
  | includeTransactions txs timeStamp =>
    rw [StorageThreads.react] at hreact
    split at hreact
    case isTrue hadding =>
      cases hreact
      exact h.includeTransactions hadding txs timeStamp
    case isFalse =>
      cases hreact
      exact h
  | addToRecentlyUsed =>
    rw [StorageThreads.react] at hreact
    split at hreact
    case h_1 =>
      cases hreact
      exact h
    case h_2 tx txs hadding =>
      obtain ⟨storage, hmarked, rfl⟩ := Option.map_eq_some_iff.mp hreact
      exact h.addToRecentlyUsed hadding (hintime t rfl) hmarked
  | takeLocations =>
    rw [StorageThreads.react] at hreact
    split at hreact
    case isTrue hphase =>
      split at hreact
      case isTrue hknown =>
        cases hreact
        exact h.takeLocations hphase hknown
      case isFalse => cases hreact
    case isFalse =>
      cases hreact
      exact h
  | swapQueue =>
    rw [StorageThreads.react] at hreact
    split at hreact
    case isTrue henabled =>
      cases hreact
      exact h.swapQueue henabled.1 henabled.2
    case isFalse =>
      cases hreact
      exact h
  | processTransaction =>
    rw [StorageThreads.react] at hreact
    split at hreact
    case h_1 tx txs hphase hqueue =>
      obtain ⟨storage, hprocessed, rfl⟩ := Option.map_eq_some_iff.mp hreact
      exact h.processTransaction hphase hqueue hprocessed
    case h_2 =>
      cases hreact
      exact h
  | saveAll =>
    rw [StorageThreads.react] at hreact
    split at hreact
    case isTrue henabled =>
      obtain ⟨storage, hsaved, rfl⟩ := Option.map_eq_some_iff.mp hreact
      exact h.saveAll (hintime t rfl) henabled.1 henabled.2 hsaved
    case isFalse =>
      cases hreact
      exact h
  | clearUsed =>
    rw [StorageThreads.react] at hreact
    split at hreact
    case isTrue hphase =>
      cases hreact
      exact h.clearUsed hphase
    case isFalse =>
      cases hreact
      exact h

theorem Orderly.provided {t : StorageThreads} (h : t.Orderly) : t.Provided := by
  intro tx htx
  have hqueues := h.queues
  unfold PhaseLocated at hqueues
  have hnone : t.processedTransactionQueue ≠ [] := List.ne_nil_of_mem htx
  cases hphase : t.phase with
  | waiting =>
    simp only [hphase] at hqueues
    exact absurd hqueues.2 hnone
  | located =>
    simp only [hphase] at hqueues
    exact absurd hqueues.2.1 hnone
  | processing =>
    simp only [hphase] at hqueues
    exact ⟨hqueues.1 tx htx, h.trees _ (hqueues.1 tx htx).1⟩
  | saved =>
    simp only [hphase] at hqueues
    exact absurd hqueues.1 hnone

end Invariant

section Run

variable {ctx}

def OrderlyRun (s : Option StorageThreads) : Prop := ∀ t, s = some t → t.Orderly

theorem OrderlyRun.step {s : Option StorageThreads} {event : StorageEvent} (h : OrderlyRun s)
    (hintime : InTime s event) : OrderlyRun (step ctx s event) := by
  intro t' ht'
  obtain ⟨t, rfl, hreact⟩ := Option.bind_eq_some_iff.mp ht'
  exact (h t rfl).react hintime hreact

/-- In a run whose includes mark in time, the iteration always has a tree for what it
processes. -/
theorem flush_provided {events : List StorageEvent} {t : StorageThreads}
    (hguarded : GuardedRun.Guarded (step ctx) InTime (some init) events)
    (hrun : GuardedRun.run (step ctx) (some init) events = some t) : t.Provided := by
  have hinit : OrderlyRun (some init) := by
    intro t ht
    cases ht
    exact ⟨⟨nofun, rfl⟩, nofun⟩
  exact (hguarded.invariant (fun _ _ hs hok => hs.step hok) hinit t hrun).provided

end Run

end StorageThreads

namespace LateMark
open StorageThreads

def context : StorageContext := ⟨⟨fun _ => 0, fun _ => 0⟩, fun _ => 0⟩

def tx : CTransaction := ⟨1, [], [], 0, 3072⟩

def iteration : List StorageEvent := [.takeLocations, .swapQueue, .saveAll, .clearUsed]

/-- The transaction is included after the next iteration has taken the locations. -/
def events : List StorageEvent :=
  .assignPosition tx :: iteration ++
    [.takeLocations, .includeTransactions [tx] 0, .addToRecentlyUsed, .swapQueue]

theorem processed_without_location :
    (CSegmentFileStorage.init.assignPosition context tx).map Prod.fst = some (some tx.location) ∧
      ¬ ∀ events t, GuardedRun.run (step context) (some init) events = some t → t.Provided := by
  refine ⟨rfl, fun h => ?_⟩
  have hprovided := h events _ rfl tx List.mem_cons_self
  exact absurd hprovided.1.1 (Finset.notMem_empty _)

/-- The transaction is marked before the locations are taken. -/
theorem processed_with_location :
    ∃ t, GuardedRun.run (step context) (some init) [.assignPosition tx, .includeTransactions [tx] 0,
        .addToRecentlyUsed, .takeLocations, .swapQueue] = some t ∧
      t.processedTransactionQueue = [tx] ∧ t.Provided := by
  have hguarded : GuardedRun.Guarded (step context) InTime (some init)
      [.assignPosition tx, .includeTransactions [tx] 0, .addToRecentlyUsed, .takeLocations,
        .swapQueue] := by
    refine ⟨trivial, trivial, fun t ht => ?_, trivial, trivial, trivial⟩
    cases ht
    exact fun _ _ => .inl rfl
  exact ⟨_, rfl, rfl, flush_provided hguarded rfl⟩

end LateMark

end Dims
