import Dims.FlushInterleaving
import Dims.StoredNumbers

/-!
# The copy of the storage

A monitor that serves a synchronization asks for a copy of the two files and waits until
one is created. The copy loop makes one for all actions; it holds the lock of the requests
while it works, but not against the flush loop, which saves the blocks and then the headers.
The numbers that are announced are those of the storage.
-/

namespace Dims

/-- How far the flush loop has come with the files. -/
inductive Saving
  | idle
  | blocks (rest : List (CLocation × CDiskBlock))
  | headers (headerId : ℕ) (rest : List CSegmentHeader)

/-- What the copy loop has done last; it holds the lock except when it is idle. -/
inductive CopyPhase
  | idle
  | locked
  | reset
  | storageSized
  | sized
  | headersCopied
  | storageCopied
  | created
  deriving DecidableEq, Repr

/-- The copy loop has not reset the flag of the last copy. -/
def CopyPhase.BeforeReset (phase : CopyPhase) : Prop := phase = idle ∨ phase = locked

/-- It has, and works for all requests there are, but has not copied anything yet. -/
def CopyPhase.BeforeCopies (phase : CopyPhase) : Prop :=
  phase = reset ∨ phase = storageSized ∨ phase = sized

instance (phase : CopyPhase) : Decidable phase.BeforeReset := inferInstanceAs (Decidable (_ ∨ _))

instance (phase : CopyPhase) : Decidable phase.BeforeCopies := inferInstanceAs (Decidable (_ ∨ _))

/-- With the files in the copy directory. -/
structure CCopyStorageHandler where
  phase : CopyPhase
  copyRequest : Bool
  copyCreated : Bool
  timeStamp : Int64
  storageSize : ℕ
  headerSize : ℕ
  copyHeaders : Option SegmentFile
  copySegments : Option SegmentFile

structure CSynchronizationInfo where
  timeStamp : Int64
  headerSize : ℕ
  strageSize : ℕ
  deriving DecidableEq

structure CSynchronizedProvideCopy where
  copyRequestDone : Bool
  announced : List CSynchronizationInfo
  /-- The partner has acknowledged, or there is nothing to be served. -/
  left : Bool

/-- The files after an iteration of the flush loop, and what the headers in memory count. -/
structure FlushRecord where
  headers : Option SegmentFile
  segments : Option SegmentFile
  headerCount : ℕ
  blockCount : ℕ

/-- When requests were accepted and files copied, and after which iterations the files looked
how. -/
structure CopyHistory (κ : Type) where
  clock : ℕ
  /-- The action whose request the copy loop has not begun to work for. -/
  waiting : Option κ
  requestedAt : κ → ℕ
  headersTaken : ℕ
  segmentsTaken : ℕ
  last : FlushRecord
  earlier : List FlushRecord
  /-- The last iteration before the headers were copied. -/
  copied : FlushRecord

structure CopyThreads (κ : Type) where
  threads : StorageThreads
  saving : Saving
  handler : CCopyStorageHandler
  serving : κ → CSynchronizedProvideCopy
  history : CopyHistory κ

inductive CopyEvent (κ : Type)
  /-- A step of the other threads; `saveAll` starts the saving. -/
  | storage (event : StorageEvent)
  | saveStep
  | copyStep (time : Int64)
  | timeEvent (action : κ)
  | ack (action : κ)

namespace CopyThreads
open CSegmentFileStorage

variable {κ : Type} [DecidableEq κ] (ctx : StorageContext)

/-- A node without files that serves no one yet. -/
def start : CopyThreads κ where
  threads := .init
  saving := .idle
  handler := ⟨.idle, false, false, 0, 0, 0, none, none⟩
  serving _ := ⟨false, [], false⟩
  history := ⟨0, none, fun _ => 0, 0, 0, ⟨none, none, 0, 0⟩, [], ⟨none, none, 0, 0⟩⟩

def getDiscBlockSize (t : CopyThreads κ) : ℕ :=
  calculateStoredBlockNumber t.threads.storage.headersCache

def getSegmentHeaderSize (t : CopyThreads κ) : ℕ := t.threads.storage.headersCache.length

def setStorage (t : CopyThreads κ) (storage : CSegmentFileStorage) (saving : Saving) :
    CopyThreads κ :=
  { t with threads := { t.threads with storage := storage }, saving := saving }

def startSaving (t : CopyThreads κ) : CopyThreads κ :=
  match t.saving with
  | .idle =>
    if t.threads.phase = .processing ∧ t.threads.processedTransactionQueue = [] then
      t.setStorage { t.threads.storage with support := t.threads.storage.support.flush }
        (.blocks t.threads.storage.usedBlocks.entries)
    else t
  | _ => t

/-- The iteration has saved everything and reloads the cache. -/
def finishSaving (t : CopyThreads κ) : CopyThreads κ :=
  { t with
    threads := { t.threads with storage := t.threads.storage.reloadCache, phase := .saved }
    saving := .idle
    history := { t.history with
      last := ⟨t.threads.storage.headers, t.threads.storage.segments, t.getSegmentHeaderSize,
        t.getDiscBlockSize⟩
      earlier := t.history.last :: t.history.earlier } }

/-- The loops over the blocks in use and over the headers. -/
def saveStep (t : CopyThreads κ) : Option (CopyThreads κ) :=
  match t.saving with
  | .idle => some t
  | .blocks [] => some { t with saving := .headers 0 t.threads.storage.headersCache }
  | .blocks (block :: rest) =>
    (t.threads.storage.assignBlockNumberInHeaderCache block.1).map fun assigned =>
      t.setStorage (assigned.2.saveBlock assigned.1.toNat block.2) (.blocks rest)
  | .headers headerId (header :: rest) =>
    some (t.setStorage
      { t.threads.storage with
        headers := SegmentFile.saveIn CSegmentHeader.segmentSize headerId header.segment
          t.threads.storage.headers } (.headers (headerId + 1) rest))
  | .headers _ [] => some t.finishSaving

/-- `if ( m_headerSize ) copyHeader()` -/
def copyHeader (t : CopyThreads κ) : Option (CopyThreads κ) :=
  if t.handler.headerSize = 0 then
    some { t with
      handler := { t.handler with phase := .headersCopied }
      history := { t.history with headersTaken := t.history.clock } }
  else
    t.threads.storage.headers.map fun file =>
      { t with
        handler := { t.handler with phase := .headersCopied, copyHeaders := some file }
        history := { t.history with headersTaken := t.history.clock, copied := t.history.last } }

/-- `if ( m_storageSize ) copyStorage()` -/
def copyStorage (t : CopyThreads κ) : Option (CopyThreads κ) :=
  if t.handler.storageSize = 0 then
    some { t with
      handler := { t.handler with phase := .storageCopied }
      history := { t.history with segmentsTaken := t.history.clock } }
  else
    t.threads.storage.segments.map fun file =>
      { t with
        handler := { t.handler with phase := .storageCopied, copySegments := some file }
        history := { t.history with segmentsTaken := t.history.clock } }

def copyStep (t : CopyThreads κ) (time : Int64) : Option (CopyThreads κ) :=
  match t.handler.phase with
  | .idle =>
    if t.handler.copyRequest then
      some { t with handler := { t.handler with phase := .locked, timeStamp := time } }
    else some t
  | .locked =>
    some { t with
      handler := { t.handler with phase := .reset, copyCreated := false }
      history := { t.history with waiting := none } }
  | .reset =>
    some { t with
      handler := { t.handler with phase := .storageSized, storageSize := t.getDiscBlockSize } }
  | .storageSized =>
    some { t with
      handler := { t.handler with phase := .sized, headerSize := t.getSegmentHeaderSize } }
  | .sized => t.copyHeader
  | .headersCopied => t.copyStorage
  | .storageCopied =>
    some { t with handler := { t.handler with phase := .created, copyCreated := true } }
  | .created => some { t with handler := { t.handler with phase := .idle, copyRequest := false } }

/-- `createCopyRequest`, which waits for the lock and is refused while there is a request. -/
def createCopyRequest (t : CopyThreads κ) (action : κ) : CopyThreads κ :=
  if t.handler.phase = .idle ∧ t.handler.copyRequest = false then
    { t with
      handler := { t.handler with copyRequest := true }
      serving := Function.update t.serving action
        { t.serving action with copyRequestDone := true }
      history := { t.history with
        waiting := some action
        requestedAt := Function.update t.history.requestedAt action t.history.clock } }
  else t

/-- What the partner is told. -/
def synchronizationInfo (t : CopyThreads κ) : CSynchronizationInfo :=
  ⟨t.handler.timeStamp, t.getSegmentHeaderSize, t.getDiscBlockSize⟩

def announce (t : CopyThreads κ) (action : κ) : CopyThreads κ :=
  { t with
    serving := Function.update t.serving action { t.serving action with
      announced := (t.serving action).announced ++ [t.synchronizationInfo]
      left := t.getSegmentHeaderSize = 0 ∧ t.getDiscBlockSize = 0 } }

/-- `react( CTimeEvent )` of `CSynchronizedProvideCopy` -/
def reactTimeEvent (t : CopyThreads κ) (action : κ) : CopyThreads κ :=
  if (t.serving action).left then t
  else if (t.serving action).copyRequestDone = false then t.createCopyRequest action
  else if t.handler.copyCreated then t.announce action
  else t

def reactAck (t : CopyThreads κ) (action : κ) : CopyThreads κ :=
  { t with serving := Function.update t.serving action { t.serving action with left := true } }

def react (t : CopyThreads κ) : CopyEvent κ → Option (CopyThreads κ)
  | .storage .saveAll => some t.startSaving
  | .storage event => (t.threads.react ctx event).map fun threads => { t with threads := threads }
  | .saveStep => t.saveStep
  | .copyStep time => t.copyStep time
  | .timeEvent action => some (t.reactTimeEvent action)
  | .ack action => some (t.reactAck action)

def tick (t : CopyThreads κ) : CopyThreads κ :=
  { t with history := { t.history with clock := t.history.clock + 1 } }

def step (s : Option (CopyThreads κ)) (event : CopyEvent κ) : Option (CopyThreads κ) :=
  s.bind fun t => t.tick.react ctx event

section Property

variable (t : CopyThreads κ)

/-- At its next time event the action sees that the copy is created. -/
def Observes (action : κ) : Prop :=
  (t.serving action).left = false ∧ (t.serving action).copyRequestDone = true ∧
    t.handler.copyCreated = true

/-- The copy is one snapshot, is newer than the request, and is what the partner is told of. -/
structure Consistent (action : κ) : Prop where
  headersTaken : t.history.requestedAt action < t.history.headersTaken
  segmentsTaken : t.history.requestedAt action < t.history.segmentsTaken
  snapshot : ∃ record ∈ t.history.last :: t.history.earlier,
    t.handler.copyHeaders = record.headers ∧ t.handler.copySegments = record.segments
  headerSize : t.synchronizationInfo.headerSize =
    SegmentFile.count CSegmentHeader.segmentSize t.handler.copyHeaders
  strageSize : t.synchronizationInfo.strageSize =
    SegmentFile.count CDiskBlock.segmentSize t.handler.copySegments

/-- The storage has not grown since the iteration whose files were copied. -/
def NotGrown : Prop :=
  t.getSegmentHeaderSize = t.history.copied.headerCount ∧
    t.getDiscBlockSize = t.history.copied.blockCount

/-- The condition on a step. No file is saved while or between the two are copied, the first
block does not come between the two sizes, and an action that sees a copy is not waiting for
its own, and sees it before the storage grows. -/
def Separate : CopyEvent κ → Prop
  | .storage .saveAll => t.handler.phase ≠ .headersCopied
  | .copyStep _ => t.handler.phase = .sized →
      t.saving = .idle ∧ (t.handler.headerSize = 0 ↔ t.handler.storageSize = 0)
  | .timeEvent action => t.Observes action →
      t.history.waiting ≠ some action ∧ t.NotGrown ∧ t.threads.storage.Fits
  | _ => True

def SeparateIn (s : Option (CopyThreads κ)) (event : CopyEvent κ) : Prop :=
  ∀ t, s = some t → t.Separate event

end Property

section Saving

omit [DecidableEq κ]

/-- Steps of the saving that nothing interrupts. -/
def saveSteps : ℕ → CopyThreads κ → Option (CopyThreads κ)
  | 0, t => some t
  | count + 1, t => t.saveStep.bind (saveSteps count)

theorem saveSteps_add (first second : ℕ) (t : CopyThreads κ) :
    saveSteps (first + second) t = (saveSteps first t).bind (saveSteps second) := by
  induction first generalizing t with
  | zero => rw [Nat.zero_add, saveSteps, Option.bind_some]
  | succ first ih =>
    rw [Nat.succ_add, saveSteps, saveSteps, Option.bind_assoc]
    exact congrArg _ (funext ih)

theorem saveSteps_blocks {blocks : List (CLocation × CDiskBlock)} {t : CopyThreads κ}
    (hsaving : t.saving = .blocks blocks) : saveSteps blocks.length t =
      (saveBlocks blocks t.threads.storage).map fun storage => t.setStorage storage (.blocks []) := by
  induction blocks generalizing t with
  | nil =>
    rw [List.length_nil, saveSteps, saveBlocks, Option.map_some, setStorage, ← hsaving]
  | cons block blocks ih =>
    have hstep : t.saveStep =
        (t.threads.storage.assignBlockNumberInHeaderCache block.1).map fun assigned =>
          t.setStorage (assigned.2.saveBlock assigned.1.toNat block.2) (.blocks blocks) := by
      rw [saveStep, hsaving]
    rw [List.length_cons, saveSteps, saveBlocks, hstep]
    cases t.threads.storage.assignBlockNumberInHeaderCache block.1 with
    | none => rfl
    | some assigned => exact ih rfl

theorem saveSteps_headers {headers : List CSegmentHeader} {headerId : ℕ} {t : CopyThreads κ}
    (hsaving : t.saving = .headers headerId headers) : saveSteps headers.length t =
      some (t.setStorage
        { t.threads.storage with
          headers := saveHeadersFrom headerId headers t.threads.storage.headers }
        (.headers (headerId + headers.length) [])) := by
  induction headers generalizing t headerId with
  | nil =>
    rw [List.length_nil, saveSteps, saveHeadersFrom, setStorage, Nat.add_zero, ← hsaving]
  | cons header headers ih =>
    have hstep : t.saveStep = some (t.setStorage
        { t.threads.storage with
          headers := SegmentFile.saveIn CSegmentHeader.segmentSize headerId header.segment
            t.threads.storage.headers } (.headers (headerId + 1) headers)) := by
      rw [saveStep, hsaving]
    rw [List.length_cons, saveSteps, hstep, Option.bind_some, ih rfl]
    rw [Nat.add_assoc, Nat.add_comm 1]
    rfl

/-- A saving that nothing interrupts is the `saveAll` of the flush loop. -/
theorem saveSteps_startSaving {t : CopyThreads κ} {threads : StorageThreads}
    (hidle : t.saving = .idle) (hphase : t.threads.phase = .processing)
    (hqueue : t.threads.processedTransactionQueue = [])
    (hsaved : t.threads.react ctx .saveAll = some threads) :
    ∃ count t', saveSteps count t.startSaving = some t' ∧ t'.threads = threads ∧
      t'.saving = .idle := by
  rw [StorageThreads.react, if_pos ⟨hphase, hqueue⟩] at hsaved
  obtain ⟨storage, hall, rfl⟩ := Option.map_eq_some_iff.mp hsaved
  obtain ⟨saved, hblocks, rfl⟩ := saveAll_cases hall
  have hstart : t.startSaving = t.setStorage
      { t.threads.storage with support := t.threads.storage.support.flush }
      (.blocks t.threads.storage.usedBlocks.entries) := by
    rw [startSaving, hidle]
    exact if_pos ⟨hphase, hqueue⟩
  have hfirst : saveSteps t.threads.storage.usedBlocks.entries.length t.startSaving =
      some (t.setStorage saved (.blocks [])) := by
    rw [hstart, saveSteps_blocks rfl]
    exact congrArg (Option.map _) hblocks
  have hsecond : saveSteps saved.headersCache.length
      (t.setStorage saved (.headers 0 saved.headersCache)) =
      some (t.setStorage saved.saveHeaders (.headers (0 + saved.headersCache.length) [])) :=
    saveSteps_headers rfl
  refine ⟨t.threads.storage.usedBlocks.entries.length + (1 + (saved.headersCache.length + 1)),
    (t.setStorage saved.saveHeaders (.headers (0 + saved.headersCache.length) [])).finishSaving,
    ?_, rfl, rfl⟩
  rw [saveSteps_add, hfirst, Option.bind_some, saveSteps_add]
  have hturn : saveSteps 1 (t.setStorage saved (.blocks [])) =
      some (t.setStorage saved (.headers 0 saved.headersCache)) := rfl
  rw [hturn, Option.bind_some, saveSteps_add, hsecond, Option.bind_some]
  rfl

end Saving

end CopyThreads

end Dims
