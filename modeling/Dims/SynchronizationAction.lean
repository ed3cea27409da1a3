import Dims.SegmentFileStorage
import Dims.FallibleRun

/-!
# Synchronization

A node asks a partner for its headers and then for its blocks, one after the other, and
asks again when a time event comes before the answer. The two states are the same in
trackers and monitors. Answers come late and in any order, to repeated requests too.
-/

namespace Dims

inductive CBlockKind
  | segment
  | header
  deriving DecidableEq, Repr

/-- What the partner serves. It announces the numbers of both. -/
structure ServedCopy where
  headers : List CSegmentHeader
  blocks : List CDiskBlock

/-- `SynchronizationHeader` and `SynchronizationBlock`, with the index. -/
inductive SynchronizationAnswer
  | header (segmentHeader : CSegmentHeader) (blockIndex : ℕ)
  | block (diskBlock : CDiskBlock) (blockIndex : ℕ)

/-- The answer to `CSynchronizationGet`; there is none to a number beyond the end. -/
def ServedCopy.answer (p : ServedCopy) : CBlockKind × ℕ → Option SynchronizationAnswer
  | (.header, number) => p.headers[number]?.map (.header · number)
  | (.segment, number) => p.blocks[number]?.map (.block · number)

/-- Every header and then every block, at its index. -/
def ServedCopy.positions (p : ServedCopy) : List (CBlockKind × ℕ) :=
  (List.range p.headers.length).map (Prod.mk .header) ++
    (List.range p.blocks.length).map (Prod.mk .segment)

/-- The second overload of `saveBlock`. -/
def CSegmentFileStorage.saveHeader (s : CSegmentFileStorage) (index : ℕ) (header : CSegmentHeader) :
    CSegmentFileStorage :=
  { s with headers := SegmentFile.saveIn CSegmentHeader.segmentSize index header.segment s.headers }

inductive SynchronizationState
  /-- `CSynchronizingHeaders` -/
  | headers
  /-- `CSynchronizingBlocks` -/
  | blocks
  deriving DecidableEq, Repr

structure CSynchronizationAction where
  state : SynchronizationState
  currentBlock : ℕ
  exit : Bool
  /-- The handler of the actions has not removed it yet. -/
  alive : Bool
  storage : CSegmentFileStorage
  /-- The requests whose answers have not come yet. -/
  requested : List (CBlockKind × ℕ)
  /-- Where `setDiscBlock` was called for, in order. -/
  saved : List (CBlockKind × ℕ)

namespace CSynchronizationAction

inductive Fault
  | blockIndex
  deriving DecidableEq, Repr

inductive Event
  /-- It may come after the request for it was forgotten. -/
  | time
  /-- The answer to one of the requests. -/
  | answer (position : ℕ)
  | remove

variable (p : ServedCopy)

/-- The constructor of `CSynchronizingHeaders` has asked for the first header. -/
def start (storage : CSegmentFileStorage) : CSynchronizationAction :=
  ⟨.headers, 0, false, true, storage, [(.header, 0)], []⟩

def kind (a : CSynchronizationAction) : CBlockKind :=
  match a.state with
  | .headers => .header
  | .blocks => .segment

def reactTimeEvent (a : CSynchronizationAction) : CSynchronizationAction :=
  { a with requested := a.requested ++ [(a.kind, a.currentBlock)] }

/-- In `CSynchronizingHeaders` the index is checked after the header is stored, and not
after the last one. -/
def reactHeader (a : CSynchronizationAction) (segmentHeader : CSegmentHeader) (blockIndex : ℕ) :
    Except Fault CSynchronizationAction :=
  let currentBlock := a.currentBlock + 1
  let storage := a.storage.saveHeader blockIndex segmentHeader
  let saved := a.saved ++ [(CBlockKind.header, blockIndex)]
  if currentBlock < p.headers.length then
    if blockIndex = currentBlock - 1 then
      .ok { a with
        currentBlock := currentBlock
        storage := storage
        requested := a.requested ++ [(.header, currentBlock)]
        saved := saved }
    else .error .blockIndex
  else
    .ok { a with
      state := .blocks
      currentBlock := 0
      storage := storage
      requested := a.requested ++ [(CBlockKind.segment, 0)]
      saved := saved }

def reactBlock (a : CSynchronizationAction) (diskBlock : CDiskBlock) (blockIndex : ℕ) :
    Except Fault CSynchronizationAction :=
  if blockIndex = a.currentBlock then
    let currentBlock := a.currentBlock + 1
    let a := { a with
      currentBlock := currentBlock
      storage := a.storage.saveBlock blockIndex diskBlock
      saved := a.saved ++ [(CBlockKind.segment, blockIndex)] }
    if currentBlock < p.blocks.length then
      .ok { a with requested := a.requested ++ [(CBlockKind.segment, currentBlock)] }
    else .ok { a with exit := true }
  else .error .blockIndex

/-- Answers of the other kind are left alone. -/
def reactMessageResult (a : CSynchronizationAction) : SynchronizationAnswer →
    Except Fault CSynchronizationAction
  | .header segmentHeader blockIndex =>
    match a.state with
    | .headers => a.reactHeader p segmentHeader blockIndex
    | .blocks => .ok a
  | .block diskBlock blockIndex =>
    match a.state with
    | .headers => .ok a
    | .blocks => a.reactBlock p diskBlock blockIndex

def step (a : CSynchronizationAction) : Event → Except Fault CSynchronizationAction
  | .time => .ok (if a.alive then a.reactTimeEvent else a)
  | .answer position =>
    match a.requested[position]? with
    | none => .ok a
    | some request =>
      match p.answer request with
      | none => .ok a
      | some answer =>
        let a := { a with requested := a.requested.eraseIdx position }
        if a.alive then a.reactMessageResult p answer else .ok a
  | .remove => .ok { a with alive := a.alive ∧ !a.exit }

/-- What the partner has at a position is in the files, at the same place. -/
def InPlace (s : CSegmentFileStorage) : CBlockKind × ℕ → Prop
  | (.header, i) => ∀ h, p.headers[i]? = some h →
    SegmentFile.Stores CSegmentHeader.segmentSize i h.segment s.headers
  | (.segment, i) => ∀ b, p.blocks[i]? = some b →
    SegmentFile.Stores CDiskBlock.segmentSize i b.segment s.segments

/-- Headers and blocks are stored once each and in order, and are where they belong; all
of them at the end. -/
structure Synchronizes (a : CSynchronizationAction) : Prop where
  once : a.saved <+: p.positions
  inPlace : ∀ position ∈ a.saved, InPlace p a.storage position
  complete : a.exit → a.saved = p.positions

/-- How far the action has come. -/
structure Progress (a : CSynchronizationAction) : Prop where
  headers : a.state = .headers → a.saved.length = a.currentBlock ∧ a.exit = false ∧
    (a.currentBlock < p.headers.length ∨ p.headers = [])
  blocks : a.state = .blocks → a.saved.length = p.headers.length + a.currentBlock ∧
    (a.exit → p.blocks.length ≤ a.currentBlock)

variable {p} {a : CSynchronizationAction}

section Positions

end Positions

section Storage

variable {storage : CSegmentFileStorage}

end Storage

theorem Progress.congr (h : Progress p a) (requested : List (CBlockKind × ℕ)) (alive : Bool) :
    Progress p { a with requested := requested, alive := alive } := ⟨h.headers, h.blocks⟩

theorem Synchronizes.congr (h : Synchronizes p a) (requested : List (CBlockKind × ℕ)) (alive : Bool) :
    Synchronizes p { a with requested := requested, alive := alive } :=
  ⟨h.once, h.inPlace, h.complete⟩

namespace LateAnswer

def partner (headers : ℕ) : ServedCopy :=
  ⟨List.replicate headers .new, [.new fun _ => 0]⟩

/-- Two requests for the first header, and both answers. -/
def events : List Event := [.time, .answer 0, .answer 0]

/-- Of two headers the second one is skipped. -/
example : (FallibleRun.run (step (partner 2)) (start .init) events).map (fun t => (t.state, t.saved)) =
    .ok (.blocks, [(.header, 0), (.header, 0)]) := rfl

end LateAnswer

end CSynchronizationAction

end Dims
