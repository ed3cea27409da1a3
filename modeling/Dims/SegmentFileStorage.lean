import Dims.SegmentFile
import Dims.SegmentHeader
import Dims.SupportTransactionsDatabase
import Dims.OrderedMap
import Mathlib.Data.Finset.Lattice.Basic

/-!
# The segment file storage

segmentFileStorage.cpp. Transactions are given a place in the block of a bucket, wait in
a queue, and are written by the flush loop together with what they change in the
transactions that they spend. The blocks of a flush are taken from a cache or from the
segment file, and are saved with the headers at the end of the iteration.
-/

namespace Dims
open ByteCodec

structure CDiskBlock where
  tree : CSimpleBuddy
  area : ℕ → UInt8

namespace CDiskBlock

/-- The area of a block starts with what is found in memory. -/
def new (memory : ℕ → UInt8) : CDiskBlock := ⟨.new, memory⟩

def segmentSize : ℕ := CSimpleBuddy.treeSize + CSimpleBuddy.areaSize

def segment (b : CDiskBlock) (i : ℕ) : UInt8 :=
  if i < CSimpleBuddy.treeSize then b.tree i else b.area (i - CSimpleBuddy.treeSize)

def ofSegment (segment : ℕ → UInt8) : CDiskBlock where
  tree i := if i < CSimpleBuddy.treeSize then segment i else CSimpleBuddy.nodeUnused
  area i := segment (CSimpleBuddy.treeSize + i)

/-- `translateToAddress`, in bytes of the area. -/
def translateToAddress (index : ℕ) : ℕ := index * CSimpleBuddy.getBuddySize CSimpleBuddy.baseLevel

def areaBytes (b : CDiskBlock) (fullPosition : UInt64) : Bytes :=
  (List.range (CSimpleBuddy.getBuddySize (CSegmentFileStorage.getLevel fullPosition))).map fun i =>
    b.area (translateToAddress (CSegmentFileStorage.getIndex fullPosition) + i)

/-- `stream << transaction`; the stream throws at the end of the area. -/
def write (b : CDiskBlock) (fullPosition : UInt64) (tx : CTransaction) : Option CDiskBlock :=
  let bytes := CTransaction.diskCodec.encode tx
  let start := translateToAddress (CSegmentFileStorage.getIndex fullPosition)
  if bytes.length ≤ CSimpleBuddy.getBuddySize (CSegmentFileStorage.getLevel fullPosition) then
    some { b with area := fun i =>
      if start ≤ i ∧ i < start + bytes.length then bytes.getD (i - start) 0 else b.area i }
  else none

/-- `stream >> transaction` -/
def read (b : CDiskBlock) (fullPosition : UInt64) : Option CTransaction :=
  (CTransaction.diskCodec.decode (b.areaBytes fullPosition)).map Prod.fst

end CDiskBlock

/-- The digests, and what is found in newly allocated memory. -/
structure StorageContext where
  hashes : HashFunctions
  memory : ℕ → UInt8

/-- The singleton with its files and the support database. -/
structure CSegmentFileStorage where
  headersCache : List CSegmentHeader
  transactionQueue : List (UInt64 × List CTransaction)
  usedBuddy : ℕ → Option ℕ
  transactionLocationToBuddy : CLocation → Option CSimpleBuddy
  usedBlocks : OrderedMap CLocation CDiskBlock
  discBlockCache : List (CLocation × CDiskBlock)
  locationUsedFromLastUpdate : Finset CLocation
  lastSegmentIndex : ℕ
  alreadyStoredSegments : ℕ
  segments : Option SegmentFile
  headers : Option SegmentFile
  support : CSupportTransactionsDatabase

namespace CSegmentFileStorage

def init : CSegmentFileStorage where
  headersCache := []
  transactionQueue := []
  usedBuddy _ := none
  transactionLocationToBuddy _ := none
  usedBlocks := .empty
  discBlockCache := []
  locationUsedFromLastUpdate := ∅
  lastSegmentIndex := 0
  alreadyStoredSegments := 0
  segments := none
  headers := none
  support := .empty

variable (ctx : StorageContext)

section Assign

def calculateBucket (hash : Uint256) : ℕ := hash.toNat % 2 ^ 64 % maxBucket

/-- The loop of `assignPosition` over the blocks of the bucket from the `i`-th on; no value
where a block is not in the map, no place where none of the blocks has room. -/
def allocInBuddies (bucket requestedLevel : ℕ) :
    ℕ → ℕ → (CLocation → Option CSimpleBuddy) →
      Option (Option (ℕ × ℕ) × (CLocation → Option CSimpleBuddy))
  | 0, _, buddies => some (none, buddies)
  | count + 1, i, buddies =>
    (buddies (CLocation.ofBucket bucket i)).bind fun buddy =>
      let allocated := buddy.buddyAlloc requestedLevel
      let buddies := Function.update buddies (CLocation.ofBucket bucket i) (some allocated.2)
      match allocated.1 with
      | some index => some (some (i, index), buddies)
      | none => allocInBuddies bucket requestedLevel count (i + 1) buddies

/-- A new block of the bucket; an entry of the maps that is there stays. -/
def allocInNewBuddy (s : CSegmentFileStorage) (bucket requestedLevel : ℕ) :
    UInt64 × CSegmentFileStorage :=
  let last := (s.usedBuddy bucket).getD 0
  let allocated := CSimpleBuddy.new.buddyAlloc requestedLevel
  let location := CLocation.ofBucket bucket last
  (createFullPosition last (allocated.1.getD (2 ^ 32 - 1)) requestedLevel bucket, { s with
    usedBuddy :=
      if last = 0 then insertNew s.usedBuddy bucket 1
      else Function.update s.usedBuddy bucket (some (last + 1))
    transactionLocationToBuddy := insertNew s.transactionLocationToBuddy location allocated.2
    locationUsedFromLastUpdate := insert location s.locationUsedFromLastUpdate })

/-- No value where an assertion fails, no position where the transaction is too large, which
is thrown to the caller. -/
def assignPosition (s : CSegmentFileStorage) (tx : CTransaction) :
    Option (Option UInt64 × CSegmentFileStorage) :=
  let bucket := calculateBucket (tx.getHash ctx.hashes)
  match CSimpleBuddy.getBuddyLevel (CTransaction.diskCodec.encode tx).length with
  | none => some (none, s)
  | some requestedLevel =>
    (allocInBuddies bucket requestedLevel ((s.usedBuddy bucket).getD 0) 0
      s.transactionLocationToBuddy).map fun searched =>
      let s := { s with transactionLocationToBuddy := searched.2 }
      match searched.1 with
      | some (i, index) => (some (createFullPosition i index requestedLevel bucket), s)
      | none =>
        let assigned := s.allocInNewBuddy bucket requestedLevel
        (some assigned.1, assigned.2)

end Assign

section Include

/-- `insert` of the multimap: after the entries of the same time. -/
def insertQueue (timeStamp : UInt64) (txs : List CTransaction) :
    List (UInt64 × List CTransaction) → List (UInt64 × List CTransaction)
  | [] => [(timeStamp, txs)]
  | entry :: queue =>
    if timeStamp < entry.1 then (timeStamp, txs) :: entry :: queue
    else entry :: insertQueue timeStamp txs queue

/-- The locations that are marked for a transaction, its inputs looked up one by one. -/
def markInputs (s : CSegmentFileStorage) : List CTxIn → Option CSegmentFileStorage
  | [] => some s
  | txIn :: vin =>
    if txIn.prevout.isNull then markInputs s vin
    else
      let found := s.support.getTransactionLocation txIn.prevout.hash
      found.1.bind fun location =>
        markInputs { s with
          support := found.2
          locationUsedFromLastUpdate :=
            insert (CLocation.ofFullPosition location) s.locationUsedFromLastUpdate } vin

/-- No value where an input is not found. -/
def addToRecentlyUsed (s : CSegmentFileStorage) (tx : CTransaction) : Option CSegmentFileStorage :=
  { s with
    locationUsedFromLastUpdate :=
      insert (CLocation.ofFullPosition tx.location) s.locationUsedFromLastUpdate }.markInputs tx.vin

def queueTransactions (s : CSegmentFileStorage) (txs : List CTransaction) (timeStamp : UInt64) :
    CSegmentFileStorage :=
  { s with transactionQueue := insertQueue timeStamp txs s.transactionQueue }

def includeTransaction (s : CSegmentFileStorage) (tx : CTransaction) (timeStamp : UInt64) :
    Option CSegmentFileStorage :=
  (s.queueTransactions [tx] timeStamp).addToRecentlyUsed tx

def includeTransactions (s : CSegmentFileStorage) (txs : List CTransaction) (timeStamp : UInt64) :
    Option CSegmentFileStorage :=
  txs.foldlM addToRecentlyUsed (s.queueTransactions txs timeStamp)

end Include

section Headers

/-- `createNewHeader` -/
def createNewHeader (headersCache : List CSegmentHeader) : List CSegmentHeader :=
  headersCache.modify (headersCache.length - 1) CSegmentHeader.setNextHeaderFlag ++ [.new]

def createHeaders : ℕ → List CSegmentHeader → List CSegmentHeader
  | 0, headersCache => headersCache
  | count + 1, headersCache => createHeaders count (createNewHeader headersCache)

def headerOf (location : CLocation) : ℕ :=
  getPosition location.location / CSegmentHeader.getNumberOfFullBucketSets

def indexOf (location : CLocation) : Option (Fin recordsNumber) :=
  CSegmentHeader.recordIndex (getBucket location.location)
    (getPosition location.location % CSegmentHeader.getNumberOfFullBucketSets)

/-- No value where the record lies outside of the header. -/
def assignBlockNumberInHeaderCache (s : CSegmentFileStorage) (location : CLocation) :
    Option (UInt32 × CSegmentFileStorage) :=
  let headersCache := createHeaders (headerOf location + 1 - s.headersCache.length) s.headersCache
  (indexOf location).bind fun index =>
    headersCache[headerOf location]?.map fun h =>
      if h.givenRecordUsed index then
        ((h.records index).blockNumber, { s with headersCache := headersCache })
      else
        let blockNumber := UInt32.ofNat s.lastSegmentIndex
        (blockNumber, { s with
          headersCache :=
            headersCache.set (headerOf location) (h.setRecord index ⟨blockNumber, 0⟩)
          lastSegmentIndex := s.lastSegmentIndex + 1 })

end Headers

section Blocks

/-- No value where reading throws; no block where there is none. -/
def getBlock (s : CSegmentFileStorage) (index : ℕ) : Option (Option CDiskBlock) :=
  if s.alreadyStoredSegments ≤ index then some none
  else
    match s.segments with
    | none => some none
    | some file =>
      (file.load CDiskBlock.segmentSize index).map fun segment => some (.ofSegment segment)

def saveBlock (s : CSegmentFileStorage) (index : ℕ) (block : CDiskBlock) : CSegmentFileStorage :=
  { s with
    alreadyStoredSegments := max s.alreadyStoredSegments (index + 1)
    segments := SegmentFile.saveIn CDiskBlock.segmentSize index block.segment s.segments }

/-- A block that has no number gets one, and is new unless it is stored. -/
def getDiscBlock (s : CSegmentFileStorage) (location : CLocation) :
    Option (CDiskBlock × CSegmentFileStorage) :=
  (s.assignBlockNumberInHeaderCache location).bind fun assigned =>
    if assigned.1 = -1 then some (.new ctx.memory, assigned.2)
    else (assigned.2.getBlock assigned.1.toNat).map fun block =>
      (block.getD (.new ctx.memory), assigned.2)

def setUsedBlock (s : CSegmentFileStorage) (location : CLocation) (block : CDiskBlock) :
    CSegmentFileStorage :=
  { s with usedBlocks := s.usedBlocks.assign location block }

/-- `createStreamForGivenLocation`, which gives the block of the location. -/
def useBlock (s : CSegmentFileStorage) (location : CLocation) :
    Option (CDiskBlock × CSegmentFileStorage) :=
  match s.usedBlocks.lookup location with
  | some block => some (block, s)
  | none =>
    match s.discBlockCache.find? fun element => element.1 = location with
    | some element => some (element.2, s.setUsedBlock location element.2)
    | none => (s.getDiscBlock ctx location).map fun found =>
        (found.1, found.2.setUsedBlock location found.1)

end Blocks

section Process

/-- The transaction is written, and the tree of its block is the one in memory. -/
def storeTransaction (processedLocationToBuddy : Finset CLocation) (s : CSegmentFileStorage)
    (tx : CTransaction) : Option CSegmentFileStorage :=
  let location := CLocation.ofFullPosition tx.location
  (s.useBlock ctx location).bind fun used =>
    (used.1.write tx.location tx).bind fun block =>
      if location ∈ processedLocationToBuddy then
        (used.2.transactionLocationToBuddy location).map fun buddy =>
          used.2.setUsedBlock location { block with tree := buddy }
      else none

/-- A transaction that has lost an output is written again, under its new hash, if it has
another one. Else its area is given back, in its block and in the tree of the block of the
spending transaction. -/
def releaseOutput (s : CSegmentFileStorage) (tx inTransaction : CTransaction) (block : CDiskBlock)
    (location : UInt64) : Option CSegmentFileStorage :=
  if inTransaction.vout.any fun txOut => !txOut.isNull then
    (block.write location inTransaction).map fun block =>
      { s with
        support := s.support.setTransactionLocation (inTransaction.getHash ctx.hashes) location
        }.setUsedBlock (CLocation.ofFullPosition location) block
  else
    (block.tree.buddyFree (getIndex location)).bind fun tree =>
      (s.transactionLocationToBuddy (CLocation.ofFullPosition tx.location)).bind fun buddy =>
        (buddy.buddyFree (getIndex location)).map fun buddy =>
          { s with
            transactionLocationToBuddy := Function.update s.transactionLocationToBuddy
              (CLocation.ofFullPosition tx.location) (some buddy)
            }.setUsedBlock (CLocation.ofFullPosition location) { block with tree := tree }

/-- No value where the input is not found, its transaction cannot be read, or it has no such
output. -/
def spendOutput (s : CSegmentFileStorage) (tx : CTransaction) (txIn : CTxIn) :
    Option CSegmentFileStorage :=
  let found := s.support.getTransactionLocation txIn.prevout.hash
  found.1.bind fun location =>
    ({ s with support := found.2 }.useBlock ctx (CLocation.ofFullPosition location)).bind fun used =>
      (used.1.read location).bind fun inTransaction =>
        if txIn.prevout.n.toNat < inTransaction.vout.length then
          { used.2 with
            support := used.2.support.eraseTransactionLocation txIn.prevout.hash
            }.releaseOutput ctx tx
              { inTransaction with vout := inTransaction.vout.set txIn.prevout.n.toNat .null }
              used.1 location
        else none

def spendOutputs (tx : CTransaction) : List CTxIn → CSegmentFileStorage → Option CSegmentFileStorage
  | [], s => some s
  | txIn :: vin, s => (s.spendOutput ctx tx txIn).bind (spendOutputs tx vin)

def processTransaction (processedLocationToBuddy : Finset CLocation) (s : CSegmentFileStorage)
    (tx : CTransaction) : Option CSegmentFileStorage :=
  (s.storeTransaction ctx processedLocationToBuddy tx).bind
    (spendOutputs ctx tx (if tx.isCoinBase then [] else tx.vin))

def processQueue (processedLocationToBuddy : Finset CLocation) :
    List CTransaction → CSegmentFileStorage → Option CSegmentFileStorage
  | [], s => some s
  | tx :: txs, s =>
    (s.processTransaction ctx processedLocationToBuddy tx).bind
      (processQueue processedLocationToBuddy txs)

end Process

section Save

def saveBlocks : List (CLocation × CDiskBlock) → CSegmentFileStorage → Option CSegmentFileStorage
  | [], s => some s
  | block :: blocks, s =>
    (s.assignBlockNumberInHeaderCache block.1).bind fun assigned =>
      saveBlocks blocks (assigned.2.saveBlock assigned.1.toNat block.2)

def saveHeadersFrom : ℕ → List CSegmentHeader → Option SegmentFile → Option SegmentFile
  | _, [], file => file
  | headerId, header :: headers, file =>
    saveHeadersFrom (headerId + 1) headers
      (SegmentFile.saveIn CSegmentHeader.segmentSize headerId header.segment file)

def saveHeaders (s : CSegmentFileStorage) : CSegmentFileStorage :=
  { s with headers := saveHeadersFrom 0 s.headersCache s.headers }

/-- `m_maximumSize` of the cache -/
def maximumSize : ℕ := 32

/-- The oldest element leaves a full cache. -/
def insertCache (discBlockCache : List (CLocation × CDiskBlock)) (element : CLocation × CDiskBlock) :
    List (CLocation × CDiskBlock) :=
  (if discBlockCache.length = maximumSize then discBlockCache.tail else discBlockCache) ++ [element]

/-- The blocks of the iteration that are not in the cache join it; those that are have been
changed in place. -/
def reloadCache (s : CSegmentFileStorage) : CSegmentFileStorage :=
  let kept := s.discBlockCache.map fun element =>
    (element.1, (s.usedBlocks.lookup element.1).getD element.2)
  let nonCacheBlocks := s.usedBlocks.entries.filter fun block =>
    block.1 ∉ s.discBlockCache.map Prod.fst
  { s with
    discBlockCache := nonCacheBlocks.foldl insertCache kept
    usedBlocks := .empty }

/-- The end of an iteration, from the flush of the support database on. -/
def saveAll (s : CSegmentFileStorage) : Option CSegmentFileStorage :=
  let s := { s with support := s.support.flush }
  (saveBlocks s.usedBlocks.entries s).map fun s => s.saveHeaders.reloadCache

end Save

section Flush

/-- The transactions of the queue in the order of their times. -/
def queued (s : CSegmentFileStorage) : List CTransaction := s.transactionQueue.flatMap Prod.snd

/-- Every marked location is asserted to have a tree. -/
def locationsKnown (s : CSegmentFileStorage) : Prop :=
  ∀ location ∈ s.locationUsedFromLastUpdate, (s.transactionLocationToBuddy location).isSome

instance (s : CSegmentFileStorage) : Decidable s.locationsKnown :=
  inferInstanceAs (Decidable (∀ _ ∈ _, _))

def clearQueue (s : CSegmentFileStorage) : CSegmentFileStorage := { s with transactionQueue := [] }

def clearUsed (s : CSegmentFileStorage) : CSegmentFileStorage :=
  { s with locationUsedFromLastUpdate := ∅ }

/-- An iteration that nothing interrupts, with the blocks that it saves. -/
def flushIteration (s : CSegmentFileStorage) :
    Option (List (CLocation × CDiskBlock) × CSegmentFileStorage) :=
  if s.locationsKnown then
    (processQueue ctx s.locationUsedFromLastUpdate s.queued s.clearQueue).bind fun processed =>
      processed.saveAll.map fun saved => (processed.usedBlocks.entries, saved.clearUsed)
  else none

end Flush

end CSegmentFileStorage

end Dims
