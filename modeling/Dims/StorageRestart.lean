import Dims.RangeSlots
import Dims.StorageHistory

/-!
# The storage after a restart

`retriveState` reads the headers and gives the blocks of each bucket the next position,
in the order of their records. These are the positions that the blocks had if every
bucket has used its records without a gap.
-/

namespace Dims.CSegmentFileStorage
open CSegmentHeader SegmentFile

variable (ctx : StorageContext)

section Retrive

def resetState (s : CSegmentFileStorage) : CSegmentFileStorage :=
  { s with
    headersCache := []
    alreadyStoredSegments := 0
    lastSegmentIndex := 0
    usedBuddy := fun _ => none }

/-- The headers that follow on one with the flag; a chain that does not end has no value. -/
def fillLoop (file : SegmentFile) :
    ℕ → CSegmentHeader → List CSegmentHeader → Option (List CSegmentHeader)
  | 0, header, headersCache => if header.isNextHeader then none else some headersCache
  | fuel + 1, header, headersCache =>
    if header.isNextHeader then
      (file.load segmentSize headersCache.length).bind fun segment =>
        fillLoop file fuel (.ofSegment segment) (headersCache ++ [.ofSegment segment])
    else some headersCache

/-- A header takes up more than a byte, so that the length of the file bounds the loop. -/
def fillHeaderBuffor (s : CSegmentFileStorage) : Option CSegmentFileStorage :=
  match s.headers with
  | none => if s.headersCache.getLast?.any isNextHeader then none else some s
  | some file =>
    let first := match s.headersCache.getLast? with
      | some header => some (header, s.headersCache)
      | none => (file.load segmentSize 0).map fun segment => (.ofSegment segment, [.ofSegment segment])
    first.bind fun first =>
      (fillLoop file file.length first.1 first.2).map fun headersCache =>
        { s with headersCache := headersCache }

/-- The records with their buckets, in the order of the loops of `retriveState`. -/
def recordsInOrder (headersCache : List CSegmentHeader) : List (ℕ × CRecord) :=
  headersCache.flatMap fun header =>
    (List.range getNumberOfFullBucketSets).flatMap fun setId =>
      (List.range maxBucket).filterMap fun bucket =>
        (recordIndex bucket setId).map fun index => (bucket, header.records index)

/-- The body of the loops. The block that is read is kept for the next record, where reading
may fail. -/
def retriveRecords : List (ℕ × CRecord) → CDiskBlock → CSegmentFileStorage → Option CSegmentFileStorage
  | [], _, s => some s
  | record :: records, diskBlock, s =>
    if record.2.isEmptySpace = 0 then
      (s.getBlock record.2.blockNumber.toNat).bind fun read =>
        let diskBlock := read.getD diskBlock
        let position := (s.usedBuddy record.1).getD 0
        retriveRecords records diskBlock { s with
          transactionLocationToBuddy :=
            insertNew s.transactionLocationToBuddy (CLocation.ofBucket record.1 position)
              diskBlock.tree
          usedBuddy := Function.update s.usedBuddy record.1 (some (position + 1)) }
    else retriveRecords records diskBlock s

/-- Every bucket counts from 0, once there is a header. -/
def countBuckets (s : CSegmentFileStorage) : CSegmentFileStorage :=
  { s with
    alreadyStoredSegments := calculateStoredBlockNumber s.headersCache
    lastSegmentIndex := calculateStoredBlockNumber s.headersCache
    usedBuddy := fun bucket =>
      if s.headersCache ≠ [] ∧ bucket < maxBucket then (s.usedBuddy bucket).or (some 0)
      else s.usedBuddy bucket }

def retriveState (s : CSegmentFileStorage) : Option CSegmentFileStorage :=
  s.fillHeaderBuffor.bind fun s =>
    retriveRecords (recordsInOrder s.headersCache) (.new ctx.memory) s.countBuckets

/-- A new process finds the files and the database of the old one. -/
def newProcess (s : CSegmentFileStorage) : CSegmentFileStorage :=
  { init with
    segments := s.segments
    headers := s.headers
    support := { CSupportTransactionsDatabase.empty with
      transactionSpecificData := s.support.transactionSpecificData } }

/-- A restart, in the same process or in a new one. -/
def restart (sameProcess : Bool) (s : CSegmentFileStorage) : Option CSegmentFileStorage :=
  (if sameProcess then s else s.newProcess).resetState.retriveState ctx

end Retrive

section HeadersFile

theorem HeadersStored.load {headersCache : List CSegmentHeader} {f : SegmentFile}
    (h : HeadersStored headersCache (some f)) {i : ℕ} {header : CSegmentHeader}
    (hi : headersCache[i]? = some header) :
    ∃ segment, f.load segmentSize i = some segment ∧ ofSegment segment = header := by
  obtain ⟨f', hf, read, hload, hread⟩ := h.2 i header hi
  cases hf
  exact ⟨read, hload, ofSegment_eq hread⟩

theorem fillLoop_eq {headersCache : List CSegmentHeader} {f : SegmentFile}
    (h : HeadersStored headersCache (some f)) (hchained : Chained headersCache) {fuel i : ℕ}
    {header : CSegmentHeader} (hi : headersCache[i]? = some header)
    (hfuel : headersCache.length ≤ fuel + (i + 1)) :
    fillLoop f fuel header (headersCache.take (i + 1)) = some headersCache := by
  have hlt := (List.getElem?_eq_some_iff.mp hi).1
  induction fuel generalizing i header with
  | zero =>
    have hend : ¬header.isNextHeader = true := by
      rw [hchained i header hi]
      omega
    rw [fillLoop, if_neg hend, List.take_of_length_le (by omega)]
  | succ fuel ih =>
    rw [fillLoop]
    split
    case isTrue hnext =>
      have hlt' := (hchained i header hi).mp hnext
      have hnextHeader := List.getElem?_eq_getElem hlt'
      obtain ⟨segment, hload, heq⟩ := h.load hnextHeader
      rw [List.length_take, Nat.min_eq_left (by omega), hload, Option.bind_some, heq]
      have htake : headersCache.take (i + 1) ++ [headersCache[i + 1]] =
          headersCache.take (i + 1 + 1) := by
        rw [List.take_add_one (i := i + 1), hnextHeader]
        rfl
      rw [htake]
      exact ih hnextHeader (by omega) hlt'
    case isFalse hnot =>
      have hend : ¬i + 1 < headersCache.length := fun hlt' => hnot ((hchained i header hi).mpr hlt')
      rw [List.take_of_length_le (by omega)]

theorem fillHeaderBuffor_eq {s : CSegmentFileStorage} {headersCache : List CSegmentHeader}
    (hempty : s.headersCache = []) (h : HeadersStored headersCache s.headers)
    (hchained : Chained headersCache) (hrange : segmentSize * headersCache.length ≤ 2 ^ 32) :
    s.fillHeaderBuffor = some { s with headersCache := headersCache } := by
  unfold fillHeaderBuffor
  cases hheaders : headersCache with
  | nil =>
    have hnone := h.1 hheaders
    obtain ⟨⟩ := s
    simp only at hempty hnone
    subst hempty hnone
    rfl
  | cons first rest =>
    rw [← hheaders]
    have hfirst : headersCache[0]? = some first := by rw [hheaders]; rfl
    obtain ⟨f, hf, -⟩ := h.2 0 first hfirst
    rw [hf] at h ⊢
    obtain ⟨segment, hload, heq⟩ := h.load hfirst
    simp only [hempty, List.getLast?_nil, hload, Option.map_some, Option.bind_some, heq]
    have hlast : headersCache.length - 1 < headersCache.length := by
      rw [hheaders]
      exact Nat.lt_succ_self _
    -- the last header lies in the file, which is therefore long enough
    obtain ⟨f', hf', read, hread, -⟩ := h.2 _ _ (List.getElem?_eq_getElem hlast)
    cases hf'
    have hlength : headersCache.length ≤ f.length := by
      unfold SegmentFile.load at hread
      split at hread
      case isTrue hle =>
        rw [offset_of_inRange (by decide) (inRange_of_lt hrange hlast)] at hle
        have hsize : segmentSize = 1017 := by decide
        rw [hsize] at hle
        omega
      case isFalse => cases hread
    have htake : [first] = headersCache.take (0 + 1) := by rw [hheaders]; rfl
    rw [htake, fillLoop_eq h hchained hfirst (by omega)]
    rfl

end HeadersFile

section Records

/-- The numbers in the used records of a bucket, in the order in which they are gone through. -/
def usedIn (bucket : ℕ) (records : List (ℕ × CRecord)) : List UInt32 :=
  records.filterMap fun record =>
    if record.1 = bucket ∧ record.2.isEmptySpace = 0 then some record.2.blockNumber else none

/-- Each used record of a bucket gives its block the next position of the bucket. -/
structure Retrived (s : CSegmentFileStorage) (records : List (ℕ × CRecord))
    (s' : CSegmentFileStorage) : Prop where
  frame : s' = { s with
    transactionLocationToBuddy := s'.transactionLocationToBuddy, usedBuddy := s'.usedBuddy }
  kept : ∀ location tree, s.transactionLocationToBuddy location = some tree →
    s'.transactionLocationToBuddy location = some tree
  origin : ∀ location, (s'.transactionLocationToBuddy location).isSome →
    (s.transactionLocationToBuddy location).isSome ∨ ∃ bucket position, bucket < maxBucket ∧
      position < (s'.usedBuddy bucket).getD 0 ∧ location = CLocation.ofBucket bucket position
  shapes : TreesWellFormed s.transactionLocationToBuddy →
    TreesWellFormed s'.transactionLocationToBuddy
  counted : ∀ bucket, (s'.usedBuddy bucket).getD 0 =
    (s.usedBuddy bucket).getD 0 + (usedIn bucket records).length
  untouched : ∀ bucket, usedIn bucket records = [] → s'.usedBuddy bucket = s.usedBuddy bucket
  found : ∀ bucket j n, bucket < maxBucket → (usedIn bucket records)[j]? = some n →
    (s.usedBuddy bucket).getD 0 + j < 2 ^ 32 →
    s.transactionLocationToBuddy (CLocation.ofBucket bucket ((s.usedBuddy bucket).getD 0 + j)) = none →
    ∃ block, s.getBlock n.toNat = some (some block) ∧ s'.transactionLocationToBuddy
      (CLocation.ofBucket bucket ((s.usedBuddy bucket).getD 0 + j)) = some block.tree

theorem usedIn_cons_of_empty {record : CRecord} (h : record.isEmptySpace ≠ 0) (bucket bucket' : ℕ)
    (records : List (ℕ × CRecord)) :
    usedIn bucket' ((bucket, record) :: records) = usedIn bucket' records :=
  List.filterMap_cons_none (if_neg fun hand => h hand.2)

theorem usedIn_cons_self {record : CRecord} (h : record.isEmptySpace = 0) (bucket : ℕ)
    (records : List (ℕ × CRecord)) :
    usedIn bucket ((bucket, record) :: records) = record.blockNumber :: usedIn bucket records :=
  List.filterMap_cons_some (if_pos ⟨rfl, h⟩)

theorem usedIn_cons_of_ne {bucket bucket' : ℕ} (h : bucket' ≠ bucket) (record : CRecord)
    (records : List (ℕ × CRecord)) :
    usedIn bucket' ((bucket, record) :: records) = usedIn bucket' records :=
  List.filterMap_cons_none (if_neg fun hand => h hand.1.symm)

theorem Retrived.skip {s s' : CSegmentFileStorage} {records : List (ℕ × CRecord)} {bucket : ℕ}
    {record : CRecord} (h : Retrived s records s') (hempty : record.isEmptySpace ≠ 0) :
    Retrived s ((bucket, record) :: records) s' := by
  refine ⟨h.frame, h.kept, h.origin, h.shapes, fun bucket' => ?_, fun bucket' => ?_,
    fun bucket' => ?_⟩
  · rw [usedIn_cons_of_empty hempty, h.counted]
  · rw [usedIn_cons_of_empty hempty]
    exact h.untouched bucket'
  · rw [usedIn_cons_of_empty hempty]
    exact h.found bucket'

/-- A used record takes the next position of its bucket before the others do. -/
theorem Retrived.cons {s s' : CSegmentFileStorage} {records : List (ℕ × CRecord)}
    {bucket position : ℕ} {record : CRecord} {block : CDiskBlock} (hused : record.isEmptySpace = 0)
    (hbucket : bucket < maxBucket) (hposition : (s.usedBuddy bucket).getD 0 = position)
    (hblock : s.getBlock record.blockNumber.toNat = some (some block))
    (hshape : block.tree.WellFormed)
    (h : Retrived { s with
      transactionLocationToBuddy := insertNew s.transactionLocationToBuddy
        (CLocation.ofBucket bucket position) block.tree
      usedBuddy := Function.update s.usedBuddy bucket (some (position + 1)) } records s') :
    Retrived s ((bucket, record) :: records) s' := by
  have hhead := usedIn_cons_self hused bucket records
  have hcount : ∀ bucket', (Function.update s.usedBuddy bucket (some (position + 1)) bucket').getD 0 =
      if bucket' = bucket then position + 1 else (s.usedBuddy bucket').getD 0 := by
    intro bucket'
    split
    case isTrue heq => rw [heq, Function.update_self, Option.getD_some]
    case isFalse hne => rw [Function.update_of_ne hne]
  have hcounted := h.counted
  have hfound := h.found
  simp only [hcount] at hcounted hfound
  refine ⟨?_, fun location tree hold => h.kept location tree (insertNew_of_some hold),
    fun location hsome => ?_, fun hold => h.shapes (hold.insertNew hshape _), fun bucket' => ?_,
    fun bucket' hnone => ?_, fun bucket' j n hbucket' hj hlt hnone => ?_⟩
  · rw [h.frame]
  · obtain hstep | hnew := h.origin location hsome
    · obtain rfl | hold := isSome_insertNew.mp hstep
      · refine .inr ⟨bucket, position, hbucket, ?_, rfl⟩
        rw [hcounted, if_pos rfl]
        omega
      · exact .inl hold
    · exact .inr hnew
  · rw [hcounted]
    by_cases heq : bucket' = bucket
    · subst heq
      rw [if_pos rfl, hhead, List.length_cons, hposition]
      omega
    · rw [if_neg heq, usedIn_cons_of_ne heq]
  · have hne : bucket' ≠ bucket := by
      rintro rfl
      rw [hhead] at hnone
      cases hnone
    rw [usedIn_cons_of_ne hne] at hnone
    exact (h.untouched bucket' hnone).trans (Function.update_of_ne hne ..)
  · by_cases heq : bucket' = bucket
    · subst heq
      rw [hposition] at hlt hnone ⊢
      rw [hhead] at hj
      cases j with
      | zero =>
        cases hj
        exact ⟨block, hblock, h.kept _ _ (insertNew_of_none hnone)⟩
      | succ j =>
        have hlater := hfound bucket' j n hbucket' hj
        rw [if_pos rfl, show position + 1 + j = position + (j + 1) by omega] at hlater
        refine hlater hlt ((insertNew_of_ne fun hsame => ?_).trans hnone)
        have hpositions := position_of_ofBucket_eq hbucket' hlt (by omega) hsame
        omega
    · rw [usedIn_cons_of_ne heq] at hj
      have hlater := hfound bucket' j n hbucket' hj
      rw [if_neg heq] at hlater
      refine hlater hlt ((insertNew_of_ne fun hsame => ?_).trans hnone)
      exact heq (bucket_of_ofBucket_eq hbucket' hbucket hsame)

theorem retriveRecords_spec {records : List (ℕ × CRecord)} {s : CSegmentFileStorage}
    (diskBlock : CDiskBlock) (hbuckets : ∀ record ∈ records, record.1 < maxBucket)
    (hread : ∀ record ∈ records, record.2.isEmptySpace = 0 →
      ∃ block, s.getBlock record.2.blockNumber.toNat = some (some block) ∧ block.tree.WellFormed) :
    ∃ s', retriveRecords records diskBlock s = some s' ∧ Retrived s records s' := by
  induction records generalizing s diskBlock with
  | nil => exact ⟨s, rfl, rfl, fun _ _ => id, fun _ => .inl, id, fun _ => rfl, fun _ _ => rfl, nofun⟩
  | cons record records ih =>
    obtain ⟨bucket, record⟩ := record
    have hbuckets' := fun record hin => hbuckets record (List.mem_cons_of_mem _ hin)
    have hread' := fun record hin => hread record (List.mem_cons_of_mem _ hin)
    rw [retriveRecords]
    split
    case isFalse hempty =>
      obtain ⟨s', hs', hretrived⟩ := ih diskBlock hbuckets' hread'
      exact ⟨s', hs', hretrived.skip hempty⟩
    case isTrue hused =>
      obtain ⟨block, hblock, hshape⟩ := hread _ List.mem_cons_self hused
      simp only [hblock, Option.bind_some, Option.getD_some]
      generalize hposition : (s.usedBuddy bucket).getD 0 = position
      obtain ⟨s', hs', hretrived⟩ := ih (s := { s with
        transactionLocationToBuddy := insertNew s.transactionLocationToBuddy
          (CLocation.ofBucket bucket position) block.tree
        usedBuddy := Function.update s.usedBuddy bucket (some (position + 1)) }) block hbuckets' hread'
      exact ⟨s', hs', .cons hused (hbuckets _ List.mem_cons_self) hposition hblock hshape hretrived⟩

/-- The number in the record of a header, if it is used. -/
def setNumber (bucket : ℕ) (header : CSegmentHeader) (setId : ℕ) : Option UInt32 :=
  (recordIndex bucket setId).bind fun index =>
    if header.givenRecordUsed index then some (header.records index).blockNumber else none

/-- The number at a position of a bucket. -/
def numberIn (headersCache : List CSegmentHeader) (bucket position : ℕ) : Option UInt32 :=
  headersCache[position / getNumberOfFullBucketSets]?.bind fun header =>
    setNumber bucket header (position % getNumberOfFullBucketSets)

theorem numberOf_ofBucket {bucket position : ℕ} (hbucket : bucket < maxBucket)
    (hposition : position < 2 ^ 32) (headersCache : List CSegmentHeader) :
    numberOf headersCache (CLocation.ofBucket bucket position) =
      numberIn headersCache bucket position := by
  rw [numberOf, indexOf_ofBucket hbucket hposition, headerOf_ofBucket hbucket hposition, numberIn]
  unfold numberAt setNumber
  cases recordIndex bucket (position % getNumberOfFullBucketSets) <;>
    cases headersCache[position / getNumberOfFullBucketSets]? <;> rfl

theorem numberIn_lt {headersCache : List CSegmentHeader} {bucket position : ℕ} {n : UInt32}
    (h : numberIn headersCache bucket position = some n) :
    position < headersCache.length * getNumberOfFullBucketSets := by
  obtain ⟨header, hheader, -⟩ := Option.bind_eq_some_iff.mp h
  have hlt := (List.getElem?_eq_some_iff.mp hheader).1
  exact (Nat.div_lt_iff_lt_mul (by decide)).mp hlt

theorem mem_recordsInOrder {headersCache : List CSegmentHeader} {record : ℕ × CRecord}
    (h : record ∈ recordsInOrder headersCache) : record.1 < maxBucket ∧
      ∃ (i : ℕ) (header : CSegmentHeader) (index : Fin recordsNumber),
        headersCache[i]? = some header ∧ record.2 = header.records index := by
  obtain ⟨header, hheader, h⟩ := List.mem_flatMap.mp h
  obtain ⟨setId, -, h⟩ := List.mem_flatMap.mp h
  obtain ⟨bucket, hbucket, h⟩ := List.mem_filterMap.mp h
  obtain ⟨index, -, rfl⟩ := Option.map_eq_some_iff.mp h
  obtain ⟨i, hi⟩ := List.mem_iff_getElem?.mp hheader
  exact ⟨List.mem_range.mp hbucket, i, header, index, hi, rfl⟩

theorem usedIn_recordsInOrder {bucket : ℕ} (hbucket : bucket < maxBucket)
    (headersCache : List CSegmentHeader) :
    usedIn bucket (recordsInOrder headersCache) =
      (List.range (headersCache.length * getNumberOfFullBucketSets)).filterMap
        (numberIn headersCache bucket) := by
  have hset : ∀ (header : CSegmentHeader) (setId : ℕ), usedIn bucket ((List.range maxBucket).filterMap
      fun bucket' => (recordIndex bucket' setId).map fun index => (bucket', header.records index)) =
        (setNumber bucket header setId).toList := by
    intro header setId
    rw [usedIn, List.filterMap_filterMap]
    refine (RangeSlots.filterMap_single hbucket fun bucket' hne => ?_).trans ?_
    · cases recordIndex bucket' setId with
      | none => rfl
      | some index => exact if_neg fun hand => hne hand.1
    · unfold setNumber
      cases recordIndex bucket setId with
      | none => rfl
      | some index => simp [givenRecordUsed]
  unfold recordsInOrder
  rw [usedIn, List.filterMap_flatMap]
  refine Eq.trans ?_ (RangeSlots.flatMap_filterMap (setNumber bucket) (by decide) headersCache)
  congr 1
  funext header
  rw [List.filterMap_flatMap, List.filterMap_eq_flatMap_toList]
  congr 1
  funext setId
  exact hset header setId

/-- The used records of every bucket are its first. -/
def Gapless (headersCache : List CSegmentHeader) : Prop :=
  ∀ bucket < maxBucket, RangeSlots.Gapless (numberIn headersCache bucket)

end Records

section Restart

variable {ctx : StorageContext} {Extra : CLocation → Prop} {s : CSegmentFileStorage}
  {saved : CLocation → Option CDiskBlock}

/-- Between the calls a used record is that of a block that has been saved. -/
theorem AtRest.saved_of_owned (h : AtRest Extra s saved) {location : CLocation}
    (howned : ((s.usedBlocks.lookup location).or (saved location)).isSome) :
    (saved location).isSome := by
  rwa [h.usedBlocks] at howned

theorem AtRest.number_lt (h : AtRest Extra s saved) {location : CLocation} {block : CDiskBlock}
    (hsaved : saved location = some block) : ∃ n,
      numberOf s.headersCache location = some n ∧
        n.toNat < s.lastSegmentIndex := by
  obtain ⟨-, -, n, hn, -⟩ := h.filed.stored location block hsaved
  obtain ⟨index, -, hat⟩ := Option.bind_eq_some_iff.mp hn
  exact ⟨n, hn, h.filed.numbered.below _ _ _ hat⟩

theorem getBlock_of_stores {n : ℕ} {block : CDiskBlock}
    (h : Stores CDiskBlock.segmentSize n block.segment s.segments)
    (hlt : n < s.alreadyStoredSegments) :
    ∃ read, s.getBlock n = some (some read) ∧ SameSegment read block := by
  obtain ⟨file, hfile, read, hload, hread⟩ := h
  refine ⟨.ofSegment read, ?_, fun i hi => ?_⟩
  · unfold CSegmentFileStorage.getBlock
    rw [if_neg (Nat.not_le.mpr hlt), hfile]
    simp only [hload, Option.map_some]
  · rw [segment_ofSegment, hread i hi]

/-- The files hold the headers and the blocks that have been saved. -/
structure InFilesOf (headersCache : List CSegmentHeader) (saved : CLocation → Option CDiskBlock)
    (start : CSegmentFileStorage) : Prop where
  headers : HeadersStored headersCache start.headers
  segments : ∀ location block n, saved location = some block →
    numberOf headersCache location = some n →
      Stores CDiskBlock.segmentSize n.toNat block.segment start.segments

/-- The state from which the records are gone through. -/
def recounted (headersCache : List CSegmentHeader) (start : CSegmentFileStorage) :
    CSegmentFileStorage :=
  countBuckets { start.resetState with headersCache := headersCache }

theorem usedBuddy_recounted (headersCache : List CSegmentHeader) (start : CSegmentFileStorage)
    (bucket : ℕ) : (recounted headersCache start).usedBuddy bucket =
      if headersCache ≠ [] ∧ bucket < maxBucket then some 0 else none := by
  change (if _ then Option.or none (some 0) else none) = _
  rfl

theorem getD_usedBuddy_recounted (headersCache : List CSegmentHeader) (start : CSegmentFileStorage)
    (bucket : ℕ) : ((recounted headersCache start).usedBuddy bucket).getD 0 = 0 := by
  rw [usedBuddy_recounted]
  split <;> rfl

theorem Gapless.getElem?_usedIn {headersCache : List CSegmentHeader} (h : Gapless headersCache)
    {bucket : ℕ} (hbucket : bucket < maxBucket) (position : ℕ) :
    (usedIn bucket (recordsInOrder headersCache))[position]? =
      numberIn headersCache bucket position := by
  rw [usedIn_recordsInOrder hbucket, (h bucket hbucket).getElem?_filterMap]
  split
  case isTrue => rfl
  case isFalse hbeyond =>
    cases hn : numberIn headersCache bucket position with
    | none => rfl
    | some n => exact absurd (numberIn_lt hn) hbeyond

variable (ctx) in
/-- The files that a restart reads give back the trees of the blocks that have been saved, at
their locations if there is no gap and nothing in memory is in their place. -/
theorem AtRest.retriveFiles (h : AtRest Extra s saved) (hfits : s.Fits)
    {start : CSegmentFileStorage} (hfiles : InFilesOf s.headersCache saved start) :
    ∃ s', start.resetState.retriveState ctx = some s' ∧
      Retrived (recounted s.headersCache start) (recordsInOrder s.headersCache) s' ∧
      (Gapless s.headersCache → ∀ location block, saved location = some block →
        start.transactionLocationToBuddy location = none →
          ∃ read : CDiskBlock, s'.transactionLocationToBuddy location = some read.tree ∧
            SameSegment read block) := by
  have htotal := h.filed.numbered.total
  have hfilled : start.resetState.fillHeaderBuffor =
      some { start.resetState with headersCache := s.headersCache } :=
    fillHeaderBuffor_eq rfl hfiles.headers h.filed.chained hfits.headers
  have hget : ∀ location block n, saved location = some block →
      numberOf s.headersCache location = some n → n.toNat < s.lastSegmentIndex →
        ∃ read, (recounted s.headersCache start).getBlock n.toNat = some (some read) ∧
          SameSegment read block := by
    intro location block n hsaved hn hlt
    exact getBlock_of_stores (s := recounted s.headersCache start)
      (hfiles.segments location block n hsaved hn) (hlt.trans_eq htotal.symm)
  -- every used record is that of a saved block
  have hread : ∀ record ∈ recordsInOrder s.headersCache, record.2.isEmptySpace = 0 →
      ∃ block, (recounted s.headersCache start).getBlock record.2.blockNumber.toNat =
        some (some block) ∧ block.tree.WellFormed := by
    intro record hin hused
    obtain ⟨-, i, header, index, hheader, hrecord⟩ := mem_recordsInOrder hin
    have hat : numberAt s.headersCache i index = some record.2.blockNumber := by
      rw [hrecord] at hused
      rw [numberAt, hheader, Option.bind_some, givenRecordUsed, decide_eq_true hused, if_pos rfl,
        hrecord]
    obtain ⟨location, -, rfl, hindex, howned⟩ := h.filed.recorded i index _ hat
    obtain ⟨block, hsaved⟩ := Option.isSome_iff_exists.mp (h.saved_of_owned howned)
    obtain ⟨n, hn, hlt⟩ := h.number_lt hsaved
    obtain ⟨read, hblock, hsame⟩ := hget location block n hsaved hn hlt
    rw [numberOf, hindex, Option.bind_some, hat] at hn
    cases hn
    exact ⟨read, hblock,
      (h.filed.stored location block hsaved).2.1.of_agree fun i hi => hsame.tree hi⟩
  obtain ⟨s', hs', hretrived⟩ := retriveRecords_spec (.new ctx.memory)
    (fun record hin => (mem_recordsInOrder hin).1) hread
  refine ⟨s', ?_, hretrived, fun hgapless location block hsaved hnone => ?_⟩
  · unfold CSegmentFileStorage.retriveState
    rw [hfilled, Option.bind_some]
    exact hs'
  · obtain ⟨bucket, position, hbucket, hposition, rfl⟩ :=
      h.regular location (h.filed.stored location block hsaved).1
    obtain ⟨n, hn, hlt⟩ := h.number_lt hsaved
    obtain ⟨read, hblock, hsame⟩ := hget _ block n hsaved hn hlt
    rw [numberOf_ofBucket hbucket hposition] at hn
    have hfound := hretrived.found bucket position n hbucket
      ((hgapless.getElem?_usedIn hbucket position).trans hn)
    rw [getD_usedBuddy_recounted, Nat.zero_add] at hfound
    obtain ⟨block', hblock', hmapped⟩ := hfound hposition hnone
    rw [hblock] at hblock'
    cases hblock'
    exact ⟨read, hmapped, hsame⟩

/-- What a restart works on is what the old process has left in the files. -/
structure Resumes (s start : CSegmentFileStorage) : Prop where
  headers : start.headers = s.headers
  segments : start.segments = s.segments
  usedBlocks : start.usedBlocks = s.usedBlocks
  cached : start.discBlockCache ⊆ s.discBlockCache
  trees : ∀ location tree, start.transactionLocationToBuddy location = some tree →
    s.transactionLocationToBuddy location = some tree
  known : ∀ hash full, start.support.transactionSpecificData hash = some full ∨
      start.support.transactionToLocationCacheInsert hash = some full →
    s.support.transactionSpecificData hash = some full ∨
      s.support.transactionToLocationCacheInsert hash = some full

theorem resumes (h : AtRest Extra s saved) (sameProcess : Bool) :
    Resumes s (if sameProcess then s else s.newProcess) := by
  cases sameProcess with
  | true => exact ⟨rfl, rfl, rfl, List.Subset.refl _, fun _ _ => id, fun _ _ => id⟩
  | false =>
    refine ⟨rfl, rfl, h.usedBlocks.symm, List.nil_subset _, nofun, fun hash full hin => ?_⟩
    obtain hin | hin := hin
    · exact .inl hin
    · cases hin

variable (ctx) in
theorem AtRest.retriveState (h : AtRest Extra s saved) (hfits : s.Fits)
    {start : CSegmentFileStorage} (hstart : Resumes s start) :
    ∃ s', start.resetState.retriveState ctx = some s' ∧ s'.headersCache = s.headersCache ∧
      AtRest Regular s' saved ∧ s'.Fits ∧
      (∀ location tree, start.transactionLocationToBuddy location = some tree →
        s'.transactionLocationToBuddy location = some tree) ∧
      ((∀ location, start.transactionLocationToBuddy location = none) → Gapless s.headersCache →
        ∀ location block, saved location = some block →
          ∃ tree, s'.transactionLocationToBuddy location = some tree ∧
            ∀ i < CSimpleBuddy.treeSize, tree i = block.tree i) := by
  have htotal := h.filed.numbered.total
  have hfiles : InFilesOf s.headersCache saved start := by
    refine ⟨hstart.headers ▸ h.headers, fun location block n hsaved hn => ?_⟩
    obtain ⟨-, -, n', hn', -, hstores⟩ := h.filed.stored location block hsaved
    cases hn.symm.trans hn'
    rwa [hstart.segments]
  obtain ⟨s', hs', hretrived, hmapped⟩ := h.retriveFiles ctx hfits hfiles
  have hframe := hretrived.frame
  have htrees : ∀ location, (s'.transactionLocationToBuddy location).isSome → Regular location := by
    intro location hsome
    obtain hold | ⟨bucket, position, hbucket, -, rfl⟩ := hretrived.origin location hsome
    · obtain ⟨tree, htree⟩ := Option.isSome_iff_exists.mp hold
      exact h.regular location (.inl (Option.isSome_of_mem (hstart.trees location tree htree)))
    · exact regular_ofBucket hbucket position
  have hshapes : TreesWellFormed s'.transactionLocationToBuddy := by
    refine hretrived.shapes fun location tree htree => ?_
    exact (h.filed.trees location tree (hstart.trees location tree htree)).2
  have hfiled : Filed (KnownTo Regular s') s' saved := by
    rw [hframe]
    refine ⟨fun location tree htree => ?_, fun hash full hin => ?_, fun location block hin => ?_,
      fun element hin _ => ?_, fun location block hsaved => ?_, fun header index n hn => ?_, ?_,
      le_rfl, h.filed.chained, ?_⟩
    · exact ⟨.inl (Option.isSome_of_mem htree), hshapes location tree htree⟩
    · exact .inr (h.regular _ (h.filed.known hash full (hstart.known hash full hin)))
    · change start.usedBlocks.lookup location = _ at hin
      rw [hstart.usedBlocks, h.usedBlocks] at hin
      cases hin
    · exact h.filed.cached element (hstart.cached hin) (by rw [h.usedBlocks]; rfl)
    · obtain ⟨hknown, hshape, n, hn, -, hstores⟩ := h.filed.stored location block hsaved
      obtain ⟨index, -, hat⟩ := Option.bind_eq_some_iff.mp hn
      refine ⟨.inr (h.regular location hknown), hshape, n, hn, ?_, ?_⟩
      · exact (h.filed.numbered.below _ _ _ hat).trans_eq htotal.symm
      · rwa [← hstart.segments] at hstores
    · obtain ⟨location, hknown, hheader, hindex, howned⟩ := h.filed.recorded header index n hn
      refine ⟨location, .inr (h.regular location hknown), hheader, hindex, ?_⟩
      rw [Option.isSome_or, h.saved_of_owned howned]
      exact Bool.or_true _
    · have hnumbered := h.filed.numbered
      rwa [← htotal] at hnumbered
    · intro hempty
      exact hstart.headers.trans (h.headers.1 hempty)
  refine ⟨s', hs', ?_, ⟨hfiled, fun location hin => hin.elim (htrees location) id, ?_, ?_⟩, ?_,
    hretrived.kept, fun hnone hgapless location block hsaved => ?_⟩
  · rw [hframe]
    rfl
  · rw [hframe]
    exact hfiles.headers
  · rw [hframe]
    exact hstart.usedBlocks.trans h.usedBlocks
  · rw [hframe]
    refine ⟨?_, hfits.headers⟩
    change CDiskBlock.segmentSize * calculateStoredBlockNumber s.headersCache ≤ 2 ^ 32
    rw [htotal]
    exact hfits.blocks
  · obtain ⟨read, hread, hsame⟩ := hmapped hgapless location block hsaved (hnone location)
    exact ⟨read.tree, hread, fun i hi => hsame.tree hi⟩

end Restart

end Dims.CSegmentFileStorage

namespace Dims.StorageHistory
open CSegmentFileStorage SegmentFile

section Reconstruction

variable {ctx : StorageContext}

/-- Every block that has been saved lies in the file under the number of its location, and a
number is that of one record and below the next one. -/
structure Intact (h : StorageHistory) : Prop where
  own : ∀ location block, h.saved location = some block →
    ∃ n, numberOf h.storage.headersCache location = some n ∧
      Stores CDiskBlock.segmentSize n.toNat block.segment h.storage.segments
  distinct : ∀ i k i' k' n, numberAt h.storage.headersCache i k = some n →
    numberAt h.storage.headersCache i' k' = some n → i = i' ∧ k = k'
  below : ∀ i k n, numberAt h.storage.headersCache i k = some n →
    n.toNat < h.storage.lastSegmentIndex

theorem InFiles.intact {Extra : CLocation → Prop} {h : StorageHistory} (hin : InFiles Extra h) :
    h.Intact := by
  refine ⟨fun location block hsaved => ?_, hin.atRest.filed.numbered.distinct,
    hin.atRest.filed.numbered.below⟩
  obtain ⟨-, -, n, hn, -, hstores⟩ := hin.atRest.filed.stored location block hsaved
  exact ⟨n, hn, hstores⟩

/-- What a restart owes: a flushed transaction is in a saved block, the location of a saved block
is mapped to its tree, which in the same process is the one in memory, and whatever is done
afterwards, no block is overwritten and no number is given twice. -/
structure Reconstructed (ctx : StorageContext) (sameProcess : Bool) (h : StorageHistory)
    (s' : CSegmentFileStorage) : Prop where
  stored : ∀ tx ∈ h.stored, (h.saved (CLocation.ofFullPosition tx.location)).isSome
  mapped : ∀ location block, h.saved location = some block →
    ∃ tree, s'.transactionLocationToBuddy location = some tree ∧
      if sameProcess then h.storage.transactionLocationToBuddy location = some tree
      else ∀ i < CSimpleBuddy.treeSize, tree i = block.tree i
  intact : ∀ calls h', GuardedRun.run (step ctx) (some { h with storage := s' }) calls = some h' →
    h'.storage.Fits → h'.Intact

/-- A restart after any run reconstructs the map of locations if the files have not outgrown
their places and, in a new process, the used records of every bucket are its first. -/
theorem restart_reconstructs {calls : List StorageCall} {h : StorageHistory}
    (hrun : GuardedRun.run (step ctx) (some init) calls = some h) (hfits : h.storage.Fits)
    {sameProcess : Bool} (hgapless : sameProcess = false → Gapless h.storage.headersCache) :
    ∃ s', h.storage.restart ctx sameProcess = some s' ∧ h.Reconstructed ctx sameProcess s' := by
  have hin := inFiles_init.run hrun hfits
  obtain ⟨s', hs', -, hrest, -, hkept, hcounted⟩ :=
    hin.atRest.retriveState ctx hfits (resumes hin.atRest sameProcess)
  refine ⟨s', hs', hin.stored, fun location block hsaved => ?_, fun calls' h' hrun' hfits' => ?_⟩
  · cases sameProcess with
    | true =>
      have hknown := (hin.atRest.filed.stored location block hsaved).1
      obtain ⟨tree, htree⟩ := Option.isSome_iff_exists.mp (hknown.resolve_right id)
      exact ⟨tree, hkept location tree htree, htree⟩
    | false => exact hcounted (fun _ => rfl) (hgapless rfl) location block hsaved
  · have hafter : InFiles Regular { h with storage := s' } := ⟨hrest, hin.stored⟩
    exact (hafter.run hrun' hfits').intact

end Reconstruction

end Dims.StorageHistory

namespace Dims.SkippedBlock
open ByteCodec Serialize StorageHistory CSegmentFileStorage

def context : StorageContext := ⟨⟨fun _ => 0, fun _ => 0⟩, fun _ => 0⟩

/-- A transaction that takes up a whole block. -/
def large : CTransaction := ⟨1, [], [⟨0, List.replicate 300000 0⟩], 0, 0⟩

def small (location : UInt64) : CTransaction := ⟨1, [], [], 0, location⟩

theorem length_encode {script : CScript} (h : script.length = 300000) :
    (CTransaction.diskCodec.encode ⟨1, [], [⟨0, script⟩], 0, 0⟩).length = 300031 := by
  simp [CTransaction.diskCodec, Codec.imap, Codec.prod, CTransaction.contentsCodec,
    CTransaction.contents, vector, Codec.list, byteVector, Codec.bytes, compactSize,
    writeCompactSize, CTxOut.codec, int32, int64, uint32, uint64, Codec.uint, h]

theorem assignPosition_of_length {tx : CTransaction}
    (h : (CTransaction.diskCodec.encode tx).length = 300031) :
    CSegmentFileStorage.init.assignPosition context tx =
      some (some (CSegmentFileStorage.init.allocInNewBuddy 0 0).1,
        (CSegmentFileStorage.init.allocInNewBuddy 0 0).2) := by
  have hlevel : CSimpleBuddy.getBuddyLevel (CTransaction.diskCodec.encode tx).length = some 0 := by
    rw [h]
    rfl
  unfold CSegmentFileStorage.assignPosition
  rw [hlevel]
  rfl

theorem step_of_length {tx : CTransaction}
    (h : (CTransaction.diskCodec.encode tx).length = 300031) :
    step context (some StorageHistory.init) (.assignPosition tx) =
      some ⟨(CSegmentFileStorage.init.allocInNewBuddy 0 0).2, fun _ => none, []⟩ := by
  change (CSegmentFileStorage.init.assignPosition context tx).map _ = _
  rw [assignPosition_of_length h]
  rfl

/-- The first block of the bucket is for a transaction that is never included. -/
def calls : List StorageCall :=
  [.assignPosition large, .assignPosition (small 0), .includeTransaction (small 4294970368) 0, .flush]

theorem unmapped_after_restart :
    ((CSegmentFileStorage.init.allocInNewBuddy 0 0).2.assignPosition context (small 0)).map Prod.fst =
        some (some (small 4294970368).location) ∧
      ¬ ∀ calls h, GuardedRun.run (step context) (some StorageHistory.init) calls = some h →
        ∃ s', h.storage.restart context false = some s' ∧ h.Reconstructed context false s' := by
  refine ⟨rfl, fun hall => ?_⟩
  have hfirst : step context (some StorageHistory.init) (.assignPosition large) =
      some ⟨(CSegmentFileStorage.init.allocInNewBuddy 0 0).2, fun _ => none, []⟩ :=
    step_of_length (length_encode List.length_replicate)
  obtain ⟨h, hrun, hsaved, hunmapped⟩ : ∃ h,
      GuardedRun.run (step context) (some StorageHistory.init) calls = some h ∧
      (h.saved (CLocation.ofBucket 0 1)).isSome = true ∧
      (h.storage.restart context false).map
        (fun s => s.transactionLocationToBuddy (CLocation.ofBucket 0 1)) = some none := by
    rw [calls, GuardedRun.run_cons, hfirst]
    exact ⟨_, rfl, rfl, rfl⟩
  obtain ⟨s', hs', hreconstructed⟩ := hall calls h hrun
  obtain ⟨block, hblock⟩ := Option.isSome_iff_exists.mp hsaved
  obtain ⟨tree, htree, -⟩ := hreconstructed.mapped _ block hblock
  rw [hs', Option.map_some, htree] at hunmapped
  cases hunmapped

/-- A run that leaves no gap. -/
theorem mapped_after_restart :
    ∃ h s', GuardedRun.run (step context) (some StorageHistory.init)
        [.assignPosition (small 0), .includeTransaction (small 3072) 0, .flush] = some h ∧
      h.stored = [small 3072] ∧ h.storage.restart context false = some s' ∧
      h.Reconstructed context false s' := by
  obtain ⟨h, hrun, hstored, hnumbers, hlength, hempty⟩ : ∃ h,
      GuardedRun.run (step context) (some StorageHistory.init)
        [.assignPosition (small 0), .includeTransaction (small 3072) 0, .flush] = some h ∧
      h.stored = [small 3072] ∧ h.storage.lastSegmentIndex = 1 ∧
      h.storage.headersCache.length = 1 ∧
      ∀ bucket < maxBucket, ∀ j < 7, 0 < j → numberIn h.storage.headersCache bucket j = none :=
    ⟨_, rfl, rfl, rfl, rfl, by decide⟩
  have hfits : h.storage.Fits := ⟨by rw [hnumbers]; decide, by rw [hlength]; decide⟩
  have hgapless : Gapless h.storage.headersCache := by
    intro bucket hbucket i j hlt hsome
    obtain ⟨n, hn⟩ := Option.isSome_iff_exists.mp hsome
    have hj := numberIn_lt hn
    rw [hlength] at hj
    rw [hempty bucket hbucket j hj (by omega)] at hn
    cases hn
  obtain ⟨s', hs', hreconstructed⟩ := restart_reconstructs hrun hfits fun _ => hgapless
  exact ⟨h, s', hrun, hstored, hs', hreconstructed⟩

end Dims.SkippedBlock
