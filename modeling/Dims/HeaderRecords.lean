import Dims.SegmentFileStorage
import Mathlib.Algebra.BigOperators.Group.List.Basic

/-!
# Which block is at which place

The records of the headers number the blocks. A record is used from the first time that
the block of its location is asked for, and keeps its number; each number is given once.
-/

namespace Dims.CSegmentFileStorage
open CSegmentHeader

/-- The number in a used record, by header and place in the header. -/
def numberAt (headersCache : List CSegmentHeader) (header : ℕ) (index : Fin recordsNumber) :
    Option UInt32 :=
  headersCache[header]?.bind fun h =>
    if h.givenRecordUsed index then some (h.records index).blockNumber else none

def numberOf (headersCache : List CSegmentHeader) (location : CLocation) : Option UInt32 :=
  (indexOf location).bind (numberAt headersCache (headerOf location))

def calculateStoredBlockNumber (headersCache : List CSegmentHeader) : ℕ :=
  (headersCache.map getAllUsedRecordsNumber).sum

/-- The flag says that there is a next header. -/
def Chained (headersCache : List CSegmentHeader) : Prop :=
  ∀ i h, headersCache[i]? = some h → (h.isNextHeader = true ↔ i + 1 < headersCache.length)

/-- A location in one of the buckets. -/
def Regular (location : CLocation) : Prop :=
  ∃ bucket position, bucket < maxBucket ∧ position < 2 ^ 32 ∧
    location = CLocation.ofBucket bucket position

section Places

theorem regular_ofBucket {bucket : ℕ} (hbucket : bucket < maxBucket) (position : ℕ) :
    Regular (CLocation.ofBucket bucket position) := by
  have hlt : bucket < 256 := hbucket.trans (by decide)
  refine ⟨bucket, position % 2 ^ 32, hbucket, Nat.mod_lt _ (by decide), ?_⟩
  have hparts := ofBucket_parts hlt position
  rw [getPosition_ofBucket hlt, getBucket_ofBucket hlt] at hparts
  exact hparts.symm

variable {bucket position : ℕ}

theorem bucket_of_ofBucket_eq {bucket' position' : ℕ} (hbucket : bucket < maxBucket)
    (hbucket' : bucket' < maxBucket)
    (h : CLocation.ofBucket bucket position = CLocation.ofBucket bucket' position') :
    bucket = bucket' := by
  rw [← getBucket_ofBucket (hbucket.trans (by decide)) position, h,
    getBucket_ofBucket (hbucket'.trans (by decide))]

theorem position_of_ofBucket_eq {position' : ℕ} (hbucket : bucket < maxBucket)
    (hposition : position < 2 ^ 32) (hposition' : position' < 2 ^ 32)
    (h : CLocation.ofBucket bucket position = CLocation.ofBucket bucket position') :
    position = position' := by
  have hlt : bucket < 256 := hbucket.trans (by decide)
  rw [← Nat.mod_eq_of_lt hposition, ← getPosition_ofBucket hlt position, h,
    getPosition_ofBucket hlt, Nat.mod_eq_of_lt hposition']

theorem headerOf_ofBucket (hbucket : bucket < maxBucket) (hposition : position < 2 ^ 32) :
    headerOf (CLocation.ofBucket bucket position) = position / getNumberOfFullBucketSets := by
  rw [headerOf, getPosition_ofBucket (hbucket.trans (by decide)), Nat.mod_eq_of_lt hposition]

theorem recordIndex_isSome {setId : ℕ} (hbucket : bucket < maxBucket)
    (hset : setId < getNumberOfFullBucketSets) :
    ∃ hlt, recordIndex bucket setId = some ⟨setId * maxBucket + bucket, hlt⟩ := by
  have hnumber : getNumberOfFullBucketSets = 7 := by decide
  have hrecords : recordsNumber = 123 := by decide
  have hmax : maxBucket = 16 := rfl
  have hlt : setId * maxBucket + bucket < recordsNumber := by
    rw [hmax] at hbucket ⊢
    omega
  exact ⟨hlt, dif_pos ⟨hset, hlt⟩⟩

theorem indexOf_ofBucket (hbucket : bucket < maxBucket) (hposition : position < 2 ^ 32) :
    indexOf (CLocation.ofBucket bucket position) =
      recordIndex bucket (position % getNumberOfFullBucketSets) := by
  have hlt : bucket < 256 := hbucket.trans (by decide)
  rw [indexOf, getPosition_ofBucket hlt, getBucket_ofBucket hlt, Nat.mod_eq_of_lt hposition]

theorem Regular.eq_of_place {location location' : CLocation} (h : Regular location)
    (h' : Regular location') (hheader : headerOf location = headerOf location')
    (hindex : indexOf location = indexOf location') : location = location' := by
  obtain ⟨bucket, position, hbucket, hposition, rfl⟩ := h
  obtain ⟨bucket', position', hbucket', hposition', rfl⟩ := h'
  have hsets : 0 < getNumberOfFullBucketSets := by decide
  obtain ⟨hlt, hplace⟩ := recordIndex_isSome hbucket (Nat.mod_lt position hsets)
  obtain ⟨hlt', hplace'⟩ := recordIndex_isSome hbucket' (Nat.mod_lt position' hsets)
  rw [headerOf_ofBucket hbucket hposition, headerOf_ofBucket hbucket' hposition'] at hheader
  rw [indexOf_ofBucket hbucket hposition, indexOf_ofBucket hbucket' hposition', hplace, hplace',
    Option.some_inj, Fin.mk.injEq] at hindex
  have hmax : maxBucket = 16 := rfl
  rw [hmax] at hbucket hbucket' hindex
  have hmod : position % getNumberOfFullBucketSets = position' % getNumberOfFullBucketSets := by
    omega
  have hsame : bucket = bucket' := by omega
  have hdiv := Nat.div_add_mod position getNumberOfFullBucketSets
  have hdiv' := Nat.div_add_mod position' getNumberOfFullBucketSets
  rw [hheader, hmod, hdiv'] at hdiv
  rw [hsame, hdiv]

end Places

section NewHeaders

variable {headersCache : List CSegmentHeader}

theorem length_createNewHeader :
    (createNewHeader headersCache).length = headersCache.length + 1 := by
  simp [createNewHeader]

theorem getElem?_createNewHeader (i : ℕ) :
    (createNewHeader headersCache)[i]? =
      if i < headersCache.length then
        headersCache[i]?.map fun h => if headersCache.length - 1 = i then h.setNextHeaderFlag else h
      else if i = headersCache.length then some .new else none := by
  have hlength : (headersCache.modify (headersCache.length - 1) setNextHeaderFlag).length =
      headersCache.length := List.length_modify ..
  unfold createNewHeader
  split
  case isTrue hi =>
    rw [List.getElem?_append_left (by rwa [hlength]), List.getElem?_modify]
    rfl
  case isFalse hi =>
    rw [List.getElem?_append_right (by rw [hlength]; omega), hlength]
    split
    case isTrue heq => simp [heq]
    case isFalse hne => exact List.getElem?_eq_none (by simp; omega)

@[simp] theorem numberAt_createNewHeader (i : ℕ) (index : Fin recordsNumber) :
    numberAt (createNewHeader headersCache) i index = numberAt headersCache i index := by
  unfold numberAt
  rw [getElem?_createNewHeader]
  split
  case isTrue hi =>
    rw [List.getElem?_eq_getElem hi]
    simp only [Option.map_some, Option.bind_some]
    split <;> rfl
  case isFalse hi =>
    rw [List.getElem?_eq_none (by omega)]
    split <;> rfl

theorem chained_createNewHeader (h : Chained headersCache) :
    Chained (createNewHeader headersCache) := by
  intro i header hheader
  rw [length_createNewHeader]
  rw [getElem?_createNewHeader] at hheader
  split at hheader
  case isTrue hi =>
    obtain ⟨old, hold, rfl⟩ := Option.map_eq_some_iff.mp hheader
    split
    · exact iff_of_true rfl (by omega)
    · rw [h i old hold]
      omega
  case isFalse hi =>
    split at hheader
    case isTrue heq =>
      cases hheader
      exact iff_of_false (by decide) (by omega)
    case isFalse => cases hheader

theorem map_modify {α β : Type*} {f : α → α} {g : α → β} (h : ∀ a, g (f a) = g a) (l : List α)
    (i : ℕ) : (l.modify i f).map g = l.map g := by
  induction l generalizing i with
  | nil => cases i <;> rfl
  | cons a l ih =>
    cases i with
    | zero => exact congrArg (· :: l.map g) (h a)
    | succ i => exact congrArg (g a :: ·) (ih i)

@[simp] theorem calculateStoredBlockNumber_createNewHeader :
    calculateStoredBlockNumber (createNewHeader headersCache) =
      calculateStoredBlockNumber headersCache := by
  have hnew : getAllUsedRecordsNumber .new = 0 := by decide
  have hflag : ∀ h : CSegmentHeader, h.setNextHeaderFlag.getAllUsedRecordsNumber =
      h.getAllUsedRecordsNumber := fun _ => rfl
  unfold calculateStoredBlockNumber createNewHeader
  rw [List.map_append, map_modify hflag, List.sum_append]
  simp [hnew]

theorem createHeaders_spec (count : ℕ) (headersCache : List CSegmentHeader) :
    (createHeaders count headersCache).length = headersCache.length + count ∧
      (∀ i index, numberAt (createHeaders count headersCache) i index =
        numberAt headersCache i index) ∧
      calculateStoredBlockNumber (createHeaders count headersCache) =
        calculateStoredBlockNumber headersCache ∧
      (Chained headersCache → Chained (createHeaders count headersCache)) := by
  induction count generalizing headersCache with
  | zero => exact ⟨rfl, fun _ _ => rfl, rfl, id⟩
  | succ count ih =>
    obtain ⟨hlength, hnumber, hstored, hchained⟩ := ih (createNewHeader headersCache)
    refine ⟨?_, fun i index => ?_, ?_, fun h => hchained (chained_createNewHeader h)⟩
    · rw [createHeaders, hlength, length_createNewHeader]
      omega
    · rw [createHeaders, hnumber, numberAt_createNewHeader]
    · rw [createHeaders, hstored, calculateStoredBlockNumber_createNewHeader]

end NewHeaders

section NewRecords

theorem givenRecordUsed_setRecord (h : CSegmentHeader) (index index' : Fin recordsNumber)
    (blockNumber : UInt32) :
    (h.setRecord index ⟨blockNumber, 0⟩).givenRecordUsed index' =
      (index' = index || h.givenRecordUsed index') := by
  unfold givenRecordUsed setRecord
  by_cases hindex : index' = index
  · simp [hindex]
  · simp [hindex]

theorem numberAt_set {headersCache : List CSegmentHeader} {i : ℕ} {h : CSegmentHeader}
    (hh : headersCache[i]? = some h) (index : Fin recordsNumber) (blockNumber : UInt32) (i' : ℕ)
    (index' : Fin recordsNumber) :
    numberAt (headersCache.set i (h.setRecord index ⟨blockNumber, 0⟩)) i' index' =
      if i' = i ∧ index' = index then some blockNumber else numberAt headersCache i' index' := by
  unfold numberAt
  by_cases hi : i' = i
  · subst hi
    obtain ⟨hlt, -⟩ := List.getElem?_eq_some_iff.mp hh
    rw [List.getElem?_set_self hlt, hh]
    simp only [Option.bind_some, givenRecordUsed_setRecord]
    by_cases hindex : index' = index
    · simp [hindex, setRecord]
    · simp [hindex, setRecord]
  · rw [List.getElem?_set_ne (Ne.symm hi), if_neg fun hand => hi hand.1]

theorem countP_succ {α : Type*} [DecidableEq α] {p p' : α → Bool} {a : α} (hp : p a = false) (hp' : p' a = true)
    (hsame : ∀ b, b ≠ a → p' b = p b) {l : List α} (hnodup : l.Nodup) :
    l.countP p' = l.countP p + if a ∈ l then 1 else 0 := by
  induction l with
  | nil => rfl
  | cons b l ih =>
    obtain ⟨hnotin, hrest⟩ := List.nodup_cons.mp hnodup
    rw [List.countP_cons, List.countP_cons, ih hrest]
    by_cases hb : b = a
    · subst hb
      simp only [hp, hp', hnotin, if_true, if_false, List.mem_cons_self, Bool.false_eq_true]
    · rw [hsame b hb]
      simp only [List.mem_cons, Ne.symm hb, false_or]
      omega

theorem getAllUsedRecordsNumber_setRecord {h : CSegmentHeader} {index : Fin recordsNumber}
    (hfree : h.givenRecordUsed index = false) (blockNumber : UInt32) :
    (h.setRecord index ⟨blockNumber, 0⟩).getAllUsedRecordsNumber = h.getAllUsedRecordsNumber + 1 := by
  have hused : (h.setRecord index ⟨blockNumber, 0⟩).givenRecordUsed index = true := by
    simp [givenRecordUsed_setRecord]
  have hcount := countP_succ hfree hused (fun b hb => by simp [givenRecordUsed_setRecord, hb])
    (List.nodup_finRange recordsNumber)
  rwa [if_pos (List.mem_finRange index)] at hcount

theorem sum_map_set {α : Type*} {g : α → ℕ} {l : List α} {i : ℕ} {a b : α} (ha : l[i]? = some a)
    (hb : g b = g a + 1) : ((l.set i b).map g).sum = (l.map g).sum + 1 := by
  induction l generalizing i with
  | nil => cases ha
  | cons c l ih =>
    cases i with
    | zero =>
      cases ha
      simp only [List.set_cons_zero, List.map_cons, List.sum_cons, hb]
      omega
    | succ i =>
      simp only [List.set_cons_succ, List.map_cons, List.sum_cons, ih ha]
      omega

end NewRecords

section Assign

/-- What `assignBlockNumberInHeaderCache` does: the record of the location has the number
that is returned, which it had before or which is the next one. -/
structure Assigned (s : CSegmentFileStorage) (location : CLocation) (blockNumber : UInt32)
    (s' : CSegmentFileStorage) (index : Fin recordsNumber) : Prop where
  place : indexOf location = some index
  frame : s' = { s with
    headersCache := s'.headersCache, lastSegmentIndex := s'.lastSegmentIndex }
  length : s'.headersCache.length = max s.headersCache.length (headerOf location + 1)
  chained : Chained s.headersCache → Chained s'.headersCache
  numbers : ∀ i k, numberAt s'.headersCache i k =
    if i = headerOf location ∧ k = index then some blockNumber else numberAt s.headersCache i k
  number : numberAt s.headersCache (headerOf location) index = some blockNumber ∧
      s'.lastSegmentIndex = s.lastSegmentIndex ∧
      calculateStoredBlockNumber s'.headersCache = calculateStoredBlockNumber s.headersCache ∨
    numberAt s.headersCache (headerOf location) index = none ∧
      blockNumber = UInt32.ofNat s.lastSegmentIndex ∧
      s'.lastSegmentIndex = s.lastSegmentIndex + 1 ∧
      calculateStoredBlockNumber s'.headersCache = calculateStoredBlockNumber s.headersCache + 1

theorem assignBlockNumber_spec {s s' : CSegmentFileStorage} {location : CLocation}
    {blockNumber : UInt32}
    (h : s.assignBlockNumberInHeaderCache location = some (blockNumber, s')) :
    ∃ index, Assigned s location blockNumber s' index := by
  obtain ⟨index, hindex, h⟩ := Option.bind_eq_some_iff.mp h
  obtain ⟨header, hheader, h⟩ := Option.map_eq_some_iff.mp h
  obtain ⟨hlength, hnumber, hstored, hchained⟩ :=
    createHeaders_spec (headerOf location + 1 - s.headersCache.length) s.headersCache
  change (createHeaders (headerOf location + 1 - s.headersCache.length) s.headersCache)[
    headerOf location]? = some header at hheader
  have hnumberAt : numberAt s.headersCache (headerOf location) index =
      if header.givenRecordUsed index then some (header.records index).blockNumber else none := by
    rw [← hnumber, numberAt, hheader]
    rfl
  refine ⟨index, ?_⟩
  split at h
  case isTrue hused =>
    cases h
    rw [if_pos hused] at hnumberAt
    refine ⟨hindex, rfl, ?_, hchained, fun i k => ?_, .inl ⟨hnumberAt, rfl, hstored⟩⟩
    · change (createHeaders _ s.headersCache).length = _
      rw [hlength]
      omega
    · change numberAt (createHeaders _ s.headersCache) i k = _
      rw [hnumber]
      split
      case isTrue hplace =>
        rw [hplace.1, hplace.2]
        exact hnumberAt
      case isFalse => rfl
  case isFalse hfree =>
    cases h
    rw [if_neg hfree] at hnumberAt
    refine ⟨hindex, rfl, ?_, fun hc => ?_, fun i k => ?_, .inr ⟨hnumberAt, rfl, rfl, ?_⟩⟩
    · change (List.set _ _ _).length = _
      rw [List.length_set, hlength]
      omega
    · intro i h hi
      change (List.set _ _ _)[i]? = some h at hi
      change _ ↔ i + 1 < (List.set _ _ _).length
      rw [List.length_set]
      by_cases hplace : i = headerOf location
      · subst hplace
        obtain ⟨hlt, -⟩ := List.getElem?_eq_some_iff.mp hheader
        rw [List.getElem?_set_self hlt] at hi
        cases hi
        exact hchained hc _ header hheader
      · rw [List.getElem?_set_ne (Ne.symm hplace)] at hi
        exact hchained hc i h hi
    · exact (numberAt_set hheader index _ i k).trans (by rw [hnumber])
    · exact (sum_map_set hheader
        (getAllUsedRecordsNumber_setRecord (Bool.eq_false_iff.mpr hfree) _)).trans
          (congrArg (· + 1) hstored)

theorem Assigned.numberOf_eq {s s' : CSegmentFileStorage} {location : CLocation}
    {blockNumber : UInt32} {index : Fin recordsNumber}
    (hassigned : Assigned s location blockNumber s' index) {location' : CLocation} {n : UInt32}
    (hn : numberOf s.headersCache location' = some n) :
    numberOf s'.headersCache location' = some n := by
  obtain ⟨index', hindex', hnumber⟩ := Option.bind_eq_some_iff.mp hn
  rw [numberOf, hindex', Option.bind_some, hassigned.numbers]
  split
  case isTrue hplace =>
    rw [hplace.1, hplace.2] at hnumber
    obtain ⟨hold, -⟩ | ⟨hnone, -⟩ := hassigned.number
    · rw [← hold, hnumber]
    · rw [hnone] at hnumber
      cases hnumber
  case isFalse => exact hnumber

/-- Each number below the next one is in one record. -/
structure Numbered (headersCache : List CSegmentHeader) (lastSegmentIndex : ℕ) : Prop where
  total : calculateStoredBlockNumber headersCache = lastSegmentIndex
  below : ∀ i k n, numberAt headersCache i k = some n → n.toNat < lastSegmentIndex
  distinct : ∀ i k i' k' n, numberAt headersCache i k = some n →
    numberAt headersCache i' k' = some n → i = i' ∧ k = k'

theorem Numbered.assign {s s' : CSegmentFileStorage} {location : CLocation} {blockNumber : UInt32}
    {index : Fin recordsNumber} (h : Numbered s.headersCache s.lastSegmentIndex)
    (hassigned : Assigned s location blockNumber s' index) (hlast : s.lastSegmentIndex < 2 ^ 32) :
    Numbered s'.headersCache s'.lastSegmentIndex := by
  obtain ⟨hold, hlast', htotal⟩ | ⟨hnone, rfl, hlast', htotal⟩ := hassigned.number
  · have hsame : ∀ i k, numberAt s'.headersCache i k = numberAt s.headersCache i k := by
      intro i k
      rw [hassigned.numbers]
      split
      case isTrue hplace => rw [hplace.1, hplace.2, hold]
      case isFalse => rfl
    refine ⟨htotal.trans (h.total.trans hlast'.symm), fun i k n hn => ?_,
      fun i k i' k' n hn hn' => ?_⟩
    · rw [hlast']
      exact h.below i k n (by rwa [hsame] at hn)
    · exact h.distinct i k i' k' n (by rwa [hsame] at hn) (by rwa [hsame] at hn')
  · have hnew : (UInt32.ofNat s.lastSegmentIndex).toNat = s.lastSegmentIndex :=
      UInt32.toNat_ofNat_of_lt' hlast
    have hfresh : ∀ i k, numberAt s.headersCache i k ≠ some (UInt32.ofNat s.lastSegmentIndex) := by
      intro i k hn
      have hlt := h.below i k _ hn
      omega
    refine ⟨by rw [htotal, hlast', h.total], fun i k n hn => ?_, fun i k i' k' n hn hn' => ?_⟩
    · rw [hlast']
      rw [hassigned.numbers] at hn
      split at hn
      case isTrue =>
        cases hn
        omega
      case isFalse =>
        have hlt := h.below i k n hn
        omega
    · rw [hassigned.numbers] at hn hn'
      split at hn
      case isTrue hplace =>
        cases hn
        split at hn'
        case isTrue hplace' => exact ⟨hplace.1.trans hplace'.1.symm, hplace.2.trans hplace'.2.symm⟩
        case isFalse => exact absurd hn' (hfresh i' k')
      case isFalse =>
        split at hn'
        case isTrue =>
          cases hn'
          exact absurd hn (hfresh i k)
        case isFalse => exact h.distinct i k i' k' n hn hn'

end Assign

end Dims.CSegmentFileStorage
