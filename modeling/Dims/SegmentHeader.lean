import Dims.SimpleBuddy
import Mathlib.Data.UInt
import Mathlib.Data.Fintype.Basic
import Mathlib.Data.List.FinRange

/-!
# Positions and headers of the segment storage

A full position packs the place of a block in its bucket, the index and the level of an
area of the block, and the bucket. The headers say which block of the segment file is
the one at a place of a bucket.
-/

namespace Dims

/-- `MAX_BUCKET` -/
def maxBucket : ℕ := 16

structure CLocation where
  location : UInt64
  deriving Repr

namespace CLocation

instance : LinearOrder CLocation :=
  LinearOrder.lift' (fun l => l.location.toNat) fun a b h => by
    cases a
    cases b
    exact congrArg _ (UInt64.toNat_inj.mp h)

/-- The location of the block of a full position. -/
def ofFullPosition (fullPosition : UInt64) : CLocation := ⟨fullPosition &&& 0xffffffff000000ff⟩

def ofBucket (bucket position : ℕ) : CLocation :=
  ⟨UInt64.ofNat position <<< 32 ||| UInt64.ofNat bucket⟩

theorem toNat_ofBucket {bucket : ℕ} (hbucket : bucket < 256) (position : ℕ) :
    (ofBucket bucket position).location.toNat = position % 2 ^ 32 * 2 ^ 32 + bucket := by
  unfold ofBucket
  have hshift : (32 : UInt64).toNat % 64 = 32 := by decide
  rw [UInt64.toNat_or, UInt64.toNat_shiftLeft, UInt64.toNat_ofNat', UInt64.toNat_ofNat', hshift,
    Nat.shiftLeft_eq, Nat.mod_eq_of_lt (show bucket < 2 ^ 64 by omega)]
  have hhigh : position % 2 ^ 64 * 2 ^ 32 % 2 ^ 64 = position % 2 ^ 32 * 2 ^ 32 := by omega
  rw [hhigh, ← Nat.shiftLeft_eq, ← Nat.shiftLeft_add_eq_or_of_lt (by omega)]

end CLocation

namespace CSegmentFileStorage

def getPosition (fullPosition : UInt64) : ℕ := (fullPosition >>> 32).toNat

def getLevel (fullPosition : UInt64) : ℕ := (fullPosition >>> 8 &&& 0xff).toNat

def getIndex (fullPosition : UInt64) : ℕ := (fullPosition >>> 16 &&& 0xffff).toNat

def getBucket (fullPosition : UInt64) : ℕ := (fullPosition &&& 0xff).toNat

def createFullPosition (blockPosition index level bucket : ℕ) : UInt64 :=
  ((UInt64.ofNat (blockPosition % 2 ^ 32) <<< 16 ||| UInt64.ofNat index) <<< 8 |||
    UInt64.ofNat level) <<< 8 ||| UInt64.ofNat bucket

theorem getPosition_eq (l : UInt64) : getPosition l = l.toNat / 2 ^ 32 := by
  unfold getPosition
  rw [UInt64.toNat_shiftRight, Nat.shiftRight_eq_div_pow]
  rfl

theorem getBucket_eq (l : UInt64) : getBucket l = l.toNat % 256 := by
  unfold getBucket
  rw [UInt64.toNat_and]
  exact Nat.and_two_pow_sub_one_eq_mod _ 8

theorem getPosition_ofBucket {bucket : ℕ} (hbucket : bucket < 256) (position : ℕ) :
    getPosition (CLocation.ofBucket bucket position).location = position % 2 ^ 32 := by
  rw [getPosition_eq, CLocation.toNat_ofBucket hbucket]
  omega

theorem getBucket_ofBucket {bucket : ℕ} (hbucket : bucket < 256) (position : ℕ) :
    getBucket (CLocation.ofBucket bucket position).location = bucket := by
  rw [getBucket_eq, CLocation.toNat_ofBucket hbucket]
  omega

theorem toNat_createFullPosition (blockPosition : ℕ) {index level bucket : ℕ}
    (hindex : index < 2 ^ 16) (hlevel : level < 2 ^ 8) (hbucket : bucket < 2 ^ 8) :
    (createFullPosition blockPosition index level bucket).toNat =
      ((blockPosition % 2 ^ 32 * 2 ^ 16 + index) * 2 ^ 8 + level) * 2 ^ 8 + bucket := by
  have hshift : (16 : UInt64).toNat % 64 = 16 ∧ (8 : UInt64).toNat % 64 = 8 := by decide
  have hor : ∀ high low bits : ℕ, low < 2 ^ bits → high * 2 ^ bits ||| low = high * 2 ^ bits + low := by
    intro high low bits hlow
    rw [← Nat.shiftLeft_eq, Nat.shiftLeft_add_eq_or_of_lt hlow]
  have hposition := Nat.mod_lt blockPosition (show 0 < 2 ^ 32 by decide)
  unfold createFullPosition
  generalize blockPosition % 2 ^ 32 = position at hposition ⊢
  simp only [UInt64.toNat_or, UInt64.toNat_shiftLeft, UInt64.toNat_ofNat', hshift, Nat.shiftLeft_eq]
  rw [Nat.mod_eq_of_lt (show position < 2 ^ 64 by omega),
    Nat.mod_eq_of_lt (show index < 2 ^ 64 by omega), Nat.mod_eq_of_lt (show level < 2 ^ 64 by omega),
    Nat.mod_eq_of_lt (show bucket < 2 ^ 64 by omega),
    Nat.mod_eq_of_lt (show position * 2 ^ 16 < 2 ^ 64 by omega), hor _ _ _ hindex,
    Nat.mod_eq_of_lt (show (position * 2 ^ 16 + index) * 2 ^ 8 < 2 ^ 64 by omega), hor _ _ _ hlevel,
    Nat.mod_eq_of_lt (show ((position * 2 ^ 16 + index) * 2 ^ 8 + level) * 2 ^ 8 < 2 ^ 64 by omega),
    hor _ _ _ hbucket]

theorem toNat_ofFullPosition (fullPosition : UInt64) :
    (CLocation.ofFullPosition fullPosition).location.toNat =
      fullPosition.toNat / 2 ^ 32 * 2 ^ 32 + fullPosition.toNat % 2 ^ 8 := by
  have hmask : (0xffffffff000000ff : UInt64).toNat = (2 ^ 32 - 1) <<< 32 ||| (2 ^ 8 - 1) := by decide
  have hhigh : fullPosition.toNat &&& (2 ^ 32 - 1) <<< 32 = fullPosition.toNat / 2 ^ 32 * 2 ^ 32 := by
    rw [← Nat.shiftLeft_eq]
    apply Nat.eq_of_testBit_eq
    intro i
    have hlarge : 64 ≤ i → fullPosition.toNat.testBit i = false := fun hi =>
      Nat.testBit_lt_two_pow (fullPosition.toNat_lt.trans_le (Nat.pow_le_pow_right (by omega) hi))
    rw [Nat.testBit_and, Nat.testBit_shiftLeft, Nat.testBit_shiftLeft, Nat.testBit_two_pow_sub_one,
      Nat.testBit_div_two_pow]
    by_cases hlow : 32 ≤ i
    · rw [Nat.sub_add_cancel hlow]
      by_cases hi : i < 64
      · simp [hlow, show i - 32 < 32 by omega]
      · simp [hlarge (by omega)]
    · simp [hlow]
  unfold CLocation.ofFullPosition
  rw [UInt64.toNat_and, hmask, Nat.and_or_distrib_left, Nat.and_two_pow_sub_one_eq_mod, hhigh,
    ← Nat.shiftLeft_eq, ← Nat.shiftLeft_add_eq_or_of_lt (by omega)]

theorem ofFullPosition_createFullPosition (blockPosition : ℕ) {index level bucket : ℕ}
    (hindex : index < 2 ^ 16) (hlevel : level < 2 ^ 8) (hbucket : bucket < 2 ^ 8) :
    CLocation.ofFullPosition (createFullPosition blockPosition index level bucket) =
      CLocation.ofBucket bucket blockPosition := by
  have hleft := toNat_ofFullPosition (createFullPosition blockPosition index level bucket)
  have hright := CLocation.toNat_ofBucket (show bucket < 256 by omega) blockPosition
  rw [toNat_createFullPosition blockPosition hindex hlevel hbucket] at hleft
  refine congrArg CLocation.mk (UInt64.toNat_inj.mp ?_)
  rw [CLocation.ofFullPosition] at hleft
  rw [CLocation.ofBucket] at hright
  rw [hleft, hright]
  omega

theorem ofBucket_parts {bucket : ℕ} (hbucket : bucket < 256) (position : ℕ) :
    CLocation.ofBucket (getBucket (CLocation.ofBucket bucket position).location)
      (getPosition (CLocation.ofBucket bucket position).location) =
        CLocation.ofBucket bucket position := by
  rw [getPosition_ofBucket hbucket, getBucket_ofBucket hbucket]
  have hleft := CLocation.toNat_ofBucket hbucket (position % 2 ^ 32)
  have hright := CLocation.toNat_ofBucket hbucket position
  refine congrArg CLocation.mk (UInt64.toNat_inj.mp ?_)
  rw [CLocation.ofBucket] at hleft hright
  rw [hleft, hright, Nat.mod_mod]

end CSegmentFileStorage

/-- How many records a header has in the place left in a kilobyte. -/
def recordsNumber : ℕ := (2 ^ 10 - 4 * 2 - 32) / 8

structure CRecord where
  blockNumber : UInt32
  isEmptySpace : UInt8
  deriving DecidableEq, Repr

namespace CRecord

/-- `CRecord()` -/
def new : CRecord := ⟨0, 1⟩

/-- The record in memory, its padding included. -/
def segment (r : CRecord) (i : ℕ) : UInt8 :=
  if i < 4 then UInt8.ofNat (r.blockNumber.toNat / 256 ^ i) else if i = 4 then r.isEmptySpace else 0

def ofSegment (segment : ℕ → UInt8) : CRecord where
  blockNumber := UInt32.ofNat ((segment 0).toNat + (segment 1).toNat * 256 +
    (segment 2).toNat * 256 ^ 2 + (segment 3).toNat * 256 ^ 3)
  isEmptySpace := segment 4

theorem ofSegment_segment (r : CRecord) : ofSegment r.segment = r := by
  obtain ⟨blockNumber, isEmptySpace⟩ := r
  refine congrArg₂ CRecord.mk (UInt32.toNat_inj.mp ?_) rfl
  have hlt := blockNumber.toNat_lt
  simp only [segment, UInt32.toNat_ofNat', pow_zero, pow_one]
  norm_num
  omega

end CRecord

structure CSegmentHeader where
  nextHeader : UInt8
  records : Fin recordsNumber → CRecord

namespace CSegmentHeader

/-- `CSegmentHeader()` -/
def new : CSegmentHeader := ⟨0, fun _ => .new⟩

def isNextHeader (h : CSegmentHeader) : Bool := h.nextHeader ≠ 0

def setNextHeaderFlag (h : CSegmentHeader) : CSegmentHeader := { h with nextHeader := 1 }

def getNumberOfFullBucketSets : ℕ := recordsNumber / maxBucket

def givenRecordUsed (h : CSegmentHeader) (index : Fin recordsNumber) : Bool :=
  (h.records index).isEmptySpace = 0

def getAllUsedRecordsNumber (h : CSegmentHeader) : ℕ :=
  (List.finRange recordsNumber).countP h.givenRecordUsed

/-- Where `getRecord` finds a record; none where it leaves the array. -/
def recordIndex (bucket index : ℕ) : Option (Fin recordsNumber) :=
  if h : index < getNumberOfFullBucketSets ∧ index * maxBucket + bucket < recordsNumber then
    some ⟨index * maxBucket + bucket, h.2⟩
  else none

def setRecord (h : CSegmentHeader) (index : Fin recordsNumber) (record : CRecord) : CSegmentHeader :=
  { h with records := Function.update h.records index record }

/-- The serialized header: the flag, the records and a hash that is never set. -/
def segment (h : CSegmentHeader) (i : ℕ) : UInt8 :=
  if i = 0 then h.nextHeader
  else if hrecord : (i - 1) / 8 < recordsNumber then (h.records ⟨_, hrecord⟩).segment ((i - 1) % 8)
  else 0

def segmentSize : ℕ := 1 + recordsNumber * 8 + 32

def ofSegment (segment : ℕ → UInt8) : CSegmentHeader where
  nextHeader := segment 0
  records index := .ofSegment fun i => segment (1 + index * 8 + i)

theorem ofSegment_eq {read : ℕ → UInt8} {h : CSegmentHeader}
    (hread : ∀ i < segmentSize, read i = h.segment i) : ofSegment read = h := by
  obtain ⟨nextHeader, records⟩ := h
  refine congrArg₂ CSegmentHeader.mk (hread 0 (by decide)) ?_
  funext index
  have hrecord : ∀ i < 5, read (1 + index * 8 + i) = (records index).segment i := by
    intro i hi
    have hindex := index.isLt
    have hsize : segmentSize = 1 + recordsNumber * 8 + 32 := rfl
    rw [hread _ (by omega), segment, if_neg (by omega)]
    have hdiv : (1 + index * 8 + i - 1) / 8 = (index : ℕ) := by omega
    have hmod : (1 + index * 8 + i - 1) % 8 = i := by omega
    simp only [hdiv, hmod, index.isLt, dif_pos, Fin.eta]
  rw [← CRecord.ofSegment_segment (records index)]
  unfold CRecord.ofSegment
  simp only [hrecord 0 (by decide), hrecord 1 (by decide), hrecord 2 (by decide),
    hrecord 3 (by decide), hrecord 4 (by decide)]

end CSegmentHeader

end Dims
