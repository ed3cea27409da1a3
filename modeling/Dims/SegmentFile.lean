import Mathlib.Algebra.Group.Nat.Defs
import Mathlib.Order.Lattice

/-!
# Files of equal segments

A file that is read and written in segments of one size. The place of a segment is
computed in 32 bits, so segments of large indexes come to lie over those of small ones;
as long as their places are not reduced, they do not touch each other.
-/

namespace Dims

structure SegmentFile where
  bytes : ℕ → UInt8
  length : ℕ

namespace SegmentFile

def empty : SegmentFile := ⟨fun _ => 0, 0⟩

def offset (size index : ℕ) : ℕ := size * index % 2 ^ 32

def save (size index : ℕ) (segment : ℕ → UInt8) (f : SegmentFile) : SegmentFile where
  bytes i :=
    if offset size index ≤ i ∧ i < offset size index + size then segment (i - offset size index)
    else f.bytes i
  length := max f.length (offset size index + size)

/-- There is nothing to be read beyond the end. -/
def load (size index : ℕ) (f : SegmentFile) : Option (ℕ → UInt8) :=
  if offset size index + size ≤ f.length then some fun i => f.bytes (offset size index + i) else none

def Holds (size index : ℕ) (segment : ℕ → UInt8) (f : SegmentFile) : Prop :=
  ∃ read, load size index f = some read ∧ ∀ i < size, read i = segment i

/-- The place is not reduced. -/
def InRange (size index : ℕ) : Prop := size * index + size ≤ 2 ^ 32

theorem offset_of_inRange {size index : ℕ} (hsize : 0 < size) (h : InRange size index) :
    offset size index = size * index :=
  Nat.mod_eq_of_lt (by unfold InRange at h; omega)

theorem inRange_of_lt {size index count : ℕ} (h : size * count ≤ 2 ^ 32) (hlt : index < count) :
    InRange size index :=
  le_trans (Nat.mul_le_mul_left size hlt) h

theorem holds_save (size index : ℕ) (segment : ℕ → UInt8) (f : SegmentFile) :
    Holds size index segment (save size index segment f) := by
  refine ⟨_, if_pos (le_max_right _ _), fun i hi => ?_⟩
  change (if _ then _ else _) = _
  rw [if_pos ⟨Nat.le_add_right _ _, Nat.add_lt_add_left hi _⟩, Nat.add_sub_cancel_left]

theorem Holds.save_of_ne {size index index' : ℕ} {segment segment' : ℕ → UInt8} {f : SegmentFile}
    (h : Holds size index segment f) (hrange : InRange size index) (hrange' : InRange size index')
    (hne : index ≠ index') : Holds size index segment (save size index' segment' f) := by
  obtain ⟨read, hload, hread⟩ := h
  unfold load at hload
  split at hload
  case isFalse => cases hload
  case isTrue hlength =>
    cases hload
    refine ⟨_, if_pos (hlength.trans (le_max_left _ _)), fun i hi => ?_⟩
    have hsize : 0 < size := Nat.zero_lt_of_lt hi
    rw [← hread i hi]
    refine if_neg fun hin => ?_
    rw [offset_of_inRange hsize hrange, offset_of_inRange hsize hrange'] at hin
    obtain hlt | hlt := Nat.lt_or_gt_of_ne hne
    · have hstep : size * index + size ≤ size * index' := Nat.mul_le_mul_left size hlt
      omega
    · have hstep : size * index' + size ≤ size * index := Nat.mul_le_mul_left size hlt
      omega

def Stores (size index : ℕ) (segment : ℕ → UInt8) (file : Option SegmentFile) : Prop :=
  ∃ f, file = some f ∧ Holds size index segment f

/-- Writing makes the file if there is none. -/
def saveIn (size index : ℕ) (segment : ℕ → UInt8) (file : Option SegmentFile) : Option SegmentFile :=
  some (save size index segment (file.getD empty))

theorem stores_saveIn (size index : ℕ) (segment : ℕ → UInt8) (file : Option SegmentFile) :
    Stores size index segment (saveIn size index segment file) :=
  ⟨_, rfl, holds_save ..⟩

theorem Stores.saveIn_of_ne {size index index' : ℕ} {segment segment' : ℕ → UInt8}
    {file : Option SegmentFile} (h : Stores size index segment file) (hrange : InRange size index)
    (hrange' : InRange size index') (hne : index ≠ index') :
    Stores size index segment (saveIn size index' segment' file) := by
  obtain ⟨f, rfl, hholds⟩ := h
  exact ⟨_, rfl, hholds.save_of_ne hrange hrange' hne⟩

/-- Segments are written one after the other. -/
def saveFrom (size : ℕ) : ℕ → List (ℕ → UInt8) → Option SegmentFile → Option SegmentFile
  | _, [], file => file
  | index, segment :: segments, file =>
    saveFrom size (index + 1) segments (saveIn size index segment file)

theorem Stores.saveFrom_of_lt {size index start : ℕ} {segment : ℕ → UInt8}
    {segments : List (ℕ → UInt8)} {file : Option SegmentFile} (h : Stores size index segment file)
    (hrange : size * (start + segments.length) ≤ 2 ^ 32) (hindex : index < start) :
    Stores size index segment (saveFrom size start segments file) := by
  induction segments generalizing start file with
  | nil => exact h
  | cons first segments ih =>
    rw [List.length_cons] at hrange
    refine ih (h.saveIn_of_ne (inRange_of_lt hrange (by omega)) (inRange_of_lt hrange (by omega))
      (by omega)) ?_ (by omega)
    rwa [show start + 1 + segments.length = start + (segments.length + 1) by omega]

theorem stores_saveFrom {size start : ℕ} {segments : List (ℕ → UInt8)} {file : Option SegmentFile}
    (hrange : size * (start + segments.length) ≤ 2 ^ 32) {i : ℕ} {segment : ℕ → UInt8}
    (hi : segments[i]? = some segment) :
    Stores size (start + i) segment (saveFrom size start segments file) := by
  induction segments generalizing start file i with
  | nil => cases hi
  | cons first segments ih =>
    rw [List.length_cons] at hrange
    have hrest : size * (start + 1 + segments.length) ≤ 2 ^ 32 := by
      rwa [show start + 1 + segments.length = start + (segments.length + 1) by omega]
    cases i with
    | zero =>
      cases hi
      exact (stores_saveIn size start segment file).saveFrom_of_lt hrest (Nat.lt_succ_self start)
    | succ i =>
      rw [show start + (i + 1) = start + 1 + i by omega]
      exact ih hrest hi

def lengthOf (file : Option SegmentFile) : ℕ := (file.map length).getD 0

def count (size : ℕ) (file : Option SegmentFile) : ℕ := lengthOf file / size

theorem lengthOf_saveIn {size index : ℕ} (segment : ℕ → UInt8) (file : Option SegmentFile)
    (hsize : 0 < size) (hrange : InRange size index) :
    lengthOf (saveIn size index segment file) = max (lengthOf file) (size * (index + 1)) := by
  have hlength : lengthOf (saveIn size index segment file) =
      max (file.getD empty).length (offset size index + size) := rfl
  have hold : (file.getD empty).length = lengthOf file := by
    cases file <;> rfl
  rw [hlength, hold, offset_of_inRange hsize hrange, Nat.mul_succ]

end SegmentFile

end Dims
