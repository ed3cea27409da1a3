import Dims.HeapTree
import Mathlib.Logic.Function.Basic

/-!
# The buddy allocator

The tree of simpleBuddy.cpp, one byte a node. The bytes of a block can come from
another node of the network, so a byte is not assumed to be one of the four
states: `switch` treats every other value as a split node. The methods that walk
up the tree take the level of their index, which bounds the walk.
-/

namespace Dims

/-- `m_tree` -/
abbrev CSimpleBuddy := ℕ → UInt8

namespace CSimpleBuddy
open Function

def nodeUnused : UInt8 := 0
def nodeUsed : UInt8 := 1
def nodeSplit : UInt8 := 2
def nodeFull : UInt8 := 3

/-- `ms_buddyBaseLevel` -/
def baseLevel : ℕ := 12

/-- The bytes of `m_tree`. -/
def treeSize : ℕ := 2 ^ baseLevel * 2

/-- `ms_buddySize`, in bytes -/
def areaSize : ℕ := 2 ^ 10 * 512

/-- `CSimpleBuddy()` -/
def new : CSimpleBuddy := fun _ => nodeUnused

/-- The other child of the parent of `index`. -/
def buddy (index : ℕ) : ℕ := index + index % 2 * 2 - 1

def parent (index : ℕ) : ℕ := (index + 1) / 2 - 1

def indexOffset (index level : ℕ) : ℕ := (index + 1 - 2 ^ level) * 2 ^ (baseLevel - level)

def markParent : ℕ → CSimpleBuddy → ℕ → CSimpleBuddy
  | 0, t, _ => t
  | level + 1, t, index =>
    if t (buddy index) = nodeUsed ∨ t (buddy index) = nodeFull then
      markParent level (update t (parent index) nodeFull) (parent index)
    else t

/-- The inner loop of `buddyAlloc`: up from a right child to the next left child,
and from there to its buddy. -/
def climb : ℕ → ℕ → Option (ℕ × ℕ)
  | 0, _ => none
  | level + 1, index =>
    if parent index % 2 = 1 then some (parent index + 1, level) else climb level (parent index)

/-- The children of an unused node that is split. -/
def split (t : CSimpleBuddy) (index : ℕ) : CSimpleBuddy :=
  update (update (update t index nodeSplit) (index * 2 + 1) nodeUnused) (index * 2 + 2) nodeUnused

/-- The search of `buddyAlloc`; no offset stands for -1. -/
def allocLoop (requestedLevel : ℕ) : ℕ → CSimpleBuddy → ℕ → ℕ → Option ℕ × CSimpleBuddy
  | 0, t, _, _ => (none, t)
  | fuel + 1, t, index, level =>
    let next := fun (_ : Unit) =>
      if index % 2 = 1 then allocLoop requestedLevel fuel t (index + 1) level
      else match climb level index with
        | none => (none, t)
        | some (index, level) => allocLoop requestedLevel fuel t index level
    if level = requestedLevel then
      if t index = nodeUnused then
        (some (indexOffset index level), markParent level (update t index nodeUsed) index)
      else next ()
    else if t index = nodeUsed ∨ t index = nodeFull then next ()
    else allocLoop requestedLevel fuel (if t index = nodeUnused then split t index else t)
      (index * 2 + 1) (level + 1)

/-- The search enters a node once, so the size of the tree bounds it. -/
def buddyAlloc (t : CSimpleBuddy) (requestedLevel : ℕ) : Option ℕ × CSimpleBuddy :=
  allocLoop requestedLevel treeSize t 0 0

/-- The last loop of `combine`: a full ancestor is full no more. -/
def clearFull : ℕ → CSimpleBuddy → ℕ → CSimpleBuddy
  | 0, t, _ => t
  | level + 1, t, index =>
    if t (parent index) = nodeFull then
      clearFull level (update t (parent index) nodeSplit) (parent index)
    else t

def combine : ℕ → CSimpleBuddy → ℕ → CSimpleBuddy
  | 0, t, index => update t index nodeUnused
  | level + 1, t, index =>
    if t (buddy index) = nodeUnused then
      combine level (update t index nodeUnused) (parent index)
    else clearFull (level + 1) (update t index nodeUnused) index

/-- The descent of `buddyFree` at `level`; none when it leaves `m_tree`. -/
def freeLoop (offset : ℕ) : ℕ → CSimpleBuddy → ℕ → ℕ → ℕ → ℕ → Option CSimpleBuddy
  | 0, _, _, _, _, _ => none
  | fuel + 1, t, level, index, left, length =>
    if treeSize ≤ index then none
    else if t index = nodeUsed then some (combine level t index)
    else if t index = nodeUnused then some t
    else if offset < left + length / 2 then
      freeLoop offset fuel t (level + 1) (index * 2 + 1) left (length / 2)
    else freeLoop offset fuel t (level + 1) (index * 2 + 2) (left + length / 2) (length / 2)

/-- The index doubles on each level, so it has left the tree two levels below the
leaves. -/
def buddyFree (t : CSimpleBuddy) (offset : ℕ) : Option CSimpleBuddy :=
  freeLoop offset (baseLevel + 3) t 0 0 0 (2 ^ baseLevel)

/-- The descent of `buddySize`, which ends as that of `buddyFree` does. -/
def sizeLoop (offset : ℕ) : ℕ → CSimpleBuddy → ℕ → ℕ → ℕ → Option ℕ
  | 0, _, _, _, _ => none
  | fuel + 1, t, index, left, length =>
    if treeSize ≤ index then none
    else if t index = nodeUsed then some length
    else if t index = nodeUnused then some length
    else if offset < left + length / 2 then
      sizeLoop offset fuel t (index * 2 + 1) left (length / 2)
    else sizeLoop offset fuel t (index * 2 + 2) (left + length / 2) (length / 2)

def buddySize (t : CSimpleBuddy) (offset : ℕ) : Option ℕ :=
  sizeLoop offset (baseLevel + 3) t 0 0 (2 ^ baseLevel)

/-- The offsets of the used nodes of a level, from left to right. -/
def getNotEmptyIndexes (t : CSimpleBuddy) (level : ℕ) : List ℕ :=
  ((List.range' (2 ^ level - 1) (2 ^ level)).filter fun i => t i = nodeUsed).map
    fun i => indexOffset i level

/-- `getBuddySize`, in bytes; `(unsigned int)-1` is not passed by any caller. -/
def getBuddySize (level : ℕ) : ℕ := areaSize / 2 ^ baseLevel * 2 ^ (baseLevel - level)

/-- The loop of `getBuddyLevel`; none for the exception. -/
def levelLoop (transactionSize : ℕ) : ℕ → ℕ → Option ℕ
  | 0, baseUnit => if baseUnit < transactionSize then none else some 0
  | level + 1, baseUnit =>
    if baseUnit < transactionSize then levelLoop transactionSize level (baseUnit * 2)
    else some (level + 1)

def getBuddyLevel (transactionSize : ℕ) : Option ℕ :=
  levelLoop transactionSize baseLevel (getBuddySize baseLevel)

/-- The level is the least area that holds the transaction. -/
theorem levelLoop_spec {size level unit l : ℕ} (h : levelLoop size level unit = some l) :
    l ≤ level ∧ size ≤ unit * 2 ^ (level - l) := by
  induction level generalizing unit with
  | zero =>
    rw [levelLoop] at h
    split at h
    · cases h
    · cases h
      refine ⟨le_refl 0, ?_⟩
      simp only [Nat.sub_self, pow_zero, mul_one]
      omega
  | succ level ih =>
    rw [levelLoop] at h
    split at h
    · rcases ih h with ⟨hle, hsize⟩
      refine ⟨by omega, ?_⟩
      rwa [show level + 1 - l = level - l + 1 by omega, pow_succ', ← mul_assoc]
    · cases h
      refine ⟨le_refl _, ?_⟩
      simp only [Nat.sub_self, pow_zero, mul_one]
      omega

theorem getBuddyLevel_spec {size l : ℕ} (h : getBuddyLevel size = some l) :
    l ≤ baseLevel ∧ size ≤ getBuddySize l := by
  have hspec := levelLoop_spec h
  refine ⟨hspec.1, hspec.2.trans ?_⟩
  simp [getBuddySize]

section Positions
open HeapTree

@[simp] theorem parent_node (l k : ℕ) : parent (node (l + 1) k) = node l (k / 2) :=
  HeapTree.parent_node l k

@[simp] theorem buddy_left (l k : ℕ) :
    buddy (node (l + 1) (2 * k)) = node (l + 1) (2 * k + 1) := by
  have hodd := (node_mod_two l (2 * k)).mpr (by omega)
  unfold buddy
  rw [hodd]
  unfold node
  omega

@[simp] theorem buddy_right (l k : ℕ) :
    buddy (node (l + 1) (2 * k + 1)) = node (l + 1) (2 * k) := by
  have heven : node (l + 1) (2 * k + 1) % 2 ≠ 1 := fun h => by
    have hk := (node_mod_two l (2 * k + 1)).mp h
    omega
  have hsucc : node (l + 1) (2 * k + 1) = node (l + 1) (2 * k) + 1 := rfl
  unfold buddy
  omega

theorem indexOffset_node {l k : ℕ} : indexOffset (node l k) l = start baseLevel l k := by
  rw [indexOffset, node_add_one, Nat.add_sub_cancel_left, start]

end Positions

end CSimpleBuddy

end Dims
