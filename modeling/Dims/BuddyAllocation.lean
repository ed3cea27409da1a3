import Dims.SimpleBuddy
import Mathlib.Data.Nat.Basic

/-!
# The tree of a block between allocations

An unused or used node has only unused nodes below it, a split node is neither
free nor occupied as a whole, and a full node has two closed children. Allocation
breaks this only above the node it has taken, and `markParent` carries the break
up until it is repaired; `combine` does the same after a release.
-/

namespace Dims.CSimpleBuddy
open Function HeapTree

def Closed (b : UInt8) : Prop := b = nodeUsed ∨ b = nodeFull

instance (b : UInt8) : Decidable (Closed b) := inferInstanceAs (Decidable (_ ∨ _))

/-- The states that a node and its children may have together. -/
inductive Balanced : UInt8 → UInt8 → UInt8 → Prop
  | unused : Balanced nodeUnused nodeUnused nodeUnused
  | used : Balanced nodeUsed nodeUnused nodeUnused
  | split {a b : UInt8} (hfree : ¬(a = nodeUnused ∧ b = nodeUnused))
      (hclosed : ¬(Closed a ∧ Closed b)) : Balanced nodeSplit a b
  | full {a b : UInt8} (ha : Closed a) (hb : Closed b) : Balanced nodeFull a b

namespace Balanced

theorem symm {p a b : UInt8} (h : Balanced p a b) : Balanced p b a := by
  cases h with
  | unused => exact .unused
  | used => exact .used
  | split hfree hclosed => exact .split (fun h => hfree h.symm) (fun h => hclosed h.symm)
  | full ha hb => exact .full hb ha

theorem cases_left {p a b : UInt8} (h : Balanced p a b) (ha : a ≠ nodeUnused) :
    p = nodeSplit ∨ p = nodeFull := by
  cases h with
  | unused => exact absurd rfl ha
  | used => exact absurd rfl ha
  | split => exact .inl rfl
  | full => exact .inr rfl

theorem parent_of_split {p b : UInt8} (h : Balanced p nodeSplit b) : p = nodeSplit := by
  rcases h.cases_left (by decide) with hp | rfl
  · exact hp
  · cases h with
    | full ha _ => exact absurd ha (by decide)

theorem parent_of_unused {p a : UInt8} (h : Balanced p a nodeUnused) (ha : a ≠ nodeUnused) :
    p = nodeSplit := by
  rcases h.cases_left ha with hp | rfl
  · exact hp
  · cases h with
    | full _ hb => exact absurd hb (by decide)

theorem below {p a b : UInt8} (h : Balanced p a b) (hp : p = nodeUnused ∨ p = nodeUsed) :
    a = nodeUnused ∧ b = nodeUnused := by
  cases h with
  | unused => exact ⟨rfl, rfl⟩
  | used => exact ⟨rfl, rfl⟩
  | split => exact absurd hp (by decide)
  | full => exact absurd hp (by decide)

theorem eq_split {p a b : UInt8} (h : Balanced p a b) (hunused : p ≠ nodeUnused)
    (hclosed : ¬Closed p) : p = nodeSplit := by
  cases h with
  | unused => exact absurd rfl hunused
  | used => exact absurd (Or.inl rfl) hclosed
  | split => rfl
  | full => exact absurd (Or.inr rfl) hclosed

end Balanced

def sibling (k : ℕ) : ℕ := k + 1 - k % 2 * 2

theorem buddy_node (l k : ℕ) : buddy (node (l + 1) k) = node (l + 1) (sibling k) := by
  rcases Nat.even_or_odd' k with ⟨m, rfl | rfl⟩
  · rw [buddy_left]
    congr 1
    unfold sibling
    omega
  · rw [buddy_right]
    congr 1
    unfold sibling
    omega

theorem sibling_ne (k : ℕ) : sibling k ≠ k := by
  unfold sibling
  omega

theorem sibling_lt {l k : ℕ} (hk : k < 2 ^ (l + 1)) : sibling k < 2 ^ (l + 1) := by
  rw [pow_succ] at hk ⊢
  unfold sibling
  omega

variable {t : CSimpleBuddy} {l k m i r j : ℕ}

/-- The states around the node `k` of level `l`. -/
def BalancedAt (t : CSimpleBuddy) (l k : ℕ) : Prop :=
  Balanced (t (node l k)) (t (node (l + 1) (2 * k))) (t (node (l + 1) (2 * k + 1)))

theorem balancedAt_parent :
    BalancedAt t l (k / 2) ↔
      Balanced (t (node l (k / 2))) (t (node (l + 1) k)) (t (node (l + 1) (sibling k))) := by
  unfold BalancedAt
  rcases Nat.even_or_odd' k with ⟨m, rfl | rfl⟩
  · rw [show 2 * m / 2 = m by omega, show sibling (2 * m) = 2 * m + 1 by unfold sibling; omega]
  · rw [show (2 * m + 1) / 2 = m by omega,
      show sibling (2 * m + 1) = 2 * m by unfold sibling; omega]
    exact ⟨Balanced.symm, Balanced.symm⟩

theorem update_node (hi : i < 2 ^ m) (hk : k < 2 ^ l) (v : UInt8) :
    update t (node m i) v (node l k) = if l = m ∧ k = i then v else t (node l k) := by
  split
  case isTrue h =>
    obtain ⟨rfl, rfl⟩ := h
    exact update_self ..
  case isFalse h =>
    exact update_of_ne (fun heq => h (node_injective hk hi heq)) ..

theorem update_node_ne (hi : i < 2 ^ m) (hk : k < 2 ^ l) (v : UInt8) (h : ¬(l = m ∧ k = i)) :
    update t (node m i) v (node l k) = t (node l k) := by
  rw [update_node hi hk, if_neg h]

/-- A node matters only at itself and at its parent. -/
theorem balancedAt_update (hi : i < 2 ^ m) (hk : k < 2 ^ l) (v : UInt8)
    (hself : ¬(l = m ∧ k = i)) (hparent : ¬(l + 1 = m ∧ k = i / 2)) :
    BalancedAt (update t (node m i) v) l k ↔ BalancedAt t l k := by
  have hleft : ¬(l + 1 = m ∧ 2 * k = i) := by omega
  have hright : ¬(l + 1 = m ∧ 2 * k + 1 = i) := by omega
  have hlt := child_lt hk
  rw [BalancedAt, BalancedAt, update_node_ne hi hk v hself,
    update_node_ne hi (by omega) v hleft, update_node_ne hi hlt v hright]

/-- Every node but those of `P` is balanced, and the leaves are whole. -/
structure BalancedOff (t : CSimpleBuddy) (P : ℕ → ℕ → Prop) : Prop where
  inner : ∀ l k, l < baseLevel → k < 2 ^ l → ¬P l k → BalancedAt t l k
  leaf : ∀ k, k < 2 ^ baseLevel → t (node baseLevel k) = nodeUnused ∨ t (node baseLevel k) = nodeUsed

/-- `(l, k)` is the parent of `(m, i)`. -/
def IsParent (m i l k : ℕ) : Prop := l + 1 = m ∧ k = i / 2

def IsSelf (m i l k : ℕ) : Prop := l = m ∧ k = i

structure WellFormed (t : CSimpleBuddy) : Prop where
  inner : ∀ l k, l < baseLevel → k < 2 ^ l → BalancedAt t l k
  leaf : ∀ k, k < 2 ^ baseLevel → t (node baseLevel k) = nodeUnused ∨ t (node baseLevel k) = nodeUsed

theorem WellFormed.off (h : WellFormed t) (P : ℕ → ℕ → Prop) : BalancedOff t P :=
  ⟨fun l k hl hk _ => h.inner l k hl hk, h.leaf⟩

theorem BalancedOff.wellFormed_of_root {P : ℕ → ℕ → Prop} (h : BalancedOff t P)
    (hP : ∀ l k, ¬P l k) : WellFormed t :=
  ⟨fun l k hl hk => h.inner l k hl hk (hP l k), h.leaf⟩

theorem not_isParent_zero (i l k : ℕ) : ¬IsParent 0 i l k := fun h => absurd h.1 (by omega)

/-- The break above a node is repaired once its parent is balanced. -/
theorem BalancedOff.wellFormed (h : BalancedOff t (IsParent (m + 1) i))
    (hparent : BalancedAt t m (i / 2)) : WellFormed t := by
  refine ⟨fun l k hl hk => ?_, h.leaf⟩
  by_cases hP : IsParent (m + 1) i l k
  · obtain ⟨hl, rfl⟩ := hP
    cases hl
    exact hparent
  · exact h.inner l k hl hk hP

theorem new_wellFormed : WellFormed new :=
  ⟨fun _ _ _ _ => .unused, fun _ _ => .inl rfl⟩

theorem WellFormed.of_agree {t' : CSimpleBuddy} (h : WellFormed t)
    (hagree : ∀ i < treeSize, t' i = t i) : WellFormed t' := by
  have hsize : treeSize = 2 ^ (baseLevel + 1) := rfl
  have hnode : ∀ l k, l ≤ baseLevel → k < 2 ^ l → t' (node l k) = t (node l k) := by
    intro l k hl hk
    have hlt := node_lt_of_le hk hl
    exact hagree _ (by omega)
  refine ⟨fun l k hl hk => ?_, fun k hk => ?_⟩
  · have hlt := child_lt hk
    have hbalanced := h.inner l k hl hk
    rwa [BalancedAt, ← hnode l k (by omega) hk, ← hnode (l + 1) (2 * k) hl (by omega),
      ← hnode (l + 1) (2 * k + 1) hl hlt] at hbalanced
  · rw [hnode baseLevel k le_rfl hk]
    exact h.leaf k hk

def Used (t : CSimpleBuddy) (l k : ℕ) : Prop := t (node l k) = nodeUsed

theorem not_used_new (l k : ℕ) : ¬Used new l k := by
  unfold Used new
  decide

theorem used_update (hi : i < 2 ^ m) (hk : k < 2 ^ l) {v : UInt8} (hv : v ≠ nodeUsed)
    (hold : t (node m i) ≠ nodeUsed) : Used (update t (node m i) v) l k ↔ Used t l k := by
  unfold Used
  rw [update_node hi hk]
  split
  case isTrue h =>
    obtain ⟨rfl, rfl⟩ := h
    exact ⟨fun h => absurd h hv, fun h => absurd h hold⟩
  case isFalse => rfl

/-- Moving the break from above `(m + 1, i)` to above its parent: the parent
changes and is balanced now. -/
theorem BalancedOff.climb (h : BalancedOff t (IsParent (m + 1) i)) (hm : m + 1 ≤ baseLevel)
    (hi : i < 2 ^ (m + 1)) {v : UInt8}
    (hv : Balanced v (t (node (m + 1) i)) (t (node (m + 1) (sibling i)))) :
    BalancedOff (update t (node m (i / 2)) v) (IsParent m (i / 2)) := by
  have hhalf := half_lt hi
  refine ⟨fun l k hl hk hP => ?_, fun k hk => ?_⟩
  · by_cases hself : l = m ∧ k = i / 2
    · obtain ⟨rfl, rfl⟩ := hself
      rw [balancedAt_parent, update_node hhalf hhalf, if_pos ⟨rfl, rfl⟩,
        update_node_ne hhalf hi _ (by omega), update_node_ne hhalf (sibling_lt hi) _ (by omega)]
      exact hv
    · rw [balancedAt_update hhalf hk v hself hP]
      exact h.inner l k hl hk fun hP' => hself ⟨by have := hP'.1; omega, hP'.2⟩
  · rw [update_node_ne hhalf hk v (by omega)]
    exact h.leaf k hk

section MarkParent

theorem markParent_spec (h : BalancedOff t (IsParent m i)) (hm : m ≤ baseLevel) (hi : i < 2 ^ m)
    (hparent : ∀ l, l + 1 = m → t (node l (i / 2)) = nodeSplit) (hclosed : Closed (t (node m i))) :
    WellFormed (markParent m t (node m i)) ∧
      ∀ l k, k < 2 ^ l → (Used (markParent m t (node m i)) l k ↔ Used t l k) := by
  induction m generalizing t i with
  | zero => exact ⟨h.wellFormed_of_root (not_isParent_zero i), fun _ _ _ => Iff.rfl⟩
  | succ m ih =>
    have hhalf := half_lt hi
    have hsplit := hparent m rfl
    rw [markParent, buddy_node, parent_node]
    split
    case isTrue hbuddy =>
      -- the parent is full now, so the break moves up one level
      have hclimb := h.climb hm hi (.full hclosed hbuddy)
      have hfull : update t (node m (i / 2)) nodeFull (node m (i / 2)) = nodeFull := update_self ..
      have hgrand : ∀ l, l + 1 = m →
          update t (node m (i / 2)) nodeFull (node l (i / 2 / 2)) = nodeSplit := by
        intro l hl
        subst hl
        have hbalanced := h.inner l (i / 2 / 2) (by omega) (half_lt hhalf)
          (fun hP => absurd hP.1 (by omega))
        rw [balancedAt_parent, hsplit] at hbalanced
        rw [update_node_ne hhalf (half_lt hhalf) _ (by omega)]
        exact hbalanced.parent_of_split
      rcases ih hclimb (by omega) hhalf hgrand (by rw [hfull]; exact .inr rfl) with ⟨hwf, hused⟩
      refine ⟨hwf, fun l k hk => (hused l k hk).trans ?_⟩
      exact used_update hhalf hk (by decide) (by rw [hsplit]; decide)
    case isFalse hbuddy =>
      refine ⟨h.wellFormed ?_, fun _ _ _ => Iff.rfl⟩
      rw [balancedAt_parent, hsplit]
      refine .split (fun hfree => ?_) (fun hboth => hbuddy hboth.2)
      rw [hfree.1] at hclosed
      exact absurd hclosed (by decide)

end MarkParent

section Search

/-- What `allocLoop` does when the subtree of `index` has nothing to offer. -/
def advance (requestedLevel fuel : ℕ) (t : CSimpleBuddy) (index level : ℕ) :
    Option ℕ × CSimpleBuddy :=
  if index % 2 = 1 then allocLoop requestedLevel fuel t (index + 1) level
  else match climb level index with
    | none => (none, t)
    | some (index, level) => allocLoop requestedLevel fuel t index level

/-- The first free node `d` levels below `(l, k)`, with the tree split above it. -/
def take : ℕ → CSimpleBuddy → ℕ → ℕ → Option (ℕ × CSimpleBuddy)
  | 0, t, l, k => if t (node l k) = nodeUnused then some (k, t) else none
  | d + 1, t, l, k =>
    if t (node l k) = nodeUsed ∨ t (node l k) = nodeFull then none
    else
      let t := if t (node l k) = nodeUnused then split t (node l k) else t
      (take d t (l + 1) (2 * k)).or (take d t (l + 1) (2 * k + 1))

theorem split_node (t : CSimpleBuddy) (l k : ℕ) :
    split t (node l k) = update (update (update t (node l k) nodeSplit)
      (node (l + 1) (2 * k)) nodeUnused) (node (l + 1) (2 * k + 1)) nodeUnused := by
  rw [split, ← left_node, ← right_node, Nat.mul_comm]

theorem split_left (t : CSimpleBuddy) (l k : ℕ) :
    split t (node l k) (node (l + 1) (2 * k)) = nodeUnused := by
  have hne : node (l + 1) (2 * k) ≠ node (l + 1) (2 * k + 1) := by
    unfold node
    omega
  rw [split_node, update_of_ne hne, update_self]

theorem take_isSome_of_unused (d : ℕ) (h : t (node l k) = nodeUnused) :
    (take d t l k).isSome := by
  induction d generalizing t l k with
  | zero => rw [take, if_pos h]; rfl
  | succ d ih =>
    have hleft := ih (split_left t l k)
    have hopen : ¬(t (node l k) = nodeUsed ∨ t (node l k) = nodeFull) := by
      rw [h]
      decide
    rw [take, if_neg hopen]
    dsimp only
    rw [if_pos h, Option.isSome_or, hleft, Bool.true_or]

def finish (requestedLevel : ℕ) (found : Option (ℕ × CSimpleBuddy))
    (otherwise : Option ℕ × CSimpleBuddy) : Option ℕ × CSimpleBuddy :=
  match found with
  | some (j, g) =>
    (some (start baseLevel requestedLevel j),
      markParent requestedLevel (update g (node requestedLevel j) nodeUsed) (node requestedLevel j))
  | none => otherwise

theorem finish_or (requestedLevel : ℕ) (first second : Option (ℕ × CSimpleBuddy))
    (otherwise : Option ℕ × CSimpleBuddy) :
    finish requestedLevel (first.or second) otherwise =
      finish requestedLevel first (finish requestedLevel second otherwise) := by
  cases first <;> rfl

theorem allocLoop_succ (r fuel : ℕ) (t : CSimpleBuddy) (index level : ℕ) :
    allocLoop r (fuel + 1) t index level =
      if level = r then
        if t index = nodeUnused then
          (some (indexOffset index level), markParent level (update t index nodeUsed) index)
        else advance r fuel t index level
      else if t index = nodeUsed ∨ t index = nodeFull then advance r fuel t index level
      else allocLoop r fuel (if t index = nodeUnused then split t index else t)
        (index * 2 + 1) (level + 1) := rfl

theorem advance_left (r fuel : ℕ) (t : CSimpleBuddy) (l k : ℕ) :
    advance r fuel t (node (l + 1) (2 * k)) (l + 1) =
      allocLoop r fuel t (node (l + 1) (2 * k + 1)) (l + 1) := by
  have hodd := (node_mod_two l (2 * k)).mpr (by omega)
  rw [advance, if_pos hodd]
  rfl

theorem advance_right (r fuel : ℕ) (t : CSimpleBuddy) (l k : ℕ) :
    advance r fuel t (node (l + 1) (2 * k + 1)) (l + 1) = advance r fuel t (node l k) l := by
  have heven : ¬node (l + 1) (2 * k + 1) % 2 = 1 := fun h => by
    have hk := (node_mod_two l (2 * k + 1)).mp h
    omega
  rw [advance, if_neg heven, CSimpleBuddy.climb, parent_node,
    show (2 * k + 1) / 2 = k by omega, advance]
  by_cases hodd : node l k % 2 = 1
  · simp only [if_pos hodd]
  · simp only [if_neg hodd]

/-- The loop searches the subtree of a node in a bounded number of rounds and then
goes on as after a node without room. -/
theorem allocLoop_take (d : ℕ) (h : l + d = r) :
    ∃ c, c < 2 ^ (d + 1) ∧ ∀ fuel, allocLoop r (fuel + c) t (node l k) l =
      finish r (take d t l k) (advance r fuel t (node l k) l) := by
  induction d generalizing t l k with
  | zero =>
    refine ⟨1, by norm_num, fun fuel => ?_⟩
    have hlevel : l = r := by omega
    subst hlevel
    rw [allocLoop_succ, if_pos rfl, take]
    split
    · rw [indexOffset_node]
      rfl
    · rfl
  | succ d ih =>
    have hne : l ≠ r := by omega
    by_cases hclosed : t (node l k) = nodeUsed ∨ t (node l k) = nodeFull
    · refine ⟨1, Nat.one_lt_two_pow (by omega), fun fuel => ?_⟩
      rw [allocLoop_succ, if_neg hne, if_pos hclosed, take, if_pos hclosed]
      rfl
    · set t' := if t (node l k) = nodeUnused then split t (node l k) else t with ht'
      obtain ⟨c, hc, hleft⟩ := ih (t := t') (l := l + 1) (k := 2 * k) (by omega)
      obtain ⟨c', hc', hright⟩ := ih (t := t') (l := l + 1) (k := 2 * k + 1) (by omega)
      refine ⟨c' + c + 1, by rw [pow_succ]; omega, fun fuel => ?_⟩
      have hstay : finish r (take (d + 1) t l k) (advance r fuel t' (node l k) l) =
          finish r (take (d + 1) t l k) (advance r fuel t (node l k) l) := by
        by_cases hunused : t (node l k) = nodeUnused
        · obtain ⟨found, hfound⟩ := Option.isSome_iff_exists.mp
            (take_isSome_of_unused (d + 1) hunused)
          rw [hfound]
          rfl
        · rw [ht', if_neg hunused]
      rw [← hstay, ← Nat.add_assoc, ← Nat.add_assoc, allocLoop_succ, if_neg hne, if_neg hclosed,
        Nat.mul_comm, left_node, hleft, advance_left, hright, advance_right, take, if_neg hclosed]
      exact (finish_or r _ _ _).symm

theorem buddyAlloc_eq (hr : r ≤ baseLevel) (t : CSimpleBuddy) :
    buddyAlloc t r = finish r (take r t 0 0) (none, t) := by
  obtain ⟨c, hc, hloop⟩ := allocLoop_take (t := t) (l := 0) (k := 0) (r := r) r (Nat.zero_add r)
  have hpow : 2 ^ (r + 1) ≤ treeSize := Nat.pow_le_pow_right (by omega) (Nat.succ_le_succ hr)
  obtain ⟨fuel, hfuel⟩ : ∃ fuel, treeSize = fuel + c := ⟨treeSize - c, by omega⟩
  rw [buddyAlloc, hfuel]
  exact hloop fuel

/-- The node `(l, k)` is about to be entered: its parent is split, and is balanced
but for the case that both children are free. -/
structure Entered (t : CSimpleBuddy) (l k : ℕ) : Prop where
  off : BalancedOff t (IsParent l k)
  parent : ∀ m, m + 1 = l → t (node m (k / 2)) = nodeSplit
  room : ∀ m, m + 1 = l → ¬(Closed (t (node l k)) ∧ Closed (t (node l (sibling k))))

theorem WellFormed.entered (h : WellFormed t) : Entered t 0 0 :=
  ⟨h.off _, fun _ hm => absurd hm (by omega), fun _ hm => absurd hm (by omega)⟩

theorem Entered.wellFormed (h : Entered t l k) (hsplit : t (node l k) = nodeSplit) :
    WellFormed t := by
  cases l with
  | zero => exact h.off.wellFormed_of_root (not_isParent_zero k)
  | succ l =>
    refine h.off.wellFormed ?_
    rw [balancedAt_parent, h.parent l rfl, hsplit]
    exact .split (fun hfree => absurd hfree.1 (by decide))
      (fun hclosed => absurd hclosed.1 (by decide))

theorem WellFormed.entered_child (h : WellFormed t) (hl : l < baseLevel) (hk : k < 2 ^ (l + 1))
    (hsplit : t (node l (k / 2)) = nodeSplit) : Entered t (l + 1) k := by
  refine ⟨h.off _, fun m hm => ?_, fun m hm => ?_⟩
  · cases hm
    exact hsplit
  · have hbalanced := h.inner l (k / 2) hl (half_lt hk)
    rw [balancedAt_parent, hsplit] at hbalanced
    cases hbalanced with
    | split _ hclosed => exact hclosed

theorem split_eq (hk : k < 2 ^ l) (hbalanced : BalancedAt t l k)
    (hunused : t (node l k) = nodeUnused) :
    split t (node l k) = update t (node l k) nodeSplit := by
  have hlt := child_lt hk
  obtain ⟨hleft, hright⟩ := Balanced.below hbalanced (.inl hunused)
  have hleft' : update t (node l k) nodeSplit (node (l + 1) (2 * k)) = nodeUnused := by
    rw [update_node_ne hk (by omega) _ (by omega), hleft]
  have hright' : update t (node l k) nodeSplit (node (l + 1) (2 * k + 1)) = nodeUnused := by
    rw [update_node_ne hk hlt _ (by omega), hright]
  have hsame : update (update t (node l k) nodeSplit) (node (l + 1) (2 * k)) nodeUnused =
      update t (node l k) nodeSplit := update_eq_self_iff.mpr hleft'.symm
  rw [split_node, hsame, update_eq_self_iff.mpr hright'.symm]

theorem Entered.split (h : Entered t l (k / 2)) (hl : l < baseLevel) (hk : k < 2 ^ (l + 1))
    (hunused : t (node l (k / 2)) = nodeUnused) :
    Entered (split t (node l (k / 2))) (l + 1) k := by
  have hhalf := half_lt hk
  have hchildren := h.off.inner l (k / 2) hl hhalf (fun hP => absurd hP.1 (by omega))
  rw [split_eq hhalf hchildren hunused]
  have hsplit : update t (node l (k / 2)) nodeSplit (node l (k / 2)) = nodeSplit := update_self ..
  have hfree : update t (node l (k / 2)) nodeSplit (node (l + 1) k) = nodeUnused := by
    rw [update_node_ne hhalf hk _ (by omega)]
    rw [balancedAt_parent] at hchildren
    exact (hchildren.below (.inl hunused)).1
  refine ⟨⟨fun m i hm hi hP => ?_, fun i hi => ?_⟩, fun m hm => ?_, fun m hm => ?_⟩
  · have hself : ¬(m = l ∧ i = k / 2) := fun heq => hP ⟨by omega, heq.2⟩
    by_cases hparent : IsParent l (k / 2) m i
    · obtain ⟨hlevel, rfl⟩ := hparent
      subst hlevel
      rw [balancedAt_parent, hsplit, update_node_ne hhalf hi _ (by omega), h.parent m rfl]
      exact .split (fun hfree => absurd hfree.1 (by decide))
        (fun hclosed => absurd hclosed.1 (by decide))
    · rw [balancedAt_update hhalf hi _ hself hparent]
      exact h.off.inner m i hm hi hparent
  · rw [update_node_ne hhalf hi _ (by omega)]
    exact h.off.leaf i hi
  · cases hm
    exact hsplit
  · rw [hfree]
    exact fun hclosed => absurd hclosed.1 (by decide)

/-- What the search finds is free, lies below the node it started from, and can be
marked: nothing but the way to it has changed. -/
theorem take_spec {d : ℕ} {g : CSimpleBuddy} (h : Entered t l k) (hk : k < 2 ^ l)
    (hd : l + d ≤ baseLevel) (hfound : take d t l k = some (j, g)) :
    j < 2 ^ (l + d) ∧ g (node (l + d) j) = nodeUnused ∧ Entered g (l + d) j ∧
      ∀ m i, i < 2 ^ m → (Used g m i ↔ Used t m i) := by
  induction d generalizing t l k with
  | zero =>
    rw [take] at hfound
    split at hfound
    case isTrue hunused =>
      cases hfound
      exact ⟨hk, hunused, h, fun _ _ _ => Iff.rfl⟩
    case isFalse => cases hfound
  | succ d ih =>
    have hlt := child_lt hk
    rw [take] at hfound
    split at hfound
    case isTrue => cases hfound
    case isFalse hclosed =>
      have hbalanced := h.off.inner l k (by omega) hk (fun hP => absurd hP.1 (by omega))
      -- both children can be entered in the tree the search goes on with
      obtain ⟨t', htree, hchild, hused⟩ : ∃ t',
          t' = (if t (node l k) = nodeUnused then CSimpleBuddy.split t (node l k) else t) ∧
          (∀ i, i < 2 ^ (l + 1) → i / 2 = k → Entered t' (l + 1) i) ∧
          ∀ m i, i < 2 ^ m → (Used t' m i ↔ Used t m i) := by
        refine ⟨_, rfl, ?_⟩
        split
        case isTrue hunused =>
          refine ⟨fun i hi hik => ?_, fun m i hi => ?_⟩
          · subst hik
            exact h.split (by omega) hi hunused
          · rw [split_eq hk hbalanced hunused]
            exact used_update hk hi (by decide) (by rw [hunused]; decide)
        case isFalse hunused =>
          have hsplit := Balanced.eq_split hbalanced hunused hclosed
          refine ⟨fun i hi hik => ?_, fun _ _ _ => Iff.rfl⟩
          subst hik
          exact (h.wellFormed hsplit).entered_child (by omega) hi hsplit
      rw [← htree] at hfound
      rw [show l + (d + 1) = l + 1 + d by omega]
      rcases Option.or_eq_some_iff.mp hfound with hleft | ⟨-, hright⟩
      · obtain ⟨hj, hfree, hentered, hused'⟩ :=
          ih (hchild (2 * k) (by omega) (by omega)) (by omega) (by omega) hleft
        exact ⟨hj, hfree, hentered, fun m i hi => (hused' m i hi).trans (hused m i hi)⟩
      · obtain ⟨hj, hfree, hentered, hused'⟩ :=
          ih (hchild (2 * k + 1) hlt (by omega)) hlt (by omega) hright
        exact ⟨hj, hfree, hentered, fun m i hi => (hused' m i hi).trans (hused m i hi)⟩

theorem Entered.markUsed (h : Entered t r j) (hr : r ≤ baseLevel) (hj : j < 2 ^ r)
    (hfree : t (node r j) = nodeUnused) :
    WellFormed (markParent r (update t (node r j) nodeUsed) (node r j)) ∧
      ∀ l k, k < 2 ^ l → (Used (markParent r (update t (node r j) nodeUsed) (node r j)) l k ↔
        Used t l k ∨ (l = r ∧ k = j)) := by
  have hself : update t (node r j) nodeUsed (node r j) = nodeUsed := update_self ..
  have hoff : BalancedOff (update t (node r j) nodeUsed) (IsParent r j) := by
    refine ⟨fun l k hl hk hP => ?_, fun k hk => ?_⟩
    · by_cases hnode : l = r ∧ k = j
      · obtain ⟨rfl, rfl⟩ := hnode
        have hlt := child_lt hk
        have hbalanced := h.off.inner l k hl hk hP
        obtain ⟨hleft, hright⟩ := Balanced.below hbalanced (.inl hfree)
        rw [BalancedAt, hself, update_node_ne hk (by omega) _ (by omega),
          update_node_ne hk hlt _ (by omega), hleft, hright]
        exact .used
      · rw [balancedAt_update hj hk _ hnode hP]
        exact h.off.inner l k hl hk hP
    · rw [update_node hj hk]
      split
      · exact .inr rfl
      · exact h.off.leaf k hk
  have hparent : ∀ l, l + 1 = r → update t (node r j) nodeUsed (node l (j / 2)) = nodeSplit := by
    intro l hl
    subst hl
    rw [update_node_ne hj (half_lt hj) _ (by omega)]
    exact h.parent l rfl
  obtain ⟨hwf, hused⟩ := markParent_spec hoff hr hj hparent (by rw [hself]; exact .inl rfl)
  refine ⟨hwf, fun l k hk => (hused l k hk).trans ?_⟩
  unfold Used
  rw [update_node hj hk]
  split
  case isTrue hnode => exact ⟨fun _ => .inr hnode, fun _ => rfl⟩
  case isFalse hnode => exact ⟨.inl, fun hor => hor.resolve_right hnode⟩

theorem buddyAlloc_none {t' : CSimpleBuddy} (hr : r ≤ baseLevel)
    (halloc : buddyAlloc t r = (none, t')) : t' = t := by
  rw [buddyAlloc_eq hr] at halloc
  cases hfound : take r t 0 0 with
  | none =>
    rw [hfound] at halloc
    exact (Prod.mk.inj halloc).2.symm
  | some found =>
    rw [hfound] at halloc
    exact absurd (Prod.mk.inj halloc).1 (Option.some_ne_none _)

theorem WellFormed.buddyAlloc_some {t' : CSimpleBuddy} {offset : ℕ} (h : WellFormed t)
    (hr : r ≤ baseLevel) (halloc : buddyAlloc t r = (some offset, t')) :
    WellFormed t' ∧ ∃ j, j < 2 ^ r ∧ offset = start baseLevel r j ∧ ¬Used t r j ∧
      ∀ l k, k < 2 ^ l → (Used t' l k ↔ Used t l k ∨ (l = r ∧ k = j)) := by
  rw [buddyAlloc_eq hr] at halloc
  cases hfound : take r t 0 0 with
  | none =>
    rw [hfound] at halloc
    exact absurd (Prod.mk.inj halloc).1.symm (Option.some_ne_none _)
  | some found =>
    obtain ⟨j, g⟩ := found
    rw [hfound] at halloc
    obtain ⟨hoffset, rfl⟩ := Prod.mk.inj halloc
    obtain ⟨hj, hfree, hentered, hused⟩ := take_spec h.entered (by norm_num) (by omega) hfound
    rw [Nat.zero_add] at hj hfree hentered
    obtain ⟨hwf, hmarked⟩ := hentered.markUsed hr hj hfree
    refine ⟨hwf, j, hj, (Option.some.inj hoffset).symm, fun hold => ?_, fun l k hk => ?_⟩
    · have hg := (hused r j hj).mpr hold
      rw [Used, hfree] at hg
      exact absurd hg (by decide)
    · exact (hmarked l k hk).trans (or_congr_left (hused l k hk))

theorem take_lt {d : ℕ} {g : CSimpleBuddy} (hk : k < 2 ^ l) (hfound : take d t l k = some (j, g)) :
    j < 2 ^ (l + d) := by
  induction d generalizing t l k with
  | zero =>
    rw [take] at hfound
    split at hfound
    case isTrue =>
      cases hfound
      exact hk
    case isFalse => cases hfound
  | succ d ih =>
    have hlt := child_lt hk
    rw [take] at hfound
    split at hfound
    case isTrue => cases hfound
    case isFalse =>
      rw [show l + (d + 1) = l + 1 + d by omega]
      obtain hleft | ⟨-, hright⟩ := Option.or_eq_some_iff.mp hfound
      · exact ih (by omega) hleft
      · exact ih hlt hright

theorem buddyAlloc_start {t' : CSimpleBuddy} {offset : ℕ} (hr : r ≤ baseLevel)
    (halloc : buddyAlloc t r = (some offset, t')) : ∃ j < 2 ^ r, offset = start baseLevel r j := by
  rw [buddyAlloc_eq hr] at halloc
  cases hfound : take r t 0 0 with
  | none =>
    rw [hfound] at halloc
    exact absurd (Prod.mk.inj halloc).1.symm (Option.some_ne_none _)
  | some found =>
    rw [hfound] at halloc
    obtain ⟨hoffset, -⟩ := Prod.mk.inj halloc
    have hj := take_lt (by norm_num) hfound
    rw [Nat.zero_add] at hj
    exact ⟨found.1, hj, (Option.some.inj hoffset).symm⟩

theorem WellFormed.buddyAlloc (h : WellFormed t) (hr : r ≤ baseLevel) :
    WellFormed (CSimpleBuddy.buddyAlloc t r).2 := by
  cases halloc : CSimpleBuddy.buddyAlloc t r with
  | mk place t' =>
    cases place with
    | none => rwa [buddyAlloc_none hr halloc]
    | some offset => exact (h.buddyAlloc_some hr halloc).1

theorem buddyAlloc_new (hr : r ≤ baseLevel) : (buddyAlloc new r).1.isSome := by
  obtain ⟨found, hfound⟩ := Option.isSome_iff_exists.mp
    (take_isSome_of_unused (t := new) (l := 0) (k := 0) r rfl)
  rw [buddyAlloc_eq hr, hfound]
  rfl

end Search

section Release

theorem WellFormed.below_unused (h : WellFormed t) (hk : k < 2 ^ l)
    (hnode : t (node l k) = nodeUnused ∨ t (node l k) = nodeUsed) {d : ℕ}
    (hd : l + (d + 1) ≤ baseLevel) (hj : j / 2 ^ (d + 1) = k) :
    t (node (l + (d + 1)) j) = nodeUnused := by
  have hlt := child_lt hk
  have hhalf : j / 2 ^ d / 2 = k := by rw [Nat.div_div_eq_div_mul, ← pow_succ, hj]
  have hchild : t (node (l + 1) (j / 2 ^ d)) = nodeUnused := by
    obtain ⟨hleft, hright⟩ := Balanced.below (h.inner l k (by omega) hk) hnode
    rcases Nat.mod_two_eq_zero_or_one (j / 2 ^ d) with heven | hodd
    · rwa [show 2 * k = j / 2 ^ d by omega] at hleft
    · rwa [show 2 * k + 1 = j / 2 ^ d by omega] at hright
  rw [show l + (d + 1) = l + 1 + d by omega]
  refine descend (P := fun l k => t (node l k) = nodeUnused) baseLevel
    (fun l k hl hk hfree => ?_) (by omega) hchild d (by omega) rfl
  exact Balanced.below (h.inner l k hl hk) (.inl hfree)

theorem WellFormed.above_used (h : WellFormed t) {d : ℕ} (hd : l + (d + 1) ≤ baseLevel)
    (hj : j < 2 ^ (l + (d + 1))) (hused : Used t (l + (d + 1)) j) :
    t (node l (j / 2 ^ (d + 1))) ≠ nodeUsed ∧ t (node l (j / 2 ^ (d + 1))) ≠ nodeUnused := by
  have hk : j / 2 ^ (d + 1) < 2 ^ l := by
    rwa [Nat.div_lt_iff_lt_mul (Nat.two_pow_pos _), ← pow_add]
  rw [← not_or]
  intro hnode
  have hfree := h.below_unused hk hnode.symm hd rfl
  rw [Used, hfree] at hused
  exact absurd hused (by decide)

theorem WellFormed.used_disjoint (h : WellFormed t) (hl : l ≤ m) (hm : m ≤ baseLevel)
    (hj : j < 2 ^ m) (hused : Used t l k) (hused' : Used t m j)
    (hne : ¬(l = m ∧ k = j)) :
    start baseLevel l k + width baseLevel l ≤ start baseLevel m j ∨
      start baseLevel m j + width baseLevel m ≤ start baseLevel l k := by
  apply areas_disjoint hl hm
  intro heq
  obtain ⟨d, rfl⟩ := Nat.exists_eq_add_of_le hl
  rw [Nat.add_sub_cancel_left] at heq
  cases d with
  | zero => exact hne ⟨rfl, by simpa using heq.symm⟩
  | succ d =>
    have habove := h.above_used hm hj hused'
    rw [heq] at habove
    exact habove.1 hused

theorem clearFull_spec (h : BalancedOff t (IsParent m i)) (hm : m ≤ baseLevel) (hi : i < 2 ^ m)
    (hopen : ¬Closed (t (node m i)))
    (hparent : ∀ l, l + 1 = m → t (node l (i / 2)) = nodeFull ∧ Closed (t (node m (sibling i))) ∨
      BalancedAt t l (i / 2)) :
    WellFormed (clearFull m t (node m i)) ∧
      ∀ l k, k < 2 ^ l → (Used (clearFull m t (node m i)) l k ↔ Used t l k) := by
  induction m generalizing t i with
  | zero => exact ⟨h.wellFormed_of_root (not_isParent_zero i), fun _ _ _ => Iff.rfl⟩
  | succ m ih =>
    have hhalf := half_lt hi
    rw [clearFull, parent_node]
    split
    case isTrue hfull =>
      have hsibling : Closed (t (node (m + 1) (sibling i))) := by
        rcases hparent m rfl with ⟨-, hsibling⟩ | hbalanced
        · exact hsibling
        · rw [balancedAt_parent, hfull] at hbalanced
          cases hbalanced with
          | full ha _ => exact absurd ha hopen
      have hclimb := h.climb hm hi (v := nodeSplit)
        (.split (fun hfree => absurd (hfree.2 ▸ hsibling) (by decide)) (fun hclosed => hopen hclosed.1))
      have hsplit : update t (node m (i / 2)) nodeSplit (node m (i / 2)) = nodeSplit :=
        update_self ..
      have hgrand : ∀ l, l + 1 = m →
          update t (node m (i / 2)) nodeSplit (node l (i / 2 / 2)) = nodeFull ∧
            Closed (update t (node m (i / 2)) nodeSplit (node m (sibling (i / 2)))) ∨
          BalancedAt (update t (node m (i / 2)) nodeSplit) l (i / 2 / 2) := by
        intro l hl
        subst hl
        have hbalanced := h.inner l (i / 2 / 2) (by omega) (half_lt hhalf)
          (fun hP => absurd hP.1 (by omega))
        rw [balancedAt_parent, hfull] at hbalanced
        rw [balancedAt_parent, hsplit, update_node_ne hhalf (half_lt hhalf) _ (by omega),
          update_node_ne hhalf (sibling_lt hhalf) _ (fun heq => sibling_ne _ heq.2)]
        rcases hbalanced.cases_left (by decide) with hp | hp
        · right
          rw [hp]
          exact .split (fun hfree => absurd hfree.1 (by decide))
            (fun hclosed => absurd hclosed.1 (by decide))
        · left
          rw [hp] at hbalanced
          cases hbalanced with
          | full _ hb => exact ⟨hp, hb⟩
      obtain ⟨hwf, hused⟩ := ih hclimb (by omega) hhalf (by rw [hsplit]; decide) hgrand
      refine ⟨hwf, fun l k hk => (hused l k hk).trans ?_⟩
      exact used_update hhalf hk (by decide) (by rw [hfull]; decide)
    case isFalse hfull =>
      have hbalanced := (hparent m rfl).resolve_left (fun hleft => hfull hleft.1)
      exact ⟨h.wellFormed hbalanced, fun _ _ _ => Iff.rfl⟩

theorem children_of_pair {P : ℕ → Prop} {k : ℕ} (hk : P k) (hsibling : P (sibling k)) :
    P (2 * (k / 2)) ∧ P (2 * (k / 2) + 1) := by
  rcases Nat.even_or_odd' k with ⟨m, rfl | rfl⟩
  · rw [show sibling (2 * m) = 2 * m + 1 by unfold sibling; omega] at hsibling
    rw [show 2 * m / 2 = m by omega]
    exact ⟨hk, hsibling⟩
  · rw [show sibling (2 * m + 1) = 2 * m by unfold sibling; omega] at hsibling
    rw [show (2 * m + 1) / 2 = m by omega]
    exact ⟨hsibling, hk⟩

/-- A freed node is balanced itself, so only its parent can be out of balance. -/
theorem BalancedOff.release (h : BalancedOff t (IsSelf m i)) (hi : i < 2 ^ m)
    (hbelow : m < baseLevel → t (node (m + 1) (2 * i)) = nodeUnused ∧
      t (node (m + 1) (2 * i + 1)) = nodeUnused) :
    BalancedOff (update t (node m i) nodeUnused) (IsParent m i) := by
  refine ⟨fun l k hl hk hP => ?_, fun k hk => ?_⟩
  · by_cases hsame : l = m ∧ k = i
    · obtain ⟨rfl, rfl⟩ := hsame
      have hlt := child_lt hk
      have hself : update t (node l k) nodeUnused (node l k) = nodeUnused := update_self ..
      rw [BalancedAt, hself, update_node_ne hk (by omega) _ (by omega),
        update_node_ne hk hlt _ (by omega), (hbelow hl).1, (hbelow hl).2]
      exact .unused
    · rw [balancedAt_update hi hk _ hsame hP]
      exact h.inner l k hl hk hsame
  · rw [update_node hi hk]
    split
    · exact .inl rfl
    · exact h.leaf k hk

theorem used_release (hi : i < 2 ^ m) (hk : k < 2 ^ l) :
    Used (update t (node m i) nodeUnused) l k ↔ Used t l k ∧ ¬(l = m ∧ k = i) := by
  unfold Used
  rw [update_node hi hk]
  split
  case isTrue hsame => exact ⟨fun h => absurd h (by decide), fun h => absurd hsame h.2⟩
  case isFalse hother => exact ⟨fun h => ⟨h, hother⟩, fun h => h.1⟩

theorem combine_spec (h : BalancedOff t (IsSelf m i)) (hm : m ≤ baseLevel) (hi : i < 2 ^ m)
    (hnode : t (node m i) = nodeUsed ∨ t (node m i) = nodeSplit)
    (hbelow : m < baseLevel → t (node (m + 1) (2 * i)) = nodeUnused ∧
      t (node (m + 1) (2 * i + 1)) = nodeUnused) :
    WellFormed (combine m t (node m i)) ∧
      ∀ l k, k < 2 ^ l →
        (Used (combine m t (node m i)) l k ↔ Used t l k ∧ ¬(l = m ∧ k = i)) := by
  induction m generalizing t i with
  | zero =>
    have hoff := h.release hi hbelow
    exact ⟨hoff.wellFormed_of_root (not_isParent_zero i), fun l k hk => used_release hi hk⟩
  | succ m ih =>
    have hhalf := half_lt hi
    have hoff := h.release hi hbelow
    have hbalanced := h.inner m (i / 2) (by omega) hhalf (fun hP => absurd hP.1 (by omega))
    rw [balancedAt_parent] at hbalanced
    have hne : t (node (m + 1) i) ≠ nodeUnused := by
      rcases hnode with heq | heq <;> rw [heq] <;> decide
    have hself : update t (node (m + 1) i) nodeUnused (node (m + 1) i) = nodeUnused :=
      update_self ..
    have hparent : update t (node (m + 1) i) nodeUnused (node m (i / 2)) = t (node m (i / 2)) :=
      update_node_ne hi hhalf _ (by omega)
    have hsibling : update t (node (m + 1) i) nodeUnused (node (m + 1) (sibling i)) =
        t (node (m + 1) (sibling i)) :=
      update_node_ne hi (sibling_lt hi) _ (fun heq => sibling_ne i heq.2)
    rw [combine, buddy_node, parent_node]
    split
    case isTrue hbuddy =>
      rw [hbuddy] at hbalanced
      have hsplit := hbalanced.parent_of_unused hne
      have hmerged : BalancedOff (update t (node (m + 1) i) nodeUnused) (IsSelf m (i / 2)) := by
        refine ⟨fun l k hl hk hP => ?_, hoff.leaf⟩
        exact hoff.inner l k hl hk fun hP' => hP ⟨by have := hP'.1; omega, hP'.2⟩
      obtain ⟨hwf, hused⟩ := ih hmerged (by omega) hhalf (.inr (hparent.trans hsplit))
        (fun _ => children_of_pair (P := fun k =>
          update t (node (m + 1) i) nodeUnused (node (m + 1) k) = nodeUnused)
          hself (hsibling.trans hbuddy))
      refine ⟨hwf, fun l k hk => ?_⟩
      rw [hused l k hk, used_release hi hk]
      -- the merged parent was split, so it leaves no used node
      refine ⟨fun h => h.1, fun h => ⟨h, ?_⟩⟩
      intro hsame
      obtain ⟨rfl, rfl⟩ := hsame
      have hold := h.1
      rw [Used, hsplit] at hold
      exact absurd hold (by decide)
    case isFalse hbuddy =>
      have hfix : ∀ l, l + 1 = m + 1 →
          update t (node (m + 1) i) nodeUnused (node l (i / 2)) = nodeFull ∧
            Closed (update t (node (m + 1) i) nodeUnused (node (m + 1) (sibling i))) ∨
          BalancedAt (update t (node (m + 1) i) nodeUnused) l (i / 2) := by
        intro l hl
        cases hl
        rw [balancedAt_parent, hparent, hsibling, hself]
        rcases hbalanced.cases_left hne with hp | hp
        · right
          rw [hp]
          exact .split (fun hfree => hbuddy hfree.2) (fun hclosed => absurd hclosed.1 (by decide))
        · left
          rw [hp] at hbalanced
          cases hbalanced with
          | full _ hb => exact ⟨hp, hb⟩
      obtain ⟨hwf, hused⟩ := clearFull_spec hoff hm hi (by rw [hself]; decide) hfix
      exact ⟨hwf, fun l k hk => (hused l k hk).trans (used_release hi hk)⟩

theorem start_lt_start {height d : ℕ} (h : l + d ≤ height) :
    start height (l + d) j < start height l k ↔ j / 2 ^ d < k := by
  have hpow : 2 ^ (height - l) = 2 ^ d * 2 ^ (height - (l + d)) := by
    rw [← pow_add]
    congr 1
    omega
  rw [start, start, hpow, ← Nat.mul_assoc, Nat.mul_lt_mul_right (Nat.two_pow_pos _),
    Nat.div_lt_iff_lt_mul (Nat.two_pow_pos d)]

theorem width_half (hl : l < baseLevel) : width baseLevel l / 2 = width baseLevel (l + 1) := by
  have hpow : baseLevel - l = baseLevel - (l + 1) + 1 := by omega
  rw [width, width, hpow, pow_succ, Nat.mul_div_cancel _ (by omega)]

theorem start_left (hl : l < baseLevel) :
    start baseLevel (l + 1) (2 * k) = start baseLevel l k := by
  have hpow : baseLevel - l = baseLevel - (l + 1) + 1 := by omega
  rw [start, start, hpow, pow_succ]
  ring

theorem start_right (hl : l < baseLevel) :
    start baseLevel (l + 1) (2 * k + 1) = start baseLevel l k + width baseLevel (l + 1) := by
  rw [← start_left hl, start, start, width]
  ring

/-- The descent to the start of a used area ends at its node. -/
theorem WellFormed.freeLoop_used (h : WellFormed t) {d : ℕ} (hd : l + d ≤ baseLevel)
    (hj : j < 2 ^ (l + d)) (hused : Used t (l + d) j) (fuel : ℕ) (hfuel : d < fuel) :
    freeLoop (start baseLevel (l + d) j) fuel t l (node l (j / 2 ^ d))
      (start baseLevel l (j / 2 ^ d)) (width baseLevel l) =
        some (combine (l + d) t (node (l + d) j)) := by
  induction d generalizing l fuel with
  | zero =>
    obtain ⟨fuel, rfl⟩ := Nat.exists_eq_add_of_lt hfuel
    have hnode := node_lt_of_le hj hd
    have hsize : 2 ^ (baseLevel + 1) - 1 < treeSize := by decide
    rw [freeLoop]
    simp only [Nat.add_zero, pow_zero, Nat.div_one] at hj hused hnode ⊢
    rw [if_neg (by omega)]
    exact if_pos hused
  | succ d ih =>
    obtain ⟨fuel, rfl⟩ := Nat.exists_eq_add_of_lt hfuel
    have hk : j / 2 ^ (d + 1) < 2 ^ l := by
      rwa [Nat.div_lt_iff_lt_mul (Nat.two_pow_pos _), ← pow_add]
    have hnode := node_lt_of_le hk (show l ≤ baseLevel by omega)
    have hsize : 2 ^ (baseLevel + 1) - 1 < treeSize := by decide
    obtain ⟨hnotUsed, hnotUnused⟩ := h.above_used hd hj hused
    have hhalf : j / 2 ^ d / 2 = j / 2 ^ (d + 1) := by
      rw [Nat.div_div_eq_div_mul, ← pow_succ]
    rw [freeLoop, if_neg (by omega), if_neg hnotUsed, if_neg hnotUnused,
      width_half (by omega), ← start_right (by omega), ← start_left (k := j / 2 ^ (d + 1)) (by omega),
      Nat.mul_comm (node l _), left_node, right_node]
    rw [show l + (d + 1) = l + 1 + d by omega] at hd hj hused ⊢
    have hrec := ih hd hj hused (d + 1 + fuel) (by omega)
    split
    case isTrue hleft =>
      rw [start_lt_start hd] at hleft
      rwa [show 2 * (j / 2 ^ (d + 1)) = j / 2 ^ d by omega]
    case isFalse hright =>
      rw [start_lt_start hd] at hright
      rwa [show 2 * (j / 2 ^ (d + 1)) + 1 = j / 2 ^ d by omega]

/-- Freeing the start of a used area unmarks this area and no other. -/
theorem WellFormed.buddyFree_used (h : WellFormed t) (hr : r ≤ baseLevel) (hj : j < 2 ^ r)
    (hused : Used t r j) :
    ∃ t', buddyFree t (start baseLevel r j) = some t' ∧ WellFormed t' ∧
      ∀ l k, k < 2 ^ l → (Used t' l k ↔ Used t l k ∧ ¬(l = r ∧ k = j)) := by
  have hloop := h.freeLoop_used (l := 0) (d := r) (by omega) (by rwa [Nat.zero_add])
    (by rwa [Nat.zero_add]) (baseLevel + 3) (by omega)
  have hroot : j / 2 ^ r = 0 := Nat.div_eq_of_lt hj
  rw [hroot, Nat.zero_add] at hloop
  refine ⟨combine r t (node r j), ?_, ?_⟩
  · rw [← hloop]
    simp [buddyFree, start, width]
  · exact combine_spec (h.off _) hr hj (.inl hused)
      fun hlt => Balanced.below (h.inner r j hlt hj) (.inr hused)

theorem WellFormed.freeLoop (h : WellFormed t) {offset fuel left length : ℕ} {t' : CSimpleBuddy}
    (hl : l ≤ baseLevel) (hk : k < 2 ^ l)
    (hfree : freeLoop offset fuel t l (node l k) left length = some t') : WellFormed t' := by
  induction fuel generalizing l k left length with
  | zero => cases hfree
  | succ fuel ih =>
    rw [CSimpleBuddy.freeLoop] at hfree
    split at hfree
    case isTrue => cases hfree
    case isFalse =>
      split at hfree
      case isTrue hused =>
        cases hfree
        exact (combine_spec (h.off _) hl hk (.inl hused)
          fun hlt => Balanced.below (h.inner l k hlt hk) (.inr hused)).1
      case isFalse hnotUsed =>
        split at hfree
        case isTrue =>
          cases hfree
          exact h
        case isFalse hnotUnused =>
          -- a leaf is used or unused, so there is a level below
          have hlt : l < baseLevel := by
            refine lt_of_le_of_ne hl fun heq => ?_
            subst heq
            exact (h.leaf k hk).elim hnotUnused hnotUsed
          have hchild := child_lt hk
          rw [Nat.mul_comm, left_node, right_node] at hfree
          split at hfree
          · exact ih hlt (by omega) hfree
          · exact ih hlt hchild hfree

theorem WellFormed.buddyFree (h : WellFormed t) {offset : ℕ} {t' : CSimpleBuddy}
    (hfree : CSimpleBuddy.buddyFree t offset = some t') : WellFormed t' :=
  h.freeLoop (l := 0) (k := 0) (Nat.zero_le _) (by norm_num) hfree

end Release

end Dims.CSimpleBuddy
