import Dims.BuddyDescent
import Dims.GuardedRun
import Mathlib.Data.List.Nodup

/-!
# Allocations and releases

Areas are taken and given back in any order. The nodes that the tree marks as used are the
areas that are held; a node that is not free has a used node above or below it, which leaves
no place for its area, and a tree without used nodes is the one of an empty block.
-/

namespace Dims.CSimpleBuddy
open Function HeapTree

variable {t t' : CSimpleBuddy} {l m k j r : ℕ}

section Occupied

/-- An area that is in use has a unit in common with the area of the node. -/
def Occupied (t : CSimpleBuddy) (m j : ℕ) : Prop :=
  ∃ l ≤ baseLevel, ∃ k < 2 ^ l, Used t l k ∧
    start baseLevel l k < start baseLevel m j + width baseLevel m ∧
      start baseLevel m j < start baseLevel l k + width baseLevel l

theorem Balanced.child_ne {p a b : UInt8} (h : Balanced p a b) (hunused : p ≠ nodeUnused)
    (hused : p ≠ nodeUsed) : a ≠ nodeUnused ∨ b ≠ nodeUnused := by
  cases h with
  | unused => exact absurd rfl hunused
  | used => exact absurd rfl hused
  | split hfree _ => exact not_and_or.mp hfree
  | full ha _ =>
    left
    rintro rfl
    exact absurd ha (by decide)

theorem WellFormed.exists_used_below (h : WellFormed t) {e : ℕ} (he : l + e = baseLevel)
    (hk : k < 2 ^ l) (hne : t (node l k) ≠ nodeUnused) :
    ∃ d ≤ e, ∃ j < 2 ^ (l + d), j / 2 ^ d = k ∧ Used t (l + d) j := by
  induction e generalizing l k with
  | zero =>
    obtain rfl : l = baseLevel := he
    exact ⟨0, le_rfl, k, hk, Nat.div_one k, (h.leaf k hk).resolve_left hne⟩
  | succ e ih =>
    by_cases hused : t (node l k) = nodeUsed
    · exact ⟨0, Nat.zero_le _, k, hk, Nat.div_one k, hused⟩
    · have hlt := child_lt hk
      have hbelow : ∃ i < 2 ^ (l + 1), i / 2 = k ∧ t (node (l + 1) i) ≠ nodeUnused := by
        obtain hleft | hright := (h.inner l k (by omega) hk).child_ne hne hused
        · exact ⟨2 * k, by omega, by omega, hleft⟩
        · exact ⟨2 * k + 1, hlt, by omega, hright⟩
      obtain ⟨i, hi, rfl, hchild⟩ := hbelow
      obtain ⟨d, hd, j, hj, rfl, hfound⟩ := ih (by omega) hi hchild
      refine ⟨d + 1, by omega, j, ?_, ?_, ?_⟩
      · rwa [show l + (d + 1) = l + 1 + d by omega]
      · rw [Nat.div_div_eq_div_mul, ← pow_succ]
      · rwa [show l + (d + 1) = l + 1 + d by omega]

theorem WellFormed.occupied_of_ne (h : WellFormed t) (hl : l ≤ baseLevel) (hk : k < 2 ^ l)
    (hne : t (node l k) ≠ nodeUnused) : Occupied t l k := by
  obtain ⟨d, hd, j, hj, hdiv, hused⟩ := h.exists_used_below (Nat.add_sub_cancel' hl) hk hne
  have hle : l + d ≤ baseLevel := by omega
  obtain ⟨hstart, hend⟩ := areas_meet (j := j) (k := k) (Nat.le_add_right l d) hle
    (by rw [Nat.add_sub_cancel_left, hdiv])
  exact ⟨l + d, hle, j, hj, hused, hstart, hend⟩

theorem WellFormed.occupied_of_closed (h : WellFormed t) (hclosed : Closed (t (node l k)))
    (hk : k < 2 ^ l) {e : ℕ} (he : l + e ≤ baseLevel) (hj : j < 2 ^ (l + e)) (hdiv : j / 2 ^ e = k) :
    Occupied t (l + e) j := by
  induction e generalizing l k with
  | zero =>
    rw [pow_zero, Nat.div_one] at hdiv
    subst hdiv
    refine h.occupied_of_ne he hj fun hunused => ?_
    rw [Nat.add_zero] at hunused
    rw [hunused] at hclosed
    exact absurd hclosed (by decide)
  | succ e ih =>
    obtain hused | hfull := hclosed
    · obtain ⟨hstart, hend⟩ := areas_meet (j := j) (k := k) (Nat.le_add_right l (e + 1)) he
        (by rw [Nat.add_sub_cancel_left, hdiv])
      exact ⟨l, by omega, k, hk, hused, hend, hstart⟩
    · have hhalf : j / 2 ^ e / 2 = k := by rw [Nat.div_div_eq_div_mul, ← pow_succ, hdiv]
      have hlt : j / 2 ^ e < 2 ^ (l + 1) := by
        rwa [Nat.div_lt_iff_lt_mul (Nat.two_pow_pos _), ← pow_add,
          show l + 1 + e = l + (e + 1) by omega]
      have hbalanced := h.inner l (j / 2 ^ e / 2) (by omega) (half_lt hlt)
      rw [balancedAt_parent, hhalf, hfull] at hbalanced
      rw [show l + (e + 1) = l + 1 + e by omega] at he hj ⊢
      cases hbalanced with
      | full hchild _ => exact ih hchild hlt he hj rfl

/-- Where the search finds nothing, there is no room for an area of the level. -/
theorem WellFormed.occupied_of_take (h : WellFormed t) {d : ℕ} (hd : l + d ≤ baseLevel)
    (hk : k < 2 ^ l) (hnone : take d t l k = none) (hj : j < 2 ^ (l + d)) (hdiv : j / 2 ^ d = k) :
    Occupied t (l + d) j := by
  induction d generalizing l k with
  | zero =>
    rw [pow_zero, Nat.div_one] at hdiv
    subst hdiv
    refine h.occupied_of_ne hd hj fun hunused => ?_
    have hsome := take_isSome_of_unused (t := t) (l := l) (k := j) 0 hunused
    rw [hnone] at hsome
    exact absurd hsome (by decide)
  | succ d ih =>
    have hhalf : j / 2 ^ d / 2 = k := by rw [Nat.div_div_eq_div_mul, ← pow_succ, hdiv]
    have hlt : j / 2 ^ d < 2 ^ (l + 1) := by
      rwa [Nat.div_lt_iff_lt_mul (Nat.two_pow_pos _), ← pow_add,
        show l + 1 + d = l + (d + 1) by omega]
    by_cases hclosed : t (node l k) = nodeUsed ∨ t (node l k) = nodeFull
    · exact h.occupied_of_closed hclosed hk hd hj hdiv
    · have hunused : t (node l k) ≠ nodeUnused := fun hunused => by
        have hsome := take_isSome_of_unused (d + 1) hunused
        rw [hnone] at hsome
        exact absurd hsome (by decide)
      rw [take, if_neg hclosed] at hnone
      simp only [if_neg hunused, Option.or_eq_none_iff] at hnone
      rw [show l + (d + 1) = l + 1 + d by omega] at hd hj ⊢
      refine ih hd hlt ?_ hj rfl
      obtain heven | hodd := Nat.mod_two_eq_zero_or_one (j / 2 ^ d)
      · rw [show j / 2 ^ d = 2 * k by omega]
        exact hnone.1
      · rw [show j / 2 ^ d = 2 * k + 1 by omega]
        exact hnone.2

end Occupied

section Frame

theorem markParent_of_le {i : ℕ} (h : node m i ≤ j) : markParent m t (node m i) j = t j := by
  induction m generalizing t i with
  | zero => rfl
  | succ m ih =>
    have hlt := node_half_lt m i
    rw [markParent, parent_node]
    split
    · rw [ih (by omega), update_of_ne (by omega)]
    · rfl

theorem take_of_le {d i : ℕ} {g : CSimpleBuddy} (hk : k < 2 ^ l) (hfound : take d t l k = some (j, g))
    (hi : 2 ^ (l + d + 1) - 1 ≤ i) : g i = t i := by
  induction d generalizing t l k with
  | zero =>
    rw [take] at hfound
    split at hfound
    · cases hfound
      rfl
    · cases hfound
  | succ d ih =>
    have hlt := child_lt hk
    have hself := node_lt_of_le hk (show l ≤ l + (d + 1) by omega)
    have hleft := node_lt_of_le (show 2 * k < 2 ^ (l + 1) by omega) (show l + 1 ≤ l + (d + 1) by omega)
    have hright := node_lt_of_le hlt (show l + 1 ≤ l + (d + 1) by omega)
    rw [take] at hfound
    split at hfound
    case isTrue => cases hfound
    case isFalse =>
      have hsplit : (if t (node l k) = nodeUnused then split t (node l k) else t) i = t i := by
        split
        · rw [split_node, update_of_ne (by omega), update_of_ne (by omega), update_of_ne (by omega)]
        · rfl
      rw [show l + (d + 1) + 1 = l + 1 + d + 1 by omega] at hi
      obtain hfirst | ⟨-, hsecond⟩ := Option.or_eq_some_iff.mp hfound
      · rw [ih (by omega) hfirst hi, hsplit]
      · rw [ih hlt hsecond hi, hsplit]

theorem buddyAlloc_of_le {i : ℕ} (hr : r ≤ baseLevel) (hi : 2 ^ (baseLevel + 1) - 1 ≤ i) :
    (buddyAlloc t r).2 i = t i := by
  rw [buddyAlloc_eq hr]
  cases hfound : take r t 0 0 with
  | none => rfl
  | some found =>
    obtain ⟨j, g⟩ := found
    have hj := take_lt (by norm_num) hfound
    rw [Nat.zero_add] at hj
    have hnode := node_lt_of_le hj hr
    have hlevel := node_lt_of_le (Nat.two_pow_pos r) hr
    have hpow : 2 ^ (0 + r + 1) ≤ 2 ^ (baseLevel + 1) := Nat.pow_le_pow_right (by omega) (by omega)
    change markParent r (update g (node r j) nodeUsed) (node r j) i = t i
    rw [markParent_of_le (by omega), update_of_ne (by omega),
      take_of_le (by norm_num) hfound (by omega)]

end Frame

section Live

/-- Areas, given by their level and their offset, without a common unit. -/
def Apart (a b : ℕ × ℕ) : Prop :=
  a.2 + width baseLevel a.1 ≤ b.2 ∨ b.2 + width baseLevel b.1 ≤ a.2

/-- What the tree marks as used is what has been allocated. -/
structure Tracks (t : CSimpleBuddy) (live : List (ℕ × ℕ)) : Prop where
  shape : t.WellFormed
  rest : ∀ i, 2 ^ (baseLevel + 1) - 1 ≤ i → t i = nodeUnused
  nodup : live.Nodup
  mem_iff : ∀ level offset, (level, offset) ∈ live ↔
    level ≤ baseLevel ∧ ∃ k < 2 ^ level, offset = start baseLevel level k ∧ Used t level k

variable {live : List (ℕ × ℕ)} {level offset : ℕ}

theorem tracks_new : Tracks new [] :=
  ⟨new_wellFormed, fun _ _ => rfl, .nil, fun level _ =>
    iff_of_false List.not_mem_nil fun h => h.2.elim fun k hk => not_used_new level k hk.2.2⟩

namespace Tracks

variable (h : Tracks t live)

include h

theorem apart {a b : ℕ × ℕ} (ha : a ∈ live) (hb : b ∈ live) (hne : a ≠ b) : Apart a b := by
  obtain ⟨level, offset⟩ := a
  obtain ⟨level', offset'⟩ := b
  obtain ⟨hlevel, k, hk, rfl, hused⟩ := (h.mem_iff level offset).mp ha
  obtain ⟨hlevel', k', hk', rfl, hused'⟩ := (h.mem_iff level' offset').mp hb
  have hnode : ¬(level = level' ∧ k = k') := by
    rintro ⟨rfl, rfl⟩
    exact hne rfl
  obtain hle | hle := Nat.le_total level level'
  · exact h.shape.used_disjoint hle hlevel' hk' hused hused' hnode
  · exact (h.shape.used_disjoint hle hlevel hk hused' hused
      fun heq => hnode ⟨heq.1.symm, heq.2.symm⟩).symm

theorem eq_of_offset {a b : ℕ × ℕ} (ha : a ∈ live) (hb : b ∈ live) (hoffset : a.2 = b.2) : a = b := by
  by_contra hne
  have hapart := h.apart ha hb hne
  have hwidth : 0 < width baseLevel a.1 := width_pos a.1
  have hwidth' : 0 < width baseLevel b.1 := width_pos b.1
  unfold Apart at hapart
  omega

theorem alloc (hlevel : level ≤ baseLevel) (halloc : buddyAlloc t level = (some offset, t')) :
    Tracks t' ((level, offset) :: live) := by
  obtain ⟨hshape, j, hj, rfl, hfree, hused⟩ := h.shape.buddyAlloc_some hlevel halloc
  refine ⟨hshape, fun i hi => ?_, List.nodup_cons.mpr ⟨fun hin => ?_, h.nodup⟩, fun l o => ?_⟩
  · have hsame := buddyAlloc_of_le (t := t) hlevel hi
    rw [halloc] at hsame
    exact hsame.trans (h.rest i hi)
  · obtain ⟨-, k, -, hstart, hmarked⟩ := (h.mem_iff _ _).mp hin
    have hsame : j = k := Nat.eq_of_mul_eq_mul_right (Nat.two_pow_pos (baseLevel - level)) hstart
    exact hfree (hsame ▸ hmarked)
  · rw [List.mem_cons, h.mem_iff, Prod.mk.injEq]
    constructor
    · rintro (⟨rfl, rfl⟩ | ⟨hl, k, hk, rfl, hmarked⟩)
      · exact ⟨hlevel, j, hj, rfl, (hused l j hj).mpr (.inr ⟨rfl, rfl⟩)⟩
      · exact ⟨hl, k, hk, rfl, (hused l k hk).mpr (.inl hmarked)⟩
    · rintro ⟨hl, k, hk, rfl, hmarked⟩
      obtain hold | ⟨rfl, rfl⟩ := (hused l k hk).mp hmarked
      · exact .inr ⟨hl, k, hk, rfl, hold⟩
      · exact .inl ⟨rfl, rfl⟩

theorem free (hin : (level, offset) ∈ live) :
    ∃ t', buddyFree t offset = some t' ∧ Tracks t' (live.filter fun area => area.2 ≠ offset) := by
  obtain ⟨hlevel, j, hj, rfl, hmarked⟩ := (h.mem_iff level offset).mp hin
  obtain ⟨t', hfree, hshape, hused⟩ := h.shape.buddyFree_used hlevel hj hmarked
  refine ⟨t', hfree, hshape, fun i hi => ?_, h.nodup.filter _, fun l o => ?_⟩
  · rw [buddyFree_of_le (start_lt hj hlevel) hfree hi, h.rest i hi]
  · rw [List.mem_filter, h.mem_iff, decide_eq_true_eq]
    constructor
    · rintro ⟨⟨hl, k, hk, rfl, hold⟩, hne⟩
      refine ⟨hl, k, hk, rfl, (hused l k hk).mpr ⟨hold, ?_⟩⟩
      rintro ⟨rfl, rfl⟩
      exact hne rfl
    · rintro ⟨hl, k, hk, rfl, hnew⟩
      obtain ⟨hold, hne⟩ := (hused l k hk).mp hnew
      refine ⟨⟨hl, k, hk, rfl, hold⟩, fun hsame => hne ?_⟩
      have hother := (h.mem_iff l _).mpr ⟨hl, k, hk, rfl, hold⟩
      obtain ⟨rfl, hstart⟩ := Prod.mk.inj (h.eq_of_offset hother hin hsame)
      exact ⟨rfl, Nat.eq_of_mul_eq_mul_right (Nat.two_pow_pos (baseLevel - l)) hstart⟩

/-- An area is found unless each of the level has a unit in common with one that is held. -/
theorem alloc_none_iff (hlevel : level ≤ baseLevel) : (buddyAlloc t level).1 = none ↔
    ¬∃ k < 2 ^ level, ∀ a ∈ live, Apart a (level, start baseLevel level k) := by
  constructor
  · rintro hnone ⟨j, hj, hfree⟩
    have htake : take level t 0 0 = none := by
      rw [buddyAlloc_eq hlevel] at hnone
      cases hfound : take level t 0 0 with
      | none => rfl
      | some found =>
        rw [hfound] at hnone
        cases hnone
    have hoccupied := h.shape.occupied_of_take (j := j) (by omega) (by norm_num) htake
      (by rwa [Nat.zero_add]) (Nat.div_eq_of_lt hj)
    rw [Nat.zero_add] at hoccupied
    obtain ⟨l, hl, k, hk, hused, hmeet⟩ := hoccupied
    have hapart := hfree _ ((h.mem_iff l _).mpr ⟨hl, k, hk, rfl, hused⟩)
    simp only [Apart] at hapart
    omega
  · intro hfull
    cases halloc : buddyAlloc t level with
    | mk place t' =>
      cases place with
      | none => rfl
      | some offset =>
        have hnext := h.alloc hlevel halloc
        obtain ⟨j, hj, rfl⟩ := buddyAlloc_start hlevel halloc
        refine absurd ⟨j, hj, fun a ha => ?_⟩ hfull
        refine hnext.apart (List.mem_cons_of_mem _ ha) List.mem_cons_self fun heq => ?_
        exact (List.nodup_cons.mp hnext.nodup).1 (heq ▸ ha)

theorem inside {a : ℕ × ℕ} (ha : a ∈ live) : a.1 ≤ baseLevel ∧ width baseLevel a.1 ∣ a.2 ∧
    a.2 + width baseLevel a.1 ≤ 2 ^ baseLevel := by
  obtain ⟨level, offset⟩ := a
  obtain ⟨hlevel, k, hk, rfl, -⟩ := (h.mem_iff level offset).mp ha
  exact ⟨hlevel, Nat.dvd_mul_left _ _, start_add_width_le hk hlevel⟩

theorem eq_new (hempty : live = []) : t = new := by
  subst hempty
  funext i
  by_cases hi : i < 2 ^ (baseLevel + 1) - 1
  · obtain ⟨l, hl, k, hk, rfl⟩ := exists_node hi
    by_contra hne
    obtain ⟨d, hd, j, hj, -, hused⟩ := h.shape.exists_used_below (Nat.add_sub_cancel' hl) hk hne
    exact absurd ((h.mem_iff (l + d) _).mpr ⟨by omega, j, hj, rfl, hused⟩) List.not_mem_nil
  · exact h.rest i (by omega)

end Tracks

end Live

section Listing

theorem getNotEmptyIndexes_eq (t : CSimpleBuddy) (level : ℕ) : getNotEmptyIndexes t level =
    ((List.range (2 ^ level)).filter fun k => t (node level k) = nodeUsed).map
      (start baseLevel level) := by
  rw [getNotEmptyIndexes, List.range'_eq_map_range, List.filter_map, List.map_map]
  refine congrArg₂ List.map (funext fun k => ?_) rfl
  exact indexOffset_node

theorem mem_getNotEmptyIndexes {level offset : ℕ} : offset ∈ getNotEmptyIndexes t level ↔
    ∃ k < 2 ^ level, offset = start baseLevel level k ∧ Used t level k := by
  rw [getNotEmptyIndexes_eq, List.mem_map]
  simp only [List.mem_filter, List.mem_range, decide_eq_true_eq]
  constructor
  · rintro ⟨k, ⟨hk, hused⟩, rfl⟩
    exact ⟨k, hk, rfl, hused⟩
  · rintro ⟨k, hk, rfl, hused⟩
    exact ⟨k, ⟨hk, hused⟩, rfl⟩

theorem nodup_getNotEmptyIndexes (t : CSimpleBuddy) (level : ℕ) :
    (getNotEmptyIndexes t level).Nodup := by
  rw [getNotEmptyIndexes_eq]
  refine (List.nodup_range.filter _).map fun k k' hsame => ?_
  exact Nat.eq_of_mul_eq_mul_right (Nat.two_pow_pos (baseLevel - level)) hsame

/-- What `getNotEmptyIndexes` lists for the given levels, with the level. -/
def notEmptyAreas (t : CSimpleBuddy) (levels : List ℕ) : List (ℕ × ℕ) :=
  levels.flatMap fun level => (t.getNotEmptyIndexes level).map fun offset => (level, offset)

theorem nodup_notEmptyAreas (t : CSimpleBuddy) {levels : List ℕ} (hlevels : levels.Nodup) :
    (notEmptyAreas t levels).Nodup := by
  refine List.nodup_flatMap.mpr ⟨fun level _ => ?_, hlevels.imp fun {l l'} hne => ?_⟩
  · exact (nodup_getNotEmptyIndexes t level).map fun _ _ hsame => (Prod.mk.inj hsame).2
  · intro a ha ha'
    obtain ⟨_, -, rfl⟩ := List.mem_map.mp ha
    obtain ⟨_, -, heq⟩ := List.mem_map.mp ha'
    exact hne (Prod.mk.inj heq).1.symm

theorem mem_notEmptyAreas {levels : List ℕ} {a : ℕ × ℕ} : a ∈ notEmptyAreas t levels ↔
    a.1 ∈ levels ∧ ∃ k < 2 ^ a.1, a.2 = start baseLevel a.1 k ∧ Used t a.1 k := by
  obtain ⟨level, offset⟩ := a
  rw [notEmptyAreas, List.mem_flatMap, ← mem_getNotEmptyIndexes]
  constructor
  · rintro ⟨l, hl, ha⟩
    obtain ⟨o, ho, heq⟩ := List.mem_map.mp ha
    obtain ⟨rfl, rfl⟩ := Prod.mk.inj heq
    exact ⟨hl, ho⟩
  · rintro ⟨hl, ho⟩
    exact ⟨level, hl, List.mem_map.mpr ⟨offset, ho, rfl⟩⟩

theorem Tracks.notEmptyAreas_perm {live : List (ℕ × ℕ)} (h : Tracks t live) :
    (notEmptyAreas t (List.range (baseLevel + 1))).Perm live := by
  refine (List.perm_ext_iff_of_nodup (nodup_notEmptyAreas t List.nodup_range) h.nodup).mpr
    fun a => ?_
  rw [mem_notEmptyAreas, List.mem_range, Nat.lt_succ_iff]
  exact (h.mem_iff a.1 a.2).symm

end Listing

section Runs

/-- A tree, with the levels and the offsets that `buddyAlloc` has returned. -/
structure Allocations where
  tree : CSimpleBuddy
  live : List (ℕ × ℕ)

inductive BuddyCall
  | alloc (level : ℕ)
  | free (offset : ℕ)

namespace Allocations

def init : Allocations := ⟨.new, []⟩

/-- The state after a call; none when a release leaves the tree. -/
def call (s : Allocations) : BuddyCall → Option Allocations
  | .alloc level =>
    match s.tree.buddyAlloc level with
    | (some offset, tree) => some ⟨tree, (level, offset) :: s.live⟩
    | (none, tree) => some { s with tree := tree }
  | .free offset => (s.tree.buddyFree offset).map fun tree =>
      ⟨tree, s.live.filter fun area => area.2 ≠ offset⟩

def step (s : Option Allocations) (c : BuddyCall) : Option Allocations := s.bind fun s => s.call c

/-- The levels are those of the tree, and what is released has been returned. -/
def Admissible (s : Option Allocations) : BuddyCall → Prop
  | .alloc level => level ≤ baseLevel
  | .free offset => ∃ allocations, s = some allocations ∧
      ∃ area ∈ allocations.live, area.2 = offset

/-- Allocations lie in the block, are aligned to their size and have no unit in common, a level
is refused if and only if no area of it is free, all levels together list the allocations, and
without them the tree is that of an empty block. -/
structure Correct (s : Allocations) : Prop where
  inside : ∀ a ∈ s.live, a.1 ≤ baseLevel ∧ width baseLevel a.1 ∣ a.2 ∧
    a.2 + width baseLevel a.1 ≤ 2 ^ baseLevel
  disjoint : s.live.Pairwise Apart
  exact : ∀ level ≤ baseLevel, (s.tree.buddyAlloc level).1 = none ↔
    ¬∃ k < 2 ^ level, ∀ a ∈ s.live, Apart a (level, start baseLevel level k)
  listed : (notEmptyAreas s.tree (List.range (baseLevel + 1))).Perm s.live
  empty : s.live = [] → s.tree = .new

theorem correct_of_tracks {s : Allocations} (h : Tracks s.tree s.live) : s.Correct where
  inside _ := h.inside
  disjoint := h.nodup.imp_of_mem fun ha hb hne => h.apart ha hb hne
  exact _ := h.alloc_none_iff
  listed := h.notEmptyAreas_perm
  empty := h.eq_new

theorem step_tracks (s : Option Allocations) (c : BuddyCall)
    (h : ∃ allocations, s = some allocations ∧ Tracks allocations.tree allocations.live)
    (hc : Admissible s c) :
    ∃ allocations, step s c = some allocations ∧ Tracks allocations.tree allocations.live := by
  obtain ⟨s, rfl, htracks⟩ := h
  cases c with
  | alloc level =>
    rw [step, Option.bind_some, call]
    cases halloc : s.tree.buddyAlloc level with
    | mk place tree =>
      cases place with
      | some offset => exact ⟨_, rfl, htracks.alloc hc halloc⟩
      | none =>
        obtain rfl := buddyAlloc_none hc halloc
        exact ⟨s, rfl, htracks⟩
  | free offset =>
    obtain ⟨_, heq, ⟨level, _⟩, hin, rfl⟩ := hc
    cases heq
    obtain ⟨tree, hfree, hnext⟩ := htracks.free hin
    refine ⟨⟨tree, _⟩, ?_, hnext⟩
    rw [step, Option.bind_some, call, hfree]
    rfl

/-- Whatever is allocated and released in whatever order, the allocator is correct. -/
theorem run_correct (calls : List BuddyCall)
    (hcalls : GuardedRun.Guarded step Admissible (some init) calls) :
    ∃ s, GuardedRun.run step (some init) calls = some s ∧ s.Correct := by
  obtain ⟨s, hrun, htracks⟩ := hcalls.invariant step_tracks ⟨init, rfl, tracks_new⟩
  exact ⟨s, hrun, correct_of_tracks htracks⟩

/-- A small area, half of the block, and the small area is given back. -/
theorem release_correct : ∃ s, GuardedRun.run step (some init)
    [.alloc 12, .alloc 1, .free 0] = some s ∧ s.Correct :=
  run_correct _ ⟨show 12 ≤ baseLevel by decide, show 1 ≤ baseLevel by decide,
    ⟨_, rfl, (12, 0), List.mem_cons_of_mem _ List.mem_cons_self, rfl⟩, trivial⟩

end Allocations

end Runs

end Dims.CSimpleBuddy
