import Mathlib.Data.Nat.Basic
import Mathlib.Tactic.Ring
import Mathlib.Tactic.Linarith

/-!
# Complete binary trees in an array

The node `k` of level `l` is stored at `2 ^ l - 1 + k`. Over a line of `2 ^ height`
units it stands for the aligned interval of `2 ^ (height - l)` units that begins
at `k * 2 ^ (height - l)`.
-/

namespace Dims.HeapTree

def node (l k : ℕ) : ℕ := 2 ^ l - 1 + k

@[simp] theorem node_zero : node 0 0 = 0 := rfl

theorem node_add_one (l k : ℕ) : node l k + 1 = 2 ^ l + k := by
  have hpos := Nat.two_pow_pos l
  unfold node
  omega

theorem left_node (l k : ℕ) : 2 * node l k + 1 = node (l + 1) (2 * k) := by
  have hnode := node_add_one l k
  have hchild := node_add_one (l + 1) (2 * k)
  rw [pow_succ] at hchild
  omega

theorem right_node (l k : ℕ) : 2 * node l k + 2 = node (l + 1) (2 * k + 1) := by
  have hnode := node_add_one l k
  have hchild := node_add_one (l + 1) (2 * k + 1)
  rw [pow_succ] at hchild
  omega

theorem parent_node (l k : ℕ) : (node (l + 1) k + 1) / 2 - 1 = node l (k / 2) := by
  have hnode := node_add_one l (k / 2)
  rw [node_add_one, pow_succ]
  omega

theorem node_mod_two (l k : ℕ) : node (l + 1) k % 2 = 1 ↔ k % 2 = 0 := by
  have hnode := node_add_one (l + 1) k
  rw [pow_succ] at hnode
  omega

theorem node_lt {l k : ℕ} (hk : k < 2 ^ l) : node l k < 2 ^ (l + 1) - 1 := by
  have hnode := node_add_one l k
  have hpow : 2 ^ (l + 1) = 2 ^ l + 2 ^ l := by rw [pow_succ]; omega
  omega

theorem node_lt_of_le {l k h : ℕ} (hk : k < 2 ^ l) (hl : l ≤ h) : node l k < 2 ^ (h + 1) - 1 := by
  have hlt := node_lt hk
  have hle : 2 ^ (l + 1) ≤ 2 ^ (h + 1) := Nat.pow_le_pow_right (by omega) (by omega)
  omega

theorem exists_node {i h : ℕ} (hi : i < 2 ^ (h + 1) - 1) : ∃ l ≤ h, ∃ k < 2 ^ l, i = node l k := by
  induction h with
  | zero => exact ⟨0, le_rfl, 0, Nat.one_pos, by simpa using hi⟩
  | succ h ih =>
    by_cases hbelow : i < 2 ^ (h + 1) - 1
    · obtain ⟨l, hl, hnode⟩ := ih hbelow
      exact ⟨l, hl.trans h.le_succ, hnode⟩
    · refine ⟨h + 1, le_rfl, i - (2 ^ (h + 1) - 1), ?_, ?_⟩
      · rw [pow_succ] at hi
        omega
      · unfold node
        omega

theorem node_injective {l k m j : ℕ} (hk : k < 2 ^ l) (hj : j < 2 ^ m)
    (h : node l k = node m j) : l = m ∧ k = j := by
  have hl := node_add_one l k
  have hm := node_add_one m j
  have hlevel : l = m := by
    rcases lt_trichotomy l m with hlt | heq | hlt
    · have hle : 2 ^ (l + 1) ≤ 2 ^ m := Nat.pow_le_pow_right (by omega) hlt
      rw [pow_succ] at hle
      omega
    · exact heq
    · have hle : 2 ^ (m + 1) ≤ 2 ^ l := Nat.pow_le_pow_right (by omega) hlt
      rw [pow_succ] at hle
      omega
  subst hlevel
  exact ⟨rfl, by omega⟩

theorem child_lt {l k : ℕ} (hk : k < 2 ^ l) : 2 * k + 1 < 2 ^ (l + 1) := by
  rw [pow_succ]
  omega

theorem half_lt {l k : ℕ} (hk : k < 2 ^ (l + 1)) : k / 2 < 2 ^ l := by
  rw [pow_succ] at hk
  omega

/-- A property that passes to both children passes to all nodes below. -/
theorem descend {P : ℕ → ℕ → Prop} (height : ℕ)
    (hchildren : ∀ l k, l < height → k < 2 ^ l → P l k → P (l + 1) (2 * k) ∧ P (l + 1) (2 * k + 1))
    {l k : ℕ} (hk : k < 2 ^ l) (h : P l k) (d : ℕ) (hd : l + d ≤ height) {j : ℕ}
    (hj : j / 2 ^ d = k) : P (l + d) j := by
  induction d generalizing j with
  | zero =>
    rw [pow_zero, Nat.div_one] at hj
    rwa [hj]
  | succ d ih =>
    have hparent : j / 2 / 2 ^ d = k := by
      rw [Nat.div_div_eq_div_mul, ← pow_succ', hj]
    have hrange : j / 2 < 2 ^ (l + d) := by
      rw [← hparent, Nat.div_lt_iff_lt_mul (Nat.two_pow_pos d), ← pow_add] at hk
      exact hk
    rcases hchildren (l + d) (j / 2) (by omega) hrange (ih (by omega) hparent) with ⟨hleft, hright⟩
    rcases Nat.mod_two_eq_zero_or_one j with heven | hodd
    · rwa [show 2 * (j / 2) = j by omega] at hleft
    · rwa [show 2 * (j / 2) + 1 = j by omega] at hright

section Areas

variable (height : ℕ)

def start (l k : ℕ) : ℕ := k * 2 ^ (height - l)

def width (l : ℕ) : ℕ := 2 ^ (height - l)

variable {height}

theorem width_eq_mul {l m : ℕ} (hlm : l ≤ m) (hm : m ≤ height) :
    width height l = 2 ^ (m - l) * width height m := by
  rw [width, width, ← pow_add]
  congr 1
  omega

theorem start_eq_mul {l m k : ℕ} (hlm : l ≤ m) (hm : m ≤ height) :
    start height l k = k * 2 ^ (m - l) * width height m := by
  rw [start, mul_assoc, ← width_eq_mul hlm hm, width]

theorem areas_disjoint {l m k j : ℕ} (hlm : l ≤ m) (hm : m ≤ height)
    (h : j / 2 ^ (m - l) ≠ k) :
    start height l k + width height l ≤ start height m j ∨
      start height m j + width height m ≤ start height l k := by
  have hwidth := width_eq_mul hlm hm
  have hstart := start_eq_mul (k := k) hlm hm
  have hdiv := Nat.div_add_mod j (2 ^ (m - l))
  have hmod := Nat.mod_lt j (Nat.two_pow_pos (m - l))
  rcases Nat.lt_or_gt_of_ne h with hlt | hgt
  · right
    have hle : j + 1 ≤ k * 2 ^ (m - l) := by
      have hmul : (j / 2 ^ (m - l) + 1) * 2 ^ (m - l) ≤ k * 2 ^ (m - l) :=
        Nat.mul_le_mul_right _ hlt
      linarith
    calc start height m j + width height m = (j + 1) * width height m := by
          rw [start, width]; ring
      _ ≤ k * 2 ^ (m - l) * width height m := Nat.mul_le_mul_right _ hle
      _ = start height l k := hstart.symm
  · left
    have hle : (k + 1) * 2 ^ (m - l) ≤ j := by
      have hmul : (k + 1) * 2 ^ (m - l) ≤ j / 2 ^ (m - l) * 2 ^ (m - l) :=
        Nat.mul_le_mul_right _ hgt
      exact hmul.trans (Nat.div_mul_le_self j _)
    calc start height l k + width height l = (k + 1) * 2 ^ (m - l) * width height m := by
          rw [hstart, hwidth]; ring
      _ ≤ j * width height m := Nat.mul_le_mul_right _ hle
      _ = start height m j := rfl

theorem area_within {l m k j : ℕ} (hlm : l ≤ m) (hm : m ≤ height) (h : j / 2 ^ (m - l) = k) :
    start height l k ≤ start height m j ∧
      start height m j + width height m ≤ start height l k + width height l := by
  have hwidth := width_eq_mul hlm hm
  have hstart := start_eq_mul (k := k) hlm hm
  have hle : k * 2 ^ (m - l) ≤ j := h ▸ Nat.div_mul_le_self j _
  have hlt : j + 1 ≤ (k + 1) * 2 ^ (m - l) := by
    have hdiv := Nat.div_add_mod j (2 ^ (m - l))
    have hmod := Nat.mod_lt j (Nat.two_pow_pos (m - l))
    rw [h] at hdiv
    linarith
  constructor
  · rw [hstart]
    exact Nat.mul_le_mul_right _ hle
  · calc start height m j + width height m = (j + 1) * width height m := by
          rw [start, width]; ring
      _ ≤ (k + 1) * 2 ^ (m - l) * width height m := Nat.mul_le_mul_right _ hlt
      _ = start height l k + width height l := by rw [hstart, hwidth]; ring

theorem width_pos (l : ℕ) : 0 < width height l := Nat.two_pow_pos _

theorem areas_meet {l m k j : ℕ} (hlm : l ≤ m) (hm : m ≤ height) (h : j / 2 ^ (m - l) = k) :
    start height m j < start height l k + width height l ∧
      start height l k < start height m j + width height m := by
  obtain ⟨hstart, hend⟩ := area_within hlm hm h
  have hpos : 0 < width height m := width_pos m
  omega

theorem start_add_width_le {l k : ℕ} (hk : k < 2 ^ l) (hl : l ≤ height) :
    start height l k + width height l ≤ 2 ^ height := by
  calc start height l k + width height l = (k + 1) * 2 ^ (height - l) := by
        rw [start, width]; ring
    _ ≤ 2 ^ l * 2 ^ (height - l) := Nat.mul_le_mul_right _ hk
    _ = 2 ^ height := by
        rw [← pow_add]
        congr 1
        omega

theorem start_lt {l k : ℕ} (hk : k < 2 ^ l) (hl : l ≤ height) : start height l k < 2 ^ height :=
  (Nat.lt_add_of_pos_right (Nat.two_pow_pos _)).trans_le (start_add_width_le hk hl)

end Areas

end Dims.HeapTree
