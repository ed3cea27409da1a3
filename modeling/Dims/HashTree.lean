import Mathlib.Data.List.Basic
import Mathlib.Data.List.Infix
import Mathlib.Tactic.Common
import Mathlib.Tactic.Ring

/-!
# Trees of hashes

A binary tree over a row of leaves, each node the combination of its children. A node
without a right child is combined from its left child twice. A tree can be pruned to the
paths that lead to some of its leaves, and what is left written as bits and hashes. These
tell the root, and whoever knows the root of the whole tree can trust the leaves that they
tell, unless two different pairs that were combined have one combination.
-/

namespace Dims.HashTree

universe u

variable {α : Type u}

/-- The number of nodes at a height over `n` leaves, which are at height 0. -/
def width (n h : ℕ) : ℕ := (n + 2 ^ h - 1) / 2 ^ h

theorem lt_width_iff {n h pos : ℕ} : pos < width n h ↔ pos * 2 ^ h < n := by
  have hpos : 0 < 2 ^ h := Nat.two_pow_pos h
  rw [width, ← Nat.succ_le_iff, Nat.le_div_iff_mul_le hpos, Nat.succ_mul]
  omega

theorem left_lt_width {n h pos : ℕ} : pos * 2 < width n h ↔ pos < width n (h + 1) := by
  rw [lt_width_iff, lt_width_iff, pow_succ', ← Nat.mul_assoc]

theorem width_succ (n h : ℕ) : width n (h + 1) = (width n h + 1) / 2 := by
  apply eq_of_forall_lt_iff
  intro pos
  rw [← left_lt_width]
  omega

section Full

variable (combine : α → α → α) (n : ℕ) (leaf : ℕ → α)

def node : ℕ → ℕ → α
  | 0, pos => leaf pos
  | h + 1, pos =>
    combine (node h (pos * 2))
      (if pos * 2 + 1 < width n h then node h (pos * 2 + 1) else node h (pos * 2))

def nodePairs : ℕ → ℕ → List (α × α)
  | 0, _ => []
  | h + 1, pos =>
    (node combine n leaf h (pos * 2),
        if pos * 2 + 1 < width n h then node combine n leaf h (pos * 2 + 1)
        else node combine n leaf h (pos * 2)) ::
      (nodePairs h (pos * 2) ++ if pos * 2 + 1 < width n h then nodePairs h (pos * 2 + 1) else [])

/-- The positions of the leaves under a node. -/
def under (n : ℕ) : ℕ → ℕ → List ℕ
  | 0, pos => [pos]
  | h + 1, pos =>
    under n h (pos * 2) ++ if pos * 2 + 1 < width n h then under n h (pos * 2 + 1) else []

theorem under_eq {n h pos : ℕ} (hpos : pos < width n h) :
    under n h pos = List.range' (pos * 2 ^ h) (min (2 ^ h) (n - pos * 2 ^ h)) := by
  induction h generalizing pos with
  | zero =>
    rw [lt_width_iff, pow_zero, Nat.mul_one] at hpos
    rw [pow_zero, Nat.mul_one, Nat.min_eq_left (by omega)]
    rfl
  | succ h ih =>
    have hleft : pos * 2 < width n h := left_lt_width.mpr hpos
    have hstart : pos * 2 ^ (h + 1) = pos * 2 * 2 ^ h := by ring
    have hmid : (pos * 2 + 1) * 2 ^ h = pos * 2 * 2 ^ h + 2 ^ h := by ring
    rw [under, ih hleft, hstart, pow_succ]
    split
    case isTrue hright =>
      rw [ih hright, hmid]
      rw [lt_width_iff, hmid] at hright
      rw [Nat.min_eq_left (by omega), List.range'_append_1]
      congr 1
      omega
    case isFalse hright =>
      rw [lt_width_iff, hmid] at hright
      rw [List.append_nil]
      congr 1
      omega

theorem one_le_length_under (h pos : ℕ) : 1 ≤ (under n h pos).length := by
  induction h generalizing pos with
  | zero => simp [under]
  | succ h ih =>
    rw [under, List.length_append]
    exact le_trans (ih _) (Nat.le_add_right _ _)

end Full

/-- What is left of a tree: a node that is not descended from, a leaf that is asked for, and
nodes with two children and with one. -/
inductive Pruned (α : Type u)
  | stop (hash : α)
  | hit (hash : α)
  | fork (left right : Pruned α)
  | lone (left : Pruned α)
  deriving DecidableEq, Repr

namespace Pruned

/-- The tree fits the row of leaves, with its root at the node. -/
def Shape (n : ℕ) : ℕ → ℕ → Pruned α → Prop
  | _, _, .stop _ => True
  | 0, _, .hit _ => True
  | h + 1, pos, .fork left right =>
    pos * 2 + 1 < width n h ∧ Shape n h (pos * 2) left ∧ Shape n h (pos * 2 + 1) right
  | h + 1, pos, .lone left => ¬ pos * 2 + 1 < width n h ∧ Shape n h (pos * 2) left
  | _, _, _ => False

def bits : Pruned α → List Bool
  | .stop _ => [false]
  | .hit _ => [true]
  | .fork left right => true :: (left.bits ++ right.bits)
  | .lone left => true :: left.bits

def hashes : Pruned α → List α
  | .stop hash => [hash]
  | .hit hash => [hash]
  | .fork left right => left.hashes ++ right.hashes
  | .lone left => left.hashes

/-- The leaves that were asked for. -/
def hits : Pruned α → List α
  | .stop _ => []
  | .hit hash => [hash]
  | .fork left right => left.hits ++ right.hits
  | .lone left => left.hits

variable (combine : α → α → α)

def root : Pruned α → α
  | .stop hash => hash
  | .hit hash => hash
  | .fork left right => combine left.root right.root
  | .lone left => combine left.root left.root

def pairs : Pruned α → List (α × α)
  | .stop _ => []
  | .hit _ => []
  | .fork left right => (left.root combine, right.root combine) :: (left.pairs ++ right.pairs)
  | .lone left => (left.root combine, left.root combine) :: left.pairs

theorem length_hashes_le (t : Pruned α) : t.hashes.length ≤ t.bits.length := by
  induction t with
  | stop hash => simp [hashes, bits]
  | hit hash => simp [hashes, bits]
  | fork left right ihl ihr =>
    simp only [hashes, bits, List.length_append, List.length_cons]
    omega
  | lone left ih =>
    simp only [hashes, bits, List.length_cons]
    omega

/-- Each hash stands for leaves of its own. -/
theorem length_hashes_le_under {n h pos : ℕ} (t : Pruned α) (hshape : Shape n h pos t) :
    t.hashes.length ≤ (under n h pos).length := by
  induction t generalizing h pos with
  | stop hash =>
    exact one_le_length_under n h pos
  | hit hash =>
    cases h with
    | zero => simp [hashes, under]
    | succ h => exact hshape.elim
  | fork left right ihl ihr =>
    cases h with
    | zero => exact hshape.elim
    | succ h =>
      obtain ⟨hright, hl, hr⟩ := hshape
      have := ihl hl
      have := ihr hr
      simp only [hashes, under, hright, if_true, List.length_append]
      omega
  | lone left ih =>
    cases h with
    | zero => exact hshape.elim
    | succ h =>
      obtain ⟨hright, hl⟩ := hshape
      simpa [hashes, under, hright] using ih hl

theorem length_bits_lt {n h pos : ℕ} (t : Pruned α) (hshape : Shape n h pos t) :
    t.bits.length < 2 ^ (h + 1) := by
  induction t generalizing h pos with
  | stop hash =>
    have := Nat.two_pow_pos h
    simp only [bits, List.length_singleton, pow_succ]
    omega
  | hit hash =>
    have := Nat.two_pow_pos h
    simp only [bits, List.length_singleton, pow_succ]
    omega
  | fork left right ihl ihr =>
    cases h with
    | zero => exact hshape.elim
    | succ h =>
      have := ihl hshape.2.1
      have := ihr hshape.2.2
      rw [pow_succ]
      simp only [bits, List.length_cons, List.length_append]
      omega
  | lone left ih =>
    cases h with
    | zero => exact hshape.elim
    | succ h =>
      have := ih hshape.2
      rw [pow_succ]
      simp only [bits, List.length_cons]
      omega

section Parse

/-- The tree that bits and hashes begin with. -/
def parse (n : ℕ) : ℕ → ℕ → List Bool → List α → Option (Pruned α × List Bool × List α)
  | 0, _, isMatch :: bits, hash :: hashes =>
    some (if isMatch then .hit hash else .stop hash, bits, hashes)
  | _ + 1, _, false :: bits, hash :: hashes => some (.stop hash, bits, hashes)
  | h + 1, pos, true :: bits, hashes =>
    (parse n h (pos * 2) bits hashes).bind fun left =>
      if pos * 2 + 1 < width n h then
        (parse n h (pos * 2 + 1) left.2.1 left.2.2).map fun right =>
          (.fork left.1 right.1, right.2)
      else some (.lone left.1, left.2)
  | _, _, _, _ => none

variable {n : ℕ}

/-- What is parsed is exactly what is written. -/
theorem parse_eq_some_iff {h pos : ℕ} {bits bits' : List Bool} {hashes hashes' : List α}
    {t : Pruned α} :
    parse n h pos bits hashes = some (t, bits', hashes') ↔
      Shape n h pos t ∧ bits = t.bits ++ bits' ∧ hashes = t.hashes ++ hashes' := by
  induction h generalizing pos bits bits' hashes hashes' t with
  | zero =>
    cases bits with
    | nil => cases t <;> simp [parse, Pruned.bits]
    | cons isMatch bits =>
      cases hashes with
      | nil => cases t <;> simp [parse, Pruned.hashes, Shape]
      | cons hash hashes =>
        cases isMatch <;> cases t <;> simp [parse, Shape, Pruned.bits, Pruned.hashes]
        all_goals grind
  | succ h ih =>
    cases bits with
    | nil => cases t <;> simp [parse, Pruned.bits]
    | cons isMatch bits =>
      cases isMatch with
      | false =>
        cases hashes with
        | nil => cases t <;> simp [parse, Pruned.bits, Pruned.hashes]
        | cons hash hashes =>
          cases t <;> simp [parse, Shape, Pruned.bits, Pruned.hashes]
          all_goals grind
      | true =>
        by_cases hright : pos * 2 + 1 < width n h
        · simp only [parse, hright, if_true, Option.bind_eq_some_iff, Option.map_eq_some_iff]
          constructor
          · rintro ⟨⟨left, lbits, lhashes⟩, hleft, ⟨right, rbits, rhashes⟩, hparsed, heq⟩
            cases heq
            obtain ⟨hl, rfl, rfl⟩ := ih.mp hleft
            obtain ⟨hr, rfl, rfl⟩ := ih.mp hparsed
            exact ⟨⟨hright, hl, hr⟩, by simp [Pruned.bits], by simp [Pruned.hashes]⟩
          · cases t with
            | stop hash => simp [Pruned.bits]
            | hit hash => simp [Shape]
            | lone left => simp [Shape, hright]
            | fork left right =>
              rintro ⟨⟨-, hl, hr⟩, hbits, rfl⟩
              simp only [Pruned.bits, List.cons_append, List.append_assoc, List.cons.injEq,
                true_and] at hbits
              subst hbits
              exact ⟨(left, right.bits ++ bits', right.hashes ++ hashes'),
                ih.mpr ⟨hl, rfl, by simp [Pruned.hashes]⟩, (right, bits', hashes'),
                ih.mpr ⟨hr, rfl, rfl⟩, rfl⟩
        · simp only [parse, hright, if_false, Option.bind_eq_some_iff, Option.some.injEq]
          constructor
          · rintro ⟨⟨left, lbits, lhashes⟩, hleft, heq⟩
            cases heq
            obtain ⟨hl, rfl, rfl⟩ := ih.mp hleft
            exact ⟨⟨hright, hl⟩, by simp [Pruned.bits], by simp [Pruned.hashes]⟩
          · cases t with
            | stop hash => simp [Pruned.bits]
            | hit hash => simp [Shape]
            | fork left right => simp [Shape, hright]
            | lone left =>
              rintro ⟨⟨-, hl⟩, hbits, rfl⟩
              simp only [Pruned.bits, List.cons_append, List.cons.injEq, true_and] at hbits
              subst hbits
              exact ⟨(left, bits', hashes'), ih.mpr ⟨hl, rfl, rfl⟩, rfl⟩

end Parse

section Prune

variable (n : ℕ) (leaf : ℕ → α) (isMatch : ℕ → Bool)

/-- The whole tree, pruned to the paths that lead to the leaves asked for. -/
def prune : ℕ → ℕ → Pruned α
  | 0, pos => if isMatch pos then .hit (leaf pos) else .stop (leaf pos)
  | h + 1, pos =>
    if (under n (h + 1) pos).any isMatch then
      if pos * 2 + 1 < width n h then .fork (prune h (pos * 2)) (prune h (pos * 2 + 1))
      else .lone (prune h (pos * 2))
    else .stop (node combine n leaf (h + 1) pos)

variable {combine n leaf isMatch}

theorem shape_prune (h pos : ℕ) : Shape n h pos (prune combine n leaf isMatch h pos) := by
  induction h generalizing pos with
  | zero =>
    rw [prune]
    split <;> trivial
  | succ h ih =>
    rw [prune]
    split
    · split
      case isTrue hright => exact ⟨hright, ih _, ih _⟩
      case isFalse hright => exact ⟨hright, ih _⟩
    · trivial

theorem root_prune (h pos : ℕ) :
    (prune combine n leaf isMatch h pos).root combine = node combine n leaf h pos := by
  induction h generalizing pos with
  | zero =>
    rw [prune]
    split <;> rfl
  | succ h ih =>
    rw [prune]
    split
    · rw [node]
      split
      · rw [root, ih, ih]
      · rw [root, ih]
    · rfl

/-- What is left shows the leaves asked for, in their order. -/
theorem hits_prune (h pos : ℕ) :
    (prune combine n leaf isMatch h pos).hits = ((under n h pos).filter isMatch).map leaf := by
  induction h generalizing pos with
  | zero =>
    rw [prune, under]
    split
    case isTrue hmatch => simp [hits, hmatch]
    case isFalse hmatch => simp [hits, hmatch]
  | succ h ih =>
    rw [prune]
    split
    case isTrue =>
      rw [under]
      split
      · rw [hits, ih, ih, List.filter_append, List.map_append]
      · rw [hits, ih, List.append_nil]
    case isFalse hnone =>
      rw [List.any_eq_true] at hnone
      have hfilter : (under n (h + 1) pos).filter isMatch = [] :=
        List.filter_eq_nil_iff.mpr fun p hp hmatch => hnone ⟨p, hp, hmatch⟩
      rw [hfilter]
      rfl

end Prune

section Binding

variable {combine} {n : ℕ} {leaf : ℕ → α}

/-- Two different pairs, one combined here and one there, have one combination. -/
def Collision (combine : α → α → α) (here there : List (α × α)) : Prop :=
  ∃ p ∈ here, ∃ q ∈ there, p ≠ q ∧ combine p.1 p.2 = combine q.1 q.2

theorem Collision.mono {here here' there there' : List (α × α)} (h : Collision combine here there)
    (hhere : here ⊆ here') (hthere : there ⊆ there') : Collision combine here' there' := by
  obtain ⟨p, hp, q, hq, hne, heq⟩ := h
  exact ⟨p, hhere hp, q, hthere hq, hne, heq⟩

theorem eq_or_collision {l r : α} {l' r' : α} {here there : List (α × α)}
    (h : combine l r = combine l' r') :
    (l = l' ∧ r = r') ∨ Collision combine ((l, r) :: here) ((l', r') :: there) := by
  by_cases heq : (l, r) = (l', r')
  · exact .inl (Prod.mk.inj heq)
  · exact .inr ⟨(l, r), List.mem_cons_self, (l', r'), List.mem_cons_self, heq, h⟩

/-- A pruned tree with the root of the whole tree shows leaves of the whole tree. -/
theorem hits_sublist {h pos : ℕ} {t : Pruned α} (hshape : Shape n h pos t)
    (hroot : t.root combine = node combine n leaf h pos) :
    t.hits.Sublist ((under n h pos).map leaf) ∨
      Collision combine (t.pairs combine) (nodePairs combine n leaf h pos) := by
  induction t generalizing h pos with
  | stop hash => exact .inl (List.nil_sublist _)
  | hit hash =>
    cases h with
    | zero =>
      left
      simpa [hits, under, root, node] using hroot
    | succ h => exact hshape.elim
  | fork left right ihl ihr =>
    cases h with
    | zero => exact hshape.elim
    | succ h =>
      obtain ⟨hright, hl, hr⟩ := hshape
      simp only [root, node, hright, if_true] at hroot
      simp only [hits, under, pairs, nodePairs, hright, if_true, List.map_append]
      rcases eq_or_collision hroot with ⟨heql, heqr⟩ | hcollision
      · rcases ihl hl heql with hsubl | hcollision
        · rcases ihr hr heqr with hsubr | hcollision
          · exact .inl (hsubl.append hsubr)
          · exact .inr (hcollision.mono (by simp) (by simp))
        · exact .inr (hcollision.mono (by simp) (by simp))
      · exact .inr hcollision
  | lone left ih =>
    cases h with
    | zero => exact hshape.elim
    | succ h =>
      obtain ⟨hright, hl⟩ := hshape
      simp only [root, node, hright, if_false] at hroot
      simp only [hits, under, pairs, nodePairs, hright, if_false, List.append_nil]
      rcases eq_or_collision hroot with ⟨heql, -⟩ | hcollision
      · rcases ih hl heql with hsub | hcollision
        · exact .inl hsub
        · exact .inr (hcollision.mono (by simp) (by simp))
      · exact .inr hcollision

end Binding

end Pruned

end Dims.HashTree
