import Mathlib.Data.Finset.Card
import Mathlib.Data.List.Nodup

/-!
# Paths along parents

Nodes that name their parent, as in a tree. A path starts at a node without a parent and
goes on to a node that names the one before; what comes before a node is thereby decided
by the node, so two paths with a node in common are the same up to it.
-/

namespace Dims

universe u

structure IsPath {κ : Type u} (parent : κ → Option κ) (path : List κ) : Prop where
  root : ∀ k, path[0]? = some k → parent k = none
  link : ∀ i k, path[i + 1]? = some k → parent k = path[i]?

/-- A set of nodes with the parents of its nodes, and how deep each of them lies. -/
structure IsForest {κ : Type u} (parent : κ → Option κ) (node : κ → Prop) (depth : κ → ℕ) :
    Prop where
  root : ∀ k, node k → parent k = none → depth k = 0
  link : ∀ k p, node k → parent k = some p → node p ∧ depth k = depth p + 1

namespace IsPath

variable {κ : Type u} {parent : κ → Option κ} {path other : List κ}

theorem single {k : κ} (h : parent k = none) : IsPath parent [k] where
  root := by simp [h]
  link := by simp

theorem take (h : IsPath parent path) (n : ℕ) : IsPath parent (path.take n) := by
  have hkeep : ∀ i k, (path.take n)[i]? = some k → i < n ∧ path[i]? = some k := by
    intro i k hk
    rw [List.getElem?_take] at hk
    split at hk
    next hlt => exact ⟨hlt, hk⟩
    next => contradiction
  constructor
  · intro k hk
    exact h.root k (hkeep 0 k hk).2
  · intro i k hk
    obtain ⟨hlt, hpath⟩ := hkeep (i + 1) k hk
    rw [h.link i k hpath, List.getElem?_take, if_pos (by omega)]

theorem concat (h : IsPath parent path) (hne : path ≠ []) {k : κ}
    (hk : parent k = path.getLast?) : IsPath parent (path ++ [k]) := by
  have hlen : 0 < path.length := List.length_pos_iff.mpr hne
  constructor
  · intro x hx
    rw [List.getElem?_append_left hlen] at hx
    exact h.root x hx
  · intro i x hx
    rcases Nat.lt_trichotomy (i + 1) path.length with hlt | heq | hgt
    · rw [List.getElem?_append_left hlt] at hx
      rw [h.link i x hx, List.getElem?_append_left (by omega)]
    · rw [List.getElem?_append_right (by omega), heq, Nat.sub_self] at hx
      obtain rfl : k = x := by simpa using hx
      rw [hk, List.getLast?_eq_getElem?, List.getElem?_append_left (by omega)]
      congr 1
      omega
    · rw [List.getElem?_append_right (by omega)] at hx
      have hrange := (List.getElem?_eq_some_iff.mp hx).1
      rw [List.length_singleton] at hrange
      omega

theorem parent_eq (h : IsPath parent path) {i : ℕ} {k : κ} (hk : path[i]? = some k) :
    parent k = if i = 0 then none else path[i - 1]? := by
  cases i with
  | zero => simpa using h.root k hk
  | succ i => simpa using h.link i k hk

theorem position (h : IsPath parent path) (h' : IsPath parent other) {i j : ℕ} {k : κ}
    (hi : path[i]? = some k) (hj : other[j]? = some k) : i = j := by
  induction i generalizing j k with
  | zero =>
    cases j with
    | zero => rfl
    | succ j =>
      have hlen := (List.getElem?_eq_some_iff.mp hj).1
      have hnone : other[j]? = none := by rw [← h'.link j k hj, h.root k hi]
      rw [List.getElem?_eq_none_iff] at hnone
      omega
  | succ i ih =>
    have hlen := (List.getElem?_eq_some_iff.mp hi).1
    have hprev : path[i]? = some path[i] := List.getElem?_eq_getElem (by omega)
    cases j with
    | zero =>
      rw [← h.link i k hi, h'.root k hj] at hprev
      contradiction
    | succ j =>
      have hboth : other[j]? = some path[i] := by rw [← h'.link j k hj, h.link i k hi, hprev]
      rw [ih hprev hboth]

/-- Two paths with a node in common are the same up to it. -/
theorem agree (h : IsPath parent path) (h' : IsPath parent other) {i : ℕ} {k : κ}
    (hi : path[i]? = some k) (hj : other[i]? = some k) {n : ℕ} (hn : n ≤ i) :
    path[n]? = other[n]? := by
  induction i generalizing k with
  | zero =>
    obtain rfl : n = 0 := by omega
    rw [hi, hj]
  | succ i ih =>
    rcases Nat.lt_or_eq_of_le hn with hlt | rfl
    · have hlen := (List.getElem?_eq_some_iff.mp hi).1
      have hprev : path[i]? = some path[i] := List.getElem?_eq_getElem (by omega)
      have hboth : other[i]? = some path[i] := by rw [← h'.link i k hj, h.link i k hi, hprev]
      exact ih hprev hboth (by omega)
    · rw [hi, hj]

theorem take_eq (h : IsPath parent path) (h' : IsPath parent other) {i : ℕ} {k : κ}
    (hi : path[i]? = some k) (hj : other[i]? = some k) :
    path.take (i + 1) = other.take (i + 1) := by
  apply List.ext_getElem?
  intro n
  rw [List.getElem?_take, List.getElem?_take]
  split
  · exact agree h h' hi hj (by omega)
  · rfl

theorem nodup (h : IsPath parent path) : path.Nodup := by
  rw [List.nodup_iff_getElem?_ne_getElem?]
  intro i j hij hj heq
  rw [List.getElem?_eq_getElem hj] at heq
  exact absurd (position h h heq (List.getElem?_eq_getElem hj)) (by omega)

/-- A path through the members of a finite set is not longer than that. -/
theorem length_le_card [DecidableEq κ] (h : IsPath parent path) {nodes : Finset κ}
    (hmem : ∀ k ∈ path, k ∈ nodes) : path.length ≤ nodes.card := by
  rw [← List.toFinset_card_of_nodup h.nodup]
  exact Finset.card_le_card fun k hk => hmem k (List.mem_toFinset.mp hk)

theorem congr {parent' : κ → Option κ} (h : IsPath parent path)
    (hsame : ∀ k ∈ path, parent' k = parent k) : IsPath parent' path where
  root k hk := (hsame k (List.mem_of_getElem? hk)).trans (h.root k hk)
  link i k hk := (hsame k (List.mem_of_getElem? hk)).trans (h.link i k hk)

end IsPath

namespace IsForest

variable {κ : Type u} {parent : κ → Option κ} {node : κ → Prop} {depth : κ → ℕ}

/-- Every node ends a path of nodes, as long as the node lies deep. -/
theorem exists_path (h : IsForest parent node depth) {k : κ} (hk : node k) :
    ∃ path, IsPath parent path ∧ (∀ x ∈ path, node x) ∧
      path.getLast? = some k ∧ path.length = depth k + 1 := by
  induction hdepth : depth k generalizing k with
  | zero =>
    cases hparent : parent k with
    | none => exact ⟨[k], .single hparent, by simpa using hk, rfl, rfl⟩
    | some p =>
      have hlink := (h.link k p hk hparent).2
      omega
  | succ n ih =>
    cases hparent : parent k with
    | none =>
      have hroot := h.root k hk hparent
      omega
    | some p =>
      obtain ⟨hp, hlink⟩ := h.link k p hk hparent
      obtain ⟨path, hpath, hnodes, hlast, hlen⟩ := ih hp (by omega)
      have hne : path ≠ [] := List.ne_nil_of_length_pos (by omega)
      refine ⟨path ++ [k], hpath.concat hne (hparent.trans hlast.symm), ?_, by simp, ?_⟩
      · intro x hx
        rcases List.mem_append.mp hx with hold | hnew
        · exact hnodes x hold
        · obtain rfl := List.mem_singleton.mp hnew
          exact hk
      · rw [List.length_append, hlen, List.length_singleton]

theorem depth_eq (h : IsForest parent node depth) {path : List κ} (hpath : IsPath parent path)
    (hnodes : ∀ x ∈ path, node x) {i : ℕ} {k : κ} (hk : path[i]? = some k) : depth k = i := by
  induction i generalizing k with
  | zero => exact h.root k (hnodes k (List.mem_of_getElem? hk)) (hpath.root k hk)
  | succ i ih =>
    have hlen := (List.getElem?_eq_some_iff.mp hk).1
    have hprev : path[i]? = some path[i] := List.getElem?_eq_getElem (by omega)
    have hlink := h.link k path[i] (hnodes k (List.mem_of_getElem? hk))
      ((hpath.link i k hk).trans hprev)
    rw [hlink.2, ih hprev]

end IsForest

end Dims
