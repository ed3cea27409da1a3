import Mathlib.Data.List.Basic

/-!
# Copies within a vector

A range of a vector is copied to an earlier place of the same vector, from its first
element on. An access outside of the vector gives no value. What is left of a vector
without the elements at some positions is described by `unlisted`.
-/

namespace Dims.InPlaceCopy

universe u

variable {α : Type u}

/-- The loop of a forward copy of `n` elements. -/
def copyFrom : ℕ → ℕ → ℕ → List α → Option (List α)
  | 0, _, _, xs => some xs
  | n + 1, first, dest, xs =>
    match xs[first]? with
    | none => none
    | some x => if dest < xs.length then copyFrom n (first + 1) (dest + 1) (xs.set dest x) else none

/-- The elements from `first` up to `last` are copied to `dest`. -/
def copyRange (first last dest : ℕ) (xs : List α) : Option (List α) :=
  if first ≤ last then copyFrom (last - first) first dest xs else none

/-- New elements at the end are `null`. -/
def resize (null : α) (n : ℕ) (xs : List α) : List α :=
  xs.take n ++ List.replicate (n - xs.length) null

/-- A copy to an earlier place reads every element before it is overwritten. -/
theorem copyFrom_eq {n first dest : ℕ} {xs : List α} (hdest : dest ≤ first)
    (hrange : first + n ≤ xs.length) :
    copyFrom n first dest xs =
      some (xs.take dest ++ (xs.drop first).take n ++ xs.drop (dest + n)) := by
  induction n generalizing first dest xs with
  | zero => simp [copyFrom]
  | succ n ih =>
    have hfirst : first < xs.length := by omega
    have hin : dest < xs.length := by omega
    have hread : xs[first]? = some xs[first] := List.getElem?_eq_getElem hfirst
    have hwritten : (xs.set dest xs[first]).take (dest + 1) = xs.take dest ++ [xs[first]] := by
      rw [List.set_eq_take_append_cons_drop, if_pos hin, List.take_append,
        List.length_take_of_le (Nat.le_of_lt hin), List.take_of_length_le (by rw [List.length_take]; omega),
        Nat.add_sub_cancel_left, List.take_succ_cons, List.take_zero]
    have hunread : (xs.set dest xs[first]).drop (first + 1) = xs.drop (first + 1) :=
      List.drop_set_of_lt (by omega)
    have hrest : (xs.set dest xs[first]).drop (dest + 1 + n) = xs.drop (dest + (n + 1)) := by
      rw [List.drop_set_of_lt (by omega), Nat.add_assoc, Nat.add_comm 1 n]
    simp only [copyFrom, hread, hin, ↓reduceIte]
    rw [ih (by omega) (by rw [List.length_set]; omega), hwritten, hunread, hrest,
      List.drop_eq_getElem_cons hfirst, List.take_succ_cons]
    simp

theorem copyRange_eq {first last dest : ℕ} {xs : List α} (hdest : dest ≤ first)
    (hle : first ≤ last) (hlast : last ≤ xs.length) :
    copyRange first last dest xs =
      some (xs.take dest ++ (xs.drop first).take (last - first) ++
        xs.drop (dest + (last - first))) := by
  rw [copyRange, if_pos hle]
  exact copyFrom_eq hdest (by omega)

theorem resize_of_le {null : α} {n : ℕ} {xs : List α} (h : n ≤ xs.length) :
    resize null n xs = xs.take n := by
  rw [resize, Nat.sub_eq_zero_of_le h, List.replicate_zero, List.append_nil]

/-- The elements whose positions, counted from `k` on, are not listed. -/
def unlisted (listed : List ℕ) (k : ℕ) (xs : List α) : List α :=
  ((xs.zipIdx k).filter fun p => p.2 ∉ listed).map Prod.fst

variable {listed : List ℕ} {k : ℕ}

theorem unlisted_append (xs ys : List α) :
    unlisted listed k (xs ++ ys) = unlisted listed k xs ++ unlisted listed (k + xs.length) ys := by
  simp only [unlisted, List.zipIdx_append, List.filter_append, List.map_append]

theorem unlisted_cons_of_mem (h : k ∈ listed) (x : α) (xs : List α) :
    unlisted listed k (x :: xs) = unlisted listed (k + 1) xs := by
  simp [unlisted, List.zipIdx_cons, h]

theorem unlisted_eq_self {xs : List α} (h : ∀ i ∈ listed, k ≤ i → k + xs.length ≤ i) :
    unlisted listed k xs = xs := by
  have hall : (xs.zipIdx k).filter (fun p => p.2 ∉ listed) = xs.zipIdx k := by
    refine List.filter_eq_self.mpr fun p hp => decide_eq_true fun hmem => ?_
    have hle := h p.2 hmem (List.le_snd_of_mem_zipIdx hp)
    have hlt := List.snd_lt_add_of_mem_zipIdx hp
    omega
  rw [unlisted, hall, List.zipIdx_map_fst]

theorem unlisted_take_next {xs : List α} {previous next : ℕ} (hprevious : previous ∈ listed)
    (hlt : previous < next) (hnext : next ≤ xs.length)
    (hbetween : ∀ i ∈ listed, previous < i → next ≤ i) :
    unlisted listed 0 (xs.take next) =
      unlisted listed 0 (xs.take previous) ++ (xs.drop (previous + 1)).take (next - (previous + 1)) := by
  have hin : previous < xs.length := by omega
  have hsplit : xs.take next = xs.take previous ++
      xs[previous] :: (xs.drop (previous + 1)).take (next - (previous + 1)) := by
    rw [← List.take_append_drop previous (xs.take next), List.take_take, Nat.min_eq_left (Nat.le_of_lt hlt),
      List.drop_take, List.drop_eq_getElem_cons hin]
    obtain ⟨d, rfl⟩ := Nat.exists_eq_add_of_lt hlt
    rw [show previous + d + 1 - previous = d + 1 by omega, List.take_succ_cons,
      show previous + d + 1 - (previous + 1) = d by omega]
  have hkept : unlisted listed (previous + 1)
      ((xs.drop (previous + 1)).take (next - (previous + 1))) =
        (xs.drop (previous + 1)).take (next - (previous + 1)) := by
    refine unlisted_eq_self fun i hi hle => ?_
    have hge := hbetween i hi hle
    rw [List.length_take, List.length_drop]
    omega
  rw [hsplit, unlisted_append, List.length_take, Nat.min_eq_left (Nat.le_of_lt hin), Nat.zero_add,
    unlisted_cons_of_mem hprevious, hkept]

end Dims.InPlaceCopy
