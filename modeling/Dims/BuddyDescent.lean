import Dims.BuddyAllocation

/-!
# Freeing in any tree

The bytes of a tree may come from another node of the network. The descents of `buddyFree` and
`buddySize` pass through the nodes over the offset and end at the first of them that is used or
unused; whether the area of that node begins at the offset is only asserted, and the assertions
are compiled out.
-/

namespace Dims.CSimpleBuddy
open Function HeapTree

variable {t : CSimpleBuddy} {offset l m i j : ℕ}

section Descent

def stateOver (t : CSimpleBuddy) (offset level : ℕ) : UInt8 :=
  t (node level (offset / 2 ^ (baseLevel - level)))

def Stops (b : UInt8) : Prop := b = nodeUsed ∨ b = nodeUnused

instance (b : UInt8) : Decidable (Stops b) := inferInstanceAs (Decidable (_ ∨ _))

/-- The uppermost node over the offset where the descents end. -/
def stopLevel (t : CSimpleBuddy) (offset : ℕ) : Option ℕ :=
  (List.range' 0 (baseLevel + 1)).find? fun level => Stops (stateOver t offset level)

/-- The level, the index and the length of the node that a descent ends at. -/
def descent (offset : ℕ) : ℕ → CSimpleBuddy → ℕ → ℕ → ℕ → ℕ → Option (ℕ × ℕ × ℕ)
  | 0, _, _, _, _, _ => none
  | fuel + 1, t, level, index, left, length =>
    if treeSize ≤ index then none
    else if Stops (t index) then some (level, index, length)
    else if offset < left + length / 2 then
      descent offset fuel t (level + 1) (index * 2 + 1) left (length / 2)
    else descent offset fuel t (level + 1) (index * 2 + 2) (left + length / 2) (length / 2)

theorem freeLoop_eq_descent (offset fuel : ℕ) (t : CSimpleBuddy) (level index left length : ℕ) :
    freeLoop offset fuel t level index left length =
      (descent offset fuel t level index left length).map fun stop =>
        if t stop.2.1 = nodeUsed then combine stop.1 t stop.2.1 else t := by
  induction fuel generalizing level index left length with
  | zero => rfl
  | succ fuel ih =>
    rw [freeLoop, descent]
    by_cases hout : treeSize ≤ index
    · rw [if_pos hout, if_pos hout]
      rfl
    rw [if_neg hout, if_neg hout]
    by_cases hused : t index = nodeUsed
    · rw [if_pos hused, if_pos (.inl hused), Option.map_some, if_pos hused]
    by_cases hunused : t index = nodeUnused
    · rw [if_neg hused, if_pos hunused, if_pos (.inr hunused), Option.map_some, if_neg hused]
    have hstops : ¬Stops (t index) := fun hstops => hstops.elim hused hunused
    rw [if_neg hused, if_neg hunused, if_neg hstops]
    split <;> exact ih ..

theorem sizeLoop_eq_descent (offset fuel : ℕ) (t : CSimpleBuddy) (level index left length : ℕ) :
    sizeLoop offset fuel t index left length =
      (descent offset fuel t level index left length).map fun stop => stop.2.2 := by
  induction fuel generalizing level index left length with
  | zero => rfl
  | succ fuel ih =>
    rw [sizeLoop, descent]
    by_cases hout : treeSize ≤ index
    · rw [if_pos hout, if_pos hout]
      rfl
    rw [if_neg hout, if_neg hout]
    by_cases hused : t index = nodeUsed
    · rw [if_pos hused, if_pos (.inl hused)]
      rfl
    by_cases hunused : t index = nodeUnused
    · rw [if_neg hused, if_pos hunused, if_pos (.inr hunused)]
      rfl
    have hstops : ¬Stops (t index) := fun hstops => hstops.elim hused hunused
    rw [if_neg hused, if_neg hunused, if_neg hstops]
    split <;> exact ih ..

/-- From a node over the offset the descent ends at the first one below it where it can, or
leaves the tree after the leaf. -/
theorem descent_eq {d : ℕ} (hoffset : offset < 2 ^ baseLevel) (hd : l + d = baseLevel) (fuel : ℕ)
    (hfuel : d + 1 < fuel) :
    descent offset fuel t l (node l (offset / 2 ^ (baseLevel - l)))
        (start baseLevel l (offset / 2 ^ (baseLevel - l))) (width baseLevel l) =
      ((List.range' l (d + 1)).find? fun level => Stops (stateOver t offset level)).map fun level =>
        (level, node level (offset / 2 ^ (baseLevel - level)), width baseLevel level) := by
  induction d generalizing l fuel with
  | zero =>
    obtain ⟨fuel, rfl⟩ : ∃ f, fuel = f + 2 := ⟨fuel - 2, by omega⟩
    obtain rfl : l = baseLevel := hd
    have hin : ¬treeSize ≤ node baseLevel offset := by
      have hlt := node_lt hoffset
      have hsize : treeSize = 2 ^ (baseLevel + 1) := rfl
      omega
    have hout : treeSize ≤ node baseLevel offset * 2 + 2 := by
      have hnode := node_add_one baseLevel offset
      have hsize : treeSize = 2 ^ baseLevel * 2 := rfl
      omega
    have hstart : start baseLevel baseLevel offset = offset := by
      rw [start, Nat.sub_self, pow_zero, Nat.mul_one]
    have hwidth : width baseLevel baseLevel / 2 = 0 := by
      rw [width, Nat.sub_self, pow_zero]
      rfl
    rw [Nat.sub_self, pow_zero, Nat.div_one, descent, if_neg hin, List.range'_one, List.find?_singleton,
      stateOver, Nat.sub_self, pow_zero, Nat.div_one, hstart, hwidth, Nat.add_zero,
      if_neg (Nat.lt_irrefl offset), descent, if_pos hout]
    by_cases hstops : Stops (t (node baseLevel offset))
    · rw [if_pos hstops, if_pos (decide_eq_true hstops), Option.map_some, Nat.sub_self, pow_zero,
        Nat.div_one]
    · rw [if_neg hstops, if_neg (by simpa using hstops)]
      rfl
  | succ d ih =>
    obtain ⟨fuel, rfl⟩ : ∃ f, fuel = f + 1 := ⟨fuel - 1, by omega⟩
    have hl : l < baseLevel := by omega
    have hk : offset / 2 ^ (baseLevel - l) < 2 ^ l := by
      rwa [Nat.div_lt_iff_lt_mul (Nat.two_pow_pos _), ← pow_add, Nat.add_sub_cancel' hl.le]
    have hin : ¬treeSize ≤ node l (offset / 2 ^ (baseLevel - l)) := by
      have hlt := node_lt_of_le hk hl.le
      have hsize : treeSize = 2 ^ (baseLevel + 1) := rfl
      omega
    rw [descent, if_neg hin, List.range'_succ, List.find?_cons]
    by_cases hstops : Stops (t (node l (offset / 2 ^ (baseLevel - l))))
    · have hfound : decide (Stops (stateOver t offset l)) = true := decide_eq_true hstops
      rw [hfound, if_pos hstops]
      rfl
    have hpassed : decide (Stops (stateOver t offset l)) = false := decide_eq_false hstops
    rw [hpassed, if_neg hstops]
    have hpow : offset / 2 ^ (baseLevel - l) = offset / 2 ^ (baseLevel - (l + 1)) / 2 := by
      rw [Nat.div_div_eq_div_mul, ← pow_succ]
      congr 2
      omega
    have hrest := ih (l := l + 1) (by omega) fuel (by omega)
    have hside : offset < start baseLevel (l + 1) (2 * (offset / 2 ^ (baseLevel - l)) + 1) ↔
        offset / 2 ^ (baseLevel - (l + 1)) < 2 * (offset / 2 ^ (baseLevel - l)) + 1 := by
      rw [start, Nat.div_lt_iff_lt_mul (Nat.two_pow_pos _)]
    rw [width_half hl, ← start_right hl, Nat.mul_comm (node l _), left_node, right_node]
    split
    case isTrue hleft =>
      rw [hside] at hleft
      rwa [← start_left hl,
        show 2 * (offset / 2 ^ (baseLevel - l)) = offset / 2 ^ (baseLevel - (l + 1)) by omega]
    case isFalse hright =>
      rw [hside] at hright
      rwa [show 2 * (offset / 2 ^ (baseLevel - l)) + 1 = offset / 2 ^ (baseLevel - (l + 1)) by omega]

theorem stopLevel_eq_some : stopLevel t offset = some l ↔
    l ≤ baseLevel ∧ Stops (stateOver t offset l) ∧ ∀ m < l, ¬Stops (stateOver t offset m) := by
  rw [stopLevel, List.find?_range'_eq_some]
  simp only [Nat.zero_le, true_implies, Nat.zero_add, List.mem_range', decide_eq_true_eq,
    Bool.not_eq_true', decide_eq_false_iff_not, Nat.one_mul]
  constructor
  · rintro ⟨hstops, ⟨i, hi, rfl⟩, hbefore⟩
    exact ⟨by omega, hstops, hbefore⟩
  · rintro ⟨hle, hstops, hbefore⟩
    exact ⟨hstops, ⟨l, by omega, rfl⟩, hbefore⟩

theorem buddyFree_eq (t : CSimpleBuddy) (hoffset : offset < 2 ^ baseLevel) :
    buddyFree t offset = (stopLevel t offset).map fun level =>
      if stateOver t offset level = nodeUsed then
        combine level t (node level (offset / 2 ^ (baseLevel - level))) else t := by
  have hpath := descent_eq (t := t) hoffset (Nat.zero_add baseLevel) (baseLevel + 3) (by omega)
  rw [Nat.sub_zero, Nat.div_eq_of_lt hoffset] at hpath
  rw [buddyFree, freeLoop_eq_descent]
  change (descent offset (baseLevel + 3) t 0 (node 0 0) 0 (2 ^ baseLevel)).map _ = _
  rw [start, Nat.zero_mul] at hpath
  rw [show 2 ^ baseLevel = width baseLevel 0 from rfl, hpath, Option.map_map]
  rfl

theorem buddySize_eq (t : CSimpleBuddy) (hoffset : offset < 2 ^ baseLevel) :
    buddySize t offset = (stopLevel t offset).map (width baseLevel) := by
  have hpath := descent_eq (t := t) hoffset (Nat.zero_add baseLevel) (baseLevel + 3) (by omega)
  rw [Nat.sub_zero, Nat.div_eq_of_lt hoffset] at hpath
  rw [buddySize, sizeLoop_eq_descent offset _ t 0]
  change (descent offset (baseLevel + 3) t 0 (node 0 0) 0 (2 ^ baseLevel)).map _ = _
  rw [start, Nat.zero_mul] at hpath
  rw [show 2 ^ baseLevel = width baseLevel 0 from rfl, hpath, Option.map_map]
  rfl

end Descent

section Merging

theorem node_half_lt (l k : ℕ) : node l (k / 2) < node (l + 1) k := by
  have hnode := node_add_one l (k / 2)
  have hchild := node_add_one (l + 1) k
  rw [pow_succ] at hchild
  have hpos := Nat.two_pow_pos l
  omega

theorem clearFull_of_le (h : node m i ≤ j) : clearFull m t (node m i) j = t j := by
  induction m generalizing t i with
  | zero => rfl
  | succ m ih =>
    have hlt := node_half_lt m i
    rw [clearFull, parent_node]
    split
    · rw [ih (by omega), update_of_ne (by omega)]
    · rfl

theorem combine_of_le (h : node m i ≤ j) :
    combine m t (node m i) j = update t (node m i) nodeUnused j := by
  induction m generalizing t i with
  | zero => rfl
  | succ m ih =>
    have hlt := node_half_lt m i
    rw [combine, parent_node]
    split
    · rw [ih (by omega), update_of_ne (by omega)]
    · exact clearFull_of_le h

theorem buddyFree_of_le {t' : CSimpleBuddy} (hoffset : offset < 2 ^ baseLevel)
    (hfree : buddyFree t offset = some t') (hj : 2 ^ (baseLevel + 1) - 1 ≤ j) : t' j = t j := by
  rw [buddyFree_eq t hoffset] at hfree
  obtain ⟨l, hstop, rfl⟩ := Option.map_eq_some_iff.mp hfree
  split
  case isTrue =>
    have hle := (stopLevel_eq_some.mp hstop).1
    have hk : offset / 2 ^ (baseLevel - l) < 2 ^ l := by
      rwa [Nat.div_lt_iff_lt_mul (Nat.two_pow_pos _), ← pow_add, Nat.add_sub_cancel' hle]
    have hlt := node_lt_of_le hk hle
    rw [combine_of_le (by omega), update_of_ne (by omega)]
  case isFalse => rfl

theorem combine_ne (hused : t (node m i) = nodeUsed) : combine m t (node m i) ≠ t := by
  intro hsame
  have hnode := congrFun hsame (node m i)
  rw [combine_of_le le_rfl, update_self, hused] at hnode
  exact absurd hnode (by decide)

end Merging

section Robust

/-- The offset is that of an area that the tree marks as used. -/
def StartsUsed (t : CSimpleBuddy) (offset : ℕ) : Prop :=
  ∃ l ≤ baseLevel, ∃ k < 2 ^ l, offset = start baseLevel l k ∧ Used t l k

/-- Both descents stay in the tree, nothing outside of it is written, and the tree is not
changed unless a used area begins at the offset. -/
structure Robust (t : CSimpleBuddy) (offset : ℕ) : Prop where
  sized : (buddySize t offset).isSome
  freed : ∃ t', buddyFree t offset = some t' ∧ (∀ i ≥ treeSize, t' i = t i) ∧
    (t' ≠ t → StartsUsed t offset)

/-- The uppermost node over the offset that is used or unused is unused, or it is used and it,
or a used node further down, begins at the offset. -/
def EndsWell (t : CSimpleBuddy) (offset : ℕ) : Prop :=
  ∃ l ≤ baseLevel, (∀ m < l, ¬Stops (stateOver t offset m)) ∧
    (stateOver t offset l = nodeUnused ∨ stateOver t offset l = nodeUsed ∧
      ∃ m ≤ baseLevel, l ≤ m ∧ stateOver t offset m = nodeUsed ∧ 2 ^ (baseLevel - m) ∣ offset)

theorem startsUsed_iff (hoffset : offset < 2 ^ baseLevel) : StartsUsed t offset ↔
    ∃ m ≤ baseLevel, stateOver t offset m = nodeUsed ∧ 2 ^ (baseLevel - m) ∣ offset := by
  constructor
  · rintro ⟨l, hl, k, hk, rfl, hused⟩
    refine ⟨l, hl, ?_, Nat.dvd_mul_left _ _⟩
    rw [stateOver, start, Nat.mul_div_cancel _ (Nat.two_pow_pos _)]
    exact hused
  · rintro ⟨m, hm, hused, k, rfl⟩
    rw [stateOver, Nat.mul_div_cancel_left _ (Nat.two_pow_pos _)] at hused
    refine ⟨m, hm, k, ?_, by rw [start, Nat.mul_comm], hused⟩
    have hpow : 2 ^ baseLevel = 2 ^ (baseLevel - m) * 2 ^ m := by
      rw [← pow_add, Nat.sub_add_cancel hm]
    rw [hpow] at hoffset
    exact Nat.lt_of_mul_lt_mul_left hoffset

/-- What the descents do when they end. -/
theorem robust_of_stop (hoffset : offset < 2 ^ baseLevel) (hstop : stopLevel t offset = some l) :
    Robust t offset ↔ (stateOver t offset l = nodeUsed → StartsUsed t offset) := by
  have hsize := buddySize_eq t hoffset
  have hfree := buddyFree_eq t hoffset
  rw [hstop, Option.map_some] at hsize hfree
  by_cases hused : stateOver t offset l = nodeUsed
  · rw [if_pos hused] at hfree
    constructor
    · rintro ⟨-, t', hfreed, -, hstarts⟩ -
      rw [hfree] at hfreed
      cases hfreed
      exact hstarts (combine_ne hused)
    · intro hstarts
      refine ⟨hsize ▸ rfl, _, hfree, fun i hi => buddyFree_of_le hoffset hfree ?_,
        fun _ => hstarts hused⟩
      have htree : treeSize = 2 ^ (baseLevel + 1) := rfl
      omega
  · rw [if_neg hused] at hfree
    exact ⟨fun _ h => absurd h hused, fun _ =>
      ⟨hsize ▸ rfl, t, hfree, fun _ _ => rfl, fun hne => absurd rfl hne⟩⟩

/-- The descents are robust where they end at a node, and the area that is freed there is one
that begins at the offset. -/
theorem robust_iff (hoffset : offset < 2 ^ baseLevel) : Robust t offset ↔ EndsWell t offset := by
  constructor
  · intro hrobust
    have hsome := hrobust.sized
    rw [buddySize_eq t hoffset, Option.isSome_map] at hsome
    obtain ⟨l, hstop⟩ := Option.isSome_iff_exists.mp hsome
    obtain ⟨hle, hstops, hbefore⟩ := stopLevel_eq_some.mp hstop
    refine ⟨l, hle, hbefore, hstops.symm.imp_right fun hused => ⟨hused, ?_⟩⟩
    have hstarts := (robust_of_stop hoffset hstop).mp hrobust hused
    obtain ⟨m, hm, husedAt, hdvd⟩ := (startsUsed_iff hoffset).mp hstarts
    -- no node above the one that the descent ends at is used
    exact ⟨m, hm, Nat.le_of_not_lt fun hlt => hbefore m hlt (.inl husedAt), husedAt, hdvd⟩
  · rintro ⟨l, hle, hbefore, hend⟩
    have hstops : Stops (stateOver t offset l) := hend.symm.imp_left And.left
    rw [robust_of_stop hoffset (stopLevel_eq_some.mpr ⟨hle, hstops, hbefore⟩), startsUsed_iff hoffset]
    intro hused
    obtain hunused | ⟨-, m, hm, -, husedAt, hdvd⟩ := hend
    · rw [hunused] at hused
      exact absurd hused (by decide)
    · exact ⟨m, hm, husedAt, hdvd⟩

/-- The root is used, so its area is found, and it begins at the offset. -/
theorem robust_of_used_root : Robust (update new 0 nodeUsed) 0 :=
  (robust_iff (by decide)).mpr ⟨0, by decide, fun _ hlt => absurd hlt (Nat.not_lt_zero _),
    .inr ⟨by decide, 0, by decide, le_rfl, by decide, by decide⟩⟩

/-- Without a node to end at the tree is left, and from within a used area all of it is freed. -/
theorem not_robust : ¬(∀ (t : CSimpleBuddy) (offset : ℕ), offset < 2 ^ baseLevel → Robust t offset) ∧
    buddyFree (fun _ => nodeSplit) 0 = none ∧
    (buddyFree (update new 0 nodeUsed) 5).map (fun t => t 0) = some nodeUnused := by
  refine ⟨fun hall => ?_, rfl, rfl⟩
  obtain ⟨-, t', hfreed, -⟩ := hall (fun _ => nodeSplit) 0 (by decide)
  cases hfreed

end Robust

end Dims.CSimpleBuddy
