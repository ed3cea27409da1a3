import Dims.OrderedMap
import Mathlib.Data.List.Perm.Subperm

/-!
# Sets that look at one field

A set whose comparator looks at one field of its elements is a map from that field: of the
elements with one value it keeps the first that comes. Its first elements are compared with the
best ones of all that have come.
-/

namespace Dims

universe u v

instance instLinearOrderUInt32 : LinearOrder UInt32 where
  le := (· ≤ ·)
  lt := (· < ·)
  le_refl := UInt32.le_refl
  le_trans _ _ _ := UInt32.le_trans
  le_antisymm _ _ := UInt32.le_antisymm
  le_total a b := UInt32.le_total a b
  lt_iff_le_not_ge a b := by
    rw [UInt32.lt_iff_toNat_lt, UInt32.le_iff_toNat_le, UInt32.le_iff_toNat_le]
    omega
  toDecidableLE := inferInstance
  toDecidableEq := inferInstance
  toDecidableLT := inferInstance

namespace FieldSets

variable {α : Type u} {κ : Type v} [LinearOrder κ]

def insertAll (field : α → κ) (xs : List α) : OrderedMap κ α :=
  xs.foldl (fun m x => m.insertNew (field x) x) .empty

def elements (m : OrderedMap κ α) : List α := m.entries.map Prod.snd

/-- The elements that are the first ones with their fields. -/
def firsts [DecidableEq α] (field : α → κ) (xs : List α) : List α :=
  xs.filter fun x => xs.find? (fun y => field y = field x) = some x

section Elements

variable {field : α → κ} {xs : List α} {x : α}

theorem lookup_insertAll (k : κ) :
    (insertAll field xs).lookup k = xs.find? fun y => field y = k := by
  rw [insertAll, OrderedMap.lookup_foldl_insertNew, OrderedMap.lookup_empty, Option.none_or]

theorem field_eq_of_lookup {k : κ} (h : (insertAll field xs).lookup k = some x) : field x = k := by
  rw [lookup_insertAll] at h
  simpa using List.find?_some h

theorem mem_elements_insertAll :
    x ∈ elements (insertAll field xs) ↔ (insertAll field xs).lookup (field x) = some x := by
  constructor
  · intro hx
    obtain ⟨⟨k, y⟩, hentry, rfl⟩ := List.mem_map.mp hx
    have hlookup := OrderedMap.mem_entries.mp hentry
    rwa [← field_eq_of_lookup hlookup] at hlookup
  · intro hlookup
    exact List.mem_map.mpr ⟨(field x, x), OrderedMap.mem_entries.mpr hlookup, rfl⟩

theorem mem_of_mem_elements (h : x ∈ elements (insertAll field xs)) : x ∈ xs := by
  rw [mem_elements_insertAll, lookup_insertAll] at h
  exact List.mem_of_find?_eq_some h

theorem exists_mem_elements (h : x ∈ xs) : ∃ y ∈ elements (insertAll field xs), field y = field x := by
  have hfound : (xs.find? fun y => field y = field x).isSome := by
    rw [List.find?_isSome]
    exact ⟨x, h, by simp⟩
  obtain ⟨y, hy⟩ := Option.isSome_iff_exists.mp hfound
  rw [← lookup_insertAll] at hy
  have hfield := field_eq_of_lookup hy
  exact ⟨y, mem_elements_insertAll.mpr (by rwa [hfield]), hfield⟩

theorem pairwise_elements (field : α → κ) (xs : List α) :
    (elements (insertAll field xs)).Pairwise fun x y => field x < field y := by
  refine List.pairwise_map.mpr (List.Pairwise.imp_of_mem ?_ (insertAll field xs).sorted)
  intro p q hp hq hlt
  rwa [field_eq_of_lookup (OrderedMap.mem_entries.mp hp),
    field_eq_of_lookup (OrderedMap.mem_entries.mp hq)]

theorem mem_firsts [DecidableEq α] : x ∈ firsts field xs ↔ x ∈ elements (insertAll field xs) := by
  rw [mem_elements_insertAll, lookup_insertAll, firsts, List.mem_filter, decide_eq_true_eq]
  exact and_iff_right_of_imp List.mem_of_find?_eq_some

theorem eq_of_map_field_eq {chosen other : List α} (hchosen : ∀ x ∈ chosen, x ∈ elements (insertAll field xs))
    (hother : ∀ x ∈ other, x ∈ elements (insertAll field xs)) (h : chosen.map field = other.map field) :
    chosen = other := by
  have hnodup : ((elements (insertAll field xs)).map field).Nodup :=
    List.pairwise_map.mpr ((pairwise_elements field xs).imp fun hlt => hlt.ne)
  induction chosen generalizing other with
  | nil => exact (List.map_eq_nil_iff.mp h.symm).symm
  | cons x chosen ih =>
    cases other with
    | nil => cases h
    | cons y other =>
      obtain ⟨hfield, hrest⟩ := List.cons_eq_cons.mp h
      obtain ⟨hx, hlater⟩ := List.forall_mem_cons.mp hchosen
      obtain ⟨hy, hlater'⟩ := List.forall_mem_cons.mp hother
      rw [List.inj_on_of_nodup_map hnodup hx hy hfield, ih hlater hlater' hrest]

end Elements

/-- A list in the order of a field, with one element for each value that is kept. -/
structure Ranks (field : α → κ) (kept ranked : List α) : Prop where
  sorted : ranked.Pairwise fun x y => field x < field y
  subset : ∀ x ∈ ranked, x ∈ kept
  covers : ∀ x ∈ kept, ∃ y ∈ ranked, field y = field x

theorem ranks_firsts {ι : Type*} [LinearOrder ι] [DecidableEq α] (field : α → κ) (key : α → ι)
    (xs : List α) :
    Ranks field (firsts key xs) (elements (insertAll field (elements (insertAll key xs)))) where
  sorted := pairwise_elements field _
  subset _ hx := mem_firsts.mpr (mem_of_mem_elements hx)
  covers _ hx := exists_mem_elements (mem_firsts.mp hx)

/-- Of the elements that are better, so many, all are kept and no two have one field. -/
structure Leaders (field : α → κ) (kept better : List α) (count : ℕ) : Prop where
  count : better.length + 1 = count
  kept : ∀ x ∈ better, x ∈ kept
  differ : (better.map field).Nodup

section Best

variable {field : α → κ} {added kept ranked better : List α} {w x y : α} {count : ℕ}

theorem Ranks.nodup_map (h : Ranks field kept ranked) : (ranked.map field).Nodup :=
  List.pairwise_map.mpr (h.sorted.imp fun hlt => hlt.ne)

theorem Ranks.eq_of_field (h : Ranks field kept ranked) (hx : x ∈ ranked) (hy : y ∈ ranked)
    (heq : field x = field y) : x = y :=
  List.inj_on_of_nodup_map h.nodup_map hx hy heq

/-- In a sorted list an element is among the first ones if few are below it. -/
theorem mem_take_iff (hsorted : ranked.Pairwise fun x y => field x < field y) (n : ℕ) :
    x ∈ ranked.take n ↔ x ∈ ranked ∧ (ranked.filter fun y => field y < field x).length < n := by
  induction ranked generalizing n with
  | nil => simp
  | cons a ranked ih =>
    obtain ⟨hfirst, hrest⟩ := List.pairwise_cons.mp hsorted
    cases n with
    | zero => simp
    | succ n =>
      rw [List.take_succ_cons, List.mem_cons, List.mem_cons, ih hrest, List.filter_cons]
      by_cases hxa : x = a
      · subst hxa
        have hnone : ranked.filter (fun y => field y < field x) = [] := by
          rw [List.filter_eq_nil_iff]
          intro y hy
          simpa using (hfirst y hy).le
        simp [hnone]
      · simp only [hxa, false_or]
        refine and_congr_right fun hx => ?_
        rw [if_pos (by simpa using hfirst x hx), List.length_cons, Nat.succ_lt_succ_iff]

theorem Ranks.mem_of_leaders (h : Ranks field kept ranked) (hkept : ∀ x ∈ kept, x ∈ added)
    (p : κ → Prop) [DecidablePred p]
    (hleaders : Leaders field kept (added.filter fun x => p (field x)) count)
    (hx : x ∈ added) (hp : p (field x)) : x ∈ ranked := by
  have hmem : ∀ {y : α}, y ∈ added → p (field y) → y ∈ added.filter fun x => p (field x) :=
    fun hy hpy => List.mem_filter.mpr ⟨hy, decide_eq_true hpy⟩
  obtain ⟨y, hy, heq⟩ := h.covers x (hleaders.kept x (hmem hx hp))
  have hbetter := hmem (hkept y (h.subset y hy)) (heq ▸ hp)
  rwa [← List.inj_on_of_nodup_map hleaders.differ hbetter (hmem hx hp) heq]

theorem mem_filter_lt [DecidableEq α] :
    x ∈ added.filter (fun y => field y < field w) ↔ x ∈ added ∧ field x < field w := by
  simp

theorem leaders_of_perm {first : List α} (hperm : better.Perm first) (hcount : first.length + 1 = count)
    (hfirst : ∀ x ∈ first, x ∈ kept) (hsorted : first.Pairwise fun x y => field x < field y) :
    Leaders field kept better count where
  count := by rw [hperm.length_eq, hcount]
  kept x hx := hfirst x (hperm.mem_iff.mp hx)
  differ := (hperm.map field).nodup_iff.mpr (List.pairwise_map.mpr (hsorted.imp fun hlt => hlt.ne))

theorem exists_leaders_of_least [DecidableEq α] (h : Ranks field kept ranked)
    (hkept : ∀ x ∈ kept, x ∈ added) (hadded : added.Nodup) (hpos : 0 < count)
    (hlength : (ranked.take count).length = count)
    (hbest : ∀ x ∈ added, x ∉ ranked.take count → ∀ y ∈ ranked.take count, ¬ field x < field y) :
    ∃ w ∈ kept, Leaders field kept (added.filter fun x => field x < field w) count := by
  have hne : ranked.take count ≠ [] := fun hnil => by
    rw [hnil] at hlength
    exact hpos.ne hlength
  obtain ⟨first, w, hsplit⟩ := (List.eq_nil_or_concat' _).resolve_left hne
  have hsub := List.take_sublist count ranked
  have hnodup := h.nodup_map.of_map _ |>.sublist hsub
  have hsorted := h.sorted.sublist hsub
  rw [hsplit] at hlength hbest hsub hsorted hnodup
  obtain ⟨hsortedFirst, -, hlast⟩ := List.pairwise_append.mp hsorted
  have hfirst : ∀ x ∈ first, x ∈ kept := fun x hx =>
    h.subset x (hsub.subset (List.mem_append_left _ hx))
  have hperm : (added.filter fun x => field x < field w).Perm first := by
    refine (List.perm_ext_iff_of_nodup (hadded.filter _) hnodup.of_append_left).mpr fun x => ?_
    rw [mem_filter_lt]
    constructor
    · rintro ⟨hx, hlt⟩
      by_contra hnot
      refine hbest x hx (fun hin => ?_) w (List.mem_append_right _ (List.mem_singleton_self w)) hlt
      rcases List.mem_append.mp hin with hin | hin
      · exact hnot hin
      · rw [List.mem_singleton.mp hin] at hlt
        exact lt_irrefl _ hlt
    · exact fun hx => ⟨hkept x (hfirst x hx), hlast x hx w (List.mem_singleton_self w)⟩
  have hw := h.subset w (hsub.subset (List.mem_append_right _ (List.mem_singleton_self w)))
  rw [List.length_append, List.length_singleton] at hlength
  exact ⟨w, hw, leaders_of_perm hperm hlength hfirst hsortedFirst⟩

/-- Where leaders are below an element, they and the one that is kept for it are found. -/
theorem Leaders.le_length [DecidableEq α] {others : List α} (hadded : added.Nodup)
    (hleaders : Leaders field kept (added.filter fun x => field x < field w) count)
    (heq : field y = field w) (hy : y ∈ others)
    (hothers : ∀ x ∈ added, field x < field w → x ∈ others) : count ≤ others.length := by
  have hnot : y ∉ added.filter (fun x => field x < field w) := fun hin => by
    rw [mem_filter_lt, heq] at hin
    exact lt_irrefl _ hin.2
  have hnodup := List.nodup_cons.mpr ⟨hnot, hadded.filter _⟩
  have hall : ∀ x ∈ y :: added.filter (fun x => field x < field w), x ∈ others :=
    List.forall_mem_cons.mpr ⟨hy, fun x hx => hothers x (mem_filter_lt.mp hx).1 (mem_filter_lt.mp hx).2⟩
  have hle := (hnodup.subperm fun x hx => hall x hx).length_le
  rwa [List.length_cons, hleaders.count] at hle

theorem least_of_leaders [DecidableEq α] (h : Ranks field kept ranked) (hkept : ∀ x ∈ kept, x ∈ added)
    (hadded : added.Nodup) (hw : w ∈ kept)
    (hleaders : Leaders field kept (added.filter fun x => field x < field w) count) :
    (ranked.take count).length = count ∧
      ∀ x ∈ added, x ∉ ranked.take count → ∀ y ∈ ranked.take count, ¬ field x < field y := by
  obtain ⟨v, hv, hvw⟩ := h.covers w hw
  have hin : ∀ x ∈ added, field x < field w → x ∈ ranked := fun x hx hlt =>
    h.mem_of_leaders hkept (· < field w) hleaders hx hlt
  refine ⟨List.length_take_of_le (hleaders.le_length hadded hvw hv hin), fun x hx hnot y hy hlt => ?_⟩
  rw [mem_take_iff h.sorted] at hy hnot
  have hyw : field y ≤ field w := by
    by_contra hgt
    have hle : count ≤ (ranked.filter fun z => field z < field y).length := by
      refine hleaders.le_length hadded hvw ?_ fun z hz hzw => ?_
      · simpa [hv, hvw] using hgt
      · simpa [hin z hz hzw] using hzw.trans (not_le.mp hgt)
    omega
  have hle : (ranked.filter fun z => field z < field x).length ≤
      (ranked.filter fun z => field z < field y).length := by
    refine (List.monotone_filter_right ranked fun z hz => ?_).length_le
    simp only [decide_eq_true_eq] at hz ⊢
    exact hz.trans hlt
  exact hnot ⟨hin x hx (lt_of_lt_of_le hlt hyw), hle.trans_lt hy.2⟩

/-- The first elements of the list are the least ones of all if and only if there are none of
them or leaders below one that is kept. -/
theorem take_least_iff [DecidableEq α] (h : Ranks field kept ranked) (hkept : ∀ x ∈ kept, x ∈ added)
    (hadded : added.Nodup) (count : ℕ) :
    ((ranked.take count).length = count ∧
      ∀ x ∈ added, x ∉ ranked.take count → ∀ y ∈ ranked.take count, ¬ field x < field y) ↔
    count = 0 ∨ ∃ w ∈ kept, Leaders field kept (added.filter fun x => field x < field w) count := by
  constructor
  · rintro ⟨hlength, hbest⟩
    rcases Nat.eq_zero_or_pos count with hzero | hpos
    · exact .inl hzero
    · exact .inr (exists_leaders_of_least h hkept hadded hpos hlength hbest)
  · rintro (rfl | ⟨w, hw, hleaders⟩)
    · exact ⟨rfl, fun _ _ _ y hy => by cases hy⟩
    · exact least_of_leaders h hkept hadded hw hleaders

theorem mem_filter_gt [DecidableEq α] :
    x ∈ added.filter (fun y => field w < field y) ↔ x ∈ added ∧ field w < field x := by
  simp

theorem exists_leaders_of_greatest [DecidableEq α] (h : Ranks field kept ranked)
    (hkept : ∀ x ∈ kept, x ∈ added) (hadded : added.Nodup) (hpos : 0 < count)
    (hlength : (ranked.take count).length = count)
    (hbest : ∀ x ∈ added, x ∉ ranked.take count → ∀ y ∈ ranked.take count, ¬ field y < field x) :
    ∃ w ∈ kept, (∀ x ∈ kept, field w ≤ field x) ∧
      Leaders field kept (added.filter fun x => field w < field x) count := by
  obtain ⟨n, rfl⟩ : ∃ n, count = n + 1 := ⟨count - 1, by omega⟩
  cases ranked with
  | nil => cases hlength
  | cons w ranked =>
    obtain ⟨hfirst, hrest⟩ := List.pairwise_cons.mp h.sorted
    have hsub := List.take_sublist n ranked
    have hnodup := (List.nodup_cons.mp (h.nodup_map.of_map _)).2.sublist hsub
    have hlater : ∀ x ∈ ranked.take n, x ∈ kept := fun x hx =>
      h.subset x (List.mem_cons_of_mem _ (hsub.subset hx))
    rw [List.take_succ_cons] at hlength hbest
    have hperm : (added.filter fun x => field w < field x).Perm (ranked.take n) := by
      refine (List.perm_ext_iff_of_nodup (hadded.filter _) hnodup).mpr fun x => ?_
      rw [mem_filter_gt]
      constructor
      · rintro ⟨hx, hlt⟩
        by_contra hnot
        refine hbest x hx (fun hin => ?_) w List.mem_cons_self hlt
        rcases List.mem_cons.mp hin with rfl | hin
        · exact lt_irrefl _ hlt
        · exact hnot hin
      · exact fun hx => ⟨hkept x (hlater x hx), hfirst x (hsub.subset hx)⟩
    refine ⟨w, h.subset w List.mem_cons_self, fun x hx => ?_,
      leaders_of_perm hperm hlength hlater (hrest.sublist hsub)⟩
    obtain ⟨y, hy, heq⟩ := h.covers x hx
    rw [← heq]
    rcases List.mem_cons.mp hy with rfl | hy
    · exact le_rfl
    · exact (hfirst y hy).le

theorem greatest_of_leaders [DecidableEq α] (h : Ranks field kept ranked)
    (hkept : ∀ x ∈ kept, x ∈ added) (hadded : added.Nodup) (hw : w ∈ kept)
    (hleast : ∀ x ∈ kept, field w ≤ field x)
    (hleaders : Leaders field kept (added.filter fun x => field w < field x) count) :
    (ranked.take count).length = count ∧
      ∀ x ∈ added, x ∉ ranked.take count → ∀ y ∈ ranked.take count, ¬ field y < field x := by
  obtain ⟨v, hv, hvw⟩ := h.covers w hw
  have hin : ∀ x ∈ added, field w < field x → x ∈ ranked := fun x hx hlt =>
    h.mem_of_leaders hkept (field w < ·) hleaders hx hlt
  have hnot : v ∉ added.filter fun x => field w < field x := fun hin' => by
    rw [mem_filter_gt, hvw] at hin'
    exact lt_irrefl _ hin'.2
  have hnodup := List.nodup_cons.mpr ⟨hnot, hadded.filter _⟩
  have hperm : ranked.Perm (v :: added.filter fun x => field w < field x) := by
    refine (List.perm_ext_iff_of_nodup (h.nodup_map.of_map _) hnodup).mpr fun x => ?_
    rw [List.mem_cons, mem_filter_gt]
    constructor
    · intro hx
      rcases (hleast x (h.subset x hx)).eq_or_lt with heq | hlt
      · exact .inl (h.eq_of_field hx hv (heq.symm.trans hvw.symm))
      · exact .inr ⟨hkept x (h.subset x hx), hlt⟩
    · rintro (rfl | ⟨hx, hlt⟩)
      · exact hv
      · exact hin x hx hlt
  have hlength : ranked.length = count := by
    rw [hperm.length_eq, List.length_cons, hleaders.count]
  rw [List.take_of_length_le hlength.le]
  refine ⟨hlength, fun x hx hnot y hy hlt => hnot (hin x hx ?_)⟩
  exact lt_of_le_of_lt (hleast y (h.subset y hy)) hlt

theorem take_greatest_iff [DecidableEq α] (h : Ranks field kept ranked)
    (hkept : ∀ x ∈ kept, x ∈ added) (hadded : added.Nodup) (count : ℕ) :
    ((ranked.take count).length = count ∧
      ∀ x ∈ added, x ∉ ranked.take count → ∀ y ∈ ranked.take count, ¬ field y < field x) ↔
    count = 0 ∨ ∃ w ∈ kept, (∀ x ∈ kept, field w ≤ field x) ∧
      Leaders field kept (added.filter fun x => field w < field x) count := by
  constructor
  · rintro ⟨hlength, hbest⟩
    rcases Nat.eq_zero_or_pos count with hzero | hpos
    · exact .inl hzero
    · exact .inr (exists_leaders_of_greatest h hkept hadded hpos hlength hbest)
  · rintro (rfl | ⟨w, hw, hleast, hleaders⟩)
    · exact ⟨rfl, fun _ _ _ y hy => by cases hy⟩
    · exact greatest_of_leaders h hkept hadded hw hleast hleaders

end Best

end FieldSets

end Dims
