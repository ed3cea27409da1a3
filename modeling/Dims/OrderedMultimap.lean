import Mathlib.Data.List.Pairwise
import Mathlib.Data.List.Basic
import Mathlib.Order.Lattice

/-!
# Maps with several values for a key

A finite map that is gone through in the order of its keys; the values of one key stay in the
order in which they were inserted. What a map holds is described by `equalRange`.
-/

namespace Dims

universe u v w

structure OrderedMultimap (κ : Type u) (α : Type v) [LinearOrder κ] where
  entries : List (κ × α)
  sorted : entries.Pairwise fun p q => p.1 ≤ q.1

namespace OrderedMultimap

variable {κ : Type u} {α : Type v} {β : Type w} [LinearOrder κ]

def empty : OrderedMultimap κ α := ⟨[], .nil⟩

def valuesOf (k : κ) (entries : List (κ × α)) : List α :=
  (entries.filter fun p => p.1 = k).map Prod.snd

def equalRange (m : OrderedMultimap κ α) (k : κ) : List α := valuesOf k m.entries

def values (m : OrderedMultimap κ α) : List α := m.entries.map Prod.snd

section ValuesOf

variable {k : κ} {p : κ × α} {entries : List (κ × α)}

@[simp] theorem valuesOf_nil : valuesOf k ([] : List (κ × α)) = [] := rfl

theorem valuesOf_cons :
    valuesOf k (p :: entries) = (if p.1 = k then [p.2] else []) ++ valuesOf k entries := by
  simp only [valuesOf, List.filter_cons]
  by_cases hkey : p.1 = k <;> simp [hkey]

theorem valuesOf_eq_nil (h : ∀ p ∈ entries, p.1 ≠ k) : valuesOf k entries = [] := by
  rw [valuesOf, List.filter_eq_nil_iff.mpr, List.map_nil]
  intro p hp
  simp [h p hp]

theorem mem_valuesOf {v : α} : v ∈ valuesOf k entries ↔ (k, v) ∈ entries := by
  simp [valuesOf]

end ValuesOf

@[simp] theorem equalRange_empty (k : κ) : (empty : OrderedMultimap κ α).equalRange k = [] := rfl

theorem mem_equalRange {m : OrderedMultimap κ α} {k : κ} {v : α} :
    v ∈ m.equalRange k ↔ (k, v) ∈ m.entries := mem_valuesOf

theorem mem_values {m : OrderedMultimap κ α} {v : α} :
    v ∈ m.values ↔ ∃ k, v ∈ m.equalRange k := by
  simp [values, mem_equalRange]

theorem eq_of_equalRange {m m' : OrderedMultimap κ α}
    (h : ∀ k, m.equalRange k = m'.equalRange k) : m = m' := by
  obtain ⟨entries, hsorted⟩ := m
  obtain ⟨entries', hsorted'⟩ := m'
  change ∀ k, valuesOf k entries = valuesOf k entries' at h
  -- of two first entries neither has the smaller key
  have hfirst : ∀ {p q : κ × α} {ps qs : List (κ × α)},
      (q :: qs).Pairwise (fun p q => p.1 ≤ q.1) →
      valuesOf p.1 (p :: ps) = valuesOf p.1 (q :: qs) → q.1 ≤ p.1 := by
    intro p q ps qs hq heq
    have hmem : p.2 ∈ valuesOf p.1 (q :: qs) := heq ▸ mem_valuesOf.mpr List.mem_cons_self
    rcases List.mem_cons.mp (mem_valuesOf.mp hmem) with hsame | hlater
    · exact (congrArg Prod.fst hsame).ge
    · exact (List.pairwise_cons.mp hq).1 _ hlater
  have hentries : entries = entries' := by
    induction entries generalizing entries' with
    | nil =>
      cases entries' with
      | nil => rfl
      | cons q qs =>
        have hq := h q.1
        rw [valuesOf_cons, if_pos rfl] at hq
        cases hq
    | cons p ps ih =>
      cases entries' with
      | nil =>
        have hp := h p.1
        rw [valuesOf_cons, if_pos rfl] at hp
        cases hp
      | cons q qs =>
        have hkey : p.1 = q.1 := le_antisymm (hfirst hsorted (h q.1).symm) (hfirst hsorted' (h p.1))
        have hhead := h p.1
        rw [valuesOf_cons, valuesOf_cons, if_pos rfl, if_pos hkey.symm] at hhead
        have heq : p = q := Prod.ext hkey (List.cons.inj hhead).1
        subst heq
        rw [ih (List.pairwise_cons.mp hsorted).2 qs (List.pairwise_cons.mp hsorted').2 fun k => ?_]
        have hk := h k
        rw [valuesOf_cons, valuesOf_cons] at hk
        exact List.append_cancel_left hk
  subst hentries
  rfl

/-- The entries with a new one behind those of its key. -/
def insertEntry (k : κ) (v : α) : List (κ × α) → List (κ × α)
  | [] => [(k, v)]
  | p :: entries => if k < p.1 then (k, v) :: p :: entries else p :: insertEntry k v entries

theorem mem_insertEntry {k : κ} {v : α} {entries : List (κ × α)} {p : κ × α} :
    p ∈ insertEntry k v entries ↔ p = (k, v) ∨ p ∈ entries := by
  induction entries with
  | nil => simp [insertEntry]
  | cons q entries ih =>
    rw [insertEntry]
    split
    · exact List.mem_cons
    · rw [List.mem_cons, List.mem_cons, ih]
      exact or_left_comm

theorem sorted_insertEntry (k : κ) (v : α) {entries : List (κ × α)}
    (h : entries.Pairwise fun p q => p.1 ≤ q.1) :
    (insertEntry k v entries).Pairwise fun p q => p.1 ≤ q.1 := by
  induction entries with
  | nil => exact List.pairwise_singleton _ _
  | cons q entries ih =>
    obtain ⟨hhead, htail⟩ := List.pairwise_cons.mp h
    rw [insertEntry]
    split
    case isTrue hlt =>
      refine List.pairwise_cons.mpr ⟨fun p hp => ?_, h⟩
      rcases List.mem_cons.mp hp with rfl | hrest
      · exact hlt.le
      · exact hlt.le.trans (hhead p hrest)
    case isFalse hge =>
      refine List.pairwise_cons.mpr ⟨fun p hp => ?_, ih htail⟩
      rcases mem_insertEntry.mp hp with rfl | hrest
      · exact not_lt.mp hge
      · exact hhead p hrest

def insert (m : OrderedMultimap κ α) (k : κ) (v : α) : OrderedMultimap κ α :=
  ⟨insertEntry k v m.entries, sorted_insertEntry k v m.sorted⟩

theorem equalRange_insert (m : OrderedMultimap κ α) (k k' : κ) (v : α) :
    (m.insert k v).equalRange k' = m.equalRange k' ++ if k = k' then [v] else [] := by
  obtain ⟨entries, hsorted⟩ := m
  change valuesOf k' (insertEntry k v entries) = valuesOf k' entries ++ if k = k' then [v] else []
  induction entries with
  | nil => simp [insertEntry, valuesOf_cons]
  | cons p entries ih =>
    rw [insertEntry]
    split
    case isTrue hlt =>
      rw [valuesOf_cons]
      by_cases hkey : k = k'
      · subst hkey
        -- behind the place of insertion there are greater keys only
        rw [valuesOf_eq_nil, List.nil_append, List.append_nil]
        intro q hq
        rcases List.mem_cons.mp hq with rfl | hrest
        · exact hlt.ne'
        · exact (hlt.trans_le ((List.pairwise_cons.mp hsorted).1 q hrest)).ne'
      · simp [hkey]
    case isFalse =>
      rw [valuesOf_cons, valuesOf_cons, ih (List.pairwise_cons.mp hsorted).2, List.append_assoc]

theorem equalRange_foldl_insert (k k' : κ) (values : List α) (m : OrderedMultimap κ α) :
    (values.foldl (fun m v => m.insert k v) m).equalRange k' =
      m.equalRange k' ++ if k = k' then values else [] := by
  induction values generalizing m with
  | nil => simp
  | cons v values ih =>
    rw [List.foldl_cons, ih, equalRange_insert, List.append_assoc]
    by_cases hkey : k = k' <;> simp [hkey]

theorem perm_insertEntry (k : κ) (v : α) (entries : List (κ × α)) :
    (insertEntry k v entries).Perm ((k, v) :: entries) := by
  induction entries with
  | nil => exact .refl _
  | cons p entries ih =>
    rw [insertEntry]
    split
    · exact .refl _
    · exact (ih.cons p).trans (.swap _ _ _)

theorem perm_values_foldl_insert (key : β → κ) (value : β → α) (inserted : List β)
    (m : OrderedMultimap κ α) :
    (inserted.foldl (fun m b => m.insert (key b) (value b)) m).values.Perm
      (m.values ++ inserted.map value) := by
  induction inserted generalizing m with
  | nil => simp
  | cons b inserted ih =>
    have hfirst : (m.insert (key b) (value b)).values.Perm (m.values ++ [value b]) :=
      ((perm_insertEntry (key b) (value b) m.entries).map Prod.snd).trans
        (List.perm_append_singleton _ _).symm
    rw [List.foldl_cons, List.map_cons, List.append_cons]
    exact (ih _).trans (hfirst.append_right _)

def filter (keep : κ → α → Bool) (m : OrderedMultimap κ α) : OrderedMultimap κ α :=
  ⟨m.entries.filter fun p => keep p.1 p.2, m.sorted.filter _⟩

def erase (m : OrderedMultimap κ α) (k : κ) : OrderedMultimap κ α := m.filter fun a _ => a ≠ k

theorem values_filter_sublist (keep : κ → α → Bool) (m : OrderedMultimap κ α) :
    (m.filter keep).values.Sublist m.values :=
  List.filter_sublist.map _

theorem equalRange_filter (keep : κ → α → Bool) (m : OrderedMultimap κ α) (k : κ) :
    (m.filter keep).equalRange k = (m.equalRange k).filter (keep k) := by
  obtain ⟨entries, hsorted⟩ := m
  change valuesOf k (entries.filter fun p => keep p.1 p.2) = (valuesOf k entries).filter (keep k)
  clear hsorted
  induction entries with
  | nil => rfl
  | cons p entries ih =>
    rw [valuesOf_cons, List.filter_append, List.filter_cons, ← ih]
    by_cases hkey : p.1 = k
    · subst hkey
      cases hkeep : keep p.1 p.2 <;> simp [hkeep, valuesOf_cons]
    · cases hkeep : keep p.1 p.2 <;> simp [hkey, valuesOf_cons]

theorem equalRange_erase (m : OrderedMultimap κ α) (k k' : κ) :
    (m.erase k).equalRange k' = if k = k' then [] else m.equalRange k' := by
  rw [erase, equalRange_filter]
  by_cases hkey : k = k'
  · simp [hkey]
  · simp [hkey, Ne.symm hkey]

def mapValues (f : α → β) (m : OrderedMultimap κ α) : OrderedMultimap κ β :=
  ⟨m.entries.map fun p => (p.1, f p.2), by
    rw [List.pairwise_map]
    exact m.sorted⟩

theorem equalRange_mapValues (f : α → β) (m : OrderedMultimap κ α) (k : κ) :
    (m.mapValues f).equalRange k = (m.equalRange k).map f := by
  obtain ⟨entries, hsorted⟩ := m
  change valuesOf k (entries.map fun p => (p.1, f p.2)) = (valuesOf k entries).map f
  clear hsorted
  induction entries with
  | nil => rfl
  | cons p entries ih =>
    rw [List.map_cons, valuesOf_cons, valuesOf_cons, ih, List.map_append]
    by_cases hkey : p.1 = k <;> simp [hkey]

variable {σ : Type w} (pass : σ → κ → List α → σ)

/-- The values under one key are gathered and passed on when the next key comes, or at the end. -/
def passGroups : κ → List α → List (κ × α) → σ → σ
  | k, gathered, [], s => if gathered.isEmpty then s else pass s k gathered
  | k, gathered, p :: entries, s =>
    if k ≠ p.1 then
      passGroups p.1 [p.2] entries (if gathered.isEmpty then s else pass s k gathered)
    else passGroups k (gathered ++ [p.2]) entries s

theorem passGroups_invariant {P : σ → Prop} (hpass : ∀ s k gathered, P s → P (pass s k gathered))
    {k : κ} {gathered : List α} {entries : List (κ × α)} {s : σ} (hs : P s) :
    P (passGroups pass k gathered entries s) := by
  have hgroup : ∀ k gathered, P (if gathered.isEmpty then s else pass s k gathered) := by
    intro k gathered
    split
    · exact hs
    · exact hpass s k gathered hs
  induction entries generalizing k gathered s with
  | nil => exact hgroup k gathered
  | cons p entries ih =>
    rw [passGroups]
    split
    · refine ih (hgroup k gathered) fun k' gathered' => ?_
      split
      · exact hgroup k gathered
      · exact hpass _ k' gathered' (hgroup k gathered)
    · exact ih hs hgroup

/-- If what is seen under a key is changed only by what is passed on under it, then it is
changed once, by all the values of the key. -/
theorem seen_passGroups {β : Type*} (seen : σ → κ → β) (change : β → List α → β)
    (hnil : ∀ b, change b [] = b)
    (hpass : ∀ s k k' gathered, seen (pass s k gathered) k' =
      if k = k' then change (seen s k') gathered else seen s k')
    {k : κ} {gathered : List α} {entries : List (κ × α)} {s : σ}
    (hsorted : entries.Pairwise fun p q => p.1 ≤ q.1)
    (hfirst : gathered ≠ [] → ∀ p ∈ entries, k ≤ p.1) (k' : κ) :
    seen (passGroups pass k gathered entries s) k' =
      change (seen s k') ((if k = k' then gathered else []) ++ valuesOf k' entries) := by
  have hgroup : ∀ s k gathered, seen (if gathered.isEmpty then s else pass s k gathered) k' =
      change (seen s k') (if k = k' then gathered else []) := by
    intro s k gathered
    cases gathered with
    | nil => simp [hnil]
    | cons v gathered =>
      rw [if_neg (by simp), hpass]
      by_cases hkey : k = k' <;> simp [hkey, hnil]
  induction entries generalizing k gathered s with
  | nil => rw [passGroups, hgroup, valuesOf_nil, List.append_nil]
  | cons p entries ih =>
    obtain ⟨hhead, htail⟩ := List.pairwise_cons.mp hsorted
    rw [passGroups, valuesOf_cons]
    split
    case isTrue hne =>
      rw [ih htail (fun _ => hhead), hgroup]
      by_cases hkey : k = k'
      · subst hkey
        cases gathered with
        | nil => simp [hnil]
        | cons v gathered =>
          -- the keys that follow are greater
          have hrest : valuesOf k entries = [] := by
            refine valuesOf_eq_nil fun q hq => ?_
            have hlt : k < p.1 := lt_of_le_of_ne (hfirst (List.cons_ne_nil _ _) p List.mem_cons_self) hne
            exact (hlt.trans_le (hhead q hq)).ne'
          simp [Ne.symm hne, hrest, hnil]
      · simp [hkey, hnil]
    case isFalse heq =>
      rw [not_ne_iff.mp heq, ih htail fun _ => hhead]
      by_cases hkey : p.1 = k' <;> simp [hkey]

/-- All the entries of a map are passed on in groups, whatever key the first values are
gathered under. -/
theorem seen_passGroups_entries {β : Type*} (seen : σ → κ → β) (change : β → List α → β)
    (hnil : ∀ b, change b [] = b)
    (hpass : ∀ s k k' gathered, seen (pass s k gathered) k' =
      if k = k' then change (seen s k') gathered else seen s k')
    (m : OrderedMultimap κ α) (k k' : κ) (s : σ) :
    seen (passGroups pass k [] m.entries s) k' = change (seen s k') (m.equalRange k') := by
  rw [seen_passGroups pass seen change hnil hpass m.sorted (fun h => absurd rfl h), ite_self, List.nil_append]
  rfl

end OrderedMultimap

end Dims
