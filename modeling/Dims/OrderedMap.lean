import Mathlib.Data.Finset.Insert
import Mathlib.Data.List.Pairwise
import Mathlib.Order.Basic
import Mathlib.Data.Finset.Dedup
import Mathlib.Logic.Function.Basic

/-!
# Maps as ordered lists of entries

A finite map that is gone through in the order of its keys, each key once. What a
map holds is described by `lookup`; the order of the entries is seen by those who
go through them.
-/

namespace Dims

universe u v w

structure OrderedMap (κ : Type u) (α : Type v) [LinearOrder κ] where
  entries : List (κ × α)
  sorted : entries.Pairwise fun p q => p.1 < q.1

namespace OrderedMap

variable {κ : Type u} {α : Type v} {β : Type w} [LinearOrder κ]

def empty : OrderedMap κ α := ⟨[], .nil⟩

def lookup (m : OrderedMap κ α) (k : κ) : Option α :=
  (m.entries.find? fun p => p.1 = k).map Prod.snd

def assignEntries (k : κ) (v : α) : List (κ × α) → List (κ × α)
  | [] => [(k, v)]
  | p :: entries =>
    if k = p.1 then (k, v) :: entries
    else if k < p.1 then (k, v) :: p :: entries
    else p :: assignEntries k v entries

theorem key_of_mem_assignEntries {k : κ} {v : α} {entries : List (κ × α)} {p : κ × α}
    (h : p ∈ assignEntries k v entries) : p.1 = k ∨ p ∈ entries := by
  induction entries with
  | nil =>
    rw [List.mem_singleton.mp h]
    exact .inl rfl
  | cons q entries ih =>
    rw [assignEntries] at h
    split at h
    · rcases List.mem_cons.mp h with rfl | hrest
      · exact .inl rfl
      · exact .inr (List.mem_cons_of_mem _ hrest)
    · split at h
      · rcases List.mem_cons.mp h with rfl | hrest
        · exact .inl rfl
        · exact .inr hrest
      · rcases List.mem_cons.mp h with rfl | hrest
        · exact .inr List.mem_cons_self
        · exact (ih hrest).imp_right (List.mem_cons_of_mem _)

theorem sorted_assignEntries (k : κ) (v : α) {entries : List (κ × α)}
    (h : entries.Pairwise fun p q => p.1 < q.1) :
    (assignEntries k v entries).Pairwise fun p q => p.1 < q.1 := by
  induction entries with
  | nil => exact List.pairwise_singleton _ _
  | cons q entries ih =>
    obtain ⟨hhead, htail⟩ := List.pairwise_cons.mp h
    rw [assignEntries]
    split
    case isTrue heq =>
      subst heq
      exact List.pairwise_cons.mpr ⟨hhead, htail⟩
    case isFalse hne =>
      split
      case isTrue hlt =>
        refine List.pairwise_cons.mpr ⟨fun p hp => ?_, h⟩
        rcases List.mem_cons.mp hp with rfl | hrest
        · exact hlt
        · exact hlt.trans (hhead p hrest)
      case isFalse hge =>
        refine List.pairwise_cons.mpr ⟨fun p hp => ?_, ih htail⟩
        rcases key_of_mem_assignEntries hp with hkey | hold
        · rw [hkey]
          exact lt_of_le_of_ne (not_lt.mp hge) (Ne.symm hne)
        · exact hhead p hold

/-- `m[k] = v` -/
def assign (m : OrderedMap κ α) (k : κ) (v : α) : OrderedMap κ α :=
  ⟨assignEntries k v m.entries, sorted_assignEntries k v m.sorted⟩

def mapValues (f : α → β) (m : OrderedMap κ α) : OrderedMap κ β :=
  ⟨m.entries.map fun p => (p.1, f p.2), by
    rw [List.pairwise_map]
    exact m.sorted⟩

def keys (m : OrderedMap κ α) : Finset κ := (m.entries.map Prod.fst).toFinset

@[simp] theorem lookup_empty (k : κ) : (empty : OrderedMap κ α).lookup k = none := rfl

theorem mem_entries {m : OrderedMap κ α} {k : κ} {v : α} :
    (k, v) ∈ m.entries ↔ m.lookup k = some v := by
  obtain ⟨entries, hsorted⟩ := m
  change (k, v) ∈ entries ↔ (entries.find? fun p => p.1 = k).map Prod.snd = some v
  induction entries with
  | nil => simp
  | cons p entries ih =>
    obtain ⟨hhead, htail⟩ := List.pairwise_cons.mp hsorted
    rw [List.mem_cons, List.find?_cons]
    by_cases hkey : p.1 = k
    · simp only [hkey, decide_true, Option.map_some, Option.some.injEq]
      constructor
      · rintro (rfl | hrest)
        · rfl
        · exact absurd hkey (hhead _ hrest).ne
      · rintro rfl
        exact .inl (Prod.ext hkey.symm rfl)
    · simp only [hkey, decide_false]
      rw [← ih htail]
      refine or_iff_right fun heq => hkey ?_
      rw [← heq]

theorem assignEntries_idem (k : κ) (v : α) (entries : List (κ × α)) :
    assignEntries k v (assignEntries k v entries) = assignEntries k v entries := by
  induction entries with
  | nil => simp [assignEntries]
  | cons p entries ih =>
    by_cases hkey : k = p.1
    · simp [assignEntries, hkey]
    · by_cases hlt : k < p.1
      · simp [assignEntries, hkey, hlt]
      · simp [assignEntries, hkey, hlt, ih]

theorem assign_assign_self (m : OrderedMap κ α) (k : κ) (v : α) :
    (m.assign k v).assign k v = m.assign k v := by
  simp only [assign, assignEntries_idem]

theorem filter_entries (m : OrderedMap κ α) (k : κ) :
    m.entries.filter (fun p => p.1 = k) = ((m.lookup k).map (Prod.mk k)).toList := by
  obtain ⟨entries, hsorted⟩ := m
  change entries.filter (fun p => p.1 = k) =
    (((entries.find? fun p => p.1 = k).map Prod.snd).map (Prod.mk k)).toList
  induction entries with
  | nil => rfl
  | cons p entries ih =>
    obtain ⟨hhead, htail⟩ := List.pairwise_cons.mp hsorted
    rw [List.filter_cons, List.find?_cons]
    by_cases hkey : p.1 = k
    · subst hkey
      have hrest : entries.filter (fun q => q.1 = p.1) = [] := by
        refine List.filter_eq_nil_iff.mpr fun q hq => ?_
        simpa using (hhead q hq).ne'
      simp [hrest]
    · simp [hkey, ih htail]

theorem exists_mem_values_iff {m : OrderedMap κ α} {key : α → κ}
    (h : ∀ k v, m.lookup k = some v → key v = k) {P : α → Prop} {k : κ} :
    (∃ v ∈ m.entries.map Prod.snd, P v ∧ key v = k) ↔ ∃ v, m.lookup k = some v ∧ P v := by
  constructor
  · rintro ⟨v, hv, hP, rfl⟩
    obtain ⟨⟨k, v⟩, hentry, rfl⟩ := List.mem_map.mp hv
    have hlookup := mem_entries.mp hentry
    rw [h k v hlookup]
    exact ⟨v, hlookup, hP⟩
  · rintro ⟨v, hlookup, hP⟩
    exact ⟨v, List.mem_map.mpr ⟨(k, v), mem_entries.mpr hlookup, rfl⟩, hP, h k v hlookup⟩

@[simp] theorem mem_keys {m : OrderedMap κ α} {k : κ} : k ∈ m.keys ↔ ∃ v, m.lookup k = some v := by
  simp only [keys, List.mem_toFinset, List.mem_map, Prod.exists, exists_and_right, exists_eq_right,
    mem_entries]

@[simp] theorem lookup_assign_self (m : OrderedMap κ α) (k : κ) (v : α) :
    (m.assign k v).lookup k = some v := by
  rw [← mem_entries]
  obtain ⟨entries, hsorted⟩ := m
  change (k, v) ∈ assignEntries k v entries
  clear hsorted
  induction entries with
  | nil => exact List.mem_cons_self
  | cons p entries ih =>
    rw [assignEntries]
    split
    · exact List.mem_cons_self
    · split
      · exact List.mem_cons_self
      · exact List.mem_cons_of_mem _ ih

theorem lookup_assign_of_ne {m : OrderedMap κ α} {k k' : κ} (h : k' ≠ k) (v : α) :
    (m.assign k v).lookup k' = m.lookup k' := by
  obtain ⟨entries, hsorted⟩ := m
  change ((assignEntries k v entries).find? fun p => p.1 = k').map Prod.snd =
    (entries.find? fun p => p.1 = k').map Prod.snd
  clear hsorted
  induction entries with
  | nil => simp [assignEntries, h.symm]
  | cons p entries ih =>
    rw [assignEntries]
    split
    case isTrue heq =>
      have hp : p.1 ≠ k' := fun hkey => h (hkey.symm.trans heq.symm)
      simp [h.symm, hp]
    case isFalse =>
      split
      · simp [List.find?_cons, h.symm]
      · rw [List.find?_cons, List.find?_cons]
        split
        · rfl
        · exact ih

theorem eq_or_lookup_of_assign {m : OrderedMap κ α} {k k' : κ} {v w : α}
    (h : (m.assign k v).lookup k' = some w) : k' = k ∧ w = v ∨ m.lookup k' = some w := by
  by_cases hkey : k' = k
  · subst hkey
    rw [lookup_assign_self] at h
    exact .inl ⟨rfl, (Option.some.inj h).symm⟩
  · rw [lookup_assign_of_ne hkey] at h
    exact .inr h

theorem keys_assign (m : OrderedMap κ α) (k : κ) (v : α) :
    (m.assign k v).keys = insert k m.keys := by
  ext k'
  rw [Finset.mem_insert, mem_keys, mem_keys]
  by_cases hkey : k' = k
  · subst hkey
    simp
  · rw [lookup_assign_of_ne hkey]
    simp [hkey]

@[simp] theorem lookup_mapValues (f : α → β) (m : OrderedMap κ α) (k : κ) :
    (m.mapValues f).lookup k = (m.lookup k).map f := by
  obtain ⟨entries, hsorted⟩ := m
  change ((entries.map fun p => (p.1, f p.2)).find? fun p => p.1 = k).map Prod.snd =
    ((entries.find? fun p => p.1 = k).map Prod.snd).map f
  rw [List.find?_map, Option.map_map, Option.map_map]
  rfl

def filter (p : κ → α → Bool) (m : OrderedMap κ α) : OrderedMap κ α :=
  ⟨m.entries.filter fun e => p e.1 e.2, m.sorted.filter _⟩

theorem lookup_filter (p : κ → α → Bool) (m : OrderedMap κ α) (k : κ) :
    (m.filter p).lookup k = (m.lookup k).filter (p k) := by
  ext v
  rw [← mem_entries, Option.filter_eq_some_iff, ← mem_entries]
  exact List.mem_filter

def erase (m : OrderedMap κ α) (k : κ) : OrderedMap κ α := m.filter fun a _ => a ≠ k

@[simp] theorem lookup_erase_self (m : OrderedMap κ α) (k : κ) : (m.erase k).lookup k = none := by
  rw [erase, lookup_filter]
  cases m.lookup k <;> simp

theorem lookup_erase_of_ne {m : OrderedMap κ α} {k k' : κ} (h : k' ≠ k) :
    (m.erase k).lookup k' = m.lookup k' := by
  rw [erase, lookup_filter]
  cases m.lookup k' <;> simp [h]

theorem lookup_foldl_erase (ks : List κ) (m : OrderedMap κ α) (k : κ) :
    (ks.foldl erase m).lookup k = if k ∈ ks then none else m.lookup k := by
  induction ks generalizing m with
  | nil => simp
  | cons first ks ih =>
    rw [List.foldl_cons, ih]
    by_cases hkey : k = first
    · subst hkey
      simp
    · rw [lookup_erase_of_ne hkey]
      simp [hkey]

/-- Insertion that leaves an entry which is there already. -/
def insertNew (m : OrderedMap κ α) (k : κ) (v : α) : OrderedMap κ α :=
  if (m.lookup k).isSome then m else m.assign k v

theorem lookup_insertNew_self (m : OrderedMap κ α) (k : κ) (v : α) :
    (m.insertNew k v).lookup k = some ((m.lookup k).getD v) := by
  unfold insertNew
  cases h : m.lookup k with
  | none => simp
  | some w => simp [h]

theorem lookup_insertNew_of_ne {m : OrderedMap κ α} {k k' : κ} (h : k' ≠ k) (v : α) :
    (m.insertNew k v).lookup k' = m.lookup k' := by
  unfold insertNew
  split
  · rfl
  · exact lookup_assign_of_ne h v

theorem insertNew_of_isSome {m : OrderedMap κ α} {k : κ} (h : (m.lookup k).isSome) (v : α) :
    m.insertNew k v = m :=
  if_pos h

theorem eq_or_lookup_of_insertNew {m : OrderedMap κ α} {k k' : κ} {v w : α}
    (h : (m.insertNew k v).lookup k' = some w) : k' = k ∧ w = v ∨ m.lookup k' = some w := by
  by_cases hkey : k' = k
  · subst hkey
    rw [lookup_insertNew_self] at h
    cases hold : m.lookup k' with
    | none =>
      rw [hold] at h
      exact .inl ⟨rfl, (Option.some.inj h).symm⟩
    | some old =>
      rw [hold] at h
      exact .inr h
  · rw [lookup_insertNew_of_ne hkey] at h
    exact .inr h

theorem lookup_foldl_insertNew (key : α → κ) (values : List α) (m : OrderedMap κ α) (k : κ) :
    (values.foldl (fun m v => m.insertNew (key v) v) m).lookup k =
      (m.lookup k).or (values.find? fun v => key v = k) := by
  induction values generalizing m with
  | nil => simp
  | cons v values ih =>
    rw [List.foldl_cons, ih, List.find?_cons]
    by_cases hkey : key v = k
    · subst hkey
      rw [lookup_insertNew_self]
      cases m.lookup (key v) <;> simp
    · rw [lookup_insertNew_of_ne (Ne.symm hkey)]
      simp [hkey]

theorem foldl_insertNew_of_isSome {key : α → κ} {values : List α} {m : OrderedMap κ α}
    (h : ∀ v ∈ values, (m.lookup (key v)).isSome) :
    values.foldl (fun m v => m.insertNew (key v) v) m = m := by
  induction values with
  | nil => rfl
  | cons v values ih =>
    obtain ⟨hfirst, hrest⟩ := List.forall_mem_cons.mp h
    rw [List.foldl_cons, insertNew_of_isSome hfirst]
    exact ih hrest

/-- Insertion of all the entries of a map; those that are there already stay. -/
def insertAll (m other : OrderedMap κ α) : OrderedMap κ α :=
  other.entries.foldl (fun m p => m.insertNew p.1 p.2) m

theorem lookup_insertAll (m other : OrderedMap κ α) (k : κ) :
    (m.insertAll other).lookup k = (m.lookup k).or (other.lookup k) := by
  obtain ⟨entries, hsorted⟩ := other
  change (entries.foldl (fun m p => m.insertNew p.1 p.2) m).lookup k =
    (m.lookup k).or ((entries.find? fun p => p.1 = k).map Prod.snd)
  clear hsorted
  induction entries generalizing m with
  | nil => simp
  | cons p entries ih =>
    rw [List.foldl_cons, ih, List.find?_cons]
    by_cases hkey : p.1 = k
    · subst hkey
      rw [lookup_insertNew_self]
      cases m.lookup p.1 <;> simp
    · rw [lookup_insertNew_of_ne (Ne.symm hkey)]
      simp [hkey]

theorem isSome_lookup_assign {m : OrderedMap κ α} {k k' : κ} {v : α} :
    ((m.assign k v).lookup k').isSome ↔ k' = k ∨ (m.lookup k').isSome := by
  by_cases hkey : k' = k
  · subst hkey
    simp
  · simp [lookup_assign_of_ne hkey, hkey]

theorem isSome_lookup_insertNew {m : OrderedMap κ α} {k k' : κ} {v : α} :
    ((m.insertNew k v).lookup k').isSome ↔ k' = k ∨ (m.lookup k').isSome := by
  by_cases hkey : k' = k
  · subst hkey
    simp [lookup_insertNew_self]
  · simp [lookup_insertNew_of_ne hkey, hkey]

theorem isSome_lookup_erase {m : OrderedMap κ α} {k k' : κ} :
    ((m.erase k).lookup k').isSome ↔ k' ≠ k ∧ (m.lookup k').isSome := by
  by_cases hkey : k' = k
  · subst hkey
    simp
  · simp [lookup_erase_of_ne hkey, hkey]

/-- To set every entry, one after the other, is to prefer what is looked up. `seen` is what is
looked at of the state. -/
theorem seen_foldl_entries {σ : Type*} (seen : σ → κ → Option α) (set : σ → κ → α → σ)
    (hset : ∀ s k v k', seen (set s k v) k' = if k = k' then some v else seen s k')
    (m : OrderedMap κ α) (s : σ) (k : κ) :
    seen (m.entries.foldl (fun s p => set s p.1 p.2) s) k = (m.lookup k).or (seen s k) := by
  obtain ⟨entries, hsorted⟩ := m
  change seen (entries.foldl (fun s p => set s p.1 p.2) s) k =
    ((entries.find? fun p => p.1 = k).map Prod.snd).or (seen s k)
  induction entries generalizing s with
  | nil => rfl
  | cons p entries ih =>
    obtain ⟨hhead, htail⟩ := List.pairwise_cons.mp hsorted
    rw [List.foldl_cons, ih _ htail, hset, List.find?_cons]
    by_cases hkey : p.1 = k
    · -- the key comes once
      have hnone : (entries.find? fun q => q.1 = k) = none := by
        refine List.find?_eq_none.mpr fun q hq heq => ?_
        have hlt := hhead q hq
        rw [hkey, of_decide_eq_true heq] at hlt
        exact lt_irrefl _ hlt
      simp [hkey, hnone]
    · simp [hkey]

theorem foldl_update (m : OrderedMap κ α) (f : κ → Option α) (k : κ) :
    m.entries.foldl (fun (g : κ → Option α) p => Function.update g p.1 (some p.2)) f k =
      (m.lookup k).or (f k) := by
  refine seen_foldl_entries (fun g k => g k) (fun g k v => Function.update g k (some v)) ?_ m f k
  intro g k v k'
  rw [Function.update_apply]
  simp only [eq_comm]

/-- Where values are kept under the keys they name, to assign what is made of each value is to
prefer it to what is looked up. -/
theorem lookup_foldl_assign {m : OrderedMap κ α} {key : α → κ}
    (h : ∀ k v, m.lookup k = some v → key v = k) (f : α → Option β) (g : OrderedMap κ β) (k : κ) :
    ((m.entries.map Prod.snd).foldl (fun g v => (f v).elim g (g.assign (key v))) g).lookup k =
      ((m.lookup k).bind f).or (g.lookup k) := by
  have hkeys : ∀ p ∈ m.entries, key p.2 = p.1 := fun p hp => h p.1 p.2 (mem_entries.mp hp)
  clear h
  obtain ⟨entries, hsorted⟩ := m
  change ((entries.map Prod.snd).foldl _ g).lookup k =
    (((entries.find? fun p => p.1 = k).map Prod.snd).bind f).or (g.lookup k)
  induction entries generalizing g with
  | nil => rfl
  | cons p entries ih =>
    obtain ⟨hhead, htail⟩ := List.pairwise_cons.mp hsorted
    obtain ⟨hfirst, hkeys⟩ := List.forall_mem_cons.mp hkeys
    rw [List.map_cons, List.foldl_cons, ih _ htail hkeys, List.find?_cons, hfirst]
    by_cases hkey : p.1 = k
    · have hnone : (entries.find? fun q => q.1 = k) = none := by
        refine List.find?_eq_none.mpr fun q hq heq => ?_
        have hlt := hhead q hq
        rw [hkey, of_decide_eq_true heq] at hlt
        exact lt_irrefl _ hlt
      cases hf : f p.2 <;> simp [hnone, hkey, hf]
    · have hsame : ((f p.2).elim g (g.assign p.1)).lookup k = g.lookup k := by
        cases f p.2 with
        | none => rfl
        | some w => exact lookup_assign_of_ne (Ne.symm hkey) w
      simp only [hsame, hkey, decide_false]

/-- The first entry of a kind, in the order of the keys. -/
def findEntry (m : OrderedMap κ α) (p : κ → α → Bool) : Option (κ × α) :=
  m.entries.find? fun e => p e.1 e.2

theorem findEntry_eq_none_iff {m : OrderedMap κ α} {p : κ → α → Bool} :
    m.findEntry p = none ↔ ∀ k v, m.lookup k = some v → p k v = false := by
  simp only [findEntry, List.find?_eq_none, Prod.forall, mem_entries, Bool.not_eq_true]

theorem findEntry_eq_some_iff {m : OrderedMap κ α} {p : κ → α → Bool} {k : κ} {v : α} :
    m.findEntry p = some (k, v) ↔ m.lookup k = some v ∧ p k v = true ∧
      ∀ k' < k, ∀ v', m.lookup k' = some v' → p k' v' = false := by
  simp only [← mem_entries, findEntry]
  obtain ⟨entries, hsorted⟩ := m
  dsimp only
  induction entries with
  | nil => simp
  | cons e entries ih =>
    obtain ⟨hhead, htail⟩ := List.pairwise_cons.mp hsorted
    rw [List.find?_cons]
    cases he : p e.1 e.2 with
    | true =>
      simp only [Option.some.injEq]
      constructor
      · rintro rfl
        refine ⟨List.mem_cons_self, he, fun k' hlt v' hmem => ?_⟩
        rcases List.mem_cons.mp hmem with heq | hrest
        · cases heq
          exact absurd hlt (lt_irrefl _)
        · exact absurd hlt (hhead _ hrest).asymm
      · rintro ⟨hmem, -, hfirst⟩
        rcases List.mem_cons.mp hmem with heq | hrest
        · exact heq.symm
        · rw [hfirst e.1 (hhead _ hrest) e.2 List.mem_cons_self] at he
          cases he
    | false =>
      refine (ih htail).trans ?_
      constructor
      · rintro ⟨hmem, hp, hfirst⟩
        refine ⟨List.mem_cons_of_mem _ hmem, hp, fun k' hlt v' hin => ?_⟩
        rcases List.mem_cons.mp hin with rfl | hrest
        · exact he
        · exact hfirst k' hlt v' hrest
      · rintro ⟨hmem, hp, hfirst⟩
        rcases List.mem_cons.mp hmem with rfl | hrest
        · rw [hp] at he
          cases he
        · exact ⟨hrest, hp, fun k' hlt v' hin => hfirst k' hlt v' (List.mem_cons_of_mem _ hin)⟩

end OrderedMap

end Dims
