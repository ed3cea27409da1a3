import Mathlib.Data.Finset.Image
import Mathlib.Data.Finset.Union
import Mathlib.Data.List.Basic

/-!
# Groups of related elements

Elements are admitted to groups pair by pair. A pair joins the groups all of whose members both
elements are related to; what they are related to of each other group becomes a group of its
own. If the relation is symmetric, the groups are cliques, and each pair that is related is in
one of them.
-/

namespace Dims.CliqueGroups

universe u

variable {κ : Type u} [DecidableEq κ] (r : κ → κ → Prop) [DecidableRel r]

/-- The members of a group that may stay with the pair. -/
def valid (first second : κ) (group : Finset κ) : Finset κ :=
  group.filter fun a => a = first ∨ a = second ∨ r first a ∧ r second a

def Compatible (first second : κ) (group : Finset κ) : Prop := valid r first second group = group

instance (first second : κ) : DecidablePred (Compatible r first second) := fun _ => decEq _ _

def joinGroups (first second : κ) (groups : Finset (Finset κ)) : Finset (Finset κ) :=
  if groups = ∅ then {{first}}
  else
    (groups ∪ (groups.filter fun group => ¬Compatible r first second group).image
        (valid r first second)) \ groups.filter (Compatible r first second) ∪
      (groups.filter (Compatible r first second)).image (· ∪ {first, second})

/-- The pair is admitted if the second element is related to the first. -/
def step (first : κ) (groups : Finset (Finset κ)) (second : κ) : Finset (Finset κ) :=
  if r second first then joinGroups r first second groups else groups

def row (keys : List κ) (groups : Finset (Finset κ)) (first : κ) : Finset (Finset κ) :=
  keys.foldl (step r first) groups

def groups (keys : List κ) : Finset (Finset κ) := keys.foldl (row r keys) ∅

/-- A group contains the elements. -/
def Covers (groups : Finset (Finset κ)) (elements : Finset κ) : Prop :=
  ∃ group ∈ groups, elements ⊆ group

section Admit

variable {r} {first second : κ} {state : Finset (Finset κ)} {group elements : Finset κ}

theorem compatible_iff : Compatible r first second group ↔
    ∀ a ∈ group, a = first ∨ a = second ∨ r first a ∧ r second a := Finset.filter_eq_self

theorem valid_subset : valid r first second group ⊆ group := Finset.filter_subset _ _

theorem mem_joinGroups (h : state.Nonempty) : group ∈ joinGroups r first second state ↔
    (group ∈ state ∨ ∃ g ∈ state, ¬Compatible r first second g ∧ valid r first second g = group) ∧
      ¬(group ∈ state ∧ Compatible r first second group) ∨
    ∃ g ∈ state, Compatible r first second g ∧ g ∪ {first, second} = group := by
  rw [joinGroups, if_neg h.ne_empty]
  simp only [Finset.mem_union, Finset.mem_sdiff, Finset.mem_image, Finset.mem_filter, and_assoc]

theorem mem_joinGroups_of_compatible (hgroup : group ∈ state)
    (hcompatible : Compatible r first second group) :
    group ∪ {first, second} ∈ joinGroups r first second state :=
  (mem_joinGroups ⟨group, hgroup⟩).mpr (.inr ⟨group, hgroup, hcompatible, rfl⟩)

theorem mem_joinGroups_of_not_compatible (hgroup : group ∈ state)
    (hcompatible : ¬Compatible r first second group) : group ∈ joinGroups r first second state :=
  (mem_joinGroups ⟨group, hgroup⟩).mpr (.inl ⟨.inl hgroup, fun h => hcompatible h.2⟩)

theorem joinGroups_cases (h : state.Nonempty) (hgroup : group ∈ joinGroups r first second state) :
    (∃ g ∈ state, group ⊆ g) ∨
      ∃ g ∈ state, Compatible r first second g ∧ g ∪ {first, second} = group := by
  obtain ⟨hold | ⟨g, hg, -, rfl⟩, -⟩ | hjoined := (mem_joinGroups h).mp hgroup
  · exact .inl ⟨group, hold, subset_rfl⟩
  · exact .inl ⟨g, hg, valid_subset⟩
  · exact .inr hjoined

/-- What stays of a group is a group, unless the pair joins it. -/
theorem exists_mem_joinGroups (hgroup : group ∈ state) :
    ∃ g ∈ joinGroups r first second state, valid r first second group ⊆ g ∧
      (first ∈ g ∨ g = valid r first second group) := by
  by_cases hcompatible : Compatible r first second group
  · exact ⟨_, mem_joinGroups_of_compatible hgroup hcompatible,
      valid_subset.trans Finset.subset_union_left, .inl (by simp)⟩
  · by_cases hjoined : valid r first second group ∈ state ∧
        Compatible r first second (valid r first second group)
    · exact ⟨_, mem_joinGroups_of_compatible hjoined.1 hjoined.2, Finset.subset_union_left,
        .inl (by simp)⟩
    · refine ⟨_, (mem_joinGroups ⟨group, hgroup⟩).mpr (.inl ⟨.inr ?_, hjoined⟩), subset_rfl, .inr rfl⟩
      exact ⟨group, hgroup, hcompatible, rfl⟩

omit [DecidableEq κ] in
theorem Covers.mono {fewer : Finset κ} (h : Covers state elements) (hsub : fewer ⊆ elements) :
    Covers state fewer :=
  let ⟨group, hgroup, hin⟩ := h
  ⟨group, hgroup, hsub.trans hin⟩

theorem Covers.joinGroups (h : Covers state elements) : Covers (joinGroups r first second state) elements := by
  obtain ⟨group, hgroup, hin⟩ := h
  by_cases hcompatible : Compatible r first second group
  · exact ⟨_, mem_joinGroups_of_compatible hgroup hcompatible, hin.trans Finset.subset_union_left⟩
  · exact ⟨group, mem_joinGroups_of_not_compatible hgroup hcompatible, hin⟩

theorem Covers.step (h : Covers state elements) : Covers (step r first state second) elements := by
  unfold CliqueGroups.step
  split
  · exact h.joinGroups
  · exact h

theorem Covers.foldl_step (h : Covers state elements) (keys : List κ) :
    Covers (keys.foldl (CliqueGroups.step r first) state) elements :=
  keys.foldlRecOn (CliqueGroups.step r first) (motive := fun state => Covers state elements) h
    fun _ ht _ _ => ht.step

theorem Covers.foldl_row {keys : List κ} (h : Covers state elements) (rows : List κ) :
    Covers (rows.foldl (row r keys) state) elements :=
  rows.foldlRecOn (row r keys) (motive := fun state => Covers state elements) h
    fun _ ht _ _ => ht.foldl_step keys

theorem covers_of_empty {keys : List κ} (h : ∃ a ∈ keys, r a first) :
    Covers (keys.foldl (step r first) ∅) {first} := by
  induction keys with
  | nil => simp at h
  | cons b keys ih =>
    rw [List.foldl_cons]
    by_cases hb : r b first
    · have hopened : Covers (step r first ∅ b) {first} := by
        rw [step, if_pos hb, CliqueGroups.joinGroups, if_pos rfl]
        exact ⟨{first}, Finset.mem_singleton_self _, subset_rfl⟩
      exact hopened.foldl_step keys
    · rw [step, if_neg hb]
      obtain ⟨a, hin, ha⟩ := h
      obtain rfl | hin := List.mem_cons.mp hin
      · exact absurd ha hb
      · exact ih ⟨a, hin, ha⟩

end Admit

/-- The members of a group are keys, and each of them is related to all of them. -/
structure Cliques (keys : List κ) (groups : Finset (Finset κ)) : Prop where
  members : ∀ group ∈ groups, ∀ a ∈ group, a ∈ keys
  related : ∀ group ∈ groups, ∀ a ∈ group, ∀ b ∈ group, r a b

section Symmetric

variable {r} {keys : List κ} (hrefl : ∀ a ∈ keys, r a a)
  (hsymm : ∀ a ∈ keys, ∀ b ∈ keys, r a b → r b a) {first second : κ} (hfirst : first ∈ keys)
  {state : Finset (Finset κ)} {group : Finset κ}

include hrefl hsymm hfirst in
theorem Cliques.joinGroups (h : Cliques r keys state) (hsecond : second ∈ keys) (hpair : r second first) :
    Cliques r keys (joinGroups r first second state) := by
  by_cases hnonempty : state.Nonempty
  · constructor
    · intro group hgroup a ha
      obtain ⟨g, hg, hsub⟩ | ⟨g, hg, -, rfl⟩ := joinGroups_cases hnonempty hgroup
      · exact h.members g hg a (hsub ha)
      · simp only [Finset.mem_union, Finset.mem_insert, Finset.mem_singleton] at ha
        obtain ha | rfl | rfl := ha
        · exact h.members g hg a ha
        · exact hfirst
        · exact hsecond
    · intro group hgroup a ha b hb
      obtain ⟨g, hg, hsub⟩ | ⟨g, hg, hcompatible, rfl⟩ := joinGroups_cases hnonempty hgroup
      · exact h.related g hg a (hsub ha) b (hsub hb)
      · -- both elements of the pair are related to the members, and to each other
        have hpair' : r first second := hsymm second hsecond first hfirst hpair
        have hmember : ∀ c ∈ g, r first c ∧ r second c := by
          intro c hc
          obtain rfl | rfl | hboth := compatible_iff.mp hcompatible c hc
          · exact ⟨hrefl c hfirst, hpair⟩
          · exact ⟨hpair', hrefl c hsecond⟩
          · exact hboth
        have hback : ∀ c ∈ g, r c first ∧ r c second := fun c hc =>
          have hkey := h.members g hg c hc
          ⟨hsymm first hfirst c hkey (hmember c hc).1, hsymm second hsecond c hkey (hmember c hc).2⟩
        simp only [Finset.mem_union, Finset.mem_insert, Finset.mem_singleton] at ha hb
        obtain ha | rfl | rfl := ha <;> obtain hb | rfl | rfl := hb
        · exact h.related g hg a ha b hb
        · exact (hback a ha).1
        · exact (hback a ha).2
        · exact (hmember b hb).1
        · exact hrefl _ hfirst
        · exact hpair'
        · exact (hmember b hb).2
        · exact hpair
        · exact hrefl _ hsecond
  · rw [CliqueGroups.joinGroups, if_pos (Finset.not_nonempty_iff_eq_empty.mp hnonempty)]
    constructor
    · intro group hgroup a ha
      rw [Finset.mem_singleton.mp hgroup, Finset.mem_singleton] at ha
      exact ha ▸ hfirst
    · intro group hgroup a ha b hb
      rw [Finset.mem_singleton.mp hgroup, Finset.mem_singleton] at ha hb
      rw [ha, hb]
      exact hrefl first hfirst

include hrefl hsymm hfirst in
theorem Cliques.step (h : Cliques r keys state) (hsecond : second ∈ keys) :
    Cliques r keys (step r first state second) := by
  unfold CliqueGroups.step
  split
  case isTrue hpair => exact h.joinGroups hrefl hsymm hfirst hsecond hpair
  case isFalse => exact h

include hrefl hsymm hfirst in
theorem Cliques.foldl_step (h : Cliques r keys state) {part : List κ} (hpart : part ⊆ keys) :
    Cliques r keys (part.foldl (CliqueGroups.step r first) state) :=
  part.foldlRecOn (CliqueGroups.step r first) h fun _ ht _ ha =>
    ht.step hrefl hsymm hfirst (hpart ha)

include hrefl hsymm in
theorem Cliques.foldl_row (h : Cliques r keys state) {rows : List κ} (hrows : rows ⊆ keys) :
    Cliques r keys (rows.foldl (row r keys) state) :=
  rows.foldlRecOn (row r keys) h fun _ ht _ ha =>
    ht.foldl_step hrefl hsymm (hrows ha) (List.Subset.refl keys)

theorem step_near (hgroup : group ∈ state) (hnear : ∀ a ∈ group, r first a) :
    Covers (step r first state second) (insert first group) ∨ group ∈ step r first state second := by
  unfold step
  split
  case isTrue hpair =>
    by_cases hcompatible : Compatible r first second group
    · refine .inl ⟨_, mem_joinGroups_of_compatible hgroup hcompatible, fun a ha => ?_⟩
      obtain rfl | ha := Finset.mem_insert.mp ha
      · simp
      · exact Finset.mem_union_left _ ha
    · exact .inr (mem_joinGroups_of_not_compatible hgroup hcompatible)
  case isFalse => exact .inr hgroup

theorem covers_of_near {part : List κ} (hgroup : group ∈ state) (hnear : ∀ a ∈ group, r first a)
    (hsecond : second ∈ part) (hpair : r second first) (hnear' : ∀ a ∈ group, r second a) :
    Covers (part.foldl (step r first) state) (insert first group) := by
  induction part generalizing state with
  | nil => simp at hsecond
  | cons b part ih =>
    rw [List.foldl_cons]
    have hcases : Covers (step r first state b) (insert first group) ∨ group ∈ step r first state b :=
      step_near hgroup hnear
    obtain hjoined | hstays := hcases
    · exact hjoined.foldl_step part
    · obtain rfl | hlater := List.mem_cons.mp hsecond
      · have hcompatible : Compatible r first second group :=
          compatible_iff.mpr fun a ha => .inr (.inr ⟨hnear a ha, hnear' a ha⟩)
        have hjoined : Covers (step r first state second) (insert first group) := by
          rw [step, if_pos hpair]
          refine ⟨_, mem_joinGroups_of_compatible hgroup hcompatible, fun a ha => ?_⟩
          obtain rfl | ha := Finset.mem_insert.mp ha
          · simp
          · exact Finset.mem_union_left _ ha
        exact hjoined.foldl_step part
      · exact ih hstays hlater

include hrefl hsymm hfirst in
/-- After an admitted pair there is a group that the first element is in, or whose members it is
related to, with the members of an old one that both are related to. -/
theorem exists_near (hsecond : second ∈ keys) (hpair : r second first) (hgroup : group ∈ state) :
    ∃ g ∈ step r first state second, (∀ a ∈ group, r first a → r second a → a ∈ g) ∧
      (first ∈ g ∨ ∀ a ∈ g, r first a) := by
  have hadmitted : ∃ g ∈ joinGroups r first second state, valid r first second group ⊆ g ∧
      (first ∈ g ∨ g = valid r first second group) := exists_mem_joinGroups hgroup
  obtain ⟨g, hg, hsub, hcases⟩ := hadmitted
  rw [step, if_pos hpair]
  refine ⟨g, hg, fun a ha hnear hnear' => hsub ?_, hcases.imp_right ?_⟩
  · exact Finset.mem_filter.mpr ⟨ha, .inr (.inr ⟨hnear, hnear'⟩)⟩
  · rintro rfl a ha
    obtain rfl | rfl | hboth := (Finset.mem_filter.mp ha).2
    · exact hrefl a hfirst
    · exact hsymm a hsecond first hfirst hpair
    · exact hboth.1

include hrefl hsymm in
theorem covers_row (h : Cliques r keys state) {before after : List κ}
    (hkeys : keys = before ++ first :: after) (hsecond : second ∈ before ++ after)
    (hpair : r second first) : Covers (row r keys state first) {first} := by
  have hfirst : first ∈ keys := by simp [hkeys]
  have hsingle : ∀ g : Finset κ, first ∈ g → ({first} : Finset κ) ⊆ g := fun g hg =>
    Finset.singleton_subset_iff.mpr hg
  rw [row]
  obtain rfl | ⟨group, hgroup⟩ := state.eq_empty_or_nonempty
  · exact covers_of_empty ⟨first, hfirst, hrefl first hfirst⟩
  · by_cases hbefore : ∃ a ∈ before, r a first
    · -- a group near the element is there before the element meets itself
      obtain ⟨a, ha, hnear⟩ := hbefore
      obtain ⟨start, rest, rfl⟩ := List.append_of_mem ha
      have hkey : a ∈ keys := by simp [hkeys]
      obtain ⟨g, hg, -⟩ : Covers (start.foldl (step r first) state) ∅ :=
        Covers.foldl_step ⟨group, hgroup, Finset.empty_subset _⟩ start
      obtain ⟨g', hg', -, hin | hlocal⟩ := exists_near hrefl hsymm hfirst hkey hnear hg
      · have hcovers : Covers (step r first (start.foldl (step r first) state) a) {first} :=
          ⟨g', hg', hsingle g' hin⟩
        rw [hkeys, List.append_assoc, List.foldl_append, List.cons_append, List.foldl_cons]
        exact hcovers.foldl_step _
      · have hcovers : Covers ((rest ++ first :: after).foldl (step r first)
            (step r first (start.foldl (step r first) state) a)) (insert first g') :=
          covers_of_near hg' hlocal (List.mem_append_right _ List.mem_cons_self)
            (hrefl first hfirst) hlocal
        rw [hkeys, List.append_assoc, List.foldl_append, List.cons_append, List.foldl_cons]
        exact hcovers.mono (hsingle _ (Finset.mem_insert_self _ _))
    · -- otherwise a group near the element has only later members
      have hpart : before ⊆ keys := by simp [hkeys]
      have hclique := h.foldl_step hrefl hsymm hfirst hpart
      obtain ⟨g, hg, -⟩ : Covers (before.foldl (step r first) state) ∅ :=
        Covers.foldl_step ⟨group, hgroup, Finset.empty_subset _⟩ before
      obtain ⟨g', hg', -, hcases⟩ := exists_near hrefl hsymm hfirst hfirst (hrefl first hfirst) hg
      have hclique' := hclique.step hrefl hsymm hfirst hfirst
      have hsplit : keys.foldl (step r first) state = after.foldl (step r first)
          (step r first (before.foldl (step r first) state) first) := by
        rw [hkeys, List.foldl_append, List.foldl_cons]
      rw [hsplit]
      by_cases hin : first ∈ g'
      · exact Covers.foldl_step ⟨g', hg', hsingle g' hin⟩ after
      · have hlocal := hcases.resolve_left hin
        have hafter : ∀ a ∈ keys, r a first → a ≠ first → a ∈ after := by
          intro a ha hnear hne
          rw [hkeys] at ha
          obtain ha | ha := List.mem_append.mp ha
          · exact absurd ⟨a, ha, hnear⟩ hbefore
          · exact (List.mem_cons.mp ha).resolve_left hne
        have hhit : ∃ a ∈ after, r a first ∧ ∀ b ∈ g', r a b := by
          obtain rfl | ⟨a, ha⟩ := g'.eq_empty_or_nonempty
          · obtain hold | hlater := List.mem_append.mp hsecond
            · exact absurd ⟨second, hold, hpair⟩ hbefore
            · exact ⟨second, hlater, hpair, by simp⟩
          · have hkey := hclique'.members g' hg' a ha
            have hnear := hsymm first hfirst a hkey (hlocal a ha)
            have hne : a ≠ first := fun heq => hin (heq ▸ ha)
            exact ⟨a, hafter a hkey hnear hne, hnear, hclique'.related g' hg' a ha⟩
        obtain ⟨a, ha, hnear, hall⟩ := hhit
        exact (covers_of_near hg' hlocal ha hnear hall).mono (hsingle _ (Finset.mem_insert_self _ _))

include hrefl hsymm in
theorem cliques_groups : Cliques r keys (groups r keys) :=
  Cliques.foldl_row hrefl hsymm ⟨by simp, by simp⟩ (List.Subset.refl keys)

include hrefl hsymm in
/-- An element that is in a group is in one with each later element that it is related to, when
the row of that element is done. -/
theorem Covers.row (h : Covers state {first}) {before after : List κ}
    (hkeys : keys = before ++ first :: after) (hsecond : second ∈ after) (hpair : r first second) :
    Covers (row r keys state second) {first, second} := by
  have hfirst : first ∈ keys := by simp [hkeys]
  have hsecond' : second ∈ keys := by simp [hkeys, hsecond]
  have hpair' : r second first := hsymm first hfirst second hsecond' hpair
  have hmet : Covers (before.foldl (CliqueGroups.step r second) state) {first} := h.foldl_step before
  obtain ⟨group, hgroup, hin⟩ := hmet
  obtain ⟨g, hg, hkept, hcases⟩ := exists_near hrefl hsymm hsecond' hfirst hpair hgroup
  have hfirst' : first ∈ g :=
    hkept first (Finset.singleton_subset_iff.mp hin) hpair' (hrefl first hfirst)
  rw [CliqueGroups.row, hkeys, List.foldl_append, List.foldl_cons]
  obtain hjoined | hlocal := hcases
  · have hboth : ({first, second} : Finset κ) ⊆ g :=
      Finset.insert_subset hfirst' (Finset.singleton_subset_iff.mpr hjoined)
    exact Covers.foldl_step ⟨g, hg, hboth⟩ after
  · have hcovers : Covers (after.foldl (CliqueGroups.step r second)
        (CliqueGroups.step r second (before.foldl (CliqueGroups.step r second) state) first)) (insert second g) :=
      covers_of_near hg hlocal hsecond (hrefl second hsecond') hlocal
    exact hcovers.mono (Finset.insert_subset (Finset.mem_insert_of_mem hfirst')
      (Finset.singleton_subset_iff.mpr (Finset.mem_insert_self _ _)))

include hrefl hsymm in
theorem covers_groups_of_lt {before between after : List κ}
    (hkeys : keys = before ++ first :: (between ++ second :: after)) (hpair : r first second) :
    Covers (groups r keys) {first, second} := by
  have hfirst : first ∈ keys := by simp [hkeys]
  have hsecond : second ∈ keys := by simp [hkeys]
  have hpair' : r second first := hsymm first hfirst second hsecond hpair
  have hempty : Cliques r keys (∅ : Finset (Finset κ)) := ⟨by simp, by simp⟩
  have hearlier : before ⊆ keys := by simp [hkeys]
  have hlater : second ∈ before ++ (between ++ second :: after) := by simp
  have hstart := hempty.foldl_row hrefl hsymm hearlier
  have hsplit : ∀ state : Finset (Finset κ), (before ++ first :: (between ++ second :: after)).foldl
      (row r keys) state = after.foldl (row r keys) (row r keys (between.foldl (row r keys)
        (row r keys (before.foldl (row r keys) state) first)) second) := by
    intro state
    rw [List.foldl_append, List.foldl_cons, List.foldl_append, List.foldl_cons]
  -- the row of the first element, those up to the second, and the row of the second
  have hrow : Covers (row r keys (before.foldl (row r keys) ∅) first) {first} :=
    covers_row hrefl hsymm hstart hkeys hlater hpair'
  have hrows : Covers (between.foldl (row r keys) (row r keys (before.foldl (row r keys) ∅) first))
      {first} := hrow.foldl_row between
  have hdone := hrows.row hrefl hsymm hkeys (by simp) hpair
  have hgroups : groups r keys =
      (before ++ first :: (between ++ second :: after)).foldl (row r keys) ∅ :=
    congrArg (List.foldl (row r keys) ∅) hkeys
  rw [hgroups, hsplit]
  exact hdone.foldl_row after

include hrefl hsymm in
theorem covers_groups (hfirst : first ∈ keys) (hsecond : second ∈ keys) (hne : first ≠ second)
    (hpair : r first second) : Covers (groups r keys) {first, second} := by
  obtain ⟨before, after, hkeys⟩ := List.append_of_mem hfirst
  have hmem : second ∈ before ++ first :: after := hkeys ▸ hsecond
  obtain hbefore | hafter := List.mem_append.mp hmem
  · obtain ⟨start, between, rfl⟩ := List.append_of_mem hbefore
    rw [Finset.pair_comm]
    have hsplit : keys = start ++ second :: (between ++ first :: after) := by
      rw [hkeys, List.append_assoc, List.cons_append]
    exact covers_groups_of_lt hrefl hsymm hsplit (hsymm first hfirst second hsecond hpair)
  · obtain ⟨between, rest, rfl⟩ :=
      List.append_of_mem ((List.mem_cons.mp hafter).resolve_left hne.symm)
    exact covers_groups_of_lt hrefl hsymm hkeys hpair

end Symmetric

/-- The first two elements come into one group even if only one is related to the other. -/
theorem covers_of_first {first second : κ} {after : List κ} (hrefl : r first first)
    (hpair : r second first) : Covers (groups r (first :: second :: after)) {first, second} := by
  have hopened : step r first ∅ first = {{first}} := by
    rw [step, if_pos hrefl, joinGroups, if_pos rfl]
  have hjoined : Covers (step r first {{first}} second) {first, second} := by
    have hcompatible : Compatible r first second {first} :=
      compatible_iff.mpr fun a ha => .inl (Finset.mem_singleton.mp ha)
    rw [step, if_pos hpair]
    exact ⟨_, mem_joinGroups_of_compatible (Finset.mem_singleton_self _) hcompatible,
      Finset.subset_union_right⟩
  have hrow : Covers (row r (first :: second :: after) ∅ first) {first, second} := by
    rw [row, List.foldl_cons, hopened, List.foldl_cons]
    exact hjoined.foldl_step after
  exact hrow.foldl_row (second :: after)

end Dims.CliqueGroups
