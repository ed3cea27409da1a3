import Dims.HeaderRecords
import Dims.BuddyAllocation

/-!
# Where transactions are placed

A position is taken in the first block of the bucket that has room, or in a new one.
-/

namespace Dims.CSegmentFileStorage
open CSimpleBuddy HeapTree

variable {ctx : StorageContext} {s s' : CSegmentFileStorage} {location : CLocation}

def TreesWellFormed (buddies : CLocation → Option CSimpleBuddy) : Prop :=
  ∀ location tree, buddies location = some tree → tree.WellFormed

theorem TreesWellFormed.update {buddies : CLocation → Option CSimpleBuddy} {tree : CSimpleBuddy}
    (h : TreesWellFormed buddies) (htree : tree.WellFormed) (location : CLocation) :
    TreesWellFormed (Function.update buddies location (some tree)) := by
  intro location' tree' hin
  by_cases hkey : location' = location
  · rw [hkey, Function.update_self] at hin
    cases hin
    exact htree
  · rw [Function.update_of_ne hkey] at hin
    exact h location' tree' hin

theorem TreesWellFormed.insertNew {buddies : CLocation → Option CSimpleBuddy} {tree : CSimpleBuddy}
    (h : TreesWellFormed buddies) (htree : tree.WellFormed) (location : CLocation) :
    TreesWellFormed (insertNew buddies location tree) := by
  intro location' tree' hin
  by_cases hkey : location' = location
  · rw [hkey, insertNew_self] at hin
    obtain hold | ⟨-, heq⟩ := Option.or_eq_some_iff.mp hin
    · exact h location tree' hold
    · rwa [← Option.some.inj heq]
  · rw [insertNew_of_ne hkey] at hin
    exact h location' tree' hin

theorem isSome_update {buddies : CLocation → Option CSimpleBuddy} {buddy buddy' : CSimpleBuddy}
    {location' : CLocation} (h : buddies location' = some buddy) :
    (Function.update buddies location' (some buddy') location).isSome ↔
      (buddies location).isSome := by
  by_cases hkey : location = location'
  · subst hkey
    rw [Function.update_self, h]
    exact Iff.rfl
  · rw [Function.update_of_ne hkey]

/-- The search changes trees that are in the map, and finds an area in one of them. -/
theorem allocInBuddies_spec {bucket requestedLevel count i : ℕ}
    {buddies buddies' : CLocation → Option CSimpleBuddy} {place : Option (ℕ × ℕ)}
    (hlevel : requestedLevel ≤ baseLevel)
    (h : allocInBuddies bucket requestedLevel count i buddies = some (place, buddies')) :
    (∀ location, (buddies' location).isSome ↔ (buddies location).isSome) ∧
      (TreesWellFormed buddies → TreesWellFormed buddies') ∧
      ∀ found, place = some found →
        (buddies (CLocation.ofBucket bucket found.1)).isSome ∧
          ∃ k < 2 ^ requestedLevel, found.2 = start baseLevel requestedLevel k := by
  induction count generalizing i buddies with
  | zero =>
    cases h
    exact ⟨fun _ => Iff.rfl, id, nofun⟩
  | succ count ih =>
    obtain ⟨buddy, hbuddy, h⟩ := Option.bind_eq_some_iff.mp h
    have hshape : TreesWellFormed buddies → TreesWellFormed (Function.update buddies
        (CLocation.ofBucket bucket i) (some (buddy.buddyAlloc requestedLevel).2)) :=
      fun hold => hold.update ((hold _ _ hbuddy).buddyAlloc hlevel) _
    cases hallocated : buddy.buddyAlloc requestedLevel with
    | mk offset tree =>
      simp only [hallocated] at h hshape
      cases offset with
      | some index =>
        cases h
        refine ⟨fun location => isSome_update hbuddy, hshape, fun found hfound => ?_⟩
        cases hfound
        exact ⟨Option.isSome_of_mem hbuddy, buddyAlloc_start hlevel hallocated⟩
      | none =>
        obtain ⟨hsome, hshapes, hplace⟩ := ih h
        exact ⟨fun location => (hsome location).trans (isSome_update hbuddy),
          fun hold => hshapes (hshape hold),
          fun found hfound => (hplace found hfound).imp_left (isSome_update hbuddy).mp⟩

/-- What `assignPosition` does to the storage: the map of trees grows by at most one location of
a bucket, and the position that is returned lies in a block of the map. -/
structure Placed (s : CSegmentFileStorage) (position : Option UInt64) (s' : CSegmentFileStorage) :
    Prop where
  frame : s' = { s with
    usedBuddy := s'.usedBuddy
    transactionLocationToBuddy := s'.transactionLocationToBuddy
    locationUsedFromLastUpdate := s'.locationUsedFromLastUpdate }
  marked : s.locationUsedFromLastUpdate ⊆ s'.locationUsedFromLastUpdate
  trees : ∀ location, (s.transactionLocationToBuddy location).isSome →
    (s'.transactionLocationToBuddy location).isSome
  regular : ∀ location, (s'.transactionLocationToBuddy location).isSome →
    (s.transactionLocationToBuddy location).isSome ∨ Regular location
  shapes : TreesWellFormed s.transactionLocationToBuddy →
    TreesWellFormed s'.transactionLocationToBuddy
  inMap : ∀ full, position = some full →
    (s'.transactionLocationToBuddy (CLocation.ofFullPosition full)).isSome

theorem calculateBucket_lt (hash : Uint256) : calculateBucket hash < maxBucket :=
  Nat.mod_lt _ (by decide)

theorem assignPosition_spec {tx : CTransaction} {position : Option UInt64}
    (h : s.assignPosition ctx tx = some (position, s')) : Placed s position s' := by
  unfold assignPosition at h
  have hbucket := calculateBucket_lt (tx.getHash ctx.hashes)
  generalize calculateBucket (tx.getHash ctx.hashes) = bucket at h hbucket
  have hbucket' : bucket < 2 ^ 8 := hbucket.trans (by decide)
  split at h
  case h_1 =>
    cases h
    exact ⟨rfl, Finset.Subset.refl _, fun _ => id, fun _ => .inl, id, nofun⟩
  case h_2 requestedLevel hrequested =>
    have hlevel := (getBuddyLevel_spec hrequested).1
    have hlevel' : requestedLevel < 2 ^ 8 := hlevel.trans_lt (by decide)
    obtain ⟨⟨place, buddies⟩, hsearched, h⟩ := Option.map_eq_some_iff.mp h
    obtain ⟨hsame, hshapes, hplace⟩ := allocInBuddies_spec hlevel hsearched
    cases place with
    | some place =>
      obtain ⟨i, index⟩ := place
      cases h
      refine ⟨rfl, Finset.Subset.refl _, fun location => (hsame location).mpr,
        fun location hsome => .inl ((hsame location).mp hsome), hshapes, fun full hfull => ?_⟩
      cases hfull
      obtain ⟨hin, k, hk, rfl⟩ := hplace _ rfl
      rw [ofFullPosition_createFullPosition i ((start_lt hk hlevel).trans (by decide)) hlevel' hbucket']
      exact (hsame _).mpr hin
    | none =>
      obtain ⟨index, hindex⟩ := Option.isSome_iff_exists.mp (buddyAlloc_new hlevel)
      have hallocated : buddyAlloc .new requestedLevel =
          (some index, (buddyAlloc .new requestedLevel).2) := Prod.ext hindex rfl
      obtain ⟨k, hk, hstart⟩ := buddyAlloc_start hlevel hallocated
      have hlt : index < 2 ^ baseLevel := hstart ▸ start_lt hk hlevel
      cases h
      refine ⟨rfl, Finset.subset_insert _ _,
        fun location hsome => isSome_insertNew.mpr (.inr ((hsame location).mpr hsome)),
        fun location hsome => ?_,
        fun hold => (hshapes hold).insertNew (new_wellFormed.buddyAlloc hlevel) _,
        fun full hfull => ?_⟩
      · obtain rfl | hold := isSome_insertNew.mp hsome
        · exact .inr (regular_ofBucket hbucket _)
        · exact .inl ((hsame location).mp hold)
      · cases hfull
        unfold allocInNewBuddy
        simp only [hindex, Option.getD_some]
        rw [ofFullPosition_createFullPosition _ (hlt.trans (by decide)) hlevel' hbucket']
        exact isSome_insertNew.mpr (.inl rfl)

end Dims.CSegmentFileStorage
