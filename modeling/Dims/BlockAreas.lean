import Dims.AssignPosition
import Mathlib.Data.Set.Insert

/-!
# Areas in the blocks

A full position stands for an area of a block. As long as the trees in memory mark the areas
that are taken and the blocks of every bucket are counted, a transaction is placed in an
area that has no byte in common with those.
-/

namespace Dims

namespace CSegmentFileStorage
open CSimpleBuddy HeapTree

section FullPosition

theorem getLevel_eq (full : UInt64) : getLevel full = full.toNat / 2 ^ 8 % 2 ^ 8 := by
  unfold getLevel
  rw [UInt64.toNat_and, UInt64.toNat_shiftRight, Nat.shiftRight_eq_div_pow]
  exact Nat.and_two_pow_sub_one_eq_mod _ 8

theorem getIndex_eq (full : UInt64) : getIndex full = full.toNat / 2 ^ 16 % 2 ^ 16 := by
  unfold getIndex
  rw [UInt64.toNat_and, UInt64.toNat_shiftRight, Nat.shiftRight_eq_div_pow]
  exact Nat.and_two_pow_sub_one_eq_mod _ 16

variable {index level bucket : ℕ}

theorem getLevel_createFullPosition (blockPosition : ℕ) (hindex : index < 2 ^ 16)
    (hlevel : level < 2 ^ 8) (hbucket : bucket < 2 ^ 8) :
    getLevel (createFullPosition blockPosition index level bucket) = level := by
  rw [getLevel_eq, toNat_createFullPosition blockPosition hindex hlevel hbucket]
  omega

theorem getIndex_createFullPosition (blockPosition : ℕ) (hindex : index < 2 ^ 16)
    (hlevel : level < 2 ^ 8) (hbucket : bucket < 2 ^ 8) :
    getIndex (createFullPosition blockPosition index level bucket) = index := by
  rw [getIndex_eq, toNat_createFullPosition blockPosition hindex hlevel hbucket]
  omega

theorem eq_of_parts {full full' : UInt64}
    (hlocation : CLocation.ofFullPosition full = CLocation.ofFullPosition full')
    (hlevel : getLevel full = getLevel full') (hindex : getIndex full = getIndex full') :
    full = full' := by
  have hparts := congrArg (fun location => location.location.toNat) hlocation
  simp only [toNat_ofFullPosition] at hparts
  rw [getLevel_eq, getLevel_eq] at hlevel
  rw [getIndex_eq, getIndex_eq] at hindex
  refine UInt64.toNat_inj.mp ?_
  omega

end FullPosition

section Areas

def areaStart (full : UInt64) : ℕ := CDiskBlock.translateToAddress (getIndex full)

def areaEnd (full : UInt64) : ℕ := areaStart full + getBuddySize (getLevel full)

/-- The areas lie in different blocks, or have no byte in common. -/
def Apart (full full' : UInt64) : Prop :=
  CLocation.ofFullPosition full = CLocation.ofFullPosition full' →
    areaEnd full ≤ areaStart full' ∨ areaEnd full' ≤ areaStart full

variable {full full' : UInt64} {tree tree' : CSimpleBuddy}

theorem Apart.symm (h : Apart full full') : Apart full' full := fun hsame => (h hsame.symm).symm

theorem areaStart_lt_areaEnd (full : UInt64) : areaStart full < areaEnd full := by
  refine Nat.lt_add_of_pos_right (Nat.mul_pos ?_ (Nat.two_pow_pos _))
  decide

theorem Apart.ne (h : Apart full full') : full ≠ full' := by
  rintro rfl
  have hlt := areaStart_lt_areaEnd full
  obtain hle | hle := h rfl <;> omega

def Marks (tree : CSimpleBuddy) (full : UInt64) : Prop :=
  getLevel full ≤ baseLevel ∧ ∃ k < 2 ^ getLevel full,
    getIndex full = start baseLevel (getLevel full) k ∧ Used tree (getLevel full) k

theorem Marks.mono (h : Marks tree full) (hused : ∀ l k, k < 2 ^ l → Used tree l k → Used tree' l k) :
    Marks tree' full := by
  obtain ⟨hlevel, k, hk, hindex, hmarked⟩ := h
  exact ⟨hlevel, k, hk, hindex, hused _ k hk hmarked⟩

theorem areaEnd_eq {k : ℕ} (hindex : getIndex full = start baseLevel (getLevel full) k) :
    areaStart full = start baseLevel (getLevel full) k * getBuddySize baseLevel ∧
      areaEnd full = (start baseLevel (getLevel full) k + width baseLevel (getLevel full)) *
        getBuddySize baseLevel := by
  have hstart : areaStart full = start baseLevel (getLevel full) k * getBuddySize baseLevel := by
    rw [areaStart, hindex, CDiskBlock.translateToAddress]
  refine ⟨hstart, ?_⟩
  rw [areaEnd, hstart, Nat.add_mul, width, getBuddySize, getBuddySize, Nat.sub_self, pow_zero,
    Nat.mul_one, Nat.mul_comm (2 ^ _)]

theorem Marks.apart (htree : tree.WellFormed) (h : Marks tree full) (h' : Marks tree full')
    (hne : full ≠ full') : Apart full full' := by
  obtain ⟨hlevel, k, hk, hindex, hused⟩ := h
  obtain ⟨hlevel', k', hk', hindex', hused'⟩ := h'
  intro hsame
  obtain ⟨hstart, hend⟩ := areaEnd_eq hindex
  obtain ⟨hstart', hend'⟩ := areaEnd_eq hindex'
  rw [hstart, hend, hstart', hend']
  have hnode : ¬(getLevel full = getLevel full' ∧ k = k') := by
    rintro ⟨hlevels, rfl⟩
    exact hne (eq_of_parts hsame hlevels (by rw [hindex, hindex', hlevels]))
  have hdisjoint : start baseLevel (getLevel full) k + width baseLevel (getLevel full) ≤
        start baseLevel (getLevel full') k' ∨
      start baseLevel (getLevel full') k' + width baseLevel (getLevel full') ≤
        start baseLevel (getLevel full) k := by
    obtain hle | hle := Nat.le_total (getLevel full) (getLevel full')
    · exact htree.used_disjoint hle hlevel' hk' hused hused' hnode
    · refine (htree.used_disjoint hle hlevel hk hused' hused fun heq => ?_).symm
      exact hnode ⟨heq.1.symm, heq.2.symm⟩
  exact hdisjoint.imp (Nat.mul_le_mul_right _) (Nat.mul_le_mul_right _)

end Areas

section Allocate

variable {ctx : StorageContext} {s s' : CSegmentFileStorage} {full : UInt64} {bucket i level k : ℕ}

/-- An area that was free is marked in the tree. -/
structure Taken (tree : CSimpleBuddy) (level k : ℕ) (tree' : CSimpleBuddy) : Prop where
  shape : tree'.WellFormed
  lt : k < 2 ^ level
  free : ¬Used tree level k
  used : ∀ l j, j < 2 ^ l → (Used tree' l j ↔ Used tree l j ∨ (l = level ∧ j = k))

theorem taken_of_buddyAlloc {tree tree' : CSimpleBuddy} {index : ℕ} (htree : tree.WellFormed)
    (hlevel : level ≤ baseLevel) (halloc : tree.buddyAlloc level = (some index, tree')) :
    ∃ k, index = start baseLevel level k ∧ Taken tree level k tree' := by
  obtain ⟨hshape, k, hk, hindex, hfree, hused⟩ := htree.buddyAlloc_some hlevel halloc
  exact ⟨k, hindex, hshape, hk, hfree, hused⟩

/-- The search takes an area in one of the blocks, or leaves them all as they are. -/
theorem allocInBuddies_cases (count : ℕ) {buddies : CLocation → Option CSimpleBuddy}
    (hshapes : TreesWellFormed buddies) (hlevel : level ≤ baseLevel)
    (hpresent : ∀ j, i ≤ j → j < i + count → (buddies (.ofBucket bucket j)).isSome) :
    allocInBuddies bucket level count i buddies = some (none, buddies) ∨
      ∃ j k tree tree', i ≤ j ∧ j < i + count ∧ buddies (.ofBucket bucket j) = some tree ∧
        Taken tree level k tree' ∧ allocInBuddies bucket level count i buddies =
          some (some (j, start baseLevel level k),
            Function.update buddies (.ofBucket bucket j) (some tree')) := by
  induction count generalizing i with
  | zero => exact .inl rfl
  | succ count ih =>
    obtain ⟨tree, htree⟩ := Option.isSome_iff_exists.mp (hpresent i le_rfl (by omega))
    rw [allocInBuddies, htree, Option.bind_some]
    cases halloc : tree.buddyAlloc level with
    | mk place tree' =>
      cases place with
      | some index =>
        obtain ⟨k, rfl, htaken⟩ := taken_of_buddyAlloc (hshapes _ _ htree) hlevel halloc
        exact .inr ⟨i, k, tree, tree', le_rfl, by omega, htree, htaken, rfl⟩
      | none =>
        have hsame := buddyAlloc_none hlevel halloc
        subst hsame
        have hsearched : Function.update buddies (.ofBucket bucket i) (some tree') = buddies := by
          rw [← htree]
          exact Function.update_eq_self _ _
        simp only [hsearched]
        obtain hnone | ⟨j, k, tree, tree', hle, hlt, hrest⟩ :=
          ih (i := i + 1) fun j hle hlt => hpresent j (by omega) (by omega)
        · exact .inl hnone
        · exact .inr ⟨j, k, tree, tree', by omega, by omega, hrest⟩

def blocksOf (s : CSegmentFileStorage) (bucket : ℕ) : ℕ := (s.usedBuddy bucket).getD 0

/-- The blocks of every bucket are counted, and the trees in memory mark the areas. -/
structure Occupied (areas : Set UInt64) (s : CSegmentFileStorage) : Prop where
  counts : ∀ bucket < maxBucket, s.usedBuddy bucket ≠ some 0
  present : ∀ bucket < maxBucket, ∀ i < s.blocksOf bucket,
    (s.transactionLocationToBuddy (.ofBucket bucket i)).isSome
  absent : ∀ bucket < maxBucket, ∀ i, s.blocksOf bucket ≤ i → i < 2 ^ 32 →
    s.transactionLocationToBuddy (.ofBucket bucket i) = none
  shapes : TreesWellFormed s.transactionLocationToBuddy
  marked : ∀ full ∈ areas, ∃ tree,
    s.transactionLocationToBuddy (.ofFullPosition full) = some tree ∧ Marks tree full

/-- An area is taken in a block of the bucket, which is one of those that it has or the next. -/
structure Takes (s : CSegmentFileStorage) (full : UInt64) (s' : CSegmentFileStorage)
    (bucket i level k : ℕ) : Prop where
  bucket_lt : bucket < maxBucket
  level_le : level ≤ baseLevel
  full_eq : full = createFullPosition i (start baseLevel level k) level bucket
  tree : ∃ tree', Taken ((s.transactionLocationToBuddy (.ofBucket bucket i)).getD .new) level k tree' ∧
    s'.transactionLocationToBuddy =
      Function.update s.transactionLocationToBuddy (.ofBucket bucket i) (some tree')
  counted : i < s.blocksOf bucket ∧ s'.usedBuddy = s.usedBuddy ∨
    i = s.blocksOf bucket ∧ s'.usedBuddy = Function.update s.usedBuddy bucket (some (i + 1))

variable {areas : Set UInt64}

theorem Occupied.takes_allocInNewBuddy (h : Occupied areas s) (hbucket : bucket < maxBucket)
    (hlevel : level ≤ baseLevel) (hroom : s.blocksOf bucket < 2 ^ 32) :
    ∃ k, Takes s (s.allocInNewBuddy bucket level).1 (s.allocInNewBuddy bucket level).2 bucket
      (s.blocksOf bucket) level k := by
  have habsent := h.absent bucket hbucket _ le_rfl hroom
  obtain ⟨index, hindex⟩ := Option.isSome_iff_exists.mp (buddyAlloc_new hlevel)
  have halloc : buddyAlloc .new level = (some index, (buddyAlloc .new level).2) :=
    Prod.ext hindex rfl
  obtain ⟨k, rfl, htaken⟩ := taken_of_buddyAlloc new_wellFormed hlevel halloc
  refine ⟨k, hbucket, hlevel, ?_, ⟨(buddyAlloc .new level).2, ?_, ?_⟩, .inr ⟨rfl, ?_⟩⟩
  · unfold allocInNewBuddy
    simp only [hindex, Option.getD_some]
    rfl
  · rwa [habsent, Option.getD_none]
  · change insertNew _ (CLocation.ofBucket bucket (s.blocksOf bucket)) _ = _
    rw [insertNew, habsent, Option.none_or]
  · change (if s.blocksOf bucket = 0 then insertNew s.usedBuddy bucket 1
      else Function.update s.usedBuddy bucket (some (s.blocksOf bucket + 1))) = _
    split
    case isTrue hzero =>
      have hcounts := h.counts bucket hbucket
      unfold blocksOf at hzero ⊢
      cases hused : s.usedBuddy bucket with
      | none => rw [insertNew, hused, Option.none_or, Option.getD_none]
      | some count =>
        rw [hused] at hzero hcounts
        exact absurd (congrArg some hzero) hcounts
    case isFalse => rfl

variable (ctx) in
theorem Occupied.assignPosition (h : Occupied areas s) (tx : CTransaction)
    (hroom : ∀ bucket < maxBucket, s.blocksOf bucket < 2 ^ 32) :
    s.assignPosition ctx tx = some (none, s) ∨
      ∃ full s' bucket i level k, s.assignPosition ctx tx = some (some full, s') ∧
        Takes s full s' bucket i level k := by
  unfold CSegmentFileStorage.assignPosition
  have hbucket := calculateBucket_lt (tx.getHash ctx.hashes)
  generalize calculateBucket (tx.getHash ctx.hashes) = bucket at hbucket ⊢
  cases hrequested : getBuddyLevel (CTransaction.diskCodec.encode tx).length with
  | none => exact .inl rfl
  | some level =>
    right
    have hlevel := (getBuddyLevel_spec hrequested).1
    obtain hnone | ⟨j, k, tree, tree', -, hj, htree, htaken, hsome⟩ := allocInBuddies_cases
        (s.blocksOf bucket) (i := 0) h.shapes hlevel
        fun j _ hlt => h.present bucket hbucket j (by omega)
    · obtain ⟨k, htakes⟩ := h.takes_allocInNewBuddy hbucket hlevel (hroom bucket hbucket)
      refine ⟨_, _, bucket, _, level, k, ?_, htakes⟩
      change (allocInBuddies bucket level (s.blocksOf bucket) 0
        s.transactionLocationToBuddy).map _ = _
      rw [hnone]
      rfl
    · refine ⟨createFullPosition j (start baseLevel level k) level bucket,
        { s with
          transactionLocationToBuddy :=
            Function.update s.transactionLocationToBuddy (.ofBucket bucket j) (some tree') },
        bucket, j, level, k, ?_, hbucket, hlevel, rfl, ⟨tree', ?_, rfl⟩, .inl ⟨by omega, rfl⟩⟩
      · change (allocInBuddies bucket level (s.blocksOf bucket) 0
          s.transactionLocationToBuddy).map _ = _
        rw [hsome]
        rfl
      · rwa [htree, Option.getD_some]

namespace Takes

variable (htakes : Takes s full s' bucket i level k)

include htakes

theorem parts : CLocation.ofFullPosition full = .ofBucket bucket i ∧ getLevel full = level ∧
    getIndex full = start baseLevel level k := by
  obtain ⟨tree', htaken, -⟩ := htakes.tree
  have hlevel := htakes.level_le
  have hindex : start baseLevel level k < 2 ^ 16 :=
    (Nat.le_add_right _ _).trans_lt ((start_add_width_le htaken.lt hlevel).trans_lt (by decide))
  have hlevel' : level < 2 ^ 8 := hlevel.trans_lt (by decide)
  have hbucket : bucket < 2 ^ 8 := htakes.bucket_lt.trans (by decide)
  rw [htakes.full_eq]
  exact ⟨ofFullPosition_createFullPosition i hindex hlevel' hbucket,
    getLevel_createFullPosition i hindex hlevel' hbucket,
    getIndex_createFullPosition i hindex hlevel' hbucket⟩

theorem blocksOf_eq (bucket' : ℕ) : s'.blocksOf bucket' =
    if bucket' = bucket then max (s.blocksOf bucket) (i + 1) else s.blocksOf bucket' := by
  unfold blocksOf
  obtain ⟨hi, hused⟩ | ⟨hi, hused⟩ := htakes.counted
  · unfold blocksOf at hi
    rw [hused]
    split
    case isTrue hsame =>
      rw [hsame]
      omega
    case isFalse => rfl
  · unfold blocksOf at hi
    rw [hused]
    split
    case isTrue hsame =>
      rw [hsame, Function.update_self, Option.getD_some]
      omega
    case isFalse hne => rw [Function.update_of_ne hne]

theorem le_blocksOf : i ≤ s.blocksOf bucket :=
  htakes.counted.elim (fun hold => hold.1.le) fun hnew => hnew.1.le

theorem blocksOf_le (bucket' : ℕ) : s'.blocksOf bucket' ≤ s.blocksOf bucket' + 1 := by
  have hi := htakes.le_blocksOf
  rw [htakes.blocksOf_eq]
  split
  case isTrue hsame =>
    rw [hsame]
    omega
  case isFalse => exact Nat.le_succ _

theorem counts (h : ∀ bucket < maxBucket, s.usedBuddy bucket ≠ some 0) :
    ∀ bucket < maxBucket, s'.usedBuddy bucket ≠ some 0 := by
  intro bucket' hbucket'
  obtain ⟨-, hused⟩ | ⟨-, hused⟩ := htakes.counted
  · rw [hused]
    exact h bucket' hbucket'
  · rw [hused]
    by_cases hsame : bucket' = bucket
    · rw [hsame, Function.update_self]
      exact nofun
    · rw [Function.update_of_ne hsame]
      exact h bucket' hbucket'

theorem marked (h : Occupied areas s) {full' : UInt64} (hin : full' ∈ areas) : ∃ tree,
    s'.transactionLocationToBuddy (.ofFullPosition full') = some tree ∧ Marks tree full' := by
  obtain ⟨tree, htree, hmarks⟩ := h.marked full' hin
  obtain ⟨tree', htaken, htrees⟩ := htakes.tree
  rw [htrees]
  by_cases hsame : CLocation.ofFullPosition full' = .ofBucket bucket i
  · rw [hsame] at htree
    rw [htree, Option.getD_some] at htaken
    rw [hsame, Function.update_self]
    exact ⟨tree', rfl, hmarks.mono fun l j hj hused => (htaken.used l j hj).mpr (.inl hused)⟩
  · rw [Function.update_of_ne hsame]
    exact ⟨tree, htree, hmarks⟩

theorem marked_self : ∃ tree,
    s'.transactionLocationToBuddy (.ofFullPosition full) = some tree ∧ Marks tree full := by
  obtain ⟨hlocation, hlevel, hindex⟩ := htakes.parts
  obtain ⟨tree', htaken, htrees⟩ := htakes.tree
  refine ⟨tree', by rw [htrees, hlocation, Function.update_self], ?_⟩
  rw [Marks, hlevel]
  exact ⟨htakes.level_le, k, htaken.lt, hindex, (htaken.used level k htaken.lt).mpr (.inr ⟨rfl, rfl⟩)⟩

theorem ne (h : Occupied areas s) {full' : UInt64} (hin : full' ∈ areas) : full ≠ full' := by
  rintro rfl
  obtain ⟨tree, htree, -, j, -, hindex', hused⟩ := h.marked full hin
  obtain ⟨hlocation, hlevel, hindex⟩ := htakes.parts
  obtain ⟨tree', htaken, -⟩ := htakes.tree
  rw [hlocation] at htree
  rw [htree, Option.getD_some] at htaken
  rw [hlevel] at hindex' hused
  have hsame : k = j :=
    Nat.eq_of_mul_eq_mul_right (Nat.two_pow_pos (baseLevel - level)) (hindex.symm.trans hindex')
  exact htaken.free (hsame ▸ hused)

theorem occupied (h : Occupied areas s) (hi : i < 2 ^ 32) : Occupied (insert full areas) s' := by
  have hle := htakes.le_blocksOf
  have hbucket := htakes.bucket_lt
  obtain ⟨tree', htaken, htrees⟩ := htakes.tree
  refine ⟨htakes.counts h.counts, fun bucket' hbucket' j hj => ?_, fun bucket' hbucket' j hj hlt => ?_,
    ?_, fun full' hin => ?_⟩
  · rw [htakes.blocksOf_eq] at hj
    rw [htrees]
    by_cases hsame : CLocation.ofBucket bucket' j = .ofBucket bucket i
    · rw [hsame, Function.update_self]
      rfl
    · rw [Function.update_of_ne hsame]
      refine h.present bucket' hbucket' j ?_
      split at hj
      case isTrue heq =>
        subst heq
        have hne : j ≠ i := fun heq => hsame (by rw [heq])
        omega
      case isFalse => exact hj
  · rw [htakes.blocksOf_eq] at hj
    have hne : CLocation.ofBucket bucket' j ≠ .ofBucket bucket i := by
      intro hsame
      obtain rfl := bucket_of_ofBucket_eq hbucket' hbucket hsame
      obtain rfl := position_of_ofBucket_eq hbucket' hlt hi hsame
      rw [if_pos rfl] at hj
      omega
    rw [htrees, Function.update_of_ne hne]
    refine h.absent bucket' hbucket' j ?_ hlt
    split at hj
    case isTrue heq =>
      rw [heq]
      omega
    case isFalse => exact hj
  · rw [htrees]
    exact h.shapes.update htaken.shape _
  · obtain rfl | hin := hin
    · exact htakes.marked_self
    · exact htakes.marked h hin

theorem apart (h : Occupied areas s) {full' : UInt64} (hin : full' ∈ areas) : Apart full full' := by
  obtain ⟨tree, htree, hmarks⟩ := htakes.marked_self
  obtain ⟨tree', htree', hmarks'⟩ := htakes.marked h hin
  obtain ⟨_, htaken, htrees⟩ := htakes.tree
  have hshapes : TreesWellFormed s'.transactionLocationToBuddy := by
    rw [htrees]
    exact h.shapes.update htaken.shape _
  intro hsame
  rw [← hsame, htree] at htree'
  cases htree'
  exact hmarks.apart (hshapes _ _ htree) hmarks' (htakes.ne h hin) hsame

end Takes

end Allocate

section Calls

variable (ctx : StorageContext)

/-- Calls of `assignPosition`, with the positions that they return. -/
def assignPositions : List CTransaction → CSegmentFileStorage →
    Option (List UInt64 × CSegmentFileStorage)
  | [], s => some ([], s)
  | tx :: txs, s =>
    (s.assignPosition ctx tx).bind fun assigned =>
      (assignPositions txs assigned.2).map fun rest => (assigned.1.toList ++ rest.1, rest.2)

/-- The areas that are returned are apart from each other and from those that were taken. -/
theorem Occupied.assignPositions {s : CSegmentFileStorage} {areas : Set UInt64}
    (h : Occupied areas s) (txs : List CTransaction)
    (hroom : ∀ bucket < maxBucket, s.blocksOf bucket + txs.length ≤ 2 ^ 32) :
    ∃ positions s', assignPositions ctx txs s = some (positions, s') ∧
      positions.Pairwise Apart ∧ ∀ full ∈ positions, ∀ full' ∈ areas, Apart full full' := by
  induction txs generalizing s areas with
  | nil => exact ⟨[], s, rfl, .nil, nofun⟩
  | cons tx txs ih =>
    simp only [List.length_cons] at hroom
    obtain hlarge | ⟨full, s₁, bucket, i, level, k, hassigned, htakes⟩ :=
      h.assignPosition ctx tx fun bucket hbucket => by
        have hle := hroom bucket hbucket
        omega
    · obtain ⟨positions, s', hrest, hpairwise, hapart⟩ := ih h fun bucket hbucket => by
        have hle := hroom bucket hbucket
        omega
      refine ⟨positions, s', ?_, hpairwise, hapart⟩
      rw [CSegmentFileStorage.assignPositions, hlarge, Option.bind_some, hrest]
      rfl
    · have hi : i < 2 ^ 32 := by
        have hle := hroom bucket htakes.bucket_lt
        have hcount := htakes.le_blocksOf
        omega
      obtain ⟨positions, s', hrest, hpairwise, hapart⟩ := ih (htakes.occupied h hi)
        fun bucket' hbucket' => by
          have hle := hroom bucket' hbucket'
          have hcount := htakes.blocksOf_le bucket'
          omega
      refine ⟨full :: positions, s', ?_, .cons (fun full' hin => ?_) hpairwise, fun full' hin => ?_⟩
      · rw [CSegmentFileStorage.assignPositions, hassigned, Option.bind_some, hrest]
        rfl
      · exact (hapart full' hin full (Set.mem_insert full areas)).symm
      · obtain rfl | hin := List.mem_cons.mp hin
        · exact fun full' hfull' => htakes.apart h hfull'
        · exact fun full'' hfull' => hapart full' hin full'' (Set.mem_insert_of_mem full hfull')

end Calls

end CSegmentFileStorage

end Dims
