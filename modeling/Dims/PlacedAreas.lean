import Dims.PlacedTransactions

/-!
# The areas of placed transactions

The trees in memory mark the areas of the transactions that have an unspent output, and no
others, and these areas have no byte in common. A transaction gets an area that is free, and an
area is given back when the last output of its transaction has been spent.
-/

namespace Dims
open CSegmentFileStorage HeapTree
open CSimpleBuddy hiding Apart Occupied

namespace Placement

/-- The place of the transaction in the tree of a location. -/
def At (p : Placement) (location : CLocation) (level k : ℕ) : Prop :=
  CLocation.ofFullPosition p.tx.location = location ∧ getLevel p.tx.location = level ∧
    getIndex p.tx.location = start baseLevel level k

variable {H : HashFunctions} {p : Placement} {tx : CTransaction} {o : COutPoint}

@[simp] theorem tx_store : (p.store tx).tx = p.tx := by
  unfold store
  split <;> rfl

@[simp] theorem spent_store : (p.store tx).spent = p.spent := by
  unfold store
  split <;> rfl

@[simp] theorem recorded_store : (p.store tx).recorded = p.recorded := by
  unfold store
  split <;> rfl

@[simp] theorem record_store : (p.store tx).record = p.record := by simp [record]

@[simp] theorem isLive_store : (p.store tx).isLive = p.isLive := by simp [isLive]

@[simp] theorem tx_locate : (p.locate tx).tx = p.tx := by
  unfold locate
  split <;> rfl

@[simp] theorem spent_locate : (p.locate tx).spent = p.spent := by
  unfold locate
  split <;> rfl

@[simp] theorem written_locate : (p.locate tx).written = p.written := by
  unfold locate
  split <;> rfl

@[simp] theorem record_locate : (p.locate tx).record = p.record := by simp [record]

@[simp] theorem isLive_locate : (p.locate tx).isLive = p.isLive := by simp [isLive]

@[simp] theorem tx_spend : (p.spend H o).tx = p.tx := by
  unfold spend
  split <;> rfl

@[simp] theorem written_spend : (p.spend H o).written = p.written := by
  unfold spend
  split <;> rfl

@[simp] theorem recorded_spend : (p.spend H o).recorded = p.recorded := by
  unfold spend
  split <;> rfl

theorem spend_of_ne (h : p.tx.getHash H ≠ o.hash) : p.spend H o = p := if_neg h

theorem record_spend (h : p.tx.getHash H = o.hash) : (p.spend H o).record =
    { p.record with vout := p.record.vout.set o.n.toNat .null } := by
  rw [spend, if_pos h]
  simp [record, CTransaction.nullOutputs]

theorem isLive_of_spend (h : (p.spend H o).isLive = true) : p.isLive = true := by
  by_cases hhash : p.tx.getHash H = o.hash
  · rw [isLive, record_spend hhash] at h
    obtain ⟨txOut, hin, hunspent⟩ := List.any_eq_true.mp h
    rcases List.mem_or_eq_of_mem_set hin with hold | rfl
    · exact List.any_eq_true.mpr ⟨txOut, hold, hunspent⟩
    · simp at hunspent
  · rwa [spend_of_ne hhash] at h

section Unique

variable {placed : List Placement} {q : Placement}
  (hunique : ∀ q ∈ placed, q.isLive = true → q.tx.getHash H = o.hash → q = p)

include hunique

/-- Where only one live transaction has the hash, the others stay as they are. -/
theorem spend_of_unique (hq : q ∈ placed) (hlive : q.isLive = true) (hne : q ≠ p) :
    q.spend H o = q :=
  spend_of_ne fun hhash => hne (hunique q hq hlive hhash)

theorem isLive_spend (hq : q ∈ placed) (hne : q ≠ p) : (q.spend H o).isLive = q.isLive := by
  cases hlive : q.isLive with
  | true => rw [spend_of_unique hunique hq hlive hne, hlive]
  | false =>
    refine Bool.eq_false_iff.mpr fun hspend => ?_
    rw [isLive_of_spend hspend] at hlive
    cases hlive

end Unique

end Placement

/-- The areas of the transactions that have an unspent output. -/
def liveAreas (placed : List Placement) : Set UInt64 :=
  {full | ∃ p ∈ placed, p.isLive = true ∧ p.tx.location = full}

/-- The trees in memory mark the areas of the live transactions and no others. -/
structure SoundAreas (placed : List Placement) (s : CSegmentFileStorage) : Prop where
  occupied : Occupied (liveAreas placed) s
  exact : ∀ location tree, s.transactionLocationToBuddy location = some tree →
    ∀ level ≤ baseLevel, ∀ k < 2 ^ level, Used tree level k →
      ∃ p ∈ placed, p.isLive = true ∧ p.At location level k
  apart : placed.Pairwise fun p q : Placement =>
    p.isLive = true → q.isLive = true → Apart p.tx.location q.tx.location

namespace SoundAreas

variable {ctx : StorageContext} {placed : List Placement} {s s' : CSegmentFileStorage}
  {p q : Placement}

theorem apart_of_ne (h : SoundAreas placed s) (hp : p ∈ placed) (hq : q ∈ placed)
    (hplive : p.isLive = true) (hqlive : q.isLive = true) (hne : p ≠ q) :
    Apart p.tx.location q.tx.location := by
  have hsymm : Std.Symm fun p q : Placement =>
      p.isLive = true → q.isLive = true → Apart p.tx.location q.tx.location :=
    ⟨fun _ _ hapart hplive hqlive => (hapart hqlive hplive).symm⟩
  exact h.apart.forall hp hq hne hplive hqlive

theorem eq_of_location (h : SoundAreas placed s) (hp : p ∈ placed) (hq : q ∈ placed)
    (hplive : p.isLive = true) (hqlive : q.isLive = true)
    (hlocation : p.tx.location = q.tx.location) : p = q := by
  by_contra hne
  exact (h.apart_of_ne hp hq hplive hqlive hne).ne hlocation

theorem marked (h : SoundAreas placed s) (hp : p ∈ placed) (hplive : p.isLive = true) :
    ∃ tree, s.transactionLocationToBuddy (CLocation.ofFullPosition p.tx.location) = some tree ∧
      tree.WellFormed ∧ getLevel p.tx.location ≤ baseLevel ∧ ∃ k < 2 ^ getLevel p.tx.location,
        p.At (CLocation.ofFullPosition p.tx.location) (getLevel p.tx.location) k ∧
          Used tree (getLevel p.tx.location) k := by
  obtain ⟨tree, htree, hlevel, k, hk, hindex, hused⟩ :=
    h.occupied.marked p.tx.location ⟨p, hp, hplive, rfl⟩
  exact ⟨tree, htree, h.occupied.shapes _ _ htree, hlevel, k, hk, ⟨rfl, rfl, hindex⟩, hused⟩

theorem sound_init : SoundAreas [] CSegmentFileStorage.init where
  occupied := by
    refine ⟨fun _ _ => nofun, fun _ _ i hi => absurd hi (Nat.not_lt_zero i), fun _ _ _ _ _ => rfl,
      nofun, fun full hin => ?_⟩
    obtain ⟨p, hp, -⟩ := hin
    cases hp
  exact := by
    intro location tree htree
    cases htree
  apart := .nil

theorem congr (h : SoundAreas placed s)
    (htrees : s'.transactionLocationToBuddy = s.transactionLocationToBuddy)
    (hused : s'.usedBuddy = s.usedBuddy) : SoundAreas placed s' := by
  obtain ⟨⟨hcounts, hpresent, habsent, hshapes, hmarked⟩, hexact, hapart⟩ := h
  refine ⟨⟨?_, ?_, ?_, ?_, ?_⟩, ?_, hapart⟩
  · rwa [hused]
  · simp only [blocksOf, hused, htrees]
    exact hpresent
  · simp only [blocksOf, hused, htrees]
    exact habsent
  · rwa [htrees]
  · rwa [htrees]
  · rwa [htrees]

theorem map (h : SoundAreas placed s) {f : Placement → Placement}
    (htx : ∀ p ∈ placed, (f p).tx = p.tx) (hlive : ∀ p ∈ placed, (f p).isLive = p.isLive) :
    SoundAreas (placed.map f) s := by
  have hmem : ∀ {P : Placement → Prop}, (∀ p ∈ placed, P (f p) ↔ P p) →
      ((∃ p ∈ placed.map f, P p) ↔ ∃ p ∈ placed, P p) := by
    intro P hP
    constructor
    · rintro ⟨_, hin, hfp⟩
      obtain ⟨p, hp, rfl⟩ := List.mem_map.mp hin
      exact ⟨p, hp, (hP p hp).mp hfp⟩
    · rintro ⟨p, hp, hfp⟩
      exact ⟨f p, List.mem_map_of_mem hp, (hP p hp).mpr hfp⟩
  have hareas : liveAreas (placed.map f) = liveAreas placed := by
    ext full
    exact hmem fun p hp => by rw [htx p hp, hlive p hp]
  refine ⟨hareas ▸ h.occupied, fun location tree htree level hlevel k hk hused => ?_, ?_⟩
  · refine (hmem fun p hp => ?_).mpr (h.exact location tree htree level hlevel k hk hused)
    rw [hlive p hp, Placement.At, Placement.At, htx p hp]
  · refine List.pairwise_map.mpr (h.apart.imp_of_mem fun hp hq hapart hplive hqlive => ?_)
    rw [hlive _ hp] at hplive
    rw [hlive _ hq] at hqlive
    rw [htx _ hp, htx _ hq]
    exact hapart hplive hqlive

theorem assign (h : SoundAreas placed s) {tx : CTransaction} {position : Option UInt64}
    (hassigned : s.assignPosition ctx tx = some (position, s'))
    (houtput : (tx.vout.any fun txOut => !txOut.isNull) = true)
    (hroom : ∀ bucket < maxBucket, s.blocksOf bucket < 2 ^ 32) :
    SoundAreas (placed ++ position.toList.map fun full => .new (tx.setLocation full)) s' := by
  obtain hlarge | ⟨full, s₁, bucket, i, level, k, hplaced, htakes⟩ :=
    h.occupied.assignPosition ctx tx hroom
  · rw [hlarge] at hassigned
    cases hassigned
    rwa [Option.toList_none, List.map_nil, List.append_nil]
  · rw [hplaced] at hassigned
    cases hassigned
    rw [Option.toList_some, List.map_singleton]
    obtain ⟨hlocation, hlevel, hindex⟩ := htakes.parts
    have hareas : liveAreas (placed ++ [.new (tx.setLocation full)]) =
        insert full (liveAreas placed) := by
      ext full'
      constructor
      · rintro ⟨p, hp, hplive, rfl⟩
        obtain hold | hnew := List.mem_append.mp hp
        · exact .inr ⟨p, hold, hplive, rfl⟩
        · rw [List.mem_singleton.mp hnew]
          exact .inl rfl
      · rintro (rfl | ⟨p, hp, hplive, rfl⟩)
        · exact ⟨_, List.mem_append_right _ List.mem_cons_self, houtput, rfl⟩
        · exact ⟨p, List.mem_append_left _ hp, hplive, rfl⟩
    have hi : i < 2 ^ 32 := htakes.le_blocksOf.trans_lt (hroom bucket htakes.bucket_lt)
    refine ⟨hareas ▸ htakes.occupied h.occupied hi, fun location tree htree l hl j hj hused => ?_, ?_⟩
    · obtain ⟨tree', htaken, htrees⟩ := htakes.tree
      rw [htrees] at htree
      by_cases hsame : location = .ofBucket bucket i
      · subst hsame
        rw [Function.update_self] at htree
        cases htree
        obtain hold | ⟨rfl, rfl⟩ := (htaken.used l j hj).mp hused
        · cases hbefore : s.transactionLocationToBuddy (.ofBucket bucket i) with
          | none =>
            rw [hbefore, Option.getD_none] at hold
            exact absurd hold (CSimpleBuddy.not_used_new l j)
          | some before =>
            rw [hbefore, Option.getD_some] at hold
            obtain ⟨p, hp, hat⟩ := h.exact _ before hbefore l hl j hj hold
            exact ⟨p, List.mem_append_left _ hp, hat⟩
        · exact ⟨_, List.mem_append_right _ List.mem_cons_self, houtput, hlocation, hlevel, hindex⟩
      · rw [Function.update_of_ne hsame] at htree
        obtain ⟨p, hp, hat⟩ := h.exact location tree htree l hl j hj hused
        exact ⟨p, List.mem_append_left _ hp, hat⟩
    · refine List.pairwise_append.mpr ⟨h.apart, List.pairwise_singleton _ _, fun p hp q hq => ?_⟩
      rw [List.mem_singleton.mp hq]
      intro hplive _
      exact (htakes.apart h.occupied ⟨p, hp, hplive, rfl⟩).symm

theorem free (h : SoundAreas placed s) (hp : p ∈ placed) (hplive : p.isLive = true)
    {f : Placement → Placement} (htx : ∀ q ∈ placed, (f q).tx = q.tx)
    (hdead : (f p).isLive = false)
    (hlive : ∀ q ∈ placed, q ≠ p → (f q).isLive = q.isLive) {buddy freed : CSimpleBuddy}
    (hbuddy : s.transactionLocationToBuddy (CLocation.ofFullPosition p.tx.location) = some buddy)
    (hfreed : buddy.buddyFree (getIndex p.tx.location) = some freed)
    (htrees : s'.transactionLocationToBuddy = Function.update s.transactionLocationToBuddy
      (CLocation.ofFullPosition p.tx.location) (some freed))
    (hcounts : s'.usedBuddy = s.usedBuddy) : SoundAreas (placed.map f) s' := by
  obtain ⟨tree, htree, hshape, hlevel, k, hk, hat, hused⟩ := h.marked hp hplive
  cases hbuddy.symm.trans htree
  obtain ⟨freed', hfreed', hshape', hused'⟩ := hshape.buddyFree_used hlevel hk hused
  rw [← hat.2.2, hfreed] at hfreed'
  cases hfreed'
  -- another live transaction of the block has another node
  have hother : ∀ q ∈ placed, q.isLive = true → q ≠ p → ∀ l j,
      q.At (CLocation.ofFullPosition p.tx.location) l j → ¬(l = getLevel p.tx.location ∧ j = k) := by
    rintro q hq hqlive hne l j ⟨hlocation, rfl, hindex⟩ ⟨hlevels, rfl⟩
    refine hne (h.eq_of_location hq hp hqlive hplive (eq_of_parts hlocation hlevels ?_))
    rw [hindex, hlevels, hat.2.2]
  refine ⟨⟨?_, ?_, ?_, ?_, ?_⟩, fun location tree' htree' l hl j hj hmarked => ?_, ?_⟩
  · rw [hcounts]
    exact h.occupied.counts
  · simp only [blocksOf, hcounts, htrees]
    intro bucket hbucket i hi
    exact (isSome_update hbuddy).mpr (h.occupied.present bucket hbucket i hi)
  · simp only [blocksOf, hcounts, htrees]
    intro bucket hbucket i hi hlt
    have habsent := h.occupied.absent bucket hbucket i hi hlt
    have hne : CLocation.ofBucket bucket i ≠ CLocation.ofFullPosition p.tx.location := by
      intro hsame
      rw [hsame, hbuddy] at habsent
      cases habsent
    rwa [Function.update_of_ne hne]
  · rw [htrees]
    exact h.occupied.shapes.update hshape' _
  · rintro full ⟨_, hin, hqlive, rfl⟩
    obtain ⟨q, hq, rfl⟩ := List.mem_map.mp hin
    have hne : q ≠ p := by
      rintro rfl
      rw [hdead] at hqlive
      cases hqlive
    rw [hlive q hq hne] at hqlive
    rw [htx q hq, htrees]
    obtain ⟨tree', htree', -, hlevel', j, hj, hat', hused''⟩ := h.marked hq hqlive
    by_cases hsame : CLocation.ofFullPosition q.tx.location = CLocation.ofFullPosition p.tx.location
    · rw [hsame] at htree' hat'
      cases htree'.symm.trans htree
      rw [hsame, Function.update_self]
      exact ⟨freed, rfl, hlevel', j, hj, hat'.2.2,
        (hused' _ j hj).mpr ⟨hused'', hother q hq hqlive hne _ j hat'⟩⟩
    · rw [Function.update_of_ne hsame]
      exact ⟨tree', htree', hlevel', j, hj, hat'.2.2, hused''⟩
  · rw [htrees] at htree'
    have hlater : ∀ q ∈ placed, q.isLive = true → q ≠ p → q.At location l j →
        ∃ q ∈ placed.map f, q.isLive = true ∧ q.At location l j := by
      intro q hq hqlive hne hat'
      refine ⟨f q, List.mem_map_of_mem hq, (hlive q hq hne).trans hqlive, ?_⟩
      rwa [Placement.At, htx q hq]
    by_cases hsame : location = CLocation.ofFullPosition p.tx.location
    · subst hsame
      rw [Function.update_self] at htree'
      cases htree'
      obtain ⟨hold, hne⟩ := (hused' l j hj).mp hmarked
      obtain ⟨q, hq, hqlive, hat'⟩ := h.exact _ _ hbuddy l hl j hj hold
      refine hlater q hq hqlive (fun heq => hne ?_) hat'
      subst heq
      obtain ⟨-, hlevels, hindex⟩ := hat'
      subst hlevels
      exact ⟨rfl, Nat.eq_of_mul_eq_mul_right (Nat.two_pow_pos _) (hindex.symm.trans hat.2.2)⟩
    · rw [Function.update_of_ne hsame] at htree'
      obtain ⟨q, hq, hqlive, hat'⟩ := h.exact location tree' htree' l hl j hj hmarked
      refine hlater q hq hqlive (fun heq => hsame ?_) hat'
      rw [← hat'.1, heq]
  · refine List.pairwise_map.mpr (h.apart.imp_of_mem fun {q r} hq hr hapart hqlive hrlive => ?_)
    have hlives : ∀ q ∈ placed, (f q).isLive = true → q.isLive = true := by
      intro q hq hqlive
      by_cases heq : q = p
      · rw [heq, hdead] at hqlive
        cases hqlive
      · rwa [hlive q hq heq] at hqlive
    rw [htx q hq, htx r hr]
    exact hapart (hlives q hq hqlive) (hlives r hr hrlive)

end SoundAreas

end Dims
