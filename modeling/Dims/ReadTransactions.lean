import Dims.LiveAllocations
import Dims.StoredPositions

/-!
# Reading the transactions of a block

A block that is received from another node is read area by area, one level after the other.
The loop over the levels ends before level 0, so a transaction that takes up the whole block
is not read.
-/

namespace Dims
open CSimpleBuddy HeapTree ByteCodec

namespace CDiskBlock

/-- `stream >> transaction` from the area of an index. -/
def readArea (b : CDiskBlock) (level index : ℕ) : Option CTransaction :=
  (CTransaction.diskCodec.decode ((List.range (getBuddySize level)).map fun i =>
    b.area (translateToAddress index + i))).map Prod.fst

/-- `while(level)`, from the base level up. -/
def readLevels (b : CDiskBlock) : ℕ → Option (List CTransaction)
  | 0 => some []
  | level + 1 =>
    ((b.tree.getNotEmptyIndexes (level + 1)).mapM (b.readArea (level + 1))).bind fun txs =>
      (b.readLevels level).map fun rest => txs ++ rest

/-- `readTransactions`; no value where a stream throws. -/
def readTransactions (b : CDiskBlock) : Option (List CTransaction) := b.readLevels baseLevel

def levelsRead : ℕ → List ℕ
  | 0 => []
  | level + 1 => (level + 1) :: levelsRead level

theorem mem_levelsRead {l level : ℕ} : l ∈ levelsRead level ↔ l ≤ level ∧ l ≠ 0 := by
  induction level with
  | zero => simp [levelsRead]
  | succ level ih =>
    rw [levelsRead, List.mem_cons, ih]
    omega

theorem nodup_levelsRead (level : ℕ) : (levelsRead level).Nodup := by
  induction level with
  | zero => exact .nil
  | succ level ih =>
    refine List.nodup_cons.mpr ⟨fun hin => ?_, ih⟩
    have hle := (mem_levelsRead.mp hin).1
    omega

variable {b : CDiskBlock}

/-- If every area of the levels can be read, the transactions are read area by area. -/
theorem readLevels_eq {tx : ℕ × ℕ → CTransaction} {level : ℕ}
    (h : ∀ a ∈ notEmptyAreas b.tree (levelsRead level), b.readArea a.1 a.2 = some (tx a)) :
    b.readLevels level = some ((notEmptyAreas b.tree (levelsRead level)).map tx) := by
  induction level with
  | zero => rfl
  | succ level ih =>
    have hareas : notEmptyAreas b.tree (levelsRead (level + 1)) =
        ((b.tree.getNotEmptyIndexes (level + 1)).map fun index => (level + 1, index)) ++
          notEmptyAreas b.tree (levelsRead level) := List.flatMap_cons
    rw [hareas, List.forall_mem_append] at h
    have hfirst : (b.tree.getNotEmptyIndexes (level + 1)).mapM (b.readArea (level + 1)) =
        some ((b.tree.getNotEmptyIndexes (level + 1)).map fun index => tx (level + 1, index)) := by
      have hread := List.forall_mem_map.mp h.1
      generalize b.tree.getNotEmptyIndexes (level + 1) = indexes at hread ⊢
      induction indexes with
      | nil => rfl
      | cons index indexes ihindexes =>
        obtain ⟨hindex, hrest⟩ := List.forall_mem_cons.mp hread
        rw [List.mapM_cons, hindex, ihindexes hrest]
        rfl
    rw [readLevels, hfirst, Option.bind_some, ih h.2, hareas, List.map_append, List.map_map]
    rfl

/-- The bytes of a transaction stand at the beginning of the area. -/
def Holds (b : CDiskBlock) (index : ℕ) (tx : CTransaction) : Prop :=
  ∀ i < (CTransaction.diskCodec.encode tx).length,
    b.area (translateToAddress index + i) = (CTransaction.diskCodec.encode tx).getD i 0

theorem Holds.readArea {tx : CTransaction} {level index : ℕ} (h : b.Holds index tx)
    (hlength : (CTransaction.diskCodec.encode tx).length ≤ getBuddySize level)
    (hsize : getBuddySize level ≤ Serialize.maxSize) : b.readArea level index = some tx := by
  obtain ⟨rest, hrest⟩ : ∃ rest, (List.range (getBuddySize level)).map (fun i =>
      b.area (translateToAddress index + i)) = CTransaction.diskCodec.encode tx ++ rest := by
    obtain ⟨more, hmore⟩ := Nat.exists_eq_add_of_le hlength
    rw [hmore, List.range_add, List.map_append]
    refine ⟨_, congrArg (· ++ _) (List.ext_getElem (by simp) fun i hi hi' => ?_)⟩
    rw [List.getElem_map, List.getElem_range, h i hi', List.getD_eq_getElem?_getD,
      List.getElem?_eq_getElem hi', Option.getD_some]
  rw [CDiskBlock.readArea, hrest,
    CTransaction.diskCodec.decode_encode tx rest (CTransaction.fits_of_length (hlength.trans hsize))]
  rfl

variable {b' : CDiskBlock} {full : UInt64} {tx tx' : CTransaction} {index : ℕ}

theorem write_spec (h : b.write full tx = some b') : b'.tree = b.tree ∧ ∀ i, b'.area i =
    if translateToAddress (CSegmentFileStorage.getIndex full) ≤ i ∧
        i < translateToAddress (CSegmentFileStorage.getIndex full) +
          (CTransaction.diskCodec.encode tx).length then
      (CTransaction.diskCodec.encode tx).getD
        (i - translateToAddress (CSegmentFileStorage.getIndex full)) 0
    else b.area i := by
  rw [write] at h
  split at h
  · cases h
    exact ⟨rfl, fun _ => rfl⟩
  · cases h

theorem holds_write (h : b.write full tx = some b') :
    b'.Holds (CSegmentFileStorage.getIndex full) tx := by
  intro i hi
  rw [(write_spec h).2, if_pos ⟨Nat.le_add_right _ _, Nat.add_lt_add_left hi _⟩,
    Nat.add_sub_cancel_left]

theorem Holds.write (h : b.Holds index tx') (hwrite : b.write full tx = some b')
    (hapart : translateToAddress index + (CTransaction.diskCodec.encode tx').length ≤
        translateToAddress (CSegmentFileStorage.getIndex full) ∨
      translateToAddress (CSegmentFileStorage.getIndex full) +
        (CTransaction.diskCodec.encode tx).length ≤ translateToAddress index) :
    b'.Holds index tx' := by
  intro i hi
  rw [(write_spec hwrite).2, if_neg (by omega), h i hi]

end CDiskBlock

namespace CSimpleBuddy

theorem getBuddySize_eq (level : ℕ) :
    getBuddySize level = width baseLevel level * getBuddySize baseLevel := by
  rw [getBuddySize, getBuddySize, Nat.sub_self, pow_zero, Nat.mul_one, Nat.mul_comm, width]

theorem getBuddySize_le (level : ℕ) : getBuddySize level ≤ areaSize := by
  rw [getBuddySize_eq]
  calc width baseLevel level * getBuddySize baseLevel
      ≤ 2 ^ baseLevel * getBuddySize baseLevel :=
        Nat.mul_le_mul_right _ (Nat.pow_le_pow_right (by omega) (Nat.sub_le ..))
    _ = areaSize := rfl

theorem Apart.bytes {a a' : ℕ × ℕ} (h : Apart a a') :
    CDiskBlock.translateToAddress a.2 + getBuddySize a.1 ≤ CDiskBlock.translateToAddress a'.2 ∨
      CDiskBlock.translateToAddress a'.2 + getBuddySize a'.1 ≤ CDiskBlock.translateToAddress a.2 := by
  unfold CDiskBlock.translateToAddress
  rw [getBuddySize_eq a.1, getBuddySize_eq a'.1, ← Nat.add_mul, ← Nat.add_mul]
  exact h.imp (Nat.mul_le_mul_right _) (Nat.mul_le_mul_right _)

theorem lt_of_levelLoop {size level unit l : ℕ} (h : levelLoop size level unit = some l)
    (hlt : l < level) : unit * 2 ^ (level - l - 1) < size := by
  induction level generalizing unit with
  | zero => exact absurd hlt (Nat.not_lt_zero l)
  | succ level ih =>
    rw [levelLoop] at h
    split at h
    case isTrue hsmall =>
      obtain rfl | hbelow := Nat.eq_or_lt_of_le (Nat.lt_succ_iff.mp hlt)
      · rwa [Nat.add_sub_cancel_left, Nat.sub_self, pow_zero, Nat.mul_one]
      · have hrest := ih h hbelow
        rwa [Nat.mul_assoc, ← pow_succ', show level - l - 1 + 1 = level + 1 - l - 1 by omega] at hrest
    case isFalse =>
      cases h
      exact absurd hlt (Nat.lt_irrefl _)

/-- The whole block is given to what is longer than half of it. -/
theorem getBuddyLevel_eq_zero_iff {size l : ℕ} (h : getBuddyLevel size = some l) :
    l = 0 ↔ areaSize / 2 < size := by
  constructor
  · rintro rfl
    exact lt_of_levelLoop h (by decide)
  · intro hsize
    by_contra hne
    have hle := (getBuddyLevel_spec h).2
    have hhalf : getBuddySize l ≤ areaSize / 2 := by
      calc getBuddySize l = areaSize / 2 ^ baseLevel * 2 ^ (baseLevel - l) := rfl
        _ ≤ areaSize / 2 ^ baseLevel * 2 ^ (baseLevel - 1) :=
            Nat.mul_le_mul_left _ (Nat.pow_le_pow_right (by omega) (by omega))
        _ = areaSize / 2 := rfl
    omega

end CSimpleBuddy

/-- A block, with the transactions that have been written to areas that are still held. -/
structure FilledBlock where
  block : CDiskBlock
  live : List ((ℕ × ℕ) × CTransaction)

inductive BlockCall
  | put (tx : CTransaction)
  | free (offset : ℕ)

namespace FilledBlock

def init (memory : ℕ → UInt8) : FilledBlock := ⟨.new memory, []⟩

/-- An area is taken for a transaction, which is written there, or the area of one is given
back. A transaction that is too long, or that the block has no room for, is not taken in. -/
def call (s : FilledBlock) : BlockCall → Option FilledBlock
  | .put tx =>
    match getBuddyLevel (CTransaction.diskCodec.encode tx).length with
    | none => some s
    | some level =>
      match s.block.tree.buddyAlloc level with
      | (some offset, tree) =>
        ({ s.block with tree := tree }.write
          (CSegmentFileStorage.createFullPosition 0 offset level 0) tx).map fun block =>
            ⟨block, ((level, offset), tx) :: s.live⟩
      | (none, tree) => some { s with block := { s.block with tree := tree } }
  | .free offset => (s.block.tree.buddyFree offset).map fun tree =>
      ⟨{ s.block with tree := tree }, s.live.filter fun entry => entry.1.2 ≠ offset⟩

def step (s : Option FilledBlock) (c : BlockCall) : Option FilledBlock := s.bind fun s => s.call c

/-- What is given back is held. -/
def Admissible (s : Option FilledBlock) : BlockCall → Prop
  | .put _ => True
  | .free offset => ∃ filled, s = some filled ∧ ∃ entry ∈ filled.live, entry.1.2 = offset

/-- The areas are those of the tree, and each holds its transaction. -/
structure Filled (s : FilledBlock) : Prop where
  tracks : Tracks s.block.tree (s.live.map Prod.fst)
  level : ∀ entry ∈ s.live,
    getBuddyLevel (CTransaction.diskCodec.encode entry.2).length = some entry.1.1
  holds : ∀ entry ∈ s.live, s.block.Holds entry.1.2 entry.2

theorem filled_init (memory : ℕ → UInt8) : (init memory).Filled := ⟨tracks_new, nofun, nofun⟩

variable {s : FilledBlock}

theorem Filled.put (h : s.Filled) (tx : CTransaction) :
    ∃ s', s.call (.put tx) = some s' ∧ s'.Filled := by
  rw [call]
  cases hlevel : getBuddyLevel (CTransaction.diskCodec.encode tx).length with
  | none => exact ⟨s, rfl, h⟩
  | some level =>
    obtain ⟨hle, hsize⟩ := getBuddyLevel_spec hlevel
    dsimp only
    cases halloc : s.block.tree.buddyAlloc level with
    | mk place tree =>
      cases place with
      | none =>
        obtain rfl := buddyAlloc_none hle halloc
        exact ⟨s, rfl, h⟩
      | some offset =>
        have hnext := h.tracks.alloc hle halloc
        obtain ⟨k, hk, rfl⟩ := buddyAlloc_start hle halloc
        have hpacks := CSegmentFileStorage.packs_createFullPosition (show 0 < 2 ^ 32 by decide)
          ((start_lt hk hle).trans (by decide)) (hle.trans_lt (by decide)) (show 0 < 2 ^ 8 by decide)
        have hfits := CSegmentFileStorage.fitsArea_of_length hpacks.getLevel_eq hpacks.getIndex_eq
          hle hk hsize
        obtain ⟨block, hblock⟩ := Option.isSome_iff_exists.mp
          (hfits.written ⟨tree, s.block.area⟩)
        obtain ⟨htree, -⟩ := CDiskBlock.write_spec hblock
        refine ⟨⟨block, ((level, start baseLevel level k), tx) :: s.live⟩, ?_, ?_, ?_, ?_⟩
        · dsimp only
          rw [hblock]
          rfl
        · rw [htree]
          exact hnext
        · exact List.forall_mem_cons.mpr ⟨hlevel, h.level⟩
        · have hself := CDiskBlock.holds_write hblock
          rw [hpacks.getIndex_eq] at hself
          refine List.forall_mem_cons.mpr ⟨hself, fun entry hentry => ?_⟩
          -- the area of the entry is not the one that has been taken
          have hin := List.mem_map_of_mem (f := Prod.fst) hentry
          have hapart := (hnext.apart (List.mem_cons_of_mem _ hin) List.mem_cons_self fun heq =>
            (List.nodup_cons.mp hnext.nodup).1 (heq ▸ hin)).bytes
          dsimp only at hapart
          have hshort := (getBuddyLevel_spec (h.level entry hentry)).2
          have hold : CDiskBlock.Holds ⟨tree, s.block.area⟩ entry.1.2 entry.2 := h.holds entry hentry
          refine hold.write hblock ?_
          rw [hpacks.getIndex_eq]
          omega

theorem Filled.free (h : s.Filled) {entry : (ℕ × ℕ) × CTransaction} (hentry : entry ∈ s.live) :
    ∃ s', s.call (.free entry.1.2) = some s' ∧ s'.Filled := by
  obtain ⟨tree, hfree, hnext⟩ := h.tracks.free (List.mem_map_of_mem (f := Prod.fst) hentry)
  refine ⟨_, by rw [call, hfree]; rfl, ?_, fun entry' hentry' => ?_, fun entry' hentry' => ?_⟩
  · rw [List.filter_map] at hnext
    exact hnext
  · exact h.level entry' (List.mem_filter.mp hentry').1
  · exact h.holds entry' (List.mem_filter.mp hentry').1

theorem step_filled (s : Option FilledBlock) (c : BlockCall)
    (h : ∃ filled, s = some filled ∧ filled.Filled) (hc : Admissible s c) :
    ∃ filled, step s c = some filled ∧ filled.Filled := by
  obtain ⟨s, rfl, hfilled⟩ := h
  cases c with
  | put tx => exact hfilled.put tx
  | free offset =>
    obtain ⟨_, heq, entry, hentry, rfl⟩ := hc
    cases heq
    exact hfilled.free hentry

theorem Filled.readTransactions (h : s.Filled) : ∃ txs, s.block.readTransactions = some txs ∧
    txs.Perm ((s.live.filter fun entry => entry.1.1 ≠ 0).map Prod.snd) := by
  have hlive : (notEmptyAreas s.block.tree (CDiskBlock.levelsRead baseLevel)).Perm
      ((s.live.filter fun entry => entry.1.1 ≠ 0).map Prod.fst) := by
    have hnodup : ((s.live.filter fun entry => entry.1.1 ≠ 0).map Prod.fst).Nodup :=
      h.tracks.nodup.sublist (List.filter_sublist.map _)
    refine (List.perm_ext_iff_of_nodup
      (nodup_notEmptyAreas _ (CDiskBlock.nodup_levelsRead _)) hnodup).mpr fun a => ?_
    have hmem : a ∈ s.live.map Prod.fst ↔ _ := h.tracks.mem_iff a.1 a.2
    rw [List.mem_map] at hmem
    rw [mem_notEmptyAreas, CDiskBlock.mem_levelsRead, List.mem_map]
    simp only [List.mem_filter, decide_eq_true_eq]
    constructor
    · rintro ⟨⟨hle, hne⟩, hused⟩
      obtain ⟨entry, hentry, rfl⟩ := hmem.mpr ⟨hle, hused⟩
      exact ⟨entry, ⟨hentry, hne⟩, rfl⟩
    · rintro ⟨entry, ⟨hentry, hne⟩, rfl⟩
      obtain ⟨hle, hused⟩ := hmem.mp ⟨entry, hentry, rfl⟩
      exact ⟨⟨hle, hne⟩, hused⟩
  have hread : ∀ entry ∈ s.live, s.block.readArea entry.1.1 entry.1.2 = some entry.2 :=
    fun entry hentry => (h.holds entry hentry).readArea
      (getBuddyLevel_spec (h.level entry hentry)).2 ((getBuddySize_le _).trans (by decide))
  let tx : ℕ × ℕ → CTransaction := fun a =>
    (s.block.readArea a.1 a.2).getD ⟨0, [], [], 0, 0⟩
  have hall : ∀ a ∈ notEmptyAreas s.block.tree (CDiskBlock.levelsRead baseLevel),
      s.block.readArea a.1 a.2 = some (tx a) := by
    intro a ha
    obtain ⟨entry, hentry, rfl⟩ := List.mem_map.mp (hlive.mem_iff.mp ha)
    simp only [tx, hread entry (List.mem_filter.mp hentry).1, Option.getD_some]
  refine ⟨_, CDiskBlock.readLevels_eq hall, (hlive.map tx).trans (List.Perm.of_eq ?_)⟩
  rw [List.map_map]
  refine List.map_congr_left fun entry hentry => ?_
  simp only [tx, Function.comp_apply, hread entry (List.mem_filter.mp hentry).1, Option.getD_some]

/-- Every transaction of the block is read, each once, and nothing else. -/
def ReadsAll (s : FilledBlock) : Prop :=
  ∃ txs, s.block.readTransactions = some txs ∧ txs.Perm (s.live.map Prod.snd)

theorem Filled.readsAll_iff (h : s.Filled) : s.ReadsAll ↔
    ∀ entry ∈ s.live, (CTransaction.diskCodec.encode entry.2).length ≤ areaSize / 2 := by
  obtain ⟨txs, hread, hperm⟩ := h.readTransactions
  have hlevel : (∀ entry ∈ s.live, entry.1.1 ≠ 0) ↔
      ∀ entry ∈ s.live, (CTransaction.diskCodec.encode entry.2).length ≤ areaSize / 2 :=
    forall₂_congr fun entry hentry =>
      (not_congr (getBuddyLevel_eq_zero_iff (h.level entry hentry))).trans Nat.not_lt
  rw [← hlevel]
  constructor
  · rintro ⟨txs', hread', hperm'⟩
    obtain rfl := Option.some.inj (hread.symm.trans hread')
    have hlength := (hperm.symm.trans hperm').length_eq
    rw [List.length_map, List.length_map, List.length_filter_eq_length_iff] at hlength
    exact fun entry hentry => of_decide_eq_true (hlength entry hentry)
  · intro hne
    rw [List.filter_eq_self.mpr fun entry hentry => decide_eq_true (hne entry hentry)] at hperm
    exact ⟨txs, hread, hperm⟩

/-- In every run all transactions of the block are read if and only if none of them is longer
than half of the block. -/
theorem run_readsAll_iff (memory : ℕ → UInt8) (calls : List BlockCall)
    (hcalls : GuardedRun.Guarded step Admissible (some (init memory)) calls) :
    ∃ s, GuardedRun.run step (some (init memory)) calls = some s ∧ (s.ReadsAll ↔
      ∀ entry ∈ s.live, (CTransaction.diskCodec.encode entry.2).length ≤ areaSize / 2) := by
  obtain ⟨s, hrun, hfilled⟩ := hcalls.invariant step_filled ⟨_, rfl, filled_init memory⟩
  exact ⟨s, hrun, hfilled.readsAll_iff⟩

end FilledBlock

namespace WholeBlock
open Serialize FilledBlock

def payment (script : CScript) : CTransaction := ⟨1, [], [⟨5, script⟩], 0, 0⟩

/-- Two payments are put into a block, and the area of the first is given back. -/
theorem second_read : ∃ s,
    GuardedRun.run step (some (init fun _ => 0)) [.put (payment [1]), .put (payment [2]), .free 0] =
      some s ∧
    (s.ReadsAll ↔
      ∀ entry ∈ s.live, (CTransaction.diskCodec.encode entry.2).length ≤ areaSize / 2) :=
  run_readsAll_iff (fun _ => 0) _
    ⟨trivial, trivial, ⟨_, rfl, _, List.mem_cons_of_mem _ List.mem_cons_self, rfl⟩, trivial⟩

theorem length_encode {script : CScript} (h : script.length = 300000) :
    (CTransaction.diskCodec.encode (payment script)).length = 300031 := by
  have hvin : ((vector CTxIn.codec).encode []).length = 1 := rfl
  have hvout : ((vector CTxOut.codec).encode [⟨5, script⟩]).length =
      1 + (CTxOut.codec.encode ⟨5, script⟩).length := by
    change (writeCompactSize 1 ++ List.flatMap CTxOut.codec.encode [⟨5, script⟩]).length = _
    rw [List.flatMap_singleton, List.length_append]
    rfl
  have hsize : (writeCompactSize 300000).length = 5 := rfl
  rw [CTransaction.length_encode, payment, hvin, hvout, CTxOut.length_encode, h, hsize]

/-- A transaction that is given the whole block is not read. -/
theorem not_readsAll : ¬∀ memory calls,
    GuardedRun.Guarded step Admissible (some (init memory)) calls →
      ∃ s, GuardedRun.run step (some (init memory)) calls = some s ∧ s.ReadsAll := by
  intro hall
  obtain ⟨script, hscript⟩ : ∃ script : CScript, script.length = 300000 :=
    ⟨List.replicate 300000 0, List.length_replicate⟩
  have hlength := length_encode hscript
  have hlevel : getBuddyLevel (CTransaction.diskCodec.encode (payment script)).length = some 0 := by
    rw [hlength]
    rfl
  obtain ⟨s, hrun, hreads⟩ := hall (fun _ => 0) [.put (payment script)] ⟨trivial, trivial⟩
  obtain ⟨s', hcall, hfilled⟩ := (filled_init fun _ => 0).put (payment script)
  obtain rfl : s' = s := Option.some.inj (hcall.symm.trans hrun)
  have hlive : s'.live = [((0, 0), payment script)] := by
    rw [call, hlevel] at hcall
    obtain ⟨block, -, rfl⟩ := Option.map_eq_some_iff.mp hcall
    rfl
  have hshort := hfilled.readsAll_iff.mp hreads _ (hlive ▸ List.mem_cons_self)
  rw [hlength] at hshort
  exact absurd hshort (by decide)

end WholeBlock

end Dims
