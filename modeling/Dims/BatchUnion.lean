import Dims.AddressIndex
import Dims.GuardedRun

/-!
# Batch writes as unions

Coins that find no room are written over each other, in the slot after those that are
searched. The database stays well formed, and a batch adds all its coins if and only if there
is room for them.
-/

namespace Dims

namespace BucketBatch

/-- The batch as it is also when its coins find no room. -/
structure Sound (slots : ℕ → Option Uint256) (stored : ℕ) (batch : BucketBatch) : Prop where
  recent : ∀ i < batch.searched stored, batch.recentlyIncluded i = batch.coinsBatch i
  reached : batch.searched stored = stored ∨
    batch.searched stored = stored + 1 ∧ ∀ i < stored, slots i ≠ none
  kept : ∀ i c, slots i = some c → batch.written slots i = some c
  distinct : ∀ i j c, batch.written slots i = some c → batch.written slots j = some c → i = j
  bounded : ∀ i, batch.writtenAmount stored ≤ i → batch.written slots i = none
  untouched : batch.amount = none → batch = empty
  beyond : batch.writtenAmount stored = batch.searched stored ∨
    batch.writtenAmount stored = batch.searched stored + 1 ∧
      ∀ i < batch.searched stored, batch.written slots i ≠ none

variable {slots : ℕ → Option Uint256} {stored : ℕ} {batch : BucketBatch} {coin : Uint256}

theorem sound_empty (hslots : ∀ i, stored ≤ i → slots i = none)
    (hdistinct : ∀ i j c, slots i = some c → slots j = some c → i = j) :
    Sound slots stored empty where
  recent _ _ := rfl
  reached := .inl rfl
  kept _ _ h := h
  distinct := hdistinct
  bounded := hslots
  untouched _ := rfl
  beyond := .inl rfl

theorem Sound.search (hb : Sound slots stored batch) {i : ℕ} (hi : i < batch.searched stored) :
    (batch.recentlyIncluded i).or (slots i) = batch.written slots i := by
  rw [hb.recent i hi, written]

/-- The slot after those searched is searched from then on only if the coin that goes there is the
first of the batch. -/
theorem Sound.includeCoin_slot (hb : Sound slots stored batch) {after : BucketBatch}
    (hafter : batch.includeCoin slots stored coin = after) :
    after = batch ∨ after.amount.isSome = true ∧
      (∀ i < batch.searched stored, batch.written slots i ≠ some coin) ∧
      (∀ i < after.searched stored, after.recentlyIncluded i = after.coinsBatch i) ∧
      ∃ slot, after.written slots = Function.update (batch.written slots) slot (some coin) ∧
        (slot < batch.searched stored ∧ batch.written slots slot = none ∧
            after.searched stored = batch.searched stored ∧
            after.writtenAmount stored = batch.searched stored ∨
          slot = batch.searched stored ∧ (∀ i < slot, batch.written slots i ≠ none) ∧
            after.writtenAmount stored = slot + 1 ∧
            (after.searched stored = slot ∨ after.searched stored = slot + 1 ∧ batch = empty)) := by
  rcases includeCoin_cases (fun i hi => hb.search hi) hafter with
    ⟨hsame, -⟩ | ⟨hmiss, slot, hrecent, hcoins, hwritten, hcase⟩
  · exact .inl hsame
  have hagree : ∀ i, batch.recentlyIncluded i = batch.coinsBatch i →
      (i = slot → batch.coinsBatch i = none) → after.recentlyIncluded i = after.coinsBatch i := by
    intro i hi hslot
    rw [hrecent, hcoins]
    by_cases heq : i = slot
    · have hfree := hslot heq
      subst heq
      rw [Function.update_self, Function.update_self, hi, hfree, Option.getD_none]
    · rw [Function.update_of_ne heq, Function.update_of_ne heq, hi]
  rcases hcase with ⟨hlt, hfree, hamount, hbatch⟩ | ⟨heq, hfull, hamount, hbatch⟩
  · have hsearched : after.searched stored = batch.searched stored := by
      rw [searched, hamount]
      rfl
    refine .inr ⟨by rw [hamount]; rfl, hmiss, fun i hi => ?_, slot, hwritten,
      .inl ⟨hlt, hfree, hsearched, ?_⟩⟩
    · rw [hsearched] at hi
      refine hagree i (hb.recent i hi) ?_
      rintro rfl
      exact (Option.or_eq_none_iff.mp hfree).1
    · rw [writtenAmount, hbatch]
      rfl
  · have hlast : after.writtenAmount stored = slot + 1 := by
      rw [writtenAmount, hbatch]
      rfl
    refine .inr ⟨by rw [hamount]; rfl, hmiss, ?_⟩
    cases hfirst : batch.amount with
    | none =>
      have hempty := hb.untouched hfirst
      have hsearched : after.searched stored = slot + 1 := by
        rw [heq, searched, searched, hamount, hfirst]
        rfl
      refine ⟨fun i _ => hagree i ?_ fun _ => ?_, slot, hwritten,
        .inr ⟨heq, hfull, hlast, .inr ⟨hsearched, hempty⟩⟩⟩
      · rw [hempty]
        rfl
      · rw [hempty]
        rfl
    | some amount =>
      have hsearched : after.searched stored = slot := by
        rw [heq, searched, searched, hamount, hfirst]
        rfl
      refine ⟨fun i hi => ?_, slot, hwritten, .inr ⟨heq, hfull, hlast, .inl hsearched⟩⟩
      rw [hsearched] at hi
      exact hagree i (hb.recent i (heq ▸ hi)) fun hslot => absurd hslot hi.ne

theorem Sound.writtenAmount_le_searched (hb : Sound slots stored batch) :
    batch.writtenAmount stored ≤ batch.searched stored + 1 := by
  rcases hb.beyond with heq | ⟨heq, -⟩ <;> omega

theorem Sound.open_of_free (hb : Sound slots stored batch) {slot : ℕ}
    (hlt : slot < batch.searched stored) (hfree : batch.written slots slot = none) :
    batch.writtenAmount stored = batch.searched stored :=
  hb.beyond.resolve_right fun h => h.2 slot hlt hfree

theorem Sound.written_ne (hb : Sound slots stored batch)
    (hmiss : ∀ i < batch.searched stored, batch.written slots i ≠ some coin) {slot : ℕ}
    (hslot : slot < batch.searched stored ∧ batch.written slots slot = none ∨
      slot = batch.searched stored) {i : ℕ} (hi : i ≠ slot) :
    batch.written slots i ≠ some coin := by
  by_cases hlt : i < batch.searched stored
  · exact hmiss i hlt
  · have hclosed := hb.writtenAmount_le_searched
    have hbeyond : batch.writtenAmount stored ≤ i := by
      rcases hslot with ⟨hbefore, hfree⟩ | heq
      · have hopen := hb.open_of_free hbefore hfree
        omega
      · omega
    rw [hb.bounded i hbeyond]
    exact nofun

variable (coin) in
/-- Whether or not there is room for a coin, the slots that were filled keep what they have. -/
theorem Sound.includeCoin (hb : Sound slots stored batch)
    (hslots : ∀ i, stored ≤ i → slots i = none) :
    Sound slots stored (batch.includeCoin slots stored coin) ∧
      ∀ i c, (batch.includeCoin slots stored coin).written slots i = some c →
        (∃ j, batch.written slots j = some c) ∨ c = coin := by
  rcases hb.includeCoin_slot rfl with hsame | ⟨hamount, hmiss, hrecent, slot, hwritten, hcase⟩
  · rw [hsame]
    exact ⟨hb, fun i c hi => .inl ⟨i, hi⟩⟩
  generalize batch.includeCoin slots stored coin = after at *
  have hslot : slot < batch.searched stored ∧ batch.written slots slot = none ∨
      slot = batch.searched stored := by
    rcases hcase with ⟨hlt, hfree, -⟩ | ⟨heq, -⟩
    · exact .inl ⟨hlt, hfree⟩
    · exact .inr heq
  have hgrown : slot < after.writtenAmount stored ∧
      batch.writtenAmount stored ≤ after.writtenAmount stored := by
    have hclosed := hb.writtenAmount_le_searched
    rcases hcase with ⟨hlt, hfree, -, hlast⟩ | ⟨heq, -, hlast, -⟩
    · have hopen := hb.open_of_free hlt hfree
      omega
    · omega
  have hfree : slots slot = none := by
    rcases hslot with ⟨-, hfree⟩ | heq
    · exact (Option.or_eq_none_iff.mp hfree).2
    · have hle : stored ≤ batch.searched stored := by
        rcases hb.reached with heq | ⟨heq, -⟩ <;> omega
      exact hslots slot (heq ▸ hle)
  refine ⟨⟨hrecent, ?_, ?_, ?_, ?_, ?_, ?_⟩, ?_⟩
  · rcases hcase with ⟨-, -, hsearched, -⟩ | ⟨heq, hfull, -, hsearched | ⟨hsearched, hempty⟩⟩
    · rw [hsearched]
      exact hb.reached
    · rw [hsearched, heq]
      exact hb.reached
    · subst hempty
      rw [hsearched, heq]
      exact .inr ⟨rfl, fun i hi => hfull i (heq ▸ hi)⟩
  · intro i c hi
    have hne : i ≠ slot := by
      rintro rfl
      rw [hfree] at hi
      cases hi
    rw [hwritten, Function.update_of_ne hne]
    exact hb.kept i c hi
  · intro i j c hi hj
    rw [hwritten] at hi hj
    exact distinct_update hb.distinct (fun i hi => hb.written_ne hmiss hslot hi) hi hj
  · intro i hi
    rw [hwritten, Function.update_of_ne (by omega)]
    exact hb.bounded i (hgrown.2.trans hi)
  · intro hnone
    rw [hnone] at hamount
    cases hamount
  · rcases hcase with ⟨-, -, hsearched, hlast⟩ | ⟨heq, hfull, hlast, hsearched | ⟨hsearched, -⟩⟩
    · exact .inl (hlast.trans hsearched.symm)
    · refine .inr ⟨by rw [hlast, hsearched], fun i hi => ?_⟩
      rw [hsearched] at hi
      rw [hwritten, Function.update_of_ne hi.ne]
      exact hfull i hi
    · exact .inl (hlast.trans hsearched.symm)
  · intro i c hi
    rw [hwritten] at hi
    by_cases hislot : i = slot
    · rw [hislot, Function.update_self] at hi
      exact .inr (Option.some.inj hi).symm
    · rw [Function.update_of_ne hislot] at hi
      exact .inl ⟨i, hi⟩

theorem Sound.includeAll (hb : Sound slots stored batch)
    (hslots : ∀ i, stored ≤ i → slots i = none) (coins : List Uint256) :
    Sound slots stored (coins.foldl (BucketBatch.includeCoin slots stored) batch) ∧
      ∀ i c, (coins.foldl (BucketBatch.includeCoin slots stored) batch).written slots i = some c →
        (∃ j, batch.written slots j = some c) ∨ c ∈ coins := by
  induction coins generalizing batch with
  | nil => exact ⟨hb, fun i c hi => .inl ⟨i, hi⟩⟩
  | cons coin coins ih =>
    obtain ⟨hstep, hheld⟩ := hb.includeCoin coin hslots
    obtain ⟨hrest, hlater⟩ := ih hstep
    refine ⟨hrest, fun i c hi => ?_⟩
    rcases hlater i c hi with ⟨j, hj⟩ | hin
    · exact (hheld j c hj).imp_right fun heq => List.mem_cons.mpr (.inl heq)
    · exact .inr (List.mem_cons_of_mem _ hin)

theorem Sound.writtenAmount_le (hb : Sound slots stored batch) :
    batch.writtenAmount stored ≤ stored + 1 ∨
      batch.writtenAmount stored ≤ stored + 2 ∧ ∀ i < stored, slots i ≠ none := by
  have hclosed := hb.writtenAmount_le_searched
  rcases hb.reached with heq | ⟨heq, hfull⟩
  · exact .inl (by omega)
  · exact .inr ⟨by omega, hfull⟩

end BucketBatch

inductive AddressToCoinsOperation where
  | batchWrite (mapCoins : CKeyID → List Uint256)
  | eraseCoin (keyId : CKeyID) (coin : Uint256)
  | setTransactionInputs (hash : Uint256) (inputs : List CKeyID)
  | clearView

namespace CAddressToCoins

variable {db : CAddressToCoins} {mapCoins : CKeyID → List Uint256}

def operate (db : CAddressToCoins) : AddressToCoinsOperation → CAddressToCoins
  | .batchWrite mapCoins => db.batchWrite mapCoins
  | .eraseCoin keyId coin => db.eraseCoin keyId coin
  | .setTransactionInputs hash inputs => db.setTransactionInputs hash inputs
  | .clearView => db.clearView

/-- A batch unites what the keys have with what they are given. -/
structure Unites (db : CAddressToCoins) (mapCoins : CKeyID → List Uint256) : Prop where
  nodup : ∀ keyId, ((db.batchWrite mapCoins).getCoins keyId).Nodup
  mem : ∀ keyId c, c ∈ (db.batchWrite mapCoins).getCoins keyId ↔
    c ∈ db.getCoins keyId ∨ c ∈ mapCoins keyId
  amount : ∀ keyId, (db.batchWrite mapCoins).getCoinsAmount keyId =
    (db.getCoins keyId ++ mapCoins keyId).toFinset.card
  others : ∀ keyId, mapCoins keyId = [] →
    (db.batchWrite mapCoins).getCoins keyId = db.getCoins keyId

theorem WellFormed.sound_writeKey (h : db.WellFormed) (keyId : CKeyID) (coins : List Uint256)
    (bucket : UInt8) :
    BucketBatch.Sound (db.coins bucket keyId) (db.storedAmount keyId bucket)
      (db.writeKey keyId coins bucket) ∧
    ∀ i c, (db.writeKey keyId coins bucket).written (db.coins bucket keyId) i = some c →
      (∃ j, db.coins bucket keyId j = some c) ∨ c ∈ coins ∧ getBucket c = bucket := by
  have hslots := h.bounded bucket keyId
  obtain ⟨hsound, hheld⟩ := (BucketBatch.sound_empty hslots (h.distinct bucket keyId)).includeAll
    hslots (coins.filter fun c => getBucket c = bucket)
  rw [writeKey_eq]
  refine ⟨hsound, fun i c hi => (hheld i c hi).imp_right fun hin => ?_⟩
  rw [List.mem_filter, decide_eq_true_eq] at hin
  exact hin

theorem WellFormed.batchWrite_sound (h : db.WellFormed) (mapCoins : CKeyID → List Uint256) :
    (db.batchWrite mapCoins).WellFormed ∧ ∀ bucket keyId i c,
      (db.batchWrite mapCoins).coins bucket keyId i = some c →
        (∃ j, db.coins bucket keyId j = some c) ∨ c ∈ mapCoins keyId ∧ getBucket c = bucket := by
  have hkey := fun bucket keyId => h.sound_writeKey keyId (mapCoins keyId) bucket
  refine ⟨⟨?_, ?_, ?_⟩, fun bucket keyId => (hkey bucket keyId).2⟩
  · intro bucket keyId i hi
    rw [storedAmount_batchWrite] at hi
    exact (hkey bucket keyId).1.bounded i hi
  · exact fun bucket keyId => (hkey bucket keyId).1.distinct
  · intro bucket keyId i c hi
    rcases (hkey bucket keyId).2 i c hi with ⟨j, hj⟩ | ⟨-, hbucket⟩
    · exact h.bucket _ _ _ _ hj
    · exact hbucket

theorem WellFormed.operate (h : db.WellFormed) (operation : AddressToCoinsOperation) :
    (db.operate operation).WellFormed := by
  cases operation with
  | batchWrite mapCoins => exact (h.batchWrite_sound mapCoins).1
  | eraseCoin keyId coin => exact h.eraseCoin keyId coin
  | setTransactionInputs hash inputs => exact ⟨h.bounded, h.distinct, h.bucket⟩
  | clearView => exact wellFormed_empty

theorem getCoins_batchWrite_of_nil {keyId : CKeyID} (hnil : mapCoins keyId = []) :
    (db.batchWrite mapCoins).getCoins keyId = db.getCoins keyId := by
  have hbucket : ∀ bucket, (db.batchWrite mapCoins).bucketCoins keyId bucket =
      db.bucketCoins keyId bucket := by
    intro bucket
    have hwritten : db.writeKey keyId (mapCoins keyId) bucket = .empty := by
      rw [hnil]
      rfl
    have hcoins : (db.batchWrite mapCoins).coins bucket keyId = db.coins bucket keyId := by
      funext i
      change ((db.writeKey keyId (mapCoins keyId) bucket).coinsBatch i).or _ = _
      rw [hwritten]
      rfl
    rw [bucketCoins, bucketCoins, storedAmount_batchWrite, hwritten, hcoins]
    rfl
  unfold getCoins
  simp only [hbucket]

/-- A batch with room is a union. -/
theorem WellFormed.unites (h : db.WellFormed) (hroom : ∀ keyId, db.HasRoom keyId (mapCoins keyId)) :
    db.Unites mapCoins := by
  obtain ⟨hwell, hholds⟩ := h.batchWrite mapCoins hroom
  have hmem : ∀ keyId c, c ∈ (db.batchWrite mapCoins).getCoins keyId ↔
      c ∈ db.getCoins keyId ∨ c ∈ mapCoins keyId := by
    intro keyId c
    rw [hwell.mem_getCoins, hholds, h.mem_getCoins]
  refine ⟨fun keyId => hwell.nodup_getCoins, hmem, fun keyId => ?_, fun keyId hnil =>
    getCoins_batchWrite_of_nil hnil⟩
  rw [← length_getCoins, ← List.toFinset_card_of_nodup hwell.nodup_getCoins]
  congr 1
  ext c
  rw [List.mem_toFinset, List.mem_toFinset, hmem, List.mem_append]

theorem WellFormed.card_newCoins_le (h : db.WellFormed) {keyId : CKeyID} {bucket : UInt8}
    (hmem : ∀ c ∈ mapCoins keyId, getBucket c = bucket →
      c ∈ (db.batchWrite mapCoins).bucketCoins keyId bucket) :
    (db.newCoins keyId bucket (mapCoins keyId)).card ≤ db.capacity keyId bucket := by
  obtain ⟨hsound, -⟩ := h.sound_writeKey keyId (mapCoins keyId) bucket
  have hnodup : (db.bucketCoins keyId bucket ++
      (db.newCoins keyId bucket (mapCoins keyId)).toList).Nodup := by
    refine List.nodup_append.mpr ⟨h.nodup_bucketCoins bucket, Finset.nodup_toList _, ?_⟩
    rintro c hc _ hnew rfl
    simp only [newCoins, Finset.mem_toList, List.mem_toFinset, List.mem_filter,
      decide_eq_true_eq] at hnew
    exact hnew.2.2 hc
  have hsub : db.bucketCoins keyId bucket ++
      (db.newCoins keyId bucket (mapCoins keyId)).toList ⊆
        (db.batchWrite mapCoins).bucketCoins keyId bucket := by
    refine List.append_subset.mpr ⟨fun c hc => ?_, fun c hc => ?_⟩
    · obtain ⟨i, hi⟩ := h.mem_bucketCoins.mp hc
      exact (h.batchWrite_sound mapCoins).1.mem_bucketCoins.mpr ⟨i, hsound.kept i c hi⟩
    · simp only [newCoins, Finset.mem_toList, List.mem_toFinset, List.mem_filter,
        decide_eq_true_eq] at hc
      exact hmem c hc.1 hc.2.1
  have hlength := (hnodup.subperm hsub).length_le
  rw [List.length_append, Finset.length_toList] at hlength
  have hslots : ((db.batchWrite mapCoins).bucketCoins keyId bucket).length ≤
      (db.writeKey keyId (mapCoins keyId) bucket).writtenAmount (db.storedAmount keyId bucket) := by
    rw [← storedAmount_batchWrite]
    exact (List.length_filterMap_le _ _).trans_eq List.length_range
  unfold capacity
  rcases hsound.writtenAmount_le with hle | ⟨hle, hfull⟩
  · omega
  · have hfree := db.card_freeSlots keyId bucket
    rw [BucketBatch.freeSlots_eq_empty hfull, Finset.card_empty] at hfree
    omega

/-- Whatever has been done to the database, a batch is a union if and only if its new coins
find room in every bucket. -/
theorem run_unites_iff (operations : List AddressToCoinsOperation)
    (mapCoins : CKeyID → List Uint256) :
    Unites (GuardedRun.run operate empty operations) mapCoins ↔
      ∀ keyId, HasRoom (GuardedRun.run operate empty operations) keyId (mapCoins keyId) := by
  have h : WellFormed (GuardedRun.run operate empty operations) :=
    GuardedRun.run_invariant (fun _ operation hs => hs.operate operation) wellFormed_empty operations
  constructor
  · intro hunites keyId c _
    refine h.card_newCoins_le fun c' hc' hbucket => ?_
    have hwell := (h.batchWrite_sound mapCoins).1
    have hholds := hwell.mem_getCoins.mp ((hunites.mem keyId c').mpr (.inr hc'))
    rw [Holds, hbucket] at hholds
    exact hwell.mem_bucketCoins.mpr hholds
  · exact h.unites

end CAddressToCoins

namespace CrowdedBucket
open CAddressToCoins

def coins (keyId : CKeyID) : List Uint256 := if keyId = 0 then [1, 257, 513] else []

/-- The second of three coins is lost. -/
theorem not_always_unites :
    ¬∀ operations mapCoins, Unites (GuardedRun.run operate empty operations) mapCoins := by
  intro hall
  have hwell := (wellFormed_empty.batchWrite_sound coins).1
  have hholds := hwell.mem_getCoins.mp (((hall [] coins).mem 0 257).mpr (.inr (by decide)))
  have hbucket : 257 ∈ (empty.batchWrite coins).bucketCoins 0 1 := hwell.mem_bucketCoins.mpr hholds
  exact absurd hbucket (by decide)

end CrowdedBucket

end Dims
