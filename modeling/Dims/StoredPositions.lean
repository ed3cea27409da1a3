import Dims.BlockAreas
import Dims.SerializedSize

/-!
# The positions of stored transactions

A transaction is measured before it has a position and is written with it, and is written
again when outputs of it are spent. It is never longer than the area that the position
stands for, and the parts of the position are found again.
-/

namespace Dims

namespace CSegmentFileStorage
open CSimpleBuddy HeapTree

section Parts

/-- The parts of a full position are found again, and its location is that of its block. -/
structure Packs (full : UInt64) (blockPosition index level bucket : ℕ) : Prop where
  created : full = createFullPosition blockPosition index level bucket
  getBucket_eq : getBucket full = bucket
  getLevel_eq : getLevel full = level
  getIndex_eq : getIndex full = index
  getPosition_eq : getPosition full = blockPosition
  location_eq : CLocation.ofFullPosition full = CLocation.ofBucket bucket blockPosition

variable {blockPosition index level bucket : ℕ}

theorem packs_createFullPosition (hposition : blockPosition < 2 ^ 32) (hindex : index < 2 ^ 16)
    (hlevel : level < 2 ^ 8) (hbucket : bucket < 2 ^ 8) :
    Packs (createFullPosition blockPosition index level bucket) blockPosition index level bucket := by
  have hparts := toNat_createFullPosition blockPosition hindex hlevel hbucket
  refine ⟨rfl, ?_, getLevel_createFullPosition _ hindex hlevel hbucket,
    getIndex_createFullPosition _ hindex hlevel hbucket, ?_,
    ofFullPosition_createFullPosition _ hindex hlevel hbucket⟩
  · rw [getBucket_eq, hparts]
    omega
  · rw [getPosition_eq, hparts]
    omega

/-- The number of a block is an `unsigned int`. -/
theorem createFullPosition_mod (blockPosition index level bucket : ℕ) :
    createFullPosition (blockPosition % 2 ^ 32) index level bucket =
      createFullPosition blockPosition index level bucket := by
  unfold createFullPosition
  rw [Nat.mod_mod]

end Parts

section Assigned

variable {ctx : StorageContext} {s s' : CSegmentFileStorage} {tx : CTransaction} {full : UInt64}

theorem assignPosition_created (h : s.assignPosition ctx tx = some (some full, s')) :
    ∃ i level k, getBuddyLevel (CTransaction.diskCodec.encode tx).length = some level ∧
      k < 2 ^ level ∧ full = createFullPosition i (start baseLevel level k) level
        (calculateBucket (tx.getHash ctx.hashes)) := by
  unfold assignPosition at h
  split at h
  case h_1 => cases h
  case h_2 level hrequested =>
    have hlevel := (getBuddyLevel_spec hrequested).1
    obtain ⟨⟨place, buddies⟩, hsearched, h⟩ := Option.map_eq_some_iff.mp h
    obtain ⟨-, -, hplace⟩ := allocInBuddies_spec hlevel hsearched
    cases place with
    | some place =>
      obtain ⟨i, index⟩ := place
      cases h
      obtain ⟨-, k, hk, rfl⟩ := hplace _ rfl
      exact ⟨i, level, k, hrequested, hk, rfl⟩
    | none =>
      obtain ⟨index, hindex⟩ := Option.isSome_iff_exists.mp (buddyAlloc_new hlevel)
      obtain ⟨k, hk, rfl⟩ := buddyAlloc_start hlevel (Prod.ext hindex rfl)
      cases h
      refine ⟨(s.usedBuddy (calculateBucket (tx.getHash ctx.hashes))).getD 0, level, k, hrequested,
        hk, ?_⟩
      unfold allocInNewBuddy
      simp only [hindex, Option.getD_some]

/-- The stream of the position takes the transaction that is written to it, and the area that
it covers lies in the block. -/
structure FitsArea (tx : CTransaction) (full : UInt64) : Prop where
  capacity : (CTransaction.diskCodec.encode tx).length ≤ getBuddySize (getLevel full)
  written : ∀ b : CDiskBlock, (b.write full tx).isSome
  inside : areaEnd full ≤ areaSize

theorem fitsArea_of_length {level k : ℕ} (hlevel : getLevel full = level)
    (hindex : getIndex full = start baseLevel level k) (hle : level ≤ baseLevel) (hk : k < 2 ^ level)
    (hlength : (CTransaction.diskCodec.encode tx).length ≤ getBuddySize level) :
    FitsArea tx full := by
  subst hlevel
  refine ⟨hlength, fun b => ?_, ?_⟩
  · rw [CDiskBlock.write]
    simp only [if_pos hlength, Option.isSome_some]
  · rw [(areaEnd_eq hindex).2]
    calc (start baseLevel (getLevel full) k + width baseLevel (getLevel full)) * getBuddySize baseLevel
        ≤ 2 ^ baseLevel * getBuddySize baseLevel :=
          Nat.mul_le_mul_right _ (start_add_width_le hk hle)
      _ = areaSize := rfl

/-- The parts of every full position are found again, and whatever outputs of an accepted
transaction have been spent, it fits the area of its position. -/
theorem assigned_fits_recovered (ctx : StorageContext) :
    (∀ blockPosition index level bucket, blockPosition < 2 ^ 32 → index < 2 ^ 16 → level < 2 ^ 8 →
      bucket < 2 ^ 8 →
      Packs (createFullPosition blockPosition index level bucket) blockPosition index level bucket) ∧
    ∀ (s s' : CSegmentFileStorage) (tx : CTransaction) (full : UInt64),
      s.assignPosition ctx tx = some (some full, s') →
      (∀ nulled, FitsArea ((tx.setLocation full).nullOutputs nulled) full) ∧
        ∃ blockPosition index level,
          getBuddyLevel (CTransaction.diskCodec.encode tx).length = some level ∧
          Packs full blockPosition index level (calculateBucket (tx.getHash ctx.hashes)) := by
  refine ⟨fun _ _ _ _ => packs_createFullPosition, fun s s' tx full h => ?_⟩
  obtain ⟨i, level, k, hrequested, hk, rfl⟩ := assignPosition_created h
  obtain ⟨hlevel, hsize⟩ := getBuddyLevel_spec hrequested
  have hpacks := packs_createFullPosition (Nat.mod_lt i (show 0 < 2 ^ 32 by decide))
    ((start_lt hk hlevel).trans (by decide)) (hlevel.trans_lt (by decide))
    ((calculateBucket_lt (tx.getHash ctx.hashes)).trans (by decide))
  rw [createFullPosition_mod] at hpacks
  refine ⟨fun nulled => fitsArea_of_length hpacks.getLevel_eq hpacks.getIndex_eq hlevel hk ?_,
    _, _, level, hrequested, hpacks⟩
  calc (CTransaction.diskCodec.encode ((tx.setLocation _).nullOutputs nulled)).length
      ≤ (CTransaction.diskCodec.encode (tx.setLocation _)).length :=
        CTransaction.length_encode_nullOutputs_le _ nulled
    _ = (CTransaction.diskCodec.encode tx).length := tx.length_encode_setLocation _
    _ ≤ getBuddySize level := hsize

end Assigned

namespace FirstPosition

def context : StorageContext := ⟨⟨fun _ => 5, fun _ => 0⟩, fun _ => 0⟩

def payment : CTransaction := ⟨1, [], [⟨7, [0x51]⟩, ⟨8, [0x52]⟩], 0, 0⟩

theorem payment_fits :
    Packs (createFullPosition 9 4095 12 15) 9 4095 12 15 ∧
      FitsArea ((payment.setLocation 3077).nullOutputs [1]) 3077 ∧
      ∃ blockPosition index level,
        getBuddyLevel (CTransaction.diskCodec.encode payment).length = some level ∧
        Packs 3077 blockPosition index level (calculateBucket (payment.getHash context.hashes)) := by
  obtain ⟨hpacks, hassigned⟩ := assigned_fits_recovered context
  obtain ⟨hfits, hparts⟩ :=
    hassigned .init (CSegmentFileStorage.init.allocInNewBuddy 5 12).2 payment 3077 rfl
  exact ⟨hpacks 9 4095 12 15 (by decide) (by decide) (by decide) (by decide), hfits [1], hparts⟩

end FirstPosition

end CSegmentFileStorage

end Dims
