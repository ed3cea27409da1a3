import Dims.PlacedAreas

/-!
# The records of placed transactions

The block of a location, as it is in use or as it has been saved last, holds every transaction
that has been stored there and has an unspent output, with the outputs that have been spent
nulled. Whatever the flush loop writes to another area leaves it there.
-/

namespace Dims
open CSegmentFileStorage ByteCodec HeapTree
open CSimpleBuddy hiding Apart Occupied

namespace CSegmentFileStorage

/-- The block of a location, as it is in use or as it has been saved last. -/
def current (s : CSegmentFileStorage) (saved : CLocation → Option CDiskBlock) (location : CLocation) :
    Option CDiskBlock :=
  (s.usedBlocks.lookup location).or (saved location)

section Frames

variable {ctx : StorageContext} {s s' : CSegmentFileStorage} {location : CLocation}
  {block : CDiskBlock}

theorem useBlock_frame (h : s.useBlock ctx location = some (block, s')) :
    s' = { s with
      usedBlocks := s'.usedBlocks
      headersCache := s'.headersCache
      lastSegmentIndex := s'.lastSegmentIndex } ∧
    ∀ location', s'.usedBlocks.lookup location' =
      if location' = location then some block else s.usedBlocks.lookup location' := by
  obtain ⟨rfl, hin⟩ | ⟨-, ⟨rfl, -⟩ | ⟨s₁, n, index, hassigned, rfl, -⟩⟩ := useBlock_cases h
  · refine ⟨rfl, fun location' => ?_⟩
    split
    case isTrue hsame => rw [hsame, hin]
    case isFalse => rfl
  · exact ⟨rfl, lookup_setUsedBlock s location block⟩
  · have hframe := hassigned.frame
    refine ⟨?_, fun location' => ?_⟩
    · rw [hframe]
      rfl
    · rw [lookup_setUsedBlock, hframe]

theorem frame_saveBlocks {blocks : List (CLocation × CDiskBlock)}
    (h : saveBlocks blocks s = some s') : s' = { s with
      headersCache := s'.headersCache
      lastSegmentIndex := s'.lastSegmentIndex
      alreadyStoredSegments := s'.alreadyStoredSegments
      segments := s'.segments } := by
  induction blocks generalizing s with
  | nil =>
    cases h
    rfl
  | cons block blocks ih =>
    obtain ⟨⟨blockNumber, s₁⟩, hassigned, hrest⟩ := Option.bind_eq_some_iff.mp h
    obtain ⟨index, hspec⟩ := assignBlockNumber_spec hassigned
    have hframe := hspec.frame
    rw [ih hrest, saveBlock, hframe]

theorem frame_addToRecentlyUsed {tx : CTransaction} (h : s.addToRecentlyUsed tx = some s') :
    s' = { s with
      support := s'.support, locationUsedFromLastUpdate := s'.locationUsedFromLastUpdate } ∧
    s'.support.transactionSpecificData = s.support.transactionSpecificData ∧
    s'.support.transactionToLocationCacheInsert = s.support.transactionToLocationCacheInsert := by
  obtain ⟨hframe, hfound, hinsert, -⟩ := markInputs_spec h
  exact ⟨hframe, hfound, hinsert⟩

theorem frame_foldlM {txs : List CTransaction} (h : txs.foldlM addToRecentlyUsed s = some s') :
    s' = { s with
      support := s'.support, locationUsedFromLastUpdate := s'.locationUsedFromLastUpdate } ∧
    s'.support.transactionSpecificData = s.support.transactionSpecificData ∧
    s'.support.transactionToLocationCacheInsert = s.support.transactionToLocationCacheInsert := by
  induction txs generalizing s with
  | nil =>
    cases h
    exact ⟨rfl, rfl, rfl⟩
  | cons tx txs ih =>
    obtain ⟨s₁, hfirst, hrest⟩ := Option.bind_eq_some_iff.mp h
    obtain ⟨hframe, hfound, hinsert⟩ := frame_addToRecentlyUsed hfirst
    obtain ⟨hframe', hfound', hinsert'⟩ := ih hrest
    exact ⟨by rw [hframe', hframe], hfound'.trans hfound, hinsert'.trans hinsert⟩

/-- What has been read is in the cache, so that the database is left alone. -/
theorem transactionSpecificData_erase_read {support : CSupportTransactionsDatabase} {hash : Uint256}
    {full : UInt64} (h : support.transactionSpecificData hash = some full) :
    ((support.getTransactionLocation hash).2.eraseTransactionLocation hash).transactionSpecificData =
      support.transactionSpecificData := by
  have hread : support.getTransactionLocation hash = (some full, { support with
      transactionToLocationCache := insertNew support.transactionToLocationCache hash full }) := by
    rw [CSupportTransactionsDatabase.getTransactionLocation, h]
  have hcached : (insertNew support.transactionToLocationCache hash full hash).isSome = true :=
    isSome_insertNew.mpr (.inl rfl)
  rw [hread, CSupportTransactionsDatabase.eraseTransactionLocation, if_pos hcached]

end Frames

end CSegmentFileStorage

namespace CDiskBlock

variable {b b' : CDiskBlock} {full full' : UInt64} {tx tx' : CTransaction}

theorem length_le_of_write (h : b.write full tx = some b') :
    (CTransaction.diskCodec.encode tx).length ≤ getBuddySize (getLevel full) := by
  rw [write] at h
  split at h
  case isTrue hlength => exact hlength
  case isFalse => cases h

theorem Holds.write_apart (h : b.Holds (getIndex full') tx')
    (hlength : (CTransaction.diskCodec.encode tx').length ≤ getBuddySize (getLevel full'))
    (hwrite : b.write full tx = some b') (hapart : Apart full full')
    (hlocation : CLocation.ofFullPosition full = CLocation.ofFullPosition full') :
    b'.Holds (getIndex full') tx' := by
  refine h.write hwrite ?_
  have hwritten := length_le_of_write hwrite
  have hareas := hapart hlocation
  rw [areaEnd, areaEnd, areaStart, areaStart] at hareas
  omega

theorem Holds.of_sameSegment (h : b'.Holds (getIndex full) tx) (hsame : SameSegment b b')
    (hfits : FitsArea tx full) : b.Holds (getIndex full) tx := by
  intro i hi
  have hcapacity := hfits.capacity
  have hinside := hfits.inside
  rw [areaEnd, areaStart] at hinside
  have hsegment := hsame (treeSize + (translateToAddress (getIndex full) + i))
    (Nat.add_lt_add_left (by omega) _)
  rw [segment, segment, if_neg (by omega), if_neg (by omega), Nat.add_sub_cancel_left] at hsegment
  rw [hsegment, h i hi]

theorem Holds.read (h : b.Holds (getIndex full) tx) (hfits : FitsArea tx full) :
    b.read full = some tx := by
  refine h.readArea hfits.capacity ((getBuddySize_le _).trans ?_)
  decide

end CDiskBlock

/-- The transactions that have a place, and what the storage holds of them. -/
structure SoundPlaces (placed : List Placement) (s : CSegmentFileStorage)
    (saved : CLocation → Option CDiskBlock) : Prop where
  areas : SoundAreas placed s
  known : ∀ p ∈ placed,
    (s.transactionLocationToBuddy (CLocation.ofFullPosition p.tx.location)).isSome
  length : ∀ p ∈ placed,
    (CTransaction.diskCodec.encode p.tx).length ≤ getBuddySize (getLevel p.tx.location)
  fresh : ∀ p ∈ placed, p.written = false → p.spent = [] ∧ p.isLive = true
  held : ∀ p ∈ placed, p.written = true → p.isLive = true → ∃ block,
    s.current saved (CLocation.ofFullPosition p.tx.location) = some block ∧
      block.Holds (getIndex p.tx.location) p.record

namespace SoundPlaces

variable {ctx : StorageContext} {P : CLocation → Prop} {placed : List Placement}
  {s s' : CSegmentFileStorage} {saved : CLocation → Option CDiskBlock} {p q : Placement}
  {tx : CTransaction}

theorem fitsArea (h : SoundPlaces placed s saved) (hp : p ∈ placed) (hlive : p.isLive = true)
    (ns : List ℕ) : FitsArea (p.tx.nullOutputs ns) p.tx.location := by
  obtain ⟨-, -, -, hlevel, k, hk, hat, -⟩ := h.areas.marked hp hlive
  exact fitsArea_of_length rfl hat.2.2 hlevel hk
    ((CTransaction.length_encode_nullOutputs_le _ ns).trans (h.length p hp))

theorem locate (h : SoundPlaces placed s saved) (tx : CTransaction) :
    SoundPlaces (placed.map (·.locate tx)) s saved := by
  refine ⟨h.areas.map (fun _ _ => Placement.tx_locate) fun _ _ => Placement.isLive_locate,
    List.forall_mem_map.mpr fun p hp => ?_, List.forall_mem_map.mpr fun p hp => ?_,
    List.forall_mem_map.mpr fun p hp => ?_, List.forall_mem_map.mpr fun p hp => ?_⟩
  · rw [Placement.tx_locate]
    exact h.known p hp
  · rw [Placement.tx_locate]
    exact h.length p hp
  · rw [Placement.written_locate, Placement.spent_locate, Placement.isLive_locate]
    exact h.fresh p hp
  · rw [Placement.written_locate, Placement.isLive_locate, Placement.tx_locate,
      Placement.record_locate]
    exact h.held p hp

theorem holds_used (h : SoundPlaces placed s saved) (hp : p ∈ placed) (hwritten : p.written = true)
    (hlive : p.isLive = true) {block : CDiskBlock}
    (hused : ∀ block', s.current saved (CLocation.ofFullPosition p.tx.location) = some block' →
      SameSegment block block') : block.Holds (getIndex p.tx.location) p.record := by
  obtain ⟨block', hcurrent, hheld⟩ := h.held p hp hwritten hlive
  exact hheld.of_sameSegment (hused block' hcurrent) (h.fitsArea hp hlive p.spent)

theorem current_setUsedBlock (s : CSegmentFileStorage) (saved : CLocation → Option CDiskBlock)
    (location : CLocation) (block : CDiskBlock) (location' : CLocation) :
    (s.setUsedBlock location block).current saved location' =
      if location' = location then some block else s.current saved location' := by
  rw [current, current, lookup_setUsedBlock]
  split
  · rfl
  · rfl

theorem current_useBlock {location location' : CLocation} {block : CDiskBlock}
    (h : s.useBlock ctx location = some (block, s')) (hne : location' ≠ location) :
    s'.current saved location' = s.current saved location' := by
  rw [current, current, (useBlock_frame h).2, if_neg hne]

theorem held_apart (h : SoundPlaces placed s saved) (hp : p ∈ placed) (hplive : p.isLive = true)
    (hq : q ∈ placed) (hqwritten : q.written = true) (hqlive : q.isLive = true) (hne : q ≠ p)
    {block written : CDiskBlock} {s₁ : CSegmentFileStorage}
    (hused : ∀ block', s.current saved (CLocation.ofFullPosition p.tx.location) = some block' →
      SameSegment block block')
    (hwritten : block.write p.tx.location tx = some written)
    (hothers : ∀ location, location ≠ CLocation.ofFullPosition p.tx.location →
      s₁.current saved location = s.current saved location) {tree : CSimpleBuddy} :
    ∃ block', (s₁.setUsedBlock (CLocation.ofFullPosition p.tx.location)
        { written with tree := tree }).current saved (CLocation.ofFullPosition q.tx.location) =
          some block' ∧ block'.Holds (getIndex q.tx.location) q.record := by
  rw [current_setUsedBlock]
  split
  case isTrue hsame =>
    rw [← hsame] at hused
    have hheld : written.Holds (getIndex q.tx.location) q.record :=
      (h.holds_used hq hqwritten hqlive hused).write_apart
        (h.fitsArea hq hqlive q.spent).capacity hwritten
        (h.areas.apart_of_ne hp hq hplive hqlive hne.symm) hsame.symm
    exact ⟨_, rfl, hheld⟩
  case isFalse hother =>
    rw [hothers _ hother]
    exact h.held q hq hqwritten hqlive

theorem length_spend (h : SoundPlaces placed s saved) {H : HashFunctions} {o : COutPoint} :
    ∀ q ∈ placed.map (·.spend H o),
      (CTransaction.diskCodec.encode q.tx).length ≤ getBuddySize (getLevel q.tx.location) :=
  List.forall_mem_map.mpr fun q hq => by
    rw [Placement.tx_spend]
    exact h.length q hq

theorem fresh_spend (h : SoundPlaces placed s saved) {H : HashFunctions} {o : COutPoint}
    (hwritten : p.written = true)
    (hunique : ∀ q ∈ placed, q.isLive = true → q.tx.getHash H = o.hash → q = p) :
    ∀ q ∈ placed.map (·.spend H o), q.written = false → q.spent = [] ∧ q.isLive = true := by
  refine List.forall_mem_map.mpr fun q hq hqwritten => ?_
  rw [Placement.written_spend] at hqwritten
  obtain ⟨hunspent, hqlive⟩ := h.fresh q hq hqwritten
  have hne : q ≠ p := by
    rintro rfl
    rw [hwritten] at hqwritten
    cases hqwritten
  rw [Placement.spend_of_unique hunique hq hqlive hne]
  exact ⟨hunspent, hqlive⟩

variable (hP : ∀ location, P location → Regular location)

include hP

theorem useBlock_current (hfiled : Filed P s saved) {location : CLocation} {block : CDiskBlock}
    (hlocation : P location) (hused : s.useBlock ctx location = some (block, s')) (hfits : s'.Fits) :
    ∀ block', s.current saved location = some block' → SameSegment block block' := by
  intro block' hcurrent
  obtain ⟨-, -, -, hsame⟩ := hfiled.useBlock hP hlocation hused hfits
  rw [current] at hcurrent
  rwa [hcurrent] at hsame

theorem store (h : SoundPlaces placed s saved) (hfiled : Filed P s saved)
    {locations : Finset CLocation} (hlocations : ∀ location ∈ locations, P location)
    (hproper : ∃ p ∈ placed, p.tx = tx ∧ p.written = false)
    (hstored : s.storeTransaction ctx locations tx = some s') (hfits : s'.Fits) :
    SoundPlaces (placed.map (·.store tx)) s' saved ∧
      s'.support.transactionSpecificData = s.support.transactionSpecificData := by
  obtain ⟨⟨block, s₁⟩, hused, hrest⟩ := Option.bind_eq_some_iff.mp hstored
  obtain ⟨written, hwritten, hrest⟩ := Option.bind_eq_some_iff.mp hrest
  split at hrest
  case isFalse => cases hrest
  case isTrue hin =>
    obtain ⟨buddy, hbuddy, rfl⟩ := Option.map_eq_some_iff.mp hrest
    obtain ⟨p, hp, rfl, hunwritten⟩ := hproper
    obtain ⟨hunspent, hplive⟩ := h.fresh p hp hunwritten
    have hsame := useBlock_current hP hfiled (hlocations _ hin) hused
      (hfits.of_keeps (keeps_setUsedBlock ..))
    obtain ⟨hframe, -⟩ := useBlock_frame hused
    have hkeeps := keeps_storeTransaction hstored
    refine ⟨⟨(h.areas.map (fun _ _ => Placement.tx_store) fun _ _ => Placement.isLive_store).congr
      ?_ ?_, List.forall_mem_map.mpr fun q hq => ?_, List.forall_mem_map.mpr fun q hq => ?_,
      List.forall_mem_map.mpr fun q hq hqwritten => ?_,
      List.forall_mem_map.mpr fun q hq hqwritten hqlive => ?_⟩, ?_⟩
    · rw [hframe]
      rfl
    · rw [hframe]
      rfl
    · rw [Placement.tx_store]
      exact (hkeeps.trees _).mpr (h.known q hq)
    · rw [Placement.tx_store]
      exact h.length q hq
    · rw [Placement.spent_store, Placement.isLive_store]
      refine h.fresh q hq ?_
      rw [Placement.store] at hqwritten
      split at hqwritten
      · cases hqwritten
      · exact hqwritten
    · rw [Placement.isLive_store] at hqlive
      rw [Placement.tx_store, Placement.record_store]
      by_cases htx : q.tx = p.tx
      · obtain rfl := h.areas.eq_of_location hq hp hqlive hplive (congrArg CTransaction.location htx)
        refine ⟨_, by rw [current_setUsedBlock, if_pos rfl], ?_⟩
        have hheld : written.Holds (getIndex q.tx.location) q.tx := CDiskBlock.holds_write hwritten
        rw [Placement.record, hunspent]
        exact hheld
      · rw [Placement.store, if_neg htx] at hqwritten
        have hne : q ≠ p := fun heq => htx (congrArg Placement.tx heq)
        exact h.held_apart hp hplive hq hqwritten hqlive hne hsame hwritten
          fun location => current_useBlock hused
    · rw [hframe]
      rfl

/-- The transaction that is read for an input is what is left of the one that has the place. -/
theorem spendOutput_read (h : SoundPlaces placed s saved) (hfiled : Filed P s saved) {txIn : CTxIn}
    (hp : p ∈ placed) (hhash : p.tx.getHash ctx.hashes = txIn.prevout.hash)
    (hwritten : p.written = true) (hlive : p.isLive = true)
    (hfound : s.support.transactionSpecificData txIn.prevout.hash = some p.tx.location)
    (hspent : s.spendOutput ctx tx txIn = some s') (hfits : s'.Fits) : ∃ block s₁,
    { s with support := (s.support.getTransactionLocation txIn.prevout.hash).2 }.useBlock ctx
      (CLocation.ofFullPosition p.tx.location) = some (block, s₁) ∧
    (∀ block', s.current saved (CLocation.ofFullPosition p.tx.location) = some block' →
      SameSegment block block') ∧
    { s₁ with support := s₁.support.eraseTransactionLocation txIn.prevout.hash }.releaseOutput ctx
      tx (p.spend ctx.hashes txIn.prevout).record block p.tx.location = some s' := by
  obtain ⟨full, hfull, hrest⟩ := Option.bind_eq_some_iff.mp hspent
  rw [CSupportTransactionsDatabase.getTransactionLocation_fst, hfound] at hfull
  obtain rfl := Option.some.inj hfull
  obtain ⟨⟨block, s₁⟩, hused, hrest⟩ := Option.bind_eq_some_iff.mp hrest
  obtain ⟨inTransaction, hread, hrest⟩ := Option.bind_eq_some_iff.mp hrest
  split at hrest
  case isFalse => cases hrest
  case isTrue =>
    have hlookup : Filed P
        { s with support := (s.support.getTransactionLocation txIn.prevout.hash).2 } saved :=
      hfiled.frame s.transactionQueue s.usedBuddy s.locationUsedFromLastUpdate hfiled.trees
        fun hash full' hin => hfiled.known hash full' (by simpa using hin)
    have hsame := useBlock_current hP hlookup (hfiled.known _ _ (.inl hfound)) hused
      (hfits.of_keeps ((keeps_erase s₁ _).trans (keeps_releaseOutput hrest)))
    have hheld := h.holds_used hp hwritten hlive hsame
    cases hread.symm.trans (hheld.read (h.fitsArea hp hlive p.spent))
    rw [← Placement.record_spend hhash] at hrest
    exact ⟨block, s₁, hused, hsame, hrest⟩

theorem spend (h : SoundPlaces placed s saved) (hfiled : Filed P s saved) {txIn : CTxIn}
    (hproper : QueueStep.Proper ctx.hashes s.support.transactionSpecificData placed
      (.spend tx txIn.prevout))
    (hspent : s.spendOutput ctx tx txIn = some s') (hfits : s'.Fits) :
    SoundPlaces (placed.map (·.spend ctx.hashes txIn.prevout)) s' saved ∧
      s'.support.transactionSpecificData = s.support.transactionSpecificData := by
  obtain ⟨p, hp, hhash, hwritten, hplive, hfound, hunique, hlast⟩ := hproper
  obtain ⟨block, s₁, hused, hsame, hreleased⟩ :=
    h.spendOutput_read hP hfiled hp hhash hwritten hplive hfound hspent hfits
  obtain ⟨hframe, -⟩ := useBlock_frame hused
  have hknown : ∀ q ∈ placed.map (·.spend ctx.hashes txIn.prevout),
      (s'.transactionLocationToBuddy (CLocation.ofFullPosition q.tx.location)).isSome :=
    List.forall_mem_map.mpr fun q hq => by
      rw [Placement.tx_spend]
      exact ((keeps_spendOutput hspent).trees _).mpr (h.known q hq)
  have hdata : (s₁.support.eraseTransactionLocation txIn.prevout.hash).transactionSpecificData =
      s.support.transactionSpecificData := by
    rw [hframe]
    exact transactionSpecificData_erase_read hfound
  have hcurrent : ∀ location, location ≠ CLocation.ofFullPosition p.tx.location →
      s₁.current saved location = s.current saved location :=
    fun location hne => Eq.trans (current_useBlock hused hne) rfl
  unfold releaseOutput at hreleased
  split at hreleased
  case isTrue hunspent =>
    obtain ⟨written, hrewritten, rfl⟩ := Option.map_eq_some_iff.mp hreleased
    refine ⟨⟨(h.areas.map (fun _ _ => Placement.tx_spend) fun q hq => ?_).congr ?_ ?_,
      hknown, h.length_spend, h.fresh_spend hwritten hunique,
      List.forall_mem_map.mpr fun q hq hqwritten hqlive => ?_⟩, hdata⟩
    · by_cases hne : q = p
      · rw [hne, hplive]
        exact hunspent
      · exact Placement.isLive_spend hunique hq hne
    · rw [hframe]
      rfl
    · rw [hframe]
      rfl
    · rw [Placement.written_spend] at hqwritten
      rw [Placement.tx_spend]
      by_cases hne : q = p
      · subst hne
        exact ⟨written, by rw [current_setUsedBlock, if_pos rfl],
          CDiskBlock.holds_write hrewritten⟩
      · have hqlive' := Placement.isLive_of_spend hqlive
        rw [Placement.spend_of_unique hunique hq hqlive' hne]
        exact h.held_apart hp hplive hq hqwritten hqlive' hne hsame hrewritten hcurrent
  case isFalse hlost =>
    obtain ⟨tree, -, hrest⟩ := Option.bind_eq_some_iff.mp hreleased
    obtain ⟨buddy, hbuddy, hrest⟩ := Option.bind_eq_some_iff.mp hrest
    obtain ⟨freed, hfreed, rfl⟩ := Option.map_eq_some_iff.mp hrest
    have hdead : (p.spend ctx.hashes txIn.prevout).isLive = false := Bool.eq_false_iff.mpr hlost
    have hblock := hlast.resolve_left hlost
    rw [← hblock, hframe] at hbuddy
    refine ⟨⟨h.areas.free hp hplive (fun _ _ => Placement.tx_spend) hdead
        (fun _ => Placement.isLive_spend hunique) hbuddy hfreed
      ?_ ?_, hknown, h.length_spend, h.fresh_spend hwritten hunique,
      List.forall_mem_map.mpr fun q hq hqwritten hqlive => ?_⟩, hdata⟩
    · rw [hframe, hblock]
      rfl
    · rw [hframe]
      rfl
    · have hne : q ≠ p := by
        rintro rfl
        rw [hdead] at hqlive
        cases hqlive
      have hqlive' := Placement.isLive_of_spend hqlive
      rw [Placement.written_spend] at hqwritten
      rw [Placement.spend_of_unique hunique hq hqlive' hne, current_setUsedBlock]
      split
      case isTrue hlocations =>
        rw [← hlocations] at hsame
        have hother : block.Holds (getIndex q.tx.location) q.record :=
          h.holds_used hq hqwritten hqlive' hsame
        exact ⟨_, rfl, hother⟩
      case isFalse hlocations =>
        obtain ⟨block', hblock', hother⟩ := h.held q hq hqwritten hqlive'
        exact ⟨block', (hcurrent _ hlocations).trans hblock', hother⟩

end SoundPlaces

end Dims
