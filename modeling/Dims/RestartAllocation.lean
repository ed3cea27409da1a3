import Dims.BlockAreas
import Dims.StorageRestart

/-!
# Where transactions are placed after a restart

The trees that a restart finds in the files, or that are in memory already, mark the areas
of the live transactions. If they are at the positions at which the buckets are counted,
what is placed afterwards is apart from those.
-/

namespace Dims
open HeapTree

namespace CSegmentFileStorage

/-- `setDiscBlock` for the blocks of another node, from the one of an index on. -/
def receiveBlocks : ℕ → List CDiskBlock → CSegmentFileStorage → CSegmentFileStorage
  | _, [], s => s
  | index, block :: blocks, s => receiveBlocks (index + 1) blocks (s.saveBlock index block)

theorem segments_receiveBlocks (index : ℕ) (blocks : List CDiskBlock) (s : CSegmentFileStorage) :
    (receiveBlocks index blocks s).segments = SegmentFile.saveFrom CDiskBlock.segmentSize index
      (blocks.map CDiskBlock.segment) s.segments := by
  induction blocks generalizing index s with
  | nil => rfl
  | cons block blocks ih => exact ih (index + 1) (s.saveBlock index block)

theorem Marks.of_agree {tree tree' : CSimpleBuddy} {full : UInt64} (h : Marks tree full)
    (hagree : ∀ i < CSimpleBuddy.treeSize, tree' i = tree i) : Marks tree' full := by
  obtain ⟨hlevel, k, hk, hindex, hused⟩ := h
  refine ⟨hlevel, k, hk, hindex, (hagree _ ?_).trans hused⟩
  have hlt := node_lt_of_le hk hlevel
  have hsize : CSimpleBuddy.treeSize = 2 ^ (CSimpleBuddy.baseLevel + 1) := rfl
  omega

end CSegmentFileStorage

namespace StorageHistory
open CSegmentFileStorage SegmentFile

variable (ctx : StorageContext)

/-- A transaction that has been flushed and has an output that no flushed transaction spends. -/
def Live (h : StorageHistory) (tx : CTransaction) : Prop :=
  tx ∈ h.stored ∧ ∃ n < tx.vout.length, ∀ spender ∈ h.stored, spender.isCoinBase = false →
    ∀ txIn ∈ spender.vin, ¬(txIn.prevout.hash = tx.getHash ctx.hashes ∧ txIn.prevout.n.toNat = n)

/-- A node whose files are those that the flushes have left, or that has received the headers
and the blocks in them one by one. Nothing is said of its memory. -/
inductive FilesOf (h : StorageHistory) (start : CSegmentFileStorage) : Prop
  | flushed (hheaders : start.headers = h.storage.headers)
      (hsegments : start.segments = h.storage.segments)
  | received (target : CSegmentFileStorage) (blocks : List CDiskBlock)
      (hsome : h.storage.headersCache ≠ [])
      (hlength : blocks.length = h.storage.alreadyStoredSegments)
      (hblocks : ∀ index block, blocks[index]? = some block →
        h.storage.getBlock index = some (some block))
      (hheaders : start.headers = saveHeadersFrom 0 h.storage.headersCache target.headers)
      (hsegments : start.segments = (target.receiveBlocks 0 blocks).segments)

/-- What calls of `assignPosition` owe after a restart: they return, and the areas that they
return have no byte in common with each other and with those of the live transactions. -/
def RestartSound (h : StorageHistory) (start : CSegmentFileStorage) (txs : List CTransaction) :
    Prop :=
  ∃ s' positions s'', start.resetState.retriveState ctx = some s' ∧
    assignPositions ctx txs s' = some (positions, s'') ∧ positions.Nodup ∧
      positions.Pairwise Apart ∧ ∀ full ∈ positions, ∀ tx, h.Live ctx tx → Apart full tx.location

/-- The tree that a location has after a restart. -/
def treeAfter (h : StorageHistory) (start : CSegmentFileStorage) (location : CLocation) :
    Option CSimpleBuddy :=
  (start.transactionLocationToBuddy location).or ((h.saved location).map CDiskBlock.tree)

/-- The used records of every bucket are its first, every bucket has one if there is a header,
the trees in memory are those of blocks with a record, and the areas of the live
transactions are marked. -/
structure Resumable (h : StorageHistory) (start : CSegmentFileStorage) : Prop where
  gapless : Gapless h.storage.headersCache
  filled : h.storage.headersCache ≠ [] → ∀ bucket < maxBucket,
    (numberIn h.storage.headersCache bucket 0).isSome
  memory : ∀ location tree, start.transactionLocationToBuddy location = some tree →
    (numberOf h.storage.headersCache location).isSome ∧ tree.WellFormed
  marked : ∀ tx, h.Live ctx tx → ∃ tree,
    h.treeAfter start (.ofFullPosition tx.location) = some tree ∧ Marks tree tx.location

section Restart

variable {ctx : StorageContext} {Extra : CLocation → Prop} {h : StorageHistory}
  {start : CSegmentFileStorage}

theorem FilesOf.inFiles (hfiles : FilesOf h start) (hrest : AtRest Extra h.storage h.saved)
    (hfits : h.storage.Fits) : InFilesOf h.storage.headersCache h.saved start := by
  have hstored : ∀ location block n, h.saved location = some block →
      numberOf h.storage.headersCache location = some n →
        n.toNat < h.storage.alreadyStoredSegments ∧
          Stores CDiskBlock.segmentSize n.toNat block.segment h.storage.segments := by
    intro location block n hsaved hn
    obtain ⟨-, -, n', hn', hlt, hstores⟩ := hrest.filed.stored location block hsaved
    cases hn.symm.trans hn'
    exact ⟨hlt, hstores⟩
  obtain ⟨hheaders, hsegments⟩ | ⟨target, blocks, hsome, hlength, hblocks, hheaders, hsegments⟩ :=
    hfiles
  · refine ⟨hheaders ▸ hrest.headers, fun location block n hsaved hn => ?_⟩
    rw [hsegments]
    exact (hstored location block n hsaved hn).2
  · refine ⟨⟨fun hempty => absurd hempty hsome, fun i header hi => ?_⟩,
      fun location block n hsaved hn => ?_⟩
    · rw [hheaders]
      exact saveHeadersFrom_stores hfits.headers hi
    · obtain ⟨hlt, hstores⟩ := hstored location block n hsaved hn
      obtain ⟨read, hread, hsame⟩ := getBlock_of_stores hstores hlt
      have hin : blocks[n.toNat]? = some read := by
        have hlt' : n.toNat < blocks.length := hlength ▸ hlt
        rw [List.getElem?_eq_getElem hlt']
        have hblock := hblocks n.toNat _ (List.getElem?_eq_getElem hlt')
        rw [hread] at hblock
        cases hblock
        rfl
      have hrange : CDiskBlock.segmentSize * (0 + (blocks.map CDiskBlock.segment).length) ≤ 2 ^ 32 := by
        rw [Nat.zero_add, List.length_map, hlength]
        exact (Nat.mul_le_mul_left _ hrest.filed.counted).trans hfits.blocks
      have hreceived : Stores CDiskBlock.segmentSize (0 + n.toNat) read.segment start.segments := by
        rw [hsegments, segments_receiveBlocks]
        exact stores_saveFrom hrange (by rw [List.getElem?_map, hin, Option.map_some])
      rw [Nat.zero_add] at hreceived
      obtain ⟨file, hfile, bytes, hload, hbytes⟩ := hreceived
      exact ⟨file, hfile, bytes, hload, fun i hi => (hbytes i hi).trans (hsame i hi)⟩

theorem Resumable.occupied (hresumable : Resumable ctx h start)
    (hrest : AtRest Extra h.storage h.saved) (hfits : h.storage.Fits)
    (hfiles : InFilesOf h.storage.headersCache h.saved start)
    (hroom : h.storage.headersCache.length * CSegmentHeader.getNumberOfFullBucketSets ≤ 2 ^ 32) :
    ∃ s', start.resetState.retriveState ctx = some s' ∧
      Occupied {full | ∃ tx, h.Live ctx tx ∧ tx.location = full} s' ∧
      ∀ bucket < maxBucket, s'.blocksOf bucket ≤
        h.storage.headersCache.length * CSegmentHeader.getNumberOfFullBucketSets := by
  obtain ⟨s', hs', hretrived, hmapped⟩ := hrest.retriveFiles ctx hfits hfiles
  have hcount : ∀ bucket, s'.blocksOf bucket =
      (usedIn bucket (recordsInOrder h.storage.headersCache)).length := by
    intro bucket
    unfold blocksOf
    rw [hretrived.counted, getD_usedBuddy_recounted, Nat.zero_add]
  have hposition : ∀ bucket < maxBucket, ∀ i, i < s'.blocksOf bucket ↔
      (numberIn h.storage.headersCache bucket i).isSome := by
    intro bucket hbucket i
    rw [← hresumable.gapless.getElem?_usedIn hbucket, isSome_getElem?, hcount]
  have hle : ∀ bucket < maxBucket, s'.blocksOf bucket ≤
      h.storage.headersCache.length * CSegmentHeader.getNumberOfFullBucketSets := by
    intro bucket hbucket
    rw [hcount, usedIn_recordsInOrder hbucket]
    exact (List.length_filterMap_le ..).trans List.length_range.le
  have hmapped' : ∀ location tree, h.treeAfter start location = some tree → ∃ tree',
      s'.transactionLocationToBuddy location = some tree' ∧
        ∀ i < CSimpleBuddy.treeSize, tree' i = tree i := by
    intro location tree htree
    obtain hmemory | ⟨hnone, hsaved⟩ := Option.or_eq_some_iff.mp htree
    · exact ⟨tree, hretrived.kept location tree hmemory, fun _ _ => rfl⟩
    · obtain ⟨block, hblock, rfl⟩ := Option.map_eq_some_iff.mp hsaved
      obtain ⟨read, hread, hsame⟩ := hmapped hresumable.gapless location block hblock hnone
      exact ⟨read.tree, hread, fun i hi => hsame.tree hi⟩
  refine ⟨s', hs', ⟨fun bucket hbucket => ?_, fun bucket hbucket i hi => ?_,
    fun bucket hbucket i hi hlt => ?_, ?_, ?_⟩, hle⟩
  · by_cases hempty : h.storage.headersCache = []
    · rw [hretrived.untouched bucket (by rw [hempty]; rfl), usedBuddy_recounted,
        if_neg fun hand => hand.1 hempty]
      exact nofun
    · have hpos := (hposition bucket hbucket 0).mpr (hresumable.filled hempty bucket hbucket)
      intro hzero
      rw [blocksOf, hzero] at hpos
      exact absurd hpos (Nat.lt_irrefl 0)
  · obtain ⟨n, hn⟩ := Option.isSome_iff_exists.mp ((hposition bucket hbucket i).mp hi)
    have hlt : i < 2 ^ 32 := (hi.trans_le (hle bucket hbucket)).trans_le hroom
    cases hmemory : start.transactionLocationToBuddy (.ofBucket bucket i) with
    | some tree => exact Option.isSome_of_mem (hretrived.kept _ tree hmemory)
    | none =>
      have hfound := hretrived.found bucket i n hbucket
        ((hresumable.gapless.getElem?_usedIn hbucket i).trans hn)
      rw [getD_usedBuddy_recounted, Nat.zero_add] at hfound
      obtain ⟨block, -, hblock⟩ := hfound hlt hmemory
      exact Option.isSome_of_mem hblock
  · by_contra hsome
    obtain hmemory | ⟨bucket', position, hbucket', hlt', hlocation⟩ :=
      hretrived.origin _ (Option.isSome_iff_ne_none.mpr hsome)
    · obtain ⟨tree, htree⟩ := Option.isSome_iff_exists.mp hmemory
      have hnumber := (hresumable.memory _ tree htree).1
      rw [numberOf_ofBucket hbucket hlt] at hnumber
      have hcounted := (hposition bucket hbucket i).mpr hnumber
      omega
    · obtain rfl := bucket_of_ofBucket_eq hbucket hbucket' hlocation
      have hposition' : position < 2 ^ 32 := (hlt'.trans_le (hle bucket hbucket)).trans_le hroom
      obtain rfl := position_of_ofBucket_eq hbucket hlt hposition' hlocation
      exact absurd hlt' (Nat.not_lt.mpr hi)
  · exact hretrived.shapes fun location tree htree => (hresumable.memory location tree htree).2
  · rintro full ⟨tx, hlive, rfl⟩
    obtain ⟨tree, htree, hmarks⟩ := hresumable.marked tx hlive
    obtain ⟨tree', htree', hagree⟩ := hmapped' _ tree htree
    exact ⟨tree', htree', hmarks.of_agree hagree⟩

/-- After any run, a node that restarts with the files places transactions apart from each
other and from the live ones if the files have not outgrown their places, there is room for
the calls in the 32 bits of a position, and the files and the memory are resumable. -/
theorem restart_places_apart {calls : List StorageCall}
    (hrun : GuardedRun.run (step ctx) (some init) calls = some h) (hfits : h.storage.Fits)
    (hfiles : FilesOf h start) (hresumable : Resumable ctx h start) {txs : List CTransaction}
    (hroom : h.storage.headersCache.length * CSegmentHeader.getNumberOfFullBucketSets + txs.length ≤
      2 ^ 32) : RestartSound ctx h start txs := by
  have hrest := (inFiles_init.run hrun hfits).atRest
  obtain ⟨s', hs', hoccupied, hle⟩ := hresumable.occupied hrest hfits
    (hfiles.inFiles hrest hfits) (by omega)
  obtain ⟨positions, s'', hassigned, hpairwise, hapart⟩ :=
    hoccupied.assignPositions ctx txs fun bucket hbucket => by
      have hcount := hle bucket hbucket
      omega
  exact ⟨s', positions, s'', hs', hassigned, hpairwise.imp Apart.ne, hpairwise,
    fun full hin tx hlive => hapart full hin _ ⟨tx, hlive, rfl⟩⟩

end Restart

end StorageHistory

namespace EmptyBucket
open StorageHistory CSegmentFileStorage

/-- The bucket is that of the first byte of the version. -/
def context : StorageContext :=
  ⟨⟨fun bytes => BitVec.ofNat 256 (bytes.headD 0).toNat, fun _ => 0⟩, fun _ => 0⟩

def payment (version : Int32) (location : UInt64) : CTransaction :=
  ⟨version, [], [⟨5, []⟩], 0, location⟩

/-- A payment in every bucket, with the position that it gets. -/
def payments : List CTransaction :=
  [payment 0 3072, payment 1 3073, payment 2 3074, payment 3 3075, payment 4 3076, payment 5 3077,
    payment 6 3078, payment 7 3079, payment 8 3080, payment 9 3081, payment 10 3082,
    payment 11 3083, payment 12 3084, payment 13 3085, payment 14 3086, payment 15 3087]

def place (txs : List CTransaction) : List StorageCall :=
  (txs.flatMap fun tx => [.assignPosition tx, .includeTransaction tx 0]) ++ [.flush]

/-- After a flush with one bucket only, two transactions of another one get one position. -/
theorem position_given_twice :
    ¬ ∀ calls h, GuardedRun.run (step context) (some StorageHistory.init) calls = some h →
      ∀ start, FilesOf h start → ∀ txs, RestartSound context h start txs := by
  intro hall
  obtain ⟨h, hrun, hpositions⟩ : ∃ h,
      GuardedRun.run (step context) (some StorageHistory.init) (place [payment 0 3072]) = some h ∧
      (h.storage.newProcess.resetState.retriveState context).bind (fun s =>
        (assignPositions context [payment 1 0, payment 1 0] s).map Prod.fst) = some [3073, 3073] :=
    ⟨_, rfl, rfl⟩
  obtain ⟨s', positions, s'', hs', hassigned, hnodup, -⟩ :=
    hall _ h hrun h.storage.newProcess (.flushed rfl rfl) [payment 1 0, payment 1 0]
  rw [hs', Option.bind_some, hassigned, Option.map_some] at hpositions
  cases hpositions
  revert hnodup
  decide

/-- With every bucket in use the next transactions are placed apart. -/
theorem placed_apart_after_restart : ∃ h,
    GuardedRun.run (step context) (some StorageHistory.init) (place payments) = some h ∧
      h.stored = payments ∧
      RestartSound context h h.storage.newProcess [payment 1 0, payment 1 0] := by
  obtain ⟨h, hrun, hstored, hnumbers, hlength, hfilled, hempty, hused, hplace⟩ : ∃ h,
      GuardedRun.run (step context) (some StorageHistory.init) (place payments) = some h ∧
      h.stored = payments ∧ h.storage.lastSegmentIndex = 16 ∧ h.storage.headersCache.length = 1 ∧
      (∀ bucket < maxBucket, (numberIn h.storage.headersCache bucket 0).isSome) ∧
      (∀ bucket < maxBucket, ∀ j < 7, 0 < j → numberIn h.storage.headersCache bucket j = none) ∧
      (∀ tx ∈ h.stored, ((h.saved (.ofFullPosition tx.location)).map fun block =>
        block.tree (node CSimpleBuddy.baseLevel 0)) = some CSimpleBuddy.nodeUsed) ∧
      ∀ tx ∈ h.stored, getLevel tx.location = CSimpleBuddy.baseLevel ∧ getIndex tx.location = 0 :=
    ⟨_, rfl, rfl, rfl, rfl, by decide, by decide, by decide, by decide⟩
  have hfits : h.storage.Fits := ⟨by rw [hnumbers]; decide, by rw [hlength]; decide⟩
  have hgapless : Gapless h.storage.headersCache := by
    intro bucket hbucket i j hlt hsome
    obtain ⟨n, hn⟩ := Option.isSome_iff_exists.mp hsome
    have hj := numberIn_lt hn
    rw [hlength] at hj
    rw [hempty bucket hbucket j hj (by omega)] at hn
    cases hn
  have hresumable : Resumable context h h.storage.newProcess := by
    refine ⟨hgapless, fun _ => hfilled, nofun, fun tx hlive => ?_⟩
    obtain ⟨block, hsaved, hnode⟩ := Option.map_eq_some_iff.mp (hused tx hlive.1)
    obtain ⟨hlevel, hindex⟩ := hplace tx hlive.1
    refine ⟨block.tree, ?_, hlevel.le, 0, Nat.two_pow_pos _, ?_, ?_⟩
    · change Option.or none (Option.map CDiskBlock.tree _) = _
      rw [hsaved]
      rfl
    · rw [hindex, start, Nat.zero_mul]
    · rw [hlevel]
      exact hnode
  have hfiles : FilesOf h h.storage.newProcess := .flushed rfl rfl
  have hroom : h.storage.headersCache.length * CSegmentHeader.getNumberOfFullBucketSets +
      [payment 1 0, payment 1 0].length ≤ 2 ^ 32 := by
    rw [hlength]
    decide
  exact ⟨h, hrun, hstored, restart_places_apart hrun hfits hfiles hresumable hroom⟩

end EmptyBucket

end Dims
