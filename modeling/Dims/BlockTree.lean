import Dims.ChainTips

/-!
# The tree of the headers

What the index holds after some headers have been taken up: the root, and of every header
the entry, linked to the entry of its predecessor or alone. The headers that are alone
are those whose predecessor is not there.
-/

namespace Dims

/-- The entry is that of the header, and nothing has been filled in from a predecessor. -/
def CBlockIndexEntry.Records (pindex : CBlockIndexEntry) (block : CBlockHeader) : Prop :=
  pindex = { ofHeader block with nSequenceId := pindex.nSequenceId }

namespace BlockMap

variable (H : HashFunctions) (m : BlockMap) (waiting : OrderedMap Uint256 Uint256)

def Connected (hash : Uint256) : Prop :=
  (∃ pindex, m.lookup hash = some pindex) ∧ waiting.lookup hash = none

def Linked (block : CBlockHeader) : Prop :=
  ∃ alone previous : CBlockIndexEntry, alone.Records block ∧ m.lookup block.hashPrevBlock = some previous ∧
    m.lookup (block.getHash H) = some (alone.linkTo block.hashPrevBlock previous)

def Alone (block : CBlockHeader) : Prop :=
  ∃ alone : CBlockIndexEntry, alone.Records block ∧ m.lookup block.hashPrevBlock = none ∧
    m.lookup (block.getHash H) = some alone

/-- The entries are the root and those of the headers that have been taken up. -/
structure Filed (root : Uint256) (base : Uint256) (accepted : List CBlockHeader) : Prop where
  root_entry : ∃ pindex, m.lookup root = some pindex ∧
    pindex.pprev = none ∧ pindex.nHeight = 0 ∧ pindex.nChainWork = base
  root_connected : waiting.lookup root = none
  ne_root : ∀ block ∈ accepted, block.getHash H ≠ root
  linked : ∀ block ∈ accepted, waiting.lookup (block.getHash H) = none →
    waiting.lookup block.hashPrevBlock = none ∧ m.Linked H block
  alone : ∀ block ∈ accepted, ∀ hashPrev, waiting.lookup (block.getHash H) = some hashPrev →
    hashPrev = block.hashPrevBlock ∧ m.Alone H block
  known : ∀ hash pindex, m.lookup hash = some pindex →
    hash = root ∨ ∃ block ∈ accepted, block.getHash H = hash
  waits : ∀ hash hashPrev, waiting.lookup hash = some hashPrev →
    ∃ block ∈ accepted, block.getHash H = hash

variable {H m waiting} {root base : Uint256} {accepted : List CBlockHeader}

namespace Filed

theorem connected_root (h : m.Filed H waiting root base accepted) : m.Connected waiting root := by
  obtain ⟨pindex, hlookup, -⟩ := h.root_entry
  exact ⟨⟨pindex, hlookup⟩, h.root_connected⟩

theorem root_or_linked (h : m.Filed H waiting root base accepted) {hash : Uint256}
    (hconnected : m.Connected waiting hash) :
    hash = root ∨ ∃ block ∈ accepted, block.getHash H = hash ∧
      waiting.lookup block.hashPrevBlock = none ∧ m.Linked H block := by
  obtain ⟨⟨pindex, hlookup⟩, hwaiting⟩ := hconnected
  rcases h.known hash pindex hlookup with hroot | ⟨block, hblock, rfl⟩
  · exact .inl hroot
  · obtain ⟨hprev, hlinked⟩ := h.linked block hblock hwaiting
    exact .inr ⟨block, hblock, rfl, hprev, hlinked⟩

theorem tree (h : m.Filed H waiting root base accepted) :
    m.Tree (m.Connected waiting) root := by
  obtain ⟨pindex, hroot, hpprev, hheight, -⟩ := h.root_entry
  have hlinkedParent : ∀ block : CBlockHeader, m.Linked H block →
      m.parent (block.getHash H) = some block.hashPrevBlock ∧
        m.depth (block.getHash H) = m.depth block.hashPrevBlock + 1 := by
    rintro block ⟨alone, previous, -, hprevious, hentry⟩
    simp [BlockMap.parent, BlockMap.depth, hentry, hprevious, CBlockIndexEntry.linkTo]
  have hsingle : ∀ k, m.Connected waiting k → m.parent k = none → k = root := by
    intro k hk hparent
    rcases h.root_or_linked hk with hkroot | ⟨block, -, rfl, -, hlinked⟩
    · exact hkroot
    · rw [(hlinkedParent block hlinked).1] at hparent
      contradiction
  refine ⟨fun k hk => hk.1, ⟨?_, ?_⟩, hsingle⟩
  · intro k hk hparent
    obtain rfl := hsingle k hk hparent
    simp [BlockMap.depth, hroot, hheight]
  · intro k p hk hparent
    rcases h.root_or_linked hk with rfl | ⟨block, -, rfl, hprev, hlinked⟩
    · rw [BlockMap.parent, hroot, Option.bind_some, hpprev] at hparent
      contradiction
    · rw [(hlinkedParent block hlinked).1] at hparent
      obtain rfl := Option.some.inj hparent
      refine ⟨⟨?_, hprev⟩, (hlinkedParent block hlinked).2⟩
      obtain ⟨-, previous, -, hprevious, -⟩ := hlinked
      exact ⟨previous, hprevious⟩

theorem exists_entry (h : m.Filed H waiting root base accepted) {block : CBlockHeader}
    (hblock : block ∈ accepted) : ∃ pindex, m.lookup (block.getHash H) = some pindex := by
  cases hwait : waiting.lookup (block.getHash H) with
  | none =>
    obtain ⟨-, alone, previous, -, -, hentry⟩ := h.linked block hblock hwait
    exact ⟨_, hentry⟩
  | some hashPrev =>
    obtain ⟨-, alone, -, -, hentry⟩ := h.alone block hblock hashPrev hwait
    exact ⟨_, hentry⟩

theorem exists_entry_of_waiting (h : m.Filed H waiting root base accepted)
    {hash hashPrev : Uint256} (hwait : waiting.lookup hash = some hashPrev) :
    ∃ pindex, m.lookup hash = some pindex := by
  obtain ⟨block, hblock, rfl⟩ := h.waits hash hashPrev hwait
  exact h.exists_entry hblock

theorem waiting_eq_none (h : m.Filed H waiting root base accepted) {hash : Uint256}
    (hnew : m.lookup hash = none) : waiting.lookup hash = none := by
  cases hwait : waiting.lookup hash with
  | none => rfl
  | some hashPrev =>
    obtain ⟨pindex, hentry⟩ := h.exists_entry_of_waiting hwait
    rw [hnew] at hentry
    contradiction

theorem wait (h : m.Filed H waiting root base accepted) {block : CBlockHeader}
    {pindex : CBlockIndexEntry} (hrecords : pindex.Records block)
    (hnew : m.lookup (block.getHash H) = none)
    (hprev : (m.assign (block.getHash H) pindex).lookup block.hashPrevBlock = none)
    (hfree : ∀ hash hashPrev, waiting.lookup hash = some hashPrev → hashPrev ≠ block.getHash H) :
    BlockMap.Filed H (m.assign (block.getHash H) pindex)
      (waiting.insertNew (block.getHash H) block.hashPrevBlock) root base
      (accepted ++ [block]) := by
  -- what is there already has another hash
  have hother : ∀ hash value, m.lookup hash = some value → hash ≠ block.getHash H := by
    rintro hash value hvalue rfl
    rw [hnew] at hvalue
    contradiction
  have hacceptedNe : ∀ b ∈ accepted, b.getHash H ≠ block.getHash H := by
    intro b hb
    obtain ⟨entry, hentry⟩ := h.exists_entry hb
    exact hother _ entry hentry
  obtain ⟨rootEntry, hroot, hrest⟩ := h.root_entry
  have hrootNe := hother root rootEntry hroot
  refine ⟨⟨rootEntry, ?_, hrest⟩, ?_, ?_, ?_, ?_, ?_, ?_⟩
  · rw [OrderedMap.lookup_assign_of_ne hrootNe, hroot]
  · rw [OrderedMap.lookup_insertNew_of_ne hrootNe, h.root_connected]
  · intro b hb
    rcases List.mem_append.mp hb with hold | hlast
    · exact h.ne_root b hold
    · rw [List.mem_singleton.mp hlast]
      exact hrootNe.symm
  · intro b hb hwait
    rcases List.mem_append.mp hb with hold | hlast
    · have hne := hacceptedNe b hold
      rw [OrderedMap.lookup_insertNew_of_ne hne] at hwait
      obtain ⟨hprevConnected, alone, previous, hrec, hprevious, hentry⟩ := h.linked b hold hwait
      have hprevNe := hother _ _ hprevious
      refine ⟨?_, alone, previous, hrec, ?_, ?_⟩
      · rw [OrderedMap.lookup_insertNew_of_ne hprevNe, hprevConnected]
      · rw [OrderedMap.lookup_assign_of_ne hprevNe, hprevious]
      · rw [OrderedMap.lookup_assign_of_ne hne, hentry]
    · rw [List.mem_singleton.mp hlast, OrderedMap.lookup_insertNew_self] at hwait
      contradiction
  · intro b hb hashPrev hwait
    rcases List.mem_append.mp hb with hold | hlast
    · have hne := hacceptedNe b hold
      rw [OrderedMap.lookup_insertNew_of_ne hne] at hwait
      obtain ⟨rfl, alone, hrec, hnone, hentry⟩ := h.alone b hold hashPrev hwait
      refine ⟨rfl, alone, hrec, ?_, ?_⟩
      · rw [OrderedMap.lookup_assign_of_ne (hfree _ _ hwait), hnone]
      · rw [OrderedMap.lookup_assign_of_ne hne, hentry]
    · obtain rfl := List.mem_singleton.mp hlast
      rw [OrderedMap.lookup_insertNew_self, h.waiting_eq_none hnew] at hwait
      refine ⟨(Option.some.inj hwait).symm, pindex, hrecords, hprev, ?_⟩
      rw [OrderedMap.lookup_assign_self]
  · intro hash entry hentry
    rcases OrderedMap.eq_or_lookup_of_assign hentry with ⟨rfl, -⟩ | hold
    · exact .inr ⟨block, by simp, rfl⟩
    · rcases h.known hash entry hold with hkroot | ⟨b, hb, hhash⟩
      · exact .inl hkroot
      · exact .inr ⟨b, by simp [hb], hhash⟩
  · intro hash hashPrev hwait
    rcases OrderedMap.eq_or_lookup_of_insertNew hwait with ⟨rfl, -⟩ | hold
    · exact ⟨block, by simp, rfl⟩
    · obtain ⟨b, hb, hhash⟩ := h.waits hash hashPrev hold
      exact ⟨b, by simp [hb], hhash⟩

end Filed

/-- What becomes of the index when a new entry comes in linked: the headers that waited for
it are linked to it. -/
structure Joined (m : BlockMap) (waiting : OrderedMap Uint256 Uint256) (hash : Uint256)
    (new : CBlockIndexEntry) (m' : BlockMap) (waiting' : OrderedMap Uint256 Uint256) : Prop where
  still : ∀ k, waiting'.lookup k =
    if waiting.lookup k = some hash then none else waiting.lookup k
  entry : m'.lookup hash = some new
  kept : ∀ k, k ≠ hash → waiting.lookup k ≠ some hash → m'.lookup k = m.lookup k
  joined : ∀ k alone, waiting.lookup k = some hash → m.lookup k = some alone →
    m'.lookup k = some (alone.linkTo hash new)

namespace Joined

variable {m' : BlockMap} {waiting' : OrderedMap Uint256 Uint256} {hash : Uint256}
  {new pindex : CBlockIndexEntry}

theorem connected (hjoin : Joined m waiting hash new m' waiting') {k : Uint256} (hne : k ≠ hash)
    (hk : waiting.lookup k = none) :
    m'.lookup k = m.lookup k ∧ waiting'.lookup k = none := by
  refine ⟨hjoin.kept k hne ?_, ?_⟩
  · rw [hk]
    simp
  · rw [hjoin.still, hk]
    simp

theorem filed {block : CBlockHeader} {previous : CBlockIndexEntry}
    (h : m.Filed H waiting root base accepted)
    (hjoin : Joined m waiting (block.getHash H) (pindex.linkTo block.hashPrevBlock previous)
      m' waiting')
    (hrecords : pindex.Records block) (hnew : m.lookup (block.getHash H) = none)
    (hprevious : m.lookup block.hashPrevBlock = some previous)
    (hprev : waiting.lookup block.hashPrevBlock = none) :
    m'.Filed H waiting' root base (accepted ++ [block]) := by
  have hnotWaiting := h.waiting_eq_none hnew
  have hother : ∀ k value, m.lookup k = some value → k ≠ block.getHash H := by
    rintro k value hvalue rfl
    rw [hnew] at hvalue
    contradiction
  obtain ⟨rootEntry, hroot, hrest⟩ := h.root_entry
  obtain ⟨hrootKept, hrootConnected⟩ :=
    hjoin.connected (hother root rootEntry hroot) h.root_connected
  refine ⟨⟨rootEntry, hrootKept.trans hroot, hrest⟩, hrootConnected, ?_, ?_, ?_, ?_, ?_⟩
  · intro b hb
    rcases List.mem_append.mp hb with hold | hlast
    · exact h.ne_root b hold
    · rw [List.mem_singleton.mp hlast]
      exact (hother root rootEntry hroot).symm
  · intro b hb hwait
    rcases List.mem_append.mp hb with hold | hlast
    · by_cases hthis : waiting.lookup (b.getHash H) = some (block.getHash H)
      · -- it has waited for this entry
        obtain ⟨hhash, alone, hrec, -, hentry⟩ := h.alone b hold _ hthis
        rw [← hhash]
        refine ⟨?_, alone, pindex.linkTo block.hashPrevBlock previous, hrec, ?_, ?_⟩
        · rw [hjoin.still, hnotWaiting]
          simp
        · rw [← hhash]
          exact hjoin.entry
        · rw [← hhash]
          exact hjoin.joined _ alone hthis hentry
      · rw [hjoin.still, if_neg hthis] at hwait
        obtain ⟨hprevConnected, alone, before, hrec, hbefore, hentry⟩ := h.linked b hold hwait
        obtain ⟨hbeforeKept, hbeforeConnected⟩ :=
          hjoin.connected (hother _ before hbefore) hprevConnected
        exact ⟨hbeforeConnected, alone, before, hrec, hbeforeKept.trans hbefore,
          (hjoin.connected (hother _ _ hentry) hwait).1.trans hentry⟩
    · obtain rfl := List.mem_singleton.mp hlast
      obtain ⟨hkept, hconnected⟩ := hjoin.connected (hother _ previous hprevious) hprev
      exact ⟨hconnected, pindex, previous, hrecords, hkept.trans hprevious, hjoin.entry⟩
  · intro b hb hashPrev hwait
    rw [hjoin.still] at hwait
    split at hwait
    next => contradiction
    next hthis =>
      rcases List.mem_append.mp hb with hold | hlast
      · obtain ⟨rfl, alone, hrec, hnone, hentry⟩ := h.alone b hold hashPrev hwait
        refine ⟨rfl, alone, hrec, ?_, ?_⟩
        · rw [hjoin.kept _ (fun heq => hthis (by rw [hwait, heq])) ?_, hnone]
          rw [h.waiting_eq_none hnone]
          simp
        · rw [hjoin.kept _ (hother _ alone hentry) hthis, hentry]
      · rw [List.mem_singleton.mp hlast, hnotWaiting] at hwait
        contradiction
  · intro k entry hentry
    by_cases hk : k = block.getHash H
    · exact .inr ⟨block, by simp, hk.symm⟩
    · by_cases hthis : waiting.lookup k = some (block.getHash H)
      · obtain ⟨b, hb, hhash⟩ := h.waits k _ hthis
        exact .inr ⟨b, by simp [hb], hhash⟩
      · rw [hjoin.kept k hk hthis] at hentry
        rcases h.known k entry hentry with hkroot | ⟨b, hb, hhash⟩
        · exact .inl hkroot
        · exact .inr ⟨b, by simp [hb], hhash⟩
  · intro k hashPrev hwait
    rw [hjoin.still] at hwait
    split at hwait
    next => contradiction
    next =>
      obtain ⟨b, hb, hhash⟩ := h.waits k hashPrev hwait
      exact ⟨b, by simp [hb], hhash⟩

end Joined

end BlockMap

namespace ChainState

/-- The loop links every waiting header whose predecessor has an entry, if no predecessor is
one of those that wait. -/
theorem connectWaiting_spec {l : List (Uint256 × Uint256)}
    (hkeys : l.Pairwise fun p q => p.1 ≠ q.1) (hfree : ∀ p ∈ l, ∀ q ∈ l, q.2 ≠ p.1) :
    ∀ (m : BlockMap) (valid : List Uint256), (∀ p ∈ l, ∃ pindex, m.lookup p.1 = some pindex) →
      ∃ m' valid' toErase, connectWaiting l m valid = some (m', valid', toErase) ∧
        (∀ k, k ∈ toErase ↔ ∃ p, (k, p) ∈ l ∧ (m.lookup p).isSome) ∧
        (∀ k, k ∈ valid' ↔ k ∈ valid ∨ k ∈ toErase) ∧
        (∀ k, k ∉ toErase → m'.lookup k = m.lookup k) ∧
        ∀ k p previous alone, (k, p) ∈ l → m.lookup p = some previous → m.lookup k = some alone →
          m'.lookup k = some (alone.linkTo p previous) := by
  induction l with
  | nil =>
    intro m valid _
    exact ⟨m, valid, [], rfl, by simp, by simp, by simp, by simp⟩
  | cons head rest ih =>
    obtain ⟨hash, hashPrev⟩ := head
    obtain ⟨hhead, htail⟩ := List.pairwise_cons.mp hkeys
    have hrestFree : ∀ p ∈ rest, ∀ q ∈ rest, q.2 ≠ p.1 := fun p hp q hq =>
      hfree p (List.mem_cons_of_mem _ hp) q (List.mem_cons_of_mem _ hq)
    intro m valid hentries
    cases hlookup : m.lookup hashPrev with
    | none =>
      obtain ⟨m', valid', toErase, hrun, herase, hvalid, hkept, hjoined⟩ :=
        ih htail hrestFree m valid fun p hp => hentries p (List.mem_cons_of_mem _ hp)
      refine ⟨m', valid', toErase, ?_, ?_, hvalid, hkept, ?_⟩
      · simp only [connectWaiting, hlookup, hrun]
      · intro k
        rw [herase]
        constructor
        · rintro ⟨p, hp, hsome⟩
          exact ⟨p, List.mem_cons_of_mem _ hp, hsome⟩
        · rintro ⟨p, hp, hsome⟩
          rcases List.mem_cons.mp hp with heq | hmem
          · rw [(Prod.mk.inj heq).2, hlookup] at hsome
            contradiction
          · exact ⟨p, hmem, hsome⟩
      · intro k p previous alone hp hprevious halone
        rcases List.mem_cons.mp hp with heq | hmem
        · rw [(Prod.mk.inj heq).2, hlookup] at hprevious
          contradiction
        · exact hjoined k p previous alone hmem hprevious halone
    | some previous =>
      obtain ⟨alone, halone⟩ := hentries (hash, hashPrev) List.mem_cons_self
      -- the entries that the rest reads are not the one that has been written
      have hsame : ∀ p ∈ rest,
          (m.assign hash (alone.linkTo hashPrev previous)).lookup p.1 = m.lookup p.1 ∧
          (m.assign hash (alone.linkTo hashPrev previous)).lookup p.2 = m.lookup p.2 := by
        intro p hp
        exact ⟨OrderedMap.lookup_assign_of_ne (hhead p hp).symm _,
          OrderedMap.lookup_assign_of_ne
            (hfree _ List.mem_cons_self p (List.mem_cons_of_mem _ hp)) _⟩
      obtain ⟨m', valid', toErase, hrun, herase, hvalid, hkept, hjoined⟩ :=
        ih htail hrestFree (m.assign hash (alone.linkTo hashPrev previous)) (valid.insert hash)
          (by
            intro p hp
            rw [(hsame p hp).1]
            exact hentries p (List.mem_cons_of_mem _ hp))
      have hnotErased : hash ∉ toErase := by
        rw [herase]
        rintro ⟨p, hp, -⟩
        exact hhead _ hp rfl
      refine ⟨m', valid', hash :: toErase, ?_, ?_, ?_, ?_, ?_⟩
      · simp only [connectWaiting, hlookup, halone, Option.bind_eq_bind, Option.bind_some, hrun]
      · intro k
        rw [List.mem_cons, herase]
        constructor
        · rintro (rfl | ⟨p, hp, hsome⟩)
          · exact ⟨hashPrev, List.mem_cons_self, by rw [hlookup]; rfl⟩
          · rw [(hsame _ hp).2] at hsome
            exact ⟨p, List.mem_cons_of_mem _ hp, hsome⟩
        · rintro ⟨p, hp, hsome⟩
          rcases List.mem_cons.mp hp with heq | hmem
          · exact .inl (Prod.mk.inj heq).1
          · rw [← (hsame _ hmem).2] at hsome
            exact .inr ⟨p, hmem, hsome⟩
      · intro k
        rw [hvalid, List.mem_insert_iff, List.mem_cons]
        tauto
      · intro k hk
        rw [List.mem_cons, not_or] at hk
        rw [hkept k hk.2, OrderedMap.lookup_assign_of_ne hk.1]
      · intro k p before own hp hbefore hown
        rcases List.mem_cons.mp hp with heq | hmem
        · obtain ⟨rfl, rfl⟩ := Prod.mk.inj heq
          rw [hlookup] at hbefore
          rw [halone] at hown
          obtain rfl := Option.some.inj hbefore
          obtain rfl := Option.some.inj hown
          rw [hkept k hnotErased, OrderedMap.lookup_assign_self]
        · exact hjoined k p before own hmem ((hsame _ hmem).2.trans hbefore)
            ((hsame _ hmem).1.trans hown)

theorem connectWaiting_joined {H : HashFunctions} {m : BlockMap}
    {waiting : OrderedMap Uint256 Uint256} {root base : Uint256} {accepted : List CBlockHeader}
    (h : m.Filed H waiting root base accepted) {hash : Uint256} (hnew : m.lookup hash = none)
    (new : CBlockIndexEntry) (valid : List Uint256) :
    ∃ m' valid' toErase,
      connectWaiting waiting.entries (m.assign hash new) valid = some (m', valid', toErase) ∧
      BlockMap.Joined m waiting hash new m' (toErase.foldl OrderedMap.erase waiting) ∧
      ∀ k, k ∈ valid' ↔ k ∈ valid ∨ waiting.lookup k = some hash := by
  have hwaits : ∀ k p, waiting.lookup k = some p →
      (∃ pindex, m.lookup k = some pindex) ∧ m.lookup p = none := by
    intro k p hwait
    obtain ⟨block, hblock, rfl⟩ := h.waits k p hwait
    obtain ⟨rfl, alone, -, hnone, hentry⟩ := h.alone block hblock p hwait
    exact ⟨⟨alone, hentry⟩, hnone⟩
  have hne : ∀ k p, waiting.lookup k = some p → k ≠ hash := by
    rintro k p hwait rfl
    rw [h.waiting_eq_none hnew] at hwait
    contradiction
  have hkeys : waiting.entries.Pairwise fun p q => p.1 ≠ q.1 :=
    waiting.sorted.imp fun hlt => ne_of_lt hlt
  have hfree : ∀ p ∈ waiting.entries, ∀ q ∈ waiting.entries, q.2 ≠ p.1 := by
    intro p hp q hq heq
    obtain ⟨pindex, hentry⟩ := (hwaits p.1 p.2 (OrderedMap.mem_entries.mp hp)).1
    rw [← heq, (hwaits q.1 q.2 (OrderedMap.mem_entries.mp hq)).2] at hentry
    contradiction
  obtain ⟨m', valid', toErase, hrun, herase, hvalid, hkept, hjoined⟩ :=
    connectWaiting_spec hkeys hfree (m.assign hash new) valid (by
      intro p hp
      obtain ⟨pindex, hentry⟩ := (hwaits p.1 p.2 (OrderedMap.mem_entries.mp hp)).1
      refine ⟨pindex, ?_⟩
      rw [OrderedMap.lookup_assign_of_ne (hne p.1 p.2 (OrderedMap.mem_entries.mp hp)), hentry])
  have hthis : ∀ k, k ∈ toErase ↔ waiting.lookup k = some hash := by
    intro k
    rw [herase]
    constructor
    · rintro ⟨p, hp, hsome⟩
      rw [OrderedMap.mem_entries] at hp
      rcases OrderedMap.isSome_lookup_assign.mp hsome with rfl | hold
      · exact hp
      · rw [(hwaits k p hp).2] at hold
        contradiction
    · intro hwait
      exact ⟨hash, OrderedMap.mem_entries.mpr hwait, by simp⟩
  refine ⟨m', valid', toErase, hrun, ⟨?_, ?_, ?_, ?_⟩, ?_⟩
  · intro k
    rw [OrderedMap.lookup_foldl_erase]
    simp only [hthis]
  · rw [hkept hash, OrderedMap.lookup_assign_self]
    rw [hthis, h.waiting_eq_none hnew]
    simp
  · intro k hk hnot
    rw [hkept k (by rwa [hthis]), OrderedMap.lookup_assign_of_ne hk]
  · intro k alone hwait halone
    refine hjoined k hash new alone (OrderedMap.mem_entries.mpr hwait) (by simp) ?_
    rw [OrderedMap.lookup_assign_of_ne (hne k hash hwait), halone]
  · intro k
    rw [hvalid, hthis]

end ChainState

end Dims
