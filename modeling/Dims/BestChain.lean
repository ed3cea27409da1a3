import Dims.BlockTree
import Mathlib.Data.BitVec

/-!
# The branch of most work

From a root on, the index takes up headers in the order in which they come. As long as no
header names one that waits, the active chain is at any time a branch of the headers that
have been taken up, and no branch of these has more work.
-/

namespace Dims

namespace CBlockHeader

variable (H : HashFunctions)

/-- Each header names the hash of the one before, the first of them the given one. -/
def Leads : Uint256 → List CBlockHeader → Prop
  | _, [] => True
  | hash, block :: rest => block.hashPrevBlock = hash ∧ Leads (block.getHash H) rest

/-- A branch of some headers, from the root on. -/
def IsBranch (headers : List CBlockHeader) (root : Uint256) (branch : List CBlockHeader) : Prop :=
  Leads H root branch ∧ ∀ block ∈ branch, block ∈ headers

def work (branch : List CBlockHeader) : Uint256 :=
  (branch.map fun block => CBlockIndexEntry.getBlockWork block.nBits).sum

def hashes (root : Uint256) (branch : List CBlockHeader) : List Uint256 :=
  root :: branch.map fun block => block.getHash H

end CBlockHeader

namespace ChainState

variable (H : HashFunctions) (address : Uint256 → ℕ)

/-- The header names another one that does not wait, and if it has to wait itself, none of
those that wait names it. -/
def clear (block : CBlockHeader) (s : ChainState) : Bool :=
  block.hashPrevBlock != block.getHash H &&
    s.m_hashToPreviousHash.entries.all fun p =>
      block.hashPrevBlock != p.1 &&
        (p.2 != block.getHash H || (s.mapBlockIndex.lookup block.hashPrevBlock).isSome)

/-- Every header is clear when it comes. -/
def orderly : List CBlockHeader → ChainState → Bool
  | [], _ => true
  | block :: rest, s =>
    clear H block s &&
      match addToBlockIndex H address block s with
      | none => true
      | some (_, s) => orderly rest s

/-- `InitBlockIndex`, on an index without entries. -/
def initBlockIndex (block : CBlockHeader) : Option ChainState :=
  (addToBlockIndex H address block empty).map Prod.snd

/-- The states in which there is nothing but a root, with the work that is counted for it. -/
inductive Started : Uint256 → Uint256 → ChainState → Prop
  | init {block : CBlockHeader} {s : ChainState} (hne : block.hashPrevBlock ≠ block.getHash H)
      (h : initBlockIndex H address block = some s) :
      Started (block.getHash H) (CBlockIndexEntry.getBlockWork block.nBits) s
  | reset (header : CBlockHeader) {s : ChainState} (h : s.m_hashToPreviousHash.entries = []) :
      Started (header.getHash H) 0 (resetChains H header s)

/-- The state after headers that were clear when they came, and what it has taken up. -/
def Reached (root base : Uint256) (accepted : List CBlockHeader) (s : ChainState) : Prop :=
  ∃ start headers, Started H address root base start ∧ orderly H address headers start = true ∧
    addHeaders H address headers start = some (accepted, s)

def tipWork (s : ChainState) : Option Uint256 := do
  let tip ← s.chainActive.tip
  let pindex ← s.mapBlockIndex.lookup tip
  some pindex.nChainWork

/-- The state of the index after the headers that have been taken up. -/
structure Follows (root base : Uint256) (accepted : List CBlockHeader) (s : ChainState) :
    Prop where
  filed : s.mapBlockIndex.Filed H s.m_hashToPreviousHash root base accepted
  chain : ∃ path tip, s.chainActive = path.map some ∧ s.chainMostWork = path.map some ∧
    s.mapBlockIndex.Branch (s.mapBlockIndex.Connected s.m_hashToPreviousHash) path tip ∧
    ∀ k, s.mapBlockIndex.Connected s.m_hashToPreviousHash k →
      s.mapBlockIndex.rank address k ≤ s.mapBlockIndex.rank address tip
  valid : ∀ k ∈ s.setBlockIndexValid, s.mapBlockIndex.Connected s.m_hashToPreviousHash k
  complete : ∀ k, s.mapBlockIndex.Connected s.m_hashToPreviousHash k →
    k = root ∨ k ∈ s.setBlockIndexValid

variable {H address} {root base : Uint256} {accepted : List CBlockHeader} {s : ChainState}

variable (address) in
/-- If the old tip is not worse than the root, the new one is the best of all. -/
theorem follows_of_activateBestChain {path : List Uint256}
    (hfiled : s.mapBlockIndex.Filed H s.m_hashToPreviousHash root base accepted)
    (hpath : IsPath s.mapBlockIndex.parent path)
    (hnodes : ∀ k ∈ path, s.mapBlockIndex.Connected s.m_hashToPreviousHash k)
    (hactive : s.chainActive = path.map some) (hmost : s.chainMostWork = path.map some)
    (hvalid : ∀ k ∈ s.setBlockIndexValid, s.mapBlockIndex.Connected s.m_hashToPreviousHash k)
    (hcomplete : ∀ k, s.mapBlockIndex.Connected s.m_hashToPreviousHash k →
      k = root ∨ k ∈ s.setBlockIndexValid)
    (hne : s.setBlockIndexValid ≠ [])
    (hroot : root ∈ s.setBlockIndexValid ∨ ∃ k, path.getLast? = some k ∧
      s.mapBlockIndex.rank address root ≤ s.mapBlockIndex.rank address k) :
    ∃ s', activateBestChain address s = some (true, s') ∧
      Follows H address root base accepted s' := by
  obtain ⟨path', best, hrun, hbranch, hmax, hold⟩ :=
    activateBestChain_path address hfiled.tree hpath hnodes hactive hmost hvalid hne
  refine ⟨_, hrun, hfiled, ⟨path', best, rfl, rfl, hbranch, ?_⟩, hvalid, hcomplete⟩
  intro k hk
  rcases hcomplete k hk with rfl | hmem
  · rcases hroot with hmem | ⟨old, hlast, hle⟩
    · exact hmax k hmem
    · exact hle.trans (hold old hlast)
  · exact hmax k hmem

/-- A header whose predecessor is connected brings those with it that have waited for it. -/
theorem connectNew_follows (h : Follows H address root base accepted s) {block : CBlockHeader}
    {pindex previous : CBlockIndexEntry} (hrecords : pindex.Records block)
    (hnew : s.mapBlockIndex.lookup (block.getHash H) = none)
    (hprevious : s.mapBlockIndex.lookup block.hashPrevBlock = some previous)
    (hprev : s.m_hashToPreviousHash.lookup block.hashPrevBlock = none) :
    ∃ s', connectNew address (block.getHash H) (pindex.linkTo block.hashPrevBlock previous) s =
        some (true, s') ∧ Follows H address root base (accepted ++ [block]) s' := by
  obtain ⟨m', valid', toErase, hrun, hjoin, hvalid⟩ := connectWaiting_joined h.filed hnew
    (pindex.linkTo block.hashPrevBlock previous) s.setBlockIndexValid
  have hfiled := BlockMap.Joined.filed h.filed hjoin hrecords hnew hprevious hprev
  obtain ⟨path, tip, hactive, hmost, hbranch, hbest⟩ := h.chain
  have hnotWaiting := h.filed.waiting_eq_none hnew
  have hold : ∀ k, s.mapBlockIndex.Connected s.m_hashToPreviousHash k →
      m'.lookup k = s.mapBlockIndex.lookup k ∧
        m'.Connected (toErase.foldl OrderedMap.erase s.m_hashToPreviousHash) k := by
    rintro k ⟨⟨entry, hentry⟩, hconnected⟩
    have hne : k ≠ block.getHash H := by
      rintro rfl
      rw [hnew] at hentry
      contradiction
    obtain ⟨hkept, hstill⟩ := hjoin.connected hne hconnected
    exact ⟨hkept, ⟨entry, hkept.trans hentry⟩, hstill⟩
  have hnewConnected : m'.Connected (toErase.foldl OrderedMap.erase s.m_hashToPreviousHash)
      (block.getHash H) := by
    refine ⟨⟨_, hjoin.entry⟩, ?_⟩
    rw [hjoin.still, hnotWaiting]
    simp
  simp only [connectNew, hrun, Option.bind_eq_bind, Option.bind_some]
  refine follows_of_activateBestChain address hfiled ?_ ?_ hactive hmost ?_ ?_ ?_ (.inr ?_)
  · apply hbranch.isPath.congr
    intro k hk
    simp only [BlockMap.parent, (hold k (hbranch.nodes k hk)).1]
  · intro k hk
    exact (hold k (hbranch.nodes k hk)).2
  · intro k hk
    rcases List.mem_insert_iff.mp hk with rfl | hmem
    · exact hnewConnected
    · rcases (hvalid k).mp hmem with hbefore | hwaited
      · exact (hold k (h.valid k hbefore)).2
      · obtain ⟨entry, hentry⟩ := h.filed.exists_entry_of_waiting hwaited
        refine ⟨⟨_, hjoin.joined k entry hwaited hentry⟩, ?_⟩
        rw [hjoin.still, if_pos hwaited]
  · rintro k ⟨⟨entry, hentry⟩, hconnected⟩
    change k = root ∨ k ∈ valid'.insert (block.getHash H)
    rw [List.mem_insert_iff, hvalid]
    by_cases hk : k = block.getHash H
    · exact .inr (.inl hk)
    · by_cases hwaited : s.m_hashToPreviousHash.lookup k = some (block.getHash H)
      · exact .inr (.inr (.inr hwaited))
      · change m'.lookup k = some entry at hentry
        change (toErase.foldl OrderedMap.erase s.m_hashToPreviousHash).lookup k = none at hconnected
        rw [hjoin.kept k hk hwaited] at hentry
        rw [hjoin.still, if_neg hwaited] at hconnected
        rcases h.complete k ⟨⟨entry, hentry⟩, hconnected⟩ with hroot | hmem
        · exact .inl hroot
        · exact .inr (.inr (.inl hmem))
  · exact List.ne_nil_of_mem (List.mem_insert_self)
  · refine ⟨tip, hbranch.last, ?_⟩
    have htip := hbranch.nodes tip (List.mem_of_getLast? hbranch.last)
    simpa only [BlockMap.rank, (hold tip htip).1, (hold root h.filed.connected_root).1] using
      hbest root h.filed.connected_root

theorem wait_follows (h : Follows H address root base accepted s) {block : CBlockHeader}
    {pindex : CBlockIndexEntry} (hrecords : pindex.Records block)
    (hnew : s.mapBlockIndex.lookup (block.getHash H) = none)
    (hprev : (s.mapBlockIndex.assign (block.getHash H) pindex).lookup block.hashPrevBlock = none)
    (hfree : ∀ hash hashPrev, s.m_hashToPreviousHash.lookup hash = some hashPrev →
      hashPrev ≠ block.getHash H) :
    Follows H address root base (accepted ++ [block]) { s with
      mapBlockIndex := s.mapBlockIndex.assign (block.getHash H) pindex
      m_hashToPreviousHash :=
        s.m_hashToPreviousHash.insertNew (block.getHash H) block.hashPrevBlock } := by
  obtain ⟨path, tip, hactive, hmost, hbranch, hbest⟩ := h.chain
  have hne : ∀ k, s.mapBlockIndex.Connected s.m_hashToPreviousHash k → k ≠ block.getHash H := by
    rintro k ⟨⟨entry, hentry⟩, -⟩ rfl
    rw [hnew] at hentry
    contradiction
  have hiff : ∀ k, BlockMap.Connected (s.mapBlockIndex.assign (block.getHash H) pindex)
      (s.m_hashToPreviousHash.insertNew (block.getHash H) block.hashPrevBlock) k ↔
      s.mapBlockIndex.Connected s.m_hashToPreviousHash k := by
    intro k
    by_cases hk : k = block.getHash H
    · subst hk
      simp [BlockMap.Connected, OrderedMap.lookup_insertNew_self, hnew]
    · simp only [BlockMap.Connected, OrderedMap.lookup_assign_of_ne hk,
        OrderedMap.lookup_insertNew_of_ne hk]
  have htip := hbranch.nodes tip (List.mem_of_getLast? hbranch.last)
  refine ⟨h.filed.wait hrecords hnew hprev hfree,
    ⟨path, tip, hactive, hmost, ⟨?_, ?_, hbranch.last⟩, ?_⟩, ?_, ?_⟩
  · apply hbranch.isPath.congr
    intro k hk
    simp only [BlockMap.parent, OrderedMap.lookup_assign_of_ne (hne k (hbranch.nodes k hk))]
  · intro k hk
    exact (hiff k).mpr (hbranch.nodes k hk)
  · intro k hk
    have hconnected := (hiff k).mp hk
    simpa only [BlockMap.rank, OrderedMap.lookup_assign_of_ne (hne k hconnected),
      OrderedMap.lookup_assign_of_ne (hne tip htip)] using hbest k hconnected
  · intro k hk
    exact (hiff k).mpr (h.valid k hk)
  · intro k hk
    exact h.complete k ((hiff k).mp hk)

theorem records_ofHeader (block : CBlockHeader) (nSequenceId : UInt32) :
    CBlockIndexEntry.Records { CBlockIndexEntry.ofHeader block with nSequenceId := nSequenceId } block :=
  rfl

theorem clear_iff {block : CBlockHeader} :
    clear H block s = true ↔ block.hashPrevBlock ≠ block.getHash H ∧
      ∀ hash hashPrev, s.m_hashToPreviousHash.lookup hash = some hashPrev →
        block.hashPrevBlock ≠ hash ∧ (hashPrev = block.getHash H →
          ∃ pindex, s.mapBlockIndex.lookup block.hashPrevBlock = some pindex) := by
  simp only [clear, Bool.and_eq_true, bne_iff_ne, List.all_eq_true, Bool.or_eq_true, Prod.forall,
    OrderedMap.mem_entries, Option.isSome_iff_exists, ne_eq, imp_iff_not_or]

/-- Taking up a header keeps the index in order, and does not fail. A header is refused for
its age or because its hash is known. -/
theorem addToBlockIndex_follows (h : Follows H address root base accepted s)
    {block : CBlockHeader} (hclear : clear H block s = true) :
    ∃ added s', addToBlockIndex H address block s = some (added, s') ∧
      Follows H address root base (if added then accepted ++ [block] else accepted) s' ∧
      (added = false → leavesOld block s = some true ∨
        ∃ pindex, s.mapBlockIndex.lookup (block.getHash H) = some pindex) := by
  obtain ⟨hself, hwaiting⟩ := clear_iff.mp hclear
  obtain ⟨path, tip, hactive, hmost, hbranch, hbest⟩ := h.chain
  obtain ⟨⟨tipEntry, htipEntry⟩, -⟩ := hbranch.nodes tip (List.mem_of_getLast? hbranch.last)
  have hnonempty : s.chainActive ≠ [] := by
    rw [hactive]
    intro hnil
    rw [List.map_eq_nil_iff] at hnil
    rw [hnil] at hbranch
    exact absurd hbranch.last (by simp)
  have htip : s.chainActive.tip = some tip := by
    rw [CChain.tip, hactive, List.getLast?_map, hbranch.last]
    rfl
  have hleaves : leavesOld block s =
      some (decide (block.nTime.toNat + 3600 < tipEntry.nTime.toNat)) := by
    simp only [leavesOld, hnonempty, if_false, htip, htipEntry, Option.bind_eq_bind,
      Option.bind_some]
  simp only [addToBlockIndex, hleaves, Option.bind_eq_bind, Option.bind_some, Option.pure_def]
  by_cases hold : block.nTime.toNat + 3600 < tipEntry.nTime.toNat
  · refine ⟨false, s, ?_, h, ?_⟩
    · simp [hold]
    · simp [hold]
  simp only [hold, decide_false, Bool.false_eq_true, if_false, hnonempty]
  cases hknown : s.mapBlockIndex.lookup (block.getHash H) with
  | some pindex =>
    exact ⟨false, _, rfl, ⟨h.filed, h.chain, h.valid, h.complete⟩, fun _ => .inr ⟨pindex, rfl⟩⟩
  | none =>
    simp only [Option.isSome_none, Bool.false_eq_true, if_false,
      OrderedMap.lookup_assign_of_ne hself]
    have hrecords := records_ofHeader block s.nBlockSequenceId
    cases hprevious : s.mapBlockIndex.lookup block.hashPrevBlock with
    | some previous =>
      have hprev : s.m_hashToPreviousHash.lookup block.hashPrevBlock = none := by
        cases hwait : s.m_hashToPreviousHash.lookup block.hashPrevBlock with
        | none => rfl
        | some hashPrev => exact absurd rfl (hwaiting _ _ hwait).1
      have hcount : Follows H address root base accepted
          { s with nBlockSequenceId := s.nBlockSequenceId + 1 } :=
        ⟨h.filed, h.chain, h.valid, h.complete⟩
      obtain ⟨s', hrun, hfollows⟩ := connectNew_follows hcount hrecords hknown hprevious hprev
      exact ⟨true, s', hrun, hfollows, by simp⟩
    | none =>
      refine ⟨true, _, rfl, ?_, by simp⟩
      have hcount : Follows H address root base accepted
          { s with nBlockSequenceId := s.nBlockSequenceId + 1 } :=
        ⟨h.filed, h.chain, h.valid, h.complete⟩
      apply wait_follows hcount hrecords hknown
      · rw [OrderedMap.lookup_assign_of_ne hself, hprevious]
      · intro hash hashPrev hwait heq
        obtain ⟨pindex, hpindex⟩ := (hwaiting hash hashPrev hwait).2 heq
        rw [hprevious] at hpindex
        contradiction

theorem addHeaders_follows {headers : List CBlockHeader} :
    ∀ {accepted : List CBlockHeader} {s : ChainState}, Follows H address root base accepted s →
      orderly H address headers s = true →
      ∃ more s', addHeaders H address headers s = some (more, s') ∧
        Follows H address root base (accepted ++ more) s' := by
  induction headers with
  | nil =>
    intro accepted s h _
    exact ⟨[], s, rfl, by rwa [List.append_nil]⟩
  | cons block rest ih =>
    intro accepted s h horderly
    rw [orderly, Bool.and_eq_true] at horderly
    obtain ⟨hclear, hrest⟩ := horderly
    obtain ⟨added, s₁, hadd, hfollows, -⟩ := addToBlockIndex_follows h hclear
    simp only [hadd] at hrest
    obtain ⟨more, s₂, hmore, hfollows'⟩ := ih hfollows hrest
    simp only [addHeaders, hadd, hmore, Option.bind_eq_bind, Option.bind_some]
    cases added with
    | true =>
      refine ⟨block :: more, s₂, rfl, ?_⟩
      simpa [List.append_assoc] using hfollows'
    | false => exact ⟨more, s₂, rfl, hfollows'⟩

theorem filed_root {m : BlockMap} {waiting : OrderedMap Uint256 Uint256} {pindex : CBlockIndexEntry}
    (hlookup : ∀ k, m.lookup k = if k = root then some pindex else none)
    (hwaiting : ∀ k, waiting.lookup k = none) (hpprev : pindex.pprev = none)
    (hheight : pindex.nHeight = 0) (hwork : pindex.nChainWork = base) :
    m.Filed H waiting root base [] := by
  refine ⟨⟨pindex, by simp [hlookup], hpprev, hheight, hwork⟩, hwaiting root, by simp, by simp,
    by simp, ?_, ?_⟩
  · intro k entry hentry
    rw [hlookup] at hentry
    split at hentry
    next hk => exact .inl hk
    next => contradiction
  · intro k hashPrev hwait
    rw [hwaiting] at hwait
    contradiction

theorem lookup_single (pindex : CBlockIndexEntry) (k : Uint256) :
    (OrderedMap.empty.assign root pindex).lookup k = if k = root then some pindex else none := by
  by_cases hk : k = root
  · subst hk
    simp
  · rw [OrderedMap.lookup_assign_of_ne hk, if_neg hk]
    rfl

theorem eq_of_lookup_single {pindex entry : CBlockIndexEntry} {k : Uint256}
    (h : (OrderedMap.empty.assign root pindex).lookup k = some entry) : k = root := by
  rw [lookup_single] at h
  split at h
  next hk => exact hk
  next => contradiction

def rooted (hash : Uint256) (pindex : CBlockIndexEntry) : ChainState where
  mapBlockIndex := OrderedMap.empty.assign hash pindex
  m_hashToPreviousHash := .empty
  setBlockIndexValid := [hash]
  chainActive := []
  chainMostWork := []
  nBlockSequenceId := empty.nBlockSequenceId + 1

theorem addToBlockIndex_empty {block : CBlockHeader} (hne : block.hashPrevBlock ≠ block.getHash H) :
    addToBlockIndex H address block empty =
      activateBestChain address (rooted (block.getHash H) { CBlockIndexEntry.ofHeader block with
        nSequenceId := 1, nChainWork := CBlockIndexEntry.getBlockWork block.nBits }) := by
  have hactive : empty.chainActive = [] := rfl
  have hnone : ∀ k, OrderedMap.lookup empty.mapBlockIndex k = none := fun _ => rfl
  simp only [addToBlockIndex, leavesOld, hactive, if_true, Option.bind_eq_bind, Option.bind_some,
    hnone, Option.isSome_none, Bool.false_eq_true, if_false, OrderedMap.lookup_assign_of_ne hne]
  rfl

theorem Started.follows (h : Started H address root base s) :
    Follows H address root base [] s := by
  cases h with
  | @init block _ hne h =>
    let first := { CBlockIndexEntry.ofHeader block with
      nSequenceId := 1, nChainWork := CBlockIndexEntry.getBlockWork block.nBits }
    have hfiled : (rooted (block.getHash H) first).mapBlockIndex.Filed H .empty (block.getHash H)
        (CBlockIndexEntry.getBlockWork block.nBits) [] :=
      filed_root (lookup_single first) (fun _ => rfl) rfl rfl rfl
    have hpath : IsPath (rooted (block.getHash H) first).mapBlockIndex.parent [] :=
      ⟨by simp, by simp⟩
    obtain ⟨s', hrun, hfollows⟩ :=
      follows_of_activateBestChain (s := rooted (block.getHash H) first) address hfiled hpath
        (by simp) rfl rfl
        (by
          intro k hk
          obtain rfl := List.mem_singleton.mp hk
          exact hfiled.connected_root)
        (by
          rintro k ⟨⟨entry, hentry⟩, -⟩
          exact .inl (eq_of_lookup_single hentry))
        (by simp [rooted]) (.inl (by simp [rooted]))
    rw [initBlockIndex, addToBlockIndex_empty hne, hrun] at h
    obtain rfl := Option.some.inj h
    exact hfollows
  | @reset header s h =>
    have hwaiting : ∀ k, s.m_hashToPreviousHash.lookup k = none := by
      intro k
      rw [OrderedMap.lookup, h]
      rfl
    have hfiled : BlockMap.Filed H (OrderedMap.empty.assign (header.getHash H)
        (CBlockIndexEntry.ofHeader header)) s.m_hashToPreviousHash (header.getHash H) 0 [] :=
      filed_root (lookup_single _) hwaiting rfl rfl rfl
    have honly : ∀ k, BlockMap.Connected (OrderedMap.empty.assign (header.getHash H)
        (CBlockIndexEntry.ofHeader header)) s.m_hashToPreviousHash k → k = header.getHash H := by
      rintro k ⟨⟨entry, hentry⟩, -⟩
      exact eq_of_lookup_single hentry
    refine ⟨hfiled, ⟨[header.getHash H], header.getHash H, rfl, rfl, ⟨.single ?_, ?_, rfl⟩, ?_⟩,
      by simp [resetChains], ?_⟩
    · simp [resetChains, BlockMap.parent, CBlockIndexEntry.ofHeader]
    · intro k hk
      obtain rfl := List.mem_singleton.mp hk
      exact hfiled.connected_root
    · intro k hk
      rw [honly k hk]
    · intro k hk
      exact .inl (honly k hk)

end ChainState

namespace BlockMap.Filed

open CBlockHeader

variable {H : HashFunctions} {m : BlockMap} {waiting : OrderedMap Uint256 Uint256}
  {root base : Uint256} {accepted : List CBlockHeader}

theorem exists_tip (h : m.Filed H waiting root base accepted) {branch : List CBlockHeader}
    (hmem : ∀ block ∈ branch, block ∈ accepted) :
    ∀ {hash : Uint256} {pindex : CBlockIndexEntry}, m.lookup hash = some pindex →
      waiting.lookup hash = none → Leads H hash branch →
      ∃ tip tipIndex, (hashes H hash branch).getLast? = some tip ∧
        m.lookup tip = some tipIndex ∧ waiting.lookup tip = none ∧
        tipIndex.nChainWork = pindex.nChainWork + work branch := by
  induction branch with
  | nil =>
    intro hash pindex hentry hconnected _
    exact ⟨hash, pindex, rfl, hentry, hconnected, by simp [work]⟩
  | cons block rest ih =>
    obtain ⟨hblock, hrest⟩ := List.forall_mem_cons.mp hmem
    intro hash pindex hentry hconnected hleads
    obtain ⟨rfl, hleads⟩ := hleads
    cases hwait : waiting.lookup (block.getHash H) with
    | some hashPrev =>
      -- what waits has no predecessor
      obtain ⟨-, alone, -, hnone, -⟩ := h.alone block hblock hashPrev hwait
      rw [hnone] at hentry
      contradiction
    | none =>
      obtain ⟨-, alone, previous, hrecords, hprevious, hlinked⟩ := h.linked block hblock hwait
      obtain rfl : previous = pindex := Option.some.inj (hprevious.symm.trans hentry)
      obtain ⟨tip, tipIndex, hlast, htip, htipConnected, hwork⟩ := ih hrest hlinked hwait hleads
      refine ⟨tip, tipIndex, ?_, htip, htipConnected, ?_⟩
      · rw [hashes, List.map_cons, List.getLast?_cons_cons]
        exact hlast
      · have hbits : alone.nBits = block.nBits := by
          rw [hrecords]
          rfl
        rw [hwork, work, work, List.map_cons, List.sum_cons, CBlockIndexEntry.linkTo, hbits, add_assoc]

theorem exists_branch (h : m.Filed H waiting root base accepted) {rest : List Uint256} :
    ∀ (before : List Uint256) {hash : Uint256}, IsPath m.parent (before ++ hash :: rest) →
      (∀ k ∈ rest, m.Connected waiting k) →
      ∃ branch, hash :: rest = hashes H hash branch ∧ IsBranch H accepted hash branch := by
  induction rest with
  | nil =>
    intro before hash _ _
    exact ⟨[], rfl, trivial, by simp⟩
  | cons k rest ih =>
    intro before hash hpath hnodes
    obtain ⟨hk, hrest⟩ := List.forall_mem_cons.mp hnodes
    have hnext : IsPath m.parent ((before ++ [hash]) ++ k :: rest) := by simpa using hpath
    obtain ⟨branch, hbranch, hleads, hmem⟩ := ih _ hnext hrest
    have hparent : m.parent k = some hash := by
      have hlink := hpath.link before.length k (by simp)
      simpa using hlink
    rcases h.root_or_linked hk with rfl | ⟨block, hblock, rfl, -, alone, previous, -, -, hentry⟩
    · obtain ⟨pindex, hroot, hpprev, -⟩ := h.root_entry
      rw [BlockMap.parent, hroot, Option.bind_some, hpprev] at hparent
      contradiction
    · rw [BlockMap.parent, hentry] at hparent
      obtain rfl : block.hashPrevBlock = hash := Option.some.inj hparent
      refine ⟨block :: branch, ?_, ⟨rfl, hleads⟩, List.forall_mem_cons.mpr ⟨hblock, hmem⟩⟩
      rw [hbranch]
      rfl

end BlockMap.Filed

namespace ChainState

open CBlockHeader

variable {H : HashFunctions} {address : Uint256 → ℕ} {root base : Uint256} {s : ChainState}

theorem Follows.branch {accepted : List CBlockHeader} {path : List Uint256}
    (h : Follows H address root base accepted s) (hactive : s.chainActive = path.map some) :
    ∃ tip, s.mapBlockIndex.Branch (s.mapBlockIndex.Connected s.m_hashToPreviousHash) path tip := by
  obtain ⟨path', tip, hactive', -, hbranch, -⟩ := h.chain
  have hpath : path = path' :=
    List.map_injective_iff.mpr (Option.some_injective _) (hactive.symm.trans hactive')
  exact ⟨tip, hpath ▸ hbranch⟩

/-- The active chain is a branch, and its work is not less than that of another. -/
theorem Follows.bestBranch {accepted : List CBlockHeader}
    (h : Follows H address root base accepted s) :
    ∃ branch, s.chainActive = (hashes H root branch).map some ∧
      s.chainMostWork = s.chainActive ∧ s.tipWork = some (base + work branch) ∧
      IsBranch H accepted root branch ∧
      ∀ other, IsBranch H accepted root other → base + work other ≤ base + work branch := by
  obtain ⟨path, tip, hactive, hmost, ⟨hpath, hnodes, hlast⟩, hbest⟩ := h.chain
  obtain ⟨rootEntry, hroot, -, -, hbase⟩ := h.filed.root_entry
  cases path with
  | nil => contradiction
  | cons first rest =>
    obtain rfl : first = root := h.filed.tree.head_eq hpath hnodes rfl
    obtain ⟨branch, hbranch, hleads, hmem⟩ := h.filed.exists_branch [] hpath
      fun k hk => hnodes k (List.mem_cons_of_mem _ hk)
    rw [hbranch] at hactive hmost hlast
    obtain ⟨branchTip, branchIndex, hbranchLast, hbranchEntry, -, hbranchWork⟩ :=
      h.filed.exists_tip hmem hroot h.filed.root_connected hleads
    obtain rfl : tip = branchTip := Option.some.inj (hlast.symm.trans hbranchLast)
    rw [hbase] at hbranchWork
    refine ⟨branch, hactive, hmost.trans hactive.symm, ?_, ⟨hleads, hmem⟩, ?_⟩
    · have htip : s.chainActive.tip = some tip := by
        rw [CChain.tip, hactive, List.getLast?_map, hlast]
        rfl
      simp [tipWork, htip, hbranchEntry, hbranchWork]
    · rintro other ⟨hotherLeads, hotherMem⟩
      obtain ⟨otherTip, otherIndex, -, hotherEntry, hotherConnected, hotherWork⟩ :=
        h.filed.exists_tip hotherMem hroot h.filed.root_connected hotherLeads
      have hrank := hbest otherTip ⟨⟨otherIndex, hotherEntry⟩, hotherConnected⟩
      simp only [BlockMap.rank, hotherEntry, hbranchEntry, Option.map_some] at hrank
      have hle := work_le_of_workRank_le (WithBot.coe_le_coe.mp hrank)
      rwa [hotherWork, hbranchWork, hbase] at hle

/-- Headers that are clear when they come are all dealt with, and the active chain is then a
branch of those that have been taken up to which no other branch is superior in work. -/
theorem addHeaders_bestBranch (hstart : Started H address root base s)
    {headers : List CBlockHeader} (horderly : orderly H address headers s = true) :
    ∃ accepted s' branch, addHeaders H address headers s = some (accepted, s') ∧
      s'.chainActive = (hashes H root branch).map some ∧ s'.chainMostWork = s'.chainActive ∧
      s'.tipWork = some (base + work branch) ∧ IsBranch H accepted root branch ∧
      ∀ other, IsBranch H accepted root other → base + work other ≤ base + work branch := by
  obtain ⟨accepted, s', hrun, hfollows⟩ := addHeaders_follows hstart.follows horderly
  obtain ⟨branch, hactive, hmost, hwork, hbranch, hbest⟩ := hfollows.bestBranch
  exact ⟨accepted, s', branch, hrun, hactive, hmost, hwork, hbranch, hbest⟩

theorem Reached.follows {accepted : List CBlockHeader} (h : Reached H address root base accepted s) :
    Follows H address root base accepted s := by
  obtain ⟨start, headers, hstart, horderly, hrun⟩ := h
  obtain ⟨_, _, hrun', hfollows⟩ := addHeaders_follows hstart.follows horderly
  obtain ⟨rfl, rfl⟩ := Prod.mk.inj (Option.some.inj (hrun'.symm.trans hrun))
  exact hfollows

namespace NumberedHeaders

/-- A hash that reads the number of a header, which is in place of the nonce. -/
def hashes : HashFunctions :=
  ⟨fun bytes => BitVec.ofNat 256 ((bytes.drop 76).headD 0).toNat, fun _ => 0⟩

def header (number prev : ℕ) : CBlockHeader where
  nVersion := 1
  hashPrevBlock := BitVec.ofNat 256 prev
  hashMerkleRoot := 0
  nTime := 5000
  nBits := 0x207fffff
  nNonce := .ofNat number

def start : ChainState := resetChains hashes (header 1 0) empty

/-- The third waits for the second; then a longer branch leaves the first. -/
def received : List CBlockHeader :=
  [header 3 2, header 2 1, header 4 1, header 5 4, header 6 5]

theorem started (address : Uint256 → ℕ) :
    Started hashes address ((header 1 0).getHash hashes) 0 start :=
  .reset (header 1 0) rfl

end NumberedHeaders

open NumberedHeaders in
theorem addHeaders_bestBranch_received :
    ∃ accepted s' branch,
      addHeaders NumberedHeaders.hashes BitVec.toNat received start = some (accepted, s') ∧
      s'.chainActive =
        (CBlockHeader.hashes NumberedHeaders.hashes 1 branch).map some ∧
      s'.chainMostWork = s'.chainActive ∧ s'.tipWork = some (0 + work branch) ∧
      IsBranch NumberedHeaders.hashes accepted 1 branch ∧
      ∀ other, IsBranch NumberedHeaders.hashes accepted 1 other →
        0 + work other ≤ 0 + work branch :=
  addHeaders_bestBranch (started BitVec.toNat) (by decide +kernel)

open NumberedHeaders in
-- Without the condition the branch that ends in the fourth header would not be found.
example : ((addHeaders NumberedHeaders.hashes BitVec.toNat [header 3 2, header 4 3, header 2 1] start).map
    fun r => r.2.chainActive) = some [some 1, some 2, some 3] := by decide +kernel

/-- Two nodes that have taken up the same headers, in whatever order, have tips with the same
work behind them. -/
theorem tipWork_eq_of_same_headers {address' : Uint256 → ℕ} {s' : ChainState}
    {accepted accepted' : List CBlockHeader} (hs : Reached H address root base accepted s)
    (hs' : Reached H address' root base accepted' s')
    (hsame : ∀ block, block ∈ accepted ↔ block ∈ accepted') : s.tipWork = s'.tipWork := by
  obtain ⟨branch, -, -, hwork, ⟨hleads, hmem⟩, hbest⟩ := hs.follows.bestBranch
  obtain ⟨branch', -, -, hwork', ⟨hleads', hmem'⟩, hbest'⟩ := hs'.follows.bestBranch
  have hle := hbest' branch ⟨hleads, fun block hblock => (hsame block).mp (hmem block hblock)⟩
  have hge := hbest branch' ⟨hleads', fun block hblock => (hsame block).mpr (hmem' block hblock)⟩
  rw [hwork, hwork', BitVec.le_antisymm hle hge]

namespace NumberedHeaders

def taken (address : Uint256 → ℕ) (headers : List CBlockHeader) :
    List CBlockHeader × ChainState :=
  (addHeaders hashes address headers start).getD ([], start)

theorem reached (address : Uint256 → ℕ) (headers : List CBlockHeader)
    (horderly : orderly hashes address headers start = true)
    (h : (addHeaders hashes address headers start).isSome = true) :
    Reached hashes address ((header 1 0).getHash hashes) 0 (taken address headers).1
      (taken address headers).2 := by
  refine ⟨start, headers, started address, horderly, ?_⟩
  rw [taken]
  cases hrun : addHeaders hashes address headers start with
  | none =>
    rw [hrun] at h
    contradiction
  | some result => rfl

end NumberedHeaders

open NumberedHeaders in
theorem tipWork_eq_of_received :
    (taken BitVec.toNat [header 3 2, header 2 1]).2.tipWork =
      (taken (fun _ => 0) [header 2 1, header 3 2]).2.tipWork :=
  tipWork_eq_of_same_headers
    (reached BitVec.toNat [header 3 2, header 2 1] (by decide +kernel) (by decide +kernel))
    (reached (fun _ => 0) [header 2 1, header 3 2] (by decide +kernel) (by decide +kernel)) (by
      have hs : (taken BitVec.toNat [header 3 2, header 2 1]).1 = [header 3 2, header 2 1] := by
        decide +kernel
      have ht : (taken (fun _ => 0) [header 2 1, header 3 2]).1 = [header 2 1, header 3 2] := by
        decide +kernel
      intro block
      rw [hs, ht]
      simp [or_comm])

end ChainState

end Dims
