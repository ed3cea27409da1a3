import Dims.BlockIndex
import Dims.ParentPath
import Mathlib.Data.Prod.Lex

/-!
# How a chain gets its tip

The entries that are connected form a tree. A chain that is a path of it becomes the path
to another tip: `SetTip` writes until it meets what the two have in common, and the active
chain is taken back to the fork and then up to the tip of most work.
-/

namespace Dims

namespace BlockMap

def parent (m : BlockMap) (hash : Uint256) : Option Uint256 :=
  (m.lookup hash).bind CBlockIndexEntry.pprev

def depth (m : BlockMap) (hash : Uint256) : ℕ := (m.lookup hash).elim 0 CBlockIndexEntry.nHeight

/-- Entries that all lead to one of them. -/
structure Tree (m : BlockMap) (node : Uint256 → Prop) (root : Uint256) : Prop where
  held : ∀ k, node k → ∃ pindex, m.lookup k = some pindex
  forest : IsForest m.parent node m.depth
  single : ∀ k, node k → m.parent k = none → k = root

/-- The way from the root to an entry, by way of connected entries. -/
structure Branch (m : BlockMap) (node : Uint256 → Prop) (path : List Uint256) (tip : Uint256) :
    Prop where
  isPath : IsPath m.parent path
  nodes : ∀ k ∈ path, node k
  last : path.getLast? = some tip

namespace Tree

variable {m : BlockMap} {node : Uint256 → Prop} {root tip : Uint256} {path other : List Uint256}

theorem exists_branch (h : m.Tree node root) (htip : node tip) :
    ∃ path, m.Branch node path tip := by
  obtain ⟨path, hpath, hnodes, hlast, -⟩ := h.forest.exists_path htip
  exact ⟨path, hpath, hnodes, hlast⟩

theorem entry (h : m.Tree node root) (hpath : IsPath m.parent path) (hnodes : ∀ k ∈ path, node k)
    {i : ℕ} {k : Uint256} (hk : path[i]? = some k) :
    ∃ pindex, m.lookup k = some pindex ∧ pindex.nHeight = i ∧
      pindex.pprev = if i = 0 then none else path[i - 1]? := by
  obtain ⟨pindex, hlookup⟩ := h.held k (hnodes k (List.mem_of_getElem? hk))
  have hdepth := h.forest.depth_eq hpath hnodes hk
  have hparent := hpath.parent_eq hk
  simp only [BlockMap.depth, hlookup, Option.elim_some] at hdepth
  simp only [BlockMap.parent, hlookup, Option.bind_some] at hparent
  exact ⟨pindex, hlookup, hdepth, hparent⟩

theorem length_le_entries (h : m.Tree node root) (hpath : IsPath m.parent path)
    (hnodes : ∀ k ∈ path, node k) : path.length ≤ m.entries.length := by
  have hcard : m.keys.card ≤ m.entries.length := by
    simpa [OrderedMap.keys] using List.toFinset_card_le (m.entries.map Prod.fst)
  refine (hpath.length_le_card ?_).trans hcard
  intro k hk
  exact OrderedMap.mem_keys.mpr (h.held k (hnodes k hk))

theorem head_eq (h : m.Tree node root) (hpath : IsPath m.parent path)
    (hnodes : ∀ k ∈ path, node k) {k : Uint256} (hk : path[0]? = some k) : k = root :=
  h.single k (hnodes k (List.mem_of_getElem? hk)) (hpath.root k hk)

/-- Down to the place where the new path is written, the chain is the old one. -/
theorem writeBack_path (h : m.Tree node root) (hpath : IsPath m.parent path)
    (hnodes : ∀ k ∈ path, node k) (hother : IsPath m.parent other) (j : ℕ) :
    ∀ fuel chain, j ≤ fuel → j ≤ path.length → chain.length = path.length →
      (∀ i, j ≤ i → chain[i]? = (path.map some)[i]?) →
      (∀ i, i < j → chain[i]? = (CChain.resize (other.map some) path.length)[i]?) →
      CChain.writeBack m fuel chain (if j = 0 then none else path[j - 1]?) =
        some (path.map some) := by
  induction j with
  | zero =>
    intro fuel chain hfuel hj hlen hwritten hrest
    have hall : chain = path.map some := List.ext_getElem? fun i => hwritten i (Nat.zero_le i)
    simp [CChain.writeBack, hall]
  | succ j ih =>
    intro fuel chain hfuel hj hlen hwritten hrest
    obtain ⟨fuel, rfl⟩ : ∃ n, fuel = n + 1 := ⟨fuel - 1, by omega⟩
    have hk : path[j]? = some path[j] := List.getElem?_eq_getElem (by omega)
    obtain ⟨pindex, hlookup, hheight, hpprev⟩ := h.entry hpath hnodes hk
    rw [if_neg (by omega), Nat.add_sub_cancel, hk, CChain.writeBack]
    simp only [hlookup, Option.bind_eq_bind, Option.bind_some, hheight]
    rw [if_neg (by omega)]
    by_cases hmeet : chain.contains path[j] pindex
    · rw [if_pos hmeet]
      -- the old path goes through this node, so it is the new one up to here
      have hold : (CChain.resize (other.map some) path.length)[j]? = some (some path[j]) := by
        rw [← hrest j (by omega)]
        simpa [CChain.contains, CChain.at', hheight, Option.join_eq_some_iff] using hmeet
      have hboth : other[j]? = some path[j] := by
        rw [CChain.resize, List.getElem?_append] at hold
        split at hold
        · rw [List.getElem?_take] at hold
          split at hold
          · simpa using hold
          · contradiction
        · rw [List.getElem?_replicate] at hold
          split at hold <;> simp at hold
      have hlt := (List.getElem?_eq_some_iff.mp hboth).1
      have hall : chain = path.map some := by
        apply List.ext_getElem?
        intro i
        rcases Nat.lt_or_ge i (j + 1) with hi | hi
        · rw [hrest i hi, CChain.resize, List.getElem?_append_left (by simp; omega),
            List.getElem?_take, if_pos (by omega), List.getElem?_map, List.getElem?_map,
            hpath.agree hother hk hboth (by omega)]
        · exact hwritten i hi
      rw [hall]
    · rw [if_neg hmeet, hpprev]
      apply ih fuel (chain.set j (some path[j])) (by omega) (by omega) (by simpa using hlen)
      · intro i hi
        rcases Nat.eq_or_lt_of_le hi with rfl | hlt
        · rw [List.getElem?_set_self (by omega), List.getElem?_map, hk, Option.map_some]
        · rw [List.getElem?_set_ne (by omega)]
          exact hwritten i hlt
      · intro i hi
        rw [List.getElem?_set_ne (by omega)]
        exact hrest i (by omega)

theorem setTip_path (h : m.Tree node root) (hother : IsPath m.parent other)
    (hbranch : m.Branch node path tip) :
    CChain.setTip m (other.map some) (some tip) = some (path.map some) := by
  obtain ⟨hpath, hnodes, hlast⟩ := hbranch
  have hlen : 0 < path.length := by
    rw [List.length_pos_iff]
    rintro rfl
    contradiction
  rw [List.getLast?_eq_getElem?] at hlast
  obtain ⟨pindex, hlookup, hheight, -⟩ := h.entry hpath hnodes hlast
  have hsize : pindex.nHeight + 1 = path.length := by omega
  simp only [CChain.setTip, hlookup, Option.bind_eq_bind, Option.bind_some, hsize]
  have hwrite := h.writeBack_path hpath hnodes hother path.length m.entries.length
    (CChain.resize (other.map some) path.length) (h.length_le_entries hpath hnodes) le_rfl
  rw [if_neg (by omega), hlast] at hwrite
  have hresize : (CChain.resize (other.map some) path.length).length = path.length := by
    rw [CChain.resize, List.length_append, List.length_take, List.length_replicate]
    omega
  apply hwrite hresize
  · intro i hi
    rw [List.getElem?_eq_none (by omega), List.getElem?_eq_none (by simpa using hi)]
  · intro i _
    rfl

end Tree

end BlockMap

/-- The place of an entry in the order of the comparator. -/
def workRank (address : Uint256 → ℕ) (p : Uint256 × CBlockIndexEntry) : ℕ ×ₗ ℕᵒᵈ ×ₗ ℕᵒᵈ :=
  toLex (p.2.nChainWork.toNat,
    toLex (OrderDual.toDual p.2.nSequenceId.toNat, OrderDual.toDual (address p.1)))

section Comparator

variable {address : Uint256 → ℕ} {p q : Uint256 × CBlockIndexEntry}

theorem blockIndexWorkComparator_iff :
    blockIndexWorkComparator address p q = true ↔ workRank address p < workRank address q := by
  simp only [workRank, Prod.Lex.toLex_lt_toLex, OrderDual.toDual_lt_toDual,
    blockIndexWorkComparator, BitVec.lt_def, UInt32.lt_iff_toNat_lt, EmbeddingLike.apply_eq_iff_eq]
  split_ifs <;> simp only [decide_eq_true_eq, false_iff, true_iff] <;> omega

theorem work_le_of_workRank_le (h : workRank address p ≤ workRank address q) :
    p.2.nChainWork ≤ q.2.nChainWork := by
  rw [workRank, workRank, Prod.Lex.toLex_le_toLex] at h
  rw [BitVec.le_def]
  rcases h with hlt | ⟨heq, -⟩
  · exact hlt.le
  · exact heq.le

theorem greatest_eq_none_iff {entries : List (Uint256 × CBlockIndexEntry)} :
    greatest address entries = none ↔ entries = [] := by
  cases entries with
  | nil => simp [greatest]
  | cons entry entries =>
    simp only [greatest, reduceCtorEq, iff_false]
    split
    · simp
    · split <;> simp

theorem greatest_spec {entries : List (Uint256 × CBlockIndexEntry)}
    (h : greatest address entries = some q) :
    q ∈ entries ∧ ∀ p ∈ entries, workRank address p ≤ workRank address q := by
  induction entries generalizing q with
  | nil => contradiction
  | cons entry entries ih =>
    rw [greatest] at h
    split at h
    next hnone =>
      obtain rfl := Option.some.inj h
      rw [greatest_eq_none_iff.mp hnone]
      simp
    next other hother =>
      obtain ⟨hmem, hmax⟩ := ih hother
      split at h
      next hless =>
        obtain rfl := Option.some.inj h
        refine ⟨List.mem_cons_of_mem _ hmem, List.forall_mem_cons.mpr ⟨?_, hmax⟩⟩
        exact (blockIndexWorkComparator_iff.mp hless).le
      next hless =>
        obtain rfl := Option.some.inj h
        rw [blockIndexWorkComparator_iff, not_lt] at hless
        refine ⟨List.mem_cons_self, List.forall_mem_cons.mpr ⟨le_rfl, ?_⟩⟩
        intro p hp
        exact (hmax p hp).trans hless

end Comparator

/-- The place of what a hash points at; there is no entry below those that exist. -/
def BlockMap.rank (m : BlockMap) (address : Uint256 → ℕ) (hash : Uint256) :
    WithBot (ℕ ×ₗ ℕᵒᵈ ×ₗ ℕᵒᵈ) :=
  (m.lookup hash).map fun pindex => workRank address (hash, pindex)

namespace ChainState

variable {address : Uint256 → ℕ} {s : ChainState} {node : Uint256 → Prop} {root tip : Uint256}
  {active most : List Uint256}

theorem disconnectTips_path (h : s.mapBlockIndex.Tree node root)
    (hactive : IsPath s.mapBlockIndex.parent active) (hactiveNodes : ∀ k ∈ active, node k)
    (hmost : s.mapBlockIndex.Branch node most tip) (hchain : s.chainMostWork = most.map some)
    (n : ℕ) : ∀ fuel, n ≤ active.length → n + 1 ≤ fuel →
      ∃ i, disconnectTips fuel { s with chainActive := (active.take n).map some } =
        some (true, { s with chainActive := (most.take i).map some }) := by
  induction n with
  | zero =>
    intro fuel _ hfuel
    obtain ⟨fuel, rfl⟩ : ∃ n, fuel = n + 1 := ⟨fuel - 1, by omega⟩
    exact ⟨0, by simp [disconnectTips, CChain.tip]⟩
  | succ n ih =>
    intro fuel hn hfuel
    obtain ⟨fuel, rfl⟩ : ∃ n, fuel = n + 1 := ⟨fuel - 1, by omega⟩
    have hk : active[n]? = some active[n] := List.getElem?_eq_getElem (by omega)
    obtain ⟨pindex, hlookup, hheight, hpprev⟩ := h.entry hactive hactiveNodes hk
    have htip : CChain.tip ((active.take (n + 1)).map some) = some active[n] := by
      rw [CChain.tip, List.getLast?_map, List.getLast?_take, if_neg (by omega),
        Nat.add_sub_cancel, hk]
      rfl
    simp only [disconnectTips, htip, hlookup, Option.bind_eq_bind, Option.bind_some]
    by_cases hin : most[n]? = some active[n]
    · refine ⟨n + 1, ?_⟩
      rw [if_pos (by simp [CChain.contains, CChain.at', hheight, hchain, hin]),
        hactive.take_eq hmost.isPath hk hin]
    · rw [if_neg (by simpa [CChain.contains, CChain.at', hheight, hchain,
        Option.join_eq_some_iff] using hin), hpprev]
      cases n with
      | zero =>
        -- both chains start at the root
        have hpos : 0 < most.length := by
          rw [List.length_pos_iff]
          rintro rfl
          exact absurd hmost.last (by simp)
        have hroot := h.head_eq hmost.isPath hmost.nodes (List.getElem?_eq_getElem hpos)
        rw [h.head_eq hactive hactiveNodes hk, List.getElem?_eq_getElem hpos, hroot] at hin
        exact absurd rfl hin
      | succ n =>
        have hprev : active[n]? = some active[n] := List.getElem?_eq_getElem (by omega)
        have hbranch : s.mapBlockIndex.Branch node (active.take (n + 1)) active[n] := by
          refine ⟨hactive.take (n + 1), ?_, ?_⟩
          · intro k hk
            exact hactiveNodes k (List.mem_of_mem_take hk)
          · rw [List.getLast?_take, if_neg (by omega), Nat.add_sub_cancel, hprev]
            rfl
        rw [if_neg (by omega), Nat.add_sub_cancel, hprev]
        simp only [h.setTip_path (hactive.take (n + 1 + 1)) hbranch, Option.bind_some]
        exact ih fuel (by omega) (by omega)

theorem connectTips_path (h : s.mapBlockIndex.Tree node root)
    (hmost : s.mapBlockIndex.Branch node most tip) (hchain : s.chainMostWork = most.map some)
    (missing : ℕ) : ∀ i fuel, most.length - i = missing → missing + 1 ≤ fuel →
      connectTips tip fuel { s with chainActive := (most.take i).map some } =
        some { s with chainActive := most.map some } := by
  have hlast := hmost.last
  rw [List.getLast?_eq_getElem?] at hlast
  have hlen := (List.getElem?_eq_some_iff.mp hlast).1
  obtain ⟨pindex, hlookup, hheight, -⟩ := h.entry hmost.isPath hmost.nodes hlast
  induction missing with
  | zero =>
    intro i fuel hi hfuel
    obtain ⟨fuel, rfl⟩ : ∃ n, fuel = n + 1 := ⟨fuel - 1, by omega⟩
    simp only [connectTips, hlookup, Option.bind_eq_bind, Option.bind_some]
    rw [List.take_of_length_le (by omega),
      if_pos (by simp [CChain.contains, CChain.at', hheight, hlast])]
  | succ missing ih =>
    intro i fuel hi hfuel
    obtain ⟨fuel, rfl⟩ : ∃ n, fuel = n + 1 := ⟨fuel - 1, by omega⟩
    have hk : most[i]? = some most[i] := List.getElem?_eq_getElem (by omega)
    have hbranch : s.mapBlockIndex.Branch node (most.take (i + 1)) most[i] := by
      refine ⟨hmost.isPath.take (i + 1), ?_, ?_⟩
      · intro k hk
        exact hmost.nodes k (List.mem_of_mem_take hk)
      · rw [List.getLast?_take, if_neg (by omega), Nat.add_sub_cancel, hk]
        rfl
    have hshort : (most.take i)[most.length - 1]? = none := by
      rw [List.getElem?_eq_none_iff, List.length_take]
      omega
    have hnot : ¬ CChain.contains ((most.take i).map some) tip pindex := by
      simp only [CChain.contains, CChain.at', hheight, List.getElem?_map, hshort]
      simp
    have hat : s.chainMostWork.at' ((most.take i).map some).length = some most[i] := by
      rw [hchain, CChain.at', List.length_map, List.length_take, min_eq_left (by omega),
        List.getElem?_map, hk]
      rfl
    simp only [connectTips, hlookup, Option.bind_eq_bind, Option.bind_some]
    rw [if_neg hnot, hat]
    simp only [Option.bind_some, h.setTip_path (hmost.isPath.take i) hbranch]
    exact ih (i + 1) fuel (by omega) (by omega)

theorem greatest_candidates {q : Uint256 × CBlockIndexEntry}
    (h : greatest address s.candidates = some q) :
    q.1 ∈ s.setBlockIndexValid ∧ s.mapBlockIndex.lookup q.1 = some q.2 ∧
      ∀ k ∈ s.setBlockIndexValid,
        s.mapBlockIndex.rank address k ≤ s.mapBlockIndex.rank address q.1 := by
  obtain ⟨hmem, hmax⟩ := greatest_spec h
  simp only [candidates, List.mem_filterMap, Option.map_eq_some_iff] at hmem
  obtain ⟨k, hk, pindex, hlookup, rfl⟩ := hmem
  refine ⟨hk, hlookup, ?_⟩
  intro k' hk'
  cases hlookup' : s.mapBlockIndex.lookup k' with
  | none =>
    simp only [BlockMap.rank, hlookup', Option.map_none]
    exact bot_le
  | some pindex' =>
    have hle := hmax (k', pindex') (by
      simp only [candidates, List.mem_filterMap, Option.map_eq_some_iff]
      exact ⟨k', hk', pindex', hlookup', rfl⟩)
    simp only [BlockMap.rank, hlookup', hlookup, Option.map_some]
    exact WithBot.coe_le_coe.mpr hle

variable (address) in
/-- The chain of most work ends in the best of its old tip and the candidates. -/
theorem findMostWorkChain_path (h : s.mapBlockIndex.Tree node root)
    (hpath : IsPath s.mapBlockIndex.parent most) (hnodes : ∀ k ∈ most, node k)
    (hmost : s.chainMostWork = most.map some) (hvalid : ∀ k ∈ s.setBlockIndexValid, node k)
    (hne : s.setBlockIndexValid ≠ []) :
    ∃ path best, findMostWorkChain address s = some { s with chainMostWork := path.map some } ∧
      s.mapBlockIndex.Branch node path best ∧
      (∀ k ∈ s.setBlockIndexValid,
        s.mapBlockIndex.rank address k ≤ s.mapBlockIndex.rank address best) ∧
      ∀ k, most.getLast? = some k →
        s.mapBlockIndex.rank address k ≤ s.mapBlockIndex.rank address best := by
  cases hgreatest : greatest address s.candidates with
  | none =>
    obtain ⟨k, hk⟩ := List.exists_mem_of_ne_nil _ hne
    obtain ⟨pindex, hlookup⟩ := h.held k (hvalid k hk)
    have hmem : (k, pindex) ∈ s.candidates := by
      simp only [candidates, List.mem_filterMap, Option.map_eq_some_iff]
      exact ⟨k, hk, pindex, hlookup, rfl⟩
    rw [greatest_eq_none_iff.mp hgreatest] at hmem
    contradiction
  | some new =>
    obtain ⟨hnew, hlookup, hmax⟩ := greatest_candidates hgreatest
    obtain ⟨path, hbranch⟩ := h.exists_branch (hvalid new.1 hnew)
    have hset := h.setTip_path hpath hbranch
    rw [← hmost] at hset
    have htip : s.chainMostWork.tip = most.getLast? := by
      rw [CChain.tip, hmost, List.getLast?_map]
      cases most.getLast? <;> rfl
    cases hlast : most.getLast? with
    | none =>
      refine ⟨path, new.1, ?_, hbranch, hmax, by simp⟩
      simp [findMostWorkChain, hgreatest, htip, hlast, hset]
    | some old =>
      have hold : node old := hnodes old (List.mem_of_getLast? hlast)
      obtain ⟨pindex, holdLookup⟩ := h.held old hold
      have hranks : s.mapBlockIndex.rank address old = workRank address (old, pindex) ∧
          s.mapBlockIndex.rank address new.1 = workRank address new := by
        simp only [BlockMap.rank, holdLookup, hlookup, Option.map_some]
        exact ⟨rfl, rfl⟩
      by_cases hless : blockIndexWorkComparator address (old, pindex) new
      · refine ⟨path, new.1, ?_, hbranch, hmax, ?_⟩
        · simp [findMostWorkChain, hgreatest, htip, hlast, holdLookup, hless, hset]
        · intro k hk
          obtain rfl := Option.some.inj hk
          rw [hranks.1, hranks.2]
          exact WithBot.coe_le_coe.mpr (blockIndexWorkComparator_iff.mp hless).le
      · refine ⟨most, old, ?_, ⟨hpath, hnodes, hlast⟩, ?_, ?_⟩
        · simp [findMostWorkChain, hgreatest, htip, hlast, holdLookup, hless, ← hmost]
        · intro k hk
          refine (hmax k hk).trans ?_
          rw [blockIndexWorkComparator_iff, not_lt] at hless
          rw [hranks.1, hranks.2]
          exact WithBot.coe_le_coe.mpr hless
        · intro k hk
          obtain rfl := Option.some.inj hk
          exact le_rfl

variable (address) in
/-- Both chains become the path to the best of the old tip and the candidates. -/
theorem activateBestChain_path (h : s.mapBlockIndex.Tree node root)
    (hpath : IsPath s.mapBlockIndex.parent active) (hnodes : ∀ k ∈ active, node k)
    (hactive : s.chainActive = active.map some) (hmost : s.chainMostWork = active.map some)
    (hvalid : ∀ k ∈ s.setBlockIndexValid, node k) (hne : s.setBlockIndexValid ≠ []) :
    ∃ path best, activateBestChain address s =
        some (true, { s with chainActive := path.map some, chainMostWork := path.map some }) ∧
      s.mapBlockIndex.Branch node path best ∧
      (∀ k ∈ s.setBlockIndexValid,
        s.mapBlockIndex.rank address k ≤ s.mapBlockIndex.rank address best) ∧
      ∀ k, active.getLast? = some k →
        s.mapBlockIndex.rank address k ≤ s.mapBlockIndex.rank address best := by
  obtain ⟨path, best, hfind, hbranch, hmax, hold⟩ :=
    findMostWorkChain_path address h hpath hnodes hmost hvalid hne
  refine ⟨path, best, ?_, hbranch, hmax, hold⟩
  have htip : CChain.tip (path.map some) = some best := by
    rw [CChain.tip, List.getLast?_map, hbranch.last]
    rfl
  obtain ⟨i, hdisconnect⟩ := disconnectTips_path (s := { s with chainMostWork := path.map some })
    h hpath hnodes hbranch rfl active.length (active.length + 1) le_rfl le_rfl
  have hconnect := connectTips_path (s := { s with chainMostWork := path.map some })
    h hbranch rfl (path.length - i) i (path.length + 1) rfl (by omega)
  rw [List.take_length, ← hactive] at hdisconnect
  simp only [activateBestChain, hfind, Option.bind_eq_bind, Option.bind_some, htip]
  rw [show s.chainActive.length = active.length by rw [hactive, List.length_map], hdisconnect]
  simp only [Option.bind_some, if_true, List.length_map, hconnect]

end ChainState

end Dims
