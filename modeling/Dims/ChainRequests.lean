import Dims.BestChain
import Dims.OriginRequest

/-!
# Which blocks are asked for

The actions that track the origin address go back from the tip of the active chain. What
they ask for follows the block they are at on the branch of most work.
-/

namespace Dims

namespace BlockMap

/-- What is met on the way back from an entry. -/
def pathBack (m : BlockMap) : ℕ → Option Uint256 → CBlockIndex
  | 0, _ => []
  | _ + 1, none => []
  | fuel + 1, some hash => hash :: pathBack m fuel (m.parent hash)

theorem pathBack_path {m : BlockMap} {path : List Uint256} (hpath : IsPath m.parent path) (n : ℕ) :
    ∀ fuel, n < path.length → n < fuel →
      m.pathBack fuel path[n]? = (path.take (n + 1)).reverse := by
  induction n with
  | zero =>
    intro fuel hn hfuel
    obtain ⟨fuel, rfl⟩ : ∃ k, fuel = k + 1 := ⟨fuel - 1, by omega⟩
    have hk : path[0]? = some path[0] := List.getElem?_eq_getElem hn
    rw [List.take_add_one, hk, pathBack, hpath.root _ hk]
    cases fuel <;> simp [pathBack]
  | succ n ih =>
    intro fuel hn hfuel
    obtain ⟨fuel, rfl⟩ : ∃ k, fuel = k + 1 := ⟨fuel - 1, by omega⟩
    have hk : path[n + 1]? = some path[n + 1] := List.getElem?_eq_getElem hn
    have htake : path.take (n + 1 + 1) = path.take (n + 1) ++ [path[n + 1]] := by
      rw [List.take_add_one, hk]
      rfl
    rw [hk, pathBack, hpath.link n _ hk, ih fuel (by omega) (by omega), htake,
      List.reverse_append]
    rfl

end BlockMap

namespace ChainState

open CBlockHeader OriginRequest

/-- The tip of the active chain, as it is gone back from. -/
def tipIndex (s : ChainState) : CBlockIndex :=
  s.mapBlockIndex.pathBack s.mapBlockIndex.entries.length s.chainActive.tip

variable {H : HashFunctions} {address : Uint256 → ℕ} {root base : Uint256} {s : ChainState}
  {accepted : List CBlockHeader}

theorem Follows.tipIndex_eq (h : Follows H address root base accepted s) {path : List Uint256}
    (hactive : s.chainActive = path.map some) :
    s.tipIndex = path.reverse ∧ path.Nodup := by
  obtain ⟨tip, hpath, hnodes, hlast⟩ := h.branch hactive
  have hlen : 0 < path.length := by
    rw [List.length_pos_iff]
    rintro rfl
    contradiction
  have htip : s.chainActive.tip = path[path.length - 1]? := by
    rw [CChain.tip, hactive, List.getLast?_map, List.getLast?_eq_getElem?]
    cases path[path.length - 1]? <;> rfl
  have hfuel := h.filed.tree.length_le_entries hpath hnodes
  refine ⟨?_, hpath.nodup⟩
  rw [tipIndex, htip, BlockMap.pathBack_path hpath _ _ (by omega) (by omega),
    Nat.sub_add_cancel hlen, List.take_length]

theorem requestBlocks_path {path : List Uint256} (hnodup : path.Nodup)
    (asked : ℕ → ℕ → ℕ) {confirmationNumber i : ℕ} {action : OriginRequest.CTrackOriginAddressAction}
    (hi : path[i]? = some action.currentHash) (hconfirmed : i + confirmationNumber < path.length) :
    ∃ after, action.requestBlocks asked confirmationNumber path.reverse = some after ∧
      after.requests =
        [((path.take (path.length - confirmationNumber)).drop (i + 1)).take maxMerkleNumber] := by
  have hchain : confirmedChain confirmationNumber path.reverse =
      (path.take (path.length - confirmationNumber)).reverse := by
    rw [confirmedChain, List.drop_reverse]
  have hplace : (path.take (path.length - confirmationNumber))[i]? = some action.currentHash := by
    rw [List.getElem?_take_of_lt (by omega), hi]
  have hmem : action.currentHash ∈ confirmedChain confirmationNumber path.reverse := by
    rw [hchain, List.mem_reverse]
    exact List.mem_of_getElem? hplace
  obtain ⟨newer, older, hsplit, hcollected⟩ := collectBlocks_of_mem hmem []
  have hpart : path.take (path.length - confirmationNumber) =
      older.reverse ++ action.currentHash :: newer.reverse := by
    rw [← List.reverse_inj, ← hchain, hsplit]
    simp
  -- the hash is met at one place only
  have hlen : older.length = i := by
    have hnodup' := hnodup.sublist (List.take_sublist (path.length - confirmationNumber) path)
    have hother : (path.take (path.length - confirmationNumber))[older.length]? =
        some action.currentHash := by
      rw [hpart, List.getElem?_append_right (by simp)]
      simp
    exact (List.getElem?_inj (List.getElem?_eq_some_iff.mp hother).1 hnodup').mp
      (hother.trans hplace.symm)
  rw [requestBlocks_eq, if_neg (List.ne_nil_of_mem hmem), hcollected, List.nil_append]
  refine ⟨_, rfl, ?_⟩
  have hdrop : (path.take (path.length - confirmationNumber)).drop (i + 1) = newer.reverse := by
    rw [hpart, ← hlen, ← List.length_reverse, List.drop_append]
    simp
  rw [hdrop]
  rfl

/-- Both actions ask for the headers behind the block they are at, in the order of the branch
of most work and without those that are not confirmed, if that block is confirmed. -/
theorem requestFiltered_bestBranch (hs : Reached H address root base accepted s) :
    ∃ branch, IsBranch H accepted root branch ∧
      (∀ other, IsBranch H accepted root other → base + work other ≤ base + work branch) ∧
      ∀ (confirmationNumber i : ℕ) (action : OriginRequest.CTrackOriginAddressAction),
        (hashes H root branch)[i]? = some action.currentHash →
        i + confirmationNumber ≤ branch.length →
        ∃ tracker monitor,
          Tracker.requestFiltered confirmationNumber s.tipIndex action = some tracker ∧
          Monitor.requestFiltered confirmationNumber s.tipIndex action = some monitor ∧
          tracker.requests = monitor.requests ∧
          tracker.requests = [(((branch.take (branch.length - confirmationNumber)).drop i).map
            fun block => block.getHash H).take maxMerkleNumber] := by
  obtain ⟨branch, hactive, -, -, hbranch, hbest⟩ := hs.follows.bestBranch
  refine ⟨branch, hbranch, hbest, ?_⟩
  intro confirmationNumber i action hi hconfirmed
  obtain ⟨htip, hnodup⟩ := hs.follows.tipIndex_eq hactive
  have hlen : (hashes H root branch).length = branch.length + 1 := by simp [hashes]
  have hpart : ((hashes H root branch).take
      ((hashes H root branch).length - confirmationNumber)).drop (i + 1) =
      ((branch.take (branch.length - confirmationNumber)).drop i).map
        fun block => block.getHash H := by
    rw [hlen, show branch.length + 1 - confirmationNumber =
      branch.length - confirmationNumber + 1 by omega, hashes, List.take_succ_cons,
      List.drop_succ_cons, ← List.map_take, ← List.map_drop]
  have hbelow : i + confirmationNumber < (hashes H root branch).length := by omega
  obtain ⟨tracker, htracker, hasked⟩ := requestBlocks_path hnodup (fun all _ => all) hi hbelow
  obtain ⟨monitor, hmonitor, hasked'⟩ :=
    requestBlocks_path hnodup (fun _ requested => requested) hi hbelow
  rw [← htip] at htracker hmonitor
  rw [hpart] at hasked hasked'
  exact ⟨tracker, monitor, htracker, hmonitor, hasked.trans hasked'.symm, hasked⟩

open NumberedHeaders in
theorem requestFiltered_received :
    ∃ branch, IsBranch NumberedHeaders.hashes (taken BitVec.toNat received).1 1 branch ∧
      (∀ other, IsBranch NumberedHeaders.hashes (taken BitVec.toNat received).1 1 other →
        0 + work other ≤ 0 + work branch) ∧
      ∀ (confirmationNumber i : ℕ) (action : OriginRequest.CTrackOriginAddressAction),
        (CBlockHeader.hashes NumberedHeaders.hashes 1 branch)[i]? = some action.currentHash →
        i + confirmationNumber ≤ branch.length →
        ∃ tracker monitor,
          Tracker.requestFiltered confirmationNumber (taken BitVec.toNat received).2.tipIndex
            action = some tracker ∧
          Monitor.requestFiltered confirmationNumber (taken BitVec.toNat received).2.tipIndex
            action = some monitor ∧
          tracker.requests = monitor.requests ∧
          tracker.requests = [(((branch.take (branch.length - confirmationNumber)).drop i).map
            fun block => block.getHash NumberedHeaders.hashes).take maxMerkleNumber] :=
  requestFiltered_bestBranch
    (reached BitVec.toNat received (by decide +kernel) (by decide +kernel))

-- The sixth header is not confirmed yet.
open NumberedHeaders in
example : (Tracker.requestFiltered 1 (taken BitVec.toNat received).2.tipIndex
    { currentHash := 1, blockAskedNumber := 0, requests := [], events := [] }).map
      (fun action => action.requests) = some [[4, 5]] := by decide +kernel

end ChainState

end Dims
