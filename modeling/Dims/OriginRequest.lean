import Dims.Core

/-!
# Which blocks are asked for

`requestFiltered` of both trackOriginAddressAction.cpp. From the tip of the active chain it goes
back over the blocks that are not confirmed, and then until it meets the hash of the head. The
hash is read from a file and belongs to some chain of the past.
-/

namespace Dims

/-- A block index as the hashes that are met on the way back from it. There is none for a
missing block. -/
abbrev CBlockIndex := List Uint256

namespace OriginRequest

def maxMerkleNumber : ℕ := 1000

def synchronizedTreshold : ℕ := 10

inductive ControllerEvent
  | initialSynchronizationDone
  | setScanBitcoinChainProgress (blocks : ℕ)
  deriving DecidableEq, Repr

/-- The part of the action that a request concerns, with the events that the controller has got.
A `CAskForTransactionsRequest` is given by its blocks. -/
structure CTrackOriginAddressAction where
  currentHash : Uint256
  blockAskedNumber : ℕ
  requests : List (List Uint256)
  events : List ControllerEvent
  deriving DecidableEq, Repr

/-- The first loop. No value if it comes to a missing block with steps left to take. -/
def skipUnconfirmed : ℕ → CBlockIndex → Option CBlockIndex
  | 0, index => some index
  | _ + 1, [] => none
  | n + 1, _ :: pprev => skipUnconfirmed n pprev

/-- The second loop. No value if it asks a missing block for its hash. -/
def collectBlocks (currentHash : Uint256) : CBlockIndex → List Uint256 → Option (List Uint256)
  | [], _ => none
  | hash :: pprev, requestedBlocks =>
    if currentHash ≠ hash then collectBlocks currentHash pprev (requestedBlocks ++ [hash])
    else some requestedBlocks

namespace CTrackOriginAddressAction

def processEvent (action : CTrackOriginAddressAction) (event : ControllerEvent) :
    CTrackOriginAddressAction :=
  { action with events := action.events ++ [event] }

def askForTransactions (action : CTrackOriginAddressAction) (requestedBlocks : List Uint256) :
    CTrackOriginAddressAction :=
  { action with requests := [requestedBlocks] }

/-- What both actions do. `asked` is the number that is noted, of the blocks before and behind the
truncation. No value where a missing block is dereferenced. -/
def requestBlocks (asked : ℕ → ℕ → ℕ) (confirmationNumber : ℕ) (tip : CBlockIndex)
    (action : CTrackOriginAddressAction) : Option CTrackOriginAddressAction :=
  match skipUnconfirmed confirmationNumber tip with
  | none => some (action.processEvent .initialSynchronizationDone)
  | some [] => some action
  | some index =>
    (collectBlocks action.currentHash index []).map fun collected =>
      let all := collected.reverse
      let requestedBlocks := all.take maxMerkleNumber
      let action := action.processEvent (.setScanBitcoinChainProgress all.length)
      let action := { action with blockAskedNumber := asked all.length requestedBlocks.length }
      let action :=
        if requestedBlocks.length < synchronizedTreshold then
          action.processEvent .initialSynchronizationDone
        else action
      action.askForTransactions requestedBlocks

end CTrackOriginAddressAction

namespace Tracker

/-- tracker/trackOriginAddressAction.cpp notes the number before the truncation. -/
def requestFiltered : ℕ → CBlockIndex → CTrackOriginAddressAction → Option CTrackOriginAddressAction :=
  CTrackOriginAddressAction.requestBlocks fun all _ => all

end Tracker

namespace Monitor

/-- monitor/trackOriginAddressAction.cpp notes the number behind the truncation. -/
def requestFiltered : ℕ → CBlockIndex → CTrackOriginAddressAction → Option CTrackOriginAddressAction :=
  CTrackOriginAddressAction.requestBlocks fun _ requested => requested

end Monitor

section Loops

theorem skipUnconfirmed_eq (n : ℕ) (index : CBlockIndex) :
    skipUnconfirmed n index = if n ≤ index.length then some (index.drop n) else none := by
  induction n generalizing index with
  | zero => simp [skipUnconfirmed]
  | succ n ih =>
    cases index with
    | nil => simp [skipUnconfirmed]
    | cons hash pprev => simp [skipUnconfirmed, ih]

theorem collectBlocks_of_mem {currentHash : Uint256} {index : CBlockIndex} (h : currentHash ∈ index)
    (requestedBlocks : List Uint256) :
    ∃ newer older, index = newer ++ currentHash :: older ∧
      collectBlocks currentHash index requestedBlocks = some (requestedBlocks ++ newer) := by
  induction index generalizing requestedBlocks with
  | nil => cases h
  | cons hash pprev ih =>
    rw [collectBlocks]
    split
    case isTrue hne =>
      have hrest : currentHash ∈ pprev := (List.mem_cons.mp h).resolve_left hne
      obtain ⟨newer, older, hindex, hcollected⟩ := ih hrest (requestedBlocks ++ [hash])
      refine ⟨hash :: newer, older, by rw [hindex, List.cons_append], ?_⟩
      rw [hcollected, List.append_assoc]
      rfl
    case isFalse heq =>
      exact ⟨[], pprev, by rw [not_ne_iff.mp heq, List.nil_append], by rw [List.append_nil]⟩

theorem collectBlocks_of_notMem {currentHash : Uint256} {index : CBlockIndex}
    (h : currentHash ∉ index) (requestedBlocks : List Uint256) :
    collectBlocks currentHash index requestedBlocks = none := by
  induction index generalizing requestedBlocks with
  | nil => rfl
  | cons hash pprev ih =>
    rw [collectBlocks, if_pos (List.ne_of_not_mem_cons h)]
    exact ih (List.not_mem_of_not_mem_cons h) _

end Loops

/-- The part of the chain that is confirmed, from its newest block on. -/
def confirmedChain (confirmationNumber : ℕ) (tip : CBlockIndex) : CBlockIndex :=
  tip.drop confirmationNumber

/-- No missing block is dereferenced. If a part of the chain is confirmed, the blocks that follow
the head on it are requested, the oldest first and not too many; otherwise nothing is. -/
def RequestsFollowing (confirmationNumber : ℕ) (tip : CBlockIndex) (action : CTrackOriginAddressAction)
    (result : Option CTrackOriginAddressAction) : Prop :=
  ∃ after, result = some after ∧
    if confirmedChain confirmationNumber tip = [] then after.requests = action.requests
    else ∃ newer older,
      confirmedChain confirmationNumber tip = newer ++ action.currentHash :: older ∧
        after.requests = [newer.reverse.take maxMerkleNumber]

section Requests

variable (asked : ℕ → ℕ → ℕ) (confirmationNumber : ℕ) (tip : CBlockIndex)
  (action : CTrackOriginAddressAction)

/-- Behind the first loop there is the confirmed part of the chain. -/
theorem requestBlocks_eq :
    action.requestBlocks asked confirmationNumber tip =
      if confirmedChain confirmationNumber tip = [] then
        some (if confirmationNumber ≤ tip.length then action
          else action.processEvent .initialSynchronizationDone)
      else (collectBlocks action.currentHash (confirmedChain confirmationNumber tip) []).map
        fun collected =>
          let all := collected.reverse
          let requestedBlocks := all.take maxMerkleNumber
          let action := action.processEvent (.setScanBitcoinChainProgress all.length)
          let action := { action with blockAskedNumber := asked all.length requestedBlocks.length }
          let action :=
            if requestedBlocks.length < synchronizedTreshold then
              action.processEvent .initialSynchronizationDone
            else action
          action.askForTransactions requestedBlocks := by
  rw [CTrackOriginAddressAction.requestBlocks, skipUnconfirmed_eq]
  by_cases hle : confirmationNumber ≤ tip.length
  · have hdrop : tip.drop confirmationNumber = confirmedChain confirmationNumber tip := rfl
    rw [if_pos hle, if_pos hle, hdrop]
    cases hconfirmed : confirmedChain confirmationNumber tip with
    | nil => exact (if_pos rfl).symm
    | cons hash pprev => exact (if_neg (List.cons_ne_nil _ _)).symm
  · have hempty : confirmedChain confirmationNumber tip = [] := List.drop_eq_nil_iff.mpr (by omega)
    rw [if_neg hle, if_pos hempty, if_neg hle]

/-- A head that has left the confirmed chain is looked for beyond the first block. -/
theorem requestBlocks_eq_none_iff :
    action.requestBlocks asked confirmationNumber tip = none ↔
      confirmedChain confirmationNumber tip ≠ [] ∧
        action.currentHash ∉ confirmedChain confirmationNumber tip := by
  rw [requestBlocks_eq]
  split
  case isTrue hempty => exact iff_of_false (by simp) fun h => h.1 hempty
  case isFalse hne =>
    rw [Option.map_eq_none_iff]
    by_cases hmem : action.currentHash ∈ confirmedChain confirmationNumber tip
    · obtain ⟨newer, older, -, hcollected⟩ := collectBlocks_of_mem hmem []
      exact iff_of_false (by simp [hcollected]) fun h => h.2 hmem
    · exact iff_of_true (collectBlocks_of_notMem hmem []) ⟨hne, hmem⟩

theorem requestBlocks_iff :
    RequestsFollowing confirmationNumber tip action
        (action.requestBlocks asked confirmationNumber tip) ↔
      confirmedChain confirmationNumber tip = [] ∨
        action.currentHash ∈ confirmedChain confirmationNumber tip := by
  constructor
  · rintro ⟨after, hafter, -⟩
    have hsome : ¬ action.requestBlocks asked confirmationNumber tip = none := by simp [hafter]
    rw [requestBlocks_eq_none_iff] at hsome
    by_contra hnot
    exact hsome (not_or.mp hnot)
  · intro h
    rw [requestBlocks_eq]
    by_cases hempty : confirmedChain confirmationNumber tip = []
    · refine ⟨_, if_pos hempty, ?_⟩
      rw [if_pos hempty]
      split <;> rfl
    · obtain ⟨newer, older, hfollow, hcollected⟩ := collectBlocks_of_mem (h.resolve_left hempty) []
      rw [if_neg hempty, hcollected, List.nil_append]
      refine ⟨_, rfl, ?_⟩
      rw [if_neg hempty]
      exact ⟨newer, older, hfollow, rfl⟩

end Requests

/-- Both actions request what follows the head if and only if there is no confirmed part of the
chain or the head is on it. -/
theorem requestFiltered_iff (confirmationNumber : ℕ) (tip : CBlockIndex)
    (action : CTrackOriginAddressAction) :
    (RequestsFollowing confirmationNumber tip action
        (Tracker.requestFiltered confirmationNumber tip action) ↔
      confirmedChain confirmationNumber tip = [] ∨
        action.currentHash ∈ confirmedChain confirmationNumber tip) ∧
    (RequestsFollowing confirmationNumber tip action
        (Monitor.requestFiltered confirmationNumber tip action) ↔
      confirmedChain confirmationNumber tip = [] ∨
        action.currentHash ∈ confirmedChain confirmationNumber tip) :=
  ⟨requestBlocks_iff _ confirmationNumber tip action, requestBlocks_iff _ confirmationNumber tip action⟩

/-- The block 3 was the head and has left the chain 5, 4, 2, 1 in a reorganisation. -/
theorem not_requestsFollowing_reorganised :
    ¬ RequestsFollowing 1 [5, 4, 2, 1] ⟨3, 0, [], []⟩
        (Tracker.requestFiltered 1 [5, 4, 2, 1] ⟨3, 0, [], []⟩) ∧
      ¬ RequestsFollowing 1 [5, 4, 2, 1] ⟨3, 0, [], []⟩
        (Monitor.requestFiltered 1 [5, 4, 2, 1] ⟨3, 0, [], []⟩) := by
  constructor
  · rintro ⟨after, hafter, -⟩
    cases hafter
  · rintro ⟨after, hafter, -⟩
    cases hafter

end OriginRequest

end Dims
