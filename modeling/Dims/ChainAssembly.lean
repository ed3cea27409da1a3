import Dims.TrackOriginAddressAction
import Dims.GuardedRun
import Mathlib.Data.List.Nodup
import Mathlib.Data.List.TakeWhile

/-!
# Blocks in the order of delivery

A node delivers the blocks of a chain in any order. `validPart` takes the blocks that follow
on each other at the front, and then at most one more that it searches for, so that blocks
which have arrived together may wait for a later call.
-/

namespace Dims
open HashChain

theorem find?_append_eraseP_perm {α : Type*} (p : α → Bool) (xs : List α) :
    ((xs.find? p).toList ++ xs.eraseP p).Perm xs := by
  induction xs with
  | nil => exact .refl _
  | cons x xs ih =>
    cases hx : p x with
    | true => rw [List.find?_cons_of_pos hx, List.eraseP_cons_of_pos hx]; exact .refl _
    | false =>
      have hne : ¬p x = true := by rw [hx]; decide
      rw [List.find?_cons_of_neg hne, List.eraseP_cons_of_neg hne]
      exact List.perm_middle.trans (ih.cons x)

namespace CTrackOriginAddressAction

variable {H : HashFunctions} {start : Uint256} {chain : List CMerkleBlock}

section Split

theorem splitValid_perm (lastAcceptedHash : Uint256) (blocks : List CMerkleBlock) :
    ((splitValid H lastAcceptedHash blocks).1 ++ (splitValid H lastAcceptedHash blocks).2).Perm
      blocks := by
  induction blocks generalizing lastAcceptedHash with
  | nil => exact .refl _
  | cons block blocks ih =>
    rw [splitValid]
    split
    · exact (ih (block.getHash H)).cons block
    · exact (find?_append_eraseP_perm _ _).trans (List.reverse_perm _)

/-- The blocks of the chain that are among the given ones, up to the first that is not. -/
def covered (chain blocks : List CMerkleBlock) : List CMerkleBlock := chain.takeWhile (· ∈ blocks)

@[simp] theorem covered_nil (chain : List CMerkleBlock) : covered chain [] = [] := by
  cases chain with
  | nil => rfl
  | cons block chain => exact List.takeWhile_cons_of_neg (by simp)

theorem mem_of_mem_covered {blocks : List CMerkleBlock} {b : CMerkleBlock}
    (h : b ∈ covered chain blocks) : b ∈ blocks :=
  of_decide_eq_true (List.mem_takeWhile_imp (p := fun c => decide (c ∈ blocks)) h)

theorem covered_congr {blocks blocks' : List CMerkleBlock}
    (h : ∀ b ∈ chain, b ∈ blocks ↔ b ∈ blocks') : covered chain blocks = covered chain blocks' := by
  induction chain with
  | nil => rfl
  | cons block chain ih =>
    obtain ⟨hblock, hrest⟩ := List.forall_mem_cons.mp h
    have hchain : chain.takeWhile (· ∈ blocks) = chain.takeWhile (· ∈ blocks') := ih hrest
    rw [covered, covered, List.takeWhile_cons, List.takeWhile_cons, hchain]
    simp only [hblock]

theorem covered_cons {block : CMerkleBlock} {blocks : List CMerkleBlock} :
    covered (block :: chain) blocks = if block ∈ blocks then block :: covered chain blocks else [] := by
  rw [covered, List.takeWhile_cons]
  simp only [decide_eq_true_eq]
  rfl

variable (H) in
/-- A block follows on the place that it names and on no other. -/
def Fits (lastAcceptedHash : Uint256) (chain : List CMerkleBlock) (b : CMerkleBlock) : Prop :=
  ∀ first second, chain = first ++ second →
    b.hashPrevBlock = tip (CMerkleBlock.getHash H) lastAcceptedHash first → second.head? = some b

theorem Fits.tail {lastAcceptedHash : Uint256} {b c : CMerkleBlock}
    (h : Fits H lastAcceptedHash (c :: chain) b) : Fits H (c.getHash H) chain b :=
  fun first second hsplit hprev => h (c :: first) second (by rw [hsplit]; rfl) hprev

theorem dropLast_cons_prefix {block : CMerkleBlock} {found blocks : List CMerkleBlock} :
    (block :: found).dropLast <+: block :: blocks ↔ found.dropLast <+: blocks := by
  cases found with
  | nil => exact iff_of_true List.nil_prefix List.nil_prefix
  | cons b found => rw [List.dropLast_cons_cons, List.cons_prefix_cons, and_iff_right rfl]

/-- All that is covered is accepted if and only if the covered blocks but the last stand at the
front in the order of the chain: the last may be the one that is searched for. -/
theorem splitValid_eq_covered_iff {lastAcceptedHash : Uint256} {blocks : List CMerkleBlock}
    (hlinked : Linked CMerkleBlock.hashPrevBlock (CMerkleBlock.getHash H) lastAcceptedHash chain)
    (hnodup : chain.Nodup) (hfits : ∀ b ∈ blocks, Fits H lastAcceptedHash chain b) :
    (splitValid H lastAcceptedHash blocks).1 = covered chain blocks ↔
      (covered chain blocks).dropLast <+: blocks := by
  induction blocks generalizing lastAcceptedHash chain with
  | nil =>
    rw [covered_nil]
    exact iff_of_true rfl List.nil_prefix
  | cons block blocks ih =>
    rw [splitValid]
    split
    case isTrue hnext =>
      have hhead := hfits block List.mem_cons_self [] chain rfl hnext
      obtain ⟨rest, rfl⟩ := List.head?_eq_some_iff.mp hhead
      obtain ⟨hnot, hrest⟩ := List.nodup_cons.mp hnodup
      have hcovered : covered (block :: rest) (block :: blocks) = block :: covered rest blocks := by
        rw [covered_cons, if_pos List.mem_cons_self]
        refine congrArg (block :: ·) (covered_congr fun c hc => ?_)
        have hne : c ≠ block := fun heq => hnot (heq ▸ hc)
        rw [List.mem_cons, or_iff_right hne]
      have hlater := ih hlinked.2 hrest fun b hb => (hfits b (List.mem_cons_of_mem _ hb)).tail
      rw [hcovered, dropLast_cons_prefix, ← hlater]
      exact List.cons_inj_right block
    case isFalse hnext =>
      change (((block :: blocks).reverse.find? fun b => lastAcceptedHash = b.hashPrevBlock).toList =
        _) ↔ _
      -- only the next block of the chain can be found
      have hfound : ∀ b, (block :: blocks).reverse.find?
          (fun b => lastAcceptedHash = b.hashPrevBlock) = some b → chain.head? = some b := by
        intro b hb
        have hin := List.mem_reverse.mp (List.mem_of_find?_eq_some hb)
        have hprev : lastAcceptedHash = b.hashPrevBlock := by simpa using List.find?_some hb
        exact hfits b hin [] chain rfl hprev.symm
      cases hsearch : (block :: blocks).reverse.find?
          fun b => lastAcceptedHash = b.hashPrevBlock with
      | none =>
        have hnone : covered chain (block :: blocks) = [] := by
          cases chain with
          | nil => rfl
          | cons c rest =>
            rw [covered_cons, if_neg]
            intro hin
            have hmissed := List.find?_eq_none.mp hsearch c (List.mem_reverse.mpr hin)
            exact hmissed (decide_eq_true hlinked.1.symm)
        rw [hnone]
        exact iff_of_true rfl List.nil_prefix
      | some b =>
        obtain ⟨rest, rfl⟩ := List.head?_eq_some_iff.mp (hfound b hsearch)
        have hin := List.mem_reverse.mp (List.mem_of_find?_eq_some hsearch)
        have hne : b ≠ block := by
          rintro rfl
          exact hnext hlinked.1
        rw [covered_cons, if_pos hin, Option.toList_some]
        cases covered rest (block :: blocks) with
        | nil => exact iff_of_true rfl List.nil_prefix
        | cons c found =>
          rw [List.dropLast_cons_cons, List.cons_prefix_cons]
          exact iff_of_false (by simp) fun h => hne h.1

end Split

end CTrackOriginAddressAction

/-- The action, with the blocks that the node has delivered so far. -/
structure ChainDelivery where
  action : CTrackOriginAddressAction
  delivered : List CMerkleBlock

namespace ChainDelivery
open CTrackOriginAddressAction

variable (H : HashFunctions) (key : ℕ)

def init (start : Uint256) : ChainDelivery := ⟨.start start, []⟩

def deliver (s : ChainDelivery) (batch : List CMerkleBlock) : ChainDelivery :=
  ⟨s.action.includeBlocks H key batch, s.delivered ++ batch⟩

/-- What is covered by the delivered blocks is accepted, the accepted blocks are linked, and
what is delivered and not accepted is kept once. -/
structure Assembled (start : Uint256) (chain : List CMerkleBlock) (s : ChainDelivery) : Prop where
  longest : s.action.accepted key = covered chain s.delivered
  linked : Linked CMerkleBlock.hashPrevBlock (CMerkleBlock.getHash H) start (s.action.accepted key)
  kept : ∀ b ∈ s.delivered, b ∉ s.action.accepted key → (s.action.pending key).count b = 1

/-- The kept and the new blocks, in the order in which `validPart` goes through them. -/
def input (s : ChainDelivery) (batch : List CMerkleBlock) : List CMerkleBlock :=
  s.action.pending key ++ batch

/-- The next blocks of the chain that the input covers. -/
def next (chain : List CMerkleBlock) (s : ChainDelivery) (batch : List CMerkleBlock) :
    List CMerkleBlock :=
  covered (chain.drop (s.action.accepted key).length) (s.input key batch)

/-- The next blocks of the chain but the last stand at the front of the input in order, and
what stays out is in the input once. -/
structure InOrder (chain : List CMerkleBlock) (s : ChainDelivery) (batch : List CMerkleBlock) :
    Prop where
  front : (s.next key chain batch).dropLast <+: s.input key batch
  once : ∀ b ∈ s.input key batch, b ∉ s.action.accepted key → b ∉ s.next key chain batch →
    (s.input key batch).count b = 1

/-- The accepted and the kept blocks are those that have been delivered. -/
structure Collected (start : Uint256) (chain : List CMerkleBlock) (s : ChainDelivery) : Prop where
  current : s.action.currentHash = start
  perm : (s.action.accepted key ++ s.action.pending key).Perm s.delivered
  subset : s.delivered ⊆ chain

variable {H key} {start : Uint256} {chain batch : List CMerkleBlock} {s : ChainDelivery}

theorem accepted_deliver : (s.deliver H key batch).action.accepted key =
    s.action.accepted key ++ (splitValid H (tip (CMerkleBlock.getHash H) s.action.currentHash
      (s.action.accepted key)) (s.input key batch)).1 := by
  rw [deliver, accepted_includeBlocks, if_pos rfl, input]

theorem pending_deliver : (s.deliver H key batch).action.pending key =
    (splitValid H (tip (CMerkleBlock.getHash H) s.action.currentHash (s.action.accepted key))
      (s.input key batch)).2 := by
  rw [deliver, pending_includeBlocks, if_pos rfl, input]

theorem Collected.deliver (h : Collected key start chain s) (hbatch : batch ⊆ chain) :
    Collected key start chain (s.deliver H key batch) := by
  refine ⟨h.current, ?_, List.append_subset.mpr ⟨h.subset, hbatch⟩⟩
  rw [accepted_deliver, pending_deliver, List.append_assoc]
  refine ((splitValid_perm _ _).append_left _).trans ?_
  rw [input, ← List.append_assoc]
  exact h.perm.append_right batch

/-- A block that is kept or delivered is one of the chain, and one that is not accepted is kept
if it has been delivered. -/
theorem Collected.mem_input_iff (h : Collected key start chain s) {b : CMerkleBlock}
    (hnot : b ∉ s.action.accepted key) : b ∈ s.input key batch ↔ b ∈ s.delivered ++ batch := by
  have hmem := h.perm.mem_iff (a := b)
  rw [List.mem_append, or_iff_right hnot] at hmem
  rw [input, List.mem_append, List.mem_append, hmem]

theorem Collected.input_subset (h : Collected key start chain s) (hbatch : batch ⊆ chain) :
    s.input key batch ⊆ chain := by
  refine List.append_subset.mpr ⟨fun b hb => h.subset (h.perm.mem_iff.mp ?_), hbatch⟩
  exact List.mem_append_right _ hb

theorem Assembled.covered_append (hdistinct : chain.Nodup) (hcollected : Collected key start chain s)
    (h : Assembled H key start chain s) :
    covered chain (s.delivered ++ batch) = s.action.accepted key ++ s.next key chain batch := by
  have hprefix : s.action.accepted key <+: chain := h.longest ▸ List.takeWhile_prefix _
  obtain ⟨rest, rfl⟩ := hprefix
  have hnext : s.next key (s.action.accepted key ++ rest) batch =
      covered rest (s.delivered ++ batch) := by
    rw [next, List.drop_left]
    refine covered_congr fun b hb => hcollected.mem_input_iff fun hin => ?_
    exact (List.nodup_append.mp hdistinct).2.2 b hin b hb rfl
  rw [hnext]
  refine List.takeWhile_append_of_pos fun b hb => decide_eq_true ?_
  rw [h.longest] at hb
  exact List.mem_append_left _ (mem_of_mem_covered hb)

theorem Assembled.splitValid_eq_next_iff
    (hlinked : Linked CMerkleBlock.hashPrevBlock (CMerkleBlock.getHash H) start chain)
    (hdistinct : (start :: chain.map (CMerkleBlock.getHash H)).Nodup) (hbatch : batch ⊆ chain)
    (hcollected : Collected key start chain s) (h : Assembled H key start chain s) :
    (splitValid H (tip (CMerkleBlock.getHash H) s.action.currentHash (s.action.accepted key))
      (s.input key batch)).1 = s.next key chain batch ↔
        (s.next key chain batch).dropLast <+: s.input key batch := by
  have hprefix : s.action.accepted key <+: chain := h.longest ▸ List.takeWhile_prefix _
  obtain ⟨rest, hrest⟩ := hprefix
  have hdrop : chain.drop (s.action.accepted key).length = rest := by
    rw [← hrest, List.drop_left]
  have hnodup : (s.action.accepted key ++ rest).Nodup := by
    rw [hrest]
    exact (List.nodup_cons.mp hdistinct).2.of_map
  rw [hcollected.current, next, hdrop]
  rw [← hrest] at hlinked
  refine splitValid_eq_covered_iff (linked_append.mp hlinked).2 (List.nodup_append.mp hnodup).2.1
    fun b hb first second hfirst hprev => ?_
  rw [← tip_append] at hprev
  rw [hfirst, ← List.append_assoc] at hrest hlinked
  rw [← hrest] at hdistinct
  exact hlinked.head_of_prev hdistinct (hrest ▸ hcollected.input_subset hbatch hb) hprev

/-- A call keeps the chain assembled if and only if its input is in order. -/
theorem Assembled.deliver_iff
    (hlinked : Linked CMerkleBlock.hashPrevBlock (CMerkleBlock.getHash H) start chain)
    (hdistinct : (start :: chain.map (CMerkleBlock.getHash H)).Nodup)
    (hbatch : batch ⊆ chain) (hcollected : Collected key start chain s)
    (h : Assembled H key start chain s) :
    Assembled H key start chain (s.deliver H key batch) ↔ InOrder key chain s batch := by
  have hsplit := h.splitValid_eq_next_iff hlinked hdistinct hbatch hcollected
  have hcovered : covered chain (s.delivered ++ batch) = _ :=
    h.covered_append (List.nodup_cons.mp hdistinct).2.of_map hcollected
  have hlongest : (s.deliver H key batch).action.accepted key =
      covered chain (s.delivered ++ batch) ↔
        (s.next key chain batch).dropLast <+: s.input key batch := by
    rw [accepted_deliver, hcovered, List.append_cancel_left_eq, hsplit]
  -- what is not accepted by the call is kept as often as it was in the input
  have hcount : (s.next key chain batch).dropLast <+: s.input key batch →
      ∀ b, b ∉ s.next key chain batch →
        ((s.deliver H key batch).action.pending key).count b = (s.input key batch).count b := by
    intro hfront b hb
    have hperm := (splitValid_perm (H := H) (tip (CMerkleBlock.getHash H) s.action.currentHash
      (s.action.accepted key)) (s.input key batch)).count_eq b
    rw [List.count_append, hsplit.mpr hfront, List.count_eq_zero_of_not_mem hb, Nat.zero_add] at hperm
    rw [pending_deliver, hperm]
  constructor
  · intro hnew
    have hfront := hlongest.mp hnew.longest
    refine ⟨hfront, fun b hb hnot hlater => ?_⟩
    rw [← hcount hfront b hlater]
    refine hnew.kept b ((hcollected.mem_input_iff hnot).mp hb) ?_
    rw [accepted_deliver, hsplit.mpr hfront]
    exact fun hin => (List.mem_append.mp hin).elim hnot hlater
  · intro hok
    refine ⟨hlongest.mpr hok.front, ?_, fun b hb hnot => ?_⟩
    · rw [accepted_deliver]
      refine linked_append.mpr ⟨h.linked, ?_⟩
      rw [← hcollected.current]
      exact linked_splitValid
    · rw [accepted_deliver, hsplit.mpr hok.front, List.mem_append, not_or] at hnot
      rw [hcount hok.front b hnot.2]
      exact hok.once b ((hcollected.mem_input_iff hnot.1).mpr hb) hnot.1 hnot.2

/-- Whatever the batches are, the chain is assembled after every call if and only if the input
of every call is in order. -/
theorem assembled_iff
    (hlinked : Linked CMerkleBlock.hashPrevBlock (CMerkleBlock.getHash H) start chain)
    (hdistinct : (start :: chain.map (CMerkleBlock.getHash H)).Nodup)
    {batches : List (List CMerkleBlock)} (hbatches : ∀ batch ∈ batches, batch ⊆ chain) :
    (∀ past, past <+: batches →
      Assembled H key start chain (GuardedRun.run (deliver H key) (init start) past)) ↔
    GuardedRun.Guarded (deliver H key) (InOrder key chain) (init start) batches := by
  refine GuardedRun.always_iff_of_mem (P := (· ⊆ chain))
    (fun s batch hbatch (hs : Collected key start chain s) => hs.deliver hbatch)
    (fun s batch hbatch hs hgood => hgood.deliver_iff hlinked hdistinct hbatch hs) hbatches ?_ ?_
  · exact ⟨rfl, .refl _, List.nil_subset _⟩
  · exact ⟨(covered_nil chain).symm, trivial, nofun⟩

end ChainDelivery

namespace ReversedDelivery
open ChainDelivery

/-- The digest is the sum of the bytes. -/
def hashes : HashFunctions :=
  ⟨fun bytes => BitVec.ofNat 256 (bytes.map UInt8.toNat).sum, fun _ => 0⟩

def first : CMerkleBlock := ⟨⟨0, 0, 0, 1, 0, 0⟩, ⟨0, [], [], false⟩⟩

def second : CMerkleBlock := ⟨⟨0, 1, 0, 1, 0, 0⟩, ⟨0, [], [], false⟩⟩

def third : CMerkleBlock := ⟨⟨0, 2, 0, 1, 0, 0⟩, ⟨0, [], [], false⟩⟩

def fourth : CMerkleBlock := ⟨⟨0, 3, 0, 1, 0, 0⟩, ⟨0, [], [], false⟩⟩

set_option maxRecDepth 10000 in
theorem linked_four : Linked CMerkleBlock.hashPrevBlock (CMerkleBlock.getHash hashes) 0
    [first, second, third, fourth] :=
  ⟨by decide, by decide, by decide, by decide, trivial⟩

set_option maxRecDepth 10000 in
/-- Two blocks in order and one that has to wait are taken as they should be; of two blocks of
which the later one comes a call earlier, the later one is left behind. -/
theorem second_waits :
    (∀ past, past <+: [[first, second], [fourth], []] →
      Assembled hashes 0 0 [first, second, third, fourth]
        (GuardedRun.run (deliver hashes 0) (init 0) past)) ∧
    ¬∀ past, past <+: [[second], [first]] →
      Assembled hashes 0 0 [first, second, third, fourth]
        (GuardedRun.run (deliver hashes 0) (init 0) past) := by
  constructor
  · refine (assembled_iff linked_four (by decide) (by decide)).mpr ?_
    exact ⟨⟨by decide, by decide⟩, ⟨by decide, by decide⟩, ⟨by decide, by decide⟩, trivial⟩
  · rw [assembled_iff linked_four (by decide) (by decide)]
    rintro ⟨-, hsecond, -⟩
    exact absurd hsecond.front (by decide)

set_option maxRecDepth 10000 in
/-- Of two blocks that arrive together, the later one first, only the earlier is accepted. -/
theorem not_always_assembled :
    ¬∀ (H : HashFunctions) (key : ℕ) (start : Uint256) (chain : List CMerkleBlock)
      (batches : List (List CMerkleBlock)),
      Linked CMerkleBlock.hashPrevBlock (CMerkleBlock.getHash H) start chain →
      (start :: chain.map (CMerkleBlock.getHash H)).Nodup → batches.flatten.Perm chain →
      ∀ past, past <+: batches →
        Assembled H key start chain (GuardedRun.run (deliver H key) (init start) past) := by
  intro hall
  have hlate := hall hashes 0 0 [first, second] [[second, first]] ⟨by decide, by decide, trivial⟩
    (by decide) (List.Perm.swap first second []) _ (List.prefix_refl _)
  exact absurd hlate.longest (by decide)

end ReversedDelivery

end Dims
