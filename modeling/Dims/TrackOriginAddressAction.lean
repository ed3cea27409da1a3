import Dims.BitcoinNodeMedium
import Dims.OrderedMap
import Dims.HashChain

/-!
# Following the bitcoin chain

`analyseOutput` of trackOriginAddressAction.cpp: the blocks that each node reports
are put in order after the scanned head, and what all nodes have accepted is compared
and handed to the scanner. A medium is named by its address in memory, which orders
the maps.
-/

namespace Dims

/-- The action with the transactions it has handed to the origin address scanner and
the header in the head file. -/
structure CTrackOriginAddressAction where
  blocks : OrderedMap ℕ (List CMerkleBlock)
  acceptedBlocks : OrderedMap ℕ (List CMerkleBlock)
  transactions : OrderedMap ℕ BlockTransactions
  currentHash : Uint256
  updated : ℕ
  head : Option CBlockHeader
  handed : List CTransaction

namespace CTrackOriginAddressAction

variable (H : HashFunctions)

def start (currentHash : Uint256) : CTrackOriginAddressAction :=
  ⟨.empty, .empty, .empty, currentHash, 0, none, []⟩

section ValidPart

/-- The loop of `validPart`: the blocks that follow on each other, then at most one
more that is found from the end; and the rejected rest in reverse order. -/
def splitValid : Uint256 → List CMerkleBlock → List CMerkleBlock × List CMerkleBlock
  | _, [] => ([], [])
  | lastAcceptedHash, block :: output =>
    if block.hashPrevBlock = lastAcceptedHash then
      let rest := splitValid (block.getHash H) output
      (block :: rest.1, rest.2)
    else
      let output := (block :: output).reverse
      (output.find? (fun b => lastAcceptedHash = b.hashPrevBlock) |>.toList,
        output.eraseP fun b => lastAcceptedHash = b.hashPrevBlock)

variable {H}

theorem linked_splitValid {lastAcceptedHash : Uint256} {output : List CMerkleBlock} :
    HashChain.Linked CMerkleBlock.hashPrevBlock (CMerkleBlock.getHash H) lastAcceptedHash
      (splitValid H lastAcceptedHash output).1 := by
  induction output generalizing lastAcceptedHash with
  | nil => trivial
  | cons block output ih =>
    rw [splitValid]
    split
    case isTrue hnext => exact ⟨hnext, ih⟩
    case isFalse =>
      change HashChain.Linked _ _ _
        (((block :: output).reverse).find? fun b => lastAcceptedHash = b.hashPrevBlock).toList
      cases hfound : ((block :: output).reverse).find? fun b => lastAcceptedHash = b.hashPrevBlock with
      | none => trivial
      | some b =>
        have hprev : lastAcceptedHash = b.hashPrevBlock := by simpa using List.find?_some hfound
        exact ⟨hprev.symm, trivial⟩

theorem mem_of_mem_splitValid {lastAcceptedHash : Uint256} {output : List CMerkleBlock}
    {b : CMerkleBlock} (h : b ∈ (splitValid H lastAcceptedHash output).1 ∨
      b ∈ (splitValid H lastAcceptedHash output).2) : b ∈ output := by
  induction output generalizing lastAcceptedHash with
  | nil => exact h.elim id id
  | cons block output ih =>
    rw [splitValid] at h
    split at h
    case isTrue =>
      obtain hfirst | hrest := h
      · obtain rfl | hlater := List.mem_cons.mp hfirst
        · exact List.mem_cons_self
        · exact List.mem_cons_of_mem _ (ih (.inl hlater))
      · exact List.mem_cons_of_mem _ (ih (.inr hrest))
    case isFalse =>
      obtain hfound | hrest := h
      · exact List.mem_reverse.mp (List.mem_of_find?_eq_some (Option.mem_toList.mp hfound))
      · exact List.mem_reverse.mp (List.mem_of_mem_eraseP hrest)

variable (H)

def accepted (a : CTrackOriginAddressAction) (key : ℕ) : List CMerkleBlock :=
  (a.acceptedBlocks.lookup key).getD []

def pending (a : CTrackOriginAddressAction) (key : ℕ) : List CMerkleBlock :=
  (a.blocks.lookup key).getD []

/-- The new blocks join those that are not accepted, and `validPart` sorts them. -/
def includeBlocks (a : CTrackOriginAddressAction) (key : ℕ) (newInput : List CMerkleBlock) :
    CTrackOriginAddressAction :=
  let lastAcceptedHash := HashChain.tip (CMerkleBlock.getHash H) a.currentHash (a.accepted key)
  let split := splitValid H lastAcceptedHash (a.pending key ++ newInput)
  { a with
    blocks := a.blocks.assign key split.2
    acceptedBlocks := a.acceptedBlocks.assign key (a.accepted key ++ split.1) }

variable {H}

theorem accepted_includeBlocks (a : CTrackOriginAddressAction) (key : ℕ)
    (newInput : List CMerkleBlock) (m : ℕ) :
    (a.includeBlocks H key newInput).accepted m = if m = key then a.accepted key ++
      (splitValid H (HashChain.tip (CMerkleBlock.getHash H) a.currentHash (a.accepted key))
        (a.pending key ++ newInput)).1 else a.accepted m := by
  unfold accepted
  split
  case isTrue hkey =>
    subst hkey
    exact congrArg (Option.getD · []) (OrderedMap.lookup_assign_self ..)
  case isFalse hkey =>
    exact congrArg (Option.getD · []) (OrderedMap.lookup_assign_of_ne hkey _)

theorem pending_includeBlocks (a : CTrackOriginAddressAction) (key : ℕ)
    (newInput : List CMerkleBlock) (m : ℕ) :
    (a.includeBlocks H key newInput).pending m = if m = key then
      (splitValid H (HashChain.tip (CMerkleBlock.getHash H) a.currentHash (a.accepted key))
        (a.pending key ++ newInput)).2 else a.pending m := by
  unfold pending
  split
  case isTrue hkey =>
    subst hkey
    exact congrArg (Option.getD · []) (OrderedMap.lookup_assign_self ..)
  case isFalse hkey =>
    exact congrArg (Option.getD · []) (OrderedMap.lookup_assign_of_ne hkey _)

end ValidPart

/-- The transactions of a node; those of a block that is known already are dropped. -/
def mergeTransactions (a : CTrackOriginAddressAction) (key : ℕ) (newTransactions : BlockTransactions) :
    BlockTransactions :=
  match a.transactions.lookup key with
  | none => newTransactions
  | some old => fun hash => (old hash).or (newTransactions hash)

def includeTransactions (a : CTrackOriginAddressAction) (key : ℕ)
    (newTransactions : BlockTransactions) : CTrackOriginAddressAction :=
  { a with transactions := a.transactions.assign key (a.mergeTransactions key newTransactions) }

section Compare

/-- How many blocks all nodes have accepted. -/
def commonSize (a : CTrackOriginAddressAction) : ℕ :=
  (a.acceptedBlocks.entries.map fun nodeResults => nodeResults.2.length).min?.getD 0

/-- The match lists of the nodes at one place. An empty list is replaced by the next
without being compared; the root of each tree is asserted not to be zero. -/
def matchesAgree (index : ℕ) : List Uint256 → List (ℕ × List CMerkleBlock) → Bool
  | _, [] => true
  | hashesVector, nodeResults :: rest =>
    match nodeResults.2[index]? with
    | none => false
    | some block =>
      let extracted := block.txn.extractMatches H
      extracted.1 ≠ 0 &&
        if hashesVector = [] then matchesAgree index extracted.2 rest
        else hashesVector = extracted.2 && matchesAgree index hashesVector rest

/-- `CCompareTransactions` over the lists of all nodes: the hashes are compared with
those of the first. -/
def isCorrect (lists : List (List CTransaction)) : Bool :=
  match lists.map (List.map (CTransaction.getHash H)) with
  | [] => true
  | first :: rest => rest.all (· = first)

/-- What the nodes have for a block; a missing entry counts as an empty list. -/
def listsFor (a : CTrackOriginAddressAction) (hash : Uint256) : List (List CTransaction) :=
  a.transactions.entries.map fun transaction => (transaction.2 hash).getD []

/-- `addTransaction` of the scanner for each transaction. -/
def addTransactions (a : CTrackOriginAddressAction) (txs : List CTransaction) :
    CTrackOriginAddressAction :=
  { a with handed := a.handed ++ txs }

/-- The first list that is not empty is handed over if all agree. -/
def handBlock (a : CTrackOriginAddressAction) (hash : Uint256) :
    CTrackOriginAddressAction × Bool :=
  if isCorrect H (a.listsFor hash) then
    (a.addTransactions (((a.listsFor hash).find? (· ≠ [])).getD []), true)
  else (a, false)

/-- Block after block, up to one where the nodes differ. -/
def handBlocks (a : CTrackOriginAddressAction) : List Uint256 → CTrackOriginAddressAction × Bool
  | [] => (a, true)
  | hash :: hashes =>
    let handed := a.handBlock H hash
    if handed.2 then handBlocks handed.1 hashes else handed

/-- The loop from the last accepted place to the first. Each time all accepted blocks
are handed over. -/
def acceptLoop (blocksToAccept : List Uint256) :
    ℕ → CTrackOriginAddressAction → Option (CTrackOriginAddressAction × Bool)
  | 0, a => some (a, true)
  | size + 1, a =>
    if matchesAgree H size [] a.acceptedBlocks.entries then
      let handed := a.handBlocks H blocksToAccept
      if handed.2 then acceptLoop blocksToAccept size handed.1 else some handed
    else none

variable {H}

theorem addTransactions_addTransactions (a : CTrackOriginAddressAction)
    (first second : List CTransaction) :
    (a.addTransactions first).addTransactions second = a.addTransactions (first ++ second) :=
  congrArg (fun txs => { a with handed := txs }) (List.append_assoc ..)

theorem addTransactions_nil (a : CTrackOriginAddressAction) : a.addTransactions [] = a :=
  congrArg (fun txs => { a with handed := txs }) (List.append_nil _)

theorem isCorrect_spec {lists : List (List CTransaction)} (h : isCorrect H lists = true)
    {first second : List CTransaction} (hfirst : first ∈ lists) (hsecond : second ∈ lists) :
    first.map (CTransaction.getHash H) = second.map (CTransaction.getHash H) := by
  cases lists with
  | nil => cases hfirst
  | cons list lists =>
    have hlist : ∀ l ∈ list :: lists, l.map (CTransaction.getHash H) =
        list.map (CTransaction.getHash H) := by
      intro l hl
      obtain rfl | hrest := List.mem_cons.mp hl
      · rfl
      · simpa using List.all_eq_true.mp h _ (List.mem_map_of_mem hrest)
    exact (hlist first hfirst).trans (hlist second hsecond).symm

/-- Every transaction that some node has for the block is among the given ones. -/
def HandsAll (H : HashFunctions) (a : CTrackOriginAddressAction) (txs : List CTransaction)
    (hash : Uint256) : Prop :=
  ∀ list ∈ a.listsFor hash, ∀ tx ∈ list, ∃ tx' ∈ txs, tx'.getHash H = tx.getHash H

theorem HandsAll.mono {a : CTrackOriginAddressAction} {txs more : List CTransaction}
    {hash : Uint256} (h : HandsAll H a txs hash) (hsub : txs ⊆ more) : HandsAll H a more hash := by
  intro list hlist tx htx
  obtain ⟨tx', htx', hsame⟩ := h list hlist tx htx
  exact ⟨tx', hsub htx', hsame⟩

theorem handBlock_spec (a : CTrackOriginAddressAction) (hash : Uint256) :
    ∃ txs, (a.handBlock H hash).1 = a.addTransactions txs ∧
      ((a.handBlock H hash).2 = true → HandsAll H a txs hash) := by
  unfold handBlock
  split
  case isFalse => exact ⟨[], (addTransactions_nil a).symm, nofun⟩
  case isTrue hcorrect =>
    refine ⟨_, rfl, fun _ list hlist tx htx => ?_⟩
    obtain ⟨found, hfound⟩ : ∃ found, (a.listsFor hash).find? (· ≠ []) = some found :=
      Option.isSome_iff_exists.mp (List.find?_isSome.mpr
        ⟨list, hlist, decide_eq_true (List.ne_nil_of_mem htx)⟩)
    have hsame := isCorrect_spec hcorrect hlist (List.mem_of_find?_eq_some hfound)
    have hin : tx.getHash H ∈ found.map (CTransaction.getHash H) :=
      hsame ▸ List.mem_map_of_mem htx
    rw [hfound]
    exact List.mem_map.mp hin

theorem handBlocks_spec (a : CTrackOriginAddressAction) (hashes : List Uint256) :
    ∃ txs, (a.handBlocks H hashes).1 = a.addTransactions txs ∧
      ((a.handBlocks H hashes).2 = true → ∀ hash ∈ hashes, HandsAll H a txs hash) := by
  induction hashes generalizing a with
  | nil => exact ⟨[], (addTransactions_nil a).symm, nofun⟩
  | cons hash hashes ih =>
    obtain ⟨first, hfirst, hall⟩ := handBlock_spec (H := H) a hash
    rw [handBlocks]
    split
    case isFalse hwrong => exact ⟨first, hfirst, fun hcorrect => absurd hcorrect hwrong⟩
    case isTrue hcorrect =>
      rw [hfirst]
      obtain ⟨rest, hrest, hlater⟩ := ih (a.addTransactions first)
      refine ⟨first ++ rest, hrest.trans (addTransactions_addTransactions ..), fun hc => ?_⟩
      intro hash' hmem
      obtain rfl | htail := List.mem_cons.mp hmem
      · exact (hall hcorrect).mono (List.subset_append_left _ _)
      · exact HandsAll.mono (hlater hc hash' htail) (List.subset_append_right _ _)

theorem acceptLoop_spec {a b : CTrackOriginAddressAction} {hashes : List Uint256} {size : ℕ}
    {correct : Bool} (h : acceptLoop H hashes size a = some (b, correct)) :
    ∃ txs, b = a.addTransactions txs ∧
      (correct = true → 0 < size → ∀ hash ∈ hashes, HandsAll H a txs hash) := by
  induction size generalizing a with
  | zero =>
    cases h
    exact ⟨[], (addTransactions_nil _).symm, fun _ h => absurd h (Nat.lt_irrefl 0)⟩
  | succ size ih =>
    obtain ⟨first, hfirst, hall⟩ := handBlocks_spec (H := H) a hashes
    rw [acceptLoop] at h
    split at h
    case isFalse => cases h
    case isTrue =>
      change (if (a.handBlocks H hashes).2 = true then _ else _) = _ at h
      split at h
      case isFalse hwrong =>
        have hresult : a.handBlocks H hashes = (b, correct) := Option.some.inj h
        rw [hresult] at hfirst hwrong
        exact ⟨first, hfirst, fun hcorrect => absurd hcorrect hwrong⟩
      case isTrue hcorrect =>
        rw [hfirst] at h
        obtain ⟨rest, hrest, -⟩ := ih h
        refine ⟨first ++ rest, hrest.trans (addTransactions_addTransactions ..), fun _ _ => ?_⟩
        intro hash hmem
        exact (hall hcorrect hash hmem).mono (List.subset_append_left _ _)

theorem commonSize_le {a : CTrackOriginAddressAction} {m : ℕ} (h : m ∈ a.acceptedBlocks.keys) :
    a.commonSize ≤ (a.accepted m).length := by
  obtain ⟨blocks, hblocks⟩ := OrderedMap.mem_keys.mp h
  have hmem : blocks.length ∈ a.acceptedBlocks.entries.map fun nodeResults => nodeResults.2.length :=
    List.mem_map.mpr ⟨(m, blocks), OrderedMap.mem_entries.mpr hblocks, rfl⟩
  obtain ⟨least, hleast⟩ := Option.isSome_iff_exists.mp (List.isSome_min?_of_mem hmem)
  unfold commonSize accepted
  rw [hleast, hblocks]
  exact (List.le_min?_iff hleast).mp le_rfl _ hmem

end Compare

/-- `clearAccepted`, and the head moves to the last of the blocks. -/
def moveHead (a : CTrackOriginAddressAction) (passed : List CMerkleBlock) :
    CTrackOriginAddressAction :=
  { a with
    acceptedBlocks := a.acceptedBlocks.mapValues (List.drop passed.length)
    updated := a.updated + passed.length
    head := passed.getLast?.map CMerkleBlock.header
    currentHash := HashChain.tip (CMerkleBlock.getHash H) a.currentHash passed }

def received (a : CTrackOriginAddressAction) (key : ℕ) (newTransactions : BlockTransactions)
    (newInput : List CMerkleBlock) : CTrackOriginAddressAction :=
  (a.includeTransactions key newTransactions).includeBlocks H key newInput

/-- `analyseOutput`; no value where an assertion fails. -/
def analyseOutput (a : CTrackOriginAddressAction) (key : ℕ) (newTransactions : BlockTransactions)
    (newInput : List CMerkleBlock) : Option CTrackOriginAddressAction :=
  let a := a.received H key newTransactions newInput
  let size := a.commonSize
  match a.acceptedBlocks.entries with
  | [] => some a
  | first :: _ =>
    if size = 0 then some a
    else
      let passed := first.2.take size
      (acceptLoop H (passed.map (CMerkleBlock.getHash H)) size a).map fun result =>
        if result.2 then result.1.moveHead H passed else result.1

variable {H}

/-- A call hands over transactions, and may move the head past blocks that the first
node and, in number, all nodes have accepted. -/
theorem analyseOutput_cases {a a' : CTrackOriginAddressAction} {key : ℕ}
    {newTransactions : BlockTransactions} {newInput : List CMerkleBlock}
    (h : a.analyseOutput H key newTransactions newInput = some a') :
    ∃ txs, a' = (a.received H key newTransactions newInput).addTransactions txs ∨
      ∃ first, first ∈ (a.received H key newTransactions newInput).acceptedBlocks.keys ∧
        0 < (a.received H key newTransactions newInput).commonSize ∧
        ∃ passed, passed = ((a.received H key newTransactions newInput).accepted first).take
            (a.received H key newTransactions newInput).commonSize ∧
          (∀ b ∈ passed, HandsAll H (a.received H key newTransactions newInput) txs (b.getHash H)) ∧
          a' = ((a.received H key newTransactions newInput).addTransactions txs).moveHead H passed := by
  unfold analyseOutput at h
  generalize a.received H key newTransactions newInput = r at h ⊢
  cases hentries : r.acceptedBlocks.entries with
  | nil =>
    simp only [hentries] at h
    cases h
    exact ⟨[], .inl (addTransactions_nil _).symm⟩
  | cons first rest =>
    simp only [hentries] at h
    split at h
    case isTrue =>
      cases h
      exact ⟨[], .inl (addTransactions_nil _).symm⟩
    case isFalse hsize =>
      obtain ⟨⟨b, correct⟩, hloop, rfl⟩ := Option.map_eq_some_iff.mp h
      obtain ⟨txs, rfl, hall⟩ := acceptLoop_spec hloop
      refine ⟨txs, ?_⟩
      cases correct with
      | false => exact .inl rfl
      | true =>
        have hfirst : r.acceptedBlocks.lookup first.1 = some first.2 :=
          OrderedMap.mem_entries.mp (hentries ▸ List.mem_cons_self)
        have haccepted : r.accepted first.1 = first.2 := by rw [accepted, hfirst]; rfl
        refine .inr ⟨first.1, OrderedMap.mem_keys.mpr ⟨_, hfirst⟩, Nat.pos_of_ne_zero hsize,
          _, by rw [haccepted], fun b hb => ?_, rfl⟩
        exact hall rfl (Nat.pos_of_ne_zero hsize) _ (List.mem_map_of_mem hb)

variable (H)

/-- `clear`, between two rounds of reading. -/
def clear (a : CTrackOriginAddressAction) : CTrackOriginAddressAction :=
  { a with
    blocks := .empty
    acceptedBlocks := .empty
    transactions := .empty
    updated := 0 }

end CTrackOriginAddressAction

end Dims
