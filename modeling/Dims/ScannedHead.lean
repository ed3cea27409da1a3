import Dims.TrackOriginAddressAction
import Dims.GuardedRun
import Mathlib.Data.Finset.Card

/-!
# When the scanned head moves

The head moves past blocks that as many nodes as required have reported, and whose
transactions are handed to the scanner, as long as no call completes a block for all
nodes known so far before enough nodes are known and its transactions are there.
-/

namespace Dims
open HashChain

def getUsedBitcoinNodesNumber : ℕ := 3

inductive TrackOriginAddressEvent
  | analyseOutput (medium : ℕ) (transactions : BlockTransactions) (merkles : List CMerkleBlock)
  | clear

namespace CTrackOriginAddressAction

variable (H : HashFunctions)

/-- There is no state after a failed assertion. -/
def step (s : Option CTrackOriginAddressAction) (event : TrackOriginAddressEvent) :
    Option CTrackOriginAddressAction :=
  s.bind fun a =>
    match event with
    | .analyseOutput medium transactions merkles => a.analyseOutput H medium transactions merkles
    | .clear => some a.clear

section Condition

/-- What a medium has reported and is still kept, a new report included. -/
def known (a : CTrackOriginAddressAction) (key : ℕ) (newInput : List CMerkleBlock) (m : ℕ) :
    List CMerkleBlock :=
  a.accepted m ++ a.pending m ++ if m = key then newInput else []

/-- The media with a list of accepted blocks, the reporting one included. -/
def media (a : CTrackOriginAddressAction) (key : ℕ) : Finset ℕ := insert key a.acceptedBlocks.keys

/-- Every medium has reported the block. -/
def Covered (a : CTrackOriginAddressAction) (key : ℕ) (newInput : List CMerkleBlock)
    (b : CMerkleBlock) : Prop :=
  ∀ m ∈ a.media key, ∃ b' ∈ a.known key newInput m,
    b'.hashPrevBlock = b.hashPrevBlock ∧ b'.getHash H = b.getHash H

/-- The transactions that a medium has for a block, newly delivered ones included. -/
def delivered (a : CTrackOriginAddressAction) (key : ℕ) (newTransactions : BlockTransactions)
    (m : ℕ) (hash : Uint256) : List CTransaction :=
  (((a.transactions.lookup m).bind (· hash)).or
    (if m = key then newTransactions hash else none)).getD []

/-- No two reported blocks follow the same block, a block after the head is reported by all
media only if they are as many as required, and a block that is reported by all media has
its matched transactions delivered by one of them. -/
structure Reliable (a : CTrackOriginAddressAction) (key : ℕ) (newTransactions : BlockTransactions)
    (newInput : List CMerkleBlock) : Prop where
  forkFree : ForkFree CMerkleBlock.hashPrevBlock (CMerkleBlock.getHash H)
    {b | ∃ m, b ∈ a.known key newInput m}
  enough : ∀ m, ∀ b ∈ a.known key newInput m, b.hashPrevBlock = a.currentHash →
    a.Covered H key newInput b → getUsedBitcoinNodesNumber ≤ (a.media key).card
  complete : ∀ m, ∀ b ∈ a.known key newInput m, a.Covered H key newInput b →
    ∀ hash ∈ b.vMatch H, ∃ m', ∃ tx ∈ a.delivered key newTransactions m' (b.getHash H),
      tx.getHash H = hash

def ReliableEvent (s : Option CTrackOriginAddressAction) : TrackOriginAddressEvent → Prop
  | .analyseOutput medium transactions merkles =>
    ∀ a, s = some a → a.Reliable H medium transactions merkles
  | .clear => True

end Condition

section Property

/-- A medium has reported the block in one of the events. -/
def Reported (past : List TrackOriginAddressEvent) (m : ℕ) (b : CMerkleBlock) : Prop :=
  ∃ transactions merkles, .analyseOutput m transactions merkles ∈ past ∧ b ∈ merkles

/-- Every transaction that the tree of the block matches has been handed to the scanner. -/
def Handed (a : CTrackOriginAddressAction) (b : CMerkleBlock) : Prop :=
  ∀ hash ∈ b.vMatch H, ∃ tx ∈ a.handed, tx.getHash H = hash

/-- The head moves along blocks that enough media have reported at the same place and with
the same hash, and all that their trees match has been handed over. -/
def MovesSafely (past : List TrackOriginAddressEvent) (a a' : CTrackOriginAddressAction) : Prop :=
  ∃ passed, Linked CMerkleBlock.hashPrevBlock (CMerkleBlock.getHash H) a.currentHash passed ∧
    a'.currentHash = tip (CMerkleBlock.getHash H) a.currentHash passed ∧
    ∀ b ∈ passed, a'.Handed H b ∧
      ∃ media : Finset ℕ, getUsedBitcoinNodesNumber ≤ media.card ∧
        ∀ m ∈ media, ∃ b', Reported past m b' ∧ b'.hashPrevBlock = b.hashPrevBlock ∧
          b'.getHash H = b.getHash H ∧ a'.Handed H b'

end Property

/-- The accepted blocks of each medium follow on the head, and what is kept has been
reported. -/
structure Accounted (past : List TrackOriginAddressEvent) (a : CTrackOriginAddressAction) : Prop where
  linked : ∀ m, Linked CMerkleBlock.hashPrevBlock (CMerkleBlock.getHash H) a.currentHash
    (a.accepted m)
  reported : ∀ m, ∀ b ∈ a.accepted m ++ a.pending m, Reported past m b

section Received

variable {H} {past : List TrackOriginAddressEvent} {a : CTrackOriginAddressAction} {key : ℕ}
  {newTransactions : BlockTransactions} {newInput : List CMerkleBlock}

theorem currentHash_received :
    (a.received H key newTransactions newInput).currentHash = a.currentHash := rfl

variable (key newTransactions newInput) in
theorem linked_received (h : Accounted H past a) (m : ℕ) :
    Linked CMerkleBlock.hashPrevBlock (CMerkleBlock.getHash H) a.currentHash
      ((a.received H key newTransactions newInput).accepted m) := by
  have haccepted := (a.includeTransactions key newTransactions).accepted_includeBlocks (H := H)
    key newInput m
  rw [received, haccepted]
  split
  · exact linked_append.mpr ⟨h.linked key, linked_splitValid⟩
  · exact h.linked m

theorem known_of_received {m : ℕ} {b : CMerkleBlock}
    (h : b ∈ (a.received H key newTransactions newInput).accepted m ++
      (a.received H key newTransactions newInput).pending m) : b ∈ a.known key newInput m := by
  have haccepted := (a.includeTransactions key newTransactions).accepted_includeBlocks (H := H)
    key newInput m
  have hpending := (a.includeTransactions key newTransactions).pending_includeBlocks (H := H)
    key newInput m
  rw [received, haccepted, hpending] at h
  rw [known]
  split at h
  case isTrue hkey =>
    subst hkey
    have hsplit : ∀ b', b' ∈ a.pending m ++ newInput →
        b' ∈ a.accepted m ++ a.pending m ++ if m = m then newInput else [] := by
      intro b' hb'
      rw [if_pos rfl, List.append_assoc]
      exact List.mem_append_right _ hb'
    obtain hacc | hrest := List.mem_append.mp h
    · obtain hold | hnew := List.mem_append.mp hacc
      · exact List.mem_append_left _ (List.mem_append_left _ hold)
      · exact hsplit b (mem_of_mem_splitValid (.inl hnew))
    · exact hsplit b (mem_of_mem_splitValid (.inr hrest))
  case isFalse hkey => exact List.mem_append_left _ h

variable (H newTransactions newInput) in
theorem keys_received :
    (a.received H key newTransactions newInput).acceptedBlocks.keys = a.media key :=
  OrderedMap.keys_assign _ key _

theorem Accounted.known (h : Accounted H past a) {m : ℕ} {b : CMerkleBlock}
    (hb : b ∈ a.known key newInput m) :
    Reported (past ++ [.analyseOutput key newTransactions newInput]) m b := by
  obtain hold | hnew := List.mem_append.mp hb
  · obtain ⟨transactions, merkles, hpast, hin⟩ := h.reported m b hold
    exact ⟨transactions, merkles, List.mem_append_left _ hpast, hin⟩
  · split at hnew
    case isTrue hkey =>
      subst hkey
      exact ⟨newTransactions, newInput, List.mem_append_right _ List.mem_cons_self, hnew⟩
    case isFalse => cases hnew

variable (H newInput) in
theorem listsFor_of_delivered {m : ℕ} {hash : Uint256} {tx : CTransaction}
    (h : tx ∈ a.delivered key newTransactions m hash) :
    ∃ list ∈ (a.received H key newTransactions newInput).listsFor hash, tx ∈ list := by
  have hlookup : ∃ transactions,
      (a.received H key newTransactions newInput).transactions.lookup m = some transactions ∧
        tx ∈ (transactions hash).getD [] := by
    change ∃ transactions, (a.transactions.assign key (a.mergeTransactions key newTransactions)).lookup
      m = some transactions ∧ _
    rw [delivered] at h
    by_cases hkey : m = key
    · subst hkey
      refine ⟨_, OrderedMap.lookup_assign_self .., ?_⟩
      rw [if_pos rfl] at h
      unfold mergeTransactions
      cases hold : a.transactions.lookup m with
      | none => simpa [hold] using h
      | some old => simpa [hold] using h
    · rw [if_neg hkey, Option.or_none] at h
      rw [OrderedMap.lookup_assign_of_ne hkey]
      cases hold : a.transactions.lookup m with
      | none => simp [hold] at h
      | some old => exact ⟨old, rfl, by simpa [hold] using h⟩
  obtain ⟨transactions, htransactions, hin⟩ := hlookup
  exact ⟨_, List.mem_map.mpr ⟨(m, transactions), OrderedMap.mem_entries.mpr htransactions, rfl⟩, hin⟩

/-- The accepted blocks at one place are the same for all media. -/
theorem agree_received (h : Accounted H past a) (hreliable : a.Reliable H key newTransactions newInput)
    {m m' i : ℕ} {b b' : CMerkleBlock}
    (hb : ((a.received H key newTransactions newInput).accepted m)[i]? = some b)
    (hb' : ((a.received H key newTransactions newInput).accepted m')[i]? = some b') :
    b.hashPrevBlock = b'.hashPrevBlock ∧ b.getHash H = b'.getHash H :=
  hreliable.forkFree.agree (linked_received _ _ _ h m) (linked_received _ _ _ h m')
    (fun _ hin => ⟨m, known_of_received (List.mem_append_left _ hin)⟩)
    (fun _ hin => ⟨m', known_of_received (List.mem_append_left _ hin)⟩) hb hb'

theorem covered_of_lt (h : Accounted H past a) (hreliable : a.Reliable H key newTransactions newInput)
    {m i : ℕ} {b : CMerkleBlock}
    (hi : i < (a.received H key newTransactions newInput).commonSize)
    (hb : ((a.received H key newTransactions newInput).accepted m)[i]? = some b) :
    a.Covered H key newInput b := by
  intro m' hm'
  rw [← keys_received H newTransactions newInput] at hm'
  have hlt : i < ((a.received H key newTransactions newInput).accepted m').length :=
    hi.trans_le (commonSize_le hm')
  have hb' := List.getElem?_eq_getElem hlt
  exact ⟨_, known_of_received (List.mem_append_left _ (List.mem_of_getElem? hb')),
    agree_received h hreliable hb' hb⟩

theorem media_enough (h : Accounted H past a) (hreliable : a.Reliable H key newTransactions newInput)
    {m : ℕ} (hm : m ∈ (a.received H key newTransactions newInput).acceptedBlocks.keys)
    (hsize : 0 < (a.received H key newTransactions newInput).commonSize) :
    getUsedBitcoinNodesNumber ≤ (a.media key).card := by
  have hfirst := List.getElem?_eq_getElem (hsize.trans_le (commonSize_le hm))
  exact hreliable.enough m _
    (known_of_received (List.mem_append_left _ (List.mem_of_getElem? hfirst)))
    ((linked_received key newTransactions newInput h m).head hfirst)
    (covered_of_lt h hreliable hsize hfirst)

/-- What the media have for a block that they have all reported is handed over. -/
theorem handed_of_covered {txs : List CTransaction}
    (hreliable : a.Reliable H key newTransactions newInput) {m : ℕ} {b : CMerkleBlock}
    (hb : b ∈ a.known key newInput m) (hcovered : a.Covered H key newInput b)
    (hall : HandsAll H (a.received H key newTransactions newInput) txs (b.getHash H)) :
    ∀ hash ∈ b.vMatch H, ∃ tx ∈ txs, tx.getHash H = hash := by
  intro hash hhash
  obtain ⟨m', tx, htx, rfl⟩ := hreliable.complete m b hb hcovered hash hhash
  obtain ⟨list, hlist, hin⟩ := listsFor_of_delivered H newInput htx
  exact hall list hlist tx hin

end Received

section Step

variable {H} {past : List TrackOriginAddressEvent} {a a' : CTrackOriginAddressAction} {key : ℕ}
  {newTransactions : BlockTransactions} {newInput : List CMerkleBlock}

theorem Accounted.received (h : Accounted H past a) :
    Accounted H (past ++ [.analyseOutput key newTransactions newInput])
      (a.received H key newTransactions newInput) where
  linked m := by
    rw [currentHash_received]
    exact linked_received key newTransactions newInput h m
  reported _ _ hb := h.known (known_of_received hb)

theorem Accounted.moveHead (h : Accounted H past a) {m size : ℕ} (hm : m ∈ a.acceptedBlocks.keys)
    (hsize : size = a.commonSize)
    (hfree : ForkFree CMerkleBlock.hashPrevBlock (CMerkleBlock.getHash H)
      {b | ∃ m, b ∈ a.accepted m}) :
    Accounted H past (a.moveHead H ((a.accepted m).take size)) := by
  have hlength : ((a.accepted m).take size).length = size := by
    rw [List.length_take, hsize, Nat.min_eq_left (commonSize_le hm)]
  have haccepted : ∀ m', (a.moveHead H ((a.accepted m).take size)).accepted m' =
      (a.accepted m').drop size := by
    intro m'
    change ((a.acceptedBlocks.mapValues _).lookup m').getD [] = ((a.acceptedBlocks.lookup m').getD []).drop size
    rw [OrderedMap.lookup_mapValues, hlength]
    cases a.acceptedBlocks.lookup m' <;> simp
  refine ⟨fun m' => ?_, fun m' b hb => ?_⟩
  · rw [haccepted]
    change Linked _ _ (tip _ a.currentHash ((a.accepted m).take size)) _
    by_cases hm' : m' ∈ a.acceptedBlocks.keys
    · rw [hfree.tip_take (h.linked m) (h.linked m') (fun _ hb => ⟨m, hb⟩) (fun _ hb => ⟨m', hb⟩)
        (hsize ▸ commonSize_le hm) (hsize ▸ commonSize_le hm')]
      exact ((h.linked m').take_drop size).2
    · have hnone : a.acceptedBlocks.lookup m' = none := by
        cases hlookup : a.acceptedBlocks.lookup m' with
        | none => rfl
        | some blocks => exact absurd (OrderedMap.mem_keys.mpr ⟨blocks, hlookup⟩) hm'
      have hempty : a.accepted m' = [] := by rw [accepted, hnone, Option.getD_none]
      rw [hempty, List.drop_nil]
      trivial
  · rw [haccepted] at hb
    refine h.reported m' b ?_
    obtain hacc | hpend := List.mem_append.mp hb
    · exact List.mem_append_left _ (List.mem_of_mem_drop hacc)
    · exact List.mem_append_right _ hpend

theorem Accounted.analyseOutput (h : Accounted H past a)
    (hreliable : a.Reliable H key newTransactions newInput)
    (hstep : a.analyseOutput H key newTransactions newInput = some a') :
    Accounted H (past ++ [.analyseOutput key newTransactions newInput]) a' ∧
      MovesSafely H (past ++ [.analyseOutput key newTransactions newInput]) a a' := by
  have hreceived : Accounted H (past ++ [.analyseOutput key newTransactions newInput])
      (a.received H key newTransactions newInput) := h.received
  obtain ⟨txs, rfl | ⟨first, hfirst, hsize, passed, hpassed, hall, rfl⟩⟩ := analyseOutput_cases hstep
  · exact ⟨⟨hreceived.linked, hreceived.reported⟩, [], trivial, rfl, nofun⟩
  · have hfree : ForkFree CMerkleBlock.hashPrevBlock (CMerkleBlock.getHash H)
        {b | ∃ m, b ∈ (a.received H key newTransactions newInput).accepted m} :=
      hreliable.forkFree.mono fun b ⟨m, hb⟩ => ⟨m, known_of_received (List.mem_append_left _ hb)⟩
    have hlinked := ((linked_received key newTransactions newInput h first).take_drop
      (a.received H key newTransactions newInput).commonSize).1
    have henough := media_enough h hreliable hfirst hsize
    refine ⟨?_, passed, hpassed ▸ hlinked, rfl, fun b hb => ?_⟩
    · have hmoved := hreceived.moveHead hfirst rfl hfree
      rw [← hpassed] at hmoved
      exact ⟨hmoved.linked, hmoved.reported⟩
    · have hbAll := hall b hb
      rw [hpassed] at hb
      obtain ⟨i, hi⟩ := List.mem_iff_getElem?.mp hb
      rw [List.getElem?_take, Option.ite_none_right_eq_some] at hi
      obtain ⟨hlt, hbi⟩ := hi
      have hcovered := covered_of_lt h hreliable hlt hbi
      have hknown := known_of_received (List.mem_append_left _ (List.mem_of_getElem? hbi))
      have hkept : ∀ b', (∃ m, b' ∈ a.known key newInput m) → a.Covered H key newInput b' →
          b'.getHash H = b.getHash H →
          Handed H (((a.received H key newTransactions newInput).addTransactions txs).moveHead H
            passed) b' := by
        rintro b' ⟨m, hb'⟩ hcovered' hsame hash hhash
        obtain ⟨tx, htx, hhash'⟩ := handed_of_covered hreliable hb' hcovered' (hsame ▸ hbAll) hash hhash
        exact ⟨tx, List.mem_append_right _ htx, hhash'⟩
      refine ⟨hkept b ⟨_, hknown⟩ hcovered rfl, a.media key, henough, fun m hm => ?_⟩
      obtain ⟨b', hb', hprev, hsame⟩ := hcovered m hm
      have hcovered' : a.Covered H key newInput b' := by
        intro m' hm'
        obtain ⟨b'', hb'', hprev', hsame'⟩ := hcovered m' hm'
        exact ⟨b'', hb'', hprev'.trans hprev.symm, hsame'.trans hsame.symm⟩
      exact ⟨b', h.known hb', hprev, hsame, hkept b' ⟨m, hb'⟩ hcovered' hsame⟩

end Step

section Run

variable {H}

/-- What a guarded run keeps. -/
def AccountedRun (H : HashFunctions) (past : List TrackOriginAddressEvent)
    (s : Option CTrackOriginAddressAction) : Prop :=
  ∀ a, s = some a → Accounted H past a

theorem AccountedRun.step {past : List TrackOriginAddressEvent}
    {s : Option CTrackOriginAddressAction} {event : TrackOriginAddressEvent}
    (h : AccountedRun H past s) (hreliable : ReliableEvent H s event) :
    AccountedRun H (past ++ [event]) (step H s event) := by
  intro a' ha'
  obtain ⟨a, rfl, hevent⟩ := Option.bind_eq_some_iff.mp ha'
  cases event with
  | analyseOutput medium transactions merkles =>
    exact ((h a rfl).analyseOutput (hreliable a rfl) hevent).1
  | clear =>
    cases hevent
    exact ⟨fun _ => trivial, nofun⟩

/-- In a run whose calls are reliable, the head moves only along blocks that the required
number of nodes has reported, and with all their transactions handed over. -/
theorem head_moves_safely {currentHash : Uint256} {events : List TrackOriginAddressEvent}
    {event : TrackOriginAddressEvent} {a a' : CTrackOriginAddressAction}
    (hguarded : GuardedRun.Guarded (step H) (ReliableEvent H) (some (start currentHash))
      (events ++ [event]))
    (hrun : GuardedRun.run (step H) (some (start currentHash)) events = some a)
    (hstep : step H (some a) event = some a') :
    MovesSafely H (events ++ [event]) a a' := by
  obtain ⟨hevents, hlast⟩ := (GuardedRun.guarded_append _ _).mp hguarded
  have hstart : AccountedRun H [] (some (start currentHash)) := by
    intro b hb
    cases hb
    exact ⟨fun _ => trivial, nofun⟩
  have haccounted : Accounted H events a :=
    hevents.history (fun _ _ _ hs hok => hs.step hok) hstart a hrun
  rw [hrun] at hlast
  cases event with
  | analyseOutput medium transactions merkles =>
    exact (haccounted.analyseOutput (hlast.1 a rfl) hstep).2
  | clear =>
    cases hstep
    exact ⟨[], trivial, rfl, nofun⟩

end Run

end CTrackOriginAddressAction

namespace MatchedBlock
open CTrackOriginAddressAction CBitcoinNodeMedium

/-- Everything has the digest 5. -/
def hashes : HashFunctions := ⟨fun _ => 5, fun _ => 0⟩

def block : CMerkleBlock := ⟨⟨0, 0, 0, 0, 0, 0⟩, ⟨1, [true], [5], false⟩⟩

def tx : CTransaction := ⟨1, [], [], 0, 0⟩

/-- What a medium hands out that has received the block but not the transaction. -/
def incomplete : List CMerkleBlock × BlockTransactions :=
  (empty.setMerkle block).getResponseAndClear.1

/-- The same with the transaction. -/
def complete : List CMerkleBlock × BlockTransactions :=
  ((empty.setMerkle block).setTransaction hashes tx).getResponseAndClear.1

def report (medium : ℕ) (response : List CMerkleBlock × BlockTransactions) :
    TrackOriginAddressEvent :=
  .analyseOutput medium response.2 response.1

/-- The first report of one node moves the head past a block whose transaction is not
there. -/
theorem moved_by_one_node :
    ¬ ∀ currentHash events event a a',
      GuardedRun.run (step hashes) (some (start currentHash)) events = some a →
        step hashes (some a) event = some a' → MovesSafely hashes (events ++ [event]) a a' := by
  intro h
  obtain ⟨passed, -, htip, hall⟩ := h 0 [] (report 0 incomplete) _ _ rfl rfl
  cases passed with
  | nil => exact absurd htip (by decide)
  | cons b passed =>
    obtain ⟨-, media, henough, hmedia⟩ := hall b List.mem_cons_self
    have honly : media ⊆ {0} := by
      intro m hm
      obtain ⟨b', ⟨transactions, merkles, hin, -⟩, -⟩ := hmedia m hm
      cases List.mem_singleton.mp hin
      exact Finset.mem_singleton_self 0
    have hcard := Finset.card_le_card honly
    rw [Finset.card_singleton] at hcard
    exact absurd (henough.trans hcard) (by decide)

/-- One node reports nothing first, and the block as the last of three. -/
def events : List TrackOriginAddressEvent :=
  [report 0 (empty.getResponseAndClear).1, report 1 complete, report 2 complete]

theorem known_eq {a : CTrackOriginAddressAction} {key m : ℕ} {newInput : List CMerkleBlock}
    {b : CMerkleBlock}
    (hkept : ∀ nodeResults ∈ a.acceptedBlocks.entries ++ a.blocks.entries,
      ∀ b ∈ nodeResults.2, b = block)
    (hnew : ∀ b ∈ newInput, b = block) (hb : b ∈ a.known key newInput m) : b = block := by
  have hlookup : ∀ kept : OrderedMap ℕ (List CMerkleBlock), b ∈ (kept.lookup m).getD [] →
      ∃ nodeResults ∈ kept.entries, b ∈ nodeResults.2 := by
    intro kept hin
    cases hfound : kept.lookup m with
    | none => simp [hfound] at hin
    | some blocks =>
      rw [hfound] at hin
      exact ⟨(m, blocks), OrderedMap.mem_entries.mpr hfound, hin⟩
  obtain hold | hin := List.mem_append.mp hb
  · obtain haccepted | hpending := List.mem_append.mp hold
    · obtain ⟨nodeResults, hin, hb⟩ := hlookup _ haccepted
      exact hkept nodeResults (List.mem_append_left _ hin) b hb
    · obtain ⟨nodeResults, hin, hb⟩ := hlookup _ hpending
      exact hkept nodeResults (List.mem_append_right _ hin) b hb
  · split at hin
    · exact hnew b hin
    · cases hin

theorem reliable_of_known {a : CTrackOriginAddressAction} {key : ℕ}
    {newTransactions : BlockTransactions} {newInput : List CMerkleBlock}
    (hkept : ∀ nodeResults ∈ a.acceptedBlocks.entries ++ a.blocks.entries,
      ∀ b ∈ nodeResults.2, b = block)
    (hnew : ∀ b ∈ newInput, b = block)
    (hcovered : (∃ m ∈ a.media key, a.known key newInput m = []) ∨
      getUsedBitcoinNodesNumber ≤ (a.media key).card ∧ tx ∈ a.delivered key newTransactions key 5) :
    a.Reliable hashes key newTransactions newInput where
  forkFree := fun _ _ _ _ _ => rfl
  enough m b _ _ hall := by
    obtain ⟨m', hm', hempty⟩ | ⟨henough, -⟩ := hcovered
    · obtain ⟨b', hb', -⟩ := hall m' hm'
      rw [hempty] at hb'
      cases hb'
    · exact henough
  complete m b hb hall hash hhash := by
    obtain ⟨m', hm', hempty⟩ | ⟨-, htx⟩ := hcovered
    · obtain ⟨b', hb', -⟩ := hall m' hm'
      rw [hempty] at hb'
      cases hb'
    · rw [known_eq hkept hnew hb] at hhash
      have hmatched : block.vMatch hashes = [5] := by decide
      rw [hmatched, List.mem_singleton] at hhash
      exact ⟨key, tx, htx, hhash.symm⟩

/-- The third node completes the block, and the head moves. -/
theorem moved_by_three_nodes :
    ∃ a a', GuardedRun.run (step hashes) (some (start 0)) events = some a ∧
      step hashes (some a) (report 0 complete) = some a' ∧ a'.currentHash = 5 ∧
      MovesSafely hashes (events ++ [report 0 complete]) a a' := by
  have hguarded : GuardedRun.Guarded (step hashes) (ReliableEvent hashes) (some (start 0))
      (events ++ [report 0 complete]) := by
    refine ⟨?_, ?_, ?_, ?_, trivial⟩
    · rintro a ⟨⟩
      exact reliable_of_known (by decide) (by decide) (.inl ⟨0, by decide, rfl⟩)
    · rintro a ⟨⟩
      exact reliable_of_known (by decide) (by decide) (.inl ⟨0, by decide, rfl⟩)
    · rintro a ⟨⟩
      exact reliable_of_known (by decide) (by decide) (.inl ⟨0, by decide, rfl⟩)
    · rintro a ⟨⟩
      exact reliable_of_known (by decide) (by decide) (.inr ⟨by decide, by decide⟩)
  exact ⟨_, _, rfl, rfl, rfl, head_moves_safely hguarded rfl rfl⟩

end MatchedBlock

end Dims
