import Dims.PartialMerkleTree
import Dims.BloomFilter
import Dims.CreateTransaction

/-!
# Filtered blocks

A tracker asks bitcoin nodes for the transactions of a block that concern the origin
address. What comes back are a merkle block and, one by one, transactions. The medium keeps
a transaction that the last merkle block matches, and forgets the merkle block when it is
asked for what it has. It never compares the root of the partial tree with the header.
-/

namespace Dims
open ByteCodec Serialize

/-- The loop of the constructor of `CMerkleBlock`: which transactions are relevant, and the
filter behind them. -/
def CBloomFilter.matchTransactions (H : HashFunctions) :
    CBloomFilter → List CTransaction → List Bool × CBloomFilter
  | filter, [] => ([], filter)
  | filter, tx :: vtx =>
    let first := filter.isRelevantAndUpdate tx (tx.getHash H)
    let rest := matchTransactions H first.2 vtx
    (first.1 :: rest.1, rest.2)

namespace CBlock

variable (H : HashFunctions) (block : CBlock) (filter : CBloomFilter)

def vMatch : List Bool := (filter.matchTransactions H block.vtx).1

/-- `CMerkleBlock` of a block and a filter. -/
def toMerkleBlock : CMerkleBlock :=
  ⟨block.toCBlockHeader, .ofMatches H (block.txids H) (block.vMatch H filter)⟩

/-- The transactions of `vMatchedTxn`. -/
def matchedTransactions : List CTransaction :=
  ((block.vtx.zip (block.vMatch H filter)).filter (·.2)).map (·.1)

end CBlock

namespace CMerkleBlock

def serialize (merkle : CMerkleBlock) : Bytes :=
  CBlockHeader.codec.encode merkle.header ++ merkle.txn.serialize

def unserialize : Reader CMerkleBlock := fun bs =>
  (CBlockHeader.codec.decode bs).bind fun p =>
    (CPartialMerkleTree.unserialize p.2).map fun q => (⟨p.1, q.1⟩, q.2)

end CMerkleBlock

namespace CBitcoinNodeMedium

/-- A merkle block arrives, and transactions behind it. -/
def receive (H : HashFunctions) (m : CBitcoinNodeMedium) (bs : Bytes) (txs : List CTransaction) :
    Option CBitcoinNodeMedium :=
  (CMerkleBlock.unserialize bs).map fun p => txs.foldl (setTransaction H) (m.setMerkle p.1)

def keep (m : CBitcoinNodeMedium) (hash : Uint256) (txs : List CTransaction) : BlockTransactions :=
  if txs = [] then m.transactions
  else Function.update m.transactions hash (some ((m.transactions hash).getD [] ++ txs))

variable {H : HashFunctions} {merkle : CMerkleBlock} {txs : List CTransaction}

theorem foldl_setTransaction (m : CBitcoinNodeMedium) (hlast : m.merkles.getLast? = some merkle)
    (hmatch : ∀ tx ∈ txs, tx.getHash H ∈ merkle.vMatch H) :
    txs.foldl (setTransaction H) m = ⟨m.merkles, m.keep (merkle.getHash H) txs⟩ := by
  induction txs generalizing m with
  | nil => rfl
  | cons tx txs ih =>
    have hfirst : setTransaction H m tx = ⟨m.merkles, Function.update m.transactions
        (merkle.getHash H) (some ((m.transactions (merkle.getHash H)).getD [] ++ [tx]))⟩ := by
      simp only [setTransaction, hlast, if_pos (hmatch tx List.mem_cons_self)]
    have hrest := ih ⟨m.merkles, Function.update m.transactions (merkle.getHash H)
      (some ((m.transactions (merkle.getHash H)).getD [] ++ [tx]))⟩ hlast
      fun tx' htx' => hmatch tx' (List.mem_cons_of_mem tx htx')
    rw [List.foldl_cons, hfirst, hrest]
    by_cases hnil : txs = [] <;> simp [keep, hnil]

end CBitcoinNodeMedium

namespace CBloomFilter

variable {H : HashFunctions} {f : CBloomFilter}

theorem length_matchTransactions (f : CBloomFilter) (vtx : List CTransaction) :
    (f.matchTransactions H vtx).1.length = vtx.length := by
  induction vtx generalizing f with
  | nil => rfl
  | cons tx vtx ih => simp [matchTransactions, ih]

end CBloomFilter

namespace CBlock
open CPartialMerkleTree

variable {H : HashFunctions} {block : CBlock} {filter : CBloomFilter}

theorem length_vMatch : (block.vMatch H filter).length = block.vtx.length :=
  filter.length_matchTransactions block.vtx

theorem matched_txids : (((block.txids H).zip (block.vMatch H filter)).filter (·.2)).map (·.1) =
    (block.matchedTransactions H filter).map (·.getHash H) := by
  rw [txids, matchedTransactions, List.zip_map_left, List.filter_map, List.map_map, List.map_map]
  rfl

def readMerkleBlock (H : HashFunctions) (block : CBlock) (filter : CBloomFilter) : CMerkleBlock :=
  ⟨block.toCBlockHeader, (ofMatches H (block.txids H) (block.vMatch H filter)).readBack⟩

theorem unserialize_toMerkleBlock (hpos : 0 < block.vtx.length)
    (hcount : block.vtx.length ≤ 1000000 / 60) (rest : Bytes) :
    CMerkleBlock.unserialize ((block.toMerkleBlock H filter).serialize ++ rest) =
      some (block.readMerkleBlock H filter, rest) := by
  have hheader : CBlockHeader.codec.Fits block.toCBlockHeader :=
    ⟨int32_fits _, uint256_fits _, uint256_fits _, uint32_fits _, uint32_fits _, uint32_fits _⟩
  rw [← length_txids (H := H)] at hpos hcount
  rw [toMerkleBlock, CMerkleBlock.serialize, CMerkleBlock.unserialize, List.append_assoc,
    CBlockHeader.codec.decode_encode _ _ hheader, Option.bind_some,
    unserialize_serialize (fits_ofMatches hpos hcount)]
  rfl

theorem vMatch_readMerkleBlock (hpos : 0 < block.vtx.length)
    (hcount : block.vtx.length ≤ 1000000 / 60) :
    (block.readMerkleBlock H filter).vMatch H =
      (block.matchedTransactions H filter).map (·.getHash H) := by
  rw [← length_txids (H := H)] at hpos hcount
  have hlength : (block.vMatch H filter).length = (block.txids H).length := by
    rw [length_vMatch, length_txids]
  rw [CMerkleBlock.vMatch, readMerkleBlock, extractMatches_readBack hpos hcount hlength,
    matched_txids]

/-- The transactions that the merkle block of a block matches are kept for the hash of the block,
next to what was there. -/
theorem receive_matched (m : CBitcoinNodeMedium) (hpos : 0 < block.vtx.length)
    (hcount : block.vtx.length ≤ 1000000 / 60) :
    m.receive H (block.toMerkleBlock H filter).serialize (block.matchedTransactions H filter) =
      some ⟨m.merkles ++ [block.readMerkleBlock H filter],
        m.keep (block.toCBlockHeader.getHash H) (block.matchedTransactions H filter)⟩ := by
  have hread := @unserialize_toMerkleBlock H block filter hpos hcount []
  have hmatch : ∀ tx ∈ block.matchedTransactions H filter,
      tx.getHash H ∈ (block.readMerkleBlock H filter).vMatch H := by
    intro tx htx
    rw [vMatch_readMerkleBlock hpos hcount]
    exact List.mem_map_of_mem htx
  rw [List.append_nil] at hread
  rw [CBitcoinNodeMedium.receive, hread, Option.map_some,
    CBitcoinNodeMedium.foldl_setTransaction (m.setMerkle (block.readMerkleBlock H filter))
      List.getLast?_concat hmatch]
  rfl

end CBlock

/-- What reaches the medium: the bytes of a merkle block, a transaction, or the call that hands out
what is there. -/
inductive MediumEvent
  | merkleBlock (bs : Bytes)
  | transaction (tx : CTransaction)
  | getResponseAndClear

/-- The medium, and what it has handed out. -/
structure CollectedMedium where
  medium : CBitcoinNodeMedium
  handed : List (List CMerkleBlock × BlockTransactions)

namespace CollectedMedium

variable (H : HashFunctions)

/-- A merkle block that cannot be read is not set. -/
def step (s : CollectedMedium) : MediumEvent → CollectedMedium
  | .merkleBlock bs =>
    match CMerkleBlock.unserialize bs with
    | none => s
    | some (merkle, _) => { s with medium := s.medium.setMerkle merkle }
  | .transaction tx => { s with medium := s.medium.setTransaction H tx }
  | .getResponseAndClear =>
    ⟨s.medium.getResponseAndClear.2, s.handed ++ [s.medium.getResponseAndClear.1]⟩

/-- The transaction is there for the block, or has been handed out for it. -/
def Keeps (s : CollectedMedium) (hash : Uint256) (tx : CTransaction) : Prop :=
  tx ∈ (s.medium.transactions hash).getD [] ∨
    ∃ response ∈ s.handed, tx ∈ (response.2 hash).getD []

variable {H} {s : CollectedMedium} {hash : Uint256} {tx : CTransaction} {events : List MediumEvent}

theorem keeps_getResponseAndClear :
    (s.step H .getResponseAndClear).Keeps hash tx ↔ s.Keeps hash tx := by
  simp only [Keeps, step, CBitcoinNodeMedium.getResponseAndClear, CBitcoinNodeMedium.empty,
    Option.getD_none, List.not_mem_nil, false_or, List.mem_append, List.mem_singleton]
  constructor
  · rintro ⟨response, hresponse | rfl, htx⟩
    · exact .inr ⟨response, hresponse, htx⟩
    · exact .inl htx
  · rintro (htx | ⟨response, hresponse, htx⟩)
    · exact ⟨_, .inr rfl, htx⟩
    · exact ⟨response, .inl hresponse, htx⟩

end CollectedMedium

namespace SmallBlock

end SmallBlock

/-- `filterclear`: the filter that matches everything. -/
def CBloomFilter.filterclear : CBloomFilter := ⟨[], true, false, 0, 0, 0⟩

theorem CBlock.matchedTransactions_filterclear {H : HashFunctions} (block : CBlock) :
    block.matchedTransactions H .filterclear = block.vtx := by
  have hmatch : ∀ vtx : List CTransaction,
      ((vtx.zip (CBloomFilter.filterclear.matchTransactions H vtx).1).filter (·.2)).map (·.1) =
        vtx := by
    intro vtx
    induction vtx with
    | nil => rfl
    | cons tx vtx ih =>
      have hfirst : CBloomFilter.filterclear.isRelevantAndUpdate tx (tx.getHash H) =
          (true, .filterclear) := rfl
      simp only [CBloomFilter.matchTransactions, hfirst, List.zip_cons_cons, List.filter_cons,
        if_true, List.map_cons, ih]
  rw [matchedTransactions, vMatch, hmatch]

/-- The root of the partial tree is not compared with the header: whatever header is sent, and
whatever transactions behind it, they are kept for the block of the header. -/
theorem CMerkleBlock.kept_without_root (H : HashFunctions) (header : CBlockHeader)
    (txs : List CTransaction) (hpos : 0 < txs.length) (hcount : txs.length ≤ 1000000 / 60) :
    ∃ merkle : CMerkleBlock, merkle.header = header ∧ ∀ m : CBitcoinNodeMedium,
      ∃ m', m.receive H merkle.serialize txs = some m' ∧
        m'.transactions = m.keep (header.getHash H) txs := by
  have hmatched := CBlock.matchedTransactions_filterclear (H := H) ⟨header, txs⟩
  refine ⟨CBlock.toMerkleBlock H ⟨header, txs⟩ .filterclear, rfl, fun m => ?_⟩
  have hreceive := @CBlock.receive_matched H ⟨header, txs⟩ .filterclear m hpos hcount
  rw [hmatched] at hreceive
  exact ⟨_, hreceive, rfl⟩

/-- A header that names another root. -/
theorem SmallBlock.kept_for_header :
    ∃ merkle : CMerkleBlock, merkle.header = ⟨1, 0, 77, 0, 0, 0⟩ ∧ ∀ m : CBitcoinNodeMedium,
      ∃ m', m.receive hashes merkle.serialize block.vtx = some m' ∧
        m'.transactions = m.keep (CBlockHeader.getHash hashes ⟨1, 0, 77, 0, 0, 0⟩) block.vtx :=
  CMerkleBlock.kept_without_root hashes ⟨1, 0, 77, 0, 0, 0⟩ block.vtx (by decide) (by decide)

end Dims
