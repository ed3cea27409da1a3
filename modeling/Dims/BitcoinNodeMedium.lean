import Dims.Core

/-!
# What a bitcoin node reports

Merkle blocks, the transactions that their partial merkle trees match, and the
medium that collects both until they are asked for.
-/

namespace Dims
open ByteCodec Serialize

structure CBlockHeader where
  nVersion : Int32
  hashPrevBlock : Uint256
  hashMerkleRoot : Uint256
  nTime : UInt32
  nBits : UInt32
  nNonce : UInt32
  deriving DecidableEq, Repr

namespace CBlockHeader

def codec : Codec CBlockHeader :=
  (int32.prod (uint256.prod (uint256.prod (uint32.prod (uint32.prod uint32))))).imap
    (fun h => (h.nVersion, h.hashPrevBlock, h.hashMerkleRoot, h.nTime, h.nBits, h.nNonce))
    (fun p => ⟨p.1, p.2.1, p.2.2.1, p.2.2.2.1, p.2.2.2.2.1, p.2.2.2.2.2⟩) (fun _ => rfl)

/-- The digest of the memory from the version to the nonce. -/
def getHash (H : HashFunctions) (h : CBlockHeader) : Uint256 := H.hash (codec.encode h)

end CBlockHeader

structure CPartialMerkleTree where
  nTransactions : UInt32
  vBits : List Bool
  vHash : List Uint256
  fBad : Bool
  deriving DecidableEq, Repr

namespace CPartialMerkleTree

/-- The bits and hashes that are not used yet, the matches so far, and whether
invalid data has been met. -/
structure Traversal where
  bits : List Bool
  hashes : List Uint256
  vMatch : List Uint256
  fBad : Bool

/-- The number of nodes at a height, the leaves being at height 0. -/
def calcTreeWidth (nTransactions height : ℕ) : ℕ :=
  (nTransactions + 2 ^ height - 1) / 2 ^ height

def nHeight (nTransactions : ℕ) : ℕ :=
  ((List.range 32).find? fun height => calcTreeWidth nTransactions height ≤ 1).getD 32

variable (H : HashFunctions)

/-- The stored hash of a node that is not descended from. -/
def useHash (isMatch : Bool) (t : Traversal) : Uint256 × Traversal :=
  match t.hashes with
  | [] => (0, { t with fBad := true })
  | hash :: hashes =>
    (hash, { t with
      hashes := hashes
      vMatch := if isMatch then t.vMatch ++ [hash] else t.vMatch })

def traverseAndExtract (nTransactions : ℕ) : ℕ → ℕ → Traversal → Uint256 × Traversal
  | 0, _, t =>
    match t.bits with
    | [] => (0, { t with fBad := true })
    | fParentOfMatch :: bits => useHash fParentOfMatch { t with bits := bits }
  | height + 1, pos, t =>
    match t.bits with
    | [] => (0, { t with fBad := true })
    | false :: bits => useHash false { t with bits := bits }
    | true :: bits =>
      let left := traverseAndExtract nTransactions height (pos * 2) { t with bits := bits }
      let right :=
        if pos * 2 + 1 < calcTreeWidth nTransactions height then
          traverseAndExtract nTransactions height (pos * 2 + 1) left.2
        else left
      (H.hash (uint256.encode left.1 ++ uint256.encode right.1), right.2)

/-- `ExtractMatches`: the root, 0 in case of failure, and the matches. -/
def extractMatches (tree : CPartialMerkleTree) : Uint256 × List Uint256 :=
  let n := tree.nTransactions.toNat
  if n = 0 ∨ 1000000 / 60 < n ∨ n < tree.vHash.length ∨ tree.vBits.length < tree.vHash.length then
    (0, [])
  else
    let result := traverseAndExtract H n (nHeight n) 0 ⟨tree.vBits, tree.vHash, [], tree.fBad⟩
    let nBitsUsed := tree.vBits.length - result.2.bits.length
    if result.2.fBad ∨ (nBitsUsed + 7) / 8 ≠ (tree.vBits.length + 7) / 8 ∨ result.2.hashes ≠ [] then
      (0, result.2.vMatch)
    else (result.1, result.2.vMatch)

end CPartialMerkleTree

structure CMerkleBlock where
  header : CBlockHeader
  txn : CPartialMerkleTree
  deriving DecidableEq, Repr

namespace CMerkleBlock

variable (H : HashFunctions)

def getHash (b : CMerkleBlock) : Uint256 := b.header.getHash H

def hashPrevBlock (b : CMerkleBlock) : Uint256 := b.header.hashPrevBlock

def vMatch (b : CMerkleBlock) : List Uint256 := (b.txn.extractMatches H).2

end CMerkleBlock

abbrev BlockTransactions := Uint256 → Option (List CTransaction)

structure CBitcoinNodeMedium where
  merkles : List CMerkleBlock
  transactions : BlockTransactions

namespace CBitcoinNodeMedium

def empty : CBitcoinNodeMedium := ⟨[], fun _ => none⟩

def setMerkle (m : CBitcoinNodeMedium) (merkle : CMerkleBlock) : CBitcoinNodeMedium :=
  { m with merkles := m.merkles ++ [merkle] }

/-- A transaction is kept if the last block matches it. -/
def setTransaction (H : HashFunctions) (m : CBitcoinNodeMedium) (tx : CTransaction) :
    CBitcoinNodeMedium :=
  match m.merkles.getLast? with
  | none => m
  | some last =>
    let hash := last.getHash H
    if tx.getHash H ∈ last.vMatch H then
      let kept := (m.transactions hash).getD [] ++ [tx]
      { m with transactions := Function.update m.transactions hash (some kept) }
    else m

/-- What is there is handed out and forgotten. -/
def getResponseAndClear (m : CBitcoinNodeMedium) :
    (List CMerkleBlock × BlockTransactions) × CBitcoinNodeMedium :=
  ((m.merkles, m.transactions), empty)

end CBitcoinNodeMedium

end Dims
