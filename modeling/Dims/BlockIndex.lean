import Dims.BitcoinNodeMedium
import Dims.OrderedMap
import Dims.OrderedSet

/-!
# The index of the blocks

Every header that the bitcoin nodes send is filed under its hash. The active chain ends
in the entry with the most work behind it. A header that comes before its predecessor is
kept apart, without height and work, until the predecessor is there. Pointers to entries
are the hashes that the entries are filed under.
-/

namespace Dims

/-- `CBlockIndex`. -/
structure CBlockIndexEntry where
  pprev : Option Uint256
  nHeight : ℕ
  nChainWork : Uint256
  nVersion : Int32
  hashMerkleRoot : Uint256
  nTime : UInt32
  nBits : UInt32
  nNonce : UInt32
  nSequenceId : UInt32
  deriving DecidableEq

/-- `CBigNum::SetCompact`: eight bits of size, one of sign, the rest of mantissa. -/
def setCompact (nCompact : UInt32) : ℤ :=
  let nSize := nCompact.toNat / 2 ^ 24
  let nWord := nCompact.toNat % 2 ^ 23
  let magnitude : ℕ :=
    if nSize ≤ 3 then nWord / 2 ^ (8 * (3 - nSize)) else nWord * 2 ^ (8 * (nSize - 3))
  if nCompact.toNat / 2 ^ 23 % 2 = 1 then -(magnitude : ℤ) else magnitude

namespace CBlockIndexEntry

def ofHeader (block : CBlockHeader) : CBlockIndexEntry where
  pprev := none
  nHeight := 0
  nChainWork := 0
  nVersion := block.nVersion
  hashMerkleRoot := block.hashMerkleRoot
  nTime := block.nTime
  nBits := block.nBits
  nNonce := block.nNonce
  nSequenceId := 0

def getBlockHeader (pindex : CBlockIndexEntry) : CBlockHeader where
  nVersion := pindex.nVersion
  hashPrevBlock := pindex.pprev.getD 0
  hashMerkleRoot := pindex.hashMerkleRoot
  nTime := pindex.nTime
  nBits := pindex.nBits
  nNonce := pindex.nNonce

/-- How many hashes are tried before one is below the target, as the low 256 bits. -/
def getBlockWork (nBits : UInt32) : Uint256 :=
  if setCompact nBits ≤ 0 then 0 else .ofNat 256 (2 ^ 256 / (setCompact nBits + 1).toNat)

/-- What an entry has from its predecessor. -/
def linkTo (pindex : CBlockIndexEntry) (hashPrev : Uint256) (previous : CBlockIndexEntry) : CBlockIndexEntry :=
  { pindex with
    pprev := some hashPrev
    nHeight := previous.nHeight + 1
    nChainWork := previous.nChainWork + getBlockWork pindex.nBits }

end CBlockIndexEntry

/-- `vChain`: pointers to entries, null where nothing has been written. -/
abbrev CChain := List (Option Uint256)

abbrev BlockMap := OrderedMap Uint256 CBlockIndexEntry

namespace CChain

def genesis (chain : CChain) : Option Uint256 := chain.head?.join

def tip (chain : CChain) : Option Uint256 := chain.getLast?.join

/-- `operator[]`: null outside of the chain. -/
def at' (chain : CChain) (nHeight : ℕ) : Option Uint256 := chain[nHeight]?.join

def contains (chain : CChain) (hash : Uint256) (pindex : CBlockIndexEntry) : Bool :=
  chain.at' pindex.nHeight = some hash

def resize (chain : CChain) (size : ℕ) : CChain :=
  chain.take size ++ List.replicate (size - chain.length) none

variable (mapBlockIndex : BlockMap)

/-- The loop of `SetTip`, from an entry towards the root. It fails where the memory of the
chain is left. No path is longer than there are entries. -/
def writeBack : ℕ → CChain → Option Uint256 → Option CChain
  | _, chain, none => some chain
  | 0, _, some _ => none
  | fuel + 1, chain, some hash => do
    let pindex ← mapBlockIndex.lookup hash
    if chain.length ≤ pindex.nHeight then none
    else if chain.contains hash pindex then some chain
    else writeBack fuel (chain.set pindex.nHeight (some hash)) pindex.pprev

def setTip (chain : CChain) : Option Uint256 → Option CChain
  | none => some []
  | some hash => do
    let pindex ← mapBlockIndex.lookup hash
    writeBack mapBlockIndex mapBlockIndex.entries.length (chain.resize (pindex.nHeight + 1))
      (some hash)

end CChain

/-- `CBlockIndexWorkComparator`: most work first, then the earliest, then the address that
the entry of a hash has. -/
def blockIndexWorkComparator (address : Uint256 → ℕ) (pa pb : Uint256 × CBlockIndexEntry) : Bool :=
  if pb.2.nChainWork < pa.2.nChainWork then false
  else if pa.2.nChainWork < pb.2.nChainWork then true
  else if pa.2.nSequenceId < pb.2.nSequenceId then false
  else if pb.2.nSequenceId < pa.2.nSequenceId then true
  else address pb.1 < address pa.1

/-- What `rbegin` of a set in the order of the comparator points at. -/
def greatest (address : Uint256 → ℕ) : List (Uint256 × CBlockIndexEntry) → Option (Uint256 × CBlockIndexEntry)
  | [] => none
  | entry :: entries =>
    match greatest address entries with
    | none => some entry
    | some other => if blockIndexWorkComparator address entry other then some other else some entry

structure ChainState where
  mapBlockIndex : BlockMap
  /-- The headers that wait, with the hash of the predecessor. -/
  m_hashToPreviousHash : OrderedMap Uint256 Uint256
  setBlockIndexValid : List Uint256
  chainActive : CChain
  chainMostWork : CChain
  nBlockSequenceId : UInt32

namespace ChainState

def empty : ChainState := ⟨.empty, .empty, [], [], [], 1⟩

variable (H : HashFunctions) (address : Uint256 → ℕ)

/-- The header of the file named head becomes the only entry. What waits stays. -/
def resetChains (header : CBlockHeader) (s : ChainState) : ChainState :=
  let hash := header.getHash H
  { s with
    mapBlockIndex := OrderedMap.empty.assign hash (.ofHeader header)
    chainActive := [some hash]
    chainMostWork := [some hash]
    setBlockIndexValid := [] }

/-- The members of `setBlockIndexValid`. -/
def candidates (s : ChainState) : List (Uint256 × CBlockIndexEntry) :=
  s.setBlockIndexValid.filterMap fun hash => (s.mapBlockIndex.lookup hash).map (hash, ·)

def findMostWorkChain (s : ChainState) : Option ChainState :=
  match greatest address s.candidates with
  | none => some s
  | some pindexNew =>
    match s.chainMostWork.tip with
    | none => do
      let chain ← s.chainMostWork.setTip s.mapBlockIndex pindexNew.1
      some { s with chainMostWork := chain }
    | some tip => do
      let pindex ← s.mapBlockIndex.lookup tip
      if blockIndexWorkComparator address (tip, pindex) pindexNew then
        let chain ← s.chainMostWork.setTip s.mapBlockIndex pindexNew.1
        some { s with chainMostWork := chain }
      else some s

/-- The loop with `DisconnectTip`, which refuses to disconnect a root. -/
def disconnectTips : ℕ → ChainState → Option (Bool × ChainState)
  | 0, _ => none
  | fuel + 1, s =>
    match s.chainActive.tip with
    | none => some (true, s)
    | some tip => do
      let pindexDelete ← s.mapBlockIndex.lookup tip
      if s.chainMostWork.contains tip pindexDelete then some (true, s)
      else
        match pindexDelete.pprev with
        | none => some (false, s)
        | some prev => do
          let chain ← s.chainActive.setTip s.mapBlockIndex prev
          disconnectTips fuel { s with chainActive := chain }

/-- The loop that connects up to the tip of the chain with the most work. `UpdateTip` reads
the new tip, so there has to be one. -/
def connectTips (tip : Uint256) : ℕ → ChainState → Option ChainState
  | 0, _ => none
  | fuel + 1, s => do
    let pindex ← s.mapBlockIndex.lookup tip
    if s.chainActive.contains tip pindex then some s
    else
      let pindexConnect ← s.chainMostWork.at' s.chainActive.length
      let chain ← s.chainActive.setTip s.mapBlockIndex pindexConnect
      connectTips tip fuel { s with chainActive := chain }

def activateBestChain (s : ChainState) : Option (Bool × ChainState) := do
  let s ← findMostWorkChain address s
  match s.chainMostWork.tip with
  | none => some (true, s)
  | some tip =>
    let (disconnected, s) ← disconnectTips (s.chainActive.length + 1) s
    if disconnected then
      let s ← connectTips tip (s.chainMostWork.length + 1) s
      some (true, s)
    else some (false, s)

/-- The loop over the headers that wait: the entries, the set, and what no longer waits. A
waiting header has an entry. -/
def connectWaiting : List (Uint256 × Uint256) → BlockMap → List Uint256 →
    Option (BlockMap × List Uint256 × List Uint256)
  | [], mapBlockIndex, setBlockIndexValid => some (mapBlockIndex, setBlockIndexValid, [])
  | (hash, hashPrev) :: rest, mapBlockIndex, setBlockIndexValid =>
    match mapBlockIndex.lookup hashPrev with
    | none => connectWaiting rest mapBlockIndex setBlockIndexValid
    | some previous => do
      let alone ← mapBlockIndex.lookup hash
      let (mapBlockIndex, setBlockIndexValid, toErase) ←
        connectWaiting rest (mapBlockIndex.assign hash (alone.linkTo hashPrev previous))
          (setBlockIndexValid.insert hash)
      some (mapBlockIndex, setBlockIndexValid, hash :: toErase)

/-- The part of `AddToBlockIndex` for a header that does not wait. -/
def connectNew (hash : Uint256) (pindexNew : CBlockIndexEntry) (s : ChainState) :
    Option (Bool × ChainState) := do
  let (mapBlockIndex, setBlockIndexValid, toErase) ←
    connectWaiting s.m_hashToPreviousHash.entries (s.mapBlockIndex.assign hash pindexNew)
      s.setBlockIndexValid
  activateBestChain address { s with
    mapBlockIndex := mapBlockIndex
    m_hashToPreviousHash := toErase.foldl OrderedMap.erase s.m_hashToPreviousHash
    setBlockIndexValid := setBlockIndexValid.insert hash }

/-- Whether the tip is more than an hour younger. -/
def leavesOld (block : CBlockHeader) (s : ChainState) : Option Bool :=
  if s.chainActive = [] then some false
  else do
    let tip ← s.chainActive.tip
    let pindex ← s.mapBlockIndex.lookup tip
    some (decide (block.nTime.toNat + 3600 < pindex.nTime.toNat))

/-- It fails where the code would read through a null pointer, or leave the memory of a
chain, or not find what it asserts to be there. -/
def addToBlockIndex (block : CBlockHeader) (s : ChainState) : Option (Bool × ChainState) := do
  if ← leavesOld block s then
    return (false, s)
  let pindexNew := { CBlockIndexEntry.ofHeader block with nSequenceId := s.nBlockSequenceId }
  let s := { s with nBlockSequenceId := s.nBlockSequenceId + 1 }
  let hash := block.getHash H
  if (s.mapBlockIndex.lookup hash).isSome then
    return (false, s)
  let mapBlockIndex := s.mapBlockIndex.assign hash pindexNew
  match mapBlockIndex.lookup block.hashPrevBlock with
  | some previous =>
    connectNew address hash (pindexNew.linkTo block.hashPrevBlock previous) s
  | none =>
    if s.chainActive = [] then
      connectNew address hash
        { pindexNew with nChainWork := CBlockIndexEntry.getBlockWork block.nBits } s
    else
      return (true, { s with
        mapBlockIndex := mapBlockIndex
        m_hashToPreviousHash := s.m_hashToPreviousHash.insertNew hash block.hashPrevBlock })

/-- The headers of a message, one after the other, with those that are taken up. -/
def addHeaders : List CBlockHeader → ChainState → Option (List CBlockHeader × ChainState)
  | [], s => some ([], s)
  | block :: rest, s => do
    let (added, s) ← addToBlockIndex H address block s
    let (accepted, s) ← addHeaders rest s
    some (if added then (block :: accepted, s) else (accepted, s))

end ChainState

end Dims
