import Dims.HashTree
import Dims.BitcoinNodeMedium
import Mathlib.Data.List.GetD
import Mathlib.Tactic.IntervalCases

/-!
# Partial merkle trees

`BuildMerkleTree` of core.cpp and `CPartialMerkleTree` of main.cpp. A partial tree that is
built, written and read back tells the root of the block and the transactions that were
asked for. A partial tree with the root of a block, for as many transactions as the block
has, tells transactions of the block.
-/

namespace Dims
open ByteCodec Serialize HashTree

def hashPair (H : HashFunctions) (left right : Uint256) : Uint256 :=
  H.hash (uint256.encode left ++ uint256.encode right)

/-- The block, without `vMerkleTree`, which `BuildMerkleTree` fills. -/
structure CBlock extends CBlockHeader where
  vtx : List CTransaction
  deriving DecidableEq, Repr

namespace CBlock

variable (H : HashFunctions)

/-- The hashes that are pushed for the row of `nSize` hashes from `j` on. -/
def nextRow (vMerkleTree : List Uint256) (j nSize : ℕ) : List Uint256 :=
  (List.range ((nSize + 1) / 2)).map fun k =>
    hashPair H (vMerkleTree.getD (j + 2 * k) 0)
      (vMerkleTree.getD (j + min (2 * k + 1) (nSize - 1)) 0)

/-- The loop of `BuildMerkleTree`. -/
def merkleRows : ℕ → List Uint256 → ℕ → ℕ → List Uint256
  | 0, vMerkleTree, _, _ => vMerkleTree
  | fuel + 1, vMerkleTree, j, nSize =>
    if 1 < nSize then
      merkleRows fuel (vMerkleTree ++ nextRow H vMerkleTree j nSize) (j + nSize) ((nSize + 1) / 2)
    else vMerkleTree

def txids (block : CBlock) : List Uint256 := block.vtx.map (·.getHash H)

/-- `BuildMerkleTree`: the root, 0 for a block without transactions. -/
def buildMerkleTree (block : CBlock) : Uint256 :=
  (merkleRows H block.vtx.length (block.txids H) 0 block.vtx.length).getLastD 0

end CBlock

namespace CPartialMerkleTree

section Build

variable (H : HashFunctions) (vTxid : List Uint256) (vMatch : List Bool)

/-- `CalcHash` -/
def calcHash : ℕ → ℕ → Uint256
  | 0, pos => vTxid.getD pos 0
  | height + 1, pos =>
    let left := calcHash height (pos * 2)
    let right :=
      if pos * 2 + 1 < calcTreeWidth vTxid.length height then calcHash height (pos * 2 + 1)
      else left
    hashPair H left right

/-- A node is above a transaction that is asked for. -/
def parentOfMatch (height pos : ℕ) : Bool :=
  (List.range' (pos * 2 ^ height) (min ((pos + 1) * 2 ^ height) vTxid.length - pos * 2 ^ height)).any
    (vMatch.getD · false)

/-- The bits and the hashes that `TraverseAndBuild` pushes. -/
def traverseAndBuild : ℕ → ℕ → List Bool × List Uint256
  | 0, pos => ([parentOfMatch vTxid vMatch 0 pos], [calcHash H vTxid 0 pos])
  | height + 1, pos =>
    if parentOfMatch vTxid vMatch (height + 1) pos then
      let left := traverseAndBuild height (pos * 2)
      if pos * 2 + 1 < calcTreeWidth vTxid.length height then
        let right := traverseAndBuild height (pos * 2 + 1)
        (true :: (left.1 ++ right.1), left.2 ++ right.2)
      else (true :: left.1, left.2)
    else ([false], [calcHash H vTxid (height + 1) pos])

/-- The tree for the transactions of a block and the ones that are asked for. -/
def ofMatches : CPartialMerkleTree :=
  let built := traverseAndBuild H vTxid vMatch (nHeight vTxid.length) 0
  ⟨UInt32.ofNat vTxid.length, built.1, built.2, false⟩

end Build

section Wire

/-- Eight bits in a byte, the first the lowest. -/
def packByte (b0 b1 b2 b3 b4 b5 b6 b7 : Bool) : UInt8 :=
  b0.toUInt8 <<< 0 ||| b1.toUInt8 <<< 1 ||| b2.toUInt8 <<< 2 ||| b3.toUInt8 <<< 3 |||
    b4.toUInt8 <<< 4 ||| b5.toUInt8 <<< 5 ||| b6.toUInt8 <<< 6 ||| b7.toUInt8 <<< 7

def packBits (vBits : List Bool) : Bytes :=
  (List.range ((vBits.length + 7) / 8)).map fun k =>
    let bit (i : ℕ) := vBits.getD (8 * k + i) false
    packByte (bit 0) (bit 1) (bit 2) (bit 3) (bit 4) (bit 5) (bit 6) (bit 7)

def unpackBits (vBytes : Bytes) : List Bool :=
  (List.range (vBytes.length * 8)).map fun p =>
    vBytes.getD (p / 8) 0 &&& (1 <<< UInt8.ofNat (p % 8)) ≠ 0

def wireCodec : Codec (UInt32 × List Uint256 × Bytes) :=
  uint32.prod ((vector uint256).prod byteVector)

def toWire (tree : CPartialMerkleTree) : UInt32 × List Uint256 × Bytes :=
  (tree.nTransactions, tree.vHash, packBits tree.vBits)

def serialize (tree : CPartialMerkleTree) : Bytes := wireCodec.encode tree.toWire

def unserialize : Reader CPartialMerkleTree := fun bs =>
  (wireCodec.decode bs).map fun p => (⟨p.1.1, unpackBits p.1.2.2, p.1.2.1, false⟩, p.2)

end Wire

section Bits

theorem packByte_bit :
    ∀ b0 b1 b2 b3 b4 b5 b6 b7 : Bool, ∀ i < 8,
      decide (packByte b0 b1 b2 b3 b4 b5 b6 b7 &&& (1 <<< UInt8.ofNat i) ≠ 0) =
        [b0, b1, b2, b3, b4, b5, b6, b7].getD i false := by
  decide +kernel

theorem getD_packBits {vBits : List Bool} {p : ℕ} (hp : p < (vBits.length + 7) / 8 * 8) :
    decide ((packBits vBits).getD (p / 8) 0 &&& (1 <<< UInt8.ofNat (p % 8)) ≠ 0) =
      vBits.getD p false := by
  have hbyte : p / 8 < (vBits.length + 7) / 8 := by omega
  have hbit : p % 8 < 8 := Nat.mod_lt _ (by norm_num)
  simp only [packBits, List.getD_eq_getElem?_getD, List.getElem?_map, List.getElem?_range hbyte,
    Option.map_some, Option.getD_some]
  rw [packByte_bit _ _ _ _ _ _ _ _ _ hbit]
  have hp' : 8 * (p / 8) + p % 8 = p := Nat.div_add_mod p 8
  generalize p % 8 = i at hbit hp'
  interval_cases i <;> simp [hp']

/-- The bits are read back, with false behind them up to a whole byte. -/
theorem unpackBits_packBits (vBits : List Bool) :
    unpackBits (packBits vBits) =
      vBits ++ List.replicate ((vBits.length + 7) / 8 * 8 - vBits.length) false := by
  have hlength : (packBits vBits).length = (vBits.length + 7) / 8 := by simp [packBits]
  apply List.ext_getElem
  · simp only [unpackBits, List.length_map, List.length_range, hlength, List.length_append,
      List.length_replicate]
    omega
  · intro p hp _
    simp only [unpackBits, List.length_map, List.length_range, hlength] at hp
    simp only [unpackBits, List.getElem_map, List.getElem_range, getD_packBits hp]
    by_cases hlt : p < vBits.length
    · rw [List.getElem_append_left hlt, List.getD_eq_getElem _ _ hlt]
    · rw [List.getElem_append_right (by omega), List.getElem_replicate,
        List.getD_eq_default _ _ (by omega)]

/-- The tree that is read where this one was written: its bits are filled up to a whole byte. -/
def readBack (tree : CPartialMerkleTree) : CPartialMerkleTree where
  nTransactions := tree.nTransactions
  vBits := tree.vBits ++ List.replicate ((tree.vBits.length + 7) / 8 * 8 - tree.vBits.length) false
  vHash := tree.vHash
  fBad := false

theorem unserialize_serialize {tree : CPartialMerkleTree} (h : wireCodec.Fits tree.toWire)
    (rest : Bytes) : unserialize (tree.serialize ++ rest) = some (tree.readBack, rest) := by
  rw [serialize, unserialize, wireCodec.decode_encode _ _ h]
  simp only [Option.map_some, toWire, unpackBits_packBits]
  rfl

end Bits

section Height

variable {n : ℕ}

theorem width_nHeight_le (hmax : n ≤ 2 ^ 31) : width n (nHeight n) ≤ 1 := by
  have hsome : ((List.range 32).find? fun height => calcTreeWidth n height ≤ 1).isSome = true := by
    rw [List.find?_isSome]
    refine ⟨31, by simp, decide_eq_true ?_⟩
    have hone : ¬ 1 < width n 31 := by
      rw [lt_width_iff]
      omega
    exact Nat.not_lt.mp hone
  obtain ⟨height, hheight⟩ := Option.isSome_iff_exists.mp hsome
  have hle := List.find?_some hheight
  rw [nHeight, hheight]
  exact of_decide_eq_true hle

theorem one_lt_width_of_lt {height : ℕ} (h : height < nHeight n) : 1 < width n height := by
  by_contra hle
  have hheight : height < 32 := by
    refine lt_of_lt_of_le h ?_
    rw [nHeight]
    cases hfind : (List.range 32).find? fun height => calcTreeWidth n height ≤ 1 with
    | none => exact le_refl _
    | some found => exact (List.mem_range.mp (List.mem_of_find?_eq_some hfind)).le
  cases hfind : (List.range 32).find? fun height => calcTreeWidth n height ≤ 1 with
  | none =>
    have := List.find?_eq_none.mp hfind height (List.mem_range.mpr hheight)
    exact this (decide_eq_true (Nat.not_lt.mp hle))
  | some found =>
    rw [nHeight, hfind, Option.getD_some] at h
    obtain ⟨-, k, hk, hat, hbefore⟩ := List.find?_eq_some_iff_getElem.mp hfind
    rw [List.getElem_range] at hat
    have := hbefore height (by omega)
    rw [List.getElem_range] at this
    simp only [Bool.not_eq_true', decide_eq_false_iff_not] at this
    exact this (Nat.not_lt.mp hle)

theorem under_nHeight (hn : 0 < n) (hmax : n ≤ 2 ^ 31) : under n (nHeight n) 0 = List.range n := by
  have hroot : 0 < width n (nHeight n) := by
    rw [lt_width_iff]
    omega
  have hle : ¬ 1 < width n (nHeight n) := Nat.not_lt.mpr (width_nHeight_le hmax)
  rw [lt_width_iff] at hle
  rw [under_eq hroot, Nat.zero_mul, Nat.sub_zero, Nat.min_eq_right (by omega), List.range_eq_range']

end Height

theorem calcTreeWidth_eq (nTransactions height : ℕ) :
    calcTreeWidth nTransactions height = width nTransactions height := rfl

section Build

variable {H : HashFunctions} {vTxid : List Uint256} {vMatch : List Bool}

theorem calcHash_eq (height pos : ℕ) :
    calcHash H vTxid height pos =
      node (hashPair H) vTxid.length (vTxid.getD · 0) height pos := by
  induction height generalizing pos with
  | zero => rfl
  | succ height ih =>
    simp only [calcHash, node, ih]
    rfl

theorem parentOfMatch_eq {height pos : ℕ} (hpos : pos < width vTxid.length height) :
    parentOfMatch vTxid vMatch height pos =
      (under vTxid.length height pos).any (vMatch.getD · false) := by
  rw [parentOfMatch, under_eq hpos, Nat.succ_mul, ← Nat.sub_min_sub_right, Nat.add_sub_cancel_left]

/-- What is pushed is the tree pruned to what is asked for. -/
theorem traverseAndBuild_eq {height pos : ℕ} (hpos : pos < width vTxid.length height) :
    traverseAndBuild H vTxid vMatch height pos =
      ((Pruned.prune (hashPair H) vTxid.length (vTxid.getD · 0) (vMatch.getD · false) height pos).bits,
        (Pruned.prune (hashPair H) vTxid.length (vTxid.getD · 0) (vMatch.getD · false) height
          pos).hashes) := by
  induction height generalizing pos with
  | zero =>
    rw [traverseAndBuild, parentOfMatch_eq hpos, calcHash_eq, Pruned.prune, under]
    simp only [List.any_cons, List.any_nil, Bool.or_false]
    cases vMatch.getD pos false <;> rfl
  | succ height ih =>
    rw [traverseAndBuild, parentOfMatch_eq hpos, Pruned.prune, calcHash_eq]
    split
    · by_cases hright : pos * 2 + 1 < width vTxid.length height
      · simp only [calcTreeWidth_eq, hright, if_true, ih (left_lt_width.mpr hpos), ih hright]
        rfl
      · simp only [calcTreeWidth_eq, hright, if_false, ih (left_lt_width.mpr hpos)]
        rfl
    · rfl

end Build

section Extract

variable {H : HashFunctions} {n height pos : ℕ} {bits bits' : List Bool}
  {hashes hashes' vMatch : List Uint256} {fBad : Bool} {t : Pruned Uint256}

theorem fBad_traverseAndExtract (T : Traversal) (h : T.fBad = true) :
    (traverseAndExtract H n height pos T).2.fBad = true := by
  have huse : ∀ isMatch (T : Traversal), T.fBad = true → (useHash isMatch T).2.fBad = true := by
    intro isMatch T hT
    unfold useHash
    split
    · rfl
    · exact hT
  induction height generalizing pos T with
  | zero =>
    unfold traverseAndExtract
    split
    · rfl
    · exact huse _ _ h
  | succ height ih =>
    unfold traverseAndExtract
    split
    · rfl
    · exact huse _ _ h
    · dsimp only
      split
      · exact ih _ (ih _ h)
      · exact ih _ h

/-- A tree that can be parsed is traversed to its root and to what was asked for. -/
theorem traverseAndExtract_of_parse
    (h : Pruned.parse n height pos bits hashes = some (t, bits', hashes')) :
    traverseAndExtract H n height pos ⟨bits, hashes, vMatch, fBad⟩ =
      (t.root (hashPair H), ⟨bits', hashes', vMatch ++ t.hits, fBad⟩) := by
  induction height generalizing pos bits bits' hashes hashes' vMatch t with
  | zero =>
    cases bits with
    | nil => cases h
    | cons isMatch bits =>
      cases hashes with
      | nil => cases h
      | cons hash hashes =>
        cases h
        cases isMatch <;> simp [traverseAndExtract, useHash, Pruned.root, Pruned.hits]
  | succ height ih =>
    cases bits with
    | nil => cases h
    | cons isMatch bits =>
      cases isMatch with
      | false =>
        cases hashes with
        | nil => cases h
        | cons hash hashes =>
          cases h
          simp [traverseAndExtract, useHash, Pruned.root, Pruned.hits]
      | true =>
        obtain ⟨⟨left, lbits, lhashes⟩, hleft, h⟩ := Option.bind_eq_some_iff.mp h
        simp only [traverseAndExtract, ih hleft]
        by_cases hright : pos * 2 + 1 < width n height
        · rw [if_pos hright] at h
          obtain ⟨⟨right, rbits, rhashes⟩, hparsed, heq⟩ := Option.map_eq_some_iff.mp h
          cases heq
          rw [calcTreeWidth_eq, if_pos hright, ih hparsed]
          simp [Pruned.root, Pruned.hits, hashPair]
        · rw [if_neg hright] at h
          cases h
          rw [calcTreeWidth_eq, if_neg hright]
          simp [Pruned.root, Pruned.hits, hashPair]

theorem traverseAndExtract_of_parse_none (h : Pruned.parse n height pos bits hashes = none) :
    (traverseAndExtract H n height pos ⟨bits, hashes, vMatch, fBad⟩).2.fBad = true := by
  induction height generalizing pos bits hashes vMatch fBad with
  | zero =>
    cases bits with
    | nil => rfl
    | cons isMatch bits =>
      cases hashes with
      | nil => rfl
      | cons hash hashes => cases h
  | succ height ih =>
    cases bits with
    | nil => rfl
    | cons isMatch bits =>
      cases isMatch with
      | false =>
        cases hashes with
        | nil => rfl
        | cons hash hashes => cases h
      | true =>
        simp only [traverseAndExtract]
        cases hleft : Pruned.parse n height (pos * 2) bits hashes with
        | none =>
          have hbad := @ih (pos * 2) bits hashes vMatch fBad hleft
          split
          · exact fBad_traverseAndExtract _ hbad
          · exact hbad
        | some left =>
          obtain ⟨left, lbits, lhashes⟩ := left
          simp only [Pruned.parse, hleft, Option.bind_some] at h
          rw [traverseAndExtract_of_parse hleft]
          by_cases hright : pos * 2 + 1 < width n height
          · rw [if_pos hright, Option.map_eq_none_iff] at h
            rw [calcTreeWidth_eq, if_pos hright]
            exact ih h
          · rw [if_neg hright] at h
            cases h

end Extract

section Matches

variable {H : HashFunctions} {tree : CPartialMerkleTree} {t : Pruned Uint256}

/-- The bits and hashes are those of a pruned tree over an acceptable number of transactions,
with less than a byte of bits behind them. -/
structure Extracts (tree : CPartialMerkleTree) (t : Pruned Uint256) : Prop where
  count : 0 < tree.nTransactions.toNat ∧ tree.nTransactions.toNat ≤ 1000000 / 60
  shape : Pruned.Shape tree.nTransactions.toNat (nHeight tree.nTransactions.toNat) 0 t
  bits : ∃ padding, tree.vBits = t.bits ++ padding
  padding : (t.bits.length + 7) / 8 = (tree.vBits.length + 7) / 8
  hashes : tree.vHash = t.hashes
  good : tree.fBad = false

theorem extractMatches_of_extracts (h : Extracts tree t) :
    extractMatches H tree = (t.root (hashPair H), t.hits) := by
  obtain ⟨⟨hpos, hcount⟩, hshape, ⟨padding, hbits⟩, hpadding, hhashes, hgood⟩ := h
  have hparse : Pruned.parse tree.nTransactions.toNat (nHeight tree.nTransactions.toNat) 0
      tree.vBits tree.vHash = some (t, padding, []) :=
    Pruned.parse_eq_some_iff.mpr ⟨hshape, hbits, by rw [hhashes, List.append_nil]⟩
  have hunder := t.length_hashes_le_under hshape
  rw [under_nHeight hpos (by omega), List.length_range] at hunder
  have hless := t.length_hashes_le
  have hused : tree.vBits.length - padding.length = t.bits.length := by
    rw [hbits, List.length_append]
    omega
  have hmore : t.bits.length ≤ tree.vBits.length := by
    rw [hbits, List.length_append]
    omega
  rw [extractMatches, if_neg (by rw [hhashes]; omega), traverseAndExtract_of_parse hparse]
  simp [hused, hpadding, hgood]

theorem exists_extracts (h : (extractMatches H tree).1 ≠ 0) : ∃ t, Extracts tree t := by
  unfold extractMatches at h
  dsimp only at h
  split at h
  · exact absurd rfl h
  case isFalse hsizes =>
    rw [not_or, not_or, not_or] at hsizes
    cases hparse : Pruned.parse tree.nTransactions.toNat (nHeight tree.nTransactions.toNat) 0
        tree.vBits tree.vHash with
    | none =>
      rw [traverseAndExtract_of_parse_none hparse] at h
      simp at h
    | some parsed =>
      obtain ⟨t, bits, hashes⟩ := parsed
      rw [traverseAndExtract_of_parse hparse] at h
      dsimp only at h
      split at h
      · exact absurd rfl h
      case isFalse hdone =>
        rw [not_or, not_or] at hdone
        obtain ⟨hshape, hbits, hhashes⟩ := Pruned.parse_eq_some_iff.mp hparse
        obtain ⟨hgood, hpadding, hnil⟩ := hdone
        have hused : tree.vBits.length - bits.length = t.bits.length := by
          rw [hbits, List.length_append]
          omega
        rw [Decidable.not_not, hused] at hpadding
        rw [Decidable.not_not] at hnil
        refine ⟨t, ⟨by omega, by omega⟩, hshape, ⟨bits, hbits⟩, hpadding, ?_, ?_⟩
        · rw [hhashes, hnil, List.append_nil]
        · exact Bool.eq_false_of_not_eq_true hgood

section Built

variable {vTxid : List Uint256} {vMatch : List Bool}

variable (H vTxid vMatch) in
/-- The tree of the transactions, pruned to what is asked for. -/
def pruned : Pruned Uint256 :=
  Pruned.prune (hashPair H) vTxid.length (vTxid.getD · 0) (vMatch.getD · false)
    (nHeight vTxid.length) 0

theorem shape_pruned :
    Pruned.Shape vTxid.length (nHeight vTxid.length) 0 (pruned H vTxid vMatch) :=
  Pruned.shape_prune _ _

theorem ofMatches_eq (hpos : 0 < vTxid.length) :
    ofMatches H vTxid vMatch = ⟨UInt32.ofNat vTxid.length, (pruned H vTxid vMatch).bits,
      (pruned H vTxid vMatch).hashes, false⟩ := by
  have hroot : 0 < width vTxid.length (nHeight vTxid.length) := by
    rw [lt_width_iff]
    omega
  rw [ofMatches, traverseAndBuild_eq hroot]
  rfl

theorem extracts_ofMatches (hpos : 0 < vTxid.length) (hcount : vTxid.length ≤ 1000000 / 60) :
    Extracts (ofMatches H vTxid vMatch).readBack (pruned H vTxid vMatch) := by
  have hn : (UInt32.ofNat vTxid.length).toNat = vTxid.length := by
    rw [UInt32.toNat_ofNat', Nat.mod_eq_of_lt (by omega)]
  rw [ofMatches_eq hpos, readBack]
  refine ⟨?_, ?_, ⟨_, rfl⟩, ?_, rfl, rfl⟩
  · simpa only [hn] using ⟨hpos, hcount⟩
  · simpa only [hn] using shape_pruned
  · simp only [List.length_append, List.length_replicate]
    omega

theorem fits_ofMatches (hpos : 0 < vTxid.length) (hcount : vTxid.length ≤ 1000000 / 60) :
    wireCodec.Fits (ofMatches H vTxid vMatch).toWire := by
  have hhashes := (pruned H vTxid vMatch).length_hashes_le_under shape_pruned
  rw [under_nHeight hpos (by omega), List.length_range] at hhashes
  have hbits := (pruned H vTxid vMatch).length_bits_lt shape_pruned
  have hheight : nHeight vTxid.length ≤ 15 := by
    by_contra hlt
    have hwide := one_lt_width_of_lt (Nat.not_le.mp hlt)
    rw [lt_width_iff] at hwide
    omega
  have hpow : 2 ^ (nHeight vTxid.length + 1) ≤ 2 ^ 16 := Nat.pow_le_pow_right (by norm_num) (by omega)
  have hmax : 2 ^ 16 ≤ maxSize := by decide
  rw [ofMatches_eq hpos]
  refine ⟨uint32_fits _, ⟨?_, fun hash _ => uint256_fits hash⟩, byteVector_fits ?_⟩
  · exact le_trans hhashes (by omega)
  · have hlength : (packBits (pruned H vTxid vMatch).bits).length =
        ((pruned H vTxid vMatch).bits.length + 7) / 8 := by simp [packBits]
    exact le_trans hlength.le (by omega)

theorem filter_zip (hlength : vMatch.length = vTxid.length) :
    ((List.range vTxid.length).filter (vMatch.getD · false)).map (vTxid.getD · 0) =
      ((vTxid.zip vMatch).filter (·.2)).map (·.1) := by
  induction vTxid generalizing vMatch with
  | nil => rfl
  | cons hash vTxid ih =>
    cases vMatch with
    | nil => cases hlength
    | cons isMatch vMatch =>
      have hrest := @ih vMatch (by simpa using hlength)
      rw [List.length_cons, List.range_succ_eq_map, List.filter_cons, List.filter_map]
      cases isMatch <;> simpa [Function.comp_def] using hrest

/-- What is built, written and read back tells the root and what was asked for. -/
theorem extractMatches_readBack (hpos : 0 < vTxid.length) (hcount : vTxid.length ≤ 1000000 / 60)
    (hlength : vMatch.length = vTxid.length) :
    extractMatches H (ofMatches H vTxid vMatch).readBack =
      (calcHash H vTxid (nHeight vTxid.length) 0,
        ((vTxid.zip vMatch).filter (·.2)).map (·.1)) := by
  rw [extractMatches_of_extracts (extracts_ofMatches hpos hcount), pruned, Pruned.root_prune,
    Pruned.hits_prune, under_nHeight hpos (by omega), filter_zip hlength, calcHash_eq]

end Built

end Matches

end CPartialMerkleTree

namespace CBlock
open CPartialMerkleTree

variable {H : HashFunctions}

def row (H : HashFunctions) (vTxid : List Uint256) (height : ℕ) : List Uint256 :=
  (List.range (width vTxid.length height)).map
    (node (hashPair H) vTxid.length (vTxid.getD · 0) height)

theorem getD_row {vTxid before : List Uint256} {height pos : ℕ}
    (hpos : pos < width vTxid.length height) :
    (before ++ row H vTxid height).getD (before.length + pos) 0 =
      node (hashPair H) vTxid.length (vTxid.getD · 0) height pos := by
  rw [List.getD_eq_getElem?_getD, List.getElem?_append_right (Nat.le_add_right _ _),
    Nat.add_sub_cancel_left, row, List.getElem?_map, List.getElem?_range hpos]
  rfl

theorem nextRow_eq {vTxid before : List Uint256} {height : ℕ} :
    nextRow H (before ++ row H vTxid height) before.length (width vTxid.length height) =
      row H vTxid (height + 1) := by
  rw [nextRow, row.eq_1 H vTxid (height + 1), width_succ]
  apply List.map_congr_left
  intro k hk
  rw [List.mem_range] at hk
  have hleft : k * 2 < width vTxid.length height := by omega
  rw [Nat.mul_comm 2 k, getD_row hleft, node]
  split
  case isTrue hright => rw [Nat.min_eq_left (by omega), getD_row hright]
  case isFalse hright =>
    rw [show min (k * 2 + 1) (width vTxid.length height - 1) = k * 2 by omega, getD_row hleft]

theorem getLastD_merkleRows {vTxid : List Uint256} (hn : 0 < vTxid.length)
    (hmax : vTxid.length ≤ 2 ^ 31) {fuel height : ℕ} {before : List Uint256}
    (hheight : height ≤ nHeight vTxid.length) (hfuel : width vTxid.length height ≤ fuel + 1) :
    (merkleRows H fuel (before ++ row H vTxid height) before.length
        (width vTxid.length height)).getLastD 0 =
      node (hashPair H) vTxid.length (vTxid.getD · 0) (nHeight vTxid.length) 0 := by
  -- at the top the last row is the root alone
  have htop : ∀ before, (before ++ row H vTxid (nHeight vTxid.length)).getLastD 0 =
      node (hashPair H) vTxid.length (vTxid.getD · 0) (nHeight vTxid.length) 0 := by
    intro before
    have hroot : 0 < width vTxid.length (nHeight vTxid.length) := by
      rw [lt_width_iff]
      omega
    have hone : width vTxid.length (nHeight vTxid.length) = 1 := by
      have := width_nHeight_le hmax
      omega
    simp [row, hone]
  induction fuel generalizing height before with
  | zero =>
    have : height = nHeight vTxid.length := by
      by_contra hne
      have := one_lt_width_of_lt (lt_of_le_of_ne hheight hne)
      omega
    rw [merkleRows, this, htop]
  | succ fuel ih =>
    rw [merkleRows]
    split
    case isTrue hwide =>
      have hlt : height < nHeight vTxid.length := by
        refine lt_of_le_of_ne hheight ?_
        rintro rfl
        have := width_nHeight_le hmax
        omega
      have hlength : (row H vTxid height).length = width vTxid.length height := by simp [row]
      rw [nextRow_eq, ← width_succ, ← hlength, ← List.length_append]
      apply ih hlt
      rw [width_succ]
      omega
    case isFalse hnarrow =>
      have : height = nHeight vTxid.length := by
        by_contra hne
        exact hnarrow (one_lt_width_of_lt (lt_of_le_of_ne hheight hne))
      rw [this, htop]

/-- The loop computes the root of the tree over the hashes of the transactions. -/
theorem buildMerkleTree_eq {block : CBlock} (hn : 0 < block.vtx.length)
    (hmax : block.vtx.length ≤ 2 ^ 31) :
    block.buildMerkleTree H =
      node (hashPair H) block.vtx.length ((block.txids H).getD · 0) (nHeight block.vtx.length) 0 := by
  have hlength : (block.txids H).length = block.vtx.length := List.length_map _
  have hwidth : width block.vtx.length 0 = block.vtx.length := by simp [width]
  have hrow : row H (block.txids H) 0 = block.txids H := by
    apply List.ext_getElem
    · simp [row, hlength, hwidth]
    · intro p hp hp'
      simp [row, node, List.getElem?_eq_getElem hp']
  have hlast := @getLastD_merkleRows H (block.txids H) (by omega) (by omega) block.vtx.length 0 []
    (Nat.zero_le _) (by rw [hlength, hwidth]; omega)
  rw [hrow, hlength, hwidth] at hlast
  exact hlast

theorem length_txids (block : CBlock) : (block.txids H).length = block.vtx.length :=
  List.length_map _

/-- A partial tree that is built from a block, written and read back tells the root of the block
and the transactions that were asked for, in their order. -/
theorem extractMatches_built (H : HashFunctions) (block : CBlock) (vMatch : List Bool)
    (hpos : 0 < block.vtx.length) (hcount : block.vtx.length ≤ 1000000 / 60)
    (hlength : vMatch.length = block.vtx.length) (rest : Bytes) :
    ∃ tree, unserialize ((ofMatches H (block.txids H) vMatch).serialize ++ rest) =
        some (tree, rest) ∧
      extractMatches H tree =
        (block.buildMerkleTree H, (((block.txids H).zip vMatch).filter (·.2)).map (·.1)) := by
  rw [← length_txids (H := H)] at hpos hcount hlength
  refine ⟨_, unserialize_serialize (fits_ofMatches hpos hcount) rest, ?_⟩
  rw [extractMatches_readBack hpos hcount hlength, calcHash_eq]
  rw [length_txids] at hpos hcount ⊢
  rw [buildMerkleTree_eq hpos (by omega)]

/-- A partial tree with the root of a block, for as many transactions as the block has, tells
transactions of the block in their order, unless two different pairs of hashes, one of the
partial tree and one of the block, have one hash. -/
theorem sublist_of_extractMatches (H : HashFunctions) (block : CBlock) (tree : CPartialMerkleTree)
    (hcount : tree.nTransactions.toNat = block.vtx.length)
    (hroot : (extractMatches H tree).1 = block.buildMerkleTree H)
    (hne : block.buildMerkleTree H ≠ 0) :
    (extractMatches H tree).2.Sublist (block.txids H) ∨
      ∃ t, Extracts tree t ∧ Pruned.Collision (hashPair H) (t.pairs (hashPair H))
        (nodePairs (hashPair H) block.vtx.length ((block.txids H).getD · 0)
          (nHeight block.vtx.length) 0) := by
  obtain ⟨t, ht⟩ := exists_extracts (hroot ▸ hne)
  obtain ⟨hpos, hfew⟩ := ht.count
  have hshape := ht.shape
  rw [hcount] at hpos hfew hshape
  rw [extractMatches_of_extracts ht, buildMerkleTree_eq hpos (by omega)] at hroot
  rw [extractMatches_of_extracts ht]
  refine (Pruned.hits_sublist hshape hroot).imp (fun hsub => ?_) fun hcollision => ⟨t, ht, hcollision⟩
  have hall : (List.range block.vtx.length).map ((block.txids H).getD · 0) = block.txids H := by
    apply List.ext_getElem
    · simp [length_txids]
    · intro p _ hp
      simp [List.getElem?_eq_getElem hp]
  rw [under_nHeight hpos (by omega), hall] at hsub
  exact hsub

end CBlock

namespace SmallBlock
open CPartialMerkleTree

/-- A hash that shows the bytes. -/
def hashes : HashFunctions :=
  ⟨fun w => BitVec.ofNat 256 (leValue w + 1), fun w => BitVec.ofNat 160 (leValue w)⟩

def block : CBlock :=
  ⟨⟨1, 0, 0, 0, 0, 0⟩, [⟨1, [], [], 1, 0⟩, ⟨1, [], [], 2, 0⟩, ⟨1, [], [⟨5, []⟩], 3, 0⟩]⟩

def tree : CPartialMerkleTree := ofMatches hashes (block.txids hashes) [false, false, true]

theorem extractMatches_last :
    ∃ tree', unserialize (tree.serialize ++ []) = some (tree', []) ∧
      extractMatches hashes tree' = (block.buildMerkleTree hashes,
        (((block.txids hashes).zip [false, false, true]).filter (·.2)).map (·.1)) :=
  CBlock.extractMatches_built hashes block _ (by decide) (by decide) rfl []

theorem sublist_last :
    (extractMatches hashes tree).2.Sublist (block.txids hashes) ∨
      ∃ t, Extracts tree t ∧ Pruned.Collision (hashPair hashes) (t.pairs (hashPair hashes))
        (nodePairs (hashPair hashes) block.vtx.length ((block.txids hashes).getD · 0)
          (nHeight block.vtx.length) 0) :=
  CBlock.sublist_of_extractMatches hashes block tree (by decide +kernel) (by decide +kernel)
    (by decide +kernel)

end SmallBlock

end Dims
