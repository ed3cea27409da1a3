import Dims.ChargeRegister
import Mathlib.Data.List.InsertIdx

/-!
# Transactions of the wallet

`CWallet::CreateTransaction` pays the outputs that are asked for, the fee of the tracker and
the change. The choice of the coins and the signatures are given to it by the rest of the wallet.
-/

namespace Dims
open ByteCodec

/-- `CScript::SetDestination` for a key id. -/
def CScript.setDestination (keyId : CKeyID) : CScript :=
  0x76 :: 0xa9 :: 0x14 :: (leBytes 20 keyId.toNat ++ [0x88, 0xac])

/-- A coin to spend; the key of a coin that the caller asks for is known to the one who signs. -/
structure CAvailableCoin where
  coin : CTxOut
  position : UInt32
  hash : Uint256
  deriving DecidableEq, Repr

/-- `MAX_STANDARD_TX_SIZE` -/
def maxStandardTxSize : ℕ := 1000

structure CWalletContext where
  selectCoins : Int64 → Option (List CAvailableCoin × Int64)
  determineChangeAddress : List CAvailableCoin → Option CKeyID
  getRandInt : ℕ → ℕ
  /-- `SignSignature` for the input with an index that spends an output with the script. -/
  signSignature : CScript → CTransaction → ℕ → Option CScript

namespace CWalletContext

/-- The coins to use are taken until they are enough; what is left to find, what they are
worth, and the coins. -/
def requestCoins : Int64 → List CAvailableCoin → Int64 × Int64 × List CAvailableCoin
  | nTotalValue, [] => (nTotalValue, 0, [])
  | nTotalValue, coin :: coinsToUse =>
    let nTotalValue := nTotalValue - coin.coin.nValue
    if nTotalValue ≤ 0 then (0, coin.coin.nValue, [coin])
    else
      let rest := requestCoins nTotalValue coinsToUse
      (rest.1, coin.coin.nValue + rest.2.1, coin :: rest.2.2)

def signInputs (W : CWalletContext) : List CAvailableCoin → ℕ → CTransaction → Option CTransaction
  | [], _, tx => some tx
  | coin :: coins, nIn, tx =>
    (W.signSignature coin.coin.scriptPubKey tx nIn).bind fun scriptSig =>
      W.signInputs coins (nIn + 1)
        { tx with vin := tx.vin.modify nIn fun txIn => { txIn with scriptSig := scriptSig } }

/-- The outputs with the change at a random position. No value without an address for it. -/
def addChange (W : CWalletContext) (nChange : Int64) (setCoins : List CAvailableCoin)
    (vout : List CTxOut) : Option (List CTxOut) :=
  if 0 < nChange then
    (W.determineChangeAddress setCoins).map fun keyId =>
      vout.insertIdx (W.getRandInt (vout.length + 1)) ⟨nChange, .setDestination keyId⟩
  else some vout

def payTo (outputs : List (CKeyID × Int64)) : List CTxOut :=
  outputs.map fun target => ⟨target.2, .setDestination target.1⟩

def createTransaction (W : CWalletContext) (H : HashFunctions) (outputs : List (CKeyID × Int64))
    (coinsToUse : List CAvailableCoin) (trackerKey : CPubKey) (price : UInt32) :
    Option CTransaction :=
  if outputs.any (·.2 < 0) then none
  else if outputs = [] then none
  else
    let trackerFee := (price.toUInt64 * UInt64.ofNat outputs.length).toInt64
    let vout := payTo (outputs ++ [(trackerKey.getID H, trackerFee)])
    let nValue := (outputs.map Prod.snd).sum + trackerFee
    let requested := requestCoins nValue coinsToUse
    (W.selectCoins requested.1).bind fun (setCoins, nValueIn) =>
      (W.addChange (nValueIn + requested.2.1 - nValue) setCoins vout).bind fun vout =>
        let coins := setCoins ++ requested.2.2
        let vin := coins.map fun coin => ⟨⟨coin.hash, coin.position⟩, [], 0xffffffff⟩
        (W.signInputs coins 0 ⟨1, vin, vout, 0, 0⟩).bind fun wtxNew =>
          if maxStandardTxSize ≤ (CTransaction.contentsCodec.encode wtxNew.contents).length then none
          else some wtxNew

end CWalletContext

namespace CScript

variable (keyId : CKeyID)

theorem getOp_setDestination :
    getOp (setDestination keyId) =
      some ((0x76, []), 0xa9 :: 0x14 :: (leBytes 20 keyId.toNat ++ [0x88, 0xac])) := rfl

theorem getOp_hash160 (script : CScript) : getOp (0xa9 :: script) = some ((0xa9, []), script) := rfl

theorem getOp_keyId :
    getOp (0x14 :: (leBytes 20 keyId.toNat ++ [0x88, 0xac])) =
      some ((0x14, leBytes 20 keyId.toNat), [0x88, 0xac]) := by
  have hsize : pushSize 0x14 (leBytes 20 keyId.toNat ++ [0x88, 0xac]) =
      some (20, leBytes 20 keyId.toNat ++ [0x88, 0xac]) := rfl
  rw [getOp, if_pos (by decide), hsize, Option.bind_some,
    takeBytes_append (length_leBytes 20 keyId.toNat)]
  rfl

theorem parses_setDestination : (setDestination keyId).parses = true := by
  have hne : setDestination keyId ≠ [] := List.cons_ne_nil _ _
  have hrest : (decodeOps [0x88, 0xac]).2 = true := by decide
  rw [parses, decodeOps_cons hne, getOp_setDestination]
  dsimp only
  rw [decodeOps_cons (List.cons_ne_nil _ _), getOp_hash160]
  dsimp only
  rw [decodeOps_cons (List.cons_ne_nil _ _), getOp_keyId]
  exact hrest

end CScript

open CScript in
theorem Solver.matchTemplate_cons {opcode2 : UInt8} {template : List UInt8} {script rest : CScript}
    {op : UInt8 × Bytes} {solutions : List Bytes} (hop : getOp script = some (op, rest))
    (hkeys : opcode2 ≠ 0xfb) :
    matchTemplate (opcode2 :: template) script solutions =
      (matchOp opcode2 op solutions).bind (matchTemplate template rest) := by
  rw [matchTemplate, hop, Option.bind_some, if_neg hkeys]

open CScript Solver in
theorem solver_setDestination (keyId : CKeyID) :
    solver (setDestination keyId) = some (.pubkeyhash, [leBytes 20 keyId.toNat]) := by
  have hlength : (setDestination keyId).length = 25 := by
    simp only [setDestination, List.length_cons, List.length_append, length_leBytes,
      List.length_nil]
  have hscripthash : (setDestination keyId).isPayToScriptHash = false := by
    simp [isPayToScriptHash, hlength]
  have hpubkey : matchTemplate [0xfe, 0xac] (setDestination keyId) [] = none := rfl
  have hkey : matchOp 0xfd (0x14, leBytes 20 keyId.toNat) [] = some [leBytes 20 keyId.toNat] := by
    simp [matchOp]
  have hpubkeyhash : matchTemplate [0x76, 0xa9, 0xfd, 0x88, 0xac] (setDestination keyId) [] =
      some [leBytes 20 keyId.toNat] := by
    have hdup : matchOp 0x76 (0x76, []) [] = some [] := by decide
    have hhash160 : matchOp 0xa9 (0xa9, []) [] = some [] := by decide
    rw [matchTemplate_cons (getOp_setDestination keyId) (by decide), hdup, Option.bind_some,
      matchTemplate_cons (getOp_hash160 _) (by decide), hhash160, Option.bind_some,
      matchTemplate_cons (getOp_keyId keyId) (by decide), hkey]
    rfl
  rw [solver, hscripthash, if_neg (by decide), templates, List.findSome?_cons, hpubkey,
    Option.map_none, List.findSome?_cons, hpubkeyhash]
  rfl

theorem uint160OfBytes_leBytes (keyId : CKeyID) : uint160OfBytes (leBytes 20 keyId.toNat) = keyId := by
  have hlt : keyId.toNat < 256 ^ 20 := keyId.isLt
  rw [uint160OfBytes, if_pos (length_leBytes _ _), leValue_leBytes_of_lt hlt]
  exact BitVec.eq_of_toNat_eq (by simp)

theorem mem_findOutputInTransaction_payTo (H : HashFunctions) {keyId : CKeyID} {amount : Int64}
    {targets : List (CKeyID × Int64)} (hmem : (keyId, amount) ∈ targets) :
    ⟨amount, .setDestination keyId⟩ ∈
      findOutputInTransaction H keyId (CWalletContext.payTo targets) := by
  induction targets with
  | nil => exact absurd hmem List.not_mem_nil
  | cons target targets ih =>
    rw [CWalletContext.payTo, List.map_cons, findOutputInTransaction,
      if_pos (CScript.parses_setDestination target.1), solver_setDestination]
    rcases List.mem_cons.mp hmem with rfl | htail
    · refine List.mem_append_left _ (List.mem_map.mpr ⟨leBytes 20 keyId.toNat, ?_, rfl⟩)
      refine List.mem_filter.mpr ⟨List.mem_singleton_self _, ?_⟩
      exact decide_eq_true (uint160OfBytes_leBytes keyId).symm
    · exact List.mem_append_right _ (ih htail)

namespace CTransaction

theorem length_vout_le (tx : CTransaction) :
    tx.vout.length ≤ (contentsCodec.encode tx.contents).length := by
  have hbytes : ∀ vout : List CTxOut, vout.length ≤ (vout.flatMap CTxOut.codec.encode).length := by
    intro vout
    induction vout with
    | nil => exact le_rfl
    | cons txOut vout ih =>
      have hfirst : 8 ≤ (CTxOut.codec.encode txOut).length := by
        show 8 ≤ (leBytes 8 _ ++ _).length
        rw [List.length_append, length_leBytes]
        omega
      rw [List.flatMap_cons, List.length_append, List.length_cons]
      omega
  have hvout : (tx.vout.flatMap CTxOut.codec.encode).length ≤
      (contentsCodec.encode tx.contents).length := by
    show _ ≤ (_ ++ (_ ++ ((_ ++ tx.vout.flatMap CTxOut.codec.encode) ++ _))).length
    simp only [List.length_append]
    omega
  exact (hbytes tx.vout).trans hvout

end CTransaction

namespace CWalletContext

variable {W : CWalletContext} {H : HashFunctions}

theorem signInputs_vout {coins : List CAvailableCoin} {nIn : ℕ} {tx signed : CTransaction}
    (hsign : W.signInputs coins nIn tx = some signed) : signed.vout = tx.vout := by
  induction coins generalizing nIn tx with
  | nil =>
    obtain rfl := Option.some.inj hsign
    rfl
  | cons coin coins ih =>
    obtain ⟨scriptSig, -, hrest⟩ := Option.bind_eq_some_iff.mp hsign
    exact (ih hrest).trans rfl

theorem addChange_payTo {nChange : Int64} {setCoins : List CAvailableCoin}
    {targets : List (CKeyID × Int64)} {vout : List CTxOut}
    (hchange : W.addChange nChange setCoins (payTo targets) = some vout) :
    ∃ all, vout = payTo all ∧ targets.Sublist all := by
  rw [addChange] at hchange
  split at hchange
  · obtain ⟨keyId, -, rfl⟩ := Option.map_eq_some_iff.mp hchange
    refine ⟨targets.insertIdx (W.getRandInt ((payTo targets).length + 1)) (keyId, nChange), ?_, ?_⟩
    · rw [payTo, payTo, List.map_insertIdx]
    · exact List.sublist_insertIdx _ _ _
  · obtain rfl := Option.some.inj hchange
    exact ⟨targets, rfl, .refl _⟩

/-- The outputs that are asked for and the fee are among the outputs, which all pay to keys. -/
theorem createTransaction_vout {outputs : List (CKeyID × Int64)} {coinsToUse : List CAvailableCoin}
    {trackerKey : CPubKey} {price : UInt32} {tx : CTransaction}
    (hcreate : W.createTransaction H outputs coinsToUse trackerKey price = some tx) :
    outputs ≠ [] ∧ ∃ all, tx.vout = payTo all ∧
      (outputs ++ [(trackerKey.getID H,
        (price.toUInt64 * UInt64.ofNat outputs.length).toInt64)]).Sublist all ∧
      (CTransaction.contentsCodec.encode tx.contents).length < maxStandardTxSize := by
  simp only [createTransaction] at hcreate
  split at hcreate
  · cases hcreate
  · split at hcreate
    · cases hcreate
    · obtain ⟨⟨setCoins, nValueIn⟩, -, hselected⟩ := Option.bind_eq_some_iff.mp hcreate
      obtain ⟨vout, hvout, hsigning⟩ := Option.bind_eq_some_iff.mp hselected
      obtain ⟨signed, hsigned, hsize⟩ := Option.bind_eq_some_iff.mp hsigning
      obtain ⟨all, rfl, hall⟩ := addChange_payTo hvout
      split at hsize
      · cases hsize
      · obtain rfl := Option.some.inj hsize
        exact ⟨‹_›, all, signInputs_vout hsigned, hall, not_le.mp ‹_›⟩

theorem createTransaction_pays {outputs : List (CKeyID × Int64)} {coinsToUse : List CAvailableCoin}
    {trackerKey : CPubKey} {price : UInt32} {tx : CTransaction}
    (hcreate : W.createTransaction H outputs coinsToUse trackerKey price = some tx)
    {keyId : CKeyID} {amount : Int64} (houtput : (keyId, amount) ∈ outputs) :
    ⟨amount, .setDestination keyId⟩ ∈ findOutputInTransaction H keyId tx.vout := by
  obtain ⟨-, all, hvout, hall, -⟩ := createTransaction_vout hcreate
  rw [hvout]
  exact mem_findOutputInTransaction_payTo H (hall.subset (List.mem_append_left _ houtput))

end CWalletContext

end Dims
