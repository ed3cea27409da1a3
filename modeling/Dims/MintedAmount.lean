import Dims.FeeCheck
import Dims.OriginAddressScanner

/-!
# The amount that is minted

The base transaction pays a sum to a key and has nothing else of the origin transaction. The
sum is kept in 32 bits.
-/

namespace Dims
open ByteCodec Serialize

theorem CPubKey.fits_ofBytes (data : Bytes) : CPubKey.codec.Fits (.ofBytes data) := by
  unfold CPubKey.ofBytes
  split
  case isTrue hlength =>
    cases data with
    | nil => exact .inr rfl
    | cons header tail =>
      rw [List.headD_cons, List.length_cons] at hlength
      have hpos : 0 < getLen header := hlength ▸ Nat.succ_pos _
      exact .inl (decide_eq_true hpos)
  case isFalse => exact .inr rfl

namespace COriginAddressScanner
open FeeCheck (solver_solutions toNat_ofInt32)

section Amount

variable (env : OriginContext)

def paysOrigin (txout : CTxOut) : Bool :=
  match solver txout.scriptPubKey with
  | none => false
  | some (type, solutions) => solutions.any (isOrigin env type)

def paidAmount (tx : CTransaction) : ℤ :=
  ((tx.vout.filter (paysOrigin env)).map fun txout => txout.nValue.toInt).sum

/-- The key of the first push of the size of a public key. -/
def shownKey (tx : CTransaction) : Option CPubKey := (findBaseKey tx.vin).map CPubKey.ofBytes

/-- The one output of the base transaction has the value that has been paid. -/
def MintsExactly (tx : CTransaction) : Prop :=
  ∃ txout, (minting env tx).baseTx.vout = [txout] ∧ txout.nValue.toInt = paidAmount env tx

variable {env}

theorem originAmount_eq (txout : CTxOut) :
    originAmount env txout = if paysOrigin env txout then txout.nValue.toInt else 0 := by
  unfold originAmount paysOrigin
  cases hsolver : solver txout.scriptPubKey with
  | none => rfl
  | some found =>
    obtain ⟨type, solutions⟩ := found
    dsimp only
    by_cases htype : type = .pubkey ∨ type = .pubkeyhash
    · obtain ⟨solution, rfl⟩ := solver_solutions hsolver htype
      cases horigin : isOrigin env type solution <;> simp [horigin]
    · have hnone : ∀ solution, isOrigin env type solution = false := by
        intro solution
        cases type with
        | pubkey => exact absurd (.inl rfl) htype
        | pubkeyhash => exact absurd (.inr rfl) htype
        | _ => rfl
      simp [hnone]

theorem sum_originAmount (vout : List CTxOut) : (vout.map (originAmount env)).sum =
    ((vout.filter (paysOrigin env)).map fun txout => txout.nValue.toInt).sum := by
  induction vout with
  | nil => rfl
  | cons txout vout ih =>
    rw [List.map_cons, List.sum_cons, ih, originAmount_eq, List.filter_cons]
    split
    · rw [List.map_cons, List.sum_cons]
    · rw [Int.zero_add]

variable {tx tx' : CTransaction}

theorem minting_of_success (h : (minting env tx).success = true) :
    ∃ data, findBaseKey tx.vin = some data ∧
      (minting env tx).baseTx = baseTransaction (UInt32.ofInt (paidAmount env tx)) data := by
  unfold minting at h ⊢
  cases hbase : findBase env tx with
  | none =>
    rw [hbase] at h
    cases h
  | some found =>
    obtain ⟨valueSum, data⟩ := found
    obtain ⟨sum, hsum, hrest⟩ := Option.bind_eq_some_iff.mp hbase
    rw [sumOutputs_eq 0 (readable_of_sumOutputs hsum), UInt32.zero_add, sum_originAmount] at hsum
    cases hsum
    split at hrest
    case isTrue => cases hrest
    case isFalse =>
      obtain ⟨data', hkey, heq⟩ := Option.map_eq_some_iff.mp hrest
      cases heq
      exact ⟨data, hkey, rfl⟩

theorem mintsExactly_iff (h : (minting env tx).success = true) :
    MintsExactly env tx ↔ 0 ≤ paidAmount env tx ∧ paidAmount env tx < 2 ^ 32 := by
  obtain ⟨data, -, hbase⟩ := minting_of_success h
  have hcast := toNat_ofInt32 (paidAmount env tx)
  have hvalue : (Int64.ofNat (UInt32.ofInt (paidAmount env tx)).toNat).toInt =
      paidAmount env tx % 2 ^ 32 := by
    rw [Int64.toInt_ofNat_of_lt (by omega), hcast]
  have hmint : MintsExactly env tx ↔ paidAmount env tx % 2 ^ 32 = paidAmount env tx := by
    rw [MintsExactly, hbase, ← hvalue]
    constructor
    · rintro ⟨txout, hvout, hpaid⟩
      cases hvout
      exact hpaid
    · exact fun hpaid => ⟨_, rfl, hpaid⟩
  rw [hmint]
  omega

theorem payToKey_injective {key key' : CPubKey} (hkey : CPubKey.codec.Fits key)
    (hkey' : CPubKey.codec.Fits key') (h : payToKey key = payToKey key') : key = key' := by
  obtain ⟨hsize, hscript⟩ := List.cons.inj h
  have hbytes : key.bytes = key'.bytes := List.append_inj_left' hscript rfl
  refine CPubKey.codec.encode_injective hkey hkey' ?_
  change writeCompactSize key.size ++ key.bytes = writeCompactSize key'.size ++ key'.bytes
  rw [← key.length_bytes, ← key'.length_bytes, hbytes]

/-- The bytes of a base transaction tell the sum and the key. -/
theorem baseTransaction_injective {valueSum valueSum' : UInt32} {data data' : Bytes}
    (h : CTransaction.contentsCodec.encode (baseTransaction valueSum data).contents =
      CTransaction.contentsCodec.encode (baseTransaction valueSum' data').contents) :
    valueSum = valueSum' ∧ CPubKey.ofBytes data = CPubKey.ofBytes data' := by
  have hfits : ∀ valueSum data,
      CTransaction.contentsCodec.Fits (baseTransaction valueSum data).contents := by
    intro valueSum data
    have hscript : (payToKey (.ofBytes data)).length ≤ maxSize := by
      have hsize := (CPubKey.ofBytes data).size_le
      have hlength : (payToKey (.ofBytes data)).length = (CPubKey.ofBytes data).size + 2 := by
        simp [payToKey]
      have hmax : 67 ≤ maxSize := by decide
      omega
    refine ⟨int32_fits _, ⟨show 1 ≤ maxSize by decide, ?_⟩, ⟨show 1 ≤ maxSize by decide, ?_⟩,
      uint32_fits _⟩
    · intro txin htxin
      rw [List.mem_singleton.mp htxin]
      exact ⟨⟨uint256_fits _, uint32_fits _⟩, Nat.zero_le _, uint32_fits _⟩
    · intro txout htxout
      rw [List.mem_singleton.mp htxout]
      exact ⟨int64_fits _, byteVector_fits hscript⟩
  have hcontents := CTransaction.contentsCodec.encode_injective (hfits _ _) (hfits _ _) h
  have hvout := List.head_eq_of_cons_eq (congrArg (fun contents => contents.2.2.1) hcontents)
  obtain ⟨hvalue, hkey⟩ := CTxOut.mk.inj hvout
  refine ⟨UInt32.toNat_inj.mp ?_,
    payToKey_injective (CPubKey.fits_ofBytes _) (CPubKey.fits_ofBytes _) hkey⟩
  have hlt := valueSum.toNat_lt
  have hlt' := valueSum'.toNat_lt
  have hint := congrArg Int64.toInt hvalue
  rw [Int64.toInt_ofNat_of_lt (by omega), Int64.toInt_ofNat_of_lt (by omega)] at hint
  exact Int.ofNat.inj hint

/-- Of two transactions that are minted from, each gets what it has paid and they get base
transactions with different hashes, if and only if neither sum leaves 32 bits and, where the
transactions differ, their keys or their sums do. -/
theorem mints_soundly_iff (env : OriginContext) (tx tx' : CTransaction)
    (h : (minting env tx).success = true) (h' : (minting env tx').success = true)
    (hcollision : (minting env tx).baseTx.getHash env.hashes =
        (minting env tx').baseTx.getHash env.hashes →
      CTransaction.contentsCodec.encode (minting env tx).baseTx.contents =
        CTransaction.contentsCodec.encode (minting env tx').baseTx.contents) :
    ((MintsExactly env tx ∧ MintsExactly env tx') ∧ (tx.contents ≠ tx'.contents →
      (minting env tx).baseTx.getHash env.hashes ≠ (minting env tx').baseTx.getHash env.hashes)) ↔
    ((0 ≤ paidAmount env tx ∧ paidAmount env tx < 2 ^ 32) ∧
      (0 ≤ paidAmount env tx' ∧ paidAmount env tx' < 2 ^ 32)) ∧
    (tx.contents ≠ tx'.contents →
      shownKey tx ≠ shownKey tx' ∨ paidAmount env tx ≠ paidAmount env tx') := by
  rw [mintsExactly_iff h, mintsExactly_iff h']
  refine and_congr_right fun hrange => imp_congr_right fun _ => ?_
  obtain ⟨data, hkey, hbase⟩ := minting_of_success h
  obtain ⟨data', hkey', hbase'⟩ := minting_of_success h'
  rw [hbase, hbase'] at hcollision ⊢
  have hshown : shownKey tx = shownKey tx' ↔ CPubKey.ofBytes data = CPubKey.ofBytes data' := by
    rw [shownKey, shownKey, hkey, hkey', Option.map_some, Option.map_some, Option.some_inj]
  rw [← not_and_or, hshown]
  refine not_congr ⟨fun hhash => ?_, fun ⟨hsame, hpaid⟩ => ?_⟩
  · obtain ⟨hsum, hsame⟩ := baseTransaction_injective (hcollision hhash)
    have hcast := toNat_ofInt32 (paidAmount env tx)
    have hcast' := toNat_ofInt32 (paidAmount env tx')
    rw [hsum] at hcast
    exact ⟨hsame, by omega⟩
  · rw [baseTransaction, baseTransaction, hsame, hpaid]

end Amount

end COriginAddressScanner

namespace RepeatedPayment
open COriginAddressScanner

/-- The digest is the sum of the bytes, and the id of the origin address is zero. -/
def context : OriginContext :=
  ⟨⟨fun bytes => BitVec.ofNat 256 (bytes.map UInt8.toNat).sum, fun _ => 0⟩, 0⟩

def payment (nVersion : Int32) (value : Int64) : CTransaction :=
  ⟨nVersion, [⟨.null, 0x21 :: 2 :: List.replicate 32 1, 0⟩],
    [⟨value, [0x76, 0xa9, 0x14] ++ List.replicate 20 0 ++ [0x88, 0xac]⟩], 0, 0⟩

set_option maxRecDepth 10000 in
/-- Payments of different amounts with one key are minted exactly, and under different hashes. -/
theorem payments_minted :
    (MintsExactly context (payment 1 5) ∧ MintsExactly context (payment 1 7)) ∧
      (minting context (payment 1 5)).baseTx.getHash context.hashes ≠
        (minting context (payment 1 7)).baseTx.getHash context.hashes := by
  have hpaid : paidAmount context (payment 1 5) = 5 ∧ paidAmount context (payment 1 7) = 7 := by
    decide
  obtain ⟨hexact, hdistinct⟩ := (mints_soundly_iff context (payment 1 5) (payment 1 7) (by decide)
    (by decide) (by decide)).mpr
      ⟨by rw [hpaid.1, hpaid.2]; decide, fun _ => .inr (by rw [hpaid.1, hpaid.2]; decide)⟩
  exact ⟨hexact, hdistinct (by decide)⟩

set_option maxRecDepth 10000 in
/-- An amount is reduced to 32 bits, and two payments of one amount with one key are minted
with one hash. -/
theorem not_mints_soundly :
    ¬(∀ env tx, (minting env tx).success = true → MintsExactly env tx) ∧
    ¬(∀ env tx tx', (minting env tx).success = true → (minting env tx').success = true →
      tx.contents ≠ tx'.contents →
        (minting env tx).baseTx.getHash env.hashes ≠ (minting env tx').baseTx.getHash env.hashes) := by
  constructor
  · intro hall
    have hsuccess : (minting context (payment 1 4294967301)).success = true := by decide
    have hrange := (mintsExactly_iff hsuccess).mp (hall _ _ hsuccess)
    have hpaid : paidAmount context (payment 1 4294967301) = 4294967301 := by decide
    omega
  · intro hall
    exact hall context (payment 1 5) (payment 2 5) (by decide) (by decide) (by decide) (by decide)

end RepeatedPayment

end Dims
