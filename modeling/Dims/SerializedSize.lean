import Dims.Core

/-!
# The sizes of serialized transactions

Bounds on the bytes that a transaction is written as. A transaction that is short enough has no
vector that is too long to be read again, and it gets no longer when its outputs are spent.
-/

namespace Dims
open ByteCodec Serialize

section Vectors

variable {α : Type*} (c : Codec α)

/-- Elements that are replaced by one that is written no longer leave the list no longer. -/
theorem ByteCodec.Codec.length_flatMap_set_le {a : α}
    (ha : ∀ b, (c.encode a).length ≤ (c.encode b).length) (xs : List α) (n : ℕ) :
    ((xs.set n a).flatMap c.encode).length ≤ (xs.flatMap c.encode).length := by
  induction xs generalizing n with
  | nil => exact le_rfl
  | cons x xs ih =>
    cases n with
    | zero =>
      simp only [List.set_cons_zero, List.flatMap_cons, List.length_append]
      exact Nat.add_le_add_right (ha x) _
    | succ n =>
      simp only [List.set_cons_succ, List.flatMap_cons, List.length_append]
      exact Nat.add_le_add_left (ih n) _

theorem ByteCodec.Codec.length_encode_le_flatMap {a : α} {xs : List α} (ha : a ∈ xs) :
    (c.encode a).length ≤ (xs.flatMap c.encode).length :=
  (List.sublist_flatten_of_mem (List.mem_map_of_mem ha)).length_le

theorem ByteCodec.Codec.length_le_flatMap (hpos : ∀ a, 0 < (c.encode a).length) (xs : List α) :
    xs.length ≤ (xs.flatMap c.encode).length := by
  induction xs with
  | nil => exact Nat.zero_le _
  | cons x xs ih =>
    have hx := hpos x
    simp only [List.flatMap_cons, List.length_append, List.length_cons]
    omega

variable {c} in
theorem Serialize.vector_fits_of_length (hpos : ∀ a, 0 < (c.encode a).length)
    (hfits : ∀ a, (c.encode a).length ≤ maxSize → c.Fits a) {xs : List α}
    (hlength : ((vector c).encode xs).length ≤ maxSize) : (vector c).Fits xs := by
  have hsplit : ((vector c).encode xs).length =
      (writeCompactSize xs.length).length + (xs.flatMap c.encode).length := List.length_append
  have hcount := c.length_le_flatMap hpos xs
  refine ⟨show xs.length ≤ maxSize by omega, fun a ha => hfits a ?_⟩
  have hle := c.length_encode_le_flatMap ha
  omega

end Vectors

section Transactions

theorem Serialize.length_writeCompactSize_pos (n : ℕ) : 0 < (writeCompactSize n).length := by
  unfold writeCompactSize
  split_ifs <;> simp

theorem CTxOut.length_encode (o : CTxOut) : (CTxOut.codec.encode o).length =
    8 + ((writeCompactSize o.scriptPubKey.length).length + o.scriptPubKey.length) := by
  change (leBytes 8 _ ++ (writeCompactSize _ ++ _)).length = _
  rw [List.length_append, List.length_append, length_leBytes]

theorem CTxIn.length_encode (i : CTxIn) : (CTxIn.codec.encode i).length =
    36 + (((writeCompactSize i.scriptSig.length).length + i.scriptSig.length) + 4) := by
  change ((leBytes 32 _ ++ leBytes 4 _) ++ ((writeCompactSize _ ++ _) ++ leBytes 4 _)).length = _
  simp only [List.length_append, length_leBytes]

theorem CTxOut.length_encode_null_le (o : CTxOut) :
    (CTxOut.codec.encode .null).length ≤ (CTxOut.codec.encode o).length := by
  have hsize := length_writeCompactSize_pos o.scriptPubKey.length
  have hnull : (CTxOut.codec.encode .null).length = 9 := by decide
  rw [hnull, CTxOut.length_encode]
  omega

namespace CTransaction

/-- The outputs of the given numbers are spent, one after the other. -/
def nullOutputs (tx : CTransaction) (ns : List ℕ) : CTransaction :=
  { tx with vout := ns.foldl (fun vout n => vout.set n .null) tx.vout }

theorem length_encode (tx : CTransaction) : (diskCodec.encode tx).length =
    4 + (((vector CTxIn.codec).encode tx.vin).length +
      (((vector CTxOut.codec).encode tx.vout).length + 4)) + 8 := by
  change ((leBytes 4 _ ++ (_ ++ (_ ++ leBytes 4 _))) ++ leBytes 8 _).length = _
  simp only [List.length_append, length_leBytes]
  rfl

theorem fits_of_length {tx : CTransaction} (hlength : (diskCodec.encode tx).length ≤ maxSize) :
    diskCodec.Fits tx := by
  rw [length_encode] at hlength
  have hvin : (vector CTxIn.codec).Fits tx.vin := by
    refine vector_fits_of_length (fun i => ?_) (fun i hi => ?_) (by omega)
    · rw [CTxIn.length_encode]
      omega
    · rw [CTxIn.length_encode] at hi
      have hscript : i.scriptSig.length ≤ maxSize := by omega
      exact ⟨⟨uint256_fits _, uint32_fits _⟩, byteVector_fits hscript, uint32_fits _⟩
  have hvout : (vector CTxOut.codec).Fits tx.vout := by
    refine vector_fits_of_length (fun o => ?_) (fun o ho => ?_) (by omega)
    · rw [CTxOut.length_encode]
      omega
    · rw [CTxOut.length_encode] at ho
      have hscript : o.scriptPubKey.length ≤ maxSize := by omega
      exact ⟨int64_fits _, byteVector_fits hscript⟩
  exact ⟨⟨int32_fits _, hvin, hvout, uint32_fits _⟩, uint64_fits _⟩

theorem length_contents_le {tx tx' : CTransaction} (hvin : tx'.vin = tx.vin)
    (hcount : tx'.vout.length = tx.vout.length)
    (hvout : (tx'.vout.flatMap CTxOut.codec.encode).length ≤
      (tx.vout.flatMap CTxOut.codec.encode).length) :
    (diskCodec.encode tx').length ≤ (diskCodec.encode tx).length := by
  have hsplit : ∀ xs : List CTxOut, ((vector CTxOut.codec).encode xs).length =
      (writeCompactSize xs.length).length + (xs.flatMap CTxOut.codec.encode).length :=
    fun _ => List.length_append
  rw [length_encode, length_encode, hsplit, hsplit, hvin, hcount]
  omega

theorem length_encode_setLocation (tx : CTransaction) (location : UInt64) :
    (diskCodec.encode (tx.setLocation location)).length = (diskCodec.encode tx).length :=
  Nat.le_antisymm (length_contents_le rfl rfl le_rfl) (length_contents_le rfl rfl le_rfl)

theorem length_encode_nullOutputs_le (tx : CTransaction) (ns : List ℕ) :
    (diskCodec.encode (tx.nullOutputs ns)).length ≤ (diskCodec.encode tx).length := by
  induction ns generalizing tx with
  | nil => exact le_rfl
  | cons n ns ih =>
    have hfirst : (diskCodec.encode { tx with vout := tx.vout.set n .null }).length ≤
        (diskCodec.encode tx).length :=
      length_contents_le rfl (List.length_set ..)
        (CTxOut.codec.length_flatMap_set_le CTxOut.length_encode_null_le tx.vout n)
    exact (ih { tx with vout := tx.vout.set n .null }).trans hfirst

end CTransaction

end Transactions

end Dims
