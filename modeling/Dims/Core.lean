import Dims.Serialize

/-!
# Transactions

The data of core.h with its stream formats. A transaction is written to disk
with its storage location and hashed or sent without it. The memoized hash of
`CTransaction` is not part of the value: `getHash` is a function of the
transaction's contents.
-/

namespace Dims
open ByteCodec Serialize

abbrev Uint256 := BitVec 256
abbrev Uint160 := BitVec 160
abbrev CScript := Bytes
abbrev CKeyID := Uint160

instance : LawfulBEq Uint256 := inferInstance
instance : LawfulBEq Uint160 := inferInstance

def uint256 : Codec Uint256 := bitVec 32
def uint160 : Codec Uint160 := bitVec 20

@[simp] theorem uint256_fits (x : Uint256) : uint256.Fits x := bitVec_fits 32 x
@[simp] theorem uint160_fits (x : Uint160) : uint160.Fits x := bitVec_fits 20 x

/-- `uint256::GetLow64` -/
def getLow64 (x : Uint256) : ℕ := x.toNat % 2 ^ 64

/-- The hash functions of hash.h, computed by OpenSSL: `Hash` is the double
SHA-256 of a byte range, `Hash160` its RIPEMD-160 of SHA-256. -/
structure HashFunctions where
  hash : Bytes → Uint256
  hash160 : Bytes → Uint160

structure COutPoint where
  hash : Uint256
  n : UInt32
  deriving DecidableEq, Repr

namespace COutPoint

def null : COutPoint := ⟨0, 0xffffffff⟩

def isNull (o : COutPoint) : Bool := o.hash = 0 ∧ o.n = 0xffffffff

def codec : Codec COutPoint :=
  (uint256.prod uint32).imap (fun o => (o.hash, o.n)) (fun p => ⟨p.1, p.2⟩) (fun _ => rfl)

end COutPoint

structure CTxIn where
  prevout : COutPoint
  scriptSig : CScript
  nSequence : UInt32
  deriving DecidableEq, Repr

def CTxIn.codec : Codec CTxIn :=
  (COutPoint.codec.prod (byteVector.prod uint32)).imap
    (fun i => (i.prevout, i.scriptSig, i.nSequence)) (fun p => ⟨p.1, p.2.1, p.2.2⟩) (fun _ => rfl)

structure CTxOut where
  nValue : Int64
  scriptPubKey : CScript
  deriving DecidableEq, Repr

namespace CTxOut

/-- The output left by `SetNull`, which is also the default-constructed one. -/
def null : CTxOut := ⟨-1, []⟩

def setNull (_ : CTxOut) : CTxOut := null

def isNull (o : CTxOut) : Bool := o.nValue = -1

def codec : Codec CTxOut :=
  (int64.prod byteVector).imap (fun o => (o.nValue, o.scriptPubKey)) (fun p => ⟨p.1, p.2⟩)
    (fun _ => rfl)

@[simp] theorem isNull_null : null.isNull = true := by decide

end CTxOut

structure CTransaction where
  nVersion : Int32
  vin : List CTxIn
  vout : List CTxOut
  nLockTime : UInt32
  location : UInt64
  deriving DecidableEq, Repr

namespace CTransaction

/-- The part of a transaction that is hashed and sent. -/
def contents (tx : CTransaction) : Int32 × List CTxIn × List CTxOut × UInt32 :=
  (tx.nVersion, tx.vin, tx.vout, tx.nLockTime)

def contentsCodec : Codec (Int32 × List CTxIn × List CTxOut × UInt32) :=
  int32.prod ((vector CTxIn.codec).prod ((vector CTxOut.codec).prod uint32))

/-- `SER_DISK`: the contents followed by `m_location`. -/
def diskCodec : Codec CTransaction :=
  (contentsCodec.prod uint64).imap (fun tx => (tx.contents, tx.location))
    (fun p => ⟨p.1.1, p.1.2.1, p.1.2.2.1, p.1.2.2.2, p.2⟩) (fun _ => rfl)

/-- `SER_NETWORK` and `SER_GETHASH`; reading leaves the location of the object
that is read into, here a new one. -/
def networkCodec : Codec CTransaction where
  encode tx := contentsCodec.encode tx.contents
  decode bs := (contentsCodec.decode bs).map fun p =>
    (⟨p.1.1, p.1.2.1, p.1.2.2.1, p.1.2.2.2, 0⟩, p.2)
  Fits tx := contentsCodec.Fits tx.contents ∧ tx.location = 0
  decode_encode := by
    rintro ⟨nVersion, vin, vout, nLockTime, location⟩ rest ⟨hfits, rfl⟩
    rw [contentsCodec.decode_encode _ rest hfits]
    rfl
  decode_suffix := by
    intro bs tx rest h
    obtain ⟨⟨a, rest'⟩, ha, heq⟩ := Option.map_eq_some_iff.mp h
    cases heq
    exact contentsCodec.decode_suffix _ _ _ ha

/-- `GetHash`: the hash of the `SER_GETHASH` bytes. -/
def getHash (H : HashFunctions) (tx : CTransaction) : Uint256 :=
  H.hash (contentsCodec.encode tx.contents)

def isCoinBase (tx : CTransaction) : Bool :=
  match tx.vin with
  | [txIn] => txIn.prevout.isNull
  | _ => false

def prevouts (tx : CTransaction) : List COutPoint := tx.vin.map CTxIn.prevout

/-- Assigning a location changes neither the contents nor the hash. -/
def setLocation (tx : CTransaction) (location : UInt64) : CTransaction :=
  { tx with location := location }

end CTransaction

end Dims
