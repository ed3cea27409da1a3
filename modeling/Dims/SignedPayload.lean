import Dims.CommunicationProtocol

/-!
# What a signature covers

Four kinds of data are signed: the payload of a new message, a message that is
forwarded, the payload of the connection handshake and the node lists a monitor
hands to its clients. Signer and verifier take the same digest of the serialized
data, which leaves its last byte out.
-/

namespace Dims
open ByteCodec Serialize

/-- A port in network byte order. -/
def portCodec : Codec UInt16 :=
  ((Codec.uint 1).prod (Codec.uint 1)).imap (fun port => (port.toNat / 256, port.toNat % 256))
    (fun p => UInt16.ofNat (p.1 * 256 + p.2)) (fun port => by
      rw [Nat.div_add_mod' port.toNat 256, UInt16.ofNat_toNat])

/-- `CAddress` as the network format writes it; `ip` holds the 16 raw bytes. -/
structure CAddress where
  nTime : UInt32
  nServices : UInt64
  ip : BitVec (8 * 16)
  port : UInt16
  deriving DecidableEq

def CAddress.codec : Codec CAddress :=
  (uint32.prod (uint64.prod ((bitVec 16).prod portCodec))).imap
    (fun a => (a.nTime, a.nServices, a.ip, a.port)) (fun p => ⟨p.1, p.2.1, p.2.2.1, p.2.2.2⟩)
    (fun _ => rfl)

structure CValidNodeInfo where
  publicKey : CPubKey
  address : CAddress
  deriving DecidableEq

def CValidNodeInfo.codec : Codec CValidNodeInfo :=
  (CPubKey.codec.prod CAddress.codec).imap (fun i => (i.publicKey, i.address))
    (fun p => ⟨p.1, p.2⟩) (fun _ => rfl)

structure CTrackerData extends CValidNodeInfo where
  reputation : UInt32
  networkTime : UInt64
  contractTime : UInt64
  deriving DecidableEq

def CTrackerData.codec : Codec CTrackerData :=
  (CValidNodeInfo.codec.prod (uint32.prod (uint64.prod uint64))).imap
    (fun d => (d.toCValidNodeInfo, d.reputation, d.networkTime, d.contractTime))
    (fun p => ⟨p.1, p.2.1, p.2.2.1, p.2.2.2⟩) (fun _ => rfl)

structure CNodeInfo where
  ip : Bytes
  port : UInt32
  key : CPubKey
  role : UInt32
  deriving DecidableEq

def CNodeInfo.codec : Codec CNodeInfo :=
  (byteVector.prod (uint32.prod (CPubKey.codec.prod uint32))).imap
    (fun i => (i.ip, i.port, i.key, i.role)) (fun p => ⟨p.1, p.2.1, p.2.2.1, p.2.2.2⟩)
    (fun _ => rfl)

/-- The set of trackers is listed in the order it is written. -/
structure CMonitorData where
  trackers : List CTrackerData
  monitors : List CNodeInfo
  signed : Bytes
  deriving DecidableEq

namespace CMonitorData

/-- The buffer that `hashMonitorData` builds: the monitors, then the trackers. -/
def inBytes (monitorData : CMonitorData) : Bytes :=
  (vector CNodeInfo.codec).encode monitorData.monitors ++
    (vector CTrackerData.codec).encode monitorData.trackers

end CMonitorData

def hashMonitorData (H : HashFunctions) (monitorData : CMonitorData) : Option Uint256 :=
  payloadHash H monitorData.inBytes

/-- The monitor's side of `hashMonitorData`. -/
def signMonitorData (H : HashFunctions) (A : CAuthenticationProvider)
    (monitorData : CMonitorData) : Option CMonitorData :=
  (hashMonitorData H monitorData).map fun hash => { monitorData with signed := A.sign hash }

/-- The client's side of `hashMonitorData`. -/
def verifyMonitorData (H : HashFunctions) (S : SignatureScheme) (key : CPubKey)
    (monitorData : CMonitorData) : Option Bool :=
  (hashMonitorData H monitorData).map fun hash => S.verify key hash monitorData.signed

structure CIdentifyMessage where
  payload : Bytes
  key : CPubKey
  signed : Bytes
  deriving DecidableEq

/-- The identification a node answers a handshake payload with. -/
def createIdentifyResponse (H : HashFunctions) (A : CAuthenticationProvider) (payload : Bytes) :
    Option CIdentifyMessage :=
  (payloadHash H payload).map fun hash => ⟨payload, A.myKey, A.sign hash⟩

/-- The check of an identification in the connecting and the connected state. -/
def verifyIdentification (H : HashFunctions) (S : SignatureScheme)
    (identificationResult : CIdentifyMessage) : Option Bool :=
  (payloadHash H identificationResult.payload).map fun hash =>
    S.verify identificationResult.key hash identificationResult.signed

/-- The data that is signed somewhere in the program. -/
inductive CSignedData
  | message (messageKind : Int32) (payload : Bytes) (actionKey id : Uint256) (time : Int64)
  | forwarded (inner : CMessage) (prevKey : CPubKey) (actionKey id : Uint256) (time : Int64)
  | identification (payload : Bytes)
  | monitorData (monitorData : CMonitorData)

namespace CSignedData

def payload : CSignedData → Bytes
  | message _ payload _ _ _ => payload
  | forwarded inner _ _ _ _ => CMessage.codec.encode inner
  | identification payload => payload
  | monitorData data => data.inBytes

/-- The bytes that the digest of the data is taken of. -/
def hashedBytes (d : CSignedData) : Option Bytes := hashedRange d.payload

/-- The signature the signer puts beside the data. -/
def sign (H : HashFunctions) (A : CAuthenticationProvider) : CSignedData → Option Bytes
  | message messageKind payload actionKey id time =>
    (CMessage.ofPayload H A messageKind payload actionKey id time).map (·.header.signedHash)
  | forwarded inner prevKey actionKey id time =>
    (inner.wrap H A prevKey actionKey id time).map (·.header.signedHash)
  | identification payload => (createIdentifyResponse H A payload).map (·.signed)
  | monitorData data => (signMonitorData H A data).map (·.signed)

/-- The verifier's answer for the data under a key and a signature. -/
def check (H : HashFunctions) (S : SignatureScheme) (key : CPubKey) (signature : Bytes) :
    CSignedData → Option Bool
  | message messageKind payload actionKey id time =>
    verifyPayload H S key ⟨⟨messageKind, signature, time, .invalid, actionKey, id⟩, payload⟩
  | forwarded inner prevKey actionKey id time =>
    verifyPayload H S key ⟨⟨inner.header.payloadKind, signature, time, prevKey, actionKey, id⟩,
      CMessage.codec.encode inner⟩
  | identification payload => verifyIdentification H S ⟨payload, key, signature⟩
  | monitorData data => verifyMonitorData H S key { data with signed := signature }

variable (H : HashFunctions) (S : SignatureScheme) (A : CAuthenticationProvider)

theorem sign_eq (d : CSignedData) :
    d.sign H A = d.hashedBytes.map fun u => A.sign (H.hash u) := by
  cases d with
  | message messageKind payload actionKey id time =>
    simp only [sign, CMessage.ofPayload, signPayload, payloadHash, Option.map_map]
    rfl
  | forwarded inner prevKey actionKey id time =>
    simp only [sign, CMessage.wrap, signPayload, payloadHash, Option.map_map]
    rfl
  | identification payload =>
    simp only [sign, createIdentifyResponse, payloadHash, Option.map_map]
    rfl
  | monitorData data =>
    simp only [sign, signMonitorData, hashMonitorData, payloadHash, Option.map_map]
    rfl

theorem check_eq (key : CPubKey) (signature : Bytes) (d : CSignedData) :
    d.check H S key signature =
      d.hashedBytes.map fun u => S.verify key (H.hash u) signature := by
  cases d with
  | message messageKind payload actionKey id time =>
    simp only [check, verifyPayload, payloadHash, Option.map_map]
    rfl
  | forwarded inner prevKey actionKey id time =>
    simp only [check, verifyPayload, payloadHash, Option.map_map]
    rfl
  | identification payload =>
    simp only [check, verifyIdentification, payloadHash, Option.map_map]
    rfl
  | monitorData data =>
    simp only [check, verifyMonitorData, hashMonitorData, payloadHash, Option.map_map]
    rfl

/-- The digests of two data are taken of different bytes. -/
def HashedApart (d d' : CSignedData) : Prop :=
  ∃ u v, d.hashedBytes = some u ∧ d'.hashedBytes = some v ∧ u ≠ v

theorem hashedApart_iff (d d' : CSignedData) :
    d.HashedApart d' ↔
      d.payload ≠ [] ∧ d'.payload ≠ [] ∧ d.payload.dropLast ≠ d'.payload.dropLast := by
  constructor
  · rintro ⟨u, v, hu, hv, huv⟩
    rcases hashedRange_eq_some.mp hu with ⟨hd, rfl⟩
    rcases hashedRange_eq_some.mp hv with ⟨hd', rfl⟩
    exact ⟨hd, hd', huv⟩
  · rintro ⟨hd, hd', hne⟩
    exact ⟨_, _, hashedRange_of_ne hd, hashedRange_of_ne hd', hne⟩

/-- A signature by `A` is refused for data whose digest is taken of other bytes,
where the hash does not collide. -/
theorem check_sign_of_hashedApart {d d' : CSignedData} (happart : d.HashedApart d')
    (hcollision : ∀ u v, d.hashedBytes = some u → d'.hashedBytes = some v →
      H.hash u = H.hash v → u = v)
    (hscheme : ∀ h h', S.verify A.myKey h' (A.sign h) = true ↔ h = h')
    {signature : Bytes} (hsign : d.sign H A = some signature) :
    d'.check H S A.myKey signature = some false := by
  rcases happart with ⟨u, v, hu, hv, huv⟩
  have hsig : A.sign (H.hash u) = signature := by
    rw [sign_eq, hu] at hsign
    exact Option.some.inj hsign
  have hrefused : S.verify A.myKey (H.hash v) signature = false := by
    rw [← hsig, Bool.eq_false_iff]
    intro haccepted
    exact huv (hcollision u v hu hv ((hscheme _ _).mp haccepted))
  rw [check_eq, hv, Option.map_some, hrefused]

/-- The digests of two data are taken apart, and a signature for the one is
refused for the other, exactly if both payloads are nonempty and differ before
their last bytes. -/
theorem signature_covers_payload_iff (d d' : CSignedData)
    (hcollision : ∀ u v, d.hashedBytes = some u → d'.hashedBytes = some v →
      H.hash u = H.hash v → u = v)
    (hscheme : ∀ h h', S.verify A.myKey h' (A.sign h) = true ↔ h = h') :
    (d.HashedApart d' ∧ ∀ signature, d.sign H A = some signature →
      d'.check H S A.myKey signature = some false) ↔
    d.payload ≠ [] ∧ d'.payload ≠ [] ∧ d.payload.dropLast ≠ d'.payload.dropLast := by
  rw [← hashedApart_iff]
  constructor
  · exact And.left
  · intro happart
    refine ⟨happart, ?_⟩
    intro signature hsign
    exact check_sign_of_hashedApart H S A happart hcollision hscheme hsign

private def plainScheme (key : CPubKey) : SignatureScheme :=
  ⟨fun k h sig => k = key ∧ uint256.encode h = sig⟩

/-- Two payloads whose first bytes differ. -/
theorem signature_covers_payload_witness :
    let key := CPubKey.ofBytes (2 :: List.replicate 32 1)
    let H : HashFunctions := ⟨fun w => BitVec.ofNat 256 (leValue w), fun _ => 0⟩
    let d := identification [1, 7]
    let d' := message CPayloadKind.get.toInt [2, 7] 0 0 0
    (d.HashedApart d' ∧ ∀ signature, d.sign H ⟨key, uint256.encode⟩ = some signature →
      d'.check H (plainScheme key) key signature = some false) ↔
    d.payload ≠ [] ∧ d'.payload ≠ [] ∧ d.payload.dropLast ≠ d'.payload.dropLast := by
  intro key H d d'
  refine signature_covers_payload_iff H (plainScheme key) ⟨key, uint256.encode⟩ d d' ?_ ?_
  · intro u v hu hv
    have hu1 : u = [1] := (Option.some.inj hu).symm
    have hv2 : v = [2] := (Option.some.inj hv).symm
    subst hu1 hv2
    intro h
    exact absurd h (by decide)
  · intro h h'
    have hkey : key.isValid = true := by decide
    simp only [SignatureScheme.verify, plainScheme, hkey, Bool.true_and, true_and,
      decide_eq_true_eq]
    constructor
    · intro hsame
      exact (uint256.encode_injective (uint256_fits h') (uint256_fits h) hsame).symm
    · intro hsame
      rw [hsame]

/-- The payload of the proof of admission for a transaction hash. -/
def admitProof (proofTransactionHash : Uint256) : CSignedData :=
  message CPayloadKind.admitProof.toInt (uint256.encode proofTransactionHash) 0 0 0

/-- Two proofs of admission whose hashes differ in the last byte alone are
hashed and signed alike. -/
theorem admitProof_hashed_alike :
    (admitProof 0).payload ≠ (admitProof (1 <<< 248)).payload ∧
    (admitProof 0).hashedBytes = (admitProof (1 <<< 248)).hashedBytes ∧
    ∀ H A, (admitProof 0).sign H A = (admitProof (1 <<< 248)).sign H A := by
  have hbytes : (admitProof 0).hashedBytes = (admitProof (1 <<< 248)).hashedBytes := by decide
  refine ⟨by decide, hbytes, ?_⟩
  intro H A
  rw [sign_eq, sign_eq, hbytes]

end CSignedData

end Dims
