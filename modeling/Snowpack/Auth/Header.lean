import Snowpack.Lib.Bytes

/-!
# Node identities and auth headers (`src/node_id.rs`, `src/sign.rs`, `src/auth.rs`)

An auth header names a node, its role and its transport key, and is signed with the key of the
cluster. The handshake carries the signed bytes; `SignedAuthHeader.verifyRaw` is what the receiving
side makes of them.

Ed25519 and the `yatlv` format are not part of the repository: `Ed25519` and `Yatlv` are the calls
made to them, and nothing is assumed about these here.
-/

namespace Snowpack

open Wire

/-! ## Calls outside the repository -/

/-- `ed25519_dalek`: verifying keys, signing keys and parsed signatures. -/
structure Ed25519 where
  VerifyingKey : Type
  SigningKey : Type
  Signature : Type
  fromSlice : Bytes → Option Signature
  verifyStrict : VerifyingKey → Bytes → Signature → Bool
  sign : SigningKey → Bytes → Bytes

/-- `yatlv`: a frame is built from tagged fields and looked up by tag. -/
structure Yatlv where
  Frame : Type
  build : List (UInt16 × Bytes) → Bytes
  parse : Bytes → Option Frame
  getData : Frame → UInt16 → Option Bytes
  getOptionalData : Frame → UInt16 → Option Bytes

/-! ## Identities and keys -/

/-- Longest node id, in bytes. -/
def maxNodeIdLen : Nat := 512

/-- The id of a node: bytes, which only `tryFromBytes` limits in number. -/
structure NodeId where
  bytes : Bytes
  deriving DecidableEq, Repr

/-- The error of `try_from_bytes`, with the length it was given. -/
structure NodeIdTooLong where
  len : Nat
  deriving DecidableEq, Repr

/-- A node id from bytes that are not too many. -/
def NodeId.tryFromBytes (bytes : Bytes) : Except NodeIdTooLong NodeId :=
  if bytes.length > maxNodeIdLen then .error ⟨bytes.length⟩ else .ok ⟨bytes⟩

/-- `From<u32>`. -/
def NodeId.fromU32 (value : UInt32) : NodeId := ⟨beBytes 4 value.toNat⟩

/-- `From<u64>`. -/
def NodeId.fromU64 (value : UInt64) : NodeId := ⟨beBytes 8 value.toNat⟩

example : NodeId.fromU64 0x0102030405060708 = ⟨[1, 2, 3, 4, 5, 6, 7, 8]⟩ := by decide

/-- The derived `Deserialize`: what the format has for a `Vec<u8>`, of any length. -/
def NodeId.deserialize {ε : Type} (d : Except ε Bytes) : Except ε NodeId :=
  match d with
  | .error e => .error e
  | .ok bytes => .ok ⟨bytes⟩

/-- The ways to a `NodeId` from outside its module. -/
inductive NodeId.Obtained : NodeId → Prop
  | tryFromBytes {bytes : Bytes} {id : NodeId} (h : NodeId.tryFromBytes bytes = .ok id) :
      Obtained id
  | fromU32 (value : UInt32) : Obtained (.fromU32 value)
  | fromU64 (value : UInt64) : Obtained (.fromU64 value)
  | deserialize {ε : Type} {d : Except ε Bytes} {id : NodeId}
      (h : NodeId.deserialize d = .ok id) : Obtained id

/-- `[u8; 32]`. -/
@[ext] structure Array32 where
  bytes : Bytes
  length_eq : bytes.length = 32
  deriving Repr

instance : DecidableEq Array32 := fun a b =>
  decidable_of_iff (a.bytes = b.bytes) Array32.ext_iff.symm

/-- `<[u8; 32]>::try_from` of a slice or a vector. -/
def Array32.ofSlice (bytes : Bytes) : Option Array32 :=
  if h : bytes.length = 32 then some ⟨bytes, h⟩ else none

theorem Array32.ofSlice_bytes (a : Array32) : ofSlice a.bytes = some a := by
  simp only [ofSlice, a.length_eq, ↓reduceDIte]

theorem Array32.bytes_of_ofSlice {bytes : Bytes} {a : Array32} (h : ofSlice bytes = some a) :
    a.bytes = bytes := by
  unfold ofSlice at h
  split at h
  · cases h
    rfl
  · cases h

/-- A transport public key. -/
structure TransportPublicKey where
  bytes : Bytes
  length_eq : bytes.length = 32
  deriving DecidableEq, Repr

namespace TransportPublicKey

/-- `From<[u8; 32]>`. -/
def ofArray (arr : Array32) : TransportPublicKey := ⟨arr.bytes, arr.length_eq⟩

/-- `as_bytes`, an array. -/
def toArray (k : TransportPublicKey) : Array32 := ⟨k.bytes, k.length_eq⟩

/-- The key in a slice, if it is one of 32 bytes. -/
def ofSlice (bytes : Bytes) : Option TransportPublicKey := (Array32.ofSlice bytes).map ofArray

theorem ofSlice_bytes (k : TransportPublicKey) : ofSlice k.bytes = some k := by
  have h := k.toArray.ofSlice_bytes
  rw [toArray] at h
  rw [ofSlice, h]
  rfl

theorem bytes_of_ofSlice {bytes : Bytes} {k : TransportPublicKey} (h : ofSlice bytes = some k) :
    k.bytes = bytes := by
  obtain ⟨a, ha, rfl⟩ := Option.map_eq_some_iff.1 h
  exact Array32.bytes_of_ofSlice ha

end TransportPublicKey

/-! ## Signed records -/

/-- Why a signed record is not accepted. -/
inductive SignatureValidationErr
  | malformedRecord
  | badSignature
  deriving DecidableEq, Repr

/-- Why the other side of a handshake is not accepted. -/
inductive BadAuth
  | signature (e : SignatureValidationErr)
  | publicKeyMismatch (expected actual : TransportPublicKey)
  | nodeIdMismatch (expected actual : NodeId)
  deriving DecidableEq, Repr

/-- The length of an Ed25519 signature. -/
def signatureLen : Nat := 64

/-- `SignatureVerificationKey::verify_payload`: the payload in front of the signature. -/
def verifyPayload (E : Ed25519) (key : E.VerifyingKey) (record : Bytes) :
    Except SignatureValidationErr Bytes :=
  if record.length < signatureLen then .error .malformedRecord
  else
    let payloadLen := record.length - signatureLen
    let payload := record.take payloadLen
    match E.fromSlice (record.drop payloadLen) with
    | none => .error .malformedRecord
    | some signature =>
      if E.verifyStrict key payload signature then .ok payload else .error .badSignature

/-- The payload with its signature behind it. -/
def SignatureSigningKey.sign (E : Ed25519) (key : E.SigningKey) (payload : Bytes) : Bytes :=
  payload ++ E.sign key payload

/-! ## Headers -/

/-- The tag of the node id in a header. -/
def tagNodeId : UInt16 := 1
/-- The tag of the public key. -/
def tagPublicKey : UInt16 := 2
/-- The tag of the role. -/
def tagRole : UInt16 := 3

/-- What is learned about the other side: its id and its role. -/
structure AuthDetails where
  nodeId : NodeId
  role : Option Bytes
  deriving DecidableEq, Repr

/-- The id has to be the one that was asked for. -/
def AuthDetails.checkNodeId (d : AuthDetails) (expected : NodeId) : Except BadAuth Unit :=
  if d.nodeId = expected then .ok () else .error (.nodeIdMismatch expected d.nodeId)

/-- What a node shows of itself: an id, perhaps a role, and its public key. -/
structure AuthHeader where
  nodeId : NodeId
  role : Option Bytes
  publicKey : TransportPublicKey
  deriving DecidableEq, Repr

/-- The bytes are not those of a header. -/
structure MalformedAuthHeader where
  deriving DecidableEq, Repr

namespace AuthHeader

/-- The argument is already converted `into` a `NodeId`. -/
def new (nodeId : NodeId) (role : Option Bytes) (publicKey : TransportPublicKey) : AuthHeader :=
  ⟨nodeId, role, publicKey⟩

/-- `AuthDetails::from`. -/
def details (h : AuthHeader) : AuthDetails := ⟨h.nodeId, h.role⟩

/-- The declared key has to be the one that Noise reports. -/
def validatePublicKey (h : AuthHeader) (key : TransportPublicKey) : Except BadAuth Unit :=
  if h.publicKey = key then .ok () else .error (.publicKeyMismatch h.publicKey key)

/-- The header as fields: the id, the key, and the role if there is one. -/
def toYatlv (Y : Yatlv) (h : AuthHeader) : Bytes :=
  Y.build ([(tagNodeId, h.nodeId.bytes), (tagPublicKey, h.publicKey.bytes)] ++
    match h.role with
    | some role => [(tagRole, role)]
    | none => [])

/-- The header in some fields; the id and the key must be there and of a good length. -/
def fromYatlv (Y : Yatlv) (data : Bytes) : Except MalformedAuthHeader AuthHeader :=
  match Y.parse data with
  | none => .error ⟨⟩
  | some parser =>
    match Y.getData parser tagNodeId, Y.getData parser tagPublicKey with
    | some nodeIdBytes, some publicKeyBytes =>
      match NodeId.tryFromBytes nodeIdBytes, TransportPublicKey.ofSlice publicKeyBytes with
      | .ok nodeId, some publicKey => .ok ⟨nodeId, Y.getOptionalData parser tagRole, publicKey⟩
      | _, _ => .error ⟨⟩
    | _, _ => .error ⟨⟩

/-- The header as fields, with a signature behind them. -/
def sign (E : Ed25519) (Y : Yatlv) (h : AuthHeader) (key : E.SigningKey) : Bytes :=
  SignatureSigningKey.sign E key (h.toYatlv Y)

end AuthHeader

/-- The header in a signed record, once the signature has been checked. -/
def SignedAuthHeader.verifyRaw (E : Ed25519) (Y : Yatlv) (key : E.VerifyingKey) (data : Bytes) :
    Except BadAuth AuthHeader :=
  match verifyPayload E key data with
  | .error e => .error (.signature e)
  | .ok payload =>
    match AuthHeader.fromYatlv Y payload with
    | .error _ => .error (.signature .malformedRecord)
    | .ok h => .ok h

/-- The same, on a `SignedAuthHeader`. -/
def SignedAuthHeader.verify (E : Ed25519) (Y : Yatlv) (signed : Bytes) (key : E.VerifyingKey) :
    Except BadAuth AuthHeader :=
  SignedAuthHeader.verifyRaw E Y key signed

/-! ## What an accepted record is -/

theorem verifyPayload_ok {E : Ed25519} {key : E.VerifyingKey} {record payload : Bytes}
    (h : verifyPayload E key record = .ok payload) :
    ∃ sig signature, record = payload ++ sig ∧ sig.length = signatureLen ∧
      E.fromSlice sig = some signature ∧ E.verifyStrict key payload signature = true := by
  unfold verifyPayload at h
  split at h
  · cases h
  · rename_i hl
    simp only at h
    split at h
    · cases h
    · rename_i signature hs
      split at h
      · rename_i hv
        cases h
        refine ⟨_, signature, (List.take_append_drop _ _).symm, ?_, hs, hv⟩
        rw [List.length_drop]
        omega
      · cases h

theorem verifyRaw_ok {E : Ed25519} {Y : Yatlv} {key : E.VerifyingKey} {data : Bytes}
    {h : AuthHeader} (hv : SignedAuthHeader.verifyRaw E Y key data = .ok h) :
    ∃ payload, verifyPayload E key data = .ok payload ∧ AuthHeader.fromYatlv Y payload = .ok h := by
  unfold SignedAuthHeader.verifyRaw at hv
  split at hv
  · cases hv
  · rename_i payload hp
    split at hv
    · cases hv
    · rename_i h' hf
      cases hv
      exact ⟨payload, hp, hf⟩

theorem validatePublicKey_ok {h : AuthHeader} {key : TransportPublicKey} :
    h.validatePublicKey key = .ok () ↔ h.publicKey = key := by
  unfold AuthHeader.validatePublicKey
  split <;> simp_all

end Snowpack
