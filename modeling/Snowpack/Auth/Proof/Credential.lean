import Snowpack.Auth.Header
import Snowpack.Lib.Fields

/-!
# Issued credentials

What `verify_raw` makes of a signed frame depends only on what is stored under the three tags of a
header (`verifyRaw_signed`), so neither the order of the fields nor fields under other tags matter
(`Among.perm`, `Among.append`).

The bound on the length of a node id is enforced by `NodeId::try_from_bytes` and by the decoder, and
not by the derived `Deserialize` or the encoder: a credential with a longer id can be issued and is
refused by everyone.

`Ed25519.Spec` and `Yatlv.Lawful` are what is assumed of the two crates; `Credential.ed25519` and
`Credential.yatlv` meet them.
-/

namespace Snowpack

open Wire

/-! ## What is assumed of the crates -/

/-- Signatures have 64 bytes, and are accepted under the key that belongs to the signing key. -/
structure Ed25519.Spec (E : Ed25519) where
  verifyingKey : E.SigningKey → E.VerifyingKey
  length_sign : ∀ key payload, (E.sign key payload).length = signatureLen
  accepts : ∀ key payload, ∃ signature, E.fromSlice (E.sign key payload) = some signature ∧
    E.verifyStrict (verifyingKey key) payload signature = true

/-- The lookups on a frame, for tags that are used at most once. -/
structure Yatlv.Stores (Y : Yatlv) (fields : List (UInt16 × Bytes)) (frame : Y.Frame) : Prop where
  getData : ∀ tag data, under fields tag = [data] → Y.getData frame tag = some data
  getOptionalData : ∀ tag (o : Option Bytes), under fields tag = o.toList →
    Y.getOptionalData frame tag = o

/-- A frame built from any fields parses, and a lookup finds what was stored. -/
structure Yatlv.Lawful (Y : Yatlv) : Prop where
  parse_build : ∀ fields, ∃ frame, Y.parse (Y.build fields) = some frame ∧ Y.Stores fields frame

variable {E : Ed25519} {Y : Yatlv}

/-! ## Node ids -/

theorem NodeId.tryFromBytes_eq (bytes : Bytes) :
    NodeId.tryFromBytes bytes =
      if bytes.length ≤ maxNodeIdLen then .ok ⟨bytes⟩ else .error ⟨bytes.length⟩ := by
  unfold NodeId.tryFromBytes
  by_cases h : bytes.length ≤ maxNodeIdLen
  · rw [if_pos h, if_neg (by omega)]
  · rw [if_neg h, if_pos (by omega)]

/-- Only `Deserialize` gives an id that is too long. -/
theorem NodeId.Obtained.length_le_or {id : NodeId} (h : id.Obtained) :
    id.bytes.length ≤ maxNodeIdLen ∨
      ∃ (ε : Type) (d : Except ε Bytes), NodeId.deserialize d = .ok id := by
  cases h with
  | @tryFromBytes bytes _ h =>
    rw [NodeId.tryFromBytes_eq] at h
    split at h
    · rename_i hle
      cases h
      exact .inl hle
    · cases h
  | fromU32 value =>
    left
    simp only [NodeId.fromU32, length_beBytes, maxNodeIdLen]
    omega
  | fromU64 value =>
    left
    simp only [NodeId.fromU64, length_beBytes, maxNodeIdLen]
    omega
  | @deserialize ε d _ h => exact .inr ⟨ε, d, h⟩

/-! ## Signed payloads -/

theorem verifyPayload_sign (S : E.Spec) (key : E.SigningKey) (payload : Bytes) :
    verifyPayload E (S.verifyingKey key) (SignatureSigningKey.sign E key payload) =
      .ok payload := by
  obtain ⟨signature, hslice, hverify⟩ := S.accepts key payload
  have hlen : (SignatureSigningKey.sign E key payload).length = payload.length + signatureLen := by
    simp only [SignatureSigningKey.sign, List.length_append, S.length_sign]
  unfold verifyPayload
  rw [hlen, if_neg (by omega), Nat.add_sub_cancel]
  simp only [SignatureSigningKey.sign, List.take_left, List.drop_left, hslice, hverify, ↓reduceIte]

theorem sign_payload_inj (S : E.Spec) {key key' : E.SigningKey} {payload payload' : Bytes}
    (h : SignatureSigningKey.sign E key payload = SignatureSigningKey.sign E key' payload') :
    payload = payload' :=
  (List.append_inj' h (by rw [S.length_sign, S.length_sign])).1

/-! ## Headers in frames -/

namespace AuthHeader

/-- The fields of `to_yatlv`. -/
def ownFields (h : AuthHeader) : List (UInt16 × Bytes) :=
  [(tagNodeId, h.nodeId.bytes), (tagPublicKey, h.publicKey.bytes)] ++
    h.role.toList.map (tagRole, ·)

theorem toYatlv_eq (Y : Yatlv) (h : AuthHeader) : h.toYatlv Y = Y.build h.ownFields := by
  obtain ⟨nodeId, role, publicKey⟩ := h
  cases role with
  | none => rfl
  | some role => rfl

/-- The header is what the three tags say. -/
structure Among (h : AuthHeader) (fields : List (UInt16 × Bytes)) : Prop where
  nodeId : under fields tagNodeId = [h.nodeId.bytes]
  publicKey : under fields tagPublicKey = [h.publicKey.bytes]
  role : under fields tagRole = h.role.toList

variable {h h' : AuthHeader} {fields extra : List (UInt16 × Bytes)}

theorem among_ownFields (h : AuthHeader) : h.Among h.ownFields := by
  obtain ⟨nodeId, role, publicKey⟩ := h
  cases role with
  | none => exact ⟨rfl, rfl, rfl⟩
  | some role => exact ⟨rfl, rfl, rfl⟩

/-- Fields under other tags. -/
theorem Among.append (hf : h.Among fields)
    (hextra : ∀ f ∈ extra, f.1 ∉ [tagNodeId, tagPublicKey, tagRole]) :
    h.Among (fields ++ extra) := by
  have hnil : ∀ tag ∈ [tagNodeId, tagPublicKey, tagRole], under extra tag = [] := by
    intro tag htag
    apply under_eq_nil
    intro f hf heq
    exact hextra f hf (heq ▸ htag)
  refine ⟨?_, ?_, ?_⟩
  · rw [under_append, hnil tagNodeId (by simp), List.append_nil, hf.nodeId]
  · rw [under_append, hnil tagPublicKey (by simp), List.append_nil, hf.publicKey]
  · rw [under_append, hnil tagRole (by simp), List.append_nil, hf.role]

/-- Another order. -/
theorem Among.perm (hf : h.Among fields) {other : List (UInt16 × Bytes)}
    (hperm : other.Perm fields) : h.Among other where
  nodeId := under_perm (o := some h.nodeId.bytes) hperm hf.nodeId
  publicKey := under_perm (o := some h.publicKey.bytes) hperm hf.publicKey
  role := under_perm hperm hf.role

/-- `from_yatlv` gives the header, unless its id is too long. -/
theorem fromYatlv_build (L : Y.Lawful) (hf : h.Among fields) :
    fromYatlv Y (Y.build fields) =
      if h.nodeId.bytes.length ≤ maxNodeIdLen then .ok h else .error ⟨⟩ := by
  obtain ⟨frame, hparse, hstores⟩ := L.parse_build fields
  unfold fromYatlv
  rw [hparse]
  simp only [hstores.getData _ _ hf.nodeId, hstores.getData _ _ hf.publicKey,
    hstores.getOptionalData _ _ hf.role, NodeId.tryFromBytes_eq, TransportPublicKey.ofSlice_bytes]
  by_cases hlen : h.nodeId.bytes.length ≤ maxNodeIdLen
  · simp only [hlen, ↓reduceIte]
  · simp only [hlen, ↓reduceIte]

/-- A frame holds one header. -/
theorem eq_of_build_eq (L : Y.Lawful) {fields' : List (UInt16 × Bytes)} (hf : h.Among fields)
    (hf' : h'.Among fields') (heq : Y.build fields = Y.build fields') : h = h' := by
  obtain ⟨frame, hparse, hstores⟩ := L.parse_build fields
  obtain ⟨frame', hparse', hstores'⟩ := L.parse_build fields'
  -- both parse the same bytes
  have hsame : frame = frame' := by
    rw [heq, hparse'] at hparse
    exact (Option.some.inj hparse).symm
  subst hsame
  have hid : h.nodeId.bytes = h'.nodeId.bytes := by
    have hfound := hstores.getData _ _ hf.nodeId
    rw [hstores'.getData _ _ hf'.nodeId] at hfound
    exact (Option.some.inj hfound).symm
  have hkey : h.publicKey.bytes = h'.publicKey.bytes := by
    have hfound := hstores.getData _ _ hf.publicKey
    rw [hstores'.getData _ _ hf'.publicKey] at hfound
    exact (Option.some.inj hfound).symm
  have hrole : h.role = h'.role := by
    have hfound := hstores.getOptionalData _ _ hf.role
    rw [hstores'.getOptionalData _ _ hf'.role] at hfound
    exact hfound.symm
  obtain ⟨⟨id⟩, role, ⟨key, hl⟩⟩ := h
  obtain ⟨⟨id'⟩, role', ⟨key', hl'⟩⟩ := h'
  cases hid
  cases hkey
  cases hrole
  rfl

end AuthHeader

/-- What a peer makes of a signed frame that holds a header. -/
theorem verifyRaw_signed (S : E.Spec) (L : Y.Lawful) {h : AuthHeader}
    {fields : List (UInt16 × Bytes)} (hf : h.Among fields) (key : E.SigningKey) :
    SignedAuthHeader.verifyRaw E Y (S.verifyingKey key)
        (SignatureSigningKey.sign E key (Y.build fields)) =
      if h.nodeId.bytes.length ≤ maxNodeIdLen then .ok h
      else .error (.signature .malformedRecord) := by
  unfold SignedAuthHeader.verifyRaw
  simp only [verifyPayload_sign S, AuthHeader.fromYatlv_build L hf]
  by_cases hlen : h.nodeId.bytes.length ≤ maxNodeIdLen
  · simp only [hlen, ↓reduceIte]
  · simp only [hlen, ↓reduceIte]

theorem verify_sign (S : E.Spec) (L : Y.Lawful) (h : AuthHeader) (key : E.SigningKey) :
    SignedAuthHeader.verify E Y (h.sign E Y key) (S.verifyingKey key) =
      if h.nodeId.bytes.length ≤ maxNodeIdLen then .ok h
      else .error (.signature .malformedRecord) := by
  unfold SignedAuthHeader.verify AuthHeader.sign
  rw [h.toYatlv_eq Y]
  exact verifyRaw_signed S L h.among_ownFields key

/-! ## Crates that meet the assumptions -/

namespace Credential

/-- A signature is the first 64 bytes of the key and the payload. -/
def ed25519 : Ed25519 where
  VerifyingKey := Bytes
  SigningKey := Bytes
  Signature := Bytes
  fromSlice data := if data.length = signatureLen then some data else none
  verifyStrict key payload signature := signature == resize (key ++ payload) signatureLen
  sign key payload := resize (key ++ payload) signatureLen

/-- What is signed is accepted: the signature is the key and the payload, cut to length. -/
def spec : ed25519.Spec where
  verifyingKey key := key
  length_sign _ _ := length_resize _ _
  accepts key payload :=
    ⟨ed25519.sign key payload, if_pos (length_resize _ _), beq_self_eq_true _⟩

/-- Fields in the byte format of `encodeFields`; of two with one tag the first counts. -/
def yatlv : Yatlv where
  Frame := List (UInt16 × Bytes)
  build := encodeFields
  parse := parseFields none
  getData frame tag := (under frame tag).head?
  getOptionalData frame tag := (under frame tag).head?

theorem yatlv_lawful : yatlv.Lawful where
  parse_build fields := by
    refine ⟨fields, parse_encode fields, fun tag data hu => ?_, fun tag o hu => ?_⟩
    · simp only [yatlv, hu, List.head?_cons]
    · simp only [yatlv, hu]
      cases o <;> rfl

/-- The key that signs in the examples. -/
def clusterKey : ed25519.SigningKey := ([5] : Bytes)

/-- The public key of a node in the examples. -/
def transportKey : TransportPublicKey := ⟨List.replicate 32 9, List.length_replicate⟩

/-- An integer id, and a role that is there and empty. -/
def header : AuthHeader := .new (.fromU32 7) (some []) transportKey

/-- One byte longer than `MAX_NODE_ID_LEN`. -/
def longId : NodeId := ⟨List.replicate 513 0⟩

theorem longId_obtained : longId.Obtained :=
  .deserialize (d := (.ok (List.replicate 513 0) : Except Unit Bytes)) rfl

end Credential

/-! ## The theorems -/

/-- **A credential verifies to itself exactly if its id is at most `MAX_NODE_ID_LEN` long**, for
every id a program can obtain, role, transport key and cluster key. Different headers, with ids of
any length, never have the same payload. -/
theorem credential_verifies_iff (S : E.Spec) (L : Y.Lawful) :
    (∀ id : NodeId, id.Obtained →
      ∀ (role : Option Bytes) (publicKey : TransportPublicKey) (key : E.SigningKey),
        SignedAuthHeader.verify E Y ((AuthHeader.new id role publicKey).sign E Y key)
            (S.verifyingKey key) = .ok (AuthHeader.new id role publicKey) ↔
          id.bytes.length ≤ maxNodeIdLen) ∧
    (∀ h h' : AuthHeader, h ≠ h' → h.toYatlv Y ≠ h'.toYatlv Y) ∧
    ∀ (h h' : AuthHeader) (key key' : E.SigningKey), h ≠ h' →
      h.sign E Y key ≠ h'.sign E Y key' := by
  have hinj : ∀ h h' : AuthHeader, h.toYatlv Y = h'.toYatlv Y → h = h' := by
    intro h h' heq
    rw [h.toYatlv_eq, h'.toYatlv_eq] at heq
    exact AuthHeader.eq_of_build_eq L h.among_ownFields h'.among_ownFields heq
  refine ⟨fun id _ role publicKey key => ?_, fun h h' hne heq => ?_,
    fun h h' key key' hne heq => ?_⟩
  · rw [verify_sign S L]
    change (if id.bytes.length ≤ maxNodeIdLen then _ else _) = _ ↔ _
    by_cases hlen : id.bytes.length ≤ maxNodeIdLen
    · simp only [hlen, ↓reduceIte]
    · simp only [hlen, ↓reduceIte, reduceCtorEq]
  · exact hne (hinj h h' heq)
  · exact hne (hinj h h' (sign_payload_inj S heq))

theorem credential_verifies_seven :
    SignedAuthHeader.verify Credential.ed25519 Credential.yatlv
        (Credential.header.sign Credential.ed25519 Credential.yatlv Credential.clusterKey)
        (Credential.spec.verifyingKey Credential.clusterKey) =
      .ok Credential.header :=
  ((credential_verifies_iff Credential.spec Credential.yatlv_lawful).1 (.fromU32 7) (.fromU32 7)
    (some []) Credential.transportKey Credential.clusterKey).2 (by decide)

/-- A deserialised id of 513 bytes: the credential is issued and refused. -/
theorem long_id_refused :
    Credential.longId.Obtained ∧
      SignedAuthHeader.verify Credential.ed25519 Credential.yatlv
          ((AuthHeader.new Credential.longId none Credential.transportKey).sign Credential.ed25519
            Credential.yatlv Credential.clusterKey)
          (Credential.spec.verifyingKey Credential.clusterKey) =
        .error (.signature .malformedRecord) := by
  refine ⟨Credential.longId_obtained, ?_⟩
  rw [verify_sign Credential.spec Credential.yatlv_lawful]
  apply if_neg
  have hlen : Credential.longId.bytes.length = 513 := List.length_replicate
  simp only [AuthHeader.new, hlen, maxNodeIdLen]
  omega

/-- **Auth headers are forward compatible.** A signed frame with the fields of a header and fields
under other tags, in any order, verifies to the header, as the frame without them does. -/
theorem extra_fields_ignored (S : E.Spec) (L : Y.Lawful) {h : AuthHeader}
    (hid : h.nodeId.bytes.length ≤ maxNodeIdLen) {extra fields : List (UInt16 × Bytes)}
    (hextra : ∀ f ∈ extra, f.1 ∉ [tagNodeId, tagPublicKey, tagRole])
    (hfields : fields.Perm (h.ownFields ++ extra)) (key : E.SigningKey) :
    SignedAuthHeader.verifyRaw E Y (S.verifyingKey key)
        (SignatureSigningKey.sign E key (Y.build fields)) = .ok h ∧
      SignedAuthHeader.verifyRaw E Y (S.verifyingKey key) (h.sign E Y key) = .ok h := by
  have hall : h.Among fields := (h.among_ownFields.append hextra).perm hfields
  refine ⟨?_, ?_⟩
  · rw [verifyRaw_signed S L hall, if_pos hid]
  · exact (verify_sign S L h key).trans (if_pos hid)

/-- A field under tag 9, and all of them backwards. -/
theorem extra_fields_ignored_nine :
    SignedAuthHeader.verifyRaw Credential.ed25519 Credential.yatlv
        (Credential.spec.verifyingKey Credential.clusterKey)
        (SignatureSigningKey.sign Credential.ed25519 Credential.clusterKey
          (Credential.yatlv.build (Credential.header.ownFields ++ [(9, [1, 2])]).reverse)) =
      .ok Credential.header :=
  (extra_fields_ignored Credential.spec Credential.yatlv_lawful (h := Credential.header)
    (by decide) (by decide) (List.reverse_perm _) Credential.clusterKey).1

end Snowpack
