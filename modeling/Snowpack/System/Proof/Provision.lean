import Snowpack.Auth.Proof.Credential
import Snowpack.Lib.Hex
import Snowpack.System.Proof.Life
import Snowpack.System.Provision

/-!
# Nodes of one cluster take each other

Every key and every signed header that is stored can be loaded again, whatever its form
(`load_store`, one argument for the four keys), so what a node has loaded is what was made for it
(`provision_eq`). Its header then verifies to itself (`verify_sign`) and carries the public key of
its own private key, which is all that the two sides of a handshake check (`Member.connectOk`,
`Member.acceptOk`).
-/

namespace Snowpack

open Wire

/-! ## What is stored is loaded -/

/-- What was written in hex is read back. -/
structure HexCodec.Lawful (X : HexCodec) : Prop where
  decode_encode : ∀ bytes, X.decode (X.encode bytes) = .ok bytes

/-- The key of a spec is the one made from bytes, and a key that exists can be read from its
bytes. -/
structure Ed25519.Keys.Lawful {E : Ed25519} (K : E.Keys) (S : E.Spec) : Prop where
  verifyingKey : K.verifyingKey = S.verifyingKey
  fromBytes_asBytes : ∀ k, K.verifyingFromBytes (K.asBytes k) = some k

/-- An item whose two ways back are right is loaded in any form. -/
theorem Stored.load_store {α ε : Type} {text : α → String} {serialize : Bool → α → SerdeValue}
    {fromStr : String → Except ε α} {deserialize : Bool → SerdeValue → Except SerdeError α} {a : α}
    (htext : fromStr (text a) = .ok a)
    (hserde : ∀ humanReadable, deserialize humanReadable (serialize humanReadable a) = .ok a)
    (form : Form) : Stored.load fromStr deserialize (form.store text serialize a) = some a := by
  cases form with
  | text => simp only [Form.store, load, htext, Except.toOption]
  | serde humanReadable => simp only [Form.store, load, hserde, Except.toOption]

section
variable {X : HexCodec} (hX : X.Lawful) {E : Ed25519} {K : E.Keys} {S : E.Spec}
include hX

theorem array32FromStr_encode (a : Array32) : array32FromStr X (X.encode a.bytes) = .ok a := by
  simp only [array32FromStr, hX.decode_encode, a.ofSlice_bytes]

theorem deserialize32_serialize32 (name : String) (humanReadable : Bool) (a : Array32) :
    deserialize32 X name humanReadable (serialize32 X humanReadable a) = .ok a := by
  cases humanReadable with
  | true =>
    simp [deserialize32, serialize32, SerdeValue.toText, hX.decode_encode, a.ofSlice_bytes]
  | false => simp [deserialize32, serialize32, SerdeValue.toArray32, a.ofSlice_bytes]

theorem TransportPublicKey.load_store (k : TransportPublicKey) (form : Form) :
    load X (k.store X form) = some k := by
  refine Stored.load_store ?_ (fun humanReadable => ?_) form
  · rw [tryFromStr, toString, ← show k.toArray.bytes = k.bytes from rfl, array32FromStr_encode hX]
    rfl
  · rw [deserialize, serialize, deserialize32_serialize32 hX]
    rfl

theorem TransportPrivateKey.load_store (k : TransportPrivateKey) (form : Form) :
    load X (k.store X form) = some k := by
  refine Stored.load_store ?_ (fun humanReadable => ?_) form
  · rw [tryFromStr, exposeToHumanString, array32FromStr_encode hX]
    rfl
  · rw [deserialize, serialize, deserialize32_serialize32 hX]
    rfl

theorem SignatureSigningKey.load_store (k : SignatureSigningKey) (form : Form) :
    load X (k.store X form) = some k := by
  refine Stored.load_store ?_ (fun humanReadable => ?_) form
  · rw [tryFromStr, exposeToHumanString, array32FromStr_encode hX]
    rfl
  · rw [deserialize, serialize, deserialize32_serialize32 hX]
    rfl

theorem SignatureVerificationKey.load_store (hK : K.Lawful S) (k : SignatureVerificationKey E)
    (form : Form) : load X K (k.store X K form) = some k := by
  have harray : tryFromArray K (K.asBytes k.key) = .ok k := by
    simp only [tryFromArray, hK.fromBytes_asBytes]
  refine Stored.load_store ?_ (fun humanReadable => ?_) form
  · simp only [tryFromStr, toString, array32FromStr_encode hX, harray]
  · simp only [deserialize, serialize, deserialize32_serialize32 hX, harray]

theorem SignedAuthHeader.load_store (signed : Bytes) (form : Form) :
    load X (store X form signed) = some signed := by
  refine Stored.load_store ?_ (fun humanReadable => ?_) form
  · simp only [tryFromStr, exposeToHumanString, hX.decode_encode]
  · cases humanReadable with
    | true => simp [deserialize, serialize, SerdeValue.toText, hX.decode_encode]
    | false => simp [deserialize, serialize, SerdeValue.toVec]

theorem StoredCredentials.load_store (hK : K.Lawful S) (c : Credentials E) (forms : Forms) :
    (c.store X K forms).load X K = some c := by
  simp only [load, Credentials.store, TransportPrivateKey.load_store hX,
    SignedAuthHeader.load_store hX, SignatureVerificationKey.load_store hX hK]

/-- A node loads what was made for it. -/
theorem provision_eq (hK : K.Lawful S) (Y : Yatlv) (cluster : SignatureKeypair E)
    (keypair : TransportKeypair) (id : NodeId) (role : Option Bytes) (forms : Forms) :
    provision X K Y cluster keypair id role forms =
      some ⟨keypair.private_,
        (AuthHeader.new id role keypair.public_).signWith K Y cluster.private_,
        cluster.public_⟩ := by
  simp only [provision, signHeader, SignatureSigningKey.load_store hX,
    TransportPublicKey.load_store hX, StoredCredentials.load_store hX hK]

end

/-! ## New keys -/

theorem TransportKeypair.generate_ok {publicBytes privateBytes : Bytes} {k : TransportKeypair}
    (h : generate (.ok (publicBytes, privateBytes)) = .ok k) :
    k.public_.bytes = publicBytes ∧ k.private_.secret.bytes = privateBytes := by
  simp only [generate] at h
  cases hpub : Array32.ofSlice publicBytes with
  | none => simp only [hpub, reduceCtorEq] at h
  | some pub =>
    cases hpriv : Array32.ofSlice privateBytes with
    | none => simp only [hpub, hpriv, reduceCtorEq] at h
    | some priv =>
      simp only [hpub, hpriv, Except.ok.injEq] at h
      subst h
      exact ⟨Array32.bytes_of_ofSlice hpub, Array32.bytes_of_ofSlice hpriv⟩

theorem SignatureKeypair.generate_ok {E : Ed25519} {K : E.Keys} {S : E.Spec} (hK : K.Lawful S)
    (secretBytes : Array32) : generate K secretBytes =
      .ok ⟨⟨S.verifyingKey (K.signingFromBytes secretBytes)⟩, ⟨secretBytes⟩⟩ := by
  simp only [generate, SignatureVerificationKey.tryFromArray, hK.fromBytes_asBytes, hK.verifyingKey]

/-! ## Two nodes that take each other -/

section
variable {η σ : Type} {H : HandshakeOps η σ} {T : TransportOps σ} {S : TransportSpec T}
  {E : Ed25519}

/-- No handshake fails if both headers are good. -/
theorem Pair.Phase.not_dropped {X : XXSpec H S} {Y : Yatlv} {i r : Node E} {p : Pair η σ E}
    {n : Nat} {x : Side} (h : Phase X Y i r n x p) {d d' : AuthDetails} (yes : ConnectOk X Y i r d)
    (yes' : AcceptOk X Y i r d') (y : Side) : p.dropped y = false := by
  cases h with
  | first hL hR | second hL hR | third hL hR | met _ hL hR =>
    cases y with
    | left => simp only [dropped, hL, Stage.result]
    | right => simp only [dropped, hR, Stage.result]
  | refused hL hR no | failed hL hR no | nobody _ hL hR no => exact absurd yes (no d)
  | rejected _ hL hR _ no => exact absurd yes' (no d')

namespace Life

variable {X : XXSpec H S} {Y : Yatlv} {i r : Node E} {ops : Side → List TxOp}
  {items : Side → List Item} {l : Life η σ E} {d d' : AuthDetails}

theorem Reached.not_dropped (h : Reached X Y i r ops items l) (yes : ConnectOk X Y i r d)
    (yes' : AcceptOk X Y i r d') (x : Side) : (l.at_ x).dropped = false := by
  cases h with
  | shaking p hl on un =>
    subst hl
    obtain ⟨-, n, y, hp⟩ := on
    rw [ofPair_at ops un x]
    exact hp.not_dropped yes yes' x
  | ahead h =>
    obtain ⟨_, w, e, s, hr, c, t₀, sent, hL, hR, hstage, -⟩ := h
    cases x with
    | left => rw [hL]; rfl
    | right => rw [hR]; simp only [Peer.dropped, hstage, Stage.result]
  | met h =>
    obtain ⟨d₁, d₂, ⟨e₁, h₁⟩, ⟨e₂, h₂⟩, -⟩ := h.connected
    cases x with
    | left => rw [h₁]; rfl
    | right => rw [h₂]; rfl
  | rejected h =>
    obtain ⟨_, e, s, hr, err, -, -, -, -, no, -⟩ := h
    exact absurd yes' (no d')

/-- Nobody sees anything but messages. -/
theorem Reached.first (h : Reached X Y i r ops items l) (yes' : AcceptOk X Y i r d') (x : Side) :
    ∃ done, done <+: items x ∧ (l.seen x.other).outcomes = done.map Item.outcome := by
  have hnil : (l.seen x.other).outcomes = [] →
      ∃ done, done <+: items x ∧ (l.seen x.other).outcomes = done.map Item.outcome :=
    fun hseen => ⟨[], List.nil_prefix, hseen⟩
  cases h with
  | shaking p hl on un =>
    subst hl
    exact hnil (seen_shaking (ofPair_at ops un x.other))
  | ahead h =>
    obtain ⟨_, w, e, s, hr, c, t₀, sent, hL, hR, -, -, -, hah, -⟩ := h
    apply hnil
    cases x with
    | left => exact seen_shaking hR
    | right =>
      obtain ⟨rx, hrx, -⟩ := hah.untouched
      have hev : e.receiver.events = [] := by
        rw [hrx]
        rfl
      simp only [Side.other, seen, hL, Peer.seen, Endpoint.behind, hev]
      rfl
  | met h => exact h.outcomes x
  | rejected h =>
    obtain ⟨_, e, s, hr, err, -, -, -, -, no, -⟩ := h
    exact absurd yes' (no d')

end Life

/-! ## Members of a cluster -/

/-- A node that made its own keypair, with an id that can be verified and a header that fits into a
message of the handshake. -/
structure Member (X : XXSpec H S) (Y : Yatlv) where
  id : NodeId
  length_id : id.bytes.length ≤ maxNodeIdLen
  role : Option Bytes
  privateBytes : Bytes
  keypair : TransportKeypair
  generated :
    TransportKeypair.generate (.ok ((X.pub privateBytes).bytes, privateBytes)) = .ok keypair
  fits : 32 + 48 + (((AuthHeader.new id role keypair.public_).toYatlv Y).length + signatureLen) +
    16 ≤ maxNoiseMessage

/-- What the two members can rely on at any time. -/
structure Talks {X : XXSpec H S} {Y : Yatlv} (m : Side → Member X Y) (calls : Side → List Call)
    (l : Life η σ E) : Prop where
  /-- no handshake fails -/
  sound : ∀ x, (l.at_ x).dropped = false
  /-- each is connected to the other and to nobody else -/
  known : ∀ x d, l.Connected x d → d = ⟨(m x.other).id, (m x.other).role⟩
  /-- each sees the first messages of the other, in order, and no error -/
  first : ∀ x, ∃ done, done <+: accepted (calls x) ∧
    (l.seen x.other).outcomes = done.map fun c => .got c.1 c.2
  /-- and can still get all of them -/
  completes : ∃ more,
    (∀ x, (Lts.run (Life.step H T Y fun x => sendAll (calls x)) l more).Connected x
      ⟨(m x.other).id, (m x.other).role⟩) ∧
    ∀ x, ((Lts.run (Life.step H T Y fun x => sendAll (calls x)) l more).seen x.other).outcomes =
      (accepted (calls x)).map fun c => .got c.1 c.2

namespace Member

variable {X : XXSpec H S} {Y : Yatlv} {K : E.Keys} {Se : E.Spec}

/-- The header that is signed for the member. -/
def header (m : Member X Y) : AuthHeader := .new m.id m.role m.keypair.public_

/-- The node with the credentials of the member in a cluster with this secret. -/
def node (m : Member X Y) (K : E.Keys) (Se : E.Spec) (secret : Array32) (seed : Bytes) : Node E :=
  Credentials.node ⟨m.keypair.private_, m.header.signWith K Y ⟨secret⟩,
    ⟨Se.verifyingKey (K.signingFromBytes secret)⟩⟩ seed

theorem public_eq (m : Member X Y) :
    m.keypair.public_ = X.pub m.keypair.private_.secret.bytes := by
  obtain ⟨hpub, hpriv⟩ := TransportKeypair.generate_ok m.generated
  rw [hpriv]
  exact (TransportPublicKey.mk.injEq ..).mpr hpub

theorem length_signWith (m : Member X Y) (Se : E.Spec) (key : SignatureSigningKey) :
    (m.header.signWith K Y key).length = (m.header.toYatlv Y).length + signatureLen := by
  simp only [AuthHeader.signWith, AuthHeader.sign, SignatureSigningKey.sign, List.length_append,
    Se.length_sign]

theorem verifies (m : Member X Y) (Se : E.Spec) (L : Y.Lawful) (secret : Array32) :
    SignedAuthHeader.verifyRaw E Y (Se.verifyingKey (K.signingFromBytes secret))
      (m.header.signWith K Y ⟨secret⟩) = .ok m.header := by
  have h := verify_sign Se L m.header (K.signingFromBytes secret)
  rwa [if_pos (show m.header.nodeId.bytes.length ≤ maxNodeIdLen from m.length_id)] at h

theorem acceptOk (i r : Member X Y) (K : E.Keys) (Se : E.Spec) (L : Y.Lawful) (secret : Array32)
    (seed seed' : Bytes) :
    AcceptOk X Y (i.node K Se secret seed) (r.node K Se secret seed') ⟨i.id, i.role⟩ :=
  ⟨i.header, i.verifies Se L secret, i.public_eq, rfl⟩

theorem connectOk (i r : Member X Y) (K : E.Keys) (Se : E.Spec) (L : Y.Lawful) (secret : Array32)
    (seed seed' : Bytes) :
    ConnectOk X Y (i.node K Se secret seed) (r.node K Se secret seed') ⟨r.id, r.role⟩ := by
  have hi : (i.header.signWith K Y ⟨secret⟩).length = _ := i.length_signWith Se _
  have hr : (r.header.signWith K Y ⟨secret⟩).length = _ := r.length_signWith Se _
  have hfi : 32 + 48 + ((i.header.toYatlv Y).length + signatureLen) + 16 ≤ maxNoiseMessage := i.fits
  refine ⟨?_, ⟨r.header, r.verifies Se L secret, r.public_eq, rfl⟩, ?_⟩
  · show 32 + 48 + (r.header.signWith K Y ⟨secret⟩).length + 16 ≤ maxNoiseMessage
    rw [hr]
    exact r.fits
  · show 48 + (i.header.signWith K Y ⟨secret⟩).length + 16 ≤ maxNoiseMessage
    omega

end Member

theorem Life.Reached.talks (hS : S.Correct) {X : XXSpec H S} {Y : Yatlv} {m : Side → Member X Y}
    {i r : Node E} {calls : Side → List Call} {l : Life η σ E}
    (h : Life.Reached X Y i r (fun x => sendAll (calls x))
      (fun x => messages (accepted (calls x))) l)
    (yes : ConnectOk X Y i r ⟨(m .right).id, (m .right).role⟩)
    (yes' : AcceptOk X Y i r ⟨(m .left).id, (m .left).role⟩) : Talks m calls l where
  sound := h.not_dropped yes yes'
  known
    | .left, _, hd => (h.initiator hd).det yes
    | .right, _, hd => ((h.proper hS).responder _ hd).1.det yes'
  first x := by
    obtain ⟨done, hdone, hseen⟩ := h.first yes' x
    obtain ⟨cs, hcs, rfl⟩ := exists_messages hdone
    exact ⟨cs, hcs, by rw [hseen, outcome_messages]⟩
  completes := by
    obtain ⟨more, hleft, hright, hall⟩ := (h.proper hS).completes _ _ yes yes'
    refine ⟨more, fun x => ?_, hall⟩
    cases x with
    | left => exact hleft
    | right => exact hright

/-- **Provisioning.** Two nodes that made their keypairs and got their headers signed by the same
cluster, each item kept in any form, connect over any stream, know each other by the ids and roles
that were signed, and receive what the other sends. -/
theorem provisioned_nodes_talk {C : HexCodec} (hC : C.Lawful) {K : E.Keys} {Se : E.Spec}
    (hK : K.Lawful Se) {Y : Yatlv} (L : Y.Lawful) (hS : S.Correct) {X : XXSpec H S}
    (secret : Array32) (m : Side → Member X Y) (forms : Side → Forms) (seeds : Side → Bytes)
    (calls : Side → List Call) :
    ∃ cluster, SignatureKeypair.generate K secret = .ok cluster ∧
    ∃ c : Side → Credentials E,
      (∀ x, provision C K Y cluster (m x).keypair (m x).id (m x).role (forms x) = some (c x)) ∧
    ∃ l₀, Life.start H (fun x => sendAll (calls x)) ((c .left).node (seeds .left))
        ((c .right).node (seeds .right)) = .ok l₀ ∧
    ∀ acts, Talks m calls (Lts.run (Life.step H T Y fun x => sendAll (calls x)) l₀ acts) := by
  refine ⟨_, SignatureKeypair.generate_ok hK secret, _, fun x => provision_eq hC hK .., ?_⟩
  obtain ⟨l₀, hstart, hreach⟩ := Life.start_reached hS X Y
    ((m .left).node K Se secret (seeds .left)) ((m .right).node K Se secret (seeds .right)) calls
  exact ⟨l₀, hstart, fun acts => (hreach acts).talks hS (Member.connectOk _ _ K Se L secret _ _)
    (Member.acceptOk _ _ K Se L secret _ _)⟩

end

/-! ## A cluster of two -/

namespace Provision

/-- Hex as in `Lib.Hex`. -/
def hex : HexCodec := ⟨Hex.encode, Hex.decode⟩

theorem hex_lawful : hex.Lawful := ⟨Hex.decode_encode⟩

/-- The signatures of `Credential.ed25519`, with keys of 32 bytes. -/
def ed25519 : Ed25519 where
  VerifyingKey := Array32
  SigningKey := Array32
  Signature := Bytes
  fromSlice data := if data.length = signatureLen then some data else none
  verifyStrict key payload signature := signature == resize (key.bytes ++ payload) signatureLen
  sign key payload := resize (key.bytes ++ payload) signatureLen

/-- What is signed is accepted. -/
def spec : ed25519.Spec where
  verifyingKey key := key
  length_sign _ _ := length_resize _ _
  accepts key payload :=
    ⟨ed25519.sign key payload, if_pos (length_resize _ _), beq_self_eq_true _⟩

/-- A key is its bytes. -/
def keys : ed25519.Keys where
  verifyingKey key := key
  signingFromBytes bytes := bytes
  verifyingFromBytes := some
  asBytes key := key

theorem keys_lawful : keys.Lawful spec := ⟨rfl, fun _ => rfl⟩

/-- The secret of the cluster. -/
def secret : Array32 := ⟨List.replicate 32 5, rfl⟩

/-- Keys of their own, one node with a role. -/
def member : Side → Member Plain.spec Credential.yatlv
  | .left =>
    ⟨.fromU32 7, by decide, none, Plain.initiatorKey,
      ⟨Plain.pub Plain.initiatorKey, ⟨⟨Plain.initiatorKey, Plain.initiator.length_private⟩⟩⟩, rfl,
      by decide⟩
  | .right =>
    ⟨.fromU32 8, by decide, some [1], Plain.responderKey,
      ⟨Plain.pub Plain.responderKey, ⟨⟨Plain.responderKey, Plain.responder.length_private⟩⟩⟩, rfl,
      by decide⟩

/-- Every item in another form. -/
def forms : Side → Forms
  | .left => ⟨.text, .serde true, .serde false, .text, .serde true⟩
  | .right => ⟨.serde false, .text, .serde true, .serde false, .text⟩

end Provision

theorem provisioned_nodes_talk_two :
    Provision.hex.Lawful ∧ Provision.keys.Lawful Provision.spec ∧ Credential.yatlv.Lawful ∧
    Tagged.spec.Correct ∧
    ∃ cluster, SignatureKeypair.generate Provision.keys Provision.secret = .ok cluster ∧
    ∃ c : Side → Credentials Provision.ed25519,
      (∀ x, provision Provision.hex Provision.keys Credential.yatlv cluster
        (Provision.member x).keypair (Provision.member x).id (Provision.member x).role
        (Provision.forms x) = some (c x)) ∧
    ∃ l₀, Life.start Plain.ops (fun x => sendAll (Tagged.someCalls x)) ((c .left).node [])
        ((c .right).node []) = .ok l₀ ∧
    ∀ acts, Talks Provision.member Tagged.someCalls
      (Lts.run (Life.step Plain.ops Tagged.transport Credential.yatlv
        fun x => sendAll (Tagged.someCalls x)) l₀ acts) :=
  ⟨Provision.hex_lawful, Provision.keys_lawful, Credential.yatlv_lawful, Tagged.decrypt_encrypt,
    provisioned_nodes_talk Provision.hex_lawful Provision.keys_lawful Credential.yatlv_lawful
      (S := Tagged.spec) Tagged.decrypt_encrypt Provision.secret Provision.member Provision.forms
      (fun _ => []) Tagged.someCalls⟩

end Snowpack
