import Snowpack.Handshake.Pair
import Snowpack.Transport.Tagged

/-!
# A concrete handshake

A handshake that meets `XXSpec` and can be run: the three messages have the layout of the XX
pattern, with the static keys in the clear and zeros for ephemeral keys and tags, and the key of a
node is its own public key. It protects nothing; it has the lengths, the refusals and the reports
of the real one. It ends in the states of `Tagged`.

With it come a signature scheme with two signed payloads, a header format that is a bare key, and
three nodes, one of them with a header that nobody signed.
-/

namespace Snowpack

open Wire

/-- A handshake in the clear: whose it is, its key, the key it has read. -/
structure PlainState where
  isInitiator : Bool
  localPrivate : Bytes
  remote : Option Bytes
  /-- messages written or read so far -/
  count : Nat
  deriving DecidableEq, Repr

namespace Plain

/-- The public key is the private one. -/
def pub (localPrivate : Bytes) : TransportPublicKey :=
  ⟨resize localPrivate 32, length_resize localPrivate 32⟩

/-- The bytes of a message before the static key: an ephemeral key in the first two. -/
def lead : Nat → Nat
  | 0 => 32
  | 1 => 32
  | _ => 0

/-- A message with its static key and tags; the first one has neither. -/
def layout (count : Nat) (localPrivate p : Bytes) : Bytes :=
  if count = 0 then List.replicate 32 0 ++ p
  else List.replicate (lead count) 0 ++ ((pub localPrivate).bytes ++ List.replicate 16 0) ++
    (p ++ List.replicate 16 0)

/-- The bytes of a message around its payload. -/
def overhead (count : Nat) : Nat := if count = 0 then 32 else lead count + 48 + 16

/-- The payload of a message. -/
def payloadOf (count : Nat) (c : Bytes) : Bytes :=
  if count = 0 then c.drop 32
  else (c.drop (lead count + 48)).take (c.length - overhead count)

/-- The static key a reader knows after a message. -/
def remoteOf (s : PlainState) (c : Bytes) : Option Bytes :=
  if s.count = 0 then s.remote else some ((c.drop (lead s.count)).take 32)

/-- Messages with the lengths of the XX pattern; the transport keys are fixed. -/
def ops : HandshakeOps PlainState TaggedState where
  buildInitiator localPrivate _ := .ok ⟨true, localPrivate, none, 0⟩
  buildResponder localPrivate _ := .ok ⟨false, localPrivate, none, 0⟩
  writeMessage s p out :=
    let c := layout s.count s.localPrivate p
    if c.length ≤ maxNoiseMessage ∧ c.length ≤ out.length then
      ({ s with count := s.count + 1 }, blit out 0 c, .ok c.length)
    else (s, out, .error .input)
  readMessage s c out :=
    let p := payloadOf s.count c
    if overhead s.count ≤ c.length ∧ c.length ≤ maxNoiseMessage ∧ p.length ≤ out.length then
      ({ s with count := s.count + 1, remote := remoteOf s c }, blit out 0 p, .ok p.length)
    else (s, out, .error .input)
  getRemoteStatic := PlainState.remote
  intoTransportMode s := .ok (if s.isInitiator then ⟨1, 2, 0, 0⟩ else ⟨2, 1, 0, 0⟩)

theorem length_layout (count : Nat) (key p : Bytes) :
    (layout count key p).length = overhead count + p.length := by
  unfold layout overhead
  split
  · simp only [List.length_append, List.length_replicate]
  · simp only [List.length_append, List.length_replicate, (pub key).length_eq]
    omega

theorem payloadOf_layout (count : Nat) (key p : Bytes) :
    payloadOf count (layout count key p) = p := by
  have hlen := length_layout count key p
  unfold payloadOf
  rw [hlen, Nat.add_sub_cancel_left]
  unfold layout
  split
  · rw [List.drop_append_of_le_length (by simp)]
    simp
  · have hfront : (List.replicate (lead count) (0 : UInt8) ++
        ((pub key).bytes ++ List.replicate 16 0)).length = lead count + 48 := by
      simp only [List.length_append, List.length_replicate, (pub key).length_eq]
    rw [← hfront, List.drop_left, List.take_left]

theorem remoteOf_layout (s : PlainState) (key p : Bytes) :
    remoteOf s (layout s.count key p) = if s.count = 0 then s.remote else some (pub key).bytes := by
  unfold remoteOf
  split
  · rfl
  · rename_i hc
    unfold layout
    rw [if_neg hc, List.append_assoc, List.append_assoc]
    rw [List.drop_append_of_le_length (by simp), List.drop_of_length_le (by simp), List.nil_append]
    rw [← (pub key).length_eq, List.take_left]

/-- A message between two states that have exchanged the same number of messages. -/
theorem carries {n : Nat} {w r : PlainState} (hn : overhead w.count = n)
    (h : r.count = w.count) : Carries ops n w r fun w' r' =>
      w' = { w with count := w.count + 1 } ∧ r' = { r with
        count := r.count + 1
        remote := if r.count = 0 then r.remote else some (pub w.localPrivate).bytes } where
  carry p out hfit hroom := by
    have hlen := length_layout w.count w.localPrivate p
    refine ⟨{ w with count := w.count + 1 }, layout w.count w.localPrivate p, by omega, ?_, ?_⟩
    · exact if_pos ⟨by omega, by omega⟩
    · intro out' hout
      have hpay := payloadOf_layout w.count w.localPrivate p
      have hrem := remoteOf_layout r w.localPrivate p
      rw [h] at hrem
      refine ⟨{ r with
        count := r.count + 1
        remote := if r.count = 0 then r.remote else some (pub w.localPrivate).bytes }, ?_, rfl, rfl⟩
      simp only [ops, h, hpay, hrem]
      rw [if_pos ⟨by omega, by omega, hout⟩]
  refuse p out hlong := by
    have hlen := length_layout w.count w.localPrivate p
    exact ⟨w, out, .input, if_neg (by omega)⟩

theorem carries_mono {η σ : Type} {H : HandshakeOps η σ} {n : Nat} {w r : η}
    {Q Q' : η → η → Prop} (h : Carries H n w r Q) (hq : ∀ w r, Q w r → Q' w r) :
    Carries H n w r Q' where
  carry p out hfit hroom := by
    obtain ⟨w', c, hlen, hwrite, hread⟩ := h.carry p out hfit hroom
    refine ⟨w', c, hlen, hwrite, fun out' hout => ?_⟩
    obtain ⟨r', hr, hQ⟩ := hread out' hout
    exact ⟨r', hr, hq w' r' hQ⟩
  refuse := h.refuse

/-- It is an XX exchange. -/
def spec : XXSpec ops Tagged.spec where
  pub := pub
  exchange a b sa sb _ _ := by
    refine ⟨_, _, rfl, rfl, carries_mono (carries rfl rfl) ?_⟩
    rintro _ _ ⟨rfl, rfl⟩
    refine carries_mono (carries rfl rfl) ?_
    rintro _ _ ⟨rfl, rfl⟩
    refine ⟨rfl, carries_mono (carries rfl rfl) ?_⟩
    rintro _ _ ⟨rfl, rfl⟩
    exact ⟨rfl, _, _, rfl, rfl, rfl, rfl, ⟨rfl, rfl⟩, rfl, rfl⟩

/-! ## Signatures and headers -/

/-- The key of the node that connects. The payload of a header is the key itself, and that of a
stranger is not signed. -/
def initiatorKey : Bytes := List.replicate 32 1
/-- The key of the node that accepts. -/
def responderKey : Bytes := List.replicate 32 2
/-- The key of a node that does not belong to the cluster. -/
def strangerKey : Bytes := List.replicate 32 3

/-- The payloads that have a signature. -/
def Signed (payload : Bytes) : Prop := payload = initiatorKey ∨ payload = responderKey

instance (payload : Bytes) : Decidable (Signed payload) := inferInstanceAs (Decidable (_ ∨ _))

/-- Whether a payload is signed is up to the payload alone. -/
def ed25519 : Ed25519 where
  VerifyingKey := Unit
  SigningKey := Unit
  Signature := Unit
  fromSlice _ := some ()
  verifyStrict _ payload _ := decide (Signed payload)
  sign _ _ := List.replicate signatureLen 0

/-- A header is its public key, and the node id is the first byte of it. -/
def yatlv : Yatlv where
  Frame := Bytes
  build fields := (fields.lookup tagPublicKey).getD []
  parse := some
  getData frame tag := if tag = tagNodeId then some (frame.take 1) else some frame
  getOptionalData _ _ := none

/-- A node with this key, and a header for it. -/
def node (key : Bytes) (h : key.length = 32) : Node ed25519 where
  localPrivate := key
  length_private := h
  seed := []
  localAuthHeader := SignatureSigningKey.sign ed25519 () key
  verificationKey := ()

/-- The node that connects. -/
def initiator : Node ed25519 := node initiatorKey rfl
/-- The node that accepts. -/
def responder : Node ed25519 := node responderKey rfl
/-- A node whose header is not signed. -/
def stranger : Node ed25519 := node strangerKey rfl

end Plain

end Snowpack
