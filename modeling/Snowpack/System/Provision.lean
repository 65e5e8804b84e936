import Snowpack.Auth.Storage
import Snowpack.Handshake.Pair

/-!
# Provisioning a cluster

An operator makes a keypair for the cluster and keeps it. A node makes its own keypair, and the
operator signs a header with its public key, its id and its role. All of this goes through files:
the signing key and the public key are loaded to sign the header, and the node loads its
`Credentials` before it calls `connect` or `accept`. Each item may be kept in a form of its own.
-/

namespace Snowpack

open Wire

variable {E : Ed25519}

/-- `Credentials` of `src/pool.rs`. -/
structure Credentials (E : Ed25519) where
  privateKey : TransportPrivateKey
  authHeader : Bytes
  verificationKey : SignatureVerificationKey E

/-- The forms of the items in the files. -/
structure Forms where
  signingKey : Form
  publicKey : Form
  privateKey : Form
  authHeader : Form
  verificationKey : Form
  deriving DecidableEq, Repr

/-- The credentials of a node in its files. -/
structure StoredCredentials where
  privateKey : Stored
  authHeader : Stored
  verificationKey : Stored
  deriving DecidableEq, Repr

section
variable (X : HexCodec) (K : E.Keys)

/-- Each item is written in its form. -/
def Credentials.store (c : Credentials E) (forms : Forms) : StoredCredentials where
  privateKey := c.privateKey.store X forms.privateKey
  authHeader := SignedAuthHeader.store X forms.authHeader c.authHeader
  verificationKey := c.verificationKey.store X K forms.verificationKey

/-- They are loaded if each item is. -/
def StoredCredentials.load (s : StoredCredentials) : Option (Credentials E) :=
  match TransportPrivateKey.load X s.privateKey, SignedAuthHeader.load X s.authHeader,
    SignatureVerificationKey.load X K s.verificationKey with
  | some privateKey, some authHeader, some verificationKey =>
    some ⟨privateKey, authHeader, verificationKey⟩
  | _, _, _ => none

/-- The operator's part: it loads its signing key and the node's public key, and signs. -/
def signHeader (Y : Yatlv) (cluster : SignatureKeypair E) (forms : Forms)
    (publicKey : TransportPublicKey) (id : NodeId) (role : Option Bytes) : Option Bytes :=
  match SignatureSigningKey.load X (cluster.private_.store X forms.signingKey),
    TransportPublicKey.load X (publicKey.store X forms.publicKey) with
  | some signingKey, some publicKey =>
    some ((AuthHeader.new id role publicKey).signWith K Y signingKey)
  | _, _ => none

/-- All of it: what a node has loaded in the end. -/
def provision (Y : Yatlv) (cluster : SignatureKeypair E) (keypair : TransportKeypair) (id : NodeId)
    (role : Option Bytes) (forms : Forms) : Option (Credentials E) :=
  match signHeader X K Y cluster forms keypair.public_ id role with
  | none => none
  | some authHeader =>
    (Credentials.store X K ⟨keypair.private_, authHeader, cluster.public_⟩ forms).load X K

end

/-- A node that calls `connect` or `accept` with its credentials; `seed` is the randomness of the
call. -/
def Credentials.node (c : Credentials E) (seed : Bytes) : Node E where
  localPrivate := c.privateKey.secret.bytes
  length_private := c.privateKey.secret.length_eq
  seed
  localAuthHeader := c.authHeader
  verificationKey := c.verificationKey.key

end Snowpack
