import Snowpack.Auth.Header

/-!
# Keys and credentials in storage (`src/noise.rs`, `src/sign.rs` and `src/auth.rs`)

Keys are generated once and then loaded from configuration files. Each has a text form, which is
read by `TryFrom<&str>`, and a serde form, which is the same text in formats for humans and raw
bytes in others. The four keys of 32 bytes do this alike (`array32FromStr`, `serialize32`,
`deserialize32`), but a verification key must also be a point of the curve. A signed header may be
of any length.

The `hex` crate and the byte forms of Ed25519 keys are parameters. Of a serde format only the value
it is given and gives back is modelled, and whether it is for humans.
-/

namespace Snowpack

open Wire

/-- The `hex` crate; an error is the text of it. -/
structure HexCodec where
  encode : Bytes → String
  decode : String → Except String Bytes

/-- The keys of `ed25519_dalek` as bytes. -/
structure Ed25519.Keys (E : Ed25519) where
  verifyingKey : E.SigningKey → E.VerifyingKey
  signingFromBytes : Array32 → E.SigningKey
  verifyingFromBytes : Array32 → Option E.VerifyingKey
  asBytes : E.VerifyingKey → Array32

/-- The bytes or the text are not those of a key. -/
structure MalformedKeyError where
  deriving DecidableEq, Repr

/-- `#[error("malformed key")]`. -/
def MalformedKeyError.toString (_ : MalformedKeyError) : String := "malformed key"

/-- Why no key could be made, as a text. -/
structure KeyGenError where
  text : String
  deriving DecidableEq, Repr

/-! ## serde -/

/-- What a format stores for the types used here: a string, a fixed-size array, a vector. -/
inductive SerdeValue
  | str (s : String)
  | array (bytes : Bytes)
  | seq (bytes : Bytes)
  deriving DecidableEq, Repr

/-- Why a value could not be read: an error of the type itself, or of the format. -/
inductive SerdeError
  | custom (text : String)
  | invalidType
  | invalidLength (len : Nat)
  deriving DecidableEq, Repr

namespace SerdeValue

/-- `String::deserialize`. -/
def toText : SerdeValue → Except SerdeError String
  | .str s => .ok s
  | _ => .error .invalidType

/-- `<[u8; 32]>::deserialize`. -/
def toArray32 : SerdeValue → Except SerdeError Array32
  | .array bytes =>
    match Array32.ofSlice bytes with
    | some arr => .ok arr
    | none => .error (.invalidLength bytes.length)
  | _ => .error .invalidType

/-- `Vec::<u8>::deserialize`. -/
def toVec : SerdeValue → Except SerdeError Bytes
  | .seq bytes => .ok bytes
  | _ => .error .invalidType

end SerdeValue

/-! ## Keys of 32 bytes -/

section
variable (X : HexCodec)

/-- The 32 bytes in a hex text. -/
def array32FromStr (value : String) : Except MalformedKeyError Array32 :=
  match X.decode value with
  | .error _ => .error ⟨⟩
  | .ok bytes =>
    match Array32.ofSlice bytes with
    | none => .error ⟨⟩
    | some arr => .ok arr

/-- Hex in a format for people, else the bytes. -/
def serialize32 (humanReadable : Bool) (arr : Array32) : SerdeValue :=
  if humanReadable then .str (X.encode arr.bytes) else .array arr.bytes

/-- The way back from `serialize32`; `name` is the type that an error speaks of. -/
def deserialize32 (name : String) (humanReadable : Bool) (d : SerdeValue) :
    Except SerdeError Array32 :=
  if humanReadable then
    match d.toText with
    | .error e => .error e
    | .ok s =>
      match X.decode s with
      | .error e => .error (.custom e)
      | .ok bytes =>
        match Array32.ofSlice bytes with
        | none => .error (.custom (name ++ " must be 32 bytes"))
        | some arr => .ok arr
  else d.toArray32

namespace TransportPublicKey

/-- `Display`. -/
def toString (k : TransportPublicKey) : String := X.encode k.bytes

/-- A key from its hex text. -/
def tryFromStr (value : String) : Except MalformedKeyError TransportPublicKey :=
  (array32FromStr X value).map ofArray

/-- `Serialize`. -/
def serialize (humanReadable : Bool) (k : TransportPublicKey) : SerdeValue :=
  serialize32 X humanReadable k.toArray

/-- `Deserialize`. -/
def deserialize (humanReadable : Bool) (d : SerdeValue) : Except SerdeError TransportPublicKey :=
  (deserialize32 X "TransportPublicKey" humanReadable d).map ofArray

end TransportPublicKey

/-- A static private key of Noise. -/
structure TransportPrivateKey where
  secret : Array32
  deriving DecidableEq, Repr

namespace TransportPrivateKey

/-- The hex text of the secret. -/
def exposeToHumanString (k : TransportPrivateKey) : String := X.encode k.secret.bytes

/-- A key from its hex text. -/
def tryFromStr (value : String) : Except MalformedKeyError TransportPrivateKey :=
  (array32FromStr X value).map .mk

/-- `Serialize`. -/
def serialize (humanReadable : Bool) (k : TransportPrivateKey) : SerdeValue :=
  serialize32 X humanReadable k.secret

/-- `Deserialize`. -/
def deserialize (humanReadable : Bool) (d : SerdeValue) : Except SerdeError TransportPrivateKey :=
  (deserialize32 X "TransportPrivateKey" humanReadable d).map .mk

end TransportPrivateKey

/-- The key of a cluster that signs headers. -/
structure SignatureSigningKey where
  secret : Array32
  deriving DecidableEq, Repr

namespace SignatureSigningKey

/-- The hex text of the secret. -/
def exposeToHumanString (k : SignatureSigningKey) : String := X.encode k.secret.bytes

/-- A key from its hex text. -/
def tryFromStr (value : String) : Except MalformedKeyError SignatureSigningKey :=
  (array32FromStr X value).map .mk

/-- `Serialize`. -/
def serialize (humanReadable : Bool) (k : SignatureSigningKey) : SerdeValue :=
  serialize32 X humanReadable k.secret

/-- `Deserialize`. -/
def deserialize (humanReadable : Bool) (d : SerdeValue) : Except SerdeError SignatureSigningKey :=
  (deserialize32 X "SignatureSigningKey" humanReadable d).map .mk

end SignatureSigningKey

/-- The key of a cluster that checks headers. -/
structure SignatureVerificationKey (E : Ed25519) where
  key : E.VerifyingKey

namespace SignatureVerificationKey

variable {E : Ed25519} (K : E.Keys)

/-- `Display`. -/
def toString (k : SignatureVerificationKey E) : String := X.encode (K.asBytes k.key).bytes

/-- `TryFrom<[u8; 32]>`. -/
def tryFromArray (arr : Array32) : Except MalformedKeyError (SignatureVerificationKey E) :=
  match K.verifyingFromBytes arr with
  | none => .error ⟨⟩
  | some key => .ok ⟨key⟩

/-- A key from its hex text, if there is a key with these bytes. -/
def tryFromStr (value : String) : Except MalformedKeyError (SignatureVerificationKey E) :=
  match array32FromStr X value with
  | .error e => .error e
  | .ok arr => tryFromArray K arr

/-- `Serialize`. -/
def serialize (humanReadable : Bool) (k : SignatureVerificationKey E) : SerdeValue :=
  serialize32 X humanReadable (K.asBytes k.key)

/-- `Deserialize`; bytes that are no key are an error of the type. -/
def deserialize (humanReadable : Bool) (d : SerdeValue) :
    Except SerdeError (SignatureVerificationKey E) :=
  match deserialize32 X "SignatureVerificationKey" humanReadable d with
  | .error e => .error e
  | .ok arr =>
    match tryFromArray K arr with
    | .error _ => .error (.custom "malformed key")
    | .ok k => .ok k

end SignatureVerificationKey

/-! ## Signed headers -/

namespace SignedAuthHeader

/-- The hex text of a signed header. -/
def exposeToHumanString (signed : Bytes) : String := X.encode signed

/-- A signed header from its hex text; what it holds is not looked at. -/
def tryFromStr (value : String) : Except MalformedAuthHeader Bytes :=
  match X.decode value with
  | .error _ => .error ⟨⟩
  | .ok bytes => .ok bytes

/-- `Serialize`: hex in a format for people, else a vector of bytes. -/
def serialize (humanReadable : Bool) (signed : Bytes) : SerdeValue :=
  if humanReadable then .str (X.encode signed) else .seq signed

/-- `Deserialize`. -/
def deserialize (humanReadable : Bool) (d : SerdeValue) : Except SerdeError Bytes :=
  if humanReadable then
    match d.toText with
    | .error e => .error e
    | .ok s =>
      match X.decode s with
      | .error e => .error (.custom e)
      | .ok bytes => .ok bytes
  else d.toVec

end SignedAuthHeader

end

/-! ## New keys -/

/-- The static keys of a node. -/
structure TransportKeypair where
  public_ : TransportPublicKey
  private_ : TransportPrivateKey
  deriving DecidableEq, Repr

/-- `generate`, on what `generate_keypair` of snow returns: the public and the private key, or the
text of an error. -/
def TransportKeypair.generate (snow : Except String (Bytes × Bytes)) :
    Except KeyGenError TransportKeypair :=
  match snow with
  | .error e => .error ⟨"failed to generate X25519 keypair: " ++ e⟩
  | .ok (publicBytes, privateBytes) =>
    match Array32.ofSlice publicBytes with
    | none => .error ⟨"unexpected public key length"⟩
    | some publicBytes =>
      match Array32.ofSlice privateBytes with
      | none => .error ⟨"unexpected private key length"⟩
      | some privateBytes => .ok ⟨.ofArray publicBytes, ⟨privateBytes⟩⟩

/-- The keys of a cluster. -/
structure SignatureKeypair (E : Ed25519) where
  public_ : SignatureVerificationKey E
  private_ : SignatureSigningKey

/-- `generate`, from the bytes of a random signing key. -/
def SignatureKeypair.generate {E : Ed25519} (K : E.Keys) (secretBytes : Array32) :
    Except KeyGenError (SignatureKeypair E) :=
  let signingKey := K.signingFromBytes secretBytes
  let publicBytes := K.asBytes (K.verifyingKey signingKey)
  match SignatureVerificationKey.tryFromArray K publicBytes with
  | .error e => .error ⟨e.toString⟩
  | .ok public_ => .ok ⟨public_, ⟨secretBytes⟩⟩

/-- `AuthHeader::sign`, with the key made from its bytes. -/
def AuthHeader.signWith {E : Ed25519} (K : E.Keys) (Y : Yatlv) (h : AuthHeader)
    (signingKey : SignatureSigningKey) : Bytes :=
  h.sign E Y (K.signingFromBytes signingKey.secret)

/-! ## Configurations -/

/-- How an item is kept: as its text, or by a format. -/
inductive Form
  | text
  | serde (humanReadable : Bool)
  deriving DecidableEq, Repr

/-- An item as it is kept. -/
inductive Stored
  | text (s : String)
  | value (humanReadable : Bool) (v : SerdeValue)
  deriving DecidableEq, Repr

section
variable {α ε : Type}

/-- How an item of a type with these two writers is kept. -/
def Form.store (form : Form) (text : α → String) (serialize : Bool → α → SerdeValue) (a : α) :
    Stored :=
  match form with
  | .text => .text (text a)
  | .serde humanReadable => .value humanReadable (serialize humanReadable a)

/-- What is read back with these two readers. -/
def Stored.load (fromStr : String → Except ε α)
    (deserialize : Bool → SerdeValue → Except SerdeError α) : Stored → Option α
  | .text s => (fromStr s).toOption
  | .value humanReadable v => (deserialize humanReadable v).toOption

end

section
variable (X : HexCodec)

/-- A public key as it is kept. -/
def TransportPublicKey.store (form : Form) : TransportPublicKey → Stored :=
  form.store (toString X) (serialize X)

/-- A public key read back. -/
def TransportPublicKey.load : Stored → Option TransportPublicKey :=
  Stored.load (tryFromStr X) (deserialize X)

/-- A private key as it is kept. -/
def TransportPrivateKey.store (form : Form) : TransportPrivateKey → Stored :=
  form.store (exposeToHumanString X) (serialize X)

/-- A private key read back. -/
def TransportPrivateKey.load : Stored → Option TransportPrivateKey :=
  Stored.load (tryFromStr X) (deserialize X)

/-- A signing key as it is kept. -/
def SignatureSigningKey.store (form : Form) : SignatureSigningKey → Stored :=
  form.store (exposeToHumanString X) (serialize X)

/-- A signing key read back. -/
def SignatureSigningKey.load : Stored → Option SignatureSigningKey :=
  Stored.load (tryFromStr X) (deserialize X)

/-- A verification key as it is kept. -/
def SignatureVerificationKey.store {E : Ed25519} (K : E.Keys) (form : Form) :
    SignatureVerificationKey E → Stored :=
  form.store (toString X K) (serialize X K)

/-- A verification key read back. -/
def SignatureVerificationKey.load {E : Ed25519} (K : E.Keys) :
    Stored → Option (SignatureVerificationKey E) :=
  Stored.load (tryFromStr X K) (deserialize X K)

/-- A signed header as it is kept. -/
def SignedAuthHeader.store (form : Form) : Bytes → Stored :=
  form.store (exposeToHumanString X) (serialize X)

/-- A signed header read back. -/
def SignedAuthHeader.load : Stored → Option Bytes :=
  Stored.load (tryFromStr X) (deserialize X)

end

end Snowpack
