import Snowpack.Handshake.Context

/-!
# Handshake sessions (`accept` and `connect` in `src/packets.rs`)

Both functions are a script with one wait for each message of the other side. A `Session` is a call
of one of them: it runs up to its first wait when it is made, and a `poll` takes it from one wait to
the next, or to its return. The timeout around the script may fire at any wait.

`World` is any number of sessions and an adversary that owns every stream: it decides what bytes
arrive where, closes and breaks streams, and the order in which anything happens.
-/

namespace Snowpack

open Wire

/-- What `accept` and `connect` return. -/
abbrev Accepted (σ : Type) := HandshakeContext.Split σ × AuthDetails

/-- Where a call is: waiting for a message, or returned, with the context it left behind. -/
inductive Stage (η σ : Type)
  | message1 (hs : HandshakeContext η)
  | message2 (hs : HandshakeContext η)
  | message3 (hs : HandshakeContext η)
  | returned (hs : HandshakeContext η) (r : Res (Accepted σ))

namespace Stage

variable {η σ : Type}

/-- The context of a call, which it keeps after its return. -/
def context : Stage η σ → HandshakeContext η
  | message1 hs => hs
  | message2 hs => hs
  | message3 hs => hs
  | returned hs _ => hs

/-- What a call has returned. -/
def result : Stage η σ → Option (Res (Accepted σ))
  | returned _ r => some r
  | _ => none

/-- A change of the stream under a call that still runs. -/
def mapContext (f : HandshakeContext η → HandshakeContext η) : Stage η σ → Stage η σ
  | message1 hs => message1 (f hs)
  | message2 hs => message2 (f hs)
  | message3 hs => message3 (f hs)
  | returned hs r => returned hs r

end Stage

/-- The checks both functions make on the payload that carries the other side's header: the
signature, then the declared key against the key Noise reports. -/
def checkRemote {η σ : Type} (H : HandshakeOps η σ) (E : Ed25519) (Y : Yatlv)
    (verificationKey : E.VerifyingKey) (hs : HandshakeContext η) (payload : Bytes) :
    Except ConnectionError AuthHeader :=
  match SignedAuthHeader.verifyRaw E Y verificationKey payload with
  | .error e => .error (.badAuth e)
  | .ok header =>
    match hs.remoteStatic H with
    | .error e => .error e
    | .ok key =>
      match header.validatePublicKey key with
      | .error e => .error (.badAuth e)
      | .ok () => .ok header

theorem checkRemote_ok {η σ : Type} {H : HandshakeOps η σ} {E : Ed25519} {Y : Yatlv}
    {vk : E.VerifyingKey} {hs : HandshakeContext η} {payload : Bytes} {header : AuthHeader} :
    checkRemote H E Y vk hs payload = .ok header ↔
      SignedAuthHeader.verifyRaw E Y vk payload = .ok header ∧
        hs.remoteStatic H = .ok header.publicKey := by
  unfold checkRemote
  cases SignedAuthHeader.verifyRaw E Y vk payload with
  | error e => simp
  | ok h =>
    cases hs.remoteStatic H with
    | error e => simp
    | ok key =>
      simp only
      cases hv : h.validatePublicKey key with
      | error e =>
        simp only [reduceCtorEq, Except.ok.injEq, false_iff, not_and]
        rintro rfl rfl
        rw [validatePublicKey_ok.2 rfl] at hv
        cases hv
      | ok u =>
        have hk := validatePublicKey_ok.1 hv
        simp only [Except.ok.injEq]
        constructor
        · rintro rfl
          exact ⟨rfl, hk.symm⟩
        · exact And.left

/-- A call of `accept` or `connect`. `authenticated` is the Noise state right after the message
that carried the other side's header was read; it only records. -/
structure Session (η σ : Type) (E : Ed25519) where
  localAuthHeader : Bytes
  verificationKey : E.VerifyingKey
  stage : Stage η σ
  authenticated : Option η

namespace Session

variable {η σ : Type} (H : HandshakeOps η σ) {E : Ed25519} (Y : Yatlv)

/-- The script has all it needs: split the context. -/
def finish (hs : HandshakeContext η) (header : AuthHeader) : Stage η σ :=
  match hs.intoSplit H with
  | .error e => .returned hs (.error (.error e))
  | .ok split => .returned hs (.ok (split, header.details))

/-- `accept`, up to its wait for message 1. -/
def accept (read : ReadHalf) (write : WriteHalf) (localPrivate seed localAuthHeader : Bytes)
    (verificationKey : E.VerifyingKey) : Except ConnectionError (Session η σ E) :=
  match HandshakeContext.newResponder H read write localPrivate seed with
  | .error e => .error e
  | .ok hs => .ok ⟨localAuthHeader, verificationKey, .message1 hs, none⟩

/-- `connect`, up to its wait for message 2. -/
def connect (read : ReadHalf) (write : WriteHalf) (localPrivate seed localAuthHeader : Bytes)
    (verificationKey : E.VerifyingKey) : Except ConnectionError (Session η σ E) :=
  match HandshakeContext.newInitiator H read write localPrivate seed with
  | .error e => .error e
  | .ok hs =>
    match hs.send H [] with
    | (.error f, hs) => .ok ⟨localAuthHeader, verificationKey, .returned hs (.error f), none⟩
    | (.ok (), hs) => .ok ⟨localAuthHeader, verificationKey, .message2 hs, none⟩

/-- `accept` got message 1: answer with the own header. -/
def onMessage1 (s : Session η σ E) (hs : HandshakeContext η) : Session η σ E :=
  match hs.send H s.localAuthHeader with
  | (.error f, hs) => { s with stage := .returned hs (.error f) }
  | (.ok (), hs) => { s with stage := .message3 hs }

/-- `connect` got message 2: check the responder, answer with the own header, return. -/
def onMessage2 (s : Session η σ E) (hs : HandshakeContext η) (payload : Bytes) : Session η σ E :=
  let s := { s with authenticated := some hs.handshake }
  match checkRemote H E Y s.verificationKey hs payload with
  | .error e => { s with stage := .returned hs (.error (.error e)) }
  | .ok header =>
    match hs.send H s.localAuthHeader with
    | (.error f, hs) => { s with stage := .returned hs (.error f) }
    | (.ok (), hs) => { s with stage := finish H hs header }

/-- `accept` got message 3: check the initiator and return. -/
def onMessage3 (s : Session η σ E) (hs : HandshakeContext η) (payload : Bytes) : Session η σ E :=
  let s := { s with authenticated := some hs.handshake }
  match checkRemote H E Y s.verificationKey hs payload with
  | .error e => { s with stage := .returned hs (.error (.error e)) }
  | .ok header => { s with stage := finish H hs header }

/-- A wait that is over: go on with `next`, or return the error. -/
def resume (s : Session η σ E) (hs : HandshakeContext η)
    (next : HandshakeContext η → Bytes → Session η σ E) : Session η σ E :=
  match hs.recv H with
  | .pending => s
  | .ready (.error f, hs) => { s with stage := .returned hs (.error f) }
  | .ready (.ok payload, hs) => next hs payload

/-- The executor polls the call: it goes on with the message it waits for. -/
def poll (s : Session η σ E) : Session η σ E :=
  match s.stage with
  | .message1 hs => s.resume H hs fun hs _ => s.onMessage1 H hs
  | .message2 hs => s.resume H hs (s.onMessage2 H Y)
  | .message3 hs => s.resume H hs (s.onMessage3 H Y)
  | .returned _ _ => s

/-- The timeout fires. -/
def timeout (s : Session η σ E) : Session η σ E :=
  match s.stage with
  | .returned _ _ => s
  | st => { s with stage := .returned st.context (.error (.error .handshakeTimeout)) }

/-- A change of the stream under the call. -/
def onStream (s : Session η σ E) (f : HandshakeContext η → HandshakeContext η) : Session η σ E :=
  { s with stage := s.stage.mapContext f }

/-- More bytes are there to be read. -/
def arrive (s : Session η σ E) (bytes : Bytes) : Session η σ E :=
  s.onStream fun hs => { hs with read := { hs.read with buf := hs.read.buf ++ bytes } }

end Session

/-! ## Many sessions -/

/-- The calls that were made so far. -/
structure World (η σ : Type) (E : Ed25519) where
  sessions : List (Session η σ E)

/-- A move: of a node (make a call), of the adversary (bytes, closing and breaking a stream), of
the scheduler. -/
inductive WorldAct
  | accept (localPrivate seed localAuthHeader : Bytes)
  | connect (localPrivate seed localAuthHeader : Bytes)
  | deliver (i : Nat) (bytes : Bytes)
  | close (i : Nat)
  | sever (i : Nat)
  | poll (i : Nat)
  | timeout (i : Nat)

namespace World

variable {η σ : Type} (H : HandshakeOps η σ) {E : Ed25519} (Y : Yatlv)

/-- Before the first call. -/
def empty : World η σ E := ⟨[]⟩

/-- A call that got as far as its first wait; the others have returned an error. -/
def open_ (w : World η σ E) (made : Except ConnectionError (Session η σ E)) : World η σ E :=
  match made with
  | .error _ => w
  | .ok s => ⟨w.sessions ++ [s]⟩

/-- A change of one call. -/
def modify (w : World η σ E) (i : Nat) (f : Session η σ E → Session η σ E) : World η σ E :=
  ⟨w.sessions.modify i f⟩

/-- What a move does. -/
def step (vk : E.VerifyingKey) (w : World η σ E) : WorldAct → World η σ E
  | .accept key seed header =>
    w.open_ (Session.accept H ⟨[], false⟩ ⟨[], false⟩ key seed header vk)
  | .connect key seed header =>
    w.open_ (Session.connect H ⟨[], false⟩ ⟨[], false⟩ key seed header vk)
  | .deliver i bytes => w.modify i fun s => s.arrive bytes
  | .close i => w.modify i fun s => s.onStream fun hs =>
      { hs with read := { hs.read with eof := true } }
  | .sever i => w.modify i fun s => s.onStream fun hs =>
      { hs with write := { hs.write with broken := true } }
  | .poll i => w.modify i fun s => s.poll H Y
  | .timeout i => w.modify i Session.timeout

end World

end Snowpack
