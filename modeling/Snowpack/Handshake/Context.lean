import Snowpack.Transport.Packets

/-!
# The handshake context (`HandshakeContext` in `src/packets.rs`)

The stream, the Noise state and the two buffers of an XX handshake. `recv` reads one frame and
decrypts it into the buffer, `send` encrypts a payload into the buffer behind a length prefix and
writes it, `intoSplit` turns a completed handshake into the two halves of a connection.

`snow::HandshakeState` is not part of the repository: `HandshakeOps` is the calls made to it, and
nothing is assumed about these here. The random bytes a handshake draws are its `seed`.
-/

namespace Snowpack

open Wire

/-- A handshake state of `snow`, with the transport state it turns into. -/
structure HandshakeOps (η σ : Type) where
  buildInitiator : (localPrivate seed : Bytes) → Except SnowError η
  buildResponder : (localPrivate seed : Bytes) → Except SnowError η
  writeMessage : η → Bytes → Bytes → η × Bytes × Except SnowError Nat
  readMessage : η → Bytes → Bytes → η × Bytes × Except SnowError Nat
  getRemoteStatic : η → Option Bytes
  intoTransportMode : η → Except SnowError σ

/-- A handshake with its stream and its two buffers. -/
structure HandshakeContext (η : Type) where
  handshake : η
  frame : Bytes
  noiseBuf : Bytes
  read : ReadHalf
  write : WriteHalf

namespace HandshakeContext

variable {η σ : Type} (H : HandshakeOps η σ)

/-- A context around a new Noise state: what `new_initiator` and `new_responder` share. -/
def around (built : Except SnowError η) (read : ReadHalf) (write : WriteHalf) :
    Except ConnectionError (HandshakeContext η) :=
  match built with
  | .error e => .error (.noise e)
  | .ok handshake =>
    .ok ⟨handshake, [], List.replicate (frameHeaderSize + maxCiphertextSize) 0, read, write⟩

/-- The context of the side that begins. -/
def newInitiator (read : ReadHalf) (write : WriteHalf) (localPrivate seed : Bytes) :
    Except ConnectionError (HandshakeContext η) :=
  around (H.buildInitiator localPrivate seed) read write

/-- The context of the side that answers. -/
def newResponder (read : ReadHalf) (write : WriteHalf) (localPrivate seed : Bytes) :
    Except ConnectionError (HandshakeContext η) :=
  around (H.buildResponder localPrivate seed) read write

/-- Read one handshake frame; the decrypted payload is the front of the buffer. -/
def recv (hs : HandshakeContext η) : Poll (Res Bytes × HandshakeContext η) :=
  match readFrame hs.read hs.frame with
  | .pending => .pending
  | .ready (.error e, read, frame) => .ready (.error (.error (.io e)), { hs with read, frame })
  | .ready (.ok (), read, frame) =>
    match H.readMessage hs.handshake frame hs.noiseBuf with
    | (h, buf, .error e) =>
      .ready (.error (.error (.noise e)), { hs with read, frame, handshake := h, noiseBuf := buf })
    | (h, buf, .ok n) =>
      let hs := { hs with read, frame, handshake := h, noiseBuf := buf }
      match slice? buf 0 n with
      | none => .ready (.error (.panic .sliceBounds), hs)
      | some payload => .ready (.ok payload, hs)

/-- Encrypt `payload` and write one handshake frame. The cast `n as u16` drops high bits. -/
def send (hs : HandshakeContext η) (payload : Bytes) : Res Unit × HandshakeContext η :=
  match H.writeMessage hs.handshake payload (hs.noiseBuf.drop frameHeaderSize) with
  | (h, out, .error e) =>
    (.error (.error (.noise e)),
      { hs with handshake := h, noiseBuf := hs.noiseBuf.take frameHeaderSize ++ out })
  | (h, out, .ok n) =>
    let buf := toBe (UInt16.ofNat n) ++ out
    let hs := { hs with handshake := h, noiseBuf := buf }
    match slice? buf 0 (frameHeaderSize + n) with
    | none => (.error (.panic .sliceBounds), hs)
    | some bytes =>
      match hs.write.writeAll bytes with
      | (.error e, w) => (.error (.error (.io e)), { hs with write := w })
      | (.ok (), w) => (.ok (), { hs with write := w })

/-- The static key of the other side, as far as Noise has seen it. -/
def remoteStatic (hs : HandshakeContext η) : Except ConnectionError TransportPublicKey :=
  match H.getRemoteStatic hs.handshake with
  | none => .error .missingRemoteStatic
  | some raw =>
    match TransportPublicKey.ofSlice raw with
    | none => .error .remoteStaticKeyLength
    | some key => .ok key

/-- The two halves of a connection and the cipher state they share. -/
structure Split (σ : Type) where
  tx : PacketTx
  rx : PacketRx
  state : σ

/-- The halves of the connection; the buffers of the handshake go to the receiving one. -/
def intoSplit (hs : HandshakeContext η) : Except ConnectionError (Split σ) :=
  match H.intoTransportMode hs.handshake with
  | .error e => .error (.noise e)
  | .ok state =>
    .ok {
      tx := { packetBuilder := .new, write := hs.write, writeBuf := [] }
      rx := {
        packetReader := .new
        read := hs.read
        ciphertextBuf := hs.frame
        plaintextBuf := hs.noiseBuf
        payloadEnd := 0 }
      state }

/-! ## What the calls do -/

variable {H}

/-- A payload comes out of `recv` only through a successful `read_message`. -/
theorem recv_ok {hs hs' : HandshakeContext η} {payload : Bytes}
    (h : hs.recv H = .ready (.ok payload, hs')) :
    ∃ frame buf n, H.readMessage hs.handshake frame hs.noiseBuf = (hs'.handshake, buf, .ok n) := by
  unfold recv at h
  split at h
  · cases h
  · simp at h
  · rename_i read frame hf
    split at h
    · simp at h
    · rename_i h' buf n hr
      simp only at h
      split at h
      · simp at h
      · simp only [Poll.ready.injEq, Prod.mk.injEq] at h
        obtain ⟨-, rfl⟩ := h
        exact ⟨frame, buf, n, hr⟩

theorem remoteStatic_ok {hs : HandshakeContext η} {key : TransportPublicKey}
    (h : hs.remoteStatic H = .ok key) : H.getRemoteStatic hs.handshake = some key.bytes := by
  unfold remoteStatic at h
  split at h
  · cases h
  · rename_i raw hraw
    split at h
    · cases h
    · rename_i key' hk
      cases h
      rw [hraw, TransportPublicKey.bytes_of_ofSlice hk]

end HandshakeContext

end Snowpack
