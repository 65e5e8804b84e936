import Snowpack.Auth.Header
import Snowpack.Packet.State
import Snowpack.Transport.Snow

/-!
# Packets over an encrypted stream (`src/packets.rs`)

`PacketTx` builds a packet, encrypts it into its write buffer behind a length prefix and writes the
frame; `PacketRx` reads a frame, decrypts it into its plaintext buffer and hands the plaintext to
the packet reader. Buffers are kept from call to call as the source keeps them. Both halves use one
cipher state, which every call takes and returns.

A call ends in a value, in an error of the source, or in a panic (a slice out of bounds, an
`unreachable!`); a panic is a result here, so that its absence is something to prove.
-/

namespace Snowpack

open Wire

/-- `ConnectionError` of `src/packets.rs`. -/
inductive ConnectionError
  | io (e : IoError)
  | noise (e : SnowError)
  | packet (e : PacketReadError)
  | packetBuilder (e : PacketBuildError)
  | packetOverflow
  | missingRemoteStatic
  | remoteStaticKeyLength
  | handshakeTimeout
  | invalidNodeId (s : String)
  | badAuth (e : BadAuth)
  | messageAborted
  deriving DecidableEq, Repr

/-- Where a call can panic. -/
inductive PanicSite
  | sliceBounds
  | unreachableKind
  deriving DecidableEq, Repr

/-- A call returns an error, or it panics. -/
inductive Fault
  | error (e : ConnectionError)
  | panic (p : PanicSite)
  deriving DecidableEq, Repr

/-- What a call comes to. -/
abbrev Res (α : Type) := Except Fault α

/-- Read one length-prefixed frame into `frame`. The stream is polled as a whole: the future is
pending until the frame has arrived, and then nothing of it has been taken from the stream. -/
def readFrame (stream : ReadHalf) (frame : Bytes) :
    Poll (Except IoError Unit × ReadHalf × Bytes) :=
  match stream.readU16 with
  | .pending => .pending
  | .ready (.error e, stream) => .ready (.error e, stream, frame)
  | .ready (.ok len, stream) => stream.readExact (resize frame len.toNat)

/-! ## Receiving -/

/-- The receiving half: a reader on a stream, with a buffer for the frame and one for the packet. -/
structure PacketRx where
  packetReader : PacketReader
  read : ReadHalf
  ciphertextBuf : Bytes
  plaintextBuf : Bytes
  payloadEnd : Nat
  deriving DecidableEq, Repr

namespace PacketRx

variable {σ : Type} (T : TransportOps σ)

/-- A frame has been read: decrypt it and check its header. -/
def openFrame (rx : PacketRx) (s : σ) : Res PacketHeader × PacketRx × σ :=
  let out := resize rx.plaintextBuf rx.ciphertextBuf.length
  match T.readMessage s rx.ciphertextBuf out with
  | (s, out, .error e) => (.error (.error (.noise e)), { rx with plaintextBuf := out }, s)
  | (s, out, .ok n) =>
    let rx := { rx with plaintextBuf := out, payloadEnd := n }
    match slice? out 0 n with
    | none => (.error (.panic .sliceBounds), rx, s)
    | some raw =>
      match rx.packetReader.read raw with
      | (.error e, r) => (.error (.error (.packet e)), { rx with packetReader := r }, s)
      | (.ok header, r) => (.ok header, { rx with packetReader := r }, s)

/-- The next packet, checked and in the plaintext buffer. -/
def readPacket (rx : PacketRx) (s : σ) : Poll (Res PacketHeader × PacketRx × σ) :=
  match readFrame rx.read rx.ciphertextBuf with
  | .pending => .pending
  | .ready (.error e, read, buf) =>
    .ready (.error (.error (.io e)), { rx with read, ciphertextBuf := buf }, s)
  | .ready (.ok (), read, buf) => .ready (openFrame T { rx with read, ciphertextBuf := buf } s)

/-- The payload of the packet in the plaintext buffer; `none` is a slice out of bounds. -/
def payload (rx : PacketRx) : Option Bytes :=
  if rx.payloadEnd > 2 then slice? rx.plaintextBuf 2 rx.payloadEnd else some []

end PacketRx

/-! ## Sending -/

/-- The sending half: a builder on a stream, with a buffer for the frame. -/
structure PacketTx where
  packetBuilder : PacketBuilder
  write : WriteHalf
  writeBuf : Bytes
  deriving DecidableEq, Repr

namespace PacketTx

variable {σ : Type} (T : TransportOps σ)

/-- Begin a message. -/
def prepareMessage (tx : PacketTx) (msgType : UInt16) : Res Unit × PacketTx :=
  match tx.packetBuilder.prepare msgType with
  | (.error e, b) => (.error (.error (.packetBuilder e)), { tx with packetBuilder := b })
  | (.ok (), b) => (.ok (), { tx with packetBuilder := b })

/-- Encrypt `plaintext` behind a length prefix and write the frame: the lines that `send_packet`
and `abort_message` share. The cast `n as u16` drops high bits. -/
def writeFrame (tx : PacketTx) (s : σ) (plaintext : Bytes) : Res Unit × PacketTx × σ :=
  let frameLen := frameHeaderSize + (plaintext.length + cipherOverheadSize)
  let buf := if tx.writeBuf.length < frameLen then resize tx.writeBuf frameLen else tx.writeBuf
  match T.writeMessage s plaintext (buf.drop frameHeaderSize) with
  | (s, out, .error e) =>
    (.error (.error (.noise e)), { tx with writeBuf := buf.take frameHeaderSize ++ out }, s)
  | (s, out, .ok n) =>
    let buf := toBe (UInt16.ofNat n) ++ out
    let tx := { tx with writeBuf := buf }
    match slice? buf 0 (frameHeaderSize + n) with
    | none => (.error (.panic .sliceBounds), tx, s)
    | some bytes =>
      match tx.write.writeAll bytes with
      | (.error e, w) => (.error (.error (.io e)), { tx with write := w }, s)
      | (.ok (), w) => (.ok (), { tx with write := w }, s)

/-- Build the packet of a chunk, and write its frame. -/
def sendPacket (tx : PacketTx) (s : σ) (payload : Bytes) (last : Bool) :
    Res Unit × PacketTx × σ :=
  match tx.packetBuilder.pack payload last with
  | (.error e, b) => (.error (.error (.packetBuilder e)), { tx with packetBuilder := b }, s)
  | (.ok plaintext, b) => writeFrame T { tx with packetBuilder := b } s plaintext

/-- The loop of `send_slice` over the chunks that are left. -/
def sendChunks (tx : PacketTx) (s : σ) (lastSlice : Bool) : List Bytes → Res Unit × PacketTx × σ
  | [] => (.ok (), tx, s)
  | chunk :: rest =>
    match sendPacket T tx s chunk (rest.isEmpty && lastSlice) with
    | (.error e, tx, s) => (.error e, tx, s)
    | (.ok (), tx, s) => sendChunks tx s lastSlice rest

/-- A slice in full packets and a rest; an empty one is one empty packet. -/
def sendSlice (tx : PacketTx) (s : σ) (data : Bytes) (lastSlice : Bool) :
    Res Unit × PacketTx × σ :=
  match chunks maxPacketSize data with
  | [] => sendPacket T tx s [] lastSlice
  | cs => sendChunks T tx s lastSlice cs

/-- Write the abort packet of the message in progress, if there is one. -/
def abortMessage (tx : PacketTx) (s : σ) : Res Unit × PacketTx × σ :=
  match tx.packetBuilder.abort with
  | (none, b) => (.ok (), { tx with packetBuilder := b }, s)
  | (some plaintext, b) => writeFrame T { tx with packetBuilder := b } s plaintext

end PacketTx

end Snowpack
