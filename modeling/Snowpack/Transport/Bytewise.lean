import Snowpack.Transport.Duplex

/-!
# The connection byte by byte

`Duplex` reads and writes whole frames. Here a frame is read as the futures read it: `read_u16` and
`read_exact` take what bytes there are, keep them and are suspended until more arrive, and
`write_all` hands the stream what it has room for. The streams are bounded: of the bytes of one
direction at most `cap` are written and not yet taken by a read.

`FrameRead` is a suspended `read_frame`; a fresh call is one that has taken nothing. What the calls
do behind `read_packet` is `Receiver.received`, whatever call it is that was suspended.
-/

namespace Snowpack

open Wire

/-! ## Reading -/

/-- Where a `read_frame` is suspended. -/
inductive FrameRead
  /-- in `read_u16`, with the bytes it has -/
  | length (got : Bytes)
  /-- in `read_exact`, with the first bytes of the frame filled -/
  | body (filled : Nat)
  deriving DecidableEq, Repr

namespace FrameRead

/-- One read of up to `n` bytes: `read_frame` is suspended again, or it returns. -/
def read (f : FrameRead) (n : Nat) (stream : ReadHalf) (frame : Bytes) :
    (FrameRead × ReadHalf × Bytes) ⊕ (Except IoError Unit × ReadHalf × Bytes) :=
  if stream.buf = [] ∧ stream.eof then .inr (.error .unexpectedEof, stream, frame)
  else
    match f with
    | .length got =>
      let b := stream.buf.take (min n (2 - got.length))
      let stream := { stream with buf := stream.buf.drop b.length }
      match got ++ b with
      | [b0, b1] =>
        let frame := resize frame (ofBe b0 b1).toNat
        -- an empty buffer is full at once
        if frame.length = 0 then .inr (.ok (), stream, frame) else .inl (.body 0, stream, frame)
      | got => .inl (.length got, stream, frame)
    | .body filled =>
      let b := stream.buf.take (min n (frame.length - filled))
      let stream := { stream with buf := stream.buf.drop b.length }
      let frame := blit frame filled b
      if filled + b.length = frame.length then .inr (.ok (), stream, frame)
      else .inl (.body (filled + b.length), stream, frame)

end FrameRead

section
variable {σ : Type} (T : TransportOps σ)

/-- `read_packet` behind its `read_frame`. -/
def PacketRx.frameRead (rx : PacketRx) (s : σ) :
    Except IoError Unit × ReadHalf × Bytes → Res PacketHeader × PacketRx × σ
  | (.error e, read, buf) => (.error (.error (.io e)), { rx with read, ciphertextBuf := buf }, s)
  | (.ok (), read, buf) => openFrame T { rx with read, ciphertextBuf := buf } s

/-- The turn of `read_bytes` behind its `read_packet`. -/
def MessageRx.bodyPacket (rx : MessageRx) : Res PacketHeader → Option (Res Bytes) × MessageRx
  | .error f => (some (.error f), rx)
  | .ok header =>
    match header.kind with
    | .abort => (some (.error (.error .messageAborted)), rx)
    | .last =>
      match rx.extend with
      | (.error e, rx) => (some (.error e), rx)
      | (.ok (), rx) => (some (.ok rx.readBuf), rx)
    | .mid =>
      match rx.extend with
      | (.error e, rx) => (some (.error e), rx)
      | (.ok (), rx) => (none, rx)
    | .sole | .first => (some (.error (.panic .unreachableKind)), rx)

/-- `next` behind its `read_packet`. -/
def MessagePackets.nextPacket (mp : MessagePackets) (rx : MessageRx) :
    Res PacketHeader → Res (Option Bytes) × MessagePackets
  | .error f => (.error f, mp)
  | .ok header =>
    match header.kind with
    | .abort => (.error (.error .messageAborted), { mp with done := true })
    | .last => (rx.yield, { mp with done := true })
    | .mid => (rx.yield, mp)
    | .sole | .first => (.error (.panic .unreachableKind), mp)

/-- The packet that was accepted. -/
def PacketRx.acceptedOf (rx : PacketRx) : Res PacketHeader → List Packet
  | .ok header => [(header, (rx.plaintextBuf.take rx.payloadEnd).drop 2)]
  | .error _ => []

namespace Receiver

/-- The loop's next call reads from the stream. -/
def awaits (r : Receiver σ) : Bool :=
  match r.handle with
  | .free | .reading _ => true
  | .packets _ mp => !r.iterated && !mp.done && mp.firstKind.isNone
  | _ => false

/-- The call that was suspended goes on with what `read_packet` returned. -/
def received (r : Receiver σ) (res : Res PacketHeader) (packets : PacketRx) (s : σ) : Receiver σ :=
  let rx := { r.rx with packets }
  let r' := { r with rx, cipher := s, accepted := r.accepted ++ packets.acceptedOf res }
  match r.handle with
  | .free =>
    match res with
    | .error f => r'.fault f .free
    | .ok header =>
      { r' with handle := .message ⟨header⟩, events := r'.events ++ [.opened header] }
  | .reading m =>
    match rx.bodyPacket res with
    | (res, rx) => { r' with rx }.progress m res
  | .packets m mp =>
    match mp.nextPacket rx res with
    | (res, mp) => r'.yielded m mp res
  | _ => r

end Receiver

/-- A receiver, and the `read_frame` its call is suspended in. -/
structure Reading (σ : Type) where
  receiver : Receiver σ
  frame : FrameRead

namespace Reading

/-- Between two frames. -/
def new (r : Receiver σ) : Reading σ := { receiver := r, frame := .length [] }

/-- One turn of the loop; if it reads from the stream, one read of up to `n` bytes. -/
def turn (p : Reading σ) (drain : Bool) (n : Nat) : Reading σ :=
  let r := p.receiver
  if r.awaits then
    match p.frame.read n r.rx.packets.read r.rx.packets.ciphertextBuf with
    | .inl (f, read, buf) =>
      { receiver := { r with
          rx.packets.read := read
          rx.packets.ciphertextBuf := buf }
        frame := f }
    | .inr res =>
      match r.rx.packets.frameRead T r.cipher res with
      | (res, packets, s) => .new (r.received res packets s)
  else { p with receiver := r.loop T drain }

end Reading

/-! ## Two sides -/

/-- One side: its sender, and its receiving loop with the frame it is in. -/
structure ByteEnd (σ : Type) where
  sender : Sender
  reading : Reading σ

/-- What the sender has encrypted counts as written, whether the stream has taken it or not. -/
instance {σ : Type} : StreamEnd (ByteEnd σ) where
  written e := e.sender.tx.write.written
  arrive e bytes := { e with
    reading := { e.reading with receiver := e.reading.receiver.arrive bytes } }
  written_arrive _ _ := rfl
  arrive_nil e := by simp only [Receiver.arrive_nil]

/-- A step of two sides. -/
inductive ByteAct
  /-- the sender builds and encrypts its next packet, when the one before has been written -/
  | send (x : Side)
  /-- the stream takes up to `n` bytes from a `write_all` -/
  | push (x : Side) (n : Nat)
  /-- up to `n` more bytes of `x` arrive -/
  | deliver (x : Side) (n : Nat)
  /-- a turn of a receiving loop, or a read of up to `n` bytes in it -/
  | recv (x : Side) (drain : Bool) (n : Nat)
  deriving DecidableEq, Repr

/-- Two sides. `pushed x` counts the bytes of `x` that the stream has taken, and `returned x` is the
results of the calls whose last frame was written. -/
structure Bytewise (σ : Type) extends Ends (ByteEnd σ) where
  pushed : Side → Nat
  returned : Side → List (Res Unit)

namespace Bytewise

/-- One side is another now. -/
def set (d : Bytewise σ) (x : Side) (e : ByteEnd σ) : Bytewise σ :=
  { d with toEnds := d.toEnds.set x e }

/-- The bytes that have arrived at `x` and that no read has taken. -/
def buffered (d : Bytewise σ) (x : Side) : Bytes :=
  (d.at_ x).reading.receiver.rx.packets.read.buf

/-- The room in the stream that `x` writes to. -/
def room (cap : Nat) (d : Bytewise σ) (x : Side) : Nat :=
  cap - (d.pushed x - d.moved x + (d.buffered x.other).length)

/-- Two sides between calls: all that was written has been taken by the streams. -/
def start (d : Duplex σ) : Bytewise σ where
  at_ x := { sender := (d.at_ x).sender, reading := .new (d.at_ x).receiver }
  pushed x := (d.written x).length
  moved := d.moved
  returned x := (d.at_ x).sender.results

/-- A call returns when all it wrote has been taken. -/
def settle (d : Bytewise σ) (x : Side) : Bytewise σ :=
  if d.pushed x = (d.written x).length then
    { d with returned := Function.update d.returned x (d.at_ x).sender.results }
  else d

/-- What an action does. -/
def step (cap : Nat) (d : Bytewise σ) : ByteAct → Bytewise σ
  | .send x =>
    let e := d.at_ x
    if d.pushed x = (d.written x).length then
      match e.sender.step T e.reading.receiver.cipher with
      | (sender, s) =>
        (d.set x { sender, reading := { e.reading with receiver.cipher := s } }).settle x
    else d
  | .push x n =>
    let k := min n (min ((d.written x).length - d.pushed x) (d.room cap x))
    settle { d with pushed := Function.update d.pushed x (d.pushed x + k) } x
  -- of what the stream has taken
  | .deliver x n => { d with toEnds := d.toEnds.deliver x (min n (d.pushed x - d.moved x)) }
  | .recv x drain n =>
    let e := d.at_ x
    d.set x { e with reading := e.reading.turn T drain n }

end Bytewise

end

end Snowpack
