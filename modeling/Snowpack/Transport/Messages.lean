import Snowpack.Transport.Packets

/-!
# Messages (`src/messages.rs`)

`MessageTx` sends a message as packets. `MessageRx.readMessage` reads an opening packet and returns
a `Message`, a handle that borrows the receiver; its body is read by `read_bytes`, a loop that
appends to the receiver's buffer, or by `into_packets` and `next`. The loop is modelled by the part
before it (`Message.readBytes`) and one turn of it (`MessageRx.bodyTurn`); both return `none` when
the loop goes on.
-/

namespace Snowpack

open Wire

/-- The sending half of a connection. -/
structure MessageTx where
  packets : PacketTx
  deriving DecidableEq, Repr

/-- The receiving half; `readBuf` is where `read_bytes` puts a message together. -/
structure MessageRx where
  packets : PacketRx
  readBuf : Bytes
  deriving DecidableEq, Repr

/-- `Message`, less the borrow of its receiver. -/
structure Message where
  firstHeader : PacketHeader
  deriving DecidableEq, Repr

/-- `MessagePackets`, less the borrow; `firstKind` is the packet that `read_message` has read
already. -/
structure MessagePackets where
  done : Bool
  firstKind : Option PacketKind
  deriving DecidableEq, Repr

section
variable {σ : Type} (T : TransportOps σ)

/-! ## Sending -/

namespace MessageTx

/-- `MessageTx::new`. -/
def new (packets : PacketTx) : MessageTx := { packets }

/-- A message of the given type, in as many packets as it takes. -/
def sendMessage (tx : MessageTx) (s : σ) (msgType : UInt16) (payload : Bytes) :
    Res Unit × MessageTx × σ :=
  match tx.packets.prepareMessage msgType with
  | (.error e, p) => (.error e, { packets := p }, s)
  | (.ok (), p) =>
    match p.sendSlice T s payload true with
    | (r, p, s) => (r, { packets := p }, s)

/-- The message in progress is given up, if there is one. -/
def abortMessage (tx : MessageTx) (s : σ) : Res Unit × MessageTx × σ :=
  match tx.packets.abortMessage T s with
  | (r, p, s) => (r, { packets := p }, s)

end MessageTx

/-! ## Receiving -/

/-- The type of the message. -/
def Message.msgType (m : Message) : UInt16 := m.firstHeader.msgType

namespace MessageRx

/-- `MessageRx::new`. -/
def new (packets : PacketRx) : MessageRx := { packets, readBuf := [] }

/-- The next packet opens a message, whichever kind it is of. -/
def readMessage (rx : MessageRx) (s : σ) : Poll (Res Message × MessageRx × σ) :=
  match rx.packets.readPacket T s with
  | .pending => .pending
  | .ready (.error e, p, s) => .ready (.error e, { rx with packets := p }, s)
  | .ready (.ok firstHeader, p, s) => .ready (.ok { firstHeader }, { rx with packets := p }, s)

/-- `read_buf.extend_from_slice(packets.payload())`. -/
def extend (rx : MessageRx) : Res Unit × MessageRx :=
  match rx.packets.payload with
  | none => (.error (.panic .sliceBounds), rx)
  | some p => (.ok (), { rx with readBuf := rx.readBuf ++ p })

/-- One turn of the loop of `read_bytes`. -/
def bodyTurn (rx : MessageRx) (s : σ) : Poll (Option (Res Bytes) × MessageRx × σ) :=
  match rx.packets.readPacket T s with
  | .pending => .pending
  | .ready (.error e, p, s) => .ready (some (.error e), { rx with packets := p }, s)
  | .ready (.ok header, p, s) =>
    let rx := { rx with packets := p }
    match header.kind with
    | .abort => .ready (some (.error (.error .messageAborted)), rx, s)
    | .last =>
      match rx.extend with
      | (.error e, rx) => .ready (some (.error e), rx, s)
      | (.ok (), rx) => .ready (some (.ok rx.readBuf), rx, s)
    | .mid =>
      match rx.extend with
      | (.error e, rx) => .ready (some (.error e), rx, s)
      | (.ok (), rx) => .ready (none, rx, s)
    | .sole | .first => .ready (some (.error (.panic .unreachableKind)), rx, s)

end MessageRx

/-- `read_bytes` up to its loop. -/
def Message.readBytes (m : Message) (rx : MessageRx) : Option (Res Bytes) × MessageRx :=
  match MessageRx.extend { rx with readBuf := [] } with
  | (.error e, rx) => (some (.error e), rx)
  | (.ok (), rx) => if m.firstHeader.kind = .sole then (some (.ok rx.readBuf), rx) else (none, rx)

/-- The packets of the message, from its first one on. -/
def Message.intoPackets (m : Message) : MessagePackets :=
  { done := false, firstKind := some m.firstHeader.kind }

/-- The payload a `next` call yields. -/
def MessageRx.yield (rx : MessageRx) : Res (Option Bytes) :=
  match rx.packets.payload with
  | none => .error (.panic .sliceBounds)
  | some p => .ok (some p)

/-- The next payload; `none` when the message is over. -/
def MessagePackets.next (mp : MessagePackets) (rx : MessageRx) (s : σ) :
    Poll (Res (Option Bytes) × MessagePackets × MessageRx × σ) :=
  if mp.done then .ready (.ok none, mp, rx, s)
  else
    match mp.firstKind with
    | some kind => .ready (rx.yield, { done := kind = .sole, firstKind := none }, rx, s)
    | none =>
      match rx.packets.readPacket T s with
      | .pending => .pending
      | .ready (.error e, p, s) => .ready (.error e, mp, { rx with packets := p }, s)
      | .ready (.ok header, p, s) =>
        let rx := { rx with packets := p }
        match header.kind with
        | .abort => .ready (.error (.error .messageAborted), { mp with done := true }, rx, s)
        | .last => .ready (rx.yield, { mp with done := true }, rx, s)
        | .mid => .ready (rx.yield, mp, rx, s)
        | .sole | .first => .ready (.error (.panic .unreachableKind), mp, rx, s)

end

end Snowpack
