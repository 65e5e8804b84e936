import Snowpack.Lib.Source
import Snowpack.Lib.Turns
import Snowpack.Transport.Messages

/-!
# Sending from a source (`send_reader` in `src/packets.rs` and `src/messages.rs`)

`PacketTx::send_reader` fills a buffer of one packet from an `AsyncRead` and sends it when it is
full and more is wanted; what is left in the buffer at the end of input is the last packet. The loop
is modelled by its turns (`ReaderLoop.turn`): send the buffer if there is no space in it, then read
once. A source may never end, so the call is given the number of turns it runs for; when they do not
suffice it is left in the state after them.

`Outbox` is a sender with the results of the calls made on it, in any order.
-/

namespace Snowpack

open Wire

/-- The locals of `send_reader`, with what it borrows. -/
structure ReaderLoop (σ ρ : Type) where
  tx : PacketTx
  cipher : σ
  source : ρ
  buf : Bytes
  filled : Nat
  sentAny : Bool

namespace ReaderLoop

variable {σ ρ : Type} (T : TransportOps σ) (R : Source ρ)

/-- What `send_reader` returns, and what it leaves behind. -/
abbrev Result (σ ρ : Type) := Res Unit × PacketTx × σ × ρ

/-- `send_packet(&buf[..filled], last)`. -/
def sendFilled (st : ReaderLoop σ ρ) (last : Bool) : Res Unit × PacketTx × σ :=
  match slice? st.buf 0 st.filled with
  | none => (.error (.panic .sliceBounds), st.tx, st.cipher)
  | some chunk => st.tx.sendPacket T st.cipher chunk last

/-- Behind the loop: the last packet. -/
def finish (st : ReaderLoop σ ρ) : Result σ ρ :=
  if st.filled > 0 then
    match st.sendFilled T true with
    | (r, tx, s) => (r, tx, s, st.source)
  else if !st.sentAny then
    match st.tx.sendPacket T st.cipher [] true with
    | (r, tx, s) => (r, tx, s, st.source)
  else (.ok (), st.tx, st.cipher, st.source)

/-- One read, into `&mut buf[filled..]`. -/
def fill (st : ReaderLoop σ ρ) : ReaderLoop σ ρ ⊕ Result σ ρ :=
  if st.filled > st.buf.length then
    .inr (.error (.panic .sliceBounds), st.tx, st.cipher, st.source)
  else
    match R.read st.source (st.buf.length - st.filled) with
    | (.error e, source) => .inr (.error (.error (.io e)), st.tx, st.cipher, source)
    | (.ok bytes, source) =>
      if bytes.length = 0 then .inr (({ st with source } : ReaderLoop σ ρ).finish T)
      else
        .inl { st with
          source
          buf := blit st.buf st.filled bytes
          filled := st.filled + bytes.length
          sentAny := true }

/-- One turn of the loop. -/
def turn (st : ReaderLoop σ ρ) : ReaderLoop σ ρ ⊕ Result σ ρ :=
  let space := maxPacketSize - st.filled
  if space = 0 then
    match st.sendFilled T false with
    | (.error f, tx, s) => .inr (.error f, tx, s, st.source)
    | (.ok (), tx, s) => ({ st with tx, cipher := s, filled := 0 } : ReaderLoop σ ρ).fill T R
  else st.fill T R

end ReaderLoop

section
variable {σ ρ : Type} (T : TransportOps σ) (R : Source ρ)

/-- `send_reader` for a number of turns of its loop. -/
def PacketTx.sendReader (turns : Nat) (tx : PacketTx) (s : σ) (reader : ρ) :
    ReaderLoop σ ρ ⊕ ReaderLoop.Result σ ρ :=
  Turns.run (ReaderLoop.turn T R) turns
    { tx, cipher := s, source := reader, buf := List.replicate maxPacketSize 0, filled := 0,
      sentAny := false }

/-- A message with the payload that the source delivers. -/
def MessageTx.sendReader (turns : Nat) (tx : MessageTx) (s : σ) (msgType : UInt16) (reader : ρ) :
    ReaderLoop σ ρ ⊕ (Res Unit × MessageTx × σ × ρ) :=
  match tx.packets.prepareMessage msgType with
  | (.error e, p) => .inr (.error e, { packets := p }, s, reader)
  | (.ok (), p) =>
    match p.sendReader T R turns s reader with
    | .inl st => .inl st
    | .inr (r, p, s, reader) => .inr (r, { packets := p }, s, reader)

/-! ## Calls in any order -/

/-- A call on a `MessageTx`. The future of a `send_reader` is polled for a number of turns, and
dropped if it has not returned by then. -/
inductive TxCall (ρ : Type)
  | sendMessage (msgType : UInt16) (payload : Bytes)
  | sendReader (msgType : UInt16) (reader : ρ) (turns : Nat)
  | abortMessage

/-- A sender, with the results so far; `none` is that of a future that was dropped. -/
structure Outbox (σ : Type) where
  tx : MessageTx
  cipher : σ
  results : List (Option (Res Unit))

namespace Outbox

/-- Before the first call. -/
def new (tx : MessageTx) (cipher : σ) : Outbox σ := { tx, cipher, results := [] }

/-- A call is over. -/
def record (o : Outbox σ) (r : Option (Res Unit)) (tx : MessageTx) (cipher : σ) : Outbox σ :=
  { tx, cipher, results := o.results ++ [r] }

/-- What a call does. -/
def call (o : Outbox σ) : TxCall ρ → Outbox σ
  | .sendMessage t payload =>
    match o.tx.sendMessage T o.cipher t payload with
    | (r, tx, s) => o.record (some r) tx s
  | .sendReader t reader turns =>
    match o.tx.sendReader T R turns o.cipher t reader with
    | .inl st => o.record none { packets := st.tx } st.cipher
    | .inr (r, tx, s, _) => o.record (some r) tx s
  | .abortMessage =>
    match o.tx.abortMessage T o.cipher with
    | (r, tx, s) => o.record (some r) tx s

end Outbox

end

end Snowpack
