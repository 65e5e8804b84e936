import Snowpack.Lib.Turns
import Snowpack.Transport.Messages

/-!
# Reading the body of a message, two ways

`Message.readBytesFor` is the whole of `read_bytes`, for a number of turns of its loop;
`Message.collectFor` is the caller that turns the message into packets and calls `next` until it
returns `None` or an error, putting the slices together. Both are driven on the stream as it is: a
read that has to wait ends them with `pending`, in the state it waits in.

`Iteration` is the packets of a message and what the calls of `next` returned, with bytes that
arrive in between.
-/

namespace Snowpack

open Wire

section
variable {σ : Type} (T : TransportOps σ)

/-- How reading a body ended, and the receiver behind it. -/
abbrev BodyEnd (σ : Type) := Poll (Res Bytes) × MessageRx × σ

/-- The loop of `read_bytes`. -/
def MessageRx.bodyLoop (st : MessageRx × σ) : (MessageRx × σ) ⊕ BodyEnd σ :=
  match st.1.bodyTurn T st.2 with
  | .pending => .inr (.pending, st.1, st.2)
  | .ready (none, rx, s) => .inl (rx, s)
  | .ready (some r, rx, s) => .inr (.ready r, rx, s)

/-- `read_bytes`, with at most so many turns of its loop. -/
def Message.readBytesFor (m : Message) (turns : Nat) (rx : MessageRx) (s : σ) :
    (MessageRx × σ) ⊕ BodyEnd σ :=
  match m.readBytes rx with
  | (some r, rx) => .inr (.ready r, rx, s)
  | (none, rx) => Turns.run (MessageRx.bodyLoop T) turns (rx, s)

/-- The packets of a message, and the slices yielded so far. -/
structure Collecting (σ : Type) where
  packets : MessagePackets
  collected : Bytes
  rx : MessageRx
  cipher : σ

/-- A caller of `next` that keeps what it gets. -/
def Collecting.turn (st : Collecting σ) : Collecting σ ⊕ BodyEnd σ :=
  match st.packets.next T st.rx st.cipher with
  | .pending => .inr (.pending, st.rx, st.cipher)
  | .ready (.error f, _, rx, s) => .inr (.ready (.error f), rx, s)
  | .ready (.ok none, _, rx, s) => .inr (.ready (.ok st.collected), rx, s)
  | .ready (.ok (some b), mp, rx, s) =>
    .inl { packets := mp, collected := st.collected ++ b, rx, cipher := s }

/-- `into_packets`, with at most so many calls of `next`. -/
def Message.collectFor (m : Message) (turns : Nat) (rx : MessageRx) (s : σ) :
    Collecting σ ⊕ BodyEnd σ :=
  Turns.run (Collecting.turn T) turns
    { packets := m.intoPackets, collected := [], rx, cipher := s }

/-! ## Calls of `next` in any number -/

/-- The packets of a message, and what the calls of `next` returned. -/
structure Iteration (σ : Type) where
  packets : MessagePackets
  rx : MessageRx
  cipher : σ
  /-- what the calls that returned did return -/
  results : List (Res (Option Bytes))

/-- A call of `next`, or what happens on the stream. -/
inductive IterAct
  | next
  | arrive (bytes : Bytes)
  | close
  deriving DecidableEq, Repr

namespace Iteration

/-- `into_packets` was called. -/
def new (m : Message) (rx : MessageRx) (s : σ) : Iteration σ :=
  { packets := m.intoPackets, rx, cipher := s, results := [] }

/-- What an action does; a call that waits is dropped and made again. -/
def act (it : Iteration σ) : IterAct → Iteration σ
  | .next =>
    match it.packets.next T it.rx it.cipher with
    | .pending => it
    | .ready (r, mp, rx, s) => { packets := mp, rx, cipher := s, results := it.results ++ [r] }
  | .arrive bytes => { it with rx.packets.read.buf := it.rx.packets.read.buf ++ bytes }
  | .close => { it with rx.packets.read.eof := true }

end Iteration

end

end Snowpack
