import Snowpack.Lib.Ends
import Snowpack.Transport.Loop
import Snowpack.Transport.Sender

/-!
# Two connected endpoints

Each side sends a list of calls and receives in a loop; its two halves share one cipher state, the
`cipher` of its receiver. What a side writes reaches the other in order and in pieces of any size.
A schedule interleaves the steps of both sides and both directions in any way.
-/

namespace Snowpack

open Wire

/-- One side of a connection: a sender and a receiving loop. -/
structure Endpoint (σ : Type) where
  sender : Sender
  receiver : Receiver σ

/-- The sender writes, and bytes arrive in the buffer that the receiver reads from. -/
instance {σ : Type} : StreamEnd (Endpoint σ) where
  written e := e.sender.tx.write.written
  arrive e bytes := { e with receiver := e.receiver.arrive bytes }
  written_arrive _ _ := rfl
  arrive_nil e := congrArg (Endpoint.mk e.sender) e.receiver.arrive_nil

/-- A step of a connection. -/
inductive DuplexAct
  /-- one step of a sender: a packet, or a call up to its first packet -/
  | send (x : Side)
  /-- up to `n` more bytes written by `x` arrive -/
  | deliver (x : Side) (n : Nat)
  /-- one turn of a receiving loop -/
  | recv (x : Side) (drain : Bool)
  deriving DecidableEq, Repr

/-- Two connected endpoints. -/
abbrev Duplex (σ : Type) := Ends (Endpoint σ)

namespace Duplex

variable {σ : Type} (T : TransportOps σ)

/-- What the loop of `x` has seen. -/
def seen (d : Duplex σ) (x : Side) : Observed := observe (d.at_ x).receiver.events

/-- What an action does. -/
def step (d : Duplex σ) : DuplexAct → Duplex σ
  | .send x =>
    let e := d.at_ x
    match e.sender.step T e.receiver.cipher with
    | (sender, s) => d.set x ⟨sender, { e.receiver with cipher := s }⟩
  | .deliver x n => d.deliver x n
  | .recv x drain =>
    let e := d.at_ x
    d.set x { e with receiver := e.receiver.loop T drain }

end Duplex

end Snowpack
