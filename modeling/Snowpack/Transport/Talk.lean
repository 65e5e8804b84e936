import Snowpack.Transport.Duplex
import Snowpack.Transport.SendReader

/-!
# Two connected parties that make any calls

Each party makes a list of calls of its `MessageTx`, any of `send_message`, `send_reader` and
`abort_message`, and receives in a loop. As in `Duplex`, the two halves of a party share the cipher
state of its receiver, and the bytes that are written arrive in order and in pieces of any size.

`Told` says what the calls are for: what each of them returns and what the other party gets to see
of it, as a function of the calls alone. It knows of no packets and of no bytes on the wire.
-/

namespace Snowpack

open Wire

variable {σ ρ : Type}

/-- A party: the calls it is to make, its sending half with what the calls returned, and its
receiving loop. -/
structure Talker (σ ρ : Type) where
  todo : List (TxCall ρ)
  tx : MessageTx
  results : List (Option (Res Unit))
  receiver : Receiver σ

instance {σ ρ : Type} : StreamEnd (Talker σ ρ) where
  written e := e.tx.packets.write.written
  arrive e bytes := { e with receiver := e.receiver.arrive bytes }
  written_arrive _ _ := rfl
  arrive_nil e := congrArg (Talker.mk e.todo e.tx e.results) e.receiver.arrive_nil

/-- A step of two parties. -/
inductive TalkAct
  /-- the next call of `x` -/
  | call (x : Side)
  /-- up to `n` more bytes written by `x` arrive -/
  | deliver (x : Side) (n : Nat)
  /-- one turn of a receiving loop -/
  | recv (x : Side) (drain : Bool)
  deriving DecidableEq, Repr

/-- Two connected parties. -/
abbrev Talk (σ ρ : Type) := Ends (Talker σ ρ)

section
variable (T : TransportOps σ) (R : Source ρ)

/-- The sending half with the cipher state it shares. -/
def Talker.outbox (e : Talker σ ρ) : Outbox σ :=
  { tx := e.tx, cipher := e.receiver.cipher, results := e.results }

/-- The next call is made, if there is one. -/
def Talker.call (e : Talker σ ρ) : Talker σ ρ :=
  match e.todo with
  | [] => e
  | c :: todo =>
    let o := e.outbox.call T R c
    { todo, tx := o.tx, results := o.results, receiver := { e.receiver with cipher := o.cipher } }

namespace Talk

/-- What an action does. -/
def step (d : Talk σ ρ) : TalkAct → Talk σ ρ
  | .call x => d.set x ((d.at_ x).call T R)
  | .deliver x n => d.deliver x n
  | .recv x drain =>
    let e := d.at_ x
    d.set x { e with receiver := e.receiver.loop T drain }

end Talk

end

/-! ## What calls are for -/

/-- A call, with what its source has to give. -/
inductive Saying
  | message (msgType : UInt16) (payload : Bytes)
  /-- a `send_reader` that has returned -/
  | stream (msgType : UInt16) (data : Bytes) (fin : Option IoError)
  /-- a call that was dropped when it had sent `sent`, and not the last packet -/
  | dropped (msgType : UInt16) (sent : Bytes)
  /-- a call that was dropped while it wrote the last packet -/
  | finishing (msgType : UInt16) (data : Bytes)
  | abort
  /-- an `abort_message` that was dropped while it wrote its packet -/
  | aborting
  deriving DecidableEq, Repr

/-- The message that was left open, with whether its first packet is still to come; what the calls
returned; what the other party sees. -/
structure Told where
  left : Option (UInt16 × Bool)
  results : List (Option (Res Unit))
  outcomes : List Outcome

namespace Told

/-- Before the first call. -/
def start : Told := { left := none, results := [], outcomes := [] }

/-- A call is over: what it left open, what it returned, what the other party sees of it. -/
def record (s : Told) (left : Option (UInt16 × Bool)) (r : Option (Res Unit))
    (os : List Outcome) : Told :=
  { left, results := s.results ++ [r], outcomes := s.outcomes ++ os }

/-- A call that opens a message is refused for its type, and while one is open. -/
def opening (s : Told) (t : UInt16) (accepted : Told) : Told :=
  if t > typeMask then
    s.record s.left (some (.error (.error (.packetBuilder (.messageTypeTooLarge t))))) []
  else if s.left = none then accepted
  else s.record s.left (some (.error (.error (.packetBuilder .messageAlreadyInProgress)))) []

/-- An `abort_message`, with what it returns if there is a message to abort. -/
def closing (s : Told) (r : Option (Res Unit)) : Told :=
  match s.left with
  | none => s.record none (some (.ok ())) []
  | some (t, true) => s.record none r [.failed (.packet (.missingMessageStart t))]
  | some (t, false) => s.record none r [.aborted t]

/-- A message is left open by a source that fails, by one that ends at the end of a packet, and when
the future is dropped. -/
def say (s : Told) : Saying → Told
  | .message t p => s.opening t (s.record none (some (.ok ())) [.got t p])
  | .stream t data none =>
    s.opening t <|
      if data ≠ [] ∧ maxPacketSize ∣ data.length then s.record (some (t, false)) (some (.ok ())) []
      else s.record none (some (.ok ())) [.got t data]
  | .stream t data (some e) =>
    s.opening t
      (s.record (some (t, data.length < maxPacketSize)) (some (.error (.error (.io e)))) [])
  | .dropped t sent => s.opening t (s.record (some (t, sent = [])) none [])
  | .finishing t data => s.opening t (s.record none none [.got t data])
  | .abort => s.closing (some (.ok ()))
  | .aborting => s.closing none

end Told

/-- What a call says. -/
inductive TxCall.Says (R : Source ρ) : TxCall ρ → Saying → Prop
  | message (t : UInt16) (p : Bytes) : Says R (.sendMessage t p) (.message t p)
  | stream {t : UInt16} {reader : ρ} {turns : Nat} {data : Bytes} {fin : Option IoError}
      (h : R.Delivers reader data fin) : Says R (.sendReader t reader turns) (.stream t data fin)
  /-- the packets sent before the future was dropped are full; it was not polled to the end -/
  | dropped {t : UInt16} {reader : ρ} {turns : Nat} {data sent : Bytes} {fin : Option IoError}
      (h : R.Delivers reader data fin) (hsent : sent <+: data) (hfull : maxPacketSize ∣ sent.length)
      (hturns : turns ≤ data.length) : Says R (.sendReader t reader turns) (.dropped t sent)
  | abort : Says R .abortMessage .abort

end Snowpack
