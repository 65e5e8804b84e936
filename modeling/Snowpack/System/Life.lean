import Snowpack.Handshake.Pair

/-!
# The life of a connection (`accept` and `connect` in `src/lib.rs`)

Two nodes shake hands over one stream and then exchange messages over it. A side has nothing but
its handshake until that returns; the halves it returns are then used at once, whatever the other
side is doing: the initiator may have sent messages, and they may have arrived, before the
responder has read the last message of the handshake. A side whose handshake fails drops its
stream.

`Life` is the two sides, each with the calls it makes once it has a connection, and a schedule
that interleaves everything: handshakes, sends, receiving loops, and bytes that arrive in pieces of
any size.
-/

namespace Snowpack

open Wire

variable {η σ : Type} {E : Ed25519}

/-- What `snowpack::accept` and `snowpack::connect` make of the halves their namesakes in
`src/packets.rs` return. -/
def connection (a : Accepted σ) : (MessageTx × MessageRx) × AuthDetails :=
  ((MessageTx.new a.1.tx, MessageRx.new a.1.rx), a.2)

/-- A side with a connection, about to make the calls `ops` and to receive. -/
def Endpoint.opened (a : Accepted σ) (ops : List TxOp) : Endpoint σ where
  sender := .new (connection a).1.1.packets ops
  receiver := .new (connection a).1.2 a.1.state

/-- A side of a connection. -/
inductive Peer (η σ : Type) (E : Ed25519)
  /-- in the handshake, or left with the error it returned -/
  | shaking (s : Session η σ E)
  | connected (details : AuthDetails) (e : Endpoint σ)

namespace Peer

/-- A handshake that returned a connection hands it over. -/
def settle (ops : List TxOp) (s : Session η σ E) : Peer η σ E :=
  match s.stage.result with
  | some (.ok a) => .connected (connection a).2 (.opened a ops)
  | _ => .shaking s

/-- All that a side has written. -/
def written : Peer η σ E → Bytes
  | shaking s => s.stage.context.write.written
  | connected _ e => e.sender.tx.write.written

/-- The handshake has failed, and the stream went with it. -/
def dropped : Peer η σ E → Bool
  | shaking s =>
    match s.stage.result with
    | some (.error _) => true
    | _ => false
  | connected _ _ => false

/-- A change of the stream a side reads from; nobody reads from a stream that was dropped. -/
def onRead (f : ReadHalf → ReadHalf) : Peer η σ E → Peer η σ E
  | shaking s => .shaking (s.onStream fun hs => { hs with read := f hs.read })
  | connected d e => .connected d { e with
      receiver := { e.receiver with rx.packets.read := f e.receiver.rx.packets.read } }

/-- What the receiving loop of a side has seen. -/
def seen : Peer η σ E → Observed
  | shaking _ => ⟨[], none⟩
  | connected _ e => observe e.receiver.events

end Peer

instance {η σ : Type} {E : Ed25519} : StreamEnd (Peer η σ E) where
  written := Peer.written
  arrive p bytes := p.onRead fun read => { read with buf := read.buf ++ bytes }
  written_arrive p _ := by
    cases p with
    | shaking s => exact congrArg WriteHalf.written (s.onStream_write _ fun _ => rfl)
    | connected d e => rfl
  arrive_nil p := by
    cases p with
    | shaking s => exact congrArg Peer.shaking s.arrive_nil
    | connected d e => exact congrArg (Peer.connected d) (StreamEnd.arrive_nil e)

/-- A step of two nodes. -/
inductive LifeAct
  /-- a handshake is polled -/
  | poll (x : Side)
  | send (x : Side)
  | recv (x : Side) (drain : Bool)
  | deliver (x : Side) (n : Nat)
  | hangUp (x : Side)
  deriving DecidableEq, Repr

/-- Two nodes at the ends of a stream. -/
abbrev Life (η σ : Type) (E : Ed25519) := Ends (Peer η σ E)

namespace Life

variable (H : HandshakeOps η σ) (T : TransportOps σ) (Y : Yatlv)

/-- The sides of a handshake, each with its calls to make. -/
def ofPair (ops : Side → List TxOp) (p : Pair η σ E) : Life η σ E :=
  p.map (fun x => .settle (ops x)) fun _ n => n

/-- Two nodes at the ends of a new stream. -/
def start (ops : Side → List TxOp) (i r : Node E) : Except ConnectionError (Life η σ E) :=
  (Pair.start H i r).map (ofPair ops)

/-- What the receiving loop of `x` has seen. -/
def seen (l : Life η σ E) (x : Side) : Observed := (l.at_ x).seen

/-- What an action does. -/
def step (ops : Side → List TxOp) (l : Life η σ E) : LifeAct → Life η σ E
  | .poll x =>
    match l.at_ x with
    | .shaking s => l.set x (.settle (ops x) (s.poll H Y))
    | .connected _ _ => l
  | .send x =>
    match l.at_ x with
    | .shaking _ => l
    | .connected d e =>
      match e.sender.step T e.receiver.cipher with
      | (sender, s) => l.set x (.connected d ⟨sender, { e.receiver with cipher := s }⟩)
  | .recv x drain =>
    match l.at_ x with
    | .shaking _ => l
    | .connected d e => l.set x (.connected d { e with receiver := e.receiver.loop T drain })
  | .deliver x n => l.deliver x n
  | .hangUp x =>
    if (l.at_ x).dropped ∧ l.inFlight x = [] then
      l.set x.other ((l.at_ x.other).onRead fun read => { read with eof := true })
    else l

end Life

end Snowpack
