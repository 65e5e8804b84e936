import Snowpack.Transport.Bytewise
import Snowpack.Transport.Talk

/-!
# Two parties on hostile streams

The parties make any calls of their `MessageTx`, as in `Talk`, and receive in a loop that reads byte
by byte, as in `Bytewise`. An adversary owns the streams between them, and what arrives are bytes of
its choice.

A party may also drop a future it waits for and call again, as in a `select!`: `read_message`, or
`next` of the packets of a message. The future may have taken some bytes of a frame, and these are
lost. (`read_bytes` consumes its message, so there is nothing to call again.)

A call that sends may be dropped too, while it waits for its source or while it writes a packet. The
packet has then been built and encrypted, and an unknown part of it is written. What the stream to
the other party brings is up to the adversary, so `written` counts all that was encrypted.
-/

namespace Snowpack

open Wire

variable {σ ρ : Type}

/-! ## Calls that are dropped while they write -/

section
variable (T : TransportOps σ) (R : Source ρ)

/-- The loop of `send_slice`, up to the packet in whose `write_all` it is dropped. -/
def PacketTx.sendFirst : Nat → PacketTx → σ → List Bytes → Res Unit × PacketTx × σ
  | 0, tx, s, _ => (.ok (), tx, s)
  | _ + 1, tx, s, [] => (.ok (), tx, s)
  | n + 1, tx, s, chunk :: rest =>
    match tx.sendPacket T s chunk rest.isEmpty with
    | (.error e, tx, s) => (.error e, tx, s)
    | (.ok (), tx, s) => sendFirst n tx s rest

/-- What a future that is dropped in a write leaves behind; an error was returned before. -/
def Outbox.abandon (o : Outbox σ) : Res Unit × PacketTx × σ → Outbox σ
  | (.error f, p, s) => o.record (some (.error f)) { packets := p } s
  | (.ok (), p, s) => o.record none { packets := p } s

/-- A call that is dropped while it writes: a `send_message` in the packet behind its first `k`, a
`send_reader` in the packet it sends next or last, and an `abort_message` in the only one it has. -/
def Outbox.cut (k : Nat) (o : Outbox σ) : TxCall ρ → Outbox σ
  | .sendMessage t payload =>
    match o.tx.packets.prepareMessage t with
    | (.error e, p) => o.record (some (.error e)) { packets := p } o.cipher
    | (.ok (), p) => o.abandon (p.sendFirst T (k + 1) o.cipher (slices payload))
  | .sendReader t reader turns =>
    match o.tx.packets.prepareMessage t with
    | (.error e, p) => o.record (some (.error e)) { packets := p } o.cipher
    | (.ok (), p) =>
      match p.sendReader T R turns o.cipher reader with
      | .inl st =>
        if maxPacketSize - st.filled = 0 then o.abandon (st.sendFilled T false)
        -- it waits for the source
        else o.record none { packets := st.tx } st.cipher
      | .inr (r, p, s, _) => o.abandon (r, p, s)
  | .abortMessage =>
    match o.tx.packets.packetBuilder.abort with
    -- nothing to write: it has returned
    | (none, _) => o.call T R .abortMessage
    | (some _, _) => o.abandon (o.tx.packets.abortMessage T o.cipher)

/-- The next call is made, and dropped while it writes. -/
def Talker.cut (k : Nat) (e : Talker σ ρ) : Talker σ ρ :=
  match e.todo with
  | [] => e
  | c :: todo =>
    let o := e.outbox.cut T R k c
    { todo, tx := o.tx, results := o.results, receiver := { e.receiver with cipher := o.cipher } }

end

/-- What a call may say that is dropped while it writes. -/
inductive TxCall.Cut (R : Source ρ) : TxCall ρ → Saying → Prop
  | message (t : UInt16) (p : Bytes) : Cut R (.sendMessage t p) (.finishing t p)
  | part {t : UInt16} {p sent : Bytes} (hsent : sent <+: p) (hne : sent ≠ [])
      (hfull : maxPacketSize ∣ sent.length) : Cut R (.sendMessage t p) (.dropped t sent)
  | stream {t : UInt16} {reader : ρ} {turns : Nat} {data : Bytes}
      (h : R.Delivers reader data none) : Cut R (.sendReader t reader turns) (.finishing t data)
  | dropped {t : UInt16} {reader : ρ} {turns : Nat} {data sent : Bytes} {fin : Option IoError}
      (h : R.Delivers reader data fin) (hsent : sent <+: data)
      (hfull : maxPacketSize ∣ sent.length) :
      Cut R (.sendReader t reader turns) (.dropped t sent)
  /-- the source failed before -/
  | failed {t : UInt16} {reader : ρ} {turns : Nat} {data : Bytes} {e : IoError}
      (h : R.Delivers reader data (some e)) :
      Cut R (.sendReader t reader turns) (.stream t data (some e))
  | abort : Cut R .abortMessage .aborting

/-- What a call may say that is dropped or not. -/
def TxCall.MaySay (R : Source ρ) (c : TxCall ρ) (saying : Saying) : Prop :=
  c.Says R saying ∨ c.Cut R saying

/-! ## Two parties -/

/-- Two parties and the streams of an adversary. -/
structure Hostile (σ ρ : Type) where
  at_ : Side → Talker σ ρ
  /-- the `read_frame` that the loop of a party is suspended in -/
  frame : Side → FrameRead

/-- A step of the parties or of the adversary. -/
inductive HostileAct
  /-- the next call of `x` -/
  | call (x : Side)
  /-- the next call of `x`, which is dropped while it writes -/
  | cut (x : Side) (k : Nat)
  /-- a turn of a receiving loop, or a read of up to `n` bytes in it -/
  | recv (x : Side) (drain : Bool) (n : Nat)
  /-- `x` drops the future it waits for -/
  | cancel (x : Side)
  /-- the adversary lets bytes of its choice arrive at `x` -/
  | inject (x : Side) (bytes : Bytes)
  /-- the adversary ends the stream to `x` -/
  | close (x : Side)
  deriving DecidableEq, Repr

/-- The future of the next call can be dropped without the handle. -/
def Handle.keeps : Handle → Bool
  | .free | .packets _ _ => true
  | _ => false

namespace Hostile

variable (T : TransportOps σ) (R : Source ρ)

/-- One party is another now, and its loop is elsewhere in a frame. -/
def set (d : Hostile σ ρ) (x : Side) (e : Talker σ ρ) (f : FrameRead) : Hostile σ ρ where
  at_ := Function.update d.at_ x e
  frame := Function.update d.frame x f

/-- All that `x` has encrypted. -/
def written (d : Hostile σ ρ) (x : Side) : Bytes := StreamEnd.written (d.at_ x)

/-- The loop of a party. -/
def reading (d : Hostile σ ρ) (x : Side) : Reading σ :=
  { receiver := (d.at_ x).receiver, frame := d.frame x }

/-- The loop of a party has moved. -/
def setReading (d : Hostile σ ρ) (x : Side) (p : Reading σ) : Hostile σ ρ :=
  d.set x { d.at_ x with receiver := p.receiver } p.frame

/-- What an action does. -/
def step (d : Hostile σ ρ) : HostileAct → Hostile σ ρ
  | .call x => d.set x ((d.at_ x).call T R) (d.frame x)
  | .cut x k => d.set x ((d.at_ x).cut T R k) (d.frame x)
  | .recv x drain n => d.setReading x ((d.reading x).turn T drain n)
  | .cancel x =>
    if (d.at_ x).receiver.handle.keeps then d.setReading x (.new (d.at_ x).receiver) else d
  | .inject x bytes =>
    d.setReading x { d.reading x with receiver := (d.at_ x).receiver.act T (.arrive bytes) }
  | .close x => d.setReading x { d.reading x with receiver := (d.at_ x).receiver.act T .close }

end Hostile

end Snowpack
