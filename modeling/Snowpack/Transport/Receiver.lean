import Snowpack.Transport.Messages

/-!
# A program that receives

`Receiver` is a `MessageRx` with the handle its owner holds at the moment. `RxCall` is the calls
the borrows allow, in whatever order the owner makes them: a new message is read only when no
handle is alive, a `Message` is dropped, read or turned into packets, the packets are iterated any
number of times and dropped. A call that has to wait for bytes leaves everything as it was and is
made again. `RxAct` adds what happens around the owner: bytes arrive, the stream ends, and the
sending half moves the cipher state.

`accepted` and `events` record the run: every packet that `read_packet` accepted with its payload,
and what the calls returned.
-/

namespace Snowpack

open Wire

/-- A packet as the reader sees it: header and payload. -/
abbrev Packet := PacketHeader × Bytes

/-- What the owner holds: nothing, a `Message`, one whose `read_bytes` is running, its packets, or
nothing any more after a panic. -/
inductive Handle
  | free
  | message (m : Message)
  | reading (m : Message)
  | packets (m : Message) (mp : MessagePackets)
  | dead
  deriving DecidableEq, Repr

/-- A call of the owner; `poll` is the next turn of a `read_bytes` that waits. -/
inductive RxCall
  | readMessage
  | dropHandle
  | readBytes
  | poll
  | intoPackets
  | next
  deriving DecidableEq, Repr

/-- A call, or what happens around the owner. -/
inductive RxAct (σ : Type)
  | call (c : RxCall)
  | arrive (bytes : Bytes)
  | close
  | cipher (s : σ)

/-- What a call returned. -/
inductive RxEvent
  | opened (header : PacketHeader)
  | bytes (msgType : UInt16) (payload : Bytes)
  | chunk (payload : Option Bytes)
  | failed (e : ConnectionError)
  | panicked (p : PanicSite)
  deriving DecidableEq, Repr

/-- A `MessageRx` with the cipher state it shares, the handle on it and the record of the run. -/
structure Receiver (σ : Type) where
  rx : MessageRx
  cipher : σ
  handle : Handle
  accepted : List Packet
  events : List RxEvent

section
variable {σ : Type} (T : TransportOps σ)

/-- The packet the next `read_packet` accepts, if it accepts one. -/
def PacketRx.accepts (rx : PacketRx) (s : σ) : List Packet :=
  match rx.readPacket T s with
  | .ready (.ok header, p, _) => [(header, (p.plaintextBuf.take p.payloadEnd).drop 2)]
  | _ => []

namespace Receiver

/-- Before the first call. -/
def new (rx : MessageRx) (s : σ) : Receiver σ :=
  { rx, cipher := s, handle := .free, accepted := [], events := [] }

/-- A call failed: the owner is left with `after`, or with nothing after a panic. -/
def fault (r : Receiver σ) (f : Fault) (after : Handle) : Receiver σ :=
  match f with
  | .error e => { r with handle := after, events := r.events ++ [.failed e] }
  | .panic p => { r with handle := .dead, events := r.events ++ [.panicked p] }

/-- `read_bytes` through `m` has come this far. -/
def progress (r : Receiver σ) (m : Message) : Option (Res Bytes) → Receiver σ
  | none => { r with handle := .reading m }
  | some (.ok b) => { r with handle := .free, events := r.events ++ [.bytes m.msgType b] }
  | some (.error f) => r.fault f .free

/-- A `next` call through `m` returned. -/
def yielded (r : Receiver σ) (m : Message) (mp : MessagePackets) : Res (Option Bytes) → Receiver σ
  | .ok p => { r with handle := .packets m mp, events := r.events ++ [.chunk p] }
  | .error f => r.fault f (.packets m mp)

/-- The receiver after a call that read from the stream. -/
def advance (r : Receiver σ) (rx : MessageRx) (s : σ) : Receiver σ :=
  { r with rx, cipher := s, accepted := r.accepted ++ r.rx.packets.accepts T r.cipher }

/-- `read_message`. -/
def readMessage (r : Receiver σ) : Receiver σ :=
  match r.rx.readMessage T r.cipher with
  | .pending => r
  | .ready (.error f, rx, s) => (r.advance T rx s).fault f .free
  | .ready (.ok m, rx, s) =>
    let r := r.advance T rx s
    { r with handle := .message m, events := r.events ++ [.opened m.firstHeader] }

/-- `read_bytes`, up to its first read. -/
def readBytes (r : Receiver σ) (m : Message) : Receiver σ :=
  match m.readBytes r.rx with
  | (res, rx) => { r with rx }.progress m res

/-- One turn of `read_bytes`. -/
def poll (r : Receiver σ) (m : Message) : Receiver σ :=
  match r.rx.bodyTurn T r.cipher with
  | .pending => r
  | .ready (res, rx, s) => (r.advance T rx s).progress m res

/-- `next`; only a call past the buffered packet reads from the stream. -/
def next (r : Receiver σ) (m : Message) (mp : MessagePackets) : Receiver σ :=
  match mp.next T r.rx r.cipher with
  | .pending => r
  | .ready (res, mp', rx, s) =>
    let r := if mp.done ∨ mp.firstKind.isSome then r else r.advance T rx s
    r.yielded m mp' res

/-- A call, where the handle allows it. -/
def call (r : Receiver σ) (c : RxCall) : Receiver σ :=
  match c, r.handle with
  | .readMessage, .free => r.readMessage T
  | .dropHandle, .message _ => { r with handle := .free }
  | .dropHandle, .packets _ _ => { r with handle := .free }
  | .readBytes, .message m => r.readBytes m
  | .poll, .reading m => r.poll T m
  | .intoPackets, .message m => { r with handle := .packets m m.intoPackets }
  | .next, .packets m mp => r.next T m mp
  | _, _ => r

/-- More bytes are there to be read. -/
def arrive (r : Receiver σ) (bytes : Bytes) : Receiver σ :=
  { r with rx.packets.read.buf := r.rx.packets.read.buf ++ bytes }

@[simp] theorem arrive_nil (r : Receiver σ) : r.arrive [] = r := by
  rw [arrive, List.append_nil]

/-- A call of the owner, or what happens around it. -/
def act (r : Receiver σ) : RxAct σ → Receiver σ
  | .call c => r.call T c
  | .arrive bytes => r.arrive bytes
  | .close => { r with rx.packets.read.eof := true }
  | .cipher s => { r with cipher := s }

end Receiver

end

end Snowpack
