import Snowpack.Transport.Receiver

/-!
# A program that receives in a loop

The owner that reads every message to its end: `read_message`, then `read_bytes`, or `into_packets`
and `next` until it returns `None` or an error. `loopCall` is its next call; which of the two ways
it takes is chosen anew for each message. `observe` is what it has seen: the messages it got and
the ones that ended in an error.
-/

namespace Snowpack

open Wire

/-- What the owner of a receiver makes of a message. -/
inductive Outcome
  | got (msgType : UInt16) (payload : Bytes)
  | aborted (msgType : UInt16)
  | failed (e : ConnectionError)
  | panicked
  deriving DecidableEq, Repr

/-- The outcomes so far, and the type and the chunks of the message being read. -/
structure Observed where
  outcomes : List Outcome
  reading : Option (UInt16 × Bytes)
  deriving DecidableEq, Repr

namespace Observed

/-- A message is over. -/
def add (o : Observed) (x : Outcome) : Observed := ⟨o.outcomes ++ [x], none⟩

/-- What an event adds to it. -/
def event (o : Observed) : RxEvent → Observed
  | .opened h => { o with reading := some (h.msgType, []) }
  | .bytes t b => o.add (.got t b)
  | .chunk (some b) => { o with reading := o.reading.map fun x => (x.1, x.2 ++ b) }
  | .chunk none =>
    match o.reading with
    | some (t, b) => o.add (.got t b)
    | none => o
  | .failed e =>
    match o.reading, e with
    | some (t, _), .messageAborted => o.add (.aborted t)
    | _, _ => o.add (.failed e)
  | .panicked _ => o.add .panicked

end Observed

/-- What is seen of the events of a receiver. -/
def observe (events : List RxEvent) : Observed := events.foldl Observed.event ⟨[], none⟩

@[simp] theorem observe_append (es : List RxEvent) (e : RxEvent) :
    observe (es ++ [e]) = (observe es).event e := by
  simp only [observe, List.foldl_append, List.foldl_cons, List.foldl_nil]

namespace Receiver

variable {σ : Type}

/-- The iteration has returned `None` or an error. -/
def iterated (r : Receiver σ) : Bool :=
  match r.events.getLast? with
  | some (.chunk none) => true
  | some (.failed _) => true
  | _ => false

/-- The next call of the loop; `drain` is the way taken when a message has just been opened. -/
def loopCall (r : Receiver σ) (drain : Bool) : RxCall :=
  match r.handle with
  | .free => .readMessage
  | .message _ => if drain then .intoPackets else .readBytes
  | .reading _ => .poll
  | .packets _ _ => if r.iterated then .dropHandle else .next
  | .dead => .dropHandle

/-- One turn of the loop. -/
def loop (T : TransportOps σ) (r : Receiver σ) (drain : Bool) : Receiver σ :=
  r.call T (r.loopCall drain)

end Receiver

end Snowpack
