import Snowpack.Auth.Header
import Snowpack.Lib.Lock
import Snowpack.Transport.Packets

/-!
# The link to a peer (`PeerLink`, `Connection` and `Guard` in `src/pool.rs`)

A link is a `LinkState` behind an async mutex. Its parties are the futures that use it: reconnect
tasks, calls of `acquire` with the `Guard` they return, and calls of `wait_connected`. All clones of
a `Connection` share the link, so it does not matter which of them makes a call. The steps of a
party are those between which others can run: it waits for an attempt, a timer, the mutex or a
notification, or it runs on by itself (`run`).

The mutex may be given to any party that waits for it. A call that is cancelled after the mutex was
given to it, and before it runs, gives it back.

The transport halves of a connection are a type `τ`. What `connector.connect` and the handshake on
its stream return is an input.
-/

namespace Snowpack

open Wire

/-- `Connected { tx, rx }` or `Reconnecting`. -/
inductive LinkState (τ : Type)
  | connected (t : τ)
  | reconnecting
  deriving DecidableEq, Repr

/-- There is no connection. -/
structure NotReady where
  deriving DecidableEq, Repr

/-- The first pause between two attempts, in milliseconds. -/
def firstBackoff : Nat := 50

/-- The longest pause, in milliseconds. -/
def maxBackoff : Nat := 30000

/-! ## Where a party is -/

/-- In `reconnect_task`. -/
inductive TaskPc (τ : Type)
  | connecting (backoff : Nat)
  | sleeping (backoff : Nat)
  /-- connected, waiting for the mutex -/
  | locking (t : τ)
  | publishing (t : τ)
  | notifying
  /-- about to return, which drops the mutex guard -/
  | leaving
  | exited
  deriving DecidableEq, Repr

/-- In `acquire`, and then in the life of its `Guard`. -/
inductive AcquirePc
  | locking
  | matching
  | notReady (e : NotReady)
  | guard (committed : Bool)
  /-- in `drop`: the state is reset, the task not spawned -/
  | spawning
  /-- at the end of `drop`: the mutex guard is the field to be dropped -/
  | releasing
  /-- the `unreachable!` of `transport` was executed -/
  | panicked
  | gone
  deriving DecidableEq, Repr

/-- In `wait_connected`; `signalled` belongs to the `Notified` of the current turn of its loop. -/
inductive WaitPc
  | locking (signalled : Bool)
  | checking (signalled : Bool)
  | parked (signalled : Bool)
  | returned (r : Except NotReady Unit)
  | gone
  deriving DecidableEq, Repr

/-- A task or a call, and where it is. -/
inductive Party (τ : Type)
  | task (pc : TaskPc τ)
  | acquire (pc : AcquirePc)
  | wait (pc : WaitPc)
  deriving DecidableEq, Repr

/-- What a party can be waiting for. -/
inductive PartyAct (τ : Type)
  /-- `connect` on the connector and the handshake return -/
  | attempt (r : Except ConnectionError (τ × AuthDetails))
  /-- the mutex is given to the party -/
  | lock
  /-- a sleep or a timeout is over -/
  | timer
  /-- the party goes on by itself -/
  | run
  /-- `Guard::transport`, and what the caller leaves of the halves it borrows -/
  | transport (t : τ)
  | commit
  | drop
  | cancel
  deriving Repr

/-- A move of a party of a link. -/
abbrev LinkMove (τ : Type) := Lock.Move (Party τ) (LinkState τ)

variable {τ : Type}

/-! ## Reconnecting -/

/-- An attempt succeeds if the handshake does and the other side is the target. -/
def tryConnect (target : NodeId) (r : Except ConnectionError (τ × AuthDetails)) :
    Except ConnectionError τ :=
  match r with
  | .error e => .error e
  | .ok (t, authDetails) =>
    match authDetails.checkNodeId target with
    | .error e => .error (.badAuth e)
    | .ok () => .ok t

/-- A `reconnect_task` that was just spawned. -/
def Party.reconnectTask : Party τ := .task (.connecting firstBackoff)

/-- `notify_waiters`: every `Notified` that exists is signalled, polled or not. -/
def Party.notified : Party τ → Party τ
  | .wait (.locking _) => .wait (.locking true)
  | .wait (.checking _) => .wait (.checking true)
  | .wait (.parked _) => .wait (.parked true)
  | p => p

/-- The body of `reconnect_task`, from one await to the next. -/
def TaskPc.step (target : NodeId) (s : LinkState τ) (free : Bool) :
    TaskPc τ → PartyAct τ → Option (LinkMove τ)
  | .connecting backoff, .attempt r =>
    match tryConnect target r with
    | .ok t => some { party := .task (.locking t), resource := s }
    | .error _ => some { party := .task (.sleeping backoff), resource := s }
  | .sleeping backoff, .timer =>
    some { party := .task (.connecting (min (backoff * 2) maxBackoff)), resource := s }
  | .locking t, .lock =>
    if free then some { party := .task (.publishing t), resource := s, claim := .take } else none
  | .publishing t, .run => some { party := .task .notifying, resource := .connected t }
  | .notifying, .run =>
    some { party := .task .leaving, resource := s, tell := Party.notified }
  | .leaving, .run => some { party := .task .exited, resource := s, claim := .release }
  | _, _ => none

/-! ## `Connection` and `Guard` -/

/-- The body of `acquire`, then the calls of its caller on the `Guard`, and `drop`. -/
def AcquirePc.step (s : LinkState τ) (free : Bool) :
    AcquirePc → PartyAct τ → Option (LinkMove τ)
  | .locking, .lock =>
    if free then some { party := .acquire .matching, resource := s, claim := .take } else none
  | .locking, .cancel => some { party := .acquire .gone, resource := s }
  | .matching, .cancel => some { party := .acquire .gone, resource := s, claim := .release }
  | .matching, .run =>
    match s with
    | .connected _ => some { party := .acquire (.guard false), resource := s }
    | .reconnecting =>
      some { party := .acquire (.notReady ⟨⟩), resource := s, claim := .release }
  | .guard false, .transport t =>
    match s with
    | .connected _ => some { party := .acquire (.guard false), resource := .connected t }
    | .reconnecting => some { party := .acquire .panicked, resource := s }
  | .guard false, .commit => some { party := .acquire (.guard true), resource := s }
  | .guard committed, .drop =>
    if !committed then some { party := .acquire .spawning, resource := .reconnecting }
    else some { party := .acquire .releasing, resource := s }
  | .spawning, .run =>
    some { party := .acquire .releasing, resource := s, spawned := [.reconnectTask] }
  | .releasing, .run => some { party := .acquire .gone, resource := s, claim := .release }
  | _, _ => none

/-- The body of `wait_connected`. -/
def WaitPc.step (s : LinkState τ) (free : Bool) : WaitPc → PartyAct τ → Option (LinkMove τ)
  | .locking signalled, .lock =>
    if free then some { party := .wait (.checking signalled), resource := s, claim := .take }
    else none
  | .locking _, .cancel => some { party := .wait .gone, resource := s }
  | .checking _, .cancel => some { party := .wait .gone, resource := s, claim := .release }
  | .checking signalled, .run =>
    match s with
    | .connected _ => some { party := .wait (.returned (.ok ())), resource := s, claim := .release }
    | .reconnecting => some { party := .wait (.parked signalled), resource := s, claim := .release }
  -- `timeout` polls the notification first: it expires only if there is none
  | .parked true, .run => some { party := .wait (.locking false), resource := s }
  | .parked false, .timer => some { party := .wait (.returned (.error ⟨⟩)), resource := s }
  | .parked _, .cancel => some { party := .wait .gone, resource := s }
  | _, _ => none

/-- What a party does at an event. -/
def Party.step (target : NodeId) : Lock.Program (Party τ) (LinkState τ) (PartyAct τ)
  | s, free, .task pc, a => pc.step target s free a
  | s, free, .acquire pc, a => pc.step s free a
  | s, free, .wait pc, a => pc.step s free a

/-! ## The link -/

/-- A link: its state behind a mutex, and the tasks and calls that use it. -/
abbrev Link (τ : Type) := Lock.Shared (Party τ) (LinkState τ)

/-- A new call, or an event of a party. -/
inductive LinkAct (τ : Type)
  | acquire
  | waitConnected
  | party (i : Nat) (a : PartyAct τ)
  deriving Repr

namespace Link

/-- `PeerLink::new`: not connected, with a task that connects. -/
def new : Link τ := { resource := .reconnecting, owner := none, parties := [.reconnectTask] }

/-- What an action does. -/
def step (target : NodeId) (l : Link τ) : LinkAct τ → Link τ
  | .acquire => l.join (.acquire .locking)
  | .waitConnected => l.join (.wait (.locking false))
  | .party i a => l.act (Party.step target) i a

end Link

end Snowpack
