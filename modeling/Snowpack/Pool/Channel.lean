import Snowpack.Pool.Connections

/-!
# What a pooled connection is for

Above its mutex, its tasks and its notifications a link is a channel that one exchange at a time may
use. It is down until a connection is installed. An exchange is begun with the pair as it was
installed, or as the last exchange that was committed has left it; what it finds at each use is what
it left at the use before. It ends with a commit, and the pair stays for the next exchange, or with
a reset, and the channel is down again. `Channel.Step` is that specification, and knows of nothing
else.

`Link.events` are what a step of a link shows of this: what `acquire` and `wait_connected` return,
what `transport` gives out and gets back, and the fate of the guards.
-/

namespace Snowpack

variable {τ : Type}

/-! ## The specification -/

/-- What a link is for: a connection that one exchange has at a time. -/
inductive Channel (τ : Type)
  | down
  | idle (t : τ)
  /-- exchange `i` has it, and may have been committed -/
  | busy (i : Nat) (t : τ) (committed : Bool)
  deriving DecidableEq, Repr

/-- What can be seen of a link. -/
inductive ChannelEvent (τ : Type)
  | install (t : τ)
  /-- call `i` of `acquire` returns a guard -/
  | begin_ (i : Nat) (t : τ)
  | notReady (i : Nat)
  /-- call `i` of `wait_connected` returns `Ok` -/
  | ready (i : Nat)
  /-- what `transport` gives out, and what its caller leaves -/
  | use (i : Nat) (found left : τ)
  | commit (i : Nat) (t : τ)
  | release (i : Nat)
  | reset (i : Nat)
  deriving DecidableEq, Repr

/-- When an event can be seen, and what the channel is behind it. -/
inductive Channel.Step : Channel τ → ChannelEvent τ → Channel τ → Prop
  | install (t : τ) : Step .down (.install t) (.idle t)
  | begin_ (i : Nat) (t : τ) : Step (.idle t) (.begin_ i t) (.busy i t false)
  | notReady (i : Nat) : Step .down (.notReady i) .down
  | ready (i : Nat) (t : τ) : Step (.idle t) (.ready i) (.idle t)
  | use (i : Nat) (t t' : τ) : Step (.busy i t false) (.use i t t') (.busy i t' false)
  | commit (i : Nat) (t : τ) : Step (.busy i t false) (.commit i t) (.busy i t true)
  | release (i : Nat) (t : τ) : Step (.busy i t true) (.release i) (.idle t)
  | reset (i : Nat) (t : τ) : Step (.busy i t false) (.reset i) .down

/-! ## The channel of a link -/

/-- The exchange a party has, and whether it is committed. -/
def Party.exchange : Party τ → Option Bool
  | .acquire (.guard committed) => some committed
  | .acquire .releasing => some true
  | _ => none

/-- The channel, from the state and who holds the guard. -/
def LinkState.channel (s : LinkState τ) (held : Option (Nat × Bool)) : Channel τ :=
  match s, held with
  | .reconnecting, _ => .down
  | .connected t, none => .idle t
  | .connected t, some (i, committed) => .busy i t committed

/-- What party `i` shows when it goes on. -/
def Party.event (i : Nat) (s : LinkState τ) : Party τ → PartyAct τ → List (ChannelEvent τ)
  | .task (.publishing t), .run => [.install t]
  | .acquire .matching, .run =>
    match s with
    | .connected t => [.begin_ i t]
    | .reconnecting => [.notReady i]
  | .acquire (.guard false), .transport left =>
    match s with
    | .connected found => [.use i found left]
    | .reconnecting => []
  | .acquire (.guard false), .commit =>
    match s with
    | .connected t => [.commit i t]
    | .reconnecting => []
  | .acquire (.guard false), .drop => [.reset i]
  | .acquire .releasing, .run =>
    match s with
    | .connected _ => [.release i]
    -- the mutex guard behind a reset
    | .reconnecting => []
  | .wait (.checking _), .run =>
    match s with
    | .connected _ => [.ready i]
    | .reconnecting => []
  | _, _ => []

namespace Link

/-- The channel that a link is. -/
def channel (l : Link τ) : Channel τ := l.resource.channel (l.shown Party.exchange)

/-- What a link shows in a step. -/
def events (l : Link τ) : LinkAct τ → List (ChannelEvent τ)
  | .party i a => Lock.Shared.events Party.event l i a
  | _ => []

end Link

/-! ## The channels of a pool -/

namespace ConnectionPool

/-- The channel of link `n`; a link that does not exist yet is down. -/
def channel (n : Nat) (p : ConnectionPool τ) : Channel (Transport τ) :=
  match p.links[n]? with
  | none => .down
  | some l => l.link.channel

/-- What a step of link `m` shows of link `n`. -/
def linkEvents (n : Nat) (p : ConnectionPool τ) (m : Nat)
    (a : PeerLink τ → LinkAct (Transport τ)) : List (ChannelEvent (Transport τ)) :=
  match p.links[m]? with
  | none => []
  | some l => if m = n then l.link.events (a l) else []

/-- What a step of the pool shows of link `n`. -/
def events (n : Nat) (p : ConnectionPool τ) : PoolAct τ → List (ChannelEvent (Transport τ))
  | .party m i a => p.linkEvents n m fun l => .party i (a.transports l.link.resource)
  | _ => []

end ConnectionPool

end Snowpack
