import Snowpack.Lib.Run
import Snowpack.Pool.Link

/-!
# The pool of connections (`ConnectionPool` in `src/pool.rs`)

A pool has one link for each target it was asked for. `peer` looks the target up, or makes a
connector and a link, under a mutex that is not held across an await: a call is one step. A link is
known by its place in `links`, which is what the clones of its `Arc` share. After that the links run
on their own, each with the parties that use it.

Every transport carries the details that its handshake returned (`Transport.peer`). No step looks at
them; whoever borrows the halves changes the halves only.

`made` records the calls of `make_connector` and `returned` what `peer` returned for which target.
-/

namespace Snowpack

variable {τ : Type}

/-- The halves of a connection and what their handshake returned; halves that no handshake made have
nothing there. -/
structure Transport (τ : Type) where
  halves : τ
  peer : Option AuthDetails
  deriving DecidableEq, Repr

/-- The transport in the state after its halves were used. -/
def LinkState.used (s : LinkState (Transport τ)) (halves : τ) : Transport τ :=
  match s with
  | .connected t => { t with halves }
  | .reconnecting => { halves, peer := none }

/-- An event of a link in the state `s`, with transports for halves. -/
def PartyAct.transports (s : LinkState (Transport τ)) : PartyAct τ → PartyAct (Transport τ)
  | .attempt r => .attempt (r.map fun (halves, d) => ({ halves, peer := some d }, d))
  | .transport halves => .transport (s.used halves)
  | .lock => .lock
  | .timer => .timer
  | .run => .run
  | .commit => .commit
  | .drop => .drop
  | .cancel => .cancel

/-- A link and the node it leads to. -/
structure PeerLink (τ : Type) where
  target : NodeId
  link : Link (Transport τ)

namespace PeerLink

/-- A link that is about to connect. -/
def new (target : NodeId) : PeerLink τ := { target, link := .new }

/-- A step of the link, whose tasks check for its target. -/
def step (l : PeerLink τ) (a : LinkAct (Transport τ)) : PeerLink τ :=
  { l with link := l.link.step l.target a }

end PeerLink

/-- A handle on a link. -/
structure Connection where
  link : Nat
  deriving DecidableEq, Repr

/-- The table of the pool and its links, with the nodes links were made for and the results of
`peer`. -/
structure ConnectionPool (τ : Type) where
  peers : List (NodeId × Nat)
  links : List (PeerLink τ)
  made : List NodeId
  returned : List (NodeId × Connection)

/-- A call on the pool or on one of its connections, or a step of a party. -/
inductive PoolAct (τ : Type)
  | peer (target : NodeId)
  /-- `acquire` on the connection that call `c` of `peer` returned -/
  | acquire (c : Nat)
  | waitConnected (c : Nat)
  /-- party `i` of link `n` -/
  | party (n i : Nat) (a : PartyAct τ)
  deriving Repr

namespace ConnectionPool

/-- A pool without links. -/
def new : ConnectionPool τ := { peers := [], links := [], made := [], returned := [] }

/-- `entry(target).or_insert_with(..)`. -/
def peer (p : ConnectionPool τ) (target : NodeId) : Connection × ConnectionPool τ :=
  match p.peers.lookup target with
  | some n => (⟨n⟩, p)
  | none =>
    (⟨p.links.length⟩, { p with
      peers := (target, p.links.length) :: p.peers
      links := p.links ++ [.new target]
      made := p.made ++ [target] })

/-- A step of link `n`. -/
def onLink (p : ConnectionPool τ) (n : Nat) (a : PeerLink τ → LinkAct (Transport τ)) :
    ConnectionPool τ :=
  match p.links[n]? with
  | none => p
  | some l => { p with links := p.links.set n (l.step (a l)) }

/-- A call on the connection that call `c` of `peer` returned. -/
def through (p : ConnectionPool τ) (c : Nat) (a : LinkAct (Transport τ)) : ConnectionPool τ :=
  match p.returned[c]? with
  | none => p
  | some (_, conn) => p.onLink conn.link fun _ => a

/-- What an action does. -/
def step (p : ConnectionPool τ) : PoolAct τ → ConnectionPool τ
  | .peer target =>
    let (conn, p) := p.peer target
    { p with returned := p.returned ++ [(target, conn)] }
  | .acquire c => p.through c .acquire
  | .waitConnected c => p.through c .waitConnected
  | .party n i a => p.onLink n fun l => .party i (a.transports l.link.resource)

end ConnectionPool

end Snowpack
