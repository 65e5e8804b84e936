import Snowpack.Lib.Run
import Snowpack.Pool.Link

/-!
# The history of a link

What has happened on a link so far, kept beside the link and never read by it: how many pairs
`(tx, rx)` were installed, which of them is in the state now, the guards that were handed out with
the pair each refers to, and when each call of `wait_connected` made the `Notified` of its current
turn. The pairs are numbered 1, 2, … in the order of their installation.

A history is written down by an observer that sees where the party that moves was before its move
and where it is afterwards (`Party.deed`).
-/

namespace Snowpack

variable {τ : Type}

/-- What the history keeps of a move. -/
inductive Deed
  /-- `wait_connected` created a `Notified` -/
  | registered
  /-- a reconnect task wrote `Connected` -/
  | installed
  /-- `acquire` returned a `Guard` -/
  | handedOut
  | committed
  /-- an uncommitted `Guard` was dropped: the pair is discarded -/
  | reset
  /-- the mutex guard of a `Guard` was dropped -/
  | released
  deriving DecidableEq, Repr

/-- What the history keeps of a party that went from one state to another. -/
def Party.deed : Party τ → Party τ → Option Deed
  | .wait (.parked _), .wait (.locking _) => some .registered
  | .task (.publishing _), .task .notifying => some .installed
  | .acquire .matching, .acquire (.guard _) => some .handedOut
  | .acquire (.guard false), .acquire (.guard true) => some .committed
  | .acquire (.guard _), .acquire .spawning => some .reset
  | .acquire .releasing, .acquire .gone => some .released
  | _, _ => none

/-- A `Guard` that was handed out. -/
structure Issued where
  /-- the call of `acquire` that returned it -/
  call : Nat
  /-- the pair in the state when it was handed out -/
  pair : Option Nat
  committed : Bool := false
  released : Bool := false
  deriving DecidableEq, Repr

/-- A guard is committed only before it is released. -/
def Issued.note (i : Nat) (d : Option Deed) (g : Issued) : Issued :=
  if g.call ≠ i then g
  else
    match d with
    | some .committed => if g.released then g else { g with committed := true }
    | some .released => { g with released := true }
    | _ => g

/-- The pairs and guards of a link so far. Pairs are numbered as they are installed. -/
structure History where
  installed : Nat
  /-- the pair in the state; `none` while it is `Reconnecting` -/
  current : Option Nat
  guards : List Issued
  /-- how many pairs had been installed when the call made its `Notified` -/
  registered : Nat → Nat

/-- Nothing was installed or handed out. -/
def History.new : History :=
  { installed := 0, current := none, guards := [], registered := fun _ => 0 }

/-- Party `i` did `d`. -/
def History.record (h : History) (i : Nat) (d : Option Deed) : History where
  installed := if d = some .installed then h.installed + 1 else h.installed
  current :=
    match d with
    | some .installed => some (h.installed + 1)
    | some .reset => none
    | _ => h.current
  guards := h.guards.map (·.note i d) ++
    if d = some .handedOut then [{ call := i, pair := h.current }] else []
  registered j := if d = some .registered ∧ j = i then h.installed else h.registered j

/-- A link with its history. -/
structure Chronicle (τ : Type) where
  link : Link τ
  history : History

namespace Chronicle

/-- A new link, with nothing to tell. -/
def new : Chronicle τ := ⟨.new, .new⟩

/-- The deed of a step, and the party that did it. -/
def observe (before after : Link τ) : LinkAct τ → Nat × Option Deed
  | .acquire => (before.parties.length, none)
  | .waitConnected => (before.parties.length, some .registered)
  | .party i _ =>
    match before.parties[i]?, after.parties[i]? with
    | some p, some p' => (i, p.deed p')
    | _, _ => (i, none)

/-- A step of the link, put on record. -/
def step (target : NodeId) (c : Chronicle τ) (a : LinkAct τ) : Chronicle τ :=
  let link := c.link.step target a
  let (i, d) := observe c.link link a
  ⟨link, c.history.record i d⟩

/-- The history does not touch the link. -/
theorem run_link (target : NodeId) (acts : List (LinkAct τ)) (c : Chronicle τ) :
    (Lts.run (step target) c acts).link = Lts.run (Link.step target) c.link acts := by
  induction acts generalizing c with
  | nil => rfl
  | cons a acts ih => exact ih (c.step target a)

end Chronicle

end Snowpack
