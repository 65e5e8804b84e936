import Mathlib.Logic.Function.Basic
import Snowpack.Lib.Bytes

/-!
# Two parties and a stream in each direction

`Ends α` is two parties, one on each `Side`, that write to each other. Of a party it matters here
what it has written and that it can take in bytes (`StreamEnd`); `moved x` counts the bytes written
by `x` that have arrived at the other side, and the rest is under way (`inFlight`). Bytes arrive in
order and in pieces of any size: `deliver` brings up to `n` more of them.

A party is replaced by `set`, and everything else stays as it is (`at_set`, `set_moved`); `deliver`
changes one party and one count (`at_deliver`, `moved_deliver`), takes what it brings from what is
under way (`inFlight_deliver`) and writes nothing (`deliver_written`).
-/

namespace Wire

/-- One of two parties. -/
inductive Side
  | left
  | right
  deriving DecidableEq, Repr

namespace Side

/-- The one across. -/
def other : Side → Side
  | left => right
  | right => left

/-- What the left one has and what the right one has. -/
def both {α : Type*} (a b : α) : Side → α
  | left => a
  | right => b

@[simp] theorem other_other (x : Side) : x.other.other = x := by cases x <;> rfl

@[simp] theorem other_ne (x : Side) : x.other ≠ x := by cases x <;> decide

@[simp] theorem ne_other (x : Side) : x ≠ x.other := (other_ne x).symm

theorem eq_or_other (x y : Side) : x = y ∨ x = y.other := by cases x <;> cases y <;> simp [other]

theorem eq_other_of_ne {x y : Side} (h : x ≠ y) : x = y.other := (eq_or_other x y).resolve_left h

@[simp] theorem other_eq_other {x y : Side} : x.other = y.other ↔ x = y := by
  cases x <;> cases y <;> decide

/-- A property of both sides, from a side and the other. -/
theorem forall_of {P : Side → Prop} (x : Side) (h : P x) (h' : P x.other) (y : Side) : P y := by
  rcases eq_or_other y x with rfl | rfl
  · exact h
  · exact h'

end Side

/-- A party at the end of a stream. -/
class StreamEnd (α : Type*) where
  /-- all that it has written -/
  written : α → Bytes
  /-- more bytes are there to be read -/
  arrive : α → Bytes → α
  written_arrive : ∀ (a : α) (bytes : Bytes), written (arrive a bytes) = written a
  arrive_nil : ∀ a : α, arrive a [] = a

/-- Two parties, and how many of the bytes that each has written have arrived. -/
@[ext]
structure Ends (α : Type*) where
  at_ : Side → α
  moved : Side → Nat

namespace Ends

variable {α : Type*} {d : Ends α} {x y : Side}

/-- One party is another now. -/
def set (d : Ends α) (x : Side) (a : α) : Ends α := { d with at_ := Function.update d.at_ x a }

theorem at_set (d : Ends α) (x : Side) (a : α) (y : Side) :
    (d.set x a).at_ y = if y = x then a else d.at_ y := Function.update_apply ..

@[simp] theorem set_self (d : Ends α) (x : Side) (a : α) : (d.set x a).at_ x = a :=
  Function.update_self ..

theorem set_ne (d : Ends α) (a : α) (h : y ≠ x) : (d.set x a).at_ y = d.at_ y :=
  Function.update_of_ne h ..

@[simp] theorem set_other (d : Ends α) (x : Side) (a : α) :
    (d.set x a).at_ x.other = d.at_ x.other := d.set_ne a x.other_ne

@[simp] theorem set_moved (d : Ends α) (x : Side) (a : α) : (d.set x a).moved = d.moved := rfl

/-- What holds of the parties of two systems, side by side, after each has got a new one. -/
theorem forall_set₂ {β : Type*} {e : Ends β} {R : Side → α → β → Prop}
    (h : ∀ y, R y (d.at_ y) (e.at_ y)) {a : α} {b : β} (hx : R x a b) (y : Side) :
    R y ((d.set x a).at_ y) ((e.set x b).at_ y) := by
  by_cases hy : y = x
  · subst hy
    rw [set_self, set_self]
    exact hx
  · rw [set_ne d a hy, set_ne e b hy]
    exact h y

/-- The parties seen through `f`, with the counts seen through `g`. -/
def map {β : Type*} (f : Side → α → β) (g : Side → Nat → Nat) (d : Ends α) : Ends β where
  at_ x := f x (d.at_ x)
  moved x := g x (d.moved x)

theorem map_set {β : Type*} (f : Side → α → β) (g : Side → Nat → Nat) (d : Ends α) (x : Side)
    (a : α) : (d.set x a).map f g = (d.map f g).set x (f x a) :=
  Ends.ext (funext fun y => Function.apply_update f d.at_ x a y) rfl

/-- Nothing changes when the party stays. -/
theorem set_at {a : α} (h : d.at_ x = a) : d.set x a = d := by
  rw [set, ← h, Function.update_eq_self]

variable [StreamEnd α]

/-- All that `x` has written. -/
def written (d : Ends α) (x : Side) : Bytes := StreamEnd.written (d.at_ x)

/-- The bytes written by `x` that are still under way. -/
def inFlight (d : Ends α) (x : Side) : Bytes := (d.written x).drop (d.moved x)

@[simp] theorem written_set_self (d : Ends α) (x : Side) (a : α) :
    (d.set x a).written x = StreamEnd.written a := by
  rw [written, set_self]

theorem written_set_ne (d : Ends α) (a : α) (h : y ≠ x) : (d.set x a).written y = d.written y := by
  rw [written, set_ne d a h, written]

/-- Nothing was written by a party that is another now. -/
theorem written_set (d : Ends α) {a : α} (h : StreamEnd.written a = d.written x) (y : Side) :
    (d.set x a).written y = d.written y := by
  by_cases hy : y = x
  · subst hy
    rw [written_set_self, h]
  · exact written_set_ne d a hy

/-- Up to `n` more bytes written by `x` arrive. -/
def deliver (d : Ends α) (x : Side) (n : Nat) : Ends α :=
  let bytes := (d.inFlight x).take n
  { d.set x.other (StreamEnd.arrive (d.at_ x.other) bytes) with
    moved := Function.update d.moved x (d.moved x + bytes.length) }

theorem at_deliver (d : Ends α) (x : Side) (n : Nat) (y : Side) : (d.deliver x n).at_ y =
    if y = x.other then StreamEnd.arrive (d.at_ x.other) ((d.inFlight x).take n) else d.at_ y :=
  Function.update_apply ..

@[simp] theorem at_deliver_self (d : Ends α) (x : Side) (n : Nat) :
    (d.deliver x n).at_ x = d.at_ x := by
  rw [at_deliver, if_neg x.ne_other]

@[simp] theorem at_deliver_other (d : Ends α) (x : Side) (n : Nat) : (d.deliver x n).at_ x.other =
    StreamEnd.arrive (d.at_ x.other) ((d.inFlight x).take n) := by
  rw [at_deliver, if_pos rfl]

theorem moved_deliver (d : Ends α) (x : Side) (n : Nat) (y : Side) : (d.deliver x n).moved y =
    if y = x then d.moved x + ((d.inFlight x).take n).length else d.moved y :=
  Function.update_apply ..

@[simp] theorem moved_deliver_self (d : Ends α) (x : Side) (n : Nat) :
    (d.deliver x n).moved x = d.moved x + ((d.inFlight x).take n).length := by
  rw [moved_deliver, if_pos rfl]

@[simp] theorem moved_deliver_other (d : Ends α) (x : Side) (n : Nat) :
    (d.deliver x n).moved x.other = d.moved x.other := by
  rw [moved_deliver, if_neg x.other_ne]

@[simp] theorem deliver_written (d : Ends α) (x : Side) (n : Nat) (y : Side) :
    (d.deliver x n).written y = d.written y := by
  rw [written, written, at_deliver]
  split
  · rename_i he
    rw [StreamEnd.written_arrive, he]
  · rfl

/-- What has arrived grows by what is brought. -/
theorem take_moved_deliver (d : Ends α) (x : Side) (n : Nat) :
    (d.written x).take ((d.deliver x n).moved x) =
      (d.written x).take (d.moved x) ++ (d.inFlight x).take n := by
  rw [moved_deliver_self, List.take_add, List.length_take, inFlight, ← List.take_eq_take_min]

theorem inFlight_deliver (d : Ends α) (x : Side) (n : Nat) :
    (d.deliver x n).inFlight x = (d.inFlight x).drop n := by
  rw [inFlight, deliver_written, moved_deliver_self, ← List.drop_drop, List.length_take]
  show (d.inFlight x).drop _ = _
  by_cases hn : n ≤ (d.inFlight x).length
  · rw [Nat.min_eq_left hn]
  · rw [Nat.min_eq_right (by omega), List.drop_length, List.drop_of_length_le (by omega)]

/-- Bytes arrive at the parties as they are seen, when as many are under way to them. -/
theorem map_deliver {β : Type*} [StreamEnd β] {f : Side → α → β} {g : Side → Nat → Nat}
    (hfl : (d.map f g).inFlight x = d.inFlight x)
    (hf : ∀ bytes, f x.other (StreamEnd.arrive (d.at_ x.other) bytes) =
      StreamEnd.arrive (f x.other (d.at_ x.other)) bytes)
    (hg : ∀ m k, g x (m + k) = g x m + k) (n : Nat) :
    (d.deliver x n).map f g = (d.map f g).deliver x n := by
  simp only [deliver, hfl]
  have hat := congrArg at_ (d.map_set f g x.other (StreamEnd.arrive (d.at_ x.other)
    ((d.inFlight x).take n)))
  rw [hf] at hat
  have hmoved (k : Nat) : (fun y => g y (Function.update d.moved x (d.moved x + k) y)) =
      Function.update (d.map f g).moved x ((d.map f g).moved x + k) := by
    funext y
    rw [Function.apply_update g, hg]
    rfl
  exact Ends.ext hat (hmoved _)

theorem inFlight_deliver_all (d : Ends α) (x : Side) :
    (d.deliver x (d.inFlight x).length).inFlight x = [] := by
  rw [inFlight_deliver, List.drop_length]

/-- When no bytes are brought, nothing changes. -/
theorem deliver_eq_self {n : Nat} (h : (d.inFlight x).take n = []) : d.deliver x n = d := by
  simp only [deliver, h, StreamEnd.arrive_nil, List.length_nil, Nat.add_zero,
    Function.update_eq_self, set_at rfl]

/-- With nothing under way none arrives. -/
theorem moved_deliver_nil (h : d.inFlight y = []) (n : Nat) :
    (d.deliver x n).moved y = d.moved y := by
  rw [moved_deliver]
  split
  · rename_i he
    rw [← he, h, List.take_nil, List.length_nil, Nat.add_zero]
  · rfl

/-- The count never passes what was written. -/
theorem moved_deliver_le (h : d.moved x ≤ (d.written x).length) (n : Nat) :
    (d.deliver x n).moved x ≤ ((d.deliver x n).written x).length := by
  rw [moved_deliver_self, deliver_written, List.length_take, inFlight, List.length_drop]
  omega

end Ends

end Wire
