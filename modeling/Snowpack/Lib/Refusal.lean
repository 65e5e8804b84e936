import Mathlib.Data.List.Basic
import Mathlib.Tactic.Common

/-!
# Machines that may refuse an input

A machine `step : S → A → Except E B × S` answers each input with an output or an error. `feed`
gives it a list of inputs and goes on after an error; `accepted` are the inputs that were answered
with an output. A machine that keeps its state when it refuses (`RefusesInPlace`) does not notice
what it refused: from the accepted inputs alone it gives the same outputs and comes to the same
state (`feed_accepted`).
-/

namespace Refusal

variable {S A B E : Type*}

/-- The answers to a list of inputs, and the state after them. -/
def feed (step : S → A → Except E B × S) : S → List A → List (Except E B) × S
  | s, [] => ([], s)
  | s, a :: as => ((step s a).1 :: (feed step (step s a).2 as).1, (feed step (step s a).2 as).2)

/-- The inputs that are answered with an output, in order. -/
def accepted (step : S → A → Except E B × S) (s : S) (as : List A) : List A :=
  ((as.zip (feed step s as).1).filter fun x => x.2.isOk).map Prod.fst

/-- An error leaves the state as it was. -/
def RefusesInPlace (step : S → A → Except E B × S) : Prop :=
  ∀ s a e s', step s a = (.error e, s') → s' = s

variable {step : S → A → Except E B × S} {s s' : S} {a : A}

theorem feed_cons (as : List A) {res : Except E B} (h : step s a = (res, s')) :
    feed step s (a :: as) = (res :: (feed step s' as).1, (feed step s' as).2) := by
  simp only [feed, h]

@[simp] theorem length_feed (s : S) (as : List A) : (feed step s as).1.length = as.length := by
  induction as generalizing s with
  | nil => rfl
  | cons a as ih => simp only [feed, List.length_cons, ih]

theorem accepted_ok (as : List A) {b : B} (h : step s a = (.ok b, s')) :
    accepted step s (a :: as) = a :: accepted step s' as := by
  unfold accepted
  rw [feed_cons as h]
  rfl

theorem accepted_error (as : List A) {e : E} (h : step s a = (.error e, s')) :
    accepted step s (a :: as) = accepted step s' as := by
  unfold accepted
  rw [feed_cons as h]
  rfl

theorem accepted_sublist (s : S) (as : List A) : (accepted step s as).Sublist as := by
  have hzip : (as.zip (feed step s as).1).map Prod.fst = as :=
    List.map_fst_zip (Nat.le_of_eq (length_feed s as).symm)
  have hsub : (accepted step s as).Sublist ((as.zip (feed step s as).1).map Prod.fst) :=
    List.filter_sublist.map Prod.fst
  rwa [hzip] at hsub

/-- The refused inputs make no difference to the outputs and the state. -/
theorem feed_accepted (hrefuse : RefusesInPlace step) (s : S) (as : List A) :
    feed step s (accepted step s as) =
      ((feed step s as).1.filter Except.isOk, (feed step s as).2) := by
  induction as generalizing s with
  | nil => rfl
  | cons a as ih =>
    rcases h : step s a with ⟨res, s'⟩
    cases res with
    | ok b =>
      rw [accepted_ok as h, feed_cons _ h, feed_cons _ h, ih s']
      rfl
    | error e =>
      -- the rest is read in the state before the refused input
      obtain rfl : s' = s := hrefuse s a e s' h
      rw [accepted_error as h, feed_cons _ h, ih s']
      rfl

end Refusal
