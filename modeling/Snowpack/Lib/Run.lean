import Mathlib.Data.List.Basic
import Mathlib.Tactic.Common

/-!
# Runs of a step function

A system is a total function `step : S → A → S` from a state and an action (a call, a scheduling
decision, an adversary's move) to the next state; a schedule is a list of actions. `run step s as`
is the state the schedule ends in, and `Along step P s as` says that `P` holds at every step of it,
of the state before the step and the action taken there. The rules: an invariant of the steps is
an invariant of the run (`run_inv`, and `run_inv_along` and `run_inv_ok` when the steps keep it
under a side condition), two step properties that agree on the invariant agree along the run
(`along_congr`), and a flag that only steps of one kind raise is down at the end of a run iff it was
down at the start and no step of that kind was taken (`not_run_flag`).

Two systems: when each step of one is matched by some steps of the other, so is each run
(`run_simulates`), and a view that takes actions to steps takes runs to runs (`run_view`). Two runs
of one system: what related actions keep of two states, schedules of related actions keep
(`run_related`). Fairness: when a step is idle or lowers a measure of what is looked at in a state,
and all actions of a fair round can be idle only in a state that is done, enough fair rounds are
done (`run_fair`).

What a system shows of its steps is a list of events, and a specification may be a relation between
states with an event at each step, `Steps` its runs. When the events of each step lead from the
abstraction of the state before to that of the state after, the events of a run do (`run_steps`).
A property of states carries a guarantee about all events from a relied-on property of some
(`Steps.guarantees`).
-/

namespace Lts

variable {S A : Type*} {step : S → A → S}

/-- The state a schedule ends in. -/
def run (step : S → A → S) (s : S) (as : List A) : S := as.foldl step s

@[simp] theorem run_nil (s : S) : run step s [] = s := rfl

@[simp] theorem run_cons (s : S) (a : A) (as : List A) :
    run step s (a :: as) = run step (step s a) as := rfl

theorem run_append (s : S) (as bs : List A) :
    run step s (as ++ bs) = run step (run step s as) bs := List.foldl_append

/-- `P` holds at every step of the run: of the state before it and its action. -/
def Along (step : S → A → S) (P : S → A → Prop) : S → List A → Prop
  | _, [] => True
  | s, a :: as => P s a ∧ Along step P (step s a) as

instance decidableAlong {P : S → A → Prop} [∀ s a, Decidable (P s a)] :
    ∀ (s : S) (as : List A), Decidable (Along step P s as)
  | _, [] => .isTrue trivial
  | s, a :: as => @instDecidableAnd _ _ _ (decidableAlong (step s a) as)

/-- When the actions `act b` show in the view `f` as steps of another system, runs of them show as
its runs. -/
theorem run_view {V B : Type*} {f : S → V} {next : V → B → V} {act : B → A}
    (h : ∀ s b, f (step s (act b)) = next (f s) b) :
    ∀ (bs : List B) (s : S), f (run step s (bs.map act)) = run next (f s) bs
  | [], _ => rfl
  | b :: bs, s => by rw [List.map_cons, run_cons, run_cons, run_view h bs, h]

/-- An invariant of the steps is an invariant of the run. -/
theorem run_inv {I : S → Prop} (hI : ∀ s a, I s → I (step s a)) :
    ∀ (as : List A) {s : S}, I s → I (run step s as)
  | [], _, h => h
  | a :: as, s, h => run_inv hI as (hI s a h)

/-- An invariant that the steps keep under a side condition, along a run that meets it. -/
theorem run_inv_along {I : S → Prop} {P : S → A → Prop}
    (hI : ∀ s a, I s → P s a → I (step s a)) :
    ∀ (as : List A) {s : S}, I s → Along step P s as → I (run step s as)
  | [], _, h, _ => h
  | a :: as, s, h, hP => run_inv_along hI as (hI s a h hP.1) hP.2

/-- An invariant that the actions of one kind keep, along a run of them. -/
theorem run_inv_ok {I : S → Prop} {Ok : A → Prop} (hI : ∀ s a, I s → Ok a → I (step s a)) :
    ∀ (as : List A) {s : S}, I s → (∀ a ∈ as, Ok a) → I (run step s as)
  | [], _, h, _ => h
  | a :: as, s, h, hok => run_inv_ok hI as (hI s a h (hok a List.mem_cons_self))
      fun b hb => hok b (List.mem_cons_of_mem _ hb)

/-- Two step properties that agree wherever the invariant holds agree along the run. -/
theorem along_congr {I : S → Prop} {P Q : S → A → Prop} (hI : ∀ s a, I s → I (step s a))
    (hPQ : ∀ s a, I s → (P s a ↔ Q s a)) :
    ∀ (as : List A) {s : S}, I s → (Along step P s as ↔ Along step Q s as)
  | [], _, _ => Iff.rfl
  | a :: as, s, h => and_congr (hPQ s a h) (along_congr hI hPQ as (hI s a h))

/-- A flag that is raised exactly by the steps with `P`, and never lowered. -/
theorem not_run_flag (step : S → A → S) {I F : S → Prop} {P : S → A → Prop}
    (hI : ∀ s a, I s → I (step s a))
    (hF : ∀ s a, I s → (F (step s a) ↔ F s ∨ P s a)) :
    ∀ (as : List A) {s : S}, I s →
      (¬ F (run step s as) ↔ ¬ F s ∧ Along step (fun s a => ¬ P s a) s as)
  | [], _, _ => (and_iff_left trivial).symm
  | a :: as, s, h => by
    have ih := not_run_flag step hI hF as (hI s a h)
    rw [run_cons, ih, hF s a h, not_or, and_assoc]
    rfl

/-! ## Two systems -/

/-- A relation under which each step is matched by a run, along a run. -/
theorem run_simulates {S' A' : Type*} {step' : S' → A' → S'} {R : S' → S → Prop}
    (h : ∀ (s' : S') (s : S) (a : A), R s' s → ∃ as', R (run step' s' as') (step s a)) :
    ∀ (as : List A) {s' : S'} {s : S}, R s' s → ∃ as', R (run step' s' as') (run step s as)
  | [], _, _, hR => ⟨[], hR⟩
  | a :: as, s', s, hR => by
    obtain ⟨as₁, h₁⟩ := h s' s a hR
    obtain ⟨as₂, h₂⟩ := run_simulates h as h₁
    refine ⟨as₁ ++ as₂, ?_⟩
    rw [run_append]
    exact h₂

/-- A relation that related actions keep, along schedules of related actions. -/
theorem run_related {R : S → S → Prop} {Q : A → A → Prop}
    (h : ∀ s s' a a', R s s' → Q a a' → R (step s a) (step s' a')) {as as' : List A}
    (has : List.Forall₂ Q as as') : ∀ {s s' : S}, R s s' → R (run step s as) (run step s' as') := by
  induction has with
  | nil => exact fun hR => hR
  | cons hQ _ ih => exact fun hR => ih (h _ _ _ _ hR hQ)

/-! ## Observed runs -/

section
variable {S' E : Type*} {Step : S' → E → S' → Prop}

/-- The runs of a relation, with their events. -/
inductive Steps (Step : S' → E → S' → Prop) : S' → List E → S' → Prop
  | nil (s : S') : Steps Step s [] s
  | cons {s s' s'' : S'} {e : E} {es : List E} (h : Step s e s') (hs : Steps Step s' es s'') :
      Steps Step s (e :: es) s''

theorem Steps.one {s s' : S'} {e : E} (h : Step s e s') : Steps Step s [e] s' := .cons h (.nil s')

theorem Steps.eq_of_nil {s s' : S'} (h : Steps Step s [] s') : s' = s := by
  cases h
  rfl

theorem Steps.append {s s' s'' : S'} {es es' : List E} (h : Steps Step s es s')
    (h' : Steps Step s' es' s'') : Steps Step s (es ++ es') s'' := by
  induction h with
  | nil s => exact h'
  | cons hstep _ ih => exact .cons hstep (ih h')

/-- An invariant of the steps whose events meet what is relied on gives the guarantee of every
event. -/
theorem Steps.guarantees {I : S' → Prop} {Rely Guarantee : E → Prop}
    (h : ∀ {s e s'}, Step s e s' → I s → Rely e → I s' ∧ Guarantee e) {s s' : S'} {es : List E}
    (hs : Steps Step s es s') (hI : I s) (hrely : ∀ e ∈ es, Rely e) : ∀ e ∈ es, Guarantee e := by
  induction hs with
  | nil s => simp
  | cons hstep _ ih =>
    obtain ⟨hI', hg⟩ := h hstep hI (hrely _ List.mem_cons_self)
    intro e he
    rcases List.mem_cons.1 he with rfl | he
    · exact hg
    · exact ih hI' (fun e he => hrely e (List.mem_cons_of_mem _ he)) e he

/-- The events of a run. -/
def trace (step : S → A → S) (events : S → A → List E) : S → List A → List E
  | _, [] => []
  | s, a :: as => events s a ++ trace step events (step s a) as

/-- A step function that a relation describes, along a run. -/
theorem run_steps {I : S → Prop} {f : S → S'} {events : S → A → List E}
    (hI : ∀ s a, I s → I (step s a))
    (h : ∀ s a, I s → Steps Step (f s) (events s a) (f (step s a))) :
    ∀ (as : List A) {s : S}, I s → Steps Step (f s) (trace step events s as) (f (run step s as))
  | [], s, _ => .nil (f s)
  | a :: as, s, hs => (h s a hs).append (run_steps hI h as (hI s a hs))

end

/-! ## Fair schedules -/

section
variable {V : Type*} {I Done : S → Prop} {Fair : List A → Prop} (Ok : A → Prop) (view : S → V)
  (μ : V → Nat) (Idle : V → A → Prop)

/-- In a round all actions are idle, or it lowers the measure. -/
theorem run_round (hI : ∀ s a, I s → Ok a → I (step s a))
    (hstep : ∀ s a, I s → Ok a →
      view (step s a) = view s ∧ Idle (view s) a ∨ μ (view (step s a)) < μ (view s)) :
    ∀ (round : List A) {s : S}, I s → (∀ a ∈ round, Ok a) →
      (view (run step s round) = view s ∧ ∀ a ∈ round, Idle (view s) a) ∨
        μ (view (run step s round)) < μ (view s)
  | [], _, _, _ => .inl ⟨rfl, by simp⟩
  | a :: round, s, h, hok => by
    have ha := hok a List.mem_cons_self
    have ih := run_round hI hstep round (hI s a h ha)
      fun b hb => hok b (List.mem_cons_of_mem _ hb)
    rw [run_cons]
    rcases hstep s a h ha with ⟨heq, hidle⟩ | hlt
    · rw [heq] at ih
      rcases ih with ⟨hrun, hall⟩ | hlt
      · refine .inl ⟨hrun, fun b hb => ?_⟩
        rcases List.mem_cons.1 hb with rfl | hb
        · exact hidle
        · exact hall b hb
      · exact .inr hlt
    · right
      rcases ih with ⟨hrun, -⟩ | hlt'
      · rw [hrun]
        exact hlt
      · omega

theorem run_fair (hI : ∀ s a, I s → Ok a → I (step s a))
    (hstep : ∀ s a, I s → Ok a →
      view (step s a) = view s ∧ Idle (view s) a ∨ μ (view (step s a)) < μ (view s))
    (hfair : ∀ s round, I s → Fair round → (∀ a ∈ round, Idle (view s) a) → Done s)
    (hdone : ∀ s a, I s → Ok a → Done s → Done (step s a)) :
    ∀ (rounds : List (List A)) {s : S}, I s →
      (∀ round ∈ rounds, Fair round ∧ ∀ a ∈ round, Ok a) → μ (view s) < rounds.length →
      Done (run step s rounds.flatten)
  | [], s, _, _, hlt => absurd hlt (Nat.not_lt_zero _)
  | round :: rounds, s, h, hall, hlt => by
    obtain ⟨hround, hok⟩ := hall round List.mem_cons_self
    have hrest : ∀ r ∈ rounds, Fair r ∧ ∀ a ∈ r, Ok a :=
      fun r hr => hall r (List.mem_cons_of_mem _ hr)
    rw [List.flatten_cons]
    rcases run_round Ok view μ Idle hI hstep round h hok with ⟨-, hidle⟩ | hless
    · -- nothing moves: the state is done, and stays so
      have hd := hfair s round h hround hidle
      have hoks : ∀ a ∈ round ++ rounds.flatten, Ok a := by
        intro a ha
        rcases List.mem_append.1 ha with ha | ha
        · exact hok a ha
        · obtain ⟨r, hr, ha⟩ := List.mem_flatten.1 ha
          exact (hrest r hr).2 a ha
      exact (run_inv_ok (I := fun s => I s ∧ Done s)
        (fun s a hs ha => ⟨hI s a hs.1 ha, hdone s a hs.1 ha hs.2⟩) _ ⟨h, hd⟩ hoks).2
    · rw [run_append]
      refine run_fair hI hstep hfair hdone rounds (run_inv_ok hI round h hok) hrest ?_
      simp only [List.length_cons] at hlt
      omega

end

end Lts
