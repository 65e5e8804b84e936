import Mathlib.Data.List.Basic
import Mathlib.Tactic.Common

/-!
# Loops, one turn at a time

A loop is a function `turn : S → S ⊕ B`: a turn ends in the state of the next one or in the result
of the loop. `run turn n s` is what `n` turns come to, so that a loop that never ends still has a
state after each number of turns. `Returns turn s b` says that the loop does end, with `b`.

The rules: what every turn keeps holds after any number of turns (`run_inv`), a loop returns what
its next turn comes to (`Returns.of_turn`), and the result of a number of turns is the one it
returns (`Returns.eq_of_run`).
-/

namespace Turns

variable {S B : Type*} {turn : S → S ⊕ B}

/-- `n` turns: the state after them, or the result if the loop ended before. -/
def run (turn : S → S ⊕ B) : Nat → S → S ⊕ B
  | 0, s => .inl s
  | n + 1, s =>
    match turn s with
    | .inl s' => run turn n s'
    | .inr b => .inr b

/-- Every large enough number of turns ends in `b`. -/
def Returns (turn : S → S ⊕ B) (s : S) (b : B) : Prop := ∃ n, ∀ m, n ≤ m → run turn m s = .inr b

/-- What a turn ended in comes to `b`. -/
def Ends (turn : S → S ⊕ B) (b : B) : S ⊕ B → Prop
  | .inl s => Returns turn s b
  | .inr b' => b' = b

theorem Returns.of_turn {s : S} {b : B} (h : Ends turn b (turn s)) : Returns turn s b := by
  cases ht : turn s with
  | inl s' =>
    rw [ht] at h
    obtain ⟨n, hn⟩ := h
    refine ⟨n + 1, fun m hm => ?_⟩
    obtain ⟨m, rfl⟩ : ∃ k, m = k + 1 := ⟨m - 1, by omega⟩
    simp only [run, ht]
    exact hn m (by omega)
  | inr b' =>
    rw [ht] at h
    refine ⟨1, fun m hm => ?_⟩
    obtain ⟨m, rfl⟩ : ∃ k, m = k + 1 := ⟨m - 1, by omega⟩
    simp only [run, ht]
    exact congrArg _ h

/-- More turns than the loop takes change nothing. -/
theorem run_mono {b : B} : ∀ {n m : Nat} {s : S}, n ≤ m → run turn n s = .inr b →
    run turn m s = .inr b
  | 0, _, _, _, h => by simp [run] at h
  | n + 1, 0, _, hle, _ => by omega
  | n + 1, m + 1, s, hle, h => by
    simp only [run] at h ⊢
    cases hs : turn s with
    | inl s' =>
      simp only [hs] at h ⊢
      exact run_mono (by omega) h
    | inr b' =>
      simp only [hs] at h ⊢
      exact h

theorem Returns.eq_of_run {s : S} {b b' : B} (h : Returns turn s b) {n : Nat}
    (hrun : run turn n s = .inr b') : b' = b := by
  obtain ⟨k, hk⟩ := h
  have h₁ := run_mono (Nat.le_max_right k n) hrun
  have h₂ := hk (max k n) (Nat.le_max_left k n)
  exact Sum.inr.inj (h₁.symm.trans h₂)

/-- What a turn keeps, and what it leaves in the result. -/
theorem run_inv {I : S → Prop} {J : B → Prop} (hturn : ∀ s, I s → Sum.elim I J (turn s)) (n : Nat)
    {s : S} (h : I s) : Sum.elim I J (run turn n s) := by
  induction n generalizing s with
  | zero => exact h
  | succ n ih =>
    have ht := hturn s h
    simp only [run]
    cases hs : turn s with
    | inl s' =>
      rw [hs] at ht
      exact ih ht
    | inr b =>
      rw [hs] at ht
      exact ht

end Turns
