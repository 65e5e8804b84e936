import Snowpack.Lib.Stream

/-!
# Sources of bytes

A source is read through a buffer: asked with room for `n` bytes it returns at most `n` of them, or
fails. Nothing read into a buffer that has room is the end of input. How many bytes a read returns
is up to the source; `Delivers` says what the reads come to, whatever room each of them is given.

`pieces` is a source that returns its bytes in pieces that are fixed beforehand, so that every way
to cut a byte string into reads is that of some source (`pieces_delivers`).
-/

namespace Wire

/-- A source: a read returns at most as many bytes as there is room for. -/
structure Source (ρ : Type) where
  read : ρ → Nat → Except IoError Bytes × ρ
  fits : ∀ {s : ρ} {n : Nat} {b : Bytes}, (read s n).1 = .ok b → b.length ≤ n

namespace Source

variable {ρ : Type} (R : Source ρ)

/-- The last read: the end of input, or an error. -/
def ending : Option IoError → Except IoError Bytes
  | none => .ok []
  | some e => .error e

/-- From the state `s` on the source delivers `p` in reads that are not empty, and then ends. -/
inductive Delivers : ρ → Bytes → Option IoError → Prop
  | stop {s : ρ} {fin : Option IoError} (h : ∀ n, 0 < n → (R.read s n).1 = ending fin) :
      Delivers s [] fin
  | more {s : ρ} {p : Bytes} {fin : Option IoError}
      (hread : ∀ n, 0 < n → ∃ b, (R.read s n).1 = .ok b ∧ b ≠ [] ∧ b <+: p)
      (hrest : ∀ n b, 0 < n → (R.read s n).1 = .ok b →
        Delivers (R.read s n).2 (p.drop b.length) fin) :
      Delivers s p fin

/-- The source with a record of the room it was offered. -/
def logged : Source (ρ × List Nat) where
  read s n := ((R.read s.1 n).1, ((R.read s.1 n).2, s.2 ++ [n]))
  fits h := R.fits h

/-- The pieces that are left and the ending. A piece that does not fit is returned in part. -/
def pieces : Source (List Bytes × Option IoError) where
  read s n :=
    match s.1 with
    | [] => (ending s.2, s)
    | c :: cs => (.ok (c.take n), if c.length ≤ n then (cs, s.2) else (c.drop n :: cs, s.2))
  fits := by
    intro s n b h
    obtain ⟨cs, fin⟩ := s
    cases cs with
    | nil =>
      cases fin with
      | none =>
        cases h
        exact Nat.zero_le n
      | some e => cases h
    | cons c cs =>
      cases h
      rw [List.length_take]
      omega

theorem pieces_delivers (fin : Option IoError) : ∀ cs : List Bytes, (∀ c ∈ cs, c ≠ []) →
    pieces.Delivers (cs, fin) cs.flatten fin := by
  intro cs
  -- by the number of bytes: a read may leave the rest of the first piece
  induction hn : cs.flatten.length using Nat.strongRecOn generalizing cs with
  | ind n ih =>
    intro hne
    cases cs with
    | nil => exact .stop fun n _ => rfl
    | cons c cs =>
      have hc : c ≠ [] := hne c List.mem_cons_self
      have hlen : 0 < c.length := List.length_pos_iff.2 hc
      refine .more (fun k hk => ⟨c.take k, rfl, ?_, ?_⟩) fun k b hk hb => ?_
      · intro he
        have := congrArg List.length he
        rw [List.length_take, List.length_nil] at this
        omega
      · exact (List.take_prefix k c).trans (List.prefix_append c _)
      · cases hb
        simp only [List.flatten_cons, List.length_append] at hn ⊢
        by_cases hk' : c.length ≤ k
        · have hrest := ih _ (by omega) cs rfl fun x hx => hne x (List.mem_cons_of_mem _ hx)
          simpa only [pieces, hk', ↓reduceIte, List.take_of_length_le, List.drop_left] using hrest
        · have hdrop : c.drop k ≠ [] := by
            intro he
            have := congrArg List.length he
            rw [List.length_drop, List.length_nil] at this
            omega
          have hrest := ih ((c.drop k :: cs).flatten.length)
            (by simp only [List.flatten_cons, List.length_append, List.length_drop]; omega)
            (c.drop k :: cs) rfl (by
              intro x hx
              rcases List.mem_cons.1 hx with rfl | hx
              · exact hdrop
              · exact hne x (List.mem_cons_of_mem _ hx))
          have htake : (c.take k).length = k := by
            rw [List.length_take]
            omega
          simp only [pieces, hk', ↓reduceIte, htake,
            List.drop_append_of_le_length (Nat.le_of_not_le hk')]
          exact hrest

end Source

end Wire
