import Snowpack.Packet.Proof.Header

/-!
# What the reader accepts

`PacketReader.Step r h r'` lists the transitions of the reader: from state `r` the packet with
header `h` is accepted and leaves state `r'`. `read_ok` and `read_error` say that `read` takes
exactly these, on well-formed packets, and that a rejected packet leaves the state as it was;
everything later is derived from the two.
-/

namespace Snowpack

open Wire

namespace PacketReader

/-- The accepted packets of each state. -/
inductive Step : PacketReader → PacketHeader → PacketReader → Prop
  | sole (u t : UInt16) : Step ⟨false, u⟩ ⟨.sole, t⟩ ⟨false, u⟩
  | first (u t : UInt16) : Step ⟨false, u⟩ ⟨.first, t⟩ ⟨true, t⟩
  | mid (t : UInt16) : Step ⟨true, t⟩ ⟨.mid, t⟩ ⟨true, t⟩
  | last (t : UInt16) : Step ⟨true, t⟩ ⟨.last, t⟩ ⟨false, 0⟩
  | abort (t : UInt16) : Step ⟨true, t⟩ ⟨.abort, t⟩ ⟨false, 0⟩

theorem accept_of_step {r r' : PacketReader} {h : PacketHeader} (hs : Step r h r') :
    r.accept h.kind h.msgType = (.ok h, r') := by
  cases hs <;> simp [accept]

/-- Either a transition, or an error in an unchanged state. -/
theorem accept_cases (r : PacketReader) (k : PacketKind) (t : UInt16) :
    (∃ r', r.accept k t = (.ok ⟨k, t⟩, r') ∧ Step r ⟨k, t⟩ r') ∨
      ((∃ e, r.accept k t = (.error e, r)) ∧ ∀ r', ¬ Step r ⟨k, t⟩ r') := by
  obtain ⟨p, u⟩ := r
  cases p with
  | false =>
    cases k with
    | sole => exact .inl ⟨_, accept_of_step (.sole u t), .sole u t⟩
    | first => exact .inl ⟨_, accept_of_step (.first u t), .first u t⟩
    | mid | last | abort => exact .inr ⟨⟨_, rfl⟩, fun _ h => nomatch h⟩
  | true =>
    cases k with
    | sole | first => exact .inr ⟨⟨_, rfl⟩, fun _ h => nomatch h⟩
    | mid | last | abort =>
      by_cases hut : u = t
      · subst hut
        first
          | exact .inl ⟨_, accept_of_step (.mid u), .mid u⟩
          | exact .inl ⟨_, accept_of_step (.last u), .last u⟩
          | exact .inl ⟨_, accept_of_step (.abort u), .abort u⟩
      · refine .inr ⟨⟨.messageTypeChange u t, by simp [accept, hut]⟩, fun _ h => ?_⟩
        cases h
        exact hut rfl

/-- An accepted packet is well formed and takes a transition. -/
theorem read_ok {r r' : PacketReader} {raw : Bytes} {h : PacketHeader}
    (hr : r.read raw = (.ok h, r')) : WellFormed raw ∧ h = headerOf raw ∧ Step r h r' := by
  by_cases hw : WellFormed raw
  · rw [read_wellFormed hw] at hr
    rcases accept_cases r (headerOf raw).kind (headerOf raw).msgType with
      ⟨r1, h1, hs⟩ | ⟨⟨e, he⟩, -⟩
    · rw [h1] at hr
      simp only [Prod.mk.injEq, Except.ok.injEq] at hr
      obtain ⟨rfl, rfl⟩ := hr
      exact ⟨hw, rfl, hs⟩
    · rw [he] at hr
      simp at hr
  · obtain ⟨e, he⟩ := read_malformed hw r
    rw [he] at hr
    simp at hr

theorem read_of_step {r r' : PacketReader} {raw : Bytes} (hw : WellFormed raw)
    (hs : Step r (headerOf raw) r') : r.read raw = (.ok (headerOf raw), r') := by
  rw [read_wellFormed hw]
  exact accept_of_step hs

/-- A rejected packet leaves the reader as it was. -/
theorem read_error {r r' : PacketReader} {raw : Bytes} {e : PacketReadError}
    (hr : r.read raw = (.error e, r')) : r' = r := by
  by_cases hw : WellFormed raw
  · rw [read_wellFormed hw] at hr
    rcases accept_cases r (headerOf raw).kind (headerOf raw).msgType with
      ⟨r1, h1, -⟩ | ⟨⟨e', he⟩, -⟩
    · rw [h1] at hr
      simp at hr
    · rw [he] at hr
      simp only [Prod.mk.injEq] at hr
      exact hr.2.symm
  · obtain ⟨e', he⟩ := read_malformed hw r
    rw [he] at hr
    simp only [Prod.mk.injEq] at hr
    exact hr.2.symm

end PacketReader

end Snowpack
