import Snowpack.Transport.Proof.Bytewise

/-!
# Streams with little room

A `write_all` waits while the stream to the peer is full, and the stream is emptied by the reads of
the peer alone. The two directions of a connection wait for different tasks, so no circle of
waiting tasks can form, however few bytes a stream holds and in however small pieces they are
taken.

`spare` counts what a direction has still to do: the packets to build, the bytes the stream has to
take, those that have to arrive and to be read, the turns of the loop between two reads. A step
lowers it or changes nothing, and then the step was one that could not be taken (`Idle`). If no
task can take a step, everything has been sent and read (`Of.finished`). So fair schedules
complete every call (`small_streams`).
-/

namespace Snowpack

open Wire

variable {σ : Type} {T : TransportOps σ}

/-! ## A future that has taken all there is -/

theorem FrameRead.Took.pending {old frame : Bytes} {whole stream : ReadHalf} {f : FrameRead}
    (h : Took old whole f stream frame) (hbuf : stream.buf = []) (heof : stream.eof = false) :
    readFrame whole old = .pending := by
  obtain ⟨buf, eof⟩ := stream
  subst hbuf heof
  cases h with
  | @length got _ hlt hwhole =>
    subst hwhole
    match got, hlt with
    | [], _ => rfl
    | [b0], _ => rfl
  | @body len got _ hlt hwhole =>
    subst hwhole
    have hnot : ¬ len.toNat ≤ got.length := by omega
    simp only [readFrame, readU16_toBe, ReadHalf.readExact, List.append_nil, length_resize, hnot,
      Bool.false_eq_true, ↓reduceIte]

theorem Reading.Of.pending {r : Receiver σ} {p : Reading σ} (h : Of r p) (hbuf : p.buffered = [])
    (heof : r.rx.packets.read.eof = false) : r.rx.packets.readPacket T r.cipher = .pending := by
  have hread := h.took.pending hbuf (h.eof.trans heof)
  simp only [PacketRx.readPacket, hread]

namespace Flows

variable {S : TransportSpec T} {key : S.Key} {ops : List TxOp} {items : List Item} {d : Sender}
  {s : σ} {moved : Nat} {r : Receiver σ} {consumed unread rest : List Packet}

/-- What was written is a part of what is planned. -/
theorem written_le (h : Flows S key ops items d s moved r consumed unread rest) :
    d.tx.write.written.length ≤ (S.frames key 0 (plan none ops)).length := by
  obtain ⟨later, hplan⟩ := h.sends.sent_isPrefix
  rw [h.sends.wrote.written, ← hplan, S.frames_append key 0 (consumed ++ unread),
    List.length_append]
  exact Nat.le_add_right _ _

/-- All that was written has arrived, and the frame that is next is not there: there is none. -/
theorem unread_of_pending (hS : S.Correct)
    (h : Flows S key ops items d s moved r consumed unread rest) (hn : r.ReadsNext)
    (hall : d.tx.write.written.drop moved = [])
    (hread : r.rx.packets.readPacket T r.cipher = .pending) : unread = [] := by
  cases unread with
  | nil => rfl
  | cons p unread =>
    exfalso
    rcases h.takes hS hn with ⟨hmore, -⟩ | ⟨rx', s', htakes, -⟩
    · exact hmore hall
    · rw [htakes.read] at hread
      cases hread

end Flows

theorem Receiver.arrive_buf (r : Receiver σ) (bytes : Bytes) :
    (r.arrive bytes).rx.packets.read.buf = r.rx.packets.read.buf ++ bytes := rfl

theorem Receiver.arrive_rank (r : Receiver σ) (bytes : Bytes) :
    (r.arrive bytes).rank = r.rank := rfl

theorem Sender.step_of_work {d : Sender} (h : d.work = 0) (s : σ) : d.step T s = (d, s) := by
  obtain ⟨hcur, htodo⟩ := done_of_work h
  simp only [Sender.step, hcur, htodo]

namespace Bytewise

variable {b b' : Bytewise σ} {d : Duplex σ} {total : Side → Nat}

/-! ## What is left to do -/

/-- What the direction from `x` has still to do, when `total` bytes are to be sent. -/
def spare (total : Nat) (b : Bytewise σ) (x : Side) : Nat :=
  (b.at_ x).sender.work + (total - b.pushed x) + 6 * (total - b.moved x) +
    5 * (b.buffered x.other).length + (b.at_ x.other).reading.receiver.rank

/-- What both directions have still to do. -/
def fuel (total : Side → Nat) (b : Bytewise σ) : Nat :=
  b.spare (total .left) .left + b.spare (total .right) .right

theorem fuel_lt (x : Side) (hx : b'.spare (total x) x < b.spare (total x) x)
    (hother : b'.spare (total x.other) x.other = b.spare (total x.other) x.other) :
    b'.fuel total < b.fuel total := by
  unfold fuel
  cases x with
  | left =>
    simp only [Side.other] at hother
    omega
  | right =>
    simp only [Side.other] at hother
    omega

/-- The task of this action has to wait. -/
def Idle (cap : Nat) (b : Bytewise σ) : ByteAct → Prop
  | .send x => b.pushed x = (b.written x).length → (b.at_ x).sender.work = 0
  | .push x n => n = 0 ∨ b.pushed x = (b.written x).length ∨ b.room cap x = 0
  | .deliver x n => n = 0 ∨ b.moved x = b.pushed x
  | .recv x _ n => (b.at_ x).reading.receiver.awaits = true ∧ (n = 0 ∨ b.buffered x = [])

theorem set_at (x : Side) : b.set x (b.at_ x) = b := by
  rw [set, Ends.set_at rfl]

theorem Of.settle_eq (h : Of d b) (x : Side) : b.settle x = b := by
  unfold settle
  split
  · rename_i hfull
    rw [← h.settled x hfull, Function.update_eq_self]
  · rfl

/-! ## A step is made, or its task waits -/

theorem Of.send_idle (h : Of d b) (cap : Nat) (x : Side) :
    b.step T cap (.send x) = b ∧ Idle cap b (.send x) ∨
      (b.step T cap (.send x)).fuel total < b.fuel total := by
  by_cases hfull : b.pushed x = (b.written x).length
  · by_cases hw : (b.at_ x).sender.work = 0
    · left
      refine ⟨?_, fun _ => hw⟩
      simp only [Bytewise.step, hfull, ↓reduceIte, Sender.step_of_work hw]
      rw [show b.set x ⟨(b.at_ x).sender, { (b.at_ x).reading with
        receiver.cipher := (b.at_ x).reading.receiver.cipher }⟩ = b from set_at x, h.settle_eq]
    · right
      have hless := Sender.work_step (T := T) (b.at_ x).sender
        (b.at_ x).reading.receiver.cipher hw
      apply fuel_lt x
      · simp only [Bytewise.step, hfull, ↓reduceIte, spare, settle_toEnds, settle_pushed, set,
          buffered, Ends.set_self, Ends.set_other, Ends.set_moved]
        omega
      · simp only [Bytewise.step, hfull, ↓reduceIte, spare, settle_toEnds, settle_pushed, set,
          buffered, Side.other_other, Ends.set_self, Ends.set_other, Ends.set_moved]
        rfl
  · left
    refine ⟨?_, fun hc => absurd hc hfull⟩
    simp only [Bytewise.step, hfull, ↓reduceIte]

theorem Of.push_idle (h : Of d b) (htotal : ∀ x, (b.written x).length ≤ total x) (cap : Nat)
    (x : Side) (n : Nat) :
    b.step T cap (.push x n) = b ∧ Idle cap b (.push x n) ∨
      (b.step T cap (.push x n)).fuel total < b.fuel total := by
  have hle := htotal x
  have hpushed := h.pushed x
  obtain ⟨k, hk⟩ : ∃ k, min n (min ((b.written x).length - b.pushed x) (b.room cap x)) = k :=
    ⟨_, rfl⟩
  by_cases hz : k = 0
  · left
    subst hz
    refine ⟨?_, by simp only [Idle]; omega⟩
    simp only [Bytewise.step, hk, Nat.add_zero, Function.update_eq_self]
    exact h.settle_eq x
  · right
    apply fuel_lt x
    · simp only [Bytewise.step, hk, spare, settle_toEnds, settle_pushed, buffered,
        Function.update_self]
      omega
    · simp only [Bytewise.step, hk, spare, settle_toEnds, settle_pushed, buffered,
        Function.update_of_ne x.other_ne]

theorem Of.deliver_idle (h : Of d b) (htotal : ∀ x, (b.written x).length ≤ total x) (cap : Nat)
    (x : Side) (n : Nat) :
    b.step T cap (.deliver x n) = b ∧ Idle cap b (.deliver x n) ∨
      (b.step T cap (.deliver x n)).fuel total < b.fuel total := by
  have hle := htotal x
  have hpushed := h.pushed x
  have harrived := h.arrived x
  obtain ⟨k, hk⟩ : ∃ k, min n (b.pushed x - b.moved x) = k := ⟨_, rfl⟩
  have hlen : ((b.inFlight x).take k).length = k := by
    rw [List.length_take, Ends.inFlight, List.length_drop]
    omega
  by_cases hz : k = 0
  · left
    subst hz
    refine ⟨?_, by simp only [Idle]; omega⟩
    simp only [Bytewise.step, hk, Ends.deliver_eq_self List.take_zero]
  · right
    apply fuel_lt x
    · simp only [Bytewise.step, hk, spare, buffered, Ends.at_deliver_self, Ends.at_deliver_other,
        Ends.moved_deliver_self, StreamEnd.arrive, Receiver.arrive_buf, Receiver.arrive_rank,
        List.length_append, hlen]
      omega
    · simp only [Bytewise.step, hk, spare, buffered, Side.other_other, Ends.at_deliver_self,
        Ends.at_deliver_other, Ends.moved_deliver_other, StreamEnd.arrive]

/-- A turn at `x` belongs to the direction that `x` reads. -/
theorem Of.recv_idle {S : TransportSpec T} {key : Side → S.Key} {ops : Side → List TxOp}
    {items : Side → List Item} (h : Of d b) (hfl : d.Flowing S key ops items) (cap : Nat)
    (x : Side) (drain : Bool) (n : Nat) :
    b.step T cap (.recv x drain n) = b ∧ Idle cap b (.recv x drain n) ∨
      (b.step T cap (.recv x drain n)).fuel total < b.fuel total := by
  obtain ⟨consumed, unread, rest, hx⟩ := hfl x.other
  rw [Side.other_other] at hx
  have hof := h.reading x
  have hturned := hof.turned (T := T) drain n
  have hstep : b.step T cap (.recv x drain n) =
      b.set x { b.at_ x with reading := (b.at_ x).reading.turn T drain n } := rfl
  -- the turn lowers the bytes in the buffer and the rank, counted together
  have hlow {p : Reading σ} (hp : (b.at_ x).reading.turn T drain n = p)
      (hlt : 5 * p.buffered.length + p.receiver.rank <
        5 * (b.at_ x).reading.buffered.length + (b.at_ x).reading.receiver.rank) :
      (b.step T cap (.recv x drain n)).fuel total < b.fuel total := by
    rw [hstep, hp]
    apply fuel_lt x.other
    · simp only [spare, buffered, Side.other_other, set, Ends.set_self, Ends.set_other,
        Ends.set_moved]
      simp only [Reading.buffered] at hlt
      omega
    · simp only [spare, buffered, Side.other_other, set, Ends.set_self, Ends.set_other,
        Ends.set_moved]
  generalize hp : (b.at_ x).reading.turn T drain n = p at hturned
  cases hturned with
  | waits hw hnone =>
    left
    exact ⟨by rw [hstep, hp]; exact set_at x, hw, hnone⟩
  | takes hof' hrank hless => exact .inr (hlow hp (by omega))
  | reads hw hless =>
    right
    have hr := ((d.at_ x).receiver.loop T drain).rank_le
    have hl := hless hx.eof
    exact hlow hp (by simp only [Reading.new, Reading.buffered] at hl ⊢; omega)
  | moves hw =>
    right
    have heq := hof.eq_of_idle (hof.idle hw)
    have hn : ¬ (d.at_ x).receiver.ReadsNext := by
      intro hc
      rw [← Receiver.awaits_iff, ← heq, hw] at hc
      cases hc
    obtain ⟨-, hpackets, -, hrank⟩ := hx.at_.loop_local (T := T) hn drain
    exact hlow hp (by simp only [Reading.new, Reading.buffered, hpackets, heq]; omega)

variable {S : TransportSpec T} {key : Side → S.Key} {ops : Side → List TxOp}
  {items : Side → List Item}

/-- The bytes that the direction from `x` will carry. -/
def planned (S : TransportSpec T) (key : Side → S.Key) (ops : Side → List TxOp) (x : Side) : Nat :=
  (S.frames (key x) 0 (plan none (ops x))).length

theorem Of.written_le (h : Of d b) (hfl : d.Flowing S key ops items) (x : Side) :
    (b.written x).length ≤ planned S key ops x := by
  obtain ⟨consumed, unread, rest, hx⟩ := hfl x
  rw [← h.written_eq]
  exact hx.written_le

theorem Of.step_idle (h : Of d b) (hfl : d.Flowing S key ops items) (cap : Nat) (a : ByteAct) :
    b.step T cap a = b ∧ Idle cap b a ∨
      (b.step T cap a).fuel (planned S key ops) < b.fuel (planned S key ops) := by
  cases a with
  | send x => exact h.send_idle cap x
  | push x n => exact h.push_idle (h.written_le hfl) cap x n
  | deliver x n => exact h.deliver_idle (h.written_le hfl) cap x n
  | recv x drain n => exact h.recv_idle hfl cap x drain n

/-! ## Fair schedules -/

/-- A round in which every task of both sides gets a turn, and may move at least one byte. -/
structure Fair (round : List ByteAct) : Prop where
  send : ∀ x, .send x ∈ round
  push : ∀ x, ∃ n, 0 < n ∧ .push x n ∈ round
  deliver : ∀ x, ∃ n, 0 < n ∧ .deliver x n ∈ round
  recv : ∀ x, ∃ drain n, 0 < n ∧ .recv x drain n ∈ round

/-- All tasks wait: everything has been sent and read. An empty stream has room, so a frame that is
not written whole is waited for by nobody else than a reader with bytes to read. -/
theorem Of.finished (hS : S.Correct) (h : Of d b) (hfl : d.Flowing S key ops items) {cap : Nat}
    (hcap : 0 < cap) {round : List ByteAct} (hfair : Fair round)
    (hidle : ∀ a ∈ round, Idle cap b a) (x : Side) : d.Finished x := by
  obtain ⟨n, hn, hmem⟩ := hfair.deliver x
  have hmoved : b.moved x = b.pushed x := (hidle _ hmem).resolve_left (by omega)
  obtain ⟨drain, n, hn, hmem⟩ := hfair.recv x.other
  obtain ⟨hawaits, hnone⟩ := hidle _ hmem
  have hbuf : b.buffered x.other = [] := hnone.resolve_left (by omega)
  have hroom : b.room cap x = cap := by
    rw [room, hmoved, hbuf, List.length_nil]
    omega
  obtain ⟨n, hn, hmem⟩ := hfair.push x
  have hpushed : b.pushed x = (b.written x).length := by
    rcases hidle _ hmem with h0 | hfull | hfull
    · omega
    · exact hfull
    · omega
  have hwork := hidle _ (hfair.send x) hpushed
  have hall : (d.at_ x).sender.tx.write.written.drop (d.moved x) = [] := by
    apply List.drop_eq_nil_of_le
    apply Nat.le_of_eq
    rw [← h.moved, hmoved, hpushed, ← h.written_eq]
    rfl
  have hquiet : d.Quiet x := Sender.done_of_work (h.sender x ▸ hwork)
  have hreads : (d.at_ x.other).receiver.ReadsNext :=
    Receiver.awaits_iff.1 ((h.reading x.other).awaits ▸ hawaits)
  obtain ⟨consumed, unread, rest, hx⟩ := hfl x
  obtain rfl := hx.unread_of_pending hS hreads hall ((h.reading x.other).pending hbuf hx.eof)
  exact Duplex.finished_of_waiting ⟨hquiet, hall⟩ hx hreads

/-- Two sides that carry the calls, byte by byte. -/
def Carries (S : TransportSpec T) (key : Side → S.Key) (ops : Side → List TxOp)
    (items : Side → List Item) (P : Duplex σ → Prop) (b : Bytewise σ) : Prop :=
  ∃ d, Of d b ∧ d.Flowing S key ops items ∧ P d

/-- What the steps of two sides with whole frames keep, those with single bytes keep. -/
theorem Carries.step (hS : S.Correct) {P : Duplex σ → Prop}
    (hP : ∀ d a, d.Flowing S key ops items → P d → P (d.step T a)) (cap : Nat) (a : ByteAct)
    (h : Carries S key ops items P b) : Carries S key ops items P (b.step T cap a) := by
  obtain ⟨d, hof, hfl, hd⟩ := h
  obtain ⟨acts, hof'⟩ := hof.step (T := T) cap a
  obtain ⟨hfl', hd'⟩ := Lts.run_inv (I := fun d => d.Flowing S key ops items ∧ P d)
    (fun d a hd => ⟨Duplex.step_flowing hS hd.1 a, hP d a hd.1 hd.2⟩) acts ⟨hfl, hd⟩
  exact ⟨_, hof', hfl', hd'⟩

/-- Fair schedules come to an end, from every state. -/
theorem Carries.completes (hS : S.Correct) {cap : Nat} (hcap : 0 < cap)
    (h : Carries S key ops items (fun _ => True) b) :
    ∃ n, ∀ rounds : List (List ByteAct), (∀ round ∈ rounds, Fair round) → n < rounds.length →
      Carries S key ops items (fun d => ∀ x, d.Finished x)
        (Lts.run (Bytewise.step T cap) b rounds.flatten) := by
  refine ⟨b.fuel (planned S key ops), fun rounds hfair hlong => ?_⟩
  refine Lts.run_fair (fun _ => True) id (fuel (planned S key ops)) (Idle cap)
    (I := Carries S key ops items fun _ => True) ?_ ?_ ?_ ?_ rounds h
    (fun round hr => ⟨hfair round hr, fun _ _ => trivial⟩) hlong
  · intro b a hb _
    exact hb.step hS (fun _ _ _ h => h) cap a
  · rintro b a ⟨d, hof, hfl, -⟩ _
    exact hof.step_idle hfl cap a
  · rintro b round ⟨d, hof, hfl, -⟩ hround hidle
    exact ⟨d, hof, hfl, hof.finished hS hfl hcap hround hidle⟩
  · intro b a _ _ hb
    exact hb.step hS (fun d a hfl hd x => Duplex.finished_step hfl (hd x) a) cap a

/-- What `x` has seen. -/
def seen (b : Bytewise σ) (x : Side) : Observed := observe (b.at_ x).reading.receiver.events

theorem Of.seen_eq (h : Of d b) (x : Side) : b.seen x = d.seen x := by
  rw [seen, (h.reading x).same, Duplex.seen]

theorem Of.returned_of_finished (h : Of d b) {x : Side} (hf : d.Finished x) :
    b.returned x = (d.at_ x).sender.results := by
  have hall : (b.written x).length ≤ b.moved x := by
    rw [← h.written_eq, h.moved]
    exact List.drop_eq_nil_iff.1 hf.arrived
  have := h.arrived x
  have := h.pushed x
  rw [h.settled x (by omega), h.sender]

end Bytewise

/-- **Streams with little room.** Two connected sides, calls of `send_message` on both, streams that
hold `cap` bytes, and bytes that are taken, delivered and read in any pieces. A call returns when
its last byte has been taken, with its own result, and the other side sees the first accepted
messages at every moment. However the bytes have moved so far, when the tasks of both sides get
their turns all calls return and all accepted messages are seen. -/
theorem small_streams (S : TransportSpec T) (hS : S.Correct) (cap : Nat) (hcap : 0 < cap)
    (calls : Side → List Call) (d₀ : Duplex σ) (h₀ : d₀.Connected S fun x => sendAll (calls x))
    (acts : List ByteAct) :
    let b := Lts.run (Bytewise.step T cap) (.start d₀) acts
    (∀ x, b.returned x <+: (calls x).map callResult ∧
      ∃ first, first <+: accepted (calls x) ∧
        (b.seen x.other).outcomes = first.map fun c => .got c.1 c.2) ∧
    ∃ n, ∀ rounds : List (List ByteAct), (∀ round ∈ rounds, Bytewise.Fair round) →
      n < rounds.length → ∀ x,
        (Lts.run (Bytewise.step T cap) b rounds.flatten).returned x = (calls x).map callResult ∧
        ((Lts.run (Bytewise.step T cap) b rounds.flatten).seen x.other).outcomes =
          (accepted (calls x)).map fun c => .got c.1 c.2 := by
  intro b
  have hflow := h₀.flowing (fun x => messages (accepted (calls x)))
    (fun x => fits_sendAll (calls x)) (fun x => plan_sendAll (calls x))
  have hmoved : ∀ x, d₀.moved x ≤ (d₀.written x).length := fun x => by
    rw [h₀.moved x]
    exact Nat.zero_le _
  have hb : b.Carries S _ _ _ fun _ => True :=
    Lts.run_inv (fun b a hb => hb.step hS (fun _ _ _ h => h) cap a) acts
      ⟨d₀, Bytewise.of_start hmoved, hflow, trivial⟩
  obtain ⟨n, hn⟩ := hb.completes hS hcap
  refine ⟨fun x => ?_, n, fun rounds hfair hlong x => ?_⟩
  · obtain ⟨d, hof, hfl, -⟩ := hb
    obtain ⟨consumed, unread, rest, hx⟩ := hfl x
    obtain ⟨done, part, hdone, -, hout⟩ := hx.at_.outcomes
    obtain ⟨first, hfirst, rfl⟩ := exists_messages hdone
    constructor
    · rw [← expected_sendAll]
      exact (hof.sender x ▸ hof.returned x).trans hx.sends.results_isPrefix
    · rw [hof.seen_eq]
      exact ⟨first, hfirst, hout.trans (outcome_messages first)⟩
  · obtain ⟨d, hof, hfl, hf⟩ := hn rounds hfair hlong
    obtain ⟨consumed, unread, rest, hx⟩ := hfl x
    constructor
    · rw [hof.returned_of_finished (hf x), ← expected_sendAll]
      exact (hx.sends.sent_of_done (hf x).current (hf x).todo).2
    · rw [hof.seen_eq, ← outcome_messages]
      exact Duplex.outcomes_of_finished hfl (hf x)

/-- Streams of a single byte. -/
theorem small_streams_tagged :
    ∃ n, ∀ rounds : List (List ByteAct), (∀ round ∈ rounds, Bytewise.Fair round) →
      n < rounds.length → ∀ x,
        ((Lts.run (Bytewise.step Tagged.transport 1)
          (Lts.run (Bytewise.step Tagged.transport 1)
            (.start (Tagged.pair fun x => sendAll (Tagged.someCalls x))) Tagged.someByteActs)
          rounds.flatten).seen x.other).outcomes =
            (accepted (Tagged.someCalls x)).map fun c => .got c.1 c.2 := by
  obtain ⟨-, n, h⟩ := small_streams Tagged.spec Tagged.decrypt_encrypt 1 (by decide)
    Tagged.someCalls _ (Tagged.pair_connected _) Tagged.someByteActs
  exact ⟨n, fun rounds hfair hlong x => (h rounds hfair hlong x).2⟩

end Snowpack
