import Mathlib.Algebra.GroupWithZero.Nat
import Snowpack.Transport.Proof.Delivery

/-!
# End-to-end delivery of messages

Two endpoints fresh from the handshake, a list of `send_message` calls on each side, any schedule.
`delivery`: at every moment each side has got the first of the other's accepted messages, in order
and byte for byte, with no error; a refused call returns its error and puts nothing on the wire;
and when a side has worked through its calls and the other has consumed what arrived, all of them
have been got. `completes`: every schedule can be continued to that point.
-/

namespace Snowpack

open Wire

variable {σ : Type} {T : TransportOps σ}

/-! ## Calls of `send_message` -/

/-- A call of `send_message`: the type and the payload. -/
abbrev Call := UInt16 × Bytes

/-- The calls, as a sender makes them. -/
def sendAll (calls : List Call) : List TxOp := calls.map fun c => .send c.1 c.2

/-- The calls with a 12-bit type. -/
def accepted (calls : List Call) : List Call := calls.filter fun c => c.1 ≤ typeMask

/-- The messages of the calls. -/
def messages (calls : List Call) : List Item := calls.map fun c => .message c.1 c.2

/-- What a call returns. -/
def callResult (c : Call) : Res Unit :=
  if c.1 > typeMask then .error (.error (.packetBuilder (.messageTypeTooLarge c.1))) else .ok ()

theorem plan_sendAll : ∀ calls : List Call,
    plan none (sendAll calls) = wire (messages (accepted calls))
  | [] => rfl
  | c :: calls => by
    have ih := plan_sendAll calls
    simp only [sendAll, accepted, messages, List.map_cons, plan, and_true, List.filter_cons,
      decide_eq_true_eq] at ih ⊢
    split
    · rw [ih]
      simp only [List.map_cons, wire, List.flatMap_cons, Item.packets]
    · exact ih

theorem expected_sendAll : ∀ calls : List Call,
    expected none (sendAll calls) = calls.map callResult
  | [] => rfl
  | c :: calls => by
    have ih := expected_sendAll calls
    simp only [sendAll, List.map_cons, expected] at ih ⊢
    rw [ih]
    simp only [prepared, callResult, ↓reduceIte]

theorem fits_sendAll (calls : List Call) : Fits (sendAll calls) := by
  intro c last h
  simp [sendAll] at h

/-! ## Reaching the end -/

/-- The steps a sender has left. -/
def Sender.work (d : Sender) : Nat :=
  d.current.length + (d.todo.map fun op => match op with
    | .send _ p => 1 + (slices p).length
    | _ => 1).sum

theorem Sender.work_step (d : Sender) (s : σ) (h : d.work ≠ 0) :
    (d.step T s).1.work < d.work := by
  unfold work at h ⊢
  cases hcur : d.current with
  | cons c cs =>
    simp only [step, hcur]
    rcases d.tx.sendPacket T s c cs.isEmpty with ⟨r, tx, s'⟩
    cases r with
    | error f => simp [finish]
    | ok u => cases cs <;> simp [finish]
  | nil =>
    cases htodo : d.todo with
    | nil => simp [hcur, htodo] at h
    | cons op rest =>
      cases op with
      | send t p =>
        simp only [step, hcur, htodo]
        rcases d.tx.prepareMessage t with ⟨r, tx⟩
        cases r with
        | error f =>
          simp only [finish, List.length_nil, List.map_cons, List.sum_cons, Nat.zero_add]
          omega
        | ok u => simp
      | prepare t => simp [step, hcur, htodo, finish]
      | packet c last => simp [step, hcur, htodo, finish]
      | abort => simp [step, hcur, htodo, finish]

theorem Sender.done_of_work {d : Sender} (h : d.work = 0) : d.current = [] ∧ d.todo = [] := by
  unfold work at h
  have hc : d.current.length = 0 := by omega
  refine ⟨List.length_eq_zero_iff.1 hc, ?_⟩
  cases htodo : d.todo with
  | nil => rfl
  | cons op rest =>
    rw [htodo] at h
    cases op <;> simp at h

/-! ## The two sides -/

/-- A side fresh from the handshake, with calls to make; what the buffers hold is left open. -/
structure Endpoint.Fresh (S : TransportSpec T) (ops : List TxOp) (e : Endpoint σ) : Prop where
  sender : ∃ tx, e.sender = .new tx ops ∧ tx.packetBuilder = .new ∧ tx.write = ⟨[], false⟩
  receiver : ∃ rx, e.receiver = .new (.new rx) e.receiver.cipher ∧ rx.packetReader = .new ∧
    rx.read = ⟨[], false⟩
  sendNonce : S.sendNonce e.receiver.cipher = 0
  recvNonce : S.recvNonce e.receiver.cipher = 0

/-- Two connected sides: each sends with the key the other receives with. -/
structure Duplex.Connected (S : TransportSpec T) (ops : Side → List TxOp) (d : Duplex σ) :
    Prop where
  fresh : ∀ x, (d.at_ x).Fresh S (ops x)
  keys : ∀ x, S.recvKey (d.at_ x.other).receiver.cipher = S.sendKey (d.at_ x).receiver.cipher
  moved : ∀ x, d.moved x = 0

namespace Duplex

variable {S : TransportSpec T} {ops : Side → List TxOp} {items : Side → List Item} {d : Duplex σ}

/-- Nothing has been sent, and the loop of the other side is in front of everything. -/
theorem Connected.starts (h : d.Connected S ops) (hfit : ∀ x, Fits (ops x)) (is : List Item)
    (x : Side) :
    Sends S (S.sendKey (d.at_ x).receiver.cipher) (ops x) (d.at_ x).sender
        (d.at_ x).receiver.cipher [] ∧
      LoopAt is (wire is) (d.at_ x.other).receiver := by
  obtain ⟨tx, hs, hb, hw⟩ := (h.fresh x).sender
  obtain ⟨rx, hr, hrd, -⟩ := (h.fresh x.other).receiver
  constructor
  · rw [hs]
    exact .start (by rw [hb]; rfl) hw (h.fresh x).sendNonce (hfit x)
  · rw [hr]
    exact .free [] is rfl rfl rfl (by simp only [Receiver.new, MessageRx.new, hrd]; rfl) rfl

theorem Connected.flowing (h : d.Connected S ops) (items : Side → List Item)
    (hfit : ∀ x, Fits (ops x)) (hplan : ∀ x, plan none (ops x) = wire (items x)) :
    d.Flowing S (fun x => S.sendKey (d.at_ x).receiver.cipher) ops items := by
  intro x
  obtain ⟨hsends, hat⟩ := h.starts hfit (items x) x
  obtain ⟨rx, hr, -, hread⟩ := (h.fresh x.other).receiver
  refine ⟨[], [], wire (items x), hsends, hat, rfl, ?_, hplan x, ?_, ?_, ?_, h.keys x,
    (h.fresh x.other).recvNonce⟩
  · rw [← hplan x]
    exact plan_ok (hfit x) (by simp)
  · rw [h.moved x, hr]
    simp only [List.take_zero, Receiver.new, MessageRx.new, hread, TransportSpec.frames_nil,
      List.nil_append]
  · rw [h.moved x]
    exact Nat.zero_le _
  · rw [hr]
    simp only [Receiver.new, MessageRx.new, hread]

/-- `x` has worked through its calls, all it wrote has arrived and been read, and the loop of the
other side is back at `read_message`. -/
structure Finished (d : Duplex σ) (x : Side) : Prop where
  current : (d.at_ x).sender.current = []
  todo : (d.at_ x).sender.todo = []
  arrived : d.inFlight x = []
  read : (d.at_ x.other).receiver.rx.packets.read.buf = []
  free : (d.at_ x.other).receiver.handle = .free

theorem frames_eq_nil {key : S.Key} {n : Nat} : ∀ {ps : List Packet},
    S.frames key n ps = [] → ps = []
  | [], _ => rfl
  | p :: ps, h => by
    have := congrArg List.length h
    rw [TransportSpec.frames, List.length_append, length_frame] at this
    simp at this

theorem wire_eq_nil : ∀ {is : List Item}, wire is = [] → is = []
  | [], _ => rfl
  | i :: is, h => by
    rw [LoopAt.wire_cons] at h
    rcases i.packets_cases with ⟨p, -, hp⟩ | ⟨b, body, a, hp, -, -⟩ <;> simp [hp] at h

variable {key : Side → S.Key}

/-- At the end everything sent has been seen. -/
theorem outcomes_of_finished (h : d.Flowing S key ops items) {x : Side} (hf : d.Finished x) :
    (d.seen x.other).outcomes = (items x).map Item.outcome := by
  obtain ⟨consumed, unread, rest, hx⟩ := h x
  have hpb := hx.pending_bytes
  have hfl : (d.at_ x).sender.tx.write.written.drop (d.moved x) = [] := hf.arrived
  rw [hf.read, hfl] at hpb
  have hu : unread = [] := frames_eq_nil hpb.symm
  have hall := (hx.sends.sent_of_done hf.current hf.todo).1
  have hrest : rest = [] := by
    rw [hu, List.append_nil, hx.plan_eq, ← hx.total] at hall
    exact List.append_cancel_left (hall.symm.trans (List.append_nil _).symm)
  have hat := hx.at_
  rw [hrest] at hat
  have hfree := hf.free
  cases hat with
  | free done future hitems hwire hh hidle hobs =>
    rw [wire_eq_nil hwire.symm, List.append_nil] at hitems
    rw [seen, hobs, hitems]
  | opened done i future m b body u hitems hpk hw hh =>
    rcases hh with hh | hh <;> (rw [hfree] at hh; cases hh)
  | inside done i future part body a hitems hpk hbody hout hw hrd hk =>
    cases hk with
    | reading m hh => rw [hfree] at hh; cases hh
    | draining m hh => rw [hfree] at hh; cases hh
  | drained done i future m hitems hout hw hh => rw [hfree] at hh; cases hh
  | ended done future m mp hitems hw hh => rw [hfree] at hh; cases hh

/-! ## Every schedule can be completed -/

/-- `x` has no calls left. -/
def Quiet (d : Duplex σ) (x : Side) : Prop :=
  (d.at_ x).sender.current = [] ∧ (d.at_ x).sender.todo = []

theorem step_of_quiet {x : Side} (h : d.Quiet x) (s : σ) :
    (d.at_ x).sender.step T s = ((d.at_ x).sender, s) := by
  simp only [Sender.step, h.1, h.2]

/-- Only a step of `x` itself changes the sender of `x`, and a quiet one changes nothing. -/
theorem sender_step {x : Side} (h : d.Quiet x) (a : DuplexAct) :
    ((d.step T a).at_ x).sender = (d.at_ x).sender := by
  cases a with
  | send y =>
    by_cases hy : x = y
    · subst hy
      simp only [step, step_of_quiet h, Ends.set_self]
    · simp only [step, Ends.set_ne _ _ hy]
  | deliver y n =>
    simp only [step, Ends.at_deliver]
    split
    · rename_i he
      rw [he]
      rfl
    · rfl
  | recv y drain =>
    simp only [step, Ends.at_set]
    split
    · rename_i he
      rw [he]
    · rfl

theorem quiet_step {x : Side} (h : d.Quiet x) (a : DuplexAct) : (d.step T a).Quiet x := by
  unfold Quiet
  rw [sender_step h a]
  exact h

theorem moved_step {x : Side} (hfl : d.inFlight x = []) (a : DuplexAct) :
    (d.step T a).moved x = d.moved x := by
  cases a with
  | send y => rfl
  | recv y drain => rfl
  | deliver y n => exact Ends.moved_deliver_nil hfl n

/-- All that `x` wrote has arrived, and it will write no more. -/
def Arrived (d : Duplex σ) (x : Side) : Prop := d.Quiet x ∧ d.inFlight x = []

theorem arrived_step {x : Side} (h : d.Arrived x) (a : DuplexAct) : (d.step T a).Arrived x := by
  refine ⟨quiet_step h.1 a, ?_⟩
  have hs : (d.step T a).written x = d.written x :=
    congrArg (fun sender : Sender => sender.tx.write.written) (sender_step h.1 a)
  rw [Ends.inFlight, hs, moved_step h.2]
  exact h.2

/-- The sender of `x` gets through its calls. -/
theorem exists_quiet (x : Side) : ∀ (n : Nat) (d : Duplex σ), (d.at_ x).sender.work ≤ n →
    ∃ acts, (Lts.run (step T) d acts).Quiet x
  | 0, d, h => ⟨[], Sender.done_of_work (Nat.le_zero.1 h)⟩
  | n + 1, d, h => by
    by_cases hz : (d.at_ x).sender.work = 0
    · exact ⟨[], Sender.done_of_work hz⟩
    · have hlt := Sender.work_step (T := T) (d.at_ x).sender (d.at_ x).receiver.cipher hz
      obtain ⟨acts, hq⟩ := exists_quiet x n (d.step T (.send x)) (by
        simp only [step, Ends.set_self]
        omega)
      exact ⟨.send x :: acts, hq⟩

theorem exists_arrived {x : Side} (h : d.Quiet x) :
    ∃ acts, (Lts.run (step T) d acts).Arrived x := by
  have harrive : (d.step T (.deliver x (d.inFlight x).length)).inFlight x = [] := by
    rw [step, Ends.inFlight_deliver_all]
  refine ⟨[.deliver x (d.inFlight x).length], ?_⟩
  rw [Lts.run_cons, Lts.run_nil]
  exact ⟨quiet_step h _, harrive⟩

/-- Everything has arrived and the loop waits: it has read everything. -/
theorem finished_of_waiting {x : Side} (ha : d.Arrived x) {consumed rest : List Packet}
    (hx : Flows S (key x) (ops x) (items x) (d.at_ x).sender (d.at_ x).receiver.cipher (d.moved x)
      (d.at_ x.other).receiver consumed [] rest) (hn : (d.at_ x.other).receiver.ReadsNext) :
    d.Finished x := by
  have hpb := hx.pending_bytes
  rw [TransportSpec.frames_nil, List.append_eq_nil_iff] at hpb
  have hrest : rest = [] := by
    have hall := (hx.sends.sent_of_done ha.1.1 ha.1.2).1
    rw [List.append_nil, hx.plan_eq, ← hx.total] at hall
    exact List.append_cancel_left (hall.symm.trans (List.append_nil _).symm)
  have hat := hx.at_
  rw [hrest] at hat
  exact ⟨ha.1.1, ha.1.2, ha.2, hpb.1, hat.free_of_nil hn⟩

/-- With everything there, the loop gets back to `read_message`. The induction is on the turns it
can still take. -/
theorem exists_finished (hS : S.Correct) {x : Side} (n : Nat) : ∀ d : Duplex σ, d.Arrived x →
    (∃ consumed unread rest, Flows S (key x) (ops x) (items x) (d.at_ x).sender
      (d.at_ x).receiver.cipher (d.moved x) (d.at_ x.other).receiver consumed unread rest ∧
      Flows.budget unread (d.at_ x.other).receiver ≤ n) →
    ∃ acts, (Lts.run (step T) d acts).Finished x := by
  induction n with
  | zero =>
    intro d ha h
    obtain ⟨consumed, unread, rest, hx, hle⟩ := h
    obtain ⟨c, u, l, -, -, -, hwait | hlt⟩ := hx.recv hS false
    · obtain ⟨-, hn, rfl | hfl⟩ := hwait
      · exact ⟨[], finished_of_waiting ha hx hn⟩
      · exact absurd ha.2 hfl
    · omega
  | succ n ih =>
    intro d ha h
    obtain ⟨consumed, unread, rest, hx, hle⟩ := h
    obtain ⟨c, u, l, hx', -, -, hwait | hlt⟩ := hx.recv hS false
    · obtain ⟨-, hn, rfl | hfl⟩ := hwait
      · exact ⟨[], finished_of_waiting ha hx hn⟩
      · exact absurd ha.2 hfl
    · obtain ⟨acts, hf⟩ := ih (d.step T (.recv x.other false)) (arrived_step ha _) (by
        refine ⟨c, u, l, ?_, ?_⟩
        · simp only [step, Ends.set_self, Ends.set_ne _ _ x.ne_other, Ends.set_moved]
          exact hx'
        · simp only [step, Ends.set_self]
          omega)
      exact ⟨.recv x.other false :: acts, hf⟩

/-- A finished direction stays finished. -/
theorem finished_step (h : d.Flowing S key ops items) {x : Side} (hf : d.Finished x)
    (a : DuplexAct) : (d.step T a).Finished x := by
  have ha : d.Arrived x := ⟨⟨hf.current, hf.todo⟩, hf.arrived⟩
  obtain ⟨hq, hfl⟩ := arrived_step (T := T) ha a
  obtain ⟨consumed, unread, rest, hx⟩ := h x
  suffices hr : ((d.step T a).at_ x.other).receiver.rx.packets.read.buf = [] ∧
      ((d.step T a).at_ x.other).receiver.handle = .free from ⟨hq.1, hq.2, hfl, hr.1, hr.2⟩
  have hread := hf.read
  have hfree := hf.free
  cases a with
  | send y =>
    simp only [step, Ends.at_set]
    split
    · rename_i he
      rw [← he]
      exact ⟨hread, hfree⟩
    · exact ⟨hread, hfree⟩
  | deliver y n =>
    simp only [step, Ends.at_deliver]
    split
    · rename_i he
      rw [← Side.other_eq_other.1 he, hf.arrived, List.take_nil]
      exact ⟨(List.append_nil _).trans hread, hfree⟩
    · exact ⟨hread, hfree⟩
  | recv y drain =>
    simp only [step, Ends.at_set]
    split
    · rename_i he
      rw [← he, LoopAt.loop_pending (T := T) (by simp only [Receiver.ReadsNext, hfree])
        (PacketRx.readPacket_empty hread hx.eof) drain]
      exact ⟨hread, hfree⟩
    · exact ⟨hread, hfree⟩

theorem run_flowing (hS : S.Correct) (h : d.Flowing S key ops items) (acts : List DuplexAct) :
    (Lts.run (step T) d acts).Flowing S key ops items :=
  Lts.run_inv (I := Flowing S key ops items) (fun _ a hd => step_flowing hS hd a) acts h

theorem completes_side (hS : S.Correct) (h : d.Flowing S key ops items) (x : Side) :
    ∃ acts, (Lts.run (step T) d acts).Finished x := by
  obtain ⟨as1, hq⟩ := exists_quiet (T := T) x _ d (Nat.le_refl _)
  obtain ⟨as2, ha⟩ := exists_arrived (T := T) hq
  obtain ⟨consumed, unread, rest, hx⟩ := run_flowing hS (run_flowing hS h as1) as2 x
  obtain ⟨as3, hf⟩ := exists_finished hS _ _ ha ⟨consumed, unread, rest, hx, Nat.le_refl _⟩
  refine ⟨as1 ++ (as2 ++ as3), ?_⟩
  rw [Lts.run_append, Lts.run_append]
  exact hf

/-- Every schedule can be continued until both directions are finished. -/
theorem completes (hS : S.Correct) (h : d.Flowing S key ops items) :
    ∃ acts, ∀ x, (Lts.run (step T) d acts).Finished x := by
  obtain ⟨as1, hl⟩ := completes_side hS h .left
  have h1 := run_flowing hS h as1
  obtain ⟨as2, hr⟩ := completes_side hS h1 .right
  -- the left direction stays finished while the right one is completed
  have hl2 := Lts.run_inv (I := fun d : Duplex σ => d.Flowing S key ops items ∧ d.Finished .left)
    (fun _ a hd => ⟨step_flowing hS hd.1 a, finished_step hd.1 hd.2 a⟩) as2 ⟨h1, hl⟩
  refine ⟨as1 ++ as2, fun x => ?_⟩
  rw [Lts.run_append]
  cases x with
  | left => exact hl2.2
  | right => exact hr

/-- What the loops see of any two scripts, with no word on what the scripts are. -/
theorem sees (hS : S.Correct) (h₀ : d.Connected S ops) (hfit : ∀ x, Fits (ops x))
    (hplan : ∀ x, plan none (ops x) = wire (items x)) (acts : List DuplexAct) (x : Side) :
    (∃ done, done <+: items x ∧
      ((Lts.run (step T) d acts).seen x.other).outcomes = done.map Item.outcome) ∧
    ((Lts.run (step T) d acts).Finished x →
      ((Lts.run (step T) d acts).seen x.other).outcomes = (items x).map Item.outcome) := by
  have h := run_flowing hS (h₀.flowing items hfit hplan) acts
  obtain ⟨consumed, unread, rest, hx⟩ := h x
  obtain ⟨done, part, hdone, -, hout⟩ := hx.at_.outcomes
  exact ⟨⟨done, hdone, hout⟩, fun hf => outcomes_of_finished h hf⟩

end Duplex

/-! ## The theorem -/

/-- What holds of two connected sides after a schedule. -/
structure Delivers (S : TransportSpec T) (calls : Side → List Call) (d₀ d : Duplex σ) : Prop where
  /-- the calls that returned did so with their own result: a refused type is an error -/
  results : ∀ x, (d.at_ x).sender.results <+: (calls x).map callResult
  /-- only packets of accepted calls are on the wire -/
  wire : ∀ x, ∃ sent, sent <+: wire (messages (accepted (calls x))) ∧
    d.written x = S.frames (S.sendKey (d₀.at_ x).receiver.cipher) 0 sent
  /-- the other side has seen the first accepted messages, and nothing else: no error -/
  first : ∀ x, ∃ done, done <+: accepted (calls x) ∧
    (d.seen x.other).outcomes = done.map fun c => .got c.1 c.2
  /-- with everything consumed it has seen all of them -/
  whole : ∀ x, d.Finished x →
    (d.at_ x).sender.results = (calls x).map callResult ∧
    (d.seen x.other).outcomes = (accepted (calls x)).map fun c => .got c.1 c.2
  /-- and the schedule can be continued to that point -/
  completes : ∃ more, ∀ x, (Lts.run (Duplex.step T) d more).Finished x

theorem outcome_messages (calls : List Call) :
    (messages calls).map Item.outcome = calls.map fun c => .got c.1 c.2 := by
  simp only [messages, List.map_map]
  rfl

/-- The first of some messages are the messages of the first calls. -/
theorem exists_messages {calls : List Call} {done : List Item} (h : done <+: messages calls) :
    ∃ first, first <+: calls ∧ done = messages first := by
  refine ⟨calls.take done.length, List.take_prefix _ _, ?_⟩
  rw [messages, List.map_take]
  exact (List.prefix_iff_eq_take.1 h)

/-- **End-to-end delivery.** For every two lists of calls and every interleaving of the packet
steps, the pieces in which bytes arrive and the turns of the two receiving loops. -/
theorem delivery (S : TransportSpec T) (hS : S.Correct) (calls : Side → List Call)
    (d₀ : Duplex σ) (h₀ : d₀.Connected S fun x => sendAll (calls x)) (acts : List DuplexAct) :
    Delivers S calls d₀ (Lts.run (Duplex.step T) d₀ acts) := by
  have hflow := h₀.flowing (fun x => messages (accepted (calls x)))
    (fun x => fits_sendAll (calls x)) (fun x => plan_sendAll (calls x))
  have h := Duplex.run_flowing hS hflow acts
  refine ⟨fun x => ?_, fun x => ?_, fun x => ?_, fun x hf => ⟨?_, ?_⟩, Duplex.completes hS h⟩
  · obtain ⟨consumed, unread, rest, hx⟩ := h x
    rw [← expected_sendAll]
    exact hx.sends.results_isPrefix
  · obtain ⟨consumed, unread, rest, hx⟩ := h x
    obtain ⟨later, hl⟩ := hx.sends.sent_isPrefix
    exact ⟨consumed ++ unread, ⟨later, by rw [hl, plan_sendAll]⟩, hx.sends.wrote.written⟩
  · obtain ⟨consumed, unread, rest, hx⟩ := h x
    obtain ⟨done, part, hdone, -, hout⟩ := hx.at_.outcomes
    obtain ⟨first, hfirst, rfl⟩ := exists_messages hdone
    exact ⟨first, hfirst, hout.trans (outcome_messages first)⟩
  · obtain ⟨consumed, unread, rest, hx⟩ := h x
    rw [← expected_sendAll]
    exact (hx.sends.sent_of_done hf.current hf.todo).2
  · rw [← outcome_messages]
    exact Duplex.outcomes_of_finished h hf

/-- A side fresh from the handshake, with the tagged cipher. -/
def Tagged.endpoint (sendKey recvKey : UInt8) (ops : List TxOp) : Endpoint TaggedState where
  sender := .new { packetBuilder := .new, write := ⟨[], false⟩, writeBuf := [] } ops
  receiver := .new (.new .fresh) ⟨sendKey, recvKey, 0, 0⟩

/-- Two such sides, each with the key the other receives with. -/
def Tagged.pair (ops : Side → List TxOp) : Duplex TaggedState where
  at_ x := match x with
    | .left => endpoint 1 2 (ops .left)
    | .right => endpoint 2 1 (ops .right)
  moved _ := 0

theorem Tagged.pair_connected {dec : UInt8 → Nat → Bytes → Option Bytes}
    {hdec : ∀ k n c p, dec k n c = some p → c.length = p.length + noiseTag}
    (ops : Side → List TxOp) : (pair ops).Connected (openingSpec dec hdec) ops where
  fresh x := by
    cases x <;> exact ⟨⟨_, rfl, rfl, rfl⟩, ⟨_, rfl, rfl, rfl⟩, rfl, rfl⟩
  keys x := by cases x <;> rfl
  moved _ := rfl

/-- An empty and a refused message one way, one message the other way. -/
def Tagged.someCalls : Side → List Call
  | .left => [(3, []), (0x1000, [1]), (5, [7, 8])]
  | .right => [(4, [9])]

theorem delivery_tagged :
    Tagged.spec.Correct ∧ Delivers Tagged.spec Tagged.someCalls
      (Tagged.pair fun x => sendAll (Tagged.someCalls x))
      (Lts.run (Duplex.step Tagged.transport) (Tagged.pair fun x => sendAll (Tagged.someCalls x))
        [.send .left, .send .right, .send .left, .send .right, .deliver .left 7,
          .recv .right false]) :=
  ⟨Tagged.decrypt_encrypt, delivery Tagged.spec Tagged.decrypt_encrypt Tagged.someCalls _
    (Tagged.pair_connected _) _⟩

end Snowpack
