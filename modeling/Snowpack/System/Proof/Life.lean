import Snowpack.System.Proof.Ahead

/-!
# From a handshake to delivered messages

`Life.Reached` says where two nodes can be: nobody is connected, the initiator is, both are, or the
initiator is and the responder has refused it. Every move keeps it (`step_reached`), a handshake
between two nodes that take each other can be brought to its end (`Reached.exists_end`), and
`life_proper` reads off it what the nodes have seen of each other.
-/

namespace Snowpack

open Wire HandshakeContext

variable {η σ : Type} {H : HandshakeOps η σ} {T : TransportOps σ} {S : TransportSpec T}
  {E : Ed25519}

/-! ## A responder that refuses -/

/-- A receiver to which nothing was sent: all it can see is the end of the stream. -/
structure Receiver.Deaf (r : Receiver σ) : Prop where
  handle : r.handle = .free
  buf : r.rx.packets.read.buf = []
  nothing : ∀ o ∈ (observe r.events).outcomes, o = .failed (.io .unexpectedEof)
  reading : (observe r.events).reading = none

theorem Receiver.Untouched.deaf {r : Receiver σ} (h : r.Untouched) : r.Deaf := by
  obtain ⟨rx, hr, -, hread⟩ := h
  refine ⟨by rw [hr]; rfl, by rw [hr]; exact congrArg ReadHalf.buf hread, ?_, ?_⟩
  · rw [hr]
    intro o ho
    cases ho
  · rw [hr]
    rfl

namespace Receiver.Deaf

variable {r : Receiver σ}

theorem loop_open (h : r.Deaf) (heof : r.rx.packets.read.eof = false) (drain : Bool) :
    r.loop T drain = r := by
  refine LoopAt.loop_pending ?_ (PacketRx.readPacket_empty h.buf heof) drain
  rw [ReadsNext, h.handle]
  trivial

theorem loop_end (h : r.Deaf) (heof : r.rx.packets.read.eof = true) (drain : Bool) :
    (r.loop T drain).Deaf ∧ (observe (r.loop T drain).events).outcomes =
      (observe r.events).outcomes ++ [.failed (.io .unexpectedEof)] := by
  have hread : r.rx.packets.read = ⟨[], true⟩ := by rw [← h.buf, ← heof]
  obtain ⟨hh, hread', hev⟩ := LoopAt.loop_end (T := T) h.handle hread drain
  have hout : observe (r.loop T drain).events =
      (observe r.events).add (.failed (.io .unexpectedEof)) := by
    rw [hev, observe_append]
    simp only [Observed.event, h.reading]
  refine ⟨⟨hh, congrArg ReadHalf.buf hread', ?_, ?_⟩, ?_⟩
  · rw [hout]
    intro o ho
    rcases List.mem_append.1 ho with ho | ho
    · exact h.nothing o ho
    · exact List.mem_singleton.1 ho
  · rw [hout]
    rfl
  · rw [hout]
    rfl

theorem loop (h : r.Deaf) (drain : Bool) : (r.loop T drain).Deaf := by
  cases heof : r.rx.packets.read.eof with
  | false =>
    rw [h.loop_open heof]
    exact h
  | true => exact (h.loop_end heof drain).1

end Receiver.Deaf

/-! ## The invariant -/

namespace Life

variable {X : XXSpec H S} {Y : Yatlv} {i r : Node E} {ops : Side → List TxOp}
  {items : Side → List Item} {l : Life η σ E} {x : Side}

/-- The initiator has its connection, the responder waits for message 3. -/
def OneAhead (X : XXSpec H S) (Y : Yatlv) (i r : Node E) (ops : List TxOp) (l : Life η σ E) :
    Prop :=
  ∃ d w e s hr c t₀ sent, l.at_ .left = .connected d (Endpoint.behind w e) ∧
    l.at_ .right = .shaking s ∧ s.stage = .message3 hr ∧
    s.verificationKey = r.verificationKey ∧ ConnectOk X Y i r d ∧
    Ahead X i ops w e hr (l.moved .left) c t₀ sent ∧ hr.write.written.length = l.moved .right

/-- Both have a connection, and everything goes its way. -/
def Met (X : XXSpec H S) (Y : Yatlv) (i r : Node E) (ops : Side → List TxOp)
    (items : Side → List Item) (l : Life η σ E) : Prop :=
  ∃ w details d key, l = ofDuplex w details d ∧ Duplex.Flowing S key ops items d ∧
    ConnectOk X Y i r (details .left) ∧ AcceptOk X Y i r (details .right)

/-- The initiator has a connection, and the responder has refused it. -/
def Rejected (X : XXSpec H S) (Y : Yatlv) (i r : Node E) (l : Life η σ E) : Prop :=
  ∃ d e s hr err, l.at_ .left = .connected d e ∧ l.at_ .right = .shaking s ∧
    s.stage = .returned hr (.error (.error err)) ∧ ConnectOk X Y i r d ∧
    (∀ d, ¬ AcceptOk X Y i r d) ∧ l.inFlight .right = [] ∧ e.receiver.Deaf

/-- Where the two nodes can be. -/
inductive Reached (X : XXSpec H S) (Y : Yatlv) (i r : Node E) (ops : Side → List TxOp)
    (items : Side → List Item) (l : Life η σ E) : Prop
  | shaking (p : Pair η σ E) (hl : l = ofPair ops p) (on : Pair.On X Y i r p)
      (un : p.Unconnected)
  | ahead (h : OneAhead X Y i r (ops .left) l)
  | met (h : Met X Y i r ops items l)
  | rejected (h : Rejected X Y i r l)

/-! ### Moves that change nothing -/

theorem poll_connected {d : AuthDetails} {e : Endpoint σ} (h : l.at_ x = .connected d e) :
    l.step H T Y ops (.poll x) = l := by
  simp only [step, h]

theorem send_shaking {s : Session η σ E} (h : l.at_ x = .shaking s) :
    l.step H T Y ops (.send x) = l := by
  simp only [step, h]

theorem recv_shaking {s : Session η σ E} (h : l.at_ x = .shaking s) (drain : Bool) :
    l.step H T Y ops (.recv x drain) = l := by
  simp only [step, h]

theorem hangUp_undropped (h : (l.at_ x).dropped = false) : l.step H T Y ops (.hangUp x) = l := by
  simp only [step, h, Bool.false_eq_true, false_and, ↓reduceIte]

theorem deliver_nothing (h : l.inFlight x = []) (n : Nat) :
    l.step H T Y ops (.deliver x n) = l := Ends.deliver_eq_self (by rw [h, List.take_nil])

/-! ### The steps -/

theorem ahead_of_opened {p : Pair η σ E} (hc : Pair.Configured i r p)
    (h : Pair.Opened X Y i r (ops .left) p) : OneAhead X Y i r (ops .left) (ofPair ops p) := by
  obtain ⟨a, w, e, hr, c, t₀, hres, hR, yes, heq, hah, hm⟩ := h.ahead
  refine ⟨a.2, w, e, p.at_ .right, hr, c, t₀, [], ?_, ?_, hR, hc.key', yes, hah, hm⟩
  · rw [← heq]
    simp only [ofPair, Ends.map, Peer.settle, hres]
    rfl
  · refine Peer.settle_shaking (fun b => ?_) _
    rw [hR]
    simp [Stage.result]

theorem step_shaking (hfits : ∀ x, Fits (ops x)) {p : Pair η σ E} (on : Pair.On X Y i r p)
    (un : p.Unconnected) (a : LifeAct) :
    Reached X Y i r ops items ((ofPair ops p).step H T Y ops a) := by
  have hat := ofPair_at ops un
  obtain ⟨hc, n, x, hp⟩ := on
  cases a with
  | poll y =>
    have hstep : (ofPair ops p).step H T Y ops (.poll y) = _ := step_ofPair ops un (.poll y)
    rw [hstep]
    rcases Pair.poll_unconnected (hfits .left) hc hp un y with hu | ho
    · exact .shaking _ rfl (Pair.step_on ⟨hc, n, x, hp⟩ (.poll y)) hu
    · exact .ahead (ahead_of_opened (hc.step (.poll y)) ho)
  | deliver y k =>
    have hstep : (ofPair ops p).step H T Y ops (.deliver y k) = _ :=
      step_ofPair ops un (.deliver y k)
    rw [hstep]
    exact .shaking _ rfl (Pair.step_on ⟨hc, n, x, hp⟩ (.deliver y k))
      (Pair.step_unconnected (by simp) un)
  | hangUp y =>
    have hstep : (ofPair ops p).step H T Y ops (.hangUp y) = _ := step_ofPair ops un (.hangUp y)
    rw [hstep]
    exact .shaking _ rfl (Pair.step_on ⟨hc, n, x, hp⟩ (.hangUp y))
      (Pair.step_unconnected (by simp) un)
  | send y =>
    rw [send_shaking (hat y)]
    exact .shaking p rfl ⟨hc, n, x, hp⟩ un
  | recv y drain =>
    rw [recv_shaking (hat y)]
    exact .shaking p rfl ⟨hc, n, x, hp⟩ un

end Life

/-- What a poll of the responder comes to while it waits for message 3. -/
theorem Ahead.poll {X : XXSpec H S} {Y : Yatlv} {i r : Node E} {ops : List TxOp} {w : Bytes}
    {e : Endpoint σ} {hr : HandshakeContext η} {moved : Nat} {c : Bytes} {t₀ : σ}
    {sent : List Packet} (h : Ahead X i ops w e hr moved c t₀ sent) {s : Session η σ E}
    (hs : s.stage = .message3 hr) (hk : s.verificationKey = r.verificationKey) :
    (s.poll H Y = s ∧ (w ++ e.sender.tx.write.written).drop moved ≠ []) ∨
    (∃ hr' err, (s.poll H Y).stage = .returned hr' (.error (.error err)) ∧
      hr'.write = hr.write ∧ ∀ d, ¬ AcceptOk X Y i r d) ∨
    ∃ rest frame noiseBuf t d, hr.read.buf = Wire.frame c ++ rest ∧
      (s.poll H Y).stage.result = some (.ok (⟨⟨.new, hr.write, []⟩,
        ⟨.new, ⟨rest, false⟩, frame, noiseBuf, 0⟩, t⟩, d)) ∧
      Paired S t₀ t ∧ AcceptOk X Y i r d := by
  obtain ⟨nr, hw, ho⟩ := h.waits
  rcases recv_frame_more ho hw h.eof h.pending with
    ⟨hfl, hpend⟩ | ⟨hr', rest, hbuf, hrecv, -, ⟨hstat, t, ht, hpaired⟩, hread, hwrite⟩
  · exact .inl ⟨by simp only [Session.poll, hs, Session.resume, hpend], hfl⟩
  · right
    cases hcheck : checkRemote H E Y r.verificationKey hr' i.localAuthHeader with
    | error err =>
      refine .inl ⟨hr', err, ?_, hwrite, ?_⟩
      · simp only [Session.poll, hs, Session.resume, hrecv, Session.onMessage3, hk, hcheck]
      · rintro d ⟨g, hv, hkey, -⟩
        rw [(checkRemote_eq hstat).2 ⟨hv, hkey⟩] at hcheck
        cases hcheck
    | ok g =>
      obtain ⟨hv, hkey⟩ := (checkRemote_eq hstat).1 hcheck
      refine .inr ⟨rest, hr'.frame, hr'.noiseBuf, t, g.details, hbuf, ?_, hpaired,
        g, hv, hkey, rfl⟩
      simp only [Session.poll, hs, Session.resume, hrecv, Session.onMessage3, hk, hcheck,
        Session.finish, intoSplit, ht, hwrite, hread, Stage.result]

namespace Life

variable {X : XXSpec H S} {Y : Yatlv} {i r : Node E} {ops : Side → List TxOp}
  {items : Side → List Item} {l : Life η σ E} {x : Side}

theorem inFlight_right {s : Session η σ E} {hr : HandshakeContext η}
    (hR : l.at_ .right = .shaking s) (hs : s.stage.context.write = hr.write)
    (hm : hr.write.written.length = l.moved .right) : l.inFlight .right = [] := by
  rw [Ends.inFlight, Ends.written, hR]
  show s.stage.context.write.written.drop _ = _
  rw [hs]
  exact List.drop_eq_nil_of_le (Nat.le_of_eq hm)

/-- The responder reads message 3, refuses it or is connected as well. -/
theorem poll_ahead (hfits : ∀ x, Fits (ops x)) (hplan : ∀ x, plan none (ops x) = wire (items x))
    (h : OneAhead X Y i r (ops .left) l) :
    (l.step H T Y ops (.poll .right) = l ∧ l.inFlight .left ≠ []) ∨
    Rejected X Y i r (l.step H T Y ops (.poll .right)) ∨
    Met X Y i r ops items (l.step H T Y ops (.poll .right)) := by
  obtain ⟨d, w, e, s, hr, c, t₀, sent, hL, hR, hs, hk, yes, hah, hm⟩ := h
  have hstep : l.step H T Y ops (.poll .right) =
      l.set .right (.settle (ops .right) (s.poll H Y)) := by
    simp only [step, hR]
  rw [hstep]
  have hleft : ∀ q, (l.set .right q).at_ .left = .connected d (e.behind w) := fun q => by
    rw [Ends.set_ne _ _ (by decide), hL]
  rcases hah.poll (Y := Y) hs hk with
    ⟨heq, hfl⟩ | ⟨hr', err, hst, hwr, no⟩ | ⟨rest, fr, nb, t, d', hbuf, hres, hp, yes'⟩
  · left
    refine ⟨?_, ?_⟩
    · rw [heq, Peer.settle_shaking (by simp [hs, Stage.result])]
      exact Ends.set_at hR
    · rw [Ends.inFlight, Ends.written, hL]
      exact hfl
  · right
    left
    have hshake : Peer.settle (ops .right) (s.poll H Y) = .shaking (s.poll H Y) :=
      Peer.settle_shaking (by simp [hst, Stage.result]) _
    rw [hshake]
    refine ⟨d, e.behind w, s.poll H Y, hr', err, hleft _, Ends.set_self _ _ _, hst, yes, no, ?_,
      hah.untouched.deaf⟩
    exact inFlight_right (Ends.set_self _ _ _) (by rw [hst]; exact hwr) hm
  · right
    right
    obtain ⟨key, hflow⟩ := hah.flowing hfits hplan hbuf hp fr nb
    obtain ⟨hmoved, -⟩ := hah.behind_third hbuf
    obtain ⟨nr, hw, -⟩ := hah.waits
    refine ⟨Side.both w hr.write.written, Side.both d d', _, key, ?_, hflow, yes, yes'⟩
    have hright : Peer.settle (ops .right) (s.poll H Y) = .connected d'
        ((Endpoint.justOpened fr nb rest t (ops .right)).behind hr.write.written) := by
      have hintact : hr.write = ⟨hr.write.written ++ [], false⟩ := by
        rw [List.append_nil]
        exact congrArg (WriteHalf.mk _) hw.intact
      simp only [Peer.settle, hres, connection, Endpoint.opened, MessageTx.new, MessageRx.new,
        Endpoint.justOpened, Endpoint.behind, Sender.behind, PacketTx.behind, Sender.new]
      rw [← hintact]
    rw [hright]
    refine Ends.ext (funext fun y => ?_) (funext fun y => ?_)
    · cases y with
      | left => exact hleft _
      | right => rfl
    · cases y with
      | left => exact hmoved
      | right => exact hm.symm

theorem deliver_ahead (h : OneAhead X Y i r (ops .left) l) (n : Nat) :
    OneAhead X Y i r (ops .left) (l.step H T Y ops (.deliver .left n)) := by
  obtain ⟨d, w, e, s, hr, c, t₀, sent, hL, hR, hs, hk, yes, hah, hm⟩ := h
  have hfl : l.inFlight .left = (w ++ e.sender.tx.write.written).drop (l.moved .left) := by
    rw [Ends.inFlight, Ends.written, hL]
    rfl
  let more := ((w ++ e.sender.tx.write.written).drop (l.moved .left)).take n
  let arrived : HandshakeContext η → HandshakeContext η := fun hs =>
    { hs with read := { hs.read with buf := hs.read.buf ++ more } }
  refine ⟨d, w, e, s.onStream arrived, arrived hr, c, t₀, sent, ?_, ?_, ?_, hk, yes,
    ?_, ?_⟩
  · rw [step, Ends.at_deliver_self, hL]
  · have harrive := l.at_deliver_other .left n
    rw [Side.other, hR, hfl] at harrive
    exact harrive
  · simp only [Session.onStream, hs, Stage.mapContext]
  · rw [step, Ends.moved_deliver_self, hfl]
    exact hah.deliver n
  · rw [step, Ends.moved_deliver, if_neg (by decide)]
    exact hm

theorem step_ahead (hfits : ∀ x, Fits (ops x)) (hplan : ∀ x, plan none (ops x) = wire (items x))
    (h : OneAhead X Y i r (ops .left) l) (a : LifeAct) :
    Reached X Y i r ops items (l.step H T Y ops a) := by
  have hkeep : Reached X Y i r ops items l := .ahead h
  obtain ⟨d, w, e, s, hr, c, t₀, sent, hL, hR, hs, hk, yes, hah, hm⟩ := id h
  cases a with
  | poll y =>
    cases y with
    | left =>
      rw [poll_connected hL]
      exact hkeep
    | right =>
      rcases poll_ahead hfits hplan h with ⟨heq, -⟩ | hrej | hmet
      · rw [heq]
        exact hkeep
      · exact .rejected hrej
      · exact .met hmet
  | send y =>
    cases y with
    | left =>
      obtain ⟨sent', hah'⟩ := hah.send
      have hstep : l.step H T Y ops (.send .left) = l.set .left (.connected d (Endpoint.behind w
          ⟨(e.sender.step T e.receiver.cipher).1,
            { e.receiver with cipher := (e.sender.step T e.receiver.cipher).2 }⟩)) := by
        simp only [step, hL, Endpoint.behind, Sender.step_behind]
      rw [hstep]
      exact .ahead ⟨d, w, _, s, hr, c, t₀, sent', Ends.set_self _ _ _, hR, hs, hk, yes, hah', hm⟩
    | right =>
      rw [send_shaking hR]
      exact hkeep
  | recv y drain =>
    cases y with
    | left =>
      have hloop : (e.behind w).receiver.loop T drain = (e.behind w).receiver :=
        hah.untouched.loop drain
      have hstep : l.step H T Y ops (.recv .left drain) = l := by
        simp only [step, hL, hloop]
        exact Ends.set_at hL
      rw [hstep]
      exact hkeep
    | right =>
      rw [recv_shaking hR]
      exact hkeep
  | deliver y n =>
    cases y with
    | left =>
      exact .ahead (deliver_ahead h n)
    | right =>
      rw [deliver_nothing (inFlight_right hR (by rw [hs]; rfl) hm)]
      exact hkeep
  | hangUp y =>
    cases y with
    | left =>
      rw [hangUp_undropped (by rw [hL]; rfl)]
      exact hkeep
    | right =>
      rw [hangUp_undropped (by simp only [hR, Peer.dropped, hs, Stage.result])]
      exact hkeep

theorem step_met (hS : S.Correct) (h : Met X Y i r ops items l) (a : LifeAct) :
    Met X Y i r ops items (l.step H T Y ops a) := by
  obtain ⟨w, details, d, key, rfl, hf, yes, yes'⟩ := id h
  cases a with
  | poll y =>
    rw [poll_connected rfl]
    exact h
  | hangUp y =>
    rw [hangUp_undropped rfl]
    exact h
  | send y =>
    exact ⟨w, details, _, key, step_ofDuplex w details d (.send y),
      Duplex.step_flowing hS hf (.send y), yes, yes'⟩
  | recv y drain =>
    exact ⟨w, details, _, key, step_ofDuplex w details d (.recv y drain),
      Duplex.step_flowing hS hf (.recv y drain), yes, yes'⟩
  | deliver y n =>
    exact ⟨w, details, _, key, step_ofDuplex w details d (.deliver y n),
      Duplex.step_flowing hS hf (.deliver y n), yes, yes'⟩

theorem step_rejected (ops : Side → List TxOp) (h : Rejected X Y i r l) (a : LifeAct) :
    Rejected X Y i r (l.step H T Y ops a) := by
  obtain ⟨d, e, s, hr, err, hL, hR, hs, yes, no, quiet, deaf⟩ := id h
  have hleft : ∀ e' : Endpoint σ, e'.receiver.Deaf →
      Rejected X Y i r (l.set .left (.connected d e')) := fun e' hd =>
    ⟨d, e', s, hr, err, Ends.set_self _ _ _, hR, hs, yes, no, quiet, hd⟩
  cases a with
  | poll y =>
    cases y with
    | left =>
      rw [poll_connected hL]
      exact h
    | right =>
      have hpoll : s.poll H Y = s := by simp only [Session.poll, hs]
      have hstep : l.step H T Y ops (.poll .right) = l := by
        simp only [step, hR, hpoll, Peer.settle_shaking (s := s) (by simp [hs, Stage.result])]
        exact Ends.set_at hR
      rw [hstep]
      exact h
  | send y =>
    cases y with
    | left =>
      simp only [step, hL]
      exact hleft _ ⟨deaf.handle, deaf.buf, deaf.nothing, deaf.reading⟩
    | right =>
      rw [send_shaking hR]
      exact h
  | recv y drain =>
    cases y with
    | left =>
      simp only [step, hL]
      exact hleft _ (deaf.loop drain)
    | right =>
      rw [recv_shaking hR]
      exact h
  | deliver y n =>
    cases y with
    | left =>
      -- what still arrives is read by nobody
      have hgone : (l.deliver .left n).at_ .right = l.at_ .right := by
        rw [← Side.other, Ends.at_deliver_other, Side.other, hR]
        obtain ⟨header, vk, st, auth⟩ := s
        simp only at hs
        subst hs
        rfl
      refine ⟨d, e, s, hr, err, ?_, hgone.trans hR, hs, yes, no, ?_, deaf⟩
      · rw [step, Ends.at_deliver_self, hL]
      · rw [step, Ends.inFlight, Ends.deliver_written, Ends.moved_deliver, if_neg (by decide)]
        exact quiet
    | right =>
      rw [deliver_nothing quiet]
      exact h
  | hangUp y =>
    cases y with
    | left =>
      rw [hangUp_undropped (by rw [hL]; rfl)]
      exact h
    | right =>
      simp only [step, Side.other, hL, quiet]
      split
      · exact hleft _ ⟨deaf.handle, deaf.buf, deaf.nothing, deaf.reading⟩
      · exact h

theorem step_reached (hS : S.Correct) (hfits : ∀ x, Fits (ops x))
    (hplan : ∀ x, plan none (ops x) = wire (items x)) (h : Reached X Y i r ops items l)
    (a : LifeAct) : Reached X Y i r ops items (l.step H T Y ops a) := by
  cases h with
  | shaking p hl on un =>
    rw [hl]
    exact step_shaking hfits on un a
  | ahead h => exact step_ahead hfits hplan h a
  | met h => exact .met (step_met hS h a)
  | rejected h => exact .rejected (step_rejected ops h a)

/-! ## Completion -/

/-- A schedule of the handshake, up to the point where the initiator is connected. -/
theorem run_ofPair (hfits : ∀ x, Fits (ops x)) (acts : List PairAct) : ∀ {p : Pair η σ E},
    Pair.On X Y i r p → p.Unconnected →
    (∃ more, OneAhead X Y i r (ops .left) (Lts.run (step H T Y ops) (ofPair ops p) more)) ∨
      (Lts.run (Pair.step H Y) p acts).Unconnected := by
  induction acts with
  | nil => exact fun _ hu => .inr hu
  | cons a acts ih =>
    intro p on hu
    have hstep := step_ofPair (H := H) (T := T) (Y := Y) ops hu a
    have hlater : (p.step H Y a).Unconnected →
        (∃ more, OneAhead X Y i r (ops .left) (Lts.run (step H T Y ops) (ofPair ops p) more)) ∨
          (Lts.run (Pair.step H Y) p (a :: acts)).Unconnected := by
      intro hu'
      refine (ih (Pair.step_on on a) hu').imp_left fun ⟨more, hm⟩ => ⟨a.inLife :: more, ?_⟩
      rw [Lts.run_cons, hstep]
      exact hm
    cases a with
    | poll y =>
      obtain ⟨hc, n, x, hp⟩ := on
      rcases Pair.poll_unconnected (hfits .left) hc hp hu y with hu' | ho
      · exact hlater hu'
      · refine .inl ⟨[(PairAct.poll y).inLife], ?_⟩
        rw [Lts.run_cons, hstep]
        exact ahead_of_opened (hc.step (.poll y)) ho
    | deliver y k => exact hlater (Pair.step_unconnected (by simp) hu)
    | hangUp y => exact hlater (Pair.step_unconnected (by simp) hu)

theorem exists_ahead (hfits : ∀ x, Fits (ops x)) {p : Pair η σ E} (on : Pair.On X Y i r p)
    (un : p.Unconnected) {d : AuthDetails} (yes : ConnectOk X Y i r d) :
    ∃ more, OneAhead X Y i r (ops .left) (Lts.run (step H T Y ops) (ofPair ops p) more) := by
  obtain ⟨hc, n, x, hp⟩ := on
  obtain ⟨acts, x', hend⟩ := Pair.Phase.exists_returned n hc hp
  rcases run_ofPair (T := T) hfits acts ⟨hc, n, x, hp⟩ un with hah | hu
  · exact hah
  · -- nobody is connected, and both have returned
    cases hend with
    | nobody x hL hR no => exact absurd yes (no d)
    | rejected x hL => exact absurd (by rw [hL]; rfl) (hu .left _)
    | met x hL => exact absurd (by rw [hL]; rfl) (hu .left _)

/-- Message 3 arrives, with all that was sent behind it. -/
theorem exists_decided (hfits : ∀ x, Fits (ops x))
    (hplan : ∀ x, plan none (ops x) = wire (items x)) (h : OneAhead X Y i r (ops .left) l) :
    ∃ more, Rejected X Y i r (Lts.run (step H T Y ops) l more) ∨
      Met X Y i r ops items (Lts.run (step H T Y ops) l more) := by
  have hfl := l.inFlight_deliver_all .left
  have h1 := deliver_ahead (H := H) (T := T) (Y := Y) h (l.inFlight .left).length
  refine ⟨[.deliver .left (l.inFlight .left).length, .poll .right], ?_⟩
  simp only [Lts.run_cons, Lts.run_nil]
  rcases poll_ahead (T := T) hfits hplan h1 with ⟨-, hne⟩ | hdone
  · exact absurd hfl hne
  · exact hdone

theorem run_ofDuplex (w : Side → Bytes) (details : Side → AuthDetails) (acts : List DuplexAct) :
    ∀ d : Duplex σ, Lts.run (step H T Y ops) (ofDuplex w details d : Life η σ E)
      (acts.map DuplexAct.inLife) = ofDuplex w details (Lts.run (Duplex.step T) d acts) := by
  induction acts with
  | nil => exact fun _ => rfl
  | cons a acts ih =>
    intro d
    rw [List.map_cons, Lts.run_cons, step_ofDuplex, ih, Lts.run_cons]

theorem seen_ofDuplex (w : Side → Bytes) (details : Side → AuthDetails) (d : Duplex σ) (x : Side) :
    (ofDuplex w details d : Life η σ E).seen x = d.seen x := rfl

/-- Everything that is sent can be received. -/
theorem exists_exchanged (hS : S.Correct) (h : Met X Y i r ops items l) :
    ∃ more, Met X Y i r ops items (Lts.run (step H T Y ops) l more) ∧
      ∀ x, ((Lts.run (step H T Y ops) l more).seen x.other).outcomes =
        (items x).map Item.outcome := by
  obtain ⟨w, details, d, key, rfl, hf, yes, yes'⟩ := h
  obtain ⟨acts, hfin⟩ := Duplex.completes hS hf
  have hf' := Duplex.run_flowing hS hf acts
  refine ⟨acts.map DuplexAct.inLife, ?_, fun x => ?_⟩
  · rw [run_ofDuplex]
    exact ⟨w, details, _, key, rfl, hf', yes, yes'⟩
  · rw [run_ofDuplex, seen_ofDuplex]
    exact Duplex.outcomes_of_finished hf' (hfin x)

/-- The stream the responder dropped ends, and the initiator reads. -/
theorem exists_noticed (ops : Side → List TxOp) (h : Rejected X Y i r l) :
    ∃ more, .failed (.io .unexpectedEof) ∈
      ((Lts.run (step H T Y ops) l more).seen .left).outcomes := by
  obtain ⟨d, e, s, hr, err, hL, hR, hs, yes, no, quiet, deaf⟩ := h
  have hdrop : (l.at_ .right).dropped = true := by
    simp only [hR, Peer.dropped, hs, Stage.result]
  let e' : Endpoint σ := { e with receiver := { e.receiver with rx.packets.read.eof := true } }
  have hdeaf : e'.receiver.Deaf := ⟨deaf.handle, deaf.buf, deaf.nothing, deaf.reading⟩
  have hend : l.step H T Y ops (.hangUp .right) = l.set .left (.connected d e') := by
    simp only [step, Side.other, hdrop, quiet, hL, and_self, ↓reduceIte]
    rfl
  refine ⟨[.hangUp .right, .recv .left false], ?_⟩
  rw [Lts.run_cons, hend, Lts.run_cons, Lts.run_nil]
  simp only [step, Ends.set_self, seen, Peer.seen]
  rw [(hdeaf.loop_end rfl false).2]
  exact List.mem_append_right _ (List.mem_singleton.2 rfl)

/-! ## What can be seen at any moment -/

/-- Side `x` has a connection, and learned `d` about the other side. -/
def Connected (l : Life η σ E) (x : Side) (d : AuthDetails) : Prop := ∃ e, l.at_ x = .connected d e

/-- What holds of two nodes from the first byte of the handshake on. -/
structure Proper (X : XXSpec H S) (Y : Yatlv) (i r : Node E) (calls : Side → List Call)
    (l : Life η σ E) : Prop where
  /-- nobody is connected whose checks did not pass, the responder never before the initiator -/
  initiator : ∀ d, l.Connected .left d → ConnectOk X Y i r d
  responder : ∀ d, l.Connected .right d → AcceptOk X Y i r d ∧ ∃ d', l.Connected .left d'
  /-- once the responder is connected, both sides see the first messages of the other, in order,
  and no error -/
  first : ∀ d, l.Connected .right d → ∀ x, ∃ done, done <+: accepted (calls x) ∧
    (l.seen x.other).outcomes = done.map fun c => .got c.1 c.2
  /-- before that, and after it has refused, nobody gets a message -/
  silent : (∀ d, ¬ l.Connected .right d) →
    ∀ x, ∀ o ∈ (l.seen x).outcomes, o = .failed (.io .unexpectedEof)
  /-- two nodes with good headers get to know each other and receive everything -/
  completes : ∀ d d', ConnectOk X Y i r d → AcceptOk X Y i r d' →
    ∃ more, (Lts.run (step H T Y fun x => sendAll (calls x)) l more).Connected .left d ∧
      (Lts.run (step H T Y fun x => sendAll (calls x)) l more).Connected .right d' ∧
      ∀ x, ((Lts.run (step H T Y fun x => sendAll (calls x)) l more).seen x.other).outcomes =
        (accepted (calls x)).map fun c => .got c.1 c.2
  /-- an initiator that is refused can be brought to learn it, from a read -/
  noticed : ∀ d, ConnectOk X Y i r d → (∀ d', ¬ AcceptOk X Y i r d') →
    ∃ more, (Lts.run (step H T Y fun x => sendAll (calls x)) l more).Connected .left d ∧
      .failed (.io .unexpectedEof) ∈
        ((Lts.run (step H T Y fun x => sendAll (calls x)) l more).seen .left).outcomes

theorem Met.connected (h : Met X Y i r ops items l) :
    ∃ d d', l.Connected .left d ∧ l.Connected .right d' ∧ ConnectOk X Y i r d ∧
      AcceptOk X Y i r d' := by
  obtain ⟨w, details, d, key, rfl, hf, yes, yes'⟩ := h
  exact ⟨details .left, details .right, ⟨_, rfl⟩, ⟨_, rfl⟩, yes, yes'⟩

theorem Met.outcomes (h : Met X Y i r ops items l) (x : Side) :
    ∃ done, done <+: items x ∧ (l.seen x.other).outcomes = done.map Item.outcome := by
  obtain ⟨w, details, d, key, rfl, hf, yes, yes'⟩ := h
  obtain ⟨consumed, unread, rest, hx⟩ := hf x
  obtain ⟨done, part, hdone, -, hobs⟩ := hx.at_.outcomes
  exact ⟨done, hdone, hobs⟩

theorem Connected.det {d d' : AuthDetails} (h : l.Connected x d) (h' : l.Connected x d') :
    d = d' := by
  obtain ⟨e, he⟩ := h
  obtain ⟨e', he'⟩ := h'
  rw [he] at he'
  cases he'
  rfl

theorem not_connected {s : Session η σ E} (h : l.at_ x = .shaking s) (d : AuthDetails) :
    ¬ l.Connected x d := by
  rintro ⟨e, he⟩
  rw [h] at he
  cases he

theorem Reached.initiator (h : Reached X Y i r ops items l) {d : AuthDetails}
    (hd : l.Connected .left d) : ConnectOk X Y i r d := by
  cases h with
  | shaking p hl on un =>
    subst hl
    exact absurd hd (not_connected (ofPair_at ops un .left) d)
  | ahead h =>
    obtain ⟨d', w, e, s, hr, c, t₀, sent, hL, -, -, -, yes, -⟩ := h
    rw [hd.det ⟨_, hL⟩]
    exact yes
  | met h =>
    obtain ⟨d₁, d₂, h₁, -, yes, -⟩ := h.connected
    rw [hd.det h₁]
    exact yes
  | rejected h =>
    obtain ⟨d', e, s, hr, err, hL, -, -, yes, -⟩ := h
    rw [hd.det ⟨_, hL⟩]
    exact yes

/-- With the responder connected, both are. -/
theorem Reached.met_of_right (h : Reached X Y i r ops items l) {d : AuthDetails}
    (hd : l.Connected .right d) : Met X Y i r ops items l := by
  cases h with
  | shaking p hl on un =>
    subst hl
    exact absurd hd (not_connected (ofPair_at ops un .right) d)
  | ahead h =>
    obtain ⟨d', w, e, s, hr, c, t₀, sent, -, hR, -⟩ := h
    exact absurd hd (not_connected hR d)
  | met h => exact h
  | rejected h =>
    obtain ⟨d', e, s, hr, err, -, hR, -⟩ := h
    exact absurd hd (not_connected hR d)

theorem seen_shaking {s : Session η σ E} (h : l.at_ x = .shaking s) :
    (l.seen x).outcomes = [] := by
  simp only [seen, h, Peer.seen]

theorem Reached.silent (h : Reached X Y i r ops items l) (hno : ∀ d, ¬ l.Connected .right d)
    (x : Side) : ∀ o ∈ (l.seen x).outcomes, o = .failed (.io .unexpectedEof) := by
  have hdeaf : ∀ {d e} {s : Session η σ E}, l.at_ .left = .connected d e →
      l.at_ .right = .shaking s → e.receiver.Deaf →
      ∀ o ∈ (l.seen x).outcomes, o = .failed (.io .unexpectedEof) := by
    intro d e s hL hR hd o ho
    cases x with
    | left =>
      simp only [seen, hL, Peer.seen] at ho
      exact hd.nothing o ho
    | right =>
      rw [seen_shaking hR] at ho
      cases ho
  cases h with
  | shaking p hl on un =>
    subst hl
    rw [seen_shaking (ofPair_at ops un x)]
    intro o ho
    cases ho
  | ahead h =>
    obtain ⟨d', w, e, s, hr, c, t₀, sent, hL, hR, -, -, -, hah, -⟩ := h
    exact hdeaf hL hR hah.untouched.deaf
  | met h =>
    obtain ⟨d₁, d₂, -, h₂, -⟩ := h.connected
    exact absurd h₂ (hno d₂)
  | rejected h =>
    obtain ⟨d', e, s, hr, err, hL, hR, -, -, -, -, hd⟩ := h
    exact hdeaf hL hR hd

/-- The handshake can be brought to its end. -/
theorem Reached.exists_end (hfits : ∀ x, Fits (ops x))
    (hplan : ∀ x, plan none (ops x) = wire (items x)) (h : Reached X Y i r ops items l)
    {d : AuthDetails} (yes : ConnectOk X Y i r d) :
    ∃ more, Rejected X Y i r (Lts.run (step H T Y ops) l more) ∨
      Met X Y i r ops items (Lts.run (step H T Y ops) l more) := by
  cases h with
  | shaking p hl on un =>
    subst hl
    obtain ⟨as1, h1⟩ := exists_ahead (T := T) hfits on un yes
    obtain ⟨as2, h2⟩ := exists_decided (T := T) hfits hplan h1
    refine ⟨as1 ++ as2, ?_⟩
    rw [Lts.run_append]
    exact h2
  | ahead h => exact exists_decided hfits hplan h
  | met h => exact ⟨[], .inr h⟩
  | rejected h => exact ⟨[], .inl h⟩

end Life

theorem Life.Reached.proper (hS : S.Correct) {X : XXSpec H S} {Y : Yatlv} {i r : Node E}
    {calls : Side → List Call} {l : Life η σ E}
    (h : Life.Reached X Y i r (fun x => sendAll (calls x))
      (fun x => messages (accepted (calls x))) l) : Proper X Y i r calls l := by
  have hfits : ∀ x, Fits (sendAll (calls x)) := fun x => fits_sendAll _
  have hplan : ∀ x, plan none (sendAll (calls x)) = wire (messages (accepted (calls x))) :=
    fun x => plan_sendAll _
  refine ⟨fun d => h.initiator, fun d hd => ?_, fun d hd x => ?_, h.silent, ?_, ?_⟩
  · obtain ⟨d₁, d₂, h₁, h₂, -, yes⟩ := (h.met_of_right hd).connected
    rw [hd.det h₂]
    exact ⟨yes, d₁, h₁⟩
  · obtain ⟨done, hpre, hobs⟩ := (h.met_of_right hd).outcomes x
    obtain ⟨first, hfirst, rfl⟩ := exists_messages hpre
    exact ⟨first, hfirst, by rw [hobs, outcome_messages]⟩
  · intro d d' yes yes'
    obtain ⟨as1, hrej | hmet⟩ := h.exists_end (T := T) hfits hplan yes
    · obtain ⟨-, -, -, -, -, -, -, -, -, no, -⟩ := hrej
      exact absurd yes' (no d')
    · obtain ⟨as2, hmet', hall⟩ := exists_exchanged hS hmet
      obtain ⟨d₁, d₂, h₁, h₂, ok₁, ok₂⟩ := hmet'.connected
      refine ⟨as1 ++ as2, ?_⟩
      rw [Lts.run_append, yes.det ok₁, yes'.det ok₂]
      exact ⟨h₁, h₂, fun x => by rw [hall x, outcome_messages]⟩
  · intro d yes no
    obtain ⟨as1, hrej | hmet⟩ := h.exists_end (T := T) hfits hplan yes
    · obtain ⟨as2, hseen⟩ := exists_noticed (T := T) (fun x => sendAll (calls x)) hrej
      refine ⟨as1 ++ as2, ?_⟩
      rw [Lts.run_append]
      refine ⟨?_, hseen⟩
      have hrej' := Lts.run_inv (I := Rejected X Y i r)
        (fun _ a h => step_rejected (T := T) (fun x => sendAll (calls x)) h a) as2 hrej
      obtain ⟨d₁, e, s, hr, err, hL, -, -, ok₁, -⟩ := hrej'
      rw [yes.det ok₁]
      exact ⟨e, hL⟩
    · obtain ⟨d₁, d₂, -, -, -, ok₂⟩ := hmet.connected
      exact absurd ok₂ (no d₂)

/-- Two nodes at the ends of a new stream, and where they can get to. -/
theorem Life.start_reached (hS : S.Correct) (X : XXSpec H S) (Y : Yatlv) (i r : Node E)
    (calls : Side → List Call) :
    ∃ l₀, Life.start H (fun x => sendAll (calls x)) i r = .ok l₀ ∧ ∀ acts,
      Life.Reached X Y i r (fun x => sendAll (calls x)) (fun x => messages (accepted (calls x)))
        (Lts.run (Life.step H T Y fun x => sendAll (calls x)) l₀ acts) := by
  obtain ⟨p₀, hstart, hon⟩ := Pair.start_on X Y i r
  have hu : p₀.Unconnected := Pair.start_unconnected hstart
  refine ⟨.ofPair _ p₀, by simp only [Life.start, hstart]; rfl, fun acts => ?_⟩
  exact Lts.run_inv (I := Life.Reached X Y i r (fun x => sendAll (calls x))
      fun x => messages (accepted (calls x)))
    (fun _ a h => Life.step_reached hS (fun x => fits_sendAll _) (fun x => plan_sendAll _) h a)
    acts (.shaking p₀ rfl hon hu)

/-- **The life of a connection.** Two nodes at the ends of a stream shake hands and then send what
they like, in any interleaving of handshakes, sends, reads and arriving bytes. Whoever is connected
has checked the other's header; messages sent before the responder has read the last message of the
handshake are not lost; each side sees the other's messages in order; and nobody gets a message of
a node that was refused. -/
theorem life_proper (hS : S.Correct) (X : XXSpec H S) (Y : Yatlv) (i r : Node E)
    (calls : Side → List Call) :
    ∃ l₀, Life.start H (fun x => sendAll (calls x)) i r = .ok l₀ ∧ ∀ acts,
      Life.Proper X Y i r calls (Lts.run (Life.step H T Y fun x => sendAll (calls x)) l₀ acts) := by
  obtain ⟨l₀, hstart, hreach⟩ := Life.start_reached hS X Y i r calls
  exact ⟨l₀, hstart, fun acts => (hreach acts).proper hS⟩

/-- Two nodes that take each other, with calls to make on both sides. -/
theorem life_proper_plain :
    Tagged.spec.Correct ∧
    ConnectOk Plain.spec Plain.yatlv Plain.initiator Plain.responder ⟨⟨[2]⟩, none⟩ ∧
    AcceptOk Plain.spec Plain.yatlv Plain.initiator Plain.responder ⟨⟨[1]⟩, none⟩ ∧
    ∃ l₀, Life.start Plain.ops (fun x => sendAll (Tagged.someCalls x)) Plain.initiator
        Plain.responder = .ok l₀ ∧ ∀ acts,
      Life.Proper Plain.spec Plain.yatlv Plain.initiator Plain.responder Tagged.someCalls
        (Lts.run (Life.step Plain.ops Tagged.transport Plain.yatlv
          fun x => sendAll (Tagged.someCalls x)) l₀ acts) :=
  ⟨Tagged.decrypt_encrypt,
    ⟨by decide, ⟨⟨⟨[2]⟩, none, Plain.pub Plain.responderKey⟩, rfl, rfl, rfl⟩, by decide⟩,
    ⟨⟨⟨[1]⟩, none, Plain.pub Plain.initiatorKey⟩, rfl, rfl, rfl⟩,
    life_proper (S := Tagged.spec) Tagged.decrypt_encrypt Plain.spec
    Plain.yatlv Plain.initiator Plain.responder Tagged.someCalls⟩

end Snowpack
