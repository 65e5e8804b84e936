import Snowpack.Handshake.Proof.Outcome
import Snowpack.System.Life
import Snowpack.Transport.Proof.Tamper

/-!
# The first connection of two

`connect` returns as soon as it has written message 3, so the initiator may send messages before
the responder has read it, and the responder may find them behind message 3 in what has arrived.
`Ahead` is what holds in that time, `Pair.poll_unconnected` that it begins with the initiator, and
`Ahead.flowing` that the two connections then start as if nothing had been sent before: what a side
wrote in its handshake is never looked at again (`behind`).
-/

namespace Snowpack

open Wire HandshakeContext

variable {η σ : Type} {H : HandshakeOps η σ} {T : TransportOps σ} {S : TransportSpec T}
  {E : Ed25519}

/-! ## A sender behind a handshake

What was written before is not looked at again. -/

/-- A sender on a stream on which `w` has been written before. -/
def PacketTx.behind (w : Bytes) (tx : PacketTx) : PacketTx :=
  { tx with write.written := w ++ tx.write.written }

/-- The same, with the calls it makes. -/
def Sender.behind (w : Bytes) (d : Sender) : Sender := { d with tx := d.tx.behind w }

/-- The same for a side. -/
def Endpoint.behind (w : Bytes) (e : Endpoint σ) : Endpoint σ :=
  { e with sender := e.sender.behind w }

namespace PacketTx

theorem writeAll_behind (w : Bytes) (h : WriteHalf) (data : Bytes) :
    WriteHalf.writeAll ⟨w ++ h.written, h.broken⟩ data =
      ((h.writeAll data).1, ⟨w ++ (h.writeAll data).2.written, (h.writeAll data).2.broken⟩) := by
  unfold WriteHalf.writeAll
  split <;> simp

theorem writeFrame_behind (w : Bytes) (tx : PacketTx) (s : σ) (p : Bytes) :
    (tx.behind w).writeFrame T s p =
      ((tx.writeFrame T s p).1, (tx.writeFrame T s p).2.1.behind w, (tx.writeFrame T s p).2.2) := by
  rcases hw : T.writeMessage s p ((if tx.writeBuf.length < frameHeaderSize +
      (p.length + cipherOverheadSize) then resize tx.writeBuf (frameHeaderSize +
      (p.length + cipherOverheadSize)) else tx.writeBuf).drop frameHeaderSize) with ⟨s', out, res⟩
  have hw' : T.writeMessage s p ((if (tx.behind w).writeBuf.length < frameHeaderSize +
      (p.length + cipherOverheadSize) then resize (tx.behind w).writeBuf (frameHeaderSize +
      (p.length + cipherOverheadSize)) else (tx.behind w).writeBuf).drop frameHeaderSize) =
      (s', out, res) := hw
  unfold writeFrame
  simp only [hw, hw']
  cases res with
  | error e => rfl
  | ok n =>
    simp only
    cases slice? (toBe (UInt16.ofNat n) ++ out) 0 (frameHeaderSize + n) with
    | none => rfl
    | some bytes =>
      simp only [behind, writeAll_behind]
      rcases tx.write.writeAll bytes with ⟨r, w'⟩
      cases r <;> rfl

theorem prepareMessage_behind (w : Bytes) (tx : PacketTx) (t : UInt16) :
    (tx.behind w).prepareMessage t =
      ((tx.prepareMessage t).1, (tx.prepareMessage t).2.behind w) := by
  simp only [prepareMessage, behind]
  rcases tx.packetBuilder.prepare t with ⟨res, b⟩
  cases res <;> rfl

theorem sendPacket_behind (w : Bytes) (tx : PacketTx) (s : σ) (c : Bytes) (last : Bool) :
    (tx.behind w).sendPacket T s c last =
      ((tx.sendPacket T s c last).1, (tx.sendPacket T s c last).2.1.behind w,
        (tx.sendPacket T s c last).2.2) := by
  simp only [sendPacket]
  have hb : (tx.behind w).packetBuilder = tx.packetBuilder := rfl
  rw [hb]
  rcases tx.packetBuilder.pack c last with ⟨res, b⟩
  cases res with
  | error e => rfl
  | ok raw => exact writeFrame_behind w { tx with packetBuilder := b } s raw

theorem abortMessage_behind (w : Bytes) (tx : PacketTx) (s : σ) :
    (tx.behind w).abortMessage T s =
      ((tx.abortMessage T s).1, (tx.abortMessage T s).2.1.behind w, (tx.abortMessage T s).2.2) := by
  simp only [abortMessage]
  have hb : (tx.behind w).packetBuilder = tx.packetBuilder := rfl
  rw [hb]
  rcases tx.packetBuilder.abort with ⟨res, b⟩
  cases res with
  | none => rfl
  | some raw => exact writeFrame_behind w { tx with packetBuilder := b } s raw

end PacketTx

theorem Sender.step_behind (w : Bytes) (d : Sender) (s : σ) :
    (d.behind w).step T s = ((d.step T s).1.behind w, (d.step T s).2) := by
  obtain ⟨tx, todo, current, results⟩ := d
  simp only [step, behind]
  cases current with
  | cons c cs =>
    simp only [PacketTx.sendPacket_behind]
    rcases tx.sendPacket T s c cs.isEmpty with ⟨res, tx', s'⟩
    cases res with
    | error f => rfl
    | ok u => cases cs <;> rfl
  | nil =>
    cases todo with
    | nil => rfl
    | cons op rest =>
      cases op with
      | send t p =>
        simp only [PacketTx.prepareMessage_behind]
        rcases tx.prepareMessage t with ⟨res, tx'⟩
        cases res <;> rfl
      | prepare t =>
        simp only [PacketTx.prepareMessage_behind]
        rfl
      | packet c last =>
        simp only [PacketTx.sendPacket_behind]
        rfl
      | abort =>
        simp only [PacketTx.abortMessage_behind]
        rfl

/-! ## Two connections behind a handshake -/

/-- A step of two connected sides is one of two nodes. -/
def DuplexAct.inLife : DuplexAct → LifeAct
  | .send x => .send x
  | .deliver x n => .deliver x n
  | .recv x drain => .recv x drain

namespace Life

variable {Y : Yatlv} {ops : Side → List TxOp}

/-- Two connected sides, with what each wrote in its handshake and what it learned there. -/
def ofDuplex (w : Side → Bytes) (details : Side → AuthDetails) (d : Duplex σ) : Life η σ E :=
  d.map (fun x e => .connected (details x) (e.behind (w x))) fun x n => (w x).length + n

theorem inFlight_ofDuplex (w : Side → Bytes) (details : Side → AuthDetails) (d : Duplex σ)
    (x : Side) : (ofDuplex w details d : Life η σ E).inFlight x = d.inFlight x := by
  have hw : (ofDuplex w details d : Life η σ E).written x = w x ++ d.written x := rfl
  have hm : (ofDuplex w details d : Life η σ E).moved x = (w x).length + d.moved x := rfl
  rw [Ends.inFlight, hw, hm, List.drop_length_add_append, Ends.inFlight]

theorem step_ofDuplex (w : Side → Bytes) (details : Side → AuthDetails) (d : Duplex σ)
    (a : DuplexAct) :
    (ofDuplex w details d : Life η σ E).step H T Y ops a.inLife =
      ofDuplex w details (d.step T a) := by
  have hat (x : Side) : (ofDuplex w details d : Life η σ E).at_ x =
      .connected (details x) ((d.at_ x).behind (w x)) := rfl
  have hset (x : Side) (e : Endpoint σ) : (ofDuplex w details (d.set x e) : Life η σ E) =
      (ofDuplex w details d).set x (.connected (details x) (e.behind (w x))) :=
    Ends.map_set _ _ d x e
  cases a with
  | send x =>
    simp only [DuplexAct.inLife, step, hat, Duplex.step, hset, Endpoint.behind,
      Sender.step_behind]
  | recv x drain => simp only [DuplexAct.inLife, step, hat, Duplex.step, hset, Endpoint.behind]
  | deliver x n =>
    exact (Ends.map_deliver (inFlight_ofDuplex w details d x) (fun _ => rfl)
      (fun m k => (Nat.add_assoc _ m k).symm) n).symm

end Life

/-! ## Before anyone is connected -/

/-- So is a step of a handshake. -/
def PairAct.inLife : PairAct → LifeAct
  | .poll x => .poll x
  | .deliver x n => .deliver x n
  | .hangUp x => .hangUp x

theorem Session.onStream_result (s : Session η σ E) (f : HandshakeContext η → HandshakeContext η) :
    (s.onStream f).stage.result = s.stage.result := by
  unfold onStream
  cases s.stage <;> rfl

theorem Session.arrive_result (s : Session η σ E) (bytes : Bytes) :
    (StreamEnd.arrive s bytes).stage.result = s.stage.result := s.onStream_result _

/-- Nobody has a connection yet. -/
def Pair.Unconnected (p : Pair η σ E) : Prop := ∀ x a, (p.at_ x).stage.result ≠ some (.ok a)

theorem Pair.start_unconnected {i r : Node E} {p : Pair η σ E} (h : start H i r = .ok p) :
    p.Unconnected := by
  unfold start at h
  split at h
  · rename_i s t hs ht
    cases h
    rintro (- | -) a
    · unfold Session.connect at hs
      split at hs
      · cases hs
      · split at hs <;> cases hs <;> simp [join, Side.both, Stage.result]
    · unfold Session.accept at ht
      split at ht <;> cases ht
      simp [join, Side.both, Stage.result]
  · cases h
  · cases h

theorem Peer.settle_shaking {s : Session η σ E} (h : ∀ a, s.stage.result ≠ some (.ok a))
    (ops : List TxOp) : settle ops s = .shaking s := by
  unfold settle
  split
  · rename_i a ha
    exact absurd ha (h a)
  · rfl

namespace Life

variable {Y : Yatlv} (ops : Side → List TxOp)

theorem ofPair_at {p : Pair η σ E} (h : p.Unconnected) (x : Side) :
    (ofPair ops p).at_ x = .shaking (p.at_ x) := Peer.settle_shaking (h x) (ops x)

theorem inFlight_ofPair {p : Pair η σ E} (h : p.Unconnected) (x : Side) :
    (ofPair ops p).inFlight x = p.inFlight x := by
  have hw : (ofPair ops p).written x = p.written x := by
    rw [Ends.written, ofPair_at ops h]
    rfl
  rw [Ends.inFlight, hw, Ends.inFlight]
  rfl

theorem ofPair_set (p : Pair η σ E) (x : Side) (s : Session η σ E) :
    (ofPair ops p).set x (.settle (ops x) s) = ofPair ops (p.set x s) :=
  (Ends.map_set _ _ p x s).symm

theorem settle_onStream {p : Pair η σ E} (h : p.Unconnected) (x : Side) (f : ReadHalf → ReadHalf) :
    Peer.settle (ops x) ((p.at_ x).onStream fun hs => { hs with read := f hs.read }) =
      ((ofPair ops p).at_ x).onRead f := by
  rw [ofPair_at ops h, Peer.onRead, Peer.settle_shaking]
  intro a
  rw [Session.onStream_result]
  exact h x a

/-- The moves of a handshake, as long as nobody is connected before them. -/
theorem step_ofPair {p : Pair η σ E} (h : p.Unconnected) (a : PairAct) :
    (ofPair ops p).step H T Y ops a.inLife = ofPair ops (p.step H Y a) := by
  cases a with
  | poll x =>
    simp only [PairAct.inLife, step, ofPair_at ops h, Pair.step]
    exact ofPair_set ops p x _
  | deliver x n =>
    have harrive (bytes : Bytes) := settle_onStream ops h x.other fun read =>
      { read with buf := read.buf ++ bytes }
    exact (Ends.map_deliver (inFlight_ofPair ops h x) harrive (fun _ _ => rfl) n).symm
  | hangUp x =>
    have hd : ((ofPair ops p).at_ x).dropped = p.dropped x := by rw [ofPair_at ops h]; rfl
    simp only [PairAct.inLife, step, inFlight_ofPair ops h, hd, ← settle_onStream ops h,
      ofPair_set, Pair.step]
    split <;> rfl

end Life

/-! ## One side ahead of the other -/

/-- A receiver that has done nothing yet, on a stream on which nothing has arrived. -/
def Receiver.Untouched (r : Receiver σ) : Prop :=
  ∃ rx, r = .new (.new rx) r.cipher ∧ rx.packetReader = .new ∧ rx.read = ⟨[], false⟩

theorem Receiver.Untouched.loop {r : Receiver σ} (h : r.Untouched) (drain : Bool) :
    r.loop T drain = r := by
  obtain ⟨rx, hr, -, hread⟩ := h
  refine LoopAt.loop_pending ?_ (PacketRx.readPacket_empty ?_ ?_) drain
  · rw [hr]
    exact trivial
  · rw [hr]
    exact congrArg ReadHalf.buf hread
  · rw [hr]
    exact congrArg ReadHalf.eof hread

theorem Receiver.Untouched.loopAt {r : Receiver σ} (h : r.Untouched) (items : List Item) :
    LoopAt items (wire items) r := by
  obtain ⟨rx, hr, hrd, -⟩ := h
  refine .free [] items rfl rfl (by rw [hr]; rfl) ?_ (by rw [hr]; rfl)
  rw [hr]
  exact congrArg PacketReader.inProgress hrd

/-- The initiator has a connection and has sent `sent` over it; the responder waits for message 3,
the frame `c`. The cipher state the initiator started with is `t₀`. -/
structure Ahead (X : XXSpec H S) (i : Node E) (ops : List TxOp) (w : Bytes) (e : Endpoint σ)
    (hr : HandshakeContext η) (moved : Nat) (c : Bytes) (t₀ : σ) (sent : List Packet) : Prop where
  waits : ∃ nr, hr.Waits nr ∧ Opens H c i.localAuthHeader nr (Final X i t₀)
  sends : Sends S (S.sendKey t₀) ops e.sender e.receiver.cipher sent
  recv : SameRecv S t₀ e.receiver.cipher
  untouched : e.receiver.Untouched
  eof : hr.read.eof = false
  pending : hr.read.buf ++ (w ++ e.sender.tx.write.written).drop moved =
    Wire.frame c ++ e.sender.tx.write.written
  within : moved ≤ (w ++ e.sender.tx.write.written).length

namespace Ahead

variable {X : XXSpec H S} {i : Node E} {ops : List TxOp} {w : Bytes} {e : Endpoint σ}
  {hr : HandshakeContext η} {moved : Nat} {c : Bytes} {t₀ : σ} {sent : List Packet}

theorem send (h : Ahead X i ops w e hr moved c t₀ sent) :
    ∃ sent', Ahead X i ops w
      ⟨(e.sender.step T e.receiver.cipher).1,
        { e.receiver with cipher := (e.sender.step T e.receiver.cipher).2 }⟩
      hr moved c t₀ sent' := by
  obtain ⟨new, hs, hrecv⟩ := h.sends.step
  have hw : (e.sender.step T e.receiver.cipher).1.tx.write.written =
      e.sender.tx.write.written ++ S.frames (S.sendKey t₀) sent.length new := by
    rw [hs.wrote.written, h.sends.wrote.written, TransportSpec.frames_append, Nat.zero_add]
  refine ⟨sent ++ new, ⟨h.waits, hs, ⟨hrecv.1.trans h.recv.1, hrecv.2.trans h.recv.2⟩, ?_, h.eof,
    ?_, ?_⟩⟩
  · obtain ⟨rx, hrx, hrd, hread⟩ := h.untouched
    exact ⟨rx, by rw [hrx]; rfl, hrd, hread⟩
  · rw [hw, ← List.append_assoc, List.drop_append_of_le_length h.within, ← List.append_assoc,
      h.pending, List.append_assoc]
  · rw [hw, ← List.append_assoc, List.length_append]
    exact Nat.le_add_right_of_le h.within

theorem deliver (h : Ahead X i ops w e hr moved c t₀ sent) (n : Nat) :
    Ahead X i ops w e
      { hr with read := { hr.read with
          buf := hr.read.buf ++ ((w ++ e.sender.tx.write.written).drop moved).take n } }
      (moved + (((w ++ e.sender.tx.write.written).drop moved).take n).length) c t₀ sent := by
  obtain ⟨nr, hw, ho⟩ := h.waits
  refine { h with waits := ⟨nr, hw.set_read _, ho⟩, pending := ?_, within := ?_ }
  · have hp := h.pending
    rw [← List.take_append_drop n ((w ++ e.sender.tx.write.written).drop moved),
      ← List.append_assoc] at hp
    rw [← hp, List.length_take, ← List.drop_drop, ← List.drop_eq_drop_min]
  · have := h.within
    rw [List.length_take, List.length_drop]
    omega

/-- Where the bytes behind message 3 are once it has been read. -/
theorem behind_third (h : Ahead X i ops w e hr moved c t₀ sent) {rest : Bytes}
    (hbuf : hr.read.buf = Wire.frame c ++ rest) :
    moved = w.length + rest.length ∧ e.sender.tx.write.written.take rest.length = rest := by
  have hp := h.pending
  rw [hbuf, List.append_assoc] at hp
  have hrest := List.append_cancel_left hp
  have hlen := congrArg List.length hrest
  have hle := h.within
  rw [List.length_append] at hle
  simp only [List.length_append, List.length_drop] at hlen
  refine ⟨by omega, ?_⟩
  rw [← hrest, List.take_left]

end Ahead

/-- A side right behind its handshake, less what it wrote in it. -/
def Endpoint.justOpened (frame noiseBuf rest : Bytes) (t : σ) (ops : List TxOp) : Endpoint σ where
  sender := .new ⟨.new, ⟨[], false⟩, []⟩ ops
  receiver := .new (.new ⟨.new, ⟨rest, false⟩, frame, noiseBuf, 0⟩) t

/-- The two sides once the responder is connected as well. -/
def Duplex.joined (e e' : Endpoint σ) (moved : Nat) : Duplex σ where
  at_ := Side.both e e'
  moved := Side.both moved 0

theorem Ahead.flowing {X : XXSpec H S} {i : Node E} {ops : Side → List TxOp}
    {items : Side → List Item} (hfit : ∀ x, Fits (ops x))
    (hplan : ∀ x, plan none (ops x) = wire (items x)) {w : Bytes} {e : Endpoint σ}
    {hr : HandshakeContext η} {moved : Nat} {c : Bytes} {t₀ : σ} {sent : List Packet}
    (h : Ahead X i (ops .left) w e hr moved c t₀ sent) {rest : Bytes}
    (hbuf : hr.read.buf = Wire.frame c ++ rest) {t : σ} (hp : Paired S t₀ t)
    (frame noiseBuf : Bytes) :
    ∃ key, (Duplex.joined e (.justOpened frame noiseBuf rest t (ops .right)) rest.length).Flowing S
      key ops items := by
  obtain ⟨-, htake⟩ := h.behind_third hbuf
  have hok : ∀ x, ∀ p ∈ wire (items x), PacketOk p := fun x p hx =>
    plan_ok (o := none) (hfit x) (by simp) p (by rw [hplan x]; exact hx)
  refine ⟨Side.both (S.sendKey t₀) (S.sendKey t), fun x => ?_⟩
  cases x with
  | left =>
    refine ⟨[], sent, wire (items .left), h.sends, .free [] _ rfl rfl rfl rfl rfl, rfl, hok _,
      hplan _, htake, ?_, rfl, hp.sends.symm, hp.recvNonce.2⟩
    rw [← htake]
    exact List.length_take_le' _ _
  | right =>
    refine ⟨[], [], wire (items .right), .start rfl rfl hp.sendNonce.2 (hfit _),
      h.untouched.loopAt _, rfl, hok _, hplan _, ?_, Nat.zero_le _, ?_, h.recv.1.trans hp.receives,
      h.recv.2.trans hp.recvNonce.1⟩
    · obtain ⟨rx, hrx, -, hread⟩ := h.untouched
      have : e.receiver.rx.packets.read.buf = [] := by
        rw [hrx]
        exact congrArg ReadHalf.buf hread
      simp only [Duplex.joined, Side.other, Side.both, this]
      rfl
    · obtain ⟨rx, hrx, -, hread⟩ := h.untouched
      simp only [Duplex.joined, Side.other, Side.both]
      rw [hrx]
      exact congrArg ReadHalf.eof hread

/-! ## The initiator gets its connection -/

namespace Pair

variable {X : XXSpec H S} {Y : Yatlv} {i r : Node E} {p : Pair η σ E} {n : Nat} {x : Side}

/-- What a poll that gives the initiator its connection leaves behind. -/
structure Opened (X : XXSpec H S) (Y : Yatlv) (i r : Node E) (ops : List TxOp) (p : Pair η σ E) :
    Prop where
  ahead : ∃ a w e hr c t₀, (p.at_ .left).stage.result = some (.ok a) ∧
    (p.at_ .right).stage = .message3 hr ∧ ConnectOk X Y i r a.2 ∧
    Endpoint.opened a ops = Endpoint.behind w e ∧
    Ahead X i ops w e hr (p.moved .left) c t₀ [] ∧
    hr.write.written.length = p.moved .right

/-- The initiator has returned its connection, and the responder waits for message 3. -/
theorem Phase.opened {ops : List TxOp} (hfits : Fits ops) (h : Phase X Y i r n x p)
    {a : Accepted σ} (hok : (p.at_ .left).stage.result = some (.ok a)) {hr : HandshakeContext η}
    (hR : (p.at_ .right).stage = .message3 hr) : Opened X Y i r ops p := by
  cases h with
  | @third _ hl hr' nr c split d hL hR' wr yes ho sl el fl =>
    have hwr : p.written .right = hr'.write.written := by
      rw [written_eq, hR', Stage.context]
    have hread : (p.at_ Side.left.other).stage.context.read = hr'.read := by
      rw [Side.other, hR', Stage.context]
    obtain ⟨-, -, -, t, -, paired⟩ := ho.opens i.localAuthHeader (Nat.le_refl _)
    refine ⟨(split, d), p.written .left, ⟨.new { split.tx with write := ⟨[], false⟩ } ops,
      .new (.new split.rx) split.state⟩, hr', c, split.state, by rw [hL, Stage.result], hR', yes,
      ?_, ⟨⟨nr, wr, ho⟩, .start (by rw [fl.builder]; rfl) rfl paired.sendNonce.1 hfits, .refl S _,
        ⟨split.rx, rfl, fl.reader, fl.read⟩, ?_, ?_, ?_⟩, ?_⟩
    · -- the sending half goes on behind the handshake
      simp only [Endpoint.opened, connection, MessageTx.new, MessageRx.new, Endpoint.behind,
        Sender.behind, PacketTx.behind, Sender.new, List.append_nil]
      rw [← fl.write]
    · rw [← hread]
      exact el
    · simp only [Sender.new, List.append_nil]
      rw [← hread]
      exact sl.pending
    · simpa [Sender.new] using sl.moved
    · rw [← hwr]
      exact fl.arrived.symm
  | first hL | second hL | refused hL | failed hL | nobody _ hL =>
    rw [hL] at hok
    cases hok
  | rejected _ _ hR' | met _ _ hR' =>
    rw [hR] at hR'
    cases hR'

theorem step_unconnected {a : PairAct} (hp : ∀ y, a ≠ .poll y) (h : p.Unconnected) :
    (p.step H Y a).Unconnected := by
  intro y c
  cases a with
  | poll z => exact absurd rfl (hp z)
  | deliver z k =>
    simp only [step, Ends.at_deliver]
    split
    · rename_i he
      rw [Session.arrive_result, ← he]
      exact h y c
    · exact h y c
  | hangUp z =>
    simp only [step]
    split
    · simp only [Ends.at_set]
      split
      · rename_i he
        rw [Session.onStream_result, ← he]
        exact h y c
      · exact h y c
    · exact h y c

/-- The first to get a connection is the initiator, when it has taken message 2. -/
theorem poll_unconnected {ops : List TxOp} (hfits : Fits ops) (hc : Configured i r p)
    (h : Phase X Y i r n x p) (hu : p.Unconnected) (y : Side) :
    (p.step H Y (.poll y)).Unconnected ∨ Opened X Y i r ops (p.step H Y (.poll y)) := by
  obtain ⟨n', x', h'⟩ : ∃ n' x', Phase X Y i r n' x' (p.step H Y (.poll y)) := by
    rcases poll_phase hc h y with ⟨heq, -⟩ | ⟨m, x', -, hp'⟩
    · exact ⟨n, x, heq.symm ▸ h⟩
    · exact ⟨m, x', hp'⟩
  by_cases hu' : (p.step H Y (.poll y)).Unconnected
  · exact .inl hu'
  right
  -- a side is connected now, so the initiator is, and it was the one that was polled
  obtain ⟨a, hok⟩ : ∃ a, ((p.step H Y (.poll y)).at_ .left).stage.result = some (.ok a) := by
    simp only [Unconnected, not_forall, not_not] at hu'
    obtain ⟨z, a, hz⟩ := hu'
    cases z with
    | left => exact ⟨a, hz⟩
    | right => exact ((h'.responder _ hz a.2).1 ⟨a.1, rfl⟩).1
  have hy : y = .left := by
    cases y with
    | left => rfl
    | right =>
      rw [step, Ends.set_ne _ _ (by decide)] at hok
      exact absurd hok (hu .left a)
  subst hy
  have yes : ConnectOk X Y i r a.2 := (h'.initiator _ hok a.2).1 ⟨a.1, rfl⟩
  cases h with
  | first hL hR wl wr ho sl sr el er =>
    have hidle := poll_idle (H := H) (Y := Y) sr er (by simp only [Side.other, hL, Stage.result])
    simp only [Side.other] at hidle
    rw [hidle] at hok
    exact absurd hok (hu .left a)
  | @second _ hl hr nl nr c hL hR =>
    have hR' : ((p.step H Y (.poll .left)).at_ .right).stage = .message3 hr := by
      rw [step, Ends.set_ne _ _ (by decide)]
      exact hR
    exact h'.opened hfits hok hR'
  | refused hL hR no => exact absurd yes (no a.2)
  | failed hL hR no => exact absurd yes (no a.2)
  | nobody x hL hR no => exact absurd yes (no a.2)
  | third hL => exact absurd (by rw [hL]; rfl) (hu .left _)
  | rejected x hL => exact absurd (by rw [hL]; rfl) (hu .left _)
  | met x hL => exact absurd (by rw [hL]; rfl) (hu .left _)

end Pair

end Snowpack
