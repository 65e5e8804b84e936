import Snowpack.Handshake.Plain
import Snowpack.Handshake.Proof.Exchange
import Snowpack.Lib.Run

/-!
# The joint outcome of a handshake

`Phase` says where the two calls are: which message is under way, or who has failed and has not
been noticed yet, or that both have returned. Every move keeps it, and a poll that changes anything
lowers its level (`poll_phase`); the side that is waited for can always be brought on
(`Phase.advance`). `joint_outcome` reads the results off the phases.
-/

namespace Snowpack

open Wire HandshakeContext

variable {η σ : Type} {H : HandshakeOps η σ} {T : TransportOps σ} {S : TransportSpec T}
  {E : Ed25519}

/-! ## The conditions -/

section
variable (X : XXSpec H S) (Y : Yatlv) (i r : Node E)

/-- When `connect` succeeds, and with what details. -/
def ConnectOk (d : AuthDetails) : Prop :=
  32 + 48 + r.localAuthHeader.length + 16 ≤ maxNoiseMessage ∧
  (∃ h, SignedAuthHeader.verifyRaw E Y i.verificationKey r.localAuthHeader = .ok h ∧
    h.publicKey = X.pub r.localPrivate ∧ d = h.details) ∧
  48 + i.localAuthHeader.length + 16 ≤ maxNoiseMessage

/-- When `accept` takes the initiator's header, and with what details. -/
def AcceptOk (d : AuthDetails) : Prop :=
  ∃ h, SignedAuthHeader.verifyRaw E Y r.verificationKey i.localAuthHeader = .ok h ∧
    h.publicKey = X.pub i.localPrivate ∧ d = h.details

/-- The responder's state after message 3, when the initiator's is `s`. -/
def Final (s : σ) (noise : η) : Prop :=
  H.getRemoteStatic noise = some (X.pub i.localPrivate).bytes ∧
    ∃ t, H.intoTransportMode noise = .ok t ∧ Paired S s t

/-- The initiator's state after message 2, when the responder's is `nr`. -/
def Third (nr nl : η) : Prop :=
  H.getRemoteStatic nl = some (X.pub r.localPrivate).bytes ∧
    Carries H (48 + 16) nl nr fun nl nr =>
      H.getRemoteStatic nr = some (X.pub i.localPrivate).bytes ∧
      ∃ s t, H.intoTransportMode nl = .ok s ∧ H.intoTransportMode nr = .ok t ∧ Paired S s t

/-- The responder's state after message 1, when the initiator's is `nl`. -/
def Second (nl nr : η) : Prop := Carries H (32 + 48 + 16) nr nl (Third X i r)

end

theorem ConnectOk.det {X : XXSpec H S} {Y : Yatlv} {i r : Node E} {d d' : AuthDetails}
    (h : ConnectOk X Y i r d) (h' : ConnectOk X Y i r d') : d = d' := by
  obtain ⟨-, ⟨g, hg, -, rfl⟩, -⟩ := h
  obtain ⟨-, ⟨g', hg', -, rfl⟩, -⟩ := h'
  rw [hg] at hg'
  cases hg'
  rfl

/-- The details of a result are the only ones `connect` can succeed with. -/
theorem ConnectOk.result_iff {X : XXSpec H S} {Y : Yatlv} {i r : Node E} {d d' : AuthDetails}
    {split : Split σ} (h : ConnectOk X Y i r d') :
    (∃ split', (Except.ok (split, d') : Res (Accepted σ)) = .ok (split', d)) ↔
      ConnectOk X Y i r d := by
  constructor
  · rintro ⟨split', he⟩
    cases he
    exact h
  · intro hd
    exact ⟨split, by rw [hd.det h]⟩

theorem AcceptOk.det {X : XXSpec H S} {Y : Yatlv} {i r : Node E} {d d' : AuthDetails}
    (h : AcceptOk X Y i r d) (h' : AcceptOk X Y i r d') : d = d' := by
  obtain ⟨g, hg, -, rfl⟩ := h
  obtain ⟨g', hg', -, rfl⟩ := h'
  rw [hg] at hg'
  cases hg'
  rfl

/-- The checks on a payload, once Noise has reported the key of `private`. -/
theorem checkRemote_eq {Y : Yatlv} {vk : E.VerifyingKey} {hs : HandshakeContext η}
    {key : TransportPublicKey} (hk : H.getRemoteStatic hs.handshake = some key.bytes)
    {payload : Bytes} {h : AuthHeader} :
    checkRemote H E Y vk hs payload = .ok h ↔
      SignedAuthHeader.verifyRaw E Y vk payload = .ok h ∧ h.publicKey = key := by
  have hr : hs.remoteStatic H = .ok key := by
    simp only [remoteStatic, hk, TransportPublicKey.ofSlice_bytes]
  rw [checkRemote_ok, hr]
  simp only [Except.ok.injEq]
  exact and_congr_right fun _ => eq_comm

/-! ## Streams -/

namespace Pair

/-- The side the stream of `x` leads to has seen its end. -/
def eof (p : Pair η σ E) (x : Side) : Bool := (p.at_ x.other).stage.context.read.eof

/-- What `x` wrote and the other side has not taken is `bytes`. -/
structure Stream (p : Pair η σ E) (x : Side) (bytes : Bytes) : Prop where
  pending : (p.at_ x.other).stage.context.read.buf ++ p.inFlight x = bytes
  moved : p.moved x ≤ (p.written x).length

/-- Everything before was taken, and `x` wrote `more`. -/
theorem Stream.sent {p p' : Pair η σ E} {x : Side} {more : Bytes} (h : p.Stream x [])
    (hm : p'.moved x = p.moved x) (hw : p'.written x = p.written x ++ more)
    (hr : (p'.at_ x.other).stage.context.read.buf = (p.at_ x.other).stage.context.read.buf) :
    p'.Stream x more := by
  have hnil := List.append_eq_nil_iff.1 h.pending
  refine ⟨?_, ?_⟩
  · rw [hr, Ends.inFlight, hm, hw, List.drop_append_of_le_length h.moved, hnil.1]
    exact congrArg (· ++ more) hnil.2
  · rw [hm, hw, List.length_append]
    have := h.moved
    omega

/-- Nothing was taken and nothing written. -/
theorem Stream.kept {p p' : Pair η σ E} {x : Side} {bytes : Bytes} (h : p.Stream x bytes)
    (hm : p'.moved x = p.moved x) (hw : p'.written x = p.written x)
    (hr : (p'.at_ x.other).stage.context.read.buf = (p.at_ x.other).stage.context.read.buf) :
    p'.Stream x bytes := by
  refine ⟨?_, ?_⟩
  · rw [hr, Ends.inFlight, hm, hw]
    exact h.pending
  · rw [hm, hw]
    exact h.moved

/-- All of it was taken. -/
theorem Stream.taken {p p' : Pair η σ E} {x : Side} {bytes : Bytes} (h : p.Stream x bytes)
    (hfl : p.inFlight x = []) (hm : p'.moved x = p.moved x) (hw : p'.written x = p.written x)
    (hr : (p'.at_ x.other).stage.context.read.buf = []) : p'.Stream x [] := by
  refine ⟨?_, ?_⟩
  · rw [hr, Ends.inFlight, hm, hw]
    exact hfl
  · rw [hm, hw]
    exact h.moved

theorem Stream.empty {p : Pair η σ E} {x : Side} (h : p.Stream x []) :
    (p.at_ x.other).stage.context.read.buf = [] ∧ p.inFlight x = [] :=
  List.append_eq_nil_iff.1 h.pending

/-- Nothing is under way: all that `x` wrote has arrived. -/
theorem Stream.arrived {p : Pair η σ E} {x : Side} {bytes : Bytes} (h : p.Stream x bytes)
    (hfl : p.inFlight x = []) : p.moved x = (p.written x).length :=
  Nat.le_antisymm h.moved (List.drop_eq_nil_iff.1 hfl)

/-! ## Halves -/

/-- What `x` holds after the handshake. The sending half has a new builder and writes on, unbroken,
behind what `x` wrote in the handshake; the receiving half has a new reader, an empty buffer, and
stands at the first byte that the other side writes after the handshake: all it wrote before has
arrived. -/
structure Fresh (p : Pair η σ E) (x : Side) (split : Split σ) : Prop where
  builder : split.tx.packetBuilder = .new
  write : split.tx.write = ⟨p.written x, false⟩
  reader : split.rx.packetReader = .new
  read : split.rx.read = ⟨[], false⟩
  arrived : p.moved x.other = (p.written x.other).length

theorem Fresh.kept {p p' : Pair η σ E} {x : Side} {split : Split σ} (h : p.Fresh x split)
    (hw : ∀ y, p'.written y = p.written y) (hm : p'.moved x.other = p.moved x.other) :
    p'.Fresh x split := by
  refine ⟨h.builder, ?_, h.reader, h.read, ?_⟩
  · rw [hw]
    exact h.write
  · rw [hw, hm]
    exact h.arrived

/-! ## Phases -/

/-- `Phase X Y i r n x p`: `n` bounds the polls that still change something, and `x` is the side
whose bytes, or whose end of stream, are waited for. -/
inductive Phase (X : XXSpec H S) (Y : Yatlv) (i r : Node E) : Nat → Side → Pair η σ E → Prop
  | first {p : Pair η σ E} {hl hr : HandshakeContext η} {nl nr : η} {c : Bytes}
      (hL : (p.at_ .left).stage = .message2 hl) (hR : (p.at_ .right).stage = .message1 hr)
      (wl : hl.Waits nl) (wr : hr.Waits nr) (ho : Opens H c [] nr (Second X i r nl))
      (sl : p.Stream .left (Wire.frame c)) (sr : p.Stream .right [])
      (el : p.eof .left = false) (er : p.eof .right = false) : Phase X Y i r 3 .left p
  | refused {p : Pair η σ E} {hl hr : HandshakeContext η} {e : ConnectionError}
      (hL : (p.at_ .left).stage = .message2 hl)
      (hR : (p.at_ .right).stage = .returned hr (.error (.error e)))
      (no : ∀ d, ¬ ConnectOk X Y i r d) (sr : p.Stream .right []) : Phase X Y i r 1 .right p
  | second {p : Pair η σ E} {hl hr : HandshakeContext η} {nl nr : η} {c : Bytes}
      (hL : (p.at_ .left).stage = .message2 hl) (hR : (p.at_ .right).stage = .message3 hr)
      (wl : hl.Waits nl) (wr : hr.Waits nr)
      (fits : 32 + 48 + r.localAuthHeader.length + 16 ≤ maxNoiseMessage)
      (ho : Opens H c r.localAuthHeader nl (Third X i r nr))
      (sl : p.Stream .left []) (sr : p.Stream .right (Wire.frame c))
      (el : p.eof .left = false) (er : p.eof .right = false) : Phase X Y i r 2 .right p
  | failed {p : Pair η σ E} {hl hr : HandshakeContext η} {e : ConnectionError}
      (hL : (p.at_ .left).stage = .returned hl (.error (.error e)))
      (hR : (p.at_ .right).stage = .message3 hr)
      (no : ∀ d, ¬ ConnectOk X Y i r d) (sl : p.Stream .left []) : Phase X Y i r 1 .left p
  | third {p : Pair η σ E} {hl hr : HandshakeContext η} {nr : η} {c : Bytes}
      {split : Split σ} {d : AuthDetails}
      (hL : (p.at_ .left).stage = .returned hl (.ok (split, d)))
      (hR : (p.at_ .right).stage = .message3 hr) (wr : hr.Waits nr)
      (yes : ConnectOk X Y i r d)
      (ho : Opens H c i.localAuthHeader nr (Final X i split.state))
      (sl : p.Stream .left (Wire.frame c)) (el : p.eof .left = false)
      (fl : p.Fresh .left split) : Phase X Y i r 1 .left p
  | nobody {p : Pair η σ E} {hl hr : HandshakeContext η} {e e' : ConnectionError} (x : Side)
      (hL : (p.at_ .left).stage = .returned hl (.error (.error e)))
      (hR : (p.at_ .right).stage = .returned hr (.error (.error e')))
      (no : ∀ d, ¬ ConnectOk X Y i r d) : Phase X Y i r 0 x p
  | rejected {p : Pair η σ E} {hl hr : HandshakeContext η} {split : Split σ} {d : AuthDetails}
      {e : ConnectionError} (x : Side)
      (hL : (p.at_ .left).stage = .returned hl (.ok (split, d)))
      (hR : (p.at_ .right).stage = .returned hr (.error (.error e)))
      (yes : ConnectOk X Y i r d) (no : ∀ d, ¬ AcceptOk X Y i r d) : Phase X Y i r 0 x p
  | met {p : Pair η σ E} {hl hr : HandshakeContext η} {split split' : Split σ} {d d' : AuthDetails}
      (x : Side) (hL : (p.at_ .left).stage = .returned hl (.ok (split, d)))
      (hR : (p.at_ .right).stage = .returned hr (.ok (split', d')))
      (yes : ConnectOk X Y i r d) (yes' : AcceptOk X Y i r d')
      (paired : Paired S split.state split'.state) (fl : p.Fresh .left split)
      (fr : p.Fresh .right split') : Phase X Y i r 0 x p

variable {X : XXSpec H S} {Y : Yatlv} {i r : Node E} {p p' : Pair η σ E} {n : Nat} {x : Side}

/-! ## Moves of the stream -/

/-- `p'` is `p` with other bytes in the buffers: the calls are where they were, what is under way
to a call that runs is the same, no more arrives of a stream that has arrived in full, and the end
of a stream is seen only where it was dropped. -/
structure Similar (p p' : Pair η σ E) : Prop where
  at_ : ∀ x, ∃ read, p'.at_ x = (p.at_ x).onStream fun hs => { hs with read := read }
  stream : ∀ x bytes, (p.at_ x.other).stage.result = none → p.Stream x bytes → p'.Stream x bytes
  eof : ∀ x, (p.at_ x.other).stage.result = none → p.dropped x = false → p'.eof x = p.eof x
  written : ∀ x, p'.written x = p.written x
  moved : ∀ x, p.inFlight x = [] → p'.moved x = p.moved x

theorem Similar.fresh {split : Split σ} (h : Similar p p') (hf : p.Fresh x split) :
    p'.Fresh x split := by
  refine hf.kept h.written (h.moved _ ?_)
  rw [Ends.inFlight, hf.arrived, List.drop_length]

theorem Similar.stage (h : Similar p p') (x : Side) : ∃ read, (p'.at_ x).stage =
    (p.at_ x).stage.mapContext fun hs => { hs with read := read } := by
  obtain ⟨read, hx⟩ := h.at_ x
  exact ⟨read, by rw [hx]; rfl⟩

theorem Phase.similar (h : Phase X Y i r n x p) (hs : Similar p p') : Phase X Y i r n x p' := by
  obtain ⟨rl, hl'⟩ := hs.stage .left
  obtain ⟨rr, hr'⟩ := hs.stage .right
  have tol := hs.stream .right
  have tor := hs.stream .left
  have eol := hs.eof .right
  have eor := hs.eof .left
  simp only [Side.other, dropped] at tol tor eol eor
  cases h with
  | first hL hR wl wr ho sl sr el er =>
    rw [hL] at hl' tol eol eor
    rw [hR] at hr' tor eor eol
    exact .first hl' hr' (wl.set_read rl) (wr.set_read rr) ho (tor _ rfl sl) (tol _ rfl sr)
      (by rw [eor rfl rfl, el]) (by rw [eol rfl rfl, er])
  | refused hL hR no sr =>
    rw [hL] at hl' tol
    rw [hR] at hr'
    exact .refused hl' hr' no (tol _ rfl sr)
  | second hL hR wl wr fits ho sl sr el er =>
    rw [hL] at hl' tol eol eor
    rw [hR] at hr' tor eor eol
    exact .second hl' hr' (wl.set_read rl) (wr.set_read rr) fits ho (tor _ rfl sl)
      (tol _ rfl sr) (by rw [eor rfl rfl, el]) (by rw [eol rfl rfl, er])
  | failed hL hR no sl =>
    rw [hL] at hl'
    rw [hR] at hr' tor
    exact .failed hl' hr' no (tor _ rfl sl)
  | third hL hR wr yes ho sl el fl =>
    rw [hL] at hl' eor
    rw [hR] at hr' tor eor
    exact .third hl' hr' (wr.set_read rr) yes ho (tor _ rfl sl) (by rw [eor rfl rfl, el])
      (hs.fresh fl)
  | nobody x hL hR no =>
    rw [hL] at hl'
    rw [hR] at hr'
    exact .nobody x hl' hr' no
  | rejected x hL hR yes no =>
    rw [hL] at hl'
    rw [hR] at hr'
    exact .rejected x hl' hr' yes no
  | met x hL hR yes yes' paired fl fr =>
    rw [hL] at hl'
    rw [hR] at hr'
    exact .met x hl' hr' yes yes' paired (hs.fresh fl) (hs.fresh fr)

theorem onStream_read (s : Session η σ E) (f : HandshakeContext η → HandshakeContext η)
    (hs : s.stage.result = none) :
    (s.onStream f).stage.context.read = (f s.stage.context).read := by
  unfold Session.onStream
  cases hst : s.stage with
  | message1 hs => rfl
  | message2 hs => rfl
  | message3 hs => rfl
  | returned hc res =>
    rw [hst] at hs
    cases hs

/-- A change of reading buffers, side by side. -/
theorem onStream_id (s : Session η σ E) :
    ∃ read, s = s.onStream fun hs => { hs with read := read } := by
  refine ⟨s.stage.context.read, ?_⟩
  obtain ⟨header, vk, st, auth⟩ := s
  unfold Session.onStream
  cases st <;> rfl

theorem onStream_buf (s : Session η σ E) (g : ReadHalf → ReadHalf) :
    ∃ read, (s.onStream fun hs => { hs with read := g hs.read }) =
      s.onStream fun hs => { hs with read := read } := by
  refine ⟨g s.stage.context.read, ?_⟩
  obtain ⟨header, vk, st, auth⟩ := s
  unfold Session.onStream
  cases st <;> rfl

theorem deliver_similar (p : Pair η σ E) (x : Side) (k : Nat) : Similar p (p.deliver x k) := by
  have hread (bytes : Bytes) (hrun : (p.at_ x.other).stage.result = none) :
      (StreamEnd.arrive (p.at_ x.other) bytes).stage.context.read =
        { (p.at_ x.other).stage.context.read with
          buf := (p.at_ x.other).stage.context.read.buf ++ bytes } := onStream_read _ _ hrun
  refine ⟨fun y => ?_, fun y bytes hrun hs => ?_, fun y hrun _ => ?_, p.deliver_written x k,
    fun y hfl => Ends.moved_deliver_nil hfl k⟩
  · rw [Ends.at_deliver]
    split
    · rename_i he
      subst he
      exact onStream_buf (p.at_ x.other) fun rd => { rd with buf := rd.buf ++ _ }
    · exact onStream_id _
  · rcases Side.eq_or_other y x with rfl | rfl
    · -- the bytes that arrive move from the wire to the buffer
      refine ⟨?_, Ends.moved_deliver_le hs.moved k⟩
      rw [Ends.at_deliver_other, hread _ hrun, Ends.inFlight_deliver, ← hs.pending,
        List.append_assoc, List.take_append_drop]
    · have hmv : (p.deliver x k).moved x.other = p.moved x.other := p.moved_deliver_other x k
      refine hs.kept hmv (p.deliver_written x k _) ?_
      rw [Side.other_other, Ends.at_deliver_self]
  · rw [eof, Ends.at_deliver]
    split
    · rename_i he
      rw [he] at hrun
      rw [hread _ hrun, eof, he]
    · rfl

theorem Similar.refl (p : Pair η σ E) : Similar p p :=
  ⟨fun x => onStream_id (p.at_ x), fun _ _ _ h => h, fun _ _ _ => rfl, fun _ => rfl,
    fun _ _ => rfl⟩

theorem hangUp_written (p : Pair η σ E) (x y : Side) :
    (p.step H Y (.hangUp x)).written y = p.written y := by
  simp only [step]
  split
  · apply Ends.written_set
    exact congrArg WriteHalf.written (Session.onStream_write _ _ fun _ => rfl)
  · rfl

theorem hangUp_moved (p : Pair η σ E) (x : Side) :
    (p.step H Y (.hangUp x)).moved = p.moved := by
  simp only [step]
  split <;> rfl

theorem hangUp_similar (p : Pair η σ E) (x : Side) : Similar p (p.step H Y (.hangUp x)) := by
  have hw := hangUp_written (H := H) (Y := Y) p x
  have hm := hangUp_moved (H := H) (Y := Y) p x
  by_cases hg : p.dropped x = true ∧ p.inFlight x = []
  · have hstep : p.step H Y (.hangUp x) = p.set x.other ((p.at_ x.other).onStream fun hs =>
        { hs with read := { hs.read with eof := true } }) := if_pos hg
    refine ⟨fun y => ?_, fun y bytes hrun hs => ⟨?_, ?_⟩, fun y hrun hd => ?_, hw,
      fun y _ => congrFun hm y⟩
    · rw [hstep, Ends.at_set]
      split
      · rename_i he
        subst he
        exact onStream_buf (p.at_ x.other) fun rd => { rd with eof := true }
      · exact onStream_id _
    · rw [Ends.inFlight, hw, hm, hstep, ← hs.pending, Ends.at_set]
      split
      · rename_i he
        rw [he] at hrun ⊢
        rw [onStream_read _ _ hrun]
        rfl
      · rfl
    · rw [hw, hm]
      exact hs.moved
    · -- the stream that ended is that of `x`, which is dropped
      rcases Side.eq_or_other y x with rfl | rfl
      · rw [hg.1] at hd
        cases hd
      · rw [hstep, eof, eof, Side.other_other, Ends.set_ne _ _ x.ne_other]
  · have hstep : p.step H Y (.hangUp x) = p := if_neg hg
    rw [hstep]
    exact .refl p

/-! ## Polls -/

/-- The sessions of `p` are those of the two nodes. -/
structure Configured (i r : Node E) (p : Pair η σ E) : Prop where
  header : (p.at_ .left).localAuthHeader = i.localAuthHeader
  key : (p.at_ .left).verificationKey = i.verificationKey
  header' : (p.at_ .right).localAuthHeader = r.localAuthHeader
  key' : (p.at_ .right).verificationKey = r.verificationKey

/-- Nothing more can come of polling the side that reads from `x`. -/
def Stuck (p : Pair η σ E) (x : Side) : Prop :=
  p.inFlight x ≠ [] ∨ p.dropped x = true ∧ p.eof x = false

theorem set_stage (p : Pair η σ E) (x : Side) (s : Session η σ E) :
    ((p.set x s).at_ x).stage = s.stage := by rw [Ends.set_self]

/-- A poll that waits changes nothing. -/
theorem poll_waits (h : (p.at_ x).poll H Y = p.at_ x) : p.step H Y (.poll x) = p := by
  rw [step, h, Ends.set_at rfl]

/-- Message 1 reaches the responder, which answers or finds its header too long. -/
theorem poll_first {hl hr : HandshakeContext η} {nl nr : η} {c : Bytes} (hc : Configured i r p)
    (hL : (p.at_ .left).stage = .message2 hl) (hR : (p.at_ .right).stage = .message1 hr)
    (wl : hl.Waits nl) (wr : hr.Waits nr) (ho : Opens H c [] nr (Second X i r nl))
    (sl : p.Stream .left (Wire.frame c)) (sr : p.Stream .right [])
    (el : p.eof .left = false) (er : p.eof .right = false) :
    (p.step H Y (.poll .right) = p ∧ Stuck p .left) ∨
      ∃ m x', m < 3 ∧ Phase X Y i r m x' (p.step H Y (.poll .right)) := by
  have hbuf := sl.pending
  simp only [Side.other, hR, Stage.context, eof] at hbuf el
  rcases recv_frame ho wr el hbuf with ⟨hfl, hpend⟩ | ⟨hr', hfl, hrecv, hw', hsec, hrd, hwr⟩
  · left
    refine ⟨poll_waits ?_, .inl hfl⟩
    simp only [Session.poll, hR, Session.resume, hpend]
  · right
    have hheader := hc.header'
    by_cases hfit : 32 + 48 + 16 + r.localAuthHeader.length ≤ maxNoiseMessage
    · obtain ⟨hr2, c2, hsend, hw2, hread2, hwrite2, ho2⟩ := send_ok hsec hw' hfit
      have hpoll : (p.at_ .right).poll H Y = { p.at_ .right with stage := .message3 hr2 } := by
        simp only [Session.poll, hR, Session.resume, hrecv, Session.onMessage1, hheader, hsend]
      refine ⟨2, .right, by omega, ?_⟩
      simp only [step, hpoll]
      refine .second (by simpa [Ends.at_set] using hL) (set_stage _ _ _) wl hw2 (by omega) ho2
        ?_ ?_ ?_ ?_
      · exact sl.taken hfl rfl (Ends.written_set_ne _ _ (by decide)) (by
          simp only [Side.other, Ends.set_self, Stage.context, hread2, hrd])
      · refine sr.sent rfl ?_ (by rw [Ends.set_other])
        simp only [written_eq, Ends.set_self, Stage.context, hwrite2, hwr, hR]
      · simp only [eof, Side.other, Ends.set_self, Stage.context, hread2, hrd]
      · simpa [eof, Side.other, Ends.at_set] using er
    · obtain ⟨hr2, e, hsend, hwrite2⟩ := send_refused hsec hw' (Nat.lt_of_not_le hfit)
      have hpoll : (p.at_ .right).poll H Y =
          { p.at_ .right with stage := .returned hr2 (.error (.error (.noise e))) } := by
        simp only [Session.poll, hR, Session.resume, hrecv, Session.onMessage1, hheader, hsend]
      refine ⟨1, .right, by omega, ?_⟩
      simp only [step, hpoll]
      refine .refused (by simpa [Ends.at_set] using hL) (set_stage _ _ _) ?_ ?_
      · intro d hd
        have := hd.1
        omega
      · refine sr.kept rfl ?_ (by rw [Ends.set_other])
        simp only [written_eq, Ends.set_self, Stage.context, hwrite2, hwr, hR]

/-- The initiator returns an error, having written nothing. -/
theorem poll_failed_left {hl hl' hr : HandshakeContext η} {auth : Option η} {e : ConnectionError}
    (hL : (p.at_ .left).stage = .message2 hl) (hR : (p.at_ .right).stage = .message3 hr)
    (hpoll : (p.at_ .left).poll H Y =
      { p.at_ .left with authenticated := auth, stage := .returned hl' (.error (.error e)) })
    (hwr : hl'.write = hl.write) (hno : ∀ d, ¬ ConnectOk X Y i r d) (sl : p.Stream .left []) :
    Phase X Y i r 1 .left (p.step H Y (.poll .left)) := by
  simp only [step, hpoll]
  refine .failed (set_stage _ _ _) (by simpa [Ends.at_set] using hR) hno ?_
  refine sl.kept rfl ?_ (by rw [Ends.set_other])
  simp only [written_eq, Ends.set_self, Stage.context, hwr, hL]

/-- The halves of a call that has just returned, after all that the other side wrote. -/
theorem fresh_set {hs : HandshakeContext η} {noise : η} {state : σ} {res : Res (Accepted σ)}
    {s : Session η σ E} (hst : s.stage = .returned hs res) (hw : hs.Waits noise)
    (hread : hs.read = ⟨[], false⟩) (harr : p.moved x.other = (p.written x.other).length) :
    Fresh (p.set x s) x
      ⟨⟨.new, hs.write, []⟩, ⟨.new, hs.read, hs.frame, hs.noiseBuf, 0⟩, state⟩ := by
  refine ⟨rfl, ?_, rfl, hread, ?_⟩
  · simp only [written_eq, Ends.set_self, hst, Stage.context]
    rw [← hw.intact]
  · rw [Ends.set_moved, Ends.written_set_ne _ _ x.other_ne]
    exact harr

/-- Message 2 reaches the initiator, which checks it, and answers or fails. -/
theorem poll_second {hl hr : HandshakeContext η} {nl nr : η} {c : Bytes} (hc : Configured i r p)
    (hL : (p.at_ .left).stage = .message2 hl) (hR : (p.at_ .right).stage = .message3 hr)
    (wl : hl.Waits nl) (wr : hr.Waits nr)
    (fits : 32 + 48 + r.localAuthHeader.length + 16 ≤ maxNoiseMessage)
    (ho : Opens H c r.localAuthHeader nl (Third X i r nr))
    (sl : p.Stream .left []) (sr : p.Stream .right (Wire.frame c))
    (el : p.eof .left = false) (er : p.eof .right = false) :
    (p.step H Y (.poll .left) = p ∧ Stuck p .right) ∨
      ∃ m x', m < 2 ∧ Phase X Y i r m x' (p.step H Y (.poll .left)) := by
  have hbuf := sr.pending
  simp only [Side.other, hL, Stage.context, eof] at hbuf er
  rcases recv_frame ho wl er hbuf with
    ⟨hfl, hpend⟩ | ⟨hl', hfl, hrecv, hw', ⟨hstat, hcar⟩, hrd, hwr⟩
  · left
    refine ⟨poll_waits ?_, .inl hfl⟩
    simp only [Session.poll, hL, Session.resume, hpend]
  · right
    have hheader := hc.header
    have hkey := hc.key
    refine ⟨1, .left, by omega, ?_⟩
    cases hcheck : checkRemote H E Y i.verificationKey hl' r.localAuthHeader with
    | error e =>
      have hpoll : (p.at_ .left).poll H Y = { p.at_ .left with
          authenticated := some hl'.handshake
          stage := .returned hl' (.error (.error e)) } := by
        simp only [Session.poll, hL, Session.resume, hrecv, Session.onMessage2, hkey, hcheck]
      refine poll_failed_left hL hR hpoll hwr ?_ sl
      rintro d ⟨-, ⟨h, hv, hk, -⟩, -⟩
      rw [(checkRemote_eq hstat).2 ⟨hv, hk⟩] at hcheck
      cases hcheck
    | ok h =>
      obtain ⟨hv, hk⟩ := (checkRemote_eq hstat).1 hcheck
      by_cases hfit : 48 + 16 + i.localAuthHeader.length ≤ maxNoiseMessage
      · obtain ⟨hl2, c2, hsend, hw2, hread2, hwrite2, ho2⟩ := send_ok hcar hw' hfit
        -- the initiator turns to transport mode before the responder has read message 3
        obtain ⟨nr', -, -, s, t, hs, -, -⟩ := ho2.opens _ (Nat.le_of_eq rfl)
        have hpoll : (p.at_ .left).poll H Y = { p.at_ .left with
            authenticated := some hl'.handshake
            stage := .returned hl2 (.ok (⟨⟨.new, hl2.write, []⟩,
              ⟨.new, hl2.read, hl2.frame, hl2.noiseBuf, 0⟩, s⟩, h.details)) } := by
          simp only [Session.poll, hL, Session.resume, hrecv, Session.onMessage2, hkey, hcheck,
            hheader, hsend, Session.finish, intoSplit, hs]
        simp only [step, hpoll]
        refine .third (set_stage _ _ _) (by simpa [Ends.at_set] using hR) wr
          ⟨fits, ⟨h, hv, hk, rfl⟩, by omega⟩ ⟨ho2.fits, ho2.shorter, fun out hout => ?_⟩ ?_ ?_ ?_
        · obtain ⟨nr', hread, hstat', s', t', hs', ht', hp'⟩ := ho2.opens out hout
          rw [hs] at hs'
          cases hs'
          exact ⟨nr', hread, hstat', t', ht', hp'⟩
        · refine sl.sent rfl ?_ (by rw [Ends.set_other])
          simp only [written_eq, Ends.set_self, Stage.context, hwrite2, hwr, hL]
        · simpa [eof, Side.other, Ends.at_set] using el
        · exact fresh_set rfl hw2 (hread2.trans hrd) (sr.arrived hfl)
      · obtain ⟨hl2, e, hsend, hwrite2⟩ := send_refused hcar hw' (Nat.lt_of_not_le hfit)
        have hpoll : (p.at_ .left).poll H Y = { p.at_ .left with
            authenticated := some hl'.handshake
            stage := .returned hl2 (.error (.error (.noise e))) } := by
          simp only [Session.poll, hL, Session.resume, hrecv, Session.onMessage2, hkey, hcheck,
            hheader, hsend]
        refine poll_failed_left hL hR hpoll (hwrite2.trans hwr) ?_ sl
        intro d hd
        have := hd.2.2
        omega

/-- Message 3 reaches the responder, which checks it and returns. -/
theorem poll_third {hl hr : HandshakeContext η} {nr : η} {c : Bytes} {split : Split σ}
    {d : AuthDetails} (hc : Configured i r p)
    (hL : (p.at_ .left).stage = .returned hl (.ok (split, d)))
    (hR : (p.at_ .right).stage = .message3 hr) (wr : hr.Waits nr) (yes : ConnectOk X Y i r d)
    (ho : Opens H c i.localAuthHeader nr (Final X i split.state))
    (sl : p.Stream .left (Wire.frame c)) (el : p.eof .left = false) (fl : p.Fresh .left split) :
    (p.step H Y (.poll .right) = p ∧ Stuck p .left) ∨
      Phase X Y i r 0 .left (p.step H Y (.poll .right)) := by
  have hbuf := sl.pending
  simp only [Side.other, hR, Stage.context, eof] at hbuf el
  rcases recv_frame ho wr el hbuf with
    ⟨hfl, hpend⟩ | ⟨hr', hfl, hrecv, hw', ⟨hstat, t, ht, hpaired⟩, hrd, hwr⟩
  · left
    refine ⟨poll_waits ?_, .inl hfl⟩
    simp only [Session.poll, hR, Session.resume, hpend]
  · right
    have hkey := hc.key'
    cases hcheck : checkRemote H E Y r.verificationKey hr' i.localAuthHeader with
    | error e =>
      have hpoll : (p.at_ .right).poll H Y = { p.at_ .right with
          authenticated := some hr'.handshake
          stage := .returned hr' (.error (.error e)) } := by
        simp only [Session.poll, hR, Session.resume, hrecv, Session.onMessage3, hkey, hcheck]
      simp only [step, hpoll]
      refine .rejected _ (by simpa [Ends.at_set] using hL) (set_stage _ _ _) yes ?_
      rintro d' ⟨h, hv, hk, -⟩
      rw [(checkRemote_eq hstat).2 ⟨hv, hk⟩] at hcheck
      cases hcheck
    | ok h =>
      obtain ⟨hv, hk⟩ := (checkRemote_eq hstat).1 hcheck
      have hpoll : (p.at_ .right).poll H Y = { p.at_ .right with
          authenticated := some hr'.handshake
          stage := .returned hr' (.ok (⟨⟨.new, hr'.write, []⟩,
            ⟨.new, hr'.read, hr'.frame, hr'.noiseBuf, 0⟩, t⟩, h.details)) } := by
        simp only [Session.poll, hR, Session.resume, hrecv, Session.onMessage3, hkey, hcheck,
          Session.finish, intoSplit, ht]
      simp only [step, hpoll]
      refine .met _ (by simpa [Ends.at_set] using hL) (set_stage _ _ _) yes ⟨h, hv, hk, rfl⟩ hpaired
        (fl.kept (fun y => ?_) rfl) (fresh_set rfl hw' hrd (sl.arrived hfl))
      cases y with
      | left => exact Ends.written_set_ne _ _ (by decide)
      | right => simp only [written_eq, Ends.set_self, Stage.context, hwr, hR]

/-- A call that has not returned resumes at the message it waits for. -/
theorem poll_resumes {s : Session η σ E} (h : s.stage.result = none) :
    ∃ next, s.poll H Y = s.resume H s.stage.context next := by
  unfold Session.poll
  cases hst : s.stage with
  | message1 hs => exact ⟨_, rfl⟩
  | message2 hs => exact ⟨_, rfl⟩
  | message3 hs => exact ⟨_, rfl⟩
  | returned hs r =>
    rw [hst] at h
    cases h

/-- A running side with nothing to read waits, or returns an error once it sees the end. -/
theorem poll_empty (s : p.Stream x []) (hrun : (p.at_ x.other).stage.result = none) :
    (p.eof x = false ∧ p.step H Y (.poll x.other) = p) ∨
      ∃ hs, (p.at_ x.other).poll H Y = { p.at_ x.other with
        stage := .returned hs (.error (.error (.io .unexpectedEof))) } := by
  obtain ⟨next, hpoll⟩ := poll_resumes (H := H) (Y := Y) hrun
  have hbuf := s.empty.1
  cases heof : (p.at_ x.other).stage.context.read.eof with
  | false =>
    left
    refine ⟨heof, poll_waits ?_⟩
    rw [hpoll]
    simp only [Session.resume, recv_empty hbuf heof]
  | true =>
    right
    obtain ⟨hs, hrecv, -⟩ := recv_eof (H := H) hbuf heof
    refine ⟨hs, ?_⟩
    rw [hpoll]
    simp only [Session.resume, hrecv]

/-- The responder gave up: the initiator waits until it notices. -/
theorem poll_refused {hl hr : HandshakeContext η} {e : ConnectionError}
    (hL : (p.at_ .left).stage = .message2 hl)
    (hR : (p.at_ .right).stage = .returned hr (.error (.error e)))
    (no : ∀ d, ¬ ConnectOk X Y i r d) (sr : p.Stream .right []) :
    (p.step H Y (.poll .left) = p ∧ Stuck p .right) ∨
      Phase X Y i r 0 .right (p.step H Y (.poll .left)) := by
  rcases poll_empty (H := H) (Y := Y) sr (by simp only [Side.other, hL, Stage.result]) with
    ⟨heof, hwait⟩ | ⟨hl', hpoll⟩
  · exact .inl ⟨hwait, .inr ⟨by simp only [dropped, hR, Stage.result], heof⟩⟩
  · right
    simp only [Side.other] at hpoll
    simp only [step, hpoll]
    exact .nobody _ (set_stage _ _ _) (by simpa [Ends.at_set] using hR) no

/-- The initiator gave up: the responder waits until it notices. -/
theorem poll_failed {hl hr : HandshakeContext η} {e : ConnectionError}
    (hL : (p.at_ .left).stage = .returned hl (.error (.error e)))
    (hR : (p.at_ .right).stage = .message3 hr) (no : ∀ d, ¬ ConnectOk X Y i r d)
    (sl : p.Stream .left []) :
    (p.step H Y (.poll .right) = p ∧ Stuck p .left) ∨
      Phase X Y i r 0 .left (p.step H Y (.poll .right)) := by
  rcases poll_empty (H := H) (Y := Y) sl (by simp only [Side.other, hR, Stage.result]) with
    ⟨heof, hwait⟩ | ⟨hr', hpoll⟩
  · exact .inl ⟨hwait, .inr ⟨by simp only [dropped, hL, Stage.result], heof⟩⟩
  · right
    simp only [Side.other] at hpoll
    simp only [step, hpoll]
    exact .nobody _ (by simpa [Ends.at_set] using hL) (set_stage _ _ _) no

theorem poll_returned {hs : HandshakeContext η} {res : Res (Accepted σ)}
    (h : (p.at_ x).stage = .returned hs res) : p.step H Y (.poll x) = p :=
  poll_waits (by simp only [Session.poll, h])

/-- A side that waits for the other's next message while that one waits for its own. -/
theorem poll_idle (s : p.Stream x []) (he : p.eof x = false)
    (hrun : (p.at_ x.other).stage.result = none) : p.step H Y (.poll x.other) = p := by
  obtain ⟨next, hpoll⟩ := poll_resumes (H := H) (Y := Y) hrun
  refine poll_waits ?_
  rw [hpoll]
  simp only [Session.resume, recv_empty s.empty.1 he]

/-- A poll changes nothing or lowers the level; the side that is waited for holds it up only while
its bytes, or its end, are under way. -/
theorem poll_phase (hc : Configured i r p) (h : Phase X Y i r n x p) (y : Side) :
    (p.step H Y (.poll y) = p ∧ (0 < n → y = x.other → Stuck p x)) ∨
      ∃ m x', m < n ∧ Phase X Y i r m x' (p.step H Y (.poll y)) := by
  cases h with
  | first hL hR wl wr ho sl sr el er =>
    cases y with
    | left =>
      exact .inl ⟨poll_idle sr er (by simp only [Side.other, hL, Stage.result]),
        by simp [Side.other]⟩
    | right =>
      exact (poll_first hc hL hR wl wr ho sl sr el er).imp_left fun h => ⟨h.1, fun _ _ => h.2⟩
  | second hL hR wl wr fits ho sl sr el er =>
    cases y with
    | left =>
      exact (poll_second hc hL hR wl wr fits ho sl sr el er).imp_left fun h => ⟨h.1, fun _ _ => h.2⟩
    | right =>
      exact .inl ⟨poll_idle sl el (by simp only [Side.other, hR, Stage.result]),
        by simp [Side.other]⟩
  | refused hL hR no sr =>
    cases y with
    | left =>
      exact (poll_refused hL hR no sr).imp (fun h => ⟨h.1, fun _ _ => h.2⟩)
        fun h => ⟨0, _, Nat.one_pos, h⟩
    | right => exact .inl ⟨poll_returned hR, by simp [Side.other]⟩
  | failed hL hR no sl =>
    cases y with
    | left => exact .inl ⟨poll_returned hL, by simp [Side.other]⟩
    | right =>
      exact (poll_failed hL hR no sl).imp (fun h => ⟨h.1, fun _ _ => h.2⟩)
        fun h => ⟨0, _, Nat.one_pos, h⟩
  | third hL hR wr yes ho sl el fl =>
    cases y with
    | left => exact .inl ⟨poll_returned hL, by simp [Side.other]⟩
    | right =>
      exact (poll_third hc hL hR wr yes ho sl el fl).imp (fun h => ⟨h.1, fun _ _ => h.2⟩)
        fun h => ⟨0, _, Nat.one_pos, h⟩
  | nobody x hL hR no =>
    cases y with
    | left => exact .inl ⟨poll_returned hL, by simp⟩
    | right => exact .inl ⟨poll_returned hR, by simp⟩
  | rejected x hL hR yes no =>
    cases y with
    | left => exact .inl ⟨poll_returned hL, by simp⟩
    | right => exact .inl ⟨poll_returned hR, by simp⟩
  | met x hL hR yes yes' paired fl fr =>
    cases y with
    | left => exact .inl ⟨poll_returned hL, by simp⟩
    | right => exact .inl ⟨poll_returned hR, by simp⟩

/-! ## Runs -/

theorem poll_config (s : Session η σ E) : (s.poll H Y).localAuthHeader = s.localAuthHeader ∧
    (s.poll H Y).verificationKey = s.verificationKey := by
  have hres : ∀ (hs : HandshakeContext η) (next : HandshakeContext η → Bytes → Session η σ E),
      (∀ hs' b, (next hs' b).localAuthHeader = s.localAuthHeader ∧
        (next hs' b).verificationKey = s.verificationKey) →
      (s.resume H hs next).localAuthHeader = s.localAuthHeader ∧
        (s.resume H hs next).verificationKey = s.verificationKey := by
    intro hs next hn
    unfold Session.resume
    split
    · exact ⟨rfl, rfl⟩
    · exact ⟨rfl, rfl⟩
    · exact hn _ _
  unfold Session.poll
  split
  · refine hres _ _ fun hs' _ => ?_
    unfold Session.onMessage1
    split <;> exact ⟨rfl, rfl⟩
  · refine hres _ _ fun hs' b => ?_
    unfold Session.onMessage2
    simp only
    split
    · exact ⟨rfl, rfl⟩
    · split <;> exact ⟨rfl, rfl⟩
  · refine hres _ _ fun hs' b => ?_
    unfold Session.onMessage3
    simp only
    split <;> exact ⟨rfl, rfl⟩
  · exact ⟨rfl, rfl⟩

theorem step_config (p : Pair η σ E) (a : PairAct) (y : Side) :
    ((p.step H Y a).at_ y).localAuthHeader = (p.at_ y).localAuthHeader ∧
      ((p.step H Y a).at_ y).verificationKey = (p.at_ y).verificationKey := by
  cases a with
  | poll x =>
    simp only [step, Ends.at_set]
    split
    · rename_i he
      rw [he]
      exact poll_config _
    · exact ⟨rfl, rfl⟩
  | deliver x k =>
    simp only [step, Ends.at_deliver]
    split
    · rename_i he
      rw [he]
      exact ⟨rfl, rfl⟩
    · exact ⟨rfl, rfl⟩
  | hangUp x =>
    simp only [step]
    split
    · simp only [Ends.at_set]
      split
      · rename_i he
        rw [he]
        exact ⟨rfl, rfl⟩
      · exact ⟨rfl, rfl⟩
    · exact ⟨rfl, rfl⟩

/-- The invariant of a handshake. -/
def On (X : XXSpec H S) (Y : Yatlv) (i r : Node E) (p : Pair η σ E) : Prop :=
  Configured i r p ∧ ∃ n x, Phase X Y i r n x p

theorem Configured.step (hc : Configured i r p) (a : PairAct) :
    Configured i r (p.step H Y a) := by
  obtain ⟨h1, h2⟩ := step_config (H := H) (Y := Y) p a .left
  obtain ⟨h3, h4⟩ := step_config (H := H) (Y := Y) p a .right
  exact ⟨h1.trans hc.header, h2.trans hc.key, h3.trans hc.header', h4.trans hc.key'⟩

theorem step_on (h : On X Y i r p) (a : PairAct) : On X Y i r (p.step H Y a) := by
  obtain ⟨hc, n, x, hp⟩ := h
  refine ⟨hc.step a, ?_⟩
  cases a with
  | poll y =>
    rcases poll_phase hc hp y with ⟨heq, -⟩ | ⟨m, x', -, hp'⟩
    · rw [heq]
      exact ⟨n, x, hp⟩
    · exact ⟨m, x', hp'⟩
  | deliver y k => exact ⟨n, x, hp.similar (deliver_similar p y k)⟩
  | hangUp y => exact ⟨n, x, hp.similar (hangUp_similar p y)⟩

theorem run_on (h : On X Y i r p) (acts : List PairAct) :
    On X Y i r (Lts.run (step H Y) p acts) :=
  Lts.run_inv (I := On X Y i r) (fun _ a h => step_on h a) acts h

/-! ## Completion -/

theorem Phase.running (h : Phase X Y i r n x p) (hn : 0 < n) :
    (p.at_ x.other).stage.result = none := by
  cases h with
  | first hL hR => simp only [Side.other, hR, Stage.result]
  | refused hL hR => simp only [Side.other, hL, Stage.result]
  | second hL hR => simp only [Side.other, hL, Stage.result]
  | failed hL hR => simp only [Side.other, hR, Stage.result]
  | third hL hR => simp only [Side.other, hR, Stage.result]
  | nobody => omega
  | rejected => omega
  | met => omega

/-- After the end of a dropped stream has arrived, its reader is not held up by it. -/
theorem not_stuck_hangUp (hfl : p.inFlight x = [])
    (hrun : (p.at_ x.other).stage.result = none) : ¬ Stuck (p.step H Y (.hangUp x)) x := by
  have hw := hangUp_written (H := H) (Y := Y) p x x
  have hm := hangUp_moved (H := H) (Y := Y) p x
  rintro (hne | ⟨hd, he⟩)
  · rw [Ends.inFlight, hw, hm] at hne
    exact hne hfl
  · by_cases hdrop : p.dropped x = true
    · have hstep : p.step H Y (.hangUp x) = p.set x.other ((p.at_ x.other).onStream fun hs =>
          { hs with read := { hs.read with eof := true } }) := if_pos ⟨hdrop, hfl⟩
      rw [hstep] at he
      simp only [eof, Ends.set_self] at he
      rw [onStream_read _ _ hrun] at he
      cases he
    · have hstep : p.step H Y (.hangUp x) = p := if_neg fun h => hdrop h.1
      rw [hstep] at hd
      exact hdrop hd

/-- The side that is waited for is heard out, and the other is polled. -/
theorem Phase.advance (hc : Configured i r p) (h : Phase X Y i r n x p) (hn : 0 < n) :
    ∃ acts m x', m < n ∧ Phase X Y i r m x' (Lts.run (Pair.step H Y) p acts) := by
  have hall : (p.step H Y (.deliver x (p.inFlight x).length)).inFlight x = [] :=
    p.inFlight_deliver_all x
  have h1 : Phase X Y i r n x (p.step H Y (.deliver x (p.inFlight x).length)) :=
    h.similar (deliver_similar p x _)
  have hc1 := hc.step (H := H) (Y := Y) (.deliver x (p.inFlight x).length)
  generalize hp1 : p.step H Y (.deliver x (p.inFlight x).length) = p1 at hall h1 hc1
  have hstuck := not_stuck_hangUp (H := H) (Y := Y) hall (h1.running hn)
  have h2 := h1.similar (hangUp_similar (H := H) (Y := Y) p1 x)
  rcases poll_phase (hc1.step (.hangUp x)) h2 x.other with ⟨-, hs⟩ | ⟨m, x', hlt, h3⟩
  · exact absurd (hs hn rfl) hstuck
  · refine ⟨[.deliver x (p.inFlight x).length, .hangUp x, .poll x.other], m, x', hlt, ?_⟩
    simp only [Lts.run_cons, Lts.run_nil, hp1]
    exact h3

theorem Phase.exists_returned (n : Nat) : ∀ {p : Pair η σ E} {x : Side}, Configured i r p →
    Phase X Y i r n x p → ∃ acts x', Phase X Y i r 0 x' (Lts.run (Pair.step H Y) p acts) := by
  induction n using Nat.strongRecOn with
  | ind n ih =>
    intro p x hc h
    by_cases hn : 0 < n
    · obtain ⟨as1, m, x1, hlt, h1⟩ := h.advance hc hn
      have hc1 : Configured i r (Lts.run (Pair.step H Y) p as1) :=
        Lts.run_inv (I := Configured i r) (fun _ a hc => hc.step a) as1 hc
      obtain ⟨as2, x2, h2⟩ := ih m hlt hc1 h1
      exact ⟨as1 ++ as2, x2, by rw [Lts.run_append]; exact h2⟩
    · have hz : n = 0 := by omega
      subst hz
      exact ⟨[], x, h⟩

theorem Phase.both_returned (h : Phase X Y i r 0 x p) (y : Side) :
    (p.at_ y).stage.result ≠ none := by
  cases h with
  | nobody x hL hR => cases y <;> simp [hL, hR, Stage.result]
  | rejected x hL hR => cases y <;> simp [hL, hR, Stage.result]
  | met x hL hR => cases y <;> simp [hL, hR, Stage.result]

end Pair

/-! ## The theorem -/

/-- The transports that the two calls returned are the ends of one connection: new halves on either
side, at either end of a stream on which nothing but the handshake has been sent, and all of that
was read; and cipher states that send with the key the other receives with. -/
structure Joined (S : TransportSpec T) (p : Pair η σ E) (split split' : Split σ) : Prop where
  states : Paired S split.state split'.state
  initiator : p.Fresh .left split
  responder : p.Fresh .right split'

/-- What holds of the two calls at any moment. -/
structure JointOutcome (X : XXSpec H S) (Y : Yatlv) (i r : Node E) (p : Pair η σ E) : Prop where
  /-- a `connect` that returned did so with these details exactly, or with an error -/
  initiator : ∀ res, (p.at_ .left).stage.result = some res →
    ∀ d, (∃ split, res = .ok (split, d)) ↔ ConnectOk X Y i r d
  /-- an `accept` that returned succeeded iff `connect` did and the header is good -/
  responder : ∀ res, (p.at_ .right).stage.result = some res →
    ∀ d, (∃ split, res = .ok (split, d)) ↔
      (∃ c, (p.at_ .left).stage.result = some (.ok c)) ∧ AcceptOk X Y i r d
  /-- the two transports are the ends of one connection -/
  paired : ∀ split d split' d', (p.at_ .left).stage.result = some (.ok (split, d)) →
    (p.at_ .right).stage.result = some (.ok (split', d')) → Joined S p split split'
  /-- no buffer bound is violated -/
  noPanic : ∀ x site, (p.at_ x).stage.result ≠ some (.error (.panic site))
  /-- both calls can be brought to return -/
  returns : ∃ more, ∀ x, ((Lts.run (Pair.step H Y) p more).at_ x).stage.result ≠ none

namespace JointOutcome

variable {X : XXSpec H S} {Y : Yatlv} {i r : Node E} {p : Pair η σ E} {d : AuthDetails}

theorem connected (h : JointOutcome X Y i r p) (hret : (p.at_ .left).stage.result ≠ none)
    (hd : ConnectOk X Y i r d) :
    ∃ split, (p.at_ .left).stage.result = some (.ok (split, d)) := by
  obtain ⟨res, hres⟩ := Option.ne_none_iff_exists'.1 hret
  obtain ⟨split, rfl⟩ := (h.initiator res hres d).2 hd
  exact ⟨split, hres⟩

theorem accepted {c : Accepted σ} (h : JointOutcome X Y i r p)
    (hl : (p.at_ .left).stage.result = some (.ok c))
    (hret : (p.at_ .right).stage.result ≠ none) (hd : AcceptOk X Y i r d) :
    ∃ split, (p.at_ .right).stage.result = some (.ok (split, d)) := by
  obtain ⟨res, hres⟩ := Option.ne_none_iff_exists'.1 hret
  obtain ⟨split, rfl⟩ := (h.responder res hres d).2 ⟨⟨c, hl⟩, hd⟩
  exact ⟨split, hres⟩

/-- A responder that does not take the header returns an error, also when the initiator has
succeeded. -/
theorem rejected (h : JointOutcome X Y i r p) (hret : (p.at_ .right).stage.result ≠ none)
    (hno : ∀ d, ¬ AcceptOk X Y i r d) :
    ∃ f, (p.at_ .right).stage.result = some (.error f) := by
  obtain ⟨res, hres⟩ := Option.ne_none_iff_exists'.1 hret
  cases res with
  | error f => exact ⟨f, hres⟩
  | ok c =>
    have hd := ((h.responder _ hres c.2).1 ⟨c.1, rfl⟩).2
    exact absurd hd (hno c.2)

end JointOutcome

namespace Pair

variable {X : XXSpec H S} {Y : Yatlv} {i r : Node E} {p : Pair η σ E} {n : Nat} {x : Side}

theorem Phase.initiator (h : Phase X Y i r n x p) (res : Res (Accepted σ))
    (hres : (p.at_ .left).stage.result = some res) (d : AuthDetails) :
    (∃ split, res = .ok (split, d)) ↔ ConnectOk X Y i r d := by
  cases h with
  | first hL => simp [hL, Stage.result] at hres
  | refused hL => simp [hL, Stage.result] at hres
  | second hL => simp [hL, Stage.result] at hres
  | failed hL hR no =>
    simp only [hL, Stage.result, Option.some.injEq] at hres
    subst hres
    simp [no d]
  | nobody x hL hR no =>
    simp only [hL, Stage.result, Option.some.injEq] at hres
    subst hres
    simp [no d]
  | third hL hR wr yes =>
    simp only [hL, Stage.result, Option.some.injEq] at hres
    subst hres
    exact yes.result_iff
  | rejected x hL hR yes =>
    simp only [hL, Stage.result, Option.some.injEq] at hres
    subst hres
    exact yes.result_iff
  | met x hL hR yes =>
    simp only [hL, Stage.result, Option.some.injEq] at hres
    subst hres
    exact yes.result_iff

theorem Phase.responder (h : Phase X Y i r n x p) (res : Res (Accepted σ))
    (hres : (p.at_ .right).stage.result = some res) (d : AuthDetails) :
    (∃ split, res = .ok (split, d)) ↔
      (∃ c, (p.at_ .left).stage.result = some (.ok c)) ∧ AcceptOk X Y i r d := by
  cases h with
  | first hL hR => simp [hR, Stage.result] at hres
  | second hL hR => simp [hR, Stage.result] at hres
  | failed hL hR => simp [hR, Stage.result] at hres
  | third hL hR => simp [hR, Stage.result] at hres
  | refused hL hR =>
    simp only [hR, Stage.result, Option.some.injEq] at hres
    subst hres
    simp [hL, Stage.result]
  | nobody x hL hR =>
    simp only [hR, Stage.result, Option.some.injEq] at hres
    subst hres
    simp [hL, Stage.result]
  | rejected x hL hR yes no =>
    simp only [hR, Stage.result, Option.some.injEq] at hres
    subst hres
    simp [no d]
  | met x hL hR yes yes' =>
    simp only [hR, Stage.result, Option.some.injEq] at hres
    subst hres
    constructor
    · rintro ⟨split, he⟩
      cases he
      exact ⟨⟨_, by rw [hL]; rfl⟩, yes'⟩
    · rintro ⟨-, hd⟩
      exact ⟨_, by rw [hd.det yes']⟩

theorem Phase.outcome (hc : Configured i r p) (h : Phase X Y i r n x p) :
    JointOutcome X Y i r p := by
  refine ⟨h.initiator, h.responder, ?_, ?_, ?_⟩
  · intro split d split' d' hl hr
    cases h with
    | met x hL hR yes yes' paired fl fr =>
      simp only [hL, Stage.result, Option.some.injEq, Except.ok.injEq, Prod.mk.injEq] at hl
      simp only [hR, Stage.result, Option.some.injEq, Except.ok.injEq, Prod.mk.injEq] at hr
      rw [← hl.1, ← hr.1]
      exact ⟨paired, fl, fr⟩
    | first hL hR => simp [hR, Stage.result] at hr
    | second hL hR => simp [hR, Stage.result] at hr
    | failed hL hR => simp [hR, Stage.result] at hr
    | third hL hR => simp [hR, Stage.result] at hr
    | refused hL hR => simp [hR, Stage.result] at hr
    | nobody x hL hR => simp [hR, Stage.result] at hr
    | rejected x hL hR => simp [hR, Stage.result] at hr
  · intro y site
    cases h with
    | first hL hR => cases y <;> simp [hL, hR, Stage.result]
    | second hL hR => cases y <;> simp [hL, hR, Stage.result]
    | failed hL hR => cases y <;> simp [hL, hR, Stage.result]
    | third hL hR => cases y <;> simp [hL, hR, Stage.result]
    | refused hL hR => cases y <;> simp [hL, hR, Stage.result]
    | nobody x hL hR => cases y <;> simp [hL, hR, Stage.result]
    | rejected x hL hR => cases y <;> simp [hL, hR, Stage.result]
    | met x hL hR => cases y <;> simp [hL, hR, Stage.result]
  · obtain ⟨acts, x', hend⟩ := Phase.exists_returned n hc h
    exact ⟨acts, hend.both_returned⟩

theorem start_eq {s t : Session η σ E}
    (hs : Session.connect H ⟨[], false⟩ ⟨[], false⟩ i.localPrivate i.seed i.localAuthHeader
      i.verificationKey = .ok s)
    (ht : Session.accept H ⟨[], false⟩ ⟨[], false⟩ r.localPrivate r.seed r.localAuthHeader
      r.verificationKey = .ok t) : start H i r = .ok (join s t) := by
  simp only [start, hs, ht]

/-- The two calls start in the first phase. -/
theorem start_on (X : XXSpec H S) (Y : Yatlv) (i r : Node E) :
    ∃ p₀, start H i r = .ok p₀ ∧ On X Y i r p₀ := by
  obtain ⟨ni, nr, hi, hr, hcar⟩ := X.exchange i.localPrivate r.localPrivate i.seed r.seed
    i.length_private r.length_private
  let buf : Bytes := List.replicate (frameHeaderSize + maxCiphertextSize) 0
  have hroom : buf.length = frameHeaderSize + maxCiphertextSize := List.length_replicate
  have hwi : Waits (⟨ni, [], buf, ⟨[], false⟩, ⟨[], false⟩⟩ : HandshakeContext η) ni :=
    ⟨rfl, hroom, rfl⟩
  obtain ⟨hs, c, hsend, hw, hread, hwrite, ho⟩ := send_ok (p := []) hcar hwi (by decide)
  have hconnect : Session.connect (E := E) H ⟨[], false⟩ ⟨[], false⟩ i.localPrivate i.seed
      i.localAuthHeader i.verificationKey =
        .ok ⟨i.localAuthHeader, i.verificationKey, .message2 hs, none⟩ := by
    simp only [Session.connect, newInitiator, hi, around]
    rw [hsend]
  have haccept : Session.accept (E := E) H ⟨[], false⟩ ⟨[], false⟩ r.localPrivate r.seed
      r.localAuthHeader r.verificationKey = .ok ⟨r.localAuthHeader, r.verificationKey,
        .message1 ⟨nr, [], buf, ⟨[], false⟩, ⟨[], false⟩⟩, none⟩ := by
    simp only [Session.accept, newResponder, hr, around]
    rfl
  refine ⟨_, start_eq hconnect haccept, ⟨rfl, rfl, rfl, rfl⟩, 3, .left, ?_⟩
  refine .first rfl rfl hw ⟨rfl, hroom, rfl⟩ ho ⟨?_, Nat.zero_le _⟩ ⟨?_, Nat.zero_le _⟩ rfl ?_
  · simp only [join, Side.both, Side.other, Stage.context, Ends.inFlight, written_eq, hwrite,
      List.nil_append, List.drop_zero]
  · simp only [join, Side.both, Side.other, Stage.context, Ends.inFlight, written_eq, hread,
      List.nil_append, List.drop_zero]
  · simp only [join, Side.both, eof, Side.other, Stage.context, hread]

end Pair

/-- **The joint outcome of an undisturbed handshake.** Whatever the two headers are and however
the bytes arrive: `connect` succeeds iff both headers fit, and the responder's is signed for the
key the responder has; `accept` succeeds iff `connect` did and the initiator's is signed for the
key the initiator has; both always come to an end. Where both succeed, each holds new transport
halves on its end of the stream, and sends where the other receives, from the first byte and the
first nonce on. -/
theorem joint_outcome (X : XXSpec H S) (Y : Yatlv) (i r : Node E) :
    ∃ p₀, Pair.start H i r = .ok p₀ ∧
      ∀ acts, JointOutcome X Y i r (Lts.run (Pair.step H Y) p₀ acts) := by
  obtain ⟨p₀, hstart, hon⟩ := Pair.start_on X Y i r
  refine ⟨p₀, hstart, fun acts => ?_⟩
  obtain ⟨hc, n, x, hp⟩ := Pair.run_on hon acts
  exact hp.outcome hc

/-- In the concrete handshake: two nodes with good headers both return, and hold the ends of one
connection; a stranger takes the responder, and is rejected by it. -/
theorem joint_outcome_plain :
    (∃ p₀ acts split split', Pair.start Plain.ops Plain.initiator Plain.responder = .ok p₀ ∧
      ((Lts.run (Pair.step Plain.ops Plain.yatlv) p₀ acts).at_ .left).stage.result =
        some (.ok (split, ⟨⟨[2]⟩, none⟩)) ∧
      ((Lts.run (Pair.step Plain.ops Plain.yatlv) p₀ acts).at_ .right).stage.result =
        some (.ok (split', ⟨⟨[1]⟩, none⟩)) ∧
      Joined Tagged.spec (Lts.run (Pair.step Plain.ops Plain.yatlv) p₀ acts) split split') ∧
    ∃ p₀ acts split f, Pair.start Plain.ops Plain.stranger Plain.responder = .ok p₀ ∧
      ((Lts.run (Pair.step Plain.ops Plain.yatlv) p₀ acts).at_ .left).stage.result =
        some (.ok (split, ⟨⟨[2]⟩, none⟩)) ∧
      ((Lts.run (Pair.step Plain.ops Plain.yatlv) p₀ acts).at_ .right).stage.result =
        some (.error f) := by
  constructor
  · obtain ⟨p₀, hstart, hout⟩ :=
      joint_outcome Plain.spec Plain.yatlv Plain.initiator Plain.responder
    obtain ⟨acts, hret⟩ := (hout []).returns
    have h := hout acts
    obtain ⟨split, hl⟩ := h.connected (hret .left) (d := ⟨⟨[2]⟩, none⟩)
      ⟨by decide, ⟨⟨⟨[2]⟩, none, Plain.pub Plain.responderKey⟩, rfl, rfl, rfl⟩, by decide⟩
    obtain ⟨split', hr⟩ := h.accepted hl (hret .right) (d := ⟨⟨[1]⟩, none⟩)
      ⟨⟨⟨[1]⟩, none, Plain.pub Plain.initiatorKey⟩, rfl, rfl, rfl⟩
    exact ⟨p₀, acts, split, split', hstart, hl, hr, h.paired _ _ _ _ hl hr⟩
  · obtain ⟨p₀, hstart, hout⟩ :=
      joint_outcome Plain.spec Plain.yatlv Plain.stranger Plain.responder
    obtain ⟨acts, hret⟩ := (hout []).returns
    have h := hout acts
    obtain ⟨split, hl⟩ := h.connected (hret .left) (d := ⟨⟨[2]⟩, none⟩)
      ⟨by decide, ⟨⟨⟨[2]⟩, none, Plain.pub Plain.responderKey⟩, rfl, rfl, rfl⟩, by decide⟩
    obtain ⟨f, hr⟩ := h.rejected (hret .right) (by
      rintro d ⟨header, hv, -⟩
      cases hv)
    exact ⟨p₀, acts, split, f, hstart, hl, hr⟩

end Snowpack
