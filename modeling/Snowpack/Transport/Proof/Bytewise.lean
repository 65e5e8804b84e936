import Snowpack.Transport.Bytewise
import Snowpack.Transport.Proof.EndToEnd

/-!
# Reading and writing byte by byte

`FrameRead.Took` is the invariant of a suspended `read_frame`: it holds the first bytes of what is
to be read, in its own two bytes or in the buffer of the frame. One read gives it more of them, and
when it returns, it returns what a `read_frame` returns that finds all its bytes in place
(`Took.read`). The call that was suspended then goes on as if it had been made just now
(`loop_received`), so a receiver that reads byte by byte stands in the place of one that reads whole
frames (`Reading.Of`), and two sides in the place of two (`Bytewise.Of`).

What is proved of `Duplex` for every schedule thus holds here (`bytewise_refines`).
-/

namespace Snowpack

open Wire

variable {σ : Type} {T : TransportOps σ}

/-! ## A suspended `read_frame` -/

/-- The future `f` took some bytes of `whole`, and left `stream`; the buffer was `old` before. -/
inductive FrameRead.Took (old : Bytes) (whole : ReadHalf) : FrameRead → ReadHalf → Bytes → Prop
  | length {got : Bytes} {stream : ReadHalf} (hlt : got.length < 2)
      (hwhole : whole = ⟨got ++ stream.buf, stream.eof⟩) : Took old whole (.length got) stream old
  | body {len : UInt16} {got : Bytes} {stream : ReadHalf} (hlt : got.length < len.toNat)
      (hwhole : whole = ⟨toBe len ++ (got ++ stream.buf), stream.eof⟩) :
      Took old whole (.body got.length) stream (blit (resize old len.toNat) 0 got)

namespace FrameRead

variable {old frame : Bytes} {whole stream : ReadHalf} {f : FrameRead}

theorem read_end (n : Nat) (h : stream.buf = [] ∧ stream.eof = true) :
    f.read n stream frame = .inr (.error .unexpectedEof, stream, frame) := if_pos h

/-- The future is at the end of a stream. -/
theorem Took.readFrame_end (h : Took old whole f stream frame)
    (hend : stream.buf = [] ∧ stream.eof = true) :
    readFrame whole old = .ready (.error .unexpectedEof, stream, frame) := by
  obtain ⟨buf, eof⟩ := stream
  obtain ⟨rfl, rfl⟩ := hend
  cases h with
  | @length got _ hlt hwhole =>
    subst hwhole
    match got, hlt with
    | [], _ => rfl
    | [b0], _ => rfl
  | @body len got _ hlt hwhole =>
    subst hwhole
    have hnot : ¬ len.toNat ≤ got.length := by omega
    simp only [readFrame, readU16_toBe, ReadHalf.readExact, List.append_nil, length_resize, hnot,
      ↓reduceIte]

/-- What one read does: nothing when there is nothing to take, or the future has more bytes, or it
returns what `read_frame` returns of them all. -/
inductive Reads (old : Bytes) (whole : ReadHalf) (f : FrameRead) (n : Nat) (stream : ReadHalf)
    (frame : Bytes) :
    (FrameRead × ReadHalf × Bytes) ⊕ (Except IoError Unit × ReadHalf × Bytes) → Prop
  | nothing (h : n = 0 ∨ stream.buf = []) :
      Reads old whole f n stream frame (.inl (f, stream, frame))
  | more {f' : FrameRead} {stream' : ReadHalf} {frame' : Bytes}
      (htook : Took old whole f' stream' frame') (hless : stream'.buf.length < stream.buf.length) :
      Reads old whole f n stream frame (.inl (f', stream', frame'))
  | returns {res : Except IoError Unit × ReadHalf × Bytes}
      (hframe : readFrame whole old = .ready res)
      (hless : stream.eof = false → res.2.1.buf.length < stream.buf.length) :
      Reads old whole f n stream frame (.inr res)

/-- The bytes of a read, if there are any. -/
theorem take_min_cases (buf : Bytes) (n : Nat) {k : Nat} (hk : 0 < k) :
    ((n = 0 ∨ buf = []) ∧ buf.take (min n k) = []) ∨
    ∃ b, buf.take (min n k) = b ∧ b.length ≤ k ∧ buf = b ++ buf.drop b.length ∧
      (buf.drop b.length).length < buf.length := by
  by_cases hb : buf.take (min n k) = []
  · left
    refine ⟨?_, hb⟩
    rcases List.take_eq_nil_iff.1 hb with hzero | hnil
    · left
      omega
    · exact .inr hnil
  · right
    have hpos := List.length_pos_iff.2 hb
    rw [List.length_take] at hpos
    refine ⟨_, rfl, by rw [List.length_take]; omega, ?_, ?_⟩
    · rw [List.length_take]
      conv_lhs => rw [← List.take_append_drop (min (min n k) buf.length) buf]
      rw [← List.take_eq_take_min]
    · rw [List.length_drop, List.length_take]
      omega

theorem Took.read_length {got : Bytes} {stream : ReadHalf} (hlt : got.length < 2)
    (hwhole : whole = ⟨got ++ stream.buf, stream.eof⟩)
    (hend : ¬ (stream.buf = [] ∧ stream.eof = true)) (n : Nat) :
    Reads old whole (.length got) n stream old ((FrameRead.length got).read n stream old) := by
  simp only [FrameRead.read, hend, ↓reduceIte]
  rcases take_min_cases stream.buf n (k := 2 - got.length) (by omega) with
    ⟨hnone, hb⟩ | ⟨b, hb, hle, hbuf, hless⟩
  · rw [hb]
    match got, hlt with
    | [], _ => exact .nothing hnone
    | [b0], _ => exact .nothing hnone
  · rw [hb]
    have hgot : (got ++ b).length ≤ 2 := by
      rw [List.length_append]
      omega
    rw [hbuf, ← List.append_assoc] at hwhole
    rcases hl : got ++ b with _ | ⟨b0, _ | ⟨b1, _ | ⟨b2, tl⟩⟩⟩ <;> rw [hl] at hwhole hgot
    · exact .more (.length (by simp) hwhole) hless
    · exact .more (.length (by simp) hwhole) hless
    · -- the length is there, and with it the buffer of the frame
      by_cases hzero : (ofBe b0 b1).toNat = 0
      · have hnil : resize old 0 = [] := List.length_eq_zero_iff.1 (length_resize old 0)
        simp only [hzero, hnil, List.length_nil, ↓reduceIte]
        refine .returns ?_ fun _ => hless
        subst hwhole
        simp only [readFrame, ReadHalf.readU16, List.cons_append, List.nil_append, hzero, hnil,
          ReadHalf.readExact, List.length_nil, Nat.zero_le, ↓reduceIte, List.drop_zero]
        rfl
      · simp only [length_resize, hzero, ↓reduceIte]
        have hpos : ([] : Bytes).length < (ofBe b0 b1).toNat := Nat.pos_of_ne_zero hzero
        have hsplit : whole =
            ⟨toBe (ofBe b0 b1) ++ ([] ++ stream.buf.drop b.length), stream.eof⟩ := by
          rw [hwhole, toBe_ofBe, List.nil_append]
        have hbody : Took old whole (.body ([] : Bytes).length)
            ⟨stream.buf.drop b.length, stream.eof⟩
            (blit (resize old (ofBe b0 b1).toNat) 0 []) := .body hpos hsplit
        rw [blit_zero] at hbody
        exact .more hbody hless
    · simp at hgot

theorem Took.read_body {len : UInt16} {got : Bytes} {stream : ReadHalf}
    (hlt : got.length < len.toNat)
    (hwhole : whole = ⟨toBe len ++ (got ++ stream.buf), stream.eof⟩)
    (hend : ¬ (stream.buf = [] ∧ stream.eof = true)) (n : Nat) :
    Reads old whole (.body got.length) n stream (blit (resize old len.toNat) 0 got)
      ((FrameRead.body got.length).read n stream (blit (resize old len.toNat) 0 got)) := by
  have hframe : (blit (resize old len.toNat) 0 got).length = len.toNat := by
    rw [length_blit (by rw [length_resize]; omega), length_resize]
  simp only [FrameRead.read, hend, ↓reduceIte, hframe, blit_append]
  rcases take_min_cases stream.buf n (k := len.toNat - got.length) (by omega) with
    ⟨hnone, hb⟩ | ⟨b, hb, hle, hbuf, hless⟩
  · have hnot : ¬ got.length + ([] : Bytes).length = len.toNat := by
      rw [List.length_nil]
      omega
    simp only [hb, List.append_nil, hframe, hnot, ↓reduceIte]
    exact .nothing hnone
  · rw [hb]
    have hfull : (blit (resize old len.toNat) 0 (got ++ b)).length = len.toNat := by
      rw [length_blit (by rw [length_resize, List.length_append]; omega), length_resize]
    rw [hbuf, ← List.append_assoc got] at hwhole
    simp only [hfull]
    by_cases hdone : got.length + b.length = len.toNat
    · simp only [hdone, ↓reduceIte]
      refine .returns ?_ fun _ => hless
      have hgot : (resize old len.toNat).length = (got ++ b).length := by
        rw [length_resize, List.length_append, hdone]
      rw [hwhole, readFrame, readU16_toBe]
      simp only
      rw [ReadHalf.readExact_append hgot, blit_all hgot]
    · simp only [hdone, ↓reduceIte]
      rw [← List.length_append]
      exact .more (.body (by rw [List.length_append]; omega) hwhole) hless

theorem Took.read (h : Took old whole f stream frame) (n : Nat) :
    Reads old whole f n stream frame (f.read n stream frame) := by
  by_cases hend : stream.buf = [] ∧ stream.eof = true
  · rw [read_end n hend]
    refine .returns (h.readFrame_end hend) fun heof => ?_
    rw [hend.2] at heof
    cases heof
  · cases h with
    | length hlt hwhole => exact Took.read_length hlt hwhole hend n
    | body hlt hwhole => exact Took.read_body hlt hwhole hend n

end FrameRead

/-! ## The call behind it -/

theorem PacketRx.readPacket_ready (rx : PacketRx) (s : σ)
    {res : Except IoError Unit × ReadHalf × Bytes}
    (h : readFrame rx.read rx.ciphertextBuf = .ready res) :
    rx.readPacket T s = .ready (rx.frameRead T s res) := by
  obtain ⟨r, read, buf⟩ := res
  cases r <;> simp only [readPacket, h, frameRead]

namespace Receiver

variable {r : Receiver σ}

theorem awaits_iff : r.awaits = true ↔ r.ReadsNext := by
  unfold awaits ReadsNext
  cases r.handle <;> simp [and_assoc]

theorem accepts_of_read {rx packets : PacketRx} {s s' : σ} {res : Res PacketHeader}
    (hread : rx.readPacket T s = .ready (res, packets, s')) :
    rx.accepts T s = packets.acceptedOf res := by
  cases res <;> simp only [PacketRx.accepts, hread, PacketRx.acceptedOf]

/-- A turn of the loop in which a packet was read. -/
theorem loop_received (hn : r.ReadsNext) {res : Res PacketHeader} {packets : PacketRx} {s : σ}
    (hread : r.rx.packets.readPacket T r.cipher = .ready (res, packets, s)) (drain : Bool) :
    r.loop T drain = r.received res packets s := by
  have hacc := accepts_of_read hread
  obtain ⟨rx, cipher, handle, accepted, events⟩ := r
  simp only at hread hacc
  cases handle with
  | free =>
    cases res <;> simp only [loop, loopCall, call, readMessage, MessageRx.readMessage, hread,
      advance, received, hacc]
  | message m => exact hn.elim
  | reading m =>
    simp only [loop, loopCall, call, poll, MessageRx.bodyTurn, hread, received,
      MessageRx.bodyPacket]
    cases res with
    | error f => simp only [advance, hacc]
    | ok header =>
      rcases hx : MessageRx.extend { packets, readBuf := rx.readBuf } with ⟨e, rx'⟩
      cases hk : header.kind <;> cases e <;> simp only [advance, hacc, hx, hk]
  | packets m mp =>
    obtain ⟨hit, hd, hk⟩ := hn
    simp only [loop, loopCall, hit, Bool.false_eq_true, ↓reduceIte, call, next,
      MessagePackets.next, hd, hk, hread, received, MessagePackets.nextPacket]
    cases res with
    | error f => simp [advance, hacc]
    | ok header => cases hkind : header.kind <;> simp [advance, hacc, hkind]
  | dead => exact hn.elim

/-- What the stream and the buffer were before does not matter to it. -/
theorem received_buffers (hn : r.ReadsNext) (read : ReadHalf) (buf : Bytes)
    (res : Except IoError Unit × ReadHalf × Bytes) :
    Receiver.received
        { r with rx.packets.read := read, rx.packets.ciphertextBuf := buf }
        (PacketRx.frameRead T { r.rx.packets with read, ciphertextBuf := buf } r.cipher res).1
        (PacketRx.frameRead T { r.rx.packets with read, ciphertextBuf := buf } r.cipher res).2.1
        (PacketRx.frameRead T { r.rx.packets with read, ciphertextBuf := buf } r.cipher res).2.2 =
      r.received (r.rx.packets.frameRead T r.cipher res).1
        (r.rx.packets.frameRead T r.cipher res).2.1
        (r.rx.packets.frameRead T r.cipher res).2.2 := by
  have hframe : PacketRx.frameRead T { r.rx.packets with read, ciphertextBuf := buf } r.cipher res =
      r.rx.packets.frameRead T r.cipher res := by
    obtain ⟨e, read', buf'⟩ := res
    cases e <;> rfl
  rw [hframe]
  obtain ⟨rx, cipher, handle, accepted, events⟩ := r
  cases handle with
  | message m => exact hn.elim
  | dead => exact hn.elim
  | free => rfl
  | reading m => rfl
  | packets m mp => rfl

theorem fault_rx (f : Fault) (after : Handle) : (r.fault f after).rx = r.rx := by
  cases f <;> rfl

theorem progress_rx (m : Message) (res : Option (Res Bytes)) : (r.progress m res).rx = r.rx := by
  match res with
  | none => rfl
  | some (.ok b) => rfl
  | some (.error f) => exact fault_rx f .free

theorem yielded_rx (m : Message) (mp : MessagePackets) (res : Res (Option Bytes)) :
    (r.yielded m mp res).rx = r.rx := by
  cases res with
  | ok p => rfl
  | error f => exact fault_rx f _

theorem bodyPacket_packets (rx : MessageRx) (res : Res PacketHeader) :
    (rx.bodyPacket res).2.packets = rx.packets := by
  have hextend : rx.extend.2.packets = rx.packets := by
    unfold MessageRx.extend
    split <;> rfl
  rcases hx : rx.extend with ⟨e, rx'⟩
  rw [hx] at hextend
  cases res with
  | error f => rfl
  | ok header =>
    cases hk : header.kind <;> cases e <;> simp only [MessageRx.bodyPacket, hk, hx] <;>
      exact hextend

/-- A call that read a packet leaves the stream where the packet ended. -/
theorem received_packets (hn : r.ReadsNext) (res : Res PacketHeader) (packets : PacketRx) (s : σ) :
    (r.received res packets s).rx.packets = packets := by
  obtain ⟨rx, cipher, handle, accepted, events⟩ := r
  cases handle with
  | free =>
    cases res with
    | error f => exact congrArg MessageRx.packets (fault_rx f .free)
    | ok header => rfl
  | message m => exact hn.elim
  | reading m =>
    simp only [received, progress_rx]
    exact bodyPacket_packets _ res
  | packets m mp => simp only [received, yielded_rx]
  | dead => exact hn.elim

theorem frameRead_read (rx : PacketRx) (s : σ) (res : Except IoError Unit × ReadHalf × Bytes) :
    (rx.frameRead T s res).2.1.read = res.2.1 := by
  obtain ⟨e, read, buf⟩ := res
  cases e with
  | error e => rfl
  | ok u =>
    simp only [PacketRx.frameRead, PacketRx.openFrame]
    split
    · rfl
    · split
      · rfl
      · split <;> rfl

theorem loop_frameRead (hn : r.ReadsNext) {res : Except IoError Unit × ReadHalf × Bytes}
    (hframe : readFrame r.rx.packets.read r.rx.packets.ciphertextBuf = .ready res) (drain : Bool) :
    r.loop T drain = r.received (r.rx.packets.frameRead T r.cipher res).1
      (r.rx.packets.frameRead T r.cipher res).2.1 (r.rx.packets.frameRead T r.cipher res).2.2 :=
  loop_received hn (PacketRx.readPacket_ready _ _ hframe) drain

end Receiver

namespace Reading

/-- A receiver that reads byte by byte, in the place of one that reads whole frames: the future has
taken the first bytes of what the other has in front of it. -/
structure Of (r : Receiver σ) (p : Reading σ) : Prop where
  took : FrameRead.Took r.rx.packets.ciphertextBuf r.rx.packets.read p.frame
    p.receiver.rx.packets.read p.receiver.rx.packets.ciphertextBuf
  idle : p.receiver.awaits = false → p.frame = .length []
  same : p.receiver = { r with
    rx.packets.read := p.receiver.rx.packets.read
    rx.packets.ciphertextBuf := p.receiver.rx.packets.ciphertextBuf }

variable {p : Reading σ} {r : Receiver σ}

theorem of_new (r : Receiver σ) : Of r (.new r) :=
  ⟨.length (by simp) rfl, fun _ => rfl, rfl⟩

theorem Of.awaits (h : Of r p) : p.receiver.awaits = r.awaits := by
  rw [h.same]
  rfl

theorem Of.eof (h : Of r p) : p.receiver.rx.packets.read.eof = r.rx.packets.read.eof := by
  have htook := h.took
  generalize p.receiver.rx.packets.ciphertextBuf = buf at htook
  generalize p.receiver.rx.packets.read = read at htook ⊢
  generalize p.frame = f at htook
  cases htook with
  | length hlt hwhole => rw [hwhole]
  | body hlt hwhole => rw [hwhole]

/-- No call is suspended. -/
theorem Of.eq_of_idle (h : Of r p) (hi : p.frame = .length []) : p.receiver = r := by
  have htook := h.took
  have hsame := h.same
  rw [hi] at htook
  generalize p.receiver.rx.packets.ciphertextBuf = buf at htook hsame
  generalize p.receiver.rx.packets.read = read at htook hsame
  cases htook with
  | length hlt hwhole =>
    rw [hsame, show read = r.rx.packets.read from hwhole.symm]

theorem Of.turn_idle (h : Of r p) (hw : p.receiver.awaits = false) (drain : Bool) (n : Nat) :
    p.turn T drain n = .new (r.loop T drain) := by
  simp only [turn, hw, Bool.false_eq_true, ↓reduceIte]
  rw [h.eq_of_idle (h.idle hw), h.idle hw]
  rfl

/-- The read returns. -/
theorem Of.turn_returns (h : Of r p) (hw : p.receiver.awaits = true)
    {res : Except IoError Unit × ReadHalf × Bytes} {n : Nat}
    (hread : p.frame.read n p.receiver.rx.packets.read p.receiver.rx.packets.ciphertextBuf =
      .inr res)
    (hframe : readFrame r.rx.packets.read r.rx.packets.ciphertextBuf = .ready res) (drain : Bool) :
    p.turn T drain n = .new (r.loop T drain) := by
  have hn : r.ReadsNext := Receiver.awaits_iff.1 (h.awaits ▸ hw)
  rw [Receiver.loop_frameRead hn hframe]
  simp only [turn, hw, ↓reduceIte, hread]
  have hsame := h.same
  generalize p.receiver.rx.packets.ciphertextBuf = buf at hsame
  generalize p.receiver.rx.packets.read = read at hsame
  rw [hsame]
  exact congrArg Reading.new (Receiver.received_buffers hn read buf res)

/-- The bytes that no read has taken. -/
def buffered (p : Reading σ) : Bytes := p.receiver.rx.packets.read.buf

variable (T) in
/-- What a turn makes of a receiver in the place of `r`: it waits, takes bytes, or takes the turn
of the loop that reads whole frames. -/
inductive Turned (r : Receiver σ) (p : Reading σ) (drain : Bool) (n : Nat) : Reading σ → Prop
  | waits (hw : p.receiver.awaits = true) (h : n = 0 ∨ p.buffered = []) : Turned r p drain n p
  | takes {p' : Reading σ} (hof : Of r p') (hrank : p'.receiver.rank = p.receiver.rank)
      (hless : p'.buffered.length < p.buffered.length) : Turned r p drain n p'
  | reads (hw : p.receiver.awaits = true)
      (hless : r.rx.packets.read.eof = false →
        (r.loop T drain).rx.packets.read.buf.length < p.buffered.length) :
      Turned r p drain n (.new (r.loop T drain))
  | moves (hw : p.receiver.awaits = false) : Turned r p drain n (.new (r.loop T drain))

theorem Of.turned (h : Of r p) (drain : Bool) (n : Nat) :
    Turned T r p drain n (p.turn T drain n) := by
  cases hw : p.receiver.awaits with
  | false =>
    rw [h.turn_idle hw]
    exact .moves hw
  | true =>
    have hreads := h.took.read n
    generalize hx : p.frame.read n p.receiver.rx.packets.read p.receiver.rx.packets.ciphertextBuf =
      x at hreads
    cases hreads with
    | nothing hnone =>
      have hsame : p.turn T drain n = p := by simp only [turn, hw, ↓reduceIte, hx]
      rw [hsame]
      exact .waits hw hnone
    | @more f read buf htook hless =>
      simp only [turn, hw, ↓reduceIte, hx]
      refine .takes ⟨htook, fun hno => ?_, ?_⟩ rfl hless
      · exact absurd (hw.symm.trans hno) (by decide)
      · exact congrArg (fun q : Receiver σ => { q with
          rx.packets.read := read
          rx.packets.ciphertextBuf := buf }) h.same
    | @returns res hframe hless =>
      rw [h.turn_returns hw hx hframe]
      refine .reads hw fun heof => ?_
      have hn : r.ReadsNext := Receiver.awaits_iff.1 (h.awaits ▸ hw)
      rw [Receiver.loop_frameRead hn hframe, Receiver.received_packets hn,
        Receiver.frameRead_read]
      exact hless (h.eof.trans heof)

/-- A turn is one of the loop that reads whole frames, or none. -/
theorem Of.turn (h : Of r p) (drain : Bool) (n : Nat) :
    Of r (p.turn T drain n) ∨ Of (r.loop T drain) (p.turn T drain n) := by
  have hturned := h.turned (T := T) drain n
  generalize p.turn T drain n = p' at hturned ⊢
  cases hturned with
  | waits => exact .inl h
  | takes hof => exact .inl hof
  | reads => exact .inr (of_new _)
  | moves => exact .inr (of_new _)

theorem Of.arrive (h : Of r p) (bytes : Bytes) :
    Of (r.act T (.arrive bytes)) { p with receiver := p.receiver.act T (.arrive bytes) } := by
  refine ⟨?_, h.idle, congrArg (fun q : Receiver σ => { q with
    rx.packets.read.buf := p.receiver.rx.packets.read.buf ++ bytes }) h.same⟩
  have htook := h.took
  simp only [Receiver.act, Receiver.arrive]
  generalize p.receiver.rx.packets.ciphertextBuf = buf at htook ⊢
  generalize p.frame = f at htook ⊢
  cases htook with
  | length hlt hwhole =>
    refine .length hlt ?_
    rw [hwhole, List.append_assoc]
  | body hlt hwhole =>
    refine .body hlt ?_
    rw [hwhole, List.append_assoc, List.append_assoc]

theorem Of.set_cipher (h : Of r p) (s : σ) :
    Of { r with cipher := s } { p with receiver.cipher := s } :=
  ⟨h.took, h.idle, congrArg (fun q : Receiver σ => { q with cipher := s }) h.same⟩

end Reading

/-! ## Two sides -/

theorem WriteHalf.written_writeAll (w : WriteHalf) (data : Bytes) :
    w.written <+: (w.writeAll data).2.written := by
  unfold WriteHalf.writeAll
  split
  · exact List.prefix_rfl
  · exact List.prefix_append _ _

namespace PacketTx

theorem written_writeFrame (tx : PacketTx) (s : σ) (plaintext : Bytes) :
    tx.write.written <+: (tx.writeFrame T s plaintext).2.1.write.written := by
  unfold writeFrame
  simp only
  split
  · exact List.prefix_rfl
  · split
    · exact List.prefix_rfl
    · rename_i bytes _
      have hw := WriteHalf.written_writeAll tx.write bytes
      split <;> rename_i heq <;> (rw [heq] at hw; exact hw)

theorem written_sendPacket (tx : PacketTx) (s : σ) (payload : Bytes) (last : Bool) :
    tx.write.written <+: (tx.sendPacket T s payload last).2.1.write.written := by
  unfold sendPacket
  split
  · exact List.prefix_rfl
  · rename_i b _
    exact written_writeFrame { tx with packetBuilder := b } s _

theorem written_abortMessage (tx : PacketTx) (s : σ) :
    tx.write.written <+: (tx.abortMessage T s).2.1.write.written := by
  unfold abortMessage
  split
  · exact List.prefix_rfl
  · rename_i b _
    exact written_writeFrame { tx with packetBuilder := b } s _

theorem written_prepareMessage (tx : PacketTx) (t : UInt16) :
    tx.write.written <+: (tx.prepareMessage t).2.write.written := by
  unfold prepareMessage
  split <;> exact List.prefix_rfl

end PacketTx

/-- A step of a sender adds to what it wrote and to its results. -/
theorem Sender.step_grows (d : Sender) (s : σ) :
    d.tx.write.written <+: (d.step T s).1.tx.write.written ∧
      d.results <+: (d.step T s).1.results := by
  have hone (r : Res Unit) : d.results <+: d.results ++ [r] := List.prefix_append _ _
  unfold Sender.step
  split
  · rename_i c cs _
    have hw := PacketTx.written_sendPacket (T := T) d.tx s c cs.isEmpty
    split
    · rename_i heq
      rw [heq] at hw
      exact ⟨hw, hone _⟩
    · rename_i heq
      rw [heq] at hw
      split
      · exact ⟨hw, hone _⟩
      · exact ⟨hw, List.prefix_rfl⟩
  · split
    · exact ⟨List.prefix_rfl, List.prefix_rfl⟩
    · rename_i t p rest _
      have hp := PacketTx.written_prepareMessage d.tx t
      split
      · rename_i heq
        rw [heq] at hp
        exact ⟨hp, hone _⟩
      · rename_i heq
        rw [heq] at hp
        exact ⟨hp, List.prefix_rfl⟩
    · exact ⟨PacketTx.written_prepareMessage _ _, hone _⟩
    · exact ⟨PacketTx.written_sendPacket _ s _ _, hone _⟩
    · exact ⟨PacketTx.written_abortMessage _ s, hone _⟩

namespace Bytewise

/-- Two sides that read and write byte by byte, in the place of two that do so by whole frames. -/
structure Of (d : Duplex σ) (b : Bytewise σ) : Prop where
  sender : ∀ x, (b.at_ x).sender = (d.at_ x).sender
  reading : ∀ x, Reading.Of (d.at_ x).receiver (b.at_ x).reading
  moved : ∀ x, b.moved x = d.moved x
  arrived : ∀ x, b.moved x ≤ b.pushed x
  pushed : ∀ x, b.pushed x ≤ (b.written x).length
  returned : ∀ x, b.returned x <+: (b.at_ x).sender.results
  settled : ∀ x, b.pushed x = (b.written x).length → b.returned x = (b.at_ x).sender.results

variable {d : Duplex σ} {b : Bytewise σ}

@[simp] theorem settle_toEnds (x : Side) : (b.settle x).toEnds = b.toEnds := by
  unfold settle
  split <;> rfl

@[simp] theorem settle_pushed (x : Side) : (b.settle x).pushed = b.pushed := by
  unfold settle
  split <;> rfl

theorem settle_returned (x y : Side) : (b.settle x).returned y =
    if b.pushed x = (b.written x).length ∧ y = x then (b.at_ x).sender.results
    else b.returned y := by
  unfold settle
  split
  · rename_i h
    simp only [h, true_and, Function.update_apply]
  · rename_i h
    simp only [h, false_and, ↓reduceIte]

theorem Of.written_eq (h : Of d b) (x : Side) : d.written x = b.written x :=
  congrArg (fun s : Sender => s.tx.write.written) (h.sender x).symm

theorem forall_sender (h : ∀ y, (b.at_ y).sender = (d.at_ y).sender) {x : Side} {e : Endpoint σ}
    {f : ByteEnd σ} (hx : f.sender = e.sender) (y : Side) :
    ((b.set x f).at_ y).sender = ((d.set x e).at_ y).sender :=
  Ends.forall_set₂ (R := fun _ (e : Endpoint σ) (f : ByteEnd σ) => f.sender = e.sender) h hx y

theorem forall_reading (h : ∀ y, Reading.Of (d.at_ y).receiver (b.at_ y).reading) {x : Side}
    {e : Endpoint σ} {f : ByteEnd σ} (hx : Reading.Of e.receiver f.reading) (y : Side) :
    Reading.Of ((d.set x e).at_ y).receiver ((b.set x f).at_ y).reading :=
  Ends.forall_set₂ (R := fun _ (e : Endpoint σ) (f : ByteEnd σ) =>
    Reading.Of e.receiver f.reading) h hx y

/-- A step that may have completed a frame of `x`. -/
theorem Of.of_settle {x : Side} (hsender : ∀ y, (b.at_ y).sender = (d.at_ y).sender)
    (hreading : ∀ y, Reading.Of (d.at_ y).receiver (b.at_ y).reading)
    (hmoved : ∀ y, b.moved y = d.moved y) (harrived : ∀ y, b.moved y ≤ b.pushed y)
    (hpushed : ∀ y, b.pushed y ≤ (b.written y).length)
    (hreturned : ∀ y, b.returned y <+: (b.at_ y).sender.results)
    (hsettled : ∀ y, y ≠ x → b.pushed y = (b.written y).length →
      b.returned y = (b.at_ y).sender.results) : Of d (b.settle x) := by
  refine ⟨by simpa using hsender, by simpa using hreading, by simpa using hmoved,
    by simpa using harrived, by simpa using hpushed, fun y => ?_, fun y hy => ?_⟩
  · rw [settle_returned, settle_toEnds]
    split
    · rename_i hx
      obtain ⟨-, rfl⟩ := hx
      exact List.prefix_rfl
    · exact hreturned y
  · rw [settle_pushed, settle_toEnds] at hy
    rw [settle_returned, settle_toEnds]
    by_cases hyx : y = x
    · subst hyx
      rw [if_pos ⟨hy, rfl⟩]
    · rw [if_neg (fun hc => hyx hc.2)]
      exact hsettled y hyx hy

/-- A frame was written up to `n` more bytes. -/
theorem Of.push (h : Of d b) (cap : Nat) (x : Side) (n : Nat) :
    Of d (b.step T cap (.push x n)) := by
  refine .of_settle h.sender h.reading h.moved (fun y => ?_) (fun y => ?_) h.returned
    fun y hy hp => ?_
  · have := h.arrived y
    simp only [Function.update_apply]
    split
    · rename_i hy
      subst hy
      omega
    · exact this
  · have := h.pushed y
    simp only [Function.update_apply]
    split
    · rename_i hy
      subst hy
      omega
    · exact this
  · simp only [Function.update_of_ne hy] at hp
    exact h.settled y hp

/-- The sender's next packet, if the one before has been written. -/
theorem Of.send (h : Of d b) (cap : Nat) (x : Side) :
    Of d (b.step T cap (.send x)) ∨ Of (d.step T (.send x)) (b.step T cap (.send x)) := by
  by_cases hfull : b.pushed x = (b.written x).length
  · right
    obtain ⟨hgrow, hres⟩ := Sender.step_grows (T := T) (b.at_ x).sender
      (b.at_ x).reading.receiver.cipher
    have hcipher : (b.at_ x).reading.receiver.cipher = (d.at_ x).receiver.cipher := by
      rw [(h.reading x).same]
    simp only [step, Duplex.step, hfull, ↓reduceIte]
    refine .of_settle (forall_sender h.sender ?_) (forall_reading h.reading ?_) h.moved h.arrived
      (fun y => ?_) (fun y => ?_) fun y hy hp => ?_
    · rw [h.sender, hcipher]
    · rw [h.sender, hcipher]
      exact (h.reading x).set_cipher _
    · have hle := h.pushed y
      by_cases hy : y = x
      · subst hy
        rw [set, Ends.written_set_self]
        exact Nat.le_trans hle hgrow.length_le
      · rw [set, Ends.written_set_ne _ _ hy]
        exact hle
    · by_cases hy : y = x
      · subst hy
        rw [set, Ends.set_self]
        exact (h.returned y).trans hres
      · rw [set, Ends.set_ne _ _ hy]
        exact h.returned y
    · rw [set, Ends.written_set_ne _ _ hy] at hp
      rw [set, Ends.set_ne _ _ hy]
      exact h.settled y hp
  · left
    simp only [step, hfull, ↓reduceIte]
    exact h

/-- Only the receiver of `z` has moved. -/
theorem Of.set_reading (h : Of d b) (z : Side) {p : Reading σ} {r : Receiver σ}
    (hp : Reading.Of r p) :
    Of (d.set z { d.at_ z with receiver := r }) (b.set z { b.at_ z with reading := p }) := by
  have hsender (y : Side) : ((b.set z { b.at_ z with reading := p }).at_ y).sender =
      (b.at_ y).sender := by
    by_cases hy : y = z
    · subst hy
      rw [set, Ends.set_self]
    · rw [set, Ends.set_ne _ _ hy]
  have hw (y : Side) : (b.set z { b.at_ z with reading := p }).written y = b.written y :=
    congrArg (fun s : Sender => s.tx.write.written) (hsender y)
  refine ⟨forall_sender h.sender (h.sender z), forall_reading h.reading hp, h.moved, h.arrived,
    fun y => ?_, fun y => ?_, fun y hy => ?_⟩
  · rw [hw]
    exact h.pushed y
  · rw [hsender]
    exact h.returned y
  · rw [hw] at hy
    rw [hsender]
    exact h.settled y hy

/-- More bytes that `x` has written have arrived, and the stream had taken them. -/
theorem Of.set_moved (h : Of d b) (x : Side) {k : Nat} (hk : b.moved x + k ≤ b.pushed x) :
    Of { d with moved := Function.update d.moved x (d.moved x + k) }
      { b with moved := Function.update b.moved x (b.moved x + k) } := by
  refine ⟨h.sender, h.reading, fun y => ?_, fun y => ?_, h.pushed, h.returned, h.settled⟩
  · simp only [Function.update_apply, h.moved]
  · simp only [Function.update_apply]
    split
    · rename_i hy
      rw [hy]
      exact hk
    · exact h.arrived y

theorem Of.deliver (h : Of d b) (cap : Nat) (x : Side) (n : Nat) :
    ∃ k, Of (d.step T (.deliver x k)) (b.step T cap (.deliver x n)) := by
  refine ⟨min n (b.pushed x - b.moved x), ?_⟩
  have hfl : b.inFlight x = d.inFlight x := by
    rw [Ends.inFlight, Ends.inFlight, h.written_eq, h.moved]
  have hlen : ((d.inFlight x).take (min n (b.pushed x - b.moved x))).length ≤
      b.pushed x - b.moved x := by
    rw [List.length_take]
    omega
  have harrived := h.arrived x
  simp only [step, Duplex.step, Ends.deliver, hfl]
  generalize (d.inFlight x).take (min n (b.pushed x - b.moved x)) = bytes at hlen ⊢
  exact (h.set_reading x.other ((h.reading x.other).arrive (T := T) bytes)).set_moved x
    (k := bytes.length) (by show b.moved x + bytes.length ≤ b.pushed x; omega)

theorem Of.recv (h : Of d b) (cap : Nat) (x : Side) (drain : Bool) (n : Nat) :
    Of d (b.step T cap (.recv x drain n)) ∨
      Of (d.step T (.recv x drain)) (b.step T cap (.recv x drain n)) := by
  rcases (h.reading x).turn (T := T) drain n with hp | hp
  · left
    have hset := h.set_reading x hp
    have hsame : d.set x (d.at_ x) = d := Ends.set_at rfl
    exact hsame ▸ hset
  · exact .inr (h.set_reading x hp)

/-- A step is one of two sides that read and write whole frames, or none. -/
theorem Of.step (h : Of d b) (cap : Nat) (a : ByteAct) :
    ∃ acts, Of (Lts.run (Duplex.step T) d acts) (b.step T cap a) := by
  cases a with
  | send x =>
    rcases h.send (T := T) cap x with hs | hs
    · exact ⟨[], hs⟩
    · exact ⟨[.send x], hs⟩
  | push x n => exact ⟨[], h.push cap x n⟩
  | deliver x n =>
    obtain ⟨k, hk⟩ := h.deliver (T := T) cap x n
    exact ⟨[.deliver x k], hk⟩
  | recv x drain n =>
    rcases h.recv (T := T) cap x drain n with hr | hr
    · exact ⟨[], hr⟩
    · exact ⟨[.recv x drain], hr⟩

theorem of_start (h : ∀ x, d.moved x ≤ (d.written x).length) : Of d (.start d) where
  sender _ := rfl
  reading _ := Reading.of_new _
  moved _ := rfl
  arrived := h
  pushed _ := Nat.le_refl _
  returned _ := List.prefix_rfl
  settled _ _ := rfl

end Bytewise

/-- **Bytes instead of frames.** However the futures take and write their bytes, in streams of
whatever size: some schedule of whole frames has the same calls, results, packets and events. -/
theorem bytewise_refines (T : TransportOps σ) (cap : Nat) (d₀ : Duplex σ)
    (h₀ : ∀ x, d₀.moved x ≤ (d₀.written x).length) (acts : List ByteAct) :
    ∃ acts', ∀ x,
      let e := (Lts.run (Bytewise.step T cap) (.start d₀) acts).at_ x
      let e' := (Lts.run (Duplex.step T) d₀ acts').at_ x
      e.sender = e'.sender ∧ e.reading.receiver.events = e'.receiver.events ∧
        e.reading.receiver.accepted = e'.receiver.accepted ∧
        e.reading.receiver.cipher = e'.receiver.cipher ∧
        (Lts.run (Bytewise.step T cap) (.start d₀) acts).returned x <+: e'.sender.results := by
  obtain ⟨acts', h⟩ := Lts.run_simulates (R := Bytewise.Of)
    (fun _ _ a hof => hof.step (T := T) cap a) acts (Bytewise.of_start h₀)
  refine ⟨acts', fun x => ?_⟩
  have hsame := (h.reading x).same
  refine ⟨h.sender x, ?_, ?_, ?_, h.sender x ▸ h.returned x⟩
  · rw [hsame]
  · rw [hsame]
  · rw [hsame]

/-- Streams of three bytes. -/
def Tagged.someByteActs : List ByteAct :=
  [.send .left, .send .left, .push .left 9, .deliver .left 1, .recv .right false 1,
    .deliver .left 2, .send .left, .recv .right true 5, .push .left 9]

theorem bytewise_refines_tagged :
    ∃ acts', ∀ x,
      ((Lts.run (Bytewise.step Tagged.transport 3)
          (.start (Tagged.pair fun x => sendAll (Tagged.someCalls x))) Tagged.someByteActs).at_
        x).reading.receiver.events =
        ((Lts.run (Duplex.step Tagged.transport)
          (Tagged.pair fun x => sendAll (Tagged.someCalls x)) acts').at_ x).receiver.events := by
  obtain ⟨acts', h⟩ := bytewise_refines Tagged.transport 3
    (Tagged.pair fun x => sendAll (Tagged.someCalls x)) (fun _ => Nat.zero_le _) Tagged.someByteActs
  exact ⟨acts', fun x => (h x).2.1⟩

end Snowpack
