import Snowpack.Lib.Run
import Snowpack.Transport.Proof.Link
import Snowpack.Transport.SendReader

/-!
# Frame sizes

`KeptBySends P C`: `P` is kept by each call a packet is sent with, and `C` holds of its result. It
is then kept by every call on a `MessageTx` (`call_kept`), for any payload and any source, because
no chunk is longer than a packet; for `send_reader` that is the invariant of its loop
(`turn_within`).

With a cipher that records what it is given (`TransportOps.logged`) and a source that records the
room it is offered (`Source.logged`) this gives the sizes (`frames_never_overflow`): plaintexts
between a header and a full packet, ciphertexts that a 16-bit length can say, and frames that are
read back one after the other.
-/

namespace Snowpack

open Wire

variable {σ ρ : Type} {T : TransportOps σ}

/-! ## What every packet keeps -/

/-- `P` is kept by the calls a packet is sent with, and `C` holds of what they return. -/
structure KeptBySends (T : TransportOps σ) (P : PacketTx → σ → Prop) (C : Res Unit → Prop) :
    Prop where
  prepare : ∀ {tx s} (t : UInt16), P tx s →
    P (tx.prepareMessage t).2 s ∧ C (tx.prepareMessage t).1
  packet : ∀ {tx s c} (last : Bool), P tx s → c.length ≤ maxPacketSize →
    P (tx.sendPacket T s c last).2.1 (tx.sendPacket T s c last).2.2 ∧
      C (tx.sendPacket T s c last).1
  abort : ∀ {tx s}, P tx s →
    P (tx.abortMessage T s).2.1 (tx.abortMessage T s).2.2 ∧ C (tx.abortMessage T s).1
  ok : C (.ok ())
  io : ∀ e, C (.error (.error (.io e)))

namespace KeptBySends

variable {P : PacketTx → σ → Prop} {C : Res Unit → Prop}

theorem sendChunks (hP : KeptBySends T P C) (last : Bool) : ∀ (cs : List Bytes) {tx : PacketTx}
    {s : σ}, (∀ c ∈ cs, c.length ≤ maxPacketSize) → P tx s →
    P (tx.sendChunks T s last cs).2.1 (tx.sendChunks T s last cs).2.2 ∧
      C (tx.sendChunks T s last cs).1
  | [], _, _, _, h => ⟨h, hP.ok⟩
  | c :: cs, tx, s, hlen, h => by
    have hc := hP.packet (cs.isEmpty && last) h (hlen c List.mem_cons_self)
    simp only [PacketTx.sendChunks]
    rcases hsend : tx.sendPacket T s c (cs.isEmpty && last) with ⟨r, tx', s'⟩
    rw [hsend] at hc
    cases r with
    | error f => exact hc
    | ok u => exact hP.sendChunks last cs (fun x hx => hlen x (List.mem_cons_of_mem _ hx)) hc.1

theorem sendSlice (hP : KeptBySends T P C) (p : Bytes) (last : Bool) {tx : PacketTx} {s : σ}
    (h : P tx s) :
    P (tx.sendSlice T s p last).2.1 (tx.sendSlice T s p last).2.2 ∧
      C (tx.sendSlice T s p last).1 := by
  have hlen : ∀ c ∈ chunks maxPacketSize p, c.length ≤ maxPacketSize := fun c hc =>
    length_le_of_mem_chunks (by decide) p hc
  unfold PacketTx.sendSlice
  split
  · exact hP.packet last h (Nat.zero_le _)
  · exact hP.sendChunks last _ hlen h

end KeptBySends

/-! ## The loop of `send_reader` -/

namespace ReaderLoop

variable {R : Source ρ} {P : PacketTx → σ → Prop} {Q : ρ → Prop} {C : Res Unit → Prop}

/-- The invariant of the loop, with what is kept of the sender (`P`) and of the source (`Q`). -/
structure Within (P : PacketTx → σ → Prop) (Q : ρ → Prop) (st : ReaderLoop σ ρ) : Prop where
  sender : P st.tx st.cipher
  source : Q st.source
  room : st.buf.length = maxPacketSize
  filled : st.filled ≤ maxPacketSize

/-- What holds of the result. -/
def Left (P : PacketTx → σ → Prop) (Q : ρ → Prop) (C : Res Unit → Prop) (x : Result σ ρ) : Prop :=
  P x.2.1 x.2.2.1 ∧ Q x.2.2.2 ∧ C x.1

variable {st : ReaderLoop σ ρ}

theorem Within.sendFilled (hP : KeptBySends T P C) (h : st.Within P Q) (last : Bool) :
    P (st.sendFilled T last).2.1 (st.sendFilled T last).2.2 ∧ C (st.sendFilled T last).1 := by
  have hle : st.filled ≤ st.buf.length := by
    rw [h.room]
    exact h.filled
  simp only [ReaderLoop.sendFilled, slice?_eq (Nat.zero_le _) hle, List.drop_zero]
  apply hP.packet last h.sender
  rw [List.length_take]
  exact Nat.le_trans (Nat.min_le_left _ _) h.filled

theorem Within.finish (hP : KeptBySends T P C) (h : st.Within P Q) :
    Left P Q C (st.finish T) := by
  unfold ReaderLoop.finish
  split
  · have hs := h.sendFilled hP true
    exact ⟨hs.1, h.source, hs.2⟩
  · split
    · have hnil : ([] : Bytes).length ≤ maxPacketSize := Nat.zero_le _
      have hs := hP.packet true h.sender hnil
      exact ⟨hs.1, h.source, hs.2⟩
    · exact ⟨h.sender, h.source, hP.ok⟩

/-- A read is given room for at least one byte and at most a packet. -/
theorem Within.fill (hP : KeptBySends T P C)
    (hQ : ∀ r n, Q r → 0 < n → n ≤ maxPacketSize → Q (R.read r n).2) (h : st.Within P Q)
    (hlt : st.filled < maxPacketSize) :
    Sum.elim (Within P Q) (Left P Q C) (st.fill T R) := by
  have hle : ¬ st.filled > maxPacketSize := Nat.not_lt.2 h.filled
  have hsrc := hQ st.source (maxPacketSize - st.filled) h.source (Nat.sub_pos_of_lt hlt)
    (Nat.sub_le _ _)
  have hfits : ∀ b, (R.read st.source (maxPacketSize - st.filled)).1 = .ok b →
      b.length ≤ maxPacketSize - st.filled := fun b hb => R.fits hb
  simp only [ReaderLoop.fill, h.room, hle, ↓reduceIte]
  rcases hread : R.read st.source (maxPacketSize - st.filled) with ⟨r, source⟩
  rw [hread] at hsrc hfits
  cases r with
  | error e => exact ⟨h.sender, hsrc, hP.io e⟩
  | ok b =>
    have hb : b.length ≤ maxPacketSize - st.filled := hfits b rfl
    simp only
    split
    · have hw : Within P Q { st with source } := ⟨h.sender, hsrc, h.room, h.filled⟩
      exact hw.finish hP
    · refine ⟨h.sender, hsrc, ?_, ?_⟩
      · exact (length_blit (by rw [h.room]; omega)).trans h.room
      · simp only
        omega

theorem turn_within (hP : KeptBySends T P C)
    (hQ : ∀ r n, Q r → 0 < n → n ≤ maxPacketSize → Q (R.read r n).2) (st : ReaderLoop σ ρ)
    (h : st.Within P Q) : Sum.elim (Within P Q) (Left P Q C) (st.turn T R) := by
  simp only [turn]
  split
  · have hs := h.sendFilled hP false
    rcases hsend : st.sendFilled T false with ⟨r, tx, s⟩
    rw [hsend] at hs
    cases r with
    | error f => exact ⟨hs.1, h.source, hs.2⟩
    | ok u =>
      have hw : Within P Q { st with tx, cipher := s, filled := 0 } :=
        ⟨hs.1, h.source, h.room, Nat.zero_le _⟩
      exact hw.fill hP hQ (Nat.zero_lt_of_ne_zero (by decide))
  · apply h.fill hP hQ
    omega

/-- Any number of turns of `send_reader`. -/
theorem sendReader_within (hP : KeptBySends T P C)
    (hQ : ∀ r n, Q r → 0 < n → n ≤ maxPacketSize → Q (R.read r n).2) (turns : Nat) {tx : PacketTx}
    {s : σ} {reader : ρ} (h : P tx s) (hr : Q reader) :
    Sum.elim (Within P Q) (Left P Q C) (tx.sendReader T R turns s reader) :=
  Turns.run_inv (turn_within hP hQ) turns ⟨h, hr, List.length_replicate, Nat.zero_le _⟩

end ReaderLoop

/-! ## Every call -/

namespace Outbox

variable {P : PacketTx → σ → Prop} {C : Res Unit → Prop}

/-- `P` holds of the sender, `C` of the results. -/
structure Kept (P : PacketTx → σ → Prop) (C : Res Unit → Prop) (o : Outbox σ) : Prop where
  sender : P o.tx.packets o.cipher
  results : ∀ r, some r ∈ o.results → C r

theorem Kept.record {o : Outbox σ} (h : o.Kept P C) {r : Option (Res Unit)} {tx : MessageTx} {s : σ}
    (hs : P tx.packets s) (hr : ∀ r', r = some r' → C r') : (o.record r tx s).Kept P C := by
  refine ⟨hs, fun r' hm => ?_⟩
  rcases List.mem_append.1 hm with hm | hm
  · exact h.results r' hm
  · exact hr r' (List.mem_singleton.1 hm).symm

theorem call_kept (hP : KeptBySends T P C) (R : Source ρ) (o : Outbox σ) (c : TxCall ρ)
    (h : o.Kept P C) : (o.call T R c).Kept P C := by
  cases c with
  | sendMessage t p =>
    have hp := hP.prepare t h.sender
    simp only [call, MessageTx.sendMessage]
    rcases hprep : o.tx.packets.prepareMessage t with ⟨r, q⟩
    rw [hprep] at hp
    cases r with
    | error f => exact h.record hp.1 fun r' hr => by cases hr; exact hp.2
    | ok u =>
      have hs := hP.sendSlice p true hp.1
      exact h.record hs.1 fun r' hr => by cases hr; exact hs.2
  | sendReader t reader turns =>
    have hp := hP.prepare t h.sender
    simp only [call, MessageTx.sendReader]
    rcases hprep : o.tx.packets.prepareMessage t with ⟨r, q⟩
    rw [hprep] at hp
    cases r with
    | error f => exact h.record hp.1 fun r' hr => by cases hr; exact hp.2
    | ok u =>
      have hs : Sum.elim _ _ (q.sendReader T R turns o.cipher reader) :=
        ReaderLoop.sendReader_within (Q := fun _ => True) hP (fun _ _ _ _ _ => trivial) turns hp.1
          trivial
      simp only
      rcases hsend : q.sendReader T R turns o.cipher reader with st | ⟨r, q', s', reader'⟩
      · rw [hsend] at hs
        exact h.record hs.sender fun r' hr => by cases hr
      · rw [hsend] at hs
        exact h.record hs.1 fun r' hr => by cases hr; exact hs.2.2
  | abortMessage =>
    have ha := hP.abort h.sender
    exact h.record ha.1 fun r' hr => by cases hr; exact ha.2

end Outbox

/-! ## A cipher that records its calls -/

/-- A call of `write_message`: its plaintext, and the ciphertext or the error. -/
structure CipherCall where
  plaintext : Bytes
  result : Except SnowError Bytes

/-- The cipher with a record of what it was given to encrypt. -/
def TransportOps.logged (T : TransportOps σ) : TransportOps (σ × List CipherCall) where
  writeMessage s p out :=
    match T.writeMessage s.1 p out with
    | (s', out, .error e) => ((s', s.2 ++ [⟨p, .error e⟩]), out, .error e)
    | (s', out, .ok n) => ((s', s.2 ++ [⟨p, .ok (out.take n)⟩]), out, .ok n)
  readMessage s c out :=
    match T.readMessage s.1 c out with
    | (s', out, r) => ((s', s.2), out, r)

/-- What it encrypted. -/
def ciphertexts (log : List CipherCall) : List Bytes := log.filterMap fun x => x.result.toOption

/-- The plaintext has a header and is not too long, and it was encrypted. -/
def CipherCall.Fits (x : CipherCall) : Prop :=
  2 ≤ x.plaintext.length ∧ x.plaintext.length ≤ maxRawPacketSize ∧
    ∃ c, x.result = .ok c ∧ c.length = x.plaintext.length + noiseTag

/-- Neither an error of the cipher nor a slice out of bounds. -/
def Clean : Res Unit → Prop
  | .error (.error (.noise _)) => False
  | .error (.panic _) => False
  | _ => True

/-- All calls of the cipher so far fit, and their frames are what was written, from `w₀` on. -/
structure Sized (w₀ : WriteHalf) (tx : PacketTx) (s : σ × List CipherCall) : Prop where
  calls : ∀ x ∈ s.2, x.Fits
  broken : tx.write.broken = w₀.broken
  written : tx.write.written =
    w₀.written ++ if w₀.broken then [] else ((ciphertexts s.2).map frame).flatten

namespace Sized

variable {w₀ : WriteHalf} {tx : PacketTx} {s : σ × List CipherCall}

theorem writeFrame (S : TransportSpec T) (h : Sized w₀ tx s) {p : Bytes} (h2 : 2 ≤ p.length)
    (hmax : p.length ≤ maxRawPacketSize) :
    Sized w₀ (tx.writeFrame T.logged s p).2.1 (tx.writeFrame T.logged s p).2.2 ∧
      Clean (tx.writeFrame T.logged s p).1 := by
  obtain ⟨out, hout, heq⟩ := PacketTx.writeFrame_eq (T := T.logged) tx s p
  obtain ⟨s', hwrite, -⟩ := S.write_ok s.1 p out (PacketTx.fits_noise hmax) hout
  generalize hc : S.encrypt (S.sendKey s.1) (S.sendNonce s.1) p = c at hwrite
  have hcl : c.length = p.length + noiseTag := by
    rw [← hc]
    exact S.length_encrypt _ _ _
  have hlog : T.logged.writeMessage s p out =
      ((s', s.2 ++ [⟨p, .ok c⟩]), blit out 0 c, .ok c.length) := by
    have htake : (blit out 0 c).take (p.length + noiseTag) = c := by
      rw [blit_zero, ← hcl, List.take_left]
    simp only [TransportOps.logged, hwrite, htake, hcl]
  rw [heq _ c hcl hlog]
  refine ⟨⟨fun x hx => ?_, ?_, ?_⟩, ?_⟩
  · rcases List.mem_append.1 hx with hx | hx
    · exact h.calls x hx
    · rw [List.mem_singleton.1 hx]
      exact ⟨h2, hmax, c, rfl, hcl⟩
  · simp only [WriteHalf.writeAll]
    split
    · exact h.broken
    · exact h.broken
  · have hcs : ciphertexts (s.2 ++ [⟨p, .ok c⟩]) = ciphertexts s.2 ++ [c] := by
      simp [ciphertexts, Except.toOption]
    simp only [WriteHalf.writeAll, hcs]
    rw [h.broken]
    cases hb : w₀.broken with
    | true =>
      have := h.written
      rw [hb] at this
      exact this
    | false =>
      have hw := h.written
      simp only [hb, Bool.false_eq_true, ↓reduceIte] at hw ⊢
      simp only [hw, List.map_append, List.flatten_append, List.map_cons, List.map_nil,
        List.flatten_singleton, List.append_assoc]
  · cases tx.write.broken <;> trivial

/-- Of the sender only what it writes matters. -/
theorem of_write {tx' : PacketTx} (h : Sized w₀ tx s) (hw : tx'.write = tx.write) :
    Sized w₀ tx' s :=
  ⟨h.calls, by rw [hw]; exact h.broken, by rw [hw]; exact h.written⟩

theorem kept (S : TransportSpec T) (w₀ : WriteHalf) :
    KeptBySends T.logged (Sized (σ := σ) w₀) Clean where
  prepare := by
    intro tx s t h
    unfold PacketTx.prepareMessage
    rcases tx.packetBuilder.prepare t with ⟨r, b⟩
    cases r with
    | error e => exact ⟨h.of_write rfl, trivial⟩
    | ok u => exact ⟨h.of_write rfl, trivial⟩
  packet := by
    intro tx s c last h hc
    rcases PacketBuilder.pack_cases tx.packetBuilder hc last with hpack | ⟨raw, b, hpack, h2, hmax⟩
    · simp only [PacketTx.sendPacket, hpack]
      exact ⟨h.of_write rfl, trivial⟩
    · simp only [PacketTx.sendPacket, hpack]
      have h' : Sized w₀ { tx with packetBuilder := b } s := h.of_write rfl
      exact h'.writeFrame S h2 hmax
  abort := by
    intro tx s h
    rcases PacketBuilder.abort_cases tx.packetBuilder with habort | ⟨raw, b, habort, h2, hmax⟩
    · simp only [PacketTx.abortMessage, habort]
      exact ⟨h.of_write rfl, trivial⟩
    · simp only [PacketTx.abortMessage, habort]
      have h' : Sized w₀ { tx with packetBuilder := b } s := h.of_write rfl
      exact h'.writeFrame S h2 hmax
  ok := trivial
  io _ := trivial

end Sized

/-! ## Reading frames back -/

/-- `n` calls of `read_frame` on the buffer `dst`: the frames they read. -/
def readFrames : Nat → ReadHalf → Bytes → Poll (Except IoError (List Bytes) × ReadHalf)
  | 0, stream, _ => .ready (.ok [], stream)
  | n + 1, stream, dst =>
    match readFrame stream dst with
    | .pending => .pending
    | .ready (.error e, stream, _) => .ready (.error e, stream)
    | .ready (.ok (), stream, c) =>
      match readFrames n stream c with
      | .pending => .pending
      | .ready (.error e, stream) => .ready (.error e, stream)
      | .ready (.ok cs, stream) => .ready (.ok (c :: cs), stream)

theorem readFrames_frames (more : Bytes) (eof : Bool) : ∀ (cs : List Bytes) (dst : Bytes),
    (∀ c ∈ cs, c.length ≤ maxCiphertextSize) →
    readFrames cs.length ⟨(cs.map frame).flatten ++ more, eof⟩ dst =
      .ready (.ok cs, ⟨more, eof⟩)
  | [], _, _ => rfl
  | c :: cs, dst, h => by
    have ih := readFrames_frames more eof cs c fun x hx => h x (List.mem_cons_of_mem _ hx)
    simp only [List.length_cons, List.map_cons, List.flatten_cons, List.append_assoc, readFrames,
      readFrame_whole (h c List.mem_cons_self), ih]

/-! ## The theorem -/

/-- What a sender has done when every frame size is in range. -/
structure FramesFit (w₀ : WriteHalf) (o : Outbox (σ × List CipherCall)) : Prop where
  plaintexts : ∀ x ∈ o.cipher.2, 2 ≤ x.plaintext.length ∧ x.plaintext.length ≤ maxRawPacketSize
  /-- the cipher refused nothing, and the length of a ciphertext survives the cast to 16 bits -/
  encrypted : ∀ x ∈ o.cipher.2, ∃ c, x.result = .ok c ∧ c.length ≤ maxCiphertextSize ∧
    (UInt16.ofNat c.length).toNat = c.length
  results : ∀ r, some r ∈ o.results → Clean r
  /-- what was written is read back frame by frame, whatever follows it -/
  written : w₀.broken = false → ∃ out, o.tx.packets.write.written = w₀.written ++ out ∧
    ∀ more eof dst, readFrames (ciphertexts o.cipher.2).length ⟨out ++ more, eof⟩ dst =
      .ready (.ok (ciphertexts o.cipher.2), ⟨more, eof⟩)
  broken : w₀.broken = true → o.tx.packets.write.written = w₀.written

theorem Sized.framesFit {w₀ : WriteHalf} {o : Outbox (σ × List CipherCall)}
    (h : Sized w₀ o.tx.packets o.cipher) (hr : ∀ r, some r ∈ o.results → Clean r) :
    FramesFit w₀ o := by
  have hlen : ∀ {x c}, x ∈ o.cipher.2 → x.result = .ok c → c.length ≤ maxCiphertextSize := by
    intro x c hx hc
    obtain ⟨-, hmax, c', hc', hl⟩ := h.calls x hx
    rw [hc] at hc'
    cases hc'
    rw [hl]
    exact PacketTx.fits_noise hmax
  refine ⟨fun x hx => ?_, fun x hx => ?_, hr, fun hw => ?_, fun hw => ?_⟩
  · obtain ⟨h2, hmax, -⟩ := h.calls x hx
    exact ⟨h2, hmax⟩
  · obtain ⟨-, -, c, hc, -⟩ := h.calls x hx
    exact ⟨c, hc, hlen hx hc, toNat_ofNat_length (hlen hx hc)⟩
  · refine ⟨((ciphertexts o.cipher.2).map frame).flatten, ?_, fun more eof dst => ?_⟩
    · rw [h.written, hw]
      rfl
    · apply readFrames_frames
      intro c hc
      obtain ⟨x, hx, hxc⟩ := List.mem_filterMap.1 hc
      cases hres : x.result with
      | error e =>
        rw [hres] at hxc
        cases hxc
      | ok c' =>
        rw [hres] at hxc
        cases hxc
        exact hlen hx hres
  · rw [h.written, hw]
    exact List.append_nil _

/-- The source was offered room for at least one byte and at most a packet. -/
def Offered (reader : ρ × List Nat) : Prop := ∀ n ∈ reader.2, 0 < n ∧ n ≤ maxPacketSize

/-- **Frame sizes.** Whatever is sent, from whatever sender: every plaintext given to the cipher has
between two and `maxRawPacketSize` bytes and is encrypted, no length is cut off, and the frames are
read back one after the other. In `send_reader` the buffer never holds more than a packet, and the
source is never offered an empty one. -/
theorem frames_never_overflow (S : TransportSpec T) (R : Source ρ) :
    (∀ (tx : MessageTx) (s : σ) (calls : List (TxCall ρ)),
      FramesFit tx.packets.write (Lts.run (Outbox.call T.logged R) (.new tx (s, [])) calls)) ∧
    ∀ (tx : PacketTx) (s : σ) (reader : ρ) (turns : Nat),
      Sum.elim (fun st => st.filled ≤ maxPacketSize ∧ Offered st.source)
        (fun x => Offered x.2.2.2) (tx.sendReader T R.logged turns s (reader, [])) := by
  refine ⟨fun tx s calls => ?_, fun tx s reader turns => ?_⟩
  · have hstart : (Outbox.new tx (s, [])).Kept (Sized tx.packets.write) Clean := by
      refine ⟨⟨fun x hx => ?_, rfl, ?_⟩, fun r hr => ?_⟩
      · cases hx
      · cases hb : tx.packets.write.broken <;> exact (List.append_nil _).symm
      · cases hr
    have hrun := Lts.run_inv (Outbox.call_kept (Sized.kept S _) R) calls hstart
    exact hrun.sender.framesFit hrun.results
  · have hkept : KeptBySends T (fun _ _ => True) fun _ => True :=
      ⟨fun _ _ => ⟨trivial, trivial⟩, fun _ _ _ => ⟨trivial, trivial⟩, fun _ => ⟨trivial, trivial⟩,
        trivial, fun _ => trivial⟩
    have hread : ∀ r n, Offered r → 0 < n → n ≤ maxPacketSize → Offered (R.logged.read r n).2 := by
      intro r n h hpos hle k hk
      rcases List.mem_append.1 hk with hk | hk
      · exact h k hk
      · rw [List.mem_singleton.1 hk]
        exact ⟨hpos, hle⟩
    have hloop : Sum.elim (ReaderLoop.Within _ Offered) (ReaderLoop.Left _ Offered _)
        (tx.sendReader T R.logged turns s (reader, [])) :=
      ReaderLoop.sendReader_within hkept hread turns trivial fun n hn => by cases hn
    cases hrun : tx.sendReader T R.logged turns s (reader, []) with
    | inl st =>
      rw [hrun] at hloop
      exact ⟨hloop.filled, hloop.source⟩
    | inr x =>
      rw [hrun] at hloop
      exact hloop.2.1

end Snowpack
