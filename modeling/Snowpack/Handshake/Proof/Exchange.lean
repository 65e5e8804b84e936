import Snowpack.Handshake.Pair
import Snowpack.Transport.Proof.Link

/-!
# One handshake message

`send_ok` and `recv_frame` are the two ends of a message under `Carries`: a payload that fits is
written as one frame, and a side waiting for that frame either has not got all of it and stays
where it is, or gets exactly the payload.
-/

namespace Snowpack

open Wire

variable {η σ : Type} {H : HandshakeOps η σ}

/-- A reader in state `r` opens `c` to `p`, and is then in a state with `Q`. -/
structure Opens (H : HandshakeOps η σ) (c p : Bytes) (r : η) (Q : η → Prop) : Prop where
  fits : c.length ≤ maxCiphertextSize
  shorter : p.length ≤ c.length
  opens : ∀ out : Bytes, p.length ≤ out.length →
    ∃ r', H.readMessage r c out = (r', blit out 0 p, .ok p.length) ∧ Q r'

namespace HandshakeContext

/-- A context with an intact stream and the buffer it was made with, in the Noise state `noise`. -/
structure Waits (hs : HandshakeContext η) (noise : η) : Prop where
  noise : hs.handshake = noise
  room : hs.noiseBuf.length = frameHeaderSize + maxCiphertextSize
  intact : hs.write.broken = false

theorem Waits.set_read {hs : HandshakeContext η} {noise : η} (h : hs.Waits noise)
    (read : ReadHalf) : Waits { hs with read := read } noise :=
  ⟨h.noise, h.room, h.intact⟩

/-- The front of a buffer that a frame was written into. -/
theorem slice_frame {c out : Bytes} :
    slice? (toBe (UInt16.ofNat c.length) ++ blit out 0 c) 0 (frameHeaderSize + c.length) =
      some (Wire.frame c) := by
  have hfl : (Wire.frame c).length = frameHeaderSize + c.length := by
    rw [length_frame]
    simp only [frameHeaderSize]
    omega
  have hbuf : toBe (UInt16.ofNat c.length) ++ blit out 0 c = Wire.frame c ++ out.drop c.length := by
    rw [blit_zero, Wire.frame, List.append_assoc]
  rw [hbuf, ← hfl, slice?_eq (Nat.zero_le _) (by simp)]
  simp

theorem send_ok {overhead : Nat} {w r : η} {Q : η → η → Prop} (hc : Carries H overhead w r Q)
    {hs : HandshakeContext η} (hw : hs.Waits w) {p : Bytes}
    (hfit : overhead + p.length ≤ maxNoiseMessage) :
    ∃ hs' c, hs.send H p = (.ok (), hs') ∧ hs'.Waits hs'.handshake ∧ hs'.read = hs.read ∧
      hs'.write.written = hs.write.written ++ Wire.frame c ∧
      Opens H c p r (Q hs'.handshake) := by
  have hroom : (hs.noiseBuf.drop frameHeaderSize).length = maxNoiseMessage := by
    rw [List.length_drop, hw.room]
    simp only [frameHeaderSize, maxCiphertextSize, maxNoiseMessage]
  obtain ⟨w', c, hlen, hwrite, hopen⟩ :=
    hc.carry p (hs.noiseBuf.drop frameHeaderSize) hfit (by rw [hroom]; exact hfit)
  rw [← hw.noise] at hwrite
  have hsend : hs.send H p = (.ok (), { hs with
      handshake := w'
      noiseBuf := toBe (UInt16.ofNat c.length) ++ blit (hs.noiseBuf.drop frameHeaderSize) 0 c
      write.written := hs.write.written ++ Wire.frame c }) := by
    simp only [send, hwrite, slice_frame, WriteHalf.writeAll, hw.intact, Bool.false_eq_true,
      ↓reduceIte]
  have hblit : (blit (hs.noiseBuf.drop frameHeaderSize) 0 c).length = maxNoiseMessage := by
    rw [length_blit (by rw [hroom]; omega), hroom]
  refine ⟨_, c, hsend, ⟨rfl, ?_, hw.intact⟩, rfl, rfl, ?_, ?_, hopen⟩
  · simp only [List.length_append, length_toBe, hblit]
    rfl
  · rw [hlen]
    exact hfit
  · omega

theorem send_refused {overhead : Nat} {w r : η} {Q : η → η → Prop}
    (hc : Carries H overhead w r Q) {hs : HandshakeContext η} (hw : hs.Waits w) {p : Bytes}
    (hlong : maxNoiseMessage < overhead + p.length) :
    ∃ hs' e, hs.send H p = (.error (.error (.noise e)), hs') ∧ hs'.write = hs.write := by
  obtain ⟨w', out', e, hwrite⟩ := hc.refuse p (hs.noiseBuf.drop frameHeaderSize) hlong
  rw [← hw.noise] at hwrite
  have hsend : hs.send H p = (.error (.error (.noise e)),
      { hs with handshake := w', noiseBuf := hs.noiseBuf.take frameHeaderSize ++ out' }) := by
    simp only [send, hwrite]
  exact ⟨_, e, hsend, rfl⟩

/-- A side that waits for the frame `c`; of that and what comes behind it `fl` is still under
way. -/
theorem recv_frame_more {c p fl more : Bytes} {r : η} {Q : η → Prop} (ho : Opens H c p r Q)
    {hs : HandshakeContext η} (hw : hs.Waits r) (heof : hs.read.eof = false)
    (hbuf : hs.read.buf ++ fl = Wire.frame c ++ more) :
    (fl ≠ [] ∧ hs.recv H = .pending) ∨
    ∃ hs' rest, hs.read.buf = Wire.frame c ++ rest ∧ hs.recv H = .ready (.ok p, hs') ∧
      hs'.Waits hs'.handshake ∧ Q hs'.handshake ∧ hs'.read = ⟨rest, false⟩ ∧
      hs'.write = hs.write := by
  obtain ⟨noise, fr, buf, ⟨rb, eof⟩, wr⟩ := hs
  simp only at heof hbuf
  subst heof
  by_cases hlt : rb.length < (Wire.frame c).length
  · left
    have hpart : readFrame ⟨rb, false⟩ fr = .pending := readFrame_partial hbuf ho.fits hlt
    refine ⟨?_, by simp only [recv, hpart]⟩
    rintro rfl
    have := congrArg List.length hbuf
    simp only [List.append_nil, List.length_append] at this
    omega
  · right
    obtain ⟨rest, rfl⟩ : Wire.frame c <+: rb :=
      List.prefix_of_prefix_length_le ⟨more, hbuf.symm⟩ ⟨fl, rfl⟩ (Nat.le_of_not_lt hlt)
    have hframe : readFrame ⟨Wire.frame c ++ rest, false⟩ fr = .ready (.ok (), ⟨rest, false⟩, c) :=
      readFrame_whole ho.fits
    have hroom : p.length ≤ buf.length := by
      have hb : buf.length = frameHeaderSize + maxCiphertextSize := hw.room
      have h1 := ho.fits
      have h2 := ho.shorter
      omega
    obtain ⟨r', hread, hq⟩ := ho.opens buf hroom
    have hnoise : noise = r := hw.noise
    rw [← hnoise] at hread
    have hslice : slice? (blit buf 0 p) 0 p.length = some p := by
      have hlen : (blit buf 0 p).length = buf.length := length_blit (by omega)
      rw [slice?_eq (Nat.zero_le _) (by omega)]
      simp [blit]
    refine ⟨⟨r', c, blit buf 0 p, ⟨rest, false⟩, wr⟩, rest, rfl, ?_, ⟨rfl, ?_, hw.intact⟩, hq, rfl,
      rfl⟩
    · simp only [recv, hframe, hread, hslice]
    · rw [length_blit (by omega)]
      exact hw.room

/-- A side that waits for a frame of which `fl` is still under way, when nothing comes behind
it. -/
theorem recv_frame {c p fl : Bytes} {r : η} {Q : η → Prop} (ho : Opens H c p r Q)
    {hs : HandshakeContext η} (hw : hs.Waits r) (heof : hs.read.eof = false)
    (hbuf : hs.read.buf ++ fl = Wire.frame c) :
    (fl ≠ [] ∧ hs.recv H = .pending) ∨
    ∃ hs', fl = [] ∧ hs.recv H = .ready (.ok p, hs') ∧ hs'.Waits hs'.handshake ∧
      Q hs'.handshake ∧ hs'.read = ⟨[], false⟩ ∧ hs'.write = hs.write := by
  have hall : hs.read.buf ++ fl = Wire.frame c ++ [] := by rw [hbuf, List.append_nil]
  rcases recv_frame_more ho hw heof hall with hpend | ⟨hs', rest, hrest, hready⟩
  · exact .inl hpend
  · rw [hrest, List.append_assoc, List.append_right_inj, List.append_eq_nil_iff] at hall
    obtain ⟨rfl, rfl⟩ := hall
    exact .inr ⟨hs', rfl, hready⟩

theorem recv_empty {hs : HandshakeContext η} (hb : hs.read.buf = []) (he : hs.read.eof = false) :
    hs.recv H = .pending := by
  simp only [recv, readFrame, ReadHalf.readU16, hb, he, Bool.false_eq_true, ↓reduceIte]

/-- The other side is gone. -/
theorem recv_eof {hs : HandshakeContext η} (hb : hs.read.buf = []) (he : hs.read.eof = true) :
    ∃ hs', hs.recv H = .ready (.error (.error (.io .unexpectedEof)), hs') ∧
      hs'.write = hs.write := by
  refine ⟨{ hs with read := ⟨[], true⟩ }, ?_, rfl⟩
  simp only [recv, readFrame, ReadHalf.readU16, hb, he, ↓reduceIte]

end HandshakeContext

end Snowpack
