import Snowpack.Packet.Proof.Reader
import Snowpack.Transport.Receiver

/-!
# What a packet read can do

`PacketRx.Reads` lists the ways through `read_packet`, and `PacketRx.Fetch` what they come to: an
error, which leaves the packet reader as it was, or an accepted packet, which takes a transition of
the reader and can be had from `payload`. `MessageRx.Turn` and `MessagePackets.Next` say the same of
one turn of `read_bytes` and of a `next` call that reads from the stream. Nothing is assumed of the
cipher: a length out of bounds is a panic at the slice.
-/

namespace Snowpack

open Wire

section
variable {σ : Type} (T : TransportOps σ)

/-- The plaintext of the next frame, when it has arrived and decrypts. -/
def PacketRx.nextPlaintext (rx : PacketRx) (s : σ) : Option Bytes :=
  match readFrame rx.read rx.ciphertextBuf with
  | .ready (.ok (), _, c) =>
    match T.readMessage s c (resize rx.plaintextBuf c.length) with
    | (_, out, .ok n) => slice? out 0 n
    | (_, _, .error _) => none
  | _ => none

/-- What a `read_packet` that returns comes to, and the packets it accepted. -/
inductive PacketRx.Fetch (rx : PacketRx) (s : σ) :
    List Packet → Res PacketHeader → PacketRx → Prop
  | error {f : Fault} {rx' : PacketRx} (hf : f ≠ .panic .unreachableKind)
      (hr : rx'.packetReader = rx.packetReader) : Fetch rx s [] (.error f) rx'
  | ok {raw : Bytes} {rx' : PacketRx} (hraw : rx.nextPlaintext T s = some raw)
      (hw : WellFormed raw)
      (hs : PacketReader.Step rx.packetReader (headerOf raw) rx'.packetReader)
      (hp : rx'.payload = some (raw.drop 2)) :
      Fetch rx s [(headerOf raw, raw.drop 2)] (.ok (headerOf raw)) rx'

end

variable {σ : Type} {T : TransportOps σ}

/-! ## `read_packet` -/

namespace PacketRx

theorem slice?_zero {out raw : Bytes} {n : Nat} (h : slice? out 0 n = some raw) :
    n ≤ out.length ∧ out.take n = raw := by
  simp only [slice?, Nat.zero_le, true_and] at h
  split at h
  · rename_i hle
    exact ⟨hle, by simpa using h⟩
  · cases h

/-- In bounds, `payload` is the plaintext behind the header. -/
theorem payload_eq (rx : PacketRx) (hb : rx.payloadEnd ≤ rx.plaintextBuf.length) :
    rx.payload = some ((rx.plaintextBuf.take rx.payloadEnd).drop 2) := by
  unfold payload
  split
  · rename_i h2
    exact slice?_eq (by omega) hb
  · rename_i h2
    have hl : (rx.plaintextBuf.take rx.payloadEnd).length ≤ 2 := by
      rw [List.length_take]
      omega
    rw [List.drop_eq_nil_of_le hl]

/-- How a `read_packet` that returns can go. -/
inductive Reads (T : TransportOps σ) (rx : PacketRx) (s : σ) :
    Res PacketHeader → PacketRx → σ → Prop
  | io {e : IoError} {read : ReadHalf} {buf : Bytes}
      (hframe : readFrame rx.read rx.ciphertextBuf = .ready (.error e, read, buf)) :
      Reads T rx s (.error (.error (.io e))) { rx with read, ciphertextBuf := buf } s
  | noise {read : ReadHalf} {c out : Bytes} {s' : σ} {e : SnowError}
      (hframe : readFrame rx.read rx.ciphertextBuf = .ready (.ok (), read, c))
      (hread : T.readMessage s c (resize rx.plaintextBuf c.length) = (s', out, .error e)) :
      Reads T rx s (.error (.error (.noise e)))
        { rx with read, ciphertextBuf := c, plaintextBuf := out } s'
  | bounds {read : ReadHalf} {c out : Bytes} {s' : σ} {n : Nat}
      (hframe : readFrame rx.read rx.ciphertextBuf = .ready (.ok (), read, c))
      (hread : T.readMessage s c (resize rx.plaintextBuf c.length) = (s', out, .ok n))
      (hslice : slice? out 0 n = none) :
      Reads T rx s (.error (.panic .sliceBounds))
        { rx with read, ciphertextBuf := c, plaintextBuf := out, payloadEnd := n } s'
  | refused {read : ReadHalf} {c out raw : Bytes} {s' : σ} {n : Nat} {e : PacketReadError}
      {r : PacketReader}
      (hframe : readFrame rx.read rx.ciphertextBuf = .ready (.ok (), read, c))
      (hread : T.readMessage s c (resize rx.plaintextBuf c.length) = (s', out, .ok n))
      (hslice : slice? out 0 n = some raw) (hr : rx.packetReader.read raw = (.error e, r)) :
      Reads T rx s (.error (.error (.packet e))) ⟨r, read, c, out, n⟩ s'
  | packet {read : ReadHalf} {c out raw : Bytes} {s' : σ} {n : Nat} {header : PacketHeader}
      {r : PacketReader}
      (hframe : readFrame rx.read rx.ciphertextBuf = .ready (.ok (), read, c))
      (hread : T.readMessage s c (resize rx.plaintextBuf c.length) = (s', out, .ok n))
      (hslice : slice? out 0 n = some raw) (hr : rx.packetReader.read raw = (.ok header, r)) :
      Reads T rx s (.ok header) ⟨r, read, c, out, n⟩ s'

theorem readPacket_reads {rx rx' : PacketRx} {s s' : σ} {res : Res PacketHeader}
    (h : rx.readPacket T s = .ready (res, rx', s')) : Reads T rx s res rx' s' := by
  unfold readPacket at h
  split at h
  · cases h
  · rename_i hframe
    cases h
    exact .io hframe
  · rename_i read c hframe
    simp only [Poll.ready.injEq, openFrame] at h
    split at h
    · rename_i hread
      cases h
      exact .noise hframe hread
    · rename_i hread
      split at h
      · rename_i hslice
        cases h
        exact .bounds hframe hread hslice
      · rename_i raw hslice
        split at h
        · rename_i hr
          cases h
          exact .refused hframe hread hslice hr
        · rename_i hr
          cases h
          exact .packet hframe hread hslice hr

theorem readPacket_fetch {rx rx' : PacketRx} {s s' : σ} {res : Res PacketHeader}
    (h : rx.readPacket T s = .ready (res, rx', s')) :
    Fetch T rx s (rx.accepts T s) res rx' := by
  have hreads := readPacket_reads h
  unfold accepts
  rw [h]
  cases hreads with
  | io hframe => exact .error (by simp) rfl
  | noise hframe hread => exact .error (by simp) rfl
  | bounds hframe hread hslice => exact .error (by simp) rfl
  | refused hframe hread hslice hr => exact .error (by simp) (PacketReader.read_error hr)
  | @packet read c out raw s' n header r hframe hread hslice hr =>
    have hraw : rx.nextPlaintext T s = some raw := by
      simp only [nextPlaintext, hframe, hread, hslice]
    obtain ⟨hle, htake⟩ := slice?_zero hslice
    obtain ⟨hw, rfl, hs⟩ := PacketReader.read_ok hr
    simp only [htake]
    refine .ok hraw hw hs ?_
    rw [payload_eq _ hle, htake]

/-- A plaintext the reader has a transition for is accepted. -/
theorem readPacket_of_step {rx : PacketRx} {s : σ} {raw : Bytes} {r' : PacketReader}
    (hraw : rx.nextPlaintext T s = some raw) (hw : WellFormed raw)
    (hs : PacketReader.Step rx.packetReader (headerOf raw) r') :
    ∃ rx' s', rx.readPacket T s = .ready (.ok (headerOf raw), rx', s') := by
  unfold nextPlaintext at hraw
  split at hraw
  · rename_i read c hframe
    split at hraw
    · rename_i s1 out n hread
      have hr := PacketReader.read_of_step hw hs
      refine ⟨{ rx with packetReader := r', read, ciphertextBuf := c, plaintextBuf := out,
                        payloadEnd := n }, s1, ?_⟩
      simp only [readPacket, hframe, openFrame, hread, hraw, hr]
    · cases hraw
  · cases hraw

end PacketRx

/-! ## One turn of `read_bytes` -/

namespace MessageRx

/-- What a turn of `read_bytes` comes to, and the packets it accepted. -/
inductive Turn (rx : MessageRx) :
    List Packet → Option (Res Bytes) → MessageRx → Prop
  | error {f : Fault} {p : PacketRx} (hf : f ≠ .panic .unreachableKind)
      (hr : p.packetReader = rx.packets.packetReader) :
      Turn rx [] (some (.error f)) { rx with packets := p }
  | abort {t : UInt16} {b : Bytes} {p : PacketRx}
      (hs : PacketReader.Step rx.packets.packetReader ⟨.abort, t⟩ p.packetReader) :
      Turn rx [(⟨.abort, t⟩, b)] (some (.error (.error .messageAborted))) { rx with packets := p }
  | last {t : UInt16} {b : Bytes} {p : PacketRx}
      (hs : PacketReader.Step rx.packets.packetReader ⟨.last, t⟩ p.packetReader) :
      Turn rx [(⟨.last, t⟩, b)] (some (.ok (rx.readBuf ++ b))) ⟨p, rx.readBuf ++ b⟩
  | mid {t : UInt16} {b : Bytes} {p : PacketRx}
      (hs : PacketReader.Step rx.packets.packetReader ⟨.mid, t⟩ p.packetReader) :
      Turn rx [(⟨.mid, t⟩, b)] none ⟨p, rx.readBuf ++ b⟩
  | start {h : PacketHeader} {b : Bytes} {p : PacketRx} (hk : h.kind = .sole ∨ h.kind = .first)
      (hs : PacketReader.Step rx.packets.packetReader h p.packetReader) :
      Turn rx [(h, b)] (some (.error (.panic .unreachableKind))) { rx with packets := p }

theorem bodyTurn_turn {rx rx' : MessageRx} {s s' : σ} {res : Option (Res Bytes)}
    (h : rx.bodyTurn T s = .ready (res, rx', s')) :
    Turn rx (rx.packets.accepts T s) res rx' := by
  unfold bodyTurn at h
  split at h
  · cases h
  · rename_i f p s1 hread
    cases h
    have hf := PacketRx.readPacket_fetch hread
    generalize rx.packets.accepts T s = acc at hf ⊢
    cases hf with
    | error hf hr => exact .error hf hr
  · rename_i header p s1 hread
    have hf := PacketRx.readPacket_fetch hread
    generalize rx.packets.accepts T s = acc at hf ⊢
    cases hf with
    | @ok raw _ hraw hw hs hp =>
      generalize headerOf raw = header at h hs ⊢
      obtain ⟨k, t⟩ := header
      cases k with
      | sole => cases h; exact .start (.inl rfl) hs
      | first => cases h; exact .start (.inr rfl) hs
      | mid => simp only [extend, hp] at h; cases h; exact .mid hs
      | last => simp only [extend, hp] at h; cases h; exact .last hs
      | abort => cases h; exact .abort hs

/-- A turn waits only for its packet. -/
theorem bodyTurn_pending {rx : MessageRx} {s : σ} (h : rx.bodyTurn T s = .pending) :
    rx.packets.readPacket T s = .pending := by
  unfold bodyTurn at h
  split at h
  · assumption
  · cases h
  · simp only at h
    split at h <;> first | cases h | (split at h <;> cases h)

end MessageRx

/-! ## A `next` call past the buffered packet -/

namespace MessagePackets

/-- What a `next` call that reads from the stream comes to, and the packets it accepted. -/
inductive Next (mp : MessagePackets) (rx : MessageRx) :
    List Packet → Res (Option Bytes) → MessagePackets → MessageRx → Prop
  | error {f : Fault} {p : PacketRx} (hf : f ≠ .panic .unreachableKind)
      (hr : p.packetReader = rx.packets.packetReader) :
      Next mp rx [] (.error f) mp { rx with packets := p }
  | abort {t : UInt16} {b : Bytes} {p : PacketRx}
      (hs : PacketReader.Step rx.packets.packetReader ⟨.abort, t⟩ p.packetReader) :
      Next mp rx [(⟨.abort, t⟩, b)] (.error (.error .messageAborted)) ⟨true, none⟩
        { rx with packets := p }
  | last {t : UInt16} {b : Bytes} {p : PacketRx}
      (hs : PacketReader.Step rx.packets.packetReader ⟨.last, t⟩ p.packetReader) :
      Next mp rx [(⟨.last, t⟩, b)] (.ok (some b)) ⟨true, none⟩ { rx with packets := p }
  | mid {t : UInt16} {b : Bytes} {p : PacketRx}
      (hs : PacketReader.Step rx.packets.packetReader ⟨.mid, t⟩ p.packetReader) :
      Next mp rx [(⟨.mid, t⟩, b)] (.ok (some b)) mp { rx with packets := p }
  | start {h : PacketHeader} {b : Bytes} {p : PacketRx} (hk : h.kind = .sole ∨ h.kind = .first)
      (hs : PacketReader.Step rx.packets.packetReader h p.packetReader) :
      Next mp rx [(h, b)] (.error (.panic .unreachableKind)) mp { rx with packets := p }

theorem next_next {mp mp' : MessagePackets} {rx rx' : MessageRx} {s s' : σ}
    {res : Res (Option Bytes)} (hd : mp.done = false) (hk : mp.firstKind = none)
    (h : mp.next T rx s = .ready (res, mp', rx', s')) :
    Next mp rx (rx.packets.accepts T s) res mp' rx' := by
  simp only [next, hd, hk, Bool.false_eq_true, ↓reduceIte] at h
  split at h
  · cases h
  · rename_i f p s1 hread
    cases h
    have hf := PacketRx.readPacket_fetch hread
    generalize rx.packets.accepts T s = acc at hf ⊢
    cases hf with
    | error hf hr => exact .error hf hr
  · rename_i header p s1 hread
    have hf := PacketRx.readPacket_fetch hread
    generalize rx.packets.accepts T s = acc at hf ⊢
    cases hf with
    | @ok raw _ hraw hw hs hp =>
      generalize headerOf raw = header at h hs ⊢
      obtain ⟨k, t⟩ := header
      cases k with
      | sole => cases h; exact .start (.inl rfl) hs
      | first => cases h; exact .start (.inr rfl) hs
      | mid => simp only [MessageRx.yield, hp] at h; cases h; exact .mid hs
      | last => simp only [MessageRx.yield, hp] at h; cases h; exact .last hs
      | abort => cases h; exact .abort hs

/-- So does a `next` call, past the buffered packet. -/
theorem next_pending {mp : MessagePackets} {rx : MessageRx} {s : σ}
    (h : mp.next T rx s = .pending) :
    mp.done = false ∧ mp.firstKind = none ∧ rx.packets.readPacket T s = .pending := by
  unfold next at h
  split at h
  · cases h
  · rename_i hd
    split at h
    · cases h
    · rename_i hk
      refine ⟨by simpa using hd, hk, ?_⟩
      split at h
      · assumption
      · cases h
      · simp only at h
        split at h <;> cases h

end MessagePackets

end Snowpack
