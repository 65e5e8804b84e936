import Snowpack.Transport.Proof.Receive

/-!
# The encrypted link

What one side writes and the other reads. `writeFrame_ok`: a plaintext that fits is written as one
frame, its ciphertext at the send nonce behind its length, whatever the write buffer held before.
`readPacket_frame`: when such a frame is next on the stream, `read_packet` waits for the rest of it
or hands its plaintext to the packet reader; it does not look past the frame.
-/

namespace Snowpack

open Wire

/-- A packet before encryption. -/
def rawPacket (p : Packet) : Bytes :=
  PacketBuilder.header p.1.kind p.1.msgType ++ p.2

theorem length_rawPacket (p : Packet) : (rawPacket p).length = p.2.length + 2 := by
  simp only [rawPacket, PacketBuilder.header, List.length_append, length_toBe]
  omega

/-- A packet of a chunk that fits has a header and fits too. -/
theorem PacketBuilder.pack_cases (b : PacketBuilder) {c : Bytes} (hc : c.length ≤ maxPacketSize)
    (last : Bool) :
    b.pack c last = (.error .noMessageInProgress, b) ∨
      ∃ raw b', b.pack c last = (.ok raw, b') ∧ 2 ≤ raw.length ∧
        raw.length ≤ maxRawPacketSize := by
  unfold pack
  split
  · exact .inl rfl
  · have hlen : (header (nextKind b.isFirst last) b.msgType ++ c).length = c.length + 2 := by
      rw [header, List.length_append, length_toBe, Nat.add_comm]
    refine .inr ⟨_, _, rfl, ?_, ?_⟩
    · rw [hlen]
      exact Nat.le_add_left 2 _
    · rw [hlen]
      simp only [maxPacketSize, maxRawPacketSize, maxCiphertextSize, cipherOverheadSize] at hc ⊢
      omega

theorem PacketBuilder.abort_cases (b : PacketBuilder) :
    b.abort = (none, b) ∨
      ∃ raw b', b.abort = (some raw, b') ∧ 2 ≤ raw.length ∧ raw.length ≤ maxRawPacketSize := by
  unfold abort
  split
  · exact .inl rfl
  · refine .inr ⟨_, _, rfl, Nat.le_refl 2, ?_⟩
    show 2 ≤ maxRawPacketSize
    decide

variable {σ : Type} {T : TransportOps σ}

namespace TransportSpec

/-- The frames of `ps`, encrypted at the nonces from `n` on. -/
def frames (S : TransportSpec T) (key : S.Key) : Nat → List Packet → Bytes
  | _, [] => []
  | n, p :: ps => frame (S.encrypt key n (rawPacket p)) ++ frames S key (n + 1) ps

@[simp] theorem frames_nil (S : TransportSpec T) (key : S.Key) (n : Nat) :
    S.frames key n [] = [] := rfl

theorem frames_append (S : TransportSpec T) (key : S.Key) :
    ∀ (n : Nat) (ps qs : List Packet),
      S.frames key n (ps ++ qs) = S.frames key n ps ++ S.frames key (n + ps.length) qs
  | n, [], qs => by simp
  | n, p :: ps, qs => by
    have ih := frames_append S key (n + 1) ps qs
    simp only [List.cons_append, frames, ih, List.append_assoc, List.length_cons]
    rw [Nat.add_right_comm, Nat.add_assoc]

end TransportSpec

/-! ## Writing -/

namespace PacketTx

/-- The limit on a packet keeps its ciphertext within that of a Noise message. -/
theorem fits_noise {n : Nat} (h : n ≤ maxRawPacketSize) : n + noiseTag ≤ maxNoiseMessage := by
  simp only [maxRawPacketSize, maxCiphertextSize, cipherOverheadSize] at h
  simp only [noiseTag, maxNoiseMessage]
  omega

/-- Room for the frame, and the two bytes of the prefix in front of it. -/
theorem length_grown (buf : Bytes) (n : Nat) :
    n ≤ (if buf.length < n then resize buf n else buf).length := by
  split
  · exact Nat.le_of_eq (length_resize buf n).symm
  · omega

/-- The cipher is given room for the ciphertext; when it fills it, the frame is what is written,
unless the stream is broken. -/
theorem writeFrame_eq (tx : PacketTx) (s : σ) (plaintext : Bytes) :
    ∃ out, plaintext.length + noiseTag ≤ out.length ∧
      ∀ s' c, c.length = plaintext.length + noiseTag →
        T.writeMessage s plaintext out = (s', blit out 0 c, .ok c.length) →
        writeFrame T tx s plaintext =
          (if tx.write.broken then .error (.error (.io .brokenPipe)) else .ok (),
            { tx with
              write := (tx.write.writeAll (frame c)).2
              writeBuf := toBe (UInt16.ofNat c.length) ++ blit out 0 c }, s') := by
  let frameLen := frameHeaderSize + (plaintext.length + cipherOverheadSize)
  let buf := if tx.writeBuf.length < frameLen then resize tx.writeBuf frameLen else tx.writeBuf
  have hroom : frameLen ≤ buf.length := length_grown _ _
  have hout : plaintext.length + noiseTag ≤ (buf.drop frameHeaderSize).length := by
    rw [List.length_drop]
    simp only [frameLen, noiseTag, frameHeaderSize, cipherOverheadSize] at hroom ⊢
    omega
  refine ⟨buf.drop frameHeaderSize, hout, fun s' c hc hwrite => ?_⟩
  -- the frame is the front of the buffer, and the bytes behind it stay in the buffer
  have hslice : slice? (toBe (UInt16.ofNat c.length) ++ blit (buf.drop frameHeaderSize) 0 c) 0
      (frameHeaderSize + c.length) = some (frame c) := by
    have hfl : (frame c).length = frameHeaderSize + c.length := by
      rw [length_frame]
      simp only [frameHeaderSize]
      omega
    rw [blit_zero, ← List.append_assoc, ← frame, ← hfl, slice?_eq (Nat.zero_le _) (by simp)]
    simp
  have hbuf : (if tx.writeBuf.length <
        frameHeaderSize + (plaintext.length + cipherOverheadSize) then
      resize tx.writeBuf (frameHeaderSize + (plaintext.length + cipherOverheadSize))
    else tx.writeBuf) = buf := rfl
  simp only [writeFrame, hbuf, hwrite, hslice, WriteHalf.writeAll]
  cases tx.write.broken <;> rfl

/-- A plaintext that fits is encrypted at the send nonce; the frame is written, unless the stream is
broken. -/
theorem writeFrame_spec (S : TransportSpec T) (tx : PacketTx) (s : σ) {plaintext : Bytes}
    (hl : plaintext.length ≤ maxRawPacketSize) :
    ∃ s' buf, writeFrame T tx s plaintext =
        (if tx.write.broken then .error (.error (.io .brokenPipe)) else .ok (),
          { tx with
            write := (tx.write.writeAll
              (frame (S.encrypt (S.sendKey s) (S.sendNonce s) plaintext))).2
            writeBuf := buf }, s') ∧
      S.sendKey s' = S.sendKey s ∧ S.recvKey s' = S.recvKey s ∧
      S.sendNonce s' = S.sendNonce s + 1 ∧ S.recvNonce s' = S.recvNonce s := by
  obtain ⟨out, hout, heq⟩ := writeFrame_eq (T := T) tx s plaintext
  obtain ⟨s', hwrite, h1, h2, h3, h4⟩ := S.write_ok s plaintext out (fits_noise hl) hout
  have hc := S.length_encrypt (S.sendKey s) (S.sendNonce s) plaintext
  exact ⟨s', _, heq s' _ hc (by rw [hc]; exact hwrite), h1, h2, h3, h4⟩

theorem writeFrame_ok (S : TransportSpec T) {tx : PacketTx} {s : σ} {plaintext : Bytes}
    (hl : plaintext.length ≤ maxRawPacketSize) (hw : tx.write.broken = false) :
    ∃ s' buf, writeFrame T tx s plaintext =
        (.ok (), { tx with
          write.written := tx.write.written ++
            frame (S.encrypt (S.sendKey s) (S.sendNonce s) plaintext)
          writeBuf := buf }, s') ∧
      S.sendKey s' = S.sendKey s ∧ S.recvKey s' = S.recvKey s ∧
      S.sendNonce s' = S.sendNonce s + 1 ∧ S.recvNonce s' = S.recvNonce s := by
  obtain ⟨s', buf, hframe, hs⟩ := writeFrame_spec S tx s hl
  rw [WriteHalf.writeAll, if_neg (ne_true_of_eq_false hw),
    if_neg (ne_true_of_eq_false hw)] at hframe
  exact ⟨s', buf, hframe, hs⟩

end PacketTx

/-! ## Reading -/

/-- A frame that has not arrived in full keeps the reader waiting. -/
theorem readFrame_partial {buf fl c more dst : Bytes} (h : buf ++ fl = frame c ++ more)
    (hc : c.length ≤ maxCiphertextSize) (hlt : buf.length < (frame c).length) :
    readFrame ⟨buf, false⟩ dst = .pending := by
  have hbuf : buf = (frame c).take buf.length := by
    have := congrArg (List.take buf.length) h
    rwa [List.take_left, List.take_append_of_le_length (Nat.le_of_lt hlt)] at this
  unfold readFrame ReadHalf.readU16
  match buf, hbuf, hlt with
  | [], _, _ => rfl
  | [b0], _, _ => rfl
  | b0 :: b1 :: rest, hbuf, hlt =>
    have hcons : frame c = (UInt16.ofNat c.length >>> 8).toUInt8 ::
      (UInt16.ofNat c.length).toUInt8 :: c := rfl
    simp only [hcons, List.length_cons, List.take_succ_cons, List.cons.injEq] at hbuf
    obtain ⟨rfl, rfl, -⟩ := hbuf
    have hrest : rest.length < c.length := by
      rw [length_frame] at hlt
      simp only [List.length_cons] at hlt
      omega
    simp only [ofBe_toBe, toNat_ofNat_length hc, ReadHalf.readExact, length_resize,
      Nat.not_le.2 hrest, ↓reduceIte, Bool.false_eq_true]

theorem readFrame_whole {c more dst : Bytes} {eof : Bool} (hc : c.length ≤ maxCiphertextSize) :
    readFrame ⟨frame c ++ more, eof⟩ dst = .ready (.ok (), ⟨more, eof⟩, c) := by
  unfold readFrame
  rw [readU16_frame]
  simp only [toNat_ofNat_length hc]
  exact ReadHalf.readExact_append (length_resize dst c.length)

/-- What is read does not depend on the buffer it is read into. -/
theorem readFrame_dst (stream : ReadHalf) (dst dst' : Bytes) :
    (readFrame stream dst = .pending ∧ readFrame stream dst' = .pending) ∨
    (∃ e read b b', readFrame stream dst = .ready (.error e, read, b) ∧
      readFrame stream dst' = .ready (.error e, read, b')) ∨
    ∃ read c, readFrame stream dst = .ready (.ok (), read, c) ∧
      readFrame stream dst' = .ready (.ok (), read, c) := by
  unfold readFrame
  rcases stream.readU16 with _ | ⟨r, st⟩
  · exact .inl ⟨rfl, rfl⟩
  · cases r with
    | error e => exact .inr (.inl ⟨e, st, dst, dst', rfl, rfl⟩)
    | ok len =>
      simp only [ReadHalf.readExact, length_resize]
      by_cases hlen : len.toNat ≤ st.buf.length
      · have htake : (st.buf.take len.toNat).length = len.toNat := by
          rw [List.length_take]
          exact Nat.min_eq_left hlen
        simp only [hlen, ↓reduceIte]
        rw [blit_all (by rw [length_resize, htake]), blit_all (by rw [length_resize, htake])]
        exact .inr (.inr ⟨_, _, rfl, rfl⟩)
      · simp only [hlen, ↓reduceIte]
        cases st.eof with
        | true => exact .inr (.inl ⟨_, _, _, _, rfl, rfl⟩)
        | false => exact .inl ⟨rfl, rfl⟩

/-- A frame is no longer than its length prefix can say. -/
theorem readFrame_length {stream read : ReadHalf} {dst c : Bytes}
    (h : readFrame stream dst = .ready (.ok (), read, c)) : c.length ≤ maxCiphertextSize := by
  unfold readFrame at h
  split at h
  · cases h
  · cases h
  · rename_i len stream' hu
    have hlen := (ReadHalf.readExact_ok h).1
    rw [hlen, length_resize]
    have hlt : len.toNat < 65536 := len.toNat_lt
    simp only [maxCiphertextSize]
    omega

/-- A ciphertext that opens, read into a buffer of its own length: the plaintext is in front. -/
theorem TransportSpec.read_resized (S : TransportSpec T) (s : σ) {c raw : Bytes} (buf : Bytes)
    (hc : c.length ≤ maxCiphertextSize)
    (hdec : S.decrypt (S.recvKey s) (S.recvNonce s) c = some raw) :
    ∃ s' out, T.readMessage s c (resize buf c.length) = (s', out, .ok raw.length) ∧
      raw.length ≤ out.length ∧ out.take raw.length = raw ∧
      slice? out 0 raw.length = some raw ∧
      S.sendKey s' = S.sendKey s ∧ S.recvKey s' = S.recvKey s ∧
      S.sendNonce s' = S.sendNonce s ∧ S.recvNonce s' = S.recvNonce s + 1 := by
  have hroom : raw.length ≤ (resize buf c.length).length := by
    rw [length_resize, S.length_decrypt _ _ _ _ hdec]
    exact Nat.le_add_right _ _
  obtain ⟨s', hread, hstate⟩ := S.read_ok s c (resize buf c.length) raw hc hroom hdec
  have hle : raw.length ≤ (blit (resize buf c.length) 0 raw).length := by
    rw [blit_zero, List.length_append]
    exact Nat.le_add_right _ _
  have htake : (blit (resize buf c.length) 0 raw).take raw.length = raw := by
    rw [blit_zero, List.take_left]
  refine ⟨s', _, hread, hle, htake, ?_, hstate⟩
  rw [slice?_eq (Nat.zero_le _) hle, htake]
  rfl

/-- What a packet read finds on the stream. -/
inductive Found
  | io (e : IoError)
  | noise
  | refused (e : PacketReadError)
  | packet (raw : Bytes)

/-- The read seen without its buffers: from the receive direction of the cipher, the reader and the
stream. With what is found it gives the reader, the stream and the nonce behind it. -/
def TransportSpec.find (S : TransportSpec T) (key : S.Key) (nonce : Nat) (rd : PacketReader)
    (stream : ReadHalf) : Poll (Found × PacketReader × ReadHalf × Nat) :=
  match readFrame stream [] with
  | .pending => .pending
  | .ready (.error e, read, _) => .ready (.io e, rd, read, nonce)
  | .ready (.ok (), read, c) =>
    match S.decrypt key nonce c with
    | none => .ready (.noise, rd, read, nonce)
    | some raw =>
      match rd.read raw with
      | (.error e, rd) => .ready (.refused e, rd, read, nonce + 1)
      | (.ok _, rd) => .ready (.packet raw, rd, read, nonce + 1)

/-- A packet that is found is the plaintext of the next frame, and the reader accepts it. -/
theorem TransportSpec.find_packet {S : TransportSpec T} {key : S.Key} {nonce n : Nat}
    {rd rd' : PacketReader} {stream read : ReadHalf} {raw : Bytes}
    (h : S.find key nonce rd stream = .ready (.packet raw, rd', read, n)) :
    (∃ c, readFrame stream [] = .ready (.ok (), read, c) ∧ S.decrypt key nonce c = some raw) ∧
      rd.read raw = (.ok (headerOf raw), rd') ∧ n = nonce + 1 := by
  unfold find at h
  split at h
  · cases h
  · cases h
  · rename_i read' c hframe
    split at h
    · cases h
    · rename_i raw' hdec
      split at h
      · cases h
      · rename_i header rd₁ hrd
        cases h
        obtain ⟨-, rfl, -⟩ := PacketReader.read_ok hrd
        exact ⟨⟨c, hframe, hdec⟩, hrd, rfl⟩

/-- What `read_packet` returns of it. -/
inductive Found.Is : Found → Res PacketHeader → PacketRx → Prop
  | io (e : IoError) (rx : PacketRx) : Is (.io e) (.error (.error (.io e))) rx
  | noise (e : SnowError) (rx : PacketRx) : Is .noise (.error (.error (.noise e))) rx
  | refused (e : PacketReadError) (rx : PacketRx) :
      Is (.refused e) (.error (.error (.packet e))) rx
  | packet {raw : Bytes} {rx : PacketRx} (hle : rx.payloadEnd ≤ rx.plaintextBuf.length)
      (hraw : rx.plaintextBuf.take rx.payloadEnd = raw) :
      Is (.packet raw) (.ok (headerOf raw)) rx

namespace PacketRx

/-- A read, whatever the buffers hold before it. -/
inductive Finds (S : TransportSpec T) (s : σ) :
    Poll (Found × PacketReader × ReadHalf × Nat) → Poll (Res PacketHeader × PacketRx × σ) → Prop
  | pending : Finds S s .pending .pending
  | ready {found : Found} {rd : PacketReader} {stream : ReadHalf} {n : Nat}
      {res : Res PacketHeader} {rx : PacketRx} {s' : σ} (h : found.Is res rx)
      (hrd : rx.packetReader = rd) (hread : rx.read = stream)
      (hsend : S.sendKey s' = S.sendKey s ∧ S.sendNonce s' = S.sendNonce s)
      (hkey : S.recvKey s' = S.recvKey s) (hn : S.recvNonce s' = n) :
      Finds S s (.ready (found, rd, stream, n)) (.ready (res, rx, s'))

theorem readPacket_finds (S : TransportSpec T) (rx : PacketRx) (s : σ) :
    Finds S s (S.find (S.recvKey s) (S.recvNonce s) rx.packetReader rx.read)
      (rx.readPacket T s) := by
  unfold TransportSpec.find readPacket
  rcases readFrame_dst rx.read rx.ciphertextBuf [] with
    ⟨hb, he⟩ | ⟨e, read, b, b', hb, he⟩ | ⟨read, c, hb, he⟩
  · simp only [hb, he]
    exact .pending
  · simp only [hb, he]
    exact .ready (.io e _) rfl rfl ⟨rfl, rfl⟩ rfl rfl
  · simp only [hb, he, openFrame]
    cases hdec : S.decrypt (S.recvKey s) (S.recvNonce s) c with
    | none =>
      obtain ⟨s', out, e, hread, -, h1, h2, h3, h4⟩ :=
        S.read_fail s c (resize rx.plaintextBuf c.length) hdec
      simp only [hread]
      exact .ready (.noise e _) rfl rfl ⟨h1, h3⟩ h2 h4
    | some raw =>
      obtain ⟨s', out, hread, hle, htake, hslice, h1, h2, h3, h4⟩ :=
        S.read_resized s rx.plaintextBuf (readFrame_length hb) hdec
      simp only [hread, hslice]
      rcases hrd : rx.packetReader.read raw with ⟨r, rd⟩
      cases r with
      | error e => exact .ready (.refused e _) rfl rfl ⟨h1, h3⟩ h2 h4
      | ok header =>
        obtain ⟨-, rfl, -⟩ := PacketReader.read_ok hrd
        exact .ready (.packet hle htake) rfl rfl ⟨h1, h3⟩ h2 h4

theorem readPacket_empty {rx : PacketRx} {s : σ} (hb : rx.read.buf = [])
    (he : rx.read.eof = false) : rx.readPacket T s = .pending := by
  simp only [readPacket, readFrame, ReadHalf.readU16, hb, he, Bool.false_eq_true, ↓reduceIte]

theorem readPacket_end {rx : PacketRx} {s : σ} (h : rx.read = ⟨[], true⟩) :
    rx.readPacket T s = .ready (.error (.error (.io .unexpectedEof)), rx, s) := by
  obtain ⟨reader, read, cbuf, pbuf, payloadEnd⟩ := rx
  simp only at h
  subst h
  simp only [readPacket, readFrame, ReadHalf.readU16, ↓reduceIte]

/-- A frame of the peer is next on the stream: `read_packet` waits for the rest of it, or takes it
and gives its plaintext to the packet reader. -/
theorem readPacket_frame (S : TransportSpec T) {rx : PacketRx} {s : σ} {c raw fl more : Bytes}
    (heof : rx.read.eof = false) (hbuf : rx.read.buf ++ fl = frame c ++ more)
    (hc : c.length ≤ maxCiphertextSize)
    (hdec : S.decrypt (S.recvKey s) (S.recvNonce s) c = some raw) :
    (rx.read.buf.length < (frame c).length ∧ rx.readPacket T s = .pending) ∨
    ∃ rx' s', rx.readPacket T s =
        .ready (match (rx.packetReader.read raw).1 with
          | .error e => .error (.error (.packet e))
          | .ok h => .ok h, rx', s') ∧
      rx.nextPlaintext T s = some raw ∧
      rx'.packetReader = (rx.packetReader.read raw).2 ∧ rx'.payload = some (raw.drop 2) ∧
      rx'.read.eof = false ∧ rx'.read.buf ++ fl = more ∧
      S.sendKey s' = S.sendKey s ∧ S.recvKey s' = S.recvKey s ∧
      S.sendNonce s' = S.sendNonce s ∧ S.recvNonce s' = S.recvNonce s + 1 := by
  obtain ⟨rd, ⟨buf, eof⟩, cbuf, pbuf, pend⟩ := rx
  simp only at heof hbuf
  subst heof
  by_cases hlt : buf.length < (frame c).length
  · left
    refine ⟨hlt, ?_⟩
    simp only [readPacket, readFrame_partial hbuf hc hlt]
  · right
    -- the whole frame has arrived: the buffer is the frame and what follows it
    obtain ⟨more', rfl, hmore⟩ : ∃ more', buf = frame c ++ more' ∧ more' ++ fl = more := by
      rcases List.append_eq_append_iff.1 hbuf with ⟨a, ha, hb⟩ | ⟨a, ha, hb⟩
      · have hal : a = [] := by
          have := congrArg List.length ha
          rw [List.length_append] at this
          exact List.length_eq_zero_iff.1 (by omega)
        subst hal
        exact ⟨[], by simpa using ha.symm, by simpa using hb⟩
      · exact ⟨a, ha, hb.symm⟩
    obtain ⟨s', out, hread, hle, htake, hslice, h1, h2, h3, h4⟩ := S.read_resized s pbuf hc hdec
    have hnext :
        nextPlaintext T ⟨rd, ⟨frame c ++ more', false⟩, cbuf, pbuf, pend⟩ s = some raw := by
      simp only [nextPlaintext, readFrame_whole hc, hread, hslice]
    let rx' : PacketRx := ⟨(rd.read raw).2, ⟨more', false⟩, c, out, raw.length⟩
    have hpay : rx'.payload = some (raw.drop 2) := by
      rw [payload_eq rx' hle]
      simp only [rx', htake]
    refine ⟨rx', s', ?_, hnext, rfl, hpay, rfl, hmore, h1, h2, h3, h4⟩
    simp only [readPacket, readFrame_whole hc, openFrame, hread, hslice]
    rcases hrd : rd.read raw with ⟨res, rd'⟩
    cases res <;> simp only [rx', hrd]

end PacketRx

end Snowpack
