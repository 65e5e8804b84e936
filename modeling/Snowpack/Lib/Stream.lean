import Snowpack.Lib.Bytes

/-!
# Byte streams read and written without blocking

The halves of a connected byte stream, as an asynchronous program sees them. A `ReadHalf` holds the
bytes that have arrived and not been read, and whether the peer has closed; a read that needs more
bytes than have arrived is `pending` (or fails, at the end of the stream). A pending read leaves
the half as it was: the bytes its future already holds are still the next ones of the stream.
A `WriteHalf` holds what has been written.

`frame c` is `c` behind a 16-bit length prefix; `readU16_frame` and `readExact_append` read it
back.
-/

namespace Wire

/-- The outcome of polling a future. -/
inductive Poll (α : Type) where
  | pending
  | ready (a : α)
  deriving DecidableEq, Repr

/-- An error of the stream. -/
inductive IoError
  | unexpectedEof
  | brokenPipe
  | other (code : Nat)
  deriving DecidableEq, Repr

/-- What can be read: the bytes that have arrived, and whether more can come. -/
structure ReadHalf where
  buf : Bytes
  eof : Bool
  deriving DecidableEq, Repr

namespace ReadHalf

/-- A 16-bit big-endian word. -/
def readU16 (s : ReadHalf) : Poll (Except IoError UInt16 × ReadHalf) :=
  match s.buf with
  | b0 :: b1 :: rest => .ready (.ok (ofBe b0 b1), { s with buf := rest })
  | _ => if s.eof then .ready (.error .unexpectedEof, { s with buf := [] }) else .pending

/-- The whole of `dst` filled from the stream; at the end of the stream what there is is copied
and the read fails. -/
def readExact (s : ReadHalf) (dst : Bytes) : Poll (Except IoError Unit × ReadHalf × Bytes) :=
  if dst.length ≤ s.buf.length then
    .ready (.ok (), { s with buf := s.buf.drop dst.length }, blit dst 0 (s.buf.take dst.length))
  else if s.eof then .ready (.error .unexpectedEof, { s with buf := [] }, blit dst 0 s.buf)
  else .pending

theorem readExact_append {dst c rest : Bytes} {eof : Bool} (h : dst.length = c.length) :
    readExact ⟨c ++ rest, eof⟩ dst = .ready (.ok (), ⟨rest, eof⟩, c) := by
  have hl : dst.length ≤ (c ++ rest).length := by rw [List.length_append]; omega
  simp only [readExact, hl, ↓reduceIte]
  rw [h, List.drop_left, List.take_left, blit_all h]

theorem readExact_ok {s s' : ReadHalf} {dst dst' : Bytes}
    (h : s.readExact dst = .ready (.ok (), s', dst')) :
    dst'.length = dst.length ∧ s.buf = dst' ++ s'.buf ∧ s'.eof = s.eof := by
  unfold readExact at h
  split at h
  · rename_i hl
    have ht : (s.buf.take dst.length).length = dst.length := by rw [List.length_take]; omega
    simp only [Poll.ready.injEq, Prod.mk.injEq, true_and] at h
    obtain ⟨rfl, rfl⟩ := h
    rw [blit_all ht.symm]
    exact ⟨ht, (List.take_append_drop _ _).symm, rfl⟩
  · split at h
    · simp at h
    · cases h

end ReadHalf

/-- `c` behind its length. -/
def frame (c : Bytes) : Bytes := toBe (UInt16.ofNat c.length) ++ c

theorem length_frame (c : Bytes) : (frame c).length = c.length + 2 := by
  simp [frame]; omega

theorem toNat_ofNat_length {c : Bytes} (h : c.length ≤ 0xFFFF) :
    (UInt16.ofNat c.length).toNat = c.length :=
  UInt16.toNat_ofNat_of_lt' (by show _ < 65536; omega)

theorem readU16_toBe (len : UInt16) (rest : Bytes) (eof : Bool) :
    ReadHalf.readU16 ⟨toBe len ++ rest, eof⟩ = .ready (.ok len, ⟨rest, eof⟩) := by
  show Poll.ready (Except.ok (ofBe (len >>> 8).toUInt8 len.toUInt8), (⟨rest, eof⟩ : ReadHalf)) = _
  rw [ofBe_toBe]

theorem readU16_frame (c rest : Bytes) (eof : Bool) :
    ReadHalf.readU16 ⟨frame c ++ rest, eof⟩ =
      .ready (.ok (UInt16.ofNat c.length), ⟨c ++ rest, eof⟩) := by
  show Poll.ready (Except.ok (ofBe (UInt16.ofNat c.length >>> 8).toUInt8
    (UInt16.ofNat c.length).toUInt8), (⟨c ++ rest, eof⟩ : ReadHalf)) = _
  rw [ofBe_toBe]

/-- What was written, and whether writes still succeed. -/
structure WriteHalf where
  written : Bytes
  broken : Bool
  deriving DecidableEq, Repr

/-- All of `data`, or nothing and an error on a broken stream. -/
def WriteHalf.writeAll (w : WriteHalf) (data : Bytes) : Except IoError Unit × WriteHalf :=
  if w.broken then (.error .brokenPipe, w) else (.ok (), { w with written := w.written ++ data })

end Wire
