import Snowpack.Packet.State

/-!
# What a raw packet says

`headerOf` is the meaning of the two header bytes in plain arithmetic: the big-endian word's top
nibble is the kind, its remainder modulo 4096 the message type. `read_wellFormed` and
`read_malformed` reduce `PacketReader.read` (masks and shifts on a `u16`) to it, and
`read_header_append` is the round trip with the builder's `header`.
-/

namespace Snowpack

open Wire

/-! ## Kinds -/

/-- The kind of a nibble value. -/
def PacketKind.ofNibble : Nat → Option PacketKind
  | 0 => some .sole
  | 1 => some .first
  | 2 => some .mid
  | 3 => some .last
  | 4 => some .abort
  | _ => none

theorem PacketKind.ofNibble_toU16 (k : PacketKind) : ofNibble k.toU16.toNat = some k := by
  cases k <;> rfl

theorem PacketKind.toU16_lt (k : PacketKind) : k.toU16.toNat < 5 := by
  cases k <;> decide

theorem PacketKind.ofNibble_some {n : Nat} (h : n ≤ 4) : ∃ k, ofNibble n = some k := by
  match n, h with
  | 0, _ | 1, _ | 2, _ | 3, _ | 4, _ => exact ⟨_, rfl⟩

theorem PacketKind.ofNibble_none {n : Nat} (h : 4 < n) : ofNibble n = none := by
  match n, h with
  | n + 5, _ => rfl

/-- `fromU8` in terms of the nibble's value. -/
theorem PacketKind.fromU8_eq (v : UInt8) :
    fromU8 v = match ofNibble v.toNat with
      | some k => .ok k
      | none => .error (.unknownKind v) := by
  unfold fromU8
  split
  iterate 5 rfl
  next h0 h1 h2 h3 h4 =>
    have ne : ∀ n : UInt8, (v = n → False) → v.toNat ≠ n.toNat :=
      fun n h he => h (UInt8.toNat_inj.1 he)
    have hv : 4 < v.toNat := by
      have := ne 0 h0; have := ne 1 h1; have := ne 2 h2; have := ne 3 h3; have := ne 4 h4
      simp only [UInt8.reduceToNat] at *
      omega
    rw [ofNibble_none hv]

/-! ## The header of a raw packet -/

/-- The big-endian word at the front of a packet. -/
def beWord (raw : Bytes) : Nat := (raw.getD 0 0).toNat * 256 + (raw.getD 1 0).toNat

/-- A packet with a header of a defined kind. -/
def WellFormed (raw : Bytes) : Prop := 2 ≤ raw.length ∧ beWord raw / 4096 ≤ 4

instance (raw : Bytes) : Decidable (WellFormed raw) := inferInstanceAs (Decidable (_ ∧ _))

/-- The header a well-formed packet carries. -/
def headerOf (raw : Bytes) : PacketHeader where
  kind := (PacketKind.ofNibble (beWord raw / 4096)).getD .sole
  msgType := UInt16.ofNat (beWord raw % 4096)

theorem headerOf_msgType_le (raw : Bytes) : (headerOf raw).msgType ≤ typeMask := by
  rw [UInt16.le_iff_toNat_le]
  show (UInt16.ofNat (beWord raw % 4096)).toNat ≤ 4095
  rw [UInt16.toNat_ofNat_of_lt' (by show _ < 65536; omega)]
  omega

theorem beWord_lt (raw : Bytes) : beWord raw < 65536 := by
  have h0 := (raw.getD 0 0).toNat_lt
  have h1 := (raw.getD 1 0).toNat_lt
  unfold beWord
  omega

/-- The word the reader decodes. -/
theorem toNat_ofBe_eq (b0 b1 : UInt8) (rest : Bytes) :
    (ofBe b0 b1).toNat = beWord (b0 :: b1 :: rest) := toNat_ofBe b0 b1

theorem read_wellFormed {raw : Bytes} (h : WellFormed raw) (r : PacketReader) :
    r.read raw = r.accept (headerOf raw).kind (headerOf raw).msgType := by
  match raw, h with
  | [], h => exact absurd h.1 (by simp)
  | [_], h => exact absurd h.1 (by simp)
  | b0 :: b1 :: rest, h =>
    have hw := toNat_ofBe_eq b0 b1 rest
    obtain ⟨k, hk⟩ := PacketKind.ofNibble_some h.2
    have ht : ofBe b0 b1 &&& typeMask = (headerOf (b0 :: b1 :: rest)).msgType := by
      apply UInt16.toNat_inj.1
      have hlt := beWord_lt (b0 :: b1 :: rest)
      show (ofBe b0 b1 &&& 0x0FFF).toNat = (UInt16.ofNat (beWord (b0 :: b1 :: rest) % 4096)).toNat
      rw [toNat_and_low12, hw, UInt16.toNat_ofNat_of_lt' (by show _ < 65536; omega)]
    have hf : PacketKind.fromU8 ((ofBe b0 b1 &&& kindMask) >>> kindShift).toUInt8 = .ok k := by
      show PacketKind.fromU8 ((ofBe b0 b1 &&& 0xF000) >>> 12).toUInt8 = .ok k
      rw [PacketKind.fromU8_eq, toNat_shiftRight_high4, hw, hk]
    simp only [PacketReader.read, hf, ht]
    rw [show (headerOf (b0 :: b1 :: rest)).kind = k by simp [headerOf, hk]]

/-- A packet without a header of a defined kind is rejected in every state, and leaves it. -/
theorem read_malformed {raw : Bytes} (h : ¬ WellFormed raw) (r : PacketReader) :
    ∃ e, r.read raw = (.error e, r) := by
  match raw with
  | [] => exact ⟨_, rfl⟩
  | [_] => exact ⟨_, rfl⟩
  | b0 :: b1 :: rest =>
    have hw := toNat_ofBe_eq b0 b1 rest
    have hk : 4 < beWord (b0 :: b1 :: rest) / 4096 := by
      have : ¬ (2 ≤ (b0 :: b1 :: rest).length ∧ beWord (b0 :: b1 :: rest) / 4096 ≤ 4) := h
      simp only [List.length_cons] at this
      omega
    have hf : PacketKind.fromU8 ((ofBe b0 b1 &&& kindMask) >>> kindShift).toUInt8 =
        .error (.unknownKind ((ofBe b0 b1 &&& kindMask) >>> kindShift).toUInt8) := by
      rw [PacketKind.fromU8_eq]
      have : ((ofBe b0 b1 &&& kindMask) >>> kindShift).toUInt8.toNat =
          beWord (b0 :: b1 :: rest) / 4096 := by
        rw [← hw]; exact toNat_shiftRight_high4 _
      rw [this, PacketKind.ofNibble_none hk]
    simp only [PacketReader.read, hf]
    exact ⟨_, rfl⟩

/-! ## Packets the builder makes -/

theorem beWord_header {k : PacketKind} {t : UInt16} (ht : t ≤ typeMask) (payload : Bytes) :
    beWord (PacketBuilder.header k t ++ payload) = k.toU16.toNat * 4096 + t.toNat := by
  have hk := k.toU16_lt
  have ht' : t.toNat < 4096 := by
    have := UInt16.le_iff_toNat_le.1 ht
    have h : typeMask.toNat = 4095 := rfl
    omega
  show beWord (((k.toU16 <<< 12 ||| t) >>> 8).toUInt8 ::
    (k.toU16 <<< 12 ||| t).toUInt8 :: payload) = _
  rw [← toNat_ofBe_eq, ofBe_toBe, toNat_pack12 (by omega) ht']

theorem wellFormed_header {k : PacketKind} {t : UInt16} (ht : t ≤ typeMask) (payload : Bytes) :
    WellFormed (PacketBuilder.header k t ++ payload) := by
  have hk := k.toU16_lt
  have hb := UInt16.le_iff_toNat_le.1 ht
  have h : typeMask.toNat = 4095 := rfl
  refine ⟨by simp [PacketBuilder.header], ?_⟩
  rw [beWord_header ht]
  omega

theorem headerOf_header {k : PacketKind} {t : UInt16} (ht : t ≤ typeMask) (payload : Bytes) :
    headerOf (PacketBuilder.header k t ++ payload) = ⟨k, t⟩ := by
  have hb := UInt16.le_iff_toNat_le.1 ht
  have h : typeMask.toNat = 4095 := rfl
  unfold headerOf
  rw [beWord_header ht, show (k.toU16.toNat * 4096 + t.toNat) / 4096 = k.toU16.toNat by omega,
    show (k.toU16.toNat * 4096 + t.toNat) % 4096 = t.toNat by omega, PacketKind.ofNibble_toU16,
    UInt16.ofNat_toNat]
  rfl

/-- The reader sees the kind and type the builder wrote. -/
theorem read_header_append {k : PacketKind} {t : UInt16} (ht : t ≤ typeMask) (payload : Bytes)
    (r : PacketReader) : r.read (PacketBuilder.header k t ++ payload) = r.accept k t := by
  rw [read_wellFormed (wellFormed_header ht payload), headerOf_header ht]

end Snowpack
