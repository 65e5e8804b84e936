import Mathlib.Data.List.Basic
import Mathlib.Tactic.Common

/-!
# Byte strings, 16-bit words and buffers

Byte strings are lists of `UInt8`. This file has what a length-prefixed binary protocol needs of
them: big-endian words (`toBe`, `ofBe`) and their two bit fields (`toNat_and_low12`,
`toNat_shiftRight_high4`), growable buffers that are written in place (`resize`, `blit`,
`slice?`) and the cutting of a list into chunks of a fixed size (`chunks`).
-/

namespace Wire

/-- A byte string. -/
abbrev Bytes := List UInt8

/-! ## 16-bit words -/

/-- The two bytes of a word, most significant first. -/
def toBe (h : UInt16) : Bytes := [(h >>> 8).toUInt8, h.toUInt8]

/-- The word of two bytes, most significant first. -/
def ofBe (a b : UInt8) : UInt16 := a.toUInt16 <<< 8 ||| b.toUInt16

@[simp] theorem length_toBe (h : UInt16) : (toBe h).length = 2 := rfl

theorem toNat_ofBe (a b : UInt8) : (ofBe a b).toNat = a.toNat * 256 + b.toNat := by
  have ha := a.toNat_lt
  have hb := b.toNat_lt
  have hs : a.toNat <<< 8 < 65536 := by rw [Nat.shiftLeft_eq]; omega
  unfold ofBe
  rw [UInt16.toNat_or, UInt16.toNat_shiftLeft]
  show (a.toNat <<< 8 % 2 ^ 16 ||| b.toNat) = _
  rw [Nat.mod_eq_of_lt hs, ← Nat.shiftLeft_add_eq_or_of_lt hb, Nat.shiftLeft_eq]

theorem ofBe_toBe (h : UInt16) : ofBe (h >>> 8).toUInt8 h.toUInt8 = h := by
  have hh := h.toNat_lt
  apply UInt16.toNat_inj.1
  rw [toNat_ofBe, UInt16.toNat_toUInt8, UInt16.toNat_toUInt8, UInt16.toNat_shiftRight]
  show h.toNat >>> 8 % 2 ^ 8 * 256 + h.toNat % 2 ^ 8 = _
  rw [Nat.shiftRight_eq_div_pow]
  omega

/-- The low twelve bits. -/
theorem toNat_and_low12 (h : UInt16) : (h &&& 0x0FFF).toNat = h.toNat % 4096 := by
  rw [UInt16.toNat_and]
  exact Nat.and_two_pow_sub_one_eq_mod h.toNat 12

/-- The high four bits, masked and shifted down. -/
theorem toNat_shiftRight_high4 (h : UInt16) :
    ((h &&& 0xF000) >>> 12).toUInt8.toNat = h.toNat / 4096 := by
  have hh := h.toNat_lt
  have hs : (h.toNat &&& 61440) >>> 12 = h.toNat / 4096 := by
    rw [Nat.shiftRight_and_distrib, show 61440 >>> 12 = 2 ^ 4 - 1 by decide,
      Nat.and_two_pow_sub_one_eq_mod, Nat.shiftRight_eq_div_pow]
    omega
  rw [UInt16.toNat_toUInt8, UInt16.toNat_shiftRight, UInt16.toNat_and]
  show (h.toNat &&& 61440) >>> 12 % 2 ^ 8 = _
  rw [hs]
  omega

theorem toBe_ofBe (a b : UInt8) : toBe (ofBe a b) = [a, b] := by
  have ha := a.toNat_lt
  have hb := b.toNat_lt
  have hn := toNat_ofBe a b
  have hhigh : (ofBe a b >>> 8).toUInt8 = a := by
    apply UInt8.toNat_inj.1
    rw [UInt16.toNat_toUInt8, UInt16.toNat_shiftRight, hn]
    show (a.toNat * 256 + b.toNat) >>> 8 % 2 ^ 8 = _
    rw [Nat.shiftRight_eq_div_pow]
    omega
  have hlow : (ofBe a b).toUInt8 = b := by
    apply UInt8.toNat_inj.1
    rw [UInt16.toNat_toUInt8, hn]
    omega
  rw [toBe, hhigh, hlow]

/-- A word packed from a nibble and twelve bits. -/
theorem toNat_pack12 {k t : UInt16} (hk : k.toNat < 16) (ht : t.toNat < 4096) :
    (k <<< 12 ||| t).toNat = k.toNat * 4096 + t.toNat := by
  have hs : k.toNat <<< 12 < 65536 := by rw [Nat.shiftLeft_eq]; omega
  rw [UInt16.toNat_or, UInt16.toNat_shiftLeft]
  show (k.toNat <<< 12 % 2 ^ 16 ||| t.toNat) = _
  rw [Nat.mod_eq_of_lt hs, ← Nat.shiftLeft_add_eq_or_of_lt ht, Nat.shiftLeft_eq]

/-- The `w` low bytes of a number, most significant first. -/
def beBytes : Nat → Nat → Bytes
  | 0, _ => []
  | w + 1, n => UInt8.ofNat (n >>> (8 * w)) :: beBytes w n

@[simp] theorem length_beBytes (w n : Nat) : (beBytes w n).length = w := by
  induction w with
  | zero => rfl
  | succ w ih => simp only [beBytes, List.length_cons, ih]

/-! ## Buffers -/

/-- The buffer cut or zero-filled to length `n`. -/
def resize (buf : Bytes) (n : Nat) : Bytes := buf.take n ++ List.replicate (n - buf.length) 0

@[simp] theorem length_resize (buf : Bytes) (n : Nat) : (resize buf n).length = n := by
  simp only [resize, List.length_append, List.length_take, List.length_replicate]
  omega

/-- `data` copied into the buffer at offset `off`, the rest of the buffer untouched. -/
def blit (buf : Bytes) (off : Nat) (data : Bytes) : Bytes :=
  buf.take off ++ data ++ buf.drop (off + data.length)

theorem length_blit {buf data : Bytes} {off : Nat} (h : off + data.length ≤ buf.length) :
    (blit buf off data).length = buf.length := by
  simp only [blit, List.length_append, List.length_take, List.length_drop]
  omega

/-- A buffer overwritten from end to end. -/
theorem blit_zero (buf data : Bytes) : blit buf 0 data = data ++ buf.drop data.length := by
  simp only [blit, List.take_zero, List.nil_append, Nat.zero_add]

theorem blit_all {buf data : Bytes} (h : buf.length = data.length) : blit buf 0 data = data := by
  simp [blit, ← h]

/-- Two copies, one behind the other. -/
theorem blit_append (buf a b : Bytes) : blit (blit buf 0 a) a.length b = blit buf 0 (a ++ b) := by
  rw [blit_zero buf a, blit_zero, blit, List.take_left, ← List.drop_drop, List.drop_left,
    List.drop_drop, List.length_append]

/-- The range `lo..hi` of a buffer, `none` when it is not in bounds. -/
def slice? (buf : Bytes) (lo hi : Nat) : Option Bytes :=
  if lo ≤ hi ∧ hi ≤ buf.length then some ((buf.take hi).drop lo) else none

theorem slice?_eq {buf : Bytes} {lo hi : Nat} (h1 : lo ≤ hi) (h2 : hi ≤ buf.length) :
    slice? buf lo hi = some ((buf.take hi).drop lo) := if_pos ⟨h1, h2⟩

/-! ## Chunks -/

section
variable {α : Type}

/-- `chunks` with the number of chunks bounded by `fuel`. -/
def chunksFuel (n : Nat) : Nat → List α → List (List α)
  | 0, _ => []
  | _ + 1, [] => []
  | fuel + 1, l@(_ :: _) => l.take n :: chunksFuel n fuel (l.drop n)

/-- The list cut into pieces of `n` elements, the last one with what remains. -/
def chunks (n : Nat) (l : List α) : List (List α) := chunksFuel n l.length l

/-- Fuel beyond the length of the list changes nothing. -/
theorem chunksFuel_eq {n : Nat} (hn : 0 < n) :
    ∀ (f1 f2 : Nat) (l : List α), l.length ≤ f1 → l.length ≤ f2 →
      chunksFuel n f1 l = chunksFuel n f2 l
  | 0, 0, _, _, _ => rfl
  | 0, _ + 1, [], _, _ => rfl
  | _ + 1, 0, [], _, _ => rfl
  | _ + 1, _ + 1, [], _, _ => rfl
  | f1 + 1, f2 + 1, a :: l, h1, h2 => by
    have hl : ((a :: l).drop n).length ≤ l.length := by
      rw [List.length_drop, List.length_cons]; omega
    rw [List.length_cons] at h1 h2
    simp only [chunksFuel]
    rw [chunksFuel_eq hn f1 f2 _ (by omega) (by omega)]
  | 0, _, _ :: _, h1, _ => by simp at h1
  | _ + 1, 0, _ :: _, _, h2 => by simp at h2

@[simp] theorem chunks_nil (n : Nat) : chunks n ([] : List α) = [] := rfl

theorem chunks_cons {n : Nat} (hn : 0 < n) {l : List α} (hl : l ≠ []) :
    chunks n l = l.take n :: chunks n (l.drop n) := by
  cases l with
  | nil => exact absurd rfl hl
  | cons a l =>
    have hd : ((a :: l).drop n).length ≤ l.length := by
      rw [List.length_drop, List.length_cons]; omega
    simp only [chunks, List.length_cons, chunksFuel]
    rw [chunksFuel_eq hn _ _ _ hd (Nat.le_refl _)]

/-- A first piece of full length. -/
theorem chunks_append {n : Nat} (hn : 0 < n) {w : List α} (hw : w.length = n) (l : List α) :
    chunks n (w ++ l) = w :: chunks n l := by
  have hne : w ++ l ≠ [] := by
    intro h
    have := congrArg List.length (List.append_eq_nil_iff.1 h).1
    rw [List.length_nil] at this
    omega
  rw [chunks_cons hn hne, List.take_left' hw, List.drop_left' hw]

/-- A list that is not longer than a piece. -/
theorem chunks_short {n : Nat} {l : List α} (hl : l ≠ []) (hle : l.length ≤ n) :
    chunks n l = [l] := by
  have hn : 0 < n := Nat.lt_of_lt_of_le (List.length_pos_iff.2 hl) hle
  rw [chunks_cons hn hl, List.take_of_length_le hle, List.drop_of_length_le hle, chunks_nil]

/-- The pieces put together are the list. -/
theorem flatten_chunks {n : Nat} (hn : 0 < n) : ∀ l : List α, (chunks n l).flatten = l
  | [] => rfl
  | a :: l => by
    rw [chunks_cons hn (List.cons_ne_nil a l), List.flatten_cons, flatten_chunks hn,
      List.take_append_drop]
termination_by l => l.length
decreasing_by rw [List.length_drop, List.length_cons]; omega

/-- No piece is longer than `n`. -/
theorem length_le_of_mem_chunks {n : Nat} (hn : 0 < n) {c : List α} :
    ∀ l : List α, c ∈ chunks n l → c.length ≤ n
  | [], hc => by simp at hc
  | a :: l, hc => by
    rw [chunks_cons hn (List.cons_ne_nil a l)] at hc
    rcases List.mem_cons.1 hc with rfl | hc
    · rw [List.length_take]; omega
    · exact length_le_of_mem_chunks hn _ hc
termination_by l => l.length
decreasing_by rw [List.length_drop, List.length_cons]; omega

/-- A list of a whole number of pieces. -/
theorem chunks_mul {n : Nat} (hn : 0 < n) : ∀ (k : Nat) (l : List α), l.length = k * n →
    (chunks n l).length = k ∧ ∀ c ∈ chunks n l, c.length = n
  | 0, l, h => by
    rw [Nat.zero_mul] at h
    rw [List.length_eq_zero_iff.1 h]
    simp
  | k + 1, l, h => by
    rw [Nat.succ_mul] at h
    have ht : (l.take n).length = n := by rw [List.length_take]; omega
    have hd : (l.drop n).length = k * n := by rw [List.length_drop]; omega
    obtain ⟨hlen, hall⟩ := chunks_mul hn k (l.drop n) hd
    rw [← List.take_append_drop n l, chunks_append hn ht]
    refine ⟨by rw [List.length_cons, hlen], fun c hc => ?_⟩
    rcases List.mem_cons.1 hc with rfl | hc
    · exact ht
    · exact hall c hc

/-- A list behind a whole number of pieces. -/
theorem chunks_append_of_dvd {n : Nat} (hn : 0 < n) (v : List α) : ∀ (k : Nat) (u : List α),
    u.length = k * n → chunks n (u ++ v) = chunks n u ++ chunks n v
  | 0, u, h => by
    rw [Nat.zero_mul] at h
    rw [List.length_eq_zero_iff.1 h]
    rfl
  | k + 1, u, h => by
    rw [Nat.succ_mul] at h
    have ht : (u.take n).length = n := by rw [List.length_take]; omega
    have hd : (u.drop n).length = k * n := by rw [List.length_drop]; omega
    rw [← List.take_append_drop n u, List.append_assoc, chunks_append hn ht, chunks_append hn ht,
      chunks_append_of_dvd hn v k _ hd, List.cons_append]

/-- The first pieces of a list that has more are the pieces of its beginning. -/
theorem take_chunks {n : Nat} (hn : 0 < n) (k : Nat) : ∀ l : List α, k < (chunks n l).length →
    ∃ u v, u ++ v = l ∧ u.length = k * n ∧ (chunks n l).take k = chunks n u := by
  induction k with
  | zero => exact fun l _ => ⟨[], l, rfl, (Nat.zero_mul n).symm, rfl⟩
  | succ k ih =>
    intro l hk
    have hl : l ≠ [] := by
      rintro rfl
      simp at hk
    rw [chunks_cons hn hl, List.length_cons] at hk
    have hrest : l.drop n ≠ [] := by
      intro he
      rw [he, chunks_nil, List.length_nil] at hk
      omega
    have hlong : n < l.length := by
      have := List.length_pos_iff.2 hrest
      rw [List.length_drop] at this
      omega
    have htake : (l.take n).length = n := by
      rw [List.length_take]
      omega
    obtain ⟨u, v, huv, hlen, hchunks⟩ := ih (l.drop n) (by omega)
    refine ⟨l.take n ++ u, v, ?_, ?_, ?_⟩
    · rw [List.append_assoc, huv, List.take_append_drop]
    · rw [List.length_append, htake, hlen, Nat.succ_mul, Nat.add_comm]
    · rw [chunks_cons hn hl, List.take_succ_cons, hchunks, chunks_append hn htake]

end

end Wire
