import Snowpack.Lib.Run
import Snowpack.Transport.Proof.Sending
import Snowpack.Transport.SendReader
import Snowpack.Transport.Tagged

/-!
# What `send_reader` sends

`streamed` is what the loop of `send_reader` comes to when `data` is what it holds and what the
source has still to deliver: the chunks of `data`, of which the last one ends the message unless it
is a full packet. `returns_streamed` is the loop against it, by induction on how the source
delivers.

From it: `send_reader` does what `send_message` does with the same bytes, except when these are a
whole number of packets and not empty (`sendReader_agrees_iff`); then the message is left open. A
source that fails leaves the full packets it delivered on the wire and the message open
(`failing_source`).
-/

namespace Snowpack

open Wire

variable {σ ρ : Type} {T : TransportOps σ}

theorem maxPacketSize_pos : 0 < maxPacketSize := by decide

/-! ## The packets of chunks -/

/-- The packets of chunks that are sent one after the other; `last` is whether they end the
message. -/
def segment (t : UInt16) (last : Bool) : Bool → List Bytes → List Packet
  | _, [] => []
  | f, c :: cs =>
    (⟨PacketBuilder.nextKind f (cs.isEmpty && last), t⟩, c) :: segment t last false cs

/-- The open message behind the chunks. -/
def openBehind (t : UInt16) (last f : Bool) : List Bytes → OpenMessage
  | [] => some (t, f)
  | _ :: _ => if last then none else some (t, false)

theorem segment_true (t : UInt16) : ∀ (f : Bool) (cs : List Bytes), segment t true f cs = cut t f cs
  | _, [] => rfl
  | f, c :: cs => by
    rw [segment, cut, segment_true t false cs, Bool.and_true]

theorem map_snd_segment (t : UInt16) (last : Bool) : ∀ (f : Bool) (cs : List Bytes),
    (segment t last f cs).map Prod.snd = cs
  | _, [] => rfl
  | f, c :: cs => by
    rw [segment, List.map_cons, map_snd_segment t last false cs]

/-- Chunks that do not end the message. -/
theorem getElem?_segment {t : UInt16} {q : Packet} : ∀ {cs : List Bytes} {f : Bool} {i : Nat},
    (segment t false f cs)[i]? = some q →
      q.1 = ⟨if f = true ∧ i = 0 then .first else .mid, t⟩
  | [], _, _, h => by simp [segment] at h
  | c :: cs, f, 0, h => by
    simp only [segment, Bool.and_false, List.getElem?_cons_zero, Option.some.injEq] at h
    subst h
    cases f <;> rfl
  | c :: cs, f, i + 1, h => by
    rw [segment, List.getElem?_cons_succ] at h
    rw [getElem?_segment h]
    simp

theorem Emits.sendChunks (S : TransportSpec T) {t : UInt16} (last : Bool) :
    ∀ (cs : List Bytes) {f : Bool} {tx : PacketTx} (s : σ), tx.write.broken = false →
      BuilderIs (some (t, f)) tx.packetBuilder → (∀ c ∈ cs, c.length ≤ maxPacketSize) →
      ∃ tx' s', tx.sendChunks T s last cs = (.ok (), tx', s') ∧
        BuilderIs (openBehind t last f cs) tx'.packetBuilder ∧
        Emits S tx s tx' s' (segment t last f cs)
  | [], _, tx, s, hw, hb, _ => ⟨tx, s, rfl, hb, .nil hw rfl⟩
  | c :: cs, f, tx, s, hw, hb, hlen => by
    obtain ⟨tx₁, s₁, hsend, hb₁, hE₁⟩ :=
      Emits.sendPacket S s hw hb (hlen c List.mem_cons_self) (cs.isEmpty && last)
    simp only [PacketTx.sendChunks, hsend]
    cases cs with
    | nil => exact ⟨tx₁, s₁, rfl, hb₁, hE₁⟩
    | cons c' cs =>
      obtain ⟨tx₂, s₂, hrest, hb₂, hE₂⟩ := Emits.sendChunks S last (c' :: cs) s₁ hE₁.intact hb₁
        fun x hx => hlen x (List.mem_cons_of_mem _ hx)
      exact ⟨tx₂, s₂, hrest, hb₂, hE₁.append hE₂⟩

/-! ## What the loop comes to -/

/-- The part of `data` that fills whole packets. -/
def wholePackets (data : Bytes) : Bytes :=
  data.take (data.length / maxPacketSize * maxPacketSize)

theorem wholePackets_append {w : Bytes} (hw : w.length = maxPacketSize) (d : Bytes) :
    wholePackets (w ++ d) = w ++ wholePackets d := by
  have hdiv : (w ++ d).length / maxPacketSize * maxPacketSize =
      w.length + d.length / maxPacketSize * maxPacketSize := by
    rw [List.length_append, hw, Nat.add_div_left _ maxPacketSize_pos, Nat.succ_mul, Nat.add_comm]
  rw [wholePackets, wholePackets, hdiv, List.take_length_add_append]

theorem wholePackets_short {w : Bytes} (hw : w.length < maxPacketSize) : wholePackets w = [] := by
  rw [wholePackets, Nat.div_eq_of_lt hw, Nat.zero_mul, List.take_zero]

theorem length_wholePackets (d : Bytes) :
    (wholePackets d).length = d.length / maxPacketSize * maxPacketSize := by
  rw [wholePackets, List.length_take]
  exact Nat.min_eq_left (Nat.div_mul_le_self _ _)

/-- A send followed by the error of the source. -/
def andFail (e : IoError) : Res Unit × PacketTx × σ → Res Unit × PacketTx × σ
  | (.error f, tx, s) => (.error f, tx, s)
  | (.ok (), tx, s) => (.error (.error (.io e)), tx, s)

variable (T) in
/-- What `send_reader` does with `data` when its source then ends as `fin` says. -/
def PacketTx.streamed (tx : PacketTx) (s : σ) (sentAny : Bool) (data : Bytes) :
    Option IoError → Res Unit × PacketTx × σ
  | none =>
    if data = [] then
      if sentAny then (.ok (), tx, s) else tx.sendPacket T s [] true
    else tx.sendChunks T s (¬ maxPacketSize ∣ data.length) (chunks maxPacketSize data)
  | some e => andFail e (tx.sendChunks T s false (chunks maxPacketSize (wholePackets data)))

theorem PacketTx.streamed_sentAny (tx : PacketTx) (s : σ) {data : Bytes} (h : data ≠ [])
    (b b' : Bool) (fin : Option IoError) :
    tx.streamed T s b data fin = tx.streamed T s b' data fin := by
  cases fin with
  | none => simp only [streamed, h, ↓reduceIte]
  | some e => rfl

/-- A full buffer is sent, and does not end the message. -/
theorem PacketTx.streamed_full (tx : PacketTx) (s : σ) (b : Bool) {w : Bytes}
    (hw : w.length = maxPacketSize) (d : Bytes) (fin : Option IoError) :
    tx.streamed T s b (w ++ d) fin =
      match tx.sendPacket T s w false with
      | (.error f, tx, s) => (.error f, tx, s)
      | (.ok (), tx, s) => tx.streamed T s true d fin := by
  have hne : w ++ d ≠ [] := by
    intro h
    rw [(List.append_eq_nil_iff.1 h).1, List.length_nil] at hw
    exact absurd hw.symm (Nat.ne_of_gt maxPacketSize_pos)
  have hdvd : maxPacketSize ∣ (w ++ d).length ↔ maxPacketSize ∣ d.length := by
    rw [List.length_append, hw, Nat.dvd_add_right (Nat.dvd_refl _)]
  rcases hsend : tx.sendPacket T s w false with ⟨r, tx', s'⟩
  cases fin with
  | none =>
    simp only [streamed, hne, ↓reduceIte, hdvd, chunks_append maxPacketSize_pos hw, sendChunks]
    by_cases hd : d = []
    · subst hd
      cases r <;> simp only [chunks_nil, List.isEmpty_nil, List.length_nil, Nat.dvd_zero,
        not_true_eq_false, decide_false, Bool.and_false, ↓reduceIte, sendChunks, hsend]
    · have hcs : (chunks maxPacketSize d).isEmpty = false := by
        rw [chunks_cons maxPacketSize_pos hd]
        rfl
      cases r <;> simp only [hcs, Bool.false_and, hd, ↓reduceIte, hsend]
  | some e =>
    simp only [streamed, wholePackets_append hw, chunks_append maxPacketSize_pos hw, sendChunks,
      Bool.and_false, hsend]
    cases r with
    | error f => rfl
    | ok u => rfl

namespace ReaderLoop

/-- The buffer holds `w`. -/
structure Holds (st : ReaderLoop σ ρ) (w : Bytes) : Prop where
  room : st.buf.length = maxPacketSize
  filled : st.filled = w.length
  held : st.buf.take w.length = w
  fits : w.length ≤ maxPacketSize
  sentAny : w ≠ [] → st.sentAny = true

/-- The result of a call with the source behind it. -/
def resultOf (x : Res Unit × PacketTx × σ) (source : ρ) : Result σ ρ := (x.1, x.2.1, x.2.2, source)

variable {R : Source ρ} {st : ReaderLoop σ ρ} {w : Bytes}

theorem Holds.sendFilled (h : st.Holds w) (last : Bool) :
    st.sendFilled T last = st.tx.sendPacket T st.cipher w last := by
  have hle : w.length ≤ st.buf.length := by
    rw [h.room]
    exact h.fits
  simp only [ReaderLoop.sendFilled, h.filled, slice?_eq (Nat.zero_le _) hle, h.held, List.drop_zero]

/-- The buffer is empty again behind a send. -/
theorem Holds.sent (h : st.Holds w) (tx : PacketTx) (s : σ) :
    ({ st with tx, cipher := s, filled := 0 } : ReaderLoop σ ρ).Holds [] where
  room := h.room
  filled := rfl
  held := rfl
  fits := Nat.zero_le _
  sentAny h := absurd rfl h

theorem Holds.finish (h : st.Holds w) (hlt : w.length < maxPacketSize) :
    st.finish T = resultOf (st.tx.streamed T st.cipher st.sentAny w none) st.source := by
  unfold ReaderLoop.finish PacketTx.streamed
  by_cases hw : w = []
  · subst hw
    have hf : st.filled = 0 := h.filled
    simp only [hf, Nat.lt_irrefl, gt_iff_lt, ↓reduceIte]
    cases hs : st.sentAny <;> rfl
  · have hpos : 0 < w.length := List.length_pos_iff.2 hw
    have hndvd : ¬ maxPacketSize ∣ w.length := Nat.not_dvd_of_pos_of_lt hpos hlt
    simp only [h.filled, hpos, ↓reduceIte, hw, hndvd, h.sendFilled,
      chunks_short hw (Nat.le_of_lt hlt), PacketTx.sendChunks, List.isEmpty_nil, Bool.true_and,
      not_false_eq_true, decide_true]
    rcases st.tx.sendPacket T st.cipher w true with ⟨r, tx', s'⟩
    cases r with
    | error f => rfl
    | ok u => rfl

/-- The source ends while there is room in the buffer. -/
theorem Holds.fill_stop (h : st.Holds w) (hlt : w.length < maxPacketSize) {fin : Option IoError}
    (hread : ∀ n, 0 < n → (R.read st.source n).1 = Source.ending fin) :
    ∃ source, st.fill T R =
      .inr (resultOf (st.tx.streamed T st.cipher st.sentAny w fin) source) := by
  have hle : ¬ st.filled > st.buf.length := by
    rw [h.filled, h.room]
    exact Nat.not_lt.2 h.fits
  have hroom : 0 < st.buf.length - st.filled := by
    rw [h.filled, h.room]
    omega
  have hr := hread _ hroom
  rcases hrd : R.read st.source (st.buf.length - st.filled) with ⟨r, source⟩
  rw [hrd] at hr
  simp only at hr
  subst hr
  refine ⟨source, ?_⟩
  cases fin with
  | none =>
    have h' : ({ st with source } : ReaderLoop σ ρ).Holds w :=
      ⟨h.room, h.filled, h.held, h.fits, h.sentAny⟩
    simp only [fill, hle, ↓reduceIte, hrd, Source.ending, List.length_nil, h'.finish hlt]
  | some e =>
    simp only [fill, hle, ↓reduceIte, hrd, Source.ending, PacketTx.streamed,
      wholePackets_short hlt, chunks_nil, PacketTx.sendChunks]
    rfl

/-- The source delivers `b`. -/
theorem Holds.fill_more (h : st.Holds w) {b : Bytes} (hne : b ≠ [])
    (hread : (R.read st.source (maxPacketSize - w.length)).1 = .ok b) :
    ∃ st', st.fill T R = .inl st' ∧ st'.Holds (w ++ b) ∧ st'.tx = st.tx ∧
      st'.cipher = st.cipher ∧
      st'.source = (R.read st.source (maxPacketSize - w.length)).2 := by
  have hle : ¬ w.length > maxPacketSize := Nat.not_lt.2 h.fits
  have hb : b.length ≤ maxPacketSize - w.length := R.fits hread
  have hlen : ¬ b.length = 0 := by
    rw [List.length_eq_zero_iff]
    exact hne
  have hfit : w.length + b.length ≤ st.buf.length := by
    have := h.fits
    rw [h.room]
    omega
  rcases hrd : R.read st.source (maxPacketSize - w.length) with ⟨r, source⟩
  rw [hrd] at hread
  simp only at hread
  subst hread
  simp only [fill, hle, ↓reduceIte, h.room, h.filled, hrd, hlen]
  refine ⟨_, rfl, ⟨?_, ?_, ?_, ?_, fun _ => rfl⟩, rfl, rfl, rfl⟩
  · exact (length_blit hfit).trans h.room
  · rw [List.length_append]
  · simp only [blit, h.held]
    exact List.take_left
  · rw [List.length_append, ← h.room]
    exact hfit

/-- A turn with a full buffer sends it first. -/
theorem Holds.turn_full (h : st.Holds w) (hw : w.length = maxPacketSize) :
    st.turn T R =
      match st.tx.sendPacket T st.cipher w false with
      | (.error f, tx, s) => .inr (.error f, tx, s, st.source)
      | (.ok (), tx, s) =>
        ({ st with tx, cipher := s, filled := 0 } : ReaderLoop σ ρ).fill T R := by
  have hs : maxPacketSize - st.filled = 0 := by
    rw [h.filled, hw, Nat.sub_self]
  rcases hsend : st.tx.sendPacket T st.cipher w false with ⟨r, tx, s⟩
  cases r <;> simp only [turn, hs, ↓reduceIte, h.sendFilled, hsend]

theorem Holds.turn_room (h : st.Holds w) (hw : w.length < maxPacketSize) :
    st.turn T R = st.fill T R := by
  have hs : ¬ maxPacketSize - st.filled = 0 := by
    rw [h.filled]
    omega
  simp only [turn, hs, ↓reduceIte]

/-- With room in the buffer it is enough to follow a read; with a full buffer one send comes
before it. -/
theorem Holds.returns_of_fill (h : st.Holds w) {d : Bytes} {fin : Option IoError}
    (hfill : ∀ (st' : ReaderLoop σ ρ) (v : Bytes), st'.Holds v → v.length < maxPacketSize →
      st'.source = st.source → ∃ source, Turns.Ends (turn T R)
        (resultOf (st'.tx.streamed T st'.cipher st'.sentAny (v ++ d) fin) source)
        (st'.fill T R)) :
    ∃ source, Turns.Returns (turn T R) st
      (resultOf (st.tx.streamed T st.cipher st.sentAny (w ++ d) fin) source) := by
  by_cases hw : w.length < maxPacketSize
  · obtain ⟨source, hend⟩ := hfill st w h hw rfl
    refine ⟨source, .of_turn ?_⟩
    rw [h.turn_room hw]
    exact hend
  · have hfull : w.length = maxPacketSize := Nat.le_antisymm h.fits (Nat.not_lt.1 hw)
    have hany : st.sentAny = true := by
      apply h.sentAny
      intro he
      rw [he] at hw
      exact hw maxPacketSize_pos
    rw [PacketTx.streamed_full _ _ _ hfull]
    have hturn := h.turn_full (T := T) (R := R) hfull
    rcases hsend : st.tx.sendPacket T st.cipher w false with ⟨r, tx', s'⟩
    rw [hsend] at hturn
    cases r with
    | error f =>
      refine ⟨st.source, .of_turn ?_⟩
      rw [hturn]
      rfl
    | ok u =>
      obtain ⟨source, hend⟩ := hfill _ [] (h.sent tx' s') maxPacketSize_pos rfl
      refine ⟨source, .of_turn ?_⟩
      rw [hturn]
      simp only [hany, List.nil_append] at hend ⊢
      exact hend

/-- **The loop.** Holding `w`, with `d` to come from the source, it returns what `streamed` says. -/
theorem returns_streamed {source : ρ} {d : Bytes} {fin : Option IoError}
    (hsrc : R.Delivers source d fin) :
    ∀ {st : ReaderLoop σ ρ} {w : Bytes}, st.Holds w → st.source = source →
      ∃ source', Turns.Returns (turn T R) st
        (resultOf (st.tx.streamed T st.cipher st.sentAny (w ++ d) fin) source') := by
  -- on how the source delivers: one read in each case
  induction hsrc with
  | stop hstop =>
    intro st w h hs
    refine h.returns_of_fill fun st' v hv hlt hs' => ?_
    rw [← hs, ← hs'] at hstop
    obtain ⟨source', hfill⟩ := hv.fill_stop (T := T) hlt hstop
    refine ⟨source', ?_⟩
    rw [hfill, List.append_nil]
    rfl
  | @more source d fin hread hrest ih =>
    intro st w h hs
    refine h.returns_of_fill fun st' v hv hlt hs' => ?_
    rw [hs] at hs'
    have hroom : 0 < maxPacketSize - v.length := Nat.sub_pos_of_lt hlt
    obtain ⟨b, hb, hne, rest, hd⟩ := hread _ hroom
    obtain ⟨st₁, hfill, hv₁, htx, hc, hsrc₁⟩ :=
      hv.fill_more (T := T) (R := R) hne (by rw [hs']; exact hb)
    obtain ⟨source', hret⟩ := ih _ b hroom hb hv₁ (by rw [hsrc₁, hs'])
    refine ⟨source', ?_⟩
    have hdata : v ++ b ++ d.drop b.length = v ++ d := by
      rw [← hd, List.drop_left, List.append_assoc]
    have hdne : v ++ d ≠ [] := by
      rw [← hd]
      simp [hne]
    rw [hfill, PacketTx.streamed_sentAny _ _ hdne st'.sentAny st₁.sentAny, ← hdata, ← htx, ← hc]
    exact hret

end ReaderLoop

/-! ## The calls -/

namespace MessageTx

variable {R : Source ρ} {tx : MessageTx} {t : UInt16}

/-- An idle sender opens a message. -/
theorem prepare_idle (hidle : BuilderIs none tx.packets.packetBuilder) (ht : t ≤ typeMask) :
    ∃ p, tx.packets.prepareMessage t = (.ok (), p) ∧ p.write = tx.packets.write ∧
      BuilderIs (some (t, true)) p.packetBuilder := by
  obtain ⟨b, hprep, hb⟩ := hidle.prepare t tx.packets.write tx.packets.writeBuf
  rw [prepared_ok ⟨ht, rfl⟩] at hprep
  simp only [ht, and_self, ↓reduceIte] at hb
  exact ⟨_, hprep, rfl, hb⟩

/-- The loop starts with an empty buffer. -/
theorem sendReader_streamed {p : PacketTx} {s : σ} {reader : ρ} {d : Bytes} {fin : Option IoError}
    (hprep : tx.packets.prepareMessage t = (.ok (), p)) (hsrc : R.Delivers reader d fin) :
    ∃ reader' n, ∀ m, n ≤ m → tx.sendReader T R m s t reader =
      .inr ((p.streamed T s false d fin).1, { packets := (p.streamed T s false d fin).2.1 },
        (p.streamed T s false d fin).2.2, reader') := by
  have hstart : ReaderLoop.Holds
      (⟨p, s, reader, List.replicate maxPacketSize 0, 0, false⟩ : ReaderLoop σ ρ) [] :=
    ⟨List.length_replicate, rfl, rfl, Nat.zero_le _, fun h => absurd rfl h⟩
  obtain ⟨reader', n, hn⟩ := ReaderLoop.returns_streamed (T := T) hsrc hstart rfl
  refine ⟨reader', n, fun m hm => ?_⟩
  simp only [sendReader, hprep, PacketTx.sendReader, hn m hm]
  rfl

/-- A message sent by an idle sender. -/
theorem sendMessage_emits (S : TransportSpec T) (s : σ)
    (hidle : BuilderIs none tx.packets.packetBuilder) (hw : tx.packets.write.broken = false)
    (ht : t ≤ typeMask) (p : Bytes) :
    ∃ tx' s', tx.sendMessage T s t p = (.ok (), tx', s') ∧
      BuilderIs none tx'.packets.packetBuilder ∧
      Emits S tx.packets s tx'.packets s' (packetize t p) := by
  obtain ⟨q, hprep, hqw, hb⟩ := prepare_idle hidle ht
  obtain ⟨q', s', hsend, hb', hE⟩ := Emits.sendChunks S true (slices p) s
    (by rw [hqw]; exact hw) hb fun c hc => slices_length hc
  refine ⟨{ packets := q' }, s', ?_, ?_, ?_⟩
  · simp only [sendMessage, hprep, Sender.sendSlice_eq, hsend]
  · obtain ⟨c, cs, hcs⟩ := List.exists_cons_of_ne_nil (Sender.slices_ne_nil p)
    rw [hcs] at hb'
    exact hb'
  · rw [segment_true] at hE
    exact hE.of_write hqw

/-- What the two ways to send leave behind: the same packets of `p`, and an idle builder. -/
structure SentAlike (S : TransportSpec T) (t : UInt16) (p : Bytes) (tx : MessageTx) (s : σ)
    (tx₁ : MessageTx) (s₁ : σ) (tx₂ : MessageTx) (s₂ : σ) : Prop where
  reader : Emits S tx.packets s tx₁.packets s₁ (packetize t p)
  message : Emits S tx.packets s tx₂.packets s₂ (packetize t p)
  builder : tx₁.packets.packetBuilder = tx₂.packets.packetBuilder
  idle : tx₁.packets.packetBuilder.inProgress = false
  next : ∀ t', t' ≤ typeMask → (tx₁.packets.prepareMessage t').1 = .ok ()

/-- A source of a whole number of packets, at least one: the message is sent and not ended. -/
theorem sendReader_multiple (S : TransportSpec T) {s : σ} {reader : ρ} {p : Bytes}
    (hidle : BuilderIs none tx.packets.packetBuilder) (hw : tx.packets.write.broken = false)
    (ht : t ≤ typeMask) (hsrc : R.Delivers reader p none) (hne : p ≠ [])
    (hdvd : maxPacketSize ∣ p.length) :
    ∃ tx₁ s₁ reader', (∃ n, ∀ m, n ≤ m →
        tx.sendReader T R m s t reader = .inr (.ok (), tx₁, s₁, reader')) ∧
      BuilderIs (some (t, false)) tx₁.packets.packetBuilder ∧
      Emits S tx.packets s tx₁.packets s₁ (segment t false true (chunks maxPacketSize p)) := by
  obtain ⟨q, hprep, hqw, hb⟩ := prepare_idle hidle ht
  obtain ⟨q', s', hsend, hb', hE⟩ := Emits.sendChunks S false (chunks maxPacketSize p) s
    (by rw [hqw]; exact hw) hb fun c hc => length_le_of_mem_chunks maxPacketSize_pos p hc
  have hstr : q.streamed T s false p none = (.ok (), q', s') := by
    simp only [PacketTx.streamed, hne, hdvd, ↓reduceIte, not_true_eq_false, decide_false, hsend]
  obtain ⟨reader', n, hn⟩ := sendReader_streamed (T := T) (s := s) hprep hsrc
  rw [hstr] at hn
  refine ⟨{ packets := q' }, s', reader', ⟨n, hn⟩, ?_, hE.of_write hqw⟩
  rw [chunks_cons maxPacketSize_pos hne] at hb'
  exact hb'

/-- Any other source: what `send_message` does. -/
theorem sendReader_eq (s : σ) {reader : ρ} {p : Bytes}
    (hidle : BuilderIs none tx.packets.packetBuilder) (ht : t ≤ typeMask)
    (hsrc : R.Delivers reader p none) (hp : p = [] ∨ ¬ maxPacketSize ∣ p.length) :
    ∃ reader' n, ∀ m, n ≤ m → tx.sendReader T R m s t reader =
      .inr ((tx.sendMessage T s t p).1, (tx.sendMessage T s t p).2.1,
        (tx.sendMessage T s t p).2.2, reader') := by
  obtain ⟨q, hprep, -, -⟩ := prepare_idle hidle ht
  have hstr : q.streamed T s false p none = q.sendSlice T s p true := by
    rw [Sender.sendSlice_eq]
    by_cases hne : p = []
    · subst hne
      rw [← Sender.sendSlice_eq]
      rfl
    · have hndvd : ¬ maxPacketSize ∣ p.length := hp.resolve_left hne
      have hsl : slices p = chunks maxPacketSize p := by
        rw [slices, chunks_cons maxPacketSize_pos hne]
      simp only [PacketTx.streamed, hne, hndvd, ↓reduceIte, not_false_eq_true, decide_true, hsl]
  obtain ⟨reader', n, hn⟩ := sendReader_streamed (T := T) (s := s) hprep hsrc
  rw [hstr] at hn
  refine ⟨reader', n, fun m hm => ?_⟩
  rw [hn m hm]
  simp only [sendMessage, hprep]

end MessageTx

/-- **Streaming against slices.** An idle sender given a source that delivers `p`, in whatever
reads, and one given `p`: `send_reader` returns `Ok`, writes the packets `send_message` writes and
leaves the same idle builder iff `p` is empty or not a whole number of packets. -/
theorem sendReader_agrees_iff (S : TransportSpec T) (R : Source ρ) {tx : MessageTx} {s : σ}
    {t : UInt16} {p : Bytes} {reader : ρ}
    (hidle : tx.packets.packetBuilder.inProgress = false)
    (hw : tx.packets.write.broken = false) (ht : t ≤ typeMask)
    (hsrc : R.Delivers reader p none) :
    (∃ tx₁ s₁ reader' tx₂ s₂,
      (∃ n, ∀ m, n ≤ m → tx.sendReader T R m s t reader = .inr (.ok (), tx₁, s₁, reader')) ∧
      tx.sendMessage T s t p = (.ok (), tx₂, s₂) ∧
      MessageTx.SentAlike S t p tx s tx₁ s₁ tx₂ s₂) ↔
    p = [] ∨ ¬ maxPacketSize ∣ p.length := by
  have hb : BuilderIs none tx.packets.packetBuilder := .idle hidle
  constructor
  · rintro ⟨tx₁, s₁, reader', tx₂, s₂, ⟨n, hn⟩, -, hsent⟩
    by_contra hp
    obtain ⟨hne, hdvd⟩ := not_or.1 hp
    obtain ⟨tx', s', reader'', ⟨n', hn'⟩, hb', -⟩ :=
      MessageTx.sendReader_multiple (s := s) S hb hw ht hsrc hne (not_not.1 hdvd)
    -- the call returns one result, and that one has the message open
    have heq := (hn (max n n') (by omega)).symm.trans (hn' (max n n') (by omega))
    simp only [Sum.inr.injEq, Prod.mk.injEq, true_and] at heq
    obtain ⟨rfl, -, -⟩ := heq
    cases hb' with
    | opened hopen _ _ _ =>
      rw [hsent.idle] at hopen
      cases hopen
  · intro hp
    obtain ⟨tx', s', hsend, hb', hE⟩ := MessageTx.sendMessage_emits S s hb hw ht p
    obtain ⟨reader', n, hn⟩ := MessageTx.sendReader_eq (T := T) s hb ht hsrc hp
    rw [hsend] at hn
    refine ⟨tx', s', reader', tx', s', ⟨n, hn⟩, hsend, hE, hE, rfl, ?_, fun t' ht' => ?_⟩
    · cases hb' with
      | idle h => exact h
    · obtain ⟨q, hprep, -, -⟩ := MessageTx.prepare_idle hb' ht'
      rw [hprep]

/-- A sender right after the handshake. -/
def MessageTx.fresh : MessageTx :=
  { packets := { packetBuilder := .new, write := ⟨[], false⟩, writeBuf := [] } }

/-- Three bytes in two reads. -/
theorem sendReader_agrees_three :
    ∃ tx₁ s₁ reader' tx₂ s₂,
      (∃ n, ∀ m, n ≤ m → MessageTx.fresh.sendReader Tagged.transport Source.pieces m ⟨0, 1, 0, 0⟩ 5
        ([[1], [2, 3]], none) = .inr (.ok (), tx₁, s₁, reader')) ∧
      MessageTx.fresh.sendMessage Tagged.transport ⟨0, 1, 0, 0⟩ 5 [1, 2, 3] = (.ok (), tx₂, s₂) ∧
      MessageTx.SentAlike Tagged.spec 5 [1, 2, 3] .fresh ⟨0, 1, 0, 0⟩ tx₁ s₁ tx₂ s₂ :=
  (sendReader_agrees_iff Tagged.spec Source.pieces rfl rfl (by decide)
    (Source.pieces_delivers none [[1], [2, 3]] (by decide))).2 (.inr (by decide))

/-- A source of exactly one full packet: the message is never ended, and the next one is refused. -/
theorem full_packet_left_open :
    ∃ tx₁ s₁ reader' tx₂ s₂,
      (∃ n, ∀ m, n ≤ m → MessageTx.fresh.sendReader Tagged.transport Source.pieces m ⟨0, 1, 0, 0⟩ 5
        ([List.replicate maxPacketSize 0], none) = .inr (.ok (), tx₁, s₁, reader')) ∧
      MessageTx.fresh.sendMessage Tagged.transport ⟨0, 1, 0, 0⟩ 5 (List.replicate maxPacketSize 0) =
        (.ok (), tx₂, s₂) ∧
      tx₁.packets.packetBuilder.inProgress = true ∧
      tx₂.packets.packetBuilder.inProgress = false ∧
      (tx₁.packets.prepareMessage 5).1 =
        .error (.error (.packetBuilder .messageAlreadyInProgress)) := by
  have hidle : BuilderIs none MessageTx.fresh.packets.packetBuilder := .idle rfl
  have hne : List.replicate maxPacketSize (0 : UInt8) ≠ [] := by
    rw [ne_eq, List.replicate_eq_nil_iff]
    decide
  have hsrc := Source.pieces_delivers none [List.replicate maxPacketSize 0]
    fun c hc => by rw [List.mem_singleton.1 hc]; exact hne
  rw [List.flatten_singleton] at hsrc
  obtain ⟨tx₁, s₁, reader', hn, hb₁, -⟩ := MessageTx.sendReader_multiple (t := 5)
    (s := (⟨0, 1, 0, 0⟩ : TaggedState)) Tagged.spec hidle rfl (by decide) hsrc hne
    (List.length_replicate ▸ Nat.dvd_refl _)
  obtain ⟨tx₂, s₂, hsend, hb₂, -⟩ := MessageTx.sendMessage_emits (t := 5) Tagged.spec
    (⟨0, 1, 0, 0⟩ : TaggedState) hidle rfl (by decide) (List.replicate maxPacketSize 0)
  obtain ⟨b', hprep, -⟩ := hb₁.prepare 5 tx₁.packets.write tx₁.packets.writeBuf
  refine ⟨tx₁, s₁, reader', tx₂, s₂, hn, hsend, ?_, ?_, ?_⟩
  · cases hb₁ with
    | opened h _ _ _ => exact h
  · cases hb₂ with
    | idle h => exact h
  · rw [hprep]
    rfl

/-! ## A source that fails -/

/-- The error of a `prepare` with a message open. -/
def refusedWith (t : UInt16) : PacketBuildError :=
  if t > typeMask then .messageTypeTooLarge t else .messageAlreadyInProgress

/-- The result of a call with a message open. -/
def TxCall.refusal : TxCall ρ → Option (Res Unit)
  | .sendMessage t _ => some (.error (.error (.packetBuilder (refusedWith t))))
  | .sendReader t _ _ => some (.error (.error (.packetBuilder (refusedWith t))))
  | .abortMessage => none

theorem PacketTx.prepareMessage_refused {tx : PacketTx} (h : tx.packetBuilder.inProgress = true)
    (t : UInt16) :
    tx.prepareMessage t = (.error (.error (.packetBuilder (refusedWith t))), tx) := by
  unfold prepareMessage PacketBuilder.prepare refusedWith
  by_cases ht : t > typeMask
  · simp only [ht, ↓reduceIte]
  · simp only [ht, h, ↓reduceIte]

/-- With a message open a call other than `abort_message` does nothing. -/
theorem Outbox.call_refused {R : Source ρ} {o : Outbox σ}
    (h : o.tx.packets.packetBuilder.inProgress = true) {c : TxCall ρ} (hc : c ≠ .abortMessage) :
    o.call T R c = o.record c.refusal o.tx o.cipher := by
  have hprep := PacketTx.prepareMessage_refused h
  cases c with
  | sendMessage t p =>
    simp only [call, MessageTx.sendMessage, hprep, TxCall.refusal]
  | sendReader t reader turns =>
    simp only [call, MessageTx.sendReader, hprep, TxCall.refusal]
  | abortMessage => exact absurd rfl hc

theorem Outbox.run_refused {R : Source ρ} : ∀ (calls : List (TxCall ρ)) {o : Outbox σ},
    o.tx.packets.packetBuilder.inProgress = true → .abortMessage ∉ calls →
    Lts.run (Outbox.call T R) o calls =
      { o with results := o.results ++ calls.map TxCall.refusal }
  | [], o, _, _ => by simp
  | c :: calls, o, h, hno => by
    have hc : c ≠ .abortMessage := fun he => hno (by rw [he]; exact List.mem_cons_self)
    have ih := run_refused (R := R) calls (o := o.record c.refusal o.tx o.cipher) h
      fun hm => hno (List.mem_cons_of_mem _ hm)
    rw [Lts.run_cons, call_refused h hc, ih]
    simp only [record, List.map_cons, List.append_assoc, List.singleton_append]

/-- What `send_reader` leaves behind when the source failed after delivering `p`. -/
structure LeftOpen (S : TransportSpec T) (t : UInt16) (p : Bytes) (tx : MessageTx) (s : σ)
    (tx' : MessageTx) (s' : σ) : Prop where
  /-- the full packets of `p` were written -/
  packets : ∃ ps, Emits S tx.packets s tx'.packets s' ps ∧
    ps.length = p.length / maxPacketSize ∧ (∀ q ∈ ps, q.2.length = maxPacketSize) ∧
    (∀ (i : Nat) (q : Packet), ps[i]? = some q → q.1 = ⟨if i = 0 then .first else .mid, t⟩) ∧
    (ps.map Prod.snd).flatten = p.take (p.length / maxPacketSize * maxPacketSize)
  inProgress : tx'.packets.packetBuilder.inProgress = true
  msgType : tx'.packets.packetBuilder.msgType = t
  /-- other calls are refused, and change nothing -/
  refused : ∀ {ρ' : Type} (R' : Source ρ') (calls : List (TxCall ρ')), .abortMessage ∉ calls →
    Lts.run (Outbox.call T R') (.new tx' s') calls =
      { tx := tx', cipher := s', results := calls.map TxCall.refusal }
  /-- and after `abort_message` a message can be sent -/
  recovers : ∃ tx₁ s₁, tx'.abortMessage T s' = (.ok (), tx₁, s₁) ∧
    Emits S tx'.packets s' tx₁.packets s₁ [(⟨.abort, t⟩, [])] ∧
    ∀ t' ≤ typeMask, ∀ q, ∃ tx₂ s₂, tx₁.sendMessage T s₁ t' q = (.ok (), tx₂, s₂) ∧
      Emits S tx₁.packets s₁ tx₂.packets s₂ (packetize t' q)

/-- An open message can be abandoned, and then another one sent. -/
theorem MessageTx.recovers (S : TransportSpec T) {tx : MessageTx} (s : σ) {t : UInt16} {f : Bool}
    (hb : BuilderIs (some (t, f)) tx.packets.packetBuilder)
    (hw : tx.packets.write.broken = false) :
    ∃ tx₁ s₁, tx.abortMessage T s = (.ok (), tx₁, s₁) ∧
      Emits S tx.packets s tx₁.packets s₁ [(⟨.abort, t⟩, [])] ∧
      ∀ t' ≤ typeMask, ∀ q, ∃ tx₂ s₂, tx₁.sendMessage T s₁ t' q = (.ok (), tx₂, s₂) ∧
        Emits S tx₁.packets s₁ tx₂.packets s₂ (packetize t' q) := by
  obtain ⟨p₁, s₁, habort, hb₁, hE₁⟩ := Emits.abortMessage S s hw hb
  have hidle : BuilderIs none (MessageTx.mk p₁).packets.packetBuilder := hb₁
  refine ⟨{ packets := p₁ }, s₁, ?_, hE₁, fun t' ht' q => ?_⟩
  · simp only [abortMessage, habort]
  · obtain ⟨tx₂, s₂, hsend, -, hE₂⟩ :=
      MessageTx.sendMessage_emits S s₁ hidle hE₁.intact ht' q
    exact ⟨tx₂, s₂, hsend, hE₂⟩

/-- **A source that fails.** After `p` in whatever reads the source fails with `e`: `send_reader`
returns `e`, the full packets of `p` are on the wire and the message is open until it is
abandoned. -/
theorem failing_source (S : TransportSpec T) (R : Source ρ) {tx : MessageTx} {s : σ} {t : UInt16}
    {p : Bytes} {e : IoError} {reader : ρ}
    (hidle : tx.packets.packetBuilder.inProgress = false)
    (hw : tx.packets.write.broken = false) (ht : t ≤ typeMask)
    (hsrc : R.Delivers reader p (some e)) :
    ∃ tx' s' reader',
      (∃ n, ∀ m, n ≤ m →
        tx.sendReader T R m s t reader = .inr (.error (.error (.io e)), tx', s', reader')) ∧
      LeftOpen S t p tx s tx' s' := by
  have hnone : BuilderIs none tx.packets.packetBuilder := .idle hidle
  obtain ⟨q, hprep, hqw, hb⟩ := MessageTx.prepare_idle hnone ht
  obtain ⟨q', s', hsend, hb', hE⟩ := Emits.sendChunks S false
    (chunks maxPacketSize (wholePackets p)) s (by rw [hqw]; exact hw) hb
    fun c hc => length_le_of_mem_chunks maxPacketSize_pos _ hc
  have hstr : q.streamed T s false p (some e) = (.error (.error (.io e)), q', s') := by
    show andFail e (q.sendChunks T s false (chunks maxPacketSize (wholePackets p))) = _
    rw [hsend]
    rfl
  obtain ⟨reader', n, hn⟩ := MessageTx.sendReader_streamed (T := T) (s := s) hprep hsrc
  rw [hstr] at hn
  -- no packet was sent, or the message has a first packet: it is open in both cases
  obtain ⟨f, hopen⟩ : ∃ f, BuilderIs (some (t, f)) q'.packetBuilder := by
    cases hcs : chunks maxPacketSize (wholePackets p) with
    | nil =>
      rw [hcs] at hb'
      exact ⟨true, hb'⟩
    | cons c cs =>
      rw [hcs] at hb'
      exact ⟨false, hb'⟩
  obtain ⟨hcount, hfull⟩ := chunks_mul maxPacketSize_pos (p.length / maxPacketSize)
    (wholePackets p) (length_wholePackets p)
  have hsnd := map_snd_segment t false true (chunks maxPacketSize (wholePackets p))
  have hin : q'.packetBuilder.inProgress = true ∧ q'.packetBuilder.msgType = t := by
    cases hopen with
    | opened h _ hm _ => exact ⟨h, hm⟩
  refine ⟨{ packets := q' }, s', reader', ⟨n, hn⟩,
    ⟨⟨_, hE.of_write hqw, ?_, fun r hr => ?_, fun i r hi => ?_, ?_⟩, hin.1, hin.2,
      fun R' calls hno => ?_, MessageTx.recovers S s' hopen hE.intact⟩⟩
  · rw [← hcount, ← List.length_map Prod.snd, hsnd]
  · exact hfull r.2 (by rw [← hsnd]; exact List.mem_map_of_mem hr)
  · rw [getElem?_segment hi]
    simp
  · rw [hsnd, flatten_chunks maxPacketSize_pos]
    rfl
  · rw [Outbox.run_refused calls hin.1 hno]
    rfl

/-- Two full packets and a byte, and then the source fails: the two packets are written. -/
theorem failing_source_packets :
    ∃ tx' s' reader',
      (∃ n, ∀ m, n ≤ m → MessageTx.fresh.sendReader Tagged.transport Source.pieces m ⟨0, 1, 0, 0⟩ 5
        ([List.replicate (2 * maxPacketSize) 0, [7]], some .brokenPipe) =
          .inr (.error (.error (.io .brokenPipe)), tx', s', reader')) ∧
      (∃ ps, Emits Tagged.spec MessageTx.fresh.packets ⟨0, 1, 0, 0⟩ tx'.packets s' ps ∧
        ps.length = 2) ∧
      LeftOpen Tagged.spec 5 (List.replicate (2 * maxPacketSize) 0 ++ [7]) .fresh ⟨0, 1, 0, 0⟩
        tx' s' := by
  have hsrc := Source.pieces_delivers (some .brokenPipe)
    [List.replicate (2 * maxPacketSize) 0, [7]] (by
      intro c hc
      rcases List.mem_cons.1 hc with rfl | hc
      · rw [ne_eq, List.replicate_eq_nil_iff]
        decide
      · rw [List.mem_singleton.1 hc]
        simp)
  rw [List.flatten_cons, List.flatten_singleton] at hsrc
  have hidle : MessageTx.fresh.packets.packetBuilder.inProgress = false := rfl
  obtain ⟨tx', s', reader', hn, hleft⟩ := failing_source (t := 5)
    (s := (⟨0, 1, 0, 0⟩ : TaggedState)) Tagged.spec Source.pieces hidle rfl (by decide) hsrc
  obtain ⟨ps, hE, hcount, -⟩ := hleft.packets
  refine ⟨tx', s', reader', hn, ⟨ps, hE, ?_⟩, hleft⟩
  rw [hcount, List.length_append, List.length_replicate]
  rfl

end Snowpack
