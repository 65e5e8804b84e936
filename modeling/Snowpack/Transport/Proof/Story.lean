import Mathlib.Data.List.Forall2
import Snowpack.Transport.Proof.Hearing
import Snowpack.Transport.Proof.Streaming
import Snowpack.Transport.Talk

/-!
# What calls come to at the other party

A party that makes any calls of its `MessageTx` is followed call by call: `Spoken` says that the
sender is where `Told` is, and that a loop which has read all that was written is abreast of it
(`Abreast`). Each call is one saying (`Spoken.call`): the packets it emits take the loop on to the
next place, and it sees what the saying tells (`Hears`).

A `send_reader` that is dropped before it returns has sent full packets only (`ReaderLoop.Amid`).
With what a receiver makes of its bytes (`Listening`) this gives the whole connection: whatever the
parties call and however their steps interleave, each of them sees what the other's calls tell
(`calls_told`).
-/

namespace Snowpack

open Wire

variable {σ ρ : Type} {T : TransportOps σ} {S : TransportSpec T}

/-! ## The frames of packets -/

/-- What the loop does with a packet that a builder can have built. -/
def Hearing.next (h : Hearing) (p : Packet) : Hearing × List Outcome :=
  match h.reader.accept p.1.kind p.1.msgType with
  | (.error e, rd) => (⟨rd, h.nonce + 1, (h.ear.hear (.refused e)).1⟩, (h.ear.hear (.refused e)).2)
  | (.ok _, rd) =>
    (⟨rd, h.nonce + 1, (h.ear.hear (.packet (rawPacket p))).1⟩,
      (h.ear.hear (.packet (rawPacket p))).2)

theorem TransportSpec.encrypt_fits (S : TransportSpec T) (key : S.Key) (n : Nat) {p : Packet}
    (hp : PacketOk p) : (S.encrypt key n (rawPacket p)).length ≤ maxCiphertextSize := by
  rw [S.length_encrypt, length_rawPacket]
  have := hp.2
  simp only [maxPacketSize, maxRawPacketSize, maxCiphertextSize, cipherOverheadSize,
    noiseTag] at this ⊢
  omega

theorem TransportSpec.meaning_packet (hS : S.Correct) (key : S.Key) (h : Hearing) {p : Packet}
    (hp : PacketOk p) (more : Bytes) :
    S.meaning key h (frame (S.encrypt key h.nonce (rawPacket p)) ++ more) =
      (h.next p).2 ++ S.meaning key (h.next p).1 more := by
  have hc := S.encrypt_fits key h.nonce hp
  have hframe : readFrame ⟨frame (S.encrypt key h.nonce (rawPacket p)) ++ [], false⟩ [] =
      .ready (.ok (), ⟨[], false⟩, S.encrypt key h.nonce (rawPacket p)) := readFrame_whole hc
  rw [List.append_nil] at hframe
  have hread : h.reader.read (rawPacket p) = h.reader.accept p.1.kind p.1.msgType :=
    read_header_append hp.1 p.2 h.reader
  have hdec := hS key h.nonce (rawPacket p)
  unfold Hearing.next
  rcases hacc : h.reader.accept p.1.kind p.1.msgType with ⟨res, rd⟩
  cases res with
  | error e =>
    have hf : S.find key h.nonce h.reader ⟨frame (S.encrypt key h.nonce (rawPacket p)), false⟩ =
        .ready (.refused e, rd, ⟨[], false⟩, h.nonce + 1) := by
      simp only [find, hframe, hdec, hread, hacc]
    exact meaning_found hf more
  | ok header =>
    have hf : S.find key h.nonce h.reader ⟨frame (S.encrypt key h.nonce (rawPacket p)), false⟩ =
        .ready (.packet (rawPacket p), rd, ⟨[], false⟩, h.nonce + 1) := by
      simp only [find, hframe, hdec, hread, hacc]
    exact meaning_found hf more

/-- The packets `ps` take the loop from `h` to `h'`, and it sees `os` of them. -/
inductive Hears : Hearing → List Packet → Hearing → List Outcome → Prop
  | nil (h : Hearing) : Hears h [] h []
  | cons {h h' h'' : Hearing} {p : Packet} {ps : List Packet} {os os' : List Outcome}
      (hp : PacketOk p) (hn : h.next p = (h', os)) (hps : Hears h' ps h'' os') :
      Hears h (p :: ps) h'' (os ++ os')

namespace Hears

variable {h h' h'' : Hearing} {ps qs : List Packet} {os os' : List Outcome}

theorem packet {p : Packet} (hp : PacketOk p) (hn : h.next p = (h', os)) : Hears h [p] h' os := by
  have hone := Hears.cons hp hn (.nil h')
  rwa [List.append_nil] at hone

theorem append (h₁ : Hears h ps h' os) (h₂ : Hears h' qs h'' os') :
    Hears h (ps ++ qs) h'' (os ++ os') := by
  induction h₁ with
  | nil h => exact h₂
  | cons hp hn _ ih =>
    rw [List.append_assoc]
    exact .cons hp hn (ih h₂)

theorem next_nonce (h : Hearing) (p : Packet) : (h.next p).1.nonce = h.nonce + 1 := by
  unfold Hearing.next
  split <;> rfl

theorem nonce (hh : Hears h ps h' os) : h'.nonce = h.nonce + ps.length := by
  induction hh with
  | nil h => rfl
  | @cons h h' _ p ps _ _ hp hn _ ih =>
    have hone := next_nonce h p
    rw [hn] at hone
    rw [ih, hone, List.length_cons]
    omega

/-- The frames of the packets are heard so. -/
theorem meaning (hS : S.Correct) (key : S.Key) (hh : Hears h ps h' os) (more : Bytes) :
    S.meaning key h (S.frames key h.nonce ps ++ more) = os ++ S.meaning key h' more := by
  induction hh with
  | nil h => rfl
  | @cons h h' _ p ps os os' hp hn _ ih =>
    have hone := next_nonce h p
    rw [hn] at hone
    rw [TransportSpec.frames, List.append_assoc, S.meaning_packet hS key h hp, hn, ← hone, ih,
      List.append_assoc]

end Hears

/-! ## The two ends of a message -/

/-- Where the loop is when the builder has the message `o` open. -/
inductive Abreast : OpenMessage → Hearing → Prop
  | idle {h : Hearing} (hrd : h.reader.inProgress = false) (hear : h.ear = .idle) : Abreast none h
  /-- its first packet is still to come -/
  | opened {h : Hearing} {t : UInt16} (hrd : h.reader.inProgress = false) (hear : h.ear = .idle) :
      Abreast (some (t, true)) h
  | inside {h : Hearing} {t : UInt16} {part : Bytes} (hrd : h.reader = ⟨true, t⟩)
      (hear : h.ear = .inside t part) : Abreast (some (t, false)) h

/-- The part of a message that the loop has. -/
def Ear.part : Ear → Bytes
  | .inside _ part => part
  | _ => []

namespace Abreast

variable {h : Hearing} {t : UInt16} {f : Bool}

theorem headerOf_raw (ht : t ≤ typeMask) (k : PacketKind) (c : Bytes) :
    headerOf (rawPacket (⟨k, t⟩, c)) = ⟨k, t⟩ ∧ (rawPacket (⟨k, t⟩, c)).drop 2 = c :=
  ⟨headerOf_header ht c, rfl⟩

/-- A packet behind which more is to come. -/
theorem hears_more (ha : Abreast (some (t, f)) h) (ht : t ≤ typeMask) {c : Bytes}
    (hc : c.length ≤ maxPacketSize) :
    ∃ h', Hears h [(⟨PacketBuilder.nextKind f false, t⟩, c)] h' [] ∧
      Abreast (some (t, false)) h' ∧ h'.ear.part = h.ear.part ++ c := by
  obtain ⟨hhead, hdrop⟩ := headerOf_raw ht (PacketBuilder.nextKind f false) c
  cases ha with
  | opened hrd hear =>
    refine ⟨⟨⟨true, t⟩, h.nonce + 1, .inside t c⟩, .packet ⟨ht, hc⟩ ?_, .inside rfl rfl, ?_⟩
    · simp only [PacketBuilder.nextKind] at hhead hdrop ⊢
      simp [Hearing.next, PacketReader.accept, hrd, hear, Ear.hear, hhead, hdrop]
    · rw [hear]
      rfl
  | @inside h _ part hrd hear =>
    refine ⟨⟨⟨true, t⟩, h.nonce + 1, .inside t (part ++ c)⟩, .packet ⟨ht, hc⟩ ?_,
      .inside rfl rfl, ?_⟩
    · simp only [PacketBuilder.nextKind] at hhead hdrop ⊢
      simp [Hearing.next, PacketReader.accept, hrd, hear, Ear.hear, hhead, hdrop]
    · rw [hear]
      rfl

/-- The last packet of a message. -/
theorem hears_last (ha : Abreast (some (t, f)) h) (ht : t ≤ typeMask) {c : Bytes}
    (hc : c.length ≤ maxPacketSize) :
    ∃ h', Hears h [(⟨PacketBuilder.nextKind f true, t⟩, c)] h' [.got t (h.ear.part ++ c)] ∧
      Abreast none h' := by
  obtain ⟨hhead, hdrop⟩ := headerOf_raw ht (PacketBuilder.nextKind f true) c
  cases ha with
  | opened hrd hear =>
    refine ⟨⟨h.reader, h.nonce + 1, .idle⟩, .packet ⟨ht, hc⟩ ?_, .idle hrd rfl⟩
    simp only [PacketBuilder.nextKind] at hhead hdrop ⊢
    simp [Hearing.next, PacketReader.accept, hrd, hear, Ear.hear, Ear.part, hhead, hdrop]
  | inside hrd hear =>
    refine ⟨⟨⟨false, 0⟩, h.nonce + 1, .idle⟩, .packet ⟨ht, hc⟩ ?_, .idle rfl rfl⟩
    simp only [PacketBuilder.nextKind] at hhead hdrop ⊢
    simp [Hearing.next, PacketReader.accept, hrd, hear, Ear.hear, Ear.part, hhead, hdrop]

/-- An abort packet. -/
theorem hears_abort (ha : Abreast (some (t, f)) h) (ht : t ≤ typeMask) :
    ∃ h', Hears h [(⟨.abort, t⟩, [])] h'
        [if f then .failed (.packet (.missingMessageStart t)) else .aborted t] ∧
      Abreast none h' := by
  obtain ⟨hhead, -⟩ := headerOf_raw ht .abort []
  have hplain : PacketOk (⟨.abort, t⟩, []) := ⟨ht, Nat.zero_le _⟩
  cases ha with
  | opened hrd hear =>
    refine ⟨⟨h.reader, h.nonce + 1, .idle⟩, .packet hplain ?_, .idle hrd rfl⟩
    simp [Hearing.next, PacketReader.accept, hrd, hear, Ear.hear]
  | inside hrd hear =>
    refine ⟨⟨⟨false, 0⟩, h.nonce + 1, .idle⟩, .packet hplain ?_, .idle rfl rfl⟩
    simp [Hearing.next, PacketReader.accept, hrd, hear, Ear.hear, hhead]

theorem openBehind_true {f : Bool} {cs : List Bytes} (h : cs ≠ []) :
    openBehind t true f cs = none := by
  cases cs with
  | nil => exact absurd rfl h
  | cons c cs => rfl

/-- The packets of chunks, the last of them the last of the message or not. -/
theorem hears_segment (ht : t ≤ typeMask) (last : Bool) :
    ∀ (cs : List Bytes) {f : Bool} {h : Hearing}, Abreast (some (t, f)) h →
      (∀ c ∈ cs, c.length ≤ maxPacketSize) →
      ∃ h', Abreast (openBehind t last f cs) h' ∧ Hears h (segment t last f cs) h'
        (if last = true ∧ cs ≠ [] then [.got t (h.ear.part ++ cs.flatten)] else [])
  | [], f, h, ha, _ => ⟨h, ha, by simpa [segment] using Hears.nil h⟩
  | [c], f, h, ha, hlen => by
    have hc := hlen c List.mem_cons_self
    cases last with
    | true =>
      obtain ⟨h', hh, ha'⟩ := ha.hears_last ht hc
      exact ⟨h', ha', by simpa [segment] using hh⟩
    | false =>
      obtain ⟨h', hh, ha', -⟩ := ha.hears_more ht hc
      exact ⟨h', ha', by simpa [segment] using hh⟩
  | c :: c' :: cs, f, h, ha, hlen => by
    obtain ⟨h₁, hh₁, ha₁, hpart⟩ := ha.hears_more ht (hlen c List.mem_cons_self)
    obtain ⟨h', ha', hh'⟩ := hears_segment ht last (c' :: cs) ha₁
      fun x hx => hlen x (List.mem_cons_of_mem _ hx)
    refine ⟨h', ha', ?_⟩
    have happ := hh₁.append hh'
    rw [hpart] at happ
    simpa [segment] using happ

theorem part_opened (ha : Abreast (some (t, true)) h) : h.ear.part = [] := by
  cases ha with
  | opened hrd hear =>
    rw [hear]
    rfl

theorem hears_message (ha : Abreast (some (t, true)) h) (ht : t ≤ typeMask) (payload : Bytes) :
    ∃ h', Abreast none h' ∧ Hears h (packetize t payload) h' [.got t payload] := by
  have hpart := ha.part_opened
  have hne := Sender.slices_ne_nil payload
  obtain ⟨h', ha', hH⟩ := ha.hears_segment ht true (slices payload)
    fun c hc => slices_length hc
  refine ⟨h', ?_, ?_⟩
  · rw [openBehind_true hne] at ha'
    exact ha'
  · rw [segment_true, if_pos ⟨rfl, hne⟩, hpart, flatten_slices] at hH
    exact hH

end Abreast

/-! ## A source that is read in part -/

theorem segment_append_one (t : UInt16) (c : Bytes) : ∀ (f : Bool) (cs : List Bytes),
    segment t false f (cs ++ [c]) =
      segment t false f cs ++ [(⟨PacketBuilder.nextKind (f && cs.isEmpty) false, t⟩, c)]
  | f, [] => by simp [segment]
  | f, c' :: cs => by simp [segment, segment_append_one t c false cs]

theorem openBehind_false (t : UInt16) (f : Bool) (cs : List Bytes) :
    openBehind t false f cs = some (t, f && cs.isEmpty) := by
  cases cs <;> simp [openBehind]

theorem isEmpty_chunks (d : Bytes) : (chunks maxPacketSize d).isEmpty = decide (d = []) := by
  by_cases hd : d = []
  · rw [hd]
    rfl
  · rw [chunks_cons maxPacketSize_pos hd]
    simp [hd]

namespace ReaderLoop

variable {R : Source ρ}

theorem Holds.start (p : PacketTx) (s : σ) (reader : ρ) :
    ReaderLoop.Holds { tx := p, cipher := s, source := reader,
                       buf := List.replicate maxPacketSize 0, filled := 0, sentAny := false } [] :=
  ⟨List.length_replicate, rfl, rfl, Nat.zero_le _, fun h => absurd rfl h⟩

variable (S R) in
/-- A `send_reader` in progress: `sent` went out in full packets, `w` waits in the buffer and
`rest` is still to come from the source. -/
structure Amid (p : PacketTx) (s : σ) (t : UInt16) (fin : Option IoError) (sent w rest : Bytes)
    (st : ReaderLoop σ ρ) : Prop where
  emits : Emits S p s st.tx st.cipher (segment t false true (chunks maxPacketSize sent))
  builder : BuilderIs (some (t, decide (sent = []))) st.tx.packetBuilder
  full : maxPacketSize ∣ sent.length
  holds : st.Holds w
  source : R.Delivers st.source rest fin

variable {p : PacketTx} {s : σ} {t : UInt16} {fin : Option IoError} {sent w rest : Bytes}
  {st st' : ReaderLoop σ ρ}

/-- A read that does not end the loop brings bytes. -/
theorem Amid.fill (h : st.Amid S R p s t fin sent w rest) (hlt : w.length < maxPacketSize)
    (hfill : st.fill T R = .inl st') :
    ∃ b rest', b ≠ [] ∧ b ++ rest' = rest ∧ st'.Amid S R p s t fin sent (w ++ b) rest' := by
  have hsrc := h.source
  generalize hsource : st.source = source at hsrc
  cases hsrc with
  | stop hstop =>
    obtain ⟨_, hend⟩ := h.holds.fill_stop (T := T) (R := R) hlt (by rw [hsource]; exact hstop)
    rw [hend] at hfill
    cases hfill
  | more hread hrest =>
    have hroom : 0 < maxPacketSize - w.length := by omega
    obtain ⟨b, hb, hne, rest', hpre⟩ := hread _ hroom
    have hnext := hrest _ b hroom hb
    rw [← hpre, List.drop_left] at hnext
    rw [← hsource] at hb hnext
    obtain ⟨st₁, hst, hholds, htx, hc, hs⟩ := h.holds.fill_more (T := T) hne hb
    rw [hst] at hfill
    cases hfill
    refine ⟨b, rest', hne, hpre, ?_, ?_, h.full, hholds, by rw [hs]; exact hnext⟩
    · rw [htx, hc]
      exact h.emits
    · rw [htx]
      exact h.builder

/-- A full buffer goes out. -/
theorem Amid.sendFull (h : st.Amid S R p s t fin sent w rest) (hfull : w.length = maxPacketSize) :
    ∃ tx₁ s₁, st.tx.sendPacket T st.cipher w false = (.ok (), tx₁, s₁) ∧
      ReaderLoop.Amid S R p s t fin (sent ++ w) [] rest
        { st with tx := tx₁, cipher := s₁, filled := 0 } := by
  obtain ⟨tx₁, s₁, hsend, hb₁, hE₁⟩ :=
    Emits.sendPacket S st.cipher h.emits.intact h.builder h.holds.fits false
  obtain ⟨k, hk⟩ := h.full
  rw [Nat.mul_comm] at hk
  have hne : w ≠ [] := by
    rintro rfl
    exact absurd hfull (Nat.ne_of_lt maxPacketSize_pos)
  have hchunks : chunks maxPacketSize (sent ++ w) = chunks maxPacketSize sent ++ [w] := by
    rw [chunks_append_of_dvd maxPacketSize_pos w k sent hk, chunks_short hne h.holds.fits]
  refine ⟨tx₁, s₁, hsend, ?_, ?_, ?_, h.holds.sent tx₁ s₁, h.source⟩
  · rw [hchunks, segment_append_one, isEmpty_chunks, Bool.true_and]
    exact h.emits.append hE₁
  · have hempty : ¬ (sent ++ w = []) := fun he => hne (List.append_eq_nil_iff.1 he).2
    rw [decide_eq_false hempty]
    exact hb₁
  · rw [List.length_append, hfull]
    exact Nat.dvd_add h.full (Nat.dvd_refl _)

/-- So does a turn. -/
theorem Amid.turn (h : st.Amid S R p s t fin sent w rest) (hturn : st.turn T R = .inl st') :
    ∃ sent' w' rest', sent' ++ (w' ++ rest') = sent ++ (w ++ rest) ∧ rest'.length < rest.length ∧
      st'.Amid S R p s t fin sent' w' rest' := by
  have hshort : ∀ {b rest' : Bytes}, b ≠ [] → b ++ rest' = rest → rest'.length < rest.length := by
    intro b rest' hne hb
    have := List.length_pos_iff.2 hne
    rw [← hb, List.length_append]
    omega
  by_cases hw : w.length < maxPacketSize
  · rw [h.holds.turn_room hw] at hturn
    obtain ⟨b, rest', hne, hb, ham⟩ := h.fill hw hturn
    exact ⟨sent, w ++ b, rest', by rw [List.append_assoc, hb], hshort hne hb, ham⟩
  · -- the buffer goes out first
    have hfull : w.length = maxPacketSize := Nat.le_antisymm h.holds.fits (Nat.not_lt.1 hw)
    obtain ⟨tx₁, s₁, hsend, ham⟩ := h.sendFull hfull
    rw [h.holds.turn_full hfull, hsend] at hturn
    obtain ⟨b, rest', hne', hb, ham'⟩ := ham.fill maxPacketSize_pos hturn
    exact ⟨sent ++ w, [] ++ b, rest', by rw [List.nil_append, hb, List.append_assoc],
      hshort hne' hb, ham'⟩

/-- The loop has read a byte in every turn that did not end it. -/
theorem Amid.run : ∀ (turns : Nat) {st : ReaderLoop σ ρ} {sent w rest : Bytes},
    st.Amid S R p s t fin sent w rest → Turns.run (ReaderLoop.turn T R) turns st = .inl st' →
    ∃ sent' w' rest', sent' ++ (w' ++ rest') = sent ++ (w ++ rest) ∧
      turns + rest'.length ≤ rest.length ∧ st'.Amid S R p s t fin sent' w' rest'
  | 0, st, sent, w, rest, h, hrun => by
    cases hrun
    exact ⟨sent, w, rest, rfl, by omega, h⟩
  | turns + 1, st, sent, w, rest, h, hrun => by
    simp only [Turns.run] at hrun
    cases hturn : st.turn T R with
    | inr b => simp [hturn] at hrun
    | inl st₁ =>
      simp only [hturn] at hrun
      obtain ⟨sent₁, w₁, rest₁, hall₁, hlt, ham₁⟩ := h.turn hturn
      obtain ⟨sent₂, w₂, rest₂, hall₂, hle, ham₂⟩ := Amid.run turns ham₁ hrun
      exact ⟨sent₂, w₂, rest₂, hall₂.trans hall₁, by omega, ham₂⟩

end ReaderLoop

/-- A `send_reader` that has not returned: full packets were sent, and the message is open. -/
theorem PacketTx.sendReader_left {R : Source ρ} {p : PacketTx} {s : σ} {t : UInt16} {turns : Nat}
    {reader : ρ} {d : Bytes} {fin : Option IoError} {st : ReaderLoop σ ρ}
    (hb : BuilderIs (some (t, true)) p.packetBuilder) (hw : p.write.broken = false)
    (hsrc : R.Delivers reader d fin) (h : p.sendReader T R turns s reader = .inl st) :
    ∃ sent w rest, sent ++ (w ++ rest) = d ∧ turns ≤ d.length ∧
      st.Amid S R p s t fin sent w rest := by
  have hstart : ReaderLoop.Amid S R p s t fin [] [] d
      { tx := p, cipher := s, source := reader, buf := List.replicate maxPacketSize 0, filled := 0,
        sentAny := false } :=
    ⟨.nil hw rfl, hb, Nat.dvd_zero _, .start p s reader, hsrc⟩
  obtain ⟨sent, w, rest, hall, hle, ham⟩ := hstart.run turns h
  exact ⟨sent, w, rest, hall, by omega, ham⟩

/-- The chunks of a source that was read to its end, and whether the last of them is sent as the
last of the message. -/
def streamChunks (d : Bytes) : Option IoError → List Bytes × Bool
  | none => if d = [] then ([[]], true) else (chunks maxPacketSize d, ¬ maxPacketSize ∣ d.length)
  | some _ => (chunks maxPacketSize (wholePackets d), false)

/-- What `send_reader` returns when its source has ended. -/
def streamResult : Option IoError → Res Unit
  | none => .ok ()
  | some e => .error (.error (.io e))

theorem length_streamChunks (d : Bytes) (fin : Option IoError) :
    ∀ c ∈ (streamChunks d fin).1, c.length ≤ maxPacketSize := by
  intro c hc
  unfold streamChunks at hc
  split at hc
  · split at hc
    · rw [List.mem_singleton.1 hc]
      exact Nat.zero_le _
    · exact length_le_of_mem_chunks maxPacketSize_pos _ hc
  · exact length_le_of_mem_chunks maxPacketSize_pos _ hc

theorem PacketTx.streamed_emits (S : TransportSpec T) {p : PacketTx} (s : σ) {t : UInt16}
    (hb : BuilderIs (some (t, true)) p.packetBuilder) (hw : p.write.broken = false) (d : Bytes)
    (fin : Option IoError) :
    ∃ tx' s', p.streamed T s false d fin = (streamResult fin, tx', s') ∧
      BuilderIs (openBehind t (streamChunks d fin).2 true (streamChunks d fin).1)
        tx'.packetBuilder ∧
      Emits S p s tx' s' (segment t (streamChunks d fin).2 true (streamChunks d fin).1) := by
  obtain ⟨tx', s', hsend, hb', hE⟩ := Emits.sendChunks S (streamChunks d fin).2 _ s hw hb
    (length_streamChunks d fin)
  refine ⟨tx', s', ?_, hb', hE⟩
  cases fin with
  | none =>
    by_cases hd : d = []
    · simp only [streamChunks, hd, ↓reduceIte, sendChunks, List.isEmpty_nil, Bool.and_true] at hsend
      simp only [streamed, hd, ↓reduceIte, Bool.false_eq_true]
      rcases hone : p.sendPacket T s [] true with ⟨r, tx₁, s₁⟩
      rw [hone] at hsend
      cases r with
      | error f => cases hsend
      | ok u => exact hsend
    · simp only [streamChunks, hd, ↓reduceIte] at hsend
      simp only [streamed, hd, ↓reduceIte]
      exact hsend
  | some e =>
    simp only [streamChunks] at hsend
    simp only [streamed, hsend]
    rfl

/-- A `send_reader` that has returned. -/
theorem PacketTx.sendReader_done {R : Source ρ} {p : PacketTx} {s : σ} {t : UInt16} {turns : Nat}
    {reader : ρ} {d : Bytes} {fin : Option IoError} {res : ReaderLoop.Result σ ρ}
    (hb : BuilderIs (some (t, true)) p.packetBuilder) (hw : p.write.broken = false)
    (hsrc : R.Delivers reader d fin) (h : p.sendReader T R turns s reader = .inr res) :
    ∃ tx' s' source, res = (streamResult fin, tx', s', source) ∧
      BuilderIs (openBehind t (streamChunks d fin).2 true (streamChunks d fin).1)
        tx'.packetBuilder ∧
      Emits S p s tx' s' (segment t (streamChunks d fin).2 true (streamChunks d fin).1) := by
  obtain ⟨tx', s', hst, hb', hE⟩ := PacketTx.streamed_emits S s hb hw d fin
  obtain ⟨source, hret⟩ := ReaderLoop.returns_streamed (T := T) hsrc
    (ReaderLoop.Holds.start p s reader) rfl
  have hres := hret.eq_of_run h
  rw [List.nil_append, hst] at hres
  exact ⟨tx', s', source, hres, hb', hE⟩

theorem wholePackets_eq_nil (d : Bytes) : wholePackets d = [] ↔ d.length < maxPacketSize := by
  rw [← List.length_eq_zero_iff, length_wholePackets, Nat.mul_eq_zero,
    Nat.div_eq_zero_iff_lt maxPacketSize_pos]
  exact or_iff_left (Nat.ne_of_gt maxPacketSize_pos)

/-- What an accepted `send_reader` comes to, in terms of its chunks. -/
theorem Told.say_stream {s : Told} {t : UInt16}
    (hall : ∀ accepted, s.opening t accepted = accepted) (d : Bytes) (fin : Option IoError) :
    s.say (.stream t d fin) =
      s.record (openBehind t (streamChunks d fin).2 true (streamChunks d fin).1)
        (some (streamResult fin))
        (if (streamChunks d fin).2 = true ∧ (streamChunks d fin).1 ≠ [] then
          [.got t (streamChunks d fin).1.flatten] else []) := by
  cases fin with
  | none =>
    by_cases hd : d = []
    · simp [say, hall, streamChunks, hd, openBehind, streamResult]
    · have hcs : chunks maxPacketSize d ≠ [] := by
        rw [chunks_cons maxPacketSize_pos hd]
        exact List.cons_ne_nil _ _
      by_cases hdvd : maxPacketSize ∣ d.length
      · simp [say, hall, streamChunks, hd, hdvd, openBehind_false, isEmpty_chunks, streamResult]
      · simp [say, hall, streamChunks, hd, hdvd, Abreast.openBehind_true hcs, hcs, streamResult,
          flatten_chunks maxPacketSize_pos]
  | some e =>
    simp [say, hall, streamChunks, openBehind_false, isEmpty_chunks, streamResult,
      wholePackets_eq_nil]

/-! ## One call is one saying -/

theorem Emits.grows {tx tx' : PacketTx} {s s' : σ} {ps : List Packet}
    (h : Emits S tx s tx' s' ps) : tx.write.written <+: tx'.write.written :=
  ⟨_, h.written.symm⟩

variable (S) in
/-- A sender whose calls came to `s`; a loop that has read all it wrote is at `h`. -/
structure Spoken (key : S.Key) (o : Outbox σ) (s : Told) (h : Hearing) : Prop where
  intact : o.tx.packets.write.broken = false
  builder : BuilderIs s.left o.tx.packets.packetBuilder
  abreast : Abreast s.left h
  sendKey : S.sendKey o.cipher = key
  sendNonce : S.sendNonce o.cipher = h.nonce
  results : o.results = s.results
  written : ∃ sent, o.tx.packets.write.written = S.frames key 0 sent ∧
    Hears .new sent h s.outcomes

namespace Spoken

variable {key : S.Key} {o : Outbox σ} {s : Told} {h : Hearing}

/-- A call that returns `r`, emits `ps` and leaves `left` open. -/
theorem record (hsp : Spoken S key o s h) (tx : MessageTx) {c : σ} {ps : List Packet}
    {left : OpenMessage} {h' : Hearing} {os : List Outcome} (r : Option (Res Unit))
    (hE : Emits S o.tx.packets o.cipher tx.packets c ps)
    (hB : BuilderIs left tx.packets.packetBuilder) (hA : Abreast left h')
    (hH : Hears h ps h' os) :
    Spoken S key (o.record r tx c) (s.record left r os) h' where
  intact := hE.intact
  builder := hB
  abreast := hA
  sendKey := hE.sendKey.trans hsp.sendKey
  sendNonce := by
    show S.sendNonce c = h'.nonce
    rw [hE.sendNonce, hsp.sendNonce, hH.nonce]
  results := congrArg (· ++ [r]) hsp.results
  written := by
    obtain ⟨sent, hw, hsent⟩ := hsp.written
    refine ⟨sent ++ ps, ?_, hsent.append hH⟩
    have hn : h.nonce = 0 + sent.length := hsent.nonce
    show tx.packets.write.written = _
    rw [hE.written, hsp.sendKey, hsp.sendNonce, hw, S.frames_append, hn]

variable (S) in
/-- A call came to one of the sayings with `Q`. -/
def Goes (Q : Saying → Prop) (key : S.Key) (o o' : Outbox σ) (s : Told) : Prop :=
  ∃ saying h', Q saying ∧ Spoken S key o' (s.say saying) h' ∧
    SameRecv S o.cipher o'.cipher ∧
    o.tx.packets.write.written <+: o'.tx.packets.write.written

theorem Goes.imp {Q Q' : Saying → Prop} {o' : Outbox σ} (h : Goes S Q key o o' s)
    (hQ : ∀ saying, Q saying → Q' saying) : Goes S Q' key o o' s := by
  obtain ⟨saying, h', hq, hrest⟩ := h
  exact ⟨saying, h', hQ saying hq, hrest⟩

variable {R : Source ρ} {t : UInt16}

/-- A call that opens a message is refused and changes nothing, or the message is open. -/
theorem prepares (hsp : Spoken S key o s h) (t : UInt16) :
    (∃ r, o.tx.packets.prepareMessage t = (.error r, o.tx.packets) ∧
      ∀ accepted,
        Spoken S key (o.record (some (.error r)) o.tx o.cipher) (s.opening t accepted) h) ∨
    ∃ p, o.tx.packets.prepareMessage t = (.ok (), p) ∧ t ≤ typeMask ∧ s.left = none ∧
      p.write = o.tx.packets.write ∧ BuilderIs (some (t, true)) p.packetBuilder ∧
      Abreast (some (t, true)) h ∧ ∀ accepted, s.opening t accepted = accepted := by
  have hstay (r : Fault) : Spoken S key (o.record (some (.error r)) o.tx o.cipher)
      (s.record s.left (some (.error r)) []) h :=
    hsp.record _ _ (.nil hsp.intact rfl) hsp.builder hsp.abreast (.nil h)
  have hb := hsp.builder
  by_cases ht : t > typeMask
  · left
    refine ⟨.error (.packetBuilder (.messageTypeTooLarge t)), ?_, fun accepted => ?_⟩
    · simp only [PacketTx.prepareMessage, PacketBuilder.prepare, ht, ↓reduceIte]
    · simp only [Told.opening, ht, ↓reduceIte]
      exact hstay _
  · have hle : t ≤ typeMask := UInt16.not_lt.mp ht
    generalize hleft : s.left = left at hb
    cases hb with
    | opened hp hf hm hty =>
      left
      refine ⟨.error (.packetBuilder .messageAlreadyInProgress), ?_, fun accepted => ?_⟩
      · simp only [PacketTx.prepareMessage, PacketBuilder.prepare, ht, hp, ↓reduceIte]
      · have hne : ¬ s.left = none := by
          rw [hleft]
          exact Option.some_ne_none _
        simp only [Told.opening, ht, hne, ↓reduceIte]
        exact hstay _
    | idle hp =>
      right
      obtain ⟨p, hprep, hw, hopen⟩ := MessageTx.prepare_idle (BuilderIs.idle hp) hle
      refine ⟨p, hprep, hle, rfl, hw, hopen, ?_, fun accepted => ?_⟩
      · have ha := hsp.abreast
        rw [hleft] at ha
        cases ha with
        | idle hrd hear => exact .opened hrd hear
      · simp only [Told.opening, ht, hleft, ↓reduceIte]

theorem sendMessage (hsp : Spoken S key o s h) (t : UInt16) (payload : Bytes) :
    Goes S (TxCall.Says R (.sendMessage t payload)) key o
      (o.call T R (.sendMessage t payload)) s := by
  rcases hsp.prepares t with ⟨r, hprep, hall⟩ | ⟨p, hprep, ht, hleft, hw, hopen, ha, hall⟩
  · refine ⟨_, h, .message t payload, ?_, ?_⟩
    · simp only [Outbox.call, MessageTx.sendMessage, hprep]
      exact hall _
    · simp only [Outbox.call, MessageTx.sendMessage, hprep]
      exact ⟨.refl S _, List.prefix_rfl⟩
  · have hidle := hsp.builder
    rw [hleft] at hidle
    obtain ⟨tx', s', hsend, hb', hE⟩ :=
      MessageTx.sendMessage_emits S o.cipher hidle hsp.intact ht payload
    obtain ⟨h', ha', hH⟩ := ha.hears_message ht payload
    refine ⟨_, h', .message t payload, ?_, ?_⟩
    · simp only [Outbox.call, hsend, Told.say, hall]
      exact hsp.record _ _ hE hb' ha' hH
    · simp only [Outbox.call, hsend]
      exact ⟨hE.recv, hE.grows⟩

/-- A future that has sent `sent` in full packets is dropped. -/
theorem dropped (hsp : Spoken S key o s h) (ha : Abreast (some (t, true)) h) (ht : t ≤ typeMask)
    (hall : ∀ accepted, s.opening t accepted = accepted) {sent : Bytes} {p : PacketTx} {c : σ}
    (hE : Emits S o.tx.packets o.cipher p c (segment t false true (chunks maxPacketSize sent)))
    (hb : BuilderIs (some (t, decide (sent = []))) p.packetBuilder) :
    ∃ h', Spoken S key (o.record none ⟨p⟩ c) (s.say (.dropped t sent)) h' := by
  obtain ⟨h', ha', hH⟩ := ha.hears_segment ht false (chunks maxPacketSize sent)
    fun c hc => length_le_of_mem_chunks maxPacketSize_pos _ hc
  rw [openBehind_false, isEmpty_chunks, Bool.true_and] at ha'
  refine ⟨h', ?_⟩
  simp only [Told.say, hall]
  exact hsp.record ⟨p⟩ _ hE hb ha' (by simpa using hH)

theorem sendReader (hsp : Spoken S key o s h) (t : UInt16) {reader : ρ} (turns : Nat)
    {d : Bytes} {fin : Option IoError} (hsrc : R.Delivers reader d fin) :
    Goes S (TxCall.Says R (.sendReader t reader turns)) key o
      (o.call T R (.sendReader t reader turns)) s := by
  rcases hsp.prepares t with ⟨r, hprep, hall⟩ | ⟨p, hprep, ht, hleft, hw, hopen, ha, hall⟩
  · refine ⟨_, h, .stream hsrc, ?_, ?_⟩
    · simp only [Outbox.call, MessageTx.sendReader, hprep]
      cases fin <;> exact hall _
    · simp only [Outbox.call, MessageTx.sendReader, hprep]
      exact ⟨.refl S _, List.prefix_rfl⟩
  · have hintact : p.write.broken = false := by
      rw [hw]
      exact hsp.intact
    cases hrun : p.sendReader T R turns o.cipher reader with
    | inl st =>
      obtain ⟨sent, w, rest, hd, hturns, ham⟩ :=
        PacketTx.sendReader_left (S := S) hopen hintact hsrc hrun
      obtain ⟨h', hspoken⟩ := hsp.dropped ha ht hall (ham.emits.of_write hw) ham.builder
      refine ⟨_, h', .dropped hsrc ⟨w ++ rest, hd⟩ ham.full hturns, ?_, ?_⟩
      · simp only [Outbox.call, MessageTx.sendReader, hprep, hrun]
        exact hspoken
      · simp only [Outbox.call, MessageTx.sendReader, hprep, hrun]
        exact ⟨ham.emits.recv, (ham.emits.of_write hw).grows⟩
    | inr res =>
      obtain ⟨tx', s', source, rfl, hb', hE⟩ :=
        PacketTx.sendReader_done (S := S) hopen hintact hsrc hrun
      obtain ⟨h', ha', hH⟩ := ha.hears_segment ht (streamChunks d fin).2 _
        (length_streamChunks d fin)
      rw [ha.part_opened, List.nil_append] at hH
      refine ⟨_, h', .stream hsrc, ?_, ?_⟩
      · rw [Told.say_stream hall]
        simp only [Outbox.call, MessageTx.sendReader, hprep, hrun]
        exact hsp.record ⟨tx'⟩ _ (hE.of_write hw) hb' ha' hH
      · simp only [Outbox.call, MessageTx.sendReader, hprep, hrun]
        exact ⟨hE.recv, (hE.of_write hw).grows⟩

theorem abortMessage (hsp : Spoken S key o s h) :
    Goes S (TxCall.Says R .abortMessage) key o (o.call T R .abortMessage) s := by
  have hb := hsp.builder
  have ha := hsp.abreast
  generalize hleft : s.left = left at hb ha
  cases hb with
  | idle hp =>
    have habort : o.tx.abortMessage T o.cipher = (.ok (), o.tx, o.cipher) := by
      simp [MessageTx.abortMessage, PacketTx.abortMessage, PacketBuilder.abort, hp]
    refine ⟨_, h, .abort, ?_, ?_⟩
    · simp only [Outbox.call, habort, Told.say, Told.closing, hleft]
      exact hsp.record _ _ (.nil hsp.intact rfl) (.idle hp) ha (.nil h)
    · simp only [Outbox.call, habort]
      exact ⟨.refl S _, List.prefix_rfl⟩
  | @opened _ t f hp hf hm ht =>
    obtain ⟨tx', s', habort, hb', hE⟩ :=
      Emits.abortMessage S o.cipher hsp.intact (.opened hp hf hm ht)
    obtain ⟨h', hH, ha'⟩ := ha.hears_abort ht
    refine ⟨_, h', .abort, ?_, ?_⟩
    · simp only [Outbox.call, MessageTx.abortMessage, habort, Told.say, Told.closing, hleft]
      cases f with
      | true => exact hsp.record ⟨tx'⟩ _ hE hb' ha' hH
      | false => exact hsp.record ⟨tx'⟩ _ hE hb' ha' hH
    · simp only [Outbox.call, MessageTx.abortMessage, habort]
      exact ⟨hE.recv, hE.grows⟩

end Spoken

/-- The source of the call comes to an end, after whatever it delivers. -/
def TxCall.Finite (R : Source ρ) : TxCall ρ → Prop
  | .sendReader _ reader _ => ∃ d fin, R.Delivers reader d fin
  | _ => True

namespace Spoken

variable {key : S.Key} {o : Outbox σ} {s : Told} {h : Hearing}

theorem call (hsp : Spoken S key o s h) (R : Source ρ) {c : TxCall ρ}
    (hc : c.Finite R) : Goes S (c.Says R) key o (o.call T R c) s := by
  cases c with
  | sendMessage t payload => exact hsp.sendMessage t payload
  | sendReader t reader turns =>
    obtain ⟨d, fin, hsrc⟩ := hc
    exact hsp.sendReader t turns hsrc
  | abortMessage => exact hsp.abortMessage

/-- The receiving half uses the cipher state too. -/
theorem set_cipher (hsp : Spoken S key o s h) {c : σ} (hs : SameSend S o.cipher c) :
    Spoken S key { o with cipher := c } s h :=
  { hsp with
    sendKey := hs.1.trans hsp.sendKey
    sendNonce := hs.2.trans hsp.sendNonce }

end Spoken

/-! ## The calls of a party -/

/-- A party fresh from the handshake. -/
structure Talker.Fresh (S : TransportSpec T) (calls : List (TxCall ρ)) (e : Talker σ ρ) :
    Prop where
  todo : e.todo = calls
  results : e.results = []
  builder : e.tx.packets.packetBuilder = .new
  write : e.tx.packets.write = ⟨[], false⟩
  receiver : ∃ rx, e.receiver = .new (.new rx) e.receiver.cipher ∧ rx.packetReader = .new ∧
    rx.read = ⟨[], false⟩
  sendNonce : S.sendNonce e.receiver.cipher = 0
  recvNonce : S.recvNonce e.receiver.cipher = 0

namespace Talker

variable (S) in
/-- The calls so far came to `sayings`, each to one with `Q`. -/
structure Said (Q : TxCall ρ → Saying → Prop) (calls : List (TxCall ρ)) (key : S.Key)
    (sayings : List Saying) (e : Talker σ ρ) : Prop where
  made : ∃ made, made ++ e.todo = calls ∧ List.Forall₂ Q made sayings
  spoken : ∃ h, Spoken S key e.outbox (Lts.run Told.say .start sayings) h

variable {R : Source ρ} {Q : TxCall ρ → Saying → Prop} {calls : List (TxCall ρ)} {key : S.Key}
  {sayings : List Saying} {e : Talker σ ρ}

theorem Fresh.said (h : e.Fresh S calls) :
    e.Said S Q calls (S.sendKey e.receiver.cipher) [] where
  made := ⟨[], h.todo, .nil⟩
  spoken := ⟨.new, {
    intact := congrArg WriteHalf.broken h.write
    builder := .idle (congrArg PacketBuilder.inProgress h.builder)
    abreast := .idle rfl rfl
    sendKey := rfl
    sendNonce := h.sendNonce
    results := h.results
    written := ⟨[], congrArg WriteHalf.written h.write, .nil _⟩ }⟩

/-- The next call. -/
theorem Said.next (h : e.Said S Q calls key sayings) {c : TxCall ρ} {todo : List (TxCall ρ)}
    (htodo : e.todo = c :: todo) {o : Outbox σ}
    (hgoes : ∀ {s hh}, Spoken S key e.outbox s hh → Spoken.Goes S (Q c) key e.outbox o s) :
    ∃ sayings', Said S Q calls key sayings'
        { todo, tx := o.tx, results := o.results,
          receiver := { e.receiver with cipher := o.cipher } } ∧
      SameRecv S e.receiver.cipher o.cipher ∧
      e.tx.packets.write.written <+: o.tx.packets.write.written := by
  obtain ⟨made, hmade, hsays⟩ := h.made
  obtain ⟨hh, hspoken⟩ := h.spoken
  obtain ⟨saying, h', hsay, hnext, hrecv, hgrow⟩ := hgoes hspoken
  refine ⟨sayings ++ [saying], ⟨⟨made ++ [c], ?_, ?_⟩, h', ?_⟩, hrecv, hgrow⟩
  · rw [← hmade, htodo, List.append_assoc]
    rfl
  · exact List.rel_append hsays (.cons hsay .nil)
  · rw [Lts.run_append]
    exact hnext

theorem Said.finite (hfin : ∀ c ∈ calls, c.Finite R) (h : e.Said S Q calls key sayings)
    {c : TxCall ρ} {todo : List (TxCall ρ)} (htodo : e.todo = c :: todo) : c.Finite R := by
  obtain ⟨made, hmade, -⟩ := h.made
  apply hfin
  rw [← hmade, htodo]
  simp

/-- The next call leaves the receive direction of the cipher to the receiver. -/
theorem Said.call (hQ : ∀ c saying, c.Says R saying → Q c saying)
    (hfin : ∀ c ∈ calls, c.Finite R) (h : e.Said S Q calls key sayings) :
    ∃ sayings' s, (e.call T R).Said S Q calls key sayings' ∧
      (e.call T R).receiver = { e.receiver with cipher := s } ∧ SameRecv S e.receiver.cipher s ∧
      e.tx.packets.write.written <+: (e.call T R).tx.packets.write.written := by
  cases htodo : e.todo with
  | nil =>
    have hcall : e.call T R = e := by simp only [Talker.call, htodo]
    rw [hcall]
    exact ⟨sayings, _, h, rfl, .refl S _, List.prefix_rfl⟩
  | cons c todo =>
    obtain ⟨sayings', hsaid, hrecv, hgrow⟩ := h.next htodo fun hsp =>
      (hsp.call R (h.finite hfin htodo)).imp (hQ c)
    simp only [Talker.call, htodo]
    exact ⟨sayings', _, hsaid, rfl, hrecv, hgrow⟩

/-- The receiving half works on. -/
theorem Said.set_receiver (h : e.Said S Q calls key sayings) {r : Receiver σ}
    (hs : SameSend S e.receiver.cipher r.cipher) :
    Talker.Said S Q calls key sayings { e with receiver := r } := by
  obtain ⟨hh, hspoken⟩ := h.spoken
  exact ⟨h.made, hh, hspoken.set_cipher hs⟩

end Talker

/-! ## Two parties -/

namespace Talk

variable (S) in
/-- The calls of `x` so far came to `sayings`, and the other party listens to what has arrived. -/
structure Tells (R : Source ρ) (calls : List (TxCall ρ)) (key : S.Key) (x : Side)
    (sayings : List Saying) (d : Talk σ ρ) : Prop where
  said : (d.at_ x).Said S (TxCall.Says R) calls key sayings
  moved : d.moved x ≤ (d.written x).length
  listens : Listening S key ((d.written x).take (d.moved x)) (d.at_ x.other).receiver

variable {d d' : Talk σ ρ} {x : Side}

variable {R : Source ρ} {calls : List (TxCall ρ)} {key : S.Key} {sayings : List Saying}

/-- The next call of `x`. -/
theorem Tells.call_self (hfin : ∀ c ∈ calls, c.Finite R) (h : d.Tells S R calls key x sayings) :
    ∃ sayings', (d.step T R (.call x)).Tells S R calls key x sayings' := by
  have hself : (d.step T R (.call x)).at_ x = (d.at_ x).call T R := Ends.set_self ..
  have hother : ((d.step T R (.call x)).at_ x.other) = d.at_ x.other := Ends.set_other ..
  obtain ⟨sayings', s, hsaid, -, -, hgrow⟩ := h.said.call (T := T) (fun _ _ hs => hs) hfin
  obtain ⟨rest, hw⟩ : d.written x <+: (d.step T R (.call x)).written x := by
    rw [Ends.written, Ends.written, hself]
    exact hgrow
  have hmoved : d.moved x ≤ (d.written x).length := h.moved
  refine ⟨sayings', by rw [hself]; exact hsaid, ?_, ?_⟩
  · rw [← hw, List.length_append]
    exact Nat.le_add_right_of_le hmoved
  · rw [← hw, hother]
    show Listening S key ((d.written x ++ rest).take (d.moved x)) _
    rw [List.take_append_of_le_length hmoved]
    exact h.listens

/-- A step after which `x` has the calls and the sender it had, and the other party the bytes. -/
theorem Tells.of_moves (h : d.Tells S R calls key x sayings) {r : Receiver σ}
    (hx : d'.at_ x = { d.at_ x with receiver := r })
    (hsend : SameSend S (d.at_ x).receiver.cipher r.cipher) (hmoved : d'.moved x = d.moved x)
    (hlisten : ∀ bytes, Listening S key bytes (d.at_ x.other).receiver →
      Listening S key bytes (d'.at_ x.other).receiver) : d'.Tells S R calls key x sayings := by
  have hw : d'.written x = d.written x := by
    rw [Ends.written, hx, Ends.written]
    rfl
  refine ⟨by rw [hx]; exact h.said.set_receiver hsend, ?_, ?_⟩
  · rw [hw, hmoved]
    exact h.moved
  · rw [hw, hmoved]
    exact hlisten _ h.listens

/-- More bytes of `x` arrive. -/
theorem Tells.deliver_self (h : d.Tells S R calls key x sayings) (n : Nat) :
    (d.step T R (.deliver x n)).Tells S R calls key x sayings := by
  refine ⟨?_, Ends.moved_deliver_le h.moved n, ?_⟩
  · rw [step, Ends.at_deliver_self]
    exact h.said
  · rw [step, Ends.deliver_written, Ends.take_moved_deliver, Ends.at_deliver_other]
    exact h.listens.arrive_listening (T := T) _

theorem Tells.step {calls : Side → List (TxCall ρ)} {key : Side → S.Key}
    (hfin : ∀ x, ∀ c ∈ calls x, c.Finite R)
    (h : ∀ x, ∃ sayings, d.Tells S R (calls x) (key x) x sayings) (a : TalkAct) (x : Side) :
    ∃ sayings, (d.step T R a).Tells S R (calls x) (key x) x sayings := by
  obtain ⟨sayings, hx⟩ := h x
  have hrefl := SameSend.refl S (d.at_ x).receiver.cipher
  cases a with
  | call y =>
    by_cases hy : y = x
    · subst hy
      exact hx.call_self (hfin y)
    · obtain rfl := Side.eq_other_of_ne hy
      have hself : (d.step T R (.call x.other)).at_ x = d.at_ x := Ends.set_ne _ _ x.ne_other
      obtain ⟨_, hother⟩ := h x.other
      obtain ⟨-, s, -, hs, hrecv, -⟩ := hother.said.call (T := T) (fun _ _ hs => hs) (hfin _)
      refine ⟨sayings, hx.of_moves hself hrefl rfl fun bytes hl => ?_⟩
      simp only [Talk.step, Ends.set_self, hs]
      exact hl.set_cipher_listening hrecv
  | deliver y n =>
    by_cases hy : y = x
    · subst hy
      exact ⟨sayings, hx.deliver_self n⟩
    · -- bytes of the other party: only the buffer of `x` changes
      obtain rfl := Side.eq_other_of_ne hy
      have hself : (d.step T R (.deliver x.other n)).at_ x = { d.at_ x with
          receiver := (d.at_ x).receiver.act T (.arrive ((d.inFlight x.other).take n)) } := by
        have harrive := d.at_deliver_other x.other n
        rw [Side.other_other] at harrive
        exact harrive
      have hother : (d.step T R (.deliver x.other n)).at_ x.other = d.at_ x.other :=
        Ends.at_deliver_self ..
      refine ⟨sayings, hx.of_moves hself hrefl ?_ fun bytes hl => by rw [hother]; exact hl⟩
      rw [Talk.step, Ends.moved_deliver, if_neg x.ne_other]
  | recv y drain =>
    by_cases hy : y = x
    · subst hy
      have hself : (d.step T R (.recv y drain)).at_ y = { d.at_ y with
          receiver := (d.at_ y).receiver.loop T drain } := Ends.set_self ..
      have hother : (d.step T R (.recv y drain)).at_ y.other = d.at_ y.other := Ends.set_other ..
      exact ⟨sayings, hx.of_moves hself (((d.at_ y).receiver.loop_follows drain).sameSend S) rfl
        fun bytes hl => by rw [hother]; exact hl⟩
    · obtain rfl := Side.eq_other_of_ne hy
      have hself : (d.step T R (.recv x.other drain)).at_ x = d.at_ x :=
        Ends.set_ne _ _ x.ne_other
      refine ⟨sayings, hx.of_moves hself hrefl rfl fun bytes hl => ?_⟩
      simp only [Talk.step, Ends.set_self]
      exact (hl.loop_turn drain).1

end Talk

/-- Two connected parties: each sends with the key the other receives with. -/
structure Talk.Connected (S : TransportSpec T) (calls : Side → List (TxCall ρ)) (d : Talk σ ρ) :
    Prop where
  fresh : ∀ x, (d.at_ x).Fresh S (calls x)
  keys : ∀ x, S.recvKey (d.at_ x.other).receiver.cipher = S.sendKey (d.at_ x).receiver.cipher
  moved : ∀ x, d.moved x = 0

namespace Talk

variable {d : Talk σ ρ} {R : Source ρ} {calls : Side → List (TxCall ρ)}

theorem Connected.tells (h : d.Connected S calls) (x : Side) :
    d.Tells S R (calls x) (S.sendKey (d.at_ x).receiver.cipher) x [] := by
  obtain ⟨rx, hr, hrd, hread⟩ := (h.fresh x.other).receiver
  have hw : d.written x = [] := congrArg WriteHalf.written (h.fresh x).write
  refine ⟨(h.fresh x).said, ?_, ?_⟩
  · rw [h.moved]
    exact Nat.zero_le _
  · rw [hw, List.take_nil, ← h.keys]
    exact .fresh hr hrd hread (h.fresh x.other).recvNonce

/-- All that was written means what was told. -/
theorem Tells.meaning {calls : List (TxCall ρ)} {key : S.Key} {x : Side} {sayings : List Saying}
    (hS : S.Correct) (h : d.Tells S R calls key x sayings) :
    S.meaning key .new (d.written x) = (Lts.run Told.say .start sayings).outcomes := by
  obtain ⟨hh, hspoken⟩ := h.said.spoken
  obtain ⟨sent, hw, hsent⟩ := hspoken.written
  have hall := hsent.meaning hS key []
  have hnil : S.meaning key hh [] = [] := rfl
  rw [List.append_nil, hnil, List.append_nil] at hall
  exact (congrArg (S.meaning key .new) hw).trans hall

theorem Tells.heard {calls : List (TxCall ρ)} {key : S.Key} {x : Side} {sayings : List Saying}
    (hS : S.Correct) (h : d.Tells S R calls key x sayings) :
    (d.at_ x.other).receiver.heard <+: (Lts.run Told.say .start sayings).outcomes := by
  have hseen := h.listens.seen_more ((d.written x).drop (d.moved x))
  rw [List.take_append_drop, h.meaning hS] at hseen
  exact hseen

/-- The turns of a receiver, taken at its party. -/
theorem recvs (x : Side) (drains : List Bool) (d : Talk σ ρ) :
    ((Lts.run (Talk.step T R) d (drains.map (.recv x))).at_ x).receiver =
      Lts.run (Receiver.loop T) (d.at_ x).receiver drains :=
  Lts.run_view (f := fun d : Talk σ ρ => (d.at_ x).receiver)
    (fun d _ => congrArg Talker.receiver (d.set_self x _)) drains d

/-- When all has arrived, enough turns show all that was told. -/
theorem Tells.completes {calls : List (TxCall ρ)} {key : S.Key} {x : Side} {sayings : List Saying}
    (hS : S.Correct) (h : d.Tells S R calls key x sayings) :
    ∃ m n, ∀ drains : List Bool, n ≤ drains.length →
      ((Lts.run (Talk.step T R) d (.deliver x m :: drains.map (.recv x.other))).at_
          x.other).receiver.heard =
        (Lts.run Told.say .start sayings).outcomes := by
  have hall := h.deliver_self (T := T) (d.written x).length
  have harrived : (d.step T R (.deliver x (d.written x).length)).moved x =
      (d.written x).length := by
    have hle := h.moved
    rw [Talk.step, Ends.moved_deliver_self, List.length_take, Ends.inFlight, List.length_drop]
    omega
  have hlisten := hall.listens
  have hmeaning := hall.meaning hS
  rw [harrived, Talk.step, Ends.deliver_written, List.take_length] at hlisten
  rw [Talk.step, Ends.deliver_written] at hmeaning
  refine ⟨(d.written x).length,
    ((d.step T R (.deliver x (d.written x).length)).at_ x.other).receiver.ahead,
    fun drains hn => ?_⟩
  rw [Lts.run_cons, recvs, ← hmeaning]
  exact hlisten.loops drains hn

end Talk

/-- Whatever two parties call and however their steps interleave: what the calls returned, and what
the other party sees, is as the calls tell it, in order, and all of it in the end. -/
theorem calls_told (hS : S.Correct) (R : Source ρ) {calls : Side → List (TxCall ρ)}
    (hfin : ∀ x, ∀ c ∈ calls x, c.Finite R) {d₀ : Talk σ ρ} (hd : d₀.Connected S calls)
    (acts : List TalkAct) (x : Side) :
    let d := Lts.run (Talk.step T R) d₀ acts
    ∃ made sayings, made ++ (d.at_ x).todo = calls x ∧
      List.Forall₂ (TxCall.Says R) made sayings ∧
      (d.at_ x).results = (Lts.run Told.say .start sayings).results ∧
      (d.at_ x.other).receiver.heard <+: (Lts.run Told.say .start sayings).outcomes ∧
      ∃ m n, ∀ drains : List Bool, n ≤ drains.length →
        ((Lts.run (Talk.step T R) d (.deliver x m :: drains.map (.recv x.other))).at_
            x.other).receiver.heard =
          (Lts.run Told.say .start sayings).outcomes := by
  intro d
  have hinv : ∀ y, ∃ sayings, d.Tells S R (calls y) (S.sendKey (d₀.at_ y).receiver.cipher) y
      sayings :=
    Lts.run_inv (I := fun d : Talk σ ρ => ∀ y, ∃ sayings,
        d.Tells S R (calls y) (S.sendKey (d₀.at_ y).receiver.cipher) y sayings)
      (fun _ a h => Talk.Tells.step hfin h a) acts fun y => ⟨[], hd.tells y⟩
  obtain ⟨sayings, h⟩ := hinv x
  obtain ⟨made, hmade, hsays⟩ := h.said.made
  obtain ⟨_, hspoken⟩ := h.said.spoken
  exact ⟨made, sayings, hmade, hsays, hspoken.results, h.heard hS, h.completes hS⟩

/-- A message, a source that fails in its first packet, a refused message and an abort. -/
def Tagged.someTxCalls : Side → List (TxCall (List Bytes × Option IoError))
  | .left => [.sendMessage 3 [1], .sendReader 5 ([[7], [8, 9]], some .brokenPipe) 9,
      .sendMessage 4 [2], .abortMessage]
  | .right => [.sendReader 6 ([[1, 2]], none) 1]

/-- The two parties, before their first calls. -/
def Tagged.talk : Talk TaggedState (List Bytes × Option IoError) where
  at_ x := match x with
    | .left => ⟨someTxCalls .left, .fresh, [], .new (.new .fresh) ⟨1, 2, 0, 0⟩⟩
    | .right => ⟨someTxCalls .right, .fresh, [], .new (.new .fresh) ⟨2, 1, 0, 0⟩⟩
  moved _ := 0

theorem Tagged.talk_connected : talk.Connected spec someTxCalls where
  fresh x := by
    cases x <;> exact ⟨rfl, rfl, rfl, rfl, ⟨_, rfl, rfl, rfl⟩, rfl, rfl⟩
  keys x := by cases x <;> rfl
  moved _ := rfl

theorem Tagged.someTxCalls_finite (x : Side) :
    ∀ c ∈ someTxCalls x, c.Finite Source.pieces := by
  cases x with
  | left =>
    intro c hc
    simp only [someTxCalls, List.mem_cons, List.not_mem_nil, or_false] at hc
    rcases hc with rfl | rfl | rfl | rfl
    · trivial
    · exact ⟨_, _, Source.pieces_delivers _ _ (by decide)⟩
    · trivial
    · trivial
  | right =>
    intro c hc
    rw [List.mem_singleton.1 hc]
    exact ⟨_, _, Source.pieces_delivers _ _ (by decide)⟩

theorem calls_told_someTxCalls :
    ∃ made sayings, made ++ ((Lts.run (Talk.step Tagged.transport Source.pieces) Tagged.talk
        [.call .left, .call .right, .call .left, .deliver .left 30, .recv .right true,
          .call .left, .call .left]).at_ .left).todo = Tagged.someTxCalls .left ∧
      List.Forall₂ (TxCall.Says Source.pieces) made sayings ∧
      ((Lts.run (Talk.step Tagged.transport Source.pieces) Tagged.talk
        [.call .left, .call .right, .call .left, .deliver .left 30, .recv .right true,
          .call .left, .call .left]).at_ .left).results =
        (Lts.run Told.say .start sayings).results := by
  obtain ⟨made, sayings, hmade, hsays, hres, -⟩ :=
    calls_told (S := Tagged.spec) Tagged.decrypt_encrypt Source.pieces Tagged.someTxCalls_finite
      Tagged.talk_connected
      [.call .left, .call .right, .call .left, .deliver .left 30, .recv .right true,
        .call .left, .call .left] .left
  exact ⟨made, sayings, hmade, hsays, hres⟩

end Snowpack
