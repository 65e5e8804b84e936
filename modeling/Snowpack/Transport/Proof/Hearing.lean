import Snowpack.Transport.Proof.Buffers
import Snowpack.Transport.Proof.Tamper

/-!
# What a stream means to the receiving loop

The loop reads frame after frame until it has to wait. `Ear` is all it carries from one frame to
the next besides the reader and the nonce, and `Ear.hear` what a frame does to it; `meaning` is
what the loop makes of a whole stream of bytes. None of them knows of futures, of buffers, of the
pieces in which the bytes arrive or of the way in which a message is read.

`Listening` ties a receiver to it: what it has seen, followed by what the bytes in its buffer and
any later ones mean, is what all the bytes mean. Arriving bytes, turns of the loop and the other
half of the connection keep it (`arrive_listening`, `loop_turn`, `set_cipher_listening`), so the
outcomes depend on the bytes alone (`bytes_decide`), and at the end of a stream on those that came
before it (`cut_stream`).
-/

namespace Snowpack

open Wire

variable {σ : Type} {T : TransportOps σ} {S : TransportSpec T}

/-- Errors of the cipher are not told apart. -/
def Outcome.blur : Outcome → Outcome
  | .failed e => .failed e.blur
  | o => o

/-- What a loop has seen. -/
def Receiver.heard (r : Receiver σ) : List Outcome := (observe r.events).outcomes.map Outcome.blur

/-! ## The meaning of bytes -/

/-- Where the loop is between two frames. -/
inductive Ear
  | idle
  /-- in a message of which `part` has been read -/
  | inside (msgType : UInt16) (part : Bytes)
  | dead
  deriving DecidableEq, Repr

namespace Ear

/-- What the loop does with the next frame. A message that is read from its middle on, after an
error in it, ends in a panic when its last packet was the one it was opened with. -/
def hear : Ear → Found → Ear × List Outcome
  | .dead, _ => (.dead, [])
  | .idle, .packet raw =>
    if (headerOf raw).kind = .sole then (.idle, [.got (headerOf raw).msgType (raw.drop 2)])
    else (.inside (headerOf raw).msgType (raw.drop 2), [])
  | .inside t part, .packet raw =>
    match (headerOf raw).kind with
    | .abort => (.idle, [.aborted t])
    | .last => (.idle, [.got t (part ++ raw.drop 2)])
    | .mid => (.inside t (part ++ raw.drop 2), [])
    | .sole | .first => (.dead, [.panicked])
  | _, .io e => (.idle, [.failed (.io e)])
  | _, .noise => (.idle, [.failed (.noise .decrypt)])
  | _, .refused e => (.idle, [.failed (.packet e)])

end Ear

/-- The loop with the receive direction it reads from. -/
structure Hearing where
  reader : PacketReader
  nonce : Nat
  ear : Ear
  deriving DecidableEq, Repr

/-- Before the first frame. -/
def Hearing.new : Hearing := ⟨.new, 0, .idle⟩

namespace TransportSpec

/-- What is made of the next `n` frames, or of those before the loop has to wait. -/
def listen (S : TransportSpec T) (key : S.Key) : Nat → Hearing → ReadHalf → List Outcome
  | 0, _, _ => []
  | n + 1, h, stream =>
    match S.find key h.nonce h.reader stream with
    | .pending => []
    | .ready (found, reader, rest, nonce) =>
      (h.ear.hear found).2 ++ listen S key n ⟨reader, nonce, (h.ear.hear found).1⟩ rest

/-- What the loop makes of `bytes`; a frame takes two bytes at least. -/
def meaning (S : TransportSpec T) (key : S.Key) (h : Hearing) (bytes : Bytes) : List Outcome :=
  S.listen key bytes.length h ⟨bytes, false⟩

/-! ### Bytes behind a frame do not matter to it -/

theorem readFrame_more {buf dst c : Bytes} {read : ReadHalf}
    (h : readFrame ⟨buf, false⟩ dst = .ready (.ok (), read, c)) (more : Bytes) :
    read.eof = false ∧ buf.length = 2 + c.length + read.buf.length ∧
      readFrame ⟨buf ++ more, false⟩ dst = .ready (.ok (), ⟨read.buf ++ more, false⟩, c) := by
  unfold readFrame ReadHalf.readU16 at h ⊢
  match buf, h with
  | b0 :: b1 :: rest, h =>
    simp only [List.cons_append] at h ⊢
    obtain ⟨hlen, hbuf, heof⟩ := ReadHalf.readExact_ok h
    simp only at hbuf heof
    refine ⟨heof, ?_, ?_⟩
    · rw [hbuf]
      simp only [List.length_cons, List.length_append]
      omega
    · rw [hbuf, List.append_assoc]
      exact ReadHalf.readExact_append hlen.symm

theorem readFrame_waits {buf dst : Bytes} {e : IoError} {read : ReadHalf} {b : Bytes} :
    readFrame ⟨buf, false⟩ dst ≠ .ready (.error e, read, b) := by
  unfold readFrame ReadHalf.readU16 ReadHalf.readExact
  match buf with
  | [] => simp
  | [b0] => simp
  | b0 :: b1 :: rest =>
    simp only [Bool.false_eq_true, ↓reduceIte]
    split <;> simp

variable {key : S.Key} {n n' : Nat} {rd rd' : PacketReader} {buf : Bytes} {found : Found}
  {rest : ReadHalf}

theorem find_more (h : S.find key n rd ⟨buf, false⟩ = .ready (found, rd', rest, n'))
    (more : Bytes) :
    rest.eof = false ∧ rest.buf.length + 2 ≤ buf.length ∧
      S.find key n rd ⟨buf ++ more, false⟩ =
        .ready (found, rd', ⟨rest.buf ++ more, false⟩, n') := by
  unfold find at h ⊢
  split at h
  · cases h
  · rename_i e read b hframe
    exact absurd hframe readFrame_waits
  · rename_i read c hframe
    obtain ⟨heof, hlen, hmore⟩ := readFrame_more hframe more
    simp only [hmore]
    cases hdec : S.decrypt key n c with
    | none =>
      simp only [hdec] at h ⊢
      cases h
      exact ⟨heof, by omega, rfl⟩
    | some raw =>
      rcases hrd : rd.read raw with ⟨res, rd₁⟩
      cases res <;> simp only [hdec, hrd] at h ⊢ <;> cases h <;> exact ⟨heof, by omega, rfl⟩

/-- More turns than there are bytes change nothing. -/
theorem listen_enough (S : TransportSpec T) (key : S.Key) : ∀ (k m : Nat) (h : Hearing)
    (buf : Bytes), buf.length ≤ k → buf.length ≤ m →
    S.listen key k h ⟨buf, false⟩ = S.listen key m h ⟨buf, false⟩ := by
  intro k
  induction k with
  | zero =>
    intro m h buf hk _
    have hnil : buf = [] := List.length_eq_zero_iff.1 (by omega)
    subst hnil
    cases m with
    | zero => rfl
    | succ m => simp [listen, find, readFrame, ReadHalf.readU16]
  | succ k ih =>
    intro m h buf hk hm
    cases hf : S.find key h.nonce h.reader ⟨buf, false⟩ with
    | pending => cases m <;> simp [listen, hf]
    | ready x =>
      obtain ⟨found, rd, rest, n⟩ := x
      obtain ⟨heof, hlen, -⟩ := find_more hf []
      obtain ⟨rbuf, reof⟩ := rest
      simp only at heof hlen
      subst heof
      cases m with
      | zero => omega
      | succ m =>
        simp only [listen, hf]
        rw [ih m _ rbuf (by omega) (by omega)]

/-- The meaning of a stream that begins with a frame. -/
theorem meaning_found {h : Hearing} (hf : S.find key h.nonce h.reader ⟨buf, false⟩ =
    .ready (found, rd', rest, n')) (more : Bytes) :
    S.meaning key h (buf ++ more) = (h.ear.hear found).2 ++
      S.meaning key ⟨rd', n', (h.ear.hear found).1⟩ (rest.buf ++ more) := by
  obtain ⟨-, hlen, hmore⟩ := find_more hf more
  have hl : (buf ++ more).length = (buf ++ more).length - 1 + 1 := by
    rw [List.length_append]
    omega
  rw [meaning, hl, listen]
  simp only [hmore]
  rw [meaning, listen_enough S key _ _ _ (rest.buf ++ more)
    (by simp only [List.length_append]; omega) (Nat.le_refl _)]

theorem meaning_pending {h : Hearing}
    (hf : S.find key h.nonce h.reader ⟨buf, false⟩ = .pending) : S.meaning key h buf = [] := by
  unfold meaning
  cases buf.length <;> simp [listen, hf]

theorem meaning_dead (reader : PacketReader) (nonce : Nat) (buf : Bytes) :
    S.meaning key ⟨reader, nonce, .dead⟩ buf = [] := by
  have hall : ∀ (k : Nat) (rd : PacketReader) (n : Nat) (stream : ReadHalf),
      S.listen key k ⟨rd, n, .dead⟩ stream = [] := by
    intro k
    induction k with
    | zero => exact fun _ _ _ => rfl
    | succ k ih =>
      intro rd n stream
      simp only [listen]
      split
      · rfl
      · simp only [Ear.hear, List.nil_append]
        exact ih _ _ _
  exact hall _ _ _ _

end TransportSpec

/-! ## Where a receiver is -/

/-- The iteration is over after this event. -/
def RxEvent.ends : RxEvent → Bool
  | .chunk none => true
  | .failed _ => true
  | _ => false

namespace Receiver

theorem iterated_of_events {r : Receiver σ} {es : List RxEvent} {e : RxEvent} {b : Bool}
    (he : r.events = es ++ [e]) (hb : e.ends = b) : r.iterated = b := by
  unfold iterated
  rw [he, List.getLast?_append, List.getLast?_singleton, Option.some_or, ← hb]
  match e with
  | .chunk none => rfl
  | .chunk (some _) => rfl
  | .failed _ => rfl
  | .opened _ => rfl
  | .bytes _ _ => rfl
  | .panicked _ => rfl

/-- The outcomes a receiver has seen, and what it has of the message it is in. -/
def Sees (r : Receiver σ) (os : List Outcome) (reading : Option (UInt16 × Bytes)) : Prop :=
  r.heard = os ∧ (observe r.events).reading = reading

namespace Sees

variable {r r' : Receiver σ} {os : List Outcome} {t : UInt16} {part : Bytes}
  {reading : Option (UInt16 × Bytes)}

theorem outcomes (h : r.Sees os reading) :
    (observe r.events).outcomes.map Outcome.blur = os := h.1

theorem of_events (h : r.Sees os reading) (he : r'.events = r.events) : r'.Sees os reading := by
  unfold Sees heard
  rw [he]
  exact h

theorem opened (h : r.Sees os reading) (header : PacketHeader)
    (he : r'.events = r.events ++ [.opened header]) :
    r'.Sees os (some (header.msgType, [])) := by
  unfold Sees heard
  rw [he, observe_append]
  exact ⟨h.1, rfl⟩

theorem bytes (h : r.Sees os reading) (b : Bytes) (he : r'.events = r.events ++ [.bytes t b]) :
    r'.Sees (os ++ [.got t b]) none := by
  unfold Sees heard
  rw [he, observe_append]
  simp only [Observed.event, Observed.add, List.map_append, h.outcomes]
  exact ⟨rfl, trivial⟩

theorem chunk (h : r.Sees os (some (t, part))) (b : Bytes)
    (he : r'.events = r.events ++ [.chunk (some b)]) : r'.Sees os (some (t, part ++ b)) := by
  unfold Sees heard
  rw [he, observe_append]
  simp only [Observed.event, h.2]
  exact ⟨h.1, rfl⟩

theorem done (h : r.Sees os (some (t, part))) (he : r'.events = r.events ++ [.chunk none]) :
    r'.Sees (os ++ [.got t part]) none := by
  unfold Sees heard
  rw [he, observe_append]
  simp only [Observed.event, h.2, Observed.add, List.map_append, h.outcomes]
  exact ⟨rfl, trivial⟩

theorem failed (h : r.Sees os reading) {e : ConnectionError} (hne : e ≠ .messageAborted)
    (he : r'.events = r.events ++ [.failed e]) : r'.Sees (os ++ [.failed e.blur]) none := by
  unfold Sees heard
  rw [he, observe_append]
  have hadd : (observe r.events).event (.failed e) = (observe r.events).add (.failed e) := by
    simp only [Observed.event]
    split
    · rename_i heq
      exact absurd rfl hne
    · rfl
  rw [hadd]
  simp only [Observed.add, List.map_append, h.outcomes]
  exact ⟨rfl, trivial⟩

theorem aborted (h : r.Sees os (some (t, part)))
    (he : r'.events = r.events ++ [.failed .messageAborted]) :
    r'.Sees (os ++ [.aborted t]) none := by
  unfold Sees heard
  rw [he, observe_append]
  simp only [Observed.event, h.2, Observed.add, List.map_append, h.outcomes]
  exact ⟨rfl, trivial⟩

theorem panicked (h : r.Sees os reading) {p : PanicSite}
    (he : r'.events = r.events ++ [.panicked p]) : r'.Sees (os ++ [.panicked]) none := by
  unfold Sees heard
  rw [he, observe_append]
  simp only [Observed.event, Observed.add, List.map_append, h.outcomes]
  exact ⟨rfl, trivial⟩

end Sees

end Receiver

/-- The receiver is where the ear is, and has seen `os` or is about to: a packet that ends its
message may still wait to be handed out. -/
inductive Ear.At : Ear → List Outcome → Receiver σ → Prop
  | free {os : List Outcome} {r : Receiver σ} (hh : r.handle = .free) (hs : r.Sees os none) :
      At .idle os r
  | sole {os : List Outcome} {r : Receiver σ} {m : Message} {b : Bytes}
      (hh : r.handle = .message m ∨ r.handle = .packets m m.intoPackets)
      (hit : r.iterated = false) (hpay : r.rx.packets.payload = some b)
      (hk : m.firstHeader.kind = .sole) (hs : r.Sees os (some (m.msgType, []))) :
      At .idle (os ++ [.got m.msgType b]) r
  | opened {os : List Outcome} {r : Receiver σ} {m : Message} {b : Bytes}
      (hh : r.handle = .message m ∨ r.handle = .packets m m.intoPackets)
      (hit : r.iterated = false) (hpay : r.rx.packets.payload = some b)
      (hk : m.firstHeader.kind ≠ .sole) (hs : r.Sees os (some (m.msgType, []))) :
      At (.inside m.msgType b) os r
  | reading {os : List Outcome} {r : Receiver σ} {m : Message} {part : Bytes}
      (hh : r.handle = .reading m) (hbuf : r.rx.readBuf = part)
      (hs : r.Sees os (some (m.msgType, []))) : At (.inside m.msgType part) os r
  | draining {os : List Outcome} {r : Receiver σ} {m : Message} {t : UInt16} {part : Bytes}
      (hh : r.handle = .packets m ⟨false, none⟩) (hit : r.iterated = false)
      (hs : r.Sees os (some (t, part))) : At (.inside t part) os r
  | drained {os : List Outcome} {r : Receiver σ} {m : Message} {t : UInt16} {part : Bytes}
      (hh : r.handle = .packets m ⟨true, none⟩) (hit : r.iterated = false)
      (hs : r.Sees os (some (t, part))) : At .idle (os ++ [.got t part]) r
  | ended {os : List Outcome} {r : Receiver σ} {m : Message} {mp : MessagePackets}
      (hh : r.handle = .packets m mp) (hit : r.iterated = true) (hs : r.Sees os none) :
      At .idle os r
  | dead {os : List Outcome} {r : Receiver σ} (hh : r.handle = .dead) (hs : r.Sees os none)
      (hp : .panicked ∈ os) : At .dead os r

namespace Ear.At

variable {ear : Ear} {os : List Outcome} {r : Receiver σ}

/-- What has been seen is the first of it. -/
theorem seen (h : ear.At os r) : r.heard <+: os := by
  cases h with
  | free hh hs => exact hs.1 ▸ List.prefix_refl _
  | sole hh hit hpay hk hs => exact hs.1 ▸ List.prefix_append _ _
  | opened hh hit hpay hk hs => exact hs.1 ▸ List.prefix_refl _
  | reading hh hbuf hs => exact hs.1 ▸ List.prefix_refl _
  | draining hh hit hs => exact hs.1 ▸ List.prefix_refl _
  | drained hh hit hs => exact hs.1 ▸ List.prefix_append _ _
  | ended hh hit hs => exact hs.1 ▸ List.prefix_refl _
  | dead hh hs hp => exact hs.1 ▸ List.prefix_refl _

/-- All of it has been seen when the loop is about to read. -/
theorem seen_all (h : ear.At os r) (hn : r.ReadsNext ∨ ear = .dead) :
    r.heard = os := by
  cases h with
  | free hh hs => exact hs.1
  | sole hh hit hpay hk hs =>
    rcases hh with hh | hh <;> simp [Receiver.ReadsNext, hh, Message.intoPackets] at hn
  | opened hh hit hpay hk hs => exact hs.1
  | reading hh hbuf hs => exact hs.1
  | draining hh hit hs => exact hs.1
  | drained hh hit hs => simp [Receiver.ReadsNext, hh] at hn
  | ended hh hit hs => exact hs.1
  | dead hh hs hp => exact hs.1

theorem not_dead_of_reads (h : ear.At os r) (hn : r.ReadsNext) : ear ≠ .dead := by
  rintro rfl
  cases h with
  | dead hh hs hp => simp [Receiver.ReadsNext, hh] at hn

/-- The position depends on the handle, the events and the payloads only. -/
theorem of_eq (h : ear.At os r) {r' : Receiver σ} (hh' : r'.handle = r.handle)
    (he : r'.events = r.events) (hb : r'.rx.readBuf = r.rx.readBuf)
    (hp : r'.rx.packets.payload = r.rx.packets.payload) : ear.At os r' := by
  have hi : r'.iterated = r.iterated := by simp only [Receiver.iterated, he]
  cases h with
  | free hh hs => exact .free (hh'.trans hh) (hs.of_events he)
  | sole hh hit hpay hk hs =>
    exact .sole (by rw [hh']; exact hh) (hi.trans hit) (hp.trans hpay) hk (hs.of_events he)
  | opened hh hit hpay hk hs =>
    exact .opened (by rw [hh']; exact hh) (hi.trans hit) (hp.trans hpay) hk (hs.of_events he)
  | reading hh hbuf hs => exact .reading (hh'.trans hh) (hb.trans hbuf) (hs.of_events he)
  | draining hh hit hs => exact .draining (hh'.trans hh) (hi.trans hit) (hs.of_events he)
  | drained hh hit hs => exact .drained (hh'.trans hh) (hi.trans hit) (hs.of_events he)
  | ended hh hit hs => exact .ended (hh'.trans hh) (hi.trans hit) (hs.of_events he)
  | dead hh hs hp => exact .dead (hh'.trans hh) (hs.of_events he) hp

/-! ### Turns that read nothing -/

/-- The receiver after a turn that left the stream alone. -/
def Local (T : TransportOps σ) (ear : Ear) (os : List Outcome) (r : Receiver σ) (drain : Bool) :
    Prop :=
  ear.At os (r.loop T drain) ∧ (r.loop T drain).rx.packets = r.rx.packets ∧
    (r.loop T drain).cipher = r.cipher ∧ ((r.loop T drain).rank < r.rank ∨ ear = .dead)

/-- `into_packets` on a message that was just opened. -/
theorem local_intoPackets {m : Message} (hh : r.handle = .message m)
    (h : ear.At os { r with handle := .packets m m.intoPackets }) : Local T ear os r true := by
  unfold Local
  simp only [Receiver.loop, Receiver.loopCall, hh, ↓reduceIte, Receiver.call]
  refine ⟨h, trivial, trivial, .inl ?_⟩
  simp only [Receiver.rank, hh, Message.intoPackets, Option.isSome_some, Bool.false_eq_true,
    ↓reduceIte]
  split <;> omega

theorem local_sole {m : Message} {b : Bytes}
    (hh : r.handle = .message m ∨ r.handle = .packets m m.intoPackets)
    (hit : r.iterated = false) (hpay : r.rx.packets.payload = some b)
    (hk : m.firstHeader.kind = .sole) (hs : r.Sees os (some (m.msgType, []))) (drain : Bool) :
    Local T .idle (os ++ [.got m.msgType b]) r drain := by
  rcases hh with hh | hh
  · cases drain with
    | true => exact local_intoPackets hh (.sole (.inr rfl) hit hpay hk hs)
    | false =>
      have hext := Receiver.extend_empty hpay
      unfold Local
      simp only [Receiver.loop, Receiver.loopCall, hh, Bool.false_eq_true, ↓reduceIte,
        Receiver.call, Receiver.readBytes, Message.readBytes, hext, hk, Receiver.progress]
      exact ⟨.free rfl (hs.bytes b rfl), trivial, trivial, .inl (by simp [Receiver.rank, hh])⟩
  · unfold Local
    simp only [Receiver.loop, Receiver.loopCall, hh, hit, Bool.false_eq_true, ↓reduceIte,
      Receiver.call, Receiver.next, MessagePackets.next, Message.intoPackets, MessageRx.yield, hpay,
      Option.isSome_some, or_true, Receiver.yielded]
    refine ⟨.drained (m := m) (by simp only [hk, decide_true])
      (Receiver.iterated_of_events rfl rfl) ?_, trivial, trivial, .inl ?_⟩
    · exact hs.chunk b rfl
    · simp [Receiver.rank, hh, hit, LoopAt.iterated_append, hk, Message.intoPackets]

theorem local_opened {m : Message} {b : Bytes}
    (hh : r.handle = .message m ∨ r.handle = .packets m m.intoPackets)
    (hit : r.iterated = false) (hpay : r.rx.packets.payload = some b)
    (hk : m.firstHeader.kind ≠ .sole) (hs : r.Sees os (some (m.msgType, []))) (drain : Bool) :
    Local T (.inside m.msgType b) os r drain := by
  rcases hh with hh | hh
  · cases drain with
    | true => exact local_intoPackets hh (.opened (.inr rfl) hit hpay hk hs)
    | false =>
      have hext := Receiver.extend_empty hpay
      unfold Local
      simp only [Receiver.loop, Receiver.loopCall, hh, Bool.false_eq_true, ↓reduceIte,
        Receiver.call, Receiver.readBytes, Message.readBytes, hext, hk, Receiver.progress]
      exact ⟨.reading rfl rfl hs, trivial, trivial, .inl (by simp [Receiver.rank, hh])⟩
  · unfold Local
    simp only [Receiver.loop, Receiver.loopCall, hh, hit, Bool.false_eq_true, ↓reduceIte,
      Receiver.call, Receiver.next, MessagePackets.next, Message.intoPackets, MessageRx.yield, hpay,
      Option.isSome_some, or_true, Receiver.yielded]
    refine ⟨.draining (m := m) (by simp only [hk, decide_false])
      (Receiver.iterated_of_events rfl rfl) ?_, trivial, trivial, .inl ?_⟩
    · exact hs.chunk b rfl
    · simp [Receiver.rank, hh, hit, LoopAt.iterated_append, hk, Message.intoPackets]

theorem loop_local (h : ear.At os r) (hn : ¬ r.ReadsNext) (drain : Bool) :
    Local T ear os r drain := by
  cases h with
  | free hh hs => exact absurd (by simp only [Receiver.ReadsNext, hh]) hn
  | sole hh hit hpay hk hs => exact local_sole hh hit hpay hk hs drain
  | opened hh hit hpay hk hs => exact local_opened hh hit hpay hk hs drain
  | reading hh hbuf hs => exact absurd (by simp only [Receiver.ReadsNext, hh]) hn
  | draining hh hit hs =>
    exact absurd (by simp only [Receiver.ReadsNext, hh, hit, and_self]) hn
  | drained hh hit hs =>
    unfold Local
    simp only [Receiver.loop, Receiver.loopCall, hh, hit, Bool.false_eq_true, ↓reduceIte,
      Receiver.call, Receiver.next, MessagePackets.next, true_or, Receiver.yielded]
    refine ⟨.ended rfl (Receiver.iterated_of_events rfl rfl) (hs.done rfl), trivial, trivial,
      .inl ?_⟩
    simp [Receiver.rank, hh, hit, LoopAt.iterated_append]
  | ended hh hit hs =>
    unfold Local
    simp only [Receiver.loop, Receiver.loopCall, hh, hit, ↓reduceIte, Receiver.call]
    exact ⟨.free rfl hs, trivial, trivial, .inl (by simp [Receiver.rank, hh, hit])⟩
  | dead hh hs hp =>
    unfold Local
    simp only [Receiver.loop, Receiver.loopCall, hh, Receiver.call]
    exact ⟨.dead hh hs hp, trivial, trivial, .inr trivial⟩

end Ear.At

/-! ### Turns that read -/

/-- A read that finds no packet is an error, and not that of an abort. -/
theorem Found.Is.cases {found : Found} {res : Res PacketHeader} {rx : PacketRx}
    (h : found.Is res rx) :
    (∃ e, res = .error (.error e) ∧ e ≠ .messageAborted ∧
      ∀ ear : Ear, ear ≠ .dead → ear.hear found = (.idle, [.failed e.blur])) ∨
    ∃ raw, found = .packet raw ∧ res = .ok (headerOf raw) ∧ rx.payload = some (raw.drop 2) := by
  cases h with
  | io e => exact .inl ⟨_, rfl, by simp, fun ear hd => by cases ear <;> first | rfl | contradiction⟩
  | noise e =>
    exact .inl ⟨_, rfl, by simp, fun ear hd => by cases ear <;> first | rfl | contradiction⟩
  | refused e =>
    exact .inl ⟨_, rfl, by simp, fun ear hd => by cases ear <;> first | rfl | contradiction⟩
  | packet hle hraw =>
    refine .inr ⟨_, rfl, rfl, ?_⟩
    rw [PacketRx.payload_eq _ hle, hraw]

namespace Ear.At

variable {ear : Ear} {os : List Outcome} {r : Receiver σ} {rx : PacketRx} {s : σ}

/-- The receiver after a turn that read. -/
def Read (T : TransportOps σ) (x : Ear × List Outcome) (os : List Outcome) (r : Receiver σ)
    (rx : PacketRx) (s : σ) (drain : Bool) : Prop :=
  x.1.At (os ++ x.2) (r.loop T drain) ∧ (r.loop T drain).rx.packets = rx ∧
    (r.loop T drain).cipher = s

/-- An error ends the message the loop is in, if any. -/
theorem read_error (h : ear.At os r) (hn : r.ReadsNext) {e : ConnectionError}
    (hne : e ≠ .messageAborted)
    (hread : r.rx.packets.readPacket T r.cipher = .ready (.error (.error e), rx, s))
    (drain : Bool) : Read T (.idle, [.failed e.blur]) os r rx s drain := by
  unfold Read
  cases h with
  | free hh hs =>
    simp only [Receiver.loop, Receiver.loopCall, hh, Receiver.call, Receiver.readMessage,
      MessageRx.readMessage, hread, Receiver.advance, Receiver.fault]
    exact ⟨.free rfl (hs.failed hne rfl), trivial, trivial⟩
  | sole hh hit hpay hk hs =>
    rcases hh with hh | hh <;> simp [Receiver.ReadsNext, hh, Message.intoPackets] at hn
  | opened hh hit hpay hk hs =>
    rcases hh with hh | hh <;> simp [Receiver.ReadsNext, hh, Message.intoPackets] at hn
  | reading hh hbuf hs =>
    simp only [Receiver.loop, Receiver.loopCall, hh, Receiver.call, Receiver.poll,
      MessageRx.bodyTurn, hread, Receiver.advance, Receiver.progress, Receiver.fault]
    exact ⟨.free rfl (hs.failed hne rfl), trivial, trivial⟩
  | draining hh hit hs =>
    simp only [Receiver.loop, Receiver.loopCall, hh, hit, Bool.false_eq_true, ↓reduceIte,
      Receiver.call, Receiver.next, MessagePackets.next, hread, Option.isSome_none, or_self,
      Receiver.yielded, Receiver.fault, Receiver.advance]
    exact ⟨.ended rfl (Receiver.iterated_of_events rfl rfl) (hs.failed hne rfl), trivial, trivial⟩
  | drained hh hit hs => simp [Receiver.ReadsNext, hh] at hn
  | ended hh hit hs => simp [Receiver.ReadsNext, hh, hit] at hn
  | dead hh hs hp => simp [Receiver.ReadsNext, hh] at hn

variable {raw : Bytes}

theorem read_free (hh : r.handle = .free) (hs : r.Sees os none)
    (hread : r.rx.packets.readPacket T r.cipher = .ready (.ok (headerOf raw), rx, s))
    (hpay : rx.payload = some (raw.drop 2)) (drain : Bool) :
    Read T (Ear.idle.hear (.packet raw)) os r rx s drain := by
  unfold Read
  simp only [Receiver.loop, Receiver.loopCall, hh, Receiver.call, Receiver.readMessage,
    MessageRx.readMessage, hread, Receiver.advance]
  refine ⟨?_, trivial, trivial⟩
  by_cases hk : (headerOf raw).kind = .sole
  · simp only [hear, hk, ↓reduceIte]
    exact .sole (m := ⟨headerOf raw⟩) (.inl rfl) (Receiver.iterated_of_events rfl rfl) hpay hk
      (hs.opened _ rfl)
  · simp only [hear, hk, ↓reduceIte, List.append_nil]
    exact .opened (m := ⟨headerOf raw⟩) (.inl rfl) (Receiver.iterated_of_events rfl rfl) hpay hk
      (hs.opened _ rfl)

theorem read_reading {m : Message} (hh : r.handle = .reading m)
    (hs : r.Sees os (some (m.msgType, [])))
    (hread : r.rx.packets.readPacket T r.cipher = .ready (.ok (headerOf raw), rx, s))
    (hpay : rx.payload = some (raw.drop 2)) (drain : Bool) :
    Read T ((Ear.inside m.msgType r.rx.readBuf).hear (.packet raw)) os r rx s drain := by
  unfold Read
  simp only [Receiver.loop, Receiver.loopCall, hh, Receiver.call, Receiver.poll,
    MessageRx.bodyTurn, hread, hear, MessageRx.extend, hpay]
  cases (headerOf raw).kind with
  | abort => exact ⟨.free rfl (hs.aborted rfl), rfl, rfl⟩
  | last => exact ⟨.free rfl (hs.bytes _ rfl), rfl, rfl⟩
  | mid =>
    simp only [List.append_nil]
    exact ⟨.reading rfl rfl (hs.of_events rfl), rfl, rfl⟩
  | sole => exact ⟨.dead rfl (hs.panicked rfl) (by simp), rfl, rfl⟩
  | first => exact ⟨.dead rfl (hs.panicked rfl) (by simp), rfl, rfl⟩

theorem read_draining {m : Message} {t : UInt16} {part : Bytes}
    (hh : r.handle = .packets m ⟨false, none⟩) (hit : r.iterated = false)
    (hs : r.Sees os (some (t, part)))
    (hread : r.rx.packets.readPacket T r.cipher = .ready (.ok (headerOf raw), rx, s))
    (hpay : rx.payload = some (raw.drop 2)) (drain : Bool) :
    Read T ((Ear.inside t part).hear (.packet raw)) os r rx s drain := by
  unfold Read
  simp only [Receiver.loop, Receiver.loopCall, hh, hit, Bool.false_eq_true, ↓reduceIte,
    Receiver.call, Receiver.next, MessagePackets.next, hread, hear, MessageRx.yield, hpay]
  cases (headerOf raw).kind with
  | abort => exact ⟨.ended rfl (Receiver.iterated_of_events rfl rfl) (hs.aborted rfl), rfl, rfl⟩
  | last => exact ⟨.drained rfl (Receiver.iterated_of_events rfl rfl) (hs.chunk _ rfl), rfl, rfl⟩
  | mid =>
    simp only [List.append_nil]
    exact ⟨.draining rfl (Receiver.iterated_of_events rfl rfl) (hs.chunk _ rfl), rfl, rfl⟩
  | sole => exact ⟨.dead rfl (hs.panicked rfl) (by simp), rfl, rfl⟩
  | first => exact ⟨.dead rfl (hs.panicked rfl) (by simp), rfl, rfl⟩

/-- A turn that reads does to the receiver what the frame does to the ear. -/
theorem loop_found (h : ear.At os r) (hn : r.ReadsNext) {found : Found} {res : Res PacketHeader}
    (hread : r.rx.packets.readPacket T r.cipher = .ready (res, rx, s)) (his : found.Is res rx)
    (drain : Bool) : Read T (ear.hear found) os r rx s drain := by
  rcases his.cases with ⟨e, rfl, hne, hhear⟩ | ⟨raw, rfl, rfl, hpay⟩
  · rw [hhear ear (h.not_dead_of_reads hn)]
    exact h.read_error hn hne hread drain
  · cases h with
    | free hh hs => exact read_free hh hs hread hpay drain
    | sole hh hit hpay hk hs =>
      rcases hh with hh | hh <;> simp [Receiver.ReadsNext, hh, Message.intoPackets] at hn
    | opened hh hit hpay hk hs =>
      rcases hh with hh | hh <;> simp [Receiver.ReadsNext, hh, Message.intoPackets] at hn
    | reading hh hbuf hs =>
      subst hbuf
      exact read_reading hh hs hread hpay drain
    | draining hh hit hs => exact read_draining hh hit hs hread hpay drain
    | drained hh hit hs => simp [Receiver.ReadsNext, hh] at hn
    | ended hh hit hs => simp [Receiver.ReadsNext, hh, hit] at hn
    | dead hh hs hp => simp [Receiver.ReadsNext, hh] at hn

end Ear.At

/-! ## A receiver and its bytes -/

/-- The loop of `r`, with its ear at `ear`. -/
def Receiver.hearing (S : TransportSpec T) (r : Receiver σ) (ear : Ear) : Hearing :=
  ⟨r.rx.packets.packetReader, S.recvNonce r.cipher, ear⟩

/-- What `r` has seen, with what the bytes in its buffer and any later ones mean, is what all its
bytes mean. -/
structure Listening (S : TransportSpec T) (key : S.Key) (bytes : Bytes) (r : Receiver σ) :
    Prop where
  live : r.rx.packets.read.eof = false
  recvKey : S.recvKey r.cipher = key
  hears : ∃ ear os, Ear.At ear os r ∧ ∀ more,
    os ++ S.meaning key (r.hearing S ear) (r.rx.packets.read.buf ++ more) =
      S.meaning key .new (bytes ++ more)

/-- What reading needs at most: five turns for a byte, and those that hand out a packet. -/
def Receiver.ahead (r : Receiver σ) : Nat := 5 * r.rx.packets.read.buf.length + r.rank

theorem Receiver.ahead_lt {r r' : Receiver σ}
    (h : r'.rx.packets.read.buf.length < r.rx.packets.read.buf.length) : r'.ahead < r.ahead := by
  have hrank := r'.rank_le
  unfold ahead
  omega

namespace Ear

variable {ear : Ear} {os : List Outcome} {r : Receiver σ}

/-- A loop that was `r`, with its ear at `ear`, has found `found`, and `rest` is left of the stream;
the next packet is for the reader `rd` and the nonce `n`. -/
structure Heard (S : TransportSpec T) (ear : Ear) (os : List Outcome) (r : Receiver σ)
    (found : Found) (rd : PacketReader) (rest : ReadHalf) (n : Nat) (r' : Receiver σ) : Prop where
  at_ : (ear.hear found).1.At (os ++ (ear.hear found).2) r'
  read : r'.rx.packets.read = rest
  recvKey : S.recvKey r'.cipher = S.recvKey r.cipher
  hearing : ∀ e, r'.hearing S e = ⟨rd, n, e⟩

/-- A turn that reads and finds nothing waits. -/
theorem loop_waits (hn : r.ReadsNext) (hfind : S.find (S.recvKey r.cipher) (S.recvNonce r.cipher)
      r.rx.packets.packetReader r.rx.packets.read = .pending) (drain : Bool) :
    r.loop T drain = r := by
  have hfinds := PacketRx.readPacket_finds S r.rx.packets r.cipher
  rw [hfind] at hfinds
  generalize hread : r.rx.packets.readPacket T r.cipher = y at hfinds
  cases hfinds with
  | pending => exact LoopAt.loop_pending hn hread drain

/-- A turn that reads hears what it finds. -/
theorem At.loop_hears (h : ear.At os r) (hn : r.ReadsNext) {found : Found} {rd : PacketReader}
    {rest : ReadHalf} {n : Nat} (hfind : S.find (S.recvKey r.cipher) (S.recvNonce r.cipher)
      r.rx.packets.packetReader r.rx.packets.read = .ready (found, rd, rest, n)) (drain : Bool) :
    Heard S ear os r found rd rest n (r.loop T drain) := by
  have hfinds := PacketRx.readPacket_finds S r.rx.packets r.cipher
  rw [hfind] at hfinds
  generalize hread : r.rx.packets.readPacket T r.cipher = y at hfinds
  cases hfinds with
  | @ready _ _ _ _ res rx s his hrd hrest hsend hkey hnonce =>
    obtain ⟨hat, hrx, hs⟩ := h.loop_found hn hread his drain
    refine ⟨hat, by rw [hrx, hrest], by rw [hs, hkey], fun e => ?_⟩
    simp only [Receiver.hearing, hrx, hrd, hs, hnonce]

end Ear

namespace Listening

variable {key : S.Key} {bytes : Bytes} {r : Receiver σ}

theorem fresh {rx : PacketRx} (hr : r = .new (.new rx) r.cipher) (hrd : rx.packetReader = .new)
    (hread : rx.read = ⟨[], false⟩) (hn : S.recvNonce r.cipher = 0) :
    Listening S (S.recvKey r.cipher) [] r := by
  generalize r.cipher = s at hr hn ⊢
  subst hr
  refine ⟨congrArg ReadHalf.eof hread, rfl, .idle, [], .free rfl ⟨rfl, rfl⟩, fun more => ?_⟩
  have hh : Receiver.hearing S (.new (.new rx) s) .idle = .new := by
    simp only [Receiver.hearing, Receiver.new, MessageRx.new, hrd, hn, Hearing.new]
  rw [hh]
  simp only [Receiver.new, MessageRx.new, hread]
  rfl

theorem arrive_listening (h : Listening S key bytes r) (b : Bytes) :
    Listening S key (bytes ++ b) (r.act T (.arrive b)) := by
  obtain ⟨ear, os, hat, hall⟩ := h.hears
  refine ⟨h.live, h.recvKey, ear, os, hat.of_eq rfl rfl rfl rfl, fun more => ?_⟩
  have := hall (b ++ more)
  rw [← List.append_assoc, ← List.append_assoc bytes] at this
  exact this

theorem set_cipher_listening (h : Listening S key bytes r) {s : σ} (hs : SameRecv S r.cipher s) :
    Listening S key bytes { r with cipher := s } := by
  obtain ⟨ear, os, hat, hall⟩ := h.hears
  refine ⟨h.live, hs.1.trans h.recvKey, ear, os, hat.of_eq rfl rfl rfl rfl, fun more => ?_⟩
  have hh : Receiver.hearing S { r with cipher := s } ear = r.hearing S ear := by
    simp only [Receiver.hearing, hs.2]
  rw [hh]
  exact hall more

/-- A turn of the loop brings it on, unless it has seen all that its bytes mean. -/
theorem loop_turn (h : Listening S key bytes r) (drain : Bool) :
    Listening S key bytes (r.loop T drain) ∧
      ((r.loop T drain).ahead < r.ahead ∨
        (∀ b, r.loop T b = r) ∧
          r.heard = S.meaning key .new bytes) := by
  obtain ⟨ear, os, hat, hall⟩ := h.hears
  by_cases hn : r.ReadsNext
  · have hstream : r.rx.packets.read = ⟨r.rx.packets.read.buf, false⟩ :=
      congrArg (ReadHalf.mk _) h.live
    cases hfind : S.find (S.recvKey r.cipher) (S.recvNonce r.cipher) r.rx.packets.packetReader
      r.rx.packets.read with
    | pending =>
      have hstay := Ear.loop_waits hn hfind
      rw [h.recvKey, hstream] at hfind
      rw [hstay]
      refine ⟨h, .inr ⟨hstay, ?_⟩⟩
      have hnow := hall []
      rw [List.append_nil, List.append_nil, TransportSpec.meaning_pending hfind,
        List.append_nil] at hnow
      rw [hat.seen_all (.inl hn), hnow]
    | ready res =>
      obtain ⟨found, rd, rest, n⟩ := res
      have hh := hat.loop_hears hn hfind drain
      rw [h.recvKey, hstream] at hfind
      obtain ⟨heof, hlen, -⟩ := TransportSpec.find_more hfind []
      refine ⟨⟨?_, hh.recvKey.trans h.recvKey, _, _, hh.at_, fun more => ?_⟩,
        .inl (Receiver.ahead_lt ?_)⟩
      · rw [hh.read]
        exact heof
      · have hm := TransportSpec.meaning_found (h := r.hearing S ear) hfind more
        rw [← hall more, hm, hh.hearing, hh.read, List.append_assoc]
        rfl
      · rw [hh.read]
        omega
  · obtain ⟨hat', hrx, hs, hrank⟩ := hat.loop_local (T := T) hn drain
    have hh : (r.loop T drain).hearing S ear = r.hearing S ear := by
      simp only [Receiver.hearing, hrx, hs]
    refine ⟨⟨by rw [hrx]; exact h.live, by rw [hs]; exact h.recvKey, ear, os, hat',
      fun more => by rw [hh, hrx]; exact hall more⟩, ?_⟩
    rcases hrank with hlt | rfl
    · left
      simp only [Receiver.ahead, hrx]
      omega
    · right
      have hnow := hall []
      rw [Receiver.hearing, TransportSpec.meaning_dead, List.append_nil, List.append_nil] at hnow
      refine ⟨fun b => ?_, by rw [hat.seen_all (.inr rfl), hnow]⟩
      cases hat with
      | dead hh hs hp => simp only [Receiver.loop, Receiver.loopCall, hh, Receiver.call]

/-- Nothing was seen but what the bytes mean, whatever comes behind them. -/
theorem seen_more (h : Listening S key bytes r) (more : Bytes) :
    r.heard <+: S.meaning key .new (bytes ++ more) := by
  obtain ⟨ear, os, hat, hall⟩ := h.hears
  exact hat.seen.trans ⟨_, hall more⟩

theorem seen (h : Listening S key bytes r) :
    r.heard <+: S.meaning key .new bytes := by
  have hnow := h.seen_more []
  rw [List.append_nil] at hnow
  exact hnow

/-- Enough turns, each in either way, and everything has been seen. -/
theorem loops (h : Listening S key bytes r) : ∀ (drains : List Bool), r.ahead ≤ drains.length →
    (Lts.run (Receiver.loop T) r drains).heard =
      S.meaning key .new bytes := by
  intro drains
  induction drains generalizing r with
  | nil =>
    intro hle
    rcases (h.loop_turn (T := T) false).2 with hlt | ⟨-, hseen⟩
    · simp only [List.length_nil] at hle
      omega
    · exact hseen
  | cons drain drains ih =>
    intro hle
    obtain ⟨hnext, hlt | ⟨heq, hseen⟩⟩ := h.loop_turn (T := T) drain
    · apply ih hnext
      simp only [List.length_cons] at hle
      omega
    · -- nothing moves any more
      have hstay : ∀ ds : List Bool, Lts.run (Receiver.loop T) r ds = r := by
        intro ds
        induction ds with
        | nil => rfl
        | cons b ds ih' => rw [Lts.run_cons, heq b, ih']
      rw [hstay]
      exact hseen

end Listening

/-! ## The end of a stream -/

/-- What a read at the end of the stream comes to. -/
def Outcome.cut : Outcome := .failed (.io .unexpectedEof)

namespace TransportSpec

theorem readFrame_eof (buf dst : Bytes) :
    (readFrame ⟨buf, false⟩ dst = .pending ∧
      ∃ b, readFrame ⟨buf, true⟩ dst = .ready (.error .unexpectedEof, ⟨[], true⟩, b)) ∨
    ∃ more c, readFrame ⟨buf, false⟩ dst = .ready (.ok (), ⟨more, false⟩, c) ∧
      readFrame ⟨buf, true⟩ dst = .ready (.ok (), ⟨more, true⟩, c) := by
  unfold readFrame ReadHalf.readU16
  match buf with
  | [] => exact .inl ⟨rfl, dst, rfl⟩
  | [b0] => exact .inl ⟨rfl, dst, rfl⟩
  | b0 :: b1 :: rest =>
    simp only [ReadHalf.readExact]
    by_cases hlen : (resize dst (ofBe b0 b1).toNat).length ≤ rest.length
    · exact .inr ⟨_, _, if_pos hlen, if_pos hlen⟩
    · simp only [hlen, ↓reduceIte, Bool.false_eq_true]
      exact .inl ⟨trivial, _, rfl⟩

/-- The end of the stream matters only to a read that would have to wait. -/
theorem find_eof (S : TransportSpec T) (key : S.Key) (n : Nat) (rd : PacketReader) (buf : Bytes) :
    (S.find key n rd ⟨buf, false⟩ = .pending ∧
      S.find key n rd ⟨buf, true⟩ = .ready (.io .unexpectedEof, rd, ⟨[], true⟩, n)) ∨
    ∃ found rd' more n', S.find key n rd ⟨buf, false⟩ = .ready (found, rd', ⟨more, false⟩, n') ∧
      S.find key n rd ⟨buf, true⟩ = .ready (found, rd', ⟨more, true⟩, n') := by
  unfold find
  rcases readFrame_eof buf [] with ⟨hf, b, ht⟩ | ⟨more, c, hf, ht⟩
  · simp only [hf, ht]
    exact .inl ⟨trivial, trivial⟩
  · right
    simp only [hf, ht]
    cases S.decrypt key n c with
    | none => exact ⟨_, _, more, _, rfl, rfl⟩
    | some raw =>
      rcases hrd : rd.read raw with ⟨res, rd₁⟩
      simp only [hrd]
      cases res <;> exact ⟨_, _, more, _, rfl, rfl⟩

end TransportSpec

/-- A receiver whose stream has ended behind bytes that mean `m`, `turns` turns after the end at
most: it is not through with the bytes, or has seen the end, in no more turns than there were. -/
structure Ended (S : TransportSpec T) (key : S.Key) (m : List Outcome) (turns : Nat)
    (r : Receiver σ) : Prop where
  eof : r.rx.packets.read.eof = true
  recvKey : S.recvKey r.cipher = key
  hears : ∃ ear os, Ear.At ear os r ∧
    (os ++ S.meaning key (r.hearing S ear) r.rx.packets.read.buf = m ∨
      ear = .idle ∧ r.rx.packets.read.buf = [] ∧
        ∃ k < turns, os = m ++ List.replicate (k + 1) .cut)

theorem Listening.close {key : S.Key} {bytes : Bytes} {r : Receiver σ}
    (h : Listening S key bytes r) :
    Ended S key (S.meaning key .new bytes) 0 (r.act T .close) := by
  obtain ⟨ear, os, hat, hall⟩ := h.hears
  refine ⟨rfl, h.recvKey, ear, os, hat.of_eq rfl rfl rfl rfl, .inl ?_⟩
  have hnow := hall []
  rw [List.append_nil, List.append_nil] at hnow
  exact hnow

namespace Ended

variable {key : S.Key} {m : List Outcome} {turns : Nat} {r : Receiver σ}

theorem mono {more : Nat} (h : Ended S key m turns r) (hle : turns ≤ more) :
    Ended S key m more r := by
  obtain ⟨ear, os, hat, hm | ⟨hear, hbuf, k, hk, hos⟩⟩ := h.hears
  · exact ⟨h.eof, h.recvKey, ear, os, hat, .inl hm⟩
  · exact ⟨h.eof, h.recvKey, ear, os, hat, .inr ⟨hear, hbuf, k, Nat.lt_of_lt_of_le hk hle, hos⟩⟩

theorem set_cipher (h : Ended S key m turns r) {s : σ} (hs : SameRecv S r.cipher s) :
    Ended S key m turns { r with cipher := s } := by
  obtain ⟨ear, os, hat, hall⟩ := h.hears
  have hh : Receiver.hearing S { r with cipher := s } ear = r.hearing S ear := by
    simp only [Receiver.hearing, hs.2]
  exact ⟨h.eof, hs.1.trans h.recvKey, ear, os, hat.of_eq rfl rfl rfl rfl, by rw [hh]; exact hall⟩

/-- Behind the end of a stream nothing waits to be handed out. -/
theorem behind_cases {os : List Outcome} {k : Nat} (hat : Ear.idle.At os r)
    (hos : os = m ++ List.replicate (k + 1) .cut) :
    r.Sees os none ∧
      (r.handle = .free ∨ ∃ msg mp, r.handle = .packets msg mp ∧ r.iterated = true) := by
  have hlast : ∀ (l : List Outcome) (t : UInt16) (b : Bytes), os ≠ l ++ [.got t b] := by
    intro l t b heq
    rw [hos, List.replicate_succ', ← List.append_assoc] at heq
    have := (List.append_inj' heq rfl).2
    cases this
  cases hat with
  | free hh hs => exact ⟨hs, .inl hh⟩
  | @sole os' _ m' b hh hit hpay hk hs => exact absurd rfl (hlast os' m'.msgType b)
  | @drained os' _ _ t b hh hit hs => exact absurd rfl (hlast os' t b)
  | ended hh hit hs => exact ⟨hs, .inr ⟨_, _, hh, hit⟩⟩

theorem seen (h : Ended S key m turns r) :
    r.heard <+: m ++ List.replicate turns .cut := by
  obtain ⟨ear, os, hat, hm | ⟨rfl, -, k, hk, hos⟩⟩ := h.hears
  · rw [← hm, List.append_assoc]
    exact hat.seen.trans (List.prefix_append _ _)
  · rw [(behind_cases hat hos).1.1, hos, List.prefix_append_right_inj]
    refine ⟨List.replicate (turns - (k + 1)) .cut, ?_⟩
    rw [List.replicate_append_replicate]
    congr 1
    omega

/-- The loop has panicked in bytes that mean `m`. -/
def Silent (m : List Outcome) (r : Receiver σ) : Prop :=
  r.handle = .dead ∧ r.Sees m none ∧ .panicked ∈ m

/-- The loop has seen the end of the stream `k` times, and waits at `read_message` for the next. -/
structure Settled (m : List Outcome) (k : Nat) (r : Receiver σ) : Prop where
  free : r.handle = .free
  read : r.rx.packets.read = ⟨[], true⟩
  sees : r.Sees (m ++ List.replicate k .cut) none

/-- All that the bytes mean has been seen, and the end of the stream unless the loop is dead. -/
def Over (m : List Outcome) (r : Receiver σ) : Prop :=
  Silent m r ∨
    r.rx.packets.read = ⟨[], true⟩ ∧ ∃ k, Ear.idle.At (m ++ List.replicate (k + 1) .cut) r

/-- A turn that finds the end of the stream. -/
theorem turn_end (h : Ended S key m turns r) (hn : r.ReadsNext) {rd : PacketReader} {n : Nat}
    (hf : S.find key (S.recvNonce r.cipher) r.rx.packets.packetReader
      ⟨r.rx.packets.read.buf, false⟩ = .pending)
    (hfind : S.find (S.recvKey r.cipher) (S.recvNonce r.cipher) r.rx.packets.packetReader
      r.rx.packets.read = .ready (.io .unexpectedEof, rd, ⟨[], true⟩, n)) (drain : Bool) :
    Ended S key m (turns + 1) (r.loop T drain) ∧ Over m (r.loop T drain) := by
  obtain ⟨ear, os, hat, hm⟩ := h.hears
  have hhear : ear.hear (.io .unexpectedEof) = (.idle, [.cut]) := by
    cases ear with
    | idle => rfl
    | inside t part => rfl
    | dead => exact absurd rfl (hat.not_dead_of_reads hn)
  have hh := hat.loop_hears hn hfind drain
  have hat' := hh.at_
  rw [hhear] at hat'
  obtain ⟨k, hk, hos⟩ : ∃ k < turns + 1, os ++ [.cut] = m ++ List.replicate (k + 1) .cut := by
    rcases hm with hm | ⟨-, -, k, hk, rfl⟩
    · rw [TransportSpec.meaning_pending (h := r.hearing S ear) hf, List.append_nil] at hm
      exact ⟨0, Nat.succ_pos _, by rw [hm]; rfl⟩
    · exact ⟨k + 1, Nat.succ_lt_succ hk, by rw [List.append_assoc, ← List.replicate_succ']⟩
  refine ⟨⟨by rw [hh.read], hh.recvKey.trans h.recvKey, _, _, hat',
    .inr ⟨rfl, by rw [hh.read], k, hk, hos⟩⟩, .inr ⟨hh.read, k, ?_⟩⟩
  rw [← hos]
  exact hat'

/-- A turn that finds a packet which came before the end. -/
theorem turn_before (h : Ended S key m turns r) (hn : r.ReadsNext) {found : Found}
    {rd : PacketReader} {more : Bytes} {n : Nat}
    (hf : S.find key (S.recvNonce r.cipher) r.rx.packets.packetReader
      ⟨r.rx.packets.read.buf, false⟩ = .ready (found, rd, ⟨more, false⟩, n))
    (hfind : S.find (S.recvKey r.cipher) (S.recvNonce r.cipher) r.rx.packets.packetReader
      r.rx.packets.read = .ready (found, rd, ⟨more, true⟩, n)) (drain : Bool) :
    Ended S key m turns (r.loop T drain) ∧ (r.loop T drain).ahead < r.ahead := by
  obtain ⟨ear, os, hat, hm⟩ := h.hears
  obtain ⟨-, hlen, -⟩ := TransportSpec.find_more hf []
  simp only at hlen
  have hbefore : os ++ S.meaning key (r.hearing S ear) r.rx.packets.read.buf = m := by
    rcases hm with hm | ⟨-, hbuf, -⟩
    · exact hm
    · rw [hbuf] at hlen
      simp at hlen
  have hmean := TransportSpec.meaning_found (h := r.hearing S ear) hf []
  rw [List.append_nil, List.append_nil] at hmean
  have hh := hat.loop_hears hn hfind drain
  refine ⟨⟨by rw [hh.read], hh.recvKey.trans h.recvKey, _, _, hh.at_, .inl ?_⟩,
    Receiver.ahead_lt ?_⟩
  · rw [← hbefore, hmean, hh.hearing, hh.read, List.append_assoc]
    rfl
  · rw [hh.read]
    simp only
    omega

theorem loop_turn (h : Ended S key m turns r) (drain : Bool) :
    Ended S key m (turns + 1) (r.loop T drain) ∧
      ((r.loop T drain).ahead < r.ahead ∨ Over m (r.loop T drain)) := by
  obtain ⟨ear, os, hat, hm⟩ := h.hears
  by_cases hn : r.ReadsNext
  · have hstream : r.rx.packets.read = ⟨r.rx.packets.read.buf, true⟩ :=
      congrArg (ReadHalf.mk _) h.eof
    rcases S.find_eof key (S.recvNonce r.cipher) r.rx.packets.packetReader
      r.rx.packets.read.buf with ⟨hf, ht⟩ | ⟨found, rd, more, n, hf, ht⟩
    · rw [← hstream, ← h.recvKey] at ht
      obtain ⟨hnext, hover⟩ := h.turn_end hn hf ht drain
      exact ⟨hnext, .inr hover⟩
    · rw [← hstream, ← h.recvKey] at ht
      obtain ⟨hnext, hless⟩ := h.turn_before hn hf ht drain
      exact ⟨hnext.mono (Nat.le_succ turns), .inl hless⟩
  · obtain ⟨hat', hrx, hs, hrank⟩ := hat.loop_local (T := T) hn drain
    have hh : (r.loop T drain).hearing S ear = r.hearing S ear := by
      simp only [Receiver.hearing, hrx, hs]
    have hnext : Ended S key m turns (r.loop T drain) :=
      ⟨by rw [hrx]; exact h.eof, by rw [hs]; exact h.recvKey, ear, os, hat',
        by rw [hh, hrx]; exact hm⟩
    refine ⟨hnext.mono (Nat.le_succ turns), ?_⟩
    rcases hrank with hlt | rfl
    · left
      simp only [Receiver.ahead, hrx]
      omega
    · right
      rcases hm with hm | ⟨hno, -⟩
      · rw [Receiver.hearing, TransportSpec.meaning_dead, List.append_nil] at hm
        subst hm
        cases hat' with
        | dead hh hs hp => exact .inl ⟨hh, hs, hp⟩
      · cases hno

theorem silent_loop (h : Silent m r) (drain : Bool) : Silent m (r.loop T drain) := by
  have hstay : r.loop T drain = r := by
    simp only [Receiver.loop, Receiver.loopCall, h.1, Receiver.call]
  rw [hstay]
  exact h

theorem settled_loop {k : Nat} (h : Settled m k r) (drain : Bool) :
    Settled m (k + 1) (r.loop T drain) := by
  obtain ⟨hfree, hread, hev⟩ := LoopAt.loop_end (T := T) h.free h.read drain
  refine ⟨hfree, hread, ?_⟩
  have hsees := h.sees.failed (by simp) hev
  rw [List.append_assoc] at hsees
  rw [List.replicate_succ']
  exact hsees

/-- Each further turn sees the end once more. -/
theorem settled_loops (more : List Bool) : ∀ {k : Nat} {r : Receiver σ}, Settled m k r →
    Settled m (k + more.length) (Lts.run (Receiver.loop T) r more) := by
  induction more with
  | nil => exact fun h => h
  | cons drain more ih =>
    intro k r h
    have hrun := ih (settled_loop (T := T) h drain)
    rw [List.length_cons, Nat.add_comm more.length 1, ← Nat.add_assoc]
    exact hrun

/-- The loop has seen the end, and is back at `read_message`, or it is dead. -/
def Rests (m : List Outcome) (r : Receiver σ) : Prop :=
  Silent m r ∨ ∃ k, 0 < k ∧ Settled m k r

theorem rests_loop (h : Rests m r) (drain : Bool) : Rests m (r.loop T drain) := by
  rcases h with h | ⟨k, -, h⟩
  · exact .inl (silent_loop h drain)
  · exact .inr ⟨k + 1, Nat.succ_pos k, settled_loop h drain⟩

/-- What is left of a message that was cut off is dropped in one turn. -/
theorem over_loop (h : Over m r) (drain : Bool) : Rests m (r.loop T drain) := by
  rcases h with h | ⟨hread, k, hat⟩
  · exact .inl (silent_loop h drain)
  · obtain ⟨hs, hh | ⟨msg, mp, hh, hit⟩⟩ := behind_cases hat rfl
    · exact .inr ⟨k + 2, Nat.succ_pos _, settled_loop ⟨hh, hread, hs⟩ drain⟩
    · refine .inr ⟨k + 1, Nat.succ_pos k, ?_⟩
      simp only [Receiver.loop, Receiver.loopCall, hh, hit, ↓reduceIte, Receiver.call]
      exact ⟨rfl, hread, hs⟩

theorem loops (drains : List Bool) : ∀ {turns : Nat} {r : Receiver σ}, Ended S key m turns r →
    r.ahead + 1 < drains.length → Rests m (Lts.run (Receiver.loop T) r drains) := by
  induction drains with
  | nil => exact fun _ hlt => absurd hlt (Nat.not_lt_zero _)
  | cons drain drains ih =>
    intro turns r h hlt
    simp only [List.length_cons] at hlt
    obtain ⟨hnext, hless | hover⟩ := h.loop_turn (T := T) drain
    · apply ih hnext
      omega
    · cases drains with
      | nil => exact absurd hlt (by simp)
      | cons drain' drains =>
        exact Lts.run_inv (I := Rests m) (fun _ b hr => rests_loop hr b) drains
          (over_loop hover drain')

end Ended

/-! ## Two endpoints and the bytes that reach them -/

/-- The bytes of an action that arrive at `x`. -/
def TamperAct.bytesTo (x : Side) : TamperAct → Bytes
  | .inject y bytes => if y = x then bytes else []
  | _ => []

/-- All bytes that arrive at `x`. -/
def arrivals (x : Side) (acts : List TamperAct) : Bytes :=
  (acts.map (TamperAct.bytesTo x)).flatten

/-- The action is a turn of the loop of `x`. -/
def TamperAct.isTurn (x : Side) : TamperAct → Bool
  | .recv y _ => y = x
  | _ => false

/-- How many turns the loop of `x` takes. -/
def turns (x : Side) (acts : List TamperAct) : Nat := acts.countP (TamperAct.isTurn x)

theorem turns_cons (x : Side) (a : TamperAct) (acts : List TamperAct) :
    turns x (a :: acts) = turns x acts + if a.isTurn x then 1 else 0 := List.countP_cons

variable (S) in
/-- What an action does to the receiver `r` of `x`. -/
inductive Receiver.Moves (x : Side) (r : Receiver σ) : TamperAct → Receiver σ → Prop
  /-- the sender of `x` used the cipher state they share, or the action was at the other side -/
  | cipher {a : TamperAct} {s : σ} (hs : SameRecv S r.cipher s) (hbytes : a.bytesTo x = [])
      (hopen : a ≠ .close x) : r.Moves x a { r with cipher := s }
  | recv (drain : Bool) : r.Moves x (.recv x drain) (r.loop T drain)
  | inject (bytes : Bytes) : r.Moves x (.inject x bytes) (r.act T (.arrive bytes))
  | close : r.Moves x (.close x) (r.act T .close)

namespace Receiver.Moves

variable {key : S.Key} {x : Side} {a : TamperAct} {r r' : Receiver σ}

theorem listening {bytes : Bytes} (hm : r.Moves S x a r') (h : Listening S key bytes r)
    (hopen : a ≠ .close x) : Listening S key (bytes ++ a.bytesTo x) r' := by
  cases hm with
  | cipher hs hbytes =>
    rw [hbytes, List.append_nil]
    exact h.set_cipher_listening hs
  | recv drain =>
    simp only [TamperAct.bytesTo, List.append_nil]
    exact (h.loop_turn drain).1
  | inject b =>
    rw [TamperAct.bytesTo, if_pos rfl]
    exact h.arrive_listening b
  | close => exact absurd rfl hopen

theorem ended {m : List Outcome} {n : Nat} (hm : r.Moves S x a r') (h : Ended S key m n r)
    (hbytes : a.bytesTo x = []) : Ended S key m (n + if a.isTurn x then 1 else 0) r' := by
  cases hm with
  | cipher hs => exact (h.set_cipher hs).mono (Nat.le_add_right _ _)
  | recv drain =>
    rw [TamperAct.isTurn, decide_eq_true rfl, if_pos rfl]
    exact (h.loop_turn drain).1
  | inject b =>
    simp only [TamperAct.bytesTo, ↓reduceIte] at hbytes
    subst hbytes
    obtain ⟨ear, os, hat, hall⟩ := h.hears
    have hbuf : (r.act T (.arrive [])).rx.packets.read.buf = r.rx.packets.read.buf :=
      List.append_nil _
    refine ⟨h.eof, h.recvKey, ear, os, hat.of_eq rfl rfl rfl rfl, ?_⟩
    rw [hbuf]
    exact hall
  | close =>
    obtain ⟨ear, os, hat, hall⟩ := h.hears
    exact ⟨rfl, h.recvKey, ear, os, hat.of_eq rfl rfl rfl rfl, hall⟩

end Receiver.Moves

namespace Duplex

/-- The sender of `x` sends its calls. -/
def Sender (S : TransportSpec T) (key : S.Key) (ops : List TxOp) (x : Side) (d : Duplex σ) :
    Prop :=
  ∃ sent, Sends S key ops (d.at_ x).sender (d.at_ x).receiver.cipher sent

variable {key : S.Key} {ops : List TxOp} {x : Side} {d : Duplex σ}

/-- Once for all actions: the sender goes on sending, and the receiver moves. -/
theorem tamper_moves (h : d.Sender S key ops x) (a : TamperAct) :
    (d.tamper T a).Sender S key ops x ∧
      (d.at_ x).receiver.Moves S x a ((d.tamper T a).at_ x).receiver := by
  have hrefl (s : σ) : SameRecv S s s := ⟨rfl, rfl⟩
  cases a with
  | send y =>
    by_cases hy : y = x
    · subst hy
      obtain ⟨sent, hsend⟩ := h
      obtain ⟨new, hnew, hsame⟩ := hsend.step
      unfold Sender
      simp only [tamper, step, Ends.set_self]
      exact ⟨⟨sent ++ new, hnew⟩, .cipher hsame rfl (by simp)⟩
    · unfold Sender
      simp only [tamper, step, Ends.set_ne _ _ (Ne.symm hy)]
      exact ⟨h, .cipher (hrefl _) rfl (by simp)⟩
  | recv y drain =>
    by_cases hy : y = x
    · subst hy
      obtain ⟨sent, hsend⟩ := h
      unfold Sender
      simp only [tamper, step, Ends.set_self]
      exact ⟨⟨sent, hsend.set_cipher (((d.at_ y).receiver.loop_follows drain).sameSend S)⟩,
        .recv drain⟩
    · unfold Sender
      simp only [tamper, step, Ends.set_ne _ _ (Ne.symm hy)]
      exact ⟨h, .cipher (hrefl _) rfl (by simp)⟩
  | inject y bytes =>
    by_cases hy : y = x
    · subst hy
      unfold Sender
      simp only [tamper, Ends.set_self]
      exact ⟨h, .inject bytes⟩
    · unfold Sender
      simp only [tamper, Ends.set_ne _ _ (Ne.symm hy)]
      exact ⟨h, .cipher (hrefl _) (if_neg hy) (by simp)⟩
  | close y =>
    by_cases hy : y = x
    · subst hy
      unfold Sender
      simp only [tamper, Ends.set_self]
      exact ⟨h, .close⟩
    · unfold Sender
      simp only [tamper, Ends.set_ne _ _ (Ne.symm hy)]
      exact ⟨h, .cipher (hrefl _) rfl (by simpa using hy)⟩

/-- While its stream stays open, a receiver listens to the bytes that arrive. -/
theorem tamper_listening {rkey : S.Key} : ∀ (acts : List TamperAct) {d : Duplex σ} {bytes : Bytes},
    d.Sender S key ops x → Listening S rkey bytes (d.at_ x).receiver → .close x ∉ acts →
    (Lts.run (Duplex.tamper T) d acts).Sender S key ops x ∧
      Listening S rkey (bytes ++ arrivals x acts)
        ((Lts.run (Duplex.tamper T) d acts).at_ x).receiver
  | [], d, bytes, hs, h, _ => by
    simp only [Lts.run, arrivals, List.map_nil, List.flatten_nil, List.append_nil]
    exact ⟨hs, h⟩
  | a :: acts, d, bytes, hs, h, hopen => by
    obtain ⟨hs', hm⟩ := tamper_moves hs a
    have hlisten := hm.listening h (fun he => hopen (he ▸ List.mem_cons_self))
    obtain ⟨hs'', hrun⟩ := tamper_listening acts hs' hlisten
      (fun hmem => hopen (List.mem_cons_of_mem _ hmem))
    rw [List.append_assoc] at hrun
    exact ⟨hs'', hrun⟩

/-- After the end of its stream a receiver stays at the end. -/
theorem tamper_ended {rkey : S.Key} {m : List Outcome} : ∀ (acts : List TamperAct) {n : Nat}
    {d : Duplex σ}, d.Sender S key ops x → Ended S rkey m n (d.at_ x).receiver →
    arrivals x acts = [] →
    Ended S rkey m (n + turns x acts) ((Lts.run (Duplex.tamper T) d acts).at_ x).receiver
  | [], _, _, _, h, _ => h
  | a :: acts, n, d, hs, h, hnone => by
    obtain ⟨hhead, htail⟩ := List.append_eq_nil_iff.mp hnone
    obtain ⟨hs', hm⟩ := tamper_moves hs a
    rw [turns_cons, Nat.add_comm (turns x acts), ← Nat.add_assoc]
    exact tamper_ended acts hs' (hm.ended h hhead) htail

/-- The turns of a receiver, taken at its endpoint. -/
theorem tamper_recvs (x : Side) (drains : List Bool) (d : Duplex σ) :
    ((Lts.run (Duplex.tamper T) d (drains.map (.recv x))).at_ x).receiver =
      Lts.run (Receiver.loop T) (d.at_ x).receiver drains :=
  Lts.run_view (f := fun d : Duplex σ => (d.at_ x).receiver)
    (fun d _ => congrArg Endpoint.receiver (d.set_self x _)) drains d

/-- The receiver of `x` after some turns, and some more. -/
theorem receiver_recvs (x : Side) (d : Duplex σ) (acts : List TamperAct)
    (drains more : List Bool) :
    ((Lts.run (Duplex.tamper T) d (acts ++ (drains ++ more).map (.recv x))).at_ x).receiver =
      Lts.run (Receiver.loop T) (Lts.run (Receiver.loop T)
        ((Lts.run (Duplex.tamper T) d acts).at_ x).receiver drains) more := by
  rw [Lts.run_append, tamper_recvs, Lts.run_append]

theorem Connected.sender {ops : Side → List TxOp} (h : d.Connected S ops)
    (hfit : ∀ x, Fits (ops x)) (x : Side) :
    d.Sender S (S.sendKey (d.at_ x).receiver.cipher) (ops x) x :=
  ⟨[], (h.starts hfit [] x).1⟩

theorem Connected.listening {ops : Side → List TxOp} (h : d.Connected S ops) (x : Side) :
    Listening S (S.recvKey (d.at_ x).receiver.cipher) [] (d.at_ x).receiver := by
  obtain ⟨rx, hr, hrd, hread⟩ := (h.fresh x).receiver
  exact .fresh hr hrd hread (h.fresh x).recvNonce

end Duplex

/-- Whatever arrives at a side, in whatever pieces, between whatever turns and calls of its two
halves: its loop sees what the bytes mean, in order and nothing else, and all of it in enough turns
of either way to read. -/
theorem bytes_decide {ops : Side → List TxOp} {d : Duplex σ} (hd : d.Connected S ops)
    (hfit : ∀ x, Fits (ops x)) (x : Side) (acts : List TamperAct) (hopen : .close x ∉ acts) :
    ((Lts.run (Duplex.tamper T) d acts).at_ x).receiver.heard <+:
        S.meaning (S.recvKey (d.at_ x).receiver.cipher) .new (arrivals x acts) ∧
      ∃ n, ∀ drains : List Bool, n ≤ drains.length →
        ((Lts.run (Duplex.tamper T) d (acts ++ drains.map (.recv x))).at_ x).receiver.heard =
          S.meaning (S.recvKey (d.at_ x).receiver.cipher) .new (arrivals x acts) := by
  obtain ⟨-, hlisten⟩ := Duplex.tamper_listening acts (hd.sender hfit x) (hd.listening x) hopen
  rw [List.nil_append] at hlisten
  refine ⟨hlisten.seen, ((Lts.run (Duplex.tamper T) d acts).at_ x).receiver.ahead,
    fun drains hle => ?_⟩
  rw [Lts.run_append, Duplex.tamper_recvs]
  exact hlisten.loops drains hle

/-- A message whose frame arrives in two pieces, and a frame that does not decrypt. -/
def Tagged.someArrivals : List TamperAct :=
  [.inject .right [0, 18, 0], .recv .right false, .send .right,
    .inject .right (3 :: Tagged.tag 1 0 ++ [0, 1, 9]), .recv .right true]

theorem bytes_decide_someArrivals :
    Tagged.spec.meaning (1 : UInt8) .new (arrivals .right Tagged.someArrivals) =
        [.got 3 [], .failed (.noise .decrypt)] ∧
      ∃ n, ∀ drains : List Bool, n ≤ drains.length →
        ((Lts.run (Duplex.tamper Tagged.transport)
            (Tagged.pair fun x => sendAll (Tagged.someCalls x))
            (Tagged.someArrivals ++ drains.map (.recv .right))).at_ .right).receiver.heard =
          Tagged.spec.meaning (1 : UInt8) .new (arrivals .right Tagged.someArrivals) :=
  ⟨by decide, (bytes_decide (S := Tagged.spec) (Tagged.pair_connected _)
    (fun x => fits_sendAll _) .right Tagged.someArrivals (by decide)).2⟩

/-- A stream that ends: the loop sees what the bytes before the end mean, and behind it only
failures at the end of the stream, at most one in a turn. In enough turns it has seen all of the
meaning, and unless it panicked there, the end; each further turn then sees the end once more. -/
theorem cut_stream {ops : Side → List TxOp} {d : Duplex σ} (hd : d.Connected S ops)
    (hfit : ∀ x, Fits (ops x)) (x : Side) (before after : List TamperAct)
    (hopen : .close x ∉ before) (hnone : arrivals x after = []) :
    let m := S.meaning (S.recvKey (d.at_ x).receiver.cipher) .new (arrivals x before)
    let closed := before ++ .close x :: after
    ((Lts.run (Duplex.tamper T) d closed).at_ x).receiver.heard <+:
        m ++ List.replicate (turns x after) .cut ∧
      ∃ n, ∀ drains : List Bool, n ≤ drains.length →
        (.panicked ∈ m ∧ ∀ more : List Bool, ((Lts.run (Duplex.tamper T) d
            (closed ++ (drains ++ more).map (.recv x))).at_ x).receiver.heard = m) ∨
        ∃ k, 0 < k ∧ ∀ more : List Bool, ((Lts.run (Duplex.tamper T) d
            (closed ++ (drains ++ more).map (.recv x))).at_ x).receiver.heard =
          m ++ List.replicate (k + more.length) .cut := by
  intro m closed
  obtain ⟨hs, hlisten⟩ := Duplex.tamper_listening before (hd.sender hfit x) (hd.listening x) hopen
  rw [List.nil_append] at hlisten
  have hclosed := hlisten.close (T := T)
  obtain ⟨hs', -⟩ := Duplex.tamper_moves hs (.close x)
  have hat : (((Lts.run (Duplex.tamper T) d before).tamper T (.close x)).at_ x).receiver =
      ((Lts.run (Duplex.tamper T) d before).at_ x).receiver.act T .close := by
    simp only [Duplex.tamper, Ends.set_self]
  rw [← hat] at hclosed
  have hrun : Lts.run (Duplex.tamper T) d closed = Lts.run (Duplex.tamper T)
      ((Lts.run (Duplex.tamper T) d before).tamper T (.close x)) after := Lts.run_append _ _ _
  have hend := Duplex.tamper_ended after hs' hclosed hnone
  rw [Nat.zero_add, ← hrun] at hend
  refine ⟨hend.seen, ((Lts.run (Duplex.tamper T) d closed).at_ x).receiver.ahead + 2,
    fun drains hle => ?_⟩
  rcases Ended.loops drains hend hle with hsilent | ⟨k, hk, hsettled⟩
  · refine .inl ⟨hsilent.2.2, fun more => ?_⟩
    rw [Duplex.receiver_recvs]
    exact (Lts.run_inv (I := Ended.Silent m) (fun _ b h => Ended.silent_loop h b) more
      hsilent).2.1.1
  · refine .inr ⟨k, hk, fun more => ?_⟩
    rw [Duplex.receiver_recvs]
    exact (Ended.settled_loops more hsettled).sees.1

/-- A stream that ends behind a message and a frame that does not decrypt. -/
theorem cut_stream_someArrivals :
    Tagged.spec.meaning (1 : UInt8) .new (arrivals .right Tagged.someArrivals) =
        [.got 3 [], .failed (.noise .decrypt)] ∧
      ∃ n, ∀ drains : List Bool, n ≤ drains.length →
        ∃ k, 0 < k ∧ ∀ more : List Bool, ((Lts.run (Duplex.tamper Tagged.transport)
            (Tagged.pair fun x => sendAll (Tagged.someCalls x))
            ((Tagged.someArrivals ++ .close .right :: [.send .left]) ++
              (drains ++ more).map (.recv .right))).at_ .right).receiver.heard =
          Tagged.spec.meaning (1 : UInt8) .new (arrivals .right Tagged.someArrivals) ++
            List.replicate (k + more.length) .cut := by
  have hm : Tagged.spec.meaning (1 : UInt8) .new (arrivals .right Tagged.someArrivals) =
      [.got 3 [], .failed (.noise .decrypt)] := by decide
  refine ⟨hm, ?_⟩
  obtain ⟨-, n, hn⟩ := cut_stream (S := Tagged.spec)
    (Tagged.pair_connected fun x => sendAll (Tagged.someCalls x)) (fun x => fits_sendAll _) .right
    Tagged.someArrivals [.send .left] (by decide) rfl
  refine ⟨n, fun drains hle => (hn drains hle).resolve_left ?_⟩
  rintro ⟨hp, -⟩
  have hkey : Tagged.spec.meaning (1 : UInt8) .new (arrivals .right Tagged.someArrivals) =
      Tagged.spec.meaning (Tagged.spec.recvKey ((Tagged.pair fun x =>
        sendAll (Tagged.someCalls x)).at_ .right).receiver.cipher) .new
        (arrivals .right Tagged.someArrivals) := rfl
  rw [← hkey, hm] at hp
  simp at hp

end Snowpack
