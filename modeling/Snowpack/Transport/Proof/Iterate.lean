import Snowpack.Transport.Body
import Snowpack.Transport.Proof.NoPanic

/-!
# `read_bytes` against `into_packets`

The two loops make the same reads in the same order, one turn against one call of `next`
(`loops_agree`, by induction on the bytes left in the stream: an accepted packet has taken some of
them). The iterator has one call more, the one that returns `None`; it reads nothing.

A message opened by `Sole` or `First` is over when `next` has returned its final payload or
`MessageAborted`, and the iterator knows it (`Place`, kept by every call): no later call reads from
the stream. Nothing is assumed of the cipher.
-/

namespace Snowpack

open Wire

variable {σ : Type} {T : TransportOps σ}

/-! ## A packet takes bytes from the stream -/

theorem readFrame_shrinks {stream read : ReadHalf} {dst c : Bytes}
    (h : readFrame stream dst = .ready (.ok (), read, c)) :
    read.buf.length < stream.buf.length := by
  obtain ⟨buf, eof⟩ := stream
  unfold readFrame ReadHalf.readU16 at h
  match buf with
  | [] =>
    cases eof <;> cases h
  | [b] =>
    cases eof <;> cases h
  | b0 :: b1 :: rest =>
    obtain ⟨-, hbuf, -⟩ := ReadHalf.readExact_ok h
    simp only at hbuf
    rw [hbuf]
    simp only [List.length_cons, List.length_append]
    omega

theorem PacketRx.readPacket_shrinks {p p' : PacketRx} {s s' : σ} {header : PacketHeader}
    (h : p.readPacket T s = .ready (.ok header, p', s')) :
    p'.read.buf.length < p.read.buf.length := by
  cases readPacket_reads h with
  | packet hframe hread hslice hr => exact readFrame_shrinks hframe

/-- `MessageAborted` is not an error of `read_packet`. -/
theorem PacketRx.readPacket_ne_aborted {p p' : PacketRx} {s s' : σ} {f : Fault}
    (h : p.readPacket T s = .ready (.error f, p', s')) : f ≠ .error .messageAborted := by
  cases readPacket_reads h with
  | io | noise | bounds | refused => simp

/-! ## The two loops -/

/-- An iterator past its last packet. -/
theorem Collecting.returns_done {st : Collecting σ} (hd : st.packets.done = true) :
    Turns.Returns (Collecting.turn T) st (.ready (.ok st.collected), st.rx, st.cipher) := by
  apply Turns.Returns.of_turn
  simp only [turn, MessagePackets.next, hd, ↓reduceIte]
  rfl

/-- One turn of each loop from the same place: both end with the same outcome, or both go on with
one more packet. -/
theorem turn_agrees (b₀ : Bytes) (p : PacketRx) (buf : Bytes) (s : σ) :
    (∃ o p' buf' s',
      Turns.Ends (MessageRx.bodyLoop T) (o, ⟨p', buf'⟩, s') (MessageRx.bodyLoop T (⟨p, buf⟩, s)) ∧
      Turns.Ends (Collecting.turn T) (o, ⟨p', b₀⟩, s')
        (Collecting.turn T ⟨⟨false, none⟩, buf, ⟨p, b₀⟩, s⟩)) ∨
    ∃ b p' s', p'.read.buf.length < p.read.buf.length ∧
      MessageRx.bodyLoop T (⟨p, buf⟩, s) = .inl (⟨p', buf ++ b⟩, s') ∧
      Collecting.turn T ⟨⟨false, none⟩, buf, ⟨p, b₀⟩, s⟩ =
        .inl ⟨⟨false, none⟩, buf ++ b, ⟨p', b₀⟩, s'⟩ := by
  simp only [MessageRx.bodyLoop, MessageRx.bodyTurn, Collecting.turn, MessagePackets.next]
  rcases hread : p.readPacket T s with _ | ⟨res, p₁, s₁⟩
  · exact .inl ⟨.pending, p, buf, s, rfl, rfl⟩
  · cases res with
    | error f => exact .inl ⟨.ready (.error f), p₁, buf, s₁, rfl, rfl⟩
    | ok header =>
      have hlt := PacketRx.readPacket_shrinks hread
      obtain ⟨b, hb⟩ : ∃ b, p₁.payload = some b := by
        have hf := PacketRx.readPacket_fetch hread
        generalize p.accepts T s = acc at hf
        cases hf with
        | ok _ _ _ hp => exact ⟨_, hp⟩
      obtain ⟨k, t⟩ := header
      cases k with
      | sole | first =>
        exact .inl ⟨.ready (.error (.panic .unreachableKind)), p₁, buf, s₁, rfl, rfl⟩
      | abort => exact .inl ⟨.ready (.error (.error .messageAborted)), p₁, buf, s₁, rfl, rfl⟩
      | last =>
        left
        refine ⟨.ready (.ok (buf ++ b)), p₁, buf ++ b, s₁, ?_, ?_⟩
        · simp only [MessageRx.extend, hb]
          rfl
        · simp only [MessageRx.yield, hb]
          exact Collecting.returns_done rfl
      | mid =>
        right
        refine ⟨b, p₁, s₁, hlt, ?_, ?_⟩
        · simp only [MessageRx.extend, hb]
        · simp only [MessageRx.yield, hb]
          rfl

/-- From the same place with the same bytes gathered, both loops end, with the same outcome and the
same receiver but for the buffer of `read_bytes`. -/
theorem loops_agree (b₀ : Bytes) : ∀ (n : Nat) (p : PacketRx) (buf : Bytes) (s : σ),
    p.read.buf.length = n →
    ∃ o p' buf' s',
      Turns.Returns (MessageRx.bodyLoop T) (⟨p, buf⟩, s) (o, ⟨p', buf'⟩, s') ∧
      Turns.Returns (Collecting.turn T) ⟨⟨false, none⟩, buf, ⟨p, b₀⟩, s⟩ (o, ⟨p', b₀⟩, s') := by
  intro n
  -- every packet takes bytes off the stream
  induction n using Nat.strongRecOn with
  | ind n ih =>
    intro p buf s hn
    rcases turn_agrees (T := T) b₀ p buf s with
      ⟨o, p', buf', s', hA, hB⟩ | ⟨b, p', s', hlt, hA, hB⟩
    · exact ⟨o, p', buf', s', .of_turn hA, .of_turn hB⟩
    · obtain ⟨o, p'', buf', s'', hA', hB'⟩ := ih _ (hn ▸ hlt) p' (buf ++ b) s' rfl
      refine ⟨o, p'', buf', s'', .of_turn ?_, .of_turn ?_⟩
      · rw [hA]
        exact hA'
      · rw [hB]
        exact hB'

/-- The whole of `read_bytes` against all the calls of `next`. -/
theorem Message.bodies_agree (m : Message) (rx : MessageRx) (s : σ) :
    ∃ o p buf s',
      (∃ n, ∀ k, n ≤ k → m.readBytesFor T k rx s = .inr (o, ⟨p, buf⟩, s')) ∧
      ∃ n, ∀ k, n ≤ k → m.collectFor T k rx s = .inr (o, ⟨p, rx.readBuf⟩, s') := by
  obtain ⟨p, b₀⟩ := rx
  unfold readBytesFor readBytes collectFor
  cases hp : p.payload with
  | none =>
    refine ⟨.ready (.error (.panic .sliceBounds)), p, [], s, ⟨0, fun k _ => ?_⟩,
      Turns.Returns.of_turn ?_⟩
    · simp only [MessageRx.extend, hp]
    · simp only [Collecting.turn, MessagePackets.next, intoPackets, MessageRx.yield, hp]
      rfl
  | some b =>
    by_cases hk : m.firstHeader.kind = .sole
    · refine ⟨.ready (.ok b), p, b, s, ⟨0, fun k _ => ?_⟩, Turns.Returns.of_turn ?_⟩
      · simp only [MessageRx.extend, hp, hk, ↓reduceIte, List.nil_append]
      · simp only [Collecting.turn, MessagePackets.next, intoPackets, MessageRx.yield, hp, hk]
        exact Collecting.returns_done rfl
    · obtain ⟨o, p', buf', s', hA, hB⟩ := loops_agree (T := T) b₀ _ p b s rfl
      refine ⟨o, p', buf', s', ?_, Turns.Returns.of_turn ?_⟩
      · simp only [MessageRx.extend, hp, hk, ↓reduceIte, List.nil_append]
        exact hA
      · simp only [Collecting.turn, MessagePackets.next, intoPackets, MessageRx.yield, hp, hk,
          decide_false]
        exact hB

/-! ## Behind the end of a message -/

namespace Iteration

/-- Where an iterator of a message opened by `Sole` or `First` is. -/
inductive Place (it : Iteration σ) : Prop
  /-- before the first call: the opening packet is in the buffer -/
  | buffered (k : PacketKind) (hd : it.packets.done = false) (hk : it.packets.firstKind = some k)
      (hu : k = .sole ∨ k = .first ∧ it.rx.packets.packetReader.inProgress = true)
      (hr : it.results = [])
  /-- inside the message, and so is the reader -/
  | inside (hd : it.packets.done = false) (hk : it.packets.firstKind = none)
      (hu : it.rx.packets.packetReader.inProgress = true)
      (hr : it.results.getLast? ≠ some (.error (.error .messageAborted)))
  | ended (hd : it.packets.done = true)

/-- The last call returned the final payload of the message, which leaves the reader between two
messages, or `MessageAborted`. -/
def Over (it : Iteration σ) : Prop :=
  ((∃ b, it.results.getLast? = some (.ok (some b))) ∧
    it.rx.packets.packetReader.inProgress = false) ∨
  it.results.getLast? = some (.error (.error .messageAborted))

theorem Place.done_of_over {it : Iteration σ} (h : it.Place) (ho : it.Over) :
    it.packets.done = true := by
  cases h with
  | buffered k hd hk hu hr =>
    unfold Over at ho
    rw [hr] at ho
    rcases ho with ⟨⟨b, hb⟩, -⟩ | hb <;> cases hb
  | inside hd hk hu hr =>
    rcases ho with ⟨-, hidle⟩ | hb
    · rw [hu] at hidle
      cases hidle
    · exact absurd hb hr
  | ended hd => exact hd

theorem new_place {m : Message} {rx : MessageRx} {s : σ}
    (hu : m.firstHeader.kind = .sole ∨
      m.firstHeader.kind = .first ∧ rx.packets.packetReader.inProgress = true) :
    (new m rx s).Place :=
  .buffered m.firstHeader.kind rfl rfl hu rfl

theorem yield_ne_aborted {rx : MessageRx} (rs : List (Res (Option Bytes))) :
    (rs ++ [rx.yield]).getLast? ≠ some (.error (.error .messageAborted)) := by
  rw [List.getLast?_concat]
  unfold MessageRx.yield
  split <;> simp

/-- The first call yields the buffered packet. -/
theorem next_buffered {it : Iteration σ} {k : PacketKind} (hd : it.packets.done = false)
    (hk : it.packets.firstKind = some k)
    (hu : k = .sole ∨ k = .first ∧ it.rx.packets.packetReader.inProgress = true) :
    (it.act T .next).Place := by
  simp only [act, MessagePackets.next, hd, hk, Bool.false_eq_true, ↓reduceIte]
  rcases hu with rfl | ⟨rfl, hu⟩
  · exact .ended rfl
  · exact .inside rfl rfl hu (yield_ne_aborted _)

/-- A later call reads a packet: the reader is inside the message, so it is not a start. -/
theorem next_inside {it : Iteration σ} (hd : it.packets.done = false)
    (hk : it.packets.firstKind = none) (hu : it.rx.packets.packetReader.inProgress = true)
    (hr : it.results.getLast? ≠ some (.error (.error .messageAborted))) :
    (it.act T .next).Place := by
  simp only [act, MessagePackets.next, hd, hk, Bool.false_eq_true, ↓reduceIte]
  rcases hread : it.rx.packets.readPacket T it.cipher with _ | ⟨res, p, s⟩
  · exact .inside hd hk hu hr
  · have hf := PacketRx.readPacket_fetch hread
    generalize it.rx.packets.accepts T it.cipher = acc at hf
    cases hf with
    | error _ hrd =>
      refine .inside hd hk (by rw [← hu, ← hrd]) ?_
      rw [List.getLast?_concat]
      intro he
      simp only [Option.some.injEq, Except.error.injEq] at he
      exact PacketRx.readPacket_ne_aborted hread he
    | @ok raw _ _ _ hs _ =>
      generalize headerOf raw = header at hs
      obtain ⟨k, t⟩ := header
      cases k with
      | sole =>
        have hidle := hs.idle_of_starting (.inl rfl)
        rw [hu] at hidle
        cases hidle
      | first =>
        have hidle := hs.idle_of_starting (.inr rfl)
        rw [hu] at hidle
        cases hidle
      | mid => exact .inside hd hk hs.under (yield_ne_aborted _)
      | last => exact .ended rfl
      | abort => exact .ended rfl

theorem act_place (it : Iteration σ) (a : IterAct) (h : it.Place) : (it.act T a).Place := by
  cases a with
  | next =>
    cases h with
    | buffered k hd hk hu hr => exact next_buffered hd hk hu
    | inside hd hk hu hr => exact next_inside hd hk hu hr
    | ended hd =>
      have hact : (it.act T .next).packets = it.packets := by
        simp only [act, MessagePackets.next, hd, ↓reduceIte]
      exact .ended (by rw [hact]; exact hd)
  | arrive bytes =>
    cases h with
    | buffered k hd hk hu hr => exact .buffered k hd hk hu hr
    | inside hd hk hu hr => exact .inside hd hk hu hr
    | ended hd => exact .ended hd
  | close =>
    cases h with
    | buffered k hd hk hu hr => exact .buffered k hd hk hu hr
    | inside hd hk hu hr => exact .inside hd hk hu hr
    | ended hd => exact .ended hd

/-- The bytes that arrive. -/
def arrived (acts : List IterAct) : Bytes :=
  acts.flatMap fun a => match a with
    | .arrive bytes => bytes
    | .next => []
    | .close => []

/-- From `it` to `it'` every call of `next` returned `Ok(None)`, and nothing was taken from the
stream. -/
structure Rested (it it' : Iteration σ) (acts : List IterAct) : Prop where
  results : it'.results = it.results ++ List.replicate (acts.count .next) (.ok none)
  cipher : it'.cipher = it.cipher
  receiver : it'.rx = { it.rx with packets.read := it'.rx.packets.read }
  stream : it'.rx.packets.read.buf = it.rx.packets.read.buf ++ arrived acts

theorem run_rested : ∀ (acts : List IterAct) {it : Iteration σ}, it.packets.done = true →
    it.Rested (Lts.run (act T) it acts) acts
  | [], it, _ => ⟨by simp, rfl, rfl, by simp [arrived]⟩
  | .next :: acts, it, hd => by
    have hact : it.act T .next = { it with results := it.results ++ [.ok none] } := by
      simp only [act, MessagePackets.next, hd, ↓reduceIte]
    have hd' : (it.act T .next).packets.done = true := by
      rw [hact]
      exact hd
    have ih := run_rested acts hd'
    rw [Lts.run_cons]
    refine ⟨?_, ih.cipher.trans (by rw [hact]), ih.receiver.trans (by rw [hact]), ?_⟩
    · rw [ih.results, hact, List.append_assoc, List.count_cons_self, List.replicate_succ]
      rfl
    · rw [ih.stream, hact]
      rfl
  | .arrive bytes :: acts, it, hd => by
    have hd' : (it.act T (.arrive bytes)).packets.done = true := hd
    have ih := run_rested acts hd'
    rw [Lts.run_cons]
    refine ⟨?_, ih.cipher, ih.receiver, ?_⟩
    · rw [ih.results, List.count_cons_of_ne (by simp)]
      rfl
    · rw [ih.stream]
      simp only [act, arrived, List.flatMap_cons, List.append_assoc]
  | .close :: acts, it, hd => by
    have hd' : (it.act T .close).packets.done = true := hd
    have ih := run_rested acts hd'
    rw [Lts.run_cons]
    refine ⟨?_, ih.cipher, ih.receiver, ?_⟩
    · rw [ih.results, List.count_cons_of_ne (by simp)]
      rfl
    · rw [ih.stream]
      rfl

end Iteration

/-! ## The theorem -/

/-- The reader right behind the opening packet. -/
theorem MessageRx.readMessage_opens {rx₀ rx : MessageRx} {s₀ s : σ} {m : Message}
    (hm : rx₀.readMessage T s₀ = .ready (.ok m, rx, s))
    (hk : m.firstHeader.kind = .sole ∨ m.firstHeader.kind = .first) :
    m.firstHeader.kind = .sole ∨
      m.firstHeader.kind = .first ∧ rx.packets.packetReader.inProgress = true := by
  unfold readMessage at hm
  split at hm
  · cases hm
  · cases hm
  · rename_i header p s₁ hread
    cases hm
    have hf := PacketRx.readPacket_fetch hread
    generalize rx₀.packets.accepts T s₀ = acc at hf
    cases hf with
    | @ok raw _ _ _ hs _ =>
      have hu := hs.under
      rcases hk with hk | hk
      · exact .inl hk
      · rw [hk] at hu
        exact .inr ⟨hk, hu⟩

/-- **`read_bytes` and `into_packets` agree, and neither reads past its message.** For a message
that was just opened, on any stream and with any cipher: both ways to read the body end in the same
outcome (the same bytes, the same error, or waiting at the same place), the same `PacketRx` and the
same cipher state. When the message was opened by `Sole` or `First` and `next` has returned its
final payload or `MessageAborted`, any further calls, whatever arrives between them, return
`Ok(None)` and leave the stream alone. -/
theorem iteration_agrees (T : TransportOps σ) {rx₀ rx : MessageRx} {s₀ s : σ} {m : Message}
    (hm : rx₀.readMessage T s₀ = .ready (.ok m, rx, s)) :
    (∃ o p buf s',
      (∃ n, ∀ k, n ≤ k → m.readBytesFor T k rx s = .inr (o, ⟨p, buf⟩, s')) ∧
      ∃ n, ∀ k, n ≤ k → m.collectFor T k rx s = .inr (o, ⟨p, rx.readBuf⟩, s')) ∧
    (m.firstHeader.kind = .sole ∨ m.firstHeader.kind = .first →
      ∀ acts more, (Lts.run (Iteration.act T) (.new m rx s) acts).Over →
        (Lts.run (Iteration.act T) (.new m rx s) acts).Rested
          (Lts.run (Iteration.act T) (.new m rx s) (acts ++ more)) more) := by
  refine ⟨m.bodies_agree rx s, fun hk acts more hover => ?_⟩
  have hplace := Lts.run_inv (Iteration.act_place (T := T)) acts
    (Iteration.new_place (s := s) (MessageRx.readMessage_opens hm hk))
  rw [Lts.run_append]
  exact Iteration.run_rested more (hplace.done_of_over hover)

/-- A receiver that has opened the first packet of a message in two packets. -/
def MessageRx.openedFirst : MessageRx :=
  { packets :=
      { packetReader := ⟨true, 3⟩
        read := ⟨frame (Tagged.encrypt 0 1 (PacketBuilder.header .last 3 ++ [9])), false⟩
        ciphertextBuf := Tagged.encrypt 0 0 (PacketBuilder.header .first 3 ++ [7])
        plaintextBuf := PacketBuilder.header .first 3 ++ [7] ++ List.replicate 16 0
        payloadEnd := 3 }
    readBuf := [] }

/-- Its body read both ways, and two calls of `next` behind it. -/
theorem iteration_agrees_two :
    (∃ o p buf s',
      (∃ n, ∀ k, n ≤ k → Message.readBytesFor Tagged.transport ⟨⟨.first, 3⟩⟩ k .openedFirst
        ⟨0, 0, 0, 1⟩ = .inr (o, ⟨p, buf⟩, s')) ∧
      ∃ n, ∀ k, n ≤ k → Message.collectFor Tagged.transport ⟨⟨.first, 3⟩⟩ k .openedFirst
        ⟨0, 0, 0, 1⟩ = .inr (o, ⟨p, []⟩, s')) ∧
    (Lts.run (Iteration.act Tagged.transport) (.new ⟨⟨.first, 3⟩⟩ .openedFirst ⟨0, 0, 0, 1⟩)
      [.next, .next]).Rested
        (Lts.run (Iteration.act Tagged.transport) (.new ⟨⟨.first, 3⟩⟩ .openedFirst ⟨0, 0, 0, 1⟩)
          ([.next, .next] ++ [.next, .arrive [1], .next])) [.next, .arrive [1], .next] := by
  have hm : MessageRx.readMessage Tagged.transport
      (.new { PacketRx.fresh with
        read := ⟨frame (Tagged.encrypt 0 0 (PacketBuilder.header .first 3 ++ [7])) ++
          frame (Tagged.encrypt 0 1 (PacketBuilder.header .last 3 ++ [9])), false⟩ })
      ⟨0, 0, 0, 0⟩ = .ready (.ok ⟨⟨.first, 3⟩⟩, .openedFirst, ⟨0, 0, 0, 1⟩) := by
    decide +kernel
  obtain ⟨hbodies, hrest⟩ := iteration_agrees Tagged.transport hm
  exact ⟨hbodies, hrest (.inr rfl) _ _ (.inl ⟨⟨[9], by decide +kernel⟩, by decide +kernel⟩)⟩

end Snowpack
