import Snowpack.Transport.Loop
import Snowpack.Transport.Proof.Sending
import Snowpack.Transport.Proof.Whole

/-!
# The loop's position in a stream of packets

`Item` is a message as it went over the wire: a complete one, or one that was abandoned after some
packets. `LoopAt items rest r` says where in a stream of items a receiving loop is: it has seen the
outcomes of the items before the one it is in, and `rest` is the packets it has not read. A turn of
the loop either touches no stream (`loop_local`), or waits (`loop_pending`), or takes the next
packet (`loop_packet`); nothing is said here of how packets come to be read.
-/

namespace Snowpack

open Wire

/-! ## Items -/

/-- A message on the wire: whole, or given up behind some of its chunks. -/
inductive Item
  | message (msgType : UInt16) (payload : Bytes)
  | aborted (msgType : UInt16) (chunk : Bytes) (chunks : List Bytes)
  deriving DecidableEq, Repr

namespace Item

/-- The packets of chunks sent with `last = false`. -/
def mids (t : UInt16) (cs : List Bytes) : List Packet := cs.map fun c => (⟨.mid, t⟩, c)

/-- The packets of an item. -/
def packets : Item → List Packet
  | message t p => packetize t p
  | aborted t c cs => (⟨.first, t⟩, c) :: mids t cs ++ [(⟨.abort, t⟩, [])]

/-- What the receiver sees of it. -/
def outcome : Item → Outcome
  | message t p => .got t p
  | aborted t _ _ => .aborted t

/-- Its type. -/
def msgType : Item → UInt16
  | message t _ => t
  | aborted t _ _ => t

end Item

/-- The rest of an item after its first packet, and whether it was abandoned. -/
inductive Body (t : UInt16) : Bool → List Packet → Prop
  | last (b : Bytes) : Body t false [(⟨.last, t⟩, b)]
  | abort (b : Bytes) : Body t true [(⟨.abort, t⟩, b)]
  | mid {a : Bool} {ps : List Packet} (b : Bytes) (h : Body t a ps) :
      Body t a ((⟨.mid, t⟩, b) :: ps)

theorem Body.ne_nil {t : UInt16} {a : Bool} {ps : List Packet} (h : Body t a ps) : ps ≠ [] := by
  cases h <;> simp

theorem body_cut {t : UInt16} : ∀ {cs : List Bytes}, cs ≠ [] → Body t false (cut t false cs)
  | [], h => absurd rfl h
  | [c], _ => .last c
  | c :: c' :: cs, _ => .mid c (body_cut (by simp))

theorem body_aborted {t : UInt16} : ∀ cs : List Bytes,
    Body t true (Item.mids t cs ++ [(⟨.abort, t⟩, [])])
  | [] => .abort []
  | c :: cs => .mid c (body_aborted cs)

theorem payloads_cut (t : UInt16) : ∀ (f : Bool) (cs : List Bytes),
    payloads (cut t f cs) = cs.flatten
  | _, [] => rfl
  | f, c :: cs => by
    have ih := payloads_cut t false cs
    simp only [payloads, cut, List.map_cons, List.flatten_cons] at ih ⊢
    rw [ih]

theorem flatten_slices (p : Bytes) : (slices p).flatten = p := by
  have h := flatten_chunks (n := maxPacketSize) (by decide) p
  unfold slices
  split
  · rename_i hc
    rw [hc] at h
    simpa using h
  · exact h

theorem payloads_packetize (t : UInt16) (p : Bytes) : payloads (packetize t p) = p := by
  rw [packetize, payloads_cut, flatten_slices]

/-- An item is one `Sole` packet, or a `First` packet and a body. -/
theorem Item.packets_cases (i : Item) :
    (∃ p, i = .message i.msgType p ∧ i.packets = [(⟨.sole, i.msgType⟩, p)]) ∨
    ∃ b body a, i.packets = (⟨.first, i.msgType⟩, b) :: body ∧ Body i.msgType a body ∧
      i.outcome = if a then .aborted i.msgType else .got i.msgType (payloads i.packets) := by
  cases i with
  | aborted t c cs => exact .inr ⟨c, _, true, rfl, body_aborted cs, rfl⟩
  | message t p =>
    have hpay := payloads_packetize t p
    simp only [Item.packets, Item.outcome, Item.msgType]
    unfold packetize at hpay ⊢
    cases hs : slices p with
    | nil => exact absurd hs (Sender.slices_ne_nil p)
    | cons c cs =>
      cases cs with
      | nil =>
        left
        rw [hs] at hpay
        simp only [cut, payloads_singleton] at hpay
        subst hpay
        exact ⟨c, rfl, rfl⟩
      | cons c' cs =>
        right
        refine ⟨c, cut t false (c' :: cs), false, rfl, body_cut (by simp), ?_⟩
        rw [← hs, hpay]
        rfl

/-! ## Where the loop is -/

/-- The packets of the items. -/
def wire (items : List Item) : List Packet := items.flatMap Item.packets

variable {σ : Type}

/-- How the packets `part` of the message being read are kept. -/
inductive Keeps (r : Receiver σ) (done : List Outcome) (t : UInt16) (part : List Packet) : Prop
  | reading (m : Message) (hh : r.handle = .reading m) (hm : m.msgType = t)
      (hbuf : r.rx.readBuf = payloads part) (hobs : observe r.events = ⟨done, some (t, [])⟩)
  | draining (m : Message) (hh : r.handle = .packets m ⟨false, none⟩) (hit : r.iterated = false)
      (hobs : observe r.events = ⟨done, some (t, payloads part)⟩)

/-- Where the loop is among the items, when `rest` is what it has not read. -/
inductive LoopAt (items : List Item) (rest : List Packet) (r : Receiver σ) : Prop
  | free (done future : List Item) (hitems : items = done ++ future) (hrest : rest = wire future)
      (hh : r.handle = .free) (hidle : r.rx.packets.packetReader.inProgress = false)
      (hobs : observe r.events = ⟨done.map Item.outcome, none⟩)
  | opened (done : List Item) (i : Item) (future : List Item) (m : Message) (b : Bytes)
      (body : List Packet) (u : UInt16) (hitems : items = done ++ i :: future)
      (hpk : i.packets = (m.firstHeader, b) :: body) (hrest : rest = body ++ wire future)
      (hh : r.handle = .message m ∨ r.handle = .packets m m.intoPackets)
      (hit : r.iterated = false) (hpay : r.rx.packets.payload = some b)
      (hrd : PacketReader.Step ⟨false, u⟩ m.firstHeader r.rx.packets.packetReader)
      (hobs : observe r.events = ⟨done.map Item.outcome, some (i.msgType, [])⟩)
  | inside (done : List Item) (i : Item) (future : List Item) (part body : List Packet) (a : Bool)
      (hitems : items = done ++ i :: future) (hpk : i.packets = part ++ body)
      (hbody : Body i.msgType a body)
      (hout : i.outcome = if a then .aborted i.msgType else .got i.msgType (payloads i.packets))
      (hrest : rest = body ++ wire future)
      (hrd : r.rx.packets.packetReader = ⟨true, i.msgType⟩)
      (hk : Keeps r (done.map Item.outcome) i.msgType part)
  | drained (done : List Item) (i : Item) (future : List Item) (m : Message)
      (hitems : items = done ++ i :: future)
      (hout : i.outcome = .got i.msgType (payloads i.packets)) (hrest : rest = wire future)
      (hh : r.handle = .packets m ⟨true, none⟩) (hit : r.iterated = false)
      (hidle : r.rx.packets.packetReader.inProgress = false)
      (hobs : observe r.events = ⟨done.map Item.outcome, some (i.msgType, payloads i.packets)⟩)
  | ended (done future : List Item) (m : Message) (mp : MessagePackets)
      (hitems : items = done ++ future) (hrest : rest = wire future)
      (hh : r.handle = .packets m mp) (hit : r.iterated = true)
      (hidle : r.rx.packets.packetReader.inProgress = false)
      (hobs : observe r.events = ⟨done.map Item.outcome, none⟩)

/-- The next turn of the loop reads from the stream. -/
def Receiver.ReadsNext (r : Receiver σ) : Prop :=
  match r.handle with
  | .free | .reading _ => True
  | .packets _ mp => r.iterated = false ∧ mp.done = false ∧ mp.firstKind = none
  | _ => False

/-- The turns the loop can take before it reads again. -/
def Receiver.rank (r : Receiver σ) : Nat :=
  match r.handle with
  | .message _ => 4
  | .packets _ mp =>
    if r.iterated then 1 else if mp.done then 2 else if mp.firstKind.isSome then 3 else 0
  | _ => 0

theorem Receiver.rank_le (r : Receiver σ) : r.rank ≤ 4 := by
  unfold rank
  split
  · omega
  · split_ifs <;> omega
  · omega

namespace LoopAt

variable {T : TransportOps σ} {items : List Item} {rest : List Packet} {r : Receiver σ}

theorem wire_cons (i : Item) (items : List Item) : wire (i :: items) = i.packets ++ wire items := by
  simp only [wire, List.flatMap_cons]

theorem wire_append (items more : List Item) : wire (items ++ more) = wire items ++ wire more := by
  simp only [wire, List.flatMap_append]

/-- The outcomes seen are those of the first items, and all their packets have been read. -/
theorem outcomes (h : LoopAt items rest r) :
    ∃ done part, done <+: items ∧ wire items = wire done ++ (part ++ rest) ∧
      (observe r.events).outcomes = done.map Item.outcome := by
  cases h with
  | free done future hitems hrest hh hidle hobs =>
    refine ⟨done, [], ⟨future, hitems.symm⟩, ?_, by rw [hobs]⟩
    rw [hitems, wire_append, hrest, List.nil_append]
  | opened done i future m b body u hitems hpk hrest hh hit hpay hrd hobs =>
    refine ⟨done, [(m.firstHeader, b)], ⟨_, hitems.symm⟩, ?_, by rw [hobs]⟩
    rw [hitems, wire_append, wire_cons, hpk, hrest]
    rfl
  | inside done i future part body a hitems hpk hbody hout hrest hrd hk =>
    refine ⟨done, part, ⟨_, hitems.symm⟩, ?_, ?_⟩
    · rw [hitems, wire_append, wire_cons, hpk, hrest, List.append_assoc]
    · cases hk with
      | reading m hh hm hbuf hobs => rw [hobs]
      | draining m hh hit hobs => rw [hobs]
  | drained done i future m hitems hout hrest hh hit hidle hobs =>
    refine ⟨done, i.packets, ⟨_, hitems.symm⟩, ?_, by rw [hobs]⟩
    rw [hitems, wire_append, wire_cons, hrest]
  | ended done future m mp hitems hrest hh hit hidle hobs =>
    refine ⟨done, [], ⟨future, hitems.symm⟩, ?_, by rw [hobs]⟩
    rw [hitems, wire_append, hrest, List.nil_append]

/-- The position depends on the handle, the events, the reader and the payloads only. -/
theorem of_eq (h : LoopAt items rest r) {r' : Receiver σ} (hh' : r'.handle = r.handle)
    (he : r'.events = r.events) (hb : r'.rx.readBuf = r.rx.readBuf)
    (hr : r'.rx.packets.packetReader = r.rx.packets.packetReader)
    (hp : r'.rx.packets.payload = r.rx.packets.payload) : LoopAt items rest r' := by
  have hi : r'.iterated = r.iterated := by simp only [Receiver.iterated, he]
  cases h with
  | free done future hitems hrest hh hidle hobs =>
    exact .free done future hitems hrest (hh'.trans hh) (hr ▸ hidle) (he ▸ hobs)
  | opened done i future m b body u hitems hpk hrest hh hit hpay hrd hobs =>
    exact .opened done i future m b body u hitems hpk hrest (by rw [hh']; exact hh)
      (hi.trans hit) (hp.trans hpay) (hr ▸ hrd) (he ▸ hobs)
  | inside done i future part body a hitems hpk hbody hout hrest hrd hk =>
    refine .inside done i future part body a hitems hpk hbody hout hrest (hr ▸ hrd) ?_
    cases hk with
    | reading m hh hm hbuf hobs => exact .reading m (hh'.trans hh) hm (hb.trans hbuf) (he ▸ hobs)
    | draining m hh hit hobs => exact .draining m (hh'.trans hh) (hi.trans hit) (he ▸ hobs)
  | drained done i future m hitems hout hrest hh hit hidle hobs =>
    exact .drained done i future m hitems hout hrest (hh'.trans hh) (hi.trans hit) (hr ▸ hidle)
      (he ▸ hobs)
  | ended done future m mp hitems hrest hh hit hidle hobs =>
    exact .ended done future m mp hitems hrest (hh'.trans hh) (hi.trans hit) (hr ▸ hidle)
      (he ▸ hobs)

/-- With no packet left, a loop that is about to read is at `read_message`. -/
theorem free_of_nil (h : LoopAt items [] r) (hn : r.ReadsNext) : r.handle = .free := by
  cases h with
  | free done future hitems hrest hh hidle hobs => exact hh
  | opened done i future m b body u hitems hpk hrest hh hit hpay hrd hobs =>
    rcases hh with hh | hh <;> simp [Receiver.ReadsNext, hh, Message.intoPackets] at hn
  | inside done i future part body a hitems hpk hbody hout hrest hrd hk =>
    exact absurd (List.append_eq_nil_iff.1 hrest.symm).1 hbody.ne_nil
  | drained done i future m hitems hout hrest hh hit hidle hobs =>
    simp [Receiver.ReadsNext, hh] at hn
  | ended done future m mp hitems hrest hh hit hidle hobs =>
    simp [Receiver.ReadsNext, hh, hit] at hn

/-! ## Turns that read nothing -/

/-- What is left of an item once its first packet has been read. -/
theorem after_first {i : Item} {m : Message} {b : Bytes} {body : List Packet} {u : UInt16}
    {rd : PacketReader} (hpk : i.packets = (m.firstHeader, b) :: body)
    (hrd : PacketReader.Step ⟨false, u⟩ m.firstHeader rd) :
    m.msgType = i.msgType ∧
    ((m.firstHeader.kind = .sole ∧ i.outcome = .got i.msgType b ∧ i.packets = [(m.firstHeader, b)] ∧
        body = [] ∧ rd.inProgress = false) ∨
      m.firstHeader.kind = .first ∧ rd = ⟨true, i.msgType⟩ ∧ ∃ a, Body i.msgType a body ∧
        i.outcome = if a then .aborted i.msgType else .got i.msgType (payloads i.packets)) := by
  obtain ⟨⟨k, t⟩⟩ := m
  rcases i.packets_cases with ⟨p, hi, hp⟩ | ⟨b', body', a, hp, hbody, hout⟩
  · rw [hp] at hpk
    simp only [List.cons.injEq, Prod.mk.injEq, PacketHeader.mk.injEq] at hpk
    obtain ⟨⟨⟨rfl, rfl⟩, rfl⟩, rfl⟩ := hpk
    cases hrd
    refine ⟨rfl, .inl ⟨rfl, ?_, hp, rfl, rfl⟩⟩
    rw [hi]
    rfl
  · have hpk' := hpk
    rw [hp] at hpk'
    simp only [List.cons.injEq, Prod.mk.injEq, PacketHeader.mk.injEq] at hpk'
    obtain ⟨⟨⟨rfl, rfl⟩, rfl⟩, rfl⟩ := hpk'
    cases hrd
    exact ⟨rfl, .inr ⟨rfl, rfl, a, hbody, hout⟩⟩

/-- The receiver after a call that left the stream alone. -/
def Local (T : TransportOps σ) (items : List Item) (rest : List Packet) (r : Receiver σ)
    (drain : Bool) : Prop :=
  LoopAt items rest (r.loop T drain) ∧ (r.loop T drain).rx.packets = r.rx.packets ∧
    (r.loop T drain).cipher = r.cipher ∧ (r.loop T drain).rank < r.rank

theorem local_readBytes {done future : List Item} {i : Item} {m : Message} {b : Bytes}
    {body : List Packet} {u : UInt16} (hitems : items = done ++ i :: future)
    (hpk : i.packets = (m.firstHeader, b) :: body) (hrest : rest = body ++ wire future)
    (hh : r.handle = .message m) (hpay : r.rx.packets.payload = some b)
    (hrd : PacketReader.Step ⟨false, u⟩ m.firstHeader r.rx.packets.packetReader)
    (hobs : observe r.events = ⟨done.map Item.outcome, some (i.msgType, [])⟩) :
    Local T items rest r false := by
  obtain ⟨hmt, hcase⟩ := after_first hpk hrd
  have hext := Receiver.extend_empty hpay
  unfold Local
  simp only [Receiver.loop, Receiver.loopCall, hh, Bool.false_eq_true, ↓reduceIte, Receiver.call,
    Receiver.readBytes, Message.readBytes, hext]
  rcases hcase with ⟨hk, hout, hp, rfl, hidle⟩ | ⟨hk, hrd', a, hbody, hout⟩
  · simp only [hk, ↓reduceIte, Receiver.progress]
    refine ⟨.free (done ++ [i]) future (by simp [hitems]) (by simpa using hrest) rfl hidle ?_,
      trivial, trivial, by simp [Receiver.rank, hh]⟩
    simp only [observe_append, hobs, Observed.event, Observed.add, List.map_append, List.map_cons,
      List.map_nil, hout, hmt]
  · simp only [hk, reduceCtorEq, ↓reduceIte, Receiver.progress]
    refine ⟨.inside done i future [(m.firstHeader, b)] body a hitems hpk hbody hout hrest hrd'
      (.reading m rfl hmt ?_ hobs), trivial, trivial, by simp [Receiver.rank, hh]⟩
    rw [payloads_singleton]

theorem iterated_append (r : Receiver σ) (e : RxEvent) (h : Handle) :
    Receiver.iterated { r with handle := h, events := r.events ++ [e] } =
      match e with
      | .chunk none => true
      | .failed _ => true
      | _ => false := by
  unfold Receiver.iterated
  simp only [List.getLast?_append, List.getLast?_singleton, Option.some_or]
  match e with
  | .chunk none => rfl
  | .chunk (some _) => rfl
  | .failed _ => rfl
  | .opened _ => rfl
  | .bytes _ _ => rfl
  | .panicked _ => rfl

/-- The buffered packet is yielded. -/
theorem local_next {done future : List Item} {i : Item} {m : Message} {b : Bytes}
    {body : List Packet} {u : UInt16} {drain : Bool} (hitems : items = done ++ i :: future)
    (hpk : i.packets = (m.firstHeader, b) :: body) (hrest : rest = body ++ wire future)
    (hh : r.handle = .packets m m.intoPackets) (hit : r.iterated = false)
    (hpay : r.rx.packets.payload = some b)
    (hrd : PacketReader.Step ⟨false, u⟩ m.firstHeader r.rx.packets.packetReader)
    (hobs : observe r.events = ⟨done.map Item.outcome, some (i.msgType, [])⟩) :
    Local T items rest r drain := by
  obtain ⟨hmt, hcase⟩ := after_first hpk hrd
  unfold Local
  simp only [Receiver.loop, Receiver.loopCall, hh, hit, Bool.false_eq_true, ↓reduceIte,
    Receiver.call, Receiver.next, MessagePackets.next, Message.intoPackets, MessageRx.yield, hpay,
    Option.isSome_some, or_true, Receiver.yielded]
  rcases hcase with ⟨hk, hout, hp, rfl, hidle⟩ | ⟨hk, hrd', a, hbody, hout⟩
  · refine ⟨.drained done i future m hitems ?_ (by simpa using hrest) ?_ ?_ hidle ?_, trivial,
      trivial, ?_⟩
    · rw [hp, payloads_singleton]
      exact hout
    · simp only [hk, decide_true]
    · rw [iterated_append]
    · simp only [observe_append, hobs, Observed.event, Option.map_some, List.nil_append, hp,
        payloads_singleton]
    · simp [Receiver.rank, hh, hit, iterated_append, hk, Message.intoPackets]
  · refine ⟨.inside done i future [(m.firstHeader, b)] body a hitems hpk hbody hout hrest hrd'
      (.draining m ?_ ?_ ?_), trivial, trivial, ?_⟩
    · simp only [hk, reduceCtorEq, decide_false]
    · rw [iterated_append]
    · simp only [observe_append, hobs, Observed.event, Option.map_some, List.nil_append,
        payloads_singleton]
    · simp [Receiver.rank, hh, hit, iterated_append, hk, Message.intoPackets]

/-- A turn that reads nothing keeps the position. -/
theorem loop_local (h : LoopAt items rest r) (hn : ¬ r.ReadsNext) (drain : Bool) :
    Local T items rest r drain := by
  cases h with
  | free done future hitems hrest hh hidle hobs =>
    exact absurd (by simp only [Receiver.ReadsNext, hh]) hn
  | opened done i future m b body u hitems hpk hrest hh hit hpay hrd hobs =>
    rcases hh with hh | hh
    · cases drain with
      | false => exact local_readBytes hitems hpk hrest hh hpay hrd hobs
      | true =>
        unfold Local
        simp only [Receiver.loop, Receiver.loopCall, hh, ↓reduceIte, Receiver.call]
        refine ⟨.opened done i future m b body u hitems hpk hrest (.inr rfl) hit hpay hrd hobs,
          trivial, trivial, ?_⟩
        simp only [Receiver.rank, hh, Message.intoPackets, Option.isSome_some, Bool.false_eq_true,
          ↓reduceIte]
        split <;> omega
    · exact local_next hitems hpk hrest hh hit hpay hrd hobs
  | inside done i future part body a hitems hpk hbody hout hrest hrd hk =>
    refine absurd ?_ hn
    cases hk with
    | reading m hh hm hbuf hobs => simp only [Receiver.ReadsNext, hh]
    | draining m hh hit hobs => simp only [Receiver.ReadsNext, hh, hit, and_self]
  | drained done i future m hitems hout hrest hh hit hidle hobs =>
    unfold Local
    simp only [Receiver.loop, Receiver.loopCall, hh, hit, Bool.false_eq_true, ↓reduceIte,
      Receiver.call, Receiver.next, MessagePackets.next, true_or, Receiver.yielded]
    refine ⟨.ended (done ++ [i]) future m ⟨true, none⟩ (by simp [hitems]) hrest rfl ?_ hidle ?_,
      trivial, trivial, ?_⟩
    · rw [iterated_append]
    · simp only [observe_append, hobs, Observed.event, Observed.add, List.map_append,
        List.map_cons, List.map_nil, hout]
    · simp [Receiver.rank, hh, hit, iterated_append]
  | ended done future m mp hitems hrest hh hit hidle hobs =>
    unfold Local
    simp only [Receiver.loop, Receiver.loopCall, hh, hit, ↓reduceIte, Receiver.call]
    exact ⟨.free done future hitems hrest rfl hidle hobs, trivial, trivial,
      by simp [Receiver.rank, hh, hit]⟩

/-! ## Turns that read a packet -/

/-- The next packet of the stream is one the reader accepts. -/
theorem next_step (h : LoopAt items rest r) (hn : r.ReadsNext) {p : Packet} {rest' : List Packet}
    (hp : rest = p :: rest') : ∃ rd, PacketReader.Step r.rx.packets.packetReader p.1 rd := by
  cases h with
  | free done future hitems hrest hh hidle hobs =>
    cases future with
    | nil =>
      rw [hrest] at hp
      cases hp
    | cons i future =>
      refine PacketReader.exists_step_of_starting hidle ?_
      rw [hrest, wire_cons] at hp
      rcases i.packets_cases with ⟨q, -, hq⟩ | ⟨b, body, a, hq, -, -⟩
      · rw [hq] at hp
        cases hp
        exact .inl rfl
      · rw [hq] at hp
        cases hp
        exact .inr rfl
  | opened done i future m b body u hitems hpk hrest hh hit hpay hrd hobs =>
    rcases hh with hh | hh <;> simp [Receiver.ReadsNext, hh, Message.intoPackets] at hn
  | inside done i future part body a hitems hpk hbody hout hrest hrd hk =>
    rw [hrest] at hp
    rw [hrd]
    cases hbody with
    | last b => cases hp; exact ⟨_, .last _⟩
    | abort b => cases hp; exact ⟨_, .abort _⟩
    | mid b hb => cases hp; exact ⟨_, .mid _⟩
  | drained done i future m hitems hout hrest hh hit hidle hobs =>
    simp [Receiver.ReadsNext, hh] at hn
  | ended done future m mp hitems hrest hh hit hidle hobs =>
    simp [Receiver.ReadsNext, hh, hit] at hn

theorem loop_pending (hn : r.ReadsNext)
    (hread : r.rx.packets.readPacket T r.cipher = .pending) (drain : Bool) :
    r.loop T drain = r := by
  unfold Receiver.ReadsNext at hn
  split at hn
  · rename_i hh
    simp only [Receiver.loop, Receiver.loopCall, hh, Receiver.call, Receiver.readMessage,
      MessageRx.readMessage, hread]
  · rename_i m hh
    simp only [Receiver.loop, Receiver.loopCall, hh, Receiver.call, Receiver.poll,
      MessageRx.bodyTurn, hread]
  · rename_i m mp hh
    obtain ⟨hit, hd, hk⟩ := hn
    simp only [Receiver.loop, Receiver.loopCall, hh, hit, Bool.false_eq_true, ↓reduceIte,
      Receiver.call, Receiver.next, MessagePackets.next, hd, hk, hread]
  · exact hn.elim

/-- At the end of the stream a turn is a `read_message` that fails, and leaves the loop where it
was. -/
theorem loop_end (hh : r.handle = .free) (hread : r.rx.packets.read = ⟨[], true⟩) (drain : Bool) :
    (r.loop T drain).handle = .free ∧ (r.loop T drain).rx.packets.read = ⟨[], true⟩ ∧
      (r.loop T drain).events = r.events ++ [.failed (.io .unexpectedEof)] := by
  have hend := PacketRx.readPacket_end (T := T) (s := r.cipher) hread
  simp only [Receiver.loop, Receiver.loopCall, hh, Receiver.call, Receiver.readMessage,
    MessageRx.readMessage, hend, Receiver.advance, Receiver.fault]
  exact ⟨trivial, hread, trivial⟩

/-- `read_packet` takes the packet `p` off the stream. -/
structure Takes (T : TransportOps σ) (r : Receiver σ) (p : Packet) (rx' : PacketRx) (s' : σ) :
    Prop where
  read : r.rx.packets.readPacket T r.cipher = .ready (.ok p.1, rx', s')
  payload : rx'.payload = some p.2
  step : PacketReader.Step r.rx.packets.packetReader p.1 rx'.packetReader

/-- The receiver after a turn that took a packet. -/
def Took (T : TransportOps σ) (items : List Item) (rest' : List Packet) (r : Receiver σ)
    (rx' : PacketRx) (s' : σ) (drain : Bool) : Prop :=
  LoopAt items rest' (r.loop T drain) ∧ (r.loop T drain).rx.packets = rx' ∧
    (r.loop T drain).cipher = s'

variable {p : Packet} {rest' : List Packet} {rx' : PacketRx} {s' : σ}

theorem took_free {done future : List Item} (hitems : items = done ++ future)
    (hrest : p :: rest' = wire future) (hh : r.handle = .free)
    (hidle : r.rx.packets.packetReader.inProgress = false)
    (hobs : observe r.events = ⟨done.map Item.outcome, none⟩) (ht : Takes T r p rx' s')
    (drain : Bool) : Took T items rest' r rx' s' drain := by
  cases future with
  | nil => cases hrest
  | cons i future =>
    rw [wire_cons] at hrest
    obtain ⟨h, b⟩ := p
    obtain ⟨body, hpk, hbody⟩ : ∃ body, i.packets = (h, b) :: body ∧
        rest' = body ++ wire future := by
      rcases i.packets_cases with ⟨q, -, hq⟩ | ⟨b', body, a, hq, -, -⟩
      · rw [hq] at hrest
        simp only [List.cons_append, List.nil_append, List.cons.injEq] at hrest
        exact ⟨[], by rw [hq, ← hrest.1], hrest.2⟩
      · rw [hq] at hrest
        simp only [List.cons_append, List.cons.injEq] at hrest
        exact ⟨body, by rw [hq, ← hrest.1], hrest.2⟩
    have hstep :
        PacketReader.Step ⟨false, r.rx.packets.packetReader.msgType⟩ h rx'.packetReader := by
      rw [← hidle]
      exact ht.step
    have hmt : h.msgType = i.msgType := (after_first (m := ⟨h⟩) hpk hstep).1
    unfold Took
    simp only [Receiver.loop, Receiver.loopCall, hh, Receiver.call, Receiver.readMessage,
      MessageRx.readMessage, ht.read, Receiver.advance]
    refine ⟨.opened done i future ⟨h⟩ b body _ hitems hpk hbody (.inl rfl) ?_ ht.payload hstep ?_,
      trivial, trivial⟩
    · unfold Receiver.iterated
      simp only [List.getLast?_append, List.getLast?_singleton, Option.some_or]
    · simp only [observe_append, hobs, Observed.event, hmt]

theorem took_reading {done future : List Item} {i : Item} {part body : List Packet} {a : Bool}
    {m : Message} (hitems : items = done ++ i :: future) (hpk : i.packets = part ++ body)
    (hbody : Body i.msgType a body)
    (hout : i.outcome = if a then .aborted i.msgType else .got i.msgType (payloads i.packets))
    (hrest : p :: rest' = body ++ wire future) (hh : r.handle = .reading m)
    (hm : m.msgType = i.msgType) (hbuf : r.rx.readBuf = payloads part)
    (hrd : r.rx.packets.packetReader = ⟨true, i.msgType⟩)
    (hobs : observe r.events = ⟨done.map Item.outcome, some (i.msgType, [])⟩)
    (ht : Takes T r p rx' s') (drain : Bool) : Took T items rest' r rx' s' drain := by
  obtain ⟨hread, hpay, hstep⟩ := ht
  rw [hrd] at hstep
  unfold Took
  cases hbody with
  | last b =>
    cases hrest
    simp only [Receiver.loop, Receiver.loopCall, hh, Receiver.call, Receiver.poll,
      MessageRx.bodyTurn, hread, MessageRx.extend, hpay, Receiver.progress, Receiver.advance]
    refine ⟨.free (done ++ [i]) future (by simp [hitems]) rfl rfl ?_ ?_, trivial, trivial⟩
    · generalize rx'.packetReader = rd at hstep ⊢
      cases hstep
      rfl
    · simp only [observe_append, hobs, Observed.event, Observed.add, List.map_append,
        List.map_cons, List.map_nil, hout, hpk, payloads_append, payloads_singleton, hbuf, hm,
        Bool.false_eq_true, ↓reduceIte]
  | abort b =>
    cases hrest
    simp only [Receiver.loop, Receiver.loopCall, hh, Receiver.call, Receiver.poll,
      MessageRx.bodyTurn, hread, Receiver.progress, Receiver.fault, Receiver.advance]
    refine ⟨.free (done ++ [i]) future (by simp [hitems]) rfl rfl ?_ ?_, trivial, trivial⟩
    · generalize rx'.packetReader = rd at hstep ⊢
      cases hstep
      rfl
    · simp only [observe_append, hobs, Observed.event, Observed.add, List.map_append,
        List.map_cons, List.map_nil, hout, ↓reduceIte]
  | @mid _ ps b hb =>
    cases hrest
    simp only [Receiver.loop, Receiver.loopCall, hh, Receiver.call, Receiver.poll,
      MessageRx.bodyTurn, hread, MessageRx.extend, hpay, Receiver.progress, Receiver.advance]
    refine ⟨.inside done i future (part ++ [(⟨.mid, i.msgType⟩, b)]) ps a hitems
      (by rw [hpk, List.append_assoc]; rfl) hb hout rfl hstep.mid_eq
      (.reading m rfl hm ?_ hobs), trivial, trivial⟩
    simp only [hbuf, payloads_append, payloads_singleton]

theorem took_draining {done future : List Item} {i : Item} {part body : List Packet} {a : Bool}
    {m : Message} (hitems : items = done ++ i :: future) (hpk : i.packets = part ++ body)
    (hbody : Body i.msgType a body)
    (hout : i.outcome = if a then .aborted i.msgType else .got i.msgType (payloads i.packets))
    (hrest : p :: rest' = body ++ wire future) (hh : r.handle = .packets m ⟨false, none⟩)
    (hit : r.iterated = false) (hrd : r.rx.packets.packetReader = ⟨true, i.msgType⟩)
    (hobs : observe r.events = ⟨done.map Item.outcome, some (i.msgType, payloads part)⟩)
    (ht : Takes T r p rx' s') (drain : Bool) : Took T items rest' r rx' s' drain := by
  obtain ⟨hread, hpay, hstep⟩ := ht
  rw [hrd] at hstep
  unfold Took
  cases hbody with
  | last b =>
    cases hrest
    simp only [Receiver.loop, Receiver.loopCall, hh, hit, Bool.false_eq_true, ↓reduceIte,
      Receiver.call, Receiver.next, MessagePackets.next, hread, MessageRx.yield, hpay,
      Option.isSome_none, or_self, Receiver.yielded, Receiver.advance]
    refine ⟨.drained done i future m hitems ?_ rfl rfl ?_ ?_ ?_, trivial, trivial⟩
    · simpa using hout
    · unfold Receiver.iterated
      simp only [List.getLast?_append, List.getLast?_singleton, Option.some_or]
    · generalize rx'.packetReader = rd at hstep ⊢
      cases hstep
      rfl
    · simp only [observe_append, hobs, Observed.event, Option.map_some, hpk, payloads_append,
        payloads_singleton]
  | abort b =>
    cases hrest
    simp only [Receiver.loop, Receiver.loopCall, hh, hit, Bool.false_eq_true, ↓reduceIte,
      Receiver.call, Receiver.next, MessagePackets.next, hread, Option.isSome_none, or_self,
      Receiver.yielded, Receiver.fault, Receiver.advance]
    refine ⟨.ended (done ++ [i]) future m ⟨true, none⟩ (by simp [hitems]) rfl rfl ?_ ?_ ?_,
      trivial, trivial⟩
    · unfold Receiver.iterated
      simp only [List.getLast?_append, List.getLast?_singleton, Option.some_or]
    · generalize rx'.packetReader = rd at hstep ⊢
      cases hstep
      rfl
    · simp only [observe_append, hobs, Observed.event, Observed.add, List.map_append,
        List.map_cons, List.map_nil, hout, ↓reduceIte]
  | @mid _ ps b hb =>
    cases hrest
    simp only [Receiver.loop, Receiver.loopCall, hh, hit, Bool.false_eq_true, ↓reduceIte,
      Receiver.call, Receiver.next, MessagePackets.next, hread, MessageRx.yield, hpay,
      Option.isSome_none, or_self, Receiver.yielded, Receiver.advance]
    refine ⟨.inside done i future (part ++ [(⟨.mid, i.msgType⟩, b)]) ps a hitems
      (by rw [hpk, List.append_assoc]; rfl) hb hout rfl hstep.mid_eq
      (.draining m rfl ?_ ?_), trivial, trivial⟩
    · unfold Receiver.iterated
      simp only [List.getLast?_append, List.getLast?_singleton, Option.some_or]
    · simp only [observe_append, hobs, Observed.event, Option.map_some, payloads_append,
        payloads_singleton]

/-- A turn that takes the next packet of the stream moves the position past it. -/
theorem loop_packet (h : LoopAt items (p :: rest') r) (hn : r.ReadsNext)
    (ht : Takes T r p rx' s') (drain : Bool) : Took T items rest' r rx' s' drain := by
  cases h with
  | free done future hitems hrest hh hidle hobs =>
    exact took_free hitems hrest hh hidle hobs ht drain
  | opened done i future m b body u hitems hpk hrest hh hit hpay hrd hobs =>
    rcases hh with hh | hh <;> simp [Receiver.ReadsNext, hh, Message.intoPackets] at hn
  | inside done i future part body a hitems hpk hbody hout hrest hrd hk =>
    cases hk with
    | reading m hh hm hbuf hobs =>
      exact took_reading hitems hpk hbody hout hrest hh hm hbuf hrd hobs ht drain
    | draining m hh hit hobs =>
      exact took_draining hitems hpk hbody hout hrest hh hit hrd hobs ht drain
  | drained done i future m hitems hout hrest hh hit hidle hobs =>
    simp [Receiver.ReadsNext, hh] at hn
  | ended done future m mp hitems hrest hh hit hidle hobs =>
    simp [Receiver.ReadsNext, hh, hit] at hn

end LoopAt

end Snowpack
