import Snowpack.Transport.Proof.EndToEnd

/-!
# A hostile stream

Two sides send and receive as before, but an adversary owns the streams between them: what arrives
at a receiver is any bytes at all, whatever the other side wrote. Only the cipher is ideal: what
decrypts at receive nonce `k` is the peer's `k`-th plaintext (`TransportSpec.Ideal`).

`Tampered` is the invariant of a receiving loop in this setting. As long as nothing failed, the
loop is at a position in the peer's stream of packets, and the receive nonce is that position; a
packet that is read moves both (`loop_clean`), since no other plaintext decrypts there. The first
failure is recorded, and nothing that follows takes back what was seen before it.
-/

namespace Snowpack

open Wire

variable {σ : Type} {T : TransportOps σ} {S : TransportSpec T}

/-! ## The adversary's moves -/

/-- A step of a side, or a move of the adversary. -/
inductive TamperAct
  | send (x : Side)
  | recv (x : Side) (drain : Bool)
  /-- the adversary lets bytes of its choice arrive at `x` -/
  | inject (x : Side) (bytes : Bytes)
  /-- the adversary ends the stream to `x` -/
  | close (x : Side)
  deriving DecidableEq, Repr

/-- What an action does. Nothing arrives that the adversary does not let in. -/
def Duplex.tamper (T : TransportOps σ) (d : Duplex σ) : TamperAct → Duplex σ
  | .send x => d.step T (.send x)
  | .recv x drain => d.step T (.recv x drain)
  | .inject x bytes =>
    d.set x { d.at_ x with receiver := (d.at_ x).receiver.act T (.arrive bytes) }
  | .close x => d.set x { d.at_ x with receiver := (d.at_ x).receiver.act T .close }

/-- Under `key`, nothing decrypts at nonce `k` but the ciphertext of the `k`-th of `writes`. -/
def TransportSpec.Ideal (S : TransportSpec T) (key : S.Key) (writes : List Bytes) : Prop :=
  ∀ k c p, S.decrypt key k c = some p → writes[k]? = some p ∧ c = S.encrypt key k p

/-! ## Reads of any stream -/

/-- What an accepted packet stands for, and what a read does to the cipher state. -/
theorem PacketRx.readPacket_inv (S : TransportSpec T) {rx rx' : PacketRx} {s s' : σ}
    {res : Res PacketHeader} (h : rx.readPacket T s = .ready (res, rx', s')) :
    SameSend S s s' ∧ ∀ header, res = .ok header →
      ∃ c raw, S.decrypt (S.recvKey s) (S.recvNonce s) c = some raw ∧
        rx.packetReader.read raw = (.ok header, rx'.packetReader) ∧
        rx'.payload = some (raw.drop 2) ∧ S.recvKey s' = S.recvKey s ∧
        S.recvNonce s' = S.recvNonce s + 1 := by
  have hf := readPacket_finds S rx s
  rw [h] at hf
  generalize hfind : S.find _ _ _ _ = found at hf
  cases hf with
  | ready his hreader hread hsend hkey hnonce =>
    refine ⟨hsend, fun header he => ?_⟩
    subst he hreader
    cases his with
    | packet hle hraw =>
      obtain ⟨⟨c, -, hdec⟩, hrd, hn⟩ := TransportSpec.find_packet hfind
      refine ⟨c, _, hdec, hrd, ?_, hkey, hnonce.trans hn⟩
      rw [payload_eq _ hle, hraw]

/-! ## The record of a receiver -/

namespace Receiver

variable (T) in
/-- A call adds to the events, and moves the cipher state only by reading a packet. -/
structure Follows (r r' : Receiver σ) : Prop where
  events : ∃ es, r'.events = r.events ++ es
  cipher : r'.cipher = r.cipher ∨
    ∃ res rx s, r.rx.packets.readPacket T r.cipher = .ready (res, rx, s) ∧ r'.cipher = s

theorem Follows.refl (r : Receiver σ) : Follows T r r := ⟨⟨[], (List.append_nil _).symm⟩, .inl rfl⟩

/-- What one more event and a new cipher state make of a receiver. -/
theorem Follows.of_event {r r' : Receiver σ} {res : Res PacketHeader} {rx : PacketRx} {s : σ}
    (hread : r.rx.packets.readPacket T r.cipher = .ready (res, rx, s)) (hc : r'.cipher = s)
    (es : List RxEvent) (he : r'.events = r.events ++ es) : Follows T r r' :=
  ⟨⟨es, he⟩, .inr ⟨res, rx, s, hread, hc⟩⟩

theorem fault_follows {r r1 : Receiver σ} (h : Follows T r r1) (f : Fault) (after : Handle) :
    Follows T r (r1.fault f after) := by
  obtain ⟨es, he⟩ := h.events
  cases f with
  | error e =>
    exact ⟨⟨es ++ [.failed e], by simp only [fault, he, List.append_assoc]⟩, h.cipher⟩
  | panic p =>
    exact ⟨⟨es ++ [.panicked p], by simp only [fault, he, List.append_assoc]⟩, h.cipher⟩

theorem progress_follows {r r1 : Receiver σ} (h : Follows T r r1) (m : Message)
    (res : Option (Res Bytes)) : Follows T r (r1.progress m res) := by
  obtain ⟨es, he⟩ := h.events
  match res with
  | none => exact ⟨⟨es, he⟩, h.cipher⟩
  | some (.ok b) =>
    exact ⟨⟨es ++ [.bytes m.msgType b], by simp only [progress, he, List.append_assoc]⟩, h.cipher⟩
  | some (.error f) => exact fault_follows h f .free

theorem yielded_follows {r r1 : Receiver σ} (h : Follows T r r1) (m : Message)
    (mp : MessagePackets) (res : Res (Option Bytes)) : Follows T r (r1.yielded m mp res) := by
  obtain ⟨es, he⟩ := h.events
  match res with
  | .ok p => exact ⟨⟨es ++ [.chunk p], by simp only [yielded, he, List.append_assoc]⟩, h.cipher⟩
  | .error f => exact fault_follows h f _

theorem advance_follows {r : Receiver σ} {res : Res PacketHeader} {p : PacketRx} {s : σ}
    (hread : r.rx.packets.readPacket T r.cipher = .ready (res, p, s)) (rx : MessageRx) :
    Follows T r (r.advance T rx s) :=
  .of_event hread rfl [] (List.append_nil _).symm

theorem readMessage_follows (r : Receiver σ) : Follows T r (r.readMessage T) := by
  unfold readMessage MessageRx.readMessage
  cases hread : r.rx.packets.readPacket T r.cipher with
  | pending => exact .refl r
  | ready a =>
    obtain ⟨res, p, s⟩ := a
    cases res with
    | error f => exact fault_follows (advance_follows hread _) f .free
    | ok header => exact .of_event hread rfl [.opened header] rfl

theorem poll_follows (r : Receiver σ) (m : Message) : Follows T r (r.poll T m) := by
  cases hread : r.rx.packets.readPacket T r.cipher with
  | pending =>
    simp only [poll, MessageRx.bodyTurn, hread]
    exact .refl r
  | ready a =>
    obtain ⟨res, p, s⟩ := a
    obtain ⟨res', rx', hturn⟩ : ∃ res' rx',
        r.rx.bodyTurn T r.cipher = .ready (res', rx', s) := by
      unfold MessageRx.bodyTurn
      rw [hread]
      cases res with
      | error f => exact ⟨_, _, rfl⟩
      | ok header =>
        simp only
        cases header.kind with
        | sole => exact ⟨_, _, rfl⟩
        | first => exact ⟨_, _, rfl⟩
        | abort => exact ⟨_, _, rfl⟩
        | mid => simp only; split <;> exact ⟨_, _, rfl⟩
        | last => simp only; split <;> exact ⟨_, _, rfl⟩
    simp only [poll, hturn]
    exact progress_follows (advance_follows hread _) m _

theorem next_follows (r : Receiver σ) (m : Message) (mp : MessagePackets) :
    Follows T r (r.next T m mp) := by
  by_cases hd : mp.done ∨ mp.firstKind.isSome
  · -- nothing is read: the call yields `None` or the buffered packet
    obtain ⟨res, mp', hnext⟩ : ∃ res mp',
        mp.next T r.rx r.cipher = .ready (res, mp', r.rx, r.cipher) := by
      unfold MessagePackets.next
      cases hdone : mp.done with
      | true => exact ⟨_, _, rfl⟩
      | false =>
        cases hk : mp.firstKind with
        | none => simp [hdone, hk] at hd
        | some k => exact ⟨_, _, rfl⟩
    simp only [next, hnext, hd, ↓reduceIte]
    exact yielded_follows (.refl r) m _ _
  · have hdone : mp.done = false := by
      cases h : mp.done <;> simp [h] at hd ⊢
    have hk : mp.firstKind = none := by
      cases h : mp.firstKind <;> simp [h] at hd ⊢
    cases hread : r.rx.packets.readPacket T r.cipher with
    | pending =>
      simp only [next, MessagePackets.next, hdone, hk, hread, Bool.false_eq_true, ↓reduceIte]
      exact .refl r
    | ready a =>
      obtain ⟨res, p, s⟩ := a
      obtain ⟨res', mp', rx', hnext⟩ : ∃ res' mp' rx',
          mp.next T r.rx r.cipher = .ready (res', mp', rx', s) := by
        unfold MessagePackets.next
        rw [hdone, hk, hread]
        cases res with
        | error f => exact ⟨_, _, _, rfl⟩
        | ok header =>
          simp only
          cases header.kind <;> exact ⟨_, _, _, rfl⟩
      simp only [next, hnext, hd, ↓reduceIte]
      exact yielded_follows (advance_follows hread _) m _ _

theorem readBytes_follows (r : Receiver σ) (m : Message) : Follows T r (r.readBytes m) := by
  unfold readBytes
  rcases m.readBytes r.rx with ⟨res, rx⟩
  have h : Follows T r { r with rx } := ⟨⟨[], (List.append_nil _).symm⟩, .inl rfl⟩
  exact progress_follows h m res

theorem loop_follows (r : Receiver σ) (drain : Bool) : Follows T r (r.loop T drain) := by
  unfold loop loopCall
  cases hh : r.handle with
  | free =>
    simp only [call, hh]
    exact readMessage_follows r
  | message m =>
    cases drain with
    | false =>
      simp only [call, hh, Bool.false_eq_true, ↓reduceIte]
      exact readBytes_follows r m
    | true =>
      simp only [call, hh, ↓reduceIte]
      exact ⟨⟨[], (List.append_nil _).symm⟩, .inl rfl⟩
  | reading m =>
    simp only [call, hh]
    exact poll_follows r m
  | packets m mp =>
    simp only
    split
    · simp only [call, hh]
      exact ⟨⟨[], (List.append_nil _).symm⟩, .inl rfl⟩
    · simp only [call, hh]
      exact next_follows r m mp
  | dead =>
    simp only [call, hh]
    exact .refl r

theorem Follows.sameSend {r r' : Receiver σ} (h : Follows T r r') (S : TransportSpec T) :
    SameSend S r.cipher r'.cipher := by
  rcases h.cipher with he | ⟨res, rx, s, hread, he⟩
  · rw [he]
    exact .refl S _
  · rw [he]
    exact (PacketRx.readPacket_inv S hread).1

end Receiver

/-! ## What the loop has seen -/

/-- A message was got. -/
def Outcome.isGot : Outcome → Bool
  | .got _ _ => true
  | _ => false

namespace Observed

theorem event_outcomes (o : Observed) (e : RxEvent) : o.outcomes <+: (o.event e).outcomes := by
  match e with
  | .opened h => exact List.prefix_rfl
  | .bytes t b => exact List.prefix_append _ _
  | .chunk (some b) => exact List.prefix_rfl
  | .chunk none =>
    simp only [event]
    split
    · exact List.prefix_append _ _
    · exact List.prefix_rfl
  | .failed e =>
    simp only [event]
    split <;> exact List.prefix_append _ _
  | .panicked p => exact List.prefix_append _ _

/-- A failed call is one outcome, and not a message. -/
theorem event_failed (o : Observed) (e : ConnectionError) :
    ∃ x, x.isGot = false ∧ (o.event (.failed e)).outcomes = o.outcomes ++ [x] := by
  simp only [event]
  split
  · exact ⟨_, rfl, rfl⟩
  · exact ⟨_, rfl, rfl⟩

end Observed

/-- Nothing that happens later takes an outcome back. -/
theorem observe_outcomes : ∀ (more es : List RxEvent),
    (observe es).outcomes <+: (observe (es ++ more)).outcomes
  | [], es => ⟨[], by rw [List.append_nil, List.append_nil]⟩
  | e :: more, es => by
    have ih := observe_outcomes more (es ++ [e])
    rw [observe_append, List.append_assoc] at ih
    exact ((observe es).event_outcomes e).trans ih

namespace Receiver

theorem fault_outcomes (r : Receiver σ) (f : Fault) (after : Handle) :
    ∃ x, x.isGot = false ∧
      (observe (r.fault f after).events).outcomes = (observe r.events).outcomes ++ [x] := by
  cases f with
  | error e =>
    simp only [fault, observe_append]
    exact (observe r.events).event_failed e
  | panic p =>
    simp only [fault, observe_append]
    exact ⟨.panicked, rfl, rfl⟩

/-- A packet that is refused ends the message with an error. -/
theorem loop_error {r : Receiver σ} (hn : r.ReadsNext) {f : Fault} {rx : PacketRx} {s : σ}
    (hread : r.rx.packets.readPacket T r.cipher = .ready (.error f, rx, s)) (drain : Bool) :
    ∃ x, x.isGot = false ∧
      (observe (r.loop T drain).events).outcomes = (observe r.events).outcomes ++ [x] := by
  unfold ReadsNext at hn
  split at hn
  · rename_i hh
    simp only [loop, loopCall, hh, call, readMessage, MessageRx.readMessage, hread]
    exact fault_outcomes _ f _
  · rename_i m hh
    simp only [loop, loopCall, hh, call, poll, MessageRx.bodyTurn, hread, progress]
    exact fault_outcomes _ f _
  · rename_i m mp hh
    obtain ⟨hit, hd, hk⟩ := hn
    simp only [loop, loopCall, hh, hit, Bool.false_eq_true, ↓reduceIte, call, next,
      MessagePackets.next, hd, hk, hread, Option.isSome_none, or_self, yielded]
    exact fault_outcomes _ f _
  · exact hn.elim

end Receiver

/-! ## The invariant of a receiving loop -/

/-- A loop on a hostile stream, when `n` packets of the stream of `items` are sent in all. -/
inductive Tampered (S : TransportSpec T) (key : S.Key) (items : List Item) (n : Nat)
    (r : Receiver σ) : Prop
  | clean (consumed rest : List Packet) (hat : LoopAt items rest r)
      (htotal : consumed ++ rest = wire items) (hkey : S.recvKey r.cipher = key)
      (hnonce : S.recvNonce r.cipher = consumed.length) (hle : consumed.length ≤ n)
  | failed (done : List Item) (x : Outcome) (later : List Outcome) (hx : x.isGot = false)
      (hdone : done <+: items) (hwire : wire done <+: (wire items).take n)
      (hobs : (observe r.events).outcomes = done.map Item.outcome ++ x :: later)

namespace Tampered

variable {key : S.Key} {items : List Item} {n : Nat} {r : Receiver σ}

/-- The adversary changes the stream, and the sending half the send direction of the cipher. -/
theorem of_eq (h : Tampered S key items n r) {r' : Receiver σ} (hh : r'.handle = r.handle)
    (he : r'.events = r.events) (hb : r'.rx.readBuf = r.rx.readBuf)
    (hr : r'.rx.packets.packetReader = r.rx.packets.packetReader)
    (hp : r'.rx.packets.payload = r.rx.packets.payload) (hs : SameRecv S r.cipher r'.cipher) :
    Tampered S key items n r' := by
  cases h with
  | clean consumed rest hat htotal hkey hnonce hle =>
    exact .clean consumed rest (hat.of_eq hh he hb hr hp) htotal (hs.1.trans hkey)
      (hs.2.trans hnonce) hle
  | failed done x later hx hdone hwire hobs =>
    exact .failed done x later hx hdone hwire (by rw [he, hobs])

/-- The messages seen in a clean run were sent in full. -/
theorem exists_done {consumed rest : List Packet} (hat : LoopAt items rest r)
    (htotal : consumed ++ rest = wire items) (hle : consumed.length ≤ n) :
    ∃ done, done <+: items ∧ wire done <+: (wire items).take n ∧
      (observe r.events).outcomes = done.map Item.outcome := by
  obtain ⟨done, part, hdone, hwire, hobs⟩ := hat.outcomes
  refine ⟨done, hdone, ?_, hobs⟩
  have hc : consumed = wire done ++ part := by
    rw [← htotal, ← List.append_assoc] at hwire
    exact List.append_cancel_right hwire
  rw [List.prefix_take_iff]
  refine ⟨⟨part ++ rest, by rw [hwire]⟩, ?_⟩
  rw [hc, List.length_append] at hle
  omega

/-- Of all that an adversary can present, only the next packet of the peer is accepted. -/
theorem takes_of_ideal (hS : S.Ideal key (((wire items).take n).map rawPacket))
    (hok : ∀ p ∈ wire items, PacketOk p) {consumed rest : List Packet}
    (hat : LoopAt items rest r) (hn : r.ReadsNext) (htotal : consumed ++ rest = wire items)
    (hkey : S.recvKey r.cipher = key) (hnonce : S.recvNonce r.cipher = consumed.length)
    {header : PacketHeader} {rx : PacketRx} {s : σ}
    (hread : r.rx.packets.readPacket T r.cipher = .ready (.ok header, rx, s)) :
    ∃ p rest', rest = p :: rest' ∧ LoopAt.Takes T r p rx s ∧ consumed.length < n ∧
      S.recvKey s = key ∧ S.recvNonce s = consumed.length + 1 := by
  obtain ⟨c, raw, hdec, hrd, hpay, hk, hc⟩ := (PacketRx.readPacket_inv S hread).2 header rfl
  rw [hkey, hnonce] at hdec
  obtain ⟨hget, -⟩ := hS _ _ _ hdec
  rw [List.getElem?_map, Option.map_eq_some_iff] at hget
  obtain ⟨p, hp, rfl⟩ := hget
  -- the nonce is the position, so the plaintext is that of the packet the loop is waiting for
  have hlt : consumed.length < n := by
    have := (List.getElem?_eq_some_iff.1 hp).1
    rw [List.length_take] at this
    omega
  rw [List.getElem?_take_of_lt hlt, ← htotal, List.getElem?_append_right (Nat.le_refl _),
    Nat.sub_self] at hp
  obtain ⟨rest', rfl⟩ : ∃ rest', rest = p :: rest' := by
    cases rest with
    | nil => simp at hp
    | cons q rest' => exact ⟨rest', by simpa using hp⟩
  obtain ⟨rd, hstep⟩ := hat.next_step hn rfl
  have hmem : p ∈ wire items := by
    rw [← htotal]
    simp
  have hread' : r.rx.packets.packetReader.read (rawPacket p) = (.ok p.1, rd) := by
    rw [rawPacket, read_header_append (hok p hmem).1]
    exact PacketReader.accept_of_step hstep
  rw [hread'] at hrd
  simp only [Prod.mk.injEq, Except.ok.injEq] at hrd
  obtain ⟨rfl, hrd⟩ := hrd
  refine ⟨p, rest', rfl, ⟨hread, hpay, ?_⟩, hlt, hk.trans hkey, by rw [hc, hnonce]⟩
  rw [← hrd]
  exact hstep

/-- A turn of a loop that nothing has gone wrong in yet. -/
theorem loop_clean (hS : S.Ideal key (((wire items).take n).map rawPacket))
    (hok : ∀ p ∈ wire items, PacketOk p) {consumed rest : List Packet}
    (hat : LoopAt items rest r) (htotal : consumed ++ rest = wire items)
    (hkey : S.recvKey r.cipher = key) (hnonce : S.recvNonce r.cipher = consumed.length)
    (hle : consumed.length ≤ n) (drain : Bool) : Tampered S key items n (r.loop T drain) := by
  by_cases hn : r.ReadsNext
  · cases hread : r.rx.packets.readPacket T r.cipher with
    | pending =>
      rw [LoopAt.loop_pending hn hread drain]
      exact .clean consumed rest hat htotal hkey hnonce hle
    | ready a =>
      obtain ⟨res, rx, s⟩ := a
      cases res with
      | error f =>
        obtain ⟨done, hdone, hwire, hobs⟩ := exists_done hat htotal hle
        obtain ⟨x, hx, hout⟩ := Receiver.loop_error hn hread drain
        exact .failed done x [] hx hdone hwire (by rw [hout, hobs])
      | ok header =>
        obtain ⟨p, rest', rfl, htakes, hlt, hk, hc⟩ :=
          takes_of_ideal hS hok hat hn htotal hkey hnonce hread
        obtain ⟨hat', -, hcipher⟩ := hat.loop_packet hn htakes drain
        refine .clean (consumed ++ [p]) rest' hat' ?_ (by rw [hcipher, hk]) ?_ ?_
        · rw [List.append_assoc]
          exact htotal
        · rw [hcipher, hc, List.length_append]
          rfl
        · rw [List.length_append]
          exact hlt
  · obtain ⟨hat', -, hc, -⟩ := hat.loop_local (T := T) hn drain
    exact .clean consumed rest hat' htotal (by rw [hc, hkey]) (by rw [hc, hnonce]) hle

/-- A turn of the loop, whatever is on the stream. -/
theorem loop (hS : S.Ideal key (((wire items).take n).map rawPacket))
    (hok : ∀ p ∈ wire items, PacketOk p) (h : Tampered S key items n r) (drain : Bool) :
    Tampered S key items n (r.loop T drain) := by
  cases h with
  | clean consumed rest hat htotal hkey hnonce hle =>
    exact loop_clean hS hok hat htotal hkey hnonce hle drain
  | failed done x later hx hdone hwire hobs =>
    obtain ⟨es, he⟩ := (r.loop_follows (T := T) drain).events
    obtain ⟨more, hmore⟩ := observe_outcomes es r.events
    refine .failed done x (later ++ more) hx hdone hwire ?_
    rw [he, ← hmore, hobs, List.append_assoc, List.cons_append]

/-- What was got before the first failure are the first items, and all of them were sent. -/
theorem got (h : Tampered S key items n r) (hgot : ∀ i ∈ items, i.outcome.isGot) :
    ∃ done, done <+: items ∧ wire done <+: (wire items).take n ∧
      (observe r.events).outcomes.takeWhile Outcome.isGot = done.map Item.outcome := by
  have hall : ∀ done : List Item, done <+: items →
      ∀ x ∈ done.map Item.outcome, x.isGot = true := by
    intro done hd x hx
    obtain ⟨i, hi, rfl⟩ := List.mem_map.1 hx
    exact hgot i (hd.subset hi)
  cases h with
  | clean consumed rest hat htotal hkey hnonce hle =>
    obtain ⟨done, hdone, hwire, hobs⟩ := exists_done hat htotal hle
    refine ⟨done, hdone, hwire, ?_⟩
    rw [hobs, ← List.append_nil (done.map _), List.takeWhile_append_of_pos (hall done hdone)]
    rfl
  | failed done x later hx hdone hwire hobs =>
    refine ⟨done, hdone, hwire, ?_⟩
    rw [hobs, List.takeWhile_append_of_pos (hall done hdone)]
    simp [hx]

end Tampered

/-! ## Both directions -/

namespace Duplex

/-- The packets `x` has sent: the nonce counts them. -/
def sent (S : TransportSpec T) (calls : Side → List Call) (d : Duplex σ) (x : Side) : List Packet :=
  (wire (messages (accepted (calls x)))).take (S.sendNonce (d.at_ x).receiver.cipher)

/-- Both sides send as planned, and both loops are on a hostile stream. -/
def Attacked (S : TransportSpec T) (key : Side → S.Key) (calls : Side → List Call)
    (n : Side → Nat) (d : Duplex σ) : Prop :=
  ∀ x, (∃ sent, Sends S (key x) (sendAll (calls x)) (d.at_ x).sender (d.at_ x).receiver.cipher
      sent) ∧
    Tampered S (key x) (messages (accepted (calls x))) (n x) (d.at_ x.other).receiver

variable {key : Side → S.Key} {calls : Side → List Call} {n : Side → Nat} {d : Duplex σ}

/-- A step that replaces the receiver of `x`, with its cipher state still good for sending. -/
theorem set_attacked (h : d.Attacked S key calls n) (x : Side) {r : Receiver σ}
    (hs : SameSend S (d.at_ x).receiver.cipher r.cipher)
    (hr : Tampered S (key x.other) (messages (accepted (calls x.other))) (n x.other) r) :
    Duplex.Attacked S key calls n (d.set x { d.at_ x with receiver := r }) := by
  obtain ⟨⟨sent, hsend⟩, hx⟩ := h x
  obtain ⟨hsend', -⟩ := h x.other
  refine Side.forall_of x ⟨⟨sent, ?_⟩, ?_⟩ ⟨?_, ?_⟩
  · simp only [Ends.set_self]
    exact hsend.set_cipher hs
  · simp only [Ends.set_other]
    exact hx
  · simp only [Ends.set_other]
    exact hsend'
  · simp only [Side.other_other, Ends.set_self]
    exact hr

theorem send_attacked (h : d.Attacked S key calls n) (x : Side) :
    (d.step T (.send x)).Attacked S key calls n := by
  obtain ⟨⟨sent, hsend⟩, hx⟩ := h x
  obtain ⟨hsend', hx'⟩ := h x.other
  rw [Side.other_other] at hx'
  obtain ⟨new, hnew, hr⟩ := hsend.step
  refine Side.forall_of x ⟨⟨sent ++ new, ?_⟩, ?_⟩ ⟨?_, ?_⟩
  · simp only [step, Ends.set_self]
    exact hnew
  · simp only [step, Ends.set_other]
    exact hx
  · simp only [step, Ends.set_other]
    exact hsend'
  · simp only [step, Side.other_other, Ends.set_self]
    exact hx'.of_eq rfl rfl rfl rfl rfl hr

theorem tamper_attacked
    (hS : ∀ x, S.Ideal (key x) (((wire (messages (accepted (calls x)))).take (n x)).map rawPacket))
    (h : d.Attacked S key calls n) (a : TamperAct) :
    (d.tamper T a).Attacked S key calls n := by
  have hrecv : ∀ x : Side, Tampered S (key x.other) (messages (accepted (calls x.other)))
      (n x.other) (d.at_ x).receiver := by
    intro x
    have := (h x.other).2
    rwa [Side.other_other] at this
  have hok : ∀ x, ∀ p ∈ wire (messages (accepted (calls x))), PacketOk p := by
    intro x p hp
    rw [← plan_sendAll] at hp
    exact plan_ok (fits_sendAll (calls x)) (by simp) p hp
  cases a with
  | send x => exact send_attacked h x
  | recv x drain =>
    exact set_attacked h x (((d.at_ x).receiver.loop_follows drain).sameSend S)
      ((hrecv x).loop (hS _) (hok _) drain)
  | inject x bytes =>
    exact set_attacked h x (.refl S _) ((hrecv x).of_eq rfl rfl rfl rfl rfl (.refl S _))
  | close x =>
    exact set_attacked h x (.refl S _) ((hrecv x).of_eq rfl rfl rfl rfl rfl (.refl S _))

theorem Connected.attacked (h : d.Connected S fun x => sendAll (calls x)) (n : Side → Nat) :
    d.Attacked S (fun x => S.sendKey (d.at_ x).receiver.cipher) calls n := by
  intro x
  obtain ⟨hsends, hat⟩ :=
    h.starts (fun x => fits_sendAll (calls x)) (messages (accepted (calls x))) x
  exact ⟨⟨[], hsends⟩, .clean [] _ hat rfl (h.keys x) (h.fresh x.other).recvNonce (Nat.zero_le _)⟩

end Duplex

/-! ## The theorem -/

/-- What two sides have sent and got when the streams between them were not their own. -/
structure Withstands (S : TransportSpec T) (calls : Side → List Call) (d₀ d : Duplex σ) : Prop where
  /-- a side wrote the packets of its accepted calls in order, the `k`-th at nonce `k` -/
  wrote : ∀ x, d.written x = S.frames (S.sendKey (d₀.at_ x).receiver.cipher) 0 (d.sent S calls x)
  /-- what the other side got before its first error are the first accepted messages, each sent
  with all its packets -/
  got : ∀ x, ∃ first, first <+: accepted (calls x) ∧
    wire (messages first) <+: d.sent S calls x ∧
    (d.seen x.other).outcomes.takeWhile Outcome.isGot = first.map fun c => .got c.1 c.2

/-- **Nothing forged, reordered, replayed or dropped.** For every two lists of calls, every schedule
of their packets, cut off anywhere, and every bytes presented to the two receiving loops, when the
cipher opens at receive nonce `k` nothing but the peer's `k`-th write. -/
theorem tampering_detected (S : TransportSpec T) (calls : Side → List Call) (d₀ : Duplex σ)
    (h₀ : d₀.Connected S fun x => sendAll (calls x)) (acts : List TamperAct)
    (hS : ∀ x, S.Ideal (S.sendKey (d₀.at_ x).receiver.cipher)
      (((Lts.run (Duplex.tamper T) d₀ acts).sent S calls x).map rawPacket)) :
    Withstands S calls d₀ (Lts.run (Duplex.tamper T) d₀ acts) := by
  have h := Lts.run_inv (I := Duplex.Attacked S _ calls _)
    (fun _ a hd => Duplex.tamper_attacked hS hd a) acts (h₀.attacked _)
  refine ⟨fun x => ?_, fun x => ?_⟩
  · obtain ⟨⟨sent, hsend⟩, -⟩ := h x
    have hsent : sent = (Lts.run (Duplex.tamper T) d₀ acts).sent S calls x := by
      obtain ⟨later, hl⟩ := hsend.sent_isPrefix
      rw [Duplex.sent, ← plan_sendAll, ← hl, hsend.wrote.sendNonce, List.take_left]
    rw [← hsent]
    exact hsend.wrote.written
  · obtain ⟨-, hx⟩ := h x
    obtain ⟨done, hdone, hwire, hobs⟩ := hx.got fun i hi => by
      obtain ⟨c, -, rfl⟩ := List.mem_map.1 hi
      rfl
    obtain ⟨first, hfirst, rfl⟩ := exists_messages hdone
    exact ⟨first, hfirst, hwire, hobs.trans (outcome_messages first)⟩

/-- The left side sends two messages, and the cipher opens what it wrote and nothing else. -/
def Tagged.twoCalls : Side → List Call
  | .left => [(3, []), (5, [7, 8])]
  | .right => []

/-- What was encrypted with each key. -/
def Tagged.book : UInt8 → List Bytes
  | 1 => (wire (messages (Tagged.twoCalls .left))).map rawPacket
  | _ => []

/-- The first frame arrives, is replayed, and then the second arrives. -/
def Tagged.replay : List TamperAct :=
  [.send .left, .send .left, .send .left, .send .left,
    .inject .right (frame (encrypt 1 0 (PacketBuilder.header .sole 3))), .recv .right false,
    .recv .right false, .inject .right (frame (encrypt 1 0 (PacketBuilder.header .sole 3))),
    .recv .right false,
    .inject .right (frame (encrypt 1 1 (PacketBuilder.header .sole 5 ++ [7, 8]))),
    .recv .right false, .recv .right false]

theorem tampering_detected_replay :
    let d₀ := Tagged.pair fun x => sendAll (Tagged.twoCalls x)
    let d := Lts.run (Duplex.tamper (Tagged.ledger Tagged.book)) d₀ Tagged.replay
    Withstands (Tagged.ledgerSpec Tagged.book) Tagged.twoCalls d₀ d ∧
      (d.seen .right).outcomes = [.got 3 [], .failed (.noise .decrypt), .got 5 [7, 8]] := by
  refine ⟨tampering_detected (Tagged.ledgerSpec Tagged.book) Tagged.twoCalls _
    (Tagged.pair_connected _) Tagged.replay fun x k c p h => ?_, by decide +kernel⟩
  obtain ⟨hget, hc⟩ := Tagged.lookup_eq h
  refine ⟨?_, hc⟩
  rw [← hget]
  cases x <;> exact congrArg (·[k]?) (by decide +kernel)

end Snowpack
