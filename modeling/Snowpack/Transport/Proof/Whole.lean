import Snowpack.Transport.Proof.NoPanic

/-!
# Messages are delivered whole

`Complete t msg`: the packets `msg` are one complete message of type `t`. In a run in which
`read_bytes` is never called on a handle opened by a `Mid` packet, every payload it returns is that
of a complete message among the accepted packets (`delivered_whole`).

The exception is real: `read_message` opens a handle on whatever packet comes next, so after a
handle is dropped the rest of its message is returned as a message of its own
(`dropped_handle_truncates`).
-/

namespace Snowpack

open Wire

/-- The payloads of packets, one behind the other. -/
def payloads (ps : List Packet) : Bytes := (ps.map Prod.snd).flatten

@[simp] theorem payloads_append (ps qs : List Packet) :
    payloads (ps ++ qs) = payloads ps ++ payloads qs := by
  simp [payloads]

@[simp] theorem payloads_singleton (h : PacketHeader) (b : Bytes) : payloads [(h, b)] = b := by
  simp [payloads]

/-- A message that has been opened and not ended. -/
def Partial (t : UInt16) (msg : List Packet) : Prop :=
  ∃ b mids, msg = (⟨.first, t⟩, b) :: mids ∧ ∀ x ∈ mids, x.1 = ⟨.mid, t⟩

/-- The packets of a whole message. -/
def Complete (t : UInt16) (msg : List Packet) : Prop :=
  (∃ b, msg = [(⟨.sole, t⟩, b)]) ∨ ∃ body b, Partial t body ∧ msg = body ++ [(⟨.last, t⟩, b)]

theorem Partial.mid {t : UInt16} {msg : List Packet} (h : Partial t msg) (b : Bytes) :
    Partial t (msg ++ [(⟨.mid, t⟩, b)]) := by
  obtain ⟨b0, mids, rfl, hm⟩ := h
  refine ⟨b0, mids ++ [(⟨.mid, t⟩, b)], rfl, fun x hx => ?_⟩
  rcases List.mem_append.1 hx with hx | hx
  · exact hm x hx
  · rw [List.mem_singleton.1 hx]

/-- `b` is the payload of a complete message of type `t` among the packets `ps`. -/
def Delivered (ps : List Packet) (t : UInt16) (b : Bytes) : Prop :=
  ∃ pre msg post, ps = pre ++ msg ++ post ∧ Complete t msg ∧ payloads msg = b

theorem Complete.head {t : UInt16} {msg : List Packet} (h : Complete t msg) :
    ∃ x rest, msg = x :: rest ∧ x.1.kind.Starting := by
  rcases h with ⟨b, rfl⟩ | ⟨body, b, ⟨b0, mids, rfl, -⟩, rfl⟩
  · exact ⟨_, _, rfl, .inl rfl⟩
  · exact ⟨_, _, rfl, .inr rfl⟩

theorem Delivered.append {ps : List Packet} {t : UInt16} {b : Bytes} (h : Delivered ps t b)
    (qs : List Packet) : Delivered (ps ++ qs) t b := by
  obtain ⟨pre, msg, post, rfl, hc, hb⟩ := h
  exact ⟨pre, msg, post ++ qs, by simp only [List.append_assoc], hc, hb⟩

theorem Delivered.of_suffix (pre : List Packet) {msg : List Packet} {t : UInt16}
    (hc : Complete t msg) : Delivered (pre ++ msg) t (payloads msg) :=
  ⟨pre, msg, [], by rw [List.append_nil], hc, rfl⟩

namespace Receiver

variable {σ : Type}

/-- Every payload `read_bytes` returned is that of a complete message. -/
def AllWhole (r : Receiver σ) : Prop :=
  ∀ t b, .bytes t b ∈ r.events → Delivered r.accepted t b

/-- `read_bytes` on a handle opened in the middle of a message. -/
def TailRead (r : Receiver σ) (a : RxAct σ) : Prop :=
  match a, r.handle with
  | .call .readBytes, .message m => m.firstHeader.kind = .mid
  | _, _ => False

instance (r : Receiver σ) (a : RxAct σ) : Decidable (TailRead r a) := by
  unfold TailRead
  split <;> infer_instance

/-- The reader after an opening packet with header `h`. -/
def Opens (rd : PacketReader) (h : PacketHeader) : Prop :=
  (h.kind = .first → rd = ⟨true, h.msgType⟩) ∧ (h.kind.Closing → rd.inProgress = false)

/-- What the handle knows of the accepted packets. A body being read is that of the message the
accepted packets end in, or it was opened by the end of one and will not be returned. -/
def Tracks (r : Receiver σ) : Prop :=
  match r.handle with
  | .free | .dead | .packets _ _ => True
  | .message m =>
    Opens r.rx.packets.packetReader m.firstHeader ∧
      ∃ pre b, r.accepted = pre ++ [(m.firstHeader, b)] ∧ r.rx.packets.payload = some b
  | .reading m =>
    r.rx.packets.packetReader.inProgress = false ∨
      r.rx.packets.packetReader = ⟨true, m.msgType⟩ ∧
        ∃ pre body, r.accepted = pre ++ body ∧ Partial m.msgType body ∧
          r.rx.readBuf = payloads body

/-- The invariant of a receiver. -/
def Whole (r : Receiver σ) : Prop := r.AllWhole ∧ r.Tracks

end Receiver

theorem PacketReader.Step.opens {r r' : PacketReader} {h : PacketHeader} (hs : Step r h r') :
    Receiver.Opens r' h := by
  cases hs <;> simp [Receiver.Opens, PacketKind.Closing]

/-- A packet that does not start a message continues the one the reader is in. -/
theorem PacketReader.Step.inside {r r' : PacketReader} {h : PacketHeader} (hs : Step r h r')
    (hk : ¬ h.kind.Starting) : r = ⟨true, h.msgType⟩ := by
  cases hs with
  | sole u t => exact absurd (.inl rfl) hk
  | first u t => exact absurd (.inr rfl) hk
  | mid t | last t | abort t => rfl

theorem PacketReader.Step.mid_eq {r r' : PacketReader} {t : UInt16} (hs : Step r ⟨.mid, t⟩ r') :
    r' = r := by
  cases hs
  rfl

namespace Receiver

variable {σ : Type} {T : TransportOps σ}

theorem AllWhole.grow {r : Receiver σ} (h : r.AllWhole) {r' : Receiver σ} (qs : List Packet)
    (ha : r'.accepted = r.accepted ++ qs)
    (he : ∀ t b, .bytes t b ∈ r'.events → .bytes t b ∈ r.events) : r'.AllWhole := by
  intro t b hb
  rw [ha]
  exact (h t b (he t b hb)).append qs

theorem fault_whole {r : Receiver σ} {f : Fault} {after : Handle} (h : r.AllWhole)
    (ht : Tracks { r with handle := after }) : (r.fault f after).Whole := by
  cases f with
  | error e => exact ⟨h.grow [] (by simp [fault]) (by simp [fault]), ht⟩
  | panic p => exact ⟨h.grow [] (by simp [fault]) (by simp [fault]), trivial⟩

theorem advance_allWhole {r : Receiver σ} (h : r.AllWhole) (rx : MessageRx) (s : σ) :
    (r.advance T rx s).AllWhole :=
  h.grow _ rfl (fun _ _ hb => hb)

theorem readMessage_whole {r : Receiver σ} (hh : r.handle = .free) (h : r.AllWhole) :
    (r.readMessage T).Whole := by
  unfold readMessage MessageRx.readMessage
  cases hread : r.rx.packets.readPacket T r.cipher with
  | pending => exact ⟨h, by simp only [Tracks, hh]⟩
  | ready x =>
    obtain ⟨res, p, s⟩ := x
    have hadv := advance_allWhole (T := T) h { r.rx with packets := p } s
    have hf := PacketRx.readPacket_fetch hread
    generalize hacc : r.rx.packets.accepts T r.cipher = acc at hf
    cases hf with
    | error hf hr => exact fault_whole hadv trivial
    | @ok raw _ hraw hw hs hp =>
      refine ⟨hadv.grow [] (by simp) (by simp), hs.opens, r.accepted, raw.drop 2, ?_, hp⟩
      simp only [advance, hacc]

/-- `read_bytes` has returned or goes on. -/
theorem progress_whole {r : Receiver σ} {m : Message} {res : Option (Res Bytes)} (h : r.AllWhole)
    (hok : ∀ b, res = some (.ok b) → Delivered r.accepted m.msgType b)
    (hgo : res = none → Tracks { r with handle := .reading m }) : (r.progress m res).Whole := by
  match res with
  | none => exact ⟨h, hgo rfl⟩
  | some (.error f) => exact fault_whole h trivial
  | some (.ok b) =>
    refine ⟨fun t b' hb => ?_, trivial⟩
    simp only [progress, List.mem_append, List.mem_singleton, RxEvent.bytes.injEq] at hb
    rcases hb with hb | ⟨rfl, rfl⟩
    · exact h t b' hb
    · exact hok b' rfl

/-- An error ends the message and delivers nothing. -/
theorem progress_error_whole {r : Receiver σ} {m : Message} {f : Fault} (h : r.AllWhole) :
    (r.progress m (some (.error f))).Whole :=
  progress_whole h (fun _ hb => by cases hb) (fun hres => by cases hres)

/-- `read_bytes` starts with the payload of the packet that opened the message. -/
theorem extend_empty {rx : MessageRx} {b : Bytes} (h : rx.packets.payload = some b) :
    MessageRx.extend { rx with readBuf := [] } = (.ok (), { rx with readBuf := b }) := by
  simp only [MessageRx.extend, h, List.nil_append]

theorem readBytes_whole {r : Receiver σ} {m : Message} (hh : r.handle = .message m)
    (h : r.Whole) (hmid : m.firstHeader.kind ≠ .mid) : (r.readBytes m).Whole := by
  obtain ⟨hall, ht⟩ := h
  simp only [Tracks, hh] at ht
  obtain ⟨hop, pre, b, hacc, hpay⟩ := ht
  have hext := extend_empty hpay
  unfold readBytes Message.readBytes
  simp only [hext]
  obtain ⟨⟨k, t⟩⟩ := m
  cases k with
  | mid => exact absurd rfl hmid
  | sole =>
    refine progress_whole (r := { r with rx := { r.rx with readBuf := b } }) hall (fun b' hb => ?_)
      (fun hres => nomatch hres)
    cases hb
    have hd := Delivered.of_suffix pre (t := t) (.inl ⟨b, rfl⟩)
    rw [payloads_singleton, ← hacc] at hd
    exact hd
  | first =>
    refine progress_whole (r := { r with rx := { r.rx with readBuf := b } }) hall
      (fun b' hb => nomatch hb) (fun _ => .inr ⟨hop.1 rfl, pre, _, hacc, ?_, ?_⟩)
    · exact ⟨b, [], rfl, by simp⟩
    · rw [payloads_singleton]
  | last =>
    exact progress_whole (r := { r with rx := { r.rx with readBuf := b } }) hall
      (fun b' hb => nomatch hb) (fun _ => .inl (hop.2 (.inl rfl)))
  | abort =>
    exact progress_whole (r := { r with rx := { r.rx with readBuf := b } }) hall
      (fun b' hb => nomatch hb) (fun _ => .inl (hop.2 (.inr rfl)))

theorem poll_whole {r : Receiver σ} {m : Message} (hh : r.handle = .reading m) (h : r.Whole) :
    (r.poll T m).Whole := by
  obtain ⟨hall, ht⟩ := h
  unfold poll
  cases hturn : r.rx.bodyTurn T r.cipher with
  | pending => exact ⟨hall, ht⟩
  | ready x =>
    obtain ⟨res, rx, s⟩ := x
    simp only [Tracks, hh] at ht
    have hadv := advance_allWhole (T := T) hall rx s
    have hT := MessageRx.bodyTurn_turn hturn
    generalize hacc : r.rx.packets.accepts T r.cipher = acc at hT
    have hgrow : (r.advance T rx s).accepted = r.accepted ++ acc := by simp only [advance, hacc]
    cases hT with
    | error hf hr => exact progress_error_whole hadv
    | abort hs => exact progress_error_whole hadv
    | start hk hs => exact progress_error_whole hadv
    | @last t b p hs =>
      refine progress_whole hadv (fun b' hb => ?_) (fun hres => by cases hres)
      cases hb
      have hin := hs.inside (by simp [PacketKind.Starting])
      rcases ht with hidle | ⟨hrd, pre, body, hpre, hpart, hbuf⟩
      · -- an idle reader accepts no `Last`
        rw [hin] at hidle
        cases hidle
      · have hmt : m.msgType = t := by
          rw [hin] at hrd
          exact (PacketReader.mk.inj hrd).2.symm
        rw [hmt] at hpart ⊢
        have hd := Delivered.of_suffix pre (.inr ⟨body, b, hpart, rfl⟩)
        rw [payloads_append, payloads_singleton, ← hbuf, ← List.append_assoc, ← hpre] at hd
        rw [hgrow]
        exact hd
    | @mid t b p hs =>
      refine progress_whole hadv (fun _ hb => by cases hb) (fun _ => ?_)
      have hin := hs.inside (by simp [PacketKind.Starting])
      rcases ht with hidle | ⟨hrd, pre, body, hpre, hpart, hbuf⟩
      · rw [hin] at hidle
        cases hidle
      · have hmt : m.msgType = t := by
          rw [hin] at hrd
          exact (PacketReader.mk.inj hrd).2.symm
        rw [← hmt] at hacc hgrow
        refine .inr ⟨hs.mid_eq.trans hrd, pre, _, ?_, hpart.mid b, ?_⟩
        · rw [← List.append_assoc, ← hpre]
          exact hgrow
        · rw [payloads_append, payloads_singleton, ← hbuf]
          rfl

theorem yielded_whole {r : Receiver σ} {m : Message} {mp : MessagePackets}
    {res : Res (Option Bytes)} (h : r.AllWhole) : (r.yielded m mp res).Whole := by
  cases res with
  | ok p => exact ⟨h.grow [] (by simp [yielded]) (by simp [yielded]), trivial⟩
  | error f => exact fault_whole h trivial

theorem next_whole {r : Receiver σ} {m : Message} {mp : MessagePackets} (h : r.Whole) :
    (r.next T m mp).Whole := by
  unfold next
  split
  · exact h
  · simp only
    split
    · exact yielded_whole h.1
    · exact yielded_whole (advance_allWhole h.1 _ _)

theorem call_whole {r : Receiver σ} (h : r.Whole) {c : RxCall} (hc : ¬ TailRead r (.call c)) :
    (r.call T c).Whole := by
  unfold call
  split
  · exact readMessage_whole ‹_› h.1
  · exact ⟨h.1, trivial⟩
  · exact ⟨h.1, trivial⟩
  · rename_i m hh
    exact readBytes_whole hh h (fun hk => hc (by simpa only [TailRead, hh] using hk))
  · exact poll_whole ‹_› h
  · exact ⟨h.1, trivial⟩
  · exact next_whole h
  · exact h

theorem act_whole {r : Receiver σ} {a : RxAct σ} (h : r.Whole) (ha : ¬ TailRead r a) :
    (r.act T a).Whole := by
  cases a with
  | call c => exact call_whole h ha
  | arrive bytes => exact h
  | close => exact h
  | cipher s => exact h

end Receiver

/-- **Messages are delivered whole.** In every run in which `read_bytes` is not called on a handle
opened by a `Mid` packet, every payload it has returned, with the handle's type, is that of one
complete message among the accepted packets. -/
theorem delivered_whole {σ : Type} (T : TransportOps σ) (p : PacketRx) (s : σ)
    (acts : List (RxAct σ))
    (h : Lts.Along (Receiver.act T) (fun r a => ¬ r.TailRead a) (.new (.new p) s) acts) :
    (Lts.run (Receiver.act T) (.new (.new p) s) acts).AllWhole := by
  have h0 : (Receiver.new (.new p) s).Whole :=
    ⟨fun t b hb => by simp [Receiver.new] at hb, trivial⟩
  exact (Lts.run_inv_along (fun _ _ hw ha => Receiver.act_whole hw ha) acts h0 h).1

/-- A message of three packets, on the wire. -/
def threePackets : Bytes :=
  frame (Tagged.encrypt 0 0 (PacketBuilder.header .first 3 ++ [7])) ++
    frame (Tagged.encrypt 0 1 (PacketBuilder.header .mid 3 ++ [8])) ++
    frame (Tagged.encrypt 0 2 (PacketBuilder.header .last 3 ++ [9]))

theorem delivered_whole_three :
    let r := Lts.run (Receiver.act Tagged.transport) (.new (.new .fresh) ⟨0, 0, 0, 0⟩)
      [.arrive threePackets, .call .readMessage, .call .readBytes, .call .poll, .call .poll]
    .bytes 3 [7, 8, 9] ∈ r.events ∧ r.AllWhole :=
  ⟨by decide +kernel, delivered_whole _ _ _ _ (by decide +kernel)⟩

/-- The handle of a message of three packets is dropped after the first; the other two are then
returned as a message. -/
theorem dropped_handle_truncates :
    ¬ (Lts.run (Receiver.act Tagged.transport) (.new (.new .fresh) ⟨0, 0, 0, 0⟩)
      [.arrive threePackets, .call .readMessage, .call .dropHandle, .call .readMessage,
        .call .readBytes, .call .poll]).AllWhole := by
  intro h
  obtain ⟨pre, msg, post, hps, hc, hb⟩ := h 3 [8, 9] (by decide +kernel)
  obtain ⟨x, rest, rfl, hx⟩ := hc.head
  have hacc : [(⟨.first, 3⟩, [7]), (⟨.mid, 3⟩, [8]), (⟨.last, 3⟩, [9])] =
      pre ++ x :: rest ++ post := by
    rw [← hps]
    decide +kernel
  -- only the first accepted packet starts a message, and its payload is not in the result
  cases pre with
  | nil =>
    simp only [List.nil_append, List.cons_append, List.cons.injEq] at hacc
    rw [← hacc.1] at hb
    simp [payloads] at hb
  | cons y pre =>
    simp only [List.cons_append, List.cons.injEq] at hacc
    have hmem : x ∈ [((⟨.mid, 3⟩ : PacketHeader), ([8] : Bytes)), (⟨.last, 3⟩, [9])] := by
      rw [hacc.2]
      simp
    simp only [List.mem_cons, List.not_mem_nil, or_false] at hmem
    rcases hmem with rfl | rfl <;> simp [PacketKind.Starting] at hx

end Snowpack
