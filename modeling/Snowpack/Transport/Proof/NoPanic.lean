import Snowpack.Lib.Run
import Snowpack.Transport.Proof.Receive
import Snowpack.Transport.Tagged

/-!
# When the receive side panics

The `unreachable!` arms of `read_bytes` and `next` rest on the packet reader being inside a message
while a body is read. `Coherent` is how the handle and the reader are really related: a handle
opened by `First` or `Mid` has the reader inside a message until its body ends, but `read_message`
also opens a handle on a `Last` or an `Abort` (the rest of a message whose handle was dropped), and
then the reader is idle and takes a `Sole` or a `First` in the middle of the body.

`never_panics_iff`: over every run, no `unreachable!` is executed iff the body of such a handle is
never read with a well-formed message start next on the stream (`StrayStart`).
-/

namespace Snowpack

open Wire

/-- The opening packet left its message behind: the reader is idle under this handle. -/
def PacketKind.Closing (k : PacketKind) : Prop := k = .last ∨ k = .abort

/-- The packet begins a message. -/
def PacketKind.Starting (k : PacketKind) : Prop := k = .sole ∨ k = .first

namespace Receiver

variable {σ : Type} (T : TransportOps σ)

/-- The handle whose body a call reads from the stream. -/
def bodyRead (r : Receiver σ) (c : RxCall) : Option Message :=
  match c, r.handle with
  | .poll, .reading m => some m
  | .next, .packets m mp => if mp.done ∨ mp.firstKind.isSome then none else some m
  | _, _ => none

/-- A body is read through a handle opened by the end of a message, and a message starts next. -/
def StrayStart (r : Receiver σ) (a : RxAct σ) : Prop :=
  ∃ c m raw, a = .call c ∧ r.bodyRead c = some m ∧ m.firstHeader.kind.Closing ∧
    r.rx.packets.nextPlaintext T r.cipher = some raw ∧ WellFormed raw ∧
    (headerOf raw).kind.Starting

/-- An `unreachable!` was executed. -/
def Panicked (r : Receiver σ) : Prop := .panicked .unreachableKind ∈ r.events

/-- The reader's state under a handle opened by a packet of kind `k`. -/
def Under (rd : PacketReader) (k : PacketKind) : Prop :=
  match k with
  | .sole => True
  | .first | .mid => rd.inProgress = true
  | .last | .abort => rd.inProgress = false

/-- The reader is where the handle says. -/
def Coherent (r : Receiver σ) : Prop :=
  match r.handle with
  | .free | .dead => True
  | .message m => Under r.rx.packets.packetReader m.firstHeader.kind
  | .reading m => m.firstHeader.kind ≠ .sole ∧ Under r.rx.packets.packetReader m.firstHeader.kind
  | .packets m mp =>
    mp.done = true ∨ Under r.rx.packets.packetReader m.firstHeader.kind ∧
      (mp.firstKind = some m.firstHeader.kind ∨
        mp.firstKind = none ∧ m.firstHeader.kind ≠ .sole)

end Receiver

namespace PacketReader

theorem Step.under {r r' : PacketReader} {h : PacketHeader} (hs : Step r h r') :
    Receiver.Under r' h.kind := by
  cases hs <;> trivial

/-- A start is accepted by an idle reader only. -/
theorem Step.idle_of_starting {r r' : PacketReader} {h : PacketHeader} (hs : Step r h r')
    (hk : h.kind.Starting) : r.inProgress = false := by
  rcases hk with hk | hk <;> cases hs <;> first | rfl | cases hk

theorem exists_step_of_starting {r : PacketReader} {h : PacketHeader} (hr : r.inProgress = false)
    (hk : h.kind.Starting) : ∃ r', Step r h r' := by
  obtain ⟨p, u⟩ := r
  obtain ⟨k, t⟩ := h
  cases hr
  rcases hk with hk | hk <;> cases hk
  · exact ⟨_, .sole u t⟩
  · exact ⟨_, .first u t⟩

end PacketReader

namespace Receiver

variable {σ : Type} {T : TransportOps σ}

/-- With a body to read and an idle reader, the handle was opened by the end of a message. -/
theorem closing_of_idle {rd : PacketReader} {k : PacketKind} (hk : k ≠ .sole) (hu : Under rd k)
    (hi : rd.inProgress = false) : k.Closing := by
  cases k with
  | sole => exact absurd rfl hk
  | first | mid => rw [Under] at hu; rw [hu] at hi; cases hi
  | last => exact .inl rfl
  | abort => exact .inr rfl

theorem idle_of_closing {rd : PacketReader} {k : PacketKind} (hk : k.Closing) (hu : Under rd k) :
    rd.inProgress = false := by
  rcases hk with rfl | rfl <;> exact hu

theorem fault_panicked {r : Receiver σ} {f : Fault} {after : Handle} :
    (r.fault f after).Panicked ↔ r.Panicked ∨ f = .panic .unreachableKind := by
  cases f with
  | error e => simp [fault, Panicked]
  | panic p => cases p <;> simp [fault, Panicked]

theorem fault_free_coherent (r : Receiver σ) (f : Fault) : (r.fault f .free).Coherent := by
  cases f <;> trivial

theorem progress_panicked {r : Receiver σ} {m : Message} {res : Option (Res Bytes)} :
    (r.progress m res).Panicked ↔ r.Panicked ∨ res = some (.error (.panic .unreachableKind)) := by
  match res with
  | none => simp [progress, Panicked]
  | some (.ok b) => simp [progress, Panicked]
  | some (.error f) => simp only [progress, fault_panicked, Option.some.injEq, Except.error.injEq]

/-- `read_bytes` keeps the relation if it does where its loop goes on. -/
theorem progress_coherent {r : Receiver σ} {m : Message} {res : Option (Res Bytes)}
    (h : res = none → m.firstHeader.kind ≠ .sole ∧
      Under r.rx.packets.packetReader m.firstHeader.kind) : (r.progress m res).Coherent := by
  match res with
  | none => exact h rfl
  | some (.ok b) => trivial
  | some (.error f) => exact fault_free_coherent r f

/-! ## The packet that makes a body read panic -/

/-- `read_packet` returns a message start. -/
def ReadsStart (T : TransportOps σ) (rx : PacketRx) (s : σ) : Prop :=
  ∃ h p s', rx.readPacket T s = .ready (.ok h, p, s') ∧ h.kind.Starting

theorem readsStart_iff {rx : PacketRx} {s : σ} {k : PacketKind} (hk : k ≠ .sole)
    (hu : Under rx.packetReader k) :
    ReadsStart T rx s ↔ k.Closing ∧ ∃ raw, rx.nextPlaintext T s = some raw ∧ WellFormed raw ∧
      (headerOf raw).kind.Starting := by
  constructor
  · rintro ⟨h, p, s', hread, hstart⟩
    have hf := PacketRx.readPacket_fetch hread
    generalize rx.accepts T s = acc at hf
    cases hf with
    | @ok raw _ hraw hw hs hp =>
      exact ⟨closing_of_idle hk hu (hs.idle_of_starting hstart), raw, hraw, hw, hstart⟩
  · rintro ⟨hc, raw, hraw, hw, hstart⟩
    obtain ⟨r', hs⟩ := PacketReader.exists_step_of_starting (idle_of_closing hc hu) hstart
    obtain ⟨p, s', hread⟩ := PacketRx.readPacket_of_step hraw hw hs
    exact ⟨_, p, s', hread, hstart⟩

theorem not_readsStart_of_pending {rx : PacketRx} {s : σ} (h : rx.readPacket T s = .pending) :
    ¬ ReadsStart T rx s := by
  rintro ⟨h', p, s', hread, -⟩
  rw [h] at hread
  cases hread

theorem readsStart_of_ok {rx p : PacketRx} {s s' : σ} {h : PacketHeader}
    (hread : rx.readPacket T s = .ready (.ok h, p, s')) : ReadsStart T rx s ↔ h.kind.Starting := by
  constructor
  · rintro ⟨h', p', s1, hread', hstart⟩
    rw [hread] at hread'
    cases hread'
    exact hstart
  · intro hstart
    exact ⟨h, p, s', hread, hstart⟩

theorem not_readsStart_of_error {rx p : PacketRx} {s s' : σ} {f : Fault}
    (hread : rx.readPacket T s = .ready (.error f, p, s')) : ¬ ReadsStart T rx s := by
  rintro ⟨h', p', s1, hread', -⟩
  rw [hread] at hread'
  cases hread'

theorem extend_error {rx rx' : MessageRx} {f : Fault} (h : rx.extend = (.error f, rx')) :
    f = .panic .sliceBounds ∧ rx' = rx := by
  unfold MessageRx.extend at h
  split at h
  · cases h
    exact ⟨rfl, rfl⟩
  · cases h

theorem extend_ok {rx rx' : MessageRx} (h : rx.extend = (.ok (), rx')) :
    rx'.packets = rx.packets := by
  unfold MessageRx.extend at h
  split at h
  · cases h
  · cases h
    rfl

theorem bodyTurn_panics_iff {rx rx' : MessageRx} {s s' : σ} {res : Option (Res Bytes)}
    (h : rx.bodyTurn T s = .ready (res, rx', s')) :
    res = some (.error (.panic .unreachableKind)) ↔ ReadsStart T rx.packets s := by
  unfold MessageRx.bodyTurn at h
  split at h
  · cases h
  · rename_i f p s1 hread
    cases h
    have hf := PacketRx.readPacket_fetch hread
    generalize rx.packets.accepts T s = acc at hf
    cases hf with
    | error hf hr =>
      refine iff_of_false (fun he => ?_) (not_readsStart_of_error hread)
      simp only [Option.some.injEq, Except.error.injEq] at he
      exact hf he
  · rename_i header p s1 hread
    rw [readsStart_of_ok hread]
    obtain ⟨k, t⟩ := header
    cases k with
    | sole => cases h; exact iff_of_true rfl (.inl rfl)
    | first => cases h; exact iff_of_true rfl (.inr rfl)
    | abort => cases h; exact iff_of_false (by simp) (by simp [PacketKind.Starting])
    | mid | last =>
      refine iff_of_false (fun he => ?_) (by simp [PacketKind.Starting])
      subst he
      simp only at h
      split at h
      · rename_i f rx1 hext
        obtain ⟨rfl, -⟩ := extend_error hext
        cases h
      · cases h

/-! ## Calls that read no body -/

theorem not_strayStart {r : Receiver σ} {c : RxCall} (h : r.bodyRead c = none) :
    ¬ StrayStart T r (.call c) := by
  rintro ⟨c', m, raw, hc, hb, -⟩
  cases hc
  rw [h] at hb
  cases hb

/-- One step raises the flag iff it is a stray start, and it keeps the relation. -/
def StepOk (T : TransportOps σ) (r : Receiver σ) (a : RxAct σ) : Prop :=
  ((r.act T a).Panicked ↔ r.Panicked ∨ StrayStart T r a) ∧ (r.act T a).Coherent

theorem readMessage_step {r : Receiver σ} (hh : r.handle = .free) :
    StepOk T r (.call .readMessage) := by
  have hn : ¬ StrayStart T r (.call .readMessage) := not_strayStart rfl
  have hcall : r.act T (.call .readMessage) = r.readMessage T := by simp only [act, call, hh]
  rw [StepOk, hcall, or_iff_left hn]
  unfold readMessage MessageRx.readMessage
  cases hread : r.rx.packets.readPacket T r.cipher with
  | pending => exact ⟨Iff.rfl, by simp only [Coherent, hh]⟩
  | ready x =>
    obtain ⟨res, p, s⟩ := x
    have hf := PacketRx.readPacket_fetch hread
    generalize hacc : r.rx.packets.accepts T r.cipher = acc at hf
    cases hf with
    | error hf hr => exact ⟨fault_panicked.trans (or_iff_left hf), fault_free_coherent _ _⟩
    | ok hraw hw hs hp => exact ⟨by simp [Panicked, advance], hs.under⟩

theorem readBytes_cases {m : Message} {rx rx' : MessageRx} {res : Option (Res Bytes)}
    (h : m.readBytes rx = (res, rx')) :
    res ≠ some (.error (.panic .unreachableKind)) ∧
      (res = none → m.firstHeader.kind ≠ .sole ∧ rx'.packets = rx.packets) := by
  unfold Message.readBytes at h
  split at h
  · rename_i f rx1 hext
    obtain ⟨rfl, -⟩ := extend_error hext
    cases h
    exact ⟨by simp, fun hres => nomatch hres⟩
  · rename_i rx1 hext
    have hp := extend_ok hext
    split at h
    · cases h
      exact ⟨by simp, fun hres => nomatch hres⟩
    · rename_i hk
      cases h
      exact ⟨by simp, fun _ => ⟨hk, hp⟩⟩

theorem readBytes_step {r : Receiver σ} {m : Message} (hh : r.handle = .message m)
    (h : r.Coherent) : StepOk T r (.call .readBytes) := by
  have hn : ¬ StrayStart T r (.call .readBytes) := not_strayStart rfl
  have hcall : r.act T (.call .readBytes) = r.readBytes m := by simp only [act, call, hh]
  have hu : Under r.rx.packets.packetReader m.firstHeader.kind := by
    simpa only [Coherent, hh] using h
  rw [StepOk, hcall, or_iff_left hn]
  unfold readBytes
  cases hb : m.readBytes r.rx with
  | mk res rx =>
    obtain ⟨hne, hcont⟩ := readBytes_cases hb
    refine ⟨progress_panicked.trans (or_iff_left hne), progress_coherent (fun hres => ?_)⟩
    obtain ⟨hk, hp⟩ := hcont hres
    exact ⟨hk, by rw [hp]; exact hu⟩

/-! ## Calls that read a body -/

theorem poll_stray {r : Receiver σ} {m : Message} (hh : r.handle = .reading m) :
    StrayStart T r (.call .poll) ↔ m.firstHeader.kind.Closing ∧
      ∃ raw, r.rx.packets.nextPlaintext T r.cipher = some raw ∧ WellFormed raw ∧
        (headerOf raw).kind.Starting := by
  constructor
  · rintro ⟨c, m', raw, hc, hb, hk, hraw⟩
    cases hc
    simp only [bodyRead, hh, Option.some.injEq] at hb
    subst hb
    exact ⟨hk, raw, hraw⟩
  · rintro ⟨hk, raw, hraw⟩
    exact ⟨_, m, raw, rfl, by simp only [bodyRead, hh], hk, hraw⟩

theorem next_stray {r : Receiver σ} {m : Message} {mp : MessagePackets}
    (hh : r.handle = .packets m mp) (hd : mp.done = false) (hk : mp.firstKind = none) :
    StrayStart T r (.call .next) ↔ m.firstHeader.kind.Closing ∧
      ∃ raw, r.rx.packets.nextPlaintext T r.cipher = some raw ∧ WellFormed raw ∧
        (headerOf raw).kind.Starting := by
  have hbr : r.bodyRead .next = some m := by simp [bodyRead, hh, hd, hk]
  constructor
  · rintro ⟨c, m', raw, hc, hb, hk, hraw⟩
    cases hc
    rw [hbr, Option.some.injEq] at hb
    subst hb
    exact ⟨hk, raw, hraw⟩
  · rintro ⟨hk, raw, hraw⟩
    exact ⟨_, m, raw, rfl, hbr, hk, hraw⟩

/-- Inside a message the reader stays there until the body ends. -/
theorem under_mid {rd rd' : PacketReader} {k : PacketKind} {t : UInt16} (hk : k ≠ .sole)
    (hu : Under rd k) (hs : PacketReader.Step rd ⟨.mid, t⟩ rd') : Under rd' k := by
  cases hs
  cases k with
  | sole => exact absurd rfl hk
  | first | mid => rfl
  | last | abort => cases hu

theorem poll_step {r : Receiver σ} {m : Message} (hh : r.handle = .reading m) (h : r.Coherent) :
    StepOk T r (.call .poll) := by
  obtain ⟨hk, hu⟩ : m.firstHeader.kind ≠ .sole ∧
      Under r.rx.packets.packetReader m.firstHeader.kind := by
    simpa only [Coherent, hh] using h
  have hcall : r.act T (.call .poll) = r.poll T m := by simp only [act, call, hh]
  rw [StepOk, hcall, poll_stray hh, ← readsStart_iff hk hu]
  unfold poll
  cases hturn : r.rx.bodyTurn T r.cipher with
  | pending =>
    have hp := MessageRx.bodyTurn_pending hturn
    exact ⟨(or_iff_left (not_readsStart_of_pending hp)).symm, h⟩
  | ready x =>
    obtain ⟨res, rx, s⟩ := x
    have hpanic : res = some (.error (.panic .unreachableKind)) ↔
        ReadsStart T r.rx.packets r.cipher := bodyTurn_panics_iff hturn
    have ht := MessageRx.bodyTurn_turn hturn
    refine ⟨by rw [← hpanic]; exact progress_panicked, progress_coherent (fun hres => ?_)⟩
    -- only a middle packet lets the loop go on
    subst hres
    generalize r.rx.packets.accepts T r.cipher = acc at ht
    cases ht with
    | mid hs => exact ⟨hk, under_mid hk hu hs⟩

theorem yield_ne_panic (rx : MessageRx) : rx.yield ≠ .error (.panic .unreachableKind) := by
  unfold MessageRx.yield
  split <;> simp

theorem next_panics_iff {mp mp' : MessagePackets} {rx rx' : MessageRx} {s s' : σ}
    {res : Res (Option Bytes)} (hd : mp.done = false) (hk : mp.firstKind = none)
    (h : mp.next T rx s = .ready (res, mp', rx', s')) :
    res = .error (.panic .unreachableKind) ↔ ReadsStart T rx.packets s := by
  simp only [MessagePackets.next, hd, hk, Bool.false_eq_true, ↓reduceIte] at h
  split at h
  · cases h
  · rename_i f p s1 hread
    cases h
    have hf := PacketRx.readPacket_fetch hread
    generalize rx.packets.accepts T s = acc at hf
    cases hf with
    | error hf hr =>
      exact iff_of_false (fun he => hf (Except.error.inj he)) (not_readsStart_of_error hread)
  · rename_i header p s1 hread
    rw [readsStart_of_ok hread]
    obtain ⟨k, t⟩ := header
    cases k with
    | sole => cases h; exact iff_of_true rfl (.inl rfl)
    | first => cases h; exact iff_of_true rfl (.inr rfl)
    | abort => cases h; exact iff_of_false (by simp) (by simp [PacketKind.Starting])
    | mid => cases h; exact iff_of_false (yield_ne_panic _) (by simp [PacketKind.Starting])
    | last => cases h; exact iff_of_false (yield_ne_panic _) (by simp [PacketKind.Starting])

theorem yielded_panicked {r : Receiver σ} {m : Message} {mp : MessagePackets}
    {res : Res (Option Bytes)} :
    (r.yielded m mp res).Panicked ↔ r.Panicked ∨ res = .error (.panic .unreachableKind) := by
  cases res with
  | ok p => simp [yielded, Panicked]
  | error f => simp only [yielded, fault_panicked, Except.error.injEq]

/-- After a panic nothing is held, so the relation is needed of the other results only. -/
theorem yielded_coherent {r : Receiver σ} {m : Message} {mp : MessagePackets}
    {res : Res (Option Bytes)} (h : res ≠ .error (.panic .unreachableKind) →
      Coherent { r with handle := .packets m mp }) : (r.yielded m mp res).Coherent := by
  match res with
  | .ok p => exact h (by simp)
  | .error (.error e) => exact h (by simp)
  | .error (.panic p) => trivial

theorem next_step {r : Receiver σ} {m : Message} {mp : MessagePackets}
    (hh : r.handle = .packets m mp) (h : r.Coherent) : StepOk T r (.call .next) := by
  have hc : mp.done = true ∨ Under r.rx.packets.packetReader m.firstHeader.kind ∧
      (mp.firstKind = some m.firstHeader.kind ∨
        mp.firstKind = none ∧ m.firstHeader.kind ≠ .sole) := by
    simpa only [Coherent, hh] using h
  have hcall : r.act T (.call .next) = r.next T m mp := by simp only [act, call, hh]
  rw [StepOk, hcall]
  by_cases hd : mp.done = true
  · -- the message is over: nothing is read
    have hn : ¬ StrayStart T r (.call .next) := not_strayStart (by simp [bodyRead, hh, hd])
    simp only [next, MessagePackets.next, hd, ↓reduceIte, true_or, or_iff_left hn]
    exact ⟨yielded_panicked.trans (or_iff_left (by simp)), yielded_coherent fun _ => .inl hd⟩
  · rw [Bool.not_eq_true] at hd
    obtain ⟨hu, hk⟩ := hc.resolve_left (by simp [hd])
    rcases hk with hk | ⟨hk, hsole⟩
    · -- the buffered packet: nothing is read
      have hn : ¬ StrayStart T r (.call .next) := not_strayStart (by simp [bodyRead, hh, hk])
      simp only [next, MessagePackets.next, hd, hk, Bool.false_eq_true, ↓reduceIte,
        Option.isSome_some, or_true, or_iff_left hn]
      refine ⟨yielded_panicked.trans (or_iff_left (yield_ne_panic _)), yielded_coherent fun _ => ?_⟩
      by_cases hs : m.firstHeader.kind = .sole
      · exact .inl (by simp [hs])
      · exact .inr ⟨hu, .inr ⟨rfl, hs⟩⟩
    · rw [next_stray hh hd hk, ← readsStart_iff hsole hu]
      unfold next
      cases hn : mp.next T r.rx r.cipher with
      | pending =>
        obtain ⟨-, -, hread⟩ := MessagePackets.next_pending hn
        exact ⟨(or_iff_left (not_readsStart_of_pending hread)).symm, h⟩
      | ready x =>
        obtain ⟨res, mp', rx, s⟩ := x
        have hpanic := next_panics_iff hd hk hn
        have ht := MessagePackets.next_next hd hk hn
        simp only [hd, hk, Bool.false_eq_true, Option.isSome_none, or_self, ↓reduceIte]
        refine ⟨by rw [← hpanic]; exact yielded_panicked, yielded_coherent fun hres => ?_⟩
        generalize r.rx.packets.accepts T r.cipher = acc at ht
        cases ht with
        | error hf hr => exact .inr ⟨by rw [← hr] at hu; exact hu, .inr ⟨hk, hsole⟩⟩
        | abort hs => exact .inl rfl
        | last hs => exact .inl rfl
        | mid hs => exact .inr ⟨under_mid hsole hu hs, .inr ⟨hk, hsole⟩⟩
        | start hst hs => exact absurd rfl hres

/-! ## Runs -/

theorem skip_step {r : Receiver σ} {c : RxCall} (h : r.Coherent) (hcall : r.call T c = r)
    (hb : r.bodyRead c = none) : StepOk T r (.call c) := by
  rw [StepOk, or_iff_left (not_strayStart hb), act, hcall]
  exact ⟨Iff.rfl, h⟩

/-- A call that only lets go of the handle or turns it into packets. -/
theorem handle_step {r : Receiver σ} {c : RxCall} (after : Handle)
    (hcall : r.call T c = { r with handle := after }) (hb : r.bodyRead c = none)
    (h : Coherent { r with handle := after }) : StepOk T r (.call c) := by
  rw [StepOk, or_iff_left (not_strayStart hb), act, hcall]
  exact ⟨Iff.rfl, h⟩

theorem call_step {r : Receiver σ} (h : r.Coherent) (c : RxCall) : StepOk T r (.call c) := by
  cases hh : r.handle with
  | free =>
    cases c with
    | readMessage => exact readMessage_step hh
    | dropHandle | readBytes | poll | intoPackets | next =>
      exact skip_step h (by simp only [call, hh]) (by simp only [bodyRead, hh])
  | message m =>
    cases c with
    | readBytes => exact readBytes_step hh h
    | dropHandle => exact handle_step .free (by simp only [call, hh]) rfl trivial
    | intoPackets =>
      refine handle_step (.packets m m.intoPackets) (by simp only [call, hh]) rfl
        (.inr ⟨?_, .inl rfl⟩)
      simpa only [Coherent, hh] using h
    | readMessage | poll | next =>
      exact skip_step h (by simp only [call, hh]) (by simp only [bodyRead, hh])
  | reading m =>
    cases c with
    | poll => exact poll_step hh h
    | readMessage | dropHandle | readBytes | intoPackets | next =>
      exact skip_step h (by simp only [call, hh]) (by simp only [bodyRead, hh])
  | packets m mp =>
    cases c with
    | next => exact next_step hh h
    | dropHandle => exact handle_step .free (by simp only [call, hh]) rfl trivial
    | readMessage | readBytes | poll | intoPackets =>
      exact skip_step h (by simp only [call, hh]) (by simp only [bodyRead, hh])
  | dead =>
    exact skip_step h (by cases c <;> simp only [call, hh])
      (by cases c <;> simp only [bodyRead, hh])

theorem act_step {r : Receiver σ} (h : r.Coherent) (a : RxAct σ) : StepOk T r a := by
  cases a with
  | call c => exact call_step h c
  | arrive bytes => exact ⟨(or_iff_left (fun ⟨_, _, _, hc, _⟩ => nomatch hc)).symm, h⟩
  | close => exact ⟨(or_iff_left (fun ⟨_, _, _, hc, _⟩ => nomatch hc)).symm, h⟩
  | cipher s => exact ⟨(or_iff_left (fun ⟨_, _, _, hc, _⟩ => nomatch hc)).symm, h⟩

end Receiver

/-- **When the receive side panics.** Whatever arrives and in whatever order the owner makes its
calls, an `unreachable!` is executed iff a body is read through a handle opened by the end of a
message with a well-formed message start next on the stream. -/
theorem never_panics_iff {σ : Type} (T : TransportOps σ) (p : PacketRx) (s : σ)
    (acts : List (RxAct σ)) :
    ¬ (Lts.run (Receiver.act T) (.new (.new p) s) acts).Panicked ↔
      Lts.Along (Receiver.act T) (fun r a => ¬ r.StrayStart T a) (.new (.new p) s) acts := by
  have h := Lts.not_run_flag (Receiver.act T) (P := Receiver.StrayStart T)
    (fun r a h => (Receiver.act_step h a).2) (fun r a h => (Receiver.act_step h a).1) acts
    (s := Receiver.new (.new p) s) trivial
  rw [h]
  exact and_iff_right (by simp [Receiver.Panicked, Receiver.new])

/-- A receiver right after the handshake. -/
def PacketRx.fresh : PacketRx :=
  { packetReader := .new, read := ⟨[], false⟩, ciphertextBuf := [], plaintextBuf := [],
    payloadEnd := 0 }

/-- A message of two packets and one of a single packet arrive; the first handle is dropped
unread, the next `read_message` opens on the `Last` packet, and `read_bytes` panics. -/
theorem dropped_handle_panics :
    (Lts.run (Receiver.act Tagged.transport) (.new (.new .fresh) ⟨0, 0, 0, 0⟩)
      [.arrive (frame (Tagged.encrypt 0 0 (PacketBuilder.header .first 3)) ++
          frame (Tagged.encrypt 0 1 (PacketBuilder.header .last 3)) ++
          frame (Tagged.encrypt 0 2 (PacketBuilder.header .sole 5))),
        .call .readMessage, .call .dropHandle, .call .readMessage, .call .readBytes,
        .call .poll]).Panicked := by
  unfold Receiver.Panicked
  decide +kernel

end Snowpack
