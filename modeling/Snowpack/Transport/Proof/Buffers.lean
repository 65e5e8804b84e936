import Snowpack.Lib.Run
import Snowpack.Transport.Proof.Sending

/-!
# Buffers that are kept from call to call

`write_buf` only grows, `ciphertext_buf` and `plaintext_buf` grow and shrink and are never cleared,
and the latter two come from the handshake. None of this can be seen from outside: a `PacketTx` or a
receiver is run beside one that is given new buffers for every call that fills them
(`PacketSender.callFresh`, `Receiver.actFresh`), and the two stay alike over every run.

On the sending side a call is what the builder answers and a frame (`call_does`). On the receiving
side a read finds the same thing whatever its buffers hold (`PacketRx.readPacket_finds`), so two
receivers that differ in their buffers make the same reads (`readPacket_twin`); `Alike` adds that
whenever a `payload` call is due, the buffer holds the packet accepted last. Two cipher states count
as the same when they have the same key and nonce in the direction at hand, and two errors of the
cipher as the same error: no more is assumed of it.
-/

namespace Snowpack

open Wire

variable {σ : Type} {T : TransportOps σ}

/-! ## The write buffer -/

/-- A call on a `PacketTx`; a payload fits in a packet. -/
inductive PacketCall
  | prepareMessage (msgType : UInt16)
  | sendPacket (payload : { c : Bytes // c.length ≤ maxPacketSize }) (last : Bool)
  | abortMessage

/-- What the builder makes of a call: a packet to write, or the result of the call. -/
def PacketBuilder.answer (b : PacketBuilder) : PacketCall → Except (Res Unit) Bytes × PacketBuilder
  | .prepareMessage t =>
    match b.prepare t with
    | (.error e, b) => (.error (.error (.error (.packetBuilder e))), b)
    | (.ok (), b) => (.error (.ok ()), b)
  | .sendPacket c last =>
    match b.pack c.1 last with
    | (.error e, b) => (.error (.error (.error (.packetBuilder e))), b)
    | (.ok raw, b) => (.ok raw, b)
  | .abortMessage =>
    match b.abort with
    | (none, b) => (.error (.ok ()), b)
    | (some raw, b) => (.ok raw, b)

/-- A `PacketTx` and the results of the calls on it. -/
structure PacketSender (σ : Type) where
  tx : PacketTx
  cipher : σ
  results : List (Res Unit)

namespace PacketSender

variable (T) in
/-- A call, with its result kept. -/
def call (w : PacketSender σ) : PacketCall → PacketSender σ
  | .prepareMessage t =>
    match w.tx.prepareMessage t with
    | (r, tx) => { w with tx, results := w.results ++ [r] }
  | .sendPacket c last =>
    match w.tx.sendPacket T w.cipher c.1 last with
    | (r, tx, s) => { tx, cipher := s, results := w.results ++ [r] }
  | .abortMessage =>
    match w.tx.abortMessage T w.cipher with
    | (r, tx, s) => { tx, cipher := s, results := w.results ++ [r] }

variable (T) in
/-- The call with a new write buffer. -/
def callFresh (w : PacketSender σ) (c : PacketCall) : PacketSender σ :=
  { w with tx.writeBuf := [] }.call T c

/-- What a call does, but for the write buffer. -/
inductive Does (S : TransportSpec T) (w : PacketSender σ) (c : PacketCall) :
    PacketSender σ → Prop
  | returned {r : Res Unit} {b : PacketBuilder} {buf : Bytes}
      (h : w.tx.packetBuilder.answer c = (.error r, b)) :
      Does S w c ⟨⟨b, w.tx.write, buf⟩, w.cipher, w.results ++ [r]⟩
  | wrote {raw : Bytes} {b : PacketBuilder} {buf : Bytes} {s : σ}
      (h : w.tx.packetBuilder.answer c = (.ok raw, b))
      (hkey : S.sendKey s = S.sendKey w.cipher)
      (hnonce : S.sendNonce s = S.sendNonce w.cipher + 1) :
      Does S w c
        ⟨⟨b, (w.tx.write.writeAll
            (frame (S.encrypt (S.sendKey w.cipher) (S.sendNonce w.cipher) raw))).2, buf⟩, s,
          w.results ++ [if w.tx.write.broken then .error (.error (.io .brokenPipe)) else .ok ()]⟩

theorem does_writeFrame (S : TransportSpec T) {w : PacketSender σ} {c : PacketCall} {raw : Bytes}
    {b : PacketBuilder} (h : w.tx.packetBuilder.answer c = (.ok raw, b))
    (hl : raw.length ≤ maxRawPacketSize) {r : Res Unit} {tx : PacketTx} {s : σ}
    (hw : { w.tx with packetBuilder := b }.writeFrame T w.cipher raw = (r, tx, s)) :
    Does S w c ⟨tx, s, w.results ++ [r]⟩ := by
  obtain ⟨s', buf, hspec, hkey, -, hnonce, -⟩ :=
    PacketTx.writeFrame_spec S { w.tx with packetBuilder := b } w.cipher hl
  rw [hw] at hspec
  cases hspec
  exact .wrote h hkey hnonce

theorem call_does (S : TransportSpec T) (w : PacketSender σ) (c : PacketCall) :
    Does S w c (w.call T c) := by
  cases c with
  | prepareMessage t =>
    simp only [call, PacketTx.prepareMessage]
    rcases hprep : w.tx.packetBuilder.prepare t with ⟨r, b⟩
    cases r with
    | error e => exact .returned (by simp only [PacketBuilder.answer, hprep])
    | ok u => exact .returned (by simp only [PacketBuilder.answer, hprep])
  | sendPacket c last =>
    rcases w.tx.packetBuilder.pack_cases c.2 last with hpack | ⟨raw, b, hpack, -, hlen⟩
    · simp only [call, PacketTx.sendPacket, hpack]
      exact .returned (by simp only [PacketBuilder.answer, hpack])
    · simp only [call, PacketTx.sendPacket, hpack]
      exact does_writeFrame S (by simp only [PacketBuilder.answer, hpack]) hlen rfl
  | abortMessage =>
    rcases w.tx.packetBuilder.abort_cases with habort | ⟨raw, b, habort, -, hlen⟩
    · simp only [call, PacketTx.abortMessage, habort]
      exact .returned (by simp only [PacketBuilder.answer, habort])
    · simp only [call, PacketTx.abortMessage, habort]
      exact does_writeFrame S (by simp only [PacketBuilder.answer, habort]) hlen rfl

/-- Two senders that differ at most in their write buffers. -/
structure Alike (S : TransportSpec T) (w v : PacketSender σ) : Prop where
  builder : v.tx.packetBuilder = w.tx.packetBuilder
  write : v.tx.write = w.tx.write
  cipher : SameSend S w.cipher v.cipher
  results : v.results = w.results

theorem Does.alike {S : TransportSpec T} {w v w' v' : PacketSender σ} {c : PacketCall}
    (h : Alike S w v) (hw : Does S w c w') (hv : Does S v c v') : Alike S w' v' := by
  have hans : v.tx.packetBuilder.answer c = w.tx.packetBuilder.answer c := by rw [h.builder]
  cases hw with
  | returned ha =>
    cases hv with
    | returned hb =>
      rw [hans, ha] at hb
      cases hb
      exact ⟨rfl, h.write, h.cipher, by rw [h.results]⟩
    | wrote hb =>
      rw [hans, ha] at hb
      cases hb
  | wrote ha hkey hnonce =>
    cases hv with
    | returned hb =>
      rw [hans, ha] at hb
      cases hb
    | wrote hb hkey' hnonce' =>
      rw [hans, ha] at hb
      cases hb
      refine ⟨rfl, ?_, ⟨?_, ?_⟩, ?_⟩
      · simp only [h.write, h.cipher.1, h.cipher.2]
      · rw [hkey', hkey, h.cipher.1]
      · rw [hnonce', hnonce, h.cipher.2]
      · simp only [h.results, h.write]

/-- One call on both sides. -/
theorem Alike.call {S : TransportSpec T} {w v : PacketSender σ} (h : Alike S w v)
    (c : PacketCall) : Alike S (w.call T c) (v.callFresh T c) := by
  have hv : Alike S w { v with tx.writeBuf := [] } := ⟨h.builder, h.write, h.cipher, h.results⟩
  exact Does.alike hv (call_does S w c) (call_does S _ c)

theorem Alike.run {S : TransportSpec T} : ∀ (calls : List PacketCall) {w v : PacketSender σ},
    Alike S w v → Alike S (Lts.run (PacketSender.call T) w calls) (Lts.run (callFresh T) v calls)
  | [], _, _, h => h
  | c :: calls, _, _, h => Alike.run calls (h.call c)

/-- What is written, beside a sender with new buffers, and by the next call. -/
structure FramesExact (S : TransportSpec T) (w v : PacketSender σ) (c : PacketCall) : Prop where
  written : v.tx.write.written = w.tx.write.written
  results : v.results = w.results
  /-- one frame for a packet: its length and its ciphertext -/
  frame : ∀ raw b, w.tx.write.broken = false → w.tx.packetBuilder.answer c = (.ok raw, b) →
    (w.call T c).tx.write.written = w.tx.write.written ++
      frame (S.encrypt (S.sendKey w.cipher) (S.sendNonce w.cipher) raw)
  /-- and else nothing -/
  silent : (w.tx.write.broken = true ∨ ∃ r b, w.tx.packetBuilder.answer c = (.error r, b)) →
    (w.call T c).tx.write.written = w.tx.write.written

theorem Alike.framesExact {S : TransportSpec T} {w v : PacketSender σ} (h : Alike S w v)
    (c : PacketCall) : FramesExact S w v c := by
  have hdoes := call_does S w c
  refine ⟨by rw [h.write], h.results, fun raw b hopen hans => ?_, fun hnone => ?_⟩
  · generalize w.call T c = w' at hdoes ⊢
    cases hdoes with
    | returned ha =>
      rw [hans] at ha
      cases ha
    | wrote ha hkey hnonce =>
      rw [hans] at ha
      cases ha
      simp only [WriteHalf.writeAll, hopen, Bool.false_eq_true, ↓reduceIte]
  · generalize w.call T c = w' at hdoes ⊢
    cases hdoes with
    | returned ha => rfl
    | wrote ha hkey hnonce =>
      rcases hnone with hbroken | ⟨r, b, hans⟩
      · simp only [WriteHalf.writeAll, hbroken, ↓reduceIte]
      · rw [hans] at ha
        cases ha

end PacketSender

/-! ## A read with other buffers -/

/-- Errors of the cipher are not told apart. -/
def ConnectionError.blur : ConnectionError → ConnectionError
  | .noise _ => .noise .decrypt
  | e => e

/-- An event, with errors of the cipher not told apart. -/
def RxEvent.blur : RxEvent → RxEvent
  | .failed e => .failed e.blur
  | e => e

/-- Two packet receivers that differ at most in their buffers. -/
structure PacketRx.Twin (S : TransportSpec T) (p q : PacketRx) (s t : σ) : Prop where
  reader : q.packetReader = p.packetReader
  read : q.read = p.read
  recv : SameRecv S s t

/-- The two reads of twins. -/
inductive PacketRx.TwinRead (S : TransportSpec T) :
    Poll (Res PacketHeader × PacketRx × σ) → Poll (Res PacketHeader × PacketRx × σ) → Prop
  | pending : TwinRead S .pending .pending
  | failed {e e' : ConnectionError} {p q : PacketRx} {s t : σ} (he : e'.blur = e.blur)
      (h : Twin S p q s t) :
      TwinRead S (.ready (.error (.error e), p, s)) (.ready (.error (.error e'), q, t))
  | packet {header : PacketHeader} {b : Bytes} {p q : PacketRx} {s t : σ}
      (hp : p.payload = some b) (hp' : (p.plaintextBuf.take p.payloadEnd).drop 2 = b)
      (hq : q.payload = some b) (hq' : (q.plaintextBuf.take q.payloadEnd).drop 2 = b)
      (h : Twin S p q s t) : TwinRead S (.ready (.ok header, p, s)) (.ready (.ok header, q, t))

namespace PacketRx

variable {S : TransportSpec T} {p q : PacketRx} {s t : σ}

theorem readPacket_twin (h : Twin S p q s t) :
    TwinRead S (p.readPacket T s) (q.readPacket T t) := by
  have hp := readPacket_finds S p s
  have hq := readPacket_finds S q t
  -- both find the same thing
  rw [h.reader, h.read, h.recv.1, h.recv.2] at hq
  generalize S.find _ _ _ _ = found at hp hq
  generalize p.readPacket T s = x at hp ⊢
  generalize q.readPacket T t = y at hq ⊢
  cases hp with
  | pending =>
    cases hq with
    | pending => exact .pending
  | @ready _ rd stream n _ p' s' hpis hprd hpread _ hpkey hpn =>
    cases hq with
    | @ready _ _ _ _ _ q' t' hqis hqrd hqread _ hqkey hqn =>
      have htwin : Twin S p' q' s' t' :=
        ⟨hqrd.trans hprd.symm, hqread.trans hpread.symm,
          hqkey.trans (h.recv.1.trans hpkey.symm), hqn.trans hpn.symm⟩
      cases hpis with
      | io e =>
        cases hqis with
        | io => exact .failed rfl htwin
      | noise e =>
        cases hqis with
        | noise => exact .failed rfl htwin
      | refused e =>
        cases hqis with
        | refused => exact .failed rfl htwin
      | packet hle hraw =>
        cases hqis with
        | packet hle' hraw' =>
          refine .packet ?_ (congrArg _ hraw) ?_ (congrArg _ hraw') htwin
          · rw [payload_eq _ hle, hraw]
          · rw [payload_eq _ hle', hraw']

theorem Twin.accepts (h : Twin S p q s t) : q.accepts T t = p.accepts T s := by
  have hread := readPacket_twin h
  unfold PacketRx.accepts
  generalize p.readPacket T s = x at hread ⊢
  generalize q.readPacket T t = y at hread ⊢
  cases hread with
  | pending => rfl
  | failed he h => rfl
  | packet hp hp' hq hq' h => simp only [hp', hq']

/-- The packets a read accepts: the decrypted plaintext of the next frame, if it does. -/
theorem accepts_decrypts (S : TransportSpec T) (p : PacketRx) (s : σ) :
    p.accepts T s = [] ∨ ∃ read c raw, readFrame p.read [] = .ready (.ok (), read, c) ∧
      S.decrypt (S.recvKey s) (S.recvNonce s) c = some raw ∧
      p.accepts T s = [(headerOf raw, raw.drop 2)] := by
  have hf := readPacket_finds S p s
  unfold accepts
  generalize hfind : S.find _ _ _ _ = found at hf
  generalize p.readPacket T s = x at hf ⊢
  cases hf with
  | pending => exact .inl rfl
  | ready his _ _ _ _ _ =>
    cases his with
    | io e => exact .inl rfl
    | noise e => exact .inl rfl
    | refused e => exact .inl rfl
    | packet hle hraw =>
      obtain ⟨⟨c, hframe, hdec⟩, -, -⟩ := TransportSpec.find_packet hfind
      exact .inr ⟨_, c, _, hframe, hdec, by simp only [hraw]⟩

end PacketRx

/-! ## A receiver with new buffers -/

/-- No byte of what was received before is left. -/
def PacketRx.emptied (p : PacketRx) : PacketRx :=
  { p with ciphertextBuf := [], plaintextBuf := [], payloadEnd := 0 }

/-- The packet in the buffer has not been handed out. -/
def Handle.holding : Handle → Bool
  | .message _ => true
  | .packets _ mp => !mp.done && mp.firstKind.isSome
  | _ => false

/-- Nothing in the buffers is needed: no packet waits there, and `read_buf` is not being filled. -/
def Handle.settled : Handle → Bool
  | .message _ => false
  | .reading _ => false
  | .packets _ mp => !(!mp.done && mp.firstKind.isSome)
  | _ => true

theorem Handle.not_holding_of_settled {hd : Handle} (h : hd.settled = true) :
    hd.holding = false := by
  cases hd with
  | message m => cases h
  | packets m mp =>
    simpa only [settled, holding, Bool.not_eq_true'] using h
  | free | reading | dead => rfl

namespace Receiver

/-- The call reads a packet. -/
def reads (r : Receiver σ) (a : RxAct σ) : Bool :=
  match a, r.handle with
  | .call .readMessage, .free => true
  | .call .poll, .reading _ => true
  | .call .next, .packets _ mp => !mp.done && mp.firstKind.isNone
  | _, _ => false

/-- New buffers, for a call that fills them. -/
def allocate (r : Receiver σ) (a : RxAct σ) : Receiver σ :=
  if r.reads a then { r with rx.packets := r.rx.packets.emptied }
  else
    match a, r.handle with
    | .call .readBytes, .message _ => { r with rx.readBuf := [] }
    | _, _ => r

variable (T) in
/-- The action with new buffers for it. -/
def actFresh (r : Receiver σ) (a : RxAct σ) : Receiver σ := (r.allocate a).act T a

variable (T) in
/-- The `payload` call behind a packet read inside a body, with what it returns. -/
def bodyPayload (r : Receiver σ) : Option (Option Bytes) :=
  match r.rx.packets.readPacket T r.cipher with
  | .ready (.ok header, p, _) =>
    match header.kind with
    | .mid | .last => some p.payload
    | _ => none
  | _ => none

variable (T) in
/-- The `payload` call a call makes, with what it returns. -/
def payloadCall (r : Receiver σ) (a : RxAct σ) : Option (Option Bytes) :=
  match a, r.handle with
  | .call .readBytes, .message _ => some r.rx.packets.payload
  | .call .poll, .reading _ => r.bodyPayload T
  | .call .next, .packets _ mp =>
    if mp.done then none
    else if mp.firstKind.isSome then some r.rx.packets.payload
    else r.bodyPayload T
  | _, _ => none

/-! ## What is done with a payload -/

/-- What becomes of the payload that the call `a` of `r` asked for: `read_bytes` puts it into its
buffer, which it empties first, and its loop appends to it; `next` yields it. A slice out of bounds
is a panic. -/
def Uses (r : Receiver σ) (a : RxAct σ) (v : Option Bytes) (r' : Receiver σ) : Prop :=
  match v with
  | none => r'.events = r.events ++ [.panicked .sliceBounds]
  | some b =>
    match a with
    | .call .readBytes => r'.rx.readBuf = b
    | .call .poll => r'.rx.readBuf = r.rx.readBuf ++ b
    | _ => r'.events = r.events ++ [.chunk (some b)]

/-- No payload goes anywhere. -/
def UsesNone (r r' : Receiver σ) : Prop :=
  r'.rx.readBuf = r.rx.readBuf ∧
    ∃ es, r'.events = r.events ++ es ∧ ∀ b : Bytes, .chunk (some b) ∉ es

theorem readBytes_uses (r : Receiver σ) (m : Message) :
    r.Uses (.call .readBytes) r.rx.packets.payload (r.readBytes m) := by
  unfold readBytes Message.readBytes MessageRx.extend
  cases hp : r.rx.packets.payload with
  | none => simp [progress, fault, Uses]
  | some b =>
    simp only [List.nil_append]
    split <;> simp [progress, Uses]

theorem poll_uses {r : Receiver σ} {v : Option Bytes} (h : r.bodyPayload T = some v)
    (m : Message) : r.Uses (.call .poll) v (r.poll T m) := by
  unfold bodyPayload at h
  unfold poll MessageRx.bodyTurn
  split at h
  · rename_i header p s hread
    simp only [hread]
    split at h
    · rename_i hk
      cases h
      simp only [hk, MessageRx.extend]
      cases hp : p.payload <;> simp [advance, progress, fault, Uses]
    · rename_i hk
      cases h
      simp only [hk, MessageRx.extend]
      cases hp : p.payload <;> simp [advance, progress, fault, Uses]
    · cases h
  · cases h

theorem next_uses {r : Receiver σ} {v : Option Bytes} {m : Message} {mp : MessagePackets}
    (hd : mp.done = false)
    (h : (if mp.firstKind.isSome then some r.rx.packets.payload else r.bodyPayload T) = some v) :
    r.Uses (.call .next) v (r.next T m mp) := by
  unfold next MessagePackets.next
  cases hk : mp.firstKind with
  | some kind =>
    rw [hk, Option.isSome_some, if_pos rfl] at h
    cases h
    simp only [hd, MessageRx.yield]
    cases hp : r.rx.packets.payload <;> simp [yielded, fault, Uses]
  | none =>
    rw [hk, Option.isSome_none, if_neg (by simp), bodyPayload] at h
    simp only [hd]
    split at h
    · rename_i header p s hread
      simp only [hread]
      split at h
      · rename_i hkind
        cases h
        simp only [hkind, MessageRx.yield]
        cases hp : p.payload <;> simp [advance, yielded, fault, Uses]
      · rename_i hkind
        cases h
        simp only [hkind, MessageRx.yield]
        cases hp : p.payload <;> simp [advance, yielded, fault, Uses]
      · cases h
    · cases h

/-- A call does with its payload what its code does with it. -/
theorem act_uses {r : Receiver σ} {a : RxAct σ} {v : Option Bytes}
    (h : r.payloadCall T a = some v) : r.Uses a v (r.act T a) := by
  unfold payloadCall at h
  split at h
  · rename_i m hh
    cases h
    simp only [act, call, hh]
    exact r.readBytes_uses m
  · rename_i m hh
    simp only [act, call, hh]
    exact poll_uses h m
  · rename_i m mp hh
    simp only [act, call, hh]
    split at h
    · cases h
    · rename_i hd
      exact next_uses (Bool.eq_false_iff.2 hd) h
  · cases h

theorem UsesNone.refl (r : Receiver σ) : r.UsesNone r :=
  ⟨rfl, [], (List.append_nil _).symm, by simp⟩

theorem UsesNone.fault {r r' : Receiver σ} (hb : r'.rx.readBuf = r.rx.readBuf)
    (he : r'.events = r.events) (f : Fault) (after : Handle) : r.UsesNone (r'.fault f after) := by
  cases f with
  | error e => exact ⟨hb, [.failed e], by simp only [Receiver.fault, he], by simp⟩
  | panic p => exact ⟨hb, [.panicked p], by simp only [Receiver.fault, he], by simp⟩

theorem readMessage_usesNone (r : Receiver σ) : r.UsesNone (r.readMessage T) := by
  unfold readMessage MessageRx.readMessage
  cases r.rx.packets.readPacket T r.cipher with
  | pending => exact .refl r
  | ready x =>
    obtain ⟨res, p, s⟩ := x
    cases res with
    | error f => exact .fault rfl rfl f _
    | ok header => exact ⟨rfl, [.opened header], rfl, by simp⟩

theorem poll_usesNone {r : Receiver σ} (h : r.bodyPayload T = none) (m : Message) :
    r.UsesNone (r.poll T m) := by
  unfold bodyPayload at h
  unfold poll MessageRx.bodyTurn
  cases hread : r.rx.packets.readPacket T r.cipher with
  | pending => exact .refl r
  | ready x =>
    obtain ⟨res, p, s⟩ := x
    cases res with
    | error f => exact .fault rfl rfl f _
    | ok header =>
      simp only [hread] at h ⊢
      cases hk : header.kind with
      | mid | last => simp [hk] at h
      | sole | first | abort => exact .fault rfl rfl _ _

theorem next_usesNone {r : Receiver σ} {m : Message} {mp : MessagePackets}
    (h : (if mp.done then none else if mp.firstKind.isSome then some r.rx.packets.payload
      else r.bodyPayload T) = none) : r.UsesNone (r.next T m mp) := by
  unfold next MessagePackets.next
  obtain ⟨done, firstKind⟩ := mp
  cases done with
  | true => exact ⟨rfl, [.chunk none], rfl, by simp⟩
  | false =>
    cases firstKind with
    | some kind => cases h
    | none =>
      simp only [Bool.false_eq_true, ↓reduceIte, Option.isSome_none, bodyPayload] at h
      simp only [Bool.false_eq_true, ↓reduceIte, Option.isSome_none, or_self]
      cases hread : r.rx.packets.readPacket T r.cipher with
      | pending => exact .refl r
      | ready x =>
        obtain ⟨res, p, s⟩ := x
        cases res with
        | error f => exact .fault rfl rfl f _
        | ok header =>
          simp only [hread] at h ⊢
          cases hk : header.kind with
          | mid | last => simp [hk] at h
          | sole | first | abort => exact .fault rfl rfl _ _

/-- A call that asks for no payload has none to use. -/
theorem act_usesNone {r : Receiver σ} {a : RxAct σ} (h : r.payloadCall T a = none) :
    r.UsesNone (r.act T a) := by
  cases a with
  | arrive b => exact .refl _
  | close => exact .refl _
  | cipher s => exact .refl _
  | call c =>
    unfold payloadCall at h
    simp only [act, call]
    cases c <;> cases hh : r.handle <;> simp only [hh] at h ⊢
    all_goals first
      | exact .refl _
      | exact r.readMessage_usesNone
      | exact poll_usesNone h _
      | exact next_usesNone h
      | cases h

/-! ## What is accepted -/

@[simp] theorem fault_accepted (r : Receiver σ) (f : Fault) (after : Handle) :
    (r.fault f after).accepted = r.accepted := by
  cases f <;> rfl

@[simp] theorem progress_accepted (r : Receiver σ) (m : Message) (o : Option (Res Bytes)) :
    (r.progress m o).accepted = r.accepted := by
  match o with
  | none => rfl
  | some (.ok b) => rfl
  | some (.error f) => exact fault_accepted r f .free

@[simp] theorem yielded_accepted (r : Receiver σ) (m : Message) (mp : MessagePackets)
    (o : Res (Option Bytes)) : (r.yielded m mp o).accepted = r.accepted := by
  cases o with
  | ok p => rfl
  | error f => exact fault_accepted r f (.packets m mp)

theorem accepts_pending {p : PacketRx} {s : σ} (h : p.readPacket T s = .pending) :
    p.accepts T s = [] := by
  simp only [PacketRx.accepts, h]

theorem readMessage_accepted (r : Receiver σ) :
    (r.readMessage T).accepted = r.accepted ++ r.rx.packets.accepts T r.cipher := by
  unfold readMessage MessageRx.readMessage
  rcases hread : r.rx.packets.readPacket T r.cipher with _ | ⟨res, p, s⟩
  · rw [accepts_pending hread, List.append_nil]
  · cases res with
    | error f => simp only [fault_accepted, advance]
    | ok header => simp only [advance]

theorem poll_accepted (r : Receiver σ) (m : Message) :
    (r.poll T m).accepted = r.accepted ++ r.rx.packets.accepts T r.cipher := by
  unfold poll
  rcases hturn : r.rx.bodyTurn T r.cipher with _ | ⟨res, rx, s⟩
  · rw [accepts_pending (MessageRx.bodyTurn_pending hturn), List.append_nil]
  · simp only [progress_accepted, advance]

theorem next_accepted (r : Receiver σ) (m : Message) (mp : MessagePackets) :
    (r.next T m mp).accepted =
      r.accepted ++ if !mp.done && mp.firstKind.isNone then r.rx.packets.accepts T r.cipher
        else [] := by
  unfold next
  rcases hnext : mp.next T r.rx r.cipher with _ | ⟨res, mp', rx, s⟩
  · obtain ⟨hd, hk, hread⟩ := MessagePackets.next_pending hnext
    simp only [accepts_pending hread, ite_self, List.append_nil]
  · simp only [yielded_accepted]
    cases mp.done <;> cases mp.firstKind <;> simp [advance]

/-- A call that reads adds what the read accepts; the others add nothing. -/
theorem act_accepted (r : Receiver σ) (a : RxAct σ) :
    (r.act T a).accepted =
      r.accepted ++ if r.reads a then r.rx.packets.accepts T r.cipher else [] := by
  cases a with
  | arrive bytes => exact (List.append_nil _).symm
  | close => exact (List.append_nil _).symm
  | cipher s => exact (List.append_nil _).symm
  | call c =>
    cases c with
    | readMessage =>
      cases hh : r.handle with
      | free => simp only [act, call, reads, hh, ↓reduceIte, readMessage_accepted]
      | message | reading | packets | dead => simp [act, call, reads, hh]
    | poll =>
      cases hh : r.handle with
      | reading m => simp only [act, call, reads, hh, ↓reduceIte, poll_accepted]
      | free | message | packets | dead => simp [act, call, reads, hh]
    | next =>
      cases hh : r.handle with
      | packets m mp => simp only [act, call, reads, hh, next_accepted]
      | free | message | reading | dead => simp [act, call, reads, hh]
    | readBytes => cases hh : r.handle <;> simp [act, call, reads, hh, readBytes]
    | dropHandle => cases hh : r.handle <;> simp [act, call, reads, hh]
    | intoPackets => cases hh : r.handle <;> simp [act, call, reads, hh]

/-! ## Receivers that differ in their buffers -/

variable {S : TransportSpec T} {r f : Receiver σ}

/-- What does not concern the handle. -/
structure Core (S : TransportSpec T) (r f : Receiver σ) : Prop where
  twin : PacketRx.Twin S r.rx.packets f.rx.packets r.cipher f.cipher
  accepted : f.accepted = r.accepted
  events : f.events.map RxEvent.blur = r.events.map RxEvent.blur

/-- With the same handle, the same bytes in `read_buf` while it is filled, and the packet accepted
last in both buffers while it has not been handed out. -/
structure Alike (S : TransportSpec T) (r f : Receiver σ) : Prop extends Core S r f where
  handle : f.handle = r.handle
  readBuf : ∀ m, r.handle = .reading m → f.rx.readBuf = r.rx.readBuf
  held : r.handle.holding = true → ∃ header b, r.accepted.getLast? = some (header, b) ∧
    r.rx.packets.payload = some b ∧ f.rx.packets.payload = some b

/-- A handle for which the buffers do not matter. -/
theorem Core.leave (h : Core S r f) {hd : Handle} (hh : hd.settled = true) :
    Alike S { r with handle := hd } { f with handle := hd } where
  twin := h.twin
  accepted := h.accepted
  events := h.events
  handle := rfl
  readBuf m hm := by
    rw [show hd = .reading m from hm] at hh
    cases hh
  held hheld := by
    rw [Handle.not_holding_of_settled hh] at hheld
    cases hheld

/-- An event on both sides, and then such a handle. -/
theorem Core.next_handle (h : Core S r f) {e e' : RxEvent} (he : e'.blur = e.blur) {hd : Handle}
    (hh : hd.settled = true) :
    Alike S { r with handle := hd, events := r.events ++ [e] }
      { f with handle := hd, events := f.events ++ [e'] } := by
  have hcore : Core S { r with events := r.events ++ [e] } { f with events := f.events ++ [e'] } :=
    ⟨h.twin, h.accepted, by simp only [List.map_append, List.map_cons, List.map_nil, h.events, he]⟩
  exact hcore.leave hh

theorem Core.advance (h : Core S r f) {p q : PacketRx} {s t : σ} (htwin : PacketRx.Twin S p q s t)
    (b b' : Bytes) : Core S (r.advance T ⟨p, b⟩ s) (f.advance T ⟨q, b'⟩ t) where
  twin := htwin
  accepted := by simp only [Receiver.advance, h.accepted, h.twin.accepts]
  events := h.events

theorem Alike.readMessage (h : Alike S r f) :
    Alike S (r.readMessage T) (f.readMessage T) := by
  have hread := PacketRx.readPacket_twin h.twin
  unfold Receiver.readMessage MessageRx.readMessage
  generalize hp : r.rx.packets.readPacket T r.cipher = x at hread ⊢
  generalize hq : f.rx.packets.readPacket T f.cipher = y at hread ⊢
  cases hread with
  | pending => exact h
  | failed he htwin =>
    exact (h.toCore.advance htwin _ _).next_handle (by simp only [RxEvent.blur, he])
      rfl
  | @packet header b p q s t hpp hpb hqp hqb htwin =>
    have hcore := h.toCore.advance htwin r.rx.readBuf f.rx.readBuf
    refine ⟨⟨hcore.twin, hcore.accepted, ?_⟩, rfl, (fun m hm => by cases hm), fun _ => ?_⟩
    · simp only [List.map_append, hcore.events]
    · refine ⟨header, b, ?_, hpp, hqp⟩
      simp only [Receiver.advance, PacketRx.accepts, hp, hpb, List.getLast?_concat]

theorem Alike.readBytes (h : Alike S r f) {m : Message} (hh : r.handle = .message m) :
    Alike S (r.readBytes m) (f.readBytes m) := by
  obtain ⟨header, b, -, hp, hq⟩ := h.held (by rw [hh]; rfl)
  simp only [Receiver.readBytes, Message.readBytes, MessageRx.extend, hp, hq, List.nil_append]
  by_cases hk : m.firstHeader.kind = .sole
  · simp only [hk, ↓reduceIte, Receiver.progress]
    exact Core.next_handle (r := { r with rx.readBuf := b }) (f := { f with rx.readBuf := b })
      ⟨h.twin, h.accepted, h.events⟩ rfl rfl
  · simp only [hk, ↓reduceIte, Receiver.progress]
    exact ⟨⟨h.twin, h.accepted, h.events⟩, rfl, fun _ _ => rfl, fun hheld => by cases hheld⟩

theorem Alike.poll (h : Alike S r f) {m : Message} (hh : r.handle = .reading m) :
    Alike S (r.poll T m) (f.poll T m) := by
  have hread := PacketRx.readPacket_twin h.twin
  have hbuf := h.readBuf m hh
  unfold Receiver.poll MessageRx.bodyTurn
  generalize r.rx.packets.readPacket T r.cipher = x at hread ⊢
  generalize f.rx.packets.readPacket T f.cipher = y at hread ⊢
  cases hread with
  | pending => exact h
  | failed he htwin =>
    exact (h.toCore.advance htwin _ _).next_handle (by simp only [RxEvent.blur, he])
      rfl
  | @packet header b p q s t hpp hpb hqp hqb htwin =>
    obtain ⟨k, t'⟩ := header
    cases k with
    | sole | first =>
      exact (h.toCore.advance htwin _ _).next_handle rfl rfl
    | abort =>
      exact (h.toCore.advance htwin _ _).next_handle rfl rfl
    | last =>
      simp only [MessageRx.extend, hpp, hqp, Receiver.progress, hbuf]
      exact (h.toCore.advance htwin _ _).next_handle rfl rfl
    | mid =>
      simp only [MessageRx.extend, hpp, hqp, Receiver.progress, hbuf]
      have hcore := h.toCore.advance htwin (r.rx.readBuf ++ b) (r.rx.readBuf ++ b)
      exact ⟨⟨hcore.twin, hcore.accepted, hcore.events⟩, rfl, fun _ _ => rfl,
        fun hheld => by cases hheld⟩

theorem Alike.next (h : Alike S r f) {m : Message} {mp : MessagePackets}
    (hh : r.handle = .packets m mp) : Alike S (r.next T m mp) (f.next T m mp) := by
  obtain ⟨done, firstKind⟩ := mp
  cases done with
  | true =>
    simp only [Receiver.next, MessagePackets.next, ↓reduceIte, true_or, Receiver.yielded]
    exact h.toCore.next_handle rfl rfl
  | false =>
    cases firstKind with
    | some k =>
      obtain ⟨header, b, -, hp, hq⟩ := h.held (by rw [hh]; rfl)
      simp only [Receiver.next, MessagePackets.next, MessageRx.yield, hp, hq, Receiver.yielded,
        Option.isSome_some, or_true, Bool.false_eq_true, ↓reduceIte]
      refine h.toCore.next_handle rfl ?_
      simp only [Handle.settled, Option.isSome_none, Bool.and_false, Bool.not_false]
    | none =>
      have hread := PacketRx.readPacket_twin h.twin
      simp only [Receiver.next, MessagePackets.next, Bool.false_eq_true, ↓reduceIte,
        Option.isSome_none, or_self]
      generalize r.rx.packets.readPacket T r.cipher = x at hread ⊢
      generalize f.rx.packets.readPacket T f.cipher = y at hread ⊢
      cases hread with
      | pending => exact h
      | failed he htwin =>
        exact (h.toCore.advance htwin _ _).next_handle (by simp only [RxEvent.blur, he])
          rfl
      | @packet header b p q s t hpp hpb hqp hqb htwin =>
        have hcore := h.toCore.advance htwin r.rx.readBuf f.rx.readBuf
        obtain ⟨k, t'⟩ := header
        cases k with
        | sole | first => exact hcore.next_handle rfl rfl
        | abort => exact hcore.next_handle rfl rfl
        | last =>
          simp only [MessageRx.yield, hpp, hqp, Receiver.yielded]
          exact hcore.next_handle rfl rfl
        | mid =>
          simp only [MessageRx.yield, hpp, hqp, Receiver.yielded]
          exact hcore.next_handle rfl rfl

/-- The same call on both sides; the handle decides in both what it does. -/
theorem Alike.call (h : Alike S r f) (c : RxCall) : Alike S (r.call T c) (f.call T c) := by
  have hcore := h.toCore
  unfold Receiver.call
  rw [h.handle]
  split
  · exact h.readMessage
  · exact hcore.leave rfl
  · exact hcore.leave rfl
  · rename_i m hh
    exact h.readBytes hh
  · rename_i m hh
    exact h.poll hh
  · rename_i m hh
    exact ⟨⟨h.twin, h.accepted, h.events⟩, rfl, (fun m hm => by cases hm),
      fun _ => h.held (by rw [hh]; rfl)⟩
  · rename_i m mp hh
    exact h.next hh
  · exact h

/-- Bytes that arrive, the end of the stream and the sending half are the same on both sides. -/
theorem Alike.act (h : Alike S r f) (a : RxAct σ) : Alike S (r.act T a) (f.act T a) := by
  cases a with
  | call c => exact h.call c
  | arrive bytes =>
    refine ⟨⟨⟨h.twin.reader, ?_, h.twin.recv⟩, h.accepted, h.events⟩, h.handle, h.readBuf, h.held⟩
    simp only [Receiver.act, Receiver.arrive, h.twin.read]
  | close =>
    refine ⟨⟨⟨h.twin.reader, ?_, h.twin.recv⟩, h.accepted, h.events⟩, h.handle, h.readBuf, h.held⟩
    simp only [Receiver.act, h.twin.read]
  | cipher s =>
    exact ⟨⟨⟨h.twin.reader, h.twin.read, .refl S s⟩, h.accepted, h.events⟩, h.handle, h.readBuf,
      h.held⟩

/-- A call that reads finds no packet waiting in the buffer. -/
theorem not_holding_of_reads {a : RxAct σ} (h : r.reads a = true) : r.handle.holding = false := by
  unfold reads at h
  split at h
  · rename_i hh
    rw [hh]
    rfl
  · rename_i hh
    rw [hh]
    rfl
  · rename_i m mp hh
    rw [hh]
    obtain ⟨done, firstKind⟩ := mp
    cases firstKind with
    | none => simp only [Handle.holding, Option.isSome_none, Bool.and_false]
    | some k => simp at h
  · cases h

/-- New buffers on one side. -/
theorem Alike.allocate (h : Alike S r f) (a : RxAct σ) : Alike S r (f.allocate a) := by
  have hreads : f.reads a = r.reads a := by
    unfold reads
    rw [h.handle]
  unfold Receiver.allocate
  rw [hreads, h.handle]
  cases hr : r.reads a with
  | true =>
    refine ⟨⟨⟨h.twin.reader, h.twin.read, h.twin.recv⟩, h.accepted, h.events⟩, rfl, h.readBuf,
      fun hheld => ?_⟩
    rw [not_holding_of_reads hr] at hheld
    cases hheld
  | false =>
    simp only [Bool.false_eq_true, ↓reduceIte]
    split
    · rename_i m hh
      refine ⟨⟨h.twin, h.accepted, h.events⟩, rfl, fun m' hm => ?_, h.held⟩
      rw [hh] at hm
      cases hm
    · exact h

theorem Alike.run : ∀ (acts : List (RxAct σ)) {r f : Receiver σ}, Alike S r f →
    Alike S (Lts.run (Receiver.act T) r acts) (Lts.run (actFresh T) f acts)
  | [], _, _, h => h
  | a :: acts, _, _, h => Alike.run acts ((h.allocate a).act a)

/-! ## The `payload` calls -/

theorem Alike.bodyPayload (h : Alike S r f) {v : Option Bytes} (hv : r.bodyPayload T = some v) :
    f.bodyPayload T = some v ∧
      ∃ header b, (r.rx.packets.accepts T r.cipher).getLast? = some (header, b) ∧ v = some b := by
  have hread := PacketRx.readPacket_twin h.twin
  unfold Receiver.bodyPayload at hv ⊢
  unfold PacketRx.accepts
  generalize r.rx.packets.readPacket T r.cipher = x at hread hv ⊢
  generalize f.rx.packets.readPacket T f.cipher = y at hread ⊢
  cases hread with
  | pending => cases hv
  | failed he htwin => cases hv
  | @packet header b p q s t hpp hpb hqp hqb htwin =>
    obtain ⟨k, t'⟩ := header
    cases k with
    | sole | first | abort => cases hv
    | mid | last =>
      simp only [hpp, Option.some.injEq] at hv
      subst hv
      exact ⟨by simp only [hqp], ⟨⟨_, t'⟩, b, by rw [← hpb]; rfl, rfl⟩⟩

theorem Alike.payloadCall (h : Alike S r f) {a : RxAct σ} {v : Option Bytes}
    (hv : r.payloadCall T a = some v) :
    f.payloadCall T a = some v ∧
      ∃ header b, (r.act T a).accepted.getLast? = some (header, b) ∧ v = some b := by
  rw [act_accepted]
  unfold Receiver.payloadCall at hv ⊢
  rw [h.handle]
  split at hv
  · -- `read_bytes` on the opening packet
    rename_i m hh
    obtain ⟨header, b, hlast, hp, hq⟩ := h.held (by rw [hh]; rfl)
    rw [hp] at hv
    cases hv
    refine ⟨by rw [hq], header, b, ?_, rfl⟩
    simp only [reads, Bool.false_eq_true, ↓reduceIte, List.append_nil, hlast]
  · -- a turn of its loop
    rename_i m hh
    obtain ⟨hf, header, b, hlast, rfl⟩ := h.bodyPayload hv
    refine ⟨hf, header, b, ?_, rfl⟩
    simp only [reads, hh, ↓reduceIte, List.getLast?_append, hlast, Option.some_or]
  · rename_i m mp hh
    obtain ⟨done, firstKind⟩ := mp
    cases done with
    | true => cases hv
    | false =>
      cases firstKind with
      | some k =>
        obtain ⟨header, b, hlast, hp, hq⟩ := h.held (by rw [hh]; rfl)
        simp only [Bool.false_eq_true, ↓reduceIte, Option.isSome_some, hp, Option.some.injEq] at hv
        subst hv
        refine ⟨by simp [hq], header, b, ?_, rfl⟩
        simp [reads, hh, hlast]
      | none =>
        obtain ⟨hf, header, b, hlast, rfl⟩ := h.bodyPayload hv
        refine ⟨hf, header, b, ?_, rfl⟩
        simp [reads, hh, hlast]
  · cases hv

/-- What a receiver shows, beside one with new buffers, and in its next call. -/
structure PayloadsExact (S : TransportSpec T) (r f : Receiver σ) (a : RxAct σ) : Prop where
  accepted : f.accepted = r.accepted
  events : f.events.map RxEvent.blur = r.events.map RxEvent.blur
  /-- a `payload` call is in bounds, and returns the payload of the packet accepted last -/
  payload : ∀ v, r.payloadCall T a = some v → (f.allocate a).payloadCall T a = some v ∧
    ∃ header b, (r.act T a).accepted.getLast? = some (header, b) ∧ v = some b
  /-- which is what the next frame decrypts to, behind the header -/
  packet : (r.act T a).accepted = r.accepted ∨
    ∃ read c raw, readFrame r.rx.packets.read [] = .ready (.ok (), read, c) ∧
      S.decrypt (S.recvKey r.cipher) (S.recvNonce r.cipher) c = some raw ∧
      (r.act T a).accepted = r.accepted ++ [(headerOf raw, raw.drop 2)]
  /-- the call uses the payload it asked for, and no other -/
  used : ∀ v, r.payloadCall T a = some v → r.Uses a v (r.act T a)
  unused : r.payloadCall T a = none → r.UsesNone (r.act T a)

theorem Alike.payloadsExact (h : Alike S r f) (a : RxAct σ) : PayloadsExact S r f a := by
  refine ⟨h.accepted, h.events, fun v hv => (h.allocate a).payloadCall hv, ?_, fun _ => act_uses,
    act_usesNone⟩
  rw [act_accepted]
  cases r.reads a with
  | false => exact .inl (List.append_nil _)
  | true =>
    rcases PacketRx.accepts_decrypts S r.rx.packets r.cipher with
      hnone | ⟨read, c, raw, hframe, hdec, hacc⟩
    · left
      simp only [↓reduceIte, hnone, List.append_nil]
    · right
      exact ⟨read, c, raw, hframe, hdec, by simp only [↓reduceIte, hacc]⟩

end Receiver

/-! ## The theorem -/

/-- **Buffer reuse is invisible.** Over every sequence of calls a `PacketTx` writes, for each
packet, its length and its ciphertext, as one with a new write buffer for each call does. Over every
run of a receiver, whatever arrives and whatever its buffers held after the handshake, each
`payload` call is in bounds and returns the payload of the packet accepted last, as for a receiver
that starts with empty buffers and has new ones for each call. -/
theorem buffers_invisible (S : TransportSpec T) :
    (∀ (tx : PacketTx) (s : σ) (calls : List PacketCall) (c : PacketCall),
      PacketSender.FramesExact S (Lts.run (PacketSender.call T) ⟨tx, s, []⟩ calls)
        (Lts.run (PacketSender.callFresh T) ⟨tx, s, []⟩ calls) c) ∧
    ∀ (rx : MessageRx) (s : σ) (acts : List (RxAct σ)) (a : RxAct σ),
      Receiver.PayloadsExact S (Lts.run (Receiver.act T) (.new rx s) acts)
        (Lts.run (Receiver.actFresh T) (.new ⟨rx.packets.emptied, []⟩ s) acts) a := by
  refine ⟨fun tx s calls c => ?_, fun rx s acts a => ?_⟩
  · have hstart : PacketSender.Alike S ⟨tx, s, []⟩ ⟨tx, s, []⟩ := ⟨rfl, rfl, .refl S s, rfl⟩
    exact (hstart.run calls).framesExact c
  · have hstart : Receiver.Alike S (.new rx s) (.new ⟨rx.packets.emptied, []⟩ s) := by
      refine ⟨⟨⟨rfl, rfl, .refl S s⟩, rfl, rfl⟩, rfl, fun m hm => ?_, fun hheld => ?_⟩
      · cases hm
      · cases hheld
    exact (hstart.run acts).payloadsExact a

end Snowpack
