import Snowpack.Transport.Proof.Link
import Snowpack.Transport.Sender

/-!
# What a sender puts on the wire

`plan o ops` is the packets a list of calls stands for, and `expected o ops` the results of the
calls, when `o` is the message the sender has open. `Sends` is the invariant of a sender: what it
has sent, what is left of the call it is in and the plan of the calls to come are together the plan
of its whole list, and the bytes written are the frames of the packets sent. `Sends.step` is one
step of it.
-/

namespace Snowpack

open Wire

/-! ## The plan -/

/-- The packets of the slices of a message that are left. -/
def cut (t : UInt16) (isFirst : Bool) : List Bytes → List Packet
  | [] => []
  | c :: cs => (⟨PacketBuilder.nextKind isFirst cs.isEmpty, t⟩, c) :: cut t false cs

/-- The packets of a message. -/
def packetize (t : UInt16) (payload : Bytes) : List Packet := cut t true (slices payload)

/-- The open message of a sender: its type, and whether no packet of it has been sent. -/
abbrev OpenMessage := Option (UInt16 × Bool)

/-- The packets that the operations put on the wire. -/
def plan : OpenMessage → List TxOp → List Packet
  | _, [] => []
  | o, .send t p :: ops =>
    if t ≤ typeMask ∧ o = none then packetize t p ++ plan none ops else plan o ops
  | o, .prepare t :: ops =>
    if t ≤ typeMask ∧ o = none then plan (some (t, true)) ops else plan o ops
  | none, .packet _ _ :: ops => plan none ops
  | some (t, f), .packet c last :: ops =>
    (⟨PacketBuilder.nextKind f last, t⟩, c) :: plan (if last then none else some (t, false)) ops
  | none, .abort :: ops => plan none ops
  | some (t, _), .abort :: ops => (⟨.abort, t⟩, []) :: plan none ops

/-- The result of a `prepare`. -/
def prepared (o : OpenMessage) (t : UInt16) : Res Unit :=
  if t > typeMask then .error (.error (.packetBuilder (.messageTypeTooLarge t)))
  else if o = none then .ok ()
  else .error (.error (.packetBuilder .messageAlreadyInProgress))

/-- What the operations return. -/
def expected : OpenMessage → List TxOp → List (Res Unit)
  | _, [] => []
  | o, .send t _ :: ops => prepared o t :: expected o ops
  | o, .prepare t :: ops =>
    prepared o t :: expected (if t ≤ typeMask ∧ o = none then some (t, true) else o) ops
  | none, .packet _ _ :: ops =>
    .error (.error (.packetBuilder .noMessageInProgress)) :: expected none ops
  | some (t, _), .packet _ last :: ops =>
    .ok () :: expected (if last then none else some (t, false)) ops
  | _, .abort :: ops => .ok () :: expected none ops

/-- The chunks given to `send_packet` fit in a packet. -/
def Fits (ops : List TxOp) : Prop := ∀ c last, .packet c last ∈ ops → c.length ≤ maxPacketSize

theorem slices_length {p c : Bytes} (h : c ∈ slices p) : c.length ≤ maxPacketSize := by
  unfold slices at h
  split at h
  · rw [List.mem_singleton.1 h]
    exact Nat.zero_le _
  · exact length_le_of_mem_chunks (by decide) p h

/-! ## The builder of a sender -/

/-- The builder of a sender with this open message. -/
inductive BuilderIs : OpenMessage → PacketBuilder → Prop
  | idle {b : PacketBuilder} (hb : b.inProgress = false) : BuilderIs none b
  | opened {b : PacketBuilder} {t : UInt16} {f : Bool} (hb : b.inProgress = true)
      (hf : b.isFirst = f) (hm : b.msgType = t) (ht : t ≤ typeMask) : BuilderIs (some (t, f)) b

theorem BuilderIs.prepare {o : OpenMessage} {b : PacketBuilder} (h : BuilderIs o b) (t : UInt16)
    (w : WriteHalf) (buf : Bytes) :
    ∃ b', PacketTx.prepareMessage ⟨b, w, buf⟩ t = (prepared o t, ⟨b', w, buf⟩) ∧
      BuilderIs (if t ≤ typeMask ∧ o = none then some (t, true) else o) b' := by
  unfold PacketTx.prepareMessage PacketBuilder.prepare prepared
  by_cases ht : t > typeMask
  · have hn : ¬ t ≤ typeMask := UInt16.not_le.2 ht
    simp only [ht, hn, ↓reduceIte, false_and]
    exact ⟨b, rfl, h⟩
  · have hle : t ≤ typeMask := UInt16.not_lt.1 ht
    cases h with
    | idle hb =>
      simp only [ht, hle, hb, ↓reduceIte, and_self, Bool.false_eq_true]
      exact ⟨_, rfl, .opened rfl rfl rfl hle⟩
    | opened hb hf hm htm =>
      simp only [ht, hb, ↓reduceIte, reduceCtorEq, and_false]
      exact ⟨b, rfl, .opened hb hf hm htm⟩

theorem BuilderIs.pack {t : UInt16} {f : Bool} {b : PacketBuilder} (h : BuilderIs (some (t, f)) b)
    (c : Bytes) (last : Bool) :
    ∃ b', b.pack c last = (.ok (rawPacket (⟨PacketBuilder.nextKind f last, t⟩, c)), b') ∧
      BuilderIs (if last then none else some (t, false)) b' := by
  cases h with
  | opened hb hf hm ht =>
    simp only [PacketBuilder.pack, hb, hf, hm, Bool.not_true, Bool.false_eq_true, ↓reduceIte]
    refine ⟨_, rfl, ?_⟩
    cases last with
    | true => exact .idle rfl
    | false => exact .opened rfl rfl rfl ht

theorem BuilderIs.abort {t : UInt16} {f : Bool} {b : PacketBuilder}
    (h : BuilderIs (some (t, f)) b) :
    ∃ b', b.abort = (some (rawPacket (⟨.abort, t⟩, [])), b') ∧ BuilderIs none b' := by
  cases h with
  | opened hb hf hm ht =>
    refine ⟨(b.abort).2, ?_, .idle ?_⟩
    · simp [PacketBuilder.abort, hb, hm, rawPacket]
    · simp [PacketBuilder.abort, hb]

/-! ## Writing packets -/

variable {σ : Type} {T : TransportOps σ}

/-- The bytes written are the frames of the packets `sent`. -/
structure Wrote (S : TransportSpec T) (key : S.Key) (w : WriteHalf) (s : σ)
    (sent : List Packet) : Prop where
  intact : w.broken = false
  written : w.written = S.frames key 0 sent
  sendKey : S.sendKey s = key
  sendNonce : S.sendNonce s = sent.length

/-- The receive direction of a cipher state did not move. -/
def SameRecv (S : TransportSpec T) (s s' : σ) : Prop :=
  S.recvKey s' = S.recvKey s ∧ S.recvNonce s' = S.recvNonce s

theorem SameRecv.refl (S : TransportSpec T) (s : σ) : SameRecv S s s := ⟨rfl, rfl⟩

/-- The send direction of a cipher state did not move. -/
def SameSend (S : TransportSpec T) (s s' : σ) : Prop :=
  S.sendKey s' = S.sendKey s ∧ S.sendNonce s' = S.sendNonce s

theorem SameSend.refl (S : TransportSpec T) (s : σ) : SameSend S s s := ⟨rfl, rfl⟩

/-- From one state of a sender to the other exactly the packets `ps` were written. -/
structure Emits (S : TransportSpec T) (tx : PacketTx) (s : σ) (tx' : PacketTx) (s' : σ)
    (ps : List Packet) : Prop where
  intact : tx'.write.broken = false
  written : tx'.write.written = tx.write.written ++ S.frames (S.sendKey s) (S.sendNonce s) ps
  sendKey : S.sendKey s' = S.sendKey s
  sendNonce : S.sendNonce s' = S.sendNonce s + ps.length
  recv : SameRecv S s s'

namespace Emits

variable {S : TransportSpec T} {tx tx' tx'' : PacketTx} {s s' s'' : σ} {ps qs : List Packet}

/-- Of the state before only what had been written matters. -/
theorem of_write (h : Emits S tx' s tx'' s'' ps) (hw : tx'.write = tx.write) :
    Emits S tx s tx'' s'' ps :=
  { h with written := by rw [← hw]; exact h.written }

theorem nil (hw : tx.write.broken = false) (h : tx'.write = tx.write) : Emits S tx s tx' s [] := by
  refine ⟨by rw [h]; exact hw, ?_, rfl, rfl, .refl S s⟩
  rw [h, TransportSpec.frames_nil, List.append_nil]

theorem append (h : Emits S tx s tx' s' ps) (h' : Emits S tx' s' tx'' s'' qs) :
    Emits S tx s tx'' s'' (ps ++ qs) := by
  refine ⟨h'.intact, ?_, h'.sendKey.trans h.sendKey, ?_, h'.recv.1.trans h.recv.1,
    h'.recv.2.trans h.recv.2⟩
  · rw [h'.written, h.written, h.sendKey, h.sendNonce, List.append_assoc,
      TransportSpec.frames_append]
  · rw [h'.sendNonce, h.sendNonce, List.length_append, Nat.add_assoc]

theorem writeFrame (S : TransportSpec T) (tx : PacketTx) (s : σ) (hw : tx.write.broken = false)
    {p : Packet} (hp : p.2.length ≤ maxPacketSize) :
    ∃ tx' s', tx.writeFrame T s (rawPacket p) = (.ok (), tx', s') ∧
      tx'.packetBuilder = tx.packetBuilder ∧ Emits S tx s tx' s' [p] := by
  have hl : (rawPacket p).length ≤ maxRawPacketSize := by
    rw [length_rawPacket]
    simp only [maxPacketSize, maxRawPacketSize, maxCiphertextSize, cipherOverheadSize] at hp ⊢
    omega
  obtain ⟨s', buf, hwrite, h1, h2, h3, h4⟩ := PacketTx.writeFrame_ok S (s := s) hl hw
  refine ⟨_, s', hwrite, rfl, hw, ?_, h1, h3, h2, h4⟩
  simp only [TransportSpec.frames, List.append_nil]

theorem sendPacket (S : TransportSpec T) (s : σ) (hw : tx.write.broken = false) {t : UInt16}
    {f : Bool} (hb : BuilderIs (some (t, f)) tx.packetBuilder) {c : Bytes}
    (hc : c.length ≤ maxPacketSize) (last : Bool) :
    ∃ tx' s', tx.sendPacket T s c last = (.ok (), tx', s') ∧
      BuilderIs (if last then none else some (t, false)) tx'.packetBuilder ∧
      Emits S tx s tx' s' [(⟨PacketBuilder.nextKind f last, t⟩, c)] := by
  obtain ⟨b', hpack, hb'⟩ := hb.pack c last
  obtain ⟨tx', s', hsend, hbe, hE⟩ := writeFrame S { tx with packetBuilder := b' } s hw
    (p := (⟨PacketBuilder.nextKind f last, t⟩, c)) hc
  refine ⟨tx', s', ?_, by rw [hbe]; exact hb', hE.of_write rfl⟩
  simp only [PacketTx.sendPacket, hpack, hsend]

theorem abortMessage (S : TransportSpec T) (s : σ) (hw : tx.write.broken = false) {t : UInt16}
    {f : Bool} (hb : BuilderIs (some (t, f)) tx.packetBuilder) :
    ∃ tx' s', tx.abortMessage T s = (.ok (), tx', s') ∧ BuilderIs none tx'.packetBuilder ∧
      Emits S tx s tx' s' [(⟨.abort, t⟩, [])] := by
  obtain ⟨b', habort, hb'⟩ := hb.abort
  obtain ⟨tx', s', hsend, hbe, hE⟩ := writeFrame S { tx with packetBuilder := b' } s hw
    (p := (⟨.abort, t⟩, [])) (Nat.zero_le _)
  refine ⟨tx', s', ?_, by rw [hbe]; exact hb', hE.of_write rfl⟩
  simp only [PacketTx.abortMessage, habort, hsend]

end Emits

theorem Wrote.emits {S : TransportSpec T} {key : S.Key} {tx tx' : PacketTx} {s s' : σ}
    {sent ps : List Packet} (h : Wrote S key tx.write s sent) (hE : Emits S tx s tx' s' ps) :
    Wrote S key tx'.write s' (sent ++ ps) := by
  refine ⟨hE.intact, ?_, hE.sendKey.trans h.sendKey, ?_⟩
  · rw [hE.written, h.written, h.sendKey, h.sendNonce, TransportSpec.frames_append, Nat.zero_add]
  · rw [hE.sendNonce, h.sendNonce, List.length_append]

/-! ## The invariant of a sender -/

/-- Where a sender is in its list of calls. -/
inductive Position (ops : List TxOp) (sent : List Packet) (d : Sender) : Prop
  | between (o : OpenMessage) (hcur : d.current = []) (hb : BuilderIs o d.tx.packetBuilder)
      (hplan : sent ++ plan o d.todo = plan none ops)
      (hres : d.results ++ expected o d.todo = expected none ops)
  | inside (t : UInt16) (f : Bool) (hcur : d.current ≠ [])
      (hb : BuilderIs (some (t, f)) d.tx.packetBuilder)
      (hlen : ∀ c ∈ d.current, c.length ≤ maxPacketSize)
      (hplan : sent ++ (cut t f d.current ++ plan none d.todo) = plan none ops)
      (hres : d.results ++ .ok () :: expected none d.todo = expected none ops)

/-- The sender has written `sent`, and is that far in its operations. -/
structure Sends (S : TransportSpec T) (key : S.Key) (ops : List TxOp) (d : Sender) (s : σ)
    (sent : List Packet) : Prop where
  wrote : Wrote S key d.tx.write s sent
  position : Position ops sent d
  fits : Fits d.todo

theorem Fits.tail {op : TxOp} {ops : List TxOp} (h : Fits (op :: ops)) : Fits ops :=
  fun c last hm => h c last (List.mem_cons_of_mem _ hm)

theorem prepared_ok {o : OpenMessage} {t : UInt16} (h : t ≤ typeMask ∧ o = none) :
    prepared o t = .ok () := by
  have ht : ¬ t > typeMask := UInt16.not_lt.2 h.1
  simp only [prepared, ht, h.2, ↓reduceIte]

theorem prepared_error {o : OpenMessage} {t : UInt16} (h : ¬ (t ≤ typeMask ∧ o = none)) :
    ∃ f, prepared o t = .error f := by
  unfold prepared
  split
  · exact ⟨_, rfl⟩
  · rename_i ht
    split
    · rename_i ho
      exact absurd ⟨UInt16.not_lt.1 ht, ho⟩ h
    · exact ⟨_, rfl⟩

namespace Sends

variable {S : TransportSpec T} {key : S.Key} {ops : List TxOp} {d : Sender} {s : σ}
  {sent : List Packet}

/-- A step keeps the invariant and adds the packet it sent, if any. -/
def Steps (S : TransportSpec T) (key : S.Key) (ops : List TxOp) (d : Sender) (s : σ)
    (sent : List Packet) : Prop :=
  ∃ new, Sends S key ops (d.step T s).1 (d.step T s).2 (sent ++ new) ∧ SameRecv S s (d.step T s).2

/-- The next packet of the message the sender is in. -/
theorem step_inside {t : UInt16} {f : Bool} {c : Bytes} {cs : List Bytes}
    (hW : Wrote S key d.tx.write s sent) (hfit : Fits d.todo) (hcur : d.current = c :: cs)
    (hb : BuilderIs (some (t, f)) d.tx.packetBuilder)
    (hlen : ∀ x ∈ c :: cs, x.length ≤ maxPacketSize)
    (hplan : sent ++ (cut t f (c :: cs) ++ plan none d.todo) = plan none ops)
    (hres : d.results ++ .ok () :: expected none d.todo = expected none ops) :
    Steps S key ops d s sent := by
  obtain ⟨tx', s', hsend, hb', hE⟩ :=
    Emits.sendPacket S s hW.intact hb (hlen c List.mem_cons_self) cs.isEmpty
  have hW' := hW.emits hE
  have hr := hE.recv
  unfold Steps
  simp only [Sender.step, hcur, hsend]
  refine ⟨[(⟨PacketBuilder.nextKind f cs.isEmpty, t⟩, c)], ?_⟩
  cases cs with
  | nil =>
    refine ⟨⟨hW', .between none rfl hb' ?_ ?_, hfit⟩, hr⟩
    · rw [List.append_assoc]
      exact hplan
    · simp only [List.isEmpty_nil, ↓reduceIte, Sender.finish, List.append_assoc]
      exact hres
  | cons c' cs =>
    refine ⟨⟨hW', .inside t false (by simp) hb' ?_ ?_ hres, hfit⟩, hr⟩
    · exact fun x hx => hlen x (List.mem_cons_of_mem _ hx)
    · rw [List.append_assoc]
      exact hplan

/-- A call that returned, with the packets `new` on the wire. -/
theorem of_finish {o : OpenMessage} {tx' : PacketTx} {s' : σ} {new : List Packet} {r : Res Unit}
    {rest : List TxOp} (hW : Wrote S key tx'.write s' (sent ++ new)) (hfit : Fits rest)
    (hb : BuilderIs o tx'.packetBuilder) (hplan : sent ++ (new ++ plan o rest) = plan none ops)
    (hres : d.results ++ r :: expected o rest = expected none ops) :
    Sends S key ops (Sender.finish { d with todo := rest } tx' r) s' (sent ++ new) := by
  refine ⟨hW, .between o rfl hb ?_ ?_, hfit⟩
  · rw [List.append_assoc]
    exact hplan
  · simp only [Sender.finish, List.append_assoc]
    exact hres

theorem step_send {o : OpenMessage} {t : UInt16} {p : Bytes} {rest : List TxOp}
    (hW : Wrote S key d.tx.write s sent) (hfit : Fits rest) (hcur : d.current = [])
    (htodo : d.todo = .send t p :: rest) (hb : BuilderIs o d.tx.packetBuilder)
    (hplan : sent ++ plan o (.send t p :: rest) = plan none ops)
    (hres : d.results ++ expected o (.send t p :: rest) = expected none ops) :
    Steps S key ops d s sent := by
  obtain ⟨b', hprep, hb'⟩ := hb.prepare t d.tx.write d.tx.writeBuf
  unfold Steps
  simp only [Sender.step, hcur, htodo, hprep]
  refine ⟨[], ?_⟩
  simp only [plan, expected] at hplan hres
  by_cases hok : t ≤ typeMask ∧ o = none
  · obtain ⟨ht, rfl⟩ := hok
    have hp : prepared none t = .ok () := prepared_ok ⟨ht, rfl⟩
    simp only [ht, and_self, ↓reduceIte] at hplan hb'
    rw [hp] at hres ⊢
    refine ⟨⟨by rw [List.append_nil]; exact hW, ?_, hfit⟩, .refl S s⟩
    refine .inside t true (Sender.slices_ne_nil p) hb' (fun c hc => slices_length hc) ?_ hres
    rw [List.append_nil]
    exact hplan
  · obtain ⟨f, hp⟩ := prepared_error hok
    simp only [hok, ↓reduceIte] at hplan hb'
    rw [hp] at hres ⊢
    exact ⟨of_finish (by rw [List.append_nil]; exact hW) hfit hb' hplan hres, .refl S s⟩

theorem step_prepare {o : OpenMessage} {t : UInt16} {rest : List TxOp}
    (hW : Wrote S key d.tx.write s sent) (hfit : Fits rest) (hcur : d.current = [])
    (htodo : d.todo = .prepare t :: rest) (hb : BuilderIs o d.tx.packetBuilder)
    (hplan : sent ++ plan o (.prepare t :: rest) = plan none ops)
    (hres : d.results ++ expected o (.prepare t :: rest) = expected none ops) :
    Steps S key ops d s sent := by
  obtain ⟨b', hprep, hb'⟩ := hb.prepare t d.tx.write d.tx.writeBuf
  unfold Steps
  simp only [Sender.step, hcur, htodo, hprep]
  refine ⟨[], of_finish (by rw [List.append_nil]; exact hW) hfit hb' ?_ hres, .refl S s⟩
  rw [← hplan, List.nil_append]
  simp only [plan]
  split <;> rfl

theorem step_packet {o : OpenMessage} {c : Bytes} {last : Bool} {rest : List TxOp}
    (hW : Wrote S key d.tx.write s sent) (hfit : Fits (.packet c last :: rest))
    (hcur : d.current = []) (htodo : d.todo = .packet c last :: rest)
    (hb : BuilderIs o d.tx.packetBuilder)
    (hplan : sent ++ plan o (.packet c last :: rest) = plan none ops)
    (hres : d.results ++ expected o (.packet c last :: rest) = expected none ops) :
    Steps S key ops d s sent := by
  unfold Steps
  match o, hb with
  | none, .idle hidle =>
    have hsend : d.tx.sendPacket T s c last =
        (.error (.error (.packetBuilder .noMessageInProgress)), d.tx, s) := by
      simp only [PacketTx.sendPacket, PacketBuilder.pack, hidle, Bool.not_false, ↓reduceIte]
    simp only [Sender.step, hcur, htodo, hsend]
    exact ⟨[], of_finish (by rw [List.append_nil]; exact hW) hfit.tail (.idle hidle) hplan hres,
      .refl S s⟩
  | some (t, f), hb =>
    obtain ⟨tx', s', hsend, hb', hE⟩ :=
      Emits.sendPacket S s hW.intact hb (hfit c last List.mem_cons_self) last
    simp only [Sender.step, hcur, htodo, hsend]
    exact ⟨_, of_finish (hW.emits hE) hfit.tail hb' hplan hres, hE.recv⟩

theorem step_abort {o : OpenMessage} {rest : List TxOp} (hW : Wrote S key d.tx.write s sent)
    (hfit : Fits rest) (hcur : d.current = []) (htodo : d.todo = .abort :: rest)
    (hb : BuilderIs o d.tx.packetBuilder)
    (hplan : sent ++ plan o (.abort :: rest) = plan none ops)
    (hres : d.results ++ expected o (.abort :: rest) = expected none ops) :
    Steps S key ops d s sent := by
  unfold Steps
  match o, hb with
  | none, .idle hidle =>
    have habort : d.tx.abortMessage T s = (.ok (), d.tx, s) := by
      simp only [PacketTx.abortMessage, PacketBuilder.abort, hidle, Bool.not_false, ↓reduceIte]
    simp only [Sender.step, hcur, htodo, habort]
    exact ⟨[], of_finish (by rw [List.append_nil]; exact hW) hfit (.idle hidle) hplan hres,
      .refl S s⟩
  | some (t, f), hb =>
    obtain ⟨tx', s', habort, hb', hE⟩ := Emits.abortMessage S s hW.intact hb
    simp only [Sender.step, hcur, htodo, habort]
    exact ⟨_, of_finish (hW.emits hE) hfit hb' hplan hres, hE.recv⟩

/-- One step of a sender. -/
theorem step (h : Sends S key ops d s sent) : Steps S key ops d s sent := by
  obtain ⟨hW, hpos, hfit⟩ := h
  cases hpos with
  | inside t f hcur hb hlen hplan hres =>
    obtain ⟨c, cs, hc⟩ := List.exists_cons_of_ne_nil hcur
    rw [hc] at hlen hplan
    exact step_inside hW hfit hc hb hlen hplan hres
  | between o hcur hb hplan hres =>
    cases htodo : d.todo with
    | nil =>
      have hstep : d.step T s = (d, s) := by simp only [Sender.step, hcur, htodo]
      unfold Steps
      rw [hstep]
      refine ⟨[], ?_, .refl S s⟩
      rw [List.append_nil]
      exact ⟨hW, .between o hcur hb hplan hres, hfit⟩
    | cons op rest =>
      rw [htodo] at hplan hres hfit
      cases op with
      | send t p => exact step_send hW hfit.tail hcur htodo hb hplan hres
      | prepare t => exact step_prepare hW hfit.tail hcur htodo hb hplan hres
      | packet c last => exact step_packet hW hfit hcur htodo hb hplan hres
      | abort => exact step_abort hW hfit.tail hcur htodo hb hplan hres

/-- The other half of the sending side moved the cipher state. -/
theorem set_cipher (h : Sends S key ops d s sent) {s' : σ} (hs : SameSend S s s') :
    Sends S key ops d s' sent :=
  { h with
    wrote := { h.wrote with
      sendKey := hs.1.trans h.wrote.sendKey
      sendNonce := hs.2.trans h.wrote.sendNonce } }

/-- What has been sent is the beginning of the plan. -/
theorem sent_isPrefix (h : Sends S key ops d s sent) : ∃ rest, sent ++ rest = plan none ops := by
  cases h.position with
  | between o hcur hb hplan hres => exact ⟨_, hplan⟩
  | inside t f hcur hb hlen hplan hres => exact ⟨_, hplan⟩

/-- The results so far are the first of the expected ones. -/
theorem results_isPrefix (h : Sends S key ops d s sent) : d.results <+: expected none ops := by
  cases h.position with
  | between o hcur hb hplan hres => exact ⟨_, hres⟩
  | inside t f hcur hb hlen hplan hres => exact ⟨_, hres⟩

/-- A sender with nothing left to do has sent its plan and returned the expected results. -/
theorem sent_of_done (h : Sends S key ops d s sent) (hcur : d.current = []) (htodo : d.todo = []) :
    sent = plan none ops ∧ d.results = expected none ops := by
  cases h.position with
  | between o hc hb hplan hres =>
    rw [htodo] at hplan hres
    simp only [plan, expected, List.append_nil] at hplan hres
    exact ⟨hplan, hres⟩
  | inside t f hne => exact absurd hcur hne

end Sends

theorem Sends.start {S : TransportSpec T} {tx : PacketTx} {s : σ} {ops : List TxOp}
    (hb : tx.packetBuilder.inProgress = false) (hw : tx.write = ⟨[], false⟩)
    (hn : S.sendNonce s = 0) (hfit : Fits ops) :
    Sends S (S.sendKey s) ops (.new tx ops) s [] := by
  refine ⟨⟨?_, ?_, rfl, hn⟩, .between none rfl (.idle hb) rfl rfl, hfit⟩
  · simp only [Sender.new, hw]
  · simp only [Sender.new, hw, TransportSpec.frames_nil]

end Snowpack
