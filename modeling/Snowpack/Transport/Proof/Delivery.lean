import Snowpack.Lib.Run
import Snowpack.Transport.Duplex
import Snowpack.Transport.Proof.Position
import Snowpack.Transport.Tagged

/-!
# End-to-end delivery

`Flows` is the invariant of one direction of a connection: the bytes that have arrived are the
frames the receiver has consumed and its read buffer, the receive nonce counts the consumed
packets, and the loop is at that point of the sender's plan. Every action of either side keeps it
in both directions (`step_flowing`), since the two halves of a side move different parts of the
cipher state they share.
-/

namespace Snowpack

open Wire

variable {σ : Type} {T : TransportOps σ}

/-- A ciphertext of the peer decrypts at its own nonce. -/
def TransportSpec.Correct (S : TransportSpec T) : Prop :=
  ∀ key n p, S.decrypt key n (S.encrypt key n p) = some p

/-! ## The packets of a plan -/

/-- A packet that survives its encoding and fits in a frame. -/
def PacketOk (p : Packet) : Prop := p.1.msgType ≤ typeMask ∧ p.2.length ≤ maxPacketSize

theorem cut_ok {t : UInt16} (ht : t ≤ typeMask) : ∀ {f : Bool} {cs : List Bytes},
    (∀ c ∈ cs, c.length ≤ maxPacketSize) → ∀ p ∈ cut t f cs, PacketOk p
  | _, [], _, p, hp => by simp [cut] at hp
  | f, c :: cs, hc, p, hp => by
    simp only [cut, List.mem_cons] at hp
    rcases hp with rfl | hp
    · exact ⟨ht, hc c List.mem_cons_self⟩
    · exact cut_ok ht (fun x hx => hc x (List.mem_cons_of_mem _ hx)) p hp

theorem plan_ok : ∀ {ops : List TxOp} {o : OpenMessage}, Fits ops →
    (∀ t f, o = some (t, f) → t ≤ typeMask) → ∀ p ∈ plan o ops, PacketOk p
  | [], _, _, _, p, hp => by simp [plan] at hp
  | .send t q :: ops, o, hfit, ho, p, hp => by
    simp only [plan] at hp
    split at hp
    · rename_i h
      rcases List.mem_append.1 hp with hp | hp
      · exact cut_ok h.1 (fun c hc => slices_length hc) p hp
      · exact plan_ok (o := none) hfit.tail (by simp) p hp
    · exact plan_ok hfit.tail ho p hp
  | .prepare t :: ops, o, hfit, ho, p, hp => by
    simp only [plan] at hp
    split at hp
    · rename_i h
      exact plan_ok hfit.tail (fun _ _ he => by cases he; exact h.1) p hp
    · exact plan_ok hfit.tail ho p hp
  | .packet c last :: ops, none, hfit, ho, p, hp => by
    simp only [plan] at hp
    exact plan_ok hfit.tail ho p hp
  | .packet c last :: ops, some (t, f), hfit, ho, p, hp => by
    simp only [plan, List.mem_cons] at hp
    rcases hp with rfl | hp
    · exact ⟨ho t f rfl, hfit c last List.mem_cons_self⟩
    · refine plan_ok hfit.tail (fun t' f' he => ?_) p hp
      cases last with
      | true => cases he
      | false => cases he; exact ho t f rfl
  | .abort :: ops, none, hfit, ho, p, hp => by
    simp only [plan] at hp
    exact plan_ok hfit.tail ho p hp
  | .abort :: ops, some (t, f), hfit, ho, p, hp => by
    simp only [plan, List.mem_cons] at hp
    rcases hp with rfl | hp
    · exact ⟨ho t f rfl, Nat.zero_le _⟩
    · exact plan_ok (o := none) hfit.tail (by simp) p hp

/-! ## One direction -/

/-- From the sender of one side to the loop of the other. -/
structure Flows (S : TransportSpec T) (key : S.Key) (ops : List TxOp) (items : List Item)
    (d : Sender) (s : σ) (moved : Nat) (r : Receiver σ) (consumed unread rest : List Packet) :
    Prop where
  sends : Sends S key ops d s (consumed ++ unread)
  at_ : LoopAt items rest r
  total : consumed ++ rest = wire items
  ok : ∀ p ∈ wire items, PacketOk p
  plan_eq : plan none ops = wire items
  arrived : d.tx.write.written.take moved = S.frames key 0 consumed ++ r.rx.packets.read.buf
  within : moved ≤ d.tx.write.written.length
  eof : r.rx.packets.read.eof = false
  recvKey : S.recvKey r.cipher = key
  recvNonce : S.recvNonce r.cipher = consumed.length

namespace Flows

variable {S : TransportSpec T} {key : S.Key} {ops : List TxOp} {items : List Item} {d : Sender}
  {s : σ} {moved : Nat} {r : Receiver σ} {consumed unread rest : List Packet}

/-- The bytes that have arrived unread and those under way are the frames not consumed. -/
theorem pending_bytes (h : Flows S key ops items d s moved r consumed unread rest) :
    r.rx.packets.read.buf ++ d.tx.write.written.drop moved =
      S.frames key consumed.length unread := by
  have hw := h.sends.wrote.written
  rw [TransportSpec.frames_append, Nat.zero_add] at hw
  have hsplit := List.take_append_drop moved d.tx.write.written
  rw [h.arrived, List.append_assoc] at hsplit
  exact List.append_cancel_left (hsplit.trans hw)

/-- What has been sent and not read is the beginning of what the loop has yet to read. -/
theorem unread_isPrefix (h : Flows S key ops items d s moved r consumed unread rest) :
    ∃ later, rest = unread ++ later := by
  obtain ⟨later, hl⟩ := h.sends.sent_isPrefix
  rw [h.plan_eq, ← h.total, List.append_assoc] at hl
  exact ⟨later, (List.append_cancel_left hl).symm⟩

/-- More bytes arrive. -/
theorem deliver (h : Flows S key ops items d s moved r consumed unread rest) (n : Nat) :
    Flows S key ops items d s (moved + ((d.tx.write.written.drop moved).take n).length)
      { r with rx.packets.read.buf := r.rx.packets.read.buf ++
          (d.tx.write.written.drop moved).take n } consumed unread rest := by
  refine { h with at_ := h.at_.of_eq rfl rfl rfl rfl rfl, arrived := ?_, within := ?_ }
  · rw [List.length_take, List.take_add, h.arrived, List.append_assoc, ← List.take_eq_take_min]
  · have hw := h.within
    rw [List.length_take, List.length_drop]
    omega

/-- The other half of the receiving side moved the cipher state. -/
theorem set_cipher (h : Flows S key ops items d s moved r consumed unread rest) {s' : σ}
    (hr : SameRecv S r.cipher s') :
    Flows S key ops items d s moved { r with cipher := s' } consumed unread rest :=
  { h with
    at_ := h.at_.of_eq rfl rfl rfl rfl rfl
    recvKey := hr.1.trans h.recvKey
    recvNonce := hr.2.trans h.recvNonce }

/-- The sender takes a step: what has arrived is still the beginning of what it wrote. -/
theorem send (h : Flows S key ops items d s moved r consumed unread rest) :
    ∃ new, Flows S key ops items (d.step T s).1 (d.step T s).2 moved r consumed (unread ++ new)
        rest ∧ SameRecv S s (d.step T s).2 := by
  obtain ⟨new, hs, hr⟩ := h.sends.step
  rw [List.append_assoc] at hs
  have hw : (d.step T s).1.tx.write.written =
      d.tx.write.written ++ S.frames key (consumed ++ unread).length new := by
    rw [hs.wrote.written, h.sends.wrote.written, ← List.append_assoc,
      TransportSpec.frames_append, Nat.zero_add]
  refine ⟨new, { h with sends := hs, arrived := ?_, within := ?_ }, hr⟩
  · rw [hw, List.take_append_of_le_length h.within]
    exact h.arrived
  · rw [hw, List.length_append]
    exact Nat.le_add_right_of_le h.within

/-- At a read with a packet not consumed, `read_packet` waits for the rest of its frame or takes
it. -/
theorem takes {p : Packet} (hS : S.Correct)
    (h : Flows S key ops items d s moved r consumed (p :: unread) rest) (hn : r.ReadsNext) :
    (d.tx.write.written.drop moved ≠ [] ∧ r.rx.packets.readPacket T r.cipher = .pending) ∨
    ∃ rx' s', LoopAt.Takes T r p rx' s' ∧ rx'.read.eof = false ∧
      r.rx.packets.read.buf = frame (S.encrypt key consumed.length (rawPacket p)) ++ rx'.read.buf ∧
      S.sendKey s' = S.sendKey r.cipher ∧ S.recvKey s' = key ∧
      S.sendNonce s' = S.sendNonce r.cipher ∧ S.recvNonce s' = consumed.length + 1 := by
  obtain ⟨later, hrest⟩ := h.unread_isPrefix
  have hmem : p ∈ wire items := by
    rw [← h.total, hrest]
    simp
  obtain ⟨htype, hlen⟩ := h.ok p hmem
  obtain ⟨rd, hstep⟩ := h.at_.next_step hn hrest
  have hread : r.rx.packets.packetReader.read (rawPacket p) = (.ok p.1, rd) := by
    rw [rawPacket, read_header_append htype]
    exact PacketReader.accept_of_step hstep
  have hc : (S.encrypt key consumed.length (rawPacket p)).length ≤ maxCiphertextSize := by
    rw [S.length_encrypt, length_rawPacket]
    simp only [maxPacketSize, maxRawPacketSize, maxCiphertextSize, cipherOverheadSize] at hlen
    simp only [noiseTag, maxCiphertextSize]
    omega
  have hdec : S.decrypt (S.recvKey r.cipher) (S.recvNonce r.cipher)
      (S.encrypt key consumed.length (rawPacket p)) = some (rawPacket p) := by
    rw [h.recvKey, h.recvNonce]
    exact hS _ _ _
  rcases PacketRx.readPacket_frame S h.eof h.pending_bytes hc hdec with
    ⟨hlt, hpend⟩ | ⟨rx', s', hok, -, hrd', hpay, heof, hbuf, h1, h2, h3, h4⟩
  · refine .inl ⟨fun hnil => ?_, hpend⟩
    have hpb := congrArg List.length h.pending_bytes
    rw [hnil, TransportSpec.frames, List.length_append, List.length_append, List.length_nil] at hpb
    omega
  · right
    rw [hread] at hok hrd'
    refine ⟨rx', s', ⟨hok, hpay, ?_⟩, heof, ?_, h1, h2.trans h.recvKey, h3, by rw [h4, h.recvNonce]⟩
    · rw [hrd']
      exact hstep
    · have hpb := h.pending_bytes
      rw [TransportSpec.frames, ← hbuf, ← List.append_assoc] at hpb
      exact List.append_cancel_right hpb

/-- The turns a loop can take on what has been sent to it. -/
def budget (unread : List Packet) (r : Receiver σ) : Nat := 5 * unread.length + r.rank

/-- A turn of the loop: one that waits and changes nothing, or one that gets closer to having read
everything that was sent. -/
theorem recv (hS : S.Correct) (h : Flows S key ops items d s moved r consumed unread rest)
    (drain : Bool) :
    ∃ consumed' unread' rest',
      Flows S key ops items d s moved (r.loop T drain) consumed' unread' rest' ∧
      S.sendKey (r.loop T drain).cipher = S.sendKey r.cipher ∧
      S.sendNonce (r.loop T drain).cipher = S.sendNonce r.cipher ∧
      (r.loop T drain = r ∧ r.ReadsNext ∧ (unread = [] ∨ d.tx.write.written.drop moved ≠ []) ∨
        budget unread' (r.loop T drain) < budget unread r) := by
  by_cases hn : r.ReadsNext
  · cases unread with
    | nil =>
      -- everything sent has been consumed: nothing is left to arrive
      have hpb := h.pending_bytes
      rw [TransportSpec.frames_nil, List.append_eq_nil_iff] at hpb
      rw [LoopAt.loop_pending (T := T) hn (PacketRx.readPacket_empty hpb.1 h.eof) drain]
      exact ⟨consumed, [], rest, h, rfl, rfl, .inl ⟨rfl, hn, .inl rfl⟩⟩
    | cons p unread =>
      rcases h.takes hS hn with ⟨hfl, hpend⟩ | ⟨rx', s', ht, heof, hbuf, h1, h2, h3, h4⟩
      · rw [LoopAt.loop_pending hn hpend drain]
        exact ⟨consumed, p :: unread, rest, h, rfl, rfl, .inl ⟨rfl, hn, .inr hfl⟩⟩
      · obtain ⟨later, hrest⟩ := h.unread_isPrefix
        have hat := h.at_
        rw [hrest] at hat
        obtain ⟨hat', hp, hc⟩ := hat.loop_packet hn ht drain
        have hrank := (r.loop T drain).rank_le
        refine ⟨consumed ++ [p], unread, unread ++ later, ⟨?_, hat', ?_, h.ok, h.plan_eq, ?_,
          h.within, ?_, ?_, ?_⟩, by rw [hc, h1], by rw [hc, h3], .inr ?_⟩
        · rw [List.append_assoc]
          exact h.sends
        · rw [← h.total, hrest, List.append_assoc]
          rfl
        · rw [hp, h.arrived, hbuf, TransportSpec.frames_append, Nat.zero_add]
          simp only [TransportSpec.frames, List.append_nil, List.append_assoc]
        · rw [hp]
          exact heof
        · rw [hc]
          exact h2
        · rw [hc, h4, List.length_append]
          rfl
        · simp only [budget, List.length_cons]
          omega
  · obtain ⟨hat, hp, hc, hrank⟩ := h.at_.loop_local (T := T) hn drain
    refine ⟨consumed, unread, rest, { h with
      at_ := hat, arrived := ?_, eof := ?_, recvKey := ?_, recvNonce := ?_ },
      by rw [hc], by rw [hc], .inr ?_⟩
    · rw [hp]
      exact h.arrived
    · rw [hp]
      exact h.eof
    · rw [hc]
      exact h.recvKey
    · rw [hc]
      exact h.recvNonce
    · simp only [budget]
      omega

/-- The other half of the sending side moved the cipher state. -/
theorem set_sendCipher (h : Flows S key ops items d s moved r consumed unread rest) {s' : σ}
    (hs : SameSend S s s') : Flows S key ops items d s' moved r consumed unread rest :=
  { h with sends := h.sends.set_cipher hs }

end Flows

/-! ## Both directions -/

/-- Both directions of a connection flow. -/
def Duplex.Flowing (S : TransportSpec T) (key : Side → S.Key) (ops : Side → List TxOp)
    (items : Side → List Item) (d : Duplex σ) : Prop :=
  ∀ x, ∃ consumed unread rest, Flows S (key x) (ops x) (items x) (d.at_ x).sender
    (d.at_ x).receiver.cipher (d.moved x) (d.at_ x.other).receiver consumed unread rest

namespace Duplex

variable {S : TransportSpec T} {key : Side → S.Key} {ops : Side → List TxOp}
  {items : Side → List Item} {d : Duplex σ}

theorem send_flowing (h : d.Flowing S key ops items) (x : Side) :
    (d.step T (.send x)).Flowing S key ops items := by
  obtain ⟨consumed, unread, rest, hx⟩ := h x
  obtain ⟨consumed', unread', rest', ho⟩ := h x.other
  rw [Side.other_other] at ho
  obtain ⟨new, hx', hr⟩ := hx.send
  refine Side.forall_of x ⟨consumed, unread ++ new, rest, ?_⟩ ⟨consumed', unread', rest', ?_⟩
  · simp only [step, Ends.set_self, Ends.set_other, Ends.set_moved]
    exact hx'
  · simp only [step, Ends.set_self, Ends.set_other, Ends.set_moved, Side.other_other]
    exact ho.set_cipher hr

theorem recv_flowing (hS : S.Correct) (h : d.Flowing S key ops items) (x : Side) (drain : Bool) :
    (d.step T (.recv x drain)).Flowing S key ops items := by
  obtain ⟨consumed, unread, rest, hx⟩ := h x
  obtain ⟨consumed', unread', rest', ho⟩ := h x.other
  rw [Side.other_other] at ho
  obtain ⟨c, u, l, ho', hk, hn, -⟩ := ho.recv hS drain
  refine Side.forall_of x ⟨consumed, unread, rest, ?_⟩ ⟨c, u, l, ?_⟩
  · simp only [step, Ends.set_self, Ends.set_other, Ends.set_moved]
    exact hx.set_sendCipher ⟨hk, hn⟩
  · simp only [step, Ends.set_self, Ends.set_other, Ends.set_moved, Side.other_other]
    exact ho'

theorem deliver_flowing (h : d.Flowing S key ops items) (x : Side) (n : Nat) :
    (d.step T (.deliver x n)).Flowing S key ops items := by
  obtain ⟨consumed, unread, rest, hx⟩ := h x
  obtain ⟨consumed', unread', rest', ho⟩ := h x.other
  rw [Side.other_other] at ho
  refine Side.forall_of x ⟨consumed, unread, rest, ?_⟩ ⟨consumed', unread', rest', ?_⟩
  · simp only [step, Ends.at_deliver_self, Ends.at_deliver_other, Ends.moved_deliver_self]
    exact hx.deliver n
  · simp only [step, Side.other_other, Ends.at_deliver_self, Ends.at_deliver_other,
      Ends.moved_deliver_other]
    exact ho

theorem step_flowing (hS : S.Correct) (h : d.Flowing S key ops items) (a : DuplexAct) :
    (d.step T a).Flowing S key ops items := by
  cases a with
  | send x => exact send_flowing h x
  | deliver x n => exact deliver_flowing h x n
  | recv x drain => exact recv_flowing hS h x drain

end Duplex

end Snowpack
