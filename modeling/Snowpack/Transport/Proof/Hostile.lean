import Snowpack.Transport.Hostile
import Snowpack.Transport.Proof.Bytewise
import Snowpack.Transport.Proof.Story

/-!
# Any calls on hostile streams

Only the cipher is ideal here: what decrypts at a nonce is what the peer encrypted at it
(`TransportSpec.Genuine`). A loop that has met no failure then stands where the first packets of the
peer have taken it (`Beset.clean`), whichever bytes brought them; a frame that is not the peer's
next one is a failure, and so is what follows a future that was dropped inside a frame. What was
seen before the first failure thus is the beginning of what the peer told (`calls_withstand`).

The argument is local to a party: an adversary that supplies all bytes leaves no other way in which
the parties meet.
-/

namespace Snowpack

open Wire

variable {σ ρ : Type} {T : TransportOps σ} {S : TransportSpec T}

/-! ## Only the peer's packets are heard -/

theorem Hears.ok {h h' : Hearing} {ps : List Packet} {os : List Outcome} (hh : Hears h ps h' os) :
    ∀ p ∈ ps, PacketOk p := by
  induction hh with
  | nil h => simp
  | cons hp _ _ ih =>
    intro q hq
    rcases List.mem_cons.1 hq with rfl | hq
    · exact hp
    · exact ih q hq

/-- Of the first packets a loop hears the first outcomes. -/
theorem Hears.isPrefix {h h' h'' : Hearing} {ps qs : List Packet} {os os' : List Outcome}
    (hps : Hears h ps h' os) (hall : Hears h (ps ++ qs) h'' os') : os <+: os' := by
  induction hps generalizing os' with
  | nil h => exact List.nil_prefix
  | cons hp hn _ ih =>
    cases hall with
    | cons hp' hn' hps' =>
      rw [hn] at hn'
      cases hn'
      exact (List.prefix_append_right_inj _).2 (ih hps')

/-- What was written comes of packets that nothing else decrypts than. -/
def TransportSpec.Genuine (S : TransportSpec T) (key : S.Key) (written : Bytes) : Prop :=
  ∀ sent, (∀ p ∈ sent, PacketOk p) → written = S.frames key 0 sent →
    S.Ideal key (sent.map rawPacket)

/-- A read fails, or it takes the peer's next packet. -/
theorem TransportSpec.find_ideal {key : S.Key} {ps : List Packet}
    (hI : S.Ideal key (ps.map rawPacket)) (hok : ∀ p ∈ ps, PacketOk p) {h : Hearing}
    {stream rest : ReadHalf} {found : Found} {rd : PacketReader} {n : Nat}
    (hfind : S.find key h.nonce h.reader stream = .ready (found, rd, rest, n)) :
    (found = .noise ∨ ∃ e, found = .io e) ∨
      ∃ p, ps[h.nonce]? = some p ∧ PacketOk p ∧
        h.next p = (⟨rd, n, (h.ear.hear found).1⟩, (h.ear.hear found).2) := by
  unfold find at hfind
  split at hfind
  · cases hfind
  · cases hfind
    exact .inl (.inr ⟨_, rfl⟩)
  · split at hfind
    · cases hfind
      exact .inl (.inl rfl)
    · rename_i raw hdec
      right
      obtain ⟨hget, -⟩ := hI _ _ _ hdec
      obtain ⟨p, hp, rfl⟩ := Option.map_eq_some_iff.1 (List.getElem?_map .. ▸ hget)
      have hpok := hok p (List.mem_of_getElem? hp)
      have hread : h.reader.read (rawPacket p) = h.reader.accept p.1.kind p.1.msgType :=
        read_header_append hpok.1 p.2 h.reader
      rcases hacc : h.reader.accept p.1.kind p.1.msgType with ⟨res, rd'⟩
      rw [hread, hacc] at hfind
      refine ⟨p, hp, hpok, ?_⟩
      simp only [Hearing.next, hacc]
      cases res <;> cases hfind <;> rfl

/-! ## A loop under attack -/

/-- The loop has seen what the first packets of the peer come to, or that and a failure. -/
inductive Beset (S : TransportSpec T) (key : S.Key) (ps : List Packet) (r : Receiver σ) : Prop
  | clean (k : Nat) (ear : Ear) (os : List Outcome) (hat : ear.At os r)
      (hears : Hears .new (ps.take k) (r.hearing S ear) os) (hkey : S.recvKey r.cipher = key)
  | failed (k : Nat) (h : Hearing) (first : List Outcome) (e : ConnectionError)
      (later : List Outcome) (hears : Hears .new (ps.take k) h first)
      (hseen : r.heard = first ++ .failed e :: later)

namespace Beset

variable {key : S.Key} {ps : List Packet} {r : Receiver σ}

/-- The stream and the buffer of the frame do not matter. -/
theorem of_eq (h : Beset S key ps r) {r' : Receiver σ} (hh : r'.handle = r.handle)
    (he : r'.events = r.events) (hb : r'.rx.readBuf = r.rx.readBuf)
    (hr : r'.rx.packets.packetReader = r.rx.packets.packetReader)
    (hp : r'.rx.packets.payload = r.rx.packets.payload) (hs : SameRecv S r.cipher r'.cipher) :
    Beset S key ps r' := by
  cases h with
  | clean k ear os hat hears hkey =>
    refine .clean k ear os (hat.of_eq hh he hb hp) ?_ (hs.1.trans hkey)
    rw [Receiver.hearing, hr, hs.2]
    exact hears
  | failed k h first e later hears hseen =>
    refine .failed k h first e later hears ?_
    rw [Receiver.heard, he]
    exact hseen

/-- A failure is seen at once. -/
theorem seen_failed {os : List Outcome} {e : ConnectionError}
    (h : Ear.idle.At (os ++ [.failed e]) r) :
    r.heard = os ++ [.failed e] := by
  generalize hos : os ++ [Outcome.failed e] = all at h
  cases h with
  | free hh hs => exact hs.1
  | sole hh hit hpay hk hs => exact absurd (List.append_inj_right' hos rfl) (by simp)
  | drained hh hit hs => exact absurd (List.append_inj_right' hos rfl) (by simp)
  | ended hh hit hs => exact hs.1

theorem take_succ {k : Nat} {p : Packet} (h : ps[k]? = some p) :
    ps.take (k + 1) = ps.take k ++ [p] := by
  rw [List.take_add_one, h]
  rfl

/-- One turn of the loop. -/
theorem loop (hI : S.Ideal key (ps.map rawPacket)) (hok : ∀ p ∈ ps, PacketOk p)
    (h : Beset S key ps r) (drain : Bool) : Beset S key ps (r.loop T drain) := by
  cases h with
  | failed k h first e later hears hseen =>
    obtain ⟨es, hes⟩ := (r.loop_follows (T := T) drain).events
    obtain ⟨more, hmore⟩ := observe_outcomes es r.events
    refine .failed k h first e (later ++ more.map Outcome.blur) hears ?_
    have hmap : (r.loop T drain).heard = r.heard ++ more.map Outcome.blur := by
      rw [Receiver.heard, hes, ← hmore, List.map_append, Receiver.heard]
    rw [hmap, hseen, List.append_assoc, List.cons_append]
  | clean k ear os hat hears hkey =>
    by_cases hn : r.ReadsNext
    · have hdead := hat.not_dead_of_reads hn
      cases hfind : S.find (S.recvKey r.cipher) (S.recvNonce r.cipher) r.rx.packets.packetReader
        r.rx.packets.read with
      | pending =>
        rw [Ear.loop_waits hn hfind]
        exact .clean k ear os hat hears hkey
      | ready res =>
        obtain ⟨found, rd, rest, n⟩ := res
        have hh := hat.loop_hears hn hfind drain
        have hat' := hh.at_
        rw [hkey] at hfind
        rcases S.find_ideal hI hok (h := r.hearing S ear) hfind with hfail | ⟨p, hp, hpok, hnext⟩
        · -- the loop has seen all of its packets, and now the failure
          obtain ⟨e, he⟩ : ∃ e, ear.hear found = (.idle, [.failed e]) := by
            rcases hfail with rfl | ⟨e, rfl⟩ <;> cases ear <;>
              first | exact absurd rfl hdead | exact ⟨_, rfl⟩
          rw [he] at hat'
          exact .failed k _ os e [] hears (seen_failed hat')
        · have hk : (r.hearing S ear).nonce = (ps.take k).length := by
            rw [hears.nonce]
            exact Nat.zero_add _
          rw [hk] at hp
          have hlt : (ps.take k).length < ps.length := (List.getElem?_eq_some_iff.1 hp).1
          have hkk : (ps.take k).length = k := by
            rw [List.length_take] at hlt ⊢
            omega
          rw [hkk] at hp
          refine .clean (k + 1) _ _ hat' ?_ (hh.recvKey.trans hkey)
          rw [take_succ hp, hh.hearing]
          exact hears.append (.packet hpok hnext)
    · obtain ⟨hat', hpackets, hcipher, -⟩ := hat.loop_local (T := T) hn drain
      refine .clean k ear os hat' ?_ ?_
      · rw [Receiver.hearing, hpackets, hcipher]
        exact hears
      · rw [hcipher]
        exact hkey

/-- What was seen before the first failure is the beginning of what the peer's packets come to. -/
theorem seen (h : Beset S key ps r) {h' : Hearing} {os : List Outcome}
    (hall : Hears .new ps h' os) :
    ∃ first, first <+: os ∧ (r.heard = first ∨
      ∃ e later, r.heard = first ++ .failed e :: later) := by
  have hpre {k : Nat} {h : Hearing} {first : List Outcome}
      (hears : Hears .new (ps.take k) h first) : first <+: os := by
    have hsplit : Hears .new (ps.take k ++ ps.drop k) h' os := by
      rw [List.take_append_drop]
      exact hall
    exact hears.isPrefix hsplit
  cases h with
  | clean k ear os' hat hears hkey => exact ⟨_, hat.seen.trans (hpre hears), .inl rfl⟩
  | failed k h first e later hears hseen => exact ⟨first, hpre hears, .inr ⟨e, later, hseen⟩⟩

end Beset

/-! ## A party -/

theorem Reading.Of.close {r : Receiver σ} {p : Reading σ} (h : Of r p) :
    Of (r.act T .close) { p with receiver := p.receiver.act T .close } := by
  refine ⟨?_, h.idle, congrArg (fun q : Receiver σ => { q with
    rx.packets.read.eof := true }) h.same⟩
  have htook := h.took
  simp only [Receiver.act]
  generalize p.receiver.rx.packets.ciphertextBuf = buf at htook ⊢
  generalize p.frame = f at htook ⊢
  cases htook with
  | length hlt hwhole =>
    refine .length hlt ?_
    rw [hwhole]
  | body hlt hwhole =>
    refine .body hlt ?_
    rw [hwhole]

variable (S) in
/-- A property of receivers that the loop keeps, and that says nothing about what is on the stream
and half read. -/
structure Receiver.Kept (Q : Receiver σ → Prop) : Prop where
  loop : ∀ r drain, Q r → Q (r.loop T drain)
  same : ∀ r r' : Receiver σ, r'.handle = r.handle → r'.events = r.events →
    r'.rx.readBuf = r.rx.readBuf → r'.rx.packets.packetReader = r.rx.packets.packetReader →
    r'.rx.packets.payload = r.rx.packets.payload → SameRecv S r.cipher r'.cipher → Q r → Q r'

/-- Without the bytes that a future has taken, the receiver is still one with `Q`. -/
theorem Reading.Of.kept {Q : Receiver σ → Prop} (hQ : Receiver.Kept S Q) {r : Receiver σ}
    {p : Reading σ} (h : Of r p) (hr : Q r) : Q p.receiver := by
  rw [h.same]
  exact hQ.same r _ rfl rfl rfl rfl rfl (.refl S _) hr

theorem Beset.kept {key : S.Key} {ps : List Packet} (hI : S.Ideal key (ps.map rawPacket))
    (hok : ∀ p ∈ ps, PacketOk p) : Receiver.Kept S (Beset S key ps) where
  loop _ drain h := h.loop hI hok drain
  same _ _ hh he hb hr hp hs h := h.of_eq hh he hb hr hp hs

/-! ## Calls that are dropped while they write -/

/-- The first packets of a slice: all of it, or some that are not the last. -/
theorem PacketTx.sendFirst_eq (cs : List Bytes) : ∀ (n : Nat) (tx : PacketTx) (s : σ),
    tx.sendFirst T n s cs =
      if cs.length ≤ n then tx.sendChunks T s true cs else tx.sendChunks T s false (cs.take n) := by
  induction cs with
  | nil =>
    intro n tx s
    cases n <;> rfl
  | cons c cs ih =>
    intro n tx s
    cases n with
    | zero => rfl
    | succ n =>
      by_cases hle : cs.length ≤ n
      · simp only [List.length_cons, Nat.add_le_add_iff_right, hle, ↓reduceIte, sendFirst,
          sendChunks, Bool.and_true]
        rcases tx.sendPacket T s c cs.isEmpty with ⟨r, tx', s'⟩
        cases r with
        | error f => rfl
        | ok u =>
          have hrest := ih n tx' s'
          rw [if_pos hle] at hrest
          exact hrest
      · -- more chunks follow, so this is not the last
        have hmore : cs.isEmpty = false := by
          rw [List.isEmpty_eq_false_iff]
          rintro rfl
          exact hle (Nat.zero_le n)
        simp only [List.length_cons, Nat.add_le_add_iff_right, hle, ↓reduceIte, sendFirst,
          sendChunks, List.take_succ_cons, Bool.and_false, hmore]
        rcases tx.sendPacket T s c false with ⟨r, tx', s'⟩
        cases r with
        | error f => rfl
        | ok u =>
          have hrest := ih n tx' s'
          rw [if_neg hle] at hrest
          exact hrest

theorem slices_take {p : Bytes} {n : Nat} (h : n + 1 < (slices p).length) :
    ∃ sent, sent <+: p ∧ sent ≠ [] ∧ maxPacketSize ∣ sent.length ∧
      (slices p).take (n + 1) = chunks maxPacketSize sent := by
  unfold slices at h ⊢
  split at h
  · simp at h
  · obtain ⟨sent, rest, hp, hlen, hchunks⟩ := take_chunks maxPacketSize_pos (n + 1) p h
    refine ⟨sent, ⟨rest, hp⟩, ?_, ⟨n + 1, by rw [hlen, Nat.mul_comm]⟩, hchunks⟩
    rintro rfl
    have := maxPacketSize_pos
    rw [List.length_nil, Nat.succ_mul] at hlen
    omega

/-- What a `send_reader` says that is dropped in its last packet. -/
theorem Told.say_cut {s : Told} {t : UInt16} (hall : ∀ accepted, s.opening t accepted = accepted)
    (d : Bytes) :
    s.say (if d ≠ [] ∧ maxPacketSize ∣ d.length then .dropped t d else .finishing t d) =
      s.record (openBehind t (streamChunks d none).2 true (streamChunks d none).1) none
        (if (streamChunks d none).2 = true ∧ (streamChunks d none).1 ≠ [] then
          [.got t (streamChunks d none).1.flatten] else []) := by
  by_cases hd : d = []
  · simp [say, hall, streamChunks, hd, openBehind]
  · have hcs : chunks maxPacketSize d ≠ [] := by
      rw [chunks_cons maxPacketSize_pos hd]
      exact List.cons_ne_nil _ _
    by_cases hdvd : maxPacketSize ∣ d.length
    · simp [say, hall, streamChunks, hd, hdvd, openBehind_false, isEmpty_chunks]
    · simp [say, hall, streamChunks, hd, hdvd, Abreast.openBehind_true hcs, hcs,
        flatten_chunks maxPacketSize_pos]

namespace Spoken

variable {key : S.Key} {o : Outbox σ} {s : Told} {h : Hearing} {R : Source ρ} {t : UInt16}

theorem cutMessage (hsp : Spoken S key o s h) (t : UInt16) (payload : Bytes) (k : Nat) :
    Goes S (TxCall.Cut R (.sendMessage t payload)) key o
      (o.cut T R k (.sendMessage t payload)) s := by
  rcases hsp.prepares t with ⟨r, hprep, hall⟩ | ⟨p, hprep, ht, hleft, hw, hopen, ha, hall⟩
  · refine ⟨_, h, .message t payload, ?_, ?_⟩
    · simp only [Outbox.cut, hprep]
      exact hall _
    · simp only [Outbox.cut, hprep]
      exact ⟨.refl S _, List.prefix_rfl⟩
  · have hintact : p.write.broken = false := by
      rw [hw]
      exact hsp.intact
    simp only [Outbox.cut, hprep, PacketTx.sendFirst_eq]
    by_cases hle : (slices payload).length ≤ k + 1
    · rw [if_pos hle]
      obtain ⟨tx', s', hsend, hb, hE⟩ := Emits.sendChunks S true (slices payload) o.cipher hintact
        hopen fun c hc => slices_length hc
      obtain ⟨h', ha', hH⟩ := ha.hears_message ht payload
      rw [Abreast.openBehind_true (Sender.slices_ne_nil payload)] at hb
      rw [segment_true] at hE
      rw [hsend]
      refine ⟨_, h', .message t payload, ?_, hE.recv, (hE.of_write hw).grows⟩
      simp only [Told.say, hall]
      exact hsp.record ⟨tx'⟩ _ (hE.of_write hw) hb ha' hH
    · rw [if_neg hle]
      obtain ⟨sent, hpre, hne, hfull, htake⟩ := slices_take (Nat.not_le.1 hle)
      rw [htake]
      obtain ⟨tx', s', hsend, hb, hE⟩ := Emits.sendChunks S false (chunks maxPacketSize sent)
        o.cipher hintact hopen fun c hc => length_le_of_mem_chunks maxPacketSize_pos _ hc
      rw [openBehind_false, isEmpty_chunks, Bool.true_and] at hb
      obtain ⟨h', hspoken⟩ := hsp.dropped ha ht hall (hE.of_write hw) hb
      rw [hsend]
      exact ⟨_, h', .part hpre hne hfull, hspoken, hE.recv, (hE.of_write hw).grows⟩

theorem cutReader (hsp : Spoken S key o s h) (t : UInt16) {reader : ρ} (turns k : Nat)
    {d : Bytes} {fin : Option IoError} (hsrc : R.Delivers reader d fin) :
    Goes S (TxCall.Cut R (.sendReader t reader turns)) key o
      (o.cut T R k (.sendReader t reader turns)) s := by
  rcases hsp.prepares t with ⟨r, hprep, hall⟩ | ⟨p, hprep, ht, hleft, hw, hopen, ha, hall⟩
  · refine ⟨_, h, .dropped hsrc List.nil_prefix (Nat.dvd_zero _), ?_, ?_⟩
    · simp only [Outbox.cut, hprep]
      exact hall _
    · simp only [Outbox.cut, hprep]
      exact ⟨.refl S _, List.prefix_rfl⟩
  · have hintact : p.write.broken = false := by
      rw [hw]
      exact hsp.intact
    simp only [Outbox.cut, hprep]
    cases hrun : p.sendReader T R turns o.cipher reader with
    | inl st =>
      obtain ⟨sent, w, rest, hd, -, ham⟩ :=
        PacketTx.sendReader_left (S := S) hopen hintact hsrc hrun
      by_cases hspace : maxPacketSize - st.filled = 0
      · -- the buffer is full, and its packet was being written
        have hfull : w.length = maxPacketSize := by
          rw [ham.holds.filled] at hspace
          have := ham.holds.fits
          omega
        obtain ⟨tx₁, s₁, hsend, ham'⟩ := ham.sendFull hfull
        obtain ⟨h', hspoken⟩ := hsp.dropped ha ht hall (ham'.emits.of_write hw) ham'.builder
        simp only [hspace, ↓reduceIte, ham.holds.sendFilled, hsend]
        exact ⟨_, h', .dropped hsrc ⟨rest, by rw [List.append_assoc, hd]⟩ ham'.full, hspoken,
          ham'.emits.recv, (ham'.emits.of_write hw).grows⟩
      · obtain ⟨h', hspoken⟩ := hsp.dropped ha ht hall (ham.emits.of_write hw) ham.builder
        simp only [hspace, ↓reduceIte]
        exact ⟨_, h', .dropped hsrc ⟨w ++ rest, hd⟩ ham.full, hspoken, ham.emits.recv,
          (ham.emits.of_write hw).grows⟩
    | inr res =>
      obtain ⟨tx', s', source, rfl, hb', hE⟩ :=
        PacketTx.sendReader_done (S := S) hopen hintact hsrc hrun
      obtain ⟨h', ha', hH⟩ := ha.hears_segment ht (streamChunks d fin).2 _
        (length_streamChunks d fin)
      rw [ha.part_opened, List.nil_append] at hH
      have hrecord := hsp.record ⟨tx'⟩ (r := (if fin = none then none else some (streamResult fin)))
        (hE.of_write hw) hb' ha' hH
      cases fin with
      | none =>
        refine ⟨if d ≠ [] ∧ maxPacketSize ∣ d.length then .dropped t d else .finishing t d, h', ?_,
          ?_, hE.recv, (hE.of_write hw).grows⟩
        · split
          · rename_i hdvd
            exact .dropped hsrc List.prefix_rfl hdvd.2
          · exact .stream hsrc
        · rw [Told.say_cut hall]
          exact hrecord
      | some e =>
        refine ⟨_, h', .failed hsrc, ?_, hE.recv, (hE.of_write hw).grows⟩
        rw [Told.say_stream hall]
        exact hrecord

theorem cutAbort (hsp : Spoken S key o s h) (k : Nat) :
    Goes S (TxCall.Cut R .abortMessage) key o (o.cut T R k .abortMessage) s := by
  have hb := hsp.builder
  have ha := hsp.abreast
  generalize hleft : s.left = left at hb ha
  cases hb with
  | idle hp =>
    have hnone : o.tx.packets.packetBuilder.abort.1 = none := by simp [PacketBuilder.abort, hp]
    have habort : o.tx.abortMessage T o.cipher = (.ok (), o.tx, o.cipher) := by
      simp [MessageTx.abortMessage, PacketTx.abortMessage, PacketBuilder.abort, hp]
    have hcut : o.cut T R k .abortMessage = o.record (some (.ok ())) o.tx o.cipher := by
      unfold Outbox.cut
      simp only [Outbox.call, habort]
      split
      · rfl
      · rename_i h'
        rw [h'] at hnone
        cases hnone
    rw [hcut]
    refine ⟨_, h, .abort, ?_, .refl S _, List.prefix_rfl⟩
    simp only [Told.say, Told.closing, hleft]
    exact hsp.record _ _ (.nil hsp.intact rfl) (.idle hp) ha (.nil h)
  | @opened _ t f hp hf hm ht =>
    obtain ⟨b', hsome, -⟩ := (BuilderIs.opened hp hf hm ht).abort
    obtain ⟨tx', s', habort, hb', hE⟩ :=
      Emits.abortMessage S o.cipher hsp.intact (.opened hp hf hm ht)
    obtain ⟨h', hH, ha'⟩ := ha.hears_abort ht
    simp only [Outbox.cut, hsome, habort]
    refine ⟨_, h', .abort, ?_, hE.recv, hE.grows⟩
    simp only [Told.say, Told.closing, hleft]
    cases f with
    | true => exact hsp.record ⟨tx'⟩ _ hE hb' ha' hH
    | false => exact hsp.record ⟨tx'⟩ _ hE hb' ha' hH

theorem cut (hsp : Spoken S key o s h) (R : Source ρ) {c : TxCall ρ} (hc : c.Finite R) (k : Nat) :
    Goes S (c.Cut R) key o (o.cut T R k c) s := by
  cases c with
  | sendMessage t payload => exact hsp.cutMessage t payload k
  | sendReader t reader turns =>
    obtain ⟨d, fin, hsrc⟩ := hc
    exact hsp.cutReader t turns k hsrc
  | abortMessage => exact hsp.cutAbort k

end Spoken

theorem Talker.Said.cut {R : Source ρ} {calls : List (TxCall ρ)} {key : S.Key}
    {sayings : List Saying} {e : Talker σ ρ} (hfin : ∀ c ∈ calls, c.Finite R)
    (h : e.Said S (TxCall.MaySay R) calls key sayings) (k : Nat) :
    ∃ sayings' s, (e.cut T R k).Said S (TxCall.MaySay R) calls key sayings' ∧
      (e.cut T R k).receiver = { e.receiver with cipher := s } ∧
      SameRecv S e.receiver.cipher s := by
  cases htodo : e.todo with
  | nil =>
    have hcut : e.cut T R k = e := by simp only [Talker.cut, htodo]
    rw [hcut]
    exact ⟨sayings, _, h, rfl, .refl S _⟩
  | cons c todo =>
    obtain ⟨sayings', hsaid, hrecv, -⟩ := h.next htodo fun hsp =>
      (hsp.cut R (h.finite hfin htodo) k).imp fun _ => .inr
    simp only [Talker.cut, htodo]
    exact ⟨sayings', _, hsaid, rfl, hrecv⟩

namespace Hostile

variable (S) in
/-- The calls of `x` so far came to `sayings`, and its loop stands in the place of one with `Q` that
reads whole frames. -/
structure Holds (R : Source ρ) (calls : List (TxCall ρ)) (key : S.Key) (Q : Receiver σ → Prop)
    (x : Side) (d : Hostile σ ρ) : Prop where
  said : ∃ sayings, (d.at_ x).Said S (TxCall.MaySay R) calls key sayings
  reads : ∃ r, Reading.Of r (d.reading x) ∧ Q r

variable {R : Source ρ} {calls : List (TxCall ρ)} {key : S.Key} {Q : Receiver σ → Prop}
  {d : Hostile σ ρ} {x : Side}

theorem set_self (e : Talker σ ρ) (f : FrameRead) :
    (d.set x e f).at_ x = e ∧ (d.set x e f).reading x = ⟨e.receiver, f⟩ := by
  simp only [set, reading, Function.update_self, and_self]

theorem Holds.of_ne {y : Side} (h : d.Holds S R calls key Q x) (hy : y ≠ x) (e : Talker σ ρ)
    (f : FrameRead) : (d.set y e f).Holds S R calls key Q x := by
  have hat : (d.set y e f).at_ x = d.at_ x := Function.update_of_ne hy.symm ..
  have hread : (d.set y e f).reading x = d.reading x := by
    simp only [reading, set, Function.update_of_ne hy.symm]
  exact ⟨by rw [hat]; exact h.said, by rw [hread]; exact h.reads⟩

/-- Only the loop of `x` has moved. -/
theorem Holds.set_reading (h : d.Holds S R calls key Q x) {p : Reading σ} {r : Receiver σ}
    (hs : SameSend S (d.at_ x).receiver.cipher p.receiver.cipher) (hp : Reading.Of r p)
    (hQ : Q r) : (d.setReading x p).Holds S R calls key Q x := by
  obtain ⟨sayings, hsaid⟩ := h.said
  obtain ⟨hat, hread⟩ := set_self (d := d) (x := x) { d.at_ x with receiver := p.receiver } p.frame
  exact ⟨⟨sayings, by rw [setReading, hat]; exact hsaid.set_receiver hs⟩, r,
    by rw [setReading, hread]; exact hp, hQ⟩

/-- A call of `x` that leaves the receive direction of the cipher to its loop. -/
theorem Holds.set_talker (hQ : Receiver.Kept S Q) (h : d.Holds S R calls key Q x)
    {e : Talker σ ρ} {s : σ} {sayings : List Saying}
    (hsaid : e.Said S (TxCall.MaySay R) calls key sayings)
    (hrecv : e.receiver = { (d.at_ x).receiver with cipher := s })
    (hsame : SameRecv S (d.at_ x).receiver.cipher s) :
    (d.set x e (d.frame x)).Holds S R calls key Q x := by
  obtain ⟨r, hof, hr⟩ := h.reads
  obtain ⟨hat, hread⟩ := set_self (d := d) (x := x) e (d.frame x)
  have hcipher : (d.at_ x).receiver.cipher = r.cipher := by
    show (d.reading x).receiver.cipher = r.cipher
    rw [hof.same]
  refine ⟨⟨sayings, by rw [hat]; exact hsaid⟩, { r with cipher := s }, ?_, ?_⟩
  · rw [hread, hrecv]
    exact hof.set_cipher s
  · rw [hcipher] at hsame
    exact hQ.same r _ rfl rfl rfl rfl rfl hsame hr

theorem Holds.call (hQ : Receiver.Kept S Q) (hfin : ∀ c ∈ calls, c.Finite R)
    (h : d.Holds S R calls key Q x) : (d.step T R (.call x)).Holds S R calls key Q x := by
  obtain ⟨sayings, hsaid⟩ := h.said
  obtain ⟨sayings', s, hsaid', hrecv, hsame, -⟩ :=
    hsaid.call (T := T) (fun _ _ hs => .inl hs) hfin
  exact h.set_talker hQ hsaid' hrecv hsame

theorem Holds.cut (hQ : Receiver.Kept S Q) (hfin : ∀ c ∈ calls, c.Finite R)
    (h : d.Holds S R calls key Q x) (k : Nat) :
    (d.step T R (.cut x k)).Holds S R calls key Q x := by
  obtain ⟨sayings, hsaid⟩ := h.said
  obtain ⟨sayings', s, hsaid', hrecv, hsame⟩ := hsaid.cut (T := T) hfin k
  exact h.set_talker hQ hsaid' hrecv hsame

theorem Holds.recv (hQ : Receiver.Kept S Q) (h : d.Holds S R calls key Q x) (drain : Bool)
    (n : Nat) : (d.step T R (.recv x drain n)).Holds S R calls key Q x := by
  obtain ⟨r, hof, hr⟩ := h.reads
  have hcipher : (d.at_ x).receiver.cipher = r.cipher := by
    show (d.reading x).receiver.cipher = r.cipher
    rw [hof.same]
  rcases hof.turn (T := T) drain n with hof' | hof'
  · refine h.set_reading ?_ hof' hr
    rw [hcipher, hof'.same]
    exact .refl S _
  · refine h.set_reading ?_ hof' (hQ.loop r drain hr)
    rw [hcipher, hof'.same]
    exact (r.loop_follows drain).sameSend S

/-- The bytes a dropped future had taken are gone: the loop stands in its own place. -/
theorem Holds.cancel (hQ : Receiver.Kept S Q) (h : d.Holds S R calls key Q x) :
    (d.step T R (.cancel x)).Holds S R calls key Q x := by
  obtain ⟨r, hof, hr⟩ := h.reads
  simp only [step]
  split
  · exact h.set_reading (.refl S _) (Reading.of_new _) (hof.kept hQ hr)
  · exact h

theorem Holds.inject (hQ : Receiver.Kept S Q) (h : d.Holds S R calls key Q x) (bytes : Bytes) :
    (d.step T R (.inject x bytes)).Holds S R calls key Q x := by
  obtain ⟨r, hof, hr⟩ := h.reads
  exact h.set_reading (.refl S _) (hof.arrive bytes)
    (hQ.same r _ rfl rfl rfl rfl rfl (.refl S _) hr)

theorem Holds.close (hQ : Receiver.Kept S Q) (h : d.Holds S R calls key Q x) :
    (d.step T R (.close x)).Holds S R calls key Q x := by
  obtain ⟨r, hof, hr⟩ := h.reads
  exact h.set_reading (.refl S _) hof.close (hQ.same r _ rfl rfl rfl rfl rfl (.refl S _) hr)

theorem Holds.step (hQ : Receiver.Kept S Q) (hfin : ∀ c ∈ calls, c.Finite R)
    (h : d.Holds S R calls key Q x) (a : HostileAct) :
    (d.step T R a).Holds S R calls key Q x := by
  cases a with
  | call y =>
    by_cases hy : y = x
    · subst hy
      exact h.call hQ hfin
    · exact h.of_ne hy _ _
  | cut y k =>
    by_cases hy : y = x
    · subst hy
      exact h.cut hQ hfin k
    · exact h.of_ne hy _ _
  | recv y drain n =>
    by_cases hy : y = x
    · subst hy
      exact h.recv hQ drain n
    · exact h.of_ne hy _ _
  | cancel y =>
    by_cases hy : y = x
    · subst hy
      exact h.cancel hQ
    · simp only [Hostile.step]
      split
      · exact h.of_ne hy _ _
      · exact h
  | inject y bytes =>
    by_cases hy : y = x
    · subst hy
      exact h.inject hQ bytes
    · exact h.of_ne hy _ _
  | close y =>
    by_cases hy : y = x
    · subst hy
      exact h.close hQ
    · exact h.of_ne hy _ _

/-- Two parties fresh from the handshake. -/
structure Connected (S : TransportSpec T) (calls : Side → List (TxCall ρ)) (d : Hostile σ ρ) :
    Prop where
  fresh : ∀ x, (d.at_ x).Fresh S (calls x)
  keys : ∀ x, S.recvKey (d.at_ x.other).receiver.cipher = S.sendKey (d.at_ x).receiver.cipher
  frame : ∀ x, d.frame x = .length []

theorem Connected.holds {calls : Side → List (TxCall ρ)} (h : d.Connected S calls)
    (hQ : Q (d.at_ x).receiver) :
    d.Holds S R (calls x) (S.sendKey (d.at_ x).receiver.cipher) Q x := by
  refine ⟨⟨[], (h.fresh x).said⟩, (d.at_ x).receiver, ?_, hQ⟩
  rw [reading, h.frame]
  exact Reading.of_new _

theorem Connected.beset {calls : Side → List (TxCall ρ)} (h : d.Connected S calls) (x : Side)
    (ps : List Packet) :
    Beset S (S.sendKey (d.at_ x).receiver.cipher) ps (d.at_ x.other).receiver := by
  obtain ⟨rx, hr, hrd, -⟩ := (h.fresh x.other).receiver
  refine .clean 0 .idle [] ?_ ?_ (h.keys x)
  · rw [hr]
    exact .free rfl ⟨rfl, rfl⟩
  · have hnew : (d.at_ x.other).receiver.hearing S .idle = .new := by
      rw [Receiver.hearing, (h.fresh x.other).recvNonce, hr]
      simp only [Receiver.new, MessageRx.new, hrd]
      rfl
    rw [hnew]
    exact .nil _

end Hostile

/-- **Any calls on hostile streams.** Whatever two parties call, whatever bytes an adversary lets
arrive, in whatever pieces they are read and wherever a future is dropped, be it a `read_message` or
`next` that is called again or a call that sends: the calls return what they tell, and what the
other party sees before its first failure is the beginning of what was told. -/
theorem calls_withstand (R : Source ρ) {calls : Side → List (TxCall ρ)}
    (hfin : ∀ x, ∀ c ∈ calls x, c.Finite R) {d₀ : Hostile σ ρ} (hd : d₀.Connected S calls)
    (acts : List HostileAct)
    (hS : ∀ x, S.Genuine (S.sendKey (d₀.at_ x).receiver.cipher)
      ((Lts.run (Hostile.step T R) d₀ acts).written x)) (x : Side) :
    let d := Lts.run (Hostile.step T R) d₀ acts
    ∃ made sayings, made ++ (d.at_ x).todo = calls x ∧
      List.Forall₂ (TxCall.MaySay R) made sayings ∧
      (d.at_ x).results = (Lts.run Told.say .start sayings).results ∧
      ∃ first, first <+: (Lts.run Told.say .start sayings).outcomes ∧
        ((d.at_ x.other).receiver.heard = first ∨
          ∃ e later, (d.at_ x.other).receiver.heard = first ++ .failed e :: later) := by
  intro d
  have hrun (y : Side) {Q : Receiver σ → Prop} (hQ : Receiver.Kept S Q)
      (h : Q (d₀.at_ y).receiver) :
      d.Holds S R (calls y) (S.sendKey (d₀.at_ y).receiver.cipher) Q y :=
    Lts.run_inv (fun _ a hx => hx.step hQ (hfin y) a) acts (hd.holds h)
  -- the packets of `x` in the end, and then the loop of the other party with respect to them
  obtain ⟨sayings, hsaid⟩ := (hrun x (Q := fun _ => True)
    ⟨fun _ _ h => h, fun _ _ _ _ _ _ _ _ h => h⟩ trivial).said
  obtain ⟨made, hmade, hsays⟩ := hsaid.made
  obtain ⟨h', hspoken⟩ := hsaid.spoken
  obtain ⟨sent, hw, hsent⟩ := hspoken.written
  have hI := hS x sent hsent.ok hw
  obtain ⟨r, hof, hr⟩ := (hrun x.other (Beset.kept hI hsent.ok) (hd.beset x sent)).reads
  refine ⟨made, sayings, hmade, hsays, hspoken.results, ?_⟩
  have hevents : (d.at_ x.other).receiver.events = r.events := by
    show (d.reading x.other).receiver.events = r.events
    rw [hof.same]
  rw [Receiver.heard, hevents]
  exact hr.seen hsent

/-- A stream has one first frame. -/
theorem frame_append_inj {c c' more more' : Bytes} (hc : c.length ≤ maxCiphertextSize)
    (hc' : c'.length ≤ maxCiphertextSize) (h : frame c ++ more = frame c' ++ more') :
    c = c' ∧ more = more' := by
  have hread : readFrame ⟨frame c ++ more, false⟩ [] = _ := readFrame_whole hc
  rw [h, readFrame_whole hc'] at hread
  simp only [Poll.ready.injEq, Prod.mk.injEq, ReadHalf.mk.injEq, and_true, true_and] at hread
  exact ⟨hread.2.symm, hread.1.symm⟩

/-- Frames tell their packets apart when the cipher does. -/
theorem TransportSpec.frames_inj {key : S.Key}
    (hinj : ∀ n p q, S.encrypt key n p = S.encrypt key n q → p = q) :
    ∀ {ps qs : List Packet} {n : Nat}, (∀ p ∈ ps, PacketOk p) → (∀ q ∈ qs, PacketOk q) →
      S.frames key n ps = S.frames key n qs → ps.map rawPacket = qs.map rawPacket := by
  intro ps
  induction ps with
  | nil =>
    intro qs n _ _ h
    rw [Duplex.frames_eq_nil h.symm]
  | cons p ps ih =>
    intro qs n hp hq h
    cases qs with
    | nil => cases Duplex.frames_eq_nil h
    | cons q qs =>
      have hpok := hp p List.mem_cons_self
      have hqok := hq q List.mem_cons_self
      rw [frames, frames] at h
      obtain ⟨hc, hmore⟩ := frame_append_inj (S.encrypt_fits key n hpok)
        (S.encrypt_fits key n hqok) h
      rw [List.map_cons, List.map_cons, hinj n _ _ hc,
        ih (fun x hx => hp x (List.mem_cons_of_mem _ hx))
          (fun x hx => hq x (List.mem_cons_of_mem _ hx)) hmore]

/-- Two messages and an abort from the left, nothing from the right. -/
def Tagged.twoTxCalls : Side → List (TxCall (List Bytes × Option IoError))
  | .left => [.sendMessage 3 [], .sendMessage 5 [7, 8], .abortMessage]
  | .right => []

/-- The two parties, before their first calls. -/
def Tagged.hostile : Hostile TaggedState (List Bytes × Option IoError) where
  at_ x := match x with
    | .left => ⟨twoTxCalls .left, .fresh, [], .new (.new .fresh) ⟨1, 2, 0, 0⟩⟩
    | .right => ⟨twoTxCalls .right, .fresh, [], .new (.new .fresh) ⟨2, 1, 0, 0⟩⟩
  frame _ := .length []

/-- The second `read_message` is dropped in the middle of its frame. -/
def Tagged.dropped : List HostileAct :=
  [.call .left, .cut .left 0, .call .left,
    .inject .right (frame (encrypt 1 0 (PacketBuilder.header .sole 3))), .recv .right false 9,
    .recv .right false 9, .recv .right false 9, .recv .right false 9, .recv .right false 9,
    .inject .right (frame (encrypt 1 1 (PacketBuilder.header .sole 5 ++ [7, 8]))),
    .recv .right false 2, .recv .right false 3, .cancel .right, .recv .right false 2,
    .inject .right (List.replicate 0x800 0), .recv .right false 0x900]

theorem Tagged.hostile_connected :
    hostile.Connected (ledgerSpec book) twoTxCalls where
  fresh x := by
    cases x <;> exact ⟨rfl, rfl, rfl, rfl, ⟨_, rfl, rfl, rfl⟩, rfl, rfl⟩
  keys x := by cases x <;> rfl
  frame _ := rfl

theorem Tagged.hostile_genuine (x : Side) :
    (ledgerSpec book).Genuine (hostile.at_ x).receiver.cipher.sendKey
      ((Lts.run (Hostile.step (ledger book) Source.pieces) hostile dropped).written x) := by
  intro sent hok hw k c p h
  obtain ⟨hget, hc⟩ := lookup_eq h
  refine ⟨?_, hc⟩
  rw [← hget]
  have hinj (key : UInt8) (n : Nat) (p q : Bytes)
      (h : (ledgerSpec book).encrypt key n p = (ledgerSpec book).encrypt key n q) : p = q :=
    List.append_cancel_right h
  have hwire : ∀ p ∈ wire (messages (twoCalls x)), PacketOk p := by
    have hplan := plan_sendAll (twoCalls x)
    rw [show accepted (twoCalls x) = twoCalls x by cases x <;> rfl] at hplan
    rw [← hplan]
    exact plan_ok (fits_sendAll _) (by simp)
  have hall : (Lts.run (Hostile.step (ledger book) Source.pieces) hostile dropped).written x =
      (ledgerSpec book).frames (hostile.at_ x).receiver.cipher.sendKey 0
        (wire (messages (twoCalls x))) := by
    cases x <;> decide +kernel
  rw [TransportSpec.frames_inj (hinj _) hok hwire (hw.symm.trans hall)]
  cases x <;> rfl

theorem calls_withstand_dropped :
    let d := Lts.run (Hostile.step (Tagged.ledger Tagged.book) Source.pieces) Tagged.hostile
      Tagged.dropped
    (∃ made sayings first, made ++ (d.at_ .left).todo = Tagged.twoTxCalls .left ∧
      List.Forall₂ (TxCall.MaySay Source.pieces) made sayings ∧
      first <+: (Lts.run Told.say .start sayings).outcomes ∧
      ((d.at_ .right).receiver.heard = first ∨
        ∃ e later, (d.at_ .right).receiver.heard = first ++ .failed e :: later)) ∧
    (d.at_ .right).receiver.heard = [.got 3 [], .failed (.noise .decrypt)] := by
  have hfin (x : Side) : ∀ c ∈ Tagged.twoTxCalls x, c.Finite Source.pieces := by
    intro c hc
    cases x with
    | left =>
      simp only [Tagged.twoTxCalls, List.mem_cons, List.not_mem_nil, or_false] at hc
      rcases hc with rfl | rfl | rfl <;> trivial
    | right => cases hc
  obtain ⟨made, sayings, hmade, hsays, -, first, hfirst, hheard⟩ :=
    calls_withstand (S := Tagged.ledgerSpec Tagged.book) Source.pieces hfin
      Tagged.hostile_connected Tagged.dropped Tagged.hostile_genuine .left
  exact ⟨⟨made, sayings, first, hmade, hsays, hfirst, hheard⟩, by decide +kernel⟩

end Snowpack
