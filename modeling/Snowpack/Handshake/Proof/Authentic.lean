import Snowpack.Handshake.Proof.Outcome

/-!
# Whom a session accepts

`Session.Sound` is the invariant of a session in a hostile world: when it has returned `Ok`, a
record that passed `verify_raw` names the node and the role it returned, and the key in that record
is the one Noise reported right after the message with the record was read. A poll keeps it
(`poll_sound`), whatever the stream holds, and so does everything else that can happen in a `World`
(`step_sound`). `handshake_authentic` adds what is assumed of Ed25519 and of the XX handshake.

The undisturbed handshake of two nodes is one of the runs of the world, in which the adversary only
passes on what the nodes write (`World.relays`).
-/

namespace Snowpack

open Wire

variable {η σ : Type} {H : HandshakeOps η σ} {E : Ed25519} {Y : Yatlv} {vk : E.VerifyingKey}

/-- A Noise state that a successful `read_message` left behind. -/
def ReadBy (H : HandshakeOps η σ) (noise : η) : Prop :=
  ∃ before frame out buf n, H.readMessage before frame out = (noise, buf, .ok n)

/-- What stands behind details returned with `noise` as the authenticated state. -/
def Backed (H : HandshakeOps η σ) (E : Ed25519) (Y : Yatlv) (vk : E.VerifyingKey) (noise : η)
    (d : AuthDetails) : Prop :=
  ∃ record header, SignedAuthHeader.verifyRaw E Y vk record = .ok header ∧ d = header.details ∧
    H.getRemoteStatic noise = some header.publicKey.bytes

namespace Session

/-- A session that is not over has nothing to show; one that returned `Ok` has. -/
structure Sound (H : HandshakeOps η σ) (Y : Yatlv) (vk : E.VerifyingKey) (s : Session η σ E) :
    Prop where
  key : s.verificationKey = vk
  backed : ∀ split d, s.stage.result = some (.ok (split, d)) →
    ∃ noise, s.authenticated = some noise ∧ ReadBy H noise ∧ Backed H E Y vk noise d

/-- A stage that is no `Ok` is sound. -/
theorem Sound.of_not_ok {s s' : Session η σ E} (h : s.Sound H Y vk)
    (hkey : s'.verificationKey = s.verificationKey)
    (hst : ∀ a, s'.stage.result ≠ some (.ok a)) : s'.Sound H Y vk :=
  ⟨hkey.trans h.key, fun split d hr => absurd hr (hst (split, d))⟩

theorem finish_ok {hs : HandshakeContext η} {header : AuthHeader}
    {split : HandshakeContext.Split σ} {d : AuthDetails}
    (h : (finish H hs header).result = some (.ok (split, d))) : d = header.details := by
  unfold finish at h
  split at h
  · simp [Stage.result] at h
  · simp only [Stage.result, Option.some.injEq, Except.ok.injEq, Prod.mk.injEq] at h
    exact h.2.symm

/-- The checks passed on a state that a message was just read into. -/
theorem backed_of_check {hs : HandshakeContext η} {payload : Bytes} {header : AuthHeader}
    (h : checkRemote H E Y vk hs payload = .ok header) :
    Backed H E Y vk hs.handshake header.details := by
  obtain ⟨hv, hk⟩ := checkRemote_ok.1 h
  exact ⟨payload, header, hv, rfl, HandshakeContext.remoteStatic_ok hk⟩

/-- The script goes to its end with a header that passed the checks on `hs`. -/
theorem finish_sound {s : Session η σ E} (h : s.Sound H Y vk) {hs hs' : HandshakeContext η}
    (hread : ReadBy H hs.handshake) {payload : Bytes} {header : AuthHeader}
    (hc : checkRemote H E Y s.verificationKey hs payload = .ok header) :
    Sound H Y vk { s with authenticated := some hs.handshake, stage := finish H hs' header } := by
  refine ⟨h.key, fun split d hr => ⟨hs.handshake, rfl, hread, ?_⟩⟩
  rw [finish_ok hr]
  rw [h.key] at hc
  exact backed_of_check hc

theorem onMessage1_sound {s : Session η σ E} (h : s.Sound H Y vk) (hs : HandshakeContext η) :
    (s.onMessage1 H hs).Sound H Y vk := by
  unfold onMessage1
  split
  · exact h.of_not_ok rfl (by simp [Stage.result])
  · exact h.of_not_ok rfl (by simp [Stage.result])

theorem onMessage2_sound {s : Session η σ E} (h : s.Sound H Y vk) {hs : HandshakeContext η}
    (hread : ReadBy H hs.handshake) (payload : Bytes) :
    (s.onMessage2 H Y hs payload).Sound H Y vk := by
  unfold onMessage2
  simp only
  split
  · exact h.of_not_ok rfl (by simp [Stage.result])
  · rename_i header hc
    split
    · exact h.of_not_ok rfl (by simp [Stage.result])
    · -- the state that authenticated the peer is the one before message 3 was written
      exact finish_sound h hread hc

theorem onMessage3_sound {s : Session η σ E} (h : s.Sound H Y vk) {hs : HandshakeContext η}
    (hread : ReadBy H hs.handshake) (payload : Bytes) :
    (s.onMessage3 H Y hs payload).Sound H Y vk := by
  unfold onMessage3
  simp only
  split
  · exact h.of_not_ok rfl (by simp [Stage.result])
  · rename_i header hc
    exact finish_sound h hread hc

/-- A wait keeps what the continuation keeps. -/
theorem resume_sound {s : Session η σ E} (h : s.Sound H Y vk) (hs : HandshakeContext η)
    {next : HandshakeContext η → Bytes → Session η σ E}
    (hnext : ∀ hs' payload, ReadBy H hs'.handshake → (next hs' payload).Sound H Y vk) :
    (s.resume H hs next).Sound H Y vk := by
  unfold resume
  split
  · exact h
  · exact h.of_not_ok rfl (by simp [Stage.result])
  · rename_i payload hs' hr
    obtain ⟨frame, buf, n, hread⟩ := HandshakeContext.recv_ok hr
    exact hnext hs' payload ⟨_, frame, _, buf, n, hread⟩

/-- One poll, whatever bytes the adversary put on the stream. -/
theorem poll_sound {s : Session η σ E} (h : s.Sound H Y vk) : (s.poll H Y).Sound H Y vk := by
  unfold poll
  split
  · exact resume_sound h _ fun hs' _ _ => onMessage1_sound h hs'
  · exact resume_sound h _ fun _ payload hread => onMessage2_sound h hread payload
  · exact resume_sound h _ fun _ payload hread => onMessage3_sound h hread payload
  · exact h

theorem timeout_sound {s : Session η σ E} (h : s.Sound H Y vk) : s.timeout.Sound H Y vk := by
  unfold timeout
  split
  · exact h
  · exact h.of_not_ok rfl (by simp [Stage.result])

theorem onStream_sound {s : Session η σ E} (h : s.Sound H Y vk)
    (f : HandshakeContext η → HandshakeContext η) : (s.onStream f).Sound H Y vk := by
  refine ⟨h.key, fun split d hr => h.backed split d ?_⟩
  rw [← hr]
  unfold onStream Stage.mapContext
  cases s.stage <;> rfl

theorem accept_sound {read : ReadHalf} {write : WriteHalf} {key seed header : Bytes}
    {s : Session η σ E} (h : accept H read write key seed header vk = .ok s) : s.Sound H Y vk := by
  unfold accept at h
  split at h
  · cases h
  · cases h
    exact ⟨rfl, by simp [Stage.result]⟩

theorem connect_sound {read : ReadHalf} {write : WriteHalf} {key seed header : Bytes}
    {s : Session η σ E} (h : connect H read write key seed header vk = .ok s) :
    s.Sound H Y vk := by
  unfold connect at h
  split at h
  · cases h
  · split at h
    · cases h
      exact ⟨rfl, by simp [Stage.result]⟩
    · cases h
      exact ⟨rfl, by simp [Stage.result]⟩

end Session

namespace World

/-- Every session of the world is sound. -/
def Sound (H : HandshakeOps η σ) (Y : Yatlv) (vk : E.VerifyingKey) (w : World η σ E) : Prop :=
  ∀ s ∈ w.sessions, s.Sound H Y vk

theorem open_sound {w : World η σ E} (h : w.Sound H Y vk)
    {made : Except ConnectionError (Session η σ E)} (hm : ∀ s, made = .ok s → s.Sound H Y vk) :
    (w.open_ made).Sound H Y vk := by
  unfold open_
  split
  · exact h
  · rename_i s
    intro s' hs'
    rcases List.mem_append.1 hs' with hs' | hs'
    · exact h s' hs'
    · rw [List.mem_singleton.1 hs']
      exact hm s rfl

theorem modify_sound {w : World η σ E} (h : w.Sound H Y vk) (i : Nat)
    {f : Session η σ E → Session η σ E} (hf : ∀ s, s.Sound H Y vk → (f s).Sound H Y vk) :
    (w.modify i f).Sound H Y vk := by
  intro s' hs'
  obtain ⟨j, hj⟩ := List.mem_iff_getElem?.1 hs'
  simp only [modify, List.getElem?_modify] at hj
  cases hs : w.sessions[j]? with
  | none => simp [hs] at hj
  | some s =>
    have hsound := h s (List.mem_of_getElem? hs)
    simp only [hs, Option.map_eq_map, Option.map_some, Option.some.injEq] at hj
    subst hj
    split
    · exact hf s hsound
    · exact hsound

theorem step_sound {w : World η σ E} (h : w.Sound H Y vk) (a : WorldAct) :
    (w.step H Y vk a).Sound H Y vk := by
  cases a with
  | accept key seed header => exact open_sound h fun _ hs => Session.accept_sound hs
  | connect key seed header => exact open_sound h fun _ hs => Session.connect_sound hs
  | deliver i bytes => exact modify_sound h i fun _ hs => Session.onStream_sound hs _
  | close i => exact modify_sound h i fun _ hs => Session.onStream_sound hs _
  | sever i => exact modify_sound h i fun _ hs => Session.onStream_sound hs _
  | poll i => exact modify_sound h i fun _ hs => Session.poll_sound hs
  | timeout i => exact modify_sound h i fun _ hs => Session.timeout_sound hs

theorem run_sound (acts : List WorldAct) :
    (Lts.run (step H Y vk) (empty : World η σ E) acts).Sound H Y vk :=
  Lts.run_inv (I := Sound H Y vk) (fun _ a h => step_sound h a) acts (by simp [empty, Sound])

end World

/-! ## The adversary that only relays -/

namespace World

variable {i r : Node E}

/-- The place of a side in a world of two calls. -/
def index : Side → Nat
  | .left => 0
  | .right => 1

/-- The world with the two calls of `p`. -/
def ofPair (p : Pair η σ E) : World η σ E := ⟨[p.at_ .left, p.at_ .right]⟩

theorem ofPair_set (p : Pair η σ E) (x : Side) (f : Session η σ E → Session η σ E) :
    ofPair (p.set x (f (p.at_ x))) = (ofPair p).modify (index x) f := by
  cases x <;> rfl

/-- One step of the pair is at most one move in the world. -/
theorem relays_step (vk : E.VerifyingKey) (p : Pair η σ E) (a : PairAct) :
    ∃ acts, Lts.run (step H Y vk) (ofPair p) acts = ofPair (p.step H Y a) := by
  cases a with
  | poll x => exact ⟨[.poll (index x)], (ofPair_set p x _).symm⟩
  | deliver x n =>
    exact ⟨[.deliver (index x.other) ((p.inFlight x).take n)], (ofPair_set p x.other _).symm⟩
  | hangUp x =>
    simp only [Pair.step]
    split
    · exact ⟨[.close (index x.other)], (ofPair_set p x.other _).symm⟩
    · exact ⟨[], rfl⟩

theorem relays_run (vk : E.VerifyingKey) : ∀ (as : List PairAct) (p : Pair η σ E),
    ∃ acts, Lts.run (step H Y vk) (ofPair p) acts = ofPair (Lts.run (Pair.step H Y) p as)
  | [], p => ⟨[], rfl⟩
  | a :: as, p => by
    obtain ⟨as1, h1⟩ := relays_step (H := H) (Y := Y) vk p a
    obtain ⟨as2, h2⟩ := relays_run vk as (p.step H Y a)
    refine ⟨as1 ++ as2, ?_⟩
    rw [Lts.run_append, h1, h2]
    rfl

/-- Every run of a handshake between two nodes of the cluster is one of the world's. -/
theorem relays (hi : i.verificationKey = vk) (hr : r.verificationKey = vk) {p₀ : Pair η σ E}
    (h : Pair.start H i r = .ok p₀) (as : List PairAct) :
    ∃ acts, Lts.run (step H Y vk) .empty acts = ofPair (Lts.run (Pair.step H Y) p₀ as) := by
  obtain ⟨acts, hrun⟩ := relays_run (H := H) (Y := Y) vk as p₀
  refine ⟨[.connect i.localPrivate i.seed i.localAuthHeader,
    .accept r.localPrivate r.seed r.localAuthHeader] ++ acts, ?_⟩
  rw [Lts.run_append, ← hrun]
  congr 1
  subst hi
  unfold Pair.start at h
  rw [hr] at h
  split at h
  · rename_i s t hs ht
    cases h
    simp only [Lts.run_cons, Lts.run_nil, step, hs, ht, open_, empty]
    rfl
  · cases h
  · cases h

/-- Two nodes that pass each other's checks: a run in which the responder has accepted. -/
theorem exists_accepted {T : TransportOps σ} {S : TransportSpec T} (X : XXSpec H S)
    (hi : i.verificationKey = vk) (hr : r.verificationKey = vk) {d d' : AuthDetails}
    (hd : ConnectOk X Y i r d) (hd' : AcceptOk X Y i r d') :
    ∃ acts, ∃ s ∈ (Lts.run (step H Y vk) .empty acts).sessions, ∃ split,
      s.stage.result = some (.ok (split, d')) := by
  obtain ⟨p₀, hstart, hc, n, x, hp⟩ := Pair.start_on X Y i r
  obtain ⟨as, x', hend⟩ := Pair.Phase.exists_returned n hc hp
  obtain ⟨acts, hrun⟩ := relays (Y := Y) hi hr hstart as
  refine ⟨acts, _, by rw [hrun]; exact List.mem_cons_of_mem _ (List.mem_singleton.2 rfl), ?_⟩
  cases hend with
  | nobody x hL hR no => exact absurd hd (no d)
  | rejected x hL hR yes no => exact absurd hd' (no d')
  | met x hL hR yes yes' paired => exact ⟨_, by rw [hR, hd'.det yes']; rfl⟩

end World

/-! ## What is assumed outside the repository -/

/-- `verify_strict` with the cluster's key accepts only payloads that were signed with it. -/
def Ed25519.Unforgeable (E : Ed25519) (vk : E.VerifyingKey) (signed : Bytes → Prop) : Prop :=
  ∀ payload signature, E.verifyStrict vk payload signature = true → signed payload

/-- The XX handshake authenticates the static key it reports: once a message has been read, the
party that runs the other end holds the private key. -/
def HandshakeOps.Authenticates (H : HandshakeOps η σ) {Party : Type} (runs : η → Party → Prop)
    (holds : Party → Bytes → Prop) : Prop :=
  ∀ noise key p, ReadBy H noise → H.getRemoteStatic noise = some key → runs noise p → holds p key

/-- A header signed with the cluster's key: a signed payload parses to it. -/
def SignedHeader (Y : Yatlv) (signed : Bytes → Prop) (header : AuthHeader) : Prop :=
  ∃ payload, signed payload ∧ AuthHeader.fromYatlv Y payload = .ok header

/-- Every header signed for `node` carries a key that only `owner` holds. -/
def KeysOnlyAt (Y : Yatlv) (signed : Bytes → Prop) {Party : Type} (holds : Party → Bytes → Prop)
    (node : NodeId) (owner : Party) : Prop :=
  ∀ header, SignedHeader Y signed header → header.nodeId = node →
    ∀ p, holds p header.publicKey.bytes → p = owner

theorem Backed.signed {signed : Bytes → Prop} (hE : E.Unforgeable vk signed) {noise : η}
    {d : AuthDetails} (h : Backed H E Y vk noise d) :
    ∃ header, SignedHeader Y signed header ∧ d = header.details ∧
      H.getRemoteStatic noise = some header.publicKey.bytes := by
  obtain ⟨record, header, hv, hd, hk⟩ := h
  obtain ⟨payload, hp, hy⟩ := verifyRaw_ok hv
  obtain ⟨sig, signature, -, -, -, hver⟩ := verifyPayload_ok hp
  exact ⟨header, ⟨payload, hE payload signature hver, hy⟩, hd, hk⟩

/-- **Authentication.** In every run of any number of sessions, with every byte of every stream
chosen by the adversary: details returned by `accept` or `connect` are those of a signed header
whose key is the one Noise authenticated in that very session. So where the signed headers of a
node carry keys that only its owner holds, the other end of a session accepted as that node is run
by the owner. -/
theorem handshake_authentic (H : HandshakeOps η σ) (E : Ed25519) (Y : Yatlv)
    (vk : E.VerifyingKey) (signed : Bytes → Prop) (hE : E.Unforgeable vk signed) {Party : Type}
    (runs : η → Party → Prop) (holds : Party → Bytes → Prop) (hXX : H.Authenticates runs holds)
    (acts : List WorldAct) (s : Session η σ E)
    (hs : s ∈ (Lts.run (World.step H Y vk) .empty acts).sessions)
    (split : HandshakeContext.Split σ) (d : AuthDetails)
    (hok : s.stage.result = some (.ok (split, d))) :
    ∃ header noise, SignedHeader Y signed header ∧ d.nodeId = header.nodeId ∧
      d.role = header.role ∧ s.authenticated = some noise ∧
      H.getRemoteStatic noise = some header.publicKey.bytes ∧
      ∀ owner, KeysOnlyAt Y signed holds d.nodeId owner → ∀ p, runs noise p → p = owner := by
  obtain ⟨noise, hauth, hread, hback⟩ := (World.run_sound acts s hs).backed split d hok
  obtain ⟨header, hsigned, rfl, hkey⟩ := hback.signed hE
  refine ⟨header, noise, hsigned, rfl, rfl, hauth, hkey, fun owner honly p hp => ?_⟩
  -- the party at the other end holds the authenticated key, and only the owner does
  have hholds := hXX noise _ p hread hkey hp
  exact honly header hsigned rfl p hholds

/-! ## The concrete handshake

Its keys are their own public keys, so a party is the key it has. -/

namespace Plain

/-- The party at the other end of a session. -/
def Runs (noise : PlainState) (p : TransportPublicKey) : Prop := noise.remote = some p.bytes

/-- The party has this key. -/
def Holds (p : TransportPublicKey) (key : Bytes) : Prop := p.bytes = key

theorem unforgeable : ed25519.Unforgeable () Signed := fun _ _ hv => of_decide_eq_true hv

theorem authenticates : ops.Authenticates Runs Holds := by
  intro noise key p _ hkey hp
  have he : noise.remote = some key := hkey
  rw [Runs, he] at hp
  exact (Option.some.inj hp).symm

/-- Who has the key in the headers of node 1 is the initiator. -/
theorem keysOnlyAt_initiator : KeysOnlyAt yatlv Signed Holds ⟨[1]⟩ (pub initiatorKey) := by
  rintro header ⟨payload, rfl | rfl, hparse⟩ hnode p hp
  · cases hparse
    obtain ⟨bytes, length_eq⟩ := p
    cases hp
    rfl
  · cases hparse
    cases hnode

end Plain

/-- A run of the concrete handshake in which the initiator is accepted as the node it is, and nobody
else can be at the other end. -/
theorem handshake_authentic_plain :
    ∃ acts, ∃ s ∈ (Lts.run (World.step (E := Plain.ed25519) Plain.ops Plain.yatlv ()) .empty
        acts).sessions,
      ∃ split, s.stage.result = some (.ok (split, ⟨⟨[1]⟩, none⟩)) ∧
      ∃ header noise, SignedHeader Plain.yatlv Plain.Signed header ∧ ⟨[1]⟩ = header.nodeId ∧
        none = header.role ∧ s.authenticated = some noise ∧
        noise.remote = some header.publicKey.bytes ∧
        ∀ p, Plain.Runs noise p → p = Plain.pub Plain.initiatorKey := by
  have hd : ConnectOk Plain.spec Plain.yatlv Plain.initiator Plain.responder ⟨⟨[2]⟩, none⟩ :=
    ⟨by decide, ⟨⟨⟨[2]⟩, none, Plain.pub Plain.responderKey⟩, rfl, rfl, rfl⟩, by decide⟩
  have hd' : AcceptOk Plain.spec Plain.yatlv Plain.initiator Plain.responder ⟨⟨[1]⟩, none⟩ :=
    ⟨⟨⟨[1]⟩, none, Plain.pub Plain.initiatorKey⟩, rfl, rfl, rfl⟩
  obtain ⟨acts, s, hs, split, hok⟩ := World.exists_accepted (i := Plain.initiator)
    (r := Plain.responder) Plain.spec rfl rfl hd hd'
  obtain ⟨header, noise, hsigned, hid, hrole, hauth, hkey, honly⟩ :=
    handshake_authentic Plain.ops Plain.ed25519 Plain.yatlv () Plain.Signed Plain.unforgeable
      Plain.Runs Plain.Holds Plain.authenticates acts s hs split _ hok
  exact ⟨acts, s, hs, split, hok, header, noise, hsigned, hid, hrole, hauth, hkey,
    honly _ Plain.keysOnlyAt_initiator⟩

end Snowpack
