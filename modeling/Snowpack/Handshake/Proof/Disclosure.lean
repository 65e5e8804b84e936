import Mathlib.Data.List.Forall2
import Snowpack.Handshake.Proof.Authentic

/-!
# To whom an initiator shows its header

`connect` writes its header into message 3, after it has checked the responder. So its header
cannot be found out by somebody who does not pass the checks, whatever they send: two runs of the
world in which calls of `connect` are given different headers, and all else is the same, go the same
way for every session that has not met a member of the cluster. This includes the lengths of what is
written, and when and with which error a call returns.

`Twins` relates a session of one run to that of the other: they are equal, or they are calls of
`connect` which are at the same stage, or both have passed their checks and returned. Each move
keeps it (`step_twins`), and two schedules that differ in headers thus do (`Lts.run_related`).
-/

namespace Snowpack

open Wire

variable {η σ : Type} {H : HandshakeOps η σ} {E : Ed25519} {Y : Yatlv} {vk : E.VerifyingKey}

/-- The same move, but for the header a call of `connect` is given. -/
inductive WorldAct.Alike : WorldAct → WorldAct → Prop
  | connect (localPrivate seed header header' : Bytes) :
      Alike (.connect localPrivate seed header) (.connect localPrivate seed header')
  | same (a : WorldAct) : Alike a a

namespace Session

/-- The session is over, and the other side passed the checks. -/
def Trusted (H : HandshakeOps η σ) (Y : Yatlv) (vk : E.VerifyingKey) (s : Session η σ E) : Prop :=
  (∃ hs r, s.stage = .returned hs r) ∧
    ∃ noise d, s.authenticated = some noise ∧ ReadBy H noise ∧ Backed H E Y vk noise d

/-- A call of `connect`, in two runs, that has not gone on to message 3 in either. -/
structure Blind (vk : E.VerifyingKey) (s s' : Session η σ E) : Prop where
  stage : s.stage = s'.stage
  key : s.verificationKey = vk
  key' : s'.verificationKey = vk
  initiator : (∃ hs, s.stage = .message2 hs) ∨ ∃ hs r, s.stage = .returned hs r

/-- A session in two runs: the same, not yet past message 2, or over with a peer that passed. -/
inductive Twins (H : HandshakeOps η σ) (Y : Yatlv) (vk : E.VerifyingKey) (s s' : Session η σ E) :
    Prop
  | same (h : s = s')
  | blind (h : Blind vk s s')
  | trusted (h : s.Trusted H Y vk) (h' : s'.Trusted H Y vk)

/-! ## Moves of a session -/

theorem onStream_returned {s : Session η σ E} {hs : HandshakeContext η} {r : Res (Accepted σ)}
    (h : s.stage = .returned hs r) (f : HandshakeContext η → HandshakeContext η) :
    s.onStream f = s := by
  obtain ⟨header, key, stage, auth⟩ := s
  cases h
  rfl

theorem poll_returned {s : Session η σ E} {hs : HandshakeContext η} {r : Res (Accepted σ)}
    (h : s.stage = .returned hs r) : s.poll H Y = s := by
  simp only [poll, h]

theorem timeout_returned {s : Session η σ E} {hs : HandshakeContext η} {r : Res (Accepted σ)}
    (h : s.stage = .returned hs r) : s.timeout = s := by
  simp only [timeout, h]

theorem finish_returned (H : HandshakeOps η σ) (hs : HandshakeContext η) (header : AuthHeader) :
    ∃ hs' r, finish H hs header = .returned hs' r := by
  unfold finish
  split
  · exact ⟨_, _, rfl⟩
  · exact ⟨_, _, rfl⟩

/-- Message 2 was read and its checks passed: whatever becomes of message 3, the call returns. -/
theorem onMessage2_trusted {s : Session η σ E} (hkey : s.verificationKey = vk)
    {hs : HandshakeContext η} (hread : ReadBy H hs.handshake) {payload : Bytes}
    {header : AuthHeader} (hc : checkRemote H E Y vk hs payload = .ok header) :
    (s.onMessage2 H Y hs payload).Trusted H Y vk := by
  have hback := backed_of_check hc
  simp only [onMessage2, hkey, hc]
  split
  · exact ⟨⟨_, _, rfl⟩, hs.handshake, _, rfl, hread, hback⟩
  · exact ⟨finish_returned H _ header, hs.handshake, _, rfl, hread, hback⟩

/-- Message 2 was read by two calls with different headers. -/
theorem Blind.onMessage2 {s s' : Session η σ E} (h : Blind vk s s') {hs : HandshakeContext η}
    (hread : ReadBy H hs.handshake) (payload : Bytes) :
    Twins H Y vk (s.onMessage2 H Y hs payload) (s'.onMessage2 H Y hs payload) := by
  cases hc : checkRemote H E Y vk hs payload with
  | error e =>
    refine .blind ⟨?_, ?_, ?_, .inr ⟨hs, .error (.error e), ?_⟩⟩ <;>
      simp only [Session.onMessage2, h.key, h.key', hc]
  | ok header =>
    exact .trusted (onMessage2_trusted h.key hread hc) (onMessage2_trusted h.key' hread hc)

theorem Blind.poll {s s' : Session η σ E} (h : Blind vk s s') :
    Twins H Y vk (s.poll H Y) (s'.poll H Y) := by
  rcases h.initiator with ⟨hs, hst⟩ | ⟨hs, r, hst⟩
  · have hst' := h.stage ▸ hst
    simp only [Session.poll, hst, hst', resume]
    cases hr : hs.recv H with
    | pending => exact .blind h
    | ready res =>
      obtain ⟨payload | f, hs'⟩ := res
      · exact .blind ⟨rfl, h.key, h.key', .inr ⟨_, _, rfl⟩⟩
      · obtain ⟨frame, buf, n, hread⟩ := HandshakeContext.recv_ok hr
        exact h.onMessage2 ⟨_, frame, _, buf, n, hread⟩ _
  · rw [poll_returned hst, poll_returned (h.stage ▸ hst)]
    exact .blind h

theorem Blind.timeout {s s' : Session η σ E} (h : Blind vk s s') :
    Blind vk s.timeout s'.timeout := by
  rcases h.initiator with ⟨hs, hst⟩ | ⟨hs, r, hst⟩
  · have hst' := h.stage ▸ hst
    simp only [Session.timeout, hst, hst']
    exact ⟨rfl, h.key, h.key', .inr ⟨_, _, rfl⟩⟩
  · rw [timeout_returned hst, timeout_returned (h.stage ▸ hst)]
    exact h

theorem Blind.onStream {s s' : Session η σ E} (h : Blind vk s s')
    (f : HandshakeContext η → HandshakeContext η) : Blind vk (s.onStream f) (s'.onStream f) := by
  rcases h.initiator with ⟨hs, hst⟩ | ⟨hs, r, hst⟩
  · have hst' := h.stage ▸ hst
    refine ⟨?_, h.key, h.key', .inl ⟨f hs, ?_⟩⟩
    · simp only [Session.onStream, hst, hst']
    · simp only [Session.onStream, hst, Stage.mapContext]
  · rw [onStream_returned hst, onStream_returned (h.stage ▸ hst)]
    exact h

/-- A change that keeps sessions which have returned as they are. -/
theorem Twins.map {s s' : Session η σ E} (h : Twins H Y vk s s') {f : Session η σ E → Session η σ E}
    (hblind : Blind vk s s' → Twins H Y vk (f s) (f s'))
    (hret : ∀ (t : Session η σ E) hs r, t.stage = .returned hs r → f t = t) :
    Twins H Y vk (f s) (f s') := by
  cases h with
  | same h => exact .same (congrArg f h)
  | blind h => exact hblind h
  | trusted h h' =>
    obtain ⟨hs, r, hst⟩ := h.1
    obtain ⟨hs', r', hst'⟩ := h'.1
    rw [hret s hs r hst, hret s' hs' r' hst']
    exact .trusted h h'

/-- Up to the wait for message 2, `connect` has not looked at its header. -/
theorem connect_blind (H : HandshakeOps η σ) (vk : E.VerifyingKey) (read : ReadHalf)
    (write : WriteHalf) (key seed header header' : Bytes) :
    (∃ e, connect H read write key seed header vk = .error e ∧
      connect H read write key seed header' vk = .error e) ∨
    ∃ s s' : Session η σ E, connect H read write key seed header vk = .ok s ∧
      connect H read write key seed header' vk = .ok s' ∧ Blind vk s s' := by
  unfold connect
  cases HandshakeContext.newInitiator H read write key seed with
  | error e => exact .inl ⟨e, rfl, rfl⟩
  | ok hs =>
    right
    cases hsend : hs.send H [] with
    | mk res hs' =>
      cases res with
      | error f =>
        refine ⟨⟨header, vk, .returned hs' (.error f), none⟩,
          ⟨header', vk, .returned hs' (.error f), none⟩, ?_, ?_,
          ⟨rfl, rfl, rfl, .inr ⟨_, _, rfl⟩⟩⟩
        · simp only [hsend]
        · simp only [hsend]
      | ok u =>
        refine ⟨⟨header, vk, .message2 hs', none⟩, ⟨header', vk, .message2 hs', none⟩, ?_, ?_,
          ⟨rfl, rfl, rfl, .inl ⟨_, rfl⟩⟩⟩
        · simp only [hsend]
        · simp only [hsend]

end Session

/-! ## Moves of the world -/

namespace World

/-- The sessions of two worlds, one by one. -/
def Twins (H : HandshakeOps η σ) (Y : Yatlv) (vk : E.VerifyingKey) (w w' : World η σ E) : Prop :=
  List.Forall₂ (Session.Twins H Y vk) w.sessions w'.sessions

theorem modify_twins {w w' : World η σ E} (h : Twins H Y vk w w') (i : Nat)
    {f : Session η σ E → Session η σ E}
    (hf : ∀ s s', Session.Twins H Y vk s s' → Session.Twins H Y vk (f s) (f s')) :
    Twins H Y vk (w.modify i f) (w'.modify i f) := by
  unfold Twins modify at *
  generalize w.sessions = ss at h
  generalize w'.sessions = ss' at h
  induction h generalizing i with
  | nil => simp
  | cons hs hrest ih =>
    cases i with
    | zero => simpa using ⟨hf _ _ hs, hrest⟩
    | succ i => simpa using ⟨hs, ih i⟩

theorem open_twins {w w' : World η σ E} (h : Twins H Y vk w w') {s s' : Session η σ E}
    (hs : Session.Twins H Y vk s s') : Twins H Y vk (w.open_ (.ok s)) (w'.open_ (.ok s')) :=
  List.rel_append h (.cons hs .nil)

theorem open_same {w w' : World η σ E} (h : Twins H Y vk w w')
    (made : Except ConnectionError (Session η σ E)) :
    Twins H Y vk (w.open_ made) (w'.open_ made) := by
  cases made with
  | error e => exact h
  | ok s => exact open_twins h (.same rfl)

theorem step_twins {w w' : World η σ E} {a a' : WorldAct} (h : Twins H Y vk w w')
    (ha : a.Alike a') : Twins H Y vk (w.step H Y vk a) (w'.step H Y vk a') := by
  cases ha with
  | connect key seed header header' =>
    simp only [step]
    rcases Session.connect_blind H vk ⟨[], false⟩ ⟨[], false⟩ key seed header header' with
      ⟨e, hm, hm'⟩ | ⟨s, s', hm, hm', hb⟩
    · rw [hm, hm']
      exact h
    · rw [hm, hm']
      exact open_twins h (.blind hb)
  | same a =>
    have hstream : ∀ i f, Twins H Y vk (w.modify i fun s => s.onStream f)
        (w'.modify i fun s => s.onStream f) := fun i f =>
      modify_twins h i fun s s' hs => hs.map (fun hb => .blind (hb.onStream f))
        fun _ _ _ ht => Session.onStream_returned ht f
    cases a with
    | accept key seed header => exact open_same h _
    | connect key seed header => exact open_same h _
    | deliver i bytes => exact hstream i _
    | close i => exact hstream i _
    | sever i => exact hstream i _
    | poll i =>
      exact modify_twins h i fun s s' hs => hs.map (fun hb => hb.poll)
        fun _ _ _ ht => Session.poll_returned ht
    | timeout i =>
      exact modify_twins h i fun s s' hs => hs.map (fun hb => .blind hb.timeout)
        fun _ _ _ ht => Session.timeout_returned ht

end World

/-! ## Who gets to see a header -/

section
variable (H) (Y) (signed : Bytes → Prop) {Party : Type} (runs : η → Party → Prop)
  (holds : Party → Bytes → Prop)

/-- The other end of the session is run by a party that holds the key of a signed header. -/
def Session.MetMember (s : Session η σ E) : Prop :=
  ∃ header noise, SignedHeader Y signed header ∧ s.authenticated = some noise ∧
    H.getRemoteStatic noise = some header.publicKey.bytes ∧
    ∀ p, runs noise p → holds p header.publicKey.bytes

/-- A session in two runs: it is at the same stage, with the same stream, or it has met a member of
the cluster in both. -/
def Session.Hides (s s' : Session η σ E) : Prop :=
  s.stage = s'.stage ∨ s.MetMember H Y signed runs holds ∧ s'.MetMember H Y signed runs holds

end

section
variable {signed : Bytes → Prop} {Party : Type} {runs : η → Party → Prop}
  {holds : Party → Bytes → Prop}

theorem Session.Trusted.metMember {s : Session η σ E} (h : s.Trusted H Y vk)
    (hE : E.Unforgeable vk signed) (hXX : H.Authenticates runs holds) :
    s.MetMember H Y signed runs holds := by
  obtain ⟨-, noise, d, hauth, hread, hback⟩ := h
  obtain ⟨header, hsigned, -, hkey⟩ := hback.signed hE
  exact ⟨header, noise, hsigned, hauth, hkey, fun p hp => hXX noise _ p hread hkey hp⟩

theorem Session.Twins.hides {s s' : Session η σ E} (h : Twins H Y vk s s')
    (hE : E.Unforgeable vk signed) (hXX : H.Authenticates runs holds) :
    s.Hides H Y signed runs holds s' := by
  cases h with
  | same h => exact .inl (congrArg stage h)
  | blind h => exact .inl h.stage
  | trusted h h' => exact .inr ⟨h.metMember hE hXX, h'.metMember hE hXX⟩

end

/-- **An initiator shows its header to members only.** Take any run of any number of sessions with
every byte of every stream chosen by the adversary, and change the headers that the calls of
`connect` are given. Every session goes the same way to the last byte it writes and the result it
returns, unless in both runs it has met a party with the key of a header that the cluster has
signed. -/
theorem initiator_header_hidden (H : HandshakeOps η σ) (E : Ed25519) (Y : Yatlv)
    (vk : E.VerifyingKey) (signed : Bytes → Prop) (hE : E.Unforgeable vk signed) {Party : Type}
    (runs : η → Party → Prop) (holds : Party → Bytes → Prop) (hXX : H.Authenticates runs holds)
    (acts acts' : List WorldAct) (h : List.Forall₂ WorldAct.Alike acts acts') :
    List.Forall₂ (Session.Hides H Y signed runs holds)
      (Lts.run (World.step H Y vk) (.empty : World η σ E) acts).sessions
      (Lts.run (World.step H Y vk) (.empty : World η σ E) acts').sessions := by
  have hstep : ∀ (w w' : World η σ E) a a', World.Twins H Y vk w w' → WorldAct.Alike a a' →
      World.Twins H Y vk (w.step H Y vk a) (w'.step H Y vk a') :=
    fun _ _ _ _ hw ha => World.step_twins hw ha
  have htwins := Lts.run_related (R := World.Twins H Y vk) hstep h
    (show World.Twins H Y vk .empty .empty from .nil)
  exact htwins.imp fun _ _ hs => hs.hides hE hXX

namespace Plain

/-- A call of `connect` is answered by somebody whose header nobody signed. -/
def impostor (header : Bytes) : List WorldAct :=
  [.connect initiatorKey [] header,
    .deliver 0 (frame (layout 1 strangerKey stranger.localAuthHeader)), .poll 0]

end Plain

/-- Headers of different lengths make no difference to an impostor. -/
theorem initiator_header_hidden_impostor :
    List.Forall₂ WorldAct.Alike (Plain.impostor [1]) (Plain.impostor [2, 3]) ∧
    List.Forall₂ (Session.Hides Plain.ops Plain.yatlv Plain.Signed Plain.Runs Plain.Holds)
      (Lts.run (World.step (E := Plain.ed25519) Plain.ops Plain.yatlv ()) .empty
        (Plain.impostor [1])).sessions
      (Lts.run (World.step (E := Plain.ed25519) Plain.ops Plain.yatlv ()) .empty
        (Plain.impostor [2, 3])).sessions := by
  have halike : List.Forall₂ WorldAct.Alike (Plain.impostor [1]) (Plain.impostor [2, 3]) :=
    .cons (.connect ..) (.cons (.same _) (.cons (.same _) .nil))
  exact ⟨halike, initiator_header_hidden Plain.ops Plain.ed25519 Plain.yatlv () Plain.Signed
    Plain.unforgeable Plain.Runs Plain.Holds Plain.authenticates _ _ halike⟩

end Snowpack
