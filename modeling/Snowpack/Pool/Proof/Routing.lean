import Snowpack.Pool.Connections
import Snowpack.Pool.Proof.OneTask

/-!
# A pooled connection talks to the peer it was asked for

`step_carries` is the path of a transport through a link: it enters with an attempt that passed
`check_node_id`, waits in a reconnect task for the mutex and is installed. So whatever holds of the
transports that pass the check holds of every transport in the link (`PeerLink.Authentic`). The map
of the pool gives each target one link with that target (`ConnectionPool.Keyed`).

The details a transport carries are a note of the model: without them a link of the pool runs as a
link runs (`PeerLink.forget_step`).
-/

namespace Snowpack

variable {τ : Type}

/-! ## The transports of a link -/

/-- The connection in the state has the property. -/
def LinkState.Carries (φ : τ → Prop) : LinkState τ → Prop
  | .connected t => φ t
  | .reconnecting => True

/-- So has the one a task is about to install. -/
def Party.Carries (φ : τ → Prop) : Party τ → Prop
  | .task (.locking t) | .task (.publishing t) => φ t
  | _ => True

/-- What comes into a link with an event: a transport whose handshake named the target, or the one
in the state after its use. -/
def PartyAct.Carries (target : NodeId) (φ : τ → Prop) (s : LinkState τ) : PartyAct τ → Prop
  | .attempt (.ok (t, d)) => d.nodeId = target → φ t
  | .transport t => s.isConnected = true → φ t
  | _ => True

/-- What a step leaves in the link. -/
structure Party.MoveCarries (φ : τ → Prop) (m : LinkMove τ) : Prop where
  resource : m.resource.Carries φ
  party : m.party.Carries φ
  spawned : ∀ q ∈ m.spawned, q.Carries φ
  tell : ∀ q : Party τ, q.Carries φ → (m.tell q).Carries φ

theorem tryConnect_ok {target : NodeId} {r : Except ConnectionError (τ × AuthDetails)} {t : τ}
    (h : tryConnect target r = .ok t) : ∃ d, r = .ok (t, d) ∧ d.nodeId = target := by
  unfold tryConnect at h
  split at h
  · cases h
  · rename_i t' d
    unfold AuthDetails.checkNodeId at h
    split at h
    · cases h
    · rename_i heq
      split at heq
      · rename_i hid
        cases h
        exact ⟨d, rfl, hid⟩
      · cases heq

namespace Party

variable {φ : τ → Prop} {s : LinkState τ}

theorem Carries.notified {p : Party τ} (h : p.Carries φ) : p.notified.Carries φ := by
  unfold Party.notified
  split
  · trivial
  · trivial
  · trivial
  · exact h

/-- A step that moves the party and nothing else. -/
theorem MoveCarries.plain {p : Party τ} {c : Lock.Claim} (hs : s.Carries φ) (hp : p.Carries φ) :
    MoveCarries φ { party := p, resource := s, claim := c } :=
  ⟨hs, hp, by simp, fun _ hq => hq⟩

theorem task_carries {target : NodeId} {free : Bool} {pc : TaskPc τ} {a : PartyAct τ}
    {m : LinkMove τ} (h : pc.step target s free a = some m) (hs : s.Carries φ)
    (hp : (Party.task pc).Carries φ) (ha : a.Carries target φ s) : MoveCarries φ m := by
  cases TaskPc.step_moves h with
  | connected backoff hr =>
    -- the only way in: an attempt that passes the check
    obtain ⟨d, rfl, hid⟩ := tryConnect_ok hr
    exact .plain hs (ha hid)
  | failed | slept | left => exact .plain hs trivial
  | locked t => exact .plain hs hp
  | published t => exact ⟨hp, trivial, by simp, fun _ hq => hq⟩
  | notified => exact ⟨hs, trivial, by simp, fun _ hq => hq.notified⟩

theorem acquire_carries {target : NodeId} {free : Bool} {pc : AcquirePc} {a : PartyAct τ}
    {m : LinkMove τ} (h : pc.step s free a = some m) (hs : s.Carries φ)
    (ha : a.Carries target φ s) : MoveCarries φ m := by
  cases AcquirePc.step_moves h with
  | used t hc =>
    subst hc
    exact ⟨ha rfl, trivial, by simp, fun _ hq => hq⟩
  | reset => exact ⟨trivial, trivial, by simp, fun _ hq => hq⟩
  | spawned => exact ⟨hs, trivial, by simp [reconnectTask, Party.Carries], fun _ hq => hq⟩
  | locked | cancelled | gaveBack | handedOut | notReady | panicked | committed | dropped
  | released => exact .plain hs trivial

theorem wait_carries {free : Bool} {pc : WaitPc} {a : PartyAct τ} {m : LinkMove τ}
    (h : pc.step s free a = some m) (hs : s.Carries φ) : MoveCarries φ m := by
  cases WaitPc.step_moves h with
  | locked | cancelled | gaveBack | connected | parked | woken | expired | abandoned =>
    exact .plain hs trivial

theorem step_carries {target : NodeId} {free : Bool} {p : Party τ} {a : PartyAct τ}
    {m : LinkMove τ} (h : Party.step target s free p a = some m) (hs : s.Carries φ)
    (hp : p.Carries φ) (ha : a.Carries target φ s) : MoveCarries φ m := by
  cases p with
  | task pc => exact task_carries h hs hp ha
  | acquire pc => exact acquire_carries h hs ha
  | wait pc => exact wait_carries h hs

end Party

/-! ## The details are a note -/

/-- The state without the details. -/
def LinkState.forget : LinkState (Transport τ) → LinkState τ
  | .connected t => .connected t.halves
  | .reconnecting => .reconnecting

/-- A task without the details of its connection. -/
def TaskPc.forget : TaskPc (Transport τ) → TaskPc τ
  | .connecting b => .connecting b
  | .sleeping b => .sleeping b
  | .locking t => .locking t.halves
  | .publishing t => .publishing t.halves
  | .notifying => .notifying
  | .leaving => .leaving
  | .exited => .exited

/-- A party without them. -/
def Party.forget : Party (Transport τ) → Party τ
  | .task pc => .task pc.forget
  | .acquire pc => .acquire pc
  | .wait pc => .wait pc

/-- The move without the details. -/
abbrev Forgets : LinkMove (Transport τ) → LinkMove τ → Prop :=
  Lock.Move.Maps Party.forget LinkState.forget

theorem Forgets.plain {s : LinkState (Transport τ)} {p : Party (Transport τ)} {c : Lock.Claim} :
    Forgets { party := p, resource := s, claim := c }
      { party := p.forget, resource := s.forget, claim := c } :=
  ⟨rfl, rfl, rfl, rfl, fun _ => rfl⟩

theorem forget_notified (p : Party (Transport τ)) : p.forget.notified = p.notified.forget := by
  cases p with
  | wait pc => cases pc <;> rfl
  | _ => rfl

namespace Party

variable (target : NodeId) (s : LinkState (Transport τ)) (free : Bool)

theorem task_forget (pc : TaskPc (Transport τ)) (a : PartyAct τ) :
    Option.Rel Forgets (pc.step target s free (a.transports s))
      (pc.forget.step target s.forget free a) := by
  cases pc with
  | connecting backoff =>
    cases a with
    | attempt r =>
      cases r with
      | error e => exact .some .plain
      | ok x =>
        obtain ⟨halves, d⟩ := x
        simp only [PartyAct.transports, TaskPc.step, TaskPc.forget, tryConnect, Except.map]
        cases d.checkNodeId target with
        | error e => exact .some .plain
        | ok u => exact .some .plain
    | _ => exact .none
  | sleeping backoff =>
    cases a with
    | timer => exact .some .plain
    | _ => exact .none
  | locking t =>
    cases a with
    | lock =>
      cases free with
      | true => exact .some .plain
      | false => exact .none
    | _ => exact .none
  | publishing t =>
    cases a with
    | run => exact .some ⟨rfl, rfl, rfl, rfl, fun _ => rfl⟩
    | _ => exact .none
  | notifying =>
    cases a with
    | run => exact .some ⟨rfl, rfl, rfl, rfl, forget_notified⟩
    | _ => exact .none
  | leaving =>
    cases a with
    | run => exact .some .plain
    | _ => exact .none
  | exited => cases a <;> exact .none

theorem acquire_forget (pc : AcquirePc) (a : PartyAct τ) :
    Option.Rel Forgets (pc.step s free (a.transports s)) (pc.step s.forget free a) := by
  cases pc with
  | locking =>
    cases a with
    | lock =>
      cases free with
      | true => exact .some .plain
      | false => exact .none
    | cancel => exact .some .plain
    | _ => exact .none
  | matching =>
    cases a with
    | cancel => exact .some .plain
    | run => cases s <;> exact .some .plain
    | _ => exact .none
  | guard committed =>
    cases committed with
    | false =>
      cases a with
      | transport halves =>
        -- the halves in the state are replaced, and the details stay
        cases s with
        | connected t => exact .some ⟨rfl, rfl, rfl, rfl, fun _ => rfl⟩
        | reconnecting => exact .some .plain
      | commit => exact .some .plain
      | drop => exact .some ⟨rfl, rfl, rfl, rfl, fun _ => rfl⟩
      | _ => exact .none
    | true =>
      cases a with
      | drop => exact .some .plain
      | _ => exact .none
  | spawning =>
    cases a with
    | run => exact .some ⟨rfl, rfl, rfl, rfl, fun _ => rfl⟩
    | _ => exact .none
  | releasing =>
    cases a with
    | run => exact .some .plain
    | _ => exact .none
  | _ => cases a <;> exact .none

theorem wait_forget (pc : WaitPc) (a : PartyAct τ) :
    Option.Rel Forgets (pc.step s free (a.transports s)) (pc.step s.forget free a) := by
  cases pc with
  | locking signalled =>
    cases a with
    | lock =>
      cases free with
      | true => exact .some .plain
      | false => exact .none
    | cancel => exact .some .plain
    | _ => exact .none
  | checking signalled =>
    cases a with
    | cancel => exact .some .plain
    | run => cases s <;> exact .some .plain
    | _ => exact .none
  | parked signalled =>
    cases signalled with
    | true =>
      cases a with
      | run => exact .some .plain
      | cancel => exact .some .plain
      | _ => exact .none
    | false =>
      cases a with
      | timer => exact .some .plain
      | cancel => exact .some .plain
      | _ => exact .none
  | _ => cases a <;> exact .none

theorem step_forget (p : Party (Transport τ)) (a : PartyAct τ) :
    Option.Rel Forgets (Party.step target s free p (a.transports s))
      (Party.step target s.forget free p.forget a) := by
  cases p with
  | task pc => exact task_forget target s free pc a
  | acquire pc => exact acquire_forget s free pc a
  | wait pc => exact wait_forget s free pc a

end Party

/-- The link without the details. -/
def PeerLink.forget (l : PeerLink τ) : Link τ :=
  Lock.Shared.map Party.forget LinkState.forget l.link

/-- The parties of a link of the pool do what the parties of a link do. -/
theorem PeerLink.forget_step (l : PeerLink τ) (i : Nat) (a : PartyAct τ) :
    (l.step (.party i (a.transports l.link.resource))).forget =
      l.forget.step l.target (.party i a) :=
  Lock.Shared.map_act fun p => Party.step_forget l.target l.link.resource _ p a

/-! ## A link of the pool -/

/-- The handshake of the transport returned this identity. -/
def Transport.Of (target : NodeId) (t : Transport τ) : Prop :=
  ∃ d, t.peer = some d ∧ d.nodeId = target

/-- Events of a pool bring a transport in with the details of its own handshake. -/
theorem transports_carries (target : NodeId) {s : LinkState (Transport τ)}
    (hs : s.Carries (Transport.Of target)) (a : PartyAct τ) :
    (a.transports s).Carries target (Transport.Of target) s := by
  cases a with
  | attempt r =>
    cases r with
    | error e => trivial
    | ok x =>
      intro hid
      exact ⟨x.2, rfl, hid⟩
  | transport halves =>
    intro hc
    cases s with
    | connected t => exact hs
    | reconnecting => cases hc
  | _ => trivial

namespace PeerLink

/-- All connections in a link are to its target. -/
structure Authentic (l : PeerLink τ) : Prop where
  tended : l.link.Tended
  resource : l.link.resource.Carries (Transport.Of l.target)
  parties : ∀ p ∈ l.link.parties, p.Carries (Transport.Of l.target)

theorem new_authentic (target : NodeId) : (new target : PeerLink τ).Authentic where
  tended := Link.new_tended
  resource := trivial
  parties p hp := by
    rw [List.mem_singleton.1 hp]
    trivial

namespace Authentic

variable {l : PeerLink τ}

theorem join (h : l.Authentic) {a : LinkAct (Transport τ)} {p : Party (Transport τ)}
    (ha : l.link.step l.target a = Lock.Shared.join l.link p)
    (hp : p.Carries (Transport.Of l.target)) : (l.step a).Authentic := by
  refine ⟨Link.step_tended l.target h.tended a, ?_, ?_⟩
  · simp only [step, ha]
    exact h.resource
  · simp only [step, ha]
    intro q hq
    rcases List.mem_append.1 hq with hq | hq
    · exact h.parties q hq
    · rw [List.mem_singleton.1 hq]
      exact hp

theorem party (h : l.Authentic) (i : Nat) (a : PartyAct τ) :
    (l.step (.party i (a.transports l.link.resource))).Authentic := by
  have hcar := transports_carries l.target h.resource a
  obtain ⟨hr, hp⟩ :
      (l.link.act (Party.step l.target) i (a.transports l.link.resource)).resource.Carries
          (Transport.Of l.target) ∧
        ∀ p ∈ (l.link.act (Party.step l.target) i (a.transports l.link.resource)).parties,
          p.Carries (Transport.Of l.target) :=
    Lock.act_forall (Q := LinkState.Carries (Transport.Of l.target))
      (B := Party.Carries (Transport.Of l.target))
      (fun hmem hm =>
        have hc := Party.step_carries hm h.resource (h.parties _ hmem) hcar
        ⟨hc.resource, hc.party, hc.spawned, hc.tell⟩) h.resource h.parties
  exact ⟨Link.step_tended l.target h.tended (.party i (a.transports l.link.resource)), hr, hp⟩

/-- A guard has a transport of the target. -/
theorem guard (h : l.Authentic) {i : Nat} {b : Bool}
    (hg : l.link.parties[i]? = some (.acquire (.guard b))) :
    ∃ t, l.link.resource = .connected t ∧ t.Of l.target := by
  have hview := h.tended.view _ (List.mem_of_getElem? hg)
  have hcar := h.resource
  cases hs : l.link.resource with
  | connected t =>
    rw [hs] at hcar
    exact ⟨t, rfl, hcar⟩
  | reconnecting =>
    rw [hs] at hview
    cases hview

end Authentic

end PeerLink

/-! ## The pool -/

namespace ConnectionPool

/-- The table, the links and the results of `peer` go together. -/
structure Keyed (p : ConnectionPool τ) : Prop where
  links : ∀ l ∈ p.links, l.Authentic
  /-- a link is filed under its target -/
  peers : ∀ T n, p.peers.lookup T = some n → ∃ l, p.links[n]? = some l ∧ l.target = T
  returned : ∀ T conn, (T, conn) ∈ p.returned → p.peers.lookup T = some conn.link
  asked : ∀ T, (p.peers.lookup T).isSome = true → T ∈ p.returned.map Prod.fst
  made : ∀ T, p.made.count T = (p.peers.lookup T).isSome.toNat

theorem lookup_entry (peers : List (NodeId × Nat)) (target : NodeId) (n : Nat) (T : NodeId) :
    ((target, n) :: peers).lookup T = if T = target then some n else peers.lookup T := by
  rw [List.lookup_cons]
  by_cases hT : T = target
  · simp [hT]
  · rw [beq_eq_false_iff_ne.2 hT, if_neg hT]

theorem new_keyed : (new : ConnectionPool τ).Keyed where
  links l hl := by cases hl
  peers T n hn := by cases hn
  returned T conn hr := by cases hr
  asked T hT := by cases hT
  made T := rfl

namespace Keyed

variable {p : ConnectionPool τ}

/-- An entry that exists. -/
theorem peer_known (h : p.Keyed) {target : NodeId} {n : Nat} (hl : p.peers.lookup target = some n) :
    Keyed { p with returned := p.returned ++ [(target, ⟨n⟩)] } := by
  refine ⟨h.links, h.peers, ?_, ?_, h.made⟩
  · intro T conn hr
    rcases List.mem_append.1 hr with hr | hr
    · exact h.returned T conn hr
    · cases List.mem_singleton.1 hr
      exact hl
  · intro T hT
    rw [List.map_append]
    exact List.mem_append_left _ (h.asked T hT)

/-- An entry that is made. -/
theorem peer_made (h : p.Keyed) {target : NodeId} (hl : p.peers.lookup target = none) :
    Keyed
      { peers := (target, p.links.length) :: p.peers
        links := p.links ++ [.new target]
        made := p.made ++ [target]
        returned := p.returned ++ [(target, ⟨p.links.length⟩)] } := by
  refine ⟨?_, ?_, ?_, ?_, ?_⟩
  · intro l hl'
    rcases List.mem_append.1 hl' with hl' | hl'
    · exact h.links l hl'
    · rw [List.mem_singleton.1 hl']
      exact PeerLink.new_authentic target
  · intro T n hn
    rw [lookup_entry] at hn
    split at hn
    · rename_i hT
      cases hn
      exact ⟨.new target, by simp, hT.symm⟩
    · obtain ⟨l, hl', hT⟩ := h.peers T n hn
      refine ⟨l, ?_, hT⟩
      rw [List.getElem?_append_left (List.getElem?_eq_some_iff.1 hl').1, hl']
  · intro T conn hr
    rw [lookup_entry]
    rcases List.mem_append.1 hr with hr | hr
    · have hold := h.returned T conn hr
      have hne : T ≠ target := by
        rintro rfl
        rw [hl] at hold
        cases hold
      rw [if_neg hne, hold]
    · cases List.mem_singleton.1 hr
      rw [if_pos rfl]
  · intro T hT
    simp only [lookup_entry] at hT
    simp only [List.map_append, List.mem_append]
    split at hT
    · rename_i hT'
      right
      simp [hT']
    · left
      exact h.asked T hT
  · intro T
    simp only [lookup_entry, List.count_append, h.made T]
    by_cases hT : T = target
    · subst hT
      simp [hl]
    · have hne : List.count T [target] = 0 := by
        simp [Ne.symm hT]
      simp [hT, hne]

theorem peer (h : p.Keyed) (target : NodeId) : (p.step (.peer target)).Keyed := by
  cases hl : p.peers.lookup target with
  | some n =>
    simp only [step, ConnectionPool.peer, hl]
    exact h.peer_known hl
  | none =>
    simp only [step, ConnectionPool.peer, hl]
    exact h.peer_made hl

/-- A step of one link. -/
theorem onLink (h : p.Keyed) (n : Nat) {a : PeerLink τ → LinkAct (Transport τ)}
    (ha : ∀ l : PeerLink τ, l.Authentic → (l.step (a l)).Authentic) : (p.onLink n a).Keyed := by
  unfold ConnectionPool.onLink
  split
  · exact h
  · rename_i l hl
    refine ⟨?_, ?_, h.returned, h.asked, h.made⟩
    · intro l' hl'
      rcases List.mem_or_eq_of_mem_set hl' with hl' | rfl
      · exact h.links l' hl'
      · exact ha l (h.links l (List.mem_of_getElem? hl))
    · intro T k hk
      obtain ⟨l', hl', hT⟩ := h.peers T k hk
      by_cases hnk : n = k
      · subst hnk
        rw [hl] at hl'
        cases hl'
        refine ⟨l.step (a l), ?_, hT⟩
        exact List.getElem?_set_self (List.getElem?_eq_some_iff.1 hl).1
      · exact ⟨l', by rw [List.getElem?_set_ne hnk, hl'], hT⟩

theorem through (h : p.Keyed) (c : Nat) {a : LinkAct (Transport τ)}
    (ha : ∀ l : PeerLink τ, l.Authentic → (l.step a).Authentic) : (p.through c a).Keyed := by
  unfold ConnectionPool.through
  split
  · exact h
  · exact h.onLink _ ha

theorem step (h : p.Keyed) (a : PoolAct τ) : (p.step a).Keyed := by
  cases a with
  | peer target => exact h.peer target
  | acquire c => exact h.through c fun l hl => hl.join rfl trivial
  | waitConnected c => exact h.through c fun l hl => hl.join rfl trivial
  | party n i a => exact h.onLink n fun l hl => hl.party i a

end Keyed

/-! ## What `peer` was called with -/

/-- Two calls for one target share a link; an attempt that reaches another node is not installed. -/
example :
    let p := Lts.run step (new : ConnectionPool Nat)
      [.peer ⟨[2]⟩, .peer ⟨[3]⟩, .peer ⟨[2]⟩, .party 0 0 (.attempt (.ok (7, ⟨⟨[3]⟩, none⟩))),
        .party 1 0 (.attempt (.ok (8, ⟨⟨[3]⟩, none⟩)))]
    p.returned = [(⟨[2]⟩, ⟨0⟩), (⟨[3]⟩, ⟨1⟩), (⟨[2]⟩, ⟨0⟩)] ∧ p.made = [⟨[2]⟩, ⟨[3]⟩] ∧
      p.links.map (fun l => l.link.parties) =
        [[.task (.sleeping 50)], [.task (.locking ⟨8, some ⟨⟨[3]⟩, none⟩⟩)]] := by
  decide

end ConnectionPool

end Snowpack
