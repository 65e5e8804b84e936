import Snowpack.Pool.Channel
import Snowpack.Pool.Proof.Routing

/-!
# A link is a channel for one exchange at a time

The owner of the mutex shows the exchange it has (`Party.exchange`); together with the state behind
the mutex that is the channel of the link. `step_explains` says of each step of a party what the
channel makes of it, and the rule for shared locks (`Lock.act_refines`) does the rest: whatever the
tasks, calls and guards of a link do, in any order, its events are a run of the channel. A pool is a
family of such channels, which do not disturb each other.

What the specification says of its runs it then says of the pool: what holds of the connections that
are installed, and of every pair at its commit, holds of every pair that is handed out
(`Channel.Kept`).
-/

namespace Snowpack

variable {τ : Type}

/-! ## One step of a party -/

namespace Party

theorem exchange_of_not_holds (p : Party τ) (h : p.holds = false) : p.exchange = none := by
  unfold exchange
  split
  · cases h
  · cases h
  · rfl

theorem exchange_notified (p : Party τ) : p.notified.exchange = p.exchange := by
  unfold notified
  split <;> rfl

/-- What the channel makes of a step. -/
abbrev Explains (i : Nat) (s : LinkState τ) (p : Party τ) (m : LinkMove τ)
    (events : List (ChannelEvent τ)) : Prop :=
  Lock.Explains Channel.Step LinkState.channel holds exchange i s p m events

/-- A step without an event, of a party that has no exchange. -/
theorem Explains.quiet {i : Nat} {s : LinkState τ} {p p' : Party τ} {c : Lock.Claim}
    (h : p'.exchange = p.exchange) :
    Explains i s p { party := p', resource := s, claim := c } [] := by
  refine ⟨?_, fun _ => rfl, fun _ => rfl⟩
  rw [h]
  exact .nil _

variable {target : NodeId} {s : LinkState τ} {free : Bool} {i : Nat} {a : PartyAct τ}
  {m : LinkMove τ}

theorem task_explains {pc : TaskPc τ} (h : pc.step target s free a = some m)
    (hpos : (Party.task pc).owes = true → 0 < s.short) :
    Explains i s (.task pc) m ((Party.task pc).event i s a) := by
  cases TaskPc.step_moves h with
  | connected | failed | slept | locked | left => exact .quiet rfl
  | published t =>
    refine ⟨?_, nofun, fun _ => rfl⟩
    cases s with
    | connected t => exact absurd (hpos rfl) (Nat.lt_irrefl 0)
    | reconnecting => exact .one (.install t)
  | notified => exact ⟨.nil _, nofun, exchange_notified⟩

theorem acquire_explains {pc : AcquirePc} (h : pc.step s free a = some m)
    (hv : (Party.acquire pc).View s)
    (hpos : (Party.acquire pc : Party τ).owes = true → 0 < s.short) :
    Explains i s (.acquire pc) m ((Party.acquire pc).event i s a) := by
  cases AcquirePc.step_moves h with
  | locked | cancelled | gaveBack => exact .quiet rfl
  | handedOut hs =>
    subst hs
    exact ⟨.one (.begin_ i _), nofun, fun _ => rfl⟩
  | notReady hs =>
    subst hs
    exact ⟨.one (.notReady i), nofun, fun _ => rfl⟩
  | used t hs =>
    subst hs
    exact ⟨.one (.use i _ t), nofun, fun _ => rfl⟩
  | panicked t hs =>
    subst hs
    cases hv
  | committed =>
    cases s with
    | connected t => exact ⟨.one (.commit i t), nofun, fun _ => rfl⟩
    | reconnecting => cases hv
  | reset =>
    cases s with
    | connected t => exact ⟨.one (.reset i t), nofun, fun _ => rfl⟩
    | reconnecting => cases hv
  | dropped => exact .quiet rfl
  | spawned =>
    -- the guard that was reset owes a connection, so there is none
    cases s with
    | connected t => exact absurd (hpos rfl) (Nat.lt_irrefl 0)
    | reconnecting => exact ⟨.nil _, nofun, fun _ => rfl⟩
  | released =>
    cases s with
    | connected t => exact ⟨.one (.release i t), nofun, fun _ => rfl⟩
    | reconnecting => exact ⟨.nil _, nofun, fun _ => rfl⟩

theorem wait_explains {pc : WaitPc} (h : pc.step s free a = some m) :
    Explains i s (.wait pc) m ((Party.wait pc).event i s a) := by
  cases WaitPc.step_moves h with
  | locked | cancelled | gaveBack | woken | expired | abandoned => exact .quiet rfl
  | connected signalled hs =>
    subst hs
    exact ⟨.one (.ready i _), nofun, fun _ => rfl⟩
  | parked signalled hs =>
    subst hs
    exact .quiet rfl

theorem step_explains {p : Party τ} (h : Party.step target s free p a = some m) (hv : p.View s)
    (hpos : p.owes = true → 0 < s.short) : Explains i s p m (p.event i s a) := by
  cases p with
  | task pc => exact task_explains h hpos
  | acquire pc => exact acquire_explains h hv hpos
  | wait pc => exact wait_explains h

/-- A party that does not move shows nothing. -/
theorem event_of_none {p : Party τ} (h : Party.step target s free p a = none) :
    p.event i s a = [] := by
  unfold event
  split
  · cases h
  · cases s <;> cases h
  · cases s <;> cases h
  · cases h
  · cases h
  · cases h
  · cases s <;> cases h
  · rfl

end Party

/-! ## Links -/

namespace Link

variable {l : Link τ}

/-- A party that owes a connection shows that the link is short of one. -/
theorem Tended.short_pos (h : l.Tended) {p : Party τ} (hp : p ∈ l.parties) (ho : p.owes = true) :
    0 < l.resource.short := by
  rw [← h.debt]
  exact List.countP_pos_iff.2 ⟨p, hp, ho⟩

theorem Tended.channel_party (h : l.Tended) (target : NodeId) (i : Nat) (a : PartyAct τ) :
    Lts.Steps Channel.Step l.channel (l.events (.party i a))
      (channel (l.step target (.party i a))) :=
  Lock.act_refines (Party.disciplined target) Party.exchange_of_not_holds h.owned
    (fun p _ hp hm => Party.step_explains hm (h.view p hp) (h.short_pos hp))
    fun _ hm => Party.event_of_none hm

/-- A new call shows nothing. -/
theorem channel_join (h : l.Tended) (p : Party τ) :
    channel (Lock.Shared.join l p) = l.channel := by
  unfold channel
  congr 1
  cases ho : l.owner with
  | none => rw [Lock.Shared.shown_free ho, Lock.Shared.shown_free (s := l.join p) ho]
  | some i =>
    have hi := h.owned.valid ho
    have hq := List.getElem?_eq_getElem hi
    have hq' : (l.join p).parties[i]? = some (l.parties[i]) := by
      rw [Lock.Shared.join, List.getElem?_append_left hi, hq]
    rw [Lock.Shared.shown_owner ho hq, Lock.Shared.shown_owner (s := l.join p) ho hq']

theorem Tended.channel_step (h : l.Tended) (target : NodeId) (a : LinkAct τ) :
    Lts.Steps Channel.Step l.channel (l.events a) (channel (l.step target a)) := by
  cases a with
  | party i a => exact h.channel_party target i a
  | acquire =>
    show Lts.Steps _ _ [] (channel (l.join _))
    rw [channel_join h]
    exact .nil _
  | waitConnected =>
    show Lts.Steps _ _ [] (channel (l.join _))
    rw [channel_join h]
    exact .nil _

end Link

/-! ## Pools -/

namespace ConnectionPool

variable {p : ConnectionPool τ}

theorem channel_some {n : Nat} {l : PeerLink τ} (hl : p.links[n]? = some l) :
    p.channel n = l.link.channel := by
  simp only [channel, hl]

/-- A step of link `m`, seen from link `n`. -/
theorem Keyed.channel_onLink (h : p.Keyed) (n m : Nat) (a : PeerLink τ → LinkAct (Transport τ)) :
    Lts.Steps Channel.Step (p.channel n) (p.linkEvents n m a) ((p.onLink m a).channel n) := by
  unfold ConnectionPool.onLink linkEvents
  cases hm : p.links[m]? with
  | none => exact .nil _
  | some l =>
    by_cases hmn : m = n
    · subst hmn
      have hset : (p.links.set m (l.step (a l)))[m]? = some (l.step (a l)) :=
        List.getElem?_set_self (List.getElem?_eq_some_iff.1 hm).1
      simp only [if_pos]
      rw [channel_some hm, channel_some hset]
      exact (h.links l (List.mem_of_getElem? hm)).tended.channel_step l.target (a l)
    · -- another link: neither its events nor its state are those of link `n`
      have hset : (p.links.set m (l.step (a l)))[n]? = p.links[n]? := List.getElem?_set_ne hmn
      simp only [if_neg hmn, channel, hset]
      exact .nil _

theorem Keyed.channel_through (h : p.Keyed) (n c : Nat) {a : LinkAct (Transport τ)}
    (ha : ∀ l : Link (Transport τ), l.events a = []) :
    (p.through c a).channel n = p.channel n := by
  unfold ConnectionPool.through
  split
  · rfl
  · rename_i conn _
    have hsteps := h.channel_onLink n conn.link fun _ => a
    have hnil : p.linkEvents n conn.link (fun _ => a) = [] := by
      unfold linkEvents
      split
      · rfl
      · split
        · exact ha _
        · rfl
    rw [hnil] at hsteps
    exact hsteps.eq_of_nil

/-- A link is made, and is down. -/
theorem channel_peer (p : ConnectionPool τ) (n : Nat) (target : NodeId) :
    (p.step (.peer target)).channel n = p.channel n := by
  simp only [step, peer]
  split
  · rfl
  · simp only [channel]
    rcases Nat.lt_trichotomy n p.links.length with hlt | rfl | hgt
    · rw [List.getElem?_append_left hlt]
    · simp [PeerLink.new, Link.channel, Link.new, LinkState.channel]
    · rw [List.getElem?_eq_none (by simp; omega), List.getElem?_eq_none (by omega)]

theorem Keyed.channel_step (h : p.Keyed) (n : Nat) (a : PoolAct τ) :
    Lts.Steps Channel.Step (p.channel n) (p.events n a) ((p.step a).channel n) := by
  cases a with
  | peer target =>
    rw [channel_peer]
    exact .nil _
  | acquire c =>
    have hsame : (p.step (.acquire c)).channel n = p.channel n := h.channel_through n c fun _ => rfl
    rw [hsame]
    exact .nil _
  | waitConnected c =>
    have hsame : (p.step (.waitConnected c)).channel n = p.channel n :=
      h.channel_through n c fun _ => rfl
    rw [hsame]
    exact .nil _
  | party m i a => exact h.channel_onLink n m fun l => .party i (a.transports l.link.resource)

theorem run_keyed (acts : List (PoolAct τ)) : (Lts.run step (new : ConnectionPool τ) acts).Keyed :=
  Lts.run_inv (I := Keyed) (fun _ a hp => hp.step a) acts new_keyed

theorem run_channel (acts : List (PoolAct τ)) (n : Nat) :
    Lts.Steps Channel.Step .down (Lts.trace step (events n) (new : ConnectionPool τ) acts)
      ((Lts.run step new acts).channel n) :=
  Lts.run_steps (I := Keyed) (f := channel n) (fun _ a hp => hp.step a)
    (fun _ a hp => hp.channel_step n a) acts new_keyed

/-- **Every connection of a pool is a channel.** Whatever calls are made for whatever targets, and
however the tasks, calls and guards of all links are interleaved: what happens on the link behind a
connection for `T` is a run of the channel of that link, from the beginning to its present state. -/
theorem connections_are_channels (acts : List (PoolAct τ)) (T : NodeId) (conn : Connection)
    (hconn : (T, conn) ∈ (Lts.run step (new : ConnectionPool τ) acts).returned) :
    ∃ l, (Lts.run step (new : ConnectionPool τ) acts).links[conn.link]? = some l ∧ l.target = T ∧
      Lts.Steps Channel.Step .down (Lts.trace step (events conn.link) (new : ConnectionPool τ) acts)
        l.link.channel := by
  have hkeyed := run_keyed acts
  obtain ⟨l, hl, hT⟩ := hkeyed.peers T conn.link (hkeyed.returned T conn hconn)
  refine ⟨l, hl, hT, ?_⟩
  rw [← channel_some hl]
  exact run_channel acts conn.link

/-- A connection, an exchange that uses it twice and commits, one that is reset in the middle of its
use, a connection again and one more exchange. -/
def someExchanges : List (PoolAct Nat) :=
  let install (i h : Nat) : List (PoolAct Nat) :=
    [.party 0 i (.attempt (.ok (h, ⟨⟨[2]⟩, none⟩))), .party 0 i .lock, .party 0 i .run,
      .party 0 i .run, .party 0 i .run]
  let begin_ (i : Nat) : List (PoolAct Nat) := [.acquire 0, .party 0 i .lock, .party 0 i .run]
  [.peer ⟨[2]⟩] ++ install 0 7 ++ begin_ 1 ++
    [.party 0 1 (.transport 99), .party 0 1 (.transport 8), .party 0 1 .commit, .party 0 1 .drop,
      .party 0 1 .run] ++ begin_ 2 ++
    [.party 0 2 (.transport 99), .party 0 2 .drop, .party 0 2 .run, .party 0 2 .run] ++
    install 3 6 ++ begin_ 4

theorem connections_are_channels_some :
    ∃ l, (Lts.run step new someExchanges).links[0]? = some l ∧ l.target = ⟨[2]⟩ ∧
      Lts.Steps Channel.Step .down (Lts.trace step (events 0) new someExchanges) l.link.channel :=
  connections_are_channels someExchanges ⟨[2]⟩ ⟨0⟩ (by decide)

end ConnectionPool

/-! ## What an exchange may rely on -/

/-- A property of the pairs that nobody uses, or that were committed. -/
def Channel.Kept (φ : τ → Prop) : Channel τ → Prop
  | .idle t | .busy _ t true => φ t
  | _ => True

/-- What is relied on of the connections that are installed and of those who commit. -/
def ChannelEvent.Relied (φ : τ → Prop) : ChannelEvent τ → Prop
  | .install t | .commit _ t => φ t
  | _ => True

/-- What is guaranteed of the connections that are handed out. -/
def ChannelEvent.Guaranteed (φ : τ → Prop) : ChannelEvent τ → Prop
  | .begin_ _ t => φ t
  | _ => True

theorem Channel.Step.kept {φ : τ → Prop} {c c' : Channel τ} {e : ChannelEvent τ} (h : Step c e c')
    (hc : c.Kept φ) (he : e.Relied φ) : c'.Kept φ ∧ e.Guaranteed φ := by
  cases h with
  | install t => exact ⟨he, trivial⟩
  | begin_ i t => exact ⟨trivial, hc⟩
  | notReady i | use i t t' | reset i t => exact ⟨trivial, trivial⟩
  | ready i t => exact ⟨hc, trivial⟩
  | commit i t => exact ⟨he, trivial⟩
  | release i t => exact ⟨hc, trivial⟩

namespace ConnectionPool

/-- **An exchange begins with a pair that is as it should be.** Take any property of the pairs, such
as "no message is under way". If the connections have it when they are installed, and each exchange
that is committed has restored it by then, every guard that `acquire` returns has a pair with it. An
exchange that fails or is cancelled may break it at any point: if it does not commit, the others do
not see the pair. -/
theorem exchanges_begin_well (φ : Transport τ → Prop) (acts : List (PoolAct τ)) (n : Nat)
    (hrely : ∀ e ∈ Lts.trace step (events n) (new : ConnectionPool τ) acts, e.Relied φ) :
    ∀ i t, .begin_ i t ∈ Lts.trace step (events n) (new : ConnectionPool τ) acts → φ t := by
  intro i t hbegin
  have hall := (run_channel acts n).guarantees (I := Channel.Kept φ)
    (fun hstep hc he => hstep.kept hc he) trivial hrely
  exact hall _ hbegin

theorem trace_someExchanges : Lts.trace step (events 0) new someExchanges =
    [.install ⟨7, some ⟨⟨[2]⟩, none⟩⟩, .begin_ 1 ⟨7, some ⟨⟨[2]⟩, none⟩⟩,
      .use 1 ⟨7, some ⟨⟨[2]⟩, none⟩⟩ ⟨99, some ⟨⟨[2]⟩, none⟩⟩,
      .use 1 ⟨99, some ⟨⟨[2]⟩, none⟩⟩ ⟨8, some ⟨⟨[2]⟩, none⟩⟩,
      .commit 1 ⟨8, some ⟨⟨[2]⟩, none⟩⟩, .release 1, .begin_ 2 ⟨8, some ⟨⟨[2]⟩, none⟩⟩,
      .use 2 ⟨8, some ⟨⟨[2]⟩, none⟩⟩ ⟨99, some ⟨⟨[2]⟩, none⟩⟩, .reset 2,
      .install ⟨6, some ⟨⟨[2]⟩, none⟩⟩, .begin_ 4 ⟨6, some ⟨⟨[2]⟩, none⟩⟩] := by
  decide

theorem someExchanges_relied : ∀ e ∈ Lts.trace step (events 0) new someExchanges,
    e.Relied fun t => t.halves < 10 := by
  rw [trace_someExchanges]
  simp [ChannelEvent.Relied]

/-- The first exchange finds 7 and leaves 8; 99 is never seen again. -/
theorem exchanges_begin_well_some :
    (∀ e ∈ Lts.trace step (events 0) new someExchanges, e.Relied fun t => t.halves < 10) ∧
    ∀ i t, .begin_ i t ∈ Lts.trace step (events 0) new someExchanges → t.halves < 10 :=
  ⟨someExchanges_relied,
    exchanges_begin_well (fun t => t.halves < 10) someExchanges 0 someExchanges_relied⟩

end ConnectionPool

end Snowpack
