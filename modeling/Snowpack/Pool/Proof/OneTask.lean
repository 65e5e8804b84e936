import Snowpack.Lib.Run
import Snowpack.Pool.Proof.Steps

/-!
# One reconnect task exactly when disconnected

A link that is `Reconnecting` is short of one connection, and exactly one party owes it: the
reconnect task that has not published yet, or the dropped `Guard` that has not spawned one
(`Party.owes`). `step_ok` is what a single step of any party does to the lock, to the debt and to
what the party can rely on; the rules for programs that share a lock carry it over to all
interleavings. With the mutex free no party is in the middle of anything, and those that owe are
the reconnect tasks that are alive.
-/

namespace Snowpack

variable {τ : Type}

/-! ## What a party has, owes and relies on -/

/-- There is a connection. -/
def LinkState.isConnected : LinkState τ → Bool
  | .connected _ => true
  | .reconnecting => false

/-- The connections the link is short of. -/
def LinkState.short : LinkState τ → Nat
  | .connected _ => 0
  | .reconnecting => 1

namespace Party

/-- The party has the mutex. -/
def holds : Party τ → Bool
  | .task (.publishing _) | .task .notifying | .task .leaving => true
  | .acquire .matching | .acquire (.guard _) | .acquire .spawning => true
  | .acquire .releasing | .acquire .panicked => true
  | .wait (.checking _) => true
  | _ => false

/-- A connection will come from this party, or from a task it is about to spawn. -/
def owes : Party τ → Bool
  | .task (.connecting _) | .task (.sleeping _) | .task (.locking _) | .task (.publishing _) => true
  | .acquire .spawning => true
  | _ => false

/-- A reconnect task that has not returned. -/
def aliveTask : Party τ → Bool
  | .task .exited => false
  | .task _ => true
  | _ => false

/-- A task that has published its connection and still has the mutex. -/
def published : Party τ → Bool
  | .task .notifying | .task .leaving => true
  | _ => false

/-- A `Guard` that has not been dropped. -/
def liveGuard : Party τ → Bool
  | .acquire (.guard _) => true
  | _ => false

/-- What the party relies on. -/
def View : Party τ → LinkState τ → Prop
  | .task .notifying, s | .task .leaving, s | .acquire (.guard _), s => s.isConnected = true
  | .acquire .panicked, _ => False
  | _, _ => True

/-- What a step does. -/
structure StepOk (s : LinkState τ) (free : Bool) (p : Party τ) (m : LinkMove τ) : Prop where
  fits : m.claim.Fits holds free p m.party
  alone : p.holds = true ∨ m.resource = s
  spawned : ∀ q ∈ m.spawned, q.holds = false
  tell : m.tell = id ∨ m.tell = notified
  view : p.View s → m.party.View m.resource
  /-- a debt is paid with a connection, passed on to a spawned task, or made by a reset -/
  balance : p.View s → (p.owes = true → 0 < s.short) →
    m.party.owes.toNat + m.spawned.countP owes + s.short = p.owes.toNat + m.resource.short

/-- A step that leaves the state of the link and the debts alone. -/
theorem StepOk.passive {s : LinkState τ} {free : Bool} {p p' : Party τ} {c : Lock.Claim}
    (hc : c.Fits holds free p p') (ho : p'.owes = p.owes) (hv : p.View s → p'.View s) :
    StepOk s free p { party := p', resource := s, claim := c } :=
  ⟨hc, .inr rfl, fun _ hq => (nomatch hq), .inl rfl, hv, fun _ _ => by rw [ho]; rfl⟩

theorem task_ok {target : NodeId} {s : LinkState τ} {free : Bool} {pc : TaskPc τ} {a : PartyAct τ}
    {m : LinkMove τ} (h : pc.step target s free a = some m) : StepOk s free (.task pc) m := by
  cases TaskPc.step_moves h with
  -- an attempt returns: the debt stays with the task
  | connected | failed | slept => exact .passive rfl rfl fun _ => trivial
  | locked t hfree => exact .passive ⟨hfree, rfl⟩ rfl fun _ => trivial
  | published t =>
    -- the state is still `Reconnecting`, since this task owes a connection
    refine ⟨rfl, .inl rfl, by simp, .inl rfl, fun _ => rfl, fun _ hpos => ?_⟩
    cases s with
    | connected t => exact absurd (hpos rfl) (by simp [LinkState.short])
    | reconnecting => rfl
  | notified => exact ⟨rfl, .inr rfl, by simp, .inr rfl, fun hv => hv, by simp [owes]⟩
  | left => exact .passive ⟨rfl, rfl⟩ rfl fun _ => trivial

theorem acquire_ok {s : LinkState τ} {free : Bool} {pc : AcquirePc} {a : PartyAct τ}
    {m : LinkMove τ} (h : pc.step s free a = some m) : StepOk s free (.acquire pc) m := by
  cases AcquirePc.step_moves h with
  | locked hfree => exact .passive ⟨hfree, rfl⟩ rfl fun _ => trivial
  | cancelled | dropped => exact .passive rfl rfl fun _ => trivial
  | gaveBack | notReady | released => exact .passive ⟨rfl, rfl⟩ rfl fun _ => trivial
  | handedOut hs =>
    -- the mutex is held: what is matched here stays
    subst hs
    exact .passive rfl rfl fun _ => rfl
  | used t hs =>
    subst hs
    exact ⟨rfl, .inl rfl, by simp, .inl rfl, fun _ => rfl, by simp [owes, LinkState.short]⟩
  | panicked t hs =>
    subst hs
    exact .passive rfl rfl fun hv => by cases hv
  | committed => exact .passive rfl rfl id
  | reset =>
    -- a reset of a connected link: it is short of one connection, and this guard owes it
    refine ⟨rfl, .inl rfl, by simp, .inl rfl, fun _ => trivial, fun hv _ => ?_⟩
    cases s with
    | connected t => rfl
    | reconnecting => cases hv
  | spawned =>
    exact ⟨rfl, .inr rfl, by simp [reconnectTask, holds], .inl rfl, fun _ => trivial,
      by simp [owes, reconnectTask]⟩

theorem wait_ok {s : LinkState τ} {free : Bool} {pc : WaitPc} {a : PartyAct τ}
    {m : LinkMove τ} (h : pc.step s free a = some m) : StepOk s free (.wait pc) m := by
  cases WaitPc.step_moves h with
  | locked signalled hfree => exact .passive ⟨hfree, rfl⟩ rfl fun _ => trivial
  | gaveBack | connected | parked => exact .passive ⟨rfl, rfl⟩ rfl fun _ => trivial
  | cancelled | woken | expired | abandoned => exact .passive rfl rfl fun _ => trivial

/-- A step of any party. -/
theorem step_ok {target : NodeId} {s : LinkState τ} {free : Bool} {p : Party τ} {a : PartyAct τ}
    {m : LinkMove τ} (h : Party.step target s free p a = some m) : StepOk s free p m := by
  cases p with
  | task pc => exact task_ok h
  | acquire pc => exact acquire_ok h
  | wait pc => exact wait_ok h

/-! ## The rules for a shared lock -/

theorem holds_notified (p : Party τ) : p.notified.holds = p.holds := by
  unfold notified
  split <;> rfl

theorem owes_notified (p : Party τ) : p.notified.owes = p.owes := by
  unfold notified
  split <;> rfl

theorem View.notified {p : Party τ} {s : LinkState τ} (h : p.View s) : p.notified.View s := by
  unfold Party.notified
  split
  · trivial
  · trivial
  · trivial
  · exact h

theorem view_of_not_holds {p : Party τ} {s : LinkState τ} (h : p.holds = false) : p.View s := by
  unfold View
  split
  · cases h
  · cases h
  · cases h
  · cases h
  · trivial

theorem disciplined (target : NodeId) :
    Lock.Disciplined holds (Party.step (τ := τ) target) where
  fits h := (step_ok h).fits
  alone h := (step_ok h).alone
  spawned h := (step_ok h).spawned
  tell h q := by
    rcases (step_ok h).tell with he | he
    · rw [he]
      rfl
    · rw [he]
      exact holds_notified q

theorem stable (target : NodeId) : Lock.Stable holds (Party.step (τ := τ) target) View where
  owner := view_of_not_holds
  move h := (step_ok h).view
  tell h q s hv := by
    rcases (step_ok h).tell with he | he
    · rw [he]
      exact hv
    · rw [he]
      exact hv.notified

theorem owes_tell {target : NodeId} {s : LinkState τ} {free : Bool} {p : Party τ} {a : PartyAct τ}
    {m : LinkMove τ} (h : Party.step target s free p a = some m) (q : Party τ) :
    (m.tell q).owes = q.owes := by
  rcases (step_ok h).tell with he | he
  · rw [he]
    rfl
  · rw [he]
    exact owes_notified q

end Party

/-! ## The invariant of a link -/

namespace Link

/-- At every moment: one owner of the mutex, what the parties rely on is true, and one party owes
a connection iff the link is short of it. -/
structure Tended (l : Link τ) : Prop where
  owned : Lock.Owned Party.holds l
  view : ∀ p ∈ l.parties, p.View l.resource
  debt : l.parties.countP Party.owes = l.resource.short

theorem new_tended : (new : Link τ).Tended where
  owned := by
    refine ⟨fun {i p} hp => ?_, fun ho => nomatch ho⟩
    rw [List.mem_singleton.1 (List.mem_of_getElem? hp)]
    exact iff_of_false (fun hh => nomatch hh) (fun ho => nomatch ho)
  view p hp := by
    rw [List.mem_singleton.1 hp]
    trivial
  debt := rfl

/-- A new call. -/
theorem Tended.join {l : Link τ} (h : l.Tended) {p : Party τ} (hh : p.holds = false)
    (ho : p.owes = false) : Link.Tended (Lock.Shared.join l p) where
  owned := h.owned.join hh
  view q hq := by
    rcases List.mem_append.1 hq with hq | hq
    · exact h.view q hq
    · rw [List.mem_singleton.1 hq]
      exact Party.view_of_not_holds hh
  debt := by
    simp only [Lock.Shared.join, List.countP_append, List.countP_singleton, ho, Bool.false_eq_true,
      ↓reduceIte, Nat.add_zero]
    exact h.debt

theorem step_tended (target : NodeId) {l : Link τ} (h : l.Tended) (a : LinkAct τ) :
    (l.step target a).Tended := by
  cases a with
  | acquire => exact h.join rfl rfl
  | waitConnected => exact h.join rfl rfl
  | party i a =>
    exact ⟨Lock.act_owned (Party.disciplined target) h.owned,
      Lock.act_view (Party.disciplined target) (Party.stable target) h.owned h.view,
      Lock.act_balanced (fun hm => (Party.step_ok hm).balance) Party.owes_tell h.view h.debt⟩

/-! ## Tasks and guards -/

/-- How many tasks have not exited. -/
def aliveTasks (l : Link τ) : Nat := l.parties.countP Party.aliveTask

/-- How many guards exist. -/
def liveGuards (l : Link τ) : Nat := l.parties.countP Party.liveGuard

/-- `Guard::transport` found the link `Reconnecting`. -/
def Unreachable (l : Link τ) : Prop := .acquire .panicked ∈ l.parties

variable {l : Link τ}

/-- With the mutex free the parties that owe a connection are the tasks that are alive. -/
theorem Tended.aliveTasks_eq (h : l.Tended) (hfree : l.owner = none) :
    l.aliveTasks = l.resource.short := by
  rw [← h.debt]
  refine List.countP_congr fun p hp => ?_
  have hh := h.owned.not_holds_of_free hfree hp
  cases p with
  | task pc => cases pc <;> simp_all [Party.holds, Party.owes, Party.aliveTask]
  | acquire pc => cases pc <;> simp_all [Party.holds, Party.owes, Party.aliveTask]
  | wait pc => simp [Party.owes, Party.aliveTask]

theorem owes_or_published {p : Party τ} (h : p.aliveTask = true) :
    p.owes = true ∨ p.published = true := by
  cases p with
  | task pc => cases pc <;> simp_all [Party.owes, Party.published, Party.aliveTask]
  | acquire pc => cases h
  | wait pc => cases h

theorem holds_of_published {p : Party τ} (h : p.published = true) : p.holds = true := by
  unfold Party.published at h
  split at h
  · rfl
  · rfl
  · cases h

theorem holds_of_liveGuard {p : Party τ} (h : p.liveGuard = true) : p.holds = true := by
  unfold Party.liveGuard at h
  split at h
  · rfl
  · cases h

theorem connected_of_published {p : Party τ} {s : LinkState τ} (h : p.published = true)
    (hv : p.View s) : s.isConnected = true := by
  unfold Party.published at h
  split at h
  · exact hv
  · exact hv
  · cases h

theorem connected_of_liveGuard {p : Party τ} {s : LinkState τ} (h : p.liveGuard = true)
    (hv : p.View s) : s.isConnected = true := by
  unfold Party.liveGuard at h
  split at h
  · exact hv
  · cases h

theorem short_of_connected {s : LinkState τ} (h : s.isConnected = true) : s.short = 0 := by
  cases s with
  | connected t => rfl
  | reconnecting => cases h

/-- Whoever has the mutex, there are never two reconnect tasks. -/
theorem Tended.aliveTasks_le_one (h : l.Tended) : l.aliveTasks ≤ 1 := by
  by_cases hex : ∃ p ∈ l.parties, p.published = true
  · -- the link is connected, so no other task owes anything
    obtain ⟨p, hp, hpub⟩ := hex
    have hzero : l.parties.countP Party.owes = 0 := by
      rw [h.debt, short_of_connected (connected_of_published hpub (h.view p hp))]
    rw [List.countP_eq_zero] at hzero
    calc l.aliveTasks ≤ l.parties.countP Party.published :=
          List.countP_mono_left fun q hq ha => (owes_or_published ha).resolve_left (hzero q hq)
      _ ≤ 1 := h.owned.countP_le_one fun _ => holds_of_published
  · calc l.aliveTasks ≤ l.parties.countP Party.owes :=
          List.countP_mono_left fun q hq ha =>
            (owes_or_published ha).resolve_right fun hpub => hex ⟨q, hq, hpub⟩
      _ = l.resource.short := h.debt
      _ ≤ 1 := by cases l.resource <;> simp [LinkState.short]

/-! ## The theorem -/

/-- What holds of the tasks and the guards of a link. -/
structure OneTask (l : Link τ) : Prop where
  reconnecting : l.owner = none → (l.resource = .reconnecting ↔ l.aliveTasks = 1)
  connected : l.owner = none → ((∃ t, l.resource = .connected t) ↔ l.aliveTasks = 0)
  /-- also while some party has the mutex -/
  tasks : l.aliveTasks ≤ 1
  guards : l.liveGuards ≤ 1
  guarded : 0 < l.liveGuards → ∃ t, l.resource = .connected t
  transport : ¬ l.Unreachable

theorem Tended.oneTask (h : l.Tended) : l.OneTask where
  reconnecting hfree := by
    rw [h.aliveTasks_eq hfree]
    cases l.resource <;> simp [LinkState.short]
  connected hfree := by
    rw [h.aliveTasks_eq hfree]
    cases l.resource <;> simp [LinkState.short]
  tasks := h.aliveTasks_le_one
  guards := h.owned.countP_le_one fun _ => holds_of_liveGuard
  guarded hpos := by
    obtain ⟨p, hp, hg⟩ := List.countP_pos_iff.1 hpos
    have hc := connected_of_liveGuard hg (h.view p hp)
    cases hs : l.resource with
    | connected t => exact ⟨t, rfl⟩
    | reconnecting =>
      rw [hs] at hc
      cases hc
  transport hmem := h.view _ hmem

/-- **One reconnect task exactly when disconnected.** For every link and every interleaving of its
reconnect tasks, of any calls of `acquire` and `wait_connected`, completed or cancelled, and of the
commits and drops of the guards. -/
theorem one_reconnect_task (target : NodeId) (acts : List (LinkAct τ)) :
    (Lts.run (step target) (new : Link τ) acts).OneTask := by
  have h := Lts.run_inv (I := Tended (τ := τ)) (fun _ a hl => step_tended target hl a) acts
    new_tended
  exact h.oneTask

/-- A connection is established and handed out, the guard is dropped uncommitted while another call
waits, and that call finds the link reconnecting with the new task alive. -/
example :
    let l := Lts.run (step ⟨[2]⟩) (new : Link Nat)
      [.party 0 (.attempt (.ok (7, ⟨⟨[2]⟩, none⟩))), .party 0 .lock, .party 0 .run, .party 0 .run,
        .party 0 .run, .acquire, .party 1 .lock, .party 1 .run, .acquire, .party 1 .drop,
        .party 1 .run, .party 1 .run, .party 2 .lock, .party 2 .run]
    l.resource = .reconnecting ∧ l.owner = none ∧
      l.parties = [.task .exited, .acquire .gone, .acquire (.notReady ⟨⟩), .reconnectTask] := by
  decide

end Link

end Snowpack
