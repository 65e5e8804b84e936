import Snowpack.Pool.Proof.OneTask

/-!
# A link recovers

Whatever has happened to a link, it comes to rest once no more calls are made, the peer can be
reached and guards are not kept for ever: the mutex is free, the link is connected, every call has
returned and no reconnect task is left. Nothing is assumed of the order in which the mutex is given
to those who wait for it.

`Party.load` is what a party has still to do. It includes what it will make others do: a guard that
is dropped uncommitted spawns a task, and a task wakes all calls of `wait_connected`. Each step of a
party lowers the sum of the loads (`step_load`), so in the end nobody can take a step, and then
nobody has the mutex and nobody waits for it. A call of `wait_connected` needs no timeout for this:
one that waits without having been woken waits for a connection (`Expected`).
-/

namespace Snowpack

variable {τ : Type}

namespace Party

/-- A call of `wait_connected`. -/
def isWait : Party τ → Bool
  | .wait _ => true
  | _ => false

/-- The guard of this call may yet spawn a task. -/
def maySpawn : Party τ → Bool
  | .acquire .locking | .acquire .matching | .acquire (.guard false) | .acquire .spawning => true
  | _ => false

/-- The task or the call has returned, and its guard, if any, is dropped. -/
def finished : Party τ → Bool
  | .task .exited | .acquire (.notReady _) | .acquire .gone => true
  | .wait (.returned _) | .wait .gone => true
  | _ => false

/-- What a party has still to do when there are `w` calls of `wait_connected`. -/
def load (w : Nat) : Party τ → Nat
  | .task (.sleeping _) => 6 + 3 * w
  | .task (.connecting _) => 5 + 3 * w
  | .task (.locking _) => 4 + 3 * w
  | .task (.publishing _) => 3 + 3 * w
  | .task .notifying => 2 + 3 * w
  | .task .leaving => 1
  | .task .exited => 0
  | .acquire .locking => 10 + 3 * w
  | .acquire .matching => 9 + 3 * w
  | .acquire (.guard false) => 8 + 3 * w
  | .acquire .spawning => 7 + 3 * w
  | .acquire (.guard true) => 2
  | .acquire .releasing => 1
  | .acquire (.notReady _) | .acquire .panicked | .acquire .gone => 0
  | .wait (.locking signalled) => 3 + 3 * signalled.toNat
  | .wait (.checking signalled) => 2 + 3 * signalled.toNat
  | .wait (.parked signalled) => 1 + 3 * signalled.toNat
  | .wait (.returned _) | .wait .gone => 0

/-! ## What a step does -/

/-- What a step does to the calls and to what they wait for. -/
structure Moved (s : LinkState τ) (p : Party τ) (m : LinkMove τ) : Prop where
  wait : m.party.isWait = p.isWait
  spawned : ∀ q ∈ m.spawned, q = reconnectTask
  spawns : m.party.maySpawn.toNat + m.spawned.length ≤ p.maySpawn.toNat
  parked : m.party = .wait (.parked false) → m.resource = .reconnecting
  published : s = .reconnecting → m.resource = .reconnecting ∨ m.party = .task .notifying
  notifies : p = .task .notifying → m.tell = notified

theorem task_moved {target : NodeId} {s : LinkState τ} {free : Bool} {pc : TaskPc τ}
    {a : PartyAct τ} {m : LinkMove τ} (h : pc.step target s free a = some m) :
    Moved s (.task pc) m := by
  cases TaskPc.step_moves h with
  | published t => exact ⟨rfl, by simp, Nat.le_refl _, by simp, fun _ => .inr rfl, by simp⟩
  | notified => exact ⟨rfl, by simp, Nat.le_refl _, by simp, .inl, fun _ => rfl⟩
  | connected | failed | slept | locked | left =>
    exact ⟨rfl, by simp, Nat.le_refl _, by simp, .inl, by simp⟩

theorem acquire_moved {s : LinkState τ} {free : Bool} {pc : AcquirePc} {a : PartyAct τ}
    {m : LinkMove τ} (h : pc.step s free a = some m) : Moved s (.acquire pc) m := by
  cases AcquirePc.step_moves h with
  | used t hs => exact ⟨rfl, by simp, Nat.le_refl _, by simp, by simp [hs], by simp⟩
  | reset => exact ⟨rfl, by simp, Nat.le_refl _, by simp, fun _ => .inl rfl, by simp⟩
  | spawned => exact ⟨rfl, by simp, Nat.le_refl _, by simp, .inl, by simp⟩
  | locked | cancelled | gaveBack | handedOut | notReady | panicked | committed | dropped
  | released => exact ⟨rfl, by simp, by simp [maySpawn], by simp, .inl, by simp⟩

theorem wait_moved {s : LinkState τ} {free : Bool} {pc : WaitPc} {a : PartyAct τ}
    {m : LinkMove τ} (h : pc.step s free a = some m) : Moved s (.wait pc) m := by
  cases WaitPc.step_moves h with
  | parked signalled hs =>
    exact ⟨rfl, by simp, Nat.le_refl _, fun _ => hs, .inl, by simp⟩
  | locked | cancelled | gaveBack | connected | woken | expired | abandoned =>
    exact ⟨rfl, by simp, Nat.le_refl _, by simp, .inl, by simp⟩

theorem step_moved {target : NodeId} {s : LinkState τ} {free : Bool} {p : Party τ}
    {a : PartyAct τ} {m : LinkMove τ} (h : Party.step target s free p a = some m) :
    Moved s p m := by
  cases p with
  | task pc => exact task_moved h
  | acquire pc => exact acquire_moved h
  | wait pc => exact wait_moved h

end Party

/-- Attempts to connect succeed, at the right peer. -/
def PartyAct.Calm (target : NodeId) : PartyAct τ → Prop
  | .attempt r => ∃ t, tryConnect target r = .ok t
  | _ => True

namespace Party

/-- The guard is used: it may be for as long as its owner likes. -/
def Uses (p : Party τ) (a : PartyAct τ) (m : LinkMove τ) : Prop :=
  (∃ t, a = .transport t) ∧ m.party = p ∧ m.claim = .keep ∧ m.spawned = [] ∧ m.tell = id

/-- A step lowers the load of its party by more than what it adds to that of the others. -/
inductive Lowers (w : Nat) (p : Party τ) (m : LinkMove τ) : Prop
  | alone (htell : m.tell = id) (hless : m.party.load w + (m.spawned.map (load w)).sum < p.load w)
  | wakes (htell : m.tell = notified) (hnone : m.spawned = []) (hself : p.notified = p)
      (hless : m.party.load w + 3 * w < p.load w)

theorem task_load {target : NodeId} {s : LinkState τ} {free : Bool} {pc : TaskPc τ}
    {a : PartyAct τ} {m : LinkMove τ} (h : pc.step target s free a = some m)
    (hcalm : a.Calm target) (w : Nat) : Lowers w (.task pc) m := by
  cases TaskPc.step_moves h with
  | failed backoff he =>
    obtain ⟨t, ht⟩ := hcalm
    rw [he] at ht
    cases ht
  | notified => exact .wakes rfl rfl rfl (by simp only [load]; omega)
  | connected | slept | locked | published | left =>
    exact .alone rfl (by simp only [load, List.map_nil, List.sum_nil]; omega)

theorem acquire_load {s : LinkState τ} {free : Bool} {pc : AcquirePc} {a : PartyAct τ}
    {m : LinkMove τ} (h : pc.step s free a = some m) (w : Nat) :
    Uses (.acquire pc) a m ∨ Lowers w (.acquire pc) m := by
  cases AcquirePc.step_moves h with
  | used t hs => exact .inl ⟨⟨t, rfl⟩, rfl, rfl, rfl, rfl⟩
  | spawned =>
    refine .inr (.alone rfl ?_)
    simp only [load, reconnectTask, List.map_cons, List.map_nil, List.sum_cons, List.sum_nil]
    omega
  | locked | cancelled | gaveBack | handedOut | notReady | panicked | committed | reset | dropped
  | released => exact .inr (.alone rfl (by simp only [load, List.map_nil, List.sum_nil]; omega))

theorem wait_load {s : LinkState τ} {free : Bool} {pc : WaitPc} {a : PartyAct τ}
    {m : LinkMove τ} (h : pc.step s free a = some m) (w : Nat) : Lowers w (.wait pc) m := by
  cases WaitPc.step_moves h with
  | locked | cancelled | gaveBack | connected | parked | woken | expired | abandoned =>
    exact .alone rfl (by
      simp only [load, List.map_nil, List.sum_nil, Bool.toNat_true, Bool.toNat_false]; omega)

theorem step_load {target : NodeId} {s : LinkState τ} {free : Bool} {p : Party τ}
    {a : PartyAct τ} {m : LinkMove τ} (h : Party.step target s free p a = some m)
    (hcalm : a.Calm target) (w : Nat) : Uses p a m ∨ Lowers w p m := by
  cases p with
  | task pc => exact .inr (task_load h hcalm w)
  | acquire pc => exact acquire_load h w
  | wait pc => exact .inr (wait_load h w)

/-- `notify_waiters` gives each call of `wait_connected` another turn of its loop. -/
theorem load_notified (w : Nat) (p : Party τ) :
    p.notified.load w ≤ p.load w + 3 * p.isWait.toNat := by
  cases p with
  | task pc => simp [notified]
  | acquire pc => simp [notified]
  | wait pc =>
    cases pc with
    | locking b | checking b | parked b => cases b <;> simp [notified, load, isWait]
    | returned r => simp [notified]
    | gone => simp [notified]

theorem sum_notified (w : Nat) (ps : List (Party τ)) :
    ((ps.map notified).map (load w)).sum ≤ (ps.map (load w)).sum + 3 * ps.countP isWait := by
  induction ps with
  | nil => simp
  | cons p ps ih =>
    have hp := load_notified w p
    simp only [List.map_cons, List.sum_cons, List.countP_cons]
    cases hw : p.isWait with
    | true =>
      simp only [hw, Bool.toNat_true, ↓reduceIte] at hp ⊢
      omega
    | false =>
      simp only [hw, Bool.toNat_false, Bool.false_eq_true, ↓reduceIte] at hp ⊢
      omega

theorem isWait_notified (p : Party τ) : p.notified.isWait = p.isWait := by
  unfold notified
  split <;> rfl

theorem maySpawn_notified (p : Party τ) : p.notified.maySpawn = p.maySpawn := by
  unfold notified
  split <;> rfl

/-- What a step tells the others changes neither their kind nor what they may spawn. -/
theorem tell_same {target : NodeId} {s : LinkState τ} {free : Bool} {p : Party τ}
    {a : PartyAct τ} {m : LinkMove τ} (h : Party.step target s free p a = some m) (q : Party τ) :
    (m.tell q).isWait = q.isWait ∧ (m.tell q).maySpawn = q.maySpawn := by
  rcases (step_ok h).tell with he | he
  · rw [he]
    exact ⟨rfl, rfl⟩
  · rw [he]
    exact ⟨isWait_notified q, maySpawn_notified q⟩

end Party

/-! ## What is kept -/

/-- No new call is made, and the party has a calm event. -/
def LinkAct.Calm (target : NodeId) : LinkAct τ → Prop
  | .party _ a => a.Calm target
  | _ => False

namespace Link

/-- A call that is parked and was not woken waits for a connection, or a task is about to wake
it. -/
def Expected (l : Link τ) : Prop :=
  .wait (.parked false) ∈ l.parties →
    l.resource = .reconnecting ∨ .task .notifying ∈ l.parties

/-- A link while no more calls are made: `w` of its parties are calls of `wait_connected`, those in
the places `ws`, and there will never be more than `n` parties. -/
structure Calm (w n : Nat) (ws : Nat → Bool) (l : Link τ) : Prop where
  tended : l.Tended
  waits : l.parties.countP Party.isWait = w
  room : l.parties.length + l.parties.countP Party.maySpawn ≤ n
  kind : ∀ i p, l.parties[i]? = some p → p.isWait = ws i
  late : ∀ i, l.parties.length ≤ i → ws i = false
  expected : l.Expected

variable {w n : Nat} {ws : Nat → Bool} {l : Link τ}

theorem Calm.of_tended (h : l.Tended) (hexpected : l.Expected) :
    l.Calm (l.parties.countP Party.isWait) (2 * l.parties.length)
      fun i => l.parties[i]?.any Party.isWait where
  tended := h
  waits := rfl
  room := by
    have := List.countP_le_length (p := Party.maySpawn) (l := l.parties)
    omega
  kind i p hp := by rw [hp]; rfl
  late i hi := by rw [List.getElem?_eq_none hi]; rfl
  expected := hexpected

/-- What parked calls wait for stays true when party `i` moves. -/
theorem Expected.moved {target : NodeId} {i : Nat} {p : Party τ} {a : PartyAct τ} {m : LinkMove τ}
    (hp : l.parties[i]? = some p)
    (hm : Party.step target l.resource l.owner.isNone p a = some m) (h : l.Expected)
    (owner : Option Nat) :
    Expected ⟨m.resource, owner, (l.parties.map m.tell).set i m.party ++ m.spawned⟩ := by
  intro hmem
  have hmoved := Party.step_moved hm
  have hi : i < l.parties.length := (List.getElem?_eq_some_iff.1 hp).1
  have hself : m.party ∈ (l.parties.map m.tell).set i m.party ++ m.spawned :=
    List.mem_of_getElem? (Lock.Shared.getElem?_moved hp)
  obtain ⟨j, hj⟩ := List.mem_iff_getElem?.1 hmem
  rcases Lock.getElem?_after hj hi with ⟨-, hq⟩ | ⟨hne, q, hq, htold⟩ | ⟨-, hq⟩
  · exact .inl (hmoved.parked hq.symm)
  · rcases (Party.step_ok hm).tell with he | he
    · rw [he] at htold
      subst htold
      rcases h (List.mem_of_getElem? hq) with hs | hnot
      · rcases hmoved.published hs with hr | hpub
        · exact .inl hr
        · exact .inr (hpub ▸ hself)
      · -- the task that is about to notify has not moved
        obtain ⟨k, hk⟩ := List.mem_iff_getElem?.1 hnot
        right
        have hik : i ≠ k := by
          intro hik
          subst hik
          have hnotifying := hmoved.notifies (Option.some.inj (hp.symm.trans hk))
          rw [he] at hnotifying
          have := congrFun hnotifying (.wait (.parked false) : Party τ)
          cases this
        have htask : ((l.parties.map m.tell).set i m.party ++ m.spawned)[k]? = _ :=
          Lock.Shared.getElem?_told hk hik
        rw [he] at htask ⊢
        exact List.mem_of_getElem? htask
    · rw [he] at htold
      unfold Party.notified at htold
      split at htold
      · cases htold
      · cases htold
      · cases htold
      · rename_i hnot _ _ hparked
        exact absurd htold.symm (hparked false)
  · cases hmoved.spawned _ hq

theorem Calm.step (target : NodeId) (h : l.Calm w n ws) {a : LinkAct τ} (ha : a.Calm target) :
    (l.step target a).Calm w n ws := by
  cases a with
  | acquire => cases ha
  | waitConnected => cases ha
  | party i a =>
    have htended := step_tended target h.tended (.party i a)
    rcases Lock.Shared.act_eq (Party.step target) l i a with heq | ⟨p, m, hp, hm, heq⟩
    · rw [Link.step, heq]
      exact h
    · have hmoved := Party.step_moved hm
      have hi : i < l.parties.length := (List.getElem?_eq_some_iff.1 hp).1
      have hwait := Lock.countP_after hp m fun q => (Party.tell_same hm q).1
      have hspawn := Lock.countP_after hp m fun q => (Party.tell_same hm q).2
      have hnone : m.spawned.countP Party.isWait = 0 ∧ m.spawned.countP Party.maySpawn = 0 := by
        constructor <;>
        · apply List.countP_eq_zero.2
          intro q hq
          rw [hmoved.spawned q hq]
          simp [Party.reconnectTask, Party.isWait, Party.maySpawn]
      have hspawns := hmoved.spawns
      have hroom := h.room
      have hwaits := h.waits
      rw [hmoved.wait, hnone.1] at hwait
      rw [hnone.2] at hspawn
      rw [Link.step, heq] at htended ⊢
      refine ⟨htended, ?_, ?_, fun j q hq => ?_, fun j hj => ?_, h.expected.moved hp hm _⟩
      · dsimp only
        omega
      · simp only [List.length_append, List.length_set, List.length_map]
        omega
      · rcases Lock.getElem?_after hq hi with ⟨rfl, rfl⟩ | ⟨-, q₀, hq₀, rfl⟩ | ⟨hlate, hq⟩
        · rw [hmoved.wait]
          exact h.kind _ p hp
        · rw [(Party.tell_same hm q₀).1]
          exact h.kind j q₀ hq₀
        · rw [hmoved.spawned q hq, h.late j hlate]
          rfl
      · simp only [List.length_append, List.length_set, List.length_map] at hj
        exact h.late j (by omega)

/-! ## A step is made, or it has to wait -/

/-- Who has the mutex, and where the parties are. -/
def view (l : Link τ) : Option Nat × List (Party τ) := (l.owner, l.parties)

/-- The action uses a guard, or the party does not wait for it. -/
def Idle (target : NodeId) (v : Option Nat × List (Party τ)) : LinkAct τ → Prop
  | .party i a => ∀ p, v.2[i]? = some p →
      (∃ t, a = .transport t) ∨ ∃ s, Party.step target s v.1.isNone p a = none
  | _ => True

/-- The loads of all parties together. -/
def load (w : Nat) (v : Option Nat × List (Party τ)) : Nat := (v.2.map (Party.load w)).sum

theorem Calm.load_moved (h : l.Calm w n ws) {i : Nat} {p : Party τ}
    {m : LinkMove τ} (hp : l.parties[i]? = some p) (hlow : p.Lowers w m) (owner : Option Nat) :
    load w (owner, (l.parties.map m.tell).set i m.party ++ m.spawned) < load w l.view := by
  have hsum := Lock.sum_after (Party.load w) hp m
  simp only [load, view]
  cases hlow with
  | alone htell hless =>
    rw [htell, List.map_id, id] at hsum
    rw [htell, List.map_id]
    omega
  | wakes htell hnone hself hless =>
    have hwoken := Party.sum_notified w l.parties
    rw [h.waits] at hwoken
    rw [htell, hself, hnone, List.map_nil, List.sum_nil, Nat.add_zero] at hsum
    rw [htell, hnone]
    omega

theorem Calm.step_idle {target : NodeId} (h : l.Calm w n ws) {a : LinkAct τ}
    (ha : a.Calm target) :
    (l.step target a).view = l.view ∧ Idle target l.view a ∨
      load w (l.step target a).view < load w l.view := by
  cases a with
  | acquire => cases ha
  | waitConnected => cases ha
  | party i a =>
    simp only [Link.step, Lock.Shared.act]
    cases hp : l.parties[i]? with
    | none =>
      refine .inl ⟨rfl, fun p hq => ?_⟩
      rw [view, hp] at hq
      cases hq
    | some p =>
      cases hm : Party.step target l.resource l.owner.isNone p a with
      | none =>
        refine .inl ⟨by simp only [hm], fun q hq => ?_⟩
        rw [view, hp] at hq
        cases hq
        exact .inr ⟨_, hm⟩
      | some m =>
        simp only [hm]
        rcases Party.step_load hm ha w with ⟨huse, hparty, hclaim, hnone, htell⟩ | hlow
        · left
          refine ⟨?_, fun q hq => ?_⟩
          · obtain ⟨hi, hget⟩ := List.getElem?_eq_some_iff.1 hp
            rw [hparty, hclaim, hnone, htell, List.map_id, ← hget, List.set_getElem_self,
              List.append_nil]
            rfl
          · rw [view, hp] at hq
            cases hq
            exact .inl huse
        · exact .inr (h.load_moved hp hlow _)

/-! ## At rest -/

/-- Nobody has the mutex or waits for anything, and the link is connected. -/
structure AtRest (l : Link τ) : Prop where
  free : l.owner = none
  connected : ∃ t, l.resource = .connected t
  finished : ∀ p ∈ l.parties, p.finished = true

/-- A round of steps in which every party gets what it may wait for: an attempt, the mutex, a turn,
the end of its guard, and the end of a sleep. Timeouts of `wait_connected` are not required. -/
structure Fair (n : Nat) (ws : Nat → Bool) (round : List (LinkAct τ)) : Prop where
  attempt : ∀ i < n, ∃ r, .party i (.attempt r) ∈ round
  lock : ∀ i < n, .party i .lock ∈ round
  run : ∀ i < n, .party i .run ∈ round
  drop : ∀ i < n, .party i .drop ∈ round
  timer : ∀ i < n, ws i = false → .party i .timer ∈ round

/-- The party makes no step of this kind, whatever the state of the link. -/
def Stuck (target : NodeId) (free : Bool) (p : Party τ) (a : PartyAct τ) : Prop :=
  ∃ s, Party.step target s free p a = none

/-- Who has the mutex can always go on. -/
theorem not_holds_of_stuck {target : NodeId} {free : Bool} {p : Party τ} {s : LinkState τ}
    (hview : p.View s) (hrun : Stuck target free p .run) (hdrop : Stuck target free p .drop) :
    p.holds = false := by
  obtain ⟨s₁, hrun⟩ := hrun
  obtain ⟨s₂, hdrop⟩ := hdrop
  cases p with
  | task pc => cases pc <;> first | rfl | cases hrun
  | acquire pc =>
    cases pc with
    | matching => cases s₁ <;> cases hrun
    | guard committed => cases committed <;> cases hdrop
    | panicked => cases hview
    | spawning => cases hrun
    | releasing => cases hrun
    | _ => rfl
  | wait pc =>
    cases pc with
    | checking signalled => cases s₁ <;> cases hrun
    | _ => rfl

/-- With the mutex free, a party that can make no step is finished, or a parked call. -/
theorem finished_of_stuck {target : NodeId} {p : Party τ} (hh : p.holds = false)
    {r : Except ConnectionError (τ × AuthDetails)} (hattempt : Stuck target true p (.attempt r))
    (hlock : Stuck target true p .lock) (hrun : Stuck target true p .run)
    (htimer : p.isWait = false → Stuck target true p .timer) :
    p.finished = true ∨ p = .wait (.parked false) := by
  obtain ⟨s₁, hattempt⟩ := hattempt
  obtain ⟨s₂, hlock⟩ := hlock
  obtain ⟨s₃, hrun⟩ := hrun
  cases p with
  | task pc =>
    obtain ⟨s₄, htimer⟩ := htimer rfl
    cases pc with
    | connecting backoff =>
      simp only [Party.step, TaskPc.step] at hattempt
      split at hattempt <;> cases hattempt
    | sleeping backoff => cases htimer
    | locking t => cases hlock
    | exited => exact .inl rfl
    | _ => cases hh
  | acquire pc =>
    cases pc with
    | locking => cases hlock
    | notReady e => exact .inl rfl
    | gone => exact .inl rfl
    | _ => cases hh
  | wait pc =>
    cases pc with
    | locking signalled => cases hlock
    | parked signalled =>
      cases signalled with
      | true => cases hrun
      | false => exact .inr rfl
    | returned r => exact .inl rfl
    | gone => exact .inl rfl
    | checking signalled => cases hh

theorem step_finished {target : NodeId} {p : Party τ} (h : p.finished = true) (s : LinkState τ)
    (free : Bool) (a : PartyAct τ) : Party.step target s free p a = none := by
  unfold Party.finished at h
  split at h <;> first | (cases a <;> rfl) | cases h

theorem Calm.atRest {target : NodeId} (h : l.Calm w n ws) {round : List (LinkAct τ)}
    (hfair : Fair n ws round) (hidle : ∀ a ∈ round, Idle target l.view a) : l.AtRest := by
  have hstuck (i : Nat) (p : Party τ) (hp : l.parties[i]? = some p) (a : PartyAct τ)
      (ha : .party i a ∈ round) (hno : ∀ t, a ≠ .transport t) :
      Stuck target l.owner.isNone p a :=
    (hidle _ ha p hp).resolve_left fun ⟨t, ht⟩ => hno t ht
  have hlt (i : Nat) (p : Party τ) (hp : l.parties[i]? = some p) : i < n := by
    have := (List.getElem?_eq_some_iff.1 hp).1
    have := h.room
    omega
  have hfree : l.owner = none := by
    cases ho : l.owner with
    | none => rfl
    | some i =>
      have hi := h.tended.owned.valid ho
      have hp : l.parties[i]? = some (l.parties.get ⟨i, hi⟩) := List.getElem?_eq_getElem hi
      have hn := hlt i _ hp
      have hholds := (h.tended.owned.owner_iff hp).2 ho
      rw [not_holds_of_stuck (h.tended.view _ (List.get_mem _ _))
        (hstuck i _ hp .run (hfair.run i hn) (by simp))
        (hstuck i _ hp .drop (hfair.drop i hn) (by simp))] at hholds
      cases hholds
  have hdone : ∀ p ∈ l.parties, p.finished = true ∨ p = .wait (.parked false) := by
    intro p hmem
    obtain ⟨i, hp⟩ := List.mem_iff_getElem?.1 hmem
    have hn := hlt i p hp
    obtain ⟨r, hr⟩ := hfair.attempt i hn
    rw [hfree] at hstuck
    exact finished_of_stuck (h.tended.owned.not_holds_of_free hfree hmem)
      (hstuck i p hp _ hr (by simp)) (hstuck i p hp .lock (hfair.lock i hn) (by simp))
      (hstuck i p hp .run (hfair.run i hn) (by simp))
      fun hw => hstuck i p hp .timer (hfair.timer i hn (h.kind i p hp ▸ hw)) (by simp)
  have hconnected : ∃ t, l.resource = .connected t := by
    rw [h.tended.oneTask.connected hfree]
    apply List.countP_eq_zero.2
    intro p hmem halive
    rcases hdone p hmem with hf | rfl
    · cases p with
      | task pc =>
        cases pc with
        | exited => cases halive
        | _ => cases hf
      | _ => cases halive
    · cases halive
  refine ⟨hfree, hconnected, fun p hmem => ?_⟩
  rcases hdone p hmem with hf | rfl
  · exact hf
  · obtain ⟨t, ht⟩ := hconnected
    rcases h.expected hmem with hs | hnot
    · rw [ht] at hs
      cases hs
    · rcases hdone _ hnot with hf | hf <;> cases hf

theorem AtRest.step {target : NodeId} (h : l.AtRest) {a : LinkAct τ} (ha : a.Calm target) :
    (l.step target a).AtRest := by
  cases a with
  | acquire => cases ha
  | waitConnected => cases ha
  | party i a =>
    rcases Lock.Shared.act_eq (Party.step target) l i a with heq | ⟨p, m, hp, hm, -⟩
    · rw [Link.step, heq]
      exact h
    · rw [step_finished (h.finished p (List.mem_of_getElem? hp))] at hm
      cases hm

/-! ## The theorem -/

theorem Expected.step (target : NodeId) (h : l.Expected) (a : LinkAct τ) :
    (l.step target a).Expected := by
  have hjoin (p : Party τ) (hp : p ≠ .wait (.parked false)) :
      Expected (Lock.Shared.join l p) := by
    intro hmem
    rcases List.mem_append.1 hmem with hmem | hmem
    · exact (h hmem).imp_right (List.mem_append_left _)
    · exact absurd (List.mem_singleton.1 hmem).symm hp
  cases a with
  | acquire => exact hjoin _ (by simp)
  | waitConnected => exact hjoin _ (by simp)
  | party i a =>
    rcases Lock.Shared.act_eq (Party.step target) l i a with heq | ⟨p, m, hp, hm, heq⟩
    · rw [Link.step, heq]
      exact h
    · rw [Link.step, heq]
      exact h.moved hp hm _

/-- **A link recovers.** After any steps whatsoever, when no more calls are made, attempts succeed
and the parties get their turns: nobody holds the mutex, the link is connected, and every call and
every reconnect task has returned. -/
theorem link_recovers (target : NodeId) (acts : List (LinkAct τ)) :
    let l := Lts.run (step target) (new : Link τ) acts
    ∃ k, ∀ rounds : List (List (LinkAct τ)),
      (∀ round ∈ rounds, Fair (2 * l.parties.length) (fun i => l.parties[i]?.any Party.isWait)
        round ∧ ∀ a ∈ round, a.Calm target) →
      k < rounds.length → (Lts.run (step target) l rounds.flatten).AtRest := by
  intro l
  have hl : l.Tended ∧ l.Expected := Lts.run_inv (I := fun l : Link τ => l.Tended ∧ l.Expected)
    (fun _ a h => ⟨step_tended target h.1 a, h.2.step target a⟩) acts
    ⟨new_tended, fun hmem => by cases List.mem_singleton.1 hmem⟩
  refine ⟨load (l.parties.countP Party.isWait) l.view, fun rounds hrounds hlong => ?_⟩
  refine Lts.run_fair (fun a => a.Calm target) view (load (l.parties.countP Party.isWait))
    (Idle target) (I := Calm _ (2 * l.parties.length) fun i => l.parties[i]?.any Party.isWait)
    ?_ ?_ ?_ ?_ rounds (.of_tended hl.1 hl.2) hrounds hlong
  · intro l a h ha
    exact h.step target ha
  · intro l a h ha
    exact h.step_idle ha
  · intro l round h hfair hidle
    exact h.atRest hfair hidle
  · intro l a _ ha h
    exact h.step ha

/-- What party `i` gets in a round; the second is a call of `wait_connected`. -/
def someTurns (i : Nat) : List (LinkAct Nat) :=
  [.party i (.attempt (.ok (7, ⟨⟨[2]⟩, none⟩))), .party i .lock, .party i .run, .party i .drop] ++
    if i = 2 then [] else [.party i .timer]

/-- A fair round: every party gets its turns. -/
def someRound : List (LinkAct Nat) := (List.range 6).flatMap someTurns

theorem link_recovers_someRound :
    ∃ k, (Lts.run (step ⟨[2]⟩) (Lts.run (step ⟨[2]⟩) (new : Link Nat) [.acquire, .waitConnected])
      (List.replicate (k + 1) someRound).flatten).AtRest := by
  obtain ⟨k, h⟩ := link_recovers ⟨[2]⟩ ([.acquire, .waitConnected] : List (LinkAct Nat))
  refine ⟨k, h _ (fun round hround => ?_) (by simp)⟩
  rw [List.eq_of_mem_replicate hround]
  have hmem {i : Nat} {a : LinkAct Nat} (hi : i < 6) (ha : a ∈ someTurns i) : a ∈ someRound :=
    List.mem_flatMap.2 ⟨i, List.mem_range.2 hi, ha⟩
  refine ⟨⟨fun i hi => ⟨.ok (7, ⟨⟨[2]⟩, none⟩), hmem hi (by simp [someTurns])⟩,
    fun i hi => hmem hi (by simp [someTurns]), fun i hi => hmem hi (by simp [someTurns]),
    fun i hi => hmem hi (by simp [someTurns]), fun i hi hw => hmem hi ?_⟩, fun a ha => ?_⟩
  · have hne : i ≠ 2 := by
      rintro rfl
      cases hw
    simp [someTurns, hne]
  · obtain ⟨i, -, ha⟩ := List.mem_flatMap.1 ha
    rcases List.mem_append.1 ha with ha | ha
    · simp only [List.mem_cons, List.not_mem_nil, or_false] at ha
      rcases ha with rfl | rfl | rfl | rfl
      · exact ⟨7, rfl⟩
      · trivial
      · trivial
      · trivial
    · split at ha
      · cases ha
      · rw [List.mem_singleton.1 ha]
        trivial

end Link

end Snowpack
