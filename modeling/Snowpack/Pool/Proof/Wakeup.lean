import Snowpack.Pool.Proof.Handover

/-!
# `wait_connected` misses no wake-up and disturbs nothing

A task publishes and then notifies, both with the mutex; a call of `wait_connected` makes its
`Notified` before it asks for the mutex. So a `Notified` that has not been signalled is newer than
every installation, except one whose task has not got to `notify_waiters` yet
(`Chronicle.Watched`). That task has the mutex: with the mutex free there is no such exception.
-/

namespace Snowpack

variable {τ : Type}

/-! ## Steps of `wait_connected` -/

/-- The call has a `Notified` that was not signalled. -/
def WaitPc.unsignalled : WaitPc → Bool
  | .locking signalled | .checking signalled | .parked signalled => !signalled
  | _ => false

/-- What a step of `wait_connected` does. -/
structure WaitPc.StepTo (s : LinkState τ) (pc : WaitPc) (m : LinkMove τ) (pc' : WaitPc) : Prop where
  party : m.party = .wait pc'
  resource : m.resource = s
  spawned : m.spawned = []
  tell : m.tell = id
  /-- a `Notified` is new, or it is the one from before -/
  unsignalled : pc'.unsignalled = true →
    (Party.wait pc : Party τ).deed (.wait pc') = some .registered ∨
    ((Party.wait pc : Party τ).deed (.wait pc') = none ∧ pc.unsignalled = true)
  parked : pc' = .parked false → s = .reconnecting
  returned : pc' = .returned (.ok ()) →
    (Party.wait pc : Party τ).holds = true ∧ ∃ t, s = .connected t

theorem WaitPc.step_to {s : LinkState τ} {free : Bool} {pc : WaitPc} {a : PartyAct τ}
    {m : LinkMove τ} (h : pc.step s free a = some m) : ∃ pc', pc.StepTo s m pc' := by
  cases WaitPc.step_moves h with
  | locked => exact ⟨_, rfl, rfl, rfl, rfl, fun hu => .inr ⟨rfl, hu⟩, by simp, by simp⟩
  -- the state is looked at with the mutex held
  | connected signalled hs =>
    exact ⟨_, rfl, rfl, rfl, rfl, (fun hu => by cases hu), by simp, fun _ => ⟨rfl, _, hs⟩⟩
  | parked signalled hs =>
    exact ⟨_, rfl, rfl, rfl, rfl, fun hu => .inr ⟨rfl, hu⟩, fun _ => hs, by simp⟩
  | woken => exact ⟨_, rfl, rfl, rfl, rfl, fun _ => .inl rfl, by simp, by simp⟩
  | cancelled | gaveBack | expired | abandoned =>
    exact ⟨_, rfl, rfl, rfl, rfl, (fun hu => by cases hu), by simp, by simp⟩

namespace Party

/-- `notify_waiters` leaves no `Notified` unsignalled. -/
theorem notified_signalled {p : Party τ} {pc : WaitPc} (h : p.notified = .wait pc) :
    pc.unsignalled = false := by
  unfold notified at h
  split at h
  · cases h
    rfl
  · cases h
    rfl
  · cases h
    rfl
  · rename_i h1 h2 h3
    subst h
    cases pc with
    | locking b => exact absurd rfl (h1 b)
    | checking b => exact absurd rfl (h2 b)
    | parked b => exact absurd rfl (h3 b)
    | _ => rfl

theorem notified_returned {p : Party τ} {r : Except NotReady Unit}
    (h : p.notified = .wait (.returned r)) : p = .wait (.returned r) := by
  unfold notified at h
  split at h
  · cases h
  · cases h
  · cases h
  · exact h

/-- Only a call of `wait_connected` comes to be in it. -/
theorem wait_of_moved {target : NodeId} {s : LinkState τ} {free : Bool} {p : Party τ}
    {a : PartyAct τ} {m : LinkMove τ} {pc : WaitPc} (h : Party.step target s free p a = some m)
    (hw : m.party = .wait pc) : ∃ pc₀, p = .wait pc₀ := by
  cases p with
  | task pc₀ => cases TaskPc.step_moves h <;> cases hw
  | acquire pc₀ => cases AcquirePc.step_moves h <;> cases hw
  | wait pc₀ => exact ⟨pc₀, rfl⟩

theorem tell_notifying {target : NodeId} {s : LinkState τ} {free : Bool} {a : PartyAct τ}
    {m : LinkMove τ} (h : Party.step target s free (.task .notifying) a = some m) :
    m.tell = notified := by
  cases a with
  | run =>
    cases h
    rfl
  | _ => cases h

theorem party_of_installed {p p' : Party τ} (h : p.deed p' = some .installed) :
    p' = .task .notifying := by
  unfold deed at h
  split at h
  all_goals first
    | rfl
    | cases h

end Party

/-! ## The invariant -/

namespace Chronicle

/-- A task has written `Connected` and not notified yet. -/
def Announcing (c : Chronicle τ) : Prop := ∃ j : Nat, c.link.parties[j]? = some (.task .notifying)

/-- No call waits for a connection that was installed without it being woken. -/
structure Watched (c : Chronicle τ) : Prop where
  kept : c.Kept
  /-- since an unsignalled `Notified` was made, nothing was installed -/
  seen : ∀ (i : Nat) (pc : WaitPc), c.link.parties[i]? = some (.wait pc) →
    pc.unsignalled = true → c.Announcing ∨ c.history.registered i = c.history.installed
  parked : ∀ i : Nat, c.link.parties[i]? = some (.wait (.parked false)) →
    c.Announcing ∨ c.link.resource = .reconnecting

theorem new_watched : (new : Chronicle τ).Watched where
  kept := new_kept
  seen i pc hi := by
    have := List.mem_singleton.1 (List.mem_of_getElem? hi)
    cases this
  parked i hi := by
    have := List.mem_singleton.1 (List.mem_of_getElem? hi)
    cases this

namespace Watched

variable {target : NodeId} {c : Chronicle τ} {i : Nat} {a : PartyAct τ} {p : Party τ}
  {m : LinkMove τ}

/-- A party that waits after a move waited before, or is the one that moved. -/
theorem wait_before (h : c.Kept) (hp : c.link.parties[i]? = some p)
    (hm : Party.step target c.link.resource c.link.owner.isNone p a = some m) {j : Nat}
    {pc : WaitPc} (hj : (c.move i p m).link.parties[j]? = some (.wait pc)) :
    (j = i ∧ ∃ pc₀, p = .wait pc₀ ∧ pc₀.StepTo c.link.resource m pc) ∨
    (j ≠ i ∧ ((∃ q, c.link.parties[j]? = some q ∧ q.notified = .wait pc) ∨
      m.tell = id ∧ c.link.parties[j]? = some (.wait pc))) := by
  have hd := Party.step_deed hm (h.tended.view p (List.mem_of_getElem? hp))
  rcases Lock.getElem?_after hj (List.getElem?_eq_some_iff.1 hp).1 with
    ⟨rfl, he⟩ | ⟨hne, q, hq, he⟩ | ⟨-, hq⟩
  · left
    obtain ⟨pc₀, rfl⟩ := Party.wait_of_moved hm he.symm
    obtain ⟨pc', hto⟩ := WaitPc.step_to hm
    cases hto.party.symm.trans he.symm
    exact ⟨rfl, pc₀, rfl, hto⟩
  · right
    refine ⟨hne.symm, ?_⟩
    rcases (Party.step_ok hm).tell with ht | ht
    · rw [ht] at he
      exact .inr ⟨ht, by rw [hq, he]; rfl⟩
    · rw [ht] at he
      exact .inl ⟨q, hq, he.symm⟩
  · cases hd.spawned _ hq

/-- A task that is about to notify stays there, unless it is the one that moved. -/
theorem announcing_move (hp : c.link.parties[i]? = some p)
    (hm : Party.step target c.link.resource c.link.owner.isNone p a = some m) (ht : m.tell = id)
    (h : c.Announcing) : (c.move i p m).Announcing := by
  obtain ⟨j, hj⟩ := h
  by_cases hi : i = j
  · -- it would have notified
    subst hi
    rw [hp] at hj
    cases hj
    rw [Party.tell_notifying hm] at ht
    have hn := congrFun ht (.wait (.parked false))
    cases hn
  · exact ⟨j, (Lock.Shared.getElem?_told hj hi).trans (by rw [ht]; rfl)⟩

theorem announcing_of_installed (hp : c.link.parties[i]? = some p)
    (hd : p.deed m.party = some .installed) : (c.move i p m).Announcing :=
  ⟨i, by rw [← Party.party_of_installed hd]; exact Lock.Shared.getElem?_moved hp⟩

theorem move_seen (h : c.Watched) (hp : c.link.parties[i]? = some p)
    (hm : Party.step target c.link.resource c.link.owner.isNone p a = some m) {j : Nat}
    {pc : WaitPc} (hj : (c.move i p m).link.parties[j]? = some (.wait pc))
    (hu : pc.unsignalled = true) :
    (c.move i p m).Announcing ∨
      (c.move i p m).history.registered j = (c.move i p m).history.installed := by
  rcases wait_before h.kept hp hm hj with
    ⟨rfl, pc₀, rfl, hto⟩ | ⟨hji, ⟨q, -, hq⟩ | ⟨ht, hbefore⟩⟩
  · rcases hto.unsignalled hu with hreg | ⟨hnone, hu₀⟩
    · -- a `Notified` made by this step
      right
      simp [move, History.record, hto.party, hreg]
    · rcases h.seen j pc₀ hp hu₀ with hann | heq
      · exact .inl (announcing_move hp hm hto.tell hann)
      · right
        simp only [move, hto.party, hnone, History.record_none]
        exact heq
  · rw [Party.notified_signalled hq] at hu
    cases hu
  · rcases h.seen j pc hbefore hu with hann | heq
    · exact .inl (announcing_move hp hm ht hann)
    · by_cases hd : p.deed m.party = some .installed
      · exact .inl (announcing_of_installed hp hd)
      · right
        simp only [move, History.record, hd, hji, and_false, ↓reduceIte]
        exact heq

theorem move_parked (h : c.Watched) (hp : c.link.parties[i]? = some p)
    (hm : Party.step target c.link.resource c.link.owner.isNone p a = some m) {j : Nat}
    (hj : (c.move i p m).link.parties[j]? = some (.wait (.parked false))) :
    (c.move i p m).Announcing ∨ (c.move i p m).link.resource = .reconnecting := by
  rcases wait_before h.kept hp hm hj with
    ⟨rfl, pc₀, rfl, hto⟩ | ⟨-, ⟨q, -, hq⟩ | ⟨ht, hbefore⟩⟩
  · exact .inr (hto.resource.trans (hto.parked rfl))
  · cases Party.notified_signalled hq
  · rcases h.parked j hbefore with hann | hs
    · exact .inl (announcing_move hp hm ht hann)
    have hd := Party.step_deed hm (h.kept.tended.view p (List.mem_of_getElem? hp))
    by_cases h1 : p.deed m.party = some .installed
    · exact .inl (announcing_of_installed hp h1)
    by_cases h2 : p.deed m.party = some .reset
    · exact .inr (hd.reset h2).2.2
    · rcases hd.quiet h1 h2 with hq | ⟨t, t', hc, -⟩
      · exact .inr (hq.trans hs)
      · rw [hs] at hc
        cases hc

/-- A new call, with the `Notified` it makes. -/
theorem join (h : c.Watched) {q : Party τ} {d : Option Deed} (hh : q.holds = false)
    (ho : q.owes = false) (hd : d = none ∧ (∀ pc, q ≠ .wait pc) ∨
      d = some .registered ∧ q = .wait (.locking false)) :
    Watched ⟨Lock.Shared.join c.link q, c.history.record c.link.parties.length d⟩ := by
  have hann : c.Announcing →
      Announcing ⟨Lock.Shared.join c.link q, c.history.record c.link.parties.length d⟩ := by
    rintro ⟨j, hj⟩
    exact ⟨j, (List.getElem?_append_left (List.getElem?_eq_some_iff.1 hj).1).trans hj⟩
  refine ⟨h.kept.join hh ho (hd.imp And.left And.left) _, ?_, ?_⟩
  · intro j pc hj hu
    rcases Lock.Shared.getElem?_join hj with ⟨hlt, hj'⟩ | ⟨rfl, hq⟩
    · refine (h.seen j pc hj' hu).imp hann fun heq => ?_
      have hne : j ≠ c.link.parties.length := by omega
      rcases hd with ⟨rfl, -⟩ | ⟨rfl, -⟩ <;>
        simpa [History.record, hne] using heq
    · rcases hd with ⟨-, hno⟩ | ⟨rfl, -⟩
      · exact absurd hq (hno pc)
      · right
        simp [History.record]
  · intro j hj
    rcases Lock.Shared.getElem?_join hj with ⟨-, hj'⟩ | ⟨-, hq⟩
    · exact (h.parked j hj').imp hann id
    · rcases hd with ⟨-, hno⟩ | ⟨-, hq'⟩
      · exact absurd hq (hno _)
      · cases hq.symm.trans hq'

/-- A call that returned `Ok` had done so before, or does it now. -/
theorem returned_before (h : c.Kept) (hp : c.link.parties[i]? = some p)
    (hm : Party.step target c.link.resource c.link.owner.isNone p a = some m) {j : Nat}
    (hj : (c.move i p m).link.parties[j]? = some (.wait (.returned (.ok ())))) :
    c.link.parties[j]? = some (.wait (.returned (.ok ()))) ∨
      c.link.owner = some j ∧ ∃ t, c.link.resource = .connected t := by
  rcases wait_before h hp hm hj with
    ⟨rfl, pc₀, rfl, hto⟩ | ⟨-, ⟨q, hq, hn⟩ | ⟨-, hbefore⟩⟩
  · obtain ⟨hh, hs⟩ := hto.returned rfl
    exact .inr ⟨(h.tended.owned.owner_iff hp).1 hh, hs⟩
  · rw [Party.notified_returned hn] at hq
    exact .inl hq
  · exact .inl hbefore

theorem step (h : c.Watched) (target : NodeId) (a : LinkAct τ) : (c.step target a).Watched := by
  cases a with
  | acquire => exact h.join rfl rfl (.inl ⟨rfl, by simp⟩)
  | waitConnected => exact h.join rfl rfl (.inr ⟨rfl, rfl⟩)
  | party i a =>
    have hk := h.kept.step target (.party i a)
    rcases c.step_party target i a with he | ⟨p, m, hp, hm, he⟩
    · rw [he]
      exact h
    · rw [he] at hk ⊢
      exact ⟨hk, fun j pc hj hu => h.move_seen hp hm hj hu, fun j hj => h.move_parked hp hm hj⟩

end Watched

/-! ## The theorem -/

/-- What holds of the calls of `wait_connected` of a link. -/
structure NoLostWakeup (target : NodeId) (c : Chronicle τ) : Prop where
  /-- with the mutex free, a call that waits for a signal waits for the next installation -/
  parked : c.link.owner = none → ∀ i : Nat, c.link.parties[i]? = some (.wait (.parked false)) →
    c.link.resource = .reconnecting ∧ c.history.registered i = c.history.installed
  /-- a call that returns `Ok` has just seen `Connected`, with the mutex -/
  returned : ∀ (a : LinkAct τ) (i : Nat),
    (c.step target a).link.parties[i]? = some (.wait (.returned (.ok ()))) →
    c.link.parties[i]? = some (.wait (.returned (.ok ()))) ∨
      c.link.owner = some i ∧ ∃ t, c.link.resource = .connected t
  /-- a step of the call changes its own place and nothing else -/
  alone : ∀ (i : Nat) (pc : WaitPc) (a : PartyAct τ), c.link.parties[i]? = some (.wait pc) →
    (c.link.step target (.party i a)).resource = c.link.resource ∧
      ∃ pc', (c.link.step target (.party i a)).parties = c.link.parties.set i (.wait pc')
  called : (c.link.step target .waitConnected).resource = c.link.resource ∧
    (c.link.step target .waitConnected).parties = c.link.parties ++ [.wait (.locking false)]

theorem Watched.noLostWakeup {c : Chronicle τ} (h : c.Watched) (target : NodeId) :
    c.NoLostWakeup target where
  parked hfree i hi := by
    have hquiet : ¬ c.Announcing := by
      rintro ⟨j, hj⟩
      have := h.kept.tended.owned.not_holds_of_free hfree (List.mem_of_getElem? hj)
      cases this
    exact ⟨(h.parked i hi).resolve_left hquiet, (h.seen i _ hi rfl).resolve_left hquiet⟩
  returned a i hi := by
    cases a with
    | acquire =>
      rcases Lock.Shared.getElem?_join hi with ⟨-, hi'⟩ | ⟨-, hq⟩
      · exact .inl hi'
      · cases hq
    | waitConnected =>
      rcases Lock.Shared.getElem?_join hi with ⟨-, hi'⟩ | ⟨-, hq⟩
      · exact .inl hi'
      · cases hq
    | party j a =>
      rcases c.step_party target j a with he | ⟨p, m, hp, hm, he⟩
      · rw [he] at hi
        exact .inl hi
      · rw [he] at hi
        exact Watched.returned_before h.kept hp hm hi
  alone i pc a hi := by
    simp only [Link.step]
    rcases Lock.Shared.act_eq (Party.step target) c.link i a with he | ⟨p, m, hp, hm, he⟩
    · obtain ⟨hlt, hget⟩ := List.getElem?_eq_some_iff.1 hi
      rw [he]
      refine ⟨rfl, pc, ?_⟩
      rw [← hget, List.set_getElem_self]
    · rw [hi] at hp
      cases hp
      obtain ⟨pc', hto⟩ := WaitPc.step_to hm
      rw [he]
      refine ⟨hto.resource, pc', ?_⟩
      simp only [hto.party, hto.spawned, hto.tell, List.map_id, List.append_nil]
  called := ⟨rfl, rfl⟩

/-- **`wait_connected` misses no wake-up and disturbs nothing.** For every link and every
interleaving of any number of calls of it with reconnect tasks, calls of `acquire`, commits and
drops. -/
theorem no_lost_wakeup (target : NodeId) (acts : List (LinkAct τ)) :
    (Lts.run (step target) (new : Chronicle τ) acts).NoLostWakeup target := by
  have h := Lts.run_inv (I := Watched (τ := τ)) (fun _ a hc => hc.step target a) acts new_watched
  exact h.noLostWakeup target

end Chronicle

end Snowpack
