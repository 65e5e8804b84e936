import Snowpack.Pool.History
import Snowpack.Pool.Proof.OneTask

/-!
# A dirty transport is never handed out again, and a clean one is never lost

`Chronicle.Kept` is the invariant of a link and its history: the number kept for the pair in the
state is the newest one, every guard that was handed out is where its flags say it is
(`Issued.At`), and a guard on the pair in the state is committed unless it is still alive. A new
guard is handed out by the owner of the mutex, so at that moment every earlier guard on the pair has
been released, and committed before (`Kept.handOut`). `StepDeed` is what one step of a party does to
the history; the invariant follows from it alone.
-/

namespace Snowpack

variable {τ : Type}

/-! ## What a step does to the history -/

namespace Issued

/-- Where the call of a guard is in its code. -/
def At (g : Issued) : AcquirePc → Prop
  | .guard committed => g.committed = committed ∧ g.released = false
  | .spawning => g.committed = false ∧ g.released = false
  | .releasing => g.released = false
  | .gone => g.released = true
  | _ => False

theorem At.holds_or_released {g : Issued} {pc : AcquirePc} (h : g.At pc) :
    (Party.acquire pc : Party τ).holds = true ∨ g.released = true := by
  cases pc with
  | guard b => exact .inl rfl
  | spawning => exact .inl rfl
  | releasing => exact .inl rfl
  | gone => exact .inr h
  | _ => exact h.elim

@[simp] theorem note_call (i : Nat) (d : Option Deed) (g : Issued) :
    (g.note i d).call = g.call := by
  unfold note
  split
  · rfl
  · split
    · split <;> rfl
    · rfl
    · rfl

@[simp] theorem note_pair (i : Nat) (d : Option Deed) (g : Issued) :
    (g.note i d).pair = g.pair := by
  unfold note
  split
  · rfl
  · split
    · split <;> rfl
    · rfl
    · rfl

theorem note_ne {i : Nat} {g : Issued} (d : Option Deed) (h : g.call ≠ i) : g.note i d = g :=
  if_pos h

/-- Only a `commit` commits. -/
theorem note_committed {i : Nat} {d : Option Deed} {g : Issued} (h : d ≠ some .committed) :
    (g.note i d).committed = g.committed := by
  unfold note
  split
  · rfl
  · split
    · exact absurd rfl h
    · rfl
    · rfl

/-- A flag that is set stays set. -/
theorem note_mono (i : Nat) (d : Option Deed) {g : Issued} :
    (g.committed = true → (g.note i d).committed = true) ∧
      (g.released = true → (g.note i d).released = true) := by
  unfold note
  split
  · exact ⟨id, id⟩
  · split
    · split
      · exact ⟨id, id⟩
      · exact ⟨fun _ => rfl, id⟩
    · exact ⟨id, fun _ => rfl⟩
    · exact ⟨id, id⟩

end Issued

namespace Party

@[simp] theorem deed_self (p : Party τ) : p.deed p = none := by
  unfold deed
  split
  all_goals simp_all

/-- What a step does that the history is about. -/
structure StepDeed (s : LinkState τ) (p : Party τ) (a : PartyAct τ) (m : LinkMove τ) : Prop where
  holds : ∀ d, p.deed m.party = some d → d ≠ .registered → p.holds = true
  installed : p.deed m.party = some .installed → p.owes = true ∧ m.resource.isConnected = true
  handedOut : p.deed m.party = some .handedOut →
    p = .acquire .matching ∧ s.isConnected = true ∧ m.party = .acquire (.guard false)
  reset : p.deed m.party = some .reset →
    p = .acquire (.guard false) ∧ a = .drop ∧ m.resource = .reconnecting
  /-- `commit` on a guard that is alive, and nothing else -/
  committed : p.deed m.party = some .committed ↔ p = .acquire (.guard false) ∧ a = .commit
  /-- nothing else changes which pair is in the state -/
  quiet : p.deed m.party ≠ some .installed → p.deed m.party ≠ some .reset →
    m.resource = s ∨ ∃ t t', s = .connected t ∧ m.resource = .connected t' ∧
      p = .acquire (.guard false) ∧ a = .transport t'
  /-- a guard that is neither committed nor dropped stays -/
  stays : p = .acquire (.guard false) → p.deed m.party = some .reset ∨
    p.deed m.party = some .committed ∨ m.party = .acquire (.guard false)
  guard : ∀ b, m.party = .acquire (.guard b) →
    p.deed m.party = some .handedOut ∨ ∃ b', p = .acquire (.guard b')
  spawned : ∀ q ∈ m.spawned, q = .reconnectTask

/-- A step with no deed that leaves the state of the link alone. -/
theorem StepDeed.silent {s : LinkState τ} {p p' : Party τ} {a : PartyAct τ} {c : Lock.Claim}
    (hd : p.deed p' = none ∨ p.deed p' = some .registered) (hs : p ≠ .acquire (.guard false))
    (hg : ∀ b, p' = .acquire (.guard b) → ∃ b', p = .acquire (.guard b')) :
    StepDeed s p a { party := p', resource := s, claim := c } := by
  constructor
  · intro d he hne
    rcases hd with hd | hd
    · rw [hd] at he
      cases he
    · rw [hd] at he
      cases he
      exact absurd rfl hne
  · intro he
    rcases hd with hd | hd <;> rw [hd] at he <;> cases he
  · intro he
    rcases hd with hd | hd <;> rw [hd] at he <;> cases he
  · intro he
    rcases hd with hd | hd <;> rw [hd] at he <;> cases he
  · refine ⟨fun he => ?_, fun hc => absurd hc.1 hs⟩
    rcases hd with hd | hd <;> rw [hd] at he <;> cases he
  · exact fun _ _ => .inl rfl
  · exact fun hp => absurd hp hs
  · exact fun b hb => .inr (hg b hb)
  · simp

theorem task_deed {target : NodeId} {s : LinkState τ} {free : Bool} {pc : TaskPc τ}
    {a : PartyAct τ} {m : LinkMove τ} (h : pc.step target s free a = some m) :
    StepDeed s (.task pc) a m := by
  cases TaskPc.step_moves h with
  | connected | failed | slept | locked | left => exact .silent (.inl rfl) (by simp) (by simp)
  | published t => constructor <;> simp [deed, owes, Party.holds, LinkState.isConnected]
  | notified => constructor <;> simp [deed]

theorem acquire_deed {s : LinkState τ} {free : Bool} {pc : AcquirePc} {a : PartyAct τ}
    {m : LinkMove τ} (h : pc.step s free a = some m) (hv : (Party.acquire pc).View s) :
    StepDeed s (.acquire pc) a m := by
  cases AcquirePc.step_moves h with
  | locked | cancelled | gaveBack | notReady | dropped =>
    exact .silent (.inl rfl) (by simp) (by simp)
  | handedOut hs =>
    subst hs
    constructor <;> simp [deed, Party.holds, LinkState.isConnected]
  | used t hs =>
    -- the halves are used in place
    subst hs
    constructor <;> simp [deed]
  | panicked t hs =>
    subst hs
    cases hv
  | committed => constructor <;> simp [deed, Party.holds]
  | reset => constructor <;> simp [deed, Party.holds]
  | spawned => constructor <;> simp [deed]
  | released => constructor <;> simp [deed, Party.holds]

theorem wait_deed {s : LinkState τ} {free : Bool} {pc : WaitPc} {a : PartyAct τ}
    {m : LinkMove τ} (h : pc.step s free a = some m) : StepDeed s (.wait pc) a m := by
  cases WaitPc.step_moves h with
  -- the next turn of the loop makes its `Notified`
  | woken => exact .silent (.inr rfl) (by simp) (by simp)
  | locked | cancelled | gaveBack | connected | parked | expired | abandoned =>
    exact .silent (.inl rfl) (by simp) (by simp)

theorem step_deed {target : NodeId} {s : LinkState τ} {free : Bool} {p : Party τ} {a : PartyAct τ}
    {m : LinkMove τ} (h : Party.step target s free p a = some m) (hv : p.View s) :
    StepDeed s p a m := by
  cases p with
  | task pc => exact task_deed h
  | acquire pc => exact acquire_deed h hv
  | wait pc => exact wait_deed h

/-- The flags of a guard follow its call. -/
theorem at_step {s : LinkState τ} {free : Bool} {pc : AcquirePc} {a : PartyAct τ} {m : LinkMove τ}
    {g : Issued} (h : pc.step s free a = some m) (hv : (Party.acquire pc).View s) (hat : g.At pc) :
    ∃ pc', m.party = .acquire pc' ∧ (g.note g.call ((Party.acquire pc).deed m.party)).At pc' := by
  cases AcquirePc.step_moves h with
  | locked | cancelled | gaveBack | handedOut | notReady => exact hat.elim
  | used t hs => exact ⟨_, rfl, by simpa [deed, Issued.note] using hat⟩
  | panicked t hs =>
    subst hs
    cases hv
  | committed =>
    obtain ⟨-, hr⟩ := hat
    exact ⟨_, rfl, by simp [deed, Issued.note, Issued.At, hr]⟩
  | reset =>
    obtain ⟨hc, hr⟩ := hat
    exact ⟨_, rfl, by simp [deed, Issued.note, Issued.At, hc, hr]⟩
  | dropped =>
    obtain ⟨-, hr⟩ := hat
    exact ⟨_, rfl, by simp [deed, Issued.note, Issued.At, hr]⟩
  | spawned => exact ⟨_, rfl, by simp [deed, Issued.note, Issued.At, hat.2]⟩
  | released => exact ⟨_, rfl, by simp [deed, Issued.note, Issued.At]⟩

end Party

/-! ## The invariant -/

namespace History

variable {h : History}

/-- Only a deed that installs or resets changes which pair is in the state. -/
theorem record_current {i : Nat} {d : Option Deed} (h1 : d ≠ some .installed)
    (h2 : d ≠ some .reset) : (h.record i d).current = h.current := by
  cases d with
  | none => rfl
  | some d =>
    cases d with
    | installed => exact absurd rfl h1
    | reset => exact absurd rfl h2
    | _ => rfl

@[simp] theorem record_none (i : Nat) : h.record i none = h := by
  have hn : ∀ g : Issued, g.note i none = g := by
    intro g
    simp [Issued.note]
  simp [record, hn]

/-- A call that is made is no deed of a guard. -/
theorem record_guards {d : Option Deed} (hd : d = none ∨ d = some .registered) (i : Nat) :
    (h.record i d).guards = h.guards := by
  have hn : ∀ g : Issued, g.note i d = g := by
    intro g
    rcases hd with rfl | rfl <;> simp [Issued.note]
  rcases hd with rfl | rfl <;> simp [record, hn]

/-- A guard in the history was there before, in the same place, or is the one just handed out. -/
theorem getElem?_record {i k : Nat} {d : Option Deed} {g : Issued}
    (hg : (h.record i d).guards[k]? = some g) :
    (∃ g₀, h.guards[k]? = some g₀ ∧ g = g₀.note i d) ∨
      (h.guards[k]? = none ∧ d = some .handedOut ∧ g = { call := i, pair := h.current }) := by
  simp only [record] at hg
  rcases Nat.lt_or_ge k h.guards.length with hlt | hge
  · left
    rw [List.getElem?_append_left (by simpa using hlt), List.getElem?_map] at hg
    obtain ⟨g₀, hg₀, rfl⟩ := Option.map_eq_some_iff.1 hg
    exact ⟨g₀, hg₀, rfl⟩
  · right
    refine ⟨List.getElem?_eq_none hge, ?_⟩
    rw [List.getElem?_append_right (by simpa using hge)] at hg
    split at hg
    · rename_i hd
      exact ⟨hd, List.mem_singleton.1 (List.mem_of_getElem? hg)⟩
    · cases hg

theorem mem_record {i : Nat} {d : Option Deed} {g : Issued} (hg : g ∈ (h.record i d).guards) :
    (∃ g₀ ∈ h.guards, g = g₀.note i d) ∨
      (d = some .handedOut ∧ g = { call := i, pair := h.current }) := by
  obtain ⟨k, hk⟩ := List.mem_iff_getElem?.1 hg
  rcases getElem?_record hk with ⟨g₀, hg₀, he⟩ | ⟨-, hd, he⟩
  · exact .inl ⟨g₀, List.mem_of_getElem? hg₀, he⟩
  · exact .inr ⟨hd, he⟩

theorem note_mem_record {i : Nat} {d : Option Deed} {g : Issued} (hg : g ∈ h.guards) :
    g.note i d ∈ (h.record i d).guards :=
  List.mem_append_left _ (List.mem_map_of_mem hg)

end History

namespace Chronicle

/-- Party `i` moved from `p` as `m` says, and the history has what it did. -/
def move (c : Chronicle τ) (i : Nat) (p : Party τ) (m : LinkMove τ) : Chronicle τ :=
  ⟨⟨m.resource, m.claim.apply i c.link.owner,
    (c.link.parties.map m.tell).set i m.party ++ m.spawned⟩, c.history.record i (p.deed m.party)⟩

theorem step_move {target : NodeId} {c : Chronicle τ} {i : Nat} {a : PartyAct τ} {p : Party τ}
    {m : LinkMove τ} (hp : c.link.parties[i]? = some p)
    (hm : Party.step target c.link.resource c.link.owner.isNone p a = some m) :
    c.step target (.party i a) = c.move i p m := by
  unfold step
  simp only [Link.step, Lock.Shared.act, hp, hm, observe, Lock.Shared.getElem?_moved hp, move]

/-- A step of a party does nothing, or is a move. -/
theorem step_party (target : NodeId) (c : Chronicle τ) (i : Nat) (a : PartyAct τ) :
    c.step target (.party i a) = c ∨ ∃ p m, c.link.parties[i]? = some p ∧
      Party.step target c.link.resource c.link.owner.isNone p a = some m ∧
      c.step target (.party i a) = c.move i p m := by
  rcases Lock.Shared.act_eq (Party.step target) c.link i a with he | ⟨p, m, hp, hm, -⟩
  · left
    unfold step
    simp only [Link.step, he, observe]
    cases hp : c.link.parties[i]? with
    | none => simp
    | some p => simp
  · exact .inr ⟨p, m, hp, hm, step_move hp hm⟩

/-- The invariant: how the history of a link goes with where its parties are. -/
structure Kept (c : Chronicle τ) : Prop where
  tended : c.link.Tended
  tracks : c.history.current.isSome = c.link.resource.isConnected
  newest : ∀ n, c.history.current = some n → n = c.history.installed
  numbered : ∀ g ∈ c.history.guards, ∃ n, g.pair = some n ∧ n ≤ c.history.installed
  placed : ∀ g ∈ c.history.guards, ∃ pc, c.link.parties[g.call]? = some (.acquire pc) ∧ g.At pc
  /-- a guard on the pair in the state is committed, or not dropped yet -/
  kept : ∀ g ∈ c.history.guards, g.pair = c.history.current →
    g.committed = true ∨ c.link.parties[g.call]? = some (.acquire (.guard false))
  /-- of two guards on one pair the first was committed and then released -/
  ordered : c.history.guards.Pairwise fun g g' =>
    g.pair = g'.pair → g.committed = true ∧ g.released = true
  issued : ∀ i b, c.link.parties[i]? = some (.acquire (.guard b)) →
    ∃ g ∈ c.history.guards, g.call = i ∧ g.pair = c.history.current

theorem new_kept : (new : Chronicle τ).Kept where
  tended := Link.new_tended
  tracks := rfl
  newest n hn := by cases hn
  numbered g hg := by cases hg
  placed g hg := by cases hg
  kept g hg := by cases hg
  ordered := List.Pairwise.nil
  issued i b hi := by
    have := List.mem_singleton.1 (List.mem_of_getElem? hi)
    cases this

/-! ## A step keeps it -/

section
variable {target : NodeId} {c : Chronicle τ} {i : Nat} {a : PartyAct τ} {p : Party τ}
  {m : LinkMove τ}

/-- Being told does not move a call of `acquire`. -/
theorem tell_acquire (hm : Party.step target c.link.resource c.link.owner.isNone p a = some m)
    (q : Party τ) (pc : AcquirePc) : m.tell q = .acquire pc ↔ q = .acquire pc := by
  rcases (Party.step_ok hm).tell with he | he
  · rw [he]
    rfl
  · rw [he]
    unfold Party.notified
    split <;> simp

/-- The other calls of `acquire` stay where they are. -/
theorem move_acquire (hp : c.link.parties[i]? = some p)
    (hm : Party.step target c.link.resource c.link.owner.isNone p a = some m)
    (hd : Party.StepDeed c.link.resource p a m) {j : Nat} (hj : j ≠ i) (pc : AcquirePc) :
    (c.move i p m).link.parties[j]? = some (.acquire pc) ↔
      c.link.parties[j]? = some (.acquire pc) := by
  constructor
  · intro h
    rcases Lock.getElem?_after h (List.getElem?_eq_some_iff.1 hp).1 with
      ⟨rfl, -⟩ | ⟨-, q, hq, he⟩ | ⟨-, hq⟩
    · exact absurd rfl hj
    · rw [hq, (tell_acquire hm q pc).1 he.symm]
    · -- only reconnect tasks are spawned
      cases hd.spawned _ hq
  · intro h
    exact (Lock.Shared.getElem?_told h hj.symm).trans (by rw [(tell_acquire hm _ pc).2 rfl])

namespace Kept

/-- The owner of the mutex is alone: a guard of another call has been released. -/
theorem released_of_owner (h : c.Kept) (hp : c.link.parties[i]? = some p) (hh : p.holds = true)
    {g : Issued} (hg : g ∈ c.history.guards) (hne : g.call ≠ i) : g.released = true := by
  obtain ⟨pc, hpc, hat⟩ := h.placed g hg
  rcases hat.holds_or_released (τ := τ) with hh' | hr
  · exact absurd (h.tended.owned.unique hpc hp hh' hh) hne
  · exact hr

/-- While a call of `acquire` matches on the state, every guard on the pair there has been
committed and released. -/
theorem handOut (h : c.Kept) (hp : c.link.parties[i]? = some (.acquire .matching)) {g : Issued}
    (hg : g ∈ c.history.guards) (hpair : g.pair = c.history.current) :
    g.committed = true ∧ g.released = true := by
  have hne : g.call ≠ i := by
    intro he
    obtain ⟨pc, hpc, hat⟩ := h.placed g hg
    rw [he, hp] at hpc
    cases hpc
    exact hat
  refine ⟨?_, h.released_of_owner hp rfl hg hne⟩
  rcases h.kept g hg hpair with hc | hlive
  · exact hc
  · exact absurd (h.tended.owned.unique hlive hp rfl rfl) hne

theorem move_tracks (h : c.Kept) (hd : Party.StepDeed c.link.resource p a m) :
    (c.move i p m).history.current.isSome = m.resource.isConnected := by
  by_cases h1 : p.deed m.party = some .installed
  · rw [(hd.installed h1).2]
    simp only [move, h1]
    rfl
  by_cases h2 : p.deed m.party = some .reset
  · rw [(hd.reset h2).2.2]
    simp only [move, h2]
    rfl
  · have hcur : (c.move i p m).history.current = c.history.current :=
      History.record_current h1 h2
    rw [hcur, h.tracks]
    rcases hd.quiet h1 h2 with hq | ⟨t, t', hs, hr, -⟩
    · rw [hq]
    · rw [hs, hr]
      rfl

theorem move_newest (h : c.Kept) {n : Nat} (hn : (c.move i p m).history.current = some n) :
    n = (c.move i p m).history.installed := by
  simp only [move] at hn ⊢
  by_cases h1 : p.deed m.party = some .installed
  · rw [h1] at hn ⊢
    exact (Option.some.inj hn).symm
  by_cases h2 : p.deed m.party = some .reset
  · rw [h2] at hn
    cases hn
  · rw [History.record_current h1 h2] at hn
    simpa only [History.record, h1, ↓reduceIte] using h.newest n hn

theorem move_numbered (h : c.Kept) (hd : Party.StepDeed c.link.resource p a m) {g : Issued}
    (hg : g ∈ (c.move i p m).history.guards) :
    ∃ n, g.pair = some n ∧ n ≤ (c.move i p m).history.installed := by
  have hle : c.history.installed ≤ (c.move i p m).history.installed := by
    simp only [move, History.record]
    split <;> omega
  rcases History.mem_record hg with ⟨g₀, hg₀, rfl⟩ | ⟨he, rfl⟩
  · obtain ⟨n, hn, hn'⟩ := h.numbered g₀ hg₀
    exact ⟨n, by rw [Issued.note_pair, hn], by omega⟩
  · -- the state is connected, so its pair has a number
    obtain ⟨n, hn⟩ := Option.isSome_iff_exists.1 (h.tracks.trans (hd.handedOut he).2.1)
    have := h.newest n hn
    exact ⟨n, hn, by omega⟩

theorem move_placed (h : c.Kept) (hp : c.link.parties[i]? = some p)
    (hm : Party.step target c.link.resource c.link.owner.isNone p a = some m)
    (hd : Party.StepDeed c.link.resource p a m) {g : Issued}
    (hg : g ∈ (c.move i p m).history.guards) :
    ∃ pc, (c.move i p m).link.parties[g.call]? = some (.acquire pc) ∧ g.At pc := by
  have hself : (c.move i p m).link.parties[i]? = some m.party := Lock.Shared.getElem?_moved hp
  have hv := h.tended.view p (List.mem_of_getElem? hp)
  rcases History.mem_record hg with ⟨g₀, hg₀, rfl⟩ | ⟨he, rfl⟩
  · obtain ⟨pc, hpc, hat⟩ := h.placed g₀ hg₀
    rw [Issued.note_call]
    by_cases hi : g₀.call = i
    · subst hi
      rw [hp] at hpc
      cases hpc
      obtain ⟨pc', hpc', hat'⟩ := Party.at_step hm hv hat
      exact ⟨pc', by rw [hself, hpc'], hat'⟩
    · rw [Issued.note_ne _ hi]
      exact ⟨pc, (move_acquire hp hm hd hi pc).2 hpc, hat⟩
  · exact ⟨.guard false, by rw [hself, (hd.handedOut he).2.2], rfl, rfl⟩

theorem move_kept (h : c.Kept) (hp : c.link.parties[i]? = some p)
    (hm : Party.step target c.link.resource c.link.owner.isNone p a = some m)
    (hd : Party.StepDeed c.link.resource p a m) {g : Issued}
    (hg : g ∈ (c.move i p m).history.guards)
    (hpair : g.pair = (c.move i p m).history.current) :
    g.committed = true ∨
      (c.move i p m).link.parties[g.call]? = some (.acquire (.guard false)) := by
  have hself : (c.move i p m).link.parties[i]? = some m.party := Lock.Shared.getElem?_moved hp
  rcases History.mem_record hg with ⟨g₀, hg₀, rfl⟩ | ⟨he, rfl⟩
  · obtain ⟨n, hn, hle⟩ := h.numbered g₀ hg₀
    rw [Issued.note_pair, hn] at hpair
    -- the pair in the state was there before this step
    have h1 : p.deed m.party ≠ some .installed := by
      intro he
      simp only [move, he] at hpair
      have := Option.some.inj hpair
      omega
    have h2 : p.deed m.party ≠ some .reset := by
      intro he
      simp only [move, he] at hpair
      cases hpair
    have hcur : (c.move i p m).history.current = c.history.current := History.record_current h1 h2
    rw [Issued.note_call]
    rcases h.kept g₀ hg₀ (by rw [hn, hpair, hcur]) with hc | hlive
    · exact .inl ((Issued.note_mono i _).1 hc)
    by_cases hi : g₀.call = i
    · rw [hi, hp] at hlive
      cases hlive
      rcases hd.stays rfl with he | he | he
      · exact absurd he h2
      · -- the guard is committed by this step, and it has not been released
        obtain ⟨pc, hpc, hat⟩ := h.placed g₀ hg₀
        rw [hi, hp] at hpc
        cases hpc
        left
        simp only [Issued.note, hi, he, hat.2, ne_eq, not_true_eq_false, ↓reduceIte,
          Bool.false_eq_true]
      · right
        rw [hi, hself, he]
    · exact .inr ((move_acquire hp hm hd hi _).2 hlive)
  · exact .inr (by rw [hself, (hd.handedOut he).2.2])

theorem move_ordered (h : c.Kept) (hp : c.link.parties[i]? = some p)
    (hd : Party.StepDeed c.link.resource p a m) :
    (c.move i p m).history.guards.Pairwise fun g g' =>
      g.pair = g'.pair → g.committed = true ∧ g.released = true := by
  have hmap : (c.history.guards.map (·.note i (p.deed m.party))).Pairwise fun g g' =>
      g.pair = g'.pair → g.committed = true ∧ g.released = true := by
    rw [List.pairwise_map]
    refine h.ordered.imp fun {g g'} hgg hpair => ?_
    rw [Issued.note_pair, Issued.note_pair] at hpair
    exact (hgg hpair).imp (Issued.note_mono i _).1 (Issued.note_mono i _).2
  simp only [move, History.record]
  split
  · -- the new guard is the last one, and all before it on this pair are done
    rename_i he
    rw [List.pairwise_append]
    refine ⟨hmap, List.pairwise_singleton _ _, ?_⟩
    intro g hg g' hg' hpair
    rw [List.mem_singleton.1 hg'] at hpair
    obtain ⟨g₀, hg₀, rfl⟩ := List.mem_map.1 hg
    rw [Issued.note_pair] at hpair
    rw [(hd.handedOut he).1] at hp
    exact (h.handOut hp hg₀ hpair).imp (Issued.note_mono i _).1 (Issued.note_mono i _).2
  · rw [List.append_nil]
    exact hmap

theorem move_issued (h : c.Kept) (hp : c.link.parties[i]? = some p)
    (hm : Party.step target c.link.resource c.link.owner.isNone p a = some m)
    (hd : Party.StepDeed c.link.resource p a m) {j : Nat} {b : Bool}
    (hj : (c.move i p m).link.parties[j]? = some (.acquire (.guard b))) :
    ∃ g ∈ (c.move i p m).history.guards, g.call = j ∧ g.pair = (c.move i p m).history.current := by
  have hself : (c.move i p m).link.parties[i]? = some m.party := Lock.Shared.getElem?_moved hp
  by_cases he : p.deed m.party = some .handedOut
  · have hcur : (c.move i p m).history.current = c.history.current := by
      refine History.record_current ?_ ?_ <;> rw [he] <;> simp
    by_cases hi : j = i
    · refine ⟨{ call := i, pair := c.history.current }, ?_, hi.symm, hcur.symm⟩
      simp [move, History.record, he]
    · -- another guard would hold the mutex too
      have hj' := (move_acquire hp hm hd hi _).1 hj
      rw [(hd.handedOut he).1] at hp
      exact absurd (h.tended.owned.unique hj' hp rfl rfl) hi
  · -- the guard was there before, and so was the pair in the state
    obtain ⟨⟨b', hb'⟩, h1, h2⟩ : (∃ b', c.link.parties[j]? = some (.acquire (.guard b'))) ∧
        p.deed m.party ≠ some .installed ∧ p.deed m.party ≠ some .reset := by
      by_cases hi : j = i
      · rw [hi, hself] at hj
        have hmp := Option.some.inj hj
        rcases hd.guard b hmp with he' | ⟨b', hb'⟩
        · exact absurd he' he
        · refine ⟨⟨b', by rw [hi, hp, hb']⟩, ?_⟩
          rw [hb', hmp]
          cases b' <;> cases b <;> simp [Party.deed]
      · have hj' := (move_acquire hp hm hd hi _).1 hj
        have hnot : ∀ d, p.deed m.party = some d → d = .registered := by
          intro d hdd
          by_contra hne
          exact hi (h.tended.owned.unique hj' hp rfl (hd.holds d hdd hne))
        refine ⟨⟨b, hj'⟩, fun hdd => ?_, fun hdd => ?_⟩
        · cases hnot _ hdd
        · cases hnot _ hdd
    obtain ⟨g, hg, hcall, hpair⟩ := h.issued j b' hb'
    have hcur : (c.move i p m).history.current = c.history.current := History.record_current h1 h2
    refine ⟨_, History.note_mem_record hg, ?_, ?_⟩
    · rw [Issued.note_call, hcall]
    · rw [Issued.note_pair, hpair, hcur]

/-- A guard is committed after a move if it was before, or if the move is its `commit`. -/
theorem move_commits (h : c.Kept) (hp : c.link.parties[i]? = some p)
    (hd : Party.StepDeed c.link.resource p a m) {k : Nat} {g : Issued}
    (hg : (c.move i p m).history.guards[k]? = some g) :
    g.committed = true ↔ (∃ g₀, c.history.guards[k]? = some g₀ ∧ g₀.committed = true) ∨
      (i = g.call ∧ a = .commit) ∧
        c.link.parties[g.call]? = some (.acquire (.guard false)) := by
  rcases History.getElem?_record hg with ⟨g₀, hg₀, rfl⟩ | ⟨hnone, he, rfl⟩
  · have hbefore : (∃ g₁, c.history.guards[k]? = some g₁ ∧ g₁.committed = true) ↔
        g₀.committed = true := by simp [hg₀]
    rw [hbefore, Issued.note_call]
    by_cases hc : p.deed m.party = some .committed
    · obtain ⟨rfl, rfl⟩ := hd.committed.1 hc
      by_cases hi : i = g₀.call
      · -- the guard is alive, so it has not been released
        obtain ⟨pc, hpc, hat⟩ := h.placed g₀ (List.mem_of_getElem? hg₀)
        rw [← hi, hp] at hpc
        cases hpc
        simp [Issued.note, hc, hi.symm, hat.2, hp]
      · rw [Issued.note_ne _ (Ne.symm hi)]
        simp [hi]
    · rw [Issued.note_committed hc]
      refine ⟨.inl, ?_⟩
      rintro (hb | ⟨⟨rfl, ha⟩, hlive⟩)
      · exact hb
      · rw [hp] at hlive
        exact absurd (hd.committed.2 ⟨Option.some.inj hlive, ha⟩) hc
  · -- the guard that was just handed out
    refine ⟨(fun hc => by cases hc), ?_⟩
    rintro (⟨g₀, hg₀, -⟩ | ⟨⟨-, ha⟩, hlive⟩)
    · rw [hnone] at hg₀
      cases hg₀
    · rw [hp] at hlive
      have hc := hd.committed.2 ⟨Option.some.inj hlive, ha⟩
      rw [he] at hc
      cases hc

/-- A new call of `acquire` or `wait_connected`. -/
theorem join (h : c.Kept) {q : Party τ} {d : Option Deed} (hh : q.holds = false)
    (ho : q.owes = false) (hd : d = none ∨ d = some .registered) (i : Nat) :
    Kept ⟨Lock.Shared.join c.link q, c.history.record i d⟩ := by
  have hguards := History.record_guards (h := c.history) hd i
  have hcur : (c.history.record i d).current = c.history.current := by
    rcases hd with rfl | rfl <;> rfl
  have hinst : (c.history.record i d).installed = c.history.installed := by
    rcases hd with rfl | rfl <;> rfl
  have hold : ∀ (j : Nat) (p : Party τ), c.link.parties[j]? = some p →
      (Lock.Shared.join c.link q).parties[j]? = some p := by
    intro j p hj
    exact (List.getElem?_append_left (List.getElem?_eq_some_iff.1 hj).1).trans hj
  constructor
  · exact h.tended.join hh ho
  · simp only [hcur]
    exact h.tracks
  · simp only [hcur, hinst]
    exact h.newest
  · simp only [hguards, hinst]
    exact h.numbered
  · simp only [hguards]
    intro g hg
    obtain ⟨pc, hpc, hat⟩ := h.placed g hg
    exact ⟨pc, hold _ _ hpc, hat⟩
  · simp only [hguards, hcur]
    intro g hg hpair
    exact (h.kept g hg hpair).imp id (hold _ _)
  · simp only [hguards]
    exact h.ordered
  · simp only [hguards, hcur]
    intro j b hj
    rcases Lock.Shared.getElem?_join hj with ⟨-, hj⟩ | ⟨-, rfl⟩
    · exact h.issued j b hj
    · -- the new party is not a guard: it does not hold the mutex
      cases hh

/-- A step of the link. -/
theorem step (h : c.Kept) (target : NodeId) (a : LinkAct τ) : (c.step target a).Kept := by
  cases a with
  | acquire => exact h.join rfl rfl (.inl rfl) _
  | waitConnected => exact h.join rfl rfl (.inr rfl) _
  | party i a =>
    have ht := Link.step_tended target h.tended (.party i a)
    rcases c.step_party target i a with he | ⟨p, m, hp, hm, he⟩
    · rw [he]
      exact h
    · have hd := Party.step_deed hm (h.tended.view p (List.mem_of_getElem? hp))
      have hlink : c.link.step target (.party i a) = (c.move i p m).link := by
        rw [← he]
        rfl
      rw [hlink] at ht
      rw [he]
      exact ⟨ht, h.move_tracks hd, fun n hn => h.move_newest hn,
        fun g hg => h.move_numbered hd hg, fun g hg => h.move_placed hp hm hd hg,
        fun g hg hpair => h.move_kept hp hm hd hg hpair, h.move_ordered hp hd,
        fun j b hj => h.move_issued hp hm hd hj⟩

end Kept

end

/-! ## The theorem -/

/-- What holds of the pairs and the guards of a link. -/
structure CleanHandover (target : NodeId) (c : Chronicle τ) : Prop where
  /-- the pair in the state is the one installed last -/
  connected : ∀ t, c.link.resource = .connected t →
    c.history.current = some c.history.installed
  reconnecting : c.link.resource = .reconnecting → c.history.current = none
  /-- a guard refers to it, from the moment `acquire` returns the guard -/
  latest : ∀ i b, c.link.parties[i]? = some (.acquire (.guard b)) →
    c.history.current = some c.history.installed ∧
      ∃ g ∈ c.history.guards, g.call = i ∧ g.pair = some c.history.installed
  /-- of two guards on one pair, the earlier one was committed before it was released -/
  clean : c.history.guards.Pairwise fun g g' =>
    g.pair = g'.pair → g.committed = true ∧ g.released = true
  /-- a guard is committed by a `commit` of its call while it is alive, and by no other step -/
  commits : ∀ (a : LinkAct τ) (k : Nat) (g : Issued),
    (c.step target a).history.guards[k]? = some g →
    (g.committed = true ↔ (∃ g₀, c.history.guards[k]? = some g₀ ∧ g₀.committed = true) ∨
      a = .party g.call .commit ∧ c.link.parties[g.call]? = some (.acquire (.guard false)))
  /-- a pair leaves the state only when an uncommitted guard is dropped -/
  discarded : ∀ a n, c.history.current = some n →
    (c.step target a).history.current = some n ∨
    ∃ i, a = .party i .drop ∧ c.link.parties[i]? = some (.acquire (.guard false)) ∧
      (c.step target a).link.resource = .reconnecting
  /-- until then its halves are changed only by the owner of a guard -/
  state : ∀ a t, c.link.resource = .connected t →
    (c.step target a).link.resource = .connected t ∨
    (∃ i t', a = .party i (.transport t') ∧ c.link.parties[i]? = some (.acquire (.guard false)) ∧
      (c.step target a).link.resource = .connected t') ∨
    ∃ i, a = .party i .drop ∧ c.link.parties[i]? = some (.acquire (.guard false)) ∧
      (c.step target a).link.resource = .reconnecting
  /-- no reconnect task overwrites a `Connected` state -/
  publishing : ∀ (i : Nat) (t : τ), c.link.parties[i]? = some (.task (.publishing t)) →
    c.link.resource = .reconnecting

namespace Kept

variable {c : Chronicle τ}

theorem current_eq (h : c.Kept) {t : τ} (hs : c.link.resource = .connected t) :
    c.history.current = some c.history.installed := by
  have hsome : c.history.current.isSome = true := by
    rw [h.tracks, hs]
    rfl
  obtain ⟨n, hn⟩ := Option.isSome_iff_exists.1 hsome
  rw [hn, h.newest n hn]

theorem exists_connected (h : c.Kept) {n : Nat} (hn : c.history.current = some n) :
    ∃ t, c.link.resource = .connected t := by
  have hc := h.tracks
  rw [hn] at hc
  cases hs : c.link.resource with
  | connected t => exact ⟨t, rfl⟩
  | reconnecting =>
    rw [hs] at hc
    cases hc

/-- A task that is about to publish owes the connection that the link is short of. -/
theorem publishing_eq (h : c.Kept) {i : Nat} {p : Party τ} (hp : c.link.parties[i]? = some p)
    (ho : p.owes = true) : c.link.resource = .reconnecting := by
  have hpos : 0 < c.link.resource.short := by
    rw [← h.tended.debt]
    exact List.countP_pos_iff.2 ⟨p, List.mem_of_getElem? hp, ho⟩
  cases hs : c.link.resource with
  | connected t =>
    rw [hs] at hpos
    cases hpos
  | reconnecting => rfl

/-- What a step does to a connected link. -/
theorem step_connected (h : c.Kept) (target : NodeId) {t : τ} (hs : c.link.resource = .connected t)
    (a : LinkAct τ) :
    ((c.step target a).history.current = c.history.current ∧
      ((c.step target a).link.resource = .connected t ∨
        ∃ i t', a = .party i (.transport t') ∧
          c.link.parties[i]? = some (.acquire (.guard false)) ∧
          (c.step target a).link.resource = .connected t')) ∨
    ∃ i, a = .party i .drop ∧ c.link.parties[i]? = some (.acquire (.guard false)) ∧
      (c.step target a).link.resource = .reconnecting := by
  cases a with
  | acquire => exact .inl ⟨rfl, .inl hs⟩
  | waitConnected => exact .inl ⟨rfl, .inl hs⟩
  | party i a =>
    rcases c.step_party target i a with he | ⟨p, m, hp, hm, he⟩
    · rw [he]
      exact .inl ⟨rfl, .inl hs⟩
    rw [he]
    have hd := Party.step_deed hm (h.tended.view p (List.mem_of_getElem? hp))
    have h1 : p.deed m.party ≠ some .installed := by
      intro hd'
      have := h.publishing_eq hp (hd.installed hd').1
      rw [hs] at this
      cases this
    by_cases h2 : p.deed m.party = some .reset
    · obtain ⟨hg, ha, hr⟩ := hd.reset h2
      exact .inr ⟨i, by rw [ha], by rw [hp, hg], hr⟩
    · refine .inl ⟨History.record_current h1 h2, ?_⟩
      rcases hd.quiet h1 h2 with hq | ⟨t₀, t', -, hr, hg, ha⟩
      · exact .inl (hq.trans hs)
      · exact .inr ⟨i, t', by rw [ha], by rw [hp, hg], hr⟩

/-- The flag of a guard flips at its `commit`. -/
theorem step_commits (h : c.Kept) (target : NodeId) (a : LinkAct τ) (k : Nat) (g : Issued)
    (hg : (c.step target a).history.guards[k]? = some g) :
    g.committed = true ↔ (∃ g₀, c.history.guards[k]? = some g₀ ∧ g₀.committed = true) ∨
      a = .party g.call .commit ∧
        c.link.parties[g.call]? = some (.acquire (.guard false)) := by
  have hcall : ∀ {d : Option Deed} {i : Nat}, d = none ∨ d = some .registered →
      (c.history.record i d).guards[k]? = some g →
      (g.committed = true ↔ ∃ g₀, c.history.guards[k]? = some g₀ ∧ g₀.committed = true) := by
    intro d i hd hk
    rw [History.record_guards hd i] at hk
    simp [hk]
  cases a with
  | acquire => simpa using hcall (.inl rfl) hg
  | waitConnected => simpa using hcall (.inr rfl) hg
  | party i a =>
    simp only [LinkAct.party.injEq]
    rcases c.step_party target i a with he | ⟨p, m, hp, hm, he⟩
    · rw [he] at hg
      refine ⟨fun hc => .inl ⟨g, hg, hc⟩, ?_⟩
      rintro (⟨g₀, hg₀, hc⟩ | ⟨⟨rfl, rfl⟩, hlive⟩)
      · rw [hg] at hg₀
        cases hg₀
        exact hc
      · -- a `commit` on a guard that is alive does something
        let m : LinkMove τ := { party := .acquire (.guard true), resource := c.link.resource }
        have hmove : c.step target (.party g.call .commit) = c.move g.call _ m :=
          step_move hlive rfl
        have hself : (c.move g.call (.acquire (.guard false)) m).link.parties[g.call]? =
            some (.acquire (.guard true)) := Lock.Shared.getElem?_moved hlive
        rw [← hmove, he, hlive] at hself
        cases hself
    · rw [he] at hg
      exact h.move_commits hp (Party.step_deed hm (h.tended.view p (List.mem_of_getElem? hp))) hg

theorem cleanHandover (h : c.Kept) (target : NodeId) : c.CleanHandover target where
  connected t hs := h.current_eq hs
  reconnecting hs := by
    rw [← Option.isNone_iff_eq_none, ← Option.not_isSome, h.tracks, hs]
    rfl
  latest i b hi := by
    obtain ⟨g, hg, hcall, hpair⟩ := h.issued i b hi
    obtain ⟨n, hn, -⟩ := h.numbered g hg
    have hcur := hpair.symm.trans hn
    rw [h.newest n hcur] at hn hcur
    exact ⟨hcur, g, hg, hcall, hn⟩
  clean := h.ordered
  commits := h.step_commits target
  discarded a n hn := by
    obtain ⟨t, hs⟩ := h.exists_connected hn
    rcases h.step_connected target hs a with ⟨hcur, -⟩ | hdrop
    · exact .inl (hcur.trans hn)
    · exact .inr hdrop
  state a t hs := by
    rcases h.step_connected target hs a with ⟨-, hst | hst⟩ | hdrop
    · exact .inl hst
    · exact .inr (.inl hst)
    · exact .inr (.inr hdrop)
  publishing i t hp := h.publishing_eq hp rfl

end Kept

/-- **A dirty transport is never handed out again and a clean one is never lost.** For every link
and every interleaving of its reconnect tasks, of any calls of `acquire` and `wait_connected`,
completed or cancelled, and of the commits and drops of the guards. -/
theorem clean_handover (target : NodeId) (acts : List (LinkAct τ)) :
    (Lts.run (step target) (new : Chronicle τ) acts).CleanHandover target := by
  have h := Lts.run_inv (I := Kept (τ := τ)) (fun _ a hc => hc.step target a) acts new_kept
  exact h.cleanHandover target

/-- Two guards on the first pair, the second one dropped uncommitted; the next guard is on the
second pair. -/
example :
    (Lts.run (step ⟨[2]⟩) (new : Chronicle Nat)
      [.party 0 (.attempt (.ok (7, ⟨⟨[2]⟩, none⟩))), .party 0 .lock, .party 0 .run, .party 0 .run,
        .party 0 .run, .acquire, .party 1 .lock, .party 1 .run, .party 1 .commit, .party 1 .drop,
        .party 1 .run, .acquire, .party 2 .lock, .party 2 .run, .party 2 .drop, .party 2 .run,
        .party 2 .run, .party 3 (.attempt (.ok (8, ⟨⟨[2]⟩, none⟩))), .party 3 .lock, .party 3 .run,
        .party 3 .run, .party 3 .run, .acquire, .party 4 .lock, .party 4 .run]).history.guards =
      [⟨1, some 1, true, true⟩, ⟨2, some 1, false, true⟩, ⟨4, some 2, false, false⟩] := by
  decide

end Chronicle

end Snowpack
