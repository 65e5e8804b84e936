import Mathlib.Algebra.GroupWithZero.Nat
import Mathlib.Data.List.Basic
import Mathlib.Data.Option.Basic
import Mathlib.Tactic.Common
import Snowpack.Lib.Run

/-!
# Programs that share a resource behind a lock

`Shared P R` is a resource of type `R`, a lock on it, and a list of parties with a local state of
type `P` each. A `Program` says what a party does next: from the resource, whether the lock is free,
its local state and an outside event it computes a `Move`, that is its new local state, the new
resource, what it does with the lock, the parties it spawns and what it tells the others. Nothing is
assumed of the order in which waiting parties get the lock.

Which local states own the lock is a property `holds` of them. A program is `Disciplined` when it
takes the lock only if it is free, gives it back only if it has it, and changes the resource only
while it has it; then the lock is owned by at most one party, at any time (`act_owned`). Two rules
for such programs: what the owner has seen of the resource stays true (`act_view`), since nobody
else changes it; and what the parties owe is what the resource is short of (`act_balanced`). For any
program: what no move breaks, of the resource and of each party, stays true (`act_forall`).

To a specification the resource and what the owner of the lock shows of its local state are one
state (`Shared.shown`). It is enough to say of one move of one party what the specification makes of
it (`act_refines`), since a party without the lock shows nothing.
-/

namespace Lock

variable {P R A : Type*}

/-- What a move does with the lock. -/
inductive Claim
  | keep
  | take
  | release
  deriving DecidableEq, Repr

/-- What a move makes of its party, the resource, the lock and the other parties. -/
structure Move (P R : Type*) where
  party : P
  resource : R
  claim : Claim := .keep
  spawned : List P := []
  tell : P → P := id

/-- A resource, who owns its lock, and the local states of the parties. -/
structure Shared (P R : Type*) where
  resource : R
  owner : Option Nat
  parties : List P

/-- The move of a party at an event, given the resource and whether the lock is free; `none` when
the party does not wait for it. -/
abbrev Program (P R A : Type*) := R → Bool → P → A → Option (Move P R)

/-- The owner after a move of party `i`. -/
def Claim.apply (i : Nat) (owner : Option Nat) : Claim → Option Nat
  | .keep => owner
  | .take => some i
  | .release => none

namespace Shared

/-- A new party. -/
def join (s : Shared P R) (p : P) : Shared P R := { s with parties := s.parties ++ [p] }

/-- A party after one has joined was there before, or is the new one. -/
theorem getElem?_join {s : Shared P R} {p q : P} {j : Nat} (h : (s.join p).parties[j]? = some q) :
    (j < s.parties.length ∧ s.parties[j]? = some q) ∨ (j = s.parties.length ∧ p = q) := by
  rcases Nat.lt_or_ge j s.parties.length with hlt | hge
  · rw [join, List.getElem?_append_left hlt] at h
    exact .inl ⟨hlt, h⟩
  · rw [join, List.getElem?_append_right hge] at h
    have hl := (List.getElem?_eq_some_iff.1 h).1
    have hq := List.mem_singleton.1 (List.mem_of_getElem? h)
    simp only [List.length_singleton] at hl
    exact .inr ⟨by omega, hq.symm⟩

/-- The next move of party `i`; an event it does not wait for changes nothing. -/
def act (prog : Program P R A) (s : Shared P R) (i : Nat) (a : A) : Shared P R :=
  match s.parties[i]? with
  | none => s
  | some p =>
    match prog s.resource s.owner.isNone p a with
    | none => s
    | some m =>
      { resource := m.resource
        owner := m.claim.apply i s.owner
        parties := (s.parties.map m.tell).set i m.party ++ m.spawned }

/-- A property of the states after a move, from the moves the program makes. -/
theorem act_cases {prog : Program P R A} {s : Shared P R} {i : Nat} {a : A}
    {I : Shared P R → Prop} (hs : I s)
    (hm : ∀ p m, s.parties[i]? = some p → prog s.resource s.owner.isNone p a = some m →
      I ⟨m.resource, m.claim.apply i s.owner, (s.parties.map m.tell).set i m.party ++ m.spawned⟩) :
    I (s.act prog i a) := by
  unfold act
  split
  · exact hs
  · rename_i p hp
    split
    · exact hs
    · rename_i m hstep
      exact hm p m hp hstep

/-- A move changes nothing, or it is one of the program's. -/
theorem act_eq (prog : Program P R A) (s : Shared P R) (i : Nat) (a : A) :
    s.act prog i a = s ∨ ∃ p m, s.parties[i]? = some p ∧
      prog s.resource s.owner.isNone p a = some m ∧ s.act prog i a =
        ⟨m.resource, m.claim.apply i s.owner,
          (s.parties.map m.tell).set i m.party ++ m.spawned⟩ := by
  unfold act
  split
  · exact .inl rfl
  · rename_i p hp
    split
    · exact .inl rfl
    · rename_i m hm
      exact .inr ⟨p, m, hp, hm, rfl⟩

/-- The party that moved. -/
theorem getElem?_moved {ps spawned : List P} {tell : P → P} {p p' : P} {i : Nat}
    (h : ps[i]? = some p) : ((ps.map tell).set i p' ++ spawned)[i]? = some p' := by
  have hi : i < ps.length := (List.getElem?_eq_some_iff.1 h).1
  rw [List.getElem?_append_left (by simpa using hi), List.getElem?_set_self (by simpa using hi)]

/-- Any other party. -/
theorem getElem?_told {ps spawned : List P} {tell : P → P} {p' q : P} {i j : Nat}
    (h : ps[j]? = some q) (hij : i ≠ j) :
    ((ps.map tell).set i p' ++ spawned)[j]? = some (tell q) := by
  have hj : j < ps.length := (List.getElem?_eq_some_iff.1 h).1
  rw [List.getElem?_append_left (by simpa using hj), List.getElem?_set_ne hij, List.getElem?_map, h]
  rfl

end Shared

/-! ## Forgetting a part of the local states -/

section
variable {P' R' A' : Type*}

/-- The system seen through `f` and `g`. -/
def Shared.map (f : P → P') (g : R → R') (s : Shared P R) : Shared P' R' :=
  { resource := g s.resource, owner := s.owner, parties := s.parties.map f }

/-- `m'` is `m` seen through `f` and `g`. -/
structure Move.Maps (f : P → P') (g : R → R') (m : Move P R) (m' : Move P' R') : Prop where
  party : m'.party = f m.party
  resource : m'.resource = g m.resource
  claim : m'.claim = m.claim
  spawned : m'.spawned = m.spawned.map f
  tell : ∀ q, m'.tell (f q) = f (m.tell q)

/-- Two programs whose moves correspond. -/
theorem Shared.map_act {f : P → P'} {g : R → R'} {prog : Program P R A} {prog' : Program P' R' A'}
    {s : Shared P R} {i : Nat} {a : A} {a' : A'}
    (h : ∀ p, Option.Rel (Move.Maps f g) (prog s.resource s.owner.isNone p a)
      (prog' (g s.resource) s.owner.isNone (f p) a')) :
    (s.act prog i a).map f g = (s.map f g).act prog' i a' := by
  simp only [act, map, List.getElem?_map]
  cases hp : s.parties[i]? with
  | none => rfl
  | some p =>
    have hrel := h p
    simp only [Option.map_some]
    revert hrel
    generalize prog s.resource s.owner.isNone p a = o
    generalize prog' (g s.resource) s.owner.isNone (f p) a' = o'
    intro hrel
    cases hrel with
    | none => rfl
    | @some m m' hm =>
      have htell : (s.parties.map m.tell).map f = (s.parties.map f).map m'.tell := by
        simp only [List.map_map]
        exact List.map_congr_left fun q _ => (hm.tell q).symm
      simp only [hm.party, hm.resource, hm.claim, hm.spawned, List.map_append, List.map_set, htell]

end

/-! ## Ownership -/

/-- The move does with the lock what its two local states say. -/
def Claim.Fits (holds : P → Bool) (free : Bool) (p p' : P) : Claim → Prop
  | .keep => holds p' = holds p
  | .take => free = true ∧ holds p' = true
  | .release => holds p = true ∧ holds p' = false

/-- The moves of a program take and release the lock as their local states say, and touch the
resource only under it. -/
structure Disciplined (holds : P → Bool) (prog : Program P R A) : Prop where
  fits : ∀ {r free p a m}, prog r free p a = some m → m.claim.Fits holds free p m.party
  alone : ∀ {r free p a m}, prog r free p a = some m → holds p = true ∨ m.resource = r
  spawned : ∀ {r free p a m}, prog r free p a = some m → ∀ q ∈ m.spawned, holds q = false
  tell : ∀ {r free p a m}, prog r free p a = some m → ∀ q, holds (m.tell q) = holds q

/-- The owner of the lock is the party whose local state says so. -/
structure Owned (holds : P → Bool) (s : Shared P R) : Prop where
  owner_iff : ∀ {i p}, s.parties[i]? = some p → (holds p = true ↔ s.owner = some i)
  valid : ∀ {i}, s.owner = some i → i < s.parties.length

/-- A property that holds at one index at most. -/
theorem countP_le_one_of_unique {b : P → Bool} : ∀ {ps : List P},
    (∀ (i j : Nat) (p q : P), ps[i]? = some p → ps[j]? = some q → b p = true → b q = true → i = j) →
    ps.countP b ≤ 1
  | [], _ => by simp
  | p :: ps, h => by
    by_cases hp : b p = true
    · have hz : ps.countP b = 0 := by
        rw [List.countP_eq_zero]
        intro q hq hbq
        obtain ⟨j, hj⟩ := List.getElem?_of_mem hq
        have := h 0 (j + 1) p q rfl (by simpa using hj) hp hbq
        omega
      rw [List.countP_cons_of_pos hp]
      omega
    · rw [List.countP_cons_of_neg hp]
      refine countP_le_one_of_unique fun i j p' q' hi hj hbp hbq => ?_
      have := h (i + 1) (j + 1) p' q' (by simpa using hi) (by simpa using hj) hbp hbq
      omega

namespace Owned

variable {holds : P → Bool} {s : Shared P R}

/-- Two parties that hold the lock are one. -/
theorem unique (h : Owned holds s) {i j : Nat} {p q : P} (hp : s.parties[i]? = some p)
    (hq : s.parties[j]? = some q) (hhp : holds p = true) (hhq : holds q = true) : i = j := by
  have hi := (h.owner_iff hp).1 hhp
  have hj := (h.owner_iff hq).1 hhq
  rw [hi] at hj
  exact Option.some.inj hj

theorem not_holds_of_free (h : Owned holds s) (hfree : s.owner = none) {p : P}
    (hp : p ∈ s.parties) : holds p = false := by
  obtain ⟨i, hi⟩ := List.getElem?_of_mem hp
  rw [Bool.eq_false_iff]
  intro hh
  have ho := (h.owner_iff hi).1 hh
  rw [hfree] at ho
  cases ho

/-- A local state that holds the lock belongs to one party at most. -/
theorem countP_le_one (h : Owned holds s) {b : P → Bool} (hb : ∀ p, b p = true → holds p = true) :
    s.parties.countP b ≤ 1 :=
  countP_le_one_of_unique fun _ _ _ _ hp hq hbp hbq => h.unique hp hq (hb _ hbp) (hb _ hbq)

theorem join (h : Owned holds s) {p : P} (hp : holds p = false) : Owned holds (s.join p) := by
  refine ⟨fun {i q} hq => ?_, fun {i} ho => ?_⟩
  · rcases Shared.getElem?_join hq with ⟨-, hq⟩ | ⟨rfl, rfl⟩
    · exact h.owner_iff hq
    · -- the new party does not hold the lock, and it is not the owner
      rw [hp]
      refine iff_of_false (by decide) fun ho => ?_
      exact absurd (h.valid ho) (Nat.lt_irrefl _)
  · have := h.valid ho
    simp only [Shared.join, List.length_append]
    omega

/-- The lock after a move belongs to the party that moved iff its new state says so. -/
theorem apply_self (h : Owned holds s) {i : Nat} {p p' : P} {c : Claim}
    (hp : s.parties[i]? = some p) (hc : c.Fits holds s.owner.isNone p p') :
    holds p' = true ↔ c.apply i s.owner = some i := by
  cases c with
  | keep =>
    rw [show holds p' = holds p from hc]
    exact h.owner_iff hp
  | take => exact iff_of_true hc.2 rfl
  | release => exact iff_of_false (by simp [hc.2]) (by simp [Claim.apply])

/-- For the others nothing changes. -/
theorem apply_ne (h : Owned holds s) {i j : Nat} {p p' : P} {c : Claim}
    (hp : s.parties[i]? = some p) (hc : c.Fits holds s.owner.isNone p p') (hj : i ≠ j) :
    c.apply i s.owner = some j ↔ s.owner = some j := by
  cases c with
  | keep => rfl
  | take =>
    rw [Option.isNone_iff_eq_none.1 hc.1]
    exact iff_of_false (by simp [Claim.apply, hj]) (by simp)
  | release =>
    rw [(h.owner_iff hp).1 hc.1]
    exact iff_of_false (by simp [Claim.apply]) (by simp [hj])

end Owned

/-! ## Rules for disciplined programs -/

section
variable {holds : P → Bool} {prog : Program P R A} {s : Shared P R} {i : Nat} {a : A}

/-- A party after a move of party `i`: that one, an old one that was told, or a spawned one. -/
theorem getElem?_after {ps spawned : List P} {tell : P → P} {p' q : P} {j : Nat}
    (h : ((ps.map tell).set i p' ++ spawned)[j]? = some q) (hi : i < ps.length) :
    (j = i ∧ q = p') ∨ (i ≠ j ∧ ∃ q₀, ps[j]? = some q₀ ∧ q = tell q₀) ∨
      (ps.length ≤ j ∧ q ∈ spawned) := by
  have hlen : ((ps.map tell).set i p').length = ps.length := by simp
  rcases Nat.lt_or_ge j ps.length with hlt | hge
  · rw [List.getElem?_append_left (by omega)] at h
    by_cases hij : i = j
    · subst hij
      rw [List.getElem?_set_self (by simpa using hi)] at h
      exact .inl ⟨rfl, (Option.some.inj h).symm⟩
    · rw [List.getElem?_set_ne hij, List.getElem?_map, Option.map_eq_some_iff] at h
      obtain ⟨q₀, hq, rfl⟩ := h
      exact .inr (.inl ⟨hij, q₀, hq, rfl⟩)
  · rw [List.getElem?_append_right (by omega)] at h
    exact .inr (.inr ⟨hge, List.mem_of_getElem? h⟩)

theorem act_owned (hd : Disciplined holds prog) (h : Owned holds s) :
    Owned holds (s.act prog i a) := by
  refine Shared.act_cases (I := Owned holds) h fun p m hp hm => ?_
  have hfit := hd.fits hm
  have hi : i < s.parties.length := (List.getElem?_eq_some_iff.1 hp).1
  refine ⟨fun {j q} hq => ?_, fun {j} ho => ?_⟩
  · rcases getElem?_after hq hi with ⟨rfl, rfl⟩ | ⟨hij, q₀, hq₀, rfl⟩ | ⟨hge, hq⟩
    · exact h.apply_self hp hfit
    · rw [hd.tell hm, h.apply_ne hp hfit hij]
      exact h.owner_iff hq₀
    · rw [hd.spawned hm q hq]
      refine iff_of_false (by decide) fun ho => ?_
      have hlt := h.valid ((h.apply_ne hp hfit (by omega)).1 ho)
      omega
  · by_cases hij : i = j
    · simp only [List.length_append, List.length_set, List.length_map]
      omega
    · have hlt := h.valid ((h.apply_ne hp hfit hij).1 ho)
      simp only [List.length_append, List.length_set, List.length_map]
      omega

/-- What a party can rely on of the resource; without the lock that is nothing. -/
structure Stable (holds : P → Bool) (prog : Program P R A) (view : P → R → Prop) : Prop where
  owner : ∀ {p r}, holds p = false → view p r
  move : ∀ {r free p a m}, prog r free p a = some m → view p r → view m.party m.resource
  tell : ∀ {r free p a m}, prog r free p a = some m → ∀ q r', view q r' → view (m.tell q) r'

theorem act_view {view : P → R → Prop} (hd : Disciplined holds prog) (hk : Stable holds prog view)
    (ho : Owned holds s) (h : ∀ p ∈ s.parties, view p s.resource) :
    ∀ p ∈ (s.act prog i a).parties, view p (s.act prog i a).resource := by
  refine Shared.act_cases (I := fun s => ∀ p ∈ s.parties, view p s.resource) h
    fun p m hp hm q hq => ?_
  have hi : i < s.parties.length := (List.getElem?_eq_some_iff.1 hp).1
  obtain ⟨j, hj⟩ := List.getElem?_of_mem hq
  rcases getElem?_after hj hi with ⟨rfl, rfl⟩ | ⟨hij, q₀, hq₀, rfl⟩ | ⟨hge, hq⟩
  · exact hk.move hm (h p (List.mem_of_getElem? hp))
  · refine hk.tell hm q₀ m.resource ?_
    rcases hd.alone hm with hh | he
    · -- party `i` has the lock, so this one does not
      refine hk.owner ?_
      rw [Bool.eq_false_iff]
      exact fun hh₀ => hij (ho.unique hp hq₀ hh hh₀)
    · rw [he]
      exact h q₀ (List.mem_of_getElem? hq₀)
  · exact hk.owner (hd.spawned hm q hq)

/-- A property of the resource and one of every party, when no move breaks either. -/
theorem act_forall {Q : R → Prop} {B : P → Prop}
    (hmove : ∀ {p m}, p ∈ s.parties → prog s.resource s.owner.isNone p a = some m →
      Q m.resource ∧ B m.party ∧ (∀ q ∈ m.spawned, B q) ∧ ∀ q, B q → B (m.tell q))
    (hr : Q s.resource) (hs : ∀ p ∈ s.parties, B p) :
    Q (s.act prog i a).resource ∧ ∀ p ∈ (s.act prog i a).parties, B p := by
  refine Shared.act_cases (I := fun s => Q s.resource ∧ ∀ p ∈ s.parties, B p) ⟨hr, hs⟩ ?_
  intro p m hp hm
  obtain ⟨hres, hparty, hspawned, htell⟩ := hmove (List.mem_of_getElem? hp) hm
  refine ⟨hres, fun q hq => ?_⟩
  obtain ⟨j, hj⟩ := List.getElem?_of_mem hq
  rcases getElem?_after hj (List.getElem?_eq_some_iff.1 hp).1 with
    ⟨-, rfl⟩ | ⟨-, q₀, hq₀, rfl⟩ | ⟨-, hq⟩
  · exact hparty
  · exact htell q₀ (hs q₀ (List.mem_of_getElem? hq₀))
  · exact hspawned q hq

theorem countP_set {b : P → Bool} (p' : P) : ∀ {ps : List P} {i : Nat} {p : P}, ps[i]? = some p →
    (ps.set i p').countP b + (b p).toNat = ps.countP b + (b p').toNat
  | x :: ps, 0, p, hp => by
    simp only [List.getElem?_cons_zero, Option.some.injEq] at hp
    subst hp
    simp only [List.set_cons_zero, List.countP_cons]
    cases b x <;> cases b p' <;> simp
  | x :: ps, i + 1, p, hp => by
    have ih := countP_set (b := b) p' (List.getElem?_cons_succ.symm.trans hp)
    simp only [List.set_cons_succ, List.countP_cons]
    omega

/-- What is counted over the parties after a move of one of them. -/
theorem countP_after {b : P → Bool} {ps : List P} {p : P} (hp : ps[i]? = some p) (m : Move P R)
    (htell : ∀ q, b (m.tell q) = b q) :
    ((ps.map m.tell).set i m.party ++ m.spawned).countP b + (b p).toNat =
      ps.countP b + (b m.party).toNat + m.spawned.countP b := by
  have hmap : (ps.map m.tell).countP b = ps.countP b := by
    rw [List.countP_map]
    exact List.countP_congr fun q _ => by rw [Function.comp, htell]
  have hq : (ps.map m.tell)[i]? = some (m.tell p) := by
    rw [List.getElem?_map, hp]
    rfl
  have h := countP_set m.party hq (b := b)
  rw [htell, hmap] at h
  rw [List.countP_append]
  omega

theorem sum_set (f : P → Nat) (p' : P) {ps : List P} {i : Nat} {p : P} (h : ps[i]? = some p) :
    ((ps.set i p').map f).sum + f p = (ps.map f).sum + f p' := by
  induction ps generalizing i with
  | nil => cases h
  | cons q ps ih =>
    cases i with
    | zero =>
      cases h
      simp only [List.set_cons_zero, List.map_cons, List.sum_cons]
      omega
    | succ i =>
      have := ih (by simpa using h)
      simp only [List.set_cons_succ, List.map_cons, List.sum_cons]
      omega

/-- What is added up over the parties after a move of one of them. -/
theorem sum_after (f : P → Nat) {ps : List P} {p : P} (hp : ps[i]? = some p) (m : Move P R) :
    (((ps.map m.tell).set i m.party ++ m.spawned).map f).sum + f (m.tell p) =
      ((ps.map m.tell).map f).sum + f m.party + (m.spawned.map f).sum := by
  have hq : (ps.map m.tell)[i]? = some (m.tell p) := by
    rw [List.getElem?_map, hp]
    rfl
  have h := sum_set f m.party hq
  rw [List.map_append, List.sum_append]
  omega

/-- The parties that owe are as many as the resource is short of: a rule for programs where a debt
is paid, passed on to a spawned party, or made by the owner of the lock. -/
theorem act_balanced {owes : P → Bool} {short : R → Nat} {view : P → R → Prop}
    (hmove : ∀ {r free p a m}, prog r free p a = some m → view p r →
      (owes p = true → 0 < short r) →
      (owes m.party).toNat + m.spawned.countP owes + short r = (owes p).toNat + short m.resource)
    (htell : ∀ {r free p a m}, prog r free p a = some m → ∀ q, owes (m.tell q) = owes q)
    (hview : ∀ p ∈ s.parties, view p s.resource)
    (h : s.parties.countP owes = short s.resource) :
    (s.act prog i a).parties.countP owes = short (s.act prog i a).resource := by
  refine Shared.act_cases (I := fun s => s.parties.countP owes = short s.resource) h
    fun p m hp hm => ?_
  have hmem := List.mem_of_getElem? hp
  have hpos : owes p = true → 0 < short s.resource := by
    intro ho
    rw [← h]
    exact List.countP_pos_iff.2 ⟨p, hmem, ho⟩
  have hbal := hmove hm (hview p hmem) hpos
  have hcount := countP_after hp m (htell hm)
  simp only
  omega

/-! ## What the owner shows -/

section
variable {B : Type*} {f : P → Option B}

/-- What the owner of the lock shows, with its number. -/
def Shared.shown (f : P → Option B) (s : Shared P R) : Option (Nat × B) :=
  match s.owner with
  | none => none
  | some i => (s.parties[i]?.bind f).map (i, ·)

theorem Shared.shown_owner {p : P} (ho : s.owner = some i) (hp : s.parties[i]? = some p) :
    s.shown f = (f p).map (i, ·) := by
  simp only [shown, ho, hp, Option.bind_some]

theorem Shared.shown_free (ho : s.owner = none) : s.shown f = none := by simp only [shown, ho]

/-- The owner has moved. -/
theorem Owned.shown_move (h : Owned holds s) (hf : ∀ p, holds p = false → f p = none) {p : P}
    {m : Move P R} (hp : s.parties[i]? = some p) (hc : m.claim.Fits holds s.owner.isNone p m.party)
    (hh : holds p = true ∨ holds m.party = true) :
    Shared.shown f (R := R) ⟨m.resource, m.claim.apply i s.owner,
      (s.parties.map m.tell).set i m.party ++ m.spawned⟩ = (f m.party).map (i, ·) := by
  cases hm : holds m.party with
  | true => exact Shared.shown_owner ((h.apply_self hp hc).1 hm) (Shared.getElem?_moved hp)
  | false =>
    rw [hf _ hm]
    apply Shared.shown_free
    cases hcl : m.claim with
    | release => rfl
    | keep =>
      rw [hcl] at hc
      rw [← show holds m.party = holds p from hc, hm] at hh
      simp at hh
    | take =>
      rw [hcl] at hc
      rw [hc.2] at hm
      cases hm

/-- Another party has moved, and the lock is where it was. -/
theorem Owned.shown_other (h : Owned holds s) {p : P} {m : Move P R}
    (hp : s.parties[i]? = some p) (hc : m.claim.Fits holds s.owner.isNone p m.party)
    (hh : holds p = false) (hm : holds m.party = false) (htell : ∀ q, f (m.tell q) = f q) :
    Shared.shown f (R := R) ⟨m.resource, m.claim.apply i s.owner,
      (s.parties.map m.tell).set i m.party ++ m.spawned⟩ = s.shown f := by
  have hkeep : m.claim.apply i s.owner = s.owner := by
    cases hcl : m.claim with
    | keep => rfl
    | take =>
      rw [hcl] at hc
      rw [hc.2] at hm
      cases hm
    | release =>
      rw [hcl] at hc
      rw [hc.1] at hh
      cases hh
  rw [hkeep]
  cases ho : s.owner with
  | none =>
    rw [Shared.shown_free ho]
    rfl
  | some j =>
    have hij : i ≠ j := by
      rintro rfl
      rw [(h.owner_iff hp).2 ho] at hh
      cases hh
    have hq := List.getElem?_eq_getElem (h.valid ho)
    rw [Shared.shown_owner ho hq, Shared.shown_owner rfl (Shared.getElem?_told hq hij), htell]

/-- The events of a move of party `i`. -/
def Shared.events {E : Type*} (event : Nat → R → P → A → List E) (s : Shared P R) (i : Nat)
    (a : A) : List E :=
  match s.parties[i]? with
  | none => []
  | some p => event i s.resource p a

/-- What a specification has to make of one move. -/
structure Explains {S E : Type*} (Step : S → E → S → Prop) (abs : R → Option (Nat × B) → S)
    (holds : P → Bool) (f : P → Option B) (i : Nat) (r : R) (p : P) (m : Move P R)
    (events : List E) : Prop where
  steps : Lts.Steps Step (abs r ((f p).map (i, ·))) events (abs m.resource ((f m.party).map (i, ·)))
  silent : holds p = false → events = []
  tell : ∀ q, f (m.tell q) = f q

theorem act_refines {S E : Type*} {Step : S → E → S → Prop} {abs : R → Option (Nat × B) → S}
    {event : Nat → R → P → A → List E} (hd : Disciplined holds prog)
    (hf : ∀ p, holds p = false → f p = none) (ho : Owned holds s)
    (hmove : ∀ p m, p ∈ s.parties → prog s.resource s.owner.isNone p a = some m →
      Explains Step abs holds f i s.resource p m (event i s.resource p a))
    (hnone : ∀ p, prog s.resource s.owner.isNone p a = none → event i s.resource p a = []) :
    Lts.Steps Step (abs s.resource (s.shown f)) (s.events event i a)
      (abs (s.act prog i a).resource ((s.act prog i a).shown f)) := by
  unfold Shared.act Shared.events
  cases hp : s.parties[i]? with
  | none => exact .nil _
  | some p =>
    cases hm : prog s.resource s.owner.isNone p a with
    | none =>
      simp only [hm, hnone p hm]
      exact .nil _
    | some m =>
      have hx := hmove p m (List.mem_of_getElem? hp) hm
      have hc := hd.fits hm
      simp only [hm]
      cases hh : holds p with
      | true =>
        rw [ho.shown_move hf hp hc (.inl hh), Shared.shown_owner ((ho.owner_iff hp).1 hh) hp]
        exact hx.steps
      | false =>
        cases hm' : holds m.party with
        | true =>
          -- it has taken the lock, so nobody had it
          have hfree : s.owner = none := by
            cases hcl : m.claim with
            | keep =>
              rw [hcl] at hc
              rw [show holds m.party = holds p from hc, hh] at hm'
              cases hm'
            | take =>
              rw [hcl] at hc
              exact Option.isNone_iff_eq_none.1 hc.1
            | release =>
              rw [hcl] at hc
              rw [hc.1] at hh
              cases hh
          have hsteps := hx.steps
          rw [hf p hh] at hsteps
          rw [ho.shown_move hf hp hc (.inr hm'), Shared.shown_free hfree]
          exact hsteps
        | false =>
          have hr : m.resource = s.resource := (hd.alone hm).resolve_left (by simp [hh])
          rw [ho.shown_other hp hc hh hm' hx.tell, hx.silent hh, hr]
          exact .nil _

end

end

end Lock
