import Snowpack.Pool.Link

/-!
# What a step of a party can do

`TaskPc.Moves`, `AcquirePc.Moves` and `WaitPc.Moves` list the steps of the three kinds of parties,
each with what has to be the case for it. `step_moves` says that there are no others; what is said
about all steps of a link starts from there.
-/

namespace Snowpack

variable {τ : Type}

/-- The steps of `reconnect_task`. -/
inductive TaskPc.Moves (target : NodeId) (s : LinkState τ) (free : Bool) :
    TaskPc τ → PartyAct τ → LinkMove τ → Prop
  | connected {r : Except ConnectionError (τ × AuthDetails)} {t : τ} (backoff : Nat)
      (h : tryConnect target r = .ok t) :
      Moves target s free (.connecting backoff) (.attempt r)
        { party := .task (.locking t), resource := s }
  | failed {r : Except ConnectionError (τ × AuthDetails)} {e : ConnectionError} (backoff : Nat)
      (h : tryConnect target r = .error e) :
      Moves target s free (.connecting backoff) (.attempt r)
        { party := .task (.sleeping backoff), resource := s }
  | slept (backoff : Nat) :
      Moves target s free (.sleeping backoff) .timer
        { party := .task (.connecting (min (backoff * 2) maxBackoff)), resource := s }
  | locked (t : τ) (h : free = true) :
      Moves target s free (.locking t) .lock
        { party := .task (.publishing t), resource := s, claim := .take }
  | published (t : τ) :
      Moves target s free (.publishing t) .run
        { party := .task .notifying, resource := .connected t }
  | notified :
      Moves target s free .notifying .run
        { party := .task .leaving, resource := s, tell := Party.notified }
  | left :
      Moves target s free .leaving .run
        { party := .task .exited, resource := s, claim := .release }

/-- The steps of `acquire` and of its `Guard`. -/
inductive AcquirePc.Moves (s : LinkState τ) (free : Bool) :
    AcquirePc → PartyAct τ → LinkMove τ → Prop
  | locked (h : free = true) :
      Moves s free .locking .lock { party := .acquire .matching, resource := s, claim := .take }
  | cancelled : Moves s free .locking .cancel { party := .acquire .gone, resource := s }
  | gaveBack :
      Moves s free .matching .cancel { party := .acquire .gone, resource := s, claim := .release }
  | handedOut {t : τ} (h : s = .connected t) :
      Moves s free .matching .run { party := .acquire (.guard false), resource := s }
  | notReady (h : s = .reconnecting) :
      Moves s free .matching .run
        { party := .acquire (.notReady ⟨⟩), resource := s, claim := .release }
  | used {t₀ : τ} (t : τ) (h : s = .connected t₀) :
      Moves s free (.guard false) (.transport t)
        { party := .acquire (.guard false), resource := .connected t }
  | panicked (t : τ) (h : s = .reconnecting) :
      Moves s free (.guard false) (.transport t) { party := .acquire .panicked, resource := s }
  | committed :
      Moves s free (.guard false) .commit { party := .acquire (.guard true), resource := s }
  | reset :
      Moves s free (.guard false) .drop { party := .acquire .spawning, resource := .reconnecting }
  | dropped :
      Moves s free (.guard true) .drop { party := .acquire .releasing, resource := s }
  | spawned :
      Moves s free .spawning .run
        { party := .acquire .releasing, resource := s, spawned := [.reconnectTask] }
  | released :
      Moves s free .releasing .run { party := .acquire .gone, resource := s, claim := .release }

/-- The steps of `wait_connected`. -/
inductive WaitPc.Moves (s : LinkState τ) (free : Bool) : WaitPc → PartyAct τ → LinkMove τ → Prop
  | locked (signalled : Bool) (h : free = true) :
      Moves s free (.locking signalled) .lock
        { party := .wait (.checking signalled), resource := s, claim := .take }
  | cancelled (signalled : Bool) :
      Moves s free (.locking signalled) .cancel { party := .wait .gone, resource := s }
  | gaveBack (signalled : Bool) :
      Moves s free (.checking signalled) .cancel
        { party := .wait .gone, resource := s, claim := .release }
  | connected {t : τ} (signalled : Bool) (h : s = .connected t) :
      Moves s free (.checking signalled) .run
        { party := .wait (.returned (.ok ())), resource := s, claim := .release }
  | parked (signalled : Bool) (h : s = .reconnecting) :
      Moves s free (.checking signalled) .run
        { party := .wait (.parked signalled), resource := s, claim := .release }
  | woken : Moves s free (.parked true) .run { party := .wait (.locking false), resource := s }
  | expired :
      Moves s free (.parked false) .timer
        { party := .wait (.returned (.error ⟨⟩)), resource := s }
  | abandoned (signalled : Bool) :
      Moves s free (.parked signalled) .cancel { party := .wait .gone, resource := s }

variable {target : NodeId} {s : LinkState τ} {free : Bool} {a : PartyAct τ} {m : LinkMove τ}

theorem TaskPc.step_moves {pc : TaskPc τ} (h : pc.step target s free a = some m) :
    Moves target s free pc a m := by
  unfold step at h
  split at h
  · split at h
    · rename_i hr
      cases h
      exact .connected _ hr
    · rename_i hr
      cases h
      exact .failed _ hr
  · cases h
    exact .slept _
  · split at h
    · rename_i hfree
      cases h
      exact .locked _ hfree
    · cases h
  · cases h
    exact .published _
  · cases h
    exact .notified
  · cases h
    exact .left
  · cases h

theorem AcquirePc.step_moves {pc : AcquirePc} (h : pc.step s free a = some m) :
    Moves s free pc a m := by
  unfold step at h
  split at h
  · split at h
    · rename_i hfree
      cases h
      exact .locked hfree
    · cases h
  · cases h
    exact .cancelled
  · cases h
    exact .gaveBack
  · split at h
    · cases h
      exact .handedOut rfl
    · cases h
      exact .notReady rfl
  · split at h
    · cases h
      exact .used _ rfl
    · cases h
      exact .panicked _ rfl
  · cases h
    exact .committed
  · rename_i committed
    cases committed with
    | false =>
      cases h
      exact .reset
    | true =>
      cases h
      exact .dropped
  · cases h
    exact .spawned
  · cases h
    exact .released
  · cases h

theorem WaitPc.step_moves {pc : WaitPc} (h : pc.step s free a = some m) :
    Moves s free pc a m := by
  unfold step at h
  split at h
  · split at h
    · rename_i hfree
      cases h
      exact .locked _ hfree
    · cases h
  · cases h
    exact .cancelled _
  · cases h
    exact .gaveBack _
  · split at h
    · cases h
      exact .connected _ rfl
    · cases h
      exact .parked _ rfl
  · cases h
    exact .woken
  · cases h
    exact .expired
  · cases h
    exact .abandoned _
  · cases h

end Snowpack
