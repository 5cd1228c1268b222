import Mathlib.Data.List.Basic

/-!
# Deterministic machines with observable events

A step of a machine emits a list of events. Two states have the same runs when every finite
prefix of the events of one is a prefix of the events of the other, and when one halts exactly
if the other halts, with the same events. A simulation that matches every step by one or more
steps with the same events transfers runs in both directions, because the matching machine is
deterministic and is never behind.
-/

namespace DeclarativeMlir.EventMachine

variable {σ τ ε : Type*}

/-- The events of a step and the next state; a halted state has none. -/
abbrev Step (σ ε : Type*) := σ → Option (List ε × σ)

/-- The events of `n` steps, fewer if the machine halts, and the state they lead to. -/
def run (step : Step σ ε) : ℕ → σ → List ε × σ
  | 0, s => ([], s)
  | n + 1, s =>
    match step s with
    | none => ([], s)
    | some (events, next) => (events ++ (run step n next).1, (run step n next).2)

variable {step : Step σ ε} {stepA : Step σ ε} {stepB : Step τ ε}

@[simp]
theorem run_zero (s : σ) : run step 0 s = ([], s) := rfl

theorem run_succ_of_some {s next : σ} {events : List ε} (hstep : step s = some (events, next))
    (n : ℕ) :
    run step (n + 1) s = (events ++ (run step n next).1, (run step n next).2) := by
  simp only [run, hstep]

theorem run_of_none {s : σ} (hstep : step s = none) (n : ℕ) : run step n s = ([], s) := by
  cases n with
  | zero => rfl
  | succ n => simp only [run, hstep]

theorem run_add (m n : ℕ) (s : σ) :
    run step (m + n) s =
      ((run step m s).1 ++ (run step n (run step m s).2).1,
        (run step n (run step m s).2).2) := by
  induction m generalizing s with
  | zero => simp
  | succ m ih =>
    cases hstep : step s with
    | none => simp [run_of_none hstep]
    | some result =>
      obtain ⟨events, next⟩ := result
      rw [Nat.succ_add_eq_add_succ, Nat.add_succ, run_succ_of_some hstep, ih,
        run_succ_of_some hstep]
      simp

/-- Later events extend the events so far. -/
theorem run_extends {m n : ℕ} (hmn : m ≤ n) (s : σ) : (run step m s).1 <+: (run step n s).1 := by
  obtain ⟨k, rfl⟩ := Nat.exists_eq_add_of_le hmn
  rw [run_add]
  exact List.prefix_append _ _

theorem run_of_halted {m n : ℕ} (hmn : m ≤ n) {s : σ} (hhalt : step (run step m s).2 = none) :
    run step n s = run step m s := by
  obtain ⟨k, rfl⟩ := Nat.exists_eq_add_of_le hmn
  rw [run_add, run_of_none hhalt]
  simp

/-- `trace` is a finite prefix of the events of the run from `s`. -/
def Observes (step : Step σ ε) (s : σ) (trace : List ε) : Prop :=
  ∃ n, trace <+: (run step n s).1

/-- The run from `s` halts after the events `trace`. -/
def Terminates (step : Step σ ε) (s : σ) (trace : List ε) : Prop :=
  ∃ n, (run step n s).1 = trace ∧ step (run step n s).2 = none

/-- The same finite observations and the same terminating runs. -/
def SameRuns (stepA : Step σ ε) (a : σ) (stepB : Step τ ε) (b : τ) : Prop :=
  (∀ trace, Observes stepA a trace ↔ Observes stepB b trace) ∧
    ∀ trace, Terminates stepA a trace ↔ Terminates stepB b trace

/-- Every step from a related state is matched by one or more steps with the same events, and
related states halt together. -/
structure Simulation (stepA : Step σ ε) (stepB : Step τ ε) (R : σ → τ → Prop) : Prop where
  step : ∀ {a b events a'}, R a b → stepA a = some (events, a') →
    ∃ first b₁ n, stepB b = some (first, b₁) ∧ first ++ (run stepB n b₁).1 = events ∧
      R a' (run stepB n b₁).2
  halt : ∀ {a b}, R a b → stepA a = none → stepB b = none

namespace Simulation

variable {R : σ → τ → Prop}

/-- After `n` steps on the left there are at least as many on the right that match them. -/
theorem run (sim : Simulation stepA stepB R) (n : ℕ) {a : σ} {b : τ} (hab : R a b) :
    ∃ m, n ≤ m ∧ (EventMachine.run stepB m b).1 = (EventMachine.run stepA n a).1 ∧
      R (EventMachine.run stepA n a).2 (EventMachine.run stepB m b).2 := by
  induction n generalizing a b with
  | zero => exact ⟨0, Nat.le_refl 0, rfl, hab⟩
  | succ n ih =>
    cases hstep : stepA a with
    | none =>
      refine ⟨n + 1, Nat.le_refl _, ?_⟩
      rw [run_of_none hstep, run_of_none (sim.halt hab hstep)]
      exact ⟨rfl, hab⟩
    | some result =>
      obtain ⟨events, a'⟩ := result
      obtain ⟨first, b₁, k, hfirst, hevents, hrel⟩ := sim.step hab hstep
      obtain ⟨m, hm, htrace, hend⟩ := ih hrel
      refine ⟨k + m + 1, by omega, ?_⟩
      rw [run_succ_of_some hfirst, run_succ_of_some hstep, run_add]
      refine ⟨?_, hend⟩
      calc
        first ++ ((EventMachine.run stepB k b₁).1 ++
            (EventMachine.run stepB m (EventMachine.run stepB k b₁).2).1) =
            (first ++ (EventMachine.run stepB k b₁).1) ++
              (EventMachine.run stepB m (EventMachine.run stepB k b₁).2).1 := by
          rw [List.append_assoc]
        _ = events ++ (EventMachine.run stepA n a').1 := by rw [hevents, htrace]

theorem halt_iff (sim : Simulation stepA stepB R) {a : σ} {b : τ} (hab : R a b) :
    stepA a = none ↔ stepB b = none := by
  refine ⟨sim.halt hab, fun hb ↦ ?_⟩
  cases hstep : stepA a with
  | none => rfl
  | some result =>
    obtain ⟨first, b₁, k, hfirst, -⟩ := sim.step hab hstep
    simp [hb] at hfirst

/-- Related states have the same runs. -/
theorem sameRuns (sim : Simulation stepA stepB R) {a : σ} {b : τ} (hab : R a b) :
    SameRuns stepA a stepB b := by
  constructor
  · intro trace
    constructor
    · rintro ⟨n, hprefix⟩
      obtain ⟨m, -, htrace, -⟩ := sim.run n hab
      exact ⟨m, htrace ▸ hprefix⟩
    · rintro ⟨n, hprefix⟩
      obtain ⟨m, hm, htrace, -⟩ := sim.run n hab
      exact ⟨n, htrace ▸ hprefix.trans (run_extends hm b)⟩
  · intro trace
    constructor
    · rintro ⟨n, htrace, hhalt⟩
      obtain ⟨m, -, hsame, hrel⟩ := sim.run n hab
      exact ⟨m, hsame.trans htrace, sim.halt hrel hhalt⟩
    · rintro ⟨n, htrace, hhalt⟩
      obtain ⟨m, hm, hsame, hrel⟩ := sim.run n hab
      have hstop := run_of_halted hm hhalt
      refine ⟨n, ?_, ?_⟩
      · rw [← hsame, hstop, htrace]
      · rw [sim.halt_iff hrel, hstop]
        exact hhalt

end Simulation

/-- Every step from a related state is matched by one or more steps with the same events, or it
emits nothing and lowers the rank; related states halt together. -/
structure StutteringSimulation (stepA : Step σ ε) (stepB : Step τ ε) (R : σ → τ → Prop)
    (rank : σ → ℕ) : Prop where
  step : ∀ {a b events a'}, R a b → stepA a = some (events, a') →
    (∃ first b₁ n, stepB b = some (first, b₁) ∧ first ++ (run stepB n b₁).1 = events ∧
      R a' (run stepB n b₁).2) ∨
    (events = [] ∧ R a' b ∧ rank a' < rank a)
  halt : ∀ {a b}, R a b → stepA a = none → stepB b = none

theorem run_of_matched {b b₁ : τ} {first events : List ε} {n : ℕ}
    (hfirst : stepB b = some (first, b₁)) (hevents : first ++ (run stepB n b₁).1 = events)
    (k : ℕ) :
    run stepB (n + k + 1) b =
      (events ++ (run stepB k (run stepB n b₁).2).1, (run stepB k (run stepB n b₁).2).2) := by
  calc
    run stepB (n + k + 1) b = (first ++ (run stepB (n + k) b₁).1, (run stepB (n + k) b₁).2) :=
      run_succ_of_some hfirst _
    _ = (events ++ (run stepB k (run stepB n b₁).2).1, (run stepB k (run stepB n b₁).2).2) := by
      rw [run_add, ← hevents, List.append_assoc]

namespace StutteringSimulation

variable {R : σ → τ → Prop} {rank : σ → ℕ}

/-- After `n` steps on the left there are steps on the right that match them. -/
theorem run (sim : StutteringSimulation stepA stepB R rank) (n : ℕ) {a : σ} {b : τ}
    (hab : R a b) :
    ∃ m, (EventMachine.run stepB m b).1 = (EventMachine.run stepA n a).1 ∧
      R (EventMachine.run stepA n a).2 (EventMachine.run stepB m b).2 := by
  induction n generalizing a b with
  | zero => exact ⟨0, rfl, hab⟩
  | succ n ih =>
    cases hstep : stepA a with
    | none =>
      rw [run_of_none hstep]
      exact ⟨0, rfl, hab⟩
    | some result =>
      obtain ⟨events, a'⟩ := result
      rw [run_succ_of_some hstep]
      rcases sim.step hab hstep with ⟨first, b₁, k, hfirst, hevents, hrel⟩ | ⟨rfl, hrel, -⟩
      · obtain ⟨m, htrace, hend⟩ := ih hrel
        refine ⟨k + m + 1, ?_⟩
        rw [run_of_matched hfirst hevents, htrace]
        exact ⟨rfl, hend⟩
      · simpa using ih hrel

/-- The left reaches `m` steps of the right, since it cannot stay behind forever. -/
theorem catchUp (sim : StutteringSimulation stepA stepB R rank) (m : ℕ) {a : σ} {b : τ}
    (hab : R a b) :
    ∃ n k, m ≤ k ∧ (EventMachine.run stepB k b).1 = (EventMachine.run stepA n a).1 ∧
      R (EventMachine.run stepA n a).2 (EventMachine.run stepB k b).2 := by
  induction m generalizing a b with
  | zero => exact ⟨0, 0, Nat.le_refl 0, rfl, hab⟩
  | succ m ih =>
    induction hrank : rank a using Nat.strongRecOn generalizing a with
    | ind r ihrank =>
      cases hstep : stepA a with
      | none =>
        refine ⟨0, m + 1, Nat.le_refl _, ?_⟩
        rw [run_of_none (sim.halt hab hstep)]
        exact ⟨rfl, hab⟩
      | some result =>
        obtain ⟨events, a'⟩ := result
        rcases sim.step hab hstep with ⟨first, b₁, j, hfirst, hevents, hrel⟩ | ⟨rfl, hrel, hlt⟩
        · obtain ⟨n, k, hk, htrace, hend⟩ := ih hrel
          refine ⟨n + 1, j + k + 1, by omega, ?_⟩
          rw [run_of_matched hfirst hevents, run_succ_of_some hstep, htrace]
          exact ⟨rfl, hend⟩
        · obtain ⟨n, k, hk, htrace, hend⟩ := ihrank _ (hrank ▸ hlt) hrel rfl
          refine ⟨n + 1, k, hk, ?_⟩
          rw [run_succ_of_some hstep]
          exact ⟨htrace, hend⟩

/-- Where the right halts, the left halts after steps without events. -/
theorem halts (sim : StutteringSimulation stepA stepB R rank) {a : σ} {b : τ} (hab : R a b)
    (hb : stepB b = none) :
    ∃ n, (EventMachine.run stepA n a).1 = [] ∧ stepA (EventMachine.run stepA n a).2 = none := by
  induction hrank : rank a using Nat.strongRecOn generalizing a with
  | ind r ihrank =>
    cases hstep : stepA a with
    | none => exact ⟨0, rfl, hstep⟩
    | some result =>
      obtain ⟨events, a'⟩ := result
      rcases sim.step hab hstep with ⟨first, b₁, j, hfirst, -, -⟩ | ⟨rfl, hrel, hlt⟩
      · simp [hb] at hfirst
      · obtain ⟨n, htrace, hhalt⟩ := ihrank _ (hrank ▸ hlt) hrel rfl
        refine ⟨n + 1, ?_⟩
        rw [run_succ_of_some hstep]
        exact ⟨htrace, hhalt⟩

/-- Related states have the same runs. -/
theorem sameRuns (sim : StutteringSimulation stepA stepB R rank) {a : σ} {b : τ} (hab : R a b) :
    SameRuns stepA a stepB b := by
  constructor
  · intro trace
    constructor
    · rintro ⟨n, hprefix⟩
      obtain ⟨m, htrace, -⟩ := sim.run n hab
      exact ⟨m, htrace ▸ hprefix⟩
    · rintro ⟨m, hprefix⟩
      obtain ⟨n, k, hk, htrace, -⟩ := sim.catchUp m hab
      exact ⟨n, htrace ▸ hprefix.trans (run_extends hk b)⟩
  · intro trace
    constructor
    · rintro ⟨n, htrace, hhalt⟩
      obtain ⟨m, hsame, hrel⟩ := sim.run n hab
      exact ⟨m, hsame.trans htrace, sim.halt hrel hhalt⟩
    · rintro ⟨m, htrace, hhalt⟩
      obtain ⟨n, k, hk, hsame, hrel⟩ := sim.catchUp m hab
      rw [run_of_halted hk hhalt] at hsame hrel
      obtain ⟨j, hquiet, hstop⟩ := sim.halts hrel hhalt
      refine ⟨n + j, ?_, ?_⟩
      · rw [run_add, hquiet, List.append_nil, ← hsame, htrace]
      · rw [run_add]
        exact hstop

end StutteringSimulation

end DeclarativeMlir.EventMachine
