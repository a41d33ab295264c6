import Mathlib.Data.List.Basic
import Mathlib.Logic.Function.Basic

namespace KtKernel.Data

/-! Machines that move by named actions.

An interleaving of several threads is a list of actions, each naming the
thread that moves.  An action that is not enabled has no successor, so a
blocked thread is one whose action returns `none`.
-/

structure Machine (σ : Type u) (α : Type v) where
  initial : σ → Prop
  step : σ → α → Option σ

namespace Machine

def run (machine : Machine σ α) : σ → List α → Option σ
  | state, [] => some state
  | state, action :: rest => (machine.step state action).bind (machine.run · rest)

theorem run_append (machine : Machine σ α) (first second : List α) (state : σ) :
    machine.run state (first ++ second) = (machine.run state first).bind (machine.run · second) := by
  induction first generalizing state with
  | nil => rfl
  | cons action rest induction =>
      rw [List.cons_append, Machine.run, Machine.run, Option.bind_assoc]
      exact congrArg _ (funext fun next => induction next)

/-- States at the end of some finite run. -/
inductive Reachable (machine : Machine σ α) : σ → Prop
  | initial (starts : machine.initial state) : Reachable machine state
  | step (reached : Reachable machine before)
      (moved : machine.step before action = some after) : Reachable machine after

/-- The runs whose every action is allowed in the state it is taken from. -/
def restrict (machine : Machine σ α) (allowed : σ → α → Prop)
    [∀ state action, Decidable (allowed state action)] : Machine σ α where
  initial := machine.initial
  step state action := if allowed state action then machine.step state action else none

/-- States at the end of a run every step of which is allowed. -/
inductive ReachableBy (machine : Machine σ α) (allowed : σ → α → Prop) : σ → Prop
  | initial (starts : machine.initial state) : ReachableBy machine allowed state
  | step (reached : ReachableBy machine allowed before) (fine : allowed before action)
      (moved : machine.step before action = some after) : ReachableBy machine allowed after

theorem ReachableBy.reachable {machine : Machine σ α} {allowed : σ → α → Prop}
    (reached : machine.ReachableBy allowed state) : machine.Reachable state := by
  induction reached with
  | initial starts => exact .initial starts
  | step _ _ moved induction => exact .step induction moved

/-- The induction rule for safety: an invariant of the initial states that
every step keeps holds of every reachable state. -/
theorem Reachable.invariant {machine : Machine σ α} {holds : σ → Prop}
    (base : ∀ state, machine.initial state → holds state)
    (kept : ∀ before action after, holds before →
      machine.step before action = some after → holds after)
    (reached : machine.Reachable state) : holds state := by
  induction reached with
  | initial starts => exact base _ starts
  | step _ moved induction => exact kept _ _ _ induction moved

theorem Reachable.run {machine : Machine σ α} {actions : List α}
    (reached : machine.Reachable before)
    (ran : machine.run before actions = some after) : machine.Reachable after := by
  induction actions generalizing before with
  | nil =>
      simp only [Machine.run, Option.some.injEq] at ran
      exact ran ▸ reached
  | cons action rest induction =>
      simp only [Machine.run, Option.bind_eq_some_iff] at ran
      obtain ⟨middle, moved, ran⟩ := ran
      exact induction (.step reached moved) ran

/-- A concrete schedule whose last state passes a test. -/
theorem exists_reachable_of_run (machine : Machine σ α) (start : σ) (actions : List α)
    (starts : machine.initial start) (test : σ → Bool)
    (passed : (machine.run start actions).map test = some true) :
    ∃ state, machine.Reachable state ∧ test state = true := by
  obtain ⟨state, ran, holds⟩ := Option.map_eq_some_iff.mp passed
  exact ⟨state, (Reachable.initial starts).run ran, holds⟩

theorem restrict_step {machine : Machine σ α} {allowed : σ → α → Prop}
    [∀ state action, Decidable (allowed state action)]
    (moved : (machine.restrict allowed).step before action = some after) :
    allowed before action ∧ machine.step before action = some after := by
  simp only [restrict] at moved
  split at moved
  · exact ⟨‹_›, moved⟩
  · contradiction

theorem reachableBy_of_restrict {machine : Machine σ α} {allowed : σ → α → Prop}
    [∀ state action, Decidable (allowed state action)]
    (reached : (machine.restrict allowed).Reachable state) : machine.ReachableBy allowed state := by
  induction reached with
  | initial starts => exact .initial starts
  | step _ moved induction =>
      obtain ⟨fine, moved⟩ := restrict_step moved
      exact .step induction fine moved

/-- A map under which every concrete step from a good state is one abstract
step or none carries concrete runs to abstract runs. -/
structure Refines (concrete : Machine σ α) (abstract : Machine τ β)
    (good : σ → Prop) (view : σ → τ) : Prop where
  starts : ∀ state, concrete.initial state → abstract.initial (view state)
  holds : ∀ state, concrete.Reachable state → good state
  simulates : ∀ before action after, good before → concrete.step before action = some after →
    view after = view before ∨ ∃ visible, abstract.step (view before) visible = some (view after)

end Machine

end KtKernel.Data
