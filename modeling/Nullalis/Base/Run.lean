import Mathlib.Data.Nat.Notation
import Mathlib.Logic.Function.Basic

/-!
# Runs of partial machines

A system of threads is modelled as a partial step function: an action names which
thread moves and how its nondeterminism is resolved, and a step that is not enabled
yields `none`. Interleavings are then lists of actions, and a safety property of
every interleaving is an invariant of `run`.

Two inductions are packaged here once. `run_invariant` is the unconditional one;
`run_invariant_of_meets` carries a condition on the steps of the run, for systems
whose invariant only survives when certain steps are taken in certain states.
-/

universe u v

/-- A machine with partial steps: `none` means that the action is not enabled. -/
abbrev Machine (State : Type u) (Action : Type v) := State → Action → Option State

namespace Machine

variable {State : Type u} {Action : Type v} {step : Machine State Action}

/-- Execute a list of actions, failing as soon as one of them is not enabled. -/
def run (step : Machine State Action) : State → List Action → Option State
  | state, [] => some state
  | state, action :: rest => (step state action).bind fun next => run step next rest

/-- Every step the run takes meets `condition` in the state before the step. -/
def Meets (step : Machine State Action) (condition : State → Action → Prop) :
    State → List Action → Prop
  | _, [] => True
  | state, action :: rest =>
      condition state action ∧ ∀ next, step state action = some next → Meets step condition next rest

@[simp]
theorem run_nil (state : State) : run step state [] = some state := rfl

@[simp]
theorem run_cons (state : State) (action : Action) (rest : List Action) :
    run step state (action :: rest) =
      (step state action).bind fun next => run step next rest := rfl

theorem Meets.cons {condition : State → Action → Prop} {state next : State} {action : Action}
    {rest : List Action} (met : condition state action) (stepped : step state action = some next)
    (meets : Meets step condition next rest) :
    Meets step condition state (action :: rest) :=
  ⟨met, fun _ stepped' => Option.some.inj (stepped.symm.trans stepped') ▸ meets⟩

theorem run_append (state : State) (first second : List Action) :
    run step state (first ++ second) =
      (run step state first).bind fun middle => run step middle second := by
  induction first generalizing state with
  | nil => simp
  | cons action rest ih =>
      cases stepped : step state action with
      | none => simp [stepped]
      | some next => simp [stepped, ih]

theorem run_induction_of_meets {condition : State → Action → Prop}
    {motive : List Action → State → Prop} {initial final : State} {actions : List Action}
    (start : motive [] initial)
    (preserved : ∀ taken state action next, run step initial taken = some state →
      motive taken state → condition state action → step state action = some next →
      motive (taken ++ [action]) next)
    (meets : Meets step condition initial actions)
    (reached : run step initial actions = some final) : motive actions final := by
  suffices continued : ∀ rest taken state, run step initial taken = some state →
      motive taken state → Meets step condition state rest →
      run step state rest = some final → motive (taken ++ rest) final from
    continued actions [] initial rfl start meets reached
  intro rest
  induction rest with
  | nil =>
      intro taken state _ holds _ reached
      rw [run_nil, Option.some.injEq] at reached
      simpa [reached] using holds
  | cons action rest ih =>
      intro taken state led holds meets reached
      rw [run_cons, Option.bind_eq_some_iff] at reached
      rcases reached with ⟨next, stepped, reached⟩
      have further : run step initial (taken ++ [action]) = some next := by
        simp [run_append, led, stepped]
      have continued := ih (taken ++ [action]) next further
        (preserved taken state action next led holds meets.1 stepped) (meets.2 next stepped)
        reached
      rwa [List.append_assoc, List.singleton_append] at continued

theorem run_invariant_of_meets {condition : State → Action → Prop} {invariant : State → Prop}
    (preserved : ∀ state action next, invariant state → condition state action →
      step state action = some next → invariant next)
    {state final : State} {actions : List Action} (initial : invariant state)
    (meets : Meets step condition state actions)
    (reached : run step state actions = some final) : invariant final :=
  run_induction_of_meets (motive := fun _ state => invariant state) initial
    (fun _ state action next _ => preserved state action next) meets reached

theorem meets_true {state : State} {actions : List Action} :
    Meets step (fun _ _ => True) state actions := by
  induction actions generalizing state with
  | nil => trivial
  | cons action rest ih => exact ⟨trivial, fun _ _ => ih⟩

theorem run_invariant {invariant : State → Prop}
    (preserved : ∀ state action next, invariant state →
      step state action = some next → invariant next)
    {state final : State} {actions : List Action} (initial : invariant state)
    (reached : run step state actions = some final) : invariant final :=
  run_invariant_of_meets (fun state action next holds _ => preserved state action next holds)
    initial meets_true reached

theorem Meets.last {condition : State → Action → Prop} {state reached : State} {action : Action}
    {actions : List Action} (meets : Meets step condition state (actions ++ [action]))
    (led : run step state actions = some reached) : condition reached action := by
  induction actions generalizing state with
  | nil =>
      obtain rfl := Option.some.inj led
      exact meets.1
  | cons first rest ih =>
      rw [run_cons, Option.bind_eq_some_iff] at led
      obtain ⟨next, stepped, led⟩ := led
      exact ih (meets.2 next stepped) led

theorem Meets.imp {condition other : State → Action → Prop} {invariant : State → Prop}
    (implies : ∀ state action, invariant state → condition state action → other state action)
    (preserved : ∀ state action next, invariant state → condition state action →
      step state action = some next → invariant next)
    {state : State} {actions : List Action} (holds : invariant state)
    (meets : Meets step condition state actions) : Meets step other state actions := by
  induction actions generalizing state with
  | nil => trivial
  | cons action rest ih =>
      obtain ⟨met, continued⟩ := meets
      refine ⟨implies state action holds met, ?_⟩
      intro next stepped
      exact ih (preserved state action next holds met stepped) (continued next stepped)

theorem meets_congr {condition other : State → Action → Prop} {invariant : State → Prop}
    (agree : ∀ state action, invariant state → (condition state action ↔ other state action))
    (preserved : ∀ state action next, invariant state → condition state action →
      step state action = some next → invariant next)
    {state : State} {actions : List Action} (holds : invariant state) :
    Meets step condition state actions ↔ Meets step other state actions := by
  induction actions generalizing state with
  | nil => exact Iff.rfl
  | cons action rest ih =>
      simp only [Meets]
      rw [← agree state action holds]
      apply and_congr_right
      intro met
      apply forall₂_congr
      intro next stepped
      exact ih (preserved state action next holds met stepped)

end Machine

/-!
## Counting threads

Threads are numbered by spawn order, and `phase thread` is where a thread stands. A
reference count is right when it equals the number of threads standing in a phase that
holds a reference; `count_update` says how that number moves when one thread does.
-/

namespace Threads

variable {Phase : Type u}

/-- How many of the first `bound` threads stand in a phase satisfying `holds`. -/
def count (holds : Phase → Bool) (phase : ℕ → Phase) : ℕ → ℕ
  | 0 => 0
  | bound + 1 => count holds phase bound + (holds (phase bound)).toNat

@[simp]
theorem count_succ (holds : Phase → Bool) (phase : ℕ → Phase) (bound : ℕ) :
    count holds phase (bound + 1) = count holds phase bound + (holds (phase bound)).toNat := rfl

theorem count_update_of_le (holds : Phase → Bool) (phase : ℕ → Phase) {bound thread : ℕ}
    (next : Phase) (beyond : bound ≤ thread) :
    count holds (Function.update phase thread next) bound = count holds phase bound := by
  induction bound with
  | zero => rfl
  | succ bound ih =>
      have other : bound ≠ thread := by omega
      simp only [count_succ, Function.update_of_ne other, ih (by omega)]

theorem count_update (holds : Phase → Bool) (phase : ℕ → Phase) {bound thread : ℕ}
    (next : Phase) (below : thread < bound) :
    count holds (Function.update phase thread next) bound + (holds (phase thread)).toNat =
      count holds phase bound + (holds next).toNat := by
  induction bound with
  | zero => omega
  | succ bound ih =>
      by_cases last : bound = thread
      · subst last
        simp only [count_succ, Function.update_self,
          count_update_of_le holds phase next (Nat.le_refl bound)]
        omega
      · have inside := ih (by omega)
        simp only [count_succ, Function.update_of_ne last]
        omega

theorem count_pos {holds : Phase → Bool} {phase : ℕ → Phase} {bound thread : ℕ}
    (below : thread < bound) (held : holds (phase thread) = true) :
    0 < count holds phase bound := by
  induction bound with
  | zero => omega
  | succ bound ih =>
      by_cases last : bound = thread
      · subst last
        simp [held]
      · have inside := ih (by omega)
        simp only [count_succ]
        omega

theorem count_eq_zero {holds : Phase → Bool} {phase : ℕ → Phase} {bound : ℕ}
    (none_holds : ∀ thread < bound, holds (phase thread) = false) :
    count holds phase bound = 0 := by
  induction bound with
  | zero => rfl
  | succ bound ih =>
      simp [ih fun thread below => none_holds thread (by omega), none_holds bound (by omega)]

theorem count_mono {holds weaker : Phase → Bool} {phase : ℕ → Phase} {bound : ℕ}
    (implied : ∀ thread < bound, holds (phase thread) = true → weaker (phase thread) = true) :
    count holds phase bound ≤ count weaker phase bound := by
  induction bound with
  | zero => exact Nat.le_refl 0
  | succ bound ih =>
      have inside := ih fun thread below => implied thread (by omega)
      have last := implied bound (by omega)
      cases held : holds (phase bound) <;> simp_all <;> omega

theorem count_le_succ {holds other : Phase → Bool} {phase : ℕ → Phase} {bound single : ℕ}
    (only : ∀ thread < bound, holds (phase thread) = true → thread ≠ single →
      other (phase thread) = true) :
    count holds phase bound ≤ count other phase bound + 1 := by
  induction bound with
  | zero => exact Nat.zero_le 1
  | succ bound ih =>
      by_cases last : bound = single
      · have inside : count holds phase bound ≤ count other phase bound :=
          count_mono fun thread below held => only thread (by omega) held (by omega)
        have atMost := Bool.toNat_le (holds (phase bound))
        simp only [count_succ]
        omega
      · have inside := ih fun thread below => only thread (by omega)
        have kept := only bound (by omega)
        cases held : holds (phase bound) <;> simp_all <;> omega

end Threads
