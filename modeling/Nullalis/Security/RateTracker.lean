import Mathlib.Data.Int.Notation
import Mathlib.Data.Nat.Notation
import Mathlib.Data.List.Pairwise

/-!
# The rate tracker

The tracker holds the times of the recent actions. Recording an action first removes the times that
have left the window, and then adds the time of the action, whether it is allowed or not. The clock
is read for each of both.
-/

namespace Nullalis.Security

structure RateTracker where
  timestamps : List ℤ
  window_ns : ℤ
  max_actions : ℕ
deriving DecidableEq

/-- The two times that a call reads: when it removes what has left the window, and when it adds the
action. -/
structure ActionTimes where
  pruned_at : ℤ
  recorded_at : ℤ
deriving DecidableEq

namespace RateTracker

def initWithWindow (max_actions : ℕ) (window_ns : ℤ) : RateTracker where
  timestamps := []
  window_ns
  max_actions

def prune (tracker : RateTracker) (now : ℤ) : RateTracker :=
  { tracker with timestamps := tracker.timestamps.filter (now - tracker.window_ns < ·) }

/-- Record an action. Is it allowed? -/
def recordAction (tracker : RateTracker) (times : ActionTimes) : Bool × RateTracker :=
  let pruned := tracker.prune times.pruned_at
  let timestamps := pruned.timestamps ++ [times.recorded_at]
  (timestamps.length ≤ pruned.max_actions, { pruned with timestamps })

/-- An action that was recorded, with the answer. -/
structure Recorded where
  times : ActionTimes
  allowed : Bool
deriving DecidableEq

/-- Record actions one after the other. -/
def run (tracker : RateTracker) : List ActionTimes → List Recorded
  | [] => []
  | times :: rest =>
      ⟨times, (tracker.recordAction times).1⟩ :: run (tracker.recordAction times).2 rest

/-- The clock never goes back. -/
def Clocked (last : ℤ) : List ActionTimes → Prop
  | [] => True
  | times :: rest =>
      last ≤ times.pruned_at ∧ times.pruned_at ≤ times.recorded_at ∧ Clocked times.recorded_at rest

/-- Is the action one that was allowed in the window that ends at a time? -/
def Recorded.allowedWithin (window_ns time : ℤ) (recorded : Recorded) : Bool :=
  recorded.allowed && time - window_ns < recorded.times.recorded_at &&
    recorded.times.recorded_at ≤ time

/-- Was the action recorded within the window that ended at a time? -/
def Recorded.after (window_ns time : ℤ) (recorded : Recorded) : Bool :=
  time - window_ns < recorded.times.recorded_at

/-!
## Windows
-/

/-- The times hold all actions of the window of any later time. -/
def Holds (window_ns : ℤ) (timestamps : List ℤ) (earlier : List Recorded) (last : ℤ) : Prop :=
  ∀ time, last ≤ time →
    timestamps.filter (time - window_ns < ·) =
      (earlier.map (·.times.recorded_at)).filter (time - window_ns < ·)

def timesAfter (window_ns : ℤ) (timestamps : List ℤ) (times : ActionTimes) : List ℤ :=
  timestamps.filter (times.pruned_at - window_ns < ·) ++ [times.recorded_at]

variable {window_ns last : ℤ} {max_actions : ℕ} {timestamps : List ℤ} {earlier : List Recorded}
  {times : ActionTimes}

theorem run_cons (rest : List ActionTimes) :
    run ⟨timestamps, window_ns, max_actions⟩ (times :: rest) =
      ⟨times, decide ((timesAfter window_ns timestamps times).length ≤ max_actions)⟩ ::
        run ⟨timesAfter window_ns timestamps times, window_ns, max_actions⟩ rest := rfl

theorem length_timesAfter (holds : Holds window_ns timestamps earlier last)
    (later : last ≤ times.pruned_at) :
    (timesAfter window_ns timestamps times).length =
      (earlier.filter (·.after window_ns times.pruned_at)).length + 1 := by
  have kept := congrArg List.length (holds times.pruned_at later)
  rw [List.filter_map, List.length_map] at kept
  rw [timesAfter, List.length_append, kept]
  rfl

theorem Holds.timesAfter (holds : Holds window_ns timestamps earlier last)
    (later : last ≤ times.pruned_at) (ordered : times.pruned_at ≤ times.recorded_at)
    (allowed : Bool) :
    Holds window_ns (timesAfter window_ns timestamps times) (earlier ++ [⟨times, allowed⟩])
      times.recorded_at := by
  intro time after
  have narrower : timestamps.filter (fun stamp =>
      decide (time - window_ns < stamp) && decide (times.pruned_at - window_ns < stamp)) =
      timestamps.filter (time - window_ns < ·) := by
    apply List.filter_congr
    intro stamp _
    by_cases inside : time - window_ns < stamp
    · have wider : times.pruned_at - window_ns < stamp := by omega
      simp [inside, wider]
    · simp [inside]
  simp only [RateTracker.timesAfter, List.map_append, List.filter_append, List.map_cons,
    List.map_nil, List.filter_filter, narrower]
  rw [holds time (by omega)]

theorem length_allowedWithin_le {actions : List ActionTimes}
    (holds : Holds window_ns timestamps earlier last) (clock : Clocked last actions) (time : ℤ)
    (bounded : (earlier.filter (·.allowedWithin window_ns time)).length ≤ max_actions) :
    ((earlier ++ run ⟨timestamps, window_ns, max_actions⟩ actions).filter
      (·.allowedWithin window_ns time)).length ≤ max_actions := by
  induction actions generalizing timestamps earlier last with
  | nil => rwa [run, List.append_nil]
  | cons times rest ih =>
      rcases clock with ⟨later, ordered, clock⟩
      rw [run_cons, List.append_cons]
      refine ih (holds.timesAfter later ordered _) clock ?_
      rw [List.filter_append, List.length_append, List.filter_cons, List.filter_nil]
      split
      case isTrue counted =>
        -- The last allowed action of the window was counted together with all before it.
        simp only [Recorded.allowedWithin, Bool.and_eq_true, decide_eq_true_eq] at counted
        have room := counted.1.1
        rw [length_timesAfter holds later] at room
        have fewer : (earlier.filter (·.allowedWithin window_ns time)).length ≤
            (earlier.filter (·.after window_ns times.pruned_at)).length := by
          rw [← List.countP_eq_length_filter, ← List.countP_eq_length_filter]
          apply List.countP_mono_left
          intro recorded _ within
          simp only [Recorded.allowedWithin, Recorded.after, Bool.and_eq_true,
            decide_eq_true_eq] at within ⊢
          omega
        rw [List.length_singleton]
        omega
      case isFalse => exact bounded

theorem le_length_of_refused {actions : List ActionTimes} {before rest : List Recorded}
    {recorded : Recorded} (holds : Holds window_ns timestamps earlier last)
    (clock : Clocked last actions)
    (shape : run ⟨timestamps, window_ns, max_actions⟩ actions = before ++ recorded :: rest)
    (refused : recorded.allowed = false) :
    max_actions ≤ ((earlier ++ before).filter
      (·.after window_ns recorded.times.pruned_at)).length := by
  induction actions generalizing timestamps earlier last before with
  | nil => simp [run] at shape
  | cons times others ih =>
      rcases clock with ⟨later, ordered, clock⟩
      rw [run_cons] at shape
      cases before with
      | nil =>
          rw [List.nil_append, List.cons.injEq] at shape
          rw [← shape.1] at refused ⊢
          rw [decide_eq_false_iff_not, length_timesAfter holds later] at refused
          rw [List.append_nil]
          exact Nat.lt_succ_iff.mp (Nat.lt_of_not_le refused)
      | cons first before =>
          rw [List.cons_append, List.cons.injEq] at shape
          rw [← shape.1, List.append_cons]
          exact ih (holds.timesAfter later ordered _) clock shape.2

/-- In every run no window gets more allowed actions than there may be, and an action is refused
only if so many others, allowed or not, were recorded in the window before it. -/
theorem rate_bounded {actions : List ActionTimes} {start : ℤ} (clock : Clocked start actions)
    (max_actions : ℕ) (window_ns : ℤ) :
    (∀ time, ((run (initWithWindow max_actions window_ns) actions).filter
      (·.allowedWithin window_ns time)).length ≤ max_actions) ∧
    ∀ before recorded rest,
      run (initWithWindow max_actions window_ns) actions = before ++ recorded :: rest →
        recorded.allowed = false →
          max_actions ≤
            (before.filter (·.after window_ns recorded.times.pruned_at)).length := by
  have empty : Holds window_ns [] [] start := fun _ _ => rfl
  constructor
  · intro time
    exact length_allowedWithin_le empty clock time (Nat.zero_le max_actions)
  · intro before recorded rest shape refused
    exact le_length_of_refused empty clock shape refused

/-- An action that is refused and one after the window of the first. -/
def refusedTwice : List ActionTimes :=
  [⟨0, 0⟩, ⟨5, 5⟩, ⟨12, 12⟩]

theorem rate_bounded_refusedTwice :
    (∀ time, ((run (initWithWindow 1 10) refusedTwice).filter
      (·.allowedWithin 10 time)).length ≤ 1) ∧
    ∀ before recorded rest,
      run (initWithWindow 1 10) refusedTwice = before ++ recorded :: rest →
        recorded.allowed = false →
          1 ≤ (before.filter (·.after 10 recorded.times.pruned_at)).length := by
  have clock : Clocked 0 refusedTwice := by simp [Clocked, refusedTwice]
  exact rate_bounded clock 1 10

/-- The last action is refused because of one that was refused. -/
theorem not_refused_only_by_allowed :
    ¬∀ (actions : List ActionTimes) (start : ℤ) (max_actions : ℕ) (window_ns : ℤ),
      Clocked start actions → ∀ before recorded rest,
        run (initWithWindow max_actions window_ns) actions = before ++ recorded :: rest →
          recorded.allowed = false →
            max_actions ≤
              (before.filter (·.allowedWithin window_ns recorded.times.recorded_at)).length := by
  intro only
  have clock : Clocked 0 refusedTwice := by simp [Clocked, refusedTwice]
  have few := only refusedTwice 0 1 10 clock [⟨⟨0, 0⟩, true⟩, ⟨⟨5, 5⟩, false⟩] ⟨⟨12, 12⟩, false⟩ []
    (by decide) rfl
  revert few
  decide

end RateTracker

end Nullalis.Security
