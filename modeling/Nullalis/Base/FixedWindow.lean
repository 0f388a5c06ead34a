import Mathlib.Algebra.Order.Group.Int
import Mathlib.Data.List.Count

/-!
# Counting in windows of a fixed length

A limiter counts what it lets through since a window began, up to a limit, and begins a new window
when the old one is over. An interval shorter than a window meets two windows at most, so at most
twice the limit is let through in it.
-/

namespace FixedWindow

variable {window start now : ℤ} {limit count : ℕ} {times : List ℤ}

/-- The times let through, where `count` of them lie in the window that began at `start`. -/
structure Counted (window : ℤ) (limit : ℕ) (times : List ℤ) (start : ℤ) (count : ℕ) : Prop where
  bounded : count ≤ limit
  before_end : ∀ time ∈ times, time < start + window
  current : times.countP (start ≤ ·) ≤ count
  recent : ∀ first, start - window < first → times.countP (first ≤ ·) ≤ limit + count
  interval : ∀ first last, last - first < window →
    times.countP (fun time => first ≤ time ∧ time ≤ last) ≤ 2 * limit

theorem counted_nil (start : ℤ) : Counted window limit [] start 0 where
  bounded := Nat.zero_le limit
  before_end := by simp
  current := Nat.le_refl 0
  recent _ _ := Nat.zero_le _
  interval _ _ _ := Nat.zero_le _

theorem Counted.renew (counted : Counted window limit times start count) (positive : 0 < window)
    (past : start + window ≤ now) : Counted window limit times now 0 where
  bounded := Nat.zero_le limit
  before_end time mem := by
    have before := counted.before_end time mem
    omega
  current := by
    rw [Nat.le_zero, List.countP_eq_zero]
    intro time mem
    have before := counted.before_end time mem
    simp only [decide_eq_true_eq, not_le]
    omega
  recent first near := by
    have later : times.countP (first ≤ ·) ≤ times.countP (start ≤ ·) := by
      apply List.countP_mono_left
      intro time _ from_first
      simp only [decide_eq_true_eq] at from_first ⊢
      omega
    have current := counted.current
    have bounded := counted.bounded
    omega
  interval := counted.interval

theorem Counted.add (counted : Counted window limit times start count) (room : count < limit)
    (begun : start ≤ now) (inside : now < start + window) :
    Counted window limit (times ++ [now]) start (count + 1) where
  bounded := room
  before_end time mem := by
    rcases List.mem_append.mp mem with mem | mem
    · exact counted.before_end time mem
    · rwa [List.mem_singleton.mp mem]
  current := by
    have current := counted.current
    simp only [List.countP_append, List.countP_singleton, begun, decide_true, if_true]
    omega
  recent first near := by
    have recent := counted.recent first near
    have one : [now].countP (first ≤ ·) ≤ 1 := List.countP_le_length
    rw [List.countP_append]
    omega
  interval first last short := by
    have before := counted.interval first last short
    rw [List.countP_append]
    by_cases within : first ≤ now ∧ now ≤ last
    · have recent := counted.recent first (by omega)
      have fewer : times.countP (fun time => first ≤ time ∧ time ≤ last) ≤
          times.countP (first ≤ ·) := by
        apply List.countP_mono_left
        intro time _ between
        simp only [decide_eq_true_eq] at between ⊢
        exact between.1
      have one : [now].countP (fun time => first ≤ time ∧ time ≤ last) ≤ 1 := List.countP_le_length
      omega
    · have none : [now].countP (fun time => first ≤ time ∧ time ≤ last) = 0 := by
        rw [List.countP_singleton, if_neg (by simpa using within)]
      omega

end FixedWindow
