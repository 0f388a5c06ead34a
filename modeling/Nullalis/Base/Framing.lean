import Mathlib.Algebra.Order.BigOperators.Group.List
import Mathlib.Algebra.Order.Group.Nat
import Mathlib.Data.Nat.Notation

/-!
# Framings of a stream

A framing takes the first frame off a text as soon as the frame is complete. When more text does
not change a complete frame, the frames of a stream do not depend on how the stream arrives: what
was taken off early stays taken off.
-/

universe u v

/-- The first frame of a text and what follows it, or nothing while no frame is complete. -/
abbrev Framing (Symbol : Type u) (Frame : Type v) := List Symbol → Option (Frame × List Symbol)

namespace Framing

variable {Symbol : Type u} {Frame : Type v} {framing : Framing Symbol Frame}
  {text rest pending more : List Symbol} {frame : Frame} {frames later : List Frame}

/-- More text does not change a complete frame. -/
def Stable (framing : Framing Symbol Frame) : Prop :=
  ∀ text frame rest more, framing text = some (frame, rest) →
    framing (text ++ more) = some (frame, rest ++ more)

/-- The text starts with these frames, and this much of it is pending behind them. -/
inductive Frames (framing : Framing Symbol Frame) :
    List Symbol → List Frame → List Symbol → Prop where
  | nil (text : List Symbol) : Frames framing text [] text
  | cons {text rest pending : List Symbol} {frame : Frame} {frames : List Frame}
      (first : framing text = some (frame, rest)) (others : Frames framing rest frames pending) :
      Frames framing text (frame :: frames) pending

theorem Frames.append (taken : Frames framing text frames pending) (stable : Stable framing)
    (more : List Symbol) : Frames framing (text ++ more) frames (pending ++ more) := by
  induction taken with
  | nil text => exact .nil _
  | cons first others ih => exact .cons (stable _ _ _ more first) ih

theorem Frames.trans (taken : Frames framing text frames rest)
    (further : Frames framing rest later pending) :
    Frames framing text (frames ++ later) pending := by
  induction taken with
  | nil text => exact further
  | cons first others ih => exact .cons first (ih further)

theorem Frames.cancel (taken : Frames framing text frames rest)
    (whole : Frames framing text later pending) (stops : framing pending = none) :
    ∃ further, later = frames ++ further ∧ Frames framing rest further pending := by
  induction taken generalizing later with
  | nil text => exact ⟨later, rfl, whole⟩
  | cons first others ih =>
      cases whole with
      | nil text =>
          rw [stops] at first
          cases first
      | cons first' others' =>
          cases first.symm.trans first'
          rcases ih others' with ⟨further, rfl, kept⟩
          exact ⟨further, rfl, kept⟩

theorem Frames.unique (taken : Frames framing text frames rest)
    (whole : Frames framing text later pending) (ends : framing rest = none)
    (stops : framing pending = none) : later = frames ∧ pending = rest := by
  rcases taken.cancel whole stops with ⟨further, rfl, kept⟩
  cases kept with
  | nil text => exact ⟨List.append_nil frames, rfl⟩
  | cons first others =>
      rw [ends] at first
      cases first

end Framing

/-!
## What is made of the frames
-/

theorem flatMap_eq_flatMap_iff {Frame : Type u} {Item : Type v} {first second : Frame → List Item}
    {frames : List Frame}
    (fewer : ∀ frame ∈ frames, (second frame).length ≤ (first frame).length) :
    frames.flatMap first = frames.flatMap second ↔ ∀ frame ∈ frames, first frame = second frame := by
  refine ⟨fun same => ?_, List.flatMap_congr⟩
  induction frames with
  | nil => simp
  | cons frame later ih =>
      rcases List.forall_mem_cons.mp fewer with ⟨here, further⟩
      rw [List.flatMap_cons, List.flatMap_cons] at same
      have rest : (later.flatMap second).length ≤ (later.flatMap first).length := by
        rw [List.length_flatMap, List.length_flatMap]
        exact List.sum_le_sum further
      have lengths := congrArg List.length same
      rw [List.length_append, List.length_append] at lengths
      rcases List.append_inj same (by omega) with ⟨head, tail⟩
      exact List.forall_mem_cons.mpr ⟨head, ih further tail⟩
