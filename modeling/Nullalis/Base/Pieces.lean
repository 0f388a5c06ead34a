import Mathlib.Data.List.GetD
import Nullalis.Base.CodePoints

/-!
# Cutting a list piece by piece

An iterator cuts a piece off what remains, until it says that nothing does. If every piece comes
from the front and is not empty, the iterator ends and its pieces make up the list. Whether all of
the pieces have a property is decided step by step, by what remains before each of them.

A UTF-8 text may be cut before any byte that is not a continuation byte, and among any four bytes
of it there is one.
-/

universe u

namespace Pieces

variable {Symbol : Type u} {next : List Symbol → Option (List Symbol × List Symbol)}
  {remaining chunk rest : List Symbol} {chunks : List (List Symbol)}

/-- Take pieces until there are none, at most so many. -/
def collect (next : List Symbol → Option (List Symbol × List Symbol)) :
    ℕ → List Symbol → Option (List (List Symbol))
  | 0, _ => none
  | fuel + 1, remaining =>
      match next remaining with
      | none => some []
      | some (chunk, rest) => (collect next fuel rest).map (chunk :: ·)

/-- What an iterator yields, from what remains. -/
inductive Yields (next : List Symbol → Option (List Symbol × List Symbol)) :
    List Symbol → List (List Symbol) → Prop where
  | done {remaining : List Symbol} (ended : next remaining = none) : Yields next remaining []
  | more {remaining chunk rest : List Symbol} {chunks : List (List Symbol)}
      (cut : next remaining = some (chunk, rest))
      (yields : Yields next rest chunks) : Yields next remaining (chunk :: chunks)

/-- What remains at some call of the iterator. -/
inductive Reaches (next : List Symbol → Option (List Symbol × List Symbol)) :
    List Symbol → List Symbol → Prop where
  | here {remaining : List Symbol} : Reaches next remaining remaining
  | further {remaining chunk rest later : List Symbol}
      (cut : next remaining = some (chunk, rest))
      (reaches : Reaches next rest later) : Reaches next remaining later

/-- Pieces come from the front and are not empty, and only an empty rest ends the iterator. -/
structure Cutting (next : List Symbol → Option (List Symbol × List Symbol)) : Prop where
  front : ∀ remaining chunk rest, next remaining = some (chunk, rest) → chunk ++ rest = remaining
  filled : ∀ remaining chunk rest, next remaining = some (chunk, rest) → chunk ≠ []
  ends : ∀ remaining, next remaining = none ↔ remaining = []

theorem Cutting.collect (cutting : Cutting next) {fuel : ℕ} (enough : remaining.length < fuel) :
    ∃ chunks, collect next fuel remaining = some chunks ∧ Yields next remaining chunks := by
  induction fuel generalizing remaining with
  | zero => cases enough
  | succ fuel ih =>
      cases cut : next remaining with
      | none => exact ⟨[], by rw [Pieces.collect, cut], .done cut⟩
      | some pair =>
          obtain ⟨chunk, rest⟩ := pair
          have length := congrArg List.length (cutting.front remaining chunk rest cut)
          have positive := List.length_pos_iff.mpr (cutting.filled remaining chunk rest cut)
          rw [List.length_append] at length
          have shorter : rest.length < fuel := by omega
          obtain ⟨chunks, collected, yields⟩ := ih shorter
          exact ⟨chunk :: chunks, by rw [Pieces.collect, cut]; simp [collected], .more cut yields⟩

theorem Cutting.flatten (cutting : Cutting next) (yields : Yields next remaining chunks) :
    chunks.flatten = remaining := by
  induction yields with
  | done ended => exact ((cutting.ends _).mp ended).symm
  | more cut _ ih => rw [List.flatten_cons, ih, cutting.front _ _ _ cut]

theorem forall_mem_iff (invariant fine good : List Symbol → Prop)
    (decides : ∀ remaining chunk rest, invariant remaining → next remaining = some (chunk, rest) →
      (good chunk ↔ fine remaining))
    (carries : ∀ remaining chunk rest, invariant remaining → next remaining = some (chunk, rest) →
      good chunk → invariant rest)
    (ended : ∀ remaining, next remaining = none → fine remaining)
    (holds : invariant remaining) (yields : Yields next remaining chunks) :
    (∀ chunk ∈ chunks, good chunk) ↔ ∀ later, Reaches next remaining later → fine later := by
  induction yields with
  | done last =>
      refine ⟨fun _ later reaches => ?_, fun _ => by simp⟩
      cases reaches with
      | here => exact ended _ last
      | further cut => rw [last] at cut; cases cut
  | more cut _ ih =>
      rw [List.forall_mem_cons, decides _ _ _ holds cut]
      constructor
      · rintro ⟨first, others⟩ later reaches
        have goes_on := ih (carries _ _ _ holds cut ((decides _ _ _ holds cut).mpr first))
        cases reaches with
        | here => exact first
        | further again reaches =>
            rw [cut] at again
            obtain ⟨rfl, rfl⟩ := Prod.mk.inj (Option.some.inj again)
            exact goes_on.mp others later reaches
      · intro all
        have first := all _ .here
        have goes_on := ih (carries _ _ _ holds cut ((decides _ _ _ holds cut).mpr first))
        exact ⟨first, goes_on.mpr fun later reaches => all later (.further cut reaches)⟩

end Pieces

namespace Utf8

variable {state next : State} {value : UInt8} {first second text : Bytes}

theorem owed_start (started : start value = some next) : next.owed ≤ 3 := by
  simp only [start] at started
  repeat' split at started
  all_goals cases started
  all_goals decide

theorem owed_step (few : state.owed ≤ 3) (stepped : step state value = some next) :
    next.owed ≤ 3 := by
  cases state with
  | boundary => exact owed_start stepped
  | within more low high =>
      simp only [State.owed] at few
      simp only [step] at stepped
      split at stepped
      · split at stepped
        · cases stepped
          exact Nat.zero_le 3
        · cases stepped
          simp only [State.owed] at few ⊢
          omega
      · cases stepped

theorem owed_run (few : state.owed ≤ 3) (read : run state text = some next) : next.owed ≤ 3 := by
  induction text generalizing state with
  | nil => exact Option.some.inj read ▸ few
  | cons value rest ih =>
      rw [run_cons, Option.bind_eq_some_iff] at read
      obtain ⟨middle, stepped, read⟩ := read
      exact ih (owed_step few stepped) read

theorem owed_of_continuations (inner : ∀ value ∈ text, isContinuation value = true)
    (read : run state text = some next) : state.owed = next.owed + text.length := by
  induction text generalizing state with
  | nil => exact congrArg State.owed (Option.some.inj read)
  | cons value rest ih =>
      rw [List.forall_mem_cons] at inner
      rw [run_cons, Option.bind_eq_some_iff] at read
      obtain ⟨middle, stepped, read⟩ := read
      have later := ih inner.2 read
      have one : state.owed = middle.owed + 1 := by
        cases state with
        | boundary =>
            rw [step_boundary_of_isContinuation inner.1] at stepped
            cases stepped
        | within more low high =>
            simp only [step] at stepped
            split at stepped
            · split at stepped <;> cases stepped <;> rfl
            · cases stepped
      rw [one, later, List.length_cons]
      omega

theorem length_continuations_le (whole : valid (first ++ text ++ second) = true)
    (inner : ∀ value ∈ text, isContinuation value = true) : text.length ≤ 3 := by
  rw [valid, beq_iff_eq, List.append_assoc, run_append, Option.bind_eq_some_iff] at whole
  obtain ⟨state, before, whole⟩ := whole
  rw [run_append, Option.bind_eq_some_iff] at whole
  obtain ⟨middle, read, -⟩ := whole
  have start : State.boundary.owed ≤ 3 := Nat.zero_le 3
  have few : state.owed ≤ 3 := owed_run start before
  have all := owed_of_continuations inner read
  omega

theorem valid_cut_at {index : ℕ} (whole : valid text = true) (below : index < text.length) :
    valid (text.take index) = !isContinuation (text.getD index 0) ∧
      valid (text.drop index) = !isContinuation (text.getD index 0) := by
  have split : text.take index ++ text[index] :: text.drop (index + 1) = text := by
    rw [← List.drop_eq_getElem_cons below, List.take_append_drop]
  have cut := valid_cut (split.symm ▸ whole :)
  rw [List.getD_eq_getElem _ _ below]
  rwa [← List.drop_eq_getElem_cons below] at cut

theorem valid_of_append (whole : valid (first ++ second) = true) (front : valid first = true) :
    valid second = true := by
  rw [valid, beq_iff_eq] at whole front ⊢
  rwa [run_append, front] at whole

end Utf8
