import Mathlib.Data.Nat.Notation
import Mathlib.Logic.Function.Basic

/-!
# Reference-counted cells

Cells are numbered. A cell carries a reference count and the number of times it was freed,
which a correct program keeps at most one. `Balanced` is the accounting that a program with
a known number of holders of a cell maintains: the count equals that number, and the cell
was freed exactly when nobody holds it any more.
-/

/-- The reference counts of a family of cells, and how often each cell was freed. -/
structure RefCounts where
  refs : ℕ → ℕ
  frees : ℕ → ℕ

namespace RefCounts

variable {cells : RefCounts} {cell other holders count : ℕ}

def empty : RefCounts :=
  ⟨fun _ => 0, fun _ => 0⟩

def create (cells : RefCounts) (cell count : ℕ) : RefCounts :=
  { cells with refs := Function.update cells.refs cell count }

def retain (cells : RefCounts) (cell : ℕ) : RefCounts :=
  { cells with refs := Function.update cells.refs cell (cells.refs cell + 1) }

/-- Drop one reference; the last one frees the cell. -/
def release (cells : RefCounts) (cell : ℕ) : RefCounts where
  refs := Function.update cells.refs cell (cells.refs cell - 1)
  frees :=
    if cells.refs cell = 1 then Function.update cells.frees cell (cells.frees cell + 1)
    else cells.frees

def live (cells : RefCounts) (cell : ℕ) : Bool :=
  cells.frees cell == 0

/-- The cell has `holders` holders and is freed when there is none. -/
structure Balanced (cells : RefCounts) (cell holders : ℕ) : Prop where
  counted : cells.refs cell = holders
  freed : cells.frees cell = if holders = 0 then 1 else 0

theorem Balanced.of_eq (balanced : cells.Balanced cell holders) (same : holders = other) :
    cells.Balanced cell other :=
  same ▸ balanced

/-- Two families agree on a cell. -/
structure SameAt (first second : RefCounts) (cell : ℕ) : Prop where
  refs : first.refs cell = second.refs cell
  frees : first.frees cell = second.frees cell

theorem Balanced.of_sameAt {after : RefCounts} (balanced : cells.Balanced cell holders)
    (same : after.SameAt cells cell) : after.Balanced cell holders :=
  ⟨same.refs.trans balanced.counted, same.frees.trans balanced.freed⟩

theorem sameAt_create (distinct : cell ≠ other) :
    (cells.create other count).SameAt cells cell :=
  ⟨Function.update_of_ne distinct .., rfl⟩

theorem sameAt_retain (distinct : cell ≠ other) : (cells.retain other).SameAt cells cell :=
  ⟨Function.update_of_ne distinct .., rfl⟩

theorem sameAt_release (distinct : cell ≠ other) : (cells.release other).SameAt cells cell := by
  refine ⟨Function.update_of_ne distinct .., ?_⟩
  simp only [release]
  split
  · exact Function.update_of_ne distinct ..
  · rfl

theorem Balanced.live (balanced : cells.Balanced cell holders) (held : 0 < holders) :
    cells.live cell = true := by
  simp [RefCounts.live, balanced.freed, Nat.ne_of_gt held]

theorem balanced_create (fresh : cells.frees cell = 0) (held : 0 < count) :
    (cells.create cell count).Balanced cell count :=
  ⟨Function.update_self .., by simpa [create, Nat.ne_of_gt held] using fresh⟩

theorem Balanced.retain (balanced : cells.Balanced cell holders) (held : 0 < holders) :
    (cells.retain cell).Balanced cell (holders + 1) := by
  refine ⟨?_, ?_⟩
  · simp [RefCounts.retain, balanced.counted]
  · simp [RefCounts.retain, balanced.freed, Nat.ne_of_gt held]

theorem Balanced.release (balanced : cells.Balanced cell (holders + 1)) :
    (cells.release cell).Balanced cell holders := by
  refine ⟨?_, ?_⟩
  · simp [RefCounts.release, balanced.counted]
  · simp only [RefCounts.release, balanced.counted]
    split <;> simp_all [balanced.freed]

end RefCounts
