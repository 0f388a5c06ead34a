import Mathlib.Logic.Function.Basic
import Nullalis.Base.Bytes
import Nullalis.Base.CommonSubsequence

/-!
# The diff of an artifact

Two texts are compared line by line. A table says how much of their beginnings is common, and the
diff is read off it from the end.

Allocation succeeds. The table is one array in which the rows follow each other.
-/

namespace Nullalis.Artifacts

def MAX_DIFF_LINES : ℕ := 1024

inductive DiffOpKind where
  | same
  | add
  | del
deriving DecidableEq

structure DiffOp where
  kind : DiffOpKind
  text : Bytes
deriving DecidableEq

/-- Split what follows an unfinished line. -/
def splitLinesFrom : Bytes → Bytes → List Bytes
  | line, [] => if line.isEmpty then [] else [line]
  | line, value :: rest =>
      if value = byte '\n' then line :: splitLinesFrom [] rest
      else splitLinesFrom (line ++ [value]) rest

def splitLines (input : Bytes) : List Bytes :=
  splitLinesFrom [] input

def emitLine (mark : Char) (line : Bytes) : Bytes :=
  byte mark :: line ++ [byte '\n']

def emitReplace (before_lines after_lines : List Bytes) : Bytes :=
  before_lines.flatMap (emitLine '-') ++ after_lines.flatMap (emitLine '+')

section Table

variable (before_lines after_lines : List Bytes)

def cell (i j : ℕ) : ℕ :=
  i * (after_lines.length + 1) + j

/-- Set the cell after this row and this column. -/
def fillCell (i : ℕ) (dp : ℕ → ℕ) (j : ℕ) : ℕ → ℕ :=
  Function.update dp (cell after_lines (i + 1) (j + 1))
    (if before_lines[i]? = after_lines[j]? then dp (cell after_lines i j) + 1
    else
      let up := dp (cell after_lines i (j + 1))
      let left := dp (cell after_lines (i + 1) j)
      if left ≤ up then up else left)

def fillRow (dp : ℕ → ℕ) (i : ℕ) : ℕ → ℕ :=
  (List.range after_lines.length).foldl (fillCell before_lines after_lines i) dp

def fillTable : ℕ → ℕ :=
  (List.range before_lines.length).foldl (fillRow before_lines after_lines) fun _ => 0

/-- The operations in reverse, from a cell back to the first one. -/
def backtrack (dp : ℕ → ℕ) : ℕ → ℕ → List DiffOp
  | 0, 0 => []
  | 0, rj + 1 => ⟨.add, after_lines.getD rj []⟩ :: backtrack dp 0 rj
  | ri + 1, 0 => ⟨.del, before_lines.getD ri []⟩ :: backtrack dp ri 0
  | ri + 1, rj + 1 =>
      if before_lines[ri]? = after_lines[rj]? then
        ⟨.same, before_lines.getD ri []⟩ :: backtrack dp ri rj
      else if dp (cell after_lines ri (rj + 1)) ≤ dp (cell after_lines (ri + 1) rj) then
        ⟨.add, after_lines.getD rj []⟩ :: backtrack dp (ri + 1) rj
      else ⟨.del, before_lines.getD ri []⟩ :: backtrack dp ri (rj + 1)
termination_by ri rj => ri + rj

end Table

def DiffOpKind.mark : DiffOpKind → Char
  | .same => ' '
  | .add => '+'
  | .del => '-'

def unifiedLineDiff (before after : Bytes) : Bytes :=
  let before_lines := splitLines before
  let after_lines := splitLines after
  if before = after then []
  else if MAX_DIFF_LINES < before_lines.length ∨ MAX_DIFF_LINES < after_lines.length then
    emitReplace before_lines after_lines
  else
    let dp := fillTable before_lines after_lines
    let ops := backtrack before_lines after_lines dp before_lines.length after_lines.length
    ops.reverse.flatMap fun op => emitLine op.kind.mark op.text

/-!
## What a diff says
-/

/-- A line without its mark, if it is one of these. -/
def unmark (marks : List Char) (line : Bytes) : Option Bytes :=
  line.head?.bind fun mark => if mark ∈ marks.map byte then some line.tail else none

/-- The lines of a diff with one of these marks, without the mark. -/
def marked (marks : List Char) (output : Bytes) : List Bytes :=
  (splitLines output).filterMap (unmark marks)

/-- A diff of two texts that differ. -/
structure Diffs (before after output : Bytes) : Prop where
  before_lines : marked [' ', '-'] output = splitLines before
  after_lines : marked [' ', '+'] output = splitLines after
  longest : (splitLines before).length ≤ MAX_DIFF_LINES →
    (splitLines after).length ≤ MAX_DIFF_LINES →
      CommonSubsequence.Longest (splitLines before) (splitLines after)
        (marked [' '] output).length

variable {before after line rest : Bytes} {before_lines after_lines lines : List Bytes}
  {dp : ℕ → ℕ} {i j ri rj : ℕ} {ops : List DiffOp} {marks : List Char}

/-!
## Lines
-/

theorem splitLinesFrom_append (clean : byte '\n' ∉ line) (start : Bytes) :
    splitLinesFrom start (line ++ byte '\n' :: rest) = (start ++ line) :: splitLines rest := by
  induction line generalizing start with
  | nil => simp [splitLinesFrom, splitLines]
  | cons first more ih =>
      rw [List.mem_cons, not_or] at clean
      rw [List.cons_append, splitLinesFrom, if_neg (Ne.symm clean.1), ih clean.2]
      simp

theorem splitLinesFrom_clean (clean : byte '\n' ∉ line) (start : Bytes) :
    splitLinesFrom start line = if (start ++ line).isEmpty then [] else [start ++ line] := by
  induction line generalizing start with
  | nil => rw [splitLinesFrom, List.append_nil]
  | cons first more ih =>
      rw [List.mem_cons, not_or] at clean
      rw [splitLinesFrom, if_neg (Ne.symm clean.1), ih clean.2, List.append_assoc,
        List.singleton_append]

theorem splitLines_flatMap (clean : ∀ line ∈ lines, byte '\n' ∉ line) (last : byte '\n' ∉ line) :
    splitLines (lines.flatMap (fun line => line ++ [byte '\n']) ++ line) =
      lines ++ if line.isEmpty then [] else [line] := by
  induction lines with
  | nil => exact splitLinesFrom_clean last []
  | cons first more ih =>
      rw [List.forall_mem_cons] at clean
      rw [List.flatMap_cons, List.append_assoc, List.append_assoc, List.singleton_append,
        splitLines, splitLinesFrom_append clean.1, List.nil_append, ih clean.2, List.cons_append]

theorem clean_splitLinesFrom {start input : Bytes} (clean : byte '\n' ∉ start) :
    ∀ line ∈ splitLinesFrom start input, byte '\n' ∉ line := by
  induction input generalizing start with
  | nil =>
      rw [splitLinesFrom]
      split
      · simp
      · simpa using clean
  | cons value rest ih =>
      rw [splitLinesFrom]
      split
      · rw [List.forall_mem_cons]
        exact ⟨clean, ih (by simp)⟩
      · rename_i other
        refine ih ?_
        rw [List.mem_append, List.mem_singleton, not_or]
        exact ⟨clean, Ne.symm other⟩

theorem clean_splitLines (input : Bytes) : ∀ line ∈ splitLines input, byte '\n' ∉ line :=
  clean_splitLinesFrom (by simp)

theorem splitLinesFrom_ne_nil {start input : Bytes} (some_byte : start ++ input ≠ []) :
    splitLinesFrom start input ≠ [] := by
  induction input generalizing start with
  | nil =>
      rw [List.append_nil] at some_byte
      rw [splitLinesFrom, if_neg (by simpa using some_byte)]
      exact List.cons_ne_nil _ _
  | cons value rest ih =>
      rw [splitLinesFrom]
      split
      · exact List.cons_ne_nil _ _
      · exact ih (by simp)

theorem eq_nil_of_splitLines {input : Bytes} (no_lines : splitLines input = []) : input = [] := by
  by_contra some_byte
  have whole : [] ++ input ≠ [] := some_byte
  exact splitLinesFrom_ne_nil whole no_lines

/-!
## Reading a diff
-/

def texts (kinds : List DiffOpKind) (ops : List DiffOp) : List Bytes :=
  (ops.filter fun op => op.kind ∈ kinds).map DiffOp.text

def emit (ops : List DiffOp) : Bytes :=
  ops.flatMap fun op => emitLine op.kind.mark op.text

theorem texts_append (kinds : List DiffOpKind) (ops more : List DiffOp) :
    texts kinds (ops ++ more) = texts kinds ops ++ texts kinds more := by
  rw [texts, List.filter_append, List.map_append, texts, texts]

theorem texts_singleton (kinds : List DiffOpKind) (op : DiffOp) :
    texts kinds [op] = if op.kind ∈ kinds then [op.text] else [] := by
  rw [texts, List.filter_singleton]
  by_cases mem : op.kind ∈ kinds
  · simp [mem]
  · simp [mem]

theorem mark_mem (kind : DiffOpKind) (kinds : List DiffOpKind) :
    byte kind.mark ∈ (kinds.map DiffOpKind.mark).map byte ↔ kind ∈ kinds := by
  have injective : Function.Injective fun kind : DiffOpKind => byte kind.mark := by
    intro first second same
    cases first <;> cases second <;> first | rfl | exact absurd same (by decide)
  rw [List.map_map]
  exact List.mem_map_of_injective injective

theorem marked_emit (kinds : List DiffOpKind) (clean : ∀ op ∈ ops, byte '\n' ∉ op.text) :
    marked (kinds.map DiffOpKind.mark) (emit ops) = texts kinds ops := by
  have whole : emit ops =
      ((ops.map fun op => byte op.kind.mark :: op.text).flatMap fun line => line ++ [byte '\n']) ++
        [] := by
    rw [emit, List.append_nil, List.flatMap_map]
    rfl
  have clean_lines : ∀ line ∈ ops.map fun op => byte op.kind.mark :: op.text,
      byte '\n' ∉ line := by
    intro line mem
    obtain ⟨op, present, rfl⟩ := List.mem_map.mp mem
    rw [List.mem_cons, not_or]
    refine ⟨?_, clean op present⟩
    cases op.kind <;> decide
  rw [marked, whole, splitLines_flatMap clean_lines (by simp)]
  simp only [List.isEmpty_nil, if_true, List.append_nil]
  clear whole clean_lines clean
  induction ops with
  | nil => rfl
  | cons op rest ih =>
      have read : unmark (kinds.map DiffOpKind.mark) (byte op.kind.mark :: op.text) =
          if op.kind ∈ kinds then some op.text else none := by
        simp only [unmark, List.head?_cons, Option.bind_some, mark_mem, List.tail_cons]
      rw [List.map_cons]
      by_cases mem : op.kind ∈ kinds
      · rw [if_pos mem] at read
        rw [List.filterMap_cons_some read, ih, texts, texts, List.filter_cons_of_pos (by simpa),
          List.map_cons]
      · rw [if_neg mem] at read
        rw [List.filterMap_cons_none read, ih, texts, texts, List.filter_cons_of_neg (by simpa)]

/-!
## The table
-/

open CommonSubsequence

def Filled (before_lines after_lines : List Bytes) (dp : ℕ → ℕ) (i j : ℕ) : Prop :=
  Longest (before_lines.take i) (after_lines.take j) (dp (cell after_lines i j))

/-- The rows up to this one are filled, and the first column is. -/
structure RowsFilled (before_lines after_lines : List Bytes) (dp : ℕ → ℕ) (rows : ℕ) : Prop where
  column : ∀ i, dp (cell after_lines i 0) = 0
  filled : ∀ i ≤ rows, ∀ j ≤ after_lines.length, Filled before_lines after_lines dp i j

theorem cell_inj {i' j' : ℕ} (inside : j ≤ after_lines.length) (inside' : j' ≤ after_lines.length)
    (same : cell after_lines i j = cell after_lines i' j') : i = i' ∧ j = j' := by
  rw [cell, cell] at same
  have row : i = i' := by
    have quotient (row : ℕ) {column : ℕ} (within : column ≤ after_lines.length) :
        (row * (after_lines.length + 1) + column) / (after_lines.length + 1) = row := by
      rw [Nat.mul_comm, Nat.mul_add_div (Nat.succ_pos _), Nat.div_eq_of_lt (by omega),
        Nat.add_zero]
    rw [← quotient i inside, same, quotient i' inside']
  subst row
  exact ⟨rfl, Nat.add_left_cancel same⟩

theorem fillCell_of_ne {row column : ℕ} (inside : j < after_lines.length)
    (within : column ≤ after_lines.length) (other : ¬(row = i + 1 ∧ column = j + 1)) :
    fillCell before_lines after_lines i dp j (cell after_lines row column) =
      dp (cell after_lines row column) := by
  refine Function.update_of_ne ?_ _ _
  exact fun same => other (cell_inj within inside same)

theorem take_concat (item : lines[i]? = some line) :
    lines.take (i + 1) = lines.take i ++ [line] := by
  rw [List.take_add_one, item]
  rfl

theorem longest_of_differ {first second : Bytes} (row : before_lines[i]? = some first)
    (column : after_lines[j]? = some second) (differ : before_lines[i]? ≠ after_lines[j]?)
    (up : Filled before_lines after_lines dp i (j + 1))
    (left : Filled before_lines after_lines dp (i + 1) j) :
    Longest (before_lines.take (i + 1)) (after_lines.take (j + 1))
      (max (dp (cell after_lines i (j + 1))) (dp (cell after_lines (i + 1) j))) := by
  rw [Filled, take_concat row] at left
  rw [Filled, take_concat column] at up
  rw [take_concat row, take_concat column]
  refine up.max ?_ left
  rintro rfl
  exact differ (row.trans column.symm)

theorem filled_fillCell {first second : Bytes} (row : before_lines[i]? = some first)
    (column : after_lines[j]? = some second)
    (diagonal : Filled before_lines after_lines dp i j)
    (up : Filled before_lines after_lines dp i (j + 1))
    (left : Filled before_lines after_lines dp (i + 1) j) :
    Filled before_lines after_lines (fillCell before_lines after_lines i dp j) (i + 1) (j + 1) := by
  rw [Filled, fillCell, Function.update_self]
  by_cases same : before_lines[i]? = after_lines[j]?
  · rw [if_pos same, take_concat row, take_concat (same ▸ row)]
    exact diagonal.concat
  · rw [if_neg same]
    have larger := longest_of_differ row column same up left
    dsimp only
    split
    · rename_i less
      rwa [Nat.max_eq_left less] at larger
    · rename_i more
      rwa [Nat.max_eq_right (by omega)] at larger

theorem fillRow_columns (row : i < before_lines.length)
    (rows : RowsFilled before_lines after_lines dp i) (columns : ℕ)
    (inside : columns ≤ after_lines.length) :
    RowsFilled before_lines after_lines
        ((List.range columns).foldl (fillCell before_lines after_lines i) dp) i ∧
      ∀ j ≤ columns, Filled before_lines after_lines
        ((List.range columns).foldl (fillCell before_lines after_lines i) dp) (i + 1) j := by
  induction columns with
  | zero =>
      refine ⟨rows, fun j first => ?_⟩
      rw [Nat.le_zero.mp first, Filled, List.range_zero, List.foldl_nil, rows.column,
        List.take_zero]
      exact longest_nil_right _
  | succ j ih =>
      obtain ⟨rows, columns⟩ := ih (by omega)
      rw [List.range_succ, List.foldl_append, List.foldl_cons, List.foldl_nil]
      generalize (List.range j).foldl (fillCell before_lines after_lines i) dp = dp at rows columns
      have kept {row column : ℕ} (within : column ≤ after_lines.length)
          (other : ¬(row = i + 1 ∧ column = j + 1))
          (filled : Filled before_lines after_lines dp row column) :
          Filled before_lines after_lines (fillCell before_lines after_lines i dp j) row column := by
        rw [Filled, fillCell_of_ne inside within other]
        exact filled
      refine ⟨⟨fun row => ?_, fun row less column within => ?_⟩, fun column less => ?_⟩
      · rw [fillCell_of_ne inside (Nat.zero_le _) (by omega)]
        exact rows.column row
      · exact kept within (by omega) (rows.filled row less column within)
      · by_cases last : column = j + 1
        · subst last
          exact filled_fillCell (List.getElem?_eq_getElem row) (List.getElem?_eq_getElem inside)
            (rows.filled i le_rfl j (by omega)) (rows.filled i le_rfl (j + 1) inside)
            (columns j le_rfl)
        · exact kept (by omega) (by omega) (columns column (by omega))

theorem rowsFilled_fillRow (row : i < before_lines.length)
    (rows : RowsFilled before_lines after_lines dp i) :
    RowsFilled before_lines after_lines (fillRow before_lines after_lines dp i) (i + 1) := by
  obtain ⟨before, last⟩ := fillRow_columns row rows after_lines.length le_rfl
  refine ⟨before.column, fun row less column within => ?_⟩
  by_cases new : row = i + 1
  · rw [new]
    exact last column within
  · exact before.filled row (by omega) column within

theorem rowsFilled_fillTable (before_lines after_lines : List Bytes) :
    RowsFilled before_lines after_lines (fillTable before_lines after_lines)
      before_lines.length := by
  suffices rows : ∀ count ≤ before_lines.length, RowsFilled before_lines after_lines
      ((List.range count).foldl (fillRow before_lines after_lines) fun _ => 0) count from
    rows _ le_rfl
  intro count inside
  induction count with
  | zero =>
      refine ⟨fun _ => rfl, fun row first column _ => ?_⟩
      rw [Nat.le_zero.mp first, Filled, List.take_zero]
      exact longest_nil_left _
  | succ i ih =>
      rw [List.range_succ, List.foldl_append, List.foldl_cons, List.foldl_nil]
      exact rowsFilled_fillRow inside (ih (by omega))

/-!
## The way back
-/

/-- What the operations say that lead to a cell. -/
structure LeadsTo (before_lines after_lines : List Bytes) (ri rj : ℕ) (ops : List DiffOp) :
    Prop where
  before : texts [.same, .del] ops.reverse = before_lines.take ri
  after : texts [.same, .add] ops.reverse = after_lines.take rj
  longest : Longest (before_lines.take ri) (after_lines.take rj)
    (texts [.same] ops.reverse).length

theorem texts_reverse_cons (kinds : List DiffOpKind) (kind : DiffOpKind) (line : Bytes) :
    texts kinds (⟨kind, line⟩ :: ops).reverse =
      texts kinds ops.reverse ++ if kind ∈ kinds then [line] else [] := by
  rw [List.reverse_cons, texts_append, texts_singleton]

namespace LeadsTo

theorem start : LeadsTo before_lines after_lines 0 0 [] where
  before := rfl
  after := rfl
  longest := longest_nil_left _

theorem same (leads : LeadsTo before_lines after_lines ri rj ops)
    (row : before_lines[ri]? = some line) (column : after_lines[rj]? = some line) :
    LeadsTo before_lines after_lines (ri + 1) (rj + 1) (⟨.same, line⟩ :: ops) where
  before := by rw [texts_reverse_cons, if_pos (by decide), leads.before, take_concat row]
  after := by rw [texts_reverse_cons, if_pos (by decide), leads.after, take_concat column]
  longest := by
    rw [texts_reverse_cons, if_pos (by decide), List.length_append, List.length_singleton,
      take_concat row, take_concat column]
    exact leads.longest.concat

theorem add (leads : LeadsTo before_lines after_lines ri rj ops)
    (column : after_lines[rj]? = some line)
    (longest : Longest (before_lines.take ri) (after_lines.take (rj + 1))
      (texts [.same] ops.reverse).length) :
    LeadsTo before_lines after_lines ri (rj + 1) (⟨.add, line⟩ :: ops) where
  before := by rw [texts_reverse_cons, if_neg (by decide), leads.before, List.append_nil]
  after := by rw [texts_reverse_cons, if_pos (by decide), leads.after, take_concat column]
  longest := by
    rw [texts_reverse_cons, if_neg (by decide), List.append_nil]
    exact longest

theorem del (leads : LeadsTo before_lines after_lines ri rj ops)
    (row : before_lines[ri]? = some line)
    (longest : Longest (before_lines.take (ri + 1)) (after_lines.take rj)
      (texts [.same] ops.reverse).length) :
    LeadsTo before_lines after_lines (ri + 1) rj (⟨.del, line⟩ :: ops) where
  before := by rw [texts_reverse_cons, if_pos (by decide), leads.before, take_concat row]
  after := by rw [texts_reverse_cons, if_neg (by decide), leads.after, List.append_nil]
  longest := by
    rw [texts_reverse_cons, if_neg (by decide), List.append_nil]
    exact longest

end LeadsTo

/-- The way back takes an operation that loses nothing of the longest common subsequence. -/
theorem leadsTo_backtrack
    (rows : RowsFilled before_lines after_lines dp before_lines.length)
    (row : ri ≤ before_lines.length) (column : rj ≤ after_lines.length) :
    LeadsTo before_lines after_lines ri rj (backtrack before_lines after_lines dp ri rj) := by
  have line_at {lines : List Bytes} {index : ℕ} (inside : index < lines.length) :
      lines[index]? = some (lines.getD index []) := by
    rw [List.getD_eq_getElem?_getD, List.getElem?_eq_getElem inside, Option.getD_some]
  induction ri, rj using backtrack.induct before_lines after_lines dp with
  | case1 =>
      rw [backtrack]
      exact .start
  | case2 rj ih =>
      rw [backtrack]
      have leads := ih row (by omega)
      refine leads.add (line_at column) ?_
      rw [leads.longest.unique (longest_nil_left _)]
      exact longest_nil_left _
  | case3 ri ih =>
      rw [backtrack]
      have leads := ih (by omega) column
      refine leads.del (line_at row) ?_
      rw [leads.longest.unique (longest_nil_right _)]
      exact longest_nil_right _
  | case4 ri rj same ih =>
      rw [backtrack, if_pos same]
      exact (ih (by omega) (by omega)).same (line_at row) (same ▸ line_at row)
  | case5 ri rj differ less ih =>
      rw [backtrack, if_neg differ, if_pos less]
      have leads := ih row (by omega)
      refine leads.add (line_at column) ?_
      have left := rows.filled (ri + 1) row rj (by omega)
      have larger := longest_of_differ (line_at row) (line_at column) differ
        (rows.filled ri (by omega) (rj + 1) column) left
      rw [Nat.max_eq_right less] at larger
      rwa [leads.longest.unique left]
  | case6 ri rj differ more ih =>
      rw [backtrack, if_neg differ, if_neg more]
      have leads := ih (by omega) column
      refine leads.del (line_at row) ?_
      have up := rows.filled ri (by omega) (rj + 1) column
      have larger := longest_of_differ (line_at row) (line_at column) differ up
        (rows.filled (ri + 1) row rj (by omega))
      rw [Nat.max_eq_left (by omega)] at larger
      rwa [leads.longest.unique up]

/-!
## Every diff
-/

theorem text_mem_texts {kinds : List DiffOpKind} {op : DiffOp} (mem : op ∈ ops)
    (kind : op.kind ∈ kinds) : op.text ∈ texts kinds ops :=
  List.mem_map_of_mem (List.mem_filter.mpr ⟨mem, decide_eq_true kind⟩)

theorem diffs_emit (before_texts : texts [.same, .del] ops = splitLines before)
    (after_texts : texts [.same, .add] ops = splitLines after)
    (longest : (splitLines before).length ≤ MAX_DIFF_LINES →
      (splitLines after).length ≤ MAX_DIFF_LINES →
        Longest (splitLines before) (splitLines after) (texts [.same] ops).length) :
    Diffs before after (emit ops) := by
  have clean : ∀ op ∈ ops, byte '\n' ∉ op.text := by
    intro op mem
    cases kind : op.kind with
    | same =>
        exact clean_splitLines before _ (before_texts ▸ text_mem_texts mem (by simp [kind]))
    | del =>
        exact clean_splitLines before _ (before_texts ▸ text_mem_texts mem (by simp [kind]))
    | add =>
        exact clean_splitLines after _ (after_texts ▸ text_mem_texts mem (by simp [kind]))
  constructor
  · exact (marked_emit [.same, .del] clean).trans before_texts
  · exact (marked_emit [.same, .add] clean).trans after_texts
  · intro few_before few_after
    have same := marked_emit [.same] clean
    exact (congrArg List.length same).symm ▸ longest few_before few_after

theorem emitReplace_eq (before_lines after_lines : List Bytes) :
    emitReplace before_lines after_lines =
      emit (before_lines.map (⟨.del, ·⟩) ++ after_lines.map (⟨.add, ·⟩)) := by
  rw [emitReplace, emit, List.flatMap_append, List.flatMap_map, List.flatMap_map]
  rfl

theorem texts_map (kinds : List DiffOpKind) (kind : DiffOpKind) (lines : List Bytes) :
    texts kinds (lines.map (⟨kind, ·⟩)) = if kind ∈ kinds then lines else [] := by
  induction lines with
  | nil => simp [texts]
  | cons line rest ih =>
      rw [List.map_cons, ← List.singleton_append, texts_append, texts_singleton, ih]
      split
      · rfl
      · rfl

theorem diffs_unifiedLineDiff (differ : before ≠ after) :
    Diffs before after (unifiedLineDiff before after) := by
  rw [unifiedLineDiff]
  dsimp only
  rw [if_neg differ]
  split
  · rename_i many
    rw [emitReplace_eq]
    refine diffs_emit ?_ ?_ fun few_before few_after => ?_
    · rw [texts_append, texts_map, texts_map, if_pos (by decide), if_neg (by decide),
        List.append_nil]
    · rw [texts_append, texts_map, texts_map, if_neg (by decide), if_pos (by decide),
        List.nil_append]
    · omega
  · have leads := leadsTo_backtrack (rowsFilled_fillTable (splitLines before) (splitLines after))
      le_rfl le_rfl
    have longest := leads.longest
    have before_texts := leads.before
    have after_texts := leads.after
    rw [List.take_length] at before_texts after_texts
    rw [List.take_length, List.take_length] at longest
    exact diffs_emit before_texts after_texts fun _ _ => longest

/-- The diff is empty exactly when the texts are the same. Otherwise it says what the lines of both
texts are, and it shares as many lines as can be unless there are too many. -/
theorem unifiedLineDiff_correct (before after : Bytes) :
    (unifiedLineDiff before after = [] ↔ before = after) ∧
      (before ≠ after → Diffs before after (unifiedLineDiff before after)) := by
  refine ⟨⟨fun empty => ?_, fun same => ?_⟩, diffs_unifiedLineDiff⟩
  · by_contra differ
    have diffs := diffs_unifiedLineDiff differ
    rw [empty] at diffs
    exact differ ((eq_nil_of_splitLines diffs.before_lines.symm).trans
      (eq_nil_of_splitLines diffs.after_lines.symm).symm)
  · rw [unifiedLineDiff]
    exact if_pos same

end Nullalis.Artifacts
