import Mathlib.Data.Nat.Notation
import Mathlib.Tactic.Common

/-!
# Replacing lines of a text

A text is taken apart at its newlines. The lines from the first to the last one that is named are
replaced by a new text, with a newline behind it if something follows. Whether the lines of the
result are those that one would expect depends on what the text ends with.
-/

namespace Splice

variable {Symbol : Type} {newline : Symbol} {lines : List (List Symbol)}
  {text new : List Symbol} {first last : ℕ}

def ended (newline : Symbol) (lines : List (List Symbol)) : List Symbol :=
  lines.flatMap (· ++ [newline])

@[simp]
theorem ended_nil : ended newline [] = [] := rfl

@[simp]
theorem ended_cons (line : List Symbol) :
    ended newline (line :: lines) = line ++ newline :: ended newline lines := by
  simp [ended]

theorem intercalate_eq_ended_append {count : ℕ} (within : count < lines.length) :
    [newline].intercalate lines =
      ended newline (lines.take count) ++ [newline].intercalate (lines.drop count) := by
  induction lines generalizing count with
  | nil => cases within
  | cons line rest ih =>
      cases count with
      | zero => rfl
      | succ count =>
          have inside : count < rest.length := by simpa using within
          have filled : rest ≠ [] := by
            rintro rfl
            cases inside
          rw [List.intercalate_cons_of_ne_nil filled, ih inside]
          simp

theorem take_intercalate (newline : Symbol) {index : ℕ} (within : index < lines.length) :
    ([newline].intercalate lines).take (ended newline (lines.take index)).length =
      ended newline (lines.take index) := by
  rw [intercalate_eq_ended_append within, List.take_left]

theorem drop_intercalate (newline : Symbol) {index : ℕ} (within : index < lines.length) :
    ([newline].intercalate lines).drop (ended newline (lines.take index)).length =
      [newline].intercalate (lines.drop index) := by
  rw [intercalate_eq_ended_append within, List.drop_left]

theorem intercalate_eq_nil_iff : [newline].intercalate lines = [] ↔ lines = [] ∨ lines = [[]] := by
  cases lines with
  | nil => simp
  | cons line rest =>
      cases rest with
      | nil => simp
      | cons second rest => simp

variable [DecidableEq Symbol]

/-- Is there a last line without a newline at its end? -/
def IsOpen (newline : Symbol) (text : List Symbol) : Prop :=
  text ≠ [] ∧ ¬[newline] <:+ text

instance (newline : Symbol) (text : List Symbol) : Decidable (IsOpen newline text) :=
  inferInstanceAs (Decidable (_ ∧ _))

/-- The lines of a text. A newline at the end belongs to the last line. -/
def textLines (newline : Symbol) (text : List Symbol) : List (List Symbol) :=
  if IsOpen newline text then text.splitOn newline else (text.splitOn newline).dropLast

def behind (newline : Symbol) (lines : List (List Symbol)) (last : ℕ) : List Symbol :=
  [newline].intercalate (lines.drop (last + 1))

/-- A text with some lines replaced. -/
def splice (newline : Symbol) (lines : List (List Symbol)) (first last : ℕ)
    (new : List Symbol) : List Symbol :=
  ended newline (lines.take first) ++ new ++
    (if behind newline lines last ≠ [] ∧ IsOpen newline new then [newline] else []) ++
    behind newline lines last

theorem splitOn_ended_append (apart : ∀ line ∈ lines, newline ∉ line) (text : List Symbol) :
    (ended newline lines ++ text).splitOn newline = lines ++ text.splitOn newline := by
  induction lines with
  | nil => rfl
  | cons line rest ih =>
      have here := apart line List.mem_cons_self
      have later := ih fun line mem => apart line (List.mem_cons_of_mem _ mem)
      rw [ended_cons, List.append_assoc, List.cons_append,
        List.splitOn_append_cons_self_of_not_mem here, later, List.cons_append]

theorem splitOn_of_not_isOpen (closed : ¬IsOpen newline text) :
    text.splitOn newline = textLines newline text ++ [[]] := by
  have split : text = [] ∨ [newline] <:+ text := by
    by_contra neither
    rw [not_or] at neither
    exact closed neither
  rw [textLines, if_neg closed]
  rcases split with rfl | ⟨front, rfl⟩
  · rfl
  · rw [List.splitOn_append_cons_self, List.splitOn_nil, List.dropLast_concat]

theorem splitOn_of_isOpen (unended : IsOpen newline text) :
    text.splitOn newline = textLines newline text := by
  rw [textLines, if_pos unended]

theorem textLines_ended (apart : ∀ line ∈ lines, newline ∉ line) :
    textLines newline (ended newline lines) = lines := by
  have closed : ¬IsOpen newline (ended newline lines) := by
    rintro ⟨filled, unended⟩
    rcases List.eq_nil_or_concat lines with rfl | ⟨front, line, rfl⟩
    · exact filled rfl
    · exact unended ⟨ended newline front ++ line, by simp [ended]⟩
  have split := splitOn_ended_append apart []
  rw [List.append_nil] at split
  rw [textLines, if_neg closed, split, List.splitOn_nil, List.dropLast_concat]

theorem splitOn_append_of_ne_nil {rest : List Symbol} (filled : rest ≠ []) (new : List Symbol) :
    (new ++ (if rest ≠ [] ∧ IsOpen newline new then [newline] else []) ++ rest).splitOn newline =
      textLines newline new ++ rest.splitOn newline := by
  by_cases unended : IsOpen newline new
  case pos =>
      rw [if_pos ⟨filled, unended⟩, List.append_assoc, List.singleton_append,
        List.splitOn_append_cons_self, splitOn_of_isOpen unended]
  case neg =>
      rw [if_neg fun both => unended both.2, List.append_nil]
      by_cases empty : new = []
      · subst empty
        rfl
      · have closed : [newline] <:+ new := by
          by_contra other
          exact unended ⟨empty, other⟩
        rcases closed with ⟨front, rfl⟩
        have split := splitOn_of_not_isOpen unended
        rw [List.splitOn_append_cons_self, List.splitOn_nil] at split
        rw [List.append_assoc, List.singleton_append, List.splitOn_append_cons_self,
          List.append_cancel_right split]

theorem splitOn_splice_iff (apart : ∀ line ∈ lines, newline ∉ line) :
    (splice newline lines first last new).splitOn newline =
        lines.take first ++ textLines newline new ++ lines.drop (last + 1) ↔
      (behind newline lines last = [] → (lines.length ≤ last + 1 ↔ IsOpen newline new)) := by
  have front : ∀ line ∈ lines.take first, newline ∉ line :=
    fun line mem => apart line (List.mem_of_mem_take mem)
  have back : ∀ line ∈ lines.drop (last + 1), newline ∉ line :=
    fun line mem => apart line (List.mem_of_mem_drop mem)
  rw [splice, List.append_assoc, List.append_assoc, splitOn_ended_append front,
    List.append_assoc, List.append_cancel_left_eq, ← List.append_assoc]
  by_cases none : behind newline lines last = []
  case pos =>
      simp only [none, ne_eq, not_true_eq_false, false_and, if_false, List.append_nil,
        true_implies]
      rw [← List.drop_eq_nil_iff]
      have after := intercalate_eq_nil_iff.1 none
      by_cases unended : IsOpen newline new
      · rw [splitOn_of_isOpen unended]
        simp only [unended, iff_true]
        constructor
        · intro same
          simpa using same
        · intro done
          rw [done, List.append_nil]
      · rw [splitOn_of_not_isOpen unended]
        simp only [unended, iff_false, List.append_cancel_left_eq]
        rcases after with done | one
        · simp [done]
        · simp [one]
  case neg =>
      simp only [none, false_implies, iff_true]
      have filled : lines.drop (last + 1) ≠ [] := by
        intro done
        exact none (by simp [behind, done])
      rw [splitOn_append_of_ne_nil none, behind, List.splitOn_intercalate _ back filled]

end Splice
