import Nullalis.Base.JsonStructure

/-!
# The text of an object

A JSON text that denotes an object is the text from a brace to its closing brace, between blanks.
What stands between the two closes nothing that it did not open, so that no text of an object goes
on as another one.
-/

namespace Json

open Nesting

/-- The scanner passes the text from between tokens and owes what it owed before. -/
def Passes (inner : Bytes) : Prop :=
  ∀ owed, run ⟨owed, .outside false⟩ inner = some ⟨owed, .outside false⟩

/-- A text from a brace to its closing brace that denotes an object. -/
structure ObjectText (core : Bytes) (members : List (Bytes × Json)) : Prop where
  shape : ∃ inner, core = byte '\x7b' :: (inner ++ [byte '\x7d']) ∧ Passes inner
  parsed : parse core = some (.object members)

variable {owed base : List UInt8} {mode : Mode} {value : UInt8} {text rest inner core : Bytes}
  {members : List (Bytes × Json)} {fuel : ℕ}

/-!
## What is owed below
-/

theorem Nesting.step_append {nesting next : Nesting} (base : List UInt8)
    (stepped : step nesting value = some next) :
    step { nesting with owed := nesting.owed ++ base } value =
      some { next with owed := next.owed ++ base } := by
  rcases nesting with ⟨owed, mode⟩
  cases mode with
  | escaped =>
      cases stepped
      rfl
  | inside =>
      rcases step_inside stepped with ⟨rfl, rfl⟩ | ⟨rfl, rfl⟩ | ⟨inner, rfl⟩
      · rfl
      · rfl
      · simp [step, inner.1, inner.2.1, inner.2.2]
  | outside comma =>
      rcases step_outside stepped with ⟨rfl, rfl⟩ | ⟨rfl, rfl⟩ | ⟨rfl, rfl⟩ |
        ⟨closes, rfl, later, rfl, rfl⟩ | ⟨rfl, rfl⟩ | ⟨neutral, other, rfl⟩
      · rfl
      · rfl
      · rfl
      · exact step_close closes
      · rfl
      · rcases neutral with ⟨quote, bracket, brace, close, closeBrace, separator, backslash⟩
        by_cases blank : isBlank value = true
        · rw [step_of_isBlank blank] at stepped ⊢
          cases stepped
          rfl
        · have plain : Plain value := ⟨quote, bracket, brace, close, closeBrace, separator,
            backslash, by simpa using blank⟩
          rw [step_of_plain plain] at stepped ⊢
          cases stepped
          rfl

theorem Nesting.run_base {nesting final : Nesting} (base : List UInt8)
    (passes : run nesting text = some final) :
    run { nesting with owed := nesting.owed ++ base } text =
      some { final with owed := final.owed ++ base } := by
  induction text generalizing nesting with
  | nil =>
      cases passes
      rfl
  | cons value rest ih =>
      rw [run_cons] at passes
      rcases Option.bind_eq_some_iff.mp passes with ⟨next, stepped, later⟩
      rw [run_cons, step_append base stepped, Option.bind_some, ih later]

theorem Passes.keeps {start : Bytes} (passes : Passes inner) (starts : start <+: inner)
    (base : List UInt8) : ∃ above mode,
      run ⟨base, .outside false⟩ start = some ⟨above ++ base, mode⟩ := by
  rcases starts with ⟨others, rfl⟩
  have whole := passes []
  rw [run_append] at whole
  rcases Option.bind_eq_some_iff.mp whole with ⟨reached, runs, -⟩
  exact ⟨reached.owed, reached.mode, run_base base runs⟩

theorem ObjectText.not_append {other : List (Bytes × Json)} {more : Bytes}
    (object : ObjectText core members) (longer : ObjectText (core ++ more) other) : more = [] := by
  rcases object.shape with ⟨inner, rfl, passes⟩
  rcases longer.shape with ⟨outer, shape, passesOuter⟩
  rcases List.eq_nil_or_concat more with none | ⟨front, last, rfl⟩
  · exact none
  · have shorter : inner ++ [byte '\x7d'] ++ front = outer := by
      have same : inner ++ [byte '\x7d'] ++ front ++ [last] = outer ++ [byte '\x7d'] := by
        simpa using shape
      exact (List.append_inj' same rfl).1
    have starts : inner ++ [byte '\x7d'] <+: outer := ⟨front, shorter⟩
    rcases passesOuter.keeps starts [byte '\x7d'] with ⟨above, mode, runs⟩
    rw [run_append, passes, Option.bind_some, run_cons, step_close (Or.inr rfl)] at runs
    have owed : [] = above ++ [byte '\x7d'] := congrArg Nesting.owed (Option.some.inj runs)
    simp at owed

theorem ObjectText.eq_of_append {other : Bytes} {others : List (Bytes × Json)} {more most : Bytes}
    (object : ObjectText core members) (second : ObjectText other others)
    (same : core ++ more = other ++ most) : core = other := by
  rcases List.append_eq_append_iff.mp same with ⟨between, rfl, -⟩ | ⟨between, rfl, -⟩
  · rw [object.not_append second, List.append_nil]
  · rw [second.not_append object, List.append_nil]

/-!
## What is parsed as an object
-/

theorem readMembers_inner (read : readMembers fuel text = some (members, rest)) :
    ∃ inner, text = inner ++ byte '\x7d' :: rest ∧ Balanced inner := by
  induction fuel generalizing text members with
  | zero => cases read
  | succ fuel ih =>
      simp only [readMembers_succ, Option.bind_eq_bind, Option.bind_eq_some_iff] at read
      rcases read with ⟨⟨key, afterKey⟩, keyRead, ⟨value, after⟩, valueRead, read⟩
      rcases readKey_taken keyRead with ⟨named, rfl, takesKey⟩
      rcases (readers_taken _).1 _ _ _ valueRead with ⟨used, rfl, takes⟩
      have front : Balanced (named ++ used) := takesKey.balanced.append takes.balanced
      dsimp only at read
      split at read
      case h_1 => cases read
      case h_2 first later shape =>
        rcases skipBlanks_cons_taken shape with ⟨gap, rfl, isGap⟩
        split at read
        case isTrue separator =>
          subst separator
          rcases Option.bind_eq_some_iff.mp read with ⟨⟨others, last⟩, othersRead, read⟩
          cases read
          rcases ih othersRead with ⟨inner, rfl, balanced⟩
          refine ⟨named ++ used ++ (gap ++ byte ',' :: inner), by simp, ?_⟩
          intro owed comma
          rw [run_append, front, Option.bind_some, run_append,
            run_of_isBlank (List.all_eq_true.mp isGap), Option.bind_some, run_cons, step_comma,
            Option.bind_some, balanced]
        case isFalse =>
          split at read
          case isTrue brace =>
            subst brace
            cases read
            refine ⟨named ++ used ++ gap, by simp, ?_⟩
            intro owed comma
            rw [run_append, front, Option.bind_some,
              run_of_isBlank (List.all_eq_true.mp isGap)]
          case isFalse => cases read

/-- What is read as an object goes from a brace to its closing brace. -/
theorem readValue_object (solid : skipBlanks text = text)
    (read : readValue fuel text = some (.object members, rest)) :
    ∃ inner, text = byte '\x7b' :: (inner ++ byte '\x7d' :: rest) ∧ Passes inner := by
  cases fuel with
  | zero => cases read
  | succ fuel =>
      rw [readValue, solid] at read
      cases text with
      | nil => cases read
      | cons first later =>
          dsimp only at read
          split at read
          case isTrue =>
            rcases Option.bind_eq_some_iff.mp read with ⟨string, -, read⟩
            cases read
          case isFalse =>
          split at read
          case isTrue =>
            split at read
            case isTrue => cases read
            case isFalse =>
              rcases Option.bind_eq_some_iff.mp read with ⟨all, -, read⟩
              cases read
          case isFalse =>
          split at read
          case isTrue brace =>
            subst brace
            split at read
            case isTrue closed =>
              rcases List.head?_eq_some_iff.mp closed with ⟨tail, shape⟩
              rcases skipBlanks_cons_taken shape with ⟨gap, rfl, isGap⟩
              rw [shape] at read
              cases read
              exact ⟨gap, rfl, fun owed => run_of_isBlank (List.all_eq_true.mp isGap)⟩
            case isFalse =>
              rcases Option.bind_eq_some_iff.mp read with ⟨⟨all, after⟩, allRead, read⟩
              dsimp only at read
              split at read
              case isTrue =>
                cases read
                rcases readMembers_inner allRead with ⟨inner, rfl, balanced⟩
                exact ⟨inner, rfl, fun owed => balanced owed false⟩
              case isFalse => cases read
          case isFalse =>
          split at read
          case isTrue =>
            rcases Option.bind_eq_some_iff.mp read with ⟨number, -, read⟩
            cases read
          case isFalse =>
            unfold readName at read
            split_ifs at read
            all_goals cases read

theorem isAscii_of_isBlank (isBlanks : text.all isBlank = true) : text.all Utf8.isAscii = true := by
  have plain : ∀ value, isBlank value = true → Utf8.isAscii value = true := by
    refine Bytes.forall_byte ?_
    decide
  exact List.all_eq_true.mpr fun value mem => plain value (List.all_eq_true.mp isBlanks value mem)

theorem exists_objectText_of_parse (parsed : parse text = some (.object members)) :
    ∃ front core back, text = front ++ (core ++ back) ∧ front.all isBlank = true ∧
      back.all isBlank = true ∧ ObjectText core members := by
  rcases exists_takes_of_parse parsed with ⟨front, used, back, rfl, isFront, isBack, solid, takes⟩
  refine ⟨front, used, back, rfl, isFront, isBack, ?_, ?_⟩
  · have nothing : Ends [] := fun value head => by cases head
    have read := takes.reads (used.length + 1) [] (Nat.lt_succ_self _) nothing
    rw [List.append_nil] at read
    exact readValue_object solid read
  · have valid : Utf8.valid used = true := by
      by_contra invalid
      have whole : Utf8.valid (front ++ (used ++ back)) = false := by
        rw [Utf8.valid_append (isAscii_of_isBlank isFront),
          Utf8.valid_append_right (isAscii_of_isBlank isBack)]
        simpa using invalid
      rw [parse_of_not_valid whole] at parsed
      cases parsed
    have alone : parse (used ++ []) = some (.object members) :=
      parse_of_reads takes.reads rfl (by rwa [List.append_nil])
    rwa [List.append_nil] at alone

end Json
