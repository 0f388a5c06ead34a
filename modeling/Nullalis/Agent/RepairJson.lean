import Nullalis.Base.JsonBlanks

/-!
# Repairing truncated JSON

Arguments of a tool call that cannot be read are repaired once before they are given up: commas
before closing brackets go away, line breaks in strings are escaped, an open string is closed, and
the missing closing brackets and braces are appended, all brackets before all braces.
-/

namespace Nullalis.Agent.Dispatcher

open Json Json.Nesting

/-!
## First pass: commas and control characters
-/

/-- What a byte in a string is copied as. -/
def copyInString (value : UInt8) : Bytes :=
  if value = byte '\n' then ascii "\\n"
  else if value = byte '\r' then ascii "\\r"
  else if value = byte '\t' then ascii "\\t"
  else [value]

def closerFollows (rest : Bytes) : Bool :=
  (skipBlanks rest).head? == some (byte '\x7d') || (skipBlanks rest).head? == some (byte ']')

/-- Copy the input without trailing commas and with escaped control characters. -/
def copyFixed : Bool → Bool → Bytes → Bytes
  | _, _, [] => []
  | inString, true, value :: rest => value :: copyFixed inString false rest
  | true, false, value :: rest =>
      if value = byte '\\' then value :: copyFixed true true rest
      else if value = byte '"' then value :: copyFixed false false rest
      else copyInString value ++ copyFixed true false rest
  | false, false, value :: rest =>
      if value = byte '"' then value :: copyFixed true false rest
      else if value = byte ',' ∧ closerFollows rest = true then copyFixed false false rest
      else value :: copyFixed false false rest

/-!
## Second pass: quotes
-/

/-- How many quotes are not escaped. A backslash escapes wherever it stands. -/
def quoteCount : Bool → Bytes → ℕ
  | _, [] => 0
  | true, _ :: rest => quoteCount false rest
  | false, value :: rest =>
      if value = byte '\\' then quoteCount true rest
      else if value = byte '"' then quoteCount false rest + 1
      else quoteCount false rest

def balanceQuotes (buf : Bytes) : Bytes :=
  if quoteCount false buf % 2 ≠ 0 then buf ++ [byte '"'] else buf

/-!
## Third pass: brackets and braces
-/

/-- The depths, which are 32 bits wide, and where the pass stands. -/
structure Depths where
  braceDepth : ℤ := 0
  bracketDepth : ℤ := 0
  inStr : Bool := false
  escaped : Bool := false
deriving DecidableEq

/-- Add to a depth. There is no result when it overflows. -/
def addDepth (depth change : ℤ) : Option ℤ :=
  if -2 ^ 31 ≤ depth + change ∧ depth + change < 2 ^ 31 then some (depth + change) else none

/-- Count a byte. -/
def Depths.count (depths : Depths) (value : UInt8) : Option Depths :=
  if depths.escaped then some { depths with escaped := false }
  else if value = byte '\\' ∧ depths.inStr = true then some { depths with escaped := true }
  else
    let inStr := if value = byte '"' then !depths.inStr else depths.inStr
    if inStr then some { depths with inStr := true }
    else if value = byte '\x7b' then
      (addDepth depths.braceDepth 1).map ({ depths with inStr := false, braceDepth := · })
    else if value = byte '\x7d' then
      (addDepth depths.braceDepth (-1)).map ({ depths with inStr := false, braceDepth := · })
    else if value = byte '[' then
      (addDepth depths.bracketDepth 1).map ({ depths with inStr := false, bracketDepth := · })
    else if value = byte ']' then
      (addDepth depths.bracketDepth (-1)).map ({ depths with inStr := false, bracketDepth := · })
    else some { depths with inStr := false }

/-- Attempt to repair a text. There is no result when a depth overflows. -/
def repairJson (input : Bytes) : Option Bytes := do
  let buf := balanceQuotes (copyFixed false false input)
  let depths ← buf.foldlM Depths.count {}
  return buf ++ (List.replicate depths.bracketDepth.toNat (byte ']') ++
    List.replicate depths.braceDepth.toNat (byte '\x7d'))

/-!
## What the passes do to a text that the scanner passes
-/

/-- Is the scanner in a string? -/
def inStringOf : Mode → Bool
  | .outside _ => false
  | _ => true

/-- Is the scanner behind a backslash? -/
def escapedOf : Mode → Bool
  | .escaped => true
  | _ => false

variable {nesting next final : Nesting} {owed : List UInt8} {comma : Bool} {value : UInt8}
  {text rest kept tail : Bytes}

theorem closerFollows_of_run (passes : run ⟨owed, .outside true⟩ rest = some final) :
    closerFollows rest = false := by
  rcases skipBlanks_taken rest with ⟨blank, split, isBlanks⟩
  rw [split, run_append, run_of_isBlank isBlanks, Option.bind_some] at passes
  cases shape : skipBlanks rest with
  | nil => rw [closerFollows, shape]; rfl
  | cons first later =>
      rw [shape, run_cons] at passes
      have brace : first ≠ byte '\x7d' := by
        rintro rfl
        cases passes
      have bracket : first ≠ byte ']' := by
        rintro rfl
        cases passes
      simp [closerFollows, shape, brace, bracket]

theorem copyInString_of_inner (inner : Inner value) : copyInString value = [value] := by
  have other : value ≠ byte '\n' ∧ value ≠ byte '\r' ∧ value ≠ byte '\t' := by
    refine ⟨?_, ?_, ?_⟩
    all_goals
      rintro rfl
      exact inner.2.2 (by decide)
  rw [copyInString, if_neg other.1, if_neg other.2.1, if_neg other.2.2]

theorem copyFixed_of_run (passes : run nesting text = some final) :
    copyFixed (inStringOf nesting.mode) (escapedOf nesting.mode) text = text := by
  induction text generalizing nesting with
  | nil => cases inStringOf nesting.mode <;> cases escapedOf nesting.mode <;> rfl
  | cons value rest ih =>
      rcases nesting with ⟨owed, mode⟩
      rw [run_cons] at passes
      rcases Option.bind_eq_some_iff.mp passes with ⟨next, stepped, later⟩
      have copied := ih later
      cases mode with
      | escaped =>
          cases stepped
          simpa [inStringOf, escapedOf, copyFixed] using copied
      | inside =>
          rcases step_inside stepped with ⟨rfl, rfl⟩ | ⟨rfl, rfl⟩ | ⟨inner, rfl⟩
          · simpa [inStringOf, escapedOf, copyFixed] using copied
          · simpa [inStringOf, escapedOf, copyFixed, byte] using copied
          · have same : copyInString value = [value] := copyInString_of_inner inner
            simpa [inStringOf, escapedOf, copyFixed, inner.1, inner.2.1, same] using copied
      | outside comma =>
          rcases step_outside stepped with ⟨rfl, rfl⟩ | ⟨rfl, rfl⟩ | ⟨rfl, rfl⟩ |
            ⟨closes, -, _, -, rfl⟩ | ⟨rfl, rfl⟩ | ⟨neutral, _, rfl⟩
          · simpa [inStringOf, escapedOf, copyFixed] using copied
          · simpa [inStringOf, escapedOf, copyFixed, byte] using copied
          · simpa [inStringOf, escapedOf, copyFixed, byte] using copied
          · rcases closes with rfl | rfl
            · simpa [inStringOf, escapedOf, copyFixed, byte] using copied
            · simpa [inStringOf, escapedOf, copyFixed, byte] using copied
          · have open' := closerFollows_of_run later
            simpa [inStringOf, escapedOf, copyFixed, open', byte] using copied
          · rcases neutral with ⟨quote, -, -, -, -, separator, -⟩
            simpa [inStringOf, escapedOf, copyFixed, quote, separator] using copied

theorem quoteCount_of_run (passes : run nesting text = some final) :
    (quoteCount (escapedOf nesting.mode) text + (inStringOf nesting.mode).toNat) % 2 =
      (inStringOf final.mode).toNat := by
  induction text generalizing nesting with
  | nil =>
      cases passes
      cases final.mode <;> rfl
  | cons value rest ih =>
      rcases nesting with ⟨owed, mode⟩
      rw [run_cons] at passes
      rcases Option.bind_eq_some_iff.mp passes with ⟨next, stepped, later⟩
      have counted := ih later
      cases mode with
      | escaped =>
          cases stepped
          simpa [inStringOf, escapedOf, quoteCount] using counted
      | inside =>
          rcases step_inside stepped with ⟨rfl, rfl⟩ | ⟨rfl, rfl⟩ | ⟨inner, rfl⟩
          · simpa [inStringOf, escapedOf, quoteCount] using counted
          · simp [inStringOf, escapedOf, quoteCount, byte] at counted ⊢
            omega
          · simpa [inStringOf, escapedOf, quoteCount, inner.1, inner.2.1] using counted
      | outside comma =>
          rcases step_outside stepped with ⟨rfl, rfl⟩ | ⟨rfl, rfl⟩ | ⟨rfl, rfl⟩ |
            ⟨closes, -, _, -, rfl⟩ | ⟨rfl, rfl⟩ | ⟨neutral, _, rfl⟩
          · simpa [inStringOf, escapedOf, quoteCount, byte] using counted
          · simpa [inStringOf, escapedOf, quoteCount, byte] using counted
          · simpa [inStringOf, escapedOf, quoteCount, byte] using counted
          · rcases closes with rfl | rfl
            · simpa [inStringOf, escapedOf, quoteCount, byte] using counted
            · simpa [inStringOf, escapedOf, quoteCount, byte] using counted
          · simpa [inStringOf, escapedOf, quoteCount, byte] using counted
          · rcases neutral with ⟨quote, -, -, -, -, -, backslash⟩
            simpa [inStringOf, escapedOf, quoteCount, quote, backslash] using counted

/-- Are fewer than `2 ^ 31` brackets and fewer than `2 ^ 31` braces open? -/
def Shallow (nesting : Nesting) : Prop :=
  nesting.owed.count (byte '\x7d') < 2 ^ 31 ∧ nesting.owed.count (byte ']') < 2 ^ 31

/-- At no place are more brackets or braces open than a depth can count. -/
def NestsShallow (nesting : Nesting) (text : Bytes) : Prop :=
  ∀ start, start <+: text → ∀ reached, run nesting start = some reached → Shallow reached

/-- The depths that belong to what the scanner owes. -/
def depthsOf (nesting : Nesting) : Depths where
  braceDepth := nesting.owed.count (byte '\x7d')
  bracketDepth := nesting.owed.count (byte ']')
  inStr := inStringOf nesting.mode
  escaped := escapedOf nesting.mode

theorem addDepth_one (depth : ℕ) :
    addDepth depth 1 = if depth + 1 < 2 ^ 31 then some ((depth + 1 : ℕ) : ℤ) else none := by
  unfold addDepth
  split <;> split <;> first | rfl | omega

theorem addDepth_neg_one {depth : ℕ} (bounded : depth + 1 < 2 ^ 31) :
    addDepth ((depth + 1 : ℕ) : ℤ) (-1) = some (depth : ℤ) := by
  unfold addDepth
  rw [if_pos (by omega)]
  congr 1
  omega

@[simp]
theorem count_brace_cons (owed : List UInt8) :
    (byte ']' :: owed).count (byte '\x7d') = owed.count (byte '\x7d') :=
  List.count_cons_of_ne (by decide)

@[simp]
theorem count_bracket_cons (owed : List UInt8) :
    (byte '\x7d' :: owed).count (byte ']') = owed.count (byte ']') :=
  List.count_cons_of_ne (by decide)

/-- The third pass counts what the scanner owes. -/
theorem count_depthsOf (shallow : Shallow nesting) (stepped : step nesting value = some next) :
    (Shallow next ∧ (depthsOf nesting).count value = some (depthsOf next)) ∨
      (¬Shallow next ∧ (depthsOf nesting).count value = none) := by
  rcases nesting with ⟨owed, mode⟩
  cases mode with
  | escaped =>
      cases stepped
      exact .inl ⟨shallow, by simp [depthsOf, Depths.count, inStringOf, escapedOf]⟩
  | inside =>
      rcases step_inside stepped with ⟨rfl, rfl⟩ | ⟨rfl, rfl⟩ | ⟨inner, rfl⟩
      · exact .inl ⟨shallow, by simp [depthsOf, Depths.count, inStringOf, escapedOf]⟩
      · exact .inl ⟨shallow, by simp [depthsOf, Depths.count, inStringOf, escapedOf, byte]⟩
      · refine .inl ⟨shallow, ?_⟩
        simp [depthsOf, Depths.count, inStringOf, escapedOf, inner.1, inner.2.1]
  | outside comma =>
      rcases step_outside stepped with ⟨rfl, rfl⟩ | ⟨rfl, rfl⟩ | ⟨rfl, rfl⟩ |
        ⟨closes, -, later, rfl, rfl⟩ | ⟨rfl, rfl⟩ | ⟨neutral, _, rfl⟩
      · exact .inl ⟨shallow, by simp [depthsOf, Depths.count, inStringOf, escapedOf, byte]⟩
      · have counted : (depthsOf ⟨owed, .outside comma⟩).count (byte '[') =
            (addDepth (owed.count (byte ']')) 1).map
              ({ depthsOf ⟨owed, .outside comma⟩ with bracketDepth := · }) := by
          simp [depthsOf, Depths.count, inStringOf, escapedOf, byte]
        rw [counted, addDepth_one]
        by_cases bounded : owed.count (byte ']') + 1 < 2 ^ 31
        · rw [if_pos bounded]
          refine .inl ⟨⟨by simpa using shallow.1, by simpa using bounded⟩, ?_⟩
          simp [depthsOf, inStringOf, escapedOf, byte]
        · rw [if_neg bounded]
          exact .inr ⟨fun next => bounded (by simpa using next.2), rfl⟩
      · have counted : (depthsOf ⟨owed, .outside comma⟩).count (byte '\x7b') =
            (addDepth (owed.count (byte '\x7d')) 1).map
              ({ depthsOf ⟨owed, .outside comma⟩ with braceDepth := · }) := by
          simp [depthsOf, Depths.count, inStringOf, escapedOf, byte]
        rw [counted, addDepth_one]
        by_cases bounded : owed.count (byte '\x7d') + 1 < 2 ^ 31
        · rw [if_pos bounded]
          refine .inl ⟨⟨by simpa using bounded, by simpa using shallow.2⟩, ?_⟩
          simp [depthsOf, inStringOf, escapedOf, byte]
        · rw [if_neg bounded]
          exact .inr ⟨fun next => bounded (by simpa using next.1), rfl⟩
      · rcases closes with rfl | rfl
        · have bounded : later.count (byte ']') + 1 < 2 ^ 31 := by simpa using shallow.2
          have counted : (depthsOf ⟨byte ']' :: later, .outside comma⟩).count (byte ']') =
              (addDepth ((later.count (byte ']') + 1 : ℕ) : ℤ) (-1)).map
                ({ depthsOf ⟨later, .outside comma⟩ with bracketDepth := · }) := by
            simp [depthsOf, Depths.count, inStringOf, escapedOf, byte]
          rw [counted, addDepth_neg_one bounded]
          have shallowNext : Shallow ⟨later, .outside false⟩ :=
            ⟨by simpa using shallow.1, Nat.lt_of_succ_lt bounded⟩
          refine .inl ⟨shallowNext, ?_⟩
          simp [depthsOf, inStringOf, escapedOf]
        · have bounded : later.count (byte '\x7d') + 1 < 2 ^ 31 := by simpa using shallow.1
          have counted : (depthsOf ⟨byte '\x7d' :: later, .outside comma⟩).count (byte '\x7d') =
              (addDepth ((later.count (byte '\x7d') + 1 : ℕ) : ℤ) (-1)).map
                ({ depthsOf ⟨later, .outside comma⟩ with braceDepth := · }) := by
            simp [depthsOf, Depths.count, inStringOf, escapedOf, byte]
          rw [counted, addDepth_neg_one bounded]
          have shallowNext : Shallow ⟨later, .outside false⟩ :=
            ⟨Nat.lt_of_succ_lt bounded, by simpa using shallow.2⟩
          refine .inl ⟨shallowNext, ?_⟩
          simp [depthsOf, inStringOf, escapedOf]
      · exact .inl ⟨shallow, by simp [depthsOf, Depths.count, inStringOf, escapedOf, byte]⟩
      · rcases neutral with ⟨quote, bracket, brace, closeBracket, closeBrace, -, -⟩
        refine .inl ⟨shallow, ?_⟩
        simp [depthsOf, Depths.count, inStringOf, escapedOf, quote, bracket, brace, closeBracket,
          closeBrace]

theorem nestsShallow_cons (stepped : step nesting value = some next) :
    NestsShallow nesting (value :: rest) ↔ Shallow nesting ∧ NestsShallow next rest := by
  constructor
  · intro nests
    refine ⟨nests [] List.nil_prefix nesting rfl, ?_⟩
    intro start starts reached runs
    have longer : value :: start <+: value :: rest := (List.prefix_cons_inj value).mpr starts
    refine nests (value :: start) longer reached ?_
    rw [run_cons, stepped, Option.bind_some, runs]
  · rintro ⟨shallow, nests⟩ start starts reached runs
    cases start with
    | nil =>
        cases runs
        exact shallow
    | cons head start =>
        rcases List.cons_prefix_cons.mp starts with ⟨rfl, startsRest⟩
        rw [run_cons, stepped, Option.bind_some] at runs
        exact nests start startsRest reached runs

theorem foldlM_count {depths : Depths} (shallow : Shallow nesting)
    (passes : run nesting text = some final) :
    text.foldlM Depths.count (depthsOf nesting) = some depths ↔
      NestsShallow nesting text ∧ depths = depthsOf final := by
  induction text generalizing nesting with
  | nil =>
      cases passes
      have nests : NestsShallow final [] := by
        intro start starts reached runs
        rw [List.prefix_nil.mp starts] at runs
        cases runs
        exact shallow
      rw [List.foldlM_nil]
      exact ⟨fun same => ⟨nests, by cases same; rfl⟩, fun same => by rw [same.2]; rfl⟩
  | cons value rest ih =>
      rw [run_cons] at passes
      rcases Option.bind_eq_some_iff.mp passes with ⟨next, stepped, later⟩
      rw [List.foldlM_cons, nestsShallow_cons stepped]
      rcases count_depthsOf shallow stepped with ⟨shallowNext, counted⟩ | ⟨deep, counted⟩
      · rw [counted, and_assoc]
        exact (ih shallowNext later).trans (and_iff_right shallow).symm
      · rw [counted]
        refine iff_of_false (by simp) ?_
        rintro ⟨⟨-, nests⟩, -⟩
        exact deep (nests [] List.nil_prefix next rfl)

theorem repairJson_eq_some_iff {repaired : Bytes} (passes : run {} text = some ⟨owed, .outside comma⟩) :
    repairJson text = some repaired ↔
      NestsShallow {} text ∧
        repaired = text ++ (List.replicate (owed.count (byte ']')) (byte ']') ++
          List.replicate (owed.count (byte '\x7d')) (byte '\x7d')) := by
  have copied : copyFixed false false text = text := copyFixed_of_run passes
  have quotes : quoteCount false text % 2 = 0 := by
    simpa [inStringOf, escapedOf] using quoteCount_of_run passes
  have balanced : balanceQuotes text = text := by
    rw [balanceQuotes, if_neg (by omega)]
  have start : Shallow {} := by simp [Shallow]
  simp only [repairJson, copied, balanced, Option.bind_eq_bind, Option.bind_eq_some_iff]
  constructor
  · rintro ⟨depths, counted, same⟩
    rcases (foldlM_count start passes).mp counted with ⟨nests, rfl⟩
    cases same
    exact ⟨nests, by simp [depthsOf]⟩
  · rintro ⟨nests, rfl⟩
    exact ⟨_, (foldlM_count start passes).mpr ⟨nests, rfl⟩, by simp [depthsOf, pure]⟩

/-!
## Truncated texts
-/

/-- The repair of a text that lost some of its last closing brackets and braces denotes what the
text denoted, and a text that lost none is left as it is. -/
def Restores (text truncated : Bytes) (value : Json) : Prop :=
  ∃ repaired, repairJson truncated = some repaired ∧ Json.parse repaired = some value ∧
    (truncated = text → repaired = text)

/-- All closing brackets stand before all closing braces. -/
def BracketsFirst (closers : Bytes) : Prop :=
  ∃ brackets braces, closers =
    List.replicate brackets (byte ']') ++ List.replicate braces (byte '\x7d')

theorem run_truncated {value : Json} (parsed : Json.parse (kept ++ tail) = some value)
    (closing : Closing tail) :
    run {} (kept ++ tail.filter isBlank) = some ⟨tail.filter isCloser, .outside false⟩ := by
  have passes := run_of_parse parsed
  rw [run_append] at passes
  rcases Option.bind_eq_some_iff.mp passes with ⟨reached, runs, later⟩
  have owes := run_closing closing later
  subst owes
  rw [run_append, runs, Option.bind_some]
  exact run_of_isBlank fun value mem => (List.mem_filter.mp mem).2

theorem BracketsFirst.eq {closers : Bytes} (brackets : BracketsFirst closers) :
    closers = List.replicate (closers.count (byte ']')) (byte ']') ++
      List.replicate (closers.count (byte '\x7d')) (byte '\x7d') := by
  rcases brackets with ⟨brackets, braces, rfl⟩
  have different : byte ']' ≠ byte '\x7d' := by decide
  simp [List.count_append, List.count_replicate, different, different.symm]

/-- **The repair restores a truncated text** exactly if all brackets that were deleted stood before
all braces that were, and no depth overflows. -/
theorem restores_iff (text kept tail : Bytes) (value : Json)
    (parsed : Json.parse text = some value) (split : text = kept ++ tail)
    (closing : Closing tail) :
    Restores text (kept ++ tail.filter isBlank) value ↔
      BracketsFirst (tail.filter isCloser) ∧ NestsShallow {} (kept ++ tail.filter isBlank) := by
  subst split
  have passes := run_truncated parsed closing
  constructor
  · rintro ⟨repaired, repairs, denotes, -⟩
    rcases (repairJson_eq_some_iff passes).mp repairs with ⟨nests, rfl⟩
    refine ⟨?_, nests⟩
    have closed := run_of_parse denotes
    rw [run_append, passes, Option.bind_some] at closed
    have appended : Closing (List.replicate ((tail.filter isCloser).count (byte ']')) (byte ']') ++
        List.replicate ((tail.filter isCloser).count (byte '\x7d')) (byte '\x7d')) := by
      intro value mem
      rw [List.mem_append, List.mem_replicate, List.mem_replicate] at mem
      rcases mem with ⟨-, rfl⟩ | ⟨-, rfl⟩
      · exact .inr rfl
      · exact .inr rfl
    have owes := run_closing appended closed
    refine ⟨_, _, (congrArg Nesting.owed owes).trans (List.filter_eq_self.mpr ?_)⟩
    intro value mem
    rw [List.mem_append, List.mem_replicate, List.mem_replicate] at mem
    rcases mem with ⟨-, rfl⟩ | ⟨-, rfl⟩
    · rfl
    · rfl
  · rintro ⟨brackets, nests⟩
    refine ⟨_, (repairJson_eq_some_iff passes).mpr ⟨nests, rfl⟩, ?_, ?_⟩
    · rw [← brackets.eq, List.append_assoc]
      refine (closing.similar kept).parse ?_ parsed
      rw [List.length_append, List.length_append, List.length_append, closing.length]
    · intro same
      have counted := congrArg List.length same
      rw [List.length_append, List.length_append, ← closing.length] at counted
      have none : tail.filter isCloser = [] := List.length_eq_zero_iff.mp (by omega)
      rw [none, ← same]
      exact List.append_nil _

/-- An array in an object. -/
theorem restores_arrayInObject :
    ∃ value, Json.parse (ascii "\x7b\"a\": [1 ] \x7d\n") = some value ∧
      (Restores (ascii "\x7b\"a\": [1 ] \x7d\n")
          (ascii "\x7b\"a\": [1" ++ (ascii " ] \x7d\n").filter isBlank) value ↔
        BracketsFirst ((ascii " ] \x7d\n").filter isCloser) ∧
          NestsShallow {} (ascii "\x7b\"a\": [1" ++ (ascii " ] \x7d\n").filter isBlank)) := by
  have read : (Json.parse (ascii "\x7b\"a\": [1 ] \x7d\n")).isSome = true := by decide +kernel
  rcases Option.isSome_iff_exists.mp read with ⟨value, parsed⟩
  exact ⟨value, parsed, restores_iff _ (ascii "\x7b\"a\": [1") (ascii " ] \x7d\n") value parsed
    (by decide) (List.forall_iff_forall_mem.mp (by decide))⟩

/-- An object in an array gets its bracket before its brace. -/
theorem not_restores :
    ¬∀ text kept tail value, Json.parse text = some value → text = kept ++ tail → Closing tail →
      Restores text (kept ++ tail.filter isBlank) value := by
  intro always
  have read : (Json.parse (ascii "[\x7b\"a\":1\x7d]")).isSome = true := by decide +kernel
  rcases Option.isSome_iff_exists.mp read with ⟨value, parsed⟩
  rcases always _ (ascii "[\x7b\"a\":1") (ascii "\x7d]") value parsed (by decide)
    (List.forall_iff_forall_mem.mp (by decide)) with ⟨repaired, repairs, denotes, -⟩
  have appended : repairJson (ascii "[\x7b\"a\":1" ++ (ascii "\x7d]").filter isBlank) =
      some (ascii "[\x7b\"a\":1]\x7d") := by decide
  rw [appended] at repairs
  cases repairs
  have nothing : (Json.parse (ascii "[\x7b\"a\":1]\x7d")).isNone = true := by decide +kernel
  rw [denotes] at nothing
  cases nothing

end Nullalis.Agent.Dispatcher
