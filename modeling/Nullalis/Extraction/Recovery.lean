import Nullalis.Base.Occurrence
import Nullalis.Extraction.Parser

/-!
# What is recovered around an object

An answer holds the text of an object behind a text without an opening brace. If the fence that the
answer may start with ends before the object, then the object stands in what is left of the answer,
and either what is left is no JSON text and the object is found in it, or it is a JSON text that
starts with the object, or nothing is extracted.
-/

namespace Nullalis.Extraction

open Json Json.Nesting

variable {s front core back inner raw text : Bytes} {members : List (Bytes × Json)}

/-!
## Trimming
-/

theorem dropWhile_append_of_head {drops : UInt8 → Bool} {more : Bytes}
    (stays : ∀ value, more.head? = some value → drops value = false) :
    (front ++ more).dropWhile drops = front.dropWhile drops ++ more := by
  rw [List.dropWhile_append]
  split
  case isTrue none =>
      rw [List.isEmpty_iff.mp none, List.nil_append]
      cases more with
      | nil => rfl
      | cons value more => rw [List.dropWhile_cons, stays value rfl]; rfl
  case isFalse => rfl

theorem trim_around {values middle : Bytes} {first last : UInt8}
    (start : values.contains first = false) (stop : values.contains last = false) :
    Bytes.trim values (front ++ first :: (middle ++ last :: back)) =
      front.dropWhile values.contains ++
        first :: (middle ++ last :: (back.reverse.dropWhile values.contains).reverse) := by
  have head : ∀ value, (first :: (middle ++ last :: back)).head? = some value →
      values.contains value = false := by
    rintro value ⟨⟩
    exact start
  have tail : ∀ value, (last :: (middle.reverse ++
      first :: (front.dropWhile values.contains).reverse)).head? = some value →
        values.contains value = false := by
    rintro value ⟨⟩
    exact stop
  have reversed : (front.dropWhile values.contains ++ first :: (middle ++ last :: back)).reverse =
      back.reverse ++ last :: (middle.reverse ++
        first :: (front.dropWhile values.contains).reverse) := by simp
  rw [Bytes.trim, dropWhile_append_of_head head, reversed, dropWhile_append_of_head tail]
  simp

theorem head?_trim {values : Bytes} {value : UInt8}
    (starts : (Bytes.trim values text).head? = some value) : values.contains value = false := by
  rcases List.head?_eq_some_iff.mp starts with ⟨rest, shape⟩
  exact Bytes.contains_of_trim_eq_cons shape

/-!
## Fences
-/

/-- Does the line of the fence that the text starts with end before the first brace, if a line ends
in the text at all? -/
def FenceEnds (s : Bytes) : Prop :=
  Bytes.startsWith s "```" = true → byte '\n' ∈ s → byte '\n' ∈ s.takeWhile (· != byte '\x7b')

theorem suffix_of_endsWith (ends : Bytes.endsWith (front ++ byte '\x7d' :: back) "```" = true) :
    ascii "```" <:+ back := by
  have whole : ascii "```" <:+ front ++ byte '\x7d' :: back := List.isSuffixOf_iff_suffix.mp ends
  have part : byte '\x7d' :: back <:+ front ++ byte '\x7d' :: back := List.suffix_append ..
  have behind : back <:+ front ++ byte '\x7d' :: back :=
    (List.suffix_cons (byte '\x7d') back).trans part
  by_cases long : (ascii "```").length ≤ back.length
  · exact List.suffix_of_suffix_length_le whole behind long
  · have inside : byte '\x7d' :: back <:+ ascii "```" :=
      List.suffix_of_suffix_length_le part whole (by rw [List.length_cons]; omega)
    have mem : byte '\x7d' ∈ ascii "```" := inside.subset List.mem_cons_self
    exact absurd mem (by decide)

theorem prefix_of_startsWith (starts : Bytes.startsWith (front ++ byte '\x7b' :: back) "```" = true) :
    ascii "```" <+: front := by
  have whole : ascii "```" <+: front ++ byte '\x7b' :: back := List.isPrefixOf_iff_prefix.mp starts
  have part : front ++ [byte '\x7b'] <+: front ++ byte '\x7b' :: back := ⟨back, by simp⟩
  by_cases long : (ascii "```").length ≤ front.length
  · exact List.prefix_of_prefix_length_le whole (List.prefix_append ..) long
  · have inside : front ++ [byte '\x7b'] <+: ascii "```" :=
      List.prefix_of_prefix_length_le part whole (by simp; omega)
    have mem : byte '\x7b' ∈ ascii "```" := inside.subset (by simp)
    exact absurd mem (by decide)

theorem takeWhile_brace (apart : byte '\x7b' ∉ front) :
    (front ++ byte '\x7b' :: back).takeWhile (· != byte '\x7b') = front := by
  rw [List.takeWhile_append_of_pos]
  · simp
  · intro value mem
    have other : value ≠ byte '\x7b' := fun same => apart (same ▸ mem)
    simpa using other

theorem exists_dropClosingFence (front back : Bytes) :
    ∃ rest, dropClosingFence (front ++ byte '\x7d' :: back) = front ++ byte '\x7d' :: rest := by
  rw [dropClosingFence]
  split
  case isTrue ends =>
      rcases suffix_of_endsWith ends with ⟨rest, rfl⟩
      have whole : front ++ byte '\x7d' :: (rest ++ ascii "```") =
          (front ++ byte '\x7d' :: rest) ++ ascii "```" := by simp
      have length : ((front ++ byte '\x7d' :: rest) ++ ascii "```").length - 3 =
          (front ++ byte '\x7d' :: rest).length := by
        rw [List.length_append]
        exact Nat.add_sub_cancel _ 3
      refine ⟨rest, ?_⟩
      rw [whole, length, List.take_left]
  case isFalse => exact ⟨back, rfl⟩

theorem exists_skipOpeningFence {tag : Bytes} (apart : byte '\x7b' ∉ tag)
    (ends : byte '\n' ∈ tag ++ byte '\x7b' :: back → byte '\n' ∈ tag) :
    ∃ before, skipOpeningFence (ascii "```" ++ (tag ++ byte '\x7b' :: back)) =
      before ++ byte '\x7b' :: back ∧ byte '\x7b' ∉ before := by
  have dropped (text : Bytes) : (ascii "```" ++ text).drop 3 = text := rfl
  by_cases line : byte '\n' ∈ tag
  case pos =>
      rcases List.eq_append_cons_of_mem line with ⟨word, later, rfl, first⟩
      have found : Bytes.indexOfScalar (byte '\n')
          (word ++ byte '\n' :: (later ++ byte '\x7b' :: back)) = some word.length :=
        Bytes.indexOfScalar_append_cons first
      rw [List.mem_append, List.mem_cons, not_or, not_or] at apart
      refine ⟨later, ?_, apart.2.2⟩
      rw [skipOpeningFence, dropped, List.append_assoc, List.cons_append, found]
      dsimp only
      rw [Nat.add_assoc, ← List.drop_drop, dropped, ← List.drop_drop, List.drop_left]
      rfl
  case neg =>
      have absent : Bytes.indexOfScalar (byte '\n') (tag ++ byte '\x7b' :: back) = none := by
        rw [← Option.not_isSome_iff_eq_none, Bytes.indexOfScalar_isSome_iff]
        exact fun mem => line (ends mem)
      refine ⟨ascii "```" ++ tag, ?_, ?_⟩
      · rw [skipOpeningFence, dropped, absent, List.append_assoc]
      · rw [List.mem_append, not_or]
        exact ⟨by decide, apart⟩

theorem stripCodeFence_around (apart : byte '\x7b' ∉ front)
    (ends : FenceEnds (front ++ byte '\x7b' :: (inner ++ byte '\x7d' :: back))) :
    ∃ before rest, stripCodeFence (front ++ byte '\x7b' :: (inner ++ byte '\x7d' :: back)) =
        before ++ byte '\x7b' :: (inner ++ byte '\x7d' :: rest) ∧ byte '\x7b' ∉ before := by
  rw [FenceEnds, takeWhile_brace apart] at ends
  rw [stripCodeFence]
  split
  case isFalse => exact ⟨front, back, rfl, apart⟩
  case isTrue starts =>
      have known := ends starts
      rcases prefix_of_startsWith starts with ⟨tag, rfl⟩
      have noTick : byte '\n' ∉ ascii "```" := by decide
      simp only [List.append_assoc, List.mem_append (s := ascii "```"), noTick, false_or] at known
      rw [List.mem_append, not_or] at apart
      rcases exists_skipOpeningFence apart.2 known with ⟨before, shape, none⟩
      rcases exists_dropClosingFence (before ++ byte '\x7b' :: inner) back with ⟨rest, dropped⟩
      rw [List.append_assoc, List.append_assoc, List.cons_append, List.cons_append] at dropped
      rw [List.append_assoc, shape, dropped, trim_around (by decide) (by decide)]
      refine ⟨_, _, rfl, ?_⟩
      intro mem
      exact none ((List.dropWhile_sublist _).subset mem)

/-!
## The scanner of braces
-/

def depthOf (nesting : Nesting) : ℕ :=
  nesting.owed.count (byte '\x7d')

/-- What the scanner of braces knows of the nesting. -/
def bracesOf (nesting : Nesting) : Braces where
  depth := depthOf nesting
  in_string := match nesting.mode with
    | .outside _ => false
    | _ => true
  escape := match nesting.mode with
    | .escaped => true
    | _ => false

/-- At no place of the text are more braces open than the depth can count. -/
def FitsDepth (nesting : Nesting) (text : Bytes) : Prop :=
  ∀ start, start <+: text → ∀ reached, run nesting start = some reached → depthOf reached < 2 ^ 31

def StaysOpen (nesting : Nesting) (text : Bytes) : Prop :=
  ∀ start, start <+: text → ∀ reached, run nesting start = some reached → 0 < depthOf reached

variable {nesting next final : Nesting} {owed : List UInt8} {comma : Bool} {value : UInt8}
  {rest : Bytes}

theorem depthOf_bracket (mode : Mode) : depthOf ⟨byte ']' :: owed, mode⟩ = depthOf ⟨owed, mode⟩ :=
  List.count_cons_of_ne (by decide)

theorem depthOf_brace (mode : Mode) : depthOf ⟨byte '\x7d' :: owed, mode⟩ = depthOf ⟨owed, mode⟩ + 1 :=
  List.count_cons_self

theorem scan_brace (depth : ℤ) :
    (⟨depth, false, false⟩ : Braces).scan (byte '\x7b') =
      if depth + 1 < 2 ^ 31 then .further ⟨depth + 1, false, false⟩ else .overflow := by
  have other : byte '\x7b' ≠ byte '\\' ∧ byte '\x7b' ≠ byte '"' := by decide
  unfold Braces.scan
  dsimp only
  rw [if_neg Bool.false_ne_true, if_neg other.1, if_neg other.2, if_neg Bool.false_ne_true,
    if_pos rfl]

/-- The scanner of braces follows the nesting as long as a brace is open, unless the depth
overflows. -/
theorem scan_bracesOf (stepped : step nesting value = some next) (stays : 0 < depthOf next)
    (bounded : depthOf nesting < 2 ^ 31) :
    (bracesOf nesting).scan value =
      if depthOf next < 2 ^ 31 then .further (bracesOf next) else .overflow := by
  have further (braces : Braces) (bounded : depthOf next < 2 ^ 31) :
      (if depthOf next < 2 ^ 31 then Scanned.further braces else .overflow) = .further braces :=
    if_pos bounded
  rcases nesting with ⟨owed, mode⟩
  cases mode with
  | escaped =>
      cases stepped
      rw [further _ bounded]
      rfl
  | inside =>
      rcases step_inside stepped with ⟨rfl, rfl⟩ | ⟨rfl, rfl⟩ | ⟨inner, rfl⟩
      · rw [further _ bounded]
        rfl
      · rw [further _ bounded]
        rfl
      · rw [further _ bounded]
        simp [bracesOf, Braces.scan, inner.1, inner.2.1]
  | outside comma =>
      rcases step_outside stepped with ⟨rfl, rfl⟩ | ⟨rfl, rfl⟩ | ⟨rfl, rfl⟩ |
        ⟨closes, rfl, later, rfl, rfl⟩ | ⟨rfl, rfl⟩ | ⟨neutral, _, rfl⟩
      · rw [further _ bounded]
        rfl
      · have same : bracesOf ⟨byte ']' :: owed, .outside false⟩ = bracesOf ⟨owed, .outside comma⟩ := by
          rw [bracesOf, depthOf_bracket]
          rfl
        rw [further _ (by rw [depthOf_bracket]; exact bounded), same]
        rfl
      · have scanned : (bracesOf ⟨owed, .outside comma⟩).scan (byte '\x7b') =
            if ((depthOf ⟨owed, .outside comma⟩ : ℕ) : ℤ) + 1 < 2 ^ 31 then
              .further ⟨(depthOf ⟨owed, .outside comma⟩ : ℕ) + 1, false, false⟩
            else .overflow := scan_brace _
        have deeper : depthOf ⟨byte '\x7d' :: owed, .outside false⟩ =
            depthOf ⟨owed, .outside comma⟩ + 1 := depthOf_brace _
        have same : bracesOf ⟨byte '\x7d' :: owed, .outside false⟩ =
            ⟨(depthOf ⟨owed, .outside comma⟩ : ℕ) + 1, false, false⟩ := by
          rw [bracesOf, deeper]
          simp
        rw [scanned, deeper, same]
        by_cases fits : depthOf ⟨owed, .outside comma⟩ + 1 < 2 ^ 31
        · rw [if_pos fits, if_pos (by omega)]
        · rw [if_neg fits, if_neg (by omega)]
      · rcases closes with rfl | rfl
        · have same : bracesOf ⟨byte ']' :: later, .outside false⟩ =
              bracesOf ⟨later, .outside false⟩ := by
            rw [bracesOf, depthOf_bracket]
            rfl
          rw [depthOf_bracket] at bounded
          rw [further _ bounded, same]
          rfl
        · have deeper : depthOf ⟨byte '\x7d' :: later, .outside false⟩ =
              depthOf ⟨later, .outside false⟩ + 1 := depthOf_brace _
          rw [deeper] at bounded
          rw [further _ (by omega), bracesOf, deeper]
          have other : byte '\x7d' ≠ byte '\\' ∧ byte '\x7d' ≠ byte '"' ∧
              byte '\x7d' ≠ byte '\x7b' := by decide
          have open' : ¬((depthOf ⟨later, .outside false⟩ + 1 : ℕ) : ℤ) - 1 = 0 := by omega
          have above : (-2 ^ 31 : ℤ) ≤ ((depthOf ⟨later, .outside false⟩ + 1 : ℕ) : ℤ) - 1 := by
            omega
          simp only [Braces.scan, Bool.false_eq_true, if_false, if_neg other.1, if_neg other.2.1,
            if_neg other.2.2, if_true, if_neg open', if_pos above, bracesOf]
          simp
      · rw [further _ bounded]
        rfl
      · rw [further _ bounded]
        rcases neutral with ⟨quote, -, brace, -, closeBrace, -, backslash⟩
        simp [bracesOf, Braces.scan, quote, brace, closeBrace, backslash, depthOf]

theorem fitsDepth_cons (stepped : step nesting value = some next) :
    FitsDepth nesting (value :: rest) ↔ depthOf nesting < 2 ^ 31 ∧ FitsDepth next rest := by
  constructor
  · intro fits
    refine ⟨fits [] List.nil_prefix nesting rfl, ?_⟩
    intro start starts reached runs
    refine fits (value :: start) ((List.prefix_cons_inj value).mpr starts) reached ?_
    rw [run_cons, stepped, Option.bind_some, runs]
  · rintro ⟨here, later⟩ start starts reached runs
    cases start with
    | nil =>
        cases runs
        exact here
    | cons head start =>
        rcases List.cons_prefix_cons.mp starts with ⟨rfl, startsRest⟩
        rw [run_cons, stepped, Option.bind_some] at runs
        exact later start startsRest reached runs

/-- The scanner of braces passes a text in which a brace stays open, unless the depth overflows. -/
theorem closedObject_bracesOf (back : Bytes) (passes : run nesting text = some final)
    (stays : StaysOpen nesting text) (start : depthOf nesting < 2 ^ 31) :
    (FitsDepth nesting text → closedObject (bracesOf nesting) (text ++ back) =
      (closedObject (bracesOf final) back).map fun found => found.map (text ++ ·)) ∧
    (¬FitsDepth nesting text → closedObject (bracesOf nesting) (text ++ back) = none) := by
  induction text generalizing nesting with
  | nil =>
      cases passes
      constructor
      · intro _
        rw [List.nil_append]
        cases closedObject (bracesOf final) back with
        | none => rfl
        | some found => cases found <;> rfl
      · intro deep
        refine absurd ?_ deep
        intro before starts reached runs
        rw [List.prefix_nil.mp starts] at runs
        cases runs
        exact start
  | cons value rest ih =>
      rw [run_cons] at passes
      rcases Option.bind_eq_some_iff.mp passes with ⟨next, stepped, later⟩
      have staysOpen : 0 < depthOf next := by
        refine stays [value] ⟨rest, rfl⟩ next ?_
        rw [run_cons, stepped]
        rfl
      have staysLater : StaysOpen next rest := by
        intro before starts reached runs
        refine stays (value :: before) ((List.prefix_cons_inj value).mpr starts) reached ?_
        rw [run_cons, stepped, Option.bind_some, runs]
      have scanned := scan_bracesOf stepped staysOpen start
      rw [fitsDepth_cons stepped, List.cons_append, closedObject, scanned]
      by_cases bounded : depthOf next < 2 ^ 31
      case pos =>
          rw [if_pos bounded]
          rcases ih later staysLater bounded with ⟨fits, deep⟩
          constructor
          · rintro ⟨_, fitsLater⟩
            dsimp only
            rw [fits fitsLater]
            cases closedObject (bracesOf final) back with
            | none => rfl
            | some found => cases found <;> rfl
          · intro deeper
            dsimp only
            rw [deep fun fitsLater => deeper ⟨start, fitsLater⟩]
            rfl
      case neg =>
          rw [if_neg bounded]
          constructor
          · rintro ⟨_, fitsLater⟩
            exact absurd (fitsLater [] List.nil_prefix next rfl) bounded
          · intro _
            rfl

theorem fitsDepth_nil : FitsDepth nesting [] ↔ depthOf nesting < 2 ^ 31 := by
  constructor
  · intro fits
    exact fits [] List.nil_prefix nesting rfl
  · intro bounded start starts reached runs
    rw [List.prefix_nil.mp starts] at runs
    cases runs
    exact bounded

theorem fitsDepth_append {first second : Bytes} (passes : run nesting first = some next) :
    FitsDepth nesting (first ++ second) ↔ FitsDepth nesting first ∧ FitsDepth next second := by
  induction first generalizing nesting with
  | nil =>
      cases passes
      rw [List.nil_append, fitsDepth_nil]
      constructor
      · intro fits
        exact ⟨fits [] List.nil_prefix next rfl, fits⟩
      · rintro ⟨_, fits⟩
        exact fits
  | cons value rest ih =>
      rw [run_cons] at passes
      rcases Option.bind_eq_some_iff.mp passes with ⟨between, stepped, later⟩
      rw [List.cons_append, fitsDepth_cons stepped, fitsDepth_cons stepped, ih later, and_assoc]

theorem fitsDepth_blanks {blanks : Bytes} (isBlanks : blanks.all isBlank = true) :
    FitsDepth {} blanks := by
  rintro start ⟨others, rfl⟩ reached runs
  rw [List.all_append, Bool.and_eq_true] at isBlanks
  rw [run_of_isBlank (List.all_eq_true.mp isBlanks.1)] at runs
  cases runs
  decide

theorem fitsDepth_between {front back : Bytes} (isFront : front.all isBlank = true)
    (isBack : back.all isBlank = true) (object : ObjectText core members) :
    FitsDepth {} (front ++ (core ++ back)) ↔ FitsDepth {} core := by
  have passes : run {} core = some {} := run_of_parse object.parsed
  rw [fitsDepth_append (run_of_isBlank (List.all_eq_true.mp isFront)), fitsDepth_append passes]
  constructor
  · rintro ⟨_, fits, _⟩
    exact fits
  · intro fits
    exact ⟨fitsDepth_blanks isFront, fits, fitsDepth_blanks isBack⟩

/-- **The first object of a text is found**, unless the depth overflows. -/
theorem extractFirstJsonObject_around {before : Bytes} (back : Bytes) (object : ObjectText core members)
    (apart : byte '\x7b' ∉ before) :
    (FitsDepth {} core → extractFirstJsonObject (before ++ (core ++ back)) = some (some core)) ∧
      (¬FitsDepth {} core → extractFirstJsonObject (before ++ (core ++ back)) = none) := by
  rcases object.shape with ⟨inner, rfl, passes⟩
  have found : Bytes.indexOfScalar (byte '\x7b') (before ++ (byte '\x7b' ::
      (inner ++ [byte '\x7d']) ++ back)) = some before.length :=
    Bytes.indexOfScalar_append_cons apart
  have opens : step {} (byte '\x7b') = some ⟨[byte '\x7d'], .outside false⟩ := rfl
  have opened : bracesOf ⟨[byte '\x7d'], .outside false⟩ = ⟨1, false, false⟩ := by decide
  have inside : run ⟨[byte '\x7d'], .outside false⟩ inner =
      some ⟨[byte '\x7d'], .outside false⟩ := passes _
  have stays : StaysOpen ⟨[byte '\x7d'], .outside false⟩ inner := by
    intro start starts reached runs
    rcases passes.keeps starts [byte '\x7d'] with ⟨above, mode, again⟩
    rw [runs] at again
    cases again
    simp [depthOf]
  have fits : FitsDepth {} (byte '\x7b' :: (inner ++ [byte '\x7d'])) ↔
      FitsDepth ⟨[byte '\x7d'], .outside false⟩ inner := by
    have closes : FitsDepth ⟨[byte '\x7d'], .outside false⟩ [byte '\x7d'] := by
      rw [fitsDepth_cons (step_close (Or.inr rfl)), fitsDepth_nil]
      decide
    have start : depthOf {} < 2 ^ 31 := by decide
    rw [fitsDepth_cons opens, fitsDepth_append inside]
    exact ⟨fun both => both.2.1, fun known => ⟨start, known, closes⟩⟩
  have scanned : closedObject {} (byte '\x7b' :: (inner ++ byte '\x7d' :: back)) =
      (closedObject ⟨1, false, false⟩ (inner ++ byte '\x7d' :: back)).map fun found =>
        found.map (byte '\x7b' :: ·) := by
    have first : (⟨0, false, false⟩ : Braces).scan (byte '\x7b') = .further ⟨1, false, false⟩ := by
      rw [scan_brace, if_pos (by decide)]
      rfl
    rw [closedObject, first]
  have closed : closedObject ⟨1, false, false⟩ (byte '\x7d' :: back) = some (some [byte '\x7d']) := by
    rfl
  have bounded : depthOf ⟨[byte '\x7d'], .outside false⟩ < 2 ^ 31 := by decide
  have body := closedObject_bracesOf (byte '\x7d' :: back) inside stays bounded
  rw [opened, closed] at body
  rw [extractFirstJsonObject, found, fits]
  dsimp only
  rw [List.drop_left, List.cons_append, List.append_assoc, List.singleton_append, scanned]
  constructor
  · intro shallow
    rw [body.1 shallow]
    rfl
  · intro deep
    rw [body.2 deep]
    rfl

/-!
## Reading
-/

section Number

variable {Number : Type} (floats : Floats Number)

def IsObjectText (text : Bytes) : Prop :=
  ∃ members, Json.parse text = some (.object members)

/-- Does the object of the text hold an entity or an edge? -/
def Extracts (text : Bytes) : Prop :=
  ∃ members, Json.parse text = some (.object members) ∧
    parseRoot floats members ≠ (⟨[], []⟩ : ExtractionResult Number)

/-- What is left of an answer when it is trimmed and a fence is stripped. -/
def stripped (raw : Bytes) : Bytes :=
  stripCodeFence (Bytes.trim whitespace raw)

theorem parseExtractionImpl_of_object {unread : Bytes → Option (ExtractionResult Number)}
    (parsed : Json.parse (stripped raw) = some (.object members)) :
    parseExtractionImpl floats unread raw = some (parseRoot floats members) := by
  rw [parseExtractionImpl, ← stripped]
  split
  case isTrue empty =>
      rw [List.isEmpty_iff.mp empty] at parsed
      cases parsed
  case isFalse =>
      split
      case isTrue braces =>
          rw [braces] at parsed
          have none : Json.parse (ascii "\x7b\x7d") = some (.object []) := rfl
          rw [none] at parsed
          cases parsed
          rfl
      case isFalse => rw [parsed]

theorem parseExtractionImpl_of_other {unread : Bytes → Option (ExtractionResult Number)}
    {value : Json} (parsed : Json.parse (stripped raw) = some value)
    (other : ∀ members, value ≠ .object members) :
    parseExtractionImpl floats unread raw = some ⟨[], []⟩ := by
  rw [parseExtractionImpl, ← stripped]
  split
  case isTrue => rfl
  case isFalse =>
      split
      case isTrue => rfl
      case isFalse =>
          rw [parsed]
          cases value with
          | object members => exact absurd rfl (other members)
          | _ => rfl

theorem parseExtractionImpl_of_none {unread : Bytes → Option (ExtractionResult Number)}
    (failed : Json.parse (stripped raw) = none) (filled : stripped raw ≠ []) :
    parseExtractionImpl floats unread raw = unread (stripped raw) := by
  rw [parseExtractionImpl, ← stripped, if_neg (by simpa using filled)]
  split
  case isTrue braces =>
      rw [braces] at failed
      have parsed : Json.parse (ascii "\x7b\x7d") = some (.object []) := rfl
      rw [parsed] at failed
      cases failed
  case isFalse => rw [failed]

theorem dropWhile_blanks {blanks : Bytes} (isBlanks : blanks.all isBlank = true) :
    blanks.dropWhile whitespace.contains = [] := by
  have blank : ∀ value, isBlank value = true → whitespace.contains value = true := by
    refine Bytes.forall_byte ?_
    decide
  rw [List.dropWhile_eq_nil_iff]
  exact fun value mem => blank value (List.all_eq_true.mp isBlanks value mem)

theorem stripped_object {front back : Bytes} (isFront : front.all isBlank = true)
    (isBack : back.all isBlank = true) (object : ObjectText core members) :
    stripped (front ++ (core ++ back)) = core := by
  rcases object.shape with ⟨inner, rfl, -⟩
  have reversed : back.reverse.all isBlank = true := by simpa using isBack
  have shape : front ++ (byte '\x7b' :: (inner ++ [byte '\x7d']) ++ back) =
      front ++ byte '\x7b' :: (inner ++ byte '\x7d' :: back) := by simp
  rw [stripped, shape, trim_around (by decide) (by decide), dropWhile_blanks isFront,
    dropWhile_blanks reversed]
  rfl

theorem stripped_self (object : ObjectText core members) : stripped core = core := by
  have alone : stripped ([] ++ (core ++ [])) = core := stripped_object rfl rfl object
  simpa using alone

theorem parseExtraction_object (parsed : Json.parse text = some (.object members)) :
    parseExtraction floats text = some (parseRoot floats members) := by
  rcases exists_objectText_of_parse parsed with ⟨front, core, back, rfl, isFront, isBack, object⟩
  apply parseExtractionImpl_of_object
  rw [stripped_object isFront isBack object]
  exact object.parsed

theorem object_of_brace {value : Json} (parsed : Json.parse (byte '\x7b' :: back) = some value) :
    ∃ members, value = .object members := by
  have solid : skipBlanks (byte '\x7b' :: back) = byte '\x7b' :: back := skipBlanks_cons rfl
  have other : byte '\x7b' ≠ byte '"' ∧ byte '\x7b' ≠ byte '[' := by decide
  unfold Json.parse at parsed
  split at parsed
  case isFalse => cases parsed
  case isTrue =>
    rcases Option.bind_eq_some_iff.mp parsed with ⟨⟨whole, after⟩, read, parsed⟩
    dsimp only at parsed
    split at parsed
    case isFalse => cases parsed
    case isTrue =>
      cases parsed
      rw [readValue, solid] at read
      dsimp only at read
      rw [if_neg other.1, if_neg other.2, if_pos rfl] at read
      split at read
      case isTrue =>
        cases read
        exact ⟨[], rfl⟩
      case isFalse =>
        rcases Option.bind_eq_some_iff.mp read with ⟨⟨all, last⟩, -, read⟩
        dsimp only at read
        split at read
        case isTrue =>
          cases read
          exact ⟨all, rfl⟩
        case isFalse => cases read

theorem exists_stripped_around (apart : byte '\x7b' ∉ front) (object : ObjectText core members)
    (ends : FenceEnds (Bytes.trim whitespace (front ++ (core ++ back)))) :
    ∃ before rest, stripped (front ++ (core ++ back)) = before ++ (core ++ rest) ∧
      byte '\x7b' ∉ before ∧
      ∀ value, (stripped (front ++ (core ++ back))).head? = some value → isBlank value = false := by
  rcases object.shape with ⟨inner, rfl, -⟩
  have shape (front back : Bytes) : front ++ (byte '\x7b' :: (inner ++ [byte '\x7d']) ++ back) =
      front ++ byte '\x7b' :: (inner ++ byte '\x7d' :: back) := by simp
  have solid : ∀ value, whitespace.contains value = false → isBlank value = false := by
    refine Bytes.forall_byte ?_
    decide
  have apart' : byte '\x7b' ∉ front.dropWhile whitespace.contains :=
    fun mem => apart ((List.dropWhile_sublist _).subset mem)
  have trimmed : Bytes.trim whitespace (front ++ byte '\x7b' :: (inner ++ byte '\x7d' :: back)) =
      _ := trim_around (by decide) (by decide)
  rw [shape, trimmed] at ends
  rcases stripCodeFence_around apart' ends with ⟨before, rest, left, none⟩
  refine ⟨before, rest, ?_, none, ?_⟩
  · rw [shape, shape, stripped, trimmed, left]
  · intro value starts
    apply solid
    rw [shape, stripped, stripCodeFence] at starts
    split at starts
    case isTrue => exact head?_trim starts
    case isFalse => exact head?_trim starts

theorem eq_of_stripped_object {left : Bytes} {others : List (Bytes × Json)} {before rest : Bytes}
    (object : ObjectText core members) (apart : byte '\x7b' ∉ before)
    (shape : left = before ++ (core ++ rest))
    (solid : ∀ value, left.head? = some value → isBlank value = false)
    (parsed : Json.parse left = some (.object others)) :
    left.head? = some (byte '\x7b') ∧ others = members := by
  rcases exists_objectText_of_parse parsed with ⟨front, other, back, whole, isFront, -, second⟩
  have opened : other.head? = some (byte '\x7b') := by
    rcases second.shape with ⟨inner, rfl, -⟩
    rfl
  have noFront : front = [] := by
    cases front with
    | nil => rfl
    | cons value front =>
        rw [List.all_cons, Bool.and_eq_true] at isFront
        have notBlank := solid value (by rw [whole]; rfl)
        rw [isFront.1] at notBlank
        cases notBlank
  rw [noFront, List.nil_append] at whole
  have head : left.head? = some (byte '\x7b') := by
    rw [whole, List.head?_append, opened]
    rfl
  refine ⟨head, ?_⟩
  have noBefore : before = [] := by
    cases before with
    | nil => rfl
    | cons value before =>
        rw [shape] at head
        cases head
        exact absurd List.mem_cons_self apart
  rw [noBefore, List.nil_append] at shape
  have same : core = other := object.eq_of_append second (shape.symm.trans whole)
  have parsedBoth := object.parsed
  rw [same, second.parsed] at parsedBoth
  cases parsedBoth
  rfl

/-- What is left of the answer is no JSON text, or it starts with a brace, or there is nothing in
the text that could be recovered. -/
def Recoverable (answer text : Bytes) : Prop :=
  (Json.parse (stripped answer)).isSome = true →
    (stripped answer).head? = some (byte '\x7b') ∨ ¬Extracts floats text

/-- **What is recovered around an object.** If a fence at the start of the answer ends before the
object, then what the object holds is recovered exactly if it can be. -/
theorem parseExtraction_around_iff (apart : byte '\x7b' ∉ front) (isObject : IsObjectText text)
    (fits : FitsDepth {} text)
    (ends : FenceEnds (Bytes.trim whitespace (front ++ (text ++ back)))) :
    parseExtraction floats (front ++ (text ++ back)) = parseExtraction floats text ↔
      Recoverable floats (front ++ (text ++ back)) text := by
  rcases isObject with ⟨members, parsed⟩
  rw [parseExtraction_object floats parsed]
  have extracts : Extracts floats text ↔
      parseRoot floats members ≠ (⟨[], []⟩ : ExtractionResult Number) := by
    constructor
    · rintro ⟨others, again, filled⟩
      rw [parsed] at again
      cases again
      exact filled
    · intro filled
      exact ⟨members, parsed, filled⟩
  rcases exists_objectText_of_parse parsed with ⟨left, core, right, rfl, isLeft, isRight, object⟩
  have noBrace : byte '\x7b' ∉ left := by
    intro mem
    have blank := List.all_eq_true.mp isLeft _ mem
    cases blank
  have whole : front ++ (left ++ (core ++ right) ++ back) =
      (front ++ left) ++ (core ++ (right ++ back)) := by simp
  have apartAll : byte '\x7b' ∉ front ++ left := by
    rw [List.mem_append, not_or]
    exact ⟨apart, noBrace⟩
  rw [whole] at ends ⊢
  rcases exists_stripped_around apartAll object ends with ⟨before, rest, shape, unopened, solid⟩
  rw [fitsDepth_between isLeft isRight object] at fits
  rw [Recoverable, extracts]
  generalize front ++ left ++ (core ++ (right ++ back)) = answer at shape solid ⊢
  cases read : Json.parse (stripped answer) with
  | none =>
      have filled : stripped answer ≠ [] := by
        rcases object.shape with ⟨inner, rfl, -⟩
        rw [shape]
        simp
      have again : parseExtractionImpl floats (fun _ => some ⟨[], []⟩) core =
          some (parseRoot floats members) := by
        apply parseExtractionImpl_of_object
        rw [stripped_self object]
        exact object.parsed
      have found := (extractFirstJsonObject_around rest object unopened).1 fits
      rw [parseExtraction, parseExtractionImpl_of_none floats read filled, shape, found,
        Option.bind_some]
      simp [again]
  | some value =>
      by_cases isObject : ∃ others, value = .object others
      · rcases isObject with ⟨others, rfl⟩
        rcases eq_of_stripped_object object unopened shape solid read with ⟨head, rfl⟩
        rw [parseExtraction, parseExtractionImpl_of_object floats read]
        simp [head]
      · have other : ∀ others, value ≠ .object others := fun others same => isObject ⟨others, same⟩
        have head : (stripped answer).head? ≠ some (byte '\x7b') := by
          intro starts
          rcases List.head?_eq_some_iff.mp starts with ⟨tail, opened⟩
          rw [opened] at read
          exact isObject (object_of_brace read)
        rw [parseExtraction, parseExtractionImpl_of_other floats read other]
        simp [head, eq_comm]

/-!
## Fences that do not end
-/

theorem length_owed_le (stepped : step nesting value = some next) :
    next.owed.length ≤ nesting.owed.length + 1 := by
  rcases nesting with ⟨owed, mode⟩
  cases mode with
  | escaped =>
      cases stepped
      exact Nat.le_succ _
  | inside =>
      rcases step_inside stepped with ⟨-, rfl⟩ | ⟨-, rfl⟩ | ⟨-, rfl⟩
      all_goals exact Nat.le_succ _
  | outside comma =>
      rcases step_outside stepped with ⟨-, rfl⟩ | ⟨-, rfl⟩ | ⟨-, rfl⟩ |
        ⟨-, -, later, rfl, rfl⟩ | ⟨-, rfl⟩ | ⟨-, _, rfl⟩
      · exact Nat.le_succ _
      · exact Nat.le_refl _
      · exact Nat.le_refl _
      · exact Nat.le_succ_of_le (Nat.le_succ _)
      · exact Nat.le_succ _
      · exact Nat.le_succ _

theorem fitsDepth_of_length (short : nesting.owed.length + text.length < 2 ^ 31) :
    FitsDepth nesting text := by
  have bounded (nesting : Nesting) (short : nesting.owed.length < 2 ^ 31) :
      depthOf nesting < 2 ^ 31 :=
    Nat.lt_of_le_of_lt List.count_le_length short
  induction text generalizing nesting with
  | nil =>
      rw [fitsDepth_nil]
      exact bounded nesting short
  | cons value rest ih =>
      rw [List.length_cons] at short
      intro start starts reached runs
      cases start with
      | nil =>
          cases runs
          exact bounded _ (by omega)
      | cons head start =>
          rcases List.cons_prefix_cons.mp starts with ⟨rfl, startsRest⟩
          rw [run_cons] at runs
          rcases Option.bind_eq_some_iff.mp runs with ⟨next, stepped, later⟩
          have longer := length_owed_le stepped
          exact ih (by omega) start startsRest reached later

end Number

/-- Floats that are read from integers only. -/
def wholeFloats : Floats ℤ where
  parseFloat := fun _ => none
  floatFromInt := id

def sampleObject : Bytes :=
  ascii "\x7b\"entities\":[\x7b\"name\":\"x\"\x7d]\x7d"

theorem isObjectText_sampleObject : IsObjectText sampleObject := by
  have read : ((Json.parse sampleObject).bind object?).isSome = true := by decide +kernel
  rcases Option.isSome_iff_exists.mp read with ⟨members, found⟩
  rcases Option.bind_eq_some_iff.mp found with ⟨value, parsed, isObject⟩
  cases value with
  | object others => exact ⟨others, parsed⟩
  | _ => cases isObject

theorem parseExtraction_around_sampleObject :
    parseExtraction wholeFloats (ascii "Found: " ++ (sampleObject ++ ascii " Bye!")) =
        parseExtraction wholeFloats sampleObject ↔
      Recoverable wholeFloats (ascii "Found: " ++ (sampleObject ++ ascii " Bye!")) sampleObject :=
  parseExtraction_around_iff wholeFloats (by decide) isObjectText_sampleObject
    (fitsDepth_of_length (by decide)) fun starts => absurd starts (by decide)

/-- An object between brackets is read as an array. -/
theorem not_parseExtraction_around :
    byte '\x7b' ∉ ascii "[" ∧ IsObjectText sampleObject ∧
      parseExtraction wholeFloats (ascii "[" ++ (sampleObject ++ ascii "]")) ≠
        parseExtraction wholeFloats sampleObject :=
  ⟨by decide, isObjectText_sampleObject, by decide +kernel⟩

end Nullalis.Extraction
