import Mathlib.Data.List.Basic
import Mathlib.Tactic.IntervalCases
import Nullalis.Base.Json

/-!
# The structure of a JSON text

A scanner that knows strings, brackets and braces, and nothing else of JSON: it keeps which closing
brackets and braces are owed, and refuses what no JSON text has, such as a comma before a closing
bracket. Whatever the reader takes for a value passes the scanner and owes nothing afterwards.
-/

namespace Json

/-- Where the scanner stands: between tokens, maybe behind a comma, or in a string, maybe behind a
backslash. -/
inductive Mode where
  | outside (comma : Bool)
  | inside
  | escaped
deriving DecidableEq

/-- The closing brackets and braces that are owed, the next one first, and where the scanner
stands. -/
structure Nesting where
  owed : List UInt8 := []
  mode : Mode := .outside false
deriving DecidableEq

namespace Nesting

/-- Scan a byte. -/
def step (nesting : Nesting) (value : UInt8) : Option Nesting :=
  match nesting.mode with
  | .escaped => some { nesting with mode := .inside }
  | .inside =>
      if value = byte '\\' then some { nesting with mode := .escaped }
      else if value = byte '"' then some { nesting with mode := .outside false }
      else if value < 0x20 then none
      else some nesting
  | .outside comma =>
      if value = byte '"' then some { nesting with mode := .inside }
      else if value = byte '[' then some ⟨byte ']' :: nesting.owed, .outside false⟩
      else if value = byte '\x7b' then some ⟨byte '\x7d' :: nesting.owed, .outside false⟩
      else if value = byte ']' ∨ value = byte '\x7d' then
        if comma = false ∧ nesting.owed.head? = some value then
          some ⟨nesting.owed.tail, .outside false⟩
        else none
      else if value = byte ',' then some { nesting with mode := .outside true }
      else if value = byte '\\' then none
      else if isBlank value then some nesting
      else some { nesting with mode := .outside false }

def run (nesting : Nesting) (text : Bytes) : Option Nesting :=
  text.foldlM step nesting

variable {nesting : Nesting} {value : UInt8} {first second text : Bytes} {owed : List UInt8}
  {comma : Bool}

@[simp]
theorem run_cons : run nesting (value :: text) = (step nesting value).bind (run · text) := rfl

theorem run_append : run nesting (first ++ second) = (run nesting first).bind (run · second) :=
  List.foldlM_append

/-- A byte that belongs to no string, opens or closes nothing and is no comma. -/
def Plain (value : UInt8) : Prop :=
  value ≠ byte '"' ∧ value ≠ byte '[' ∧ value ≠ byte '\x7b' ∧ value ≠ byte ']' ∧
    value ≠ byte '\x7d' ∧ value ≠ byte ',' ∧ value ≠ byte '\\' ∧ isBlank value = false

instance : DecidablePred Plain := fun _ => inferInstanceAs (Decidable (_ ∧ _))

/-- A byte inside of a string that neither ends it nor escapes another byte. -/
def Inner (value : UInt8) : Prop :=
  value ≠ byte '"' ∧ value ≠ byte '\\' ∧ ¬value < 0x20

instance : DecidablePred Inner := fun _ => inferInstanceAs (Decidable (_ ∧ _))

theorem step_of_plain (plain : Plain value) :
    step ⟨owed, .outside comma⟩ value = some ⟨owed, .outside false⟩ := by
  rcases plain with ⟨quote, bracket, brace, close, closeBrace, separator, backslash, blank⟩
  simp [step, quote, bracket, brace, close, closeBrace, separator, backslash, blank]

theorem run_of_plain (nonempty : text ≠ []) (plain : ∀ value ∈ text, Plain value) :
    run ⟨owed, .outside comma⟩ text = some ⟨owed, .outside false⟩ := by
  induction text generalizing comma with
  | nil => exact absurd rfl nonempty
  | cons value rest ih =>
      rw [run_cons, step_of_plain (plain value List.mem_cons_self), Option.bind_some]
      cases rest with
      | nil => rfl
      | cons second rest =>
          exact ih (List.cons_ne_nil _ _) fun value mem => plain value (List.mem_cons_of_mem _ mem)

theorem step_of_isBlank (blank : isBlank value = true) :
    step ⟨owed, .outside comma⟩ value = some ⟨owed, .outside comma⟩ := by
  simp only [isBlank, Bool.or_eq_true, beq_iff_eq] at blank
  rcases blank with ((rfl | rfl) | rfl) | rfl <;> rfl

theorem run_of_isBlank (blank : ∀ value ∈ text, isBlank value = true) :
    run ⟨owed, .outside comma⟩ text = some ⟨owed, .outside comma⟩ := by
  induction text with
  | nil => rfl
  | cons value rest ih =>
      rw [run_cons, step_of_isBlank (blank value List.mem_cons_self), Option.bind_some,
        ih fun value mem => blank value (List.mem_cons_of_mem _ mem)]

theorem run_of_inner (inner : ∀ value ∈ text, Inner value) :
    run ⟨owed, .inside⟩ text = some ⟨owed, .inside⟩ := by
  induction text with
  | nil => rfl
  | cons value rest ih =>
      rcases inner value List.mem_cons_self with ⟨quote, backslash, control⟩
      have stays : step ⟨owed, .inside⟩ value = some ⟨owed, .inside⟩ := by
        simp [step, quote, backslash, control]
      rw [run_cons, stays, Option.bind_some,
        ih fun value mem => inner value (List.mem_cons_of_mem _ mem)]

@[simp]
theorem step_comma : step ⟨owed, .outside comma⟩ (byte ',') = some ⟨owed, .outside true⟩ := rfl

theorem step_close {closing : UInt8} (closes : closing = byte ']' ∨ closing = byte '\x7d') :
    step ⟨closing :: owed, .outside false⟩ closing = some ⟨owed, .outside false⟩ := by
  rcases closes with rfl | rfl <;> simp [step, byte]

theorem step_inside {next : Nesting} (stepped : step ⟨owed, .inside⟩ value = some next) :
    (value = byte '\\' ∧ next = ⟨owed, .escaped⟩) ∨
      (value = byte '"' ∧ next = ⟨owed, .outside false⟩) ∨
      (Inner value ∧ next = ⟨owed, .inside⟩) := by
  unfold step at stepped
  dsimp only at stepped
  split at stepped
  case isTrue backslash =>
    cases stepped
    exact .inl ⟨backslash, rfl⟩
  case isFalse backslash =>
    split at stepped
    case isTrue quote =>
      cases stepped
      exact .inr (.inl ⟨quote, rfl⟩)
    case isFalse quote =>
      split at stepped
      case isTrue => cases stepped
      case isFalse control =>
        cases stepped
        exact .inr (.inr ⟨⟨quote, backslash, control⟩, rfl⟩)

/-- A byte that means nothing between tokens to the scanner. -/
def Neutral (value : UInt8) : Prop :=
  value ≠ byte '"' ∧ value ≠ byte '[' ∧ value ≠ byte '\x7b' ∧ value ≠ byte ']' ∧
    value ≠ byte '\x7d' ∧ value ≠ byte ',' ∧ value ≠ byte '\\'

/-- What a byte between tokens does. -/
theorem step_outside {next : Nesting} (stepped : step ⟨owed, .outside comma⟩ value = some next) :
    (value = byte '"' ∧ next = ⟨owed, .inside⟩) ∨
      (value = byte '[' ∧ next = ⟨byte ']' :: owed, .outside false⟩) ∨
      (value = byte '\x7b' ∧ next = ⟨byte '\x7d' :: owed, .outside false⟩) ∨
      ((value = byte ']' ∨ value = byte '\x7d') ∧ comma = false ∧
        ∃ later, owed = value :: later ∧ next = ⟨later, .outside false⟩) ∨
      (value = byte ',' ∧ next = ⟨owed, .outside true⟩) ∨
      (Neutral value ∧ ∃ comma, next = ⟨owed, .outside comma⟩) := by
  unfold step at stepped
  dsimp only at stepped
  split at stepped
  case isTrue quote =>
    cases stepped
    exact .inl ⟨quote, rfl⟩
  case isFalse quote =>
  split at stepped
  case isTrue bracket =>
    cases stepped
    exact .inr (.inl ⟨bracket, rfl⟩)
  case isFalse bracket =>
  split at stepped
  case isTrue brace =>
    cases stepped
    exact .inr (.inr (.inl ⟨brace, rfl⟩))
  case isFalse brace =>
  split at stepped
  case isTrue closes =>
    split at stepped
    case isTrue owes =>
      cases stepped
      rcases List.head?_eq_some_iff.mp owes.2 with ⟨later, rfl⟩
      exact .inr (.inr (.inr (.inl ⟨closes, owes.1, later, rfl, rfl⟩)))
    case isFalse => cases stepped
  case isFalse closes =>
  split at stepped
  case isTrue separator =>
    cases stepped
    exact .inr (.inr (.inr (.inr (.inl ⟨separator, rfl⟩))))
  case isFalse separator =>
  split at stepped
  case isTrue => cases stepped
  case isFalse backslash =>
  have neutral : Neutral value :=
    ⟨quote, bracket, brace, fun same => closes (.inl same), fun same => closes (.inr same),
      separator, backslash⟩
  split at stepped
  case isTrue =>
    cases stepped
    exact .inr (.inr (.inr (.inr (.inr ⟨neutral, comma, rfl⟩))))
  case isFalse =>
    cases stepped
    exact .inr (.inr (.inr (.inr (.inr ⟨neutral, false, rfl⟩))))

theorem step_close_cases {next : Nesting} (closes : value = byte ']' ∨ value = byte '\x7d')
    (stepped : step ⟨owed, .outside comma⟩ value = some next) :
    comma = false ∧ ∃ later, owed = value :: later ∧ next = ⟨later, .outside false⟩ := by
  rcases step_outside stepped with ⟨rfl, -⟩ | ⟨rfl, -⟩ | ⟨rfl, -⟩ | ⟨-, closed⟩ | ⟨rfl, -⟩ |
    ⟨⟨-, -, -, bracket, brace, -⟩, -⟩
  · rcases closes with same | same <;> cases same
  · rcases closes with same | same <;> cases same
  · rcases closes with same | same <;> cases same
  · exact closed
  · rcases closes with same | same <;> cases same
  · exact (closes.elim bracket brace).elim

end Nesting

/-!
## What the readers take
-/

open Nesting

variable {fuel : ℕ} {text rest char literal : Bytes} {value : Json}

theorem skipBlanks_taken (text : Bytes) :
    ∃ used, text = used ++ skipBlanks text ∧ ∀ value ∈ used, isBlank value = true :=
  ⟨text.takeWhile isBlank, List.takeWhile_append_dropWhile.symm,
    fun _ mem => List.mem_takeWhile_imp mem⟩

/-- A byte that may stand in an escape behind its backslash. -/
def isEscapeByte (value : UInt8) : Bool :=
  (hexValue value).isSome || (escapeValue value).isSome || value == byte 'u'

theorem readHex_taken {code : ℕ} (read : readHex text = some (code, rest)) :
    ∃ used, text = used ++ rest ∧ (∀ value ∈ used, Inner value ∧ isEscapeByte value = true) ∧
      ∀ more, readHex (used ++ more) = some (code, more) := by
  have inner : ∀ value, (hexValue value).isSome = true →
      Inner value ∧ isEscapeByte value = true := by
    refine Bytes.forall_byte ?_
    decide
  unfold readHex at read
  split at read
  case h_2 => cases read
  case h_1 first second third fourth rest' =>
    simp only [Option.bind_eq_bind, Option.bind_eq_some_iff, pure, Option.some.injEq,
      Prod.mk.injEq] at read
    rcases read with ⟨_, one, _, two, _, three, _, four, rfl, rfl⟩
    refine ⟨[first, second, third, fourth], rfl, ?_, ?_⟩
    · simp only [List.mem_cons, List.not_mem_nil, or_false]
      rintro value (rfl | rfl | rfl | rfl)
      · exact inner _ (Option.isSome_of_eq_some one)
      · exact inner _ (Option.isSome_of_eq_some two)
      · exact inner _ (Option.isSome_of_eq_some three)
      · exact inner _ (Option.isSome_of_eq_some four)
    · intro more
      simp [readHex, one, two, three, four]

def Stays (used : Bytes) : Prop :=
  ∀ owed, run ⟨owed, .inside⟩ used = some ⟨owed, .inside⟩

theorem readLowSurrogate_taken {high : ℕ} (read : readLowSurrogate high text = some (char, rest)) :
    ∃ used, text = used ++ rest ∧ Stays used ∧ (∀ value ∈ used, isEscapeByte value = true) ∧
      ∀ more, readLowSurrogate high (used ++ more) = some (char, more) := by
  have opened : ascii "\\u" = [byte '\\', byte 'u'] := by decide
  unfold readLowSurrogate at read
  split at read
  case isFalse => cases read
  case isTrue opens =>
    rcases List.isPrefixOf_iff_prefix.mp opens with ⟨tail, rfl⟩
    simp only [Option.bind_eq_bind, Option.bind_eq_some_iff] at read
    rcases read with ⟨⟨low, after⟩, digits, read⟩
    rcases readHex_taken digits with ⟨used, shape, inner, again⟩
    dsimp only at read
    split at read
    case isFalse => cases read
    case isTrue surrogate =>
      simp only [pure, Option.some.injEq, Prod.mk.injEq] at read
      rcases read with ⟨denotes, rfl⟩
      have tailShape : tail = used ++ after := shape
      refine ⟨ascii "\\u" ++ used, ?_, ?_, ?_, ?_⟩
      · rw [tailShape, List.append_assoc]
      · intro owed
        have skips : run ⟨owed, .inside⟩ ([byte '\\', byte 'u'] ++ used) =
            run ⟨owed, .inside⟩ used := rfl
        rw [opened, skips, run_of_inner fun value mem => (inner value mem).1]
      · intro value mem
        rcases List.mem_append.mp mem with front | back
        · have escapes : ∀ value ∈ ascii "\\u", isEscapeByte value = true :=
            List.all_eq_true.mp (by decide)
          exact escapes value front
        · exact (inner value back).2
      · intro more
        have dropped : (ascii "\\u" ++ used ++ more).drop 2 = used ++ more := by
          rw [opened]
          rfl
        have starts : (ascii "\\u").isPrefixOf (ascii "\\u" ++ used ++ more) = true :=
          List.isPrefixOf_iff_prefix.mpr ⟨used ++ more, (List.append_assoc _ _ _).symm⟩
        rw [readLowSurrogate, if_pos starts, dropped, again]
        simp only [Option.bind_eq_bind, Option.bind_some, if_pos surrogate, pure, denotes]

theorem readUnicode_taken (read : readUnicode text = some (char, rest)) :
    ∃ used, text = used ++ rest ∧ Stays used ∧ (∀ value ∈ used, isEscapeByte value = true) ∧
      ∀ more, readUnicode (used ++ more) = some (char, more) := by
  unfold readUnicode at read
  simp only [Option.bind_eq_bind, Option.bind_eq_some_iff] at read
  rcases read with ⟨⟨code, after⟩, digits, read⟩
  rcases readHex_taken digits with ⟨first, rfl, inner, again⟩
  dsimp only at read
  split at read
  case isTrue high =>
    rcases readLowSurrogate_taken read with ⟨second, rfl, stays, escapes, againLow⟩
    refine ⟨first ++ second, (List.append_assoc _ _ _).symm, ?_, ?_, ?_⟩
    · intro owed
      rw [run_append, run_of_inner fun value mem => (inner value mem).1, Option.bind_some, stays]
    · intro value mem
      rcases List.mem_append.mp mem with front | back
      · exact (inner value front).2
      · exact escapes value back
    · intro more
      rw [readUnicode, List.append_assoc, again]
      simp only [Option.bind_eq_bind, Option.bind_some, if_pos high, againLow]
  case isFalse high =>
    split at read
    case isTrue => cases read
    case isFalse low =>
      cases read
      refine ⟨first, rfl, fun owed => run_of_inner fun value mem => (inner value mem).1,
        fun value mem => (inner value mem).2, ?_⟩
      intro more
      rw [readUnicode, again]
      simp only [Option.bind_eq_bind, Option.bind_some, if_neg high, if_neg low, pure]

/-- A byte or an escape of a string stays inside of it. -/
theorem readChar_taken (read : readChar text = some (char, rest)) :
    ∃ value used, text = value :: used ++ rest ∧ (value ≠ byte '"' → Stays (value :: used)) ∧
      (∀ letter ∈ used, isEscapeByte letter = true) ∧
      ∀ more, readChar (value :: used ++ more) = some (char, more) := by
  have escaped (owed : List UInt8) (letter : UInt8) (used : Bytes) :
      run ⟨owed, .inside⟩ (byte '\\' :: letter :: used) = run ⟨owed, .inside⟩ used := rfl
  unfold readChar at read
  split at read
  case h_1 => cases read
  case h_2 value after =>
    split at read
    case isTrue backslash =>
      subst backslash
      split at read
      case h_1 => cases read
      case h_2 letter after =>
        split at read
        case isTrue unicode =>
          rcases readUnicode_taken read with ⟨used, rfl, stays, escapes, again⟩
          refine ⟨byte '\\', letter :: used, rfl, fun _ owed => by rw [escaped, stays], ?_, ?_⟩
          · exact List.forall_mem_cons.mpr ⟨by rw [unicode]; rfl, escapes⟩
          intro more
          simp only [List.cons_append, readChar, if_true, if_pos unicode, again]
        case isFalse plain =>
          rcases Option.map_eq_some_iff.mp read with ⟨value, denotes, same⟩
          cases same
          refine ⟨byte '\\', [letter], rfl, fun _ owed => rfl, ?_, ?_⟩
          · refine List.forall_mem_singleton.mpr ?_
            rw [isEscapeByte, denotes, Option.isSome_some, Bool.or_true, Bool.true_or]
          intro more
          simp only [List.cons_append, List.nil_append, readChar, if_true, if_neg plain, denotes,
            Option.map_some]
    case isFalse backslash =>
      split at read
      case isTrue => cases read
      case isFalse control =>
        cases read
        refine ⟨value, [], rfl, ?_, by simp, ?_⟩
        · intro quote owed
          exact run_of_inner (List.forall_mem_singleton.mpr ⟨quote, backslash, control⟩)
        · intro more
          simp only [List.cons_append, List.nil_append, readChar, if_neg backslash, if_neg control]

/-!
## Lengths
-/

theorem length_of_readHex {code : ℕ} (read : readHex text = some (code, rest)) :
    text.length = rest.length + 4 := by
  unfold readHex at read
  split at read
  case h_2 => cases read
  case h_1 first second third fourth after =>
    simp only [Option.bind_eq_bind, Option.bind_eq_some_iff, pure, Option.some.injEq,
      Prod.mk.injEq] at read
    rcases read with ⟨_, -, _, -, _, -, _, -, -, rfl⟩
    rfl

theorem length_encode_le (code : ℕ) : (encode code).length ≤ 4 := by
  unfold encode
  split_ifs <;> simp

theorem length_of_readUnicode (read : readUnicode text = some (char, rest)) :
    char.length + rest.length ≤ text.length := by
  unfold readUnicode at read
  simp only [Option.bind_eq_bind, Option.bind_eq_some_iff] at read
  rcases read with ⟨⟨code, after⟩, digits, read⟩
  have high := length_of_readHex digits
  dsimp only at read
  split at read
  case isTrue =>
    unfold readLowSurrogate at read
    split at read
    case isFalse => cases read
    case isTrue =>
      simp only [Option.bind_eq_bind, Option.bind_eq_some_iff] at read
      rcases read with ⟨⟨low, last⟩, digits, read⟩
      have lower := length_of_readHex digits
      rw [List.length_drop] at lower
      dsimp only at read
      split at read
      case isFalse => cases read
      case isTrue =>
        simp only [pure, Option.some.injEq, Prod.mk.injEq] at read
        rcases read with ⟨rfl, rfl⟩
        have short := length_encode_le (0x10000 + (code - 0xD800) * 0x400 + (low - 0xDC00))
        omega
  case isFalse =>
    split at read
    case isTrue => cases read
    case isFalse =>
      simp only [pure, Option.some.injEq, Prod.mk.injEq] at read
      rcases read with ⟨rfl, rfl⟩
      have short := length_encode_le code
      omega

theorem length_of_readChar (read : readChar text = some (char, rest)) :
    char.length + rest.length ≤ text.length ∧
      (text.head? ≠ some (byte '"') → char.head? = some (byte '"') →
        char.length + rest.length < text.length) := by
  unfold readChar at read
  split at read
  case h_1 => cases read
  case h_2 value after =>
    split at read
    case isTrue =>
      split at read
      case h_1 => cases read
      case h_2 letter after =>
        split at read
        case isTrue =>
          have short := length_of_readUnicode read
          simp only [List.length_cons]
          exact ⟨by omega, fun _ _ => by omega⟩
        case isFalse =>
          rcases Option.map_eq_some_iff.mp read with ⟨value, -, same⟩
          cases same
          simp only [List.length_cons, List.length_nil]
          exact ⟨by omega, fun _ _ => by omega⟩
    case isFalse =>
      split at read
      case isTrue => cases read
      case isFalse =>
        cases read
        refine ⟨?_, fun other head => absurd head other⟩
        simp only [List.length_cons, List.length_nil]
        omega

theorem readChars_taken (read : readChars fuel text = some (char, rest)) :
    ∃ body, text = body ++ byte '"' :: rest ∧ Stays body ∧ ReadsText body char := by
  induction fuel generalizing text char with
  | zero => cases read
  | succ fuel ih =>
      rw [readChars] at read
      split at read
      case isTrue closes =>
        rcases List.head?_eq_some_iff.mp closes with ⟨after, rfl⟩
        cases read
        exact ⟨[], rfl, fun owed => rfl, .nil⟩
      case isFalse other =>
        simp only [Option.bind_eq_bind, Option.bind_eq_some_iff] at read
        rcases read with ⟨⟨first, middle⟩, readFirst, ⟨later, last⟩, readLater, same⟩
        cases same
        rcases readChar_taken readFirst with ⟨value, used, rfl, stays, -, again⟩
        have notQuote : value ≠ byte '"' := fun same => other (by rw [same]; rfl)
        rcases ih readLater with ⟨body, rfl, staysBody, reads⟩
        refine ⟨value :: used ++ body, (List.append_assoc _ _ _).symm, ?_, ?_⟩
        · intro owed
          rw [run_append, stays notQuote, Option.bind_some, staysBody]
        · exact reads.cons ⟨value, used, rfl, notQuote⟩ again

theorem readDigits_taken (read : readDigits text = some (literal, rest)) :
    text = literal ++ rest ∧ literal ≠ [] ∧ ∀ value ∈ literal, Plain value := by
  have plain : ∀ value, Bytes.isDigit value = true → Plain value := by
    refine Bytes.forall_byte ?_
    decide
  unfold readDigits at read
  split at read
  case isTrue => cases read
  case isFalse nonempty =>
    cases read
    refine ⟨List.takeWhile_append_dropWhile.symm, by simpa using nonempty, ?_⟩
    intro value mem
    exact plain value (List.mem_takeWhile_imp mem)

theorem readWhole_taken (read : readWhole text = some (literal, rest)) :
    text = literal ++ rest ∧ literal ≠ [] ∧ ∀ value ∈ literal, Plain value := by
  simp only [readWhole, Option.bind_eq_bind, Option.bind_eq_some_iff] at read
  rcases read with ⟨⟨digits, after⟩, readDigits, read⟩
  dsimp only at read
  split at read
  case isTrue => cases read
  case isFalse =>
    cases read
    exact readDigits_taken readDigits

theorem readFraction_taken (read : readFraction text = some (literal, rest)) :
    text = literal ++ rest ∧ ∀ value ∈ literal, Plain value := by
  unfold readFraction at read
  split at read
  case isTrue point =>
    rcases List.head?_eq_some_iff.mp point with ⟨after, rfl⟩
    simp only [Option.bind_eq_bind, Option.bind_eq_some_iff, List.tail_cons] at read
    rcases read with ⟨⟨digits, after⟩, readDigits, read⟩
    cases read
    rcases readDigits_taken readDigits with ⟨rfl, -, plain⟩
    exact ⟨rfl, List.forall_mem_cons.mpr ⟨by decide, plain⟩⟩
  case isFalse =>
    cases read
    exact ⟨rfl, by simp⟩

theorem sign_taken (text : Bytes) :
    ∃ sign, sign = (if startsWithSign text then text.take 1 else []) ∧
      text = sign ++ text.drop sign.length ∧ ∀ value ∈ sign, Plain value := by
  refine ⟨_, rfl, ?_⟩
  split
  case isTrue signed =>
    simp only [startsWithSign, Bool.or_eq_true, beq_iff_eq] at signed
    rcases signed with plus | minus
    · rcases List.head?_eq_some_iff.mp plus with ⟨tail, rfl⟩
      exact ⟨rfl, List.forall_mem_singleton.mpr (by decide)⟩
    · rcases List.head?_eq_some_iff.mp minus with ⟨tail, rfl⟩
      exact ⟨rfl, List.forall_mem_singleton.mpr (by decide)⟩
  case isFalse => exact ⟨rfl, by simp⟩

theorem exponentLetter_taken (letter : text.head? = some (byte 'e') ∨ text.head? = some (byte 'E')) :
    text = text.take 1 ++ text.tail ∧ ∀ value ∈ text.take 1, Plain value := by
  rcases letter with lower | upper
  · rcases List.head?_eq_some_iff.mp lower with ⟨tail, rfl⟩
    exact ⟨rfl, List.forall_mem_singleton.mpr (by decide)⟩
  · rcases List.head?_eq_some_iff.mp upper with ⟨tail, rfl⟩
    exact ⟨rfl, List.forall_mem_singleton.mpr (by decide)⟩

theorem readExponent_taken (read : readExponent text = some (literal, rest)) :
    text = literal ++ rest ∧ ∀ value ∈ literal, Plain value := by
  rcases sign_taken text.tail with ⟨sign, signed, signShape, plainSign⟩
  unfold readExponent at read
  split at read
  case isTrue letter =>
    rcases exponentLetter_taken letter with ⟨letterShape, plainLetter⟩
    simp only [Option.bind_eq_bind, Option.bind_eq_some_iff, ← signed] at read
    rcases read with ⟨⟨digits, after⟩, readDigits, read⟩
    cases read
    rcases readDigits_taken readDigits with ⟨shape, -, plain⟩
    refine ⟨?_, ?_⟩
    · rw [List.append_assoc, List.append_assoc, ← shape, ← signShape, ← letterShape]
    · intro value mem
      rw [List.mem_append, List.mem_append] at mem
      rcases mem with (mem | mem) | mem
      · exact plainLetter value mem
      · exact plainSign value mem
      · exact plain value mem
  case isFalse =>
    cases read
    exact ⟨rfl, by simp⟩

theorem readNumber_taken (read : readNumber text = some (literal, rest)) :
    text = literal ++ rest ∧ literal ≠ [] ∧ ∀ value ∈ literal, Plain value := by
  obtain ⟨sign, signed, signShape, plainSign⟩ :
      ∃ sign, sign = (if text.head? = some (byte '-') then [byte '-'] else []) ∧
        text = sign ++ text.drop sign.length ∧ ∀ value ∈ sign, Plain value := by
    refine ⟨_, rfl, ?_⟩
    split
    case isTrue minus =>
      rcases List.head?_eq_some_iff.mp minus with ⟨tail, rfl⟩
      exact ⟨rfl, List.forall_mem_singleton.mpr (by decide)⟩
    case isFalse => exact ⟨rfl, by simp⟩
  simp only [readNumber, Option.bind_eq_bind, Option.bind_eq_some_iff, ← signed] at read
  rcases read with ⟨⟨whole, afterWhole⟩, readWhole, ⟨fraction, afterFraction⟩, readFraction,
    ⟨exponent, last⟩, readExponent, read⟩
  cases read
  rcases readWhole_taken readWhole with ⟨wholeShape, nonempty, plainWhole⟩
  rcases readFraction_taken readFraction with ⟨rfl, plainFraction⟩
  rcases readExponent_taken readExponent with ⟨rfl, plainExponent⟩
  refine ⟨?_, by simp [nonempty], ?_⟩
  · simp only [List.append_assoc]
    rw [← wholeShape, ← signShape]
  · intro value mem
    simp only [List.mem_append] at mem
    rcases mem with ((mem | mem) | mem) | mem
    · exact plainSign value mem
    · exact plainWhole value mem
    · exact plainFraction value mem
    · exact plainExponent value mem

/-!
## Numbers in front of another text
-/

def NoDigit (more : Bytes) : Prop :=
  ∀ value, more.head? = some value → Bytes.isDigit value = false

variable {more : Bytes}

theorem readDigits_again (read : readDigits text = some (literal, rest)) (stops : NoDigit more) :
    readDigits (literal ++ more) = some (literal, more) := by
  unfold readDigits at read
  split at read
  case isTrue => cases read
  case isFalse nonempty =>
    cases read
    have taken : more.takeWhile Bytes.isDigit = [] ∧ more.dropWhile Bytes.isDigit = more := by
      cases more with
      | nil => exact ⟨rfl, rfl⟩
      | cons first more =>
          have stop := stops first rfl
          rw [List.takeWhile_cons, List.dropWhile_cons, stop]
          exact ⟨rfl, rfl⟩
    have digits : ∀ value ∈ text.takeWhile Bytes.isDigit, Bytes.isDigit value = true :=
      fun _ mem => List.mem_takeWhile_imp mem
    rw [readDigits, List.takeWhile_append_of_pos digits, List.dropWhile_append_of_pos digits,
      taken.1, taken.2, List.append_nil, if_neg nonempty]

theorem readWhole_again (read : readWhole text = some (literal, rest)) (stops : NoDigit more) :
    readWhole (literal ++ more) = some (literal, more) := by
  simp only [readWhole, Option.bind_eq_bind, Option.bind_eq_some_iff] at read
  rcases read with ⟨⟨digits, after⟩, digitsRead, read⟩
  dsimp only at read
  split at read
  case isTrue => cases read
  case isFalse zero =>
    cases read
    simp only [readWhole, readDigits_again digitsRead stops, Option.bind_eq_bind,
      Option.bind_some, if_neg zero, pure]

theorem readFraction_again (read : readFraction text = some (literal, rest)) :
    (NoDigit more → NoDigit (literal ++ more)) ∧
      (NoDigit more → more.head? ≠ some (byte '.') →
        readFraction (literal ++ more) = some (literal, more)) := by
  unfold readFraction at read
  split at read
  case isTrue point =>
    simp only [Option.bind_eq_bind, Option.bind_eq_some_iff] at read
    rcases read with ⟨⟨digits, after⟩, digitsRead, read⟩
    cases read
    refine ⟨?_, ?_⟩
    · intro _ value head
      cases head
      rfl
    · intro stops _
      simp only [readFraction, List.cons_append, List.head?_cons, if_true, List.tail_cons,
        readDigits_again digitsRead stops, Option.bind_eq_bind, Option.bind_some, pure]
  case isFalse =>
    cases read
    exact ⟨fun stops => stops, fun _ noPoint => if_neg noPoint⟩

theorem exists_exponentLetter
    (starts : text.head? = some (byte 'e') ∨ text.head? = some (byte 'E')) :
    ∃ letter, text.take 1 = [letter] ∧ (letter = byte 'e' ∨ letter = byte 'E') := by
  rcases starts with lower | upper
  · rcases List.head?_eq_some_iff.mp lower with ⟨tail, rfl⟩
    exact ⟨_, rfl, .inl rfl⟩
  · rcases List.head?_eq_some_iff.mp upper with ⟨tail, rfl⟩
    exact ⟨_, rfl, .inr rfl⟩

theorem sign_again {sign digits : Bytes}
    (signed : sign = if startsWithSign text then text.take 1 else [])
    (isDigits : ∀ value ∈ digits, Bytes.isDigit value = true) (nonempty : digits ≠ []) :
    (if startsWithSign (sign ++ digits ++ more) then (sign ++ digits ++ more).take 1 else []) =
      sign := by
  split at signed
  case isTrue starts =>
    simp only [startsWithSign, Bool.or_eq_true, beq_iff_eq] at starts
    rcases starts with plus | minus
    · rcases List.head?_eq_some_iff.mp plus with ⟨tail, rfl⟩
      subst signed
      rfl
    · rcases List.head?_eq_some_iff.mp minus with ⟨tail, rfl⟩
      subst signed
      rfl
  case isFalse =>
    subst signed
    rcases List.exists_cons_of_ne_nil nonempty with ⟨first, others, rfl⟩
    have digit := isDigits first List.mem_cons_self
    have noSign : startsWithSign ([] ++ first :: others ++ more) = false := by
      simp only [startsWithSign, List.nil_append, List.cons_append, List.head?_cons,
        Bool.or_eq_false_iff, beq_eq_false_iff_ne, ne_eq, Option.some.injEq]
      refine ⟨?_, ?_⟩
      all_goals
        rintro rfl
        cases digit
    rw [noSign]
    rfl

theorem isDigit_of_readDigits (read : readDigits text = some (literal, rest)) :
    ∀ value ∈ literal, Bytes.isDigit value = true := by
  unfold readDigits at read
  split at read
  case isTrue => cases read
  case isFalse =>
    cases read
    exact fun _ mem => List.mem_takeWhile_imp mem

theorem isDigit_of_readWhole (read : readWhole text = some (literal, rest)) :
    ∀ value ∈ literal, Bytes.isDigit value = true := by
  simp only [readWhole, Option.bind_eq_bind, Option.bind_eq_some_iff] at read
  rcases read with ⟨⟨digits, after⟩, digitsRead, read⟩
  dsimp only at read
  split at read
  case isTrue => cases read
  case isFalse =>
    cases read
    exact isDigit_of_readDigits digitsRead

/-- An exponent in front of another text, and how it starts. -/
theorem readExponent_again (read : readExponent text = some (literal, rest)) (ends : Ends more) :
    (NoDigit (literal ++ more) ∧ (literal ++ more).head? ≠ some (byte '.')) ∧
      readExponent (literal ++ more) = some (literal, more) := by
  have stops : NoDigit more := fun value head => (ends value head).1
  unfold readExponent at read
  split at read
  case isTrue letter =>
    simp only [Option.bind_eq_bind, Option.bind_eq_some_iff] at read
    rcases read with ⟨⟨digits, after⟩, digitsRead, read⟩
    cases read
    have nonempty := (readDigits_taken digitsRead).2.1
    have again := readDigits_again digitsRead stops
    have sign : (if startsWithSign ((if startsWithSign text.tail then text.tail.take 1 else []) ++
        digits ++ more) then ((if startsWithSign text.tail then text.tail.take 1 else []) ++
        digits ++ more).take 1 else []) =
          if startsWithSign text.tail then text.tail.take 1 else [] :=
      sign_again rfl (isDigit_of_readDigits digitsRead) nonempty
    generalize (if startsWithSign text.tail then text.tail.take 1 else []) = signed at sign ⊢
    have dropped : (signed ++ digits ++ more).drop signed.length = digits ++ more := by
      rw [List.append_assoc, List.drop_left]
    rcases exists_exponentLetter letter with ⟨first, front, isLetter⟩
    rw [front]
    refine ⟨⟨?_, ?_⟩, ?_⟩
    · intro value head
      cases head
      rcases isLetter with rfl | rfl <;> rfl
    · intro head
      cases head
      rcases isLetter with same | same <;> cases same
    · have starts : ([first] ++ signed ++ digits ++ more).head? = some (byte 'e') ∨
          ([first] ++ signed ++ digits ++ more).head? = some (byte 'E') :=
        isLetter.imp (congrArg some) (congrArg some)
      have tail : ([first] ++ signed ++ digits ++ more).tail = signed ++ digits ++ more := rfl
      have take : ([first] ++ signed ++ digits ++ more).take 1 = [first] := rfl
      rw [readExponent, if_pos starts, tail, take, sign]
      dsimp only
      rw [dropped, again]
      rfl
  case isFalse =>
    cases read
    refine ⟨⟨stops, fun head => (ends _ head).2.1 rfl⟩, ?_⟩
    exact if_neg fun head => head.elim (fun lower => (ends _ lower).2.2.1 rfl)
      fun upper => (ends _ upper).2.2.2 rfl

theorem readNumber_again (read : readNumber text = some (literal, rest)) (ends : Ends more) :
    readNumber (literal ++ more) = some (literal, more) := by
  generalize shape : (if text.head? = some (byte '-') then [byte '-'] else []) = sign at read
  simp only [readNumber, Option.bind_eq_bind, Option.bind_eq_some_iff, shape] at read
  rcases read with ⟨⟨whole, afterWhole⟩, wholeRead, ⟨fraction, afterFraction⟩, fractionRead,
    ⟨exponent, last⟩, exponentRead, read⟩
  cases read
  rcases readExponent_again exponentRead ends with ⟨⟨stops, noPoint⟩, exponentAgain⟩
  rcases readFraction_again fractionRead with ⟨stopsFraction, fractionAgain⟩
  have wholeAgain := readWhole_again wholeRead (stopsFraction stops)
  have signAgain : (if (sign ++ whole ++ fraction ++ exponent ++ more).head? = some (byte '-') then
      [byte '-'] else []) = sign := by
    split at shape
    case isTrue =>
      subst shape
      rfl
    case isFalse =>
      subst shape
      rcases readWhole_taken wholeRead with ⟨-, nonempty, -⟩
      rcases List.exists_cons_of_ne_nil nonempty with ⟨first, others, rfl⟩
      have digit := isDigit_of_readWhole wholeRead first List.mem_cons_self
      refine if_neg ?_
      intro head
      cases head
      cases digit
  have dropped : (sign ++ whole ++ fraction ++ exponent ++ more).drop sign.length =
      whole ++ (fraction ++ (exponent ++ more)) := by
    simp only [List.append_assoc, List.drop_left]
  rw [readNumber, signAgain]
  dsimp only
  rw [dropped, wholeAgain]
  simp only [Option.bind_eq_bind, Option.bind_some, fractionAgain stops noPoint, exponentAgain, pure]

theorem readName_taken (read : readName text = some (value, rest)) :
    ∃ used, text = used ++ rest ∧ used ≠ [] ∧ (∀ value ∈ used, Plain value) ∧
      Reads used value := by
  unfold readName at read
  split at read
  case isTrue opens =>
    rcases List.isPrefixOf_iff_prefix.mp opens with ⟨tail, rfl⟩
    cases read
    exact ⟨ascii "null", rfl, by decide, List.forall_iff_forall_mem.mp (by decide), .null⟩
  case isFalse =>
    split at read
    case isTrue opens =>
      rcases List.isPrefixOf_iff_prefix.mp opens with ⟨tail, rfl⟩
      cases read
      exact ⟨ascii "true", rfl, by decide, List.forall_iff_forall_mem.mp (by decide), .bool true⟩
    case isFalse =>
      split at read
      case isTrue opens =>
        rcases List.isPrefixOf_iff_prefix.mp opens with ⟨tail, rfl⟩
        cases read
        exact ⟨ascii "false", rfl, by decide, List.forall_iff_forall_mem.mp (by decide), .bool false⟩
      case isFalse => cases read

/-!
## Values
-/

/-- The scanner passes `used` between tokens and owes what it owed before. -/
def Balanced (used : Bytes) : Prop :=
  ∀ owed comma, run ⟨owed, .outside comma⟩ used = some ⟨owed, .outside false⟩

/-- The scanner passes `used`, which closes what is owed next. -/
def Closes (closing : UInt8) (used : Bytes) : Prop :=
  ∀ owed comma, run ⟨closing :: owed, .outside comma⟩ used = some ⟨owed, .outside false⟩

def EndsSolid (used : Bytes) : Prop :=
  ∃ front last, used = front ++ [last] ∧ isBlank last = false

/-- The reader takes `used` for the value, whatever follows, and the scanner passes it. -/
structure TakesValue (used : Bytes) (value : Json) : Prop where
  balanced : Balanced used
  reads : Reads used value
  solid : EndsSolid used

/-- The reader takes `used`, with its closing bracket, for the items. -/
structure TakesItems (used : Bytes) (items : List Json) : Prop where
  closes : Closes (byte ']') used
  reads : ReadsItems used items
  solid : EndsSolid used

/-- The reader takes `used`, with its closing brace, for the members. -/
structure TakesMembers (used : Bytes) (members : List (Bytes × Json)) : Prop where
  closes : Closes (byte '\x7d') used
  reads : ReadsMembers used members
  solid : EndsSolid used

/-- The reader takes `used` for a name with its colon. -/
structure TakesKey (used key : Bytes) : Prop where
  balanced : Balanced used
  reads : ∀ more, readKey (used ++ more) = some (key, more)

variable {used later blank key : Bytes} {closing : UInt8} {items : List Json}
  {members : List (Bytes × Json)}

theorem EndsSolid.append (solid : EndsSolid used) (front : Bytes) : EndsSolid (front ++ used) := by
  rcases solid with ⟨first, last, rfl, notBlank⟩
  exact ⟨front ++ first, last, by rw [List.append_assoc], notBlank⟩

theorem endsSolid_of_plain (nonempty : used ≠ []) (plain : ∀ value ∈ used, Plain value) :
    EndsSolid used := by
  refine ⟨used.dropLast, used.getLast nonempty, (List.dropLast_concat_getLast nonempty).symm, ?_⟩
  exact (plain _ (List.getLast_mem nonempty)).2.2.2.2.2.2.2

theorem Balanced.blank_append (balanced : Balanced used) (isBlanks : blank.all isBlank = true) :
    Balanced (blank ++ used) := by
  intro owed comma
  rw [run_append, run_of_isBlank (List.all_eq_true.mp isBlanks), Option.bind_some, balanced]

theorem Balanced.append (balanced : Balanced used) (other : Balanced later) :
    Balanced (used ++ later) := by
  intro owed comma
  rw [run_append, balanced, Option.bind_some, other]

theorem Closes.last (balanced : Balanced used) (isBlanks : blank.all isBlank = true)
    (closes : closing = byte ']' ∨ closing = byte '\x7d') :
    Closes closing (used ++ (blank ++ [closing])) := by
  intro owed comma
  rw [run_append, balanced, Option.bind_some, run_append,
    run_of_isBlank (List.all_eq_true.mp isBlanks), Option.bind_some, run_cons, step_close closes]
  rfl

theorem Closes.comma (balanced : Balanced used) (isBlanks : blank.all isBlank = true)
    (closes : Closes closing later) :
    Closes closing (used ++ (blank ++ byte ',' :: later)) := by
  intro owed comma
  rw [run_append, balanced, Option.bind_some, run_append,
    run_of_isBlank (List.all_eq_true.mp isBlanks), Option.bind_some, run_cons, step_comma,
    Option.bind_some, closes]

theorem Closes.balanced {opening : UInt8} (closes : Closes closing used)
    (opens : ∀ owed comma, step ⟨owed, .outside comma⟩ opening =
      some ⟨closing :: owed, .outside false⟩) : Balanced (opening :: used) := by
  intro owed comma
  rw [run_cons, opens, Option.bind_some, closes]

theorem step_bracket (owed : List UInt8) (comma : Bool) :
    step ⟨owed, .outside comma⟩ (byte '[') = some ⟨byte ']' :: owed, .outside false⟩ := rfl

theorem step_brace (owed : List UInt8) (comma : Bool) :
    step ⟨owed, .outside comma⟩ (byte '\x7b') = some ⟨byte '\x7d' :: owed, .outside false⟩ := rfl

theorem Closes.blanks (isBlanks : blank.all isBlank = true)
    (closes : closing = byte ']' ∨ closing = byte '\x7d') (owed : List UInt8) :
    run ⟨closing :: owed, .outside false⟩ (blank ++ [closing]) = some ⟨owed, .outside false⟩ := by
  rw [run_append, run_of_isBlank (List.all_eq_true.mp isBlanks), Option.bind_some, run_cons,
    step_close closes]
  rfl

/-!
### Rules
-/

theorem TakesValue.blank_append (takes : TakesValue used value)
    (isBlanks : blank.all isBlank = true) : TakesValue (blank ++ used) value :=
  ⟨takes.balanced.blank_append isBlanks, takes.reads.blanks isBlanks, takes.solid.append blank⟩

theorem TakesValue.string {body : Bytes} (stays : Stays body) (reads : ReadsText body text) :
    TakesValue (byte '"' :: (body ++ [byte '"'])) (.string text) := by
  refine ⟨?_, .string reads, ⟨byte '"' :: body, byte '"', rfl, rfl⟩⟩
  intro owed comma
  have opens : step ⟨owed, .outside comma⟩ (byte '"') = some ⟨owed, .inside⟩ := rfl
  rw [run_cons, opens, Option.bind_some, run_append, stays]
  rfl

theorem TakesValue.number {first : UInt8} (starts : first = byte '-' ∨ Bytes.isDigit first = true)
    (plain : ∀ value ∈ first :: literal, Plain value)
    (again : ∀ more, Ends more → readNumber (first :: literal ++ more) =
      some (first :: literal, more)) : TakesValue (first :: literal) (.number (first :: literal)) := by
  have nonempty : first :: literal ≠ [] := List.cons_ne_nil _ _
  refine ⟨fun _ _ => run_of_plain nonempty plain, ?_, endsSolid_of_plain nonempty plain⟩
  intro fuel rest enough ends
  rcases not_special starts with ⟨blank, quote, bracket, brace⟩
  cases fuel with
  | zero => exact absurd enough (Nat.not_lt_zero _)
  | succ fuel =>
      rw [List.cons_append, readValue, skipBlanks_cons blank]
      dsimp only
      rw [if_neg quote, if_neg bracket, if_neg brace, if_pos starts, ← List.cons_append,
        again rest ends]
      rfl

theorem TakesValue.name (nonempty : used ≠ []) (plain : ∀ value ∈ used, Plain value)
    (reads : Reads used value) : TakesValue used value :=
  ⟨fun _ _ => run_of_plain nonempty plain, reads, endsSolid_of_plain nonempty plain⟩

theorem TakesValue.emptyArray (isBlanks : blank.all isBlank = true) :
    TakesValue (byte '[' :: (blank ++ [byte ']'])) (.array []) := by
  refine ⟨?_, .emptyArray isBlanks, ⟨byte '[' :: blank, byte ']', rfl, rfl⟩⟩
  intro owed comma
  rw [run_cons, step_bracket, Option.bind_some, Closes.blanks isBlanks (.inl rfl)]

theorem TakesValue.emptyObject (isBlanks : blank.all isBlank = true) :
    TakesValue (byte '\x7b' :: (blank ++ [byte '\x7d'])) (.object []) := by
  refine ⟨?_, ?_, ⟨byte '\x7b' :: blank, byte '\x7d', rfl, rfl⟩⟩
  · intro owed comma
    rw [run_cons, step_brace, Option.bind_some, Closes.blanks isBlanks (.inr rfl)]
  · intro fuel rest enough _
    cases fuel with
    | zero => exact absurd enough (Nat.not_lt_zero _)
    | succ fuel =>
        have solid : isBlank (byte '\x7b') = false ∧ isBlank (byte '\x7d') = false := ⟨rfl, rfl⟩
        have other : byte '\x7b' ≠ byte '"' ∧ byte '\x7b' ≠ byte '[' := by decide
        simp only [List.cons_append, List.append_assoc, List.nil_append, readValue,
          skipBlanks_cons solid.1, if_neg other.1, if_neg other.2, if_true,
          skipBlanks_append isBlanks, skipBlanks_cons solid.2, List.head?_cons, List.tail_cons]

theorem TakesItems.array (takes : TakesItems used items) :
    TakesValue (byte '[' :: used) (.array items) :=
  ⟨takes.closes.balanced step_bracket, .array takes.reads, takes.solid.append [byte '[']⟩

theorem TakesMembers.object (takes : TakesMembers used members)
    (distinct : (members.map Prod.fst).Nodup) :
    TakesValue (byte '\x7b' :: used) (.object members) :=
  ⟨takes.closes.balanced step_brace, .object takes.reads distinct,
    takes.solid.append [byte '\x7b']⟩

theorem TakesItems.last (takes : TakesValue used value) (isBlanks : blank.all isBlank = true) :
    TakesItems (used ++ (blank ++ [byte ']'])) [value] :=
  ⟨.last takes.balanced isBlanks (.inl rfl), .last takes.reads isBlanks,
    ⟨used ++ blank, byte ']', (List.append_assoc _ _ _).symm, rfl⟩⟩

theorem reads_punctuation {first : UInt8} (reads : Reads used value)
    (isBlanks : blank.all isBlank = true)
    (closes : first = byte ',' ∨ first = byte ']' ∨ first = byte '\x7d') {fuel : ℕ}
    (enough : used.length < fuel) (rest : Bytes) :
    readValue fuel (used ++ (blank ++ first :: rest)) = some (value, blank ++ first :: rest) :=
  reads fuel _ enough (ends_append isBlanks (ends_of_punctuation closes))

theorem TakesItems.cons (takes : TakesValue used value) (isBlanks : blank.all isBlank = true)
    (others : TakesItems later items) :
    TakesItems (used ++ (blank ++ byte ',' :: later)) (value :: items) := by
  refine ⟨.comma takes.balanced isBlanks others.closes, ?_, ?_⟩
  · intro fuel rest enough
    cases fuel with
    | zero => exact absurd enough (Nat.not_lt_zero _)
    | succ fuel =>
        have shorter : used.length < fuel ∧ later.length < fuel := by
          simp only [List.length_append, List.length_cons] at enough
          omega
        have solid : isBlank (byte ',') = false := rfl
        have readsValue := reads_punctuation takes.reads isBlanks (.inl rfl) shorter.1
          (later ++ rest)
        simp only [List.append_assoc, List.cons_append, readItems, readsValue,
          Option.bind_eq_bind, Option.bind_some, skipBlanks_append isBlanks, skipBlanks_cons solid,
          if_true, others.reads fuel rest shorter.2]
        rfl
  · have solid := others.solid.append (used ++ (blank ++ [byte ',']))
    simpa using solid

theorem TakesMembers.last (named : TakesKey later key) (takes : TakesValue used value)
    (isBlanks : blank.all isBlank = true) :
    TakesMembers (later ++ used ++ (blank ++ [byte '\x7d'])) [(key, value)] := by
  refine ⟨.last (named.balanced.append takes.balanced) isBlanks (.inr rfl), ?_,
    ⟨later ++ used ++ blank, byte '\x7d', (List.append_assoc _ _ _).symm, rfl⟩⟩
  intro fuel rest enough
  cases fuel with
  | zero => exact absurd enough (Nat.not_lt_zero _)
  | succ fuel =>
      have shorter : used.length < fuel := by
        simp only [List.length_append, List.length_cons] at enough
        omega
      have solid : isBlank (byte '\x7d') = false := rfl
      have other : byte '\x7d' ≠ byte ',' := by decide
      have readsValue := reads_punctuation takes.reads isBlanks (.inr (.inr rfl)) shorter rest
      simp only [List.append_assoc, List.singleton_append, readMembers_succ, named.reads,
        readsValue, Option.bind_eq_bind, Option.bind_some, skipBlanks_append isBlanks,
        skipBlanks_cons solid, if_neg other, if_true]
      rfl

theorem TakesMembers.cons {front : Bytes} (named : TakesKey front key)
    (takes : TakesValue used value) (isBlanks : blank.all isBlank = true)
    (others : TakesMembers later members) :
    TakesMembers (front ++ used ++ (blank ++ byte ',' :: later)) ((key, value) :: members) := by
  refine ⟨.comma (named.balanced.append takes.balanced) isBlanks others.closes, ?_, ?_⟩
  · intro fuel rest enough
    cases fuel with
    | zero => exact absurd enough (Nat.not_lt_zero _)
    | succ fuel =>
        have shorter : used.length < fuel ∧ later.length < fuel := by
          simp only [List.length_append, List.length_cons] at enough
          omega
        have solid : isBlank (byte ',') = false := rfl
        have readsValue := reads_punctuation takes.reads isBlanks (.inl rfl) shorter.1
          (later ++ rest)
        simp only [List.append_assoc, List.cons_append, readMembers_succ, named.reads, readsValue,
          Option.bind_eq_bind, Option.bind_some, skipBlanks_append isBlanks, skipBlanks_cons solid,
          if_true, others.reads fuel rest shorter.2]
        rfl
  · have solid := others.solid.append (front ++ used ++ (blank ++ [byte ',']))
    simpa using solid

/-!
### The readers
-/

theorem skipBlanks_cons_taken {first : UInt8} (shape : skipBlanks text = first :: rest) :
    ∃ blank, text = blank ++ first :: rest ∧ blank.all isBlank = true := by
  rcases skipBlanks_taken text with ⟨blank, split, isBlanks⟩
  exact ⟨blank, by rw [← shape, ← split], List.all_eq_true.mpr isBlanks⟩

theorem readKey_taken (read : readKey text = some (key, rest)) :
    ∃ used, text = used ++ rest ∧ TakesKey used key := by
  have plainColon : ∀ value ∈ [byte ':'], Plain value := List.forall_mem_singleton.mpr (by decide)
  have colonBalanced : Balanced [byte ':'] := fun _ _ => run_of_plain (by simp) plainColon
  unfold readKey at read
  split at read
  case h_1 => cases read
  case h_2 quote tail shape =>
    rcases skipBlanks_cons_taken shape with ⟨blank, rfl, isBlanks⟩
    split at read
    case isFalse => cases read
    case isTrue isQuote =>
      subst isQuote
      simp only [Option.bind_eq_bind, Option.bind_eq_some_iff] at read
      rcases read with ⟨⟨name, after⟩, nameRead, read⟩
      rcases readChars_taken nameRead with ⟨body, rfl, stays, reads⟩
      dsimp only at read
      split at read
      case h_1 => cases read
      case h_2 colon last shape =>
        rcases skipBlanks_cons_taken shape with ⟨gap, rfl, isGap⟩
        split at read
        case isFalse => cases read
        case isTrue isColon =>
          cases read
          subst isColon
          refine ⟨blank ++ (byte '"' :: (body ++ [byte '"']) ++ (gap ++ [byte ':'])), by simp, ?_, ?_⟩
          · have string : TakesValue (byte '"' :: (body ++ [byte '"'])) (.string key) :=
              .string stays reads
            exact (string.balanced.append (colonBalanced.blank_append isGap)).blank_append isBlanks
          · intro more
            have solid : isBlank (byte '"') = false ∧ isBlank (byte ':') = false := ⟨rfl, rfl⟩
            have again : readString (body ++ byte '"' :: (gap ++ byte ':' :: more)) =
                some (key, gap ++ byte ':' :: more) :=
              reads _ _ (by rw [List.length_append]; omega)
            simp only [List.append_assoc, List.cons_append, List.nil_append, readKey,
              skipBlanks_append isBlanks, skipBlanks_cons solid.1, if_true, again,
              Option.bind_eq_bind, Option.bind_some, skipBlanks_append isGap,
              skipBlanks_cons solid.2, pure]

/-- What the reader of values takes with so much fuel. -/
def ValuesTaken (fuel : ℕ) : Prop :=
  ∀ text value rest, readValue fuel text = some (value, rest) →
    ∃ used, text = used ++ rest ∧ TakesValue used value

/-- What the reader of items takes. -/
def ItemsTaken (fuel : ℕ) : Prop :=
  ∀ text items rest, readItems fuel text = some (items, rest) →
    ∃ used, text = used ++ rest ∧ TakesItems used items

/-- What the reader of members takes. -/
def MembersTaken (fuel : ℕ) : Prop :=
  ∀ text members rest, readMembers fuel text = some (members, rest) →
    ∃ used, text = used ++ rest ∧ TakesMembers used members

theorem taken_behind {first : UInt8} (shape : skipBlanks text = first :: later)
    (taken : ∃ used, first :: later = used ++ rest ∧ TakesValue used value) :
    ∃ used, text = used ++ rest ∧ TakesValue used value := by
  rcases skipBlanks_cons_taken shape with ⟨blank, rfl, isBlanks⟩
  rcases taken with ⟨used, split, takes⟩
  exact ⟨blank ++ used, by rw [split, List.append_assoc], takes.blank_append isBlanks⟩

theorem empty_taken {opening : UInt8} (closed : (skipBlanks later).head? = some closing)
    (takes : ∀ blank : Bytes, blank.all isBlank = true →
      TakesValue (opening :: (blank ++ [closing])) value) :
    ∃ used, opening :: later = used ++ (skipBlanks later).tail ∧ TakesValue used value := by
  rcases List.head?_eq_some_iff.mp closed with ⟨after, shape⟩
  rcases skipBlanks_cons_taken shape with ⟨gap, rfl, isGap⟩
  exact ⟨opening :: (gap ++ [closing]), by simp [shape], takes gap isGap⟩

/-- A value with one level more. -/
theorem valuesTaken_succ (itemsTaken : ItemsTaken fuel) (membersTaken : MembersTaken fuel) :
    ValuesTaken (fuel + 1) := by
  intro text value rest read
  rw [readValue] at read
  split at read
  case h_1 => cases read
  case h_2 first later shape =>
    refine taken_behind shape ?_
    split at read
    case isTrue quote =>
      subst quote
      simp only [Option.bind_eq_bind, Option.bind_eq_some_iff] at read
      rcases read with ⟨⟨string, after⟩, stringRead, read⟩
      cases read
      rcases readChars_taken stringRead with ⟨body, rfl, stays, reads⟩
      exact ⟨byte '"' :: (body ++ [byte '"']), by simp, .string stays reads⟩
    case isFalse =>
      split at read
      case isTrue bracket =>
        subst bracket
        split at read
        case isTrue closed =>
          cases read
          exact empty_taken closed fun _ isBlanks => .emptyArray isBlanks
        case isFalse =>
          simp only [Option.bind_eq_bind, Option.bind_eq_some_iff] at read
          rcases read with ⟨⟨all, after⟩, allRead, read⟩
          cases read
          rcases itemsTaken _ _ _ allRead with ⟨used, rfl, takes⟩
          exact ⟨byte '[' :: used, rfl, takes.array⟩
      case isFalse =>
        split at read
        case isTrue brace =>
          subst brace
          split at read
          case isTrue closed =>
            cases read
            exact empty_taken closed fun _ isBlanks => .emptyObject isBlanks
          case isFalse =>
            simp only [Option.bind_eq_bind, Option.bind_eq_some_iff] at read
            rcases read with ⟨⟨all, after⟩, allRead, read⟩
            dsimp only at read
            split at read
            case isTrue distinct =>
              cases read
              rcases membersTaken _ _ _ allRead with ⟨used, rfl, takes⟩
              exact ⟨byte '\x7b' :: used, rfl, takes.object distinct⟩
            case isFalse => cases read
        case isFalse =>
          split at read
          case isTrue starts =>
            simp only [Option.bind_eq_bind, Option.bind_eq_some_iff] at read
            rcases read with ⟨⟨literal, after⟩, numberRead, read⟩
            cases read
            rcases readNumber_taken numberRead with ⟨taken, nonempty, plain⟩
            rcases List.exists_cons_of_ne_nil nonempty with ⟨head, digits, rfl⟩
            cases taken
            exact ⟨first :: digits, rfl,
              .number starts plain fun _ ends => readNumber_again numberRead ends⟩
          case isFalse =>
            rcases readName_taken read with ⟨used, taken, nonempty, plain, reads⟩
            exact ⟨used, taken, .name nonempty plain reads⟩

theorem itemsTaken_succ (valuesTaken : ValuesTaken fuel) (itemsTaken : ItemsTaken fuel) :
    ItemsTaken (fuel + 1) := by
  intro text all rest read
  simp only [readItems, Option.bind_eq_bind, Option.bind_eq_some_iff] at read
  rcases read with ⟨⟨item, after⟩, itemRead, read⟩
  rcases valuesTaken _ _ _ itemRead with ⟨used, rfl, takes⟩
  dsimp only at read
  split at read
  case h_1 => cases read
  case h_2 first later shape =>
    rcases skipBlanks_cons_taken shape with ⟨gap, rfl, isGap⟩
    split at read
    case isTrue separator =>
      subst separator
      rcases Option.bind_eq_some_iff.mp read with ⟨⟨others, last⟩, othersRead, read⟩
      cases read
      rcases itemsTaken _ _ _ othersRead with ⟨more, rfl, takesOthers⟩
      exact ⟨used ++ (gap ++ byte ',' :: more), by simp, .cons takes isGap takesOthers⟩
    case isFalse =>
      split at read
      case isTrue bracket =>
        subst bracket
        cases read
        exact ⟨used ++ (gap ++ [byte ']']), by simp, .last takes isGap⟩
      case isFalse => cases read

theorem membersTaken_succ (valuesTaken : ValuesTaken fuel) (membersTaken : MembersTaken fuel) :
    MembersTaken (fuel + 1) := by
  intro text all rest read
  simp only [readMembers_succ, Option.bind_eq_bind, Option.bind_eq_some_iff] at read
  rcases read with ⟨⟨key, afterKey⟩, keyRead, ⟨value, after⟩, valueRead, read⟩
  rcases readKey_taken keyRead with ⟨named, rfl, takesKey⟩
  rcases valuesTaken _ _ _ valueRead with ⟨used, rfl, takes⟩
  dsimp only at read
  split at read
  case h_1 => cases read
  case h_2 first later shape =>
    rcases skipBlanks_cons_taken shape with ⟨gap, rfl, isGap⟩
    split at read
    case isTrue separator =>
      subst separator
      rcases Option.bind_eq_some_iff.mp read with ⟨⟨others, last⟩, othersRead, read⟩
      cases read
      rcases membersTaken _ _ _ othersRead with ⟨more, rfl, takesOthers⟩
      exact ⟨(named ++ used) ++ (gap ++ byte ',' :: more), by simp,
        .cons takesKey takes isGap takesOthers⟩
    case isFalse =>
      split at read
      case isTrue brace =>
        subst brace
        cases read
        exact ⟨(named ++ used) ++ (gap ++ [byte '\x7d']), by simp, .last takesKey takes isGap⟩
      case isFalse => cases read

theorem readers_taken (fuel : ℕ) : ValuesTaken fuel ∧ ItemsTaken fuel ∧ MembersTaken fuel := by
  induction fuel with
  | zero =>
      refine ⟨?_, ?_, ?_⟩
      all_goals
        intro text value rest read
        cases read
  | succ fuel ih =>
      rcases ih with ⟨values, items, members⟩
      exact ⟨valuesTaken_succ items members, itemsTaken_succ values items,
        membersTaken_succ values members⟩

theorem skipBlanks_of_append (shape : skipBlanks text = used ++ rest) (solid : EndsSolid used) :
    skipBlanks used = used := by
  cases used with
  | nil => rfl
  | cons first used =>
      have head := List.head?_dropWhile_not isBlank text
      rw [skipBlanks] at shape
      rw [shape, List.cons_append, List.head?_cons] at head
      exact skipBlanks_cons (by simpa using head)

theorem exists_takes_of_parse (parsed : parse text = some value) :
    ∃ front used back, text = front ++ (used ++ back) ∧ front.all isBlank = true ∧
      back.all isBlank = true ∧ skipBlanks used = used ∧ TakesValue used value := by
  unfold parse at parsed
  split at parsed
  case isFalse => cases parsed
  case isTrue =>
    simp only [Option.bind_eq_bind, Option.bind_eq_some_iff] at parsed
    rcases parsed with ⟨⟨whole, after⟩, read, parsed⟩
    dsimp only at parsed
    split at parsed
    case isFalse => cases parsed
    case isTrue empty =>
      cases parsed
      rcases skipBlanks_taken text with ⟨front, split, isFront⟩
      rw [split, readValue_append _ (List.all_eq_true.mpr isFront)] at read
      rcases (readers_taken _).1 _ _ _ read with ⟨used, taken, takes⟩
      rcases skipBlanks_taken after with ⟨back, splitBack, isBack⟩
      rw [List.isEmpty_iff.mp empty, List.append_nil] at splitBack
      subst splitBack
      exact ⟨front, used, after, by rw [← taken, ← split], List.all_eq_true.mpr isFront,
        List.all_eq_true.mpr isBack, skipBlanks_of_append taken takes.solid, takes⟩

theorem run_of_parse (parsed : parse text = some value) :
    run {} text = some {} := by
  rcases exists_takes_of_parse parsed with ⟨front, used, back, rfl, isFront, isBack, -, takes⟩
  rw [run_append, run_of_isBlank (List.all_eq_true.mp isFront), Option.bind_some, run_append,
    takes.balanced, Option.bind_some, run_of_isBlank (List.all_eq_true.mp isBack)]

end Json
