import Mathlib.Tactic.IntervalCases
import Nullalis.Base.Bytes

/-!
# Numbers in other bases

Integers as `std.fmt` writes and reads them in a base up to sixteen. Digits are written in
lower case and read in either, and underscores between digits are skipped.
-/

namespace Bytes

/-- The value of a letter as a digit (`std.fmt.charToDigit`). -/
def charToDigit (base : ℕ) (letter : UInt8) : Option ℕ :=
  let value : Option ℕ :=
    if isDigit letter then some (letter.toNat - 48)
    else if byte 'A' ≤ letter && letter ≤ byte 'Z' then some (letter.toNat - 55)
    else if byte 'a' ≤ letter && letter ≤ byte 'z' then some (letter.toNat - 87)
    else none
  value.filter (· < base)

/-- The value of a string of digits, read behind digits of a given value. -/
def radixValue (base value : ℕ) : Bytes → Option ℕ
  | [] => some value
  | letter :: rest =>
      if letter == byte '_' then radixValue base value rest
      else (charToDigit base letter).bind fun digit => radixValue base (base * value + digit) rest

/-- The digits of a number, which neither start nor end with an underscore. -/
def radixDigits (base : ℕ) (bytes : Bytes) : Option ℕ :=
  if bytes.isEmpty || bytes.head? == some (byte '_') || bytes.getLast? == some (byte '_') then none
  else radixValue base 0 bytes

/-- A number up to a bound (`std.fmt.parseInt` at the unsigned type with this bound). -/
def parseUnsigned (base highest : ℕ) (bytes : Bytes) : Option ℕ :=
  match bytes with
  | [] => none
  | sign :: rest =>
      if sign == byte '+' then (radixDigits base rest).filter (· ≤ highest)
      else if sign == byte '-' then (radixDigits base rest).filter (· = 0)
      else (radixDigits base bytes).filter (· ≤ highest)

def radix (base value : ℕ) : Bytes :=
  (Nat.toDigits base value).map byte

/-- Fill up a text on the left to a width (`std.fmt` with `>`). -/
def padLeft (fill : UInt8) (width : ℕ) (text : Bytes) : Bytes :=
  List.replicate (width - text.length) fill ++ text

variable {base value width : ℕ}

theorem le_length_padLeft {fill : UInt8} {text : Bytes} :
    width ≤ (padLeft fill width text).length := by
  rw [padLeft, List.length_append, List.length_replicate]
  omega

theorem charToDigit_digitChar (small : value < base) (supported : base ≤ 16) :
    charToDigit base (byte value.digitChar) = some value ∧
      (byte value.digitChar == byte '_') = false := by
  have below : value < 16 := Nat.lt_of_lt_of_le small supported
  refine ⟨?_, by interval_cases value <;> rfl⟩
  have kept : (some value).filter (· < base) = some value := by simp [small]
  rw [← kept]
  interval_cases value <;> rfl

theorem radixValue_append (start : ℕ) (first second : Bytes) :
    radixValue base start (first ++ second) =
      (radixValue base start first).bind fun value => radixValue base value second := by
  induction first generalizing start with
  | nil => rfl
  | cons letter rest ih =>
      simp only [List.cons_append, radixValue]
      split
      · exact ih start
      · cases charToDigit base letter with
        | none => rfl
        | some digit => exact ih _

theorem radixValue_radix (enough : 1 < base) (supported : base ≤ 16) :
    radixValue base 0 (radix base value) = some value := by
  have single (start : ℕ) {last : ℕ} (small : last < base) :
      radixValue base start [byte last.digitChar] = some (base * start + last) := by
    rcases charToDigit_digitChar small supported with ⟨denotes, other⟩
    simp [radixValue, denotes, other]
  induction value using Nat.strong_induction_on with
  | _ value ih =>
      by_cases small : value < base
      · rw [radix, Nat.toDigits_of_lt_base small, List.map_singleton, single 0 small,
          Nat.mul_zero, Nat.zero_add]
      · have large : base ≤ value := Nat.le_of_not_lt small
        have shorter : value / base < value := Nat.div_lt_self (by omega) enough
        rw [radix, Nat.toDigits_of_base_le enough large, List.map_append, List.map_singleton,
          ← radix, radixValue_append, ih _ shorter, Option.bind_some,
          single _ (Nat.mod_lt _ (by omega)), Nat.div_add_mod]

theorem radixValue_padLeft (enough : 1 < base) (text : Bytes) :
    radixValue base 0 (padLeft (byte '0') width text) = radixValue base 0 text := by
  have zeros (count : ℕ) : radixValue base 0 (List.replicate count (byte '0')) = some 0 := by
    have zero : charToDigit base (byte '0') = some 0 := by
      have kept : (some 0).filter (· < base) = some 0 := by simp; omega
      rw [← kept]
      rfl
    have other : (byte '0' == byte '_') = false := rfl
    induction count with
    | zero => rfl
    | succ count ih => simp [List.replicate_succ, radixValue, zero, other, ih]
  rw [padLeft, radixValue_append, zeros, Option.bind_some]

theorem padLeft_radix_injective {other : ℕ} (enough : 1 < base) (supported : base ≤ 16)
    (same : padLeft (byte '0') width (radix base value) =
      padLeft (byte '0') width (radix base other)) : value = other := by
  have read := congrArg (radixValue base 0) same
  rw [radixValue_padLeft enough, radixValue_padLeft enough,
    radixValue_radix enough supported, radixValue_radix enough supported] at read
  exact Option.some.inj read

theorem length_padLeft_radix_le (enough : 1 < base) (positive : 0 < width) :
    (padLeft (byte '0') width (radix base value)).length ≤ width ↔ value < base ^ width := by
  rw [← Nat.length_toDigits_le_iff enough positive, padLeft, List.length_append,
    List.length_replicate, radix, List.length_map]
  omega

/-- What may stand in a number: its sign, its digits and underscores. -/
def isNumeral (base : ℕ) (letter : UInt8) : Bool :=
  letter == byte '+' || letter == byte '-' || letter == byte '_' || (charToDigit base letter).isSome

theorem all_isNumeral_of_radixValue {start : ℕ} {text : Bytes}
    (read : radixValue base start text = some value) : text.all (isNumeral base) = true := by
  induction text generalizing start with
  | nil => rfl
  | cons letter rest ih =>
      rw [radixValue] at read
      split at read
      case isTrue underscore => simp [isNumeral, underscore, ih read]
      case isFalse =>
          rcases Option.bind_eq_some_iff.mp read with ⟨digit, denotes, read⟩
          simp [isNumeral, denotes, ih read]

theorem all_isNumeral_of_parseUnsigned {highest : ℕ} {text : Bytes}
    (read : parseUnsigned base highest text = some value) : text.all (isNumeral base) = true := by
  have digits {text : Bytes} (read : radixDigits base text = some value) :
      text.all (isNumeral base) = true := by
    rw [radixDigits, Option.ite_none_left_eq_some] at read
    exact all_isNumeral_of_radixValue read.2
  cases text with
  | nil => rfl
  | cons sign rest =>
      rw [parseUnsigned] at read
      split at read
      case isTrue plus =>
          rw [List.all_cons, digits (Option.filter_eq_some_iff.mp read).1, isNumeral, plus]
          rfl
      case isFalse =>
          split at read
          case isTrue minus =>
              rw [List.all_cons, digits (Option.filter_eq_some_iff.mp read).1, isNumeral, minus,
                Bool.or_true]
              rfl
          case isFalse => exact digits (Option.filter_eq_some_iff.mp read).1

end Bytes
