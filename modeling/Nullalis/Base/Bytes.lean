import Mathlib.Algebra.Group.Nat.Defs
import Mathlib.Data.Nat.Notation
import Mathlib.Data.Int.Notation
import Mathlib.Data.List.TakeWhile
import Mathlib.Tactic.IntervalCases

/-!
# Byte strings

Texts are byte strings throughout the sources modelled here, so a text is a list of
bytes and a literal is written through `ascii`. The searches and splits below follow the
standard library that the sources call: `std.mem`, `std.ascii` and `std.fmt`.
-/

/-- A byte string: what a slice of `u8` holds. -/
abbrev Bytes := List UInt8

def byte (character : Char) : UInt8 :=
  UInt8.ofNat character.toNat

def ascii (literal : String) : Bytes :=
  literal.toList.map byte

/-- A literal is a list of characters, which is much cheaper to evaluate than the string. -/
theorem ascii_ofList (characters : List Char) :
    ascii (String.ofList characters) = characters.map byte := by
  rw [ascii, String.toList_ofList]

namespace Bytes

/-- What holds for every pair of half bytes holds for every byte. -/
theorem forall_byte {property : UInt8 → Prop}
    (all : ∀ high < 16, ∀ low < 16, property (UInt8.ofNat (16 * high + low))) (value : UInt8) :
    property value := by
  have small : value.toNat < 16 * 16 := value.toNat_lt
  have known := all (value.toNat / 16) (Nat.div_lt_of_lt_mul small) (value.toNat % 16)
    (Nat.mod_lt _ (by decide))
  rwa [Nat.div_add_mod, UInt8.ofNat_toNat] at known

/-- Remove every leading and trailing byte that stands in `values` (`std.mem.trim`). -/
def trim (values bytes : Bytes) : Bytes :=
  ((bytes.dropWhile values.contains).reverse.dropWhile values.contains).reverse

theorem trim_sublist (values bytes : Bytes) : (trim values bytes).Sublist bytes := by
  have drop (bytes : Bytes) : (bytes.dropWhile values.contains).Sublist bytes :=
    List.dropWhile_sublist _
  have back := (drop (bytes.dropWhile values.contains).reverse).reverse
  rw [List.reverse_reverse] at back
  exact back.trans (drop bytes)

theorem contains_or_mem_trim {values bytes : Bytes} {value : UInt8} (mem : value ∈ bytes) :
    values.contains value = true ∨ value ∈ trim values bytes := by
  have drop (bytes : Bytes) (mem : value ∈ bytes) :
      values.contains value = true ∨ value ∈ bytes.dropWhile values.contains := by
    have whole : bytes.takeWhile values.contains ++ bytes.dropWhile values.contains = bytes :=
      List.takeWhile_append_dropWhile
    rw [← whole, List.mem_append] at mem
    exact mem.imp_left fun taken => List.mem_takeWhile_imp taken
  rcases drop bytes mem with blank | front
  · exact .inl blank
  · rw [trim, List.mem_reverse]
    exact drop _ (List.mem_reverse.mpr front)

theorem contains_of_trim_eq_cons {values bytes rest : Bytes} {first : UInt8}
    (trimmed : trim values bytes = first :: rest) : values.contains first = false := by
  have start : trim values bytes <+: bytes.dropWhile values.contains := by
    have suffix : (bytes.dropWhile values.contains).reverse.dropWhile values.contains <:+
        (bytes.dropWhile values.contains).reverse := List.dropWhile_suffix _
    rwa [← List.reverse_prefix, List.reverse_reverse] at suffix
  rw [trimmed] at start
  rcases start with ⟨after, whole⟩
  have head := List.head?_dropWhile_not values.contains bytes
  rw [← whole] at head
  simpa using head

/-- The maximal runs of bytes outside `delimiters` (`std.mem.tokenizeAny`). -/
def tokenizeAny (delimiters bytes : Bytes) : List Bytes :=
  (bytes.splitOnP delimiters.contains).filter fun token => !token.isEmpty

/-- The stretches between the occurrences of `delimiter` (`std.mem.splitScalar`). -/
def splitScalar (delimiter : UInt8) (bytes : Bytes) : List Bytes :=
  bytes.splitOn delimiter

theorem splitScalar_cons_self (delimiter : UInt8) (rest : Bytes) :
    splitScalar delimiter (delimiter :: rest) = [] :: splitScalar delimiter rest := by
  rw [splitScalar, List.splitOn_cons_eq_if_modifyHead, if_pos (beq_self_eq_true delimiter)]
  rfl

theorem splitScalar_cons_of_ne {delimiter value : UInt8} (other : value ≠ delimiter)
    (rest : Bytes) :
    splitScalar delimiter (value :: rest) =
      (splitScalar delimiter rest).modifyHead (value :: ·) := by
  rw [splitScalar, List.splitOn_cons_eq_if_modifyHead, if_neg (by simpa using other)]
  rfl

theorem splitScalar_ne_nil (delimiter : UInt8) (bytes : Bytes) :
    splitScalar delimiter bytes ≠ [] := by
  induction bytes with
  | nil => exact List.cons_ne_nil _ _
  | cons value rest ih =>
      by_cases same : value = delimiter
      · subst same
        rw [splitScalar_cons_self]
        exact List.cons_ne_nil _ _
      · rw [splitScalar_cons_of_ne same]
        cases parts : splitScalar delimiter rest with
        | nil => exact absurd parts ih
        | cons first others => exact List.cons_ne_nil _ _

theorem splitScalar_append {delimiter : UInt8} {first : Bytes} (apart : delimiter ∉ first)
    (rest : Bytes) :
    splitScalar delimiter (first ++ delimiter :: rest) = first :: splitScalar delimiter rest := by
  induction first with
  | nil => exact splitScalar_cons_self delimiter rest
  | cons value first ih =>
      rw [List.mem_cons, not_or] at apart
      rw [List.cons_append, splitScalar_cons_of_ne (Ne.symm apart.1), ih apart.2]
      rfl

theorem not_mem_of_splitScalar {delimiter : UInt8} {bytes part : Bytes}
    (mem : part ∈ splitScalar delimiter bytes) : delimiter ∉ part := by
  induction bytes generalizing part with
  | nil =>
      have empty : part = [] := List.mem_singleton.mp mem
      simp [empty]
  | cons value rest ih =>
      by_cases same : value = delimiter
      · subst same
        rw [splitScalar_cons_self] at mem
        rcases List.mem_cons.mp mem with rfl | later
        · simp
        · exact ih later
      · rw [splitScalar_cons_of_ne same] at mem
        cases parts : splitScalar delimiter rest with
        | nil => exact absurd parts (splitScalar_ne_nil delimiter rest)
        | cons first others =>
            rw [parts] at mem ih
            rcases List.mem_cons.mp mem with rfl | later
            · have apart := ih List.mem_cons_self
              simp [apart, Ne.symm same]
            · exact ih (List.mem_cons_of_mem _ later)

theorem splitScalar_append_cons (delimiter : UInt8) (first rest : Bytes) :
    splitScalar delimiter (first ++ delimiter :: rest) =
      splitScalar delimiter first ++ splitScalar delimiter rest := by
  induction first with
  | nil => exact splitScalar_cons_self delimiter rest
  | cons value first ih =>
      by_cases same : value = delimiter
      · subst same
        rw [List.cons_append, splitScalar_cons_self, splitScalar_cons_self, ih, List.cons_append]
      · rw [List.cons_append, splitScalar_cons_of_ne same, splitScalar_cons_of_ne same, ih]
        cases parts : splitScalar delimiter first with
        | nil => exact absurd parts (splitScalar_ne_nil delimiter first)
        | cons part parts => rfl

theorem splitScalar_of_not_mem {delimiter : UInt8} {bytes : Bytes} (apart : delimiter ∉ bytes) :
    splitScalar delimiter bytes = [bytes] := by
  induction bytes with
  | nil => rfl
  | cons value rest ih =>
      rw [List.mem_cons, not_or] at apart
      rw [splitScalar_cons_of_ne (Ne.symm apart.1), ih apart.2]
      rfl

theorem mem_of_splitScalar {delimiter value : UInt8} {bytes : Bytes} (other : value ≠ delimiter)
    (mem : value ∈ bytes) : ∃ part ∈ splitScalar delimiter bytes, value ∈ part := by
  induction bytes with
  | nil => cases mem
  | cons first rest ih =>
      by_cases same : first = delimiter
      · subst same
        rcases List.mem_cons.mp mem with rfl | mem
        · exact absurd rfl other
        · rcases ih mem with ⟨part, among, inside⟩
          rw [splitScalar_cons_self]
          exact ⟨part, List.mem_cons_of_mem _ among, inside⟩
      · rw [splitScalar_cons_of_ne same]
        cases parts : splitScalar delimiter rest with
        | nil => exact absurd parts (splitScalar_ne_nil delimiter rest)
        | cons head others =>
            rw [parts] at ih
            rcases List.mem_cons.mp mem with rfl | mem
            · exact ⟨_, List.mem_cons_self, List.mem_cons_self⟩
            · rcases ih mem with ⟨part, among, inside⟩
              rcases List.mem_cons.mp among with rfl | among
              · exact ⟨_, List.mem_cons_self, List.mem_cons_of_mem _ inside⟩
              · exact ⟨part, List.mem_cons_of_mem _ among, inside⟩

/-- The maximal runs of bytes other than `delimiter` (`std.mem.tokenizeScalar`). -/
def tokenizeScalar (delimiter : UInt8) (bytes : Bytes) : List Bytes :=
  tokenizeAny [delimiter] bytes

/-- Does `needle` occur (`std.mem.indexOf` with a result)? -/
def containsBytes (bytes needle : Bytes) : Bool :=
  match bytes with
  | [] => needle.isEmpty
  | value :: rest => needle.isPrefixOf (value :: rest) || containsBytes rest needle

/-- The position of the first occurrence of a text (`std.mem.indexOf`). -/
def indexOf (needle : Bytes) : Bytes → Option ℕ
  | [] => if needle.isEmpty then some 0 else none
  | value :: rest =>
      if needle.isPrefixOf (value :: rest) then some 0 else (indexOf needle rest).map (· + 1)

theorem indexOf_le {needle bytes : Bytes} {index : ℕ} (found : indexOf needle bytes = some index) :
    index + needle.length ≤ bytes.length := by
  induction bytes generalizing index with
  | nil =>
      simp only [indexOf, Option.ite_none_right_eq_some, List.isEmpty_iff] at found
      rcases found with ⟨rfl, found⟩
      cases found
      exact Nat.le_refl 0
  | cons value rest ih =>
      rw [indexOf] at found
      split at found
      case isTrue starts =>
          cases found
          rw [Nat.zero_add]
          exact (List.isPrefixOf_iff_prefix.mp starts).length_le
      case isFalse =>
          rcases Option.map_eq_some_iff.mp found with ⟨further, later, rfl⟩
          have inside := ih later
          rw [List.length_cons]
          omega

theorem append_of_indexOf {needle bytes : Bytes} {index : ℕ}
    (found : indexOf needle bytes = some index) :
    bytes = bytes.take index ++ needle ++ bytes.drop (index + needle.length) := by
  induction bytes generalizing index with
  | nil =>
      simp only [indexOf, Option.ite_none_right_eq_some, List.isEmpty_iff] at found
      rcases found with ⟨rfl, found⟩
      cases found
      rfl
  | cons value rest ih =>
      rw [indexOf] at found
      split at found
      case isTrue starts =>
          cases found
          rcases List.isPrefixOf_iff_prefix.mp starts with ⟨after, whole⟩
          rw [← whole]
          simp
      case isFalse =>
          rcases Option.map_eq_some_iff.mp found with ⟨further, later, rfl⟩
          have behind : further + 1 + needle.length = further + needle.length + 1 := by omega
          rw [List.take_succ_cons, behind, List.drop_succ_cons, List.cons_append, List.cons_append,
            ← ih later]

theorem indexOf_append {needle bytes : Bytes} {index : ℕ} (more : Bytes)
    (found : indexOf needle bytes = some index) : indexOf needle (bytes ++ more) = some index := by
  induction bytes generalizing index with
  | nil =>
      simp only [indexOf, Option.ite_none_right_eq_some, List.isEmpty_iff] at found
      rcases found with ⟨rfl, found⟩
      cases found
      cases more <;> rfl
  | cons value rest ih =>
      rw [List.cons_append, indexOf]
      rw [indexOf] at found
      split at found
      case isTrue starts =>
          have longer := (List.isPrefixOf_iff_prefix.mp starts).trans (List.prefix_append _ more)
          rw [List.cons_append] at longer
          rwa [if_pos (List.isPrefixOf_iff_prefix.mpr longer)]
      case isFalse apart =>
          rcases Option.map_eq_some_iff.mp found with ⟨further, later, rfl⟩
          have enough : needle.length ≤ (value :: rest).length := by
            have inside := indexOf_le later
            rw [List.length_cons]
            omega
          have kept : ¬ needle.isPrefixOf (value :: (rest ++ more)) = true := by
            intro starts
            refine apart (List.isPrefixOf_iff_prefix.mpr ?_)
            exact List.prefix_of_prefix_length_le (List.isPrefixOf_iff_prefix.mp starts)
              (List.prefix_append (value :: rest) more) enough
          rw [if_neg kept, ih later, Option.map_some]

/-- Does the text start with the literal (`std.mem.startsWith`)? -/
def startsWith (bytes : Bytes) (literal : String) : Bool :=
  (ascii literal).isPrefixOf bytes

/-- Does the text end with the literal (`std.mem.endsWith`)? -/
def endsWith (bytes : Bytes) (literal : String) : Bool :=
  (ascii literal).isSuffixOf bytes

theorem startsWith_append {bytes : Bytes} {literal : String} (more : Bytes)
    (enough : (ascii literal).length ≤ bytes.length) :
    startsWith (bytes ++ more) literal = startsWith bytes literal := by
  rw [startsWith, startsWith, Bool.eq_iff_iff, List.isPrefixOf_iff_prefix,
    List.isPrefixOf_iff_prefix]
  exact ⟨fun starts => List.prefix_of_prefix_length_le starts (List.prefix_append ..) enough,
    fun starts => starts.trans (List.prefix_append ..)⟩

/-- What follows the last slash of a path without the slashes at its end
(`std.fs.path.basename`). -/
def basename (path : Bytes) : Bytes :=
  ((path.reverse.dropWhile (· == byte '/')).takeWhile (· != byte '/')).reverse

/-- The position of the first occurrence of a byte (`std.mem.indexOfScalar`). -/
def indexOfScalar (value : UInt8) (bytes : Bytes) : Option ℕ :=
  bytes.findIdx? (· == value)

/-- The position of the last occurrence of a byte (`std.mem.lastIndexOfScalar`). -/
def lastIndexOfScalar (value : UInt8) (bytes : Bytes) : Option ℕ :=
  (indexOfScalar value bytes.reverse).map fun index => bytes.length - 1 - index

/-- `std.ascii.isDigit` -/
def isDigit (value : UInt8) : Bool :=
  byte '0' ≤ value && value ≤ byte '9'

/-- `std.ascii.isAlphabetic` -/
def isAlphabetic (value : UInt8) : Bool :=
  (byte 'a' ≤ value && value ≤ byte 'z') || (byte 'A' ≤ value && value ≤ byte 'Z')

/-- `std.ascii.toLower` -/
def toLower (value : UInt8) : UInt8 :=
  if byte 'A' ≤ value && value ≤ byte 'Z' then value + 32 else value

/-- Equality up to ASCII case (`std.ascii.eqlIgnoreCase`). -/
def eqlIgnoreCase (first second : Bytes) : Bool :=
  first.map toLower == second.map toLower

def decimal (value : ℕ) : Bytes :=
  (Nat.toDigits 10 value).map byte

/-- An integer in decimal (`std.fmt` with `d`). -/
def decimalInt (value : ℤ) : Bytes :=
  if value < 0 then byte '-' :: decimal value.natAbs else decimal value.natAbs

/-- The value of a string of decimal digits with underscores between them. -/
def digitsValue (value : ℕ) : Bytes → Option ℕ
  | [] => some value
  | digit :: rest =>
      if digit == byte '_' then digitsValue value rest
      else if isDigit digit then digitsValue (10 * value + (digit.toNat - 48)) rest
      else none

/-- The digits of an integer, which neither start nor end with an underscore. -/
def magnitude (bytes : Bytes) : Option ℕ :=
  if bytes.isEmpty || bytes.head? == some (byte '_') || bytes.getLast? == some (byte '_') then none
  else digitsValue 0 bytes

/-- A decimal integer between two bounds (`std.fmt.parseInt` at the type with these bounds). -/
def parseInt (lowest highest : ℤ) (bytes : Bytes) : Option ℤ :=
  let value : Option ℤ :=
    match bytes with
    | [] => none
    | sign :: rest =>
        if sign == byte '+' then (magnitude rest).map Int.ofNat
        else if sign == byte '-' then (magnitude rest).map fun size => -Int.ofNat size
        else (magnitude bytes).map Int.ofNat
  value.filter fun value => lowest ≤ value && value ≤ highest

theorem indexOfScalar_append_cons {delimiter : UInt8} {first rest : Bytes}
    (apart : delimiter ∉ first) :
    indexOfScalar delimiter (first ++ delimiter :: rest) = some first.length := by
  have absent : first.findIdx? (· == delimiter) = none := by
    rw [List.findIdx?_eq_none_iff]
    intro letter mem
    have other : letter ≠ delimiter := by
      rintro rfl
      exact apart mem
    simpa using other
  simp [indexOfScalar, List.findIdx?_append, absent, List.findIdx?_cons]

theorem eq_append_of_indexOfScalar {delimiter : UInt8} {text : Bytes} {index : ℕ}
    (found : indexOfScalar delimiter text = some index) :
    text = text.take index ++ delimiter :: text.drop (index + 1) := by
  rcases List.findIdx?_eq_some_iff_getElem.mp found with ⟨inside, here, _⟩
  rw [beq_iff_eq] at here
  rw [← here, ← List.drop_eq_getElem_cons inside, List.take_append_drop]

theorem trim_eq_self {values bytes : Bytes}
    (apart : ∀ letter ∈ bytes, values.contains letter = false) : trim values bytes = bytes := by
  have kept {bytes : Bytes} (apart : ∀ letter ∈ bytes, values.contains letter = false) :
      bytes.dropWhile values.contains = bytes := by
    cases bytes with
    | nil => rfl
    | cons first rest =>
        have absent := apart first List.mem_cons_self
        rw [List.dropWhile_cons, absent]
        rfl
  have back : ∀ letter ∈ bytes.reverse, values.contains letter = false := by
    intro letter mem
    exact apart letter (List.mem_reverse.mp mem)
  rw [trim, kept apart, kept back, List.reverse_reverse]

theorem trim_of_ends {values middle : Bytes} {first last : UInt8}
    (starts : values.contains first = false) (ends : values.contains last = false) :
    trim values (first :: (middle ++ [last])) = first :: (middle ++ [last]) := by
  have front : (first :: (middle ++ [last])).dropWhile values.contains =
      first :: (middle ++ [last]) := by
    rw [List.dropWhile_cons, starts]
    rfl
  have back : (first :: (middle ++ [last])).reverse.dropWhile values.contains =
      (first :: (middle ++ [last])).reverse := by
    have shape : (first :: (middle ++ [last])).reverse = last :: (middle.reverse ++ [first]) := by
      simp
    rw [shape, List.dropWhile_cons, ends]
    rfl
  rw [trim, front, back, List.reverse_reverse]

theorem eq_of_append_cons {delimiter : UInt8} {first second rest other : Bytes}
    (apart : delimiter ∉ first) (apart' : delimiter ∉ second)
    (same : first ++ delimiter :: rest = second ++ delimiter :: other) :
    first = second ∧ rest = other := by
  induction first generalizing second with
  | nil =>
      cases second with
      | nil => simpa using same
      | cons value second =>
          simp only [List.nil_append, List.cons_append, List.cons.injEq] at same
          simp [same.1] at apart'
  | cons value first ih =>
      cases second with
      | nil =>
          simp only [List.nil_append, List.cons_append, List.cons.injEq] at same
          simp [same.1] at apart
      | cons value' second =>
          simp only [List.cons_append, List.cons.injEq] at same
          rw [List.mem_cons, not_or] at apart apart'
          have rest := ih apart.2 apart'.2 same.2
          simp [same.1, rest.1, rest.2]

/-!
## Decimal numbers
-/

def digit (value : ℕ) : UInt8 :=
  UInt8.ofNat (48 + value)

variable {value : ℕ}

theorem decimal_of_lt (small : value < 10) : decimal value = [digit value] := by
  rw [decimal, Nat.toDigits_of_lt_base small]
  interval_cases value <;> rfl

theorem decimal_of_le (large : 10 ≤ value) :
    decimal value = decimal (value / 10) ++ [digit (value % 10)] := by
  have last : value % 10 < 10 := Nat.mod_lt _ (by decide)
  rw [decimal, Nat.toDigits_of_base_le (by decide) large, List.map_append, List.map_singleton,
    ← decimal]
  congr 2
  interval_cases value % 10 <;> rfl

theorem digit_spec (small : value < 10) :
    isDigit (digit value) = true ∧ digit value ≠ byte '_' ∧ (digit value).toNat - 48 = value := by
  interval_cases value <;> decide

theorem isDigit_of_mem_decimal : ∀ letter ∈ decimal value, isDigit letter = true := by
  induction value using Nat.strong_induction_on with
  | _ value ih =>
      by_cases small : value < 10
      · rw [decimal_of_lt small]
        simpa using (digit_spec small).1
      · intro letter mem
        rw [decimal_of_le (Nat.le_of_not_lt small), List.mem_append] at mem
        rcases mem with mem | mem
        · exact ih (value / 10) (by omega) letter mem
        · rw [List.mem_singleton.mp mem]
          exact (digit_spec (Nat.mod_lt _ (by decide))).1

theorem decimal_ne_nil : decimal value ≠ [] := by
  rw [decimal, Ne, List.map_eq_nil_iff]
  exact Nat.toDigits_ne_nil

theorem head?_decimal (positive : 0 < value) : (decimal value).head? ≠ some (byte '0') := by
  induction value using Nat.strong_induction_on with
  | _ value ih =>
      by_cases small : value < 10
      · rw [decimal_of_lt small]
        interval_cases value <;> decide
      · have shorter := ih (value / 10) (by omega) (by omega)
        rw [decimal_of_le (Nat.le_of_not_lt small)]
        cases digits : decimal (value / 10) with
        | nil => exact absurd digits decimal_ne_nil
        | cons first rest =>
            rw [digits] at shorter
            exact shorter

theorem digitsValue_append (start : ℕ) (first second : Bytes) :
    digitsValue start (first ++ second) = (digitsValue start first).bind (digitsValue · second) := by
  induction first generalizing start with
  | nil => rfl
  | cons letter rest ih =>
      simp only [List.cons_append, digitsValue]
      split
      · exact ih _
      · split
        · exact ih _
        · rfl

theorem digitsValue_decimal : digitsValue 0 (decimal value) = some value := by
  have single (start : ℕ) {last : ℕ} (small : last < 10) :
      digitsValue start [digit last] = some (10 * start + last) := by
    rcases digit_spec small with ⟨isDigit, other, denotes⟩
    simp [digitsValue, isDigit, other, denotes]
  induction value using Nat.strong_induction_on with
  | _ value ih =>
      by_cases small : value < 10
      · rw [decimal_of_lt small, single 0 small, Nat.mul_zero, Nat.zero_add]
      · rw [decimal_of_le (Nat.le_of_not_lt small), digitsValue_append,
          ih (value / 10) (by omega), Option.bind_some, single _ (Nat.mod_lt _ (by decide)),
          Nat.div_add_mod]

theorem decimal_injective {first second : ℕ} (same : decimal first = decimal second) :
    first = second := by
  have read := congrArg (digitsValue 0) same
  rw [digitsValue_decimal, digitsValue_decimal] at read
  exact Option.some.inj read

theorem magnitude_decimal : magnitude (decimal value) = some value := by
  have noUnderscore : ∀ letter ∈ decimal value, letter ≠ byte '_' := fun letter mem same => by
    have digit := isDigit_of_mem_decimal letter mem
    rw [same] at digit
    cases digit
  have first : (decimal value).head? ≠ some (byte '_') := fun head =>
    noUnderscore _ (List.mem_of_head? head) rfl
  have last : (decimal value).getLast? ≠ some (byte '_') := fun end' =>
    noUnderscore _ (List.mem_of_getLast? end') rfl
  have nonempty : (decimal value).isEmpty = false := by simpa using decimal_ne_nil
  rw [magnitude, if_neg (by simp [first, last, nonempty]), digitsValue_decimal]

theorem parseInt_decimalInt {lowest highest value : ℤ} (above : lowest ≤ value)
    (below : value ≤ highest) : parseInt lowest highest (decimalInt value) = some value := by
  have within : (lowest ≤ value && value ≤ highest) = true := by simp [above, below]
  rw [decimalInt]
  split
  case isTrue negative =>
      have plus : (byte '-' == byte '+') = false := rfl
      have abs : -Int.ofNat value.natAbs = value := by rw [Int.ofNat_eq_natCast]; omega
      simp only [parseInt, plus, Bool.false_eq_true, if_false, beq_self_eq_true, if_true,
        magnitude_decimal, Option.map_some, abs]
      rw [Option.filter_some, if_pos within]
  case isFalse nonnegative =>
      have abs : Int.ofNat value.natAbs = value := by rw [Int.ofNat_eq_natCast]; omega
      have digits (sign : UInt8) (other : isDigit sign = false) :
          ∀ first rest, decimal value.natAbs = first :: rest → (first == sign) = false := by
        intro first rest shape
        have digit := isDigit_of_mem_decimal first (shape ▸ List.mem_cons_self ..)
        exact beq_false_of_ne fun same => by rw [same, other] at digit; cases digit
      cases shape : decimal value.natAbs with
      | nil => exact absurd shape decimal_ne_nil
      | cons first rest =>
          have plus := digits (byte '+') (by decide) first rest shape
          have minus := digits (byte '-') (by decide) first rest shape
          simp only [parseInt, plus, minus, Bool.false_eq_true, if_false]
          rw [← shape, magnitude_decimal, Option.map_some, abs, Option.filter_some, if_pos within]

theorem parseInt_decimalInt_of_not {lowest highest value : ℤ}
    (outside : ¬(lowest ≤ value ∧ value ≤ highest)) :
    parseInt lowest highest (decimalInt value) = none := by
  have read := parseInt_decimalInt (Int.le_refl value) (Int.le_refl value)
  simp only [parseInt] at read ⊢
  rw [Option.eq_some_of_filter_eq_some read, Option.filter_some, if_neg (by simpa using outside)]

theorem decimalInt_injective {first second : ℤ} (same : decimalInt first = decimalInt second) :
    first = second := by
  have below : min first second ≤ first ∧ min first second ≤ second := by omega
  have above : first ≤ max first second ∧ second ≤ max first second := by omega
  have read := parseInt_decimalInt below.1 above.1
  rw [same, parseInt_decimalInt below.2 above.2] at read
  exact (Option.some.inj read).symm

theorem not_mem_decimalInt {delimiter : UInt8} {value : ℤ} (other : isDigit delimiter = false)
    (apart : delimiter ≠ byte '-') : delimiter ∉ decimalInt value := by
  have digits (size : ℕ) : delimiter ∉ decimal size := by
    intro mem
    simp [isDigit_of_mem_decimal delimiter mem] at other
  rw [decimalInt]
  split
  · simp [apart, digits]
  · exact digits _

theorem decimalInt_ne_nil {value : ℤ} : decimalInt value ≠ [] := by
  rw [decimalInt]
  split
  · exact List.cons_ne_nil _ _
  · exact decimal_ne_nil

theorem length_decimal_le {places : ℕ} (positive : 0 < places) (small : value < 10 ^ places) :
    (decimal value).length ≤ places := by
  rw [decimal, List.length_map]
  exact (Nat.length_toDigits_le_iff (by decide) positive).mpr small

theorem length_decimalInt_le {places : ℕ} {value : ℤ} (positive : 0 < places)
    (small : value.natAbs < 10 ^ places) : (decimalInt value).length ≤ places + 1 := by
  have digits := length_decimal_le positive small
  rw [decimalInt]
  split
  · simpa using digits
  · omega

end Bytes
