import Nullalis.Base.Utf8

/-!
# JSON texts

A reader of RFC 8259 texts with the choices of the standard library (`std.json`): the text
is UTF-8, an escaped surrogate stands in a pair, and an object has no name twice. A number
keeps its literal, so that its reader decides what it denotes.

The second half is a set of rules: `Reads text value` says that the reader takes `text` for
`value` in front of anything, and each rule builds a longer text from shorter ones. A printer
is proved right by applying the rules along its output.
-/

/-- A JSON value. -/
inductive Json where
  | null
  | bool (value : Bool)
  | number (literal : Bytes)
  | string (text : Bytes)
  | array (items : List Json)
  | object (members : List (Bytes × Json))

namespace Json

def isBlank (value : UInt8) : Bool :=
  value == byte ' ' || value == byte '\t' || value == byte '\n' || value == byte '\r'

def skipBlanks (text : Bytes) : Bytes :=
  text.dropWhile isBlank

/-!
## Strings
-/

/-- The value of a hexadecimal digit. -/
def hexValue (digit : UInt8) : Option ℕ :=
  if Bytes.isDigit digit then some (digit.toNat - 48)
  else if byte 'a' ≤ digit && digit ≤ byte 'f' then some (digit.toNat - 87)
  else if byte 'A' ≤ digit && digit ≤ byte 'F' then some (digit.toNat - 55)
  else none

/-- Read four hexadecimal digits. -/
def readHex : Bytes → Option (ℕ × Bytes)
  | first :: second :: third :: fourth :: rest => do
      let digits := [← hexValue first, ← hexValue second, ← hexValue third, ← hexValue fourth]
      return (digits.foldl (fun code digit => 16 * code + digit) 0, rest)
  | _ => none

/-- A code point in UTF-8. -/
def encode (code : ℕ) : Bytes :=
  if code < 0x80 then [UInt8.ofNat code]
  else if code < 0x800 then [UInt8.ofNat (0xC0 + code / 64), UInt8.ofNat (0x80 + code % 64)]
  else if code < 0x10000 then
    [UInt8.ofNat (0xE0 + code / 4096), UInt8.ofNat (0x80 + code / 64 % 64),
      UInt8.ofNat (0x80 + code % 64)]
  else
    [UInt8.ofNat (0xF0 + code / 262144), UInt8.ofNat (0x80 + code / 4096 % 64),
      UInt8.ofNat (0x80 + code / 64 % 64), UInt8.ofNat (0x80 + code % 64)]

/-- Read the second half of a surrogate pair whose first half is `high`. -/
def readLowSurrogate (high : ℕ) (text : Bytes) : Option (Bytes × Bytes) :=
  if (ascii "\\u").isPrefixOf text then do
    let (low, rest) ← readHex (text.drop 2)
    if 0xDC00 ≤ low ∧ low < 0xE000 then
      return (encode (0x10000 + (high - 0xD800) * 0x400 + (low - 0xDC00)), rest)
    else none
  else none

/-- Read what follows `\u`. -/
def readUnicode (text : Bytes) : Option (Bytes × Bytes) := do
  let (code, rest) ← readHex text
  if 0xD800 ≤ code ∧ code < 0xDC00 then readLowSurrogate code rest
  else if 0xDC00 ≤ code ∧ code < 0xE000 then none
  else return (encode code, rest)

/-- The byte that a letter after a backslash stands for. -/
def escapeValue (letter : UInt8) : Option UInt8 :=
  if letter = byte '"' ∨ letter = byte '\\' ∨ letter = byte '/' then some letter
  else if letter = byte 'b' then some 0x08
  else if letter = byte 'f' then some 0x0C
  else if letter = byte 'n' then some (byte '\n')
  else if letter = byte 'r' then some (byte '\r')
  else if letter = byte 't' then some (byte '\t')
  else none

/-- Read a byte or an escape of a string. -/
def readChar : Bytes → Option (Bytes × Bytes)
  | [] => none
  | value :: rest =>
      if value = byte '\\' then
        match rest with
        | [] => none
        | letter :: rest =>
            if letter = byte 'u' then readUnicode rest
            else (escapeValue letter).map fun value => ([value], rest)
      else if value < 0x20 then none
      else some ([value], rest)

/-- Read a string up to its closing quote within so many characters. -/
def readChars : ℕ → Bytes → Option (Bytes × Bytes)
  | 0, _ => none
  | fuel + 1, text =>
      if text.head? = some (byte '"') then some ([], text.tail)
      else do
        let (char, rest) ← readChar text
        let (text, rest) ← readChars fuel rest
        return (char ++ text, rest)

def readString (text : Bytes) : Option (Bytes × Bytes) :=
  readChars (text.length + 1) text

/-!
## Numbers
-/

/-- Read a run of digits, which must not be empty. -/
def readDigits (text : Bytes) : Option (Bytes × Bytes) :=
  if (text.takeWhile Bytes.isDigit).isEmpty then none
  else some (text.takeWhile Bytes.isDigit, text.dropWhile Bytes.isDigit)

/-- Read the digits before the point, which start with a zero only if there is no other. -/
def readWhole (text : Bytes) : Option (Bytes × Bytes) := do
  let (digits, rest) ← readDigits text
  if digits.head? = some (byte '0') ∧ 1 < digits.length then none
  else return (digits, rest)

/-- Read a fraction, if there is one. -/
def readFraction (text : Bytes) : Option (Bytes × Bytes) :=
  if text.head? = some (byte '.') then do
    let (digits, rest) ← readDigits text.tail
    return (byte '.' :: digits, rest)
  else some ([], text)

def startsWithSign (text : Bytes) : Bool :=
  text.head? == some (byte '+') || text.head? == some (byte '-')

/-- Read an exponent, if there is one. -/
def readExponent (text : Bytes) : Option (Bytes × Bytes) :=
  if text.head? = some (byte 'e') ∨ text.head? = some (byte 'E') then do
    let sign := if startsWithSign text.tail then text.tail.take 1 else []
    let (digits, rest) ← readDigits (text.tail.drop sign.length)
    return (text.take 1 ++ sign ++ digits, rest)
  else some ([], text)

/-- Read a number and keep its literal. -/
def readNumber (text : Bytes) : Option (Bytes × Bytes) := do
  let sign := if text.head? = some (byte '-') then [byte '-'] else []
  let (whole, rest) ← readWhole (text.drop sign.length)
  let (fraction, rest) ← readFraction rest
  let (exponent, rest) ← readExponent rest
  return (sign ++ whole ++ fraction ++ exponent, rest)

/-!
## Values
-/

/-- Read one of the three literal names. -/
def readName (text : Bytes) : Option (Json × Bytes) :=
  if (ascii "null").isPrefixOf text then some (.null, text.drop 4)
  else if (ascii "true").isPrefixOf text then some (.bool true, text.drop 4)
  else if (ascii "false").isPrefixOf text then some (.bool false, text.drop 5)
  else none

/-- Read a name of an object with its colon. -/
def readKey (text : Bytes) : Option (Bytes × Bytes) :=
  match skipBlanks text with
  | [] => none
  | quote :: rest =>
      if quote = byte '"' then do
        let (key, rest) ← readString rest
        match skipBlanks rest with
        | [] => none
        | colon :: rest => if colon = byte ':' then return (key, rest) else none
      else none

mutual

/-- Read a value, nested at most as deep as given. -/
def readValue : ℕ → Bytes → Option (Json × Bytes)
  | 0, _ => none
  | fuel + 1, text =>
      match skipBlanks text with
      | [] => none
      | first :: rest =>
          if first = byte '"' then do
            let (text, rest) ← readString rest
            return (.string text, rest)
          else if first = byte '[' then
            if (skipBlanks rest).head? = some (byte ']') then
              some (.array [], (skipBlanks rest).tail)
            else do
              let (items, rest) ← readItems fuel rest
              return (.array items, rest)
          else if first = byte '\x7b' then
            if (skipBlanks rest).head? = some (byte '\x7d') then
              some (.object [], (skipBlanks rest).tail)
            else do
              let (members, rest) ← readMembers fuel rest
              if (members.map Prod.fst).Nodup then return (.object members, rest) else none
          else if first = byte '-' ∨ Bytes.isDigit first then do
            let (literal, rest) ← readNumber (first :: rest)
            return (.number literal, rest)
          else readName (first :: rest)

/-- Read the items of an array with its closing bracket. -/
def readItems : ℕ → Bytes → Option (List Json × Bytes)
  | 0, _ => none
  | fuel + 1, text => do
      let (item, rest) ← readValue fuel text
      match skipBlanks rest with
      | [] => none
      | first :: rest =>
          if first = byte ',' then do
            let (items, rest) ← readItems fuel rest
            return (item :: items, rest)
          else if first = byte ']' then return ([item], rest)
          else none

/-- Read the members of an object with its closing brace. -/
def readMembers : ℕ → Bytes → Option (List (Bytes × Json) × Bytes)
  | 0, _ => none
  | fuel + 1, text => do
      let (key, rest) ← readKey text
      let (value, rest) ← readValue fuel rest
      match skipBlanks rest with
      | [] => none
      | first :: rest =>
          if first = byte ',' then do
            let (members, rest) ← readMembers fuel rest
            return ((key, value) :: members, rest)
          else if first = byte '\x7d' then return ([(key, value)], rest)
          else none

end

/-- Read a whole text (`std.json.parseFromSlice` with the default options). -/
def parse (text : Bytes) : Option Json :=
  if Utf8.valid text then do
    let (value, rest) ← readValue (text.length + 1) text
    if (skipBlanks rest).isEmpty then return value else none
  else none

def get? (members : List (Bytes × Json)) (name : Bytes) : Option Json :=
  members.lookup name

/-- The integer of a value, if it is a number that is written as one and fits in 64 bits. -/
def integer? : Json → Option ℤ
  | .number literal =>
      if literal = ascii "-0" ∨ literal.any (fun value => (ascii ".eE").contains value) then none
      else Bytes.parseInt (-2 ^ 63) (2 ^ 63 - 1) literal
  | _ => none

/-- The text of a string. -/
def string? : Json → Option Bytes
  | .string text => some text
  | _ => none

/-- The value of a boolean. -/
def bool? : Json → Option Bool
  | .bool value => some value
  | _ => none

/-!
## Rules for strings
-/

variable {body text rest : Bytes} {value : Json} {first : UInt8}

/-- The reader takes `body` for the inside of a string that denotes `text`. -/
def ReadsText (body text : Bytes) : Prop :=
  ∀ fuel rest, body.length < fuel →
    readChars fuel (body ++ byte '"' :: rest) = some (text, rest)

theorem ReadsText.nil : ReadsText [] [] := by
  intro fuel rest enough
  cases fuel with
  | zero => exact absurd enough (Nat.lt_irrefl 0)
  | succ fuel => rfl

theorem ReadsText.cons {raw char : Bytes} (reads : ReadsText body text)
    (notQuote : ∃ value tail, raw = value :: tail ∧ value ≠ byte '"')
    (readsChar : ∀ rest, readChar (raw ++ rest) = some (char, rest)) :
    ReadsText (raw ++ body) (char ++ text) := by
  intro fuel rest enough
  rcases notQuote with ⟨value, tail, rfl, notQuote⟩
  cases fuel with
  | zero => exact absurd enough (Nat.not_lt_zero _)
  | succ fuel =>
      have shorter : body.length < fuel := by
        simp only [List.length_append, List.length_cons] at enough
        omega
      have other : (value :: tail ++ body ++ byte '"' :: rest).head? ≠ some (byte '"') := by
        simpa using notQuote
      rw [readChars, if_neg other, List.append_assoc, readsChar]
      simp only [Option.bind_eq_bind, Option.bind_some, reads fuel rest shorter]
      rfl

theorem ReadsText.plain {value : UInt8} (reads : ReadsText body text) (quote : value ≠ byte '"')
    (backslash : value ≠ byte '\\') (control : ¬ value < 0x20) :
    ReadsText (value :: body) (value :: text) := by
  have readsChar (rest : Bytes) : readChar ([value] ++ rest) = some ([value], rest) := by
    simp only [List.singleton_append, readChar, if_neg backslash, if_neg control]
  exact reads.cons ⟨value, [], rfl, quote⟩ readsChar

theorem ReadsText.escape {letter value : UInt8} (reads : ReadsText body text)
    (denotes : escapeValue letter = some value) (other : letter ≠ byte 'u') :
    ReadsText (byte '\\' :: letter :: body) (value :: text) := by
  have readsChar (rest : Bytes) :
      readChar ([byte '\\', letter] ++ rest) = some ([value], rest) := by
    simp only [List.cons_append, List.nil_append, readChar, if_true, if_neg other, denotes,
      Option.map_some]
  exact reads.cons ⟨byte '\\', [letter], rfl, by decide⟩ readsChar

theorem ReadsText.flatMap {escape : UInt8 → Bytes}
    (reads : ∀ value body text, ReadsText body text →
      ReadsText (escape value ++ body) (value :: text)) (text : Bytes) :
    ReadsText (text.flatMap escape) text := by
  induction text with
  | nil => exact .nil
  | cons value rest ih => exact reads value _ _ ih

/-!
## Rules for values
-/

/-- What may follow a number: nothing that could belong to it. -/
def Ends (rest : Bytes) : Prop :=
  ∀ value, rest.head? = some value →
    Bytes.isDigit value = false ∧ value ≠ byte '.' ∧ value ≠ byte 'e' ∧ value ≠ byte 'E'

/-- The reader takes `text` for `value`. -/
def Reads (text : Bytes) (value : Json) : Prop :=
  ∀ fuel rest, text.length < fuel → Ends rest →
    readValue fuel (text ++ rest) = some (value, rest)

/-- The reader takes `body`, with its closing bracket, for items. -/
def ReadsItems (body : Bytes) (items : List Json) : Prop :=
  ∀ fuel rest, body.length < fuel → readItems fuel (body ++ rest) = some (items, rest)

/-- The reader takes `body`, with its closing brace, for members. -/
def ReadsMembers (body : Bytes) (members : List (Bytes × Json)) : Prop :=
  ∀ fuel rest, body.length < fuel → readMembers fuel (body ++ rest) = some (members, rest)

theorem skipBlanks_append (blank : text.all isBlank = true) :
    skipBlanks (text ++ rest) = skipBlanks rest := by
  rw [skipBlanks, skipBlanks]
  exact List.dropWhile_append_of_pos (by simpa using blank)

theorem skipBlanks_cons (solid : isBlank first = false) :
    skipBlanks (first :: rest) = first :: rest := by
  rw [skipBlanks, List.dropWhile_cons, solid]
  rfl

theorem ends_of_isBlank (blank : isBlank first = true) : Ends (first :: rest) := by
  intro value head
  cases head
  simp only [isBlank, Bool.or_eq_true, beq_iff_eq] at blank
  rcases blank with ((rfl | rfl) | rfl) | rfl <;> decide

theorem ends_of_punctuation (closes : first = byte ',' ∨ first = byte ']' ∨ first = byte '\x7d') :
    Ends (first :: rest) := by
  intro value head
  cases head
  rcases closes with rfl | rfl | rfl <;> decide

theorem ends_append (blank : text.all isBlank = true) (ends : Ends rest) : Ends (text ++ rest) := by
  cases text with
  | nil => exact ends
  | cons first text => exact ends_of_isBlank (by simp at blank; exact blank.1)

theorem readValue_append (fuel : ℕ) (blank : text.all isBlank = true) :
    readValue fuel (text ++ rest) = readValue fuel rest := by
  cases fuel with
  | zero => rfl
  | succ fuel => rw [readValue, readValue, skipBlanks_append blank]

theorem Reads.blanks {blank : Bytes} (reads : Reads text value)
    (isBlanks : blank.all isBlank = true) : Reads (blank ++ text) value := by
  intro fuel rest enough ends
  rw [List.append_assoc, readValue_append fuel isBlanks]
  refine reads fuel rest ?_ ends
  rw [List.length_append] at enough
  omega

theorem Reads.string (reads : ReadsText body text) :
    Reads (byte '"' :: (body ++ [byte '"'])) (.string text) := by
  intro fuel rest enough _
  cases fuel with
  | zero => exact absurd enough (Nat.not_lt_zero _)
  | succ fuel =>
      have readsString : readString (body ++ byte '"' :: rest) = some (text, rest) :=
        reads _ rest (by rw [List.length_append]; omega)
      have solid : isBlank (byte '"') = false := rfl
      simp only [List.cons_append, List.append_assoc, List.nil_append, readValue,
        skipBlanks_cons solid, if_true, readsString]
      rfl

theorem Reads.null : Reads (ascii "null") .null := by
  intro fuel rest enough _
  cases fuel with
  | zero => exact absurd enough (Nat.not_lt_zero _)
  | succ fuel => rfl

theorem Reads.bool (flag : Bool) : Reads (if flag then ascii "true" else ascii "false") (.bool flag) := by
  intro fuel rest enough _
  cases fuel with
  | zero => exact absurd enough (Nat.not_lt_zero _)
  | succ fuel => cases flag <;> rfl

theorem readDigits_append {digits : Bytes} (nonempty : digits ≠ [])
    (isDigits : ∀ digit ∈ digits, Bytes.isDigit digit = true) (ends : Ends rest) :
    readDigits (digits ++ rest) = some (digits, rest) := by
  have stops : rest.takeWhile Bytes.isDigit = [] ∧ rest.dropWhile Bytes.isDigit = rest := by
    cases rest with
    | nil => exact ⟨rfl, rfl⟩
    | cons first rest =>
        have stop := (ends first rfl).1
        rw [List.takeWhile_cons, List.dropWhile_cons, stop]
        exact ⟨rfl, rfl⟩
  have unempty : digits.isEmpty = false := by simpa using nonempty
  rw [readDigits, List.takeWhile_append_of_pos isDigits, List.dropWhile_append_of_pos isDigits,
    stops.1, stops.2, List.append_nil, unempty]
  rfl

theorem readWhole_decimal (number : ℕ) (ends : Ends rest) :
    readWhole (Bytes.decimal number ++ rest) = some (Bytes.decimal number, rest) := by
  have noZero : ¬ ((Bytes.decimal number).head? = some (byte '0') ∧
      1 < (Bytes.decimal number).length) := by
    rintro ⟨zero, long⟩
    cases number with
    | zero =>
        rw [Bytes.decimal_of_lt (by decide)] at long
        exact absurd long (by decide)
    | succ number => exact Bytes.head?_decimal (Nat.succ_pos _) zero
  have digits : readDigits (Bytes.decimal number ++ rest) = some (Bytes.decimal number, rest) :=
    readDigits_append Bytes.decimal_ne_nil Bytes.isDigit_of_mem_decimal ends
  simp only [readWhole, digits, Option.bind_eq_bind, Option.bind_some, if_neg noZero]
  rfl

theorem readNumber_decimalInt (number : ℤ) (ends : Ends rest) :
    readNumber (Bytes.decimalInt number ++ rest) = some (Bytes.decimalInt number, rest) := by
  have noFraction : readFraction rest = some ([], rest) :=
    if_neg fun head => (ends _ head).2.1 rfl
  have noExponent : readExponent rest = some ([], rest) :=
    if_neg fun head => head.elim (fun lower => (ends _ lower).2.2.1 rfl)
      (fun upper => (ends _ upper).2.2.2 rfl)
  have whole := readWhole_decimal number.natAbs ends
  rw [Bytes.decimalInt]
  split
  case isTrue =>
      simp only [readNumber, List.cons_append, List.head?_cons, if_true, List.length_singleton,
        List.drop_succ_cons, List.drop_zero, whole, noFraction, noExponent, Option.bind_eq_bind,
        Option.bind_some, List.append_nil]
      rfl
  case isFalse =>
      have noSign : (Bytes.decimal number.natAbs ++ rest).head? ≠ some (byte '-') := by
        cases shape : Bytes.decimal number.natAbs with
        | nil => exact absurd shape Bytes.decimal_ne_nil
        | cons first digits =>
            intro head
            have digit := Bytes.isDigit_of_mem_decimal first (shape ▸ List.mem_cons_self ..)
            rw [Option.some.inj head] at digit
            cases digit
      simp only [readNumber, if_neg noSign, List.length_nil, List.drop_zero, whole, noFraction,
        noExponent, Option.bind_eq_bind, Option.bind_some, List.append_nil, List.nil_append]
      rfl

theorem decimalInt_eq_cons (number : ℤ) : ∃ first digits,
    Bytes.decimalInt number = first :: digits ∧
      (first = byte '-' ∨ Bytes.isDigit first = true) := by
  rw [Bytes.decimalInt]
  split
  case isTrue => exact ⟨_, _, rfl, .inl rfl⟩
  case isFalse =>
      cases shape : Bytes.decimal number.natAbs with
      | nil => exact absurd shape Bytes.decimal_ne_nil
      | cons first digits =>
          exact ⟨first, digits, rfl,
            .inr (Bytes.isDigit_of_mem_decimal first (shape ▸ List.mem_cons_self ..))⟩

theorem not_special {first : UInt8} (starts : first = byte '-' ∨ Bytes.isDigit first = true) :
    isBlank first = false ∧ first ≠ byte '"' ∧ first ≠ byte '[' ∧ first ≠ byte '\x7b' := by
  rcases starts with rfl | digit
  · decide
  · refine ⟨?_, ?_, ?_, ?_⟩
    · cases blank : isBlank first with
      | false => rfl
      | true =>
          simp only [isBlank, Bool.or_eq_true, beq_iff_eq] at blank
          rcases blank with ((rfl | rfl) | rfl) | rfl <;> cases digit
    all_goals
      rintro rfl
      cases digit

theorem Reads.int (number : ℤ) :
    Reads (Bytes.decimalInt number) (.number (Bytes.decimalInt number)) := by
  intro fuel rest enough ends
  cases fuel with
  | zero => exact absurd enough (Nat.not_lt_zero _)
  | succ fuel =>
      have reads := readNumber_decimalInt number ends
      rcases decimalInt_eq_cons number with ⟨first, digits, shape, starts⟩
      rcases not_special starts with ⟨solid, quote, bracket, brace⟩
      rw [shape] at reads ⊢
      simp only [List.cons_append] at reads
      simp only [List.cons_append, readValue, skipBlanks_cons solid, if_neg quote, if_neg bracket,
        if_neg brace, if_pos starts, reads]
      rfl

theorem integer?_decimalInt {number : ℤ} (above : -2 ^ 63 ≤ number) (below : number ≤ 2 ^ 63 - 1) :
    (Json.number (Bytes.decimalInt number)).integer? = some number := by
  have digits : ∀ digit ∈ Bytes.decimalInt number,
      digit = byte '-' ∨ Bytes.isDigit digit = true := by
    intro digit mem
    rw [Bytes.decimalInt] at mem
    split at mem
    case isTrue =>
        exact (List.mem_cons.mp mem).imp_right (Bytes.isDigit_of_mem_decimal digit)
    case isFalse => exact .inr (Bytes.isDigit_of_mem_decimal digit mem)
  have noPoint : (Bytes.decimalInt number).any (fun value => (ascii ".eE").contains value) =
      false := by
    rw [List.any_eq_false]
    intro digit mem point
    have points : digit = byte '.' ∨ digit = byte 'e' ∨ digit = byte 'E' := by
      simpa [ascii] using point
    rcases digits digit mem with rfl | isDigit
    · exact absurd points (by decide)
    · rcases points with rfl | rfl | rfl <;> cases isDigit
  have noZero : Bytes.decimalInt number ≠ ascii "-0" := by
    intro same
    rw [Bytes.decimalInt] at same
    split at same
    case isTrue negative =>
        have zero : (Bytes.decimal number.natAbs).head? = some (byte '0') := by
          rw [(List.cons.inj same).2]
          rfl
        exact Bytes.head?_decimal (by omega) zero
    case isFalse =>
        have mem : byte '-' ∈ Bytes.decimal number.natAbs := by
          rw [same]
          exact List.mem_cons_self ..
        cases Bytes.isDigit_of_mem_decimal _ mem
  have whole : ¬ (Bytes.decimalInt number = ascii "-0" ∨
      (Bytes.decimalInt number).any (fun value => (ascii ".eE").contains value) = true) := by
    rw [noPoint]
    exact fun either => either.elim noZero Bool.noConfusion
  rw [integer?, if_neg whole, Bytes.parseInt_decimalInt above below]

theorem ReadsItems.last {blank : Bytes} (reads : Reads text value)
    (isBlanks : blank.all isBlank = true) :
    ReadsItems (text ++ (blank ++ [byte ']'])) [value] := by
  intro fuel rest enough
  cases fuel with
  | zero => exact absurd enough (Nat.not_lt_zero _)
  | succ fuel =>
      have shorter : text.length < fuel := by
        simp only [List.length_append, List.length_cons] at enough
        omega
      have readsValue := reads fuel (blank ++ byte ']' :: rest) shorter
        (ends_append isBlanks (ends_of_punctuation (.inr (.inl rfl))))
      have solid : isBlank (byte ']') = false := rfl
      have other : byte ']' ≠ byte ',' := by decide
      simp only [List.append_assoc, List.singleton_append, readItems, readsValue,
        Option.bind_eq_bind, Option.bind_some, skipBlanks_append isBlanks, skipBlanks_cons solid,
        if_neg other, if_true]
      rfl

theorem ReadsItems.cons {items : List Json} (reads : Reads text value)
    (later : ReadsItems body items) : ReadsItems (text ++ byte ',' :: body) (value :: items) := by
  intro fuel rest enough
  cases fuel with
  | zero => exact absurd enough (Nat.not_lt_zero _)
  | succ fuel =>
      have shorter : text.length < fuel ∧ body.length < fuel := by
        simp only [List.length_append, List.length_cons] at enough
        omega
      have readsValue := reads fuel (byte ',' :: (body ++ rest)) shorter.1
        (ends_of_punctuation (.inl rfl))
      have solid : isBlank (byte ',') = false := rfl
      simp only [List.append_assoc, List.cons_append, readItems, readsValue,
        Option.bind_eq_bind, Option.bind_some, skipBlanks_cons solid, if_true,
        later fuel rest shorter.2]
      rfl

theorem readItems_of_bracket (fuel : ℕ) (closed : (skipBlanks text).head? = some (byte ']')) :
    readItems fuel text = none := by
  cases fuel with
  | zero => rfl
  | succ fuel =>
      cases fuel with
      | zero => rfl
      | succ fuel =>
          rcases List.head?_eq_some_iff.mp closed with ⟨after, shape⟩
          have noValue : readValue (fuel + 1) text = none := by
            rw [readValue, shape]
            rfl
          rw [readItems, noValue]
          rfl

theorem Reads.array {items : List Json} (reads : ReadsItems body items) :
    Reads (byte '[' :: body) (.array items) := by
  intro fuel rest enough _
  cases fuel with
  | zero => exact absurd enough (Nat.not_lt_zero _)
  | succ fuel =>
      have readsAll := reads fuel rest (by rw [List.length_cons] at enough; omega)
      have opened : (skipBlanks (body ++ rest)).head? ≠ some (byte ']') := by
        intro closed
        rw [readItems_of_bracket fuel closed] at readsAll
        cases readsAll
      have solid : isBlank (byte '[') = false := rfl
      have other : byte '[' ≠ byte '"' := by decide
      simp only [List.cons_append, readValue, skipBlanks_cons solid, if_neg other, if_true,
        if_neg opened, readsAll]
      rfl

theorem Reads.emptyArray {blank : Bytes} (isBlanks : blank.all isBlank = true) :
    Reads (byte '[' :: (blank ++ [byte ']'])) (.array []) := by
  intro fuel rest enough _
  cases fuel with
  | zero => exact absurd enough (Nat.not_lt_zero _)
  | succ fuel =>
      have solid : isBlank (byte '[') = false ∧ isBlank (byte ']') = false := ⟨rfl, rfl⟩
      have other : byte '[' ≠ byte '"' := by decide
      simp only [List.cons_append, List.append_assoc, List.nil_append, readValue,
        skipBlanks_cons solid.1, if_neg other, if_true, skipBlanks_append isBlanks,
        skipBlanks_cons solid.2, List.head?_cons, List.tail_cons]

theorem readKey_cons {key : Bytes} (reads : ReadsText body key) (rest : Bytes) :
    readKey (byte '"' :: (body ++ byte '"' :: byte ':' :: rest)) = some (key, rest) := by
  have readsString : readString (body ++ byte '"' :: byte ':' :: rest) =
      some (key, byte ':' :: rest) := reads _ _ (by rw [List.length_append]; omega)
  have solid : isBlank (byte '"') = false ∧ isBlank (byte ':') = false := ⟨rfl, rfl⟩
  simp only [readKey, skipBlanks_cons solid.1, if_true, readsString, Option.bind_eq_bind,
    Option.bind_some, skipBlanks_cons solid.2]
  rfl

theorem readMembers_succ (fuel : ℕ) (text : Bytes) : readMembers (fuel + 1) text = (do
    let (key, rest) ← readKey text
    let (value, rest) ← readValue fuel rest
    match skipBlanks rest with
    | [] => none
    | first :: rest =>
        if first = byte ',' then do
          let (members, rest) ← readMembers fuel rest
          return ((key, value) :: members, rest)
        else if first = byte '\x7d' then return ([(key, value)], rest)
        else none) := rfl

theorem ReadsMembers.last {keyBody key : Bytes} (readsKey : ReadsText keyBody key)
    (reads : Reads text value) :
    ReadsMembers (byte '"' :: (keyBody ++ byte '"' :: byte ':' :: (text ++ [byte '\x7d'])))
      [(key, value)] := by
  intro fuel rest enough
  cases fuel with
  | zero => exact absurd enough (Nat.not_lt_zero _)
  | succ fuel =>
      have shorter : text.length < fuel := by
        simp only [List.length_append, List.length_cons] at enough
        omega
      have readsValue := reads fuel (byte '\x7d' :: rest) shorter
        (ends_of_punctuation (.inr (.inr rfl)))
      have solid : isBlank (byte '\x7d') = false := rfl
      have other : byte '\x7d' ≠ byte ',' := by decide
      simp only [List.append_assoc, List.cons_append, List.nil_append, readMembers_succ,
        readKey_cons readsKey, readsValue, Option.bind_eq_bind, Option.bind_some,
        skipBlanks_cons solid, if_neg other, if_true]
      rfl

theorem ReadsMembers.cons {keyBody key : Bytes} {members : List (Bytes × Json)}
    (readsKey : ReadsText keyBody key) (reads : Reads text value)
    (later : ReadsMembers body members) :
    ReadsMembers (byte '"' :: (keyBody ++ byte '"' :: byte ':' :: (text ++ byte ',' :: body)))
      ((key, value) :: members) := by
  intro fuel rest enough
  cases fuel with
  | zero => exact absurd enough (Nat.not_lt_zero _)
  | succ fuel =>
      have shorter : text.length < fuel ∧ body.length < fuel := by
        simp only [List.length_append, List.length_cons] at enough
        omega
      have readsValue := reads fuel (byte ',' :: (body ++ rest)) shorter.1
        (ends_of_punctuation (.inl rfl))
      have solid : isBlank (byte ',') = false := rfl
      simp only [List.append_assoc, List.cons_append, readMembers_succ, readKey_cons readsKey,
        readsValue, Option.bind_eq_bind, Option.bind_some, skipBlanks_cons solid, if_true,
        later fuel rest shorter.2]
      rfl

theorem readMembers_of_brace (fuel : ℕ) (closed : (skipBlanks text).head? = some (byte '\x7d')) :
    readMembers fuel text = none := by
  cases fuel with
  | zero => rfl
  | succ fuel =>
      rcases List.head?_eq_some_iff.mp closed with ⟨after, shape⟩
      have noKey : readKey text = none := by
        rw [readKey, shape]
        rfl
      rw [readMembers_succ, noKey]
      rfl

theorem Reads.object {members : List (Bytes × Json)} (reads : ReadsMembers body members)
    (distinct : (members.map Prod.fst).Nodup) :
    Reads (byte '\x7b' :: body) (.object members) := by
  intro fuel rest enough _
  cases fuel with
  | zero => exact absurd enough (Nat.not_lt_zero _)
  | succ fuel =>
      have readsAll := reads fuel rest (by rw [List.length_cons] at enough; omega)
      have opened : (skipBlanks (body ++ rest)).head? ≠ some (byte '\x7d') := by
        intro closed
        rw [readMembers_of_brace fuel closed] at readsAll
        cases readsAll
      have solid : isBlank (byte '\x7b') = false := rfl
      have other : byte '\x7b' ≠ byte '"' ∧ byte '\x7b' ≠ byte '[' := by decide
      simp only [List.cons_append, readValue, skipBlanks_cons solid, if_neg other.1,
        if_neg other.2, if_true, if_neg opened, readsAll, Option.bind_eq_bind, Option.bind_some,
        if_pos distinct]
      rfl

theorem parse_of_reads {blank : Bytes} (reads : Reads text value)
    (isBlanks : blank.all isBlank = true) (valid : Utf8.valid (text ++ blank) = true) :
    parse (text ++ blank) = some value := by
  have ends : Ends blank := by
    have nothing : Ends [] := fun value head => by cases head
    simpa using ends_append isBlanks nothing
  have readsAll := reads ((text ++ blank).length + 1) blank
    (by rw [List.length_append]; omega) ends
  have trailing : skipBlanks (blank ++ []) = skipBlanks [] := skipBlanks_append isBlanks
  rw [List.append_nil] at trailing
  rw [parse, if_pos valid, readsAll]
  simp only [Option.bind_eq_bind, Option.bind_some, trailing]
  rfl

theorem parse_of_not_valid (invalid : Utf8.valid text = false) : parse text = none := by
  rw [parse, invalid]
  rfl

end Json
