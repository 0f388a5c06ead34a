import Nullalis.Base.Json

/-!
# The printers for JSON

Each function is the bytes that its namesake appends to the buffer. What they print is what
the reader takes for the same text, and it is UTF-8 if and only if the text is: bytes above
ASCII are copied as they are.
-/

namespace Nullalis.JsonUtil

def hexDigit (value : ℕ) : UInt8 :=
  if value < 10 then UInt8.ofNat (48 + value) else UInt8.ofNat (87 + value)

/-- A byte inside of a string. -/
def escapeByte (value : UInt8) : Bytes :=
  if value = byte '"' then ascii "\\\""
  else if value = byte '\\' then ascii "\\\\"
  else if value = byte '\n' then ascii "\\n"
  else if value = byte '\r' then ascii "\\r"
  else if value = byte '\t' then ascii "\\t"
  else if value < 0x20 then
    ascii "\\u00" ++ [hexDigit (value.toNat / 16), hexDigit (value.toNat % 16)]
  else [value]

def appendJsonString (text : Bytes) : Bytes :=
  byte '"' :: (text.flatMap escapeByte ++ [byte '"'])

def appendJsonKey (key : Bytes) : Bytes :=
  appendJsonString key ++ ascii ":"

def appendJsonKeyValue (key value : Bytes) : Bytes :=
  appendJsonKey key ++ appendJsonString value

def appendJsonInt (key : Bytes) (value : ℤ) : Bytes :=
  appendJsonKey key ++ Bytes.decimalInt value

/-- An object with these fields, each a name with its value. -/
def appendJsonFields (fields : List Bytes) : Bytes :=
  ascii "\x7b" ++ List.intercalate (ascii ",") fields ++ ascii "\x7d"

variable {text rest : Bytes} {value : UInt8}

theorem hexValue_hexDigit {number : ℕ} (small : number < 16) :
    Json.hexValue (hexDigit number) = some number := by
  interval_cases number <;> rfl

theorem readUnicode_control (control : value < 0x20) :
    Json.readUnicode (byte '0' :: byte '0' :: hexDigit (value.toNat / 16) ::
      hexDigit (value.toNat % 16) :: rest) = some ([value], rest) := by
  have small : value.toNat < 32 := control
  have zero : Json.hexValue (byte '0') = some 0 := rfl
  have high : Json.hexValue (hexDigit (value.toNat / 16)) = some (value.toNat / 16) :=
    hexValue_hexDigit (by omega)
  have low : Json.hexValue (hexDigit (value.toNat % 16)) = some (value.toNat % 16) :=
    hexValue_hexDigit (by omega)
  have code : Json.readHex (byte '0' :: byte '0' :: hexDigit (value.toNat / 16) ::
      hexDigit (value.toNat % 16) :: rest) = some (value.toNat, rest) := by
    simp only [Json.readHex, zero, high, low, Option.bind_eq_bind, Option.bind_some,
      List.foldl_cons, List.foldl_nil]
    have sum : 16 * (16 * (16 * (16 * 0 + 0) + 0) + value.toNat / 16) + value.toNat % 16 =
        value.toNat := by omega
    rw [sum]
    rfl
  have plain : ¬ (0xD800 ≤ value.toNat ∧ value.toNat < 0xDC00) ∧
      ¬ (0xDC00 ≤ value.toNat ∧ value.toNat < 0xE000) ∧ value.toNat < 0x80 := by omega
  simp only [Json.readUnicode, code, Option.bind_eq_bind, Option.bind_some, if_neg plain.1,
    if_neg plain.2.1, Json.encode, if_pos plain.2.2, UInt8.ofNat_toNat]
  rfl

theorem readsText_escapeByte {body : Bytes} (value : UInt8) (reads : Json.ReadsText body text) :
    Json.ReadsText (escapeByte value ++ body) (value :: text) := by
  rw [escapeByte]
  split
  case isTrue quote => exact quote ▸ reads.escape rfl (by decide)
  case isFalse quote =>
  split
  case isTrue backslash => exact backslash ▸ reads.escape rfl (by decide)
  case isFalse backslash =>
  split
  case isTrue newline => exact newline ▸ reads.escape rfl (by decide)
  case isFalse =>
  split
  case isTrue return' => exact return' ▸ reads.escape rfl (by decide)
  case isFalse =>
  split
  case isTrue tab => exact tab ▸ reads.escape rfl (by decide)
  case isFalse =>
  split
  case isTrue control =>
      have notQuote : ∃ first tail, ascii "\\u00" ++ [hexDigit (value.toNat / 16),
          hexDigit (value.toNat % 16)] = first :: tail ∧ first ≠ byte '"' :=
        ⟨byte '\\', _, rfl, by decide⟩
      exact reads.cons notQuote fun _ => readUnicode_control control
  case isFalse control => exact reads.plain quote backslash control

theorem readsText_escaped (text : Bytes) : Json.ReadsText (text.flatMap escapeByte) text :=
  .flatMap (fun value _ _ reads => readsText_escapeByte value reads) text

theorem reads_appendJsonString (text : Bytes) :
    Json.Reads (appendJsonString text) (.string text) :=
  .string (readsText_escaped text)

/-- A field is a name with the text of a value. -/
def ReadsField (field : Bytes) (member : Bytes × Json) : Prop :=
  ∃ text, field = appendJsonKey member.1 ++ text ∧ Json.Reads text member.2

theorem readsField_keyValue (key value : Bytes) :
    ReadsField (appendJsonKeyValue key value) (key, .string value) :=
  ⟨_, rfl, reads_appendJsonString value⟩

theorem readsField_int (key : Bytes) (value : ℤ) :
    ReadsField (appendJsonInt key value) (key, .number (Bytes.decimalInt value)) :=
  ⟨_, rfl, .int value⟩

theorem readsMembers_fields {fields : List Bytes} {members : List (Bytes × Json)}
    (reads : List.Forall₂ ReadsField fields members) (nonempty : fields ≠ []) :
    Json.ReadsMembers (List.intercalate (ascii ",") fields ++ ascii "\x7d") members := by
  induction reads with
  | nil => exact absurd rfl nonempty
  | @cons field member fields members readsField later ih =>
      rcases readsField with ⟨text, rfl, reads⟩
      cases later with
      | nil =>
          have last := Json.ReadsMembers.last (readsText_escaped member.1) reads
          simpa [appendJsonKey, appendJsonString, ascii, List.intercalate] using last
      | cons second rest =>
          have more := Json.ReadsMembers.cons (readsText_escaped member.1) reads
            (ih (List.cons_ne_nil _ _))
          simpa [appendJsonKey, appendJsonString, ascii, List.intercalate] using more

theorem reads_appendJsonFields {fields : List Bytes} {members : List (Bytes × Json)}
    (reads : List.Forall₂ ReadsField fields members) (nonempty : fields ≠ [])
    (distinct : (members.map Prod.fst).Nodup) :
    Json.Reads (appendJsonFields fields) (.object members) := by
  rw [appendJsonFields, List.append_assoc]
  exact .object (readsMembers_fields reads nonempty) distinct

/-!
## Lines
-/

theorem not_control_of_mem_escapeByte {letter : UInt8} (mem : letter ∈ escapeByte value) :
    ¬letter < 0x20 := by
  have listed {text : Bytes} (plain : (text.all fun letter => !decide (letter < 0x20)) = true)
      (mem : letter ∈ text) : ¬letter < 0x20 := by
    simpa using List.all_eq_true.mp plain letter mem
  rw [escapeByte] at mem
  split at mem
  case isTrue => exact listed (by decide) mem
  case isFalse =>
  split at mem
  case isTrue => exact listed (by decide) mem
  case isFalse =>
  split at mem
  case isTrue => exact listed (by decide) mem
  case isFalse =>
  split at mem
  case isTrue => exact listed (by decide) mem
  case isFalse =>
  split at mem
  case isTrue => exact listed (by decide) mem
  case isFalse =>
  split at mem
  case isTrue control =>
      have small : value.toNat < 32 := control
      have digits : ∀ number < 32, ((ascii "\\u00" ++ [hexDigit (number / 16),
          hexDigit (number % 16)]).all fun letter => !decide (letter < 0x20)) = true := by
        decide
      exact listed (digits value.toNat small) mem
  case isFalse plain => exact List.mem_singleton.mp mem ▸ plain

theorem newline_not_mem_appendJsonString (text : Bytes) : byte '\n' ∉ appendJsonString text := by
  intro mem
  simp only [appendJsonString, List.mem_cons, List.mem_append, List.mem_flatMap] at mem
  rcases mem with quote | ⟨value, _, mem⟩ | quote
  · cases quote
  · exact not_control_of_mem_escapeByte mem (by decide)
  · simp [byte] at quote

theorem newline_not_mem_appendJsonFields {fields : List Bytes}
    (lines : ∀ field ∈ fields, byte '\n' ∉ field) : byte '\n' ∉ appendJsonFields fields := by
  have separated : byte '\n' ∉ List.intercalate (ascii ",") fields := by
    induction fields with
    | nil => simp [List.intercalate]
    | cons field rest ih =>
        have later := ih fun other mem => lines other (List.mem_cons_of_mem _ mem)
        have first := lines field List.mem_cons_self
        cases rest with
        | nil => simpa [List.intercalate] using first
        | cons second rest =>
            rw [List.intercalate_cons_cons, List.mem_append, List.mem_append]
            rintro ((mem | mem) | mem)
            · exact first mem
            · revert mem
              decide
            · exact later mem
  rw [appendJsonFields, List.mem_append, List.mem_append]
  rintro ((mem | mem) | mem)
  · revert mem
    decide
  · exact separated mem
  · revert mem
    decide

/-!
## UTF-8
-/

theorem isAscii_hexDigit {number : ℕ} (small : number < 16) :
    Utf8.isAscii (hexDigit number) = true := by
  interval_cases number <;> rfl

theorem escapeByte_spec : Utf8.Copies escapeByte := by
  intro value
  by_cases quote : value = byte '"'
  · exact .inr (quote ▸ by decide)
  by_cases backslash : value = byte '\\'
  · exact .inr (backslash ▸ by decide)
  by_cases newline : value = byte '\n'
  · exact .inr (newline ▸ by decide)
  by_cases return' : value = byte '\r'
  · exact .inr (return' ▸ by decide)
  by_cases tab : value = byte '\t'
  · exact .inr (tab ▸ by decide)
  rw [escapeByte, if_neg quote, if_neg backslash, if_neg newline, if_neg return', if_neg tab]
  split
  case isFalse => exact .inl rfl
  case isTrue control =>
      have small : value.toNat < 32 := control
      have below : value.toNat < 128 := by omega
      have start : (ascii "\\u00").all Utf8.isAscii = true := rfl
      refine .inr ⟨decide_eq_true below, List.cons_ne_nil _ _, ?_⟩
      rw [List.all_append, start, List.all_cons, List.all_cons, List.all_nil,
        isAscii_hexDigit (by omega), isAscii_hexDigit (by omega)]
      rfl

theorem valid_escaped (text : Bytes) :
    Utf8.valid (text.flatMap escapeByte) = Utf8.valid text :=
  Utf8.valid_flatMap escapeByte_spec text

@[simp]
theorem valid_appendJsonString (text rest : Bytes) :
    Utf8.valid (appendJsonString text ++ rest) = (Utf8.valid text && Utf8.valid rest) := by
  have quote : Utf8.isAscii (byte '"') = true := rfl
  rw [appendJsonString, List.cons_append, Utf8.valid_cons quote, List.append_assoc,
    List.singleton_append, Utf8.valid_append_cons quote, valid_escaped]

theorem valid_intercalate {first : UInt8} {separator : Bytes} (plain : Utf8.isAscii first = true)
    (allPlain : separator.all Utf8.isAscii = true) (texts : List Bytes) :
    Utf8.valid (List.intercalate (first :: separator) texts) = texts.all Utf8.valid := by
  induction texts with
  | nil => rfl
  | cons text rest ih =>
      cases rest with
      | nil => simp [List.intercalate]
      | cons second rest =>
          rw [List.intercalate_cons_cons, List.append_assoc, List.cons_append,
            Utf8.valid_append_cons plain, Utf8.valid_append allPlain, ih]
          rfl

theorem valid_appendJsonFields (fields : List Bytes) :
    Utf8.valid (appendJsonFields fields) = fields.all Utf8.valid := by
  have opened : (ascii "\x7b").all Utf8.isAscii = true := rfl
  have closed : Utf8.valid (List.intercalate (ascii ",") fields ++ ascii "\x7d") =
      (Utf8.valid (List.intercalate (ascii ",") fields) && Utf8.valid []) :=
    Utf8.valid_append_cons rfl
  have separated : Utf8.valid (List.intercalate (ascii ",") fields) = fields.all Utf8.valid :=
    valid_intercalate rfl rfl fields
  rw [appendJsonFields, List.append_assoc, Utf8.valid_append opened, closed, separated,
    Utf8.valid_nil, Bool.and_true]

theorem valid_appendJsonKey {key : Bytes} (plain : Utf8.valid key = true) (text : Bytes) :
    Utf8.valid (appendJsonKey key ++ text) = Utf8.valid text := by
  have colon : (ascii ":").all Utf8.isAscii = true := rfl
  rw [appendJsonKey, List.append_assoc, valid_appendJsonString, plain, Bool.true_and,
    Utf8.valid_append colon]

theorem valid_appendJsonKeyValue {key : Bytes} (plain : Utf8.valid key = true) (text : Bytes) :
    Utf8.valid (appendJsonKeyValue key text) = Utf8.valid text := by
  have whole := valid_appendJsonString text []
  rw [List.append_nil, Utf8.valid_nil, Bool.and_true] at whole
  rw [appendJsonKeyValue, valid_appendJsonKey plain, whole]

theorem valid_decimalInt (value : ℤ) : Utf8.valid (Bytes.decimalInt value) = true := by
  have digits : (Bytes.decimal value.natAbs).all Utf8.isAscii = true := by
    rw [List.all_eq_true]
    intro digit mem
    have isDigit := Bytes.isDigit_of_mem_decimal digit mem
    rw [Bytes.isDigit, Bool.and_eq_true, decide_eq_true_eq, decide_eq_true_eq] at isDigit
    exact decide_eq_true (UInt8.lt_of_le_of_lt isDigit.2 (by decide))
  refine Utf8.valid_of_isAscii ?_
  rw [Bytes.decimalInt]
  split
  · rw [List.all_cons, digits]
    rfl
  · exact digits

/-- Whatever texts the members of an object are, they are read back as they are. Texts that are not
UTF-8 make the object unreadable. -/
theorem parse_appendJsonFields {members : List (Bytes × Bytes)}
    (distinct : (members.map Prod.fst).Nodup) :
    Json.parse (appendJsonFields (members.map fun member => appendJsonKeyValue member.1 member.2)) =
      if members.all fun member => Utf8.valid member.1 && Utf8.valid member.2 then
        some (.object (members.map fun member => (member.1, .string member.2)))
      else none := by
  obtain rfl | nonempty := eq_or_ne members []
  · rfl
  have plain : Utf8.valid (appendJsonFields
      (members.map fun member => appendJsonKeyValue member.1 member.2)) =
      members.all fun member => Utf8.valid member.1 && Utf8.valid member.2 := by
    rw [valid_appendJsonFields, List.all_map]
    congr 1
    funext member
    have colon : (ascii ":").all Utf8.isAscii = true := rfl
    have value := valid_appendJsonString member.2 []
    rw [List.append_nil, Utf8.valid_nil, Bool.and_true] at value
    rw [Function.comp_apply, appendJsonKeyValue, appendJsonKey, List.append_assoc,
      valid_appendJsonString, Utf8.valid_append colon, value]
  split
  case isTrue valid =>
      have fields (members : List (Bytes × Bytes)) : List.Forall₂ ReadsField
          (members.map fun member => appendJsonKeyValue member.1 member.2)
          (members.map fun member => (member.1, .string member.2)) := by
        induction members with
        | nil => exact .nil
        | cons member rest ih => exact .cons (readsField_keyValue _ _) ih
      have reads := reads_appendJsonFields (fields members) (by simpa using nonempty)
        (by simpa [Function.comp_def] using distinct)
      have parsed := @Json.parse_of_reads _ _ [] reads rfl
      rw [List.append_nil] at parsed
      exact parsed (plain.trans valid)
  case isFalse invalid => exact Json.parse_of_not_valid (by simpa [plain] using invalid)

theorem parse_appendJsonFields_sample : Json.parse (appendJsonFields
    ([([34, 10], [92, 0])].map fun member => appendJsonKeyValue member.1 member.2)) =
      some (.object [([34, 10], .string [92, 0])]) :=
  parse_appendJsonFields (by decide)

end Nullalis.JsonUtil
