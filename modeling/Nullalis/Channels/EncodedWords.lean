import Mathlib.Data.List.Basic
import Nullalis.Base.Occurrence
import Nullalis.Channels.EmailMessage

/-!
# Encoded words

A header is written as encoded words of RFC 2047, separated by blanks or folded over several lines.
Every word decodes to its text. The blank between two words is kept, though it is part of the
encoding, so only a single word gives its text back.

A display name stands before the address of a sender. The address is what stands between the first
angle bracket of the decoded value and the next closing one.
-/

namespace Nullalis.Channels.Email

open Bytes (indexOf indexOfScalar splitScalar trim)

/-! ## Base64 -/

/-- A byte that an encoded word may have: printable, but no blank and no question mark. -/
def WordByte (value : UInt8) : Prop :=
  byte '!' ≤ value ∧ value ≤ byte '~' ∧ value ≠ byte '?'

instance (value : UInt8) : Decidable (WordByte value) :=
  inferInstanceAs (Decidable (_ ∧ _ ∧ _))

def base64Letter (value : ℕ) : UInt8 :=
  (ascii "ABCDEFGHIJKLMNOPQRSTUVWXYZabcdefghijklmnopqrstuvwxyz0123456789+/").getD value 0

/-- Three bytes are four letters. What is left at the end is padded. -/
def encodeBase64 : Bytes → Bytes
  | first :: second :: third :: rest =>
      base64Letter (first.toNat / 4) ::
        base64Letter (first.toNat % 4 * 16 + second.toNat / 16) ::
        base64Letter (second.toNat % 16 * 4 + third.toNat / 64) ::
        base64Letter (third.toNat % 64) :: encodeBase64 rest
  | [first, second] =>
      [base64Letter (first.toNat / 4), base64Letter (first.toNat % 4 * 16 + second.toNat / 16),
        base64Letter (second.toNat % 16 * 4), byte '=']
  | [first] =>
      [base64Letter (first.toNat / 4), base64Letter (first.toNat % 4 * 16), byte '=', byte '=']
  | [] => []

theorem base64Index_base64Letter {value : ℕ} (small : value < 64) :
    base64Index (base64Letter value) = some value := by
  have every : ∀ value : Fin 64, base64Index (base64Letter value) = some value.val := by
    simp only [base64Letter]
    rw [ascii_ofList]
    decide
  exact every ⟨value, small⟩

theorem decodeLetters_cons {acc acc_len value : ℕ} {out rest : Bytes} (small : value < 64) :
    decodeLetters acc acc_len out (base64Letter value :: rest) =
      if 8 ≤ acc_len + 6 then
        decodeLetters ((acc * 64 + value) % 2 ^ 12) (acc_len + 6 - 8)
          (out ++ [UInt8.ofNat ((acc * 64 + value) % 2 ^ 12 / 2 ^ (acc_len + 6 - 8))]) rest
      else decodeLetters ((acc * 64 + value) % 2 ^ 12) (acc_len + 6) out rest := by
  rw [decodeLetters, base64Index_base64Letter small]

theorem ofNat_eq_of_mod {value : UInt8} {number : ℕ} (same : number % 256 = value.toNat) :
    UInt8.ofNat number = value := by
  apply UInt8.toNat.inj
  rw [UInt8.toNat_ofNat', same]

theorem decodeLetters_encodeBase64 {text out : Bytes} {acc : ℕ} :
    decodeLetters acc 0 out (encodeBase64 text) = some (out ++ text) := by
  induction text using encodeBase64.induct generalizing acc out with
  | case1 first second third rest ih =>
      have first_lt := first.toNat_lt
      have second_lt := second.toNat_lt
      have third_lt := third.toNat_lt
      rw [encodeBase64, decodeLetters_cons (by omega), if_neg (by decide),
        decodeLetters_cons (by omega), if_pos (by decide),
        decodeLetters_cons (by omega), if_pos (by decide),
        decodeLetters_cons (by omega), if_pos (by decide),
        @ofNat_eq_of_mod first _ (by norm_num; omega),
        @ofNat_eq_of_mod second _ (by norm_num; omega),
        @ofNat_eq_of_mod third _ (by norm_num; omega), ih]
      simp
  | case2 first second =>
      have first_lt := first.toNat_lt
      have second_lt := second.toNat_lt
      rw [encodeBase64, decodeLetters_cons (by omega), if_neg (by decide),
        decodeLetters_cons (by omega), if_pos (by decide),
        decodeLetters_cons (by omega), if_pos (by decide),
        @ofNat_eq_of_mod first _ (by norm_num; omega),
        @ofNat_eq_of_mod second _ (by norm_num; omega)]
      rw [decodeLetters, show base64Index (byte '=') = none by decide]
      rw [if_neg]
      · simp
      · norm_num
        omega
  | case3 first =>
      have first_lt := first.toNat_lt
      rw [encodeBase64, decodeLetters_cons (by omega), if_neg (by decide),
        decodeLetters_cons (by omega), if_pos (by decide),
        @ofNat_eq_of_mod first _ (by norm_num; omega)]
      rw [decodeLetters, show base64Index (byte '=') = none by decide]
      rw [if_neg]
      · simp
      · norm_num
        omega
  | case4 => simp [encodeBase64, decodeLetters, Nat.mod_one]

theorem length_encodeBase64 (text : Bytes) : (encodeBase64 text).length % 4 = 0 := by
  induction text using encodeBase64.induct with
  | case1 first second third rest ih =>
      rw [encodeBase64]
      simp only [List.length_cons]
      omega
  | case2 first second => simp [encodeBase64]
  | case3 first => simp [encodeBase64]
  | case4 => rfl

theorem decodeBase64_encodeBase64 (text : Bytes) :
    decodeBase64 (encodeBase64 text) = some text := by
  rw [decodeBase64, if_neg (by simp [length_encodeBase64]), decodeLetters_encodeBase64,
    List.nil_append]

theorem wordByte_base64Letter {value : ℕ} (small : value < 64) : WordByte (base64Letter value) := by
  have every : ∀ value : Fin 64, WordByte (base64Letter value) := by
    simp only [base64Letter]
    rw [ascii_ofList]
    decide
  exact every ⟨value, small⟩

theorem wordByte_encodeBase64 (text : Bytes) : ∀ letter ∈ encodeBase64 text, WordByte letter := by
  have padding : WordByte (byte '=') := by decide
  induction text using encodeBase64.induct with
  | case1 first second third rest ih =>
      have first_lt := first.toNat_lt
      have second_lt := second.toNat_lt
      have third_lt := third.toNat_lt
      simp only [encodeBase64, List.forall_mem_cons]
      exact ⟨wordByte_base64Letter (by omega), wordByte_base64Letter (by omega),
        wordByte_base64Letter (by omega), wordByte_base64Letter (by omega), ih⟩
  | case2 first second =>
      have first_lt := first.toNat_lt
      have second_lt := second.toNat_lt
      simp only [encodeBase64, List.forall_mem_cons]
      exact ⟨wordByte_base64Letter (by omega), wordByte_base64Letter (by omega),
        wordByte_base64Letter (by omega), padding, fun _ mem => nomatch mem⟩
  | case3 first =>
      have first_lt := first.toNat_lt
      simp only [encodeBase64, List.forall_mem_cons]
      exact ⟨wordByte_base64Letter (by omega), wordByte_base64Letter (by omega), padding, padding,
        fun _ mem => nomatch mem⟩
  | case4 => exact fun _ mem => nomatch mem

/-! ## Quoted printable -/

/-- A letter stands for a hexadecimal digit. -/
def IsHex (letter : UInt8) (digit : ℕ) : Prop :=
  digit < 16 ∧ (letter = (ascii "0123456789ABCDEF").getD digit 0 ∨
    letter = (ascii "0123456789abcdef").getD digit 0)

/-- A payload stands for a text: a byte for itself, an underscore for a blank, or two digits behind
an equals sign for any byte. -/
inductive QEncodes : Bytes → Bytes → Prop where
  | nil : QEncodes [] []
  | literal {value : UInt8} {payload text : Bytes} (word_byte : WordByte value)
      (not_equals : value ≠ byte '=') (not_underscore : value ≠ byte '_')
      (encodes : QEncodes payload text) : QEncodes (value :: payload) (value :: text)
  | blank {payload text : Bytes} (encodes : QEncodes payload text) :
      QEncodes (byte '_' :: payload) (byte ' ' :: text)
  | hex {high low value : UInt8} {payload text : Bytes} (is_high : IsHex high (value.toNat / 16))
      (is_low : IsHex low (value.toNat % 16)) (encodes : QEncodes payload text) :
      QEncodes (byte '=' :: high :: low :: payload) (value :: text)

theorem hexDigit_of_isHex {letter : UInt8} {digit : ℕ} (is_hex : IsHex letter digit) :
    hexDigit letter = some (UInt8.ofNat digit) := by
  obtain ⟨small, is_letter⟩ := is_hex
  have every : ∀ digit : Fin 16,
      hexDigit ((ascii "0123456789ABCDEF").getD digit 0) = some (UInt8.ofNat digit) ∧
        hexDigit ((ascii "0123456789abcdef").getD digit 0) = some (UInt8.ofNat digit) := by
    decide
  rcases is_letter with rfl | rfl
  · exact (every ⟨digit, small⟩).1
  · exact (every ⟨digit, small⟩).2

theorem wordByte_of_isHex {letter : UInt8} {digit : ℕ} (is_hex : IsHex letter digit) :
    WordByte letter := by
  obtain ⟨small, is_letter⟩ := is_hex
  have every : ∀ digit : Fin 16, WordByte ((ascii "0123456789ABCDEF").getD digit 0) ∧
      WordByte ((ascii "0123456789abcdef").getD digit 0) := by
    decide
  rcases is_letter with rfl | rfl
  · exact (every ⟨digit, small⟩).1
  · exact (every ⟨digit, small⟩).2

theorem join_digits (value : UInt8) :
    (UInt8.ofNat (value.toNat / 16) <<< 4) ||| UInt8.ofNat (value.toNat % 16) = value := by
  revert value
  refine Bytes.forall_byte ?_
  decide

theorem decodeQ_literal {value : UInt8} (not_equals : value ≠ byte '=')
    (not_underscore : value ≠ byte '_') (rest : Bytes) :
    decodeQ (value :: rest) = value :: decodeQ rest := by
  match rest with
  | [] => simp [decodeQ, not_underscore]
  | [_] => simp [decodeQ, not_underscore]
  | _ :: _ :: _ => rw [decodeQ, if_neg not_underscore, if_neg not_equals]

theorem decodeQ_blank (rest : Bytes) : decodeQ (byte '_' :: rest) = byte ' ' :: decodeQ rest := by
  match rest with
  | [] => rfl
  | [_] => rfl
  | _ :: _ :: _ => rfl

theorem QEncodes.decodeQ_eq {payload text : Bytes} (encodes : QEncodes payload text) :
    decodeQ payload = text := by
  induction encodes with
  | nil => rfl
  | literal _ not_equals not_underscore _ ih =>
      rw [decodeQ_literal not_equals not_underscore, ih]
  | blank _ ih => rw [decodeQ_blank, ih]
  | hex is_high is_low _ ih =>
      rw [decodeQ, if_neg (by decide), if_pos rfl, hexDigit_of_isHex is_high,
        hexDigit_of_isHex is_low]
      simp only [join_digits, ih]

theorem QEncodes.wordByte {payload text : Bytes} (encodes : QEncodes payload text) :
    ∀ value ∈ payload, WordByte value := by
  induction encodes with
  | nil => exact fun _ mem => nomatch mem
  | literal word_byte _ _ _ ih => exact List.forall_mem_cons.mpr ⟨word_byte, ih⟩
  | blank _ ih => exact List.forall_mem_cons.mpr ⟨by decide, ih⟩
  | hex is_high is_low _ ih =>
      refine List.forall_mem_cons.mpr ⟨by decide, List.forall_mem_cons.mpr ⟨?_, ?_⟩⟩
      · exact wordByte_of_isHex is_high
      · exact List.forall_mem_cons.mpr ⟨wordByte_of_isHex is_low, ih⟩

/-! ## Words -/

/-- How a text is encoded, by the letter of the encoding. -/
inductive Encodes : UInt8 → Bytes → Bytes → Prop where
  | base64 {letter : UInt8} {text : Bytes} (is_letter : letter = byte 'B' ∨ letter = byte 'b') :
      Encodes letter (encodeBase64 text) text
  | quoted {letter : UInt8} {payload text : Bytes}
      (is_letter : letter = byte 'Q' ∨ letter = byte 'q') (encodes : QEncodes payload text) :
      Encodes letter payload text

/-- An encoded word and the text that it stands for. -/
structure Word where
  charset : Bytes
  encoding : UInt8
  payload : Bytes
  text : Bytes
  charset_bytes : ∀ value ∈ charset, WordByte value
  encodes : Encodes encoding payload text

/-- The word as it is written. -/
def Word.wire (word : Word) : Bytes :=
  ascii "=?" ++ (word.charset ++ (ascii "?" ++ ([word.encoding] ++ (ascii "?" ++
    (word.payload ++ ascii "?=")))))

namespace Word

variable {word : Word} {rest out : Bytes}

theorem Encodes.wordByte {letter : UInt8} {payload text : Bytes}
    (encodes : Encodes letter payload text) : ∀ value ∈ payload, WordByte value := by
  cases encodes with
  | base64 _ => exact wordByte_encodeBase64 text
  | quoted _ encodes => exact encodes.wordByte

theorem Encodes.wordByte_letter {letter : UInt8} {payload text : Bytes}
    (encodes : Encodes letter payload text) : WordByte letter := by
  cases encodes with
  | base64 is_letter =>
      rcases is_letter with rfl | rfl
      · decide
      · decide
  | quoted is_letter _ =>
      rcases is_letter with rfl | rfl
      · decide
      · decide

theorem not_mem_of_wordByte {bytes : Bytes} (word_bytes : ∀ value ∈ bytes, WordByte value) :
    byte '?' ∉ bytes :=
  fun mem => (word_bytes _ mem).2.2 rfl

/-- A word is parsed, whatever follows. -/
theorem parseEncodedWord_wire :
    parseEncodedWord (word.wire ++ rest) = some
      { encoding := [word.encoding], payload := word.payload, total_len := word.wire.length } := by
  have charset := not_mem_of_wordByte word.charset_bytes
  have payload := not_mem_of_wordByte (Encodes.wordByte word.encodes)
  have encoding : byte '?' ∉ [word.encoding] := by
    rw [List.mem_singleton]
    exact fun same => (Encodes.wordByte_letter word.encodes).2.2 same.symm
  have whole : word.wire ++ rest = ascii "=?" ++ (word.charset ++ (ascii "?" ++
      ([word.encoding] ++ (ascii "?" ++ (word.payload ++ (ascii "?=" ++ rest)))))) := by
    simp [wire]
  have length : word.wire.length = word.charset.length + word.payload.length + 7 := by
    simp [wire, ascii]
    omega
  have long : ¬((word.wire ++ rest).length < 6 ∨
      ¬(ascii "=?").isPrefixOf (word.wire ++ rest) = true) := by
    rw [not_or, not_not, List.length_append, length]
    exact ⟨by omega, rfl⟩
  have behind_start : (word.wire ++ rest).drop 2 = word.charset ++ (ascii "?" ++
      ([word.encoding] ++ (ascii "?" ++ (word.payload ++ (ascii "?=" ++ rest))))) := by
    rw [whole]
    rfl
  have behind_charset : (word.wire ++ rest).drop (2 + word.charset.length + 1) =
      [word.encoding] ++ (ascii "?" ++ (word.payload ++ (ascii "?=" ++ rest))) := by
    rw [Nat.add_assoc, ← List.drop_drop, behind_start, ← List.append_assoc]
    exact List.drop_left' (by simp [ascii])
  have behind_encoding : (word.wire ++ rest).drop (2 + word.charset.length + 1 + 1 + 1) =
      word.payload ++ (ascii "?=" ++ rest) := by
    rw [Nat.add_assoc, ← List.drop_drop, behind_charset]
    rfl
  have find_charset : indexOf (ascii "?") ((word.wire ++ rest).drop 2) =
      some word.charset.length := by
    rw [behind_start]
    exact Bytes.indexOf_singleton charset
  have find_encoding : indexOf (ascii "?") ((word.wire ++ rest).drop
      (2 + word.charset.length + 1)) = some 1 := by
    rw [behind_charset]
    exact Bytes.indexOf_singleton encoding
  have find_end : indexOf (ascii "?=") ((word.wire ++ rest).drop
      (2 + word.charset.length + 1 + 1 + 1)) = some word.payload.length := by
    rw [behind_encoding]
    exact Bytes.indexOf_of_passes (Bytes.passes_of_not_mem payload)
  have inside : ¬(word.wire ++ rest).length ≤ 2 + word.charset.length + 1 := by
    rw [List.length_append, length]
    omega
  have inside' : ¬(word.wire ++ rest).length ≤ 2 + word.charset.length + 1 + 1 + 1 := by
    rw [List.length_append, length]
    omega
  simp only [parseEncodedWord, if_neg long, find_charset, Option.bind_eq_bind, Option.bind_some,
    if_neg inside, find_encoding, if_neg inside', find_end]
  rw [behind_charset, behind_encoding, List.take_left]
  simp only [List.singleton_append, List.take_succ_cons, List.take_zero, length]
  congr 2
  omega

theorem decoded_wire {raw : Bytes} :
    EncodedWord.decoded ⟨[word.encoding], word.payload, word.wire.length⟩ raw = word.text := by
  cases word with
  | mk charset encoding payload text charset_bytes encodes =>
      cases encodes with
      | base64 is_letter =>
          have is_b : Bytes.eqlIgnoreCase [encoding] (ascii "B") = true := by
            rcases is_letter with rfl | rfl <;> decide
          rw [EncodedWord.decoded, if_pos is_b, decodeBase64_encodeBase64, Option.getD_some]
      | quoted is_letter encodes =>
          have not_b : ¬Bytes.eqlIgnoreCase [encoding] (ascii "B") = true := by
            rcases is_letter with rfl | rfl <;> decide
          have is_q : Bytes.eqlIgnoreCase [encoding] (ascii "Q") = true := by
            rcases is_letter with rfl | rfl <;> decide
          rw [EncodedWord.decoded, if_neg not_b, if_pos is_q, encodes.decodeQ_eq]

end Word

/-- A text is decoded, with any number of rounds that is large enough. -/
def Decodes (encoded text : Bytes) : Prop :=
  ∀ rounds, encoded.length < rounds → decodeWords rounds encoded = text

namespace Decodes

variable {encoded text : Bytes}

theorem nil : Decodes [] [] := by
  intro rounds _
  cases rounds <;> rfl

theorem eq (decodes : Decodes encoded text) : decodeRfc2047 encoded = text :=
  decodes _ (Nat.lt_succ_self _)

theorem keep {value : UInt8} (decodes : Decodes encoded text) (other : value ≠ byte '=') :
    Decodes (value :: encoded) (value :: text) := by
  intro rounds enough
  obtain ⟨rounds, rfl⟩ : ∃ before, rounds = before + 1 := ⟨rounds - 1, by omega⟩
  rw [List.length_cons] at enough
  have no_word : ¬(ascii "=?").isPrefixOf (value :: encoded) = true := by
    rw [List.isPrefixOf_iff_prefix]
    rintro ⟨more, whole⟩
    exact other (List.cons.inj whole).1.symm
  rw [decodeWords, if_neg no_word, decodes rounds (by omega)]

theorem plain_append {front : Bytes} (decodes : Decodes encoded text)
    (plain : ¬ascii "=?" <:+: front) (other : encoded.head? ≠ some (byte '?')) :
    Decodes (front ++ encoded) (front ++ text) := by
  induction front with
  | nil => exact decodes
  | cons value front ih =>
      have behind : Decodes (front ++ encoded) (front ++ text) :=
        ih fun inside => plain (inside.trans (List.suffix_cons _ _).isInfix)
      intro rounds enough
      obtain ⟨rounds, rfl⟩ : ∃ before, rounds = before + 1 := ⟨rounds - 1, by omega⟩
      rw [List.cons_append, List.length_cons] at enough
      have no_word : ¬(ascii "=?").isPrefixOf (value :: (front ++ encoded)) = true := by
        rw [List.isPrefixOf_iff_prefix]
        rintro ⟨more, whole⟩
        have spelled : ascii "=?" = [byte '=', byte '?'] := rfl
        rw [spelled] at whole plain
        simp only [List.cons_append, List.nil_append, List.cons.injEq] at whole
        obtain ⟨rfl, whole⟩ := whole
        cases front with
        | nil =>
            apply other
            rw [List.nil_append] at whole
            rw [← whole]
            rfl
        | cons second front =>
            obtain ⟨rfl, _⟩ := List.cons.inj whole
            exact plain ⟨[], front, rfl⟩
      rw [List.cons_append, decodeWords, if_neg no_word, behind rounds (by omega),
        List.cons_append]

theorem word (decodes : Decodes encoded text) (word : Word) :
    Decodes (word.wire ++ encoded) (word.text ++ text) := by
  intro rounds enough
  obtain ⟨rounds, rfl⟩ : ∃ before, rounds = before + 1 := ⟨rounds - 1, by omega⟩
  have parsed := @Word.parseEncodedWord_wire word encoded
  have start : (ascii "=?").isPrefixOf (word.wire ++ encoded) = true := rfl
  have positive : 0 < word.wire.length := by
    rw [Word.wire, List.length_append]
    exact Nat.lt_of_lt_of_le (by decide : 0 < (ascii "=?").length) (Nat.le_add_right _ _)
  obtain ⟨first, rest, whole⟩ : ∃ first rest, word.wire ++ encoded = first :: rest := ⟨_, _, rfl⟩
  rw [List.length_append] at enough
  rw [whole] at parsed start ⊢
  rw [decodeWords, if_pos start, parsed]
  simp only [Word.decoded_wire]
  rw [← whole, List.drop_left, decodes rounds (by omega)]

end Decodes

/-! ## Folded headers -/

/-- Texts with a separator between them. -/
def joined (separator : UInt8) : List Bytes → Bytes
  | [] => []
  | first :: rest => first ++ rest.flatMap (separator :: ·)

/-- A part of a header's value on a line of its own, with the blanks before it and the carriage
returns behind it. -/
structure Row where
  gap : Bytes
  text : Bytes
  ending : Bytes
  gap_blank : ∀ value ∈ gap, value ∈ blanks
  ending_return : ∀ value ∈ ending, value ∈ carriageReturns
  text_start : ∀ value, text.head? = some value → value ∉ blanks
  text_end : text.getLast? ≠ some (byte '\r')
  within_line : byte '\n' ∉ text

def Row.line (row : Row) : Bytes :=
  row.gap ++ row.text ++ row.ending

/-- The lines of a header: its name and the first row of its value, and the other rows, which start
with a blank. -/
def HeaderLines (name value : Bytes) (lines : List Bytes) : Prop :=
  ∃ (field : Bytes) (first : Row) (more : List Row),
    lines = (field ++ byte ':' :: first.line) :: more.map Row.line ∧
      Bytes.eqlIgnoreCase (trim blanks field) name = true ∧ byte ':' ∉ field ∧
      byte '\n' ∉ field ∧ (∀ row ∈ more, row.gap ≠ []) ∧
      value = joined (byte ' ') (first.text :: more.map Row.text)

/-- A line starts a header of the name. -/
def StartsHeader (name line : Bytes) : Prop :=
  ∃ field rest, trimRight carriageReturns line = field ++ byte ':' :: rest ∧ byte ':' ∉ field ∧
    Bytes.eqlIgnoreCase (trim blanks field) name = true

/-- A block has a header: no earlier line starts one of its name, and it is not continued. -/
def HasHeader (name value block : Bytes) : Prop :=
  ∃ before lines after : List Bytes,
    block = joined (byte '\n') (before ++ (lines ++ after)) ∧ HeaderLines name value lines ∧
      (∀ line ∈ before, byte '\n' ∉ line ∧ ¬StartsHeader name line) ∧
      (∀ line ∈ after, byte '\n' ∉ line) ∧
      ∀ line, after.head? = some line →
        ∀ value, (trimRight carriageReturns line).head? = some value → value ∉ blanks

variable {values front back : Bytes} {separator : UInt8} {lines : List Bytes}

theorem trimRight_append_of_mem (trimmed : ∀ value ∈ back, value ∈ values)
    (kept : ∀ value, front.getLast? = some value → value ∉ values) :
    trimRight values (front ++ back) = front := by
  have dropped : ∀ value ∈ back.reverse, values.contains value = true := by
    intro value mem
    exact List.contains_iff_mem.mpr (trimmed value (List.mem_reverse.mp mem))
  rw [trimRight, List.reverse_append, List.dropWhile_append_of_pos dropped]
  cases last : front.reverse with
  | nil =>
      rw [List.reverse_eq_nil_iff.mp last]
      rfl
  | cons value rest =>
      have is_last : front.getLast? = some value := by
        rw [← List.head?_reverse, last]
        rfl
      have stays : ¬values.contains value = true := by
        rw [List.contains_iff_mem]
        exact kept value is_last
      rw [List.dropWhile_cons_of_neg stays, ← last, List.reverse_reverse]

theorem trimLeft_append_of_mem (trimmed : ∀ value ∈ front, value ∈ values)
    (kept : ∀ value, back.head? = some value → value ∉ values) :
    trimLeft values (front ++ back) = back := by
  have dropped : ∀ value ∈ front, values.contains value = true :=
    fun value mem => List.contains_iff_mem.mpr (trimmed value mem)
  rw [trimLeft, List.dropWhile_append_of_pos dropped]
  cases back with
  | nil => rfl
  | cons value rest =>
      have stays : ¬values.contains value = true := by
        rw [List.contains_iff_mem]
        exact kept value rfl
      rw [List.dropWhile_cons_of_neg stays]

theorem splitScalar_joined (filled : lines ≠ []) (apart : ∀ line ∈ lines, separator ∉ line) :
    splitScalar separator (joined separator lines) = lines := by
  induction lines with
  | nil => exact absurd rfl filled
  | cons first rest ih =>
      rw [List.forall_mem_cons] at apart
      cases rest with
      | nil =>
          have single : joined separator [first] = first := by simp [joined]
          rw [single, Bytes.splitScalar_of_not_mem apart.1]
      | cons second rest =>
          have two : joined separator (first :: second :: rest) =
              first ++ separator :: joined separator (second :: rest) := by
            simp [joined]
          rw [two, Bytes.splitScalar_append_cons, Bytes.splitScalar_of_not_mem apart.1,
            ih (List.cons_ne_nil _ _) apart.2, List.singleton_append]

namespace Row

variable {row : Row}

theorem not_return_of_blank {value : UInt8} (blank : value ∈ blanks) :
    value ∉ carriageReturns := by
  have every : ∀ value ∈ blanks, value ∉ carriageReturns :=
    List.forall_iff_forall_mem.mp (by decide)
  exact every value blank

theorem trimRight_line {front : Bytes}
    (kept : ∀ value, front.getLast? = some value → value ∉ carriageReturns) :
    trimRight carriageReturns (front ++ row.line) = front ++ (row.gap ++ row.text) := by
  rw [line, ← List.append_assoc]
  apply trimRight_append_of_mem row.ending_return
  intro value last
  rw [List.getLast?_append, List.getLast?_append] at last
  cases text_last : row.text.getLast? with
  | some other =>
      rw [text_last] at last
      obtain rfl : other = value := by simpa using last
      intro returns
      rw [carriageReturns] at returns
      have same : other = byte '\r' := by simpa [ascii, byte] using returns
      exact row.text_end (same ▸ text_last)
  | none =>
      cases gap_last : row.gap.getLast? with
      | some other =>
          rw [text_last, gap_last] at last
          obtain rfl : other = value := by simpa using last
          exact not_return_of_blank (row.gap_blank other (List.mem_of_getLast? gap_last))
      | none =>
          rw [text_last, gap_last] at last
          exact kept value (by simpa using last)

theorem trimLeft_text : trimLeft blanks (row.gap ++ row.text) = row.text :=
  trimLeft_append_of_mem row.gap_blank row.text_start

theorem not_mem_line : byte '\n' ∉ row.line := by
  rw [line, List.mem_append, List.mem_append, not_or, not_or]
  have blank : byte '\n' ∉ blanks := by decide
  have returns : byte '\n' ∉ carriageReturns := by decide
  exact ⟨⟨fun mem => blank (row.gap_blank _ mem), row.within_line⟩,
    fun mem => returns (row.ending_return _ mem)⟩

end Row

section Headers

variable {name value block : Bytes} {before after : List Bytes} {more : List Row}

theorem continuation_rows (indented : ∀ row ∈ more, row.gap ≠ [])
    (ends : ∀ line, after.head? = some line →
      ∀ value, (trimRight carriageReturns line).head? = some value → value ∉ blanks) :
    continuation (more.map Row.line ++ after) = (more.map Row.text).flatMap (byte ' ' :: ·) := by
  induction more with
  | nil =>
      cases after with
      | nil => rfl
      | cons line after =>
          have stops : ¬((trimRight carriageReturns line).head? = some (byte ' ') ∨
              (trimRight carriageReturns line).head? = some (byte '\t')) := by
            rintro (blank | tab)
            · exact ends line rfl _ blank (by decide)
            · exact ends line rfl _ tab (by decide)
          rw [List.map_nil, List.nil_append, continuation]
          exact if_neg stops
  | cons row more ih =>
      rw [List.forall_mem_cons] at indented
      have trimmed : trimRight carriageReturns row.line = row.gap ++ row.text :=
        @Row.trimRight_line row [] nofun
      have goes_on : (row.gap ++ row.text).head? = some (byte ' ') ∨
          (row.gap ++ row.text).head? = some (byte '\t') := by
        cases gap : row.gap with
        | nil => exact absurd gap indented.1
        | cons value rest =>
            have blank := row.gap_blank value (by rw [gap]; exact List.mem_cons_self)
            simpa [blanks, ascii, byte] using blank
      rw [List.map_cons, List.cons_append, continuation, trimmed]
      simp only [if_pos goes_on, Row.trimLeft_text, ih indented.2, List.map_cons,
        List.flatMap_cons, List.cons_append]

theorem findHeader_append {lines : List Bytes}
    (passed : ∀ line ∈ before, byte '\n' ∉ line ∧ ¬StartsHeader name line) :
    findHeader name (before ++ lines) = findHeader name lines := by
  induction before with
  | nil => rfl
  | cons line before ih =>
      rw [List.forall_mem_cons] at passed
      rw [List.cons_append, findHeader]
      cases colon : indexOfScalar (byte ':') (trimRight carriageReturns line) with
      | none =>
          exact ih passed.2
      | some index =>
          have apart := Bytes.eq_append_of_indexOfScalar colon
          have other : ¬Bytes.eqlIgnoreCase (trim blanks
              ((trimRight carriageReturns line).take index)) name = true := by
            intro same
            apply passed.1.2
            refine ⟨_, _, apart, ?_, same⟩
            obtain ⟨_, _, first⟩ := List.findIdx?_eq_some_iff_getElem.mp colon
            intro mem
            obtain ⟨place, below, here⟩ := List.mem_take_iff_getElem.mp mem
            exact first place (by omega) (by simpa using here)
          simp only [if_neg other]
          exact ih passed.2

theorem extractHeader_eq (has : HasHeader name value block) : extractHeader block name = value := by
  obtain ⟨before, lines, after, rfl, ⟨field, first, more, rfl, same_name, no_colon, field_line,
    indented, rfl⟩, passed, after_lines, ends⟩ := has
  have apart : ∀ line ∈ before ++ ((field ++ byte ':' :: first.line) :: more.map Row.line ++ after),
      byte '\n' ∉ line := by
    intro line mem
    simp only [List.cons_append, List.mem_append, List.mem_cons, List.mem_map] at mem
    rcases mem with mem | rfl | ⟨row, _, rfl⟩ | mem
    · exact (passed line mem).1
    · rw [List.mem_append, List.mem_cons, not_or, not_or]
      exact ⟨field_line, by decide, Row.not_mem_line⟩
    · exact Row.not_mem_line
    · exact after_lines line mem
  have trimmed : trimRight carriageReturns (field ++ byte ':' :: first.line) =
      field ++ byte ':' :: (first.gap ++ first.text) := by
    have shifted := @Row.trimRight_line first (field ++ [byte ':']) (by
      intro value last
      obtain rfl : byte ':' = value := by simpa using last
      decide)
    simpa using shifted
  rw [extractHeader, splitScalar_joined (by simp) apart, findHeader_append passed,
    List.cons_append, findHeader, trimmed, Bytes.indexOfScalar_append_cons no_colon]
  simp only [List.take_left, if_pos same_name]
  have behind : (field ++ byte ':' :: (first.gap ++ first.text)).drop (field.length + 1) =
      first.gap ++ first.text := by
    rw [← List.drop_drop, List.drop_left]
    rfl
  rw [behind, Row.trimLeft_text, continuation_rows indented ends]
  rfl

end Headers

/-! ## Texts of words -/

theorem Decodes.joined {encoded text : Bytes} (decodes : Decodes encoded text)
    (words : List Word) :
    Decodes (joined (byte ' ') (words.map Word.wire) ++ encoded)
      (joined (byte ' ') (words.map Word.text) ++ text) := by
  have rest (words : List Word) :
      Decodes ((words.map Word.wire).flatMap (byte ' ' :: ·) ++ encoded)
        ((words.map Word.text).flatMap (byte ' ' :: ·) ++ text) := by
    induction words with
    | nil => exact decodes
    | cons word words ih =>
        simp only [List.map_cons, List.flatMap_cons, List.cons_append, List.append_assoc]
        exact (ih.word word).keep (by decide)
  cases words with
  | nil => exact decodes
  | cons word words =>
      simp only [List.map_cons, Email.joined, List.append_assoc]
      exact (rest words).word word

theorem length_joined (separator : UInt8) (texts : List Bytes) :
    (joined separator texts).length = texts.flatten.length + (texts.length - 1) := by
  have rest (texts : List Bytes) :
      (texts.flatMap (separator :: ·)).length = texts.flatten.length + texts.length := by
    induction texts with
    | nil => rfl
    | cons text texts ih =>
        rw [List.flatMap_cons, List.length_append, ih, List.flatten_cons, List.length_append,
          List.length_cons, List.length_cons]
        omega
  cases texts with
  | nil => rfl
  | cons text texts =>
      rw [joined, List.length_append, rest, List.flatten_cons, List.length_append,
        List.length_cons]
      omega

theorem joined_eq_flatten_iff (separator : UInt8) (texts : List Bytes) :
    joined separator texts = texts.flatten ↔ texts.length ≤ 1 := by
  constructor
  · intro same
    have lengths := congrArg List.length same
    rw [length_joined] at lengths
    omega
  · intro few
    match texts with
    | [] => rfl
    | [text] => simp [joined]
    | _ :: _ :: _ =>
        simp only [List.length_cons] at few
        omega

/-! ## The address of a sender -/

/-- An address has no angle brackets, and no blanks around it. -/
structure Address (a : Bytes) : Prop where
  no_opening : byte '<' ∉ a
  no_closing : byte '>' ∉ a
  trimmed : trim blanks a = a

/-- The text within quotation marks, in which quotation marks and backslashes are escaped. -/
inductive QuotedText : Bytes → Prop where
  | nil : QuotedText []
  | char {value : UInt8} {rest : Bytes} (plain : value ≠ byte '"' ∧ value ≠ byte '\\')
      (quoted : QuotedText rest) : QuotedText (value :: rest)
  | pair {value : UInt8} {rest : Bytes} (quoted : QuotedText rest) :
      QuotedText (byte '\\' :: value :: rest)

/-- A display name before an address. -/
inductive Display where
  | quoted (inner : Bytes) (is_quoted : QuotedText inner)
  | encoded (words : List Word)

namespace Display

/-- The display name as it is written. -/
def wire : Display → Bytes
  | .quoted inner _ => byte '"' :: (inner ++ [byte '"'])
  | .encoded words => joined (byte ' ') (words.map Word.wire)

/-- The display name without encoded words, in which the blanks between these are kept. -/
def shown : Display → Bytes
  | .quoted inner _ => byte '"' :: (inner ++ [byte '"'])
  | .encoded words => joined (byte ' ') (words.map Word.text)

/-- No encoded word seems to start within quotation marks. -/
def Plain : Display → Prop
  | .quoted inner _ => ¬ascii "=?" <:+: inner
  | .encoded _ => True

end Display

/-- The display name has no angle bracket, or it has the address between angle brackets itself. -/
def HarmlessDisplay (display a : Bytes) : Prop :=
  byte '<' ∉ display ∨ ∃ before inner after,
    display = before ++ byte '<' :: (inner ++ byte '>' :: after) ∧ byte '<' ∉ before ∧
      byte '>' ∉ inner ∧ trim blanks inner = a

/-- The headers of a message stand before its first blank line. -/
def EndsHeaders (block raw : Bytes) : Prop :=
  (∃ body, raw = block ++ (ascii "\r\n\r\n" ++ body) ∧
      indexOf (ascii "\r\n\r\n") raw = some block.length) ∨
    (∃ body, raw = block ++ (ascii "\n\n" ++ body) ∧ indexOf (ascii "\r\n\r\n") raw = none ∧
      indexOf (ascii "\n\n") raw = some block.length) ∨
    raw = block ∧ indexOf (ascii "\r\n\r\n") raw = none ∧ indexOf (ascii "\n\n") raw = none

section Addresses

variable {block raw display gap a inner before after : Bytes}

theorem take_headerEnd (ends : EndsHeaders block raw) : raw.take (headerEnd raw).1 = block := by
  rcases ends with ⟨body, rfl, found⟩ | ⟨body, rfl, missing, found⟩ | ⟨rfl, missing, missing'⟩
  · rw [headerEnd, found]
    exact List.take_left
  · rw [headerEnd, missing, found]
    exact List.take_left
  · rw [headerEnd, missing, missing']
    exact List.take_length

theorem extractAddress_append (no_opening : byte '<' ∉ before) (no_closing : byte '>' ∉ inner) :
    extractAddress (before ++ byte '<' :: (inner ++ byte '>' :: after)) = trim blanks inner := by
  have behind : (before ++ byte '<' :: (inner ++ byte '>' :: after)).drop (before.length + 1) =
      inner ++ byte '>' :: after := by
    rw [← List.drop_drop, List.drop_left]
    rfl
  rw [extractAddress, Bytes.indexOfScalar_append_cons no_opening]
  simp only [indexOfScalarPos, behind, Bytes.indexOfScalar_append_cons no_closing,
    Option.map_some, Nat.add_sub_cancel_left, List.take_left]

/-- The address is read behind a display name, unless an angle bracket there hides it. -/
theorem extractAddress_iff (address : Address a) (gap_blank : ∀ value ∈ gap, value ∈ blanks) :
    extractAddress (display ++ (gap ++ byte '<' :: (a ++ [byte '>']))) = a ↔
      HarmlessDisplay display a := by
  have no_bracket : byte '<' ∉ gap := fun mem => absurd (gap_blank _ mem) (by decide)
  by_cases opening : byte '<' ∈ display
  · obtain ⟨before, rest, rfl, apart⟩ := List.eq_append_cons_of_mem opening
    by_cases closing : byte '>' ∈ rest
    · obtain ⟨inner, after, rfl, inside⟩ := List.eq_append_cons_of_mem closing
      have read : extractAddress (before ++ byte '<' :: (inner ++ byte '>' :: after) ++
          (gap ++ byte '<' :: (a ++ [byte '>']))) = trim blanks inner := by
        rw [List.append_assoc, List.cons_append, List.append_assoc, List.cons_append]
        exact extractAddress_append apart inside
      rw [read]
      constructor
      · exact fun same => .inr ⟨before, inner, after, rfl, apart, inside, same⟩
      · rintro (absent | ⟨before', inner', after', same, apart', inside', trimmed⟩)
        · exact absurd opening absent
        · obtain ⟨rfl, same_rest⟩ := Bytes.eq_of_append_cons apart apart' same
          obtain ⟨rfl, _⟩ := Bytes.eq_of_append_cons inside inside' same_rest
          exact trimmed
    · have read : extractAddress (before ++ byte '<' :: rest ++
          (gap ++ byte '<' :: (a ++ [byte '>']))) =
            trim blanks (rest ++ (gap ++ byte '<' :: a)) := by
        have inside : byte '>' ∉ rest ++ (gap ++ byte '<' :: a) := by
          simp only [List.mem_append, List.mem_cons, not_or]
          exact ⟨closing, fun mem => absurd (gap_blank _ mem) (by decide), by decide,
            address.no_closing⟩
        have found := @extractAddress_append (rest ++ (gap ++ byte '<' :: a)) before [] apart inside
        simpa using found
      rw [read]
      constructor
      · intro same
        have bracket : byte '<' ∈ rest ++ (gap ++ byte '<' :: a) := by simp
        rcases @Bytes.contains_or_mem_trim blanks _ _ bracket with blank | kept
        · exact absurd blank (by decide)
        · rw [same] at kept
          exact absurd kept address.no_opening
      · rintro (absent | ⟨before', inner', after', same, apart', _, _⟩)
        · exact absurd opening absent
        · obtain ⟨_, same_rest⟩ := Bytes.eq_of_append_cons apart apart' same
          rw [same_rest] at closing
          exact absurd (List.mem_append_right _ List.mem_cons_self) closing
  · have found := @extractAddress_append a (display ++ gap) []
      (by rw [List.mem_append, not_or]; exact ⟨opening, no_bracket⟩) address.no_closing
    rw [List.append_assoc] at found
    rw [found, address.trimmed]
    exact ⟨fun _ => .inl opening, fun _ => rfl⟩

theorem decodes_from {display : Display} (gap_blank : ∀ value ∈ gap, value ∈ blanks)
    (plain : display.Plain) (plain_address : ¬ascii "=?" <:+: a) :
    Decodes (display.wire ++ (gap ++ byte '<' :: (a ++ [byte '>'])))
      (display.shown ++ (gap ++ byte '<' :: (a ++ [byte '>']))) := by
  have closing : Decodes [byte '>'] [byte '>'] := Decodes.nil.keep (by decide)
  have address : Decodes (byte '<' :: (a ++ [byte '>'])) (byte '<' :: (a ++ [byte '>'])) :=
    (closing.plain_append plain_address (by decide)).keep (by decide)
  have tail : Decodes (gap ++ byte '<' :: (a ++ [byte '>']))
      (gap ++ byte '<' :: (a ++ [byte '>'])) := by
    clear plain
    induction gap with
    | nil => exact address
    | cons value gap ih =>
        rw [List.forall_mem_cons] at gap_blank
        have other : value ≠ byte '=' := by
          rintro rfl
          exact absurd gap_blank.1 (by decide)
        exact (ih gap_blank.2).keep other
  cases display with
  | encoded words => exact tail.joined words
  | quoted inner is_quoted =>
      have quote := tail.keep (by decide : byte '"' ≠ byte '=')
      have inside := (quote.plain_append plain (by rw [List.head?_cons]; decide)).keep
        (by decide : byte '"' ≠ byte '=')
      simpa [Display.wire, Display.shown] using inside

end Addresses

/-- A header of encoded words gives back its text if and only if there is one word at most. A
message whose sender has a display name gives back its address if and only if the display name is
harmless, as long as nothing else looks like an encoded word. -/
theorem decoded_headers_iff (words : List Word) (display : Display) :
    (∀ name block : Bytes, HasHeader name (joined (byte ' ') (words.map Word.wire)) block →
      (decodeRfc2047 (extractHeader block name) = words.flatMap Word.text ↔ words.length ≤ 1)) ∧
    ∀ gap a block raw : Bytes, Address a →
      (∀ value ∈ gap, value ∈ blanks) →
      HasHeader (ascii "from") (display.wire ++ (gap ++ byte '<' :: (a ++ [byte '>']))) block →
      EndsHeaders block raw → display.Plain → ¬ascii "=?" <:+: a →
        ((parseEmailMessage raw).from_addr = a ↔ HarmlessDisplay display.shown a) := by
  constructor
  · intro name block has
    have decoded : decodeRfc2047 (extractHeader block name) =
        joined (byte ' ') (words.map Word.text) := by
      rw [extractHeader_eq has]
      simpa using (Decodes.nil.joined words).eq
    rw [decoded, List.flatMap_def, joined_eq_flatten_iff, List.length_map]
  · intro gap a block raw address gap_blank has ends plain plain_address
    have from_addr : (parseEmailMessage raw).from_addr =
        extractAddress (display.shown ++ (gap ++ byte '<' :: (a ++ [byte '>']))) := by
      simp only [parseEmailMessage, take_headerEnd ends, extractHeader_eq has,
        (decodes_from gap_blank plain plain_address).eq]
    rw [from_addr]
    exact extractAddress_iff address gap_blank

/-- A word of one letter. -/
def letterWord (value : UInt8) (word_byte : WordByte value)
    (plain : value ≠ byte '=' ∧ value ≠ byte '_') : Word where
  charset := ascii "utf-8"
  encoding := byte 'Q'
  payload := [value]
  text := [value]
  charset_bytes := List.forall_iff_forall_mem.mp (by decide)
  encodes := .quoted (.inl rfl) (.literal word_byte plain.1 plain.2 .nil)

theorem hasHeader_single {name field value : Bytes}
    (same : Bytes.eqlIgnoreCase (trim blanks field) name = true) (no_colon : byte ':' ∉ field)
    (field_line : byte '\n' ∉ field) (start : ∃ first, value.head? = some first ∧ first ∉ blanks)
    (last : value.getLast? ≠ some (byte '\r')) (line : byte '\n' ∉ value) :
    HasHeader name value (field ++ byte ':' :: byte ' ' :: value) := by
  obtain ⟨first, is_first, not_blank⟩ := start
  have starts : ∀ value', value.head? = some value' → value' ∉ blanks := by
    intro value' is_value
    rwa [← Option.some.inj (is_first.symm.trans is_value)]
  refine ⟨[], [field ++ byte ':' :: byte ' ' :: value], [], ?_, ?_, nofun, nofun, nofun⟩
  · simp [joined]
  · have gap : ∀ value' ∈ [byte ' '], value' ∈ blanks := List.forall_mem_singleton.mpr (by decide)
    refine ⟨field, ⟨[byte ' '], value, [], gap, nofun, starts, last, line⟩, [], ?_,
      same, no_colon, field_line, nofun, ?_⟩
    · simp [Row.line]
    · simp [joined]

/-- One word, and a display name of one word. -/
theorem decoded_headers_of_one_word :
    decodeRfc2047 (extractHeader (ascii "Subject: =?utf-8?Q?a?=") (ascii "subject")) = ascii "a" ∧
      (parseEmailMessage (ascii "From: =?utf-8?Q?a?= <b@c>\r\n\r\n")).from_addr =
        ascii "b@c" := by
  constructor
  · have has : HasHeader (ascii "subject") (joined (byte ' ')
        ([letterWord (byte 'a') (by decide) (by decide)].map Word.wire))
        (ascii "Subject: =?utf-8?Q?a?=") :=
      @hasHeader_single _ (ascii "Subject") (ascii "=?utf-8?Q?a?=") (by decide) (by decide)
        (by decide) ⟨_, rfl, by decide⟩ (by decide) (by decide)
    exact ((decoded_headers_iff [letterWord (byte 'a') (by decide) (by decide)]
      (.encoded [])).1 _ _ has).mpr le_rfl
  · have has : HasHeader (ascii "from")
        ((Display.encoded [letterWord (byte 'a') (by decide) (by decide)]).wire ++
          (ascii " " ++ byte '<' :: (ascii "b@c" ++ [byte '>'])))
        (ascii "From: =?utf-8?Q?a?= <b@c>") :=
      @hasHeader_single _ (ascii "From") (ascii "=?utf-8?Q?a?= <b@c>") (by decide) (by decide)
        (by decide) ⟨_, rfl, by decide⟩ (by decide) (by decide)
    have ends : EndsHeaders (ascii "From: =?utf-8?Q?a?= <b@c>")
        (ascii "From: =?utf-8?Q?a?= <b@c>\r\n\r\n") :=
      .inl ⟨[], by decide, by decide⟩
    exact ((decoded_headers_iff [] (.encoded [letterWord (byte 'a') (by decide) (by decide)])).2
      (ascii " ") (ascii "b@c") _ _ ⟨by decide, by decide, by decide⟩
      (List.forall_iff_forall_mem.mp (by decide)) has ends trivial (by decide)).mpr (.inl (by decide))

/-- The blank between two words is kept, and a bracket within quotation marks hides the address. -/
theorem not_decoded_two_words_and_bracket :
    (∃ (words : List Word) (block : Bytes),
      HasHeader (ascii "subject") (joined (byte ' ') (words.map Word.wire)) block ∧
        decodeRfc2047 (extractHeader block (ascii "subject")) ≠ words.flatMap Word.text) ∧
    ∃ (display : Display) (a block raw : Bytes), Address a ∧
      HasHeader (ascii "from")
        (display.wire ++ (ascii " " ++ byte '<' :: (a ++ [byte '>']))) block ∧
      EndsHeaders block raw ∧ (parseEmailMessage raw).from_addr ≠ a := by
  constructor
  · refine ⟨[letterWord (byte 'a') (by decide) (by decide),
      letterWord (byte 'b') (by decide) (by decide)],
      ascii "Subject: =?utf-8?Q?a?= =?utf-8?Q?b?=", ?_, by decide⟩
    exact @hasHeader_single _ (ascii "Subject") (ascii "=?utf-8?Q?a?= =?utf-8?Q?b?=") (by decide)
      (by decide) (by decide) ⟨_, rfl, by decide⟩ (by decide) (by decide)
  · refine ⟨.quoted (ascii "<m@e>") (.char (by decide) (.char (by decide) (.char (by decide)
      (.char (by decide) (.char (by decide) .nil))))), ascii "a@b", ascii "From: \"<m@e>\" <a@b>",
      ascii "From: \"<m@e>\" <a@b>\r\n\r\n", ⟨by decide, by decide, by decide⟩, ?_, ?_,
      by decide⟩
    · exact @hasHeader_single _ (ascii "From") (ascii "\"<m@e>\" <a@b>") (by decide) (by decide)
        (by decide) ⟨_, rfl, by decide⟩ (by decide) (by decide)
    · exact .inl ⟨[], by decide, by decide⟩

end Nullalis.Channels.Email
