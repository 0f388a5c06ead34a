import Mathlib.Tactic.Ring
import Nullalis.Base.Occurrence
import Nullalis.Usage.CostLedger

/-!
# Reading a line of the ledger

The markers are found at their own places, unless the name of the model holds one of them. Behind
them the numbers are read as they were written.
-/

namespace Nullalis.Usage

open Bytes

/-!
## Numbers
-/

section Numbers

variable {digits first second : Bytes} {value width cost : ℕ}

theorem digitsNumber_from (start : ℕ) (digits : Bytes) :
    digits.foldl (fun value digit => 10 * value + (digit.toNat - 48)) start =
      start * 10 ^ digits.length + digitsNumber digits := by
  induction digits generalizing start with
  | nil => simp [digitsNumber]
  | cons digit digits ih =>
      rw [digitsNumber, List.foldl_cons, List.foldl_cons, ih, ih (10 * 0 + _), List.length_cons,
        Nat.pow_succ]
      ring

theorem digitsNumber_append (first second : Bytes) :
    digitsNumber (first ++ second) = digitsNumber first * 10 ^ second.length + digitsNumber second := by
  rw [digitsNumber, List.foldl_append]
  exact digitsNumber_from _ second

theorem digitsNumber_of_digitsValue (digital : ∀ letter ∈ digits, isDigit letter = true)
    {start : ℕ} (read : digitsValue start digits = some value) :
    digits.foldl (fun value digit => 10 * value + (digit.toNat - 48)) start = value := by
  induction digits generalizing start with
  | nil => exact Option.some.inj read
  | cons digit digits ih =>
      have known := digital digit List.mem_cons_self
      have other : (digit == byte '_') = false := by
        apply beq_false_of_ne
        rintro rfl
        exact absurd known (by decide)
      rw [digitsValue, other, if_neg Bool.false_ne_true, if_pos known] at read
      exact ih (fun letter mem => digital letter (List.mem_cons_of_mem _ mem)) read

theorem digitsNumber_decimal (value : ℕ) : digitsNumber (decimal value) = value :=
  digitsNumber_of_digitsValue isDigit_of_mem_decimal digitsValue_decimal

theorem digitsNumber_padLeft (width value : ℕ) :
    digitsNumber (padLeft (byte '0') width (decimal value)) = value := by
  have zeros (count : ℕ) : digitsNumber (List.replicate count (byte '0')) = 0 := by
    induction count with
    | zero => rfl
    | succ count ih =>
        rw [List.replicate_succ, digitsNumber, List.foldl_cons]
        exact ih
  rw [padLeft, digitsNumber_append, zeros, Nat.zero_mul, Nat.zero_add, digitsNumber_decimal]

theorem isDigit_of_mem_padLeft {letter : UInt8}
    (mem : letter ∈ padLeft (byte '0') width (decimal value)) : isDigit letter = true := by
  rcases List.mem_append.mp mem with zero | digit
  · rw [List.eq_of_mem_replicate zero]
    rfl
  · exact isDigit_of_mem_decimal letter digit

theorem takeWhile_stretch {belongs : UInt8 → Bool} (inside : ∀ letter ∈ first, belongs letter = true)
    (stop : second.head?.any belongs = false) :
    (first ++ second).takeWhile belongs = first ∧ (first ++ second).dropWhile belongs = second := by
  induction first with
  | nil =>
      cases second with
      | nil => exact ⟨rfl, rfl⟩
      | cons letter second =>
          have other : belongs letter = false := stop
          simp [other]
  | cons letter first ih =>
      have known := inside letter List.mem_cons_self
      have rest := ih fun letter mem => inside letter (List.mem_cons_of_mem _ mem)
      simp [known, rest.1, rest.2]

theorem length_places (cost : ℕ) :
    (padLeft (byte '0') 8 (decimal (cost % 10 ^ 8))).length = 8 := by
  have short : (decimal (cost % 10 ^ 8)).length ≤ 8 :=
    length_decimal_le (by decide) (Nat.mod_lt _ (by decide))
  rw [padLeft, List.length_append, List.length_replicate]
  omega

theorem formatCost_eq (cost : ℕ) :
    formatCost cost = decimal (cost / 10 ^ 8) ++
      byte '.' :: padLeft (byte '0') 8 (decimal (cost % 10 ^ 8)) := by
  rw [formatCost, List.append_assoc]
  rfl

theorem head?_formatCost {sign : UInt8} (other : isDigit sign = false) :
    (formatCost cost).head? ≠ some sign := by
  intro starts
  cases shape : decimal (cost / 10 ^ 8) with
  | nil => exact decimal_ne_nil shape
  | cons letter rest =>
      have mem : letter ∈ decimal (cost / 10 ^ 8) := by
        rw [shape]
        exact List.mem_cons_self
      rw [formatCost_eq, shape, List.cons_append, List.head?_cons] at starts
      have known := isDigit_of_mem_decimal letter mem
      rw [Option.some.inj starts, other] at known
      cases known

theorem parseFloat_formatCost (cost : ℕ) : parseFloat (formatCost cost) = some (usd cost) := by
  let whole := decimal (cost / 10 ^ 8)
  let places := padLeft (byte '0') 8 (decimal (cost % 10 ^ 8))
  have digits : (whole ++ byte '.' :: places).takeWhile isDigit = whole ∧
      (whole ++ byte '.' :: places).dropWhile isDigit = byte '.' :: places :=
    takeWhile_stretch isDigit_of_mem_decimal rfl
  have ending : (places ++ []).takeWhile isDigit = places ∧ (places ++ []).dropWhile isDigit = [] :=
    takeWhile_stretch (fun _ mem => isDigit_of_mem_padLeft mem) rfl
  rw [List.append_nil] at ending
  have number : digitsNumber (whole ++ places) = cost := by
    rw [digitsNumber_append, digitsNumber_decimal, digitsNumber_padLeft, length_places]
    exact Nat.div_add_mod' cost (10 ^ 8)
  have nonempty : whole.isEmpty = false := by
    simpa using decimal_ne_nil
  rw [parseFloat, if_neg (head?_formatCost (by decide)), if_neg (head?_formatCost (by decide)),
    formatCost_eq, parseMagnitude]
  change (if _ then none else _) = _
  rw [digits.1, digits.2, List.head?_cons, if_pos rfl, if_pos rfl, List.tail_cons, ending.1, ending.2,
    nonempty, if_neg (by simp), parseExponent, Option.map_some, number, length_places, usd]
  rfl

end Numbers

/-!
## Lines
-/

section Lines

variable {model marker rest : Bytes} {input_tokens output_tokens cost : ℕ} {timestamp_secs : ℤ}

/-- The line without the line feed at its end. -/
def ledgerText (model : Bytes) (input_tokens output_tokens cost : ℕ) (timestamp_secs : ℤ) : Bytes :=
  ascii "\x7b\"model\":" ++ (byte '"' :: model) ++ ascii "\",\"input_tokens\":" ++
  decimal input_tokens ++ ascii ",\"output_tokens\":" ++ decimal output_tokens ++ ascii "," ++
  (cost_marker ++ (formatCost cost ++ ascii "," ++
    (ts_marker ++ (decimalInt timestamp_secs ++ ascii "\x7d"))))

theorem ledgerLine_eq :
    ledgerLine model input_tokens output_tokens cost timestamp_secs =
      ledgerText model input_tokens output_tokens cost timestamp_secs ++ [byte '\n'] := by
  have opening : ascii "\x7b\"model\":\"" = ascii "\x7b\"model\":" ++ [byte '"'] := rfl
  have cost_text : ascii ",\"cost_usd\":" = ascii "," ++ cost_marker := rfl
  have ts_text : ascii ",\"timestamp\":" = ascii "," ++ ts_marker := rfl
  have closing : ascii "\x7d\n" = ascii "\x7d" ++ [byte '\n'] := rfl
  rw [ledgerLine, ledgerText, opening, cost_text, ts_text, closing]
  simp only [List.append_assoc, List.cons_append, List.nil_append]

theorem quote_not_mem_decimal (value : ℕ) : byte '"' ∉ decimal value := by
  intro mem
  exact absurd (isDigit_of_mem_decimal _ mem) (by decide)

theorem passes_opening (known : marker = ts_marker ∨ marker = cost_marker)
    (absent : ¬marker <:+: byte '"' :: model) :
    Passes marker
      (ascii "\x7b\"model\":" ++ (byte '"' :: model) ++ ascii "\",\"input_tokens\":" ++
        decimal input_tokens ++ ascii ",\"output_tokens\":" ++ decimal output_tokens ++ ascii ",")
      rest := by
  have quoted : ∃ word, marker = byte '"' :: word := by
    rcases known with rfl | rfl
    · exact ⟨_, rfl⟩
    · exact ⟨_, rfl⟩
  rcases quoted with ⟨word, shape⟩
  have numeral (value : ℕ) (rest : Bytes) : Passes marker (decimal value) rest := by
    rw [shape]
    exact passes_of_not_mem (quote_not_mem_decimal value)
  have opening (rest : Bytes) : Passes marker (ascii "\x7b\"model\":") rest := by
    apply passes_of_diverge
    rcases known with rfl | rfl <;> decide
  have input (rest : Bytes) : Passes marker (ascii "\",\"input_tokens\":") rest := by
    apply passes_of_diverge
    rcases known with rfl | rfl <;> decide
  have output (rest : Bytes) : Passes marker (ascii ",\"output_tokens\":") rest := by
    apply passes_of_diverge
    rcases known with rfl | rfl <;> decide
  have comma (rest : Bytes) : Passes marker (ascii ",") rest := by
    apply passes_of_diverge
    rcases known with rfl | rfl <;> decide
  have name (rest : Bytes) :
      Passes marker (byte '"' :: model) (ascii "\",\"input_tokens\":" ++ rest) := by
    apply passes_of_not_inside absent
    rcases known with rfl | rfl <;> decide
  have named (rest : Bytes) :
      Passes marker (ascii "\x7b\"model\":" ++ (byte '"' :: model) ++ ascii "\",\"input_tokens\":")
        rest :=
    ((opening _).append (name rest)).append (input rest)
  exact ((((named _).append (numeral _ _)).append (output _)).append (numeral _ _)).append (comma _)

theorem passes_costs : Passes ts_marker (cost_marker ++ (formatCost cost ++ ascii ",")) rest := by
  have digits : byte '"' ∉ formatCost cost ++ ascii "," := by
    rw [formatCost_eq, List.mem_append, not_or, List.mem_append, not_or, List.mem_cons, not_or]
    refine ⟨⟨quote_not_mem_decimal _, by decide, ?_⟩, by decide⟩
    intro mem
    exact absurd (isDigit_of_mem_padLeft mem) (by decide)
  have word : ∃ word, ts_marker = byte '"' :: word := ⟨_, rfl⟩
  rcases word with ⟨word, shape⟩
  apply Passes.append
  · apply passes_of_diverge
    decide
  · rw [shape]
    exact passes_of_not_mem digits

theorem isFloatByte_of_mem_formatCost {letter : UInt8} (mem : letter ∈ formatCost cost) :
    isFloatByte letter = true := by
  rw [formatCost_eq, List.mem_append, List.mem_cons] at mem
  rcases mem with digit | rfl | digit
  · rw [isFloatByte, isDigit_of_mem_decimal letter digit, Bool.true_or]
  · decide
  · rw [isFloatByte, isDigit_of_mem_padLeft digit, Bool.true_or]

theorem timestampText_decimalInt (positive : 0 ≤ timestamp_secs) :
    timestampText (decimalInt timestamp_secs ++ ascii "\x7d") = decimalInt timestamp_secs := by
  have text : decimalInt timestamp_secs = decimal timestamp_secs.natAbs := by
    rw [decimalInt, if_neg (by omega)]
  have digits : (decimal timestamp_secs.natAbs ++ ascii "\x7d").takeWhile isDigit =
      decimal timestamp_secs.natAbs := (takeWhile_stretch isDigit_of_mem_decimal rfl).1
  have unsigned : (decimal timestamp_secs.natAbs ++ ascii "\x7d").head? ≠ some (byte '-') := by
    intro starts
    cases shape : decimal timestamp_secs.natAbs with
    | nil => exact decimal_ne_nil shape
    | cons letter rest =>
        have mem : letter ∈ decimal timestamp_secs.natAbs := by
          rw [shape]
          exact List.mem_cons_self
        have known := isDigit_of_mem_decimal letter mem
        rw [shape, List.cons_append, List.head?_cons] at starts
        rw [Option.some.inj starts] at known
        exact absurd known (by decide)
  rw [text, timestampText, if_neg unsigned, digits]

theorem parseLedgerLine_ledgerText (no_ts : ¬ts_marker <:+: byte '"' :: model)
    (no_cost : ¬cost_marker <:+: byte '"' :: model)
    (range : 0 ≤ timestamp_secs ∧ timestamp_secs < 2 ^ 63) :
    parseLedgerLine (ledgerText model input_tokens output_tokens cost timestamp_secs) =
      some { timestamp := timestamp_secs, cost_usd := usd cost } := by
  let opening := ascii "\x7b\"model\":" ++ (byte '"' :: model) ++ ascii "\",\"input_tokens\":" ++
    decimal input_tokens ++ ascii ",\"output_tokens\":" ++ decimal output_tokens ++ ascii ","
  let costs := formatCost cost ++ ascii ","
  let times := decimalInt timestamp_secs ++ ascii "\x7d"
  have text : ledgerText model input_tokens output_tokens cost timestamp_secs =
      opening ++ (cost_marker ++ (costs ++ (ts_marker ++ times))) := rfl
  have text' : ledgerText model input_tokens output_tokens cost timestamp_secs =
      (opening ++ (cost_marker ++ costs)) ++ (ts_marker ++ times) := by
    rw [text]
    simp only [List.append_assoc]
  have cost_idx : indexOf cost_marker (opening ++ (cost_marker ++ (costs ++ (ts_marker ++ times)))) =
      some opening.length := indexOf_of_passes (passes_opening (Or.inr rfl) no_cost)
  have ts_idx : indexOf ts_marker ((opening ++ (cost_marker ++ costs)) ++ (ts_marker ++ times)) =
      some (opening ++ (cost_marker ++ costs)).length :=
    indexOf_of_passes ((passes_opening (Or.inl rfl) no_ts).append passes_costs)
  rw [← text] at cost_idx
  rw [← text'] at ts_idx
  have behind_ts : (ledgerText model input_tokens output_tokens cost timestamp_secs).drop
      ((opening ++ (cost_marker ++ costs)).length + ts_marker.length) = times := by
    rw [text', ← List.drop_drop, List.drop_left, List.drop_left]
  have behind_cost : (ledgerText model input_tokens output_tokens cost timestamp_secs).drop
      (opening.length + cost_marker.length) = costs ++ (ts_marker ++ times) := by
    rw [text, ← List.drop_drop, List.drop_left, List.drop_left]
  have float : (costs ++ (ts_marker ++ times)).takeWhile isFloatByte = formatCost cost := by
    rw [List.append_assoc]
    exact (takeWhile_stretch (fun _ mem => isFloatByte_of_mem_formatCost mem) rfl).1
  rw [parseLedgerLine, ts_idx, cost_idx]
  simp only [Option.bind_eq_bind, Option.bind_some]
  rw [behind_ts, behind_cost, float, timestampText_decimalInt range.1,
    parseInt_decimalInt (by omega) (by omega), parseFloat_formatCost]
  rfl

end Lines

end Nullalis.Usage
