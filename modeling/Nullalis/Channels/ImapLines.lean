import Nullalis.Base.Occurrence
import Nullalis.Channels.Imap

/-!
# The lines of a response

The scans read a response line by line. A line of any bytes is read without a trap. Only the scan
for completeness may trap, where the length of a literal is added to a position.
-/

namespace Nullalis.Channels.Email

/-!
## Lines
-/

section Lines

variable {resp tag line rest : Bytes} {i : ℕ}

theorem next_line (here : resp.drop i = line ++ byte '\n' :: rest) (solid : byte '\n' ∉ line) :
    i + line.length < resp.length ∧
      indexOfScalarPos resp i (byte '\n') = some (i + line.length) ∧
      sliceChecked resp i (i + line.length) = some line ∧
      resp.drop (i + line.length + 1) = rest := by
  have length := congrArg List.length here
  rw [List.length_drop, List.length_append, List.length_cons] at length
  refine ⟨by omega, ?_, ?_, ?_⟩
  · rw [indexOfScalarPos, here, Bytes.indexOfScalar_append_cons solid]
    rfl
  · have place : i + line.length - i = line.length := by omega
    rw [sliceChecked, if_pos (by omega), here, place, List.take_left]
  · rw [Nat.add_assoc, ← List.drop_drop, here, ← List.drop_drop, List.drop_left]
    rfl

theorem no_line (solid : byte '\n' ∉ resp.drop i) : indexOfScalarPos resp i (byte '\n') = none := by
  have absent : Bytes.indexOfScalar (byte '\n') (resp.drop i) = none := by
    rw [Bytes.indexOfScalar, List.findIdx?_eq_none_iff]
    intro value mem
    exact beq_false_of_ne fun same => solid (same ▸ mem)
  rw [indexOfScalarPos, absent]
  rfl

theorem trimRight_append (plain : byte '\r' ∉ line) :
    trimRight carriageReturns (line ++ ascii "\r") = line := by
  have back : (line ++ ascii "\r").reverse = byte '\r' :: line.reverse := by simp [ascii]
  have start : line.reverse.dropWhile carriageReturns.contains = line.reverse := by
    cases shape : line.reverse with
    | nil => rfl
    | cons last before =>
        have mem : last ∈ line := by
          rw [← List.mem_reverse, shape]
          exact List.mem_cons_self
        have other : carriageReturns.contains last = false := by
          have apart : last ≠ byte '\r' := fun same => plain (same ▸ mem)
          simpa [carriageReturns, ascii] using apart
        rw [List.dropWhile_cons, other]
        rfl
  have known : carriageReturns.contains (byte '\r') = true := by decide
  rw [trimRight, back, List.dropWhile_cons, known, if_pos rfl, start, List.reverse_reverse]

/-- The marker of a literal is read as its length. -/
theorem imapLiteralLen_marker (text : Bytes) {length : ℕ} (small : length < 2 ^ 64) :
    imapLiteralLen (text ++ byte '\x7b' :: (Bytes.decimal length ++ [byte '\x7d'])) =
      some (some length) := by
  have digits : ∀ letter ∈ Bytes.decimal length, Bytes.isDigit letter = true :=
    Bytes.isDigit_of_mem_decimal
  have notMem {value : UInt8} (other : Bytes.isDigit value = false) : value ∉ Bytes.decimal length := by
    intro mem
    rw [digits value mem] at other
    cases other
  have nonempty : Bytes.decimal length ≠ [] := Bytes.decimal_ne_nil
  have positive := List.length_pos_iff.mpr nonempty
  let line := text ++ byte '\x7b' :: (Bytes.decimal length ++ [byte '\x7d'])
  have lineLength : line.length = text.length + (Bytes.decimal length).length + 2 := by
    simp only [line, List.length_append, List.length_cons, List.length_nil]
    omega
  have last : line.getLast? = some (byte '\x7d') := by
    simp [line, List.getLast?_append, List.getLast?_cons]
  have marker : Bytes.lastIndexOfScalar (byte '\x7b') line = some text.length := by
    apply Bytes.lastIndexOfScalar_append_cons
    rw [List.mem_append, not_or]
    exact ⟨notMem (by decide), by decide⟩
  have cut : sliceChecked line (text.length + 1) (line.length - 1) = some (Bytes.decimal length) := by
    have size : line.length - 1 - (text.length + 1) = (Bytes.decimal length).length := by omega
    have behind : line.drop (text.length + 1) = Bytes.decimal length ++ [byte '\x7d'] := by
      rw [← List.drop_drop, List.drop_left]
      rfl
    rw [sliceChecked, if_pos (by omega), size, behind, List.take_left]
  have plus : (Bytes.decimal length).getLast? ≠ some (byte '+') := by
    intro sign
    exact notMem (by decide) (List.mem_of_getLast? sign)
  have value : Bytes.parseInt 0 (2 ^ 64 - 1) (Bytes.decimal length) = some (length : ℤ) := by
    have same : Bytes.decimal length = Bytes.decimalInt length := by
      rw [Bytes.decimalInt, if_neg (by omega)]
      rfl
    rw [same]
    exact Bytes.parseInt_decimalInt (by omega) (by omega)
  change imapLiteralLen line = _
  rw [imapLiteralLen, if_neg (by rw [last]; simp; omega), marker]
  dsimp only
  rw [cut]
  simp only [Option.bind_eq_bind, Option.bind_some]
  rw [if_neg plus, if_neg (by simpa using nonempty), value]
  rfl

theorem exists_imapLiteralLen (line : Bytes) : ∃ length, imapLiteralLen line = some length := by
  rw [imapLiteralLen]
  split
  · exact ⟨none, rfl⟩
  · rename_i marked
    rw [not_or, not_not] at marked
    split
    · exact ⟨none, rfl⟩
    · rename_i openIndex found
      -- The brace stands before the last byte, which is another one.
      have inside : openIndex + 1 ≤ line.length - 1 := by
        rcases Option.map_eq_some_iff.mp found with ⟨behind, ahead, rfl⟩
        rcases List.findIdx?_eq_some_iff_getElem.mp ahead with ⟨bound, here, -⟩
        rw [List.length_reverse] at bound
        rcases behind with _ | behind
        · exfalso
          have last : line.reverse.head? = some (byte '\x7d') := by
            rw [List.head?_reverse]
            exact marked.2
          rw [List.head?_eq_getElem?, List.getElem?_eq_getElem (by simpa using bound)] at last
          rw [Option.some.inj last] at here
          exact absurd here (by decide)
        · omega
      rw [sliceChecked, if_pos (by omega)]
      simp only [Option.bind_eq_bind, Option.bind_some]
      split
      · rw [sliceChecked, if_pos (by omega), Option.bind_some]
        split
        · exact ⟨none, rfl⟩
        · exact ⟨_, rfl⟩
      · split
        · exact ⟨none, rfl⟩
        · exact ⟨_, rfl⟩

/-- What the line reader makes of a line and the bytes behind it. -/
structure ReadsLine (resp : Bytes) (i : ℕ) (line rest : Bytes) : Prop where
  here : resp.drop i = line ++ ascii "\r\n" ++ rest
  plain : byte '\r' ∉ line
  solid : byte '\n' ∉ line

theorem ReadsLine.next (reads : ReadsLine resp i line rest) :
    i + line.length + 1 < resp.length ∧
      indexOfScalarPos resp i (byte '\n') = some (i + line.length + 1) ∧
      (sliceChecked resp i (i + line.length + 1)).map (trimRight carriageReturns) = some line ∧
      resp.drop (i + line.length + 2) = rest := by
  have here : resp.drop i = (line ++ ascii "\r") ++ byte '\n' :: rest := by
    rw [reads.here]
    simp [ascii]
  have solid : byte '\n' ∉ line ++ ascii "\r" := by
    rw [List.mem_append, not_or]
    exact ⟨reads.solid, by decide⟩
  have one : (ascii "\r").length = 1 := by decide
  have next := next_line here solid
  rw [List.length_append, one, ← Nat.add_assoc] at next
  refine ⟨next.1, next.2.1, ?_, next.2.2.2⟩
  rw [next.2.2.1, Option.map_some, trimRight_append reads.plain]

end Lines

/-!
## One round
-/

section Rounds

variable {resp tag line rest : Bytes} {i next rounds length : ℕ}

/-- The line that starts at a position, and the position behind it. -/
def lineAt (resp : Bytes) (i : ℕ) : Option (Bytes × ℕ) :=
  (indexOfScalarPos resp i (byte '\n')).map fun nl_rel =>
    (trimRight carriageReturns ((resp.drop i).take (nl_rel - i)), nl_rel + 1)

theorem lineAt_bounds (read : lineAt resp i = some (line, next)) :
    i < next ∧ next ≤ resp.length := by
  rcases Option.map_eq_some_iff.mp read with ⟨place, found, same⟩
  rcases Option.map_eq_some_iff.mp found with ⟨index, ahead, rfl⟩
  rcases List.findIdx?_eq_some_iff_getElem.mp ahead with ⟨bound, -, -⟩
  rw [List.length_drop] at bound
  cases same
  omega

theorem exists_lineAt (read : lineAt resp i = some (line, next)) :
    ∃ place, next = place + 1 ∧ indexOfScalarPos resp i (byte '\n') = some place ∧
      (sliceChecked resp i place).map (trimRight carriageReturns) = some line := by
  have bounds := lineAt_bounds read
  rcases Option.map_eq_some_iff.mp read with ⟨place, found, same⟩
  cases same
  refine ⟨place, rfl, found, ?_⟩
  rw [sliceChecked, if_pos (by omega)]
  rfl

theorem ReadsLine.lineAt (reads : ReadsLine resp i line rest) :
    lineAt resp i = some (line, i + line.length + 2) := by
  have next := reads.next
  rcases Option.map_eq_some_iff.mp next.2.2.1 with ⟨raw, slice, trimmed⟩
  rw [sliceChecked, if_pos (by omega)] at slice
  rw [Email.lineAt, next.2.1, Option.map_some, Option.some.inj slice, trimmed]

theorem scanComplete_missing (missing : lineAt resp i = none) :
    scanComplete resp tag rounds i = some false := by
  have none : indexOfScalarPos resp i (byte '\n') = none := Option.map_eq_none_iff.mp missing
  cases rounds with
  | zero => rfl
  | succ rounds =>
      rw [scanComplete, none]
      split <;> rfl

theorem scanComplete_end (solid : byte '\n' ∉ resp.drop i) :
    scanComplete resp tag rounds i = some false := by
  apply scanComplete_missing
  rw [lineAt, no_line solid]
  rfl

/-- A round goes on with the line that it reads. -/
theorem scanComplete_line (read : lineAt resp i = some (line, next)) :
    scanComplete resp tag (rounds + 1) i =
      if tag.isPrefixOf line then some true
      else (imapLiteralLen line).bind fun
        | none => scanComplete resp tag rounds next
        | some length => (addChecked next length).bind fun stop =>
            if resp.length < stop then some false else scanComplete resp tag rounds stop := by
  have bounds := lineAt_bounds read
  rcases exists_lineAt read with ⟨place, rfl, found, slice⟩
  rw [scanComplete, if_neg (by omega), found]
  dsimp only
  rw [slice]
  rfl

theorem scanComplete_tagged (read : lineAt resp i = some (line, next)) (tagged : tag <+: line) :
    scanComplete resp tag (rounds + 1) i = some true := by
  rw [scanComplete_line read, if_pos (List.isPrefixOf_iff_prefix.mpr tagged)]

theorem scanComplete_plain (read : lineAt resp i = some (line, next)) (untagged : ¬tag <+: line)
    (unmarked : imapLiteralLen line = some none) :
    scanComplete resp tag (rounds + 1) i = scanComplete resp tag rounds next := by
  rw [scanComplete_line read, if_neg (by rwa [List.isPrefixOf_iff_prefix]), unmarked]
  rfl

theorem scanComplete_literal (read : lineAt resp i = some (line, next)) (untagged : ¬tag <+: line)
    (marked : imapLiteralLen line = some (some length)) :
    scanComplete resp tag (rounds + 1) i =
      (addChecked next length).bind fun stop =>
        if resp.length < stop then some false else scanComplete resp tag rounds stop := by
  rw [scanComplete_line read, if_neg (by rwa [List.isPrefixOf_iff_prefix]), marked]
  rfl

theorem ReadsLine.scanComplete_literal (reads : ReadsLine resp i line rest) (untagged : ¬tag <+: line)
    (marked : imapLiteralLen line = some (some length))
    (room : i + line.length + 2 + length < 2 ^ 64) :
    scanComplete resp tag (rounds + 1) i =
      if rest.length < length then some false
      else scanComplete resp tag rounds (i + line.length + 2 + length) := by
  have total : resp.length = i + line.length + 2 + rest.length := by
    have next := reads.next
    have behind := congrArg List.length next.2.2.2
    rw [List.length_drop] at behind
    omega
  have short : resp.length < i + line.length + 2 + length ↔ rest.length < length := by omega
  rw [Email.scanComplete_literal reads.lineAt untagged marked, addChecked, if_pos room,
    Option.bind_some]
  simp only [short]

end Rounds

/-!
## Lines of any bytes
-/

section AnyBytes

variable {resp tag line : Bytes} {i next : ℕ}

/-- A line that the scan for completeness passes, with its literal. -/
structure Passes (resp tag : Bytes) (i stop : ℕ) (line : Bytes) (next length : ℕ) : Prop where
  read : lineAt resp i = some (line, next)
  untagged : ¬tag <+: line
  marker : imapLiteralLen line = some none ∧ length = 0 ∨ imapLiteralLen line = some (some length)
  arrived : next + length ≤ resp.length
  stop : stop = next + length

/-- A line that is reached from the position declares a literal beyond the memory. -/
inductive Overflows (resp tag : Bytes) : ℕ → Prop where
  | here {i line next length} (read : lineAt resp i = some (line, next)) (untagged : ¬tag <+: line)
      (marked : imapLiteralLen line = some (some length)) (large : 2 ^ 64 ≤ next + length) :
      Overflows resp tag i
  | later {i stop line next length} (passes : Passes resp tag i stop line next length)
      (overflows : Overflows resp tag stop) : Overflows resp tag i

theorem Overflows.scanComplete_eq_none (overflows : Overflows resp tag i) {rounds : ℕ}
    (enough : resp.length < i + rounds) : scanComplete resp tag rounds i = none := by
  induction overflows generalizing rounds with
  | here read untagged marked large =>
      have bounds := lineAt_bounds read
      obtain ⟨rounds, rfl⟩ : ∃ before, rounds = before + 1 := ⟨rounds - 1, by omega⟩
      rw [scanComplete_literal read untagged marked, addChecked, if_neg (by omega), Option.bind_none]
  | later passes _ ih =>
      have bounds := lineAt_bounds passes.read
      have arrived := passes.arrived
      have stop := passes.stop
      obtain ⟨rounds, rfl⟩ : ∃ before, rounds = before + 1 := ⟨rounds - 1, by omega⟩
      have rest := @ih rounds (by omega)
      rcases passes.marker with ⟨unmarked, zero⟩ | marked
      · rw [zero, Nat.add_zero] at stop
        rwa [scanComplete_plain passes.read passes.untagged unmarked, ← stop]
      · rw [scanComplete_literal passes.read passes.untagged marked, addChecked]
        split
        · rw [Option.bind_some, if_neg (by omega), ← stop]
          exact rest
        · rfl

theorem overflows_of_scanComplete {rounds : ℕ} (trap : scanComplete resp tag rounds i = none) :
    Overflows resp tag i := by
  induction rounds generalizing i with
  | zero => cases trap
  | succ rounds ih =>
      cases read : lineAt resp i with
      | none =>
          rw [scanComplete_missing read] at trap
          cases trap
      | some found =>
          rcases found with ⟨line, next⟩
          have bounds := lineAt_bounds read
          by_cases tagged : tag <+: line
          · rw [scanComplete_tagged read tagged] at trap
            cases trap
          · rcases exists_imapLiteralLen line with ⟨none | length, marker⟩
            · rw [scanComplete_plain read tagged marker] at trap
              exact Overflows.later ⟨read, tagged, Or.inl ⟨marker, rfl⟩, bounds.2, rfl⟩ (ih trap)
            · rw [scanComplete_literal read tagged marker, addChecked] at trap
              split at trap
              · rw [Option.bind_some] at trap
                split at trap
                · cases trap
                · exact Overflows.later ⟨read, tagged, Or.inr marker, by omega, rfl⟩ (ih trap)
              · exact Overflows.here read tagged marker (by omega)

theorem scanLiterals_ne_none {rounds : ℕ} {out : Bytes} {found : Bool} :
    scanLiterals resp rounds i out found ≠ none := by
  induction rounds generalizing i out found with
  | zero => nofun
  | succ rounds ih =>
      rw [scanLiterals]
      split
      · nofun
      · cases read : lineAt resp i with
        | none =>
            have none : indexOfScalarPos resp i (byte '\n') = none := Option.map_eq_none_iff.mp read
            rw [none]
            nofun
        | some pair =>
            rcases pair with ⟨line, next⟩
            have bounds := lineAt_bounds read
            rcases exists_lineAt read with ⟨place, ended, index, slice⟩
            rw [index]
            dsimp only
            rw [slice]
            simp only [Option.bind_eq_bind, Option.bind_some]
            rcases exists_imapLiteralLen line with ⟨none | length, marker⟩
            · rw [marker, Option.bind_some]
              exact ih
            · rw [marker, Option.bind_some]
              dsimp only
              rw [sliceChecked, if_pos (by omega), Option.bind_some]
              exact ih

end AnyBytes

end Nullalis.Channels.Email
