import Nullalis.Channels.ImapLines

/-!
# The framing of a response

A response consists of untagged lines, in which literals may occur, and of the tagged line at
its end. The scan for completeness and the one for literals step over literals. The scan for the
status does not, so that a line of a literal may speak for the server.
-/

namespace Nullalis.Channels.Email

/-!
## Responses
-/

/-- A text up to the end of a line, and perhaps a literal behind it. -/
structure Piece where
  text : Bytes
  literal : Option Bytes

/-- The line of the piece: its text, and the marker of the literal. -/
def Piece.line (piece : Piece) : Bytes :=
  piece.text ++ piece.literal.elim [] fun literal =>
    byte '\x7b' :: (Bytes.decimal literal.length ++ [byte '\x7d'])

def Piece.bytes (piece : Piece) : Bytes :=
  piece.line ++ ascii "\r\n" ++ piece.literal.getD []

/-- A line of the server: texts with literals behind them, and a last text. -/
structure UntaggedLine where
  literals : List (Bytes × Bytes)
  last : Bytes

def UntaggedLine.pieces (line : UntaggedLine) : List Piece :=
  line.literals.map (fun (text, literal) => ⟨text, some literal⟩) ++ [⟨line.last, none⟩]

/-- What the server says of the command. -/
inductive Status where
  | OK
  | NO
  | BAD
deriving DecidableEq

def Status.text : Status → Bytes
  | OK => ascii "OK"
  | NO => ascii "NO"
  | BAD => ascii "BAD"

/-- The response to a command. -/
structure Response where
  untagged : List UntaggedLine
  status : Status
  rest : Bytes

namespace Response

def pieces (response : Response) : List Piece :=
  response.untagged.flatMap UntaggedLine.pieces

def literals (response : Response) : List Bytes :=
  response.pieces.filterMap Piece.literal

def finalLine (response : Response) (tag : ℕ) : Bytes :=
  tagText tag ++ ascii " " ++ response.status.text ++ response.rest

def body (response : Response) : Bytes :=
  response.pieces.flatMap Piece.bytes

def bytes (response : Response) (tag : ℕ) : Bytes :=
  response.body ++ (response.finalLine tag ++ ascii "\r\n")

/-- The response is made as the protocol says, and its bytes fit into the memory. -/
structure WellFormed (response : Response) (tag : ℕ) : Prop where
  texts : ∀ piece ∈ response.pieces, byte '\r' ∉ piece.text ∧ byte '\n' ∉ piece.text
  untagged : ∀ line ∈ response.untagged, ∀ piece ∈ line.pieces.head?, ¬tagText tag <+: piece.line
  rest : byte '\r' ∉ response.rest ∧ byte '\n' ∉ response.rest
  words : response.rest = [] ∨ response.rest.head? = some (byte ' ')
  fits : (response.bytes tag).length < 2 ^ 64

/-- No line ends in what the client takes for the marker of a literal but is none. -/
def NoStrayMarker (response : Response) : Prop :=
  ∀ line ∈ response.untagged, ∀ length, imapLiteralLen line.last = some (some length) → length = 0

end Response

/-!
## Pieces
-/

/-- A piece that the client reads as it is. -/
structure Piece.Reads (piece : Piece) : Prop where
  plain : byte '\r' ∉ piece.text
  solid : byte '\n' ∉ piece.text
  unmarked : piece.literal = none →
    ∀ length, imapLiteralLen piece.text = some (some length) → length = 0

section Pieces

variable {piece : Piece} {pieces : List Piece} {resp tag line rest : Bytes} {i rounds : ℕ}

theorem Piece.not_mem_line {value : UInt8} (other : Bytes.isDigit value = false)
    (braces : value ≠ byte '\x7b' ∧ value ≠ byte '\x7d') (apart : value ∉ piece.text) :
    value ∉ piece.line := by
  rw [Piece.line, List.mem_append, not_or]
  refine ⟨apart, ?_⟩
  cases piece.literal with
  | none => simp
  | some literal =>
      rw [Option.elim_some, List.mem_cons, List.mem_append, List.mem_singleton]
      rintro (brace | digit | brace)
      · exact braces.1 brace
      · rw [Bytes.isDigit_of_mem_decimal value digit] at other
        cases other
      · exact braces.2 brace

theorem Piece.Reads.readsLine (reads : piece.Reads) (here : resp.drop i = piece.bytes ++ rest) :
    ReadsLine resp i piece.line (piece.literal.getD [] ++ rest) := by
  refine ⟨?_, piece.not_mem_line (by decide) (by decide) reads.plain,
    piece.not_mem_line (by decide) (by decide) reads.solid⟩
  rw [here, Piece.bytes]
  simp only [List.append_assoc]

theorem Piece.length_bytes (piece : Piece) :
    piece.bytes.length = piece.line.length + 2 + (piece.literal.getD []).length := by
  rw [Piece.bytes, List.length_append, List.length_append]
  rfl

theorem length_le_flatMap_bytes (pieces : List Piece) :
    pieces.length ≤ (pieces.flatMap Piece.bytes).length := by
  induction pieces with
  | nil => exact Nat.le_refl 0
  | cons piece pieces ih =>
      rw [List.flatMap_cons, List.length_append, List.length_cons, piece.length_bytes]
      omega

theorem Piece.Reads.imapLiteralLen_line (reads : piece.Reads)
    (small : (piece.literal.getD []).length < 2 ^ 64) :
    imapLiteralLen piece.line = some none ∧ piece.literal.getD [] = [] ∨
      imapLiteralLen piece.line = some (some (piece.literal.getD []).length) := by
  cases shape : piece.literal with
  | none =>
      have whole : piece.line = piece.text := by simp [Piece.line, shape]
      rcases exists_imapLiteralLen piece.text with ⟨none | length, read⟩
      · exact Or.inl ⟨by rw [whole, read], rfl⟩
      · have zero := reads.unmarked shape length read
        subst zero
        exact Or.inr (by rw [whole, read]; rfl)
  | some literal =>
      have whole : piece.line = piece.text ++
          byte '\x7b' :: (Bytes.decimal literal.length ++ [byte '\x7d']) := by
        simp [Piece.line, shape]
      rw [shape, Option.getD_some] at small
      right
      rw [whole]
      exact imapLiteralLen_marker piece.text small

theorem scanComplete_piece (reads : piece.Reads) (untagged : ¬tag <+: piece.line)
    (here : resp.drop i = piece.bytes ++ rest) (room : i + piece.bytes.length < 2 ^ 64) :
    scanComplete resp tag (rounds + 1) i = scanComplete resp tag rounds (i + piece.bytes.length) := by
  have line := reads.readsLine here
  rw [piece.length_bytes] at room ⊢
  rcases reads.imapLiteralLen_line (by omega) with ⟨unmarked, empty⟩ | marked
  · rw [scanComplete_plain line.lineAt untagged unmarked, empty]
    rfl
  · rw [line.scanComplete_literal untagged marked (by omega), if_neg (by simp)]
    congr 1
    omega

theorem scanComplete_pieces (reads : ∀ piece ∈ pieces, piece.Reads)
    (untagged : ∀ piece ∈ pieces, ¬tag <+: piece.line)
    (here : resp.drop i = pieces.flatMap Piece.bytes ++ rest)
    (room : i + (pieces.flatMap Piece.bytes).length < 2 ^ 64) :
    scanComplete resp tag (rounds + pieces.length) i =
      scanComplete resp tag rounds (i + (pieces.flatMap Piece.bytes).length) := by
  induction pieces generalizing i with
  | nil => rfl
  | cons piece pieces ih =>
      rw [List.flatMap_cons, List.append_assoc] at here
      rw [List.flatMap_cons, List.length_append] at room ⊢
      have behind : resp.drop (i + piece.bytes.length) = pieces.flatMap Piece.bytes ++ rest := by
        rw [← List.drop_drop, here, List.drop_left]
      have first : scanComplete resp tag (rounds + pieces.length + 1) i =
          scanComplete resp tag (rounds + pieces.length) (i + piece.bytes.length) :=
        scanComplete_piece (reads piece List.mem_cons_self) (untagged piece List.mem_cons_self) here
          (by omega)
      rw [List.length_cons, ← Nat.add_assoc, first,
        ih (fun piece mem => reads piece (List.mem_cons_of_mem _ mem))
          (fun piece mem => untagged piece (List.mem_cons_of_mem _ mem)) behind (by omega),
        Nat.add_assoc]

theorem scanComplete_partOfLine (solid : byte '\n' ∉ line)
    (here : resp.drop i <+: line ++ ascii "\r\n") (part : resp.drop i ≠ line ++ ascii "\r\n") :
    scanComplete resp tag rounds i = some false := by
  apply scanComplete_end
  have ended : resp.drop i <+: line ++ ascii "\r" := by
    have shorter : (resp.drop i).length < (line ++ ascii "\r\n").length := by
      refine Nat.lt_of_le_of_ne here.length_le ?_
      intro same
      exact part (here.eq_of_length same)
    have more : line ++ ascii "\r" <+: line ++ ascii "\r\n" :=
      ⟨ascii "\n", by rw [List.append_assoc]; rfl⟩
    refine List.prefix_of_prefix_length_le here more ?_
    rw [List.length_append] at shorter ⊢
    exact Nat.le_of_lt_succ shorter
  intro mem
  rcases List.mem_append.mp (ended.subset mem) with inside | last
  · exact solid inside
  · exact absurd last (by decide)

/-- A part of a piece does not complete a response. -/
theorem scanComplete_part (reads : piece.Reads) (untagged : ¬tag <+: piece.line)
    (here : resp.drop i <+: piece.bytes) (part : resp.drop i ≠ piece.bytes)
    (room : i + piece.bytes.length < 2 ^ 64) : scanComplete resp tag rounds i = some false := by
  have solid : byte '\n' ∉ piece.line := piece.not_mem_line (by decide) (by decide) reads.solid
  have start : piece.line ++ ascii "\r\n" <+: piece.bytes := ⟨_, rfl⟩
  rcases List.prefix_or_prefix_of_prefix here start with within | ⟨arrived, whole⟩
  · by_cases line : resp.drop i = piece.line ++ ascii "\r\n"
    · -- The line is there, and nothing of the literal.
      have readsLine : ReadsLine resp i piece.line [] :=
        ⟨by rw [line, List.append_nil],
          piece.not_mem_line (by decide) (by decide) reads.plain, solid⟩
      have more : piece.literal.getD [] ≠ [] := by
        intro empty
        apply part
        rw [line, Piece.bytes, empty, List.append_nil]
      rw [piece.length_bytes] at room
      rcases reads.imapLiteralLen_line (by omega) with ⟨-, empty⟩ | marked
      · exact absurd empty more
      · cases rounds with
        | zero => rfl
        | succ rounds =>
            have missing : ([] : Bytes).length < (piece.literal.getD []).length :=
              List.length_pos_iff.mpr more
            rw [readsLine.scanComplete_literal untagged marked (by omega), if_pos missing]
    · exact scanComplete_partOfLine solid within line
  · have readsLine : ReadsLine resp i piece.line arrived :=
      ⟨whole.symm, piece.not_mem_line (by decide) (by decide) reads.plain, solid⟩
    have missing : arrived.length < (piece.literal.getD []).length := by
      have shorter : (resp.drop i).length < piece.bytes.length := by
        refine Nat.lt_of_le_of_ne here.length_le ?_
        intro same
        exact part (here.eq_of_length same)
      rw [← whole, piece.length_bytes] at shorter
      simp only [List.length_append] at shorter
      have two : (ascii "\r\n").length = 2 := by decide
      omega
    rw [piece.length_bytes] at room
    rcases reads.imapLiteralLen_line (by omega) with ⟨-, empty⟩ | marked
    · rw [empty] at missing
      cases missing
    · cases rounds with
      | zero => rfl
      | succ rounds =>
          rw [readsLine.scanComplete_literal untagged marked (by omega), if_pos missing]

/-- A part of a response does not complete it. -/
theorem scanComplete_start (reads : ∀ piece ∈ pieces, piece.Reads)
    (untagged : ∀ piece ∈ pieces, ¬tag <+: piece.line) (solid : byte '\n' ∉ line)
    (here : resp.drop i <+: pieces.flatMap Piece.bytes ++ (line ++ ascii "\r\n"))
    (part : resp.drop i ≠ pieces.flatMap Piece.bytes ++ (line ++ ascii "\r\n"))
    (room : i + (pieces.flatMap Piece.bytes).length < 2 ^ 64) :
    scanComplete resp tag rounds i = some false := by
  induction pieces generalizing i rounds with
  | nil => exact scanComplete_partOfLine solid here part
  | cons piece pieces ih =>
      have first := reads piece List.mem_cons_self
      have untaggedFirst := untagged piece List.mem_cons_self
      rw [List.flatMap_cons, List.append_assoc] at here part
      rw [List.flatMap_cons, List.length_append] at room
      have start : piece.bytes <+: piece.bytes ++
          (pieces.flatMap Piece.bytes ++ (line ++ ascii "\r\n")) := List.prefix_append _ _
      rcases List.prefix_or_prefix_of_prefix here start with within | ⟨arrived, whole⟩
      · by_cases same : resp.drop i = piece.bytes
        · cases rounds with
          | zero => rfl
          | succ rounds =>
              have here : resp.drop i = piece.bytes ++ [] := by rw [same, List.append_nil]
              have behind : resp.drop (i + piece.bytes.length) = [] := by
                rw [← List.drop_drop, same, List.drop_length]
              rw [scanComplete_piece first untaggedFirst here (by omega)]
              apply scanComplete_end
              rw [behind]
              exact List.not_mem_nil
        · exact scanComplete_part first untaggedFirst within same (by omega)
      · cases rounds with
        | zero => rfl
        | succ rounds =>
            have behind : resp.drop (i + piece.bytes.length) = arrived := by
              rw [← List.drop_drop, ← whole, List.drop_left]
            rw [← whole] at here part
            rw [scanComplete_piece first untaggedFirst whole.symm (by omega)]
            apply ih (fun piece mem => reads piece (List.mem_cons_of_mem _ mem))
              (fun piece mem => untagged piece (List.mem_cons_of_mem _ mem))
            · rw [behind]
              exact (List.prefix_append_right_inj _).mp here
            · rw [behind]
              intro same
              exact part (congrArg (piece.bytes ++ ·) same)
            · omega

theorem scanComplete_pieces_tagged (reads : ∀ piece ∈ pieces, piece.Reads)
    (untagged : ∀ piece ∈ pieces, ¬tag <+: piece.line) (tagged : tag <+: line)
    (plain : byte '\r' ∉ line) (solid : byte '\n' ∉ line)
    (whole : resp = pieces.flatMap Piece.bytes ++ (line ++ ascii "\r\n" ++ rest))
    (room : (pieces.flatMap Piece.bytes).length < 2 ^ 64) :
    imapResponseComplete resp tag = some true := by
  have count := length_le_flatMap_bytes pieces
  obtain ⟨rounds, enough⟩ : ∃ rounds, resp.length + 1 = rounds + 1 + pieces.length := by
    refine ⟨resp.length - pieces.length, ?_⟩
    rw [whole, List.length_append]
    omega
  have start : resp.drop 0 = pieces.flatMap Piece.bytes ++ (line ++ ascii "\r\n" ++ rest) := whole
  have readsLine : ReadsLine resp (0 + (pieces.flatMap Piece.bytes).length) line rest := by
    refine ⟨?_, plain, solid⟩
    rw [← List.drop_drop, start, List.drop_left]
  rw [imapResponseComplete, enough, scanComplete_pieces reads untagged start (by omega)]
  exact scanComplete_tagged readsLine.lineAt tagged

end Pieces

/-!
## Literals
-/

section Literals

variable {piece : Piece} {pieces : List Piece} {resp line rest out : Bytes} {i rounds : ℕ}
  {found : Bool}

/-- A piece leaves its literal. -/
theorem scanLiterals_piece (reads : piece.Reads) (here : resp.drop i = piece.bytes ++ rest)
    (small : piece.bytes.length < 2 ^ 64) :
    ∃ found', (piece.literal ≠ none → found' = true) ∧ (found = true → found' = true) ∧
      scanLiterals resp (rounds + 1) i out found =
        scanLiterals resp rounds (i + piece.bytes.length) (out ++ piece.literal.getD []) found' := by
  have next := (reads.readsLine here).next
  rw [piece.length_bytes] at small ⊢
  rw [scanLiterals, if_neg (by omega), next.2.1]
  dsimp only
  rw [next.2.2.1]
  simp only [Option.bind_eq_bind, Option.bind_some]
  rcases reads.imapLiteralLen_line (by omega) with ⟨unmarked, empty⟩ | marked
  · have none : piece.literal ≠ Option.none → found = true := by
      intro some
      rcases Option.ne_none_iff_exists'.mp some with ⟨literal, shape⟩
      rw [shape, Option.getD_some] at empty
      subst empty
      have marker : imapLiteralLen piece.line = Option.some (Option.some 0) := by
        have whole : piece.line = piece.text ++
            byte '\x7b' :: (Bytes.decimal 0 ++ [byte '\x7d']) := by
          simp [Piece.line, shape]
        rw [whole]
        exact imapLiteralLen_marker piece.text (by decide)
      rw [unmarked] at marker
      cases marker
    refine ⟨found, none, fun already => already, ?_⟩
    rw [unmarked, empty, List.append_nil]
    rfl
  · refine ⟨true, fun _ => rfl, fun _ => rfl, ?_⟩
    have total : (piece.literal.getD []).length ≤ resp.length - (i + piece.line.length + 1 + 1) := by
      have behind := congrArg List.length next.2.2.2
      rw [List.length_drop, List.length_append] at behind
      omega
    have cut : sliceChecked resp (i + piece.line.length + 1 + 1)
        (i + piece.line.length + 1 + 1 + (piece.literal.getD []).length) =
          some (piece.literal.getD []) := by
      have size : i + piece.line.length + 1 + 1 + (piece.literal.getD []).length -
          (i + piece.line.length + 1 + 1) = (piece.literal.getD []).length := by omega
      rw [sliceChecked, if_pos (by omega), size, next.2.2.2, List.take_left]
    rw [marked, Option.bind_some]
    dsimp only
    rw [Nat.min_eq_left total, cut, Option.bind_some]
    congr 1
    omega

theorem scanLiterals_pieces (reads : ∀ piece ∈ pieces, piece.Reads)
    (here : resp.drop i = pieces.flatMap Piece.bytes ++ rest)
    (small : (pieces.flatMap Piece.bytes).length < 2 ^ 64) :
    ∃ found', ((∃ piece ∈ pieces, piece.literal ≠ none) → found' = true) ∧
      (found = true → found' = true) ∧
      scanLiterals resp (rounds + pieces.length) i out found =
        scanLiterals resp rounds (i + (pieces.flatMap Piece.bytes).length)
          (out ++ (pieces.filterMap Piece.literal).flatten) found' := by
  induction pieces generalizing i out found with
  | nil =>
      refine ⟨found, by simp, fun already => already, ?_⟩
      simp
  | cons piece pieces ih =>
      rw [List.flatMap_cons, List.append_assoc] at here
      rw [List.flatMap_cons, List.length_append] at small ⊢
      have behind : resp.drop (i + piece.bytes.length) = pieces.flatMap Piece.bytes ++ rest := by
        rw [← List.drop_drop, here, List.drop_left]
      have first : ∃ found', (piece.literal ≠ none → found' = true) ∧ (found = true → found' = true) ∧
          scanLiterals resp (rounds + pieces.length + 1) i out found =
            scanLiterals resp (rounds + pieces.length) (i + piece.bytes.length)
              (out ++ piece.literal.getD []) found' :=
        scanLiterals_piece (reads piece List.mem_cons_self) here (by omega)
      rcases first with ⟨foundFirst, here', kept, round⟩
      rcases ih (fun piece mem => reads piece (List.mem_cons_of_mem _ mem)) behind (by omega) with
        ⟨foundRest, later, kept', run⟩
      refine ⟨foundRest, ?_, fun already => kept' (kept already), ?_⟩
      · rintro ⟨other, mem, literal⟩
        rcases List.mem_cons.mp mem with rfl | mem
        · exact kept' (here' literal)
        · exact later ⟨other, mem, literal⟩
      · have joined : out ++ ((piece :: pieces).filterMap Piece.literal).flatten =
            out ++ piece.literal.getD [] ++ (pieces.filterMap Piece.literal).flatten := by
          cases shape : piece.literal <;> simp [shape]
        rw [List.length_cons, ← Nat.add_assoc, round, run, joined, Nat.add_assoc]

theorem scanLiterals_last (reads : ReadsLine resp i line []) :
    ∃ found', (found = true → found' = true) ∧
      scanLiterals resp (rounds + 2) i out found = some (out, found') := by
  have next := reads.next
  have ended : resp.length = i + line.length + 2 := by
    have behind := congrArg List.length next.2.2.2
    rw [List.length_drop, List.length_nil] at behind
    omega
  have stop (found : Bool) : scanLiterals resp (rounds + 1) (i + line.length + 2) out found =
      some (out, found) := by
    rw [scanLiterals, if_pos (by omega)]
  rw [scanLiterals, if_neg (by omega), next.2.1]
  dsimp only
  rw [next.2.2.1]
  simp only [Option.bind_eq_bind, Option.bind_some]
  rcases exists_imapLiteralLen line with ⟨none | length, read⟩
  · rw [read, Option.bind_some]
    exact ⟨found, fun already => already, stop found⟩
  · rw [read, Option.bind_some]
    have nothing : min length (resp.length - (i + line.length + 1 + 1)) = 0 := by
      rw [ended]
      omega
    have cut : sliceChecked resp (i + line.length + 2) (i + line.length + 2) = some [] := by
      rw [sliceChecked, if_pos (by omega), Nat.sub_self, List.take_zero]
    refine ⟨true, fun _ => rfl, ?_⟩
    dsimp only
    rw [nothing, Nat.add_zero, cut, Option.bind_some, List.append_nil]
    exact stop true

end Literals

/-!
## The verdict
-/

def saysOk (tag_str line : Bytes) : Bool :=
  Bytes.startsWith (trimLeft (ascii " ") (line.drop tag_str.length)) "OK"

theorem scanOk_eq (tag_str : Bytes) (lines : List Bytes) :
    scanOk tag_str lines =
      some (((lines.map (trimRight carriageReturns)).find? tag_str.isPrefixOf).elim false
        (saysOk tag_str)) := by
  induction lines with
  | nil => rfl
  | cons raw lines ih =>
      rw [scanOk, List.map_cons, List.find?_cons]
      cases tagged : tag_str.isPrefixOf (trimRight carriageReturns raw) with
      | false =>
          rw [if_neg Bool.false_ne_true, ih]
      | true =>
          have start := (List.isPrefixOf_iff_prefix.mp tagged).length_le
          rw [if_pos rfl, sliceChecked, if_pos ⟨start, Nat.le_refl _⟩, ← List.length_drop,
            List.take_length]
          rfl

theorem responseIsOk_ne_none (resp : Bytes) (tag : ℕ) : responseIsOk resp tag ≠ none := by
  rw [responseIsOk]
  split
  · nofun
  · rw [scanOk_eq]
    nofun

theorem not_mem_tagText {value : UInt8} (other : Bytes.isDigit value = false)
    (apart : value ≠ byte 'A') (tag : ℕ) : value ∉ tagText tag := by
  intro mem
  rcases List.mem_append.mp mem with letter | digit
  · exact apart (by simpa [ascii] using letter)
  · rcases List.mem_append.mp digit with zero | digit
    · rw [List.eq_of_mem_replicate zero] at other
      exact absurd other (by decide)
    · rw [Bytes.isDigit_of_mem_decimal value digit] at other
      cases other

namespace Response

variable {response : Response} {tag : ℕ}

/-- The first line before the tagged one that starts with the tag, for a reader that takes the
lines of literals for lines of the server. -/
def imitation (response : Response) (tag : ℕ) : Option Bytes :=
  ((Bytes.splitScalar (byte '\n') response.body).map (trimRight carriageReturns)).find?
    (tagText tag).isPrefixOf

theorem body_ends (response : Response) :
    response.body = [] ∨ ∃ before, response.body = before ++ [byte '\n'] := by
  rcases List.eq_nil_or_concat response.untagged with none | ⟨lines, line, shape⟩
  · left
    simp [body, pieces, none]
  · right
    refine ⟨(lines.flatMap UntaggedLine.pieces).flatMap Piece.bytes ++
      ((line.literals.map fun (text, literal) => (⟨text, some literal⟩ : Piece)).flatMap Piece.bytes ++
        (line.last ++ ascii "\r")), ?_⟩
    simp [body, pieces, shape, UntaggedLine.pieces, Piece.bytes, Piece.line, ascii]

theorem finalLine_solid {value : UInt8} (other : Bytes.isDigit value = false)
    (apart : value ∉ ascii "A OKNBD") (rest : value ∉ response.rest) :
    value ∉ response.finalLine tag := by
  have letter : value ≠ byte 'A' := by
    intro same
    exact apart (by rw [same]; decide)
  have word : value ∉ response.status.text := by
    intro mem
    apply apart
    cases status : response.status <;> rw [status] at mem <;>
      revert mem <;> simp only [Status.text, ascii] <;> simp <;> tauto
  simp only [finalLine, List.mem_append, not_or]
  exact ⟨⟨⟨not_mem_tagText other letter tag, fun mem => apart (by
    simp [ascii] at mem ⊢; tauto)⟩, word⟩, rest⟩

theorem saysOk_finalLine : saysOk (tagText tag) (response.finalLine tag) = true ↔
    response.status = Status.OK := by
  have behind : (response.finalLine tag).drop (tagText tag).length =
      ascii " " ++ (response.status.text ++ response.rest) := by
    rw [finalLine, List.append_assoc, List.append_assoc, List.drop_left]
  have trimmed : trimLeft (ascii " ") (ascii " " ++ (response.status.text ++ response.rest)) =
      response.status.text ++ response.rest := by
    cases response.status <;> rfl
  rw [saysOk, behind, trimmed]
  cases response.status <;> simp [Status.text, ascii, Bytes.startsWith, byte]

/-- The verdict on a response is that of the imitation, if there is one. -/
theorem responseIsOk_bytes (wellFormed : response.WellFormed tag)
    (short : (tagText tag).length ≤ 8) :
    responseIsOk (response.bytes tag) tag =
      some (saysOk (tagText tag) ((response.imitation tag).getD (response.finalLine tag))) := by
  have plain : byte '\r' ∉ response.finalLine tag :=
    finalLine_solid (by decide) (by decide) wellFormed.rest.1
  have solid : byte '\n' ∉ response.finalLine tag ++ ascii "\r" := by
    rw [List.mem_append, not_or]
    exact ⟨finalLine_solid (by decide) (by decide) wellFormed.rest.2, by decide⟩
  have last : Bytes.splitScalar (byte '\n') (response.finalLine tag ++ ascii "\r\n") =
      [response.finalLine tag ++ ascii "\r", []] := by
    have ending : response.finalLine tag ++ ascii "\r\n" =
        (response.finalLine tag ++ ascii "\r") ++ byte '\n' :: [] := by simp [ascii]
    rw [ending, Bytes.splitScalar_append solid]
    rfl
  have tagged : (tagText tag).isPrefixOf (response.finalLine tag) = true := by
    rw [List.isPrefixOf_iff_prefix]
    exact ⟨_, by rw [finalLine, List.append_assoc, List.append_assoc]⟩
  have found (lines : List Bytes)
      (split : Bytes.splitScalar (byte '\n') (response.bytes tag) =
        lines ++ [response.finalLine tag ++ ascii "\r", []])
      (body : Bytes.splitScalar (byte '\n') response.body = lines ++ [[]]) :
      responseIsOk (response.bytes tag) tag =
        some (saysOk (tagText tag) ((response.imitation tag).getD (response.finalLine tag))) := by
    have empty : (tagText tag).isPrefixOf (trimRight carriageReturns []) = false := rfl
    rw [responseIsOk, if_neg (by omega), scanOk_eq, split, imitation, body]
    simp only [List.map_append, List.map_cons, List.map_nil, List.find?_append, List.find?_cons,
      List.find?_nil, trimRight_append plain, tagged, empty]
    cases (lines.map (trimRight carriageReturns)).find? (tagText tag).isPrefixOf <;> rfl
  rcases response.body_ends with empty | ⟨before, body⟩
  · refine found [] ?_ ?_
    · rw [bytes, empty, List.nil_append, last, List.nil_append]
    · rw [empty]
      rfl
  · refine found (Bytes.splitScalar (byte '\n') before) ?_ ?_
    · have whole : response.bytes tag =
          before ++ byte '\n' :: (response.finalLine tag ++ ascii "\r\n") := by
        rw [bytes, body, List.append_assoc, List.singleton_append]
      rw [whole, Bytes.splitScalar_append_cons, last]
    · rw [body, Bytes.splitScalar_append_cons]
      rfl

end Response

/-!
## Framing
-/

/-- The scans find the end of the response, its status and its literals. -/
structure Framed (response : Response) (tag : ℕ) : Prop where
  incomplete : ∀ start, start <+: response.bytes tag → start ≠ response.bytes tag →
    imapResponseComplete start (tagText tag) = some false
  complete : imapResponseComplete (response.bytes tag) (tagText tag) = some true
  ok : responseIsOk (response.bytes tag) tag = some true ↔ response.status = Status.OK
  literals : (joinFetchLiterals (response.bytes tag)).map (·.getD []) =
    some response.literals.flatten

/-- The tag fits into the buffer of the client, and nothing before the tagged line imitates it. -/
structure Harmless (response : Response) (tag : ℕ) : Prop where
  behindLiterals : ∀ line ∈ response.untagged, ∀ piece ∈ line.pieces.tail, ¬tagText tag <+: piece.line
  short : 8 < (tagText tag).length → response.status ≠ Status.OK
  imitation : (tagText tag).length ≤ 8 → ∀ line ∈ response.imitation tag,
    (saysOk (tagText tag) line = true ↔ response.status = Status.OK)

namespace Response

variable {response : Response} {tag : ℕ}

theorem WellFormed.reads (wellFormed : response.WellFormed tag) (noStray : response.NoStrayMarker) :
    ∀ piece ∈ response.pieces, piece.Reads := by
  intro piece mem
  have text := wellFormed.texts piece mem
  refine ⟨text.1, text.2, ?_⟩
  intro none length read
  rcases List.mem_flatMap.mp mem with ⟨line, known, part⟩
  rcases List.mem_append.mp part with literal | last
  · rcases List.mem_map.mp literal with ⟨pair, -, rfl⟩
    cases none
  · rw [List.mem_singleton] at last
    subst last
    exact noStray line known length read

theorem WellFormed.tagged_piece (wellFormed : response.WellFormed tag)
    (harmless : ∀ line ∈ response.untagged, ∀ piece ∈ line.pieces.tail, ¬tagText tag <+: piece.line) :
    ∀ piece ∈ response.pieces, ¬tagText tag <+: piece.line := by
  intro piece mem
  rcases List.mem_flatMap.mp mem with ⟨line, known, part⟩
  cases shape : line.pieces with
  | nil =>
      rw [shape] at part
      cases part
  | cons first others =>
      rw [shape] at part
      rcases List.mem_cons.mp part with rfl | behind
      · exact wellFormed.untagged line known piece (by rw [shape]; rfl)
      · exact harmless line known piece (by rwa [shape])

theorem finalLine_tagged : tagText tag <+: response.finalLine tag :=
  ⟨_, by rw [finalLine, List.append_assoc, List.append_assoc]⟩

theorem WellFormed.body_fits (wellFormed : response.WellFormed tag) :
    (response.pieces.flatMap Piece.bytes).length < 2 ^ 64 := by
  have fits := wellFormed.fits
  rw [bytes, List.length_append] at fits
  exact Nat.lt_of_le_of_lt (Nat.le_add_right _ _) fits

theorem WellFormed.complete (wellFormed : response.WellFormed tag)
    (reads : ∀ piece ∈ response.pieces, piece.Reads)
    (untagged : ∀ piece ∈ response.pieces, ¬tagText tag <+: piece.line) :
    imapResponseComplete (response.bytes tag) (tagText tag) = some true ∧
      ∀ start, start <+: response.bytes tag → start ≠ response.bytes tag →
        imapResponseComplete start (tagText tag) = some false := by
  have plain : byte '\r' ∉ response.finalLine tag :=
    finalLine_solid (by decide) (by decide) wellFormed.rest.1
  have solid : byte '\n' ∉ response.finalLine tag :=
    finalLine_solid (by decide) (by decide) wellFormed.rest.2
  refine ⟨?_, ?_⟩
  · have whole : response.bytes tag = response.pieces.flatMap Piece.bytes ++
        (response.finalLine tag ++ ascii "\r\n" ++ []) := by
      rw [List.append_nil]
      rfl
    exact scanComplete_pieces_tagged reads untagged finalLine_tagged plain solid whole
      wellFormed.body_fits
  · intro start here part
    exact scanComplete_start reads untagged solid here part (by
      have fits := wellFormed.body_fits
      omega)

/-- A text that starts with the tag completes the response too early. -/
theorem WellFormed.untagged_of_incomplete (wellFormed : response.WellFormed tag)
    (reads : ∀ piece ∈ response.pieces, piece.Reads)
    (incomplete : ∀ start, start <+: response.bytes tag → start ≠ response.bytes tag →
      imapResponseComplete start (tagText tag) = some false) :
    ∀ piece ∈ response.pieces, ¬tagText tag <+: piece.line := by
  cases found : response.pieces.find? fun piece => (tagText tag).isPrefixOf piece.line with
  | none =>
      intro piece mem
      have none := List.find?_eq_none.mp found piece mem
      rwa [List.isPrefixOf_iff_prefix] at none
  | some piece =>
      exfalso
      rcases List.find?_eq_some_iff_append.mp found with ⟨tagged, before, after, whole, first⟩
      rw [List.isPrefixOf_iff_prefix] at tagged
      have known : piece ∈ response.pieces := by
        rw [whole]
        simp
      have earlier : ∀ piece ∈ before, piece ∈ response.pieces := by
        intro piece mem
        rw [whole]
        exact List.mem_append_left _ mem
      let start := before.flatMap Piece.bytes ++ (piece.line ++ ascii "\r\n" ++ [])
      obtain ⟨more, split, nonempty⟩ : ∃ more, response.bytes tag = start ++ more ∧ more ≠ [] := by
        refine ⟨piece.literal.getD [] ++ after.flatMap Piece.bytes ++
          (response.finalLine tag ++ ascii "\r\n"), ?_, by simp [ascii]⟩
        simp only [start, bytes, body, whole, List.flatMap_append, List.flatMap_cons, Piece.bytes,
          List.append_assoc, List.append_nil]
      have proper : start ≠ response.bytes tag := by
        intro same
        rw [← same] at split
        exact nonempty (List.self_eq_append_right.mp split)
      have fits := wellFormed.body_fits
      rw [whole, List.flatMap_append, List.length_append] at fits
      have early : imapResponseComplete start (tagText tag) = some true := by
        apply scanComplete_pieces_tagged (fun piece mem => reads piece (earlier piece mem)) _ tagged
          (piece.not_mem_line (by decide) (by decide) (reads piece known).plain)
          (piece.not_mem_line (by decide) (by decide) (reads piece known).solid) rfl (by omega)
        intro other mem
        have apart := first other mem
        rwa [Bool.not_eq_true', ← Bool.not_eq_true, List.isPrefixOf_iff_prefix] at apart
      rw [incomplete start ⟨more, split.symm⟩ proper] at early
      cases early

/-- The literals are joined in their order. -/
theorem WellFormed.joinFetchLiterals (wellFormed : response.WellFormed tag)
    (reads : ∀ piece ∈ response.pieces, piece.Reads) :
    (joinFetchLiterals (response.bytes tag)).map (·.getD []) = some response.literals.flatten := by
  have start : (response.bytes tag).drop 0 = response.pieces.flatMap Piece.bytes ++
      (response.finalLine tag ++ ascii "\r\n") := rfl
  have last : ReadsLine (response.bytes tag) (0 + (response.pieces.flatMap Piece.bytes).length)
      (response.finalLine tag) [] := by
    refine ⟨?_, finalLine_solid (by decide) (by decide) wellFormed.rest.1,
      finalLine_solid (by decide) (by decide) wellFormed.rest.2⟩
    rw [← List.drop_drop, start, List.drop_left, List.append_nil]
  obtain ⟨rounds, enough⟩ : ∃ rounds,
      (response.bytes tag).length + 1 = rounds + 2 + response.pieces.length := by
    have count := length_le_flatMap_bytes response.pieces
    have two : (ascii "\r\n").length = 2 := by decide
    refine ⟨(response.bytes tag).length - 1 - response.pieces.length, ?_⟩
    rw [bytes, body, List.length_append, List.length_append, two]
    omega
  have joined : ∃ found, ((∃ piece ∈ response.pieces, piece.literal ≠ none) → found = true) ∧
      (false = true → found = true) ∧
      scanLiterals (response.bytes tag) (rounds + 2 + response.pieces.length) 0 [] false =
        scanLiterals (response.bytes tag) (rounds + 2)
          (0 + (response.pieces.flatMap Piece.bytes).length) ([] ++ response.literals.flatten) found :=
    scanLiterals_pieces reads start wellFormed.body_fits
  rcases joined with ⟨found, any, -, run⟩
  have left : ∃ found', (found = true → found' = true) ∧
      scanLiterals (response.bytes tag) (rounds + 2)
        (0 + (response.pieces.flatMap Piece.bytes).length) ([] ++ response.literals.flatten) found =
          some ([] ++ response.literals.flatten, found') := scanLiterals_last last
  rcases left with ⟨found', kept, ended⟩
  rw [Email.joinFetchLiterals, enough, run, ended, List.nil_append]
  change some ((if found' = true then some response.literals.flatten else none).getD []) = _
  cases found' with
  | true => rfl
  | false =>
      have none : response.literals = [] := by
        rw [literals, List.filterMap_eq_nil_iff]
        intro piece mem
        by_contra some
        exact absurd (kept (any ⟨piece, mem, some⟩)) (by decide)
      rw [none]
      rfl

theorem WellFormed.framed_iff (wellFormed : response.WellFormed tag)
    (noStray : response.NoStrayMarker) : Framed response tag ↔ Harmless response tag := by
  have reads := wellFormed.reads noStray
  refine ⟨?_, ?_⟩
  · intro framed
    have untagged := wellFormed.untagged_of_incomplete reads framed.incomplete
    refine ⟨?_, ?_, ?_⟩
    · intro line known piece mem
      exact untagged piece (List.mem_flatMap.mpr ⟨line, known, List.mem_of_mem_tail mem⟩)
    · intro long ok
      have wrong := framed.ok.mpr ok
      rw [responseIsOk, if_pos long] at wrong
      cases wrong
    · intro short line first
      have verdict := responseIsOk_bytes wellFormed short
      rw [Option.mem_def.mp first, Option.getD_some] at verdict
      rw [← framed.ok, verdict, Option.some_inj]
  · intro harmless
    have complete := wellFormed.complete reads (wellFormed.tagged_piece harmless.behindLiterals)
    refine ⟨complete.2, complete.1, ?_, wellFormed.joinFetchLiterals reads⟩
    rcases Nat.lt_or_ge 8 (tagText tag).length with long | short
    · have verdict : responseIsOk (response.bytes tag) tag = some false := by
        rw [responseIsOk, if_pos long]
      simp [verdict, harmless.short long]
    · rw [responseIsOk_bytes wellFormed short, Option.some_inj]
      cases first : response.imitation tag with
      | none => exact saysOk_finalLine
      | some line => exact harmless.imitation short line first

end Response

/-- The responses are framed that are harmless, and no scan traps but the one for completeness,
where a line declares a literal that goes beyond the memory. -/
theorem imap_framing (resp mark : Bytes) (response : Response) (tag : ℕ) :
    (imapResponseComplete resp mark = none ↔ Overflows resp mark 0) ∧
      (responseIsOk resp tag ≠ none ∧ joinFetchLiterals resp ≠ none) ∧
        (response.WellFormed tag → response.NoStrayMarker →
          (Framed response tag ↔ Harmless response tag)) := by
  refine ⟨?_, ?_, ?_⟩
  · refine ⟨overflows_of_scanComplete, fun overflows => ?_⟩
    exact overflows.scanComplete_eq_none (by omega)
  · refine ⟨responseIsOk_ne_none resp tag, ?_⟩
    rw [joinFetchLiterals, Ne, Option.map_eq_none_iff]
    exact scanLiterals_ne_none
  · intro wellFormed noStray
    exact wellFormed.framed_iff noStray

/-- A letter with a completion of another command in it is framed. -/
theorem imap_framing_letter :
    Framed ⟨[⟨[(ascii "* 1 FETCH (BODY[TEXT] ", ascii "A0002 NO\r\n")], ascii ")"⟩], Status.OK, []⟩ 1 := by
  have marker : imapLiteralLen (ascii ")") = some none := by decide
  apply ((imap_framing [] [] _ 1).2.2 ?_ ?_).mpr
  · refine ⟨?_, by decide, ?_⟩
    · intro line known piece mem
      rw [List.mem_singleton.mp known] at mem
      rw [List.mem_singleton.mp mem]
      decide
    · intro _ line first
      have none : Response.imitation ⟨[⟨[(ascii "* 1 FETCH (BODY[TEXT] ", ascii "A0002 NO\r\n")],
          ascii ")"⟩], Status.OK, []⟩ 1 = Option.none := by decide
      rw [none] at first
      cases first
  · refine ⟨by decide, ?_, by decide, Or.inl rfl, by decide⟩
    intro line known piece first
    rw [List.mem_singleton.mp known] at first
    rw [← Option.mem_some.mp first]
    decide
  · intro line known length read
    rw [List.mem_singleton.mp known, marker] at read
    cases read

/-- A letter may say NO in the name of the server, and a server may make the client trap. -/
theorem not_imap_framing :
    (Response.WellFormed ⟨[⟨[(ascii "* 1 FETCH (BODY[TEXT] ", ascii "A0001 NO\r\n")], ascii ")"⟩],
        Status.OK, []⟩ 1 ∧
      Response.NoStrayMarker ⟨[⟨[(ascii "* 1 FETCH (BODY[TEXT] ", ascii "A0001 NO\r\n")], ascii ")"⟩],
        Status.OK, []⟩ ∧
      ¬Framed ⟨[⟨[(ascii "* 1 FETCH (BODY[TEXT] ", ascii "A0001 NO\r\n")], ascii ")"⟩],
        Status.OK, []⟩ 1) ∧
    imapResponseComplete (ascii "* 1 FETCH (BODY[TEXT] \x7b18446744073709551615\x7d\r\n")
      (tagText 1) = none := by
  have marker : imapLiteralLen (ascii ")") = some none := by decide
  refine ⟨⟨?_, ?_, ?_⟩, by decide⟩
  · refine ⟨by decide, ?_, by decide, Or.inl rfl, by decide⟩
    intro line known piece first
    rw [List.mem_singleton.mp known] at first
    rw [← Option.mem_some.mp first]
    decide
  · intro line known length read
    rw [List.mem_singleton.mp known, marker] at read
    cases read
  · intro framed
    have wrong := framed.ok.mpr rfl
    revert wrong
    decide

end Nullalis.Channels.Email
