import Mathlib.Data.List.Basic
import Nullalis.Base.Occurrence
import Nullalis.Telegram.Html

/-!
# From Markdown to hypertext

A reply is written in Markdown and sent as hypertext. The scan looks for one construct after the
other at its cursor, and searches forward for what closes it.

The text is kept but for markup, unless the opening line of a closed code block goes on with a
backtick: the scan takes what follows that line for the code, and loses the rest of the line. What
follows a closed code block counts as the start of a line, though it need not be one.
-/

namespace Nullalis.Telegram

open Bytes (indexOf indexOfScalar)

/-- What a construct gives, what is left behind it, and whether that starts a line. -/
structure Found where
  nodes : List Node
  rest : Bytes
  line_start : Bool
deriving DecidableEq

def findTripleBacktick (text : Bytes) : Option ℕ :=
  indexOf (ascii "```") text

/-- A code block. The rest of the opening line is skipped if a line break ends it. -/
def codeBlock (text : Bytes) : Option Found :=
  if (ascii "```").isPrefixOf text then
    let opened := text.drop 3
    let content := if opened.head? = some (byte '\n') then opened.drop 1 else opened
    let actual := match indexOfScalar (byte '\n') opened with
      | some lang_end => opened.drop (lang_end + 1)
      | none => content
    (findTripleBacktick actual).map fun close =>
      let after := actual.drop (close + 3)
      { nodes := [.pre (actual.take close)]
        rest := if after.head? = some (byte '\n') then after.drop 1 else after
        line_start := true }
  else none

def inlineCode (text : Bytes) : Option Found :=
  if text.head? = some (byte '`') then
    (indexOfScalar (byte '`') (text.drop 1)).map fun offset =>
      { nodes := [.code ((text.drop 1).take offset)]
        rest := text.drop (offset + 2)
        line_start := false }
  else none

def heading (line_start : Bool) (text : Bytes) : Option Found :=
  let level := (text.takeWhile (· == byte '#')).length
  if line_start = true ∧ text.head? = some (byte '#') ∧ level ≤ 6 ∧
      text[level]? = some (byte ' ') then
    let title := text.drop (level + 1)
    match indexOfScalar (byte '\n') title with
    | some offset => some {
        nodes := [.bold (title.take offset), .text (byte '\n')]
        rest := title.drop (offset + 1)
        line_start := true }
    | none => some { nodes := [.bold title], rest := [], line_start := true }
  else none

def bulletText : Bytes := [226, 128, 162, 32]

def bullet (line_start : Bool) (text : Bytes) : Option Found :=
  if line_start = true ∧ (ascii "- ").isPrefixOf text then
    some { nodes := bulletText.map .text, rest := text.drop 2, line_start := false }
  else none

/-- What stands between two markers of two bytes. -/
def delimited (marker : Bytes) (node : Bytes → Node) (text : Bytes) : Option Found :=
  if marker.isPrefixOf text then
    (indexOf marker (text.drop 2)).map fun offset =>
      { nodes := [node ((text.drop 2).take offset)]
        rest := text.drop (2 + offset + 2)
        line_start := false }
  else none

def strikethrough (text : Bytes) : Option Found :=
  delimited (ascii "~~") .strike text

def bold (text : Bytes) : Option Found :=
  delimited (ascii "**") .bold text

def link (text : Bytes) : Option Found :=
  if text.head? = some (byte '[') then
    (indexOfScalar (byte ']') (text.drop 1)).bind fun close_bracket =>
      let after := text.drop (close_bracket + 2)
      if after.head? = some (byte '(') then
        (indexOfScalar (byte ')') (after.drop 1)).map fun close_paren =>
          { nodes := [.link ((after.drop 1).take close_paren) ((text.drop 1).take close_bracket)]
            rest := after.drop (close_paren + 2)
            line_start := false }
      else none
  else none

/-- Italics stand between the start of a word and its end. -/
def italic (prev : Option UInt8) (text : Bytes) : Option Found :=
  if text.head? = some (byte '_') ∧ text[1]? ≠ some (byte '_') ∧
      (prev = none ∨ prev = some (byte ' ') ∨ prev = some (byte '\n') ∨
        prev = some (byte '(')) then
    (indexOfScalar (byte '_') (text.drop 1)).bind fun offset =>
      let after := text.drop (offset + 2)
      if (after.head? = none ∨ after.head? = some (byte ' ') ∨ after.head? = some (byte '\n') ∨
          after.head? = some (byte ',') ∨ after.head? = some (byte '.') ∨
          after.head? = some (byte ')')) ∧ 0 < offset then
        some {
          nodes := [.italic ((text.drop 1).take offset)]
          rest := after
          line_start := false }
      else none
  else none

/-- The construct at the cursor, which stands before a byte. -/
def nextFound (prev : Option UInt8) (line_start : Bool) (value : UInt8) (rest : Bytes) : Found :=
  let text := value :: rest
  (codeBlock text <|> inlineCode text <|> heading line_start text <|> bullet line_start text <|>
    strikethrough text <|> bold text <|> link text <|> italic prev text).getD
      { nodes := [.text value], rest, line_start := value == byte '\n' }

def lastBefore (text rest : Bytes) : Option UInt8 :=
  (text.take (text.length - rest.length)).getLast?

/-- A place of the cursor: the byte before it, whether a line starts there, and the text. -/
structure Place where
  prev : Option UInt8
  line_start : Bool
  text : Bytes
deriving DecidableEq

/-- The nodes that the scan gives. -/
def scanMarkdown : ℕ → Option UInt8 → Bool → Bytes → List Node
  | _, _, _, [] => []
  | 0, _, _, _ => []
  | fuel + 1, prev, line_start, value :: rest =>
      let found := nextFound prev line_start value rest
      found.nodes ++
        scanMarkdown fuel (lastBefore (value :: rest) found.rest) found.line_start found.rest

/-- The places of the cursor. -/
def places : ℕ → Option UInt8 → Bool → Bytes → List Place
  | _, _, _, [] => []
  | 0, _, _, _ => []
  | fuel + 1, prev, line_start, value :: rest =>
      let found := nextFound prev line_start value rest
      { prev, line_start, text := value :: rest } ::
        places fuel (lastBefore (value :: rest) found.rest) found.line_start found.rest

def markdownToTelegramHtml (md : Bytes) : Bytes :=
  (scanMarkdown md.length none true md).flatMap Node.html

/-! ## What markup is -/

/-- The cursor stands at the start of the text or behind a line break. -/
def LineStart (prev : Option UInt8) : Prop :=
  prev = none ∨ prev = some (byte '\n')

def openingLine (text : Bytes) : Bytes :=
  text.takeWhile (· ≠ byte '\n')

/-- A byte that is kept, or a construct with its markup. A block may skip the rest of its opening
line, and a block and a heading may take the line break that follows. -/
inductive Piece where
  | char (value : UInt8)
  | bullet
  | heading (level : ℕ) (title ending : Bytes)
  | block (info body ending : Bytes)
  | fenced (body ending : Bytes)
  | code (body : Bytes)
  | strike (body : Bytes)
  | bold (body : Bytes)
  | link (label href : Bytes)
  | italic (body : Bytes)
deriving DecidableEq

namespace Piece

def source : Piece → Bytes
  | .char value => [value]
  | .bullet => ascii "- "
  | .heading level title ending =>
      List.replicate level (byte '#') ++ byte ' ' :: (title ++ ending)
  | .block info body ending =>
      ascii "```" ++ (info ++ byte '\n' :: (body ++ (ascii "```" ++ ending)))
  | .fenced body ending => ascii "```" ++ (body ++ (ascii "```" ++ ending))
  | .code body => byte '`' :: (body ++ [byte '`'])
  | .strike body => ascii "~~" ++ (body ++ ascii "~~")
  | .bold body => ascii "**" ++ (body ++ ascii "**")
  | .link label href => byte '[' :: (label ++ byte ']' :: byte '(' :: (href ++ [byte ')']))
  | .italic body => byte '_' :: (body ++ [byte '_'])

def nodes : Piece → List Node
  | .char value => [.text value]
  | .bullet => bulletText.map .text
  | .heading _ title ending => .bold title :: ending.map .text
  | .block _ body _ => [.pre body]
  | .fenced body _ => [.pre body]
  | .code body => [.code body]
  | .strike body => [.strike body]
  | .bold body => [.bold body]
  | .link label href => [.link href label]
  | .italic body => [.italic body]

def Ended (ending rest : Bytes) : Prop :=
  ending = [byte '\n'] ∨ ending = [] ∧ rest.head? ≠ some (byte '\n')

def IsHeading (level : ℕ) (title ending rest : Bytes) : Prop :=
  1 ≤ level ∧ level ≤ 6 ∧ byte '\n' ∉ title ∧ (ending = [byte '\n'] ∨ ending = [] ∧ rest = [])

/-- The construct is markup where it stands: a bullet and a heading start a line, and a block skips
the rest of its opening line if and only if that has no backtick. -/
def Permitted (prev : Option UInt8) (rest : Bytes) : Piece → Prop
  | .bullet => LineStart prev
  | .heading level title ending => LineStart prev ∧ IsHeading level title ending rest
  | .block info _ ending => byte '\n' ∉ info ∧ byte '`' ∉ info ∧ Ended ending rest
  | .fenced body ending =>
      byte '`' ∈ openingLine (body ++ (ascii "```" ++ ending) ++ rest) ∧ Ended ending rest
  | _ => True

end Piece

/-- Nodes are a text of which nothing but markup is deleted. -/
inductive Reads : Option UInt8 → Bytes → List Node → Prop where
  | nil {prev : Option UInt8} : Reads prev [] []
  | piece {prev : Option UInt8} {piece : Piece} {rest : Bytes} {nodes : List Node}
      (permitted : piece.Permitted prev rest) (reads : Reads piece.source.getLast? rest nodes) :
      Reads prev (piece.source ++ rest) (piece.nodes ++ nodes)

/-- Hypertext reads as nodes that are the text without its markup. -/
def Faithful (md html : Bytes) : Prop :=
  ∃ nodes, readHtml html.length html = some nodes ∧ Reads none md nodes

/-- At a place of the cursor, the opening line of a closed block has no further backtick if it is
skipped, and a heading and a bullet start a line. -/
structure Place.Clean (place : Place) : Prop where
  block : (codeBlock place.text).isSome → byte '\n' ∈ place.text.drop 3 →
    byte '`' ∉ openingLine (place.text.drop 3)
  start : (heading place.line_start place.text).isSome ∨
    (bullet place.line_start place.text).isSome → LineStart place.prev

/-! ## What the scan takes -/

variable {text rest before after title body marker md : Bytes} {value delimiter : UInt8}
  {line_start : Bool} {prev : Option UInt8} {found : Found} {index fuel : ℕ}

theorem split_indexOfScalar (is_index : indexOfScalar delimiter text = some index) :
    ∃ before after, text = before ++ delimiter :: after ∧ delimiter ∉ before ∧
      text.take index = before ∧ text.drop (index + 1) = after := by
  refine ⟨_, _, Bytes.eq_append_of_indexOfScalar is_index, ?_, rfl, rfl⟩
  obtain ⟨_, _, first⟩ := List.findIdx?_eq_some_iff_getElem.mp is_index
  intro mem
  obtain ⟨place, below, same⟩ := List.mem_take_iff_getElem.mp mem
  exact first place (by omega) (by simpa using same)

theorem not_mem_of_indexOfScalar (missing : indexOfScalar delimiter text = none) :
    delimiter ∉ text := by
  rw [← Bytes.indexOfScalar_isSome_iff, missing]
  exact Bool.false_ne_true

theorem split_indexOf (is_index : indexOf marker text = some index) :
    ∃ before after, text = before ++ (marker ++ after) ∧ text.take index = before ∧
      text.drop (index + marker.length) = after := by
  have whole := Bytes.append_of_indexOf is_index
  rw [List.append_assoc] at whole
  exact ⟨_, _, whole, rfl, rfl⟩

theorem openingLine_append (line : byte '\n' ∉ before) :
    openingLine (before ++ byte '\n' :: after) = before := by
  have inner : ∀ value ∈ before, decide (value ≠ byte '\n') = true := by
    intro value mem
    rw [decide_eq_true_eq]
    rintro rfl
    exact line mem
  rw [openingLine, List.takeWhile_append_of_pos inner]
  simp

namespace Piece

/-- What holds of a construct that the scan takes, wherever it takes it. -/
def Taken (line_start : Bool) (rest : Bytes) : Piece → Prop
  | .bullet => line_start = true
  | .heading level title ending => line_start = true ∧ IsHeading level title ending rest
  | .block info _ ending => byte '\n' ∉ info ∧ Ended ending rest
  | .fenced body ending =>
      byte '\n' ∉ body ++ (ascii "```" ++ ending) ++ rest ∧ Ended ending rest
  | _ => True

/-- The part of a block that is lost, unless it has no backtick. -/
def skipped : Piece → Bytes
  | .block info _ _ => info
  | _ => []

/-- A bullet or a heading. -/
def StartsLine : Piece → Prop
  | .bullet => True
  | .heading _ _ _ => True
  | _ => False

/-- What the scan has found is a construct. -/
structure Gives (piece : Piece) (line_start : Bool) (text : Bytes) (found : Found) : Prop where
  source : text = piece.source ++ found.rest
  nodes : found.nodes = piece.nodes
  taken : piece.Taken line_start found.rest

theorem exists_ended (after : Bytes) :
    ∃ ending, after = ending ++ (if after.head? = some (byte '\n') then after.drop 1 else after) ∧
      Ended ending (if after.head? = some (byte '\n') then after.drop 1 else after) := by
  split_ifs with broken
  · obtain ⟨rest, rfl⟩ : ∃ rest, after = byte '\n' :: rest := List.head?_eq_some_iff.mp broken
    exact ⟨[byte '\n'], rfl, .inl rfl⟩
  · exact ⟨[], rfl, .inr ⟨rfl, broken⟩⟩

end Piece

/-- A place is clean if and only if the construct there is. -/
def Piece.CleanAt (piece : Piece) (prev : Option UInt8) : Prop :=
  byte '`' ∉ piece.skipped ∧ (piece.StartsLine → LineStart prev)

theorem no_start_of_head (is_head : text.head? = some value) (not_hash : value ≠ byte '#')
    (not_dash : value ≠ byte '-') :
    heading line_start text = none ∧ bullet line_start text = none := by
  obtain ⟨rest, rfl⟩ : ∃ rest, text = value :: rest := List.head?_eq_some_iff.mp is_head
  constructor
  · rw [heading, if_neg]
    rintro ⟨_, hash, _⟩
    exact not_hash (Option.some.inj hash)
  · rw [bullet, if_neg]
    rintro ⟨_, dash⟩
    obtain ⟨more, whole⟩ := List.isPrefixOf_iff_prefix.mp dash
    exact not_dash (List.cons.inj whole).1.symm

theorem clean_of_fence {opened : Bytes}
    (is_found : codeBlock (ascii "```" ++ opened) = some found) :
    ({ prev, line_start, text := ascii "```" ++ opened : Place }.Clean ↔
      (byte '\n' ∈ opened → byte '`' ∉ openingLine opened)) := by
  have no_start := @no_start_of_head (ascii "```" ++ opened) (byte '`') line_start rfl
    (by decide) (by decide)
  constructor
  · intro clean
    exact clean.block (by rw [is_found]; rfl)
  · intro clean
    refine ⟨fun _ => clean, ?_⟩
    rw [no_start.1, no_start.2]
    rintro (started | started)
    · cases started
    · cases started

theorem codeBlock_gives (is_found : codeBlock text = some found) :
    ∃ piece : Piece, piece.Gives line_start text found ∧
      ({ prev, line_start, text : Place }.Clean ↔ piece.CleanAt prev) := by
  have fence : (ascii "```").isPrefixOf text = true := by
    by_contra no_fence
    rw [codeBlock, if_neg no_fence] at is_found
    cases is_found
  obtain ⟨opened, rfl⟩ := List.isPrefixOf_iff_prefix.mp fence
  have clean := @clean_of_fence line_start prev found opened is_found
  have behind : (ascii "```" ++ opened).drop 3 = opened := rfl
  simp only [codeBlock, if_pos fence, behind] at is_found
  cases newline : indexOfScalar (byte '\n') opened with
  | some lang_end =>
      obtain ⟨info, actual, rfl, line, _, skipped⟩ := split_indexOfScalar newline
      simp only [newline, skipped] at is_found
      obtain ⟨close, closed, rfl⟩ := Option.map_eq_some_iff.mp is_found
      obtain ⟨body, after, rfl, taken, dropped⟩ := split_indexOf closed
      have dropped' : (body ++ (ascii "```" ++ after)).drop (close + 3) = after := dropped
      obtain ⟨ending, whole, ended⟩ := Piece.exists_ended after
      refine ⟨.block info body ending, ⟨?_, ?_, ?_⟩, ?_⟩
      · simp only [dropped', Piece.source]
        conv_lhs => rw [whole]
        simp
      · simp [taken, Piece.nodes]
      · simpa only [dropped'] using ⟨line, ended⟩
      · rw [clean, openingLine_append line]
        simp [Piece.CleanAt, Piece.skipped, Piece.StartsLine]
  | none =>
      have line := not_mem_of_indexOfScalar newline
      have not_broken : opened.head? ≠ some (byte '\n') := fun broken =>
        line (List.mem_of_head? broken)
      simp only [newline, if_neg not_broken] at is_found
      obtain ⟨close, closed, rfl⟩ := Option.map_eq_some_iff.mp is_found
      obtain ⟨body, after, rfl, taken, dropped⟩ := split_indexOf closed
      have dropped' : (body ++ (ascii "```" ++ after)).drop (close + 3) = after := dropped
      obtain ⟨ending, whole, ended⟩ := Piece.exists_ended after
      refine ⟨.fenced body ending, ⟨?_, ?_, ?_⟩, ?_⟩
      · simp only [dropped', Piece.source]
        conv_lhs => rw [whole]
        simp
      · simp [taken, Piece.nodes]
      · refine ⟨?_, by simpa only [dropped'] using ended⟩
        simp only [dropped']
        rw [whole] at line
        simpa using line
      · rw [clean]
        simp [Piece.CleanAt, Piece.skipped, Piece.StartsLine, line]

/-- A construct that skips nothing and need not start a line. -/
def Piece.Plain (piece : Piece) : Prop :=
  piece.skipped = [] ∧ ¬piece.StartsLine

theorem inlineCode_gives (is_found : inlineCode text = some found) :
    ∃ piece : Piece, piece.Gives line_start text found ∧ piece.Plain := by
  rw [inlineCode] at is_found
  split_ifs at is_found with opens
  obtain ⟨inner, rfl⟩ : ∃ inner, text = byte '`' :: inner := List.head?_eq_some_iff.mp opens
  obtain ⟨offset, closed, rfl⟩ := Option.map_eq_some_iff.mp is_found
  obtain ⟨body, after, rfl, _, taken, dropped⟩ := split_indexOfScalar closed
  refine ⟨.code body, ⟨?_, ?_, trivial⟩, rfl, id⟩
  · simpa [Piece.source] using dropped.symm
  · simpa [Piece.nodes] using taken

theorem delimited_gives {node : Bytes → Node} {piece : Bytes → Piece} (long : marker.length = 2)
    (source : ∀ body, (piece body).source = marker ++ (body ++ marker))
    (nodes : ∀ body, (piece body).nodes = [node body])
    (taken : ∀ body, (piece body).Taken line_start found.rest)
    (is_found : delimited marker node text = some found) :
    ∃ body, (piece body).Gives line_start text found := by
  rw [delimited] at is_found
  split_ifs at is_found with opens
  obtain ⟨inner, rfl⟩ := List.isPrefixOf_iff_prefix.mp opens
  have behind : (marker ++ inner).drop 2 = inner := List.drop_left' long
  simp only [behind] at is_found
  obtain ⟨offset, closed, rfl⟩ := Option.map_eq_some_iff.mp is_found
  obtain ⟨body, after, rfl, is_body, dropped⟩ := split_indexOf closed
  refine ⟨body, ?_, ?_, taken body⟩
  · have left : (marker ++ (body ++ (marker ++ after))).drop (2 + offset + 2) = after := by
      rw [Nat.add_assoc, ← List.drop_drop, behind, ← long, dropped]
    simp only [left, source, List.append_assoc]
  · simp only [nodes, is_body]

theorem link_gives (is_found : link text = some found) :
    ∃ piece : Piece, piece.Gives line_start text found ∧ piece.Plain := by
  rw [link] at is_found
  split_ifs at is_found with opens
  obtain ⟨inner, rfl⟩ : ∃ inner, text = byte '[' :: inner := List.head?_eq_some_iff.mp opens
  obtain ⟨close_bracket, closed, is_found⟩ := Option.bind_eq_some_iff.mp is_found
  obtain ⟨label, after, rfl, _, taken, dropped⟩ := split_indexOfScalar closed
  have behind : (byte '[' :: (label ++ byte ']' :: after)).drop (close_bracket + 2) = after :=
    dropped
  simp only [behind] at is_found
  split_ifs at is_found with parenthesis
  obtain ⟨target, rfl⟩ : ∃ target, after = byte '(' :: target :=
    List.head?_eq_some_iff.mp parenthesis
  obtain ⟨close_paren, closed, rfl⟩ := Option.map_eq_some_iff.mp is_found
  obtain ⟨href, after, rfl, _, is_href, left⟩ := split_indexOfScalar closed
  refine ⟨.link label href, ⟨?_, ?_, trivial⟩, rfl, id⟩
  · simpa [Piece.source] using left.symm
  · simpa [Piece.nodes] using ⟨is_href, taken⟩

theorem italic_gives (is_found : italic prev text = some found) :
    ∃ piece : Piece, piece.Gives line_start text found ∧ piece.Plain := by
  rw [italic] at is_found
  split_ifs at is_found with opens
  obtain ⟨inner, rfl⟩ : ∃ inner, text = byte '_' :: inner := List.head?_eq_some_iff.mp opens.1
  obtain ⟨offset, closed, is_found⟩ := Option.bind_eq_some_iff.mp is_found
  obtain ⟨body, after, rfl, _, taken, dropped⟩ := split_indexOfScalar closed
  dsimp only at is_found
  split_ifs at is_found
  obtain rfl := Option.some.inj is_found
  refine ⟨.italic body, ⟨?_, ?_, trivial⟩, rfl, id⟩
  · simpa [Piece.source] using dropped.symm
  · simpa [Piece.nodes] using taken

theorem bullet_gives (is_found : bullet line_start text = some found) :
    Piece.bullet.Gives line_start text found := by
  rw [bullet] at is_found
  split_ifs at is_found with opens
  obtain ⟨rest, rfl⟩ := List.isPrefixOf_iff_prefix.mp opens.2
  obtain rfl := Option.some.inj is_found
  exact ⟨rfl, rfl, opens.1⟩

theorem split_signs (blank : text[(text.takeWhile (· == value)).length]? = some delimiter) :
    text = List.replicate (text.takeWhile (· == value)).length value ++
      delimiter :: text.drop ((text.takeWhile (· == value)).length + 1) := by
  obtain ⟨below, here⟩ := List.getElem?_eq_some_iff.mp blank
  have signs : List.replicate (text.takeWhile (· == value)).length value =
      text.takeWhile (· == value) := by
    symm
    rw [List.eq_replicate_iff]
    exact ⟨rfl, fun other mem => by simpa using List.mem_takeWhile_imp mem⟩
  have taken : text.takeWhile (· == value) = text.take (text.takeWhile (· == value)).length :=
    List.prefix_iff_eq_take.mp (List.takeWhile_prefix _)
  have whole := (List.take_append_drop (text.takeWhile (· == value)).length text).symm
  rw [← taken] at whole
  rw [signs, ← here, ← List.drop_eq_getElem_cons below]
  exact whole

theorem heading_gives (is_found : heading line_start text = some found) :
    ∃ level title ending, (Piece.heading level title ending).Gives line_start text found := by
  rw [heading] at is_found
  split_ifs at is_found with opens
  obtain ⟨started, hash, short, blank⟩ := opens
  have whole := split_signs blank
  have positive : 1 ≤ (text.takeWhile (· == byte '#')).length := by
    obtain ⟨rest, rfl⟩ : ∃ rest, text = byte '#' :: rest := List.head?_eq_some_iff.mp hash
    simp
  cases newline : indexOfScalar (byte '\n')
      (text.drop ((text.takeWhile (· == byte '#')).length + 1)) with
  | some offset =>
      obtain ⟨title, after, apart, line, taken, dropped⟩ := split_indexOfScalar newline
      simp only [newline] at is_found
      obtain rfl := Option.some.inj is_found
      refine ⟨_, title, [byte '\n'], ?_, ?_, started, positive, short, line, .inl rfl⟩
      · simp only [dropped, Piece.source]
        conv_lhs => rw [whole, apart]
        simp
      · simp [taken, Piece.nodes]
  | none =>
      simp only [newline] at is_found
      obtain rfl := Option.some.inj is_found
      refine ⟨_, _, [], ?_, rfl, started, positive, short, not_mem_of_indexOfScalar newline,
        .inr ⟨rfl, rfl⟩⟩
      simpa [Piece.source] using whole

theorem clean_of_no_block (no_block : codeBlock text = none) :
    ({ prev, line_start, text : Place }.Clean ↔
      ((heading line_start text).isSome ∨ (bullet line_start text).isSome → LineStart prev)) := by
  constructor
  · exact Place.Clean.start
  · intro starts
    refine ⟨fun block => ?_, starts⟩
    rw [no_block] at block
    cases block

theorem cleanAt_of_plain {piece : Piece} (plain : piece.Plain) : piece.CleanAt prev := by
  refine ⟨?_, fun starts => absurd starts plain.2⟩
  rw [plain.1]
  exact List.not_mem_nil

/-- The scan takes a construct, and the place is clean if and only if the construct is. -/
theorem nextFound_gives :
    ∃ piece : Piece, piece.Gives line_start (value :: rest) (nextFound prev line_start value rest) ∧
      ({ prev, line_start, text := value :: rest : Place }.Clean ↔ piece.CleanAt prev) := by
  cases block : codeBlock (value :: rest) with
  | some found =>
      have next : nextFound prev line_start value rest = found := by
        simp [nextFound, block]
      rw [next]
      exact codeBlock_gives block
  | none =>
  have clean := @clean_of_no_block (value :: rest) line_start prev block
  cases code : inlineCode (value :: rest) with
  | some found =>
      have next : nextFound prev line_start value rest = found := by
        simp [nextFound, block, code]
      obtain ⟨piece, gives, plain⟩ := @inlineCode_gives _ line_start _ code
      have backtick : (value :: rest).head? = some (byte '`') := by
        by_contra other
        rw [inlineCode, if_neg other] at code
        cases code
      have no_start := @no_start_of_head _ _ line_start backtick (by decide) (by decide)
      rw [next, clean, no_start.1, no_start.2]
      exact ⟨piece, gives, by simp [cleanAt_of_plain plain]⟩
  | none =>
  cases title : heading line_start (value :: rest) with
  | some found =>
      have next : nextFound prev line_start value rest = found := by
        simp [nextFound, block, code, title]
      obtain ⟨level, body, ending, gives⟩ := heading_gives title
      rw [next, clean, title]
      exact ⟨_, gives, by simp [Piece.CleanAt, Piece.skipped, Piece.StartsLine]⟩
  | none =>
  cases dash : bullet line_start (value :: rest) with
  | some found =>
      have next : nextFound prev line_start value rest = found := by
        simp [nextFound, block, code, title, dash]
      rw [next, clean, title, dash]
      exact ⟨_, bullet_gives dash, by simp [Piece.CleanAt, Piece.skipped, Piece.StartsLine]⟩
  | none =>
  -- What is left need not start a line, and skips nothing.
  suffices plain : ∃ piece : Piece, piece.Gives line_start (value :: rest)
      (nextFound prev line_start value rest) ∧ piece.Plain by
    obtain ⟨piece, gives, plain⟩ := plain
    rw [clean, title, dash]
    exact ⟨piece, gives, by simp [cleanAt_of_plain plain]⟩
  simp only [nextFound, block, code, title, dash, Option.orElse_eq_orElse,
    Option.orElse_eq_or, Option.none_or]
  cases struck : strikethrough (value :: rest) with
  | some found =>
      obtain ⟨body, gives⟩ := @delimited_gives _ _ line_start found .strike .strike rfl
        (fun _ => rfl) (fun _ => rfl) (fun _ => trivial) struck
      exact ⟨_, gives, rfl, id⟩
  | none =>
  cases strong : bold (value :: rest) with
  | some found =>
      obtain ⟨body, gives⟩ := @delimited_gives _ _ line_start found .bold .bold rfl
        (fun _ => rfl) (fun _ => rfl) (fun _ => trivial) strong
      exact ⟨_, gives, rfl, id⟩
  | none =>
  cases linked : link (value :: rest) with
  | some found => exact link_gives linked
  | none =>
  cases slanted : italic prev (value :: rest) with
  | some found => exact italic_gives slanted
  | none => exact ⟨.char value, ⟨rfl, rfl, trivial⟩, rfl, id⟩

/-! ## Counting backticks -/

/-- The backticks that nodes stand for. -/
def Node.ticks : Node → ℕ
  | .text value => [value].count (byte '`')
  | .pre body => body.count (byte '`') + 6
  | .code body => body.count (byte '`') + 2
  | .bold body => body.count (byte '`')
  | .strike body => body.count (byte '`')
  | .italic body => body.count (byte '`')
  | .link href label => label.count (byte '`') + href.count (byte '`')

def ticks (nodes : List Node) : ℕ :=
  (nodes.map Node.ticks).sum

theorem ticks_cons (node : Node) (nodes : List Node) :
    ticks (node :: nodes) = node.ticks + ticks nodes := by
  simp [ticks]

theorem ticks_append (first second : List Node) :
    ticks (first ++ second) = ticks first + ticks second := by
  simp [ticks]

theorem ticks_text (text : Bytes) : ticks (text.map .text) = text.count (byte '`') := by
  induction text with
  | nil => rfl
  | cons value text ih =>
      rw [List.map_cons, ticks_cons, ih, Node.ticks, ← List.count_append]
      rfl

/-- The line break behind a block is no backtick. -/
def Piece.EndsQuietly : Piece → Prop
  | .block _ _ ending => ending.count (byte '`') = 0
  | .fenced _ ending => ending.count (byte '`') = 0
  | _ => True

theorem Piece.count_of_ended {ending : Bytes} (ended : Ended ending rest) :
    ending.count (byte '`') = 0 := by
  rcases ended with rfl | ⟨rfl, _⟩
  · decide
  · rfl

/-- A construct has the backticks of its nodes and those that it skips. -/
theorem Piece.count_source {piece : Piece} (quiet : piece.EndsQuietly) :
    piece.source.count (byte '`') = ticks piece.nodes + piece.skipped.count (byte '`') := by
  have fence : (ascii "```").count (byte '`') = 3 := by decide
  cases piece with
  | char value => rfl
  | bullet => decide
  | heading level title ending =>
      have sign : (List.replicate level (byte '#')).count (byte '`') = 0 :=
        List.count_eq_zero_of_not_mem fun mem => absurd (List.eq_of_mem_replicate mem) (by decide)
      have blank : byte ' ' ≠ byte '`' := by decide
      rw [nodes, ticks_cons, ticks_text]
      simp only [source, skipped, List.count_append, sign, List.count_cons_of_ne blank,
        List.count_nil]
      simp [Node.ticks]
  | block info body ending =>
      have line : byte '\n' ≠ byte '`' := by decide
      have quiet : ending.count (byte '`') = 0 := quiet
      simp only [source, skipped, List.count_append, List.count_cons_of_ne line, fence, quiet]
      simp only [nodes, ticks, Node.ticks, List.map_cons, List.map_nil, List.sum_cons,
        List.sum_nil]
      omega
  | fenced body ending =>
      have quiet : ending.count (byte '`') = 0 := quiet
      simp only [source, skipped, List.count_append, fence, quiet, List.count_nil]
      simp only [nodes, ticks, Node.ticks, List.map_cons, List.map_nil, List.sum_cons,
        List.sum_nil]
      omega
  | code body =>
      simp [source, skipped, nodes, ticks, Node.ticks]
  | strike body =>
      have marker : (ascii "~~").count (byte '`') = 0 := by decide
      simp [source, skipped, nodes, ticks, Node.ticks, marker]
  | bold body =>
      have marker : (ascii "**").count (byte '`') = 0 := by decide
      simp [source, skipped, nodes, ticks, Node.ticks, marker]
  | link label href =>
      have brackets : byte '[' ≠ byte '`' ∧ byte ']' ≠ byte '`' ∧ byte '(' ≠ byte '`' ∧
          byte ')' ≠ byte '`' := by decide
      simp only [source, skipped, List.count_append, List.count_cons_of_ne brackets.1,
        List.count_cons_of_ne brackets.2.1, List.count_cons_of_ne brackets.2.2.1,
        List.count_cons_of_ne brackets.2.2.2, List.count_nil]
      simp [nodes, ticks, Node.ticks]
  | italic body =>
      have marker : byte '_' ≠ byte '`' := by decide
      simp only [source, skipped, List.count_append, List.count_cons_of_ne marker, List.count_nil]
      simp [nodes, ticks, Node.ticks]

theorem Piece.count_of_taken {piece : Piece} (taken : piece.Taken line_start rest) :
    piece.source.count (byte '`') = ticks piece.nodes + piece.skipped.count (byte '`') := by
  apply count_source
  cases piece with
  | block info body ending => exact count_of_ended taken.2
  | fenced body ending => exact count_of_ended taken.2
  | _ => trivial

theorem Piece.count_of_permitted {piece : Piece} (permitted : piece.Permitted prev rest) :
    piece.source.count (byte '`') = ticks piece.nodes := by
  have quiet : piece.EndsQuietly := by
    cases piece with
    | block info body ending => exact count_of_ended permitted.2.2
    | fenced body ending => exact count_of_ended permitted.2
    | _ => trivial
  have nothing : piece.skipped.count (byte '`') = 0 := by
    cases piece with
    | block info body ending => exact List.count_eq_zero_of_not_mem permitted.2.1
    | _ => rfl
  rw [count_source quiet, nothing, Nat.add_zero]

theorem Piece.source_ne_nil {piece : Piece} (taken : piece.Taken line_start rest) :
    piece.source ≠ [] := by
  cases piece with
  | heading level title ending => exact List.append_ne_nil_of_right_ne_nil _ (List.cons_ne_nil _ _)
  | _ => exact List.cons_ne_nil _ _

theorem Reads.count {nodes : List Node} (reads : Reads prev text nodes) :
    text.count (byte '`') = ticks nodes := by
  induction reads with
  | nil => rfl
  | piece permitted _ ih =>
      rw [List.count_append, ticks_append, Piece.count_of_permitted permitted, ih]

theorem ticks_scanMarkdown_le :
    ticks (scanMarkdown fuel prev line_start text) ≤ text.count (byte '`') := by
  induction fuel generalizing prev line_start text with
  | zero =>
      cases text with
      | nil => exact Nat.zero_le _
      | cons value rest => exact Nat.zero_le _
  | succ fuel ih =>
      cases text with
      | nil => exact Nat.zero_le _
      | cons value rest =>
          obtain ⟨piece, gives, _⟩ := @nextFound_gives rest value line_start prev
          rw [scanMarkdown, ticks_append]
          conv_rhs => rw [gives.source]
          rw [List.count_append, gives.nodes, Piece.count_of_taken gives.taken]
          have further : ticks (scanMarkdown fuel
              (lastBefore (value :: rest) (nextFound prev line_start value rest).rest)
              (nextFound prev line_start value rest).line_start
              (nextFound prev line_start value rest).rest) ≤
                (nextFound prev line_start value rest).rest.count (byte '`') := ih
          omega

/-! ## What the scan keeps -/

theorem lastBefore_append {source : Bytes} :
    lastBefore (source ++ rest) rest = source.getLast? := by
  rw [lastBefore, List.length_append, Nat.add_sub_cancel, List.take_left]

theorem Piece.permitted_of_clean {piece : Piece} (taken : piece.Taken line_start rest)
    (clean : piece.CleanAt prev) : piece.Permitted prev rest := by
  cases piece with
  | bullet => exact clean.2 trivial
  | heading level title ending => exact ⟨clean.2 trivial, taken.2⟩
  | block info body ending => exact ⟨taken.1, clean.1, taken.2⟩
  | fenced body ending =>
      refine ⟨?_, taken.2⟩
      have whole : openingLine (body ++ (ascii "```" ++ ending) ++ rest) =
          body ++ (ascii "```" ++ ending) ++ rest := by
        rw [openingLine, List.takeWhile_eq_self_iff]
        intro value mem
        rw [decide_eq_true_eq]
        rintro rfl
        exact taken.1 mem
      rw [whole]
      exact List.mem_append_left _ (List.mem_append_right _ List.mem_cons_self)
  | _ => trivial

theorem reads_scanMarkdown (enough : text.length ≤ fuel)
    (clean : ∀ place ∈ places fuel prev line_start text, place.Clean) :
    Reads prev text (scanMarkdown fuel prev line_start text) := by
  induction fuel generalizing prev line_start text with
  | zero =>
      obtain rfl := List.length_eq_zero_iff.mp (Nat.le_zero.mp enough)
      exact .nil
  | succ fuel ih =>
      cases text with
      | nil => exact .nil
      | cons value rest =>
          obtain ⟨piece, gives, is_clean⟩ := @nextFound_gives rest value line_start prev
          rw [places, List.forall_mem_cons, is_clean] at clean
          have filled := List.length_pos_iff.mpr (Piece.source_ne_nil gives.taken)
          have total := congrArg List.length gives.source
          rw [List.length_append] at total
          have last : lastBefore (value :: rest) (nextFound prev line_start value rest).rest =
              piece.source.getLast? := by
            conv_lhs => rw [gives.source]
            exact lastBefore_append
          rw [last] at clean
          rw [scanMarkdown, last, gives.nodes]
          conv => arg 2; rw [gives.source]
          exact .piece (Piece.permitted_of_clean gives.taken clean.1) (ih (by omega) clean.2)

theorem Piece.rest_eq_of_ended {ending other after : Bytes} (ended : Ended ending rest)
    (other_ended : Ended other after) (same : ending ++ rest = other ++ after) :
    ending = other ∧ rest = after := by
  rcases ended with rfl | ⟨rfl, unbroken⟩
  · rcases other_ended with rfl | ⟨rfl, unbroken⟩
    · exact ⟨rfl, List.append_cancel_left same⟩
    · rw [List.nil_append] at same
      rw [← same] at unbroken
      exact absurd rfl unbroken
  · rcases other_ended with rfl | ⟨rfl, _⟩
    · rw [List.nil_append] at same
      rw [same] at unbroken
      exact absurd rfl unbroken
    · exact ⟨rfl, same⟩

theorem Piece.source_block {info ending : Bytes} : (Piece.block info body ending).source ++ rest =
    ascii "```" ++ (info ++ byte '\n' :: (body ++ (ascii "```" ++ (ending ++ rest)))) := by
  simp [source]

theorem Piece.source_fenced {ending : Bytes} : (Piece.fenced body ending).source ++ rest =
    ascii "```" ++ (body ++ (ascii "```" ++ ending) ++ rest) := by
  simp [source]

theorem Piece.heading_unique {level level' : ℕ} {ending ending' after : Bytes}
    (is_heading : IsHeading level title ending rest)
    (is_heading' : IsHeading level' title ending' after)
    (same : (Piece.heading level title ending).source ++ rest =
      (Piece.heading level' title ending').source ++ after) :
    Piece.heading level title ending = .heading level' title ending' ∧ rest = after := by
  have no_blank (level : ℕ) : byte ' ' ∉ List.replicate level (byte '#') := fun mem =>
    absurd (List.eq_of_mem_replicate mem) (by decide)
  have ended {level : ℕ} {ending rest : Bytes} (is_heading : IsHeading level title ending rest) :
      Ended ending rest := by
    rcases is_heading.2.2.2 with broken | ⟨rfl, rfl⟩
    · exact .inl broken
    · exact .inr ⟨rfl, nofun⟩
  simp only [source, List.append_assoc, List.cons_append] at same
  obtain ⟨same_level, same⟩ := Bytes.eq_of_append_cons (no_blank level) (no_blank level') same
  obtain ⟨rfl, rfl⟩ := rest_eq_of_ended (ended is_heading) (ended is_heading')
    (List.append_cancel_left same)
  have same_length := congrArg List.length same_level
  rw [List.length_replicate, List.length_replicate] at same_length
  exact ⟨by rw [same_length], rfl⟩

theorem Piece.head?_source_heading {level : ℕ} {ending : Bytes} (positive : 1 ≤ level) :
    ((Piece.heading level title ending).source ++ rest).head? = some (byte '#') := by
  cases level with
  | zero => cases positive
  | succ level => rfl

/-- Nodes tell which construct stands at a place, unless a block skips a backtick. -/
theorem Piece.unique {piece other : Piece} {after : Bytes} {nodes more : List Node}
    (taken : piece.Taken line_start rest) (clean : byte '`' ∉ piece.skipped)
    (permitted : other.Permitted prev after) (same : piece.source ++ rest = other.source ++ after)
    (same_nodes : piece.nodes ++ nodes = other.nodes ++ more) :
    piece = other ∧ rest = after := by
  have heads := congrArg List.head? same_nodes
  have starts := congrArg List.head? same
  cases piece with
  | char value =>
      cases other with
      | char value' =>
          obtain ⟨rfl, rfl⟩ := List.cons.inj same
          exact ⟨rfl, rfl⟩
      | bullet =>
          obtain rfl := Node.text.inj (Option.some.inj heads)
          exact absurd (Option.some.inj starts) (by decide)
      | _ => cases heads
  | bullet =>
      cases other with
      | bullet => exact ⟨rfl, List.append_cancel_left same⟩
      | char value =>
          obtain rfl := Node.text.inj (Option.some.inj heads)
          exact absurd (Option.some.inj starts) (by decide)
      | _ => cases heads
  | code body =>
      cases other with
      | code body' =>
          obtain rfl := Node.code.inj (Option.some.inj heads)
          exact ⟨rfl, List.append_cancel_left same⟩
      | _ => cases heads
  | strike body =>
      cases other with
      | strike body' =>
          obtain rfl := Node.strike.inj (Option.some.inj heads)
          exact ⟨rfl, List.append_cancel_left same⟩
      | _ => cases heads
  | italic body =>
      cases other with
      | italic body' =>
          obtain rfl := Node.italic.inj (Option.some.inj heads)
          exact ⟨rfl, List.append_cancel_left same⟩
      | _ => cases heads
  | link label href =>
      cases other with
      | link label' href' =>
          obtain ⟨rfl, rfl⟩ := Node.link.inj (Option.some.inj heads)
          exact ⟨rfl, List.append_cancel_left same⟩
      | _ => cases heads
  | bold body =>
      cases other with
      | bold body' =>
          obtain rfl := Node.bold.inj (Option.some.inj heads)
          exact ⟨rfl, List.append_cancel_left same⟩
      | heading level title ending =>
          rw [head?_source_heading permitted.2.1] at starts
          exact absurd (Option.some.inj starts) (by decide)
      | _ => cases heads
  | heading level title ending =>
      cases other with
      | bold body =>
          rw [head?_source_heading taken.2.1] at starts
          exact absurd (Option.some.inj starts) (by decide)
      | heading level' title' ending' =>
          obtain rfl := Node.bold.inj (Option.some.inj heads)
          exact heading_unique taken.2 permitted.2 same
      | _ => cases heads
  | block info body ending =>
      cases other with
      | block info' body' ending' =>
          obtain rfl := Node.pre.inj (Option.some.inj heads)
          rw [source_block, source_block] at same
          obtain ⟨rfl, same_end⟩ := Bytes.eq_of_append_cons taken.1 permitted.1
            (List.append_cancel_left same)
          obtain ⟨rfl, rfl⟩ := rest_eq_of_ended taken.2 permitted.2.2
            (List.append_cancel_left (List.append_cancel_left same_end))
          exact ⟨rfl, rfl⟩
      | fenced body' ending' =>
          rw [source_block, source_fenced] at same
          have backtick := permitted.1
          rw [← List.append_cancel_left same, openingLine_append taken.1] at backtick
          exact absurd backtick clean
      | _ => cases heads
  | fenced body ending =>
      cases other with
      | block info' body' ending' =>
          rw [source_fenced, source_block] at same
          have unbroken := taken.1
          rw [List.append_cancel_left same] at unbroken
          exact absurd (List.mem_append_right _ List.mem_cons_self) unbroken
      | fenced body' ending' =>
          obtain rfl := Node.pre.inj (Option.some.inj heads)
          rw [source_fenced, source_fenced] at same
          have same_end := List.append_cancel_left same
          simp only [List.append_assoc] at same_end
          obtain ⟨rfl, rfl⟩ := rest_eq_of_ended taken.2 permitted.2
            (List.append_cancel_left (List.append_cancel_left same_end))
          exact ⟨rfl, rfl⟩
      | _ => cases heads

theorem Reads.cases {nodes : List Node} (reads : Reads prev (value :: rest) nodes) :
    ∃ (piece : Piece) (after : Bytes) (more : List Node),
      value :: rest = piece.source ++ after ∧ nodes = piece.nodes ++ more ∧
        piece.Permitted prev after ∧ Reads piece.source.getLast? after more := by
  generalize whole : value :: rest = text at reads
  cases reads with
  | nil => cases whole
  | piece permitted reads => exact ⟨_, _, _, rfl, rfl, permitted, reads⟩

theorem Piece.lineStart_of_permitted {piece : Piece} (permitted : piece.Permitted prev rest)
    (starts : piece.StartsLine) : LineStart prev := by
  cases piece with
  | bullet => exact permitted
  | heading level title ending => exact permitted.1
  | _ => cases starts

theorem clean_of_reads (reads : Reads prev text (scanMarkdown fuel prev line_start text)) :
    ∀ place ∈ places fuel prev line_start text, place.Clean := by
  induction fuel generalizing prev line_start text with
  | zero =>
      cases text with
      | nil => exact fun _ mem => nomatch mem
      | cons value rest => exact fun _ mem => nomatch mem
  | succ fuel ih =>
      cases text with
      | nil => exact fun _ mem => nomatch mem
      | cons value rest =>
          obtain ⟨piece, gives, is_clean⟩ := @nextFound_gives rest value line_start prev
          have last : lastBefore (value :: rest) (nextFound prev line_start value rest).rest =
              piece.source.getLast? := by
            conv_lhs => rw [gives.source]
            exact lastBefore_append
          -- All backticks are kept, so nothing with a backtick is skipped here.
          have counted := reads.count
          have further : ticks (scanMarkdown fuel piece.source.getLast?
              (nextFound prev line_start value rest).line_start
              (nextFound prev line_start value rest).rest) ≤
                (nextFound prev line_start value rest).rest.count (byte '`') :=
            ticks_scanMarkdown_le
          rw [scanMarkdown, last, gives.nodes] at reads counted
          rw [ticks_append, gives.source, List.count_append,
            Piece.count_of_taken gives.taken] at counted
          have clean : byte '`' ∉ piece.skipped := List.count_eq_zero.mp (by omega)
          obtain ⟨other, after, more, same, same_nodes, permitted, reads⟩ := reads.cases
          obtain ⟨rfl, same_rest⟩ := Piece.unique gives.taken clean permitted
            (gives.source.symm.trans same) same_nodes
          rw [← same_rest, ← List.append_cancel_left same_nodes] at reads
          rw [places, List.forall_mem_cons, is_clean, last]
          exact ⟨⟨clean, Piece.lineStart_of_permitted permitted⟩, ih reads⟩

/-- The hypertext is safe, and it keeps the text but for markup if and only if the cursor comes to
clean places only. -/
theorem faithful_markdownToTelegramHtml_iff (md : Bytes) :
    (readHtml (markdownToTelegramHtml md).length (markdownToTelegramHtml md)).isSome ∧
      (Faithful md (markdownToTelegramHtml md) ↔
        ∀ place ∈ places md.length none true md, place.Clean) := by
  have read : readHtml (markdownToTelegramHtml md).length (markdownToTelegramHtml md) =
      some (scanMarkdown md.length none true md) :=
    readHtml_flatMap length_le_flatMap_html
  refine ⟨by rw [read]; rfl, ?_⟩
  constructor
  · rintro ⟨nodes, same, reads⟩
    obtain rfl := Option.some.inj (same.symm.trans read)
    exact clean_of_reads reads
  · intro clean
    exact ⟨_, read, reads_scanMarkdown le_rfl clean⟩

/-- The code on the opening line of a block is lost. -/
theorem not_faithful_code_on_opening_line :
    ¬Faithful (ascii "```a```\n```b```") (markdownToTelegramHtml (ascii "```a```\n```b```")) := by
  rintro ⟨nodes, read, reads⟩
  have same : readHtml (markdownToTelegramHtml (ascii "```a```\n```b```")).length
      (markdownToTelegramHtml (ascii "```a```\n```b```")) =
        some [.pre [], .text (byte 'b'), .code [], .text (byte '`')] := by
    decide
  obtain rfl := Option.some.inj (same.symm.trans read)
  exact absurd reads.count (by decide)

end Nullalis.Telegram
