import Nullalis.Base.Blocks
import Nullalis.Base.Occurrence
import Nullalis.Base.Run
import Nullalis.Base.Splice
import Nullalis.Memory.Keys
import Mathlib.Data.List.DropRight
import Mathlib.Data.List.Forall2
import Mathlib.Data.List.Nodup

/-!
# Memory in a markdown file

The entries of the core memory stand in one file. A list item with a key in bold starts an entry,
and indented lines continue it. A store drops the entry that the key had and appends a new one, and
a third scan reads the entries.

The file is its text, which is empty if there is no file. A store fails if the file is too large to
be read.
-/

namespace Nullalis.Memory.Markdown

open Bytes Blocks

/-- `std.ascii.isWhitespace` -/
def isWhitespace (value : UInt8) : Bool :=
  (ascii " \t\n\r").contains value || value == 0x0B || value == 0x0C

/-- An entry as it is read. -/
structure MemoryEntry where
  id : Bytes
  key : Bytes
  content : Bytes
  category : MemoryCategory
  timestamp : Bytes
deriving DecidableEq

def MARKDOWN_FILE_READ_CAP : ℕ := 16 * 1024 * 1024

/-!
## Lines
-/

def clean (trimmed : Bytes) : Bytes :=
  if Bytes.startsWith trimmed "- " then trimmed.drop 2 else trimmed

/-- The key in bold that a text starts with, and what follows its colon. -/
def keySlice (clean : Bytes) : Option (Bytes × Bytes) :=
  if Bytes.startsWith clean "**" then
    (indexOf (ascii "**:") (clean.drop 2)).map fun end_off =>
      (trim (ascii " \t") ((clean.drop 2).take end_off), clean.drop (2 + end_off + 3))
  else none

/-- Does the line start the entry of a key? -/
def lineHasStructuredKey (line key : Bytes) : Bool :=
  let trimmed := trim (ascii " \t\r") line
  if trimmed.isEmpty then false
  else (keySlice (clean trimmed)).any fun found => found.1 = key

def continuesEntry (line : Bytes) : Bool :=
  Bytes.startsWith line "  " || line.head? == some (byte '\t')

/-!
## Storing
-/

/-- The text of an entry. -/
def formatStructuredEntry (key content : Bytes) : Bytes :=
  if byte '\n' ∉ content then ascii "- **" ++ key ++ ascii "**: " ++ content
  else
    let out := ascii "- **" ++ key ++ ascii "**:\n" ++
      (splitScalar (byte '\n') content).flatMap fun line => ascii "  " ++ line ++ [byte '\n']
    out.dropLast

/-- A text without the whitespace at its end, and with a newline if there is anything. -/
def closeLast (text : Bytes) : Bytes :=
  let buf := text.rdropWhile isWhitespace
  if buf.isEmpty then buf else buf ++ [byte '\n']

/-- Store an entry in place of the one that the key has. -/
def replaceCoreEntryAtomic (existing key content : Bytes) : Option Bytes :=
  if MARKDOWN_FILE_READ_CAP < existing.length then none
  else
    let kept := dropBlocks continuesEntry (lineHasStructuredKey · key) false
      (splitScalar (byte '\n') existing)
    some (closeLast (Splice.ended (byte '\n') kept) ++ formatStructuredEntry key content ++
      [byte '\n'])

/-!
## Reading
-/

def appendLine (structured line : Bytes) : Bytes :=
  if structured.isEmpty then line else structured ++ byte '\n' :: line

/-- The content of an entry from the lines that continue it, and the lines behind. -/
def gather (structured : Bytes) : List Bytes → Bytes × List Bytes
  | [] => (structured, [])
  | next_line :: rest =>
      if Bytes.startsWith next_line "  " then
        gather (appendLine structured (next_line.drop 2)) rest
      else if next_line.head? == some (byte '\t') then
        gather (appendLine structured (next_line.drop 1)) rest
      else (structured, next_line :: rest)

theorem length_gather_le (structured : Bytes) (lines : List Bytes) :
    (gather structured lines).2.length ≤ lines.length := by
  induction lines generalizing structured with
  | nil => exact Nat.le_refl 0
  | cons line rest ih =>
      rw [gather]
      split
      · exact (ih _).trans (Nat.le_succ _)
      · split
        · exact (ih _).trans (Nat.le_succ _)
        · exact Nat.le_refl _

/-- The key and the content of a line that has a key. -/
def parsedKey (clean : Bytes) : Option (Bytes × Bytes) :=
  (keySlice clean).bind fun found =>
    if found.1.isEmpty then none else some (found.1, trim (ascii " \t") found.2)

/-- The entries of the lines, of which the first one has a number. -/
def parseLines (filename : Bytes) (category : MemoryCategory) (line_idx : ℕ) :
    List Bytes → List MemoryEntry
  | [] => []
  | line :: rest =>
      let trimmed := trim (ascii " \t\r") line
      if trimmed.isEmpty || trimmed.head? == some (byte '#') then
        parseLines filename category line_idx rest
      else
        match parsedKey (clean trimmed) with
        | some (key, parsed_content) =>
            { id := key, key, content := (gather parsed_content rest).1, category,
              timestamp := filename } ::
              parseLines filename category (line_idx + 1) (gather parsed_content rest).2
        | none =>
            let id := filename ++ byte ':' :: decimal line_idx
            { id, key := id, content := clean trimmed, category, timestamp := filename } ::
              parseLines filename category (line_idx + 1) rest
termination_by lines => lines.length
decreasing_by
  · simp
  · have := length_gather_le parsed_content rest
    simp only [List.length_cons]
    omega
  · simp

def parseEntries (text filename : Bytes) (category : MemoryCategory) : List MemoryEntry :=
  parseLines filename category 0 (splitScalar (byte '\n') text)

/-!
## Runs of stores
-/

/-- A text with no whitespace around it. -/
def Solid (text : Bytes) : Prop :=
  (∀ first ∈ text.head?, isWhitespace first = false) ∧
    ∀ last ∈ text.getLast?, isWhitespace last = false

instance (text : Bytes) : Decidable (Solid text) :=
  decidable_of_iff
    ((text.head?.all fun first => !isWhitespace first) = true ∧
      (text.getLast?.all fun last => !isWhitespace last) = true) (by
    simp only [Solid, Option.all_eq_true, Bool.not_eq_true']
    rfl)

/-- A store of the core memory. -/
structure CoreStore where
  key : Bytes
  content : Bytes
  mutable_entry : isMutableMemoryEntry key .core = true
  one_line : byte '\n' ∉ key
  unmarked : ¬ascii "**:" <:+: key
  solid_key : Solid key
  solid_content : Solid content

/-- The file, and the last store of each key, oldest first. -/
structure CoreMemory where
  text : Bytes
  stored : List CoreStore

def CoreMemory.init : CoreMemory := { text := [], stored := [] }

/-- A store that fails changes nothing. -/
def store : Machine CoreMemory CoreStore := fun memory entry =>
  match replaceCoreEntryAtomic memory.text entry.key entry.content with
  | none => some memory
  | some text =>
      some { text, stored := memory.stored.filter (fun other => other.key ≠ entry.key) ++ [entry] }

/-- What is read under a key. -/
def contentsOf (text key : Bytes) : List Bytes :=
  ((parseEntries text (ascii "MEMORY") .core).filter fun entry => entry.key = key).map
    MemoryEntry.content

/-- Each key that was stored has one entry, with the content of its last store. -/
def CoreMemory.KeepsApart (memory : CoreMemory) : Prop :=
  ∀ entry ∈ memory.stored, contentsOf memory.text entry.key = [entry.content]

/-- The key that is stored is not empty, and no line of a content in several lines under another
key looks like the start of its entry. -/
def Regular (memory : CoreMemory) (entry : CoreStore) : Prop :=
  entry.key ≠ [] ∧
    ∀ other ∈ memory.stored, other.key ≠ entry.key → byte '\n' ∈ other.content →
      ∀ line ∈ splitScalar (byte '\n') other.content,
        lineHasStructuredKey line entry.key = false

variable {entry : CoreStore} {stored : List CoreStore} {memory next : CoreMemory}
  {block : Block continuesEntry} {blocks : List (Block continuesEntry)} {rest : List Bytes}
  {text front back key after : Bytes}

/-!
## Whitespace
-/

theorem dropWhile_of_head {drops : UInt8 → Bool}
    (stays : ∀ first ∈ text.head?, drops first = false) :
    text.dropWhile drops = text := by
  cases text with
  | nil => rfl
  | cons first rest => rw [List.dropWhile_cons, stays first rfl]; rfl

theorem trim_of_ends_stay {values : Bytes}
    (first_stays : ∀ first ∈ text.head?, values.contains first = false)
    (last_stays : ∀ last ∈ text.getLast?, values.contains last = false) :
    trim values text = text := by
  rw [trim, dropWhile_of_head first_stays, dropWhile_of_head, List.reverse_reverse]
  rwa [List.head?_reverse]

theorem trim_append_of_blank {values : Bytes}
    (blank : ∀ value ∈ front, values.contains value = true) :
    trim values (front ++ text) = trim values text := by
  rw [trim, trim, List.dropWhile_append_of_pos blank]

theorem contains_of_not_isWhitespace {value : UInt8} (solid : isWhitespace value = false) :
    (ascii " \t\r").contains value = false ∧ (ascii " \t").contains value = false := by
  simp only [isWhitespace, Bool.or_eq_false_iff] at solid
  have apart : value ∉ ascii " \t\n\r" := by simpa using solid.1.1
  constructor
  · simp only [List.contains_eq_mem, decide_eq_false_iff_not]
    exact fun mem => apart (by revert mem; simp [ascii]; tauto)
  · simp only [List.contains_eq_mem, decide_eq_false_iff_not]
    exact fun mem => apart (by revert mem; simp [ascii]; tauto)

theorem closeLast_append {last : UInt8} (solid : isWhitespace last = false)
    (blank : ∀ value ∈ back, isWhitespace value = true) :
    closeLast (front ++ last :: back) = front ++ [last, byte '\n'] := by
  have dropped : (front ++ last :: back).rdropWhile isWhitespace = front ++ [last] := by
    rw [List.rdropWhile, List.reverse_append, List.reverse_cons, List.append_assoc,
      List.dropWhile_append_of_pos fun value mem => blank value (List.mem_reverse.mp mem),
      List.singleton_append, List.dropWhile_cons, solid]
    simp
  rw [closeLast, dropped]
  simp

/-!
## What a store writes
-/

def mark (key : Bytes) : Bytes :=
  ascii "- **" ++ key ++ ascii "**:"

/-- The block that shows an entry. A content in one line stands behind the colon, where a space
without a content may have been trimmed. -/
inductive Shows (entry : CoreStore) (block : Block continuesEntry) : Prop
  | inline (plain : byte '\n' ∉ entry.content)
      (header : block.header = mark entry.key ++ byte ' ' :: entry.content)
      (body : block.body = [])
  | bare (empty : entry.content = []) (header : block.header = mark entry.key)
      (body : block.body = [])
  | indented (several : byte '\n' ∈ entry.content) (header : block.header = mark entry.key)
      (body : block.body = (splitScalar (byte '\n') entry.content).map (ascii "  " ++ ·))

def inlineContent (entry : CoreStore) : Bytes :=
  if byte '\n' ∈ entry.content then [] else entry.content

theorem trim_mark (key : Bytes) : trim (ascii " \t\r") (mark key) = mark key := by
  apply trim_of_ends_stay
  · rintro first ⟨⟩
    decide
  · intro last is_last
    have colon : (mark key).getLast? = some (byte ':') := by
      have shape : mark key = (ascii "- **" ++ key ++ ascii "**") ++ [byte ':'] := by
        rw [mark, List.append_assoc _ (ascii "**")]
        rfl
      rw [shape, List.getLast?_append]
      rfl
    obtain rfl := Option.some.inj (colon.symm.trans is_last)
    decide

theorem trim_append_of_blank_right {values : Bytes}
    (blank : ∀ value ∈ back, values.contains value = true) :
    trim values (text ++ back) = trim values text := by
  rw [trim, List.dropWhile_append]
  split
  case isTrue none =>
      have all : text.dropWhile values.contains = [] := List.isEmpty_iff.mp none
      have gone : back.dropWhile values.contains = [] := by simpa using blank
      rw [gone, trim, all]
  case isFalse =>
      rw [List.reverse_append,
        List.dropWhile_append_of_pos fun value mem => blank value (List.mem_reverse.mp mem), trim]

theorem Shows.trim_header (shows : Shows entry block) :
    ∃ after, trim (ascii " \t\r") block.header = mark entry.key ++ after ∧
      trim (ascii " \t") after = inlineContent entry := by
  have bare (empty : inlineContent entry = []) :
      ∃ after, mark entry.key = mark entry.key ++ after ∧
        trim (ascii " \t") after = inlineContent entry :=
    ⟨[], (List.append_nil _).symm, by rw [empty]; rfl⟩
  cases shows with
  | inline plain header body =>
      have whole : inlineContent entry = entry.content := if_neg plain
      rw [header]
      by_cases empty : entry.content = []
      · rw [empty, trim_append_of_blank_right (List.all_eq_true.mp (by decide)), trim_mark]
        exact bare (whole.trans empty)
      · refine ⟨byte ' ' :: entry.content, trim_of_ends_stay ?_ ?_, ?_⟩
        · rintro first ⟨⟩
          decide
        · intro last is_last
          rw [List.getLast?_append_cons, List.getLast?_cons_of_ne_nil empty] at is_last
          exact (contains_of_not_isWhitespace (entry.solid_content.2 last is_last)).1
        · have blank : ∀ value ∈ [byte ' '], (ascii " \t").contains value = true :=
            List.all_eq_true.mp (by decide)
          rw [← List.singleton_append, trim_append_of_blank blank, whole]
          exact trim_of_ends_stay
            (fun first is_first =>
              (contains_of_not_isWhitespace (entry.solid_content.1 first is_first)).2)
            fun last is_last =>
              (contains_of_not_isWhitespace (entry.solid_content.2 last is_last)).2
  | bare empty header body =>
      rw [header, trim_mark]
      exact bare (by rw [inlineContent, empty]; rfl)
  | indented several header body =>
      rw [header, trim_mark]
      exact bare (if_pos several)

theorem keySlice_mark (entry : CoreStore) (after : Bytes) :
    keySlice (clean (mark entry.key ++ after)) = some (entry.key, after) := by
  have shape : clean (mark entry.key ++ after) =
      ascii "**" ++ (entry.key ++ (ascii "**:" ++ after)) := by
    have start : Bytes.startsWith (mark entry.key ++ after) "- " = true := rfl
    rw [clean, if_pos start, mark, List.append_assoc, List.append_assoc]
    rfl
  have passes : Passes (ascii "**:") entry.key (ascii "**:" ++ after) := by
    apply passes_of_not_overlap entry.unmarked
    intro count positive (short : count < 3)
    interval_cases count <;> decide
  have start : Bytes.startsWith (ascii "**" ++ (entry.key ++ (ascii "**:" ++ after))) "**" = true :=
    rfl
  have behind : (ascii "**" ++ (entry.key ++ (ascii "**:" ++ after))).drop 2 =
      entry.key ++ (ascii "**:" ++ after) := rfl
  have kept : trim (ascii " \t") entry.key = entry.key :=
    trim_of_ends_stay
      (fun first is_first => (contains_of_not_isWhitespace (entry.solid_key.1 first is_first)).2)
      fun last is_last => (contains_of_not_isWhitespace (entry.solid_key.2 last is_last)).2
  have past : (ascii "**" ++ (entry.key ++ (ascii "**:" ++ after))).drop
      (2 + entry.key.length + 3) = after := by
    rw [Nat.add_assoc, ← List.drop_drop, behind, ← List.drop_drop, List.drop_left]
    rfl
  rw [shape, keySlice, if_pos start, behind, indexOf_of_passes passes, Option.map_some,
    List.take_left, kept, past]

theorem Shows.lineHasStructuredKey_header (shows : Shows entry block) (key : Bytes) :
    lineHasStructuredKey block.header key = decide (entry.key = key) := by
  obtain ⟨after, trimmed, -⟩ := shows.trim_header
  have filled : (mark entry.key ++ after).isEmpty = false := rfl
  rw [lineHasStructuredKey]
  simp [trimmed, filled, keySlice_mark]

theorem lineHasStructuredKey_indented (line key : Bytes) :
    lineHasStructuredKey (ascii "  " ++ line) key = lineHasStructuredKey line key := by
  rw [lineHasStructuredKey, lineHasStructuredKey,
    trim_append_of_blank (List.all_eq_true.mp (by decide))]

/-!
## Reading what was written
-/

def readEntry (filename : Bytes) (category : MemoryCategory) (entry : CoreStore) : MemoryEntry :=
  { id := entry.key, key := entry.key, content := entry.content, category, timestamp := filename }

theorem gather_indented {structured : Bytes} {lines : List Bytes} (filled : structured ≠ []) :
    gather structured (lines.map (ascii "  " ++ ·) ++ rest) =
      gather (structured ++ lines.flatMap (byte '\n' :: ·)) rest := by
  induction lines generalizing structured with
  | nil => simp
  | cons line lines ih =>
      have starts : Bytes.startsWith (ascii "  " ++ line) "  " = true := rfl
      have cut : (ascii "  " ++ line).drop 2 = line := rfl
      have longer : appendLine structured line = structured ++ byte '\n' :: line := by
        rw [appendLine, if_neg (by simpa using filled)]
      rw [List.map_cons, List.cons_append, gather, if_pos starts, cut, longer, ih (by simp),
        List.flatMap_cons, List.append_assoc]

theorem gather_of_not_continues {structured : Bytes}
    (ends : ∀ line ∈ rest.head?, continuesEntry line = false) :
    gather structured rest = (structured, rest) := by
  cases rest with
  | nil => rfl
  | cons line rest =>
      have stops := ends line rfl
      rw [continuesEntry, Bool.or_eq_false_iff] at stops
      rw [gather, if_neg (by simp [stops.1]), if_neg (by simp [stops.2])]

theorem exists_lines_of_solid (solid : Solid text) (nonempty : text ≠ []) :
    ∃ first lines, splitScalar (byte '\n') text = first :: lines ∧ first ≠ [] ∧
      text = first ++ lines.flatMap (byte '\n' :: ·) := by
  have joined : [byte '\n'].intercalate (splitScalar (byte '\n') text) = text :=
    List.intercalate_splitOn _
  cases parts : splitScalar (byte '\n') text with
  | nil => exact absurd parts (splitScalar_ne_nil _ _)
  | cons first lines =>
      have whole : text = first ++ lines.flatMap (byte '\n' :: ·) := by
        rw [← joined, parts]
        clear parts joined
        induction lines generalizing first with
        | nil => simp
        | cons line lines ih =>
            rw [List.intercalate_cons_of_ne_nil (List.cons_ne_nil _ _), ih]
            simp
      refine ⟨first, lines, rfl, ?_, whole⟩
      rintro rfl
      cases lines with
      | nil => exact nonempty (by simpa using whole)
      | cons line lines =>
          have newline := solid.1 (byte '\n') (by rw [whole]; rfl)
          cases newline

theorem Shows.gather_body (shows : Shows entry block)
    (ends : ∀ line ∈ rest.head?, continuesEntry line = false) :
    gather (inlineContent entry) (block.body ++ rest) = (entry.content, rest) := by
  have whole (plain : byte '\n' ∉ entry.content) (body : block.body = []) :
      gather (inlineContent entry) (block.body ++ rest) = (entry.content, rest) := by
    rw [body, inlineContent, if_neg plain]
    exact gather_of_not_continues ends
  cases shows with
  | inline plain header body => exact whole plain body
  | bare empty header body => exact whole (by simp [empty]) body
  | indented several header body =>
      obtain ⟨first, lines, parts, filled, content⟩ :=
        exists_lines_of_solid entry.solid_content (List.ne_nil_of_mem several)
      have starts : Bytes.startsWith (ascii "  " ++ first) "  " = true := rfl
      have cut : (ascii "  " ++ first).drop 2 = first := rfl
      have fresh : appendLine [] first = first := rfl
      rw [body, parts, inlineContent, if_pos several, List.map_cons, List.cons_append, gather,
        if_pos starts, cut, fresh, gather_indented filled, ← content]
      exact gather_of_not_continues ends

theorem Shows.parseLines_lines (shows : Shows entry block) (named : entry.key ≠ [])
    (ends : ∀ line ∈ rest.head?, continuesEntry line = false) (filename : Bytes)
    (category : MemoryCategory) (line_idx : ℕ) :
    parseLines filename category line_idx (block.lines ++ rest) =
      readEntry filename category entry :: parseLines filename category (line_idx + 1) rest := by
  obtain ⟨after, trimmed, behind⟩ := shows.trim_header
  have filled : (mark entry.key ++ after).isEmpty = false := rfl
  have item : ((mark entry.key ++ after).head? == some (byte '#')) = false := rfl
  have found : parsedKey (clean (mark entry.key ++ after)) =
      some (entry.key, inlineContent entry) := by
    rw [parsedKey, keySlice_mark, Option.bind_some, if_neg (by simpa using named), behind]
  rw [Block.lines, List.cons_append, parseLines]
  simp only [trimmed, filled, item, Bool.or_self, Bool.false_eq_true, if_false, found,
    shows.gather_body ends]
  rfl

theorem continuesEntry_head?_flatMap :
    ∀ line ∈ (blocks.flatMap Block.lines ++ [[]]).head?, continuesEntry line = false := by
  cases blocks with
  | nil =>
      rintro line ⟨⟩
      rfl
  | cons block blocks =>
      rintro line ⟨⟩
      exact block.starts

theorem parseLines_flatMap (shown : List.Forall₂ Shows stored blocks)
    (named : ∀ entry ∈ stored, entry.key ≠ []) (filename : Bytes) (category : MemoryCategory)
    (line_idx : ℕ) :
    parseLines filename category line_idx (blocks.flatMap Block.lines ++ [[]]) =
      stored.map (readEntry filename category) := by
  induction shown generalizing line_idx with
  | nil =>
      simp [parseLines, trim]
  | cons shows _ ih =>
      rw [List.flatMap_cons, List.append_assoc,
        shows.parseLines_lines (named _ List.mem_cons_self) continuesEntry_head?_flatMap,
        ih fun entry mem => named entry (List.mem_cons_of_mem _ mem), List.map_cons]

theorem Shows.not_mem_lines (shows : Shows entry block) :
    ∀ line ∈ block.lines, byte '\n' ∉ line := by
  have starts : byte '\n' ∉ mark entry.key := by
    have literal : byte '\n' ∉ ascii "- **" ∧ byte '\n' ∉ ascii "**:" := by decide
    simp [mark, literal, entry.one_line]
  intro line mem
  rcases List.mem_cons.mp mem with rfl | mem
  · cases shows with
    | inline plain header body =>
        have space : byte '\n' ≠ byte ' ' := by decide
        simp [header, starts, plain, space]
    | bare empty header body => exact header ▸ starts
    | indented several header body => exact header ▸ starts
  · cases shows with
    | inline plain header body => simp [body] at mem
    | bare empty header body => simp [body] at mem
    | indented several header body =>
        rw [body, List.mem_map] at mem
        obtain ⟨part, part_mem, rfl⟩ := mem
        have indent : byte '\n' ∉ ascii "  " := by decide
        simp [indent, not_mem_of_splitScalar part_mem]

theorem splitScalar_ended (shown : List.Forall₂ Shows stored blocks) :
    splitScalar (byte '\n') (Splice.ended (byte '\n') (blocks.flatMap Block.lines)) =
      blocks.flatMap Block.lines ++ [[]] := by
  have apart : ∀ line ∈ blocks.flatMap Block.lines, byte '\n' ∉ line := by
    intro line mem
    obtain ⟨block, block_mem, mem⟩ := List.mem_flatMap.mp mem
    obtain ⟨index, within, rfl⟩ := List.mem_iff_getElem.mp block_mem
    have shows := shown.get (shown.length_eq ▸ within) within
    exact shows.not_mem_lines line mem
  have split := Splice.splitOn_ended_append apart []
  rwa [List.append_nil] at split

/-!
## Writing behind what is kept
-/

theorem ended_append (first second : List Bytes) :
    Splice.ended (byte '\n') (first ++ second) =
      Splice.ended (byte '\n') first ++ Splice.ended (byte '\n') second :=
  List.flatMap_append

theorem dropLast_ended {lines : List Bytes} (filled : lines ≠ []) :
    (Splice.ended (byte '\n') lines).dropLast ++ [byte '\n'] = Splice.ended (byte '\n') lines := by
  have last : lines = lines.dropLast ++ [lines.getLast filled] :=
    (List.dropLast_append_getLast filled).symm
  rw [last, ended_append, Splice.ended_cons, Splice.ended_nil, ← List.append_assoc,
    List.dropLast_concat]

theorem exists_block (entry : CoreStore) :
    ∃ block, Shows entry block ∧
      formatStructuredEntry entry.key entry.content ++ [byte '\n'] =
        Splice.ended (byte '\n') block.lines := by
  by_cases several : byte '\n' ∈ entry.content
  · let block : Block continuesEntry :=
      { header := mark entry.key
        body := (splitScalar (byte '\n') entry.content).map (ascii "  " ++ ·)
        starts := rfl
        goes_on := by
          intro line mem
          obtain ⟨part, -, rfl⟩ := List.mem_map.mp mem
          rfl }
    refine ⟨block, .indented several rfl rfl, ?_⟩
    have header : ascii "- **" ++ entry.key ++ ascii "**:\n" = mark entry.key ++ [byte '\n'] := by
      rw [mark, List.append_assoc _ (ascii "**:")]
      rfl
    have whole : ascii "- **" ++ entry.key ++ ascii "**:\n" ++
        (splitScalar (byte '\n') entry.content).flatMap
          (fun line => ascii "  " ++ line ++ [byte '\n']) =
        Splice.ended (byte '\n') block.lines := by
      rw [header, Block.lines, Splice.ended_cons, Splice.ended, List.flatMap_map, List.append_assoc,
        List.singleton_append]
    rw [formatStructuredEntry, if_neg (not_not.mpr several), whole]
    exact dropLast_ended (List.cons_ne_nil _ _)
  · exact ⟨⟨mark entry.key ++ byte ' ' :: entry.content, [], rfl, by simp⟩,
      .inline several rfl rfl, by
        rw [formatStructuredEntry, if_pos several]
        simp [Block.lines, mark]
        rfl⟩

theorem exists_last_line {last : UInt8} (other : last ≠ byte '\n') (front : Bytes) :
    ∃ lines line, splitScalar (byte '\n') (front ++ [last]) = lines ++ [line ++ [last]] := by
  induction front with
  | nil =>
      refine ⟨[], [], ?_⟩
      rw [List.nil_append, splitScalar_cons_of_ne other]
      rfl
  | cons value front ih =>
      obtain ⟨lines, line, split⟩ := ih
      rw [List.cons_append]
      by_cases newline : value = byte '\n'
      · rw [newline, splitScalar_cons_self, split]
        exact ⟨[] :: lines, line, rfl⟩
      · rw [splitScalar_cons_of_ne newline, split]
        cases lines with
        | nil => exact ⟨[], value :: line, rfl⟩
        | cons first lines => exact ⟨(value :: first) :: lines, line, rfl⟩

/-- The last line of an entry is closed, and shows the entry still. -/
theorem Shows.exists_closed (shows : Shows entry block) :
    ∃ closed front last back, Shows entry closed ∧ isWhitespace last = false ∧
      (∀ value ∈ back, isWhitespace value = true) ∧
      Splice.ended (byte '\n') block.lines = front ++ last :: back ∧
      Splice.ended (byte '\n') closed.lines = front ++ [last, byte '\n'] := by
  have solid : isWhitespace (byte ':') = false := by decide
  have colon : mark entry.key = ascii "- **" ++ entry.key ++ ascii "**" ++ [byte ':'] := by
    rw [mark, List.append_assoc _ (ascii "**")]
    rfl
  by_cases empty : entry.content = []
  · let closed : Block continuesEntry := ⟨mark entry.key, [], rfl, by simp⟩
    have ends (back : Bytes) (blank : ∀ value ∈ back, isWhitespace value = true)
        (whole : Splice.ended (byte '\n') block.lines = mark entry.key ++ back) :
        ∃ closed front last back, Shows entry closed ∧ isWhitespace last = false ∧
          (∀ value ∈ back, isWhitespace value = true) ∧
          Splice.ended (byte '\n') block.lines = front ++ last :: back ∧
          Splice.ended (byte '\n') closed.lines = front ++ [last, byte '\n'] :=
      ⟨closed, ascii "- **" ++ entry.key ++ ascii "**", byte ':', back,
        .bare empty rfl rfl, solid, blank, by rw [whole, colon]; simp,
        by simp [closed, Block.lines, colon]⟩
    cases shows with
    | inline plain header body =>
        exact ends (ascii " \n") (List.all_eq_true.mp (by decide))
          (by simp [Block.lines, header, body, empty]; rfl)
    | bare empty header body =>
        exact ends [byte '\n'] (List.all_eq_true.mp (by decide))
          (by simp [Block.lines, header, body])
    | indented several header body => simp [empty] at several
  · obtain ⟨front, last, content⟩ : ∃ front last, entry.content = front ++ [last] :=
      ⟨_, _, (List.dropLast_append_getLast empty).symm⟩
    have solid : isWhitespace last = false :=
      entry.solid_content.2 last (by rw [content, List.getLast?_append]; rfl)
    have blank : ∀ value ∈ [byte '\n'], isWhitespace value = true :=
      List.all_eq_true.mp (by decide)
    suffices ends : ∃ front, Splice.ended (byte '\n') block.lines = front ++ [last, byte '\n'] by
      obtain ⟨front, whole⟩ := ends
      exact ⟨block, front, last, [byte '\n'], shows, solid, blank, whole, whole⟩
    cases shows with
    | inline plain header body =>
        exact ⟨mark entry.key ++ byte ' ' :: front, by simp [Block.lines, header, body, content]⟩
    | bare empty' header body => exact absurd empty' empty
    | indented several header body =>
        have other : last ≠ byte '\n' := by
          rintro rfl
          cases solid
        obtain ⟨lines, line, split⟩ := exists_last_line other front
        rw [Block.lines, header, body, content, split, List.map_append, List.map_singleton,
          ← List.cons_append, ended_append]
        exact ⟨Splice.ended (byte '\n') (mark entry.key :: lines.map (ascii "  " ++ ·)) ++
          (ascii "  " ++ line), by simp⟩

theorem exists_closed_of_ne_nil (shown : List.Forall₂ Shows stored blocks) (filled : blocks ≠ []) :
    ∃ closed, List.Forall₂ Shows stored closed ∧ ∀ before,
      closeLast (before ++ Splice.ended (byte '\n') (blocks.flatMap Block.lines ++ [[]])) =
        before ++ Splice.ended (byte '\n') (closed.flatMap Block.lines) := by
  induction shown with
  | nil => exact absurd rfl filled
  | @cons entry block stored blocks shows shown ih =>
      by_cases single : blocks = []
      · subst single
        cases shown
        obtain ⟨closed, front, last, back, shows, solid, blank, whole, ends⟩ := shows.exists_closed
        refine ⟨[closed], .cons shows .nil, ?_⟩
        intro before
        have blank : ∀ value ∈ back ++ [byte '\n'], isWhitespace value = true := by
          intro value mem
          rcases List.mem_append.mp mem with mem | mem
          · exact blank value mem
          · obtain rfl := List.mem_singleton.mp mem
            decide
        have shape : before ++ Splice.ended (byte '\n') ([block].flatMap Block.lines ++ [[]]) =
            before ++ front ++ last :: (back ++ [byte '\n']) := by
          simp [ended_append, whole]
        rw [shape, closeLast_append solid blank]
        simp [ends]
      · obtain ⟨closed, shown, ends⟩ := ih single
        refine ⟨block :: closed, .cons shows shown, ?_⟩
        intro before
        have later := ends (before ++ Splice.ended (byte '\n') block.lines)
        simpa [ended_append] using later

theorem exists_closeLast (shown : List.Forall₂ Shows stored blocks) :
    ∃ closed, List.Forall₂ Shows stored closed ∧
      closeLast (Splice.ended (byte '\n') (blocks.flatMap Block.lines ++ [[]])) =
        Splice.ended (byte '\n') (closed.flatMap Block.lines) := by
  by_cases filled : blocks = []
  · subst filled
    cases shown
    exact ⟨[], .nil, by decide⟩
  · obtain ⟨closed, shown, ends⟩ := exists_closed_of_ne_nil shown filled
    exact ⟨closed, shown, ends []⟩

/-!
## The stores of a run
-/

/-- The file shows what was stored last under each key. -/
structure Inv (memory : CoreMemory) : Prop where
  nodup : (memory.stored.map CoreStore.key).Nodup
  named : ∀ entry ∈ memory.stored, entry.key ≠ []
  shown : ∃ blocks, List.Forall₂ Shows memory.stored blocks ∧
    memory.text = Splice.ended (byte '\n') (blocks.flatMap Block.lines)

theorem filter_shown (key : Bytes) (shown : List.Forall₂ Shows stored blocks) :
    List.Forall₂ Shows (stored.filter fun entry => entry.key ≠ key)
      (blocks.filter fun block => !lineHasStructuredKey block.header key) := by
  induction shown with
  | nil => exact .nil
  | @cons entry block _ _ shows _ ih =>
      have header := shows.lineHasStructuredKey_header key
      by_cases same : entry.key = key
      · rw [List.filter_cons_of_neg (by simp [same]),
          List.filter_cons_of_neg (by simp [header, same])]
        exact ih
      · rw [List.filter_cons_of_pos (by simp [same]),
          List.filter_cons_of_pos (by simp [header, same])]
        exact .cons shows ih

theorem not_selected_of_regular (regular : Regular memory entry)
    (shown : List.Forall₂ Shows memory.stored blocks) :
    ∀ block ∈ blocks, lineHasStructuredKey block.header entry.key = false →
      ∀ line ∈ block.body, lineHasStructuredKey line entry.key = false := by
  intro block block_mem other line mem
  obtain ⟨index, within, rfl⟩ := List.mem_iff_getElem.mp block_mem
  have inside : index < memory.stored.length := shown.length_eq ▸ within
  have shows : Shows memory.stored[index] blocks[index] := shown.get inside within
  rw [shows.lineHasStructuredKey_header, decide_eq_false_iff_not] at other
  cases shows with
  | inline plain header body => simp [body] at mem
  | bare empty header body => simp [body] at mem
  | indented several header body =>
      rw [body, List.mem_map] at mem
      obtain ⟨part, part_mem, rfl⟩ := mem
      rw [lineHasStructuredKey_indented]
      exact regular.2 _ (List.getElem_mem inside) other several part part_mem

theorem dropBlocks_empty (key : Bytes) (dropping : Bool) :
    dropBlocks continuesEntry (lineHasStructuredKey · key) dropping [[]] = [[]] := by
  cases dropping
  · rfl
  · rfl

theorem exists_shown_of_replace {text : Bytes} (regular : Regular memory entry)
    (shown : List.Forall₂ Shows memory.stored blocks)
    (whole : memory.text = Splice.ended (byte '\n') (blocks.flatMap Block.lines))
    (replaced : replaceCoreEntryAtomic memory.text entry.key entry.content = some text) :
    ∃ blocks,
      List.Forall₂ Shows (memory.stored.filter (fun other => other.key ≠ entry.key) ++ [entry])
        blocks ∧ text = Splice.ended (byte '\n') (blocks.flatMap Block.lines) := by
  have kept := dropBlocks_flatMap false (not_selected_of_regular regular shown)
    (dropBlocks_empty entry.key)
  obtain ⟨closed, stays, ends⟩ := exists_closeLast (filter_shown entry.key shown)
  obtain ⟨block, shows, written⟩ := exists_block entry
  refine ⟨closed ++ [block], List.rel_append stays (.cons shows .nil), ?_⟩
  rw [replaceCoreEntryAtomic, whole, splitScalar_ended shown, kept] at replaced
  split at replaced
  case isTrue => cases replaced
  case isFalse =>
      simp only [ends, List.append_assoc, written] at replaced
      rw [← Option.some.inj replaced]
      simp [ended_append]

theorem inv_store (inv : Inv memory) (regular : Regular memory entry)
    (stepped : store memory entry = some next) : Inv next := by
  rw [store] at stepped
  split at stepped
  case h_1 => exact Option.some.inj stepped ▸ inv
  case h_2 text replaced =>
      obtain rfl := Option.some.inj stepped
      obtain ⟨blocks, shown, whole⟩ := inv.shown
      refine ⟨?_, ?_, exists_shown_of_replace regular shown whole replaced⟩
      · rw [List.map_append, List.map_singleton, List.nodup_append]
        refine ⟨inv.nodup.sublist (List.filter_sublist.map _), List.nodup_singleton _, ?_⟩
        intro key key_mem other other_mem same
        obtain ⟨kept, kept_mem, rfl⟩ := List.mem_map.mp key_mem
        have apart : kept.key ≠ entry.key := by simpa using (List.mem_filter.mp kept_mem).2
        exact apart (same.trans (List.mem_singleton.mp other_mem))
      · intro other mem
        rcases List.mem_append.mp mem with mem | mem
        · exact inv.named other (List.mem_filter.mp mem).1
        · exact List.mem_singleton.mp mem ▸ regular.1

theorem Inv.init : Inv .init :=
  ⟨List.nodup_nil, by simp [CoreMemory.init], [], .nil, rfl⟩

theorem Inv.parseEntries_text (inv : Inv memory) (filename : Bytes) (category : MemoryCategory) :
    parseEntries memory.text filename category =
      memory.stored.map (readEntry filename category) := by
  obtain ⟨blocks, shown, whole⟩ := inv.shown
  rw [parseEntries, whole, splitScalar_ended shown]
  exact parseLines_flatMap shown inv.named filename category 0

theorem filter_key (nodup : (stored.map CoreStore.key).Nodup) (mem : entry ∈ stored) :
    stored.filter (fun other => other.key = entry.key) = [entry] := by
  induction stored with
  | nil => cases mem
  | cons first stored ih =>
      rw [List.map_cons, List.nodup_cons] at nodup
      rcases List.mem_cons.mp mem with rfl | mem
      · have others : stored.filter (fun other => other.key = entry.key) = [] := by
          rw [List.filter_eq_nil_iff]
          intro other other_mem same
          exact nodup.1 (List.mem_map.mpr ⟨other, other_mem, by simpa using same⟩)
        rw [List.filter_cons_of_pos (by simp), others]
      · have apart : first.key ≠ entry.key := by
          intro same
          exact nodup.1 (same ▸ List.mem_map_of_mem mem)
        rw [List.filter_cons_of_neg (by simpa using apart)]
        exact ih nodup.2 mem

theorem Inv.keepsApart (inv : Inv memory) : memory.KeepsApart := by
  intro entry mem
  rw [contentsOf, inv.parseEntries_text, List.filter_map, List.map_map]
  have filtered : memory.stored.filter
      ((fun read => decide (read.key = entry.key)) ∘ readEntry (ascii "MEMORY") .core) = [entry] :=
    filter_key inv.nodup mem
  rw [filtered]
  rfl

/-- After every run of regular stores, each key has the content of its last store. -/
theorem keepsApart_of_regular {stores : List CoreStore} {final : CoreMemory}
    (regular : Machine.Meets store Regular .init stores)
    (reached : Machine.run store .init stores = some final) : final.KeepsApart :=
  (Machine.run_invariant_of_meets
    (fun _ _ _ inv regular stepped => inv_store inv regular stepped) Inv.init regular
    reached).keepsApart

/-- A note with a blank line. -/
def note : CoreStore where
  key := ascii "trip"
  content := ascii "Packing:\n\n- **tent**: green"
  mutable_entry := by decide
  one_line := by decide
  unmarked := by decide
  solid_key := by decide
  solid_content := by decide

/-- A store of a key that the note has in a list. -/
def tent : CoreStore where
  key := ascii "tent"
  content := ascii "sold"
  mutable_entry := by decide
  one_line := by decide
  unmarked := by decide
  solid_key := by decide
  solid_content := by decide

theorem keepsApart_of_regular_twice :
    (CoreMemory.mk (ascii "- **tent**: sold\n- **trip**:\n  Packing:\n  \n  - **tent**: green\n")
      [tent, note]).KeepsApart := by
  have first : store .init tent = some ⟨ascii "- **tent**: sold\n", [tent]⟩ := rfl
  apply @keepsApart_of_regular [tent, note]
  · refine .cons ⟨by decide, by simp [CoreMemory.init]⟩ first
      ⟨⟨by decide, ?_⟩, by simp [Machine.Meets]⟩
    intro other mem _ several
    obtain rfl := List.mem_singleton.mp mem
    revert several
    decide
  · rfl

/-- An item of a list in a note is lost if its text looks like another entry that is stored. -/
theorem not_keepsApart :
    ¬∀ stores final, Machine.run store .init stores = some final → final.KeepsApart := by
  intro keepsApart
  have lost := keepsApart [note, tent]
    ⟨ascii "- **trip**:\n  Packing:\n- **tent**: sold\n", [note, tent]⟩ rfl note List.mem_cons_self
  revert lost
  decide +kernel

end Nullalis.Memory.Markdown
