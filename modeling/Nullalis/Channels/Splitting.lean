import Mathlib.Data.List.DropRight
import Nullalis.Base.Occurrence
import Nullalis.Base.Pieces

/-!
# Splitting outbound messages

A channel takes messages up to a length. Three splitters cut a longer one: at a character, at a
newline or a space if there is one, and at line breaks, which IRC cannot send.

The second one cuts at the length itself if it finds neither, inside of a character perhaps. The
third one drops the carriage returns at the end of a line, and keeps those inside of it.
-/

namespace Nullalis.Channels

open Bytes (lastIndexOfScalar splitScalar)
open Utf8 (isContinuation)

/-- Walk back to a byte that starts a character (`(byte & 0xC0) != 0x80`), or to the first one. -/
def walkBack (remaining : Bytes) : ℕ → ℕ
  | 0 => 0
  | split_at + 1 =>
      if isContinuation (remaining.getD (split_at + 1) 0) then walkBack remaining split_at
      else split_at + 1

def walkForward (remaining : Bytes) (split_at : ℕ) : ℕ :=
  split_at + ((remaining.drop split_at).takeWhile isContinuation).length

/-- The next chunk of `splitMessage`, and what remains then. -/
def SplitIterator.next (max : ℕ) (remaining : Bytes) : Option (Bytes × Bytes) :=
  if remaining.isEmpty then none
  else if remaining.length ≤ max then some (remaining, [])
  else
    let back := walkBack remaining max
    let split_at := if back = 0 then walkForward remaining max else back
    some (remaining.take split_at, remaining.drop split_at)

def splitMessage (msg : Bytes) (max_bytes : ℕ) : Option (List Bytes) :=
  Pieces.collect (SplitIterator.next max_bytes) (msg.length + 1) msg

/-- Behind the last space of the search area, or at the length. -/
def spaceSplitAt (max : ℕ) (search_area : Bytes) : ℕ :=
  match lastIndexOfScalar (byte ' ') search_area with
  | some sp_pos => sp_pos + 1
  | none => max

/-- Behind the last newline if it is in the second half, else behind a space. -/
def smartSplitAt (max : ℕ) (search_area : Bytes) : ℕ :=
  let half := max / 2
  match lastIndexOfScalar (byte '\n') search_area with
  | some nl_pos => if half ≤ nl_pos then nl_pos + 1 else spaceSplitAt max search_area
  | none => spaceSplitAt max search_area

/-- The next chunk of `smartSplitMessage`, and what remains then. -/
def SmartSplitIterator.next (max : ℕ) (remaining : Bytes) : Option (Bytes × Bytes) :=
  if remaining.isEmpty then none
  else if remaining.length ≤ max then some (remaining, [])
  else
    let split_at := smartSplitAt max (remaining.take max)
    some (remaining.take split_at, remaining.drop split_at)

def smartSplitMessage (msg : Bytes) (max_bytes : ℕ) : Option (List Bytes) :=
  Pieces.collect (SmartSplitIterator.next max_bytes) (msg.length + 1) msg

def trimLine (raw_line : Bytes) : Bytes :=
  raw_line.rdropWhile (· == byte '\r')

/-- The chunks of one line. -/
def splitLine (max_bytes : ℕ) (raw_line : Bytes) : Option (List Bytes) :=
  let line := trimLine raw_line
  if line.isEmpty then some []
  else if line.length ≤ max_bytes then some [line]
  else splitMessage line max_bytes

/-- The chunks of all lines, or an empty one. -/
def splitIrcMessage (message : Bytes) (max_bytes : ℕ) : Option (List Bytes) :=
  if max_bytes = 0 then some [message]
  else
    ((splitScalar (byte '\n') message).mapM (splitLine max_bytes)).map fun chunks =>
      if chunks.flatten.isEmpty then [[]] else chunks.flatten

/-! ## Chunks -/

/-- A chunk that a channel can send. -/
structure Fits (max : ℕ) (chunk : Bytes) : Prop where
  filled : chunk ≠ []
  short : chunk.length ≤ max
  whole : Utf8.valid chunk = true

def Lossless (max : ℕ) (chunks : Option (List Bytes)) (text : Bytes) : Prop :=
  ∃ found, chunks = some found ∧ (∀ chunk ∈ found, Fits max chunk) ∧ found.flatten = text

variable {max : ℕ} {remaining chunk rest msg : Bytes}

theorem walkBack_spec (remaining : Bytes) (start : ℕ) :
    walkBack remaining start ≤ start ∧
      (walkBack remaining start = 0 ∨
        isContinuation (remaining.getD (walkBack remaining start) 0) = false) ∧
      ∀ index, walkBack remaining start < index → index ≤ start →
        isContinuation (remaining.getD index 0) = true := by
  induction start with
  | zero => exact ⟨Nat.le_refl 0, .inl rfl, fun index above below => by omega⟩
  | succ start ih =>
      rw [walkBack]
      obtain ⟨below, stops, inner⟩ := ih
      split_ifs with continues
      · refine ⟨Nat.le_succ_of_le below, stops, ?_⟩
        intro index above within
        rcases Nat.lt_or_eq_of_le within with within | rfl
        · exact inner index above (Nat.le_of_lt_succ within)
        · exact continues
      · refine ⟨Nat.le_refl _, .inr (by simpa using continues), ?_⟩
        intro index above within
        omega

theorem walkBack_ne_zero (whole : Utf8.valid remaining = true) (wide : 4 ≤ max)
    (long : max < remaining.length) : walkBack remaining max ≠ 0 := by
  intro none_found
  obtain ⟨-, -, inner⟩ := walkBack_spec remaining max
  rw [none_found] at inner
  have split : remaining.take 1 ++ (remaining.drop 1).take max ++ remaining.drop (max + 1) =
      remaining := by
    rw [Nat.add_comm max 1, ← List.drop_drop, List.append_assoc, List.take_append_drop,
      List.take_append_drop]
  have few := Utf8.length_continuations_le (split.symm ▸ whole :) (by
    intro value mem
    obtain ⟨index, below, rfl⟩ := List.mem_iff_getElem.mp mem
    rw [List.length_take, List.length_drop] at below
    have found := inner (1 + index) (by omega) (by omega)
    rw [List.getD_eq_getElem _ _ (by omega)] at found
    rwa [List.getElem_take, List.getElem_drop])
  rw [List.length_take, List.length_drop] at few
  omega

theorem cutting_split (positive : 0 < max) : Pieces.Cutting (SplitIterator.next max) where
  front remaining chunk rest cut := by
    rw [SplitIterator.next] at cut
    split_ifs at cut
    · cases cut
      exact List.append_nil _
    · cases cut
      exact List.take_append_drop _ _
  filled remaining chunk rest cut := by
    rw [SplitIterator.next] at cut
    split_ifs at cut with empty short
    · cases cut
      simpa using empty
    · cases cut
      intro nothing
      rw [List.take_eq_nil_iff] at nothing
      rw [List.isEmpty_iff] at empty
      rcases nothing with nothing | nothing
      · split_ifs at nothing with back
        · rw [walkForward] at nothing
          omega
        · exact back nothing
      · exact empty nothing
  ends remaining := by
    rw [SplitIterator.next]
    split_ifs with empty short
    · simpa using empty
    · simpa using empty
    · simpa using empty

theorem fits_split (wide : 4 ≤ max) (whole : Utf8.valid remaining = true)
    (cut : SplitIterator.next max remaining = some (chunk, rest)) :
    Fits max chunk ∧ Utf8.valid rest = true := by
  have filled := (cutting_split (by omega)).filled _ _ _ cut
  rw [SplitIterator.next] at cut
  split_ifs at cut with empty short
  · cases cut
    exact ⟨⟨filled, short, whole⟩, rfl⟩
  · have long : max < remaining.length := Nat.lt_of_not_le short
    have found := walkBack_ne_zero whole wide long
    obtain ⟨below, stops, -⟩ := walkBack_spec remaining max
    simp only [if_neg found] at cut
    cases cut
    obtain ⟨front, back⟩ := Utf8.valid_cut_at whole (Nat.lt_of_le_of_lt below long)
    rw [stops.resolve_left found] at front back
    refine ⟨⟨filled, ?_, front⟩, back⟩
    rw [List.length_take]
    omega

theorem lossless_split (wide : 4 ≤ max) (whole : Utf8.valid msg = true) :
    Lossless max (splitMessage msg max) msg := by
  have cutting : Pieces.Cutting (SplitIterator.next max) := cutting_split (by omega)
  obtain ⟨chunks, collected, yields⟩ := cutting.collect (Nat.lt_succ_self msg.length)
  refine ⟨chunks, collected, ?_, cutting.flatten yields⟩
  have all := Pieces.forall_mem_iff (fun remaining => Utf8.valid remaining = true)
    (fun _ => True) (Fits max)
    (fun remaining chunk rest whole cut => iff_of_true (fits_split wide whole cut).1 trivial)
    (fun remaining chunk rest whole cut _ => (fits_split wide whole cut).2)
    (fun _ _ => trivial) whole yields
  exact all.mpr fun _ _ => trivial

/-! ## Newlines and spaces -/

/-- No space is found, and a newline in the first half only. -/
def HardCut (max : ℕ) (remaining : Bytes) : Prop :=
  max < remaining.length ∧
    (∀ nl_pos, lastIndexOfScalar (byte '\n') (remaining.take max) = some nl_pos →
      nl_pos < max / 2) ∧
    lastIndexOfScalar (byte ' ') (remaining.take max) = none

def CutsBetween (max : ℕ) (remaining : Bytes) : Prop :=
  HardCut max remaining → isContinuation (remaining.getD max 0) = false

/-- The cut comes behind an ASCII byte, or it is a hard one. -/
theorem smartSplitAt_cases (long : max < remaining.length) :
    (∃ first value last, remaining.take max = first ++ value :: last ∧
      Utf8.isAscii value = true ∧ smartSplitAt max (remaining.take max) = first.length + 1 ∧
      ¬HardCut max remaining) ∨
    HardCut max remaining ∧ smartSplitAt max (remaining.take max) = max := by
  have space (unsuited : ∀ nl_pos, lastIndexOfScalar (byte '\n') (remaining.take max) =
      some nl_pos → nl_pos < max / 2)
      (falls : smartSplitAt max (remaining.take max) = spaceSplitAt max (remaining.take max)) :
      (∃ first value last, remaining.take max = first ++ value :: last ∧
        Utf8.isAscii value = true ∧ smartSplitAt max (remaining.take max) = first.length + 1 ∧
        ¬HardCut max remaining) ∨
      HardCut max remaining ∧ smartSplitAt max (remaining.take max) = max := by
    rw [falls, spaceSplitAt]
    cases found : lastIndexOfScalar (byte ' ') (remaining.take max) with
    | none => exact .inr ⟨⟨long, unsuited, found⟩, rfl⟩
    | some sp_pos =>
        obtain ⟨first, last, split, rfl⟩ := Bytes.eq_append_of_lastIndexOfScalar found
        refine .inl ⟨first, _, last, split, by decide, rfl, ?_⟩
        intro hard
        rw [hard.2.2] at found
        cases found
  cases newline : lastIndexOfScalar (byte '\n') (remaining.take max) with
  | none =>
      apply space
      · intro nl_pos found
        rw [newline] at found
        cases found
      · simp only [smartSplitAt, newline]
  | some nl_pos =>
      by_cases late : max / 2 ≤ nl_pos
      · obtain ⟨first, last, split, rfl⟩ := Bytes.eq_append_of_lastIndexOfScalar newline
        refine .inl ⟨first, _, last, split, by decide, ?_, ?_⟩
        · simp only [smartSplitAt, newline, if_pos late]
        · intro hard
          exact absurd (hard.2.1 _ newline) (Nat.not_lt.mpr late)
      · apply space
        · intro other found
          rw [newline] at found
          obtain rfl := Option.some.inj found
          exact Nat.lt_of_not_le late
        · simp only [smartSplitAt, newline, if_neg late]

theorem cutting_smartSplit (positive : 0 < max) : Pieces.Cutting (SmartSplitIterator.next max) where
  front remaining chunk rest cut := by
    rw [SmartSplitIterator.next] at cut
    split_ifs at cut
    · cases cut
      exact List.append_nil _
    · cases cut
      exact List.take_append_drop _ _
  filled remaining chunk rest cut := by
    rw [SmartSplitIterator.next] at cut
    split_ifs at cut with empty short
    · cases cut
      simpa using empty
    · cases cut
      intro nothing
      rw [List.isEmpty_iff] at empty
      rw [List.take_eq_nil_iff] at nothing
      rcases smartSplitAt_cases (Nat.lt_of_not_le short) with
        ⟨first, _, _, _, _, behind, _⟩ | ⟨_, hard⟩
      · rw [behind] at nothing
        exact empty (nothing.resolve_left (Nat.succ_ne_zero _))
      · rw [hard] at nothing
        exact empty (nothing.resolve_left (by omega))
  ends remaining := by
    rw [SmartSplitIterator.next]
    split_ifs with empty short
    · simpa using empty
    · simpa using empty
    · simpa using empty

theorem fits_smartSplit (wide : 4 ≤ max) (whole : Utf8.valid remaining = true)
    (cut : SmartSplitIterator.next max remaining = some (chunk, rest)) :
    (Fits max chunk ↔ CutsBetween max remaining) ∧ (Fits max chunk → Utf8.valid rest = true) := by
  have cutting : Pieces.Cutting (SmartSplitIterator.next max) := cutting_smartSplit (by omega)
  have filled := cutting.filled _ _ _ cut
  refine ⟨?_, fun fits => Utf8.valid_of_append (cutting.front _ _ _ cut ▸ whole) fits.whole⟩
  rw [SmartSplitIterator.next] at cut
  split_ifs at cut with empty short
  · cases cut
    exact iff_of_true ⟨filled, short, whole⟩ fun hard => absurd hard.1 (Nat.not_lt.mpr short)
  · have long : max < remaining.length := Nat.lt_of_not_le short
    cases cut
    rcases smartSplitAt_cases long with
      ⟨first, value, last, split, plain, behind, soft⟩ | ⟨hard, at_max⟩
    · refine iff_of_true ⟨filled, ?_, ?_⟩ fun hard => absurd hard soft
      · have short := congrArg List.length split
        rw [List.length_append, List.length_cons, List.length_take] at short
        rw [List.length_take, behind]
        omega
      · have front : remaining = (first ++ value :: last) ++ remaining.drop max := by
          rw [← split, List.take_append_drop]
        have chunk : remaining.take (first.length + 1) = first ++ [value] := by
          rw [front, List.append_assoc, List.cons_append, List.take_append,
            List.take_of_length_le (by omega)]
          simp
        rw [front, List.append_assoc, List.cons_append, Utf8.valid_append_cons plain,
          Bool.and_eq_true] at whole
        rw [behind, chunk, Utf8.valid_append_cons plain, whole.1]
        rfl
    · rw [at_max] at filled ⊢
      obtain ⟨front, -⟩ := Utf8.valid_cut_at whole long
      constructor
      · intro fits _
        simpa [fits.whole] using front
      · intro between
        rw [between hard] at front
        exact ⟨filled, List.length_take_le _ _, front⟩

theorem lossless_smartSplit_iff (wide : 4 ≤ max) (whole : Utf8.valid msg = true) :
    Lossless max (smartSplitMessage msg max) msg ↔
      ∀ remaining, Pieces.Reaches (SmartSplitIterator.next max) msg remaining →
        CutsBetween max remaining := by
  have cutting : Pieces.Cutting (SmartSplitIterator.next max) := cutting_smartSplit (by omega)
  obtain ⟨chunks, collected, yields⟩ := cutting.collect (Nat.lt_succ_self msg.length)
  have all := Pieces.forall_mem_iff (fun remaining => Utf8.valid remaining = true)
    (CutsBetween max) (Fits max)
    (fun remaining chunk rest whole cut => (fits_smartSplit wide whole cut).1)
    (fun remaining chunk rest whole cut => (fits_smartSplit wide whole cut).2)
    (fun remaining ended hard => by
      rw [(cutting.ends remaining).mp ended] at hard
      exact absurd hard.1 (Nat.not_lt_zero max)) whole yields
  rw [← all]
  constructor
  · rintro ⟨found, same, fit, -⟩
    obtain rfl := Option.some.inj (collected.symm.trans same)
    exact fit
  · intro fit
    exact ⟨chunks, collected, fit, cutting.flatten yields⟩

/-! ## Lines -/

def isBreak (value : UInt8) : Bool :=
  value == byte '\r' || value == byte '\n'

def ReturnsEndLines (message : Bytes) : Prop :=
  ∀ line ∈ splitScalar (byte '\n') message, byte '\r' ∉ trimLine line

/-- Chunks that fit, without line breaks, make up the rest of a message. -/
def LosslessLines (max : ℕ) (chunks : Option (List Bytes)) (message : Bytes) : Prop :=
  ∃ found, chunks = some found ∧
    (∀ chunk ∈ found, Fits max chunk ∧ ∀ value ∈ chunk, isBreak value = false) ∧
    found.flatten = message.filter fun value => !isBreak value

variable {message line : Bytes} {lines : List Bytes} {value : UInt8}

theorem flatten_splitScalar (delimiter : UInt8) (text : Bytes) :
    (splitScalar delimiter text).flatten = text.filter (· != delimiter) := by
  induction text with
  | nil => rfl
  | cons value rest ih =>
      by_cases same : value = delimiter
      · subst same
        rw [Bytes.splitScalar_cons_self, List.flatten_cons, ih, List.filter_cons_of_neg (by simp)]
        rfl
      · rw [Bytes.splitScalar_cons_of_ne same, List.filter_cons_of_pos (by simpa using same), ← ih]
        cases parts : splitScalar delimiter rest with
        | nil => exact absurd parts (Bytes.splitScalar_ne_nil delimiter rest)
        | cons first others => rfl

theorem valid_of_mem_splitScalar {message : Bytes} {delimiter : UInt8}
    (plain : Utf8.isAscii delimiter = true) (whole : Utf8.valid message = true)
    (mem : line ∈ splitScalar delimiter message) :
    Utf8.valid line = true := by
  by_cases inside : delimiter ∈ message
  · obtain ⟨first, later, split, apart⟩ := List.eq_append_cons_of_mem inside
    have shorter : later.length < message.length := by
      rw [split, List.length_append, List.length_cons]
      omega
    rw [split, Bytes.splitScalar_append apart] at mem
    rw [split, Utf8.valid_append_cons plain, Bool.and_eq_true] at whole
    rcases List.mem_cons.mp mem with rfl | mem
    · exact whole.1
    · exact valid_of_mem_splitScalar plain whole.2 mem
  · rw [Bytes.splitScalar_of_not_mem inside, List.mem_singleton] at mem
    exact mem ▸ whole
termination_by message.length

theorem trimLine_append (line : Bytes) :
    ∃ returns, line = trimLine line ++ returns ∧ ∀ value ∈ returns, value = byte '\r' := by
  refine ⟨line.rtakeWhile (· == byte '\r'), List.rdropWhile_append_rtakeWhile.symm, ?_⟩
  intro value mem
  simpa using List.mem_rtakeWhile_imp mem

theorem valid_trimLine (whole : Utf8.valid line = true) : Utf8.valid (trimLine line) = true := by
  obtain ⟨returns, split, only⟩ := trimLine_append line
  have plain : returns.all Utf8.isAscii = true := by
    rw [List.all_eq_true]
    intro value mem
    rw [only value mem]
    decide
  rwa [split, Utf8.valid_append_right plain] at whole

theorem filter_trimLine (line : Bytes) :
    (trimLine line).filter (· != byte '\r') = line.filter (· != byte '\r') := by
  obtain ⟨returns, split, only⟩ := trimLine_append line
  have nothing : returns.filter (· != byte '\r') = [] := by
    rw [List.filter_eq_nil_iff]
    intro value mem
    simp [only value mem]
  conv_rhs => rw [split, List.filter_append, nothing, List.append_nil]

theorem lossless_line (wide : 4 ≤ max) (whole : Utf8.valid line = true) :
    Lossless max (splitLine max line) (trimLine line) := by
  rw [splitLine]
  split_ifs with empty short
  · exact ⟨[], rfl, by simp, (List.isEmpty_iff.mp empty).symm⟩
  · rw [List.isEmpty_iff] at empty
    refine ⟨_, rfl, ?_, by simp⟩
    intro chunk mem
    obtain rfl := List.mem_singleton.mp mem
    exact ⟨empty, short, valid_trimLine whole⟩
  · exact lossless_split wide (valid_trimLine whole)

theorem lossless_lines (wide : 4 ≤ max) (whole : ∀ line ∈ lines, Utf8.valid line = true) :
    ∃ found, lines.mapM (splitLine max) = some found ∧
      (∀ chunk ∈ found.flatten, Fits max chunk) ∧
      found.flatten.flatten = (lines.map trimLine).flatten := by
  induction lines with
  | nil => exact ⟨[], rfl, by simp, rfl⟩
  | cons line rest ih =>
      rw [List.forall_mem_cons] at whole
      obtain ⟨chunks, split, fit, made⟩ := lossless_line wide whole.1
      obtain ⟨found, others, all_fit, all_made⟩ := ih whole.2
      refine ⟨chunks :: found, by rw [List.mapM_cons, split, others]; rfl, ?_, ?_⟩
      · intro chunk mem
        rw [List.flatten_cons, List.mem_append] at mem
        exact mem.elim (fit chunk) (all_fit chunk)
      · rw [List.flatten_cons, List.flatten_append, made, all_made, List.map_cons,
          List.flatten_cons]

/-- A message with another character than line breaks is split without loss if and only if the
carriage returns of each line stand at its end. -/
theorem losslessLines_iff (wide : 4 ≤ max) (whole : Utf8.valid message = true)
    (visible : ∃ value ∈ message, isBreak value = false) :
    LosslessLines max (splitIrcMessage message max) message ↔ ReturnsEndLines message := by
  have texts : ∀ line ∈ splitScalar (byte '\n') message, Utf8.valid line = true :=
    fun line mem => valid_of_mem_splitScalar (by decide) whole mem
  obtain ⟨found, split, fit, made⟩ := lossless_lines wide texts
  have result : splitIrcMessage message max =
      some (if found.flatten.isEmpty then [[]] else found.flatten) := by
    rw [splitIrcMessage, if_neg (by omega), split]
    rfl
  constructor
  · rintro ⟨chunks, same, good, -⟩ line mem inside
    rw [result] at same
    obtain rfl := Option.some.inj same
    have held : byte '\r' ∈ found.flatten.flatten := by
      rw [made, List.mem_flatten]
      exact ⟨_, List.mem_map_of_mem mem, inside⟩
    obtain ⟨chunk, chunk_mem, held⟩ := List.mem_flatten.mp held
    have filled : found.flatten.isEmpty = false := by
      rw [List.isEmpty_eq_false_iff]
      exact List.ne_nil_of_mem chunk_mem
    rw [filled] at good
    have apart := (good chunk chunk_mem).2 _ held
    exact absurd apart (by decide)
  · intro ended
    have trimmed (line : Bytes) (mem : line ∈ splitScalar (byte '\n') message) :
        trimLine line = line.filter (· != byte '\r') := by
      rw [← filter_trimLine, eq_comm, List.filter_eq_self]
      intro value held
      rw [bne_iff_ne]
      rintro rfl
      exact ended line mem held
    have rest : found.flatten.flatten = message.filter fun value => !isBreak value := by
      rw [made, List.map_congr_left trimmed, ← List.filter_flatten, flatten_splitScalar,
        List.filter_filter]
      congr 1
      funext value
      rw [isBreak, Bool.not_or]
      rfl
    obtain ⟨value, mem, plain⟩ := visible
    have filled : found.flatten.isEmpty = false := by
      rw [List.isEmpty_eq_false_iff]
      intro nothing
      rw [nothing] at rest
      have held : value ∈ message.filter fun value => !isBreak value := by simp [mem, plain]
      rw [← rest] at held
      cases held
    refine ⟨found.flatten, by rw [result, filled]; rfl, ?_, rest⟩
    intro chunk mem
    refine ⟨fit chunk mem, ?_⟩
    intro value held
    have kept : value ∈ found.flatten.flatten := List.mem_flatten.mpr ⟨chunk, mem, held⟩
    rw [rest] at kept
    simpa using (List.mem_filter.mp kept).2

/-- The three splitters lose nothing if and only if no hard cut of the second one falls into a
character, and the carriage returns of a message that is more than line breaks end its lines. -/
theorem lossless_iff (wide : 4 ≤ max) (whole : Utf8.valid msg = true) :
    (Lossless max (splitMessage msg max) msg ∧ Lossless max (smartSplitMessage msg max) msg ∧
      ((∃ value ∈ msg, isBreak value = false) →
        LosslessLines max (splitIrcMessage msg max) msg)) ↔
    (∀ remaining, Pieces.Reaches (SmartSplitIterator.next max) msg remaining →
      CutsBetween max remaining) ∧
    ((∃ value ∈ msg, isBreak value = false) → ReturnsEndLines msg) := by
  constructor
  · rintro ⟨-, smart, irc⟩
    exact ⟨(lossless_smartSplit_iff wide whole).mp smart,
      fun visible => (losslessLines_iff wide whole visible).mp (irc visible)⟩
  · rintro ⟨between, ended⟩
    exact ⟨lossless_split wide whole, (lossless_smartSplit_iff wide whole).mpr between,
      fun visible => (losslessLines_iff wide whole visible).mpr (ended visible)⟩

/-- A letter of two bytes behind a line break. -/
theorem lossless_iff_letter :
    (Lossless 4 (splitMessage [0x0A, 0xC3, 0xA9] 4) [0x0A, 0xC3, 0xA9] ∧
      Lossless 4 (smartSplitMessage [0x0A, 0xC3, 0xA9] 4) [0x0A, 0xC3, 0xA9] ∧
      ((∃ value ∈ ([0x0A, 0xC3, 0xA9] : Bytes), isBreak value = false) →
        LosslessLines 4 (splitIrcMessage [0x0A, 0xC3, 0xA9] 4) [0x0A, 0xC3, 0xA9])) ↔
    (∀ remaining, Pieces.Reaches (SmartSplitIterator.next 4) [0x0A, 0xC3, 0xA9] remaining →
      CutsBetween 4 remaining) ∧
    ((∃ value ∈ ([0x0A, 0xC3, 0xA9] : Bytes), isBreak value = false) →
      ReturnsEndLines [0x0A, 0xC3, 0xA9]) :=
  lossless_iff (Nat.le_refl 4) (by decide)

/-- Three letters and one of two bytes: at length four the second splitter cuts the last one in two.
And a carriage return between two letters is sent to IRC. -/
theorem not_lossless :
    ¬Lossless 4 (smartSplitMessage [0x61, 0x61, 0x61, 0xC3, 0xA9] 4)
      [0x61, 0x61, 0x61, 0xC3, 0xA9] ∧
    ¬LosslessLines 4 (splitIrcMessage [0x61, 0x0D, 0x62] 4) [0x61, 0x0D, 0x62] := by
  constructor
  · rintro ⟨found, same, fit, -⟩
    have cut : smartSplitMessage [0x61, 0x61, 0x61, 0xC3, 0xA9] 4 =
        some [[0x61, 0x61, 0x61, 0xC3], [0xA9]] := by decide
    obtain rfl := Option.some.inj (cut.symm.trans same)
    exact absurd (fit _ List.mem_cons_self).whole (by decide)
  · rintro ⟨found, same, good, -⟩
    have sent : splitIrcMessage [0x61, 0x0D, 0x62] 4 = some [[0x61, 0x0D, 0x62]] := by
      decide
    obtain rfl := Option.some.inj (sent.symm.trans same)
    exact absurd ((good _ List.mem_cons_self).2 0x0D (by decide)) (by decide)

end Nullalis.Channels
