import Mathlib.Data.List.Nodup
import Nullalis.Tools.FileReadHashed

/-!
# What an edit by tags replaces

The tags that were printed for a file lead the editing tool to the only lines nearby that have
their hashes. A line of another text may have the same hash, and what is behind the last line
matters if nothing is.
-/

namespace Nullalis.Tools

open Posix

/-!
## The lines that are found
-/

theorem getElem?_collectLines (start : ℕ) (lines : List Bytes) (index : ℕ) :
    (collectLines start lines)[index]? =
      lines[index]?.map fun content =>
        ⟨start + (Splice.ended (byte '\n') (lines.take index)).length, content⟩ := by
  induction lines generalizing start index with
  | nil => rfl
  | cons line rest ih =>
      cases index with
      | zero => simp [collectLines]
      | succ index =>
          rw [collectLines, List.getElem?_cons_succ, ih, List.getElem?_cons_succ]
          simp only [List.take_succ_cons, Splice.ended_cons, List.length_append, List.length_cons]
          congr 2
          funext content
          congr 1
          omega

@[simp]
theorem length_collectLines (start : ℕ) (lines : List Bytes) :
    (collectLines start lines).length = lines.length := by
  induction lines generalizing start with
  | nil => rfl
  | cons line rest ih => rw [collectLines, List.length_cons, ih, List.length_cons]

/-- A line that is near a number and the only one there that has a hash. -/
structure Alone (lines : List Bytes) (hint : ℕ) (hash : Bytes) (index : ℕ) : Prop where
  above : hint ≤ index + RADIUS
  below : index ≤ hint + RADIUS
  within : index < lines.length
  hashed : hashAt lines index = hash
  only : ∀ other < lines.length, hint ≤ other + RADIUS → other ≤ hint + RADIUS →
    hashAt lines other = hash → other = index

/-- The lines of a file. -/
abbrev linesOf (contents : Bytes) : List Bytes :=
  Bytes.splitScalar (byte '\n') contents

theorem intercalate_linesOf (contents : Bytes) :
    [byte '\n'].intercalate (linesOf contents) = contents :=
  List.intercalate_splitOn _

variable {lines old : List Bytes} {hint index first last start_idx end_idx : ℕ} {hash : Bytes}

theorem filter_eq_singleton_iff {candidates : List ℕ} (nodup : candidates.Nodup)
    (fits : ℕ → Bool) :
    candidates.filter fits = [index] ↔
      (index ∈ candidates ∧ fits index = true) ∧
        ∀ other ∈ candidates, fits other = true → other = index := by
  constructor
  · intro found
    have mem (other : ℕ) : other ∈ candidates ∧ fits other = true ↔ other = index := by
      rw [← List.mem_filter, found, List.mem_singleton]
    exact ⟨(mem index).mpr rfl, fun other among good => (mem other).mp ⟨among, good⟩⟩
  · rintro ⟨here, only⟩
    have kept := nodup.filter fits
    have mem (other : ℕ) : other ∈ candidates.filter fits ↔ other = index := by
      rw [List.mem_filter]
      constructor
      · rintro ⟨among, good⟩
        exact only other among good
      · rintro rfl
        exact here
    exact List.perm_singleton.mp
      ((List.perm_ext_iff_of_nodup kept (List.nodup_singleton index)).mpr fun other => by
        rw [mem, List.mem_singleton])

/-- The search finds a line that is alone. -/
theorem findLineWithRadius_eq_found_iff (start : ℕ) :
    findLineWithRadius (collectLines start lines) hint hash = .found index ↔
      Alone lines hint hash index := by
  have content (position : ℕ) :
      ((collectLines start lines)[position]?.map (·.content)).getD [] = lines.getD position [] := by
    rw [getElem?_collectLines, List.getD_eq_getElem?_getD, Option.map_map]
    cases lines[position]? <;> rfl
  have found : findLineWithRadius (collectLines start lines) hint hash = .found index ↔
      (List.range' (hint - RADIUS) (min lines.length (hint + RADIUS + 1) - (hint - RADIUS))).filter
        (fun position => hashAt lines position = hash) = [index] := by
    unfold findLineWithRadius
    extract_lets near far contentAt hits
    have same : hits = (List.range' (hint - RADIUS)
        (min lines.length (hint + RADIUS + 1) - (hint - RADIUS))).filter
          (fun position => hashAt lines position = hash) := by
      simp only [hits, near, far, contentAt, content, length_collectLines]
      apply List.filter_congr
      intro position _
      rw [decide_eq_decide]
      rfl
    rw [← same]
    clear_value hits
    cases hits with
    | nil => simp
    | cons one rest =>
        cases rest with
        | nil => simp
        | cons second rest => simp
  rw [found, filter_eq_singleton_iff List.nodup_range']
  simp only [List.mem_range'_1, decide_eq_true_eq]
  constructor
  · rintro ⟨⟨⟨above, below⟩, hashed⟩, only⟩
    exact ⟨by omega, by omega, by omega, hashed, fun other within above below same =>
      only other ⟨by omega, by omega⟩ same⟩
  · intro one
    have above := one.above
    have below := one.below
    have within := one.within
    exact ⟨⟨⟨by omega, by omega⟩, one.hashed⟩, fun other near same =>
      one.only other (by omega) (by omega) (by omega) same⟩

theorem Alone.eq_of_hash (one : Alone lines hint (hashAt lines hint) index)
    (within : hint < lines.length) : index = hint :=
  (one.only hint within (Nat.le_add_right ..) (Nat.le_add_right ..) rfl).symm

/-- The first and the last line that are replaced. -/
def replacedLines (lines : List LineInfo) (target : Target) (end_target : Option Target) :
    Except ToolResult (ℕ × ℕ) := do
  if target.line_num = 0 ∨ lines.length < target.line_num then
    .error (.fail (ascii "Target line number out of range"))
  else
    let near := target.hash ++ ascii " near line " ++ Bytes.decimal target.line_num
    let real_start_idx ←
      match findLineWithRadius lines (target.line_num - 1) target.hash with
      | .found index => .ok index
      | .not_found =>
          .error (.fail (ascii "Hash mismatch for start target " ++ near ++
            ascii ". Context changed."))
      | .ambiguous =>
          .error (.fail (ascii "Ambiguous start target " ++ near ++
            ascii ". Re-read file to refresh Hashlines."))
    let real_end_idx ← end_target.elim (.ok real_start_idx) (findEnd lines target real_start_idx)
    return (real_start_idx, real_end_idx)

theorem front_eq {contents : Bytes} (within : first < (linesOf contents).length) :
    contents.take ((((collectLines 0 (linesOf contents))[first]?).map (·.start)).getD 0) =
      Splice.ended (byte '\n') ((linesOf contents).take first) := by
  have here : ((collectLines 0 (linesOf contents))[first]?.map (·.start)).getD 0 =
      (Splice.ended (byte '\n') ((linesOf contents).take first)).length := by
    rw [getElem?_collectLines, List.getElem?_eq_getElem within]
    simp
  rw [here]
  simpa only [intercalate_linesOf] using Splice.take_intercalate (byte '\n') within

theorem rest_eq (contents : Bytes) (last : ℕ) :
    contents.drop ((((collectLines 0 (linesOf contents))[last + 1]?).map (·.start)).getD
        contents.length) = Splice.behind (byte '\n') (linesOf contents) last := by
  by_cases within : last + 1 < (linesOf contents).length
  case pos =>
      have here : ((collectLines 0 (linesOf contents))[last + 1]?.map (·.start)).getD
          contents.length =
            (Splice.ended (byte '\n') ((linesOf contents).take (last + 1))).length := by
        rw [getElem?_collectLines, List.getElem?_eq_getElem within]
        simp
      rw [here, Splice.behind]
      simpa only [intercalate_linesOf] using Splice.drop_intercalate (byte '\n') within
  case neg =>
      have none : (linesOf contents)[last + 1]? = none := by
        rw [List.getElem?_eq_none_iff]
        omega
      have done : (linesOf contents).drop (last + 1) = [] := by
        rw [List.drop_eq_nil_iff]
        omega
      rw [getElem?_collectLines, none, Splice.behind, done]
      simp

theorem isOpen_iff (text : Bytes) :
    Splice.IsOpen (byte '\n') text ↔ text ≠ [] ∧ Bytes.endsWith text "\n" = false := by
  rw [Splice.IsOpen, Bytes.endsWith, ← Bool.not_eq_true, List.isSuffixOf_iff_suffix]
  rfl

theorem editContents_eq (contents : Bytes) (target : Target) (end_target : Option Target)
    (new_text : Bytes) :
    editContents contents target end_target new_text =
      (replacedLines (collectLines 0 (linesOf contents)) target end_target).map fun range =>
        (Splice.splice (byte '\n') (linesOf contents) range.1 range.2 new_text, range.1) := by
  rw [editContents, replacedLines]
  split
  case isTrue => rfl
  case isFalse inside =>
      simp only [bind, Except.bind]
      cases search : findLineWithRadius (collectLines 0 (linesOf contents))
          (target.line_num - 1) target.hash with
      | not_found => rfl
      | ambiguous => rfl
      | found index =>
          have one := (findLineWithRadius_eq_found_iff 0).mp search
          dsimp only
          cases end_target.elim (.ok index)
              (findEnd (collectLines 0 (linesOf contents)) target index) with
          | error result => rfl
          | ok last =>
              simp only [pure, Except.pure, Except.map, front_eq one.within, rest_eq,
                Splice.splice, isOpen_iff]
              rfl

/-- Where the search for the last line starts: at its number, moved as the first line has moved. -/
def endHint (lines : List Bytes) (first last start_idx : ℕ) : ℕ :=
  min ((last : ℤ) + (start_idx - first)).toNat (lines.length - 1)

/-- The lines that two tags lead to: each is alone near its number. -/
structure Led (lines : List Bytes) (first last : ℕ) (firstHash lastHash : Bytes)
    (start_idx end_idx : ℕ) : Prop where
  inside : last < lines.length
  start : Alone lines first firstHash start_idx
  finish : Alone lines (endHint lines first last start_idx) lastHash end_idx
  order : start_idx ≤ end_idx

theorem findEnd_eq_ok_iff (order : first ≤ last) (firstHash lastHash : Bytes) :
    findEnd (collectLines 0 lines) ⟨first + 1, firstHash⟩ start_idx ⟨last + 1, lastHash⟩ =
        .ok end_idx ↔
      last < lines.length ∧ Alone lines (endHint lines first last start_idx) lastHash end_idx ∧
        start_idx ≤ end_idx := by
  have hint : min (((last + 1 : ℕ) - 1 : ℤ) + (start_idx - ((first + 1 : ℕ) - 1 : ℤ))).toNat
      (lines.length - 1) = endHint lines first last start_idx := by
    simp [endHint]
  simp only [findEnd, length_collectLines]
  split
  case isTrue outside =>
      constructor
      · intro found
        cases found
      · rintro ⟨inside, _⟩
        omega
  case isFalse inside =>
      rw [hint]
      have within : last < lines.length := by omega
      simp only [within, true_and]
      rw [← findLineWithRadius_eq_found_iff 0]
      cases findLineWithRadius (collectLines 0 lines) (endHint lines first last start_idx)
          lastHash with
      | not_found => simp
      | ambiguous => simp
      | found position =>
          dsimp only
          split
          case isTrue before =>
              simp only [reduceCtorEq, LineSearchResult.found.injEq, false_iff]
              omega
          case isFalse behind =>
              simp only [Except.ok.injEq, LineSearchResult.found.injEq]
              omega

/-- The tool replaces the lines that the tags lead to. -/
theorem replacedLines_eq_ok_iff (order : first ≤ last) (firstHash lastHash : Bytes) :
    replacedLines (collectLines 0 lines) ⟨first + 1, firstHash⟩ (some ⟨last + 1, lastHash⟩) =
        .ok (start_idx, end_idx) ↔
      Led lines first last firstHash lastHash start_idx end_idx := by
  rw [replacedLines, length_collectLines]
  split
  case isTrue outside =>
      constructor
      · intro found
        cases found
      · intro led
        have inside := led.inside
        simp only [Nat.add_eq_zero_iff, one_ne_zero, and_false, false_or] at outside
        omega
  case isFalse inside =>
      simp only [bind, Except.bind, Nat.add_sub_cancel, Option.elim_some]
      constructor
      · intro found
        cases search : findLineWithRadius (collectLines 0 lines) first firstHash with
        | not_found =>
            rw [search] at found
            cases found
        | ambiguous =>
            rw [search] at found
            cases found
        | found position =>
            rw [search] at found
            dsimp only at found
            cases finish : findEnd (collectLines 0 lines) ⟨first + 1, firstHash⟩ position
                ⟨last + 1, lastHash⟩ with
            | error result =>
                rw [finish] at found
                cases found
            | ok last_idx =>
                rw [finish] at found
                cases found
                have start := (findLineWithRadius_eq_found_iff 0).mp search
                rcases (findEnd_eq_ok_iff order firstHash lastHash).mp finish with
                  ⟨within, alone, behind⟩
                exact ⟨within, start, alone, behind⟩
      · intro led
        have search := (findLineWithRadius_eq_found_iff 0).mpr led.start
        have finish := (findEnd_eq_ok_iff order firstHash lastHash).mpr
          ⟨led.inside, led.finish, led.order⟩
        rw [search]
        dsimp only
        rw [finish]
        rfl

/-!
## Calls that fail
-/

theorem success_of_fullPath {tool : FileTool} {path : Bytes} {result : ToolResult}
    (refused : tool.fullPath path = .error result) : result.success = false := by
  rw [FileTool.fullPath] at refused
  split at refused
  case isTrue =>
      split at refused
      case isTrue => cases refused; rfl
      case isFalse =>
          split at refused
          case isTrue => cases refused; rfl
          case isFalse => cases refused
  case isFalse =>
      split at refused
      case isTrue => cases refused
      case isFalse => cases refused; rfl

theorem success_of_openFile {tool : FileTool} {max_file_size : ℕ} {fs : FileSystem}
    {cwd : Location} {path : Bytes} {result : ToolResult}
    (refused : tool.openFile max_file_size fs cwd path = .error result) :
    result.success = false := by
  simp only [FileTool.openFile, bind, Except.bind] at refused
  cases full : tool.fullPath path with
  | error failure =>
      rw [full] at refused
      cases refused
      exact success_of_fullPath full
  | ok full_path =>
      rw [full] at refused
      dsimp only at refused
      cases found : resolve fs cwd full_path with
      | error errno =>
          rw [found] at refused
          cases refused
          rfl
      | ok location =>
          rw [found] at refused
          dsimp only at refused
          split at refused
          case isFalse => cases refused; rfl
          case isTrue =>
              cases again : resolve fs cwd (render location) with
              | error errno =>
                  rw [again] at refused
                  cases refused
                  rfl
              | ok opened =>
                  rw [again] at refused
                  simp only [Except.mapError] at refused
                  split at refused
                  case h_1 =>
                      split at refused
                      case isTrue => cases refused; rfl
                      case isFalse => cases refused
                  case h_2 => cases refused; rfl

theorem success_of_findEnd {lines : List LineInfo} {target end_target : Target} {start_idx : ℕ}
    {result : ToolResult}
    (refused : findEnd lines target start_idx end_target = .error result) :
    result.success = false := by
  simp only [findEnd] at refused
  split at refused
  case isTrue => cases refused; rfl
  case isFalse =>
      split at refused
      case h_1 => cases refused; rfl
      case h_2 => cases refused; rfl
      case h_3 =>
          split at refused
          case isTrue => cases refused; rfl
          case isFalse => cases refused

theorem success_of_replacedLines {lines : List LineInfo} {target : Target}
    {end_target : Option Target} {result : ToolResult}
    (refused : replacedLines lines target end_target = .error result) :
    result.success = false := by
  simp only [replacedLines, bind, Except.bind] at refused
  split at refused
  case isTrue => cases refused; rfl
  case isFalse =>
      cases search : findLineWithRadius lines (target.line_num - 1) target.hash with
      | not_found => rw [search] at refused; cases refused; rfl
      | ambiguous => rw [search] at refused; cases refused; rfl
      | found position =>
          rw [search] at refused
          dsimp only at refused
          cases end_target with
          | none => cases refused
          | some end_target =>
              simp only [Option.elim_some] at refused
              cases finish : findEnd lines target position end_target with
              | error failure =>
                  rw [finish] at refused
                  cases refused
                  exact success_of_findEnd finish
              | ok last => rw [finish] at refused; cases refused

/-!
## Edits by tags
-/

/-- Is it the same line behind the same line, up to blanks around them? -/
def SameLine (lines : List Bytes) (index : ℕ) (old : List Bytes) (number : ℕ) : Prop :=
  Bytes.trim (ascii " \t\r\n") (parentAt lines index) =
      Bytes.trim (ascii " \t\r\n") (parentAt old number) ∧
    Bytes.trim (ascii " \t\r\n") (lines.getD index []) =
      Bytes.trim (ascii " \t\r\n") (old.getD number [])

/-- A line that has the hash of another one and is not that line. -/
def IsStranger (lines : List Bytes) (index : ℕ) (old : List Bytes) (number : ℕ) : Prop :=
  hashAt lines index = hashAt old number ∧ ¬SameLine lines index old number

/-- The call by the tags of two lines fails without a change. Or it replaces lines of which the
first and the last one are those that were tagged, and in a file that has not changed the lines
afterwards are as one expects. -/
def EditsTagged (tool : FileEditHashedTool) (disk : Disk) (cwd : Location)
    (path first_tag last_tag new_text : Bytes) (old : List Bytes) (first last : ℕ) : Prop :=
  let answer := tool.fileEditHashed disk cwd (some path) (some first_tag) (some last_tag)
    (some new_text)
  (answer.1.success = false ∧ answer.2 = disk) ∨
    ∃ location contents start_idx end_idx edited,
      answer.1.success = true ∧
      tool.openFile tool.max_file_size disk.fs cwd path = .ok (location, contents) ∧
      Led (linesOf contents) first last (hashAt old first) (hashAt old last) start_idx end_idx ∧
      edited = Splice.splice (byte '\n') (linesOf contents) start_idx end_idx new_text ∧
      answer.2 = disk.put location (some (.file edited)) ∧
      SameLine (linesOf contents) start_idx old first ∧
      SameLine (linesOf contents) end_idx old last ∧
      (linesOf contents = old →
        linesOf edited =
          old.take first ++ Splice.textLines (byte '\n') new_text ++ old.drop (last + 1))

/-- No line that the tags lead to is a stranger. And if nothing stands behind the last line of a
file that has not changed, then the new text ends as the file did. -/
def TagsHold (old lines : List Bytes) (first last : ℕ) (new_text : Bytes) : Prop :=
  ∀ start_idx end_idx, last + 1 < 2 ^ 64 →
    Led lines first last (hashAt old first) (hashAt old last) start_idx end_idx →
      ¬IsStranger lines start_idx old first ∧ ¬IsStranger lines end_idx old last ∧
        (lines = old → Splice.behind (byte '\n') old last = [] →
          (old.length ≤ last + 1 ↔ Splice.IsOpen (byte '\n') new_text))

theorem Led.eq {firstHash lastHash : Bytes} {start_idx end_idx other_start other_end : ℕ}
    (led : Led lines first last firstHash lastHash start_idx end_idx)
    (other : Led lines first last firstHash lastHash other_start other_end) :
    start_idx = other_start ∧ end_idx = other_end := by
  have start : start_idx = other_start :=
    other.start.only start_idx led.start.within led.start.above led.start.below led.start.hashed
  subst start
  exact ⟨rfl, other.finish.only end_idx led.finish.within led.finish.above led.finish.below
    led.finish.hashed⟩

theorem Led.unchanged {start_idx end_idx : ℕ} (order : first ≤ last)
    (led : Led old first last (hashAt old first) (hashAt old last) start_idx end_idx) :
    start_idx = first ∧ end_idx = last := by
  have inside := led.inside
  have start : start_idx = first := led.start.eq_of_hash (by omega)
  subst start
  have hint : endHint old start_idx last start_idx = last := by
    simp only [endHint, sub_self, add_zero, Int.toNat_natCast]
    omega
  have finish := led.finish
  rw [hint] at finish
  exact ⟨rfl, finish.eq_of_hash inside⟩

section Calls

variable (tool : FileEditHashedTool) (disk : Disk) (cwd : Location) (path new_text : Bytes)
  (old : List Bytes)

theorem fileEditHashed_of_large (large : ¬last + 1 < 2 ^ 64) :
    ∃ err, tool.fileEditHashed disk cwd (some path) (some (tagAt old first))
      (some (tagAt old last)) (some new_text) = (.fail err, disk) := by
  simp only [FileEditHashedTool.fileEditHashed, parse_tagAt, Option.map_some, if_neg large]
  by_cases small : first + 1 < 2 ^ 64
  · rw [if_pos small]
    exact ⟨_, rfl⟩
  · rw [if_neg small]
    exact ⟨_, rfl⟩

theorem fileEditHashed_of_small (order : first ≤ last) (small : last + 1 < 2 ^ 64) :
    (∃ result, result.success = false ∧
      tool.fileEditHashed disk cwd (some path) (some (tagAt old first)) (some (tagAt old last))
        (some new_text) = (result, disk) ∧
      ∀ location contents start_idx end_idx,
        tool.openFile tool.max_file_size disk.fs cwd path = .ok (location, contents) →
        ¬Led (linesOf contents) first last (hashAt old first) (hashAt old last) start_idx
          end_idx) ∨
    ∃ result location contents start_idx end_idx, result.success = true ∧
      tool.openFile tool.max_file_size disk.fs cwd path = .ok (location, contents) ∧
      Led (linesOf contents) first last (hashAt old first) (hashAt old last) start_idx end_idx ∧
      tool.fileEditHashed disk cwd (some path) (some (tagAt old first)) (some (tagAt old last))
        (some new_text) =
          (result, disk.put location (some (.file (Splice.splice (byte '\n') (linesOf contents)
            start_idx end_idx new_text)))) := by
  have smaller : first + 1 < 2 ^ 64 := by omega
  simp only [FileEditHashedTool.fileEditHashed, parse_tagAt, if_pos small, if_pos smaller,
    Option.map_some, Option.any_some, Option.isNone_some, Bool.false_eq_true, if_false,
    Option.bind_some, FileEditHashedTool.plan_eq, bind, Except.bind]
  cases opened : tool.openFile tool.max_file_size disk.fs cwd path with
  | error result =>
      refine Or.inl ⟨result, success_of_openFile opened, rfl, ?_⟩
      intro location contents start_idx end_idx same
      cases same
  | ok file =>
      rcases file with ⟨location, contents⟩
      dsimp only
      rw [editContents_eq]
      cases found : replacedLines (collectLines 0 (linesOf contents))
          ⟨first + 1, hashAt old first⟩ (some ⟨last + 1, hashAt old last⟩) with
      | error result =>
          refine Or.inl ⟨result, success_of_replacedLines found, rfl, ?_⟩
          intro location contents start_idx end_idx same led
          cases same
          rw [(replacedLines_eq_ok_iff order _ _).mpr led] at found
          cases found
      | ok range =>
          have led := (replacedLines_eq_ok_iff order _ _).mp found
          exact Or.inr ⟨_, location, contents, range.1, range.2, rfl, rfl, led, rfl⟩

theorem linesOf_splice_iff (old : List Bytes) (new_text : Bytes)
    (apart : ∀ line ∈ old, byte '\n' ∉ line) :
    linesOf (Splice.splice (byte '\n') old first last new_text) =
        old.take first ++ Splice.textLines (byte '\n') new_text ++ old.drop (last + 1) ↔
      (Splice.behind (byte '\n') old last = [] →
        (old.length ≤ last + 1 ↔ Splice.IsOpen (byte '\n') new_text)) :=
  Splice.splitOn_splice_iff apart

/-- An edit by tags is as it should be exactly if the tags hold. -/
theorem editsTagged_tagAt_iff (order : first ≤ last) :
    EditsTagged tool disk cwd path (tagAt old first) (tagAt old last) new_text old first last ↔
      ∀ location contents,
        tool.openFile tool.max_file_size disk.fs cwd path = .ok (location, contents) →
          TagsHold old (linesOf contents) first last new_text := by
  by_cases small : last + 1 < 2 ^ 64
  case neg =>
      rcases fileEditHashed_of_large tool disk cwd path new_text old small with ⟨err, answer⟩
      constructor
      · intro _ location contents _ start_idx end_idx fits
        exact absurd fits small
      · intro _
        refine Or.inl ?_
        rw [answer]
        exact ⟨rfl, rfl⟩
  case pos =>
      rcases fileEditHashed_of_small tool disk cwd path new_text old order small with
        ⟨result, failed, answer, unled⟩ |
        ⟨result, location, contents, start_idx, end_idx, succeeded, opened, led, answer⟩
      · constructor
        · intro _ location contents opened start_idx end_idx _ led
          exact absurd led (unled location contents start_idx end_idx opened)
        · intro _
          refine Or.inl ?_
          rw [answer]
          exact ⟨failed, rfl⟩
      · have apart : ∀ line ∈ linesOf contents, byte '\n' ∉ line :=
          fun line mem => Bytes.not_mem_of_splitScalar mem
        constructor
        · rintro (⟨failed, _⟩ | ⟨place, text, from_idx, to_idx, edited, _, there, ledThere, written, _,
            sameFirst, sameLast, expected⟩) found content here start_again end_again _ ledAgain
          · rw [answer, succeeded] at failed
            cases failed
          · rw [opened] at there here
            cases there
            cases here
            rcases ledAgain.eq ledThere with ⟨rfl, rfl⟩
            refine ⟨fun stranger => stranger.2 sameFirst, fun stranger => stranger.2 sameLast, ?_⟩
            rintro rfl
            rcases ledAgain.unchanged order with ⟨rfl, rfl⟩
            rw [← linesOf_splice_iff _ _ apart, ← written]
            exact expected rfl
        · intro hold
          rcases hold location contents opened start_idx end_idx small led with
            ⟨firstKnown, lastKnown, ending⟩
          refine Or.inr ⟨location, contents, start_idx, end_idx, _, ?_, opened, led, rfl, ?_, ?_, ?_,
            ?_⟩
          · rw [answer]
            exact succeeded
          · rw [answer]
          · by_contra other
            exact firstKnown ⟨led.start.hashed, other⟩
          · by_contra other
            exact lastKnown ⟨led.finish.hashed, other⟩
          · rintro rfl
            rcases led.unchanged order with ⟨rfl, rfl⟩
            rw [linesOf_splice_iff _ _ apart]
            exact ending rfl

end Calls

/-- A directory with one file. -/
def sampleFiles (contents : Bytes) : FileSystem := fun location =>
  if location = [] ∨ location = [ascii "w"] then some .directory
  else if location = [ascii "f", ascii "w"] then some (.file contents)
  else none

def sampleReader : FileReadHashedTool := ⟨⟨ascii "/w", []⟩, 100⟩

def sampleEditor : FileEditHashedTool := ⟨⟨ascii "/w", []⟩, 100⟩

end Nullalis.Tools
