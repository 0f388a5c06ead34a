import Nullalis.Base.Shell
import Nullalis.Security.Policy

/-!
# What an allowed command runs

The policy cuts a command where the shell does, but it reads the pieces in its own way: it
separates words by spaces only, skips every word that looks like an assignment, and gives
up on a program without a base name. A program that it reads as the shell does is in the
list of allowed commands. So an allowed command is safe exactly when the programs that the
policy reads differently are allowed and no forbidden argument is glued to another word.
-/

namespace Nullalis.Security

open Shell (simpleCommands invocation)

variable {policy : SecurityPolicy} {command text program word : Bytes} {args : List Bytes}

/-- The arguments that a command must not have: those of `find` that run other commands and
those of `git` that set options. -/
def Forbidden (base word : Bytes) : Prop :=
  (base = ascii "find" ∧ (word = ascii "-exec" ∨ word = ascii "-ok")) ∨
    (base = ascii "git" ∧
      (word = ascii "config" ∨ (ascii "config.").isPrefixOf word ∨
        word = ascii "alias" ∨ (ascii "alias.").isPrefixOf word ∨ word = ascii "-c"))

/-- Every program that the shell runs is allowed, and has no forbidden argument. -/
def ShellSafe (allowed : List Bytes) (command : Bytes) : Prop :=
  ∀ text ∈ simpleCommands command, ∀ program args, invocation text = program :: args →
    Bytes.basename program ∈ allowed ∧
      ∀ word ∈ args, ¬ Forbidden (Bytes.basename program) word

def scannedWords (text : Bytes) : List Bytes :=
  Bytes.tokenizeScalar (byte ' ') (skipEnvAssignments (Bytes.trim blanks text))

/-- The policy reads the program of the segment as the shell does. A null byte would cut the
segment for the policy. -/
def Visible (text program : Bytes) : Prop :=
  0 ∉ text ∧ (scannedWords text).head? = some program ∧ Bytes.basename program ≠ []

/-- Nothing hides from the policy what it would refuse: a program that it does not see is
allowed, and a forbidden argument is a word for the policy, too. -/
def NothingHidden (allowed : List Bytes) (command : Bytes) : Prop :=
  ∀ text ∈ simpleCommands command, ∀ program args, invocation text = program :: args →
    (¬ Visible text program → Bytes.basename program ∈ allowed) ∧
      ∀ word ∈ args, Forbidden (Bytes.basename program) word →
        Visible text program ∧ word ∈ (scannedWords text).tail

/-!
## The segments
-/

theorem map_replaceSingle_replacePair (text : Bytes) :
    (replacePair (byte '|') text).map replaceSingle = text.map replaceSingle := by
  fun_induction replacePair (byte '|') text with
  | case1 => rfl
  | case2 => rfl
  | case3 first second rest pair ih =>
      rcases pair with ⟨rfl, rfl⟩
      rw [List.map_cons, List.map_cons, ih]
      rfl
  | case4 first second rest _ ih => rw [List.map_cons, ih, ← List.map_cons]

theorem normalizeCommand_eq (command : Bytes) :
    normalizeCommand command = (replacePair (byte '&') command).map replaceSingle :=
  map_replaceSingle_replacePair _

theorem replaceSingle_eq (value : UInt8) :
    replaceSingle value = if Shell.isOperator value then 0 else value := by
  simp only [replaceSingle, Shell.isOperator, Bool.or_eq_true, beq_iff_eq]
  grind

/-- The policy cuts a command where the shell does, as far as there is no null byte. -/
structure SameCuts (texts segments : List Bytes) : Prop where
  first : ∀ text, texts.head? = some text → 0 ∉ text → segments.head? = some text
  later : ∀ text ∈ texts.tail, 0 ∉ text → text ∈ segments.tail

theorem SameCuts.mem {texts segments : List Bytes} (same : SameCuts texts segments)
    (mem : text ∈ texts) (noNull : 0 ∉ text) : text ∈ segments := by
  cases texts with
  | nil => exact absurd mem List.not_mem_nil
  | cons first rest =>
      rcases List.mem_cons.mp mem with rfl | later
      · exact List.mem_of_head? (same.first text rfl noNull)
      · exact List.mem_of_mem_tail (same.later text later noNull)

theorem SameCuts.cut {texts segments : List Bytes} (same : SameCuts texts segments) :
    SameCuts ([] :: texts) ([] :: segments) :=
  ⟨fun _ found _ => found, fun _ mem noNull => same.mem mem noNull⟩

theorem SameCuts.read {texts segments : List Bytes} (value : UInt8)
    (same : SameCuts texts segments) :
    SameCuts (texts.modifyHead (value :: ·)) (segments.modifyHead (value :: ·)) := by
  constructor
  case first =>
      intro text found noNull
      rw [List.head?_modifyHead, Option.map_eq_some_iff] at found
      rcases found with ⟨head, found, rfl⟩
      rw [List.head?_modifyHead, same.first head found fun mem =>
        noNull (List.mem_cons_of_mem _ mem), Option.map_some]
  case later =>
      intro text mem noNull
      rw [List.tail_modifyHead] at mem ⊢
      exact same.later text mem noNull

theorem SameCuts.null {texts segments : List Bytes} (same : SameCuts texts segments) :
    SameCuts (texts.modifyHead (0 :: ·)) ([] :: segments) := by
  constructor
  case first =>
      intro text found noNull
      rw [List.head?_modifyHead, Option.map_eq_some_iff] at found
      rcases found with ⟨head, found, rfl⟩
      exact absurd (List.mem_cons_self ..) noNull
  case later =>
      intro text mem noNull
      rw [List.tail_modifyHead] at mem
      exact List.mem_of_mem_tail (same.later text mem noNull)

theorem SameCuts.readByte {texts : List Bytes} {rest : Bytes} (value : UInt8)
    (same : SameCuts texts (Bytes.splitScalar 0 rest)) :
    SameCuts (texts.modifyHead (value :: ·)) (Bytes.splitScalar 0 (value :: rest)) := by
  by_cases null : value = 0
  · subst null
    rw [Bytes.splitScalar_cons_self]
    exact same.null
  · rw [Bytes.splitScalar_cons_of_ne null]
    exact same.read value

theorem SameCuts.cutPair {texts segments : List Bytes} (same : SameCuts texts segments) :
    SameCuts ([] :: texts) ([] :: [] :: segments) :=
  ⟨fun _ found _ => found, fun _ mem noNull => List.mem_cons_of_mem _ (same.mem mem noNull)⟩

theorem sameCuts (command : Bytes) :
    SameCuts (simpleCommands command) (Bytes.splitScalar 0 (normalizeCommand command)) := by
  rw [normalizeCommand_eq]
  fun_induction simpleCommands command with
  | case1 => exact ⟨fun _ found _ => found, fun _ mem _ => mem⟩
  | case2 value operator =>
      have empty : SameCuts [[]] (Bytes.splitScalar 0 []) :=
        ⟨fun _ found _ => found, fun _ mem _ => mem⟩
      rw [replacePair, List.map_singleton, replaceSingle_eq, if_pos operator, Bytes.splitScalar_cons_self]
      exact empty.cut
  | case3 value notOperator =>
      have empty : SameCuts [[]] (Bytes.splitScalar 0 []) :=
        ⟨fun _ found _ => found, fun _ mem _ => mem⟩
      rw [replacePair, List.map_singleton, replaceSingle_eq, if_neg notOperator]
      exact empty.readByte value
  | case4 first second rest pair ih =>
      rw [replacePair, if_pos pair, List.map_cons, List.map_cons]
      have null : replaceSingle 0 = 0 := rfl
      rw [null, Bytes.splitScalar_cons_self, Bytes.splitScalar_cons_self]
      exact ih.cutPair
  | case5 first second rest noPair operator ih =>
      rw [replacePair, if_neg noPair, List.map_cons, replaceSingle_eq, if_pos operator,
        Bytes.splitScalar_cons_self]
      exact ih.cut
  | case6 first second rest noPair notOperator ih =>
      rw [replacePair, if_neg noPair, List.map_cons, replaceSingle_eq, if_neg notOperator]
      exact ih.readByte first

theorem checkSegment_of_checkSegments {check_allowlist has_cmd : Bool} {segments : List Bytes}
    (checked : policy.checkSegments check_allowlist segments = some has_cmd)
    (mem : text ∈ segments) : policy.checkSegment check_allowlist text ≠ none := by
  induction segments generalizing has_cmd with
  | nil => exact absurd mem List.not_mem_nil
  | cons segment rest ih =>
      rw [SecurityPolicy.checkSegments, Option.bind_eq_some_iff] at checked
      rcases checked with ⟨first, firstChecked, restChecked⟩
      rcases Option.map_eq_some_iff.mp restChecked with ⟨later, laterChecked, _⟩
      rcases List.mem_cons.mp mem with rfl | mem
      · rw [firstChecked]
        exact Option.some_ne_none first
      · exact ih laterChecked mem

theorem checked_of_isCommandAllowed (allowed : policy.isCommandAllowed command = true) :
    command.length ≤ MAX_ANALYSIS_LEN ∧
      policy.checkSegments true (Bytes.splitScalar 0 (normalizeCommand command)) =
        some true := by
  rw [SecurityPolicy.isCommandAllowed, SecurityPolicy.isCommandAllowedImpl] at allowed
  repeat' split at allowed
  case isFalse.isFalse.isFalse.isFalse.isFalse.isFalse.isFalse =>
      exact ⟨by omega, by simpa using allowed⟩
  all_goals cases allowed

theorem allowed_of_visible (checked : policy.checkSegment true text ≠ none)
    (visible : Visible text program) :
    Bytes.basename program ∈ policy.allowed_commands ∧
      isArgsSafe (Bytes.basename program) (skipEnvAssignments (Bytes.trim blanks text)) =
        true := by
  rcases visible with ⟨_, first, based⟩
  have nonempty : (Bytes.trim blanks text).isEmpty = false := by
    cases trimmed : Bytes.trim blanks text with
    | nil => simp [scannedWords, trimmed, skipEnvAssignments, skipEnvRounds] at first; cases first
    | cons => rfl
  have unempty : (Bytes.basename program).isEmpty = false := by
    simpa using based
  rw [scannedWords] at first
  simp only [SecurityPolicy.checkSegment, nonempty, first, unempty, Bool.false_eq_true, if_false,
    Bool.true_and] at checked
  split at checked
  case isTrue => exact absurd rfl checked
  case isFalse listed =>
      split at checked
      case isTrue safe => exact ⟨by simpa using listed, safe⟩
      case isFalse => exact absurd rfl checked

/-!
## The arguments
-/

theorem skipEnvRounds_sublist (rounds : ℕ) (text : Bytes) :
    (skipEnvRounds rounds text).Sublist text := by
  induction rounds generalizing text with
  | zero => exact List.Sublist.refl _
  | succ rounds ih =>
      have trimmed := Bytes.trim_sublist blanks text
      simp only [skipEnvRounds]
      split
      · exact List.Sublist.refl _
      · split
        · exact ((ih _).trans (List.drop_sublist ..)).trans trimmed
        · exact trimmed

theorem skipEnvAssignments_sublist (text : Bytes) :
    (skipEnvAssignments (Bytes.trim blanks text)).Sublist text :=
  (skipEnvRounds_sublist _ _).trans (Bytes.trim_sublist _ _)

theorem toLower_eq_space (value : UInt8) :
    [byte ' '].contains (Bytes.toLower value) = [byte ' '].contains value := by
  have space : byte ' ' = 32 := rfl
  have letters : byte 'A' = 65 ∧ byte 'Z' = 90 := ⟨rfl, rfl⟩
  rw [Bytes.toLower]
  split
  case isFalse => rfl
  case isTrue upper =>
      simp only [letters, Bool.and_eq_true, decide_eq_true_eq, UInt8.le_iff_toNat_le] at upper
      have low : value ≠ 32 := fun same => by rw [same] at upper; exact absurd upper (by decide)
      have high : value + 32 ≠ 32 := fun same => by
        have values := congrArg UInt8.toNat same
        rw [UInt8.toNat_add] at values
        have bounds : 65 ≤ value.toNat ∧ value.toNat ≤ 90 := upper
        have thirtyTwo : (32 : UInt8).toNat = 32 := rfl
        omega
      simp [space, low, high]

theorem tokenizeScalar_map_toLower (text : Bytes) :
    Bytes.tokenizeScalar (byte ' ') (text.map Bytes.toLower) =
      (Bytes.tokenizeScalar (byte ' ') text).map (List.map Bytes.toLower) := by
  have split : (text.map Bytes.toLower).splitOnP [byte ' '].contains =
      (text.splitOnP [byte ' '].contains).map (List.map Bytes.toLower) := by
    induction text with
    | nil => rfl
    | cons value rest ih =>
        rw [List.map_cons, List.splitOnP_cons_eq_if_modifyHead,
          List.splitOnP_cons_eq_if_modifyHead, toLower_eq_space, ih]
        split
        · rfl
        · cases rest.splitOnP [byte ' '].contains <;> rfl
  rw [Bytes.tokenizeScalar, Bytes.tokenizeAny, split, List.filter_map, Bytes.tokenizeScalar,
    Bytes.tokenizeAny]
  congr 2
  funext token
  simp

theorem lowerBuf_eq (fits : text.length ≤ MAX_ANALYSIS_LEN) :
    lowerBuf text = text.map Bytes.toLower := by
  rw [lowerBuf, List.take_of_length_le fits]

theorem isPrefixOf_map_toLower {start : Bytes} (lower : start.map Bytes.toLower = start)
    (starts : start.isPrefixOf word) : start.isPrefixOf (word.map Bytes.toLower) := by
  rw [List.isPrefixOf_iff_prefix] at starts ⊢
  have mapped := starts.map Bytes.toLower
  rwa [lower] at mapped

theorem isFindDanger_of_forbidden (forbidden : word = ascii "-exec" ∨ word = ascii "-ok") :
    isFindDanger (word.map Bytes.toLower) = true := by
  rcases forbidden with rfl | rfl <;> rfl

theorem isGitDanger_of_forbidden
    (forbidden : word = ascii "config" ∨ (ascii "config.").isPrefixOf word ∨
      word = ascii "alias" ∨ (ascii "alias.").isPrefixOf word ∨ word = ascii "-c") :
    isGitDanger (word.map Bytes.toLower) = true := by
  rcases forbidden with rfl | starts | rfl | starts | rfl
  · rfl
  · simp [isGitDanger, isPrefixOf_map_toLower rfl starts]
  · rfl
  · simp [isGitDanger, isPrefixOf_map_toLower rfl starts]
  · rfl

theorem not_mem_of_isArgsSafe {base full_cmd : Bytes} (fits : full_cmd.length ≤ MAX_ANALYSIS_LEN)
    (safe : isArgsSafe base full_cmd = true) (forbidden : Forbidden base word) :
    word ∉ (Bytes.tokenizeScalar (byte ' ') full_cmd).tail := by
  intro mem
  simp only [isArgsSafe, lowerBuf_eq fits, tokenizeScalar_map_toLower] at safe
  rcases forbidden with ⟨rfl, forbidden⟩ | ⟨rfl, forbidden⟩
  · have harmless : ∀ word ∈ Bytes.tokenizeScalar (byte ' ') full_cmd,
        isFindDanger (word.map Bytes.toLower) = false := by
      simpa [show lowerBuf (ascii "find") = ascii "find" from rfl] using safe
    have danger := isFindDanger_of_forbidden forbidden
    rw [harmless word (List.mem_of_mem_tail mem)] at danger
    cases danger
  · have harmless : ∀ word ∈ (Bytes.tokenizeScalar (byte ' ') full_cmd).tail,
        isGitDanger (word.map Bytes.toLower) = false := by
      have other : ascii "git" ≠ ascii "find" := by decide
      simpa [show lowerBuf (ascii "git") = ascii "git" from rfl, other, ← List.map_tail] using safe
    have danger := isGitDanger_of_forbidden forbidden
    rw [harmless word mem] at danger
    cases danger

/-!
## Soundness
-/

theorem shellSafe_of_nothingHidden (accepted : policy.isCommandAllowed command = true)
    (hidden : NothingHidden policy.allowed_commands command) :
    ShellSafe policy.allowed_commands command := by
  intro text mem program args runs
  rcases checked_of_isCommandAllowed accepted with ⟨fits, checked⟩
  have seen := fun visible : Visible text program =>
    allowed_of_visible
      (checkSegment_of_checkSegments checked ((sameCuts command).mem mem visible.1)) visible
  have scannedFits : (skipEnvAssignments (Bytes.trim blanks text)).length ≤ MAX_ANALYSIS_LEN :=
    Nat.le_trans ((skipEnvAssignments_sublist text).trans
      (Shell.sublist_of_mem_simpleCommands mem)).length_le fits
  rcases hidden text mem program args runs with ⟨unseen, glued⟩
  constructor
  case left =>
      by_cases visible : Visible text program
      · exact (seen visible).1
      · exact unseen visible
  case right =>
      intro word arg forbidden
      rcases glued word arg forbidden with ⟨visible, scanned⟩
      exact not_mem_of_isArgsSafe scannedFits (seen visible).2 forbidden scanned

theorem nothingHidden_of_shellSafe {allowed : List Bytes} (safe : ShellSafe allowed command) :
    NothingHidden allowed command := by
  intro text mem program args runs
  have good := safe text mem program args runs
  exact ⟨fun _ => good.1, fun word arg forbidden => absurd forbidden (good.2 word arg)⟩

end Nullalis.Security
