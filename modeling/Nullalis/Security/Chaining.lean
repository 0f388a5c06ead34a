import Nullalis.Security.CommandRisk
import Nullalis.Security.PolicySoundness

/-!
# Commands in a chain

A chain of two commands is analysed like the commands on their own: no scan of the whole text
finds more or less across a separator, and the segments of the chain are those of the commands.
It is enough that one of the commands runs something. Only the scan for `tee` does not know
`&&` as a separator of words.
-/

namespace Nullalis.Security

def separators : List Bytes :=
  [";", "\n", "|", "||", "&&"].map ascii

/-- Two commands that are chained by an operator. -/
structure Chain (a separator b : Bytes) : Prop where
  separates : separator ∈ separators
  ends : ∀ value ∈ a.getLast?, value ≠ byte '&' ∧ value ≠ byte '|'
  starts : ∀ value ∈ b.head?, value ≠ byte '&' ∧ value ≠ byte '|'
  fits : (a ++ separator ++ b).length ≤ MAX_ANALYSIS_LEN

/-- The texts that the policy refuses wherever they occur. -/
def hasExpansion (command : Bytes) : Bool :=
  command.containsBytes (ascii "`") || command.containsBytes (ascii "$(") ||
    command.containsBytes (ascii "$\x7b") || command.containsBytes (ascii "<(") ||
    command.containsBytes (ascii ">(")

/-- Is one of the words `tee`? -/
def hasTee (command : Bytes) : Bool :=
  (Bytes.tokenizeAny (ascii " \t\n;|") command).any isTee

def segmentsOf (command : Bytes) : List Bytes :=
  Bytes.splitScalar 0 (normalizeCommand command)

/-- No check refuses the command. -/
structure Passes (policy : SecurityPolicy) (check_allowlist : Bool) (command : Bytes) : Prop where
  acts : policy.autonomy ≠ .read_only
  expansion : hasExpansion command = false
  tee : hasTee command = false
  ampersand : containsSingleAmpersand false command = false
  redirection : command.contains (byte '>') = false
  segments : policy.checkSegments check_allowlist (segmentsOf command) ≠ none

/-- A segment has a word to run behind its assignments. -/
def RunsCommand (command : Bytes) : Prop :=
  ∃ segment ∈ segmentsOf command, ∃ word,
    (Bytes.tokenizeScalar (byte ' ') (skipEnvAssignments (Bytes.trim blanks segment))).head? =
      some word ∧ Bytes.basename word ≠ []

variable {policy : SecurityPolicy} {check_allowlist : Bool} {a separator b : Bytes}

/-!
## What an allowed command is
-/

theorem checkSegment_eq_true_iff {raw_segment : Bytes} {has_cmd : Bool}
    (checked : policy.checkSegment check_allowlist raw_segment = some has_cmd) :
    has_cmd = true ↔ ∃ word,
      (Bytes.tokenizeScalar (byte ' ') (skipEnvAssignments (Bytes.trim blanks raw_segment))).head? =
        some word ∧ Bytes.basename word ≠ [] := by
  rw [SecurityPolicy.checkSegment] at checked
  dsimp only at checked
  split at checked
  case isTrue empty =>
    rw [List.isEmpty_iff] at empty
    cases checked
    rw [empty]
    simp [skipEnvAssignments, skipEnvRounds, Bytes.tokenizeScalar, Bytes.tokenizeAny]
  case isFalse =>
    split at checked
    · rename_i missing
      cases checked
      rw [missing]
      simp
    · rename_i first_word found
      rw [found]
      split at checked
      case isTrue empty =>
        rw [List.isEmpty_iff] at empty
        cases checked
        simp [empty]
      case isFalse filled =>
        have runs : Bytes.basename first_word ≠ [] := by simpa using filled
        split at checked
        · cases checked
        · split at checked
          · cases checked
            simp [runs]
          · cases checked

theorem checkSegments_eq_true_iff {segments : List Bytes} {has_cmd : Bool}
    (checked : policy.checkSegments check_allowlist segments = some has_cmd) :
    has_cmd = true ↔ ∃ segment ∈ segments, ∃ word,
      (Bytes.tokenizeScalar (byte ' ') (skipEnvAssignments (Bytes.trim blanks segment))).head? =
        some word ∧ Bytes.basename word ≠ [] := by
  induction segments generalizing has_cmd with
  | nil =>
      cases checked
      simp
  | cons segment rest ih =>
      rw [SecurityPolicy.checkSegments, Option.bind_eq_some_iff] at checked
      rcases checked with ⟨first, firstChecked, restChecked⟩
      rcases Option.map_eq_some_iff.mp restChecked with ⟨later, laterChecked, rfl⟩
      rw [Bool.or_eq_true, checkSegment_eq_true_iff firstChecked, ih laterChecked]
      simp

theorem isCommandAllowedImpl_iff {command : Bytes} (fits : command.length ≤ MAX_ANALYSIS_LEN) :
    policy.isCommandAllowedImpl command check_allowlist = true ↔
      Passes policy check_allowlist command ∧ RunsCommand command := by
  have runs (has_cmd : Bool)
      (checked : policy.checkSegments check_allowlist (segmentsOf command) = some has_cmd) :
      has_cmd = true ↔ RunsCommand command := checkSegments_eq_true_iff checked
  have impl : policy.isCommandAllowedImpl command check_allowlist = true ↔
      policy.autonomy ≠ .read_only ∧ hasExpansion command = false ∧ hasTee command = false ∧
        containsSingleAmpersand false command = false ∧ command.contains (byte '>') = false ∧
          policy.checkSegments check_allowlist (segmentsOf command) = some true := by
    have short : ¬command.length > MAX_ANALYSIS_LEN := by omega
    rw [SecurityPolicy.isCommandAllowedImpl, hasExpansion, hasTee, segmentsOf]
    by_cases acts : policy.autonomy = .read_only
    · simp [acts]
    · rw [if_neg acts, if_neg short]
      cases command.containsBytes (ascii "`") <;> cases command.containsBytes (ascii "$(") <;>
        cases command.containsBytes (ascii "$\x7b") <;>
        cases command.containsBytes (ascii "<(") <;> cases command.containsBytes (ascii ">(") <;>
        cases (Bytes.tokenizeAny (ascii " \t\n;|") command).any isTee <;>
        cases containsSingleAmpersand false command <;>
        cases command.contains (byte '>') <;>
        simp [acts]
  rw [impl]
  constructor
  · rintro ⟨acts, expansion, tee, ampersand, redirection, checked⟩
    refine ⟨⟨acts, expansion, tee, ampersand, redirection, ?_⟩, (runs true checked).mp rfl⟩
    rw [checked]
    exact Option.some_ne_none true
  · rintro ⟨passes, runsSomething⟩
    rcases Option.ne_none_iff_exists'.mp passes.segments with ⟨has_cmd, checked⟩
    refine ⟨passes.acts, passes.expansion, passes.tee, passes.ampersand, passes.redirection, ?_⟩
    rw [checked, (runs has_cmd checked).mpr runsSomething]

/-!
## Scans of the whole text
-/

section Scans

variable {needle first second : Bytes} {value : UInt8}

theorem isPrefixOf_append_cons (other : value ∉ needle) :
    needle.isPrefixOf (first ++ value :: second) = needle.isPrefixOf first := by
  induction needle generalizing first with
  | nil => cases first <;> rfl
  | cons letter needle ih =>
      rw [List.mem_cons, not_or] at other
      cases first with
      | nil =>
          have apart : (letter == value) = false := beq_false_of_ne (Ne.symm other.1)
          rw [List.nil_append, List.isPrefixOf_cons_cons, apart]
          rfl
      | cons here first =>
          rw [List.cons_append, List.isPrefixOf_cons_cons, List.isPrefixOf_cons_cons, ih other.2]

theorem containsBytes_append_cons (other : value ∉ needle) (nonempty : needle ≠ []) :
    (first ++ value :: second).containsBytes needle =
      (first.containsBytes needle || second.containsBytes needle) := by
  induction first with
  | nil =>
      obtain ⟨letter, rest, rfl⟩ := List.exists_cons_of_ne_nil nonempty
      rw [List.mem_cons, not_or] at other
      simp [Bytes.containsBytes, Ne.symm other.1]
  | cons here first ih =>
      rw [List.cons_append, Bytes.containsBytes, Bytes.containsBytes, ← List.cons_append,
        isPrefixOf_append_cons other, ih, Bool.or_assoc]

theorem mem_separators (separates : separator ∈ separators) :
    (∃ value, separator = [value] ∧ (value = byte ';' ∨ value = byte '\n' ∨ value = byte '|')) ∨
      separator = [byte '|', byte '|'] ∨ separator = [byte '&', byte '&'] := by
  have cases : separator = [byte ';'] ∨ separator = [byte '\n'] ∨ separator = [byte '|'] ∨
      separator = [byte '|', byte '|'] ∨ separator = [byte '&', byte '&'] := by
    simpa [separators, ascii] using separates
  rcases cases with rfl | rfl | rfl | rfl | rfl
  · exact Or.inl ⟨_, rfl, Or.inl rfl⟩
  · exact Or.inl ⟨_, rfl, Or.inr (Or.inl rfl)⟩
  · exact Or.inl ⟨_, rfl, Or.inr (Or.inr rfl)⟩
  · exact Or.inr (Or.inl rfl)
  · exact Or.inr (Or.inr rfl)

theorem containsBytes_chain (separates : separator ∈ separators) (nonempty : needle ≠ [])
    (clear : ((ascii ";\n|&").all fun value => !needle.contains value) = true) :
    (a ++ separator ++ b).containsBytes needle = (a.containsBytes needle || b.containsBytes needle) := by
  have apart (value : UInt8) (mem : value ∈ ascii ";\n|&") : value ∉ needle := by
    simpa using List.all_eq_true.mp clear value mem
  have twice {value : UInt8} (other : value ∉ needle) :
      (a ++ [value, value] ++ b).containsBytes needle =
        (a.containsBytes needle || b.containsBytes needle) := by
    have shape : a ++ [value, value] ++ b = a ++ value :: ([] ++ value :: b) := by simp
    have none : Bytes.containsBytes [] needle = false := by simpa [Bytes.containsBytes] using nonempty
    rw [shape, containsBytes_append_cons other nonempty, containsBytes_append_cons other nonempty,
      none, Bool.false_or]
  rcases mem_separators separates with ⟨value, rfl, kind⟩ | rfl | rfl
  · have other : value ∉ needle := by
      apply apart
      rcases kind with rfl | rfl | rfl <;> decide
    rw [List.append_assoc, List.singleton_append]
    exact containsBytes_append_cons other nonempty
  · exact twice (apart _ (by decide))
  · exact twice (apart _ (by decide))

theorem hasExpansion_chain (separates : separator ∈ separators) :
    hasExpansion (a ++ separator ++ b) = (hasExpansion a || hasExpansion b) := by
  simp only [hasExpansion]
  rw [containsBytes_chain separates (by decide) (by decide),
    containsBytes_chain separates (by decide) (by decide),
    containsBytes_chain separates (by decide) (by decide),
    containsBytes_chain separates (by decide) (by decide),
    containsBytes_chain separates (by decide) (by decide)]
  ac_rfl

theorem contains_chain (separates : separator ∈ separators) :
    (a ++ separator ++ b).contains (byte '>') = (a.contains (byte '>') || b.contains (byte '>')) := by
  have plain : separator.contains (byte '>') = false := by
    have all : ∀ separator ∈ separators, separator.contains (byte '>') = false := by decide
    exact all separator separates
  rw [List.contains_append, List.contains_append, plain, Bool.or_false]

theorem containsSingleAmpersand_append (ends : ∀ value ∈ first.getLast?, value ≠ byte '&')
    (nonempty : first ≠ []) (previous : Bool) :
    containsSingleAmpersand previous (first ++ second) =
      (containsSingleAmpersand previous first || containsSingleAmpersand false second) := by
  induction first generalizing previous with
  | nil => exact absurd rfl nonempty
  | cons value first ih =>
      cases first with
      | nil =>
          have other : (value == byte '&') = false := by simpa using ends value rfl
          simp [containsSingleAmpersand, other]
      | cons next first =>
          have ends' : ∀ value ∈ (next :: first).getLast?, value ≠ byte '&' := by
            rw [List.getLast?_cons_cons] at ends
            exact ends
          have same : ((next :: first) ++ second).head? = (next :: first).head? := rfl
          have step (rest : Bytes) : containsSingleAmpersand previous (value :: rest) =
              ((value == byte '&' && !previous && rest.head? != some (byte '&')) ||
                containsSingleAmpersand (value == byte '&') rest) := rfl
          rw [List.cons_append, step, ih ends' (by simp), same, step, Bool.or_assoc]

theorem containsSingleAmpersand_false_append (ends : ∀ value ∈ first.getLast?, value ≠ byte '&') :
    containsSingleAmpersand false (first ++ second) =
      (containsSingleAmpersand false first || containsSingleAmpersand false second) := by
  by_cases empty : first = []
  · subst empty
    simp [containsSingleAmpersand]
  · exact containsSingleAmpersand_append ends empty false

theorem containsSingleAmpersand_chain (chain : Chain a separator b) :
    containsSingleAmpersand false (a ++ separator ++ b) =
      (containsSingleAmpersand false a || containsSingleAmpersand false b) := by
  have plain : containsSingleAmpersand false (separator ++ b) = containsSingleAmpersand false b := by
    have other : b.head? ≠ some (byte '&') := fun starts => (chain.starts _ starts).1 rfl
    rcases mem_separators chain.separates with ⟨value, rfl, kind⟩ | rfl | rfl
    · rw [containsSingleAmpersand_false_append]
      · rcases kind with rfl | rfl | rfl <;> rfl
      · rcases kind with rfl | rfl | rfl <;> simp [byte]
    · rw [containsSingleAmpersand_false_append]
      · rfl
      · simp [byte]
    · -- The second ampersand is seen behind the first one.
      cases b with
      | nil => rfl
      | cons value b =>
          have here : (value == byte '&') = false := by simpa using other
          simp [containsSingleAmpersand, here]
  have ends : ∀ value ∈ a.getLast?, value ≠ byte '&' := fun value last => (chain.ends value last).1
  rw [List.append_assoc, containsSingleAmpersand_false_append ends, plain]

end Scans

/-!
## The scan for `tee`
-/

/-- What separates words in the scan for `tee`. -/
def separatesWords (value : UInt8) : Bool :=
  (ascii " \t\n;|").contains value

/-- The word that a text ends with, empty behind a separator. -/
def lastWord (text : Bytes) : Bytes :=
  (text.splitOnP separatesWords).getLastD []

def firstWord (text : Bytes) : Bytes :=
  (text.splitOnP separatesWords).headD []

/-- The words on both sides of `&&` are read as one, and `tee` is not seen any more. -/
def HidesTee (separator a b : Bytes) : Prop :=
  separator = ascii "&&" ∧ isTee (lastWord a ++ ascii "&&" ++ firstWord b) = false ∧
    (isTee (lastWord a) = true ∨ isTee (firstWord b) = true)

section Tee

variable {first second : Bytes} {value : UInt8}

theorem hasTee_eq (command : Bytes) : hasTee command = (command.splitOnP separatesWords).any isTee := by
  have empty : isTee [] = false := by decide
  have filtered (words : List Bytes) :
      (words.filter fun word => !word.isEmpty).any isTee = words.any isTee := by
    induction words with
    | nil => rfl
    | cons word words ih =>
        cases word with
        | nil => simpa [empty] using ih
        | cons letter word => simp [ih]
  exact filtered _

theorem splitOnP_append (first second : Bytes) :
    (first ++ second).splitOnP separatesWords =
      (first.splitOnP separatesWords).dropLast ++
        (lastWord first ++ firstWord second) :: (second.splitOnP separatesWords).tail := by
  induction first with
  | nil =>
      rw [firstWord]
      cases words : second.splitOnP separatesWords with
      | nil => exact absurd words (List.splitOnP_ne_nil _ _)
      | cons word words => simp [lastWord, words]
  | cons value first ih =>
      rw [List.cons_append, List.splitOnP_cons_eq_if_modifyHead, ih]
      simp only [lastWord, List.splitOnP_cons_eq_if_modifyHead]
      have nonempty := List.splitOnP_ne_nil separatesWords first
      generalize first.splitOnP separatesWords = words at nonempty
      rcases words with _ | ⟨word, _ | ⟨next, words⟩⟩
      · exact absurd rfl nonempty
      · split <;> rfl
      · split <;> rfl

theorem hasTee_append (first second : Bytes) :
    hasTee (first ++ second) =
      ((first.splitOnP separatesWords).dropLast.any isTee ||
        (isTee (lastWord first ++ firstWord second) ||
          (second.splitOnP separatesWords).tail.any isTee)) := by
  rw [hasTee_eq, splitOnP_append, List.any_append, List.any_cons]

theorem hasTee_eq_lastWord (text : Bytes) :
    hasTee text = ((text.splitOnP separatesWords).dropLast.any isTee || isTee (lastWord text)) := by
  have whole := hasTee_append text []
  have nothing : firstWord [] = [] := by simp [firstWord]
  rw [List.append_nil, nothing, List.append_nil] at whole
  simpa using whole

theorem hasTee_eq_firstWord (text : Bytes) :
    hasTee text = (isTee (firstWord text) || (text.splitOnP separatesWords).tail.any isTee) := by
  have whole := hasTee_append [] text
  have nothing : lastWord [] = [] := by simp [lastWord]
  rw [List.nil_append, nothing, List.nil_append] at whole
  simpa using whole

theorem hasTee_append_cons (separates : separatesWords value = true) :
    hasTee (first ++ value :: second) = (hasTee first || hasTee second) := by
  have cut : (value :: second).splitOnP separatesWords = [] :: second.splitOnP separatesWords := by
    rw [List.splitOnP_cons_eq_if_modifyHead, if_pos separates]
  have empty : firstWord (value :: second) = [] := by
    rw [firstWord, cut]
    rfl
  rw [hasTee_append, empty, List.append_nil, cut, List.tail_cons, ← hasTee_eq, ← Bool.or_assoc,
    ← hasTee_eq_lastWord]

theorem isTee_of_joined (joined : isTee (first ++ ascii "&&" ++ second) = true) :
    isTee second = true := by
  -- The name of the joined word is that of the second one, or it holds an ampersand.
  have name : Bytes.basename (first ++ ascii "&&" ++ second) = Bytes.basename second ∨
      byte '&' ∈ Bytes.basename (first ++ ascii "&&" ++ second) := by
    have back : (first ++ ascii "&&" ++ second).reverse =
        second.reverse ++ (byte '&' :: byte '&' :: first.reverse) := by
      simp [ascii]
    have solid : (byte '&' == byte '/') = false ∧ (byte '&' != byte '/') = true := by decide
    rw [Bytes.basename, Bytes.basename, back, List.dropWhile_append]
    split
    · right
      rw [List.dropWhile_cons, solid.1, List.mem_reverse]
      simp only [Bool.false_eq_true, if_false, List.takeWhile_cons, solid.2, if_true]
      exact List.mem_cons_self
    · rw [List.takeWhile_append]
      split
      · right
        rw [List.mem_reverse, List.takeWhile_cons, solid.2]
        simp
      · exact Or.inl rfl
  have noAmpersand : byte '&' ∉ ascii "tee" := by decide
  rw [isTee, Bool.or_eq_true, decide_eq_true_iff, decide_eq_true_iff] at joined ⊢
  rcases joined with whole | base
  · exfalso
    apply noAmpersand
    rw [← whole]
    simp [ascii]
  · rcases name with same | ampersand
    · exact Or.inr (same ▸ base)
    · rw [base] at ampersand
      exact absurd ampersand noAmpersand

theorem hasTee_chain (separates : separator ∈ separators) (seen : ¬HidesTee separator a b) :
    hasTee (a ++ separator ++ b) = (hasTee a || hasTee b) := by
  rcases mem_separators separates with ⟨value, rfl, kind⟩ | rfl | rfl
  · have known : separatesWords value = true := by
      rcases kind with rfl | rfl | rfl <;> decide
    rw [List.append_assoc, List.singleton_append, hasTee_append_cons known]
  · have shape : a ++ [byte '|', byte '|'] ++ b = a ++ byte '|' :: ([] ++ byte '|' :: b) := by simp
    have known : separatesWords (byte '|') = true := by decide
    have none : hasTee [] = false := by decide
    rw [shape, hasTee_append_cons known, hasTee_append_cons known, none, Bool.false_or]
  · have cut : ([byte '&', byte '&'] ++ b).splitOnP separatesWords =
        (b.splitOnP separatesWords).modifyHead (ascii "&&" ++ ·) := by
      have other : ¬separatesWords (byte '&') = true := by decide
      rw [List.cons_append, List.singleton_append, List.splitOnP_cons_eq_if_modifyHead,
        if_neg other, List.splitOnP_cons_eq_if_modifyHead, if_neg other, List.modifyHead_modifyHead]
      rfl
    have starts : firstWord ([byte '&', byte '&'] ++ b) = ascii "&&" ++ firstWord b := by
      rw [firstWord, cut, firstWord]
      cases words : b.splitOnP separatesWords with
      | nil => exact absurd words (List.splitOnP_ne_nil _ _)
      | cons word words => rfl
    have joint : isTee (lastWord a ++ (ascii "&&" ++ firstWord b)) =
        (isTee (lastWord a) || isTee (firstWord b)) := by
      rw [← List.append_assoc]
      cases joined : isTee (lastWord a ++ ascii "&&" ++ firstWord b) with
      | true => rw [isTee_of_joined joined, Bool.or_true]
      | false =>
          cases last : isTee (lastWord a) with
          | true => exact absurd ⟨rfl, joined, Or.inl last⟩ seen
          | false =>
              cases head : isTee (firstWord b) with
              | true => exact absurd ⟨rfl, joined, Or.inr head⟩ seen
              | false => rfl
    rw [List.append_assoc, hasTee_append, starts, joint, cut, List.tail_modifyHead,
      hasTee_eq_lastWord a, hasTee_eq_firstWord b]
    ac_rfl

end Tee

/-!
## The segments of a chain
-/

theorem replacePair_append {first second : Bytes}
    (ends : ∀ value ∈ first.getLast?, value ≠ byte '&') :
    replacePair (byte '&') (first ++ second) =
      replacePair (byte '&') first ++ replacePair (byte '&') second := by
  fun_induction replacePair (byte '&') first with
  | case1 => rfl
  | case2 single =>
      have other : single ≠ byte '&' := ends single rfl
      cases second with
      | nil => rfl
      | cons value second =>
          rw [List.singleton_append, replacePair, if_neg fun pair => other pair.1]
          rfl
  | case3 value other rest pair ih =>
      cases rest with
      | nil => exact absurd pair.2 (ends other rfl)
      | cons next rest =>
          rw [List.cons_append, List.cons_append, replacePair, if_pos pair,
            ih (by simpa using ends)]
          rfl
  | case4 value other rest apart ih =>
      rw [List.cons_append, List.cons_append, replacePair, if_neg apart, ← List.cons_append,
        ih (by simpa using ends)]
      rfl

theorem segmentsOf_chain (chain : Chain a separator b) :
    segmentsOf (a ++ separator ++ b) = segmentsOf a ++ segmentsOf b ∨
      segmentsOf (a ++ separator ++ b) = segmentsOf a ++ ([] :: segmentsOf b) := by
  have ends : ∀ value ∈ a.getLast?, value ≠ byte '&' := fun value last => (chain.ends value last).1
  have single {value : UInt8} (rest : Bytes) (other : value ≠ byte '&') :
      replacePair (byte '&') (value :: rest) = value :: replacePair (byte '&') rest := by
    have plain : ∀ last ∈ [value].getLast?, last ≠ byte '&' := by simpa using other
    exact replacePair_append plain
  simp only [segmentsOf, normalizeCommand_eq]
  rw [List.append_assoc, replacePair_append ends, List.map_append]
  rcases mem_separators chain.separates with ⟨value, rfl, kind⟩ | rfl | rfl
  · left
    have other : value ≠ byte '&' := by
      rcases kind with rfl | rfl | rfl <;> decide
    have null : replaceSingle value = 0 := by
      rcases kind with rfl | rfl | rfl <;> decide
    rw [List.singleton_append, single b other, List.map_cons, null, Bytes.splitScalar_append_cons]
  · right
    have other : byte '|' ≠ byte '&' := by decide
    have null : replaceSingle (byte '|') = 0 := by decide
    rw [List.cons_append, List.singleton_append, single _ other, single b other, List.map_cons,
      List.map_cons, null, Bytes.splitScalar_append_cons, Bytes.splitScalar_cons_self]
  · right
    have null : replaceSingle 0 = 0 := by decide
    have pair : replacePair (byte '&') ([byte '&', byte '&'] ++ b) =
        0 :: 0 :: replacePair (byte '&') b := by
      rw [List.cons_append, List.singleton_append, replacePair, if_pos ⟨rfl, rfl⟩]
    rw [pair, List.map_cons, List.map_cons, null, Bytes.splitScalar_append_cons,
      Bytes.splitScalar_cons_self]

theorem checkSegments_append (first second : List Bytes) :
    policy.checkSegments check_allowlist (first ++ second) =
      (policy.checkSegments check_allowlist first).bind fun has_cmd =>
        (policy.checkSegments check_allowlist second).map (has_cmd || ·) := by
  induction first with
  | nil =>
      rw [List.nil_append, SecurityPolicy.checkSegments, Option.bind_some]
      cases policy.checkSegments check_allowlist second <;> simp
  | cons segment first ih =>
      rw [List.cons_append, SecurityPolicy.checkSegments, ih, SecurityPolicy.checkSegments]
      cases policy.checkSegment check_allowlist segment with
      | none => rfl
      | some here =>
          cases policy.checkSegments check_allowlist first with
          | none => rfl
          | some later =>
              cases policy.checkSegments check_allowlist second with
              | none => rfl
              | some last => simp [Bool.or_assoc]

theorem checkSegments_chain (chain : Chain a separator b) :
    policy.checkSegments check_allowlist (segmentsOf (a ++ separator ++ b)) =
      (policy.checkSegments check_allowlist (segmentsOf a)).bind fun has_cmd =>
        (policy.checkSegments check_allowlist (segmentsOf b)).map (has_cmd || ·) := by
  have empty : policy.checkSegments check_allowlist ([] :: segmentsOf b) =
      policy.checkSegments check_allowlist (segmentsOf b) := by
    have nothing : policy.checkSegment check_allowlist [] = some false := rfl
    rw [SecurityPolicy.checkSegments, nothing, Option.bind_some]
    cases policy.checkSegments check_allowlist (segmentsOf b) <;> simp
  rcases segmentsOf_chain chain with same | same
  · rw [same, checkSegments_append]
  · rw [same, checkSegments_append, empty]

theorem passes_chain (chain : Chain a separator b) (seen : ¬HidesTee separator a b) :
    Passes policy check_allowlist (a ++ separator ++ b) ↔
      Passes policy check_allowlist a ∧ Passes policy check_allowlist b := by
  have segments : policy.checkSegments check_allowlist (segmentsOf (a ++ separator ++ b)) ≠ none ↔
      policy.checkSegments check_allowlist (segmentsOf a) ≠ none ∧
        policy.checkSegments check_allowlist (segmentsOf b) ≠ none := by
    rw [checkSegments_chain chain]
    cases policy.checkSegments check_allowlist (segmentsOf a) <;>
      cases policy.checkSegments check_allowlist (segmentsOf b) <;> simp
  constructor
  · rintro ⟨acts, expansion, tee, ampersand, redirection, checked⟩
    rw [hasExpansion_chain chain.separates, Bool.or_eq_false_iff] at expansion
    rw [hasTee_chain chain.separates seen, Bool.or_eq_false_iff] at tee
    rw [containsSingleAmpersand_chain chain, Bool.or_eq_false_iff] at ampersand
    rw [contains_chain chain.separates, Bool.or_eq_false_iff] at redirection
    have checked := segments.mp checked
    exact ⟨⟨acts, expansion.1, tee.1, ampersand.1, redirection.1, checked.1⟩,
      ⟨acts, expansion.2, tee.2, ampersand.2, redirection.2, checked.2⟩⟩
  · rintro ⟨passesA, passesB⟩
    refine ⟨passesA.acts, ?_, ?_, ?_, ?_, segments.mpr ⟨passesA.segments, passesB.segments⟩⟩
    · rw [hasExpansion_chain chain.separates, passesA.expansion, passesB.expansion]
      rfl
    · rw [hasTee_chain chain.separates seen, passesA.tee, passesB.tee]
      rfl
    · rw [containsSingleAmpersand_chain chain, passesA.ampersand, passesB.ampersand]
      rfl
    · rw [contains_chain chain.separates, passesA.redirection, passesB.redirection]
      rfl

theorem runsCommand_chain (chain : Chain a separator b) :
    RunsCommand (a ++ separator ++ b) ↔ RunsCommand a ∨ RunsCommand b := by
  have empty : (Bytes.tokenizeScalar (byte ' ') (skipEnvAssignments (Bytes.trim blanks []))).head? =
      none := by decide
  rcases segmentsOf_chain chain with same | same
  · rw [RunsCommand, same]
    simp only [List.mem_append, or_and_right, exists_or]
    exact Iff.rfl
  · rw [RunsCommand, same]
    simp only [List.mem_append, List.mem_cons, or_and_right, exists_or, exists_eq_left, empty,
      reduceCtorEq, false_and, exists_const, false_or]
    exact Iff.rfl

/-!
## Chains
-/

/-- A chain is allowed if no command of it is refused by a check and one of them runs something,
so if both run something then it is allowed just if both commands are. Its risk is the higher one
of the two. -/
theorem chain_judged_by_parts (policy : SecurityPolicy) (check_allowlist : Bool)
    {a separator b : Bytes} (chain : Chain a separator b) :
    (¬HidesTee separator a b →
      (policy.isCommandAllowedImpl (a ++ separator ++ b) check_allowlist = true ↔
        Passes policy check_allowlist a ∧ Passes policy check_allowlist b ∧
          (RunsCommand a ∨ RunsCommand b)) ∧
      (RunsCommand a → RunsCommand b →
        (policy.isCommandAllowedImpl (a ++ separator ++ b) check_allowlist = true ↔
          policy.isCommandAllowedImpl a check_allowlist = true ∧
            policy.isCommandAllowedImpl b check_allowlist = true))) ∧
    policy.commandRiskLevel (a ++ separator ++ b) =
      (policy.commandRiskLevel a).max (policy.commandRiskLevel b) := by
  have fits := chain.fits
  have short : a.length ≤ MAX_ANALYSIS_LEN ∧ b.length ≤ MAX_ANALYSIS_LEN := by
    simp only [List.length_append] at fits
    omega
  constructor
  · intro seen
    have whole : policy.isCommandAllowedImpl (a ++ separator ++ b) check_allowlist = true ↔
        Passes policy check_allowlist a ∧ Passes policy check_allowlist b ∧
          (RunsCommand a ∨ RunsCommand b) := by
      rw [isCommandAllowedImpl_iff chain.fits, passes_chain chain seen, runsCommand_chain chain,
        and_assoc]
    refine ⟨whole, ?_⟩
    intro runsA runsB
    rw [whole, isCommandAllowedImpl_iff short.1, isCommandAllowedImpl_iff short.2]
    constructor
    · rintro ⟨passesA, passesB, -⟩
      exact ⟨⟨passesA, runsA⟩, ⟨passesB, runsB⟩⟩
    · rintro ⟨⟨passesA, -⟩, ⟨passesB, -⟩⟩
      exact ⟨passesA, passesB, Or.inl runsA⟩
  · have empty : riskSegments ([] :: segmentsOf b) false = riskSegments (segmentsOf b) false := rfl
    have segments : riskSegments (segmentsOf (a ++ separator ++ b)) false =
        (riskSegments (segmentsOf a) false).max (riskSegments (segmentsOf b) false) := by
      rcases segmentsOf_chain chain with same | same
      · rw [same, riskSegments_append]
      · rw [same, riskSegments_append, empty]
    rw [SecurityPolicy.commandRiskLevel, SecurityPolicy.commandRiskLevel,
      SecurityPolicy.commandRiskLevel, if_neg (by omega), if_neg (by omega), if_neg (by omega)]
    exact segments

theorem chain_ls_rm : Chain (ascii "ls") (ascii "&&") (ascii "rm x") := by
  refine ⟨by decide, ?_, ?_, by decide⟩ <;>
  · intro value mem
    cases mem
    decide

theorem chain_judged_by_parts_lsRm :
    SecurityPolicy.default.commandRiskLevel (ascii "ls&&rm x") = .high := by
  have risk := (chain_judged_by_parts SecurityPolicy.default true chain_ls_rm).2
  exact risk.trans (by decide)

/-- A chain with a command that runs nothing is allowed, but that command is not. -/
theorem not_chain_judged_by_parts :
    ¬∀ (policy : SecurityPolicy) (check_allowlist : Bool) (a separator b : Bytes),
      (∃ value ∈ a, value ∉ ascii " \t\r\n") → (∃ value ∈ b, value ∉ ascii " \t\r\n") →
      Chain a separator b →
        (policy.isCommandAllowedImpl (a ++ separator ++ b) check_allowlist = true ↔
          policy.isCommandAllowedImpl a check_allowlist = true ∧
            policy.isCommandAllowedImpl b check_allowlist = true) ∧
        policy.commandRiskLevel (a ++ separator ++ b) =
          (policy.commandRiskLevel a).max (policy.commandRiskLevel b) := by
  intro judged
  have chain : Chain (ascii "X=1") (ascii ";") (ascii "ls") := by
    refine ⟨by decide, ?_, ?_, by decide⟩ <;>
    · intro value mem
      cases mem
      decide
  have parts := (judged .default true (ascii "X=1") (ascii ";") (ascii "ls")
    ⟨byte 'X', by decide, by decide⟩ ⟨byte 'l', by decide, by decide⟩ chain).1
  have allowed : SecurityPolicy.default.isCommandAllowedImpl
      (ascii "X=1" ++ ascii ";" ++ ascii "ls") true = true := by decide
  have refused : SecurityPolicy.default.isCommandAllowedImpl (ascii "X=1") true = false := by
    decide
  have first := (parts.mp allowed).1
  rw [refused] at first
  cases first

end Nullalis.Security
