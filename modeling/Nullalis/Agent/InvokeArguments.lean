import Mathlib.Data.List.Forall2
import Nullalis.Agent.Dispatcher
import Nullalis.Base.JsonStructure
import Nullalis.JsonUtil

/-!
# The arguments of an invocation

The parameters of an `<invoke>` element become the members of a JSON object. A value that starts
like JSON is inlined as it is, everything else is quoted. Whether the object says what the
parameters say is decided by each parameter on its own.
-/

namespace Nullalis.Agent.Dispatcher

/-- A parameter: a name in quotes and a value up to the closing tag, maybe behind blanks. -/
structure Parameter where
  gap : Bytes
  name : Bytes
  value : Bytes
  gap_blank : gap.all Json.isBlank = true
  name_quoted : byte '"' ∉ name
  name_valid : Utf8.valid name = true
  value_valid : Utf8.valid value = true
  value_ends : ¬ascii "</parameter>" <:+: value

namespace Parameter

/-- The parameter as it is written. -/
def segment (parameter : Parameter) : Bytes :=
  parameter.gap ++ (ascii "<parameter " ++ (ascii "name=\"" ++ (parameter.name ++
    (ascii "\"" ++ (ascii ">" ++ (parameter.value ++ ascii "</parameter>"))))))

/-- What the value stands for: itself if it is JSON, else its text. -/
def denotes (parameter : Parameter) : Json :=
  (Json.parse parameter.value).getD (.string parameter.value)

end Parameter

def bodyOf (parameters : List Parameter) : Bytes :=
  parameters.flatMap Parameter.segment

/-- The arguments are an object of exactly the parameters. -/
def Denotes (parameters : List Parameter) : Prop :=
  Json.parse (buildInvokeArgumentsJson (bodyOf parameters)) =
    some (.object (parameters.map fun parameter => (parameter.name, parameter.denotes)))

/-!
## What the loop finds
-/

variable {parameter : Parameter} {parameters : List Parameter} {text inner front rest : Bytes}
  {rounds cursor : ℕ} {out : List Bytes}

theorem mem_of_extractXmlAttribute {tag_slice attr found : Bytes} {value : UInt8}
    (extracted : extractXmlAttribute tag_slice attr = some found) (mem : value ∈ found) :
    value ∈ tag_slice := by
  unfold extractXmlAttribute at extracted
  split at extracted
  case isTrue => cases extracted
  case isFalse =>
    dsimp only at extracted
    rcases Option.bind_eq_some_iff.mp extracted with ⟨key_idx, -, extracted⟩
    rcases Option.map_eq_some_iff.mp extracted with ⟨stop, -, same⟩
    subst same
    exact List.mem_of_mem_drop (List.mem_of_mem_take mem)

theorem drop_of_indexOfPos {start found : ℕ} {needle : Bytes}
    (search : indexOfPos inner start needle = some found) :
    ∃ offset, Bytes.indexOf needle (inner.drop start) = some offset ∧ found = start + offset ∧
      inner.drop found = needle ++ inner.drop (found + needle.length) := by
  rcases Option.map_eq_some_iff.mp search with ⟨offset, found, rfl⟩
  refine ⟨offset, found, rfl, ?_⟩
  have whole := Bytes.append_of_indexOf found
  have within := Bytes.indexOf_le found
  have dropped := congrArg (List.drop offset) whole
  have front : ((inner.drop start).take offset).length = offset := by
    rw [List.length_take]
    omega
  rw [List.append_assoc, List.drop_left' front, List.drop_drop, List.drop_drop,
    ← Nat.add_assoc] at dropped
  exact dropped

theorem end_not_mem_slice {start tag_end : ℕ}
    (opens : indexOfPos inner start (ascii "<parameter ") = some cursor)
    (ends : indexOfPos inner (cursor + (ascii "<parameter ").length) (ascii ">") = some tag_end) :
    byte '>' ∉ slice inner cursor tag_end := by
  rcases drop_of_indexOfPos opens with ⟨_, -, -, shape⟩
  rcases drop_of_indexOfPos ends with ⟨offset, found, rfl, -⟩
  have apart := Bytes.not_mem_take_of_indexOf found
  have opening : byte '>' ∉ ascii "<parameter " := by decide
  have length : cursor + (ascii "<parameter ").length + offset - cursor =
      (ascii "<parameter ").length + offset := by omega
  rw [slice, shape, length, List.take_length_add_append, List.mem_append]
  exact fun mem => mem.elim opening apart

theorem collectParameters_names (inner : Bytes) (rounds cursor : ℕ) (out : List Bytes) :
    ∃ found : List (Bytes × Bytes),
      collectParameters inner rounds cursor out =
          out ++ found.map (fun pair => parameterMember pair.1 pair.2) ∧
        ∀ pair ∈ found, byte '>' ∉ pair.1 := by
  induction rounds generalizing cursor out with
  | zero => exact ⟨[], by simp [collectParameters], by simp⟩
  | succ rounds ih =>
      rw [collectParameters]
      split
      case h_1 => exact ⟨[], by simp, by simp⟩
      case h_2 p_start opens =>
        split
        case h_1 => exact ⟨[], by simp, by simp⟩
        case h_2 tag_end ends =>
          split
          case h_1 => exact ih _ _
          case h_2 name extracted =>
            split
            case h_1 => exact ⟨[], by simp, by simp⟩
            case h_2 close_idx closes =>
              dsimp only
              rcases ih (close_idx + (ascii "</parameter>").length)
                (out ++ [parameterMember name
                  (Bytes.trim blanks (slice inner (tag_end + 1) close_idx))]) with
                ⟨found, collected, names⟩
              refine ⟨(name, Bytes.trim blanks (slice inner (tag_end + 1) close_idx)) :: found,
                ?_, ?_⟩
              · rw [collected, List.map_cons, List.append_assoc, List.singleton_append]
              · refine List.forall_mem_cons.mpr ⟨?_, names⟩
                intro mem
                exact end_not_mem_slice opens ends (mem_of_extractXmlAttribute extracted mem)

theorem indexOf_opening (gap_blank : front.all Json.isBlank = true) (rest : Bytes) :
    Bytes.indexOf (ascii "<parameter ") (front ++ (ascii "<parameter " ++ rest)) =
      some front.length := by
  have absent : byte '<' ∉ front := by
    intro mem
    have blank := List.all_eq_true.mp gap_blank _ mem
    cases blank
  have opening : ascii "<parameter " = byte '<' :: ascii "parameter " := by decide
  refine Bytes.indexOf_of_passes ?_
  rw [opening]
  exact Bytes.passes_of_not_mem absent

theorem extractXmlAttribute_name {name : Bytes} (quoted : byte '"' ∉ name) :
    extractXmlAttribute (ascii "<parameter " ++ (ascii "name=\"" ++ (name ++ ascii "\""))) (ascii "name") =
      some name := by
  have key : ascii "name" ++ ascii "=\"" = ascii "name=\"" := by decide
  have short : ¬64 < (ascii "name").length + 2 := by decide
  have found : Bytes.indexOf (ascii "name=\"")
      (ascii "<parameter " ++ (ascii "name=\"" ++ (name ++ ascii "\""))) =
        some (ascii "<parameter ").length := by
    refine Bytes.indexOf_of_passes (Bytes.passes_of_diverge ?_)
    decide
  have dropped : (ascii "<parameter " ++ (ascii "name=\"" ++ (name ++ ascii "\""))).drop
      ((ascii "<parameter ").length + (ascii "name=\"").length) = name ++ ascii "\"" := by
    rw [← List.append_assoc, ← List.length_append, List.drop_left]
  have quote : Bytes.indexOfScalar (byte '"') (name ++ ascii "\"") = some name.length :=
    Bytes.indexOfScalar_append_cons quoted
  rw [extractXmlAttribute, if_neg short]
  dsimp only
  rw [key, found, Option.bind_some, dropped, quote, Option.map_some, List.take_left]

theorem indexOf_closing {value : Bytes} (ends : ¬ascii "</parameter>" <:+: value) (rest : Bytes) :
    Bytes.indexOf (ascii "</parameter>") (value ++ (ascii "</parameter>" ++ rest)) =
      some value.length := by
  have edge : ∀ count < (ascii "</parameter>").length, 0 < count →
      Bytes.Diverge ((ascii "</parameter>").drop count) (ascii "</parameter>") := by decide
  exact Bytes.indexOf_of_passes
    (Bytes.passes_of_not_overlap ends fun count positive less => edge count less positive)

theorem drop_of_append {first second : Bytes} (split : inner.drop cursor = first ++ second) :
    inner.drop (cursor + first.length) = second := by
  rw [← List.drop_drop, split, List.drop_left]

theorem slice_of_append {first second : Bytes} (split : inner.drop cursor = first ++ second) :
    slice inner cursor (cursor + first.length) = first := by
  rw [slice, split, Nat.add_sub_cancel_left, List.take_left]

/-- A round takes a parameter whose name holds no end of a tag. -/
theorem collectParameters_segment (split : inner.drop cursor = parameter.segment ++ rest)
    (closed : byte '>' ∉ parameter.name) :
    collectParameters inner (rounds + 1) cursor out =
      collectParameters inner rounds (cursor + parameter.segment.length)
        (out ++ [parameterMember parameter.name (Bytes.trim blanks parameter.value)]) := by
  have oneByte : (ascii ">").length = 1 := by decide
  -- The tag without its opening and its end.
  generalize tagShape : ascii "name=\"" ++ (parameter.name ++ ascii "\"") = tag
  have behindGap : inner.drop (cursor + parameter.gap.length) =
      (ascii "<parameter " ++ tag) ++
        (ascii ">" ++ (parameter.value ++ (ascii "</parameter>" ++ rest))) := by
    have whole : inner.drop cursor = parameter.gap ++ ((ascii "<parameter " ++ tag) ++
        (ascii ">" ++ (parameter.value ++ (ascii "</parameter>" ++ rest)))) := by
      rw [split, Parameter.segment, ← tagShape]
      simp only [List.append_assoc]
    exact drop_of_append whole
  have behindOpening : inner.drop (cursor + parameter.gap.length + (ascii "<parameter ").length) =
      tag ++ (ascii ">" ++ (parameter.value ++ (ascii "</parameter>" ++ rest))) := by
    rw [List.append_assoc] at behindGap
    exact drop_of_append behindGap
  have behindTag : inner.drop (cursor + parameter.gap.length + (ascii "<parameter ").length +
      tag.length + 1) = parameter.value ++ (ascii "</parameter>" ++ rest) := by
    have place := drop_of_append behindOpening
    rw [← oneByte]
    exact drop_of_append place
  have opens : indexOfPos inner cursor (ascii "<parameter ") =
      some (cursor + parameter.gap.length) := by
    rw [indexOfPos, split, Parameter.segment]
    simp only [List.append_assoc]
    rw [indexOf_opening parameter.gap_blank]
    rfl
  have ends : indexOfPos inner (cursor + parameter.gap.length + (ascii "<parameter ").length)
      (ascii ">") = some (cursor + parameter.gap.length + (ascii "<parameter ").length +
        tag.length) := by
    have absent : byte '>' ∉ tag := by
      rw [← tagShape, List.mem_append, List.mem_append]
      rintro (mem | mem | mem)
      · revert mem
        decide
      · exact closed mem
      · revert mem
        decide
    have found : Bytes.indexOf (ascii ">")
        (tag ++ (ascii ">" ++ (parameter.value ++ (ascii "</parameter>" ++ rest)))) =
          some tag.length := Bytes.indexOf_singleton absent
    rw [indexOfPos, behindOpening, found]
    rfl
  have tagSlice : slice inner (cursor + parameter.gap.length)
      (cursor + parameter.gap.length + (ascii "<parameter ").length + tag.length) =
        ascii "<parameter " ++ tag := by
    have place := slice_of_append behindGap
    rwa [List.length_append, ← Nat.add_assoc] at place
  have extracted : extractXmlAttribute (ascii "<parameter " ++ tag) (ascii "name") =
      some parameter.name := by
    rw [← tagShape]
    exact extractXmlAttribute_name parameter.name_quoted
  have closes : indexOfPos inner (cursor + parameter.gap.length + (ascii "<parameter ").length +
      tag.length + 1) (ascii "</parameter>") = some (cursor + parameter.gap.length +
        (ascii "<parameter ").length + tag.length + 1 + parameter.value.length) := by
    rw [indexOfPos, behindTag, indexOf_closing parameter.value_ends]
    rfl
  rw [collectParameters, opens]
  dsimp only
  rw [ends]
  dsimp only
  rw [tagSlice, extracted]
  dsimp only
  rw [closes]
  dsimp only
  rw [slice_of_append behindTag]
  congr 1
  rw [Parameter.segment, ← tagShape]
  simp only [List.length_append, oneByte]
  omega

/-- Names and values that the loop may find in the place of parameters: a parameter whose name
holds no end of a tag is found, and behind another one there may be anything. -/
def Found : List Parameter → List (Bytes × Bytes) → Prop
  | [], found => found = []
  | parameter :: parameters, found =>
      if byte '>' ∈ parameter.name then ∀ pair ∈ found, byte '>' ∉ pair.1
      else ∃ others, found = (parameter.name, Bytes.trim blanks parameter.value) :: others ∧
        Found parameters others

theorem collectParameters_found (split : inner.drop cursor = bodyOf parameters)
    (enough : parameters.length < rounds) :
    ∃ found, collectParameters inner rounds cursor out =
        out ++ found.map (fun pair => parameterMember pair.1 pair.2) ∧ Found parameters found := by
  induction parameters generalizing cursor rounds out with
  | nil =>
      obtain ⟨rounds, rfl⟩ : ∃ fewer, rounds = fewer + 1 := ⟨rounds - 1, by omega⟩
      have nothing : indexOfPos inner cursor (ascii "<parameter ") = none := by
        rw [indexOfPos, split]
        rfl
      refine ⟨[], ?_, rfl⟩
      rw [collectParameters, nothing]
      simp
  | cons parameter parameters ih =>
      by_cases closed : byte '>' ∈ parameter.name
      · rcases collectParameters_names inner rounds cursor out with ⟨found, collected, names⟩
        exact ⟨found, collected, by rwa [Found, if_pos closed]⟩
      · obtain ⟨rounds, rfl⟩ : ∃ fewer, rounds = fewer + 1 := ⟨rounds - 1, by omega⟩
        have whole : inner.drop cursor = parameter.segment ++ bodyOf parameters := split
        rw [collectParameters_segment whole closed]
        have fewer : parameters.length < rounds := by simpa using enough
        rcases ih (drop_of_append whole) fewer with ⟨others, collected, found⟩
        refine ⟨(parameter.name, Bytes.trim blanks parameter.value) :: others, ?_, ?_⟩
        · rw [collected, List.map_cons, List.append_assoc, List.singleton_append]
        · rw [Found, if_neg closed]
          exact ⟨others, rfl, found⟩

def objectOf (found : List (Bytes × Bytes)) : Bytes :=
  JsonUtil.appendJsonFields (found.map fun pair => parameterMember pair.1 pair.2)

theorem head?_slice {pos last : ℕ} {value : UInt8}
    (found : Bytes.indexOfScalar value text = some pos) :
    (slice text pos (pos + last + 1)).head? = some value := by
  rcases List.findIdx?_eq_some_iff_getElem.mp found with ⟨inside, here, -⟩
  have length : pos + last + 1 - pos = last + 1 := by omega
  rw [slice, length, List.head?_take, if_neg (Nat.succ_ne_zero _), List.head?_drop,
    List.getElem?_eq_getElem inside, beq_iff_eq.mp here]

theorem infix_slice (text : Bytes) (start stop : ℕ) : slice text start stop <:+: text :=
  (List.take_prefix _ _).isInfix.trans (List.drop_suffix _ _).isInfix

/-- What is extracted is a part of the text and starts with a bracket or a brace. -/
theorem extractJsonObject_spec {extracted : Bytes} (found : extractJsonObject text = some extracted) :
    extracted <:+: text ∧
      (extracted.head? = some (byte '\x7b') ∨ extracted.head? = some (byte '[')) := by
  unfold extractJsonObject at found
  extract_lets trimmed start_info at found
  have within : trimmed <:+: text := by
    simp only [trimmed]
    split
    case h_1 => exact List.infix_refl _
    case h_2 fence_start _ =>
      cases Bytes.indexOfScalar (byte '\n') (text.drop (fence_start + 3)) with
      | none =>
          dsimp only
          split
          case h_1 => exact (List.take_prefix _ _).isInfix
          case h_2 => exact List.infix_refl _
      | some nl =>
          have lines : (text.drop (fence_start + 3)).drop (nl + 1) <:+: text :=
            (List.drop_suffix _ _).isInfix.trans (List.drop_suffix _ _).isInfix
          dsimp only
          split
          case h_1 => exact (List.take_prefix _ _).isInfix.trans lines
          case h_2 => exact lines
  rcases Option.bind_eq_some_iff.mp found with ⟨⟨pos, opening, closing⟩, starts, found⟩
  rcases Option.map_eq_some_iff.mp found with ⟨last, -, same⟩
  subst same
  refine ⟨(infix_slice _ _ _).trans within, ?_⟩
  simp only [start_info] at starts
  split at starts
  case h_1 op ap brace bracket =>
    split at starts
    case isTrue =>
      cases starts
      exact .inr (head?_slice bracket)
    case isFalse =>
      cases starts
      exact .inl (head?_slice brace)
  case h_2 op brace _ =>
    cases starts
    exact .inl (head?_slice brace)
  case h_3 ap _ bracket =>
    cases starts
    exact .inr (head?_slice bracket)
  case h_4 => cases starts

theorem head?_bodyOf (parameters : List Parameter) :
    (bodyOf parameters).head? ≠ some (byte '\x7b') ∧ (bodyOf parameters).head? ≠ some (byte '[') := by
  cases parameters with
  | nil => exact ⟨by decide, by decide⟩
  | cons parameter parameters =>
      rw [bodyOf, List.flatMap_cons, Parameter.segment]
      have blank := parameter.gap_blank
      cases shape : parameter.gap with
      | nil => exact ⟨by simp [ascii, byte], by simp [ascii, byte]⟩
      | cons first gap =>
          rw [shape, List.all_cons, Bool.and_eq_true] at blank
          refine ⟨?_, ?_⟩
          all_goals
            intro head
            cases head
            cases blank.1

theorem length_le_length_bodyOf (parameters : List Parameter) :
    parameters.length ≤ (bodyOf parameters).length := by
  induction parameters with
  | nil => exact Nat.zero_le _
  | cons parameter parameters ih =>
      have some : 1 ≤ parameter.segment.length := by
        have quote : (ascii "\"").length = 1 := by decide
        simp only [Parameter.segment, List.length_append, quote]
        omega
      rw [bodyOf, List.flatMap_cons, List.length_append, List.length_cons]
      rw [bodyOf] at ih
      omega

theorem buildInvokeArgumentsJson_bodyOf (parameters : List Parameter) :
    ∃ found, buildInvokeArgumentsJson (bodyOf parameters) = objectOf found ∧
      Found parameters found := by
  have start : (bodyOf parameters).drop 0 = bodyOf parameters := rfl
  have enough : parameters.length < (bodyOf parameters).length + 1 :=
    Nat.lt_succ_of_le (length_le_length_bodyOf parameters)
  obtain ⟨found, collected, finds⟩ : ∃ found,
      collectParameters (bodyOf parameters) ((bodyOf parameters).length + 1) 0 [] =
        [] ++ found.map (fun pair => parameterMember pair.1 pair.2) ∧ Found parameters found :=
    collectParameters_found start enough
  refine ⟨found, ?_, finds⟩
  rw [buildInvokeArgumentsJson, collected, List.nil_append]
  dsimp only
  split
  case h_1 => rfl
  case h_2 json_slice extracted =>
    refine if_neg ?_
    intro whole
    rcases extractJsonObject_spec extracted with ⟨within, head⟩
    have same : json_slice = bodyOf parameters := by
      refine within.eq_of_length_le ?_
      rw [← whole]
      exact (Bytes.trim_sublist _ _).length_le
    rw [same] at head
    exact head.elim (head?_bodyOf parameters).1 (head?_bodyOf parameters).2

/-!
## Strings
-/

def Escapable (text : Bytes) : Prop :=
  ∀ value ∈ text, value < 0x20 → value = byte '\n' ∨ value = byte '\r' ∨ value = byte '\t'

theorem flatMap_escapeJson (escapable : Escapable text) :
    text.flatMap escapeJson = text.flatMap JsonUtil.escapeByte := by
  rw [List.flatMap_def, List.flatMap_def]
  refine congrArg List.flatten (List.map_congr_left fun value mem => ?_)
  unfold escapeJson JsonUtil.escapeByte
  split_ifs with quote backslash newline return' tab control
  any_goals rfl
  -- A control character without an escape is not escapable.
  rcases escapable value mem control with same | same | same
  · exact absurd same newline
  · exact absurd same return'
  · exact absurd same tab

theorem head?_escapeJson (value : UInt8) (rest : Bytes) :
    (escapeJson value ++ rest).head? ≠ some (byte '"') := by
  unfold escapeJson
  split_ifs with quote
  case neg => simpa using quote
  all_goals exact (by decide : some (byte '\\') ≠ some (byte '"'))

theorem readChar_escapeJson {value : UInt8} {char : Bytes}
    (read : Json.readChar (escapeJson value ++ rest) = some (char, front)) :
    (value < 0x20 → value = byte '\n' ∨ value = byte '\r' ∨ value = byte '\t') ∧ front = rest := by
  unfold escapeJson at read
  split_ifs at read with quote backslash newline return' tab
  case neg =>
    simp only [List.cons_append, List.nil_append, Json.readChar, if_neg backslash] at read
    split at read
    case isTrue => cases read
    case isFalse control =>
      cases read
      exact ⟨fun less => absurd less control, rfl⟩
  · cases read
    exact ⟨fun less => absurd less (by rw [quote]; decide), rfl⟩
  · cases read
    exact ⟨fun less => absurd less (by rw [backslash]; decide), rfl⟩
  · cases read
    exact ⟨fun _ => .inl newline, rfl⟩
  · cases read
    exact ⟨fun _ => .inr (.inl return'), rfl⟩
  · cases read
    exact ⟨fun _ => .inr (.inr tab), rfl⟩

theorem escapable_of_readChars {fuel : ℕ} {char : Bytes}
    (read : Json.readChars fuel (text.flatMap escapeJson ++ byte '"' :: rest) = some (char, front)) :
    Escapable text := by
  induction text generalizing fuel char with
  | nil => exact fun _ mem => absurd mem List.not_mem_nil
  | cons value text ih =>
      cases fuel with
      | zero => cases read
      | succ fuel =>
          rw [List.flatMap_cons, List.append_assoc, Json.readChars,
            if_neg (head?_escapeJson value _)] at read
          simp only [Option.bind_eq_bind, Option.bind_eq_some_iff] at read
          rcases read with ⟨⟨first, middle⟩, readFirst, ⟨others, last⟩, readOthers, same⟩
          cases same
          rcases readChar_escapeJson readFirst with ⟨escapable, rfl⟩
          exact List.forall_mem_cons.mpr ⟨escapable, ih readOthers⟩

theorem readString_escaped {string : Bytes}
    (read : Json.readString (text.flatMap escapeJson ++ byte '"' :: rest) = some (string, front)) :
    Escapable text ∧ string = text ∧ front = rest := by
  have escapable := escapable_of_readChars read
  have again : Json.readString (text.flatMap escapeJson ++ byte '"' :: rest) = some (text, rest) := by
    rw [flatMap_escapeJson escapable]
    exact JsonUtil.readsText_escaped text _ rest (by rw [List.length_append]; omega)
  rw [again] at read
  cases read
  exact ⟨escapable, rfl, rfl⟩

/-- What may follow a value in the object: the end, or a comma and the quote of the next name. -/
def Follows (rest : Bytes) : Prop :=
  rest = [byte '\x7d'] ∨ ∃ more, rest = byte ',' :: byte '"' :: more

theorem Follows.split {used middle : Bytes} (follows : Follows rest)
    (escapes : ∀ letter ∈ used, Json.isEscapeByte letter = true)
    (same : text ++ rest = used ++ middle) : ∃ after, text = used ++ after ∧ middle = after ++ rest := by
  rcases List.append_eq_append_iff.mp same with ⟨beyond, rfl, split⟩ | ⟨after, rfl, split⟩
  · cases beyond with
    | nil => exact ⟨[], by simp, by simpa using split.symm⟩
    | cons letter beyond =>
        have escape := escapes letter (by simp)
        rcases follows with rfl | ⟨more, rfl⟩
        · rw [← (List.cons.inj split).1] at escape
          cases escape
        · rw [← (List.cons.inj split).1] at escape
          cases escape
  · exact ⟨after, rfl, split⟩

theorem Follows.readChars {fuel : ℕ} {string : Bytes} (follows : Follows rest)
    (read : Json.readChars fuel rest = some (string, front)) : string = [byte ','] := by
  rcases follows with rfl | ⟨more, rfl⟩
  · cases fuel with
    | zero => cases read
    | succ fuel =>
        cases fuel with
        | zero => cases read
        | succ fuel => cases read
  · cases fuel with
    | zero => cases read
    | succ fuel =>
        cases fuel with
        | zero => cases read
        | succ fuel =>
            cases read
            rfl

theorem length_of_readChars {fuel : ℕ} {string : Bytes} (follows : Follows rest)
    (read : Json.readChars fuel (text ++ rest) = some (string, front)) :
    string.length ≤ text.length + 1 ∧
      (string.head? = some (byte '"') → string.length ≤ text.length) := by
  induction fuel generalizing text string with
  | zero => cases read
  | succ fuel ih =>
      cases text with
      | nil =>
          rw [follows.readChars read]
          exact ⟨Nat.le_refl _, fun head => by cases head⟩
      | cons first text =>
          rw [Json.readChars] at read
          split at read
          case isTrue =>
            cases read
            exact ⟨Nat.zero_le _, fun head => by cases head⟩
          case isFalse other =>
            simp only [Option.bind_eq_bind, Option.bind_eq_some_iff] at read
            rcases read with ⟨⟨char, middle⟩, readFirst, ⟨later, last⟩, readLater, same⟩
            cases same
            rcases Json.length_of_readChar readFirst with ⟨short, shorter⟩
            rcases Json.readChar_taken readFirst with ⟨value, used, split, -, escapes, -⟩
            rcases follows.split escapes (List.cons.inj split).2 with ⟨after, rfl, rfl⟩
            rcases ih readLater with ⟨longest, quoted⟩
            simp only [List.length_append, List.length_cons] at short shorter ⊢
            refine ⟨by omega, ?_⟩
            intro head
            cases char with
            | nil =>
                have bound := quoted head
                simp only [List.length_nil] at short ⊢
                omega
            | cons letter char =>
                have bound := shorter other head
                omega

/-!
## Values
-/

theorem contains_blanks (value : UInt8) : blanks.contains value = Json.isBlank value := by
  revert value
  refine Bytes.forall_byte ?_
  decide

theorem dropWhile_isBlank {used : Bytes} (starts : Json.skipBlanks used = used) (nonempty : used ≠ [])
    (more : Bytes) : (used ++ more).dropWhile Json.isBlank = used ++ more := by
  cases used with
  | nil => exact absurd rfl nonempty
  | cons first used =>
      have head := List.head?_dropWhile_not Json.isBlank (first :: used)
      rw [Json.skipBlanks] at starts
      rw [starts, List.head?_cons] at head
      rw [List.cons_append, List.dropWhile_cons, if_neg (by simpa using head)]

theorem trim_append {used back : Bytes} (isFront : front.all Json.isBlank = true)
    (isBack : back.all Json.isBlank = true) (starts : Json.skipBlanks used = used)
    (solid : Json.EndsSolid used) : Bytes.trim blanks (front ++ (used ++ back)) = used := by
  have same : blanks.contains = Json.isBlank := funext contains_blanks
  rcases solid with ⟨middle, last, rfl, notBlank⟩
  have isReversed : ∀ value ∈ back.reverse, Json.isBlank value = true := by
    intro value mem
    exact List.all_eq_true.mp isBack value (List.mem_reverse.mp mem)
  have ends : (middle ++ [last]).reverse.dropWhile Json.isBlank = (middle ++ [last]).reverse := by
    rw [List.reverse_append, List.reverse_singleton, List.singleton_append, List.dropWhile_cons,
      notBlank]
    rfl
  rw [Bytes.trim, same, List.dropWhile_append_of_pos (List.all_eq_true.mp isFront),
    dropWhile_isBlank starts (by simp), List.reverse_append,
    List.dropWhile_append_of_pos isReversed, ends, List.reverse_reverse]

theorem eq_of_readName {value : Json} (read : Json.readName text = some (value, [])) :
    text = ascii "null" ∨ text = ascii "true" ∨ text = ascii "false" := by
  have whole {word : Bytes} {count : ℕ} (starts : word.isPrefixOf text = true)
      (length : word.length = count) (nothing : text.drop count = []) : text = word := by
    rcases List.isPrefixOf_iff_prefix.mp starts with ⟨tail, rfl⟩
    rw [← length, List.drop_left] at nothing
    rw [nothing, List.append_nil]
  unfold Json.readName at read
  split at read
  case isTrue starts =>
    rcases Prod.mk.inj (Option.some.inj read) with ⟨-, nothing⟩
    exact .inl (whole starts (by decide) nothing)
  case isFalse =>
    split at read
    case isTrue starts =>
      rcases Prod.mk.inj (Option.some.inj read) with ⟨-, nothing⟩
      exact .inr (.inl (whole starts (by decide) nothing))
    case isFalse =>
      split at read
      case isTrue starts =>
        rcases Prod.mk.inj (Option.some.inj read) with ⟨-, nothing⟩
        exact .inr (.inr (whole starts (by decide) nothing))
      case isFalse => cases read

theorem valueLooksLikeJson_of_read {used : Bytes} {value : Json} {fuel : ℕ}
    (starts : Json.skipBlanks used = used) (read : Json.readValue fuel used = some (value, [])) :
    valueLooksLikeJson used = true := by
  cases fuel with
  | zero => cases read
  | succ fuel =>
      rw [Json.readValue, starts] at read
      cases used with
      | nil => cases read
      | cons first rest =>
          dsimp only at read
          by_cases quote : first = byte '"'
          · simp [valueLooksLikeJson, quote]
          by_cases bracket : first = byte '['
          · simp [valueLooksLikeJson, bracket]
          by_cases brace : first = byte '\x7b'
          · simp [valueLooksLikeJson, brace]
          by_cases number : first = byte '-' ∨ Bytes.isDigit first = true
          · rcases number with minus | digit
            · simp [valueLooksLikeJson, minus]
            · simp [valueLooksLikeJson, digit]
          rw [if_neg quote, if_neg bracket, if_neg brace, if_neg number] at read
          rcases eq_of_readName read with same | same | same
          · rw [same]
            decide
          · rw [same]
            decide
          · rw [same]
            decide

theorem reads_trim_of_parse {value : Json} (parsed : Json.parse text = some value) :
    valueLooksLikeJson (Bytes.trim blanks text) = true ∧
      Json.Reads (Bytes.trim blanks text) value := by
  rcases Json.exists_takes_of_parse parsed with
    ⟨front, used, back, rfl, isFront, isBack, starts, takes⟩
  have ends : Json.Ends [] := fun value head => by cases head
  have read := takes.reads (used.length + 1) [] (Nat.lt_succ_self _) ends
  rw [List.append_nil] at read
  rw [trim_append isFront isBack starts takes.solid]
  exact ⟨valueLooksLikeJson_of_read starts read, takes.reads⟩

/-- What a value is printed as. -/
def valueText (value : Bytes) : Bytes :=
  if valueLooksLikeJson value then value
  else ascii "\"" ++ value.flatMap escapeJson ++ ascii "\""

theorem not_string_of_readName {string : Bytes} :
    Json.readName text ≠ some (.string string, rest) := by
  intro read
  unfold Json.readName at read
  split_ifs at read
  all_goals cases read

/-- A string that is read starts with its quote. -/
theorem readString_of_readValue {fuel : ℕ} {string : Bytes}
    (read : Json.readValue fuel text = some (.string string, rest)) :
    ∃ later, Json.skipBlanks text = byte '"' :: later ∧
      Json.readString later = some (string, rest) := by
  cases fuel with
  | zero => cases read
  | succ fuel =>
      rw [Json.readValue] at read
      split at read
      case h_1 => cases read
      case h_2 first later shape =>
        refine ⟨later, ?_⟩
        by_cases quote : first = byte '"'
        · rw [if_pos quote] at read
          rcases Option.bind_eq_some_iff.mp read with ⟨⟨found, after⟩, readString, same⟩
          cases same
          exact ⟨by rw [shape, quote], readString⟩
        rw [if_neg quote] at read
        split at read
        case isTrue =>
          split at read
          case isTrue => cases read
          case isFalse =>
            rcases Option.bind_eq_some_iff.mp read with ⟨⟨items, after⟩, -, same⟩
            cases same
        case isFalse =>
          split at read
          case isTrue =>
            split at read
            case isTrue => cases read
            case isFalse =>
              rcases Option.bind_eq_some_iff.mp read with ⟨⟨members, after⟩, -, same⟩
              dsimp only at same
              split at same <;> cases same
          case isFalse =>
            split at read
            case isTrue =>
              rcases Option.bind_eq_some_iff.mp read with ⟨⟨literal, after⟩, -, same⟩
              cases same
            case isFalse => exact absurd read not_string_of_readName

/-- A value that is printed and read back as what it stands for is JSON, or it is a text without
blanks around it that does not start like JSON and has no control character without an escape. -/
def GoodValue (value : Bytes) : Prop :=
  (Json.parse value).isSome = true ∨
    (valueLooksLikeJson (Bytes.trim blanks value) = false ∧ Bytes.trim blanks value = value ∧
      Escapable value)

def Good (parameter : Parameter) : Prop :=
  byte '>' ∉ parameter.name ∧ Escapable parameter.name ∧ GoodValue parameter.value

theorem not_read_of_inlined {value : Bytes} {fuel : ℕ} (follows : Follows rest)
    (looks : valueLooksLikeJson (Bytes.trim blanks value) = true) :
    Json.readValue fuel (Bytes.trim blanks value ++ rest) ≠ some (.string value, front) := by
  intro read
  rcases readString_of_readValue read with ⟨later, shape, string⟩
  cases trimmed : Bytes.trim blanks value with
  | nil =>
      rw [trimmed] at looks
      cases looks
  | cons first inside =>
      have notBlank : Json.isBlank first = false := by
        rw [← contains_blanks]
        exact Bytes.contains_of_trim_eq_cons trimmed
      rw [trimmed, List.cons_append, Json.skipBlanks_cons notBlank] at shape
      cases shape
      rcases length_of_readChars follows string with ⟨longest, quoted⟩
      have within := Bytes.trim_sublist blanks value
      have length := within.length_le
      rw [trimmed, List.length_cons] at length
      have same : value.length = inside.length + 1 := by omega
      have whole : value = byte '"' :: inside := by
        rw [← trimmed]
        exact (within.eq_of_length (by rw [trimmed, List.length_cons, same])).symm
      have bound := quoted (by rw [whole]; rfl)
      omega

theorem goodValue_of_read {value : Bytes} {fuel : ℕ} (follows : Follows rest)
    (read : Json.readValue fuel (valueText (Bytes.trim blanks value) ++ rest) =
      some ((Json.parse value).getD (.string value), front)) : GoodValue value := by
  cases parsed : Json.parse value with
  | some denoted => exact .inl (by rw [parsed]; rfl)
  | none =>
      rw [parsed, Option.getD_none] at read
      refine .inr ?_
      cases looks : valueLooksLikeJson (Bytes.trim blanks value) with
      | true =>
          rw [valueText, if_pos looks] at read
          exact absurd read (not_read_of_inlined follows looks)
      | false =>
          have notJson : ¬valueLooksLikeJson (Bytes.trim blanks value) = true := by
            rw [looks]
            exact Bool.false_ne_true
          rw [valueText, if_neg notJson] at read
          rcases readString_of_readValue read with ⟨later, shape, string⟩
          have solid : Json.isBlank (byte '"') = false := rfl
          have quoted : ascii "\"" = [byte '"'] := by decide
          rw [quoted, List.append_assoc, List.append_assoc, List.singleton_append,
            Json.skipBlanks_cons solid] at shape
          cases shape
          rcases readString_escaped string with ⟨escapable, same, -⟩
          rw [← same] at escapable
          exact ⟨rfl, same.symm, escapable⟩

/-!
## Members
-/

theorem parameterMember_eq (name value : Bytes) :
    parameterMember name value =
      byte '"' :: (name.flatMap escapeJson ++ byte '"' :: byte ':' :: valueText value) := by
  have quote : ascii "\"" = [byte '"'] ∧ ascii "\":" = [byte '"', byte ':'] := by decide
  have text : parameterMember name value =
      ascii "\"" ++ name.flatMap escapeJson ++ ascii "\":" ++ valueText value := rfl
  rw [text, quote.1, quote.2]
  simp only [List.append_assoc, List.cons_append, List.nil_append]

theorem reads_valueText {value : Bytes} (good : GoodValue value) :
    Json.Reads (valueText (Bytes.trim blanks value))
      ((Json.parse value).getD (.string value)) := by
  cases parsed : Json.parse value with
  | some denoted =>
      rcases reads_trim_of_parse parsed with ⟨looks, reads⟩
      rwa [valueText, if_pos looks]
  | none =>
      rcases good with json | ⟨looks, trimmed, escapable⟩
      · rw [parsed] at json
        cases json
      · have string := JsonUtil.reads_appendJsonString value
        have notJson : ¬valueLooksLikeJson (Bytes.trim blanks value) = true := by
          rw [looks]
          exact Bool.false_ne_true
        rw [valueText, if_neg notJson, trimmed, flatMap_escapeJson escapable]
        exact string

theorem valid_valueText {value : Bytes} (valid : Utf8.valid value = true) (good : GoodValue value) :
    Utf8.valid (valueText (Bytes.trim blanks value)) = true := by
  have isAscii : ∀ {blank : Bytes}, blank.all Json.isBlank = true →
      blank.all Utf8.isAscii = true := by
    intro blank isBlanks
    have ascii : ∀ value, Json.isBlank value = true → Utf8.isAscii value = true := by
      refine Bytes.forall_byte ?_
      decide
    exact List.all_eq_true.mpr fun value mem => ascii value (List.all_eq_true.mp isBlanks value mem)
  cases parsed : Json.parse value with
  | some denoted =>
      rw [valueText, if_pos (reads_trim_of_parse parsed).1]
      rcases Json.exists_takes_of_parse parsed with
        ⟨front, used, back, rfl, isFront, isBack, starts, takes⟩
      rw [trim_append isFront isBack starts takes.solid]
      rwa [Utf8.valid_append (isAscii isFront), Utf8.valid_append_right (isAscii isBack)] at valid
  | none =>
      rcases good with json | ⟨looks, trimmed, escapable⟩
      · rw [parsed] at json
        cases json
      · have notJson : ¬valueLooksLikeJson (Bytes.trim blanks value) = true := by
          rw [looks]
          exact Bool.false_ne_true
        have string := JsonUtil.valid_appendJsonString value []
        rw [List.append_nil, valid, Utf8.valid_nil] at string
        rw [valueText, if_neg notJson, trimmed, flatMap_escapeJson escapable]
        exact string

theorem Found.eq_map {found : List (Bytes × Bytes)} (finds : Found parameters found)
    (closed : ∀ parameter ∈ parameters, byte '>' ∉ parameter.name) :
    found = parameters.map fun parameter => (parameter.name, Bytes.trim blanks parameter.value) := by
  induction parameters generalizing found with
  | nil => exact finds
  | cons parameter parameters ih =>
      rw [Found, if_neg (closed parameter List.mem_cons_self)] at finds
      rcases finds with ⟨others, rfl, finds⟩
      rw [ih finds fun other mem => closed other (List.mem_cons_of_mem _ mem), List.map_cons]

theorem readsField_of_good (good : Good parameter) :
    JsonUtil.ReadsField (parameterMember parameter.name (Bytes.trim blanks parameter.value))
      (parameter.name, parameter.denotes) := by
  refine ⟨valueText (Bytes.trim blanks parameter.value), ?_, reads_valueText good.2.2⟩
  have quote : ascii ":" = [byte ':'] := by decide
  rw [parameterMember_eq, flatMap_escapeJson good.2.1, JsonUtil.appendJsonKey,
    JsonUtil.appendJsonString, quote]
  simp only [List.append_assoc, List.cons_append, List.nil_append]

theorem valid_of_good (good : Good parameter) :
    Utf8.valid (parameterMember parameter.name (Bytes.trim blanks parameter.value)) = true := by
  rcases readsField_of_good good with ⟨text, shape, -⟩
  have quote : Utf8.isAscii (byte '"') = true ∧ Utf8.isAscii (byte ':') = true := ⟨rfl, rfl⟩
  rw [parameterMember_eq, Utf8.valid_cons quote.1, Utf8.valid_append_cons quote.1,
    Utf8.valid_cons quote.2, flatMap_escapeJson good.2.1, JsonUtil.valid_escaped,
    parameter.name_valid, valid_valueText parameter.value_valid good.2.2]
  rfl

theorem denotes_of_good (distinct : (parameters.map Parameter.name).Nodup)
    (good : ∀ parameter ∈ parameters, Good parameter) : Denotes parameters := by
  rcases buildInvokeArgumentsJson_bodyOf parameters with ⟨found, built, finds⟩
  have shape := finds.eq_map fun parameter mem => (good parameter mem).1
  rw [Denotes, built, objectOf, shape, List.map_map]
  have valid : Utf8.valid (JsonUtil.appendJsonFields (parameters.map fun parameter =>
      parameterMember parameter.name (Bytes.trim blanks parameter.value)) ++ []) = true := by
    rw [List.append_nil, JsonUtil.valid_appendJsonFields, List.all_map, List.all_eq_true]
    exact fun parameter mem => valid_of_good (good parameter mem)
  have reads : Json.Reads (JsonUtil.appendJsonFields (parameters.map fun parameter =>
      parameterMember parameter.name (Bytes.trim blanks parameter.value)))
        (.object (parameters.map fun parameter => (parameter.name, parameter.denotes))) := by
    cases parameters with
    | nil => exact (Json.TakesValue.emptyObject List.all_nil).reads
    | cons parameter parameters =>
        refine JsonUtil.reads_appendJsonFields ?_ (by simp) ?_
        · rw [List.forall₂_map_left_iff, List.forall₂_map_right_iff, List.forall₂_same]
          exact fun parameter mem => readsField_of_good (good parameter mem)
        · simpa [List.map_map, Function.comp_def] using distinct
  have parsed := Json.parse_of_reads reads List.all_nil valid
  rwa [List.append_nil] at parsed

/-!
## Whatever is said is good
-/

def membersOf (found : List (Bytes × Bytes)) : Bytes :=
  (ascii ",").intercalate (found.map fun pair => parameterMember pair.1 pair.2) ++ ascii "\x7d"

theorem membersOf_cons (pair : Bytes × Bytes) (others : List (Bytes × Bytes)) :
    ∃ rest, membersOf (pair :: others) = parameterMember pair.1 pair.2 ++ rest ∧ Follows rest ∧
      ((others = [] ∧ rest = [byte '\x7d']) ∨
        (others ≠ [] ∧ rest = byte ',' :: membersOf others)) := by
  have comma : ascii "," = [byte ','] ∧ ascii "\x7d" = [byte '\x7d'] := by decide
  cases others with
  | nil =>
      refine ⟨[byte '\x7d'], ?_, .inl rfl, .inl ⟨rfl, rfl⟩⟩
      rw [membersOf, comma.2]
      simp
  | cons second others =>
      refine ⟨byte ',' :: membersOf (second :: others), ?_, .inr ?_, .inr ⟨by simp, rfl⟩⟩
      · rw [membersOf, membersOf, List.map_cons, List.map_cons, List.intercalate_cons_cons, comma.1]
        simp
      · have starts : ∃ tail, membersOf (second :: others) = byte '"' :: tail := by
          cases others with
          | nil =>
              rw [membersOf, List.map_singleton, List.intercalate_singleton, parameterMember_eq]
              exact ⟨_, rfl⟩
          | cons third others =>
              rw [membersOf, List.map_cons, List.map_cons, List.intercalate_cons_cons,
                parameterMember_eq]
              exact ⟨_, rfl⟩
        rcases starts with ⟨tail, shape⟩
        exact ⟨tail, by rw [shape]⟩

theorem readKey_member {name value key after : Bytes}
    (read : Json.readKey (parameterMember name value ++ rest) = some (key, after)) :
    Escapable name ∧ key = name ∧ after = valueText value ++ rest := by
  have solid : Json.isBlank (byte '"') = false ∧ Json.isBlank (byte ':') = false := ⟨rfl, rfl⟩
  rw [parameterMember_eq, List.cons_append, Json.readKey, Json.skipBlanks_cons solid.1] at read
  simp only [if_true, Option.bind_eq_bind, List.append_assoc, List.cons_append] at read
  rcases Option.bind_eq_some_iff.mp read with ⟨⟨string, later⟩, readString, colon⟩
  rcases readString_escaped readString with ⟨escapable, rfl, rfl⟩
  simp only [Json.skipBlanks_cons solid.2, if_true, pure, Option.some.injEq, Prod.mk.injEq] at colon
  exact ⟨escapable, colon.1.symm, colon.2.symm⟩

theorem readMembers_member {name value after : Bytes} {fuel : ℕ} {members : List (Bytes × Json)}
    (read : Json.readMembers (fuel + 1) (parameterMember name value ++ rest) = some (members, after)) :
    Escapable name ∧ ∃ denoted behind others, members = (name, denoted) :: others ∧
      Json.readValue fuel (valueText value ++ rest) = some (denoted, behind) ∧
      (others = [] ∨ ∃ next, Json.skipBlanks behind = byte ',' :: next ∧
        Json.readMembers fuel next = some (others, after)) := by
  simp only [Json.readMembers, Option.bind_eq_bind, Option.bind_eq_some_iff] at read
  rcases read with ⟨⟨key, afterKey⟩, readKey, ⟨denoted, behind⟩, readValue, read⟩
  rcases readKey_member readKey with ⟨escapable, rfl, rfl⟩
  refine ⟨escapable, denoted, behind, ?_⟩
  dsimp only at read
  split at read
  case h_1 => cases read
  case h_2 first next shape =>
    split at read
    case isTrue comma =>
      rcases Option.bind_eq_some_iff.mp read with ⟨⟨others, last⟩, readOthers, same⟩
      cases same
      exact ⟨others, rfl, readValue, .inr ⟨next, by rw [shape, comma], readOthers⟩⟩
    case isFalse comma =>
      split at read
      case isTrue =>
        cases read
        exact ⟨[], rfl, readValue, .inl rfl⟩
      case isFalse => cases read

/-- Parameters that are read back are good. -/
theorem good_of_readMembers {found : List (Bytes × Bytes)} {fuel : ℕ} {after : Bytes}
    (finds : Found parameters found) (nonempty : parameters ≠ [])
    (enough : (membersOf found).length < fuel)
    (read : Json.readMembers fuel (membersOf found) =
      some (parameters.map fun parameter => (parameter.name, parameter.denotes), after)) :
    ∀ parameter ∈ parameters, Good parameter := by
  induction parameters generalizing found fuel with
  | nil => exact absurd rfl nonempty
  | cons parameter parameters ih =>
      obtain ⟨fuel, rfl⟩ : ∃ less, fuel = less + 1 := ⟨fuel - 1, by omega⟩
      cases found with
      | nil =>
          have closed : (Json.skipBlanks (membersOf [])).head? = some (byte '\x7d') := by decide
          rw [Json.readMembers_of_brace _ closed] at read
          cases read
      | cons pair others =>
          rcases membersOf_cons pair others with ⟨rest, shape, follows, behind⟩
          rw [shape] at read enough
          rcases readMembers_member read with
            ⟨escapable, denoted, beyond, members, same, readValue, readOthers⟩
          rw [List.map_cons] at same
          have named : parameter.name = pair.1 := (Prod.mk.inj (List.cons.inj same).1).1
          have denotes : parameter.denotes = denoted := (Prod.mk.inj (List.cons.inj same).1).2
          have later := (List.cons.inj same).2
          by_cases closed : byte '>' ∈ parameter.name
          · rw [Found, if_pos closed] at finds
            exact absurd (named ▸ closed) (finds pair List.mem_cons_self)
          rw [Found, if_neg closed] at finds
          rcases finds with ⟨_, same, finds⟩
          cases same
          have good : GoodValue parameter.value := by
            rw [← denotes, Parameter.denotes] at readValue
            exact goodValue_of_read follows readValue
          refine List.forall_mem_cons.mpr ⟨⟨closed, escapable, good⟩, ?_⟩
          cases parameters with
          | nil => simp
          | cons second parameters =>
              have short : (valueText (Bytes.trim blanks parameter.value)).length < fuel := by
                rw [parameterMember_eq] at enough
                simp only [List.length_append, List.length_cons] at enough
                omega
              have ends : Json.Ends rest := by
                rcases behind with ⟨-, rfl⟩ | ⟨-, rfl⟩
                · exact Json.ends_of_punctuation (.inr (.inr rfl))
                · exact Json.ends_of_punctuation (.inl rfl)
              rw [reads_valueText good fuel rest short ends] at readValue
              cases readValue
              rcases readOthers with rfl | ⟨next, comma, readOthers⟩
              · cases later
              rcases behind with ⟨-, rfl⟩ | ⟨-, rfl⟩
              · cases comma
              · have solid : Json.isBlank (byte ',') = false := rfl
                rw [Json.skipBlanks_cons solid] at comma
                cases comma
                rw [← later] at readOthers
                refine ih finds (List.cons_ne_nil _ _) ?_ readOthers
                simp only [List.length_append, List.length_cons] at enough
                omega

theorem readMembers_of_parse {members : List (Bytes × Json)} {first : Bytes × Json}
    (parsed : Json.parse (byte '\x7b' :: text) = some (.object (first :: members))) :
    ∃ after, Json.readMembers (text.length + 1) text = some (first :: members, after) := by
  unfold Json.parse at parsed
  split at parsed
  case isFalse => cases parsed
  case isTrue =>
    rcases Option.bind_eq_some_iff.mp parsed with ⟨⟨whole, after⟩, read, parsed⟩
    dsimp only at parsed
    split at parsed
    case isFalse => cases parsed
    case isTrue =>
      cases parsed
      have solid : Json.isBlank (byte '\x7b') = false := rfl
      have other : byte '\x7b' ≠ byte '"' ∧ byte '\x7b' ≠ byte '[' := by decide
      rw [Json.readValue, Json.skipBlanks_cons solid] at read
      simp only [if_neg other.1, if_neg other.2, if_true, List.length_cons] at read
      split at read
      case isTrue => cases read
      case isFalse =>
        rcases Option.bind_eq_some_iff.mp read with ⟨⟨all, last⟩, readAll, same⟩
        dsimp only at same
        split at same
        case isTrue =>
          cases same
          exact ⟨after, readAll⟩
        case isFalse => cases same

/-- **The arguments say what the parameters say** exactly if every parameter is good. -/
theorem denotes_iff (parameters : List Parameter)
    (distinct : (parameters.map Parameter.name).Nodup) :
    Denotes parameters ↔ ∀ parameter ∈ parameters, Good parameter := by
  refine ⟨?_, denotes_of_good distinct⟩
  intro denotes
  cases parameters with
  | nil => simp
  | cons parameter parameters =>
      rcases buildInvokeArgumentsJson_bodyOf (parameter :: parameters) with ⟨found, built, finds⟩
      have shape : objectOf found = byte '\x7b' :: membersOf found := by
        have opening : ascii "\x7b" = [byte '\x7b'] := by decide
        rw [objectOf, JsonUtil.appendJsonFields, membersOf, opening]
        rfl
      rw [Denotes, built, shape] at denotes
      rcases readMembers_of_parse denotes with ⟨after, read⟩
      exact good_of_readMembers finds (List.cons_ne_nil _ _) (Nat.lt_succ_self _) read

/-- A number between blanks and a word. -/
def countAndWord : List Parameter :=
  [⟨[], ascii "n", ascii " 12 ", by decide, by decide, by decide,
      by decide, by decide⟩,
    ⟨ascii "\n", ascii "w", ascii "plain", by decide, by decide, by decide,
      by decide, by decide⟩]

/-- They are said as they are. -/
theorem denotes_countAndWord :
    Denotes countAndWord ↔ ∀ parameter ∈ countAndWord, Good parameter :=
  denotes_iff countAndWord (by decide)

/-- A date. -/
def dateOnly : Parameter :=
  ⟨[], ascii "d", ascii "2026-01-01", by decide, by decide, by decide,
    by decide, by decide +kernel⟩

/-- A date starts like a number, is inlined, and leaves no JSON. -/
theorem not_denotes :
    ¬∀ parameters : List Parameter, (parameters.map Parameter.name).Nodup → Denotes parameters := by
  intro always
  have date := always [dateOnly] (by simp)
  have broken : (Json.parse (buildInvokeArgumentsJson (bodyOf [dateOnly]))).isNone = true := by
    decide
  rw [Denotes] at date
  rw [date] at broken
  cases broken

end Nullalis.Agent.Dispatcher
