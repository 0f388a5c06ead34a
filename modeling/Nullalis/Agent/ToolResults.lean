import Mathlib.Data.List.Forall2
import Nullalis.Base.Radix
import Nullalis.JsonUtil

/-!
# Tool results for the context

What a tool returned goes to the model in an envelope of JSON. An output that is too long keeps its
beginning and its end around a marker. Both are cut at fixed numbers of bytes, wherever these fall.
-/

namespace Nullalis.Agent

open JsonUtil (appendJsonString appendJsonKey appendJsonKeyValue appendJsonInt appendJsonFields
  ReadsField)

/-- What a tool returned. The output is a slice, so its length is a `usize`. -/
structure ToolExecutionResult where
  name : Bytes
  output : Bytes
  success : Bool
  tool_call_id : Option Bytes := none
  fits : output.length < 2 ^ 64

def MAX_TOOL_RESULT_CONTEXT_CHARS : ℕ := 200000

def truncationMarker (omitted : ℕ) : Bytes :=
  ascii "[... " ++ Bytes.decimal omitted ++ ascii " characters truncated ...]"

/-- Keep the beginning and the end of an output, with a marker between them. -/
def truncateToolOutput (output : Bytes) (max_chars : ℕ) : Bytes :=
  if output.length ≤ max_chars then output
  else
    let marker_overhead := 60
    let min_useful := marker_overhead + 40
    if max_chars < min_useful then
      output.take (min output.length max_chars) ++ ascii "\n\n" ++
        truncationMarker (output.length - max_chars)
    else
      let budget := max_chars - marker_overhead
      let keep_head := budget * 2 / 3
      let keep_tail := budget - keep_head
      let omitted := output.length - keep_head - keep_tail
      output.take keep_head ++ ascii "\n\n" ++ truncationMarker omitted ++ ascii "\n\n" ++
        output.drop (output.length - keep_tail)

/-- FNV-1a in 64 bits (`std.hash.Fnv1a_64`). -/
def fnv1a (text : Bytes) : UInt64 :=
  text.foldl (fun hash value => (hash ^^^ value.toUInt64) * 0x100000001b3) 0xcbf29ce484222325

def statusText (success : Bool) : Bytes :=
  if success then ascii "ok" else ascii "error"

def resultHash (result : ToolExecutionResult) : UInt64 :=
  fnv1a <| result.name ++ [0] ++ statusText result.success ++ [0] ++ result.output ++
    match result.tool_call_id with
    | some id => [0] ++ id
    | none => []

/-- How to get the rest of an output. -/
def partialRetrievalHint (result : ToolExecutionResult) : Bytes :=
  let mentions (word : String) := (Bytes.indexOf (ascii word) result.name).isSome
  if result.name = ascii "schedule" then
    ascii "Use schedule list with the next offset/limit, or call the exact schedule detail path for a specific job id."
  else if result.name = ascii "cron_list" then
    ascii "Use cron_list with the next offset/limit, or call the exact cron detail/update path for a specific job id."
  else if Bytes.startsWith result.name "memory_" then
    ascii "Use a narrower memory query, explicit key/id, limit, offset, or transcript_read for exact historical detail."
  else if Bytes.startsWith result.name "composio" then
    ascii "Use the returned id/cursor if present, or rerun the Composio tool with narrower filters to fetch omitted detail."
  else if mentions "web" || mentions "http" then
    ascii "Fetch the specific URL/section/id or use a narrower query to retrieve omitted detail."
  else if mentions "file" || mentions "shell" then
    ascii "Use targeted offsets/ranges/commands to retrieve omitted detail; do not assume the omitted bytes were visible."
  else
    ascii "Call the same tool with narrower query, limit/offset/cursor, explicit id, or targeted parameters to retrieve omitted detail."

/-- The text that is shown, and whether it was made in place of the output. -/
structure ContextOutput where
  text : Bytes
  allocated : Bool := false

/-- The fields of the envelope around a text. -/
def boundedResultFields (result : ToolExecutionResult) (output_for_context : ContextOutput) :
    List Bytes :=
  let normalized_output :=
    truncateToolOutput output_for_context.text MAX_TOOL_RESULT_CONTEXT_CHARS
  let truncated := output_for_context.allocated ||
    decide (MAX_TOOL_RESULT_CONTEXT_CHARS < output_for_context.text.length)
  [appendJsonKeyValue (ascii "tool") result.name,
    appendJsonKeyValue (ascii "status") (statusText result.success),
    appendJsonKey (ascii "partial") ++ (if truncated then ascii "true" else ascii "false"),
    appendJsonInt (ascii "original_bytes") result.output.length,
    appendJsonInt (ascii "shown_bytes") normalized_output.length,
    appendJsonKey (ascii "result_hash") ++ ascii "\"" ++
      Bytes.radix 16 (resultHash result).toNat ++ ascii "\"",
    appendJsonKeyValue (ascii "content_preview") normalized_output] ++
  if truncated then [appendJsonKeyValue (ascii "next_call") (partialRetrievalHint result)] else []

def formatBoundedResultJson (result : ToolExecutionResult) (output_for_context : ContextOutput) :
    Bytes :=
  appendJsonFields (boundedResultFields result output_for_context)

def formatBoundedToolResultContent (result : ToolExecutionResult) : Bytes :=
  formatBoundedResultJson result { text := result.output }

/-!
## What the envelope denotes
-/

variable {result : ToolExecutionResult} {shown : ContextOutput}

/-- What the fields denote. -/
def boundedResultMembers (result : ToolExecutionResult) (output_for_context : ContextOutput) :
    List (Bytes × Json) :=
  let normalized_output :=
    truncateToolOutput output_for_context.text MAX_TOOL_RESULT_CONTEXT_CHARS
  let truncated := output_for_context.allocated ||
    decide (MAX_TOOL_RESULT_CONTEXT_CHARS < output_for_context.text.length)
  [(ascii "tool", .string result.name),
    (ascii "status", .string (statusText result.success)),
    (ascii "partial", .bool truncated),
    (ascii "original_bytes", .number (Bytes.decimalInt result.output.length)),
    (ascii "shown_bytes", .number (Bytes.decimalInt normalized_output.length)),
    (ascii "result_hash", .string (Bytes.radix 16 (resultHash result).toNat)),
    (ascii "content_preview", .string normalized_output)] ++
  if truncated then [(ascii "next_call", .string (partialRetrievalHint result))] else []

theorem escapeByte_of_mem_radix {letter : UInt8} {value : ℕ} (mem : letter ∈ Bytes.radix 16 value) :
    JsonUtil.escapeByte letter = [letter] ∧ Utf8.isAscii letter = true := by
  have numerals : (Bytes.radix 16 value).all (Bytes.isNumeral 16) = true :=
    Bytes.all_isNumeral_of_radixValue (Bytes.radixValue_radix (by decide) (by decide))
  have plain : ∀ value, Bytes.isNumeral 16 value = true →
      JsonUtil.escapeByte value = [value] ∧ Utf8.isAscii value = true := by
    refine Bytes.forall_byte ?_
    decide
  exact plain letter (List.all_eq_true.mp numerals letter mem)

theorem appendJsonString_radix (value : ℕ) :
    appendJsonString (Bytes.radix 16 value) = ascii "\"" ++ Bytes.radix 16 value ++ ascii "\"" := by
  have copied : (Bytes.radix 16 value).flatMap JsonUtil.escapeByte = Bytes.radix 16 value := by
    rw [List.flatMap_congr fun letter mem => (escapeByte_of_mem_radix mem).1,
      List.flatMap_singleton']
  rw [appendJsonString, copied]
  rfl

theorem readsFields_bounded (result : ToolExecutionResult) (shown : ContextOutput) :
    List.Forall₂ ReadsField (boundedResultFields result shown)
      (boundedResultMembers result shown) := by
  have flag (value : Bool) : ReadsField
      (appendJsonKey (ascii "partial") ++ if value then ascii "true" else ascii "false")
      (ascii "partial", .bool value) :=
    ⟨_, rfl, .bool value⟩
  have hash : ReadsField (appendJsonKey (ascii "result_hash") ++ ascii "\"" ++
      Bytes.radix 16 (resultHash result).toNat ++ ascii "\"")
      (ascii "result_hash", .string (Bytes.radix 16 (resultHash result).toNat)) := by
    have printed := JsonUtil.readsField_keyValue (ascii "result_hash")
      (Bytes.radix 16 (resultHash result).toNat)
    rw [appendJsonKeyValue, appendJsonString_radix] at printed
    simpa using printed
  refine List.rel_append ?_ ?_
  · exact .cons (JsonUtil.readsField_keyValue _ _) <| .cons (JsonUtil.readsField_keyValue _ _) <|
      .cons (flag _) <| .cons (JsonUtil.readsField_int _ _) <|
      .cons (JsonUtil.readsField_int _ _) <| .cons hash <|
      .cons (JsonUtil.readsField_keyValue _ _) .nil
  · split
    · exact .cons (JsonUtil.readsField_keyValue _ _) .nil
    · exact .nil

theorem parse_formatBoundedResultJson
    (valid : Utf8.valid (formatBoundedResultJson result shown) = true) :
    Json.parse (formatBoundedResultJson result shown) =
      some (.object (boundedResultMembers result shown)) := by
  have distinct : ((boundedResultMembers result shown).map Prod.fst).Nodup := by
    rw [boundedResultMembers]
    split
    · change (["tool", "status", "partial", "original_bytes", "shown_bytes", "result_hash",
        "content_preview", "next_call"].map ascii).Nodup
      decide
    · change (["tool", "status", "partial", "original_bytes", "shown_bytes", "result_hash",
        "content_preview"].map ascii).Nodup
      decide
  have reads := JsonUtil.reads_appendJsonFields (readsFields_bounded result shown)
    (by simp [boundedResultFields]) distinct
  have whole : Json.parse (formatBoundedResultJson result shown ++ []) =
      some (.object (boundedResultMembers result shown)) :=
    Json.parse_of_reads reads rfl (by rw [List.append_nil]; exact valid)
  rwa [List.append_nil] at whole

/-!
## UTF-8
-/

theorem valid_partialRetrievalHint (result : ToolExecutionResult) :
    Utf8.valid (partialRetrievalHint result) = true := by
  apply Utf8.valid_of_isAscii
  rw [partialRetrievalHint]
  repeat' split
  all_goals
    rw [ascii_ofList]
    decide

theorem valid_formatBoundedResultJson (result : ToolExecutionResult) (shown : ContextOutput) :
    Utf8.valid (formatBoundedResultJson result shown) = (Utf8.valid result.name &&
      Utf8.valid (truncateToolOutput shown.text MAX_TOOL_RESULT_CONTEXT_CHARS)) := by
  have status : Utf8.valid (statusText result.success) = true := by
    cases result.success <;> decide
  have flag (value : Bool) : Utf8.valid (if value then ascii "true" else ascii "false") = true := by
    cases value <;> decide
  have hash : Utf8.valid (ascii "\"" ++ Bytes.radix 16 (resultHash result).toNat ++ ascii "\"") =
      true := by
    apply Utf8.valid_of_isAscii
    have numerals : (Bytes.radix 16 (resultHash result).toNat).all Utf8.isAscii = true :=
      List.all_eq_true.mpr fun letter mem => (escapeByte_of_mem_radix mem).2
    rw [List.all_append, List.all_append, numerals]
    rfl
  rw [formatBoundedResultJson, JsonUtil.valid_appendJsonFields, boundedResultFields]
  simp only [List.all_append, List.all_cons, List.all_nil, Bool.and_true]
  rw [JsonUtil.valid_appendJsonKeyValue (by decide), JsonUtil.valid_appendJsonKeyValue (by decide),
    JsonUtil.valid_appendJsonKey (by decide), flag, status, appendJsonInt,
    JsonUtil.valid_appendJsonKey (by decide), JsonUtil.valid_decimalInt, appendJsonInt,
    JsonUtil.valid_appendJsonKey (by decide), JsonUtil.valid_decimalInt, List.append_assoc,
    List.append_assoc, JsonUtil.valid_appendJsonKey (by decide), ← List.append_assoc, hash,
    JsonUtil.valid_appendJsonKeyValue (by decide)]
  split
  · rw [List.all_cons, List.all_nil, JsonUtil.valid_appendJsonKeyValue (by decide),
      valid_partialRetrievalHint]
    simp
  · simp

/-!
## What is shown of an output
-/

variable {output : Bytes}

/-- The bytes that are kept at the beginning of an output that is too long. -/
def headCut : ℕ := 133293

def tailCut : ℕ := 66647

def CutsBetween (output : Bytes) (cut : ℕ) : Prop :=
  ∀ value, output[cut]? = some value → Utf8.isContinuation value = false

/-- The preview is the output, or a beginning and an end of it around the marker. -/
def Previews (output preview : Bytes) : Prop :=
  preview = output ∨ ∃ before omitted after, output = before ++ omitted ++ after ∧
    preview = before ++ ascii "\n\n" ++ truncationMarker omitted.length ++ ascii "\n\n" ++ after

/-- The content is JSON in UTF-8, and its preview shows the output within the limit. -/
structure ShowsOutput (result : ToolExecutionResult) (content : Bytes) : Prop where
  utf8 : Utf8.valid content = true
  shown : ∃ members preview, Json.parse content = some (.object members) ∧
    Json.get? members (ascii "content_preview") = some (.string preview) ∧
    preview.length ≤ MAX_TOOL_RESULT_CONTEXT_CHARS ∧ Previews result.output preview

theorem truncateToolOutput_of_lt (long : MAX_TOOL_RESULT_CONTEXT_CHARS < output.length) :
    truncateToolOutput output MAX_TOOL_RESULT_CONTEXT_CHARS =
      output.take headCut ++ ascii "\n\n" ++
        truncationMarker (output.length - headCut - tailCut) ++ ascii "\n\n" ++
        output.drop (output.length - tailCut) := by
  rw [truncateToolOutput, if_neg (Nat.not_le.mpr long)]
  rfl

theorem length_truncationMarker_le {omitted : ℕ} (fits : omitted < 2 ^ 64) :
    (truncationMarker omitted).length ≤ 51 := by
  have digits : (Bytes.decimal omitted).length ≤ 20 :=
    (Bytes.length_decimal_le (by decide) (by omega))
  have opened : (ascii "[... ").length = 5 := rfl
  have closed : (ascii " characters truncated ...]").length = 26 := rfl
  rw [truncationMarker, List.length_append, List.length_append, opened, closed]
  omega

theorem isAscii_truncationMarker (omitted : ℕ) :
    (truncationMarker omitted).all Utf8.isAscii = true := by
  have digits : (Bytes.decimal omitted).all Utf8.isAscii = true := by
    rw [List.all_eq_true]
    intro digit mem
    have isDigit := Bytes.isDigit_of_mem_decimal digit mem
    rw [Bytes.isDigit, Bool.and_eq_true, decide_eq_true_eq, decide_eq_true_eq] at isDigit
    exact decide_eq_true (UInt8.lt_of_le_of_lt isDigit.2 (by decide))
  rw [truncationMarker, List.all_append, List.all_append, digits]
  rfl

theorem length_truncateToolOutput_le (fits : output.length < 2 ^ 64) :
    (truncateToolOutput output MAX_TOOL_RESULT_CONTEXT_CHARS).length ≤
      MAX_TOOL_RESULT_CONTEXT_CHARS := by
  by_cases short : output.length ≤ MAX_TOOL_RESULT_CONTEXT_CHARS
  · rw [truncateToolOutput, if_pos short]
    exact short
  · have marker : (truncationMarker (output.length - headCut - tailCut)).length ≤ 51 :=
      length_truncationMarker_le (by omega)
    have blank : (ascii "\n\n").length = 2 := rfl
    rw [truncateToolOutput_of_lt (Nat.not_le.mp short)]
    simp only [List.length_append, List.length_take, List.length_drop, blank]
    simp only [headCut, tailCut, MAX_TOOL_RESULT_CONTEXT_CHARS] at short marker ⊢
    omega

theorem previews_truncateToolOutput (output : Bytes) :
    Previews output (truncateToolOutput output MAX_TOOL_RESULT_CONTEXT_CHARS) := by
  by_cases short : output.length ≤ MAX_TOOL_RESULT_CONTEXT_CHARS
  · rw [truncateToolOutput, if_pos short]
    exact Or.inl rfl
  · rw [truncateToolOutput_of_lt (Nat.not_le.mp short)]
    simp only [MAX_TOOL_RESULT_CONTEXT_CHARS] at short
    refine Or.inr ⟨output.take headCut,
      (output.drop headCut).take (output.length - headCut - tailCut),
      output.drop (output.length - tailCut), ?_, ?_⟩
    · have tail : output.drop (output.length - tailCut) =
          (output.drop headCut).drop (output.length - headCut - tailCut) := by
        have place : headCut + (output.length - headCut - tailCut) = output.length - tailCut := by
          simp only [headCut, tailCut]
          omega
        rw [List.drop_drop, place]
      rw [tail, List.append_assoc, List.take_append_drop, List.take_append_drop]
    · have omitted : ((output.drop headCut).take (output.length - headCut - tailCut)).length =
          output.length - headCut - tailCut := by
        rw [List.length_take, List.length_drop]
        omega
      rw [omitted]

theorem valid_take_drop (utf8 : Utf8.valid output = true) {cut : ℕ} (inside : cut < output.length) :
    (Utf8.valid (output.take cut) = true ↔ CutsBetween output cut) ∧
      (Utf8.valid (output.drop cut) = true ↔ CutsBetween output cut) := by
  have split : output.take cut ++ output[cut] :: output.drop (cut + 1) = output := by
    rw [List.getElem_cons_drop, List.take_append_drop]
  have parts := Utf8.valid_cut (split.symm ▸ utf8)
  have between : CutsBetween output cut ↔ Utf8.isContinuation output[cut] = false := by
    simp [CutsBetween, List.getElem?_eq_getElem inside]
  rw [List.getElem_cons_drop] at parts
  rw [between, parts.1, parts.2]
  simp

theorem valid_truncateToolOutput_iff (utf8 : Utf8.valid output = true) :
    Utf8.valid (truncateToolOutput output MAX_TOOL_RESULT_CONTEXT_CHARS) = true ↔
      output.length ≤ MAX_TOOL_RESULT_CONTEXT_CHARS ∨
        CutsBetween output headCut ∧ CutsBetween output (output.length - tailCut) := by
  by_cases short : output.length ≤ MAX_TOOL_RESULT_CONTEXT_CHARS
  · rw [truncateToolOutput, if_pos short]
    simp [utf8, short]
  · have plain : (byte '\n' :: (truncationMarker (output.length - headCut - tailCut) ++
        ascii "\n\n")).all Utf8.isAscii = true := by
      rw [List.all_cons, List.all_append, isAscii_truncationMarker]
      rfl
    have whole : truncateToolOutput output MAX_TOOL_RESULT_CONTEXT_CHARS =
        output.take headCut ++ byte '\n' ::
          ((byte '\n' :: (truncationMarker (output.length - headCut - tailCut) ++
            ascii "\n\n")) ++ output.drop (output.length - tailCut)) := by
      rw [truncateToolOutput_of_lt (Nat.not_le.mp short)]
      simp [ascii]
    rw [whole, Utf8.valid_append_cons rfl, Utf8.valid_append plain, Bool.and_eq_true]
    simp only [MAX_TOOL_RESULT_CONTEXT_CHARS] at short
    have head : Utf8.valid (output.take headCut) = true ↔ CutsBetween output headCut :=
      (valid_take_drop utf8 (by simp only [headCut]; omega)).1
    have tail : Utf8.valid (output.drop (output.length - tailCut)) = true ↔
        CutsBetween output (output.length - tailCut) :=
      (valid_take_drop utf8 (by simp only [tailCut]; omega)).2
    rw [head, tail]
    simp [MAX_TOOL_RESULT_CONTEXT_CHARS, short]

/-- A result is shown as it should be exactly when its name is UTF-8 and no cut falls inside of a
character. -/
theorem showsOutput_iff (result : ToolExecutionResult) (utf8 : Utf8.valid result.output = true) :
    ShowsOutput result (formatBoundedToolResultContent result) ↔
      Utf8.valid result.name = true ∧
        (result.output.length ≤ MAX_TOOL_RESULT_CONTEXT_CHARS ∨
          CutsBetween result.output headCut ∧
            CutsBetween result.output (result.output.length - tailCut)) := by
  have valid := valid_formatBoundedResultJson result { text := result.output }
  rw [← valid_truncateToolOutput_iff utf8, ← Bool.and_eq_true, ← valid]
  constructor
  · exact fun shows => shows.utf8
  · intro utf8
    refine ⟨utf8, _, _, parse_formatBoundedResultJson utf8, ?_,
      length_truncateToolOutput_le result.fits, previews_truncateToolOutput result.output⟩
    rw [Json.get?, boundedResultMembers, List.lookup_append]
    rfl

def letters (count : ℕ) : Bytes :=
  List.replicate count (byte 'a')

theorem length_letters (count : ℕ) : (letters count).length = count :=
  List.length_replicate

theorem isAscii_letters (count : ℕ) : (letters count).all Utf8.isAscii = true := by
  rw [letters, List.all_replicate]
  split <;> rfl

/-- A log of letters that is one byte too long to be shown whole. -/
def longLog : ToolExecutionResult where
  name := ascii "shell"
  output := letters 200001
  success := true
  fits := by rw [length_letters]; decide

/-- The log is shown. -/
theorem showsOutput_longLog : ShowsOutput longLog (formatBoundedToolResultContent longLog) := by
  have utf8 : Utf8.valid longLog.output = true := Utf8.valid_of_isAscii (isAscii_letters 200001)
  have between (count cut : ℕ) : CutsBetween (letters count) cut := by
    intro value found
    rw [letters, List.getElem?_replicate, Option.ite_none_right_eq_some] at found
    rw [← Option.some.inj found.2]
    rfl
  exact (showsOutput_iff longLog utf8).mpr
    ⟨by decide, Or.inr ⟨between 200001 _, between 200001 _⟩⟩

def umlautText (before after : ℕ) : Bytes :=
  letters before ++ ([0xC3, 0xA4] ++ letters after)

theorem length_umlautText (before after : ℕ) :
    (umlautText before after).length = before + 2 + after := by
  rw [umlautText, List.length_append, List.length_append, length_letters, length_letters,
    Nat.add_assoc]
  rfl

theorem valid_umlautText (before after : ℕ) : Utf8.valid (umlautText before after) = true := by
  have umlaut (rest : Bytes) : Utf8.valid ([0xC3, 0xA4] ++ rest) = Utf8.valid rest := rfl
  rw [umlautText, Utf8.valid_append (isAscii_letters _), umlaut]
  exact Utf8.valid_of_isAscii (isAscii_letters _)

theorem not_cutsBetween_umlautText (before after : ℕ) :
    ¬CutsBetween (umlautText before after) (before + 1) := by
  intro between
  have found : (umlautText before after)[before + 1]? = some 0xA4 := by
    rw [umlautText, List.getElem?_append_right (by rw [length_letters]; omega), length_letters,
      Nat.add_sub_cancel_left]
    rfl
  exact absurd (between 0xA4 found) (by decide)

/-- A log with one umlaut, and the first cut inside of it. -/
def umlautLog : ToolExecutionResult where
  name := ascii "shell"
  output := umlautText 133292 70000
  success := true
  fits := by rw [length_umlautText]; decide

/-- A result of a long output is not always shown. -/
theorem not_showsOutput :
    ¬ ∀ result : ToolExecutionResult, Utf8.valid result.output = true →
      ShowsOutput result (formatBoundedToolResultContent result) := by
  intro claimed
  have utf8 : Utf8.valid umlautLog.output = true := valid_umlautText 133292 70000
  have shown := (claimed umlautLog utf8).utf8
  rw [formatBoundedToolResultContent, valid_formatBoundedResultJson, Bool.and_eq_true,
    valid_truncateToolOutput_iff utf8] at shown
  rcases shown.2 with short | ⟨between, -⟩
  · have length : umlautLog.output.length = 133292 + 2 + 70000 := length_umlautText 133292 70000
    rw [length] at short
    exact absurd short (by decide)
  · exact not_cutsBetween_umlautText 133292 70000 between

end Nullalis.Agent
