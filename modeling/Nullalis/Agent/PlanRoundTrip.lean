import Nullalis.Agent.TaskPlanner

/-!
# What is kept of a saved plan

A saved plan is read back field by field. A text that is not UTF-8 makes the whole plan
unreadable, and a summary that is cut within a character is such a text. An empty text that may be
null is read as null, the step behind the last one is read as the last one, and a revision that
does not fit is read as the first.
-/

namespace Nullalis.Agent

open JsonUtil (ReadsField appendJsonKey appendJsonFields)

variable {text : Bytes} {step : TaskStep} {plan : TaskPlan}

/-!
## Strings
-/

theorem hexDigit_eq_digitChar {number : ℕ} (small : number < 16) :
    JsonUtil.hexDigit number = byte number.digitChar := by
  interval_cases number <;> rfl

theorem padLeft_radix_hex {number : ℕ} (small : number < 32) :
    Bytes.padLeft (byte '0') 4 (Bytes.radix 16 number) =
      ascii "00" ++ [JsonUtil.hexDigit (number / 16), JsonUtil.hexDigit (number % 16)] := by
  rw [hexDigit_eq_digitChar (by omega), hexDigit_eq_digitChar (by omega), Bytes.radix]
  rcases Nat.lt_or_ge number 16 with single | double
  · rw [Nat.toDigits_of_lt_base single, Nat.div_eq_of_lt single, Nat.mod_eq_of_lt single]
    rfl
  · rw [Nat.toDigits_of_base_le (by decide) double, Nat.toDigits_of_lt_base (by omega)]
    rfl

theorem jsonByte_eq (value : UInt8) :
    jsonByte value =
      if value = 0x08 then ascii "\\b"
      else if value = 0x0C then ascii "\\f"
      else JsonUtil.escapeByte value := by
  by_cases backspace : value = 0x08
  · rw [if_pos backspace, backspace]
    rfl
  · rw [if_neg backspace]
    by_cases feed : value = 0x0C
    · rw [if_pos feed, feed]
      rfl
    · rw [if_neg feed]
      simp only [jsonByte, JsonUtil.escapeByte, if_neg backspace, if_neg feed]
      by_cases control : value < 0x20
      · simp only [if_pos control, padLeft_radix_hex (show value.toNat < 32 from control)]
        rfl
      · simp only [if_neg control]

theorem readsText_jsonByte {body : Bytes} (value : UInt8) (reads : Json.ReadsText body text) :
    Json.ReadsText (jsonByte value ++ body) (value :: text) := by
  rw [jsonByte_eq]
  split
  case isTrue backspace => exact backspace ▸ reads.escape rfl (by decide)
  case isFalse =>
      split
      case isTrue feed => exact feed ▸ reads.escape rfl (by decide)
      case isFalse => exact JsonUtil.readsText_escapeByte value reads

theorem copies_jsonByte : Utf8.Copies jsonByte := by
  intro value
  rw [jsonByte_eq]
  split
  case isTrue backspace => exact Or.inr (backspace ▸ by decide)
  case isFalse =>
      split
      case isTrue feed => exact Or.inr (feed ▸ by decide)
      case isFalse => exact JsonUtil.escapeByte_spec value

theorem reads_writeJsonString (text : Bytes) :
    Json.Reads (writeJsonString text) (.string text) :=
  .string (.flatMap (fun value _ _ reads => readsText_jsonByte value reads) text)

@[simp]
theorem valid_writeJsonString (text : Bytes) :
    Utf8.valid (writeJsonString text) = Utf8.valid text := by
  have quote : (ascii "\"").all Utf8.isAscii = true := rfl
  have closed : Utf8.valid (text.flatMap jsonByte ++ byte '"' :: []) =
      (Utf8.valid (text.flatMap jsonByte) && Utf8.valid []) := Utf8.valid_append_cons rfl
  rw [writeJsonString, List.append_assoc, Utf8.valid_append quote]
  exact closed.trans (by rw [Utf8.valid_flatMap copies_jsonByte, Utf8.valid_nil, Bool.and_true])

def optionalJson (text : Option Bytes) : Json :=
  text.elim .null .string

theorem reads_writeOptional (text : Option Bytes) :
    Json.Reads (writeOptional text) (optionalJson text) := by
  cases text with
  | none => exact .null
  | some text => exact reads_writeJsonString text

@[simp]
theorem valid_writeOptional (text : Option Bytes) :
    Utf8.valid (writeOptional text) = text.all Utf8.valid := by
  cases text with
  | none => decide
  | some text => exact valid_writeJsonString text

/-!
## Objects
-/

def intJson (value : ℤ) : Json :=
  .number (Bytes.decimalInt value)

theorem decimal_eq_decimalInt (number : ℕ) : Bytes.decimal number = Bytes.decimalInt number := by
  simp [Bytes.decimalInt]

theorem reads_decimal (number : ℕ) : Json.Reads (Bytes.decimal number) (intJson number) := by
  rw [decimal_eq_decimalInt]
  exact .int number

theorem readsField_writeField {name : String} {value : Json}
    (plain : (ascii name).flatMap JsonUtil.escapeByte = ascii name)
    (reads : Json.Reads text value) : ReadsField (writeField name text) (ascii name, value) := by
  have quote : ascii "\"" = [byte '"'] := rfl
  have colon : ascii "\":" = byte '"' :: ascii ":" := rfl
  refine ⟨text, ?_, reads⟩
  simp [writeField, appendJsonKey, JsonUtil.appendJsonString, plain, quote, colon]

theorem valid_writeField {name : String} (plain : (ascii name).all Utf8.isAscii = true)
    (text : Bytes) : Utf8.valid (writeField name text) = Utf8.valid text := by
  have quote : (ascii "\"").all Utf8.isAscii = true := rfl
  have colon : (ascii "\":").all Utf8.isAscii = true := rfl
  rw [writeField, List.append_assoc, List.append_assoc, Utf8.valid_append quote,
    Utf8.valid_append plain, Utf8.valid_append colon]

theorem valid_writeObject (fields : List Bytes) :
    Utf8.valid (writeObject fields) = fields.all Utf8.valid :=
  JsonUtil.valid_appendJsonFields fields

/-- What the fields of a step denote. -/
def stepMembers (step : TaskStep) : ObjectMap :=
  [(ascii "index", intJson step.index),
    (ascii "id", .string step.id),
    (ascii "title", .string (if 0 < step.title.length then step.title else step.description)),
    (ascii "description", .string step.description),
    (ascii "status", .string step.status.toSlice),
    (ascii "expected_tool", optionalJson step.expected_tool),
    (ascii "actual_tool", optionalJson step.actual_tool),
    (ascii "result_summary", optionalJson step.result_summary),
    (ascii "error_summary", optionalJson step.error_summary)]

/-- What the fields of a plan denote. -/
def planMembers (plan : TaskPlan) : ObjectMap :=
  [(ascii "schema", .string (ascii "nullalis.task_plan.v1")),
    (ascii "plan_id", .string plan.plan_id),
    (ascii "session_key", .string plan.session_key),
    (ascii "run_id", .string plan.run_id),
    (ascii "summary", .string plan.summary),
    (ascii "current_step", intJson plan.current_step),
    (ascii "status", .string plan.status.toSlice),
    (ascii "created_at_ms", intJson plan.created_at_ms.toInt),
    (ascii "updated_at_ms", intJson plan.updated_at_ms.toInt),
    (ascii "revision", intJson plan.revision),
    (ascii "supersedes_plan_id", optionalJson plan.supersedes_plan_id),
    (ascii "steps", .array (plan.steps.map fun step => .object (stepMembers step)))]

theorem nodup_stepMembers (step : TaskStep) : ((stepMembers step).map Prod.fst).Nodup := by
  have names : (stepMembers step).map Prod.fst =
      ["index", "id", "title", "description", "status", "expected_tool", "actual_tool",
        "result_summary", "error_summary"].map ascii := rfl
  rw [names]
  decide

theorem nodup_planMembers (plan : TaskPlan) : ((planMembers plan).map Prod.fst).Nodup := by
  have names : (planMembers plan).map Prod.fst =
      ["schema", "plan_id", "session_key", "run_id", "summary", "current_step", "status",
        "created_at_ms", "updated_at_ms", "revision", "supersedes_plan_id", "steps"].map ascii :=
    rfl
  rw [names]
  decide

theorem reads_step (step : TaskStep) :
    Json.Reads (writeObject (stepFields step)) (.object (stepMembers step)) := by
  have fields : List.Forall₂ ReadsField (stepFields step) (stepMembers step) :=
    .cons (readsField_writeField rfl (reads_decimal _)) <|
      .cons (readsField_writeField rfl (reads_writeJsonString _)) <|
      .cons (readsField_writeField rfl (reads_writeJsonString _)) <|
      .cons (readsField_writeField rfl (reads_writeJsonString _)) <|
      .cons (readsField_writeField rfl (reads_writeJsonString _)) <|
      .cons (readsField_writeField rfl (reads_writeOptional _)) <|
      .cons (readsField_writeField rfl (reads_writeOptional _)) <|
      .cons (readsField_writeField rfl (reads_writeOptional _)) <|
      .cons (readsField_writeField rfl (reads_writeOptional _)) .nil
  exact JsonUtil.reads_appendJsonFields fields (List.cons_ne_nil _ _) (nodup_stepMembers step)

theorem readsItems_steps {steps : List TaskStep} (nonempty : steps ≠ []) :
    Json.ReadsItems
      (List.intercalate (ascii ",") (steps.map fun step => writeObject (stepFields step)) ++
        ascii "]")
      (steps.map fun step => .object (stepMembers step)) := by
  induction steps with
  | nil => exact absurd rfl nonempty
  | cons step rest ih =>
      cases rest with
      | nil =>
          have blank : ([] : Bytes).all Json.isBlank = true := rfl
          have last := Json.ReadsItems.last (reads_step step) blank
          simpa [ascii, List.intercalate] using last
      | cons second rest =>
          have more := Json.ReadsItems.cons (reads_step step) (ih (List.cons_ne_nil _ _))
          simpa [ascii, List.intercalate] using more

theorem reads_plan (nonempty : plan.steps ≠ []) :
    Json.Reads (serializePlan plan) (.object (planMembers plan)) := by
  have steps : Json.Reads
      (ascii "[" ++ List.intercalate (ascii ",") (plan.steps.map fun step =>
        writeObject (stepFields step)) ++ ascii "]")
      (.array (plan.steps.map fun step => .object (stepMembers step))) := by
    rw [List.append_assoc]
    exact .array (readsItems_steps nonempty)
  have schema : Json.Reads (ascii "\"nullalis.task_plan.v1\"")
      (.string (ascii "nullalis.task_plan.v1")) :=
    reads_writeJsonString (ascii "nullalis.task_plan.v1")
  have fields : List.Forall₂ ReadsField (planFields plan) (planMembers plan) :=
    .cons (readsField_writeField rfl schema) <|
      .cons (readsField_writeField rfl (reads_writeJsonString _)) <|
      .cons (readsField_writeField rfl (reads_writeJsonString _)) <|
      .cons (readsField_writeField rfl (reads_writeJsonString _)) <|
      .cons (readsField_writeField rfl (reads_writeJsonString _)) <|
      .cons (readsField_writeField rfl (reads_decimal _)) <|
      .cons (readsField_writeField rfl (reads_writeJsonString _)) <|
      .cons (readsField_writeField rfl (.int _)) <|
      .cons (readsField_writeField rfl (.int _)) <|
      .cons (readsField_writeField rfl (reads_decimal _)) <|
      .cons (readsField_writeField rfl (reads_writeOptional _)) <|
      .cons (readsField_writeField rfl steps) .nil
  exact JsonUtil.reads_appendJsonFields fields (List.cons_ne_nil _ _) (nodup_planMembers plan)

/-!
## Loading
-/

section Fields

variable {obj : ObjectMap} {key : Bytes}

theorem jsonString_of_get? (found : Json.get? obj key = some (.string text)) :
    jsonString obj key = some text := by
  rw [jsonString, found]
  rfl

theorem jsonOptionalString_of_get? {text : Option Bytes}
    (found : Json.get? obj key = some (optionalJson text)) :
    jsonOptionalString obj key = text.filter fun text => 0 < text.length := by
  rw [jsonOptionalString, jsonString, found]
  cases text <;> rfl

theorem jsonU64_of_get? {number default_value : ℕ}
    (found : Json.get? obj key = some (intJson number)) :
    jsonU64 obj key default_value = if number < 2 ^ 63 then number else default_value := by
  rw [jsonU64, found, Option.bind_some]
  by_cases small : number < 2 ^ 63
  · have read : (intJson number).integer? = some (number : ℤ) :=
      Json.integer?_decimalInt (by omega) (by omega)
    rw [read, if_pos small]
    simp
  · have unread : (intJson number).integer? = none := by
      have outside : ¬(-2 ^ 63 ≤ (number : ℤ) ∧ (number : ℤ) ≤ 2 ^ 63 - 1) := by omega
      rw [intJson, Json.integer?]
      split
      · rfl
      · exact Bytes.parseInt_decimalInt_of_not outside
    rw [unread, if_neg small]

theorem jsonI64_of_get? {value default_value : Int64}
    (found : Json.get? obj key = some (intJson value.toInt)) :
    jsonI64 obj key default_value = value := by
  have low := value.le_toInt
  have high := value.toInt_lt
  have read : (intJson value.toInt).integer? = some value.toInt :=
    Json.integer?_decimalInt low (by omega)
  rw [jsonI64, found, Option.bind_some, read]
  exact Int64.ofInt_toInt value

end Fields

@[simp]
theorem fromSlice_toSlice_step (status : StepStatus) : .fromSlice status.toSlice = status := by
  cases status <;> rfl

@[simp]
theorem fromSlice_toSlice_plan (status : PlanStatus) : .fromSlice status.toSlice = status := by
  cases status <;> rfl

/-- A text that may be null, with null for the empty text. -/
def unempty (text : Option Bytes) : Option Bytes :=
  text.filter fun text => 0 < text.length

/-- The step that is loaded in the place of a step. -/
def TaskStep.restored (step : TaskStep) : TaskStep :=
  { step with
    expected_tool := unempty step.expected_tool
    actual_tool := unempty step.actual_tool
    tool_used := unempty step.actual_tool
    result_summary := unempty step.result_summary
    error_summary := unempty step.error_summary }

/-- The plan that is loaded in the place of a plan. -/
def TaskPlan.restored (plan : TaskPlan) : TaskPlan :=
  { plan with
    steps := plan.steps.map TaskStep.restored
    current_step := min plan.current_step (plan.steps.length - 1)
    revision := if plan.revision < 2 ^ 63 then plan.revision else 1
    supersedes_plan_id := unempty plan.supersedes_plan_id }

/-- A step says something, and its numbers fit. -/
structure TaskStep.WellFormed (step : TaskStep) : Prop where
  title : step.title = step.description
  filled : step.description ≠ []
  index : step.index < 4294967296

/-- A plan has steps, and not more than can be numbered. -/
structure TaskPlan.WellFormed (plan : TaskPlan) : Prop where
  filled : plan.steps ≠ []
  count : plan.steps.length ≤ 4294967296
  current : plan.current_step ≤ plan.steps.length
  steps : ∀ step ∈ plan.steps, step.WellFormed

theorem requireU32_of_lt {value : ℕ} (small : value < 4294967296) :
    requireU32 value = .ok value := by
  rw [requireU32, intCastU32, if_pos small]

theorem deserializeStep_stepMembers (wellFormed : step.WellFormed) (number : ℕ) :
    deserializeStep number (.object (stepMembers step)) = .ok (some step.restored) := by
  have small := wellFormed.index
  have description : jsonString (stepMembers step) (ascii "description") =
      some step.description := jsonString_of_get? rfl
  have index : jsonU64 (stepMembers step) (ascii "index") number =
      if step.index < 2 ^ 63 then step.index else number := jsonU64_of_get? rfl
  rw [if_pos (by omega)] at index
  have id : jsonString (stepMembers step) (ascii "id") = some step.id := jsonString_of_get? rfl
  have status : jsonString (stepMembers step) (ascii "status") = some step.status.toSlice :=
    jsonString_of_get? rfl
  have expected_tool : jsonOptionalString (stepMembers step) (ascii "expected_tool") =
      unempty step.expected_tool := jsonOptionalString_of_get? rfl
  have actual_tool : jsonOptionalString (stepMembers step) (ascii "actual_tool") =
      unempty step.actual_tool := jsonOptionalString_of_get? rfl
  have result_summary : jsonOptionalString (stepMembers step) (ascii "result_summary") =
      unempty step.result_summary := jsonOptionalString_of_get? rfl
  have error_summary : jsonOptionalString (stepMembers step) (ascii "error_summary") =
      unempty step.error_summary := jsonOptionalString_of_get? rfl
  have filled : step.description.length ≠ 0 := by simpa using wellFormed.filled
  simp only [deserializeStep, description, Option.some_or, if_neg filled, index,
    requireU32_of_lt small, id, status, expected_tool, actual_tool, result_summary, error_summary,
    Option.getD_some, Option.map_some, fromSlice_toSlice_step, TaskStep.restored, wellFormed.title]
  rfl

theorem deserializeSteps_stepMembers {steps : List TaskStep}
    (wellFormed : ∀ step ∈ steps, step.WellFormed) (number : ℕ) :
    deserializeSteps number (steps.map fun step => .object (stepMembers step)) =
      .ok (steps.map TaskStep.restored) := by
  induction steps generalizing number with
  | nil => rfl
  | cons step rest ih =>
      have first := deserializeStep_stepMembers (wellFormed step List.mem_cons_self) number
      have later := ih (fun other mem => wellFormed other (List.mem_cons_of_mem _ mem)) (number + 1)
      simp only [List.map_cons, deserializeSteps, first, later]
      rfl

variable {wyhash : Bytes → UInt64} {now : Int64}

theorem deserializePlan_serializePlan (wellFormed : plan.WellFormed)
    (valid : Utf8.valid (serializePlan plan) = true) :
    deserializePlan wyhash (serializePlan plan) now = .ok (some plan.restored) := by
  have blank : ([] : Bytes).all Json.isBlank = true := rfl
  have parsed : Json.parse (serializePlan plan) = some (.object (planMembers plan)) := by
    have reads := Json.parse_of_reads (reads_plan wellFormed.filled) blank
    simpa [valid] using reads
  have summary : jsonString (planMembers plan) (ascii "summary") = some plan.summary :=
    jsonString_of_get? rfl
  have items : Json.get? (planMembers plan) (ascii "steps") =
      some (.array (plan.steps.map fun step => .object (stepMembers step))) := rfl
  have steps := deserializeSteps_stepMembers wellFormed.steps 0
  have counted : plan.steps.length ≠ 0 := by simpa using wellFormed.filled
  have reached := wellFormed.current
  have count := wellFormed.count
  have current : jsonU64 (planMembers plan) (ascii "current_step") 0 =
      if plan.current_step < 2 ^ 63 then plan.current_step else 0 := jsonU64_of_get? rfl
  rw [if_pos (by omega)] at current
  have last : min plan.current_step (plan.steps.length - 1) < 4294967296 := by omega
  have plan_id : jsonString (planMembers plan) (ascii "plan_id") = some plan.plan_id :=
    jsonString_of_get? rfl
  have session_key : jsonString (planMembers plan) (ascii "session_key") = some plan.session_key :=
    jsonString_of_get? rfl
  have run_id : jsonString (planMembers plan) (ascii "run_id") = some plan.run_id :=
    jsonString_of_get? rfl
  have status : jsonString (planMembers plan) (ascii "status") = some plan.status.toSlice :=
    jsonString_of_get? rfl
  have created : jsonI64 (planMembers plan) (ascii "created_at_ms") now = plan.created_at_ms :=
    jsonI64_of_get? rfl
  have updated : jsonI64 (planMembers plan) (ascii "updated_at_ms") now = plan.updated_at_ms :=
    jsonI64_of_get? rfl
  have revision : jsonU64 (planMembers plan) (ascii "revision") 1 =
      if plan.revision < 2 ^ 63 then plan.revision else 1 := jsonU64_of_get? rfl
  have supersedes : jsonOptionalString (planMembers plan) (ascii "supersedes_plan_id") =
      unempty plan.supersedes_plan_id := jsonOptionalString_of_get? rfl
  simp only [deserializePlan, parsed, summary, items, List.length_map, if_neg counted, steps,
    current, requireU32_of_lt last, plan_id, session_key, run_id, status, created, updated,
    revision, supersedes, Option.getD_some, Option.map_some, fromSlice_toSlice_plan, bind,
    Except.bind, pure, Except.pure, TaskPlan.restored]

/-!
## Round trips
-/

def TaskStep.serialized (step : TaskStep) : TaskStep :=
  { step with tool_used := none }

def TaskPlan.serialized (plan : TaskPlan) : TaskPlan :=
  { plan with steps := plan.steps.map TaskStep.serialized }

/-- The plan that is loaded has the fields that were saved. -/
def RoundTrips (wyhash : Bytes → UInt64) (now : Int64) (plan : TaskPlan) : Prop :=
  ∃ loaded, deserializePlan wyhash (serializePlan plan) now = .ok (some loaded) ∧
    loaded.serialized = plan.serialized

/-- A text that may be null is UTF-8 and no empty text. -/
def Kept (text : Option Bytes) : Prop :=
  ∀ value ∈ text, value ≠ [] ∧ Utf8.valid value = true

/-- A step is saved as it is: its texts are UTF-8, and those that may be null are not empty. -/
structure TaskStep.Restorable (step : TaskStep) : Prop where
  id : Utf8.valid step.id = true
  description : Utf8.valid step.description = true
  expected_tool : Kept step.expected_tool
  actual_tool : Kept step.actual_tool
  result_summary : Kept step.result_summary
  error_summary : Kept step.error_summary

/-- A plan is saved as it is: in addition a step is still to be done, and the revision fits. -/
structure TaskPlan.Restorable (plan : TaskPlan) : Prop where
  plan_id : Utf8.valid plan.plan_id = true
  session_key : Utf8.valid plan.session_key = true
  run_id : Utf8.valid plan.run_id = true
  summary : Utf8.valid plan.summary = true
  current_step : plan.current_step < plan.steps.length
  revision : plan.revision < 2 ^ 63
  supersedes_plan_id : Kept plan.supersedes_plan_id
  steps : ∀ step ∈ plan.steps, step.Restorable

theorem kept_iff (text : Option Bytes) :
    Kept text ↔ text.all Utf8.valid = true ∧ unempty text = text := by
  cases text with
  | none => simp [Kept, unempty]
  | some text => cases text <;> simp [Kept, unempty]

theorem valid_step (wellFormed : step.WellFormed) :
    Utf8.valid (writeObject (stepFields step)) =
      (Utf8.valid step.id && Utf8.valid step.description && step.expected_tool.all Utf8.valid &&
        step.actual_tool.all Utf8.valid && step.result_summary.all Utf8.valid &&
        step.error_summary.all Utf8.valid) := by
  have index : Utf8.valid (Bytes.decimal step.index) = true := by
    rw [decimal_eq_decimalInt]
    exact JsonUtil.valid_decimalInt _
  have status : Utf8.valid step.status.toSlice = true := by
    cases step.status <;> decide
  simp (disch := decide) only [valid_writeObject, stepFields, List.all_cons, List.all_nil,
    valid_writeField, valid_writeJsonString, valid_writeOptional, wellFormed.title, ite_self,
    index, status, Bool.and_true, Bool.true_and, Bool.and_assoc, Bool.and_self_left]

theorem valid_serializePlan (plan : TaskPlan) :
    Utf8.valid (serializePlan plan) =
      (Utf8.valid plan.plan_id && Utf8.valid plan.session_key && Utf8.valid plan.run_id &&
        Utf8.valid plan.summary && plan.supersedes_plan_id.all Utf8.valid &&
        plan.steps.all fun step => Utf8.valid (writeObject (stepFields step))) := by
  have number (value : ℕ) : Utf8.valid (Bytes.decimal value) = true := by
    rw [decimal_eq_decimalInt]
    exact JsonUtil.valid_decimalInt _
  have schema : Utf8.valid (ascii "\"nullalis.task_plan.v1\"") = true := by decide
  have status : Utf8.valid plan.status.toSlice = true := by
    cases plan.status <;> decide
  have steps : Utf8.valid (ascii "[" ++ List.intercalate (ascii ",") (plan.steps.map fun step =>
      writeObject (stepFields step)) ++ ascii "]") =
        plan.steps.all fun step => Utf8.valid (writeObject (stepFields step)) := by
    have opened : (ascii "[").all Utf8.isAscii = true := rfl
    have closed (text : Bytes) : Utf8.valid (text ++ ascii "]") = Utf8.valid text := by
      have cut : Utf8.valid (text ++ byte ']' :: []) = (Utf8.valid text && Utf8.valid []) :=
        Utf8.valid_append_cons rfl
      rwa [Utf8.valid_nil, Bool.and_true] at cut
    have separated (texts : List Bytes) :
        Utf8.valid (List.intercalate (ascii ",") texts) = texts.all Utf8.valid :=
      JsonUtil.valid_intercalate rfl rfl texts
    rw [closed, Utf8.valid_append opened, separated, List.all_map]
    rfl
  simp (disch := decide) only [serializePlan, valid_writeObject, planFields, List.all_cons,
    List.all_nil, valid_writeField, valid_writeJsonString, valid_writeOptional, number, schema,
    status, steps, JsonUtil.valid_decimalInt, Bool.and_true, Bool.true_and, Bool.and_assoc]

theorem restorable_step_iff (wellFormed : step.WellFormed) :
    step.Restorable ↔ Utf8.valid (writeObject (stepFields step)) = true ∧
      step.restored.serialized = step.serialized := by
  rw [valid_step wellFormed]
  constructor
  case mp =>
      intro restorable
      have expected_tool := (kept_iff _).mp restorable.expected_tool
      have actual_tool := (kept_iff _).mp restorable.actual_tool
      have result_summary := (kept_iff _).mp restorable.result_summary
      have error_summary := (kept_iff _).mp restorable.error_summary
      constructor
      · simp [restorable.id, restorable.description, expected_tool.1, actual_tool.1,
          result_summary.1, error_summary.1]
      · simp [TaskStep.restored, TaskStep.serialized, expected_tool.2, actual_tool.2,
          result_summary.2, error_summary.2]
  case mpr =>
      intro same
      rcases same with ⟨valid, same⟩
      simp only [Bool.and_eq_true] at valid
      rcases valid with ⟨⟨⟨⟨⟨id, description⟩, expected_tool⟩, actual_tool⟩, result_summary⟩,
        error_summary⟩
      simp only [TaskStep.restored, TaskStep.serialized, TaskStep.mk.injEq, true_and] at same
      rcases same with ⟨sameExpected, sameActual, sameResult, sameError⟩
      exact ⟨id, description, (kept_iff _).mpr ⟨expected_tool, sameExpected⟩,
        (kept_iff _).mpr ⟨actual_tool, sameActual⟩, (kept_iff _).mpr ⟨result_summary, sameResult⟩,
        (kept_iff _).mpr ⟨error_summary, sameError⟩⟩

/-- A restorable plan is UTF-8 and loaded as it is. -/
theorem restorable_iff (wellFormed : plan.WellFormed) :
    plan.Restorable ↔ Utf8.valid (serializePlan plan) = true ∧
      plan.restored.serialized = plan.serialized := by
  have counted : 0 < plan.steps.length := List.length_pos_iff.mpr wellFormed.filled
  rw [valid_serializePlan]
  constructor
  case mp =>
      intro restorable
      have supersedes := (kept_iff _).mp restorable.supersedes_plan_id
      have current := restorable.current_step
      have first : min plan.current_step (plan.steps.length - 1) = plan.current_step := by omega
      have known (step : TaskStep) (mem : step ∈ plan.steps) :=
        (restorable_step_iff (wellFormed.steps step mem)).mp (restorable.steps step mem)
      have steps :
          plan.steps.all (fun step => Utf8.valid (writeObject (stepFields step))) = true := by
        rw [List.all_eq_true]
        intro step mem
        exact (known step mem).1
      constructor
      · simp [restorable.plan_id, restorable.session_key, restorable.run_id, restorable.summary,
          supersedes.1, steps]
      · have same : plan.steps.map (fun step => step.restored.serialized) =
            plan.steps.map TaskStep.serialized :=
          List.map_inj_left.mpr fun step mem => (known step mem).2
        have fits : (if plan.revision < 2 ^ 63 then plan.revision else 1) = plan.revision :=
          if_pos restorable.revision
        simp only [TaskPlan.restored, TaskPlan.serialized, supersedes.2, first, fits, List.map_map,
          Function.comp_def, same]
  case mpr =>
      intro same
      rcases same with ⟨valid, same⟩
      simp only [Bool.and_eq_true] at valid
      rcases valid with ⟨⟨⟨⟨⟨plan_id, session_key⟩, run_id⟩, summary⟩, supersedes⟩, steps⟩
      simp only [TaskPlan.restored, TaskPlan.serialized, TaskPlan.mk.injEq, true_and, List.map_map]
        at same
      rcases same with ⟨sameSteps, sameCurrent, sameRevision, sameSupersedes⟩
      have current : plan.current_step < plan.steps.length := by omega
      have revision : plan.revision < 2 ^ 63 := by
        split at sameRevision <;> omega
      refine ⟨plan_id, session_key, run_id, summary, current, revision,
        (kept_iff _).mpr ⟨supersedes, sameSupersedes⟩, ?_⟩
      intro step mem
      rw [List.all_eq_true] at steps
      exact (restorable_step_iff (wellFormed.steps step mem)).mpr
        ⟨steps step mem, List.map_inj_left.mp sameSteps step mem⟩

theorem roundTrips_iff (wellFormed : plan.WellFormed) :
    RoundTrips wyhash now plan ↔ plan.Restorable := by
  rw [restorable_iff wellFormed, RoundTrips]
  cases valid : Utf8.valid (serializePlan plan) with
  | false =>
      have unread : deserializePlan wyhash (serializePlan plan) now = .error .SyntaxError := by
        rw [deserializePlan, Json.parse_of_not_valid valid]
      simp [unread]
  | true => simp [deserializePlan_serializePlan wellFormed valid]

/-!
## Parsed plans
-/

theorem wellFormed_stepOfTag {trimmed : Bytes} {tag : TagPosition} {count : ℕ}
    (described : stepOfTag trimmed tag count = some (some step)) :
    count < 4294967296 ∧ step.WellFormed := by
  simp only [stepOfTag] at described
  split at described
  · cases described
  · rename_i filled
    simp only [Option.bind_eq_bind, Option.bind_eq_some_iff, intCastU32] at described
    rcases described with ⟨index, fits, described⟩
    split at fits
    · cases fits
      cases described
      rename_i small
      exact ⟨small, rfl, by simpa using filled, small⟩
    · cases fits

theorem parseSteps_induction {trimmed : Bytes} {motive : List TaskStep → Prop}
    (more : ∀ tag steps step, motive steps →
      stepOfTag trimmed tag steps.length = some (some step) → motive (steps ++ [step]))
    {fuel cursor : ℕ} {steps parsed : List TaskStep} (start : motive steps)
    (found : parseSteps trimmed fuel cursor steps = some parsed) : motive parsed := by
  induction fuel generalizing cursor steps with
  | zero =>
      cases found
      exact start
  | succ fuel ih =>
      rw [parseSteps] at found
      split at found
      case h_1 =>
          cases found
          exact start
      case h_2 tag _ =>
          simp only [Option.bind_eq_bind, Option.bind_eq_some_iff] at found
          rcases found with ⟨described, shape, found⟩
          have next : motive (steps ++ described.toList) := by
            cases described with
            | none => simpa using start
            | some step => exact more tag steps step start shape
          split at found
          · cases found
            exact next
          · exact ih next found

theorem wellFormed_parseSteps {trimmed : Bytes} {fuel cursor : ℕ} {steps parsed : List TaskStep}
    (count : steps.length ≤ 4294967296) (wellFormed : ∀ step ∈ steps, step.WellFormed)
    (found : parseSteps trimmed fuel cursor steps = some parsed) :
    parsed.length ≤ 4294967296 ∧ ∀ step ∈ parsed, step.WellFormed := by
  apply parseSteps_induction (motive := fun steps : List TaskStep =>
    steps.length ≤ 4294967296 ∧ ∀ step ∈ steps, step.WellFormed) ?_ ⟨count, wellFormed⟩ found
  rintro tag steps step ⟨count, wellFormed⟩ described
  have known := wellFormed_stepOfTag described
  constructor
  · rw [List.length_append, List.length_singleton]
    omega
  · intro other mem
    rcases List.mem_append.mp mem with earlier | last
    · exact wellFormed other earlier
    · rw [List.mem_singleton] at last
      exact last ▸ known.2

theorem wellFormed_parseTaskPlan {plan_xml : Bytes}
    (parsed : parseTaskPlan wyhash plan_xml now = some plan) : plan.WellFormed := by
  simp only [parseTaskPlan, Option.bind_eq_bind, Option.pure_def] at parsed
  split at parsed
  · cases parsed
  · rcases Option.bind_eq_some_iff.mp parsed with ⟨tag, _, parsed⟩
    split at parsed
    · cases parsed
    · rcases Option.bind_eq_some_iff.mp parsed with ⟨steps, found, parsed⟩
      split at parsed
      · cases parsed
      · rename_i filled
        cases parsed
        have known := wellFormed_parseSteps (Nat.zero_le _) (fun _ mem => by cases mem) found
        exact ⟨by simpa using filled, known.1, Nat.zero_le _, known.2⟩

/-!
## Changes
-/

theorem wellFormed_modify {steps : List TaskStep} {index : ℕ} {change : TaskStep → TaskStep}
    (kept : ∀ step : TaskStep, step.WellFormed → (change step).WellFormed)
    (wellFormed : ∀ step ∈ steps, step.WellFormed) :
    ∀ step ∈ steps.modify index change, step.WellFormed := by
  induction steps generalizing index with
  | nil => simp
  | cons first rest ih =>
      have later := fun other mem => wellFormed other (List.mem_cons_of_mem _ mem)
      cases index with
      | zero =>
          rw [List.modify_zero_cons, List.forall_mem_cons]
          exact ⟨kept first (wellFormed first List.mem_cons_self), later⟩
      | succ index =>
          rw [List.modify_succ_cons, List.forall_mem_cons]
          exact ⟨wellFormed first List.mem_cons_self, ih later⟩

namespace TaskPlan

theorem WellFormed.touch (wellFormed : plan.WellFormed) (now : Int64) :
    (plan.touch now).WellFormed :=
  ⟨wellFormed.filled, wellFormed.count, wellFormed.current, wellFormed.steps⟩

theorem WellFormed.refreshStatus (wellFormed : plan.WellFormed) :
    plan.refreshStatus.WellFormed := by
  unfold TaskPlan.refreshStatus
  repeat' split
  all_goals exact ⟨wellFormed.filled, wellFormed.count, wellFormed.current, wellFormed.steps⟩

theorem WellFormed.modify {after : TaskPlan} {index : ℕ} {change : TaskStep → TaskStep}
    (wellFormed : plan.WellFormed) (steps : after.steps = plan.steps.modify index change)
    (current : after.current_step ≤ plan.steps.length)
    (same : ∀ step, (change step).title = step.title ∧
      (change step).description = step.description ∧ (change step).index = step.index) :
    after.WellFormed := by
  have length : after.steps.length = plan.steps.length := by
    rw [steps, List.length_modify]
  have kept (step : TaskStep) (known : step.WellFormed) : (change step).WellFormed := by
    rcases same step with ⟨title, description, index⟩
    constructor
    · rw [title, description]
      exact known.title
    · rw [description]
      exact known.filled
    · rw [index]
      exact known.index
  refine ⟨?_, ?_, ?_, ?_⟩
  · rw [← List.length_pos_iff, length]
    exact List.length_pos_iff.mpr wellFormed.filled
  · rw [length]
    exact wellFormed.count
  · rw [length]
    exact current
  · rw [steps]
    exact wellFormed_modify kept wellFormed.steps

/-- Every change keeps a plan well-formed. -/
theorem wellFormed_step {action : PlanAction} (wellFormed : plan.WellFormed) :
    (plan.step action).WellFormed := by
  cases action with
  | markStepRunning now =>
      apply WellFormed.touch
      exact wellFormed.modify rfl wellFormed.current fun _ => ⟨rfl, rfl, rfl⟩
  | markStepRunningWithTool step_index tool_name now =>
      simp only [TaskPlan.step, markStepRunningWithTool]
      split
      · exact wellFormed
      · apply WellFormed.touch
        exact wellFormed.modify rfl wellFormed.current fun _ => ⟨rfl, rfl, rfl⟩
  | markStepDone now =>
      apply WellFormed.touch
      apply WellFormed.refreshStatus
      exact wellFormed.modify rfl wellFormed.current fun _ => ⟨rfl, rfl, rfl⟩
  | markStepDoneWithResult step_index tool_name result_summary now =>
      simp only [TaskPlan.step, markStepDoneWithResult]
      split
      case isTrue => exact wellFormed
      case isFalse inside =>
          apply WellFormed.touch
          apply WellFormed.refreshStatus
          exact wellFormed.modify rfl (Nat.le_of_not_le inside) fun _ => ⟨rfl, rfl, rfl⟩
  | markStepFailed now =>
      apply WellFormed.touch
      apply WellFormed.refreshStatus
      exact wellFormed.modify rfl wellFormed.current fun _ => ⟨rfl, rfl, rfl⟩
  | markStepFailedWithError step_index tool_name error_summary now =>
      simp only [TaskPlan.step, markStepFailedWithError]
      split
      case isTrue => exact wellFormed
      case isFalse inside =>
          apply WellFormed.touch
          apply WellFormed.refreshStatus
          exact wellFormed.modify rfl (Nat.le_of_not_le inside) fun _ => ⟨rfl, rfl, rfl⟩
  | advanceStep now =>
      apply WellFormed.touch
      apply WellFormed.refreshStatus
      split
      case isTrue inside =>
          exact ⟨wellFormed.filled, wellFormed.count, inside, wellFormed.steps⟩
      case isFalse => exact wellFormed
  | bindPlanToSession session_key run_id supersedes_plan_id now =>
      apply WellFormed.touch
      exact ⟨wellFormed.filled, wellFormed.count, wellFormed.current, wellFormed.steps⟩

theorem WellFormed.run (wellFormed : plan.WellFormed) (actions : List PlanAction) :
    (plan.run actions).WellFormed := by
  induction actions generalizing plan with
  | nil => exact wellFormed
  | cons action rest ih => exact ih (wellFormed_step wellFormed)

end TaskPlan

/-- A plan that was parsed and changed round-trips exactly if it is restorable. -/
theorem plan_round_trip_iff {plan_xml : Bytes} {loaded_at : Int64} {actions : List PlanAction}
    (parsed : parseTaskPlan wyhash plan_xml now = some plan) :
    RoundTrips wyhash loaded_at (plan.run actions) ↔ (plan.run actions).Restorable :=
  roundTrips_iff ((wellFormed_parseTaskPlan parsed).run actions)

def onePlan : Bytes :=
  ascii "<summary>Ship</summary><step>Build</step>"

/-- The plan that is parsed from it. -/
def parsedPlan : TaskPlan where
  plan_id := ascii "plan-0"
  session_key := []
  run_id := []
  summary := ascii "Ship"
  steps :=
    [{ index := 0
       id := ascii "1"
       title := ascii "Build"
       description := ascii "Build"
       status := .pending
       expected_tool := none
       actual_tool := none
       tool_used := none
       result_summary := none
       error_summary := none }]
  current_step := 0
  status := .active
  created_at_ms := 1
  updated_at_ms := 1
  revision := 1
  supersedes_plan_id := none

theorem parseTaskPlan_onePlan : parseTaskPlan (fun _ => 0) onePlan 1 = some parsedPlan := by
  rfl

theorem plan_round_trip_onePlan :
    RoundTrips (fun _ => 0) 9
      (parsedPlan.run [.markStepDoneWithResult 0 (some (ascii "shell")) (some (ascii "ok")) 2]) := by
  apply (plan_round_trip_iff parseTaskPlan_onePlan).mpr
  refine ⟨by decide, by decide, by decide, by decide, by decide, by decide, ?_, ?_⟩
  · intro text mem
    cases mem
  · intro step mem
    rcases List.mem_singleton.mp mem with rfl
    refine ⟨by decide, by decide, ?_, ?_, ?_, ?_⟩ <;> intro text mem <;> cases mem <;> decide

/-- A marking operation whose texts are UTF-8. -/
def PlanAction.Marks : PlanAction → Prop
  | .markStepRunningWithTool _ tool_name _ => tool_name.all Utf8.valid = true
  | .markStepDoneWithResult _ tool_name result_summary _ =>
      tool_name.all Utf8.valid = true ∧ result_summary.all Utf8.valid = true
  | .markStepFailedWithError _ tool_name error_summary _ =>
      tool_name.all Utf8.valid = true ∧ error_summary.all Utf8.valid = true
  | .bindPlanToSession _ _ _ _ => False
  | _ => True

def longSummary : Bytes :=
  List.replicate 159 (byte 'a') ++ [0xC3, 0xA9]

/-- Not every plan round-trips: a summary that is cut within a character is not UTF-8. -/
theorem not_plan_round_trip :
    ¬ ∀ wyhash plan_xml now plan actions loaded_at, Utf8.valid plan_xml = true →
      parseTaskPlan wyhash plan_xml now = some plan → (∀ action ∈ actions, action.Marks) →
        RoundTrips wyhash loaded_at (plan.run actions) := by
  intro roundTrip
  have marks : ∀ action ∈ [PlanAction.markStepDoneWithResult 0 none (some longSummary) 2],
      action.Marks := by
    intro action mem
    rcases List.mem_singleton.mp mem with rfl
    exact ⟨rfl, by decide +kernel⟩
  have kept := roundTrip _ onePlan 1 parsedPlan _ 9 (by decide) parseTaskPlan_onePlan marks
  have wellFormed := TaskPlan.WellFormed.run (wellFormed_parseTaskPlan parseTaskPlan_onePlan)
    [.markStepDoneWithResult 0 none (some longSummary) 2]
  have restorable := (roundTrips_iff wellFormed).mp kept
  have valid := (restorable.steps _ List.mem_cons_self).result_summary
    (dupeBoundedSummary longSummary) rfl
  exact absurd valid.2 (by decide +kernel)

end Nullalis.Agent
