import Nullalis.Base.Radix
import Nullalis.JsonUtil

/-!
# Task plans

A plan is parsed from the block of tags in which the model writes it. While its steps are carried
out they are marked with the tool that was used and with a summary of what it said. The plan is
saved as a JSON text after each change and read back when the session goes on.

The hash that names a plan is a parameter. Observer events and the block that renders a plan are
left out.
-/

namespace Nullalis.Agent

inductive StepStatus where
  | pending
  | running
  | done
  | failed
deriving DecidableEq

namespace StepStatus

def toSlice : StepStatus → Bytes
  | .pending => ascii "pending"
  | .running => ascii "running"
  | .done => ascii "done"
  | .failed => ascii "failed"

/-- The status of a name (`stepStatusFromSlice`). -/
def fromSlice (name : Bytes) : StepStatus :=
  if name = ascii "running" then .running
  else if name = ascii "done" then .done
  else if name = ascii "failed" then .failed
  else .pending

end StepStatus

inductive PlanStatus where
  | active
  | completed
  | failed
  | abandoned
deriving DecidableEq

namespace PlanStatus

def toSlice : PlanStatus → Bytes
  | .active => ascii "active"
  | .completed => ascii "completed"
  | .failed => ascii "failed"
  | .abandoned => ascii "abandoned"

def fromSlice (name : Bytes) : PlanStatus :=
  if name = ascii "completed" then .completed
  else if name = ascii "failed" then .failed
  else if name = ascii "abandoned" then .abandoned
  else .active

end PlanStatus

def PLAN_RESULT_SUMMARY_LIMIT : ℕ := 160

structure TaskStep where
  index : ℕ
  id : Bytes
  title : Bytes
  description : Bytes
  status : StepStatus
  expected_tool : Option Bytes
  actual_tool : Option Bytes
  tool_used : Option Bytes
  result_summary : Option Bytes
  error_summary : Option Bytes
deriving DecidableEq

structure TaskPlan where
  plan_id : Bytes
  session_key : Bytes
  run_id : Bytes
  summary : Bytes
  steps : List TaskStep
  current_step : ℕ
  status : PlanStatus
  created_at_ms : Int64
  updated_at_ms : Int64
  revision : ℕ
  supersedes_plan_id : Option Bytes
deriving DecidableEq

/-!
## Marking steps
-/

/-- A summary without blanks around it, up to 160 bytes of it. -/
def dupeBoundedSummary (summary : Bytes) : Bytes :=
  (Bytes.trim (ascii " \t\r\n") summary).take PLAN_RESULT_SUMMARY_LIMIT

namespace TaskStep

def runWith (step : TaskStep) (tool_name : Option Bytes) : TaskStep :=
  { step with status := .running, actual_tool := tool_name, tool_used := tool_name }

/-- The step has succeeded. -/
def doneWith (step : TaskStep) (tool_name result_summary : Option Bytes) : TaskStep :=
  { step with
    status := .done
    actual_tool := tool_name
    tool_used := tool_name
    result_summary := result_summary.map dupeBoundedSummary
    error_summary := none }

/-- The step has failed. -/
def failedWith (step : TaskStep) (tool_name error_summary : Option Bytes) : TaskStep :=
  { step with
    status := .failed
    actual_tool := tool_name
    tool_used := tool_name
    error_summary := error_summary.map dupeBoundedSummary }

end TaskStep

namespace TaskPlan

def modifyCurrent (plan : TaskPlan) (change : TaskStep → TaskStep) : TaskPlan :=
  { plan with steps := plan.steps.modify plan.current_step change }

/-- The status that the steps give the plan. -/
def refreshStatus (plan : TaskPlan) : TaskPlan :=
  if plan.steps = [] then { plan with status := .completed }
  else if plan.steps.any fun step => step.status == .pending || step.status == .running then
    { plan with status := .active }
  else if plan.steps.all fun step => step.status == .failed then { plan with status := .failed }
  else { plan with status := .completed }

def touch (plan : TaskPlan) (now : Int64) : TaskPlan :=
  { plan with updated_at_ms := now, revision := plan.revision + 1 }

def markStepRunning (plan : TaskPlan) (now : Int64) : TaskPlan :=
  { plan.modifyCurrent fun step => { step with status := .running } with status := .active }.touch
    now

def markStepRunningWithTool (plan : TaskPlan) (step_index : ℕ) (tool_name : Option Bytes)
    (now : Int64) : TaskPlan :=
  if plan.steps.length ≤ step_index then plan
  else
    { plan with
      steps := plan.steps.modify step_index (·.runWith tool_name)
      status := .active }.touch now

def markStepDone (plan : TaskPlan) (now : Int64) : TaskPlan :=
  (plan.modifyCurrent fun step => { step with status := .done }).refreshStatus.touch now

def markStepDoneWithResult (plan : TaskPlan) (step_index : ℕ)
    (tool_name result_summary : Option Bytes) (now : Int64) : TaskPlan :=
  if plan.steps.length ≤ step_index then plan
  else
    { plan with
      current_step := step_index
      steps := plan.steps.modify step_index
        (·.doneWith tool_name result_summary) }.refreshStatus.touch now

def markStepFailed (plan : TaskPlan) (now : Int64) : TaskPlan :=
  (plan.modifyCurrent fun step => { step with status := .failed }).refreshStatus.touch now

def markStepFailedWithError (plan : TaskPlan) (step_index : ℕ)
    (tool_name error_summary : Option Bytes) (now : Int64) : TaskPlan :=
  if plan.steps.length ≤ step_index then plan
  else
    { plan with
      current_step := step_index
      steps := plan.steps.modify step_index
        (·.failedWith tool_name error_summary) }.refreshStatus.touch now

def advanceStep (plan : TaskPlan) (now : Int64) : TaskPlan :=
  (if plan.current_step < plan.steps.length then
    { plan with current_step := plan.current_step + 1 }
  else plan).refreshStatus.touch now

def bindPlanToSession (plan : TaskPlan) (session_key : Bytes)
    (run_id supersedes_plan_id : Option Bytes) (now : Int64) : TaskPlan :=
  { plan with session_key, run_id := run_id.getD [], supersedes_plan_id }.touch now

end TaskPlan

/-- A change of a plan. -/
inductive PlanAction where
  | markStepRunning (now : Int64)
  | markStepRunningWithTool (step_index : ℕ) (tool_name : Option Bytes) (now : Int64)
  | markStepDone (now : Int64)
  | markStepDoneWithResult (step_index : ℕ) (tool_name result_summary : Option Bytes) (now : Int64)
  | markStepFailed (now : Int64)
  | markStepFailedWithError (step_index : ℕ) (tool_name error_summary : Option Bytes)
      (now : Int64)
  | advanceStep (now : Int64)
  | bindPlanToSession (session_key : Bytes) (run_id supersedes_plan_id : Option Bytes)
      (now : Int64)
deriving DecidableEq

namespace TaskPlan

def step (plan : TaskPlan) : PlanAction → TaskPlan
  | .markStepRunning now => plan.markStepRunning now
  | .markStepRunningWithTool step_index tool_name now =>
      plan.markStepRunningWithTool step_index tool_name now
  | .markStepDone now => plan.markStepDone now
  | .markStepDoneWithResult step_index tool_name result_summary now =>
      plan.markStepDoneWithResult step_index tool_name result_summary now
  | .markStepFailed now => plan.markStepFailed now
  | .markStepFailedWithError step_index tool_name error_summary now =>
      plan.markStepFailedWithError step_index tool_name error_summary now
  | .advanceStep now => plan.advanceStep now
  | .bindPlanToSession session_key run_id supersedes_plan_id now =>
      plan.bindPlanToSession session_key run_id supersedes_plan_id now

def run (plan : TaskPlan) (actions : List PlanAction) : TaskPlan :=
  actions.foldl step plan

end TaskPlan

/-!
## Parsing
-/

/-- `std.ascii.isWhitespace` -/
def isWhitespace (value : UInt8) : Bool :=
  (ascii " \t\n\r").contains value || value == 0x0B || value == 0x0C

def slice (text : Bytes) (start stop : ℕ) : Bytes :=
  (text.take stop).drop start

/-- The position of the first occurrence from a position on (`std.mem.indexOfPos`). -/
def indexOfPos (haystack : Bytes) (start : ℕ) (needle : Bytes) : Option ℕ :=
  (Bytes.indexOf needle (haystack.drop start)).map (start + ·)

/-- Where a tag and what it encloses stand. -/
structure TagPosition where
  open_start : ℕ
  open_end : ℕ
  inner_start : ℕ
  inner_end : ℕ
  next_cursor : ℕ

/-- What a tag encloses. It goes up to the end without a closing tag. -/
def closeTag (haystack : Bytes) (open_start open_end inner_start : ℕ) (close_tag : Bytes) :
    TagPosition :=
  match indexOfPos haystack inner_start close_tag with
  | none =>
      { open_start, open_end, inner_start
        inner_end := haystack.length
        next_cursor := haystack.length }
  | some close_pos =>
      { open_start, open_end, inner_start
        inner_end := close_pos
        next_cursor := close_pos + close_tag.length }

/-- The first pair of these tags. -/
def scanTagPair (haystack : Bytes) (cursor : ℕ) (open_tag close_tag : Bytes) :
    Option TagPosition := do
  let open_pos ← indexOfPos haystack cursor open_tag
  return closeTag haystack open_pos (open_pos + open_tag.length) (open_pos + open_tag.length)
    close_tag

/-- Where the next tag of a step starts. A tag of a longer name is passed over. -/
def findStep (haystack : Bytes) : ℕ → ℕ → Option ℕ
  | 0, _ => none
  | fuel + 1, search_cursor => do
      let candidate ← indexOfPos haystack search_cursor (ascii "<step")
      let after_name := candidate + 5
      if haystack[after_name]?.any fun value => value == byte '>' || isWhitespace value then
        return candidate
      else findStep haystack fuel after_name

/-- The next step. -/
def scanStepTag (haystack : Bytes) (cursor : ℕ) : Option TagPosition := do
  let open_start ← findStep haystack (haystack.length + 1) cursor
  let open_end ← indexOfPos haystack open_start (ascii ">")
  return closeTag haystack open_start open_end (open_end + 1) (ascii "</step>")

/-- The first position from a position on that is no blank. -/
def skipWhitespace (text : Bytes) (start : ℕ) : ℕ :=
  start + ((text.drop start).takeWhile isWhitespace).length

/-- The value of an attribute, from a position of the tag on. -/
def extractFrom (tag name : Bytes) : ℕ → ℕ → Option Bytes
  | 0, _ => none
  | fuel + 1, cursor => do
      if tag.length ≤ cursor then none
      else
        let pos ← indexOfPos tag cursor name
        if 0 < pos ∧ (tag[pos - 1]?.any fun before => !isWhitespace before && before != byte '<')
        then extractFrom tag name fuel (pos + name.length)
        else
          let after_name := skipWhitespace tag (pos + name.length)
          if tag[after_name]? ≠ some (byte '=') then extractFrom tag name fuel (pos + name.length)
          else
            let quote_start := skipWhitespace tag (after_name + 1)
            if tag[quote_start]? ≠ some (byte '"') then none
            else
              let value := tag.drop (quote_start + 1)
              (Bytes.indexOfScalar (byte '"') value).map fun rel_end => value.take rel_end

def extractXmlAttribute (tag name : Bytes) : Option Bytes :=
  extractFrom tag name (tag.length + 1) 0

/-- A number that must fit 32 bits (`@intCast`). -/
def intCastU32 (value : ℕ) : Option ℕ :=
  if value < 4294967296 then some value else none

/-- The step that a tag describes, if it says anything. -/
def stepOfTag (trimmed : Bytes) (tag : TagPosition) (count : ℕ) : Option (Option TaskStep) :=
  let desc_raw := Bytes.trim (ascii " \t\r\n") (slice trimmed tag.inner_start tag.inner_end)
  if desc_raw.length = 0 then some none
  else do
    let open_tag := slice trimmed tag.open_start (tag.open_end + 1)
    let index ← intCastU32 count
    return some
      { index
        id := (extractXmlAttribute open_tag (ascii "id")).getD (Bytes.decimal (count + 1))
        title := desc_raw
        description := desc_raw
        status := .pending
        expected_tool := extractXmlAttribute open_tag (ascii "tool")
        actual_tool := none
        tool_used := none
        result_summary := none
        error_summary := none }

/-- All steps from a position on. There is no result if they are too many to be numbered. -/
def parseSteps (trimmed : Bytes) : ℕ → ℕ → List TaskStep → Option (List TaskStep)
  | 0, _, steps => some steps
  | fuel + 1, cursor, steps =>
      match scanStepTag trimmed cursor with
      | none => some steps
      | some tag => do
          let found ← stepOfTag trimmed tag steps.length
          let steps := steps ++ found.toList
          if trimmed.length ≤ tag.next_cursor then some steps
          else parseSteps trimmed fuel tag.next_cursor steps

variable (wyhash : Bytes → UInt64)

def buildPlanId (plan_xml : Bytes) : Bytes :=
  ascii "plan-" ++ Bytes.radix 16 (wyhash plan_xml).toNat

/-- The plan in the text of a block. -/
def parseTaskPlan (plan_xml : Bytes) (now : Int64) : Option TaskPlan := do
  let trimmed := Bytes.trim (ascii " \t\r\n") plan_xml
  if trimmed.length = 0 then none
  else
    let tag ← scanTagPair trimmed 0 (ascii "<summary>") (ascii "</summary>")
    let summary := Bytes.trim (ascii " \t\r\n") (slice trimmed tag.inner_start tag.inner_end)
    if summary.length = 0 then none
    else
      let steps ← parseSteps trimmed (trimmed.length + 1) 0 []
      if steps.length = 0 then none
      else
        return {
          plan_id := buildPlanId wyhash trimmed
          session_key := []
          run_id := []
          summary
          steps
          current_step := 0
          status := .active
          created_at_ms := now
          updated_at_ms := now
          revision := 1
          supersedes_plan_id := none }

/-!
## Saving
-/

/-- A byte inside of a string. -/
def jsonByte (value : UInt8) : Bytes :=
  if value = byte '"' then ascii "\\\""
  else if value = byte '\\' then ascii "\\\\"
  else if value = byte '\n' then ascii "\\n"
  else if value = byte '\r' then ascii "\\r"
  else if value = byte '\t' then ascii "\\t"
  else if value = 0x08 then ascii "\\b"
  else if value = 0x0C then ascii "\\f"
  else if value < 0x20 then ascii "\\u" ++ Bytes.padLeft (byte '0') 4 (Bytes.radix 16 value.toNat)
  else [value]

def writeJsonString (text : Bytes) : Bytes :=
  ascii "\"" ++ text.flatMap jsonByte ++ ascii "\""

def writeOptional (text : Option Bytes) : Bytes :=
  text.elim (ascii "null") writeJsonString

def writeField (name : String) (value : Bytes) : Bytes :=
  ascii "\"" ++ ascii name ++ ascii "\":" ++ value

def writeObject (fields : List Bytes) : Bytes :=
  ascii "\x7b" ++ List.intercalate (ascii ",") fields ++ ascii "\x7d"

/-- The fields of a step. -/
def stepFields (step : TaskStep) : List Bytes :=
  [writeField "index" (Bytes.decimal step.index),
    writeField "id" (writeJsonString step.id),
    writeField "title"
      (writeJsonString (if 0 < step.title.length then step.title else step.description)),
    writeField "description" (writeJsonString step.description),
    writeField "status" (writeJsonString step.status.toSlice),
    writeField "expected_tool" (writeOptional step.expected_tool),
    writeField "actual_tool" (writeOptional step.actual_tool),
    writeField "result_summary" (writeOptional step.result_summary),
    writeField "error_summary" (writeOptional step.error_summary)]

/-- The fields of a plan. -/
def planFields (plan : TaskPlan) : List Bytes :=
  [writeField "schema" (ascii "\"nullalis.task_plan.v1\""),
    writeField "plan_id" (writeJsonString plan.plan_id),
    writeField "session_key" (writeJsonString plan.session_key),
    writeField "run_id" (writeJsonString plan.run_id),
    writeField "summary" (writeJsonString plan.summary),
    writeField "current_step" (Bytes.decimal plan.current_step),
    writeField "status" (writeJsonString plan.status.toSlice),
    writeField "created_at_ms" (Bytes.decimalInt plan.created_at_ms.toInt),
    writeField "updated_at_ms" (Bytes.decimalInt plan.updated_at_ms.toInt),
    writeField "revision" (Bytes.decimal plan.revision),
    writeField "supersedes_plan_id" (writeOptional plan.supersedes_plan_id),
    writeField "steps"
      (ascii "[" ++ List.intercalate (ascii ",") (plan.steps.map fun step =>
        writeObject (stepFields step)) ++ ascii "]")]

def serializePlan (plan : TaskPlan) : Bytes :=
  writeObject (planFields plan)

/-!
## Loading
-/

/-- What is an object. -/
abbrev ObjectMap := List (Bytes × Json)

section Fields

variable (obj : ObjectMap) (key : Bytes)

def jsonString : Option Bytes :=
  (Json.get? obj key).bind Json.string?

def jsonU64 (default_value : ℕ) : ℕ :=
  match (Json.get? obj key).bind Json.integer? with
  | some value => if 0 ≤ value then value.toNat else default_value
  | none => default_value

def jsonI64 (default_value : Int64) : Int64 :=
  match (Json.get? obj key).bind Json.integer? with
  | some value => Int64.ofInt value
  | none => default_value

def jsonOptionalString : Option Bytes :=
  (jsonString obj key).filter fun text => 0 < text.length

end Fields

/-- Why a plan is not loaded: its text is no JSON, or a number does not fit. -/
inductive PlanError where
  | SyntaxError
  | IntCast
deriving DecidableEq

/-- A number that must fit 32 bits. -/
def requireU32 (value : ℕ) : Except PlanError ℕ :=
  match intCastU32 value with
  | some value => .ok value
  | none => .error .IntCast

/-- The step of an item, unless the item is to be left out. -/
def deserializeStep (number : ℕ) : Json → Except PlanError (Option TaskStep)
  | .object step_obj =>
      match (jsonString step_obj (ascii "description")).or (jsonString step_obj (ascii "title")) with
      | none => .ok none
      | some desc =>
          if desc.length = 0 then .ok none
          else do
            let index ← requireU32 (jsonU64 step_obj (ascii "index") number)
            return some
              { index
                id := (jsonString step_obj (ascii "id")).getD (Bytes.decimal (number + 1))
                title := desc
                description := desc
                status := ((jsonString step_obj (ascii "status")).map .fromSlice).getD .pending
                expected_tool := jsonOptionalString step_obj (ascii "expected_tool")
                actual_tool := jsonOptionalString step_obj (ascii "actual_tool")
                tool_used := jsonOptionalString step_obj (ascii "actual_tool")
                result_summary := jsonOptionalString step_obj (ascii "result_summary")
                error_summary := jsonOptionalString step_obj (ascii "error_summary") }
  | _ => .ok none

/-- The steps of the items from a number on. -/
def deserializeSteps : ℕ → List Json → Except PlanError (List TaskStep)
  | _, [] => .ok []
  | number, item :: rest => do
      let found ← deserializeStep number item
      let steps ← deserializeSteps (number + 1) rest
      return found.toList ++ steps

/-- The plan of a text, if it is one. -/
def deserializePlan (encoded : Bytes) (now_ms : Int64) : Except PlanError (Option TaskPlan) :=
  match Json.parse encoded with
  | none => .error .SyntaxError
  | some (.object root_obj) =>
      match jsonString root_obj (ascii "summary"), Json.get? root_obj (ascii "steps") with
      | some summary, some (.array items) =>
          if items.length = 0 then .ok none
          else do
            let steps ← deserializeSteps 0 items
            if steps.length = 0 then return none
            else
              let current_step ← requireU32
                (min (jsonU64 root_obj (ascii "current_step") 0) (steps.length - 1))
              return some {
                plan_id :=
                  (jsonString root_obj (ascii "plan_id")).getD (buildPlanId wyhash encoded)
                session_key := (jsonString root_obj (ascii "session_key")).getD []
                run_id := (jsonString root_obj (ascii "run_id")).getD []
                summary
                steps
                current_step
                status := ((jsonString root_obj (ascii "status")).map .fromSlice).getD .active
                created_at_ms := jsonI64 root_obj (ascii "created_at_ms") now_ms
                updated_at_ms := jsonI64 root_obj (ascii "updated_at_ms") now_ms
                revision := jsonU64 root_obj (ascii "revision") 1
                supersedes_plan_id :=
                  jsonOptionalString root_obj (ascii "supersedes_plan_id") }
      | _, _ => .ok none
  | some _ => .ok none

end Nullalis.Agent
