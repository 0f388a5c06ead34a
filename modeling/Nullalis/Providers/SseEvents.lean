import Nullalis.Base.Json

/-!
# Events of a stream

A provider streams its answer as server-sent events, of which only the lines with data count.
OpenAI's lines each stand for themselves; Anthropic's are read in the light of the last line that
names an event.

A cast that does not fit, and a field of the wrong kind that is taken for granted, stop the
process. Counts of tokens that are estimated from a length always fit.
-/

namespace Nullalis.Providers

/-- A part of a tool call. -/
structure SseToolCallDelta where
  index : ℕ
  id : Option Bytes
  name : Option Bytes
  arguments : Option Bytes
deriving DecidableEq

/-- The tokens that the provider counted. -/
structure SseUsage where
  prompt_tokens : ℕ := 0
  completion_tokens : ℕ := 0
  total_tokens : ℕ := 0
  reasoning_tokens : ℕ := 0
  cached_tokens : ℕ := 0
deriving DecidableEq

/-- What a line of OpenAI's says. A line that is skipped says nothing. -/
structure SseLineResult where
  text : Option Bytes := none
  reasoning : Option Bytes := none
  tool_call_deltas : List SseToolCallDelta := []
  usage : Option SseUsage := none
  done : Bool := false
deriving DecidableEq

/-- Why a line says nothing. -/
inductive LineError where
  | InvalidSseJson
  | processStops
deriving DecidableEq

/-!
## Fields
-/

/-- The members of an object. -/
abbrev Members := List (Bytes × Json)

/-- The text of a field, empty unless it is a string. -/
def stringField (obj : Members) (name : String) : Bytes :=
  ((Json.get? obj (ascii name)).bind Json.string?).getD []

/-- The members of a field that is an object. -/
def objectField (obj : Members) (name : String) : Option Members :=
  match Json.get? obj (ascii name) with
  | some (.object members) => some members
  | _ => none

/-- The items of a field, if it is an array. -/
def arrayField (obj : Members) (name : String) : List Json :=
  match Json.get? obj (ascii name) with
  | some (.array items) => items
  | _ => []

def nonEmpty (text : Bytes) : Option Bytes :=
  if text.isEmpty then none else some text

/-- `@intCast` to 32 bits -/
def castU32 (value : ℕ) : Except LineError ℕ :=
  if value < 2 ^ 32 then .ok value else .error .processStops

/-- A count of tokens, or the earlier one if the field is not a natural number. -/
def tokenCount (obj : Members) (name : String) (earlier : ℕ) : Except LineError ℕ :=
  match (Json.get? obj (ascii name)).bind Json.integer? with
  | none => .ok earlier
  | some value => if value < 0 then .ok earlier else castU32 value.toNat

def trimReturns (line : Bytes) : Bytes :=
  (line.reverse.dropWhile (· == byte '\r')).reverse

/-- The data of a line. -/
def extractSseDataPayload (line : Bytes) : Option Bytes :=
  if Bytes.startsWith line "data:" then
    some ((line.drop (ascii "data:").length).dropWhile (· == byte ' '))
  else none

/-!
## OpenAI
-/

/-- A part of a tool call, if it says of which. -/
def toolCallDelta : Json → Option SseToolCallDelta
  | .object tool_call_obj => do
      let index ← (Json.get? tool_call_obj (ascii "index")).bind Json.integer?
      if index < 0 then none
      else
        let function_obj := (objectField tool_call_obj "function").getD []
        some {
          index := index.toNat
          id := nonEmpty (stringField tool_call_obj "id")
          name := nonEmpty (stringField function_obj "name")
          arguments := nonEmpty (stringField function_obj "arguments") }
  | _ => none

/-- What one choice adds. -/
structure ChoiceDelta where
  text : Bytes := []
  reasoning : Bytes := []
  tool_calls : List SseToolCallDelta := []

/-- Read a choice. -/
def choiceDelta : Json → ChoiceDelta
  | .object choice_obj =>
      match objectField choice_obj "delta" with
      | none => { reasoning := stringField choice_obj "reasoning" }
      | some delta_obj =>
          { text := stringField delta_obj "content"
            reasoning :=
              stringField choice_obj "reasoning" ++ stringField delta_obj "reasoning_content" ++
                stringField delta_obj "reasoning"
            tool_calls := (arrayField delta_obj "tool_calls").filterMap toolCallDelta }
  | _ => {}

/-- Read what the provider counted. Details are overridden by the same field at the top. -/
def extractUsage (usage_obj : Members) : Except LineError SseUsage := do
  let prompt_tokens ← tokenCount usage_obj "prompt_tokens" 0
  let completion_tokens ← tokenCount usage_obj "completion_tokens" 0
  let total_tokens ← tokenCount usage_obj "total_tokens" 0
  let completion_details := (objectField usage_obj "completion_tokens_details").getD []
  let reasoning_tokens ← tokenCount completion_details "reasoning_tokens" 0
  let reasoning_tokens ← tokenCount usage_obj "reasoning_tokens" reasoning_tokens
  let prompt_details := (objectField usage_obj "prompt_tokens_details").getD []
  let cached_tokens ← tokenCount prompt_details "cached_tokens" 0
  let cached_tokens ← tokenCount usage_obj "cached_tokens" cached_tokens
  return { prompt_tokens, completion_tokens, total_tokens, reasoning_tokens, cached_tokens }

/-- Read the data of a line. -/
def extractSseEvent (json_str : Bytes) : Except LineError SseLineResult :=
  match Json.parse json_str with
  | none => .error .InvalidSseJson
  | some (.object obj) => do
      let choices := (arrayField obj "choices").map choiceDelta
      let usage ←
        (match objectField obj "usage" with
        | none => .ok none
        | some usage_obj => (extractUsage usage_obj).map some)
      return {
        text := nonEmpty (choices.flatMap (·.text))
        reasoning := nonEmpty (choices.flatMap (·.reasoning))
        tool_call_deltas := choices.flatMap (·.tool_calls)
        usage }
  | some _ => .ok {}

/-- Read a line. -/
def parseSseLine (line : Bytes) : Except LineError SseLineResult :=
  let trimmed := trimReturns line
  if trimmed.isEmpty then .ok {}
  else if trimmed.head? = some (byte ':') then .ok {}
  else
    match extractSseDataPayload trimmed with
    | none => .ok {}
    | some data =>
        if data = ascii "[DONE]" then .ok { done := true } else extractSseEvent data

/-!
## Anthropic
-/

/-- What a line of Anthropic's says. -/
inductive AnthropicSseResult where
  | event (name : Bytes)
  | delta (text : Bytes)
  | usage (tokens : ℕ)
  | done
  | skip
deriving DecidableEq

/-- The text of a delta, if it is one of text. -/
def extractAnthropicDelta (json_str : Bytes) : Except LineError (Option Bytes) :=
  match Json.parse json_str with
  | none => .error .InvalidSseJson
  | some (.object obj) =>
      match objectField obj "delta" with
      | none => .ok none
      | some delta =>
          if (Json.get? delta (ascii "type")).bind Json.string? = some (ascii "text_delta") then
            .ok (nonEmpty (stringField delta "text"))
          else .ok none
  | some _ => .error .processStops

/-- The tokens that the provider counted. The reader has a buffer of 4096 bytes. -/
def extractAnthropicUsage (fits_buffer : Bytes → Bool) (json_str : Bytes) :
    Except LineError (Option ℕ) :=
  if !fits_buffer json_str then .error .InvalidSseJson
  else
    match Json.parse json_str with
    | none => .error .InvalidSseJson
    | some (.object obj) =>
        match (objectField obj "usage").bind fun usage =>
            (Json.get? usage (ascii "output_tokens")).bind Json.integer? with
        | none => .ok none
        | some output_tokens =>
            if output_tokens < 0 then .error .processStops
            else (castU32 output_tokens.toNat).map some
    | some _ => .error .processStops

/-- Read a line. -/
def parseAnthropicSseLine (fits_buffer : Bytes → Bool) (line current_event : Bytes) :
    Except LineError AnthropicSseResult :=
  let trimmed := trimReturns line
  if trimmed.isEmpty then .ok .skip
  else if trimmed.head? = some (byte ':') then .ok .skip
  else if Bytes.startsWith trimmed "event: " then
    .ok (.event (trimmed.drop (ascii "event: ").length))
  else
    match extractSseDataPayload trimmed with
    | none => .ok .skip
    | some data =>
        if current_event = ascii "message_stop" then .ok .done
        else if current_event = ascii "content_block_delta" then
          (extractAnthropicDelta data).map fun text =>
            match text with
            | none => .skip
            | some text => .delta text
        else if current_event = ascii "message_delta" then
          (extractAnthropicUsage fits_buffer data).map fun tokens =>
            match tokens with
            | none => .skip
            | some tokens => .usage tokens
        else .ok .skip

end Nullalis.Providers
