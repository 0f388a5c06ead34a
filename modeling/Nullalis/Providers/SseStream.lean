import Nullalis.HttpNative.StreamBody
import Nullalis.Providers.LiveFilter
import Nullalis.Providers.SseEvents

/-!
# Streaming an answer

An answer is streamed to a callback while it is accumulated. The client first asks with its own
transport, unless it is told not to; if that fails it asks again and reads what `curl` writes.

The two transports are inputs: the response, which may fail to come, and the output of the
process, which may fail to start. What the callback gets is recorded.
-/

namespace Nullalis.Providers

open HttpNative Lines

/-- What the callback gets. -/
structure StreamChunk where
  delta : Bytes
  is_final : Bool
  token_count : ℕ
deriving DecidableEq

/-- A piece of text. -/
def StreamChunk.textDelta (text : Bytes) : StreamChunk where
  delta := text
  is_final := false
  token_count := (text.length + 3) / 4

/-- The end of the text. -/
def StreamChunk.finalChunk : StreamChunk where
  delta := []
  is_final := true
  token_count := 0

/-- A tool call. -/
structure ToolCall where
  id : Bytes
  name : Bytes
  arguments : Bytes
deriving DecidableEq

/-- The tokens of an answer. -/
structure TokenUsage where
  prompt_tokens : ℕ := 0
  completion_tokens : ℕ := 0
  total_tokens : ℕ := 0
  cached_prompt_tokens : ℕ := 0
  reasoning_tokens : ℕ := 0
deriving DecidableEq

/-- An answer. -/
structure StreamChatResult where
  content : Option Bytes
  tool_calls : List ToolCall := []
  usage : TokenUsage
  model : Bytes := []
  reasoning_content : Option Bytes := none
  stream_tool_call_chunks : ℕ := 0
deriving DecidableEq

/-- Why there is no answer: the transport failed, or the process stopped. -/
inductive AttemptError where
  | failed
  | processStops
deriving DecidableEq

/-- An attempt, or a whole call: what the callback got, and the answer. -/
structure Attempt where
  delivered : List StreamChunk
  outcome : Except AttemptError StreamChatResult

/-- The process stops while a line is handled. -/
inductive ProcessStops where
  | processStops
deriving DecidableEq

/-- What `curl` writes until it ends, and whether it ends well. -/
structure CurlProcess where
  output : Bytes
  succeeded : Bool
deriving DecidableEq

def newline : UInt8 := byte '\n'

def max_response_bytes : ℕ := 8 * 1024 * 1024

def isSuccess (status_code : ℕ) : Bool :=
  200 ≤ status_code && status_code < 300

/-- Why the transport gives no answer. An overflow stops the process. -/
def transportError : HttpError ProcessStops → AttemptError
  | .stream (.callback .processStops) => .processStops
  | .stream (.body .integerOverflow) => .processStops
  | _ => .failed

/-!
## OpenAI
-/

/-- What has come of a tool call. -/
structure ToolCallAccumulator where
  id : Bytes := []
  name : Bytes := []
  arguments : Bytes := []
deriving DecidableEq

/-- The context of a stream, with what the callback got. -/
structure OpenAiStreamCtx where
  accumulated : Bytes := []
  reasoning_accumulated : Bytes := []
  tool_call_accumulators : List ToolCallAccumulator := []
  stream_usage : Option SseUsage := none
  stream_tool_call_chunks : ℕ := 0
  live : LiveContext := .start
  delivered : List StreamChunk := []

/-- The accumulators up to an index. -/
def ensureToolCallAccumulator (accumulators : List ToolCallAccumulator) (index : ℕ) :
    List ToolCallAccumulator :=
  accumulators ++ List.replicate (index + 1 - accumulators.length) ({} : ToolCallAccumulator)

/-- Add a part of a tool call. -/
def appendToolCallDelta (accumulators : List ToolCallAccumulator) (delta : SseToolCallDelta) :
    List ToolCallAccumulator :=
  (ensureToolCallAccumulator accumulators delta.index).modify delta.index fun accumulator =>
    { id := accumulator.id ++ delta.id.getD []
      name := accumulator.name ++ delta.name.getD []
      arguments := accumulator.arguments ++ delta.arguments.getD [] }

def textDeltas (text : Bytes) : List StreamChunk :=
  if text.isEmpty then [] else [.textDelta text]

/-- Take in what a line says: whether to go on. All of the text is accumulated, and what the
filter lets through is delivered. -/
def processSseEvent (ctx : OpenAiStreamCtx) (event : SseLineResult) : Bool × OpenAiStreamCtx :=
  let ctx := { ctx with stream_usage := event.usage.or ctx.stream_usage }
  if event.done then (false, ctx)
  else
    let ctx :=
      match event.text with
      | none => ctx
      | some text =>
          let filtered := filterLiveXmlBlocks ctx.live text
          { ctx with
            accumulated := ctx.accumulated ++ text
            live := filtered.2
            delivered := ctx.delivered ++ textDeltas filtered.1 }
    let ctx :=
      { ctx with
        reasoning_accumulated := ctx.reasoning_accumulated ++ event.reasoning.getD []
        tool_call_accumulators :=
          event.tool_call_deltas.foldl appendToolCallDelta ctx.tool_call_accumulators
        stream_tool_call_chunks :=
          min (ctx.stream_tool_call_chunks + event.tool_call_deltas.length) (2 ^ 32 - 1) }
    (true, ctx)

/-- Handle a line. One that is not in order is left out, as the loops do with such a line. -/
def handleOpenAiLine : Handler UInt8 OpenAiStreamCtx ProcessStops := fun ctx line =>
  match parseSseLine line with
  | .error .InvalidSseJson => (.ok true, ctx)
  | .error .processStops => (.error .processStops, ctx)
  | .ok event =>
      let processed := processSseEvent ctx event
      (.ok processed.1, processed.2)

def native_openai_chunk : OnChunk (Reader UInt8 OpenAiStreamCtx) ProcessStops :=
  read newline handleOpenAiLine

/-- Handle a last line without an end. -/
def handleTrailingLine (reader : Reader UInt8 OpenAiStreamCtx) :
    Except ProcessStops Bool × OpenAiStreamCtx :=
  if reader.line_buf.isEmpty then (.ok true, reader.state)
  else handleOpenAiLine reader.state reader.line_buf

/-- The tool calls that have a name. -/
def buildToolCalls (accumulators : List ToolCallAccumulator) : List ToolCall :=
  accumulators.zipIdx.filterMap fun (accumulator, index) =>
    if accumulator.name.isEmpty then none
    else
      some {
        id := if accumulator.id.isEmpty then ascii "call_" ++ Bytes.decimal index
          else accumulator.id
        name := accumulator.name
        arguments := if accumulator.arguments.isEmpty then ascii "\x7b\x7d"
          else accumulator.arguments }

/-- The tokens of an answer: as the provider counted them, else estimated. -/
def openAiUsage (ctx : OpenAiStreamCtx) : Except LineError TokenUsage :=
  match ctx.stream_usage with
  | none => .ok { completion_tokens := (ctx.accumulated.length + 3) / 4 }
  | some usage => do
      let total_tokens ←
        (if 0 < usage.total_tokens then .ok usage.total_tokens
        else castU32 (usage.prompt_tokens + usage.completion_tokens))
      return {
        prompt_tokens := usage.prompt_tokens
        completion_tokens := usage.completion_tokens
        total_tokens
        cached_prompt_tokens := usage.cached_tokens
        reasoning_tokens := usage.reasoning_tokens }

/-- Deliver what the filter has held back, and give the answer. -/
def finalizeOpenAiStream (ctx : OpenAiStreamCtx) : Attempt :=
  let flushed := if ctx.live.xml_tail.isEmpty then [] else (flushLiveXmlTail ctx.live).1
  { delivered := ctx.delivered ++ textDeltas flushed ++ [.finalChunk]
    outcome :=
      match openAiUsage ctx with
      | .error _ => .error .processStops
      | .ok usage =>
          .ok {
            content := nonEmpty ctx.accumulated
            tool_calls := buildToolCalls ctx.tool_call_accumulators
            usage
            reasoning_content := nonEmpty ctx.reasoning_accumulated
            stream_tool_call_chunks := ctx.stream_tool_call_chunks } }

/-- Ask with the own transport. -/
def native_stream (response : Option HttpResponse) : Attempt :=
  match response with
  | none => { delivered := [], outcome := .error .failed }
  | some response =>
      match streamBody response max_response_bytes ⟨{}, []⟩ native_openai_chunk with
      | (.error error, reader) =>
          { delivered := reader.state.delivered, outcome := .error (transportError error) }
      | (.ok (), reader) =>
          if !isSuccess response.status_code then
            { delivered := reader.state.delivered, outcome := .error .failed }
          else
            match handleTrailingLine reader with
            | (.error _, ctx) => { delivered := ctx.delivered, outcome := .error .processStops }
            | (.ok _, ctx) => finalizeOpenAiStream ctx

/-- Ask with `curl`. -/
def curl_stream_fallback (curl : Option CurlProcess) : Attempt :=
  match curl with
  | none => { delivered := [], outcome := .error .failed }
  | some process =>
      match read newline handleOpenAiLine ⟨{}, []⟩ process.output with
      | (.error _, reader) =>
          { delivered := reader.state.delivered, outcome := .error .processStops }
      | (.ok _, reader) =>
          match handleTrailingLine reader with
          | (.error _, ctx) => { delivered := ctx.delivered, outcome := .error .processStops }
          | (.ok _, ctx) =>
              if !process.succeeded then
                { delivered := ctx.delivered, outcome := .error .failed }
              else finalizeOpenAiStream ctx

/-- Ask with the own transport, and if that fails with another one. -/
def orElse (first second : Attempt) : Attempt :=
  match first.outcome with
  | .error .failed => { second with delivered := first.delivered ++ second.delivered }
  | _ => first

/-- Stream an answer of OpenAI's. -/
def curlStream (forceCurlStreamPath : Bool) (response : Option HttpResponse)
    (curl : Option CurlProcess) : Attempt :=
  if forceCurlStreamPath then curl_stream_fallback curl
  else orElse (native_stream response) (curl_stream_fallback curl)

/-!
## Anthropic
-/

/-- The context of a stream, with what the callback got. -/
structure AnthropicStreamCtx where
  accumulated : Bytes := []
  current_event : Bytes := []
  output_tokens : ℕ := 0
  delivered : List StreamChunk := []
deriving DecidableEq

variable (fits_buffer : Bytes → Bool)

/-- Handle a line. One that is not in order is left out. -/
def handleAnthropicLine : Handler UInt8 AnthropicStreamCtx ProcessStops := fun ctx line =>
  match parseAnthropicSseLine fits_buffer line ctx.current_event with
  | .error .InvalidSseJson => (.ok true, ctx)
  | .error .processStops => (.error .processStops, ctx)
  | .ok (.event name) => (.ok true, { ctx with current_event := name })
  | .ok (.delta text) =>
      (.ok true,
        { ctx with
          accumulated := ctx.accumulated ++ text
          delivered := ctx.delivered ++ [.textDelta text] })
  | .ok (.usage tokens) => (.ok true, { ctx with output_tokens := tokens })
  | .ok .done => (.ok false, ctx)
  | .ok .skip => (.ok true, ctx)

def native_anthropic_chunk : OnChunk (Reader UInt8 AnthropicStreamCtx) ProcessStops :=
  read newline (handleAnthropicLine fits_buffer)

/-- The answer that was accumulated. -/
def anthropicResult (ctx : AnthropicStreamCtx) : StreamChatResult where
  content := nonEmpty ctx.accumulated
  usage := {
    completion_tokens :=
      if 0 < ctx.output_tokens then ctx.output_tokens else (ctx.accumulated.length + 3) / 4 }

/-- Ask with the own transport. -/
def native_stream_anthropic (response : Option HttpResponse) : Attempt :=
  match response with
  | none => { delivered := [], outcome := .error .failed }
  | some response =>
      match streamBody response max_response_bytes ⟨{}, []⟩
          (native_anthropic_chunk fits_buffer) with
      | (.error error, reader) =>
          { delivered := reader.state.delivered, outcome := .error (transportError error) }
      | (.ok (), reader) =>
          if !isSuccess response.status_code then
            { delivered := reader.state.delivered, outcome := .error .failed }
          else
            { delivered := reader.state.delivered ++ [.finalChunk]
              outcome := .ok (anthropicResult reader.state) }

/-- Ask with `curl`. -/
def curl_stream_anthropic_fallback (curl : Option CurlProcess) : Attempt :=
  match curl with
  | none => { delivered := [], outcome := .error .failed }
  | some process =>
      match read newline (handleAnthropicLine fits_buffer) ⟨{}, []⟩ process.output with
      | (.error _, reader) =>
          { delivered := reader.state.delivered, outcome := .error .processStops }
      | (.ok _, reader) =>
          { delivered := reader.state.delivered ++ [.finalChunk]
            outcome :=
              if process.succeeded then .ok (anthropicResult reader.state)
              else .error .failed }

/-- Stream an answer of Anthropic's. -/
def curlStreamAnthropic (forceCurlStreamPath : Bool) (response : Option HttpResponse)
    (curl : Option CurlProcess) : Attempt :=
  if forceCurlStreamPath then curl_stream_anthropic_fallback fits_buffer curl
  else
    orElse (native_stream_anthropic fits_buffer response)
      (curl_stream_anthropic_fallback fits_buffer curl)

end Nullalis.Providers
