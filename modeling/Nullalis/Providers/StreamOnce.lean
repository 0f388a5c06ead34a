import Nullalis.Providers.SseStream

/-!
# Text is delivered once

When the own transport fails, the client asks again from the start, whatever the callback has got
by then. So the text of a call is delivered once only if the first attempt delivers nothing
before it fails. And Anthropic's text is not filtered at all, so that it is delivered as a live
text only if the filter would let all of it through.
-/

namespace Nullalis.Providers

open HttpNative Lines

/-- The two streaming calls. -/
inductive StreamPath where
  | openAi
  | anthropic (fits_buffer : Bytes → Bool)

def deliveredText (chunks : List StreamChunk) : Bytes :=
  chunks.flatMap (·.delta)

/-- What was read of a stream: the last event that was named, and the texts. -/
structure StreamTexts where
  current_event : Bytes := []
  texts : List Bytes := []

namespace StreamPath

/-- A call. -/
def call : StreamPath → Bool → Option HttpResponse → Option CurlProcess → Attempt
  | .openAi => curlStream
  | .anthropic fits_buffer => curlStreamAnthropic fits_buffer

/-- What a line adds to the texts of a stream. -/
def readLine : StreamPath → Handler UInt8 StreamTexts ProcessStops
  | .openAi, seen, line =>
      match parseSseLine line with
      | .error .InvalidSseJson => (.ok true, seen)
      | .error .processStops => (.error .processStops, seen)
      | .ok event => (.ok (!event.done),
          if event.done then seen else { seen with texts := seen.texts ++ event.text.toList })
  | .anthropic fits_buffer, seen, line =>
      match parseAnthropicSseLine fits_buffer line seen.current_event with
      | .error .InvalidSseJson => (.ok true, seen)
      | .error .processStops => (.error .processStops, seen)
      | .ok (.event name) => (.ok true, { seen with current_event := name })
      | .ok (.delta text) => (.ok true, { seen with texts := seen.texts ++ [text] })
      | .ok (.usage _) => (.ok true, seen)
      | .ok .done => (.ok false, seen)
      | .ok .skip => (.ok true, seen)

/-- Read the lines of a stream. -/
def readStream (path : StreamPath) (stream : Bytes) :
    Except ProcessStops Bool × Reader UInt8 StreamTexts :=
  read newline path.readLine ⟨{}, []⟩ stream

/-- The texts of the lines of a stream, up to the line that ends it. -/
def texts (path : StreamPath) (stream : Bytes) : List Bytes :=
  (path.readStream stream).2.state.texts

/-- What is delivered of the texts of a stream that is not over yet. -/
def shown : StreamPath → List Bytes → Bytes
  | .openAi, texts => (filterChunks .start texts).1
  | .anthropic _, texts => texts.flatten

end StreamPath

def receivedBytes (response : Option HttpResponse) : Bytes :=
  (response.map (HttpResponse.received ProcessStops max_response_bytes)).getD []

def liveFiltered (text : Bytes) : Bytes :=
  filterStream .start [text]

namespace StreamPath

/-- Is a response received to its end, or to the line that ends the stream? -/
def ends (path : StreamPath) (response : HttpResponse) : Bool :=
  match (path.readStream (receivedBytes (some response))).1 with
  | .ok false => true
  | .ok true => (response.ending ProcessStops max_response_bytes).isOk
  | .error _ => false

/-- Does the own transport receive an answer? -/
def completes (path : StreamPath) : Option HttpResponse → Bool
  | none => false
  | some response => isSuccess response.status_code && path.ends response

/-- The stream that is answered with. -/
def answerStream (path : StreamPath) (forced : Bool) (response : Option HttpResponse)
    (curl : Option CurlProcess) : Bytes :=
  if !forced && path.completes response then receivedBytes response
  else (curl.map (·.output)).getD []

/-- The own transport is not asked, or it receives an answer, or the lines it receives before it
fails have no text that is delivered; and a text that is not filtered has nothing to be
filtered. -/
def DeliversOnce (path : StreamPath) (forced : Bool) (response : Option HttpResponse)
    (curl : Option CurlProcess) : Prop :=
  (forced = true ∨ path.completes response = true ∨
    path.shown (path.texts (receivedBytes response)) = []) ∧
  match path with
  | .openAi => True
  | .anthropic _ =>
      let text := (path.texts (path.answerStream forced response curl)).flatten
      liveFiltered text = text

end StreamPath

/-!
## The texts of a stream
-/

/-- A line is handled as it is read. -/
def Alike {State : Type} (path : StreamPath) (handle : Handler UInt8 State ProcessStops)
    (related : StreamTexts → State → Prop) : Prop :=
  ∀ seen state line, related seen state →
    (path.readLine seen line).1 = (handle state line).1 ∧
      related (path.readLine seen line).2 (handle state line).2

theorem seamless_read {State : Type} (handle : Handler UInt8 State ProcessStops) :
    Seamless (read newline handle) where
  nil _ := rfl
  append _ _ more := read_append more

theorem streamBody_spec {State : Type} {path : StreamPath}
    {handle : Handler UInt8 State ProcessStops} {related : StreamTexts → State → Prop}
    (alike : Alike path handle related) {start : State} (initial : related {} start)
    (response : HttpResponse) :
    let streamed := streamBody response max_response_bytes ⟨start, []⟩ (read newline handle)
    related (path.readStream (receivedBytes (some response))).2.state streamed.2.state ∧
      (streamed.1 = .ok () → path.ends response = true) ∧
        ∀ error, streamed.1 = .error error → transportError error = .failed →
          path.ends response = false := by
  have hands : streamBody response max_response_bytes ⟨start, []⟩ (read newline handle) =
      settle callbackError (response.ending ProcessStops max_response_bytes)
        (read newline handle ⟨start, []⟩ (receivedBytes (some response))) :=
    handsOver_streamBody response max_response_bytes _ _ (seamless_read handle) _
  have start : InStep related (⟨{}, []⟩ : Reader UInt8 StreamTexts) ⟨start, []⟩ := ⟨initial, rfl⟩
  rcases read_inStep newline alike start (receivedBytes (some response)) with
    ⟨verdict, inStep⟩
  rw [hands, StreamPath.ends]
  change (path.readStream (receivedBytes (some response))).1 = _ at verdict
  rw [verdict]
  generalize read newline handle _ (receivedBytes (some response)) = handled at inStep
  rcases handled with ⟨⟨⟨⟩⟩ | ⟨⟨⟩⟩, reader⟩
  · exact ⟨inStep.states, fun ok => (by cases ok), fun error same failed => (by
      cases same
      cases failed)⟩
  · exact ⟨inStep.states, fun _ => rfl, fun error same => (by cases same)⟩
  · refine ⟨inStep.states, fun ok => ?_, fun error same _ => ?_⟩
    · dsimp only [settle] at ok
      rw [ok]
      rfl
    · dsimp only [settle] at same
      rw [same]
      rfl

/-!
## OpenAI
-/

section OpenAi

variable {seen : StreamTexts} {ctx : OpenAiStreamCtx} {response : Option HttpResponse}
  {curl : Option CurlProcess} {result : StreamChatResult}

/-- All texts are accumulated, and what the filter lets through is delivered. -/
structure OpenAiStreams (seen : StreamTexts) (ctx : OpenAiStreamCtx) : Prop where
  accumulated : ctx.accumulated = seen.texts.flatten
  live : ctx.live = (filterChunks .start seen.texts).2
  delivered : deliveredText ctx.delivered = (filterChunks .start seen.texts).1

theorem deliveredText_append (chunks more : List StreamChunk) :
    deliveredText (chunks ++ more) = deliveredText chunks ++ deliveredText more :=
  List.flatMap_append

theorem deliveredText_textDeltas (text : Bytes) : deliveredText (textDeltas text) = text := by
  rw [textDeltas]
  split
  case isTrue empty => exact (List.isEmpty_iff.mp empty).symm
  case isFalse => exact List.append_nil text

theorem alike_openAi : Alike .openAi handleOpenAiLine OpenAiStreams := by
  intro seen ctx line streams
  rw [StreamPath.readLine, handleOpenAiLine]
  rcases parseSseLine line with ⟨⟨⟩⟩ | event
  · exact ⟨rfl, streams⟩
  · exact ⟨rfl, streams⟩
  · simp only [processSseEvent]
    cases finished : event.done with
    | true =>
        exact ⟨rfl, streams.accumulated, streams.live, streams.delivered⟩
    | false =>
        refine ⟨rfl, ?_⟩
        cases event.text with
        | none =>
            simp only [Bool.false_eq_true, if_false, Option.toList_none, List.append_nil]
            exact ⟨streams.accumulated, streams.live, streams.delivered⟩
        | some text =>
            simp only [Bool.false_eq_true, if_false, Option.toList_some]
            exact {
              accumulated := by
                rw [streams.accumulated, List.flatten_append, List.flatten_singleton]
              live := by rw [filterChunks_append, streams.live]
              delivered := by
                rw [filterChunks_append, deliveredText_append, deliveredText_textDeltas,
                  streams.delivered, streams.live] }

theorem handleTrailingLine_streams {reader : Reader UInt8 OpenAiStreamCtx}
    (streams : OpenAiStreams seen reader.state) :
    ∃ seen, OpenAiStreams seen (handleTrailingLine reader).2 := by
  rw [handleTrailingLine]
  split
  case isTrue => exact ⟨seen, streams⟩
  case isFalse => exact ⟨_, (alike_openAi seen reader.state reader.line_buf streams).2⟩

theorem getD_nonEmpty (text : Bytes) : (nonEmpty text).getD [] = text := by
  rw [nonEmpty]
  split
  case isTrue empty => exact (List.isEmpty_iff.mp empty).symm
  case isFalse => rfl

theorem finalizeOpenAiStream_spec (streams : OpenAiStreams seen ctx)
    (answered : (finalizeOpenAiStream ctx).outcome = .ok result) :
    deliveredText (finalizeOpenAiStream ctx).delivered =
      liveFiltered (result.content.getD []) := by
  have content : result.content.getD [] = seen.texts.flatten := by
    simp only [finalizeOpenAiStream] at answered
    split at answered
    case h_1 => cases answered
    case h_2 =>
        cases answered
        rw [getD_nonEmpty, streams.accumulated]
  have flushed : (if ctx.live.xml_tail.isEmpty then [] else (flushLiveXmlTail ctx.live).1) =
      (flushLiveXmlTail ctx.live).1 := by
    split
    case isTrue empty =>
        rw [flushLiveXmlTail, List.isEmpty_iff.mp empty]
        rfl
    case isFalse => rfl
  rw [content, liveFiltered, ← filterStream_flatten, filterStream_eq, ← streams.delivered,
    ← streams.live, finalizeOpenAiStream, flushed, deliveredText_append, deliveredText_append,
    deliveredText_textDeltas]
  exact List.append_nil _

theorem finalizeOpenAiStream_ne_failed :
    (finalizeOpenAiStream ctx).outcome ≠ .error .failed := by
  rw [finalizeOpenAiStream]
  dsimp only
  split <;> exact fun same => (by cases same)

theorem native_stream_spec :
    (∀ result, (native_stream response).outcome = .ok result →
      StreamPath.openAi.completes response = true ∧
        deliveredText (native_stream response).delivered =
          liveFiltered (result.content.getD [])) ∧
    ((native_stream response).outcome = .error .failed →
      StreamPath.openAi.completes response = false ∧
        deliveredText (native_stream response).delivered =
          StreamPath.openAi.shown (StreamPath.openAi.texts (receivedBytes response))) := by
  cases response with
  | none => exact ⟨fun _ answered => (by cases answered), fun _ => ⟨rfl, rfl⟩⟩
  | some response =>
      have initial : OpenAiStreams {} {} := ⟨rfl, rfl, rfl⟩
      rcases streamBody_spec alike_openAi initial response with ⟨streams, whole, cut⟩
      rw [StreamPath.completes, native_stream, native_openai_chunk]
      generalize streamBody response _ _ _ = streamed at streams whole cut
      rcases streamed with ⟨error | ⟨⟩, reader⟩
      · refine ⟨fun _ answered => (by cases answered), fun failed => ⟨?_, streams.delivered⟩⟩
        rw [cut error rfl (Except.error.inj failed), Bool.and_false]
      · rw [whole rfl, Bool.and_true]
        cases success : isSuccess response.status_code with
        | false =>
            exact ⟨fun _ answered => (by cases answered), fun _ => ⟨rfl, streams.delivered⟩⟩
        | true =>
            rcases handleTrailingLine_streams streams with ⟨all, streams⟩
            simp only [Bool.not_true, Bool.false_eq_true, if_false]
            generalize handleTrailingLine reader = handled at streams
            rcases handled with ⟨error | keep, ctx⟩
            · exact ⟨fun _ answered => (by cases answered), fun failed => (by cases failed)⟩
            · exact ⟨fun _ answered => ⟨trivial, finalizeOpenAiStream_spec streams answered⟩,
                fun failed => absurd failed finalizeOpenAiStream_ne_failed⟩

theorem curl_stream_fallback_spec (answered : (curl_stream_fallback curl).outcome = .ok result) :
    deliveredText (curl_stream_fallback curl).delivered =
      liveFiltered (result.content.getD []) := by
  cases curl with
  | none => cases answered
  | some process =>
      have initial : InStep OpenAiStreams (⟨{}, []⟩ : Reader UInt8 StreamTexts) ⟨{}, []⟩ :=
        ⟨⟨rfl, rfl, rfl⟩, rfl⟩
      have streams :=
        (read_inStep newline alike_openAi initial process.output).2.states
      rw [curl_stream_fallback] at answered ⊢
      generalize read newline handleOpenAiLine _ process.output = handled at *
      rcases handled with ⟨error | keep, reader⟩
      · cases answered
      · rcases handleTrailingLine_streams streams with ⟨all, streams⟩
        dsimp only at answered ⊢
        generalize handleTrailingLine reader = trailing at *
        rcases trailing with ⟨error | keep, ctx⟩
        · cases answered
        · dsimp only at answered ⊢
          cases succeeded : process.succeeded with
          | false =>
              rw [succeeded] at answered
              cases answered
          | true =>
              rw [succeeded] at answered
              exact finalizeOpenAiStream_spec streams answered

end OpenAi

/-!
## Anthropic
-/

section Anthropic

variable {fits_buffer : Bytes → Bool} {seen : StreamTexts} {ctx : AnthropicStreamCtx}
  {response : Option HttpResponse} {curl : Option CurlProcess} {result : StreamChatResult}

/-- All texts are accumulated, and all of them are delivered. -/
structure AnthropicStreams (seen : StreamTexts) (ctx : AnthropicStreamCtx) : Prop where
  current_event : ctx.current_event = seen.current_event
  accumulated : ctx.accumulated = seen.texts.flatten
  delivered : deliveredText ctx.delivered = seen.texts.flatten

theorem alike_anthropic (fits_buffer : Bytes → Bool) :
    Alike (.anthropic fits_buffer) (handleAnthropicLine fits_buffer) AnthropicStreams := by
  intro seen ctx line streams
  have same : parseAnthropicSseLine fits_buffer line ctx.current_event =
      parseAnthropicSseLine fits_buffer line seen.current_event := by
    rw [streams.current_event]
  rw [StreamPath.readLine, handleAnthropicLine, same]
  rcases parseAnthropicSseLine fits_buffer line seen.current_event with ⟨⟨⟩⟩ | said
  · exact ⟨rfl, streams⟩
  · exact ⟨rfl, streams⟩
  · cases said with
    | event name => exact ⟨rfl, rfl, streams.accumulated, streams.delivered⟩
    | delta text =>
        refine ⟨rfl, streams.current_event, ?_, ?_⟩
        · rw [streams.accumulated, List.flatten_append, List.flatten_singleton]
        · rw [deliveredText_append, streams.delivered, List.flatten_append]
          rfl
    | usage tokens => exact ⟨rfl, streams.current_event, streams.accumulated, streams.delivered⟩
    | done => exact ⟨rfl, streams⟩
    | skip => exact ⟨rfl, streams⟩

theorem anthropicResult_spec (streams : AnthropicStreams seen ctx) :
    (anthropicResult ctx).content.getD [] = seen.texts.flatten ∧
      deliveredText (ctx.delivered ++ [.finalChunk]) = seen.texts.flatten := by
  constructor
  · rw [anthropicResult, getD_nonEmpty, streams.accumulated]
  · rw [deliveredText_append, streams.delivered]
    exact List.append_nil _

theorem native_stream_anthropic_spec :
    (∀ result, (native_stream_anthropic fits_buffer response).outcome = .ok result →
      (StreamPath.anthropic fits_buffer).completes response = true ∧
        result.content.getD [] =
          ((StreamPath.anthropic fits_buffer).texts (receivedBytes response)).flatten ∧
        deliveredText (native_stream_anthropic fits_buffer response).delivered =
          ((StreamPath.anthropic fits_buffer).texts (receivedBytes response)).flatten) ∧
    ((native_stream_anthropic fits_buffer response).outcome = .error .failed →
      (StreamPath.anthropic fits_buffer).completes response = false ∧
        deliveredText (native_stream_anthropic fits_buffer response).delivered =
          ((StreamPath.anthropic fits_buffer).texts (receivedBytes response)).flatten) := by
  cases response with
  | none => exact ⟨fun _ answered => (by cases answered), fun _ => ⟨rfl, rfl⟩⟩
  | some response =>
      have initial : AnthropicStreams {} {} := ⟨rfl, rfl, rfl⟩
      rcases streamBody_spec (alike_anthropic fits_buffer) initial response with
        ⟨streams, whole, cut⟩
      rw [StreamPath.completes, native_stream_anthropic, native_anthropic_chunk]
      generalize streamBody response _ _ _ = streamed at streams whole cut
      rcases streamed with ⟨error | ⟨⟩, reader⟩
      · refine ⟨fun _ answered => (by cases answered), fun failed => ⟨?_, streams.delivered⟩⟩
        rw [cut error rfl (Except.error.inj failed), Bool.and_false]
      · rw [whole rfl, Bool.and_true]
        cases success : isSuccess response.status_code with
        | false =>
            exact ⟨fun _ answered => (by cases answered), fun _ => ⟨rfl, streams.delivered⟩⟩
        | true =>
            refine ⟨fun _ answered => ?_, fun failed => (by cases failed)⟩
            cases answered
            exact ⟨rfl, anthropicResult_spec streams⟩

theorem curl_stream_anthropic_fallback_spec
    (answered : (curl_stream_anthropic_fallback fits_buffer curl).outcome = .ok result) :
    result.content.getD [] =
        ((StreamPath.anthropic fits_buffer).texts ((curl.map (·.output)).getD [])).flatten ∧
      deliveredText (curl_stream_anthropic_fallback fits_buffer curl).delivered =
        ((StreamPath.anthropic fits_buffer).texts ((curl.map (·.output)).getD [])).flatten := by
  cases curl with
  | none => cases answered
  | some process =>
      have initial : InStep AnthropicStreams (⟨{}, []⟩ : Reader UInt8 StreamTexts) ⟨{}, []⟩ :=
        ⟨⟨rfl, rfl, rfl⟩, rfl⟩
      have streams := (read_inStep newline
        (alike_anthropic fits_buffer) initial process.output).2.states
      rw [curl_stream_anthropic_fallback] at answered ⊢
      generalize read newline (handleAnthropicLine fits_buffer) _ process.output = handled at *
      rcases handled with ⟨error | keep, reader⟩
      · cases answered
      · dsimp only at answered ⊢
        split at answered
        case isFalse => cases answered
        case isTrue =>
            cases answered
            exact anthropicResult_spec streams

end Anthropic

/-!
## The calls
-/

section Calls

variable {forced : Bool} {response : Option HttpResponse} {curl : Option CurlProcess}
  {result : StreamChatResult}

theorem of_orElse {first second : Attempt} (answered : (orElse first second).outcome = .ok result) :
    (first.outcome = .ok result ∧ (orElse first second).delivered = first.delivered) ∨
      (first.outcome = .error .failed ∧ second.outcome = .ok result ∧
        deliveredText (orElse first second).delivered =
          deliveredText first.delivered ++ deliveredText second.delivered) := by
  rw [orElse] at answered ⊢
  cases came : first.outcome with
  | ok answer =>
      rw [came] at answered
      exact .inl ⟨came.symm.trans answered, rfl⟩
  | error error =>
      rw [came] at answered
      cases error with
      | failed => exact .inr ⟨rfl, answered, deliveredText_append _ _⟩
      | processStops =>
          rw [came] at answered
          cases answered

theorem append_eq_liveFiltered {earlier text : Bytes} :
    earlier ++ text = liveFiltered text ↔ earlier = [] ∧ liveFiltered text = text := by
  constructor
  · intro same
    have short : (liveFiltered text).length ≤ text.length := by
      have short := length_filterStream_le .start [text]
      rwa [LiveContext.start, List.nil_append, List.flatten_singleton] at short
    rw [← same, List.length_append] at short
    have none : earlier = [] := List.eq_nil_of_length_eq_zero (by omega)
    rw [none, List.nil_append] at same
    exact ⟨none, same.symm⟩
  · rintro ⟨rfl, same⟩
    exact same.symm

theorem curlStream_deliversOnce_iff
    (returned : (curlStream forced response curl).outcome = .ok result) :
    deliveredText (curlStream forced response curl).delivered =
        liveFiltered (result.content.getD []) ↔
      StreamPath.openAi.DeliversOnce forced response curl := by
  rw [StreamPath.DeliversOnce, and_true]
  cases forced with
  | true => exact iff_of_true (curl_stream_fallback_spec returned) (.inl rfl)
  | false =>
      rw [curlStream, if_neg Bool.false_ne_true] at returned ⊢
      rcases of_orElse returned with ⟨answered, delivered⟩ | ⟨failed, answered, delivered⟩
      · rcases native_stream_spec.1 result answered with ⟨completes, once⟩
        rw [delivered]
        exact iff_of_true once (.inr (.inl completes))
      · rcases native_stream_spec.2 failed with ⟨cut, shown⟩
        rw [delivered, shown, curl_stream_fallback_spec answered, cut]
        simp

theorem curlStreamAnthropic_deliversOnce_iff {fits_buffer : Bytes → Bool}
    (returned : (curlStreamAnthropic fits_buffer forced response curl).outcome = .ok result) :
    deliveredText (curlStreamAnthropic fits_buffer forced response curl).delivered =
        liveFiltered (result.content.getD []) ↔
      (StreamPath.anthropic fits_buffer).DeliversOnce forced response curl := by
  rw [StreamPath.DeliversOnce, StreamPath.answerStream]
  cases forced with
  | true =>
      rcases curl_stream_anthropic_fallback_spec returned with ⟨content, delivered⟩
      rw [curlStreamAnthropic, if_pos rfl, content, delivered]
      rw [eq_comm]
      simp
  | false =>
      rw [curlStreamAnthropic, if_neg Bool.false_ne_true] at returned ⊢
      rcases of_orElse returned with ⟨answered, delivered⟩ | ⟨failed, answered, delivered⟩
      · rcases native_stream_anthropic_spec.1 result answered with ⟨completes, content, shown⟩
        rw [delivered, shown, content, completes, eq_comm]
        simp
      · rcases native_stream_anthropic_spec.2 failed with ⟨cut, shown⟩
        rcases curl_stream_anthropic_fallback_spec answered with ⟨content, later⟩
        rw [delivered, shown, later, content, cut, append_eq_liveFiltered]
        simp [StreamPath.shown]

/-- For a call that returns an answer, the text that is delivered is the live text of the answer
and nothing else, exactly if the call delivers once. -/
theorem deliveredText_eq_iff {path : StreamPath}
    (returned : (path.call forced response curl).outcome = .ok result) :
    deliveredText (path.call forced response curl).delivered =
        liveFiltered (result.content.getD []) ↔
      path.DeliversOnce forced response curl := by
  cases path with
  | openAi => exact curlStream_deliversOnce_iff returned
  | anthropic fits_buffer => exact curlStreamAnthropic_deliversOnce_iff returned

end Calls

/-- A line with a text. -/
def textLine : Bytes :=
  ascii "data: \x7b\"choices\":[\x7b\"delta\":\x7b\"content\":\"" ++
    ascii "The answer is forty-two." ++ ascii "\"\x7d\x7d]\x7d\n"

/-- An answer of `curl`. -/
def textProcess : CurlProcess where
  output := textLine ++ ascii "data: [DONE]\n"
  succeeded := true

/-- The same answer, cut off behind the first chunk. -/
def cutResponse : HttpResponse where
  status_code := 200
  framing := .chunked
  initial_body := ascii "45\r\n" ++ textLine ++ ascii "\r\n"
  reads := []
  reads_end := .closed

/-- The answer. -/
def textResult : StreamChatResult where
  content := some (ascii "The answer is forty-two.")
  usage := { completion_tokens := 6 }

/-- An answer of `curl` is delivered once when no response came. -/
theorem deliveredText_eq_no_response :
    deliveredText (StreamPath.openAi.call false none (some textProcess)).delivered =
      liveFiltered (textResult.content.getD []) :=
  have returned : (StreamPath.openAi.call false none (some textProcess)).outcome =
      .ok textResult := by decide +kernel
  (deliveredText_eq_iff returned).mpr ⟨.inr (.inr rfl), trivial⟩

/-- When the response is cut off, what was delivered of it is delivered again. -/
theorem not_deliveredText_eq :
    ¬ ∀ (path : StreamPath) (forced : Bool) (response : Option HttpResponse)
      (curl : Option CurlProcess) (result : StreamChatResult),
      (path.call forced response curl).outcome = .ok result →
        deliveredText (path.call forced response curl).delivered =
          liveFiltered (result.content.getD []) := by
  intro once
  have returned : (StreamPath.openAi.call false (some cutResponse) (some textProcess)).outcome =
      .ok textResult := by decide +kernel
  exact absurd (once .openAi false (some cutResponse) (some textProcess) textResult returned)
    (by decide +kernel)

end Nullalis.Providers
