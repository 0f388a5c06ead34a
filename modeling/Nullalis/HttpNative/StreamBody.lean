import Nullalis.Base.Lines
import Nullalis.HttpNative.Chunked

/-!
# Streamed responses

A response is streamed to a callback from the end of its headers on: chunk by chunk if it is
chunked, up to its length if that is given, else until the connection is closed. The status is
only looked at by the caller, when the whole body was streamed.

To a callback that does not see where its input is cut, a response is one text and the way it
ends: the callback reads that text, and unless it stops or fails on the way, that is the end.
-/

namespace Nullalis.HttpNative

open Lines

/-- How a body is framed, by the headers. -/
inductive BodyFraming where
  | chunked
  | sized (content_length : ℕ)
  | untilClosed
deriving DecidableEq

/-- What ends the reads of a socket. -/
inductive ReadsEnd where
  | closed
  | failed
deriving DecidableEq

/-- A response behind its headers. -/
structure HttpResponse where
  status_code : ℕ
  framing : BodyFraming
  initial_body : Bytes
  reads : List SocketRead
  reads_end : ReadsEnd

/-- Why a response is not streamed to its end. -/
inductive HttpError (Failure : Type) where
  | InvalidHttpResponse
  | TlsReadFailed
  | stream (error : StreamError Failure)
deriving DecidableEq

variable {Context Failure Error : Type}

def callbackError (failure : Failure) : HttpError Failure := .stream (.callback failure)

/-- Hand a chunk to the callback, and go on unless it stops or fails. -/
def deliver (on_chunk : OnChunk Context Failure) (ctx : Context) (chunk : Bytes)
    (rest : Context → Except (HttpError Failure) Unit × Context) :
    Except (HttpError Failure) Unit × Context :=
  match on_chunk ctx chunk with
  | (.error failure, ctx) => (.error (callbackError failure), ctx)
  | (.ok false, ctx) => (.ok (), ctx)
  | (.ok true, ctx) => rest ctx

/-- Read until nothing remains. -/
def sizedReads (reads_end : ReadsEnd) (on_chunk : OnChunk Context Failure) :
    List SocketRead → ℕ → Context → Except (HttpError Failure) Unit × Context
  | [], remaining, ctx =>
      if remaining = 0 then (.ok (), ctx)
      else
        match reads_end with
        | .closed => (.error .InvalidHttpResponse, ctx)
        | .failed => (.error .TlsReadFailed, ctx)
  | arrived :: rest, remaining, ctx =>
      if remaining = 0 then (.ok (), ctx)
      else
        let bytes := arrived.bytes.take remaining
        deliver on_chunk ctx bytes
          (sizedReads reads_end on_chunk rest (remaining - bytes.length))

/-- Stream a body whose length is given. -/
def streamSizedBody (response : HttpResponse) (content_length max_response_bytes : ℕ)
    (ctx : Context) (on_chunk : OnChunk Context Failure) :
    Except (HttpError Failure) Unit × Context :=
  if max_response_bytes < content_length then (.error (.stream (.body .ResponseTooLarge)), ctx)
  else if response.initial_body.isEmpty then
    sizedReads response.reads_end on_chunk response.reads content_length ctx
  else
    let first := response.initial_body.take content_length
    deliver on_chunk ctx first
      (sizedReads response.reads_end on_chunk response.reads (content_length - first.length))

/-- Read until the connection is closed. -/
def eofReads (reads_end : ReadsEnd) (max_response_bytes : ℕ)
    (on_chunk : OnChunk Context Failure) :
    List SocketRead → ℕ → Context → Except (HttpError Failure) Unit × Context
  | [], _, ctx =>
      match reads_end with
      | .closed => (.ok (), ctx)
      | .failed => (.error .TlsReadFailed, ctx)
  | arrived :: rest, total, ctx =>
      let total := total + arrived.bytes.length
      if max_response_bytes < total then (.error (.stream (.body .ResponseTooLarge)), ctx)
      else
        deliver on_chunk ctx arrived.bytes
          (eofReads reads_end max_response_bytes on_chunk rest total)

/-- Stream a body that ends with the connection. -/
def streamEofBody (response : HttpResponse) (max_response_bytes : ℕ) (ctx : Context)
    (on_chunk : OnChunk Context Failure) : Except (HttpError Failure) Unit × Context :=
  if response.initial_body.isEmpty then
    eofReads response.reads_end max_response_bytes on_chunk response.reads 0 ctx
  else
    let total := response.initial_body.length
    if max_response_bytes < total then (.error (.stream (.body .ResponseTooLarge)), ctx)
    else
      deliver on_chunk ctx response.initial_body
        (eofReads response.reads_end max_response_bytes on_chunk response.reads total)

/-- Stream the body of a response. -/
def streamBody (response : HttpResponse) (max_response_bytes : ℕ) (ctx : Context)
    (on_chunk : OnChunk Context Failure) : Except (HttpError Failure) Unit × Context :=
  match response.framing with
  | .chunked =>
      let streamed :=
        streamChunkedBody response.reads response.initial_body max_response_bytes ctx on_chunk
      (streamed.1.mapError .stream, streamed.2)
  | .sized content_length => streamSizedBody response content_length max_response_bytes ctx on_chunk
  | .untilClosed => streamEofBody response max_response_bytes ctx on_chunk

/-!
## What is received
-/

/-- All that is streamed of a response. -/
def HttpResponse.received (Failure : Type) (max_response_bytes : ℕ) (response : HttpResponse) :
    Bytes :=
  (streamBody response max_response_bytes [] (collect Failure)).2

/-- How the streaming of a response ends. -/
def HttpResponse.ending (Failure : Type) (max_response_bytes : ℕ) (response : HttpResponse) :
    Except (HttpError Failure) Unit :=
  (streamBody response max_response_bytes [] (collect Failure)).1

/-- A callback that does not see where its input is cut. -/
structure Seamless (on_chunk : OnChunk Context Failure) : Prop where
  nil : ∀ ctx, on_chunk ctx [] = (.ok true, ctx)
  append : ∀ ctx chunk more,
    on_chunk ctx (chunk ++ more) = andThen (on_chunk ctx chunk) fun ctx => on_chunk ctx more

theorem seamless_collect : Seamless (collect Failure) where
  nil got := by rw [collect, List.append_nil]
  append got chunk more := by rw [collect, collect, andThen, collect, List.append_assoc]

/-- What a callback that has read all makes of the way a stream ends. -/
def settle (embed : Failure → Error) (ending : Except Error Unit) :
    Except Failure Bool × Context → Except Error Unit × Context
  | (.ok true, ctx) => (ending, ctx)
  | (.ok false, ctx) => (.ok (), ctx)
  | (.error failure, ctx) => (.error (embed failure), ctx)

/-- A way of streaming. -/
abbrev Streaming (Failure Error : Type) :=
  ∀ (Context : Type), OnChunk Context Failure → Context → Except Error Unit × Context

/-- A callback that does not see cuts is handed a text, and then the streaming ends. -/
def HandsOver (embed : Failure → Error) (stream : Streaming Failure Error)
    (ending : Except Error Unit) (text : Bytes) : Prop :=
  ∀ Context on_chunk, Seamless on_chunk → ∀ ctx,
    stream Context on_chunk ctx = settle embed ending (on_chunk ctx text)

variable {embed : Failure → Error} {stream rest : Streaming Failure Error}
  {httpStream httpRest : Streaming Failure (HttpError Failure)} {ending : Except Error Unit}
  {httpEnding : Except (HttpError Failure) Unit} {text chunk buffer : Bytes}

theorem HandsOver.nil (ends : ∀ Context on_chunk ctx, stream Context on_chunk ctx = (ending, ctx)) :
    HandsOver embed stream ending [] := by
  intro Context on_chunk seamless ctx
  rw [ends, seamless.nil]
  rfl

theorem HandsOver.cons (hands : HandsOver callbackError httpRest httpEnding text)
    (delivers : ∀ Context on_chunk ctx,
      httpStream Context on_chunk ctx = deliver on_chunk ctx chunk (httpRest Context on_chunk)) :
    HandsOver callbackError httpStream httpEnding (chunk ++ text) := by
  intro Context on_chunk seamless ctx
  rw [delivers, deliver, seamless.append]
  rcases on_chunk ctx chunk with ⟨⟨⟩ | ⟨⟨⟩⟩, ctx⟩
  · rfl
  · rfl
  · exact hands Context on_chunk seamless ctx

theorem handsOver_sizedReads (reads_end : ReadsEnd) (reads : List SocketRead) (remaining : ℕ) :
    ∃ (ending : Except (HttpError Failure) Unit) (text : Bytes),
      HandsOver callbackError
      (fun _ on_chunk ctx => sizedReads reads_end on_chunk reads remaining ctx) ending text := by
  induction reads generalizing remaining with
  | nil =>
      by_cases beyond : remaining = 0
      · exact ⟨.ok (), [], .nil fun _ _ _ => by simp only [sizedReads, beyond, if_true]⟩
      · cases reads_end with
        | closed =>
            exact ⟨.error .InvalidHttpResponse, [], .nil fun _ _ _ => by
              simp only [sizedReads, beyond, if_false]⟩
        | failed =>
            exact ⟨.error .TlsReadFailed, [], .nil fun _ _ _ => by
              simp only [sizedReads, beyond, if_false]⟩
  | cons arrived rest ih =>
      by_cases beyond : remaining = 0
      · exact ⟨.ok (), [], .nil fun _ _ _ => by rw [sizedReads, if_pos beyond]⟩
      · rcases ih (remaining - (arrived.bytes.take remaining).length) with ⟨ending, text, hands⟩
        exact ⟨ending, _, hands.cons fun _ _ _ => by rw [sizedReads, if_neg beyond]⟩

theorem handsOver_eofReads (reads_end : ReadsEnd) (max_response_bytes : ℕ)
    (reads : List SocketRead) (total : ℕ) :
    ∃ (ending : Except (HttpError Failure) Unit) (text : Bytes),
      HandsOver callbackError
      (fun _ on_chunk ctx => eofReads reads_end max_response_bytes on_chunk reads total ctx)
      ending text := by
  induction reads generalizing total with
  | nil =>
      cases reads_end with
      | closed => exact ⟨.ok (), [], .nil fun _ _ _ => rfl⟩
      | failed => exact ⟨.error .TlsReadFailed, [], .nil fun _ _ _ => rfl⟩
  | cons arrived rest ih =>
      by_cases large : max_response_bytes < total + arrived.bytes.length
      · exact ⟨.error (.stream (.body .ResponseTooLarge)), [], .nil fun _ _ _ => by
          rw [eofReads, if_pos large]⟩
      · rcases ih (total + arrived.bytes.length) with ⟨ending, text, hands⟩
        exact ⟨ending, _, hands.cons fun _ _ _ => by rw [eofReads, if_neg large]⟩

/-!
## Chunked bodies
-/

/-- Where the chunks of a buffer lead, apart from the callback. -/
inductive DrainEnd (Failure : Type) where
  | more (buffer : Bytes) (total : ℕ)
  | ended (outcome : Except (StreamError Failure) Unit)

/-- What a callback that has read all makes of it. -/
def DrainEnd.settle (drainEnd : DrainEnd Failure) :
    Except Failure Bool × Context → Drained Context Failure
  | (.ok true, ctx) =>
      match drainEnd with
      | .more buffer total => .more buffer total ctx
      | .ended outcome => .ended outcome ctx
  | (.ok false, ctx) => .ended (.ok ()) ctx
  | (.error failure, ctx) => .ended (.error (.callback failure)) ctx

/-- The chunks of a buffer hand over a text. -/
theorem handsOver_drainChunks (Failure : Type) (max_response_bytes rounds : ℕ) (buffer : Bytes)
    (total : ℕ) : ∃ (drainEnd : DrainEnd Failure) (text : Bytes),
      ∀ Context (on_chunk : OnChunk Context Failure), Seamless on_chunk → ∀ ctx,
        drainChunks max_response_bytes on_chunk rounds buffer total ctx =
          drainEnd.settle (on_chunk ctx text) := by
  have stops (drainEnd : DrainEnd Failure) {rounds : ℕ} {buffer : Bytes} {total : ℕ}
      (stop : ∀ Context (on_chunk : OnChunk Context Failure) ctx,
        drainChunks max_response_bytes on_chunk rounds buffer total ctx =
          drainEnd.settle (.ok true, ctx)) :
      ∃ (drainEnd : DrainEnd Failure) (text : Bytes),
        ∀ Context (on_chunk : OnChunk Context Failure), Seamless on_chunk → ∀ ctx,
          drainChunks max_response_bytes on_chunk rounds buffer total ctx =
            drainEnd.settle (on_chunk ctx text) :=
    ⟨drainEnd, [], fun _ on_chunk seamless ctx => by rw [stop, seamless.nil]⟩
  induction rounds generalizing buffer total with
  | zero => exact stops (.more buffer total) fun _ _ _ => rfl
  | succ rounds ih =>
      cases found : Bytes.indexOf crlf buffer with
      | none => exact stops (.more buffer total) fun _ _ _ => by rw [drainChunks, found]; rfl
      | some line_end =>
          cases sized : chunkSize (buffer.take line_end) with
          | none =>
              refine stops (.ended (.error (.body .InvalidChunkedEncoding))) fun _ _ _ => ?_
              simp only [drainChunks, found, sized, DrainEnd.settle]
          | some chunk_len =>
              by_cases beyond : max_response_bytes < total
              · refine stops (.ended (.error (.body .integerOverflow))) fun _ _ _ => ?_
                simp only [drainChunks, found, sized, beyond, if_true, DrainEnd.settle]
              by_cases large : max_response_bytes - total < chunk_len
              · refine stops (.ended (.error (.body .ResponseTooLarge))) fun _ _ _ => ?_
                simp only [drainChunks, found, sized, beyond, large, if_true, if_false,
                  DrainEnd.settle]
              cases framed : frameLen line_end chunk_len with
              | none =>
                  refine stops (.ended (.error (.body .InvalidChunkedEncoding))) fun _ _ _ => ?_
                  simp only [drainChunks, found, sized, beyond, large, framed, if_false,
                    DrainEnd.settle]
              | some frame_len =>
                  by_cases short : buffer.length < frame_len
                  · refine stops (.more buffer total) fun _ _ _ => ?_
                    simp only [drainChunks, found, sized, beyond, large, framed, short, if_true,
                      if_false, DrainEnd.settle]
                  rcases Nat.eq_zero_or_pos chunk_len with rfl | some
                  · refine stops (.ended (.ok ())) fun _ _ _ => ?_
                    simp only [drainChunks, found, sized, beyond, large, framed, short, if_true,
                      if_false, DrainEnd.settle]
                  have last : ¬ chunk_len = 0 := Nat.ne_of_gt some
                  obtain ⟨chunk, taken⟩ : ∃ chunk, (buffer.drop (line_end + 2)).take chunk_len =
                      chunk := ⟨_, rfl⟩
                  by_cases wide : usizeMax < total + chunk.length
                  · refine stops (.ended (.error (.body .integerOverflow))) fun _ _ _ => ?_
                    simp only [drainChunks, found, sized, beyond, large, framed, short, last, taken,
                      wide, if_true, if_false, DrainEnd.settle]
                  -- Whether a line end follows is only seen when the chunk has been delivered.
                  have behind : ∃ (drainEnd : DrainEnd Failure) (text : Bytes),
                      ∀ Context (on_chunk : OnChunk Context Failure), Seamless on_chunk → ∀ ctx,
                        (if (buffer.drop (line_end + 2 + chunk_len)).take 2 = crlf then
                          drainChunks max_response_bytes on_chunk rounds
                            (buffer.drop frame_len) (total + chunk.length) ctx
                        else .ended (.error (.body .InvalidChunkedEncoding)) ctx) =
                          drainEnd.settle (on_chunk ctx text) := by
                    by_cases closed : (buffer.drop (line_end + 2 + chunk_len)).take 2 = crlf
                    · simp only [closed, if_true]
                      exact ih _ _
                    · simp only [closed, if_false]
                      exact ⟨.ended (.error (.body .InvalidChunkedEncoding)), [],
                        fun _ on_chunk seamless ctx => by rw [seamless.nil]; rfl⟩
                  rcases behind with ⟨drainEnd, text, hands⟩
                  refine ⟨drainEnd, chunk ++ text, fun _ on_chunk seamless ctx => ?_⟩
                  simp only [drainChunks, found, sized, beyond, large, framed, short, last, taken,
                    wide, if_false, seamless.append]
                  rcases on_chunk ctx chunk with ⟨⟨⟩ | ⟨⟨⟩⟩, ctx⟩
                  · rfl
                  · rfl
                  · exact hands _ on_chunk seamless ctx

/-- The chunks of a buffer and of all reads hand over a text. -/
theorem handsOver_streamReads (max_response_bytes : ℕ) (reads : List SocketRead) (buffer : Bytes)
    (total : ℕ) : ∃ (ending : Except (StreamError Failure) Unit) (text : Bytes),
      HandsOver .callback
      (fun _ on_chunk ctx => streamReads max_response_bytes on_chunk reads buffer total ctx)
      ending text := by
  -- When the buffer ends the stream, the reads do not matter.
  have whole {reads : List SocketRead} {buffer text : Bytes} {total : ℕ}
      {outcome : Except (StreamError Failure) Unit}
      (hands : ∀ Context (on_chunk : OnChunk Context Failure), Seamless on_chunk → ∀ ctx,
        drainChunks max_response_bytes on_chunk (buffer.length + 1) buffer total ctx =
          (DrainEnd.ended outcome).settle (on_chunk ctx text)) :
      HandsOver .callback
        (fun _ on_chunk ctx => streamReads max_response_bytes on_chunk reads buffer total ctx)
        outcome text := by
    intro _ on_chunk seamless ctx
    dsimp only
    unfold streamReads
    rw [hands _ on_chunk seamless]
    rcases on_chunk ctx text with ⟨⟨⟩ | ⟨⟨⟩⟩, ctx⟩ <;> rfl
  induction reads generalizing buffer total with
  | nil =>
      rcases handsOver_drainChunks Failure max_response_bytes (buffer.length + 1) buffer total with
        ⟨drainEnd, text, hands⟩
      cases drainEnd with
      | ended outcome => exact ⟨outcome, text, whole hands⟩
      | more buffer total =>
          refine ⟨.error (.body .InvalidChunkedEncoding), text, fun _ on_chunk seamless ctx => ?_⟩
          dsimp only
          unfold streamReads
          rw [hands _ on_chunk seamless]
          rcases on_chunk ctx text with ⟨⟨⟩ | ⟨⟨⟩⟩, ctx⟩ <;> rfl
  | cons arrived rest ih =>
      rcases handsOver_drainChunks Failure max_response_bytes (buffer.length + 1) buffer total with
        ⟨drainEnd, text, hands⟩
      cases drainEnd with
      | ended outcome => exact ⟨outcome, text, whole hands⟩
      | more buffer total =>
          -- What follows does not depend on what the callback has read so far.
          have behind : ∃ (ending : Except (StreamError Failure) Unit) (more : Bytes),
              HandsOver .callback
              (fun _ on_chunk ctx =>
                if max_response_bytes < total then (.error (.body .integerOverflow), ctx)
                else
                  let buffer_cap := bufferCap (max_response_bytes - total)
                  if buffer_cap < buffer.length ∨
                      buffer_cap - buffer.length < arrived.bytes.length then
                    (.error (.body .ResponseTooLarge), ctx)
                  else
                    streamReads max_response_bytes on_chunk rest (buffer ++ arrived.bytes) total
                      ctx) ending more := by
            by_cases beyond : max_response_bytes < total
            · exact ⟨_, [], .nil fun _ _ _ => if_pos beyond⟩
            · simp only [beyond, if_false]
              by_cases full : bufferCap (max_response_bytes - total) < buffer.length ∨
                  bufferCap (max_response_bytes - total) - buffer.length < arrived.bytes.length
              · exact ⟨_, [], .nil fun _ _ _ => if_pos full⟩
              · simp only [full, if_false]
                exact ih _ _
          rcases behind with ⟨ending, more, handsMore⟩
          refine ⟨ending, text ++ more, fun _ on_chunk seamless ctx => ?_⟩
          dsimp only
          unfold streamReads
          rw [hands _ on_chunk seamless, seamless.append]
          rcases on_chunk ctx text with ⟨⟨⟩ | ⟨⟨⟩⟩, ctx⟩
          · rfl
          · rfl
          · exact handsMore _ on_chunk seamless ctx

/-!
## The response
-/

/-- A response hands over a text. -/
theorem exists_handsOver_streamBody (Failure : Type) (response : HttpResponse)
    (max_response_bytes : ℕ) :
    ∃ (ending : Except (HttpError Failure) Unit) (text : Bytes),
      HandsOver callbackError
      (fun _ on_chunk ctx => streamBody response max_response_bytes ctx on_chunk) ending text := by
  simp only [streamBody]
  cases response.framing with
  | chunked =>
      by_cases large : bufferCap max_response_bytes < response.initial_body.length
      · refine ⟨.error (.stream (.body .ResponseTooLarge)), [], .nil fun _ _ _ => ?_⟩
        simp only [streamChunkedBody, large, if_true, Except.mapError]
      · rcases handsOver_streamReads max_response_bytes response.reads
          response.initial_body 0 with ⟨ending, text, hands⟩
        refine ⟨ending.mapError .stream, text, fun _ on_chunk seamless ctx => ?_⟩
        simp only [streamChunkedBody, large, if_false, hands _ on_chunk seamless ctx]
        rcases on_chunk ctx text with ⟨⟨⟩ | ⟨⟨⟩⟩, ctx⟩ <;> rfl
  | sized content_length =>
      simp only [streamSizedBody]
      by_cases large : max_response_bytes < content_length
      · simp only [large, if_true]
        exact ⟨_, [], .nil fun _ _ _ => rfl⟩
      · simp only [large, if_false]
        by_cases empty : response.initial_body.isEmpty = true
        · simp only [empty, if_true]
          exact handsOver_sizedReads _ _ _
        · simp only [empty]
          rcases handsOver_sizedReads response.reads_end response.reads
            (content_length - (response.initial_body.take content_length).length) with
            ⟨ending, text, hands⟩
          exact ⟨ending, _, hands.cons fun _ _ _ => rfl⟩
  | untilClosed =>
      simp only [streamEofBody]
      by_cases empty : response.initial_body.isEmpty = true
      · simp only [empty, if_true]
        exact handsOver_eofReads _ _ _ _
      · simp only [empty]
        by_cases large : max_response_bytes < response.initial_body.length
        · simp only [large, if_true]
          exact ⟨_, [], .nil fun _ _ _ => rfl⟩
        · simp only [large, if_false]
          rcases handsOver_eofReads response.reads_end max_response_bytes
            response.reads response.initial_body.length with ⟨ending, text, hands⟩
          exact ⟨ending, _, hands.cons fun _ _ _ => rfl⟩

theorem handsOver_streamBody (response : HttpResponse) (max_response_bytes : ℕ) :
    HandsOver callbackError
      (fun _ on_chunk ctx => streamBody response max_response_bytes ctx on_chunk)
      (response.ending Failure max_response_bytes)
      (response.received Failure max_response_bytes) := by
  rcases exists_handsOver_streamBody Failure response max_response_bytes with
    ⟨ending, text, hands⟩
  have collected : streamBody response max_response_bytes [] (collect Failure) = (ending, text) :=
    hands Bytes (collect Failure) seamless_collect []
  rw [HttpResponse.ending, HttpResponse.received, collected]
  exact hands

end Nullalis.HttpNative
