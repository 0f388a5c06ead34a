import Nullalis.Base.Radix

/-!
# Chunked bodies

The HTTP client decodes a chunked body in two ways: at once, when the whole body is there, or as
it arrives, with a buffer for what is not yet a whole chunk. A chunk is a line with its size in
hexadecimal, so many bytes and a line end; the size line of the last chunk says zero.

Sizes and positions are `usize`. An addition that the source leaves unchecked stops the process
when it overflows, and so does a subtraction below zero: `integerOverflow` stands for both.
-/

namespace Nullalis.HttpNative

/-- The largest `usize`. -/
def usizeMax : ℕ := 2 ^ 64 - 1

/-- `std.math.add` at `usize` -/
def addUsize (first second : ℕ) : Option ℕ :=
  if first + second ≤ usizeMax then some (first + second) else none

def crlf : Bytes := [13, 10]

/-- Why a body is not decoded. -/
inductive BodyError where
  | InvalidChunkedEncoding
  | ResponseTooLarge
  | integerOverflow
deriving DecidableEq

/-- The size that a size line gives, in front of its extensions. -/
def chunkSize (line : Bytes) : Option ℕ :=
  let semi := (Bytes.indexOfScalar (byte ';') line).getD line.length
  let size_str := Bytes.trim (ascii " \t") (line.take semi)
  Bytes.parseUnsigned 16 usizeMax size_str

/-!
## The whole body at once
-/

/-- The chunks from `index` on, behind the decoded bytes `out`. Each size line takes two bytes at
least, so that there are fewer rounds than bytes. -/
def decodeChunks (body : Bytes) (max_response_bytes : ℕ) :
    ℕ → ℕ → Bytes → Except BodyError Bytes
  | 0, _, _ => .error .InvalidChunkedEncoding
  | rounds + 1, index, out =>
      match Bytes.indexOf crlf (body.drop index) with
      | none => .error .InvalidChunkedEncoding
      | some line_end_rel =>
          let line := (body.drop index).take line_end_rel
          let index := index + (line_end_rel + 2)
          match chunkSize line with
          | none => .error .InvalidChunkedEncoding
          | some chunk_len =>
              if chunk_len = 0 then
                -- A line end after the last size line is skipped, and nothing is read behind it.
                if usizeMax < index + 2 then .error .integerOverflow else .ok out
              else if usizeMax < index + chunk_len + 2 then .error .integerOverflow
              else if body.length < index + chunk_len + 2 then .error .InvalidChunkedEncoding
              else if max_response_bytes < out.length + chunk_len then .error .ResponseTooLarge
              else
                let out := out ++ (body.drop index).take chunk_len
                let index := index + chunk_len
                if (body.drop index).take 2 = crlf then
                  decodeChunks body max_response_bytes rounds (index + 2) out
                else .error .InvalidChunkedEncoding

def decodeChunkedBody (body : Bytes) (max_response_bytes : ℕ) : Except BodyError Bytes :=
  decodeChunks body max_response_bytes (body.length + 1) 0 []

/-!
## The body as it arrives
-/

/-- What one read of the socket gives: some bytes, and no more than the array holds. -/
structure SocketRead where
  bytes : Bytes
  nonempty : bytes ≠ []
  fits : bytes.length ≤ 4096

/-- Why a stream ends early: its body is not accepted, or the callback fails. -/
inductive StreamError (Failure : Type) where
  | body (error : BodyError)
  | callback (failure : Failure)
deriving DecidableEq

/-- A callback with its context: whether the stream is to go on, or that it failed. -/
abbrev OnChunk (Context Failure : Type) := Context → Bytes → Except Failure Bool × Context

def collect (Failure : Type) : OnChunk Bytes Failure := fun delivered chunk =>
  (.ok true, delivered ++ chunk)

/-- Where the chunks of a buffer lead: more bytes are needed, or the stream has ended. -/
inductive Drained (Context Failure : Type) where
  | more (buffer : Bytes) (total : ℕ) (ctx : Context)
  | ended (outcome : Except (StreamError Failure) Unit) (ctx : Context)

def max_framing_bytes : ℕ := 16 * 1024

/-- How long the buffer may get while so many decoded bytes may still come. -/
def bufferCap (remaining_budget : ℕ) : ℕ :=
  (addUsize remaining_budget max_framing_bytes).getD usizeMax

/-- Where a chunk ends with its line end, by the place of its size line. -/
def frameLen (line_end chunk_len : ℕ) : Option ℕ := do
  let chunk_start ← addUsize line_end 2
  let chunk_end ← addUsize chunk_start chunk_len
  addUsize chunk_end 2

variable {Context Failure : Type}

/-- Deliver the chunks that are complete. -/
def drainChunks (max_response_bytes : ℕ) (on_chunk : OnChunk Context Failure) :
    ℕ → Bytes → ℕ → Context → Drained Context Failure
  | 0, buffer, total, ctx => .more buffer total ctx
  | rounds + 1, buffer, total, ctx =>
      match Bytes.indexOf crlf buffer with
      | none => .more buffer total ctx
      | some line_end =>
          match chunkSize (buffer.take line_end) with
          | none => .ended (.error (.body .InvalidChunkedEncoding)) ctx
          | some chunk_len =>
              if max_response_bytes < total then .ended (.error (.body .integerOverflow)) ctx
              else if max_response_bytes - total < chunk_len then
                .ended (.error (.body .ResponseTooLarge)) ctx
              else
                match frameLen line_end chunk_len with
                | none => .ended (.error (.body .InvalidChunkedEncoding)) ctx
                | some frame_len =>
                    if buffer.length < frame_len then .more buffer total ctx
                    else if chunk_len = 0 then .ended (.ok ()) ctx
                    else
                      let chunk := (buffer.drop (line_end + 2)).take chunk_len
                      if usizeMax < total + chunk.length then
                        .ended (.error (.body .integerOverflow)) ctx
                      else
                        match on_chunk ctx chunk with
                        | (.error failure, ctx) => .ended (.error (.callback failure)) ctx
                        | (.ok false, ctx) => .ended (.ok ()) ctx
                        | (.ok true, ctx) =>
                            if (buffer.drop (line_end + 2 + chunk_len)).take 2 = crlf then
                              drainChunks max_response_bytes on_chunk rounds
                                (buffer.drop frame_len) (total + chunk.length) ctx
                            else .ended (.error (.body .InvalidChunkedEncoding)) ctx

/-- Drain the buffer and read on, until the reads are over. -/
def streamReads (max_response_bytes : ℕ) (on_chunk : OnChunk Context Failure) :
    List SocketRead → Bytes → ℕ → Context → Except (StreamError Failure) Unit × Context
  | reads, buffer, total, ctx =>
      match drainChunks max_response_bytes on_chunk (buffer.length + 1) buffer total ctx with
      | .ended outcome ctx => (outcome, ctx)
      | .more buffer total ctx =>
          match reads with
          | [] => (.error (.body .InvalidChunkedEncoding), ctx)
          | read :: rest =>
              if max_response_bytes < total then (.error (.body .integerOverflow), ctx)
              else
                let buffer_cap := bufferCap (max_response_bytes - total)
                if buffer_cap < buffer.length ∨ buffer_cap - buffer.length < read.bytes.length then
                  (.error (.body .ResponseTooLarge), ctx)
                else
                  streamReads max_response_bytes on_chunk rest (buffer ++ read.bytes) total ctx

/-- Decode a body as it arrives: first what came with the headers, then what is read. -/
def streamChunkedBody (reads : List SocketRead) (initial_body : Bytes) (max_response_bytes : ℕ)
    (ctx : Context) (on_chunk : OnChunk Context Failure) :
    Except (StreamError Failure) Unit × Context :=
  if bufferCap max_response_bytes < initial_body.length then
    (.error (.body .ResponseTooLarge), ctx)
  else streamReads max_response_bytes on_chunk reads initial_body 0 ctx

end Nullalis.HttpNative
