import Nullalis.Base.Occurrence
import Nullalis.SseClient.EventFraming

/-!
# The event stream of Signal

The channel collects what it reads, cuts off whatever ends at a boundary, which is two line ends in a
row, and has each piece parsed. How the stream is split into reads plays no role for the pieces. A
buffer that grows too much without a message is emptied.
-/

namespace Nullalis.Channels

open SseClient (SseEvent parseEvents linesOf blocks eventOf Separate)

/-- Where a piece ends and where the next one starts. -/
structure EventBoundary where
  «end» : ℕ
  next : ℕ
deriving DecidableEq

def nextEventBoundary (buffer : Bytes) : Option EventBoundary :=
  match Bytes.indexOf (ascii "\n\n") buffer, Bytes.indexOf (ascii "\r\n\r\n") buffer with
  | none, none => none
  | some lf_idx, none => some ⟨lf_idx, lf_idx + 2⟩
  | none, some crlf_idx => some ⟨crlf_idx, crlf_idx + 4⟩
  | some lf_idx, some crlf_idx =>
      if crlf_idx < lf_idx then some ⟨crlf_idx, crlf_idx + 4⟩ else some ⟨lf_idx, lf_idx + 2⟩

/-- The first piece of a buffer and what is behind its boundary. -/
def cutPiece : Framing UInt8 Bytes := fun buffer =>
  (nextEventBoundary buffer).map fun boundary =>
    (buffer.take boundary.end, buffer.drop boundary.next)

/-- The pieces of a buffer, and what remains. A boundary is at least two bytes long. -/
def cutPieces : ℕ → Bytes → List Bytes × Bytes
  | 0, buffer => ([], buffer)
  | fuel + 1, buffer =>
      match cutPiece buffer with
      | none => ([], buffer)
      | some (event_data, rest) =>
          let (pieces, remaining) := cutPieces fuel rest
          (event_data :: pieces, remaining)

/-- The most bytes that remain after a read without a message. -/
def MAX_PENDING : ℕ := 65536

/-- One read of the stream: the events that are parsed, and the buffer afterwards. Which events are
messages is up to their envelopes. -/
def pollMessages (isMessage : SseEvent → Bool) (sse_buffer read : Bytes) : List SseEvent × Bytes :=
  if read = [] then ([], sse_buffer)
  else
    let buffer := sse_buffer ++ read
    let (pieces, remaining) := cutPieces buffer.length buffer
    let events := pieces.flatMap parseEvents
    (events, if events.any isMessage = false ∧ MAX_PENDING < remaining.length then [] else remaining)

/-- All reads of a stream. -/
def receive (isMessage : SseEvent → Bool) : Bytes → List Bytes → List SseEvent × Bytes
  | sse_buffer, [] => ([], sse_buffer)
  | sse_buffer, read :: later =>
      let (events, sse_buffer) := pollMessages isMessage sse_buffer read
      let (more, sse_buffer) := receive isMessage sse_buffer later
      (events ++ more, sse_buffer)

/-- No read leaves more than the most bytes without a message. -/
def NeverEmptied (isMessage : SseEvent → Bool) : Bytes → List Bytes → Prop
  | _, [] => True
  | sse_buffer, read :: later =>
      let (pieces, remaining) := cutPieces (sse_buffer ++ read).length (sse_buffer ++ read)
      (read = [] ∨ (pieces.flatMap parseEvents).any isMessage = true ∨
        remaining.length ≤ MAX_PENDING) ∧
        NeverEmptied isMessage (pollMessages isMessage sse_buffer read).2 later

/-!
## Pieces
-/

variable {buffer rest more piece : Bytes}

theorem append_of_cutPiece (cut : cutPiece buffer = some (piece, rest)) :
    ∃ boundary ∈ [ascii "\n\n", ascii "\r\n\r\n"], buffer = piece ++ boundary ++ rest := by
  rcases Option.map_eq_some_iff.mp cut with ⟨boundary, found, same⟩
  cases same
  have at_lf {index : ℕ} (found : Bytes.indexOf (ascii "\n\n") buffer = some index) :=
    Bytes.append_of_indexOf found
  have at_crlf {index : ℕ} (found : Bytes.indexOf (ascii "\r\n\r\n") buffer = some index) :=
    Bytes.append_of_indexOf found
  unfold nextEventBoundary at found
  split at found
  case h_1 => cases found
  case h_2 lf_idx lf _ =>
    cases found
    exact ⟨_, List.mem_cons_self, at_lf lf⟩
  case h_3 crlf_idx _ crlf =>
    cases found
    exact ⟨_, by simp, at_crlf crlf⟩
  case h_4 lf_idx crlf_idx lf crlf =>
    split at found
    · cases found
      exact ⟨_, by simp, at_crlf crlf⟩
    · cases found
      exact ⟨_, List.mem_cons_self, at_lf lf⟩

theorem nextEventBoundary_append {boundary : EventBoundary}
    (found : nextEventBoundary buffer = some boundary) :
    nextEventBoundary (buffer ++ more) = some boundary := by
  unfold nextEventBoundary at found
  split at found
  case h_1 => cases found
  case h_2 lf_idx lf missing =>
    have lf_more := Bytes.indexOf_append more lf
    simp only [nextEventBoundary, lf_more]
    cases crlf_more : Bytes.indexOf (ascii "\r\n\r\n") (buffer ++ more) with
    | none => exact found
    | some crlf_idx =>
        have beyond : buffer.length < crlf_idx + 4 := Bytes.length_lt_of_indexOf missing crlf_more
        have within : lf_idx + 2 ≤ buffer.length := Bytes.indexOf_le lf
        -- A carriage return would have to be a line feed.
        have apart : ¬crlf_idx < lf_idx := by
          intro earlier
          have next : lf_idx + 1 = crlf_idx + 2 := by omega
          have feed := @Bytes.getElem?_of_indexOf _ _ _ 1 lf_more (by decide)
          have carriage := @Bytes.getElem?_of_indexOf _ _ _ 2 crlf_more (by decide)
          rw [next, carriage] at feed
          revert feed
          decide
        simp only [if_neg apart]
        exact found
  case h_3 crlf_idx missing crlf =>
    have crlf_more := Bytes.indexOf_append more crlf
    simp only [nextEventBoundary, crlf_more]
    cases lf_more : Bytes.indexOf (ascii "\n\n") (buffer ++ more) with
    | none => exact found
    | some lf_idx =>
        have beyond : buffer.length < lf_idx + 2 := Bytes.length_lt_of_indexOf missing lf_more
        have within : crlf_idx + 4 ≤ buffer.length := Bytes.indexOf_le crlf
        have earlier : crlf_idx < lf_idx := by omega
        simp only [if_pos earlier]
        exact found
  case h_4 lf_idx crlf_idx lf crlf =>
    simp only [nextEventBoundary, Bytes.indexOf_append more lf, Bytes.indexOf_append more crlf]
    exact found

theorem next_le_length {boundary : EventBoundary}
    (found : nextEventBoundary buffer = some boundary) :
    boundary.end + 2 ≤ boundary.next ∧ boundary.next ≤ buffer.length := by
  have at_lf {index : ℕ} (found : Bytes.indexOf (ascii "\n\n") buffer = some index) :
      index + 2 ≤ buffer.length := Bytes.indexOf_le found
  have at_crlf {index : ℕ} (found : Bytes.indexOf (ascii "\r\n\r\n") buffer = some index) :
      index + 4 ≤ buffer.length := Bytes.indexOf_le found
  unfold nextEventBoundary at found
  split at found
  case h_1 => cases found
  case h_2 lf_idx lf _ =>
    cases found
    exact ⟨Nat.le_refl _, at_lf lf⟩
  case h_3 crlf_idx _ crlf =>
    cases found
    exact ⟨by simp, at_crlf crlf⟩
  case h_4 lf_idx crlf_idx lf crlf =>
    split at found
    · cases found
      exact ⟨by simp, at_crlf crlf⟩
    · cases found
      exact ⟨Nat.le_refl _, at_lf lf⟩

theorem stable_cutPiece : Framing.Stable cutPiece := by
  intro buffer piece rest more cut
  rcases Option.map_eq_some_iff.mp cut with ⟨boundary, found, same⟩
  cases same
  have within := next_le_length found
  rw [cutPiece, nextEventBoundary_append found, Option.map_some,
    List.take_append_of_le_length (by omega), List.drop_append_of_le_length within.2]

theorem length_lt_of_cutPiece (cut : cutPiece buffer = some (piece, rest)) :
    rest.length < buffer.length := by
  rcases Option.map_eq_some_iff.mp cut with ⟨boundary, found, same⟩
  cases same
  have within := next_le_length found
  rw [List.length_drop]
  omega

theorem frames_cutPieces {fuel : ℕ} (enough : buffer.length ≤ fuel) :
    Framing.Frames cutPiece buffer (cutPieces fuel buffer).1 (cutPieces fuel buffer).2 ∧
      cutPiece (cutPieces fuel buffer).2 = none := by
  induction fuel generalizing buffer with
  | zero =>
      have empty : buffer = [] := List.eq_nil_of_length_eq_zero (by omega)
      subst empty
      exact ⟨.nil _, rfl⟩
  | succ fuel ih =>
      rw [cutPieces]
      cases cut : cutPiece buffer with
      | none => exact ⟨.nil _, cut⟩
      | some first =>
          have shorter := length_lt_of_cutPiece cut
          have remaining : first.2.length ≤ fuel := by omega
          rcases ih remaining with ⟨frames, stops⟩
          exact ⟨.cons cut frames, stops⟩

theorem frames_receive {isMessage : SseEvent → Bool} {sse_buffer : Bytes} {reads : List Bytes}
    (stops : cutPiece sse_buffer = none) (never : NeverEmptied isMessage sse_buffer reads) :
    ∃ pieces, Framing.Frames cutPiece (sse_buffer ++ reads.flatten) pieces
        (receive isMessage sse_buffer reads).2 ∧
      cutPiece (receive isMessage sse_buffer reads).2 = none ∧
      (receive isMessage sse_buffer reads).1 = pieces.flatMap parseEvents := by
  induction reads generalizing sse_buffer with
  | nil =>
      rw [List.flatten_nil, List.append_nil]
      exact ⟨[], .nil _, stops, rfl⟩
  | cons read later ih =>
      rw [NeverEmptied] at never
      by_cases nothing : read = []
      · subst nothing
        exact ih stops never.2
      · rcases frames_cutPieces (Nat.le_refl (sse_buffer ++ read).length) with ⟨frames, ends⟩
        have polled : pollMessages isMessage sse_buffer read =
            ((cutPieces (sse_buffer ++ read).length (sse_buffer ++ read)).1.flatMap parseEvents,
              (cutPieces (sse_buffer ++ read).length (sse_buffer ++ read)).2) := by
          have kept : ¬(((cutPieces (sse_buffer ++ read).length (sse_buffer ++ read)).1.flatMap
              parseEvents).any isMessage = false ∧ MAX_PENDING <
              (cutPieces (sse_buffer ++ read).length (sse_buffer ++ read)).2.length) := by
            rintro ⟨silent, large⟩
            rcases never.1 with empty | some_message | small
            · exact nothing empty
            · exact absurd (silent.symm.trans some_message) (by decide)
            · exact Nat.not_le.mpr large small
          simp only [pollMessages, if_neg nothing, if_neg kept]
        have kept := never.2
        rw [polled] at kept
        rcases ih ends kept with ⟨pieces, further, last, events⟩
        have whole := (frames.append stable_cutPiece later.flatten).trans further
        rw [List.append_assoc, ← List.flatten_cons] at whole
        refine ⟨(cutPieces (sse_buffer ++ read).length (sse_buffer ++ read)).1 ++ pieces, ?_⟩
        rw [receive, polled]
        exact ⟨whole, last, by rw [List.flatMap_append, ← events]⟩

/-!
## Lines of pieces
-/

theorem linesOf_append_cons (first second : Bytes) :
    linesOf (first ++ byte '\n' :: second) = linesOf first ++ linesOf second := by
  rw [linesOf, Bytes.splitScalar_append_cons, List.map_append]
  rfl

theorem linesOf_append_return (text : Bytes) : linesOf (text ++ [byte '\r']) = linesOf text := by
  by_cases mem : byte '\n' ∈ text
  · rcases List.append_of_mem mem with ⟨before, after, whole⟩
    rw [whole, List.append_assoc, List.cons_append, linesOf_append_cons, linesOf_append_cons,
      linesOf_append_return after]
  · have apart : byte '\n' ∉ text ++ [byte '\r'] := by
      simpa [byte] using mem
    rw [linesOf, linesOf, Bytes.splitScalar_of_not_mem mem, Bytes.splitScalar_of_not_mem apart]
    simp [Providers.trimReturns]
termination_by text.length
decreasing_by
  rw [whole, List.length_append, List.length_cons]
  omega

theorem linesOf_boundary {boundary : Bytes}
    (mem : boundary ∈ [ascii "\n\n", ascii "\r\n\r\n"]) (piece rest : Bytes) :
    linesOf (piece ++ boundary ++ rest) = linesOf piece ++ [] :: linesOf rest := by
  rcases List.mem_cons.mp mem with rfl | mem
  · have blank : linesOf (byte '\n' :: rest) = [] :: linesOf rest := linesOf_append_cons [] rest
    rw [← blank, ← linesOf_append_cons]
    simp [ascii]
  · rw [List.mem_singleton.mp mem]
    have blank : linesOf (byte '\r' :: byte '\n' :: rest) = [] :: linesOf rest :=
      linesOf_append_cons [byte '\r'] rest
    rw [← blank, ← linesOf_append_return piece, ← linesOf_append_cons]
    simp [ascii]

theorem exists_consumed {text pending : Bytes} {pieces : List Bytes}
    (frames : Framing.Frames cutPiece text pieces pending) :
    ∃ consumed, text = consumed ++ pending ∧
      (blocks (linesOf consumed)).filterMap eventOf =
        pieces.flatMap fun piece => (blocks (linesOf piece)).filterMap eventOf := by
  induction frames with
  | nil text => exact ⟨[], rfl, rfl⟩
  | @cons _ _ _ piece _ cut _ ih =>
      rcases append_of_cutPiece cut with ⟨boundary, mem, rfl⟩
      rcases ih with ⟨consumed, rfl, events⟩
      refine ⟨piece ++ boundary ++ consumed, by simp, ?_⟩
      rw [linesOf_boundary mem, SseClient.blocks_append_cons, List.filterMap_append, events,
        List.flatMap_cons]

/-- The events so far are those of the blocks of the stream up to its last boundary. -/
structure FramesEvents (stream : Bytes) (received : List SseEvent × Bytes) : Prop where
  framed : ∃ consumed, stream = consumed ++ received.2 ∧
    nextEventBoundary received.2 = none ∧
    received.1 = (blocks (linesOf consumed)).filterMap eventOf

def splitReads : List Bytes :=
  [ascii "event: update\r\nda", ascii "ta: one\r\ndata: two\r\n\r\ndata: three\n\n"]

/-- A block with a type and no data, before a block with data. -/
def leftoverRead : Bytes :=
  ascii "event: ping\n\r\ndata: one\n\n"

end Nullalis.Channels
