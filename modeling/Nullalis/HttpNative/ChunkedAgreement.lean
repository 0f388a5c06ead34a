import Nullalis.Base.Framing
import Nullalis.HttpNative.Chunked

/-!
# The two decoders agree

A chunked body is chunks and then a last size line; what follows that line is its trailer. Both
decoders accept such bodies within the limit. The one that decodes a body as it arrives asks for
more: two bytes behind the last size line, and framing that does not fill its buffer.
-/

namespace Nullalis.HttpNative

open Framing (Frames)

/-!
## Chunked bodies
-/

/-- The size on the first line, and what follows that line. -/
def sizeLine (text : Bytes) : Option (ℕ × Bytes) := do
  let line_end ← Bytes.indexOf crlf text
  let size ← chunkSize (text.take line_end)
  some (size, text.drop (line_end + 2))

/-- The first chunk that carries data, when it is complete. -/
def takeChunk : Framing UInt8 Bytes := fun text =>
  (sizeLine text).bind fun (size, rest) =>
    if size ≠ 0 ∧ size + 2 ≤ rest.length ∧ (rest.drop size).take 2 = crlf then
      some (rest.take size, rest.drop (size + 2))
    else none

/-- A body: chunks with data, and a last size line with a trailer behind it. -/
def ChunkedBody (body : Bytes) (chunks : List Bytes) (trailer : Bytes) : Prop :=
  ∃ last, Frames takeChunk body chunks last ∧ sizeLine last = some (0, trailer)

def Waits (pending : Bytes) : Prop :=
  ∀ size rest, sizeLine pending = some (size, rest) → rest.length < size + 2

variable {text rest body trailer pending : Bytes} {size : ℕ} {chunks : List Bytes}

theorem sizeLine_eq_some : sizeLine text = some (size, rest) ↔
    ∃ line_end, Bytes.indexOf crlf text = some line_end ∧
      chunkSize (text.take line_end) = some size ∧ rest = text.drop (line_end + 2) := by
  simp only [sizeLine, Option.bind_eq_bind, Option.bind_eq_some_iff, Option.some.injEq,
    Prod.mk.injEq]
  constructor
  · rintro ⟨line_end, found, chunk_len, sized, rfl, rfl⟩
    exact ⟨line_end, found, sized, rfl⟩
  · rintro ⟨line_end, found, sized, rfl⟩
    exact ⟨line_end, found, size, sized, rfl, rfl⟩

theorem sizeLine_append (more : Bytes) (found : sizeLine text = some (size, rest)) :
    sizeLine (text ++ more) = some (size, rest ++ more) := by
  rcases sizeLine_eq_some.1 found with ⟨line_end, ending, sized, rfl⟩
  have inside : line_end + 2 ≤ text.length := Bytes.indexOf_le ending
  refine sizeLine_eq_some.2 ⟨line_end, Bytes.indexOf_append more ending, ?_, ?_⟩
  · rwa [List.take_append_of_le_length (by omega)]
  · rw [List.drop_append_of_le_length inside]

theorem length_of_sizeLine (found : sizeLine text = some (size, rest)) :
    rest.length + 2 ≤ text.length := by
  rcases sizeLine_eq_some.1 found with ⟨line_end, ending, sized, rfl⟩
  have inside : line_end + 2 ≤ text.length := Bytes.indexOf_le ending
  rw [List.length_drop]
  omega

theorem takeChunk_eq_some {chunk after : Bytes} :
    takeChunk text = some (chunk, after) ↔
      ∃ size rest, sizeLine text = some (size, rest) ∧ size ≠ 0 ∧ size + 2 ≤ rest.length ∧
        (rest.drop size).take 2 = crlf ∧ chunk = rest.take size ∧ after = rest.drop (size + 2) := by
  simp only [takeChunk, Option.bind_eq_some_iff, Option.ite_none_right_eq_some, Option.some.injEq,
    Prod.mk.injEq, Prod.exists]
  constructor
  · rintro ⟨size, rest, found, ⟨some, enough, closed⟩, rfl, rfl⟩
    exact ⟨size, rest, found, some, enough, closed, rfl, rfl⟩
  · rintro ⟨size, rest, found, some, enough, closed, rfl, rfl⟩
    exact ⟨size, rest, found, ⟨some, enough, closed⟩, rfl, rfl⟩

theorem length_of_takeChunk {chunk after : Bytes} (taken : takeChunk text = some (chunk, after)) :
    after.length ≤ text.length := by
  rcases takeChunk_eq_some.1 taken with ⟨size, rest, line, -, long, -, -, rfl⟩
  have inside := length_of_sizeLine line
  rw [List.length_drop]
  omega

theorem stable_takeChunk : Framing.Stable takeChunk := by
  intro text chunk after more found
  rcases takeChunk_eq_some.1 found with ⟨size, rest, line, some, enough, closed, rfl, rfl⟩
  refine takeChunk_eq_some.2
    ⟨size, rest ++ more, sizeLine_append more line, some, ?_, ?_, ?_, ?_⟩
  · rw [List.length_append]
    omega
  · rw [List.drop_append_of_le_length (by omega), List.take_append_of_le_length, closed]
    rw [List.length_drop]
    omega
  · rw [List.take_append_of_le_length (by omega)]
  · rw [List.drop_append_of_le_length enough]

theorem length_pending_le (taken : Frames takeChunk text chunks pending) :
    pending.length ≤ text.length := by
  induction taken with
  | nil text => exact Nat.le_refl _
  | cons first others ih => exact Nat.le_trans ih (length_of_takeChunk first)

theorem takeChunk_last (last : sizeLine text = some (0, trailer)) : takeChunk text = none := by
  simp [takeChunk, last]

theorem Waits.takeChunk (waits : Waits text) : takeChunk text = none := by
  cases taken : HttpNative.takeChunk text with
  | none => rfl
  | some frame =>
      rcases takeChunk_eq_some.1 taken with ⟨size, rest, line, -, enough, -⟩
      exact absurd (waits size rest line) (by omega)

theorem ChunkedBody.unique {others : List Bytes} {trailer' : Bytes}
    (whole : ChunkedBody body chunks trailer) (again : ChunkedBody body others trailer') :
    others = chunks ∧ trailer' = trailer := by
  rcases whole with ⟨last, taken, line⟩
  rcases again with ⟨last', taken', line'⟩
  rcases taken.unique taken' (takeChunk_last line) (takeChunk_last line') with ⟨rfl, rfl⟩
  cases line.symm.trans line'
  exact ⟨rfl, rfl⟩

theorem ChunkedBody.append (whole : ChunkedBody body chunks trailer) (more : Bytes) :
    ChunkedBody (body ++ more) chunks (trailer ++ more) := by
  rcases whole with ⟨last, taken, line⟩
  exact ⟨last ++ more, taken.append stable_takeChunk more, sizeLine_append more line⟩

theorem ChunkedBody.iff_of_frames (taken : Frames takeChunk text chunks rest)
    (more : Bytes) {all : List Bytes} :
    ChunkedBody (text ++ more) all trailer ↔
      ∃ later, all = chunks ++ later ∧ ChunkedBody (rest ++ more) later trailer := by
  have early := taken.append stable_takeChunk more
  constructor
  · rintro ⟨last, whole, line⟩
    rcases early.cancel whole (takeChunk_last line) with ⟨later, rfl, kept⟩
    exact ⟨later, rfl, last, kept, line⟩
  · rintro ⟨later, rfl, last, kept, line⟩
    exact ⟨last, early.trans kept, line⟩

theorem ChunkedBody.not_waits {received : List Bytes} (whole : ChunkedBody body chunks trailer)
    (closes : 2 ≤ trailer.length) (taken : Frames takeChunk body received pending) :
    ¬ Waits pending := by
  intro waits
  rcases whole with ⟨last, whole, line⟩
  rcases taken.unique whole waits.takeChunk (takeChunk_last line) with ⟨-, rfl⟩
  exact absurd (waits 0 trailer line) (by omega)

theorem ChunkedBody.cons {chunk after : Bytes} (first : takeChunk text = some (chunk, after))
    (others : ChunkedBody after chunks trailer) : ChunkedBody text (chunk :: chunks) trailer := by
  rcases others with ⟨last, taken, line⟩
  exact ⟨last, .cons first taken, line⟩

/-!
## The whole body at once
-/

variable {max_response_bytes rounds index : ℕ} {out decoded : Bytes}

/-- What is decoded is a chunked body within the limit. -/
theorem chunkedBody_of_decodeChunks (within : out.length ≤ max_response_bytes)
    (success : decodeChunks body max_response_bytes rounds index out = .ok decoded) :
    ∃ chunks trailer, ChunkedBody (body.drop index) chunks trailer ∧
      decoded = out ++ chunks.flatten ∧ decoded.length ≤ max_response_bytes := by
  induction rounds generalizing index out with
  | zero => cases success
  | succ rounds ih =>
      rw [decodeChunks] at success
      split at success
      case h_1 => cases success
      case h_2 line_end_rel found =>
          dsimp only at success
          split at success
          case h_1 => cases success
          case h_2 chunk_len sized =>
              have line : sizeLine (body.drop index) =
                  some (chunk_len, body.drop (index + (line_end_rel + 2))) := by
                simp [sizeLine, found, sized, List.drop_drop]
              split at success
              case isTrue last =>
                  subst last
                  split at success
                  case isTrue => cases success
                  case isFalse =>
                      cases success
                      exact ⟨[], _, ⟨_, .nil _, line⟩, (List.append_nil _).symm, within⟩
              case isFalse some =>
                  split at success
                  case isTrue => cases success
                  case isFalse =>
                      split at success
                      case isTrue => cases success
                      case isFalse enough =>
                          split at success
                          case isTrue => cases success
                          case isFalse few =>
                              split at success
                              case isFalse => cases success
                              case isTrue closed =>
                                  have bounded : (out ++ (body.drop
                                      (index + (line_end_rel + 2))).take chunk_len).length ≤
                                        max_response_bytes := by
                                    rw [List.length_append, List.length_take]
                                    omega
                                  rcases ih bounded success with ⟨chunks, trailer, rest, same, fits⟩
                                  refine ⟨_ :: chunks, trailer, .cons (takeChunk_eq_some.mpr
                                    ⟨chunk_len, _, line, some, ?_, ?_, rfl, rfl⟩) ?_, ?_, fits⟩
                                  · rw [List.length_drop]
                                    omega
                                  · rwa [List.drop_drop]
                                  · rwa [List.drop_drop, ← Nat.add_assoc]
                                  · rw [same, List.flatten_cons, List.append_assoc]

/-- A chunked body within the limit is decoded, when there is room behind its last size line. -/
theorem decodeChunks_of_chunkedBody (slice : body.length ≤ usizeMax)
    (enough : (body.drop index).length < rounds)
    (whole : ChunkedBody (body.drop index) chunks trailer) (closes : 2 ≤ trailer.length)
    (fits : out.length + chunks.flatten.length ≤ max_response_bytes) :
    decodeChunks body max_response_bytes rounds index out = .ok (out ++ chunks.flatten) := by
  induction rounds generalizing index out chunks with
  | zero => exact absurd enough (Nat.not_lt_zero _)
  | succ rounds ih =>
      rcases whole with ⟨last, taken, closing⟩
      rw [decodeChunks]
      cases taken with
      | nil text =>
          have inside := length_of_sizeLine closing
          rcases sizeLine_eq_some.mp closing with ⟨line_end, found, sized, rfl⟩
          rw [List.length_drop, List.length_drop] at inside closes
          rw [found]
          dsimp only
          rw [sized]
          dsimp only
          rw [if_pos rfl, if_neg (by omega), List.flatten_nil, List.append_nil]
      | @cons _ _ _ chunk others first more =>
          rcases takeChunk_eq_some.mp first with ⟨size, after, line, some, long, closed, rfl, rfl⟩
          have inside := length_of_sizeLine line
          rcases sizeLine_eq_some.mp line with ⟨line_end, found, sized, cut⟩
          rw [List.drop_drop] at cut
          subst cut
          rw [List.drop_drop] at closed more
          rw [List.length_drop] at long enough
          rw [List.length_drop, List.length_drop] at inside
          rw [List.flatten_cons, List.length_append] at fits
          have taken : ((body.drop (index + (line_end + 2))).take size).length = size := by
            rw [List.length_take, List.length_drop]
            omega
          have step := @ih others (index + (line_end + 2) + size + 2)
            (out ++ (body.drop (index + (line_end + 2))).take size)
            (by rw [List.length_drop]; omega) ⟨last, more, closing⟩
            (by rw [List.length_append]; omega)
          rw [found]
          dsimp only
          rw [sized]
          dsimp only
          rw [if_neg some, if_neg (by omega), if_neg (by omega), if_neg (by omega), if_pos closed,
            step, List.flatten_cons, List.append_assoc]

/-!
## The body as it arrives
-/

theorem frameLen_eq (line_end chunk_len : ℕ) :
    frameLen line_end chunk_len =
      if line_end + 2 + chunk_len + 2 ≤ usizeMax then some (line_end + 2 + chunk_len + 2)
      else none := by
  simp only [frameLen, addUsize, Option.bind_eq_bind]
  by_cases fits : line_end + 2 + chunk_len + 2 ≤ usizeMax
  · rw [if_pos (by omega), Option.bind_some, if_pos (by omega), Option.bind_some]
  · rw [if_neg fits]
    split
    case isFalse => rfl
    case isTrue =>
        rw [Option.bind_some]
        split
        case isFalse => rfl
        case isTrue => rw [Option.bind_some, if_neg fits]

theorem ChunkedBody.first (whole : ChunkedBody text chunks trailer) (closes : 2 ≤ trailer.length) :
    ∃ size rest, sizeLine text = some (size, rest) ∧ size + 2 ≤ rest.length ∧
      size ≤ chunks.flatten.length ∧ (size ≠ 0 → (rest.drop size).take 2 = crlf) := by
  rcases whole with ⟨last, taken, line⟩
  cases taken with
  | nil text => exact ⟨0, trailer, line, by omega, Nat.zero_le _, fun some => absurd rfl some⟩
  | cons first others =>
      rcases takeChunk_eq_some.mp first with ⟨size, rest, line, some, long, closed, rfl, rfl⟩
      refine ⟨size, rest, line, long, ?_, fun _ => closed⟩
      rw [List.flatten_cons, List.length_append, List.length_take]
      omega

/-- No body that starts with the buffer is closed and within the limit. -/
def Hopeless (max_response_bytes : ℕ) (buffer delivered : Bytes) : Prop :=
  ∀ more chunks trailer, (buffer ++ more).length ≤ usizeMax →
    ChunkedBody (buffer ++ more) chunks trailer → 2 ≤ trailer.length →
      max_response_bytes < delivered.length + chunks.flatten.length

/-- Where the chunks of a buffer lead when they are collected. -/
inductive Drains {Failure : Type} (max_response_bytes : ℕ) (buffer delivered : Bytes) :
    Drained Bytes Failure → Prop where
  | more {chunks : List Bytes} {pending all : Bytes} (taken : Frames takeChunk buffer chunks pending)
      (waits : Waits pending) (same : all = delivered ++ chunks.flatten)
      (within : all.length ≤ max_response_bytes) :
      Drains max_response_bytes buffer delivered (.more pending all.length all)
  | whole {chunks : List Bytes} {trailer all : Bytes} (whole : ChunkedBody buffer chunks trailer)
      (closes : 2 ≤ trailer.length) (same : all = delivered ++ chunks.flatten)
      (within : all.length ≤ max_response_bytes) :
      Drains max_response_bytes buffer delivered (.ended (.ok ()) all)
  | refused {error : StreamError Failure} {all : Bytes}
      (hopeless : Hopeless max_response_bytes buffer delivered) :
      Drains max_response_bytes buffer delivered (.ended (.error error) all)

variable {Failure : Type} {buffer delivered chunk : Bytes} {drained : Drained Bytes Failure}

theorem Drains.cons (first : takeChunk buffer = some (chunk, rest))
    (drains : Drains max_response_bytes rest (delivered ++ chunk) drained) :
    Drains max_response_bytes buffer delivered drained := by
  cases drains with
  | more taken waits same within =>
      rw [List.append_assoc, ← List.flatten_cons] at same
      exact .more (.cons first taken) waits same within
  | whole whole closes same within =>
      rw [List.append_assoc, ← List.flatten_cons] at same
      exact .whole (whole.cons first) closes same within
  | refused hopeless =>
      refine .refused fun more chunks trailer slice whole closes => ?_
      have single : Frames takeChunk buffer [chunk] rest := .cons first (.nil rest)
      rcases (ChunkedBody.iff_of_frames single more).mp whole with ⟨later, rfl, kept⟩
      have shorter := length_of_takeChunk first
      have beyond := hopeless more later trailer
        (by rw [List.length_append] at slice ⊢; omega) kept closes
      rw [List.length_append] at beyond
      rw [List.singleton_append, List.flatten_cons, List.length_append]
      omega

theorem hopeless_of_line {line_end : ℕ} (found : Bytes.indexOf crlf buffer = some line_end)
    (never : ∀ size more, chunkSize (buffer.take line_end) = some size →
      (buffer ++ more).length ≤ usizeMax → size + 2 ≤ (buffer.drop (line_end + 2) ++ more).length →
        (size ≠ 0 → ((buffer.drop (line_end + 2) ++ more).drop size).take 2 = crlf) →
          max_response_bytes < delivered.length + size) :
    Hopeless max_response_bytes buffer delivered := by
  intro more chunks trailer slice whole closes
  rcases whole.first closes with ⟨size, rest, line, long, small, closed⟩
  rcases sizeLine_eq_some.mp line with ⟨line_end', found', sized, rfl⟩
  cases (Bytes.indexOf_append more found).symm.trans found'
  have inside : line_end + 2 ≤ buffer.length := Bytes.indexOf_le found
  rw [List.drop_append_of_le_length inside] at long closed
  rw [List.take_append_of_le_length (by omega)] at sized
  exact Nat.lt_of_lt_of_le (never size more sized slice long closed) (Nat.add_le_add_left small _)

/-- Draining stops where more is needed, at the end of the body, or where there is no hope. -/
theorem drainChunks_spec (Failure : Type) (enough : buffer.length < rounds)
    (slice : buffer.length ≤ usizeMax) (limit : max_response_bytes ≤ usizeMax) (within : delivered.length ≤ max_response_bytes) :
    Drains max_response_bytes buffer delivered
      (drainChunks max_response_bytes (collect Failure) rounds buffer delivered.length
        delivered) := by
  induction rounds generalizing buffer delivered with
  | zero => exact absurd enough (Nat.not_lt_zero _)
  | succ rounds ih =>
      rw [drainChunks]
      split
      case h_1 none =>
          refine .more (.nil buffer) (fun size rest line => ?_) (List.append_nil _).symm within
          rcases sizeLine_eq_some.mp line with ⟨line_end, found, -⟩
          rw [none] at found
          cases found
      case h_2 line_end found =>
          split
          case h_1 unsized =>
              refine .refused (hopeless_of_line found fun size more sized => ?_)
              rw [unsized] at sized
              cases sized
          case h_2 chunk_len sized =>
              have inside : line_end + 2 ≤ buffer.length := Bytes.indexOf_le found
              have line : sizeLine buffer = some (chunk_len, buffer.drop (line_end + 2)) :=
                sizeLine_eq_some.mpr ⟨line_end, found, sized, rfl⟩
              have refused {error : StreamError Failure} {all : Bytes}
                  (never : ∀ more : Bytes, (buffer ++ more).length ≤ usizeMax →
                    chunk_len + 2 ≤ (buffer.drop (line_end + 2) ++ more).length →
                      (chunk_len ≠ 0 →
                        ((buffer.drop (line_end + 2) ++ more).drop chunk_len).take 2 = crlf) →
                          max_response_bytes < delivered.length + chunk_len) :
                  Drains max_response_bytes buffer delivered (.ended (.error error) all) := by
                refine .refused (hopeless_of_line found fun size more sized' => ?_)
                cases sized.symm.trans sized'
                exact never more
              rw [if_neg (Nat.not_lt.mpr within), frameLen_eq]
              split
              case isTrue beyond => exact refused fun _ _ _ _ => by omega
              case isFalse few =>
                  split
                  case h_1 wide =>
                      refine refused fun more slice long _ => ?_
                      have fits : ¬ line_end + 2 + chunk_len + 2 ≤ usizeMax := by
                        intro fits
                        rw [if_pos fits] at wide
                        cases wide
                      rw [List.length_append, List.length_drop] at long
                      rw [List.length_append] at slice
                      omega
                  case h_2 frame_len framed =>
                      rw [Option.ite_none_right_eq_some, Option.some.injEq] at framed
                      rcases framed with ⟨-, rfl⟩
                      split
                      case isTrue short =>
                          refine .more (.nil buffer) (fun size rest line' => ?_)
                            (List.append_nil _).symm within
                          cases line.symm.trans line'
                          rw [List.length_drop]
                          omega
                      case isFalse long =>
                          split
                          case isTrue last =>
                              subst last
                              refine .whole ⟨buffer, .nil buffer, line⟩ ?_ (List.append_nil _).symm
                                within
                              rw [List.length_drop]
                              omega
                          case isFalse some =>
                              have taken : ((buffer.drop (line_end + 2)).take chunk_len).length =
                                  chunk_len := by
                                rw [List.length_take, List.length_drop]
                                omega
                              have behind : (buffer.drop (line_end + 2)).drop chunk_len =
                                  buffer.drop (line_end + 2 + chunk_len) := List.drop_drop
                              rw [if_neg (by omega)]
                              dsimp only [collect]
                              split
                              case isTrue closed =>
                                  refine .cons (takeChunk_eq_some.mpr
                                    ⟨chunk_len, _, line, some, ?_, ?_, rfl, rfl⟩) ?_
                                  · rw [List.length_drop]
                                    omega
                                  · rwa [behind]
                                  · rw [← List.length_append, List.drop_drop]
                                    refine ih ?_ ?_ ?_
                                    · rw [List.length_drop]
                                      omega
                                    · rw [List.length_drop]
                                      omega
                                    · rw [List.length_append]
                                      omega
                              case isFalse open' =>
                                  refine refused fun more _ _ closed => absurd (closed some) ?_
                                  rwa [List.drop_append_of_le_length
                                    (by rw [List.length_drop]; omega), behind,
                                    List.take_append_of_le_length
                                      (by rw [List.length_drop]; omega)]

def received (reads : List SocketRead) : Bytes :=
  (reads.map (·.bytes)).flatten

/-- Whenever a read is needed, what waits for more and the read fit into what is left of the
limit and the room for framing. -/
def ReadsFit (budget : ℕ) (buffer : Bytes) (reads : List SocketRead) : Prop :=
  ∀ before read after, reads = before ++ read :: after → ∀ chunks pending,
    Frames takeChunk (buffer ++ received before) chunks pending → Waits pending →
      pending.length + read.bytes.length ≤ budget - chunks.flatten.length + max_framing_bytes

variable {budget : ℕ} {read : SocketRead} {reads : List SocketRead} {final : Bytes}

theorem append_received_cons (text : Bytes) (read : SocketRead) (reads : List SocketRead) :
    text ++ received (read :: reads) = text ++ read.bytes ++ received reads := by
  rw [received, List.map_cons, List.flatten_cons, ← List.append_assoc]
  rfl

theorem ReadsFit.of_whole (whole : ChunkedBody buffer chunks trailer)
    (closes : 2 ≤ trailer.length) : ReadsFit budget buffer reads := by
  intro before read after _ received pending taken waits
  have longer := whole.append (HttpNative.received before)
  refine absurd waits (longer.not_waits ?_ taken)
  rw [List.length_append]
  omega

theorem readsFit_cons (taken : Frames takeChunk buffer chunks pending) (waits : Waits pending) :
    ReadsFit budget buffer (read :: reads) ↔
      pending.length + read.bytes.length ≤ budget - chunks.flatten.length + max_framing_bytes ∧
        ReadsFit (budget - chunks.flatten.length) (pending ++ read.bytes) reads := by
  have further (before : List SocketRead) :
      Frames takeChunk (buffer ++ received (read :: before)) chunks
        (pending ++ read.bytes ++ received before) := by
    have more := taken.append stable_takeChunk (received (read :: before))
    rwa [append_received_cons pending] at more
  constructor
  · intro fit
    refine ⟨fit [] read reads rfl chunks pending ?_ waits, ?_⟩
    · rwa [received, List.map_nil, List.flatten_nil, List.append_nil]
    · rintro before next after rfl later rest framed stands
      have bounded := fit (read :: before) next after rfl (chunks ++ later) rest
        ((further before).trans framed) stands
      rwa [List.flatten_append, List.length_append, ← Nat.sub_sub] at bounded
  · rintro ⟨first, others⟩ before next after split all rest framed stands
    cases before with
    | nil =>
        cases split
        rw [received, List.map_nil, List.flatten_nil, List.append_nil] at framed
        rcases taken.unique framed waits.takeChunk stands.takeChunk with ⟨rfl, rfl⟩
        exact first
    | cons early before =>
        rw [List.cons_append, List.cons.injEq] at split
        rcases split with ⟨rfl, rfl⟩
        rcases (further before).cancel framed stands.takeChunk with ⟨later, rfl, kept⟩
        rw [List.flatten_append, List.length_append, ← Nat.sub_sub]
        exact others before next after rfl later rest kept stands

theorem bufferCap_lt_iff (budget buffered size : ℕ) (slice : buffered + size ≤ usizeMax) :
    (bufferCap budget < buffered ∨ bufferCap budget - buffered < size) ↔
      budget + max_framing_bytes < buffered + size := by
  rw [bufferCap, addUsize]
  split
  case isTrue => rw [Option.getD_some]; omega
  case isFalse => rw [Option.getD_none]; omega

/-- The body that arrives is closed and within the limit, and its reads fit. -/
def Accepts (max_response_bytes : ℕ) (reads : List SocketRead) (buffer delivered final : Bytes) :
    Prop :=
  ∃ chunks trailer, ChunkedBody (buffer ++ received reads) chunks trailer ∧ 2 ≤ trailer.length ∧
    final = delivered ++ chunks.flatten ∧ final.length ≤ max_response_bytes ∧
      ReadsFit (max_response_bytes - delivered.length) buffer reads

theorem Drains.ended_iff {outcome : Except (StreamError Failure) Unit} {all : Bytes}
    (drains : Drains max_response_bytes buffer delivered (.ended outcome all))
    (slice : (buffer ++ received reads).length ≤ usizeMax) :
    (outcome, all) = (.ok (), final) ↔
      Accepts max_response_bytes reads buffer delivered final := by
  cases drains with
  | whole whole closes same within =>
      have later := whole.append (received reads)
      constructor
      · intro ended
        cases ended
        refine ⟨_, _, later, ?_, same, within, .of_whole whole closes⟩
        rw [List.length_append]
        omega
      · rintro ⟨chunks, trailer, whole', -, same', -⟩
        rcases later.unique whole' with ⟨rfl, -⟩
        rw [same, same']
  | refused hopeless =>
      constructor
      · intro ended
        cases ended
      · rintro ⟨chunks, trailer, whole, closes, rfl, within, -⟩
        have beyond := hopeless _ chunks trailer slice whole closes
        rw [List.length_append] at within
        omega

/-- A body is accepted as it arrives when it is closed, within the limit, and its reads fit. -/
theorem streamReads_eq_ok (limit : max_response_bytes ≤ usizeMax)
    (slice : (buffer ++ received reads).length ≤ usizeMax)
    (within : delivered.length ≤ max_response_bytes) :
    streamReads max_response_bytes (collect Failure) reads buffer delivered.length delivered =
        (.ok (), final) ↔
      Accepts max_response_bytes reads buffer delivered final := by
  have start {reads : List SocketRead} {buffer delivered : Bytes}
      (slice : (buffer ++ received reads).length ≤ usizeMax)
      (within : delivered.length ≤ max_response_bytes) :=
    drainChunks_spec Failure (Nat.lt_succ_self buffer.length)
      (Nat.le_trans (List.prefix_append buffer (received reads)).length_le slice) limit within
  induction reads generalizing buffer delivered with
  | nil =>
      rw [streamReads]
      have drains := start slice within
      generalize drainChunks _ _ _ _ _ _ = drained at *
      cases drained with
      | ended outcome ctx => exact drains.ended_iff slice
      | more pending total all =>
          cases drains with
          | more taken waits same few =>
              constructor
              · intro ended
                cases ended
              · rintro ⟨chunks, trailer, whole, closes, -⟩
                rw [received, List.map_nil, List.flatten_nil, List.append_nil] at whole
                exact absurd waits (whole.not_waits closes taken)
  | cons read reads ih =>
      rw [streamReads]
      have drains := start slice within
      generalize drainChunks _ _ _ _ _ _ = drained at *
      cases drained with
      | ended outcome ctx => exact drains.ended_iff slice
      | more pending total all =>
          cases drains with
          | @more chunks _ _ taken waits same few =>
              have shorter := length_pending_le taken
              have slice' : (pending ++ read.bytes ++ received reads).length ≤ usizeMax := by
                rw [append_received_cons] at slice
                simp only [List.length_append] at slice ⊢
                omega
              have fits := bufferCap_lt_iff (max_response_bytes - all.length) pending.length
                read.bytes.length (by
                  rw [List.length_append, List.length_append] at slice'
                  omega)
              have left : max_response_bytes - all.length =
                  max_response_bytes - delivered.length - chunks.flatten.length := by
                rw [same, List.length_append, Nat.sub_sub]
              dsimp only
              rw [if_neg (Nat.not_lt.mpr few)]
              split
              case isTrue beyond =>
                  constructor
                  · intro ended
                    cases ended
                  · rintro ⟨_, _, _, _, _, _, fit⟩
                    have first := ((readsFit_cons taken waits).mp fit).1
                    rw [← left] at first
                    exact absurd (fits.mp beyond) (Nat.not_lt.mpr first)
              case isFalse room =>
                  have first := Nat.not_lt.mp (fits.not.mp room)
                  refine (ih slice' few).trans ⟨?_, ?_⟩
                  · rintro ⟨later, trailer, whole, closes, rfl, within, fit⟩
                    rw [← append_received_cons] at whole
                    refine ⟨chunks ++ later, trailer,
                      (ChunkedBody.iff_of_frames taken _).mpr ⟨later, rfl, whole⟩, closes, ?_,
                        within, (readsFit_cons taken waits).mpr ⟨left ▸ first, left ▸ fit⟩⟩
                    rw [same, List.flatten_append, List.append_assoc]
                  · rintro ⟨every, trailer, whole, closes, rfl, within, fit⟩
                    rcases (ChunkedBody.iff_of_frames taken _).mp whole with ⟨later, rfl, kept⟩
                    rw [append_received_cons] at kept
                    refine ⟨later, trailer, kept, closes, ?_, within,
                      left ▸ ((readsFit_cons taken waits).mp fit).2⟩
                    rw [same, List.flatten_append, List.append_assoc]

/-!
## No overflow in the stream
-/

section Overflow

variable {Context : Type} {on_chunk : OnChunk Context Failure} {ctx : Context} {total : ℕ}

/-- No more than the limit is delivered, and no sum overflows. -/
def Drained.Bounded (max_response_bytes : ℕ) : Drained Context Failure → Prop
  | .more _ total _ => total ≤ max_response_bytes
  | .ended outcome _ => outcome ≠ .error (.body .integerOverflow)

theorem drainChunks_bounded (on_chunk : OnChunk Context Failure) (rounds : ℕ) (buffer : Bytes)
    (ctx : Context) (limit : max_response_bytes ≤ usizeMax) (within : total ≤ max_response_bytes) :
    (drainChunks max_response_bytes on_chunk rounds buffer total ctx).Bounded
      max_response_bytes := by
  induction rounds generalizing buffer total ctx with
  | zero => exact within
  | succ rounds ih =>
      rw [drainChunks]
      split
      case h_1 => exact within
      case h_2 line_end _ =>
          split
          case h_1 => exact nofun
          case h_2 chunk_len _ =>
              rw [if_neg (Nat.not_lt.mpr within)]
              split
              case isTrue => exact nofun
              case isFalse few =>
                  have counted : total + ((buffer.drop (line_end + 2)).take chunk_len).length ≤
                      max_response_bytes := by
                    rw [List.length_take]
                    omega
                  split
                  case h_1 => exact nofun
                  case h_2 =>
                      split
                      case isTrue => exact within
                      case isFalse =>
                          split
                          case isTrue => exact nofun
                          case isFalse =>
                              rw [if_neg (Nat.not_lt.mpr (Nat.le_trans counted limit))]
                              split
                              case h_1 => exact nofun
                              case h_2 => exact nofun
                              case h_3 =>
                                  split
                                  case isTrue => exact ih _ _ counted
                                  case isFalse => exact nofun

theorem streamReads_ne_integerOverflow (limit : max_response_bytes ≤ usizeMax)
    (within : total ≤ max_response_bytes) :
    (streamReads max_response_bytes on_chunk reads buffer total ctx).1 ≠
      .error (.body .integerOverflow) := by
  induction reads generalizing buffer total ctx with
  | nil =>
      rw [streamReads]
      have bounded := drainChunks_bounded on_chunk (buffer.length + 1) buffer ctx limit within
      generalize drainChunks _ _ _ _ _ _ = drained at *
      cases drained with
      | more pending total ctx => exact nofun
      | ended outcome ctx => exact bounded
  | cons read reads ih =>
      rw [streamReads]
      have bounded := drainChunks_bounded on_chunk (buffer.length + 1) buffer ctx limit within
      generalize drainChunks _ _ _ _ _ _ = drained at *
      cases drained with
      | ended outcome ctx => exact bounded
      | more pending total ctx =>
          dsimp only
          rw [if_neg (Nat.not_lt.mpr bounded)]
          split
          case isTrue => exact nofun
          case isFalse => exact ih bounded

end Overflow

/-!
## The two decoders
-/

/-- A body that arrives in pieces: what comes with the headers and what is read. As a whole it
is a slice, so that its length is a `usize`. -/
structure ChunkedInput where
  initial_body : Bytes
  reads : List SocketRead
  slice : (initial_body ++ received reads).length ≤ usizeMax

def ChunkedInput.whole (input : ChunkedInput) : Bytes :=
  input.initial_body ++ received input.reads

/-- The last size line of a chunked body is there, and two bytes at least follow it. -/
def Closed (body : Bytes) : Prop :=
  ∃ chunks trailer, ChunkedBody body chunks trailer ∧ 2 ≤ trailer.length

/-- What comes with the headers fits into the limit and the room for framing, and so does every
read that is needed. -/
def FramingFits (max_response_bytes : ℕ) (input : ChunkedInput) : Prop :=
  input.initial_body.length ≤ max_response_bytes + max_framing_bytes ∧
    ReadsFit max_response_bytes input.initial_body input.reads

theorem accepts_iff (limit : max_response_bytes ≤ usizeMax)
    (slice : (buffer ++ received reads).length ≤ usizeMax) :
    streamReads max_response_bytes (collect Failure) reads buffer 0 [] = (.ok (), final) ↔
      decodeChunkedBody (buffer ++ received reads) max_response_bytes = .ok final ∧
        Closed (buffer ++ received reads) ∧ ReadsFit max_response_bytes buffer reads := by
  have none : ([] : Bytes).length ≤ max_response_bytes := Nat.zero_le _
  refine (streamReads_eq_ok limit slice none).trans ⟨?_, ?_⟩
  · rintro ⟨chunks, trailer, whole, closes, rfl, within, fit⟩
    refine ⟨?_, ⟨chunks, trailer, whole, closes⟩, fit⟩
    exact decodeChunks_of_chunkedBody slice (Nat.lt_succ_self _) whole closes
      (by rwa [List.length_append] at within)
  · rintro ⟨success, ⟨chunks, trailer, whole, closes⟩, fit⟩
    rcases chunkedBody_of_decodeChunks (Nat.zero_le _) success with
      ⟨chunks', trailer', whole', same, within⟩
    rcases whole.unique whole' with ⟨rfl, rfl⟩
    exact ⟨chunks', trailer', whole, closes, same, within, fit⟩

/-- The stream accepts the bodies that the whole decoder accepts, as far as they are closed and
their framing fits, and delivers the same bytes. None of its sums overflows. -/
theorem streamChunkedBody_eq_ok_iff (Failure : Type) (max_response_bytes : UInt64)
    (input : ChunkedInput) :
    (∀ delivered,
      streamChunkedBody input.reads input.initial_body max_response_bytes.toNat []
          (collect Failure) = (.ok (), delivered) ↔
        decodeChunkedBody input.whole max_response_bytes.toNat = .ok delivered ∧
          Closed input.whole ∧ FramingFits max_response_bytes.toNat input) ∧
    ∀ (Context : Type) (ctx : Context) (on_chunk : OnChunk Context Failure),
      (streamChunkedBody input.reads input.initial_body max_response_bytes.toNat ctx
        on_chunk).1 ≠ .error (.body .integerOverflow) := by
  have limit : max_response_bytes.toNat ≤ usizeMax := Nat.le_pred_of_lt max_response_bytes.toNat_lt
  have initial : bufferCap max_response_bytes.toNat < input.initial_body.length ↔
      max_response_bytes.toNat + max_framing_bytes < input.initial_body.length := by
    have fits := bufferCap_lt_iff max_response_bytes.toNat input.initial_body.length 0
      (Nat.le_trans (List.prefix_append _ _).length_le input.slice)
    simpa using fits
  refine ⟨fun delivered => ?_, fun Context ctx on_chunk => ?_⟩
  · rw [streamChunkedBody]
    split
    case isTrue beyond =>
        constructor
        · intro ended
          cases ended
        · rintro ⟨-, -, fits, -⟩
          exact absurd (initial.mp beyond) (Nat.not_lt.mpr fits)
    case isFalse room =>
        have fits := Nat.not_lt.mp (initial.not.mp room)
        rw [accepts_iff limit input.slice, ChunkedInput.whole, FramingFits]
        constructor
        · rintro ⟨success, closed, fit⟩
          exact ⟨success, closed, fits, fit⟩
        · rintro ⟨success, closed, -, fit⟩
          exact ⟨success, closed, fit⟩
  · rw [streamChunkedBody]
    split
    case isTrue => exact nofun
    case isFalse => exact streamReads_ne_integerOverflow limit (Nat.zero_le _)

/-- A socket that gives a last size line and nothing behind it. -/
def endsEarly : ChunkedInput where
  initial_body := ascii "0\r\n"
  reads := []
  slice := by decide

/-- The decoders do not accept the same bodies: the stream waits for two more bytes. -/
theorem not_streamChunkedBody_eq_ok_iff :
    ¬ ∀ (max_response_bytes : UInt64) (input : ChunkedInput) (delivered : Bytes),
      streamChunkedBody input.reads input.initial_body max_response_bytes.toNat []
          (collect Empty) = (.ok (), delivered) ↔
        decodeChunkedBody input.whole max_response_bytes.toNat = .ok delivered := by
  intro agree
  have streamed := (agree 100 endsEarly []).mpr (by decide)
  have waited : (streamChunkedBody endsEarly.reads endsEarly.initial_body 100 []
      (collect Empty)).1 = .error (.body .InvalidChunkedEncoding) := by
    decide
  rw [show (100 : UInt64).toNat = 100 from rfl] at streamed
  rw [streamed] at waited
  cases waited

end Nullalis.HttpNative
