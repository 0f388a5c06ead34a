import Nullalis.Base.Framing
import Nullalis.Base.Json
import Nullalis.ExtensionWs.Frames

/-!
# Which messages of the extension are delivered

A message may come in several frames, with control frames between them. What is to be delivered are
the texts of complete messages that are no heartbeats. The pump looks at the first frame of each.
-/

namespace Nullalis.ExtensionWs

/-- A message of a client, in a first frame and what continues it. -/
structure ClientMessage where
  opcode : Opcode
  first : Bytes
  rest : Bytes
  complete : Bool
deriving DecidableEq

namespace ClientMessage

def payload (message : ClientMessage) : Bytes :=
  message.first ++ message.rest

def extend (message : ClientMessage) (frame : Frame) : ClientMessage :=
  { message with rest := message.rest ++ frame.payload, complete := frame.fin }

end ClientMessage

def Frame.isControl (frame : Frame) : Bool :=
  frame.fin && decide (frame.payload.length ≤ 125)

/-- The messages in the frames of a valid stream, with one that may be pending. The last message may
be incomplete, and a close frame is the last one. -/
def assemble : Option ClientMessage → List Frame → Option (List ClientMessage)
  | pending, [] => some pending.toList
  | pending, frame :: later =>
      match frame.opcode with
      | .text | .binary =>
          let message := ⟨frame.opcode, frame.payload, [], frame.fin⟩
          if pending.isSome then none
          else if frame.fin then (assemble none later).map (message :: ·)
          else assemble (some message) later
      | .continuation =>
          pending.bind fun message =>
            let message := message.extend frame
            if frame.fin then (assemble none later).map (message :: ·)
            else assemble (some message) later
      | .ping | .pong => if frame.isControl then assemble pending later else none
      | .close => if frame.isControl && later.isEmpty then some pending.toList else none
      | .reserved _ => none

/-- Is the text an object of JSON that is a heartbeat by its own type? -/
def isHeartbeat (text : Bytes) : Bool :=
  match Json.parse text with
  | some (.object members) =>
      let kind := (Json.get? members (ascii "type")).bind Json.string?
      kind == some (ascii "ping") || kind == some (ascii "pong")
  | _ => false

/-- What is to be delivered of a message. -/
def ClientMessage.wanted (message : ClientMessage) : List Bytes :=
  if message.opcode = .text ∧ message.complete = true ∧ isHeartbeat message.payload = false then
    [message.payload]
  else []

/-!
## The look of a heartbeat
-/

variable {text : Bytes}

/-- Does the text have the type of a heartbeat in it, anywhere? -/
def looksLikeHeartbeat (text : Bytes) : Bool :=
  let trimmed := Bytes.trim (ascii " \t\r\n") text
  (Bytes.indexOf (ascii "\"type\":\"ping\"") trimmed).isSome ||
    (Bytes.indexOf (ascii "\"type\":\"pong\"") trimmed).isSome

def Frame.handed (frame : Frame) : List Bytes :=
  if frame.opcode = .text ∧ looksLikeHeartbeat frame.payload = false then [frame.payload] else []

def ClientMessage.handed (message : ClientMessage) : List Bytes :=
  if message.opcode = .text ∧ looksLikeHeartbeat message.first = false then [message.first] else []

theorem looksLikeHeartbeat_iff : looksLikeHeartbeat text = true ↔
    ascii "\"type\":\"ping\"" <:+: text ∨ ascii "\"type\":\"pong\"" <:+: text := by
  have quoted {needle : Bytes} (starts : needle.head? = some (byte '"'))
      (ends : needle.getLast? = some (byte '"')) :
      (Bytes.indexOf needle (Bytes.trim (ascii " \t\r\n") text)).isSome = true ↔
        needle <:+: text := by
    rw [Bytes.indexOf_isSome_iff, Bytes.infix_trim_iff starts ends (by decide) (by decide)]
  rw [looksLikeHeartbeat, Bool.or_eq_true, quoted rfl rfl, quoted rfl rfl]

theorem looksLikeHeartbeat_append (more : Bytes) (looks : looksLikeHeartbeat text = true) :
    looksLikeHeartbeat (text ++ more) = true := by
  rw [looksLikeHeartbeat_iff] at looks ⊢
  have longer : text <:+: text ++ more := (List.prefix_append text more).isInfix
  exact looks.imp (·.trans longer) (·.trans longer)

/-!
## What is handed over
-/

theorem delivered_onFrame {frame : Frame} {later : Pumped} (going : frame.opcode ≠ .close) :
    (onFrame frame later).ended = later.ended ∧
      (onFrame frame later).delivered = frame.handed ++ later.delivered := by
  unfold onFrame Frame.handed
  cases kind : frame.opcode with
  | close => exact absurd kind going
  | text =>
      simp only [looksLikeHeartbeat]
      split
      case isTrue ping => simp [ping, Pumped.write]
      case isFalse ping =>
        split
        case isTrue pong => simp [pong]
        case isFalse pong => simp [ping, pong, Pumped.deliver]
  | _ => simp [Pumped.write]

theorem pumpLoop_bytes (fuel : ℕ) (frame : ClientFrame) (rest : Bytes) :
    pumpLoop (fuel + 1) (frame.bytes ++ rest) =
      if frame.payload.length ≤ MAX_FRAME_PAYLOAD then onFrame frame.toFrame (pumpLoop fuel rest)
      else { ended := .failed .FrameTooLarge } := by
  by_cases small : frame.payload.length ≤ MAX_FRAME_PAYLOAD
  · rw [pumpLoop, readFrame_bytes, if_pos small, if_pos small]
  · rw [pumpLoop, readFrame_bytes, if_neg small, if_neg small]

/-- One frame of a valid stream ends the stream, or it may complete a message and leave another one
pending. -/
theorem assemble_cons {pending : Option ClientMessage} {frame : Frame} {later : List Frame}
    {messages : List ClientMessage} (valid : assemble pending (frame :: later) = some messages) :
    (frame.opcode = .close ∧ frame.isControl = true ∧ later = [] ∧ messages = pending.toList) ∨
      frame.opcode ≠ .close ∧ ∃ done next rest, assemble next later = some rest ∧
        messages = done ++ rest ∧
        pending.toList.flatMap ClientMessage.handed ++ frame.handed =
          (done ++ next.toList).flatMap ClientMessage.handed := by
  -- A first frame leaves its own message, whole or pending.
  have first {kind : Opcode} (same : frame.opcode = kind) (data : kind ≠ .close)
      (opened : (if pending.isSome = true then none
        else if frame.fin = true then
          (assemble none later).map (⟨kind, frame.payload, [], frame.fin⟩ :: ·)
        else assemble (some ⟨kind, frame.payload, [], frame.fin⟩) later) = some messages) :
      kind ≠ .close ∧ ∃ done next rest, assemble next later = some rest ∧
        messages = done ++ rest ∧
        pending.toList.flatMap ClientMessage.handed ++ frame.handed =
          (done ++ next.toList).flatMap ClientMessage.handed := by
    split at opened
    case isTrue => cases opened
    case isFalse none_pending =>
      rw [Option.not_isSome_iff_eq_none] at none_pending
      subst none_pending
      split at opened
      case isTrue =>
        rcases Option.map_eq_some_iff.mp opened with ⟨rest, assembled, rfl⟩
        exact ⟨data, [_], none, rest, assembled, rfl,
          by simp [Frame.handed, ClientMessage.handed, same]⟩
      case isFalse =>
        exact ⟨data, [], some _, messages, opened, rfl,
          by simp [Frame.handed, ClientMessage.handed, same]⟩
  rw [assemble] at valid
  cases kind : frame.opcode with
  | reserved code => simp [kind] at valid
  | close =>
      simp only [kind] at valid
      split at valid
      case isFalse => cases valid
      case isTrue last =>
        simp only [Bool.and_eq_true, List.isEmpty_iff] at last
        exact Or.inl ⟨rfl, last.1, last.2, (Option.some.inj valid).symm⟩
  | ping =>
      simp only [kind] at valid
      split at valid
      case isFalse => cases valid
      case isTrue =>
        exact Or.inr ⟨by simp, [], pending, messages, valid, rfl, by simp [Frame.handed, kind]⟩
  | pong =>
      simp only [kind] at valid
      split at valid
      case isFalse => cases valid
      case isTrue =>
        exact Or.inr ⟨by simp, [], pending, messages, valid, rfl, by simp [Frame.handed, kind]⟩
  | continuation =>
      simp only [kind] at valid
      rcases Option.bind_eq_some_iff.mp valid with ⟨message, rfl, extended⟩
      split at extended
      case isTrue =>
        rcases Option.map_eq_some_iff.mp extended with ⟨rest, assembled, rfl⟩
        exact Or.inr ⟨by simp, [message.extend frame], none, rest, assembled, rfl,
          by simp [Frame.handed, kind, ClientMessage.handed, ClientMessage.extend]⟩
      case isFalse =>
        exact Or.inr ⟨by simp, [], some (message.extend frame), messages, extended, rfl,
          by simp [Frame.handed, kind, ClientMessage.handed, ClientMessage.extend]⟩
  | text =>
      simp only [kind] at valid
      exact Or.inr (first kind (by simp) valid)
  | binary =>
      simp only [kind] at valid
      exact Or.inr (first kind (by simp) valid)

def PumpEnd.WithStream (ended : PumpEnd) : Prop :=
  ended = .closed ∨ ended = .failed .ConnectionClosed

/-- The pump on a valid stream: it hands over what the messages' first frames are, unless a frame is
too large. -/
theorem pumpLoop_clientStream {frames : List ClientFrame} {pending : Option ClientMessage}
    {messages : List ClientMessage} {fuel : ℕ} (enough : frames.length < fuel)
    (valid : assemble pending (frames.map ClientFrame.toFrame) = some messages) :
    ((∀ frame ∈ frames, frame.payload.length ≤ MAX_FRAME_PAYLOAD) →
      (pumpLoop fuel (clientStream frames)).ended.WithStream ∧
      pending.toList.flatMap ClientMessage.handed ++
          (pumpLoop fuel (clientStream frames)).delivered =
        messages.flatMap ClientMessage.handed) ∧
    ((pumpLoop fuel (clientStream frames)).ended.WithStream →
      ∀ frame ∈ frames, frame.payload.length ≤ MAX_FRAME_PAYLOAD) := by
  induction frames generalizing pending messages fuel with
  | nil =>
      cases fuel with
      | zero => omega
      | succ fuel =>
          cases pending <;> cases valid <;>
            simp [clientStream, pumpLoop, readFrame, readExact, bind, Except.bind,
              PumpEnd.WithStream]
  | cons frame later ih =>
      cases fuel with
      | zero => omega
      | succ fuel =>
          have short : later.length < fuel := by
            rw [List.length_cons] at enough
            omega
          have stream : clientStream (frame :: later) = frame.bytes ++ clientStream later :=
            List.flatMap_cons
          rw [stream, pumpLoop_bytes]
          by_cases small : frame.payload.length ≤ MAX_FRAME_PAYLOAD
          · rw [if_pos small]
            rcases assemble_cons valid with ⟨closing, -, last, rfl⟩ |
              ⟨going, done, next, rest, assembled, rfl, handed⟩
            · rw [List.map_eq_nil_iff] at last
              subst last
              simp [onFrame, closing, PumpEnd.WithStream, small]
            · obtain ⟨ended, delivered⟩ :=
                @delivered_onFrame _ (pumpLoop fuel (clientStream later)) going
              rcases ih short assembled with ⟨served, large⟩
              rw [ended, delivered]
              refine ⟨fun within => ?_, fun with_stream => ?_⟩
              · rcases served fun frame mem => within frame (List.mem_cons_of_mem _ mem) with
                  ⟨with_stream, exact⟩
                refine ⟨with_stream, ?_⟩
                rw [← List.append_assoc, handed, List.flatMap_append, List.append_assoc, exact,
                  ← List.flatMap_append]
              · exact List.forall_mem_cons.mpr ⟨small, large with_stream⟩
          · rw [if_neg small]
            exact ⟨fun within => absurd (within frame List.mem_cons_self) small,
              fun with_stream => by simp [PumpEnd.WithStream] at with_stream⟩

/-!
## What is handed over and what is wanted
-/

/-- What the first frame of a text message must be. It looks like a heartbeat exactly if the message
is one, or stays incomplete; otherwise it is the whole message. -/
structure ClientMessage.Agrees (message : ClientMessage) : Prop where
  looks : message.opcode = .text → (looksLikeHeartbeat message.first = true ↔
    message.complete = false ∨ isHeartbeat message.payload = true)
  whole : message.opcode = .text → looksLikeHeartbeat message.first = false → message.rest = []

theorem handed_eq_wanted_iff (message : ClientMessage) :
    message.handed = message.wanted ↔ message.Agrees := by
  have agrees_iff : message.Agrees ↔ (message.opcode = .text →
      (looksLikeHeartbeat message.first = true ↔
        message.complete = false ∨ isHeartbeat message.payload = true) ∧
      (looksLikeHeartbeat message.first = false → message.rest = [])) :=
    ⟨fun agrees text => ⟨agrees.looks text, agrees.whole text⟩,
      fun agrees => ⟨fun text => (agrees text).1, fun text => (agrees text).2⟩⟩
  have payload : [message.first] = [message.payload] ↔ message.rest = [] := by
    simp [ClientMessage.payload]
  rw [agrees_iff, ClientMessage.handed, ClientMessage.wanted]
  by_cases text : message.opcode = .text
  · cases looks : looksLikeHeartbeat message.first <;> cases complete : message.complete <;>
      cases heartbeat : isHeartbeat message.payload <;> simp [text, payload]
  · simp [text]

theorem looks_of_wanted {message : ClientMessage} (nothing : message.handed = [])
    {text : Bytes} (mem : text ∈ message.wanted) : looksLikeHeartbeat text = true := by
  rw [ClientMessage.wanted] at mem
  split at mem
  case isFalse => cases mem
  case isTrue wanted =>
    rw [ClientMessage.handed, ite_eq_right_iff] at nothing
    have looks : looksLikeHeartbeat message.first = true := by
      by_contra plain
      cases nothing ⟨wanted.1, Bool.eq_false_iff.mpr plain⟩
    rw [List.mem_singleton.mp mem]
    exact looksLikeHeartbeat_append message.rest looks

theorem handed_eq_wanted_all_iff (messages : List ClientMessage) :
    messages.flatMap ClientMessage.handed = messages.flatMap ClientMessage.wanted ↔
      ∀ message ∈ messages, message.Agrees := by
  simp only [← handed_eq_wanted_iff]
  refine ⟨fun same => (flatMap_eq_flatMap_iff fun message mem => ?_).mp same, List.flatMap_congr⟩
  have single : message.wanted.length ≤ 1 := by
    rw [ClientMessage.wanted]
    split <;> simp
  cases given : message.handed with
  | cons item rest => exact single.trans (by simp)
  | nil =>
      have nothing : message.wanted = [] := by
        rw [List.eq_nil_iff_forall_not_mem]
        intro text wanted
        have there : text ∈ messages.flatMap ClientMessage.wanted :=
          List.mem_flatMap.mpr ⟨message, mem, wanted⟩
        rw [← same] at there
        rcases List.mem_flatMap.mp there with ⟨other, -, handed⟩
        rw [ClientMessage.handed] at handed
        split at handed
        case isFalse => cases handed
        case isTrue plain =>
          have looks := looks_of_wanted given wanted
          rw [List.mem_singleton.mp handed, plain.2] at looks
          cases looks
      rw [nothing]

/-- The pump serves a stream to its end and hands over exactly what is wanted of its messages. -/
structure Delivers (frames : List ClientFrame) (messages : List ClientMessage) : Prop where
  served : (pumpFrames (clientStream frames)).ended.WithStream
  exact : (pumpFrames (clientStream frames)).delivered = messages.flatMap ClientMessage.wanted

theorem length_le_clientStream (frames : List ClientFrame) :
    frames.length ≤ (clientStream frames).length := by
  induction frames with
  | nil => exact Nat.le_refl 0
  | cons frame later ih =>
      rw [clientStream, List.flatMap_cons, List.length_append, ClientFrame.bytes, List.length_cons,
        List.length_cons]
      rw [clientStream] at ih
      omega

/-- A valid stream is delivered exactly when no frame is too large and the first frame of each text
message tells what the message is; without frames that are too large, this decides what is handed
over. -/
theorem delivers_iff (frames : List ClientFrame) (messages : List ClientMessage)
    (valid : assemble none (frames.map ClientFrame.toFrame) = some messages) :
    (Delivers frames messages ↔
      (∀ frame ∈ frames, frame.payload.length ≤ MAX_FRAME_PAYLOAD) ∧
        ∀ message ∈ messages, message.Agrees) ∧
    ((∀ frame ∈ frames, frame.payload.length ≤ MAX_FRAME_PAYLOAD) →
      ((pumpFrames (clientStream frames)).delivered = messages.flatMap ClientMessage.wanted ↔
        ∀ message ∈ messages, message.Agrees)) := by
  have enough : frames.length < (clientStream frames).length + 1 :=
    Nat.lt_succ_of_le (length_le_clientStream frames)
  rcases pumpLoop_clientStream enough valid with ⟨served, large⟩
  have handed : (∀ frame ∈ frames, frame.payload.length ≤ MAX_FRAME_PAYLOAD) →
      ((pumpFrames (clientStream frames)).delivered = messages.flatMap ClientMessage.wanted ↔
        ∀ message ∈ messages, message.Agrees) := by
    intro within
    have exact := (served within).2
    rw [Option.toList_none, List.flatMap_nil, List.nil_append] at exact
    rw [pumpFrames, exact, handed_eq_wanted_all_iff]
  refine ⟨⟨fun delivers => ?_, fun ⟨within, agrees⟩ => ?_⟩, handed⟩
  · have within := large delivers.served
    exact ⟨within, (handed within).mp delivers.exact⟩
  · exact ⟨(served within).1, (handed within).mpr agrees⟩

/-- A text in one frame. -/
def textFrame (payload : Bytes) (fits : payload.length < 2 ^ 63) : ClientFrame where
  opcode := .text
  fin := true
  payload
  mask := [1, 2, 3, 4]
  defined := by simp
  masked := rfl
  fits

/-- A result and a heartbeat. -/
def quietFrames : List ClientFrame :=
  [textFrame (ascii "\x7b\"command_id\":\"c1\",\"ok\":true\x7d") (by decide),
    textFrame (ascii "\x7b\"type\":\"ping\"\x7d") (by decide)]

/-- The messages in them. -/
def quietMessages : List ClientMessage :=
  [⟨.text, ascii "\x7b\"command_id\":\"c1\",\"ok\":true\x7d", [], true⟩,
    ⟨.text, ascii "\x7b\"type\":\"ping\"\x7d", [], true⟩]

/-- They are delivered. -/
theorem delivers_quietFrames : Delivers quietFrames quietMessages := by
  refine (delivers_iff quietFrames quietMessages (by decide)).1.mpr ⟨by decide, ?_⟩
  refine List.forall_mem_cons.mpr ⟨?_, List.forall_mem_cons.mpr ⟨?_, by simp⟩⟩
  · exact (handed_eq_wanted_iff _).mp (by decide +kernel)
  · exact (handed_eq_wanted_iff _).mp (by decide +kernel)

def pingResult : Bytes :=
  ascii "\x7b\"command_id\":\"c1\",\"data\":\x7b\"type\":\"ping\"\x7d\x7d"

/-- It is dropped. -/
theorem not_delivers :
    ¬ ∀ (frames : List ClientFrame) (messages : List ClientMessage),
      assemble none (frames.map ClientFrame.toFrame) = some messages →
        (pumpFrames (clientStream frames)).delivered =
          messages.flatMap ClientMessage.wanted := by
  intro claimed
  have dropped := claimed [textFrame pingResult (by decide)] [⟨.text, pingResult, [], true⟩]
    (by decide)
  revert dropped
  decide +kernel

end Nullalis.ExtensionWs
