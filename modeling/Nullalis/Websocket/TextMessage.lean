import Nullalis.ExtensionWs.Frames

/-!
# The text messages of the WebSocket client

The client reads frames off a stream until a text message is complete. A continuation frame is taken
for one of a text message whatever message it continues.

A read waits until all of its bytes are there, so a stream is the list of all bytes that arrive.
-/

namespace Nullalis.Websocket

open ExtensionWs (Opcode Frame StreamError readExact readLength applyMask toBigEndian)

def MAX_MESSAGE : ℕ := 4 * 1024 * 1024

/-- Read a frame: none is a close. A ping is answered with its payload and handed on empty. -/
def readFrame (stream : Bytes) : Except StreamError (Option Frame × List Bytes × Bytes) := do
  let (hdr, stream) ← readExact 2 stream
  let fin := (hdr.getD 0 0 &&& 0x80) != 0
  let opcode := Opcode.ofCode (hdr.getD 0 0 &&& 0x0F)
  let is_masked := (hdr.getD 1 0 &&& 0x80) != 0
  let (payload_len, stream) ← readLength (hdr.getD 1 0 &&& 0x7F).toNat stream
  let (mask_key, stream) ← readExact (if is_masked then 4 else 0) stream
  if MAX_MESSAGE < payload_len then throw .FrameTooLarge
  let (masked, stream) ← readExact payload_len stream
  let payload := if is_masked then applyMask masked mask_key else masked
  match opcode with
  | .ping => return (some { opcode := .ping, fin := true, payload := [] }, [payload], stream)
  | .close => return (none, [], stream)
  | _ => return (some { opcode, fin, payload }, [], stream)

/-- How a read ends. The branch for a message that is too large frees the buffer and then returns an
error, at which the `errdefer` frees it once more. -/
inductive ReadEnd where
  | message (text rest : Bytes)
  | closed (rest : Bytes)
  | failed (error : StreamError)
  | messageTooLarge
  | freedTwice
  | unfinished
deriving DecidableEq

/-- How a read ends and the pongs it writes on its way. -/
structure TextRead where
  ended : ReadEnd
  pongs : List Bytes := []
deriving DecidableEq

def TextRead.after (pongs : List Bytes) (read : TextRead) : TextRead :=
  { read with pongs := pongs ++ read.pongs }

/-- Read frames until a message is complete. Each one takes bytes off the stream. -/
def readTextLoop : ℕ → Bytes → Bytes → TextRead
  | 0, _, _ => { ended := .unfinished }
  | fuel + 1, message, stream =>
      match readFrame stream with
      | .error error => { ended := .failed error }
      | .ok (none, pongs, stream) => { ended := .closed stream, pongs }
      | .ok (some frame, pongs, stream) =>
          TextRead.after pongs <|
            match frame.opcode with
            | .text | .continuation =>
                let message := message ++ frame.payload
                if MAX_MESSAGE < message.length then { ended := .freedTwice }
                else if frame.fin then { ended := .message message stream }
                else readTextLoop fuel message stream
            | _ => readTextLoop fuel message stream

def readTextMessage (stream : Bytes) : TextRead :=
  readTextLoop (stream.length + 1) [] stream

/-!
## The streams of a server
-/

/-- A frame as a server may send it. -/
structure ServerFrame extends Frame where
  defined : ∀ code, opcode ≠ .reserved code
  fits : payload.length < 2 ^ 63

/-- The length of a payload in the fewest bytes. -/
def serverLength (length : ℕ) : Bytes :=
  if length < 126 then [UInt8.ofNat length]
  else if length < 2 ^ 16 then 126 :: toBigEndian 2 length
  else 127 :: toBigEndian 8 length

/-- The bytes of a frame. -/
def ServerFrame.bytes (frame : ServerFrame) : Bytes :=
  ((if frame.fin then 0x80 else 0) ||| frame.opcode.code) ::
    (serverLength frame.payload.length ++ frame.payload)

def serverStream (frames : List ServerFrame) : Bytes :=
  frames.flatMap ServerFrame.bytes

/-- The kinds of messages. -/
inductive MessageKind where
  | text
  | binary
deriving DecidableEq

/-- The frames are those of fragmented messages with control frames between them. The first ones
continue the message that is `opened`. Nothing follows a close. -/
def Valid : Option MessageKind → List ServerFrame → Prop
  | _, [] => True
  | opened, frame :: rest =>
      match frame.opcode with
      | .text => opened = none ∧ Valid (if frame.fin then none else some .text) rest
      | .binary => opened = none ∧ Valid (if frame.fin then none else some .binary) rest
      | .continuation => opened ≠ none ∧ Valid (if frame.fin then none else opened) rest
      | .close => frame.fin = true ∧ frame.payload.length ≤ 125 ∧ rest = []
      | .ping | .pong => frame.fin = true ∧ frame.payload.length ≤ 125 ∧ Valid opened rest
      | .reserved _ => False

/-- The first complete text message of a stream: the fragments of text messages are joined, those of
binary messages passed over and pings answered. `text` was received of a text message before. -/
def firstText : Option MessageKind → Bytes → List ServerFrame → TextRead
  | _, _, [] => { ended := .failed .ConnectionClosed }
  | opened, text, frame :: rest =>
      match frame.opcode, opened with
      | .text, _ | .continuation, some .text =>
          let text := text ++ frame.payload
          if MAX_MESSAGE < text.length then { ended := .messageTooLarge }
          else if frame.fin then { ended := .message text (serverStream rest) }
          else firstText (some .text) text rest
      | .binary, _ => firstText (if frame.fin then none else some .binary) [] rest
      | .continuation, opened => firstText (if frame.fin then none else opened) [] rest
      | .close, _ => { ended := .closed (serverStream rest) }
      | .ping, opened => (firstText opened text rest).after [frame.payload]
      | .pong, opened | .reserved _, opened => firstText opened text rest

/-- No frame is too large, and the continuation frames of a message that is not a text message are
neither its last one nor too long together. `held` bytes are in the fragments so far, of a binary
message without those in its first one. All this up to the end of the first text message. -/
def Undisturbed : Option MessageKind → ℕ → List ServerFrame → Prop
  | _, _, [] => True
  | opened, held, frame :: rest =>
      frame.payload.length ≤ MAX_MESSAGE ∧
        match frame.opcode with
        | .text => frame.fin = false → Undisturbed (some .text) frame.payload.length rest
        | .binary => Undisturbed (if frame.fin then none else some .binary) 0 rest
        | .continuation =>
            held + frame.payload.length ≤ MAX_MESSAGE ∧
              if frame.fin then opened = some .text
              else Undisturbed opened (held + frame.payload.length) rest
        | .close => True
        | .ping | .pong | .reserved _ => Undisturbed opened held rest

/-!
## Reading the frames of a server
-/

variable {frame : ServerFrame} {frames rest : List ServerFrame} {opened : Option MessageKind}
  {message text : Bytes} {fuel : ℕ}

theorem readLength_serverLength {length : ℕ} (fits : length < 2 ^ 63) (rest : Bytes) :
    ∃ second field, serverLength length = second :: field ∧ ((second &&& 0x80) != 0) = false ∧
      readLength (second &&& 0x7F).toNat (field ++ rest) = .ok (length, rest) := by
  have masked : ∃ second field, serverLength length = second :: field ∧ second < 128 ∧
      ExtensionWs.lengthField length = (0x80 ||| second) :: field := by
    rw [serverLength, ExtensionWs.lengthField]
    split_ifs with short medium
    · refine ⟨_, _, rfl, ?_, rfl⟩
      rw [UInt8.lt_iff_toNat_lt, UInt8.toNat_ofNat']
      exact lt_of_le_of_lt (Nat.mod_le _ _) (lt_trans short (by decide))
    · exact ⟨_, _, rfl, by decide, rfl⟩
    · exact ⟨_, _, rfl, by decide, rfl⟩
  have bits : ∀ value : Fin 128, ((UInt8.ofNat value &&& 0x80) != 0) = false ∧
      (0x80 ||| UInt8.ofNat value) &&& 0x7F = UInt8.ofNat value &&& 0x7F := by
    decide
  obtain ⟨second, field, split, small, client⟩ := masked
  obtain ⟨_, _, same, -, read⟩ := ExtensionWs.readLength_lengthField fits rest
  have clear := bits ⟨second.toNat, small⟩
  rw [UInt8.ofNat_toNat] at clear
  rw [client] at same
  cases same
  rw [clear.2] at read
  exact ⟨second, field, split, clear.1, read⟩

/-- What is handed on of a frame. -/
def ServerFrame.handed (frame : ServerFrame) : Option Frame × List Bytes :=
  match frame.opcode with
  | .ping => (some { opcode := .ping, fin := true, payload := [] }, [frame.payload])
  | .close => (none, [])
  | _ => (some frame.toFrame, [])

theorem readFrame_bytes (frame : ServerFrame) (rest : Bytes) :
    readFrame (frame.bytes ++ rest) =
      if MAX_MESSAGE < frame.payload.length then .error .FrameTooLarge
      else .ok (frame.handed.1, frame.handed.2, rest) := by
  obtain ⟨second, field, split, unmasked, length⟩ :=
    readLength_serverLength frame.fits (frame.payload ++ rest)
  have header := ExtensionWs.header_code frame.defined frame.fin
  have payload := ExtensionWs.readExact_append frame.payload rest
  have mask := ExtensionWs.readExact_append [] (frame.payload ++ rest)
  have first (one two : UInt8) (rest : Bytes) :
      readExact 2 (one :: two :: rest) = .ok ([one, two], rest) :=
    ExtensionWs.readExact_append [one, two] rest
  rw [List.length_nil, List.nil_append] at mask
  rw [ServerFrame.bytes, split]
  simp only [List.cons_append, List.append_assoc]
  rw [readFrame, first]
  simp only [bind, Except.bind, List.getD_cons_zero, List.getD_cons_succ, header, unmasked, length,
    mask, Bool.false_eq_true, if_false]
  by_cases large : MAX_MESSAGE < frame.payload.length
  · rw [if_pos large, if_pos large]
    rfl
  · rw [if_neg large, if_neg large]
    simp only [payload, ServerFrame.handed]
    cases frame with
    | mk frame defined fits =>
        cases frame with
        | mk opcode fin payload => cases opcode <;> rfl

/-!
## Reading a message
-/

@[simp]
theorem serverStream_cons : serverStream (frame :: rest) = frame.bytes ++ serverStream rest :=
  List.flatMap_cons

theorem length_bytes_pos (frame : ServerFrame) : 0 < frame.bytes.length := by
  rw [ServerFrame.bytes, List.length_cons]
  exact Nat.succ_pos _

theorem length_le_serverStream (frames : List ServerFrame) :
    frames.length ≤ (serverStream frames).length := by
  induction frames with
  | nil => exact Nat.zero_le _
  | cons frame rest ih =>
      have positive := length_bytes_pos frame
      rw [serverStream_cons, List.length_append, List.length_cons]
      omega

@[simp]
theorem after_inj {pongs : List Bytes} {first second : TextRead} :
    first.after pongs = second.after pongs ↔ first = second := by
  constructor
  · intro same
    cases first
    cases second
    simpa [TextRead.after] using same
  · intro same
    rw [same]

@[simp]
theorem after_nil (read : TextRead) : read.after [] = read := by
  rw [TextRead.after, List.nil_append]

/-- How reading a message may end: behind some frame, at a close, for want of frames or because the
message is too large. -/
inductive Answers (stream : Bytes) : ReadEnd → Prop where
  | message (text : Bytes) {rest : Bytes} (ahead : rest.length < stream.length) :
      Answers stream (.message text rest)
  | closed (rest : Bytes) : Answers stream (.closed rest)
  | disconnected : Answers stream (.failed .ConnectionClosed)
  | messageTooLarge : Answers stream .messageTooLarge

theorem Answers.later {ended : ReadEnd} (answers : Answers (serverStream rest) ended) :
    Answers (serverStream (frame :: rest)) ended := by
  cases answers with
  | message text ahead =>
      refine .message text (lt_of_lt_of_le ahead ?_)
      rw [serverStream_cons, List.length_append]
      exact Nat.le_add_left _ _
  | closed remaining => exact .closed remaining
  | disconnected => exact .disconnected
  | messageTooLarge => exact .messageTooLarge

theorem ahead_of_cons (frame : ServerFrame) (rest : List ServerFrame) :
    (serverStream rest).length < (serverStream (frame :: rest)).length := by
  have positive := length_bytes_pos frame
  rw [serverStream_cons, List.length_append]
  omega

theorem firstText_answers (frames : List ServerFrame) (opened : Option MessageKind)
    (text : Bytes) : Answers (serverStream frames) (firstText opened text frames).ended := by
  induction frames generalizing opened text with
  | nil => exact .disconnected
  | cons frame rest ih =>
      rw [firstText.eq_def]
      simp only
      split
      case h_1 | h_2 =>
        split_ifs
        · exact .messageTooLarge
        · exact .message _ (ahead_of_cons frame rest)
        · exact (ih _ _).later
      case h_5 => exact .closed _
      all_goals exact (ih _ _).later

/-- What the buffer holds while the frames of a message arrive. -/
def Buffers : Option MessageKind → Bytes → Bytes → Prop
  | none, message, text => message = [] ∧ text = []
  | some .text, message, text => message = text
  | some .binary, _, text => text = []

theorem readTextLoop_cons (small : frame.payload.length ≤ MAX_MESSAGE) :
    readTextLoop (fuel + 1) message (serverStream (frame :: rest)) =
      match frame.opcode with
      | .text | .continuation =>
          if MAX_MESSAGE < (message ++ frame.payload).length then { ended := .freedTwice }
          else if frame.fin then { ended := .message (message ++ frame.payload) (serverStream rest) }
          else readTextLoop fuel (message ++ frame.payload) (serverStream rest)
      | .close => { ended := .closed (serverStream rest) }
      | .ping => (readTextLoop fuel message (serverStream rest)).after [frame.payload]
      | _ => readTextLoop fuel message (serverStream rest) := by
  rw [serverStream_cons, readTextLoop, readFrame_bytes, if_neg (Nat.not_lt.mpr small)]
  simp only [ServerFrame.handed]
  cases code : frame.opcode <;> simp only [code, after_nil]

/-- Reading is right just when nothing disturbs it. -/
theorem readTextLoop_eq_iff (valid : Valid opened frames) (buffers : Buffers opened message text)
    (enough : frames.length < fuel) :
    readTextLoop fuel message (serverStream frames) = firstText opened text frames ↔
      Undisturbed opened message.length frames := by
  induction frames generalizing opened message text fuel with
  | nil =>
      obtain ⟨fuel, rfl⟩ := Nat.exists_eq_succ_of_ne_zero (Nat.ne_zero_of_lt enough)
      exact iff_of_true rfl trivial
  | cons frame rest ih =>
      obtain ⟨fuel, rfl⟩ := Nat.exists_eq_succ_of_ne_zero (Nat.ne_zero_of_lt enough)
      have left : rest.length < fuel := Nat.lt_of_succ_lt_succ enough
      have answers := firstText_answers (frame :: rest) opened text
      by_cases large : MAX_MESSAGE < frame.payload.length
      · refine iff_of_false ?_ fun undisturbed => Nat.not_lt.mpr undisturbed.1 large
        rw [serverStream_cons, readTextLoop, readFrame_bytes, if_pos large]
        intro same
        rw [← same] at answers
        cases answers
      · have small := Nat.le_of_not_lt large
        rw [readTextLoop_cons small]
        rw [Undisturbed, and_iff_right small]
        cases code : frame.opcode with
        | reserved number => exact absurd code (frame.defined number)
        | text =>
            simp only [Valid, code] at valid
            obtain ⟨rfl, valid⟩ := valid
            obtain ⟨rfl, rfl⟩ := buffers
            simp only [firstText, code, List.nil_append, if_neg large]
            cases fin : frame.fin with
            | true => simp
            | false =>
                simp only [fin, Bool.false_eq_true, if_false] at valid ⊢
                simpa using ih valid rfl left
        | binary =>
            simp only [Valid, code] at valid
            obtain ⟨rfl, valid⟩ := valid
            obtain ⟨rfl, rfl⟩ := buffers
            simp only [firstText, code]
            refine ih valid ?_ left
            cases frame.fin with
            | true => exact ⟨rfl, rfl⟩
            | false => exact rfl
        | continuation =>
            simp only [Valid, code] at valid
            have held : (message ++ frame.payload).length =
                message.length + frame.payload.length := List.length_append
            by_cases long : MAX_MESSAGE < (message ++ frame.payload).length
            · refine iff_of_false ?_ fun undisturbed => Nat.not_lt.mpr undisturbed.1 (held ▸ long)
              simp only [if_pos long]
              intro same
              rw [← same] at answers
              cases answers
            · simp only [if_neg long]
              rw [and_iff_right (held ▸ Nat.le_of_not_lt long), ← held]
              rcases opened with - | text | binary
              · exact absurd rfl valid.1
              · cases buffers
                simp only [firstText, code, if_neg long]
                cases fin : frame.fin with
                | true => simp
                | false =>
                    simp only [fin, Bool.false_eq_true, if_false] at valid ⊢
                    exact ih valid.2 rfl left
              · cases buffers
                simp only [firstText, code]
                cases fin : frame.fin with
                | true =>
                    -- The message is taken from here, but a text message ends further on.
                    refine iff_of_false ?_ (by simp)
                    have later := firstText_answers rest none []
                    simp only [if_true]
                    intro same
                    rw [← same] at later
                    cases later with
                    | message text ahead => exact lt_irrefl _ ahead
                | false =>
                    simp only [fin, Bool.false_eq_true, if_false] at valid ⊢
                    exact ih valid.2 rfl left
        | close =>
            simp only [firstText, code]
        | ping =>
            simp only [Valid, code] at valid
            simp only [firstText, code, after_inj]
            exact ih valid.2.2 buffers left
        | pong =>
            simp only [Valid, code] at valid
            simp only [firstText, code]
            exact ih valid.2.2 buffers left

/-- On the stream of a server the first complete text message is returned, and nothing of a binary
message or a control frame, just when no frame is too large, no text message is, and no binary
message is continued to its end or beyond the limit before. -/
theorem readTextMessage_eq_iff (frames : List ServerFrame) (valid : Valid none frames) :
    readTextMessage (serverStream frames) = firstText none [] frames ↔
      Undisturbed none 0 frames :=
  readTextLoop_eq_iff valid ⟨rfl, rfl⟩ (Nat.lt_succ_of_le (length_le_serverStream frames))

/-- A text message in two frames with a ping between them is returned. -/
theorem readTextMessage_fragmented :
    readTextMessage (serverStream [⟨⟨.text, false, ascii "he"⟩, by simp, by decide⟩,
        ⟨⟨.ping, true, ascii "up?"⟩, by simp, by decide⟩,
        ⟨⟨.continuation, true, ascii "llo"⟩, by simp, by decide⟩]) =
      ⟨.message (ascii "hello") [], [ascii "up?"]⟩ := by
  refine (readTextMessage_eq_iff _ ?_).mpr ?_
  · simp [Valid, ascii]
  · simp [Undisturbed, ascii, MAX_MESSAGE]

/-- The end of a binary message is returned for a text message. -/
theorem returns_binary_fragment : ∃ frames, Valid none frames ∧
    firstText none [] frames = ⟨.message (ascii "hi") [], []⟩ ∧
    ∃ rest, readTextMessage (serverStream frames) = ⟨.message (ascii "bin") rest, []⟩ := by
  refine ⟨[⟨⟨.binary, false, ascii "a"⟩, by simp, by decide⟩,
    ⟨⟨.continuation, true, ascii "bin"⟩, by simp, by decide⟩,
    ⟨⟨.text, true, ascii "hi"⟩, by simp, by decide⟩], ?_, ?_, ?_⟩
  · simp [Valid]
  · decide
  · exact ⟨[0x81, 2, 104, 105], by decide⟩

end Nullalis.Websocket
