import Nullalis.Base.Occurrence

/-!
# The frame pump of the extension

The server reads one frame after the other off the stream of a client. A text frame is taken for a
result of a command unless it looks like a heartbeat: whether it ends its message, and what the
frames are that continue it, plays no role.

A read waits until all of its bytes are there, so a stream is the list of all bytes that arrive.
-/

namespace Nullalis.ExtensionWs

/-- The kinds of frames (`websocket.Opcode`). -/
inductive Opcode where
  | continuation
  | text
  | binary
  | close
  | ping
  | pong
  | reserved (code : UInt8)
deriving DecidableEq

def Opcode.ofCode (code : UInt8) : Opcode :=
  if code = 0 then .continuation
  else if code = 1 then .text
  else if code = 2 then .binary
  else if code = 8 then .close
  else if code = 9 then .ping
  else if code = 10 then .pong
  else .reserved code

structure Frame where
  opcode : Opcode
  fin : Bool
  payload : Bytes
deriving DecidableEq

inductive StreamError where
  | ConnectionClosed
  | UnmaskedClientFrame
  | FrameTooLarge
deriving DecidableEq

def MAX_FRAME_PAYLOAD : ℕ := 8 * 1024 * 1024

/-- Take this many bytes off the stream. -/
def readExact (count : ℕ) (stream : Bytes) : Except StreamError (Bytes × Bytes) :=
  if count ≤ stream.length then .ok (stream.take count, stream.drop count)
  else .error .ConnectionClosed

def bigEndian (ext : Bytes) : ℕ :=
  ext.foldl (fun payload_len value => payload_len * 256 + value.toNat) 0

/-- The length of a payload, which follows the header if seven bits are not enough. -/
def readLength (short : ℕ) (stream : Bytes) : Except StreamError (ℕ × Bytes) :=
  if short = 126 then (readExact 2 stream).map fun (ext, rest) => (bigEndian ext, rest)
  else if short = 127 then (readExact 8 stream).map fun (ext, rest) => (bigEndian ext, rest)
  else .ok (short, stream)

def applyMask (payload mask : Bytes) : Bytes :=
  payload.mapIdx fun i value => value ^^^ mask.getD (i % 4) 0

def readFrame (stream : Bytes) : Except StreamError (Frame × Bytes) := do
  let (hdr, stream) ← readExact 2 stream
  let fin := (hdr.getD 0 0 &&& 0x80) != 0
  let opcode := Opcode.ofCode (hdr.getD 0 0 &&& 0x0F)
  let is_masked := (hdr.getD 1 0 &&& 0x80) != 0
  if !is_masked then throw .UnmaskedClientFrame
  let (payload_len, stream) ← readLength (hdr.getD 1 0 &&& 0x7F).toNat stream
  let (mask, stream) ← readExact 4 stream
  if MAX_FRAME_PAYLOAD < payload_len then throw .FrameTooLarge
  let (payload, stream) ← readExact payload_len stream
  return ({ opcode, fin, payload := applyMask payload mask }, stream)

/-- How the pump ends. -/
inductive PumpEnd where
  | closed
  | failed (error : StreamError)
  | unfinished
deriving DecidableEq

/-- What was handed to `deliverResult`, and the frames that were written. -/
structure Pumped where
  delivered : List Bytes := []
  written : List (Opcode × Bytes) := []
  ended : PumpEnd
deriving DecidableEq

def Pumped.deliver (payload : Bytes) (pumped : Pumped) : Pumped :=
  { pumped with delivered := payload :: pumped.delivered }

def Pumped.write (opcode : Opcode) (payload : Bytes) (pumped : Pumped) : Pumped :=
  { pumped with written := (opcode, payload) :: pumped.written }

/-- What a frame does before the `later` ones. Failures to write or to deliver are passed over. -/
def onFrame (frame : Frame) (later : Pumped) : Pumped :=
  match frame.opcode with
  | .text =>
      let trimmed := Bytes.trim (ascii " \t\r\n") frame.payload
      if (Bytes.indexOf (ascii "\"type\":\"ping\"") trimmed).isSome then
        later.write .text (ascii "\x7b\"type\":\"pong\"\x7d")
      else if (Bytes.indexOf (ascii "\"type\":\"pong\"") trimmed).isSome then later
      else later.deliver frame.payload
  | .ping => later.write .pong frame.payload
  | .pong => later
  | .close => { ended := .closed }
  | .continuation | .binary | .reserved _ => later

/-- Read frames until the stream ends. Each one takes bytes off the stream. -/
def pumpLoop : ℕ → Bytes → Pumped
  | 0, _ => { ended := .unfinished }
  | fuel + 1, stream =>
      match readFrame stream with
      | .error error => { ended := .failed error }
      | .ok (frame, stream) => onFrame frame (pumpLoop fuel stream)

def pumpFrames (stream : Bytes) : Pumped :=
  pumpLoop (stream.length + 1) stream

/-!
## The frames of a client
-/

/-- A number in so many bytes. -/
def toBigEndian : ℕ → ℕ → Bytes
  | 0, _ => []
  | width + 1, value => toBigEndian width (value / 256) ++ [UInt8.ofNat value]

/-- The code of a kind. -/
def Opcode.code : Opcode → UInt8
  | continuation => 0
  | text => 1
  | binary => 2
  | close => 8
  | ping => 9
  | pong => 10
  | reserved code => code

/-- A frame with its mask, as a client may send it. -/
structure ClientFrame extends Frame where
  mask : Bytes
  defined : ∀ code, opcode ≠ .reserved code
  masked : mask.length = 4
  fits : payload.length < 2 ^ 63

/-- The length of a payload in the fewest bytes, behind the bit of the mask. -/
def lengthField (length : ℕ) : Bytes :=
  if length < 126 then [0x80 ||| UInt8.ofNat length]
  else if length < 2 ^ 16 then (0x80 ||| 126) :: toBigEndian 2 length
  else (0x80 ||| 127) :: toBigEndian 8 length

/-- The bytes of a frame. -/
def ClientFrame.bytes (frame : ClientFrame) : Bytes :=
  ((if frame.fin then 0x80 else 0) ||| frame.opcode.code) ::
    (lengthField frame.payload.length ++ frame.mask ++ applyMask frame.payload frame.mask)

def clientStream (frames : List ClientFrame) : Bytes :=
  frames.flatMap ClientFrame.bytes

/-!
## Reading them
-/

variable {rest : Bytes} {fuel : ℕ}

theorem readExact_append (first rest : Bytes) :
    readExact first.length (first ++ rest) = .ok (first, rest) := by
  rw [readExact, if_pos (by simp), List.take_left, List.drop_left]

theorem length_toBigEndian (width value : ℕ) : (toBigEndian width value).length = width := by
  induction width generalizing value with
  | zero => rfl
  | succ width ih => rw [toBigEndian, List.length_append, ih, List.length_singleton]

theorem bigEndian_toBigEndian {width value : ℕ} (fits : value < 256 ^ width) :
    bigEndian (toBigEndian width value) = value := by
  induction width generalizing value with
  | zero =>
      have zero : value = 0 := by simpa using fits
      rw [zero]
      rfl
  | succ width ih =>
      have high : value / 256 < 256 ^ width := by
        rw [Nat.div_lt_iff_lt_mul (by decide)]
        exact fits
      have low : (UInt8.ofNat value).toNat = value % 256 := by simp
      have read := ih high
      rw [bigEndian] at read ⊢
      rw [toBigEndian, List.foldl_append, read, List.foldl_cons, List.foldl_nil, low]
      omega

theorem applyMask_applyMask (payload mask : Bytes) :
    applyMask (applyMask payload mask) mask = payload := by
  apply List.ext_getElem?
  intro i
  simp [applyMask, List.getElem?_mapIdx, Function.comp_def, UInt8.xor_assoc]

theorem length_applyMask (payload mask : Bytes) :
    (applyMask payload mask).length = payload.length :=
  List.length_mapIdx

theorem header_code {opcode : Opcode} (defined : ∀ code, opcode ≠ .reserved code) (fin : Bool) :
    ((((if fin then 0x80 else 0) ||| opcode.code) &&& 0x80) != 0) = fin ∧
      Opcode.ofCode (((if fin then 0x80 else 0) ||| opcode.code) &&& 0x0F) = opcode := by
  cases opcode with
  | reserved code => exact absurd rfl (defined code)
  | _ => cases fin <;> decide

theorem header_length {short : ℕ} (small : short < 128) :
    (((0x80 ||| UInt8.ofNat short) &&& 0x80) != 0) = true ∧
      ((0x80 ||| UInt8.ofNat short) &&& 0x7F).toNat = short := by
  have all : ∀ short < 128, (((0x80 ||| UInt8.ofNat short) &&& 0x80) != 0) = true ∧
      ((0x80 ||| UInt8.ofNat short) &&& 0x7F).toNat = short := by
    decide
  exact all short small

theorem readLength_lengthField {length : ℕ} (fits : length < 2 ^ 63) (rest : Bytes) :
    ∃ second field, lengthField length = second :: field ∧ ((second &&& 0x80) != 0) = true ∧
      readLength (second &&& 0x7F).toNat (field ++ rest) = .ok (length, rest) := by
  by_cases short : length < 126
  · have header : (((0x80 ||| UInt8.ofNat length) &&& 0x80) != 0) = true ∧
        ((0x80 ||| UInt8.ofNat length) &&& 0x7F).toNat = length := header_length (by omega)
    refine ⟨_, [], by rw [lengthField, if_pos short], header.1, ?_⟩
    rw [header.2, readLength, if_neg (by omega), if_neg (by omega)]
    rfl
  · by_cases medium : length < 2 ^ 16
    · refine ⟨_, _, by rw [lengthField, if_neg short, if_pos medium], by decide, ?_⟩
      have width := readExact_append (toBigEndian 2 length) rest
      rw [length_toBigEndian] at width
      have value : bigEndian (toBigEndian 2 length) = length := bigEndian_toBigEndian (by omega)
      rw [readLength, if_pos (by decide), width, Except.map]
      simp only [value]
    · refine ⟨_, _, by rw [lengthField, if_neg short, if_neg medium], by decide, ?_⟩
      have width := readExact_append (toBigEndian 8 length) rest
      rw [length_toBigEndian] at width
      have value : bigEndian (toBigEndian 8 length) = length := bigEndian_toBigEndian (by omega)
      rw [readLength, if_neg (by decide), if_pos (by decide), width, Except.map]
      simp only [value]

theorem readFrame_bytes (frame : ClientFrame) (rest : Bytes) :
    readFrame (frame.bytes ++ rest) =
      if frame.payload.length ≤ MAX_FRAME_PAYLOAD then .ok (frame.toFrame, rest)
      else .error .FrameTooLarge := by
  rcases readLength_lengthField frame.fits (frame.mask ++
    (applyMask frame.payload frame.mask ++ rest)) with ⟨second, field, split, masked, length⟩
  have header := header_code frame.defined frame.fin
  have mask := readExact_append frame.mask (applyMask frame.payload frame.mask ++ rest)
  have payload := readExact_append (applyMask frame.payload frame.mask) rest
  rw [frame.masked] at mask
  rw [length_applyMask] at payload
  have first (one two : UInt8) (rest : Bytes) :
      readExact 2 (one :: two :: rest) = .ok ([one, two], rest) :=
    readExact_append [one, two] rest
  rw [ClientFrame.bytes, split]
  simp only [List.cons_append, List.append_assoc]
  rw [readFrame, first]
  simp only [bind, Except.bind, List.getD_cons_zero, List.getD_cons_succ, header, masked, length,
    mask, Bool.not_true, Bool.false_eq_true, if_false]
  by_cases small : frame.payload.length ≤ MAX_FRAME_PAYLOAD
  · rw [if_neg (Nat.not_lt.mpr small), if_pos small]
    simp only [payload, applyMask_applyMask]
    rfl
  · rw [if_pos (Nat.lt_of_not_le small), if_neg small]
    rfl

end Nullalis.ExtensionWs
