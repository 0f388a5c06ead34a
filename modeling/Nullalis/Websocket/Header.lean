import Nullalis.Base.Outcome
import Nullalis.ExtensionWs.Frames

/-!
# The frames of the WebSocket client

`buildFrame` writes a masked frame into a buffer, and `parseFrameHeader` reads the header of one. The
parser asks for the bytes of the length before it reads them, but not for those of the mask.
-/

namespace Nullalis.Websocket

open ExtensionWs

def IsKind (opcode : Opcode) : Prop :=
  opcode.code < 16 ∧ Opcode.ofCode opcode.code = opcode

inductive WriteError where
  | NoSpaceLeft
deriving DecidableEq

def writeAll (capacity : ℕ) (written bytes : Bytes) : Except WriteError Bytes :=
  if written.length + bytes.length ≤ capacity then .ok (written ++ bytes) else .error .NoSpaceLeft

def lowByte (value shift : ℕ) : UInt8 :=
  UInt8.ofNat ((value >>> shift) &&& 0xFF)

def writeBytes (capacity : ℕ) (written bytes : Bytes) : Except WriteError Bytes :=
  bytes.foldlM (fun written value => writeAll capacity written [value]) written

/-- The bit of the mask and the length of the payload. -/
def lengthBytes (plen : ℕ) : Bytes :=
  if plen ≤ 125 then [0x80 ||| UInt8.ofNat plen]
  else if plen ≤ 65535 then [0x80 ||| 126, lowByte plen 8, lowByte plen 0]
  else [0x80 ||| 127, lowByte plen 56, lowByte plen 48, lowByte plen 40, lowByte plen 32,
    lowByte plen 24, lowByte plen 16, lowByte plen 8, lowByte plen 0]

/-- Write a masked frame to a buffer of `capacity` bytes. -/
def buildFrame (capacity : ℕ) (opcode : Opcode) (payload : Bytes) (mask_key : Vector UInt8 4) :
    Except WriteError Bytes := do
  let written ← writeBytes capacity [] [0x80 ||| opcode.code]
  let written ← writeBytes capacity written (lengthBytes payload.length)
  let written ← writeAll capacity written mask_key.toList
  writeBytes capacity written (applyMask payload mask_key.toList)

structure ParsedHeader where
  opcode : Opcode
  fin : Bool
  masked : Bool
  payload_len : ℕ
  header_bytes : ℕ
deriving DecidableEq

inductive HeaderError where
  | InsufficientData
deriving DecidableEq

/-- The length of the payload and how many bytes of the header stand before the mask. -/
def parseLength (short : ℕ) (bytes : Bytes) : Except HeaderError (ℕ × ℕ) :=
  if short = 126 then
    if bytes.length < 4 then .error .InsufficientData
    else .ok ((bytes.getD 2 0).toNat <<< 8 ||| (bytes.getD 3 0).toNat, 4)
  else if short = 127 then
    if bytes.length < 10 then .error .InsufficientData
    else .ok (bigEndian ((bytes.drop 2).take 8), 10)
  else .ok (short, 2)

def parseFrameHeader (bytes : Bytes) : Except HeaderError ParsedHeader := do
  if bytes.length < 2 then throw .InsufficientData
  let fin := (bytes.getD 0 0 &&& 0x80) != 0
  let opcode := Opcode.ofCode (bytes.getD 0 0 &&& 0x0F)
  let masked := (bytes.getD 1 0 &&& 0x80) != 0
  let (payload_len, hlen) ← parseLength (bytes.getD 1 0 &&& 0x7F).toNat bytes
  return { opcode, fin, masked, payload_len, header_bytes := if masked then hlen + 4 else hlen }

/-!
## The bytes of a frame
-/

variable {capacity : ℕ} {opcode : Opcode} {payload written bytes : Bytes}
  {mask_key : Vector UInt8 4}

def fieldsLength (length : ℕ) : ℕ :=
  if length ≤ 125 then 2 else if length ≤ 65535 then 4 else 10

theorem writeAll_ok {more : Bytes} (wrote : writeAll capacity written bytes = .ok more) :
    more = written ++ bytes := by
  rw [writeAll] at wrote
  split at wrote <;> cases wrote
  rfl

theorem lowByte_eq (value shift : ℕ) : lowByte value shift = UInt8.ofNat (value / 2 ^ shift) := by
  apply UInt8.toNat_inj.mp
  have mask : 0xFF = 2 ^ 8 - 1 := rfl
  rw [lowByte, Nat.shiftRight_eq_div_pow, mask, Nat.and_two_pow_sub_one_eq_mod]
  simp

theorem writeBytes_ok {more : Bytes} (wrote : writeBytes capacity written bytes = .ok more) :
    more = written ++ bytes := by
  induction bytes generalizing written with
  | nil =>
      cases wrote
      rw [List.append_nil]
  | cons value rest ih =>
      rw [writeBytes, List.foldlM_cons] at wrote
      cases first : writeAll capacity written [value] with
      | error error =>
          rw [first] at wrote
          cases wrote
      | ok middle =>
          rw [first] at wrote
          rw [ih wrote, writeAll_ok first, List.append_assoc]
          rfl

theorem buildFrame_ok (built : buildFrame capacity opcode payload mask_key = .ok written) :
    written = (0x80 ||| opcode.code) :: (lengthBytes payload.length ++ (mask_key.toList ++
      applyMask payload mask_key.toList)) := by
  rw [buildFrame] at built
  obtain ⟨first, kind, built⟩ := Outcome.bind_ok built
  obtain ⟨second, length, built⟩ := Outcome.bind_ok built
  obtain ⟨third, mask, built⟩ := Outcome.bind_ok built
  rw [writeBytes_ok built, writeAll_ok mask, writeBytes_ok length, writeBytes_ok kind]
  simp only [List.nil_append, List.append_assoc, List.cons_append]

theorem kind_byte (kind : IsKind opcode) :
    (((0x80 ||| opcode.code) &&& 0x80) != 0) = true ∧
      Opcode.ofCode ((0x80 ||| opcode.code) &&& 0x0F) = opcode := by
  have all : ∀ code : Fin 16, (((0x80 ||| UInt8.ofNat code) &&& 0x80) != 0) = true ∧
      (0x80 ||| UInt8.ofNat code) &&& 0x0F = UInt8.ofNat code := by
    decide
  have here := all ⟨opcode.code.toNat, kind.1⟩
  rw [UInt8.ofNat_toNat] at here
  rw [here.2]
  exact ⟨here.1, kind.2⟩

theorem medium_length {length : ℕ} (fits : length < 2 ^ 16) :
    (lowByte length 8).toNat <<< 8 ||| (lowByte length 0).toNat = length := by
  rw [← Nat.shiftLeft_add_eq_or_of_lt (UInt8.toNat_lt _), Nat.shiftLeft_eq, lowByte_eq, lowByte_eq,
    UInt8.toNat_ofNat', UInt8.toNat_ofNat']
  omega

theorem long_length {length : ℕ} (fits : length < 2 ^ 64) :
    bigEndian [lowByte length 56, lowByte length 48, lowByte length 40, lowByte length 32,
      lowByte length 24, lowByte length 16, lowByte length 8, lowByte length 0] = length := by
  have folded : bigEndian (toBigEndian 8 length) = length := bigEndian_toBigEndian (by omega)
  simpa [toBigEndian, lowByte_eq, Nat.div_div_eq_div_mul] using folded

/-- The length is read as soon as its bytes are there. -/
theorem parseLength_take {length : ℕ} (fits : length < 2 ^ 64) :
    ∃ second field, lengthBytes length = second :: field ∧ ((second &&& 0x80) != 0) = true ∧
      ∀ first rest supplied, 2 ≤ supplied →
        parseLength (second &&& 0x7F).toNat
            ((first :: second :: (field ++ rest)).take supplied) =
          if supplied < fieldsLength length then .error .InsufficientData
          else .ok (length, fieldsLength length) := by
  by_cases short : length ≤ 125
  · have header : (((0x80 ||| UInt8.ofNat length) &&& 0x80) != 0) = true ∧
        ((0x80 ||| UInt8.ofNat length) &&& 0x7F).toNat = length := header_length (by omega)
    refine ⟨_, [], by rw [lengthBytes, if_pos short], header.1, ?_⟩
    intro first rest supplied enough
    rw [header.2, parseLength, if_neg (by omega), if_neg (by omega), fieldsLength, if_pos short,
      if_neg (by omega)]
  · by_cases medium : length ≤ 65535
    · refine ⟨_, _, by rw [lengthBytes, if_neg short, if_pos medium], by decide, ?_⟩
      intro first rest supplied enough
      have fields : fieldsLength length = 4 := by rw [fieldsLength, if_neg short, if_pos medium]
      rw [parseLength, if_pos (by decide), fields]
      by_cases few : supplied < 4
      · rw [if_pos few, if_pos]
        rw [List.length_take]
        omega
      · obtain ⟨more, rfl⟩ := Nat.exists_eq_add_of_le' (Nat.le_of_not_lt few)
        rw [if_neg few, if_neg]
        · simp only [List.cons_append, List.take_succ_cons, List.getD_cons_succ,
            List.getD_cons_zero, medium_length (show length < 2 ^ 16 by omega)]
        · simp
    · refine ⟨_, _, by rw [lengthBytes, if_neg short, if_neg medium], by decide, ?_⟩
      intro first rest supplied enough
      have fields : fieldsLength length = 10 := by rw [fieldsLength, if_neg short, if_neg medium]
      rw [parseLength, if_neg (by decide), if_pos (by decide), fields]
      by_cases few : supplied < 10
      · rw [if_pos few, if_pos]
        rw [List.length_take]
        omega
      · obtain ⟨more, rfl⟩ := Nat.exists_eq_add_of_le' (Nat.le_of_not_lt few)
        rw [if_neg few, if_neg]
        · simp only [List.cons_append, List.nil_append, List.take_succ_cons, List.drop_succ_cons,
            List.drop_zero, List.take_zero, long_length fits]
        · simp

/-!
## Reading a frame back
-/

/-- The header of a frame. -/
def writtenHeader (opcode : Opcode) (payload : Bytes) : ParsedHeader where
  opcode := opcode
  fin := true
  masked := true
  payload_len := payload.length
  header_bytes := fieldsLength payload.length + 4

theorem parseFrameHeader_take (kind : IsKind opcode) (fits : payload.length < 2 ^ 64)
    (built : buildFrame capacity opcode payload mask_key = .ok written) (supplied : ℕ) :
    parseFrameHeader (written.take supplied) =
      if supplied < fieldsLength payload.length then .error .InsufficientData
      else .ok (writtenHeader opcode payload) := by
  obtain ⟨second, field, split, masked, parsed⟩ := parseLength_take fits
  have fields : 2 ≤ fieldsLength payload.length := by
    rw [fieldsLength]
    split_ifs <;> decide
  rw [buildFrame_ok built, split, List.cons_append]
  by_cases enough : 2 ≤ supplied
  · have read := parsed (0x80 ||| opcode.code)
      (mask_key.toList ++ applyMask payload mask_key.toList) supplied enough
    obtain ⟨more, rfl⟩ := Nat.exists_eq_add_of_le' enough
    have header := kind_byte kind
    rw [List.take_succ_cons, List.take_succ_cons] at read ⊢
    rw [parseFrameHeader, if_neg (by simp)]
    simp only [List.getD_cons_zero, List.getD_cons_succ, header, masked, read]
    split_ifs
    · rfl
    · rfl
  · rw [if_pos (by omega), parseFrameHeader, if_pos]
    · rfl
    · rw [List.length_take]
      omega

/-- A frame is read back: its header ends behind the mask, and the mask comes off. -/
structure ReadsBack (opcode : Opcode) (payload : Bytes) (mask_key : Vector UInt8 4)
    (written : Bytes) (header : ParsedHeader) : Prop where
  parsed : parseFrameHeader written = .ok header
  opcode : header.opcode = opcode
  fin : header.fin = true
  masked : header.masked = true
  payload_len : header.payload_len = payload.length
  mask : (written.take header.header_bytes).drop (header.header_bytes - 4) = mask_key.toList
  payload : applyMask (written.drop header.header_bytes) mask_key.toList = payload

theorem length_lengthBytes (length : ℕ) :
    (lengthBytes length).length + 1 = fieldsLength length := by
  rw [lengthBytes, fieldsLength]
  split_ifs <;> rfl

theorem readsBack (kind : IsKind opcode) (fits : payload.length < 2 ^ 64)
    (built : buildFrame capacity opcode payload mask_key = .ok written) :
    ReadsBack opcode payload mask_key written (writtenHeader opcode payload) := by
  have fields := length_lengthBytes payload.length
  have front : ((0x80 ||| opcode.code) :: lengthBytes payload.length).length =
      fieldsLength payload.length := by
    rw [List.length_cons, fields]
  have header : ((0x80 ||| opcode.code) :: lengthBytes payload.length ++ mask_key.toList).length =
      fieldsLength payload.length + 4 := by
    rw [List.length_append, front, Vector.length_toList]
  have split : written = ((0x80 ||| opcode.code) :: lengthBytes payload.length ++
      mask_key.toList) ++ applyMask payload mask_key.toList := by
    rw [buildFrame_ok built]
    simp only [List.cons_append, List.append_assoc]
  refine ⟨?_, rfl, rfl, rfl, rfl, ?_, ?_⟩
  · have whole := parseFrameHeader_take kind fits built written.length
    rw [List.take_length] at whole
    rw [whole, if_neg]
    rw [split, List.length_append, header]
    omega
  · change ((written.take (fieldsLength payload.length + 4)).drop
      (fieldsLength payload.length + 4 - 4)) = _
    rw [split, List.take_left' header, Nat.add_sub_cancel, List.drop_left' front]
  · change applyMask (written.drop (fieldsLength payload.length + 4)) mask_key.toList = payload
    rw [split, List.drop_left' header, applyMask_applyMask]

/-- What is written is read back, whatever the payload. Of a proper part of its header more bytes
than there are are reported just when the bytes that are missing are those of the mask. -/
theorem readsBack_iff (capacity : ℕ) (opcode : Opcode) (payload : Bytes)
    (mask_key : Vector UInt8 4) (written : Bytes) (supplied : ℕ) (kind : IsKind opcode)
    (fits : payload.length < 2 ^ 64)
    (built : buildFrame capacity opcode payload mask_key = .ok written)
    (proper : supplied < fieldsLength payload.length + 4) :
    ((∃ header, ReadsBack opcode payload mask_key written header) ∧
      ∀ header, parseFrameHeader (written.take supplied) = .ok header →
        header.header_bytes ≤ supplied) ↔
      supplied < fieldsLength payload.length := by
  rw [parseFrameHeader_take kind fits built]
  constructor
  · rintro ⟨-, within⟩
    by_contra enough
    have bytes : fieldsLength payload.length + 4 ≤ supplied :=
      within (writtenHeader opcode payload) (if_neg enough)
    omega
  · intro few
    refine ⟨⟨_, readsBack kind fits built⟩, ?_⟩
    intro header parsed
    rw [if_pos few] at parsed
    cases parsed

/-- One byte of the header of a ping is an incomplete header. -/
theorem readsBack_ping : ∃ written,
    buildFrame 64 .ping [] #v[1, 2, 3, 4] = .ok written ∧
      (∃ header, ReadsBack .ping [] #v[1, 2, 3, 4] written header) ∧
      ∀ header, parseFrameHeader (written.take 1) = .ok header → header.header_bytes ≤ 1 :=
  ⟨_, rfl, (readsBack_iff 64 .ping [] #v[1, 2, 3, 4] _ 1 ⟨by decide, rfl⟩ (by decide) rfl
    (by decide)).mpr (by decide)⟩

/-- Two bytes of the header of a text are taken for one of six. -/
theorem reports_missing_mask : ∃ written,
    buildFrame 64 .text (ascii "Hi") #v[0xAA, 0xBB, 0xCC, 0xDD] = .ok written ∧
      2 < fieldsLength (ascii "Hi").length + 4 ∧
      ¬∀ header, parseFrameHeader (written.take 2) = .ok header → header.header_bytes ≤ 2 := by
  refine ⟨_, rfl, by decide, ?_⟩
  intro within
  exact absurd (within ⟨.text, true, true, 2, 6⟩ rfl) (by decide)

end Nullalis.Websocket
