import Nullalis.Channels.Imap

/-!
# Inbound messages

A raw message is split into its header and its body. A header's value is unfolded into a line of
its own. Encoded words of the sender and of the subject are decoded, to any bytes.
-/

namespace Nullalis.Channels.Email

/-- A parsed inbound email. -/
structure ParsedEmail where
  from_addr : Bytes
  subject : Bytes
  body : Bytes
  message_id : Bytes
deriving DecidableEq

def blanks : Bytes := ascii " \t"

def bodyBlanks : Bytes := ascii " \t\r\n"

/-- The position where the needle occurs in some letter case (`std.ascii.indexOfIgnoreCase`). -/
def indexOfIgnoreCase (haystack needle : Bytes) : Option ℕ :=
  Bytes.indexOf (needle.map Bytes.toLower) (haystack.map Bytes.toLower)

/-- `std.ascii.endsWithIgnoreCase` -/
def endsWithIgnoreCase (haystack needle : Bytes) : Bool :=
  needle.length ≤ haystack.length &&
    Bytes.eqlIgnoreCase (haystack.drop (haystack.length - needle.length)) needle

/-!
## Encoded words
-/

/-- An encoded word of RFC 2047. -/
structure EncodedWord where
  encoding : Bytes
  payload : Bytes
  total_len : ℕ
deriving DecidableEq

/-- The encoded word at the start of the text: `=?charset?encoding?payload?=`. -/
def parseEncodedWord (s : Bytes) : Option EncodedWord :=
  if s.length < 6 ∨ ¬(ascii "=?").isPrefixOf s then none
  else do
    let charset_end ← Bytes.indexOf (ascii "?") (s.drop 2)
    let enc_start := 2 + charset_end + 1
    if s.length ≤ enc_start then none
    else
      let enc_end_rel ← Bytes.indexOf (ascii "?") (s.drop enc_start)
      let payload_start := enc_start + enc_end_rel + 1
      if s.length ≤ payload_start then none
      else
        let term_pos ← Bytes.indexOf (ascii "?=") (s.drop payload_start)
        some
          { encoding := (s.drop enc_start).take enc_end_rel
            payload := (s.drop payload_start).take term_pos
            total_len := payload_start + term_pos + 2 }

def hexDigit (c : UInt8) : Option UInt8 :=
  if byte '0' ≤ c ∧ c ≤ byte '9' then some (c - byte '0')
  else if byte 'A' ≤ c ∧ c ≤ byte 'F' then some (c - byte 'A' + 10)
  else if byte 'a' ≤ c ∧ c ≤ byte 'f' then some (c - byte 'a' + 10)
  else none

/-- The branch of `decodeRfc2047` for quoted-printable payloads. The two bytes behind an equals
sign have to be there. -/
def decodeQ : Bytes → Bytes
  | [] => []
  | qc :: high :: low :: more =>
      if qc = byte '_' then byte ' ' :: decodeQ (high :: low :: more)
      else if qc = byte '=' then
        match hexDigit high, hexDigit low with
        | some hi, some lo => ((hi <<< 4) ||| lo) :: decodeQ more
        | _, _ => qc :: decodeQ (high :: low :: more)
      else qc :: decodeQ (high :: low :: more)
  | qc :: rest => (if qc = byte '_' then byte ' ' else qc) :: decodeQ rest

/-- The value of a letter of base64. -/
def base64Index (c : UInt8) : Option ℕ :=
  if byte 'A' ≤ c ∧ c ≤ byte 'Z' then some (c.toNat - 65)
  else if byte 'a' ≤ c ∧ c ≤ byte 'z' then some (c.toNat - 71)
  else if byte '0' ≤ c ∧ c ≤ byte '9' then some (c.toNat + 4)
  else if c = byte '+' then some 62
  else if c = byte '/' then some 63
  else none

/-- The bits that are read, twelve of them at most, and how many are left over. -/
def decodeLetters (acc acc_len : ℕ) (out : Bytes) : Bytes → Option Bytes
  | [] => if 4 < acc_len ∨ acc % 2 ^ acc_len ≠ 0 then none else some out
  | c :: rest =>
      match base64Index c with
      | none =>
          -- Only padding may follow, as much of it as the bits left over ask for.
          if c ≠ byte '=' ∨ 4 < acc_len ∨ acc % 2 ^ acc_len ≠ 0 then none
          else if (c :: rest).all (· == byte '=') ∧ (c :: rest).length = acc_len / 2 then some out
          else none
      | some d =>
          let acc := (acc * 64 + d) % 2 ^ 12
          let acc_len := acc_len + 6
          if 8 ≤ acc_len then
            decodeLetters acc (acc_len - 8) (out ++ [UInt8.ofNat (acc / 2 ^ (acc_len - 8))]) rest
          else decodeLetters acc acc_len out rest

/-- The bytes of a base64 text with its padding (`std.base64.standard.Decoder`). -/
def decodeBase64 (source : Bytes) : Option Bytes :=
  if source.length % 4 ≠ 0 then none else decodeLetters 0 0 [] source

/-- What an encoded word stands for. A payload that cannot be read is passed through with it. -/
def EncodedWord.decoded (ew : EncodedWord) (raw : Bytes) : Bytes :=
  if Bytes.eqlIgnoreCase ew.encoding (ascii "B") then (decodeBase64 ew.payload).getD raw
  else if Bytes.eqlIgnoreCase ew.encoding (ascii "Q") then decodeQ ew.payload
  else raw

/-- The loop of `decodeRfc2047`. Every round leaves a byte behind. -/
def decodeWords : ℕ → Bytes → Bytes
  | 0, _ => []
  | _ + 1, [] => []
  | rounds + 1, first :: rest =>
      if (ascii "=?").isPrefixOf (first :: rest) then
        match parseEncodedWord (first :: rest) with
        | some ew =>
            ew.decoded ((first :: rest).take ew.total_len) ++
              decodeWords rounds ((first :: rest).drop ew.total_len)
        | none => first :: decodeWords rounds rest
      else first :: decodeWords rounds rest

def decodeRfc2047 (encoded : Bytes) : Bytes :=
  decodeWords (encoded.length + 1) encoded

/-!
## Headers
-/

/-- The lines that continue a header. -/
def continuation : List Bytes → Bytes
  | [] => []
  | raw :: rest =>
      let line := trimRight carriageReturns raw
      if line.head? = some (byte ' ') ∨ line.head? = some (byte '\t') then
        byte ' ' :: (trimLeft blanks line ++ continuation rest)
      else []

/-- The loop of `extractHeader` over the lines. -/
def findHeader (name : Bytes) : List Bytes → Bytes
  | [] => []
  | raw :: rest =>
      let line := trimRight carriageReturns raw
      match Bytes.indexOfScalar (byte ':') line with
      | none => findHeader name rest
      | some colon =>
          if Bytes.eqlIgnoreCase (Bytes.trim blanks (line.take colon)) name then
            trimLeft blanks (line.drop (colon + 1)) ++ continuation rest
          else findHeader name rest

def extractHeader (header_block name : Bytes) : Bytes :=
  findHeader name (Bytes.splitScalar (byte '\n') header_block)

/-- The address in a header such as `Name <addr@host>`. -/
def extractAddress (from_value : Bytes) : Bytes :=
  match Bytes.indexOfScalar (byte '<') from_value with
  | some lt =>
      match indexOfScalarPos from_value (lt + 1) (byte '>') with
      | some gt => Bytes.trim blanks ((from_value.drop (lt + 1)).take (gt - (lt + 1)))
      | none => Bytes.trim blanks from_value
  | none => Bytes.trim blanks from_value

def stripAngleBrackets (s : Bytes) : Bytes :=
  if 2 ≤ s.length ∧ s.head? = some (byte '<') ∧ s.getLast? = some (byte '>') then
    (s.drop 1).take (s.length - 2)
  else s

/-- The loop of `stripHtml`. -/
def stripTags (in_tag : Bool) : Bytes → Bytes
  | [] => []
  | c :: rest =>
      if c = byte '<' then stripTags true rest
      else if c = byte '>' then stripTags false rest
      else if in_tag then stripTags in_tag rest
      else c :: stripTags in_tag rest

def stripHtml (html : Bytes) : Bytes :=
  stripTags false html

/-- Where the headers end and where the body starts. -/
def headerEnd (raw : Bytes) : ℕ × ℕ :=
  match Bytes.indexOf (ascii "\r\n\r\n") raw with
  | some p => (p, p + 4)
  | none =>
      match Bytes.indexOf (ascii "\n\n") raw with
      | some p => (p, p + 2)
      | none => (raw.length, raw.length)

/-- Parse a raw message of RFC 5322. -/
def parseEmailMessage (raw : Bytes) : ParsedEmail :=
  let header_block := raw.take (headerEnd raw).1
  let body_block := raw.drop (headerEnd raw).2
  let body_trimmed := Bytes.trim bodyBlanks body_block
  { from_addr := extractAddress (decodeRfc2047 (extractHeader header_block (ascii "from")))
    subject := decodeRfc2047 (extractHeader header_block (ascii "subject"))
    body :=
      if (indexOfIgnoreCase (extractHeader header_block (ascii "content-type"))
          (ascii "text/html")).isSome then stripHtml body_trimmed
      else body_trimmed
    message_id := stripAngleBrackets
      (Bytes.trim blanks (extractHeader header_block (ascii "message-id"))) }

end Nullalis.Channels.Email
