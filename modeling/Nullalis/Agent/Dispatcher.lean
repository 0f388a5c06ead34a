import Nullalis.Base.Occurrence

/-!
# The dispatcher

The parser of tool calls that are written as `<invoke>` elements: it searches the response for
one element after the other, reads the name and the arguments of each, and collects the text
between them.

A slice of the response is the bytes it holds, and an index that is searched from a cursor is
counted from the start of the response, as in the source.
-/

namespace Nullalis.Agent

/-- A tool call of a response. -/
structure ParsedToolCall where
  name : Bytes
  arguments_json : Bytes
  tool_call_id : Option Bytes
deriving DecidableEq

/-- The text of a response and its tool calls. -/
structure ParseResult where
  text : Bytes
  calls : List ParsedToolCall
deriving DecidableEq

namespace Dispatcher

def blanks : Bytes := ascii " \t\r\n"

/-- The first occurrence from a position on (`std.mem.indexOfPos`). -/
def indexOfPos (bytes : Bytes) (start : ℕ) (needle : Bytes) : Option ℕ :=
  (Bytes.indexOf needle (bytes.drop start)).map (start + ·)

/-- The last occurrence (`std.mem.lastIndexOf`). -/
def lastIndexOf (bytes needle : Bytes) : Option ℕ :=
  (Bytes.indexOf needle.reverse bytes.reverse).map (bytes.length - needle.length - ·)

def slice (bytes : Bytes) (start stop : ℕ) : Bytes :=
  (bytes.drop start).take (stop - start)

/-- Where the bracket that is opened first is closed, outside of strings. -/
def closingBracket (opening closing : UInt8) : Bytes → ℕ → Bool → Bool → Option ℕ
  | [], _, _, _ => none
  | c :: rest, depth, in_string, escaped =>
      if escaped then (closingBracket opening closing rest depth in_string false).map (· + 1)
      else if c == byte '\\' && in_string then
        (closingBracket opening closing rest depth in_string true).map (· + 1)
      else if c == byte '"' then
        (closingBracket opening closing rest depth (!in_string) false).map (· + 1)
      else if in_string then (closingBracket opening closing rest depth in_string false).map (· + 1)
      else
        let depth := if c == opening then depth + 1 else depth
        if c == closing then
          if depth - 1 = 0 then some 0
          else (closingBracket opening closing rest (depth - 1) in_string false).map (· + 1)
        else (closingBracket opening closing rest depth in_string false).map (· + 1)

/-- The first JSON object or array of a text, without the fences around it. -/
def extractJsonObject (input : Bytes) : Option Bytes :=
  let trimmed :=
    match Bytes.indexOf (ascii "```") input with
    | none => input
    | some fence_start =>
        let after_fence := input.drop (fence_start + 3)
        let trimmed :=
          match Bytes.indexOfScalar (byte '\n') after_fence with
          | some nl => after_fence.drop (nl + 1)
          | none => input
        match lastIndexOf trimmed (ascii "```") with
        | some close => trimmed.take close
        | none => trimmed
  let start_info :=
    match Bytes.indexOfScalar (byte '{') trimmed, Bytes.indexOfScalar (byte '[') trimmed with
    | some op, some ap => some (if ap < op then (ap, byte '[', byte ']') else (op, byte '{', byte '}'))
    | some op, none => some (op, byte '{', byte '}')
    | none, some ap => some (ap, byte '[', byte ']')
    | none, none => none
  start_info.bind fun (pos, opening, closing) =>
    (closingBracket opening closing (trimmed.drop pos) 0 false false).map fun last =>
      slice trimmed pos (pos + last + 1)

/-- The value of an attribute, up to the next quote. Only quoted values are found. -/
def extractXmlAttribute (tag_slice attr : Bytes) : Option Bytes :=
  if 64 < attr.length + 2 then none
  else
    let search_key := attr ++ ascii "=\""
    (Bytes.indexOf search_key tag_slice).bind fun key_idx =>
      let value := tag_slice.drop (key_idx + search_key.length)
      (Bytes.indexOfScalar (byte '"') value).map value.take

/-- Does the value stand for itself in JSON? -/
def valueLooksLikeJson (value : Bytes) : Bool :=
  match value with
  | [] => false
  | c :: _ =>
      c == byte '{' || c == byte '[' || c == byte '"' || c == byte '-' || Bytes.isDigit c ||
        value == ascii "true" || value == ascii "false" || value == ascii "null"

/-- A byte of a JSON string. -/
def escapeJson (ch : UInt8) : Bytes :=
  if ch = byte '"' then ascii "\\\""
  else if ch = byte '\\' then ascii "\\\\"
  else if ch = byte '\n' then ascii "\\n"
  else if ch = byte '\r' then ascii "\\r"
  else if ch = byte '\t' then ascii "\\t"
  else [ch]

/-- The member of the arguments that a parameter stands for. -/
def parameterMember (param_name value : Bytes) : Bytes :=
  ascii "\"" ++ param_name.flatMap escapeJson ++ ascii "\":" ++
    if valueLooksLikeJson value then value
    else ascii "\"" ++ value.flatMap escapeJson ++ ascii "\""

/-- The members of the parameters from a cursor on. Every round leaves a tag behind. -/
def collectParameters (inner : Bytes) : ℕ → ℕ → List Bytes → List Bytes
  | 0, _, out => out
  | rounds + 1, cursor, out =>
      match indexOfPos inner cursor (ascii "<parameter ") with
      | none => out
      | some p_start =>
          match indexOfPos inner (p_start + (ascii "<parameter ").length) (ascii ">") with
          | none => out
          | some tag_end =>
              match extractXmlAttribute (slice inner p_start tag_end) (ascii "name") with
              | none => collectParameters inner rounds (tag_end + 1) out
              | some param_name =>
                  match indexOfPos inner (tag_end + 1) (ascii "</parameter>") with
                  | none => out
                  | some close_idx =>
                      let value := Bytes.trim blanks (slice inner (tag_end + 1) close_idx)
                      collectParameters inner rounds (close_idx + (ascii "</parameter>").length)
                        (out ++ [parameterMember param_name value])

/-- The arguments of a call: the element's content if it is a JSON object as a whole, else an
object of its parameters. -/
def buildInvokeArgumentsJson (inner : Bytes) : Bytes :=
  let members :=
    ascii "\x7b" ++ (ascii ",").intercalate (collectParameters inner (inner.length + 1) 0 []) ++ ascii "\x7d"
  match extractJsonObject inner with
  | none => members
  | some json_slice =>
      let trimmed := Bytes.trim blanks json_slice
      if trimmed.length = inner.length then trimmed else members

/-- A piece of text that is kept, unless it is blank. -/
def keep (text : Bytes) : List Bytes :=
  let trimmed := Bytes.trim blanks text
  if trimmed.isEmpty then [] else [trimmed]

/-- The loop over the elements: it leaves the cursor, the pieces of text and the calls. Every
round leaves an element behind. -/
def scanInvokes (response : Bytes) :
    ℕ → ℕ → List Bytes → List ParsedToolCall → ℕ × List Bytes × List ParsedToolCall
  | 0, cursor, text_parts, calls => (cursor, text_parts, calls)
  | rounds + 1, cursor, text_parts, calls =>
      match indexOfPos response cursor (ascii "<invoke ") with
      | none => (cursor, text_parts, calls)
      | some start =>
          let text_parts := text_parts ++ keep (slice response cursor start)
          match indexOfPos response (start + (ascii "<invoke ").length) (ascii ">") with
          | none => (cursor, text_parts, calls)
          | some tag_end =>
              let name_opt := extractXmlAttribute (slice response start tag_end) (ascii "name")
              match indexOfPos response (tag_end + 1) (ascii "</invoke>") with
              | none => (cursor, text_parts, calls)
              | some close_idx =>
                  let inner := Bytes.trim blanks (slice response (tag_end + 1) close_idx)
                  let calls :=
                    match name_opt with
                    | none => calls
                    | some name => calls ++ [⟨name, buildInvokeArgumentsJson inner, none⟩]
                  scanInvokes response rounds (close_idx + (ascii "</invoke>").length) text_parts calls

/-- The text of a response without its elements, and their calls. -/
def parseInvokeXmlToolCalls (response : Bytes) : ParseResult :=
  let (cursor, text_parts, calls) := scanInvokes response (response.length + 1) 0 [] []
  ⟨(ascii "\n").intercalate (text_parts ++ keep (response.drop cursor)), calls⟩

end Dispatcher

end Nullalis.Agent
