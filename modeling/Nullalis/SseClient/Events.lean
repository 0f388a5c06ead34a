import Nullalis.Providers.SseEvents

/-!
# The event parser of the SSE client

The parser goes through the lines of a buffer and keeps the event that it is building. A blank line
ends the event; so does a data line for which there is no room, and that line is skipped.
-/

namespace Nullalis.SseClient

def MAX_EVENT_SIZE : ℕ := 1024 * 1024

structure SseEvent where
  data : Bytes
  event_type : Bytes := []
  id : Bytes := []
deriving DecidableEq

/-- The field and the value of a line. One space before the value does not belong to it. -/
def parseField (line : Bytes) : Bytes × Bytes :=
  match Bytes.indexOfScalar (byte ':') line with
  | some colon_pos =>
      let rest := line.drop (colon_pos + 1)
      (line.take colon_pos, if rest.head? = some (byte ' ') then rest.tail else rest)
  | none => (line, [])

/-- The variables of the parser. -/
structure Parser where
  events : List SseEvent := []
  current_data : Bytes := []
  current_event_type : Bytes := []
  current_id : Bytes := []
  total_event_size : ℕ := 0
  has_data : Bool := false
deriving DecidableEq

namespace Parser

def reset (parser : Parser) : Parser :=
  { events := parser.events }

/-- Emit the event that is being built, if it has data. -/
def dispatch (parser : Parser) : Parser :=
  if parser.has_data then
    { events := parser.events ++
        [⟨parser.current_data, parser.current_event_type, parser.current_id⟩] }
  else parser

/-- A line with data. -/
def onData (parser : Parser) (value : Bytes) : Parser :=
  let newline_len := if parser.has_data then 1 else 0
  let new_size := parser.total_event_size + value.length + newline_len
  if MAX_EVENT_SIZE < new_size then parser.dispatch.reset
  else
    { parser with
      current_data :=
        parser.current_data ++ (if parser.has_data then [byte '\n'] else []) ++ value
      total_event_size := new_size
      has_data := true }

/-- A line with a field. The retry time is read and not used. -/
def onField (parser : Parser) (field value : Bytes) : Parser :=
  if field = ascii "data" then parser.onData value
  else if field = ascii "event" then { parser with current_event_type := value }
  else if field = ascii "id" then
    if (Bytes.indexOfScalar 0 value).isNone then { parser with current_id := value } else parser
  else parser

/-- A line. -/
def onLine (parser : Parser) (raw_line : Bytes) : Parser :=
  let line := Providers.trimReturns raw_line
  if line = [] then parser.dispatch
  else if line.head? = some (byte ':') then parser
  else
    let (field, value) := parseField line
    parser.onField field value

end Parser

def parseEvents (buffer : Bytes) : List SseEvent :=
  ((Bytes.splitScalar (byte '\n') buffer).foldl Parser.onLine {}).dispatch.events

end Nullalis.SseClient
