import Nullalis.Base.JsonObject
import Nullalis.Extraction.Schema

/-!
# Reading what a model extracted

An answer is trimmed, a fence around it is stripped, and it is read as a JSON text. If that fails,
then the first object in it is searched with a scanner of braces and strings, and read once more.
What cannot be read is an empty result.

The result of an answer in which the depth of the scanner overflows is `none`. Allocation succeeds.
-/

namespace Nullalis.Extraction

/-- `std.ascii.whitespace` -/
def whitespace : Bytes :=
  [byte ' ', byte '\t', byte '\n', byte '\r', 0x0B, 0x0C]

/-- What follows the line of the opening fence. Without a newline the fence stays. -/
def skipOpeningFence (s : Bytes) : Bytes :=
  match Bytes.indexOfScalar (byte '\n') (s.drop 3) with
  | some nl => s.drop (3 + nl + 1)
  | none => s

def dropClosingFence (out : Bytes) : Bytes :=
  if Bytes.endsWith out "```" then out.take (out.length - 3) else out

/-- Strip a fence, if there is one. -/
def stripCodeFence (s : Bytes) : Bytes :=
  if Bytes.startsWith s "```" then Bytes.trim whitespace (dropClosingFence (skipOpeningFence s))
  else s

/-- Where the scanner of braces stands. The depth is 32 bits wide. -/
structure Braces where
  depth : ℤ := 0
  in_string : Bool := false
  escape : Bool := false
deriving DecidableEq

/-- What comes of a byte. -/
inductive Scanned where
  | further (braces : Braces)
  | closed
  | overflow
deriving DecidableEq

def Braces.scan (braces : Braces) (c : UInt8) : Scanned :=
  if braces.escape then .further { braces with escape := false }
  else if c = byte '\\' then .further { braces with escape := true }
  else if c = byte '"' then .further { braces with in_string := !braces.in_string }
  else if braces.in_string then .further braces
  else if c = byte '\x7b' then
    if braces.depth + 1 < 2 ^ 31 then .further { braces with depth := braces.depth + 1 }
    else .overflow
  else if c = byte '\x7d' then
    if braces.depth - 1 = 0 then .closed
    else if -2 ^ 31 ≤ braces.depth - 1 then .further { braces with depth := braces.depth - 1 }
    else .overflow
  else .further braces

/-- The bytes up to the brace that closes the first one. There is no result if the depth
overflows. -/
def closedObject (braces : Braces) : Bytes → Option (Option Bytes)
  | [] => some none
  | c :: rest =>
      match braces.scan c with
      | .further braces => (closedObject braces rest).map fun found => found.map (c :: ·)
      | .closed => some (some [c])
      | .overflow => none

/-- The first object, as far as braces and strings tell. -/
def extractFirstJsonObject (s : Bytes) : Option (Option Bytes) :=
  match Bytes.indexOfScalar (byte '\x7b') s with
  | none => some none
  | some start => closedObject {} (s.drop start)

/-- Days as seconds since the epoch, from a date in ISO 8601. What follows the date is ignored. -/
def parseIsoToUnix (iso : Bytes) : Option ℤ := do
  if iso.length < 10 then none
  else
    let year ← Bytes.parseInt (-2 ^ 31) (2 ^ 31 - 1) (iso.take 4)
    if iso[4]? ≠ some (byte '-') then none
    else
      let month ← Bytes.parseInt 0 255 ((iso.drop 5).take 2)
      if iso[7]? ≠ some (byte '-') then none
      else
        let day ← Bytes.parseInt 0 255 ((iso.drop 8).take 2)
        if year < 1970 ∨ month < 1 ∨ 12 < month ∨ day < 1 ∨ 31 < day then none
        else
          let y := if month ≤ 2 then year - 1 else year
          let m := if month ≤ 2 then month + 9 else month - 3
          let era := y / 400
          let yoe := y - era * 400
          let doy := (153 * m + 2) / 5 + day - 1
          let doe := yoe * 365 + yoe / 4 - yoe / 100 + doy
          let days := era * 146097 + doe - 719468
          return days * 86400

/-- The item is an object. -/
def object? : Json → Option (List (Bytes × Json))
  | .object members => some members
  | _ => none

/-- The items of an array. Anything else has none. -/
def items : Option Json → List Json
  | some (.array items) => items
  | _ => []

def filled? (value : Json) : Option Bytes :=
  value.string?.filter fun text => !text.isEmpty

/-- The entity of an item, if it has a name of a reasonable length. -/
def parseOneEntity (item : Json) : Option Entity := do
  let members ← object? item
  let name ← (Json.get? members (ascii "name")).bind filled?
  if 200 < name.length then none
  else
    let type_str := ((Json.get? members (ascii "type")).bind Json.string?).getD (ascii "concept")
    return { name, entity_type := .fromString type_str }

/-- The entities of an object. Items that are not well-formed are left out. -/
def parseEntities (root : List (Bytes × Json)) : List Entity :=
  (items (Json.get? root (ascii "entities"))).filterMap parseOneEntity

/-- How a number is read as a float: from a literal with a point or an exponent, if it is finite,
or from an integer. -/
structure Floats (Number : Type) where
  parseFloat : Bytes → Option Number
  floatFromInt : ℤ → Number

section Number

variable {Number : Type} (floats : Floats Number)

/-- The number of a value (`std.json`). -/
def Floats.number? : Json → Option Number
  | .number literal =>
      if literal = ascii "-0" ∨ literal.any (fun value => (ascii ".eE").contains value) then
        floats.parseFloat literal
      else (Json.number literal).integer?.map floats.floatFromInt
  | _ => none

/-- The edge of an item, if the required fields are there. -/
def parseOneEdge (item : Json) : Option (Edge Number) := do
  let members ← object? item
  let source ← (Json.get? members (ascii "source")).bind filled?
  let target ← (Json.get? members (ascii "target")).bind filled?
  let fact ← (Json.get? members (ascii "fact")).bind filled?
  let pred_v ← (Json.get? members (ascii "predicate")).or
    (Json.get? members (ascii "relation_type"))
  let relation_type ← filled? pred_v
  let valid_at := (Json.get? members (ascii "valid_at")).bind fun value =>
    value.integer?.or (value.string?.bind parseIsoToUnix)
  return {
    source_name := source
    target_name := target
    relation_type
    fact
    slot_intent := ((Json.get? members (ascii "slot_intent")).bind Json.string?).bind
      SlotIntent.fromString
    confidence := (Json.get? members (ascii "confidence")).bind floats.number?
    valid_at }

/-- What an object holds. -/
def parseRoot (root : List (Bytes × Json)) : ExtractionResult Number where
  entities := parseEntities root
  edges := (items (Json.get? root (ascii "edges"))).filterMap (parseOneEdge floats)

/-- Read an answer, and do something else if it is no JSON text (`parseExtractionImpl`). -/
def parseExtractionImpl (unread : Bytes → Option (ExtractionResult Number)) (raw : Bytes) :
    Option (ExtractionResult Number) :=
  let s := stripCodeFence (Bytes.trim whitespace raw)
  if s.isEmpty then some ⟨[], []⟩
  else if s = ascii "\x7b\x7d" then some ⟨[], []⟩
  else
    match Json.parse s with
    | none => unread s
    | some (.object root) => some (parseRoot floats root)
    | some _ => some ⟨[], []⟩

/-- Read an answer. What is not read is searched for an object, which is read in turn. -/
def parseExtraction (raw : Bytes) : Option (ExtractionResult Number) :=
  parseExtractionImpl floats
    (fun s => (extractFirstJsonObject s).bind fun found =>
      match found with
      | none => some ⟨[], []⟩
      | some substr => parseExtractionImpl floats (fun _ => some ⟨[], []⟩) substr)
    raw

end Number

end Nullalis.Extraction
