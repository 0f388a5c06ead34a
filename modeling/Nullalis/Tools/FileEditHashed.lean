import Nullalis.JsonUtil
import Nullalis.Tools.PathSecurity

/-!
# Editing a file by hashed lines

A line is named by its number and a hash of it and of the line before. The hash is searched near
the number, and the lines from the first to the last one that is named are replaced. The path is
resolved and checked as a whole before the file is read.
-/

namespace Nullalis.Tools

open Posix

def RADIUS : ℕ := 50

/-- `std.hash.Fnv1a_32` -/
def fnv1a (hash : UInt32) (text : Bytes) : UInt32 :=
  text.foldl (fun hash value => (hash ^^^ value.toUInt32) * 0x01000193) hash

/-- The hash of a line, three digits in hexadecimal. -/
def generateLineHash (parent current : Bytes) : Bytes :=
  let blanks := ascii " \t\r\n"
  let hash := fnv1a 0x811c9dc5
    (Bytes.trim blanks parent ++ ascii "|" ++ Bytes.trim blanks current)
  let truncated := hash.toNat % 4096
  [JsonUtil.hexDigit (truncated / 256), JsonUtil.hexDigit (truncated / 16 % 16),
    JsonUtil.hexDigit (truncated % 16)]

/-- A line by its number and its hash. -/
structure Target where
  line_num : ℕ
  hash : Bytes
deriving DecidableEq

def Target.parse (input : Bytes) : Option Target := do
  if Bytes.startsWith input "L" then
    let colon ← Bytes.indexOfScalar (byte ':') input
    let line_num ← Bytes.parseInt 0 (2 ^ 64 - 1) ((input.take colon).drop 1)
    let hash := input.drop (colon + 1)
    if hash.length = 3 then return { line_num := line_num.toNat, hash } else none
  else none

/-- A line and the position that it starts at. -/
structure LineInfo where
  start : ℕ
  content : Bytes
deriving DecidableEq

/-- The lines of a text, which starts at a position. -/
def collectLines (start : ℕ) : List Bytes → List LineInfo
  | [] => []
  | content :: rest => ⟨start, content⟩ :: collectLines (start + content.length + 1) rest

inductive LineSearchResult where
  | found (index : ℕ)
  | not_found
  | ambiguous
deriving DecidableEq

/-- Search for a hash near a line. -/
def findLineWithRadius (lines : List LineInfo) (hint_idx : ℕ) (target_hash : Bytes) :
    LineSearchResult :=
  let first := hint_idx - RADIUS
  let last := min lines.length (hint_idx + RADIUS + 1)
  let content (index : ℕ) := (lines[index]?.map (·.content)).getD []
  let hits := (List.range' first (last - first)).filter fun index =>
    generateLineHash (if 0 < index then content (index - 1) else []) (content index) = target_hash
  match hits with
  | [] => .not_found
  | [index] => .found index
  | _ => .ambiguous

/-- Where the last line that is replaced stands. -/
def findEnd (lines : List LineInfo) (target : Target) (real_start_idx : ℕ) (end_target : Target) :
    Except ToolResult ℕ :=
  if end_target.line_num = 0 ∨ lines.length < end_target.line_num ∨
      end_target.line_num < target.line_num then
    .error (.fail (ascii "End target out of range"))
  else
    let drift : ℤ := real_start_idx - (target.line_num - 1)
    let hinted : ℤ := (end_target.line_num - 1) + drift
    let hint := min hinted.toNat (lines.length - 1)
    match findLineWithRadius lines hint end_target.hash with
    | .not_found => .error (.fail (ascii "Hash mismatch for end target. Context changed."))
    | .ambiguous =>
        .error (.fail (ascii "Ambiguous end target. Re-read file to refresh Hashlines."))
    | .found resolved_end =>
        if resolved_end < real_start_idx then
          .error (.fail (ascii "End target resolved before start target"))
        else .ok resolved_end

/-- The text with the lines replaced, and where the first of them stood. -/
def editContents (contents : Bytes) (target : Target) (end_target : Option Target)
    (new_text : Bytes) : Except ToolResult (Bytes × ℕ) := do
  let lines := collectLines 0 (Bytes.splitScalar (byte '\n') contents)
  if target.line_num = 0 ∨ lines.length < target.line_num then
    .error (.fail (ascii "Target line number out of range"))
  else
    let near := target.hash ++ ascii " near line " ++ Bytes.decimal target.line_num
    let real_start_idx ←
      match findLineWithRadius lines (target.line_num - 1) target.hash with
      | .found index => .ok index
      | .not_found =>
          .error (.fail (ascii "Hash mismatch for start target " ++ near ++
            ascii ". Context changed."))
      | .ambiguous =>
          .error (.fail (ascii "Ambiguous start target " ++ near ++
            ascii ". Re-read file to refresh Hashlines."))
    let real_end_idx ← end_target.elim (.ok real_start_idx) (findEnd lines target real_start_idx)
    let front := contents.take ((lines[real_start_idx]?.map (·.start)).getD 0)
    let replacement_end := (lines[real_end_idx + 1]?.map (·.start)).getD contents.length
    let rest := contents.drop replacement_end
    let separator :=
      if rest ≠ [] ∧ new_text ≠ [] ∧ Bytes.endsWith new_text "\n" = false then ascii "\n" else []
    return (front ++ new_text ++ separator ++ rest, real_start_idx)

/-- The tool that edits files. -/
structure FileEditHashedTool extends FileTool where
  max_file_size : ℕ
deriving DecidableEq

namespace FileEditHashedTool

/-- The location of the file and what it will hold, unless the call is refused. -/
def plan (tool : FileEditHashedTool) (fs : FileSystem) (cwd : Location) (path : Bytes)
    (target : Target) (end_target : Option Target) (new_text : Bytes) :
    Except ToolResult (Location × Bytes × ℕ) := do
  let full_path ← tool.fullPath path
  match resolve fs cwd full_path with
  | .error errno =>
      .error (.fail (ascii "Failed to resolve path: " ++ errorText errno ++ ascii " (" ++ path ++
        ascii ")"))
  | .ok location =>
      let resolved := render location
      if isResolvedPathAllowed fs cwd resolved (tool.wsPath fs cwd) tool.allowed_paths then
        let opened ← (resolve fs cwd resolved).mapError (failWith "Failed to open file: ")
        match fs opened with
        | some (.file contents) =>
            if tool.max_file_size < contents.length then
              .error (.fail (ascii "File too large: " ++ Bytes.decimal contents.length ++
                ascii " bytes (limit: " ++ Bytes.decimal tool.max_file_size ++ ascii " bytes)"))
            else
              let edited ← editContents contents target end_target new_text
              return (opened, edited)
        | _ => .error (failWith "Failed to read file: " .IsDir)
      else .error outside

/-- Edit a file (`FileEditHashedTool.execute`). -/
def fileEditHashed (tool : FileEditHashedTool) (disk : Disk) (cwd : Location)
    (path target end_target new_text : Option Bytes) : ToolResult × Disk :=
  match path, target, new_text with
  | none, _, _ => (.fail (ascii "Missing 'path' parameter"), disk)
  | _, none, _ => (.fail (ascii "Missing 'target' parameter"), disk)
  | _, _, none => (.fail (ascii "Missing 'new_text' parameter"), disk)
  | some path, some target, some new_text =>
      match Target.parse target with
      | none => (.fail (ascii "Invalid target format. Use L<num>:<hash>"), disk)
      | some target =>
          if (end_target.map Target.parse).any Option.isNone then
            (.fail (ascii "Invalid end_target format. Use L<num>:<hash>"), disk)
          else
            match tool.plan disk.fs cwd path target (end_target.bind Target.parse) new_text with
            | .error result => (result, disk)
            | .ok (location, contents, real_start_idx) =>
                ({ success := true
                   output := ascii "File updated successfully. Target shifted from L" ++
                     Bytes.decimal target.line_num ++ ascii " to L" ++
                     Bytes.decimal (real_start_idx + 1) ++ ascii " (Context-Aware)."
                   error_msg := none },
                  disk.put location (some (.file contents)))

end FileEditHashedTool

end Nullalis.Tools
