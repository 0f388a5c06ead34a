import Nullalis.Base.Splice
import Nullalis.Tools.FileEditHashed

/-!
# Reading a file by hashed lines

Every line is printed behind a tag, which has the number of the line and the hash that the editing
tool searches for. A file that looks binary is named instead.
-/

namespace Nullalis.Tools

open Posix

structure BinarySignature where
  magic : Bytes
  type_name : Bytes
deriving DecidableEq

def BINARY_SIGNATURES : List BinarySignature :=
  [⟨ascii "\x89PNG", ascii "PNG image"⟩, ⟨[0xFF, 0xD8, 0xFF], ascii "JPEG image"⟩,
    ⟨ascii "GIF87a", ascii "GIF image"⟩, ⟨ascii "GIF89a", ascii "GIF image"⟩,
    ⟨ascii "%PDF", ascii "PDF document"⟩, ⟨ascii "PK\x03\x04", ascii "ZIP archive"⟩,
    ⟨ascii "Rar!", ascii "RAR archive"⟩, ⟨ascii "7z\xBC\xAF\x27\x1C", ascii "7z archive"⟩,
    ⟨ascii "\x7FELF", ascii "Linux executable"⟩]

def EXTENSION_TYPES : List (Bytes × Bytes) :=
  [(".png", "PNG image"), (".jpg", "JPEG image"), (".jpeg", "JPEG image"), (".gif", "GIF image"),
    (".webp", "WebP image"), (".avif", "AVIF image"), (".heic", "HEIC image"),
    (".heif", "HEIF image"), (".pdf", "PDF document"), (".zip", "ZIP archive"),
    (".mp4", "MP4 video"), (".mov", "QuickTime video"), (".mp3", "MP3 audio"),
    (".m4a", "M4A audio"), (".wav", "WAV audio"), (".exe", "Windows executable"),
    (".dll", "Windows DLL"), (".so", "Linux shared library"),
    (".dylib", "macOS shared library")].map fun entry => (ascii entry.1, ascii entry.2)

def isWebP (data : Bytes) : Bool :=
  Bytes.startsWith data "RIFF" && Bytes.startsWith (data.drop 8) "WEBP"

def hasIsoBmffHeader (data : Bytes) : Bool :=
  Bytes.startsWith (data.drop 4) "ftyp"

/-- Does the content look binary? -/
def isBinaryContent (data : Bytes) : Bool :=
  BINARY_SIGNATURES.any (fun sig => sig.magic.isPrefixOf data) || isWebP data ||
    hasIsoBmffHeader data || (data.take 8192).contains 0

/-- What follows the last dot of the name, unless it starts there (`std.fs.path.extension`). -/
def extension (path : Bytes) : Bytes :=
  let filename := Bytes.basename path
  match Bytes.lastIndexOfScalar (byte '.') filename with
  | none | some 0 => []
  | some index => filename.drop index

/-- What a file that looks binary is called. -/
def getBinaryFileType (data path : Bytes) : Bytes :=
  match BINARY_SIGNATURES.find? fun sig => sig.magic.isPrefixOf data with
  | some sig => sig.type_name
  | none =>
      let ext_raw := extension path
      let ext := if ext_raw.length ≤ 16 then ext_raw.map Bytes.toLower else ext_raw
      match EXTENSION_TYPES.find? fun entry => ext = entry.1 with
      | some entry => entry.2
      | none =>
          if isWebP data then ascii "WebP image"
          else if hasIsoBmffHeader data then ascii "ISO media container"
          else ascii "binary file"

/-- The location of the file at a path and what it holds, unless the call is refused. -/
def FileTool.openFile (tool : FileTool) (max_file_size : ℕ) (fs : FileSystem) (cwd : Location)
    (path : Bytes) : Except ToolResult (Location × Bytes) := do
  let full_path ← tool.fullPath path
  match resolve fs cwd full_path with
  | .error errno =>
      .error (.fail (ascii "Failed to resolve path: " ++ errorText errno ++ ascii " (" ++ path ++
        ascii ")"))
  | .ok location =>
      let resolved := render location
      if isResolvedPathAllowed fs cwd resolved (tool.wsPath fs cwd) tool.allowed_paths then
        let opened ← (resolve fs cwd resolved).mapError (failWith "Failed to open file: ")
        match fs opened with
        | some (.file contents) =>
            if max_file_size < contents.length then
              .error (.fail (ascii "File too large: " ++ Bytes.decimal contents.length ++
                ascii " bytes (limit: " ++ Bytes.decimal max_file_size ++ ascii " bytes)"))
            else .ok (opened, contents)
        | _ => .error (failWith "Failed to read file: " .IsDir)
      else .error outside

/-- The lines that are printed, from a number on. -/
def hashlines (last_line : Bytes) (line_num : ℕ) : List Bytes → List Bytes
  | [] => []
  | line :: rest =>
      (ascii "L" ++ Bytes.decimal line_num ++ ascii ":" ++ generateLineHash last_line line ++
        ascii "|" ++ line) :: hashlines line (line_num + 1) rest

/-- The tool that reads files. -/
structure FileReadHashedTool extends FileTool where
  max_file_size : ℕ
deriving DecidableEq

/-- Read a file (`FileReadHashedTool.execute`). -/
def FileReadHashedTool.fileReadHashed (tool : FileReadHashedTool) (fs : FileSystem)
    (cwd : Location) (path : Option Bytes) : ToolResult :=
  match path with
  | none => .fail (ascii "Missing 'path' parameter")
  | some path =>
      match tool.openFile tool.max_file_size fs cwd path with
      | .error result => result
      | .ok (_, contents) =>
          { success := true
            output :=
              if isBinaryContent contents then
                ascii "[Binary file detected: " ++ getBinaryFileType contents path ++
                  ascii ", size: " ++ Bytes.decimal contents.length ++
                  ascii " bytes. Use [IMAGE:path] marker for images.]"
              else
                Splice.ended (byte '\n')
                  (hashlines [] 1 (Bytes.splitScalar (byte '\n') contents))
            error_msg := none }

theorem FileEditHashedTool.plan_eq (tool : FileEditHashedTool) (fs : FileSystem) (cwd : Location)
    (path : Bytes) (target : Target) (end_target : Option Target) (new_text : Bytes) :
    tool.plan fs cwd path target end_target new_text =
      (do
        let opened ← tool.openFile tool.max_file_size fs cwd path
        let edited ← editContents opened.2 target end_target new_text
        return (opened.1, edited)) := by
  rw [plan, FileTool.openFile]
  cases tool.fullPath path with
  | error result => rfl
  | ok full_path =>
      simp only [bind, Except.bind]
      cases resolve fs cwd full_path with
      | error errno => rfl
      | ok location =>
          dsimp only
          split
          case isFalse => rfl
          case isTrue =>
              cases resolve fs cwd (render location) with
              | error errno => rfl
              | ok opened =>
                  simp only [Except.mapError]
                  cases fs opened with
                  | none => rfl
                  | some entry =>
                      cases entry with
                      | directory => rfl
                      | symlink target => rfl
                      | file contents =>
                          dsimp only
                          split <;> rfl

/-!
## Tags
-/

/-- The line before a line, which is empty for the first one. -/
def parentAt (lines : List Bytes) (index : ℕ) : Bytes :=
  if 0 < index then lines.getD (index - 1) [] else []

def hashAt (lines : List Bytes) (index : ℕ) : Bytes :=
  generateLineHash (parentAt lines index) (lines.getD index [])

def tagAt (lines : List Bytes) (index : ℕ) : Bytes :=
  ascii "L" ++ Bytes.decimal (index + 1) ++ ascii ":" ++ hashAt lines index

/-- The tags of an output: what stands before the first bar of each line. -/
def tagsOf (output : Bytes) : List Bytes :=
  (Splice.textLines (byte '\n') output).map fun line => line.takeWhile (· != byte '|')

theorem hexDigit_of_mem_generateLineHash {parent current : Bytes} {value : UInt8}
    (mem : value ∈ generateLineHash parent current) :
    ∃ digit < 16, value = JsonUtil.hexDigit digit := by
  have three (number : ℕ) : number % 4096 / 256 < 16 ∧ number % 4096 / 16 % 16 < 16 ∧
      number % 4096 % 16 < 16 := by omega
  simp only [generateLineHash, List.mem_cons, List.not_mem_nil, or_false] at mem
  rcases mem with rfl | rfl | rfl
  · exact ⟨_, (three _).1, rfl⟩
  · exact ⟨_, (three _).2.1, rfl⟩
  · exact ⟨_, (three _).2.2, rfl⟩

theorem not_mem_tag {delimiter : UInt8} (other : delimiter = byte '|' ∨ delimiter = byte '\n')
    (line_num : ℕ) (parent current : Bytes) :
    delimiter ∉ ascii "L" ++ Bytes.decimal line_num ++ ascii ":" ++
      generateLineHash parent current := by
  have letter : delimiter ∉ ascii "L" ∧ delimiter ∉ ascii ":" ∧ Bytes.isDigit delimiter = false ∧
      ∀ digit < 16, delimiter ≠ JsonUtil.hexDigit digit := by
    rcases other with rfl | rfl <;> decide
  simp only [List.mem_append, not_or]
  refine ⟨⟨⟨letter.1, ?_⟩, letter.2.1⟩, ?_⟩
  · intro mem
    have digit := Bytes.isDigit_of_mem_decimal delimiter mem
    rw [letter.2.2.1] at digit
    cases digit
  · intro mem
    rcases hexDigit_of_mem_generateLineHash mem with ⟨digit, small, same⟩
    exact letter.2.2.2 digit small same

theorem getElem?_hashlines (last_line : Bytes) (line_num : ℕ) (lines : List Bytes) (index : ℕ) :
    (hashlines last_line line_num lines)[index]? =
      lines[index]?.map fun line =>
        ascii "L" ++ Bytes.decimal (line_num + index) ++ ascii ":" ++
          generateLineHash (if 0 < index then lines.getD (index - 1) [] else last_line) line ++
          ascii "|" ++ line := by
  induction lines generalizing last_line line_num index with
  | nil => rfl
  | cons line rest ih =>
      cases index with
      | zero => rfl
      | succ index =>
          rw [hashlines, List.getElem?_cons_succ, ih, List.getElem?_cons_succ]
          cases index with
          | zero => simp
          | succ index => simp [Nat.add_assoc, Nat.add_comm 1]

theorem getElem?_tagsOf_hashlines {lines : List Bytes} (apart : ∀ line ∈ lines, byte '\n' ∉ line)
    (index : ℕ) :
    (tagsOf (Splice.ended (byte '\n') (hashlines [] 1 lines)))[index]? =
      lines[index]?.map fun _ => tagAt lines index := by
  have printed : ∀ line ∈ hashlines [] 1 lines, byte '\n' ∉ line := by
    intro line mem
    rcases List.mem_iff_getElem?.mp mem with ⟨at_, found⟩
    rw [getElem?_hashlines, Option.map_eq_some_iff] at found
    rcases found with ⟨content, present, rfl⟩
    rw [List.mem_append, List.mem_append, not_or, not_or]
    exact ⟨⟨not_mem_tag (Or.inr rfl) _ _ _, by decide⟩,
      apart content (List.mem_of_getElem? present)⟩
  rw [tagsOf, Splice.textLines_ended printed, List.getElem?_map, getElem?_hashlines]
  cases found : lines[index]? with
  | none => rfl
  | some line =>
      have before := not_mem_tag (Or.inl rfl) (1 + index) (parentAt lines index) line
      have here : lines.getD index [] = line := by
        rw [List.getD_eq_getElem?_getD, found]
        rfl
      rw [Option.map_some, Option.map_some, Option.map_some, tagAt, hashAt, here,
        Nat.add_comm index, ← parentAt, List.append_assoc _ (ascii "|"), List.takeWhile_append_of_pos]
      · simp [ascii]
      · intro value mem
        have other : value ≠ byte '|' := fun same => before (same ▸ mem)
        simpa using other

theorem parse_tagAt (lines : List Bytes) (index : ℕ) :
    Target.parse (tagAt lines index) =
      if index + 1 < 2 ^ 64 then some ⟨index + 1, hashAt lines index⟩ else none := by
  have apart : byte ':' ∉ ascii "L" ++ Bytes.decimal (index + 1) := by
    rw [List.mem_append, not_or]
    refine ⟨by decide, ?_⟩
    intro mem
    exact absurd (Bytes.isDigit_of_mem_decimal _ mem) (by decide)
  have shape : tagAt lines index =
      (ascii "L" ++ Bytes.decimal (index + 1)) ++ byte ':' :: hashAt lines index := by
    simp [tagAt, ascii]
  have found : Bytes.indexOfScalar (byte ':') (tagAt lines index) =
      some (ascii "L" ++ Bytes.decimal (index + 1)).length := by
    rw [shape]
    exact Bytes.indexOfScalar_append_cons apart
  have starts : Bytes.startsWith (tagAt lines index) "L" = true := by
    simp [Bytes.startsWith, tagAt]
  have digits : ((tagAt lines index).take
      (ascii "L" ++ Bytes.decimal (index + 1)).length).drop 1 =
        Bytes.decimalInt (index + 1 : ℕ) := by
    rw [shape, List.take_left]
    rfl
  have rest : (tagAt lines index).drop
      ((ascii "L" ++ Bytes.decimal (index + 1)).length + 1) = hashAt lines index := by
    rw [shape, ← List.drop_drop, List.drop_left]
    rfl
  have three : (hashAt lines index).length = 3 := rfl
  rw [Target.parse, if_pos starts]
  simp only [Option.bind_eq_bind, found, Option.bind_some, digits, rest, three, if_true]
  split
  case isTrue small =>
      rw [Bytes.parseInt_decimalInt (by omega) (by omega)]
      simp
  case isFalse large =>
      rw [Bytes.parseInt_decimalInt_of_not (by omega)]
      rfl

end Nullalis.Tools
