import Nullalis.Base.Bytes

/-!
# The security policy for commands

A command is refused if it contains an expansion, a redirection, a background operator or
`tee`. What remains is cut at the control operators, and the first word of each segment,
after assignments, must stand in the list of allowed commands. Two commands are refused
for some of their arguments. The check for variables of the Windows shell is only compiled
there and left out.
-/

namespace Nullalis.Security

/-- How much the agent may do on its own. -/
inductive AutonomyLevel where
  | read_only
  | supervised
  | full
deriving DecidableEq

/-- The part of the policy that commands are checked against. -/
structure SecurityPolicy where
  autonomy : AutonomyLevel
  allowed_commands : List Bytes

/-- The commands that are allowed by default. -/
def default_allowed_commands : List Bytes :=
  ["git", "npm", "cargo", "ls", "cat", "grep", "rg", "find", "echo", "pwd", "wc", "head", "tail",
    "sed", "awk", "xargs", "mkdir", "cp", "mv", "touch", "jq", "sqlite3", "python3", "uv", "node",
    "pnpm", "yarn", "bun", "make", "just", "zig"].map ascii

/-- The default policy. -/
def SecurityPolicy.default : SecurityPolicy where
  autonomy := .supervised
  allowed_commands := default_allowed_commands

def MAX_ANALYSIS_LEN : ℕ := 16384

/-- Replace the pairs of a byte from the left. -/
def replacePair (value : UInt8) : Bytes → Bytes
  | [] => []
  | [single] => [single]
  | first :: second :: rest =>
      if first = value ∧ second = value then 0 :: 0 :: replacePair value rest
      else first :: replacePair value (second :: rest)

def replaceSingle (value : UInt8) : UInt8 :=
  if value = byte '\n' ∨ value = byte ';' ∨ value = byte '|' then 0 else value

def normalizeCommand (command : Bytes) : Bytes :=
  (replacePair (byte '|') (replacePair (byte '&') command)).map replaceSingle

/-- Is there an ampersand without another one beside it? -/
def containsSingleAmpersand (previous : Bool) : Bytes → Bool
  | [] => false
  | value :: rest =>
      (value == byte '&' && !previous && rest.head? != some (byte '&')) ||
        containsSingleAmpersand (value == byte '&') rest

/-- Does the word look like an assignment? -/
def looksLikeAssignment (word : Bytes) : Bool :=
  word.contains (byte '=') &&
    word.head?.any fun first => Bytes.isAlphabetic first || first == byte '_'

def blanks : Bytes :=
  [byte ' ', byte '\t']

/-- Skip assignments for at most as many rounds as given. -/
def skipEnvRounds : ℕ → Bytes → Bytes
  | 0, rest => rest
  | rounds + 1, rest =>
      let trimmed := Bytes.trim blanks rest
      if trimmed.isEmpty then rest
      else
        let word := trimmed.takeWhile fun value => !blanks.contains value
        if looksLikeAssignment word then skipEnvRounds rounds (trimmed.drop word.length)
        else trimmed

def skipEnvAssignments (segment : Bytes) : Bytes :=
  skipEnvRounds segment.length segment

/-- The text in lower case, as far as it fits the buffer. -/
def lowerBuf (text : Bytes) : Bytes :=
  (text.take MAX_ANALYSIS_LEN).map Bytes.toLower

/-- Arguments of `find` that run other commands. -/
def isFindDanger (word : Bytes) : Bool :=
  word = ascii "-exec" || word = ascii "-ok"

/-- Arguments of `git` that set dangerous options. -/
def isGitDanger (word : Bytes) : Bool :=
  word = ascii "config" || (ascii "config.").isPrefixOf word || word = ascii "alias" ||
    (ascii "alias.").isPrefixOf word || word = ascii "-c"

/-- Are the arguments of the command harmless? -/
def isArgsSafe (base_cmd full_cmd : Bytes) : Bool :=
  let base := lowerBuf base_cmd
  let words := Bytes.tokenizeScalar (byte ' ') (lowerBuf full_cmd)
  if base = ascii "find" then !words.any isFindDanger
  else if base = ascii "git" then !words.tail.any isGitDanger
  else true

/-- Is the word `tee`, by its name or by a path? -/
def isTee (word : Bytes) : Bool :=
  word = ascii "tee" || Bytes.basename word = ascii "tee"

namespace SecurityPolicy

/-- Check one segment: `none` refuses the command, otherwise the result says whether the
segment runs a command. -/
def checkSegment (policy : SecurityPolicy) (check_allowlist : Bool) (raw_segment : Bytes) :
    Option Bool :=
  let segment := Bytes.trim blanks raw_segment
  if segment.isEmpty then some false
  else
    let cmd_part := skipEnvAssignments segment
    match (Bytes.tokenizeScalar (byte ' ') cmd_part).head? with
    | none => some false
    | some first_word =>
        let base_cmd := Bytes.basename first_word
        if base_cmd.isEmpty then some false
        else if check_allowlist && !policy.allowed_commands.contains base_cmd then none
        else if isArgsSafe base_cmd cmd_part then some true
        else none

/-- Check the segments in order and say whether any of them runs a command. -/
def checkSegments (policy : SecurityPolicy) (check_allowlist : Bool) :
    List Bytes → Option Bool
  | [] => some false
  | raw_segment :: rest =>
      (policy.checkSegment check_allowlist raw_segment).bind fun has_cmd =>
        (policy.checkSegments check_allowlist rest).map (has_cmd || ·)

/-- Is the command allowed, with or without the list of allowed commands? -/
def isCommandAllowedImpl (policy : SecurityPolicy) (command : Bytes) (check_allowlist : Bool) :
    Bool :=
  if policy.autonomy = .read_only then false
  else if command.length > MAX_ANALYSIS_LEN then false
  else if command.containsBytes (ascii "`") || command.containsBytes (ascii "$(") ||
      command.containsBytes (ascii "$\x7b") then false
  else if command.containsBytes (ascii "<(") || command.containsBytes (ascii ">(") then false
  else if (Bytes.tokenizeAny (ascii " \t\n;|") command).any isTee then false
  else if containsSingleAmpersand false command then false
  else if command.contains (byte '>') then false
  else
    policy.checkSegments check_allowlist (Bytes.splitScalar 0 (normalizeCommand command)) ==
      some true

def isCommandAllowed (policy : SecurityPolicy) (command : Bytes) : Bool :=
  policy.isCommandAllowedImpl command true

def isCommandAllowedSandboxed (policy : SecurityPolicy) (command : Bytes) : Bool :=
  policy.isCommandAllowedImpl command false

end SecurityPolicy

end Nullalis.Security
