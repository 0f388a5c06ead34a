import Nullalis.Security.Policy

/-!
# The risk of a command

Every segment of a command is classified by its first word and the first argument. The first
segment of a high risk decides, else one of a medium risk does.
-/

namespace Nullalis.Security

/-- How risky a command is. -/
inductive CommandRiskLevel where
  | low
  | medium
  | high
deriving DecidableEq

namespace CommandRiskLevel

def rank : CommandRiskLevel → ℕ
  | low => 0
  | medium => 1
  | high => 2

def max (first second : CommandRiskLevel) : CommandRiskLevel :=
  if first.rank ≤ second.rank then second else first

end CommandRiskLevel

/-- The commands of a high risk. -/
def high_risk_commands : List Bytes :=
  ["rm", "mkfs", "dd", "shutdown", "reboot", "halt", "poweroff", "sudo", "su", "chown", "chmod",
    "useradd", "userdel", "usermod", "passwd", "mount", "umount", "iptables", "ufw", "firewall-cmd",
    "curl", "wget", "nc", "ncat", "netcat", "scp", "ssh", "ftp", "telnet"].map ascii

def isHighRiskCommand (base : Bytes) : Bool :=
  high_risk_commands.contains base

def isGitMediumVerb (verb : Bytes) : Bool :=
  (["commit", "push", "reset", "clean", "rebase", "merge", "cherry-pick", "revert", "branch",
    "checkout", "switch", "tag"].map ascii).contains verb

def isNpmMediumVerb (verb : Bytes) : Bool :=
  (["install", "add", "remove", "uninstall", "update", "publish"].map ascii).contains verb

def isCargoMediumVerb (verb : Bytes) : Bool :=
  (["add", "remove", "install", "clean", "publish"].map ascii).contains verb

/-- Is the risk medium, by the name of the command and its first argument? -/
def classifyMedium (base : Bytes) (first_arg_raw : Option Bytes) : Bool :=
  let first_arg := (first_arg_raw.map lowerBuf).getD []
  if base = ascii "git" then isGitMediumVerb first_arg
  else if base = ascii "npm" ∨ base = ascii "pnpm" ∨ base = ascii "yarn" then
    isNpmMediumVerb first_arg
  else if base = ascii "cargo" then isCargoMediumVerb first_arg
  else
    base = ascii "touch" || base = ascii "mkdir" || base = ascii "mv" || base = ascii "cp" ||
      base = ascii "ln"

/-- Does the text hold a pattern that destroys data? -/
def holdsDestructivePattern (joined_lower : Bytes) : Bool :=
  joined_lower.containsBytes (ascii "rm -rf /") || joined_lower.containsBytes (ascii "rm -fr /") ||
    joined_lower.containsBytes (ascii ":()\x7b:|:&\x7d;:")

/-- The loop over the segments. -/
def riskSegments : List Bytes → Bool → CommandRiskLevel
  | [], saw_medium => if saw_medium then .medium else .low
  | raw_segment :: rest, saw_medium =>
      let segment := Bytes.trim blanks raw_segment
      if segment.isEmpty then riskSegments rest saw_medium
      else
        let cmd_part := skipEnvAssignments segment
        match Bytes.tokenizeScalar (byte ' ') cmd_part with
        | [] => riskSegments rest saw_medium
        | base_raw :: args =>
            let lower_base := lowerBuf (Bytes.basename base_raw)
            if isHighRiskCommand lower_base then .high
            else if holdsDestructivePattern (lowerBuf cmd_part) then .high
            else riskSegments rest (saw_medium || classifyMedium lower_base args.head?)

/-- The risk of a command. -/
def SecurityPolicy.commandRiskLevel (_ : SecurityPolicy) (command : Bytes) : CommandRiskLevel :=
  if command.length > MAX_ANALYSIS_LEN then .high
  else riskSegments (Bytes.splitScalar 0 (normalizeCommand command)) false

/-!
## One segment after the other
-/

section Segments

open CommandRiskLevel

def riskSegment (raw_segment : Bytes) : CommandRiskLevel :=
  riskSegments [raw_segment] false

theorem max_assoc (first second third : CommandRiskLevel) :
    (first.max second).max third = first.max (second.max third) := by
  cases first <;> cases second <;> cases third <;> rfl

theorem riskSegments_cons (raw_segment : Bytes) (rest : List Bytes) (saw_medium : Bool) :
    riskSegments (raw_segment :: rest) saw_medium =
      (riskSegment raw_segment).max (riskSegments rest saw_medium) := by
  -- What was seen before counts like a segment of its own.
  have seen (segments : List Bytes) (saw : Bool) :
      riskSegments segments saw = (if saw then medium else low).max (riskSegments segments false) := by
    induction segments generalizing saw with
    | nil => cases saw <;> rfl
    | cons segment segments ih =>
        simp only [riskSegments]
        split
        · exact ih saw
        · split
          · exact ih saw
          · split
            · cases saw <;> rfl
            · split
              · cases saw <;> rfl
              · rw [ih, ih (false || _)]
                cases saw <;> cases classifyMedium _ _ <;> cases riskSegments segments false <;> rfl
  have low_max (level : CommandRiskLevel) : low.max level = level := by
    cases level <;> rfl
  have high_max (level : CommandRiskLevel) : high.max level = high := by
    cases level <;> rfl
  simp only [riskSegment, riskSegments]
  split
  · exact (low_max _).symm
  · split
    · exact (low_max _).symm
    · split
      · exact (high_max _).symm
      · split
        · exact (high_max _).symm
        · rw [seen, seen rest saw_medium]
          cases saw_medium <;> cases classifyMedium _ _ <;> cases riskSegments rest false <;> rfl

theorem riskSegments_append (first second : List Bytes) :
    riskSegments (first ++ second) false =
      (riskSegments first false).max (riskSegments second false) := by
  induction first with
  | nil =>
      have low_max (level : CommandRiskLevel) : level = low.max level := by
        cases level <;> rfl
      exact low_max _
  | cons segment first ih =>
      rw [List.cons_append, riskSegments_cons, ih, riskSegments_cons, max_assoc]

end Segments

end Nullalis.Security
