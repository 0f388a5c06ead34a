import Nullalis.Base.Bytes

/-!
# History reducers

Four functions of the agent shorten a conversation history: the middle drop of Pass A,
the summarization of Pass C, the forced compression after context exhaustion, and the
message-count trim. Each one is written here as the source computes it: the cut indices
first, with the walks that adjust them, and then the removal of the stretch between them.

Archiving and fact extraction write to the memory backend and never touch the history,
so they are left out. Summarization asks a provider; what it answers is a parameter.
Indices and limits are natural numbers: the source counts in `usize`, and every sum it
forms is bounded by the length of an array in memory, the configured limits apart.
-/

namespace Nullalis.Agent

/-- Who speaks in a message. -/
inductive Role where
  | system
  | user
  | assistant
  | tool
deriving DecidableEq

/-- A message of the history, with the fields the reducers read or write. -/
structure OwnedMessage where
  role : Role
  content : Bytes
deriving DecidableEq

/-- The conversation history, oldest message first. -/
abbrev History := List OwnedMessage

/-- The message standing at `index` exists and has the given role. -/
def History.roleAt (history : History) (index : ℕ) (role : Role) : Bool :=
  history[index]?.any fun message => message.role == role

/-- The limits that the reducers take from the agent configuration. -/
structure CompactionConfig where
  keep_recent : ℕ
  max_summary_chars : ℕ

def CONTEXT_RECOVERY_KEEP : ℕ := 4

namespace History

def systemCount (history : History) : ℕ :=
  if history.roleAt 0 .system then 1 else 0

/-- Put `inserted` in the place of the messages with index in `[start, stop)`. -/
def replaceRange (history : History) (start stop : ℕ) (inserted : List OwnedMessage) : History :=
  history.take start ++ inserted ++ history.drop stop

/-- Remove the messages with index in `[start, stop)`. -/
def removeRange (history : History) (start stop : ℕ) : History :=
  history.replaceRange start stop []

/-- The first message with role user at or after `start`. -/
def firstUserFrom (history : History) (start : ℕ) : Option ℕ :=
  ((history.drop start).findIdx? fun message => message.role == .user).map (start + ·)

/-- Walk `index` down over tool results while it stays above `floor`. -/
def walkBackTools (history : History) (floor : ℕ) : ℕ → ℕ
  | 0 => 0
  | index + 1 =>
      if floor < index + 1 ∧ history.roleAt (index + 1) .tool then
        walkBackTools history floor index
      else index + 1

/-- Walk `index` down while it is a tool result preceded by an assistant message. -/
def walkBackPairs (history : History) (floor : ℕ) : ℕ → ℕ
  | 0 => 0
  | index + 1 =>
      if floor < index + 1 ∧ history.roleAt (index + 1) .tool ∧ history.roleAt index .assistant then
        walkBackPairs history floor index
      else index + 1

/-- Walk up over tool results from `start`, at most `steps` messages. -/
def walkForwardTools (history : History) (start : ℕ) : ℕ → ℕ
  | 0 => start
  | steps + 1 =>
      if history.roleAt start .tool then walkForwardTools history (start + 1) steps else start

end History

/-- The stretch `[drop_start, drop_end)` that Pass A removes, if it removes anything. -/
def dropRegion (history : History) (config : CompactionConfig) : Option (ℕ × ℕ) :=
  match history.firstUserFrom history.systemCount with
  | none => none
  | some first_user_idx =>
      if history.length ≤ history.systemCount + 1 + config.keep_recent then none
      else
        let tail_start :=
          history.walkBackTools (first_user_idx + 1) (history.length - config.keep_recent)
        if tail_start ≤ first_user_idx + 1 then none
        else
          let drop_end := history.walkBackPairs (first_user_idx + 1) tail_start
          let drop_start :=
            history.walkForwardTools (first_user_idx + 1) (drop_end - (first_user_idx + 1))
          if drop_end ≤ drop_start then none else some (drop_start, drop_end)

/-- Pass A: drop the oldest messages between the first user turn and the kept tail. -/
def dropOldestPairsFromMiddle (history : History) (config : CompactionConfig) : History × Bool :=
  match dropRegion history config with
  | none => (history, false)
  | some (drop_start, drop_end) => (history.removeRange drop_start drop_end, true)

/-- What Pass C asks of its surroundings: the provider's summary of a slice of the
history, and the workspace rules appended to it. -/
structure SummaryEnv (Error : Type) where
  summarizeSlice : History → ℕ → ℕ → Except Error Bytes
  readWorkspaceContextForSummary : Except Error Bytes

/-- The text of the summary of `[start, compact_end)`: over ten messages are summarized
in two halves. -/
def summaryText {Error : Type} (env : SummaryEnv Error) (config : CompactionConfig)
    (history : History) (start compact_end : ℕ) : Except Error Bytes :=
  let compact_count := compact_end - start
  if compact_count > 10 then do
    let mid := start + compact_count / 2
    let summary_a ← env.summarizeSlice history start mid
    let summary_b ← env.summarizeSlice history mid compact_end
    let merged := ascii "Earlier context:\n" ++ summary_a ++
      ascii "\n\nMore recent context:\n" ++ summary_b
    return merged.take config.max_summary_chars
  else env.summarizeSlice history start compact_end

/-- The first extension of the request of Pass C: one more message when the first kept one
would be a tool result. -/
def keepRecentAtBoundary (history : History) (requested_keep_recent : ℕ) : ℕ :=
  let start := history.systemCount
  let non_system_count := history.length - start
  let keep_recent := min non_system_count requested_keep_recent
  let boundary_idx := start + (non_system_count - keep_recent)
  if start < boundary_idx ∧ history.roleAt boundary_idx .tool then keep_recent + 1
  else keep_recent

/-- How many messages Pass C keeps: the request, extended while the boundary it leaves
falls on a tool result. -/
def keepRecentExtended (history : History) (requested_keep_recent : ℕ) : ℕ :=
  let start := history.systemCount
  let non_system_count := history.length - start
  let keep_recent := keepRecentAtBoundary history requested_keep_recent
  let adj_boundary := start + (non_system_count - keep_recent)
  let walked := history.walkBackTools start adj_boundary
  min non_system_count (keep_recent + (adj_boundary - walked))

/-- Pass C: replace everything but the recent messages by one summary message. The
second component is what the source returns; a failing summarizer leaves the history. -/
def compactHistoryKeepingRecent {Error : Type} (env : SummaryEnv Error)
    (config : CompactionConfig) (history : History) (requested_keep_recent : ℕ) :
    History × Except Error Bool :=
  let start := history.systemCount
  let non_system_count := history.length - start
  let compact_count := non_system_count - keepRecentExtended history requested_keep_recent
  if compact_count = 0 then (history, .ok false)
  else
    let compact_end := start + compact_count
    let summary_content := do
      let summary ← summaryText env config history start compact_end
      let workspace_context ← env.readWorkspaceContextForSummary
      return ascii "[Compaction summary]\n" ++ (summary ++ workspace_context)
    match summary_content with
    | .error failure => (history, .error failure)
    | .ok content =>
        (history.replaceRange start compact_end [⟨.assistant, content⟩], .ok true)

/-- Keep the system prompt and the last `CONTEXT_RECOVERY_KEEP` messages. -/
def forceCompressHistoryWithArchive (history : History) : History × Bool :=
  let start := history.systemCount
  let non_system_count := history.length - start
  if non_system_count ≤ CONTEXT_RECOVERY_KEEP then (history, false)
  else
    let keep_start := history.length - CONTEXT_RECOVERY_KEEP
    (history.removeRange start keep_start, true)

/-- What a trim reports about itself. -/
structure TrimStats where
  history_before : ℕ
  history_after : ℕ
  removed_messages : ℕ
  removed_bytes : ℕ
deriving DecidableEq

/-- Keep the system prompt and the last `max_history_messages` others; zero disables.
The limit is a `u32` in the source, whose increment traps at the largest value. -/
def trimHistoryDetailed (history : History) (max_history_messages : ℕ) : History × TrimStats :=
  let stats : TrimStats := ⟨history.length, history.length, 0, 0⟩
  if max_history_messages = 0 then (history, stats)
  else if history.length ≤ max_history_messages + 1 then (history, stats)
  else
    let start := history.systemCount
    let non_system_count := history.length - start
    if non_system_count ≤ max_history_messages then (history, stats)
    else
      let to_remove := non_system_count - max_history_messages
      let removed := (history.drop start).take to_remove
      let trimmed := history.removeRange start (start + to_remove)
      (trimmed,
        { stats with
          removed_messages := to_remove
          removed_bytes := (removed.map fun message => message.content.length).sum
          history_after := trimmed.length })

end Nullalis.Agent
