import Nullalis.Base.Bytes

/-!
# Memory keys

The key of a memory says which part of the program wrote it. Bookkeeping of the program is
kept out of the vector store, and so is a content that does not fit a single chunk.
-/

namespace Nullalis.Memory

/-- The role of an entry that the system owns. -/
inductive ArtifactRole where
  | continuity
  | audit
  | index
  | user
deriving DecidableEq

/-- Does the key start with the literal (`std.mem.startsWith`)? -/
def startsWith (key : Bytes) (literal : String) : Bool :=
  (ascii literal).isPrefixOf key

/-- The role that a key stands for. -/
def classifyArtifactKey (key : Bytes) : ArtifactRole :=
  if startsWith key "autosave_user_" then .audit
  else if startsWith key "autosave_assistant_" then .audit
  else if startsWith key "session_checkpoint_" then .audit
  else if startsWith key "audit_shell/" then .audit
  else if key = ascii "timeline_index/current" then .index
  else if key = ascii "context_anchor_current" then .continuity
  else if startsWith key "summary_latest/" then .continuity
  else if startsWith key "agent_plan/" then .continuity
  else if startsWith key "durable_fact/" then .continuity
  else if startsWith key "session_summary/" then .continuity
  else if startsWith key "timeline_summary/" then .continuity
  else if startsWith key "compaction_summary/" then .continuity
  else if startsWith key "summary_fallback/" then .continuity
  else if startsWith key "compaction_dropped/" then .continuity
  else .user

/-- Entries that are never shown. -/
def isInternalMemoryKey (key : Bytes) : Bool :=
  startsWith key "autosave_user_" || startsWith key "autosave_assistant_" ||
    key = ascii "last_hygiene_at" || startsWith key "__tombstone__/" ||
    startsWith key "__bootstrap.prompt."

/-- The summaries that are injected by their key. -/
def isContinuitySummaryKey (key : Bytes) : Bool :=
  startsWith key "summary_latest/" || startsWith key "timeline_summary/" ||
    startsWith key "session_summary/" || startsWith key "summary_fallback/"

def isLowerHex (value : UInt8) : Bool :=
  Bytes.isDigit value || (byte 'a' ≤ value && value ≤ byte 'f')

/-- The keys that the meeting writer derives: its prefix and 64 hexadecimal digits. -/
def isMeetingDerivedMemoryKey (key : Bytes) : Bool :=
  let memory_key_prefix := ascii "meeting_ingest/"
  key.length = memory_key_prefix.length + 64 && memory_key_prefix.isPrefixOf key &&
    (key.drop memory_key_prefix.length).all isLowerHex

/-- Entries that are hidden by default. -/
def isDefaultHiddenMemoryKey (key : Bytes) : Bool :=
  isInternalMemoryKey key || classifyArtifactKey key = .audit ||
    classifyArtifactKey key = .index

/-- Entries that the vector store must not hold. -/
def isSemanticBookkeepingKey (key : Bytes) : Bool :=
  isDefaultHiddenMemoryKey key || isMeetingDerivedMemoryKey key ||
    key = ascii "context_anchor_current" || startsWith key "history/" ||
    startsWith key "wish/" || isContinuitySummaryKey key

/-- Should the content be embedded under the key? It must fit a chunk of 512 tokens with
four bytes each. -/
def shouldEmbedMemoryEntry (key content : Bytes) : Bool :=
  if isSemanticBookkeepingKey key then false else content.length ≤ 512 * 4

/-- The categories of memories. -/
inductive MemoryCategory where
  | core
  | daily
  | conversation
  | custom (name : Bytes)
deriving DecidableEq

def isTombstoneKey (key : Bytes) : Bool :=
  startsWith key "__tombstone__/"

/-- Keys that are never written again. -/
def isAppendOnlyMemoryKey (key : Bytes) : Bool :=
  startsWith key "session_summary/" || startsWith key "timeline_summary/" ||
    startsWith key "session_checkpoint_" || key = ascii "timeline_index/current" ||
    startsWith key "autosave_user_" || startsWith key "autosave_assistant_" ||
    startsWith key "compaction_summary/" || startsWith key "summary_fallback/" ||
    startsWith key "compaction_dropped/" || startsWith key "history/"

/-- The keys of lines of the memory file that have none of their own. -/
def isMarkdownLineKey (key : Bytes) : Bool :=
  let suffix := key.drop (ascii "MEMORY:").length
  startsWith key "MEMORY:" && !suffix.isEmpty && suffix.all Bytes.isDigit

/-- Entries that a store replaces. -/
def isMutableMemoryEntry (key : Bytes) (category : MemoryCategory) : Bool :=
  if isTombstoneKey key || isMarkdownLineKey key || isAppendOnlyMemoryKey key then false
  else category = .core

end Nullalis.Memory
