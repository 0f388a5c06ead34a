import Nullalis.Base.Bytes

/-!
# Session keys

A session key names the user and the lane of a conversation, and outside the main lane what
the conversation is about. Keys are printed into buffers of a fixed size. A key that does not
fit is replaced by a literal without the user, which is the same for everybody.
-/

namespace Nullalis.Session

/-- The lane of a conversation. -/
inductive SessionLane where
  | main
  | thread
  | task
  | cron
deriving DecidableEq

/-- The name of a lane. -/
def SessionLane.toSlice : SessionLane → Bytes
  | .main => ascii "main"
  | .thread => ascii "thread"
  | .task => ascii "task"
  | .cron => ascii "cron"

def PREFIX : Bytes :=
  ascii "agent:zaki-bot:user:"

def MAX_KEY_LEN : ℕ := 255

/-- A text printed into a buffer (`std.fmt.bufPrint`). -/
def bufPrint (size : ℕ) (text : Bytes) : Option Bytes :=
  if text.length ≤ size then some text else none

/-- A session key printed into a buffer. -/
def formatSessionKey (size : ℕ) (user_id : Bytes) (lane : SessionLane) (lane_id : Option Bytes) :
    Option Bytes :=
  match lane with
  | .main => bufPrint size (PREFIX ++ user_id ++ ascii ":" ++ lane.toSlice)
  | .thread | .task | .cron =>
      bufPrint size (PREFIX ++ user_id ++ ascii ":" ++ lane.toSlice ++ ascii ":" ++ lane_id.getD [])

/-- Does the key belong to the user? -/
def isOwnedBy (session_key user_id : Bytes) : Bool :=
  match bufPrint (MAX_KEY_LEN + 1) (PREFIX ++ user_id ++ ascii ":") with
  | none => false
  | some start => start.isPrefixOf session_key

def userMainSessionKey (size : ℕ) (user_id : Bytes) : Bytes :=
  (formatSessionKey size user_id .main none).getD (ascii "agent:zaki-bot:user:unknown:main")

def userThreadSessionKey (size : ℕ) (user_id conversation_id : Bytes) : Bytes :=
  (formatSessionKey size user_id .thread (some conversation_id)).getD
    (ascii "agent:zaki-bot:user:unknown:thread")

def userTaskSessionKey (size : ℕ) (user_id task_id : Bytes) : Bytes :=
  (formatSessionKey size user_id .task (some task_id)).getD
    (ascii "agent:zaki-bot:user:unknown:task")

def userCronSessionKey (size : ℕ) (user_id job_id : Bytes) : Bytes :=
  (formatSessionKey size user_id .cron (some job_id)).getD
    (ascii "agent:zaki-bot:user:unknown:cron")

/-- The user that a key names, whatever its lane. -/
def parseUserIdFromSessionKey (session_key : Bytes) : Option Bytes :=
  if PREFIX.isPrefixOf session_key then
    let rest := session_key.drop PREFIX.length
    match Bytes.indexOfScalar (byte ':') rest with
    | none => none
    | some suffix_idx => if suffix_idx = 0 then none else some (rest.take suffix_idx)
  else none

/-- The key of the session that a task runs in, for the session that asked for it. -/
def deriveTaskRuntimeSessionKey (size : ℕ) (request_session_key : Bytes) (task_id : ℕ) : Bytes :=
  match parseUserIdFromSessionKey request_session_key with
  | none => (bufPrint size (ascii "subagent:" ++ Bytes.decimal task_id)).getD (ascii "subagent:bg")
  | some user_id => userTaskSessionKey size user_id ((bufPrint 32 (Bytes.decimal task_id)).getD (ascii "0"))

/-!
## Keys of users
-/

variable {user_id rest : Bytes}

theorem user_and_rest_of_eq {other rest' : Bytes} (apart : byte ':' ∉ user_id)
    (apart' : byte ':' ∉ other)
    (same : PREFIX ++ user_id ++ ascii ":" ++ rest = PREFIX ++ other ++ ascii ":" ++ rest') :
    user_id = other ∧ rest = rest' := by
  apply Bytes.eq_of_append_cons apart apart'
  simp only [List.append_assoc, List.append_cancel_left_eq] at same
  exact same

theorem parseUserIdFromSessionKey_key (apart : byte ':' ∉ user_id) (named : user_id ≠ []) :
    parseUserIdFromSessionKey (PREFIX ++ user_id ++ ascii ":" ++ rest) = some user_id := by
  have starts : PREFIX.isPrefixOf (PREFIX ++ user_id ++ ascii ":" ++ rest) = true := by
    simp only [List.append_assoc, List.isPrefixOf_iff_prefix]
    exact List.prefix_append _ _
  have behind : (PREFIX ++ user_id ++ ascii ":" ++ rest).drop PREFIX.length =
      user_id ++ byte ':' :: rest := by
    simp only [List.append_assoc, List.drop_left]
    rfl
  have found : Bytes.indexOfScalar (byte ':') (user_id ++ byte ':' :: rest) =
      some user_id.length := Bytes.indexOfScalar_append_cons apart
  have positive : user_id.length ≠ 0 := by simpa using named
  simp only [parseUserIdFromSessionKey, starts, if_true, behind, found, if_neg positive,
    List.take_left]

theorem isOwnedBy_key (fits : (PREFIX ++ user_id ++ ascii ":").length ≤ MAX_KEY_LEN + 1) :
    isOwnedBy (PREFIX ++ user_id ++ ascii ":" ++ rest) user_id = true := by
  rw [isOwnedBy, bufPrint, if_pos fits]
  simp only [List.isPrefixOf_iff_prefix]
  exact List.prefix_append _ _

end Nullalis.Session
