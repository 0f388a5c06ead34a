import Nullalis.JsonUtil
import Nullalis.Session.Keys
import Nullalis.Subagent.Threads

/-!
# The ledger file of the subagent manager

Without a database each change of a task is appended to a file, as a line with the whole task in
JSON. A manager that starts reads the file line by line and keeps the last line of each task. A
task that was queued or running by then has failed. One line that cannot be read ends the recovery.

What does not write the file is left out: batches, the number of tasks that may run, and the
mirror of the tasks. Writing the file does not fail here. `persisted` lists what was written.
-/

namespace Nullalis.Subagent

open Session (deriveTaskRuntimeSessionKey)

/-- A task with the key of the session that it runs in. -/
structure DurableTask extends TaskState where
  runtime_session_key : Option Bytes
deriving DecidableEq

def taskStatusText : TaskStatus → Bytes
  | .queued => ascii "queued"
  | .running => ascii "running"
  | .completed => ascii "completed"
  | .failed => ascii "failed"
  | .cancelled => ascii "cancelled"

def parseTaskStatus (raw : Bytes) : TaskStatus :=
  if raw = ascii "queued" then .queued
  else if raw = ascii "running" then .running
  else if raw = ascii "completed" then .completed
  else if raw = ascii "cancelled" then .cancelled
  else .failed

/-!
## Writing
-/

def appendOptionalJsonString (value : Option Bytes) : Bytes :=
  value.elim (ascii "null") JsonUtil.appendJsonString

/-- The fields of a line. -/
def ledgerFields (task_id : ℕ) (state : DurableTask) : List Bytes :=
  [JsonUtil.appendJsonKey (ascii "id") ++ Bytes.decimal task_id,
    JsonUtil.appendJsonKeyValue (ascii "status") (taskStatusText state.status),
    JsonUtil.appendJsonKeyValue (ascii "label") state.label,
    JsonUtil.appendJsonKeyValue (ascii "task_summary") state.task_summary,
    JsonUtil.appendJsonKeyValue (ascii "task_prompt") state.task_prompt,
    JsonUtil.appendJsonKey (ascii "session_key") ++
      appendOptionalJsonString (state.runtime_session_key.or state.session_key),
    JsonUtil.appendJsonKey (ascii "request_session_key") ++
      appendOptionalJsonString state.session_key,
    JsonUtil.appendJsonKey (ascii "runtime_session_key") ++
      appendOptionalJsonString state.runtime_session_key,
    JsonUtil.appendJsonKey (ascii "origin_channel") ++
      appendOptionalJsonString state.origin_channel,
    JsonUtil.appendJsonKey (ascii "origin_chat_id") ++
      appendOptionalJsonString state.origin_chat_id,
    JsonUtil.appendJsonKey (ascii "result") ++
      appendOptionalJsonString (state.result.map (·.text)),
    JsonUtil.appendJsonKey (ascii "error") ++ appendOptionalJsonString state.error_msg,
    JsonUtil.appendJsonInt (ascii "started_at") state.started_at,
    JsonUtil.appendJsonKey (ascii "completed_at") ++
      state.completed_at.elim (ascii "null") Bytes.decimalInt]

def ledgerLine (task_id : ℕ) (state : DurableTask) : Bytes :=
  JsonUtil.appendJsonFields (ledgerFields task_id state)

def appendLedgerSnapshot (file : Bytes) (task_id : ℕ) (state : DurableTask) : Bytes :=
  file ++ (ledgerLine task_id state ++ ascii "\n")

/-!
## Reading
-/

/-- What a line says. -/
structure LedgerSnapshot where
  id : ℕ
  status : TaskStatus
  label : Bytes
  task_summary : Bytes
  task_prompt : Bytes
  session_key : Option Bytes
  runtime_session_key : Option Bytes
  origin_channel : Option Bytes
  origin_chat_id : Option Bytes
  result : Option Bytes
  error_msg : Option Bytes
  started_at : ℤ
  completed_at : Option ℤ
deriving DecidableEq

def objectString (obj : List (Bytes × Json)) (key : Bytes) : Option Bytes :=
  (Json.get? obj key).bind Json.string?

def objectInteger (obj : List (Bytes × Json)) (key : Bytes) : Option ℤ :=
  (Json.get? obj key).bind Json.integer?

/-- Read a line. A negative number of a task is a panic, which is no result either. -/
def parseLedgerSnapshot (raw : Bytes) : Option LedgerSnapshot :=
  match Json.parse raw with
  | some (.object obj) => do
      let id ← objectInteger obj (ascii "id")
      let label ← objectString obj (ascii "label")
      let task_summary := (objectString obj (ascii "task_summary")).getD label
      let task_prompt := (objectString obj (ascii "task_prompt")).getD task_summary
      let status_text ← objectString obj (ascii "status")
      let started_at ← objectInteger obj (ascii "started_at")
      if id < 0 then none
      else
        return {
          id := id.toNat
          status := parseTaskStatus status_text
          label, task_summary, task_prompt
          session_key := (objectString obj (ascii "request_session_key")).or
            (objectString obj (ascii "session_key"))
          runtime_session_key := (objectString obj (ascii "runtime_session_key")).or
            ((objectString obj (ascii "request_session_key")).map
              (deriveTaskRuntimeSessionKey 128 · id.toNat))
          origin_channel := objectString obj (ascii "origin_channel")
          origin_chat_id := objectString obj (ascii "origin_chat_id")
          result := objectString obj (ascii "result")
          error_msg := objectString obj (ascii "error")
          started_at
          completed_at := objectInteger obj (ascii "completed_at") }
  | _ => none

def subagentResultFromText (status : TaskStatus) (text : Bytes) : SubagentResult where
  status := if status = .failed then .failed else .completed
  text
  err := none

/-- The task that a line stands for. -/
def taskStateFromLedger (snapshot : LedgerSnapshot) : DurableTask where
  status := snapshot.status
  label := snapshot.label
  task_summary := snapshot.task_summary
  task_prompt := snapshot.task_prompt
  session_key := snapshot.session_key
  runtime_session_key := snapshot.runtime_session_key.or
    (snapshot.session_key.map (deriveTaskRuntimeSessionKey 128 · snapshot.id))
  origin_channel := snapshot.origin_channel
  origin_chat_id := snapshot.origin_chat_id
  result := snapshot.result.map (subagentResultFromText snapshot.status)
  error_msg := snapshot.error_msg
  started_at := snapshot.started_at
  completed_at := snapshot.completed_at
  batch_id := none

/-- What a recovery has come to: whether it has read all lines, the tasks and the number of the
last one. -/
structure Recovery where
  complete : Bool
  tasks : ℕ → Option DurableTask
  max_id : ℕ

/-- Read line after line. -/
def recoverLines (recovery : Recovery) : List Bytes → Recovery
  | [] => recovery
  | line :: rest =>
      let trimmed := Bytes.trim (ascii " \t\r\n") line
      if trimmed.length = 0 then recoverLines recovery rest
      else
        match parseLedgerSnapshot trimmed with
        | none => { recovery with complete := false }
        | some snapshot =>
            recoverLines
              { recovery with
                tasks := Function.update recovery.tasks snapshot.id
                  (some (taskStateFromLedger snapshot))
                max_id := max recovery.max_id snapshot.id } rest

def LEDGER_READ_LIMIT : ℕ := 4 * 1024 * 1024

/-- Read a ledger (`recoverFromFileLocked`). -/
def recoverFromFile (raw : Bytes) : Recovery :=
  let start : Recovery := { complete := true, tasks := fun _ => none, max_id := 0 }
  if LEDGER_READ_LIMIT < raw.length then { start with complete := false }
  else recoverLines start (Bytes.splitScalar (byte '\n') raw)

/-- A task that was recovered. It has failed if it had not ended. -/
def finalizeRecovered (recovered_at : ℤ) (state : DurableTask) : DurableTask :=
  { state with toTaskState := SubagentManager.givenUp state.toTaskState recovered_at }

namespace Recovery

/-- The tasks of a manager that has started. -/
def finalTasks (recovery : Recovery) (recovered_at : ℤ) : ℕ → Option DurableTask :=
  if recovery.complete then
    fun task_id => (recovery.tasks task_id).map (finalizeRecovered recovered_at)
  else recovery.tasks

/-- The number of the next task of a manager that has started. -/
def nextId (recovery : Recovery) : ℕ :=
  if recovery.complete then recovery.max_id + 1 else 1

/-- The tasks that have failed by the restart. -/
def inFlight (recovery : Recovery) : List ℕ :=
  (List.range (recovery.max_id + 1)).filter fun task_id =>
    (recovery.tasks task_id).any (·.active)

end Recovery

/-!
## Runs
-/

/-- What becomes of a task whose spawn was written. -/
inductive ThreadStart where
  | started
  | outOfMemory
  | failed (error_name : Bytes) (now : ℤ)
deriving DecidableEq

inductive FileLedgerAction where
  | spawn (request : SpawnRequest) (batch_id : Option Bytes) (now : ℤ) (start : ThreadStart)
  | markTaskRunning (task_id : ℕ)
  | completeTask (task_id : ℕ) (result : Option SubagentResult) (err_msg : Option Bytes)
      (surroundings : CompletionSurroundings)
  | cancelQueued (task_id : ℕ) (now : ℤ)
  | restart (recovered_at : ℤ) (order : List ℕ)
deriving DecidableEq

/-- The tasks of the manager and the ledger. -/
structure FileLedgerSystem where
  tasks : ℕ → Option DurableTask
  next_id : ℕ
  file : Bytes
  persisted : List (ℕ × DurableTask)

namespace FileLedgerSystem

/-- No tasks and an empty ledger. -/
def init : FileLedgerSystem where
  tasks _ := none
  next_id := 1
  file := []
  persisted := []

/-- Append a task to the ledger (`persistTaskSnapshotLocked`). -/
def persist (system : FileLedgerSystem) (task_id : ℕ) (state : DurableTask) : FileLedgerSystem :=
  { system with
    file := appendLedgerSnapshot system.file task_id state
    persisted := system.persisted ++ [(task_id, state)] }

/-- Change the map. -/
def put (system : FileLedgerSystem) (task_id : ℕ) (entry : Option DurableTask) :
    FileLedgerSystem :=
  { system with tasks := Function.update system.tasks task_id entry }

def change (system : FileLedgerSystem) (task_id : ℕ) (state : DurableTask) : FileLedgerSystem :=
  (system.put task_id (some state)).persist task_id state

/-- A task that is spawned. -/
def spawned (request : SpawnRequest) (batch_id : Option Bytes) (now : ℤ) (task_id : ℕ) :
    DurableTask where
  toTaskState := SubagentManager.spawned request batch_id now
  runtime_session_key :=
    some (deriveTaskRuntimeSessionKey 128 request.request_session_key task_id)

/-- Spawn a task. Without a thread it is taken out of the map again. -/
def spawn (system : FileLedgerSystem) (request : SpawnRequest) (batch_id : Option Bytes) (now : ℤ)
    (start : ThreadStart) : FileLedgerSystem :=
  let task_id := system.next_id
  let state := spawned request batch_id now task_id
  let queued := { system with next_id := task_id + 1 }.change task_id state
  match start with
  | .started => queued
  | .outOfMemory => queued.put task_id none
  | .failed error_name failed_at =>
      (queued.change task_id
        { state with
          status := .failed
          error_msg := some error_name
          completed_at := some failed_at }).put task_id none

/-- Append the task that has a number. -/
def persistOf (tasks : ℕ → Option DurableTask) (system : FileLedgerSystem) (task_id : ℕ) :
    FileLedgerSystem :=
  match tasks task_id with
  | some state => system.persist task_id state
  | none => system

/-- The manager starts anew. The tasks that have failed by that are appended in some order. -/
def restart (system : FileLedgerSystem) (recovered_at : ℤ) (order : List ℕ) :
    Option FileLedgerSystem :=
  let recovery := recoverFromFile system.file
  let tasks := recovery.finalTasks recovered_at
  let started := { system with tasks, next_id := recovery.nextId }
  if recovery.complete then
    if order.Perm recovery.inFlight then
      some (order.foldl (persistOf tasks) started)
    else none
  else some started

def step : Machine FileLedgerSystem FileLedgerAction
  | system, .spawn request batch_id now start => some (system.spawn request batch_id now start)
  | system, .markTaskRunning task_id =>
      (system.tasks task_id).bind fun state =>
        if state.status = .queued then
          some (system.change task_id { state with status := .running })
        else none
  | system, .completeTask task_id result err_msg surroundings =>
      (system.tasks task_id).bind fun state =>
        if state.ended then none
        else
          some (system.change task_id
            { state with
              toTaskState :=
                SubagentManager.completed state.toTaskState result err_msg surroundings })
  | system, .cancelQueued task_id now =>
      (system.tasks task_id).bind fun state =>
        if state.status = .queued then
          some (system.change task_id { state with status := .cancelled, completed_at := some now })
        else none
  | system, .restart recovered_at order => system.restart recovered_at order

end FileLedgerSystem

end Nullalis.Subagent
