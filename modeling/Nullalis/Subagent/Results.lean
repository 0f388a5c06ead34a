import Nullalis.Base.Run
import Nullalis.Session.Keys
import Nullalis.Subagent.Manager

/-!
# The durable results of subagents

The managers of all users keep the results of their tasks in one table, so that a result that
was not delivered is found again after a restart. A row is written when a task ends, before its
result is delivered. Whether a result was delivered is looked up under its id, which names the
number of the task.

A completion is one step of its manager, which writes the row, and then three steps without the
lock: look whether the result was delivered, deliver it, and note that it is delivered. The
steps of different users and of different tasks may come in any order. A write or a query that
fails is only logged.
-/

namespace Nullalis.Subagent

open Session (bufPrint parseUserIdFromSessionKey)

/-- A row of the table. `delivered` is its status. -/
structure ResultRow where
  user_id : ℤ
  session_key : Bytes
  task_id : ℕ
  result : SubagentResult
  delivered : Bool
deriving DecidableEq

/-- The rows of the table under their ids. -/
structure ResultTable where
  rows : List (Bytes × ResultRow)
deriving DecidableEq

namespace ResultTable

def empty : ResultTable where
  rows := []

def get (table : ResultTable) (result_id : Bytes) : Option ResultRow :=
  (table.rows.find? (·.1 == result_id)).map (·.2)

/-- Write a row unless its id is there. A row of the same user and task is not written either,
with an error. -/
def upsertSubagentResult (table : ResultTable) (result_id : Bytes) (row : ResultRow) :
    ResultTable :=
  if (table.get result_id).isSome then table
  else if table.rows.any fun entry =>
      entry.2.user_id == row.user_id && entry.2.task_id == row.task_id then table
  else ⟨table.rows ++ [(result_id, row)]⟩

def subagentResultStatusIsDelivered (table : ResultTable) (result_id : Bytes) : Bool :=
  (table.get result_id).any (·.delivered)

/-- Note that the result with an id was delivered. -/
def markSubagentResultDelivered (table : ResultTable) (result_id : Bytes) : ResultTable :=
  ⟨table.rows.map fun entry =>
    if entry.1 = result_id then (entry.1, { entry.2 with delivered := true }) else entry⟩

end ResultTable

def formatSubagentResultId (task_id : ℕ) : Option Bytes :=
  bufPrint 40 (ascii "subagent:" ++ Bytes.decimal task_id)

/-- The user whose session it is. -/
def sessionUser (session_key : Bytes) : Option ℤ :=
  (parseUserIdFromSessionKey session_key).bind
    (Bytes.parseInt (-9223372036854775808) 9223372036854775807)

def TaskState.requestSession (state : TaskState) : Bytes :=
  state.session_key.getD (state.origin_chat_id.getD (ascii "agent"))

/-- The result that is kept of a task that has ended. -/
def TaskState.persistResult (state : TaskState) : SubagentResult :=
  state.result.getD
    { status := .failed
      text := state.error_msg.getD []
      err := state.error_msg }

/-- Where a completion stands. -/
inductive CompletionPhase where
  | ended
  | checked
  | routed
  | finished
  | suppressed
deriving DecidableEq

structure Completion where
  phase : CompletionPhase
  request_session_key : Bytes
deriving DecidableEq

/-- A result that was delivered to a session. -/
structure ResultDelivery where
  user : ℤ
  task_id : ℕ
  session_key : Bytes
deriving DecidableEq

/-- The managers of all users and their table. `deliveries` lists what was delivered, and
`observed` which user saw a row of which user when a completion looked it up. -/
structure ResultSystem where
  managers : ℤ → SubagentManager
  table : ResultTable
  completions : ℤ → ℕ → Option Completion
  deliveries : List ResultDelivery
  observed : List (ℤ × ℤ)

inductive ResultAction where
  | spawn (user : ℤ) (request : SpawnRequest) (surroundings : SpawnSurroundings)
  | spawnMany (user : ℤ) (specs : List (SpawnRequest × SpawnSurroundings))
      (request_session_key : Bytes) (budget_ms now : ℤ)
  | markTaskRunning (user : ℤ) (task_id : ℕ) (now : ℤ)
  | cancelQueued (user : ℤ) (task_id : ℕ) (now : ℤ)
  | completeTask (user : ℤ) (task_id : ℕ) (result : Option SubagentResult)
      (err_msg : Option Bytes) (surroundings : CompletionSurroundings) (persists : Bool)
  | checkDelivered (user : ℤ) (task_id : ℕ) (answers : Bool)
  | deliver (user : ℤ) (task_id : ℕ)
  | markDelivered (user : ℤ) (task_id : ℕ) (succeeds : Bool)
deriving DecidableEq

def servesUser (user : ℤ) (session_key : Bytes) : Bool :=
  (sessionUser session_key).all (· == user)

namespace ResultSystem

/-- Managers without tasks. -/
def init (max_concurrent : ℕ) : ResultSystem where
  managers _ := .init max_concurrent
  table := .empty
  completions _ _ := none
  deliveries := []
  observed := []

def managed (system : ResultSystem) (user : ℤ) (manager : SubagentManager) : ResultSystem :=
  { system with managers := Function.update system.managers user manager }

/-- A completion moves on. -/
def move (system : ResultSystem) (user : ℤ) (task_id : ℕ) (completion : Completion)
    (phase : CompletionPhase) : ResultSystem :=
  { system with
    completions := Function.update system.completions user
      (Function.update (system.completions user) task_id (some { completion with phase })) }

/-- The table after a task has ended. -/
def persisted (table : ResultTable) (task_id : ℕ) (state : TaskState) : ResultTable :=
  match state.session_key.bind sessionUser, formatSubagentResultId task_id with
  | some user_id, some result_id =>
      table.upsertSubagentResult result_id
        { user_id
          session_key := state.requestSession
          task_id
          result := state.persistResult
          delivered := false }
  | _, _ => table

/-- One step of one thread. A manager serves the sessions of its user. -/
def step : Machine ResultSystem ResultAction
  | system, .spawn user request surroundings =>
      if servesUser user request.request_session_key then
        some (system.managed user ((system.managers user).spawn request surroundings).2.1)
      else none
  | system, .spawnMany user specs request_session_key budget_ms now =>
      if specs.all fun spec => servesUser user spec.1.request_session_key then
        some (system.managed user
          ((system.managers user).spawnMany specs request_session_key budget_ms now).2.1)
      else none
  | system, .markTaskRunning user task_id now =>
      some (system.managed user ((system.managers user).markTaskRunning task_id now).2.1)
  | system, .cancelQueued user task_id now =>
      some (system.managed user ((system.managers user).cancelQueued task_id now).2)
  | system, .completeTask user task_id result err_msg surroundings persists =>
      match (system.managers user).tasks task_id with
      | none => some system
      | some state =>
          if state.ended then some system
          else
            let ended := SubagentManager.completed state result err_msg surroundings
            some { (system.managed user
                ((system.managers user).completeTask task_id result err_msg surroundings).2.1).move
                  user task_id ⟨.ended, ended.requestSession⟩ .ended with
              table := if persists then persisted system.table task_id ended else system.table }
  | system, .checkDelivered user task_id answers =>
      match system.completions user task_id with
      | none => none
      | some completion =>
          if completion.phase = .ended then
            match formatSubagentResultId task_id with
            | none => some (system.move user task_id completion .checked)
            | some result_id =>
                if answers then
                  some { system.move user task_id completion
                      (if system.table.subagentResultStatusIsDelivered result_id then .suppressed
                      else .checked) with
                    observed := system.observed ++
                      ((system.table.get result_id).map fun row => (user, row.user_id)).toList }
                else some (system.move user task_id completion .checked)
          else none
  | system, .deliver user task_id =>
      match system.completions user task_id with
      | none => none
      | some completion =>
          if completion.phase = .checked then
            some { system.move user task_id completion .routed with
              deliveries := system.deliveries ++ [⟨user, task_id, completion.request_session_key⟩] }
          else none
  | system, .markDelivered user task_id succeeds =>
      match system.completions user task_id with
      | none => none
      | some completion =>
          if completion.phase = .routed then
            some { system.move user task_id completion .finished with
              table :=
                match formatSubagentResultId task_id with
                | none => system.table
                | some result_id =>
                    if succeeds then system.table.markSubagentResultDelivered result_id
                    else system.table }
          else none

end ResultSystem

end Nullalis.Subagent
