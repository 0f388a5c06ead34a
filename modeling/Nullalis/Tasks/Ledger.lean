import Nullalis.Base.Radix
import Nullalis.Base.Run

/-!
# The task ledger

The store of spawned work. A task is entered as queued, under an id that the ledger counts or
that the caller supplies as a number; both are written with the same eleven hexadecimal
digits. Status changes follow a fixed table.

A call takes its time and the outcome of its allocations from its surroundings. A call may
panic, and then the ledger is not used any more.
-/

namespace Nullalis.Tasks

/-- The states of a task. -/
inductive TaskStatus where
  | queued
  | running
  | succeeded
  | failed
  | timed_out
  | cancelled
  | lost
deriving DecidableEq

/-- Has the task ended? -/
def TaskStatus.isTerminal : TaskStatus → Bool
  | .succeeded => true
  | .failed => true
  | .timed_out => true
  | .cancelled => true
  | .lost => true
  | .queued => false
  | .running => false

/-- An entry of the ledger. -/
structure TaskEntry where
  task_id : Bytes
  description : Bytes
  status : TaskStatus
  owner_session : Bytes
  created_at_ms : ℤ
  updated_at_ms : ℤ
  result_summary : Option Bytes
  error_message : Option Bytes
deriving DecidableEq

def TASK_ID_LEN : ℕ := 16

def MAX_TASKS : ℕ := 256

def LOST_TIMEOUT_MS : ℤ := 300000

/-- Why a call fails. -/
inductive LedgerError where
  | LedgerFull
  | TaskIdOverflow
  | TaskNotFound
  | InvalidTransition
  | OutOfMemory
deriving DecidableEq

/-- Why a call stops the process. -/
inductive Panic where
  | unreachable
  | integerOverflow
deriving DecidableEq

/-- How a call ends. -/
inductive Outcome (Value : Type) where
  | returned (value : Value)
  | failed (error : LedgerError)
  | panicked (panic : Panic)
deriving DecidableEq

/-- The panic that a call ends with. -/
def Outcome.panic {Value : Type} : Outcome Value → Option Panic
  | .returned _ => none
  | .failed _ => none
  | .panicked panic => some panic

/-- Forget the value that a call returns. -/
def Outcome.void {Value : Type} : Outcome Value → Outcome Unit
  | .returned _ => .returned ()
  | .failed error => .failed error
  | .panicked panic => .panicked panic

/-- What a call finds: the time, and whether its allocations succeed. -/
structure Surroundings where
  now : ℤ
  allocates : Bool
deriving DecidableEq

/-- Which changes of status are allowed. -/
def validateTransition (current target : TaskStatus) : Except LedgerError Unit :=
  let valid : Bool :=
    match target with
    | .running => current == .queued
    | .succeeded => current == .running
    | .failed => current == .running
    | .timed_out => current == .running
    | .cancelled => current == .queued || current == .running
    | .lost => current == .running
    | .queued => false
  if valid then .ok () else .error .InvalidTransition

def formatTaskId (number : ℕ) : Bytes :=
  ascii "task_" ++ Bytes.padLeft (byte '0') 11 (Bytes.radix 16 number)

/-- A task id in a buffer of its length (`std.fmt.bufPrint`). -/
def bufPrintTaskId (number : ℕ) : Option Bytes :=
  if (formatTaskId number).length ≤ TASK_ID_LEN then some (formatTaskId number) else none

/-- The ledger. -/
structure TaskLedger where
  entries : List TaskEntry
  next_id : ℕ
deriving DecidableEq

/-- A task that was just entered. -/
def TaskEntry.queued (task_id description owner_session : Bytes) (now : ℤ) : TaskEntry where
  task_id
  description
  status := .queued
  owner_session
  created_at_ms := now
  updated_at_ms := now
  result_summary := none
  error_message := none

namespace TaskLedger

/-- An empty ledger. -/
def init : TaskLedger where
  entries := []
  next_id := 1

/-- Enter a task under the next id. -/
def createTask (ledger : TaskLedger) (description owner_session : Bytes)
    (surroundings : Surroundings) : Outcome TaskEntry × TaskLedger :=
  if MAX_TASKS ≤ ledger.entries.length then (.failed .LedgerFull, ledger)
  else if surroundings.allocates then
    match bufPrintTaskId ledger.next_id with
    | some task_id =>
        let entry := TaskEntry.queued task_id description owner_session surroundings.now
        (.returned entry, ⟨ledger.entries ++ [entry], ledger.next_id + 1⟩)
    | none => (.panicked .unreachable, ledger)
  else (.failed .OutOfMemory, ledger)

def getTask (ledger : TaskLedger) (task_id : Bytes) : Option TaskEntry :=
  ledger.entries.find? (·.task_id == task_id)

/-- Enter a task under an id that the caller supplies, unless it is there already. -/
def createTaskWithNumericId (ledger : TaskLedger) (description owner_session : Bytes)
    (numeric_id : UInt64) (surroundings : Surroundings) : Outcome TaskEntry × TaskLedger :=
  match bufPrintTaskId numeric_id.toNat with
  | none => (.failed .TaskIdOverflow, ledger)
  | some task_id =>
      if task_id.length ≠ TASK_ID_LEN then (.failed .TaskIdOverflow, ledger)
      else
        match ledger.getTask task_id with
        | some entry => (.returned entry, ledger)
        | none =>
            if MAX_TASKS ≤ ledger.entries.length then (.failed .LedgerFull, ledger)
            else if surroundings.allocates then
              let entry := TaskEntry.queued task_id description owner_session surroundings.now
              let next_id :=
                if ledger.next_id ≤ numeric_id.toNat then numeric_id.toNat + 1 else ledger.next_id
              (.returned entry, ⟨ledger.entries ++ [entry], next_id⟩)
            else (.failed .OutOfMemory, ledger)

/-- Change the entry with an id in place. -/
def update (ledger : TaskLedger) (task_id : Bytes) (change : TaskEntry → TaskEntry) : TaskLedger :=
  { ledger with
    entries := ledger.entries.modify (ledger.entries.findIdx (·.task_id == task_id)) change }

/-- Move a task to another status, with a change of its own that may need memory. -/
def mark (ledger : TaskLedger) (task_id : Bytes) (target : TaskStatus) (now : ℤ)
    (allocated : Bool) (change : TaskEntry → TaskEntry) : Outcome Unit × TaskLedger :=
  match ledger.getTask task_id with
  | none => (.failed .TaskNotFound, ledger)
  | some entry =>
      match validateTransition entry.status target with
      | .error error => (.failed error, ledger)
      | .ok () =>
          if allocated then
            (.returned (), ledger.update task_id fun entry =>
              { change entry with status := target, updated_at_ms := now })
          else (.failed .OutOfMemory, ledger)

/-- A task starts. -/
def markRunning (ledger : TaskLedger) (task_id : Bytes) (surroundings : Surroundings) :
    Outcome Unit × TaskLedger :=
  ledger.mark task_id .running surroundings.now true id

/-- A task succeeds. Its result is copied. -/
def markSucceeded (ledger : TaskLedger) (task_id : Bytes) (result : Option Bytes)
    (surroundings : Surroundings) : Outcome Unit × TaskLedger :=
  ledger.mark task_id .succeeded surroundings.now (result.isNone || surroundings.allocates)
    fun entry => { entry with result_summary := result }

/-- A task fails. Its error is copied. -/
def markFailed (ledger : TaskLedger) (task_id : Bytes) (err_msg : Option Bytes)
    (surroundings : Surroundings) : Outcome Unit × TaskLedger :=
  ledger.mark task_id .failed surroundings.now (err_msg.isNone || surroundings.allocates)
    fun entry => { entry with error_message := err_msg }

/-- A task runs out of time. -/
def markTimedOut (ledger : TaskLedger) (task_id : Bytes) (surroundings : Surroundings) :
    Outcome Unit × TaskLedger :=
  ledger.mark task_id .timed_out surroundings.now true id

/-- A task is cancelled. -/
def markCancelled (ledger : TaskLedger) (task_id : Bytes) (surroundings : Surroundings) :
    Outcome Unit × TaskLedger :=
  ledger.mark task_id .cancelled surroundings.now true id

/-- How long ago an entry was updated, if that is a number of milliseconds in 64 bits. -/
def age (now_ms : ℤ) (entry : TaskEntry) : Option ℤ :=
  let difference := now_ms - entry.updated_at_ms
  if -(2 ^ 63) ≤ difference ∧ difference < 2 ^ 63 then some difference else none

/-- Give up the running tasks that were not updated for too long. -/
def sweepLost (ledger : TaskLedger) (now_ms : ℤ) : Outcome ℕ × TaskLedger :=
  let overdue (entry : TaskEntry) : Bool :=
    entry.status == .running && (age now_ms entry).any (LOST_TIMEOUT_MS < ·)
  if ledger.entries.any fun entry => entry.status == .running && (age now_ms entry).isNone then
    (.panicked .integerOverflow, ledger)
  else
    (.returned (ledger.entries.countP overdue),
      { ledger with
        entries := ledger.entries.map fun entry =>
          if overdue entry then { entry with status := .lost, updated_at_ms := now_ms }
          else entry })

end TaskLedger

/-- The calls of the ledger that change it. -/
inductive LedgerCall where
  | createTask (description owner_session : Bytes) (surroundings : Surroundings)
  | createTaskWithNumericId (description owner_session : Bytes) (numeric_id : UInt64)
      (surroundings : Surroundings)
  | markRunning (task_id : Bytes) (surroundings : Surroundings)
  | markSucceeded (task_id : Bytes) (result : Option Bytes) (surroundings : Surroundings)
  | markFailed (task_id : Bytes) (err_msg : Option Bytes) (surroundings : Surroundings)
  | markTimedOut (task_id : Bytes) (surroundings : Surroundings)
  | markCancelled (task_id : Bytes) (surroundings : Surroundings)
  | sweepLost (now_ms : ℤ)
deriving DecidableEq

/-- What a call does to the ledger, and how it ends. -/
def TaskLedger.perform (ledger : TaskLedger) : LedgerCall → Outcome Unit × TaskLedger
  | .createTask description owner_session surroundings =>
      (ledger.createTask description owner_session surroundings).map .void id
  | .createTaskWithNumericId description owner_session numeric_id surroundings =>
      (ledger.createTaskWithNumericId description owner_session numeric_id surroundings).map
        .void id
  | .markRunning task_id surroundings => ledger.markRunning task_id surroundings
  | .markSucceeded task_id result surroundings => ledger.markSucceeded task_id result surroundings
  | .markFailed task_id err_msg surroundings => ledger.markFailed task_id err_msg surroundings
  | .markTimedOut task_id surroundings => ledger.markTimedOut task_id surroundings
  | .markCancelled task_id surroundings => ledger.markCancelled task_id surroundings
  | .sweepLost now_ms => (ledger.sweepLost now_ms).map .void id

/-- A ledger in use, with the panic that ended the use. -/
structure LedgerState where
  ledger : TaskLedger
  panic : Option Panic
deriving DecidableEq

namespace LedgerState

/-- A new ledger. -/
def init : LedgerState where
  ledger := .init
  panic := none

/-- One call, as long as no call has panicked. -/
def step : Machine LedgerState LedgerCall := fun state call =>
  match state.panic with
  | some _ => none
  | none =>
      some
        { ledger := (state.ledger.perform call).2
          panic := (state.ledger.perform call).1.panic }

end LedgerState

end Nullalis.Tasks
