import Nullalis.Subagent.Batch
import Nullalis.Tasks.Delivery

/-!
# The subagent manager

Tasks are numbered by the manager and run by threads of their own. The manager keeps them in
a map under its lock, and mirrors each change of status into the task ledger when a delivery
is attached. Tasks may be spawned as a batch, whose parent is woken by the task that ends last,
and a reaper ends the tasks of a batch that is past its deadline.

A section under the lock is one step that changes the map and the registry of batches, and
then its updates of the ledger, one step each; the lock is held until the last of them is
made. The ledger hears of a cancellation after the lock was released. The reaper holds the
lock to collect the overdue batches, for each task that it ends, and to forget old batches.

The durable store is not attached. The text that the parent gets and the files that keep
snapshots of the tasks are left out.
-/

namespace Nullalis.Subagent

open Tasks (TaskDelivery Surroundings CancelOutcome bufPrintTaskId)

/-- The states of a task of the manager. -/
inductive TaskStatus where
  | queued
  | running
  | completed
  | failed
  | cancelled
deriving DecidableEq

/-- How a subagent ended. -/
inductive ResultStatus where
  | completed
  | failed
  | timeout
deriving DecidableEq

/-- What a subagent hands back. -/
structure SubagentResult where
  status : ResultStatus
  text : Bytes
  err : Option Bytes
deriving DecidableEq

/-- A task of the manager. -/
structure TaskState where
  status : TaskStatus
  label : Bytes
  task_summary : Bytes
  task_prompt : Bytes
  session_key : Option Bytes
  origin_channel : Option Bytes
  origin_chat_id : Option Bytes
  result : Option SubagentResult
  error_msg : Option Bytes
  started_at : ℤ
  completed_at : Option ℤ
  batch_id : Option Bytes
deriving DecidableEq

namespace TaskState

def active (state : TaskState) : Bool :=
  state.status == .queued || state.status == .running

def ended (state : TaskState) : Bool :=
  state.status == .completed || state.status == .failed || state.status == .cancelled

end TaskState

/-- What is to be run, and for whom. -/
structure SpawnRequest where
  task : Bytes
  label : Bytes
  request_session_key : Bytes
  origin_channel : Bytes
  origin_chat_id : Bytes
deriving DecidableEq

/-- What a spawn finds: the time, whether its thread starts, and whether the ledger has memory
for its entry. -/
structure SpawnSurroundings where
  now : ℤ
  starts : Bool
  allocates : Bool
deriving DecidableEq

/-- What a completion finds: the time, and whether its result and its error can be copied. -/
structure CompletionSurroundings where
  now : ℤ
  copiesResult : Bool
  copiesError : Bool
deriving DecidableEq

/-- Why tasks are not spawned. -/
inductive SpawnError where
  | TooManyConcurrentSubagents
  | EmptyBatch
  | SpawnFailed
  | ThreadFailed
deriving DecidableEq

/-- What the ledger is to be told of a task. -/
inductive LedgerUpdate where
  | create (task_id : ℕ) (description owner : Bytes) (surroundings : Surroundings)
  | running (task_id : ℕ) (surroundings : Surroundings)
  | failed (task_id : ℕ) (surroundings : Surroundings)
  | timedOut (task_id : ℕ) (surroundings : Surroundings)
  | succeeded (task_id : ℕ) (surroundings : Surroundings)
deriving DecidableEq

/-- Tell the ledger. What it rejects is only logged. -/
def LedgerUpdate.mirror (update : LedgerUpdate) (delivery : TaskDelivery) : TaskDelivery :=
  match update with
  | .create task_id description owner surroundings =>
      (delivery.createTaskWithNumericId description owner (UInt64.ofNat task_id) surroundings).2
  | .running task_id surroundings =>
      match bufPrintTaskId task_id with
      | some id_slice => (delivery.markRunning id_slice surroundings).2
      | none => delivery
  | .failed task_id surroundings =>
      match bufPrintTaskId task_id with
      | some id_slice => (delivery.markFailed id_slice none surroundings).2
      | none => delivery
  | .timedOut task_id surroundings =>
      match bufPrintTaskId task_id with
      | some id_slice => (delivery.markTimedOut id_slice surroundings).2
      | none => delivery
  | .succeeded task_id surroundings =>
      match bufPrintTaskId task_id with
      | some id_slice => (delivery.markSucceeded id_slice none surroundings).2
      | none => delivery

/-- The first line of a task, up to eighty bytes of it. -/
def summarizeTaskForDisplay (task : Bytes) : Bytes :=
  let trimmed := Bytes.trim (ascii " \t\r\n") task
  (trimmed.takeWhile (· != byte '\n')).take 80

/-- How long a batch is kept after it was created, at least. -/
def BATCH_EXPIRY_TTL_MS : ℤ := 30 * 60 * 1000

def formatBatchId (seq : ℕ) (now : ℤ) : Bytes :=
  ascii "batch:" ++ Bytes.decimal seq ++ ascii ":" ++ Bytes.decimalInt now

/-- The map of the tasks, all of which are below `next_id`, and the registry of batches. -/
structure SubagentManager where
  tasks : ℕ → Option TaskState
  next_id : ℕ
  max_concurrent : ℕ
  batches : BatchTracker

namespace SubagentManager

/-- A manager without tasks. -/
def init (max_concurrent : ℕ) : SubagentManager where
  tasks _ := none
  next_id := 1
  max_concurrent
  batches := .init

def taskCount (manager : SubagentManager) : ℕ :=
  Threads.count Option.isSome manager.tasks manager.next_id

def getRunningCountLocked (manager : SubagentManager) : ℕ :=
  Threads.count (Option.any TaskState.active) manager.tasks manager.next_id

def remainingCapacityLocked (manager : SubagentManager) : ℕ :=
  manager.max_concurrent - manager.getRunningCountLocked

/-- A task that was just spawned. -/
def spawned (request : SpawnRequest) (batch_id : Option Bytes) (now : ℤ) : TaskState where
  status := .queued
  label := request.label
  task_summary := summarizeTaskForDisplay request.task
  task_prompt := request.task
  session_key := some request.request_session_key
  origin_channel := some request.origin_channel
  origin_chat_id := some request.origin_chat_id
  result := none
  error_msg := none
  started_at := now
  completed_at := none
  batch_id

/-- Put a task into the map and start its thread. Without a thread the task is taken out again,
and only its number is used up. -/
def spawnInBatchLocked (manager : SubagentManager) (request : SpawnRequest)
    (batch_id : Option Bytes) (surroundings : SpawnSurroundings) :
    Except SpawnError ℕ × SubagentManager × List LedgerUpdate :=
  let task_id := manager.next_id
  let state := spawned request batch_id surroundings.now
  if surroundings.starts then
    (.ok task_id,
      { manager with
        tasks := Function.update manager.tasks task_id (some state)
        next_id := task_id + 1 },
      [.create task_id state.task_summary (state.session_key.getD (ascii "subagent"))
        ⟨surroundings.now, surroundings.allocates⟩])
  else
    (.error .ThreadFailed,
      { manager with
        tasks := Function.update manager.tasks task_id none
        next_id := task_id + 1 },
      [])

/-- Spawn one task. -/
def spawn (manager : SubagentManager) (request : SpawnRequest) (surroundings : SpawnSurroundings) :
    Except SpawnError ℕ × SubagentManager × List LedgerUpdate :=
  if manager.max_concurrent ≤ manager.getRunningCountLocked then
    (.error .TooManyConcurrentSubagents, manager, [])
  else manager.spawnInBatchLocked request none surroundings

/-- Spawn the tasks of a batch up to the first one that fails. -/
def spawnLoop (manager : SubagentManager) (batch_id : Bytes) :
    List (SpawnRequest × SpawnSurroundings) → List ℕ × SubagentManager × List LedgerUpdate
  | [] => ([], manager, [])
  | (request, surroundings) :: rest =>
      match manager.spawnInBatchLocked request (some batch_id) surroundings with
      | (.error _, next, updates) => ([], next, updates)
      | (.ok task_id, next, updates) =>
          let (task_ids, last, more) := next.spawnLoop batch_id rest
          (task_id :: task_ids, last, updates ++ more)

/-- Spawn a batch and register what was spawned of it. -/
def spawnMany (manager : SubagentManager) (specs : List (SpawnRequest × SpawnSurroundings))
    (request_session_key : Bytes) (budget_ms now : ℤ) :
    Except SpawnError (Bytes × List ℕ) × SubagentManager × List LedgerUpdate :=
  if specs.isEmpty then (.error .EmptyBatch, manager, [])
  else if manager.remainingCapacityLocked < specs.length then
    (.error .TooManyConcurrentSubagents, manager, [])
  else
    let batch_id := formatBatchId manager.next_id now
    let (ids, next, updates) := manager.spawnLoop batch_id specs
    if ids.isEmpty then (.error .SpawnFailed, next, updates)
    else
      (.ok (batch_id, ids),
        { next with
          batches := next.batches.register batch_id ids request_session_key now (now + budget_ms) },
        updates)

/-- The update that tells the ledger how a task ended. -/
def completionUpdate (task_id : ℕ) (state : TaskState) (now : ℤ) : LedgerUpdate :=
  if state.status = .failed then .failed task_id ⟨now, true⟩
  else if state.result.any (·.status == .timeout) then .timedOut task_id ⟨now, true⟩
  else .succeeded task_id ⟨now, true⟩

/-- Tell the registry that a task of a batch has ended. The last one claims the wake. -/
def completeInBatch (batches : BatchTracker) (batch_id : Bytes) (task_id : ℕ) :
    Option Bytes × BatchTracker :=
  let marked := batches.markTerminal batch_id task_id
  if marked.allTerminal batch_id then
    match marked.tryClaimWake batch_id with
    | (true, next) => (some batch_id, next)
    | (false, next) => (none, next)
  else (none, marked)

/-- A task as it ends. -/
def completed (state : TaskState) (result : Option SubagentResult) (err_msg : Option Bytes)
    (surroundings : CompletionSurroundings) : TaskState :=
  let owned_result := if surroundings.copiesResult then result else none
  let owned_err := if surroundings.copiesError then err_msg else none
  { state with
    status := if owned_err.isSome then .failed else .completed
    result := owned_result
    error_msg := owned_err
    completed_at := some surroundings.now }

/-- End a task that has not ended yet. The batch whose wake is claimed is returned. -/
def completeTask (manager : SubagentManager) (task_id : ℕ) (result : Option SubagentResult)
    (err_msg : Option Bytes) (surroundings : CompletionSurroundings) :
    Option Bytes × SubagentManager × List LedgerUpdate :=
  match manager.tasks task_id with
  | none => (none, manager, [])
  | some state =>
      if state.ended then (none, manager, [])
      else
        let next := completed state result err_msg surroundings
        let tasks := Function.update manager.tasks task_id (some next)
        let updates := [completionUpdate task_id next surroundings.now]
        match state.batch_id with
        | none => (none, { manager with tasks }, updates)
        | some batch_id =>
            let (wake, batches) := completeInBatch manager.batches batch_id task_id
            (wake, { manager with tasks, batches }, updates)

/-- Start a queued task. -/
def markTaskRunning (manager : SubagentManager) (task_id : ℕ) (now : ℤ) :
    Bool × SubagentManager × List LedgerUpdate :=
  match manager.tasks task_id with
  | none => (false, manager, [])
  | some state =>
      if state.status = .queued then
        (true,
          { manager with
            tasks := Function.update manager.tasks task_id (some { state with status := .running }) },
          [.running task_id ⟨now, true⟩])
      else (false, manager, [])

/-- Cancel a queued task. The ledger is told later. -/
def cancelQueued (manager : SubagentManager) (task_id : ℕ) (now : ℤ) :
    CancelOutcome × SubagentManager :=
  match manager.tasks task_id with
  | none => (.not_found, manager)
  | some state =>
      match state.status with
      | .queued =>
          (.cancelled,
            { manager with
              tasks := Function.update manager.tasks task_id
                (some { state with status := .cancelled, completed_at := some now }) })
      | .running => (.running, manager)
      | .completed => (.terminal, manager)
      | .failed => (.terminal, manager)
      | .cancelled => (.terminal, manager)

/-- The result that the reaper ends a task with. -/
def timeoutResult : SubagentResult where
  status := .timeout
  text := ascii "subagent exceeded batch deadline"
  err := some (ascii "batch_deadline_exceeded")

/-- Forget the batches that are old enough. -/
def expire (manager : SubagentManager) (now_ms : ℤ) : SubagentManager :=
  { manager with
    batches := (manager.batches.expirableBatchIds now_ms BATCH_EXPIRY_TTL_MS).foldl
      BatchTracker.expireBatch manager.batches }

end SubagentManager

/-- A reaper at work. `due` are the batches it found past their deadline and `remaining` the
tasks it has still to end. -/
structure Reaping where
  now_ms : ℤ
  due : List Bytes
  remaining : List ℕ
deriving DecidableEq

/-- The manager with its ledger and the threads in it. `mirrors` are the updates that the thread
with the lock has still to make, `cancels` the cancellations that the ledger has not heard of.
`claims` lists the wakes that were claimed, `reaped` the batches that a reaper was done with. -/
structure SubagentSystem extends SubagentManager where
  task_delivery : Option TaskDelivery
  mirrors : List LedgerUpdate
  cancels : List ℕ
  reaping : ℕ → Option Reaping
  claims : List Bytes
  reaped : List Bytes

/-- What a thread can do next. -/
inductive SubagentAction where
  | spawn (request : SpawnRequest) (surroundings : SpawnSurroundings)
  | spawnMany (specs : List (SpawnRequest × SpawnSurroundings)) (request_session_key : Bytes)
      (budget_ms now : ℤ)
  | markTaskRunning (task_id : ℕ) (now : ℤ)
  | completeTask (task_id : ℕ) (result : Option SubagentResult) (err_msg : Option Bytes)
      (surroundings : CompletionSurroundings)
  | cancelQueued (task_id : ℕ) (now : ℤ)
  | collectOverdue (reaper : ℕ) (now_ms : ℤ)
  | reapTask (reaper task_id : ℕ) (surroundings : CompletionSurroundings)
  | expireBatches (reaper : ℕ)
  | mirror
  | mirrorCancel (task_id : ℕ) (now : ℤ)
deriving DecidableEq

namespace SubagentSystem

/-- A manager without tasks, with or without a ledger. -/
def init (max_concurrent : ℕ) (task_delivery : Option TaskDelivery) : SubagentSystem where
  toSubagentManager := .init max_concurrent
  task_delivery
  mirrors := []
  cancels := []
  reaping _ := none
  claims := []
  reaped := []

/-- A section under the lock has changed the manager, and the ledger is to be told. -/
def locked (system : SubagentSystem) (manager : SubagentManager) (updates : List LedgerUpdate) :
    SubagentSystem :=
  { system with
    toSubagentManager := manager
    mirrors := if system.task_delivery.isSome then updates else [] }

/-- A task was ended, and perhaps the wake of its batch was claimed. -/
def complete (system : SubagentSystem) (task_id : ℕ) (result : Option SubagentResult)
    (err_msg : Option Bytes) (surroundings : CompletionSurroundings) : SubagentSystem :=
  let completion := system.toSubagentManager.completeTask task_id result err_msg surroundings
  { system.locked completion.2.1 completion.2.2 with
    claims := system.claims ++ completion.1.toList }

/-- A section under the lock. -/
def criticalSection (system : SubagentSystem) : SubagentAction → Option SubagentSystem
  | .spawn request surroundings =>
      let result := system.spawn request surroundings
      some (system.locked result.2.1 result.2.2)
  | .spawnMany specs request_session_key budget_ms now =>
      let result := system.spawnMany specs request_session_key budget_ms now
      some (system.locked result.2.1 result.2.2)
  | .markTaskRunning task_id now =>
      let result := system.toSubagentManager.markTaskRunning task_id now
      some (system.locked result.2.1 result.2.2)
  | .completeTask task_id result err_msg surroundings =>
      some (system.complete task_id result err_msg surroundings)
  | .cancelQueued task_id now =>
      let result := system.toSubagentManager.cancelQueued task_id now
      some { system with
        toSubagentManager := result.2
        cancels :=
          if result.1 = .cancelled ∧ system.task_delivery.isSome then task_id :: system.cancels
          else system.cancels }
  | .collectOverdue reaper now_ms =>
      match system.reaping reaper with
      | some _ => none
      | none =>
          some { system with
            reaping := Function.update system.reaping reaper
              (some
                { now_ms
                  due := (system.batches.batches.filter (·.2.deadline_ms ≤ now_ms)).map (·.1)
                  remaining :=
                    (system.batches.overdueBatchesWithTaskIds now_ms).flatMap (·.2) }) }
  | .reapTask reaper task_id surroundings =>
      match system.reaping reaper with
      | none => none
      | some reaping =>
          if task_id ∈ reaping.remaining then
            some { system.complete task_id (some SubagentManager.timeoutResult) none surroundings with
              reaping := Function.update system.reaping reaper
                (some { reaping with remaining := reaping.remaining.erase task_id }) }
          else none
  | .expireBatches reaper =>
      match system.reaping reaper with
      | none => none
      | some reaping =>
          if reaping.remaining = [] then
            some { system with
              toSubagentManager := system.toSubagentManager.expire reaping.now_ms
              reaping := Function.update system.reaping reaper none
              reaped := system.reaped ++ reaping.due }
          else none
  | .mirror => none
  | .mirrorCancel _ _ => none

/-- One step of one thread. -/
def step : Machine SubagentSystem SubagentAction
  | system, .mirror =>
      match system.mirrors with
      | [] => none
      | update :: rest =>
          some { system with
            task_delivery := system.task_delivery.map update.mirror
            mirrors := rest }
  | system, .mirrorCancel task_id now =>
      if task_id ∈ system.cancels then
        some { system with
          task_delivery := system.task_delivery.map fun delivery =>
            match bufPrintTaskId task_id with
            | some id_slice => (delivery.cancelQueued id_slice ⟨now, true⟩).2
            | none => delivery
          cancels := system.cancels.erase task_id }
      else none
  | system, action => if system.mirrors = [] then system.criticalSection action else none

end SubagentSystem

end Nullalis.Subagent
