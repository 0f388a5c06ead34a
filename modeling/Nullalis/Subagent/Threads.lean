import Nullalis.Base.Run
import Nullalis.Subagent.Manager

/-!
# The threads of the tasks

Every task that is spawned gets a thread. The thread takes the lock to start its task, runs
the task without it, and takes it again to hand in the result. A task may end without its
thread, when it is cancelled before it was started or when the reaper ends it.

A durable ledger is attached in two sections. The first one joins the thread of every task of
the map, empties the map and numbers the tasks from one again, and it holds the lock all the
while. The second one puts the tasks of the ledger into the map and gives up those that are
still queued or running. Other threads may come in between.
-/

namespace Nullalis.Subagent

open Tasks (TaskDelivery)

/-- Where the thread of a task stands. -/
inductive ThreadPhase where
  | parked
  | executing
  | completing
  | ending
  | finished
deriving DecidableEq

namespace ThreadPhase

/-- Has the thread still to take the lock of the manager? -/
def needsMutex : ThreadPhase → Bool
  | .parked => true
  | .executing => true
  | .completing => true
  | .ending => false
  | .finished => false

/-- Has the thread started its task and not yet handed in the result? -/
def busy : ThreadPhase → Bool
  | .executing => true
  | .completing => true
  | _ => false

end ThreadPhase

/-- The thread of a task. -/
structure TaskThread where
  task_id : ℕ
  phase : ThreadPhase
deriving DecidableEq

/-- Why a task that was queued or running is given up. -/
def RECOVERY_FAILURE_REASON : Bytes :=
  ascii "process_restarted_before_completion"

namespace SubagentManager

/-- Empty the map. -/
def clearTasks (manager : SubagentManager) : SubagentManager :=
  { manager with
    tasks := fun _ => none
    next_id := 1 }

/-- Put the tasks of a ledger into the map. -/
def recoverRows (manager : SubagentManager) (rows : List (ℕ × TaskState)) : SubagentManager :=
  { manager with
    tasks := rows.foldl (fun tasks row => Function.update tasks row.1 (some row.2)) manager.tasks
    next_id := rows.foldl (fun max_id row => max max_id row.1) 0 + 1 }

/-- A task of an earlier process. -/
def givenUp (state : TaskState) (recovered_at : ℤ) : TaskState :=
  if state.active then
    { state with
      status := .failed
      error_msg := some RECOVERY_FAILURE_REASON
      completed_at := some recovered_at }
  else state

/-- Give up every task that is queued or running. -/
def finalizeRecoveredInFlightLocked (manager : SubagentManager) (recovered_at : ℤ) :
    SubagentManager :=
  { manager with
    tasks := fun task_id => (manager.tasks task_id).map fun state => givenUp state recovered_at }

/-- Recover the tasks of a ledger. A ledger that cannot be read leaves everything as it is. -/
def recoverDurableState (manager : SubagentManager) (rows : Option (List (ℕ × TaskState)))
    (recovered_at : ℤ) : SubagentManager :=
  match rows with
  | none => manager
  | some rows => (manager.recoverRows rows).finalizeRecoveredInFlightLocked recovered_at

end SubagentManager

/-- The manager with the threads of its tasks, numbered as they were started. `handle` is the
thread of a task of the map. `clearing` are the threads that are still to be joined by the one
that empties the map, the next one first, and `recoveries` counts those that have emptied the
map and not yet recovered their ledger. -/
structure ThreadedSystem extends SubagentSystem where
  threads : ℕ → TaskThread
  started : ℕ
  handle : ℕ → Option ℕ
  clearing : Option (List ℕ)
  recoveries : ℕ

/-- What can happen next. -/
inductive ThreadAction where
  | manage (action : SubagentAction)
  | markTaskRunning (thread : ℕ) (now : ℤ)
  | runnerReturns (thread : ℕ)
  | completeTask (thread : ℕ) (result : Option SubagentResult) (err_msg : Option Bytes)
      (surroundings : CompletionSurroundings)
  | exit (thread : ℕ)
  | attachPostgresLedger (order : List ℕ)
  | join
  | clearTasks
  | recoverDurableState (rows : Option (List (ℕ × TaskState))) (recovered_at : ℤ)
deriving DecidableEq

namespace SubagentAction

/-- Is the step made by the thread of a task? -/
def byTaskThread : SubagentAction → Bool
  | .markTaskRunning _ _ => true
  | .completeTask _ _ _ _ => true
  | _ => false

/-- Does the step start with taking the lock? -/
def takesLock : SubagentAction → Bool
  | .mirror => false
  | .mirrorCancel _ _ => false
  | _ => true

/-- The tasks whose threads are started by a step. -/
def startedBy (manager : SubagentManager) : SubagentAction → List ℕ
  | .spawn request surroundings =>
      match (manager.spawn request surroundings).1 with
      | .ok task_id => [task_id]
      | .error _ => []
  | .spawnMany specs request_session_key budget_ms now =>
      match (manager.spawnMany specs request_session_key budget_ms now).1 with
      | .ok (_, task_ids) => task_ids
      | .error _ => []
  | _ => []

end SubagentAction

namespace ThreadedSystem

/-- A manager that has recovered the tasks of its file, if it reads one. -/
def init (max_concurrent : ℕ) (task_delivery : Option TaskDelivery)
    (rows : Option (List (ℕ × TaskState))) (recovered_at : ℤ) : ThreadedSystem where
  toSubagentSystem :=
    { SubagentSystem.init max_concurrent task_delivery with
      toSubagentManager := (SubagentManager.init max_concurrent).recoverDurableState rows recovered_at }
  threads _ := ⟨0, .finished⟩
  started := 0
  handle _ := none
  clearing := none
  recoveries := 0

def executingCount (system : ThreadedSystem) : ℕ :=
  Threads.count (fun thread => thread.phase == .executing) system.threads system.started

def unlocked (system : ThreadedSystem) : Bool :=
  system.mirrors.isEmpty && system.clearing.isNone

/-- The threads of the tasks of the map. -/
def threadsOfMap (system : ThreadedSystem) : List ℕ :=
  (List.range system.started).filter fun thread =>
    system.handle (system.threads thread).task_id == some thread &&
      (system.tasks (system.threads thread).task_id).isSome

/-- Start the thread of a task that was put into the map. -/
def startThread (system : ThreadedSystem) (task_id : ℕ) : ThreadedSystem :=
  { system with
    threads := Function.update system.threads system.started ⟨task_id, .parked⟩
    started := system.started + 1
    handle := Function.update system.handle task_id (some system.started) }

/-- A thread moves on. -/
def move (system : ThreadedSystem) (thread : ℕ) (phase : ThreadPhase) : ThreadedSystem :=
  { system with
    threads := Function.update system.threads thread { system.threads thread with phase } }

def advance (system : ThreadedSystem) (next : SubagentSystem) : ThreadedSystem :=
  { system with toSubagentSystem := next }

/-- One step of one thread. -/
def step : Machine ThreadedSystem ThreadAction
  | system, .manage action =>
      if action.byTaskThread || (action.takesLock && !system.unlocked) then none
      else (system.toSubagentSystem.step action).map fun next =>
        (action.startedBy system.toSubagentManager).foldl startThread (system.advance next)
  | system, .markTaskRunning thread now =>
      let task_id := (system.threads thread).task_id
      if (system.threads thread).phase = .parked ∧ system.unlocked then
        (system.toSubagentSystem.step (.markTaskRunning task_id now)).map fun next =>
          (system.advance next).move thread
            (if (system.toSubagentManager.markTaskRunning task_id now).1 then .executing
            else .ending)
      else none
  | system, .runnerReturns thread =>
      if (system.threads thread).phase = .executing then some (system.move thread .completing)
      else none
  | system, .completeTask thread result err_msg surroundings =>
      let task_id := (system.threads thread).task_id
      if (system.threads thread).phase = .completing ∧ system.unlocked then
        (system.toSubagentSystem.step (.completeTask task_id result err_msg surroundings)).map
          fun next => (system.advance next).move thread .ending
      else none
  | system, .exit thread =>
      if (system.threads thread).phase = .ending then some (system.move thread .finished)
      else none
  | system, .attachPostgresLedger order =>
      if system.unlocked ∧ order.Perm system.threadsOfMap then
        some { system with clearing := some order }
      else none
  | system, .join =>
      match system.clearing with
      | some (thread :: rest) =>
          if (system.threads thread).phase = .finished then
            some { system with clearing := some rest }
          else none
      | _ => none
  | system, .clearTasks =>
      if system.clearing = some [] then
        some { system with
          toSubagentManager := system.toSubagentManager.clearTasks
          clearing := none
          recoveries := system.recoveries + 1 }
      else none
  | system, .recoverDurableState rows recovered_at =>
      if system.unlocked ∧ system.recoveries ≠ 0 then
        some { system with
          toSubagentManager := system.toSubagentManager.recoverDurableState rows recovered_at
          handle := (rows.getD []).foldl (fun handle row => Function.update handle row.1 none)
            system.handle
          recoveries := system.recoveries - 1 }
      else none

end ThreadedSystem

end Nullalis.Subagent
