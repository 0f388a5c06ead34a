import Nullalis.Cron.Scheduler

/-!
# One tick of the scheduler

A tick visits the jobs in order. A due job is blocked by a cooldown or by the burst limit,
or its shell cannot be started, or it is executed; the first three outcomes only postpone
it. An executed one-shot is removed after the loop as long as one of the 64 slots for its
index is free, and is paused otherwise.

What running a job answers is a parameter: the runner is asked with the index of the job,
so that every visit may have an outcome of its own. Publishing the result on the bus and
the counters of the operations guard do not touch the jobs and are left out.
-/

namespace Nullalis.Cron

def MAX_JOB_RUNS_PER_WINDOW : ℕ := 6
def JOB_BURST_WINDOW_SECS : ℤ := 300
def FAILURE_COOLDOWN_THRESHOLD : ℕ := 3
def FAILURE_COOLDOWN_SECS : ℤ := 15 * 60
def BLOCKED_RETRY_DELAY_SECS : ℤ := 60

/-- The largest `u32`, at which the failure counter saturates. -/
def maxU32 : ℕ := 2 ^ 32 - 1

/-- What a finished shell leaves: its exit code, none when a signal ended it, and stdout. -/
structure ShellResult where
  exitCode : Option ℕ
  stdout : Bytes

/-- May the output of an agent turn be stored with the job? -/
inductive AgentOutputRetention where
  | retain
  | display_only
deriving DecidableEq

/-- What an agent turn answers. -/
structure AgentRunResult where
  output : Bytes
  retention : AgentOutputRetention := .retain

/-- The surroundings of a tick. `agent` is none when no agent runner is installed; an
agent error carries its name. -/
structure JobRunner where
  commandAllocated : ℕ → Bool
  shell : ℕ → Bytes → Option ShellResult
  agent : Option (ℕ → CronJob → Bytes → Except Bytes AgentRunResult)
  messageAllocated : ℕ → Bool

/-- How the visit of a job went. -/
inductive Visit where
  | notDue
  | blocked
  | notStarted
  | executed
deriving DecidableEq

/-- The shell text of a job, run in the workspace of the user when there is one. -/
def commandToRun (scheduler : CronScheduler) (job : CronJob) : Bytes :=
  match scheduler.context_workspace with
  | none => job.command
  | some workspace =>
      match scheduler.context_user_id with
      | none => ascii "cd \"" ++ workspace ++ ascii "\" && " ++ job.command
      | some user_id =>
          let user_root := scheduler.context_user_root.getD []
          ascii "NULLALIS_USER_ID=\"" ++ user_id ++ ascii "\" NULLALIS_USER_ROOT=\"" ++ user_root ++
            ascii "\" NULLCLAW_USER_ID=\"" ++ user_id ++ ascii "\" NULLCLAW_USER_ROOT=\"" ++
            user_root ++ ascii "\" cd \"" ++ workspace ++ ascii "\" && " ++ job.command

def noteJobSuccess (job : CronJob) : CronJob :=
  { job with consecutive_failures := 0, cooldown_until_secs := none }

/-- A failure counts, and from the third on it starts a cooldown. -/
def noteJobFailure (job : CronJob) (now : ℤ) : CronJob :=
  let consecutive_failures := min (job.consecutive_failures + 1) maxU32
  { job with
    consecutive_failures
    cooldown_until_secs :=
      if FAILURE_COOLDOWN_THRESHOLD ≤ consecutive_failures then some (now + FAILURE_COOLDOWN_SECS)
      else job.cooldown_until_secs }

/-- Postpone a job that could not be started. -/
def postponeFailed (job : CronJob) (now : ℤ) : CronJob :=
  let job := noteJobFailure job now
  { job with next_run_secs := job.cooldown_until_secs.getD (now + BLOCKED_RETRY_DELAY_SECS) }

/-- Record the end of an execution. -/
def noteJobResult (job : CronJob) (now : ℤ) (success : Bool) : CronJob :=
  let job :=
    { job with last_run_secs := some now, last_status := some (if success then .ok else .error) }
  if success then noteJobSuccess job else noteJobFailure job now

/-- Run a shell job. -/
def runShell (scheduler : CronScheduler) (runner : JobRunner) (now : ℤ) (idx : ℕ)
    (job : CronJob) : CronJob × Visit :=
  if !runner.commandAllocated idx then
    let job := { job with last_status := some .error, last_run_secs := some now }
    (postponeFailed job now, .notStarted)
  else
    match runner.shell idx (commandToRun scheduler job) with
    | none =>
        let job :=
          { job with last_status := some .error, last_run_secs := some now, last_output := none }
        (postponeFailed job now, .notStarted)
    | some result =>
        let success := result.exitCode == some 0
        let last_output := if result.stdout.isEmpty then none else some result.stdout
        ({ noteJobResult job now success with last_output }, .executed)

/-- Run an agent job. Without an installed runner, and when the runner fails, a message
takes the place of the answer, unless memory for it is missing. -/
def runAgent (runner : JobRunner) (now : ℤ) (idx : ℕ) (job : CronJob) : CronJob × Visit :=
  let agent_input := job.prompt.getD job.command
  let message (text : Bytes) : Option AgentRunResult :=
    if runner.messageAllocated idx then some { output := text } else none
  let (success, agent_result) : Bool × Option AgentRunResult :=
    match runner.agent with
    | none => (false, message (ascii "agent runner unavailable"))
    | some run =>
        match run idx job agent_input with
        | .ok result => (true, some result)
        | .error name => (false, message (ascii "agent cron failed: " ++ name))
  let last_output :=
    agent_result.bind fun result =>
      if result.retention = .retain then some result.output else none
  ({ noteJobResult job now success with last_output }, .executed)

/-- Run a job. -/
def runJob (scheduler : CronScheduler) (runner : JobRunner) (now : ℤ) (idx : ℕ)
    (job : CronJob) : CronJob × Visit :=
  match job.job_type with
  | .shell => runShell scheduler runner now idx job
  | .agent => runAgent runner now idx job

/-- Start a new burst window when the running one is over, unset or ahead of the clock. -/
def refreshBurstWindow (job : CronJob) (now : ℤ) : CronJob :=
  if job.burst_window_start_secs = 0 ∨ now < job.burst_window_start_secs ∨
      JOB_BURST_WINDOW_SECS ≤ now - job.burst_window_start_secs then
    { job with burst_window_start_secs := now, burst_count_in_window := 0 }
  else job

/-- Visit a due job whose cooldown is over. -/
def visitCooled (scheduler : CronScheduler) (runner : JobRunner) (now : ℤ) (idx : ℕ)
    (job : CronJob) : CronJob × Visit :=
  let job := refreshBurstWindow { job with cooldown_until_secs := none } now
  if MAX_JOB_RUNS_PER_WINDOW ≤ job.burst_count_in_window then
    ({ job with
        last_status := some .rate_limited
        next_run_secs := now + BLOCKED_RETRY_DELAY_SECS }, .blocked)
  else
    runJob scheduler runner now idx
      { job with burst_count_in_window := job.burst_count_in_window + 1 }

/-- Visit one job. -/
def visitJob (scheduler : CronScheduler) (runner : JobRunner) (now : ℤ) (idx : ℕ)
    (job : CronJob) : CronJob × Visit :=
  if job.paused ∨ now < job.next_run_secs then (job, .notDue)
  else
    match job.cooldown_until_secs with
    | none => visitCooled scheduler runner now idx job
    | some cooldown_until_secs =>
        if now < cooldown_until_secs then
          ({ job with last_status := some .cooldown, next_run_secs := cooldown_until_secs },
            .blocked)
        else visitCooled scheduler runner now idx job

def REMOVE_SLOTS : ℕ := 64

def CronJob.once (job : CronJob) : Bool :=
  job.one_shot || job.delete_after_run

/-- Settle an executed job: note a one-shot for removal or pause it, and give any other
job its next run. -/
def settleExecuted (now : ℤ) (idx : ℕ) (remove_indices : List ℕ) (job : CronJob) :
    CronJob × List ℕ :=
  if job.once then
    if remove_indices.length < REMOVE_SLOTS then (job, remove_indices ++ [idx])
    else ({ job with paused := true }, remove_indices)
  else
    let next_run_secs :=
      match nextRunForCronExpression job.expression now with
      | .ok next_run_secs => next_run_secs
      | .error _ => now + 60
    ({ job with next_run_secs }, remove_indices)

/-- Visit a job and settle it if it was executed. -/
def tickJob (scheduler : CronScheduler) (runner : JobRunner) (now : ℤ) (idx : ℕ)
    (remove_indices : List ℕ) (job : CronJob) : CronJob × List ℕ × Bool :=
  match visitJob scheduler runner now idx job with
  | (job, .executed) =>
      let (job, remove_indices) := settleExecuted now idx remove_indices job
      (job, remove_indices, true)
  | (job, .notDue) => (job, remove_indices, false)
  | (job, .blocked) => (job, remove_indices, true)
  | (job, .notStarted) => (job, remove_indices, true)

/-- The loop of a tick over the jobs from index `idx` on. -/
def tickFrom (scheduler : CronScheduler) (runner : JobRunner) (now : ℤ) :
    ℕ → List ℕ → List CronJob → List CronJob × List ℕ × Bool
  | _, remove_indices, [] => ([], remove_indices, false)
  | idx, remove_indices, job :: rest =>
      let (job, remove_indices, changed) := tickJob scheduler runner now idx remove_indices job
      let (rest, remove_indices, restChanged) :=
        tickFrom scheduler runner now (idx + 1) remove_indices rest
      (job :: rest, remove_indices, changed || restChanged)

/-- Remove the noted indices, the last one first so that the others stay valid. -/
def removeNoted (remove_indices : List ℕ) (jobs : List CronJob) : List CronJob :=
  remove_indices.foldr (fun idx jobs => jobs.eraseIdx idx) jobs

/-- Execute one tick: the scheduler afterwards, and whether some job was due. -/
def CronScheduler.tick (scheduler : CronScheduler) (runner : JobRunner) (now : ℤ) :
    CronScheduler × Bool :=
  let (jobs, remove_indices, changed) := tickFrom scheduler runner now 0 [] scheduler.jobs
  ({ scheduler with jobs := removeNoted remove_indices jobs }, changed)

end Nullalis.Cron
