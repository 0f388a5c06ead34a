import Nullalis.Cron.Expression

/-!
# The scheduler's jobs and their operations

A job carries the fields of the source apart from the flags that say which of its texts
the scheduler owns: they only steer deallocation. The status texts are the four literals
that the source ever assigns, so they are an enumeration with its spelling.

An operation that reads the clock takes the time as an argument, and one that can run out
of memory is modelled on the path where memory suffices.
-/

namespace Nullalis.Cron

/-- What a job runs. -/
inductive JobType where
  | shell
  | agent
deriving DecidableEq

/-- In which session an agent job runs. -/
inductive SessionTarget where
  | isolated
  | main
deriving DecidableEq

/-- When an agent job wakes its session. -/
inductive WakeMode where
  | now
  | next_heartbeat
deriving DecidableEq

/-- Which results of a job are delivered. -/
inductive DeliveryMode where
  | none
  | always
  | on_error
  | on_success
deriving DecidableEq

/-- How the last visit of a job ended. -/
inductive JobStatus where
  | ok
  | error
  | rate_limited
  | cooldown
deriving DecidableEq

/-- Where the results of a job go. -/
structure DeliveryConfig where
  mode : DeliveryMode := .none
  channel : Option Bytes := none
  «to» : Option Bytes := none
  best_effort : Bool := true
deriving DecidableEq

/-- A scheduled job. -/
structure CronJob where
  id : Bytes
  expression : Bytes
  command : Bytes
  next_run_secs : ℤ := 0
  last_run_secs : Option ℤ := none
  last_status : Option JobStatus := none
  paused : Bool := false
  one_shot : Bool := false
  job_type : JobType := .shell
  session_target : SessionTarget := .isolated
  wake_mode : WakeMode := .now
  prompt : Option Bytes := none
  name : Option Bytes := none
  model : Option Bytes := none
  enabled : Bool := true
  delete_after_run : Bool := false
  created_at_s : ℤ := 0
  last_output : Option Bytes := none
  delivery : DeliveryConfig := {}
  consecutive_failures : ℕ := 0
  cooldown_until_secs : Option ℤ := none
  burst_window_start_secs : ℤ := 0
  burst_count_in_window : ℕ := 0
deriving DecidableEq

/-- A patch sets the fields it gives. -/
structure CronJobPatch where
  expression : Option Bytes := none
  command : Option Bytes := none
  prompt : Option Bytes := none
  name : Option Bytes := none
  enabled : Option Bool := none
  model : Option Bytes := none
  delete_after_run : Option Bool := none

/-- The scheduler: its jobs in order, its capacity, and the context its shells run in. -/
structure CronScheduler where
  jobs : List CronJob := []
  max_tasks : ℕ
  context_user_id : Option Bytes := none
  context_user_root : Option Bytes := none
  context_workspace : Option Bytes := none

/-- What pausing or resuming a job can answer. -/
inductive JobPauseResumeResult where
  | changed
  | already_paused
  | already_active
  | not_found
deriving DecidableEq

/-- Parse a delay such as `30m` into seconds; a bare number counts minutes. -/
def parseDuration (input : Bytes) : Except CronError ℤ := do
  let trimmed := Bytes.trim expressionBlanks input
  match trimmed.getLast? with
  | none => throw .EmptyDelay
  | some last =>
      let (num_str, multiplier) ←
        if Bytes.isAlphabetic last then
          let num_str := trimmed.dropLast
          if last = byte 's' then pure (num_str, (1 : ℤ))
          else if last = byte 'm' then pure (num_str, 60)
          else if last = byte 'h' then pure (num_str, 3600)
          else if last = byte 'd' then pure (num_str, 86400)
          else if last = byte 'w' then pure (num_str, 604800)
          else throw .UnknownDurationUnit
        else pure (trimmed, 60)
      match Bytes.parseInt (-2 ^ 63) (2 ^ 63 - 1) (Bytes.trim (ascii " ") num_str) with
      | none => throw .InvalidDurationNumber
      | some n =>
          if n ≤ 0 then throw .InvalidDurationNumber
          else if 2 ^ 63 ≤ n * multiplier then throw .DurationTooLarge
          else pure (n * multiplier)

namespace CronScheduler

def hasJobId (scheduler : CronScheduler) (id : Bytes) : Bool :=
  scheduler.jobs.any fun job => job.id == id

/-- The identifier of one attempt: prefix, clock in nanoseconds and attempt number. -/
def jobIdCandidate (kind : Bytes) (now_ns attempt : ℕ) : Bytes :=
  kind ++ ascii "-" ++ Bytes.decimal now_ns ++ ascii "-" ++ Bytes.decimal attempt

/-- Try `rounds` attempts from `attempt` on for an identifier that no job carries. -/
def generateJobIdFrom (scheduler : CronScheduler) (kind : Bytes) (now_ns : ℕ) :
    ℕ → ℕ → Except CronError Bytes
  | 0, _ => .error .OutOfMemory
  | rounds + 1, attempt =>
      let candidate := jobIdCandidate kind now_ns attempt
      if scheduler.hasJobId candidate then
        generateJobIdFrom scheduler kind now_ns rounds (attempt + 1)
      else .ok candidate

/-- A fresh identifier, within 1024 attempts. -/
def generateJobId (scheduler : CronScheduler) (kind : Bytes) (now_ns : ℕ) :
    Except CronError Bytes :=
  generateJobIdFrom scheduler kind now_ns 1024 0

/-- Add a recurring job. -/
def addJob (scheduler : CronScheduler) (now : ℤ) (now_ns : ℕ) (expression command : Bytes) :
    Except CronError CronScheduler :=
  if scheduler.max_tasks ≤ scheduler.jobs.length then .error .MaxTasksReached
  else do
    normalizeExpression expression
    let next_run_secs ← nextRunForCronExpression expression now
    let id ← scheduler.generateJobId (ascii "job") now_ns
    return { scheduler with
      jobs := scheduler.jobs ++ [{ id, expression, command, next_run_secs, created_at_s := now }] }

/-- The expression recorded for a delayed task: its delay, if that fits in 64 bytes. -/
def onceExpression (delay : Bytes) : Bytes :=
  let text := ascii "@once:" ++ delay
  if text.length ≤ 64 then text else ascii "@once"

/-- Add a one-shot delayed task. -/
def addOnce (scheduler : CronScheduler) (now : ℤ) (now_ns : ℕ) (delay command : Bytes) :
    Except CronError CronScheduler :=
  if scheduler.max_tasks ≤ scheduler.jobs.length then .error .MaxTasksReached
  else do
    let delay_secs ← parseDuration delay
    let id ← scheduler.generateJobId (ascii "once") now_ns
    return { scheduler with
      jobs := scheduler.jobs ++
        [{ id, expression := onceExpression delay, command, next_run_secs := now + delay_secs,
           one_shot := true, created_at_s := now }] }

/-- Apply `change` to the first job that carries `id`. -/
def modifyJob (id : Bytes) (change : CronJob → CronJob) : List CronJob → List CronJob
  | [] => []
  | job :: rest => if job.id = id then change job :: rest else job :: modifyJob id change rest

/-- The first job that carries `id`. -/
def getJob (scheduler : CronScheduler) (id : Bytes) : Option CronJob :=
  scheduler.jobs.find? fun job => job.id == id

/-- The fields that a patch sets without a check. -/
def applyPatchFields (patch : CronJobPatch) (job : CronJob) : CronJob :=
  { job with
    command := patch.command.getD job.command
    prompt := patch.prompt.or job.prompt
    name := patch.name.or job.name
    model := patch.model.or job.model
    enabled := patch.enabled.getD job.enabled
    paused := (patch.enabled.map not).getD job.paused
    delete_after_run := patch.delete_after_run.getD job.delete_after_run
    one_shot := patch.delete_after_run.getD job.one_shot }

/-- Update the fields of a job. A new expression that has no next run rejects the patch. -/
def updateJob (scheduler : CronScheduler) (now : ℤ) (id : Bytes) (patch : CronJobPatch) :
    CronScheduler × Bool :=
  match scheduler.getJob id with
  | none => (scheduler, false)
  | some _ =>
      match patch.expression with
      | none =>
          ({ scheduler with jobs := modifyJob id (applyPatchFields patch) scheduler.jobs }, true)
      | some expression =>
          match nextRunForCronExpression expression now with
          | .error _ => (scheduler, false)
          | .ok next_run_secs =>
              let change job := applyPatchFields patch { job with expression, next_run_secs }
              ({ scheduler with jobs := modifyJob id change scheduler.jobs }, true)

/-- Pause a job. -/
def pauseJob (scheduler : CronScheduler) (id : Bytes) : CronScheduler × JobPauseResumeResult :=
  match scheduler.getJob id with
  | none => (scheduler, .not_found)
  | some job =>
      if job.paused then (scheduler, .already_paused)
      else
        ({ scheduler with
            jobs := modifyJob id (fun job => { job with paused := true }) scheduler.jobs },
          .changed)

/-- Resume a job. -/
def resumeJob (scheduler : CronScheduler) (id : Bytes) : CronScheduler × JobPauseResumeResult :=
  match scheduler.getJob id with
  | none => (scheduler, .not_found)
  | some job =>
      if !job.paused && job.enabled then (scheduler, .already_active)
      else
        ({ scheduler with
            jobs := modifyJob id (fun job => { job with paused := false, enabled := true })
              scheduler.jobs },
          .changed)

end CronScheduler

end Nullalis.Cron
