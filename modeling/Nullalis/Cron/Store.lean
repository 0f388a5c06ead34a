import Nullalis.Cron.Tick
import Nullalis.JsonUtil

/-!
# The stored form of the jobs

Saving prints every field of every job, and loading reads them back field by field, with a
default for a field that is absent or of another type. Only the identifier, the expression
and the command of a job must be there.

Loading starts from the content of the store; reading the file, of one MiB at most, is left
out.
-/

namespace Nullalis.Cron

open JsonUtil

/-!
## Spellings
-/

def JobType.asStr : JobType → Bytes
  | .shell => ascii "shell"
  | .agent => ascii "agent"

def JobType.parse (raw : Bytes) : JobType :=
  if Bytes.eqlIgnoreCase raw (ascii "agent") then .agent else .shell

def SessionTarget.asStr : SessionTarget → Bytes
  | .isolated => ascii "isolated"
  | .main => ascii "main"

def SessionTarget.parse (raw : Bytes) : SessionTarget :=
  if Bytes.eqlIgnoreCase raw (ascii "main") then .main else .isolated

def WakeMode.asStr : WakeMode → Bytes
  | .now => ascii "now"
  | .next_heartbeat => ascii "next_heartbeat"

def WakeMode.parse (raw : Bytes) : WakeMode :=
  if Bytes.eqlIgnoreCase raw (ascii "next_heartbeat") then .next_heartbeat else .now

def DeliveryMode.asStr : DeliveryMode → Bytes
  | .none => ascii "none"
  | .always => ascii "always"
  | .on_error => ascii "on_error"
  | .on_success => ascii "on_success"

def DeliveryMode.parse (raw : Bytes) : DeliveryMode :=
  if Bytes.eqlIgnoreCase raw (ascii "always") then .always
  else if Bytes.eqlIgnoreCase raw (ascii "on_error") then .on_error
  else if Bytes.eqlIgnoreCase raw (ascii "on_success") then .on_success
  else .none

/-- The literal that the status is stored as. -/
def JobStatus.asStr : JobStatus → Bytes
  | .ok => ascii "ok"
  | .error => ascii "error"
  | .rate_limited => ascii "rate_limited"
  | .cooldown => ascii "cooldown"

/-- The status that a stored text stands for, if it is one of the four. -/
def JobStatus.parse (raw : Bytes) : Option JobStatus :=
  if Bytes.eqlIgnoreCase raw (ascii "ok") then some .ok
  else if Bytes.eqlIgnoreCase raw (ascii "error") then some .error
  else if Bytes.eqlIgnoreCase raw (ascii "rate_limited") then some .rate_limited
  else if Bytes.eqlIgnoreCase raw (ascii "cooldown") then some .cooldown
  else none

/-!
## Saving
-/

/-- A value that may be null. -/
def nullable {α : Type} (print : α → Bytes) : Option α → Bytes
  | some value => print value
  | none => ascii "null"

def boolText (value : Bool) : Bytes :=
  if value then ascii "true" else ascii "false"

def appendNullableJsonStringField (key : Bytes) (value : Option Bytes) : Bytes :=
  appendJsonKey key ++ nullable appendJsonString value

/-- The fields of a delivery configuration, in the order of the store. -/
def deliveryFields (delivery : DeliveryConfig) : List Bytes :=
  [appendJsonKeyValue (ascii "mode") delivery.mode.asStr,
    appendNullableJsonStringField (ascii "channel") delivery.channel,
    appendNullableJsonStringField (ascii "to") delivery.to,
    appendJsonKey (ascii "best_effort") ++ boolText delivery.best_effort]

/-- The fields of a job, in the order of the store. -/
def jobFields (job : CronJob) : List Bytes :=
  [appendJsonKeyValue (ascii "id") job.id,
    appendJsonKeyValue (ascii "expression") job.expression,
    appendJsonKeyValue (ascii "command") job.command,
    appendJsonInt (ascii "next_run_secs") job.next_run_secs,
    appendJsonKey (ascii "last_run_secs") ++ nullable Bytes.decimalInt job.last_run_secs,
    appendJsonKey (ascii "last_status") ++
      nullable (fun status => appendJsonString status.asStr) job.last_status,
    appendJsonKey (ascii "paused") ++ boolText job.paused,
    appendJsonKey (ascii "one_shot") ++ boolText job.one_shot,
    appendJsonKeyValue (ascii "job_type") job.job_type.asStr,
    appendJsonKeyValue (ascii "session_target") job.session_target.asStr,
    appendJsonKeyValue (ascii "wake_mode") job.wake_mode.asStr,
    appendNullableJsonStringField (ascii "prompt") job.prompt,
    appendNullableJsonStringField (ascii "name") job.name,
    appendNullableJsonStringField (ascii "model") job.model,
    appendJsonKey (ascii "enabled") ++ boolText job.enabled,
    appendJsonKey (ascii "delete_after_run") ++ boolText job.delete_after_run,
    appendJsonInt (ascii "created_at_s") job.created_at_s,
    appendNullableJsonStringField (ascii "last_output") job.last_output,
    appendJsonInt (ascii "consecutive_failures") job.consecutive_failures,
    appendJsonKey (ascii "cooldown_until_secs") ++
      nullable Bytes.decimalInt job.cooldown_until_secs,
    appendJsonInt (ascii "burst_window_start_secs") job.burst_window_start_secs,
    appendJsonInt (ascii "burst_count_in_window") job.burst_count_in_window,
    appendJsonKey (ascii "delivery") ++ appendJsonFields (deliveryFields job.delivery)]

def appendJobJson (job : CronJob) : Bytes :=
  appendJsonFields (jobFields job)

/-- The content of the store. -/
def CronScheduler.saveJobsToSlice (scheduler : CronScheduler) : Bytes :=
  ascii "[\n" ++
    List.intercalate (ascii ",\n") (scheduler.jobs.map fun job => ascii "  " ++ appendJobJson job) ++
    ascii "\n]\n"

/-!
## Loading
-/

/-- What becomes of an invalid entry. -/
inductive LoadPolicy where
  | best_effort
  | strict
deriving DecidableEq

/-- Why the store cannot be loaded: it is no JSON text, or it has another shape. -/
inductive StoreError where
  | InvalidJson
  | InvalidCronStoreFormat
deriving DecidableEq

/-- The members of an object. -/
abbrev Members := List (Bytes × Json)

variable (obj : Members) (key : Bytes)

/-- The string of a field, if there is one and it is not empty. -/
def textField : Option Bytes :=
  ((Json.get? obj key).bind Json.string?).filter fun text => !text.isEmpty

def intField : Option ℤ :=
  (Json.get? obj key).bind Json.integer?

def boolField : Option Bool :=
  (Json.get? obj key).bind Json.bool?

def wordField : Option Bytes :=
  (Json.get? obj key).bind Json.string?

/-- The count of a field, clamped to 32 bits; zero if it is negative. -/
def countField : ℕ :=
  match intField obj key with
  | some count => if 0 ≤ count then (min count maxU32).toNat else 0
  | none => 0

/-- The delivery configuration of an object. -/
def deliveryOfMembers (obj : Members) : DeliveryConfig where
  mode := ((wordField obj (ascii "mode")).map DeliveryMode.parse).getD .none
  channel := textField obj (ascii "channel")
  «to» := textField obj (ascii "to")
  best_effort := (boolField obj (ascii "best_effort")).getD true

/-- The delivery configuration of a job; one that is no object is an invalid entry. -/
def deliveryField (obj : Members) (policy : LoadPolicy) : Except StoreError DeliveryConfig :=
  match Json.get? obj (ascii "delivery") with
  | none => .ok {}
  | some (.object members) => .ok (deliveryOfMembers members)
  | some _ =>
      match policy with
      | .best_effort => .ok {}
      | .strict => .error .InvalidCronStoreFormat

/-- A text that must be there. -/
def requiredField : Except StoreError Bytes :=
  match textField obj key with
  | some text => .ok text
  | none => .error .InvalidCronStoreFormat

/-- Append the job of an object. A job without a next run is due in a minute. -/
def appendJobFromJsonObjectWithPolicy (jobs : List CronJob) (obj : Members) (policy : LoadPolicy)
    (now : ℤ) : Except StoreError (List CronJob) := do
  let id ← requiredField obj (ascii "id")
  let expression ← requiredField obj (ascii "expression")
  let command ← requiredField obj (ascii "command")
  let paused := (boolField obj (ascii "paused")).getD false
  let one_shot := (boolField obj (ascii "one_shot")).getD false
  let delivery ← deliveryField obj policy
  return jobs ++
    [{ id
       expression
       command
       next_run_secs := (intField obj (ascii "next_run_secs")).getD (now + 60)
       last_run_secs := intField obj (ascii "last_run_secs")
       last_status := (wordField obj (ascii "last_status")).bind JobStatus.parse
       paused
       one_shot
       job_type := ((wordField obj (ascii "job_type")).map JobType.parse).getD .shell
       session_target :=
         ((wordField obj (ascii "session_target")).map SessionTarget.parse).getD .isolated
       wake_mode := ((wordField obj (ascii "wake_mode")).map WakeMode.parse).getD .now
       prompt := textField obj (ascii "prompt")
       name := textField obj (ascii "name")
       model := textField obj (ascii "model")
       enabled := (boolField obj (ascii "enabled")).getD !paused
       delete_after_run := (boolField obj (ascii "delete_after_run")).getD one_shot
       created_at_s := (intField obj (ascii "created_at_s")).getD 0
       last_output := textField obj (ascii "last_output")
       delivery
       consecutive_failures := countField obj (ascii "consecutive_failures")
       cooldown_until_secs := intField obj (ascii "cooldown_until_secs")
       burst_window_start_secs := (intField obj (ascii "burst_window_start_secs")).getD 0
       burst_count_in_window := countField obj (ascii "burst_count_in_window") }]

/-- Append the jobs of the entries in order. -/
def appendJobs (policy : LoadPolicy) (now : ℤ) :
    List CronJob → List Json → Except StoreError (List CronJob)
  | jobs, [] => .ok jobs
  | jobs, entry :: rest =>
      let appended :=
        match entry with
        | .object obj => appendJobFromJsonObjectWithPolicy jobs obj policy now
        | _ => .error .InvalidCronStoreFormat
      match policy, appended with
      | _, .ok jobs => appendJobs policy now jobs rest
      | .best_effort, .error _ => appendJobs policy now jobs rest
      | .strict, .error failure => .error failure

/-- Append the jobs of a store with this content. -/
def loadJobsWithPolicy (jobs : List CronJob) (content : Bytes) (policy : LoadPolicy) (now : ℤ) :
    Except StoreError (List CronJob) :=
  match Json.parse content with
  | some (.array items) => appendJobs policy now jobs items
  | parsed =>
      match policy with
      | .best_effort => .ok jobs
      | .strict => .error (if parsed.isNone then .InvalidJson else .InvalidCronStoreFormat)

end Nullalis.Cron
