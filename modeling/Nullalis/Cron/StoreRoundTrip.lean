import Nullalis.Base.Run
import Nullalis.Cron.Store

/-!
# What the store keeps

A saved job is read back field by field, so the round trip of one job is a comparison of
two records. It fails in two ways only. A text that is not UTF-8 makes the whole store
unreadable, and an empty text is either refused or read as none.
-/

namespace Nullalis.Cron

open JsonUtil

variable {job : CronJob} {jobs : List CronJob} {obj : Members} {key : Bytes}

/-!
## One job
-/

/-- A value that may be null. -/
def nullableJson {α : Type} (json : α → Json) : Option α → Json
  | some value => json value
  | none => .null

/-- What the fields of a delivery configuration denote. -/
def deliveryMembers (delivery : DeliveryConfig) : Members :=
  [(ascii "mode", .string delivery.mode.asStr),
    (ascii "channel", nullableJson .string delivery.channel),
    (ascii "to", nullableJson .string delivery.to),
    (ascii "best_effort", .bool delivery.best_effort)]

def intJson (value : ℤ) : Json :=
  .number (Bytes.decimalInt value)

/-- What the fields of a job denote. -/
def jobMembers (job : CronJob) : Members :=
  [(ascii "id", .string job.id),
    (ascii "expression", .string job.expression),
    (ascii "command", .string job.command),
    (ascii "next_run_secs", intJson job.next_run_secs),
    (ascii "last_run_secs", nullableJson intJson job.last_run_secs),
    (ascii "last_status", nullableJson (fun status => .string status.asStr) job.last_status),
    (ascii "paused", .bool job.paused),
    (ascii "one_shot", .bool job.one_shot),
    (ascii "job_type", .string job.job_type.asStr),
    (ascii "session_target", .string job.session_target.asStr),
    (ascii "wake_mode", .string job.wake_mode.asStr),
    (ascii "prompt", nullableJson .string job.prompt),
    (ascii "name", nullableJson .string job.name),
    (ascii "model", nullableJson .string job.model),
    (ascii "enabled", .bool job.enabled),
    (ascii "delete_after_run", .bool job.delete_after_run),
    (ascii "created_at_s", intJson job.created_at_s),
    (ascii "last_output", nullableJson .string job.last_output),
    (ascii "consecutive_failures", intJson job.consecutive_failures),
    (ascii "cooldown_until_secs", nullableJson intJson job.cooldown_until_secs),
    (ascii "burst_window_start_secs", intJson job.burst_window_start_secs),
    (ascii "burst_count_in_window", intJson job.burst_count_in_window),
    (ascii "delivery", .object (deliveryMembers job.delivery))]

theorem nodup_deliveryMembers (delivery : DeliveryConfig) :
    ((deliveryMembers delivery).map Prod.fst).Nodup := by
  have names : (deliveryMembers delivery).map Prod.fst =
      ["mode", "channel", "to", "best_effort"].map ascii := rfl
  rw [names]
  decide

theorem nodup_jobMembers (job : CronJob) : ((jobMembers job).map Prod.fst).Nodup := by
  have names : (jobMembers job).map Prod.fst =
      ["id", "expression", "command", "next_run_secs", "last_run_secs", "last_status", "paused",
        "one_shot", "job_type", "session_target", "wake_mode", "prompt", "name", "model", "enabled",
        "delete_after_run", "created_at_s", "last_output", "consecutive_failures",
        "cooldown_until_secs", "burst_window_start_secs", "burst_count_in_window",
        "delivery"].map ascii := rfl
  rw [names]
  simp only [List.map_cons, List.map_nil]
  repeat rw [ascii_ofList]
  decide

theorem reads_nullable {α : Type} {print : α → Bytes} {json : α → Json}
    (reads : ∀ value, Json.Reads (print value) (json value)) (value : Option α) :
    Json.Reads (nullable print value) (nullableJson json value) := by
  cases value with
  | none => exact .null
  | some value => exact reads value

theorem readsField_of_reads {text : Bytes} {value : Json} (reads : Json.Reads text value) :
    ReadsField (appendJsonKey key ++ text) (key, value) :=
  ⟨text, rfl, reads⟩

theorem readsFields_delivery (delivery : DeliveryConfig) :
    List.Forall₂ ReadsField (deliveryFields delivery) (deliveryMembers delivery) :=
  .cons (readsField_keyValue _ _) <|
    .cons (readsField_of_reads (reads_nullable reads_appendJsonString _)) <|
    .cons (readsField_of_reads (reads_nullable reads_appendJsonString _)) <|
    .cons (readsField_of_reads (.bool _)) .nil

theorem readsFields_job (job : CronJob) :
    List.Forall₂ ReadsField (jobFields job) (jobMembers job) := by
  have delivery := reads_appendJsonFields (readsFields_delivery job.delivery)
    (List.cons_ne_nil _ _) (nodup_deliveryMembers _)
  have text {key : Bytes} (value : Option Bytes) :
      ReadsField (appendNullableJsonStringField key value)
        (key, nullableJson .string value) :=
    readsField_of_reads (reads_nullable reads_appendJsonString value)
  have time {key : Bytes} (value : Option ℤ) :
      ReadsField (appendJsonKey key ++ nullable Bytes.decimalInt value)
        (key, nullableJson intJson value) :=
    readsField_of_reads (reads_nullable .int value)
  have flag {key : Bytes} (value : Bool) :
      ReadsField (appendJsonKey key ++ boolText value) (key, .bool value) :=
    readsField_of_reads (.bool value)
  have status := reads_nullable (fun status => reads_appendJsonString (JobStatus.asStr status))
    job.last_status
  exact .cons (readsField_keyValue _ _) <| .cons (readsField_keyValue _ _) <|
    .cons (readsField_keyValue _ _) <| .cons (readsField_int _ _) <| .cons (time _) <|
    .cons (readsField_of_reads status) <| .cons (flag _) <| .cons (flag _) <|
    .cons (readsField_keyValue _ _) <| .cons (readsField_keyValue _ _) <|
    .cons (readsField_keyValue _ _) <| .cons (text _) <| .cons (text _) <| .cons (text _) <|
    .cons (flag _) <| .cons (flag _) <| .cons (readsField_int _ _) <| .cons (text _) <|
    .cons (readsField_int _ _) <| .cons (time _) <| .cons (readsField_int _ _) <|
    .cons (readsField_int _ _) <| .cons (readsField_of_reads delivery) .nil

theorem reads_appendJobJson (job : CronJob) :
    Json.Reads (appendJobJson job) (.object (jobMembers job)) :=
  reads_appendJsonFields (readsFields_job job) (List.cons_ne_nil _ _) (nodup_jobMembers job)

def IsI64 (value : ℤ) : Prop :=
  -2 ^ 63 ≤ value ∧ value ≤ 2 ^ 63 - 1

/-- The fields of a job fit their types. -/
structure CronJob.Fits (job : CronJob) : Prop where
  next_run_secs : IsI64 job.next_run_secs
  last_run_secs : ∀ value ∈ job.last_run_secs, IsI64 value
  created_at_s : IsI64 job.created_at_s
  consecutive_failures : job.consecutive_failures ≤ maxU32
  cooldown_until_secs : ∀ value ∈ job.cooldown_until_secs, IsI64 value
  burst_window_start_secs : IsI64 job.burst_window_start_secs
  burst_count_in_window : job.burst_count_in_window ≤ maxU32

/-- A text that may be null, with null for the empty text. -/
def unempty (text : Option Bytes) : Option Bytes :=
  text.filter fun text => !text.isEmpty

/-- The job that is loaded in the place of a job. -/
def CronJob.loaded (job : CronJob) : CronJob :=
  { job with
    prompt := unempty job.prompt
    name := unempty job.name
    model := unempty job.model
    last_output := unempty job.last_output
    delivery :=
      { job.delivery with
        channel := unempty job.delivery.channel
        «to» := unempty job.delivery.to } }

def CronJob.Named (job : CronJob) : Prop :=
  job.id ≠ [] ∧ job.expression ≠ [] ∧ job.command ≠ []

instance : Decidable job.Named :=
  inferInstanceAs (Decidable (_ ∧ _ ∧ _))

theorem textField_of_get? {value : Option Bytes}
    (found : Json.get? obj key = some (nullableJson .string value)) :
    textField obj key = unempty value := by
  rw [textField, found]
  cases value <;> rfl

theorem intField_of_get? {value : Option ℤ} (fits : ∀ number ∈ value, IsI64 number)
    (found : Json.get? obj key = some (nullableJson intJson value)) :
    intField obj key = value := by
  rw [intField, found]
  cases value with
  | none => rfl
  | some number => exact Json.integer?_decimalInt (fits number rfl).1 (fits number rfl).2

theorem countField_of_get? {count : ℕ} (fits : count ≤ maxU32)
    (found : Json.get? obj key = some (intJson count)) : countField obj key = count := by
  have limit : maxU32 = 4294967295 := rfl
  have number : intField obj key = some (count : ℤ) := by
    rw [intField, found]
    exact Json.integer?_decimalInt (by omega) (by omega)
  rw [countField, number]
  simp only [Int.natCast_nonneg, if_true]
  omega

@[simp]
theorem parse_asStr_jobType (job_type : JobType) : .parse job_type.asStr = job_type := by
  cases job_type <;> rfl

@[simp]
theorem parse_asStr_sessionTarget (session_target : SessionTarget) :
    .parse session_target.asStr = session_target := by
  cases session_target <;> rfl

@[simp]
theorem parse_asStr_wakeMode (wake_mode : WakeMode) : .parse wake_mode.asStr = wake_mode := by
  cases wake_mode <;> rfl

@[simp]
theorem parse_asStr_deliveryMode (mode : DeliveryMode) : .parse mode.asStr = mode := by
  cases mode <;> rfl

@[simp]
theorem parse_asStr_jobStatus (status : JobStatus) :
    JobStatus.parse status.asStr = some status := by
  cases status <;> rfl

theorem deliveryOfMembers_deliveryMembers (delivery : DeliveryConfig) :
    deliveryOfMembers (deliveryMembers delivery) =
      { delivery with
        channel := unempty delivery.channel
        «to» := unempty delivery.to } := by
  have mode : wordField (deliveryMembers delivery) (ascii "mode") = some delivery.mode.asStr := rfl
  have channel : textField (deliveryMembers delivery) (ascii "channel") =
      unempty delivery.channel := textField_of_get? rfl
  have to' : textField (deliveryMembers delivery) (ascii "to") = unempty delivery.to :=
    textField_of_get? rfl
  have best_effort : boolField (deliveryMembers delivery) (ascii "best_effort") =
      some delivery.best_effort := rfl
  simp [deliveryOfMembers, mode, channel, to', best_effort]

theorem requiredField_of_get? {text : Bytes} (found : Json.get? obj key = some (.string text)) :
    requiredField obj key = if text = [] then .error .InvalidCronStoreFormat else .ok text := by
  rw [requiredField, textField, found]
  cases text <;> rfl

/-- Loading a job appends what is loaded in its place, unless a text is missing. -/
theorem appendJob_jobMembers (fits : job.Fits) (now : ℤ) :
    appendJobFromJsonObjectWithPolicy jobs (jobMembers job) .strict now =
      if job.Named then .ok (jobs ++ [job.loaded]) else .error .InvalidCronStoreFormat := by
  have required {key text : Bytes} (found : Json.get? (jobMembers job) key = some (.string text)) :
      requiredField (jobMembers job) key =
        if text = [] then .error .InvalidCronStoreFormat else .ok text :=
    requiredField_of_get? found
  have id : requiredField (jobMembers job) (ascii "id") = _ := required rfl
  have expression : requiredField (jobMembers job) (ascii "expression") = _ := required rfl
  have command : requiredField (jobMembers job) (ascii "command") = _ := required rfl
  have delivery : deliveryField (jobMembers job) .strict = .ok job.loaded.delivery :=
    congrArg Except.ok (deliveryOfMembers_deliveryMembers job.delivery)
  have int {key : Bytes} {value : ℤ} (fits : IsI64 value)
      (found : Json.get? (jobMembers job) key = some (intJson value)) :
      intField (jobMembers job) key = some value := by
    rw [intField, found]
    exact Json.integer?_decimalInt fits.1 fits.2
  have next_run_secs : intField (jobMembers job) (ascii "next_run_secs") = _ :=
    int fits.next_run_secs rfl
  have last_run_secs : intField (jobMembers job) (ascii "last_run_secs") = _ :=
    intField_of_get? fits.last_run_secs rfl
  have created_at_s : intField (jobMembers job) (ascii "created_at_s") = _ :=
    int fits.created_at_s rfl
  have cooldown_until_secs : intField (jobMembers job) (ascii "cooldown_until_secs") = _ :=
    intField_of_get? fits.cooldown_until_secs rfl
  have burst_window_start_secs :
      intField (jobMembers job) (ascii "burst_window_start_secs") = _ :=
    int fits.burst_window_start_secs rfl
  have failures : countField (jobMembers job) (ascii "consecutive_failures") = _ :=
    countField_of_get? fits.consecutive_failures rfl
  have burst : countField (jobMembers job) (ascii "burst_count_in_window") = _ :=
    countField_of_get? fits.burst_count_in_window rfl
  have prompt : textField (jobMembers job) (ascii "prompt") = _ := textField_of_get? rfl
  have name : textField (jobMembers job) (ascii "name") = _ := textField_of_get? rfl
  have model : textField (jobMembers job) (ascii "model") = _ := textField_of_get? rfl
  have last_output : textField (jobMembers job) (ascii "last_output") = _ := textField_of_get? rfl
  have last_status : (wordField (jobMembers job) (ascii "last_status")).bind JobStatus.parse =
      job.last_status := by
    have found : Json.get? (jobMembers job) (ascii "last_status") =
        some (nullableJson (fun status => .string status.asStr) job.last_status) := rfl
    rw [wordField, found]
    cases job.last_status with
    | none => rfl
    | some status => exact parse_asStr_jobStatus status
  have paused : boolField (jobMembers job) (ascii "paused") = some job.paused := rfl
  have one_shot : boolField (jobMembers job) (ascii "one_shot") = some job.one_shot := rfl
  have enabled : boolField (jobMembers job) (ascii "enabled") = some job.enabled := rfl
  have delete_after_run : boolField (jobMembers job) (ascii "delete_after_run") =
      some job.delete_after_run := rfl
  have job_type : wordField (jobMembers job) (ascii "job_type") = some job.job_type.asStr := rfl
  have session_target : wordField (jobMembers job) (ascii "session_target") =
      some job.session_target.asStr := rfl
  have wake_mode : wordField (jobMembers job) (ascii "wake_mode") =
      some job.wake_mode.asStr := rfl
  by_cases named : job.Named
  · rcases named with ⟨someId, someExpression, someCommand⟩
    simp only [appendJobFromJsonObjectWithPolicy, id, expression, command, delivery, next_run_secs,
      last_run_secs, created_at_s, cooldown_until_secs, burst_window_start_secs, failures, burst,
      prompt, name, model, last_output, last_status, paused, one_shot, enabled, delete_after_run,
      job_type, session_target, wake_mode, if_neg someId, if_neg someExpression,
      if_neg someCommand, Option.map_some, Option.getD_some, parse_asStr_jobType,
      parse_asStr_sessionTarget, parse_asStr_wakeMode]
    rw [if_pos ⟨someId, someExpression, someCommand⟩]
    rfl
  · rw [if_neg named]
    simp only [appendJobFromJsonObjectWithPolicy, id, expression, command]
    by_cases noId : job.id = []
    · rw [if_pos noId]
      rfl
    by_cases noExpression : job.expression = []
    · rw [if_neg noId, if_pos noExpression]
      rfl
    have noCommand : job.command = [] := by
      by_contra someCommand
      exact named ⟨noId, noExpression, someCommand⟩
    rw [if_neg noId, if_neg noExpression, if_pos noCommand]
    rfl

/-!
## The whole store
-/

def storeItems (jobs : List CronJob) : List Json :=
  jobs.map fun job => .object (jobMembers job)

theorem readsItems_jobs (nonempty : jobs ≠ []) :
    Json.ReadsItems (ascii "\n" ++
      (List.intercalate (ascii ",\n") (jobs.map fun job => ascii "  " ++ appendJobJson job) ++
        ascii "\n]")) (storeItems jobs) := by
  have entry (job : CronJob) :
      Json.Reads (ascii "\n  " ++ appendJobJson job) (.object (jobMembers job)) :=
    (reads_appendJobJson job).blanks rfl
  induction jobs with
  | nil => exact absurd rfl nonempty
  | cons job rest ih =>
      cases rest with
      | nil =>
          have blank : (ascii "\n").all Json.isBlank = true := rfl
          have last := Json.ReadsItems.last (entry job) blank
          simpa [ascii, List.intercalate, storeItems] using last
      | cons second rest =>
          have more := Json.ReadsItems.cons (entry job) (ih (List.cons_ne_nil _ _))
          simpa [ascii, List.intercalate, storeItems] using more

theorem parse_saveJobsToSlice (scheduler : CronScheduler)
    (valid : Utf8.valid scheduler.saveJobsToSlice = true) :
    Json.parse scheduler.saveJobsToSlice = some (.array (storeItems scheduler.jobs)) := by
  have blank : (ascii "\n").all Json.isBlank = true := rfl
  have reads : ∃ text, scheduler.saveJobsToSlice = text ++ ascii "\n" ∧
      Json.Reads text (.array (storeItems scheduler.jobs)) := by
    by_cases empty : scheduler.jobs = []
    · have blanks : (ascii "\n\n").all Json.isBlank = true := rfl
      refine ⟨ascii "[\n\n]", ?_, ?_⟩
      · rw [CronScheduler.saveJobsToSlice, empty]
        rfl
      · rw [empty]
        exact .emptyArray blanks
    · refine ⟨_, ?_, .array (readsItems_jobs empty)⟩
      simp [CronScheduler.saveJobsToSlice, ascii]
  rcases reads with ⟨text, shape, reads⟩
  rw [shape] at valid ⊢
  exact Json.parse_of_reads reads blank valid

theorem appendJobs_storeItems {start : List CronJob} (fits : ∀ job ∈ jobs, job.Fits) (now : ℤ) :
    appendJobs .strict now start (storeItems jobs) =
      if ∀ job ∈ jobs, job.Named then .ok (start ++ jobs.map CronJob.loaded)
      else .error .InvalidCronStoreFormat := by
  induction jobs generalizing start with
  | nil => simp [storeItems, appendJobs]
  | cons job rest ih =>
      have restFits := fun other mem => fits other (List.mem_cons_of_mem _ mem)
      have first : appendJobFromJsonObjectWithPolicy start (jobMembers job) .strict now = _ :=
        appendJob_jobMembers (fits job (List.mem_cons_self ..)) now
      by_cases named : job.Named
      · rw [if_pos named] at first
        have later : appendJobs .strict now (start ++ [job.loaded]) (storeItems rest) = _ :=
          ih restFits
        rw [storeItems] at later
        simp only [storeItems, List.map_cons, appendJobs, first, later]
        simp [named]
      · rw [if_neg named] at first
        simp only [storeItems, List.map_cons, appendJobs, first]
        simp [named]

/-- A text that the store keeps: it is neither empty nor other than UTF-8. -/
def Kept (text : Bytes) : Prop :=
  text ≠ [] ∧ Utf8.valid text = true

/-- A job whose texts the store keeps. -/
structure CronJob.Storable (job : CronJob) : Prop where
  id : Kept job.id
  expression : Kept job.expression
  command : Kept job.command
  prompt : ∀ text ∈ job.prompt, Kept text
  name : ∀ text ∈ job.name, Kept text
  model : ∀ text ∈ job.model, Kept text
  last_output : ∀ text ∈ job.last_output, Kept text
  channel : ∀ text ∈ job.delivery.channel, Kept text
  «to» : ∀ text ∈ job.delivery.to, Kept text

theorem valid_nullableField (plain : Utf8.valid key = true) (value : Option Bytes) :
    Utf8.valid (appendNullableJsonStringField key value) = value.all Utf8.valid := by
  rw [appendNullableJsonStringField, valid_appendJsonKey plain]
  cases value with
  | none => rfl
  | some text =>
      have whole := valid_appendJsonString text []
      rwa [List.append_nil, Utf8.valid_nil, Bool.and_true] at whole

theorem valid_boolText (value : Bool) : Utf8.valid (boolText value) = true := by
  cases value <;> decide

theorem valid_nullableInt (value : Option ℤ) :
    Utf8.valid (nullable Bytes.decimalInt value) = true := by
  cases value with
  | none => decide
  | some number => exact valid_decimalInt number

theorem valid_status (value : Option JobStatus) :
    Utf8.valid (nullable (fun status => appendJsonString status.asStr) value) = true := by
  cases value with
  | none => decide
  | some status => cases status <;> decide

theorem valid_jobType (job_type : JobType) : Utf8.valid job_type.asStr = true := by
  cases job_type <;> decide

theorem valid_sessionTarget (session_target : SessionTarget) :
    Utf8.valid session_target.asStr = true := by
  cases session_target <;> decide

theorem valid_wakeMode (wake_mode : WakeMode) : Utf8.valid wake_mode.asStr = true := by
  cases wake_mode <;> decide

theorem valid_deliveryMode (mode : DeliveryMode) : Utf8.valid mode.asStr = true := by
  cases mode <;> decide

theorem valid_appendJobJson (job : CronJob) :
    Utf8.valid (appendJobJson job) =
      (Utf8.valid job.id && Utf8.valid job.expression && Utf8.valid job.command &&
        job.prompt.all Utf8.valid && job.name.all Utf8.valid && job.model.all Utf8.valid &&
        job.last_output.all Utf8.valid && job.delivery.channel.all Utf8.valid &&
        job.delivery.to.all Utf8.valid) := by
  simp (disch := decide) only [appendJobJson, valid_appendJsonFields, jobFields, List.all_cons,
    List.all_nil, valid_appendJsonKeyValue, appendJsonInt, valid_appendJsonKey, valid_decimalInt,
    valid_nullableInt, valid_status, valid_boolText, valid_jobType, valid_sessionTarget,
    valid_wakeMode, valid_nullableField, deliveryFields, valid_deliveryMode, Bool.true_and,
    Bool.and_true, Bool.and_assoc]

theorem valid_saveJobsToSlice (scheduler : CronScheduler) :
    Utf8.valid scheduler.saveJobsToSlice =
      scheduler.jobs.all fun job => Utf8.valid (appendJobJson job) := by
  have opened : (ascii "[\n").all Utf8.isAscii = true := rfl
  have indented : (ascii "  ").all Utf8.isAscii = true := rfl
  have closed (text : Bytes) : Utf8.valid (text ++ ascii "\n]\n") = Utf8.valid text := by
    have cut : Utf8.valid (text ++ byte '\n' :: ascii "]\n") =
        (Utf8.valid text && Utf8.valid (ascii "]\n")) := Utf8.valid_append_cons rfl
    have end' : Utf8.valid (ascii "]\n") = true := by decide
    rwa [end', Bool.and_true] at cut
  have separated (texts : List Bytes) :
      Utf8.valid (List.intercalate (ascii ",\n") texts) = texts.all Utf8.valid :=
    valid_intercalate rfl rfl texts
  rw [CronScheduler.saveJobsToSlice, closed, Utf8.valid_append opened, separated]
  simp only [List.all_map, Function.comp_def, Utf8.valid_append indented]

theorem kept_iff (value : Option Bytes) :
    (∀ text ∈ value, Kept text) ↔ value.all Utf8.valid = true ∧ unempty value = value := by
  cases value with
  | none => simp [unempty]
  | some text => cases text <;> simp [Kept, unempty]

theorem storable_iff (job : CronJob) :
    job.Storable ↔ Utf8.valid (appendJobJson job) = true ∧ job.Named ∧ job.loaded = job := by
  rw [valid_appendJobJson]
  constructor
  case mp =>
      intro storable
      have prompt := (kept_iff _).mp storable.prompt
      have name := (kept_iff _).mp storable.name
      have model := (kept_iff _).mp storable.model
      have last_output := (kept_iff _).mp storable.last_output
      have channel := (kept_iff _).mp storable.channel
      have to' := (kept_iff _).mp storable.to
      refine ⟨?_, ⟨storable.id.1, storable.expression.1, storable.command.1⟩, ?_⟩
      · simp [storable.id.2, storable.expression.2, storable.command.2, prompt.1, name.1, model.1,
          last_output.1, channel.1, to'.1]
      · simp [CronJob.loaded, prompt.2, name.2, model.2, last_output.2, channel.2, to'.2]
  case mpr =>
      rintro ⟨valid, ⟨id, expression, command⟩, same⟩
      simp only [Bool.and_eq_true] at valid
      rcases valid with ⟨⟨⟨⟨⟨⟨⟨⟨validId, validExpression⟩, validCommand⟩, prompt⟩, name⟩, model⟩,
        last_output⟩, channel⟩, to'⟩
      have samePrompt : unempty job.prompt = job.prompt := congrArg CronJob.prompt same
      have sameName : unempty job.name = job.name := congrArg CronJob.name same
      have sameModel : unempty job.model = job.model := congrArg CronJob.model same
      have sameOutput : unempty job.last_output = job.last_output :=
        congrArg CronJob.last_output same
      have sameChannel : unempty job.delivery.channel = job.delivery.channel :=
        congrArg (fun job => job.delivery.channel) same
      have sameTo : unempty job.delivery.to = job.delivery.to :=
        congrArg (fun job => job.delivery.to) same
      exact ⟨⟨id, validId⟩, ⟨expression, validExpression⟩, ⟨command, validCommand⟩,
        (kept_iff _).mpr ⟨prompt, samePrompt⟩, (kept_iff _).mpr ⟨name, sameName⟩,
        (kept_iff _).mpr ⟨model, sameModel⟩, (kept_iff _).mpr ⟨last_output, sameOutput⟩,
        (kept_iff _).mpr ⟨channel, sameChannel⟩, (kept_iff _).mpr ⟨to', sameTo⟩⟩

theorem load_saveJobsToSlice_iff {scheduler : CronScheduler}
    (fits : ∀ job ∈ scheduler.jobs, job.Fits) (now : ℤ) :
    loadJobsWithPolicy [] scheduler.saveJobsToSlice .strict now = .ok scheduler.jobs ↔
      ∀ job ∈ scheduler.jobs, job.Storable := by
  simp only [storable_iff]
  cases valid : Utf8.valid scheduler.saveJobsToSlice with
  | false =>
      rw [loadJobsWithPolicy, Json.parse_of_not_valid valid]
      constructor
      · intro loaded
        cases loaded
      · intro storable
        rw [valid_saveJobsToSlice, List.all_eq_false] at valid
        rcases valid with ⟨job, mem, invalid⟩
        exact absurd (storable job mem).1 invalid
  | true =>
      have loaded : loadJobsWithPolicy [] scheduler.saveJobsToSlice .strict now =
          if ∀ job ∈ scheduler.jobs, job.Named then .ok ([] ++ scheduler.jobs.map CronJob.loaded)
          else .error .InvalidCronStoreFormat := by
        rw [loadJobsWithPolicy, parse_saveJobsToSlice scheduler valid]
        exact appendJobs_storeItems fits now
      rw [loaded, List.nil_append]
      rw [valid_saveJobsToSlice, List.all_eq_true] at valid
      constructor
      · intro same job mem
        split at same
        case isFalse => cases same
        case isTrue named =>
            have kept : scheduler.jobs.map CronJob.loaded = scheduler.jobs.map id :=
              (Except.ok.inj same).trans (List.map_id _).symm
            exact ⟨valid job mem, named job mem, List.map_inj_left.mp kept job mem⟩
      · intro storable
        have kept : scheduler.jobs.map CronJob.loaded = scheduler.jobs.map id :=
          List.map_inj_left.mpr fun job mem => (storable job mem).2.2
        rw [if_pos fun job mem => (storable job mem).2.1, kept, List.map_id]

end Nullalis.Cron
