import Nullalis.Cron.Progress
import Nullalis.Cron.StoreRoundTrip

/-!
# Stores that are read back

The scheduler is run by its operations in any order. As long as every text that an operation
takes in is one that the store keeps, the saved jobs are loaded as they are: identifiers and
delays are ASCII, the counters are bounded, and a finished shell leaves either no output or a
text.

A time that leaves the range of `i64` traps in the source, so such an operation is no step.
-/

namespace Nullalis.Cron

variable {scheduler : CronScheduler} {runner : JobRunner} {now : ℤ} {idx : ℕ}
  {job : CronJob} {jobs : List CronJob}

/-- The operations on a scheduler. -/
inductive StoreAction where
  | addJob (now : ℤ) (now_ns : ℕ) (expression command : Bytes)
  | addOnce (now : ℤ) (now_ns : ℕ) (delay command : Bytes)
  | updateJob (now : ℤ) (id : Bytes) (patch : CronJobPatch)
  | pauseJob (id : Bytes)
  | resumeJob (id : Bytes)
  | tick (runner : JobRunner) (now : ℤ)

/-- What an operation leaves. One that fails leaves the scheduler as it was. -/
def afterAction (scheduler : CronScheduler) : StoreAction → CronScheduler
  | .addJob now now_ns expression command =>
      (scheduler.addJob now now_ns expression command).toOption.getD scheduler
  | .addOnce now now_ns delay command =>
      (scheduler.addOnce now now_ns delay command).toOption.getD scheduler
  | .updateJob now id patch => (scheduler.updateJob now id patch).1
  | .pauseJob id => (scheduler.pauseJob id).1
  | .resumeJob id => (scheduler.resumeJob id).1
  | .tick runner now => (scheduler.tick runner now).1

/-- The times of a job fit in 64 bits. -/
def CronJob.TimesFit (job : CronJob) : Prop :=
  IsI64 job.next_run_secs ∧ (∀ value ∈ job.last_run_secs, IsI64 value) ∧
    IsI64 job.created_at_s ∧ (∀ value ∈ job.cooldown_until_secs, IsI64 value) ∧
    IsI64 job.burst_window_start_secs

instance (value : ℤ) : Decidable (IsI64 value) :=
  inferInstanceAs (Decidable (_ ∧ _))

instance : Decidable job.TimesFit :=
  inferInstanceAs (Decidable (_ ∧ _ ∧ _ ∧ _ ∧ _))

/-- One operation. -/
def storeMachine : Machine CronScheduler StoreAction := fun scheduler action =>
  if ∀ job ∈ (afterAction scheduler action).jobs, job.TimesFit then
    some (afterAction scheduler action)
  else none

/-- A patch sets texts only that the store keeps. -/
structure CronJobPatch.Keeps (patch : CronJobPatch) : Prop where
  expression : ∀ text ∈ patch.expression, Utf8.valid text = true
  command : ∀ text ∈ patch.command, Kept text
  prompt : ∀ text ∈ patch.prompt, Kept text
  name : ∀ text ∈ patch.name, Kept text
  model : ∀ text ∈ patch.model, Kept text

/-- An operation that succeeds takes in texts only that the store keeps, and the shells that a
tick runs print UTF-8. -/
def KeepsTexts (scheduler : CronScheduler) : StoreAction → Prop
  | .addJob now now_ns expression command =>
      (scheduler.addJob now now_ns expression command).isOk →
        Utf8.valid expression = true ∧ Kept command
  | .addOnce now now_ns delay command =>
      (scheduler.addOnce now now_ns delay command).isOk → Kept command
  | .updateJob now id patch => (scheduler.updateJob now id patch).2 = true → patch.Keeps
  | .pauseJob _ => True
  | .resumeJob _ => True
  | .tick runner now =>
      ∀ idx job, scheduler.jobs[idx]? = some job → Executes scheduler runner now idx job →
        ∀ result, runner.shell idx (commandToRun scheduler job) = some result →
          Utf8.valid result.stdout = true

/-- What every job satisfies in a run that takes in such texts only. -/
structure CronJob.Good (job : CronJob) : Prop where
  storable : job.Storable
  isShell : job.job_type = .shell
  failures : job.consecutive_failures ≤ maxU32
  burst : job.burst_count_in_window ≤ MAX_JOB_RUNS_PER_WINDOW

/-!
## Texts that the scheduler makes
-/

theorem isAscii_of_isDigit {value : UInt8} (digit : Bytes.isDigit value = true) :
    Utf8.isAscii value = true := by
  rw [Bytes.isDigit, Bool.and_eq_true, decide_eq_true_eq, decide_eq_true_eq] at digit
  exact decide_eq_true (UInt8.lt_of_le_of_lt digit.2 (by decide))

theorem kept_jobIdCandidate {kind : Bytes} (plain : kind.all Utf8.isAscii = true)
    (now_ns attempt : ℕ) : Kept (CronScheduler.jobIdCandidate kind now_ns attempt) := by
  have digits (number : ℕ) : (Bytes.decimal number).all Utf8.isAscii = true :=
    List.all_eq_true.mpr fun digit mem => isAscii_of_isDigit (Bytes.isDigit_of_mem_decimal digit mem)
  have dash : (ascii "-").all Utf8.isAscii = true := rfl
  constructor
  · simp [CronScheduler.jobIdCandidate, ascii]
  · refine Utf8.valid_of_isAscii ?_
    simp only [CronScheduler.jobIdCandidate, List.all_append, plain, dash, digits, Bool.and_self]

theorem kept_generateJobId {kind id : Bytes} (plain : kind.all Utf8.isAscii = true) {now_ns : ℕ}
    (generated : scheduler.generateJobId kind now_ns = .ok id) : Kept id := by
  have search : ∀ rounds attempt,
      scheduler.generateJobIdFrom kind now_ns rounds attempt = .ok id → Kept id := by
    intro rounds
    induction rounds with
    | zero => exact fun attempt found => by cases found
    | succ rounds ih =>
        intro attempt found
        rw [CronScheduler.generateJobIdFrom] at found
        split at found
        · exact ih _ found
        · exact Except.ok.inj found ▸ kept_jobIdCandidate plain now_ns attempt
  exact search _ _ generated

theorem isAscii_of_digitsValue {start value : ℕ} {text : Bytes}
    (parsed : Bytes.digitsValue start text = some value) : text.all Utf8.isAscii = true := by
  induction text generalizing start with
  | nil => rfl
  | cons letter rest ih =>
      rw [Bytes.digitsValue] at parsed
      rw [List.all_cons, Bool.and_eq_true]
      split at parsed
      case isTrue underscore => exact ⟨by rw [beq_iff_eq.mp underscore]; rfl, ih parsed⟩
      case isFalse =>
          split at parsed
          case isTrue digit => exact ⟨isAscii_of_isDigit digit, ih parsed⟩
          case isFalse => cases parsed

theorem isAscii_of_magnitude {value : ℕ} {text : Bytes}
    (parsed : Bytes.magnitude text = some value) : text.all Utf8.isAscii = true := by
  rw [Bytes.magnitude] at parsed
  split at parsed
  · cases parsed
  · exact isAscii_of_digitsValue parsed

theorem isAscii_of_parseInt {lowest highest value : ℤ} {text : Bytes}
    (parsed : Bytes.parseInt lowest highest text = some value) :
    text.all Utf8.isAscii = true := by
  cases text with
  | nil => rfl
  | cons sign rest =>
      rw [Bytes.parseInt, Option.filter_eq_some_iff] at parsed
      have parsed := parsed.1
      split at parsed
      case isTrue plus =>
          rcases Option.map_eq_some_iff.mp parsed with ⟨size, digits, _⟩
          rw [List.all_cons, beq_iff_eq.mp plus, isAscii_of_magnitude digits]
          rfl
      case isFalse =>
          split at parsed
          case isTrue minus =>
              rcases Option.map_eq_some_iff.mp parsed with ⟨size, digits, _⟩
              rw [List.all_cons, beq_iff_eq.mp minus, isAscii_of_magnitude digits]
              rfl
          case isFalse =>
              rcases Option.map_eq_some_iff.mp parsed with ⟨size, digits, _⟩
              exact isAscii_of_magnitude digits

theorem isAscii_of_trim {values text : Bytes} (plain : values.all Utf8.isAscii = true)
    (trimmed : (Bytes.trim values text).all Utf8.isAscii = true) :
    text.all Utf8.isAscii = true := by
  rw [List.all_eq_true] at plain trimmed ⊢
  intro value mem
  rcases Bytes.contains_or_mem_trim mem with blank | kept
  · exact plain value (List.contains_iff_mem.mp blank)
  · exact trimmed value kept

theorem isAscii_of_isAlphabetic {value : UInt8} (letter : Bytes.isAlphabetic value = true) :
    Utf8.isAscii value = true := by
  simp only [Bytes.isAlphabetic, Bool.or_eq_true, Bool.and_eq_true, decide_eq_true_eq] at letter
  rcases letter with ⟨_, below⟩ | ⟨_, below⟩ <;>
    exact decide_eq_true (UInt8.lt_of_le_of_lt below (by decide))

theorem isAscii_of_parseDuration {delay : Bytes} {seconds : ℤ}
    (parsed : parseDuration delay = .ok seconds) : delay.all Utf8.isAscii = true := by
  have blanks : expressionBlanks.all Utf8.isAscii = true := by decide
  have number {num_str : Bytes} {n : ℤ}
      (digits : Bytes.parseInt (-2 ^ 63) (2 ^ 63 - 1) (Bytes.trim (ascii " ") num_str) = some n) :
      num_str.all Utf8.isAscii = true := by
    have blank : (ascii " ").all Utf8.isAscii = true := rfl
    exact isAscii_of_trim blank (isAscii_of_parseInt digits)
  refine isAscii_of_trim blanks ?_
  simp only [parseDuration] at parsed
  split at parsed
  case h_1 => cases parsed
  case h_2 last found =>
      split at parsed
      case isTrue letter =>
          have front : (Bytes.trim expressionBlanks delay).dropLast.all Utf8.isAscii = true := by
            repeat' split at parsed
            case isFalse.isFalse.isFalse.isFalse.isFalse => cases parsed
            all_goals
              dsimp only [bind, Except.bind, pure, Except.pure] at parsed
              split at parsed
              case h_1 => cases parsed
              case h_2 digits => exact number digits
          rw [← List.dropLast_append_getLast? last found, List.all_append, front, List.all_cons,
            isAscii_of_isAlphabetic letter]
          rfl
      case isFalse =>
          dsimp only [bind, Except.bind, pure, Except.pure] at parsed
          split at parsed
          case h_1 => cases parsed
          case h_2 digits => exact number digits

/-!
## The operations
-/

theorem good_newJob {id expression command : Bytes} {next_run_secs created_at_s : ℤ}
    {one_shot : Bool} (keptId : Kept id) (keptExpression : Kept expression)
    (keptCommand : Kept command) :
    CronJob.Good { id, expression, command, next_run_secs, one_shot, created_at_s } where
  storable :=
    { id := keptId, expression := keptExpression, command := keptCommand
      prompt := nofun, name := nofun, model := nofun, last_output := nofun, channel := nofun
      «to» := nofun }
  isShell := rfl
  failures := Nat.zero_le _
  burst := Nat.zero_le _

theorem good_addJob {now_ns : ℕ} {expression command : Bytes} {next : CronScheduler}
    (good : ∀ job ∈ scheduler.jobs, job.Good) (valid : Utf8.valid expression = true)
    (kept : Kept command) (added : scheduler.addJob now now_ns expression command = .ok next) :
    ∀ job ∈ next.jobs, job.Good := by
  rw [CronScheduler.addJob] at added
  split at added
  case isTrue => cases added
  case isFalse =>
      cases normalized : normalizeExpression expression with
      | error failure =>
          rw [normalized] at added
          cases added
      | ok =>
      cases computed : nextRunForCronExpression expression now with
      | error failure =>
          rw [normalized, computed] at added
          cases added
      | ok next_run_secs =>
      cases generated : scheduler.generateJobId (ascii "job") now_ns with
      | error failure =>
          rw [normalized, computed, generated] at added
          cases added
      | ok id =>
          rw [normalized, computed, generated] at added
          have nonempty : expression ≠ [] := by
            rintro rfl
            cases normalized
          cases added
          intro job mem
          rcases List.mem_append.mp mem with old | new
          · exact good job old
          · rw [List.mem_singleton.mp new]
            exact good_newJob (kept_generateJobId (by decide) generated) ⟨nonempty, valid⟩ kept

theorem good_addOnce {now_ns : ℕ} {delay command : Bytes} {next : CronScheduler}
    (good : ∀ job ∈ scheduler.jobs, job.Good) (kept : Kept command)
    (added : scheduler.addOnce now now_ns delay command = .ok next) :
    ∀ job ∈ next.jobs, job.Good := by
  rw [CronScheduler.addOnce] at added
  split at added
  case isTrue => cases added
  case isFalse =>
      cases parsed : parseDuration delay with
      | error failure =>
          rw [parsed] at added
          cases added
      | ok delay_secs =>
      cases generated : scheduler.generateJobId (ascii "once") now_ns with
      | error failure =>
          rw [parsed, generated] at added
          cases added
      | ok id =>
          rw [parsed, generated] at added
          have expression : Kept (CronScheduler.onceExpression delay) := by
            rw [CronScheduler.onceExpression]
            split
            · refine ⟨by simp [ascii], Utf8.valid_of_isAscii ?_⟩
              rw [List.all_append, isAscii_of_parseDuration parsed]
              rfl
            · exact ⟨by decide, by decide⟩
          cases added
          intro job mem
          rcases List.mem_append.mp mem with old | new
          · exact good job old
          · rw [List.mem_singleton.mp new]
            exact good_newJob (kept_generateJobId (by decide) generated) expression kept

theorem good_modifyJob {id : Bytes} {change : CronJob → CronJob}
    (good : ∀ job ∈ jobs, job.Good) (keeps : ∀ job, job.Good → (change job).Good) :
    ∀ job ∈ CronScheduler.modifyJob id change jobs, job.Good := by
  induction jobs with
  | nil => exact good
  | cons first rest ih =>
      rw [CronScheduler.modifyJob]
      split
      · exact List.forall_mem_cons.mpr ⟨keeps first (good first (List.mem_cons_self ..)),
          fun job mem => good job (List.mem_cons_of_mem _ mem)⟩
      · exact List.forall_mem_cons.mpr ⟨good first (List.mem_cons_self ..),
          ih fun job mem => good job (List.mem_cons_of_mem _ mem)⟩

theorem good_applyPatchFields {patch : CronJobPatch} (keeps : patch.Keeps) (good : job.Good) :
    (CronScheduler.applyPatchFields patch job).Good := by
  have optional {new old : Option Bytes} (newKept : ∀ text ∈ new, Kept text)
      (oldKept : ∀ text ∈ old, Kept text) : ∀ text ∈ new.or old, Kept text := by
    cases new with
    | none => exact oldKept
    | some text => exact newKept
  have command : Kept (patch.command.getD job.command) := by
    cases given : patch.command with
    | none => exact good.storable.command
    | some text => exact keeps.command text given
  exact
    { storable :=
        { good.storable with
          command
          prompt := optional keeps.prompt good.storable.prompt
          name := optional keeps.name good.storable.name
          model := optional keeps.model good.storable.model }
      isShell := good.isShell
      failures := good.failures
      burst := good.burst }

theorem good_updateJob {id : Bytes} {patch : CronJobPatch}
    (good : ∀ job ∈ scheduler.jobs, job.Good)
    (keeps : (scheduler.updateJob now id patch).2 = true → patch.Keeps) :
    ∀ job ∈ (scheduler.updateJob now id patch).1.jobs, job.Good := by
  rw [CronScheduler.updateJob] at keeps ⊢
  cases found : scheduler.getJob id with
  | none => exact good
  | some first =>
  cases given : patch.expression with
  | none =>
      simp only [found, given] at keeps ⊢
      exact good_modifyJob good fun job => good_applyPatchFields (keeps trivial)
  | some expression =>
      simp only [found, given] at keeps ⊢
      cases computed : nextRunForCronExpression expression now with
      | error failure => exact good
      | ok next_run_secs =>
          simp only [computed] at keeps ⊢
          have nonempty : expression ≠ [] := by
            rintro rfl
            cases computed
          have kept : Kept expression := ⟨nonempty, (keeps trivial).expression expression given⟩
          refine good_modifyJob good fun job jobGood => good_applyPatchFields (keeps trivial) ?_
          exact
            { storable := { jobGood.storable with expression := kept }
              isShell := jobGood.isShell
              failures := jobGood.failures
              burst := jobGood.burst }

theorem good_pauseJob (good : ∀ job ∈ scheduler.jobs, job.Good) (id : Bytes) :
    ∀ job ∈ (scheduler.pauseJob id).1.jobs, job.Good := by
  rw [CronScheduler.pauseJob]
  split
  · exact good
  · split
    · exact good
    · exact good_modifyJob good fun job jobGood =>
        ⟨{ jobGood.storable with }, jobGood.isShell, jobGood.failures, jobGood.burst⟩

theorem good_resumeJob (good : ∀ job ∈ scheduler.jobs, job.Good) (id : Bytes) :
    ∀ job ∈ (scheduler.resumeJob id).1.jobs, job.Good := by
  rw [CronScheduler.resumeJob]
  split
  · exact good
  · split
    · exact good
    · exact good_modifyJob good fun job jobGood =>
        ⟨{ jobGood.storable with }, jobGood.isShell, jobGood.failures, jobGood.burst⟩

/-!
## A tick
-/

/-- The output of a finished shell is UTF-8 if the shell at this index printed some. -/
def Captured (scheduler : CronScheduler) (runner : JobRunner) (idx : ℕ) (job : CronJob) : Prop :=
  ∀ result, runner.shell idx (commandToRun scheduler job) = some result →
    Utf8.valid result.stdout = true

theorem good_noteJobFailure (good : job.Good) : (noteJobFailure job now).Good :=
  ⟨{ good.storable with }, good.isShell, Nat.min_le_right _ _, good.burst⟩

theorem good_noteJobResult (good : job.Good) (success : Bool) :
    (noteJobResult job now success).Good := by
  cases success with
  | true => exact ⟨{ good.storable with }, good.isShell, Nat.zero_le _, good.burst⟩
  | false => exact ⟨{ good.storable with }, good.isShell, Nat.min_le_right _ _, good.burst⟩

theorem good_runShell (good : job.Good)
    (captured : (runShell scheduler runner now idx job).2 = .executed →
      Captured scheduler runner idx job) :
    (runShell scheduler runner now idx job).1.Good := by
  rw [runShell] at captured ⊢
  split
  case isTrue =>
      have failed : (noteJobFailure job now).Good := good_noteJobFailure good
      exact ⟨{ failed.storable with }, failed.isShell, failed.failures, failed.burst⟩
  case isFalse allocated =>
      rw [if_neg allocated] at captured
      cases finished : runner.shell idx (commandToRun scheduler job) with
      | none =>
          have failed : (noteJobFailure job now).Good := good_noteJobFailure good
          exact ⟨{ failed.storable with last_output := nofun }, failed.isShell, failed.failures,
            failed.burst⟩
      | some result =>
          simp only [finished] at captured
          have valid := captured trivial result finished
          have settled : (noteJobResult job now (result.exitCode == some 0)).Good :=
            good_noteJobResult good _
          have output : ∀ text ∈ (if result.stdout.isEmpty then none else some result.stdout),
              Kept text := by
            intro text mem
            cases printed : result.stdout with
            | nil =>
                rw [printed] at mem
                cases mem
            | cons first rest =>
                rw [printed] at mem valid
                cases mem
                exact ⟨List.cons_ne_nil _ _, valid⟩
          exact ⟨{ settled.storable with last_output := output }, settled.isShell,
            settled.failures, settled.burst⟩

theorem good_visitCooled (good : job.Good)
    (captured : (visitCooled scheduler runner now idx job).2 = .executed →
      Captured scheduler runner idx job) :
    (visitCooled scheduler runner now idx job).1.Good := by
  have refreshed : (refreshBurstWindow { job with cooldown_until_secs := none } now).Good := by
    rw [refreshBurstWindow]
    split
    · exact ⟨{ good.storable with }, good.isShell, good.failures, Nat.zero_le _⟩
    · exact ⟨{ good.storable with }, good.isShell, good.failures, good.burst⟩
  have sameCommand : commandToRun scheduler
      (refreshBurstWindow { job with cooldown_until_secs := none } now) =
        commandToRun scheduler job := by
    rw [refreshBurstWindow]
    split <;> rfl
  rw [visitCooled] at captured ⊢
  generalize refreshBurstWindow { job with cooldown_until_secs := none } now = fresh at *
  split
  case isTrue =>
      exact ⟨{ refreshed.storable with }, refreshed.isShell, refreshed.failures, refreshed.burst⟩
  case isFalse belowLimit =>
      rw [if_neg belowLimit] at captured
      rw [runJob] at captured ⊢
      simp only [refreshed.isShell] at captured ⊢
      refine good_runShell ?_ fun executed result finished =>
        captured executed result (sameCommand ▸ finished)
      exact ⟨{ refreshed.storable with }, rfl, refreshed.failures, Nat.lt_of_not_le belowLimit⟩

theorem good_visitJob (good : job.Good)
    (captured : Executes scheduler runner now idx job → Captured scheduler runner idx job) :
    (visitJob scheduler runner now idx job).1.Good := by
  rw [Executes, visitJob] at captured
  rw [visitJob]
  split
  case isTrue => exact good
  case isFalse due =>
      rw [if_neg due] at captured
      cases cooldown : job.cooldown_until_secs with
      | none =>
          simp only [cooldown] at captured
          exact good_visitCooled good captured
      | some cooldown_until_secs =>
          simp only [cooldown] at captured ⊢
          split
          case isTrue => exact ⟨{ good.storable with }, good.isShell, good.failures, good.burst⟩
          case isFalse cooled =>
              rw [if_neg cooled] at captured
              exact good_visitCooled good captured

theorem good_settleExecuted (good : job.Good) (remove_indices : List ℕ) :
    (settleExecuted now idx remove_indices job).1.Good := by
  rw [settleExecuted]
  split
  · split
    · exact good
    · exact ⟨{ good.storable with }, good.isShell, good.failures, good.burst⟩
  · exact ⟨{ good.storable with }, good.isShell, good.failures, good.burst⟩

theorem good_tickJob (good : job.Good) (remove_indices : List ℕ)
    (captured : Executes scheduler runner now idx job → Captured scheduler runner idx job) :
    (tickJob scheduler runner now idx remove_indices job).1.Good := by
  have visited := good_visitJob good captured
  rw [tickJob]
  split
  case h_1 job' shape =>
      rw [shape] at visited
      exact good_settleExecuted visited _
  all_goals
    rename_i shape
    rw [shape] at visited
    exact visited

theorem good_tickFrom {remove_indices : List ℕ}
    (good : ∀ job ∈ jobs, job.Good)
    (captured : ∀ offset job, jobs[offset]? = some job →
      Executes scheduler runner now (idx + offset) job →
        Captured scheduler runner (idx + offset) job) :
    ∀ job ∈ (tickFrom scheduler runner now idx remove_indices jobs).1, job.Good := by
  induction jobs generalizing idx remove_indices with
  | nil => exact good
  | cons first rest ih =>
      have visited := good_tickJob (good first (List.mem_cons_self ..)) remove_indices
        (captured 0 first rfl)
      rw [tickFrom]
      refine List.forall_mem_cons.mpr ⟨visited, ih ?_ ?_⟩
      · exact fun job mem => good job (List.mem_cons_of_mem _ mem)
      · intro offset job found
        rw [Nat.add_assoc, Nat.add_comm 1 offset]
        exact captured (offset + 1) job found

theorem mem_of_mem_removeNoted {remove_indices : List ℕ}
    (mem : job ∈ removeNoted remove_indices jobs) : job ∈ jobs := by
  induction remove_indices with
  | nil => exact mem
  | cons index rest ih => exact ih (List.mem_of_mem_eraseIdx mem)

theorem good_tick (good : ∀ job ∈ scheduler.jobs, job.Good)
    (captured : KeepsTexts scheduler (.tick runner now)) :
    ∀ job ∈ (scheduler.tick runner now).1.jobs, job.Good := by
  intro job mem
  refine good_tickFrom good ?_ job (mem_of_mem_removeNoted mem)
  intro offset job found
  rw [Nat.zero_add]
  exact captured offset job found

/-!
## Every run
-/

def StoreInv (scheduler : CronScheduler) : Prop :=
  ∀ job ∈ scheduler.jobs, job.Good ∧ job.TimesFit

theorem storeInv_step {action : StoreAction} {next : CronScheduler} (inv : StoreInv scheduler)
    (keeps : KeepsTexts scheduler action) (stepped : storeMachine scheduler action = some next) :
    StoreInv next := by
  have good := fun job mem => (inv job mem).1
  rw [storeMachine] at stepped
  split at stepped
  case isFalse => cases stepped
  case isTrue fit =>
      cases stepped
      suffices goodAfter : ∀ job ∈ (afterAction scheduler action).jobs, job.Good from
        fun job mem => ⟨goodAfter job mem, fit job mem⟩
      cases action with
      | addJob now now_ns expression command =>
          rw [afterAction]
          cases added : scheduler.addJob now now_ns expression command with
          | error failure => exact good
          | ok next =>
              rw [KeepsTexts, added] at keeps
              exact good_addJob good (keeps rfl).1 (keeps rfl).2 added
      | addOnce now now_ns delay command =>
          rw [afterAction]
          cases added : scheduler.addOnce now now_ns delay command with
          | error failure => exact good
          | ok next =>
              rw [KeepsTexts, added] at keeps
              exact good_addOnce good (keeps rfl) added
      | updateJob now id patch => exact good_updateJob good keeps
      | pauseJob id => exact good_pauseJob good id
      | resumeJob id => exact good_resumeJob good id
      | tick runner now => exact good_tick good keeps

/-- In a run that takes in kept texts only, the saved jobs are always loaded as they are. -/
theorem jobs_persist_of_keepsTexts {initial : CronScheduler} {actions : List StoreAction}
    (empty : initial.jobs = [])
    (meets : Machine.Meets storeMachine KeepsTexts initial actions)
    (reached : Machine.run storeMachine initial actions = some scheduler) (clock : ℤ) :
    loadJobsWithPolicy [] scheduler.saveJobsToSlice .strict clock = .ok scheduler.jobs := by
  have initialInv : StoreInv initial := by
    intro job mem
    rw [empty] at mem
    cases mem
  have inv : StoreInv scheduler :=
    Machine.run_invariant_of_meets (fun _ _ _ => storeInv_step) initialInv meets reached
  refine (load_saveJobsToSlice_iff (fun job mem => ?_) clock).mpr fun job mem =>
    (inv job mem).1.storable
  rcases inv job mem with ⟨good, times⟩
  have bounded : MAX_JOB_RUNS_PER_WINDOW ≤ maxU32 := by decide
  exact ⟨times.1, times.2.1, times.2.2.1, good.failures, times.2.2.2.1, times.2.2.2.2,
    Nat.le_trans good.burst bounded⟩

/-- Add a delayed task, make it recurring, and run it when it is due. -/
def greetingRun : List StoreAction :=
  [.addOnce 0 0 (ascii "5m") (ascii "echo hi"),
    .updateJob 0 (ascii "once-0-0") { delete_after_run := some false },
    .tick
      { commandAllocated := fun _ => true
        shell := fun _ _ => some { exitCode := some 0, stdout := ascii "hi" }
        agent := none
        messageAllocated := fun _ => true } 300]

/-- A delayed task is added, made recurring and run once; its shell prints a greeting. -/
theorem jobs_persist_greetingRun :
    ∃ scheduler, Machine.run storeMachine { max_tasks := 1 } greetingRun = some scheduler ∧
      loadJobsWithPolicy [] scheduler.saveJobsToSlice .strict 0 = .ok scheduler.jobs := by
  have meets : Machine.Meets storeMachine KeepsTexts { max_tasks := 1 } greetingRun := by
    refine .cons (fun _ => ⟨by decide, by decide⟩) rfl (.cons (fun _ => ?_) rfl (.cons ?_ rfl trivial))
    · exact ⟨nofun, nofun, nofun, nofun, nofun⟩
    · intro idx job _ _ result printed
      cases printed
      decide
  exact ⟨_, rfl, jobs_persist_of_keepsTexts rfl meets rfl 0⟩

/-- A job with an empty command is accepted and saved, but not loaded. -/
theorem not_jobs_persist :
    ¬ ∀ (initial scheduler : CronScheduler) (actions : List StoreAction) (clock : ℤ),
      initial.jobs = [] → Machine.run storeMachine initial actions = some scheduler →
        loadJobsWithPolicy [] scheduler.saveJobsToSlice .strict clock = .ok scheduler.jobs := by
  intro persist
  have ran : ∃ scheduler job, Machine.run storeMachine { max_tasks := 1 }
      [.addOnce 0 0 (ascii "5m") []] = some scheduler ∧ scheduler.jobs = [job] ∧
        job.Fits ∧ job.command = [] :=
    ⟨_, _, rfl, rfl, ⟨by decide, nofun, by decide, by decide, nofun, by decide, by decide⟩, rfl⟩
  rcases ran with ⟨scheduler, job, reached, jobs, fits, empty⟩
  have storable := (load_saveJobsToSlice_iff (by simpa [jobs] using fits) 0).mp
    (persist _ _ _ 0 rfl reached) job (jobs ▸ List.mem_cons_self)
  exact storable.command.1 empty

end Nullalis.Cron
