import Mathlib.Data.List.ReduceOption
import Nullalis.Cron.Tick

/-!
# Progress of the scheduler

After a tick no job that is still there and not paused is due at the same time, so a
scheduler never fires a job in a tight loop. The argument follows the loop: each visit
either leaves the job not due or reports an execution, and settling an execution removes
the job, pauses it or moves it to its next run.

Removal happens after the loop and by index. `tickFates` is what the loop decides for
each job, and `removeNoted_tickFrom` says that the removal carries out just that.
-/

namespace Nullalis.Cron

variable {scheduler : CronScheduler} {runner : JobRunner} {now : ℤ} {idx : ℕ}
  {job : CronJob} {jobs : List CronJob} {remove_indices : List ℕ}

/-- What a job is, as opposed to how its runs went. -/
def CronJob.task (job : CronJob) : Bytes × Bytes × Bytes :=
  (job.id, job.expression, job.command)

/-- What a visit must leave alone: the task, whether it runs once, and whether it is paused. -/
def CronJob.frame (job : CronJob) : (Bytes × Bytes × Bytes) × Bool × Bool :=
  (job.task, job.once, job.paused)

/-- The job is not run by a tick at `now`. -/
def CronJob.NotDue (job : CronJob) (now : ℤ) : Prop :=
  job.paused ∨ now < job.next_run_secs

/-- The visit of the job at `idx` runs it: its shell was started, or its agent turn. -/
def Executes (scheduler : CronScheduler) (runner : JobRunner) (now : ℤ) (idx : ℕ)
    (job : CronJob) : Prop :=
  (visitJob scheduler runner now idx job).2 = .executed

/-!
## Visits keep the frame
-/

@[simp]
theorem frame_postponeFailed : (postponeFailed job now).frame = job.frame := rfl

@[simp]
theorem frame_noteJobResult {success : Bool} :
    (noteJobResult job now success).frame = job.frame := by
  cases success <;> rfl

@[simp]
theorem frame_refreshBurstWindow : (refreshBurstWindow job now).frame = job.frame := by
  unfold refreshBurstWindow
  split <;> rfl

@[simp]
theorem cooldown_refreshBurstWindow :
    (refreshBurstWindow job now).cooldown_until_secs = job.cooldown_until_secs := by
  unfold refreshBurstWindow
  split <;> rfl

@[simp]
theorem frame_runShell : (runShell scheduler runner now idx job).1.frame = job.frame := by
  unfold runShell
  split
  · exact frame_postponeFailed
  · split
    · exact frame_postponeFailed
    · exact frame_noteJobResult

@[simp]
theorem frame_runAgent : (runAgent runner now idx job).1.frame = job.frame :=
  frame_noteJobResult

@[simp]
theorem frame_runJob : (runJob scheduler runner now idx job).1.frame = job.frame := by
  unfold runJob
  split
  · exact frame_runShell
  · exact frame_runAgent

@[simp]
theorem frame_visitCooled : (visitCooled scheduler runner now idx job).1.frame = job.frame := by
  have refreshed : (refreshBurstWindow { job with cooldown_until_secs := none } now).frame =
      job.frame := frame_refreshBurstWindow
  simp only [visitCooled]
  split
  · exact refreshed
  · exact .trans frame_runJob refreshed

theorem frame_visitJob (scheduler : CronScheduler) (runner : JobRunner) (now : ℤ) (idx : ℕ)
    (job : CronJob) : (visitJob scheduler runner now idx job).1.frame = job.frame := by
  unfold visitJob
  split
  · rfl
  · split
    · exact frame_visitCooled
    · split
      · rfl
      · exact frame_visitCooled

/-!
## A visit that runs nothing leaves the job not due
-/

theorem notDue_postponeFailed (cooled : job.cooldown_until_secs = none) :
    (postponeFailed job now).NotDue now := by
  right
  simp only [postponeFailed, noteJobFailure, cooled]
  split
  · simp only [Option.getD_some, FAILURE_COOLDOWN_SECS]
    omega
  · simp only [Option.getD_none, BLOCKED_RETRY_DELAY_SECS]
    omega

theorem notDue_runShell (cooled : job.cooldown_until_secs = none)
    (notRun : (runShell scheduler runner now idx job).2 ≠ .executed) :
    (runShell scheduler runner now idx job).1.NotDue now := by
  unfold runShell at notRun ⊢
  split at notRun
  case isTrue failed =>
      rw [if_pos failed]
      exact notDue_postponeFailed cooled
  case isFalse allocated =>
      rw [if_neg allocated]
      split at notRun
      case h_1 =>
          exact notDue_postponeFailed cooled
      case h_2 => exact absurd rfl notRun

theorem notDue_runJob (cooled : job.cooldown_until_secs = none)
    (notRun : (runJob scheduler runner now idx job).2 ≠ .executed) :
    (runJob scheduler runner now idx job).1.NotDue now := by
  unfold runJob at notRun ⊢
  split
  case h_1 isShell =>
      rw [isShell] at notRun
      exact notDue_runShell cooled notRun
  case h_2 isAgent =>
      rw [isAgent] at notRun
      exact absurd rfl notRun

theorem notDue_visitCooled
    (notRun : (visitCooled scheduler runner now idx job).2 ≠ .executed) :
    (visitCooled scheduler runner now idx job).1.NotDue now := by
  simp only [visitCooled] at notRun ⊢
  split
  case isTrue =>
      right
      simp only [BLOCKED_RETRY_DELAY_SECS]
      omega
  case isFalse belowLimit =>
      rw [if_neg belowLimit] at notRun
      exact notDue_runJob (by simp) notRun

theorem notDue_visitJob (notRun : ¬ Executes scheduler runner now idx job) :
    (visitJob scheduler runner now idx job).1.NotDue now := by
  unfold Executes visitJob at notRun
  unfold visitJob
  split
  case isTrue notDue => simpa [CronJob.NotDue] using notDue
  case isFalse due =>
      rw [if_neg due] at notRun
      split
      case h_1 noCooldown =>
          simp only [noCooldown] at notRun
          exact notDue_visitCooled notRun
      case h_2 cooldown_until_secs hasCooldown =>
          simp only [hasCooldown] at notRun
          split
          case isTrue cooling => exact .inr cooling
          case isFalse cooled =>
              rw [if_neg cooled] at notRun
              exact notDue_visitCooled notRun

theorem visitJob_of_notDue (notDue : job.NotDue now) :
    visitJob scheduler runner now idx job = (job, .notDue) :=
  if_pos notDue

/-!
## What the loop decides for a job
-/

theorem task_settleExecuted : (settleExecuted now idx remove_indices job).1.task = job.task := by
  unfold settleExecuted
  split
  · split <;> rfl
  · rfl

theorem settleExecuted_kept (kept : (settleExecuted now idx remove_indices job).2 = remove_indices) :
    (settleExecuted now idx remove_indices job).1.NotDue now ∧
      (job.once → (settleExecuted now idx remove_indices job).1.paused) := by
  unfold settleExecuted at kept ⊢
  split
  case isTrue isOnce =>
      rw [if_pos isOnce] at kept
      split
      case isTrue free => simp [if_pos free] at kept
      case isFalse => exact ⟨.inl rfl, fun _ => rfl⟩
  case isFalse recurring =>
      refine ⟨.inr ?_, fun isOnce => absurd isOnce recurring⟩
      dsimp only
      split
      case h_1 next computed => exact lt_of_nextRunForCronExpression computed
      case h_2 => exact Int.lt_add_of_pos_right now (by decide)

theorem settleExecuted_noted (now : ℤ) (idx : ℕ) (remove_indices : List ℕ) (job : CronJob) :
    (settleExecuted now idx remove_indices job).2 = remove_indices ∨
      ((settleExecuted now idx remove_indices job).2 = remove_indices ++ [idx] ∧ job.once) := by
  unfold settleExecuted
  split
  case isTrue isOnce =>
      split
      case isTrue => exact .inr ⟨rfl, isOnce⟩
      case isFalse => exact .inl rfl
  case isFalse => exact .inl rfl

theorem tickJob_of_executes (executes : Executes scheduler runner now idx job) :
    tickJob scheduler runner now idx remove_indices job =
      ((settleExecuted now idx remove_indices (visitJob scheduler runner now idx job).1).1,
        (settleExecuted now idx remove_indices (visitJob scheduler runner now idx job).1).2,
        true) := by
  unfold Executes at executes
  unfold tickJob
  split <;> simp_all

theorem tickJob_of_not_executes (notRun : ¬ Executes scheduler runner now idx job) :
    tickJob scheduler runner now idx remove_indices job =
      ((visitJob scheduler runner now idx job).1, remove_indices,
        (visitJob scheduler runner now idx job).2 != .notDue) := by
  unfold Executes at notRun
  unfold tickJob
  split <;> simp_all

/-- What the loop owes to a job that it keeps. -/
structure KeptBy (scheduler : CronScheduler) (runner : JobRunner) (now : ℤ) (idx : ℕ)
    (job kept : CronJob) : Prop where
  task : kept.task = job.task
  notDue : kept.NotDue now
  paused : Executes scheduler runner now idx job → job.once → kept.paused

theorem tickJob_fate (scheduler : CronScheduler) (runner : JobRunner) (now : ℤ) (idx : ℕ)
    (remove_indices : List ℕ) (job : CronJob) :
    ((tickJob scheduler runner now idx remove_indices job).2.1 = remove_indices ∧
      KeptBy scheduler runner now idx job
        (tickJob scheduler runner now idx remove_indices job).1) ∨
    ((tickJob scheduler runner now idx remove_indices job).2.1 = remove_indices ++ [idx] ∧
      Executes scheduler runner now idx job ∧ job.once) := by
  have frame := frame_visitJob scheduler runner now idx job
  simp only [CronJob.frame, Prod.mk.injEq] at frame
  rcases frame with ⟨sameTask, sameOnce, -⟩
  by_cases executes : Executes scheduler runner now idx job
  · rw [tickJob_of_executes executes]
    rcases settleExecuted_noted now idx remove_indices (visitJob scheduler runner now idx job).1
      with kept | ⟨noted, isOnce⟩
    · rcases settleExecuted_kept kept with ⟨notDue, paused⟩
      exact .inl ⟨kept, task_settleExecuted.trans sameTask, notDue,
        fun _ isOnce => paused (sameOnce ▸ isOnce)⟩
    · exact .inr ⟨noted, executes, sameOnce ▸ isOnce⟩
  · rw [tickJob_of_not_executes executes]
    exact .inl ⟨rfl, sameTask, notDue_visitJob executes, fun executed => absurd executed executes⟩

/-- The jobs after the loop, with none in the place of a job that is to be removed. -/
def tickFates (scheduler : CronScheduler) (runner : JobRunner) (now : ℤ) :
    ℕ → List ℕ → List CronJob → List (Option CronJob)
  | _, _, [] => []
  | idx, remove_indices, job :: rest =>
      let (kept, noted, _) := tickJob scheduler runner now idx remove_indices job
      (if noted = remove_indices then some kept else none) ::
        tickFates scheduler runner now (idx + 1) noted rest

/-- The fate of one job: removed after its only execution, or kept as the loop must. -/
def Fate (scheduler : CronScheduler) (runner : JobRunner) (now : ℤ) (idx : ℕ) (job : CronJob) :
    Option CronJob → Prop
  | none => Executes scheduler runner now idx job ∧ job.once
  | some kept => KeptBy scheduler runner now idx job kept

@[simp]
theorem length_tickFates :
    (tickFates scheduler runner now idx remove_indices jobs).length = jobs.length := by
  induction jobs generalizing idx remove_indices with
  | nil => rfl
  | cons job rest ih => simp [tickFates, ih]

theorem tickFates_spec (scheduler : CronScheduler) (runner : JobRunner) (now : ℤ) (idx : ℕ)
    (remove_indices : List ℕ) (position : ℕ) (present : jobs[position]? = some job) :
    ∃ fate, (tickFates scheduler runner now idx remove_indices jobs)[position]? = some fate ∧
      Fate scheduler runner now (idx + position) job fate := by
  induction jobs generalizing idx remove_indices position with
  | nil => simp at present
  | cons first rest ih =>
      cases position with
      | zero =>
          obtain rfl : first = job := by simpa using present
          simp only [tickFates, List.getElem?_cons_zero, Option.some.injEq, exists_eq_left',
            Nat.add_zero]
          rcases tickJob_fate scheduler runner now idx remove_indices first with
            ⟨kept, keptBy⟩ | ⟨noted, executed⟩
          · rw [if_pos kept]
            exact keptBy
          · rw [noted, if_neg (by simp)]
            exact executed
      | succ position =>
          rw [List.getElem?_cons_succ] at present
          have later := ih (idx + 1) (tickJob scheduler runner now idx remove_indices first).2.1
            position present
          rwa [show idx + 1 + position = idx + (position + 1) by omega] at later

theorem removeNoted_tickFrom (scheduler : CronScheduler) (runner : JobRunner) (now : ℤ) (idx : ℕ)
    (remove_indices : List ℕ) (jobs front : List CronJob) (frontLength : front.length = idx) :
    ∃ noted, (tickFrom scheduler runner now idx remove_indices jobs).2.1 =
        remove_indices ++ noted ∧
      removeNoted noted (front ++ (tickFrom scheduler runner now idx remove_indices jobs).1) =
        front ++ (tickFates scheduler runner now idx remove_indices jobs).reduceOption := by
  induction jobs generalizing idx remove_indices front with
  | nil => exact ⟨[], by simp [tickFrom], by simp [tickFrom, tickFates, removeNoted]⟩
  | cons job rest ih =>
      simp only [tickFrom, tickFates]
      generalize stepped : tickJob scheduler runner now idx remove_indices job = next
      rcases next with ⟨kept, noted, changed⟩
      rcases ih (idx + 1) noted (front ++ [kept]) (by simp [frontLength]) with ⟨later, laterNoted, laterKept⟩
      rw [List.append_assoc, List.append_assoc, List.singleton_append,
        List.singleton_append] at laterKept
      rcases tickJob_fate scheduler runner now idx remove_indices job with
        ⟨same, -⟩ | ⟨added, -⟩
      · simp only [stepped] at same
        refine ⟨later, by rw [laterNoted, same], ?_⟩
        rw [if_pos same, List.reduceOption_cons_of_some]
        exact laterKept
      · simp only [stepped] at added
        refine ⟨idx :: later, by rw [laterNoted, added]; simp, ?_⟩
        rw [added, if_neg (by simp), List.reduceOption_cons_of_none, ← added]
        simp only [removeNoted, List.foldr_cons] at laterKept ⊢
        rw [laterKept, List.eraseIdx_append_of_length_le (Nat.le_of_eq frontLength), frontLength,
          Nat.sub_self, List.eraseIdx_cons_zero]

theorem jobs_tick :
    (scheduler.tick runner now).1.jobs =
      (tickFates scheduler runner now 0 [] scheduler.jobs).reduceOption := by
  rcases removeNoted_tickFrom scheduler runner now 0 [] scheduler.jobs [] rfl with
    ⟨noted, isNoted, removed⟩
  rw [List.nil_append] at isNoted
  rw [← isNoted] at removed
  exact removed

theorem tickFrom_of_notDue (notDue : ∀ job ∈ jobs, job.NotDue now) :
    tickFrom scheduler runner now idx remove_indices jobs = (jobs, remove_indices, false) := by
  induction jobs generalizing idx with
  | nil => rfl
  | cons job rest ih =>
      have first : tickJob scheduler runner now idx remove_indices job =
          (job, remove_indices, false) := by
        rw [tickJob, visitJob_of_notDue (notDue job (by simp))]
      simp only [tickFrom, first, ih fun job member => notDue job (by simp [member]),
        Bool.or_self]

theorem tick_of_notDue (notDue : ∀ job ∈ scheduler.jobs, job.NotDue now) :
    scheduler.tick runner now = (scheduler, false) := by
  simp only [CronScheduler.tick, tickFrom_of_notDue notDue, removeNoted, List.foldr_nil]

theorem notDue_of_mem_tick (member : job ∈ (scheduler.tick runner now).1.jobs) :
    job.NotDue now := by
  rw [jobs_tick, List.reduceOption_mem_iff] at member
  rcases List.getElem?_of_mem member with ⟨position, found⟩
  have inside : position < scheduler.jobs.length := by
    have := (List.getElem?_eq_some_iff.mp found).1
    simpa using this
  rcases tickFates_spec scheduler runner now 0 [] position (List.getElem?_eq_getElem inside)
    with ⟨fate, found', meets⟩
  rw [found, Option.some.injEq] at found'
  subst found'
  exact meets.notDue

end Nullalis.Cron
