import Nullalis.Base.HashMap
import Nullalis.Cron.Persistence

/-!
# The daemon and the store

The daemon ticks on a copy of the jobs while tools edit the store. What a tick changed in five
fields of a job is merged into the store; its other notes are lost when the jobs are read again.
-/

namespace Nullalis.Cron

structure SchedulerJobSnapshot where
  next_run_secs : ℤ
  last_run_secs : Option ℤ
  last_status : Option JobStatus
  paused : Bool
  one_shot : Bool
deriving DecidableEq

def CronJob.snapshot (job : CronJob) : SchedulerJobSnapshot where
  next_run_secs := job.next_run_secs
  last_run_secs := job.last_run_secs
  last_status := job.last_status
  paused := job.paused
  one_shot := job.one_shot

def buildSchedulerSnapshot (scheduler : CronScheduler) : HashMap Bytes SchedulerJobSnapshot :=
  scheduler.jobs.foldl (fun snapshot job => snapshot.put job.id job.snapshot) []

def schedulerJobChanged (job : CronJob) (snapshot : SchedulerJobSnapshot) : Bool :=
  job.snapshot != snapshot

/-- Remove the first job that carries `id`. -/
def CronScheduler.removeJob (scheduler : CronScheduler) (id : Bytes) : CronScheduler :=
  { scheduler with jobs := scheduler.jobs.eraseP (·.id == id) }

open CronScheduler (modifyJob)

/-- Take over what the tick changed in a job. -/
def CronJob.takeOver (runtime_job dst : CronJob) : CronJob :=
  { dst with
    next_run_secs := runtime_job.next_run_secs
    last_run_secs := runtime_job.last_run_secs
    last_status := runtime_job.last_status
    paused := runtime_job.paused
    one_shot := runtime_job.one_shot }

/-- A job that the store does not have any more. -/
def CronJob.restored (runtime_job : CronJob) : CronJob :=
  runtime_job.takeOver
    { id := runtime_job.id, expression := runtime_job.expression, command := runtime_job.command }

def upsertSchedulerRuntimeJob (latest : CronScheduler) (runtime_job : CronJob) : CronScheduler :=
  match latest.getJob runtime_job.id with
  | some _ =>
      { latest with jobs := modifyJob runtime_job.id runtime_job.takeOver latest.jobs }
  | none => { latest with jobs := latest.jobs ++ [runtime_job.restored] }

/-- Merge what a tick changed into the jobs of the store. -/
def mergeSchedulerTickChanges (latest runtime : CronScheduler)
    (before_tick : HashMap Bytes SchedulerJobSnapshot) : CronScheduler :=
  let latest := runtime.jobs.foldl (fun latest job =>
    if (before_tick.get job.id).any (!schedulerJobChanged job ·) then latest
    else upsertSchedulerRuntimeJob latest job) latest
  before_tick.keys.foldl (fun latest id =>
    if (runtime.getJob id).isSome then latest else latest.removeJob id) latest

/-!
## What is merged
-/

variable {latest runtime scheduler : CronScheduler} {id other : Bytes} {job : CronJob}
  {jobs : List CronJob}

def CronScheduler.Distinct (scheduler : CronScheduler) : Prop :=
  (scheduler.jobs.map CronJob.id).Nodup

/-- What becomes of one job: what the tick changed goes into the job as the store has it, what the
tick removed is removed, and any other job stays as the store has it. -/
def mergedJob (before : Option SchedulerJobSnapshot) (runtime latest : Option CronJob) :
    Option CronJob :=
  match runtime with
  | none => if before.isSome then none else latest
  | some job =>
      if before = some job.snapshot then latest
      else some (latest.elim job.restored job.takeOver)

theorem getJob_modifyJob :
    (modifyJob id job.takeOver jobs).find? (·.id == other) =
      if id = other then (jobs.find? (·.id == other)).map job.takeOver
      else jobs.find? (·.id == other) := by
  induction jobs with
  | nil => simp [modifyJob]
  | cons first rest ih =>
      rw [modifyJob]
      by_cases here : first.id = id
      · by_cases same : id = other <;> simp [here, same, CronJob.takeOver]
      · rw [if_neg here, List.find?_cons, List.find?_cons, ih]
        by_cases same : first.id = other
        · simp [same, Ne.symm (same ▸ here)]
        · simp only [beq_false_of_ne same]

theorem map_modifyJob {View : Type} {view : CronJob → View} {change : CronJob → CronJob}
    (keeps : ∀ job, view (change job) = view job) :
    (modifyJob id change jobs).map view = jobs.map view := by
  induction jobs with
  | nil => rfl
  | cons first rest ih =>
      rw [modifyJob]
      split
      · rw [List.map_cons, keeps, List.map_cons]
      · rw [List.map_cons, ih, List.map_cons]

theorem getJob_upsert : (upsertSchedulerRuntimeJob latest job).getJob other =
    if job.id = other then some ((latest.getJob other).elim job.restored job.takeOver)
    else latest.getJob other := by
  rw [upsertSchedulerRuntimeJob]
  split
  case h_1 dst found =>
      refine .trans getJob_modifyJob ?_
      split_ifs with same
      · rw [← CronScheduler.getJob, ← same, found]
        rfl
      · rfl
  case h_2 absent =>
      rw [CronScheduler.getJob, List.find?_append, ← CronScheduler.getJob]
      by_cases same : job.id = other
      · rw [if_pos same, ← same, absent]
        simp [CronJob.restored, CronJob.takeOver]
      · simp [same, CronJob.restored, CronJob.takeOver]

theorem getJob_removeJob (distinct : scheduler.Distinct) : (scheduler.removeJob id).getJob other =
    if id = other then none else scheduler.getJob other := by
  obtain ⟨jobs⟩ := scheduler
  simp only [CronScheduler.removeJob, CronScheduler.getJob]
  rw [CronScheduler.Distinct] at distinct
  induction jobs with
  | nil => simp
  | cons first rest ih =>
      rw [List.map_cons, List.nodup_cons] at distinct
      by_cases here : first.id = id
      · rw [List.eraseP_cons_of_pos (by simpa using here)]
        split_ifs with same
        · rw [List.find?_eq_none]
          intro old mem equal
          exact distinct.1 (List.mem_map.mpr ⟨old, mem, by rw [eq_of_beq equal, here, same]⟩)
        · simp [here, same]
      · rw [List.eraseP_cons_of_neg (by simpa using here), List.find?_cons, List.find?_cons,
          ih distinct.2]
        by_cases same : first.id = other
        · simp [same, Ne.symm (same ▸ here)]
        · simp only [beq_false_of_ne same]

theorem getJob_eq : scheduler.getJob id = scheduler.jobs.find? fun job => job.id = id := by
  simp [CronScheduler.getJob, beq_eq_decide]

theorem buildSchedulerSnapshot_spec (distinct : scheduler.Distinct) :
    (buildSchedulerSnapshot scheduler).keys.Nodup ∧ ∀ id,
      (buildSchedulerSnapshot scheduler).get id = (scheduler.getJob id).map CronJob.snapshot := by
  have folded := HashMap.view_foldl
    (fun (snapshot : HashMap Bytes SchedulerJobSnapshot) job => snapshot.put job.id job.snapshot)
    HashMap.get CronJob.id (fun job _ => some job.snapshot) (fun snapshot => snapshot.keys.Nodup)
    (fun _ _ nodup => by
      rw [HashMap.keys_put]
      exact HashMap.nodup_insert nodup)
    (fun _ job key _ => by simp only [HashMap.get_put, eq_comm]) distinct
    (show (HashMap.keys []).Nodup from List.nodup_nil)
  refine ⟨folded.1, fun id => ?_⟩
  rw [buildSchedulerSnapshot, folded.2, getJob_eq]
  cases scheduler.jobs.find? fun job => job.id = id <;> rfl

/-- What ticks note of a job's failures, its bursts and its output. -/
def CronJob.noted (job : CronJob) : ℕ × Option ℤ × ℤ × ℕ × Option Bytes :=
  (job.consecutive_failures, job.cooldown_until_secs, job.burst_window_start_secs,
    job.burst_count_in_window, job.last_output)

/-- No two jobs share an id, and nothing is noted of any. -/
structure CronScheduler.Clean (scheduler : CronScheduler) : Prop where
  distinct : scheduler.Distinct
  unnoted : ∀ noted ∈ scheduler.jobs.map CronJob.noted, noted = (0, none, 0, 0, none)

namespace CronScheduler.Clean

theorem modify (clean : scheduler.Clean) {change : CronJob → CronJob}
    (keeps : ∀ job, (change job).id = job.id ∧ (change job).noted = job.noted) :
    { scheduler with jobs := modifyJob id change scheduler.jobs }.Clean where
  distinct := by
    rw [Distinct, map_modifyJob fun job => (keeps job).1]
    exact clean.distinct
  unnoted := by
    rw [map_modifyJob fun job => (keeps job).2]
    exact clean.unnoted

theorem append (clean : scheduler.Clean) (absent : scheduler.getJob job.id = none)
    (unnoted : job.noted = (0, none, 0, 0, none)) :
    { scheduler with jobs := scheduler.jobs ++ [job] }.Clean where
  distinct := by
    rw [getJob, List.find?_eq_none] at absent
    rw [Distinct, List.map_append]
    refine List.nodup_append'.mpr ⟨clean.distinct, List.nodup_singleton _, ?_⟩
    rw [List.map_singleton, List.disjoint_singleton, List.mem_map]
    rintro ⟨old, mem, same⟩
    exact absent old mem (beq_iff_eq.mpr same)
  unnoted := by
    intro noted mem
    rw [List.map_append, List.mem_append, List.map_singleton, List.mem_singleton] at mem
    rcases mem with mem | rfl
    · exact clean.unnoted noted mem
    · exact unnoted

theorem removeJob (clean : scheduler.Clean) (id : Bytes) : (scheduler.removeJob id).Clean where
  distinct := clean.distinct.sublist (List.eraseP_sublist.map _)
  unnoted noted mem := clean.unnoted noted ((List.eraseP_sublist.map _).mem mem)

theorem upsert (clean : latest.Clean) : (upsertSchedulerRuntimeJob latest job).Clean := by
  rw [upsertSchedulerRuntimeJob]
  split
  · exact clean.modify fun _ => ⟨rfl, rfl⟩
  · exact clean.append ‹_› rfl

end CronScheduler.Clean

/-- The merge treats every job by itself. -/
theorem merge_spec {before_tick : HashMap Bytes SchedulerJobSnapshot} (clean : latest.Clean)
    (distinct : runtime.Distinct) (keys_nodup : before_tick.keys.Nodup) :
    (mergeSchedulerTickChanges latest runtime before_tick).Clean ∧ ∀ id,
      (mergeSchedulerTickChanges latest runtime before_tick).getJob id =
        mergedJob (before_tick.get id) (runtime.getJob id) (latest.getJob id) := by
  have upserted := HashMap.view_foldl
    (fun latest job =>
      if (before_tick.get job.id).any (!schedulerJobChanged job ·) then latest
      else upsertSchedulerRuntimeJob latest job)
    CronScheduler.getJob CronJob.id
    (fun job old => if before_tick.get job.id = some job.snapshot then old
      else some (old.elim job.restored job.takeOver))
    CronScheduler.Clean
    (fun _ _ clean => by
      split
      · exact clean
      · exact clean.upsert)
    (fun _ job _ _ => by
      have unchanged : (before_tick.get job.id).any (!schedulerJobChanged job ·) = true ↔
          before_tick.get job.id = some job.snapshot := by
        cases before_tick.get job.id <;> simp [schedulerJobChanged, @eq_comm _ job.snapshot]
      simp only [unchanged]
      split_ifs
      · rfl
      · rfl
      · rw [getJob_upsert, if_pos ‹_›]
      · rw [getJob_upsert, if_neg ‹_›])
    distinct clean
  have removed := HashMap.view_foldl
    (fun latest id => if (runtime.getJob id).isSome then latest else latest.removeJob id)
    CronScheduler.getJob (fun id => id)
    (fun id old => if (runtime.getJob id).isSome then old else none)
    CronScheduler.Clean
    (fun _ id clean => by
      split
      · exact clean
      · exact clean.removeJob id)
    (fun _ _ _ clean => by
      split_ifs
      · rfl
      · rfl
      · rw [getJob_removeJob clean.distinct, if_pos ‹_›]
      · rw [getJob_removeJob clean.distinct, if_neg ‹_›])
    (by simpa using keys_nodup) upserted.1
  refine ⟨removed.1, fun id => ?_⟩
  rw [mergeSchedulerTickChanges, removed.2, upserted.2, ← getJob_eq]
  have listed : (before_tick.keys.find? fun other => other = id).isSome =
      (before_tick.get id).isSome := by
    rw [Bool.eq_iff_iff, HashMap.isSome_get_iff]
    simp
  have same {job : CronJob} (held : runtime.getJob id = some job) : job.id = id := by
    rw [getJob_eq] at held
    simpa using List.find?_some held
  cases keep : before_tick.keys.find? fun other => other = id with
  | none =>
      rw [keep, Option.isSome_none] at listed
      cases held : runtime.getJob id with
      | none => simp [mergedJob, ← listed]
      | some job => simp only [Option.elim, mergedJob, same held]
  | some found =>
      obtain rfl : found = id := by simpa using List.find?_some keep
      rw [keep, Option.isSome_some] at listed
      cases held : runtime.getJob found with
      | none => simp [mergedJob, ← listed, held]
      | some job => simp only [Option.elim, held, mergedJob, same held, Option.isSome_some, if_true]

/-!
## Edits and ticks
-/

theorem fresh_generateJobId {kind : Bytes} {now_ns : ℕ}
    (generated : scheduler.generateJobId kind now_ns = .ok id) : scheduler.getJob id = none := by
  have search (rounds attempt : ℕ)
      (found : scheduler.generateJobIdFrom kind now_ns rounds attempt = .ok id) :
      scheduler.hasJobId id = false := by
    induction rounds generalizing attempt with
    | zero => cases found
    | succ rounds ih =>
        rw [CronScheduler.generateJobIdFrom] at found
        split at found
        · exact ih _ found
        · cases found
          exact eq_false_of_ne_true ‹_›
  simpa [CronScheduler.hasJobId, CronScheduler.getJob] using search _ _ generated

theorem CronScheduler.Clean.edit (clean : scheduler.Clean) {action : StoreAction}
    (isEdit : ∀ runner now, action ≠ .tick runner now) : (afterAction scheduler action).Clean := by
  cases action with
  | addJob now now_ns expression command =>
      rw [afterAction]
      cases added : scheduler.addJob now now_ns expression command with
      | error => exact clean
      | ok next =>
          simp only [CronScheduler.addJob, bind, Except.bind, pure, Except.pure] at added
          iterate 4
            split at added
            · cases added
          cases added
          exact clean.append (fresh_generateJobId ‹_›) rfl
  | addOnce now now_ns delay command =>
      rw [afterAction]
      cases added : scheduler.addOnce now now_ns delay command with
      | error => exact clean
      | ok next =>
          simp only [CronScheduler.addOnce, bind, Except.bind, pure, Except.pure] at added
          iterate 3
            split at added
            · cases added
          cases added
          exact clean.append (fresh_generateJobId ‹_›) rfl
  | tick runner now => exact absurd rfl (isEdit runner now)
  | _ =>
      simp only [afterAction, CronScheduler.updateJob, CronScheduler.pauseJob,
        CronScheduler.resumeJob]
      repeat' split
      all_goals first
        | exact clean
        | exact clean.modify fun _ => ⟨rfl, rfl⟩

theorem id_tickJob {runner : JobRunner} {now : ℤ} {idx : ℕ} {remove_indices : List ℕ} :
    (tickJob scheduler runner now idx remove_indices job).1.id = job.id := by
  have visited : (visitJob scheduler runner now idx job).1.id = job.id :=
    congrArg (·.1.1) (frame_visitJob scheduler runner now idx job)
  rw [tickJob]
  split <;> rename_i found <;> rw [found] at visited
  · rw [settleExecuted]
    split_ifs <;> exact visited
  all_goals exact visited

theorem distinct_tick (distinct : scheduler.Distinct) (runner : JobRunner) (now : ℤ) :
    (scheduler.tick runner now).1.Distinct := by
  have kept (idx : ℕ) (remove_indices : List ℕ) (jobs : List CronJob) :
      (tickFrom scheduler runner now idx remove_indices jobs).1.map CronJob.id =
        jobs.map CronJob.id := by
    induction jobs generalizing idx remove_indices with
    | nil => rfl
    | cons job rest ih =>
        simp only [tickFrom, List.map_cons, id_tickJob, ih]
  have removed (remove_indices : List ℕ) (jobs : List CronJob) :
      (removeNoted remove_indices jobs).Sublist jobs := by
    induction remove_indices with
    | nil => exact .refl _
    | cons idx rest ih => exact (List.eraseIdx_sublist _ _).trans ih
  rw [CronScheduler.Distinct, ← kept 0 []] at distinct
  exact distinct.sublist ((removed _ _).map _)

/-!
## Runs of the daemon
-/

/-- The store, the daemon's copy of it, and what the daemon remembers of the copy. -/
structure Daemon where
  store : CronScheduler
  scheduler : CronScheduler
  before_tick : HashMap Bytes SchedulerJobSnapshot

/-- What the daemon does in turn, and tools that edit the store at any time. -/
inductive DaemonAction where
  | reloadJobs
  | buildSnapshot
  | tick (runner : JobRunner) (now : ℤ)
  | mergeAndSave
  | edit (action : StoreAction) (isEdit : ∀ runner now, action ≠ .tick runner now)
  | removeJob (id : Bytes)

namespace Daemon

/-- No jobs yet. -/
def init (max_tasks : ℕ) : Daemon where
  store := { max_tasks }
  scheduler := { max_tasks }
  before_tick := []

def step (daemon : Daemon) : DaemonAction → Daemon
  | .reloadJobs => { daemon with scheduler := { daemon.scheduler with jobs := daemon.store.jobs } }
  | .buildSnapshot => { daemon with before_tick := buildSchedulerSnapshot daemon.scheduler }
  | .tick runner now => { daemon with scheduler := (daemon.scheduler.tick runner now).1 }
  | .mergeAndSave =>
      { daemon with
        store := mergeSchedulerTickChanges daemon.store daemon.scheduler daemon.before_tick }
  | .edit action _ => { daemon with store := afterAction daemon.store action }
  | .removeJob id => { daemon with store := daemon.store.removeJob id }

structure Inv (daemon : Daemon) : Prop where
  clean : daemon.store.Clean
  distinct : daemon.scheduler.Distinct
  keys_nodup : daemon.before_tick.keys.Nodup

theorem inv_step {daemon : Daemon} (inv : daemon.Inv) (action : DaemonAction) :
    (daemon.step action).Inv := by
  cases action with
  | reloadJobs => exact { inv with distinct := inv.clean.distinct }
  | buildSnapshot =>
      exact { inv with keys_nodup := (buildSchedulerSnapshot_spec inv.distinct).1 }
  | tick runner now => exact { inv with distinct := distinct_tick inv.distinct runner now }
  | mergeAndSave =>
      exact { inv with clean := (merge_spec inv.clean inv.distinct inv.keys_nodup).1 }
  | edit action isEdit => exact { inv with clean := inv.clean.edit isEdit }
  | removeJob id => exact { inv with clean := inv.clean.removeJob id }

def run (max_tasks : ℕ) (actions : List DaemonAction) : Daemon :=
  actions.foldl step (init max_tasks)

theorem inv_run (max_tasks : ℕ) (actions : List DaemonAction) : (run max_tasks actions).Inv := by
  have start : (init max_tasks).Inv :=
    ⟨⟨List.nodup_nil, fun _ mem => by cases mem⟩, List.nodup_nil, List.nodup_nil⟩
  exact List.foldlRecOn actions step start fun _ inv action _ => inv_step inv action

/-- Whenever the daemon merges, it merges every job by itself: from what it remembers of the job,
what the job is for it, and what the job is in the store by then. -/
theorem getJob_mergeAndSave (max_tasks : ℕ) (actions : List DaemonAction) (id : Bytes) :
    ((run max_tasks actions).step .mergeAndSave).store.getJob id =
      mergedJob ((run max_tasks actions).before_tick.get id)
        ((run max_tasks actions).scheduler.getJob id) ((run max_tasks actions).store.getJob id) ∧
    ((run max_tasks actions).step .buildSnapshot).before_tick.get id =
      ((run max_tasks actions).scheduler.getJob id).map CronJob.snapshot := by
  obtain ⟨clean, distinct, keys_nodup⟩ := inv_run max_tasks actions
  exact ⟨(merge_spec clean distinct keys_nodup).2 id, (buildSchedulerSnapshot_spec distinct).2 id⟩

/-- The ids in the store differ, and nothing that the ticks note comes there: no failure is counted,
and no cooldown kept, from one reading of the jobs to the next. -/
theorem clean_store (max_tasks : ℕ) (actions : List DaemonAction) :
    (run max_tasks actions).store.Clean :=
  (inv_run max_tasks actions).clean

end Daemon

end Nullalis.Cron
