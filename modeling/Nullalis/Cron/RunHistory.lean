import Nullalis.Base.Bytes
import Mathlib.Data.List.TakeDrop
import Mathlib.Logic.Function.Basic

/-!
# The run history of the scheduler

All jobs share one list of their runs, in the order in which they were recorded. Recording a run
removes the oldest runs of its job that are too many. Listing the runs of a job goes back to the
oldest one that is wanted and returns everything from there on, the runs of other jobs included.

Strings are copied and freed without fail here, and times are unbounded integers.
-/

namespace Nullalis.Cron

structure CronRun where
  id : ℕ
  job_id : Bytes
  started_at_s : ℤ
  finished_at_s : ℤ
  status : Bytes
  output : Option Bytes
  duration_ms : Option ℤ
deriving DecidableEq

/-- The runs of a scheduler and the number of the next one. -/
structure RunLog where
  runs : List CronRun
  next_run_id : ℕ
deriving DecidableEq

/-- A run that is recorded. -/
structure RunCall where
  job_id : Bytes
  started_at_s : ℤ
  finished_at_s : ℤ
  status : Bytes
  output : Option Bytes
  max_history : ℕ
deriving DecidableEq

/-- The entry of a run. -/
def RunCall.entry (call : RunCall) (id : ℕ) : CronRun where
  id
  job_id := call.job_id
  started_at_s := call.started_at_s
  finished_at_s := call.finished_at_s
  status := call.status
  output := call.output
  duration_ms := some ((call.finished_at_s - call.started_at_s) * 1000)

/-- Go back through the runs, the last one first, and leave out those of a job that are too many.
`count` is the number of its runs so far. -/
def pruneRuns (job_id : Bytes) (max_history : ℕ) : ℕ → List CronRun → List CronRun
  | _, [] => []
  | count, run :: older =>
      if run.job_id = job_id then
        if max_history < count + 1 then pruneRuns job_id max_history (count + 1) older
        else run :: pruneRuns job_id max_history (count + 1) older
      else run :: pruneRuns job_id max_history count older

/-- Go back to the oldest run of a job that is wanted. The number of its runs on the way and the
position of the oldest one are returned. -/
def scanRuns (runs : List CronRun) (job_id : Bytes) (limit : ℕ) : ℕ → ℕ → ℕ → ℕ × ℕ
  | 0, count, start => (count, start)
  | i + 1, count, start =>
      if count < limit then
        if runs[i]?.any fun run => run.job_id = job_id then scanRuns runs job_id limit i (count + 1) i
        else scanRuns runs job_id limit i count start
      else (count, start)

namespace RunLog

def init : RunLog where
  runs := []
  next_run_id := 1

/-- Record a run. -/
def addRun (log : RunLog) (call : RunCall) : RunLog where
  runs :=
    let runs := log.runs ++ [call.entry log.next_run_id]
    if 0 < call.max_history then
      (pruneRuns call.job_id call.max_history 0 runs.reverse).reverse
    else runs
  next_run_id := log.next_run_id + 1

/-- The last runs of a job. -/
def listRuns (log : RunLog) (job_id : Bytes) (limit : ℕ) : List CronRun :=
  let (count, start) := scanRuns log.runs job_id limit log.runs.length 0 log.runs.length
  if count = 0 then [] else log.runs.drop start

/-- The history after some runs were recorded. -/
def after (calls : List RunCall) : RunLog :=
  calls.foldl addRun init

/-- The runs of a job in the history. -/
def retained (log : RunLog) (job_id : Bytes) : List CronRun :=
  log.runs.filter fun run => run.job_id = job_id

end RunLog

/-- The last runs of a list. -/
def newest (count : ℕ) (runs : List CronRun) : List CronRun :=
  runs.drop (runs.length - count)

/-- What is kept of the runs of a job. Nothing is removed if the history has no bound. -/
def keepNewest (max_history : ℕ) (runs : List CronRun) : List CronRun :=
  if 0 < max_history then newest max_history runs else runs

/-!
## Pruning
-/

variable {job_id : Bytes} {max_history count : ℕ} {runs : List CronRun}

/-- The newest runs of the job stay. -/
theorem filter_pruneRuns :
    (pruneRuns job_id max_history count runs).filter (fun run => run.job_id = job_id) =
      (runs.filter fun run => run.job_id = job_id).take (max_history - count) := by
  induction runs generalizing count with
  | nil => simp [pruneRuns]
  | cons run older ih =>
      rw [pruneRuns]
      split
      case isTrue same =>
        have first : decide (run.job_id = job_id) = true := decide_eq_true same
        split
        case isTrue full =>
          have none : max_history - count = 0 := by omega
          have none' : max_history - (count + 1) = 0 := by omega
          rw [ih, none, none', List.take_zero, List.take_zero]
        case isFalse room =>
          have more : max_history - count = max_history - (count + 1) + 1 := by omega
          simp only [List.filter_cons, first, if_true, ih, more, List.take_succ_cons]
      case isFalse other =>
        simp only [List.filter_cons, other, decide_false, ih]
        rfl

/-- The runs of other jobs stay. -/
theorem filter_pruneRuns_of_ne {other : Bytes} (apart : other ≠ job_id) :
    (pruneRuns job_id max_history count runs).filter (fun run => run.job_id = other) =
      runs.filter fun run => run.job_id = other := by
  induction runs generalizing count with
  | nil => rfl
  | cons run older ih =>
      rw [pruneRuns]
      split
      case isTrue same =>
        have elsewhere : ¬run.job_id = other := fun here => apart (here.symm.trans same)
        split
        case isTrue full =>
          rw [ih, List.filter_cons_of_neg (by simpa using elsewhere)]
        case isFalse room =>
          rw [List.filter_cons_of_neg (by simpa using elsewhere), ih,
            List.filter_cons_of_neg (by simpa using elsewhere)]
      case isFalse different =>
        simp only [List.filter_cons, ih]

namespace RunLog

variable {log : RunLog} {call : RunCall}

/-- A job keeps its newest runs, with the new one. -/
theorem retained_addRun (log : RunLog) (call : RunCall) :
    (log.addRun call).retained call.job_id =
      keepNewest call.max_history
        (log.retained call.job_id ++ [call.entry log.next_run_id]) := by
  have own : decide ((call.entry log.next_run_id).job_id = call.job_id) = true :=
    decide_eq_true rfl
  have whole : (log.runs ++ [call.entry log.next_run_id]).filter
      (fun run => run.job_id = call.job_id) =
        log.retained call.job_id ++ [call.entry log.next_run_id] := by
    rw [List.filter_append, List.filter_cons, if_pos own]
    rfl
  simp only [retained, addRun, keepNewest]
  split
  case isTrue bounded =>
    rw [List.filter_reverse, filter_pruneRuns, Nat.sub_zero, List.filter_reverse, whole,
      List.take_reverse, List.reverse_reverse]
    rfl
  case isFalse unbounded => exact whole

/-- Another job keeps all its runs. -/
theorem retained_addRun_of_ne {other : Bytes} (apart : other ≠ call.job_id) :
    (log.addRun call).retained other = log.retained other := by
  have foreign : ¬(call.entry log.next_run_id).job_id = other := fun same => apart same.symm
  have whole : (log.runs ++ [call.entry log.next_run_id]).filter (fun run => run.job_id = other) =
      log.retained other := by
    rw [List.filter_append, List.filter_cons_of_neg (by simpa using foreign), List.filter_nil,
      List.append_nil]
    rfl
  simp only [retained, addRun]
  split
  case isTrue bounded =>
    rw [List.filter_reverse, filter_pruneRuns_of_ne apart, List.filter_reverse, whole,
      List.reverse_reverse]
    rfl
  case isFalse unbounded => exact whole

/-!
## Listing
-/

/-- The scan stops at a position behind which the wanted runs of the job stand. -/
theorem scanRuns_spec {limit i start : ℕ}
    (counted : ((runs.drop i).filter fun run => run.job_id = job_id).length = count)
    (within : count ≤ limit)
    (same : (runs.drop start).filter (fun run => run.job_id = job_id) =
      (runs.drop i).filter fun run => run.job_id = job_id) :
    (runs.drop (scanRuns runs job_id limit i count start).2).filter
        (fun run => run.job_id = job_id) =
      newest limit (runs.filter fun run => run.job_id = job_id) ∧
    ((runs.drop (scanRuns runs job_id limit i count start).2).filter
        fun run => run.job_id = job_id).length =
      (scanRuns runs job_id limit i count start).1 := by
  induction i generalizing count start with
  | zero =>
      rw [List.drop_zero] at counted same
      have all : (runs.filter fun run => run.job_id = job_id).length - limit = 0 := by omega
      rw [scanRuns, same, newest, all, List.drop_zero]
      exact ⟨rfl, counted⟩
  | succ i ih =>
      rw [scanRuns]
      split
      case isTrue more =>
        cases here : runs[i]? with
        | none =>
            have short : runs.length ≤ i := List.getElem?_eq_none_iff.mp here
            have behind : runs.drop i = runs.drop (i + 1) := by
              rw [List.drop_eq_nil_of_le short, List.drop_eq_nil_of_le (by omega)]
            exact ih (behind ▸ counted) within (behind ▸ same)
        | some run =>
            have behind : runs.drop i = run :: runs.drop (i + 1) :=
              List.drop_eq_getElem?_toList_append.trans (by rw [here]; rfl)
            by_cases own : run.job_id = job_id
            · have kept : (runs.drop i).filter (fun run => run.job_id = job_id) =
                  run :: (runs.drop (i + 1)).filter fun run => run.job_id = job_id := by
                rw [behind, List.filter_cons_of_pos (by simpa using own)]
              simp only [Option.any_some, own, decide_true, if_true]
              exact ih (by rw [kept, List.length_cons, counted]) more rfl
            · have kept : (runs.drop i).filter (fun run => run.job_id = job_id) =
                  (runs.drop (i + 1)).filter fun run => run.job_id = job_id := by
                rw [behind, List.filter_cons_of_neg (by simpa using own)]
              simp only [Option.any_some, own, decide_false]
              exact ih (by rw [kept, counted]) within (by rw [same, kept])
      case isFalse enough =>
        have full : count = limit := by omega
        have parts : runs.filter (fun run => run.job_id = job_id) =
            (runs.take (i + 1)).filter (fun run => run.job_id = job_id) ++
              (runs.drop (i + 1)).filter fun run => run.job_id = job_id := by
          rw [← List.filter_append, List.take_append_drop]
        refine ⟨?_, by rw [same, counted]⟩
        rw [same, newest, parts, List.length_append, counted, full, Nat.add_sub_cancel,
          List.drop_left]

/-- Among the runs that are listed, those of the job are its last ones. -/
theorem retained_listRuns (log : RunLog) (job_id : Bytes) (limit : ℕ) :
    (log.listRuns job_id limit).filter (fun run => run.job_id = job_id) =
      newest limit (log.retained job_id) := by
  have start : ((log.runs.drop log.runs.length).filter
      fun run => run.job_id = job_id).length = 0 := by simp
  have spec := scanRuns_spec start (Nat.zero_le limit) rfl
  simp only [listRuns]
  split
  case isTrue none =>
    rw [none] at spec
    rw [List.filter_nil]
    exact (List.length_eq_zero_iff.mp spec.2).symm.trans spec.1
  case isFalse some => exact spec.1

/-!
## Histories
-/

/-- The runs of each job, and the number of the next run. -/
structure Histories where
  runs : Bytes → List CronRun
  next_run_id : ℕ

namespace Histories

def init : Histories where
  runs _ := []
  next_run_id := 1

/-- Record a run in the history of its job. -/
def addRun (histories : Histories) (call : RunCall) : Histories where
  runs := Function.update histories.runs call.job_id
    (keepNewest call.max_history
      (histories.runs call.job_id ++ [call.entry histories.next_run_id]))
  next_run_id := histories.next_run_id + 1

end Histories

/-- The histories that the shared list holds. -/
def histories (log : RunLog) : Histories where
  runs := log.retained
  next_run_id := log.next_run_id

/-- Recording a run changes the history of its job. -/
theorem histories_addRun (log : RunLog) (call : RunCall) :
    histories (log.addRun call) = (histories log).addRun call := by
  have runs : (log.addRun call).retained = Function.update log.retained call.job_id
      (keepNewest call.max_history
        (log.retained call.job_id ++ [call.entry log.next_run_id])) := by
    funext job_id
    by_cases own : job_id = call.job_id
    · subst own
      rw [Function.update_self, retained_addRun]
    · rw [Function.update_of_ne own, retained_addRun_of_ne own]
  rw [histories, runs]
  rfl

/-- However the runs of the jobs are mixed, each job has its own history. -/
theorem histories_after (calls : List RunCall) :
    histories (after calls) = calls.foldl Histories.addRun Histories.init := by
  have along (log : RunLog) :
      histories (calls.foldl addRun log) = calls.foldl Histories.addRun (histories log) := by
    induction calls generalizing log with
    | nil => rfl
    | cons call rest ih => rw [List.foldl_cons, List.foldl_cons, ih, histories_addRun]
  exact along init

/-- A run of a job. -/
def sampleRun (job_id : String) (max_history : ℕ) : RunCall where
  job_id := ascii job_id
  started_at_s := 1000
  finished_at_s := 1001
  status := ascii "success"
  output := none
  max_history

end RunLog

end Nullalis.Cron
