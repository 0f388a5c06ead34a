import Nullalis.Tasks.LedgerSafety

/-!
# Task delivery

The ledger behind a lock, with an observer that is told of every change of status. Every
function holds the lock for one access to the ledger, and the observer is told afterwards.

What the ledger knows of one task is the status under its number. `StatusOnly` says that a
function of the ledger touches the status of one number only.
-/

namespace Nullalis.Tasks

def MAX_DETAIL_LEN : ℕ := 256

/-- What the observer is told. -/
structure TaskUpdate where
  task_id : Bytes
  status : TaskStatus
  description : Option Bytes
deriving DecidableEq

/-- The ledger, and what its observer was told. -/
structure TaskDelivery where
  ledger : TaskLedger
  emitted : List TaskUpdate
deriving DecidableEq

/-- How an attempt to cancel a queued task ends. -/
inductive CancelOutcome where
  | cancelled
  | running
  | terminal
  | not_found
deriving DecidableEq

namespace TaskDelivery

/-- A new ledger with its observer. -/
def init : TaskDelivery where
  ledger := .init
  emitted := []

def truncate (text : Option Bytes) : Option Bytes :=
  text.map (·.take MAX_DETAIL_LEN)

/-- Tell the observer of a change that was made. -/
def emitTaskUpdate {Value : Type} (delivery : TaskDelivery) (result : Outcome Value × TaskLedger)
    (update : TaskUpdate) : Outcome Value × TaskDelivery :=
  match result with
  | (.returned value, ledger) => (.returned value, ⟨ledger, delivery.emitted ++ [update]⟩)
  | (.failed error, ledger) => (.failed error, ⟨ledger, delivery.emitted⟩)
  | (.panicked panic, ledger) => (.panicked panic, ⟨ledger, delivery.emitted⟩)

/-- Enter a task under a number. The observer is told of new tasks only. -/
def createTaskWithNumericId (delivery : TaskDelivery) (description owner_session : Bytes)
    (numeric_id : UInt64) (surroundings : Surroundings) : Outcome TaskEntry × TaskDelivery :=
  let result :=
    delivery.ledger.createTaskWithNumericId description owner_session numeric_id surroundings
  if delivery.ledger.entries.length < result.2.entries.length then
    delivery.emitTaskUpdate result
      ⟨formatTaskId numeric_id.toNat, .queued, truncate (some description)⟩
  else result.map id fun ledger => { delivery with ledger }

/-- A task starts. -/
def markRunning (delivery : TaskDelivery) (task_id : Bytes) (surroundings : Surroundings) :
    Outcome Unit × TaskDelivery :=
  delivery.emitTaskUpdate (delivery.ledger.markRunning task_id surroundings)
    ⟨task_id, .running, none⟩

/-- A task succeeds. -/
def markSucceeded (delivery : TaskDelivery) (task_id : Bytes) (result : Option Bytes)
    (surroundings : Surroundings) : Outcome Unit × TaskDelivery :=
  delivery.emitTaskUpdate (delivery.ledger.markSucceeded task_id result surroundings)
    ⟨task_id, .succeeded, truncate result⟩

/-- A task fails. -/
def markFailed (delivery : TaskDelivery) (task_id : Bytes) (err_msg : Option Bytes)
    (surroundings : Surroundings) : Outcome Unit × TaskDelivery :=
  delivery.emitTaskUpdate (delivery.ledger.markFailed task_id err_msg surroundings)
    ⟨task_id, .failed, truncate err_msg⟩

/-- A task is cancelled. -/
def markCancelled (delivery : TaskDelivery) (task_id : Bytes) (surroundings : Surroundings) :
    Outcome Unit × TaskDelivery :=
  delivery.emitTaskUpdate (delivery.ledger.markCancelled task_id surroundings)
    ⟨task_id, .cancelled, none⟩

/-- A task runs out of time. -/
def markTimedOut (delivery : TaskDelivery) (task_id : Bytes) (surroundings : Surroundings) :
    Outcome Unit × TaskDelivery :=
  delivery.emitTaskUpdate (delivery.ledger.markTimedOut task_id surroundings)
    ⟨task_id, .timed_out, none⟩

/-- Cancel a task that is queued, under one hold of the lock. -/
def cancelQueued (delivery : TaskDelivery) (task_id : Bytes) (surroundings : Surroundings) :
    CancelOutcome × TaskDelivery :=
  match delivery.ledger.getTask task_id with
  | none => (.not_found, delivery)
  | some entry =>
      if entry.status = .running then (.running, delivery)
      else if entry.status.isTerminal then (.terminal, delivery)
      else
        match delivery.markCancelled task_id surroundings with
        | (.returned (), next) => (.cancelled, next)
        | (_, next) => (.terminal, next)

end TaskDelivery

/-!
## The status under a number
-/

namespace TaskLedger

variable {ledger : TaskLedger} {number other : ℕ}

def statusOf (ledger : TaskLedger) (number : ℕ) : Option TaskStatus :=
  (ledger.getTask (formatTaskId number)).map (·.status)

theorem getTask_update {task_id wanted : Bytes} {change : TaskEntry → TaskEntry}
    (kept : ∀ entry, (change entry).task_id = entry.task_id) :
    (ledger.update task_id change).getTask wanted =
      if wanted = task_id then (ledger.getTask wanted).map change else ledger.getTask wanted := by
  rcases ledger with ⟨entries, next_id⟩
  simp only [update, getTask]
  induction entries with
  | nil => simp
  | cons entry rest ih =>
      by_cases same : entry.task_id = task_id
      · subst same
        simp only [List.findIdx_cons, beq_self_eq_true, cond_true, List.modify_zero_cons]
        by_cases found : wanted = entry.task_id
        · rw [if_pos found, List.find?_cons_of_pos (by simp [kept, found]),
            List.find?_cons_of_pos (by simp [found]), Option.map_some]
        · rw [if_neg found, List.find?_cons_of_neg (by simp [kept, Ne.symm found]),
            List.find?_cons_of_neg (by simp [Ne.symm found])]
      · have different : (entry.task_id == task_id) = false := beq_false_of_ne same
        simp only [List.findIdx_cons, different, cond_false, List.modify_succ_cons]
        by_cases found : entry.task_id = wanted
        · have apart : wanted ≠ task_id := found ▸ same
          rw [if_neg apart, List.find?_cons_of_pos (by simp [found]),
            List.find?_cons_of_pos (by simp [found])]
        · rw [List.find?_cons_of_neg (by simp [found]), List.find?_cons_of_neg (by simp [found]), ih]

theorem statusOf_mark {source target : TaskStatus} {now : ℤ} {change : TaskEntry → TaskEntry}
    (kept : ∀ entry, (change entry).task_id = entry.task_id)
    (found : ledger.statusOf number = some source)
    (valid : validateTransition source target = .ok ()) :
    (ledger.mark (formatTaskId number) target now true change).2.statusOf other =
      if other = number then some target else ledger.statusOf other := by
  rcases Option.map_eq_some_iff.mp found with ⟨entry, present, rfl⟩
  rw [mark, present]
  simp only [valid, if_true, statusOf]
  rw [getTask_update (by intro entry; exact kept entry)]
  by_cases same : other = number
  · subst same
    simp [present]
  · have apart : formatTaskId other ≠ formatTaskId number :=
      fun equal => same (formatTaskId_injective equal)
    rw [if_neg apart, if_neg same]

theorem length_mark {task_id : Bytes} {target : TaskStatus} {now : ℤ} {allocated : Bool}
    {change : TaskEntry → TaskEntry} :
    (ledger.mark task_id target now allocated change).2.entries.length =
      ledger.entries.length := by
  rw [mark]
  cases ledger.getTask task_id with
  | none => rfl
  | some entry =>
      cases valid : validateTransition entry.status target with
      | error error => simp only [valid]
      | ok =>
          simp only [valid]
          split
          case isTrue => simp [update]
          case isFalse => rfl

theorem length_formatTaskId (fits : number < idLimit) :
    (formatTaskId number).length = TASK_ID_LEN := by
  have digits : (Bytes.padLeft (byte '0') 11 (Bytes.radix 16 number)).length = 11 :=
    Nat.le_antisymm ((Bytes.length_padLeft_radix_le (by decide) (by decide)).mpr fits)
      Bytes.le_length_padLeft
  rw [formatTaskId, List.length_append, digits]
  rfl

theorem createTaskWithNumericId_eq {description owner_session : Bytes} {numeric_id : UInt64}
    {surroundings : Surroundings} (fits : numeric_id.toNat < idLimit)
    (fresh : ledger.statusOf numeric_id.toNat = none) (room : ledger.entries.length < MAX_TASKS)
    (allocates : surroundings.allocates = true) :
    (ledger.createTaskWithNumericId description owner_session numeric_id surroundings).2.entries =
      ledger.entries ++ [.queued (formatTaskId numeric_id.toNat) description owner_session
        surroundings.now] := by
  have absent : ledger.getTask (formatTaskId numeric_id.toNat) = none := by
    simpa [statusOf] using fresh
  have printed : bufPrintTaskId numeric_id.toNat = some (formatTaskId numeric_id.toNat) :=
    bufPrintTaskId_eq_some.mpr ⟨fits, rfl⟩
  have length : (formatTaskId numeric_id.toNat).length = TASK_ID_LEN := length_formatTaskId fits
  rw [createTaskWithNumericId, printed]
  simp only [length, ne_eq, not_true_eq_false, if_false, absent, Nat.not_le.mpr room, allocates,
    if_true]

end TaskLedger

end Nullalis.Tasks
