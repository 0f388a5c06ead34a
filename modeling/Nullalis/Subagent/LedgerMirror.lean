import Nullalis.Subagent.Manager

/-!
# The ledger follows the manager

The ledger is told of every change that the manager makes to a task, in the section of the
change or, for a cancellation, after it. `Stands` says where a task stands between the two: the
ledger agrees, or one update of the task is still to come and the ledger accepts it.

The manager ends queued tasks too, when the reaper finds them past their deadline, and the
ledger accepts no end from a queued task.
-/

namespace Nullalis.Subagent

open Tasks (TaskDelivery TaskLedger MAX_TASKS idLimit formatTaskId validateTransition)

/-- The status that the ledger should show. -/
def TaskState.ledgerStatus (state : TaskState) : Tasks.TaskStatus :=
  match state.status with
  | .queued => .queued
  | .running => .running
  | .failed => .failed
  | .cancelled => .cancelled
  | .completed => if state.result.any (·.status == .timeout) then .timed_out else .succeeded

/-- The tasks to be spawned fit in the ledger, in the ids and in memory. -/
def SpawnFits (manager : SubagentManager) (specs : List SpawnSurroundings) : Prop :=
  manager.taskCount + specs.length ≤ MAX_TASKS ∧ manager.next_id + specs.length ≤ idLimit ∧
    ∀ surroundings ∈ specs, surroundings.allocates = true

def NotQueued (manager : SubagentManager) (task_id : ℕ) : Prop :=
  ∀ state, manager.tasks task_id = some state → state.status ≠ .queued

/-- What is spawned fits in the ledger, and no task ends while it is queued. -/
def MirrorFits (system : SubagentSystem) : SubagentAction → Prop
  | .spawn _ surroundings => SpawnFits system.toSubagentManager [surroundings]
  | .spawnMany specs _ _ _ => SpawnFits system.toSubagentManager (specs.map (·.2))
  | .completeTask task_id _ _ _ => NotQueued system.toSubagentManager task_id
  | .reapTask _ task_id _ => NotQueued system.toSubagentManager task_id
  | _ => True

/-- When nothing is to be told, the ledger shows every task of the manager as it is. -/
def LedgerMirrors (system : SubagentSystem) : Prop :=
  system.mirrors = [] → system.cancels = [] → ∀ task_id state,
    system.tasks task_id = some state → ∃ delivery entry,
      system.task_delivery = some delivery ∧
        delivery.ledger.getTask (formatTaskId task_id) = some entry ∧
          entry.status = state.ledgerStatus

/-!
## One update
-/

namespace LedgerUpdate

/-- The task of an update. -/
def task_id : LedgerUpdate → ℕ
  | .create task_id _ _ _ => task_id
  | .running task_id _ => task_id
  | .failed task_id _ => task_id
  | .timedOut task_id _ => task_id
  | .succeeded task_id _ => task_id

/-- The status that an update asks for. -/
def target : LedgerUpdate → Tasks.TaskStatus
  | .create _ _ _ _ => .queued
  | .running _ _ => .running
  | .failed _ _ => .failed
  | .timedOut _ _ => .timed_out
  | .succeeded _ _ => .succeeded

/-- Does the update enter a task? -/
def isCreate : LedgerUpdate → Bool
  | .create _ _ _ _ => true
  | _ => false

end LedgerUpdate

variable {delivery : TaskDelivery} {update : LedgerUpdate} {task_id : ℕ}

@[simp]
theorem ledger_emitTaskUpdate {Value : Type} {result : Tasks.Outcome Value × TaskLedger}
    {told : Tasks.TaskUpdate} : (delivery.emitTaskUpdate result told).2.ledger = result.2 := by
  rcases result with ⟨outcome, ledger⟩
  cases outcome <;> rfl

@[simp]
theorem ledger_createTaskWithNumericId {description owner : Bytes} {numeric_id : UInt64}
    {surroundings : Tasks.Surroundings} :
    (delivery.createTaskWithNumericId description owner numeric_id surroundings).2.ledger =
      (delivery.ledger.createTaskWithNumericId description owner numeric_id surroundings).2 := by
  simp only [TaskDelivery.createTaskWithNumericId]
  split
  case isTrue => exact ledger_emitTaskUpdate
  case isFalse => rfl

theorem bufPrintTaskId_of_lt (fits : task_id < idLimit) :
    Tasks.bufPrintTaskId task_id = some (formatTaskId task_id) :=
  Tasks.bufPrintTaskId_eq_some.mpr ⟨fits, rfl⟩

theorem mirror_create (description owner : Bytes) (now : ℤ) (other : ℕ)
    (fits : task_id < idLimit)
    (fresh : delivery.ledger.statusOf task_id = none)
    (room : delivery.ledger.entries.length < MAX_TASKS) :
    ((LedgerUpdate.create task_id description owner ⟨now, true⟩).mirror delivery).ledger.statusOf
        other = (if other = task_id then some .queued else delivery.ledger.statusOf other) ∧
      ((LedgerUpdate.create task_id description owner ⟨now, true⟩).mirror
        delivery).ledger.entries.length = delivery.ledger.entries.length + 1 := by
  have number : (UInt64.ofNat task_id).toNat = task_id := by
    refine UInt64.toNat_ofNat_of_lt' (Nat.lt_trans fits ?_)
    decide
  have entries : (delivery.ledger.createTaskWithNumericId description owner (UInt64.ofNat task_id)
      ⟨now, true⟩).2.entries = delivery.ledger.entries ++
        [Tasks.TaskEntry.queued (formatTaskId (UInt64.ofNat task_id).toNat) description owner now] :=
    TaskLedger.createTaskWithNumericId_eq (by rwa [number]) (by rwa [number]) room rfl
  rw [number] at entries
  rw [LedgerUpdate.mirror, ledger_createTaskWithNumericId, TaskLedger.statusOf,
    TaskLedger.getTask, entries, List.length_append]
  refine ⟨?_, rfl⟩
  rw [List.find?_append]
  by_cases same : other = task_id
  · subst same
    have absent : delivery.ledger.getTask (formatTaskId other) = none := by
      simpa [TaskLedger.statusOf] using fresh
    rw [TaskLedger.getTask] at absent
    rw [absent, if_pos rfl]
    simp [Tasks.TaskEntry.queued]
  · have apart : formatTaskId task_id ≠ formatTaskId other :=
      fun equal => same (Tasks.formatTaskId_injective equal).symm
    rw [if_neg same, List.find?_cons_of_neg (by simpa [Tasks.TaskEntry.queued] using apart),
      List.find?_nil, Option.or_none]
    rfl

theorem ledger_mirror (delivery : TaskDelivery) (fits : update.task_id < idLimit)
    (moves : update.isCreate = false) :
    ∃ now change, (∀ entry : Tasks.TaskEntry, (change entry).task_id = entry.task_id) ∧
      (update.mirror delivery).ledger =
        (delivery.ledger.mark (formatTaskId update.task_id) update.target now true change).2 := by
  have printed := bufPrintTaskId_of_lt fits
  cases update with
  | create task_id description owner surroundings => cases moves
  | running task_id surroundings =>
      rw [LedgerUpdate.task_id] at printed
      refine ⟨surroundings.now, id, fun _ => rfl, ?_⟩
      simp only [LedgerUpdate.mirror, printed, TaskDelivery.markRunning, ledger_emitTaskUpdate]
      rfl
  | failed task_id surroundings =>
      rw [LedgerUpdate.task_id] at printed
      refine ⟨surroundings.now, fun entry => { entry with error_message := none }, fun _ => rfl, ?_⟩
      simp only [LedgerUpdate.mirror, printed, TaskDelivery.markFailed, ledger_emitTaskUpdate]
      rfl
  | timedOut task_id surroundings =>
      rw [LedgerUpdate.task_id] at printed
      refine ⟨surroundings.now, id, fun _ => rfl, ?_⟩
      simp only [LedgerUpdate.mirror, printed, TaskDelivery.markTimedOut, ledger_emitTaskUpdate]
      rfl
  | succeeded task_id surroundings =>
      rw [LedgerUpdate.task_id] at printed
      refine ⟨surroundings.now, fun entry => { entry with result_summary := none }, fun _ => rfl, ?_⟩
      simp only [LedgerUpdate.mirror, printed, TaskDelivery.markSucceeded, ledger_emitTaskUpdate]
      rfl

theorem mirror_move {source : Tasks.TaskStatus} (other : ℕ) (fits : update.task_id < idLimit)
    (moves : update.isCreate = false)
    (found : delivery.ledger.statusOf update.task_id = some source)
    (valid : validateTransition source update.target = .ok ()) :
    (update.mirror delivery).ledger.statusOf other =
        (if other = update.task_id then some update.target else delivery.ledger.statusOf other) ∧
      (update.mirror delivery).ledger.entries.length = delivery.ledger.entries.length := by
  rcases ledger_mirror delivery fits moves with ⟨now, change, kept, ledger⟩
  rw [ledger]
  exact ⟨TaskLedger.statusOf_mark kept found valid, TaskLedger.length_mark⟩

theorem cancelQueued_spec (now : ℤ) (other : ℕ)
    (found : delivery.ledger.statusOf task_id = some .queued) :
    (delivery.cancelQueued (formatTaskId task_id) ⟨now, true⟩).2.ledger.statusOf other =
        (if other = task_id then some .cancelled else delivery.ledger.statusOf other) ∧
      (delivery.cancelQueued (formatTaskId task_id) ⟨now, true⟩).2.ledger.entries.length =
        delivery.ledger.entries.length := by
  have cancelled : (delivery.cancelQueued (formatTaskId task_id) ⟨now, true⟩).2.ledger =
      (delivery.ledger.mark (formatTaskId task_id) .cancelled now true id).2 := by
    rcases Option.map_eq_some_iff.mp found with ⟨entry, present, status⟩
    have marked : (delivery.markCancelled (formatTaskId task_id) ⟨now, true⟩).2.ledger =
        (delivery.ledger.mark (formatTaskId task_id) .cancelled now true id).2 :=
      ledger_emitTaskUpdate
    rw [TaskDelivery.cancelQueued, present]
    dsimp only
    rw [status, if_neg (by decide), if_neg (by decide), ← marked]
    split <;> simp [*]
  rw [cancelled]
  exact ⟨TaskLedger.statusOf_mark (fun _ => rfl) found rfl, TaskLedger.length_mark⟩

/-!
## Where a task stands
-/

/-- The ledger shows the task as it is, or hears of it in one update that it accepts. -/
inductive Stands (ledger : TaskLedger) (mirrors : List LedgerUpdate) (cancels : List ℕ)
    (task_id : ℕ) (state : TaskState) : Prop where
  | settled (told : task_id ∉ mirrors.map LedgerUpdate.task_id) (kept : task_id ∉ cancels)
      (status : ledger.statusOf task_id = some state.ledgerStatus)
  | creating {description owner : Bytes} {now : ℤ}
      (mem : .create task_id description owner ⟨now, true⟩ ∈ mirrors) (kept : task_id ∉ cancels)
      (status : ledger.statusOf task_id = none) (queued : state.ledgerStatus = .queued)
  | moving {update : LedgerUpdate} {source : Tasks.TaskStatus} (mem : update ∈ mirrors)
      (names : update.task_id = task_id) (moves : update.isCreate = false)
      (kept : task_id ∉ cancels) (status : ledger.statusOf task_id = some source)
      (valid : validateTransition source update.target = .ok ())
      (target : update.target = state.ledgerStatus)
  | cancelling (mem : task_id ∈ cancels) (told : task_id ∉ mirrors.map LedgerUpdate.task_id)
      (status : ledger.statusOf task_id = some .queued)
      (cancelled : state.ledgerStatus = .cancelled)

/-- What holds between two steps. Every task stands somewhere, and the entries that are still to
be made find room. -/
structure MirrorInv (manager : SubagentManager) (ledger : TaskLedger)
    (mirrors : List LedgerUpdate) (cancels : List ℕ) : Prop where
  below : ∀ task_id, manager.next_id ≤ task_id → manager.tasks task_id = none
  fits : manager.next_id ≤ idLimit
  count : manager.taskCount ≤ MAX_TASKS
  room : ledger.entries.length + mirrors.countP LedgerUpdate.isCreate ≤ manager.taskCount
  absent : ∀ task_id, manager.tasks task_id = none → ledger.statusOf task_id = none
  stands : ∀ task_id state, manager.tasks task_id = some state →
    Stands ledger mirrors cancels task_id state
  distinct : (mirrors.map LedgerUpdate.task_id).Nodup
  present : ∀ update ∈ mirrors, manager.tasks update.task_id ≠ none
  cancelled : ∀ task_id ∈ cancels, manager.tasks task_id ≠ none
  once : cancels.Nodup

variable {manager after : SubagentManager} {ledger next : TaskLedger}
  {mirrors rest : List LedgerUpdate} {cancels : List ℕ} {state : TaskState}

theorem MirrorInv.task_id_lt (inv : MirrorInv manager ledger mirrors cancels)
    (present : manager.tasks task_id ≠ none) : task_id < idLimit := by
  refine Nat.lt_of_lt_of_le (Nat.lt_of_not_le fun beyond => ?_) inv.fits
  exact present (inv.below task_id beyond)

/-- The update that is told moves its task to where the manager has it. -/
theorem MirrorInv.first (inv : MirrorInv manager delivery.ledger (update :: rest) cancels) :
    ∃ state, manager.tasks update.task_id = some state ∧ update.task_id ∉ cancels ∧
      (∀ other, (update.mirror delivery).ledger.statusOf other =
        if other = update.task_id then some state.ledgerStatus
        else delivery.ledger.statusOf other) ∧
      (update.mirror delivery).ledger.entries.length + rest.countP LedgerUpdate.isCreate =
        delivery.ledger.entries.length + (update :: rest).countP LedgerUpdate.isCreate := by
  rcases Option.ne_none_iff_exists'.mp (inv.present update List.mem_cons_self) with
    ⟨state, present⟩
  have fits := inv.task_id_lt (inv.present update List.mem_cons_self)
  have here : update.task_id ∈ (update :: rest).map LedgerUpdate.task_id := List.mem_cons_self
  have only {told : LedgerUpdate} (mem : told ∈ update :: rest)
      (names : told.task_id = update.task_id) : told = update := by
    rcases List.mem_cons.mp mem with same | mem
    · exact same
    · have apart := (List.nodup_cons.mp inv.distinct).1
      exact absurd (names ▸ List.mem_map_of_mem mem) apart
  refine ⟨state, present, ?_⟩
  cases inv.stands update.task_id state present with
  | settled told => exact absurd here told
  | cancelling mem told => exact absurd here told
  | @creating description owner now mem kept status queued =>
      have created := only mem rfl
      have counted : (update :: rest).countP LedgerUpdate.isCreate =
          rest.countP LedgerUpdate.isCreate + 1 :=
        List.countP_cons_of_pos (by rw [← created]; rfl)
      have room : delivery.ledger.entries.length < MAX_TASKS := by
        have bounded := inv.room
        have filled := inv.count
        omega
      have entered (other : ℕ) := mirror_create description owner now other fits status room
      rw [created] at entered
      refine ⟨kept, fun other => queued ▸ (entered other).1, ?_⟩
      rw [(entered 0).2, counted]
      omega
  | moving mem names moves kept status valid target =>
      cases only mem names
      have moved (other : ℕ) := mirror_move other fits moves status valid
      refine ⟨kept, fun other => target ▸ (moved other).1, ?_⟩
      rw [(moved 0).2, List.countP_cons_of_neg (by simp [moves])]

theorem Stands.frame {remaining : List ℕ} (stands : Stands ledger mirrors cancels task_id state)
    (status : next.statusOf task_id = ledger.statusOf task_id)
    (told : ∀ update, LedgerUpdate.task_id update = task_id → (update ∈ rest ↔ update ∈ mirrors))
    (kept : task_id ∈ remaining ↔ task_id ∈ cancels) :
    Stands next rest remaining task_id state := by
  have names : task_id ∈ rest.map LedgerUpdate.task_id ↔
      task_id ∈ mirrors.map LedgerUpdate.task_id := by
    simp only [List.mem_map]
    exact exists_congr fun update => and_congr_left (told update)
  cases stands with
  | settled silent apart shown =>
      exact .settled (names.not.mpr silent) (kept.not.mpr apart) (status.trans shown)
  | creating mem apart shown queued =>
      exact .creating ((told _ rfl).mpr mem) (kept.not.mpr apart) (status.trans shown) queued
  | moving mem same moves apart shown valid target =>
      exact .moving ((told _ same).mpr mem) same moves (kept.not.mpr apart) (status.trans shown)
        valid target
  | cancelling mem silent shown cancelled =>
      exact .cancelling (kept.mpr mem) (names.not.mpr silent) (status.trans shown) cancelled

theorem MirrorInv.congr (inv : MirrorInv manager ledger mirrors cancels)
    (tasks : after.tasks = manager.tasks) (next_id : after.next_id = manager.next_id) :
    MirrorInv after ledger mirrors cancels where
  below := by rw [tasks, next_id]; exact inv.below
  fits := next_id ▸ inv.fits
  count := by rw [SubagentManager.taskCount, tasks, next_id]; exact inv.count
  room := by rw [SubagentManager.taskCount, tasks, next_id]; exact inv.room
  absent := by rw [tasks]; exact inv.absent
  stands := by rw [tasks]; exact inv.stands
  distinct := inv.distinct
  present := by rw [tasks]; exact inv.present
  cancelled := by rw [tasks]; exact inv.cancelled
  once := inv.once

/-!
## The ledger hears of it
-/

theorem MirrorInv.mirror (inv : MirrorInv manager delivery.ledger (update :: rest) cancels) :
    MirrorInv manager (update.mirror delivery).ledger rest cancels := by
  rcases inv.first with ⟨state, present, kept, shown, entries⟩
  have told := List.nodup_cons.mp inv.distinct
  have here := inv.present update List.mem_cons_self
  exact {
    below := inv.below
    fits := inv.fits
    count := inv.count
    room := entries ▸ inv.room
    absent := fun other missing => by
      have apart : other ≠ update.task_id := fun same => here (same ▸ missing)
      rw [shown, if_neg apart]
      exact inv.absent other missing
    stands := fun other found there => by
      by_cases same : other = update.task_id
      · subst same
        cases present.symm.trans there
        exact .settled told.1 kept ((shown _).trans (if_pos rfl))
      · refine (inv.stands other found there).frame ((shown other).trans (if_neg same))
          (fun told names => ?_) Iff.rfl
        have apart : told ≠ update := fun equal => same (equal ▸ names.symm)
        simp [apart]
    distinct := told.2
    present := fun told mem => inv.present told (List.mem_cons_of_mem update mem)
    cancelled := inv.cancelled
    once := inv.once }

theorem MirrorInv.cancelling (inv : MirrorInv manager ledger mirrors cancels)
    (mem : task_id ∈ cancels) :
    ∃ state, manager.tasks task_id = some state ∧ ledger.statusOf task_id = some .queued ∧
      task_id ∉ mirrors.map LedgerUpdate.task_id ∧ state.ledgerStatus = .cancelled := by
  rcases Option.ne_none_iff_exists'.mp (inv.cancelled task_id mem) with ⟨state, present⟩
  refine ⟨state, present, ?_⟩
  cases inv.stands task_id state present with
  | settled _ kept => exact absurd mem kept
  | creating _ kept => exact absurd mem kept
  | moving _ _ _ kept => exact absurd mem kept
  | cancelling _ told shown cancelled => exact ⟨shown, told, cancelled⟩

theorem MirrorInv.mirrorCancel {now : ℤ} (inv : MirrorInv manager delivery.ledger mirrors cancels)
    (mem : task_id ∈ cancels) :
    MirrorInv manager (delivery.cancelQueued (formatTaskId task_id) ⟨now, true⟩).2.ledger mirrors
      (cancels.erase task_id) := by
  rcases inv.cancelling mem with ⟨state, present, found, told, cancelled⟩
  have shown (other : ℕ) := cancelQueued_spec now other found
  exact {
    below := inv.below
    fits := inv.fits
    count := inv.count
    room := by rw [(shown 0).2]; exact inv.room
    absent := fun other missing => by
      have apart : other ≠ task_id := fun same => inv.cancelled task_id mem (same ▸ missing)
      rw [(shown other).1, if_neg apart]
      exact inv.absent other missing
    stands := fun other found there => by
      by_cases same : other = task_id
      · subst same
        cases present.symm.trans there
        exact .settled told inv.once.not_mem_erase
          ((shown _).1.trans ((if_pos rfl).trans (congrArg some cancelled.symm)))
      · exact (inv.stands other found there).frame ((shown other).1.trans (if_neg same))
          (fun _ _ => Iff.rfl) (List.mem_erase_of_ne same)
    distinct := inv.distinct
    present := inv.present
    cancelled := fun other mem => inv.cancelled other (List.mem_of_mem_erase mem)
    once := inv.once.erase task_id }

/-!
## The manager moves on
-/

theorem MirrorInv.skip (inv : MirrorInv manager ledger mirrors cancels)
    (tasks : after.tasks = manager.tasks) (next_id : after.next_id = manager.next_id + 1)
    (numbered : manager.next_id < idLimit) :
    after.taskCount = manager.taskCount ∧ MirrorInv after ledger mirrors cancels := by
  have counted : after.taskCount = manager.taskCount := by
    rw [SubagentManager.taskCount, tasks, next_id, Threads.count_succ,
      inv.below manager.next_id (Nat.le_refl _)]
    rfl
  refine ⟨counted, ?_⟩
  exact {
    below := fun task_id beyond => tasks ▸ inv.below task_id (by omega)
    fits := by omega
    count := counted ▸ inv.count
    room := counted ▸ inv.room
    absent := by rw [tasks]; exact inv.absent
    stands := by rw [tasks]; exact inv.stands
    distinct := inv.distinct
    present := by rw [tasks]; exact inv.present
    cancelled := by rw [tasks]; exact inv.cancelled
    once := inv.once }

/-- A queued task is put in, and the ledger is to enter it. -/
theorem MirrorInv.create {description owner : Bytes} {now : ℤ}
    (inv : MirrorInv manager ledger mirrors cancels)
    (tasks : after.tasks = Function.update manager.tasks manager.next_id (some state))
    (next_id : after.next_id = manager.next_id + 1) (queued : state.ledgerStatus = .queued)
    (numbered : manager.next_id < idLimit) (room : manager.taskCount < MAX_TASKS) :
    after.taskCount = manager.taskCount + 1 ∧
      MirrorInv after ledger (mirrors ++ [.create manager.next_id description owner ⟨now, true⟩])
        cancels := by
  have missing : manager.tasks manager.next_id = none := inv.below _ (Nat.le_refl _)
  have counted : after.taskCount = manager.taskCount + 1 := by
    rw [SubagentManager.taskCount, tasks, next_id, Threads.count_succ,
      Threads.count_update_of_le _ _ _ (Nat.le_refl _), Function.update_self]
    rfl
  have untold : manager.next_id ∉ mirrors.map LedgerUpdate.task_id := by
    intro mem
    rcases List.mem_map.mp mem with ⟨update, mem, names⟩
    exact inv.present update mem (names ▸ missing)
  have kept : manager.next_id ∉ cancels := fun mem => inv.cancelled _ mem missing
  have stays {task_id : ℕ} (there : manager.tasks task_id ≠ none) :
      after.tasks task_id ≠ none := by
    have apart : task_id ≠ manager.next_id := fun same => there (same ▸ missing)
    rwa [tasks, Function.update_of_ne apart]
  refine ⟨counted, ?_⟩
  exact {
    below := fun task_id beyond => by
      rw [tasks, Function.update_of_ne (by omega)]
      exact inv.below task_id (by omega)
    fits := by omega
    count := by omega
    room := by
      have before := inv.room
      rw [List.countP_append, counted]
      change _ + (_ + 1) ≤ _
      omega
    absent := fun task_id absent => by
      have apart : task_id ≠ manager.next_id := by
        rintro rfl
        rw [tasks, Function.update_self] at absent
        cases absent
      rw [tasks, Function.update_of_ne apart] at absent
      exact inv.absent task_id absent
    stands := fun task_id found there => by
      by_cases same : task_id = manager.next_id
      · subst same
        rw [tasks, Function.update_self] at there
        cases there
        exact .creating (List.mem_append_right mirrors (List.mem_singleton_self _)) kept
          (inv.absent _ missing) queued
      · rw [tasks, Function.update_of_ne same] at there
        refine (inv.stands task_id found there).frame rfl (fun update names => ?_) Iff.rfl
        have apart : update ≠ .create manager.next_id description owner ⟨now, true⟩ := by
          rintro rfl
          exact same names.symm
        simp [apart]
    distinct := by
      rw [List.map_append, List.map_singleton]
      refine List.nodup_append.mpr ⟨inv.distinct, List.pairwise_singleton _ _, ?_⟩
      rintro told mem _ last rfl
      have same : told = manager.next_id := List.mem_singleton.mp last
      exact untold (same ▸ mem)
    present := fun update mem => by
      rcases List.mem_append.mp mem with mem | mem
      · exact stays (inv.present update mem)
      · cases List.mem_singleton.mp mem
        rw [LedgerUpdate.task_id, tasks, Function.update_self]
        exact Option.some_ne_none state
    cancelled := fun task_id mem => stays (inv.cancelled task_id mem)
    once := inv.once }

theorem MirrorInv.spawnInBatchLocked (request : SpawnRequest) (batch_id : Option Bytes)
    {surroundings : SpawnSurroundings} (inv : MirrorInv manager ledger mirrors cancels)
    (numbered : manager.next_id < idLimit) (room : manager.taskCount < MAX_TASKS)
    (allocates : surroundings.allocates = true) :
    let spawned := manager.spawnInBatchLocked request batch_id surroundings
    spawned.2.1.next_id = manager.next_id + 1 ∧
      spawned.2.1.taskCount ≤ manager.taskCount + 1 ∧
        MirrorInv spawned.2.1 ledger (mirrors ++ spawned.2.2) cancels := by
  simp only [SubagentManager.spawnInBatchLocked]
  split
  case isTrue =>
      rw [allocates]
      exact ⟨rfl, And.imp_left Nat.le_of_eq (inv.create rfl rfl rfl numbered room)⟩
  case isFalse =>
      rw [List.append_nil]
      exact ⟨rfl, And.imp_left (fun counted => Nat.le_succ_of_le (Nat.le_of_eq counted))
        (inv.skip (Function.update_eq_self_iff.mpr (inv.below _ (Nat.le_refl _)).symm) rfl
          numbered)⟩

theorem MirrorInv.spawnLoop (batch_id : Bytes)
    {specs : List (SpawnRequest × SpawnSurroundings)}
    (inv : MirrorInv manager ledger mirrors cancels) (fits : SpawnFits manager (specs.map (·.2))) :
    MirrorInv (manager.spawnLoop batch_id specs).2.1 ledger
      (mirrors ++ (manager.spawnLoop batch_id specs).2.2) cancels := by
  induction specs generalizing manager mirrors with
  | nil => simpa [SubagentManager.spawnLoop] using inv
  | cons spec specs ih =>
      rcases spec with ⟨request, surroundings⟩
      rcases fits with ⟨room, numbered, allocates⟩
      rw [List.map_cons, List.length_cons] at room numbered
      have first := inv.spawnInBatchLocked request (some batch_id) (by omega) (by omega)
        (allocates surroundings List.mem_cons_self)
      rw [SubagentManager.spawnLoop]
      generalize manager.spawnInBatchLocked request (some batch_id) surroundings = spawned at *
      rcases spawned with ⟨outcome, next, updates⟩
      rcases first with ⟨next_id, counted, first⟩
      dsimp only at next_id counted first
      cases outcome with
      | error error => exact first
      | ok task_id =>
          have fits : SpawnFits next (specs.map (·.2)) :=
            ⟨by omega, by omega, fun other mem => allocates other (List.mem_cons_of_mem _ mem)⟩
          have rest := ih first fits
          rw [List.append_assoc] at rest
          exact rest

theorem MirrorInv.settled (inv : MirrorInv manager ledger [] cancels)
    (present : manager.tasks task_id = some state) (apart : state.ledgerStatus ≠ .cancelled) :
    task_id ∉ cancels ∧ ledger.statusOf task_id = some state.ledgerStatus := by
  cases inv.stands task_id state present with
  | settled _ kept shown => exact ⟨kept, shown⟩
  | creating mem => cases mem
  | moving mem => cases mem
  | cancelling _ _ _ cancelled => exact absurd cancelled apart

/-- A task of the map may be replaced when it is known where its replacement stands. -/
theorem MirrorInv.replace {updates : List LedgerUpdate} {remaining : List ℕ} {later : TaskState}
    (inv : MirrorInv manager ledger [] cancels) (present : manager.tasks task_id = some state)
    (tasks : after.tasks = Function.update manager.tasks task_id (some later))
    (next_id : after.next_id = manager.next_id)
    (names : ∀ update ∈ updates, LedgerUpdate.task_id update = task_id)
    (moves : updates.countP LedgerUpdate.isCreate = 0)
    (distinct : (updates.map LedgerUpdate.task_id).Nodup) (once : remaining.Nodup)
    (kept : ∀ other ≠ task_id, (other ∈ remaining ↔ other ∈ cancels))
    (stands : Stands ledger updates remaining task_id later) :
    MirrorInv after ledger updates remaining := by
  have below : task_id < manager.next_id := by
    refine Nat.lt_of_not_le fun beyond => ?_
    rw [inv.below task_id beyond] at present
    cases present
  have counted : after.taskCount = manager.taskCount := by
    have traded := Threads.count_update Option.isSome manager.tasks (some later) below
    rw [present] at traded
    rw [SubagentManager.taskCount, tasks, next_id]
    exact Nat.add_right_cancel traded
  have stays {other : ℕ} (there : other = task_id ∨ manager.tasks other ≠ none) :
      after.tasks other ≠ none := by
    rw [tasks]
    by_cases same : other = task_id
    · subst same
      rw [Function.update_self]
      exact Option.some_ne_none later
    · rw [Function.update_of_ne same]
      exact there.resolve_left same
  exact {
    below := fun other beyond => by
      rw [next_id] at beyond
      rw [tasks, Function.update_of_ne (by omega)]
      exact inv.below other beyond
    fits := next_id ▸ inv.fits
    count := counted ▸ inv.count
    room := by
      rw [moves, counted]
      exact inv.room
    absent := fun other missing => by
      refine inv.absent other (not_not.mp fun there => ?_)
      exact stays (.inr there) missing
    stands := fun other found there => by
      by_cases same : other = task_id
      · subst same
        rw [tasks, Function.update_self] at there
        cases there
        exact stands
      · rw [tasks, Function.update_of_ne same] at there
        refine (inv.stands other found there).frame rfl (fun update named => ?_) (kept other same)
        have apart : update ∉ updates := fun mem => same (named.symm.trans (names update mem))
        simp [apart]
    distinct := distinct
    present := fun update mem => stays (.inl (names update mem))
    cancelled := fun other mem => by
      by_cases same : other = task_id
      · exact stays (.inl same)
      · exact stays (.inr (inv.cancelled other ((kept other same).mp mem)))
    once := once }

theorem MirrorInv.move {later : TaskState} (inv : MirrorInv manager ledger [] cancels)
    (present : manager.tasks task_id = some state) (apart : state.ledgerStatus ≠ .cancelled)
    (tasks : after.tasks = Function.update manager.tasks task_id (some later))
    (next_id : after.next_id = manager.next_id) (names : update.task_id = task_id)
    (moves : update.isCreate = false)
    (valid : validateTransition state.ledgerStatus update.target = .ok ())
    (target : update.target = later.ledgerStatus) :
    MirrorInv after ledger [update] cancels := by
  rcases inv.settled present apart with ⟨kept, shown⟩
  have stands : Stands ledger [update] cancels task_id later :=
    .moving (List.mem_singleton_self update) names moves kept shown valid target
  refine inv.replace present tasks next_id (fun told mem => ?_) ?_ (List.pairwise_singleton _ _)
    inv.once (fun _ _ => Iff.rfl) stands
  · rw [List.mem_singleton.mp mem, names]
  · simp [moves]

theorem MirrorInv.spawn {request : SpawnRequest} {surroundings : SpawnSurroundings}
    (inv : MirrorInv manager ledger [] cancels) (fits : SpawnFits manager [surroundings]) :
    MirrorInv (manager.spawn request surroundings).2.1 ledger
      (manager.spawn request surroundings).2.2 cancels := by
  rcases fits with ⟨room, numbered, allocates⟩
  rw [SubagentManager.spawn]
  split
  case isTrue => exact inv
  case isFalse =>
      exact (inv.spawnInBatchLocked request none numbered room (allocates _ List.mem_cons_self)).2.2

theorem MirrorInv.spawnMany {specs : List (SpawnRequest × SpawnSurroundings)}
    {request_session_key : Bytes} {budget_ms now : ℤ}
    (inv : MirrorInv manager ledger [] cancels) (fits : SpawnFits manager (specs.map (·.2))) :
    MirrorInv (manager.spawnMany specs request_session_key budget_ms now).2.1 ledger
      (manager.spawnMany specs request_session_key budget_ms now).2.2 cancels := by
  rw [SubagentManager.spawnMany]
  split
  case isTrue => exact inv
  case isFalse =>
      split
      case isTrue => exact inv
      case isFalse =>
          have spawned := inv.spawnLoop (formatBatchId manager.next_id now) fits
          dsimp only
          generalize manager.spawnLoop (formatBatchId manager.next_id now) specs = loop at *
          rcases loop with ⟨ids, next, updates⟩
          split
          case isTrue => exact spawned
          case isFalse => exact spawned.congr rfl rfl

theorem MirrorInv.markTaskRunning {now : ℤ} (inv : MirrorInv manager ledger [] cancels) :
    MirrorInv (manager.markTaskRunning task_id now).2.1 ledger
      (manager.markTaskRunning task_id now).2.2 cancels := by
  rw [SubagentManager.markTaskRunning]
  split
  case h_1 => exact inv
  case h_2 state present =>
      split
      case isFalse => exact inv
      case isTrue queued =>
          have shown : state.ledgerStatus = .queued := by rw [TaskState.ledgerStatus, queued]
          refine inv.move present (by rw [shown]; decide) rfl rfl rfl rfl ?_ rfl
          rw [shown]
          rfl

theorem target_completionUpdate {result : Option SubagentResult} {err_msg : Option Bytes}
    {surroundings : CompletionSurroundings} :
    (SubagentManager.completionUpdate task_id
        (SubagentManager.completed state result err_msg surroundings) surroundings.now).target =
      (SubagentManager.completed state result err_msg surroundings).ledgerStatus := by
  rw [SubagentManager.completionUpdate, TaskState.ledgerStatus, SubagentManager.completed]
  cases (if surroundings.copiesError then err_msg else none).isSome with
  | true => rfl
  | false =>
      simp only [Bool.false_eq_true, if_false, reduceCtorEq]
      exact apply_ite LedgerUpdate.target _ _ _

theorem validateTransition_completionUpdate (task_id : ℕ) (state : TaskState) (now : ℤ) :
    (SubagentManager.completionUpdate task_id state now).task_id = task_id ∧
      (SubagentManager.completionUpdate task_id state now).isCreate = false ∧
        validateTransition .running (SubagentManager.completionUpdate task_id state now).target =
          .ok () := by
  rw [SubagentManager.completionUpdate]
  split
  case isTrue => exact ⟨rfl, rfl, rfl⟩
  case isFalse => split <;> exact ⟨rfl, rfl, rfl⟩

theorem MirrorInv.completeTask {result : Option SubagentResult} {err_msg : Option Bytes}
    {surroundings : CompletionSurroundings} (inv : MirrorInv manager ledger [] cancels)
    (started : NotQueued manager task_id) :
    MirrorInv (manager.completeTask task_id result err_msg surroundings).2.1 ledger
      (manager.completeTask task_id result err_msg surroundings).2.2 cancels := by
  rw [SubagentManager.completeTask]
  split
  case h_1 => exact inv
  case h_2 state present =>
      split
      case isTrue => exact inv
      case isFalse going =>
          have running : state.status = .running := by
            cases status : state.status with
            | running => rfl
            | queued => exact absurd status (started state present)
            | completed | failed | cancelled =>
                exact absurd (by rw [TaskState.ended, status]; rfl) going
          have shown : state.ledgerStatus = .running := by rw [TaskState.ledgerStatus, running]
          rcases validateTransition_completionUpdate task_id
            (SubagentManager.completed state result err_msg surroundings) surroundings.now with
            ⟨names, moves, valid⟩
          have moved {after : SubagentManager}
              (tasks : after.tasks = Function.update manager.tasks task_id
                (some (SubagentManager.completed state result err_msg surroundings)))
              (next_id : after.next_id = manager.next_id) :=
            inv.move present (by rw [shown]; decide) tasks next_id names moves
              (by rw [shown]; exact valid) target_completionUpdate
          dsimp only
          split
          case h_1 => exact moved rfl rfl
          case h_2 => exact moved rfl rfl

theorem MirrorInv.cancelQueued {now : ℤ} (inv : MirrorInv manager ledger [] cancels) :
    ((manager.cancelQueued task_id now).1 = .cancelled →
      MirrorInv (manager.cancelQueued task_id now).2 ledger [] (task_id :: cancels)) ∧
    ((manager.cancelQueued task_id now).1 ≠ .cancelled →
      MirrorInv (manager.cancelQueued task_id now).2 ledger [] cancels) := by
  rw [SubagentManager.cancelQueued]
  split
  case h_1 => exact ⟨fun same => (by cases same), fun _ => inv⟩
  case h_2 state present =>
      cases queued : state.status with
      | running | completed | failed | cancelled =>
          exact ⟨fun same => (by cases same), fun _ => inv⟩
      | queued =>
          have shown : state.ledgerStatus = .queued := by rw [TaskState.ledgerStatus, queued]
          rcases inv.settled present (by rw [shown]; decide) with ⟨kept, found⟩
          refine ⟨fun _ => ?_, fun apart => absurd rfl apart⟩
          exact inv.replace present rfl rfl (fun _ mem => (by cases mem)) rfl .nil
            (List.nodup_cons.mpr ⟨kept, inv.once⟩) (fun other apart => by simp [apart])
            (.cancelling List.mem_cons_self List.not_mem_nil (found.trans (congrArg some shown)) rfl)

namespace SubagentSystem

variable {system after : SubagentSystem}

/-- A ledger is attached, and the manager and the ledger fit together. -/
def LedgerFollows (system : SubagentSystem) : Prop :=
  ∃ delivery, system.task_delivery = some delivery ∧
    MirrorInv system.toSubagentManager delivery.ledger system.mirrors system.cancels

theorem ledgerFollows_init (max_concurrent : ℕ) :
    LedgerFollows (init max_concurrent (some .init)) := by
  refine ⟨.init, rfl, ?_⟩
  exact {
    below := fun _ _ => rfl
    fits := by change 1 ≤ idLimit; decide
    count := Nat.zero_le _
    room := Nat.le_refl _
    absent := fun _ _ => rfl
    stands := fun _ _ present => by cases present
    distinct := .nil
    present := fun _ mem => by cases mem
    cancelled := fun _ mem => by cases mem
    once := .nil }

theorem LedgerFollows.advance (follows : system.LedgerFollows) (told : system.mirrors = [])
    (same : after.task_delivery = system.task_delivery)
    (cancels : after.cancels = system.cancels) {updates : List LedgerUpdate}
    (mirrors : after.mirrors = if system.task_delivery.isSome then updates else [])
    (moved : ∀ ledger, MirrorInv system.toSubagentManager ledger [] system.cancels →
      MirrorInv after.toSubagentManager ledger updates system.cancels) :
    after.LedgerFollows := by
  rcases follows with ⟨delivery, attached, inv⟩
  rw [told] at inv
  refine ⟨delivery, same.trans attached, ?_⟩
  rw [mirrors, attached, cancels]
  exact moved delivery.ledger inv

/-- A section under the lock keeps the two together, when what it spawns fits and what it ends
has started. -/
theorem LedgerFollows.criticalSection {action : SubagentAction} (follows : system.LedgerFollows)
    (told : system.mirrors = []) (fits : MirrorFits system action)
    (stepped : system.criticalSection action = some after) : after.LedgerFollows := by
  cases action with
  | spawn request surroundings =>
      cases stepped
      exact follows.advance told rfl rfl rfl fun _ inv => inv.spawn fits
  | spawnMany specs request_session_key budget_ms now =>
      cases stepped
      exact follows.advance told rfl rfl rfl fun _ inv => inv.spawnMany fits
  | markTaskRunning task_id now =>
      cases stepped
      exact follows.advance told rfl rfl rfl fun _ inv => inv.markTaskRunning
  | completeTask task_id result err_msg surroundings =>
      cases stepped
      exact follows.advance told rfl rfl rfl fun _ inv => inv.completeTask fits
  | cancelQueued task_id now =>
      cases stepped
      rcases follows with ⟨delivery, attached, inv⟩
      rw [told] at inv
      refine ⟨delivery, attached, ?_⟩
      rw [told]
      dsimp only
      split
      case isTrue cancelled => exact inv.cancelQueued.1 cancelled.1
      case isFalse kept =>
          refine inv.cancelQueued.2 fun cancelled => kept ⟨cancelled, ?_⟩
          rw [attached, Option.isSome_some]
  | collectOverdue reaper now_ms =>
      rw [SubagentSystem.criticalSection] at stepped
      split at stepped
      case h_1 => cases stepped
      case h_2 =>
          cases stepped
          exact follows
  | reapTask reaper task_id surroundings =>
      rw [SubagentSystem.criticalSection] at stepped
      split at stepped
      case h_1 => cases stepped
      case h_2 reaping present =>
          split at stepped
          case isFalse => cases stepped
          case isTrue =>
              cases stepped
              exact follows.advance told rfl rfl rfl fun _ inv => inv.completeTask fits
  | expireBatches reaper =>
      rw [SubagentSystem.criticalSection] at stepped
      split at stepped
      case h_1 => cases stepped
      case h_2 reaping present =>
          split at stepped
          case isFalse => cases stepped
          case isTrue done =>
              cases stepped
              rcases follows with ⟨delivery, attached, inv⟩
              exact ⟨delivery, attached, inv.congr rfl rfl⟩
  | mirror => cases stepped
  | mirrorCancel task_id now => cases stepped

theorem LedgerFollows.step {action : SubagentAction} (follows : system.LedgerFollows)
    (fits : MirrorFits system action)
    (stepped : SubagentSystem.step system action = some after) : after.LedgerFollows := by
  rw [SubagentSystem.step.eq_def] at stepped
  split at stepped
  case h_1 =>
      rcases follows with ⟨delivery, attached, inv⟩
      split at stepped
      case h_1 => cases stepped
      case h_2 update rest waiting =>
          cases stepped
          rw [waiting] at inv
          exact ⟨update.mirror delivery, congrArg (Option.map update.mirror) attached, inv.mirror⟩
  case h_2 task_id now =>
      rcases follows with ⟨delivery, attached, inv⟩
      split at stepped
      case isFalse => cases stepped
      case isTrue mem =>
          cases stepped
          have printed := bufPrintTaskId_of_lt (inv.task_id_lt (inv.cancelled task_id mem))
          refine ⟨_, congrArg (Option.map _) attached, ?_⟩
          simp only [printed]
          exact inv.mirrorCancel mem
  case h_3 =>
      split at stepped
      case isFalse => cases stepped
      case isTrue told => exact follows.criticalSection told fits stepped

theorem LedgerFollows.ledgerMirrors (follows : system.LedgerFollows) : LedgerMirrors system := by
  intro told heard task_id state present
  rcases follows with ⟨delivery, attached, inv⟩
  rw [told, heard] at inv
  have shown : delivery.ledger.statusOf task_id = some state.ledgerStatus := by
    cases inv.stands task_id state present with
    | settled _ _ shown => exact shown
    | creating mem => cases mem
    | moving mem => cases mem
    | cancelling mem => cases mem
  rcases Option.map_eq_some_iff.mp shown with ⟨entry, found, status⟩
  exact ⟨delivery, entry, attached, found, status⟩

/-- In every interleaving in which what is spawned fits in the ledger and no task ends while it
is queued, the ledger shows every task of the manager as it is whenever nothing is in progress. -/
theorem ledger_mirrors_of_mirrorFits {max_concurrent : ℕ} {actions : List SubagentAction}
    {final : SubagentSystem}
    (meets : Machine.Meets step MirrorFits (init max_concurrent (some .init)) actions)
    (reached : Machine.run step (init max_concurrent (some .init)) actions = some final) :
    LedgerMirrors final :=
  LedgerFollows.ledgerMirrors (Machine.run_invariant_of_meets
    (fun _ _ _ follows fits stepped => follows.step fits stepped)
    (ledgerFollows_init max_concurrent) meets reached)

/-- A task for the examples. -/
def readNotes : SpawnRequest where
  task := ascii "read the notes"
  label := ascii "notes"
  request_session_key := ascii "agent:zaki-bot:user:1:main"
  origin_channel := ascii "agent"
  origin_chat_id := ascii "chat"

/-- Two tasks, of which the second is cancelled while the first runs. -/
def cancelSecond : List SubagentAction :=
  [.spawn readNotes ⟨0, true, true⟩, .mirror, .spawn readNotes ⟨1, true, true⟩, .mirror,
    .cancelQueued 2 2, .markTaskRunning 1 3, .mirror, .mirrorCancel 2 4,
    .completeTask 1 (some ⟨.completed, ascii "read", none⟩) none ⟨5, true, true⟩, .mirror]

/-- A batch whose only task is ended by the reaper before it starts. -/
def reapQueued : List SubagentAction :=
  [.spawnMany [(readNotes, ⟨0, true, true⟩)] readNotes.request_session_key 30000 0, .mirror,
    .collectOverdue 0 30000, .reapTask 0 1 ⟨30001, true, true⟩, .mirror, .expireBatches 0]

/-- The statuses of a ledger, in the order of its entries. -/
def ledgerStatuses (system : SubagentSystem) : List Tasks.TaskStatus :=
  (system.task_delivery.map fun delivery => delivery.ledger.entries.map (·.status)).getD []

/-- Both tasks fit, and the one that ends has started. -/
theorem ledger_mirrors_cancelSecond :
    ∃ final, Machine.run step (init 8 (some .init)) cancelSecond = some final ∧
      LedgerMirrors final ∧ final.ledgerStatuses = [.succeeded, .cancelled] := by
  have statuses : (Machine.run step (init 8 (some .init)) cancelSecond).map ledgerStatuses =
      some [.succeeded, .cancelled] := by
    decide
  rcases Option.map_eq_some_iff.mp statuses with ⟨final, reached, shape⟩
  refine ⟨final, reached, ledger_mirrors_of_mirrorFits ?_ reached, shape⟩
  have fits {manager : SubagentManager} {surroundings : SpawnSurroundings}
      (few : manager.next_id ≤ 2) (few' : manager.taskCount ≤ 1)
      (allocates : surroundings.allocates = true) : SpawnFits manager [surroundings] := by
    refine ⟨?_, ?_, fun other mem => List.mem_singleton.mp mem ▸ allocates⟩
    · exact Nat.le_trans (Nat.add_le_add_right few' 1) (by decide)
    · exact Nat.le_trans (Nat.add_le_add_right few 1) (by decide)
  exact .cons (fits (by decide) (by decide) rfl) rfl (.cons trivial rfl
    (.cons (fits (by decide) (by decide) rfl) rfl (.cons trivial rfl (.cons trivial rfl
      (.cons trivial rfl (.cons trivial rfl (.cons trivial rfl
        (.cons (fun state found => by cases found; decide) rfl (.cons trivial rfl trivial)))))))))

/-- The ledger does not always show every task as it is: it keeps a task queued that the reaper
has ended. -/
theorem not_ledger_mirrors :
    ¬ ∀ max_concurrent actions final,
      Machine.run step (init max_concurrent (some .init)) actions = some final →
        LedgerMirrors final := by
  intro mirrors
  have reaped : (Machine.run step (init 8 (some .init)) reapQueued).map (fun final =>
      (final.mirrors, final.cancels, (final.tasks 1).map TaskState.ledgerStatus,
        final.ledgerStatuses)) = some ([], [], some .timed_out, [.queued]) := by
    decide
  rcases Option.map_eq_some_iff.mp reaped with ⟨final, reached, shape⟩
  simp only [Prod.mk.injEq, Option.map_eq_some_iff] at shape
  rcases shape with ⟨told, heard, ⟨state, present, timedOut⟩, shown⟩
  rcases mirrors 8 reapQueued final reached told heard 1 state present with
    ⟨delivery, entry, attached, found, status⟩
  have mem : entry.status ∈ final.ledgerStatuses := by
    rw [ledgerStatuses, attached]
    exact List.mem_map_of_mem (List.mem_of_find?_eq_some found)
  rw [shown, List.mem_singleton, status, timedOut] at mem
  cases mem

end SubagentSystem

end Nullalis.Subagent
