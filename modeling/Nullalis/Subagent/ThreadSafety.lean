import Nullalis.Subagent.Threads

/-!
# The limit on subagents

The manager limits its subagents by the number of tasks that are queued or running, and not by
its threads. The two agree as long as every thread that has started its task and not handed in
a result stands for a running task of its own (`SlotInv`). That breaks where a task ends while
its thread goes on: when the reaper ends a running task, and when a ledger is attached to a
manager whose threads are at work. The latter also waits for threads that wait for the lock.
-/

namespace Nullalis.Subagent

open Tasks (TaskDelivery)

/-- No reaper ends a running task. The map is emptied when no thread has still to take the lock,
and a ledger is recovered when no task is queued or running. -/
def SlotsKept (system : ThreadedSystem) : ThreadAction → Prop
  | .manage (.reapTask _ task_id _) =>
      ∀ state, system.tasks task_id = some state → state.status ≠ .running
  | .attachPostgresLedger _ => ∀ thread, (system.threads thread).phase.needsMutex = false
  | .recoverDurableState _ _ =>
      ∀ task_id state, system.tasks task_id = some state → state.active = false
  | _ => True

/-- No more threads execute their tasks than are allowed, and a thread that is joined with the
lock held has no need of it. -/
structure ThreadsSafe (system : ThreadedSystem) : Prop where
  capped : system.executingCount ≤ system.max_concurrent
  joinable : ∀ thread rest, system.clearing = some (thread :: rest) →
    (system.threads thread).phase.needsMutex = false

/-!
## Tasks and slots
-/

def TaskState.running (state : TaskState) : Bool :=
  state.status == .running

namespace SubagentManager

def runningTasks (manager : SubagentManager) : ℕ :=
  Threads.count (Option.any TaskState.running) manager.tasks manager.next_id

end SubagentManager

/-- What holds of the map while some threads are busy: each of them has a running task, and the
tasks that are queued or running are counted and within the limit. -/
structure SlotInv (manager : SubagentManager) (busy : ℕ) : Prop where
  below : ∀ task_id, manager.next_id ≤ task_id → (manager.tasks task_id).any TaskState.active = false
  capped : manager.getRunningCountLocked ≤ manager.max_concurrent
  slots : busy ≤ manager.runningTasks

section Manager

variable {manager after : SubagentManager} {busy left task_id : ℕ} {state next : TaskState}

theorem active_of_running (running : state.running = true) : state.active = true := by
  simp only [TaskState.running, TaskState.active, Bool.or_eq_true] at *
  exact Or.inr running

theorem running_eq_false (inactive : state.active = false) : state.running = false := by
  cases running : state.running with
  | false => rfl
  | true => simp [active_of_running running] at inactive

theorem SlotInv.busy_le (inv : SlotInv manager busy) : busy ≤ manager.max_concurrent := by
  have weaker : manager.runningTasks ≤ manager.getRunningCountLocked := by
    apply Threads.count_mono
    intro task_id _ running
    rw [Option.any_eq_true] at running ⊢
    rcases running with ⟨state, present, running⟩
    exact ⟨state, present, active_of_running running⟩
  have slots := inv.slots
  have capped := inv.capped
  omega

theorem SlotInv.mono (inv : SlotInv manager busy) (fewer : left ≤ busy) : SlotInv manager left where
  below := inv.below
  capped := inv.capped
  slots := Nat.le_trans fewer inv.slots

/-- A task is replaced by one that is active only if the old one is. The threads that are busy
afterwards are as many more, or fewer, as the tasks that run. -/
theorem SlotInv.replace (inv : SlotInv manager busy) (present : manager.tasks task_id = some state)
    (tasks : after.tasks = Function.update manager.tasks task_id (some next))
    (next_id : after.next_id = manager.next_id)
    (limit : after.max_concurrent = manager.max_concurrent)
    (activity : next.active = true → state.active = true)
    (balance : left + state.running.toNat ≤ busy + next.running.toNat) :
    SlotInv after left := by
  have capped := inv.capped
  have slots := inv.slots
  have activeOf : (Option.any TaskState.active (some state)) = state.active := rfl
  by_cases inside : task_id < manager.next_id
  · have active := Threads.count_update (Option.any TaskState.active) manager.tasks (some next) inside
    have running := Threads.count_update (Option.any TaskState.running) manager.tasks (some next) inside
    simp only [present, Option.any_some] at active running
    constructor
    · intro other beyond
      rw [tasks, Function.update_of_ne (by omega)]
      exact inv.below other (by omega)
    · have fewer : next.active.toNat ≤ state.active.toNat := Bool.toNat_le_toNat activity
      simp only [SubagentManager.getRunningCountLocked, tasks, next_id, limit] at *
      omega
    · simp only [SubagentManager.runningTasks, tasks, next_id] at *
      omega
  · have inactive : state.active = false := by
      have below := inv.below task_id (by omega)
      rwa [present] at below
    have ended : next.active = false := by
      cases active : next.active with
      | false => rfl
      | true => simp [activity active] at inactive
    rw [running_eq_false inactive, running_eq_false ended] at balance
    constructor
    · intro other beyond
      rw [tasks]
      by_cases same : other = task_id
      · subst same
        simpa using ended
      · rw [Function.update_of_ne same]
        exact inv.below other (by omega)
    · simp only [SubagentManager.getRunningCountLocked, tasks, next_id, limit] at *
      rwa [Threads.count_update_of_le _ _ _ (by omega)]
    · simp only [SubagentManager.runningTasks, tasks, next_id] at *
      rw [Threads.count_update_of_le _ _ _ (by omega)]
      simp only [Bool.toNat_false] at balance
      omega

theorem SlotInv.put {entry : Option TaskState} (inv : SlotInv manager busy)
    (tasks : after.tasks = Function.update manager.tasks manager.next_id entry)
    (next_id : after.next_id = manager.next_id + 1)
    (limit : after.max_concurrent = manager.max_concurrent)
    (waiting : entry.any TaskState.running = false)
    (room : manager.getRunningCountLocked + (entry.any TaskState.active).toNat ≤
      manager.max_concurrent) :
    SlotInv after busy ∧ after.getRunningCountLocked ≤ manager.getRunningCountLocked + 1 ∧
      after.max_concurrent = manager.max_concurrent := by
  have counted (holds : Option TaskState → Bool) :
      Threads.count holds after.tasks after.next_id =
        Threads.count holds manager.tasks manager.next_id + (holds entry).toNat := by
    rw [tasks, next_id, Threads.count_succ, Function.update_self,
      Threads.count_update_of_le _ _ _ (Nat.le_refl _)]
  have active := counted (Option.any TaskState.active)
  have running := counted (Option.any TaskState.running)
  have atMost := Bool.toNat_le (entry.any TaskState.active)
  simp only [SubagentManager.getRunningCountLocked] at *
  refine ⟨⟨?_, ?_, ?_⟩, by omega, limit⟩
  · intro task_id beyond
    rw [tasks, Function.update_of_ne (by omega)]
    exact inv.below task_id (by omega)
  · rw [limit]
    exact Nat.le_trans (Nat.le_of_eq active) room
  · rw [waiting, Bool.toNat_false, Nat.add_zero] at running
    exact Nat.le_trans inv.slots (Nat.le_of_eq running.symm)

theorem SlotInv.spawnInBatchLocked (inv : SlotInv manager busy) (request : SpawnRequest)
    (batch_id : Option Bytes) (surroundings : SpawnSurroundings)
    (room : manager.getRunningCountLocked + 1 ≤ manager.max_concurrent) :
    let spawned := (manager.spawnInBatchLocked request batch_id surroundings).2.1
    SlotInv spawned busy ∧
      spawned.getRunningCountLocked ≤ manager.getRunningCountLocked + 1 ∧
        spawned.max_concurrent = manager.max_concurrent := by
  simp only [SubagentManager.spawnInBatchLocked]
  split
  case isTrue => exact inv.put rfl rfl rfl rfl room
  case isFalse => exact inv.put rfl rfl rfl rfl (by simp; omega)

theorem SlotInv.spawnLoop (batch_id : Bytes) {specs : List (SpawnRequest × SpawnSurroundings)}
    (inv : SlotInv manager busy)
    (room : manager.getRunningCountLocked + specs.length ≤ manager.max_concurrent) :
    SlotInv (manager.spawnLoop batch_id specs).2.1 busy := by
  induction specs generalizing manager with
  | nil => exact inv
  | cons spec rest ih =>
      rcases spec with ⟨request, surroundings⟩
      rw [List.length_cons] at room
      have first := inv.spawnInBatchLocked request (some batch_id) surroundings (by omega)
      rw [SubagentManager.spawnLoop]
      generalize manager.spawnInBatchLocked request (some batch_id) surroundings = spawned at *
      rcases spawned with ⟨outcome, next, updates⟩
      rcases first with ⟨kept, counted, limit⟩
      dsimp only at kept counted limit
      cases outcome with
      | error error => exact kept
      | ok task_id => exact ih kept (by omega)

theorem SlotInv.spawn {request : SpawnRequest} {surroundings : SpawnSurroundings}
    (inv : SlotInv manager busy) : SlotInv (manager.spawn request surroundings).2.1 busy := by
  rw [SubagentManager.spawn]
  split
  case isTrue => exact inv
  case isFalse room => exact (inv.spawnInBatchLocked request none surroundings (by omega)).1

theorem SlotInv.congr (inv : SlotInv manager busy) (tasks : after.tasks = manager.tasks)
    (next_id : after.next_id = manager.next_id)
    (limit : after.max_concurrent = manager.max_concurrent) : SlotInv after busy := by
  rcases inv with ⟨below, capped, slots⟩
  simp only [SubagentManager.getRunningCountLocked, SubagentManager.runningTasks] at capped slots
  constructor <;>
    simpa only [SubagentManager.getRunningCountLocked, SubagentManager.runningTasks, tasks, next_id,
      limit]

theorem SlotInv.spawnMany {specs : List (SpawnRequest × SpawnSurroundings)}
    {request_session_key : Bytes} {budget_ms now : ℤ} (inv : SlotInv manager busy) :
    SlotInv (manager.spawnMany specs request_session_key budget_ms now).2.1 busy := by
  rw [SubagentManager.spawnMany]
  split
  case isTrue => exact inv
  case isFalse =>
      split
      case isTrue => exact inv
      case isFalse room =>
          have capped := inv.capped
          have room : manager.getRunningCountLocked + specs.length ≤ manager.max_concurrent := by
            rw [SubagentManager.remainingCapacityLocked] at room
            omega
          have kept := inv.spawnLoop (formatBatchId manager.next_id now) room
          dsimp only
          split
          case isTrue => exact kept
          case isFalse => exact kept.congr rfl rfl rfl

theorem SlotInv.markTaskRunning {now : ℤ} (inv : SlotInv manager busy) :
    SlotInv (manager.markTaskRunning task_id now).2.1
      (busy + (manager.markTaskRunning task_id now).1.toNat) := by
  rw [SubagentManager.markTaskRunning]
  split
  case h_1 => exact inv
  case h_2 state present =>
      split
      case isTrue queued =>
          refine inv.replace present rfl rfl rfl ?_ ?_
          · intro
            simp [TaskState.active, queued]
          · simp [TaskState.running, queued]
      case isFalse => exact inv

theorem completed_active {result : Option SubagentResult} {err_msg : Option Bytes}
    {surroundings : CompletionSurroundings} :
    (SubagentManager.completed state result err_msg surroundings).active = false := by
  simp only [TaskState.active, SubagentManager.completed]
  generalize (if surroundings.copiesError then err_msg else none).isSome = failed
  cases failed <;> rfl

theorem SlotInv.completeTask {result : Option SubagentResult} {err_msg : Option Bytes}
    {surroundings : CompletionSurroundings} (inv : SlotInv manager busy)
    (balance : ∀ state, manager.tasks task_id = some state →
      left + state.running.toNat ≤ busy) (fewer : left ≤ busy) :
    SlotInv (manager.completeTask task_id result err_msg surroundings).2.1 left := by
  rw [SubagentManager.completeTask]
  split
  case h_1 => exact inv.mono fewer
  case h_2 state present =>
      split
      case isTrue => exact inv.mono fewer
      case isFalse =>
          have ended : (SubagentManager.completed state result err_msg surroundings).active = false :=
            completed_active
          have replaced {after : SubagentManager}
              (tasks : after.tasks = Function.update manager.tasks task_id
                (some (SubagentManager.completed state result err_msg surroundings)))
              (next_id : after.next_id = manager.next_id)
              (limit : after.max_concurrent = manager.max_concurrent) : SlotInv after left := by
            apply inv.replace present tasks next_id limit
            · simp [ended]
            · simpa [running_eq_false ended] using balance state present
          dsimp only
          split <;> exact replaced rfl rfl rfl

theorem SlotInv.cancelQueued {now : ℤ} (inv : SlotInv manager busy) :
    SlotInv (manager.cancelQueued task_id now).2 busy := by
  rw [SubagentManager.cancelQueued]
  split
  case h_1 => exact inv
  case h_2 state present =>
      split
      case h_1 queued =>
          refine inv.replace present rfl rfl rfl ?_ ?_
          · simp [TaskState.active]
          · simp only [TaskState.running, queued]
            exact Nat.le_refl _
      all_goals exact inv

theorem slotInv_clearTasks : SlotInv manager.clearTasks 0 where
  below _ _ := rfl
  capped := by
    rw [SubagentManager.getRunningCountLocked, Threads.count_eq_zero fun _ _ => rfl]
    exact Nat.zero_le _
  slots := Nat.zero_le _

theorem inactive_recoverDurableState {rows : List (ℕ × TaskState)} {recovered_at : ℤ} :
    ((manager.recoverDurableState (some rows) recovered_at).tasks task_id).any TaskState.active =
      false := by
  simp only [SubagentManager.recoverDurableState,
    SubagentManager.finalizeRecoveredInFlightLocked]
  cases (manager.recoverRows rows).tasks task_id with
  | none => rfl
  | some state =>
      simp only [Option.map_some, Option.any_some, SubagentManager.givenUp]
      split
      case isTrue => rfl
      case isFalse inactive => simpa using inactive

theorem slotInv_recoverDurableState {rows : Option (List (ℕ × TaskState))} {recovered_at : ℤ}
    (inv : SlotInv manager 0) : SlotInv (manager.recoverDurableState rows recovered_at) 0 := by
  cases rows with
  | none => exact inv
  | some rows =>
      constructor
      · intro task_id _
        exact inactive_recoverDurableState
      · rw [SubagentManager.getRunningCountLocked,
          Threads.count_eq_zero fun task_id _ => inactive_recoverDurableState]
        exact Nat.zero_le _
      · exact Nat.zero_le _

end Manager

/-!
## Steps of the system
-/

section System

variable {before next : SubagentSystem} {busy : ℕ}

/-- A step that is not made by the thread of a task leaves the busy threads their slots, unless
it reaps a running task. -/
theorem SlotInv.manage {action : SubagentAction} (inv : SlotInv before.toSubagentManager busy)
    (foreign : action.byTaskThread = false)
    (kept : ∀ reaper task_id surroundings, action = .reapTask reaper task_id surroundings →
      ∀ state, before.tasks task_id = some state → state.status ≠ .running)
    (stepped : before.step action = some next) : SlotInv next.toSubagentManager busy := by
  cases action with
  | mirror =>
      simp only [SubagentSystem.step] at stepped
      split at stepped
      · cases stepped
      · cases stepped
        exact inv
  | mirrorCancel task_id now =>
      simp only [SubagentSystem.step] at stepped
      split at stepped
      · cases stepped
        exact inv
      · cases stepped
  | spawn request surroundings =>
      simp only [SubagentSystem.step, SubagentSystem.criticalSection] at stepped
      split at stepped
      · cases stepped
        exact inv.spawn
      · cases stepped
  | spawnMany specs request_session_key budget_ms now =>
      simp only [SubagentSystem.step, SubagentSystem.criticalSection] at stepped
      split at stepped
      · cases stepped
        exact inv.spawnMany
      · cases stepped
  | markTaskRunning task_id now => cases foreign
  | completeTask task_id result err_msg surroundings => cases foreign
  | cancelQueued task_id now =>
      simp only [SubagentSystem.step, SubagentSystem.criticalSection] at stepped
      split at stepped
      · cases stepped
        exact inv.cancelQueued
      · cases stepped
  | collectOverdue reaper now_ms =>
      simp only [SubagentSystem.step, SubagentSystem.criticalSection] at stepped
      split at stepped
      · split at stepped
        · cases stepped
        · cases stepped
          exact inv
      · cases stepped
  | reapTask reaper task_id surroundings =>
      simp only [SubagentSystem.step, SubagentSystem.criticalSection] at stepped
      split at stepped
      · split at stepped
        · cases stepped
        · split at stepped
          · cases stepped
            apply inv.completeTask
            · intro state present
              have idle := kept reaper task_id surroundings rfl state present
              simp [TaskState.running, idle]
            · exact Nat.le_refl busy
          · cases stepped
      · cases stepped
  | expireBatches reaper =>
      simp only [SubagentSystem.step, SubagentSystem.criticalSection] at stepped
      split at stepped
      · split at stepped
        · cases stepped
        · split at stepped
          · cases stepped
            exact inv.congr rfl rfl rfl
          · cases stepped
      · cases stepped

theorem markTaskRunning_of_step {task_id : ℕ} {now : ℤ}
    (stepped : before.step (.markTaskRunning task_id now) = some next) :
    next.toSubagentManager = (before.toSubagentManager.markTaskRunning task_id now).2.1 := by
  simp only [SubagentSystem.step, SubagentSystem.criticalSection] at stepped
  split at stepped
  · cases stepped
    rfl
  · cases stepped

theorem completeTask_of_step {task_id : ℕ} {result : Option SubagentResult}
    {err_msg : Option Bytes} {surroundings : CompletionSurroundings}
    (stepped : before.step (.completeTask task_id result err_msg surroundings) = some next) :
    next.toSubagentManager =
      (before.toSubagentManager.completeTask task_id result err_msg surroundings).2.1 := by
  simp only [SubagentSystem.step, SubagentSystem.criticalSection] at stepped
  split at stepped
  · cases stepped
    rfl
  · cases stepped

end System

/-!
## Steps of the threads
-/

namespace ThreadedSystem

/-- How many threads have started their task and not handed in a result. -/
def busyCount (system : ThreadedSystem) : ℕ :=
  Threads.count (fun thread => thread.phase.busy) system.threads system.started

/-- What holds between two steps. While the map is being emptied no thread needs the lock. -/
structure SlotsInv (system : ThreadedSystem) : Prop where
  slots : SlotInv system.toSubagentManager system.busyCount
  fresh : ∀ thread, system.started ≤ thread → (system.threads thread).phase = .finished
  quiet : system.clearing.isSome = true →
    ∀ thread, (system.threads thread).phase.needsMutex = false

theorem slotsInv_init (max_concurrent : ℕ) (task_delivery : Option TaskDelivery)
    (rows : Option (List (ℕ × TaskState))) (recovered_at : ℤ) :
    (init max_concurrent task_delivery rows recovered_at).SlotsInv where
  slots := slotInv_recoverDurableState {
    below := fun _ _ => rfl
    capped := Nat.zero_le _
    slots := Nat.zero_le _ }
  fresh _ _ := rfl
  quiet clearing := by cases clearing

variable {system next : ThreadedSystem} {thread : ℕ} {phase : ThreadPhase}

theorem not_busy (apart : phase.needsMutex = false) : phase.busy = false := by
  cases phase <;> first | rfl | cases apart

theorem SlotsInv.lt_started (inv : system.SlotsInv)
    (standing : (system.threads thread).phase ≠ .finished) : thread < system.started := by
  apply Nat.lt_of_not_le
  intro beyond
  exact standing (inv.fresh thread beyond)

theorem busyCount_move (started : thread < system.started) :
    (system.move thread phase).busyCount + (system.threads thread).phase.busy.toNat =
      system.busyCount + phase.busy.toNat := by
  exact Threads.count_update _ system.threads { system.threads thread with phase } started

theorem SlotsInv.move {later : SubagentSystem} (inv : system.SlotsInv)
    (standing : (system.threads thread).phase ≠ .finished)
    (slots : ∀ busy, busy + (system.threads thread).phase.busy.toNat =
      system.busyCount + phase.busy.toNat → SlotInv later.toSubagentManager busy)
    (quiet : system.clearing.isSome = true → phase.needsMutex = false) :
    ((system.advance later).move thread phase).SlotsInv where
  slots := slots _ (busyCount_move (inv.lt_started standing))
  fresh other beyond := by
    have beyond : system.started ≤ other := beyond
    have started := inv.lt_started standing
    simp only [ThreadedSystem.move]
    rw [Function.update_of_ne (by omega)]
    exact inv.fresh other beyond
  quiet clearing other := by
    simp only [ThreadedSystem.move]
    by_cases same : other = thread
    · subst same
      simpa using quiet clearing
    · rw [Function.update_of_ne same]
      exact inv.quiet clearing other

theorem SlotsInv.startThread (inv : system.SlotsInv) (free : system.clearing = none)
    (task_id : ℕ) : (system.startThread task_id).SlotsInv where
  slots := by
    have same : (system.startThread task_id).busyCount = system.busyCount := by
      simp only [busyCount, ThreadedSystem.startThread, Threads.count_succ, Function.update_self,
        Threads.count_update_of_le _ _ _ (Nat.le_refl _)]
      rfl
    rw [same]
    exact inv.slots
  fresh other beyond := by
    have beyond : system.started + 1 ≤ other := beyond
    simp only [ThreadedSystem.startThread]
    rw [Function.update_of_ne (by omega)]
    exact inv.fresh other (by omega)
  quiet clearing := by
    have clearing : system.clearing.isSome = true := clearing
    simp [free] at clearing

theorem SlotsInv.startThreads (inv : system.SlotsInv) (free : system.clearing = none)
    (task_ids : List ℕ) : (task_ids.foldl ThreadedSystem.startThread system).SlotsInv := by
  induction task_ids generalizing system with
  | nil => exact inv
  | cons task_id rest ih => exact ih (inv.startThread free task_id) free

theorem SlotsInv.advance {later : SubagentSystem} (inv : system.SlotsInv)
    (slots : SlotInv later.toSubagentManager system.busyCount) :
    (system.advance later).SlotsInv where
  slots := slots
  fresh := inv.fresh
  quiet := inv.quiet

theorem clearing_of_unlocked (free : system.unlocked = true) : system.clearing = none := by
  simp only [unlocked, Bool.and_eq_true, Option.isNone_iff_eq_none] at free
  exact free.2

theorem startedBy_of_not_takesLock {manager : SubagentManager} {action : SubagentAction}
    (apart : action.takesLock = false) : action.startedBy manager = [] := by
  cases action <;> first | rfl | cases apart

theorem SlotsInv.manage {action : SubagentAction} (inv : system.SlotsInv)
    (kept : SlotsKept system (.manage action))
    (stepped : system.step (.manage action) = some next) : next.SlotsInv := by
  simp only [step] at stepped
  split at stepped
  case isTrue => cases stepped
  case isFalse guard =>
      simp only [Bool.or_eq_true, Bool.and_eq_true, not_or, not_and, Bool.not_eq_true,
        Bool.not_eq_true', Bool.not_eq_false] at guard
      rcases Option.map_eq_some_iff.mp stepped with ⟨later, managed, rfl⟩
      have slots : SlotInv later.toSubagentManager system.busyCount := by
        apply inv.slots.manage guard.1 _ managed
        intro reaper task_id surroundings same
        rw [same] at kept
        exact kept
      cases takes : action.takesLock with
      | true =>
          have free : system.clearing = none := clearing_of_unlocked (guard.2 takes)
          exact (inv.advance slots).startThreads free _
      | false =>
          rw [startedBy_of_not_takesLock takes]
          exact inv.advance slots

theorem SlotsInv.markTaskRunning {now : ℤ} (inv : system.SlotsInv)
    (stepped : system.step (.markTaskRunning thread now) = some next) : next.SlotsInv := by
  simp only [step] at stepped
  split at stepped
  case isFalse => cases stepped
  case isTrue guard =>
      rcases guard with ⟨parked, free⟩
      rcases Option.map_eq_some_iff.mp stepped with ⟨later, marked, rfl⟩
      apply inv.move
      · simp [parked]
      · intro busy balance
        rw [markTaskRunning_of_step marked]
        apply inv.slots.markTaskRunning.mono
        cases accepted : (system.toSubagentManager.markTaskRunning
          (system.threads thread).task_id now).1 <;>
          simpa [parked, accepted, ThreadPhase.busy] using Nat.le_of_eq balance
      · simp [clearing_of_unlocked free]

theorem SlotsInv.completeTask {result : Option SubagentResult} {err_msg : Option Bytes}
    {surroundings : CompletionSurroundings} (inv : system.SlotsInv)
    (stepped : system.step (.completeTask thread result err_msg surroundings) = some next) :
    next.SlotsInv := by
  simp only [step] at stepped
  split at stepped
  case isFalse => cases stepped
  case isTrue guard =>
      rcases guard with ⟨completing, free⟩
      rcases Option.map_eq_some_iff.mp stepped with ⟨later, ended, rfl⟩
      apply inv.move
      · simp [completing]
      · intro busy balance
        simp only [completing, ThreadPhase.busy, Bool.toNat_true, Bool.toNat_false] at balance
        rw [completeTask_of_step ended]
        apply inv.slots.completeTask
        · intro state _
          have atMost := Bool.toNat_le state.running
          omega
        · omega
      · simp [clearing_of_unlocked free]

/-- Every step that keeps to the condition leaves the busy threads their slots. -/
theorem SlotsInv.step {action : ThreadAction} (inv : system.SlotsInv)
    (kept : SlotsKept system action) (stepped : system.step action = some next) :
    next.SlotsInv := by
  cases action with
  | manage action => exact inv.manage kept stepped
  | markTaskRunning thread now => exact inv.markTaskRunning stepped
  | runnerReturns thread =>
      simp only [ThreadedSystem.step] at stepped
      split at stepped
      case isFalse => cases stepped
      case isTrue executing =>
          cases stepped
          refine SlotsInv.move inv ?_ ?_ ?_
          · simp [executing]
          · intro busy balance
            simp only [executing, ThreadPhase.busy, Nat.add_right_cancel_iff] at balance
            exact balance ▸ inv.slots
          · intro clearing
            have quiet := inv.quiet clearing thread
            simp [executing, ThreadPhase.needsMutex] at quiet
  | completeTask thread result err_msg surroundings => exact inv.completeTask stepped
  | exit thread =>
      simp only [ThreadedSystem.step] at stepped
      split at stepped
      case isFalse => cases stepped
      case isTrue ending =>
          cases stepped
          refine SlotsInv.move inv ?_ ?_ ?_
          · simp [ending]
          · intro busy balance
            simp only [ending, ThreadPhase.busy, Nat.add_right_cancel_iff] at balance
            exact balance ▸ inv.slots
          · intro _
            rfl
  | attachPostgresLedger order =>
      simp only [ThreadedSystem.step] at stepped
      split at stepped
      case isFalse => cases stepped
      case isTrue =>
          cases stepped
          exact ⟨inv.slots, inv.fresh, fun _ => kept⟩
  | join =>
      simp only [ThreadedSystem.step] at stepped
      split at stepped
      case h_1 first rest joining =>
          split at stepped
          case isFalse => cases stepped
          case isTrue =>
              cases stepped
              exact ⟨inv.slots, inv.fresh, fun _ => inv.quiet (by simp [joining])⟩
      case h_2 => cases stepped
  | clearTasks =>
      simp only [ThreadedSystem.step] at stepped
      split at stepped
      case isFalse => cases stepped
      case isTrue joined =>
          cases stepped
          have idle : system.busyCount = 0 := by
            apply Threads.count_eq_zero
            intro thread _
            exact not_busy (inv.quiet (by simp [joined]) thread)
          refine ⟨?_, inv.fresh, fun clearing => (by cases clearing)⟩
          exact idle ▸ slotInv_clearTasks
  | recoverDurableState rows recovered_at =>
      simp only [ThreadedSystem.step] at stepped
      split at stepped
      case isFalse => cases stepped
      case isTrue free =>
          cases stepped
          have idle : system.busyCount = 0 := by
            apply Nat.eq_zero_of_le_zero
            apply Nat.le_trans inv.slots.slots
            apply Nat.le_of_eq
            apply Threads.count_eq_zero
            intro task_id _
            rw [Option.any_eq_false]
            intro state present
            simp [running_eq_false (kept task_id state present)]
          refine ⟨?_, inv.fresh, inv.quiet⟩
          have slots := inv.slots
          rw [idle] at slots
          exact idle ▸ slotInv_recoverDurableState slots

theorem SlotsInv.safe (inv : system.SlotsInv) : ThreadsSafe system where
  capped := by
    apply Nat.le_trans _ inv.slots.busy_le
    apply Threads.count_mono
    intro thread _ executing
    have executing : (system.threads thread).phase = .executing := by simpa using executing
    simp [executing, ThreadPhase.busy]
  joinable thread rest clearing := inv.quiet (by simp [clearing]) thread

end ThreadedSystem

/-- As long as no reaper ends a running task and a ledger is attached to a manager at rest, no
more subagents are at work than allowed, and nobody waits for a thread that waits for him. -/
theorem threads_safe_of_slotsKept {max_concurrent : ℕ} {task_delivery : Option TaskDelivery}
    {rows : Option (List (ℕ × TaskState))} {recovered_at : ℤ} {actions : List ThreadAction}
    {system : ThreadedSystem}
    (kept : Machine.Meets ThreadedSystem.step SlotsKept
      (.init max_concurrent task_delivery rows recovered_at) actions)
    (reached : Machine.run ThreadedSystem.step
      (.init max_concurrent task_delivery rows recovered_at) actions = some system) :
    ThreadsSafe system := by
  refine ThreadedSystem.SlotsInv.safe ?_
  apply Machine.run_invariant_of_meets _ _ kept reached
  · intro state action next inv met stepped
    exact ThreadedSystem.SlotsInv.step inv met stepped
  · exact ThreadedSystem.slotsInv_init max_concurrent task_delivery rows recovered_at

/-- A task for the examples. -/
def summarize : SpawnRequest where
  task := ascii "summarize it"
  label := ascii "summary"
  request_session_key := ascii "agent:zaki-bot:user:1:main"
  origin_channel := ascii "agent"
  origin_chat_id := ascii "chat"

/-- A task that runs to its end, a ledger that is attached when its thread has ended, and a task
of the new map. -/
def attachAtRest : List ThreadAction :=
  [.manage (.spawn summarize ⟨0, true, true⟩),
    .markTaskRunning 0 1,
    .runnerReturns 0,
    .completeTask 0 (some ⟨.completed, ascii "done", none⟩) none ⟨2, true, true⟩,
    .exit 0,
    .attachPostgresLedger [0],
    .join,
    .clearTasks,
    .recoverDurableState (some []) 3,
    .manage (.spawn summarize ⟨4, true, true⟩),
    .markTaskRunning 1 5]

/-- The reaper ends a batch whose task is running, and another task takes its place. -/
def reapRunning : List ThreadAction :=
  [.manage (.spawnMany [(summarize, ⟨0, true, true⟩)] summarize.request_session_key 30000 0),
    .markTaskRunning 0 1,
    .manage (.collectOverdue 0 30000),
    .manage (.reapTask 0 1 ⟨30001, true, true⟩),
    .manage (.spawn summarize ⟨30002, true, true⟩),
    .markTaskRunning 1 30003]

/-- A ledger is attached before the thread of a task has taken the lock. -/
def attachAtWork : List ThreadAction :=
  [.manage (.spawn summarize ⟨0, true, true⟩), .attachPostgresLedger [0]]

theorem threads_safe_attachAtRest :
    ∃ system, Machine.run ThreadedSystem.step (.init 1 none none 0) attachAtRest = some system ∧
      ThreadsSafe system ∧ system.executingCount = 1 := by
  have executing : (Machine.run ThreadedSystem.step (.init 1 none none 0) attachAtRest).map
      ThreadedSystem.executingCount = some 1 := by
    decide
  rcases Option.map_eq_some_iff.mp executing with ⟨system, reached, shape⟩
  refine ⟨system, reached, threads_safe_of_slotsKept ?_ reached, shape⟩
  apply Machine.Meets.cons trivial rfl
  apply Machine.Meets.cons trivial rfl
  apply Machine.Meets.cons trivial rfl
  apply Machine.Meets.cons trivial rfl
  apply Machine.Meets.cons trivial rfl
  apply Machine.Meets.cons (fun thread => (by cases thread <;> rfl)) rfl
  apply Machine.Meets.cons trivial rfl
  apply Machine.Meets.cons trivial rfl
  apply Machine.Meets.cons (fun _ _ present => (by cases present)) rfl
  apply Machine.Meets.cons trivial rfl
  apply Machine.Meets.cons trivial rfl
  exact trivial

/-- The limit does not hold in every run, since a reaper frees the place of a task whose thread
goes on. Nor does the manager come to no standstill: a thread that empties the map holds the
lock and waits for one that waits for the lock. -/
theorem not_threads_safe :
    (¬ ∀ max_concurrent task_delivery rows recovered_at actions system,
      Machine.run ThreadedSystem.step (.init max_concurrent task_delivery rows recovered_at)
          actions = some system →
        system.executingCount ≤ system.max_concurrent) ∧
    ¬ ∀ max_concurrent task_delivery rows recovered_at actions system,
      Machine.run ThreadedSystem.step (.init max_concurrent task_delivery rows recovered_at)
          actions = some system →
        ∀ thread rest, system.clearing = some (thread :: rest) →
          (system.threads thread).phase.needsMutex = false := by
  constructor
  · intro capped
    have crowded : (Machine.run ThreadedSystem.step (.init 1 none none 0) reapRunning).map
        (fun system => (system.executingCount, system.max_concurrent)) = some (2, 1) := by
      decide
    rcases Option.map_eq_some_iff.mp crowded with ⟨system, reached, shape⟩
    rw [Prod.mk.injEq] at shape
    have limit := capped 1 none none 0 reapRunning system reached
    omega
  · intro joinable
    have stuck : (Machine.run ThreadedSystem.step (.init 1 none none 0) attachAtWork).map
        (fun system => (system.clearing, (system.threads 0).phase.needsMutex)) =
          some (some [0], true) := by
      decide
    rcases Option.map_eq_some_iff.mp stuck with ⟨system, reached, shape⟩
    rw [Prod.mk.injEq] at shape
    have free := joinable 1 none none 0 attachAtWork system reached 0 [] shape.1
    rw [shape.2] at free
    cases free

end Nullalis.Subagent
