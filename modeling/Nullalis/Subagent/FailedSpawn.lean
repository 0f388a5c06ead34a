import Mathlib.Logic.Function.Basic
import Nullalis.Base.Bytes
import Nullalis.Base.Rollback

/-!
# Spawns and registrations that fail

The spawn of a task and the registration of a batch with the blocks that they allocate. What the
blocks hold does not matter here, only when they are freed.

Every point at which a call can fail is named, and which of them fail is an input. What a
registration allocates for names that a map has already never fails.
-/

namespace Nullalis.Subagent

open Rollback

/-!
## The spawn of a task
-/

/-- Where the spawn of a task can fail. The name of an error does not count. -/
inductive SpawnPoint where
  | state
  | label
  | task_summary
  | prompt
  | session
  | runtime_session
  | channel
  | chat
  | batch_id
  | put
  | task_copy
  | label_copy
  | request_session_copy
  | origin_channel_copy
  | origin_chat_copy
  | ctx
  | thread
  | error_name
deriving DecidableEq

/-- The record of a task, by the blocks it consists of. -/
structure TaskBlocks where
  state : ℕ
  label : ℕ
  task_summary : ℕ
  task_prompt : ℕ
  session_key : ℕ
  runtime_session_key : ℕ
  origin_channel : ℕ
  origin_chat_id : ℕ
  batch_id : Option ℕ
  error_msg : Option ℕ := none
deriving DecidableEq

/-- The blocks in the order in which they are freed. -/
def TaskBlocks.owned (task : TaskBlocks) : List ℕ :=
  task.error_msg.toList ++
    [task.session_key, task.runtime_session_key, task.origin_channel, task.origin_chat_id] ++
    task.batch_id.toList ++ [task.label, task.task_summary, task.task_prompt, task.state]

/-- The tasks that are known. -/
structure Spawning where
  tasks : ℕ → Option TaskBlocks := fun _ => none
  next_id : ℕ := 0

namespace Spawning

def freeTaskState (task : TaskBlocks) (heap : Heap) : Heap :=
  (heap.use task.state).freeAll task.owned

/-- Put a record under an id, or take the one out that is there. -/
def put (task_id : ℕ) (task : Option TaskBlocks) (spawning : Spawning) : Spawning :=
  { spawning with tasks := Function.update spawning.tasks task_id task }

def removeTask (task_id : ℕ) (memory : Memory Spawning) : Memory Spawning :=
  match memory.kept.tasks task_id with
  | none => memory
  | some task =>
      { heap := freeTaskState task memory.heap, kept := memory.kept.put task_id none }

/-- Note the name of the error in the record, if there is room for it. -/
def noteError (fails : Bool) (task_id : ℕ) (task : TaskBlocks) (memory : Memory Spawning) :
    Memory Spawning :=
  if fails then memory
  else
    { heap := memory.heap.allocate
      kept := memory.kept.put task_id (some { task with error_msg := some memory.heap.next }) }

/-- Start the thread of a task. If that fails, what the thread would own is freed. -/
def startThread (fails : SpawnPoint → Bool) (task_id : ℕ) (task : TaskBlocks) (owned : List ℕ) :
    Proc Spawning ℕ := fun memory =>
  if fails .thread then
    let memory := noteError (fails .error_name) task_id task memory
    (none, onHeap (·.freeAll owned) (onHeap (·.useAll task.owned) memory))
  else (some task_id, onHeap (·.use task.state) memory)

/-- What the spawn does when the record is in the map. -/
def startTask (fails : SpawnPoint → Bool) (task_id : ℕ) (task : TaskBlocks) : Proc Spawning ℕ :=
  touching task.owned <|
  allocating (fails .task_copy) fun task_copy =>
  allocating (fails .label_copy) fun label_copy =>
  allocating (fails .request_session_copy) fun request_session_copy =>
  allocating (fails .origin_channel_copy) fun origin_channel_copy =>
  allocating (fails .origin_chat_copy) fun origin_chat_copy =>
  allocating (fails .ctx) fun ctx =>
  startThread fails task_id task
    [task_copy, label_copy, request_session_copy, origin_channel_copy, origin_chat_copy, ctx]

/-- Put the record into the map, and take it out and free it if what follows fails. -/
def putTask (fails : SpawnPoint → Bool) (task_id : ℕ) (task : TaskBlocks) : Proc Spawning ℕ :=
  fun memory =>
    if fails .put then (none, memory)
    else
      onError (removeTask task_id) (startTask fails task_id task)
        { memory with kept := memory.kept.put task_id (some task) }

/-- Allocate the record of a task, and go on with it. -/
def spawnTask (fails : SpawnPoint → Bool) (batched : Bool) (task_id : ℕ) : Proc Spawning ℕ :=
  allocating (fails .state) fun state =>
  allocating (fails .label) fun label =>
  allocating (fails .task_summary) fun task_summary =>
  allocating (fails .prompt) fun task_prompt =>
  allocating (fails .session) fun session_key =>
  allocating (fails .runtime_session) fun runtime_session_key =>
  allocating (fails .channel) fun origin_channel =>
  allocating (fails .chat) fun origin_chat_id =>
  allocatingIf batched (fails .batch_id) fun batch_id =>
  touching [state] <|
  putTask fails task_id {
    state, label, task_summary, task_prompt, session_key, runtime_session_key, origin_channel
    origin_chat_id, batch_id }

def spawnInBatchLocked (fails : SpawnPoint → Bool) (batched : Bool) : Proc Spawning ℕ :=
  fun memory =>
    let task_id := memory.kept.next_id
    spawnTask fails batched task_id
      { memory with kept := { memory.kept with next_id := task_id + 1 } }

end Spawning

/-!
## The registration of a batch
-/

/-- Where the registration of a batch can fail. -/
inductive RegisterPoint where
  | key
  | ids
  | terminal
  | session_key
  | state
  | put
  | index (position : ℕ)
deriving DecidableEq

/-- A batch, by the blocks it consists of, and by the one that holds its id. -/
structure BatchBlocks where
  key : ℕ
  task_ids : ℕ
  terminal : ℕ
  session_key : ℕ
  state : ℕ
deriving DecidableEq

/-- The batches under their ids, and for each task the block with the id of its batch. -/
structure Registry where
  batches : Bytes → Option BatchBlocks := fun _ => none
  task_index : ℕ → Option ℕ := fun _ => none

namespace Registry

/-- Put a batch into the map. An id that is there keeps its block. -/
def putBatch (batch_id : Bytes) (batch : BatchBlocks) (registry : Registry) : Registry :=
  { registry with
    batches := Function.update registry.batches batch_id (some { batch with
      key := ((registry.batches batch_id).map BatchBlocks.key).getD batch.key }) }

def removeBatch (batch_id : Bytes) (registry : Registry) : Registry :=
  { registry with batches := Function.update registry.batches batch_id none }

def putIndex (task_id key : ℕ) (registry : Registry) : Registry :=
  { registry with task_index := Function.update registry.task_index task_id (some key) }

/-- Index the tasks from a position on. -/
def indexTasks (fails : RegisterPoint → Bool) (key : ℕ) : ℕ → List ℕ → Proc Registry Unit
  | _, [] => fun memory => (some (), memory)
  | position, task_id :: rest => fun memory =>
      if fails (.index position) ∧ (memory.kept.task_index task_id).isNone then (none, memory)
      else
        indexTasks fails key (position + 1) rest
          { memory with kept := memory.kept.putIndex task_id key }

/-- Put the batch into the map and index its tasks, and take it out again if that fails. -/
def enter (fails : RegisterPoint → Bool) (batch_id : Bytes) (task_ids : List ℕ)
    (batch : BatchBlocks) : Proc Registry Unit := fun memory =>
  if fails .put ∧ (memory.kept.batches batch_id).isNone then (none, memory)
  else
    onError (fun memory => { memory with kept := memory.kept.removeBatch batch_id })
      (indexTasks fails batch.key 0 task_ids)
      { memory with kept := memory.kept.putBatch batch_id batch }

def register (fails : RegisterPoint → Bool) (batch_id : Bytes) (task_ids : List ℕ) :
    Proc Registry Unit :=
  allocating (fails .key) fun key =>
  allocating (fails .ids) fun ids =>
  allocating (fails .terminal) fun terminal =>
  allocating (fails .session_key) fun session_key =>
  allocating (fails .state) fun state =>
  touching [state] <|
  enter fails batch_id task_ids { key, task_ids := ids, terminal, session_key, state }

end Registry

/-!
## What a spawn that fails frees
-/

namespace Spawning

variable {fails : SpawnPoint → Bool} {batched : Bool} {task_id label : ℕ} {task : TaskBlocks}
  {owned : List ℕ} {memory : Memory Spawning}

/-- The points up to the insertion into the map. -/
def earlyPoints (batched : Bool) : List SpawnPoint :=
  [.state, .label, .task_summary, .prompt, .session, .runtime_session, .channel, .chat] ++
    (if batched then [.batch_id] else []) ++ [.put]

/-- The points after the insertion. -/
def latePoints : List SpawnPoint :=
  [.task_copy, .label_copy, .request_session_copy, .origin_channel_copy, .origin_chat_copy, .ctx,
    .thread]

/-- A spawn that fails leaves nothing behind. -/
def RollsBack (fails : SpawnPoint → Bool) (batched : Bool) (memory : Memory Spawning) : Prop :=
  (spawnInBatchLocked fails batched memory).1 = none →
    memory.heap.GaveBack (spawnInBatchLocked fails batched memory).2.heap ∧
      (spawnInBatchLocked fails batched memory).2.kept.tasks = memory.kept.tasks

theorem failsIff_startThread :
    FailsIff (startThread fails task_id task owned) fun _ => fails .thread = true := by
  intro memory
  rw [startThread]
  cases fails .thread with
  | true => simp
  | false => simp

theorem failsIff_startTask :
    FailsIff (startTask fails task_id task) fun _ => ∃ point ∈ latePoints, fails point = true := by
  have chain : FailsIff (startTask fails task_id task) fun _ =>
      fails .task_copy = true ∨ fails .label_copy = true ∨ fails .request_session_copy = true ∨
        fails .origin_channel_copy = true ∨ fails .origin_chat_copy = true ∨ fails .ctx = true ∨
          fails .thread = true :=
    .touching <| .allocating fun _ => .allocating fun _ => .allocating fun _ =>
      .allocating fun _ => .allocating fun _ => .allocating fun _ => failsIff_startThread
  intro memory
  refine (chain memory).trans ?_
  simp [latePoints]

theorem failsIff_putTask :
    FailsIff (putTask fails task_id task) fun _ =>
      fails .put = true ∨ ∃ point ∈ latePoints, fails point = true := by
  intro memory
  rw [putTask]
  cases fails .put with
  | true => simp
  | false => simpa using failsIff_startTask _

theorem failsIff_spawnTask :
    FailsIff (spawnTask fails batched task_id) fun _ =>
      (∃ point ∈ earlyPoints batched, fails point = true) ∨
        ∃ point ∈ latePoints, fails point = true := by
  have chain : FailsIff (spawnTask fails batched task_id) fun _ =>
      (fails .state = true ∨ fails .label = true ∨ fails .task_summary = true ∨
        fails .prompt = true ∨ fails .session = true ∨ fails .runtime_session = true ∨
          fails .channel = true ∨ fails .chat = true ∨ batched = true ∧ fails .batch_id = true ∨
            fails .put = true ∨ ∃ point ∈ latePoints, fails point = true) :=
    .allocating fun _ => .allocating fun _ => .allocating fun _ => .allocating fun _ =>
      .allocating fun _ => .allocating fun _ => .allocating fun _ => .allocating fun _ =>
        .allocatingIf fun _ => .touching failsIff_putTask
  intro memory
  refine (chain memory).trans ?_
  cases batched with
  | true => simp [earlyPoints, or_assoc]
  | false => simp [earlyPoints, or_assoc]

theorem undoes_spawnTask (early : ∃ point ∈ earlyPoints batched, fails point = true) :
    Undoes (spawnTask fails batched task_id) := by
  refine .allocating fun state _ => .allocating fun label _ => .allocating fun summary _ =>
    .allocating fun prompt _ => .allocating fun session _ => .allocating fun runtime_session _ =>
      .allocating fun channel _ => .allocating fun chat _ => .allocatingIf fun batch_id _ =>
        .touching ?_
  have put : fails .put = true := by
    cases batched with
    | true =>
        rw [Bool.true_and] at batch_id
        simpa [earlyPoints, state, label, summary, prompt, session, runtime_session, channel, chat,
          batch_id] using early
    | false => simpa [earlyPoints, state, label, summary, prompt, session, runtime_session, channel,
        chat] using early
  intro memory failed
  rw [putTask, if_pos put]
  exact ⟨⟨_, .refl _⟩, rfl⟩

def HasLabel (task_id label : ℕ) (spawning : Spawning) : Prop :=
  ∃ task, spawning.tasks task_id = some task ∧ task.label = label

theorem grows_startThread : Grows (startThread fails task_id task owned) := by
  intro memory event
  rw [startThread]
  have noted : memory.heap.times event ≤
      (noteError (fails .error_name) task_id task memory).heap.times event := by
    rw [noteError]
    split
    · exact le_rfl
    · rw [Heap.times_allocate]
      exact Nat.le_add_right _ _
  split
  · dsimp only [onHeap]
    rw [Heap.times_freeAll]
    exact le_trans (le_trans noted (Heap.times_le_useAll task.owned event)) (Nat.le_add_right _ _)
  · dsimp only [onHeap]
    rw [Heap.times_use]
    exact Nat.le_add_right _ _

theorem grows_startTask : Grows (startTask fails task_id task) :=
  .touching <| .allocating fun _ => .allocating fun _ => .allocating fun _ => .allocating fun _ =>
    .allocating fun _ => .allocating fun _ => grows_startThread

theorem leaves_startTask (task_id : ℕ) (task : TaskBlocks) :
    Leaves (fun before after => HasLabel task_id task.label before →
      HasLabel task_id task.label after) (startTask fails task_id task) := by
  refine .touching <| .allocating (fun _ _ => id) fun _ _ => .allocating (fun _ _ => id) fun _ _ =>
    .allocating (fun _ _ => id) fun _ _ => .allocating (fun _ _ => id) fun _ _ =>
      .allocating (fun _ _ => id) fun _ _ => .allocating (fun _ _ => id) fun _ _ => ?_
  intro memory failed held
  rw [failsIff_startThread] at failed
  rw [startThread, if_pos failed]
  dsimp only [onHeap, noteError]
  split
  · exact held
  · exact ⟨_, Function.update_self _ _ _, rfl⟩

theorem freesIt_putTask (put : fails .put = false) :
    FreesIt task.label (putTask fails task_id task) := by
  intro memory failed
  rw [putTask, put, if_neg (by decide)] at failed ⊢
  rw [onError_failed] at failed
  rw [onError_of_failed failed]
  obtain ⟨last, present, same⟩ := leaves_startTask task_id task _ failed
    ⟨task, Function.update_self _ _ _, rfl⟩
  have grows : Grows (startTask fails task_id task) := grows_startTask
  have grows := grows { memory with kept := memory.kept.put task_id (some task) }
  have owned : BlockEvent.freed task.label ∈ last.owned.map BlockEvent.freed :=
    List.mem_map_of_mem (by simp [TaskBlocks.owned, same])
  have counted := List.count_pos_iff.mpr owned
  simp only [removeTask, present]
  constructor
  · intro event
    have before := grows event
    rw [freeTaskState, Heap.times_freeAll, Heap.times_use]
    dsimp only at before
    omega
  · have before := grows (.freed task.label)
    rw [freeTaskState, Heap.times_freeAll, Heap.times_use]
    dsimp only at before
    omega

theorem doubles_spawnTask (early : ¬∃ point ∈ earlyPoints batched, fails point = true) :
    Doubles (spawnTask fails batched task_id) := by
  have fits : ∀ point ∈ earlyPoints batched, fails point = false := by
    intro point mem
    by_contra failed
    exact early ⟨point, mem, by simpa using failed⟩
  have batch_id : (batched && fails .batch_id) = false := by
    cases batched with
    | true => exact fits .batch_id (by simp [earlyPoints])
    | false => rfl
  refine .allocating (fits _ (by simp [earlyPoints])) fun _ =>
    FreesIt.doubles (fits _ (by simp [earlyPoints])) fun label => ?_
  refine .allocating (fits _ (by simp [earlyPoints])) fun _ =>
    .allocating (fits _ (by simp [earlyPoints])) fun _ =>
      .allocating (fits _ (by simp [earlyPoints])) fun _ =>
        .allocating (fits _ (by simp [earlyPoints])) fun _ =>
          .allocating (fits _ (by simp [earlyPoints])) fun _ =>
            .allocating (fits _ (by simp [earlyPoints])) fun _ =>
              .allocatingIf batch_id fun _ => .touching ?_
  exact freesIt_putTask (fits _ (by simp [earlyPoints]))

theorem rollsBack_iff (fails : SpawnPoint → Bool) (batched : Bool) (memory : Memory Spawning) :
    RollsBack fails batched memory ↔
      (∃ point ∈ earlyPoints batched, fails point = true) ∨
        ¬∃ point ∈ latePoints, fails point = true := by
  suffices inner : ∀ start : Memory Spawning,
      ((spawnTask fails batched memory.kept.next_id start).1 = none →
        start.heap.GaveBack (spawnTask fails batched memory.kept.next_id start).2.heap ∧
          (spawnTask fails batched memory.kept.next_id start).2.kept.tasks = start.kept.tasks) ↔
        (∃ point ∈ earlyPoints batched, fails point = true) ∨
          ¬∃ point ∈ latePoints, fails point = true from
    inner { memory with kept := { memory.kept with next_id := memory.kept.next_id + 1 } }
  intro start
  have fails_iff : (spawnTask fails batched memory.kept.next_id start).1 = none ↔ _ :=
    failsIff_spawnTask start
  by_cases early : ∃ point ∈ earlyPoints batched, fails point = true
  · refine iff_of_true (fun failed => ?_) (.inl early)
    obtain ⟨⟨done, undone⟩, kept⟩ := undoes_spawnTask early start failed
    exact ⟨undone.gaveBack, congrArg Spawning.tasks kept⟩
  · by_cases late : ∃ point ∈ latePoints, fails point = true
    · have failed := fails_iff.mpr (.inr late)
      have twice := doubles_spawnTask early start failed
      refine iff_of_false (fun back => twice.not_gaveBack (back failed).1) ?_
      exact not_or.mpr ⟨early, not_not.mpr late⟩
    · refine iff_of_true (fun failed => ?_) (.inr late)
      exact absurd (fails_iff.mp failed) (not_or.mpr ⟨early, late⟩)

end Spawning

/-!
## What a registration that fails leaves
-/

def BatchBlocks.blocks (batch : BatchBlocks) : List ℕ :=
  [batch.key, batch.task_ids, batch.terminal, batch.session_key, batch.state]

/-- A registry all of whose blocks are allocated. -/
structure Tracker extends Memory Registry where
  batch_blocks : ∀ batch_id batch, kept.batches batch_id = some batch →
    ∀ block ∈ batch.blocks, block < heap.next
  index_blocks : ∀ task_id key, kept.task_index task_id = some key → key < heap.next

namespace Registry

variable {fails : RegisterPoint → Bool} {batch_id : Bytes} {task_ids rest : List ℕ}
  {batch : BatchBlocks} {key position task_id : ℕ} {registry : Registry}
  {memory : Memory Registry} {tracker : Tracker}

/-- A registration that fails leaves none of its blocks in the maps. -/
def LeavesNothing (fails : RegisterPoint → Bool) (batch_id : Bytes) (task_ids : List ℕ)
    (tracker : Tracker) : Prop :=
  (register fails batch_id task_ids tracker.toMemory).1 = none →
    (∀ id batch, (register fails batch_id task_ids tracker.toMemory).2.kept.batches id =
      some batch → ∀ block ∈ batch.blocks, block < tracker.heap.next) ∧
    ∀ task_id key, (register fails batch_id task_ids tracker.toMemory).2.kept.task_index task_id =
      some key → key < tracker.heap.next

/-- Something fails before the batch is in the map. -/
def FailsEarly (fails : RegisterPoint → Bool) (batch_id : Bytes) (registry : Registry) : Prop :=
  (∃ point ∈ [.key, .ids, .terminal, .session_key, .state], fails point = true) ∨
    fails .put = true ∧ registry.batches batch_id = none

/-- A task that was not indexed before cannot be indexed. -/
def IndexFails (fails : RegisterPoint → Bool) (task_ids : List ℕ) (registry : Registry)
    (position : ℕ) : Prop :=
  ∃ task_id, task_ids[position]? = some task_id ∧ fails (.index position) = true ∧
    registry.task_index task_id = none ∧ task_id ∉ task_ids.take position

@[simp]
theorem putIndex_task_index {other : ℕ} :
    (putIndex task_id key registry).task_index other =
      if other = task_id then some key else registry.task_index other :=
  Function.update_apply _ _ _ _

/-- The first task that cannot be indexed ends it. -/
theorem failsIff_indexTasks (key : ℕ) :
    FailsIff (indexTasks fails key position task_ids) fun registry =>
      ∃ offset task_id, task_ids[offset]? = some task_id ∧ fails (.index (position + offset)) = true ∧
        registry.task_index task_id = none ∧ task_id ∉ task_ids.take offset := by
  intro memory
  induction task_ids generalizing position memory with
  | nil => simp [indexTasks]
  | cons first rest ih =>
      rw [indexTasks]
      dsimp only
      split
      · rename_i stuck
        refine iff_of_true rfl ⟨0, first, rfl, stuck.1, ?_, by simp⟩
        exact Option.isNone_iff_eq_none.mp stuck.2
      · rename_i free
        rw [ih]
        constructor
        · rintro ⟨offset, task_id, found, stuck, unknown, new⟩
          dsimp only at unknown
          rw [putIndex_task_index] at unknown
          by_cases same : task_id = first
          · rw [if_pos same] at unknown
            cases unknown
          · rw [if_neg same] at unknown
            refine ⟨offset + 1, task_id, found, ?_, unknown, ?_⟩
            · rw [← Nat.add_assoc, Nat.add_right_comm]
              exact stuck
            · rw [List.take_succ_cons, List.mem_cons, not_or]
              exact ⟨same, new⟩
        · rintro ⟨offset, task_id, found, stuck, unknown, new⟩
          cases offset with
          | zero =>
              cases found
              exact absurd ⟨stuck, Option.isNone_iff_eq_none.mpr unknown⟩ free
          | succ offset =>
              rw [List.take_succ_cons, List.mem_cons, not_or] at new
              refine ⟨offset, task_id, found, ?_, ?_, new.2⟩
              · rw [Nat.add_right_comm, Nat.add_assoc]
                exact stuck
              · dsimp only
                rw [putIndex_task_index, if_neg new.1]
                exact unknown

theorem indexTasks_kept :
    (indexTasks fails key position task_ids memory).2.kept.batches = memory.kept.batches ∧
      (memory.kept.task_index task_id = some key →
        (indexTasks fails key position task_ids memory).2.kept.task_index task_id = some key) := by
  induction task_ids generalizing position memory with
  | nil => exact ⟨rfl, id⟩
  | cons first rest ih =>
      rw [indexTasks]
      dsimp only
      split
      · exact ⟨rfl, id⟩
      · refine ⟨ih.1, fun held => ih.2 ?_⟩
        dsimp only
        rw [putIndex_task_index]
        split
        · rfl
        · exact held

theorem failsIff_enter :
    FailsIff (enter fails batch_id task_ids batch) fun registry =>
      fails .put = true ∧ registry.batches batch_id = none ∨
        ∃ position, IndexFails fails task_ids registry position := by
  intro memory
  rw [enter]
  split
  · rename_i stuck
    exact iff_of_true rfl (.inl ⟨stuck.1, Option.isNone_iff_eq_none.mp stuck.2⟩)
  · rename_i free
    rw [Option.isNone_iff_eq_none] at free
    rw [onError_failed, failsIff_indexTasks]
    dsimp only
    rw [or_iff_right free]
    simp only [Nat.zero_add]
    exact Iff.rfl

theorem failsIff_register :
    FailsIff (register fails batch_id task_ids) fun registry =>
      FailsEarly fails batch_id registry ∨
        ∃ position, IndexFails fails task_ids registry position := by
  have chain : FailsIff (register fails batch_id task_ids) fun registry =>
      fails .key = true ∨ fails .ids = true ∨ fails .terminal = true ∨ fails .session_key = true ∨
        fails .state = true ∨ fails .put = true ∧ registry.batches batch_id = none ∨
          ∃ position, IndexFails fails task_ids registry position :=
    .allocating fun _ => .allocating fun _ => .allocating fun _ => .allocating fun _ =>
      .allocating fun _ => .touching failsIff_enter
  intro memory
  refine (chain memory).trans ?_
  simp [FailsEarly, or_assoc]

/-- The maps hold nothing that they did not hold before. -/
structure Within (before after : Registry) : Prop where
  batches : ∀ batch_id batch, after.batches batch_id = some batch →
    before.batches batch_id = some batch
  task_index : ∀ task_id key, after.task_index task_id = some key →
    before.task_index task_id = some key

theorem Within.refl (registry : Registry) : Within registry registry :=
  ⟨fun _ _ => id, fun _ _ => id⟩

theorem leaves_enter :
    Leaves (fun before after =>
      fails .put = true ∧ before.batches batch_id = none ∨ IndexFails fails task_ids before 0 →
        Within before after) (enter fails batch_id task_ids batch) := by
  intro memory failed early
  rw [enter] at failed ⊢
  split
  · exact .refl _
  · rename_i free
    rw [if_neg free, onError_failed] at failed
    rw [onError_of_failed failed]
    rw [Option.isNone_iff_eq_none] at free
    obtain ⟨task_id, first, stuck, unknown, -⟩ := early.resolve_left free
    cases task_ids with
    | nil => cases first
    | cons other rest =>
        cases first
        have ended : indexTasks fails batch.key 0 (task_id :: rest)
            { memory with kept := memory.kept.putBatch batch_id batch } =
              (none, { memory with kept := memory.kept.putBatch batch_id batch }) := by
          rw [indexTasks]
          exact if_pos ⟨stuck, Option.isNone_iff_eq_none.mpr unknown⟩
        rw [ended]
        refine ⟨fun id held present => ?_, fun _ _ => id⟩
        dsimp only [removeBatch, putBatch] at present
        rw [Function.update_apply] at present
        split at present
        · cases present
        · rename_i another
          rwa [Function.update_of_ne another] at present

/-- After the first task was indexed, its key stays. -/
def LeavesKey (fails : RegisterPoint → Bool) (batch_id : Bytes) (task_ids : List ℕ) (key : ℕ)
    (before after : Registry) : Prop :=
  ¬(fails .put = true ∧ before.batches batch_id = none) → ¬IndexFails fails task_ids before 0 →
    ∃ task_id, after.task_index task_id = some key

theorem leavesKey_enter :
    Leaves (LeavesKey fails batch_id task_ids batch.key) (enter fails batch_id task_ids batch) := by
  intro memory failed free started
  rw [enter] at failed ⊢
  rw [← Option.isNone_iff_eq_none] at free
  rw [if_neg free, onError_failed] at failed
  rw [if_neg free, onError_of_failed failed]
  cases task_ids with
  | nil => cases failed
  | cons first rest =>
      have moved : ¬(fails (.index 0) = true ∧ ((memory.kept.putBatch batch_id batch).task_index
          first).isNone = true) := by
        rintro ⟨stuck, unknown⟩
        exact started ⟨first, rfl, stuck, Option.isNone_iff_eq_none.mp unknown, by simp⟩
      refine ⟨first, ?_⟩
      rw [indexTasks]
      dsimp only
      rw [if_neg moved]
      refine indexTasks_kept.2 ?_
      dsimp only
      rw [putIndex_task_index, if_pos rfl]

theorem leaves_register :
    Leaves (fun before after =>
      FailsEarly fails batch_id before ∨ IndexFails fails task_ids before 0 → Within before after)
      (register fails batch_id task_ids) := by
  refine .allocating (fun _ kept _ => .refl kept) fun key_fits key =>
    .allocating (fun _ kept _ => .refl kept) fun ids_fit ids =>
      .allocating (fun _ kept _ => .refl kept) fun terminal_fits terminal =>
        .allocating (fun _ kept _ => .refl kept) fun session_fits session_key =>
          .allocating (fun _ kept _ => .refl kept) fun state_fits state => .touching ?_
  intro memory failed early
  refine leaves_enter _ failed (early.imp_left fun early => early.resolve_left ?_)
  simp [key_fits, ids_fit, terminal_fits, session_fits, state_fits]

theorem leavesKey_register (fits : ∀ point ∈ [RegisterPoint.key, .ids, .terminal, .session_key,
      .state], fails point = false)
    (failed : (register fails batch_id task_ids memory).1 = none) :
    LeavesKey fails batch_id task_ids memory.heap.next memory.kept
      (register fails batch_id task_ids memory).2.kept := by
  refine Leaves.allocating_own (fits .key (by simp)) (fun key => ?_) failed
  have never {point : RegisterPoint} (fit : fails point = false) :
      fails point = true → ∀ kept, LeavesKey fails batch_id task_ids key kept kept :=
    fun unfit => by simp [fit] at unfit
  exact .allocating (never (fits .ids (by simp))) fun _ ids =>
    .allocating (never (fits .terminal (by simp))) fun _ terminal =>
      .allocating (never (fits .session_key (by simp))) fun _ session_key =>
        .allocating (never (fits .state (by simp))) fun _ state =>
          .touching leavesKey_enter

theorem leavesNothing_iff (fails : RegisterPoint → Bool) (batch_id : Bytes) (task_ids : List ℕ)
    (tracker : Tracker) :
    LeavesNothing fails batch_id task_ids tracker ↔
      FailsEarly fails batch_id tracker.kept ∨ IndexFails fails task_ids tracker.kept 0 ∨
        ¬∃ position, IndexFails fails task_ids tracker.kept position := by
  have fails_iff : (register fails batch_id task_ids tracker.toMemory).1 = none ↔ _ :=
    failsIff_register tracker.toMemory
  constructor
  · intro nothing
    by_contra late
    rw [not_or, not_or, not_not] at late
    obtain ⟨reached, started, stuck⟩ := late
    have failed := fails_iff.mpr (.inr stuck)
    have fits : ∀ point ∈ [RegisterPoint.key, .ids, .terminal, .session_key, .state],
        fails point = false := by
      intro point mem
      by_contra unfit
      exact reached (.inl ⟨point, mem, by simpa using unfit⟩)
    obtain ⟨task_id, held⟩ := leavesKey_register fits failed
      (fun put => reached (.inr put)) started
    exact absurd ((nothing failed).2 task_id _ held) (lt_irrefl _)
  · intro early failed
    have before : FailsEarly fails batch_id tracker.kept ∨
        IndexFails fails task_ids tracker.kept 0 := by
      rcases early with early | early | never
      · exact .inl early
      · exact .inr early
      · exact .inl ((fails_iff.mp failed).resolve_right never)
    have within := leaves_register tracker.toMemory failed before
    exact ⟨fun id batch present => tracker.batch_blocks id batch (within.batches id batch present),
      fun task_id key present =>
        tracker.index_blocks task_id key (within.task_index task_id key present)⟩

end Registry

/-- Both calls leave nothing behind exactly when they fail early enough, if they fail: a spawn before
the task is in the map, and a registration before a task is indexed. -/
theorem failedCalls_iff (spawn_fails : SpawnPoint → Bool) (batched : Bool)
    (memory : Memory Spawning) (register_fails : RegisterPoint → Bool) (batch_id : Bytes)
    (task_ids : List ℕ) (tracker : Tracker) :
    (Spawning.RollsBack spawn_fails batched memory ↔
      (∃ point ∈ Spawning.earlyPoints batched, spawn_fails point = true) ∨
        ¬∃ point ∈ Spawning.latePoints, spawn_fails point = true) ∧
    (Registry.LeavesNothing register_fails batch_id task_ids tracker ↔
      Registry.FailsEarly register_fails batch_id tracker.kept ∨
        Registry.IndexFails register_fails task_ids tracker.kept 0 ∨
          ¬∃ position, Registry.IndexFails register_fails task_ids tracker.kept position) :=
  ⟨Spawning.rollsBack_iff spawn_fails batched memory,
    Registry.leavesNothing_iff register_fails batch_id task_ids tracker⟩

/-- The copy of the task for the thread cannot be allocated. The label, which is the second block, is
freed with the record and once more. -/
theorem frees_label_twice :
    (Spawning.spawnInBatchLocked (fun point => point = .task_copy) false
      { kept := {} }).2.heap.times (.freed 1) = 2 := by
  decide

end Nullalis.Subagent
