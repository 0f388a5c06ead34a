import Mathlib.Data.List.Perm.Basic
import Nullalis.Base.Bytes
import Nullalis.Base.Ownership
import Nullalis.Base.Run

/-!
# Typing indicators

A channel shows that it is typing by a task whose thread loops until it is asked to stop. A map has
the tasks by the ids of their channels. Tasks and the copies of the ids are blocks of one heap.

Starting to type takes the lock twice: to remove the task that the map may have, and to insert the
new one, whose thread is running by then. Two calls that start for the same channel may both come
to insert. The later one puts its task over the other one, which nobody knows any more, and its
thread goes on reading an id that is freed with the next task.
-/

namespace Nullalis.Channels.Discord

open Machine

def TYPING_INTERVAL_NS : ℕ := 8 * 1000000000

def TYPING_SLEEP_STEP_NS : ℕ := 100 * 1000000

/-- Where the loop of a thread stands: before it looks whether to stop, before it reads the id, and
while it waits. -/
inductive LoopPhase where
  | checking
  | sending
  | waiting (elapsed : ℕ)
  | finished
  | joined
deriving DecidableEq

/-- Has the loop come to its end? -/
def LoopPhase.ended : LoopPhase → Bool
  | .finished => true
  | .joined => true
  | _ => false

/-- `channel_id` is the block of the id. -/
structure TypingTask where
  channel_id : ℕ
  stop_requested : Bool := false
  thread : Option LoopPhase := none
deriving DecidableEq

namespace TypingTask

def enter (phase : LoopPhase) (task : TypingTask) : TypingTask :=
  { task with thread := some phase }

def Running (task : TypingTask) : Prop :=
  ∃ phase, task.thread = some phase ∧ phase.ended = false

/-- The thread of the task was joined, or none was started. -/
def Settled (task : TypingTask) : Prop :=
  task.thread = none ∨ task.thread = some .joined

end TypingTask

/-- The blocks of an id and of its task. -/
structure Entry where
  key : ℕ
  task : ℕ
deriving DecidableEq

def Entry.blocks (entry : Entry) : List ℕ :=
  [entry.key, entry.task]

/-- The channel, with what its blocks hold. -/
structure DiscordChannel where
  running : Bool
  typing_handles : List Entry
  heap : Heap
  strings : ℕ → Bytes
  tasks : ℕ → TypingTask

def DiscordChannel.init : DiscordChannel where
  running := false
  typing_handles := []
  heap := {}
  strings _ := []
  tasks _ := { channel_id := 0 }

/-- What a call goes on with after it has given up a task. -/
inductive Next where
  | returns
  | starts (channel_id : Bytes)
  | others (entries : List Entry)
deriving DecidableEq

/-- Where a call stands, named by what it does next. -/
inductive CallPhase where
  | startTyping (channel_id : Bytes)
  | stopTyping (channel_id : Bytes) (next : Next)
  | stopAllTyping
  | requestStop (entry : Entry) (next : Next)
  | join (entry : Entry) (next : Next)
  | destroy (entry : Entry) (next : Next)
  | free (key : ℕ) (next : Next)
  | iterate (entries : List Entry)
  | dupe (channel_id : Bytes)
  | create (key : ℕ)
  | spawn (entry : Entry)
  | insert (entry : Entry)
  | returned
deriving DecidableEq

def Next.phase : Next → CallPhase
  | .returns => .returned
  | .starts channel_id => .dupe channel_id
  | .others entries => .iterate entries

namespace DiscordChannel

/-- Use a task, which may change it. -/
def modifyTask (channel : DiscordChannel) (task : ℕ) (change : TypingTask → TypingTask) :
    DiscordChannel :=
  { channel with
    heap := channel.heap.use task
    tasks := Function.update channel.tasks task (change (channel.tasks task)) }

def find (channel : DiscordChannel) (channel_id : Bytes) : Option Entry :=
  channel.typing_handles.find? fun entry => channel.strings entry.key = channel_id

/-- An id is looked up in the map, which reads the ids there. -/
def lookUp (channel : DiscordChannel) : DiscordChannel :=
  { channel with heap := channel.heap.useAll (channel.typing_handles.map Entry.key) }

def fetchRemove (channel : DiscordChannel) (channel_id : Bytes) :
    Option Entry × DiscordChannel :=
  match channel.find channel_id with
  | some entry =>
      (some entry, { channel.lookUp with typing_handles := channel.typing_handles.erase entry })
  | none => (none, channel.lookUp)

/-- Put a task. An id that is there already keeps its block and needs no memory. -/
def put (channel : DiscordChannel) (entry : Entry) (fails : Bool) : Bool × DiscordChannel :=
  match channel.find (channel.strings entry.key) with
  | some found =>
      (true, { channel.lookUp with
        typing_handles :=
          { found with task := entry.task } :: channel.typing_handles.erase found })
  | none =>
      if fails then (false, channel.lookUp)
      else (true, { channel.lookUp with typing_handles := entry :: channel.typing_handles })

/-- Copy an id, which gives the block `channel.heap.next`. -/
def dupe (channel : DiscordChannel) (channel_id : Bytes) : DiscordChannel :=
  { channel with
    heap := channel.heap.allocate
    strings := Function.update channel.strings channel.heap.next channel_id }

/-- Create a task, which gives the block `channel.heap.next`. -/
def create (channel : DiscordChannel) (key : ℕ) : DiscordChannel :=
  { channel with
    heap := channel.heap.allocate
    tasks := Function.update channel.tasks channel.heap.next { channel_id := key } }

def free (channel : DiscordChannel) (block : ℕ) : DiscordChannel :=
  { channel with heap := channel.heap.free block }

/-- One step of a call: where it stands then, and what the channel is then. A thread is joined when
its loop has ended. The entries of a map are visited in any order. -/
def advance (channel : DiscordChannel) (fails : Bool) (pick : ℕ) :
    CallPhase → Option (CallPhase × DiscordChannel)
  | .startTyping channel_id =>
      if channel.running = false ∨ channel_id = [] then some (.returned, channel)
      else some (.stopTyping channel_id (.starts channel_id), channel)
  | .stopTyping channel_id next =>
      match channel.fetchRemove channel_id with
      | (some entry, removed) => some (.requestStop entry next, removed)
      | (none, removed) => some (next.phase, removed)
  | .stopAllTyping =>
      some (.iterate channel.typing_handles, { channel with typing_handles := [] })
  | .requestStop entry next =>
      some (.join entry next,
        channel.modifyTask entry.task fun task => { task with stop_requested := true })
  | .join entry next =>
      match (channel.tasks entry.task).thread with
      | none => some (.destroy entry next, channel.modifyTask entry.task id)
      | some phase =>
          if phase.ended then
            some (.destroy entry next, channel.modifyTask entry.task (TypingTask.enter .joined))
          else none
  | .destroy entry next => some (.free entry.key next, channel.free entry.task)
  | .free key next => some (next.phase, channel.free key)
  | .iterate [] => some (.returned, channel)
  | .iterate entries =>
      entries[pick]?.map fun entry =>
        (.requestStop entry (.others (entries.eraseIdx pick)), channel)
  | .dupe channel_id =>
      if fails then some (.returned, channel)
      else some (.create channel.heap.next, channel.dupe channel_id)
  | .create key =>
      if fails then some (.free key .returns, channel)
      else some (.spawn ⟨key, channel.heap.next⟩, channel.create key)
  | .spawn entry =>
      if fails then some (.destroy entry .returns, channel)
      else some (.insert entry, channel.modifyTask entry.task (TypingTask.enter .checking))
  | .insert entry =>
      match channel.put entry fails with
      | (true, inserted) => some (.returned, inserted)
      | (false, looked) => some (.requestStop entry .returns, looked)
  | .returned => none

/-- One step of the loop of a task. -/
def typingLoop (channel : DiscordChannel) (task : ℕ) : Option DiscordChannel :=
  let stop := (channel.tasks task).stop_requested
  match (channel.tasks task).thread with
  | some .checking =>
      some (channel.modifyTask task (TypingTask.enter (if stop then .finished else .sending)))
  | some .sending =>
      let sent := channel.modifyTask task (TypingTask.enter (.waiting 0))
      some { sent with heap := sent.heap.use (channel.tasks task).channel_id }
  | some (.waiting elapsed) =>
      if elapsed < TYPING_INTERVAL_NS then
        some (channel.modifyTask task
          (TypingTask.enter
            (if stop then .checking else .waiting (elapsed + TYPING_SLEEP_STEP_NS))))
      else
        some { channel with
          tasks := Function.update channel.tasks task ((channel.tasks task).enter .checking) }
  | _ => none

end DiscordChannel

/-- A channel with the calls that were begun, in the order in which they were. -/
structure TypingSystem where
  channel : DiscordChannel
  calls : List CallPhase

/-- A thread may begin a call, go on with one, or loop. The channel is started and stopped. -/
inductive TypingAction where
  | startTyping (channel_id : Bytes)
  | stopTyping (channel_id : Bytes)
  | stopAllTyping
  | call (number : ℕ) (fails : Bool) (pick : ℕ)
  | loop (task : ℕ)
  | setRunning (running : Bool)
deriving DecidableEq

namespace TypingSystem

def init : TypingSystem where
  channel := .init
  calls := []

def begin (system : TypingSystem) (phase : CallPhase) : TypingSystem :=
  { system with calls := system.calls ++ [phase] }

def step : Machine TypingSystem TypingAction := fun system action =>
  match action with
  | .startTyping channel_id => some (system.begin (.startTyping channel_id))
  | .stopTyping channel_id => some (system.begin (.stopTyping channel_id .returns))
  | .stopAllTyping => some (system.begin .stopAllTyping)
  | .call number fails pick => do
      let phase ← system.calls[number]?
      let (next, channel) ← system.channel.advance fails pick phase
      return { channel, calls := system.calls.set number next }
  | .loop task => do
      let channel ← system.channel.typingLoop task
      return { system with channel }
  | .setRunning running =>
      some { system with channel := { system.channel with running } }

end TypingSystem

/-!
## Who has the tasks
-/

/-- The tasks that follow when a call has given up the one it has. -/
def Next.entries : Next → List Entry
  | .others entries => entries
  | _ => []

namespace CallPhase

/-- The tasks that a call is about to insert or to join. -/
def entries : CallPhase → List Entry
  | .stopTyping _ next => next.entries
  | .requestStop entry next => entry :: next.entries
  | .join entry next => entry :: next.entries
  | .destroy _ next => next.entries
  | .free _ next => next.entries
  | .iterate entries => entries
  | .insert entry => [entry]
  | _ => []

/-- The task that a call has created and not started yet. -/
def created : CallPhase → List Entry
  | .spawn entry => [entry]
  | _ => []

/-- The other blocks that a call has. -/
def blocks : CallPhase → List ℕ
  | .destroy entry _ => entry.blocks
  | .free key _ => [key]
  | .create key => [key]
  | _ => []

end CallPhase

@[simp]
theorem Next.entries_phase (next : Next) : next.phase.entries = next.entries := by
  cases next <;> rfl

@[simp]
theorem Next.created_phase (next : Next) : next.phase.created = [] := by
  cases next <;> rfl

@[simp]
theorem Next.blocks_phase (next : Next) : next.phase.blocks = [] := by
  cases next <;> rfl

def owned (entries created : List Entry) (blocks : List ℕ) : List ℕ :=
  entries.flatMap Entry.blocks ++ (created.flatMap Entry.blocks ++ blocks)

section Owned

variable {entries created : List Entry} {blocks : List ℕ} {entry : Entry} {block : ℕ}

theorem mem_owned (mem : entry ∈ entries) :
    entry.key ∈ owned entries created blocks ∧ entry.task ∈ owned entries created blocks := by
  constructor
  all_goals
    apply List.mem_append_left
    exact List.mem_flatMap.mpr ⟨entry, mem, by simp [Entry.blocks]⟩

theorem owned_cons_block :
    (owned entries created (block :: blocks)).Perm (block :: owned entries created blocks) := by
  rw [owned, ← List.append_assoc]
  refine List.perm_middle.trans ?_
  rw [List.append_assoc, owned]

theorem owned_start :
    (owned entries (entry :: created) blocks).Perm (owned (entry :: entries) created blocks) := by
  rw [List.perm_iff_count]
  intro block
  simp only [owned, List.flatMap_cons, List.count_append]
  omega

theorem owned_settle :
    (owned (entry :: entries) created blocks).Perm
      (owned entries created (entry.blocks ++ blocks)) := by
  rw [List.perm_iff_count]
  intro block
  simp only [owned, List.flatMap_cons, List.count_append]
  omega

theorem owned_abandon :
    (owned entries (entry :: created) blocks).Perm
      (owned entries created (entry.blocks ++ blocks)) :=
  owned_start.trans owned_settle

theorem task_ne_of_nodup {other : Entry} (nodup : (owned entries created blocks).Nodup)
    (mem : entry ∈ entries) (other_mem : other ∈ created) : other.task ≠ entry.task := by
  intro same
  have apart := (List.nodup_append.mp nodup).2.2
  apply apart entry.task (List.mem_flatMap.mpr ⟨entry, mem, by simp [Entry.blocks]⟩) other.task
  · exact List.mem_append_left _ (List.mem_flatMap.mpr ⟨other, other_mem, by simp [Entry.blocks]⟩)
  · exact same.symm

end Owned

namespace DiscordChannel

/-- The started tasks, the created ones and other blocks are all that is not freed. A task has the
block of the id of its entry, and a task whose thread may be running was started. -/
structure Keeps (channel : DiscordChannel) (entries created : List Entry) (blocks : List ℕ) :
    Prop where
  owns : channel.heap.Owns (owned entries created blocks)
  paired : ∀ entry ∈ entries, (channel.tasks entry.task).channel_id = entry.key
  unused : ∀ entry ∈ created, channel.tasks entry.task = { channel_id := entry.key }
  known : ∀ task, ¬ (channel.tasks task).Settled → ∃ entry ∈ entries, entry.task = task

namespace Keeps

variable {channel : DiscordChannel} {entries created others more_created : List Entry}
  {blocks more : List ℕ} {entry : Entry} {block key : ℕ}

theorem perm (keeps : channel.Keeps entries created blocks) (same : entries.Perm others)
    (same_created : created.Perm more_created) (same_blocks : blocks.Perm more) :
    channel.Keeps others more_created more where
  owns := keeps.owns.perm
    ((same.flatMap_right _).append ((same_created.flatMap_right _).append same_blocks))
  paired entry mem := keeps.paired entry (same.mem_iff.mpr mem)
  unused entry mem := keeps.unused entry (same_created.mem_iff.mpr mem)
  known task unsettled := by
    obtain ⟨entry, mem, of_task⟩ := keeps.known task unsettled
    exact ⟨entry, same.mem_iff.mp mem, of_task⟩

theorem inMap (keeps : channel.Keeps entries created blocks) (typing_handles : List Entry) :
    { channel with typing_handles }.Keeps entries created blocks :=
  ⟨keeps.owns, keeps.paired, keeps.unused, keeps.known⟩

theorem useAll (keeps : channel.Keeps entries created blocks)
    (subset : ∀ block ∈ more, block ∈ owned entries created blocks) :
    { channel with heap := channel.heap.useAll more }.Keeps entries created blocks where
  owns := keeps.owns.useAll subset
  paired := keeps.paired
  unused := keeps.unused
  known := keeps.known

theorem modifyTask (keeps : channel.Keeps entries created blocks) (mem : entry ∈ entries)
    {change : TypingTask → TypingTask} (same : ∀ task, (change task).channel_id = task.channel_id) :
    (channel.modifyTask entry.task change).Keeps entries created blocks where
  owns := keeps.owns.use (mem_owned mem).2
  paired other other_mem := by
    have paired := keeps.paired other other_mem
    by_cases of_task : other.task = entry.task
    · simpa [DiscordChannel.modifyTask, of_task, same] using of_task ▸ paired
    · simpa [DiscordChannel.modifyTask, of_task] using paired
  unused other other_mem := by
    have apart := task_ne_of_nodup keeps.owns.nodup mem other_mem
    simpa [DiscordChannel.modifyTask, apart] using keeps.unused other other_mem
  known task unsettled := by
    by_cases of_task : task = entry.task
    · exact ⟨entry, mem, of_task.symm⟩
    · apply keeps.known
      simpa [DiscordChannel.modifyTask, of_task] using unsettled

theorem settle (keeps : channel.Keeps (entry :: entries) created blocks)
    (settled : (channel.tasks entry.task).Settled) :
    channel.Keeps entries created (entry.blocks ++ blocks) where
  owns := keeps.owns.perm owned_settle
  paired other mem := keeps.paired other (List.mem_cons_of_mem _ mem)
  unused := keeps.unused
  known task unsettled := by
    obtain ⟨other, mem, of_task⟩ := keeps.known task unsettled
    rcases List.mem_cons.mp mem with rfl | mem
    · exact absurd (of_task ▸ settled) unsettled
    · exact ⟨other, mem, of_task⟩

theorem abandon (keeps : channel.Keeps entries (entry :: created) blocks) :
    channel.Keeps entries created (entry.blocks ++ blocks) where
  owns := keeps.owns.perm owned_abandon
  paired := keeps.paired
  unused other mem := keeps.unused other (List.mem_cons_of_mem _ mem)
  known := keeps.known

theorem start (keeps : channel.Keeps entries (entry :: created) blocks) :
    channel.Keeps (entry :: entries) created blocks where
  owns := keeps.owns.perm owned_start
  paired other mem := by
    rcases List.mem_cons.mp mem with rfl | mem
    · rw [keeps.unused other List.mem_cons_self]
    · exact keeps.paired other mem
  unused other mem := keeps.unused other (List.mem_cons_of_mem _ mem)
  known task unsettled := by
    obtain ⟨other, mem, of_task⟩ := keeps.known task unsettled
    exact ⟨other, List.mem_cons_of_mem _ mem, of_task⟩

theorem free (keeps : channel.Keeps entries created (block :: blocks)) :
    (channel.free block).Keeps entries created blocks where
  owns := (keeps.owns.perm owned_cons_block).free
  paired := keeps.paired
  unused := keeps.unused
  known := keeps.known

theorem destroy (keeps : channel.Keeps entries created (entry.blocks ++ blocks)) :
    (channel.free entry.task).Keeps entries created (entry.key :: blocks) := by
  exact (keeps.perm (.refl _) (.refl _) (.swap entry.task entry.key blocks)).free

theorem dupe (keeps : channel.Keeps entries created blocks) (channel_id : Bytes) :
    (channel.dupe channel_id).Keeps entries created (channel.heap.next :: blocks) where
  owns := keeps.owns.allocate.perm owned_cons_block.symm
  paired := keeps.paired
  unused := keeps.unused
  known := keeps.known

theorem create (keeps : channel.Keeps entries created (key :: blocks)) :
    (channel.create key).Keeps entries (⟨key, channel.heap.next⟩ :: created) blocks where
  owns := by
    have new : (channel.heap.next :: owned entries created (key :: blocks)).Perm
        (owned entries created (Entry.blocks ⟨key, channel.heap.next⟩ ++ blocks)) :=
      (owned_cons_block.symm.trans ((List.Perm.swap _ _ _).append_left _ |>.append_left _))
    exact keeps.owns.allocate.perm (new.trans owned_abandon.symm)
  paired other mem := by
    have below := keeps.owns.allocated other.task (mem_owned mem).2
    simpa [DiscordChannel.create, below.ne] using keeps.paired other mem
  unused other mem := by
    rcases List.mem_cons.mp mem with rfl | mem
    · simp [DiscordChannel.create]
    · have owned : other.task ∈ owned entries created (key :: blocks) :=
        List.mem_append_right _ (List.mem_append_left _
          (List.mem_flatMap.mpr ⟨other, mem, by simp [Entry.blocks]⟩))
      have below := keeps.owns.allocated other.task owned
      simpa [DiscordChannel.create, below.ne] using keeps.unused other mem
  known task unsettled := by
    by_cases new : task = channel.heap.next
    · subst new
      exact absurd (.inl (by simp [DiscordChannel.create])) unsettled
    · apply keeps.known
      simpa [DiscordChannel.create, new] using unsettled

end Keeps

def Distinct (channel : DiscordChannel) : Prop :=
  (channel.typing_handles.map fun entry => channel.strings entry.key).Nodup

/-- The map has no task for the id of the entry. -/
def Fresh (channel : DiscordChannel) (entry : Entry) : Prop :=
  ∀ other ∈ channel.typing_handles, channel.strings other.key ≠ channel.strings entry.key

/-- What a channel and a call keep, whatever the other calls have. -/
structure Good (channel : DiscordChannel) (phase : CallPhase) (entries created : List Entry)
    (blocks : List ℕ) : Prop where
  keeps : channel.Keeps (phase.entries ++ (channel.typing_handles ++ entries))
    (phase.created ++ created) (phase.blocks ++ blocks)
  distinct : channel.Distinct

namespace Good

variable {channel : DiscordChannel} {phase : CallPhase} {entries created : List Entry}
  {blocks : List ℕ} {entry : Entry} {next : Next} {fails : Bool} {pick : ℕ} {channel_id : Bytes}

theorem resume
    (keeps : channel.Keeps (next.entries ++ (channel.typing_handles ++ entries)) created blocks)
    (distinct : channel.Distinct) : channel.Good next.phase entries created blocks where
  keeps := by simpa using keeps
  distinct := distinct

theorem mem_entries (mem : entry ∈ channel.typing_handles) :
    entry ∈ phase.entries ++ (channel.typing_handles ++ entries) :=
  List.mem_append_right _ (List.mem_append_left _ mem)

theorem lookUp (good : channel.Good phase entries created blocks) :
    channel.lookUp.Good phase entries created blocks where
  keeps := by
    apply good.keeps.useAll
    intro block mem
    obtain ⟨other, other_mem, rfl⟩ := List.mem_map.mp mem
    exact (mem_owned (mem_entries other_mem)).1
  distinct := good.distinct

theorem fetchRemove (good : channel.Good (.stopTyping channel_id next) entries created blocks) :
    (channel.fetchRemove channel_id).2.Good
      ((channel.fetchRemove channel_id).1.elim next.phase fun entry => .requestStop entry next)
      entries created blocks := by
  rw [DiscordChannel.fetchRemove]
  cases found : channel.find channel_id with
  | none => exact resume good.lookUp.keeps good.distinct
  | some entry =>
      have mem : entry ∈ channel.typing_handles := List.mem_of_find?_eq_some found
      refine ⟨?_, good.distinct.sublist (List.erase_sublist.map _)⟩
      have moved := ((List.perm_cons_erase mem).append_right entries).append_left next.entries
      exact (good.lookUp.keeps.perm (moved.trans List.perm_middle) (.refl _) (.refl _)).inMap _

theorem put (good : channel.Good (.insert entry) entries created blocks)
    (fresh : channel.Fresh entry) (fails : Bool) :
    (channel.put entry fails).2.Good
      (if (channel.put entry fails).1 then .returned else .requestStop entry .returns)
      entries created blocks := by
  have missing : channel.find (channel.strings entry.key) = none := by
    apply List.find?_eq_none.mpr
    intro other mem
    simpa using fresh other mem
  rw [DiscordChannel.put, missing]
  cases fails with
  | true => exact ⟨good.lookUp.keeps, good.distinct⟩
  | false =>
      refine ⟨good.lookUp.keeps.inMap _, List.nodup_cons.mpr ⟨?_, good.distinct⟩⟩
      intro mem
      obtain ⟨other, other_mem, same⟩ := List.mem_map.mp mem
      exact fresh other other_mem same

theorem join (good : channel.Good (.join entry next) entries created blocks)
    {after : CallPhase} {joined : DiscordChannel}
    (advanced : channel.advance fails pick (.join entry next) = some (after, joined)) :
    joined.Good after entries created blocks := by
  have mem : entry ∈ (CallPhase.join entry next).entries ++ (channel.typing_handles ++ entries) :=
    List.mem_cons_self
  rw [advance] at advanced
  split at advanced
  case h_1 no_thread =>
    obtain ⟨rfl, rfl⟩ := Prod.mk.inj (Option.some.inj advanced)
    have used : (channel.modifyTask entry.task id).Keeps
        (entry :: (next.entries ++ (channel.typing_handles ++ entries))) created blocks :=
      good.keeps.modifyTask mem fun _ => rfl
    refine ⟨used.settle (.inl ?_), good.distinct⟩
    simpa [DiscordChannel.modifyTask] using no_thread
  case h_2 phase thread =>
    split_ifs at advanced with ended
    obtain ⟨rfl, rfl⟩ := Prod.mk.inj (Option.some.inj advanced)
    have joined : (channel.modifyTask entry.task (TypingTask.enter .joined)).Keeps
        (entry :: (next.entries ++ (channel.typing_handles ++ entries))) created blocks :=
      good.keeps.modifyTask mem fun _ => rfl
    refine ⟨joined.settle (.inr ?_), good.distinct⟩
    simp [DiscordChannel.modifyTask, TypingTask.enter]

theorem dupe (good : channel.Good (.dupe channel_id) entries created blocks) :
    (channel.dupe channel_id).Good (.create channel.heap.next) entries created blocks where
  keeps := good.keeps.dupe channel_id
  distinct := by
    have same :
        (channel.typing_handles.map fun entry => (channel.dupe channel_id).strings entry.key) =
          channel.typing_handles.map fun entry => channel.strings entry.key := by
      apply List.map_congr_left
      intro entry mem
      have below := good.keeps.owns.allocated entry.key (mem_owned (mem_entries mem)).1
      simp [DiscordChannel.dupe, below.ne]
    exact (congrArg List.Nodup same).mpr good.distinct

/-- One step of a call. -/
theorem advance (good : channel.Good phase entries created blocks)
    (fresh : ∀ entry, phase = .insert entry → channel.Fresh entry)
    {after : CallPhase} {result : DiscordChannel}
    (advanced : channel.advance fails pick phase = some (after, result)) :
    result.Good after entries created blocks := by
  cases phase with
  | join entry next => exact good.join advanced
  | returned => cases advanced
  | startTyping channel_id =>
      rw [DiscordChannel.advance] at advanced
      split_ifs at advanced
      all_goals
        obtain ⟨rfl, rfl⟩ := Prod.mk.inj (Option.some.inj advanced)
        exact ⟨good.keeps, good.distinct⟩
  | stopTyping channel_id next =>
      have removed := good.fetchRemove
      rw [DiscordChannel.advance] at advanced
      split at advanced
      all_goals
        rename_i eq
        rw [eq] at removed
        obtain ⟨rfl, rfl⟩ := Prod.mk.inj (Option.some.inj advanced)
        exact removed
  | stopAllTyping =>
      obtain ⟨rfl, rfl⟩ := Prod.mk.inj (Option.some.inj advanced)
      exact ⟨good.keeps.inMap [], List.nodup_nil⟩
  | requestStop entry next =>
      obtain ⟨rfl, rfl⟩ := Prod.mk.inj (Option.some.inj advanced)
      exact ⟨good.keeps.modifyTask List.mem_cons_self fun _ => rfl, good.distinct⟩
  | destroy entry next =>
      obtain ⟨rfl, rfl⟩ := Prod.mk.inj (Option.some.inj advanced)
      exact ⟨Keeps.destroy good.keeps, good.distinct⟩
  | free key next =>
      obtain ⟨rfl, rfl⟩ := Prod.mk.inj (Option.some.inj advanced)
      exact resume good.keeps.free good.distinct
  | iterate remaining =>
      cases remaining with
      | nil =>
          obtain ⟨rfl, rfl⟩ := Prod.mk.inj (Option.some.inj advanced)
          exact ⟨good.keeps, good.distinct⟩
      | cons first rest =>
          have picked : (first :: rest)[pick]?.map (fun entry =>
              (CallPhase.requestStop entry (.others ((first :: rest).eraseIdx pick)), channel)) =
                some (after, result) := advanced
          rw [Option.map_eq_some_iff] at picked
          obtain ⟨entry, picked, rfl, rfl⟩ := picked
          obtain ⟨below, rfl⟩ := List.getElem?_eq_some_iff.mp picked
          refine ⟨good.keeps.perm ?_ (.refl _) (.refl _), good.distinct⟩
          exact (List.getElem_cons_eraseIdx_perm below).symm.append_right _
  | dupe channel_id =>
      rw [DiscordChannel.advance] at advanced
      split_ifs at advanced
      all_goals obtain ⟨rfl, rfl⟩ := Prod.mk.inj (Option.some.inj advanced)
      case pos => exact ⟨good.keeps, good.distinct⟩
      case neg => exact good.dupe
  | create key =>
      rw [DiscordChannel.advance] at advanced
      split_ifs at advanced
      all_goals obtain ⟨rfl, rfl⟩ := Prod.mk.inj (Option.some.inj advanced)
      case pos => exact ⟨good.keeps, good.distinct⟩
      case neg => exact ⟨good.keeps.create, good.distinct⟩
  | spawn entry =>
      rw [DiscordChannel.advance] at advanced
      split_ifs at advanced
      all_goals obtain ⟨rfl, rfl⟩ := Prod.mk.inj (Option.some.inj advanced)
      case pos => exact ⟨good.keeps.abandon, good.distinct⟩
      case neg => exact ⟨good.keeps.start.modifyTask List.mem_cons_self fun _ => rfl, good.distinct⟩
  | insert entry =>
      have inserted := good.put (fresh entry rfl) fails
      rw [DiscordChannel.advance] at advanced
      split at advanced
      all_goals
        rename_i eq
        rw [eq] at inserted
        obtain ⟨rfl, rfl⟩ := Prod.mk.inj (Option.some.inj advanced)
        exact inserted

end Good

theorem Keeps.typingLoop {channel looped : DiscordChannel} {entries created : List Entry}
    {blocks : List ℕ} {task : ℕ} (keeps : channel.Keeps entries created blocks)
    (stepped : channel.typingLoop task = some looped) : looped.Keeps entries created blocks := by
  have running : ¬ (channel.tasks task).Settled := by
    rintro (none | joined)
    · simp [DiscordChannel.typingLoop, none] at stepped
    · simp [DiscordChannel.typingLoop, joined] at stepped
  obtain ⟨entry, mem, rfl⟩ := keeps.known task running
  rw [DiscordChannel.typingLoop] at stepped
  split at stepped
  case h_1 =>
    obtain rfl := Option.some.inj stepped
    exact keeps.modifyTask mem fun _ => rfl
  case h_2 =>
    obtain rfl := Option.some.inj stepped
    rw [keeps.paired entry mem]
    have sent : (channel.modifyTask entry.task (TypingTask.enter (.waiting 0))).Keeps
        entries created blocks := keeps.modifyTask mem fun _ => rfl
    exact ⟨sent.owns.use (mem_owned mem).1, sent.paired, sent.unused, sent.known⟩
  case h_3 elapsed waiting =>
    split at stepped
    all_goals obtain rfl := Option.some.inj stepped
    · exact keeps.modifyTask mem fun _ => rfl
    · have used : (channel.modifyTask entry.task (TypingTask.enter .checking)).Keeps
          entries created blocks := keeps.modifyTask mem fun _ => rfl
      exact ⟨keeps.owns, used.paired, used.unused, used.known⟩
  case h_4 => cases stepped

theorem typingLoop_map {channel looped : DiscordChannel} {task : ℕ}
    (stepped : channel.typingLoop task = some looped) :
    looped.typing_handles = channel.typing_handles ∧ looped.strings = channel.strings := by
  rw [DiscordChannel.typingLoop] at stepped
  split at stepped
  case h_3 =>
    split at stepped
    all_goals
      obtain rfl := Option.some.inj stepped
      exact ⟨rfl, rfl⟩
  case h_4 => cases stepped
  all_goals
    obtain rfl := Option.some.inj stepped
    exact ⟨rfl, rfl⟩

end DiscordChannel

namespace TypingSystem

/-- The tasks that are in the map or about to be inserted or joined. -/
def entries (system : TypingSystem) : List Entry :=
  system.channel.typing_handles ++ system.calls.flatMap CallPhase.entries

def created (system : TypingSystem) : List Entry :=
  system.calls.flatMap CallPhase.created

def blocks (system : TypingSystem) : List ℕ :=
  system.calls.flatMap CallPhase.blocks

/-- What is kept while no task is put over another one. -/
structure Good (system : TypingSystem) : Prop where
  keeps : system.channel.Keeps system.entries system.created system.blocks
  distinct : system.channel.Distinct

/-- A call that inserts finds no task for its id in the map. -/
def InsertsFresh (system : TypingSystem) (action : TypingAction) : Prop :=
  ∀ number fails pick entry, action = .call number fails pick →
    system.calls[number]? = some (.insert entry) → system.channel.Fresh entry

variable {system next : TypingSystem} {action : TypingAction} {actions : List TypingAction}

theorem good_init : init.Good where
  keeps :=
    { owns := .empty
      paired := by simp [entries, init, DiscordChannel.init]
      unused := by simp [created, init]
      known := fun _ unsettled => absurd (.inl rfl) unsettled }
  distinct := List.nodup_nil

theorem Good.begin {phase : CallPhase} (good : system.Good) (no_entries : phase.entries = [])
    (no_created : phase.created = []) (no_blocks : phase.blocks = []) :
    (system.begin phase).Good where
  keeps := by
    apply good.keeps.perm <;>
      simp [TypingSystem.begin, entries, created, blocks, no_entries, no_created, no_blocks]
  distinct := good.distinct

theorem perm_call {α : Type} (part : CallPhase → List α) {calls : List CallPhase} {number : ℕ}
    {phase : CallPhase} (stands : calls[number]? = some phase) :
    (calls.flatMap part).Perm (part phase ++ (calls.eraseIdx number).flatMap part) := by
  obtain ⟨below, rfl⟩ := List.getElem?_eq_some_iff.mp stands
  exact (List.getElem_cons_eraseIdx_perm below).symm.flatMap_right part

theorem perm_set {α : Type} (part : CallPhase → List α) {calls : List CallPhase} {number : ℕ}
    {phase : CallPhase} (stands : calls[number]? = some phase) (after : CallPhase) :
    (part after ++ (calls.eraseIdx number).flatMap part).Perm
      ((calls.set number after).flatMap part) := by
  obtain ⟨below, _⟩ := List.getElem?_eq_some_iff.mp stands
  exact ((List.set_perm_cons_eraseIdx below after).flatMap_right part).symm

theorem Good.call {number : ℕ} {fails : Bool} {pick : ℕ} {phase after : CallPhase}
    {channel : DiscordChannel} (good : system.Good) (stands : system.calls[number]? = some phase)
    (fresh : ∀ entry, phase = .insert entry → system.channel.Fresh entry)
    (advanced : system.channel.advance fails pick phase = some (after, channel)) :
    { channel, calls := system.calls.set number after : TypingSystem }.Good := by
  have apart : system.channel.Good phase
      ((system.calls.eraseIdx number).flatMap CallPhase.entries)
      ((system.calls.eraseIdx number).flatMap CallPhase.created)
      ((system.calls.eraseIdx number).flatMap CallPhase.blocks) := by
    refine ⟨good.keeps.perm ?_ (perm_call _ stands) (perm_call _ stands), good.distinct⟩
    refine ((perm_call _ stands).append_left _).trans ?_
    exact List.perm_append_comm_assoc _ _ _
  have moved := apart.advance fresh advanced
  refine ⟨moved.keeps.perm ?_ (perm_set _ stands after) (perm_set _ stands after), moved.distinct⟩
  refine (List.perm_append_comm_assoc _ _ _).trans ?_
  exact (perm_set _ stands after).append_left _

theorem Good.step (good : system.Good) (fresh : system.InsertsFresh action)
    (stepped : TypingSystem.step system action = some next) : next.Good := by
  cases action with
  | startTyping channel_id =>
      obtain rfl := Option.some.inj stepped
      exact good.begin rfl rfl rfl
  | stopTyping channel_id =>
      obtain rfl := Option.some.inj stepped
      exact good.begin rfl rfl rfl
  | stopAllTyping =>
      obtain rfl := Option.some.inj stepped
      exact good.begin rfl rfl rfl
  | setRunning running =>
      obtain rfl := Option.some.inj stepped
      exact ⟨⟨good.keeps.owns, good.keeps.paired, good.keeps.unused, good.keeps.known⟩,
        good.distinct⟩
  | loop task =>
      simp only [TypingSystem.step, Option.bind_eq_bind, Option.bind_eq_some_iff,
        Option.pure_def, Option.some.injEq] at stepped
      obtain ⟨channel, looped, rfl⟩ := stepped
      obtain ⟨same_map, same_strings⟩ := DiscordChannel.typingLoop_map looped
      refine ⟨?_, ?_⟩
      · simpa only [entries, created, blocks, same_map] using good.keeps.typingLoop looped
      · simpa only [DiscordChannel.Distinct, same_map, same_strings] using good.distinct
  | call number fails pick =>
      simp only [TypingSystem.step, Option.bind_eq_bind, Option.bind_eq_some_iff,
        Option.pure_def, Option.some.injEq] at stepped
      obtain ⟨phase, stands, ⟨after, channel⟩, advanced, rfl⟩ := stepped
      apply good.call stands _ advanced
      rintro entry rfl
      exact fresh number fails pick entry rfl stands

/-- Every running loop belongs to a task that is in the map or about to be inserted or joined, the
ids in the map are distinct, what the map and the calls do not have was freed once, no task and no
id is freed before its thread was joined, and nothing is read once it is freed. -/
structure Accounted (system : TypingSystem) : Prop where
  running : ∀ task, (system.channel.tasks task).Running →
    ∃ entry, entry.task = task ∧ (entry ∈ system.channel.typing_handles ∨
      ∃ phase ∈ system.calls, entry ∈ phase.entries)
  distinct : (system.channel.typing_handles.map
    fun entry => system.channel.strings entry.key).Nodup
  freed : ∀ block < system.channel.heap.next, system.channel.heap.log.count (.freed block) =
    if block ∈ owned system.entries system.created system.blocks then 0 else 1
  joined : ∀ task, ¬ (system.channel.tasks task).Settled →
    .freed task ∉ system.channel.heap.log ∧
      .freed (system.channel.tasks task).channel_id ∉ system.channel.heap.log
  safe : Heap.SafeLog system.channel.heap.log

theorem not_settled_of_running {task : TypingTask} (running : task.Running) : ¬ task.Settled := by
  obtain ⟨phase, thread, not_ended⟩ := running
  rintro (none | joined)
  · exact absurd (thread.symm.trans none) (Option.some_ne_none _)
  · obtain rfl := Option.some.inj (thread.symm.trans joined)
    cases not_ended

theorem Good.accounted (good : system.Good) : system.Accounted where
  running task running := by
    obtain ⟨entry, mem, of_task⟩ := good.keeps.known task (not_settled_of_running running)
    refine ⟨entry, of_task, ?_⟩
    simpa [entries] using mem
  distinct := good.distinct
  freed block below := by
    split_ifs with mem
    · exact List.count_eq_zero_of_not_mem (good.keeps.owns.live block mem)
    · exact good.keeps.owns.freed block below mem
  joined task unsettled := by
    obtain ⟨entry, mem, rfl⟩ := good.keeps.known task unsettled
    rw [good.keeps.paired entry mem]
    have has : entry.key ∈ owned system.entries system.created system.blocks ∧
        entry.task ∈ owned system.entries system.created system.blocks := mem_owned mem
    exact ⟨good.keeps.owns.live _ has.2, good.keeps.owns.live _ has.1⟩
  safe := good.keeps.owns.safe

/-- Tasks are accounted for as long as no call puts one over another. -/
theorem accounted_of_insertsFresh (fresh : Meets step InsertsFresh init actions)
    (reached : run step init actions = some system) : system.Accounted := by
  have preserved : ∀ system action next, Good system → InsertsFresh system action →
      step system action = some next → Good next :=
    fun _ _ _ good met stepped => good.step met stepped
  exact (run_invariant_of_meets preserved good_init fresh reached).accounted

theorem insertsFresh_of_empty (empty : system.channel.typing_handles = []) :
    system.InsertsFresh action := by
  intro _ _ _ entry _ _
  simp [DiscordChannel.Fresh, empty]

/-- A task that is started and inserted. -/
theorem accounted_of_one_start :
    (run step init
        [.setRunning true, .startTyping (ascii "7"), .call 0 false 0, .call 0 false 0,
          .call 0 false 0, .call 0 false 0, .call 0 false 0, .call 0 false 0]).isSome = true ∧
      ∀ system, run step init
        [.setRunning true, .startTyping (ascii "7"), .call 0 false 0, .call 0 false 0,
          .call 0 false 0, .call 0 false 0, .call 0 false 0, .call 0 false 0] = some system →
        system.Accounted := by
  refine ⟨rfl, fun system reached => accounted_of_insertsFresh ?_ reached⟩
  repeat refine .cons (insertsFresh_of_empty rfl) rfl ?_
  trivial

theorem not_accounted_of_lost (task : ℕ) (running : (system.channel.tasks task).Running)
    (empty : system.entries = []) : ¬ system.Accounted := by
  intro accounted
  obtain ⟨entry, _, mem⟩ := accounted.running task running
  have has : entry ∈ system.entries := by simpa [entries] using mem
  rw [empty] at has
  exact List.not_mem_nil has

/-- Two calls start for one channel and both come to insert. The loop of the first one is lost, and
reads its id after that was freed with the task of the second one. -/
theorem not_accounted_of_two_starts :
    ∃ system, run step init
        [.setRunning true, .startTyping (ascii "7"), .startTyping (ascii "7"),
          .call 0 false 0, .call 0 false 0, .call 1 false 0, .call 1 false 0,
          .call 0 false 0, .call 0 false 0, .call 0 false 0,
          .call 1 false 0, .call 1 false 0, .call 1 false 0,
          .call 0 false 0, .call 1 false 0,
          .stopTyping (ascii "7"), .call 2 false 0, .call 2 false 0, .loop 3,
          .call 2 false 0, .call 2 false 0, .call 2 false 0,
          .loop 1, .loop 1] = some system ∧
      (system.channel.tasks 1).Running ∧ system.entries = [] ∧
      ¬ Heap.SafeLog system.channel.heap.log ∧ ¬ system.Accounted := by
  refine ⟨_, rfl, ⟨.waiting 0, rfl, rfl⟩, rfl, ?_, ?_⟩
  · unfold Heap.SafeLog
    decide
  · exact not_accounted_of_lost 1 ⟨.waiting 0, rfl, rfl⟩ rfl

end TypingSystem

end Nullalis.Channels.Discord
