import Mathlib.Data.List.Nodup
import Nullalis.Subagent.Manager

/-!
# The barrier of a batch

The registry keeps for every task of a batch whether it has ended, and the map of the tasks
knows it too. Of the map the barrier only sees the batch of each task and whether the task has
ended (`seen`), and most steps change nothing of that.

A cancellation ends a task without telling the registry, so the batch of that task never
claims its wake, whatever its other tasks and the reaper do.
-/

namespace Nullalis.Subagent

/-- No task of a batch is cancelled while it is queued. -/
def CancelApart (system : SubagentSystem) : SubagentAction → Prop
  | .cancelQueued task_id _ =>
      ∀ state, system.tasks task_id = some state → state.status = .queued → state.batch_id = none
  | _ => True

/-- The tasks that were spawned for a batch. -/
def BatchTask (system : SubagentSystem) (batch_id : Bytes) (task_id : ℕ) (state : TaskState) :
    Prop :=
  system.tasks task_id = some state ∧ state.batch_id = some batch_id

/-- What the parent of a batch relies on. A wake is claimed once and after the last task, it is
claimed as soon as the last task has ended, and a reaper leaves no task of a batch that was
past its deadline. -/
structure BarrierSafe (system : SubagentSystem) : Prop where
  members : ∀ batch_id batch, (batch_id, batch) ∈ system.batches.batches →
    ∀ task_id, task_id ∈ batch.task_ids ↔ ∃ state, BatchTask system batch_id task_id state
  once : system.claims.Nodup
  after : ∀ batch_id ∈ system.claims, ∀ task_id state,
    BatchTask system batch_id task_id state → state.ended = true
  woken : ∀ batch_id batch, (batch_id, batch) ∈ system.batches.batches →
    (∀ task_id state, BatchTask system batch_id task_id state → state.ended = true) →
      batch.wake_claimed = true ∧ batch_id ∈ system.claims
  reaped : ∀ batch_id ∈ system.reaped, batch_id ∈ system.claims

/-!
## Batch ids
-/

theorem seq_of_formatBatchId {first second : ℕ} {now later : ℤ}
    (same : formatBatchId first now = formatBatchId second later) : first = second := by
  have number (seq : ℕ) (now : ℤ) :
      ((formatBatchId seq now).drop 6).takeWhile Bytes.isDigit = Bytes.decimal seq := by
    have shape : (formatBatchId seq now).drop 6 =
        Bytes.decimal seq ++ (byte ':' :: Bytes.decimalInt now) := by
      simp only [formatBatchId, List.append_assoc]
      rfl
    have stop : Bytes.isDigit (byte ':') = false := by decide
    rw [shape, List.takeWhile_append_of_pos fun letter mem => Bytes.isDigit_of_mem_decimal letter mem,
      List.takeWhile_cons_of_neg (by simp [stop]), List.append_nil]
  apply Bytes.decimal_injective
  rw [← number first now, same, number]

/-!
## What the barrier sees
-/

/-- The batch of a task, and whether the task has ended. -/
def TaskState.seen (state : TaskState) : Option (Bytes × Bool) :=
  state.batch_id.map fun batch_id => (batch_id, state.ended)

def SubagentManager.seen (manager : SubagentManager) (task_id : ℕ) : Option (Bytes × Bool) :=
  (manager.tasks task_id).bind TaskState.seen

/-- The registry knows of a batch what the map knows, and the wake is claimed as soon as all
tasks have ended. -/
structure Tracks (seen : ℕ → Option (Bytes × Bool)) (batch_id : Bytes) (batch : BatchState) :
    Prop where
  nodup : batch.task_ids.Nodup
  nonempty : batch.task_ids ≠ []
  members : ∀ task_id, task_id ∈ batch.task_ids ↔ ∃ ended, seen task_id = some (batch_id, ended)
  terminal_eq : batch.terminal = batch.task_ids.map fun task_id => (seen task_id).any (·.2)
  claimed_eq : batch.wake_claimed = batch.allTerminal

def Known (batches : BatchTracker) (claims : List Bytes) (batch_id : Bytes) : Prop :=
  (∃ batch, (batch_id, batch) ∈ batches.batches) ∨ batch_id ∈ claims

def Numbered (next_id : ℕ) (batch_id : Bytes) : Prop :=
  ∃ seq < next_id, ∃ now, batch_id = formatBatchId seq now

/-- What holds of the batches between two steps. -/
structure BatchInv (seen : ℕ → Option (Bytes × Bool)) (next_id : ℕ) (batches : BatchTracker)
    (claims : List Bytes) : Prop where
  distinct : (batches.batches.map (·.1)).Nodup
  tracks : ∀ batch_id batch, (batch_id, batch) ∈ batches.batches → Tracks seen batch_id batch
  below : ∀ task_id, next_id ≤ task_id → seen task_id = none
  known : ∀ task_id batch_id ended, seen task_id = some (batch_id, ended) →
    Known batches claims batch_id
  numbered : ∀ batch_id, Known batches claims batch_id → Numbered next_id batch_id
  once : claims.Nodup
  claimed : ∀ batch_id batch, (batch_id, batch) ∈ batches.batches →
    (batch.wake_claimed = true ↔ batch_id ∈ claims)
  after : ∀ batch_id ∈ claims, ∀ task_id ended,
    seen task_id = some (batch_id, ended) → ended = true

variable {seen : ℕ → Option (Bytes × Bool)} {next_id task_id : ℕ} {batches : BatchTracker}
  {claims : List Bytes} {batch_id : Bytes} {batch : BatchState}

theorem registered_iff :
    (∃ batch, (batch_id, batch) ∈ batches.batches) ↔ batch_id ∈ batches.batches.map (·.1) := by
  simp

theorem Tracks.allTerminal_iff (tracks : Tracks seen batch_id batch) :
    batch.allTerminal = true ↔
      ∀ task_id ended, seen task_id = some (batch_id, ended) → ended = true := by
  rw [BatchState.allTerminal, tracks.terminal_eq, List.all_map, List.all_eq_true]
  constructor
  · intro all task_id ended found
    have terminal := all task_id ((tracks.members task_id).mpr ⟨ended, found⟩)
    simpa [found] using terminal
  · intro all task_id mem
    rcases (tracks.members task_id).mp mem with ⟨ended, found⟩
    simpa [found] using all task_id ended found

theorem BatchInv.mono (inv : BatchInv seen next_id batches claims) {later : ℕ}
    (le : next_id ≤ later) : BatchInv seen later batches claims :=
  { inv with
    below := fun task_id beyond => inv.below task_id (Nat.le_trans le beyond)
    numbered := fun batch_id known => by
      rcases inv.numbered batch_id known with ⟨seq, below, shape⟩
      exact ⟨seq, Nat.lt_of_lt_of_le below le, shape⟩ }

/-!
## A task of a batch ends
-/

section Complete

theorem map_update_set {task_ids : List ℕ} (nodup : task_ids.Nodup) (mem : task_id ∈ task_ids)
    {before after : ℕ → Bool} (marked : after task_id = true)
    (kept : ∀ other, other ≠ task_id → after other = before other) :
    task_ids.map after = (task_ids.map before).set (task_ids.idxOf task_id) true := by
  induction task_ids with
  | nil => cases mem
  | cons first rest ih =>
      rcases List.nodup_cons.mp nodup with ⟨apart, nodup⟩
      by_cases same : first = task_id
      · subst same
        rw [List.idxOf_cons_self, List.map_cons, List.map_cons, List.set_cons_zero, marked]
        congr 1
        refine List.map_congr_left fun other mem => kept other fun equal => ?_
        exact apart (equal ▸ mem)
      · have mem := (List.mem_cons.mp mem).resolve_left (Ne.symm same)
        rw [List.idxOf_cons_ne rest same, List.map_cons, List.map_cons, List.set_cons_succ,
          kept first same, ih nodup mem]

/-- The batch when it is told that one of its tasks has ended. -/
def BatchState.mark (batch : BatchState) (task_id : ℕ) : BatchState :=
  { batch with terminal := batch.terminal.set (batch.task_ids.idxOf task_id) true }

def BatchState.afterEnd (batch : BatchState) (task_id : ℕ) : BatchState :=
  { batch.mark task_id with wake_claimed := (batch.mark task_id).allTerminal }

/-- What is seen when a task of a batch has ended. -/
def ending (seen : ℕ → Option (Bytes × Bool)) (batch_id : Bytes) (task_id : ℕ) :
    ℕ → Option (Bytes × Bool) :=
  Function.update seen task_id (some (batch_id, true))

theorem Tracks.unclaimed (tracks : Tracks seen batch_id batch)
    (running : seen task_id = some (batch_id, false)) : batch.wake_claimed = false := by
  rw [tracks.claimed_eq, ← Bool.not_eq_true, tracks.allTerminal_iff]
  intro all
  cases all task_id false running

/-- The last task to end claims the wake, and the registry knows of the end. -/
theorem completeInBatch_spec (task_id : ℕ) (distinct : (batches.batches.map (·.1)).Nodup)
    (mem : (batch_id, batch) ∈ batches.batches) (unclaimed : batch.wake_claimed = false) :
    (SubagentManager.completeInBatch batches batch_id task_id).1 =
        (if (batch.afterEnd task_id).wake_claimed then some batch_id else none) ∧
      (SubagentManager.completeInBatch batches batch_id task_id).2.batches.map (·.1) =
        batches.batches.map (·.1) ∧
      ∀ entry, entry ∈ (SubagentManager.completeInBatch batches batch_id task_id).2.batches ↔
        (entry ∈ batches.batches ∧ entry.1 ≠ batch_id) ∨
          entry = (batch_id, batch.afterEnd task_id) := by
  have found : (batches.markTerminal batch_id task_id).get batch_id = some (batch.mark task_id) :=
    BatchTracker.get_modify distinct mem
  have keys : (batches.markTerminal batch_id task_id).batches.map (·.1) =
      batches.batches.map (·.1) := BatchTracker.map_fst_modify
  have marked (entry : Bytes × BatchState) :
      entry ∈ (batches.markTerminal batch_id task_id).batches ↔
        (entry ∈ batches.batches ∧ entry.1 ≠ batch_id) ∨ entry = (batch_id, batch.mark task_id) :=
    BatchTracker.mem_modify_of_mem distinct mem
  rw [SubagentManager.completeInBatch, BatchTracker.allTerminal, found, Option.any_some]
  by_cases all : (batch.mark task_id).allTerminal = true
  case pos =>
      have claims : (batches.markTerminal batch_id task_id).tryClaimWake batch_id =
          (true, (batches.markTerminal batch_id task_id).modify batch_id fun batch =>
            { batch with wake_claimed := true }) := by
        simp only [BatchTracker.tryClaimWake, found, BatchState.mark, unclaimed,
          Bool.false_eq_true, if_false]
      rw [if_pos all, claims, if_pos (show (batch.afterEnd task_id).wake_claimed = true from all)]
      refine ⟨rfl, BatchTracker.map_fst_modify.trans keys, fun entry => ?_⟩
      rw [BatchTracker.mem_modify_of_mem (keys ▸ distinct) ((marked _).mpr (.inr rfl)), marked,
        BatchState.afterEnd, all]
      constructor
      · rintro (⟨⟨present, other⟩ | rfl, apart⟩ | rfl)
        · exact .inl ⟨present, other⟩
        · exact absurd rfl apart
        · exact .inr rfl
      · rintro (⟨present, other⟩ | rfl)
        · exact .inl ⟨.inl ⟨present, other⟩, other⟩
        · exact .inr rfl
  case neg =>
      have shape : batch.afterEnd task_id = batch.mark task_id := by
        rw [Bool.not_eq_true] at all
        rw [BatchState.afterEnd, all, BatchState.mark, unclaimed]
      rw [if_neg all, if_neg (show ¬ (batch.afterEnd task_id).wake_claimed = true from all), shape]
      exact ⟨rfl, keys, marked⟩

@[simp]
theorem ending_self : ending seen batch_id task_id task_id = some (batch_id, true) :=
  Function.update_self ..

theorem ending_of_ne {other : ℕ} (apart : other ≠ task_id) :
    ending seen batch_id task_id other = seen other :=
  Function.update_of_ne apart ..

theorem Tracks.afterEnd (tracks : Tracks seen batch_id batch)
    (running : seen task_id = some (batch_id, false)) :
    Tracks (ending seen batch_id task_id) batch_id (batch.afterEnd task_id) where
  nodup := tracks.nodup
  nonempty := tracks.nonempty
  members other := by
    by_cases same : other = task_id
    · subst same
      exact ⟨fun _ => ⟨true, ending_self⟩, fun _ => (tracks.members other).mpr ⟨false, running⟩⟩
    · rw [ending_of_ne same]
      exact tracks.members other
  terminal_eq := by
    have mem := (tracks.members task_id).mpr ⟨false, running⟩
    change batch.terminal.set (batch.task_ids.idxOf task_id) true = _
    rw [tracks.terminal_eq]
    refine (map_update_set tracks.nodup mem (by simp) fun other apart => ?_).symm
    rw [ending_of_ne apart]
  claimed_eq := rfl

theorem Tracks.ending_other {other : Bytes} (tracks : Tracks seen other batch)
    (apart : other ≠ batch_id) (running : seen task_id = some (batch_id, false)) :
    Tracks (ending seen batch_id task_id) other batch where
  nodup := tracks.nodup
  nonempty := tracks.nonempty
  members member := by
    rw [tracks.members]
    by_cases same : member = task_id
    · subst same
      simp [running, Ne.symm apart]
    · rw [ending_of_ne same]
  terminal_eq := by
    rw [tracks.terminal_eq]
    refine List.map_congr_left fun member mem => ?_
    rcases (tracks.members member).mp mem with ⟨ended, found⟩
    rw [ending_of_ne]
    rintro rfl
    rw [running] at found
    cases found
    exact apart rfl
  claimed_eq := tracks.claimed_eq

theorem BatchInv.registered (inv : BatchInv seen next_id batches claims)
    (running : seen task_id = some (batch_id, false)) :
    ∃ batch, (batch_id, batch) ∈ batches.batches := by
  rcases inv.known task_id batch_id false running with registered | claimed
  · exact registered
  · cases inv.after batch_id claimed task_id false running

/-- Everything stays in step when a task of a batch ends. -/
theorem BatchInv.complete (inv : BatchInv seen next_id batches claims)
    (running : seen task_id = some (batch_id, false)) :
    BatchInv (ending seen batch_id task_id) next_id
      (SubagentManager.completeInBatch batches batch_id task_id).2
      (claims ++ (SubagentManager.completeInBatch batches batch_id task_id).1.toList) := by
  rcases inv.registered running with ⟨batch, registered⟩
  have tracks := inv.tracks batch_id batch registered
  have unclaimed := tracks.unclaimed running
  have new : batch_id ∉ claims := fun claimed => by
    rw [← inv.claimed batch_id batch registered, unclaimed] at claimed
    cases claimed
  have tracks' := tracks.afterEnd running
  rcases completeInBatch_spec task_id inv.distinct registered unclaimed with ⟨wake, keys, entries⟩
  have mem_claims (other : Bytes) :
      other ∈ claims ++ (SubagentManager.completeInBatch batches batch_id task_id).1.toList ↔
        other ∈ claims ∨ (other = batch_id ∧ (batch.afterEnd task_id).wake_claimed = true) := by
    rw [wake, List.mem_append]
    split <;> simp [*]
  generalize SubagentManager.completeInBatch batches batch_id task_id = result at *
  have known_iff (other : Bytes) :
      Known result.2 (claims ++ result.1.toList) other ↔ Known batches claims other := by
    rw [Known, Known, registered_iff, registered_iff, keys, mem_claims]
    constructor
    · rintro (present | claimed | ⟨rfl, -⟩)
      · exact .inl present
      · exact .inr claimed
      · exact .inl (registered_iff.mp ⟨batch, registered⟩)
    · exact Or.imp_right .inl
  exact {
    distinct := keys ▸ inv.distinct
    tracks := fun other entry mem => by
      rcases (entries _).mp mem with ⟨present, apart⟩ | shape
      · exact (inv.tracks other entry present).ending_other apart running
      · cases shape
        exact tracks'
    below := fun other beyond => by
      have absent := inv.below other beyond
      rw [ending_of_ne, absent]
      rintro rfl
      rw [running] at absent
      cases absent
    known := fun other name ended found => by
      rw [known_iff]
      by_cases same : other = task_id
      · subst same
        rw [ending_self] at found
        cases found
        exact .inl ⟨batch, registered⟩
      · rw [ending_of_ne same] at found
        exact inv.known other name ended found
    numbered := fun other known => inv.numbered other ((known_iff other).mp known)
    once := by
      rw [wake, List.nodup_append]
      refine ⟨inv.once, by split <;> simp, fun first mem second claimed same => ?_⟩
      subst same
      split at claimed
      · have same : first = batch_id := by simpa using claimed
        exact new (same ▸ mem)
      · cases claimed
    claimed := fun other entry mem => by
      rw [mem_claims]
      rcases (entries _).mp mem with ⟨present, apart⟩ | shape
      · rw [inv.claimed other entry present]
        exact ⟨.inl, fun either => either.resolve_right fun wakes => apart wakes.1⟩
      · cases shape
        exact ⟨fun all => .inr ⟨rfl, all⟩, fun either => (either.resolve_left new).2⟩
    after := fun other claimed member ended found => by
      rcases (mem_claims other).mp claimed with claimed | ⟨rfl, all⟩
      · by_cases same : member = task_id
        · subst same
          rw [ending_self] at found
          cases found
          rfl
        · rw [ending_of_ne same] at found
          exact inv.after other claimed member ended found
      · rw [tracks'.claimed_eq, tracks'.allTerminal_iff] at all
        exact all member ended found }

end Complete

/-!
## A batch is spawned, and old batches are forgotten
-/

section Register

/-- What is seen when tasks were spawned for a batch. -/
def spawning (seen : ℕ → Option (Bytes × Bool)) (batch_id : Bytes) (task_ids : List ℕ)
    (task_id : ℕ) : Option (Bytes × Bool) :=
  if task_id ∈ task_ids then some (batch_id, false) else seen task_id

variable {task_ids : List ℕ} {later : ℕ} {now created_at_ms deadline_ms : ℤ} {session_key : Bytes}
  {other : Bytes} {ended : Bool}

theorem eq_of_spawning (found : spawning seen batch_id task_ids task_id = some (other, ended)) :
    (task_id ∈ task_ids ∧ other = batch_id ∧ ended = false) ∨ seen task_id = some (other, ended) := by
  rw [spawning] at found
  split at found
  case isTrue mem =>
      cases found
      exact .inl ⟨mem, rfl, rfl⟩
  case isFalse => exact .inr found

theorem spawning_of_seen (absent : ∀ task_id ∈ task_ids, seen task_id = none)
    (found : seen task_id = some (other, ended)) :
    spawning seen batch_id task_ids task_id = some (other, ended) := by
  rw [spawning, if_neg, found]
  intro mem
  rw [absent task_id mem] at found
  cases found

theorem Tracks.spawning_other (absent : ∀ task_id ∈ task_ids, seen task_id = none)
    (apart : other ≠ batch_id) (tracks : Tracks seen other batch) :
    Tracks (spawning seen batch_id task_ids) other batch where
  nodup := tracks.nodup
  nonempty := tracks.nonempty
  members member := by
    rw [tracks.members]
    constructor
    · rintro ⟨ended, found⟩
      exact ⟨ended, spawning_of_seen absent found⟩
    · rintro ⟨ended, found⟩
      rcases eq_of_spawning found with ⟨-, same, -⟩ | found
      · exact absurd same apart
      · exact ⟨ended, found⟩
  terminal_eq := by
    rw [tracks.terminal_eq]
    refine List.map_congr_left fun member mem => ?_
    rcases (tracks.members member).mp mem with ⟨ended, found⟩
    rw [spawning_of_seen absent found, found]
  claimed_eq := tracks.claimed_eq

/-- The entry of a new batch. -/
def BatchState.new (task_ids : List ℕ) (session_key : Bytes) (created_at_ms deadline_ms : ℤ) :
    BatchState where
  task_ids
  terminal := List.replicate task_ids.length false
  session_key
  created_at_ms
  deadline_ms
  wake_claimed := false

theorem tracks_new (nodup : task_ids.Nodup) (nonempty : task_ids ≠ [])
    (unseen : ∀ task_id ended, seen task_id ≠ some (batch_id, ended)) :
    Tracks (spawning seen batch_id task_ids) batch_id
      (.new task_ids session_key created_at_ms deadline_ms) where
  nodup
  nonempty
  members member := by
    constructor
    · exact fun mem => ⟨false, if_pos mem⟩
    · rintro ⟨ended, found⟩
      rcases eq_of_spawning found with ⟨mem, -⟩ | found
      · exact mem
      · exact absurd found (unseen member ended)
  terminal_eq := by
    symm
    change task_ids.map _ = List.replicate task_ids.length false
    rw [List.eq_replicate_iff, List.length_map]
    refine ⟨rfl, fun terminal mem => ?_⟩
    rcases List.mem_map.mp mem with ⟨member, present, rfl⟩
    rw [spawning, if_pos present]
    rfl
  claimed_eq := by
    rcases List.exists_cons_of_ne_nil nonempty with ⟨first, rest, rfl⟩
    rfl

theorem mem_register {entry : Bytes × BatchState} :
    entry ∈ (batches.register batch_id task_ids session_key created_at_ms deadline_ms).batches ↔
      (entry ∈ batches.batches ∧ entry.1 ≠ batch_id) ∨
        entry = (batch_id, .new task_ids session_key created_at_ms deadline_ms) := by
  simp [BatchTracker.register, BatchState.new]

theorem known_register (unknown : ¬ Known batches claims batch_id) :
    Known (batches.register batch_id task_ids session_key created_at_ms deadline_ms) claims other ↔
      Known batches claims other ∨ other = batch_id := by
  constructor
  · rintro (⟨batch, mem⟩ | claimed)
    · rcases mem_register.1 mem with ⟨present, -⟩ | shape
      · exact .inl (.inl ⟨batch, present⟩)
      · cases shape
        exact .inr rfl
    · exact .inl (.inr claimed)
  · rintro ((⟨batch, mem⟩ | claimed) | rfl)
    · have apart : other ≠ batch_id := fun same => unknown (same ▸ .inl ⟨batch, mem⟩)
      exact .inl ⟨batch, mem_register.2 (.inl ⟨mem, apart⟩)⟩
    · exact .inr claimed
    · exact .inl ⟨_, mem_register.2 (.inr rfl)⟩

theorem BatchInv.unknown (inv : BatchInv seen next_id batches claims) :
    ¬ Known batches claims (formatBatchId next_id now) := by
  intro known
  rcases inv.numbered _ known with ⟨seq, below, now', same⟩
  exact Nat.ne_of_gt below (seq_of_formatBatchId same)

/-- Everything is in step when a batch was spawned. -/
theorem BatchInv.register (inv : BatchInv seen next_id batches claims)
    (nodup : task_ids.Nodup) (nonempty : task_ids ≠ [])
    (within : ∀ task_id ∈ task_ids, next_id ≤ task_id ∧ task_id < later) (advance : next_id < later) :
    BatchInv (spawning seen (formatBatchId next_id now) task_ids) later
      (batches.register (formatBatchId next_id now) task_ids session_key created_at_ms deadline_ms)
      claims := by
  have unknown : ¬ Known batches claims (formatBatchId next_id now) := inv.unknown
  generalize name : formatBatchId next_id now = batch_id at *
  have absent : ∀ task_id ∈ task_ids, seen task_id = none :=
    fun task_id mem => inv.below task_id (within task_id mem).1
  exact {
    distinct := by
      have sublist : ((batches.batches.filter fun entry => entry.1 != batch_id).map (·.1)).Sublist
          (batches.batches.map (·.1)) := List.filter_sublist.map _
      rw [BatchTracker.register, List.map_append, List.map_singleton, List.nodup_append]
      refine ⟨sublist.nodup inv.distinct, List.nodup_cons.mpr ⟨List.not_mem_nil, .nil⟩, ?_⟩
      intro other mem new newMem same
      rcases List.mem_map.mp mem with ⟨entry, mem, rfl⟩
      rw [List.mem_singleton.mp newMem] at same
      simp [same] at mem
    tracks := fun other batch mem => by
      rcases mem_register.1 mem with ⟨present, apart⟩ | shape
      · exact (inv.tracks other batch present).spawning_other absent apart
      · cases shape
        exact tracks_new nodup nonempty fun member ended found =>
          unknown (inv.known member batch_id ended found)
    below := fun member beyond => by
      rw [spawning, if_neg fun mem => Nat.not_lt.mpr beyond (within member mem).2]
      exact inv.below member (Nat.le_trans (Nat.le_of_lt advance) beyond)
    known := fun member other ended found => by
      rw [known_register unknown]
      rcases eq_of_spawning found with ⟨-, same, -⟩ | found
      · exact .inr same
      · exact .inl (inv.known member other ended found)
    numbered := fun other known => by
      rcases (known_register unknown).mp known with known | rfl
      · exact (inv.mono (Nat.le_of_lt advance)).numbered other known
      · exact ⟨next_id, advance, now, name.symm⟩
    once := inv.once
    claimed := fun other batch mem => by
      rcases mem_register.1 mem with ⟨present, -⟩ | shape
      · exact inv.claimed other batch present
      · cases shape
        exact ⟨fun claimed => (by cases claimed), fun claimed => absurd (.inr claimed) unknown⟩
    after := fun other claimed member ended found => by
      rcases eq_of_spawning found with ⟨-, rfl, -⟩ | found
      · exact absurd (.inr claimed) unknown
      · exact inv.after other claimed member ended found }

end Register

section Expire

theorem foldl_expireBatch (batches : BatchTracker) (batch_ids : List Bytes) :
    (batch_ids.foldl BatchTracker.expireBatch batches).batches =
      batches.batches.filter fun entry => entry.1 ∉ batch_ids := by
  induction batch_ids generalizing batches with
  | nil => simp
  | cons first rest ih =>
      rw [List.foldl_cons, ih, BatchTracker.expireBatch, List.filter_filter]
      refine List.filter_congr fun entry _ => ?_
      simp [bne, Bool.and_comm, Bool.beq_eq_decide_eq]

theorem BatchInv.expirable (inv : BatchInv seen next_id batches claims) {now_ms ttl_ms : ℤ}
    (mem : batch_id ∈ batches.expirableBatchIds now_ms ttl_ms) : batch_id ∈ claims := by
  rcases List.mem_map.mp mem with ⟨⟨name, batch⟩, expirable, rfl⟩
  simp only [List.mem_filter, Bool.and_eq_true] at expirable
  exact (inv.claimed name batch expirable.1).mp expirable.2.1.1

theorem BatchInv.expire (inv : BatchInv seen next_id batches claims) {batch_ids : List Bytes}
    (claimed : ∀ batch_id ∈ batch_ids, batch_id ∈ claims) :
    BatchInv seen next_id (batch_ids.foldl BatchTracker.expireBatch batches) claims ∧
      ∀ batch_id, Known batches claims batch_id →
        Known (batch_ids.foldl BatchTracker.expireBatch batches) claims batch_id := by
  have entries := foldl_expireBatch batches batch_ids
  generalize batch_ids.foldl BatchTracker.expireBatch batches = after at *
  have old {entry : Bytes × BatchState} (mem : entry ∈ after.batches) : entry ∈ batches.batches := by
    rw [entries] at mem
    exact (List.mem_filter.mp mem).1
  have known (batch_id : Bytes) (known : Known batches claims batch_id) :
      Known after claims batch_id := by
    rcases known with ⟨batch, mem⟩ | mem
    · by_cases forgotten : batch_id ∈ batch_ids
      · exact .inr (claimed batch_id forgotten)
      · refine .inl ⟨batch, ?_⟩
        rw [entries]
        exact List.mem_filter.mpr ⟨mem, by simp [forgotten]⟩
    · exact .inr mem
  refine ⟨?_, known⟩
  exact {
    distinct := by
      rw [entries]
      exact (List.filter_sublist.map _).nodup inv.distinct
    tracks := fun batch_id batch mem => inv.tracks batch_id batch (old mem)
    below := inv.below
    known := fun task_id batch_id ended found =>
      known batch_id (inv.known task_id batch_id ended found)
    numbered := fun batch_id known =>
      inv.numbered batch_id (known.imp_left fun ⟨batch, mem⟩ => ⟨batch, old mem⟩)
    once := inv.once
    claimed := fun batch_id batch mem => inv.claimed batch_id batch (old mem)
    after := inv.after }

end Expire

/-!
## The operations of the manager
-/

section Operations

variable {manager after : SubagentManager} {state next : TaskState}

theorem seen_update (updated : after.tasks = Function.update manager.tasks task_id (some state)) :
    after.seen = Function.update manager.seen task_id state.seen := by
  funext other
  by_cases same : other = task_id
  · subst same
    simp [SubagentManager.seen, updated]
  · simp [SubagentManager.seen, updated, same]

theorem seen_of_present (present : manager.tasks task_id = some state) :
    manager.seen task_id = state.seen := by
  rw [SubagentManager.seen, present]
  rfl

theorem seen_update_of_eq (same : state.seen = manager.seen task_id)
    (updated : after.tasks = Function.update manager.tasks task_id (some state)) :
    after.seen = manager.seen := by
  rw [seen_update updated]
  exact Function.update_eq_self_iff.mpr same

theorem seen_remove (unseen : manager.seen task_id = none)
    (removed : after.tasks = Function.update manager.tasks task_id none) :
    after.seen = manager.seen := by
  funext other
  by_cases same : other = task_id
  · subst same
    simpa [SubagentManager.seen, removed] using unseen.symm
  · simp [SubagentManager.seen, removed, same]

/-- What a loop of spawns does. -/
structure SpawnsBatch (manager : SubagentManager) (batch_id : Bytes) (task_ids : List ℕ)
    (next : SubagentManager) : Prop where
  batches : next.batches = manager.batches
  advance : manager.next_id ≤ next.next_id
  nodup : task_ids.Nodup
  within : ∀ task_id ∈ task_ids, manager.next_id ≤ task_id ∧ task_id < next.next_id
  seen : next.seen = spawning manager.seen batch_id task_ids

theorem SpawnsBatch.cons {put next : SubagentManager} {task_ids : List ℕ}
    (rest : SpawnsBatch put batch_id task_ids next) (batches : put.batches = manager.batches)
    (next_id : put.next_id = manager.next_id + 1)
    (updated : put.tasks = Function.update manager.tasks manager.next_id (some state))
    (seen : state.seen = some (batch_id, false)) :
    SpawnsBatch manager batch_id (manager.next_id :: task_ids) next where
  batches := rest.batches.trans batches
  advance := by
    have advance := rest.advance
    omega
  nodup := by
    refine List.nodup_cons.mpr ⟨fun mem => ?_, rest.nodup⟩
    have within := rest.within _ mem
    omega
  within task_id mem := by
    have advance := rest.advance
    rcases List.mem_cons.mp mem with rfl | mem
    · omega
    · have within := rest.within task_id mem
      omega
  seen := by
    rw [rest.seen, seen_update updated, seen]
    funext task_id
    simp only [spawning, List.mem_cons, Function.update_apply]
    by_cases mem : task_id ∈ task_ids
    · simp [mem]
    · simp [mem]

theorem spawnLoop_spec (manager : SubagentManager) (batch_id : Bytes)
    (specs : List (SpawnRequest × SpawnSurroundings))
    (below : ∀ task_id, manager.next_id ≤ task_id → manager.seen task_id = none) :
    SpawnsBatch manager batch_id (manager.spawnLoop batch_id specs).1
      (manager.spawnLoop batch_id specs).2.1 := by
  induction specs generalizing manager with
  | nil =>
      exact ⟨rfl, Nat.le_refl _, .nil, fun _ mem => (by cases mem), rfl⟩
  | cons spec rest ih =>
      rcases spec with ⟨request, surroundings⟩
      rw [SubagentManager.spawnLoop, SubagentManager.spawnInBatchLocked]
      cases surroundings.starts with
      | false =>
          exact ⟨rfl, Nat.le_succ _, .nil, fun _ mem => (by cases mem),
            seen_remove (below _ (Nat.le_refl _)) rfl⟩
      | true =>
          have rest := ih { manager with
            tasks := Function.update manager.tasks manager.next_id
              (some (SubagentManager.spawned request (some batch_id) surroundings.now))
            next_id := manager.next_id + 1 }
          refine (rest fun task_id beyond => ?_).cons rfl rfl rfl rfl
          have beyond : manager.next_id < task_id := beyond
          rw [seen_update rfl, Function.update_of_ne (by omega)]
          exact below task_id (by omega)

/-- What a step may do to the batches that are known: their tasks stay and stay ended. -/
structure Progress (before after : SubagentManager) (claims later : List Bytes) : Prop where
  inv : BatchInv after.seen after.next_id after.batches later
  known : ∀ batch_id, Known before.batches claims batch_id → Known after.batches later batch_id
  kept : ∀ batch_id ∈ claims, batch_id ∈ later
  old : ∀ batch_id, Known before.batches claims batch_id → ∀ task_id ended,
    after.seen task_id = some (batch_id, ended) →
      ∃ earlier, before.seen task_id = some (batch_id, earlier) ∧ (earlier = true → ended = true)

theorem BatchInv.idle (inv : BatchInv manager.seen manager.next_id manager.batches claims)
    (seen : after.seen = manager.seen) (advance : manager.next_id ≤ after.next_id)
    (batches : after.batches = manager.batches) : Progress manager after claims claims where
  inv := by
    rw [seen, batches]
    exact inv.mono advance
  known _ known := by rwa [batches]
  kept _ mem := mem
  old _ _ _ ended found := ⟨ended, by rw [← seen, found], id⟩

theorem spawn_progress (inv : BatchInv manager.seen manager.next_id manager.batches claims)
    {request : SpawnRequest} {surroundings : SpawnSurroundings} :
    Progress manager (manager.spawn request surroundings).2.1 claims claims := by
  rw [SubagentManager.spawn]
  split
  case isTrue => exact inv.idle rfl (Nat.le_refl _) rfl
  case isFalse =>
      simp only [SubagentManager.spawnInBatchLocked]
      split
      case isFalse =>
          exact inv.idle (seen_remove (inv.below _ (Nat.le_refl _)) rfl) (Nat.le_succ _) rfl
      case isTrue =>
          have unseen : (SubagentManager.spawned request none surroundings.now).seen =
              manager.seen manager.next_id := (inv.below _ (Nat.le_refl _)).symm
          exact inv.idle (seen_update_of_eq unseen rfl) (Nat.le_succ _) rfl

/-- A batch is spawned and registered under a new id. -/
theorem spawnMany_progress (inv : BatchInv manager.seen manager.next_id manager.batches claims)
    {specs : List (SpawnRequest × SpawnSurroundings)} {request_session_key : Bytes}
    {budget_ms now : ℤ} :
    Progress manager (manager.spawnMany specs request_session_key budget_ms now).2.1 claims
      claims := by
  rw [SubagentManager.spawnMany]
  split
  case isTrue => exact inv.idle rfl (Nat.le_refl _) rfl
  case isFalse =>
      split
      case isTrue => exact inv.idle rfl (Nat.le_refl _) rfl
      case isFalse =>
          have spawns := spawnLoop_spec manager (formatBatchId manager.next_id now) specs inv.below
          dsimp only
          generalize manager.spawnLoop (formatBatchId manager.next_id now) specs = loop at *
          rcases loop with ⟨ids, next, updates⟩
          split
          case isTrue none =>
              rw [List.isEmpty_iff] at none
              subst none
              exact inv.idle (spawns.seen.trans rfl) spawns.advance spawns.batches
          case isFalse some =>
              have nonempty : ids ≠ [] := by simpa using some
              have advance : manager.next_id < next.next_id := by
                rcases List.exists_mem_of_ne_nil ids nonempty with ⟨first, mem⟩
                have within := spawns.within first mem
                exact Nat.lt_of_le_of_lt within.1 within.2
              have unknown : ¬ Known manager.batches claims (formatBatchId manager.next_id now) :=
                inv.unknown
              exact {
                inv := by
                  rw [spawns.batches]
                  have seen := spawns.seen
                  change BatchInv next.seen next.next_id _ claims
                  rw [seen]
                  exact inv.register spawns.nodup nonempty spawns.within advance
                known := fun batch_id known => by
                  rw [spawns.batches]
                  exact (known_register unknown).mpr (.inl known)
                kept := fun _ mem => mem
                old := fun batch_id known task_id ended found => by
                  change next.seen task_id = _ at found
                  rw [spawns.seen] at found
                  rcases eq_of_spawning found with ⟨-, rfl, -⟩ | found
                  · exact absurd known unknown
                  · exact ⟨ended, found, id⟩ }

theorem markTaskRunning_progress (inv : BatchInv manager.seen manager.next_id manager.batches claims)
    {now : ℤ} : Progress manager (manager.markTaskRunning task_id now).2.1 claims claims := by
  rw [SubagentManager.markTaskRunning]
  split
  case h_1 => exact inv.idle rfl (Nat.le_refl _) rfl
  case h_2 state present =>
      split
      case isFalse => exact inv.idle rfl (Nat.le_refl _) rfl
      case isTrue queued =>
          refine inv.idle (seen_update_of_eq ?_ rfl) (Nat.le_refl _) rfl
          rw [seen_of_present present, TaskState.seen, TaskState.seen, TaskState.ended,
            TaskState.ended, queued]
          rfl

theorem cancelQueued_progress (inv : BatchInv manager.seen manager.next_id manager.batches claims)
    {now : ℤ} (apart : ∀ state, manager.tasks task_id = some state → state.status = .queued →
      state.batch_id = none) :
    Progress manager (manager.cancelQueued task_id now).2 claims claims := by
  rw [SubagentManager.cancelQueued]
  split
  case h_1 => exact inv.idle rfl (Nat.le_refl _) rfl
  case h_2 state present =>
      cases status : state.status with
      | queued =>
          refine inv.idle (seen_update_of_eq ?_ rfl) (Nat.le_refl _) rfl
          simp [seen_of_present present, TaskState.seen, apart state present status]
      | running => exact inv.idle rfl (Nat.le_refl _) rfl
      | completed => exact inv.idle rfl (Nat.le_refl _) rfl
      | failed => exact inv.idle rfl (Nat.le_refl _) rfl
      | cancelled => exact inv.idle rfl (Nat.le_refl _) rfl

theorem seen_completed {result : Option SubagentResult} {err_msg : Option Bytes}
    {surroundings : CompletionSurroundings} :
    (SubagentManager.completed state result err_msg surroundings).seen =
      state.batch_id.map fun batch_id => (batch_id, true) := by
  have ended : (SubagentManager.completed state result err_msg surroundings).ended = true := by
    rw [SubagentManager.completed, TaskState.ended]
    dsimp only
    generalize Option.isSome _ = failed
    cases failed <;> rfl
  rw [TaskState.seen, ended]
  rfl

theorem BatchInv.ends (inv : BatchInv manager.seen manager.next_id manager.batches claims)
    (running : manager.seen task_id = some (batch_id, false))
    (seen : after.seen = ending manager.seen batch_id task_id)
    (next_id : after.next_id = manager.next_id)
    (batches : after.batches =
      (SubagentManager.completeInBatch manager.batches batch_id task_id).2) :
    Progress manager after claims
      (claims ++ (SubagentManager.completeInBatch manager.batches batch_id task_id).1.toList) where
  inv := by
    rw [seen, next_id, batches]
    exact inv.complete running
  known other known := by
    rcases inv.registered running with ⟨batch, registered⟩
    have unclaimed := (inv.tracks batch_id batch registered).unclaimed running
    have keys := (completeInBatch_spec task_id inv.distinct registered unclaimed).2.1
    rw [Known, registered_iff] at known ⊢
    rw [batches, keys]
    exact known.imp_right fun mem => List.mem_append_left _ mem
  kept _ mem := List.mem_append_left _ mem
  old other _ member ended found := by
    rw [seen] at found
    by_cases same : member = task_id
    · subst same
      rw [ending_self] at found
      cases found
      exact ⟨false, running, fun _ => rfl⟩
    · rw [ending_of_ne same] at found
      exact ⟨ended, found, id⟩

/-- A completion is told to the registry, and the task has ended. -/
theorem completeTask_progress (inv : BatchInv manager.seen manager.next_id manager.batches claims)
    (task_id : ℕ) (result : Option SubagentResult) (err_msg : Option Bytes)
    (surroundings : CompletionSurroundings) :
    Progress manager (manager.completeTask task_id result err_msg surroundings).2.1 claims
        (claims ++ (manager.completeTask task_id result err_msg surroundings).1.toList) ∧
      ∀ batch_id ended, (manager.completeTask task_id result err_msg surroundings).2.1.seen task_id =
        some (batch_id, ended) → ended = true := by
  rw [SubagentManager.completeTask]
  split
  case h_1 absent =>
      rw [Option.toList_none, List.append_nil]
      refine ⟨inv.idle rfl (Nat.le_refl _) rfl, fun batch_id ended found => ?_⟩
      simp [SubagentManager.seen, absent] at found
  case h_2 state present =>
      have seen_state := seen_of_present present
      split
      case isTrue ended =>
          rw [Option.toList_none, List.append_nil]
          refine ⟨inv.idle rfl (Nat.le_refl _) rfl, fun batch_id ended' found => ?_⟩
          rw [seen_state, TaskState.seen, ended, Option.map_eq_some_iff] at found
          rcases found with ⟨_, _, shape⟩
          cases shape
          rfl
      case isFalse running =>
          rw [Bool.not_eq_true] at running
          dsimp only
          cases member : state.batch_id with
          | none =>
              have unseen : state.seen = none := by
                rw [TaskState.seen, member]
                rfl
              have same : (SubagentManager.completed state result err_msg surroundings).seen =
                  manager.seen task_id := by
                rw [seen_completed, member, seen_state, unseen]
                rfl
              have seen : SubagentManager.seen { manager with
                  tasks := Function.update manager.tasks task_id
                    (some (SubagentManager.completed state result err_msg surroundings)) } =
                  manager.seen := seen_update_of_eq same rfl
              rw [Option.toList_none, List.append_nil]
              refine ⟨inv.idle seen (Nat.le_refl _) rfl, fun batch_id ended found => ?_⟩
              rw [seen, seen_state, unseen] at found
              cases found
          | some batch_id =>
              have before : manager.seen task_id = some (batch_id, false) := by
                rw [seen_state, TaskState.seen, member, running]
                rfl
              have after : (SubagentManager.completed state result err_msg surroundings).seen =
                  some (batch_id, true) := by
                rw [seen_completed, member]
                rfl
              have seen : SubagentManager.seen { manager with
                  tasks := Function.update manager.tasks task_id
                    (some (SubagentManager.completed state result err_msg surroundings))
                  batches := (SubagentManager.completeInBatch manager.batches batch_id task_id).2 } =
                  ending manager.seen batch_id task_id := by
                rw [ending, ← after]
                exact seen_update rfl
              refine ⟨inv.ends before seen rfl rfl, fun name ended found => ?_⟩
              rw [seen, ending_self] at found
              cases found
              rfl

end Operations

/-!
## Every interleaving
-/

namespace SubagentSystem

variable {system after : SubagentSystem}

/-- What a reaper still has to do for the batches it found past their deadline. -/
structure ReapingInv (manager : SubagentManager) (claims : List Bytes) (reaping : Reaping) : Prop where
  known : ∀ batch_id ∈ reaping.due, Known manager.batches claims batch_id
  remaining : ∀ batch_id ∈ reaping.due, ∀ task_id ended,
    manager.seen task_id = some (batch_id, ended) → ended = true ∨ task_id ∈ reaping.remaining

/-- What holds between two steps. -/
structure BarrierInv (system : SubagentSystem) : Prop where
  batch : BatchInv system.seen system.next_id system.batches system.claims
  reaping : ∀ reaper reaping, system.reaping reaper = some reaping →
    ReapingInv system.toSubagentManager system.claims reaping
  reaped : ∀ batch_id ∈ system.reaped, batch_id ∈ system.claims

theorem barrierInv_init (max_concurrent : ℕ) (task_delivery : Option Tasks.TaskDelivery) :
    (init max_concurrent task_delivery).BarrierInv where
  batch :=
    { distinct := .nil
      tracks := fun _ _ mem => by cases mem
      below := fun _ _ => rfl
      known := fun _ _ _ found => by cases found
      numbered := fun _ known => by rcases known with ⟨_, mem⟩ | mem <;> cases mem
      once := .nil
      claimed := fun _ _ mem => by cases mem
      after := fun _ mem => by cases mem }
  reaping _ _ found := by cases found
  reaped _ mem := by cases mem

theorem ReapingInv.progress {before after : SubagentManager} {claims later : List Bytes}
    {reaping : Reaping} (inv : ReapingInv before claims reaping)
    (progress : Progress before after claims later) : ReapingInv after later reaping where
  known batch_id mem := progress.known batch_id (inv.known batch_id mem)
  remaining batch_id mem task_id ended found := by
    rcases progress.old batch_id (inv.known batch_id mem) task_id ended found with
      ⟨earlier, seen, stays⟩
    exact (inv.remaining batch_id mem task_id earlier seen).imp_left stays

theorem BarrierInv.advance (inv : system.BarrierInv)
    (progress : Progress system.toSubagentManager after.toSubagentManager system.claims after.claims)
    (reaping : after.reaping = system.reaping) (reaped : after.reaped = system.reaped) :
    after.BarrierInv where
  batch := progress.inv
  reaping reaper entry found := (inv.reaping reaper entry (reaping ▸ found)).progress progress
  reaped batch_id mem := progress.kept batch_id (inv.reaped batch_id (reaped ▸ mem))

theorem BarrierInv.move {reaper : ℕ} {next : Option Reaping} (inv : system.BarrierInv)
    (progress : Progress system.toSubagentManager after.toSubagentManager system.claims after.claims)
    (moved : after.reaping = Function.update system.reaping reaper next)
    (own : ∀ reaping, next = some reaping →
      ReapingInv after.toSubagentManager after.claims reaping)
    (reaped : ∀ batch_id ∈ after.reaped, batch_id ∈ after.claims) : after.BarrierInv where
  batch := progress.inv
  reaping other entry found := by
    rw [moved] at found
    by_cases same : other = reaper
    · subst same
      exact own entry (by rwa [Function.update_self] at found)
    · rw [Function.update_of_ne same] at found
      exact (inv.reaping other entry found).progress progress
  reaped

theorem BarrierInv.idle (inv : system.BarrierInv)
    (manager : after.toSubagentManager = system.toSubagentManager)
    (claims : after.claims = system.claims) (reaping : after.reaping = system.reaping)
    (reaped : after.reaped = system.reaped) : after.BarrierInv := by
  refine inv.advance ?_ reaping reaped
  rw [manager, claims]
  exact inv.batch.idle rfl (Nat.le_refl _) rfl

theorem BarrierInv.due_claimed (inv : system.BarrierInv) {reaping : Reaping}
    (reapingInv : ReapingInv system.toSubagentManager system.claims reaping)
    (done : reaping.remaining = []) : ∀ batch_id ∈ reaping.due, batch_id ∈ system.claims := by
  intro batch_id mem
  rcases reapingInv.known batch_id mem with ⟨batch, registered⟩ | claimed
  · rw [← inv.batch.claimed batch_id batch registered]
    have tracks := inv.batch.tracks batch_id batch registered
    rw [tracks.claimed_eq, tracks.allTerminal_iff]
    intro task_id ended found
    have remaining := reapingInv.remaining batch_id mem task_id ended found
    rw [done] at remaining
    exact remaining.resolve_right List.not_mem_nil
  · exact claimed

theorem BarrierInv.collect (inv : system.BarrierInv) {now_ms : ℤ} :
    ReapingInv system.toSubagentManager system.claims
      { now_ms
        due := (system.batches.batches.filter (·.2.deadline_ms ≤ now_ms)).map (·.1)
        remaining := (system.batches.overdueBatchesWithTaskIds now_ms).flatMap (·.2) } where
  known batch_id mem := by
    rcases List.mem_map.mp mem with ⟨⟨name, batch⟩, present, rfl⟩
    exact .inl ⟨batch, (List.mem_filter.mp present).1⟩
  remaining batch_id mem task_id ended found := by
    rcases List.mem_map.mp mem with ⟨⟨name, batch⟩, present, rfl⟩
    rcases List.mem_filter.mp present with ⟨registered, due⟩
    have tracks := inv.batch.tracks name batch registered
    cases all : batch.allTerminal with
    | true => exact .inl (tracks.allTerminal_iff.mp all task_id ended found)
    | false =>
        refine .inr (List.mem_flatMap.mpr ⟨(name, batch.task_ids), ?_, ?_⟩)
        · refine List.mem_map.mpr ⟨(name, batch), List.mem_filter.mpr ⟨registered, ?_⟩, rfl⟩
          simpa [tracks.claimed_eq, all] using due
        · exact (tracks.members task_id).mpr ⟨ended, found⟩

theorem BarrierInv.complete (inv : system.BarrierInv) (task_id : ℕ)
    (result : Option SubagentResult) (err_msg : Option Bytes)
    (surroundings : CompletionSurroundings) :
    (system.complete task_id result err_msg surroundings).BarrierInv :=
  inv.advance (completeTask_progress inv.batch task_id result err_msg surroundings).1 rfl rfl

/-- A section under the lock keeps the invariant, unless it cancels a queued task of a batch. -/
theorem BarrierInv.criticalSection {action : SubagentAction} (inv : system.BarrierInv)
    (apart : CancelApart system action)
    (stepped : system.criticalSection action = some after) : after.BarrierInv := by
  cases action with
  | spawn request surroundings =>
      cases stepped
      exact inv.advance (spawn_progress inv.batch) rfl rfl
  | spawnMany specs request_session_key budget_ms now =>
      cases stepped
      exact inv.advance (spawnMany_progress inv.batch) rfl rfl
  | markTaskRunning task_id now =>
      cases stepped
      exact inv.advance (markTaskRunning_progress inv.batch) rfl rfl
  | completeTask task_id result err_msg surroundings =>
      cases stepped
      exact inv.complete task_id result err_msg surroundings
  | cancelQueued task_id now =>
      cases stepped
      exact inv.advance (cancelQueued_progress inv.batch apart) rfl rfl
  | collectOverdue reaper now_ms =>
      rw [SubagentSystem.criticalSection] at stepped
      split at stepped
      case h_1 => cases stepped
      case h_2 =>
          cases stepped
          have progress := inv.batch.idle rfl (Nat.le_refl _) rfl
          refine inv.move progress rfl (fun entry found => ?_) inv.reaped
          cases found
          exact inv.collect
  | reapTask reaper task_id surroundings =>
      rw [SubagentSystem.criticalSection] at stepped
      split at stepped
      case h_1 => cases stepped
      case h_2 reaping present =>
          split at stepped
          case isFalse => cases stepped
          case isTrue =>
              cases stepped
              have reapingInv := inv.reaping reaper reaping present
              rcases completeTask_progress inv.batch task_id (some SubagentManager.timeoutResult)
                none surroundings with ⟨progress, ends⟩
              have kept := (inv.complete task_id (some SubagentManager.timeoutResult) none
                surroundings).reaped
              refine inv.move progress rfl (fun entry found => ?_) kept
              cases found
              have later := reapingInv.progress progress
              refine ⟨later.known, fun batch_id mem member ended seen => ?_⟩
              by_cases same : member = task_id
              · subst same
                exact .inl (ends batch_id ended seen)
              · exact (later.remaining batch_id mem member ended seen).imp_right
                  (List.mem_erase_of_ne same).mpr
  | expireBatches reaper =>
      rw [SubagentSystem.criticalSection] at stepped
      split at stepped
      case h_1 => cases stepped
      case h_2 reaping present =>
          split at stepped
          case isFalse => cases stepped
          case isTrue done =>
              cases stepped
              have expired := inv.batch.expire fun batch_id
                (mem : batch_id ∈ system.batches.expirableBatchIds reaping.now_ms
                  BATCH_EXPIRY_TTL_MS) => inv.batch.expirable mem
              refine inv.move ⟨expired.1, expired.2, fun _ mem => mem, fun _ _ _ ended found =>
                ⟨ended, found, id⟩⟩ rfl (fun _ found => by cases found) fun batch_id mem => ?_
              rcases List.mem_append.mp mem with mem | mem
              · exact inv.reaped batch_id mem
              · exact inv.due_claimed (inv.reaping reaper reaping present) done batch_id mem
  | mirror => cases stepped
  | mirrorCancel task_id now => cases stepped

theorem BarrierInv.step {action : SubagentAction} (inv : system.BarrierInv)
    (apart : CancelApart system action)
    (stepped : SubagentSystem.step system action = some after) : after.BarrierInv := by
  rw [SubagentSystem.step.eq_def] at stepped
  split at stepped
  case h_1 =>
      split at stepped
      case h_1 => cases stepped
      case h_2 =>
          cases stepped
          exact inv.idle rfl rfl rfl rfl
  case h_2 =>
      split at stepped
      case isFalse => cases stepped
      case isTrue =>
          cases stepped
          exact inv.idle rfl rfl rfl rfl
  case h_3 =>
      split at stepped
      case isFalse => cases stepped
      case isTrue => exact inv.criticalSection apart stepped

theorem batchTask_iff {batch_id : Bytes} {task_id : ℕ} {ended : Bool} :
    system.seen task_id = some (batch_id, ended) ↔
      ∃ state, BatchTask system batch_id task_id state ∧ state.ended = ended := by
  simp only [SubagentManager.seen, Option.bind_eq_some_iff, TaskState.seen, Option.map_eq_some_iff,
    BatchTask]
  constructor
  · rintro ⟨state, present, name, member, shape⟩
    cases shape
    exact ⟨state, ⟨present, member⟩, rfl⟩
  · rintro ⟨state, ⟨present, member⟩, rfl⟩
    exact ⟨state, present, batch_id, member, rfl⟩

theorem BarrierInv.safe (inv : system.BarrierInv) : BarrierSafe system where
  members batch_id batch registered task_id := by
    rw [(inv.batch.tracks batch_id batch registered).members]
    constructor
    · rintro ⟨ended, found⟩
      rcases batchTask_iff.1 found with ⟨state, member, -⟩
      exact ⟨state, member⟩
    · rintro ⟨state, member⟩
      exact ⟨state.ended, batchTask_iff.2 ⟨state, member, rfl⟩⟩
  once := inv.batch.once
  after batch_id claimed task_id state member :=
    inv.batch.after batch_id claimed task_id state.ended (batchTask_iff.2 ⟨state, member, rfl⟩)
  woken batch_id batch registered all := by
    have tracks := inv.batch.tracks batch_id batch registered
    have woken : batch.wake_claimed = true := by
      rw [tracks.claimed_eq, tracks.allTerminal_iff]
      intro task_id ended found
      rcases batchTask_iff.1 found with ⟨state, member, rfl⟩
      exact all task_id state member
    exact ⟨woken, (inv.batch.claimed batch_id batch registered).mp woken⟩
  reaped := inv.reaped

/-- In every interleaving in which no queued task of a batch is cancelled, the barrier of every
batch keeps its promises. -/
theorem barrier_safe_of_cancelApart {max_concurrent : ℕ}
    {task_delivery : Option Tasks.TaskDelivery} {actions : List SubagentAction}
    {final : SubagentSystem}
    (meets : Machine.Meets step CancelApart (init max_concurrent task_delivery) actions)
    (reached : Machine.run step (init max_concurrent task_delivery) actions = some final) :
    BarrierSafe final :=
  BarrierInv.safe (Machine.run_invariant_of_meets
    (fun _ _ _ inv apart stepped => inv.step apart stepped)
    (barrierInv_init max_concurrent task_delivery) meets reached)

/-- A task for the examples. -/
def lookUp : SpawnRequest where
  task := ascii "look it up"
  label := ascii "research"
  request_session_key := ascii "agent:zaki-bot:user:1:main"
  origin_channel := ascii "agent"
  origin_chat_id := ascii "chat"

/-- A batch of two tasks, of which one completes and the other is ended by the reaper. -/
def batchOfTwo : List SubagentAction :=
  [.spawnMany [(lookUp, ⟨0, true, true⟩), (lookUp, ⟨0, true, true⟩)]
      lookUp.request_session_key 30000 0,
    .markTaskRunning 1 1,
    .completeTask 1 (some ⟨.completed, ascii "found", none⟩) none ⟨2, true, true⟩,
    .collectOverdue 0 30000,
    .reapTask 0 1 ⟨30001, true, true⟩,
    .reapTask 0 2 ⟨30002, true, true⟩,
    .expireBatches 0]

/-- A batch whose only task is cancelled before it starts, and the reaper past its deadline. -/
def batchCancelled : List SubagentAction :=
  [.spawnMany [(lookUp, ⟨0, true, true⟩)] lookUp.request_session_key 30000 0,
    .cancelQueued 1 1,
    .collectOverdue 0 30000,
    .reapTask 0 1 ⟨30001, true, true⟩,
    .expireBatches 0]

/-- Nothing is cancelled in the batch of two, and its wake is claimed. -/
theorem barrier_safe_batchOfTwo :
    ∃ final, Machine.run step (init 8 none) batchOfTwo = some final ∧ BarrierSafe final ∧
      final.claims = [formatBatchId 1 0] := by
  have claims : (Machine.run step (init 8 none) batchOfTwo).map (·.claims) =
      some [formatBatchId 1 0] := by
    decide
  rcases Option.map_eq_some_iff.mp claims with ⟨final, reached, shape⟩
  refine ⟨final, reached, barrier_safe_of_cancelApart ?_ reached, shape⟩
  exact .cons trivial rfl (.cons trivial rfl (.cons trivial rfl (.cons trivial rfl
    (.cons trivial rfl (.cons trivial rfl (.cons trivial rfl trivial))))))

/-- The barrier does not keep its promises in every run: a cancelled task holds it up for
ever. -/
theorem not_barrier_safe :
    ¬ ∀ max_concurrent task_delivery actions final,
      Machine.run step (init max_concurrent task_delivery) actions = some final →
        BarrierSafe final := by
  intro safe
  have reaped : (Machine.run step (init 8 none) batchCancelled).map
      (fun final => (final.reaped, final.claims)) = some ([formatBatchId 1 0], []) := by
    decide
  rcases Option.map_eq_some_iff.mp reaped with ⟨final, reached, shape⟩
  rw [Prod.mk.injEq] at shape
  have claimed := (safe 8 none batchCancelled final reached).reaped (formatBatchId 1 0)
    (by rw [shape.1]; exact List.mem_singleton_self _)
  rw [shape.2] at claimed
  cases claimed

end SubagentSystem

end Nullalis.Subagent
