import Nullalis.Base.Bytes

/-!
# The registry of batches

A batch is a group of tasks whose parent is woken once, when the last of them has ended. The
registry keeps for every batch which of its tasks have ended and whether the wake was claimed.
It has no lock of its own.
-/

namespace Nullalis.Subagent

/-- One batch. `terminal` says of each task whether it has ended. -/
structure BatchState where
  task_ids : List ℕ
  terminal : List Bool
  session_key : Bytes
  created_at_ms : ℤ
  deadline_ms : ℤ
  wake_claimed : Bool
deriving DecidableEq

def BatchState.allTerminal (batch : BatchState) : Bool :=
  batch.terminal.all id

/-- The batches under their ids. -/
structure BatchTracker where
  batches : List (Bytes × BatchState)
deriving DecidableEq

namespace BatchTracker

def init : BatchTracker where
  batches := []

def get (tracker : BatchTracker) (batch_id : Bytes) : Option BatchState :=
  (tracker.batches.find? (·.1 == batch_id)).map (·.2)

/-- Change the batch with an id in place. -/
def modify (tracker : BatchTracker) (batch_id : Bytes) (change : BatchState → BatchState) :
    BatchTracker where
  batches := tracker.batches.map fun entry =>
    if entry.1 = batch_id then (entry.1, change entry.2) else entry

/-- Register a batch none of whose tasks has ended. -/
def register (tracker : BatchTracker) (batch_id : Bytes) (task_ids : List ℕ) (session_key : Bytes)
    (created_at_ms deadline_ms : ℤ) : BatchTracker where
  batches := tracker.batches.filter (fun entry => entry.1 != batch_id) ++
    [(batch_id,
      { task_ids
        terminal := List.replicate task_ids.length false
        session_key
        created_at_ms
        deadline_ms
        wake_claimed := false })]

/-- A task of a batch has ended. -/
def markTerminal (tracker : BatchTracker) (batch_id : Bytes) (task_id : ℕ) : BatchTracker :=
  tracker.modify batch_id fun batch =>
    { batch with terminal := batch.terminal.set (batch.task_ids.idxOf task_id) true }

def allTerminal (tracker : BatchTracker) (batch_id : Bytes) : Bool :=
  (tracker.get batch_id).any (·.allTerminal)

/-- Claim the wake of a batch, which only the first one gets. -/
def tryClaimWake (tracker : BatchTracker) (batch_id : Bytes) : Bool × BatchTracker :=
  match tracker.get batch_id with
  | none => (false, tracker)
  | some batch =>
      if batch.wake_claimed then (false, tracker)
      else (true, tracker.modify batch_id fun batch => { batch with wake_claimed := true })

def expireBatch (tracker : BatchTracker) (batch_id : Bytes) : BatchTracker where
  batches := tracker.batches.filter fun entry => entry.1 != batch_id

/-- The batches past their deadline that still wait for a task, with their tasks. -/
def overdueBatchesWithTaskIds (tracker : BatchTracker) (now_ms : ℤ) : List (Bytes × List ℕ) :=
  (tracker.batches.filter fun entry =>
    !entry.2.wake_claimed && !decide (now_ms < entry.2.deadline_ms) && !entry.2.allTerminal).map
    fun entry => (entry.1, entry.2.task_ids)

/-- The batches that were claimed, have ended and are old enough to be forgotten. -/
def expirableBatchIds (tracker : BatchTracker) (now_ms ttl_ms : ℤ) : List Bytes :=
  (tracker.batches.filter fun entry =>
    entry.2.wake_claimed && entry.2.allTerminal &&
      !decide (now_ms < entry.2.created_at_ms + ttl_ms)).map (·.1)

/-!
## Entries
-/

variable {tracker : BatchTracker} {batch_id : Bytes} {batch : BatchState}
  {entry : Bytes × BatchState}

theorem get_of_mem (distinct : (tracker.batches.map (·.1)).Nodup)
    (mem : (batch_id, batch) ∈ tracker.batches) : tracker.get batch_id = some batch := by
  rcases tracker with ⟨batches⟩
  rw [get]
  induction batches with
  | nil => cases mem
  | cons first rest ih =>
      rw [List.map_cons, List.nodup_cons] at distinct
      rcases List.mem_cons.mp mem with rfl | mem
      · rw [List.find?_cons_of_pos (by simp), Option.map_some]
      · have other : first.1 ≠ batch_id := fun same =>
          distinct.1 (List.mem_map.mpr ⟨_, mem, same.symm⟩)
        rw [List.find?_cons_of_neg (by simp [other])]
        exact ih distinct.2 mem

theorem map_fst_modify {change : BatchState → BatchState} :
    (tracker.modify batch_id change).batches.map (·.1) = tracker.batches.map (·.1) := by
  rw [modify, List.map_map]
  refine List.map_congr_left fun entry _ => ?_
  simp only [Function.comp_apply]
  split <;> rfl

theorem mem_modify {change : BatchState → BatchState} :
    entry ∈ (tracker.modify batch_id change).batches ↔
      (entry ∈ tracker.batches ∧ entry.1 ≠ batch_id) ∨
        ∃ before, (batch_id, before) ∈ tracker.batches ∧ entry = (batch_id, change before) := by
  rw [modify, List.mem_map]
  constructor
  · rintro ⟨before, mem, rfl⟩
    split
    case isTrue same => exact .inr ⟨before.2, same ▸ mem, by rw [same]⟩
    case isFalse other => exact .inl ⟨mem, other⟩
  · rintro (⟨mem, other⟩ | ⟨before, mem, rfl⟩)
    · exact ⟨entry, mem, if_neg other⟩
    · exact ⟨(batch_id, before), mem, if_pos rfl⟩

theorem get_modify {change : BatchState → BatchState}
    (distinct : (tracker.batches.map (·.1)).Nodup) (mem : (batch_id, batch) ∈ tracker.batches) :
    (tracker.modify batch_id change).get batch_id = some (change batch) := by
  refine get_of_mem (by rwa [map_fst_modify]) ?_
  exact mem_modify.2 (.inr ⟨batch, mem, rfl⟩)

theorem mem_modify_of_mem {change : BatchState → BatchState}
    (distinct : (tracker.batches.map (·.1)).Nodup) (mem : (batch_id, batch) ∈ tracker.batches) :
    entry ∈ (tracker.modify batch_id change).batches ↔
      (entry ∈ tracker.batches ∧ entry.1 ≠ batch_id) ∨ entry = (batch_id, change batch) := by
  rw [mem_modify]
  refine or_congr_right ⟨?_, fun shape => ⟨batch, mem, shape⟩⟩
  rintro ⟨before, present, rfl⟩
  have same : before = batch := by
    rw [← Option.some_inj, ← get_of_mem distinct present, get_of_mem distinct mem]
  rw [same]

end BatchTracker

end Nullalis.Subagent
