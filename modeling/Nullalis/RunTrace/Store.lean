import Nullalis.Base.Bytes
import Nullalis.Base.Fifo
import Nullalis.Base.Least
import Nullalis.Base.Run

/-!
# The traces of runs

The store keeps the last events of the last runs. A new run over the limit evicts the run with the
smallest first timestamp, and then the store looks up the run again that it put in.

Timestamps are read before the lock is taken, so they come in any order. Allocation succeeds. A
lookup that is taken for granted and fails has no result.
-/

namespace Nullalis.RunTrace

def MAX_FIELD_LEN : ℕ := 256

inductive TraceEventKind where
  | llm_request
  | llm_response
  | tool_call_start
  | tool_call
  | turn_stage
  | task_update
  | approval_required
  | agent_end
  | memory_retrieval
deriving DecidableEq

/-- What an observed event says of its run. -/
structure DerivedEvent where
  kind : TraceEventKind
  run_id : Bytes
  ts_ms : ℤ
  tool : Option Bytes := none
  tool_use_id : Option Bytes := none
  phase : Option Bytes := none
  label : Option Bytes := none
  risk_level : Option Bytes := none
  status : Option Bytes := none
  task_id : Option Bytes := none
  success : Option Bool := none
  duration_ms : Option ℕ := none
  iteration : Option ℕ := none
  exit_code : Option ℤ := none
  usage_tokens : Option ℕ := none
deriving DecidableEq

structure TraceEvent where
  kind : TraceEventKind
  ts_ms : ℤ
  tool : Option Bytes
  tool_use_id : Option Bytes
  phase : Option Bytes
  label : Option Bytes
  risk_level : Option Bytes
  status : Option Bytes
  task_id : Option Bytes
  success : Option Bool
  duration_ms : Option ℕ
  iteration : Option ℕ
  exit_code : Option ℤ
  usage_tokens : Option ℕ
deriving DecidableEq

def dupeClamped (input : Bytes) : Bytes :=
  input.take MAX_FIELD_LEN

def buildTraceEvent (d : DerivedEvent) : TraceEvent where
  kind := d.kind
  ts_ms := d.ts_ms
  tool := d.tool.map dupeClamped
  tool_use_id := d.tool_use_id.map dupeClamped
  phase := d.phase.map dupeClamped
  label := d.label.map dupeClamped
  risk_level := d.risk_level.map dupeClamped
  status := d.status.map dupeClamped
  task_id := d.task_id.map dupeClamped
  success := d.success
  duration_ms := d.duration_ms
  iteration := d.iteration
  exit_code := d.exit_code
  usage_tokens := d.usage_tokens

structure RunBucket where
  run_id : Bytes
  events : List TraceEvent := []
  first_event_ms : ℤ
  last_event_ms : ℤ
deriving DecidableEq

structure TraceSnapshot where
  run_id : Bytes
  events : List TraceEvent
  first_event_ms : ℤ
  last_event_ms : ℤ
  truncated : Bool
deriving DecidableEq

/-- The runs in the order in which they came. -/
structure RunTraceStore where
  runs : List RunBucket := []
  max_runs : ℕ
  max_events_per_run : ℕ
  truncated_runs : List Bytes := []
deriving DecidableEq

def maxTimestamp : ℤ := 2 ^ 63 - 1

namespace RunTraceStore

def init (max_runs max_events_per_run : ℕ) : RunTraceStore where
  max_runs := if max_runs = 0 then 1 else max_runs
  max_events_per_run := if max_events_per_run = 0 then 1 else max_events_per_run

def find (store : RunTraceStore) (run_id : Bytes) : Option RunBucket :=
  store.runs.find? fun bucket => bucket.run_id = run_id

def evictOldestRun (store : RunTraceStore) : RunTraceStore :=
  match (firstLeast RunBucket.first_event_ms store.runs (maxTimestamp, none)).2 with
  | none => store
  | some oldest =>
      { store with
        runs := store.runs.filter fun bucket => bucket.run_id ≠ oldest.run_id
        truncated_runs := store.truncated_runs.filter fun run_id => run_id ≠ oldest.run_id }

/-- Put a run in that is not there, and evict one if there are too many. -/
def ensureRun (store : RunTraceStore) (d : DerivedEvent) : RunTraceStore :=
  if (store.find d.run_id).isSome then store
  else
    let store := { store with
      runs := store.runs ++
        [{ run_id := d.run_id, first_event_ms := d.ts_ms, last_event_ms := d.ts_ms }] }
    if store.max_runs < store.runs.length then store.evictOldestRun else store

/-- Add an event to a run, and drop its first one if there are too many. -/
def record (store : RunTraceStore) (bucket : RunBucket) (d : DerivedEvent) :
    Option RunTraceStore :=
  let full := store.max_events_per_run ≤ bucket.events.length
  if full ∧ bucket.events = [] then none
  else
    let kept := if full then bucket.events.tail else bucket.events
    let bucket := { bucket with
      events := kept ++ [buildTraceEvent d], last_event_ms := d.ts_ms }
    some { store with
      runs := store.runs.map fun other => if other.run_id = d.run_id then bucket else other
      truncated_runs :=
        if full then store.truncated_runs.insert d.run_id else store.truncated_runs }

def appendLocked (store : RunTraceStore) (d : DerivedEvent) : Option RunTraceStore :=
  let store := store.ensureRun d
  (store.find d.run_id).bind fun bucket => store.record bucket d

def copyBucket (store : RunTraceStore) (bucket : RunBucket) : TraceSnapshot where
  run_id := bucket.run_id
  events := bucket.events
  first_event_ms := bucket.first_event_ms
  last_event_ms := bucket.last_event_ms
  truncated := store.truncated_runs.contains bucket.run_id

def snapshotRun (store : RunTraceStore) (run_id : Bytes) : Option TraceSnapshot :=
  (store.find run_id).map store.copyBucket

end RunTraceStore

/-- A store with the events that were recorded for each run since it was last created. -/
structure TraceUse where
  store : RunTraceStore
  recorded : Bytes → List TraceEvent := fun _ => []

/-- The next event. -/
def TraceUse.step : Machine TraceUse DerivedEvent
  | use, d => (use.store.appendLocked d).map fun store =>
      { store
        recorded := fun run_id =>
          if run_id = d.run_id then
            (if (use.store.find run_id).isSome then use.recorded run_id else []) ++
              [buildTraceEvent d]
          else use.recorded run_id }

/-!
## What holds of every use
-/

/-- What an event of a new run does to a store that is full: the run with the smallest first
timestamp goes, and the new one stays. -/
structure Evicts (store next : RunTraceStore) (d : DerivedEvent) (victim : RunBucket) : Prop where
  mem : victim ∈ store.runs
  least : ∀ other ∈ store.runs, victim.first_event_ms ≤ other.first_event_ms
  stays : ∃ bucket, bucket.run_id = d.run_id ∧
    next.runs = (store.runs.filter fun other => other.run_id ≠ victim.run_id) ++ [bucket]

/-- The event is one of a run that is there, or there is room for another one, or a run that is
there began no later. A run at the end of time does not count. -/
def HasRoom (store : RunTraceStore) (d : DerivedEvent) : Prop :=
  (store.find d.run_id).isSome ∨ store.runs.length < store.max_runs ∨
    ∃ bucket ∈ store.runs, bucket.first_event_ms ≤ d.ts_ms ∧ bucket.first_event_ms < maxTimestamp

/-- What the readers of the store rely on. -/
structure TraceUse.Sound (use : TraceUse) : Prop where
  retained : use.store.runs.length ≤ use.store.max_runs
  distinct : (use.store.runs.map RunBucket.run_id).Nodup
  events : ∀ run_id snapshot, use.store.snapshotRun run_id = some snapshot →
    snapshot.events = (use.recorded run_id).rtake use.store.max_events_per_run
  truncated : ∀ run_id snapshot, use.store.snapshotRun run_id = some snapshot →
    (snapshot.truncated = true ↔ use.store.max_events_per_run < (use.recorded run_id).length)
  evicts : ∀ d, HasRoom use.store d → (use.store.find d.run_id).isNone →
    use.store.runs.length = use.store.max_runs →
      ∃ next victim, use.store.appendLocked d = some next ∧ Evicts use.store next d victim

/-!
## Putting a run in
-/

variable {store next : RunTraceStore} {recorded : Bytes → List TraceEvent} {d : DerivedEvent}
  {bucket other victim : RunBucket} {run_id : Bytes} {use after : TraceUse}

/-- A run without events. -/
def freshRun (d : DerivedEvent) : RunBucket where
  run_id := d.run_id
  first_event_ms := d.ts_ms
  last_event_ms := d.ts_ms

/-- How a run can be there. -/
inductive Ensures (store : RunTraceStore) (d : DerivedEvent) : RunTraceStore → Prop where
  | known (found : (store.find d.run_id).isSome) : Ensures store d store
  | room (absent : store.find d.run_id = none) (few : store.runs.length < store.max_runs) :
      Ensures store d { store with runs := store.runs ++ [freshRun d] }
  | evicted (victim : RunBucket) (absent : store.find d.run_id = none) (mem : victim ∈ store.runs)
      (least : ∀ other ∈ store.runs, victim.first_event_ms ≤ other.first_event_ms) :
      Ensures store d { store with
        runs := (store.runs.filter fun bucket => bucket.run_id ≠ victim.run_id) ++ [freshRun d]
        truncated_runs := store.truncated_runs.filter fun run_id => run_id ≠ victim.run_id }

theorem find_eq_some (found : store.find run_id = some bucket) :
    bucket ∈ store.runs ∧ bucket.run_id = run_id :=
  ⟨List.mem_of_find?_eq_some found, by simpa using List.find?_some found⟩

theorem ne_of_find_eq_none (absent : store.find run_id = none) (mem : other ∈ store.runs) :
    other.run_id ≠ run_id := by
  simpa using List.find?_eq_none.mp absent other mem

theorem find_concat_freshRun {runs : List RunBucket} {truncated_runs : List Bytes} :
    ∃ bucket, { store with runs := runs ++ [freshRun d], truncated_runs }.find d.run_id =
      some bucket := by
  rw [← Option.isSome_iff_exists, RunTraceStore.find, List.find?_isSome]
  exact ⟨freshRun d, by simp, by simp [freshRun]⟩

theorem evictOldestRun_of_chosen
    (chosen : (firstLeast RunBucket.first_event_ms store.runs (maxTimestamp, none)).2 =
      some victim) :
    store.evictOldestRun = { store with
      runs := store.runs.filter fun bucket => bucket.run_id ≠ victim.run_id
      truncated_runs := store.truncated_runs.filter fun run_id => run_id ≠ victim.run_id } := by
  simp only [RunTraceStore.evictOldestRun, chosen]

theorem filter_concat (other : bucket.run_id ≠ victim.run_id) :
    ((store.runs ++ [bucket]).filter fun bucket => bucket.run_id ≠ victim.run_id) =
      (store.runs.filter fun bucket => bucket.run_id ≠ victim.run_id) ++ [bucket] := by
  rw [List.filter_append, List.filter_cons_of_pos (by simpa using other), List.filter_nil]

theorem ensures_ensureRun (retained : store.runs.length ≤ store.max_runs)
    (room : HasRoom store d) : Ensures store d (store.ensureRun d) := by
  rw [RunTraceStore.ensureRun]
  cases found : store.find d.run_id with
  | some bucket =>
      rw [Option.isSome_some, if_pos rfl]
      exact .known (by rw [found]; rfl)
  | none =>
      rw [Option.isSome_none, if_neg (by decide)]
      have length : (store.runs ++ [freshRun d]).length = store.runs.length + 1 := by simp
      by_cases few : store.runs.length < store.max_runs
      · rw [if_neg]
        · exact .room found few
        · change ¬store.max_runs < (store.runs ++ [freshRun d]).length
          omega
      · rw [if_pos]
        · obtain ⟨older, mem, before, bounded⟩ : ∃ bucket ∈ store.runs,
              bucket.first_event_ms ≤ d.ts_ms ∧ bucket.first_event_ms < maxTimestamp := by
            rcases room with known | room | older
            · rw [found] at known
              cases known
            · exact absurd room few
            · exact older
          obtain ⟨victim, present, search, least⟩ := firstLeast_eq_some mem bounded
          have later : ¬(freshRun d).first_event_ms < victim.first_event_ms :=
            not_lt_of_ge (le_trans (least older mem) before)
          have chosen : (firstLeast RunBucket.first_event_ms (store.runs ++ [freshRun d])
              (maxTimestamp, none)).2 = some victim := by
            rw [firstLeast_append, search, firstLeast_singleton later]
          have other : (freshRun d).run_id ≠ victim.run_id :=
            (ne_of_find_eq_none found present).symm
          have evicts := Ensures.evicted victim found present least
          rw [← filter_concat other] at evicts
          rw [← @evictOldestRun_of_chosen { store with runs := store.runs ++ [freshRun d] } _ chosen]
            at evicts
          exact evicts
        · change store.max_runs < (store.runs ++ [freshRun d]).length
          omega

/-!
## The invariant
-/

/-- What holds of a store of which these events were recorded. -/
structure Inv (store : RunTraceStore) (recorded : Bytes → List TraceEvent) : Prop where
  positive : 0 < store.max_events_per_run
  retained : store.runs.length ≤ store.max_runs
  distinct : (store.runs.map RunBucket.run_id).Nodup
  events : ∀ bucket ∈ store.runs,
    bucket.events = (recorded bucket.run_id).rtake store.max_events_per_run
  truncated : ∀ bucket ∈ store.runs, bucket.run_id ∈ store.truncated_runs ↔
    store.max_events_per_run < (recorded bucket.run_id).length
  marked : ∀ run_id ∈ store.truncated_runs, ∃ bucket ∈ store.runs, bucket.run_id = run_id

namespace Inv

theorem init (max_runs max_events_per_run : ℕ) :
    Inv (.init max_runs max_events_per_run) recorded where
  positive := by
    change 0 < if max_events_per_run = 0 then 1 else max_events_per_run
    split
    · exact Nat.one_pos
    · omega
  retained := Nat.zero_le _
  distinct := .nil
  events := by intro bucket mem; cases mem
  truncated := by intro bucket mem; cases mem
  marked := by intro run_id mem; cases mem

theorem evict (inv : Inv store recorded) (victim : RunBucket) :
    Inv { store with
      runs := store.runs.filter fun bucket => bucket.run_id ≠ victim.run_id
      truncated_runs := store.truncated_runs.filter fun run_id => run_id ≠ victim.run_id }
      recorded where
  positive := inv.positive
  retained := le_trans (List.length_filter_le _ _) inv.retained
  distinct := inv.distinct.sublist (List.filter_sublist.map _)
  events := fun bucket mem => inv.events bucket (List.mem_of_mem_filter mem)
  truncated := by
    intro bucket mem
    obtain ⟨present, other⟩ := List.mem_filter.mp mem
    rw [← inv.truncated bucket present, List.mem_filter]
    exact and_iff_left other
  marked := by
    intro run_id mem
    obtain ⟨mem, other⟩ := List.mem_filter.mp mem
    obtain ⟨bucket, present, rfl⟩ := inv.marked run_id mem
    exact ⟨bucket, List.mem_filter.mpr ⟨present, other⟩, rfl⟩

theorem add (inv : Inv store recorded) (absent : ∀ other ∈ store.runs, other.run_id ≠ d.run_id)
    (few : store.runs.length < store.max_runs) :
    Inv { store with runs := store.runs ++ [freshRun d] }
      (Function.update recorded d.run_id []) where
  positive := inv.positive
  retained := by
    rw [List.length_append, List.length_singleton]
    exact few
  distinct := by
    rw [List.map_append, List.nodup_append]
    refine ⟨inv.distinct, List.pairwise_singleton _ _, ?_⟩
    intro run_id mem new_id new_mem
    obtain ⟨other, present, rfl⟩ := List.mem_map.mp mem
    rw [List.map_singleton, List.mem_singleton] at new_mem
    exact new_mem ▸ absent other present
  events := by
    intro bucket mem
    rcases List.mem_append.mp mem with mem | mem
    · rw [Function.update_of_ne (absent bucket mem)]
      exact inv.events bucket mem
    · rw [List.mem_singleton.mp mem]
      simp [freshRun]
  truncated := by
    intro bucket mem
    rcases List.mem_append.mp mem with mem | mem
    · rw [Function.update_of_ne (absent bucket mem)]
      exact inv.truncated bucket mem
    · rw [List.mem_singleton.mp mem]
      have unmarked : d.run_id ∉ store.truncated_runs := by
        intro marked
        obtain ⟨other, present, same⟩ := inv.marked _ marked
        exact absent other present same
      simp [freshRun, unmarked]
  marked := by
    intro run_id mem
    obtain ⟨bucket, present, same⟩ := inv.marked run_id mem
    exact ⟨bucket, List.mem_append_left _ present, same⟩

theorem ensure (inv : Inv store recorded) (ensures : Ensures store d next) :
    (∃ bucket, next.find d.run_id = some bucket) ∧
      Inv next (if (store.find d.run_id).isSome then recorded
        else Function.update recorded d.run_id []) := by
  cases ensures with
  | known found =>
      rw [if_pos found]
      exact ⟨Option.isSome_iff_exists.mp found, inv⟩
  | room absent few =>
      rw [absent, if_neg (by simp)]
      exact ⟨find_concat_freshRun, inv.add (fun _ mem => ne_of_find_eq_none absent mem) few⟩
  | evicted victim absent mem least =>
      rw [absent, if_neg (by simp)]
      refine ⟨find_concat_freshRun, (inv.evict victim).add ?_ ?_⟩
      · intro other mem
        exact ne_of_find_eq_none absent (List.mem_of_mem_filter mem)
      · refine lt_of_lt_of_le (List.length_filter_lt_length_iff_exists.mpr ?_) inv.retained
        exact ⟨victim, mem, by simp⟩

theorem record_eq (inv : Inv store recorded) (found : store.find d.run_id = some bucket) :
    ∃ extended, extended.run_id = d.run_id ∧
      extended.events = (recorded d.run_id ++ [buildTraceEvent d]).rtake store.max_events_per_run ∧
      store.record bucket d = some { store with
        runs := store.runs.map fun other => if other.run_id = d.run_id then extended else other
        truncated_runs := if store.max_events_per_run ≤ (recorded d.run_id).length then
          store.truncated_runs.insert d.run_id else store.truncated_runs } := by
  obtain ⟨present, same⟩ := find_eq_some found
  have events := inv.events bucket present
  rw [same] at events
  have full : store.max_events_per_run ≤ bucket.events.length ↔
      store.max_events_per_run ≤ (recorded d.run_id).length := by
    rw [events]
    exact Fifo.le_length_rtake
  have some_event : ¬(store.max_events_per_run ≤ bucket.events.length ∧ bucket.events = []) := by
    rintro ⟨le, empty⟩
    rw [empty, List.length_nil] at le
    exact absurd inv.positive (by omega)
  refine ⟨{ bucket with
    events := (if store.max_events_per_run ≤ (recorded d.run_id).length then bucket.events.tail
      else bucket.events) ++ [buildTraceEvent d]
    last_event_ms := d.ts_ms }, same, ?_, ?_⟩
  · by_cases kept : store.max_events_per_run ≤ (recorded d.run_id).length
    · rw [Fifo.rtake_concat_of_le inv.positive kept, ← events]
      simp only [if_pos kept]
    · rw [Fifo.rtake_concat_of_lt (by omega), ← events]
      simp only [if_neg kept]
  · simp only [RunTraceStore.record]
    rw [if_neg some_event]
    simp only [full]

/-- After the event the run has it too. -/
theorem record (inv : Inv store recorded) (found : store.find d.run_id = some bucket) :
    ∃ next extended, store.record bucket d = some next ∧ extended.run_id = d.run_id ∧
      next.runs = (store.runs.map fun other =>
        if other.run_id = d.run_id then extended else other) ∧
      next.max_runs = store.max_runs ∧
      Inv next (Function.update recorded d.run_id (recorded d.run_id ++ [buildTraceEvent d])) := by
  obtain ⟨extended, same, events, recorded_eq⟩ := inv.record_eq found
  refine ⟨_, extended, recorded_eq, same, rfl, rfl, ?_⟩
  have id (other : RunBucket) :
      (if other.run_id = d.run_id then extended else other).run_id = other.run_id := by
    split
    · rename_i own
      rw [same, own]
    · rfl
  constructor
  case positive => exact inv.positive
  case retained =>
    rw [List.length_map]
    exact inv.retained
  case distinct =>
    rw [List.map_map]
    have ids := List.map_congr_left (l := store.runs) fun other _ => id other
    exact (congrArg List.Nodup ids).mpr inv.distinct
  case events =>
    intro changed mem
    obtain ⟨other, present, rfl⟩ := List.mem_map.mp mem
    rw [id]
    by_cases own : other.run_id = d.run_id
    · rw [if_pos own, own, Function.update_self, events]
    · rw [if_neg own, Function.update_of_ne own]
      exact inv.events other present
  case truncated =>
    intro changed mem
    obtain ⟨other, present, rfl⟩ := List.mem_map.mp mem
    rw [id]
    have before := inv.truncated other present
    by_cases own : other.run_id = d.run_id
    · rw [own] at before ⊢
      rw [Function.update_self, List.length_append, List.length_singleton, Nat.lt_succ_iff]
      by_cases full : store.max_events_per_run ≤ (recorded d.run_id).length
      · simp [full]
      · simp only [if_neg full, before]
        omega
    · rw [Function.update_of_ne own, ← before]
      split
      · simp [own]
      · exact Iff.rfl
  case marked =>
    intro run_id mem
    have held : run_id = d.run_id ∨ run_id ∈ store.truncated_runs := by
      dsimp only at mem
      split at mem
      · exact List.mem_insert_iff.mp mem
      · exact .inr mem
    have exists_bucket : ∃ other ∈ store.runs, other.run_id = run_id := by
      rcases held with rfl | held
      · exact ⟨bucket, find_eq_some found⟩
      · exact inv.marked run_id held
    obtain ⟨other, present, rfl⟩ := exists_bucket
    exact ⟨_, List.mem_map_of_mem present, id other⟩

end Inv

/-!
## Every sequence of events
-/

theorem step_eq (inv : Inv use.store use.recorded) (room : HasRoom use.store d) :
    ∃ after, use.step d = some after ∧ Inv after.store after.recorded := by
  obtain ⟨⟨bucket, found⟩, ensured⟩ := inv.ensure (ensures_ensureRun inv.retained room)
  obtain ⟨next, -, recorded, -, -, -, inv⟩ := ensured.record found
  have appended : use.store.appendLocked d = some next := by
    rw [RunTraceStore.appendLocked, found]
    exact recorded
  refine ⟨_, by rw [TraceUse.step, appended]; rfl, ?_⟩
  convert inv using 1
  funext run_id
  dsimp only
  by_cases own : run_id = d.run_id
  · subst own
    rw [if_pos rfl, Function.update_self]
    split
    · rfl
    · rw [Function.update_self]
  · rw [if_neg own, Function.update_of_ne own]
    split
    · rfl
    · rw [Function.update_of_ne own]

theorem evicts (inv : Inv store recorded) (room : HasRoom store d)
    (absent : (store.find d.run_id).isNone) (full : store.runs.length = store.max_runs) :
    ∃ next victim, store.appendLocked d = some next ∧ Evicts store next d victim := by
  have ensures := ensures_ensureRun inv.retained room
  obtain ⟨⟨bucket, found⟩, ensured⟩ := inv.ensure ensures
  obtain ⟨next, extended, recorded, same, runs, -, -⟩ := ensured.record found
  have appended : store.appendLocked d = some next := by
    rw [RunTraceStore.appendLocked, found]
    exact recorded
  have missing := Option.isNone_iff_eq_none.mp absent
  generalize store.ensureRun d = middle at ensures runs
  cases ensures with
  | known known =>
      rw [missing] at known
      cases known
  | room _ few => omega
  | evicted victim _ mem least =>
      refine ⟨next, victim, appended, mem, least, extended, same, ?_⟩
      rw [runs, List.map_append, List.map_singleton, if_pos (by rfl)]
      congr 1
      have others : ∀ other ∈ store.runs.filter fun bucket => bucket.run_id ≠ victim.run_id,
          (if other.run_id = d.run_id then extended else other) = other := by
        intro other mem
        exact if_neg (ne_of_find_eq_none missing (List.mem_of_mem_filter mem))
      rw [List.map_congr_left others, List.map_id']

theorem Inv.sound (inv : Inv use.store use.recorded) : use.Sound where
  retained := inv.retained
  distinct := inv.distinct
  events := by
    intro run_id snapshot taken
    obtain ⟨bucket, found, rfl⟩ := Option.map_eq_some_iff.mp taken
    obtain ⟨present, rfl⟩ := find_eq_some found
    exact inv.events bucket present
  truncated := by
    intro run_id snapshot taken
    obtain ⟨bucket, found, rfl⟩ := Option.map_eq_some_iff.mp taken
    obtain ⟨present, rfl⟩ := find_eq_some found
    rw [← inv.truncated bucket present]
    exact List.contains_iff_mem
  evicts := fun _ room absent full => RunTrace.evicts inv room absent full

/-- Every sequence of events, with any runs and times in any order, goes through as long as every
new run over the limit comes when one is there that began no later. -/
theorem traceUse_sound (max_runs max_events_per_run : ℕ) (events : List DerivedEvent)
    (room : TraceUse.step.Meets (fun use d => HasRoom use.store d)
      { store := .init max_runs max_events_per_run } events) :
    ∃ final, TraceUse.step.run { store := .init max_runs max_events_per_run } events = some final ∧
      final.Sound := by
  have start : Inv (.init max_runs max_events_per_run) fun _ => [] := .init max_runs _
  suffices continued : ∀ use : TraceUse, Inv use.store use.recorded →
      TraceUse.step.Meets (fun use d => HasRoom use.store d) use events →
      ∃ final, TraceUse.step.run use events = some final ∧ final.Sound from
    continued _ start room
  clear room start
  induction events with
  | nil =>
      intro use inv _
      exact ⟨use, rfl, inv.sound⟩
  | cons d rest ih =>
      intro use inv ⟨room, meets⟩
      obtain ⟨after, stepped, kept⟩ := step_eq inv room
      rw [Machine.run_cons, stepped, Option.bind_some]
      exact ih after kept (meets after stepped)

/-- An event of the run that a letter stands for. -/
def eventAt (letter : Char) (ts_ms : ℤ) : DerivedEvent where
  kind := .tool_call
  run_id := ascii (String.singleton letter)
  ts_ms

/-- In a store of one run with one event each, later runs take the place of earlier ones. -/
theorem traceUse_three : ∃ final,
    TraceUse.step.run { store := .init 1 1 } [eventAt 'a' 5, eventAt 'a' 3, eventAt 'b' 5] =
      some final ∧ final.Sound := by
  refine traceUse_sound 1 1 _ (.cons (.inr (.inl (by decide))) rfl
    (.cons (.inl (by decide)) rfl (.cons (.inr (.inr ?_)) rfl trivial)))
  exact ⟨_, List.mem_cons_self, by decide, by decide⟩

/-- The second run began before the one that is there, so it is the one that goes, and the lookup
finds nothing. -/
theorem traps_on_earlier_run :
    TraceUse.step.run { store := .init 1 10 } [eventAt 'a' 10, eventAt 'b' 5] = none := by
  decide

end Nullalis.RunTrace
