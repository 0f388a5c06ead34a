import Nullalis.Subagent.Results

/-!
# Results of different users

The id of a result names the number of its task and not its user, and every manager numbers its
tasks from one. As long as no two users end tasks of one number, a row belongs to the only
completion that can look it up, and that one marks it when it is through.
-/

namespace Nullalis.Subagent

/-- No two users end tasks of one number. -/
def NumbersApart (system : ResultSystem) : ResultAction → Prop
  | .completeTask user task_id _ _ _ _ =>
      ∀ other, other ≠ user → system.completions other task_id = none
  | _ => True

/-- Has the completion returned? -/
def CompletionPhase.returned : CompletionPhase → Bool
  | .finished => true
  | .suppressed => true
  | _ => false

/-- Has the result been delivered? -/
def CompletionPhase.delivered : CompletionPhase → Bool
  | .routed => true
  | .finished => true
  | _ => false

/-- What was delivered of a task. -/
def ResultSystem.deliveriesOf (system : ResultSystem) (user : ℤ) (task_id : ℕ) :
    List ResultDelivery :=
  system.deliveries.filter fun delivery => delivery.user == user && delivery.task_id == task_id

/-- Every completion that has returned has delivered its result once and to the session of its
task, and looking up whether it was delivered shows nobody the row of another user. -/
structure ResultsIsolated (system : ResultSystem) : Prop where
  once : ∀ user task_id completion, system.completions user task_id = some completion →
    completion.phase.returned = true →
      system.deliveriesOf user task_id = [⟨user, task_id, completion.request_session_key⟩]
  atMost : ∀ user task_id, (system.deliveriesOf user task_id).length ≤ 1
  own : ∀ delivery ∈ system.deliveries, ∃ state,
    (system.managers delivery.user).tasks delivery.task_id = some state ∧ state.ended = true ∧
      delivery.session_key = state.requestSession
  apart : ∀ pair ∈ system.observed, pair.1 = pair.2

/-!
## The table
-/

namespace ResultTable

variable {table : ResultTable} {result_id other : Bytes} {row : ResultRow}

theorem mem_of_get (found : table.get result_id = some row) : (result_id, row) ∈ table.rows := by
  rcases Option.map_eq_some_iff.mp found with ⟨entry, present, rfl⟩
  have same : entry.1 = result_id := by simpa using List.find?_some present
  exact same ▸ List.mem_of_find?_eq_some present

theorem mem_upsertSubagentResult {entry : Bytes × ResultRow}
    (mem : entry ∈ (table.upsertSubagentResult result_id row).rows) :
    entry ∈ table.rows ∨ entry = (result_id, row) := by
  simp only [upsertSubagentResult] at mem
  split at mem
  · exact Or.inl mem
  · split at mem
    · exact Or.inl mem
    · simpa using mem

theorem mem_markSubagentResultDelivered {entry : Bytes × ResultRow}
    (mem : entry ∈ (table.markSubagentResultDelivered result_id).rows) :
    entry ∈ table.rows ∨
      ∃ row, (result_id, row) ∈ table.rows ∧ entry = (result_id, { row with delivered := true }) := by
  simp only [markSubagentResultDelivered, List.mem_map] at mem
  rcases mem with ⟨before, present, rfl⟩
  split
  case isTrue same =>
      right
      exact ⟨before.2, same ▸ present, by rw [same]⟩
  case isFalse => exact Or.inl present

end ResultTable

theorem task_id_of_formatSubagentResultId {first second : ℕ} {result_id : Bytes}
    (named : formatSubagentResultId first = some result_id)
    (named' : formatSubagentResultId second = some result_id) : first = second := by
  simp only [formatSubagentResultId, Session.bufPrint] at named named'
  split at named
  · split at named'
    · rw [Option.some_inj] at named named'
      have same := named.trans named'.symm
      exact Bytes.decimal_injective (List.append_cancel_left same)
    · cases named'
  · cases named

/-!
## One manager
-/

section Manager

variable {manager after : SubagentManager} {user : ℤ} {ended : ℕ → Option Completion}
  {task_id : ℕ} {state next : TaskState}

/-- What holds of the manager of a user with the completions of its tasks. -/
structure ManagerInv (manager : SubagentManager) (user : ℤ) (ended : ℕ → Option Completion) :
    Prop where
  below : ∀ task_id, manager.next_id ≤ task_id → manager.tasks task_id = none
  serves : ∀ task_id state, manager.tasks task_id = some state →
    ∀ session_key, state.session_key = some session_key → servesUser user session_key = true
  ended : ∀ task_id completion, ended task_id = some completion → ∃ state,
    manager.tasks task_id = some state ∧ state.ended = true ∧
      completion.request_session_key = state.requestSession

theorem ManagerInv.replace (inv : ManagerInv manager user ended)
    (present : manager.tasks task_id = some state) (going : state.ended = false)
    (tasks : after.tasks = Function.update manager.tasks task_id (some next))
    (next_id : after.next_id = manager.next_id) (session : next.session_key = state.session_key) :
    ManagerInv after user ended where
  below other beyond := by
    have absent := inv.below other (next_id ▸ beyond)
    have apart : other ≠ task_id := by
      rintro rfl
      rw [present] at absent
      cases absent
    rw [tasks, Function.update_of_ne apart]
    exact absent
  serves other found foundAt session_key key := by
    rw [tasks] at foundAt
    by_cases same : other = task_id
    · subst same
      rw [Function.update_self, Option.some_inj] at foundAt
      subst foundAt
      exact inv.serves _ state present session_key (session ▸ key)
    · rw [Function.update_of_ne same] at foundAt
      exact inv.serves other found foundAt session_key key
  ended other completion done := by
    rcases inv.ended other completion done with ⟨before, foundAt, ceased, sent⟩
    have apart : other ≠ task_id := by
      rintro rfl
      rw [present, Option.some_inj] at foundAt
      rw [foundAt, ceased] at going
      cases going
    exact ⟨before, by rw [tasks, Function.update_of_ne apart, foundAt], ceased, sent⟩

theorem ManagerInv.put {entry : Option TaskState} (inv : ManagerInv manager user ended)
    (tasks : after.tasks = Function.update manager.tasks manager.next_id entry)
    (next_id : after.next_id = manager.next_id + 1)
    (served : ∀ state session_key, entry = some state → state.session_key = some session_key →
      servesUser user session_key = true) : ManagerInv after user ended where
  below other beyond := by
    rw [tasks, Function.update_of_ne (by omega)]
    exact inv.below other (by omega)
  serves other found foundAt session_key key := by
    rw [tasks] at foundAt
    by_cases same : other = manager.next_id
    · subst same
      rw [Function.update_self] at foundAt
      exact served found session_key foundAt key
    · rw [Function.update_of_ne same] at foundAt
      exact inv.serves other found foundAt session_key key
  ended other completion done := by
    rcases inv.ended other completion done with ⟨before, foundAt, ceased, sent⟩
    have apart : other ≠ manager.next_id := by
      rintro rfl
      rw [inv.below _ (Nat.le_refl _)] at foundAt
      cases foundAt
    exact ⟨before, by rw [tasks, Function.update_of_ne apart, foundAt], ceased, sent⟩

theorem ManagerInv.congr (inv : ManagerInv manager user ended) (tasks : after.tasks = manager.tasks)
    (next_id : after.next_id = manager.next_id) : ManagerInv after user ended where
  below task_id := by
    rw [tasks, next_id]
    exact inv.below task_id
  serves task_id := by
    rw [tasks]
    exact inv.serves task_id
  ended task_id := by
    rw [tasks]
    exact inv.ended task_id

theorem ManagerInv.spawnInBatchLocked (inv : ManagerInv manager user ended)
    {request : SpawnRequest} {batch_id : Option Bytes} {surroundings : SpawnSurroundings}
    (serves : servesUser user request.request_session_key = true) :
    ManagerInv (manager.spawnInBatchLocked request batch_id surroundings).2.1 user ended := by
  simp only [SubagentManager.spawnInBatchLocked]
  split
  case isTrue =>
      apply inv.put rfl rfl
      intro state session_key entry key
      cases entry
      cases key
      exact serves
  case isFalse =>
      apply inv.put rfl rfl
      intro state session_key entry
      cases entry

theorem ManagerInv.spawn (inv : ManagerInv manager user ended) {request : SpawnRequest}
    {surroundings : SpawnSurroundings}
    (serves : servesUser user request.request_session_key = true) :
    ManagerInv (manager.spawn request surroundings).2.1 user ended := by
  rw [SubagentManager.spawn]
  split
  case isTrue => exact inv
  case isFalse => exact inv.spawnInBatchLocked serves

theorem ManagerInv.spawnLoop {batch_id : Bytes} {specs : List (SpawnRequest × SpawnSurroundings)}
    (inv : ManagerInv manager user ended)
    (serves : ∀ spec ∈ specs, servesUser user spec.1.request_session_key = true) :
    ManagerInv (manager.spawnLoop batch_id specs).2.1 user ended := by
  induction specs generalizing manager with
  | nil => exact inv
  | cons spec rest ih =>
      rcases spec with ⟨request, surroundings⟩
      have first : ManagerInv
          (manager.spawnInBatchLocked request (some batch_id) surroundings).2.1 user ended :=
        inv.spawnInBatchLocked (serves _ List.mem_cons_self)
      rw [SubagentManager.spawnLoop]
      generalize manager.spawnInBatchLocked request (some batch_id) surroundings = spawned at *
      rcases spawned with ⟨outcome, next, updates⟩
      cases outcome with
      | error error => exact first
      | ok task_id =>
          apply ih first
          intro spec mem
          exact serves spec (List.mem_cons_of_mem _ mem)

theorem ManagerInv.spawnMany {specs : List (SpawnRequest × SpawnSurroundings)}
    {request_session_key : Bytes} {budget_ms now : ℤ} (inv : ManagerInv manager user ended)
    (serves : ∀ spec ∈ specs, servesUser user spec.1.request_session_key = true) :
    ManagerInv (manager.spawnMany specs request_session_key budget_ms now).2.1 user ended := by
  rw [SubagentManager.spawnMany]
  split
  case isTrue => exact inv
  case isFalse =>
      split
      case isTrue => exact inv
      case isFalse =>
          have kept : ManagerInv
              (manager.spawnLoop (formatBatchId manager.next_id now) specs).2.1 user ended :=
            inv.spawnLoop serves
          dsimp only
          split
          case isTrue => exact kept
          case isFalse => exact kept.congr rfl rfl

theorem ManagerInv.markTaskRunning {now : ℤ} (inv : ManagerInv manager user ended) :
    ManagerInv (manager.markTaskRunning task_id now).2.1 user ended := by
  rw [SubagentManager.markTaskRunning]
  split
  case h_1 => exact inv
  case h_2 state present =>
      split
      case isTrue queued => exact inv.replace present (by simp [TaskState.ended, queued]) rfl rfl rfl
      case isFalse => exact inv

theorem ManagerInv.cancelQueued {now : ℤ} (inv : ManagerInv manager user ended) :
    ManagerInv (manager.cancelQueued task_id now).2 user ended := by
  rw [SubagentManager.cancelQueued]
  split
  case h_1 => exact inv
  case h_2 state present =>
      split
      case h_1 queued => exact inv.replace present (by simp [TaskState.ended, queued]) rfl rfl rfl
      all_goals exact inv

theorem ended_completed {result : Option SubagentResult} {err_msg : Option Bytes}
    {surroundings : CompletionSurroundings} :
    (SubagentManager.completed state result err_msg surroundings).ended = true := by
  simp only [TaskState.ended, SubagentManager.completed]
  generalize (if surroundings.copiesError then err_msg else none).isSome = failed
  cases failed <;> rfl

theorem ManagerInv.finish {phase : CompletionPhase} (inv : ManagerInv manager user ended)
    (present : manager.tasks task_id = some state) (ceased : state.ended = true) :
    ManagerInv manager user
      (Function.update ended task_id (some ⟨phase, state.requestSession⟩)) where
  below := inv.below
  serves := inv.serves
  ended other completion done := by
    by_cases same : other = task_id
    · subst same
      rw [Function.update_self, Option.some_inj] at done
      exact ⟨state, present, ceased, done ▸ rfl⟩
    · rw [Function.update_of_ne same] at done
      exact inv.ended other completion done

theorem ManagerInv.move {completion : Completion} {phase : CompletionPhase}
    (inv : ManagerInv manager user ended) (done : ended task_id = some completion) :
    ManagerInv manager user (Function.update ended task_id (some { completion with phase })) := by
  rcases inv.ended task_id completion done with ⟨state, present, ceased, sent⟩
  rw [sent]
  exact inv.finish present ceased

theorem ManagerInv.completeTask {result : Option SubagentResult} {err_msg : Option Bytes}
    {surroundings : CompletionSurroundings} {phase : CompletionPhase}
    (inv : ManagerInv manager user ended) (present : manager.tasks task_id = some state)
    (going : state.ended = false) :
    ManagerInv (manager.completeTask task_id result err_msg surroundings).2.1 user
      (Function.update ended task_id
        (some ⟨phase, (SubagentManager.completed state result err_msg surroundings).requestSession⟩)) := by
  have replaced {after : SubagentManager}
      (tasks : after.tasks = Function.update manager.tasks task_id
        (some (SubagentManager.completed state result err_msg surroundings)))
      (next_id : after.next_id = manager.next_id) :
      ManagerInv after user (Function.update ended task_id
        (some ⟨phase, (SubagentManager.completed state result err_msg surroundings).requestSession⟩)) := by
    apply (inv.replace present going tasks next_id rfl).finish _ ended_completed
    rw [tasks, Function.update_self]
  rw [SubagentManager.completeTask]
  simp only [present, going, Bool.false_eq_true, if_false]
  split <;> exact replaced rfl rfl

end Manager

/-!
## All managers
-/

namespace ResultSystem

/-- What holds between two steps. The completions of one number are those of one user, and a row
belongs to a completion, which has finished if the row is marked. -/
structure IsolationInv (system : ResultSystem) : Prop where
  managers : ∀ user, ManagerInv (system.managers user) user (system.completions user)
  numbers : ∀ user other task_id completion completion',
    system.completions user task_id = some completion →
      system.completions other task_id = some completion' → user = other
  rows : ∀ result_id row, (result_id, row) ∈ system.table.rows → ∃ task_id completion,
    formatSubagentResultId task_id = some result_id ∧
      system.completions row.user_id task_id = some completion ∧
        (row.delivered = true → completion.phase = .finished)
  unsent : ∀ user task_id, system.completions user task_id = none →
    system.deliveriesOf user task_id = []
  sent : ∀ user task_id completion, system.completions user task_id = some completion →
    system.deliveriesOf user task_id =
      if completion.phase.delivered then [⟨user, task_id, completion.request_session_key⟩] else []
  passed : ∀ user task_id completion, system.completions user task_id = some completion →
    completion.phase ≠ .suppressed
  apart : ∀ pair ∈ system.observed, pair.1 = pair.2

theorem isolationInv_init (max_concurrent : ℕ) : (init max_concurrent).IsolationInv where
  managers user := by
    constructor
    · intro _ _
      rfl
    · intro _ _ found
      cases found
    · intro _ _ found
      cases found
  numbers _ _ _ _ _ found := by cases found
  rows _ _ mem := by cases mem
  unsent _ _ _ := rfl
  sent _ _ _ found := by cases found
  passed _ _ _ found := by cases found
  apart _ mem := by cases mem

variable {system : ResultSystem} {user : ℤ} {task_id : ℕ} {completion next : Completion}
  {phase : CompletionPhase} {manager : SubagentManager}

theorem IsolationInv.managed (inv : system.IsolationInv)
    (kept : ManagerInv manager user (system.completions user)) :
    (system.managed user manager).IsolationInv where
  managers other := by
    by_cases same : other = user
    · subst same
      simpa [ResultSystem.managed] using kept
    · simpa [ResultSystem.managed, Function.update_of_ne same] using inv.managers other
  numbers := inv.numbers
  rows := inv.rows
  unsent := inv.unsent
  sent := inv.sent
  passed := inv.passed
  apart := inv.apart

theorem IsolationInv.row_of_get (inv : system.IsolationInv) {result_id : Bytes} {row : ResultRow}
    (present : system.completions user task_id = some completion)
    (named : formatSubagentResultId task_id = some result_id)
    (found : (result_id, row) ∈ system.table.rows) :
    row.user_id = user ∧ (row.delivered = true → completion.phase = .finished) := by
  rcases inv.rows result_id row found with ⟨other, owner, named', ownedBy, marked⟩
  have same := task_id_of_formatSubagentResultId named' named
  subst same
  have user_eq := inv.numbers _ _ _ _ _ ownedBy present
  rw [user_eq, present, Option.some_inj] at ownedBy
  rw [ownedBy]
  exact ⟨user_eq, marked⟩

theorem completions_update {other : ℤ} {number : ℕ} {found : Completion}
    (present : Function.update system.completions user
      (Function.update (system.completions user) task_id (some next)) other number = some found) :
    other = user ∧ number = task_id ∧ found = next ∨
      ¬(other = user ∧ number = task_id) ∧ system.completions other number = some found := by
  by_cases same : other = user
  · subst same
    rw [Function.update_self] at present
    by_cases here : number = task_id
    · subst here
      rw [Function.update_self, Option.some_inj] at present
      exact Or.inl ⟨rfl, rfl, present.symm⟩
    · rw [Function.update_of_ne here] at present
      exact Or.inr ⟨fun both => here both.2, present⟩
  · rw [Function.update_of_ne same] at present
    exact Or.inr ⟨fun both => same both.1, present⟩

theorem completions_update_self :
    Function.update system.completions user
      (Function.update (system.completions user) task_id (some next)) user task_id = some next := by
  rw [Function.update_self, Function.update_self]

theorem completions_update_of_ne {other : ℤ} {number : ℕ}
    (apart : ¬(other = user ∧ number = task_id)) :
    Function.update system.completions user
      (Function.update (system.completions user) task_id (some next)) other number =
        system.completions other number := by
  by_cases same : other = user
  · subst same
    have here : number ≠ task_id := fun here => apart ⟨rfl, here⟩
    rw [Function.update_self, Function.update_of_ne here]
  · rw [Function.update_of_ne same]

/-- A completion is put in or moves on. The rows are those from before, with the row of this
completion marked if it finishes, and perhaps a new row of this completion. -/
theorem IsolationInv.put {managers : ℤ → SubagentManager} {table : ResultTable}
    {deliveries : List ResultDelivery} {observed : List (ℤ × ℤ)} (inv : system.IsolationInv)
    (kept : ∀ other, ManagerInv (managers other) other
      (Function.update system.completions user
        (Function.update (system.completions user) task_id (some next)) other))
    (single : ∀ other completion, system.completions other task_id = some completion → other = user)
    (unfinished : ∀ completion, system.completions user task_id = some completion →
      completion.phase ≠ .finished)
    (rows : ∀ result_id row, (result_id, row) ∈ table.rows →
      (result_id, row) ∈ system.table.rows ∨
        formatSubagentResultId task_id = some result_id ∧ row.user_id = user ∧
          (row.delivered = true → next.phase = .finished))
    (sentHere : deliveries.filter (fun delivery =>
        delivery.user == user && delivery.task_id == task_id) =
      if next.phase.delivered then [⟨user, task_id, next.request_session_key⟩] else [])
    (sentElsewhere : ∀ other number, ¬(other = user ∧ number = task_id) →
      deliveries.filter (fun delivery => delivery.user == other && delivery.task_id == number) =
        system.deliveriesOf other number)
    (passes : next.phase ≠ .suppressed) (apart : ∀ pair ∈ observed, pair.1 = pair.2) :
    IsolationInv
      { managers
        table
        completions := Function.update system.completions user
          (Function.update (system.completions user) task_id (some next))
        deliveries
        observed } where
  managers := kept
  numbers first second number found found' present present' := by
    rcases completions_update present with ⟨rfl, rfl, _⟩ | ⟨_, old⟩ <;>
      rcases completions_update present' with ⟨rfl, same, _⟩ | ⟨_, old'⟩
    · rfl
    · exact (single second found' old').symm
    · subst same
      exact single first found old
    · exact inv.numbers _ _ _ _ _ old old'
  rows result_id row mem := by
    rcases rows result_id row mem with old | ⟨named, user_eq, marked⟩
    · rcases inv.rows result_id row old with ⟨number, found, named, present, marked⟩
      by_cases here : row.user_id = user ∧ number = task_id
      · rcases here with ⟨user_eq, rfl⟩
        refine ⟨number, next, named, ?_, ?_⟩
        · rw [user_eq]
          exact completions_update_self
        · intro delivered
          rw [user_eq] at present
          exact absurd (marked delivered) (unfinished found present)
      · exact ⟨number, found, named, (completions_update_of_ne here).trans present, marked⟩
    · refine ⟨task_id, next, named, ?_, marked⟩
      rw [user_eq]
      exact completions_update_self
  unsent other number absent := by
    by_cases here : other = user ∧ number = task_id
    · rcases here with ⟨rfl, rfl⟩
      have present : Function.update system.completions other
          (Function.update (system.completions other) number (some next)) other number =
            some next := completions_update_self
      dsimp only at absent
      rw [present] at absent
      cases absent
    · exact (sentElsewhere other number here).trans
        (inv.unsent other number ((completions_update_of_ne here).symm.trans absent))
  sent other number found present := by
    rcases completions_update present with ⟨rfl, rfl, rfl⟩ | ⟨here, old⟩
    · exact sentHere
    · exact (sentElsewhere other number here).trans (inv.sent other number found old)
  passed other number found present := by
    rcases completions_update present with ⟨rfl, rfl, rfl⟩ | ⟨_, old⟩
    · exact passes
    · exact inv.passed other number found old
  apart := apart

/-- A completion moves on. What it has delivered is what it delivers now, or nothing new. -/
theorem IsolationInv.move {table : ResultTable} {deliveries : List ResultDelivery}
    {observed : List (ℤ × ℤ)} (inv : system.IsolationInv)
    (present : system.completions user task_id = some completion)
    (unfinished : completion.phase ≠ .finished)
    (rows : ∀ result_id row, (result_id, row) ∈ table.rows →
      (result_id, row) ∈ system.table.rows ∨
        formatSubagentResultId task_id = some result_id ∧ row.user_id = user ∧
          (row.delivered = true → phase = .finished))
    (sent : deliveries = system.deliveries ∧ completion.phase.delivered = phase.delivered ∨
      deliveries = system.deliveries ++ [⟨user, task_id, completion.request_session_key⟩] ∧
        completion.phase.delivered = false ∧ phase.delivered = true)
    (passes : phase ≠ .suppressed) (apart : ∀ pair ∈ observed, pair.1 = pair.2) :
    { system.move user task_id completion phase with table, deliveries, observed }.IsolationInv := by
  have before := inv.sent user task_id completion present
  rw [deliveriesOf] at before
  apply inv.put
  · intro other
    by_cases same : other = user
    · subst same
      rw [Function.update_self]
      exact (inv.managers other).move present
    · rw [Function.update_of_ne same]
      exact inv.managers other
  · intro other found foundAt
    exact inv.numbers _ _ _ _ _ foundAt present
  · intro found foundAt
    rw [present, Option.some_inj] at foundAt
    exact foundAt ▸ unfinished
  · exact rows
  · rcases sent with ⟨rfl, same⟩ | ⟨rfl, unsent, delivered⟩
    · rw [before, same]
    · rw [List.filter_append, before, unsent, delivered]
      simp
  · intro other number here
    rcases sent with ⟨rfl, _⟩ | ⟨rfl, _⟩
    · rfl
    · have other_ne : (user == other && task_id == number) = false := by
        rw [Bool.eq_false_iff, Ne, Bool.and_eq_true, beq_iff_eq, beq_iff_eq]
        rintro ⟨rfl, rfl⟩
        exact here ⟨rfl, rfl⟩
      rw [List.filter_append, List.filter_cons_of_neg (by simp [other_ne]), List.filter_nil,
        List.append_nil, deliveriesOf]
  · exact passes
  · exact apart

theorem mem_persisted {table : ResultTable} {state : TaskState} {result_id : Bytes}
    {row : ResultRow}
    (serves : ∀ session_key, state.session_key = some session_key →
      servesUser user session_key = true)
    (mem : (result_id, row) ∈ (persisted table task_id state).rows) :
    (result_id, row) ∈ table.rows ∨
      formatSubagentResultId task_id = some result_id ∧ row.user_id = user ∧
        row.delivered = false := by
  simp only [persisted] at mem
  split at mem
  case h_2 => exact Or.inl mem
  case h_1 user_id own sessionOf named =>
      rcases ResultTable.mem_upsertSubagentResult mem with old | new
      · exact Or.inl old
      · right
        cases new
        rcases Option.bind_eq_some_iff.mp sessionOf with ⟨session_key, key, parsed⟩
        have served := serves session_key key
        rw [servesUser, parsed] at served
        exact ⟨named, by simpa using served, rfl⟩

theorem IsolationInv.completeTask {result : Option SubagentResult} {err_msg : Option Bytes}
    {surroundings : CompletionSurroundings} {persists : Bool} {after : ResultSystem}
    (inv : system.IsolationInv)
    (alone : ∀ other, other ≠ user → system.completions other task_id = none)
    (stepped : system.step (.completeTask user task_id result err_msg surroundings persists) =
      some after) : after.IsolationInv := by
  simp only [step] at stepped
  split at stepped
  case h_1 =>
      cases stepped
      exact inv
  case h_2 state present =>
      split at stepped
      case isTrue =>
          cases stepped
          exact inv
      case isFalse going =>
          cases stepped
          have going : state.ended = false := by simpa using going
          have fresh : system.completions user task_id = none := by
            cases done : system.completions user task_id with
            | none => rfl
            | some completion =>
                rcases (inv.managers user).ended task_id completion done with
                  ⟨found, foundAt, ceased, _⟩
                rw [present, Option.some_inj] at foundAt
                rw [foundAt, ceased] at going
                cases going
          have nothing := inv.unsent user task_id fresh
          rw [deliveriesOf] at nothing
          apply inv.put
          · intro other
            by_cases same : other = user
            · subst same
              simp only [ResultSystem.move, ResultSystem.managed, Function.update_self]
              exact (inv.managers other).completeTask present going
            · simp only [ResultSystem.move, ResultSystem.managed, Function.update_of_ne same]
              exact inv.managers other
          · intro other completion found
            by_contra apart
            rw [alone other apart] at found
            cases found
          · intro completion found
            rw [fresh] at found
            cases found
          · intro result_id row mem
            split at mem
            case isFalse => exact Or.inl mem
            case isTrue =>
                have serves : ∀ session_key,
                    (SubagentManager.completed state result err_msg surroundings).session_key =
                      some session_key → servesUser user session_key = true :=
                  (inv.managers user).serves task_id state present
                rcases mem_persisted serves mem with old | ⟨named, own, unmarked⟩
                · exact Or.inl old
                · refine Or.inr ⟨named, own, ?_⟩
                  simp [unmarked]
          · exact nothing
          · intro other number _
            rfl
          · simp
          · exact inv.apart

/-- What looking up a result shows, and that it was not delivered yet. -/
theorem IsolationInv.checkDelivered {answers : Bool} {after : ResultSystem}
    (inv : system.IsolationInv)
    (stepped : system.step (.checkDelivered user task_id answers) = some after) :
    after.IsolationInv := by
  simp only [step] at stepped
  split at stepped
  case h_1 => cases stepped
  case h_2 completion present =>
      split at stepped
      case isFalse => cases stepped
      case isTrue ended =>
          have unsent : completion.phase.delivered = CompletionPhase.checked.delivered := by
            rw [ended]
            rfl
          have passes : system.move user task_id completion .checked |>.IsolationInv := by
            apply inv.move present
            · simp [ended]
            · exact fun _ _ mem => Or.inl mem
            · exact Or.inl ⟨rfl, unsent⟩
            · simp
            · exact inv.apart
          split at stepped
          case h_1 =>
              cases stepped
              exact passes
          case h_2 result_id named =>
              split at stepped
              case isFalse =>
                  cases stepped
                  exact passes
              case isTrue =>
                  cases stepped
                  have unmarked :
                      system.table.subagentResultStatusIsDelivered result_id = false := by
                    rw [ResultTable.subagentResultStatusIsDelivered, Option.any_eq_false]
                    intro row found
                    rw [Bool.eq_false_iff]
                    intro marked
                    have own := inv.row_of_get present named (ResultTable.mem_of_get found)
                    have finished := own.2 marked
                    rw [ended] at finished
                    cases finished
                  rw [unmarked]
                  apply inv.move present
                  · simp [ended]
                  · exact fun _ _ mem => Or.inl mem
                  · exact Or.inl ⟨rfl, unsent⟩
                  · simp
                  · intro pair mem
                    rcases List.mem_append.mp mem with old | new
                    · exact inv.apart pair old
                    · rw [Option.mem_toList, Option.map_eq_some_iff] at new
                      rcases new with ⟨row, found, rfl⟩
                      have own := inv.row_of_get present named (ResultTable.mem_of_get found)
                      exact own.1.symm

theorem IsolationInv.step {action : ResultAction} {after : ResultSystem}
    (inv : system.IsolationInv) (met : NumbersApart system action)
    (stepped : system.step action = some after) : after.IsolationInv := by
  cases action with
  | spawn user request surroundings =>
      simp only [ResultSystem.step] at stepped
      split at stepped
      case isFalse => cases stepped
      case isTrue serves =>
          cases stepped
          exact inv.managed ((inv.managers user).spawn serves)
  | spawnMany user specs request_session_key budget_ms now =>
      simp only [ResultSystem.step] at stepped
      split at stepped
      case isFalse => cases stepped
      case isTrue serves =>
          cases stepped
          rw [List.all_eq_true] at serves
          exact inv.managed ((inv.managers user).spawnMany serves)
  | markTaskRunning user task_id now =>
      simp only [ResultSystem.step, Option.some_inj] at stepped
      subst stepped
      exact inv.managed (inv.managers user).markTaskRunning
  | cancelQueued user task_id now =>
      simp only [ResultSystem.step, Option.some_inj] at stepped
      subst stepped
      exact inv.managed (inv.managers user).cancelQueued
  | completeTask user task_id result err_msg surroundings persists =>
      exact inv.completeTask met stepped
  | checkDelivered user task_id answers => exact inv.checkDelivered stepped
  | deliver user task_id =>
      simp only [ResultSystem.step] at stepped
      split at stepped
      case h_1 => cases stepped
      case h_2 completion present =>
          split at stepped
          case isFalse => cases stepped
          case isTrue checked =>
              cases stepped
              apply inv.move present
              · simp [checked]
              · exact fun _ _ mem => Or.inl mem
              · exact Or.inr ⟨rfl, by rw [checked]; rfl, rfl⟩
              · simp
              · exact inv.apart
  | markDelivered user task_id succeeds =>
      simp only [ResultSystem.step] at stepped
      split at stepped
      case h_1 => cases stepped
      case h_2 completion present =>
          split at stepped
          case isFalse => cases stepped
          case isTrue routed =>
              cases stepped
              apply inv.move present
              · simp [routed]
              · intro result_id row mem
                split at mem
                case h_1 => exact Or.inl mem
                case h_2 own named =>
                    split at mem
                    case isFalse => exact Or.inl mem
                    case isTrue =>
                        rcases ResultTable.mem_markSubagentResultDelivered mem with
                          old | ⟨before, found, entry⟩
                        · exact Or.inl old
                        · cases entry
                          exact Or.inr ⟨named, (inv.row_of_get present named found).1, fun _ => rfl⟩
              · exact Or.inl ⟨rfl, by rw [routed]; rfl⟩
              · simp
              · exact inv.apart

theorem IsolationInv.isolated (inv : system.IsolationInv) : ResultsIsolated system where
  once user task_id completion present returned := by
    have sent := inv.sent user task_id completion present
    have passed := inv.passed user task_id completion present
    cases phase : completion.phase <;> simp_all [CompletionPhase.returned, CompletionPhase.delivered]
  atMost user task_id := by
    cases present : system.completions user task_id with
    | none => simp [inv.unsent user task_id present]
    | some completion =>
        rw [inv.sent user task_id completion present]
        split <;> simp
  own delivery mem := by
    have listed : delivery ∈ system.deliveriesOf delivery.user delivery.task_id := by
      simp [deliveriesOf, mem]
    cases present : system.completions delivery.user delivery.task_id with
    | none =>
        rw [inv.unsent _ _ present] at listed
        cases listed
    | some completion =>
        rcases (inv.managers delivery.user).ended _ _ present with ⟨state, found, ceased, sent⟩
        rw [inv.sent _ _ completion present] at listed
        split at listed
        · rw [List.mem_singleton] at listed
          refine ⟨state, found, ceased, ?_⟩
          rw [listed, ← sent]
        · cases listed
  apart := inv.apart

end ResultSystem

/-- As long as no two users end tasks of one number, every completion delivers its result once
and to its own session, and looks at no row of another user. -/
theorem results_isolated_of_numbersApart {max_concurrent : ℕ} {actions : List ResultAction}
    {system : ResultSystem}
    (met : Machine.Meets ResultSystem.step NumbersApart (.init max_concurrent) actions)
    (reached : Machine.run ResultSystem.step (.init max_concurrent) actions = some system) :
    ResultsIsolated system := by
  apply ResultSystem.IsolationInv.isolated
  apply Machine.run_invariant_of_meets _ _ met reached
  · intro state action next inv met stepped
    exact ResultSystem.IsolationInv.step inv met stepped
  · exact ResultSystem.isolationInv_init max_concurrent

/-- A task of a user for the examples. -/
def asks (session_key : String) : SpawnRequest where
  task := ascii "look it up"
  label := ascii "research"
  request_session_key := ascii session_key
  origin_channel := ascii "agent"
  origin_chat_id := ascii "chat"

def foundResult : Option SubagentResult :=
  some ⟨.completed, ascii "found", none⟩

/-- The first task of one user and the second one of another user end. -/
def differentNumbers : List ResultAction :=
  [.spawn 1 (asks "agent:zaki-bot:user:1:main") ⟨0, true, true⟩,
    .spawn 2 (asks "agent:zaki-bot:user:2:main") ⟨0, true, true⟩,
    .spawn 2 (asks "agent:zaki-bot:user:2:main") ⟨0, true, true⟩,
    .completeTask 1 1 foundResult none ⟨1, true, true⟩ true,
    .completeTask 2 2 foundResult none ⟨1, true, true⟩ true,
    .checkDelivered 1 1 true,
    .checkDelivered 2 2 true,
    .deliver 2 2,
    .markDelivered 2 2 true,
    .deliver 1 1,
    .markDelivered 1 1 true]

/-- The first tasks of two users end one after the other. -/
def sameNumber : List ResultAction :=
  [.spawn 1 (asks "agent:zaki-bot:user:1:main") ⟨0, true, true⟩,
    .spawn 2 (asks "agent:zaki-bot:user:2:main") ⟨0, true, true⟩,
    .completeTask 1 1 foundResult none ⟨1, true, true⟩ true,
    .checkDelivered 1 1 true,
    .deliver 1 1,
    .markDelivered 1 1 true,
    .completeTask 2 1 foundResult none ⟨2, true, true⟩ true,
    .checkDelivered 2 1 true]

theorem results_isolated_differentNumbers :
    ∃ system, Machine.run ResultSystem.step (.init 8) differentNumbers = some system ∧
      ResultsIsolated system ∧
        system.deliveries =
          [⟨2, 2, ascii "agent:zaki-bot:user:2:main"⟩, ⟨1, 1, ascii "agent:zaki-bot:user:1:main"⟩] := by
  have delivered : (Machine.run ResultSystem.step (.init 8) differentNumbers).map (·.deliveries) =
      some [⟨2, 2, ascii "agent:zaki-bot:user:2:main"⟩,
        ⟨1, 1, ascii "agent:zaki-bot:user:1:main"⟩] := by
    decide
  rcases Option.map_eq_some_iff.mp delivered with ⟨system, reached, shape⟩
  refine ⟨system, reached, results_isolated_of_numbersApart ?_ reached, shape⟩
  apply Machine.Meets.cons trivial rfl
  apply Machine.Meets.cons trivial rfl
  apply Machine.Meets.cons trivial rfl
  apply Machine.Meets.cons (fun _ _ => rfl) rfl
  refine Machine.Meets.cons ?_ rfl ?_
  · intro other _
    have only : ¬(other = 1 ∧ 2 = 1) := by simp
    exact ResultSystem.completions_update_of_ne only
  · apply Machine.Meets.cons trivial rfl
    apply Machine.Meets.cons trivial rfl
    apply Machine.Meets.cons trivial rfl
    apply Machine.Meets.cons trivial rfl
    apply Machine.Meets.cons trivial rfl
    apply Machine.Meets.cons trivial rfl
    exact trivial

/-- Results are not isolated in every run: the first task of the second user finds the result of
the first user delivered, and its own is not. -/
theorem not_results_isolated :
    ¬ ∀ max_concurrent actions system,
      Machine.run ResultSystem.step (.init max_concurrent) actions = some system →
        ResultsIsolated system := by
  intro isolated
  have suppressed : (Machine.run ResultSystem.step (.init 8) sameNumber).map (fun system =>
      ((system.completions 2 1).map (·.phase), system.deliveriesOf 2 1, system.observed)) =
        some (some .suppressed, [], [(1, 1), (2, 1)]) := by
    decide
  rcases Option.map_eq_some_iff.mp suppressed with ⟨system, reached, shape⟩
  simp only [Prod.mk.injEq] at shape
  rcases shape with ⟨phase, nothing, _⟩
  rcases Option.map_eq_some_iff.mp phase with ⟨completion, present, phase⟩
  have once := (isolated 8 sameNumber system reached).once 2 1 completion present
    (by rw [phase]; rfl)
  rw [nothing] at once
  cases once

end Nullalis.Subagent
