import Mathlib.Data.List.Forall2
import Nullalis.Tasks.Ledger

/-!
# What the task ledger guarantees

Every call leaves the ledger as it was, moves entries along the table of status changes, or
appends one entry (`perform_advances`). From this come the distinctness of the ids, the
finality of terminal entries and the meaning of the result and error fields.

The ids of the counter fit in the buffer only up to eleven digits. The caller can take the
last of these ids, and then the next entry under a counted id panics.
-/

namespace Nullalis.Tasks

def idLimit : ℕ := 16 ^ 11

/-- A task entered under a counted id, when there is room and memory for it, finds the counter
among the ids that fit in the buffer. -/
def IdFits (state : LedgerState) : LedgerCall → Prop
  | .createTask _ _ surroundings =>
      state.ledger.entries.length < MAX_TASKS → surroundings.allocates = true →
        state.ledger.next_id < idLimit
  | _ => True

/-- A terminal entry was kept. -/
structure Follows (entry later : TaskEntry) : Prop where
  task_id : later.task_id = entry.task_id
  status : entry.status.isTerminal = true → later.status = entry.status
  result_summary : entry.status.isTerminal = true → later.result_summary = entry.result_summary
  error_message : entry.status.isTerminal = true → later.error_message = entry.error_message

/-- What the users of the ledger rely on. -/
structure LedgerSafe (state : LedgerState) : Prop where
  distinct : (state.ledger.entries.map (·.task_id)).Nodup
  final : ∀ calls later, Machine.run LedgerState.step state calls = some later →
    ∀ entry ∈ state.ledger.entries, ∃ kept ∈ later.ledger.entries, Follows entry kept
  result : ∀ entry ∈ state.ledger.entries,
    entry.result_summary ≠ none → entry.status = .succeeded
  error : ∀ entry ∈ state.ledger.entries, entry.error_message ≠ none → entry.status = .failed
  unchanged : ∀ call error, (state.ledger.perform call).1 = .failed error →
    (state.ledger.perform call).2 = state.ledger
  formats : state.panic ≠ some .unreachable

/-!
## Task ids
-/

theorem bufPrintTaskId_eq {number : ℕ} :
    bufPrintTaskId number = if number < idLimit then some (formatTaskId number) else none := by
  have fits : (formatTaskId number).length ≤ TASK_ID_LEN ↔ number < idLimit := by
    have digits : (Bytes.padLeft (byte '0') 11 (Bytes.radix 16 number)).length ≤ 11 ↔
        number < 16 ^ 11 :=
      Bytes.length_padLeft_radix_le (by decide) (by decide)
    have front : (ascii "task_").length = 5 := rfl
    rw [idLimit, ← digits, formatTaskId, List.length_append, front, TASK_ID_LEN]
    omega
  simp only [bufPrintTaskId, fits]

theorem formatTaskId_injective {first second : ℕ} (same : formatTaskId first = formatTaskId second) :
    first = second :=
  Bytes.padLeft_radix_injective (by decide) (by decide) (List.append_cancel_left same)

theorem bufPrintTaskId_eq_some {number : ℕ} {task_id : Bytes} :
    bufPrintTaskId number = some task_id ↔ number < idLimit ∧ formatTaskId number = task_id := by
  rw [bufPrintTaskId_eq]
  split
  case isTrue fits => simp [fits]
  case isFalse beyond => simp [beyond]

/-!
## One call
-/

/-- What a call may do to one entry. -/
structure Moves (entry next : TaskEntry) : Prop where
  task_id : next.task_id = entry.task_id
  terminal : entry.status.isTerminal = true → next = entry
  result : next.result_summary = entry.result_summary ∨ next.status = .succeeded
  error : next.error_message = entry.error_message ∨ next.status = .failed

theorem Moves.refl (entry : TaskEntry) : Moves entry entry where
  task_id := rfl
  terminal _ := rfl
  result := .inl rfl
  error := .inl rfl

/-- What a call may do to the ledger. -/
inductive Advances : TaskLedger → TaskLedger → Prop where
  | moved {entries moved : List TaskEntry} {next_id : ℕ} (moves : List.Forall₂ Moves entries moved) :
      Advances ⟨entries, next_id⟩ ⟨moved, next_id⟩
  | entered {entries : List TaskEntry} {next_id number : ℕ} {description owner_session : Bytes}
      {now : ℤ} (fits : number < idLimit)
      (fresh : number = next_id ∨ ∀ entry ∈ entries, entry.task_id ≠ formatTaskId number) :
      Advances ⟨entries, next_id⟩
        ⟨entries ++ [.queued (formatTaskId number) description owner_session now],
          max next_id (number + 1)⟩

theorem Advances.refl (ledger : TaskLedger) : Advances ledger ledger :=
  .moved (List.forall₂_same.mpr fun entry _ => .refl entry)

theorem forall₂_modify {entries : List TaskEntry} {index : ℕ} {change : TaskEntry → TaskEntry}
    (moves : ∀ entry, entries[index]? = some entry → Moves entry (change entry)) :
    List.Forall₂ Moves entries (entries.modify index change) := by
  induction entries generalizing index with
  | nil => simp
  | cons entry rest ih =>
      cases index with
      | zero =>
          rw [List.modify_zero_cons]
          exact .cons (moves entry rfl) (List.forall₂_same.mpr fun entry _ => .refl entry)
      | succ index =>
          rw [List.modify_succ_cons]
          exact .cons (.refl entry) (ih fun entry found => moves entry (by simpa using found))

/-- How a call treats the ledger. Under a condition it does not reach the panic of the id
buffer. -/
structure Proper {Value : Type} (ledger : TaskLedger) (condition : Prop)
    (result : Outcome Value × TaskLedger) : Prop where
  advances : Advances ledger result.2
  unchanged : ∀ error, result.1 = .failed error → result.2 = ledger
  formats : condition → result.1.panic ≠ some .unreachable

section Proper

variable {Value : Type} {ledger : TaskLedger} {condition : Prop} {surroundings : Surroundings}

theorem Proper.failed (error : LedgerError) :
    Proper ledger condition ((.failed error : Outcome Value), ledger) where
  advances := .refl ledger
  unchanged _ _ := rfl
  formats _ panicked := by cases panicked

theorem Proper.returned {next : TaskLedger} (value : Value) (advances : Advances ledger next) :
    Proper ledger condition (.returned value, next) where
  advances
  unchanged _ failed := by cases failed
  formats _ panicked := by cases panicked

theorem Proper.void {result : Outcome Value × TaskLedger} (proper : Proper ledger condition result) :
    Proper ledger condition (result.map .void id) := by
  rcases result with ⟨outcome, next⟩
  cases outcome with
  | returned value => exact .returned () proper.advances
  | failed error =>
      exact {
        advances := proper.advances
        unchanged := fun _ _ => proper.unchanged error rfl
        formats := fun _ panicked => by cases panicked }
  | panicked panic =>
      exact {
        advances := proper.advances
        unchanged := fun _ failed => by cases failed
        formats := proper.formats }

theorem mark_proper {task_id : Bytes} {target : TaskStatus} {now : ℤ} {allocated : Bool}
    {change : TaskEntry → TaskEntry}
    (task_id_change : ∀ entry, (change entry).task_id = entry.task_id)
    (result_change : ∀ entry, (change entry).result_summary = entry.result_summary ∨
      target = .succeeded)
    (error_change : ∀ entry, (change entry).error_message = entry.error_message ∨
      target = .failed) :
    Proper ledger condition (ledger.mark task_id target now allocated change) := by
  rw [TaskLedger.mark]
  cases found : ledger.getTask task_id with
  | none => exact .failed _
  | some entry =>
      dsimp only
      cases valid : validateTransition entry.status target with
      | error error => exact .failed error
      | ok =>
          dsimp only
          split
          case isFalse => exact .failed _
          case isTrue =>
              refine .returned () (.moved (forall₂_modify fun found' position => ?_))
              -- The position is that of the entry whose status was checked.
              rw [TaskLedger.getTask, List.find?_eq_getElem?_findIdx, position] at found
              cases found
              exact {
                task_id := task_id_change entry
                terminal := fun ended => by
                  cases status : entry.status <;> rw [status] at ended valid <;>
                    cases target <;> cases ended <;> cases valid
                result := result_change entry
                error := error_change entry }

theorem createTask_proper {description owner_session : Bytes} :
    Proper ledger (ledger.entries.length < MAX_TASKS → surroundings.allocates = true →
      ledger.next_id < idLimit) (ledger.createTask description owner_session surroundings) := by
  rw [TaskLedger.createTask]
  split
  case isTrue => exact .failed _
  case isFalse room =>
      split
      case isFalse => exact .failed _
      case isTrue allocates =>
          rw [bufPrintTaskId_eq]
          split
          case h_2 beyond =>
              refine ⟨.refl ledger, fun _ _ => rfl, fun fits => ?_⟩
              rw [if_pos (fits (Nat.lt_of_not_le room) allocates)] at beyond
              cases beyond
          case h_1 task_id printed =>
              split at printed
              case isFalse => cases printed
              case isTrue fits =>
                  cases printed
                  have entered : Advances ledger ⟨ledger.entries ++ [TaskEntry.queued
                      (formatTaskId ledger.next_id) description owner_session surroundings.now],
                      max ledger.next_id (ledger.next_id + 1)⟩ := .entered fits (.inl rfl)
                  rw [Nat.max_eq_right (Nat.le_succ _)] at entered
                  exact .returned _ entered

theorem createTaskWithNumericId_proper {description owner_session : Bytes} {numeric_id : UInt64} :
    Proper ledger condition
      (ledger.createTaskWithNumericId description owner_session numeric_id surroundings) := by
  rw [TaskLedger.createTaskWithNumericId]
  cases printed : bufPrintTaskId numeric_id.toNat with
  | none => exact .failed _
  | some task_id =>
      rcases bufPrintTaskId_eq_some.1 printed with ⟨fits, rfl⟩
      dsimp only
      split
      case isTrue => exact .failed _
      case isFalse =>
          cases found : ledger.getTask (formatTaskId numeric_id.toNat) with
          | some entry => exact .returned entry (.refl ledger)
          | none =>
              dsimp only
              split
              case isTrue => exact .failed _
              case isFalse =>
                  split
                  case isFalse => exact .failed _
                  case isTrue =>
                      have fresh : ∀ entry ∈ ledger.entries,
                          entry.task_id ≠ formatTaskId numeric_id.toNat := by
                        simpa [TaskLedger.getTask] using found
                      have advanced : (if ledger.next_id ≤ numeric_id.toNat then
                          numeric_id.toNat + 1 else ledger.next_id) =
                          max ledger.next_id (numeric_id.toNat + 1) := by
                        split <;> omega
                      rw [advanced]
                      exact .returned _ (.entered fits (.inr fresh))

theorem sweepLost_proper {now_ms : ℤ} : Proper ledger condition (ledger.sweepLost now_ms) := by
  simp only [TaskLedger.sweepLost]
  split
  case isTrue =>
      exact ⟨.refl ledger, fun _ _ => rfl, fun _ panicked => by cases panicked⟩
  case isFalse =>
      refine .returned _ (.moved ?_)
      rw [List.forall₂_map_right_iff, List.forall₂_same]
      intro entry _
      split
      case isFalse => exact .refl entry
      case isTrue overdue =>
          rw [Bool.and_eq_true, beq_iff_eq] at overdue
          exact {
            task_id := rfl
            terminal := fun ended => by rw [overdue.1] at ended; cases ended
            result := .inl rfl
            error := .inl rfl }

theorem perform_proper {call : LedgerCall} :
    Proper ledger (IdFits ⟨ledger, none⟩ call) (ledger.perform call) := by
  cases call with
  | createTask description owner_session surroundings => exact .void createTask_proper
  | createTaskWithNumericId description owner_session numeric_id surroundings =>
      exact .void createTaskWithNumericId_proper
  | markRunning task_id surroundings =>
      exact mark_proper (fun _ => rfl) (fun _ => .inl rfl) fun _ => .inl rfl
  | markSucceeded task_id result surroundings =>
      exact mark_proper (fun _ => rfl) (fun _ => .inr rfl) fun _ => .inl rfl
  | markFailed task_id err_msg surroundings =>
      exact mark_proper (fun _ => rfl) (fun _ => .inl rfl) fun _ => .inr rfl
  | markTimedOut task_id surroundings =>
      exact mark_proper (fun _ => rfl) (fun _ => .inl rfl) fun _ => .inl rfl
  | markCancelled task_id surroundings =>
      exact mark_proper (fun _ => rfl) (fun _ => .inl rfl) fun _ => .inl rfl
  | sweepLost now_ms => exact .void sweepLost_proper

end Proper

/-!
## Every run
-/

section Follows

variable {entry later latest : TaskEntry}

theorem Moves.follows (moves : Moves entry later) : Follows entry later where
  task_id := moves.task_id
  status ended := by rw [moves.terminal ended]
  result_summary ended := by rw [moves.terminal ended]
  error_message ended := by rw [moves.terminal ended]

theorem Follows.trans (first : Follows entry later) (second : Follows later latest) :
    Follows entry latest where
  task_id := second.task_id.trans first.task_id
  status ended := (second.status (first.status ended ▸ ended)).trans (first.status ended)
  result_summary ended :=
    (second.result_summary (first.status ended ▸ ended)).trans (first.result_summary ended)
  error_message ended :=
    (second.error_message (first.status ended ▸ ended)).trans (first.error_message ended)

end Follows

variable {ledger next : TaskLedger} {state after : LedgerState} {call : LedgerCall}

/-- What holds of the ledger between two calls: its ids are different ids of numbers below the
counter, which does not pass the limit. -/
structure TaskLedger.Inv (ledger : TaskLedger) : Prop where
  distinct : (ledger.entries.map (·.task_id)).Nodup
  counted : ∀ entry ∈ ledger.entries, ∃ number < ledger.next_id, formatTaskId number = entry.task_id
  bounded : ledger.next_id ≤ idLimit
  result : ∀ entry ∈ ledger.entries, entry.result_summary ≠ none → entry.status = .succeeded
  error : ∀ entry ∈ ledger.entries, entry.error_message ≠ none → entry.status = .failed

theorem TaskLedger.inv_init : TaskLedger.init.Inv where
  distinct := .nil
  counted _ mem := by cases mem
  bounded := by decide
  result _ mem := by cases mem
  error _ mem := by cases mem

theorem exists_moved {entries moved : List TaskEntry} (moves : List.Forall₂ Moves entries moved)
    {entry : TaskEntry} (mem : entry ∈ entries) : ∃ next ∈ moved, Moves entry next := by
  induction moves with
  | nil => cases mem
  | @cons first next _ _ moves _ ih =>
      rcases List.mem_cons.mp mem with rfl | mem
      · exact ⟨next, List.mem_cons_self, moves⟩
      · rcases ih mem with ⟨kept, mem, moves⟩
        exact ⟨kept, List.mem_cons_of_mem _ mem, moves⟩

theorem exists_of_mem_moved {entries moved : List TaskEntry}
    (moves : List.Forall₂ Moves entries moved) {next : TaskEntry} (mem : next ∈ moved) :
    ∃ entry ∈ entries, Moves entry next := by
  induction moves with
  | nil => cases mem
  | @cons entry first _ _ moves _ ih =>
      rcases List.mem_cons.mp mem with rfl | mem
      · exact ⟨entry, List.mem_cons_self, moves⟩
      · rcases ih mem with ⟨earlier, mem, moves⟩
        exact ⟨earlier, List.mem_cons_of_mem _ mem, moves⟩

theorem Advances.follows (advances : Advances ledger next) :
    ∀ entry ∈ ledger.entries, ∃ kept ∈ next.entries, Follows entry kept := by
  intro entry mem
  cases advances with
  | moved moves =>
      rcases exists_moved moves mem with ⟨kept, mem, moves⟩
      exact ⟨kept, mem, moves.follows⟩
  | entered fits fresh =>
      exact ⟨entry, List.mem_append_left _ mem, (Moves.refl entry).follows⟩

theorem map_task_id_moved {entries moved : List TaskEntry}
    (moves : List.Forall₂ Moves entries moved) :
    moved.map (·.task_id) = entries.map (·.task_id) := by
  induction moves with
  | nil => rfl
  | cons first rest ih => rw [List.map_cons, List.map_cons, first.task_id, ih]

/-- Whatever a call does keeps the invariant. -/
theorem TaskLedger.Inv.advances (inv : ledger.Inv) (advances : Advances ledger next) :
    next.Inv := by
  cases advances with
  | @moved entries moved next_id moves =>
      refine ⟨?_, ?_, inv.bounded, ?_, ?_⟩
      · rw [map_task_id_moved moves]
        exact inv.distinct
      · intro entry mem
        rcases exists_of_mem_moved moves mem with ⟨earlier, mem, moves⟩
        rw [moves.task_id]
        exact inv.counted earlier mem
      · intro entry mem given
        rcases exists_of_mem_moved moves mem with ⟨earlier, mem, moves⟩
        rcases moves.result with same | succeeded
        · have status := inv.result earlier mem (same ▸ given)
          rw [moves.terminal (by rw [status]; rfl), status]
        · exact succeeded
      · intro entry mem given
        rcases exists_of_mem_moved moves mem with ⟨earlier, mem, moves⟩
        rcases moves.error with same | failed
        · have status := inv.error earlier mem (same ▸ given)
          rw [moves.terminal (by rw [status]; rfl), status]
        · exact failed
  | @entered entries next_id number description owner_session now fits fresh =>
      have other : ∀ entry ∈ entries, entry.task_id ≠ formatTaskId number := by
        rcases fresh with rfl | fresh
        · intro entry mem same
          rcases inv.counted entry mem with ⟨earlier, below, shape⟩
          exact Nat.ne_of_lt below (formatTaskId_injective (shape.trans same))
        · exact fresh
      refine ⟨?_, ?_, Nat.max_le.mpr ⟨inv.bounded, fits⟩, ?_, ?_⟩
      · rw [List.map_append, List.map_singleton, List.nodup_append]
        refine ⟨inv.distinct, List.nodup_cons.mpr ⟨List.not_mem_nil, .nil⟩, ?_⟩
        intro task_id mem new newMem same
        rw [List.mem_singleton] at newMem
        rcases List.mem_map.mp mem with ⟨entry, entryMem, rfl⟩
        exact other entry entryMem (same.trans newMem)
      · intro entry mem
        rcases List.mem_append.mp mem with mem | mem
        · rcases inv.counted entry mem with ⟨earlier, below, shape⟩
          exact ⟨earlier, Nat.lt_of_lt_of_le below (Nat.le_max_left ..), shape⟩
        · rw [List.mem_singleton.mp mem]
          exact ⟨number, Nat.le_max_right .., rfl⟩
      · intro entry mem given
        rcases List.mem_append.mp mem with mem | mem
        · exact inv.result entry mem given
        · rw [List.mem_singleton.mp mem] at given
          exact absurd rfl given
      · intro entry mem given
        rcases List.mem_append.mp mem with mem | mem
        · exact inv.error entry mem given
        · rw [List.mem_singleton.mp mem] at given
          exact absurd rfl given

namespace LedgerState

theorem step_eq_some (stepped : step state call = some after) :
    state.panic = none ∧ after.ledger = (state.ledger.perform call).2 ∧
      after.panic = (state.ledger.perform call).1.panic := by
  rw [step] at stepped
  split at stepped
  case h_1 => cases stepped
  case h_2 quiet =>
      cases stepped
      exact ⟨quiet, rfl, rfl⟩

theorem follows_run {calls : List LedgerCall}
    (reached : Machine.run step state calls = some after) :
    ∀ entry ∈ state.ledger.entries, ∃ kept ∈ after.ledger.entries, Follows entry kept := by
  induction calls generalizing state with
  | nil =>
      cases reached
      exact fun entry mem => ⟨entry, mem, (Moves.refl entry).follows⟩
  | cons call rest ih =>
      rw [Machine.run_cons, Option.bind_eq_some_iff] at reached
      rcases reached with ⟨next, stepped, reached⟩
      rcases step_eq_some stepped with ⟨-, ledger, -⟩
      intro entry mem
      have proper : Proper state.ledger _ (state.ledger.perform call) := perform_proper
      rcases proper.advances.follows entry mem with ⟨kept, mem, follows⟩
      rcases ih reached kept (ledger ▸ mem) with ⟨latest, mem, later⟩
      exact ⟨latest, mem, follows.trans later⟩

/-- What holds between two calls. -/
structure Inv (state : LedgerState) : Prop where
  ledger : state.ledger.Inv
  formats : state.panic ≠ some .unreachable

theorem Inv.step (inv : state.Inv) (fits : IdFits state call)
    (stepped : LedgerState.step state call = some after) : after.Inv := by
  rcases step_eq_some stepped with ⟨quiet, ledger, panic⟩
  have proper : Proper state.ledger _ (state.ledger.perform call) := perform_proper
  refine ⟨ledger ▸ inv.ledger.advances proper.advances, ?_⟩
  rw [panic]
  exact proper.formats fits

theorem Inv.safe (inv : state.Inv) : LedgerSafe state where
  distinct := inv.ledger.distinct
  final _ _ reached := follows_run reached
  result := inv.ledger.result
  error := inv.ledger.error
  unchanged _ _ := perform_proper.unchanged _
  formats := inv.formats

/-- In every run that enters no task under a counted id beyond the limit, the ledger keeps its
promises. -/
theorem ledger_safe_of_idFits {calls : List LedgerCall} {final : LedgerState}
    (meets : Machine.Meets step IdFits init calls)
    (reached : Machine.run step init calls = some final) : LedgerSafe final :=
  Inv.safe (Machine.run_invariant_of_meets (fun _ _ _ inv fits stepped => inv.step fits stepped)
    ⟨TaskLedger.inv_init, fun panicked => by cases panicked⟩ meets reached)

/-- A caller takes the largest id that the ledger accepts, and a counted one is asked for. -/
def lastIdTaken : List LedgerCall :=
  [.createTaskWithNumericId (ascii "bridged") (ascii "agent") 0xFFFFFFFFFFF ⟨0, true⟩,
    .createTask (ascii "counted") (ascii "agent") ⟨0, true⟩]

/-- A counted entry and a bridged one, of which one succeeds and one is lost. -/
def twoTasks : List LedgerCall :=
  [.createTask (ascii "counted") (ascii "agent") ⟨0, true⟩,
    .createTaskWithNumericId (ascii "bridged") (ascii "agent") 0xFFFFFFFFFFE ⟨0, true⟩,
    .markRunning (ascii "task_00000000001") ⟨0, true⟩,
    .markSucceeded (ascii "task_00000000001") (some (ascii "done")) ⟨1, true⟩,
    .markRunning (ascii "task_ffffffffffe") ⟨2, true⟩,
    .sweepLost 300003,
    .markFailed (ascii "task_ffffffffffe") none ⟨300004, true⟩]

/-- A ledger with both entries keeps its promises. -/
theorem ledger_safe_twoTasks :
    ∃ final, Machine.run step init twoTasks = some final ∧ LedgerSafe final ∧
      final.ledger.entries.map (·.status) = [.succeeded, .lost] := by
  have statuses : (Machine.run step init twoTasks).map
      (fun final => final.ledger.entries.map (·.status)) = some [.succeeded, .lost] := by
    decide
  rcases Option.map_eq_some_iff.mp statuses with ⟨final, reached, shape⟩
  refine ⟨final, reached, ledger_safe_of_idFits ?_ reached, shape⟩
  have fits : init.ledger.next_id < idLimit := by decide
  refine .cons (fun _ _ => fits) rfl (.cons trivial rfl (.cons trivial rfl (.cons trivial rfl
    (.cons trivial rfl (.cons trivial rfl (.cons trivial rfl trivial))))))

/-- The ledger does not keep its promises in every run: with the largest id taken, the next
counted id does not fit in its buffer. -/
theorem not_ledger_safe :
    ¬ ∀ calls final, Machine.run step init calls = some final → LedgerSafe final := by
  intro safe
  have panics : (Machine.run step init lastIdTaken).map (·.panic) = some (some .unreachable) := by
    decide
  rcases Option.map_eq_some_iff.mp panics with ⟨final, reached, panic⟩
  exact (safe lastIdTaken final reached).formats panic

end LedgerState

end Nullalis.Tasks
