import Nullalis.Subagent.FileLedger

/-!
# Recovery from the ledger file

A line is read as the task that it was written for, if its texts are UTF-8. The recovery replays
the lines, so that the last one of each task counts, and it fails at the first line that is not
read. All texts of a task are UTF-8 if its parts are, except for its summary, which may be cut
within a character.
-/

namespace Nullalis.Subagent

open JsonUtil (ReadsField appendJsonKey)
open Session (deriveTaskRuntimeSessionKey)

variable {task_id : ℕ} {state : DurableTask}

/-!
## Lines
-/

@[simp]
theorem parseTaskStatus_taskStatusText (status : TaskStatus) :
    parseTaskStatus (taskStatusText status) = status := by
  cases status <;> rfl

theorem valid_taskStatusText (status : TaskStatus) :
    Utf8.valid (taskStatusText status) = true := by
  cases status <;> decide

def optionalText (value : Option Bytes) : Json :=
  value.elim .null .string

def optionalInt (value : Option ℤ) : Json :=
  value.elim .null fun value => .number (Bytes.decimalInt value)

/-- What a line denotes. -/
def ledgerMembers (task_id : ℕ) (state : DurableTask) : List (Bytes × Json) :=
  [(ascii "id", .number (Bytes.decimalInt task_id)),
    (ascii "status", .string (taskStatusText state.status)),
    (ascii "label", .string state.label),
    (ascii "task_summary", .string state.task_summary),
    (ascii "task_prompt", .string state.task_prompt),
    (ascii "session_key", optionalText (state.runtime_session_key.or state.session_key)),
    (ascii "request_session_key", optionalText state.session_key),
    (ascii "runtime_session_key", optionalText state.runtime_session_key),
    (ascii "origin_channel", optionalText state.origin_channel),
    (ascii "origin_chat_id", optionalText state.origin_chat_id),
    (ascii "result", optionalText (state.result.map (·.text))),
    (ascii "error", optionalText state.error_msg),
    (ascii "started_at", .number (Bytes.decimalInt state.started_at)),
    (ascii "completed_at", optionalInt state.completed_at)]

theorem nodup_ledgerMembers (task_id : ℕ) (state : DurableTask) :
    ((ledgerMembers task_id state).map Prod.fst).Nodup := by
  have names : (ledgerMembers task_id state).map Prod.fst =
      ["id", "status", "label", "task_summary", "task_prompt", "session_key",
        "request_session_key", "runtime_session_key", "origin_channel", "origin_chat_id", "result",
        "error", "started_at", "completed_at"].map ascii := rfl
  rw [names]
  decide

theorem reads_appendOptionalJsonString (value : Option Bytes) :
    Json.Reads (appendOptionalJsonString value) (optionalText value) := by
  cases value with
  | none => exact .null
  | some text => exact JsonUtil.reads_appendJsonString text

theorem reads_ledgerLine (task_id : ℕ) (state : DurableTask) :
    Json.Reads (ledgerLine task_id state) (.object (ledgerMembers task_id state)) := by
  have optional {key : Bytes} (value : Option Bytes) :
      ReadsField (appendJsonKey key ++ appendOptionalJsonString value) (key, optionalText value) :=
    ⟨_, rfl, reads_appendOptionalJsonString value⟩
  have number : Json.Reads (Bytes.decimal task_id) (.number (Bytes.decimalInt task_id)) := by
    have same : Bytes.decimal task_id = Bytes.decimalInt task_id := by simp [Bytes.decimalInt]
    rw [same]
    exact .int _
  have completed : Json.Reads (state.completed_at.elim (ascii "null") Bytes.decimalInt)
      (optionalInt state.completed_at) := by
    cases state.completed_at with
    | none => exact .null
    | some value => exact .int value
  have fields : List.Forall₂ ReadsField (ledgerFields task_id state)
      (ledgerMembers task_id state) :=
    .cons ⟨_, rfl, number⟩ <| .cons (JsonUtil.readsField_keyValue _ _) <|
      .cons (JsonUtil.readsField_keyValue _ _) <| .cons (JsonUtil.readsField_keyValue _ _) <|
      .cons (JsonUtil.readsField_keyValue _ _) <| .cons (optional _) <| .cons (optional _) <|
      .cons (optional _) <| .cons (optional _) <| .cons (optional _) <| .cons (optional _) <|
      .cons (optional _) <| .cons (JsonUtil.readsField_int _ _) <| .cons ⟨_, rfl, completed⟩ .nil
  exact JsonUtil.reads_appendJsonFields fields (List.cons_ne_nil _ _) (nodup_ledgerMembers _ _)

/-- The texts of a task are UTF-8. -/
structure DurableTask.Printable (state : DurableTask) : Prop where
  label : Utf8.valid state.label = true
  task_summary : Utf8.valid state.task_summary = true
  task_prompt : Utf8.valid state.task_prompt = true
  session_key : state.session_key.all Utf8.valid = true
  runtime_session_key : state.runtime_session_key.all Utf8.valid = true
  origin_channel : state.origin_channel.all Utf8.valid = true
  origin_chat_id : state.origin_chat_id.all Utf8.valid = true
  result : (state.result.map (·.text)).all Utf8.valid = true
  error_msg : state.error_msg.all Utf8.valid = true

theorem valid_appendOptionalJsonString (value : Option Bytes) :
    Utf8.valid (appendOptionalJsonString value) = value.all Utf8.valid := by
  cases value with
  | none => decide
  | some text =>
      have whole := JsonUtil.valid_appendJsonString text []
      rwa [List.append_nil, Utf8.valid_nil, Bool.and_true] at whole

theorem valid_ledgerLine (task_id : ℕ) (state : DurableTask) :
    Utf8.valid (ledgerLine task_id state) = true ↔ state.Printable := by
  have number : Utf8.valid (Bytes.decimal task_id) = true := by
    have same : Bytes.decimal task_id = Bytes.decimalInt task_id := by simp [Bytes.decimalInt]
    rw [same]
    exact JsonUtil.valid_decimalInt _
  have completed : Utf8.valid (state.completed_at.elim (ascii "null") Bytes.decimalInt) = true := by
    cases state.completed_at with
    | none => decide
    | some value => exact JsonUtil.valid_decimalInt value
  simp (disch := decide) only [ledgerLine, JsonUtil.valid_appendJsonFields, ledgerFields,
    List.all_cons, List.all_nil, JsonUtil.valid_appendJsonKeyValue, JsonUtil.appendJsonInt,
    JsonUtil.valid_appendJsonKey, valid_appendOptionalJsonString, JsonUtil.valid_decimalInt, number,
    completed, valid_taskStatusText, Bool.true_and, Bool.and_true, Bool.and_eq_true]
  constructor
  · intro valid
    rcases valid with ⟨label, summary, prompt, _, session, runtime, channel, chat, result, error⟩
    exact ⟨label, summary, prompt, session, runtime, channel, chat, result, error⟩
  · intro printable
    rcases printable with ⟨label, summary, prompt, session, runtime, channel, chat, result, error⟩
    refine ⟨label, summary, prompt, ?_, session, runtime, channel, chat, result, error⟩
    cases present : state.runtime_session_key with
    | none => exact session
    | some key =>
        rw [present] at runtime
        exact runtime

/-- What holds of every task of the manager: its numbers fit and it has its session keys. -/
structure DurableTask.Sound (task_id : ℕ) (state : DurableTask) : Prop where
  id : task_id < 2 ^ 63
  started_at : -2 ^ 63 ≤ state.started_at ∧ state.started_at ≤ 2 ^ 63 - 1
  session_key : state.session_key.isSome = true
  runtime_session_key : state.runtime_session_key.isSome = true

/-- What a line says. -/
def snapshotOf (task_id : ℕ) (state : DurableTask) : LedgerSnapshot where
  id := task_id
  status := state.status
  label := state.label
  task_summary := state.task_summary
  task_prompt := state.task_prompt
  session_key := state.session_key
  runtime_session_key := state.runtime_session_key
  origin_channel := state.origin_channel
  origin_chat_id := state.origin_chat_id
  result := state.result.map (·.text)
  error_msg := state.error_msg
  started_at := state.started_at
  completed_at := (optionalInt state.completed_at).integer?

section Fields

variable {obj : List (Bytes × Json)} {key : Bytes}

theorem objectString_of_get? {value : Option Bytes}
    (found : Json.get? obj key = some (optionalText value)) : objectString obj key = value := by
  rw [objectString, found]
  cases value <;> rfl

theorem objectInteger_of_get? {value : ℤ} (fits : -2 ^ 63 ≤ value ∧ value ≤ 2 ^ 63 - 1)
    (found : Json.get? obj key = some (.number (Bytes.decimalInt value))) :
    objectInteger obj key = some value := by
  rw [objectInteger, found]
  exact Json.integer?_decimalInt fits.1 fits.2

end Fields

/-- A line is read as what it says if its texts are UTF-8. -/
theorem parseLedgerSnapshot_ledgerLine (sound : state.Sound task_id)
    (printable : state.Printable) :
    parseLedgerSnapshot (ledgerLine task_id state) = some (snapshotOf task_id state) := by
  have blank : ([] : Bytes).all Json.isBlank = true := rfl
  have valid := (valid_ledgerLine task_id state).mpr printable
  have parsed : Json.parse (ledgerLine task_id state) =
      some (.object (ledgerMembers task_id state)) := by
    have reads := Json.parse_of_reads (reads_ledgerLine task_id state) blank
    simpa [valid] using reads
  have small := sound.id
  have id : objectInteger (ledgerMembers task_id state) (ascii "id") = some (task_id : ℤ) :=
    objectInteger_of_get? ⟨by omega, by omega⟩ rfl
  have started_at : objectInteger (ledgerMembers task_id state) (ascii "started_at") =
      some state.started_at := objectInteger_of_get? sound.started_at rfl
  have text {name : Bytes} {value : Option Bytes}
      (found : Json.get? (ledgerMembers task_id state) name = some (optionalText value)) :
      objectString (ledgerMembers task_id state) name = value := objectString_of_get? found
  have label : objectString (ledgerMembers task_id state) (ascii "label") = some state.label := rfl
  have task_summary : objectString (ledgerMembers task_id state) (ascii "task_summary") =
      some state.task_summary := rfl
  have task_prompt : objectString (ledgerMembers task_id state) (ascii "task_prompt") =
      some state.task_prompt := rfl
  have status : objectString (ledgerMembers task_id state) (ascii "status") =
      some (taskStatusText state.status) := rfl
  have request : objectString (ledgerMembers task_id state) (ascii "request_session_key") =
      state.session_key := text rfl
  have runtime : objectString (ledgerMembers task_id state) (ascii "runtime_session_key") =
      state.runtime_session_key := text rfl
  have origin_channel : objectString (ledgerMembers task_id state) (ascii "origin_channel") =
      state.origin_channel := text rfl
  have origin_chat_id : objectString (ledgerMembers task_id state) (ascii "origin_chat_id") =
      state.origin_chat_id := text rfl
  have result : objectString (ledgerMembers task_id state) (ascii "result") =
      state.result.map (·.text) := text rfl
  have error_msg : objectString (ledgerMembers task_id state) (ascii "error") =
      state.error_msg := text rfl
  have completed_at : objectInteger (ledgerMembers task_id state) (ascii "completed_at") =
      (optionalInt state.completed_at).integer? := rfl
  rcases Option.isSome_iff_exists.mp sound.session_key with ⟨session, keyed⟩
  rcases Option.isSome_iff_exists.mp sound.runtime_session_key with ⟨derived, keyed'⟩
  have nonnegative : ¬(task_id : ℤ) < 0 := by omega
  simp only [parseLedgerSnapshot, parsed, id, label, task_summary, task_prompt, status, started_at,
    request, runtime, origin_channel, origin_chat_id, result, error_msg, completed_at, keyed, keyed',
    if_neg nonnegative, Option.getD_some, Option.some_or, Int.toNat_natCast, snapshotOf,
    parseTaskStatus_taskStatusText, Option.bind_eq_bind, Option.bind_some, Option.pure_def]

theorem parseLedgerSnapshot_of_not_printable (unprintable : ¬state.Printable) :
    parseLedgerSnapshot (ledgerLine task_id state) = none := by
  have invalid : Utf8.valid (ledgerLine task_id state) = false := by
    rw [← Bool.not_eq_true]
    exact fun valid => unprintable ((valid_ledgerLine task_id state).mp valid)
  rw [parseLedgerSnapshot, Json.parse_of_not_valid invalid]

/-!
## Ledgers
-/

def ledgerFile (persisted : List (ℕ × DurableTask)) : Bytes :=
  persisted.flatMap fun entry => ledgerLine entry.1 entry.2 ++ ascii "\n"

theorem newline_not_mem_ledgerLine (task_id : ℕ) (state : DurableTask) :
    byte '\n' ∉ ledgerLine task_id state := by
  have field {key value : Bytes} (line : byte '\n' ∉ value) :
      byte '\n' ∉ appendJsonKey key ++ value := by
    simp only [appendJsonKey, List.mem_append, not_or]
    exact ⟨⟨JsonUtil.newline_not_mem_appendJsonString key, by decide⟩, line⟩
  have number (value : ℤ) : byte '\n' ∉ Bytes.decimalInt value :=
    Bytes.not_mem_decimalInt (by decide) (by decide)
  have id : byte '\n' ∉ Bytes.decimal task_id := by
    have same : Bytes.decimal task_id = Bytes.decimalInt task_id := by simp [Bytes.decimalInt]
    exact same ▸ number task_id
  have text (value : Bytes) := JsonUtil.newline_not_mem_appendJsonString value
  have optional (value : Option Bytes) : byte '\n' ∉ appendOptionalJsonString value := by
    cases value with
    | none => decide
    | some value => exact text value
  have completed :
      byte '\n' ∉ state.completed_at.elim (ascii "null") Bytes.decimalInt := by
    cases state.completed_at with
    | none => decide
    | some value => exact number value
  apply JsonUtil.newline_not_mem_appendJsonFields
  simp only [ledgerFields, List.forall_mem_cons, JsonUtil.appendJsonKeyValue,
    JsonUtil.appendJsonInt]
  exact ⟨field id, field (text _), field (text _), field (text _), field (text _),
    field (optional _), field (optional _), field (optional _), field (optional _),
    field (optional _), field (optional _), field (optional _), field (number _),
    field completed, fun _ mem => by cases mem⟩

theorem trim_ledgerLine (task_id : ℕ) (state : DurableTask) :
    Bytes.trim (ascii " \t\r\n") (ledgerLine task_id state) = ledgerLine task_id state := by
  have shape : ledgerLine task_id state = byte '\x7b' ::
      (List.intercalate (ascii ",") (ledgerFields task_id state) ++ [byte '\x7d']) := rfl
  rw [shape]
  exact Bytes.trim_of_ends rfl rfl

theorem splitScalar_ledgerFile (persisted : List (ℕ × DurableTask)) :
    Bytes.splitScalar (byte '\n') (ledgerFile persisted) =
      (persisted.map fun entry => ledgerLine entry.1 entry.2) ++ [[]] := by
  induction persisted with
  | nil => rfl
  | cons entry rest ih =>
      have shape : ledgerFile (entry :: rest) =
          ledgerLine entry.1 entry.2 ++ byte '\n' :: ledgerFile rest := by
        rw [ledgerFile, List.flatMap_cons, List.append_assoc]
        rfl
      rw [shape, Bytes.splitScalar_append (newline_not_mem_ledgerLine _ _), ih]
      rfl

/-- The task that is recovered from the line of a task. -/
def recoveredTask (task_id : ℕ) (state : DurableTask) : DurableTask :=
  taskStateFromLedger (snapshotOf task_id state)

theorem recoverLines_ledgerLine {recovery : Recovery} {rest : List Bytes}
    (sound : state.Sound task_id) :
    (state.Printable ∧ recoverLines recovery (ledgerLine task_id state :: rest) =
      recoverLines
        { recovery with
          tasks := Function.update recovery.tasks task_id (some (recoveredTask task_id state))
          max_id := max recovery.max_id task_id } rest) ∨
    (¬state.Printable ∧ recoverLines recovery (ledgerLine task_id state :: rest) =
      { recovery with complete := false }) := by
  have filled : (ledgerLine task_id state).length ≠ 0 := by
    simp [ledgerLine, JsonUtil.appendJsonFields, ascii]
  by_cases printable : state.Printable
  · refine Or.inl ⟨printable, ?_⟩
    rw [recoverLines]
    simp only [trim_ledgerLine, if_neg filled, parseLedgerSnapshot_ledgerLine sound printable]
    rfl
  · refine Or.inr ⟨printable, ?_⟩
    rw [recoverLines]
    simp only [trim_ledgerLine, if_neg filled, parseLedgerSnapshot_of_not_printable printable]

theorem complete_recoverLines {persisted : List (ℕ × DurableTask)} {recovery : Recovery}
    (sound : ∀ entry ∈ persisted, entry.2.Sound entry.1) :
    (recoverLines recovery
      ((persisted.map fun entry => ledgerLine entry.1 entry.2) ++ [[]])).complete = true ↔
        recovery.complete = true ∧ ∀ entry ∈ persisted, entry.2.Printable := by
  induction persisted generalizing recovery with
  | nil => simp [recoverLines, Bytes.trim]
  | cons entry rest ih =>
      have later := fun other mem => sound other (List.mem_cons_of_mem _ mem)
      rw [List.map_cons, List.cons_append, List.forall_mem_cons]
      rcases recoverLines_ledgerLine (sound entry List.mem_cons_self) with
        ⟨printable, replayed⟩ | ⟨unprintable, ended⟩
      · rw [replayed, ih later]
        simp [printable]
      · rw [ended]
        simp [unprintable]

/-- The tasks after all lines were replayed. -/
def replay (tasks : ℕ → Option DurableTask) (persisted : List (ℕ × DurableTask)) :
    ℕ → Option DurableTask :=
  persisted.foldl (fun tasks entry =>
    Function.update tasks entry.1 (some (recoveredTask entry.1 entry.2))) tasks

theorem recoverLines_ledger {persisted : List (ℕ × DurableTask)} {recovery : Recovery}
    (sound : ∀ entry ∈ persisted, entry.2.Sound entry.1)
    (printable : ∀ entry ∈ persisted, entry.2.Printable) :
    recoverLines recovery ((persisted.map fun entry => ledgerLine entry.1 entry.2) ++ [[]]) =
      { recovery with
        tasks := replay recovery.tasks persisted
        max_id := persisted.foldl (fun max_id entry => max max_id entry.1) recovery.max_id } := by
  induction persisted generalizing recovery with
  | nil => simp [recoverLines, Bytes.trim, replay]
  | cons entry rest ih =>
      have later := fun other mem => sound other (List.mem_cons_of_mem _ mem)
      have laterPrintable := fun other mem => printable other (List.mem_cons_of_mem _ mem)
      rw [List.map_cons, List.cons_append]
      rcases recoverLines_ledgerLine (sound entry List.mem_cons_self) with
        ⟨_, replayed⟩ | ⟨unprintable, _⟩
      · rw [replayed, ih later laterPrintable]
        rfl
      · exact absurd (printable entry List.mem_cons_self) unprintable

def lastPersisted (persisted : List (ℕ × DurableTask)) (task_id : ℕ) : Option DurableTask :=
  persisted.reverse.lookup task_id

theorem mem_of_lastPersisted {persisted : List (ℕ × DurableTask)}
    (last : lastPersisted persisted task_id = some state) : (task_id, state) ∈ persisted := by
  rw [lastPersisted, List.lookup_eq_some_iff] at last
  rcases last with ⟨before, behind, shape, _⟩
  rw [← List.mem_reverse, shape]
  exact List.mem_append_right _ List.mem_cons_self

theorem replay_eq (persisted : List (ℕ × DurableTask)) (tasks : ℕ → Option DurableTask)
    (task_id : ℕ) :
    replay tasks persisted task_id =
      ((lastPersisted persisted task_id).map (recoveredTask task_id)).or (tasks task_id) := by
  induction persisted generalizing tasks with
  | nil => simp [replay, lastPersisted]
  | cons entry rest ih =>
      have first : replay tasks (entry :: rest) =
          replay (Function.update tasks entry.1 (some (recoveredTask entry.1 entry.2))) rest := rfl
      rw [first, ih, lastPersisted, lastPersisted, List.reverse_cons, List.lookup_append]
      cases later : rest.reverse.lookup task_id with
      | some state => rfl
      | none =>
          have single : [entry].lookup task_id =
              if task_id == entry.1 then some entry.2 else none := by
            rw [List.lookup_eq_findSome?, List.findSome?_singleton]
          by_cases same : task_id = entry.1
          · subst same
            simp [single]
          · have other : (task_id == entry.1) = false := by simpa using same
            simp [single, other, Function.update_of_ne same]

theorem le_foldl_max (persisted : List (ℕ × DurableTask)) (start : ℕ) :
    start ≤ persisted.foldl (fun max_id entry => max max_id entry.1) start ∧
      ∀ entry ∈ persisted,
        entry.1 ≤ persisted.foldl (fun max_id entry => max max_id entry.1) start := by
  induction persisted generalizing start with
  | nil => simp
  | cons entry rest ih =>
      have later := ih (max start entry.1)
      rw [List.foldl_cons, List.forall_mem_cons]
      exact ⟨by omega, by omega, later.2⟩

/-!
## Recovered tasks
-/

/-- The task is recovered as it was written. It has failed if it had not ended. -/
structure RecoveredAs (state recovered : DurableTask) : Prop where
  label : recovered.label = state.label
  task_summary : recovered.task_summary = state.task_summary
  task_prompt : recovered.task_prompt = state.task_prompt
  session_key : recovered.session_key = state.session_key
  runtime_session_key : recovered.runtime_session_key = state.runtime_session_key
  origin_channel : recovered.origin_channel = state.origin_channel
  origin_chat_id : recovered.origin_chat_id = state.origin_chat_id
  result : recovered.result.map (·.text) = state.result.map (·.text)
  status : recovered.status = if state.active then .failed else state.status
  error_msg : recovered.error_msg =
    if state.active then some RECOVERY_FAILURE_REASON else state.error_msg

/-- A manager that starts on the ledger has every task that was written, as its last line has it,
and its next number is a new one. -/
def Recovers (system : FileLedgerSystem) (recovered_at : ℤ) : Prop :=
  let recovery := recoverFromFile system.file
  recovery.complete = true ∧
    (∀ task_id state, lastPersisted system.persisted task_id = some state →
      ∃ recovered, recovery.finalTasks recovered_at task_id = some recovered ∧
        RecoveredAs state recovered) ∧
    ∀ task_id, (recovery.finalTasks recovered_at task_id).isSome = true →
      task_id < recovery.nextId

theorem recoveredTask_runtime (keyed : state.runtime_session_key.isSome = true) :
    (recoveredTask task_id state).runtime_session_key = state.runtime_session_key := by
  change state.runtime_session_key.or _ = _
  rw [Option.or_of_isSome keyed]

theorem recoveredTask_result :
    (recoveredTask task_id state).result.map (·.text) = state.result.map (·.text) := by
  change ((state.result.map (·.text)).map (subagentResultFromText state.status)).map (·.text) = _
  cases state.result <;> rfl

theorem recoveredAs_finalizeRecovered (sound : state.Sound task_id) (recovered_at : ℤ) :
    RecoveredAs state (finalizeRecovered recovered_at (recoveredTask task_id state)) := by
  have active : (recoveredTask task_id state).active = state.active := rfl
  have runtime := @recoveredTask_runtime task_id _ sound.runtime_session_key
  by_cases ended : state.active = true
  · constructor <;> simp only [finalizeRecovered, SubagentManager.givenUp, active, ended, if_true]
      <;> first | exact runtime | exact recoveredTask_result | rfl
  · constructor <;> simp only [finalizeRecovered, SubagentManager.givenUp, active, ended]
      <;> first | exact runtime | exact recoveredTask_result | rfl

theorem recovers_iff {system : FileLedgerSystem} {recovered_at : ℤ}
    (file : system.file = ledgerFile system.persisted)
    (fits : system.file.length ≤ LEDGER_READ_LIMIT)
    (sound : ∀ entry ∈ system.persisted, entry.2.Sound entry.1) :
    Recovers system recovered_at ↔ ∀ entry ∈ system.persisted, entry.2.Printable := by
  have read : recoverFromFile system.file =
      recoverLines { complete := true, tasks := fun _ => none, max_id := 0 }
        ((system.persisted.map fun entry => ledgerLine entry.1 entry.2) ++ [[]]) := by
    have short : ¬LEDGER_READ_LIMIT < system.file.length := by omega
    simp only [recoverFromFile, if_neg short]
    rw [file, splitScalar_ledgerFile]
  simp only [Recovers, read]
  constructor
  · intro recovers
    exact ((complete_recoverLines sound).mp recovers.1).2
  · intro printable
    rw [recoverLines_ledger sound printable]
    simp only [Recovery.finalTasks, Recovery.nextId, if_true, replay_eq, Option.or_none]
    refine ⟨trivial, ?_, ?_⟩
    · intro task_id state last
      have written : (task_id, state) ∈ system.persisted :=
        mem_of_lastPersisted last
      refine ⟨_, by rw [last]; rfl, recoveredAs_finalizeRecovered (sound _ written) recovered_at⟩
    · intro task_id present
      rw [Option.isSome_map, Option.isSome_map] at present
      rcases Option.isSome_iff_exists.mp present with ⟨state, last⟩
      have written : (task_id, state) ∈ system.persisted :=
        mem_of_lastPersisted last
      exact Nat.lt_succ_of_le ((le_foldl_max system.persisted 0).2 _ written)

/-!
## Runs
-/

/-- What is known of every task of the manager and of the ledger, which has so many lines: it was
numbered when it was spawned, and the texts that the manager is given are UTF-8. -/
structure DurableTask.Known (count task_id : ℕ) (state : DurableTask) : Prop where
  id : task_id ≤ count
  started_at : -2 ^ 63 ≤ state.started_at ∧ state.started_at ≤ 2 ^ 63 - 1
  session_key : state.session_key.isSome = true
  runtime_session_key : state.runtime_session_key.isSome = true
  label : Utf8.valid state.label = true
  task_prompt : Utf8.valid state.task_prompt = true
  keys : state.session_key.all Utf8.valid = true ∧
    state.runtime_session_key.all Utf8.valid = true
  result : (state.result.map (·.text)).all Utf8.valid = true

/-- The texts that a task is given by others are UTF-8. -/
structure DurableTask.Whole (state : DurableTask) : Prop where
  task_summary : Utf8.valid state.task_summary = true
  origin_channel : state.origin_channel.all Utf8.valid = true
  origin_chat_id : state.origin_chat_id.all Utf8.valid = true
  error_msg : state.error_msg.all Utf8.valid = true

variable {count : ℕ}

theorem DurableTask.Known.mono {more : ℕ} (known : state.Known count task_id)
    (le : count ≤ more) : state.Known more task_id :=
  { known with id := Nat.le_trans known.id le }

theorem DurableTask.Known.sound (known : state.Known count task_id) (small : count < 2 ^ 63) :
    state.Sound task_id where
  id := Nat.lt_of_le_of_lt known.id small
  started_at := known.started_at
  session_key := known.session_key
  runtime_session_key := known.runtime_session_key

theorem DurableTask.Known.printable_iff (known : state.Known count task_id) :
    state.Printable ↔ state.Whole := by
  constructor
  · intro printable
    exact ⟨printable.task_summary, printable.origin_channel, printable.origin_chat_id,
      printable.error_msg⟩
  · intro whole
    exact ⟨known.label, whole.task_summary, known.task_prompt, known.keys.1, known.keys.2,
      whole.origin_channel, whole.origin_chat_id, known.result, whole.error_msg⟩

theorem length_le_ledgerFile (persisted : List (ℕ × DurableTask)) :
    persisted.length ≤ (ledgerFile persisted).length := by
  induction persisted with
  | nil => exact Nat.le_refl 0
  | cons entry rest ih =>
      have newline : (ascii "\n").length = 1 := rfl
      simp only [ledgerFile, List.flatMap_cons, List.length_append, List.length_cons, newline]
        at ih ⊢
      omega

theorem valid_parseUserIdFromSessionKey {session_key user_id : Bytes}
    (valid : Utf8.valid session_key = true)
    (named : Session.parseUserIdFromSessionKey session_key = some user_id) :
    Utf8.valid user_id = true := by
  rw [Session.parseUserIdFromSessionKey] at named
  split at named
  case isFalse => cases named
  case isTrue starts =>
    rcases List.isPrefixOf_iff_prefix.mp starts with ⟨rest, rfl⟩
    rw [Utf8.valid_append (by decide)] at valid
    simp only [List.drop_left] at named
    cases found : Bytes.indexOfScalar (byte ':') rest with
    | none => simp [found] at named
    | some suffix_idx =>
        simp only [found] at named
        split at named
        · cases named
        · rw [Bytes.eq_append_of_indexOfScalar found, Utf8.valid_append_cons rfl,
            Bool.and_eq_true] at valid
          rw [← Option.some.inj named]
          exact valid.1

theorem valid_deriveTaskRuntimeSessionKey {task_id : ℕ} {session_key : Bytes}
    (valid : Utf8.valid session_key = true) :
    Utf8.valid (deriveTaskRuntimeSessionKey 128 session_key task_id) = true := by
  have number : Utf8.valid (Bytes.decimal task_id) = true := by
    have same : Bytes.decimal task_id = Bytes.decimalInt task_id := by simp [Bytes.decimalInt]
    rw [same]
    exact JsonUtil.valid_decimalInt _
  have printed {size : ℕ} {text other : Bytes} (valid : Utf8.valid text = true)
      (valid' : Utf8.valid other = true) :
      Utf8.valid ((Session.bufPrint size text).getD other) = true := by
    rw [Session.bufPrint]
    split
    · exact valid
    · exact valid'
  rw [deriveTaskRuntimeSessionKey]
  split
  · refine printed ?_ (by decide)
    rw [Utf8.valid_append (by decide)]
    exact number
  · rename_i user_id named
    have user : Utf8.valid user_id = true := valid_parseUserIdFromSessionKey valid named
    refine printed ?_ (by decide)
    have shape (lane_id : Bytes) :
        Session.PREFIX ++ user_id ++ ascii ":" ++ Session.SessionLane.task.toSlice ++ ascii ":" ++
          lane_id = Session.PREFIX ++ (user_id ++ byte ':' :: (ascii "task:" ++ lane_id)) := by
      simp only [List.append_assoc]
      rfl
    rw [shape, Utf8.valid_append (by decide), Utf8.valid_append_cons rfl, user,
      Utf8.valid_append (by decide)]
    exact printed number (by decide)

/-- The texts that a step is given are UTF-8, and its time is one of 64 bits. -/
def FileLedgerAction.TextsValid : FileLedgerAction → Prop
  | .spawn request _ now _ =>
      Utf8.valid request.task = true ∧ Utf8.valid request.label = true ∧
        Utf8.valid request.request_session_key = true ∧ -2 ^ 63 ≤ now ∧ now ≤ 2 ^ 63 - 1
  | .completeTask _ result _ _ => (result.map (·.text)).all Utf8.valid = true
  | _ => True

/-- The texts that a step adds are UTF-8: the summary of a task is not cut within a character, and
where a task comes from and why it failed is UTF-8. -/
def FileLedgerAction.Whole : FileLedgerAction → Prop
  | .spawn request _ _ start =>
      Utf8.valid (summarizeTaskForDisplay request.task) = true ∧
        Utf8.valid request.origin_channel = true ∧ Utf8.valid request.origin_chat_id = true ∧
        ∀ error_name now, start = .failed error_name now → Utf8.valid error_name = true
  | .completeTask _ _ err_msg surroundings =>
      surroundings.copiesError = true → err_msg.all Utf8.valid = true
  | _ => True

namespace FileLedgerSystem

/-- What is known of the ledger and of the map. -/
structure TasksInv (system : FileLedgerSystem) : Prop where
  file : system.file = ledgerFile system.persisted
  persisted : ∀ entry ∈ system.persisted, entry.2.Known system.persisted.length entry.1
  tasks : ∀ task_id state, system.tasks task_id = some state →
    state.Known system.persisted.length task_id

/-- Every number was used for a line. -/
structure LedgerInv (system : FileLedgerSystem) : Prop extends TasksInv system where
  next : system.next_id ≤ system.persisted.length + 1

variable {system next : FileLedgerSystem}

theorem ledgerInv_init : init.LedgerInv where
  file := rfl
  persisted _ mem := by cases mem
  tasks _ _ found := by cases found
  next := Nat.le_refl 1

theorem TasksInv.persist (inv : system.TasksInv)
    (known : state.Known (system.persisted.length + 1) task_id) :
    (system.persist task_id state).TasksInv := by
  have length : (system.persist task_id state).persisted.length = system.persisted.length + 1 := by
    simp [FileLedgerSystem.persist]
  constructor
  · simp only [FileLedgerSystem.persist, appendLedgerSnapshot, inv.file, ledgerFile,
      List.flatMap_append, List.flatMap_singleton]
  · intro entry mem
    rw [length]
    rcases List.mem_append.mp mem with earlier | last
    · exact (inv.persisted entry earlier).mono (Nat.le_succ _)
    · rw [List.mem_singleton] at last
      exact last ▸ known
  · intro other found present
    rw [length]
    exact (inv.tasks other found present).mono (Nat.le_succ _)

theorem TasksInv.put {entry : Option DurableTask} (inv : system.TasksInv)
    (known : ∀ state, entry = some state → state.Known system.persisted.length task_id) :
    (system.put task_id entry).TasksInv where
  file := inv.file
  persisted := inv.persisted
  tasks other found present := by
    simp only [FileLedgerSystem.put] at present
    by_cases same : other = task_id
    · subst same
      rw [Function.update_self] at present
      exact known found present
    · rw [Function.update_of_ne same] at present
      exact inv.tasks other found present

theorem TasksInv.remove (inv : system.TasksInv) : (system.put task_id none).TasksInv :=
  inv.put fun _ absent => (Option.some_ne_none _ absent.symm).elim

theorem TasksInv.change (inv : system.TasksInv)
    (known : state.Known (system.persisted.length + 1) task_id) :
    (system.change task_id state).TasksInv := by
  have written : (system.persist task_id state).TasksInv := inv.persist known
  refine TasksInv.put written ?_
  intro found same
  have length : (system.persist task_id state).persisted.length = system.persisted.length + 1 := by
    simp [FileLedgerSystem.persist]
  rw [length, ← Option.some.inj same]
  exact known

theorem LedgerInv.change (inv : system.LedgerInv)
    (known : state.Known (system.persisted.length + 1) task_id) :
    (system.change task_id state).LedgerInv where
  toTasksInv := inv.toTasksInv.change known
  next := by
    have bound := inv.next
    simp only [FileLedgerSystem.change, FileLedgerSystem.persist, FileLedgerSystem.put,
      List.length_append, List.length_singleton]
    omega

/-!
### Steps
-/

theorem LedgerInv.spawn {request : SpawnRequest} {batch_id : Option Bytes} {now : ℤ}
    (inv : system.LedgerInv) (start : ThreadStart)
    (valid : (FileLedgerAction.spawn request batch_id now start).TextsValid) :
    (system.spawn request batch_id now start).LedgerInv := by
  rcases valid with ⟨task, label, key, early, late⟩
  have runtime : Utf8.valid
      (deriveTaskRuntimeSessionKey 128 request.request_session_key system.next_id) = true :=
    valid_deriveTaskRuntimeSessionKey key
  have known : (spawned request batch_id now system.next_id).Known
      (system.persisted.length + 1) system.next_id :=
    ⟨inv.next, ⟨early, late⟩, rfl, rfl, label, task, ⟨key, runtime⟩, rfl⟩
  have queued : ({ system with next_id := system.next_id + 1 }.change system.next_id
      (spawned request batch_id now system.next_id)).LedgerInv := by
    constructor
    · exact TasksInv.change ⟨inv.file, inv.persisted, inv.tasks⟩ known
    · have bound := inv.next
      simp only [FileLedgerSystem.change, FileLedgerSystem.persist, FileLedgerSystem.put,
        List.length_append, List.length_singleton]
      omega
  cases start with
  | started => exact queued
  | outOfMemory =>
      exact ⟨queued.toTasksInv.remove, queued.next⟩
  | failed error_name failed_at =>
      have again : ({ spawned request batch_id now system.next_id with
          status := .failed
          error_msg := some error_name
          completed_at := some failed_at } : DurableTask).Known
          (({ system with next_id := system.next_id + 1 }.change system.next_id
            (spawned request batch_id now system.next_id)).persisted.length + 1)
          system.next_id := by
        have more : system.persisted.length + 1 ≤
            ({ system with next_id := system.next_id + 1 }.change system.next_id
              (spawned request batch_id now system.next_id)).persisted.length + 1 := by
          simp [FileLedgerSystem.change, FileLedgerSystem.persist, FileLedgerSystem.put]
        exact { known.mono more with }
      have failed := LedgerInv.change queued again
      exact ⟨failed.toTasksInv.remove, failed.next⟩

theorem known_completed {result : Option SubagentResult} (known : state.Known count task_id)
    (valid : (result.map (·.text)).all Utf8.valid = true) (err_msg : Option Bytes)
    (surroundings : CompletionSurroundings) :
    ({ state with
      toTaskState := SubagentManager.completed state.toTaskState result err_msg
        surroundings } : DurableTask).Known count task_id where
  id := known.id
  started_at := known.started_at
  session_key := known.session_key
  runtime_session_key := known.runtime_session_key
  label := known.label
  task_prompt := known.task_prompt
  keys := known.keys
  result := by
    simp only [SubagentManager.completed]
    cases surroundings.copiesResult
    · rfl
    · exact valid

theorem known_recoveredTask (known : state.Known count task_id) :
    (recoveredTask task_id state).Known count task_id := by
  have runtime := @recoveredTask_runtime task_id _ known.runtime_session_key
  constructor
  · exact known.id
  · exact known.started_at
  · exact known.session_key
  · rw [runtime]
    exact known.runtime_session_key
  · exact known.label
  · exact known.task_prompt
  · rw [runtime]
    exact known.keys
  · rw [recoveredTask_result]
    exact known.result

theorem known_finalizeRecovered (known : state.Known count task_id) (recovered_at : ℤ) :
    (finalizeRecovered recovered_at state).Known count task_id := by
  by_cases active : state.active = true
  · simp only [finalizeRecovered, SubagentManager.givenUp, active, if_true]
    exact { known with }
  · simp only [finalizeRecovered, SubagentManager.givenUp, active]
    exact { known with }

/-- What a recovery has come to stands in the ledger. -/
structure RecoveredFrom (persisted : List (ℕ × DurableTask)) (recovery : Recovery) : Prop where
  tasks : ∀ task_id recovered, recovery.tasks task_id = some recovered →
    ∃ state, (task_id, state) ∈ persisted ∧ recovered = recoveredTask task_id state
  max_id : ∀ bound, (∀ entry ∈ persisted, entry.1 ≤ bound) → recovery.max_id ≤ bound

theorem RecoveredFrom.recoverLines {persisted rest : List (ℕ × DurableTask)} {recovery : Recovery}
    (inv : RecoveredFrom persisted recovery) (written : ∀ entry ∈ rest, entry ∈ persisted)
    (sound : ∀ entry ∈ persisted, entry.2.Sound entry.1) :
    RecoveredFrom persisted (recoverLines recovery
      ((rest.map fun entry => ledgerLine entry.1 entry.2) ++ [[]])) := by
  induction rest generalizing recovery with
  | nil =>
      have same : Subagent.recoverLines recovery [[]] = recovery := by
        simp [Subagent.recoverLines, Bytes.trim]
      rw [List.map_nil, List.nil_append, same]
      exact inv
  | cons entry rest ih =>
      have here := written entry List.mem_cons_self
      rw [List.map_cons, List.cons_append]
      rcases recoverLines_ledgerLine (sound entry here) with ⟨_, replayed⟩ | ⟨_, ended⟩
      · rw [replayed]
        apply ih _ (fun other mem => written other (List.mem_cons_of_mem _ mem))
        constructor
        · intro task_id recovered found
          by_cases same : task_id = entry.1
          · subst same
            simp only [Function.update_self, Option.some.injEq] at found
            exact ⟨entry.2, here, found.symm⟩
          · simp only [Function.update_of_ne same] at found
            exact inv.tasks task_id recovered found
        · intro bound numbers
          exact Nat.max_le.mpr ⟨inv.max_id bound numbers, numbers entry here⟩
      · rw [ended]
        exact ⟨inv.tasks, inv.max_id⟩

theorem recoveredFrom_recoverFromFile (inv : system.TasksInv) :
    RecoveredFrom system.persisted (recoverFromFile system.file) := by
  have empty (complete : Bool) : RecoveredFrom system.persisted
      { complete, tasks := fun _ => none, max_id := 0 } :=
    ⟨fun _ _ found => (Option.some_ne_none _ found.symm).elim, fun _ _ => Nat.zero_le _⟩
  rw [recoverFromFile]
  split
  · exact empty false
  · rename_i fits
    have lines := length_le_ledgerFile system.persisted
    have small : system.persisted.length < 2 ^ 63 := by
      rw [← inv.file] at lines
      simp only [LEDGER_READ_LIMIT] at fits
      omega
    rw [inv.file, splitScalar_ledgerFile]
    exact (empty true).recoverLines (fun _ mem => mem)
      fun entry mem => (inv.persisted entry mem).sound small

theorem RecoveredFrom.finalTasks {persisted : List (ℕ × DurableTask)} {recovery : Recovery}
    {recovered_at : ℤ} (inv : RecoveredFrom persisted recovery) (good : ℕ → DurableTask → Prop)
    (recovers : ∀ task_id state, (task_id, state) ∈ persisted →
      good task_id (recoveredTask task_id state) ∧
        good task_id (finalizeRecovered recovered_at (recoveredTask task_id state))) :
    ∀ task_id state, recovery.finalTasks recovered_at task_id = some state →
      good task_id state := by
  intro task_id state found
  rw [Recovery.finalTasks] at found
  split at found
  · rcases Option.map_eq_some_iff.mp found with ⟨before, present, rfl⟩
    rcases inv.tasks task_id before present with ⟨origin, mem, rfl⟩
    exact (recovers task_id origin mem).2
  · rcases inv.tasks task_id state found with ⟨origin, mem, rfl⟩
    exact (recovers task_id origin mem).1

theorem LedgerInv.foldl_persist {tasks : ℕ → Option DurableTask} (order : List ℕ)
    (inv : system.LedgerInv)
    (known : ∀ task_id state, tasks task_id = some state →
      state.Known system.persisted.length task_id) :
    (order.foldl (persistOf tasks) system).LedgerInv := by
  induction order generalizing system with
  | nil => exact inv
  | cons task_id rest ih =>
      rw [List.foldl_cons, persistOf]
      cases found : tasks task_id with
      | none => exact ih inv known
      | some state =>
          have more : (system.persist task_id state).persisted.length =
              system.persisted.length + 1 := by simp [FileLedgerSystem.persist]
          have bound := inv.next
          refine ih ⟨inv.toTasksInv.persist ((known task_id state found).mono (Nat.le_succ _)),
            ?_⟩ ?_
          · rw [more]
            change system.next_id ≤ _
            omega
          · intro other entry present
            rw [more]
            exact (known other entry present).mono (Nat.le_succ _)

theorem LedgerInv.restart {recovered_at : ℤ} {order : List ℕ} (inv : system.LedgerInv)
    (stepped : system.restart recovered_at order = some next) : next.LedgerInv := by
  have recovered := recoveredFrom_recoverFromFile inv.toTasksInv
  have known : ∀ task_id state,
      (recoverFromFile system.file).finalTasks recovered_at task_id = some state →
        state.Known system.persisted.length task_id := by
    apply recovered.finalTasks fun task_id state => state.Known system.persisted.length task_id
    intro task_id state mem
    have again := known_recoveredTask (inv.persisted _ mem)
    exact ⟨again, known_finalizeRecovered again recovered_at⟩
  have started : ({ system with
      tasks := (recoverFromFile system.file).finalTasks recovered_at
      next_id := (recoverFromFile system.file).nextId } : FileLedgerSystem).LedgerInv := by
    refine ⟨⟨inv.file, inv.persisted, known⟩, ?_⟩
    have bound := recovered.max_id _ fun entry mem => (inv.persisted entry mem).id
    simp only [Recovery.nextId]
    split <;> omega
  simp only [FileLedgerSystem.restart] at stepped
  split at stepped
  · split at stepped
    · rw [← Option.some.inj stepped]
      exact started.foldl_persist order known
    · cases stepped
  · exact Option.some.inj stepped ▸ started

theorem LedgerInv.step {action : FileLedgerAction} (inv : system.LedgerInv)
    (valid : action.TextsValid) (stepped : step system action = some next) : next.LedgerInv := by
  have changed {task_id : ℕ} {before after : DurableTask}
      (present : system.tasks task_id = some before)
      (keeps : before.Known system.persisted.length task_id →
        after.Known system.persisted.length task_id) :
      (system.change task_id after).LedgerInv :=
    inv.change ((keeps (inv.tasks task_id before present)).mono (Nat.le_succ _))
  cases action with
  | spawn request batch_id now start =>
      exact Option.some.inj stepped ▸ inv.spawn start valid
  | markTaskRunning task_id =>
      rcases Option.bind_eq_some_iff.mp stepped with ⟨before, present, stepped⟩
      split at stepped
      · exact Option.some.inj stepped ▸ changed present fun known => { known with }
      · cases stepped
  | completeTask task_id result err_msg surroundings =>
      rcases Option.bind_eq_some_iff.mp stepped with ⟨before, present, stepped⟩
      split at stepped
      · cases stepped
      · exact Option.some.inj stepped ▸
          changed present fun known => known_completed known valid err_msg surroundings
  | cancelQueued task_id now =>
      rcases Option.bind_eq_some_iff.mp stepped with ⟨before, present, stepped⟩
      split at stepped
      · exact Option.some.inj stepped ▸ changed present fun known => { known with }
      · cases stepped
  | restart recovered_at order => exact inv.restart stepped

theorem ledgerInv_of_run {actions : List FileLedgerAction} {start : FileLedgerSystem}
    (inv : start.LedgerInv) (valid : ∀ action ∈ actions, action.TextsValid)
    (reached : Machine.run step start actions = some system) : system.LedgerInv := by
  induction actions generalizing start with
  | nil => exact Option.some.inj reached ▸ inv
  | cons action rest ih =>
      rcases Option.bind_eq_some_iff.mp reached with ⟨middle, stepped, reached⟩
      have later := fun other mem => valid other (List.mem_cons_of_mem _ mem)
      exact ih (inv.step (valid action List.mem_cons_self) stepped) later reached

/-!
### Whole texts
-/

/-- The tasks of the map are whole if those of the ledger are. -/
def WholeInv (system : FileLedgerSystem) : Prop :=
  (∀ entry ∈ system.persisted, entry.2.Whole) →
    ∀ task_id state, system.tasks task_id = some state → state.Whole

/-- The ledger is whole after a step if it was before and the step is. -/
def WholeStep (system next : FileLedgerSystem) (action : FileLedgerAction) : Prop :=
  (∀ entry ∈ next.persisted, entry.2.Whole) ↔
    (∀ entry ∈ system.persisted, entry.2.Whole) ∧ action.Whole

theorem whole_recoveredTask (whole : state.Whole) : (recoveredTask task_id state).Whole :=
  ⟨whole.task_summary, whole.origin_channel, whole.origin_chat_id, whole.error_msg⟩

theorem whole_finalizeRecovered (whole : state.Whole) (recovered_at : ℤ) :
    (finalizeRecovered recovered_at state).Whole := by
  by_cases active : state.active = true
  · simp only [finalizeRecovered, SubagentManager.givenUp, active, if_true]
    have reason : Utf8.valid RECOVERY_FAILURE_REASON = true := by decide
    exact { whole with error_msg := reason }
  · simp only [finalizeRecovered, SubagentManager.givenUp, active]
    exact { whole with }

theorem forall_persisted_change :
    (∀ entry ∈ (system.change task_id state).persisted, entry.2.Whole) ↔
      (∀ entry ∈ system.persisted, entry.2.Whole) ∧ state.Whole := by
  change (∀ entry ∈ system.persisted ++ [(task_id, state)], entry.2.Whole) ↔ _
  simp only [List.forall_mem_append, List.forall_mem_singleton]

theorem WholeInv.put {entry : Option DurableTask} (inv : system.WholeInv)
    (whole : (∀ entry ∈ system.persisted, entry.2.Whole) →
      ∀ state, entry = some state → state.Whole) :
    (system.put task_id entry).WholeInv := by
  intro ledger other found present
  simp only [FileLedgerSystem.put] at ledger present
  by_cases same : other = task_id
  · subst same
    rw [Function.update_self] at present
    exact whole ledger found present
  · rw [Function.update_of_ne same] at present
    exact inv ledger other found present

theorem WholeInv.remove (inv : system.WholeInv) : (system.put task_id none).WholeInv :=
  inv.put fun _ _ absent => (Option.some_ne_none _ absent.symm).elim

theorem WholeInv.change (inv : system.WholeInv) : (system.change task_id state).WholeInv := by
  intro ledger
  have before := forall_persisted_change.1 ledger
  have put : (system.put task_id (some state)).WholeInv :=
    inv.put fun _ found same => Option.some.inj same ▸ before.2
  exact put before.1

theorem wholeStep_spawn {request : SpawnRequest} {batch_id : Option Bytes} {now : ℤ}
    (inv : system.WholeInv) (start : ThreadStart) :
    (system.spawn request batch_id now start).WholeInv ∧
      WholeStep system (system.spawn request batch_id now start)
        (.spawn request batch_id now start) := by
  have whole : (spawned request batch_id now system.next_id).Whole ↔
      Utf8.valid (summarizeTaskForDisplay request.task) = true ∧
        Utf8.valid request.origin_channel = true ∧ Utf8.valid request.origin_chat_id = true := by
    constructor
    · intro whole
      exact ⟨whole.task_summary, whole.origin_channel, whole.origin_chat_id⟩
    · intro texts
      exact ⟨texts.1, texts.2.1, texts.2.2, rfl⟩
  have counted : ({ system with next_id := system.next_id + 1 } : FileLedgerSystem).WholeInv := inv
  cases start with
  | started =>
      refine ⟨counted.change, .trans forall_persisted_change ?_⟩
      rw [whole]
      simp [FileLedgerAction.Whole]
  | outOfMemory =>
      refine ⟨counted.change.remove,
        .trans forall_persisted_change ?_⟩
      rw [whole]
      simp [FileLedgerAction.Whole]
  | failed error_name failed_at =>
      have failed : ({ spawned request batch_id now system.next_id with
          status := .failed
          error_msg := some error_name
          completed_at := some failed_at } : DurableTask).Whole ↔
          (spawned request batch_id now system.next_id).Whole ∧
            Utf8.valid error_name = true := by
        constructor
        · intro whole
          exact ⟨{ whole with error_msg := rfl }, whole.error_msg⟩
        · intro texts
          exact { texts.1 with error_msg := texts.2 }
      refine ⟨counted.change.change.remove,
        .trans forall_persisted_change ?_⟩
      rw [failed, forall_persisted_change, whole]
      simp [FileLedgerAction.Whole]
      tauto

theorem foldl_persist (tasks : ℕ → Option DurableTask) (order : List ℕ)
    (start : FileLedgerSystem) :
    let final := order.foldl (persistOf tasks) start
    final.tasks = start.tasks ∧ start.persisted ⊆ final.persisted ∧
      ∀ entry ∈ final.persisted, entry ∈ start.persisted ∨ tasks entry.1 = some entry.2 := by
  induction order generalizing start with
  | nil => exact ⟨rfl, List.Subset.refl _, fun _ mem => Or.inl mem⟩
  | cons task_id rest ih =>
      rw [List.foldl_cons, persistOf]
      cases found : tasks task_id with
      | none => exact ih start
      | some state =>
          have here : start.persisted ⊆ (start.persist task_id state).persisted :=
            List.subset_append_left _ _
          rcases ih (start.persist task_id state) with ⟨same, more, origin⟩
          refine ⟨same, List.Subset.trans here more, ?_⟩
          intro entry mem
          rcases origin entry mem with before | present
          · rcases List.mem_append.mp before with earlier | last
            · exact Or.inl earlier
            · rw [List.mem_singleton] at last
              exact Or.inr (last ▸ found)
          · exact Or.inr present

theorem wholeStep_restart {recovered_at : ℤ} {order : List ℕ} (inv : system.LedgerInv)
    (stepped : system.restart recovered_at order = some next) :
    next.WholeInv ∧ WholeStep system next (.restart recovered_at order) := by
  have final (ledger : ∀ entry ∈ system.persisted, entry.2.Whole) : ∀ task_id state,
      (recoverFromFile system.file).finalTasks recovered_at task_id = some state →
        state.Whole := by
    have recovered := recoveredFrom_recoverFromFile inv.toTasksInv
    apply recovered.finalTasks fun _ state => state.Whole
    intro task_id state mem
    have again : (recoveredTask task_id state).Whole := whole_recoveredTask (ledger _ mem)
    exact ⟨again, whole_finalizeRecovered again recovered_at⟩
  -- The tasks are those of the recovery, and what is appended is one of them.
  have parts : next.tasks = (recoverFromFile system.file).finalTasks recovered_at ∧
      system.persisted ⊆ next.persisted ∧ ∀ entry ∈ next.persisted, entry ∈ system.persisted ∨
        (recoverFromFile system.file).finalTasks recovered_at entry.1 = some entry.2 := by
    simp only [FileLedgerSystem.restart] at stepped
    split at stepped
    · split at stepped
      · rw [← Option.some.inj stepped]
        exact foldl_persist ((recoverFromFile system.file).finalTasks recovered_at) order
          { system with
            tasks := (recoverFromFile system.file).finalTasks recovered_at
            next_id := (recoverFromFile system.file).nextId }
      · cases stepped
    · rw [← Option.some.inj stepped]
      exact ⟨rfl, List.Subset.refl _, fun _ mem => Or.inl mem⟩
  rcases parts with ⟨tasks, more, origin⟩
  constructor
  · intro ledger task_id state found
    rw [tasks] at found
    exact final (fun entry mem => ledger entry (more mem)) task_id state found
  · constructor
    · intro ledger
      exact ⟨fun entry mem => ledger entry (more mem), trivial⟩
    · intro both entry mem
      rcases origin entry mem with earlier | found
      · exact both.1 entry earlier
      · exact final both.1 entry.1 entry.2 found

theorem wholeStep {action : FileLedgerAction} (inv : system.LedgerInv) (whole : system.WholeInv)
    (stepped : step system action = some next) : next.WholeInv ∧ WholeStep system next action := by
  have changed {task_id : ℕ} {before after : DurableTask}
      (present : system.tasks task_id = some before)
      (keeps : before.Whole → (after.Whole ↔ action.Whole)) :
      (system.change task_id after).WholeInv ∧
        WholeStep system (system.change task_id after) action := by
    refine ⟨whole.change, .trans forall_persisted_change ?_⟩
    constructor
    · intro both
      exact ⟨both.1, (keeps (whole both.1 task_id before present)).mp both.2⟩
    · intro both
      exact ⟨both.1, (keeps (whole both.1 task_id before present)).mpr both.2⟩
  cases action with
  | spawn request batch_id now start =>
      exact Option.some.inj stepped ▸ wholeStep_spawn whole start
  | markTaskRunning task_id | cancelQueued task_id now =>
      rcases Option.bind_eq_some_iff.mp stepped with ⟨before, present, stepped⟩
      split at stepped
      · refine Option.some.inj stepped ▸ changed present fun texts => ?_
        exact ⟨fun _ => trivial, fun _ => { texts with }⟩
      · cases stepped
  | completeTask task_id result err_msg surroundings =>
      rcases Option.bind_eq_some_iff.mp stepped with ⟨before, present, stepped⟩
      split at stepped
      · cases stepped
      · refine Option.some.inj stepped ▸ changed present fun texts => ?_
        have error : (if surroundings.copiesError then err_msg else none).all Utf8.valid = true ↔
            (surroundings.copiesError = true → err_msg.all Utf8.valid = true) := by
          cases surroundings.copiesError <;> simp
        exact ⟨fun texts => error.mp texts.error_msg,
          fun valid => { texts with error_msg := error.mpr valid }⟩
  | restart recovered_at order => exact wholeStep_restart inv stepped

theorem whole_persisted_iff {actions : List FileLedgerAction} {start : FileLedgerSystem}
    (inv : start.LedgerInv) (whole : start.WholeInv)
    (valid : ∀ action ∈ actions, action.TextsValid)
    (reached : Machine.run step start actions = some system) :
    (∀ entry ∈ system.persisted, entry.2.Whole) ↔
      (∀ entry ∈ start.persisted, entry.2.Whole) ∧ ∀ action ∈ actions, action.Whole := by
  induction actions generalizing start with
  | nil =>
      rw [← Option.some.inj reached]
      simp
  | cons action rest ih =>
      rcases Option.bind_eq_some_iff.mp reached with ⟨middle, stepped, reached⟩
      have later := fun other mem => valid other (List.mem_cons_of_mem _ mem)
      have first := wholeStep inv whole stepped
      have inv' := inv.step (valid action List.mem_cons_self) stepped
      have here : (∀ entry ∈ middle.persisted, entry.2.Whole) ↔
          (∀ entry ∈ start.persisted, entry.2.Whole) ∧ action.Whole := first.2
      rw [ih inv' first.1 later reached, here, List.forall_mem_cons, and_assoc]

/-!
## Recovery after any run
-/

theorem recovers_iff_whole {recovered_at : ℤ} (inv : system.LedgerInv)
    (fits : system.file.length ≤ LEDGER_READ_LIMIT) :
    Recovers system recovered_at ↔ ∀ entry ∈ system.persisted, entry.2.Whole := by
  have lines : system.persisted.length ≤ LEDGER_READ_LIMIT := by
    have lines := length_le_ledgerFile system.persisted
    rw [← inv.file] at lines
    omega
  have small : system.persisted.length < 2 ^ 63 := Nat.lt_of_le_of_lt lines (by decide)
  rw [recovers_iff inv.file fits fun entry mem => (inv.persisted entry mem).sound small]
  exact forall₂_congr fun entry mem => (inv.persisted entry mem).printable_iff

/-- The ledger of a run is recovered exactly if no step of the run wrote a text that is not
UTF-8. -/
theorem ledger_recovery_iff {actions : List FileLedgerAction} (recovered_at : ℤ)
    (valid : ∀ action ∈ actions, action.TextsValid)
    (reached : Machine.run step init actions = some system)
    (fits : system.file.length ≤ LEDGER_READ_LIMIT) :
    Recovers system recovered_at ↔ ∀ action ∈ actions, action.Whole := by
  have inv : system.LedgerInv := ledgerInv_of_run ledgerInv_init valid reached
  have empty : init.WholeInv := fun _ _ _ found => (Option.some_ne_none _ found.symm).elim
  rw [recovers_iff_whole inv fits, whole_persisted_iff ledgerInv_init empty valid reached]
  simp [init]

/-- A request for a task. -/
def requestOf (task : Bytes) : SpawnRequest where
  task
  label := ascii "look"
  origin_channel := ascii "telegram"
  origin_chat_id := ascii "42"
  request_session_key := ascii "agent:zaki-bot:user:7:main"

/-- A task that ends and one that is still running. -/
def oneOfTwoEnds : List FileLedgerAction :=
  [.spawn (requestOf (ascii "find it")) none 1000 .started, .markTaskRunning 1,
    .spawn (requestOf (ascii "find more")) none 1001 .started,
    .completeTask 1 (some { status := .completed, text := ascii "found", err := none }) none
      { copiesResult := true, copiesError := true, now := 1002 }]

theorem ledger_recovery_oneOfTwoEnds :
    ∃ system, Machine.run step init oneOfTwoEnds = some system ∧ Recovers system 2000 := by
  have ran : ∃ system, Machine.run step init oneOfTwoEnds = some system ∧
      system.file.length ≤ LEDGER_READ_LIMIT := ⟨_, rfl, by decide +kernel⟩
  rcases ran with ⟨system, reached, fits⟩
  have valid : ∀ action ∈ oneOfTwoEnds, action.TextsValid := by
    simp only [oneOfTwoEnds, List.forall_mem_cons, FileLedgerAction.TextsValid]
    refine ⟨by decide, trivial, by decide, by decide, fun _ mem => ?_⟩
    cases mem
  have whole : ∀ action ∈ oneOfTwoEnds, action.Whole := by
    simp only [oneOfTwoEnds, List.forall_mem_cons, FileLedgerAction.Whole]
    refine ⟨⟨by decide, by decide, by decide, ?_⟩, trivial, ⟨by decide, by decide, by decide, ?_⟩,
      by decide, fun _ mem => ?_⟩
    · intro _ _ failed
      cases failed
    · intro _ _ failed
      cases failed
    · cases mem
  exact ⟨system, reached, (ledger_recovery_iff 2000 valid reached fits).mpr whole⟩

def cutTask : Bytes :=
  List.replicate 79 (byte 'a') ++ [0xC3, 0xA9]

theorem not_ledger_recovery :
    ¬∀ (actions : List FileLedgerAction) (system : FileLedgerSystem) (recovered_at : ℤ),
      (∀ action ∈ actions, action.TextsValid) → Machine.run step init actions = some system →
        system.file.length ≤ LEDGER_READ_LIMIT → Recovers system recovered_at := by
  intro recovers
  have valid : ∀ action ∈ [FileLedgerAction.spawn (requestOf cutTask) none 1000 .started],
      action.TextsValid := by
    rw [List.forall_mem_singleton, FileLedgerAction.TextsValid]
    decide
  have ran : ∃ system, Machine.run step init [.spawn (requestOf cutTask) none 1000 .started] =
      some system ∧ system.file.length ≤ LEDGER_READ_LIMIT ∧
        system.persisted = [(1, spawned (requestOf cutTask) none 1000 1)] :=
    ⟨_, rfl, by decide +kernel, rfl⟩
  rcases ran with ⟨system, reached, fits, persisted⟩
  have inv := ledgerInv_of_run ledgerInv_init valid reached
  have whole := (recovers_iff_whole inv fits).mp (recovers _ system 2000 valid reached fits)
  rw [persisted, List.forall_mem_singleton] at whole
  have cut : Utf8.valid (summarizeTaskForDisplay cutTask) = false := by decide
  exact Bool.false_ne_true (cut.symm.trans whole.task_summary)

end FileLedgerSystem

end Nullalis.Subagent
