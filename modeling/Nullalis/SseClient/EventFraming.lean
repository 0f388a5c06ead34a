import Nullalis.Base.Framing
import Nullalis.SseClient.Events

/-!
# The events of the blocks

A stream of events is made of blocks of lines with blank lines between them. Of each block there is
to be one event with its data: all of it, or the lines before the first one for which there is no
room. The parser makes that event of each block, and more if something of the block, or of a block
before it, is left over.
-/

namespace Nullalis.SseClient

def linesOf (text : Bytes) : List Bytes :=
  (Bytes.splitScalar (byte '\n') text).map Providers.trimReturns

/-- The blocks of lines between blank lines. -/
def blocks : List Bytes → List (List Bytes)
  | [] => [[]]
  | line :: rest => if line = [] then [] :: blocks rest else (blocks rest).modifyHead (line :: ·)

def valueOf (name : String) (line : Bytes) : Option Bytes :=
  if (parseField line).1 = ascii name then some (parseField line).2 else none

def dataValue (line : Bytes) : Option Bytes :=
  valueOf "data" line

def typeValue (line : Bytes) : Option Bytes :=
  valueOf "event" line

def idValue (line : Bytes) : Option Bytes :=
  (valueOf "id" line).filter fun value => (Bytes.indexOfScalar 0 value).isNone

/-- The data with one line more. -/
def extend (data : Option Bytes) (value : Bytes) : Bytes :=
  match data with
  | none => value
  | some data => data ++ byte '\n' :: value

/-- The lines before the first one whose data has no room after `data`. -/
def readable (data : Option Bytes) : List Bytes → List Bytes
  | [] => []
  | line :: rest =>
      match dataValue line with
      | none => line :: readable data rest
      | some value =>
          if (extend data value).length ≤ MAX_EVENT_SIZE then
            line :: readable (some (extend data value)) rest
          else []

/-- The data of lines, after `data`. -/
def gather (data : Option Bytes) (lines : List Bytes) : Option Bytes :=
  (lines.filterMap dataValue).foldl (fun data value => some (extend data value)) data

def lastValue (value : Bytes → Option Bytes) (lines : List Bytes) : Option Bytes :=
  (lines.filterMap value).getLast?

/-- The event of a block, if it has data. -/
def eventOf (block : List Bytes) : Option SseEvent :=
  let lines := readable none block
  (gather none lines).map fun data =>
    { data
      event_type := (lastValue typeValue lines).getD []
      id := (lastValue idValue lines).getD [] }

/-!
## An event as it is built
-/

/-- What the parser keeps of an event. -/
structure Building where
  data : Option Bytes := none
  event_type : Bytes := []
  id : Bytes := []
deriving DecidableEq

namespace Building

def event (building : Building) : List SseEvent :=
  building.data.toList.map fun data => ⟨data, building.event_type, building.id⟩

/-- Read a line that is not blank: what is emitted, and what is kept. -/
def read (building : Building) (line : Bytes) : List SseEvent × Building :=
  match dataValue line with
  | some value =>
      if (extend building.data value).length ≤ MAX_EVENT_SIZE then
        ([], { building with data := some (extend building.data value) })
      else (building.event, {})
  | none =>
      ([], { building with
        event_type := (typeValue line).getD building.event_type
        id := (idValue line).getD building.id })

def finish (building : Building) : List SseEvent × Building :=
  (building.event, if building.data.isSome then {} else building)

def onLine (building : Building) (line : Bytes) : List SseEvent × Building :=
  if line = [] then building.finish else building.read line

/-- Read lines. -/
def onLines (building : Building) : List Bytes → List SseEvent × Building
  | [] => ([], building)
  | line :: rest =>
      let (events, next) := building.onLine line
      let (later, last) := next.onLines rest
      (events ++ later, last)

/-- The parser that keeps this of an event and has emitted these. -/
def parser (building : Building) (events : List SseEvent) : Parser where
  events
  current_data := building.data.getD []
  current_event_type := building.event_type
  current_id := building.id
  total_event_size := (building.data.getD []).length
  has_data := building.data.isSome

variable {building : Building} {events : List SseEvent} {line : Bytes} {first second : List Bytes}

theorem parser_dispatch (building : Building) (events : List SseEvent) :
    (building.parser events).dispatch =
      building.finish.2.parser (events ++ building.finish.1) := by
  cases kept : building.data with
  | none => simp [Parser.dispatch, parser, finish, event, kept]
  | some data => simp [Parser.dispatch, parser, finish, event, kept]

theorem parser_onData (building : Building) (events : List SseEvent) (value : Bytes) :
    (building.parser events).onData value =
      if (extend building.data value).length ≤ MAX_EVENT_SIZE then
        { building with data := some (extend building.data value) }.parser events
      else ({} : Building).parser (events ++ building.event) := by
  rcases building with ⟨data, event_type, id⟩
  cases data with
  | none =>
      by_cases room : value.length ≤ MAX_EVENT_SIZE
      · simp [Parser.onData, parser, extend, room, Nat.not_lt.mpr room]
      · simp [Parser.onData, parser, extend, room, Nat.lt_of_not_le room, Parser.dispatch,
          Parser.reset, event]
  | some data =>
      have size : (extend (some data) value).length = data.length + value.length + 1 := by
        simp only [extend, List.length_append, List.length_cons]
        omega
      by_cases room : data.length + value.length + 1 ≤ MAX_EVENT_SIZE
      · rw [if_pos (size.trans_le room)]
        simp only [Parser.onData, parser, size, Option.getD_some, Option.isSome_some, if_true,
          if_neg (Nat.not_lt.mpr room)]
        simp [extend]
      · rw [if_neg fun fits => room (size.symm.trans_le fits)]
        simp only [Parser.onData, parser, Option.getD_some, Option.isSome_some, if_true,
          if_pos (Nat.lt_of_not_le room)]
        simp [Parser.dispatch, Parser.reset, event]

theorem parser_onLine (building : Building) (events : List SseEvent) (raw_line : Bytes) :
    (building.parser events).onLine raw_line =
      (building.onLine (Providers.trimReturns raw_line)).2.parser
        (events ++ (building.onLine (Providers.trimReturns raw_line)).1) := by
  rw [Parser.onLine, onLine]
  generalize Providers.trimReturns raw_line = line
  by_cases blank : line = []
  · rw [if_pos blank, if_pos blank, parser_dispatch]
  · rw [if_neg blank, if_neg blank]
    have comment (starts : line.head? = some (byte ':')) : (parseField line).1 = [] := by
      rcases List.head?_eq_some_iff.mp starts with ⟨rest, rfl⟩
      simp [parseField, Bytes.indexOfScalar, List.findIdx?_cons]
    by_cases starts : line.head? = some (byte ':')
    · rw [if_pos starts]
      simp [read, dataValue, typeValue, idValue, valueOf, comment starts, ascii]
    · rw [if_neg starts]
      change (building.parser events).onField (parseField line).1 (parseField line).2 = _
      rw [Parser.onField, read]
      by_cases data : (parseField line).1 = ascii "data"
      · simp only [dataValue, valueOf, data, if_true, parser_onData]
        split <;> simp
      · have none_data : dataValue line = none := by rw [dataValue, valueOf, if_neg data]
        simp only [none_data, List.append_nil, if_neg data]
        by_cases type : (parseField line).1 = ascii "event"
        · have other : ascii "event" ≠ ascii "id" := by decide
          simp [typeValue, idValue, valueOf, type, other, parser]
        · rw [if_neg type]
          by_cases id : (parseField line).1 = ascii "id"
          · have other : ascii "id" ≠ ascii "event" := by decide
            cases plain : (Bytes.indexOfScalar 0 (parseField line).2).isNone <;>
              simp [typeValue, idValue, valueOf, id, other, parser, plain, Option.filter]
          · simp [typeValue, idValue, valueOf, type, id]

theorem onLines_append (building : Building) (first second : List Bytes) :
    building.onLines (first ++ second) =
      ((building.onLines first).1 ++ ((building.onLines first).2.onLines second).1,
        ((building.onLines first).2.onLines second).2) := by
  induction first generalizing building with
  | nil => rfl
  | cons line rest ih => simp [onLines, ih]

theorem parser_foldl (building : Building) (events : List SseEvent) (raw_lines : List Bytes) :
    raw_lines.foldl Parser.onLine (building.parser events) =
      (building.onLines (raw_lines.map Providers.trimReturns)).2.parser
        (events ++ (building.onLines (raw_lines.map Providers.trimReturns)).1) := by
  induction raw_lines generalizing building events with
  | nil => simp [onLines]
  | cons raw_line rest ih =>
      rw [List.foldl_cons, parser_onLine, ih]
      simp [onLines]

end Building

theorem parseEvents_eq (buffer : Bytes) :
    parseEvents buffer = (({} : Building).onLines (linesOf buffer ++ [[]])).1 := by
  have start : ({} : Parser) = ({} : Building).parser [] := rfl
  rw [parseEvents, start, Building.parser_foldl, Building.parser_dispatch,
    Building.onLines_append]
  simp [Building.parser, Building.onLines, Building.onLine, linesOf]

/-!
## Blocks
-/

variable {line : Bytes} {lines block first second : List Bytes}

theorem flatMap_blocks (lines : List Bytes) :
    (blocks lines).flatMap (· ++ [[]]) = lines ++ [[]] := by
  induction lines with
  | nil => rfl
  | cons line rest ih =>
      rw [blocks]
      split
      case isTrue blank => rw [blank, List.flatMap_cons, ih]; rfl
      case isFalse =>
        cases later : blocks rest with
        | nil => simp [later] at ih
        | cons block further =>
            rw [later, List.flatMap_cons] at ih
            rw [List.modifyHead_cons, List.flatMap_cons, List.cons_append, List.cons_append, ih]
            rfl

theorem ne_nil_of_mem_blocks (mem : block ∈ blocks lines) : ∀ line ∈ block, line ≠ [] := by
  induction lines generalizing block with
  | nil =>
      rw [blocks, List.mem_singleton] at mem
      simp [mem]
  | cons line rest ih =>
      rw [blocks] at mem
      split at mem
      case isTrue =>
        rcases List.mem_cons.mp mem with rfl | later
        · simp
        · exact ih later
      case isFalse solid =>
        cases later : blocks rest with
        | nil => simp [later] at mem
        | cons head further =>
            rw [later, List.modifyHead_cons] at mem
            rcases List.mem_cons.mp mem with rfl | behind
            · exact List.forall_mem_cons.mpr ⟨solid, ih (later ▸ List.mem_cons_self)⟩
            · exact ih (later ▸ List.mem_cons_of_mem _ behind)

theorem blocks_append_cons (first second : List Bytes) :
    blocks (first ++ [] :: second) = blocks first ++ blocks second := by
  induction first with
  | nil => rfl
  | cons line rest ih =>
      rw [List.cons_append, blocks, blocks, ih]
      split
      · rfl
      · cases later : blocks rest with
        | nil =>
            have whole := flatMap_blocks rest
            simp [later] at whole
        | cons head further => rfl

/-!
## A block
-/

theorem valueOf_eq_none {name : String} {value : Bytes} (data : dataValue line = some value)
    (other : ascii "data" ≠ ascii name) : valueOf name line = none := by
  rw [dataValue, valueOf, Option.ite_none_right_eq_some] at data
  rw [valueOf, if_neg (data.1 ▸ other)]

theorem typeValue_eq_none {value : Bytes} (data : dataValue line = some value) :
    typeValue line = none :=
  valueOf_eq_none data (by decide)

theorem idValue_eq_none {value : Bytes} (data : dataValue line = some value) :
    idValue line = none := by
  rw [idValue, valueOf_eq_none data (by decide)]
  rfl

theorem lastValue_cons (value : Bytes → Option Bytes) (line : Bytes) (rest : List Bytes)
    (carried : Bytes) :
    (lastValue value (line :: rest)).getD carried =
      (lastValue value rest).getD ((value line).getD carried) := by
  cases found : value line with
  | none => simp [lastValue, found]
  | some here =>
      rw [lastValue, List.filterMap_cons_some found, List.getLast?_cons]
      rfl

theorem readable_cut (data : Option Bytes) (lines : List Bytes) :
    readable data lines = lines ∨ ∃ cut value rest, lines = readable data lines ++ cut :: rest ∧
      dataValue cut = some value ∧
      MAX_EVENT_SIZE < (extend (gather data (readable data lines)) value).length := by
  induction lines generalizing data with
  | nil => exact Or.inl rfl
  | cons line rest ih =>
      cases found : dataValue line with
      | none =>
          have step : readable data (line :: rest) = line :: readable data rest := by
            simp [readable, found]
          have same : gather data (line :: readable data rest) = gather data (readable data rest) := by
            simp [gather, found]
          rw [step, same]
          rcases ih data with whole | ⟨cut, value, after, split, cutData, large⟩
          · exact Or.inl (by rw [whole])
          · exact Or.inr ⟨cut, value, after, by rw [List.cons_append, ← split], cutData, large⟩
      | some value =>
          by_cases room : (extend data value).length ≤ MAX_EVENT_SIZE
          · have step : readable data (line :: rest) =
                line :: readable (some (extend data value)) rest := by
              simp [readable, found, room]
            have same : gather data (line :: readable (some (extend data value)) rest) =
                gather (some (extend data value)) (readable (some (extend data value)) rest) := by
              simp [gather, found]
            rw [step, same]
            rcases ih (some (extend data value)) with whole | ⟨cut, further, after, split, cutData, large⟩
            · exact Or.inl (by rw [whole])
            · exact Or.inr ⟨cut, further, after, by rw [List.cons_append, ← split], cutData, large⟩
          · have none_read : readable data (line :: rest) = [] := by
              simp [readable, found, room]
            rw [none_read]
            exact Or.inr ⟨line, value, rest, rfl, found, Nat.lt_of_not_le room⟩

namespace Building

variable {building : Building}

theorem onLines_readable (building : Building) (solid : ∀ line ∈ lines, line ≠ []) :
    building.onLines (readable building.data lines) =
      ([], { data := gather building.data (readable building.data lines)
             event_type :=
              (lastValue typeValue (readable building.data lines)).getD building.event_type
             id := (lastValue idValue (readable building.data lines)).getD building.id }) := by
  induction lines generalizing building with
  | nil => rfl
  | cons line rest ih =>
      rcases List.forall_mem_cons.mp solid with ⟨here, further⟩
      cases found : dataValue line with
      | none =>
          have step : readable building.data (line :: rest) =
              line :: readable building.data rest := by
            simp [readable, found]
          have later := ih { building with
            event_type := (typeValue line).getD building.event_type
            id := (idValue line).getD building.id } further
          rw [step, onLines, onLine, if_neg here, read, found]
          simp only [List.nil_append]
          rw [later, lastValue_cons, lastValue_cons]
          simp [gather, found]
      | some value =>
          by_cases room : (extend building.data value).length ≤ MAX_EVENT_SIZE
          · have step : readable building.data (line :: rest) =
                line :: readable (some (extend building.data value)) rest := by
              simp [readable, found, room]
            have later := ih { building with data := some (extend building.data value) } further
            rw [step, onLines, onLine, if_neg here, read, found]
            simp only [if_pos room, List.nil_append]
            rw [later, lastValue_cons, lastValue_cons, typeValue_eq_none found,
              idValue_eq_none found]
            simp [gather, found]
          · simp [readable, found, room, onLines, gather, lastValue]

end Building

/-- There is no room for any of the data of the lines. -/
def AllTooLong (lines : List Bytes) : Prop :=
  ∀ line ∈ lines, ∀ value, dataValue line = some value → MAX_EVENT_SIZE < value.length

/-- What lines leave of a field. A line with data for which there is no room empties it. -/
def carried (value : Bytes → Option Bytes) (before : Bytes) (lines : List Bytes) : Bytes :=
  lines.foldl
    (fun kept line => if (dataValue line).isSome then [] else (value line).getD kept) before

namespace Building

variable {building : Building}

theorem onLines_of_allTooLong (quiet : building.data = none) (solid : ∀ line ∈ lines, line ≠ [])
    (long : AllTooLong lines) :
    building.onLines lines =
      ([], { data := none
             event_type := carried typeValue building.event_type lines
             id := carried idValue building.id lines }) := by
  induction lines generalizing building with
  | nil => exact congrArg (Prod.mk []) (congrArg (Building.mk · _ _) quiet)
  | cons line rest ih =>
      rcases List.forall_mem_cons.mp solid with ⟨here, further⟩
      have later : AllTooLong rest := fun line mem => long line (List.mem_cons_of_mem _ mem)
      rw [onLines, onLine, if_neg here, read]
      cases found : dataValue line with
      | none =>
          have passed : ({ building with
              event_type := (typeValue line).getD building.event_type
              id := (idValue line).getD building.id } : Building).data = none := quiet
          simp only [List.nil_append]
          rw [ih passed further later]
          simp [carried, found]
      | some value =>
          have large : ¬(extend building.data value).length ≤ MAX_EVENT_SIZE := by
            rw [quiet, extend]
            exact Nat.not_le.mpr (long line List.mem_cons_self value found)
          simp only [if_neg large]
          rw [ih rfl further later]
          simp [event, quiet, carried, found]

theorem onLines_ne_nil_of_data (data : building.data.isSome = true)
    (solid : ∀ line ∈ lines, line ≠ []) : (building.onLines (lines ++ [[]])).1 ≠ [] := by
  induction lines generalizing building with
  | nil =>
      rcases Option.isSome_iff_exists.mp data with ⟨text, known⟩
      simp [onLines, onLine, finish, event, known]
  | cons line rest ih =>
      rcases List.forall_mem_cons.mp solid with ⟨here, further⟩
      rw [List.cons_append, onLines, onLine, if_neg here, read]
      cases found : dataValue line with
      | none =>
          have passed : ({ building with
              event_type := (typeValue line).getD building.event_type
              id := (idValue line).getD building.id } : Building).data.isSome = true := data
          simp only [List.nil_append]
          exact ih passed further
      | some value =>
          by_cases room : (extend building.data value).length ≤ MAX_EVENT_SIZE
          · simp only [if_pos room, List.nil_append]
            exact ih rfl further
          · rcases Option.isSome_iff_exists.mp data with ⟨text, known⟩
            simp only [if_neg room]
            simp [event, known]

theorem onLines_ne_nil_of_not_allTooLong (solid : ∀ line ∈ lines, line ≠ [])
    (short : ¬AllTooLong lines) : (building.onLines (lines ++ [[]])).1 ≠ [] := by
  induction lines generalizing building with
  | nil => exact absurd (fun _ mem => by cases mem) short
  | cons line rest ih =>
      rcases List.forall_mem_cons.mp solid with ⟨here, further⟩
      by_cases data : building.data.isSome = true
      · exact onLines_ne_nil_of_data data solid
      · rw [Option.not_isSome_iff_eq_none] at data
        rw [List.cons_append, onLines, onLine, if_neg here, read]
        cases found : dataValue line with
        | none =>
            have later : ¬AllTooLong rest := fun long => short <| List.forall_mem_cons.mpr
              ⟨fun value known => absurd (found.symm.trans known) (by simp), long⟩
            simpa using ih further later
        | some value =>
            by_cases room : (extend building.data value).length ≤ MAX_EVENT_SIZE
            · simp only [if_pos room, List.nil_append]
              exact onLines_ne_nil_of_data rfl further
            · have later : ¬AllTooLong rest := by
                refine fun long => short (List.forall_mem_cons.mpr ⟨fun other known => ?_, long⟩)
                rw [found] at known
                cases known
                rw [data, extend] at room
                exact Nat.lt_of_not_le room
              simp only [if_neg room]
              exact fun nothing => ih further later (List.append_eq_nil_iff.mp nothing).2

end Building

/-- After the first line whose data has no room, the block has no data for which there is any. -/
def RestSkipped (block : List Bytes) : Prop :=
  AllTooLong (block.drop ((readable none block).length + 1))

/-- What a block leaves of a field. An event that ends with its block takes its fields along. -/
def left (value : Bytes → Option Bytes) (before : Bytes) (block : List Bytes) : Bytes :=
  if readable none block = block ∧ (gather none block).isSome then []
  else carried value before block

theorem exists_extended (data : Bytes) (values : List Bytes) :
    ∃ whole, values.foldl (fun data value => some (extend data value)) (some data) = some whole ∧
      data <+: whole := by
  induction values generalizing data with
  | nil => exact ⟨data, rfl, List.prefix_rfl⟩
  | cons value rest ih =>
      have longer : data <+: extend (some data) value := List.prefix_append _ _
      rcases ih (extend (some data) value) with ⟨whole, extended, begins⟩
      exact ⟨whole, extended, longer.trans begins⟩

theorem carried_of_gather_eq_none {value : Bytes → Option Bytes} {before : Bytes}
    (none_gathered : gather none lines = none) :
    carried value before lines = (lastValue value lines).getD before := by
  have quiet : lines.filterMap dataValue = [] := by
    cases values : lines.filterMap dataValue with
    | nil => rfl
    | cons first rest =>
        rcases exists_extended (extend none first) rest with ⟨whole, given, -⟩
        rw [gather, values, List.foldl_cons, given] at none_gathered
        cases none_gathered
  clear none_gathered
  induction lines generalizing before with
  | nil => rfl
  | cons line rest ih =>
      cases found : dataValue line with
      | some data => simp [found] at quiet
      | none =>
          rw [List.filterMap_cons_none found] at quiet
          rw [lastValue_cons, ← ih quiet]
          simp [carried, found]

namespace Building

/-- What is made of a block: its event, with the fields that were left before, and more unless the
rest of the block is skipped. -/
theorem onLines_block (event_type id : Bytes) (solid : ∀ line ∈ block, line ≠ []) :
    ∃ more, (Building.onLines ⟨none, event_type, id⟩ (block ++ [[]])).1 =
        (gather none (readable none block)).toList.map (fun data =>
          ⟨data, (lastValue typeValue (readable none block)).getD event_type,
            (lastValue idValue (readable none block)).getD id⟩) ++ more ∧
      (more = [] ↔ RestSkipped block) ∧
      (RestSkipped block → (Building.onLines ⟨none, event_type, id⟩ (block ++ [[]])).2 =
        ⟨none, left typeValue event_type block, left idValue id block⟩) := by
  rcases readable_cut none block with whole | ⟨cut, value, rest, split, cutData, large⟩
  · have read := onLines_readable ⟨none, event_type, id⟩ solid
    have skipped : RestSkipped block := by
      intro line mem
      rw [whole, List.drop_eq_nil_of_le (by omega)] at mem
      cases mem
    simp only [whole] at read ⊢
    rw [onLines_append, read]
    refine ⟨[], ?_, by simp [skipped], fun _ => ?_⟩
    · simp [onLines, onLine, finish, event]
    · cases gathered : gather none block with
      | none =>
          simp [onLines, onLine, finish, left, gathered, carried_of_gather_eq_none gathered]
      | some data => simp [onLines, onLine, finish, left, gathered, whole]
  · have read := onLines_readable ⟨none, event_type, id⟩ solid
    have solidRest : ∀ line ∈ rest, line ≠ [] := fun line mem =>
      solid line (by rw [split]; simp [mem])
    have solidCut : cut ≠ [] := solid cut (by rw [split]; simp)
    have skipped : RestSkipped block ↔ AllTooLong rest := by
      have behind (before : List Bytes) (whole : block = before ++ cut :: rest) :
          block.drop (before.length + 1) = rest := by
        subst whole
        simp
      rw [RestSkipped, behind _ split]
    have unread : readable none block ≠ block := by
      intro whole
      have lengths := congrArg List.length split
      rw [whole, List.length_append, List.length_cons] at lengths
      omega
    -- The field values before the cut go with the cut event.
    have forgets (field : Bytes → Option Bytes) (before : Bytes) :
        left field before block = carried field [] rest := by
      rw [left, if_neg fun both => unread both.1]
      conv_lhs => rw [split]
      simp [carried, List.foldl_append, cutData]
    have run : Building.onLines ⟨none, event_type, id⟩ (block ++ [[]]) =
        ((gather none (readable none block)).toList.map (fun data =>
          ⟨data, (lastValue typeValue (readable none block)).getD event_type,
            (lastValue idValue (readable none block)).getD id⟩) ++
          (({} : Building).onLines (rest ++ [[]])).1,
          (({} : Building).onLines (rest ++ [[]])).2) := by
      conv_lhs => rw [split]
      rw [List.append_assoc, onLines_append, read, List.cons_append, onLines, onLine,
        if_neg solidCut, Building.read, cutData]
      simp only [if_neg (Nat.not_le.mpr large)]
      rfl
    rw [run, skipped]
    refine ⟨_, rfl, ⟨fun nothing => ?_, fun long => ?_⟩, fun long => ?_⟩
    · by_contra short
      exact onLines_ne_nil_of_not_allTooLong solidRest short nothing
    · rw [onLines_append, onLines_of_allTooLong rfl solidRest long]
      rfl
    · rw [onLines_append, onLines_of_allTooLong rfl solidRest long, forgets, forgets]
      rfl

end Building

/-!
## The data of an event
-/

/-!
## Buffers
-/

/-- No event takes a value of a field that is left over: it has its own, or nothing is left. -/
def OwnField (value : Bytes → Option Bytes) (before : Bytes) (block : List Bytes) : Prop :=
  eventOf block ≠ none → (lastValue value (readable none block)).isSome ∨ before = []

/-- Nothing is left over between these blocks, after earlier ones that left a type and an id. -/
def Separate (event_type id : Bytes) : List (List Bytes) → Prop
  | [] => True
  | block :: later =>
      RestSkipped block ∧ OwnField typeValue event_type block ∧ OwnField idValue id block ∧
        Separate (left typeValue event_type block) (left idValue id block) later

theorem getD_eq_getD_nil_iff {found : Option Bytes} {before : Bytes} :
    found.getD before = found.getD [] ↔ found.isSome = true ∨ before = [] := by
  cases found <;> simp

theorem made_eq_eventOf_iff (event_type id : Bytes) (block : List Bytes) :
    (gather none (readable none block)).toList.map (fun data =>
        (⟨data, (lastValue typeValue (readable none block)).getD event_type,
          (lastValue idValue (readable none block)).getD id⟩ : SseEvent)) =
        (eventOf block).toList ↔
      OwnField typeValue event_type block ∧ OwnField idValue id block := by
  rw [OwnField, OwnField, ← getD_eq_getD_nil_iff, ← getD_eq_getD_nil_iff, eventOf]
  cases gather none (readable none block) with
  | none => simp
  | some data => simp

theorem data_onLines_block (building : Building) (block : List Bytes) :
    (building.onLines (block ++ [[]])).2.data = none := by
  rw [Building.onLines_append]
  cases kept : (building.onLines block).2.data with
  | none => simp [Building.onLines, Building.onLine, Building.finish, kept]
  | some data => simp [Building.onLines, Building.onLine, Building.finish, kept]

theorem length_filterMap_eventOf_le (event_type id : Bytes) {all : List (List Bytes)}
    (solid : ∀ block ∈ all, ∀ line ∈ block, line ≠ []) :
    (all.filterMap eventOf).length ≤
      (Building.onLines ⟨none, event_type, id⟩ (all.flatMap (· ++ [[]]))).1.length := by
  induction all generalizing event_type id with
  | nil => simp
  | cons block later ih =>
      rcases List.forall_mem_cons.mp solid with ⟨here, further⟩
      rcases Building.onLines_block event_type id here with ⟨more, made, -, -⟩
      have quiet := data_onLines_block ⟨none, event_type, id⟩ block
      rw [List.flatMap_cons, Building.onLines_append, made]
      rcases hnext : (Building.onLines ⟨none, event_type, id⟩ (block ++ [[]])).2 with
        ⟨data, next_type, next_id⟩
      rw [hnext] at quiet
      subst quiet
      have rest := ih next_type next_id further
      have first : (eventOf block).toList.length ≤
          ((gather none (readable none block)).toList.map (fun data =>
            (⟨data, (lastValue typeValue (readable none block)).getD event_type,
              (lastValue idValue (readable none block)).getD id⟩ : SseEvent))).length := by
        rw [List.length_map, eventOf]
        cases gather none (readable none block) <;> simp
      have split : ((block :: later).filterMap eventOf).length =
          (eventOf block).toList.length + (later.filterMap eventOf).length := by
        cases yields : eventOf block with
        | none => simp [yields]
        | some event =>
            rw [List.filterMap_cons_some yields]
            simp [Nat.add_comm]
      rw [split, List.length_append, List.length_append]
      omega

/-- The blocks yield their events exactly when nothing is left over. -/
theorem onLines_blocks (event_type id : Bytes) {all : List (List Bytes)}
    (solid : ∀ block ∈ all, ∀ line ∈ block, line ≠ []) :
    (Building.onLines ⟨none, event_type, id⟩ (all.flatMap (· ++ [[]]))).1 =
        all.filterMap eventOf ↔
      Separate event_type id all := by
  induction all generalizing event_type id with
  | nil => simp [Building.onLines, Separate]
  | cons block later ih =>
      rcases List.forall_mem_cons.mp solid with ⟨here, further⟩
      rcases Building.onLines_block event_type id here with ⟨more, made, skipped, kept⟩
      have quiet := data_onLines_block ⟨none, event_type, id⟩ block
      have expected : (block :: later).filterMap eventOf =
          (eventOf block).toList ++ later.filterMap eventOf := by
        cases yields : eventOf block with
        | none => simp [yields]
        | some event => rw [List.filterMap_cons_some yields]; rfl
      have alike : ((gather none (readable none block)).toList.map (fun data =>
          (⟨data, (lastValue typeValue (readable none block)).getD event_type,
            (lastValue idValue (readable none block)).getD id⟩ : SseEvent))).length =
          (eventOf block).toList.length := by
        rw [List.length_map, eventOf]
        cases gather none (readable none block) <;> simp
      rw [List.flatMap_cons, Building.onLines_append, made, Separate, expected, List.append_assoc]
      rw [← and_assoc, ← and_assoc, and_assoc (a := RestSkipped block), ← made_eq_eventOf_iff]
      constructor
      · intro same
        rcases List.append_inj same alike with ⟨own, rest⟩
        rcases hnext : (Building.onLines ⟨none, event_type, id⟩ (block ++ [[]])).2 with
          ⟨data, next_type, next_id⟩
        rw [hnext] at quiet rest kept
        subst quiet
        have fewer := length_filterMap_eventOf_le next_type next_id further
        have lengths := congrArg List.length rest
        rw [List.length_append] at lengths
        have nothing : more = [] := List.eq_nil_of_length_eq_zero (by omega)
        have left_over := kept (skipped.mp nothing)
        cases left_over
        rw [nothing, List.nil_append] at rest
        exact ⟨⟨skipped.mp nothing, own⟩, (ih _ _ further).mp rest⟩
      · rintro ⟨⟨skips, own⟩, separate⟩
        rw [own, skipped.mpr skips, kept skips, List.nil_append, (ih _ _ further).mpr separate]

theorem parseEvents_eq_filterMap_iff (buffer : Bytes) :
    parseEvents buffer = (blocks (linesOf buffer)).filterMap eventOf ↔
      Separate [] [] (blocks (linesOf buffer)) := by
  rw [parseEvents_eq, ← flatMap_blocks]
  exact onLines_blocks [] [] fun block mem => ne_nil_of_mem_blocks mem

theorem length_filterMap_eventOf_le_parseEvents (buffer : Bytes) :
    ((blocks (linesOf buffer)).filterMap eventOf).length ≤ (parseEvents buffer).length := by
  rw [parseEvents_eq, ← flatMap_blocks]
  exact length_filterMap_eventOf_le [] [] fun block mem => ne_nil_of_mem_blocks mem

end Nullalis.SseClient
