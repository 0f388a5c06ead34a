import Mathlib.Algebra.BigOperators.Group.List.Basic
import Nullalis.Base.Run
import Nullalis.Cron.Calendar
import Nullalis.Usage.LedgerText

/-!
# The ledger and what was recorded

The scan reads the file in pieces, but line by line all the same. The cache holds the sum of the
lines of its month. So the costs of a month are those that were recorded in it.
-/

namespace Nullalis.Usage

open Nullalis.Cron

/-!
## Months
-/

/-- A turn that is recorded. -/
structure RecordedTurn where
  model : Bytes
  input_tokens : ℕ
  output_tokens : ℕ
  cost : ℕ
  timestamp : ℤ

/-- A second falls on a date. -/
structure FallsOn (secs : ℤ) (years month index : ℕ) : Prop where
  date : IsDate years month index
  day : secs / 86400 = dayOf years month index

def SameMonth (first second : ℤ) : Prop :=
  ∃ years month index other, FallsOn first years month index ∧ FallsOn second years month other

open Classical in
noncomputable def monthTotal (now_secs : ℤ) (turns : List RecordedTurn) : ℚ :=
  ((turns.filter fun turn => SameMonth now_secs turn.timestamp).map fun turn => usd turn.cost).sum

/-- The second from which years are no `u16`. -/
def yearLimit : ℤ := 86400 * yearStart 63566

section Months

variable {secs target_ym : ℤ} {years month index : ℕ}

theorem exists_fallsOn (after : 0 ≤ secs) : ∃ years month index, FallsOn secs years month index := by
  rcases exists_dayOf (secs.toNat / 86400) with ⟨years, month, index, date, same⟩
  refine ⟨years, month, index, date, ?_⟩
  rw [← same]
  omega

theorem FallsOn.yearMonthOrdinal (falls : FallsOn secs years month index) :
    yearMonthOrdinal secs =
      if 63565 < years then none else some ((1970 + years : ℤ) * 12 + (month - 1)) := by
  have after : ¬secs < 0 := by
    have day := falls.day
    omega
  have day : secs.toNat / 86400 = dayOf years month index := by
    have day := falls.day
    omega
  have bounds := dayOf_bounds falls.date
  rw [Usage.yearMonthOrdinal, if_neg after, day]
  simp only [calculateYearDay_eq bounds.1 bounds.2, calculateMonthDay_dayOf falls.date]
  by_cases late : 63565 < years
  · rw [if_pos (by omega), if_pos late]
  · rw [if_neg (by omega), if_neg late]
    push_cast
    rfl

theorem exists_yearMonthOrdinal (before : secs < yearLimit) :
    ∃ ordinal, yearMonthOrdinal secs = some ordinal := by
  by_cases negative : secs < 0
  · exact ⟨0, by rw [yearMonthOrdinal, if_pos negative]⟩
  · rcases exists_fallsOn (Int.not_lt.mp negative) with ⟨years, month, index, falls⟩
    refine ⟨_, falls.yearMonthOrdinal.trans (if_neg ?_)⟩
    intro late
    have start := (dayOf_bounds falls.date).1
    have mono : yearStart 63566 ≤ yearStart years := yearStart_mono late
    have day := falls.day
    rw [yearLimit] at before
    omega

theorem sameMonth_iff {second : ℤ} (ordinal : yearMonthOrdinal secs = some target_ym)
    (after : 0 ≤ second) : SameMonth secs second ↔ yearMonthOrdinal second = some target_ym := by
  rcases exists_fallsOn after with ⟨years', month', index', falls'⟩
  have known := falls'.yearMonthOrdinal
  refine ⟨?_, ?_⟩
  · rintro ⟨years, month, index, other, falls, same⟩
    rw [falls.yearMonthOrdinal] at ordinal
    rw [same.yearMonthOrdinal, ordinal]
  · intro same
    rw [known] at same
    split at same
    · cases same
    · by_cases negative : secs < 0
      · exfalso
        rw [yearMonthOrdinal, if_pos negative] at ordinal
        have range := falls'.date.inYear
        have zero := (Option.some.inj same).trans (Option.some.inj ordinal).symm
        omega
      · rcases exists_fallsOn (Int.not_lt.mp negative) with ⟨years, month, index, falls⟩
        rw [falls.yearMonthOrdinal] at ordinal
        split at ordinal
        · cases ordinal
        · -- Twelve months make a year, so the ordinal tells years and months apart.
          have range := falls.date.inYear
          have range' := falls'.date.inYear
          have equal := (Option.some.inj same).trans (Option.some.inj ordinal).symm
          have sameYear : years' = years := by omega
          have sameMonth : month' = month := by omega
          subst sameYear sameMonth
          exact ⟨years', month', index, index', falls, falls'⟩

end Months

/-!
## Scans
-/

/-- The line of the turn in the ledger, without the line feed at its end. -/
def RecordedTurn.text (turn : RecordedTurn) : Bytes :=
  ledgerText turn.model turn.input_tokens turn.output_tokens turn.cost turn.timestamp

def RecordedTurn.line (turn : RecordedTurn) : Bytes :=
  ledgerLine turn.model turn.input_tokens turn.output_tokens turn.cost turn.timestamp

/-- The scan finds the turn in the ledger: its line fits into the buffer, the name of its model neither
ends the line nor holds a marker, and the clock shows a time that the calendar knows. -/
structure Readable (turn : RecordedTurn) : Prop where
  short : turn.line.length ≤ 512
  solid : byte '\n' ∉ turn.model
  no_ts : ¬ts_marker <:+: byte '"' :: turn.model
  no_cost : ¬cost_marker <:+: byte '"' :: turn.model
  after : 0 ≤ turn.timestamp
  before : turn.timestamp < yearLimit

section Scans

variable {target_ym : ℤ} {reads : ℕ → ℕ} {turns : List RecordedTurn} {turn : RecordedTurn}
  {total : ℚ}

/-- What the turns with the ordinal have cost. -/
def monthSum (target_ym : ℤ) (turns : List RecordedTurn) : ℚ :=
  ((turns.filter fun turn => yearMonthOrdinal turn.timestamp = some target_ym).map
    fun turn => usd turn.cost).sum

theorem monthSum_append (first second : List RecordedTurn) :
    monthSum target_ym (first ++ second) = monthSum target_ym first + monthSum target_ym second := by
  rw [monthSum, List.filter_append, List.map_append, List.sum_append]
  rfl

theorem RecordedTurn.line_eq (turn : RecordedTurn) : turn.line = turn.text ++ [byte '\n'] :=
  ledgerLine_eq

theorem Readable.text_solid (readable : Readable turn) : byte '\n' ∉ turn.text := by
  have digits (value : ℕ) : byte '\n' ∉ Bytes.decimal value := by
    intro mem
    exact absurd (Bytes.isDigit_of_mem_decimal _ mem) (by decide)
  have cost : byte '\n' ∉ formatCost turn.cost := by
    intro mem
    exact absurd (isFloatByte_of_mem_formatCost mem) (by decide)
  have time : byte '\n' ∉ Bytes.decimalInt turn.timestamp :=
    Bytes.not_mem_decimalInt (by decide) (by decide)
  simp only [RecordedTurn.text, ledgerText, List.mem_append, List.mem_cons, not_or]
  refine ⟨⟨⟨⟨⟨⟨⟨by decide, by decide, readable.solid⟩, by decide⟩, digits _⟩, by decide⟩, digits _⟩,
    by decide⟩, by decide, ⟨cost, by decide⟩, by decide, time, by decide⟩

theorem scanLines_text (readable : ∀ turn ∈ turns, Readable turn) :
    scanLines target_ym (turns.map RecordedTurn.text) total =
      some (total + monthSum target_ym turns) := by
  induction turns generalizing total with
  | nil => simp [scanLines, monthSum]
  | cons turn turns ih =>
      have first := readable turn List.mem_cons_self
      have others := fun turn mem => readable turn (List.mem_cons_of_mem _ mem)
      have small : turn.timestamp < 2 ^ 63 := by
        have days := yearStart_add_le 0 63566
        have before := first.before
        rw [yearLimit] at before
        rw [Nat.zero_add] at days
        have start : yearStart 0 = 0 := rfl
        omega
      have read : parseLedgerLine turn.text =
          some { timestamp := turn.timestamp, cost_usd := usd turn.cost } :=
        parseLedgerLine_ledgerText first.no_ts first.no_cost ⟨first.after, small⟩
      rcases exists_yearMonthOrdinal first.before with ⟨ordinal, known⟩
      rw [List.map_cons, scanLines, read]
      simp only [Option.bind_eq_bind, known, Option.bind_some]
      rw [ih others]
      by_cases same : ordinal = target_ym
      · rw [if_pos same]
        simp [monthSum, known, same, add_assoc]
      · rw [if_neg same]
        simp [monthSum, known, same]

theorem exists_lines (readable : ∀ turn ∈ turns, Readable turn) {start : Bytes}
    (here : start <+: turns.flatMap RecordedTurn.line) :
    ∃ read left carry, turns = read ++ left ∧
      start = read.flatMap RecordedTurn.line ++ carry ∧ byte '\n' ∉ carry := by
  induction turns generalizing start with
  | nil =>
      rw [List.flatMap_nil, List.prefix_nil] at here
      exact ⟨[], [], [], rfl, here, List.not_mem_nil⟩
  | cons turn turns ih =>
      rw [List.flatMap_cons] at here
      rcases List.prefix_or_prefix_of_prefix here (List.prefix_append _ _) with within | ⟨more, whole⟩
      · rw [RecordedTurn.line_eq, List.prefix_concat_iff] at within
        rcases within with whole | part
        · refine ⟨[turn], turns, [], rfl, ?_, List.not_mem_nil⟩
          simp [whole, RecordedTurn.line_eq]
        · refine ⟨[], turn :: turns, start, rfl, rfl, ?_⟩
          intro mem
          exact (readable turn List.mem_cons_self).text_solid (part.subset mem)
      · subst whole
        have others := fun turn mem => readable turn (List.mem_cons_of_mem _ mem)
        rcases ih others ((List.prefix_append_right_inj _).mp here) with
          ⟨read, left, carry, rfl, rfl, solid⟩
        exact ⟨turn :: read, left, carry, rfl, by simp, solid⟩

theorem splitScalar_lines (readable : ∀ turn ∈ turns, Readable turn) {carry : Bytes}
    (solid : byte '\n' ∉ carry) :
    Bytes.splitScalar (byte '\n') (turns.flatMap RecordedTurn.line ++ carry) =
      turns.map RecordedTurn.text ++ [carry] := by
  induction turns with
  | nil => exact Bytes.splitScalar_of_not_mem solid
  | cons turn turns ih =>
      have others := fun turn mem => readable turn (List.mem_cons_of_mem _ mem)
      rw [List.flatMap_cons, RecordedTurn.line_eq, List.append_assoc, List.append_assoc,
        List.singleton_append,
        Bytes.splitScalar_append (readable turn List.mem_cons_self).text_solid, ih others]
      rfl

theorem length_carry (readable : ∀ turn ∈ turns, Readable turn) {carry rest : Bytes}
    (whole : carry ++ rest = turns.flatMap RecordedTurn.line) (solid : byte '\n' ∉ carry) :
    carry.length < 512 := by
  cases turns with
  | nil =>
      rw [List.flatMap_nil, List.append_eq_nil_iff] at whole
      rw [whole.1]
      decide
  | cons turn turns =>
      have short := (readable turn List.mem_cons_self).short
      rw [List.flatMap_cons] at whole
      have start : carry <+: turn.line ++ turns.flatMap RecordedTurn.line := ⟨rest, whole⟩
      rcases List.prefix_or_prefix_of_prefix start (List.prefix_append _ _) with within | beyond
      · rw [RecordedTurn.line_eq, List.prefix_concat_iff] at within
        rcases within with rfl | part
        · simp at solid
        · have length := part.length_le
          rw [RecordedTurn.line_eq, List.length_append, List.length_singleton] at short
          omega
      · exfalso
        apply solid
        apply beyond.subset
        rw [RecordedTurn.line_eq]
        simp

/-- The scan adds up the lines, wherever the reads cut the file. -/
theorem scanLoop_lines {rounds : ℕ} {rest carry : Bytes} (readable : ∀ turn ∈ turns, Readable turn)
    (whole : carry ++ rest = turns.flatMap RecordedTurn.line) (solid : byte '\n' ∉ carry)
    (enough : rest.length < rounds) :
    scanLoop target_ym reads rounds rest carry total = some (total + monthSum target_ym turns) := by
  induction rounds generalizing rest carry turns total with
  | zero => cases enough
  | succ rounds ih =>
      have short := length_carry readable whole solid
      have ended : turns = [] ∨ rest ≠ [] := by
        cases turns with
        | nil => exact Or.inl rfl
        | cons turn turns =>
            right
            rintro rfl
            apply solid
            rw [List.append_nil] at whole
            rw [whole, List.flatMap_cons, RecordedTurn.line_eq]
            simp
      cases rest with
      | nil =>
          have none : turns = [] := ended.resolve_right fun some => some rfl
          subst none
          have empty : carry = [] := by simpa using whole
          subst empty
          simp [scanLoop, monthSum]
      | cons value rest =>
          let n := min (min (4096 - carry.length) (value :: rest).length)
            (max 1 (reads (value :: rest).length))
          have positive : 1 ≤ n := by
            have length : 1 ≤ (value :: rest).length := by simp
            simp only [n]
            omega
          have arrived : n ≤ (value :: rest).length := by
            simp only [n]
            omega
          have here : carry ++ (value :: rest).take n <+: turns.flatMap RecordedTurn.line := by
            rw [← whole]
            exact (List.prefix_append_right_inj carry).mpr (List.take_prefix _ _)
          rcases exists_lines readable here with ⟨read, left, carry', rfl, cut, solid'⟩
          have readableRead := fun turn mem => readable turn (List.mem_append_left left mem)
          have readableLeft := fun turn mem => readable turn (List.mem_append_right read mem)
          have joined : read.flatMap RecordedTurn.line ++ (carry' ++ (value :: rest).drop n) =
              read.flatMap RecordedTurn.line ++ left.flatMap RecordedTurn.line := by
            rw [← List.append_assoc, ← cut, List.append_assoc, List.take_append_drop, whole,
              List.flatMap_append]
          have behind := List.append_cancel_left joined
          have fewer : ((value :: rest).drop n).length < rounds := by
            rw [List.length_drop]
            omega
          rw [scanLoop, if_neg (by omega)]
          change (scanLines target_ym (Bytes.splitScalar (byte '\n')
            (carry ++ (value :: rest).take n)).dropLast total).bind _ = _
          rw [cut, splitScalar_lines readableRead solid', List.dropLast_concat,
            scanLines_text readableRead, Option.bind_some, if_neg (by omega), List.getLastD_concat,
            ih readableLeft behind solid' fewer, monthSum_append, add_assoc]

end Scans

/-!
## Runs
-/

/-- The file and the runtime on it. -/
structure World where
  ledger : Bytes
  runtime : UsageRuntime

/-- What may happen to them. A scan reads the file in pieces of any size. -/
inductive Action where
  | recordTurn (turn : RecordedTurn) (duration_ms : ℕ)
  | monthlyTotalUsd (now_secs : ℤ) (reads : ℕ → ℕ)
  | restart

/-- A call, which may trap, or a restart with a fresh runtime. -/
def step (path : Bytes) : Machine World Action
  | world, .recordTurn turn duration_ms =>
      (recordTurn world.runtime world.ledger turn.model turn.input_tokens turn.output_tokens turn.cost
        duration_ms turn.timestamp).map fun (runtime, ledger) => ⟨ledger, runtime⟩
  | world, .monthlyTotalUsd now_secs reads =>
      (monthlyTotalUsd world.runtime world.ledger reads now_secs).map fun (_, runtime) =>
        { world with runtime }
  | world, .restart => some { world with runtime := initWithCostPersistence path }

def World.initial (path : Bytes) : World :=
  { ledger := [], runtime := initWithCostPersistence path }

/-- The turn that an action records. -/
def Action.recorded? : Action → Option RecordedTurn
  | .recordTurn turn _ => some turn
  | _ => none

def recorded (actions : List Action) : List RecordedTurn :=
  actions.filterMap Action.recorded?

def Legible (_ : World) (action : Action) : Prop :=
  ∀ turn ∈ action.recorded?, Readable turn

/-- The file holds the turns, and the cache what those of its month have cost. -/
structure Agrees (path : Bytes) (turns : List RecordedTurn) (world : World) : Prop where
  readable : ∀ turn ∈ turns, Readable turn
  ledger : world.ledger = turns.flatMap RecordedTurn.line
  path : world.runtime.cost_jsonl_path = some path
  cache : ∀ ordinal, world.runtime.cached_month_ordinal = some ordinal →
    world.runtime.cached_month_total_usd = monthSum ordinal turns

section Runs

variable {path : Bytes} {turns : List RecordedTurn} {world next : World} {now_secs : ℤ}
  {reads : ℕ → ℕ}

theorem monthTotal_eq {target_ym : ℤ} (readable : ∀ turn ∈ turns, Readable turn)
    (ordinal : yearMonthOrdinal now_secs = some target_ym) :
    monthTotal now_secs turns = monthSum target_ym turns := by
  have same : ∀ turn ∈ turns, (SameMonth now_secs turn.timestamp ↔
      yearMonthOrdinal turn.timestamp = some target_ym) :=
    fun turn mem => sameMonth_iff ordinal (readable turn mem).after
  rw [monthTotal, monthSum]
  congr 2
  apply List.filter_congr
  intro turn mem
  simp only [same turn mem]

theorem Agrees.answers {target_ym : ℤ} (agrees : Agrees path turns world)
    (ordinal : yearMonthOrdinal now_secs = some target_ym) :
    ∃ runtime, monthlyTotalUsd world.runtime world.ledger reads now_secs =
        some (monthSum target_ym turns, runtime) ∧
      Agrees path turns { world with runtime } := by
  rw [monthlyTotalUsd, ordinal]
  simp only [Option.bind_eq_bind, Option.bind_some]
  by_cases cached : world.runtime.cached_month_ordinal = some target_ym
  · rw [if_pos cached, agrees.cache target_ym cached]
    exact ⟨world.runtime, rfl, agrees⟩
  · have scan : scanMonthlyTotalFromLedger world.ledger reads target_ym =
        some (monthSum target_ym turns) := by
      have whole : [] ++ world.ledger = turns.flatMap RecordedTurn.line := agrees.ledger
      rw [scanMonthlyTotalFromLedger, scanLoop_lines agrees.readable whole List.not_mem_nil
        (Nat.lt_succ_self _), zero_add]
    rw [if_neg cached, agrees.path, scan]
    refine ⟨_, rfl, agrees.readable, agrees.ledger, rfl, ?_⟩
    intro other same
    cases same
    rfl

theorem addToCachedMonthLocked_spec {runtime runtime' : UsageRuntime} {timestamp_secs : ℤ} {cost : ℕ}
    (added : addToCachedMonthLocked runtime timestamp_secs cost = some runtime') :
    runtime'.cost_jsonl_path = runtime.cost_jsonl_path ∧
      runtime'.cached_month_ordinal = runtime.cached_month_ordinal ∧
      ∀ ordinal, runtime.cached_month_ordinal = some ordinal →
        runtime'.cached_month_total_usd = runtime.cached_month_total_usd +
          if yearMonthOrdinal timestamp_secs = some ordinal then usd cost else 0 := by
  rw [addToCachedMonthLocked] at added
  cases month : runtime.cached_month_ordinal with
  | none =>
      rw [month] at added
      cases added
      exact ⟨rfl, month, nofun⟩
  | some cached_month =>
      rw [month] at added
      simp only [Option.bind_eq_bind, Option.bind_eq_some_iff] at added
      rcases added with ⟨turn_month, ordinal, added⟩
      split at added
      · rename_i same
        cases added
        refine ⟨rfl, rfl, ?_⟩
        rintro _ ⟨rfl⟩
        rw [ordinal, same, if_pos rfl]
      · rename_i other
        cases added
        refine ⟨rfl, month, ?_⟩
        rintro _ ⟨rfl⟩
        have apart : some turn_month ≠ some cached_month := by simpa using Ne.symm other
        rw [ordinal, if_neg apart, add_zero]

theorem recordTurn_spec {runtime runtime' : UsageRuntime} {ledger ledger' : Bytes}
    {turn : RecordedTurn} {duration_ms : ℕ} (configured : runtime.cost_jsonl_path = some path)
    (short : turn.line.length ≤ 512)
    (result : recordTurn runtime ledger turn.model turn.input_tokens turn.output_tokens turn.cost
      duration_ms turn.timestamp = some (runtime', ledger')) :
    ledger' = ledger ++ turn.line ∧ runtime'.cost_jsonl_path = some path ∧
      runtime'.cached_month_ordinal = runtime.cached_month_ordinal ∧
      ∀ ordinal, runtime.cached_month_ordinal = some ordinal →
        runtime'.cached_month_total_usd = runtime.cached_month_total_usd +
          if yearMonthOrdinal turn.timestamp = some ordinal then usd turn.cost else 0 := by
  have persists : persistTurnToJsonlLocked ledger turn.model turn.input_tokens turn.output_tokens
      turn.cost turn.timestamp = some (ledger ++ turn.line) := if_pos short
  simp only [recordTurn, Option.bind_eq_bind, Option.bind_eq_some_iff] at result
  rcases result with ⟨input, -, output, -, total, -, session, -, index, -, result⟩
  rw [configured] at result
  dsimp only at result
  rw [persists] at result
  rcases Option.map_eq_some_iff.mp result with ⟨cached, added, same⟩
  cases same
  exact ⟨rfl, addToCachedMonthLocked_spec added⟩

theorem Agrees.recordTurn {turn : RecordedTurn} {duration_ms : ℕ} (agrees : Agrees path turns world)
    (readable : Readable turn)
    (stepped : step path world (.recordTurn turn duration_ms) = some next) :
    Agrees path (turns ++ [turn]) next := by
  rcases Option.map_eq_some_iff.mp stepped with ⟨⟨runtime, ledger⟩, result, rfl⟩
  rcases recordTurn_spec agrees.path readable.short result with ⟨rfl, configured, month, total⟩
  refine ⟨?_, ?_, configured, ?_⟩
  · intro other mem
    rcases List.mem_append.mp mem with earlier | last
    · exact agrees.readable other earlier
    · rw [List.mem_singleton.mp last]
      exact readable
  · rw [agrees.ledger, List.flatMap_append, List.flatMap_singleton]
  · intro ordinal cached
    have cached' : world.runtime.cached_month_ordinal = some ordinal := month ▸ cached
    have single : monthSum ordinal [turn] =
        if yearMonthOrdinal turn.timestamp = some ordinal then usd turn.cost else 0 := by
      rw [monthSum]
      split
      · rename_i same
        simp [same]
      · rename_i other
        simp [other]
    rw [monthSum_append, single, ← agrees.cache ordinal cached']
    exact total ordinal cached'

theorem Agrees.step {action : Action} (agrees : Agrees path turns world)
    (legible : Legible world action) (stepped : step path world action = some next) :
    Agrees path (turns ++ recorded [action]) next := by
  cases action with
  | recordTurn turn duration_ms => exact agrees.recordTurn (legible turn rfl) stepped
  | monthlyTotalUsd now_secs reads =>
      have none : recorded [Action.monthlyTotalUsd now_secs reads] = [] := rfl
      rw [none, List.append_nil]
      rcases Option.map_eq_some_iff.mp stepped with ⟨⟨total, runtime⟩, answer, rfl⟩
      have known : ∃ target_ym, yearMonthOrdinal now_secs = some target_ym := by
        rw [monthlyTotalUsd, Option.bind_eq_bind, Option.bind_eq_some_iff] at answer
        rcases answer with ⟨target_ym, ordinal, -⟩
        exact ⟨target_ym, ordinal⟩
      rcases known with ⟨target_ym, ordinal⟩
      have answers : ∃ runtime, monthlyTotalUsd world.runtime world.ledger reads now_secs =
          some (monthSum target_ym turns, runtime) ∧ Agrees path turns { world with runtime } :=
        agrees.answers ordinal
      rcases answers with ⟨runtime', answer', agrees'⟩
      rw [answer'] at answer
      cases answer
      exact agrees'
  | restart =>
      have none : recorded [Action.restart] = [] := rfl
      rw [none, List.append_nil]
      cases stepped
      exact ⟨agrees.readable, agrees.ledger, rfl, nofun⟩

end Runs

/-- After every run in which all turns are readable, the costs of every month are answered, and are
those of the turns recorded in it. -/
theorem monthly_total_agrees (path : Bytes) (actions : List Action) (final : World)
    (legible : Machine.Meets (step path) Legible (World.initial path) actions)
    (reached : Machine.run (step path) (World.initial path) actions = some final) (now_secs : ℤ)
    (before : now_secs < yearLimit) (reads : ℕ → ℕ) :
    ∃ runtime, monthlyTotalUsd final.runtime final.ledger reads now_secs =
      some (monthTotal now_secs (recorded actions), runtime) := by
  have agrees : Agrees path (recorded actions) final := by
    refine Machine.run_induction_of_meets
      (motive := fun taken world => Agrees path (recorded taken) world) ?_ ?_ legible reached
    · exact ⟨nofun, rfl, rfl, nofun⟩
    · intro taken world action next _ agrees legible stepped
      have more : recorded (taken ++ [action]) = recorded taken ++ recorded [action] :=
        List.filterMap_append
      rw [more]
      exact agrees.step legible stepped
  rcases exists_yearMonthOrdinal before with ⟨target_ym, ordinal⟩
  rcases agrees.answers ordinal with ⟨runtime, answer, -⟩
  rw [monthTotal_eq agrees.readable ordinal]
  exact ⟨runtime, answer⟩

theorem monthly_total_agrees_gpt :
    ∃ final, Machine.run (step (ascii "cost.jsonl")) (World.initial (ascii "cost.jsonl"))
        [.recordTurn ⟨ascii "gpt", 1, 2, 5, 0⟩ 7] = some final ∧
      ∃ runtime, monthlyTotalUsd final.runtime final.ledger id 0 =
        some (monthTotal 0 [⟨ascii "gpt", 1, 2, 5, 0⟩], runtime) := by
  have runs : (Machine.run (step (ascii "cost.jsonl")) (World.initial (ascii "cost.jsonl"))
      [.recordTurn ⟨ascii "gpt", 1, 2, 5, 0⟩ 7]).isSome = true := by decide
  have limit : (0 : ℤ) < yearLimit := by
    have years := years_le_yearStart 63566
    rw [yearLimit]
    omega
  rcases Option.isSome_iff_exists.mp runs with ⟨final, reached⟩
  have legible : Machine.Meets (step (ascii "cost.jsonl")) Legible
      (World.initial (ascii "cost.jsonl")) [.recordTurn ⟨ascii "gpt", 1, 2, 5, 0⟩ 7] := by
    refine ⟨?_, fun _ _ => trivial⟩
    intro turn known
    rw [← Option.mem_some.mp known]
    exact ⟨by decide, by decide, by decide, by decide, by decide, limit⟩
  exact ⟨final, reached, monthly_total_agrees _ _ final legible reached 0 limit id⟩

/-- The name of a model may hold a cost that is read in place of the turn's own. -/
theorem not_monthly_total :
    ¬∀ (path : Bytes) (actions : List Action) (final : World),
      Machine.run (step path) (World.initial path) actions = some final →
      ∀ (now_secs : ℤ) (reads : ℕ → ℕ), now_secs < yearLimit →
        ∃ runtime, monthlyTotalUsd final.runtime final.ledger reads now_secs =
          some (monthTotal now_secs (recorded actions), runtime) := by
  intro claim
  let turn : RecordedTurn := ⟨ascii "\",\"cost_usd\":5,\"", 1, 2, 0, 0⟩
  have runs : ((Machine.run (step []) (World.initial []) [.recordTurn turn 7]).bind fun final =>
      (monthlyTotalUsd final.runtime final.ledger id 0).map Prod.fst) = some 5 := by
    decide +kernel
  have limit : (0 : ℤ) < yearLimit := by
    have years := years_le_yearStart 63566
    rw [yearLimit]
    omega
  rcases Option.bind_eq_some_iff.mp runs with ⟨final, reached, answer⟩
  rcases claim [] [.recordTurn turn 7] final reached 0 id limit with ⟨runtime, answer'⟩
  rw [answer', Option.map_some, Option.some_inj] at answer
  have nothing : monthTotal 0 [turn] = 0 := by
    apply List.sum_eq_zero
    intro cost mem
    rcases List.mem_map.mp mem with ⟨other, known, rfl⟩
    rw [List.mem_singleton.mp (List.mem_filter.mp known).1]
    simp [turn, usd]
  have different : monthTotal 0 [turn] = 5 := answer
  rw [nothing] at different
  norm_num at different

end Nullalis.Usage
