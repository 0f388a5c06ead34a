import Nullalis.Base.Bytes

/-!
# Cron expressions

The parser of cron expressions, the calendar test for one minute, and the search for the
next matching minute. Times are unbounded integers: the additions of the source trap
when they leave the range of `i64`, which no clock reaches.

A table of booleans is the predicate on its indices, and every loop of the source is a
recursion on the number of rounds it can take.
-/

namespace Nullalis.Cron

/-- The errors of the scheduler's operations. -/
inductive CronError where
  | EmptyDelay
  | UnknownDurationUnit
  | InvalidDurationNumber
  | DurationTooLarge
  | InvalidCronExpression
  | NoFutureRunFound
  | MaxTasksReached
  | OutOfMemory
deriving DecidableEq

def fieldBlanks : Bytes := ascii " \t"

def expressionBlanks : Bytes := ascii " \t\r\n"

/-- A table of booleans, false wherever nothing was entered. -/
abbrev BoolTable := ℕ → Bool

def BoolTable.set (table : BoolTable) (index : ℕ) : BoolTable :=
  fun other => other == index || table other

/-- The fields of an expression, each as the table of the values it admits. -/
structure ParsedCronExpression where
  minutes : BoolTable
  hours : BoolTable
  day_of_month : BoolTable
  months : BoolTable
  day_of_week : BoolTable
  day_of_month_any : Bool
  day_of_week_any : Bool

/-- One number of a field, within the field's range. -/
def parseCronRawValue (raw : Bytes) (min max : ℕ) (allow_sunday_7 : Bool) : Except CronError ℕ :=
  match Bytes.parseInt 0 255 (Bytes.trim fieldBlanks raw) with
  | none => .error .InvalidCronExpression
  | some value =>
      let max_allowed := if allow_sunday_7 then 7 else max
      if value < min ∨ max_allowed < value then .error .InvalidCronExpression
      else .ok value.toNat

def normalizeCronValue (raw_value : ℕ) (allow_sunday_7 : Bool) : ℕ :=
  if allow_sunday_7 ∧ raw_value = 7 then 0 else raw_value

/-- Enter `raw_value`, `raw_value + step`, … up to `end_raw`. The value is a `u8`, so it
grows at most 256 times; a step that overflows ends the loop. -/
def markRange (min max : ℕ) (allow_sunday_7 : Bool) (end_raw step : ℕ) :
    ℕ → ℕ → BoolTable × Bool → Except CronError (BoolTable × Bool)
  | 0, _, marked => .ok marked
  | rounds + 1, raw_value, (out, saw_value) =>
      if end_raw < raw_value then .ok (out, saw_value)
      else
        let normalized := normalizeCronValue raw_value allow_sunday_7
        if normalized < min ∨ max < normalized then .error .InvalidCronExpression
        else
          let marked := (out.set normalized, true)
          let next := raw_value + step
          if 255 < next ∨ next ≤ raw_value then .ok marked
          else markRange min max allow_sunday_7 end_raw step rounds next marked

/-- The range and the step of one comma-separated part of a field. -/
def parseCronPart (part : Bytes) (min max : ℕ) (allow_sunday_7 : Bool) :
    Except CronError (ℕ × ℕ × ℕ) := do
  let (range_part, step) ←
    match Bytes.indexOfScalar (byte '/') part with
    | none => pure (part, 1)
    | some slash_idx =>
        let range_part := Bytes.trim fieldBlanks (part.take slash_idx)
        let step_raw := Bytes.trim fieldBlanks (part.drop (slash_idx + 1))
        if range_part.isEmpty ∨ step_raw.isEmpty then throw .InvalidCronExpression
        else match Bytes.parseInt 0 255 step_raw with
          | none => throw .InvalidCronExpression
          | some step =>
              if step = 0 then throw .InvalidCronExpression else pure (range_part, step.toNat)
  if range_part = ascii "*" then pure (min, max, step)
  else match Bytes.indexOfScalar (byte '-') range_part with
    | some dash_idx =>
        let start_part := Bytes.trim fieldBlanks (range_part.take dash_idx)
        let end_part := Bytes.trim fieldBlanks (range_part.drop (dash_idx + 1))
        if start_part.isEmpty ∨ end_part.isEmpty then throw .InvalidCronExpression
        else
          let start_raw ← parseCronRawValue start_part min max allow_sunday_7
          let end_raw ← parseCronRawValue end_part min max allow_sunday_7
          if end_raw < start_raw then throw .InvalidCronExpression
          else pure (start_raw, end_raw, step)
    | none =>
        let start_raw ← parseCronRawValue range_part min max allow_sunday_7
        pure (start_raw, start_raw, step)

/-- Enter the values of every part of a field. -/
def parseCronParts (min max : ℕ) (allow_sunday_7 : Bool) :
    List Bytes → BoolTable × Bool → Except CronError (BoolTable × Bool)
  | [], marked => .ok marked
  | part_raw :: rest, marked => do
      let part := Bytes.trim fieldBlanks part_raw
      if part.isEmpty then throw .InvalidCronExpression
      else
        let (start_raw, end_raw, step) ← parseCronPart part min max allow_sunday_7
        let marked ← markRange min max allow_sunday_7 end_raw step 256 start_raw marked
        parseCronParts min max allow_sunday_7 rest marked

/-- The table of a field, and whether the field is a bare star. -/
def parseCronField (raw_field : Bytes) (min max : ℕ) (allow_sunday_7 : Bool) :
    Except CronError (BoolTable × Bool) := do
  let field := Bytes.trim fieldBlanks raw_field
  if field.isEmpty then throw .InvalidCronExpression
  else
    let is_any := field == ascii "*"
    let (out, saw_value) ←
      parseCronParts min max allow_sunday_7 (Bytes.splitScalar (byte ',') field) (fun _ => false, false)
    if saw_value then pure (out, is_any) else throw .InvalidCronExpression

/-- Parse five fields, or six with seconds in front, or seven with a year behind. The
seconds and the year are not looked at. -/
def parseCronExpression (expression : Bytes) : Except CronError ParsedCronExpression := do
  let trimmed := Bytes.trim expressionBlanks expression
  let (minute_field, hour_field, dom_field, month_field, dow_field) ←
    match Bytes.tokenizeAny expressionBlanks trimmed with
    | [minute, hour, dom, month, dow] => pure (minute, hour, dom, month, dow)
    | [_, minute, hour, dom, month, dow] => pure (minute, hour, dom, month, dow)
    | [_, minute, hour, dom, month, dow, _] => pure (minute, hour, dom, month, dow)
    | _ => throw .InvalidCronExpression
  let (minutes, _) ← parseCronField minute_field 0 59 false
  let (hours, _) ← parseCronField hour_field 0 23 false
  let (day_of_month, day_of_month_any) ← parseCronField dom_field 1 31 false
  let (months, _) ← parseCronField month_field 1 12 false
  let (day_of_week, day_of_week_any) ← parseCronField dow_field 0 6 true
  pure { minutes, hours, day_of_month, months, day_of_week, day_of_month_any, day_of_week_any }

/-- What `addJob` checks before it searches: five to seven fields. The source also answers
the trimmed text, which its only caller ignores. -/
def normalizeExpression (expression : Bytes) : Except CronError Unit :=
  let trimmed := Bytes.trim expressionBlanks expression
  let field_count := (Bytes.tokenizeAny fieldBlanks trimmed).length
  if 5 ≤ field_count ∧ field_count ≤ 7 then .ok () else .error .InvalidCronExpression

/-!
## The calendar

`std.time.epoch`: the day number counts from 1970-01-01, a Thursday.
-/

def isLeapYear (year : ℕ) : Bool :=
  if year % 4 ≠ 0 then false else if year % 100 ≠ 0 then true else year % 400 = 0

def getDaysInYear (year : ℕ) : ℕ :=
  if isLeapYear year then 366 else 365

/-- Days of a month, numbered from 1. -/
def getDaysInMonth (year month : ℕ) : ℕ :=
  if month = 2 then (if isLeapYear year then 29 else 28)
  else if month = 4 ∨ month = 6 ∨ month = 9 ∨ month = 11 then 30 else 31

/-- The year from `year` on in which a day falls, and the day in it. Every round takes a
whole year off, so a day number is enough rounds. -/
def calculateYearDay : ℕ → ℕ → ℕ → ℕ × ℕ
  | 0, year, day => (year, day)
  | rounds + 1, year, day =>
      if day < getDaysInYear year then (year, day)
      else calculateYearDay rounds (year + 1) (day - getDaysInYear year)

/-- The month from `month` on in which a day of the year falls, and the day in it. -/
def calculateMonthDay (year : ℕ) : ℕ → ℕ → ℕ → ℕ × ℕ
  | 0, month, days_left => (month, days_left)
  | rounds + 1, month, days_left =>
      if days_left < getDaysInMonth year month then (month, days_left)
      else calculateMonthDay year rounds (month + 1) (days_left - getDaysInMonth year month)

/-- Does the minute that starts at `ts` match every field? -/
def cronExpressionMatches (parsed : ParsedCronExpression) (ts : ℤ) : Bool :=
  if ts < 0 then false
  else
    let secs := ts.toNat
    let epoch_day := secs / 86400
    let day_seconds := secs % 86400
    let (year, year_day) := calculateYearDay epoch_day 1970 epoch_day
    let (month, day_index) := calculateMonthDay year 11 1 year_day
    let minute := day_seconds % 3600 / 60
    let hour := day_seconds / 3600
    let day_of_month := day_index + 1
    let day_of_week := (epoch_day + 4) % 7
    if !parsed.minutes minute then false
    else if !parsed.hours hour then false
    else if !parsed.months month then false
    else
      let dom_match := parsed.day_of_month day_of_month
      let dow_match := parsed.day_of_week day_of_week
      if parsed.day_of_month_any && parsed.day_of_week_any then true
      else if parsed.day_of_month_any then dow_match
      else if parsed.day_of_week_any then dom_match
      else dom_match || dow_match

/-!
## The next run
-/

def MAX_CRON_LOOKAHEAD_MINUTES : ℕ := 8 * 366 * 24 * 60

/-- The first whole minute after `from_secs`, and not before the epoch. -/
def alignToNextMinute (from_secs : ℤ) : ℤ :=
  let start := max (from_secs + 1) 0
  let rem := start % 60
  if rem = 0 then start else start + (60 - rem)

/-- The first match among `rounds` minutes from `candidate` on. -/
def searchMatch (parsed : ParsedCronExpression) : ℕ → ℤ → Except CronError ℤ
  | 0, _ => .error .NoFutureRunFound
  | rounds + 1, candidate =>
      if cronExpressionMatches parsed candidate then .ok candidate
      else searchMatch parsed rounds (candidate + 60)

/-- The next time after `from_secs` at which a job with this expression is due. -/
def nextRunForCronExpression (expression : Bytes) (from_secs : ℤ) : Except CronError ℤ := do
  let parsed ← parseCronExpression expression
  searchMatch parsed MAX_CRON_LOOKAHEAD_MINUTES (alignToNextMinute from_secs)

theorem lt_alignToNextMinute (from_secs : ℤ) : from_secs < alignToNextMinute from_secs := by
  simp only [alignToNextMinute]
  split <;> omega

theorem le_of_searchMatch {parsed : ParsedCronExpression} {rounds : ℕ} {candidate found : ℤ}
    (search : searchMatch parsed rounds candidate = .ok found) : candidate ≤ found := by
  induction rounds generalizing candidate with
  | zero => cases search
  | succ rounds ih =>
      unfold searchMatch at search
      split at search
      case isTrue => exact Int.le_of_eq (Except.ok.inj search)
      case isFalse =>
          have later := ih search
          omega

theorem lt_of_nextRunForCronExpression {expression : Bytes} {from_secs next : ℤ}
    (computed : nextRunForCronExpression expression from_secs = .ok next) : from_secs < next := by
  unfold nextRunForCronExpression at computed
  cases parsed : parseCronExpression expression with
  | error failure =>
      rw [parsed] at computed
      cases computed
  | ok fields =>
      rw [parsed] at computed
      exact Int.lt_of_lt_of_le (lt_alignToNextMinute from_secs) (le_of_searchMatch computed)

end Nullalis.Cron
