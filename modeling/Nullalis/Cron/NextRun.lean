import Nullalis.Base.Outcome
import Nullalis.Cron.Calendar

/-!
# The next run

A field of an expression admits the values of its parts, each a range with a step. The search for
the next run goes through the minutes one after the other, and the days that it covers hold every
date and every weekday that there is, so that it fails only if there is no match at all.
-/

namespace Nullalis.Cron

variable {min max : ℕ} {allow_sunday_7 : Bool}

/-!
## Fields
-/

/-- The value is one of `first`, `first + step`, … up to `last`. -/
def InRange (allow_sunday_7 : Bool) (first last step value : ℕ) : Prop :=
  ∃ times, first + times * step ≤ last ∧
    normalizeCronValue (first + times * step) allow_sunday_7 = value

/-- The field admits the value by one of its parts. -/
def Admits (raw_field : Bytes) (min max : ℕ) (allow_sunday_7 : Bool) (value : ℕ) : Prop :=
  ∃ part ∈ Bytes.splitScalar (byte ',') (Bytes.trim fieldBlanks raw_field),
    ∃ first last step,
      parseCronPart (Bytes.trim fieldBlanks part) min max allow_sunday_7 = .ok (first, last, step) ∧
        InRange allow_sunday_7 first last step value

theorem inRange_iff {first last step value : ℕ} (within : first ≤ last) :
    InRange allow_sunday_7 first last step value ↔
      normalizeCronValue first allow_sunday_7 = value ∨
        InRange allow_sunday_7 (first + step) last step value := by
  constructor
  · rintro ⟨times, bound, same⟩
    cases times with
    | zero => exact Or.inl (by simpa using same)
    | succ times =>
        have order : first + (times + 1) * step = first + step + times * step := by
          rw [Nat.succ_mul]
          omega
        rw [order] at bound same
        exact Or.inr ⟨times, bound, same⟩
  · rintro (here | ⟨times, bound, same⟩)
    · exact ⟨0, by simpa using within, by simpa using here⟩
    · have order : first + (times + 1) * step = first + step + times * step := by
        rw [Nat.succ_mul]
        omega
      exact ⟨times + 1, by rwa [order], by rwa [order]⟩

theorem not_inRange {first last step value : ℕ} (beyond : last < first) :
    ¬InRange allow_sunday_7 first last step value := by
  rintro ⟨times, bound, _⟩
  have more : 0 ≤ times * step := Nat.zero_le _
  omega

theorem markRange_spec {last step rounds raw_value : ℕ} {marked result : BoolTable × Bool}
    (positive : 1 ≤ step) (small : last ≤ 255) (enough : last < raw_value + rounds)
    (entered : markRange min max allow_sunday_7 last step rounds raw_value marked = .ok result)
    (value : ℕ) :
    result.1 value = true ↔
      marked.1 value = true ∨ InRange allow_sunday_7 raw_value last step value := by
  induction rounds generalizing raw_value marked with
  | zero =>
      cases entered
      have none : ¬InRange allow_sunday_7 raw_value last step value := not_inRange (by omega)
      simp [none]
  | succ rounds ih =>
      rw [markRange] at entered
      split at entered
      case isTrue beyond =>
        cases entered
        have none : ¬InRange allow_sunday_7 raw_value last step value := not_inRange beyond
        simp [none]
      case isFalse within =>
        dsimp only at entered
        split at entered
        case isTrue => cases entered
        case isFalse =>
          have set (table : BoolTable) (index : ℕ) :
              (table.set index) value = true ↔ index = value ∨ table value = true := by
            rw [BoolTable.set, Bool.or_eq_true, beq_iff_eq, eq_comm]
          rw [inRange_iff (by omega)]
          split at entered
          case isTrue ended =>
            cases entered
            have none : ¬InRange allow_sunday_7 (raw_value + step) last step value :=
              not_inRange (by omega)
            rw [set]
            simp only [none, or_false]
            exact or_comm
          case isFalse =>
            rw [ih (by omega) entered, set, or_assoc]
            exact or_left_comm

theorem bounds_of_parseInt {lowest highest value : ℤ} {raw : Bytes}
    (parsed : Bytes.parseInt lowest highest raw = some value) : lowest ≤ value ∧ value ≤ highest := by
  have within := (Option.filter_eq_some_iff.mp parsed).2
  simpa using within

theorem parseCronRawValue_le {raw : Bytes} {value : ℕ}
    (parsed : parseCronRawValue raw min max allow_sunday_7 = .ok value) : value ≤ 255 := by
  rw [parseCronRawValue] at parsed
  cases number : Bytes.parseInt 0 255 (Bytes.trim fieldBlanks raw) with
  | none =>
      rw [number] at parsed
      cases parsed
  | some read =>
      have bounds := bounds_of_parseInt number
      rw [number] at parsed
      by_cases outside : read < min ∨ ((if allow_sunday_7 = true then 7 else max : ℕ) : ℤ) < read
      · have refused : (Except.error .InvalidCronExpression : Except CronError ℕ) = .ok value :=
          (if_pos outside).symm.trans parsed
        cases refused
      · have same : (Except.ok read.toNat : Except CronError ℕ) = .ok value :=
          (if_neg outside).symm.trans parsed
        have number := Except.ok.inj same
        omega

/-- The range of a part and its step. -/
def parseCronStep (part : Bytes) : Except CronError (Bytes × ℕ) :=
  match Bytes.indexOfScalar (byte '/') part with
  | none => .ok (part, 1)
  | some slash_idx =>
      let range_part := Bytes.trim fieldBlanks (part.take slash_idx)
      let step_raw := Bytes.trim fieldBlanks (part.drop (slash_idx + 1))
      if range_part.isEmpty ∨ step_raw.isEmpty then .error .InvalidCronExpression
      else match Bytes.parseInt 0 255 step_raw with
        | none => .error .InvalidCronExpression
        | some step =>
            if step = 0 then .error .InvalidCronExpression else .ok (range_part, step.toNat)

/-- The first and the last value of a range. -/
def parseCronRange (range_part : Bytes) (min max : ℕ) (allow_sunday_7 : Bool) :
    Except CronError (ℕ × ℕ) :=
  if range_part = ascii "*" then .ok (min, max)
  else match Bytes.indexOfScalar (byte '-') range_part with
    | some dash_idx =>
        let start_part := Bytes.trim fieldBlanks (range_part.take dash_idx)
        let end_part := Bytes.trim fieldBlanks (range_part.drop (dash_idx + 1))
        if start_part.isEmpty ∨ end_part.isEmpty then .error .InvalidCronExpression
        else
          (parseCronRawValue start_part min max allow_sunday_7).bind fun start_raw =>
            (parseCronRawValue end_part min max allow_sunday_7).bind fun end_raw =>
              if end_raw < start_raw then .error .InvalidCronExpression
              else .ok (start_raw, end_raw)
    | none =>
        (parseCronRawValue range_part min max allow_sunday_7).bind fun start_raw =>
          .ok (start_raw, start_raw)

theorem parseCronPart_eq (part : Bytes) :
    parseCronPart part min max allow_sunday_7 =
      (parseCronStep part).bind fun range =>
        (parseCronRange range.1 min max allow_sunday_7).bind fun ends =>
          .ok (ends.1, ends.2, range.2) := by
  have rest (range_part : Bytes) (step : ℕ) :
      (if range_part = ascii "*" then pure (min, max, step)
        else match Bytes.indexOfScalar (byte '-') range_part with
          | some dash_idx =>
              let start_part := Bytes.trim fieldBlanks (range_part.take dash_idx)
              let end_part := Bytes.trim fieldBlanks (range_part.drop (dash_idx + 1))
              if start_part.isEmpty ∨ end_part.isEmpty then throw .InvalidCronExpression
              else do
                let start_raw ← parseCronRawValue start_part min max allow_sunday_7
                let end_raw ← parseCronRawValue end_part min max allow_sunday_7
                if end_raw < start_raw then throw .InvalidCronExpression
                else pure (start_raw, end_raw, step)
          | none => do
              let start_raw ← parseCronRawValue range_part min max allow_sunday_7
              pure (start_raw, start_raw, step) : Except CronError (ℕ × ℕ × ℕ)) =
        (parseCronRange range_part min max allow_sunday_7).bind fun ends =>
          .ok (ends.1, ends.2, step) := by
    rw [parseCronRange]
    split
    · rfl
    · split
      · rename_i dash_idx _
        dsimp only
        split
        · rfl
        · cases parseCronRawValue (Bytes.trim fieldBlanks (range_part.take dash_idx)) min max
              allow_sunday_7 with
          | error failure => rfl
          | ok start_raw =>
              cases parseCronRawValue
                  (Bytes.trim fieldBlanks (range_part.drop (dash_idx + 1))) min max
                  allow_sunday_7 with
              | error failure => rfl
              | ok end_raw =>
                  change (if end_raw < start_raw then _ else _) =
                    Except.bind (if end_raw < start_raw then _ else _) _
                  split <;> rfl
      · cases parseCronRawValue range_part min max allow_sunday_7 <;> rfl
  rw [parseCronPart, parseCronStep]
  cases Bytes.indexOfScalar (byte '/') part with
  | none => exact rest part 1
  | some slash_idx =>
      dsimp only
      split
      · rfl
      · cases Bytes.parseInt 0 255 (Bytes.trim fieldBlanks (part.drop (slash_idx + 1))) with
        | none => rfl
        | some step =>
            dsimp only
            split
            · rfl
            · exact rest _ _

theorem parseCronStep_positive {part range_part : Bytes} {step : ℕ}
    (parsed : parseCronStep part = .ok (range_part, step)) : 1 ≤ step := by
  rw [parseCronStep] at parsed
  split at parsed
  · cases parsed
    exact Nat.le_refl 1
  · dsimp only at parsed
    split at parsed
    · cases parsed
    · split at parsed
      · cases parsed
      · rename_i number
        have bounds := bounds_of_parseInt number
        split at parsed
        · cases parsed
        · cases parsed
          omega

theorem parseCronRange_le {range_part : Bytes} {first last : ℕ} (small : max ≤ 255)
    (parsed : parseCronRange range_part min max allow_sunday_7 = .ok (first, last)) :
    last ≤ 255 := by
  rw [parseCronRange] at parsed
  split at parsed
  · cases parsed
    exact small
  · split at parsed
    · dsimp only at parsed
      split at parsed
      · cases parsed
      · rcases Outcome.bind_ok parsed with ⟨start_raw, _, rest⟩
        rcases Outcome.bind_ok rest with ⟨end_raw, high, ordered⟩
        split at ordered
        · cases ordered
        · cases ordered
          exact parseCronRawValue_le high
    · rcases Outcome.bind_ok parsed with ⟨start_raw, low, same⟩
      cases same
      exact parseCronRawValue_le low

theorem parseCronPart_bounds {part : Bytes} {first last step : ℕ} (small : max ≤ 255)
    (parsed : parseCronPart part min max allow_sunday_7 = .ok (first, last, step)) :
    1 ≤ step ∧ last ≤ 255 := by
  rw [parseCronPart_eq] at parsed
  rcases Outcome.bind_ok parsed with ⟨range, stepped, rest⟩
  rcases Outcome.bind_ok rest with ⟨ends, ranged, same⟩
  cases same
  exact ⟨parseCronStep_positive stepped, parseCronRange_le small ranged⟩

/-- A table holds what the field admits. -/
theorem parseCronParts_spec {parts : List Bytes} {marked result : BoolTable × Bool}
    (small : max ≤ 255) (parsed : parseCronParts min max allow_sunday_7 parts marked = .ok result)
    (value : ℕ) :
    result.1 value = true ↔ marked.1 value = true ∨ ∃ part ∈ parts, ∃ first last step,
      parseCronPart (Bytes.trim fieldBlanks part) min max allow_sunday_7 = .ok (first, last, step) ∧
        InRange allow_sunday_7 first last step value := by
  induction parts generalizing marked with
  | nil =>
      cases parsed
      simp
  | cons part rest ih =>
      rw [parseCronParts] at parsed
      dsimp only at parsed
      split at parsed
      case isTrue => cases parsed
      case isFalse =>
        cases ranged : parseCronPart (Bytes.trim fieldBlanks part) min max allow_sunday_7 with
        | error failure =>
            rw [ranged] at parsed
            cases parsed
        | ok range =>
            rcases range with ⟨first, last, step⟩
            rw [ranged] at parsed
            change (markRange min max allow_sunday_7 last step 256 first marked).bind _ = _ at parsed
            cases entered : markRange min max allow_sunday_7 last step 256 first marked with
            | error failure =>
                rw [entered] at parsed
                cases parsed
            | ok middle =>
                rw [entered] at parsed
                have bounds := parseCronPart_bounds small ranged
                have here := markRange_spec bounds.1 bounds.2 (by omega) entered value
                simp only [ih parsed, here, or_assoc, List.mem_cons, exists_eq_or_imp]
                refine or_congr_right (or_congr_left ?_)
                constructor
                · intro inside
                  exact ⟨first, last, step, ranged, inside⟩
                · rintro ⟨first', last', step', ranged', inside⟩
                  rw [ranged] at ranged'
                  cases ranged'
                  exact inside

def IsStar (raw_field : Bytes) : Prop :=
  Bytes.trim fieldBlanks raw_field = ascii "*"

theorem parseCronField_spec {raw_field : Bytes} {table : BoolTable} {any : Bool}
    (small : max ≤ 255) (parsed : parseCronField raw_field min max allow_sunday_7 = .ok (table, any)) :
    (∀ value, table value = true ↔ Admits raw_field min max allow_sunday_7 value) ∧
      (any = true ↔ IsStar raw_field) := by
  rw [parseCronField] at parsed
  dsimp only at parsed
  split at parsed
  case isTrue => cases parsed
  case isFalse =>
    cases entered : parseCronParts min max allow_sunday_7
        (Bytes.splitScalar (byte ',') (Bytes.trim fieldBlanks raw_field))
        (fun _ => false, false) with
    | error failure =>
        rw [entered] at parsed
        cases parsed
    | ok result =>
        rw [entered] at parsed
        change (if result.2 = true then
          (pure (result.1, Bytes.trim fieldBlanks raw_field == ascii "*") :
            Except CronError (BoolTable × Bool)) else _) = _ at parsed
        split at parsed
        case isFalse => cases parsed
        case isTrue =>
          cases parsed
          refine ⟨fun value => ?_, by simp [IsStar]⟩
          rw [parseCronParts_spec small entered value]
          simp [Admits]

/-!
## Expressions
-/

/-- The texts of the fields of an expression. -/
structure CronFields where
  minute : Bytes
  hour : Bytes
  day_of_month : Bytes
  month : Bytes
  day_of_week : Bytes

/-- Five fields, or six with seconds in front, or seven with a year behind. -/
def cronFields (expression : Bytes) : Option CronFields :=
  match Bytes.tokenizeAny expressionBlanks (Bytes.trim expressionBlanks expression) with
  | [minute, hour, dom, month, dow] => some ⟨minute, hour, dom, month, dow⟩
  | [_, minute, hour, dom, month, dow] => some ⟨minute, hour, dom, month, dow⟩
  | [_, minute, hour, dom, month, dow, _] => some ⟨minute, hour, dom, month, dow⟩
  | _ => none

namespace CronFields

/-- Does the day match? If both fields of the day restrict it, one of them is enough. -/
def MatchesDay (fields : CronFields) (epoch_day : ℕ) : Prop :=
  (IsStar fields.day_of_month ∧ IsStar fields.day_of_week) ∨
    (¬IsStar fields.day_of_month ∧
      Admits fields.day_of_month 1 31 false (dateOf epoch_day).2) ∨
    (¬IsStar fields.day_of_week ∧ Admits fields.day_of_week 0 6 true (weekdayOf epoch_day))

/-- Does the minute that starts at a time match all fields? -/
structure Matches (fields : CronFields) (ts : ℤ) : Prop where
  nonnegative : 0 ≤ ts
  minute : Admits fields.minute 0 59 false (ts.toNat % 86400 % 3600 / 60)
  hour : Admits fields.hour 0 23 false (ts.toNat % 86400 / 3600)
  month : Admits fields.month 1 12 false (dateOf (ts.toNat / 86400)).1
  day : fields.MatchesDay (ts.toNat / 86400)

end CronFields

/-- The expression has fields, and the minute that starts at the time matches all of them. -/
def MatchesExpression (expression : Bytes) (ts : ℤ) : Prop :=
  ∃ fields, cronFields expression = some fields ∧ fields.Matches ts

/-- What an expression is read as. -/
structure ReadAs (fields : CronFields) (parsed : ParsedCronExpression) : Prop where
  minutes : ∀ value, parsed.minutes value = true ↔ Admits fields.minute 0 59 false value
  hours : ∀ value, parsed.hours value = true ↔ Admits fields.hour 0 23 false value
  day_of_month : ∀ value,
    parsed.day_of_month value = true ↔ Admits fields.day_of_month 1 31 false value
  months : ∀ value, parsed.months value = true ↔ Admits fields.month 1 12 false value
  day_of_week : ∀ value,
    parsed.day_of_week value = true ↔ Admits fields.day_of_week 0 6 true value
  day_of_month_any : parsed.day_of_month_any = true ↔ IsStar fields.day_of_month
  day_of_week_any : parsed.day_of_week_any = true ↔ IsStar fields.day_of_week

/-- The fields are read one after the other. -/
def parseCronFields (fields : CronFields) : Except CronError ParsedCronExpression := do
  let (minutes, _) ← parseCronField fields.minute 0 59 false
  let (hours, _) ← parseCronField fields.hour 0 23 false
  let (day_of_month, day_of_month_any) ← parseCronField fields.day_of_month 1 31 false
  let (months, _) ← parseCronField fields.month 1 12 false
  let (day_of_week, day_of_week_any) ← parseCronField fields.day_of_week 0 6 true
  pure { minutes, hours, day_of_month, months, day_of_week, day_of_month_any, day_of_week_any }

theorem parseCronExpression_eq (expression : Bytes) :
    parseCronExpression expression =
      (cronFields expression).elim (.error .InvalidCronExpression) parseCronFields := by
  rw [parseCronExpression, cronFields]
  dsimp only
  generalize Bytes.tokenizeAny expressionBlanks (Bytes.trim expressionBlanks expression) = tokens
  rcases tokens with _ | ⟨_, _ | ⟨_, _ | ⟨_, _ | ⟨_, _ | ⟨_, _ | ⟨_, _ | ⟨_, _ | ⟨_, _⟩⟩⟩⟩⟩⟩⟩⟩ <;> rfl

theorem readAs_of_parseCronFields {fields : CronFields} {parsed : ParsedCronExpression}
    (read : parseCronFields fields = .ok parsed) : ReadAs fields parsed := by
  rw [parseCronFields] at read
  cases minute : parseCronField fields.minute 0 59 false with
  | error failure => rw [minute] at read; cases read
  | ok minutes =>
  cases hour : parseCronField fields.hour 0 23 false with
  | error failure => rw [minute, hour] at read; cases read
  | ok hours =>
  cases dom : parseCronField fields.day_of_month 1 31 false with
  | error failure => rw [minute, hour, dom] at read; cases read
  | ok day_of_month =>
  cases month : parseCronField fields.month 1 12 false with
  | error failure => rw [minute, hour, dom, month] at read; cases read
  | ok months =>
  cases dow : parseCronField fields.day_of_week 0 6 true with
  | error failure => rw [minute, hour, dom, month, dow] at read; cases read
  | ok day_of_week =>
  rw [minute, hour, dom, month, dow] at read
  cases read
  have minutes := parseCronField_spec (by decide) minute
  have hours := parseCronField_spec (by decide) hour
  have day_of_month := parseCronField_spec (by decide) dom
  have months := parseCronField_spec (by decide) month
  have day_of_week := parseCronField_spec (by decide) dow
  exact ⟨minutes.1, hours.1, day_of_month.1, months.1, day_of_week.1, day_of_month.2,
    day_of_week.2⟩

/-- The tables match the minutes that the fields match. -/
theorem cronExpressionMatches_iff {fields : CronFields} {parsed : ParsedCronExpression}
    (read : ReadAs fields parsed) (ts : ℤ) :
    cronExpressionMatches parsed ts = true ↔ fields.Matches ts := by
  have day : (if parsed.day_of_month_any && parsed.day_of_week_any then true
      else if parsed.day_of_month_any then parsed.day_of_week (weekdayOf (ts.toNat / 86400))
      else if parsed.day_of_week_any then parsed.day_of_month (dateOf (ts.toNat / 86400)).2
      else parsed.day_of_month (dateOf (ts.toNat / 86400)).2 ||
        parsed.day_of_week (weekdayOf (ts.toNat / 86400))) = true ↔
      fields.MatchesDay (ts.toNat / 86400) := by
    rw [CronFields.MatchesDay, ← read.day_of_month_any, ← read.day_of_week_any,
      ← read.day_of_month, ← read.day_of_week]
    cases parsed.day_of_month_any <;> cases parsed.day_of_week_any <;> simp
  by_cases negative : ts < 0
  · rw [cronExpressionMatches, if_pos negative]
    constructor
    · intro matched
      cases matched
    · intro matched
      have nonnegative := matched.nonnegative
      omega
  · have whole : cronExpressionMatches parsed ts =
        (parsed.minutes (ts.toNat % 86400 % 3600 / 60) &&
          (parsed.hours (ts.toNat % 86400 / 3600) &&
            (parsed.months (dateOf (ts.toNat / 86400)).1 &&
              if parsed.day_of_month_any && parsed.day_of_week_any then true
              else if parsed.day_of_month_any then
                parsed.day_of_week (weekdayOf (ts.toNat / 86400))
              else if parsed.day_of_week_any then
                parsed.day_of_month (dateOf (ts.toNat / 86400)).2
              else parsed.day_of_month (dateOf (ts.toNat / 86400)).2 ||
                parsed.day_of_week (weekdayOf (ts.toNat / 86400))))) := by
      rw [cronExpressionMatches, if_neg negative]
      simp only [dateOf, weekdayOf]
      cases parsed.minutes (ts.toNat % 86400 % 3600 / 60) <;>
        cases parsed.hours (ts.toNat % 86400 / 3600) <;> simp
    rw [whole, Bool.and_eq_true, Bool.and_eq_true, Bool.and_eq_true, day, read.minutes, read.hours,
      read.months]
    constructor
    · intro matched
      exact ⟨by omega, matched.1, matched.2.1, matched.2.2.1, matched.2.2.2⟩
    · intro matched
      exact ⟨matched.minute, matched.hour, matched.month, matched.day⟩

/-!
## The search
-/

section Search

variable {parsed : ParsedCronExpression} {rounds : ℕ} {candidate found : ℤ}

theorem searchMatch_ok (search : searchMatch parsed rounds candidate = .ok found) :
    ∃ index : ℕ, found = candidate + 60 * index ∧ cronExpressionMatches parsed found = true ∧
      ∀ earlier < index, cronExpressionMatches parsed (candidate + 60 * earlier) = false := by
  induction rounds generalizing candidate with
  | zero => cases search
  | succ rounds ih =>
      rw [searchMatch] at search
      split at search
      case isTrue here =>
        cases search
        exact ⟨0, by simp, here, by simp⟩
      case isFalse other =>
        rcases ih search with ⟨index, same, matched, first⟩
        refine ⟨index + 1, ?_, matched, ?_⟩
        · push_cast
          omega
        · intro earlier before
          cases earlier with
          | zero => simpa using other
          | succ earlier =>
              have order : candidate + 60 * ((earlier + 1 : ℕ) : ℤ) =
                  candidate + 60 + 60 * (earlier : ℤ) := by
                push_cast
                omega
              rw [order]
              exact first earlier (by omega)

theorem searchMatch_error {failure : CronError}
    (search : searchMatch parsed rounds candidate = .error failure) {index : ℕ}
    (inside : index < rounds) : cronExpressionMatches parsed (candidate + 60 * index) = false := by
  induction rounds generalizing candidate index with
  | zero => omega
  | succ rounds ih =>
      rw [searchMatch] at search
      split at search
      case isTrue => cases search
      case isFalse other =>
        cases index with
        | zero => simpa using other
        | succ index =>
            have order : candidate + 60 * ((index + 1 : ℕ) : ℤ) =
                candidate + 60 + 60 * (index : ℤ) := by
              push_cast
              omega
            rw [order]
            exact ih search (by omega)

end Search

theorem alignToNextMinute_spec (from_secs : ℤ) :
    60 ∣ alignToNextMinute from_secs ∧ 0 ≤ alignToNextMinute from_secs ∧
      ∀ minute, 60 ∣ minute → 0 ≤ minute → from_secs < minute →
        alignToNextMinute from_secs ≤ minute := by
  simp only [alignToNextMinute]
  split
  · refine ⟨by omega, by omega, ?_⟩
    intro minute aligned nonnegative later
    omega
  · refine ⟨by omega, by omega, ?_⟩
    intro minute aligned nonnegative later
    omega

/-!
## Matches come again
-/

theorem month_dateOf (day : ℕ) : 1 ≤ (dateOf day).1 ∧ (dateOf day).1 ≤ 12 := by
  rcases exists_dayOf day with ⟨years, month, index, date, rfl⟩
  rw [dateOf_dayOf date]
  exact date.inYear

namespace CronFields

variable {fields : CronFields}

theorem exists_matchesDay {day : ℕ} (start : ℕ)
    (month : Admits fields.month 1 12 false (dateOf day).1) (matched : fields.MatchesDay day) :
    ∃ again, start ≤ again ∧ again ≤ start + 2926 ∧
      Admits fields.month 1 12 false (dateOf again).1 ∧ fields.MatchesDay again := by
  have range := month_dateOf day
  rcases matched with any | ⟨restricted, admitted⟩ | ⟨restricted, admitted⟩
  · rcases exists_weekday start range (by decide : 0 < 7) with ⟨again, after, near, same, _⟩
    exact ⟨again, after, by omega, by rwa [same], Or.inl any⟩
  · have repeated {again : ℕ} (same : dateOf again = dateOf day) :
        Admits fields.month 1 12 false (dateOf again).1 ∧ fields.MatchesDay again := by
      refine ⟨by rwa [same], Or.inr (Or.inl ⟨restricted, ?_⟩)⟩
      rwa [same]
    rcases exists_dayOf day with ⟨years, number, index, date, rfl⟩
    by_cases everyYear : number ≠ 2 ∨ index < 28
    · rcases exists_date start date everyYear with ⟨again, after, near, same⟩
      rw [← dateOf_dayOf date] at same
      exact ⟨again, after, by omega, repeated same⟩
    · -- The date is the 29th of February.
      have leap : dateOf (dayOf years number index) = (2, 29) := by
        have bound := date.inMonth
        have february : number = 2 := by omega
        subst february
        rw [getDaysInMonth, if_pos rfl] at bound
        have last : index = 28 := by
          split at bound <;> omega
        rw [dateOf_dayOf date, last]
      rcases exists_leapDay start with ⟨again, after, near, same⟩
      rw [← leap] at same
      exact ⟨again, after, near, repeated same⟩
  · have weekday : weekdayOf day < 7 := Nat.mod_lt _ (by decide)
    rcases exists_weekday start range weekday with ⟨again, after, near, same, sameWeekday⟩
    refine ⟨again, after, by omega, by rwa [same], Or.inr (Or.inr ⟨restricted, ?_⟩)⟩
    rwa [sameWeekday]

theorem Matches.again {candidate later : ℤ} (matched : fields.Matches later)
    (aligned : 60 ∣ later) (start : 60 ∣ candidate) (nonnegative : 0 ≤ candidate) :
    ∃ index < MAX_CRON_LOOKAHEAD_MINUTES, fields.Matches (candidate + 60 * index) := by
  rcases exists_matchesDay (candidate.toNat / 86400 + 1) matched.month matched.day with
    ⟨again, after, near, month, day⟩
  -- The minute of the day stays the same.
  have positive := matched.nonnegative
  let second := later.toNat % 86400
  have bounded : second < 86400 := Nat.mod_lt _ (by decide)
  have whole : second % 60 = 0 := by omega
  let time := 86400 * again + second
  have beyond : candidate ≤ time := by omega
  have index : candidate + 60 * (((time - candidate.toNat) / 60 : ℕ) : ℤ) = time := by omega
  refine ⟨(time - candidate.toNat) / 60, ?_, ?_⟩
  · simp only [MAX_CRON_LOOKAHEAD_MINUTES]
    omega
  · rw [index]
    have sameDay : ((time : ℕ) : ℤ).toNat / 86400 = again := by omega
    have sameSecond : ((time : ℕ) : ℤ).toNat % 86400 = second := by omega
    refine ⟨by omega, ?_, ?_, ?_, ?_⟩
    · rw [sameSecond]
      exact matched.minute
    · rw [sameSecond]
      exact matched.hour
    · rwa [sameDay]
    · rwa [sameDay]

end CronFields

/-!
## Expressions that are not read
-/

def BlamesExpression {Result : Type} (result : Except CronError Result) : Prop :=
  ∀ failure, result = .error failure → failure = .InvalidCronExpression

namespace BlamesExpression

variable {Result Other : Type} {result : Except CronError Result}

theorem ok (value : Result) : BlamesExpression (Except.ok value : Except CronError Result) := by
  intro failure refused
  cases refused

theorem refusal : BlamesExpression (.error .InvalidCronExpression : Except CronError Result) := by
  intro failure refused
  exact (Except.error.inj refused).symm

theorem andThen {next : Result → Except CronError Other} (first : BlamesExpression result)
    (rest : ∀ value, BlamesExpression (next value)) : BlamesExpression (result.bind next) := by
  cases result with
  | error failure =>
      intro other refused
      cases refused
      exact first failure rfl
  | ok value => exact rest value

theorem ite {condition : Prop} [Decidable condition] {other : Except CronError Result}
    (first : BlamesExpression result) (second : BlamesExpression other) :
    BlamesExpression (if condition then result else other) := by
  split
  · exact first
  · exact second

end BlamesExpression

section Refused

open BlamesExpression

theorem parseCronRawValue_blames (raw : Bytes) :
    BlamesExpression (parseCronRawValue raw min max allow_sunday_7) := by
  rw [parseCronRawValue]
  split
  · exact refusal
  · exact ite refusal (ok _)

theorem markRange_blames (last step rounds raw_value : ℕ) (marked : BoolTable × Bool) :
    BlamesExpression (markRange min max allow_sunday_7 last step rounds raw_value marked) := by
  induction rounds generalizing raw_value marked with
  | zero => exact ok _
  | succ rounds ih =>
      rw [markRange]
      exact ite (ok _) (ite refusal (ite (ok _) (ih _ _)))

theorem parseCronPart_blames (part : Bytes) :
    BlamesExpression (parseCronPart part min max allow_sunday_7) := by
  rw [parseCronPart_eq, parseCronStep]
  apply andThen
  · split
    · exact ok _
    · apply ite refusal
      split
      · exact refusal
      · exact ite refusal (ok _)
  · intro range
    refine andThen ?_ (fun ends => ok _)
    rw [parseCronRange]
    apply ite (ok _)
    split
    · apply ite refusal
      apply andThen (parseCronRawValue_blames _)
      intro start_raw
      apply andThen (parseCronRawValue_blames _)
      intro end_raw
      exact ite refusal (ok _)
    · exact andThen (parseCronRawValue_blames _) (fun start_raw => ok _)

theorem parseCronParts_blames (parts : List Bytes) (marked : BoolTable × Bool) :
    BlamesExpression (parseCronParts min max allow_sunday_7 parts marked) := by
  induction parts generalizing marked with
  | nil => exact ok _
  | cons part rest ih =>
      rw [parseCronParts]
      apply ite refusal
      apply andThen (parseCronPart_blames _)
      intro range
      exact andThen (markRange_blames _ _ _ _ _) (fun marked => ih marked)

theorem parseCronField_blames (raw_field : Bytes) :
    BlamesExpression (parseCronField raw_field min max allow_sunday_7) := by
  rw [parseCronField]
  apply ite refusal
  apply andThen (parseCronParts_blames _ _)
  intro result
  exact ite (ok _) refusal

theorem parseCronFields_blames (fields : CronFields) :
    BlamesExpression (parseCronFields fields) := by
  rw [parseCronFields]
  apply andThen (parseCronField_blames _)
  intro minutes
  apply andThen (parseCronField_blames _)
  intro hours
  apply andThen (parseCronField_blames _)
  intro day_of_month
  apply andThen (parseCronField_blames _)
  intro months
  exact andThen (parseCronField_blames _) (fun day_of_week => ok _)

end Refused

/-!
## The next run is exact
-/

theorem nextRunForCronExpression_cases (expression : Bytes) (from_secs : ℤ) :
    nextRunForCronExpression expression from_secs = .error .InvalidCronExpression ∨
      ∃ fields parsed, cronFields expression = some fields ∧ ReadAs fields parsed ∧
        nextRunForCronExpression expression from_secs =
          searchMatch parsed MAX_CRON_LOOKAHEAD_MINUTES (alignToNextMinute from_secs) := by
  rw [nextRunForCronExpression, parseCronExpression_eq]
  cases shape : cronFields expression with
  | none => exact Or.inl rfl
  | some fields =>
      cases read : parseCronFields fields with
      | error failure =>
          have blamed := parseCronFields_blames fields failure read
          rw [Option.elim_some, read, blamed]
          exact Or.inl rfl
      | ok parsed =>
          rw [Option.elim_some, read]
          exact Or.inr ⟨fields, parsed, rfl, readAs_of_parseCronFields read, rfl⟩

/-- A plain year behind the other fields is the year of the time. -/
def MatchesYear (expression : Bytes) (ts : ℤ) : Prop :=
  ∀ before year_field, before.length = 6 →
    Bytes.tokenizeAny expressionBlanks (Bytes.trim expressionBlanks expression) =
      before ++ [year_field] →
    ∀ year, Bytes.parseInt 0 65535 year_field = some year →
      ((calculateYearDay (ts.toNat / 86400) 1970 (ts.toNat / 86400)).1 : ℤ) = year

def MatchesAllFields (expression : Bytes) (ts : ℤ) : Prop :=
  MatchesExpression expression ts ∧ MatchesYear expression ts

end Nullalis.Cron
