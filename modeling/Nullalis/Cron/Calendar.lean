import Nullalis.Cron.Expression

/-!
# The calendar

A day is given by its year, its month and its place in the month, and the calendar of the scheduler
finds these again. Every date that is not the 29th of February is met in the following year, every
weekday is met in a month of the following year, and the 29th of February is met within eight
years, also across a century that is no leap year.
-/

namespace Nullalis.Cron

/-!
## Years
-/

/-- The day on which a year starts, counted from 1970. -/
def yearStart : ℕ → ℕ
  | 0 => 0
  | years + 1 => yearStart years + getDaysInYear (1970 + years)

variable {year years month day : ℕ}

theorem getDaysInYear_bounds (year : ℕ) : 365 ≤ getDaysInYear year ∧ getDaysInYear year ≤ 366 := by
  rw [getDaysInYear]
  split <;> omega

theorem isLeapYear_iff : isLeapYear year = true ↔ year % 4 = 0 ∧ (year % 100 ≠ 0 ∨ year % 400 = 0) := by
  rw [isLeapYear]
  split <;> rename_i fourth
  · simp [fourth]
  · rw [not_not] at fourth
    split <;> rename_i century
    · simp [fourth, century]
    · rw [not_not] at century
      simp [fourth, century]

theorem years_le_yearStart (years : ℕ) : years ≤ yearStart years := by
  induction years with
  | zero => exact Nat.le_refl 0
  | succ years ih =>
      have bounds := getDaysInYear_bounds (1970 + years)
      rw [yearStart]
      omega

theorem yearStart_mono {first second : ℕ} (le : first ≤ second) :
    yearStart first ≤ yearStart second :=
  monotone_nat_of_le_succ (fun years => Nat.le_add_right _ (getDaysInYear (1970 + years))) le

theorem exists_year (day : ℕ) : ∃ years, yearStart years ≤ day ∧ day < yearStart (years + 1) := by
  induction day with
  | zero => exact ⟨0, Nat.le_refl 0, by decide⟩
  | succ day ih =>
      rcases ih with ⟨years, starts, ends⟩
      by_cases last : day + 1 < yearStart (years + 1)
      · exact ⟨years, by omega, last⟩
      · refine ⟨years + 1, by omega, ?_⟩
        have bounds := getDaysInYear_bounds (1970 + (years + 1))
        rw [yearStart]
        omega

theorem calculateYearDay_from {rounds first : ℕ} (starts : yearStart (first + years) ≤ day)
    (ends : day < yearStart (first + years + 1)) (enough : years ≤ rounds) :
    calculateYearDay rounds (1970 + first) (day - yearStart first) =
      (1970 + (first + years), day - yearStart (first + years)) := by
  induction years generalizing first rounds with
  | zero =>
      rw [Nat.add_zero] at starts ends ⊢
      rw [yearStart] at ends
      cases rounds with
      | zero => rfl
      | succ rounds =>
          have inside : day - yearStart first < getDaysInYear (1970 + first) := by omega
          rw [calculateYearDay, if_pos inside]
  | succ years ih =>
      obtain ⟨rounds, rfl⟩ : ∃ fewer, rounds = fewer + 1 := ⟨rounds - 1, by omega⟩
      have order : first + (years + 1) = first + 1 + years := by omega
      rw [order] at starts ends ⊢
      have passed : yearStart (first + 1) ≤ yearStart (first + 1 + years) :=
        yearStart_mono (Nat.le_add_right _ _)
      have step : yearStart (first + 1) = yearStart first + getDaysInYear (1970 + first) := rfl
      have outside : ¬day - yearStart first < getDaysInYear (1970 + first) := by omega
      rw [calculateYearDay, if_neg outside, Nat.sub_sub, ← step]
      exact ih starts ends (by omega)

theorem calculateYearDay_eq (starts : yearStart years ≤ day) (ends : day < yearStart (years + 1)) :
    calculateYearDay day 1970 day = (1970 + years, day - yearStart years) := by
  have enough : years ≤ day := Nat.le_trans (years_le_yearStart years) starts
  have starts' : yearStart (0 + years) ≤ day := by rwa [Nat.zero_add]
  have ends' : day < yearStart (0 + years + 1) := by rwa [Nat.zero_add]
  have found := calculateYearDay_from starts' ends' enough
  rwa [Nat.zero_add] at found

/-!
## Months
-/

/-- The day of the year on which a month starts. -/
def monthStart (year : ℕ) : ℕ → ℕ
  | 0 => 0
  | 1 => 0
  | month + 2 => monthStart year (month + 1) + getDaysInMonth year (month + 1)

theorem monthStart_succ {month : ℕ} (positive : 1 ≤ month) :
    monthStart year (month + 1) = monthStart year month + getDaysInMonth year month := by
  obtain ⟨before, rfl⟩ : ∃ before, month = before + 1 := ⟨month - 1, by omega⟩
  rfl

theorem monthStart_mono {first more : ℕ} (positive : 1 ≤ first) :
    monthStart year first ≤ monthStart year (first + more) := by
  induction more with
  | zero => exact Nat.le_refl _
  | succ more ih =>
      have step : monthStart year (first + more + 1) =
          monthStart year (first + more) + getDaysInMonth year (first + more) :=
        monthStart_succ (by omega)
      rw [← Nat.add_assoc, step]
      omega

theorem getDaysInMonth_bounds (year month : ℕ) :
    28 ≤ getDaysInMonth year month ∧ getDaysInMonth year month ≤ 31 := by
  rw [getDaysInMonth]
  split
  · split <;> omega
  · split <;> omega

theorem getDaysInMonth_eq {other : ℕ} (apart : month ≠ 2) :
    getDaysInMonth year month = getDaysInMonth other month := by
  rw [getDaysInMonth, getDaysInMonth, if_neg apart, if_neg apart]

theorem monthStart_thirteen (year : ℕ) : monthStart year 13 = getDaysInYear year := by
  cases leap : isLeapYear year <;>
    simp [monthStart, getDaysInMonth, getDaysInYear, leap]

theorem monthStart_le (range : 1 ≤ month ∧ month ≤ 12) : monthStart year month ≤ 335 := by
  have last : monthStart year month ≤ monthStart year (month + (12 - month)) :=
    monthStart_mono range.1
  have december : month + (12 - month) = 12 := by omega
  have whole : monthStart year 13 = monthStart year 12 + 31 := rfl
  have bounds := getDaysInYear_bounds year
  rw [december] at last
  rw [monthStart_thirteen] at whole
  omega

theorem calculateMonthDay_from {rounds first more : ℕ} (positive : 1 ≤ first)
    (inside : day < getDaysInMonth year (first + more)) (enough : more ≤ rounds) :
    calculateMonthDay year rounds first
        (monthStart year (first + more) - monthStart year first + day) =
      (first + more, day) := by
  induction more generalizing first rounds with
  | zero =>
      rw [Nat.add_zero] at inside ⊢
      rw [Nat.sub_self, Nat.zero_add]
      cases rounds with
      | zero => rfl
      | succ rounds => rw [calculateMonthDay, if_pos inside]
  | succ more ih =>
      obtain ⟨rounds, rfl⟩ : ∃ fewer, rounds = fewer + 1 := ⟨rounds - 1, by omega⟩
      have order : first + (more + 1) = first + 1 + more := by omega
      rw [order] at inside ⊢
      have step : monthStart year (first + 1) =
          monthStart year first + getDaysInMonth year first := monthStart_succ positive
      have passed : monthStart year (first + 1) ≤ monthStart year (first + 1 + more) :=
        monthStart_mono (by omega)
      have outside : ¬monthStart year (first + 1 + more) - monthStart year first + day <
          getDaysInMonth year first := by omega
      have rest : monthStart year (first + 1 + more) - monthStart year first + day -
          getDaysInMonth year first =
            monthStart year (first + 1 + more) - monthStart year (first + 1) + day := by omega
      rw [calculateMonthDay, if_neg outside, rest]
      exact ih (by omega) inside (by omega)

theorem exists_month (inside : day < getDaysInYear year) :
    ∃ month index, 1 ≤ month ∧ month ≤ 12 ∧ index < getDaysInMonth year month ∧
      day = monthStart year month + index := by
  have upTo (last : ℕ) (before : day < monthStart year (last + 1)) :
      ∃ month index, 1 ≤ month ∧ month ≤ last ∧ index < getDaysInMonth year month ∧
        day = monthStart year month + index := by
    induction last with
    | zero =>
        rw [monthStart] at before
        omega
    | succ last ih =>
        by_cases earlier : day < monthStart year (last + 1)
        · rcases ih earlier with ⟨month, index, first, range, valid, same⟩
          exact ⟨month, index, first, by omega, valid, same⟩
        · have step : monthStart year (last + 1 + 1) =
              monthStart year (last + 1) + getDaysInMonth year (last + 1) := rfl
          exact ⟨last + 1, day - monthStart year (last + 1), by omega, Nat.le_refl _, by omega,
            by omega⟩
  rw [← monthStart_thirteen] at inside
  exact upTo 12 inside

/-!
## Dates
-/

/-- The month and the day of the month of a day. -/
def dateOf (epoch_day : ℕ) : ℕ × ℕ :=
  let (year, year_day) := calculateYearDay epoch_day 1970 epoch_day
  let (month, day_index) := calculateMonthDay year 11 1 year_day
  (month, day_index + 1)

def weekdayOf (epoch_day : ℕ) : ℕ :=
  (epoch_day + 4) % 7

/-- Is there such a date in the year? -/
structure IsDate (years month index : ℕ) : Prop where
  inYear : 1 ≤ month ∧ month ≤ 12
  inMonth : index < getDaysInMonth (1970 + years) month

def dayOf (years month index : ℕ) : ℕ :=
  yearStart years + monthStart (1970 + years) month + index

variable {index : ℕ}

theorem exists_dayOf (day : ℕ) :
    ∃ years month index, IsDate years month index ∧ day = dayOf years month index := by
  rcases exists_year day with ⟨years, starts, ends⟩
  have inside : day - yearStart years < getDaysInYear (1970 + years) := by
    rw [yearStart] at ends
    omega
  rcases exists_month inside with ⟨month, index, first, last, valid, same⟩
  refine ⟨years, month, index, ⟨⟨first, last⟩, valid⟩, ?_⟩
  rw [dayOf]
  omega

theorem dayOf_bounds (date : IsDate years month index) :
    yearStart years ≤ dayOf years month index ∧
      dayOf years month index < yearStart (years + 1) := by
  have next : monthStart (1970 + years) (month + 1) =
      monthStart (1970 + years) month + getDaysInMonth (1970 + years) month :=
    monthStart_succ date.inYear.1
  have last : monthStart (1970 + years) (month + 1) ≤
      monthStart (1970 + years) (month + 1 + (12 - month)) := monthStart_mono (by omega)
  have range := date.inYear
  have whole : month + 1 + (12 - month) = 13 := by omega
  have valid := date.inMonth
  rw [whole, monthStart_thirteen] at last
  rw [dayOf, yearStart]
  omega

theorem calculateMonthDay_dayOf (date : IsDate years month index) :
    calculateMonthDay (1970 + years) 11 1 (dayOf years month index - yearStart years) =
      (month, index) := by
  have range := date.inYear
  have whole : 1 + (month - 1) = month := by omega
  have inside : index < getDaysInMonth (1970 + years) (1 + (month - 1)) := by
    rw [whole]
    exact date.inMonth
  have found : calculateMonthDay (1970 + years) 11 1
      (monthStart (1970 + years) (1 + (month - 1)) - monthStart (1970 + years) 1 + index) =
        (1 + (month - 1), index) :=
    calculateMonthDay_from (Nat.le_refl 1) inside (by omega)
  have rest : dayOf years month index - yearStart years =
      monthStart (1970 + years) month - monthStart (1970 + years) 1 + index := by
    simp only [dayOf, monthStart]
    omega
  rw [whole] at found
  rw [rest, found]

theorem dateOf_dayOf (date : IsDate years month index) :
    dateOf (dayOf years month index) = (month, index + 1) := by
  have bounds := dayOf_bounds date
  simp only [dateOf, calculateYearDay_eq bounds.1 bounds.2, calculateMonthDay_dayOf date]

/-!
## Dates that are met again
-/

theorem exists_weekday (start : ℕ) {weekday : ℕ} (range : 1 ≤ month ∧ month ≤ 12)
    (valid : weekday < 7) :
    ∃ day, start ≤ day ∧ day ≤ start + 800 ∧ (dateOf day).1 = month ∧ weekdayOf day = weekday := by
  rcases exists_year start with ⟨years, starts, ends⟩
  let first := dayOf (years + 1) month 0
  let index := (weekday + 7 - weekdayOf first) % 7
  have bounds := getDaysInMonth_bounds (1970 + (years + 1)) month
  have date : IsDate (years + 1) month index := by
    refine ⟨range, ?_⟩
    have small : index < 7 := Nat.mod_lt _ (by omega)
    omega
  refine ⟨dayOf (years + 1) month index, ?_, ?_, by rw [dateOf_dayOf date], ?_⟩
  · have after := (dayOf_bounds date).1
    omega
  · have length := getDaysInYear_bounds (1970 + years)
    have early : monthStart (1970 + (years + 1)) month ≤ 335 := monthStart_le range
    have small : index < 7 := Nat.mod_lt _ (by omega)
    simp only [dayOf, yearStart]
    omega
  · have same : dayOf (years + 1) month index = first + index := by
      simp only [first, dayOf]
      omega
    have meets (first : ℕ) :
        (first + (weekday + 7 - (first + 4) % 7) % 7 + 4) % 7 = weekday := by omega
    rw [same]
    exact meets first

theorem exists_date (start : ℕ) (date : IsDate years month index)
    (everyYear : month ≠ 2 ∨ index < 28) :
    ∃ day, start ≤ day ∧ day ≤ start + 800 ∧ dateOf day = (month, index + 1) := by
  rcases exists_year start with ⟨now, starts, ends⟩
  have bounds := getDaysInMonth_bounds (1970 + (now + 1)) month
  have again : IsDate (now + 1) month index := by
    refine ⟨date.inYear, ?_⟩
    rcases everyYear with other | early
    · exact (getDaysInMonth_eq other : _ = getDaysInMonth (1970 + years) month) ▸ date.inMonth
    · omega
  refine ⟨dayOf (now + 1) month index, ?_, ?_, dateOf_dayOf again⟩
  · have after := (dayOf_bounds again).1
    omega
  · have length := getDaysInYear_bounds (1970 + now)
    have early : monthStart (1970 + (now + 1)) month ≤ 335 := monthStart_le date.inYear
    have short := again.inMonth
    simp only [dayOf, yearStart]
    omega

theorem isDate_leapDay (leap : isLeapYear (1970 + years) = true) : IsDate years 2 28 := by
  refine ⟨by omega, ?_⟩
  simp [getDaysInMonth, leap]

theorem yearStart_add_le (years more : ℕ) :
    yearStart (years + more) ≤ yearStart years + 366 * more := by
  induction more with
  | zero => exact Nat.le_refl _
  | succ more ih =>
      have bounds := getDaysInYear_bounds (1970 + (years + more))
      rw [← Nat.add_assoc, yearStart]
      omega

theorem yearStart_add_eight (years : ℕ)
    (common : ∀ more, 1 ≤ more → more ≤ 7 → isLeapYear (1970 + (years + more)) = false) :
    yearStart (years + 8) ≤ yearStart years + 2921 := by
  have length (more : ℕ) (range : 1 ≤ more ∧ more ≤ 7) :
      getDaysInYear (1970 + (years + more)) = 365 := by
    simp [getDaysInYear, common more range.1 range.2]
  have first := getDaysInYear_bounds (1970 + years)
  have one := length 1 (by omega)
  have two := length 2 (by omega)
  have three := length 3 (by omega)
  have four := length 4 (by omega)
  have five := length 5 (by omega)
  have six := length 6 (by omega)
  have seven := length 7 (by omega)
  simp only [yearStart]
  omega

/-- The 29th of February is met within eight years and a few days. -/
theorem exists_leapDay (start : ℕ) :
    ∃ day, start ≤ day ∧ day ≤ start + 2926 ∧ dateOf day = (2, 29) := by
  rcases exists_year start with ⟨years, starts, ends⟩
  have place (years : ℕ) : dayOf years 2 28 = yearStart years + 59 := rfl
  by_cases soon : ∃ more, 1 ≤ more ∧ more ≤ 7 ∧ isLeapYear (1970 + (years + more)) = true
  · rcases soon with ⟨more, later, near, leap⟩
    have date := isDate_leapDay leap
    have after : yearStart (years + 1) ≤ yearStart (years + more) := yearStart_mono (by omega)
    have close := yearStart_add_le years more
    refine ⟨dayOf (years + more) 2 28, ?_, ?_, dateOf_dayOf date⟩
    · rw [place]
      omega
    · rw [place]
      omega
  · -- No leap year comes for seven years, so the year before a common century has begun.
    have common : ∀ more, 1 ≤ more → more ≤ 7 → isLeapYear (1970 + (years + more)) = false := by
      intro more later near
      rw [Bool.eq_false_iff]
      exact fun leap => soon ⟨more, later, near, leap⟩
    have none (more : ℕ) (range : 1 ≤ more ∧ more ≤ 7) :
        ¬((1970 + (years + more)) % 4 = 0 ∧
          ((1970 + (years + more)) % 100 ≠ 0 ∨ (1970 + (years + more)) % 400 = 0)) := by
      rw [← isLeapYear_iff, common more range.1 range.2]
      exact Bool.false_ne_true
    have one := none 1 (by omega)
    have two := none 2 (by omega)
    have three := none 3 (by omega)
    have four := none 4 (by omega)
    have five := none 5 (by omega)
    have six := none 6 (by omega)
    have seven := none 7 (by omega)
    have leap : isLeapYear (1970 + years) = true := isLeapYear_iff.mpr (by omega)
    have leap' : isLeapYear (1970 + (years + 8)) = true := isLeapYear_iff.mpr (by omega)
    by_cases passed : start ≤ yearStart years + 59
    · refine ⟨dayOf years 2 28, ?_, ?_, dateOf_dayOf (isDate_leapDay leap)⟩
      · rw [place]
        exact passed
      · rw [place]
        omega
    · have close := yearStart_add_eight years common
      have after : yearStart (years + 1) ≤ yearStart (years + 8) := yearStart_mono (by omega)
      refine ⟨dayOf (years + 8) 2 28, ?_, ?_, dateOf_dayOf (isDate_leapDay leap')⟩
      · rw [place]
        omega
      · rw [place]
        omega

end Nullalis.Cron
