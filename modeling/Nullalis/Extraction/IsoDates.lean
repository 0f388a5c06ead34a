import Nullalis.Cron.Calendar
import Nullalis.Extraction.Parser
import Mathlib.Tactic.IntervalCases
import Mathlib.Tactic.Ring

/-!
# Two readers of dates

The time from which a fact holds is a date in ISO 8601. One reader serves the tool and the boundary
extractor and adds up years and months, another one serves the batch parser and computes the day in
one go.
-/

namespace Nullalis.Extraction

open Bytes Cron

def leap (year : ℤ) : Bool :=
  (year % 4 = 0 && year % 100 ≠ 0) || year % 400 = 0

def max_day_per_month (year : ℤ) : List ℤ :=
  [31, if leap year then 29 else 28, 31, 30, 31, 30, 31, 31, 30, 31, 30, 31]

/-- The days of each month in a year that is no leap year. -/
def days_per_month : List ℤ := [31, 28, 31, 30, 31, 30, 31, 31, 30, 31, 30, 31]

/-- The days of some years from 1970 on. -/
def daysOfYears (y_offset : ℕ) : ℤ :=
  (List.range y_offset).foldl
    (fun days (y : ℕ) => days + if leap (1970 + (y : ℤ)) then 366 else 365) 0

/-- Add the days of the first months of a year. -/
def addMonths (year : ℤ) (months : ℕ) (days : ℤ) : ℤ :=
  (List.range months).foldl
    (fun days mi =>
      let days := days + days_per_month.getD mi 0
      if mi = 1 ∧ leap year then days + 1 else days)
    days

/-- Days as seconds since the epoch, from a date in ISO 8601. What follows the date is ignored. -/
def parseValidAtIso (iso_opt : Option Bytes) : Option ℤ := do
  let iso ← iso_opt
  if iso.length < 10 then none
  else
    let year ← parseInt (-2 ^ 31) (2 ^ 31 - 1) (iso.take 4)
    let month ← parseInt 0 255 ((iso.drop 5).take 2)
    let day ← parseInt 0 255 ((iso.drop 8).take 2)
    if year < 1970 ∨ 2100 < year then none
    else if month < 1 ∨ 12 < month then none
    else if day < 1 ∨ 31 < day then none
    else if (max_day_per_month year).getD (month.toNat - 1) 0 < day then none
    else
      let days := daysOfYears (year - 1970).toNat
      let days := addMonths year (month.toNat - 1) days
      return (days + (day - 1)) * 86400

/-!
## Days
-/

variable {year month day : ℕ}

theorem leap_iff : leap (year : ℤ) = isLeapYear year := by
  rw [Bool.eq_iff_iff, isLeapYear_iff]
  simp only [leap, Bool.or_eq_true, Bool.and_eq_true, decide_eq_true_eq]
  omega

theorem daysOfYears_eq (years : ℕ) : daysOfYears years = yearStart years := by
  induction years with
  | zero => rfl
  | succ years ih =>
      have same : leap (1970 + (years : ℤ)) = isLeapYear (1970 + years) := by
        rw [← leap_iff]
        push_cast
        rfl
      rw [daysOfYears, List.range_succ, List.foldl_append, ← daysOfYears, ih, yearStart,
        getDaysInYear]
      simp only [List.foldl_cons, List.foldl_nil, same]
      cases isLeapYear (1970 + years) <;> simp

theorem addMonths_eq (range : 1 ≤ month ∧ month ≤ 12) (days : ℤ) :
    addMonths year (month - 1) days = days + monthStart year month := by
  obtain ⟨low, high⟩ := range
  rw [addMonths, leap_iff]
  interval_cases month <;> cases leap : isLeapYear year <;>
    simp [List.range_succ, days_per_month, monthStart, getDaysInMonth, leap] <;> ring

theorem max_day_eq (range : 1 ≤ month ∧ month ≤ 12) :
    (max_day_per_month year).getD (month - 1) 0 = getDaysInMonth year month := by
  obtain ⟨low, high⟩ := range
  rw [max_day_per_month, leap_iff]
  interval_cases month <;> simp [getDaysInMonth]

theorem yearStart_closed (years : ℕ) :
    yearStart years + 477 = 365 * years + (1969 + years) / 4 - (1969 + years) / 100 +
      (1969 + years) / 400 := by
  induction years with
  | zero => rfl
  | succ years ih =>
      rw [yearStart, getDaysInYear]
      cases leap : isLeapYear (1970 + years)
      · have common := leap
        rw [← Bool.not_eq_true, isLeapYear_iff] at common
        simp only [Bool.false_eq_true, if_false]
        omega
      · rw [isLeapYear_iff] at leap
        simp only [if_true]
        omega

/-- The day of a date as it is computed in one go, with the year counted from March on. -/
def civilDay (year month day : ℤ) : ℤ :=
  let y := if month ≤ 2 then year - 1 else year
  let m := if month ≤ 2 then month + 9 else month - 3
  let era := y / 400
  let yoe := y - era * 400
  let doy := (153 * m + 2) / 5 + day - 1
  let doe := yoe * 365 + yoe / 4 - yoe / 100 + doy
  era * 146097 + doe - 719468

theorem monthStart_early (early : 1 ≤ month ∧ month ≤ 2) :
    monthStart year month = 31 * (month - 1) := by
  obtain ⟨low, high⟩ := early
  interval_cases month <;> simp [monthStart, getDaysInMonth]

theorem monthStart_late (late : 3 ≤ month ∧ month ≤ 12) :
    monthStart year month =
      (153 * (month - 3) + 2) / 5 + 59 + if isLeapYear year then 1 else 0 := by
  obtain ⟨low, high⟩ := late
  interval_cases month <;> cases leap : isLeapYear year <;>
    simp [monthStart, getDaysInMonth, leap]

theorem civilDay_eq (recent : 1970 ≤ year) (range : 1 ≤ month ∧ month ≤ 12) (first : 1 ≤ day) :
    civilDay year month day = dayOf (year - 1970) month (day - 1) := by
  obtain ⟨years, rfl⟩ := Nat.exists_eq_add_of_le recent
  have closed := yearStart_closed years
  rw [Nat.add_sub_cancel_left, dayOf, civilDay]
  by_cases early : month ≤ 2
  · rw [monthStart_early ⟨range.1, early⟩, if_pos (by omega), if_pos (by omega)]
    omega
  · rw [monthStart_late ⟨by omega, range.2⟩, if_neg (by omega), if_neg (by omega)]
    cases leap : isLeapYear (1970 + years)
    · rw [← Bool.not_eq_true, isLeapYear_iff] at leap
      simp only [Bool.false_eq_true, if_false]
      omega
    · rw [isLeapYear_iff] at leap
      simp only [if_true]
      omega

/-!
## Digits

The readers take numbers from an integer parser that also takes a sign, and underscores between
digits.
-/

variable {bytes : Bytes} {number start : ℕ}

theorem digitsValue_spec (read : digitsValue start bytes = some number) :
    (∀ value ∈ bytes, isDigit value = true ∨ value = byte '_') ∧
      number < (start + 1) * 10 ^ bytes.countP isDigit := by
  induction bytes generalizing start with
  | nil =>
      obtain rfl : start = number := Option.some.inj read
      simp
  | cons value rest ih =>
      rw [digitsValue] at read
      split_ifs at read with underscore digit
      · obtain ⟨only, less⟩ := ih read
        have other : isDigit value = false := by
          rw [beq_iff_eq.mp underscore]
          decide
        refine ⟨?_, ?_⟩
        · intro other mem
          rcases List.mem_cons.mp mem with rfl | mem
          · exact .inr (beq_iff_eq.mp underscore)
          · exact only other mem
        · rwa [List.countP_cons_of_neg (by simp [other])]
      · obtain ⟨only, less⟩ := ih read
        have small : value.toNat - 48 ≤ 9 := by
          simp only [isDigit, byte, Bool.and_eq_true, decide_eq_true_eq,
            UInt8.le_iff_toNat_le] at digit
          have upper := digit.2
          simp at upper
          omega
        refine ⟨?_, ?_⟩
        · intro other mem
          rcases List.mem_cons.mp mem with rfl | mem
          · exact .inl digit
          · exact only other mem
        · rw [List.countP_cons_of_pos digit, pow_succ]
          calc number < (10 * start + (value.toNat - 48) + 1) * 10 ^ rest.countP isDigit := less
            _ ≤ (start + 1) * 10 * 10 ^ rest.countP isDigit :=
                Nat.mul_le_mul_right _ (by omega)
            _ = (start + 1) * (10 ^ rest.countP isDigit * 10) := by ring

theorem all_isDigit_of_large (read : digitsValue 0 bytes = some number)
    (large : 10 ^ (bytes.length - 1) ≤ number) : bytes.all isDigit = true := by
  obtain ⟨-, less⟩ := digitsValue_spec read
  rw [Nat.zero_add, Nat.one_mul] at less
  have more := (Nat.pow_lt_pow_iff_right (by decide)).mp (large.trans_lt less)
  have all : bytes.countP isDigit = bytes.length := by
    have := List.countP_le_length (p := isDigit) (l := bytes)
    omega
  rw [List.all_eq_true]
  exact List.countP_eq_length.mp all

theorem digit_apart {value : UInt8} (digit : isDigit value = true) :
    value ≠ byte '+' ∧ value ≠ byte '-' ∧ value ≠ byte '_' := by
  refine ⟨?_, ?_, ?_⟩ <;> rintro rfl <;> revert digit <;> decide

theorem parseInt_of_digits {lowest highest : ℤ} (digits : bytes.all isDigit = true)
    (nonempty : bytes ≠ []) (read : digitsValue 0 bytes = some number) (low : lowest ≤ number)
    (high : number ≤ highest) : parseInt lowest highest bytes = some (number : ℤ) := by
  rw [List.all_eq_true] at digits
  have size : magnitude bytes = some number := by
    have first := digit_apart (digits _ (List.head_mem nonempty))
    have last := digit_apart (digits _ (List.getLast_mem nonempty))
    rw [magnitude, if_neg, read]
    simp [nonempty, List.head?_eq_some_head nonempty, List.getLast?_eq_some_getLast nonempty,
      first.2.2, last.2.2]
  rcases bytes with _ | ⟨sign, rest⟩
  · exact absurd rfl nonempty
  · have apart := digit_apart (digits sign (by simp))
    simp [parseInt, apart.1, apart.2.1, size, low, high]

theorem parseInt_cases {lowest highest value : ℤ}
    (read : parseInt lowest highest bytes = some value) (positive : 0 < value) :
    (∃ rest, bytes = byte '+' :: rest ∧ digitsValue 0 rest = some value.toNat) ∨
      digitsValue 0 bytes = some value.toNat ∧ bytes.head? ≠ some (byte '_') ∧
        bytes.getLast? ≠ some (byte '_') := by
  have sized {text : Bytes} {size : ℕ} (found : magnitude text = some size) :
      digitsValue 0 text = some size ∧ text.head? ≠ some (byte '_') ∧
        text.getLast? ≠ some (byte '_') := by
    rw [magnitude] at found
    split at found
    · cases found
    · rename_i ends
      simp only [Bool.or_eq_true, beq_iff_eq, not_or] at ends
      exact ⟨found, ends.1.2, ends.2⟩
  rcases bytes with _ | ⟨sign, rest⟩
  · cases read
  · obtain ⟨read, -⟩ := Option.filter_eq_some_iff.mp read
    simp only at read
    split_ifs at read with plus minus
    · obtain ⟨size, found, rfl⟩ := Option.map_eq_some_iff.mp read
      left
      rw [beq_iff_eq] at plus
      subst plus
      exact ⟨rest, rfl, (sized found).1⟩
    · obtain ⟨size, found, rfl⟩ := Option.map_eq_some_iff.mp read
      rw [Int.ofNat_eq_natCast] at positive
      omega
    · obtain ⟨size, found, rfl⟩ := Option.map_eq_some_iff.mp read
      exact .inr (sized found)

theorem year_digits {lowest highest : ℤ} (four : bytes.length = 4)
    (read : parseInt lowest highest bytes = some (number : ℤ)) (recent : 1970 ≤ number) :
    bytes.all isDigit = true ∧ digitsValue 0 bytes = some number := by
  rcases parseInt_cases read (by omega) with ⟨rest, rfl, found⟩ | ⟨found, -, -⟩
  · obtain ⟨-, less⟩ := digitsValue_spec found
    have three : rest.length = 3 := by simpa using four
    have few := List.countP_le_length (p := isDigit) (l := rest)
    have power : 10 ^ rest.countP isDigit ≤ 10 ^ 3 := Nat.pow_le_pow_right (by decide) (by omega)
    omega
  · refine ⟨all_isDigit_of_large found ?_, found⟩
    rw [four]
    omega

theorem two_digits {lowest highest : ℤ} (two : bytes.length = 2)
    (read : parseInt lowest highest bytes = some (number : ℤ)) (positive : 0 < number) :
    bytes.head? = some (byte '+') ∨
      bytes.all isDigit = true ∧ digitsValue 0 bytes = some number := by
  rcases parseInt_cases read (by omega) with ⟨rest, rfl, found⟩ | ⟨found, first, last⟩
  · exact .inl rfl
  · right
    refine ⟨?_, found⟩
    obtain ⟨only, -⟩ := digitsValue_spec found
    obtain ⟨tens, ones, rfl⟩ : ∃ tens ones, bytes = [tens, ones] := by
      rcases bytes with _ | ⟨tens, _ | ⟨ones, _ | _⟩⟩ <;> simp_all
    have tensDigit := (only tens (by simp)).resolve_right (by simpa using first)
    have onesDigit := (only ones (by simp)).resolve_right (by simpa using last)
    simp [tensDigit, onesDigit]

/-!
## What the readers read

Both readers take the same three numbers from a text. The first one looks whether there is such a
day, up to the year 2100, and the second one looks for the dashes.
-/

variable {iso : Bytes}

/-- The parser reads a year from 1970 on, and numbers of a month and a day. -/
structure Fields (iso : Bytes) (year month day : ℕ) : Prop where
  long : 10 ≤ iso.length
  yearRead : parseInt (-2 ^ 31) (2 ^ 31 - 1) (iso.take 4) = some (year : ℤ)
  monthRead : parseInt 0 255 ((iso.drop 5).take 2) = some (month : ℤ)
  dayRead : parseInt 0 255 ((iso.drop 8).take 2) = some (day : ℤ)
  recent : 1970 ≤ year
  months : 1 ≤ month ∧ month ≤ 12
  days : 1 ≤ day ∧ day ≤ 31

def Dashes (iso : Bytes) : Prop :=
  iso[4]? = some (byte '-') ∧ iso[7]? = some (byte '-')

instance : Decidable (Dashes iso) := by
  unfold Dashes
  infer_instance

def IsReal (year month day : ℕ) : Prop :=
  (1 ≤ month ∧ month ≤ 12) ∧ 1 ≤ day ∧ day ≤ getDaysInMonth year month

instance : Decidable (IsReal year month day) := by
  unfold IsReal
  infer_instance

def startOf (year month day : ℕ) : ℤ :=
  86400 * (dayOf (year - 1970) month (day - 1) : ℤ)

theorem parseValidAtIso_of_fields (fields : Fields iso year month day) :
    parseValidAtIso (some iso) =
      if year ≤ 2100 ∧ IsReal year month day then some (startOf year month day) else none := by
  have long := fields.long
  have recent := fields.recent
  obtain ⟨months, days⟩ := And.intro fields.months fields.days
  rw [parseValidAtIso, Option.bind_eq_bind, Option.bind_some, if_neg (by omega), fields.yearRead,
    Option.bind_eq_bind, Option.bind_some, fields.monthRead, Option.bind_some, fields.dayRead,
    Option.bind_some]
  rw [Int.toNat_natCast, max_day_eq months]
  by_cases accepted : year ≤ 2100 ∧ IsReal year month day
  · obtain ⟨last, -, -, inMonth⟩ := id accepted
    have years : ((year : ℤ) - 1970).toNat = year - 1970 := by omega
    rw [if_neg (by omega), if_neg (by omega), if_neg (by omega), if_neg (by omega),
      if_pos accepted]
    dsimp only
    rw [addMonths_eq months, years, daysOfYears_eq, startOf, dayOf,
      Nat.add_sub_cancel' recent, Option.pure_def, Option.some.injEq]
    omega
  · rw [if_neg accepted]
    have beyond : 2100 < year ∨ getDaysInMonth year month < day := by
      by_contra inside
      rw [not_or] at inside
      exact accepted ⟨by omega, months, days.1, by omega⟩
    split_ifs <;> first | rfl | omega

theorem parseIsoToUnix_of_fields (fields : Fields iso year month day) :
    parseIsoToUnix iso = if Dashes iso then some (startOf year month day) else none := by
  have long := fields.long
  have recent := fields.recent
  obtain ⟨months, days⟩ := And.intro fields.months fields.days
  have civil := civilDay_eq recent months days.1
  rw [parseIsoToUnix, if_neg (by omega), fields.yearRead, Option.bind_eq_bind, Option.bind_some]
  by_cases first : iso[4]? = some (byte '-')
  · rw [if_neg (not_not.mpr first), fields.monthRead, Option.bind_some]
    by_cases second : iso[7]? = some (byte '-')
    · have dashes : Dashes iso := ⟨first, second⟩
      rw [if_neg (not_not.mpr second), fields.dayRead, Option.bind_some, if_neg (by omega),
        if_pos dashes, startOf, ← civil, Int.mul_comm]
      rfl
    · have apart : ¬Dashes iso := fun both => second both.2
      rw [if_pos second, if_neg apart]
  · have apart : ¬Dashes iso := fun both => first both.1
    rw [if_pos first, if_neg apart]

theorem exists_fields {y m d : ℤ} (long : ¬iso.length < 10)
    (yearRead : parseInt (-2 ^ 31) (2 ^ 31 - 1) (iso.take 4) = some y)
    (monthRead : parseInt 0 255 ((iso.drop 5).take 2) = some m)
    (dayRead : parseInt 0 255 ((iso.drop 8).take 2) = some d) (recent : 1970 ≤ y)
    (months : 1 ≤ m ∧ m ≤ 12) (days : 1 ≤ d ∧ d ≤ 31) :
    ∃ year month day, Fields iso year month day := by
  obtain ⟨year, rfl⟩ := Int.eq_ofNat_of_zero_le (by omega : 0 ≤ y)
  obtain ⟨month, rfl⟩ := Int.eq_ofNat_of_zero_le (by omega : 0 ≤ m)
  obtain ⟨day, rfl⟩ := Int.eq_ofNat_of_zero_le (by omega : 0 ≤ d)
  exact ⟨year, month, day, by omega, yearRead, monthRead, dayRead, by omega, by omega, by omega⟩

theorem parseValidAtIso_eq_none (unread : ∀ year month day, ¬Fields iso year month day) :
    parseValidAtIso (some iso) = none := by
  by_contra found
  obtain ⟨value, found⟩ := Option.ne_none_iff_exists'.mp found
  rw [parseValidAtIso, Option.bind_eq_bind, Option.bind_some] at found
  split at found
  case isTrue => cases found
  case isFalse long =>
    obtain ⟨y, yearRead, found⟩ := Option.bind_eq_some_iff.mp found
    obtain ⟨m, monthRead, found⟩ := Option.bind_eq_some_iff.mp found
    obtain ⟨d, dayRead, found⟩ := Option.bind_eq_some_iff.mp found
    split_ifs at found with years months days
    obtain ⟨year, month, day, fields⟩ := exists_fields long yearRead monthRead dayRead (by omega)
      (by omega) (by omega)
    exact unread year month day fields

theorem parseIsoToUnix_eq_none (unread : ∀ year month day, ¬Fields iso year month day) :
    parseIsoToUnix iso = none := by
  by_contra found
  obtain ⟨value, found⟩ := Option.ne_none_iff_exists'.mp found
  rw [parseIsoToUnix] at found
  split at found
  case isTrue => cases found
  case isFalse long =>
    obtain ⟨y, yearRead, found⟩ := Option.bind_eq_some_iff.mp found
    split at found
    case isTrue => cases found
    obtain ⟨m, monthRead, found⟩ := Option.bind_eq_some_iff.mp found
    split at found
    case isTrue => cases found
    obtain ⟨d, dayRead, found⟩ := Option.bind_eq_some_iff.mp found
    split at found
    case isTrue => cases found
    case isFalse ranges =>
      obtain ⟨year, month, day, fields⟩ := exists_fields long yearRead monthRead dayRead
        (by omega) (by omega) (by omega)
      exact unread year month day fields

/-!
## Dates that are written out
-/

/-- The first ten bytes are a year, a month and a day in digits, with dashes between them. -/
structure Writes (iso : Bytes) (year month day : ℕ) : Prop where
  long : 10 ≤ iso.length
  dashes : Dashes iso
  digits : (iso.take 4).all isDigit = true ∧ ((iso.drop 5).take 2).all isDigit = true ∧
    ((iso.drop 8).take 2).all isDigit = true
  year_eq : digitsValue 0 (iso.take 4) = some year
  month_eq : digitsValue 0 ((iso.drop 5).take 2) = some month
  day_eq : digitsValue 0 ((iso.drop 8).take 2) = some day

/-- A reader reads the days from 1970 to 2100, and nothing that is no day. -/
structure Exact (reader : Bytes → Option ℤ) (iso : Bytes) : Prop where
  reads : ∀ year month day, Writes iso year month day → IsReal year month day →
    1970 ≤ year → year ≤ 2100 → reader iso = some (startOf year month day)
  rejects : (∀ year month day, Writes iso year month day → ¬IsReal year month day) →
    reader iso = none

def Unsigned (iso : Bytes) : Prop :=
  iso[5]? ≠ some (byte '+') ∧ iso[8]? ≠ some (byte '+')

theorem take_ne_nil {count : ℕ} (long : 0 < count ∧ 0 < bytes.length) : bytes.take count ≠ [] := by
  intro empty
  have := congrArg List.length empty
  rw [List.length_take, List.length_nil] at this
  omega

theorem Writes.fields (writes : Writes iso year month day) (recent : 1970 ≤ year)
    (real : IsReal year month day) : Fields iso year month day := by
  have long := writes.long
  have bounds := getDaysInMonth_bounds year month
  obtain ⟨months, days⟩ := real
  obtain ⟨yearDigits, monthDigits, dayDigits⟩ := writes.digits
  refine ⟨long, ?_, ?_, ?_, recent, months, by omega⟩
  · have small := (digitsValue_spec writes.year_eq).2
    have few := List.countP_le_length (p := isDigit) (l := iso.take 4)
    have four : (iso.take 4).length ≤ 4 := List.length_take_le 4 iso
    have power : 10 ^ (iso.take 4).countP isDigit ≤ 10 ^ 4 :=
      Nat.pow_le_pow_right (by decide) (by omega)
    exact parseInt_of_digits yearDigits (take_ne_nil (by omega)) writes.year_eq (by omega)
      (by omega)
  · exact parseInt_of_digits monthDigits (take_ne_nil (by simp; omega)) writes.month_eq (by omega)
      (by omega)
  · exact parseInt_of_digits dayDigits (take_ne_nil (by simp; omega)) writes.day_eq (by omega)
      (by omega)

theorem head?_take_drop (start : ℕ) : ((iso.drop start).take 2).head? = iso[start]? := by
  rw [List.head?_take, if_neg (by decide), List.head?_drop]

theorem Writes.unsigned (writes : Writes iso year month day) : Unsigned iso := by
  obtain ⟨-, monthDigits, dayDigits⟩ := writes.digits
  have apart {start : ℕ} (digits : ((iso.drop start).take 2).all isDigit = true) :
      iso[start]? ≠ some (byte '+') := by
    intro plus
    rw [← head?_take_drop] at plus
    have digit := List.all_eq_true.mp digits _ (List.mem_of_mem_head? plus)
    exact (digit_apart digit).1 rfl
  exact ⟨apart monthDigits, apart dayDigits⟩

theorem Fields.writes (fields : Fields iso year month day) (dashes : Dashes iso)
    (unsigned : Unsigned iso) : Writes iso year month day := by
  have long := fields.long
  obtain ⟨yearDigits, year_eq⟩ := year_digits
    (by rw [List.length_take]; omega) fields.yearRead fields.recent
  have two {start number : ℕ} (inside : start ≤ 8) (plain : iso[start]? ≠ some (byte '+'))
      (read : parseInt 0 255 ((iso.drop start).take 2) = some (number : ℤ))
      (positive : 0 < number) :
      ((iso.drop start).take 2).all isDigit = true ∧
        digitsValue 0 ((iso.drop start).take 2) = some number := by
    refine (two_digits ?_ read positive).resolve_left ?_
    · rw [List.length_take, List.length_drop]
      omega
    · rwa [head?_take_drop]
  obtain ⟨monthDigits, month_eq⟩ :=
    two (by decide) unsigned.1 fields.monthRead (by have := fields.months; omega)
  obtain ⟨dayDigits, day_eq⟩ :=
    two (by decide) unsigned.2 fields.dayRead (by have := fields.days; omega)
  exact ⟨long, dashes, ⟨yearDigits, monthDigits, dayDigits⟩, year_eq, month_eq, day_eq⟩

theorem Writes.eq_of_fields {y m d : ℕ} (writes : Writes iso y m d)
    (fields : Fields iso year month day) : y = year ∧ m = month ∧ d = day := by
  have again := fields.writes writes.dashes writes.unsigned
  refine ⟨?_, ?_, ?_⟩
  · exact Option.some.inj (writes.year_eq.symm.trans again.year_eq)
  · exact Option.some.inj (writes.month_eq.symm.trans again.month_eq)
  · exact Option.some.inj (writes.day_eq.symm.trans again.day_eq)

theorem Fields.unique {y m d : ℕ} (fields : Fields iso year month day)
    (other : Fields iso y m d) : y = year ∧ m = month ∧ d = day := by
  have years := Option.some.inj (other.yearRead.symm.trans fields.yearRead)
  have months := Option.some.inj (other.monthRead.symm.trans fields.monthRead)
  have days := Option.some.inj (other.dayRead.symm.trans fields.dayRead)
  exact ⟨by exact_mod_cast years, by exact_mod_cast months, by exact_mod_cast days⟩

theorem exact_iff_of_fields {reader : Bytes → Option ℤ} {accepts : Prop} [Decidable accepts]
    (fields : Fields iso year month day)
    (result : reader iso = if accepts then some (startOf year month day) else none)
    (complete : Dashes iso → IsReal year month day → year ≤ 2100 → accepts) :
    Exact reader iso ↔ (accepts → Dashes iso ∧ Unsigned iso ∧ IsReal year month day) := by
  constructor
  · intro exact accepted
    by_contra other
    have nothing : reader iso = none := by
      refine exact.rejects fun y m d writes real => other ?_
      obtain ⟨rfl, rfl, rfl⟩ := writes.eq_of_fields fields
      exact ⟨writes.dashes, writes.unsigned, real⟩
    rw [nothing, if_pos accepted] at result
    cases result
  · intro only
    constructor
    · intro y m d writes real recent last
      obtain ⟨rfl, rfl, rfl⟩ := writes.eq_of_fields fields
      rw [result, if_pos (complete writes.dashes real last)]
    · intro unreal
      rw [result, if_neg]
      intro accepted
      obtain ⟨dashes, unsigned, real⟩ := only accepted
      exact unreal year month day (fields.writes dashes unsigned) real

theorem exact_of_not_fields {reader : Bytes → Option ℤ}
    (unread : ∀ year month day, ¬Fields iso year month day) (nothing : reader iso = none) :
    Exact reader iso :=
  ⟨fun year month day writes real recent _ =>
    absurd (writes.fields recent real) (unread year month day), fun _ => nothing⟩

/-- Both readers are exact just where a date that the first one takes has its dashes, one with
dashes is real, and neither has a plus sign. They agree just where the dates up to 2100 that are
real are those with dashes. -/
theorem readers_exact_iff (iso : Bytes) :
    (Exact (fun iso => parseValidAtIso (some iso)) iso ∧ Exact parseIsoToUnix iso ↔
        ∀ year month day, Fields iso year month day →
          (year ≤ 2100 ∧ IsReal year month day → Dashes iso ∧ Unsigned iso) ∧
            (Dashes iso → IsReal year month day ∧ Unsigned iso)) ∧
      (parseValidAtIso (some iso) = parseIsoToUnix iso ↔
        ∀ year month day, Fields iso year month day →
          (year ≤ 2100 ∧ IsReal year month day ↔ Dashes iso)) := by
  by_cases read : ∃ year month day, Fields iso year month day
  · obtain ⟨year, month, day, fields⟩ := read
    have only {property : ℕ → ℕ → ℕ → Prop} :
        (∀ y m d, Fields iso y m d → property y m d) ↔ property year month day := by
      refine ⟨fun all => all year month day fields, fun holds y m d other => ?_⟩
      obtain ⟨rfl, rfl, rfl⟩ := fields.unique other
      exact holds
    rw [only, only, exact_iff_of_fields fields (parseValidAtIso_of_fields fields)
      fun _ real last => ⟨last, real⟩,
      exact_iff_of_fields fields (parseIsoToUnix_of_fields fields) fun dashes _ _ => dashes,
      parseValidAtIso_of_fields fields, parseIsoToUnix_of_fields fields]
    constructor
    · tauto
    · split_ifs <;> simp_all
  · simp only [not_exists] at read
    rw [parseValidAtIso_eq_none read, parseIsoToUnix_eq_none read]
    refine ⟨iff_of_true ⟨?_, ?_⟩ ?_, iff_of_true rfl ?_⟩
    · exact exact_of_not_fields read (parseValidAtIso_eq_none read)
    · exact exact_of_not_fields read (parseIsoToUnix_eq_none read)
    · exact fun year month day fields => absurd fields (read year month day)
    · exact fun year month day fields => absurd fields (read year month day)

/-- The first reader takes a date without dashes. -/
theorem not_readers_exact :
    ¬∀ iso, Exact (fun iso => parseValidAtIso (some iso)) iso ∧ Exact parseIsoToUnix iso := by
  intro exact
  have nothing := (exact (ascii "2024x01x05")).1.rejects fun _ _ _ writes =>
    absurd writes.dashes.1 (by decide)
  revert nothing
  decide

end Nullalis.Extraction
