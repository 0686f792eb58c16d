import Mathlib.Algebra.Order.Ring.Int
import Mathlib.Data.Prod.Lex
import Mathlib.Order.Basic
import Mathlib.Tactic.IntervalCases

/-!
# Civil dates

Model of the date arithmetic of `calendar_spec.rs` (lines 83–93, 424–428 and
983–1061). A `DateTime` has a year, which is an `i32` in the source, and five other
fields, which are `u32`; the days are `i64`.

* `DateTime.Valid`: the dates and times that exist.
* `daysFromCivil_nextDay`: the day after a date has the next number.
* `weekday_nextDay`: the days of the week.
-/

namespace OxidizedSystemd.Calendar

/-- `struct DateTime` (lines 85–93), ordered by its fields, the first one first. -/
structure DateTime where
  year : ℤ
  month : ℕ
  day : ℕ
  hour : ℕ
  minute : ℕ
  second : ℕ
  deriving DecidableEq

/-- The cast of an integer to `u32`. -/
def asU32 (x : ℤ) : ℕ := (x % 2 ^ 32).toNat

/-- The cast of an integer to `i32`. -/
def asI32 (x : ℤ) : ℤ := Int.bmod x (2 ^ 32)

/-- `is_leap_year` (lines 1044–1046). -/
def isLeapYear (y : ℤ) : Bool := (y % 4 = 0 && y % 100 ≠ 0) || y % 400 = 0

/-- `days_in_month` (lines 1048–1061). -/
def daysInMonth (y : ℤ) (m : ℕ) : ℕ :=
  match m with
  | 1 | 3 | 5 | 7 | 8 | 10 | 12 => 31
  | 4 | 6 | 9 | 11 => 30
  | 2 => if isLeapYear y then 29 else 28
  | _ => 30

/-- `days_from_civil` (lines 989–1000). The division truncates. -/
def daysFromCivil (y : ℤ) (m d : ℕ) : ℤ :=
  let y := if m ≤ 2 then y - 1 else y
  let era := (if 0 ≤ y then y else y - 399).tdiv 400
  let yoe := (y - era * 400).toNat
  let mAdj := if 2 < m then m - 3 else m + 9
  let doy := (153 * mAdj + 2) / 5 + d - 1
  let doe := yoe * 365 + yoe / 4 - yoe / 100 + doy
  era * 146097 + doe - 719468

/-- `weekday` (lines 1033–1037): 0 is Monday. -/
def weekday (y : ℤ) (m d : ℕ) : ℕ := ((daysFromCivil y m d % 7 + 3) % 7).toNat

/-- `civil_from_days` (lines 1003–1015). -/
def civilFromDays (z : ℤ) : ℤ × ℕ × ℕ :=
  let z := z + 719468
  let era := (if 0 ≤ z then z else z - 146096).tdiv 146097
  let doe := (z - era * 146097).toNat
  let yoe := (doe - doe / 1460 + doe / 36524 - doe / 146096) / 365
  let y := yoe + era * 400
  let doy := doe - (365 * yoe + yoe / 4 - yoe / 100)
  let mp := (5 * doy + 2) / 153
  let d := doy - (153 * mp + 2) / 5 + 1
  let m := if mp < 10 then mp + 3 else mp - 9
  (asI32 (if m ≤ 2 then y + 1 else y), m, d)

/-- `unix_to_datetime` (lines 1018–1030). -/
def unixToDatetime (secs : ℤ) : DateTime :=
  let days := secs / 86400
  let daySecs := (secs % 86400).toNat
  let date := civilFromDays days
  ⟨date.1, date.2.1, date.2.2, daySecs / 3600, daySecs % 3600 / 60, daySecs % 60⟩

/-- `datetime_to_unix` (lines 425–428). -/
def datetimeToUnix (dt : DateTime) : ℤ :=
  daysFromCivil dt.year dt.month dt.day * 86400 + dt.hour * 3600 + dt.minute * 60 + dt.second

/-! ## Valid dates and their order -/

/-- A date of the calendar and a time of the day; the year is an `i32`. -/
structure DateTime.Valid (dt : DateTime) : Prop where
  year : -2 ^ 31 ≤ dt.year ∧ dt.year < 2 ^ 31
  month : 1 ≤ dt.month ∧ dt.month ≤ 12
  day : 1 ≤ dt.day ∧ dt.day ≤ daysInMonth dt.year dt.month
  hour : dt.hour ≤ 23
  minute : dt.minute ≤ 59
  second : dt.second ≤ 59

theorem daysInMonth_bounds (y : ℤ) (m : ℕ) : 28 ≤ daysInMonth y m ∧ daysInMonth y m ≤ 31 := by
  unfold daysInMonth
  split
  all_goals first | decide | skip
  split <;> decide

/-- The fields, compared one after the other. -/
def DateTime.key (dt : DateTime) : ℤ ×ₗ ℕ ×ₗ ℕ ×ₗ ℕ ×ₗ ℕ ×ₗ ℕ :=
  toLex (dt.year, toLex (dt.month, toLex (dt.day, toLex (dt.hour, toLex (dt.minute, dt.second)))))

theorem DateTime.key_injective : Function.Injective DateTime.key := by
  rintro ⟨y, m, d, h, mi, s⟩ ⟨y', m', d', h', mi', s'⟩ heq
  simpa [DateTime.key] using heq

instance : LinearOrder DateTime := LinearOrder.lift' DateTime.key DateTime.key_injective

theorem DateTime.le_iff (a b : DateTime) : a ≤ b ↔
    a.year < b.year ∨ a.year = b.year ∧ (a.month < b.month ∨ a.month = b.month ∧
      (a.day < b.day ∨ a.day = b.day ∧ (a.hour < b.hour ∨ a.hour = b.hour ∧
        (a.minute < b.minute ∨ a.minute = b.minute ∧ a.second ≤ b.second)))) := by
  show a.key ≤ b.key ↔ _
  simp [DateTime.key, Prod.Lex.toLex_le_toLex]

/-! ## Days and weekdays -/

/-- The day after a date. -/
def nextDay (y : ℤ) (m d : ℕ) : ℤ × ℕ × ℕ :=
  if d < daysInMonth y m then (y, m, d + 1)
  else if m < 12 then (y, m + 1, 1)
  else (y + 1, 1, 1)

/-- The truncated division of `days_from_civil` rounds down. -/
theorem tdiv_era (y : ℤ) : (if 0 ≤ y then y else y - 399).tdiv 400 = y / 400 := by
  split
  · rename_i h
    exact Int.tdiv_eq_ediv_of_nonneg h
  · rename_i h
    have hneg : (y - 399).tdiv 400 = -((399 - y).tdiv 400) := by
      rw [← Int.neg_tdiv, Int.neg_sub]
    rw [hneg, Int.tdiv_eq_ediv_of_nonneg (by omega)]
    omega

/-- The number of the day in a year that begins with March. -/
def dayOfYear (m d : ℕ) : ℕ := (153 * (if 2 < m then m - 3 else m + 9) + 2) / 5 + d - 1

/-- The number of the first of March of a year. -/
def marchFirst (y : ℤ) : ℤ :=
  y * 365 + y / 4 - y / 100 + y / 400 - 719468

theorem daysFromCivil_eq (y : ℤ) (m d : ℕ) : daysFromCivil y m d =
    marchFirst (if m ≤ 2 then y - 1 else y) + dayOfYear m d := by
  unfold daysFromCivil marchFirst dayOfYear
  dsimp only
  generalize (if m ≤ 2 then y - 1 else y) = z
  rw [tdiv_era]
  omega

theorem marchFirst_leap (y : ℤ) :
    marchFirst y = marchFirst (y - 1) + (if isLeapYear y then 366 else 365) := by
  unfold marchFirst isLeapYear
  simp only [Bool.or_eq_true, Bool.and_eq_true, decide_eq_true_eq]
  split <;> omega

/-- The day after a date has the next number. -/
theorem daysFromCivil_nextDay {y : ℤ} {m d : ℕ} (hm : 1 ≤ m ∧ m ≤ 12)
    (hd : 1 ≤ d ∧ d ≤ daysInMonth y m) :
    daysFromCivil (nextDay y m d).1 (nextDay y m d).2.1 (nextDay y m d).2.2 =
      daysFromCivil y m d + 1 := by
  unfold nextDay
  split
  · rw [daysFromCivil_eq, daysFromCivil_eq]
    dsimp only [dayOfYear]
    omega
  · rename_i hlast
    obtain rfl : d = daysInMonth y m := by omega
    rw [daysFromCivil_eq, daysFromCivil_eq]
    obtain ⟨h1, h12⟩ := hm
    have hleap := marchFirst_leap y
    interval_cases m
    case «2» =>
      cases hy : isLeapYear y with
      | true =>
        rw [hy, if_pos rfl] at hleap
        simp [dayOfYear, daysInMonth, hy, hleap, add_assoc]
      | false =>
        rw [hy, if_neg Bool.false_ne_true] at hleap
        simp [dayOfYear, daysInMonth, hy, hleap, add_assoc]
    all_goals simp [dayOfYear, daysInMonth, add_assoc]

/-- The days of the week follow each other. -/
theorem weekday_nextDay {y : ℤ} {m d : ℕ} (hm : 1 ≤ m ∧ m ≤ 12)
    (hd : 1 ≤ d ∧ d ≤ daysInMonth y m) :
    weekday (nextDay y m d).1 (nextDay y m d).2.1 (nextDay y m d).2.2 =
      (weekday y m d + 1) % 7 := by
  unfold weekday
  rw [daysFromCivil_nextDay hm hd]
  omega

end OxidizedSystemd.Calendar
