import OxidizedSystemd.Calendar.Civil
import Mathlib.Data.Int.ConditionallyCompleteOrder
import Mathlib.Data.Int.SuccPred
import Mathlib.Data.Set.Function
import Mathlib.Order.Interval.Set.Defs

/-!
# Civil dates are exact

The date arithmetic of `calendar_spec.rs` (lines 983–1037) runs both ways
without a gap.

* `civilFromDays_daysFromCivil`: a date comes back from its number.
* `daysFromCivil_lt`: the numbers keep the order of the dates.
* `exists_date`: every number in range is that of a date.
* `civil_arithmetic_exact`: these together, for days and for seconds.
-/

namespace OxidizedSystemd.Calendar

variable {y : ℤ} {m d : ℕ}

/-! ## From a date to its number and back -/

/-- The truncated division of `civil_from_days` rounds down. -/
theorem tdiv_era_days (z : ℤ) : (if 0 ≤ z then z else z - 146096).tdiv 146097 = z / 146097 := by
  split
  · rename_i h
    exact Int.tdiv_eq_ediv_of_nonneg h
  · rename_i h
    have hneg : (z - 146096).tdiv 146097 = -((146096 - z).tdiv 146097) := by
      rw [← Int.neg_tdiv, Int.neg_sub]
    rw [hneg, Int.tdiv_eq_ediv_of_nonneg (by omega)]
    omega

/-- The year of an era, which begins with March, from the day of the era: the day is the `doy`-th of
    the `k`-th year, and only leap years have a 366th day. -/
theorem yoe_eq {k doy n : ℕ} (hk : k ≤ 399) (hdoy : doy ≤ 365)
    (hleap : doy = 365 → (k + 1) % 4 = 0 ∧ ((k + 1) % 100 ≠ 0 ∨ k = 399))
    (hn : n = 365 * k + k / 4 - k / 100 + doy) :
    (n - n / 1460 + n / 36524 - n / 146096) / 365 = k := by
  -- the year is split into centuries, cycles of four years and years
  obtain ⟨c, q, s, hq, hs, rfl⟩ : ∃ c q s, q ≤ 24 ∧ s ≤ 3 ∧ k = 100 * c + 4 * q + s :=
    ⟨k / 100, k % 100 / 4, k % 4, by omega, by omega, by omega⟩
  have hcentury : (100 * c + 4 * q + s) / 100 = c := by omega
  have hfour : (100 * c + 4 * q + s) / 4 = 25 * c + q := by omega
  have hday : n = 36524 * c + 1461 * q + 365 * s + doy := by omega
  clear hn hcentury hfour
  by_cases hlast : n = 146096
  · subst hlast
    omega
  · have hc : c ≤ 3 := by omega
    have hlt : n < 36524 * (c + 1) := by omega
    have h1 : n / 36524 = c := by omega
    have h2 : n / 146096 = 0 := by omega
    rw [h1, h2]
    by_cases hlate : 24 * c + q + 365 * s + doy < 1460
    · have h3 : n / 1460 = 25 * c + q := by omega
      rw [h3]
      omega
    · have h3 : n / 1460 = 25 * c + q + 1 := by omega
      rw [h3]
      omega

theorem daysInMonth_eq (hm : 1 ≤ m ∧ m ≤ 12) :
    daysInMonth y m =
      if m = 2 then (if isLeapYear y then 29 else 28) else 30 + (m + m / 8) % 2 := by
  obtain ⟨h1, h12⟩ := hm
  interval_cases m <;> rfl

/-- A month and a day from the day of a year that begins with March. -/
theorem month_of_dayOfYear (hm : 1 ≤ m ∧ m ≤ 12) (hd : 1 ≤ d ∧ d ≤ daysInMonth y m) :
    (5 * dayOfYear m d + 2) / 153 = (if 2 < m then m - 3 else m + 9) ∧
      dayOfYear m d - (153 * (if 2 < m then m - 3 else m + 9) + 2) / 5 + 1 = d := by
  have hlen : daysInMonth y m ≤ if m = 2 then 29 else 30 + (m + m / 8) % 2 := by
    rw [daysInMonth_eq hm]
    split_ifs <;> omega
  unfold dayOfYear
  obtain ⟨h1, h12⟩ := hm
  interval_cases m <;> simp at hlen ⊢ <;> omega

/-- A year that begins with March has 366 days only before a leap year's March. -/
theorem dayOfYear_le (hm : 1 ≤ m ∧ m ≤ 12) (hd : 1 ≤ d ∧ d ≤ daysInMonth y m) :
    dayOfYear m d ≤ 365 ∧ (dayOfYear m d = 365 → m ≤ 2 ∧ isLeapYear y = true) := by
  have hlen := hd.2
  rw [daysInMonth_eq hm] at hlen
  unfold dayOfYear
  split_ifs at hlen with h2 hleap
  · subst h2
    exact ⟨by simp; omega, fun _ => ⟨by omega, hleap⟩⟩
  · subst h2
    simp
    omega
  · split_ifs <;> omega

theorem asI32_of_range {x : ℤ} (h : -2 ^ 31 ≤ x ∧ x < 2 ^ 31) : asI32 x = x := by
  rw [asI32, Int.bmod_eq_iff (by decide)]
  omega

/-- A date of the calendar; the year is an `i32`. -/
structure ValidDate (y : ℤ) (m d : ℕ) : Prop where
  year : -2 ^ 31 ≤ y ∧ y < 2 ^ 31
  month : 1 ≤ m ∧ m ≤ 12
  day : 1 ≤ d ∧ d ≤ daysInMonth y m

/-- A date comes back from its number. -/
theorem civilFromDays_daysFromCivil (h : ValidDate y m d) :
    civilFromDays (daysFromCivil y m d) = (y, m, d) := by
  obtain ⟨hmp, hday⟩ := month_of_dayOfYear h.month h.day
  obtain ⟨hdoy, hlast⟩ := dayOfYear_le h.month h.day
  obtain ⟨k, era, hk, hyear⟩ : ∃ (k : ℕ) (era : ℤ), k ≤ 399 ∧
      (if m ≤ 2 then y - 1 else y) = 400 * era + k :=
    ⟨((if m ≤ 2 then y - 1 else y) % 400).toNat, (if m ≤ 2 then y - 1 else y) / 400, by omega,
      by omega⟩
  have hleap : dayOfYear m d = 365 → (k + 1) % 4 = 0 ∧ ((k + 1) % 100 ≠ 0 ∨ k = 399) := by
    intro h365
    obtain ⟨hm, hy⟩ := hlast h365
    rw [if_pos hm] at hyear
    simp only [isLeapYear, Bool.or_eq_true, Bool.and_eq_true, decide_eq_true_eq] at hy
    omega
  generalize hn : 365 * k + k / 4 - k / 100 + dayOfYear m d = n
  have hnlt : n < 146097 := by omega
  have hz : daysFromCivil y m d + 719468 = era * 146097 + n := by
    have h4 : (400 * era + k) / 4 = 100 * era + (k / 4 : ℕ) := by omega
    have h100 : (400 * era + k) / 100 = 4 * era + (k / 100 : ℕ) := by omega
    have h400 : (400 * era + k) / 400 = era := by omega
    rw [daysFromCivil_eq, hyear, marchFirst, h4, h100, h400, ← hn]
    omega
  have hera : (era * 146097 + n) / 146097 = era := by omega
  have hdoe : (era * 146097 + (n : ℤ) - era * 146097).toNat = n := by omega
  have hrest : n - (365 * k + k / 4 - k / 100) = dayOfYear m d := by omega
  unfold civilFromDays
  dsimp only
  rw [hz, tdiv_era_days, hera, hdoe, yoe_eq hk hdoy hleap hn.symm, hrest, hmp, hday]
  have hmonth : (if (if 2 < m then m - 3 else m + 9) < 10 then
      (if 2 < m then m - 3 else m + 9) + 3 else (if 2 < m then m - 3 else m + 9) - 9) = m := by
    have := h.month
    split_ifs <;> omega
  have hback : (if m ≤ 2 then (k : ℤ) + era * 400 + 1 else k + era * 400) = y := by
    split_ifs at hyear ⊢ <;> omega
  rw [hmonth, hback, asI32_of_range h.year]

/-! ## The order of dates -/

/-- Months follow each other. -/
theorem daysFromCivil_nextMonth (y : ℤ) (hm : 1 ≤ m ∧ m < 12) :
    daysFromCivil y (m + 1) 1 = daysFromCivil y m (daysInMonth y m) + 1 := by
  have hbounds := daysInMonth_bounds y m
  have h := daysFromCivil_nextDay (y := y) (m := m) (d := daysInMonth y m) (by omega) (by omega)
  rwa [nextDay, if_neg (lt_irrefl _), if_pos hm.2] at h

/-- Years follow each other. -/
theorem daysFromCivil_nextYear (y : ℤ) :
    daysFromCivil (y + 1) 1 1 = daysFromCivil y 12 31 + 1 := by
  have hlast : daysInMonth y 12 = 31 := rfl
  have h := daysFromCivil_nextDay (y := y) (m := 12) (d := 31) (by decide) (by omega)
  rwa [nextDay, hlast, if_neg (lt_irrefl _), if_neg (lt_irrefl _)] at h

/-- The days of a month follow each other. -/
theorem daysFromCivil_add_day (y : ℤ) (m : ℕ) {d d' : ℕ} (hd : 1 ≤ d) (hle : d ≤ d') :
    daysFromCivil y m d' = daysFromCivil y m d + (d' - d : ℕ) := by
  rw [daysFromCivil_eq, daysFromCivil_eq]
  unfold dayOfYear
  omega

/-- The days of a month are before the later months of the year. -/
theorem daysFromCivil_lt_month {m' : ℕ} (hm : 1 ≤ m) (hlt : m < m') (hm' : m' ≤ 12)
    (hd : 1 ≤ d ∧ d ≤ daysInMonth y m) : daysFromCivil y m d < daysFromCivil y m' 1 := by
  induction m', hlt using Nat.le_induction with
  | base =>
    rw [daysFromCivil_nextMonth y ⟨hm, by omega⟩,
      daysFromCivil_add_day y m hd.1 hd.2]
    omega
  | succ m' hle ih =>
    have hbounds := daysInMonth_bounds y m'
    rw [daysFromCivil_nextMonth y ⟨by omega, by omega⟩,
      daysFromCivil_add_day y m' le_rfl (by omega : 1 ≤ daysInMonth y m')]
    have := ih (by omega)
    omega

/-- The days of a year are before the later years. -/
theorem daysFromCivil_lt_year {y' : ℤ} (hlt : y < y') (hm : 1 ≤ m ∧ m ≤ 12)
    (hd : 1 ≤ d ∧ d ≤ daysInMonth y m) : daysFromCivil y m d < daysFromCivil y' 1 1 := by
  have hlast (y : ℤ) {m d : ℕ} (hm : 1 ≤ m ∧ m ≤ 12) (hd : 1 ≤ d ∧ d ≤ daysInMonth y m) :
      daysFromCivil y m d ≤ daysFromCivil y 12 31 := by
    rcases lt_or_eq_of_le hm.2 with hm' | rfl
    · have hmonth := daysFromCivil_lt_month hm.1 hm' le_rfl hd
      have hday := daysFromCivil_add_day y 12 le_rfl (by decide : 1 ≤ 31)
      omega
    · have hday := daysFromCivil_add_day y 12 hd.1 hd.2
      have hlen : daysInMonth y 12 = 31 := rfl
      rw [hlen] at hday
      omega
  induction y', (Int.add_one_le_iff.mpr hlt) using Int.leInduction with
  | base =>
    rw [daysFromCivil_nextYear]
    exact Int.lt_add_one_iff.mpr (hlast y hm hd)
  | succ y' hle ih =>
    have hfirst : daysFromCivil y' 1 1 ≤ daysFromCivil y' 12 31 := by
      have hbounds := daysInMonth_bounds y' 1
      exact hlast y' ⟨le_rfl, by decide⟩ ⟨le_rfl, by omega⟩
    rw [daysFromCivil_nextYear]
    have := ih (by omega)
    omega

/-- A later date has a greater number. -/
theorem daysFromCivil_lt {y' : ℤ} {m' d' : ℕ} (hm : 1 ≤ m ∧ m ≤ 12)
    (hd : 1 ≤ d ∧ d ≤ daysInMonth y m) (hm' : 1 ≤ m' ∧ m' ≤ 12) (hd' : 1 ≤ d')
    (hlt : y < y' ∨ y = y' ∧ (m < m' ∨ m = m' ∧ d < d')) :
    daysFromCivil y m d < daysFromCivil y' m' d' := by
  have hfirst : daysFromCivil y' m' 1 ≤ daysFromCivil y' m' d' := by
    have := daysFromCivil_add_day y' m' le_rfl hd'
    omega
  rcases hlt with hy | ⟨rfl, hmonth | ⟨rfl, hday⟩⟩
  · have hyear := daysFromCivil_lt_year hy hm hd
    rcases eq_or_lt_of_le hm'.1 with rfl | hone
    · omega
    · have hbounds := daysInMonth_bounds y' 1
      have := daysFromCivil_lt_month (y := y') le_rfl hone hm'.2 (d := 1) ⟨le_rfl, by omega⟩
      omega
  · have := daysFromCivil_lt_month hm.1 hmonth hm'.2 hd
    omega
  · have := daysFromCivil_add_day y m hd.1 hday.le
    omega

/-! ## The numbers of dates -/

/-- The number of the first date. -/
def firstDay : ℤ := daysFromCivil (-2 ^ 31) 1 1

/-- The number of the last date. -/
def lastDay : ℤ := daysFromCivil (2 ^ 31 - 1) 12 31

theorem ValidDate.mem_range (h : ValidDate y m d) :
    firstDay ≤ daysFromCivil y m d ∧ daysFromCivil y m d ≤ lastDay := by
  obtain ⟨hy, hm, hd⟩ := h
  constructor
  · by_cases heq : y = -2 ^ 31 ∧ m = 1 ∧ d = 1
    · obtain ⟨rfl, rfl, rfl⟩ := heq
      exact le_rfl
    · exact (daysFromCivil_lt (by decide) (by decide) hm hd.1 (by omega)).le
  · have hlen : m = 12 → daysInMonth y m = 31 := by
      rintro rfl
      rfl
    by_cases heq : y = 2 ^ 31 - 1 ∧ m = 12 ∧ d = 31
    · obtain ⟨rfl, rfl, rfl⟩ := heq
      exact le_rfl
    · exact (daysFromCivil_lt hm hd (by decide) (by decide) (by omega)).le

/-- The day after a date is a date, but for the last one. -/
theorem ValidDate.nextDay (h : ValidDate y m d) (hlt : daysFromCivil y m d < lastDay) :
    ValidDate (nextDay y m d).1 (nextDay y m d).2.1 (nextDay y m d).2.2 := by
  obtain ⟨hy, hm, hd⟩ := h
  rw [Calendar.nextDay]
  split_ifs with hday hmonth
  · show ValidDate y m (d + 1)
    exact ⟨hy, hm, by omega, hday⟩
  · show ValidDate y (m + 1) 1
    have hbounds := daysInMonth_bounds y (m + 1)
    exact ⟨hy, ⟨by omega, hmonth⟩, le_rfl, by omega⟩
  · show ValidDate (y + 1) 1 1
    have hbounds := daysInMonth_bounds (y + 1) 1
    refine ⟨⟨by omega, ?_⟩, ⟨le_rfl, by omega⟩, le_rfl, by omega⟩
    by_contra hlast
    obtain rfl : y = 2 ^ 31 - 1 := by omega
    obtain rfl : m = 12 := by omega
    obtain rfl : d = 31 := Nat.le_antisymm hd.2 (Nat.not_lt.mp hday)
    exact lt_irrefl _ hlt

/-- Every number in range is that of a date. -/
theorem exists_date {z : ℤ} (hfirst : firstDay ≤ z) (hlast : z ≤ lastDay) :
    ∃ y m d, ValidDate y m d ∧ daysFromCivil y m d = z := by
  induction z, hfirst using Int.leInduction with
  | base => exact ⟨-2 ^ 31, 1, 1, ⟨by decide, by decide, by decide⟩, rfl⟩
  | succ z hle ih =>
    obtain ⟨y, m, d, hvalid, rfl⟩ := ih (by omega)
    exact ⟨_, _, _, hvalid.nextDay (by omega), daysFromCivil_nextDay hvalid.month hvalid.day⟩

/-! ## Days and seconds -/

/-- The number of a date. -/
def dayNumber (date : ℤ × ℕ × ℕ) : ℤ := daysFromCivil date.1 date.2.1 date.2.2

/-- The dates of the calendar. -/
def validDates : Set (ℤ × ℕ × ℕ) := {date | ValidDate date.1 date.2.1 date.2.2}

/-- The seconds of the days of the calendar. -/
def secondRange : Set ℤ := Set.Icc (firstDay * 86400) (lastDay * 86400 + 86399)

theorem DateTime.Valid.date {dt : DateTime} (h : dt.Valid) : ValidDate dt.year dt.month dt.day :=
  ⟨h.year, h.month, h.day⟩

theorem datetimeToUnix_mem {dt : DateTime} (h : dt.Valid) : datetimeToUnix dt ∈ secondRange := by
  obtain ⟨hfirst, hlast⟩ := h.date.mem_range
  have hhour := h.hour
  have hminute := h.minute
  have hsecond := h.second
  unfold datetimeToUnix
  constructor <;> omega

/-- A date and a time come back from their seconds. -/
theorem unixToDatetime_datetimeToUnix {dt : DateTime} (h : dt.Valid) :
    unixToDatetime (datetimeToUnix dt) = dt := by
  have hhour := h.hour
  have hminute := h.minute
  have hsecond := h.second
  have hdays : datetimeToUnix dt / 86400 = daysFromCivil dt.year dt.month dt.day := by
    unfold datetimeToUnix
    omega
  have hsecs : (datetimeToUnix dt % 86400).toNat =
      dt.hour * 3600 + dt.minute * 60 + dt.second := by
    unfold datetimeToUnix
    omega
  have htime : (dt.hour * 3600 + dt.minute * 60 + dt.second) / 3600 = dt.hour ∧
      (dt.hour * 3600 + dt.minute * 60 + dt.second) % 3600 / 60 = dt.minute ∧
      (dt.hour * 3600 + dt.minute * 60 + dt.second) % 60 = dt.second := by omega
  unfold unixToDatetime
  dsimp only
  rw [hdays, hsecs, civilFromDays_daysFromCivil h.date, htime.1, htime.2.1, htime.2.2]

/-- Every second in range is that of a date and a time. -/
theorem exists_datetime {s : ℤ} (hs : s ∈ secondRange) :
    ∃ dt : DateTime, dt.Valid ∧ datetimeToUnix dt = s := by
  obtain ⟨hfirst, hlast⟩ := hs
  obtain ⟨y, m, d, hdate, hday⟩ := exists_date (z := s / 86400) (by omega) (by omega)
  refine ⟨⟨y, m, d, (s % 86400).toNat / 3600, (s % 86400).toNat % 3600 / 60,
    (s % 86400).toNat % 60⟩, ⟨hdate.year, hdate.month, hdate.day, ?_, ?_, ?_⟩, ?_⟩
  · dsimp only
    omega
  · dsimp only
    omega
  · dsimp only
    omega
  · unfold datetimeToUnix
    dsimp only
    omega

/-- A later date and time has more seconds. -/
theorem datetimeToUnix_lt {dt dt' : DateTime} (h : dt.Valid) (h' : dt'.Valid) (hlt : dt < dt') :
    datetimeToUnix dt < datetimeToUnix dt' := by
  have hnot := not_le_of_gt hlt
  rw [DateTime.le_iff] at hnot
  have hhour := h.hour
  have hminute := h.minute
  have hsecond := h.second
  unfold datetimeToUnix
  by_cases hdate : dt.year = dt'.year ∧ dt.month = dt'.month ∧ dt.day = dt'.day
  · rw [hdate.1, hdate.2.1, hdate.2.2]
    omega
  · have hday : daysFromCivil dt.year dt.month dt.day < daysFromCivil dt'.year dt'.month dt'.day :=
      daysFromCivil_lt h.month h.day h'.month h'.day.1 (by omega)
    omega

/-- Dates and their numbers, and dates with times and their seconds, are the same thing in both
    directions, in the same order, and the days of the week follow each other. -/
theorem civil_arithmetic_exact :
    (Set.BijOn dayNumber validDates (Set.Icc firstDay lastDay) ∧
      Set.InvOn civilFromDays dayNumber validDates (Set.Icc firstDay lastDay)) ∧
    (Set.BijOn datetimeToUnix {dt | dt.Valid} secondRange ∧
      Set.InvOn unixToDatetime datetimeToUnix {dt | dt.Valid} secondRange ∧
      StrictMonoOn datetimeToUnix {dt | dt.Valid} ∧ StrictMonoOn unixToDatetime secondRange) ∧
    ∀ y m d, ValidDate y m d →
      weekday (nextDay y m d).1 (nextDay y m d).2.1 (nextDay y m d).2.2 =
        (weekday y m d + 1) % 7 := by
  have hdates : Set.LeftInvOn civilFromDays dayNumber validDates :=
    fun _ h => civilFromDays_daysFromCivil h
  have hdays : Set.SurjOn dayNumber validDates (Set.Icc firstDay lastDay) := by
    rintro z ⟨hfirst, hlast⟩
    obtain ⟨y, m, d, hvalid, hz⟩ := exists_date hfirst hlast
    exact ⟨(y, m, d), hvalid, hz⟩
  have htimes : Set.LeftInvOn unixToDatetime datetimeToUnix {dt | dt.Valid} :=
    fun _ h => unixToDatetime_datetimeToUnix h
  have hseconds : Set.SurjOn datetimeToUnix {dt | dt.Valid} secondRange := by
    intro s hs
    obtain ⟨dt, hvalid, heq⟩ := exists_datetime hs
    exact ⟨dt, hvalid, heq⟩
  have hmono : StrictMonoOn datetimeToUnix {dt | dt.Valid} :=
    fun _ h _ h' hlt => datetimeToUnix_lt h h' hlt
  refine ⟨⟨⟨fun _ h => ValidDate.mem_range h, hdates.injOn, hdays⟩, hdates,
    hdates.rightInvOn_image.mono hdays⟩, ⟨⟨fun _ h => datetimeToUnix_mem h, htimes.injOn, hseconds⟩,
    ⟨htimes, htimes.rightInvOn_image.mono hseconds⟩, hmono, ?_⟩, fun y m d h =>
      weekday_nextDay h.month h.day⟩
  intro s hs s' hs' hlt
  obtain ⟨dt, hvalid, rfl⟩ := hseconds hs
  obtain ⟨dt', hvalid', rfl⟩ := hseconds hs'
  rw [htimes hvalid, htimes hvalid']
  exact (hmono.lt_iff_lt hvalid hvalid').mp hlt

end OxidizedSystemd.Calendar
