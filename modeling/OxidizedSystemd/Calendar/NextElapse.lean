import OxidizedSystemd.Calendar.Parse
import OxidizedSystemd.Lib.Search
import Mathlib.Data.List.TakeWhile

/-!
# The next elapse

Model of `CalendarSpec::next_elapse` (`calendar_spec.rs`, lines 247–361): the fields of
a date-time are searched one inside the other, each from the field of the start as
long as the fields in front of it are those of the start.

* `nextElapse`: the search, which ends five years after the start.
* `search_finds`: the search finds the least date-time that matches.
* `nextElapse_least`: what is found matches, and nothing before it does.
* `nextElapse_none`: when nothing is found, nothing matches in these years.
-/

namespace OxidizedSystemd.Calendar

open OxidizedSystemd.Lib

/-- The weekday filter (lines 294–307). A range may wrap around. -/
def weekdayMatches (weekdays : Option (List WeekdayRange)) (wd : ℕ) : Bool :=
  match weekdays with
  | none => true
  | some ranges =>
    ranges.any fun r =>
      if r.start ≤ r.stop then r.start ≤ wd && wd ≤ r.stop else r.start ≤ wd || wd ≤ r.stop

namespace CalendarSpec

/-! ## The lists that are searched -/

section Search

variable (spec : CalendarSpec) (after : DateTime)

/-- `years`, each as an `i32` (lines 261–270). -/
def years : List ℤ :=
  (matchingValuesFrom (spec.year.getD .wildcard) (asU32 after.year)
    (asU32 (after.year + 5))).map fun y : ℕ => asI32 y

def monthStart (y : ℤ) : ℕ := if y = after.year then after.month else 1

/-- `months` (lines 271–273). -/
def months (y : ℤ) : List ℕ := matchingValuesFrom spec.month (monthStart after y) 12

def dayStart (y : ℤ) (m : ℕ) : ℕ := if y = after.year ∧ m = after.month then after.day else 1

/-- `days`, up to the one that is not in the month (lines 276–292). -/
def days (y : ℤ) (m : ℕ) : List ℕ :=
  let maxDay := daysInMonth y m
  let days :=
    if spec.dayFromEnd then resolveFromEndDays spec.day (dayStart after y m) maxDay
    else matchingValuesFrom spec.day (dayStart after y m) maxDay
  days.takeWhile (· ≤ maxDay)

def hourStart (y : ℤ) (m d : ℕ) : ℕ :=
  if y = after.year ∧ m = after.month ∧ d = after.day then after.hour else 0

/-- `hours` (lines 309–315). -/
def hours (y : ℤ) (m d : ℕ) : List ℕ := matchingValuesFrom spec.hour (hourStart after y m d) 23

def minuteStart (y : ℤ) (m d h : ℕ) : ℕ :=
  if y = after.year ∧ m = after.month ∧ d = after.day ∧ h = after.hour then after.minute else 0

/-- `minutes` (lines 318–328). -/
def minutes (y : ℤ) (m d h : ℕ) : List ℕ :=
  matchingValuesFrom spec.minute (minuteStart after y m d h) 59

def secondStart (y : ℤ) (m d h mi : ℕ) : ℕ :=
  if y = after.year ∧ m = after.month ∧ d = after.day ∧ h = after.hour ∧ mi = after.minute then
    after.second
  else 0

/-- `seconds` (lines 331–342). -/
def seconds (y : ℤ) (m d h mi : ℕ) : List ℕ :=
  matchingValuesFrom spec.second (secondStart after y m d h mi) 59

/-- The loops of `next_elapse` (lines 269–360). -/
def search : Option DateTime :=
  (spec.years after).findSome? fun y =>
    (spec.months after y).findSome? fun m =>
      (spec.days after y m).findSome? fun d =>
        if weekdayMatches spec.weekdays (weekday y m d) then
          (spec.hours after y m d).findSome? fun h =>
            (spec.minutes after y m d h).findSome? fun mi =>
              (spec.seconds after y m d h mi).head?.map fun s => ⟨y, m, d, h, mi, s⟩
        else none

/-- The loops inside those of `search`, from the inner one outwards. -/
def searchMinute (y : ℤ) (m d h mi : ℕ) : Option DateTime :=
  (spec.seconds after y m d h mi).head?.map fun s => ⟨y, m, d, h, mi, s⟩

def searchHour (y : ℤ) (m d h : ℕ) : Option DateTime :=
  (spec.minutes after y m d h).findSome? (spec.searchMinute after y m d h)

def searchDay (y : ℤ) (m d : ℕ) : Option DateTime :=
  if weekdayMatches spec.weekdays (weekday y m d) then
    (spec.hours after y m d).findSome? (spec.searchHour after y m d)
  else none

def searchMonth (y : ℤ) (m : ℕ) : Option DateTime :=
  (spec.days after y m).findSome? (spec.searchDay after y m)

def searchYear (y : ℤ) : Option DateTime :=
  (spec.months after y).findSome? (spec.searchMonth after y)

/-- `CalendarSpec::next_elapse` (lines 251–361). It panics, and the model returns `none`, when
    the addition in `max_year` overflows. -/
def nextElapse : Option (Option DateTime) :=
  match spec.fixedInstant with
  | some t => some (if datetimeToUnix after < t then some (unixToDatetime t) else none)
  | none => if after.year + 5 < 2 ^ 31 then some (spec.search after) else none

end Search

/-! ## What it searches for -/

/-- The date-time matches the components of the expression, and its weekdays. -/
structure Matches (spec : CalendarSpec) (t : DateTime) : Prop where
  year : componentMatches (spec.year.getD .wildcard) (asU32 t.year) = true
  month : componentMatches spec.month t.month = true
  day : dayMatches spec.dayFromEnd spec.day (daysInMonth t.year t.month) t.day = true
  weekday : weekdayMatches spec.weekdays (Calendar.weekday t.year t.month t.day) = true
  hour : componentMatches spec.hour t.hour = true
  minute : componentMatches spec.minute t.minute = true
  second : componentMatches spec.second t.second = true

/-- The date-times at or after the start that match, in the years that are searched. -/
def Candidates (spec : CalendarSpec) (after : DateTime) : Set DateTime :=
  {t | t.Valid ∧ after ≤ t ∧ spec.Matches t ∧ t.year ≤ after.year + 5}

/-- A date-time is not before the start when no field is below where its search begins. -/
theorem le_iff_starts {after t : DateTime} (hm : 1 ≤ t.month) (hd : 1 ≤ t.day) : after ≤ t ↔
    after.year ≤ t.year ∧ monthStart after t.year ≤ t.month ∧
      dayStart after t.year t.month ≤ t.day ∧ hourStart after t.year t.month t.day ≤ t.hour ∧
      minuteStart after t.year t.month t.day t.hour ≤ t.minute ∧
      secondStart after t.year t.month t.day t.hour t.minute ≤ t.second := by
  rw [DateTime.le_iff]
  unfold monthStart dayStart hourStart minuteStart secondStart
  by_cases hy : t.year = after.year
  case neg => simp only [hy, false_and, if_false]; omega
  by_cases hmonth : t.month = after.month
  case neg => simp only [hy, hmonth, true_and, false_and, if_true, if_false]; omega
  by_cases hday : t.day = after.day
  case neg => simp only [hy, hmonth, hday, true_and, false_and, if_true, if_false]; omega
  by_cases hhour : t.hour = after.hour
  case neg => simp only [hy, hmonth, hday, hhour, true_and, false_and, if_true, if_false]; omega
  by_cases hminute : t.minute = after.minute
  case neg =>
    simp only [hy, hmonth, hday, hhour, hminute, true_and, if_true, if_false]
    omega
  simp only [hy, hmonth, hday, hhour, hminute, true_and, if_true]
  omega

/-- The first value of a list, as a loop that stops at once. -/
theorem findSome?_some {α β : Type*} (L : List α) (f : α → β) :
    L.findSome? (fun a => some (f a)) = L.head?.map f := by
  cases L <;> rfl

/-! ## The years -/

/-- The casts of a year to `u32` and back are inverse to each other. -/
theorem asI32_asU32 {y : ℤ} (hlow : -2 ^ 31 ≤ y) (hhigh : y < 2 ^ 31) : asI32 (asU32 y) = y := by
  unfold asI32 asU32 Int.bmod
  dsimp only
  split <;> omega

/-- The casts keep the order of the years that are searched. -/
theorem asI32_eq {a : ℤ} {x : ℕ} (hlow : -2 ^ 31 ≤ a) (hhigh : a + 5 < 2 ^ 31)
    (h1 : asU32 a ≤ x) (h2 : x ≤ asU32 (a + 5)) :
    asI32 x = a + (x - asU32 a) ∧ x ≤ asU32 a + 5 ∧ asU32 (asI32 x) = x := by
  unfold asI32 asU32 Int.bmod at *
  dsimp only
  split <;> omega

/-- The years `-5` to `-1` are large numbers as `u32`s, and five years later the number is small. -/
theorem asU32_le {a y : ℤ} (hlow : -2 ^ 31 ≤ a) (hhigh : a + 5 < 2 ^ 31)
    (hcast : 0 ≤ a ∨ a < -5) (h1 : a ≤ y) (h2 : y ≤ a + 5) :
    asU32 a ≤ asU32 y ∧ asU32 y ≤ asU32 (a + 5) := by
  unfold asU32
  omega

section Lists

variable {spec : CalendarSpec} {after : DateTime}

theorem pairwise_years (hspec : spec.WellFormed) (hlow : -2 ^ 31 ≤ after.year)
    (hhigh : after.year + 5 < 2 ^ 31) : (spec.years after).Pairwise (· < ·) := by
  rw [years, List.pairwise_map]
  refine (pairwise_matchingValuesFrom hspec.year _ _).imp_of_mem fun {x x'} hx hx' hlt => ?_
  obtain ⟨h1, h2, -⟩ := (mem_matchingValuesFrom hspec.year).mp hx
  obtain ⟨h1', h2', -⟩ := (mem_matchingValuesFrom hspec.year).mp hx'
  rw [(asI32_eq hlow hhigh h1 h2).1, (asI32_eq hlow hhigh h1' h2').1]
  omega

theorem of_mem_years (hspec : spec.WellFormed) (hlow : -2 ^ 31 ≤ after.year)
    (hhigh : after.year + 5 < 2 ^ 31) {y : ℤ} (hy : y ∈ spec.years after) :
    after.year ≤ y ∧ y ≤ after.year + 5 ∧
      componentMatches (spec.year.getD .wildcard) (asU32 y) = true := by
  obtain ⟨x, hx, rfl⟩ := List.mem_map.mp hy
  obtain ⟨h1, h2, hmatch⟩ := (mem_matchingValuesFrom hspec.year).mp hx
  obtain ⟨heq, hle, hcast⟩ := asI32_eq hlow hhigh h1 h2
  rw [hcast]
  exact ⟨by omega, by omega, hmatch⟩

theorem mem_years_of (hspec : spec.WellFormed) (hlow : -2 ^ 31 ≤ after.year)
    (hhigh : after.year + 5 < 2 ^ 31) (hcast : 0 ≤ after.year ∨ after.year < -5) {y : ℤ}
    (h1 : after.year ≤ y) (h2 : y ≤ after.year + 5)
    (hmatch : componentMatches (spec.year.getD .wildcard) (asU32 y) = true) :
    y ∈ spec.years after := by
  have hle := asU32_le hlow hhigh hcast h1 h2
  exact List.mem_map.mpr ⟨asU32 y, (mem_matchingValuesFrom hspec.year).mpr ⟨hle.1, hle.2, hmatch⟩,
    asI32_asU32 (by omega) (by omega)⟩

/-- From `-5` to `-1` no year is searched. -/
theorem years_eq_nil (hspec : spec.WellFormed) (hyear : -5 ≤ after.year ∧ after.year < 0) :
    spec.years after = [] := by
  have hempty : matchingValuesFrom (spec.year.getD .wildcard) (asU32 after.year)
      (asU32 (after.year + 5)) = [] := by
    refine List.eq_nil_iff_forall_not_mem.mpr fun x hx => ?_
    obtain ⟨h1, h2, -⟩ := (mem_matchingValuesFrom hspec.year).mp hx
    unfold asU32 at h1 h2
    omega
  rw [years, hempty, List.map_nil]

/-! ## The other fields -/

theorem mem_months (hspec : spec.WellFormed) {y : ℤ} {m : ℕ} : m ∈ spec.months after y ↔
    monthStart after y ≤ m ∧ m ≤ 12 ∧ componentMatches spec.month m = true :=
  mem_matchingValuesFrom hspec.month

theorem one_le_dayStart (hafter : after.Valid) (y : ℤ) (m : ℕ) : 1 ≤ dayStart after y m := by
  unfold dayStart
  split
  · exact hafter.day.1
  · exact le_refl 1

/-- The days of a month that are enumerated are in the month, and the loop does not leave them. -/
theorem days_spec (hspec : spec.WellFormed) (hafter : after.Valid) (y : ℤ) (m : ℕ) :
    (spec.days after y m).Pairwise (· < ·) ∧ ∀ d, d ∈ spec.days after y m ↔
      dayStart after y m ≤ d ∧ d ≤ daysInMonth y m ∧
        dayMatches spec.dayFromEnd spec.day (daysInMonth y m) d = true := by
  have hstart := one_le_dayStart hafter y m
  have hkeep : ∀ L : List ℕ, (∀ d ∈ L, d ≤ daysInMonth y m) →
      L.takeWhile (· ≤ daysInMonth y m) = L := by
    intro L hL
    exact List.takeWhile_eq_self_iff.mpr fun d hd => decide_eq_true (hL d hd)
  unfold days
  dsimp only
  cases hend : spec.dayFromEnd with
  | true =>
    have hrange : spec.day.InRange 1 (daysInMonth y m) := by
      have h := hspec.dayRange
      rw [hend, if_pos rfl] at h
      exact CalendarComponent.InRange.mono h (daysInMonth_bounds y m).1
    have hmem := fun d => mem_resolveFromEndDays hspec.day hrange (d := d) hstart
    rw [if_pos rfl, hkeep _ fun d hd => ((hmem d).mp hd).2.1]
    exact ⟨pairwise_resolveFromEndDays hspec.day _ _, hmem⟩
  | false =>
    rw [if_neg Bool.false_ne_true,
      hkeep _ fun d hd => ((mem_matchingValuesFrom hspec.day).mp hd).2.1]
    exact ⟨pairwise_matchingValuesFrom hspec.day _ _, fun d => mem_matchingValuesFrom hspec.day⟩

theorem mem_hours (hspec : spec.WellFormed) {y : ℤ} {m d h : ℕ} : h ∈ spec.hours after y m d ↔
    hourStart after y m d ≤ h ∧ h ≤ 23 ∧ componentMatches spec.hour h = true :=
  mem_matchingValuesFrom hspec.hour

theorem mem_minutes (hspec : spec.WellFormed) {y : ℤ} {m d h mi : ℕ} :
    mi ∈ spec.minutes after y m d h ↔ minuteStart after y m d h ≤ mi ∧ mi ≤ 59 ∧
      componentMatches spec.minute mi = true :=
  mem_matchingValuesFrom hspec.minute

theorem mem_seconds (hspec : spec.WellFormed) {y : ℤ} {m d h mi s : ℕ} :
    s ∈ spec.seconds after y m d h mi ↔ secondStart after y m d h mi ≤ s ∧ s ≤ 59 ∧
      componentMatches spec.second s = true :=
  mem_matchingValuesFrom hspec.second

end Lists

/-! ## The search -/

section Found

variable {spec : CalendarSpec} {after : DateTime}

/-- A date-time is a candidate when each of its fields is in the list that is searched for it. -/
theorem mem_candidates_iff (hspec : spec.WellFormed) (hafter : after.Valid)
    (hhigh : after.year + 5 < 2 ^ 31) (hcast : 0 ≤ after.year ∨ after.year < -5) {t : DateTime} :
    t ∈ Candidates spec after ↔ t.year ∈ spec.years after ∧ t.month ∈ spec.months after t.year ∧
      t.day ∈ spec.days after t.year t.month ∧
      weekdayMatches spec.weekdays (Calendar.weekday t.year t.month t.day) = true ∧
      t.hour ∈ spec.hours after t.year t.month t.day ∧
      t.minute ∈ spec.minutes after t.year t.month t.day t.hour ∧
      t.second ∈ spec.seconds after t.year t.month t.day t.hour t.minute := by
  have hlow := hafter.year.1
  rw [mem_months hspec, (days_spec hspec hafter t.year t.month).2, mem_hours hspec,
    mem_minutes hspec, mem_seconds hspec]
  constructor
  · rintro ⟨hvalid, hle, hmatch, hfive⟩
    obtain ⟨hy, hm, hd, hh, hmi, hs⟩ := (le_iff_starts hvalid.month.1 hvalid.day.1).mp hle
    exact ⟨mem_years_of hspec hlow hhigh hcast hy hfive hmatch.year,
      ⟨hm, hvalid.month.2, hmatch.month⟩, ⟨hd, hvalid.day.2, hmatch.day⟩, hmatch.weekday,
      ⟨hh, hvalid.hour, hmatch.hour⟩, ⟨hmi, hvalid.minute, hmatch.minute⟩,
      ⟨hs, hvalid.second, hmatch.second⟩⟩
  · rintro ⟨hy, ⟨hm, hm12, hmonth⟩, ⟨hd, hdmax, hday⟩, hweekday, ⟨hh, hh23, hhour⟩,
      ⟨hmi, hmi59, hminute⟩, ⟨hs, hs59, hsecond⟩⟩
    obtain ⟨hy, hfive, hyear⟩ := of_mem_years hspec hlow hhigh hy
    have hm1 : 1 ≤ t.month := by
      refine le_trans ?_ hm
      unfold monthStart
      split
      · exact hafter.month.1
      · exact le_refl 1
    have hd1 : 1 ≤ t.day := (one_le_dayStart hafter t.year t.month).trans hd
    exact ⟨⟨⟨by omega, by omega⟩, ⟨hm1, hm12⟩, ⟨hd1, hdmax⟩, hh23, hmi59, hs59⟩,
      (le_iff_starts hm1 hd1).mpr ⟨hy, hm, hd, hh, hmi, hs⟩,
      ⟨hyear, hmonth, hday, hweekday, hhour, hminute, hsecond⟩, hfive⟩

/-- The candidates of a year, of a month of it, and so on. -/
def inYear (spec : CalendarSpec) (after : DateTime) (y : ℤ) : Set DateTime :=
  {t | t ∈ Candidates spec after ∧ t.year = y}

def inMonth (spec : CalendarSpec) (after : DateTime) (y : ℤ) (m : ℕ) : Set DateTime :=
  {t | t ∈ inYear spec after y ∧ t.month = m}

def inDay (spec : CalendarSpec) (after : DateTime) (y : ℤ) (m d : ℕ) : Set DateTime :=
  {t | t ∈ inMonth spec after y m ∧ t.day = d}

def inHour (spec : CalendarSpec) (after : DateTime) (y : ℤ) (m d h : ℕ) : Set DateTime :=
  {t | t ∈ inDay spec after y m d ∧ t.hour = h}

def inMinute (spec : CalendarSpec) (after : DateTime) (y : ℤ) (m d h mi : ℕ) : Set DateTime :=
  {t | t ∈ inHour spec after y m d h ∧ t.minute = mi}

section Levels

variable (hspec : spec.WellFormed) (hafter : after.Valid) (hhigh : after.year + 5 < 2 ^ 31)
  (hcast : 0 ≤ after.year ∨ after.year < -5) {y : ℤ} {m d h mi : ℕ}

include hspec hafter hhigh hcast

/-- Each loop goes over the values of one field, so it finds the first candidate among those that
    have the fields in front of it. -/
theorem searchMinute_finds (hy : y ∈ spec.years after) (hm : m ∈ spec.months after y)
    (hd : d ∈ spec.days after y m)
    (hw : weekdayMatches spec.weekdays (Calendar.weekday y m d) = true)
    (hh : h ∈ spec.hours after y m d) (hmi : mi ∈ spec.minutes after y m d h) :
    Finds (inMinute spec after y m d h mi) (spec.searchMinute after y m d h mi) := by
  have hmem := fun t => mem_candidates_iff hspec hafter hhigh hcast (t := t)
  have hle := DateTime.le_iff
  rw [searchMinute, ← findSome?_some]
  refine Finds.byField DateTime.second (pairwise_matchingValuesFrom hspec.second _ _) ?_ ?_ ?_
  · rintro t ⟨⟨⟨⟨⟨ht, rfl⟩, rfl⟩, rfl⟩, rfl⟩, rfl⟩
    exact ((hmem t).mp ht).2.2.2.2.2.2
  · rintro t ⟨⟨⟨⟨⟨-, hy⟩, hm⟩, hd⟩, hh⟩, hmi⟩ t' ⟨⟨⟨⟨⟨-, hy'⟩, hm'⟩, hd'⟩, hh'⟩, hmi'⟩ hlt
    exact (hle t t').mpr (by omega)
  intro s hs
  refine (Finds.singleton _).congr (Set.ext fun t => ?_)
  constructor
  · rintro rfl
    exact ⟨⟨⟨⟨⟨⟨(hmem _).mpr ⟨hy, hm, hd, hw, hh, hmi, hs⟩, rfl⟩, rfl⟩, rfl⟩, rfl⟩, rfl⟩, rfl⟩
  · rintro ⟨⟨⟨⟨⟨⟨-, rfl⟩, rfl⟩, rfl⟩, rfl⟩, rfl⟩, rfl⟩
    rfl

theorem searchHour_finds (hy : y ∈ spec.years after) (hm : m ∈ spec.months after y)
    (hd : d ∈ spec.days after y m)
    (hw : weekdayMatches spec.weekdays (Calendar.weekday y m d) = true)
    (hh : h ∈ spec.hours after y m d) :
    Finds (inHour spec after y m d h) (spec.searchHour after y m d h) := by
  have hmem := fun t => mem_candidates_iff hspec hafter hhigh hcast (t := t)
  have hle := DateTime.le_iff
  refine Finds.byField DateTime.minute (pairwise_matchingValuesFrom hspec.minute _ _) ?_ ?_
    fun mi hmi => searchMinute_finds hspec hafter hhigh hcast hy hm hd hw hh hmi
  · rintro t ⟨⟨⟨⟨ht, rfl⟩, rfl⟩, rfl⟩, rfl⟩
    exact ((hmem t).mp ht).2.2.2.2.2.1
  · rintro t ⟨⟨⟨⟨-, hy⟩, hm⟩, hd⟩, hh⟩ t' ⟨⟨⟨⟨-, hy'⟩, hm'⟩, hd'⟩, hh'⟩ hlt
    exact (hle t t').mpr (by omega)

theorem searchDay_finds (hy : y ∈ spec.years after) (hm : m ∈ spec.months after y)
    (hd : d ∈ spec.days after y m) :
    Finds (inDay spec after y m d) (spec.searchDay after y m d) := by
  have hmem := fun t => mem_candidates_iff hspec hafter hhigh hcast (t := t)
  have hle := DateTime.le_iff
  rw [searchDay]
  by_cases hw : weekdayMatches spec.weekdays (Calendar.weekday y m d) = true
  case neg =>
    rw [if_neg hw]
    refine Finds.none ?_
    rintro t ⟨⟨⟨ht, rfl⟩, rfl⟩, rfl⟩
    exact hw ((hmem t).mp ht).2.2.2.1
  rw [if_pos hw]
  refine Finds.byField DateTime.hour (pairwise_matchingValuesFrom hspec.hour _ _) ?_ ?_
    fun h hh => searchHour_finds hspec hafter hhigh hcast hy hm hd hw hh
  · rintro t ⟨⟨⟨ht, rfl⟩, rfl⟩, rfl⟩
    exact ((hmem t).mp ht).2.2.2.2.1
  · rintro t ⟨⟨⟨-, hy⟩, hm⟩, hd⟩ t' ⟨⟨⟨-, hy'⟩, hm'⟩, hd'⟩ hlt
    exact (hle t t').mpr (by omega)

theorem searchMonth_finds (hy : y ∈ spec.years after) (hm : m ∈ spec.months after y) :
    Finds (inMonth spec after y m) (spec.searchMonth after y m) := by
  have hmem := fun t => mem_candidates_iff hspec hafter hhigh hcast (t := t)
  have hle := DateTime.le_iff
  refine Finds.byField DateTime.day (days_spec hspec hafter y m).1 ?_ ?_
    fun d hd => searchDay_finds hspec hafter hhigh hcast hy hm hd
  · rintro t ⟨⟨ht, rfl⟩, rfl⟩
    exact ((hmem t).mp ht).2.2.1
  · rintro t ⟨⟨-, hy⟩, hm⟩ t' ⟨⟨-, hy'⟩, hm'⟩ hlt
    exact (hle t t').mpr (by omega)

theorem searchYear_finds (hy : y ∈ spec.years after) :
    Finds (inYear spec after y) (spec.searchYear after y) := by
  have hmem := fun t => mem_candidates_iff hspec hafter hhigh hcast (t := t)
  have hle := DateTime.le_iff
  refine Finds.byField DateTime.month (pairwise_matchingValuesFrom hspec.month _ _) ?_ ?_
    fun m hm => searchMonth_finds hspec hafter hhigh hcast hy hm
  · rintro t ⟨ht, rfl⟩
    exact ((hmem t).mp ht).2.1
  · rintro t ⟨-, hy⟩ t' ⟨-, hy'⟩ hlt
    exact (hle t t').mpr (by omega)

/-- The search finds the first candidate. -/
theorem search_finds : Finds (Candidates spec after) (spec.search after) := by
  have hmem := fun t => mem_candidates_iff hspec hafter hhigh hcast (t := t)
  have hle := DateTime.le_iff
  refine Finds.byField DateTime.year (pairwise_years hspec hafter.year.1 hhigh) ?_ ?_
    fun y hy => searchYear_finds hspec hafter hhigh hcast hy
  · exact fun t ht => ((hmem t).mp ht).1
  · exact fun t _ t' _ hlt => (hle t t').mpr (.inl hlt)

end Levels

/-- What is found is a date-time that matches, and none before it does. -/
theorem search_least (hspec : spec.WellFormed) (hafter : after.Valid)
    (hhigh : after.year + 5 < 2 ^ 31) {t : DateTime} (h : spec.search after = some t) :
    IsLeast (Candidates spec after) t := by
  by_cases hcast : 0 ≤ after.year ∨ after.year < -5
  · have hfinds := search_finds hspec hafter hhigh hcast
    rwa [h] at hfinds
  · have hnil : spec.search after = none := by
      rw [search, years_eq_nil hspec (by omega)]
      rfl
    rw [hnil] at h
    cases h

end Found

/-- Whatever the parser accepts, a date-time that is found for a start is valid, is not before the
    start and matches, and no date-time in between matches. -/
theorem nextElapse_least {input : List Char} {spec : CalendarSpec} {after t : DateTime}
    (hparse : parse input = .ok spec) (hinstant : spec.fixedInstant = none)
    (hafter : after.Valid) (h : spec.nextElapse after = some (some t)) :
    t.Valid ∧ after ≤ t ∧ spec.Matches t ∧
      ∀ t' : DateTime, t'.Valid → after ≤ t' → t' < t → ¬ spec.Matches t' := by
  rw [nextElapse, hinstant] at h
  dsimp only at h
  split at h
  · rename_i hhigh
    obtain ⟨⟨hvalid, hle, hmatch, hfive⟩, hleast⟩ :=
      search_least (parse_wellFormed hparse) hafter hhigh (Option.some.inj h)
    refine ⟨hvalid, hle, hmatch, fun t' hvalid' hle' hlt hmatch' => ?_⟩
    have hyear : t'.year ≤ t.year := by
      have := (DateTime.le_iff t' t).mp hlt.le
      omega
    exact absurd (hleast ⟨hvalid', hle', hmatch', hyear.trans hfive⟩) (not_le_of_gt hlt)
  · cases h

/-- Noon of the 29 February. -/
def leapDay : CalendarSpec where
  original := "*-02-29 12:00".toList
  weekdays := none
  year := none
  month := .list [.exact 2]
  day := .list [.exact 29]
  dayFromEnd := false
  hour := .list [.exact 12]
  minute := .list [.exact 0]
  second := .list [.exact 0]
  utc := false
  fixedInstant := none

theorem parse_leapDay : parse "*-02-29 12:00".toList = .ok leapDay := by decide

/-- From March 2025 on, the next one is in 2028. -/
theorem nextElapse_least_leapDay :
    (⟨2028, 2, 29, 12, 0, 0⟩ : DateTime).Valid ∧
      (⟨2025, 3, 1, 0, 0, 0⟩ : DateTime) ≤ ⟨2028, 2, 29, 12, 0, 0⟩ ∧
      leapDay.Matches ⟨2028, 2, 29, 12, 0, 0⟩ ∧
      ∀ t' : DateTime, t'.Valid → ⟨2025, 3, 1, 0, 0, 0⟩ ≤ t' → t' < ⟨2028, 2, 29, 12, 0, 0⟩ →
        ¬ leapDay.Matches t' :=
  nextElapse_least parse_leapDay rfl ⟨by decide, by decide, by decide, by decide, by decide,
    by decide⟩ (by decide)

/-- When nothing is found, no date-time from the start to the end of the fifth year after the
    start's matches; an instant is not after the start. -/
theorem nextElapse_none {input : List Char} {spec : CalendarSpec} {after : DateTime}
    (hparse : parse input = .ok spec) (hafter : after.Valid)
    (hcast : 0 ≤ after.year ∨ after.year < -5) (h : spec.nextElapse after = some none) :
    (∀ instant, spec.fixedInstant = some instant → instant ≤ datetimeToUnix after) ∧
    (spec.fixedInstant = none →
      ∀ t : DateTime, t.Valid → after ≤ t → t.year ≤ after.year + 5 → ¬ spec.Matches t) := by
  constructor
  · intro instant hinstant
    rw [nextElapse, hinstant] at h
    dsimp only at h
    split at h
    · cases h
    · rename_i hlt
      exact not_lt.mp hlt
  · intro hinstant
    rw [nextElapse, hinstant] at h
    dsimp only at h
    split at h
    · rename_i hhigh
      have hfinds := search_finds (parse_wellFormed hparse) hafter hhigh hcast
      rw [Option.some.inj h] at hfinds
      have hempty : Candidates spec after = ∅ := hfinds
      intro t hvalid hle hfive hmatch
      exact Set.eq_empty_iff_forall_notMem.mp hempty t ⟨hvalid, hle, hmatch, hfive⟩
    · cases h

/-- From March 2096 to the end of 2101 there is no 29 February. -/
theorem nextElapse_none_leapDay :
    (∀ instant, leapDay.fixedInstant = some instant →
      instant ≤ datetimeToUnix ⟨2096, 3, 1, 0, 0, 0⟩) ∧
    (leapDay.fixedInstant = none → ∀ t : DateTime, t.Valid → ⟨2096, 3, 1, 0, 0, 0⟩ ≤ t →
      t.year ≤ 2096 + 5 → ¬ leapDay.Matches t) :=
  nextElapse_none parse_leapDay ⟨by decide, by decide, by decide, by decide, by decide, by decide⟩
    (.inl (by decide)) (by decide)

/-- There is one in 2104, which is not found. -/
theorem nextElapse_misses_leapDay :
    parse "*-02-29 12:00".toList = .ok leapDay ∧
      (⟨2096, 3, 1, 0, 0, 0⟩ : DateTime).Valid ∧
      leapDay.nextElapse ⟨2096, 3, 1, 0, 0, 0⟩ = some none ∧
      ∃ t : DateTime, t.Valid ∧ ⟨2096, 3, 1, 0, 0, 0⟩ ≤ t ∧ t.year ≤ 2199 ∧ leapDay.Matches t := by
  refine ⟨parse_leapDay, ⟨by decide, by decide, by decide, by decide, by decide, by decide⟩,
    by decide, ⟨2104, 2, 29, 12, 0, 0⟩, ?_, ?_, by decide, ?_⟩
  · exact ⟨by decide, by decide, by decide, by decide, by decide, by decide⟩
  · rw [DateTime.le_iff]
    decide
  · exact ⟨by decide, by decide, by decide, by decide, by decide, by decide, by decide⟩

end CalendarSpec

end OxidizedSystemd.Calendar
