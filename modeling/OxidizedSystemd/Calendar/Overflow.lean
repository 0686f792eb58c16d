import OxidizedSystemd.Calendar.NextElapse

/-!
# Overflow in the search for the next elapse

The enumeration of `calendar_spec.rs` (lines 785–932) and the search over it (lines 247–361) once
more, with the arithmetic of `u32`: an addition that does not fit panics, and the models here are
`none`. `Component` and `NextElapse` have the same functions over the natural numbers.

A repetition is left with its first value behind the maximum. A step or a start that is too large
for that value to be a `u32` overflows.

* `nextElapseU32_eq`: what does not overflow is what the natural numbers give.
* `nextElapseU32_isSome_iff`: exactly when the search does not overflow.
* `farSecond_overflows`: a step that the parser accepts and that does.
-/

namespace OxidizedSystemd.Calendar

open OxidizedSystemd.Lib

/-! ## Enumeration -/

/-- `a + b` as a `u32`. -/
def addU32 (a b : ℕ) : Option ℕ := if a + b < 2 ^ 32 then some (a + b) else none

/-- `a * b` as a `u32`. -/
def mulU32 (a b : ℕ) : Option ℕ := if a * b < 2 ^ 32 then some (a * b) else none

/-- `while v <= max { push v; v += step }`, of which at most `fuel` rounds are made. -/
def stepWhileU32 (step max : ℕ) : ℕ → ℕ → Option (List ℕ)
  | 0, _ => some []
  | fuel + 1, v =>
    if v ≤ max then do
      let next ← addU32 v step
      let rest ← stepWhileU32 step max fuel next
      some (v :: rest)
    else some []

/-- `if v < from` (lines 907–912 and 920–925). -/
def advanceU32 (v step start : ℕ) : Option ℕ :=
  if v < start then do
    let skipped ← mulU32 ((start - v + step - 1) / step) step
    addU32 v skipped
  else some v

/-- `collect_matching_values` (lines 891–932). -/
def collectMatchingValuesU32 (start max : ℕ) : CalendarValue → Option (List ℕ)
  | .exact e => some (if start ≤ e ∧ e ≤ max then [e] else [])
  | .range a b => some (valuesBetween (Nat.max a start) (Nat.min b max))
  | .repeats v step => do
    let v ← advanceU32 v step start
    stepWhileU32 step max (max + 1) v
  | .rangeRepeat v stop step => do
    let v ← advanceU32 v step start
    stepWhileU32 step (Nat.min stop max) (max + 1) v

/-- The first value of `*/step` (lines 863–872). -/
def firstMultipleU32 (step start : ℕ) : Option ℕ :=
  if start = 0 then some 0
  else
    let remainder := start % step
    if remainder = 0 then some start else addU32 start (step - remainder)

/-- `matching_values_from` (lines 853–889). -/
def matchingValuesFromU32 (comp : CalendarComponent) (start max : ℕ) : Option (List ℕ) :=
  match comp with
  | .wildcard => some (valuesBetween start max)
  | .wildcardRepeat step => do
    let first ← firstMultipleU32 step start
    stepWhileU32 step max (max + 1) first
  | .list values => do
    let collected ← values.mapM (collectMatchingValuesU32 start max)
    some (sortDedup collected.flatten)

/-- The days that a value of a list gives in a month (lines 803–843). -/
def fromEndDaysU32 (maxDay : ℕ) : CalendarValue → Option (List ℕ)
  | .exact n => some (absDay maxDay n).toList
  | .range a b =>
    match absDay maxDay a, absDay maxDay b with
    | some da, some db => some (valuesBetween (min da db) (max da db))
    | _, _ => some []
  | .repeats start step =>
    match absDay maxDay start with
    | some d => stepWhileU32 step maxDay (maxDay + 1) d
    | none => some []
  | .rangeRepeat a b step =>
    match absDay maxDay a, absDay maxDay b with
    | some da, some db => stepWhileU32 step (max da db) (maxDay + 1) (min da db)
    | _, _ => some []

/-- `resolve_from_end_days` (lines 785–851). -/
def resolveFromEndDaysU32 (comp : CalendarComponent) (start maxDay : ℕ) : Option (List ℕ) :=
  match comp with
  | .list values => do
    let days ← values.mapM (fromEndDaysU32 maxDay)
    some (sortDedup (days.flatten.filter (start ≤ ·)))
  | comp => matchingValuesFromU32 comp start maxDay

/-! ## The search -/

namespace CalendarSpec

section Search

variable (spec : CalendarSpec) (after : DateTime)

/-- `years` (lines 263–267). -/
def yearsU32 : Option (List ℤ) :=
  (matchingValuesFromU32 (spec.year.getD .wildcard) (asU32 after.year)
    (asU32 (after.year + 5))).map fun years => years.map fun y : ℕ => asI32 y

/-- `days` (lines 283–292). -/
def daysU32 (y : ℤ) (m : ℕ) : Option (List ℕ) :=
  let maxDay := daysInMonth y m
  let days :=
    if spec.dayFromEnd then resolveFromEndDaysU32 spec.day (dayStart after y m) maxDay
    else matchingValuesFromU32 spec.day (dayStart after y m) maxDay
  days.map fun days => days.takeWhile (· ≤ maxDay)

def searchMinuteU32 (y : ℤ) (m d h mi : ℕ) : Option (Option DateTime) := do
  let seconds ← matchingValuesFromU32 spec.second (secondStart after y m d h mi) 59
  some (seconds.head?.map fun s => ⟨y, m, d, h, mi, s⟩)

def searchHourU32 (y : ℤ) (m d h : ℕ) : Option (Option DateTime) := do
  let minutes ← matchingValuesFromU32 spec.minute (minuteStart after y m d h) 59
  minutes.findSomeM? (spec.searchMinuteU32 after y m d h)

def searchDayU32 (y : ℤ) (m d : ℕ) : Option (Option DateTime) :=
  if weekdayMatches spec.weekdays (weekday y m d) then do
    let hours ← matchingValuesFromU32 spec.hour (hourStart after y m d) 23
    hours.findSomeM? (spec.searchHourU32 after y m d)
  else some none

def searchMonthU32 (y : ℤ) (m : ℕ) : Option (Option DateTime) := do
  let days ← spec.daysU32 after y m
  days.findSomeM? (spec.searchDayU32 after y m)

def searchYearU32 (y : ℤ) : Option (Option DateTime) := do
  let months ← matchingValuesFromU32 spec.month (monthStart after y) 12
  months.findSomeM? (spec.searchMonthU32 after y)

/-- The loops of `next_elapse` (lines 269–360). -/
def searchU32 : Option (Option DateTime) := do
  let years ← spec.yearsU32 after
  years.findSomeM? (spec.searchYearU32 after)

/-- `CalendarSpec::next_elapse` (lines 251–361). It is `none` where an addition overflows, that of
    an `i32` in `max_year` included. -/
def nextElapseU32 : Option (Option DateTime) :=
  match spec.fixedInstant with
  | some t => some (if datetimeToUnix after < t then some (unixToDatetime t) else none)
  | none => if after.year + 5 < 2 ^ 31 then spec.searchU32 after else none

end Search

end CalendarSpec

/-! ## Repetitions -/

/-- The first value of a progression that is not below `lo` and is behind `hi` is reached by
    additions of `u32`s. -/
def StepFits (v step lo hi : ℕ) : Prop :=
  ∃ k, lo ≤ v + k * step ∧ hi < v + k * step ∧ (0 < k → v + k * step < 2 ^ 32)

theorem addU32_gives (a b : ℕ) : Gives (addU32 a b) (a + b < 2 ^ 32) (a + b) := by
  rw [addU32]
  split
  · rename_i hfits
    exact (Gives.some _).congr (iff_of_true trivial hfits)
  · rename_i hover
    exact Gives.of_not hover _

theorem mulU32_gives (a b : ℕ) : Gives (mulU32 a b) (a * b < 2 ^ 32) (a * b) := by
  rw [mulU32]
  split
  · rename_i hfits
    exact (Gives.some _).congr (iff_of_true trivial hfits)
  · rename_i hover
    exact Gives.of_not hover _

/-- One more step. -/
theorem stepFits_succ {v step max : ℕ} (hv : v ≤ max) :
    StepFits v step 0 max ↔ v + step < 2 ^ 32 ∧ StepFits (v + step) step 0 max := by
  constructor
  · rintro ⟨k, -, hhi, hk⟩
    cases k with
    | zero => omega
    | succ k =>
      rw [Nat.succ_mul] at hhi hk
      exact ⟨by omega, k, Nat.zero_le _, by omega, fun _ => by omega⟩
  · rintro ⟨hfits, k, -, hhi, hk⟩
    refine ⟨k + 1, Nat.zero_le _, ?_, fun _ => ?_⟩
    · rw [Nat.succ_mul]
      omega
    · rw [Nat.succ_mul]
      rcases Nat.eq_zero_or_pos k with rfl | hpos
      · omega
      · have := hk hpos
        omega

theorem stepFits_of_lt {v step max : ℕ} (hv : max < v) : StepFits v step 0 max :=
  ⟨0, Nat.zero_le _, by omega, by omega⟩

theorem stepWhileU32_gives {step max fuel v : ℕ} (hstep : 0 < step) (hfuel : max < v + fuel) :
    Gives (stepWhileU32 step max fuel v) (StepFits v step 0 max) (stepWhile step max fuel v) := by
  induction fuel generalizing v with
  | zero => exact (Gives.some _).congr (iff_of_true trivial (stepFits_of_lt hfuel))
  | succ fuel ih =>
    rw [stepWhileU32, stepWhile]
    by_cases hv : v ≤ max
    · rw [if_pos hv, if_pos hv]
      have hrest := (ih (v := v + step) (by omega)).bind
        (f := fun rest => some (v :: rest)) fun _ => Gives.some _
      refine ((addU32_gives v step).bind fun _ => hrest).congr ?_
      rw [and_true, stepFits_succ hv]
    · rw [if_neg hv, if_neg hv]
      exact (Gives.some _).congr (iff_of_true trivial (stepFits_of_lt (Nat.not_le.mp hv)))

/-- A loop that begins with the first value that is not below `lo`. -/
theorem stepFits_of_first {v step lo hi k : ℕ} (hlo : lo ≤ v + k * step)
    (hleast : ∀ j, lo ≤ v + j * step → k ≤ j) :
    (0 < k → v + k * step < 2 ^ 32) ∧ StepFits (v + k * step) step 0 hi ↔
      StepFits v step lo hi := by
  constructor
  · rintro ⟨hfirst, j, -, hhi, hj⟩
    rw [Nat.add_assoc, ← Nat.add_mul] at hhi hj
    refine ⟨k + j, ?_, hhi, fun hpos => ?_⟩
    · rw [Nat.add_mul]
      omega
    · rcases Nat.eq_zero_or_pos j with rfl | hjpos
      · exact hfirst hpos
      · exact hj hjpos
  · rintro ⟨i, hi0, hhi, hi⟩
    have hle := hleast i hi0
    have hmul := Nat.mul_le_mul_right step hle
    obtain ⟨j, rfl⟩ := Nat.exists_eq_add_of_le hle
    rw [Nat.add_mul, ← Nat.add_assoc] at hhi hi
    refine ⟨fun hpos => ?_, j, Nat.zero_le _, hhi, fun hpos => hi (by omega)⟩
    have := hi (by omega)
    omega

theorem advanceU32_gives {v step k start : ℕ} (hadvance : advance v step start = v + k * step)
    (hzero : k = 0 ↔ start ≤ v) : Gives (advanceU32 v step start)
      (0 < k → v + k * step < 2 ^ 32) (advance v step start) := by
  rw [advanceU32]
  by_cases hlt : v < start
  · rw [if_pos hlt, advance, if_pos hlt]
    rw [advance, if_pos hlt] at hadvance
    refine ((mulU32_gives _ step).bind fun _ => addU32_gives v _).congr ?_
    omega
  · rw [if_neg hlt, advance, if_neg hlt]
    exact (Gives.some v).congr (iff_of_true trivial (by omega))

/-- The loop of a repetition, from where it is advanced to. -/
theorem advance_stepWhileU32_gives {v step start bound max : ℕ} (hstep : 0 < step)
    (hbound : bound ≤ max) :
    Gives ((advanceU32 v step start).bind (stepWhileU32 step bound (max + 1)))
      (StepFits v step start bound) (stepWhile step bound (max + 1) (advance v step start)) := by
  obtain ⟨k, hk, hstart, hleast, hzero⟩ := advance_spec (v := v) hstep start
  refine ((advanceU32_gives hk hzero).bind fun _ =>
    stepWhileU32_gives hstep (by omega)).congr ?_
  rw [hk, stepFits_of_first hstart hleast]

/-! ## Enumeration -/

/-- A repetition can be left behind `hi`, when its enumeration begins at `lo`. -/
def CalendarValue.Fits (lo hi : ℕ) : CalendarValue → Prop
  | .repeats v step => StepFits v step lo hi
  | .rangeRepeat v stop step => StepFits v step lo (Nat.min stop hi)
  | _ => True

def CalendarComponent.Fits (lo hi : ℕ) : CalendarComponent → Prop
  | .wildcard => True
  | .wildcardRepeat step => StepFits 0 step lo hi
  | .list values => ∀ v ∈ values, v.Fits lo hi

/-- A repetition of days from the end can be left behind the month. -/
def CalendarValue.FitsFromEnd (maxDay : ℕ) : CalendarValue → Prop
  | .repeats start step => ∀ d ∈ absDay maxDay start, StepFits d step 0 maxDay
  | .rangeRepeat a b step =>
    ∀ da ∈ absDay maxDay a, ∀ db ∈ absDay maxDay b, StepFits (min da db) step 0 (max da db)
  | _ => True

theorem collectMatchingValuesU32_gives {val : CalendarValue} (hval : val.WellFormed)
    (start max : ℕ) : Gives (collectMatchingValuesU32 start max val) (val.Fits start max)
      (collectMatchingValues start max val) := by
  cases val with
  | exact e => exact Gives.some _
  | range a b => exact Gives.some _
  | repeats v step => exact advance_stepWhileU32_gives hval le_rfl
  | rangeRepeat v stop step => exact advance_stepWhileU32_gives hval.2 (Nat.min_le_right stop max)

theorem firstMultipleU32_gives {step k start : ℕ} (hstart : start < 2 ^ 32)
    (hfirst : (if start % step = 0 then start else start + (step - start % step)) = k * step) :
    Gives (firstMultipleU32 step start) (0 < k → 0 + k * step < 2 ^ 32) (k * step) := by
  rw [firstMultipleU32]
  dsimp only
  by_cases hzero : start = 0
  · rw [hzero, Nat.zero_mod, if_pos rfl] at hfirst
    rw [if_pos hzero, ← hfirst]
    exact (Gives.some 0).congr (iff_of_true trivial (by omega))
  · rw [if_neg hzero]
    by_cases hmod : start % step = 0
    · rw [if_pos hmod] at hfirst ⊢
      rw [← hfirst]
      exact (Gives.some start).congr (iff_of_true trivial (by omega))
    · rw [if_neg hmod] at hfirst ⊢
      rw [← hfirst]
      refine (addU32_gives start _).congr ?_
      have hpos : 0 < k := by
        rcases Nat.eq_zero_or_pos k with rfl | hpos
        · omega
        · exact hpos
      exact ⟨fun h _ => by omega, fun h => by have := h hpos; omega⟩

theorem matchingValuesFromU32_gives {comp : CalendarComponent} (hcomp : comp.WellFormed)
    {start : ℕ} (hstart : start < 2 ^ 32) (max : ℕ) :
    Gives (matchingValuesFromU32 comp start max) (comp.Fits start max)
      (matchingValuesFrom comp start max) := by
  cases comp with
  | wildcard => exact Gives.some _
  | wildcardRepeat step =>
    obtain ⟨k, hk, hlo, hleast⟩ := firstMultiple_spec hcomp start
    have hfirst : (if start = 0 then 0
        else if start % step = 0 then start else start + (step - start % step)) = k * step := by
      rw [← hk]
      split
      · rename_i hzero
        rw [hzero, Nat.zero_mod, if_pos rfl]
      · rfl
    rw [matchingValuesFrom]
    dsimp only
    rw [hfirst]
    refine ((firstMultipleU32_gives hstart hk).bind fun _ =>
      stepWhileU32_gives hcomp (by omega)).congr ?_
    have hloop : (0 < k → 0 + k * step < 2 ^ 32) ∧ StepFits (0 + k * step) step 0 max ↔
        StepFits 0 step start max :=
      stepFits_of_first (by omega) fun j hj => hleast j (by omega)
    rw [CalendarComponent.Fits, ← hloop, Nat.zero_add]
  | list values =>
    rw [matchingValuesFrom, List.flatMap]
    refine ((Gives.mapM fun v hv => collectMatchingValuesU32_gives (hcomp v hv) start max).bind
      (f := fun collected => some (sortDedup collected.flatten)) fun _ => Gives.some _).congr ?_
    rw [and_true]
    rfl

theorem fromEndDaysU32_gives {val : CalendarValue} (hval : val.WellFormed) (maxDay : ℕ) :
    Gives (fromEndDaysU32 maxDay val) (val.FitsFromEnd maxDay) (fromEndDays maxDay val) := by
  have hpos : ∀ n, ∀ d ∈ absDay maxDay n, 1 ≤ d ∧ d ≤ maxDay := by
    intro n d hd
    rw [absDay, Option.mem_def] at hd
    split at hd
    · rename_i hn
      have := Option.some.inj hd
      omega
    · cases hd
  cases val with
  | exact n => exact Gives.some _
  | range a b =>
    rw [fromEndDaysU32, fromEndDays]
    cases absDay maxDay a with
    | none => exact Gives.some _
    | some da => cases absDay maxDay b <;> exact Gives.some _
  | repeats start step =>
    rw [fromEndDaysU32, fromEndDays, CalendarValue.FitsFromEnd]
    cases hd : absDay maxDay start with
    | none => exact (Gives.some _).congr (by simp)
    | some d => exact (stepWhileU32_gives hval (by omega)).congr (by simp)
  | rangeRepeat a b step =>
    rw [fromEndDaysU32, fromEndDays, CalendarValue.FitsFromEnd]
    cases hda : absDay maxDay a with
    | none => exact (Gives.some _).congr (by simp)
    | some da =>
      cases hdb : absDay maxDay b with
      | none => exact (Gives.some _).congr (by simp)
      | some db =>
        have h1 := hpos a da hda
        have h2 := hpos b db hdb
        exact (stepWhileU32_gives hval.2 (by omega)).congr (by simp)

/-- A day component can be left behind a month. -/
def DayFits (fromEnd : Bool) (comp : CalendarComponent) (lo maxDay : ℕ) : Prop :=
  if fromEnd then
    match comp with
    | .list values => ∀ v ∈ values, v.FitsFromEnd maxDay
    | comp => comp.Fits lo maxDay
  else comp.Fits lo maxDay

theorem resolveFromEndDaysU32_gives {comp : CalendarComponent} (hcomp : comp.WellFormed)
    {start : ℕ} (hstart : start < 2 ^ 32) (maxDay : ℕ) :
    Gives (resolveFromEndDaysU32 comp start maxDay) (DayFits true comp start maxDay)
      (resolveFromEndDays comp start maxDay) := by
  cases comp with
  | wildcard => exact matchingValuesFromU32_gives hcomp hstart maxDay
  | wildcardRepeat step => exact matchingValuesFromU32_gives hcomp hstart maxDay
  | list values =>
    rw [resolveFromEndDays, List.flatMap]
    refine ((Gives.mapM fun v hv => fromEndDaysU32_gives (hcomp v hv) maxDay).bind
      (f := fun days => some (sortDedup (days.flatten.filter (start ≤ ·)))) fun _ =>
        Gives.some _).congr ?_
    rw [and_true]
    rfl

/-! ## The search does not overflow -/

namespace CalendarSpec

/-- A year that the search goes over. The years are compared as `u32`s. -/
def SearchedYear (spec : CalendarSpec) (after : DateTime) (y : ℤ) : Prop :=
  ∃ x, asU32 after.year ≤ x ∧ x ≤ asU32 (after.year + 5) ∧
    componentMatches (spec.year.getD .wildcard) x = true ∧ asI32 x = y

def SearchedMonth (spec : CalendarSpec) (after : DateTime) (y : ℤ) (m : ℕ) : Prop :=
  spec.SearchedYear after y ∧
    monthStart after y ≤ m ∧ m ≤ 12 ∧ componentMatches spec.month m = true

def SearchedDay (spec : CalendarSpec) (after : DateTime) (y : ℤ) (m d : ℕ) : Prop :=
  spec.SearchedMonth after y m ∧ dayStart after y m ≤ d ∧ d ≤ daysInMonth y m ∧
    dayMatches spec.dayFromEnd spec.day (daysInMonth y m) d = true ∧
    weekdayMatches spec.weekdays (Calendar.weekday y m d) = true

def SearchedHour (spec : CalendarSpec) (after : DateTime) (y : ℤ) (m d h : ℕ) : Prop :=
  spec.SearchedDay after y m d ∧
    hourStart after y m d ≤ h ∧ h ≤ 23 ∧ componentMatches spec.hour h = true

def SearchedMinute (spec : CalendarSpec) (after : DateTime) (y : ℤ) (m d h mi : ℕ) : Prop :=
  spec.SearchedHour after y m d h ∧
    minuteStart after y m d h ≤ mi ∧ mi ≤ 59 ∧ componentMatches spec.minute mi = true

/-- No date-time that is searched for is before `t`. -/
def NoneBefore (spec : CalendarSpec) (after t : DateTime) : Prop :=
  t ∈ lowerBounds (Candidates spec after)

/-- Each component whose values are enumerated before the first match fits: its repetitions can be
    left behind the maximum. -/
structure EnumeratedFit (spec : CalendarSpec) (after : DateTime) : Prop where
  maxYear : after.year + 5 < 2 ^ 31
  year : (spec.year.getD .wildcard).Fits (asU32 after.year) (asU32 (after.year + 5))
  month : ∀ y, spec.SearchedYear after y → spec.NoneBefore after ⟨y, 0, 0, 0, 0, 0⟩ →
    spec.month.Fits (monthStart after y) 12
  day : ∀ y m, spec.SearchedMonth after y m → spec.NoneBefore after ⟨y, m, 0, 0, 0, 0⟩ →
    DayFits spec.dayFromEnd spec.day (dayStart after y m) (daysInMonth y m)
  hour : ∀ y m d, spec.SearchedDay after y m d → spec.NoneBefore after ⟨y, m, d, 0, 0, 0⟩ →
    spec.hour.Fits (hourStart after y m d) 23
  minute : ∀ y m d h, spec.SearchedHour after y m d h →
    spec.NoneBefore after ⟨y, m, d, h, 0, 0⟩ → spec.minute.Fits (minuteStart after y m d h) 59
  second : ∀ y m d h mi, spec.SearchedMinute after y m d h mi →
    spec.NoneBefore after ⟨y, m, d, h, mi, 0⟩ → spec.second.Fits (secondStart after y m d h mi) 59

variable {spec : CalendarSpec} {after : DateTime} {y : ℤ} {m d h mi : ℕ}

/-! ## Where the search comes -/

theorem mem_years (hspec : spec.WellFormed) : y ∈ spec.years after ↔ spec.SearchedYear after y := by
  rw [years, List.mem_map]
  exact exists_congr fun x => by rw [mem_matchingValuesFrom hspec.year, and_assoc, and_assoc]

theorem noneBefore_year :
    spec.NoneBefore after ⟨y, 0, 0, 0, 0, 0⟩ ↔ ∀ t ∈ Candidates spec after, y ≤ t.year := by
  refine forall₂_congr fun t _ => ?_
  rw [DateTime.le_iff]
  dsimp only
  omega

theorem noneBefore_month : spec.NoneBefore after ⟨y, m, 0, 0, 0, 0⟩ ↔
    spec.NoneBefore after ⟨y, 0, 0, 0, 0, 0⟩ ∧ ∀ t ∈ inYear spec after y, m ≤ t.month := by
  simp only [NoneBefore, inYear, mem_lowerBounds, DateTime.le_iff, Set.mem_ofPred_eq, and_imp,
    ← forall₂_and]
  refine forall₂_congr fun t _ => ?_
  omega

theorem noneBefore_day : spec.NoneBefore after ⟨y, m, d, 0, 0, 0⟩ ↔
    spec.NoneBefore after ⟨y, m, 0, 0, 0, 0⟩ ∧ ∀ t ∈ inMonth spec after y m, d ≤ t.day := by
  simp only [NoneBefore, inMonth, inYear, mem_lowerBounds, DateTime.le_iff, Set.mem_ofPred_eq,
    and_imp, ← forall₂_and]
  refine forall₂_congr fun t _ => ?_
  omega

theorem noneBefore_hour : spec.NoneBefore after ⟨y, m, d, h, 0, 0⟩ ↔
    spec.NoneBefore after ⟨y, m, d, 0, 0, 0⟩ ∧ ∀ t ∈ inDay spec after y m d, h ≤ t.hour := by
  simp only [NoneBefore, inDay, inMonth, inYear, mem_lowerBounds, DateTime.le_iff,
    Set.mem_ofPred_eq, and_imp, ← forall₂_and]
  refine forall₂_congr fun t _ => ?_
  omega

theorem noneBefore_minute : spec.NoneBefore after ⟨y, m, d, h, mi, 0⟩ ↔
    spec.NoneBefore after ⟨y, m, d, h, 0, 0⟩ ∧
      ∀ t ∈ inHour spec after y m d h, mi ≤ t.minute := by
  simp only [NoneBefore, inHour, inDay, inMonth, inYear, mem_lowerBounds, DateTime.le_iff,
    Set.mem_ofPred_eq, and_imp, ← forall₂_and]
  refine forall₂_congr fun t _ => ?_
  omega

/-! ## The levels of the search -/

/-- The starts of the enumerations are small. -/
theorem starts_lt (hafter : after.Valid) (y : ℤ) (m d h mi : ℕ) :
    monthStart after y < 2 ^ 32 ∧ dayStart after y m < 2 ^ 32 ∧ hourStart after y m d < 2 ^ 32 ∧
      minuteStart after y m d h < 2 ^ 32 ∧ secondStart after y m d h mi < 2 ^ 32 := by
  have hmonth := hafter.month.2
  have hday := hafter.day.2.trans (daysInMonth_bounds _ _).2
  have hhour := hafter.hour
  have hminute := hafter.minute
  have hsecond := hafter.second
  unfold monthStart dayStart hourStart minuteStart secondStart
  refine ⟨?_, ?_, ?_, ?_, ?_⟩ <;> split <;> omega

theorem daysU32_gives (hspec : spec.WellFormed) (hafter : after.Valid) (y : ℤ) (m : ℕ) :
    Gives (spec.daysU32 after y m)
      (DayFits spec.dayFromEnd spec.day (dayStart after y m) (daysInMonth y m))
      (spec.days after y m) := by
  have hstart := (starts_lt hafter y m 0 0 0).2.1
  rw [daysU32, days]
  cases spec.dayFromEnd with
  | true => exact (resolveFromEndDaysU32_gives hspec.day hstart _).map _
  | false => exact (matchingValuesFromU32_gives hspec.day hstart _).map _

theorem yearsU32_gives (hspec : spec.WellFormed) (after : DateTime) :
    Gives (spec.yearsU32 after)
      ((spec.year.getD .wildcard).Fits (asU32 after.year) (asU32 (after.year + 5)))
      (spec.years after) := by
  have hstart : asU32 after.year < 2 ^ 32 := by
    unfold asU32
    omega
  exact (matchingValuesFromU32_gives hspec.year hstart _).map _

/-- The components of the inner loops fit, as far as these loops are made: those of a minute. -/
def MinuteFits (spec : CalendarSpec) (after : DateTime) (y : ℤ) (m d h mi : ℕ) : Prop :=
  spec.second.Fits (secondStart after y m d h mi) 59

def HourFits (spec : CalendarSpec) (after : DateTime) (y : ℤ) (m d h : ℕ) : Prop :=
  spec.minute.Fits (minuteStart after y m d h) 59 ∧ ∀ mi ∈ spec.minutes after y m d h,
    (∀ t ∈ inHour spec after y m d h, mi ≤ t.minute) → spec.MinuteFits after y m d h mi

def DateFits (spec : CalendarSpec) (after : DateTime) (y : ℤ) (m d : ℕ) : Prop :=
  weekdayMatches spec.weekdays (Calendar.weekday y m d) = true →
    spec.hour.Fits (hourStart after y m d) 23 ∧ ∀ h ∈ spec.hours after y m d,
      (∀ t ∈ inDay spec after y m d, h ≤ t.hour) → spec.HourFits after y m d h

def MonthFits (spec : CalendarSpec) (after : DateTime) (y : ℤ) (m : ℕ) : Prop :=
  DayFits spec.dayFromEnd spec.day (dayStart after y m) (daysInMonth y m) ∧
    ∀ d ∈ spec.days after y m, (∀ t ∈ inMonth spec after y m, d ≤ t.day) →
      spec.DateFits after y m d

def YearFits (spec : CalendarSpec) (after : DateTime) (y : ℤ) : Prop :=
  spec.month.Fits (monthStart after y) 12 ∧ ∀ m ∈ spec.months after y,
    (∀ t ∈ inYear spec after y, m ≤ t.month) → spec.MonthFits after y m

def SearchFits (spec : CalendarSpec) (after : DateTime) : Prop :=
  (spec.year.getD .wildcard).Fits (asU32 after.year) (asU32 (after.year + 5)) ∧
    ∀ y ∈ spec.years after, (∀ t ∈ Candidates spec after, y ≤ t.year) → spec.YearFits after y

theorem searchMinuteU32_gives (hspec : spec.WellFormed) (hafter : after.Valid) (y : ℤ)
    (m d h mi : ℕ) : Gives (spec.searchMinuteU32 after y m d h mi)
      (spec.MinuteFits after y m d h mi) (spec.searchMinute after y m d h mi) := by
  have hstart := (starts_lt hafter y m d h mi).2.2.2.2
  exact ((matchingValuesFromU32_gives hspec.second hstart 59).bind
    (f := fun seconds => some (seconds.head?.map (DateTime.mk y m d h mi)))
    fun _ => Gives.some _).congr (and_iff_left trivial)

section Levels

variable (hspec : spec.WellFormed) (hafter : after.Valid) (hhigh : after.year + 5 < 2 ^ 31)
  (hcast : 0 ≤ after.year ∨ after.year < -5)

include hspec hafter hhigh hcast

/-- Each loop gives up exactly if its list does, or the loop behind a value in front of which
    nothing is found. -/
theorem searchHourU32_gives (hy : y ∈ spec.years after) (hm : m ∈ spec.months after y)
    (hd : d ∈ spec.days after y m)
    (hw : weekdayMatches spec.weekdays (Calendar.weekday y m d) = true)
    (hh : h ∈ spec.hours after y m d) :
    Gives (spec.searchHourU32 after y m d h) (spec.HourFits after y m d h)
      (spec.searchHour after y m d h) := by
  have hmem := fun t => mem_candidates_iff hspec hafter hhigh hcast (t := t)
  have hstart := (starts_lt hafter y m d h 0).2.2.2.1
  refine (matchingValuesFromU32_gives hspec.minute hstart 59).bind fun _ => ?_
  refine Gives.findSomeM? DateTime.minute (pairwise_matchingValuesFrom hspec.minute _ _) ?_
    (fun mi hmi => searchMinute_finds hspec hafter hhigh hcast hy hm hd hw hh hmi)
    fun mi _ => searchMinuteU32_gives hspec hafter y m d h mi
  rintro t ⟨⟨⟨⟨ht, rfl⟩, rfl⟩, rfl⟩, rfl⟩
  exact ((hmem t).mp ht).2.2.2.2.2.1

theorem searchDayU32_gives (hy : y ∈ spec.years after) (hm : m ∈ spec.months after y)
    (hd : d ∈ spec.days after y m) :
    Gives (spec.searchDayU32 after y m d) (spec.DateFits after y m d)
      (spec.searchDay after y m d) := by
  have hmem := fun t => mem_candidates_iff hspec hafter hhigh hcast (t := t)
  have hstart := (starts_lt hafter y m d 0 0).2.2.1
  rw [searchDayU32, searchDay]
  by_cases hw : weekdayMatches spec.weekdays (Calendar.weekday y m d) = true
  case neg =>
    rw [if_neg hw, if_neg hw]
    exact (Gives.some none).congr (iff_of_true trivial fun h => absurd h hw)
  rw [if_pos hw, if_pos hw]
  refine Gives.congr ?_ (Iff.symm (forall_prop_of_true hw))
  refine (matchingValuesFromU32_gives hspec.hour hstart 23).bind fun _ => ?_
  refine Gives.findSomeM? DateTime.hour (pairwise_matchingValuesFrom hspec.hour _ _) ?_
    (fun h hh => searchHour_finds hspec hafter hhigh hcast hy hm hd hw hh)
    fun h hh => searchHourU32_gives hspec hafter hhigh hcast hy hm hd hw hh
  rintro t ⟨⟨⟨ht, rfl⟩, rfl⟩, rfl⟩
  exact ((hmem t).mp ht).2.2.2.2.1

theorem searchMonthU32_gives (hy : y ∈ spec.years after) (hm : m ∈ spec.months after y) :
    Gives (spec.searchMonthU32 after y m) (spec.MonthFits after y m)
      (spec.searchMonth after y m) := by
  have hmem := fun t => mem_candidates_iff hspec hafter hhigh hcast (t := t)
  refine (daysU32_gives hspec hafter y m).bind fun _ => ?_
  refine Gives.findSomeM? DateTime.day (days_spec hspec hafter y m).1 ?_
    (fun d hd => searchDay_finds hspec hafter hhigh hcast hy hm hd)
    fun d hd => searchDayU32_gives hspec hafter hhigh hcast hy hm hd
  rintro t ⟨⟨ht, rfl⟩, rfl⟩
  exact ((hmem t).mp ht).2.2.1

theorem searchYearU32_gives (hy : y ∈ spec.years after) :
    Gives (spec.searchYearU32 after y) (spec.YearFits after y) (spec.searchYear after y) := by
  have hmem := fun t => mem_candidates_iff hspec hafter hhigh hcast (t := t)
  have hstart := (starts_lt hafter y 0 0 0 0).1
  refine (matchingValuesFromU32_gives hspec.month hstart 12).bind fun _ => ?_
  refine Gives.findSomeM? DateTime.month (pairwise_matchingValuesFrom hspec.month _ _) ?_
    (fun m hm => searchMonth_finds hspec hafter hhigh hcast hy hm)
    fun m hm => searchMonthU32_gives hspec hafter hhigh hcast hy hm
  rintro t ⟨ht, rfl⟩
  exact ((hmem t).mp ht).2.1

theorem searchU32_gives_of_cast :
    Gives (spec.searchU32 after) (spec.SearchFits after) (spec.search after) := by
  have hmem := fun t => mem_candidates_iff hspec hafter hhigh hcast (t := t)
  refine (yearsU32_gives hspec after).bind fun _ => ?_
  refine Gives.findSomeM? DateTime.year (pairwise_years hspec hafter.year.1 hhigh) ?_
    (fun y hy => searchYear_finds hspec hafter hhigh hcast hy)
    fun y hy => searchYearU32_gives hspec hafter hhigh hcast hy
  exact fun t ht => ((hmem t).mp ht).1

end Levels

/-- From the years `-5` to `-1` on no year is searched. -/
theorem searchU32_gives (hspec : spec.WellFormed) (hafter : after.Valid)
    (hhigh : after.year + 5 < 2 ^ 31) :
    Gives (spec.searchU32 after) (spec.SearchFits after) (spec.search after) := by
  by_cases hcast : 0 ≤ after.year ∨ after.year < -5
  · exact searchU32_gives_of_cast hspec hafter hhigh hcast
  · have hnil := years_eq_nil hspec (by omega : -5 ≤ after.year ∧ after.year < 0)
    rw [searchU32, search, SearchFits, hnil]
    refine (yearsU32_gives hspec after).bind fun _ => ?_
    rw [hnil]
    exact (Gives.some none).congr (by simp)

/-! ## Exactly when it does not overflow -/

/-- The conditions of the levels, each for the positions that the search comes to. -/
theorem searchFits_iff (hspec : spec.WellFormed) (hafter : after.Valid)
    (hhigh : after.year + 5 < 2 ^ 31) : spec.SearchFits after ↔ spec.EnumeratedFit after := by
  have hday := fun y m => (days_spec hspec hafter y m).2
  constructor
  · intro hfits
    have hyear : ∀ y, spec.SearchedYear after y →
        spec.NoneBefore after ⟨y, 0, 0, 0, 0, 0⟩ → spec.YearFits after y :=
      fun y hy hbefore => hfits.2 y ((mem_years hspec).mpr hy) (noneBefore_year.mp hbefore)
    have hmonth : ∀ y m, spec.SearchedMonth after y m →
        spec.NoneBefore after ⟨y, m, 0, 0, 0, 0⟩ → spec.MonthFits after y m := by
      rintro y m ⟨hy, hm⟩ hbefore
      obtain ⟨hbefore, hle⟩ := noneBefore_month.mp hbefore
      exact (hyear y hy hbefore).2 m ((mem_months hspec).mpr hm) hle
    have hdate : ∀ y m d, spec.SearchedDay after y m d →
        spec.NoneBefore after ⟨y, m, d, 0, 0, 0⟩ → spec.DateFits after y m d := by
      rintro y m d ⟨hm, hlo, hhi, hmatch, -⟩ hbefore
      obtain ⟨hbefore, hle⟩ := noneBefore_day.mp hbefore
      exact (hmonth y m hm hbefore).2 d ((hday y m d).mpr ⟨hlo, hhi, hmatch⟩) hle
    have hhour : ∀ y m d h, spec.SearchedHour after y m d h →
        spec.NoneBefore after ⟨y, m, d, h, 0, 0⟩ → spec.HourFits after y m d h := by
      rintro y m d h ⟨hd, hh⟩ hbefore
      obtain ⟨hbefore, hle⟩ := noneBefore_hour.mp hbefore
      exact (hdate y m d hd hbefore hd.2.2.2.2).2 h ((mem_hours hspec).mpr hh) hle
    refine ⟨hhigh, hfits.1, fun y hy hb => (hyear y hy hb).1,
      fun y m hm hb => (hmonth y m hm hb).1, fun y m d hd hb => (hdate y m d hd hb hd.2.2.2.2).1,
      fun y m d h hh hb => (hhour y m d h hh hb).1, ?_⟩
    rintro y m d h mi ⟨hh, hmi⟩ hbefore
    obtain ⟨hbefore, hle⟩ := noneBefore_minute.mp hbefore
    exact (hhour y m d h hh hbefore).2 mi ((mem_minutes hspec).mpr hmi) hle
  · intro hfit
    refine ⟨hfit.year, fun y hy hyle => ?_⟩
    have hy' := (mem_years hspec).mp hy
    have hyear := noneBefore_year.mpr hyle
    refine ⟨hfit.month y hy' hyear, fun m hm hmle => ?_⟩
    have hm' : spec.SearchedMonth after y m := ⟨hy', (mem_months hspec).mp hm⟩
    have hmonth := noneBefore_month.mpr ⟨hyear, hmle⟩
    refine ⟨hfit.day y m hm' hmonth, fun d hd hdle hw => ?_⟩
    obtain ⟨hlo, hhi, hmatch⟩ := (hday y m d).mp hd
    have hd' : spec.SearchedDay after y m d := ⟨hm', hlo, hhi, hmatch, hw⟩
    have hdate := noneBefore_day.mpr ⟨hmonth, hdle⟩
    refine ⟨hfit.hour y m d hd' hdate, fun h hh hhle => ?_⟩
    have hh' : spec.SearchedHour after y m d h := ⟨hd', (mem_hours hspec).mp hh⟩
    have hhour := noneBefore_hour.mpr ⟨hdate, hhle⟩
    refine ⟨hfit.minute y m d h hh' hhour, fun mi hmi hmile => ?_⟩
    exact hfit.second y m d h mi ⟨hh', (mem_minutes hspec).mp hmi⟩
      (noneBefore_minute.mpr ⟨hhour, hmile⟩)

/-- What does not overflow is what the natural numbers give. -/
theorem nextElapseU32_eq {input : List Char} {r : Option DateTime}
    (hparse : parse input = .ok spec) (hafter : after.Valid)
    (h : spec.nextElapseU32 after = some r) : spec.nextElapse after = some r := by
  rw [nextElapseU32] at h
  rw [nextElapse]
  cases hinstant : spec.fixedInstant with
  | some t =>
    rw [hinstant] at h
    exact h
  | none =>
    rw [hinstant] at h
    dsimp only at h ⊢
    split at h
    · rename_i hhigh
      rw [if_pos hhigh, (searchU32_gives (parse_wellFormed hparse) hafter hhigh).eq h]
    · cases h

/-- Whatever the parser accepts and from whatever valid start, the search does not overflow exactly
    if each component fits that is enumerated before the first match. -/
theorem nextElapseU32_isSome_iff {input : List Char} (hparse : parse input = .ok spec)
    (hafter : after.Valid) : (spec.nextElapseU32 after).isSome ↔
      (spec.fixedInstant = none → spec.EnumeratedFit after) := by
  rw [nextElapseU32]
  cases hinstant : spec.fixedInstant with
  | some t => simp
  | none =>
    dsimp only
    by_cases hhigh : after.year + 5 < 2 ^ 31
    · have hspec := parse_wellFormed hparse
      rw [if_pos hhigh, (searchU32_gives hspec hafter hhigh).isSome,
        searchFits_iff hspec hafter hhigh]
      exact ⟨fun h _ => h, fun h => h rfl⟩
    · rw [if_neg hhigh]
      exact ⟨fun h => absurd h Bool.false_ne_true, fun h => absurd (h rfl).maxYear hhigh⟩

theorem nextElapseU32_isSome_leapDay :
    (leapDay.nextElapseU32 ⟨2025, 3, 1, 0, 0, 0⟩).isSome ↔
      (leapDay.fixedInstant = none → leapDay.EnumeratedFit ⟨2025, 3, 1, 0, 0, 0⟩) :=
  nextElapseU32_isSome_iff parse_leapDay
    ⟨by decide, by decide, by decide, by decide, by decide, by decide⟩

/-- From the second 1 on, every `u32::MAX` seconds. -/
def farSecond : CalendarSpec where
  original := "*:*:1/4294967295".toList
  weekdays := none
  year := none
  month := .wildcard
  day := .wildcard
  dayFromEnd := false
  hour := .wildcard
  minute := .wildcard
  second := .list [.repeats 1 4294967295]
  utc := false
  fixedInstant := none

/-- The parser accepts the step, and the search adds it to the second 1. -/
theorem farSecond_overflows :
    parse "*:*:1/4294967295".toList = .ok farSecond ∧
      (⟨2025, 1, 1, 0, 0, 0⟩ : DateTime).Valid ∧
      farSecond.nextElapseU32 ⟨2025, 1, 1, 0, 0, 0⟩ = none :=
  ⟨rfl, ⟨by decide, by decide, by decide, by decide, by decide, by decide⟩, rfl⟩

end CalendarSpec

end OxidizedSystemd.Calendar
