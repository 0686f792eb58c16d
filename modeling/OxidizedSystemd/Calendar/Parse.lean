import OxidizedSystemd.Calendar.Civil
import OxidizedSystemd.Calendar.Component
import OxidizedSystemd.Lib.Text

/-!
# The parser of calendar expressions

Model of `CalendarSpec::parse` and of what it calls (`calendar_spec.rs`, lines 14–55,
96–245 and 441–743), with the texts of its errors.

* `parse`: the parser.
* `parse_wellFormed`: the components that it makes have steps that are not zero, ranges
  that do not end before they start, and numbers within their bounds.
* `parse_expansion`: the expansion of a shorthand is no shorthand.
-/

namespace OxidizedSystemd.Calendar

open OxidizedSystemd.Lib

/-- `struct WeekdayRange` (lines 48–55): 0 is Monday. -/
structure WeekdayRange where
  start : ℕ
  stop : ℕ
  deriving DecidableEq

/-- `struct CalendarSpec` (lines 14–46). -/
structure CalendarSpec where
  original : List Char
  weekdays : Option (List WeekdayRange)
  year : Option CalendarComponent
  month : CalendarComponent
  day : CalendarComponent
  dayFromEnd : Bool
  hour : CalendarComponent
  minute : CalendarComponent
  second : CalendarComponent
  utc : Bool
  fixedInstant : Option ℤ
  deriving DecidableEq

/-- `Result<_, String>`. -/
abbrev Parsed (α : Type) := Except (List Char) α

/-! ## Components -/

/-- `str::parse::<u32>`, and the text of its error. -/
def parseU32 (label : String) (s : List Char) : Parsed ℕ :=
  okOr (label.toList ++ s) (fromStrRadix 10 (2 ^ 32 - 1) s)

/-- The two ends of a range (lines 711–722 and 727–738). -/
def parseRange (s a b : List Char) : Parsed (ℕ × ℕ) := do
  let a ← parseU32 "Invalid value: " a
  let b ← parseU32 "Invalid value: " b
  if b < a then .error ("Range start after end: ".toList ++ s) else .ok (a, b)

/-- `parse_single_value` (lines 700–743). -/
def parseSingleValue (s : List Char) : Parsed CalendarValue :=
  match splitOnce ['/'] s with
  | some (base, stepStr) => do
    let step ← parseU32 "Invalid step: " stepStr
    if step = 0 then .error "Step cannot be zero".toList
    else
      match splitOnce "..".toList base with
      | some (a, b) => do
        let ends ← parseRange s a b
        .ok (.rangeRepeat ends.1 ends.2 step)
      | none => do
        let v ← parseU32 "Invalid value: " base
        .ok (.repeats v step)
  | none =>
    match splitOnce "..".toList s with
    | some (a, b) => do
      let ends ← parseRange s a b
      .ok (.range ends.1 ends.2)
    | none => do
      let v ← parseU32 "Invalid value: " s
      .ok (.exact v)

/-- The parts between commas that are not empty. -/
def commaParts (s : List Char) : List (List Char) :=
  ((s.splitOn ',').map trim).filter fun part => !part.isEmpty

/-- `parse_component` (lines 660–697). -/
def parseComponent (s : List Char) : Parsed CalendarComponent :=
  let s := trim s
  if s = [] then .error "Empty component".toList
  else if s = ['*'] then .ok .wildcard
  else
    match stripPrefix "*/".toList s with
    | some rest => do
      let step ← parseU32 "Invalid repeat step: " rest
      if step = 0 then .error "Repeat step cannot be zero".toList
      else .ok (.wildcardRepeat step)
    | none => do
      let values ← (commaParts s).mapM parseSingleValue
      if values = [] then .error ("Empty component: ".toList ++ s) else .ok (.list values)

/-- The error of `validate_component_range`. -/
def outOfRange (field what : List Char) (min max : ℕ) : List Char :=
  field ++ what ++ " out of range ".toList ++ decimal min ++ "..".toList ++ decimal max

/-- One value of `validate_component_range` (lines 593–620). -/
def validateValue (min max : ℕ) (field : List Char) : CalendarValue → Parsed Unit
  | .exact n =>
    if n < min ∨ max < n then .error (outOfRange field (' ' :: decimal n) min max) else .ok ()
  | .range a b =>
    if a < min ∨ max < a ∨ b < min ∨ max < b then
      .error (outOfRange field (" range ".toList ++ decimal a ++ "..".toList ++ decimal b) min max)
    else .ok ()
  | .repeats a _ =>
    if a < min ∨ max < a then
      .error (outOfRange field (" repeat start ".toList ++ decimal a) min max)
    else .ok ()
  | .rangeRepeat a b _ =>
    if a < min ∨ max < a ∨ b < min ∨ max < b then
      .error (outOfRange field
        (" range-repeat ".toList ++ decimal a ++ "..".toList ++ decimal b) min max)
    else .ok ()

/-- `validate_component_range` (lines 579–625). -/
def validateComponentRange (comp : CalendarComponent) (min max : ℕ) (field : String) :
    Parsed Unit :=
  match comp with
  | .list values => values.forM (validateValue min max field.toList)
  | _ => .ok ()

/-! ## Weekdays -/

/-- The names in the order of the days. -/
def weekdayNames : List (String × String) :=
  [("mon", "monday"), ("tue", "tuesday"), ("wed", "wednesday"), ("thu", "thursday"),
    ("fri", "friday"), ("sat", "saturday"), ("sun", "sunday")]

/-- `parse_weekday_name` (lines 455–466). -/
def parseWeekdayName (s : List Char) : Option ℕ :=
  let lower := toLowercase s
  weekdayNames.findIdx? fun names => lower = names.1.toList || lower = names.2.toList

/-- `looks_like_weekday` (lines 442–453). -/
def looksLikeWeekday (s : List Char) : Bool :=
  (s.splitOn ',').all fun part =>
    !(trim part).isEmpty &&
      (splitStr "..".toList (trim part)).all fun atom => (parseWeekdayName (trim atom)).isSome

/-- One part of `parse_weekdays` (lines 488–497). -/
def parseWeekdayRange (part : List Char) : Parsed WeekdayRange :=
  match splitOnce "..".toList part with
  | some (a, b) => do
    let start ← okOr ("Invalid weekday: ".toList ++ a) (parseWeekdayName (trim a))
    let stop ← okOr ("Invalid weekday: ".toList ++ b) (parseWeekdayName (trim b))
    .ok ⟨start, stop⟩
  | none => do
    let d ← okOr ("Invalid weekday: ".toList ++ part) (parseWeekdayName part)
    .ok ⟨d, d⟩

/-- `parse_weekdays` (lines 481–503). -/
def parseWeekdays (s : List Char) : Parsed (List WeekdayRange) := do
  let ranges ← (commaParts s).mapM parseWeekdayRange
  if ranges = [] then .error "Empty weekday specification".toList else .ok ranges

/-! ## Dates and times -/

/-- What `parse_date_part` returns: a day may count from the end of the month. -/
structure DatePart where
  year : Option CalendarComponent
  month : CalendarComponent
  day : CalendarComponent
  dayFromEnd : Bool

/-- A year; `*` is none. -/
def parseYear (s : List Char) : Parsed (Option CalendarComponent) :=
  if s = ['*'] then .ok none
  else do
    let year ← parseComponent s
    .ok (some year)

/-- The part of a date in front of `~` (lines 531–548). -/
def parseDateHead (s : List Char) (day : CalendarComponent) : List (List Char) → Parsed DatePart
  | [y, m] => do
    let year ← parseYear y
    let month ← parseComponent m
    .ok ⟨year, month, day, true⟩
  | [m] =>
    if m = [] then .ok ⟨none, .wildcard, day, true⟩
    else do
      let month ← parseComponent m
      .ok ⟨none, month, day, true⟩
  | _ => .error ("Invalid date format: ".toList ++ s)

/-- `parse_date_part` (lines 505–577). -/
def parseDatePart (s : List Char) : Parsed DatePart :=
  match splitOnce ['~'] s with
  | some (head, dayStr) =>
    if '~' ∈ dayStr then .error ("Invalid calendar expression: ".toList ++ s)
    else do
      let day ← parseComponent dayStr
      parseDateHead s day (head.splitOn '-')
  | none =>
    match s.splitOn '-' with
    | [y, m, d] => do
      let year ← parseYear y
      let month ← parseComponent m
      let day ← parseComponent d
      .ok ⟨year, month, day, false⟩
    | [m, d] => do
      let month ← parseComponent m
      let day ← parseComponent d
      .ok ⟨none, month, day, false⟩
    | [d] => do
      let day ← parseComponent d
      .ok ⟨none, .wildcard, day, false⟩
    | _ => .error ("Invalid date format: ".toList ++ s)

/-- What `parse_time_part` returns. -/
structure TimePart where
  hour : CalendarComponent
  minute : CalendarComponent
  second : CalendarComponent

/-- The component of one zero. -/
def zero : CalendarComponent := .list [.exact 0]

/-- `parse_time_part` (lines 627–657). -/
def parseTimePart (s : List Char) : Parsed TimePart :=
  match s.splitOn ':' with
  | [h, m, sec] => do
    let hour ← parseComponent h
    let minute ← parseComponent m
    let second ← parseComponent sec
    .ok ⟨hour, minute, second⟩
  | [h, m] => do
    let hour ← parseComponent h
    let minute ← parseComponent m
    .ok ⟨hour, minute, zero⟩
  | [h] => do
    let hour ← parseComponent h
    .ok ⟨hour, zero, zero⟩
  | _ => .error ("Invalid time format: ".toList ++ s)

/-! ## Expressions -/

/-- What stands for each shorthand (lines 134–144). -/
def shorthands : List (String × String) :=
  [("minutely", "*-*-* *:*:00"), ("hourly", "*-*-* *:00:00"), ("daily", "*-*-* 00:00:00"),
    ("monthly", "*-*-01 00:00:00"), ("weekly", "Mon *-*-* 00:00:00"),
    ("yearly", "*-01-01 00:00:00"), ("annually", "*-01-01 00:00:00"),
    ("quarterly", "*-01,04,07,10-01 00:00:00"), ("semiannually", "*-01,07-01 00:00:00"),
    ("semi-annually", "*-01,07-01 00:00:00")]

def shorthandExpansion (input : List Char) : Option (List Char) :=
  (shorthands.find? fun entry => toLowercase input = entry.1.toList).map fun entry =>
    entry.2.toList

/-- The weekdays in front, and the parts behind them (lines 166–171). -/
def takeWeekdays : List (List Char) → Parsed (Option (List WeekdayRange) × List (List Char))
  | [] => .ok (none, [])
  | part :: parts =>
    if looksLikeWeekday part then do
      let ranges ← parseWeekdays part
      .ok (some ranges, parts)
    else .ok (none, part :: parts)

/-- Which of the parts is the date and which is the time (lines 173–194). -/
def datePartTimePart (input : List Char) :
    List (List Char) → Parsed (Option (List Char) × Option (List Char))
  | [] => .ok (none, none)
  | [part] =>
    if '-' ∈ part then .ok (some part, none)
    else if ':' ∈ part then .ok (none, some part)
    else .error ("Invalid calendar expression: ".toList ++ input)
  | [date, time] => .ok (some date, some time)
  | _ => .error ("Too many parts in calendar expression: ".toList ++ input)

/-- The date of an expression, which is any day when it is left out (lines 199–208). -/
def parseDate : Option (List Char) → Parsed DatePart
  | some date => parseDatePart date
  | none => .ok ⟨none, .wildcard, .wildcard, false⟩

/-- The time of an expression, which is midnight when it is left out (lines 211–219). -/
def parseTime : Option (List Char) → Parsed TimePart
  | some time => parseTimePart time
  | none => .ok ⟨zero, zero, zero⟩

/-- The checks of `parse` (lines 224–230). -/
def validateRanges (date : DatePart) (time : TimePart) : Parsed Unit := do
  validateComponentRange date.month 1 12 "month"
  validateComponentRange date.day 1 (if date.dayFromEnd then 28 else 31) "day"
  validateComponentRange time.hour 0 23 "hour"
  validateComponentRange time.minute 0 59 "minute"
  validateComponentRange time.second 0 60 "second"

/-- `CalendarSpec::parse` behind the shorthands (lines 152–244). -/
def parseParts (input : List Char) : Parsed CalendarSpec := do
  let parts := splitWhitespace input
  let utc := decide (2 ≤ parts.length ∧ parts.getLast? = some "UTC".toList)
  let weekdays ← takeWeekdays (if utc then parts.dropLast else parts)
  let dateTime ← datePartTimePart input weekdays.2
  let date ← parseDate dateTime.1
  let time ← parseTime dateTime.2
  validateRanges date time
  .ok {
    original := input, weekdays := weekdays.1, year := date.year, month := date.month,
    day := date.day, dayFromEnd := date.dayFromEnd, hour := time.hour, minute := time.minute,
    second := time.second, utc := utc, fixedInstant := none }

/-- `CalendarSpec::parse` behind an `@` (lines 107–130). -/
def parseTimestamp (input rest : List Char) : Parsed CalendarSpec :=
  if rest = [] ∨ ¬ rest.all Char.isDigit then
    .error ("Invalid calendar expression: ".toList ++ input)
  else do
    let secs ← okOr ("Timestamp out of range: ".toList ++ input)
      (fromStrRadix 10 (2 ^ 63 - 1) rest)
    let year := (unixToDatetime secs).year
    if 1970 ≤ year ∧ year ≤ 2199 then
      .ok {
        original := input, weekdays := none, year := none, month := .wildcard, day := .wildcard,
        dayFromEnd := false, hour := .wildcard, minute := .wildcard, second := .wildcard,
        utc := true, fixedInstant := some (secs : ℤ) }
    else .error ("Timestamp out of range: ".toList ++ input)

/-- `CalendarSpec::parse` (lines 97–245). -/
def parse (input : List Char) : Parsed CalendarSpec :=
  let input := trim input
  if input = [] then .error "Empty calendar expression".toList
  else
    match stripPrefix ['@'] input with
    | some rest => parseTimestamp input rest
    | none =>
      match shorthandExpansion input with
      | some expanded => (parseParts expanded).map fun spec => { spec with original := input }
      | none => parseParts input

/-- The source parses an expansion from the beginning, which comes to the same. -/
theorem parse_expansion : ∀ entry ∈ shorthands,
    parse entry.2.toList = parseParts entry.2.toList := by
  intro entry hentry
  have htrim : ∀ entry ∈ shorthands, trim entry.2.toList = entry.2.toList ∧
      entry.2.toList ≠ [] ∧ stripPrefix ['@'] entry.2.toList = none ∧
      shorthandExpansion entry.2.toList = none := by decide
  obtain ⟨h1, h2, h3, h4⟩ := htrim entry hentry
  unfold parse
  rw [h1]
  dsimp only
  rw [if_neg h2, h3, h4]

/-! ## What is accepted -/

theorem parseRange_le {s a b : List Char} {ends : ℕ × ℕ} (h : parseRange s a b = .ok ends) :
    ends.1 ≤ ends.2 := by
  obtain ⟨x, -, h⟩ := bind_eq_ok.mp h
  obtain ⟨y, -, h⟩ := bind_eq_ok.mp h
  split at h
  · simp at h
  · rename_i hlt
    obtain rfl : (x, y) = ends := Except.ok.inj h
    exact Nat.not_lt.mp hlt

theorem parseSingleValue_wellFormed {s : List Char} {v : CalendarValue}
    (h : parseSingleValue s = .ok v) : v.WellFormed := by
  unfold parseSingleValue at h
  split at h
  · obtain ⟨step, -, h⟩ := bind_eq_ok.mp h
    split at h
    · simp at h
    · rename_i hstep
      split at h
      · obtain ⟨ends, hends, h⟩ := bind_eq_ok.mp h
        obtain rfl := Except.ok.inj h
        exact ⟨parseRange_le hends, Nat.pos_of_ne_zero hstep⟩
      · obtain ⟨n, -, h⟩ := bind_eq_ok.mp h
        obtain rfl := Except.ok.inj h
        exact Nat.pos_of_ne_zero hstep
  · split at h
    · obtain ⟨ends, hends, h⟩ := bind_eq_ok.mp h
      obtain rfl := Except.ok.inj h
      exact parseRange_le hends
    · obtain ⟨n, -, h⟩ := bind_eq_ok.mp h
      obtain rfl := Except.ok.inj h
      trivial

theorem parseComponent_wellFormed {s : List Char} {comp : CalendarComponent}
    (h : parseComponent s = .ok comp) : comp.WellFormed := by
  unfold parseComponent at h
  dsimp only at h
  split at h
  · simp at h
  split at h
  · obtain rfl := Except.ok.inj h
    trivial
  split at h
  · obtain ⟨step, -, h⟩ := bind_eq_ok.mp h
    split at h
    · simp at h
    · rename_i hstep
      obtain rfl := Except.ok.inj h
      exact Nat.pos_of_ne_zero hstep
  · obtain ⟨values, hvalues, h⟩ := bind_eq_ok.mp h
    split at h
    · simp at h
    · obtain rfl := Except.ok.inj h
      intro v hv
      obtain ⟨part, -, hpart⟩ := mem_of_mapM_eq_ok hvalues v hv
      exact parseSingleValue_wellFormed hpart

theorem parseYear_wellFormed {s : List Char} {year : Option CalendarComponent}
    (h : parseYear s = .ok year) : (year.getD .wildcard).WellFormed := by
  unfold parseYear at h
  split at h
  · obtain rfl := Except.ok.inj h
    trivial
  · obtain ⟨comp, hcomp, h⟩ := bind_eq_ok.mp h
    obtain rfl := Except.ok.inj h
    exact parseComponent_wellFormed hcomp

/-- The components of a date are well formed. -/
structure DatePart.WellFormed (date : DatePart) : Prop where
  year : (date.year.getD .wildcard).WellFormed
  month : date.month.WellFormed
  day : date.day.WellFormed

theorem parseDateHead_wellFormed {s : List Char} {day : CalendarComponent}
    {parts : List (List Char)} {date : DatePart} (hday : day.WellFormed)
    (h : parseDateHead s day parts = .ok date) : date.WellFormed := by
  unfold parseDateHead at h
  split at h
  · obtain ⟨year, hyear, h⟩ := bind_eq_ok.mp h
    obtain ⟨month, hmonth, h⟩ := bind_eq_ok.mp h
    obtain rfl := Except.ok.inj h
    exact ⟨parseYear_wellFormed hyear, parseComponent_wellFormed hmonth, hday⟩
  · split at h
    · obtain rfl := Except.ok.inj h
      exact ⟨trivial, trivial, hday⟩
    · obtain ⟨month, hmonth, h⟩ := bind_eq_ok.mp h
      obtain rfl := Except.ok.inj h
      exact ⟨trivial, parseComponent_wellFormed hmonth, hday⟩
  · simp at h

theorem parseDatePart_wellFormed {s : List Char} {date : DatePart}
    (h : parseDatePart s = .ok date) : date.WellFormed := by
  unfold parseDatePart at h
  split at h
  · split at h
    · simp at h
    · obtain ⟨day, hday, h⟩ := bind_eq_ok.mp h
      exact parseDateHead_wellFormed (parseComponent_wellFormed hday) h
  · split at h
    · obtain ⟨year, hyear, h⟩ := bind_eq_ok.mp h
      obtain ⟨month, hmonth, h⟩ := bind_eq_ok.mp h
      obtain ⟨day, hday, h⟩ := bind_eq_ok.mp h
      obtain rfl := Except.ok.inj h
      exact ⟨parseYear_wellFormed hyear, parseComponent_wellFormed hmonth,
        parseComponent_wellFormed hday⟩
    · obtain ⟨month, hmonth, h⟩ := bind_eq_ok.mp h
      obtain ⟨day, hday, h⟩ := bind_eq_ok.mp h
      obtain rfl := Except.ok.inj h
      exact ⟨trivial, parseComponent_wellFormed hmonth, parseComponent_wellFormed hday⟩
    · obtain ⟨day, hday, h⟩ := bind_eq_ok.mp h
      obtain rfl := Except.ok.inj h
      exact ⟨trivial, trivial, parseComponent_wellFormed hday⟩
    · simp at h

/-- The components of a time are well formed. -/
structure TimePart.WellFormed (time : TimePart) : Prop where
  hour : time.hour.WellFormed
  minute : time.minute.WellFormed
  second : time.second.WellFormed

theorem zero_wellFormed : zero.WellFormed := by
  intro v hv
  obtain rfl := List.mem_singleton.mp hv
  trivial

theorem parseTimePart_wellFormed {s : List Char} {time : TimePart}
    (h : parseTimePart s = .ok time) : time.WellFormed := by
  unfold parseTimePart at h
  split at h
  · obtain ⟨hour, hhour, h⟩ := bind_eq_ok.mp h
    obtain ⟨minute, hminute, h⟩ := bind_eq_ok.mp h
    obtain ⟨second, hsecond, h⟩ := bind_eq_ok.mp h
    obtain rfl := Except.ok.inj h
    exact ⟨parseComponent_wellFormed hhour, parseComponent_wellFormed hminute,
      parseComponent_wellFormed hsecond⟩
  · obtain ⟨hour, hhour, h⟩ := bind_eq_ok.mp h
    obtain ⟨minute, hminute, h⟩ := bind_eq_ok.mp h
    obtain rfl := Except.ok.inj h
    exact ⟨parseComponent_wellFormed hhour, parseComponent_wellFormed hminute, zero_wellFormed⟩
  · obtain ⟨hour, hhour, h⟩ := bind_eq_ok.mp h
    obtain rfl := Except.ok.inj h
    exact ⟨parseComponent_wellFormed hhour, zero_wellFormed, zero_wellFormed⟩
  · simp at h

theorem parseDate_wellFormed {part : Option (List Char)} {date : DatePart}
    (h : parseDate part = .ok date) : date.WellFormed := by
  cases part with
  | some part => exact parseDatePart_wellFormed h
  | none =>
    obtain rfl := Except.ok.inj h
    exact ⟨trivial, trivial, trivial⟩

theorem parseTime_wellFormed {part : Option (List Char)} {time : TimePart}
    (h : parseTime part = .ok time) : time.WellFormed := by
  cases part with
  | some part => exact parseTimePart_wellFormed h
  | none =>
    obtain rfl := Except.ok.inj h
    exact ⟨zero_wellFormed, zero_wellFormed, zero_wellFormed⟩

theorem validateValue_ok {min max : ℕ} {field : List Char} {v : CalendarValue}
    (h : validateValue min max field v = .ok ()) : v.InRange min max := by
  cases v with
  | exact n =>
    rw [validateValue] at h
    split at h
    · simp at h
    · show min ≤ n ∧ n ≤ max
      omega
  | range a b =>
    rw [validateValue] at h
    split at h
    · simp at h
    · show (min ≤ a ∧ a ≤ max) ∧ min ≤ b ∧ b ≤ max
      omega
  | repeats a step =>
    rw [validateValue] at h
    split at h
    · simp at h
    · show min ≤ a ∧ a ≤ max
      omega
  | rangeRepeat a b step =>
    rw [validateValue] at h
    split at h
    · simp at h
    · show (min ≤ a ∧ a ≤ max) ∧ min ≤ b ∧ b ≤ max
      omega

theorem validateComponentRange_ok {comp : CalendarComponent} {min max : ℕ} {field : String}
    (h : validateComponentRange comp min max field = .ok ()) : comp.InRange min max := by
  cases comp with
  | wildcard => trivial
  | wildcardRepeat step => trivial
  | list values => exact fun v hv => validateValue_ok (forM_eq_ok.mp h v hv)

/-- What the parser makes sure of: the components are well formed, and their numbers are within
    the bounds of a date and a time. -/
structure CalendarSpec.WellFormed (spec : CalendarSpec) : Prop where
  year : (spec.year.getD .wildcard).WellFormed
  month : spec.month.WellFormed
  day : spec.day.WellFormed
  hour : spec.hour.WellFormed
  minute : spec.minute.WellFormed
  second : spec.second.WellFormed
  monthRange : spec.month.InRange 1 12
  dayRange : spec.day.InRange 1 (if spec.dayFromEnd then 28 else 31)
  hourRange : spec.hour.InRange 0 23
  minuteRange : spec.minute.InRange 0 59
  secondRange : spec.second.InRange 0 60

theorem parseParts_wellFormed {input : List Char} {spec : CalendarSpec}
    (h : parseParts input = .ok spec) : spec.WellFormed := by
  obtain ⟨weekdays, -, h⟩ := bind_eq_ok.mp h
  obtain ⟨dateTime, -, h⟩ := bind_eq_ok.mp h
  obtain ⟨date, hdate, h⟩ := bind_eq_ok.mp h
  obtain ⟨time, htime, h⟩ := bind_eq_ok.mp h
  obtain ⟨⟨⟩, hranges, h⟩ := bind_eq_ok.mp h
  obtain rfl := Except.ok.inj h
  have hdate := parseDate_wellFormed hdate
  have htime := parseTime_wellFormed htime
  obtain ⟨⟨⟩, hmonth, hranges⟩ := bind_eq_ok.mp hranges
  obtain ⟨⟨⟩, hday, hranges⟩ := bind_eq_ok.mp hranges
  obtain ⟨⟨⟩, hhour, hranges⟩ := bind_eq_ok.mp hranges
  obtain ⟨⟨⟩, hminute, hsecond⟩ := bind_eq_ok.mp hranges
  exact ⟨hdate.year, hdate.month, hdate.day, htime.hour, htime.minute, htime.second,
    validateComponentRange_ok hmonth, validateComponentRange_ok hday,
    validateComponentRange_ok hhour, validateComponentRange_ok hminute,
    validateComponentRange_ok hsecond⟩

/-- What the parser accepts is well formed. -/
theorem parse_wellFormed {input : List Char} {spec : CalendarSpec} (h : parse input = .ok spec) :
    spec.WellFormed := by
  unfold parse at h
  dsimp only at h
  split at h
  · simp at h
  split at h
  · unfold parseTimestamp at h
    split at h
    · simp at h
    · obtain ⟨secs, -, h⟩ := bind_eq_ok.mp h
      dsimp only at h
      split at h
      · obtain rfl := Except.ok.inj h
        exact ⟨trivial, trivial, trivial, trivial, trivial, trivial, trivial, trivial, trivial,
          trivial, trivial⟩
      · simp at h
  split at h
  · rename_i expanded hexpanded
    cases hparts : parseParts expanded with
    | error e =>
      rw [hparts] at h
      simp [Except.map] at h
    | ok parsed =>
      rw [hparts] at h
      obtain rfl := Except.ok.inj h
      exact { parseParts_wellFormed hparts with }
  · exact parseParts_wellFormed h

end OxidizedSystemd.Calendar
