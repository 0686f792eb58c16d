import OxidizedSystemd.Calendar.Format
import OxidizedSystemd.Calendar.NextElapse

/-!
# The normal form of a calendar expression

Model of `CalendarSpec::normalized` (`calendar_spec.rs`, lines 363–415).

* `parseDatePart_format`, `parseTimePart_format`: a date and a time are printed and parsed back.
* `splitWhitespace_normalized`: the words of the normal form.
* `parse_normalized`: the normal form is parsed to the same expression.
-/

namespace OxidizedSystemd.Calendar

open OxidizedSystemd.Lib

/-! ## Printing -/

/-- The year and the separator behind it (lines 391–396). -/
def formatYear : Option CalendarComponent → List Char
  | some y => formatComponent y
  | none => ['*']

/-- `{:0width$}` of a signed number. -/
def paddedSigned (width : ℕ) : ℤ → List Char
  | .ofNat n => padded width n
  | .negSucc n => '-' :: padded (width - 1) (n + 1)

namespace CalendarSpec

/-- The date part (lines 391–399). -/
def formatDate (spec : CalendarSpec) : List Char :=
  formatYear spec.year ++ '-' :: formatComponentPadded 2 spec.month ++
    (if spec.dayFromEnd then '~' else '-') :: formatComponentPadded 2 spec.day

/-- The time part (lines 404–408). -/
def formatTime (spec : CalendarSpec) : List Char :=
  formatComponentPadded 2 spec.hour ++ ':' :: formatComponentPadded 2 spec.minute ++
    ':' :: formatComponentPadded 2 spec.second

/-- The form of an `@TIMESTAMP` (lines 365–371). -/
def formatInstant (t : ℤ) : List Char :=
  let dt := unixToDatetime t
  paddedSigned 4 dt.year ++ '-' :: padded 2 dt.month ++ '-' :: padded 2 dt.day ++
    ' ' :: padded 2 dt.hour ++ ':' :: padded 2 dt.minute ++ ':' :: padded 2 dt.second ++
    " UTC".toList

/-- `CalendarSpec::normalized` (lines 363–415). -/
def normalized (spec : CalendarSpec) : List Char :=
  match spec.fixedInstant with
  | some t => formatInstant t
  | none =>
    (match spec.weekdays with
      | some ranges => formatWeekdays ranges ++ [' ']
      | none => []) ++
      spec.formatDate ++ ' ' :: spec.formatTime ++ (if spec.utc then " UTC".toList else [])

end CalendarSpec

/-! ## Dates and times -/

/-- A component that was parsed. -/
def CalendarComponent.Parsed (comp : CalendarComponent) : Prop :=
  ∃ s, parseComponent s = .ok comp

theorem CalendarComponent.Parsed.format {comp : CalendarComponent} (h : comp.Parsed)
    (width : ℕ) : parseComponent (formatComponentPadded width comp) = .ok comp := by
  obtain ⟨s, hs⟩ := h
  exact parseComponent_format hs width

theorem wildcard_parsed : CalendarComponent.Parsed .wildcard := ⟨['*'], rfl⟩

theorem zero_parsed : zero.Parsed := ⟨['0'], rfl⟩

/-- What the parser makes of a date: a year is not `*`. -/
structure DatePart.Parsed (date : DatePart) : Prop where
  year : ∀ y ∈ date.year, y.Parsed ∧ y ≠ .wildcard
  month : date.month.Parsed
  day : date.day.Parsed

structure TimePart.Parsed (time : TimePart) : Prop where
  hour : time.hour.Parsed
  minute : time.minute.Parsed
  second : time.second.Parsed

theorem parseYear_parsed {s : List Char} (hs : ∀ c ∈ s, isWhitespace c = false)
    {year : Option CalendarComponent} (h : parseYear s = .ok year) :
    ∀ y ∈ year, y.Parsed ∧ y ≠ .wildcard := by
  unfold parseYear at h
  split at h
  · obtain rfl := Except.ok.inj h
    exact fun y hy => absurd hy (by simp)
  · rename_i hstar
    obtain ⟨comp, hcomp, h⟩ := bind_eq_ok.mp h
    obtain rfl := Except.ok.inj h
    rintro y hy
    obtain rfl : comp = y := Option.some.inj hy
    refine ⟨⟨s, hcomp⟩, ?_⟩
    rintro rfl
    unfold parseComponent at hcomp
    dsimp only at hcomp
    rw [trim_of_no_whitespace hs] at hcomp
    split at hcomp
    · cases hcomp
    split at hcomp
    · obtain ⟨step, -, hcomp⟩ := bind_eq_ok.mp hcomp
      split at hcomp <;> cases hcomp
    · obtain ⟨values, -, hcomp⟩ := bind_eq_ok.mp hcomp
      split at hcomp <;> cases hcomp

theorem parseDatePart_parsed {s : List Char} (hs : ∀ c ∈ s, isWhitespace c = false)
    {date : DatePart} (h : parseDatePart s = .ok date) : date.Parsed := by
  have hpiece : ∀ {t piece : List Char}, (∀ c ∈ t, isWhitespace c = false) →
      piece ∈ t.splitOn '-' → ∀ c ∈ piece, isWhitespace c = false :=
    fun ht hp c hc => ht c (mem_of_mem_splitOn hp hc)
  unfold parseDatePart at h
  split at h
  · rename_i head dayStr hcut
    have hhead : ∀ c ∈ head, isWhitespace c = false := by
      intro c hc
      rw [append_of_splitOnce hcut] at hs
      exact hs c (List.mem_append_left _ (List.mem_append_left _ hc))
    split at h
    · cases h
    · obtain ⟨day, hday, h⟩ := bind_eq_ok.mp h
      unfold parseDateHead at h
      split at h
      · rename_i y m hsplit
        obtain ⟨year, hyear, h⟩ := bind_eq_ok.mp h
        obtain ⟨month, hmonth, h⟩ := bind_eq_ok.mp h
        obtain rfl := Except.ok.inj h
        exact ⟨parseYear_parsed (hpiece hhead (hsplit ▸ List.mem_cons_self)) hyear,
          ⟨_, hmonth⟩, ⟨_, hday⟩⟩
      · split at h
        · obtain rfl := Except.ok.inj h
          exact ⟨fun y hy => absurd hy (by simp), wildcard_parsed, ⟨_, hday⟩⟩
        · obtain ⟨month, hmonth, h⟩ := bind_eq_ok.mp h
          obtain rfl := Except.ok.inj h
          exact ⟨fun y hy => absurd hy (by simp), ⟨_, hmonth⟩, ⟨_, hday⟩⟩
      · cases h
  · split at h
    · rename_i y m d hsplit
      obtain ⟨year, hyear, h⟩ := bind_eq_ok.mp h
      obtain ⟨month, hmonth, h⟩ := bind_eq_ok.mp h
      obtain ⟨day, hday, h⟩ := bind_eq_ok.mp h
      obtain rfl := Except.ok.inj h
      exact ⟨parseYear_parsed (hpiece hs (hsplit ▸ List.mem_cons_self)) hyear, ⟨_, hmonth⟩,
        ⟨_, hday⟩⟩
    · obtain ⟨month, hmonth, h⟩ := bind_eq_ok.mp h
      obtain ⟨day, hday, h⟩ := bind_eq_ok.mp h
      obtain rfl := Except.ok.inj h
      exact ⟨fun y hy => absurd hy (by simp), ⟨_, hmonth⟩, ⟨_, hday⟩⟩
    · obtain ⟨day, hday, h⟩ := bind_eq_ok.mp h
      obtain rfl := Except.ok.inj h
      exact ⟨fun y hy => absurd hy (by simp), wildcard_parsed, ⟨_, hday⟩⟩
    · cases h

theorem parseTimePart_parsed {s : List Char} {time : TimePart} (h : parseTimePart s = .ok time) :
    time.Parsed := by
  unfold parseTimePart at h
  split at h
  · obtain ⟨hour, hhour, h⟩ := bind_eq_ok.mp h
    obtain ⟨minute, hminute, h⟩ := bind_eq_ok.mp h
    obtain ⟨second, hsecond, h⟩ := bind_eq_ok.mp h
    obtain rfl := Except.ok.inj h
    exact ⟨⟨_, hhour⟩, ⟨_, hminute⟩, ⟨_, hsecond⟩⟩
  · obtain ⟨hour, hhour, h⟩ := bind_eq_ok.mp h
    obtain ⟨minute, hminute, h⟩ := bind_eq_ok.mp h
    obtain rfl := Except.ok.inj h
    exact ⟨⟨_, hhour⟩, ⟨_, hminute⟩, zero_parsed⟩
  · obtain ⟨hour, hhour, h⟩ := bind_eq_ok.mp h
    obtain rfl := Except.ok.inj h
    exact ⟨⟨_, hhour⟩, zero_parsed, zero_parsed⟩
  · cases h

theorem formatComponent_eq : formatComponent = formatComponentPadded 0 := by
  have hnumber : decimal = padded 0 := funext fun n => (padded_zero n).symm
  unfold formatComponent formatComponentPadded formatValue formatValuePadded
  rw [hnumber]

theorem formatYear_chars (year : Option CalendarComponent) :
    ∀ c ∈ formatYear year, isComponentChar c = true := by
  cases year with
  | none => exact List.all_eq_true.mp (by decide)
  | some y =>
    rw [formatYear, formatComponent_eq]
    exact formatComponent_chars 0 y

theorem notMem_formatYear {c : Char} (hc : isComponentChar c = false)
    (year : Option CalendarComponent) : c ∉ formatYear year := by
  intro hmem
  rw [formatYear_chars year c hmem] at hc
  cases hc

/-- A year is printed and parsed back. -/
theorem parseYear_format {year : Option CalendarComponent}
    (h : ∀ y ∈ year, y.Parsed ∧ y ≠ .wildcard) : parseYear (formatYear year) = .ok year := by
  cases year with
  | none => rfl
  | some y =>
    obtain ⟨hparsed, hne⟩ := h y rfl
    have hformat := hparsed.format 0
    have hstar : formatComponentPadded 0 y ≠ ['*'] := by
      intro hstar
      rw [hstar] at hformat
      exact hne (Except.ok.inj hformat).symm
    rw [formatYear, formatComponent_eq, parseYear, if_neg hstar]
    exact bind_eq_ok.mpr ⟨y, hformat, rfl⟩

namespace CalendarSpec

/-- What the parser makes of an expression. -/
structure Parsed (spec : CalendarSpec) : Prop where
  weekdays : ∀ ranges ∈ spec.weekdays, ranges ≠ [] ∧ ∀ r ∈ ranges, r.Valid
  date : DatePart.Parsed ⟨spec.year, spec.month, spec.day, spec.dayFromEnd⟩
  time : TimePart.Parsed ⟨spec.hour, spec.minute, spec.second⟩
  ranges : validateRanges ⟨spec.year, spec.month, spec.day, spec.dayFromEnd⟩
    ⟨spec.hour, spec.minute, spec.second⟩ = .ok ()

variable {spec : CalendarSpec}

/-- A date is printed and parsed back. -/
theorem parseDatePart_format (h : spec.Parsed) : parseDatePart spec.formatDate =
    .ok ⟨spec.year, spec.month, spec.day, spec.dayFromEnd⟩ := by
  have hyear := parseYear_format h.date.year
  have hmonth := h.date.month.format 2
  have hday := h.date.day.format 2
  have hminus : ∀ comp, '-' ∉ formatComponentPadded 2 comp := notMem_formatComponent rfl 2
  have htilde : ∀ comp, '~' ∉ formatComponentPadded 2 comp := notMem_formatComponent rfl 2
  have hhead : '~' ∉ formatYear spec.year ++ '-' :: formatComponentPadded 2 spec.month := by
    simp only [List.mem_append, List.mem_cons, not_or]
    exact ⟨notMem_formatYear rfl _, by decide, htilde _⟩
  unfold formatDate parseDatePart
  cases spec.dayFromEnd with
  | true =>
    have hcut : splitOnce ['~'] (formatYear spec.year ++
        '-' :: formatComponentPadded 2 spec.month ++ '~' :: formatComponentPadded 2 spec.day) =
        some (formatYear spec.year ++ '-' :: formatComponentPadded 2 spec.month,
          formatComponentPadded 2 spec.day) := splitOnce_singleton_eq_some_iff.mpr ⟨hhead, rfl⟩
    rw [if_pos rfl, hcut]
    dsimp only
    rw [if_neg (htilde _), List.splitOn_append_cons_self_of_not_mem (notMem_formatYear rfl _),
      List.splitOn_eq_singleton (hminus _)]
    refine bind_eq_ok.mpr ⟨spec.day, hday, ?_⟩
    refine bind_eq_ok.mpr ⟨spec.year, hyear, ?_⟩
    exact bind_eq_ok.mpr ⟨spec.month, hmonth, rfl⟩
  | false =>
    have hcut : splitOnce ['~'] (formatYear spec.year ++
        '-' :: formatComponentPadded 2 spec.month ++ '-' :: formatComponentPadded 2 spec.day) =
        none := by
      refine splitOnce_singleton_eq_none_iff.mpr ?_
      rw [List.mem_append, List.mem_cons, not_or, not_or]
      exact ⟨hhead, by decide, htilde _⟩
    rw [if_neg Bool.false_ne_true, hcut, List.append_assoc, List.cons_append,
      List.splitOn_append_cons_self_of_not_mem (notMem_formatYear rfl _),
      List.splitOn_append_cons_self_of_not_mem (hminus _), List.splitOn_eq_singleton (hminus _)]
    refine bind_eq_ok.mpr ⟨spec.year, hyear, ?_⟩
    refine bind_eq_ok.mpr ⟨spec.month, hmonth, ?_⟩
    exact bind_eq_ok.mpr ⟨spec.day, hday, rfl⟩

/-- A time is printed and parsed back. -/
theorem parseTimePart_format (h : spec.Parsed) : parseTimePart spec.formatTime =
    .ok ⟨spec.hour, spec.minute, spec.second⟩ := by
  have hcolon : ∀ comp, ':' ∉ formatComponentPadded 2 comp := notMem_formatComponent rfl 2
  rw [parseTimePart, formatTime, List.append_assoc, List.cons_append,
    List.splitOn_append_cons_self_of_not_mem (hcolon _),
    List.splitOn_append_cons_self_of_not_mem (hcolon _), List.splitOn_eq_singleton (hcolon _)]
  refine bind_eq_ok.mpr ⟨spec.hour, h.time.hour.format 2, ?_⟩
  refine bind_eq_ok.mpr ⟨spec.minute, h.time.minute.format 2, ?_⟩
  exact bind_eq_ok.mpr ⟨spec.second, h.time.second.format 2, rfl⟩

/-! ## Expressions -/

theorem takeWeekdays_parsed {parts : List (List Char)}
    {r : Option (List WeekdayRange) × List (List Char)} (h : takeWeekdays parts = .ok r) :
    (∀ ranges ∈ r.1, ranges ≠ [] ∧ ∀ x ∈ ranges, x.Valid) ∧ ∀ p ∈ r.2, p ∈ parts := by
  cases parts with
  | nil =>
    obtain rfl := Except.ok.inj h
    exact ⟨fun ranges hranges => absurd hranges (by simp), fun p hp => hp⟩
  | cons part parts =>
    rw [takeWeekdays] at h
    split at h
    · obtain ⟨ranges, hranges, h⟩ := bind_eq_ok.mp h
      obtain rfl := Except.ok.inj h
      refine ⟨?_, fun p hp => List.mem_cons_of_mem part hp⟩
      rintro ranges' hmem
      obtain rfl : ranges = ranges' := Option.some.inj hmem
      obtain ⟨parsed, hparsed, hranges⟩ := bind_eq_ok.mp hranges
      split at hranges
      · cases hranges
      · rename_i hne
        obtain rfl := Except.ok.inj hranges
        refine ⟨hne, fun x hx => ?_⟩
        obtain ⟨text, -, htext⟩ := mem_of_mapM_eq_ok hparsed x hx
        exact parseWeekdayRange_valid htext
    · obtain rfl := Except.ok.inj h
      exact ⟨fun ranges hranges => absurd hranges (by simp), fun p hp => hp⟩

theorem mem_of_datePartTimePart {input : List Char} {parts : List (List Char)}
    {r : Option (List Char) × Option (List Char)} (h : datePartTimePart input parts = .ok r) :
    ∀ d ∈ r.1, d ∈ parts := by
  intro d hd
  unfold datePartTimePart at h
  split at h
  · obtain rfl := Except.ok.inj h
    cases hd
  · split at h
    · obtain rfl := Except.ok.inj h
      exact Option.some.inj hd ▸ List.mem_cons_self
    · split at h
      · obtain rfl := Except.ok.inj h
        cases hd
      · cases h
  · obtain rfl := Except.ok.inj h
    exact Option.some.inj hd ▸ List.mem_cons_self
  · cases h

theorem parseParts_parsed {input : List Char} (h : parseParts input = .ok spec) :
    spec.Parsed := by
  obtain ⟨weekdays, hweekdays, h⟩ := bind_eq_ok.mp h
  obtain ⟨dateTime, hparts, h⟩ := bind_eq_ok.mp h
  obtain ⟨date, hdate, h⟩ := bind_eq_ok.mp h
  obtain ⟨time, htime, h⟩ := bind_eq_ok.mp h
  obtain ⟨⟨⟩, hranges, h⟩ := bind_eq_ok.mp h
  obtain rfl := Except.ok.inj h
  obtain ⟨hvalid, hrest⟩ := takeWeekdays_parsed hweekdays
  refine ⟨hvalid, ?_, ?_, hranges⟩
  · cases hpart : dateTime.1 with
    | none =>
      rw [hpart] at hdate
      obtain rfl := Except.ok.inj hdate
      exact ⟨fun y hy => absurd hy (by simp), wildcard_parsed, wildcard_parsed⟩
    | some part =>
      rw [hpart] at hdate
      have hmem := hrest part (mem_of_datePartTimePart hparts part hpart)
      have hword : part ∈ splitWhitespace input := by
        split at hmem
        · exact (List.dropLast_sublist _).subset hmem
        · exact hmem
      exact parseDatePart_parsed (of_mem_splitWhitespace hword) hdate
  · cases hpart : dateTime.2 with
    | none =>
      rw [hpart] at htime
      obtain rfl := Except.ok.inj htime
      exact ⟨zero_parsed, zero_parsed, zero_parsed⟩
    | some part =>
      rw [hpart] at htime
      exact parseTimePart_parsed htime

/-- What is in front of the time: the weekdays and the date. -/
def formatHead (spec : CalendarSpec) : List Char :=
  (match spec.weekdays with
    | some ranges => formatWeekdays ranges ++ [' ']
    | none => []) ++ spec.formatDate

/-- The time, and `UTC` behind it. -/
def formatTail (spec : CalendarSpec) : List Char :=
  spec.formatTime ++ if spec.utc then " UTC".toList else []

theorem normalized_eq (hinstant : spec.fixedInstant = none) :
    spec.normalized = spec.formatHead ++ ' ' :: spec.formatTail := by
  rw [normalized, hinstant, formatHead, formatTail]
  simp

/-- The words of the normal form. -/
def words (spec : CalendarSpec) : List (List Char) :=
  (spec.weekdays.map formatWeekdays).toList ++
    [spec.formatDate, spec.formatTime] ++ if spec.utc then ["UTC".toList] else []

/-- The date and the time are words. -/
theorem formatDate_word (spec : CalendarSpec) : spec.formatDate ≠ [] ∧
    ∀ c ∈ spec.formatDate, isComponentChar c = true ∨ c = '-' ∨ c = '~' := by
  refine ⟨by simp [formatDate], fun c hc => ?_⟩
  rcases List.mem_append.mp hc with hc | hc
  · rcases List.mem_append.mp hc with hc | hc
    · exact .inl (formatYear_chars _ c hc)
    · rcases List.mem_cons.mp hc with rfl | hc
      · exact .inr (.inl rfl)
      · exact .inl (formatComponent_chars 2 _ c hc)
  · rcases List.mem_cons.mp hc with rfl | hc
    · cases spec.dayFromEnd with
      | true => exact .inr (.inr rfl)
      | false => exact .inr (.inl rfl)
    · exact .inl (formatComponent_chars 2 _ c hc)

theorem formatTime_word (spec : CalendarSpec) : spec.formatTime ≠ [] ∧
    ∀ c ∈ spec.formatTime, isComponentChar c = true ∨ c = ':' := by
  refine ⟨by simp [formatTime], fun c hc => ?_⟩
  rcases List.mem_append.mp hc with hc | hc
  · rcases List.mem_append.mp hc with hc | hc
    · exact .inl (formatComponent_chars 2 _ c hc)
    · rcases List.mem_cons.mp hc with rfl | hc
      · exact .inr rfl
      · exact .inl (formatComponent_chars 2 _ c hc)
  · rcases List.mem_cons.mp hc with rfl | hc
    · exact .inr rfl
    · exact .inl (formatComponent_chars 2 _ c hc)

theorem formatWeekdays_word {ranges : List WeekdayRange} (hne : ranges ≠ [])
    (hranges : ∀ r ∈ ranges, r.Valid) : formatWeekdays ranges ≠ [] ∧
      ∀ c ∈ formatWeekdays ranges,
        c.isAlpha = true ∧ isWhitespace c = false ∨ c = '.' ∨ c = ',' := by
  constructor
  · obtain ⟨r, rest, rfl⟩ := List.exists_cons_of_ne_nil hne
    obtain ⟨c, cs, htext⟩ :=
      List.exists_cons_of_ne_nil (formatWeekdayRange_chars (hranges r List.mem_cons_self)).1
    rw [formatWeekdays, List.map_cons, htext, List.intercalate_cons_cons_left]
    exact List.cons_ne_nil _ _
  · intro c hc
    rcases mem_intercalate hc with rfl | ⟨piece, hpiece, hc⟩
    · exact .inr (.inr rfl)
    · obtain ⟨r, hr, rfl⟩ := List.mem_map.mp hpiece
      obtain ⟨halpha | rfl, hblank⟩ := (formatWeekdayRange_chars (hranges r hr)).2 c hc
      · exact .inl ⟨halpha, hblank⟩
      · exact .inr (.inl rfl)

theorem blank_of_date {c : Char} (h : isComponentChar c = true ∨ c = '-' ∨ c = '~') :
    isWhitespace c = false := by
  rcases h with h | rfl | rfl
  · exact isWhitespace_of_isComponentChar h
  · rfl
  · rfl

theorem blank_of_time {c : Char} (h : isComponentChar c = true ∨ c = ':') :
    isWhitespace c = false := by
  rcases h with h | rfl
  · exact isWhitespace_of_isComponentChar h
  · rfl

theorem blank_of_weekdays {c : Char}
    (h : c.isAlpha = true ∧ isWhitespace c = false ∨ c = '.' ∨ c = ',') :
    isWhitespace c = false := by
  rcases h with ⟨-, h⟩ | rfl | rfl
  · exact h
  · rfl
  · rfl

theorem splitWhitespace_formatTail (spec : CalendarSpec) : splitWhitespace spec.formatTail =
    spec.formatTime :: if spec.utc then ["UTC".toList] else [] := by
  obtain ⟨htime, htimeChars⟩ := formatTime_word spec
  have hblank : ∀ c ∈ spec.formatTime, isWhitespace c = false :=
    fun c hc => blank_of_time (htimeChars c hc)
  rw [formatTail]
  cases spec.utc with
  | true =>
    have hutc : splitWhitespace "UTC".toList = ["UTC".toList] := by decide
    rw [if_pos rfl, if_pos rfl, ← hutc]
    exact splitWhitespace_append_cons htime hblank _
  | false =>
    rw [if_neg Bool.false_ne_true, if_neg Bool.false_ne_true, List.append_nil]
    exact splitWhitespace_singleton htime hblank

theorem splitWhitespace_normalized (h : spec.Parsed) (hinstant : spec.fixedInstant = none) :
    splitWhitespace spec.normalized = spec.words := by
  obtain ⟨hdate, hdateChars⟩ := formatDate_word spec
  have hrest : splitWhitespace (spec.formatDate ++ ' ' :: spec.formatTail) =
      spec.formatDate :: spec.formatTime :: if spec.utc then ["UTC".toList] else [] := by
    rw [splitWhitespace_append_cons hdate fun c hc => blank_of_date (hdateChars c hc),
      splitWhitespace_formatTail]
  rw [normalized_eq hinstant, formatHead, words]
  cases hweekdays : spec.weekdays with
  | none => simpa using hrest
  | some ranges =>
    obtain ⟨hne, hranges⟩ := h.weekdays ranges hweekdays
    obtain ⟨hword, hchars⟩ := formatWeekdays_word hne hranges
    have hsplit := splitWhitespace_append_cons hword
      (fun c hc => blank_of_weekdays (hchars c hc)) (spec.formatDate ++ ' ' :: spec.formatTail)
    rw [hrest] at hsplit
    simpa using hsplit

/-- The words of the normal form are parsed. -/
theorem parseParts_normalized (h : spec.Parsed) (hinstant : spec.fixedInstant = none) :
    parseParts spec.normalized = .ok { spec with original := spec.normalized } := by
  have hminus : '-' ∈ spec.formatDate :=
    List.mem_append_left _ (List.mem_append_right _ List.mem_cons_self)
  have hutc : decide (2 ≤ spec.words.length ∧ spec.words.getLast? = some "UTC".toList) =
      spec.utc := by
    have hcolon : ':' ∈ spec.formatTime :=
      List.mem_append_left _ (List.mem_append_right _ List.mem_cons_self)
    have hne : spec.formatTime ≠ "UTC".toList := by
      intro heq
      rw [heq] at hcolon
      exact absurd hcolon (by decide)
    rw [words]
    cases spec.utc with
    | true => simp
    | false => simpa using hne
  have hwords : (if spec.utc then spec.words.dropLast else spec.words) =
      (spec.weekdays.map formatWeekdays).toList ++ [spec.formatDate, spec.formatTime] := by
    rw [words]
    cases spec.utc with
    | true => rw [if_pos rfl, if_pos rfl, List.dropLast_concat]
    | false => rw [if_neg Bool.false_ne_true, if_neg Bool.false_ne_true, List.append_nil]
  have hweekdays : takeWeekdays ((spec.weekdays.map formatWeekdays).toList ++
      [spec.formatDate, spec.formatTime]) =
        .ok (spec.weekdays, [spec.formatDate, spec.formatTime]) := by
    cases hweekdays : spec.weekdays with
    | none =>
      show takeWeekdays [spec.formatDate, spec.formatTime] = _
      rw [takeWeekdays, looksLikeWeekday_of_minus hminus, if_neg Bool.false_ne_true]
    | some ranges =>
      obtain ⟨hne, hranges⟩ := h.weekdays ranges hweekdays
      show takeWeekdays (formatWeekdays ranges :: [spec.formatDate, spec.formatTime]) = _
      rw [takeWeekdays, looksLikeWeekday_format hne hranges, if_pos rfl]
      exact bind_eq_ok.mpr ⟨ranges, parseWeekdays_format hne hranges, rfl⟩
  rw [parseParts, splitWhitespace_normalized h hinstant, hutc, hwords]
  refine bind_eq_ok.mpr ⟨_, hweekdays, ?_⟩
  refine bind_eq_ok.mpr ⟨(some spec.formatDate, some spec.formatTime), rfl, ?_⟩
  refine bind_eq_ok.mpr ⟨_, parseDatePart_format h, ?_⟩
  refine bind_eq_ok.mpr ⟨_, parseTimePart_format h, ?_⟩
  refine bind_eq_ok.mpr ⟨(), h.ranges, ?_⟩
  rw [hinstant]

/-- The normal form begins with a word, and has no `@`. -/
theorem formatHead_spec (h : spec.Parsed) :
    (∃ word rest, spec.formatHead = word ++ rest ∧ word ≠ [] ∧
      ∀ c ∈ word, isWhitespace c = false) ∧ '@' ∉ spec.formatHead := by
  obtain ⟨hdate, hdateChars⟩ := formatDate_word spec
  have hat : '@' ∉ spec.formatDate := by
    intro hmem
    have hnot : ¬ (isComponentChar '@' = true ∨ '@' = '-' ∨ '@' = '~') := by decide
    exact hnot (hdateChars '@' hmem)
  rw [formatHead]
  cases hweekdays : spec.weekdays with
  | none =>
    exact ⟨⟨spec.formatDate, [], (List.append_nil _).symm, hdate,
      fun c hc => blank_of_date (hdateChars c hc)⟩, hat⟩
  | some ranges =>
    obtain ⟨hne, hranges⟩ := h.weekdays ranges hweekdays
    obtain ⟨hword, hchars⟩ := formatWeekdays_word hne hranges
    refine ⟨⟨formatWeekdays ranges, ' ' :: spec.formatDate, by simp, hword,
      fun c hc => blank_of_weekdays (hchars c hc)⟩, fun hmem => ?_⟩
    have hnot : ¬ ('@'.isAlpha = true ∧ isWhitespace '@' = false ∨ '@' = '.' ∨ '@' = ',') := by
      decide
    rcases List.mem_append.mp hmem with hmem | hmem
    · rcases List.mem_append.mp hmem with hmem | hmem
      · exact hnot (hchars '@' hmem)
      · exact absurd hmem (by decide)
    · exact hat hmem

/-- The normal form ends with a word. -/
theorem formatTail_spec (spec : CalendarSpec) :
    (∃ rest word, spec.formatTail = rest ++ word ∧ word ≠ [] ∧
      ∀ c ∈ word, isWhitespace c = false) ∧ '@' ∉ spec.formatTail := by
  obtain ⟨htime, htimeChars⟩ := formatTime_word spec
  have hat : '@' ∉ spec.formatTime := by
    intro hmem
    have hnot : ¬ (isComponentChar '@' = true ∨ '@' = ':') := by decide
    exact hnot (htimeChars '@' hmem)
  rw [formatTail]
  cases spec.utc with
  | true =>
    have hutc : '@' ∉ " UTC".toList := by decide
    have hletters : ∀ c ∈ "UTC".toList, (!isWhitespace c) = true :=
      List.all_eq_true.mp (by decide)
    refine ⟨⟨spec.formatTime ++ [' '], "UTC".toList, by simp, by decide,
      fun c hc => by simpa using hletters c hc⟩, ?_⟩
    exact fun hmem => (List.mem_append.mp hmem).elim hat hutc
  | false =>
    refine ⟨⟨[], spec.formatTime, by simp, htime, fun c hc => blank_of_time (htimeChars c hc)⟩, ?_⟩
    exact fun hmem => (List.mem_append.mp hmem).elim hat (by simp)

theorem trim_normalized (h : spec.Parsed) (hinstant : spec.fixedInstant = none) :
    trim spec.normalized = spec.normalized ∧ '@' ∉ spec.normalized ∧ ' ' ∈ spec.normalized := by
  obtain ⟨⟨first, rest, hhead, hfirst, hfirstBlank⟩, hheadAt⟩ := formatHead_spec h
  obtain ⟨⟨rest', last, htail, hlast, hlastBlank⟩, htailAt⟩ := formatTail_spec spec
  rw [normalized_eq hinstant]
  refine ⟨?_, ?_, List.mem_append_right _ List.mem_cons_self⟩
  · have htrim := trim_of_ends hfirst hlast hfirstBlank hlastBlank (rest ++ ' ' :: rest')
    rw [hhead, htail]
    simpa using htrim
  · intro hmem
    rcases List.mem_append.mp hmem with hmem | hmem
    · exact hheadAt hmem
    · exact (List.mem_cons.mp hmem).elim (by decide) htailAt

/-- The normal form of whatever the parser accepts, but for an `@TIMESTAMP`, is parsed to the same
    expression, so it matches the same date-times, elapses at the same ones and is its own normal
    form. -/
theorem parse_normalized {input : List Char} (hparse : parse input = .ok spec)
    (hinstant : spec.fixedInstant = none) :
    ∃ spec', parse spec.normalized = .ok spec' ∧
      spec' = { spec with original := spec.normalized } ∧ (∀ t, spec'.Matches t ↔ spec.Matches t) ∧
      (∀ after, spec'.nextElapse after = spec.nextElapse after) ∧
      spec'.normalized = spec.normalized := by
  have hparsed : spec.Parsed := by
    unfold parse at hparse
    dsimp only at hparse
    split at hparse
    · cases hparse
    split at hparse
    · unfold parseTimestamp at hparse
      split at hparse
      · cases hparse
      · obtain ⟨secs, -, h⟩ := bind_eq_ok.mp hparse
        dsimp only at h
        split at h
        · obtain rfl := Except.ok.inj h
          cases hinstant
        · cases h
    split at hparse
    · rename_i expanded _
      cases hparts : parseParts expanded with
      | error e =>
        rw [hparts] at hparse
        cases hparse
      | ok parsed =>
        rw [hparts] at hparse
        obtain rfl := Except.ok.inj hparse
        exact { parseParts_parsed hparts with }
    · exact parseParts_parsed hparse
  obtain ⟨htrim, hat, hblank⟩ := trim_normalized hparsed hinstant
  have hstrip : stripPrefix ['@'] spec.normalized = none := by
    refine Option.eq_none_iff_forall_not_mem.mpr fun rest hrest => hat ?_
    rw [stripPrefix_eq_some_iff.mp hrest]
    exact List.mem_cons_self
  have hshort : shorthandExpansion spec.normalized = none := by
    rw [shorthandExpansion, Option.map_eq_none_iff, List.find?_eq_none]
    intro entry hentry heq
    -- a blank stays a blank, and no shorthand has one
    have hlower : ' ' ∈ toLowercase spec.normalized := List.mem_map.mpr ⟨' ', hblank, by decide⟩
    have hnames : ∀ entry ∈ shorthands, ' ' ∉ entry.1.toList := by decide
    rw [of_decide_eq_true heq] at hlower
    exact hnames entry hentry hlower
  refine ⟨_, ?_, rfl, fun t => ⟨fun ht => { ht with }, fun ht => { ht with }⟩, fun after => rfl,
    rfl⟩
  rw [parse, htrim, if_neg (List.ne_nil_of_mem hblank), hstrip, hshort]
  exact parseParts_normalized hparsed hinstant

theorem parse_normalized_leapDay :
    ∃ spec', parse leapDay.normalized = .ok spec' ∧
      spec' = { leapDay with original := leapDay.normalized } ∧
      (∀ t, spec'.Matches t ↔ leapDay.Matches t) ∧
      (∀ after, spec'.nextElapse after = leapDay.nextElapse after) ∧
      spec'.normalized = leapDay.normalized :=
  parse_normalized parse_leapDay rfl

example : leapDay.normalized = "*-02-29 12:00:00".toList := by rfl

end CalendarSpec

end OxidizedSystemd.Calendar
