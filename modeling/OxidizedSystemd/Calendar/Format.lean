import OxidizedSystemd.Calendar.Parse
import OxidizedSystemd.Lib.TextPieces

/-!
# Printing calendar components

Model of what `CalendarSpec::normalized` prints with (`calendar_spec.rs`, lines 375–389, 468–479 and
934–981), and that it is parsed back.

* `parseSingleValue_format`, `parseComponent_format`: values and components.
* `parseWeekdays_format`, `looksLikeWeekday_format`: weekdays.
* `looksLikeWeekday_of_minus`: a date is not taken for weekdays.
-/

namespace OxidizedSystemd.Calendar

open OxidizedSystemd.Lib

/-! ## Printing -/

/-- `weekday_name` (lines 468–479). -/
def weekdayName (d : ℕ) : List Char :=
  match d with
  | 0 => "Mon".toList
  | 1 => "Tue".toList
  | 2 => "Wed".toList
  | 3 => "Thu".toList
  | 4 => "Fri".toList
  | 5 => "Sat".toList
  | 6 => "Sun".toList
  | _ => "???".toList

/-- A value, with the format of its numbers; the step is never padded. -/
def formatValueWith (number : ℕ → List Char) : CalendarValue → List Char
  | .exact v => number v
  | .range a b => number a ++ "..".toList ++ number b
  | .repeats start step => number start ++ '/' :: decimal step
  | .rangeRepeat start stop step =>
    number start ++ "..".toList ++ number stop ++ '/' :: decimal step

/-- `format_value` (lines 962–970). -/
def formatValue : CalendarValue → List Char := formatValueWith decimal

/-- `format_value_padded` (lines 971–981). -/
def formatValuePadded (width : ℕ) : CalendarValue → List Char := formatValueWith (padded width)

/-- A component, with the format of its values. -/
def formatComponentWith (value : CalendarValue → List Char) : CalendarComponent → List Char
  | .wildcard => ['*']
  | .wildcardRepeat step => '*' :: '/' :: decimal step
  | .list values => [','].intercalate (values.map value)

/-- `format_component` (lines 938–947). -/
def formatComponent : CalendarComponent → List Char := formatComponentWith formatValue

/-- `format_component_padded` (lines 949–960). -/
def formatComponentPadded (width : ℕ) : CalendarComponent → List Char :=
  formatComponentWith (formatValuePadded width)

/-- One of the weekdays (lines 378–384). -/
def formatWeekdayRange (r : WeekdayRange) : List Char :=
  if r.start = r.stop then weekdayName r.start
  else weekdayName r.start ++ "..".toList ++ weekdayName r.stop

/-- `wd_strs.join(",")`. -/
def formatWeekdays (ranges : List WeekdayRange) : List Char :=
  [','].intercalate (ranges.map formatWeekdayRange)

/-! ## Values -/

/-- A number that was parsed is printed and parsed back. -/
theorem parseU32_padded {label : String} {s : List Char} {n : ℕ}
    (h : parseU32 label s = .ok n) (label' : String) (width : ℕ) :
    parseU32 label' (padded width n) = .ok n :=
  okOr_eq_ok.mpr (fromStrRadix_padded (le_of_fromStrRadix (okOr_eq_ok.mp h)))

/-- The two ends of a range that was parsed are printed and parsed back. -/
theorem parseRange_padded {s a b : List Char} {ends : ℕ × ℕ} (h : parseRange s a b = .ok ends)
    (t : List Char) (width : ℕ) :
    parseRange t (padded width ends.1) (padded width ends.2) = .ok ends := by
  obtain ⟨x, hx, h⟩ := bind_eq_ok.mp h
  obtain ⟨y, hy, h⟩ := bind_eq_ok.mp h
  split at h
  · cases h
  · rename_i hle
    obtain rfl := Except.ok.inj h
    refine bind_eq_ok.mpr ⟨x, parseU32_padded hx _ width, ?_⟩
    refine bind_eq_ok.mpr ⟨y, parseU32_padded hy _ width, ?_⟩
    exact if_neg hle

theorem splitOnce_dots {width a : ℕ} (bs : List Char) :
    splitOnce "..".toList (padded width a ++ "..".toList ++ bs) = some (padded width a, bs) :=
  splitOnce_append (notMem_padded (by decide)) ['.'] bs

theorem splitOnce_dots_padded {width a : ℕ} : splitOnce "..".toList (padded width a) = none :=
  splitOnce_of_notMem (notMem_padded (by decide)) ['.']

/-- The step behind a base is cut off first. -/
theorem parseSingleValue_step {base : List Char} (hbase : '/' ∉ base) {label : String}
    {t : List Char} {step : ℕ} (hstep : parseU32 label t = .ok step) (hpos : step ≠ 0) :
    parseSingleValue (base ++ '/' :: decimal step) =
      (match splitOnce "..".toList base with
      | some (a, b) =>
        parseRange (base ++ '/' :: decimal step) a b >>= fun ends =>
          .ok (.rangeRepeat ends.1 ends.2 step)
      | none => parseU32 "Invalid value: " base >>= fun v => .ok (.repeats v step)) := by
  have hcut : splitOnce ['/'] (base ++ '/' :: decimal step) = some (base, decimal step) :=
    splitOnce_singleton_eq_some_iff.mpr ⟨hbase, rfl⟩
  have hdecimal : parseU32 "Invalid step: " (decimal step) = .ok step := by
    rw [← padded_zero]
    exact parseU32_padded hstep _ 0
  rw [parseSingleValue, hcut]
  dsimp only
  rw [hdecimal]
  exact if_neg hpos

/-- A value that was parsed is printed and parsed back. -/
theorem parseSingleValue_format {s : List Char} {v : CalendarValue}
    (h : parseSingleValue s = .ok v) (width : ℕ) :
    parseSingleValue (formatValueWith (padded width) v) = .ok v := by
  have hslash : ∀ n, '/' ∉ padded width n := fun n => notMem_padded (by decide)
  have hrange : ∀ a b, '/' ∉ padded width a ++ "..".toList ++ padded width b := by
    intro a b
    simp only [List.mem_append, not_or]
    exact ⟨⟨hslash a, by decide⟩, hslash b⟩
  unfold parseSingleValue at h
  split at h
  · obtain ⟨step, hstep, h⟩ := bind_eq_ok.mp h
    split at h
    · cases h
    · rename_i hpos
      split at h
      · obtain ⟨ends, hends, h⟩ := bind_eq_ok.mp h
        obtain rfl := Except.ok.inj h
        rw [formatValueWith, parseSingleValue_step (hrange _ _) hstep hpos, splitOnce_dots]
        exact bind_eq_ok.mpr ⟨ends, parseRange_padded hends _ width, rfl⟩
      · obtain ⟨n, hn, h⟩ := bind_eq_ok.mp h
        obtain rfl := Except.ok.inj h
        rw [formatValueWith, parseSingleValue_step (hslash n) hstep hpos, splitOnce_dots_padded]
        exact bind_eq_ok.mpr ⟨n, parseU32_padded hn _ width, rfl⟩
  · split at h
    · obtain ⟨ends, hends, h⟩ := bind_eq_ok.mp h
      obtain rfl := Except.ok.inj h
      rw [formatValueWith, parseSingleValue, splitOnce_of_notMem (hrange _ _)]
      dsimp only
      rw [splitOnce_dots]
      exact bind_eq_ok.mpr ⟨ends, parseRange_padded hends _ width, rfl⟩
    · obtain ⟨n, hn, h⟩ := bind_eq_ok.mp h
      obtain rfl := Except.ok.inj h
      rw [formatValueWith, parseSingleValue, splitOnce_of_notMem (hslash n)]
      dsimp only
      rw [splitOnce_dots_padded]
      exact bind_eq_ok.mpr ⟨n, parseU32_padded hn _ width, rfl⟩

/-! ## Components -/

/-- A value begins with a digit, and has digits, points and a slash. -/
theorem formatValue_chars (width : ℕ) (v : CalendarValue) :
    (∃ c cs, formatValueWith (padded width) v = c :: cs ∧ c.isDigit = true) ∧
      ∀ c ∈ formatValueWith (padded width) v, c.isDigit = true ∨ c = '.' ∨ c = '/' := by
  have hhead : ∀ n, ∃ c cs, padded width n = c :: cs ∧ c.isDigit = true := by
    intro n
    obtain ⟨c, cs, heq⟩ := List.exists_cons_of_ne_nil (padded_ne_nil width n)
    exact ⟨c, cs, heq, isDigit_of_mem_padded (heq ▸ List.mem_cons_self)⟩
  have hnumber : ∀ n, ∀ c ∈ padded width n, c.isDigit = true ∨ c = '.' ∨ c = '/' :=
    fun n c hc => .inl (isDigit_of_mem_padded hc)
  have hstep : ∀ n, ∀ c ∈ '/' :: decimal n, c.isDigit = true ∨ c = '.' ∨ c = '/' := by
    intro n c hc
    rcases List.mem_cons.mp hc with rfl | hc
    · exact .inr (.inr rfl)
    · rw [← padded_zero] at hc
      exact .inl (isDigit_of_mem_padded hc)
  have hdots : ∀ c ∈ "..".toList, c.isDigit = true ∨ c = '.' ∨ c = '/' := by simp
  have happend : ∀ {as bs : List Char},
      (∀ c ∈ as, c.isDigit = true ∨ c = '.' ∨ c = '/') →
      (∀ c ∈ bs, c.isDigit = true ∨ c = '.' ∨ c = '/') →
      ∀ c ∈ as ++ bs, c.isDigit = true ∨ c = '.' ∨ c = '/' :=
    fun has hbs c hc => (List.mem_append.mp hc).elim (has c) (hbs c)
  have hcons : ∀ {as : List Char} (bs : List Char),
      (∃ c cs, as = c :: cs ∧ c.isDigit = true) →
        ∃ c cs, as ++ bs = c :: cs ∧ c.isDigit = true := by
    rintro as bs ⟨c, cs, rfl, hc⟩
    exact ⟨c, cs ++ bs, rfl, hc⟩
  cases v with
  | exact n => exact ⟨hhead n, hnumber n⟩
  | range a b =>
    exact ⟨hcons _ (hcons _ (hhead a)), happend (happend (hnumber a) hdots) (hnumber b)⟩
  | repeats start step => exact ⟨hcons _ (hhead start), happend (hnumber start) (hstep step)⟩
  | rangeRepeat start stop step =>
    exact ⟨hcons _ (hcons _ (hcons _ (hhead start))),
      happend (happend (happend (hnumber start) hdots) (hnumber stop)) (hstep step)⟩

/-- The characters of a component. -/
def isComponentChar (c : Char) : Bool :=
  c.isDigit || c = '.' || c = '/' || c = ',' || c = '*'

theorem formatComponent_chars (width : ℕ) (comp : CalendarComponent) :
    ∀ c ∈ formatComponentPadded width comp, isComponentChar c = true := by
  have hvalue : ∀ c : Char, c.isDigit = true ∨ c = '.' ∨ c = '/' → isComponentChar c = true := by
    rintro c (h | rfl | rfl)
    · simp [isComponentChar, h]
    · rfl
    · rfl
  intro c hc
  cases comp with
  | wildcard =>
    obtain rfl := List.mem_singleton.mp hc
    rfl
  | wildcardRepeat step =>
    rcases List.mem_cons.mp hc with rfl | hc
    · rfl
    · rcases List.mem_cons.mp hc with rfl | hc
      · rfl
      · rw [← padded_zero] at hc
        exact hvalue c (.inl (isDigit_of_mem_padded hc))
  | list values =>
    rcases mem_intercalate hc with rfl | ⟨piece, hpiece, hc⟩
    · rfl
    · obtain ⟨v, -, rfl⟩ := List.mem_map.mp hpiece
      exact hvalue c ((formatValue_chars width v).2 c hc)

/-- A character that is not one of a component's is not in it. -/
theorem notMem_formatComponent {c : Char} (hc : isComponentChar c = false) (width : ℕ)
    (comp : CalendarComponent) : c ∉ formatComponentPadded width comp := by
  intro hmem
  rw [formatComponent_chars width comp c hmem] at hc
  cases hc

theorem isWhitespace_of_isComponentChar {c : Char} (h : isComponentChar c = true) :
    isWhitespace c = false := by
  simp only [isComponentChar, Bool.or_eq_true, decide_eq_true_eq] at h
  rcases h with (((h | rfl) | rfl) | rfl) | rfl
  · have hn : 48 ≤ c.toNat ∧ c.toNat ≤ 57 := by
      simpa [Char.isDigit, UInt32.le_iff_toNat_le] using h
    simp only [isWhitespace, Bool.or_eq_false_iff, Bool.and_eq_false_iff, decide_eq_false_iff_not,
      beq_eq_false_iff_ne]
    omega
  · decide
  · decide
  · decide
  · decide

theorem trim_of_component {cs : List Char} (h : ∀ c ∈ cs, isComponentChar c = true) :
    trim cs = cs :=
  trim_of_no_whitespace fun c hc => isWhitespace_of_isComponentChar (h c hc)

/-- Pieces without commas and blanks are the parts of what is joined from them. -/
theorem commaParts_intercalate {pieces : List (List Char)} (hne : pieces ≠ [])
    (hpieces : ∀ piece ∈ pieces, piece ≠ [] ∧ ',' ∉ piece ∧ trim piece = piece) :
    commaParts ([','].intercalate pieces) = pieces := by
  rw [commaParts, List.splitOn_intercalate ',' (fun piece h => (hpieces piece h).2.1) hne]
  have htrim : pieces.map trim = pieces := by
    conv_rhs => rw [← List.map_id pieces]
    exact List.map_congr_left fun piece h => (hpieces piece h).2.2
  rw [htrim]
  refine List.filter_eq_self.mpr fun piece h => ?_
  simpa using (hpieces piece h).1

/-- A list begins with a digit. -/
theorem formatComponent_list {values : List CalendarValue} (hne : values ≠ []) (width : ℕ) :
    ∃ c cs, formatComponentPadded width (.list values) = c :: cs ∧ c.isDigit = true := by
  obtain ⟨v, vs, rfl⟩ := List.exists_cons_of_ne_nil hne
  obtain ⟨c, cs, hv, hdigit⟩ := (formatValue_chars width v).1
  refine ⟨c, [','].intercalate (cs :: vs.map (formatValuePadded width)), ?_, hdigit⟩
  show [','].intercalate (formatValueWith (padded width) v :: vs.map (formatValuePadded width)) = _
  rw [hv, List.intercalate_cons_cons_left]

theorem commaParts_format {values : List CalendarValue} (hne : values ≠ []) (width : ℕ) :
    commaParts (formatComponentPadded width (.list values)) =
      values.map (formatValueWith (padded width)) := by
  refine commaParts_intercalate (by simpa using hne) fun piece hpiece => ?_
  obtain ⟨v, -, rfl⟩ := List.mem_map.mp hpiece
  obtain ⟨⟨c, cs, htext, -⟩, hchars⟩ := formatValue_chars width v
  refine ⟨fun hnil => ?_, fun hcomma => ?_, trim_of_component fun c hc => ?_⟩
  · rw [formatValuePadded, htext] at hnil
    cases hnil
  · have hnot : ¬ (','.isDigit = true ∨ ',' = '.' ∨ ',' = '/') := by decide
    exact hnot (hchars ',' hcomma)
  · rcases hchars c hc with h | rfl | rfl
    · simp [isComponentChar, h]
    · rfl
    · rfl

/-- A component that was parsed is printed and parsed back. -/
theorem parseComponent_format {s : List Char} {comp : CalendarComponent}
    (h : parseComponent s = .ok comp) (width : ℕ) :
    parseComponent (formatComponentPadded width comp) = .ok comp := by
  have htrim := trim_of_component (formatComponent_chars width comp)
  rw [parseComponent, htrim]
  unfold parseComponent at h
  dsimp only at h ⊢
  split at h
  · cases h
  split at h
  · obtain rfl := Except.ok.inj h
    rfl
  split at h
  · obtain ⟨step, hstep, h⟩ := bind_eq_ok.mp h
    split at h
    · cases h
    · rename_i hpos
      obtain rfl := Except.ok.inj h
      have hstrip : stripPrefix "*/".toList (formatComponentPadded width (.wildcardRepeat step)) =
          some (decimal step) := stripPrefix_eq_some_iff.mpr rfl
      have hempty : formatComponentPadded width (.wildcardRepeat step) ≠ [] := List.cons_ne_nil _ _
      have hstar : formatComponentPadded width (.wildcardRepeat step) ≠ ['*'] := by
        intro heq
        cases heq
      have hdecimal : parseU32 "Invalid repeat step: " (decimal step) = .ok step := by
        rw [← padded_zero]
        exact parseU32_padded hstep _ 0
      rw [if_neg hempty, if_neg hstar, hstrip]
      exact bind_eq_ok.mpr ⟨step, hdecimal, if_neg hpos⟩
  · obtain ⟨values, hvalues, h⟩ := bind_eq_ok.mp h
    split at h
    · cases h
    · rename_i hne
      obtain rfl := Except.ok.inj h
      obtain ⟨c, cs, htext, hdigit⟩ := formatComponent_list hne width
      have hc : c ≠ '*' := by
        rintro rfl
        cases hdigit
      have hstrip :
          stripPrefix "*/".toList (formatComponentPadded width (.list values)) = none := by
        refine Option.eq_none_iff_forall_not_mem.mpr fun rest hrest => hc ?_
        rw [htext] at hrest
        exact (List.cons.inj (stripPrefix_eq_some_iff.mp hrest)).1
      have hempty : formatComponentPadded width (.list values) ≠ [] := by
        rw [htext]
        exact List.cons_ne_nil c cs
      have hstar : formatComponentPadded width (.list values) ≠ ['*'] := by
        rw [htext]
        exact fun heq => hc (List.cons.inj heq).1
      have hparsed : ∀ v ∈ values, parseSingleValue (formatValueWith (padded width) v) = .ok v := by
        intro v hv
        obtain ⟨part, -, hpart⟩ := mem_of_mapM_eq_ok hvalues v hv
        exact parseSingleValue_format hpart width
      rw [if_neg hempty, if_neg hstar, hstrip]
      refine bind_eq_ok.mpr ⟨values, ?_, if_neg hne⟩
      rw [commaParts_format hne]
      exact mapM_map_eq_ok hparsed

/-! ## Weekdays -/

theorem parseWeekdayName_weekdayName : ∀ d < 7, parseWeekdayName (weekdayName d) = some d := by
  decide

/-- The names of the days have letters only. -/
theorem weekdayName_chars : ∀ d < 7, weekdayName d ≠ [] ∧
    ∀ c ∈ weekdayName d, c.isAlpha = true ∧ isWhitespace c = false := by
  have hall : ∀ d < 7, weekdayName d ≠ [] ∧
      (weekdayName d).all (fun c => c.isAlpha && !isWhitespace c) = true := by decide
  intro d hd
  refine ⟨(hall d hd).1, fun c hc => ?_⟩
  simpa using List.all_eq_true.mp (hall d hd).2 c hc

theorem trim_weekdayName {d : ℕ} (hd : d < 7) : trim (weekdayName d) = weekdayName d :=
  trim_of_no_whitespace fun c hc => ((weekdayName_chars d hd).2 c hc).2

theorem notMem_weekdayName {d : ℕ} (hd : d < 7) {c : Char} (hc : c.isAlpha = false) :
    c ∉ weekdayName d := by
  intro hmem
  rw [((weekdayName_chars d hd).2 c hmem).1] at hc
  cases hc

/-- A range of weekdays that was parsed. -/
def WeekdayRange.Valid (r : WeekdayRange) : Prop := r.start < 7 ∧ r.stop < 7

theorem parseWeekdayName_lt {s : List Char} {d : ℕ} (h : parseWeekdayName s = some d) : d < 7 := by
  obtain ⟨hlt, -⟩ := List.findIdx?_eq_some_iff_getElem.mp h
  exact hlt

theorem parseWeekdayRange_valid {part : List Char} {r : WeekdayRange}
    (h : parseWeekdayRange part = .ok r) : r.Valid := by
  unfold parseWeekdayRange at h
  split at h
  · obtain ⟨start, hstart, h⟩ := bind_eq_ok.mp h
    obtain ⟨stop, hstop, h⟩ := bind_eq_ok.mp h
    obtain rfl := Except.ok.inj h
    exact ⟨parseWeekdayName_lt (okOr_eq_ok.mp hstart), parseWeekdayName_lt (okOr_eq_ok.mp hstop)⟩
  · obtain ⟨d, hd, h⟩ := bind_eq_ok.mp h
    obtain rfl := Except.ok.inj h
    exact ⟨parseWeekdayName_lt (okOr_eq_ok.mp hd), parseWeekdayName_lt (okOr_eq_ok.mp hd)⟩

theorem formatWeekdayRange_chars {r : WeekdayRange} (hr : r.Valid) : formatWeekdayRange r ≠ [] ∧
    ∀ c ∈ formatWeekdayRange r, (c.isAlpha = true ∨ c = '.') ∧ isWhitespace c = false := by
  obtain ⟨hstart, hstop⟩ := hr
  obtain ⟨hne, hchars⟩ := weekdayName_chars r.start hstart
  have hdots : ∀ c ∈ "..".toList, (c.isAlpha = true ∨ c = '.') ∧ isWhitespace c = false := by
    intro c hc
    have hdot : c = '.' := by simpa using hc
    subst hdot
    decide
  rw [formatWeekdayRange]
  split
  · exact ⟨hne, fun c hc => ⟨.inl (hchars c hc).1, (hchars c hc).2⟩⟩
  · refine ⟨by simp [hne], fun c hc => ?_⟩
    rcases List.mem_append.mp hc with hc | hc
    · rcases List.mem_append.mp hc with hc | hc
      · exact ⟨.inl (hchars c hc).1, (hchars c hc).2⟩
      · exact hdots c hc
    · have hc := (weekdayName_chars r.stop hstop).2 c hc
      exact ⟨.inl hc.1, hc.2⟩

/-- A range of weekdays is printed and parsed back. -/
theorem parseWeekdayRange_format {r : WeekdayRange} (hr : r.Valid) :
    parseWeekdayRange (formatWeekdayRange r) = .ok r := by
  obtain ⟨hstart, hstop⟩ := hr
  have hparse : ∀ d < 7, ∀ e : List Char, okOr e (parseWeekdayName (weekdayName d)) = .ok d :=
    fun d hd e => okOr_eq_ok.mpr (parseWeekdayName_weekdayName d hd)
  rw [formatWeekdayRange]
  split
  · rename_i heq
    have hcut : splitOnce "..".toList (weekdayName r.start) = none :=
      splitOnce_of_notMem (notMem_weekdayName hstart (by decide)) ['.']
    rw [parseWeekdayRange, hcut]
    refine bind_eq_ok.mpr ⟨r.start, hparse _ hstart _, ?_⟩
    exact congrArg (fun stop => Except.ok (WeekdayRange.mk r.start stop)) heq
  · have hcut : splitOnce "..".toList (weekdayName r.start ++ "..".toList ++ weekdayName r.stop) =
        some (weekdayName r.start, weekdayName r.stop) :=
      splitOnce_append (notMem_weekdayName hstart (by decide)) ['.'] _
    rw [parseWeekdayRange, hcut]
    dsimp only
    rw [trim_weekdayName hstart, trim_weekdayName hstop]
    refine bind_eq_ok.mpr ⟨r.start, hparse _ hstart _, ?_⟩
    exact bind_eq_ok.mpr ⟨r.stop, hparse _ hstop _, rfl⟩

/-- Weekdays are printed and parsed back. -/
theorem parseWeekdays_format {ranges : List WeekdayRange} (hne : ranges ≠ [])
    (hranges : ∀ r ∈ ranges, r.Valid) : parseWeekdays (formatWeekdays ranges) = .ok ranges := by
  have hparts : commaParts (formatWeekdays ranges) = ranges.map formatWeekdayRange := by
    refine commaParts_intercalate (by simpa using hne) fun piece hpiece => ?_
    obtain ⟨r, hr, rfl⟩ := List.mem_map.mp hpiece
    obtain ⟨hnil, hchars⟩ := formatWeekdayRange_chars (hranges r hr)
    refine ⟨hnil, fun hcomma => ?_, trim_of_no_whitespace fun c hc => (hchars c hc).2⟩
    have hnot : ¬ (','.isAlpha = true ∨ ',' = '.') := by decide
    exact hnot (hchars ',' hcomma).1
  rw [parseWeekdays, hparts]
  refine bind_eq_ok.mpr ⟨ranges, mapM_map_eq_ok fun r hr => ?_, if_neg hne⟩
  exact parseWeekdayRange_format (hranges r hr)

theorem looksLikeWeekday_format {ranges : List WeekdayRange} (hne : ranges ≠ [])
    (hranges : ∀ r ∈ ranges, r.Valid) : looksLikeWeekday (formatWeekdays ranges) = true := by
  have hname : ∀ d < 7, (parseWeekdayName (trim (weekdayName d))).isSome = true := by
    intro d hd
    rw [trim_weekdayName hd, parseWeekdayName_weekdayName d hd]
    rfl
  rw [looksLikeWeekday, formatWeekdays, List.splitOn_intercalate]
  · rw [List.all_map, List.all_eq_true]
    intro r hr
    obtain ⟨hstart, hstop⟩ := hranges r hr
    obtain ⟨hnil, hchars⟩ := formatWeekdayRange_chars (hranges r hr)
    have htrim := trim_of_no_whitespace fun c hc => (hchars c hc).2
    simp only [Function.comp_apply, htrim, Bool.and_eq_true, List.all_eq_true]
    refine ⟨by simpa using hnil, ?_⟩
    rw [formatWeekdayRange]
    split
    · have hcut : splitStr "..".toList (weekdayName r.start) = [weekdayName r.start] :=
        splitStr_of_notMem (notMem_weekdayName hstart (by decide)) ['.']
      rw [hcut]
      simpa using hname _ hstart
    · have hcut : splitStr "..".toList (weekdayName r.start ++ "..".toList ++ weekdayName r.stop) =
          [weekdayName r.start, weekdayName r.stop] :=
        splitStr_append (notMem_weekdayName hstart (by decide))
          (notMem_weekdayName hstop (by decide)) ['.']
      rw [hcut]
      simpa using ⟨hname _ hstart, hname _ hstop⟩
  · intro piece hpiece hcomma
    obtain ⟨r, hr, rfl⟩ := List.mem_map.mp hpiece
    have hnot : ¬ (','.isAlpha = true ∨ ',' = '.') := by decide
    exact hnot ((formatWeekdayRange_chars (hranges r hr)).2 ',' hcomma).1
  · simpa using hne

/-- A text with a minus sign is not taken for weekdays. -/
theorem looksLikeWeekday_of_minus {s : List Char} (h : '-' ∈ s) : looksLikeWeekday s = false := by
  rw [Bool.eq_false_iff]
  intro hlooks
  rw [looksLikeWeekday, List.all_eq_true] at hlooks
  obtain ⟨part, hpart, hmem⟩ := exists_piece_splitOn h (by decide : '-' ≠ ',')
  have hpart := hlooks part hpart
  rw [Bool.and_eq_true, List.all_eq_true] at hpart
  obtain ⟨atom, hatom, hmem⟩ := exists_piece_splitStr (mem_trim hmem (by decide))
    (by decide : '-' ∉ "..".toList)
  obtain ⟨d, hd⟩ := Option.isSome_iff_exists.mp (hpart.2 atom hatom)
  obtain ⟨hlt, hname, -⟩ := List.findIdx?_eq_some_iff_getElem.mp hd
  -- a small letter is no minus sign, and the names have letters only
  have hlower : '-' ∈ toLowercase (trim atom) :=
    List.mem_map.mpr ⟨'-', mem_trim hmem (by decide), by decide⟩
  have hnames : ∀ names ∈ weekdayNames, '-' ∉ names.1.toList ∧ '-' ∉ names.2.toList := by decide
  have hnot := hnames _ (List.getElem_mem hlt)
  simp only [Bool.or_eq_true, decide_eq_true_eq] at hname
  rcases hname with hname | hname
  · rw [hname] at hlower
    exact hnot.1 hlower
  · rw [hname] at hlower
    exact hnot.2 hlower

end OxidizedSystemd.Calendar
