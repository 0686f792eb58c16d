import OxidizedSystemd.Lib.F64
import OxidizedSystemd.Lib.Text
import OxidizedSystemd.Timers.Scheduler

/-!
# Time spans

Models of `parse_timespan` (`from_parsed_config.rs`, lines 592–675) and of the settings that are
read with it: those of a timer (lines 453–520), the trigger limit of a path (lines 566–572) and
the time-outs and rate limits that `parse_timeout` reads (`service_unit.rs`, lines 324–335).

A number is as exact as its spelling, and `round` is what an `f64` makes of it. The models are
`none` where the source panics: in `Duration::from_secs_f64`, and in a sum that does not fit into
a `u64`.

* `readComponent_length`: a component takes up characters, so the scanning loop ends.
* `sumComponents_isSome`: the sum fits exactly if that of the components does.
* `timespans_return_iff`: exactly when the settings do not panic.
-/

namespace OxidizedSystemd.Timers

open OxidizedSystemd.Lib

/-! ## Components -/

/-- The units with their microseconds (lines 650–661). -/
def timeUnits : List (List String × ℕ) :=
  [(["us", "usec", "µs"], 1),
    (["ms", "msec"], 1000),
    (["", "s", "sec", "second", "seconds", "secs"], 1000000),
    (["min", "minute", "minutes", "m"], 60 * 1000000),
    (["h", "hr", "hrs", "hour", "hours"], 3600 * 1000000),
    (["d", "day", "days"], 86400 * 1000000),
    (["w", "week", "weeks"], 7 * 86400 * 1000000),
    (["M", "month", "months"], 2629800 * 1000000),
    (["y", "year", "years"], 31557600 * 1000000)]

/-- `multiplier_us`. -/
def multiplierUs (unit : Text) : Option ℕ :=
  (timeUnits.find? fun entry => entry.1.any fun name => name.toList = unit).map Prod.snd

def isNumberChar (c : Char) : Bool := c.isDigit || c = '.'

def isUnitChar (c : Char) : Bool := c.isAlpha || c = 'µ'

/-- The number and the unit in front of a text (lines 617–664): its microseconds and what is behind
    it. It is `none` where the source returns `None`. -/
def readComponent (round : ℚ → F64) (cs : Text) : Option (ℕ × Text) :=
  let numStr := cs.takeWhile isNumberChar
  let cs := cs.dropWhile isNumberChar
  if numStr = [] then none
  else do
    let num ← parseF64 round numStr
    let cs := cs.dropWhile (· = ' ')
    let multiplier ← multiplierUs (cs.takeWhile isUnitChar)
    some ((num.mulNat round multiplier).asU64, cs.dropWhile isUnitChar)

theorem length_dropWhile_le (p : Char → Bool) (cs : Text) :
    (cs.dropWhile p).length ≤ cs.length :=
  (List.dropWhile_sublist p).length_le

/-- A component has a digit or a point. -/
theorem readComponent_length {round : ℚ → F64} {cs rest : Text} {us : ℕ}
    (h : readComponent round cs = some (us, rest)) : rest.length < cs.length := by
  unfold readComponent at h
  dsimp only at h
  split at h
  · cases h
  · rename_i hnumber
    obtain ⟨num, -, h⟩ := Option.bind_eq_some_iff.mp h
    obtain ⟨multiplier, -, h⟩ := Option.bind_eq_some_iff.mp h
    obtain rfl := (Prod.mk.inj (Option.some.inj h)).2
    have hpos := List.length_pos_iff.mpr hnumber
    have hsplit : (cs.takeWhile isNumberChar).length + (cs.dropWhile isNumberChar).length =
        cs.length := by
      rw [← List.length_append, List.takeWhile_append_dropWhile]
    have hspaces := length_dropWhile_le (· = ' ') (cs.dropWhile isNumberChar)
    have hunit := length_dropWhile_le isUnitChar ((cs.dropWhile isNumberChar).dropWhile (· = ' '))
    omega

/-- The scanning loop (lines 608–665), with `total_us` so far. -/
def sumComponents (round : ℚ → F64) (totalUs : ℕ) (cs : Text) : Option (Option ℕ) :=
  if cs.dropWhile (· = ' ') = [] then some (some totalUs)
  else
    match h : readComponent round (cs.dropWhile (· = ' ')) with
    | none => some none
    | some (us, rest) =>
      if totalUs + us < 2 ^ 64 then sumComponents round (totalUs + us) rest else none
termination_by cs.length
decreasing_by
  exact (readComponent_length h).trans_le (length_dropWhile_le _ _)

/-- `parse_timespan` (lines 597–675), in nanoseconds. -/
def parseTimespan (round : ℚ → F64) (input : Text) : Option (Option ℕ) :=
  let input := trim input
  if input = [] then some none
  else
    match parseF64 round input with
    | some secs => if secs.nonneg then (durationFromSecs secs).map some else some none
    | none => (sumComponents round 0 input).map fun totalUs => totalUs.map (1000 * ·)

/-! ## Settings -/

/-- `filter_map(|s| parse_timespan(s)).collect()`. -/
def parseTimespans (round : ℚ → F64) (values : List Text) : Option (List ℕ) :=
  (values.mapM (parseTimespan round)).map fun spans => spans.filterMap id

/-- `as_deref().and_then(parse_timespan).unwrap_or(default)`. -/
def parseTimespanOr (round : ℚ → F64) (value : Option Text) (default : ℕ) : Option ℕ :=
  match value with
  | none => some default
  | some value => (parseTimespan round value).map fun span => span.getD default

/-- `ParsedTimerSection`. -/
structure ParsedTimerSection where
  onActiveSec : List Text := []
  onBootSec : List Text := []
  onStartupSec : List Text := []
  onUnitActiveSec : List Text := []
  onUnitInactiveSec : List Text := []
  onCalendar : List Text := []
  accuracySec : Option Text := none
  randomizedDelaySec : Option Text := none
  fixedRandomDelay : Bool := false
  persistent : Bool := false
  wakeSystem : Bool := false
  remainAfterElapse : Bool := true
  deferReactivation : Bool := false
  onClockChange : Bool := false
  onTimezoneChange : Bool := false
  unit : Option Text := none

/-- The settings of a timer that are time spans. -/
def ParsedTimerSection.timespans (timer : ParsedTimerSection) : List Text :=
  timer.onActiveSec ++ timer.onBootSec ++ timer.onStartupSec ++ timer.onUnitActiveSec ++
    timer.onUnitInactiveSec ++ timer.accuracySec.toList ++ timer.randomizedDelaySec.toList

/-- `TimerConfig`, with the two settings that the scheduler does not read. -/
structure WholeTimerConfig extends TimerConfig where
  accuracySec : ℕ
  wakeSystem : Bool

/-- `target_unit` (lines 458–463). -/
def targetUnit (timerName : Text) (timer : ParsedTimerSection) : Text :=
  let base :=
    if ".timer".toList.isSuffixOf timerName then timerName.take (timerName.length - 6)
    else timerName
  timer.unit.getD (base ++ ".service".toList)

/-- The `TimerConfig` of `unit_from_parsed_timer` (lines 453–516). -/
def timerConfFromParsed (round : ℚ → F64) (timerName : Text) (timer : ParsedTimerSection) :
    Option WholeTimerConfig := do
  let onActiveSec ← parseTimespans round timer.onActiveSec
  let onBootSec ← parseTimespans round timer.onBootSec
  let onStartupSec ← parseTimespans round timer.onStartupSec
  let onUnitActiveSec ← parseTimespans round timer.onUnitActiveSec
  let onUnitInactiveSec ← parseTimespans round timer.onUnitInactiveSec
  let accuracySec ← parseTimespanOr round timer.accuracySec 60000000000
  let randomizedDelaySec ← parseTimespanOr round timer.randomizedDelaySec 0
  some {
    onActiveSec, onBootSec, onStartupSec, onUnitActiveSec, onUnitInactiveSec,
    onCalendar := timer.onCalendar, accuracySec, randomizedDelaySec,
    fixedRandomDelay := timer.fixedRandomDelay, persistent := timer.persistent,
    wakeSystem := timer.wakeSystem, remainAfterElapse := timer.remainAfterElapse,
    deferReactivation := timer.deferReactivation, onClockChange := timer.onClockChange,
    onTimezoneChange := timer.onTimezoneChange, unit := targetUnit timerName timer }

/-- `trigger_limit_interval_sec` of `unit_from_parsed_path` (lines 566–572). -/
def triggerLimitIntervalSec (round : ℚ → F64) (value : Option Text) : Option ℕ :=
  parseTimespanOr round value 2000000000

/-- `Timeout`. -/
inductive Timeout
  | infinity
  | duration (d : ℕ)
  deriving DecidableEq

/-- `descr.trim().eq_ignore_ascii_case("infinity")`. -/
def IsInfinity (descr : Text) : Prop := (trim descr).map Char.toLower = "infinity".toList

instance (descr : Text) : Decidable (IsInfinity descr) :=
  inferInstanceAs (Decidable ((trim descr).map Char.toLower = "infinity".toList))

/-- `parse_timeout`. -/
def parseTimeout (round : ℚ → F64) (descr : Text) : Option Timeout :=
  if IsInfinity descr then some .infinity
  else
    match fromStrRadix 10 (2 ^ 64 - 1) (trim descr) with
    | some secs => some (.duration (secs * 1000000000))
    | none => (parseTimespan round descr).map fun span => .duration (span.getD 0)

/-! ## What is in range -/

/-- The microseconds of the components of a text, up to the first one that is malformed. -/
def components (round : ℚ → F64) (cs : Text) : List ℕ :=
  match _h : readComponent round (cs.dropWhile (· = ' ')) with
  | none => []
  | some (us, rest) => us :: components round rest
termination_by cs.length
decreasing_by
  exact (readComponent_length _h).trans_le (length_dropWhile_le _ _)

/-- A time span that a `Duration` and a `u64` can hold. -/
def InRange (round : ℚ → F64) (input : Text) : Prop :=
  match parseF64 round (trim input) with
  | some secs => secs.nonneg = true → secs.IsSeconds
  | none => (components round (trim input)).sum < 2 ^ 64

variable {round : ℚ → F64}

theorem components_of_malformed {cs : Text}
    (h : readComponent round (cs.dropWhile (· = ' ')) = none) : components round cs = [] := by
  rw [components]
  split
  · rfl
  · rename_i h'
    rw [h] at h'
    cases h'

theorem components_of_component {cs rest : Text} {us : ℕ}
    (h : readComponent round (cs.dropWhile (· = ' ')) = some (us, rest)) :
    components round cs = us :: components round rest := by
  rw [components]
  split
  · rename_i h'
    rw [h] at h'
    cases h'
  · rename_i h'
    rw [h] at h'
    obtain ⟨rfl, rfl⟩ := Prod.mk.inj (Option.some.inj h')
    rfl

/-- The sum of the loop fits exactly if that of the components does. -/
theorem sumComponents_isSome {totalUs : ℕ} (htotal : totalUs < 2 ^ 64) (cs : Text) :
    (sumComponents round totalUs cs).isSome ↔ totalUs + (components round cs).sum < 2 ^ 64 := by
  induction totalUs, cs using sumComponents.induct round with
  | case1 totalUs cs hend =>
    have hmalformed : readComponent round (cs.dropWhile (· = ' ')) = none := by
      rw [hend]
      rfl
    rw [sumComponents, if_pos hend, components_of_malformed hmalformed]
    exact ⟨fun _ => htotal, fun _ => rfl⟩
  | case2 totalUs cs hend hmalformed =>
    rw [sumComponents, if_neg hend, components_of_malformed hmalformed]
    split
    · exact ⟨fun _ => htotal, fun _ => rfl⟩
    · rename_i h'
      rw [hmalformed] at h'
      cases h'
  | case3 totalUs cs hend us rest hread hfits ih =>
    rw [sumComponents, if_neg hend, components_of_component hread, List.sum_cons, ← add_assoc,
      ← ih hfits]
    split
    · rename_i h'
      rw [hread] at h'
      cases h'
    · rename_i h'
      rw [hread] at h'
      obtain ⟨rfl, rfl⟩ := Prod.mk.inj (Option.some.inj h')
      rw [if_pos hfits]
  | case4 totalUs cs hend us rest hread hover =>
    rw [sumComponents, if_neg hend, components_of_component hread, List.sum_cons, ← add_assoc]
    split
    · rename_i h'
      rw [hread] at h'
      cases h'
    · rename_i h'
      rw [hread] at h'
      obtain ⟨rfl, rfl⟩ := Prod.mk.inj (Option.some.inj h')
      rw [if_neg hover]
      exact ⟨fun h => absurd h Bool.false_ne_true, fun h => by omega⟩

/-- A time span is read without a panic exactly if it is in range. -/
theorem parseTimespan_isSome (round : ℚ → F64) (input : Text) :
    (parseTimespan round input).isSome ↔ InRange round input := by
  rw [parseTimespan, InRange]
  by_cases hempty : trim input = []
  · have hnumber : parseF64 round [] = none := rfl
    have hnone : components round [] = [] := components_of_malformed rfl
    rw [hempty, if_pos rfl, hnumber]
    dsimp only
    rw [hnone]
    exact ⟨fun _ => by decide, fun _ => rfl⟩
  · rw [if_neg hempty]
    cases parseF64 round (trim input) with
    | some secs =>
      dsimp only
      cases hsign : secs.nonneg with
      | true =>
        rw [if_pos rfl, Option.isSome_map, durationFromSecs_isSome]
        exact ⟨fun h _ => h, fun h => h rfl⟩
      | false => simp
    | none =>
      dsimp only
      rw [Option.isSome_map, sumComponents_isSome (by decide), zero_add]

/-! ## Settings in range -/

theorem isSome_mapM {α β : Type} {f : α → Option β} {l : List α} :
    (l.mapM f).isSome ↔ ∀ a ∈ l, (f a).isSome := by
  induction l with
  | nil => simp
  | cons a l ih =>
    rw [List.mapM_cons, List.forall_mem_cons, ← ih]
    cases f a with
    | none => simp
    | some b => cases l.mapM f <;> simp

theorem parseTimespans_isSome (round : ℚ → F64) (values : List Text) :
    (parseTimespans round values).isSome ↔ ∀ value ∈ values, InRange round value := by
  rw [parseTimespans, Option.isSome_map, isSome_mapM]
  exact forall₂_congr fun value _ => parseTimespan_isSome round value

theorem parseTimespanOr_isSome (round : ℚ → F64) (value : Option Text) (default : ℕ) :
    (parseTimespanOr round value default).isSome ↔ ∀ v ∈ value.toList, InRange round v := by
  cases value with
  | none => simp [parseTimespanOr]
  | some value =>
    rw [parseTimespanOr, Option.isSome_map, parseTimespan_isSome]
    simp

theorem isSome_bind {α β : Type} {x : Option α} {f : α → Option β} {p q : Prop}
    (hx : x.isSome ↔ p) (hf : ∀ a, (f a).isSome ↔ q) : (x >>= f).isSome ↔ p ∧ q := by
  cases x with
  | none => simp [← hx]
  | some a => simp [← hx, ← hf a]

theorem timerConfFromParsed_isSome (round : ℚ → F64) (timerName : Text)
    (timer : ParsedTimerSection) : (timerConfFromParsed round timerName timer).isSome ↔
      ∀ value ∈ timer.timespans, InRange round value := by
  have hlist := parseTimespans_isSome round
  have hone := parseTimespanOr_isSome round
  simp only [ParsedTimerSection.timespans, List.forall_mem_append, and_assoc]
  unfold timerConfFromParsed
  refine isSome_bind (hlist _) fun _ => isSome_bind (hlist _) fun _ =>
    isSome_bind (hlist _) fun _ => isSome_bind (hlist _) fun _ => isSome_bind (hlist _) fun _ =>
    isSome_bind (hone _ _) fun _ => ?_
  rw [isSome_bind (q := True) (hone _ _) fun _ => by simp]
  simp

theorem parseTimeout_isSome (round : ℚ → F64) (descr : Text) :
    (parseTimeout round descr).isSome ↔ IsInfinity descr ∨
      (fromStrRadix 10 (2 ^ 64 - 1) (trim descr)).isSome ∨ InRange round descr := by
  rw [parseTimeout]
  split
  · rename_i h
    exact ⟨fun _ => .inl h, fun _ => rfl⟩
  · rename_i h
    cases fromStrRadix 10 (2 ^ 64 - 1) (trim descr) with
    | some secs => simp
    | none =>
      dsimp only
      rw [Option.isSome_map, parseTimespan_isSome]
      simp [h]

/-- Time spans, timers, trigger limits and time-outs are read without a panic exactly if the time
    spans are in range. -/
theorem timespans_return_iff (round : ℚ → F64) :
    (∀ input, (parseTimespan round input).isSome ↔ InRange round input) ∧
    (∀ timerName timer, (timerConfFromParsed round timerName timer).isSome ↔
      ∀ value ∈ timer.timespans, InRange round value) ∧
    (∀ value, (triggerLimitIntervalSec round value).isSome ↔
      ∀ v ∈ value.toList, InRange round v) ∧
    ∀ descr, (parseTimeout round descr).isSome ↔ IsInfinity descr ∨
      (fromStrRadix 10 (2 ^ 64 - 1) (trim descr)).isSome ∨ InRange round descr :=
  ⟨parseTimespan_isSome round, timerConfFromParsed_isSome round,
    fun value => parseTimespanOr_isSome round value _, parseTimeout_isSome round⟩

/-- `OnBootSec=infinity` panics in `from_secs_f64`, and a sum overflows behind a component that is
    as large as a `u64` gets. -/
theorem infinite_timer_panics :
    timerConfFromParsed .finite "a.timer".toList { onBootSec := ["infinity".toList] } = none ∧
      parseTimespan .finite "600000y 1s".toList = none := by
  refine ⟨rfl, ?_⟩
  have hnumber (n us : ℕ) :
      ((F64.finite ((n : ℚ) * 10 ^ (0 - (0 : ℕ) : ℤ))).mulNat .finite us).asU64 =
        min (n * us) (2 ^ 64 - 1) := by
    have hone : (10 : ℚ) ^ (0 - (0 : ℕ) : ℤ) = 1 := by simp
    rw [hone, mul_one, F64.mulNat, F64.asU64, ← Nat.cast_mul, Int.floor_natCast, Int.toNat_natCast]
  have hyears : readComponent .finite "600000y 1s".toList = some (2 ^ 64 - 1, " 1s".toList) := by
    have h := hnumber 600000 (31557600 * 1000000)
    show some (((F64.finite (((600000 : ℕ) : ℚ) * 10 ^ (0 - (0 : ℕ) : ℤ))).mulNat .finite
      (31557600 * 1000000)).asU64, " 1s".toList) = _
    rw [h]
    rfl
  have hsecond : readComponent .finite "1s".toList = some (1000000, []) := by
    have h := hnumber 1 1000000
    show some (((F64.finite (((1 : ℕ) : ℚ) * 10 ^ (0 - (0 : ℕ) : ℤ))).mulNat .finite
      1000000).asU64, []) = _
    rw [h]
    rfl
  have hsum : (components .finite "600000y 1s".toList).sum = 2 ^ 64 - 1 + 1000000 := by
    rw [components_of_component hyears, components_of_component hsecond,
      components_of_malformed rfl]
    rfl
  rw [← Option.not_isSome_iff_eq_none, parseTimespan_isSome]
  show ¬ (components .finite "600000y 1s".toList).sum < 2 ^ 64
  omega

end OxidizedSystemd.Timers
