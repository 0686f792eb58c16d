import OxidizedSystemd.Lib.Search

/-!
# Calendar components

Model of the components of a calendar expression and of the values that match them
(`calendar_spec.rs`, lines 57–81 and 745–932). The numbers are `u32` in the source,
and natural numbers here: no addition overflows.

* `componentMatches`: whether a value matches.
* `mem_matchingValuesFrom`: the values that are enumerated are those that match.
* `mem_resolveFromEndDays`: so are the days that are counted from the end of a month.
-/

namespace OxidizedSystemd.Calendar

open OxidizedSystemd.Lib

/-- `enum CalendarValue` (lines 70–81). -/
inductive CalendarValue
  | exact (e : ℕ)
  | range (a b : ℕ)
  | repeats (start step : ℕ)
  | rangeRepeat (start stop step : ℕ)
  deriving DecidableEq

/-- `enum CalendarComponent` (lines 57–68). -/
inductive CalendarComponent
  | wildcard
  | wildcardRepeat (step : ℕ)
  | list (values : List CalendarValue)
  deriving DecidableEq

/-- `value_matches` (lines 758–777). -/
def valueMatches : CalendarValue → ℕ → Bool
  | .exact e, v => v = e
  | .range a b, v => a ≤ v && v ≤ b
  | .repeats start step, v => if v < start then false else step ∣ v - start
  | .rangeRepeat start stop step, v =>
    if v < start || stop < v then false else step ∣ v - start

/-- `component_matches` (lines 750–756). -/
def componentMatches : CalendarComponent → ℕ → Bool
  | .wildcard, _ => true
  | .wildcardRepeat step, v => step ∣ v
  | .list values, v => values.any (valueMatches · v)

/-! ## Enumeration -/

/-- `while v <= max { push v; v += step }`, of which at most `fuel` rounds are made. -/
def stepWhile (step max : ℕ) : ℕ → ℕ → List ℕ
  | 0, _ => []
  | fuel + 1, v => if v ≤ max then v :: stepWhile step max fuel (v + step) else []

/-- `for v in from..=max`. -/
def valuesBetween (start stop : ℕ) : List ℕ := List.range' start (stop + 1 - start)

/-- The first value of a repetition that is not below `start` (lines 907–912 and 920–925). -/
def advance (v step start : ℕ) : ℕ :=
  if v < start then v + (start - v + step - 1) / step * step else v

/-- `collect_matching_values` (lines 891–932): what is pushed. -/
def collectMatchingValues (start max : ℕ) : CalendarValue → List ℕ
  | .exact e => if start ≤ e ∧ e ≤ max then [e] else []
  | .range a b => valuesBetween (Nat.max a start) (Nat.min b max)
  | .repeats v step => stepWhile step max (max + 1) (advance v step start)
  | .rangeRepeat v stop step =>
    stepWhile step (Nat.min stop max) (max + 1) (advance v step start)

/-- `matching_values_from` (lines 853–889). -/
def matchingValuesFrom (comp : CalendarComponent) (start max : ℕ) : List ℕ :=
  match comp with
  | .wildcard => valuesBetween start max
  | .wildcardRepeat step =>
    let first :=
      if start = 0 then 0
      else
        let remainder := start % step
        if remainder = 0 then start else start + (step - remainder)
    stepWhile step max (max + 1) first
  | .list values => sortDedup (values.flatMap (collectMatchingValues start max))

/-- A day counted from the end, as a day of the month (lines 787–793). -/
def absDay (maxDay n : ℕ) : Option ℕ := if 1 ≤ n ∧ n ≤ maxDay then some (maxDay - n + 1) else none

/-- The days that a value of a list gives in a month (lines 803–843). -/
def fromEndDays (maxDay : ℕ) : CalendarValue → List ℕ
  | .exact n => (absDay maxDay n).toList
  | .range a b =>
    match absDay maxDay a, absDay maxDay b with
    | some da, some db => valuesBetween (min da db) (max da db)
    | _, _ => []
  | .repeats start step =>
    match absDay maxDay start with
    | some d => stepWhile step maxDay (maxDay + 1) d
    | none => []
  | .rangeRepeat a b step =>
    match absDay maxDay a, absDay maxDay b with
    | some da, some db => stepWhile step (max da db) (maxDay + 1) (min da db)
    | _, _ => []

/-- `resolve_from_end_days` (lines 785–851). -/
def resolveFromEndDays (comp : CalendarComponent) (start maxDay : ℕ) : List ℕ :=
  match comp with
  | .list values => sortDedup ((values.flatMap (fromEndDays maxDay)).filter (start ≤ ·))
  | comp => matchingValuesFrom comp start maxDay

/-! ## Loops -/

theorem mem_stepWhile {step max fuel v x : ℕ} (hstep : 0 < step) (hfuel : max < v + fuel) :
    x ∈ stepWhile step max fuel v ↔ v ≤ x ∧ x ≤ max ∧ step ∣ x - v := by
  induction fuel generalizing v with
  | zero =>
    have hnil : x ∉ stepWhile step max 0 v := List.not_mem_nil
    exact ⟨fun h => absurd h hnil, fun h => by omega⟩
  | succ fuel ih =>
    rw [stepWhile]
    split
    · rename_i hv
      rw [List.mem_cons, ih (by omega)]
      constructor
      · rintro (rfl | ⟨hle, hmax, hdvd⟩)
        · exact ⟨le_refl x, hv, by rw [Nat.sub_self]; exact Nat.dvd_zero step⟩
        · refine ⟨by omega, hmax, ?_⟩
          have hsub : x - v = x - (v + step) + step := by omega
          rw [hsub]
          exact Nat.dvd_add hdvd (Nat.dvd_refl step)
      · rintro ⟨hle, hmax, hdvd⟩
        by_cases heq : x = v
        · exact .inl heq
        · have hle' : step ≤ x - v := Nat.le_of_dvd (by omega) hdvd
          refine .inr ⟨by omega, hmax, ?_⟩
          rw [Nat.sub_add_eq]
          exact Nat.dvd_sub hdvd (Nat.dvd_refl step)
    · rename_i hv
      exact ⟨fun h => absurd h List.not_mem_nil, fun h => absurd (h.1.trans h.2.1) hv⟩

theorem pairwise_stepWhile {step : ℕ} (hstep : 0 < step) (max fuel v : ℕ) :
    (stepWhile step max fuel v).Pairwise (· < ·) := by
  have hge : ∀ fuel v, ∀ x ∈ stepWhile step max fuel v, v ≤ x := by
    intro fuel
    induction fuel with
    | zero => exact fun v x hx => absurd hx List.not_mem_nil
    | succ fuel ih =>
      intro v x hx
      rw [stepWhile] at hx
      split at hx
      · rcases List.mem_cons.mp hx with rfl | hx
        · exact le_refl x
        · exact (Nat.le_add_right v step).trans (ih (v + step) x hx)
      · exact absurd hx List.not_mem_nil
  induction fuel generalizing v with
  | zero => exact List.Pairwise.nil
  | succ fuel ih =>
    rw [stepWhile]
    split
    · refine List.pairwise_cons.mpr ⟨fun x hx => ?_, ih (v + step)⟩
      have := hge fuel (v + step) x hx
      omega
    · exact List.Pairwise.nil

@[simp] theorem mem_valuesBetween {start stop x : ℕ} :
    x ∈ valuesBetween start stop ↔ start ≤ x ∧ x ≤ stop := by
  rw [valuesBetween, List.mem_range'_1]
  omega

theorem pairwise_valuesBetween (start stop : ℕ) :
    (valuesBetween start stop).Pairwise (· < ·) :=
  List.pairwise_lt_range'

/-- The values of a progression from its first one that is not below `start`. -/
theorem progression_iff {v step start first x : ℕ} (hfirst : ∃ k, first = v + k * step)
    (hstart : start ≤ first) (hleast : ∀ j, start ≤ v + j * step → first ≤ v + j * step) :
    first ≤ x ∧ step ∣ x - first ↔ start ≤ x ∧ v ≤ x ∧ step ∣ x - v := by
  obtain ⟨k, rfl⟩ := hfirst
  constructor
  · rintro ⟨hle, j, hj⟩
    refine ⟨by omega, by omega, j + k, ?_⟩
    have hexpand : step * (j + k) = step * j + k * step := by
      rw [Nat.mul_add, Nat.mul_comm step k]
    omega
  · rintro ⟨hle, hv, j, hj⟩
    have hx : x = v + j * step := by rw [Nat.mul_comm] at hj; omega
    have hkx := hleast j (hx ▸ hle)
    rw [← hx] at hkx
    refine ⟨hkx, ?_⟩
    have hsub : x - (v + k * step) = step * j - step * k := by
      rw [Nat.mul_comm step k, ← hj]
      omega
    rw [hsub]
    exact Nat.dvd_sub (Nat.dvd_mul_right step j) (Nat.dvd_mul_right step k)

/-- The first value that is not below `start`, and the steps to it. -/
theorem advance_spec {v step : ℕ} (hstep : 0 < step) (start : ℕ) :
    ∃ k, advance v step start = v + k * step ∧ start ≤ v + k * step ∧
      (∀ j, start ≤ v + j * step → k ≤ j) ∧ (k = 0 ↔ start ≤ v) := by
  unfold advance
  split
  · rename_i hlt
    have hdiv := Nat.div_mul_le_self (start - v + step - 1) step
    have hmod := Nat.lt_div_mul_add (a := start - v + step - 1) hstep
    refine ⟨(start - v + step - 1) / step, rfl, by omega, fun j hj => ?_, ?_⟩
    · by_contra hgt
      have hmul := Nat.mul_le_mul_right step (Nat.succ_le_of_lt (Nat.not_le.mp hgt))
      rw [Nat.succ_mul] at hmul
      omega
    · rw [Nat.div_eq_zero_iff]
      omega
  · rename_i hge
    refine ⟨0, by rw [Nat.zero_mul, Nat.add_zero], by omega, fun j _ => Nat.zero_le j, by omega⟩

theorem advance_iff {v step start x : ℕ} (hstep : 0 < step) :
    advance v step start ≤ x ∧ step ∣ x - advance v step start ↔
      start ≤ x ∧ v ≤ x ∧ step ∣ x - v := by
  obtain ⟨k, hk, hstart, hleast, -⟩ := advance_spec (v := v) hstep start
  refine progression_iff ⟨k, hk⟩ (hk ▸ hstart) fun j hj => ?_
  rw [hk]
  exact Nat.add_le_add_left (Nat.mul_le_mul_right step (hleast j hj)) v

/-! ## Enumeration -/

/-- What the parser makes sure of: steps are not zero, and ranges do not end before they start. -/
def CalendarValue.WellFormed : CalendarValue → Prop
  | .exact _ => True
  | .range a b => a ≤ b
  | .repeats _ step => 0 < step
  | .rangeRepeat a b step => a ≤ b ∧ 0 < step

def CalendarComponent.WellFormed : CalendarComponent → Prop
  | .wildcard => True
  | .wildcardRepeat step => 0 < step
  | .list values => ∀ v ∈ values, v.WellFormed

@[simp] theorem valueMatches_repeats {v step x : ℕ} :
    valueMatches (.repeats v step) x = true ↔ v ≤ x ∧ step ∣ x - v := by
  rw [valueMatches]
  split
  · rename_i hlt
    exact ⟨fun h => absurd h Bool.false_ne_true, fun h => absurd hlt (Nat.not_lt.mpr h.1)⟩
  · rename_i hge
    rw [decide_eq_true_eq]
    exact (and_iff_right (Nat.not_lt.mp hge)).symm

@[simp] theorem valueMatches_rangeRepeat {v stop step x : ℕ} :
    valueMatches (.rangeRepeat v stop step) x = true ↔ v ≤ x ∧ x ≤ stop ∧ step ∣ x - v := by
  rw [valueMatches]
  simp only [Bool.or_eq_true, decide_eq_true_eq]
  split
  · rename_i hout
    exact ⟨fun h => absurd h Bool.false_ne_true, fun h => by omega⟩
  · rename_i hin
    rw [decide_eq_true_eq]
    exact ⟨fun h => ⟨by omega, by omega, h⟩, fun h => h.2.2⟩

/-- The loop of a repetition, from where it is advanced to. -/
theorem mem_stepWhile_advance {v step start bound max x : ℕ} (hstep : 0 < step)
    (hbound : bound ≤ max) : x ∈ stepWhile step bound (max + 1) (advance v step start) ↔
      start ≤ x ∧ x ≤ bound ∧ v ≤ x ∧ step ∣ x - v := by
  rw [mem_stepWhile hstep (by omega), and_left_comm, advance_iff hstep, and_left_comm]

theorem mem_collectMatchingValues {val : CalendarValue} (hval : val.WellFormed) {start max x : ℕ} :
    x ∈ collectMatchingValues start max val ↔ start ≤ x ∧ x ≤ max ∧ valueMatches val x = true := by
  cases val with
  | exact e =>
    rw [collectMatchingValues, valueMatches, decide_eq_true_eq]
    split
    · rename_i he
      rw [List.mem_singleton]
      constructor
      · rintro rfl
        exact ⟨he.1, he.2, rfl⟩
      · exact fun h => h.2.2
    · rename_i he
      refine ⟨fun h => absurd h List.not_mem_nil, ?_⟩
      rintro ⟨h1, h2, rfl⟩
      exact absurd ⟨h1, h2⟩ he
  | range a b =>
    simp only [collectMatchingValues, valueMatches, mem_valuesBetween, Nat.max_le, Nat.le_min,
      Bool.and_eq_true, decide_eq_true_eq]
    omega
  | repeats v step =>
    rw [collectMatchingValues, mem_stepWhile_advance hval (le_refl max), valueMatches_repeats]
  | rangeRepeat v stop step =>
    rw [collectMatchingValues, mem_stepWhile_advance hval.2 (Nat.min_le_right stop max),
      valueMatches_rangeRepeat, Nat.le_min]
    tauto

/-- The first multiple that is not below `start` (lines 863–872), and the steps to it. -/
theorem firstMultiple_spec {step : ℕ} (hstep : 0 < step) (start : ℕ) :
    ∃ k, (if start % step = 0 then start else start + (step - start % step)) = k * step ∧
      start ≤ k * step ∧ ∀ j, start ≤ j * step → k ≤ j := by
  have hdiv := Nat.div_add_mod start step
  have hmod := Nat.mod_lt start hstep
  rw [Nat.mul_comm] at hdiv
  split
  · refine ⟨start / step, by omega, by omega, fun j hj => ?_⟩
    exact Nat.le_of_mul_le_mul_right (by omega) hstep
  · refine ⟨start / step + 1, ?_, ?_, fun j hj => ?_⟩
    · rw [Nat.succ_mul]
      omega
    · rw [Nat.succ_mul]
      omega
    · by_contra hge
      have := Nat.mul_le_mul_right step (show j ≤ start / step by omega)
      omega

theorem firstMultiple_iff {step start x : ℕ} (hstep : 0 < step) {first : ℕ}
    (hfirst : first = if start % step = 0 then start else start + (step - start % step)) :
    first ≤ x ∧ step ∣ x - first ↔ start ≤ x ∧ step ∣ x := by
  obtain ⟨k, hk, hstart, hleast⟩ := firstMultiple_spec hstep start
  rw [← hfirst] at hk
  have hprog : first ≤ x ∧ step ∣ x - first ↔ start ≤ x ∧ 0 ≤ x ∧ step ∣ x - 0 := by
    refine progression_iff ⟨k, by omega⟩ (by omega) fun j hj => ?_
    have := Nat.mul_le_mul_right step (hleast j (by omega))
    omega
  rw [hprog, Nat.sub_zero]
  exact and_congr_right fun _ => and_iff_right (Nat.zero_le x)

/-- The values that are enumerated are those of the interval that match. -/
theorem mem_matchingValuesFrom {comp : CalendarComponent} (hcomp : comp.WellFormed)
    {start max x : ℕ} : x ∈ matchingValuesFrom comp start max ↔
      start ≤ x ∧ x ≤ max ∧ componentMatches comp x = true := by
  cases comp with
  | wildcard =>
    rw [matchingValuesFrom, mem_valuesBetween]
    exact ⟨fun h => ⟨h.1, h.2, rfl⟩, fun h => ⟨h.1, h.2.1⟩⟩
  | wildcardRepeat step =>
    have hfirst : (if start = 0 then 0 else if start % step = 0 then start
        else start + (step - start % step)) =
        if start % step = 0 then start else start + (step - start % step) := by
      split
      · rename_i h
        rw [h, Nat.zero_mod, if_pos rfl]
      · rfl
    have hiff := firstMultiple_iff (x := x) hcomp hfirst
    rw [matchingValuesFrom, componentMatches, decide_eq_true_eq]
    dsimp only
    rw [mem_stepWhile hcomp (by omega), and_left_comm, hiff]
    tauto
  | list values =>
    rw [matchingValuesFrom, mem_sortDedup, List.mem_flatMap, componentMatches, List.any_eq_true]
    constructor
    · rintro ⟨v, hv, hx⟩
      obtain ⟨h1, h2, h3⟩ := (mem_collectMatchingValues (hcomp v hv)).mp hx
      exact ⟨h1, h2, v, hv, h3⟩
    · rintro ⟨h1, h2, v, hv, h3⟩
      exact ⟨v, hv, (mem_collectMatchingValues (hcomp v hv)).mpr ⟨h1, h2, h3⟩⟩

theorem pairwise_matchingValuesFrom {comp : CalendarComponent} (hcomp : comp.WellFormed)
    (start max : ℕ) : (matchingValuesFrom comp start max).Pairwise (· < ·) := by
  cases comp with
  | wildcard => exact pairwise_valuesBetween start max
  | wildcardRepeat step => exact pairwise_stepWhile hcomp max (max + 1) _
  | list values => exact pairwise_sortDedup _

/-! ## Days from the end of the month -/

/-- A value of a list matches the day that is the `n`-th from the end of its month. A repetition
    goes on from its start towards the end. -/
def fromEndMatches : CalendarValue → ℕ → Bool
  | .exact e, n => n = e
  | .range a b, n => a ≤ n && n ≤ b
  | .repeats start step, n => n ≤ start && step ∣ start - n
  | .rangeRepeat a b step, n => a ≤ n && n ≤ b && step ∣ b - n

/-- Whether a day of a month matches; a wildcard is not counted from the end. -/
def dayMatches (fromEnd : Bool) (comp : CalendarComponent) (maxDay d : ℕ) : Bool :=
  if fromEnd then
    match comp with
    | .list values => values.any (fromEndMatches · (maxDay - d + 1))
    | comp => componentMatches comp d
  else componentMatches comp d

/-- All numbers of a value are between two bounds (`validate_component_range`). -/
def CalendarValue.InRange (min max : ℕ) : CalendarValue → Prop
  | .exact n => min ≤ n ∧ n ≤ max
  | .range a b => (min ≤ a ∧ a ≤ max) ∧ min ≤ b ∧ b ≤ max
  | .repeats start _ => min ≤ start ∧ start ≤ max
  | .rangeRepeat a b _ => (min ≤ a ∧ a ≤ max) ∧ min ≤ b ∧ b ≤ max

def CalendarComponent.InRange (min max : ℕ) : CalendarComponent → Prop
  | .list values => ∀ v ∈ values, v.InRange min max
  | _ => True

/-- A wider bound above. -/
theorem CalendarComponent.InRange.mono {comp : CalendarComponent} {min max max' : ℕ}
    (h : comp.InRange min max) (hle : max ≤ max') : comp.InRange min max' := by
  cases comp with
  | wildcard => trivial
  | wildcardRepeat step => trivial
  | list values =>
    intro v hv
    have hrange : v.InRange min max := h v hv
    cases v with
    | exact n => exact ⟨hrange.1, hrange.2.trans hle⟩
    | range a b =>
      exact ⟨⟨hrange.1.1, hrange.1.2.trans hle⟩, hrange.2.1, hrange.2.2.trans hle⟩
    | repeats a step => exact ⟨hrange.1, hrange.2.trans hle⟩
    | rangeRepeat a b step =>
      exact ⟨⟨hrange.1.1, hrange.1.2.trans hle⟩, hrange.2.1, hrange.2.2.trans hle⟩

theorem absDay_of_range {maxDay n : ℕ} (h : 1 ≤ n ∧ n ≤ maxDay) :
    absDay maxDay n = some (maxDay - n + 1) :=
  if_pos h

/-- The days of a value are those whose number from the end matches. -/
theorem mem_fromEndDays {val : CalendarValue} (hval : val.WellFormed) {maxDay : ℕ}
    (hrange : val.InRange 1 maxDay) {d : ℕ} : d ∈ fromEndDays maxDay val ↔
      (1 ≤ d ∧ d ≤ maxDay) ∧ fromEndMatches val (maxDay - d + 1) = true := by
  cases val with
  | exact n =>
    have hn : 1 ≤ n ∧ n ≤ maxDay := hrange
    rw [fromEndDays, absDay_of_range hn, Option.mem_toList, Option.some_inj,
      fromEndMatches, decide_eq_true_eq]
    omega
  | range a b =>
    obtain ⟨ha, hb⟩ := hrange
    have hab : a ≤ b := hval
    rw [fromEndDays, absDay_of_range ha, absDay_of_range hb]
    simp only [mem_valuesBetween, fromEndMatches, Bool.and_eq_true, decide_eq_true_eq]
    rw [Nat.min_eq_right (by omega), Nat.max_eq_left (by omega)]
    omega
  | repeats start step =>
    have hstep : 0 < step := hval
    rw [fromEndDays, absDay_of_range hrange]
    simp only [mem_stepWhile hstep (show maxDay < maxDay - start + 1 + (maxDay + 1) by omega),
      fromEndMatches, Bool.and_eq_true, decide_eq_true_eq]
    obtain ⟨h1, h2⟩ := hrange
    constructor
    · rintro ⟨hle, hmax, hdvd⟩
      refine ⟨by omega, by omega, ?_⟩
      rwa [show start - (maxDay - d + 1) = d - (maxDay - start + 1) by omega]
    · rintro ⟨hd, hle, hdvd⟩
      refine ⟨by omega, hd.2, ?_⟩
      rwa [show d - (maxDay - start + 1) = start - (maxDay - d + 1) by omega]
  | rangeRepeat a b step =>
    obtain ⟨hab, hstep⟩ := hval
    obtain ⟨ha, hb⟩ := hrange
    rw [fromEndDays, absDay_of_range ha, absDay_of_range hb]
    dsimp only
    rw [Nat.min_eq_right (by omega), Nat.max_eq_left (by omega),
      mem_stepWhile hstep (by omega)]
    simp only [fromEndMatches, Bool.and_eq_true, decide_eq_true_eq]
    constructor
    · rintro ⟨hle, hmax, hdvd⟩
      refine ⟨by omega, by omega, ?_⟩
      rwa [show b - (maxDay - d + 1) = d - (maxDay - b + 1) by omega]
    · rintro ⟨hd, hle, hdvd⟩
      refine ⟨by omega, by omega, ?_⟩
      rwa [show d - (maxDay - b + 1) = b - (maxDay - d + 1) by omega]

/-- The days that are resolved are those of the month that match, from `start` on. -/
theorem mem_resolveFromEndDays {comp : CalendarComponent} (hcomp : comp.WellFormed)
    {maxDay : ℕ} (hrange : comp.InRange 1 maxDay) {start d : ℕ} (hstart : 1 ≤ start) :
    d ∈ resolveFromEndDays comp start maxDay ↔
      start ≤ d ∧ d ≤ maxDay ∧ dayMatches true comp maxDay d = true := by
  cases comp with
  | wildcard => exact mem_matchingValuesFrom hcomp
  | wildcardRepeat step => exact mem_matchingValuesFrom hcomp
  | list values =>
    rw [resolveFromEndDays, mem_sortDedup, List.mem_filter, List.mem_flatMap, decide_eq_true_eq,
      dayMatches, if_pos rfl, List.any_eq_true]
    constructor
    · rintro ⟨⟨v, hv, hd⟩, hle⟩
      obtain ⟨hday, hmatch⟩ := (mem_fromEndDays (hcomp v hv) (hrange v hv)).mp hd
      exact ⟨hle, hday.2, v, hv, hmatch⟩
    · rintro ⟨hle, hmax, v, hv, hmatch⟩
      exact ⟨⟨v, hv, (mem_fromEndDays (hcomp v hv) (hrange v hv)).mpr
        ⟨⟨by omega, hmax⟩, hmatch⟩⟩, hle⟩

theorem pairwise_resolveFromEndDays {comp : CalendarComponent} (hcomp : comp.WellFormed)
    (start maxDay : ℕ) : (resolveFromEndDays comp start maxDay).Pairwise (· < ·) := by
  cases comp with
  | wildcard => exact pairwise_matchingValuesFrom hcomp start maxDay
  | wildcardRepeat step => exact pairwise_matchingValuesFrom hcomp start maxDay
  | list values => exact pairwise_sortDedup _

end OxidizedSystemd.Calendar
