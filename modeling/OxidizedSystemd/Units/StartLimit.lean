import OxidizedSystemd.Lib.SlidingWindow
import Mathlib.Data.List.Induction

/-!
# The start rate limit

Model of `check_start_rate_limit` and `start_rate_limit_would_block`
(`unitset_manipulation/activate.rs`, lines 35–138), which do the same for units of every kind.
The time of a call is a parameter, in nanoseconds.

* `recent_startTimestamps`: of the allowed starts, the unit keeps those that may still count.
* `allowedStarts_sparse`: no span shorter than the interval has more than `burst` of them.
* `callStep_recent`: dropping old timestamps early changes no later answer.
* `startLimit_exact`: the limit over every run. A burst of 0 turns it off.
-/

namespace OxidizedSystemd.Units.StartLimit

open OxidizedSystemd.Lib

/-! ## The source -/

/-- `enum Timeout`, in nanoseconds. -/
inductive Timeout
  | duration (ns : ℕ)
  | infinity

/-- The settings of a unit that the limit reads (`units/unit.rs`, lines 2879–2889). -/
structure UnitConfig where
  startLimitIntervalSec : Option Timeout
  startLimitBurst : Option ℕ

/-- `burst`, of which the default is 5. -/
def UnitConfig.burst (unit : UnitConfig) : ℕ := unit.startLimitBurst.getD 5

/-- `interval`, of which the default is 10 s. -/
def UnitConfig.interval (unit : UnitConfig) : ℕ :=
  match unit.startLimitIntervalSec with
  | some (.duration d) => d
  | some .infinity | none => 10 * 1000000000

/-- `check_and_record` (lines 51–67): the answer and the timestamps behind it. -/
def checkAndRecord (burst interval now : ℕ) (startTimestamps : List ℕ) : Bool × List ℕ :=
  let startTimestamps := recent interval now startTimestamps
  if startTimestamps.length ≥ burst then (false, startTimestamps)
  else (true, startTimestamps ++ [now])

/-- `check_start_rate_limit` (lines 38–97), called at `now`. -/
def checkStartRateLimit (unit : UnitConfig) (now : ℕ) (startTimestamps : List ℕ) :
    Bool × List ℕ :=
  if unit.burst = 0 ∨ unit.interval = 0 then (true, startTimestamps)
  else checkAndRecord unit.burst unit.interval now startTimestamps

/-- `would_block` (lines 119–125). -/
def wouldBlock (burst interval now : ℕ) (startTimestamps : List ℕ) : Bool × List ℕ :=
  let startTimestamps := recent interval now startTimestamps
  (decide (startTimestamps.length ≥ burst), startTimestamps)

/-- `start_rate_limit_would_block` (lines 107–138), called at `now`. -/
def startRateLimitWouldBlock (unit : UnitConfig) (now : ℕ) (startTimestamps : List ℕ) :
    Bool × List ℕ :=
  if unit.burst = 0 ∨ unit.interval = 0 then (false, startTimestamps)
  else wouldBlock unit.burst unit.interval now startTimestamps

/-! ## Runs -/

/-- A call of one of the two functions. -/
inductive Call
  | check (now : ℕ)
  | wouldBlock (now : ℕ)

/-- The time of a call. -/
def Call.now : Call → ℕ
  | .check now => now
  | .wouldBlock now => now

variable (unit : UnitConfig)

/-- The answer of a call and the timestamps behind it. -/
def callStep (startTimestamps : List ℕ) : Call → Bool × List ℕ
  | .check now => checkStartRateLimit unit now startTimestamps
  | .wouldBlock now => startRateLimitWouldBlock unit now startTimestamps

/-- The timestamps of a new unit behind some calls. -/
def startTimestamps (calls : List Call) : List ℕ :=
  calls.foldl (fun timestamps call => (callStep unit timestamps call).2) []

/-- The answers of calls, from some timestamps on. -/
def answers : List ℕ → List Call → List Bool
  | _, [] => []
  | timestamps, call :: calls =>
    (callStep unit timestamps call).1 :: answers (callStep unit timestamps call).2 calls

/-- The start that a call allows. -/
def allowedStart (timestamps : List ℕ) : Call → List ℕ
  | .check now => if (checkStartRateLimit unit now timestamps).1 then [now] else []
  | .wouldBlock _ => []

/-- The starts that calls allow, from some timestamps on. -/
def allowedFrom : List ℕ → List Call → List ℕ
  | _, [] => []
  | timestamps, call :: calls =>
    allowedStart unit timestamps call ++ allowedFrom (callStep unit timestamps call).2 calls

/-- The starts of a new unit that calls allow. -/
def allowedStarts (calls : List Call) : List ℕ := allowedFrom unit [] calls

/-! ## One call -/

section Step

variable {unit}

/-- The limit is on. -/
def Limited (unit : UnitConfig) : Prop := unit.burst ≠ 0 ∧ unit.interval ≠ 0

theorem callStep_check (h : Limited unit) (now : ℕ) (timestamps : List ℕ) :
    callStep unit timestamps (.check now) =
      if unit.burst ≤ (recent unit.interval now timestamps).length then
        (false, recent unit.interval now timestamps)
      else (true, recent unit.interval now timestamps ++ [now]) := by
  rw [callStep, checkStartRateLimit, if_neg (not_or.mpr h)]
  rfl

theorem callStep_wouldBlock (h : Limited unit) (now : ℕ) (timestamps : List ℕ) :
    callStep unit timestamps (.wouldBlock now) =
      (decide (unit.burst ≤ (recent unit.interval now timestamps).length),
        recent unit.interval now timestamps) := by
  rw [callStep, startRateLimitWouldBlock, if_neg (not_or.mpr h)]
  rfl

theorem callStep_of_not_limited (h : ¬ Limited unit) (timestamps : List ℕ) (call : Call) :
    (callStep unit timestamps call).2 = timestamps := by
  have hoff : unit.burst = 0 ∨ unit.interval = 0 := by
    rw [Limited] at h
    omega
  cases call with
  | check now => rw [callStep, checkStartRateLimit, if_pos hoff]
  | wouldBlock now => rw [callStep, startRateLimitWouldBlock, if_pos hoff]

/-- A call does not see timestamps that had expired before it. -/
theorem callStep_recent (h : Limited unit) {now : ℕ} {call : Call} (hle : now ≤ call.now)
    (timestamps : List ℕ) :
    callStep unit (recent unit.interval now timestamps) call = callStep unit timestamps call := by
  cases call with
  | check later =>
    have hle : now ≤ later := hle
    rw [callStep_check h, callStep_check h, recent_recent hle]
  | wouldBlock later =>
    have hle : now ≤ later := hle
    rw [callStep_wouldBlock h, callStep_wouldBlock h, recent_recent hle]

/-- A call keeps the timestamps that are still recent after it, and adds the start that it
    allows. -/
theorem recent_callStep (h : Limited unit) {n : ℕ} {call : Call} (hle : call.now ≤ n)
    (timestamps : List ℕ) :
    recent unit.interval n (callStep unit timestamps call).2 =
      recent unit.interval n (timestamps ++ allowedStart unit timestamps call) := by
  cases call with
  | check now =>
    have hle : now ≤ n := hle
    rw [allowedStart, ← callStep, callStep_check h]
    split
    · simp [recent_recent hle]
    · simp [recent_append, recent_recent hle]
  | wouldBlock now =>
    have hle : now ≤ n := hle
    rw [callStep_wouldBlock h]
    simp [allowedStart, recent_recent hle]

end Step

/-! ## Runs of calls -/

section Runs

variable {unit} {calls : List Call}

theorem startTimestamps_snoc (calls : List Call) (call : Call) :
    startTimestamps unit (calls ++ [call]) =
      (callStep unit (startTimestamps unit calls) call).2 := by
  rw [startTimestamps, List.foldl_append]
  rfl

theorem allowedFrom_append (timestamps : List ℕ) (calls more : List Call) :
    allowedFrom unit timestamps (calls ++ more) =
      allowedFrom unit timestamps calls ++ allowedFrom unit
        (calls.foldl (fun timestamps call => (callStep unit timestamps call).2) timestamps)
        more := by
  induction calls generalizing timestamps with
  | nil => rfl
  | cons call calls ih => simp [allowedFrom, ih]

theorem allowedStarts_snoc (calls : List Call) (call : Call) :
    allowedStarts unit (calls ++ [call]) =
      allowedStarts unit calls ++ allowedStart unit (startTimestamps unit calls) call := by
  rw [allowedStarts, allowedFrom_append]
  simp [allowedFrom, allowedStarts, startTimestamps]

theorem mem_allowedStart {timestamps : List ℕ} {call : Call} {t : ℕ}
    (ht : t ∈ allowedStart unit timestamps call) : t = call.now := by
  cases call with
  | check now =>
    rw [allowedStart] at ht
    split at ht
    · exact List.mem_singleton.mp ht
    · exact absurd ht List.not_mem_nil
  | wouldBlock now => exact absurd ht List.not_mem_nil

theorem allowedStarts_le {n : ℕ} (h : ∀ call ∈ calls, call.now ≤ n) :
    ∀ t ∈ allowedStarts unit calls, t ≤ n := by
  induction calls using List.reverseRecOn with
  | nil => exact fun t ht => absurd ht List.not_mem_nil
  | append_singleton calls call ih =>
    rw [List.forall_mem_append, List.forall_mem_singleton] at h
    intro t ht
    rw [allowedStarts_snoc, List.mem_append] at ht
    cases ht with
    | inl ht => exact ih h.1 t ht
    | inr ht => exact mem_allowedStart ht ▸ h.2

/-- Of the allowed starts, the timestamps lack only those that have expired. -/
theorem recent_startTimestamps (hlimited : Limited unit) {n : ℕ}
    (h : ∀ call ∈ calls, call.now ≤ n) :
    recent unit.interval n (startTimestamps unit calls) =
      recent unit.interval n (allowedStarts unit calls) := by
  induction calls using List.reverseRecOn with
  | nil => rfl
  | append_singleton calls call ih =>
    rw [List.forall_mem_append, List.forall_mem_singleton] at h
    rw [startTimestamps_snoc, allowedStarts_snoc, recent_callStep hlimited h.2, recent_append,
      recent_append, ih h.1]

theorem allowedStarts_sparse_of_limited (hlimited : Limited unit)
    (hsorted : calls.Pairwise fun a b => a.now ≤ b.now) :
    Sparse unit.burst unit.interval (allowedStarts unit calls) := by
  induction calls using List.reverseRecOn with
  | nil => exact sparse_nil
  | append_singleton calls call ih =>
    obtain ⟨hcalls, -, hle⟩ := List.pairwise_append.mp hsorted
    rw [allowedStarts_snoc]
    cases call with
    | check now =>
      have hpast : ∀ c ∈ calls, c.now ≤ now := fun c hc =>
        hle c hc (.check now) List.mem_cons_self
      rw [allowedStart, ← callStep, callStep_check hlimited, recent_startTimestamps hlimited hpast]
      split
      · simpa using ih hcalls
      · rename_i hroom
        exact (ih hcalls).snoc (allowedStarts_le hpast) (Nat.lt_of_not_le hroom)
    | wouldBlock now => simpa [allowedStart] using ih hcalls

/-- A window of no length has no starts, so a zero interval does no harm. -/
theorem allowedStarts_sparse (hburst : unit.burst ≠ 0)
    (hsorted : calls.Pairwise fun a b => a.now ≤ b.now) :
    Sparse unit.burst unit.interval (allowedStarts unit calls) := by
  by_cases hzero : unit.interval = 0
  · exact hzero ▸ sparse_zero
  · exact allowedStarts_sparse_of_limited ⟨hburst, hzero⟩ hsorted

/-- Timestamps that expired before a run do not change its answers. -/
theorem answers_recent (hlimited : Limited unit) {now : ℕ} (h : ∀ call ∈ calls, now ≤ call.now)
    (timestamps : List ℕ) :
    answers unit (recent unit.interval now timestamps) calls = answers unit timestamps calls := by
  cases calls with
  | nil => rfl
  | cons call calls =>
    rw [answers, answers, callStep_recent hlimited (h call List.mem_cons_self)]

end Runs

/-! ## The limit -/

/-- With a burst of 0 there is no limit: the first start is one too many. -/
theorem burst_zero_is_unlimited :
    let unit : UnitConfig := ⟨some (.duration 10000000000), some 0⟩
    unit.burst < ((allowedStarts unit [.check 0]).filter fun t =>
      0 ≤ t ∧ t < 0 + unit.interval).length := by
  decide

/-- Over every run of calls at times that do not decrease: unless the burst is 0, no half-open
    window of the interval's length has more than `burst` allowed starts; a start is refused
    only if the window that ends at it has `burst` of them; the other function answers the
    opposite; and a call of it changes no later answer. -/
theorem startLimit_exact {calls : List Call}
    (hsorted : calls.Pairwise fun a b => a.now ≤ b.now) :
    (unit.burst ≠ 0 → ∀ a,
      ((allowedStarts unit calls).filter fun t =>
        a ≤ t ∧ t < a + unit.interval).length ≤ unit.burst ∧
      ((allowedStarts unit calls).filter fun t =>
        a < t ∧ t ≤ a + unit.interval).length ≤ unit.burst) ∧
    (∀ before now after, calls = before ++ .check now :: after →
      (checkStartRateLimit unit now (startTimestamps unit before)).1 = false →
      unit.burst ≤ ((allowedStarts unit before).filter fun t =>
        t ≤ now ∧ now < t + unit.interval).length) ∧
    (∀ now, (startRateLimitWouldBlock unit now (startTimestamps unit calls)).1 =
      !(checkStartRateLimit unit now (startTimestamps unit calls)).1) ∧
    ∀ before now after, calls = before ++ .wouldBlock now :: after →
      answers unit (startTimestamps unit (before ++ [.wouldBlock now])) after =
        answers unit (startTimestamps unit before) after := by
  have hwindows : unit.burst ≠ 0 → ∀ a,
      ((allowedStarts unit calls).filter fun t =>
        a ≤ t ∧ t < a + unit.interval).length ≤ unit.burst ∧
      ((allowedStarts unit calls).filter fun t =>
        a < t ∧ t ≤ a + unit.interval).length ≤ unit.burst := by
    intro hburst a
    have hsparse := allowedStarts_sparse hburst hsorted
    exact ⟨hsparse.closedOpen a, hsparse.openClosed a⟩
  by_cases hlimited : Limited unit
  · refine ⟨hwindows, ?_, ?_, ?_⟩
    · rintro before now after rfl hrefused
      have hpast : ∀ call ∈ before, call.now ≤ now := fun call hcall =>
        (List.pairwise_append.mp hsorted).2.2 call hcall (.check now) List.mem_cons_self
      rw [← callStep, callStep_check hlimited, recent_startTimestamps hlimited hpast,
        recent_eq_filter (allowedStarts_le hpast)] at hrefused
      by_contra hroom
      rw [if_neg hroom] at hrefused
      cases hrefused
    · intro now
      rw [← callStep, ← callStep, callStep_check hlimited, callStep_wouldBlock hlimited]
      split <;> simp_all
    · rintro before now after rfl
      have hlater : ∀ call ∈ after, now ≤ call.now :=
        (List.pairwise_cons.mp (List.pairwise_append.mp hsorted).2.1).1
      rw [startTimestamps_snoc, callStep_wouldBlock hlimited]
      exact answers_recent hlimited hlater _
  · have hoff : unit.burst = 0 ∨ unit.interval = 0 := by
      rw [Limited] at hlimited
      omega
    refine ⟨hwindows, ?_, ?_, ?_⟩
    · intro before now after _ hrefused
      rw [checkStartRateLimit, if_pos hoff] at hrefused
      cases hrefused
    · intro now
      rw [startRateLimitWouldBlock, checkStartRateLimit, if_pos hoff, if_pos hoff]
      rfl
    · intro before now after _
      rw [startTimestamps_snoc, callStep_of_not_limited hlimited]

/-- It applies to a run in which the fourth call is refused, as the third one says. -/
theorem startLimit_exact_two :
    let unit : UnitConfig := ⟨some (.duration 10), some 2⟩
    let calls : List Call := [.check 0, .check 3, .wouldBlock 5, .check 5, .check 10]
    answers unit [] calls = [true, true, true, false, true] ∧
      allowedStarts unit calls = [0, 3, 10] ∧
      ∀ a, ((allowedStarts unit calls).filter fun t => a ≤ t ∧ t < a + 10).length ≤ 2 :=
  ⟨by decide, by decide, fun a =>
    ((startLimit_exact ⟨some (.duration 10), some 2⟩ (by decide)).1 (by decide) a).1⟩

end OxidizedSystemd.Units.StartLimit
