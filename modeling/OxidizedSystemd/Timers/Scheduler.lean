import OxidizedSystemd.Calendar.NextElapse
import OxidizedSystemd.Lib.Run
import OxidizedSystemd.Units.Basic
import Mathlib.Data.List.AList

/-!
# The timer scheduler

Models of `should_fire_timer`, `check_and_fire_timers` and `fire_timer_target`
(`timer_scheduler.rs`, lines 262–745). The scheduler runs in sections between which other
threads change the unit table as they like: it collects the timers that elapse, and for each
of them it records the elapse and then fires the target. Two sections take the lock with
`try_read` and give up when it is busy.

* `shouldFireTimer_recorded`: a timer without a recurring source elapses once.
* `noneLost_iff`: no elapse of a run is lost exactly if no fire finds the lock busy or
    its target missing.

Instants and durations are in nanoseconds; the instants count from the boot.
-/

namespace OxidizedSystemd.Timers

open OxidizedSystemd.Lib OxidizedSystemd.Units OxidizedSystemd.Calendar

abbrev Text := List Char

/-! ## Timers -/

/-- `TimerConfig`, without `AccuracySec=` and `WakeSystem=`. -/
structure TimerConfig where
  onActiveSec : List ℕ := []
  onBootSec : List ℕ := []
  onStartupSec : List ℕ := []
  onUnitActiveSec : List ℕ := []
  onUnitInactiveSec : List ℕ := []
  onCalendar : List Text := []
  randomizedDelaySec : ℕ := 0
  fixedRandomDelay : Bool := false
  persistent : Bool := false
  remainAfterElapse : Bool := true
  deferReactivation : Bool := false
  onClockChange : Bool := false
  onTimezoneChange : Bool := false
  unit : Text

/-- `Specific`, with the configuration and the state of a timer. -/
inductive Specific where
  | timer (conf : TimerConfig) (lastTriggerUsec : Option ℕ)
  | other

structure TimerUnit where
  name : Text
  status : UnitStatus
  specific : Specific

/-- The values of `unit_table`, in its order of iteration. -/
abbrev UnitTable := List TimerUnit

/-- `last_fired`. -/
abbrev Instants := AList fun _ : Text => ℕ

/-! ## Whether a timer elapses -/

/-- What a tick reads of the clocks. `SystemTime::now()` is read once; `clockChanged` comes with
    the time before the jump, if there is one. -/
structure Clocks where
  now : ℕ
  /-- Nanoseconds since the epoch. -/
  wall : ℕ
  timezoneChanged : Bool := false
  clockChanged : Bool := false
  preJumpWallclock : Option ℕ := none

/-- `Duration::as_secs`. -/
def asSecs (d : ℕ) : ℕ := d / 1000000000

/-- `compute_randomized_delay` (lines 170–192). `hash` is the hasher of the standard library, of
    the name alone or with the instant of the boot. -/
def computeRandomizedDelay (hash : Text → Bool → ℕ) (conf : TimerConfig) (timerName : Text) : ℕ :=
  if conf.randomizedDelaySec = 0 then 0
  else
    let maxMicros := conf.randomizedDelaySec / 1000 % 2 ^ 64
    if maxMicros = 0 then 0
    else hash timerName conf.fixedRandomDelay % maxMicros * 1000

/-- `CalendarSpec::system_time_to_datetime`. -/
def systemTimeToDatetime (t : ℕ) : DateTime := unixToDatetime (asSecs t)

/-- `reference_dt` (lines 548–588). -/
def referenceDt (conf : TimerConfig) (clocks : Clocks) (last : Option ℕ) : DateTime :=
  let nowUnix := datetimeToUnix (systemTimeToDatetime clocks.wall)
  if clocks.clockChanged then
    match clocks.preJumpWallclock with
    | some preJump => unixToDatetime (datetimeToUnix (systemTimeToDatetime preJump) + 1)
    | none => unixToDatetime (nowUnix - asSecs clocks.now)
  else
    match last with
    | some lastInstant => unixToDatetime (nowUnix - asSecs (clocks.now - lastInstant) + 1)
    | none =>
      if conf.persistent then ⟨1970, 1, 1, 0, 0, 0⟩
      else unixToDatetime (nowUnix - asSecs clocks.now)

/-- One `OnCalendar=` expression (lines 535–613). The clocks are far from the year in which
    `next_elapse` overflows. -/
def calendarElapsed (conf : TimerConfig) (clocks : Clocks) (last : Option ℕ) (delay : ℕ)
    (expr : Text) : Bool :=
  match parse expr with
  | .ok spec =>
    match (spec.nextElapse (referenceDt conf clocks last)).join with
    | some next =>
      datetimeToUnix next + asSecs delay ≤ datetimeToUnix (systemTimeToDatetime clocks.wall)
    | none => false
  | .error _ => false

/-- `OnUnitActiveSec=` and `OnUnitInactiveSec=`, which are the same (lines 484–534). -/
def unitElapsed (clocks : Clocks) (last : Option ℕ) (delay dur : ℕ) : Bool :=
  dur ≠ 0 && clocks.now - last.getD 0 ≥ dur + delay

/-- `should_fire_timer` (lines 437–620). -/
def shouldFireTimer (hash : Text → Bool → ℕ) (conf : TimerConfig) (timerName : Text)
    (clocks : Clocks) (lastFired : Instants) : Bool :=
  let last := lastFired.lookup timerName
  let delay := computeRandomizedDelay hash conf timerName
  (conf.onBootSec ++ conf.onStartupSec).any (fun dur => clocks.now ≥ dur + delay && last.isNone) ||
  conf.onActiveSec.any (fun dur => clocks.now ≥ dur + delay && last.isNone) ||
  conf.onUnitActiveSec.any (unitElapsed clocks last delay) ||
  conf.onUnitInactiveSec.any (unitElapsed clocks last delay) ||
  conf.onClockChange && clocks.clockChanged ||
  conf.onTimezoneChange && clocks.timezoneChanged ||
  conf.onCalendar.any (calendarElapsed conf clocks last delay)

/-- A source that may elapse more than once (lines 408–410). -/
def TimerConfig.recurring (conf : TimerConfig) : Bool :=
  !conf.onCalendar.isEmpty || !conf.onUnitActiveSec.isEmpty || !conf.onUnitInactiveSec.isEmpty

/-! ## The sections of a tick -/

/-- A timer that elapsed and the unit that it activates. -/
structure Elapse where
  timer : Text
  target : Text
deriving DecidableEq

/-- `unit_table.values().find(|u| u.id.name == name)`. -/
def findUnit (table : UnitTable) (name : Text) : Option TimerUnit :=
  table.find? fun u => u.name = name

/-- What the loop over the units collects (lines 285–376). -/
structure Collected where
  lastFired : Instants
  deferSeenActive : AList fun _ : Text => Bool
  timersToFire : List Elapse := []

/-- `target_active` (lines 330–342). -/
def targetActive (table : UnitTable) (targetUnit : Text) : Bool :=
  match findUnit table targetUnit with
  | some u =>
    match u.status with
    | .stopped _ | .neverStarted => false
    | _ => true
  | none => false

/-- A `Persistent=` timer whose stamp is older than the boot (lines 309–321). -/
def seedPersistent (conf : TimerConfig) (timerName : Text) (lastTriggerUsec : Option ℕ)
    (clocks : Clocks) (lastFired : Instants) : Instants :=
  if conf.persistent && (lastFired.lookup timerName).isNone then
    match lastTriggerUsec with
    | some usec =>
      if (usec * 1000 : ℤ) < clocks.wall - clocks.now then lastFired.insert timerName 0
      else lastFired
    | none => lastFired
  else lastFired

/-- The last lines of the loop body (lines 361–374). -/
def Collected.fireIfElapsed (hash : Text → Bool → ℕ) (clocks : Clocks) (conf : TimerConfig)
    (timerName : Text) (c : Collected) : Collected :=
  if shouldFireTimer hash conf timerName clocks c.lastFired then
    { c with timersToFire := c.timersToFire ++ [⟨timerName, conf.unit⟩] }
  else c

/-- The loop body over the units (lines 285–376). -/
def Collected.check (hash : Text → Bool → ℕ) (clocks : Clocks) (table : UnitTable)
    (c : Collected) (u : TimerUnit) : Collected :=
  match u.specific with
  | .other => c
  | .timer conf lastTriggerUsec =>
    if u.status = .started .running then
      let c := { c with
        lastFired := seedPersistent conf u.name lastTriggerUsec clocks c.lastFired }
      if conf.deferReactivation then
        match c.deferSeenActive.lookup u.name with
        | none =>
          { c with
            deferSeenActive := c.deferSeenActive.insert u.name false
            lastFired := c.lastFired.insert u.name clocks.now }
        | some seen =>
          if targetActive table conf.unit then
            { c with deferSeenActive := c.deferSeenActive.insert u.name true }
          else if seen then
            { c with
              lastFired := c.lastFired.insert u.name clocks.now
              deferSeenActive := c.deferSeenActive.insert u.name false }
          else c.fireIfElapsed hash clocks conf u.name
      else c.fireIfElapsed hash clocks conf u.name
    else c

/-- The units in the table with one of them changed. -/
def modifyUnit (table : UnitTable) (name : Text) (f : TimerUnit → TimerUnit) : UnitTable :=
  table.map fun u => if u.name = name then f u else u

/-- What is recorded on the unit of a timer (lines 390–425). -/
def recordOn (trigger : ℕ) (u : TimerUnit) : TimerUnit :=
  match u.specific with
  | .other => u
  | .timer conf _ =>
    let u := { u with specific := .timer conf (some trigger) }
    match u.status with
    | .started _ =>
      if !conf.recurring && !conf.remainAfterElapse then
        { u with status := .stopped .stoppedFinal }
      else u
    | _ => u

/-- Where the scheduler is: it fires what it collected, or is in `fire_timer_target`, or looks
    for a target a second time. -/
inductive Phase where
  | firing (now : ℕ) (timersToFire : List Elapse)
  | fireTarget (now : ℕ) (e : Elapse) (timersToFire : List Elapse)
  | lookAgain (now : ℕ) (e : Elapse) (timersToFire : List Elapse)

/-- What was tried with a target: a restart or a start. -/
inductive Attempt where
  | reactivate
  | activate
deriving DecidableEq

/-- The scheduler, the unit table that it shares, and the stamp files. `elapsed` has the timers
    for which `should_fire_timer` answered true, `recorded` those that were recorded as fired and
    `attempted` those whose target was started or restarted. -/
structure System where
  unitTable : UnitTable
  lastFired : Instants := ∅
  deferSeenActive : AList (fun _ : Text => Bool) := ∅
  stamps : List Text := []
  phase : Phase := .firing 0 []
  elapsed : List Elapse := []
  recorded : List Elapse := []
  attempted : List (Elapse × Attempt) := []

inductive Action where
  /-- The other threads change the table. -/
  | others (table : UnitTable)
  | tick (clocks : Clocks) (busy : Bool)
  | record (wall : ℕ)
  | fire (busy : Bool)
  | lookAgain

namespace System

/-- The loop over the units of the table. -/
def collect (hash : Text → Bool → ℕ) (s : System) (clocks : Clocks) : Collected :=
  s.unitTable.foldl (Collected.check hash clocks s.unitTable) ⟨s.lastFired, s.deferSeenActive, []⟩

/-- The first section of `check_and_fire_timers`, with the lock. -/
def startTick (hash : Text → Bool → ℕ) (s : System) (clocks : Clocks) : System :=
  { s with
    lastFired := (s.collect hash clocks).lastFired
    deferSeenActive := (s.collect hash clocks).deferSeenActive
    phase := .firing clocks.now (s.collect hash clocks).timersToFire
    elapsed := s.elapsed ++ (s.collect hash clocks).timersToFire }

/-- The recording of an elapse (lines 384–427). -/
def record (s : System) (now : ℕ) (e : Elapse) (rest : List Elapse) (wall : ℕ) : System :=
  { s with
    lastFired := s.lastFired.insert e.timer now
    unitTable := modifyUnit s.unitTable e.timer (recordOn (wall / 1000))
    stamps :=
      match findUnit s.unitTable e.timer with
      | some ⟨_, _, .timer conf _⟩ => if conf.persistent then s.stamps ++ [e.timer] else s.stamps
      | _ => s.stamps
    phase := .fireTarget now e rest
    recorded := s.recorded ++ [e] }

/-- A start or restart of the target, or none if it is not in the table. -/
def attempt (s : System) (e : Elapse) : Option Attempt :=
  (findUnit s.unitTable e.target).map fun u =>
    match u.status with
    | .started _ => .reactivate
    | _ => .activate

/-- One section of the scheduler, or a change by the other threads. -/
def step (hash : Text → Bool → ℕ) (s : System) : Action → Option System
  | .others table => some { s with unitTable := table }
  | .tick clocks busy =>
    match s.phase with
    | .firing _ [] => some (if busy then s else s.startTick hash clocks)
    | _ => none
  | .record wall =>
    match s.phase with
    | .firing now (e :: rest) => some (s.record now e rest wall)
    | _ => none
  | .fire busy =>
    match s.phase with
    | .fireTarget now e rest =>
      if busy then some { s with phase := .firing now rest }
      else
        match s.attempt e with
        | some attempt =>
          some { s with phase := .firing now rest, attempted := s.attempted ++ [(e, attempt)] }
        | none => some { s with phase := .lookAgain now e rest }
    | _ => none
  | .lookAgain =>
    match s.phase with
    | .lookAgain now e rest =>
      match findUnit s.unitTable e.target with
      | some _ =>
        some { s with phase := .firing now rest, attempted := s.attempted ++ [(e, .activate)] }
      | none => some { s with phase := .firing now rest }
    | _ => none

end System

/-! ## No elapse is lost -/

/-- The elapses that are still to be recorded. -/
def Phase.pending : Phase → List Elapse
  | .firing _ timersToFire | .fireTarget _ _ timersToFire | .lookAgain _ _ timersToFire =>
    timersToFire

/-- The elapse that is recorded and about to be fired. -/
def Phase.inFlight : Phase → List Elapse
  | .firing _ _ => []
  | .fireTarget _ e _ | .lookAgain _ e _ => [e]

/-- No elapse is lost: what elapsed is recorded or about to be, and what is recorded as fired has
    its attempt or is about to have it. -/
structure NoneLost (s : System) : Prop where
  elapsed : s.elapsed = s.recorded ++ s.phase.pending
  recorded : s.recorded = s.attempted.map Prod.fst ++ s.phase.inFlight

/-- A fire that finds the lock free, or a target when it looks for it the second time. -/
def Meets (s : System) : Action → Prop
  | .fire busy => busy = false
  | .lookAgain => ∀ e ∈ s.phase.inFlight, (findUnit s.unitTable e.target).isSome
  | _ => True

instance Meets.decidable (s : System) : ∀ a, Decidable (Meets s a)
  | .fire busy => inferInstanceAs (Decidable (busy = false))
  | .lookAgain =>
    inferInstanceAs (Decidable (∀ e ∈ s.phase.inFlight, (findUnit s.unitTable e.target).isSome))
  | .others _ | .tick _ _ | .record _ => .isTrue trivial

section Steps

variable {hash : Text → Bool → ℕ} {s s' : System} {a : Action}

/-- A tick is taken when nothing is left to record or to fire. -/
theorem System.step_tick {clocks : Clocks} {busy : Bool}
    (h : s.step hash (.tick clocks busy) = some s') :
    (∃ now, s.phase = .firing now []) ∧ s' = if busy then s else s.startTick hash clocks := by
  simp only [System.step] at h
  split at h
  · rename_i now hphase
    exact ⟨⟨now, hphase⟩, (Option.some.inj h).symm⟩
  · cases h

theorem System.step_record {wall : ℕ} (h : s.step hash (.record wall) = some s') :
    ∃ now e rest, s.phase = .firing now (e :: rest) ∧ s' = s.record now e rest wall := by
  simp only [System.step] at h
  split at h
  · rename_i now e rest hphase
    exact ⟨now, e, rest, hphase, (Option.some.inj h).symm⟩
  · cases h

/-- A fire gives up on a busy lock, or tries the target, or is to look for it again. -/
theorem System.step_fire {busy : Bool} (h : s.step hash (.fire busy) = some s') :
    ∃ now e rest, s.phase = .fireTarget now e rest ∧
      ((busy = true ∧ s' = { s with phase := .firing now rest }) ∨
        (busy = false ∧ ∃ attempt, s.attempt e = some attempt ∧
          s' = { s with phase := .firing now rest, attempted := s.attempted ++ [(e, attempt)] }) ∨
        (busy = false ∧ s.attempt e = none ∧ s' = { s with phase := .lookAgain now e rest })) := by
  simp only [System.step] at h
  split at h
  · rename_i now e rest hphase
    refine ⟨now, e, rest, hphase, ?_⟩
    cases busy with
    | true => exact .inl ⟨rfl, (Option.some.inj h).symm⟩
    | false =>
      rw [if_neg Bool.false_ne_true] at h
      cases hattempt : s.attempt e with
      | some attempt =>
        rw [hattempt] at h
        exact .inr (.inl ⟨rfl, attempt, rfl, (Option.some.inj h).symm⟩)
      | none =>
        rw [hattempt] at h
        exact .inr (.inr ⟨rfl, rfl, (Option.some.inj h).symm⟩)
  · cases h

/-- The second look tries the target, or gives up on it. -/
theorem System.step_lookAgain (h : s.step hash .lookAgain = some s') :
    ∃ now e rest, s.phase = .lookAgain now e rest ∧
      (((findUnit s.unitTable e.target).isSome ∧
          s' = { s with phase := .firing now rest, attempted := s.attempted ++ [(e, .activate)] }) ∨
        (findUnit s.unitTable e.target = none ∧ s' = { s with phase := .firing now rest })) := by
  simp only [System.step] at h
  split at h
  · rename_i now e rest hphase
    refine ⟨now, e, rest, hphase, ?_⟩
    cases hfound : findUnit s.unitTable e.target with
    | some u =>
      rw [hfound] at h
      exact .inl ⟨rfl, (Option.some.inj h).symm⟩
    | none =>
      rw [hfound] at h
      exact .inr ⟨rfl, (Option.some.inj h).symm⟩
  · cases h

/-- An attempt with the elapse that was about to be fired. -/
theorem attempted_inFlight {recorded : List Elapse} {attempted : List (Elapse × Attempt)}
    {e : Elapse} {attempt : Attempt} (h : recorded = attempted.map Prod.fst ++ [e]) :
    recorded = (attempted ++ [(e, attempt)]).map Prod.fst ++ [] := by
  rw [h, List.map_append, List.append_nil]
  rfl

/-- Every section keeps what is to hold, if it meets the condition. -/
theorem NoneLost.step (hs : NoneLost s) (ha : Meets s a) (h : s.step hash a = some s') :
    NoneLost s' := by
  obtain ⟨helapsed, hrecorded⟩ := hs
  cases a with
  | others table =>
    obtain rfl := Option.some.inj h
    exact ⟨helapsed, hrecorded⟩
  | tick clocks busy =>
    obtain ⟨⟨now, hphase⟩, rfl⟩ := System.step_tick h
    rw [hphase] at helapsed hrecorded
    split_ifs
    · exact ⟨by rw [hphase]; exact helapsed, by rw [hphase]; exact hrecorded⟩
    · refine ⟨?_, hrecorded⟩
      show s.elapsed ++ _ = s.recorded ++ _
      rw [helapsed, Phase.pending, List.append_nil]
      rfl
  | record wall =>
    obtain ⟨now, e, rest, hphase, rfl⟩ := System.step_record h
    rw [hphase] at helapsed hrecorded
    refine ⟨?_, ?_⟩
    · show s.elapsed = s.recorded ++ [e] ++ rest
      rw [helapsed, List.append_assoc]
      rfl
    · show s.recorded ++ [e] = s.attempted.map Prod.fst ++ [e]
      rw [hrecorded, Phase.inFlight, List.append_nil]
  | fire busy =>
    obtain ⟨now, e, rest, hphase, ⟨hbusy, -⟩ | ⟨-, attempt, -, rfl⟩ | ⟨-, -, rfl⟩⟩ :=
      System.step_fire h
    · exact absurd (hbusy.symm.trans ha) (by decide)
    · rw [hphase] at helapsed hrecorded
      exact ⟨helapsed, attempted_inFlight hrecorded⟩
    · rw [hphase] at helapsed hrecorded
      exact ⟨helapsed, hrecorded⟩
  | lookAgain =>
    obtain ⟨now, e, rest, hphase, ⟨-, rfl⟩ | ⟨hmissing, -⟩⟩ := System.step_lookAgain h
    · rw [hphase] at helapsed hrecorded
      exact ⟨helapsed, attempted_inFlight hrecorded⟩
    · have hfound := ha e (by rw [hphase]; exact List.mem_singleton_self e)
      rw [hmissing] at hfound
      cases hfound

/-- An elapse that is recorded and given up has no attempt. -/
theorem not_noneLost_of_given_up (hs : NoneLost s) {now : ℕ} {rest : List Elapse} {e : Elapse}
    (he : s.phase.inFlight = [e]) : ¬ NoneLost { s with phase := .firing now rest } := by
  intro h
  have hbefore := hs.recorded
  have hafter : s.recorded = s.attempted.map Prod.fst ++ [] := h.recorded
  rw [hafter, he] at hbefore
  simpa using congrArg List.length hbefore

theorem not_noneLost_of_not_meets (hs : NoneLost s) (ha : ¬ Meets s a)
    (h : s.step hash a = some s') : ¬ NoneLost s' := by
  cases a with
  | fire busy =>
    obtain ⟨now, e, rest, hphase, ⟨-, rfl⟩ | ⟨hbusy, -⟩ | ⟨hbusy, -⟩⟩ := System.step_fire h
    · exact not_noneLost_of_given_up hs (by rw [hphase]; rfl)
    · exact absurd hbusy ha
    · exact absurd hbusy ha
  | lookAgain =>
    obtain ⟨now, e, rest, hphase, ⟨hfound, -⟩ | ⟨-, rfl⟩⟩ := System.step_lookAgain h
    · refine absurd (fun e' he' => ?_) ha
      rw [hphase] at he'
      rwa [List.mem_singleton.mp he']
    · exact not_noneLost_of_given_up hs (by rw [hphase]; rfl)
  | _ => exact absurd trivial ha

end Steps

/-! ## Runs -/

/-- The scheduler is between two ticks and has not seen a timer elapse. -/
structure Initial (s : System) : Prop where
  phase : ∃ now, s.phase = .firing now []
  elapsed : s.elapsed = []
  recorded : s.recorded = []
  attempted : s.attempted = []

theorem Initial.noneLost {s : System} (h : Initial s) : NoneLost s := by
  obtain ⟨now, hphase⟩ := h.phase
  refine ⟨?_, ?_⟩
  · rw [h.elapsed, h.recorded, hphase]
    rfl
  · rw [h.recorded, h.attempted, hphase]
    rfl

/-- No elapse of a run is lost exactly if no fire finds the lock busy, or its target missing
    both times that it looks. -/
theorem noneLost_iff {hash : Text → Bool → ℕ} {s₀ t : System} (h₀ : Initial s₀)
    {as : List Action} (hrun : run (System.step hash) s₀ as = some t) :
    (∀ before after s, as = before ++ after → run (System.step hash) s₀ before = some s →
      NoneLost s) ↔ RunMeets (System.step hash) Meets s₀ as :=
  run_forall_iff (fun _ hs => hs) (fun _ _ _ => NoneLost.step)
    (fun _ _ _ => not_noneLost_of_not_meets) as h₀.noneLost hrun

/-! ## A timer that elapses once -/

section Once

variable {hash : Text → Bool → ℕ} {conf : TimerConfig} {timerName : Text} {clocks : Clocks}
  {lastFired : Instants}

/-- A timer without a recurring source that is recorded as fired does not elapse again, but for a
    change of the clock or the timezone. -/
theorem shouldFireTimer_recorded (hconf : conf.recurring = false)
    (hclock : (conf.onClockChange && clocks.clockChanged) = false)
    (htimezone : (conf.onTimezoneChange && clocks.timezoneChanged) = false)
    (hlast : (lastFired.lookup timerName).isSome) :
    shouldFireTimer hash conf timerName clocks lastFired = false := by
  unfold TimerConfig.recurring at hconf
  simp only [Bool.or_eq_false_iff, Bool.not_eq_eq_eq_not, Bool.not_false, List.isEmpty_iff]
    at hconf
  obtain ⟨last, hlast⟩ := Option.isSome_iff_exists.mp hlast
  unfold shouldFireTimer
  simp [hconf, hclock, htimezone, hlast]

end Once

/-- `a.timer`, with `OnBootSec=0`. -/
def bootConf : TimerConfig := { onBootSec := [0], unit := "a.service".toList }

/-- `a.timer` runs; it has elapsed at an instant or not. -/
def bootTable (lastTriggerUsec : Option ℕ) : UnitTable :=
  [⟨"a.timer".toList, .started .running, .timer bootConf lastTriggerUsec⟩,
    ⟨"a.service".toList, .neverStarted, .other⟩]

def bootSystem : System := { unitTable := bootTable none }

def bootElapse : Elapse := ⟨"a.timer".toList, "a.service".toList⟩

def readClocks (now : ℕ) : Clocks := { now := now, wall := now }

theorem initial_bootSystem : Initial bootSystem := ⟨⟨0, rfl⟩, rfl, rfl, rfl⟩

/-- A tick that meets a busy lock, and one that fires. -/
def bootRun : List Action :=
  [.tick (readClocks 5) true, .tick (readClocks 6) false, .record 6, .fire false]

theorem noneLost_bootSystem :
    RunMeets (System.step fun _ _ => 0) Meets bootSystem bootRun ∧
      ∀ before after s, bootRun = before ++ after →
        run (System.step fun _ _ => 0) bootSystem before = some s → NoneLost s := by
  have hrun : (run (System.step fun _ _ => 0) bootSystem bootRun).isSome := by
    decide
  obtain ⟨t, ht⟩ := Option.isSome_iff_exists.mp hrun
  have hmeets : RunMeets (System.step fun _ _ => 0) Meets bootSystem bootRun := by
    decide
  exact ⟨hmeets, (noneLost_iff initial_bootSystem ht).mpr hmeets⟩

/-- What is left when `fire_timer_target` meets a busy lock. -/
def lostSystem (now : ℕ) : System where
  unitTable := bootTable (some 0)
  lastFired := (∅ : Instants).insert "a.timer".toList 5
  phase := .firing now []
  elapsed := [bootElapse]
  recorded := [bootElapse]

theorem step_lostSystem (now : ℕ) (clocks : Clocks) :
    (lostSystem now).step (fun _ _ => 0) (.tick clocks false) = some (lostSystem clocks.now) := by
  have hfire : shouldFireTimer (fun _ _ => 0) bootConf "a.timer".toList clocks
      (lostSystem now).lastFired = false :=
    shouldFireTimer_recorded rfl rfl rfl rfl
  have hcollect : (lostSystem now).collect (fun _ _ => 0) clocks =
      ⟨(lostSystem now).lastFired, ∅, []⟩ := by
    show Collected.fireIfElapsed (fun _ _ => 0) clocks bootConf "a.timer".toList
      ⟨(lostSystem now).lastFired, ∅, []⟩ = _
    rw [Collected.fireIfElapsed, if_neg (by rw [hfire]; exact Bool.false_ne_true)]
  show some ((lostSystem now).startTick (fun _ _ => 0) clocks) = _
  rw [System.startTick, hcollect]
  rfl

/-- The states of a scheduler that ticks on after that. -/
def lostStates : ℕ → System
  | 0 => bootSystem
  | 1 => bootSystem.startTick (fun _ _ => 0) (readClocks 5)
  | 2 => (bootSystem.startTick (fun _ _ => 0) (readClocks 5)).record 5 bootElapse [] 5
  | n + 3 => lostSystem (n + 5)

def lostSchedule : ℕ → Action
  | 0 => .tick (readClocks 5) false
  | 1 => .record 5
  | 2 => .fire true
  | n + 3 => .tick (readClocks (n + 6)) false

theorem step_lostStates (n : ℕ) :
    (lostStates n).step (fun _ _ => 0) (lostSchedule n) = some (lostStates (n + 1)) := by
  match n with
  | 0 => rfl
  | 1 => rfl
  | 2 => rfl
  | n + 3 => exact step_lostSystem _ _

/-- A one-shot timer whose only fire meets a busy lock never starts its target. -/
theorem busy_fire_loses_elapse : ¬ ∀ (hash : Text → Bool → ℕ) (schedule : ℕ → Action)
    (states : ℕ → System), Initial (states 0) →
      (∀ n, (states n).step hash (schedule n) = some (states (n + 1))) →
        ∀ n, ∀ e ∈ (states n).elapsed, ∃ m, e ∈ (states m).attempted.map Prod.fst := by
  intro h
  obtain ⟨m, hm⟩ := h _ lostSchedule lostStates initial_bootSystem step_lostStates 3 bootElapse
    (List.mem_singleton_self _)
  have hnone : (lostStates m).attempted = [] := by
    match m with
    | 0 => rfl
    | 1 => rfl
    | 2 => rfl
    | m + 3 => rfl
  rw [hnone] at hm
  cases hm

end OxidizedSystemd.Timers
