import OxidizedSystemd.Jobs.Registry
import OxidizedSystemd.Lib.Run
import OxidizedSystemd.Lib.Text
import OxidizedSystemd.Units.StartSubgraph

/-!
# The activation walk

Model of the walk that starts the units of a subgraph
(`unitset_manipulation/activate.rs`): `unstarted_deps`, `activate_unit`,
`activate_slice_hierarchy`, `find_startable_units`, `activate_units_recursive`
and the passes of `activate_needed_units_with_source`, with `Unit::activate`
and `Unit::deactivate` (`units/unit.rs`) as far as they read and write statuses.

Workers of a thread pool run at the same time. A `Job` is the rest of what one
worker has to do, and a step of the walk is one access of one worker to a
status, so that every interleaving of the workers is a run.

* `step`: one access of a worker, a write by a thread outside the walk, or the
  dispatcher releasing the before-chain of a start that was parked.
* `Job.effect`: what a worker reads, writes and goes on with.
* `Pass`: one pass of the sweep, from its first look at the units until the pool
  has no job left.
* `Sweeps`: the passes, with the answer whether the last of them started nothing.
* `Phase.effect_cases`: what a step of a worker can do with a unit.

What the rest of the program answers (whether assertions and conditions hold, how
the activation of a type of unit ends) is in the actions.
-/

namespace OxidizedSystemd.Units

open OxidizedSystemd.Jobs (ActivationSource)

/-! ## Statuses in the table -/

/-- `UnitStatus::is_started` (`units/status.rs`, lines 73–76). -/
def UnitStatus.isStarted : UnitStatus → Bool
  | .started _ => true
  | _ => false

namespace UnitTable

variable {t : UnitTable} {id x : UnitId} {s : UnitStatus}

/-- The status of a loaded unit. -/
def status (t : UnitTable) (id : UnitId) : Option UnitStatus := (t.get id).map (·.common.status)

/-- `*unit.common.status.write() = s` for a loaded unit. -/
def setStatus (t : UnitTable) (id : UnitId) (s : UnitStatus) : UnitTable :=
  t.modify id fun u => { u with common := { u.common with status := s } }

/-- `status.is_started()`, false for a unit that is not loaded. -/
def started (t : UnitTable) (id : UnitId) : Bool := (t.status id).any UnitStatus.isStarted

theorem status_eq_none_iff : t.status id = none ↔ id ∉ t.ids := by
  rw [status, Option.map_eq_none_iff, get_eq_none_iff]

theorem mem_ids_of_status (h : t.status id = some s) : id ∈ t.ids := by
  by_contra hnot
  rw [status_eq_none_iff.mpr hnot] at h
  cases h

theorem started_iff : t.started id = true ↔ ∃ s, t.status id = some (.started s) := by
  rw [started, Option.any_eq_true]
  constructor
  · rintro ⟨s, hs, hstarted⟩
    cases s with
    | started s => exact ⟨s, hs⟩
    | _ => cases hstarted
  · rintro ⟨s, hs⟩
    exact ⟨_, hs, rfl⟩

@[simp] theorem ids_setStatus (t : UnitTable) (id : UnitId) (s : UnitStatus) :
    (t.setStatus id s).ids = t.ids := ids_modify t id _

theorem status_setStatus (t : UnitTable) (id x : UnitId) (s : UnitStatus) :
    (t.setStatus id s).status x = if x = id ∧ id ∈ t.ids then some s else t.status x := by
  rw [status, setStatus, get_modify, Option.map_map]
  by_cases hx : x = id
  · subst hx
    by_cases hmem : x ∈ t.ids
    · obtain ⟨u, hu⟩ := exists_get_of_mem hmem
      simp [hu, hmem]
    · simp [hmem, get_eq_none_iff.mpr hmem, status]
  · simp [hx, status, Function.comp_def]

theorem status_setStatus_of_ne (hx : x ≠ id) : (t.setStatus id s).status x = t.status x := by
  rw [status_setStatus, if_neg fun h => hx h.1]

theorem status_setStatus_self (hid : id ∈ t.ids) : (t.setStatus id s).status id = some s := by
  rw [status_setStatus, if_pos ⟨rfl, hid⟩]

@[simp] theorem deps_setStatus (t : UnitTable) (id x : UnitId) (s : UnitStatus) :
    (t.setStatus id s).deps x = t.deps x := by
  rw [deps, deps, setStatus, get_modify]
  cases t.get x with
  | none => rfl
  | some u => by_cases hx : x = id <;> simp [hx]

@[simp] theorem specific_setStatus (t : UnitTable) (id x : UnitId) (s : UnitStatus) :
    (t.setStatus id s).specific x = t.specific x := by
  rw [specific, specific, setStatus, get_modify]
  cases t.get x with
  | none => rfl
  | some u => by_cases hx : x = id <;> simp [hx]

/-- `unit_table.values().find(|u| u.id.name == name)`, without its status. -/
def named (t : UnitTable) (name : String) : Option UnitId := t.ids.find? (·.name = name)

end UnitTable

/-! ## When a unit may start -/

namespace Dependencies

/-- `required`: the unit has to be started. -/
def isRequired (d : Dependencies) (elem : UnitId) : Bool := elem ∈ d.requires || elem ∈ d.bindsTo

/-- `pulled`: the unit has to be over with its start. -/
def isPulled (d : Dependencies) (elem : UnitId) : Bool := elem ∈ d.wants || elem ∈ d.upholds

/-- The `ready` of `unstarted_deps` (lines 305–341) for a unit with this status. -/
def ready (d : Dependencies) (activationSet : Option (List UnitId)) (elem : UnitId) :
    UnitStatus → Bool := fun status =>
  if d.isRequired elem then status.isStarted
  else if d.isPulled elem then status.isStarted || status.isStopped
  else match status with
    | .neverStarted => match activationSet with
      | some set => decide (elem ∉ set)
      | none => true
    | .starting => false
    | _ => true

/-- The `ready` of `state_transition_starting` (`units/unit.rs`, lines 1605–1638), which differs. -/
def readyToStart (d : Dependencies) (elem : UnitId) (status : UnitStatus) : Bool :=
  if d.isRequired elem then
    status.isStarted || status = .stopped .stoppedFinal || status = .stopped .conditionSkipped
  else if d.isPulled elem then status ≠ .neverStarted
  else status ≠ .starting

end Dependencies

/-- Whether `unstarted_deps` keeps `elem` (lines 253–352). A required device that udev has not
    announced is not loaded. -/
def UnitTable.blocks (t : UnitTable) (activationSet : Option (List UnitId)) (id elem : UnitId) :
    Bool :=
  match t.status elem with
  | none => (t.deps id).isRequired elem && elem.kind = .device
  | some status => !(t.deps id).ready activationSet elem status

/-- `unstarted_deps` (lines 238–354). -/
def unstartedDeps (id : UnitId) (t : UnitTable) (activationSet : Option (List UnitId)) :
    List UnitId := (t.deps id).after.filter (t.blocks activationSet id)

/-- `find_startable_units` (lines 1163–1187). -/
def findStartableUnits (ids : List UnitId) (t : UnitTable) (activationSet : Option (List UnitId)) :
    List UnitId :=
  ids.filter fun id => id.kind ≠ .device && (unstartedDeps id t activationSet).isEmpty

/-- The ids for which `state_transition_starting` refuses (`units/unit.rs`, lines 1595–1664);
    `acquire_locks` leaves out what is not loaded. -/
def transitionBlockers (t : UnitTable) (id : UnitId) : List UnitId :=
  (t.deps id).after.filter fun elem =>
    (t.status elem).any fun status => !(t.deps id).readyToStart elem status

namespace Activation

open OxidizedSystemd.Lib

/-- `ActivationSource::bypasses_stopped_guard` (lines 392–397). -/
def bypassesStoppedGuard (source : ActivationSource) : Bool :=
  source = .socketActivation || source = .triggerActivation

/-- `effective_source` of a worker (lines 1369–1372). -/
def effectiveSource : ActivationSource → ActivationSource
  | .regular => .deferNotifyWait
  | other => other

/-- Whether `activate_unit` returns at its first look at the status (lines 430–456). -/
def returnsEarly (source : ActivationSource) : UnitStatus → Bool
  | .started _ | .starting => true
  | .stopped _ => !bypassesStoppedGuard source
  | .neverStarted | .stopping | .restarting => false

/-- The names that `activate_slice_hierarchy` goes through (lines 702–730) from `current` on, whose
    base has `dashes` dashes. -/
def sliceNames : ℕ → String → List String
  | 0, current => if current = "-.slice" then [current] else [current, "-.slice"]
  | dashes + 1, current =>
    if current = "-.slice" then [current]
    else
      let base := (stripSuffix ".slice".toList current.toList).getD current.toList
      match rsplitOnce '-' base with
      | some (parent, _) => current :: sliceNames dashes (String.ofList parent ++ ".slice")
      | none => [current, "-.slice"]

/-- The names for a unit (lines 691–700): only services have a slice. -/
def sliceHierarchy : Specific → List String
  | .service conf =>
    match conf.slice with
    | some name => sliceNames (name.toList.count '-') name
    | none => []
  | _ => []

/-! ## Jobs -/

/-- Where a worker is with one unit: in the closure of `activate_units_recursive`
    (lines 1360–1495), `activate_unit` (lines 403–681), `Unit::activate` (`units/unit.rs`,
    lines 1750–1930) or `Unit::deactivate` (lines 1934–2027). -/
inductive Phase
  /-- Before the first look at the status. -/
  | guard
  /-- `Requisite=`: units to look at, and those that were not active. -/
  | requisite (rest unmet : List UnitId)
  /-- Assertions, then conditions. -/
  | checks
  /-- Conflicting units to look at. -/
  | conflicts (rest : List UnitId)
  /-- In `deactivate` of a conflicting unit, before its state is locked. -/
  | deactivate (conflict : UnitId) (rest : List UnitId)
  /-- The same after the status is `Stopping`. -/
  | stopping (conflict : UnitId) (rest : List UnitId)
  /-- Before `was_already_started` is read. -/
  | record
  /-- In `activate`, before the state of the unit is locked. -/
  | activate (wasAlreadyStarted : Bool)
  /-- Before `state_transition_starting`. -/
  | transition (wasAlreadyStarted : Bool)
  /-- The status is `Starting`. -/
  | running (wasAlreadyStarted : Bool)
  /-- Slices to mark as started. -/
  | slices (rest : List String)
  /-- `activate_unit` has returned the units to go on with. -/
  | settled (next : List UnitId)
  deriving DecidableEq, Repr

/-- What a worker still has to do. -/
inductive Job
  /-- `activate_units_recursive` with the ids to check and the startable ones so far. -/
  | scan (ids startables : List UnitId)
  /-- The same within `unstarted_deps` of `id`: dependencies to look at, and those kept. -/
  | check (id : UnitId) (deps unstarted ids startables : List UnitId)
  /-- The closure for one startable unit. -/
  | unit (id : UnitId) (phase : Phase)
  deriving DecidableEq, Repr

/-- Whether the job holds the lock on the state of a unit. -/
def Job.holds : Job → UnitId → Bool
  | .unit id (.transition _), x | .unit id (.running _), x => id = x
  | .unit _ (.stopping conflict _), x => conflict = x
  | _, _ => false

/-- How the activation of a type of unit ends, with the lock held. -/
inductive Outcome
  | started (status : StatusStarted)
  | conditionSkipped
  /-- The process runs or is to run, and the rest is left to the dispatcher. -/
  | deferred
  | failed
  deriving DecidableEq, Repr

/-- What the types of units can end with. -/
def Outcome.Possible : Specific → Outcome → Bool
  | .service _, _ => true
  | .socket _, o | .mount _, o | .swap, o => o = .started .running || o = .failed
  | .target, o | .slice, o | .device, o | .timer, o | .path, o => o = .started .running

/-- The status that is left. A service that was over before is not marked as started, and neither
    is a unit without a process that another thread has marked. -/
def Outcome.status : Outcome → Specific → UnitStatus → UnitStatus
  | .deferred, _, current => current
  | .conditionSkipped, _, _ => .stopped .conditionSkipped
  | .failed, _, _ => .stopped .stoppedUnexpected
  | .started .waitingForSocket, _, _ => .started .waitingForSocket
  | .started .running, .service _, current =>
    if current = .starting ∨ current = .restarting then .started .running else current
  | .started .running, .socket _, _ | .started .running, .mount _, _
  | .started .running, .swap, _ => .started .running
  | .started .running, _, current => if current.isStarted then current else .started .running

/-- What the rest of the program answers to a worker. -/
structure Answer where
  /-- The `Debug` text of the first assertion that fails. -/
  failedAssertion : Option String := none
  conditions : Bool := true
  outcome : Outcome := .started .running
  deriving DecidableEq, Repr

/-- The reasons of `enum UnitOperationErrorReason` (lines 148–156) that the walk makes. -/
inductive ErrorReason
  | genericStartError (text : String)
  | dependencyError (ids : List UnitId)
  deriving DecidableEq, Repr

/-- `struct UnitOperationError` (lines 141–145); the name is that of the id. -/
structure UnitOperationError where
  reason : ErrorReason
  unitId : UnitId
  deriving DecidableEq, Repr

/-- What one step of a worker does: a status it writes, the jobs it leaves, a start it parks and an
    error it records. -/
structure Effect where
  write : Option (UnitId × UnitStatus) := none
  jobs : List Job := []
  parked : List (UnitId × List UnitId) := []
  errors : List UnitOperationError := []
  deriving DecidableEq, Repr

/-- Go on with the unit. -/
def goto (id : UnitId) (phase : Phase) : Effect := { jobs := [.unit id phase] }

/-- Write a status, then go on with the unit. -/
def writeThen (x : UnitId) (s : UnitStatus) (id : UnitId) (phase : Phase) : Effect :=
  { write := some (x, s), jobs := [.unit id phase] }

/-- A `DependencyError` ends the job without a trace (lines 1478–1484). -/
def refuse : Effect := {}

/-- The walk: the table, the jobs of the pool, the parked starts with their before-chains, and the
    errors. -/
structure Walk where
  table : UnitTable
  jobs : List Job
  parked : List (UnitId × List UnitId) := []
  errors : List UnitOperationError := []

/-- `needed_ids`, which is `filter_ids` too, and `source`. -/
structure Config where
  neededIds : List UnitId
  source : ActivationSource

/-! ## The steps of a worker -/

section Effects

variable (cfg : Config) (t : UnitTable) (locked : UnitId → Bool) (id : UnitId) (a : Answer)

/-- The slices, when a unit is started, or nothing for one that was already (lines 617–650). -/
def afterStart (was : Bool) : Phase :=
  if was then .settled [] else .slices ((t.specific id).elim [] sliceHierarchy)

/-- The second look at the status, with the state locked (`units/unit.rs`, lines 1779–1808). -/
def secondLook (was : Bool) : Effect :=
  match t.status id with
  | some (.started .waitingForSocket) =>
    if effectiveSource cfg.source = .socketActivation then goto id (.transition was)
    else goto id (afterStart t id was)
  | some (.started .running) => goto id (afterStart t id was)
  | some (.stopped .stoppedUnexpected) =>
    if effectiveSource cfg.source = .socketActivation then goto id (.transition was)
    else goto id (.settled [])
  | _ => goto id (.transition was)

/-- What `activate_unit` returns for an outcome (lines 599–680). -/
def afterOutcome (was : Bool) : Outcome → Phase
  | .failed => .settled (t.deps id).before
  | .deferred => if was then .settled [] else .settled (t.deps id).before
  | .started _ | .conditionSkipped => afterStart t id was

/-- One step with a unit. -/
def Phase.effect : Phase → Option Effect
  | .guard =>
    match t.status id with
    | none =>
      let reason := .genericStartError "Tried to activate a unit that can not be found"
      some { errors := [⟨reason, id⟩] }
    | some status =>
      if returnsEarly (effectiveSource cfg.source) status then some (goto id (.settled []))
      else some (goto id (.requisite (t.deps id).requisite []))
  | .requisite (req :: rest) unmet =>
    some (goto id (.requisite rest (if t.started req then unmet else unmet ++ [req])))
  | .requisite [] unmet => some (if unmet = [] then goto id .checks else refuse)
  | .checks =>
    match a.failedAssertion with
    | some text =>
      some { write := some (id, .stopped .stoppedUnexpected)
             errors := [⟨.genericStartError ("Assertion failed: " ++ text), id⟩] }
    | none =>
      if a.conditions then
        some (goto id (.conflicts ((t.deps id).conflicts ++ (t.deps id).conflictedBy)))
      else some (writeThen id (.stopped .stoppedFinal) id (.settled (t.deps id).before))
  | .conflicts (conflict :: rest) =>
    if t.started conflict then some (goto id (.deactivate conflict rest))
    else some (goto id (.conflicts rest))
  | .conflicts [] => some (goto id .record)
  | .deactivate conflict rest =>
    if locked conflict then none
    else match t.status conflict with
      | none | some (.stopped _) => some (goto id (.conflicts rest))
      | _ =>
        if (t.deps conflict).killBeforeThis.any t.started then some (goto id (.conflicts rest))
        else some (writeThen conflict .stopping id (.stopping conflict rest))
  | .stopping conflict rest =>
    some (writeThen conflict (.stopped .stoppedFinal) id (.conflicts rest))
  | .record => some (goto id (.activate (t.started id)))
  | .activate was => if locked id then none else some (secondLook cfg t id was)
  | .transition was =>
    if transitionBlockers t id = [] then some (writeThen id .starting id (.running was))
    else some refuse
  | .running was =>
    match t.specific id, t.status id with
    | some specific, some current =>
      if a.outcome.Possible specific then
        some (writeThen id (a.outcome.status specific current) id (afterOutcome t id was a.outcome))
      else none
    | _, _ => none
  | .slices (name :: rest) =>
    match t.named name with
    | some slice =>
      if t.started slice then some (goto id (.slices rest))
      else some (writeThen slice (.started .running) id (.slices rest))
    | none => some (goto id (.slices rest))
  | .slices [] => some (goto id (.settled (t.deps id).before))
  | .settled next =>
    if t.status id = some .starting then some { parked := [(id, next)] }
    else some { jobs := [.scan next []] }

/-- One step of a worker. -/
def Job.effect : Job → Option Effect
  | .scan [] startables =>
    some { jobs := (startables.filter (· ∈ cfg.neededIds)).map fun id => .unit id .guard }
  | .scan (id :: ids) startables =>
    if id.kind = .device then some { jobs := [.scan ids startables] }
    else some { jobs := [.check id (t.deps id).after [] ids startables] }
  | .check id (elem :: deps) unstarted ids startables =>
    let unstarted :=
      if t.blocks (some cfg.neededIds) id elem then unstarted ++ [elem] else unstarted
    some { jobs := [.check id deps unstarted ids startables] }
  | .check id [] unstarted ids startables =>
    some { jobs := [.scan ids (if unstarted = [] then startables ++ [id] else startables)] }
  | .unit id phase => phase.effect cfg t locked id a

end Effects

/-! ## Runs -/

/-- What can happen. -/
inductive Action
  | work (job : Job) (a : Answer)
  /-- A thread outside the walk writes a status: the exit handler, a control command, udev. -/
  | env (id : UnitId) (s : UnitStatus)
  /-- The dispatcher is done with a parked start and goes on with its before-chain. -/
  | release (entry : UnitId × List UnitId)

/-- Carry out what a worker does. -/
def Walk.carryOut (s : Walk) (job : Job) (e : Effect) : Walk where
  table := e.write.elim s.table fun w => s.table.setStatus w.1 w.2
  jobs := e.jobs ++ s.jobs.erase job
  parked := s.parked ++ e.parked
  errors := s.errors ++ e.errors

/-- One step. -/
def step (cfg : Config) (s : Walk) : Action → Option Walk
  | .work job a =>
    if job ∈ s.jobs then
      (job.effect cfg s.table (fun id => s.jobs.any (Job.holds · id)) a).map (s.carryOut job)
    else none
  | .env id status => some { s with table := s.table.setStatus id status }
  | .release entry =>
    if entry ∈ s.parked then
      some { s with jobs := .scan entry.2 [] :: s.jobs, parked := s.parked.erase entry }
    else none

/-- A pass begins with the units that `find_startable_units` finds (lines 1070–1082). -/
def passStart (cfg : Config) (t : UnitTable) : Walk where
  table := t
  jobs := [.scan (findStartableUnits cfg.neededIds t (some cfg.neededIds)) []]

/-- `count_started` (lines 1056–1067). -/
def countStarted (cfg : Config) (t : UnitTable) : ℕ := cfg.neededIds.countP t.started

/-- A pass is over when the pool has no job left (`tpool.join()`). -/
def Pass (cfg : Config) (ok : Walk → Action → Prop) (t t' : UnitTable) : Prop :=
  ∃ as s, run (step cfg) (passStart cfg t) as = some s ∧
    RunMeets (step cfg) ok (passStart cfg t) as ∧ s.jobs = [] ∧ s.table = t'

/-- The loop over the passes (lines 1069–1106) with the number of passes left, from the first table
    to the last; it is told whether the last pass was one that started nothing. -/
inductive Sweeps (cfg : Config) (ok : Walk → Action → Prop) :
    ℕ → UnitTable → UnitTable → Bool → Prop
  | fixpoint {n : ℕ} {t t' : UnitTable} (h : Pass cfg ok t t')
      (hcount : countStarted cfg t' = countStarted cfg t) : Sweeps cfg ok (n + 1) t t' true
  | again {n : ℕ} {t t' t'' : UnitTable} {b : Bool} (h : Pass cfg ok t t')
      (hcount : countStarted cfg t' ≠ countStarted cfg t) (hrest : Sweeps cfg ok n t' t'' b) :
      Sweeps cfg ok (n + 1) t t'' b
  | outOfPasses {t : UnitTable} : Sweeps cfg ok 0 t t false

/-! ## What a step of a worker can do -/

section Moves

variable (cfg : Config) (t : UnitTable) (id : UnitId) (a : Answer)

/-- The steps after which the worker goes on with the unit: the phase before, the status that is
    written, and the phase after. -/
inductive Move : Phase → Option (UnitId × UnitStatus) → Phase → Prop
  | known {status : UnitStatus} (hstatus : t.status id = some status)
      (hearly : returnsEarly (effectiveSource cfg.source) status = true) :
      Move .guard none (.settled [])
  | begin {status : UnitStatus} (hstatus : t.status id = some status)
      (hearly : returnsEarly (effectiveSource cfg.source) status = false) :
      Move .guard none (.requisite (t.deps id).requisite [])
  | require (req : UnitId) (rest unmet : List UnitId) :
      Move (.requisite (req :: rest) unmet) none
        (.requisite rest (if t.started req then unmet else unmet ++ [req]))
  | met : Move (.requisite [] []) none .checks
  | passed (hassert : a.failedAssertion = none) :
      Move .checks none (.conflicts ((t.deps id).conflicts ++ (t.deps id).conflictedBy))
  | skipped (hassert : a.failedAssertion = none) :
      Move .checks (some (id, .stopped .stoppedFinal)) (.settled (t.deps id).before)
  | conflict {conflict : UnitId} (rest : List UnitId) (hstarted : t.started conflict = true) :
      Move (.conflicts (conflict :: rest)) none (.deactivate conflict rest)
  | pass (conflict : UnitId) (rest : List UnitId) :
      Move (.conflicts (conflict :: rest)) none (.conflicts rest)
  | clear : Move (.conflicts []) none .record
  | keep (conflict : UnitId) (rest : List UnitId) :
      Move (.deactivate conflict rest) none (.conflicts rest)
  | stop (conflict : UnitId) (rest : List UnitId) :
      Move (.deactivate conflict rest) (some (conflict, .stopping)) (.stopping conflict rest)
  | stopped (conflict : UnitId) (rest : List UnitId) :
      Move (.stopping conflict rest) (some (conflict, .stopped .stoppedFinal)) (.conflicts rest)
  | record : Move .record none (.activate (t.started id))
  | active (was : Bool) (hstarted : t.started id = true) :
      Move (.activate was) none (afterStart t id was)
  | failed (was : Bool) (hstatus : t.status id = some (.stopped .stoppedUnexpected)) :
      Move (.activate was) none (.settled [])
  | lock (was : Bool) : Move (.activate was) none (.transition was)
  | start (was : Bool) (hready : transitionBlockers t id = []) :
      Move (.transition was) (some (id, .starting)) (.running was)
  | ran (was : Bool) {specific : Specific} {current : UnitStatus}
      (hspecific : t.specific id = some specific) (hcurrent : t.status id = some current)
      (hpossible : a.outcome.Possible specific = true) :
      Move (.running was) (some (id, a.outcome.status specific current))
        (afterOutcome t id was a.outcome)
  | mark {name : String} {slice : UnitId} (rest : List String) (hnamed : t.named name = some slice)
      (hstarted : t.started slice = false) :
      Move (.slices (name :: rest)) (some (slice, .started .running)) (.slices rest)
  | marked (name : String) (rest : List String) : Move (.slices (name :: rest)) none (.slices rest)
  | done : Move (.slices []) none (.settled (t.deps id).before)

/-- The steps that end the job: the phase before, the status that is written, and what is parked. -/
inductive Ending : Phase → Option (UnitId × UnitStatus) → List (UnitId × List UnitId) → Prop
  | missing (hstatus : t.status id = none) : Ending .guard none []
  | unmet {unmet : List UnitId} (hunmet : unmet ≠ []) : Ending (.requisite [] unmet) none []
  | asserted {text : String} (hassert : a.failedAssertion = some text) :
      Ending .checks (some (id, .stopped .stoppedUnexpected)) []
  | blocked (was : Bool) (hblocked : transitionBlockers t id ≠ []) :
      Ending (.transition was) none []
  | parked (next : List UnitId) (hstatus : t.status id = some .starting) :
      Ending (.settled next) none [(id, next)]

end Moves

variable {cfg : Config} {t : UnitTable} {locked : UnitId → Bool} {id : UnitId} {a : Answer}
  {phase : Phase} {e : Effect}

/-- A worker goes on with the unit, ends its job, or goes on with the before-chain. -/
theorem Phase.effect_cases (h : phase.effect cfg t locked id a = some e) :
    (∃ p, e.jobs = [.unit id p] ∧ e.parked = [] ∧ Move cfg t id a phase e.write p) ∨
      (e.jobs = [] ∧ Ending t id a phase e.write e.parked) ∨
        ∃ next, phase = .settled next ∧ e.jobs = [.scan next []] ∧ e.parked = [] ∧
          e.write = none := by
  cases phase with
  | guard =>
    rw [Phase.effect] at h
    split at h
    · rename_i hstatus
      cases h
      exact .inr (.inl ⟨rfl, .missing hstatus⟩)
    · rename_i status hstatus
      split_ifs at h with hearly <;> cases h
      · exact .inl ⟨_, rfl, rfl, .known hstatus hearly⟩
      · exact .inl ⟨_, rfl, rfl, .begin hstatus (Bool.eq_false_iff.mpr hearly)⟩
  | requisite rest unmet =>
    cases rest with
    | nil =>
      rw [Phase.effect] at h
      split_ifs at h with hunmet <;> cases h
      · subst hunmet
        exact .inl ⟨_, rfl, rfl, .met⟩
      · exact .inr (.inl ⟨rfl, .unmet hunmet⟩)
    | cons req rest =>
      cases h
      exact .inl ⟨_, rfl, rfl, .require req rest unmet⟩
  | checks =>
    rw [Phase.effect] at h
    split at h
    · rename_i text hassert
      cases h
      exact .inr (.inl ⟨rfl, .asserted hassert⟩)
    · rename_i hassert
      split_ifs at h <;> cases h
      · exact .inl ⟨_, rfl, rfl, .passed hassert⟩
      · exact .inl ⟨_, rfl, rfl, .skipped hassert⟩
  | conflicts rest =>
    cases rest with
    | nil =>
      cases h
      exact .inl ⟨_, rfl, rfl, .clear⟩
    | cons conflict rest =>
      rw [Phase.effect] at h
      split_ifs at h with hstarted <;> cases h
      · exact .inl ⟨_, rfl, rfl, .conflict rest hstarted⟩
      · exact .inl ⟨_, rfl, rfl, .pass conflict rest⟩
  | deactivate conflict rest =>
    rw [Phase.effect] at h
    split at h
    · cases h
    · split at h
      · cases h
        exact .inl ⟨_, rfl, rfl, .keep conflict rest⟩
      · cases h
        exact .inl ⟨_, rfl, rfl, .keep conflict rest⟩
      · split_ifs at h <;> cases h
        · exact .inl ⟨_, rfl, rfl, .keep conflict rest⟩
        · exact .inl ⟨_, rfl, rfl, .stop conflict rest⟩
  | stopping conflict rest =>
    cases h
    exact .inl ⟨_, rfl, rfl, .stopped conflict rest⟩
  | record =>
    cases h
    exact .inl ⟨_, rfl, rfl, .record⟩
  | activate was =>
    rw [Phase.effect] at h
    split_ifs at h
    cases h
    rw [secondLook]
    split
    · rename_i hstatus
      have hstarted : t.started id = true := UnitTable.started_iff.mpr ⟨_, hstatus⟩
      split_ifs
      · exact .inl ⟨_, rfl, rfl, .lock was⟩
      · exact .inl ⟨_, rfl, rfl, .active was hstarted⟩
    · rename_i hstatus
      exact .inl ⟨_, rfl, rfl, .active was (UnitTable.started_iff.mpr ⟨_, hstatus⟩)⟩
    · rename_i hstatus
      split_ifs
      · exact .inl ⟨_, rfl, rfl, .lock was⟩
      · exact .inl ⟨_, rfl, rfl, .failed was hstatus⟩
    · exact .inl ⟨_, rfl, rfl, .lock was⟩
  | transition was =>
    rw [Phase.effect] at h
    split_ifs at h with hready <;> cases h
    · exact .inl ⟨_, rfl, rfl, .start was hready⟩
    · exact .inr (.inl ⟨rfl, .blocked was hready⟩)
  | running was =>
    rw [Phase.effect] at h
    split at h
    · rename_i specific current hspecific hcurrent
      split_ifs at h with hpossible
      cases h
      exact .inl ⟨_, rfl, rfl, .ran was hspecific hcurrent hpossible⟩
    · cases h
  | slices rest =>
    cases rest with
    | nil =>
      cases h
      exact .inl ⟨_, rfl, rfl, .done⟩
    | cons name rest =>
      rw [Phase.effect] at h
      split at h
      · rename_i slice hnamed
        split_ifs at h with hstarted <;> cases h
        · exact .inl ⟨_, rfl, rfl, .marked name rest⟩
        · exact .inl ⟨_, rfl, rfl, .mark rest hnamed (Bool.eq_false_iff.mpr hstarted)⟩
      · cases h
        exact .inl ⟨_, rfl, rfl, .marked name rest⟩
  | settled next =>
    rw [Phase.effect] at h
    split_ifs at h with hstarting <;> cases h
    · exact .inr (.inl ⟨rfl, .parked next hstarting⟩)
    · exact .inr (.inr ⟨next, rfl, rfl, rfl, rfl⟩)

end Activation

end OxidizedSystemd.Units
