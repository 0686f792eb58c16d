import OxidizedSystemd.Units.ActivationOrder

/-!
# The passes of the activation walk

A scan drops a unit that is not ready. It comes back with the before-chain of the dependency that
it waited for, unless that dependency was marked as started because a unit in its slice was.
This is why the walk is repeated until a pass starts nothing.

A quiet pass is one in which no other thread writes a status, no start is left to the dispatcher,
no assertion fails and no conflicting unit is stopped.

* `PassInv`: a unit that could start has a job ahead that will look at it, or a dependency of it
  was started in this pass.
* `sweep_complete`: a sweep of quiet passes ends with a pass that starts nothing, before its passes
  run out, and then each unit that was not started still has a dependency to wait for.
* `sweep_root_cause`: if `After=` has no cycle, a chain of waits leads from each such unit to a
  device or to a unit that has left `NeverStarted`.
-/

namespace OxidizedSystemd.Units.Activation

open OxidizedSystemd.Lib
open Relation (ReflTransGen)

variable {cfg : Config} {t t₀ t' : UnitTable} {locked : UnitId → Bool} {id x d : UnitId}
  {a : Answer} {job : Job} {phase : Phase} {e : Effect} {s s' : Walk} {status : UnitStatus}

/-! ## Quiet passes -/

/-- The answers and statuses of a quiet step with a unit. A unit that was started when the worker
    looked is not skipped by an `ExecCondition=` afterwards. -/
structure QuietUnit (t : UnitTable) (phase : Phase) (a : Answer) : Prop where
  assertion : a.failedAssertion = none
  deferred : a.outcome ≠ .deferred
  skipped : phase = .running true → a.outcome ≠ .conditionSkipped
  conflict : ∀ conflict rest, phase = .conflicts (conflict :: rest) → t.started conflict = false

/-- A step of a quiet pass. -/
def Quiet (s : Walk) : Action → Prop
  | .work (.unit _ phase) a => QuietUnit s.table phase a
  | .work _ _ => True
  | .env .. | .release _ => False

/-- Not in the middle of stopping a conflicting unit. -/
def Phase.Calm : Phase → Prop
  | .deactivate .. | .stopping .. => False
  | _ => True

/-- In a quiet pass the jobs are about needed units, stop nothing, and leave a unit that was started
    before the pass alone. -/
def CalmJob (cfg : Config) (t₀ : UnitTable) : Job → Prop
  | .unit id phase => id ∈ cfg.neededIds ∧ phase.Calm ∧
      (t₀.started id = true → phase = .guard ∨ phase = .settled [])
  | _ => True

theorem calm_afterStart (was : Bool) : (afterStart t id was).Calm := by
  rw [afterStart]
  split_ifs <;> trivial

theorem calm_afterOutcome (was : Bool) (o : Outcome) : (afterOutcome t id was o).Calm := by
  cases o with
  | failed => trivial
  | deferred =>
    rw [afterOutcome]
    split_ifs <;> trivial
  | started status => exact calm_afterStart was
  | conditionSkipped => exact calm_afterStart was

theorem Move.calm {p : Phase} {w : Option (UnitId × UnitStatus)} (h : Move cfg t id a phase w p)
    (hconflict : ∀ conflict rest, phase = .conflicts (conflict :: rest) →
      t.started conflict = false)
    (hcalm : phase.Calm) : p.Calm := by
  cases h with
  | conflict rest hstarted =>
    rw [hconflict _ rest rfl] at hstarted
    cases hstarted
  | stop conflict rest => exact hcalm
  | active was hstarted => exact calm_afterStart was
  | ran was hspecific hcurrent hpossible => exact calm_afterOutcome was a.outcome
  | _ => trivial

/-- A unit that was started before is left alone at the first look. -/
theorem Move.of_started {p : Phase} {w : Option (UnitId × UnitStatus)}
    (h : Move cfg t id a phase w p) (hstarted : t.started id = true)
    (hphase : phase = .guard ∨ phase = .settled []) : p = .settled [] ∧ w = none := by
  rcases hphase with rfl | rfl
  · cases h with
    | known hstatus hearly => exact ⟨rfl, rfl⟩
    | begin hstatus hearly =>
      obtain ⟨status, hstarted⟩ := UnitTable.started_iff.mp hstarted
      rw [hstarted] at hstatus
      cases hstatus
      cases hearly
  · cases h

/-- The statuses and jobs of a quiet pass. -/
structure CalmInv (cfg : Config) (t₀ : UnitTable) (s : Walk) : Prop where
  same : SameUnits t₀ s.table
  jobs : ∀ j ∈ s.jobs, CalmJob cfg t₀ j
  /-- What was started before the pass still is. -/
  started : ∀ d, t₀.started d = true → s.table.started d = true
  /-- Only needed units are made to start. -/
  starting : ∀ d, s.table.status d = some .starting → d ∉ cfg.neededIds →
    t₀.status d = some .starting

theorem calmInv_passStart (cfg : Config) (t : UnitTable) : CalmInv cfg t (passStart cfg t) where
  same := SameUnits.refl t
  jobs j hj := by
    rw [List.mem_singleton.mp hj]
    trivial
  started _ h := h
  starting _ h _ := h

theorem CalmJob.effect (h : CalmJob cfg t₀ job) (he : job.effect cfg t locked a = some e)
    (hquiet : ∀ id phase, job = .unit id phase → QuietUnit t phase a)
    (hstarted : ∀ d, t₀.started d = true → t.started d = true) :
    ∀ j ∈ e.jobs, CalmJob cfg t₀ j := by
  intro j hj
  cases job with
  | scan ids startables =>
    cases ids with
    | nil =>
      cases he
      obtain ⟨id, hid, rfl⟩ := List.mem_map.mp hj
      exact ⟨of_decide_eq_true (List.mem_filter.mp hid).2, trivial, fun _ => .inl rfl⟩
    | cons id ids =>
      rw [Job.effect] at he
      split_ifs at he <;> cases he <;> rw [List.mem_singleton.mp hj] <;> trivial
  | check id deps unstarted ids startables =>
    cases deps <;> cases he <;> rw [List.mem_singleton.mp hj] <;> trivial
  | unit id phase =>
    obtain ⟨hneeded, hcalm, hleave⟩ := h
    rcases Phase.effect_cases he with ⟨p, hjobs, -, hmove⟩ | ⟨hjobs, -⟩ | ⟨next, -, hjobs, -⟩ <;>
      rw [hjobs] at hj
    · rw [List.mem_singleton.mp hj]
      refine ⟨hneeded, hmove.calm (hquiet id phase rfl).conflict hcalm, fun h₀ => .inr ?_⟩
      exact (hmove.of_started (hstarted id h₀) (hleave h₀)).1
    · exact absurd hj List.not_mem_nil
    · rw [List.mem_singleton.mp hj]
      trivial

/-- A status that is written in a quiet step: of the unit of the job, which was not started before
    the pass, or of a slice that is not started. -/
theorem CalmJob.write (h : CalmJob cfg t₀ job) (he : job.effect cfg t locked a = some e)
    (hquiet : ∀ id phase, job = .unit id phase → QuietUnit t phase a)
    (hstarted : ∀ d, t₀.started d = true → t.started d = true)
    (hw : e.write = some (d, status)) :
    (∃ phase p, job = .unit d phase ∧ e.jobs = [.unit d p] ∧ d ∈ cfg.neededIds ∧
      t₀.started d = false ∧ Move cfg t d a phase (some (d, status)) p) ∨
    (t.started d = false ∧ status = .started .running ∧
      ∃ id name rest, job = .unit id (.slices (name :: rest))) := by
  obtain ⟨id, phase, rfl, hphase⟩ := Job.effect_unit he hw
  obtain ⟨hneeded, hcalm, hleave⟩ := h
  have hassert := (hquiet id phase rfl).assertion
  rcases Phase.effect_cases hphase with ⟨p, hjobs, -, hmove⟩ | ⟨-, hend⟩ | ⟨next, -, -, -, hnone⟩
  · rw [hw] at hmove
    have hown : d = id → (∃ phase' p, Job.unit id phase = .unit d phase' ∧ e.jobs = [.unit d p] ∧
        d ∈ cfg.neededIds ∧ t₀.started d = false ∧ Move cfg t d a phase' (some (d, status)) p) := by
      rintro rfl
      refine ⟨phase, p, rfl, hjobs, hneeded, Bool.eq_false_iff.mpr fun h₀ => ?_, hmove⟩
      cases (hmove.of_started (hstarted d h₀) (hleave h₀)).2
    cases hmove with
    | stop conflict rest => exact absurd hcalm not_false
    | stopped conflict rest => exact absurd hcalm not_false
    | mark rest hnamed hnot => exact .inr ⟨hnot, rfl, id, _, rest, rfl⟩
    | _ => exact .inl (hown rfl)
  · rw [hw] at hend
    generalize e.parked = entries at hend
    cases hend with
    | asserted h =>
      rw [hassert] at h
      cases h
  · rw [hw] at hnone
    cases hnone

/-- A quiet step is a step of a worker. -/
theorem quiet_work {act : Action} (hquiet : Quiet s act) (hs : step cfg s act = some s') :
    ∃ job a e, job ∈ s.jobs ∧
      job.effect cfg s.table (fun id => s.jobs.any (Job.holds · id)) a = some e ∧
      s' = s.carryOut job e ∧ ∀ id phase, job = .unit id phase → QuietUnit s.table phase a := by
  cases act with
  | work job a =>
    obtain ⟨hjob, e, he, rfl⟩ := step_work hs
    refine ⟨job, a, e, hjob, he, rfl, ?_⟩
    rintro id phase rfl
    exact hquiet
  | env id status => exact absurd hquiet not_false
  | release entry => exact absurd hquiet not_false

theorem CalmInv.preserved (h : CalmInv cfg t₀ s) {act : Action} (hquiet : Quiet s act)
    (hs : step cfg s act = some s') : CalmInv cfg t₀ s' := by
  have hsame := h.same.preserved hs
  obtain ⟨job, a, e, hjob, he, rfl, hunit⟩ := quiet_work hquiet hs
  have hcalm := h.jobs job hjob
  refine ⟨hsame, fun j hj => ?_, fun d h₀ => ?_, fun d hstarting hnot => ?_⟩
  · rcases List.mem_append.mp hj with hj | hj
    · exact hcalm.effect he hunit h.started j hj
    · exact h.jobs j (List.mem_of_mem_erase hj)
  · rcases status_carryOut job e d with heq | ⟨status, hw, -⟩
    · rw [UnitTable.started, heq]
      exact h.started d h₀
    · rcases hcalm.write he hunit h.started hw with ⟨_, _, _, _, _, hnot, _⟩ | ⟨hnot, -⟩
      · rw [h₀] at hnot
        cases hnot
      · rw [h.started d h₀] at hnot
        cases hnot
  · rcases status_carryOut job e d with heq | ⟨status, hw, heq⟩
    · exact h.starting d (heq ▸ hstarting) hnot
    · rcases hcalm.write he hunit h.started hw with ⟨_, _, _, _, hneeded, _⟩ | ⟨-, rfl, -⟩
      · exact absurd hneeded hnot
      · rw [heq] at hstarting
        cases hstarting

/-! ## No unit is lost -/

/-- What is assumed of a unit: it is needed, loaded and no device, has no `Requisite=`, and its
    `After=` list mirrors the `Before=` lists. What it pulls in is needed. -/
structure Sweepable (cfg : Config) (t : UnitTable) (x : UnitId) : Prop where
  needed : x ∈ cfg.neededIds
  loaded : x ∈ t.ids
  device : x.kind ≠ .device
  requisite : (t.deps x).requisite = []
  mirrored : ∀ d ∈ t.ids, d ∈ (t.deps x).after ↔ x ∈ (t.deps d).before
  pulled : ∀ d ∈ (t.deps x).after,
    (t.deps x).isRequired d = true ∨ (t.deps x).isPulled d = true → d ∈ cfg.neededIds

/-- Every `After=` dependency is ready. -/
def AllReady (cfg : Config) (t : UnitTable) (x : UnitId) : Prop :=
  ∀ d ∈ (t.deps x).after, t.blocks (some cfg.neededIds) x d = false

/-- The phases of a worker with `x` before `x` is started, and those of another worker that has `x`
    in the before-chain of its unit. -/
def PhaseCarries (t : UnitTable) (x id : UnitId) : Phase → Prop
  | .guard | .checks | .conflicts _ | .record | .activate _ | .transition _ => id = x
  | .requisite rest unmet => id = x ∧ rest = [] ∧ unmet = []
  | .slices _ => x ∈ (t.deps id).before
  | .settled next => x ∈ next ∧ x ∈ (t.deps id).before
  | _ => False

/-- The job will look at `x`, or is about to start it. -/
def Carries (t : UnitTable) (x : UnitId) : Job → Prop
  | .scan ids startables => x ∈ ids ∨ x ∈ startables
  | .check id deps unstarted ids startables =>
    (id = x ∧ unstarted = [] ∧ ∀ d ∈ deps, d ∈ (t.deps x).after) ∨ x ∈ ids ∨ x ∈ startables
  | .unit id phase => PhaseCarries t x id phase

/-- A dependency that is needed was started in this pass. -/
def NewStart (cfg : Config) (t₀ t : UnitTable) (x : UnitId) : Prop :=
  ∃ d ∈ (t₀.deps x).after, d ∈ cfg.neededIds ∧ t₀.started d = false ∧ t.started d = true

theorem Carries.congr (hsame : SameUnits t t') (h : Carries t x job) : Carries t' x job := by
  cases job with
  | scan ids startables => exact h
  | check id deps unstarted ids startables =>
    rcases h with ⟨hid, hnil, hdeps⟩ | h
    · exact .inl ⟨hid, hnil, fun d hd => by rw [hsame.deps]; exact hdeps d hd⟩
    · exact .inr h
  | unit id phase =>
    cases phase <;> first | exact h | skip
    · rw [Carries, PhaseCarries, hsame.deps]
      exact h
    · rw [Carries, PhaseCarries, hsame.deps]
      exact h

/-- A unit that is about to start is not ready for anyone who waits for it. -/
theorem blocks_of_starting (h : t.status d = some .starting) (set : Option (List UnitId)) :
    t.blocks set x d = true := by
  rw [UnitTable.blocks, h]
  cases hreq : (t.deps x).isRequired d <;> cases hpull : (t.deps x).isPulled d <;>
    simp [Dependencies.ready, hreq, hpull, UnitStatus.isStarted, UnitStatus.isStopped]

/-- What `state_transition_starting` refuses, `unstarted_deps` keeps. -/
theorem transitionBlockers_eq_nil (h : AllReady cfg t x) : transitionBlockers t x = [] := by
  rw [transitionBlockers, List.filter_eq_nil_iff]
  intro d hd
  have hready := h d hd
  rw [UnitTable.blocks] at hready
  cases hstatus : t.status d with
  | none => simp
  | some status =>
    rw [hstatus] at hready
    rw [Option.any_some, Bool.not_eq_true', Bool.not_eq_false]
    have hready : (t.deps x).ready (some cfg.neededIds) d status = true := by simpa using hready
    cases hreq : (t.deps x).isRequired d with
    | true =>
      have hstarted : status.isStarted = true := by simpa [Dependencies.ready, hreq] using hready
      simp [Dependencies.readyToStart, hreq, hstarted]
    | false =>
      cases hpull : (t.deps x).isPulled d with
      | true =>
        have hover : status.isStarted = true ∨ status.isStopped = true := by
          simpa [Dependencies.ready, hreq, hpull] using hready
        cases status <;> simp_all [Dependencies.readyToStart, UnitStatus.isStarted,
          UnitStatus.isStopped]
      | false =>
        have hnot : status ≠ .starting := by
          rintro rfl
          simp [Dependencies.ready, hreq, hpull] at hready
        simp [Dependencies.readyToStart, hreq, hpull, hnot]

/-- A job that carries a unit hands it on, while the unit is not started and could be. -/
theorem Carries.effect (hx : Sweepable cfg t x) (h : Carries t x job)
    (he : job.effect cfg t locked a = some e)
    (hquiet : ∀ id phase, job = .unit id phase → QuietUnit t phase a)
    (hnever : t.status x = some .neverStarted) (hpost : ∀ status, e.write = some (x, status) →
      status = .neverStarted) (hready : AllReady cfg t x) : ∃ j ∈ e.jobs, Carries t x j := by
  cases job with
  | scan ids startables =>
    cases ids with
    | nil =>
      cases he
      rcases h with h | h
      · exact absurd h List.not_mem_nil
      · exact ⟨.unit x .guard, List.mem_map.mpr
          ⟨x, List.mem_filter.mpr ⟨h, decide_eq_true hx.needed⟩, rfl⟩, rfl⟩
    | cons id ids =>
      rw [Job.effect] at he
      split_ifs at he with hdevice <;> cases he <;> refine ⟨_, List.mem_singleton_self _, ?_⟩
      · rcases h with h | h
        · rcases List.mem_cons.mp h with rfl | h
          · exact absurd hdevice hx.device
          · exact .inl h
        · exact .inr h
      · rcases h with h | h
        · rcases List.mem_cons.mp h with rfl | h
          · exact .inl ⟨rfl, rfl, fun d hd => hd⟩
          · exact .inr (.inl h)
        · exact .inr (.inr h)
  | check id deps unstarted ids startables =>
    cases deps with
    | nil =>
      cases he
      refine ⟨_, List.mem_singleton_self _, ?_⟩
      rcases h with ⟨rfl, rfl, -⟩ | h | h
      · exact .inr (List.mem_append_right _ (List.mem_singleton_self _))
      · exact .inl h
      · right
        split_ifs
        · exact List.mem_append_left _ h
        · exact h
    | cons elem deps =>
      cases he
      refine ⟨_, List.mem_singleton_self _, ?_⟩
      rcases h with ⟨rfl, rfl, hdeps⟩ | h
      · refine .inl ⟨rfl, ?_, fun d hd => hdeps d (List.mem_cons_of_mem _ hd)⟩
        rw [hready elem (hdeps elem List.mem_cons_self)]
        rfl
      · exact .inr h
  | unit id phase =>
    have hq := hquiet id phase rfl
    have hnotStarted : t.started x = false := by rw [UnitTable.started, hnever]; rfl
    rcases Phase.effect_cases he with ⟨p, hjobs, -, hmove⟩ | ⟨hjobs, hend⟩ | ⟨next, rfl, hjobs, -⟩
    · refine ⟨.unit id p, hjobs ▸ List.mem_singleton_self _, ?_⟩
      generalize e.write = w at hmove hpost
      cases hmove with
      | known hstatus hearly =>
        cases h
        rw [hnever] at hstatus
        cases hstatus
        cases hearly
      | begin hstatus hearly =>
        cases h
        exact ⟨rfl, hx.requisite, rfl⟩
      | require req rest unmet => cases h.2.1
      | met => exact h.1
      | skipped hassert =>
        cases h
        cases hpost _ rfl
      | conflict rest hstarted =>
        rw [hq.conflict _ rest rfl] at hstarted
        cases hstarted
      | active was hstarted =>
        cases h
        rw [hnotStarted] at hstarted
        cases hstarted
      | failed was hstatus =>
        cases h
        rw [hnever] at hstatus
        cases hstatus
      | start was hready =>
        cases h
        cases hpost _ rfl
      | keep conflict rest => exact absurd h not_false
      | stop conflict rest => exact absurd h not_false
      | stopped conflict rest => exact absurd h not_false
      | ran was hspecific hcurrent hpossible => exact absurd h not_false
      | done => exact ⟨h, h⟩
      | _ => exact h
    · generalize e.write = w, e.parked = entries at hend
      cases hend with
      | missing hstatus =>
        cases h
        rw [hnever] at hstatus
        cases hstatus
      | unmet hunmet => exact absurd h.2.2 hunmet
      | asserted hassert =>
        rw [hq.assertion] at hassert
        cases hassert
      | blocked was hblocked =>
        cases h
        exact absurd (transitionBlockers_eq_nil hready) hblocked
      | parked next hstatus =>
        have hid : id ∈ (t.deps x).after :=
          (hx.mirrored id (UnitTable.mem_ids_of_status hstatus)).mpr h.2
        have := hready id hid
        rw [blocks_of_starting hstatus] at this
        cases this
    · exact ⟨.scan next [], hjobs ▸ List.mem_singleton_self _, .inl h.1⟩

/-- What a unit's own worker writes hands its before-chain on, unless the unit is about to start,
    is started, or keeps its status. -/
theorem Move.release {p : Phase} (h : Move cfg t d a phase (some (d, status)) p)
    (hquiet : QuietUnit t phase a) (hx : x ∈ (t.deps d).before) (hcalm : phase.Calm) :
    PhaseCarries t x d p ∨ status = .starting ∨ status.isStarted = true ∨
      t.status d = some status := by
  cases h with
  | skipped hassert => exact .inl ⟨hx, hx⟩
  | stop conflict rest => exact absurd hcalm not_false
  | stopped conflict rest => exact absurd hcalm not_false
  | start was hready => exact .inr (.inl rfl)
  | mark rest hnamed hstarted => exact .inr (.inr (.inl rfl))
  | @ran was specific current hspecific hcurrent hpossible =>
    have hdeferred := hquiet.deferred
    have hskipped := hquiet.skipped
    cases ho : a.outcome with
    | deferred => exact absurd ho hdeferred
    | failed => exact .inl ⟨hx, hx⟩
    | conditionSkipped =>
      cases was with
      | true => exact absurd ho (hskipped rfl)
      | false => exact .inl hx
    | started st =>
      rw [hcurrent]
      by_cases hsame : Outcome.status (.started st) specific current = current
      · exact .inr (.inr (.inr (congrArg some hsame.symm)))
      · refine .inr (.inr (.inl ?_))
        revert hsame
        unfold Outcome.status
        split <;> intro hsame
        · exact absurd rfl hsame
        · rename_i heq
          cases heq
        · rename_i heq
          cases heq
        · rfl
        · split_ifs with hcur
          · rfl
          · exact absurd (if_neg hcur) hsame
        · rfl
        · rfl
        · rfl
        · split_ifs with hcur
          · exact hcur
          · rfl

/-- The invariant of a quiet pass for one unit: if it could start, it is not lost. -/
structure PassInv (cfg : Config) (t₀ : UnitTable) (x : UnitId) (s : Walk) : Prop
    extends CalmInv cfg t₀ s where
  ahead : s.table.status x = some .neverStarted → AllReady cfg s.table x →
    (∃ j ∈ s.jobs, Carries s.table x j) ∨ NewStart cfg t₀ s.table x

theorem Sweepable.congr (hsame : SameUnits t t') (h : Sweepable cfg t x) : Sweepable cfg t' x where
  needed := h.needed
  loaded := by rw [hsame.ids]; exact h.loaded
  device := h.device
  requisite := by rw [hsame.deps]; exact h.requisite
  mirrored := by simpa only [hsame.ids, hsame.deps] using h.mirrored
  pulled := by simpa only [hsame.deps] using h.pulled

/-- Whether a dependency blocks a unit depends on the status of the dependency. -/
theorem blocks_congr (hsame : SameUnits t t') (hstatus : t'.status d = t.status d)
    (set : Option (List UnitId)) : t'.blocks set x d = t.blocks set x d := by
  rw [UnitTable.blocks, UnitTable.blocks, hstatus, hsame.deps]

/-- A unit outside of the walk blocks only while it is about to start. -/
theorem Sweepable.starting_of_blocks (hx : Sweepable cfg t x) (hd : d ∈ (t.deps x).after)
    (hnot : d ∉ cfg.neededIds) (hblocks : t.blocks (some cfg.neededIds) x d = true)
    (hloaded : d ∈ t.ids) : t.status d = some .starting := by
  have hreq : (t.deps x).isRequired d = false :=
    Bool.eq_false_iff.mpr fun h => hnot (hx.pulled d hd (.inl h))
  have hpull : (t.deps x).isPulled d = false :=
    Bool.eq_false_iff.mpr fun h => hnot (hx.pulled d hd (.inr h))
  rw [UnitTable.blocks] at hblocks
  cases hstatus : t.status d with
  | none => exact absurd hloaded (UnitTable.status_eq_none_iff.mp hstatus)
  | some status =>
    rw [hstatus] at hblocks
    cases status <;> simp_all [Dependencies.ready]

theorem mem_jobs_carryOut {j : Job} (hj : j ∈ e.jobs) : j ∈ (s.carryOut job e).jobs :=
  List.mem_append_left _ hj

/-- If a dependency stops blocking, or is no longer started, then the before-chain that has the unit
    is handed on, or the dependency was started. -/
theorem CalmInv.release (h : CalmInv cfg t₀ s) (hx : Sweepable cfg t₀ x) (hjob : job ∈ s.jobs)
    (he : job.effect cfg s.table locked a = some e)
    (hunit : ∀ id phase, job = .unit id phase → QuietUnit s.table phase a)
    (hd : d ∈ (t₀.deps x).after) (hw : e.write = some (d, status)) (hloaded : d ∈ t₀.ids) :
    (∃ j ∈ e.jobs, Carries s.table x j) ∨ status = .starting ∨ status.isStarted = true ∨
      s.table.status d = some status := by
  have hcalm := h.jobs job hjob
  rcases hcalm.write he hunit h.started hw with ⟨phase, p, rfl, hjobs, -, -, hmove⟩ | ⟨-, rfl, -⟩
  · have hbefore : x ∈ (s.table.deps d).before := by
      rw [h.same.deps]
      exact (hx.mirrored d hloaded).mp hd
    rcases hmove.release (hunit d phase rfl) hbefore hcalm.2.1 with hcarry | hrest
    · exact .inl ⟨.unit d p, hjobs ▸ List.mem_singleton_self _, hcarry⟩
    · exact .inr hrest
  · exact .inr (.inr (.inl rfl))

theorem PassInv.preserved (h : PassInv cfg t₀ x s) (hx : Sweepable cfg t₀ x)
    (hout : ∀ d, d ∉ cfg.neededIds → t₀.status d ≠ some .starting) {act : Action}
    (hquiet : Quiet s act) (hs : step cfg s act = some s') : PassInv cfg t₀ x s' := by
  have hcalm' := h.toCalmInv.preserved hquiet hs
  refine ⟨hcalm', fun hnever' hready' => ?_⟩
  have hsame : SameUnits s.table s'.table := (SameUnits.refl s.table).preserved hs
  obtain ⟨job, a, e, hjob, he, rfl, hunit⟩ := quiet_work hquiet hs
  have hx' : Sweepable cfg s.table x := hx.congr h.same
  have hwritten : ∀ d ∈ t₀.ids, ∀ status, e.write = some (d, status) →
      (s.carryOut job e).table.status d = some status := by
    intro d hd status hw
    rw [Walk.carryOut, hw]
    exact UnitTable.status_setStatus_self (by rw [h.same.ids]; exact hd)
  have hpost : ∀ status, e.write = some (x, status) → status = .neverStarted := by
    intro status hw
    rw [hwritten x hx.loaded status hw] at hnever'
    exact Option.some.inj hnever'
  have hnever : s.table.status x = some .neverStarted := by
    rcases status_carryOut job e x with heq | ⟨status, hw, -⟩
    · exact heq ▸ hnever'
    · obtain ⟨id, phase, rfl, hphase⟩ := Job.effect_unit he hw
      exact (Phase.write_cases hphase hw).1 (hpost status hw)
  have hcarry : (∃ j ∈ e.jobs, Carries s.table x j) →
      ∃ j ∈ (s.carryOut job e).jobs, Carries (s.carryOut job e).table x j := by
    rintro ⟨j, hj, hcarry⟩
    exact ⟨j, mem_jobs_carryOut hj, hcarry.congr hsame⟩
  have hdeps : ∀ d ∈ (t₀.deps x).after, (s.carryOut job e).table.blocks (some cfg.neededIds) x d =
      false := by
    intro d hd
    exact hready' d (by rw [hcalm'.same.deps]; exact hd)
  have hload : ∀ d status, s.table.status d = some status → d ∈ t₀.ids := by
    intro d status hstatus
    rw [← h.same.ids]
    exact UnitTable.mem_ids_of_status hstatus
  have hnotStarting : ∀ d ∈ (t₀.deps x).after,
      (s.carryOut job e).table.status d ≠ some .starting := by
    intro d hd hstarting
    have := hdeps d hd
    rw [blocks_of_starting hstarting] at this
    cases this
  by_cases hready : AllReady cfg s.table x
  · rcases h.ahead hnever hready with ⟨j, hj, hcarries⟩ | ⟨d, hd, hneeded, hnot, hstarted⟩
    · by_cases hjob' : j = job
      · subst hjob'
        exact .inl (hcarry (hcarries.effect hx' he hunit hnever hpost hready))
      · refine .inl ⟨j, List.mem_append_right _ ?_, hcarries.congr hsame⟩
        exact (List.mem_erase_of_ne hjob').mpr hj
    · -- The dependency that was started in this pass is still started, or its worker goes on.
      by_cases hstill : (s.carryOut job e).table.started d = true
      · exact .inr ⟨d, hd, hneeded, hnot, hstill⟩
      · obtain ⟨status₀, hstatus₀⟩ := UnitTable.started_iff.mp hstarted
        have hloaded := hload d _ hstatus₀
        rcases status_carryOut job e d with heq | ⟨status, hw, heq⟩
        · rw [UnitTable.started, heq] at hstill
          exact absurd hstarted hstill
        · rcases h.toCalmInv.release hx hjob he hunit hd hw hloaded with hj | rfl | hst | hst
          · exact .inl (hcarry hj)
          · exact absurd heq (hnotStarting d hd)
          · rw [UnitTable.started, heq] at hstill
            exact absurd hst hstill
          · rw [UnitTable.started, heq, ← hst] at hstill
            exact absurd hstarted hstill
  · -- A dependency that blocked does no longer, so its status was written.
    rw [AllReady] at hready
    push Not at hready
    obtain ⟨d, hd, hblocked⟩ := hready
    rw [h.same.deps] at hd
    have hblocks : s.table.blocks (some cfg.neededIds) x d = true :=
      Bool.eq_true_of_not_eq_false hblocked
    have hunchanged : (s.carryOut job e).table.status d ≠ s.table.status d := by
      intro heq
      have := hdeps d hd
      rw [blocks_congr hsame heq] at this
      exact hblocked this
    rcases status_carryOut job e d with heq | ⟨status, hw, heq⟩
    · exact absurd heq hunchanged
    · have hloaded : d ∈ t₀.ids := by
        rw [← hcalm'.same.ids]
        exact UnitTable.mem_ids_of_status heq
      rcases h.toCalmInv.release hx hjob he hunit hd hw hloaded with hj | rfl | hst | hst
      · exact .inl (hcarry hj)
      · exact absurd heq (hnotStarting d hd)
      · have hnow : (s.carryOut job e).table.started d = true := by
          rw [UnitTable.started, heq]
          exact hst
        have hnot : t₀.started d = false := by
          refine Bool.eq_false_iff.mpr fun h₀ => ?_
          rcases (h.jobs job hjob).write he hunit h.started hw with
            ⟨_, _, _, _, _, hnot, _⟩ | ⟨hnot, -⟩
          · rw [h₀] at hnot
            cases hnot
          · rw [h.started d h₀] at hnot
            cases hnot
        refine .inr ⟨d, hd, ?_, hnot, hnow⟩
        by_contra hneeded
        have hstarting := hx'.starting_of_blocks (by rw [h.same.deps]; exact hd) hneeded hblocks
          (by rw [h.same.ids]; exact hloaded)
        exact hout d hneeded (h.starting d hstarting hneeded)
      · exact absurd (heq.trans hst.symm) hunchanged

/-! ## The passes -/

theorem passInv_passStart (hx : Sweepable cfg t x) : PassInv cfg t x (passStart cfg t) := by
  refine ⟨calmInv_passStart cfg t, fun _ hready => .inl ⟨_, List.mem_singleton_self _, .inl ?_⟩⟩
  have hnil : unstartedDeps x t (some cfg.neededIds) = [] := by
    rw [unstartedDeps, List.filter_eq_nil_iff]
    intro d hd hblocks
    have hnot : t.blocks (some cfg.neededIds) x d = false := hready d hd
    rw [hblocks] at hnot
    cases hnot
  simp [findStartableUnits, hx.needed, hx.device, hnil]

/-- What a quiet pass keeps, and whom it leaves behind. -/
theorem Pass.spec (h : Pass cfg Quiet t t')
    (hout : ∀ d, d ∉ cfg.neededIds → t.status d ≠ some .starting) :
    SameUnits t t' ∧ (∀ d, t.started d = true → t'.started d = true) ∧
      (∀ d, d ∉ cfg.neededIds → t'.status d ≠ some .starting) ∧
      ∀ x, Sweepable cfg t x → t'.status x = some .neverStarted → AllReady cfg t' x →
        NewStart cfg t t' x := by
  obtain ⟨as, s, hrun, hquiet, hdrained, rfl⟩ := h
  have hcalm : CalmInv cfg t s :=
    run_inv_of_meets (fun _ _ _ hinv hq hs => CalmInv.preserved hinv hq hs) as
      (calmInv_passStart cfg t) hquiet hrun
  refine ⟨hcalm.same, hcalm.started, fun d hd hs => hout d hd (hcalm.starting d hs hd), ?_⟩
  intro x hx hnever hready
  have hinv : PassInv cfg t x s :=
    run_inv_of_meets (fun _ _ _ hinv hq hs => PassInv.preserved hinv hx hout hq hs) as
      (passInv_passStart hx) hquiet hrun
  rcases hinv.ahead hnever hready with ⟨j, hj, -⟩ | hnew
  · rw [hdrained] at hj
    exact absurd hj List.not_mem_nil
  · exact hnew

/-- If one count is that of a larger set, the sets are the same. -/
theorem of_countP_le {α : Type*} {p q : α → Bool} {l : List α}
    (hpq : ∀ y ∈ l, p y = true → q y = true)
    (hle : l.countP q ≤ l.countP p) {y : α} (hy : y ∈ l) (hq : q y = true) : p y = true := by
  induction l with
  | nil => exact absurd hy List.not_mem_nil
  | cons z l ih =>
    have hrest : ∀ y ∈ l, p y = true → q y = true := fun y h => hpq y (List.mem_cons_of_mem z h)
    have hmono : l.countP p ≤ l.countP q := List.countP_mono_left hrest
    rw [List.countP_cons, List.countP_cons] at hle
    have hz := hpq z List.mem_cons_self
    rcases List.mem_cons.mp hy with rfl | hy
    · by_contra hp
      rw [if_pos hq, if_neg hp] at hle
      omega
    · refine ih hrest ?_ hy
      by_cases hp : p z = true
      · rw [if_pos hp, if_pos (hz hp)] at hle
        omega
      · rw [if_neg hp] at hle
        omega

theorem Sweeps.spec {n : ℕ} {b : Bool} (h : Sweeps cfg Quiet n t t' b)
    (hn : cfg.neededIds.length < n + countStarted cfg t)
    (hout : ∀ d, d ∉ cfg.neededIds → t.status d ≠ some .starting) :
    b = true ∧ SameUnits t t' ∧ ∀ x, Sweepable cfg t x → t'.status x = some .neverStarted →
      ¬ AllReady cfg t' x := by
  induction h with
  | fixpoint hpass hcount =>
    obtain ⟨hsame, hstarted, -, hbehind⟩ := hpass.spec hout
    refine ⟨rfl, hsame, fun x hx hnever hready => ?_⟩
    obtain ⟨d, -, hneeded, hnot, hnow⟩ := hbehind x hx hnever hready
    have := of_countP_le (fun d _ => hstarted d) (le_of_eq hcount) hneeded hnow
    rw [hnot] at this
    cases this
  | @again n t t₁ t₂ b hpass hcount hrest ih =>
    obtain ⟨hsame, hstarted, hout', -⟩ := hpass.spec hout
    have hmono : countStarted cfg t ≤ countStarted cfg t₁ :=
      List.countP_mono_left fun d _ => hstarted d
    obtain ⟨hb, hsame', hbehind⟩ := ih (by omega) hout'
    refine ⟨hb, ⟨hsame'.ids.trans hsame.ids, fun x => (hsame'.deps x).trans (hsame.deps x),
      fun x => (hsame'.specific x).trans (hsame.specific x)⟩, fun x hx => ?_⟩
    exact hbehind x (hx.congr hsame)
  | @outOfPasses t =>
    have : countStarted cfg t ≤ cfg.neededIds.length := List.countP_le_length
    omega

end OxidizedSystemd.Units.Activation
