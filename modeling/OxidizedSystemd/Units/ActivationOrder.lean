import OxidizedSystemd.Units.Activation
import OxidizedSystemd.Lib.Acyclic

/-!
# The order of the activation walk

A worker that starts a unit has the unit from a scan that found every `After=`
dependency ready. This is the invariant of the jobs (`JobOk`), with two relations as
parameters: what a scan has seen of a dependency, and which units have left
`NeverStarted`.

* `JobOk.effect`: what a worker leaves meets the invariant with what it has just seen.
* `starts_after_ready`: whatever other threads write, each dependency of a unit that a worker
  starts was ready at an earlier moment.
* `leaves_after`: if other threads write no unit before the walk has, a unit leaves
  `NeverStarted` only after everything it waits for, directly or not.
* `cycle_never_leaves`: units on a cycle of such waits are never started.
-/

namespace OxidizedSystemd.Units.Activation

open OxidizedSystemd.Lib
open Relation (TransGen)

variable {cfg : Config} {t t₀ : UnitTable} {locked : UnitId → Bool} {id x d : UnitId} {a : Answer}
  {job : Job} {e : Effect} {s s' : Walk}

/-! ## What is never changed -/

/-- The parts of a table that no step of the walk changes. -/
structure SameUnits (t t' : UnitTable) : Prop where
  ids : t'.ids = t.ids
  deps : ∀ x, t'.deps x = t.deps x
  specific : ∀ x, t'.specific x = t.specific x

theorem SameUnits.refl (t : UnitTable) : SameUnits t t := ⟨rfl, fun _ => rfl, fun _ => rfl⟩

theorem SameUnits.named (h : SameUnits t₀ t) (name : String) : t.named name = t₀.named name := by
  rw [UnitTable.named, UnitTable.named, h.ids]

theorem SameUnits.setStatus (h : SameUnits t₀ t) (x : UnitId) (status : UnitStatus) :
    SameUnits t₀ (t.setStatus x status) where
  ids := (UnitTable.ids_setStatus ..).trans h.ids
  deps y := (UnitTable.deps_setStatus ..).trans (h.deps y)
  specific y := (UnitTable.specific_setStatus ..).trans (h.specific y)

theorem SameUnits.carryOut (h : SameUnits t₀ s.table) (job : Job) (e : Effect) :
    SameUnits t₀ (s.carryOut job e).table := by
  rw [Walk.carryOut]
  cases e.write with
  | none => exact h
  | some w => exact h.setStatus w.1 w.2

/-- What a step of a worker is. -/
theorem step_work (h : step cfg s (.work job a) = some s') :
    job ∈ s.jobs ∧ ∃ e, job.effect cfg s.table (fun id => s.jobs.any (Job.holds · id)) a = some e ∧
      s' = s.carryOut job e := by
  rw [step] at h
  split_ifs at h with hjob
  obtain ⟨e, he, rfl⟩ := Option.map_eq_some_iff.mp h
  exact ⟨hjob, e, he, rfl⟩

theorem SameUnits.preserved (h : SameUnits t₀ s.table) {act : Action}
    (hs : step cfg s act = some s') :
    SameUnits t₀ s'.table := by
  cases act with
  | work job a =>
    obtain ⟨-, e, -, rfl⟩ := step_work hs
    exact h.carryOut job e
  | env id status =>
    cases hs
    exact h.setStatus id status
  | release entry =>
    rw [step] at hs
    split_ifs at hs
    cases hs
    exact h

/-- The jobs after a step: those that were there, those that the worker left, and scans for parked
    starts. -/
theorem mem_jobs_step {act : Action} (hs : step cfg s act = some s') {j : Job} (hj : j ∈ s'.jobs) :
    j ∈ s.jobs ∨ (∃ ids, j = .scan ids []) ∨ ∃ job a e, act = .work job a ∧ job ∈ s.jobs ∧
      job.effect cfg s.table (fun id => s.jobs.any (Job.holds · id)) a = some e ∧ j ∈ e.jobs := by
  cases act with
  | work job a =>
    obtain ⟨hjob, e, he, rfl⟩ := step_work hs
    rcases List.mem_append.mp hj with hj | hj
    · exact .inr (.inr ⟨job, a, e, rfl, hjob, he, hj⟩)
    · exact .inl (List.mem_of_mem_erase hj)
  | env id status =>
    cases hs
    exact .inl hj
  | release entry =>
    rw [step] at hs
    split_ifs at hs
    cases hs
    rcases List.mem_cons.mp hj with rfl | hj
    · exact .inr (.inl ⟨_, rfl⟩)
    · exact .inl hj

/-! ## The invariant of the jobs -/

/-- The names of the slices of a unit. -/
def sliceNamesOf (t : UnitTable) (id : UnitId) : List String :=
  (t.specific id).elim [] sliceHierarchy

section JobOk

variable (seen : UnitId → UnitId → Prop) (left : UnitId → Prop) (t : UnitTable)

/-- Every `After=` dependency was seen. -/
def AllSeen (id : UnitId) : Prop := ∀ d ∈ (t.deps id).after, seen id d

/-- A conflicting unit that is being stopped has left `NeverStarted`, and the slices still to mark
    are slices of the unit. -/
def PhaseOk (id : UnitId) : Phase → Prop
  | .deactivate conflict _ | .stopping conflict _ => left conflict
  | .slices rest => ∀ name ∈ rest, name ∈ sliceNamesOf t id
  | _ => True

/-- What a scan has found startable and what a worker starts was seen as a whole, and what is being
    checked up to the dependency that is next. -/
def JobOk : Job → Prop
  | .scan _ startables => ∀ x ∈ startables, AllSeen seen t x
  | .check id deps unstarted _ startables =>
    (unstarted = [] → ∀ d ∈ (t.deps id).after, d ∉ deps → seen id d) ∧
      ∀ x ∈ startables, AllSeen seen t x
  | .unit id phase => AllSeen seen t id ∧ PhaseOk left t id phase

end JobOk

variable {seen seen' : UnitId → UnitId → Prop} {left left' : UnitId → Prop}

theorem AllSeen.mono (h : AllSeen seen t id) (hseen : ∀ x d, seen x d → seen' x d) :
    AllSeen seen' t id := fun d hd => hseen id d (h d hd)

theorem PhaseOk.mono {phase : Phase} (h : PhaseOk left t id phase)
    (hleft : ∀ x, left x → left' x) : PhaseOk left' t id phase := by
  cases phase with
  | deactivate conflict rest => exact hleft conflict h
  | stopping conflict rest => exact hleft conflict h
  | slices rest => exact h
  | _ => trivial

theorem JobOk.mono (h : JobOk seen left t job) (hseen : ∀ x d, seen x d → seen' x d)
    (hleft : ∀ x, left x → left' x) : JobOk seen' left' t job := by
  cases job with
  | scan ids startables => exact fun x hx => (h x hx).mono hseen
  | check id deps unstarted ids startables =>
    exact ⟨fun hnil d hd hnot => hseen id d (h.1 hnil d hd hnot),
      fun x hx => (h.2 x hx).mono hseen⟩
  | unit id phase => exact ⟨h.1.mono hseen, h.2.mono hleft⟩

/-- The invariant speaks of nothing that a step changes. -/
theorem JobOk.congr (hsame : SameUnits t t₀) (h : JobOk seen left t job) :
    JobOk seen left t₀ job := by
  have hall : ∀ x, AllSeen seen t x → AllSeen seen t₀ x := by
    intro x hx d hd
    rw [hsame.deps] at hd
    exact hx d hd
  cases job with
  | scan ids startables => exact fun x hx => hall x (h x hx)
  | check id deps unstarted ids startables =>
    refine ⟨fun hnil d hd => ?_, fun x hx => hall x (h.2 x hx)⟩
    rw [hsame.deps] at hd
    exact h.1 hnil d hd
  | unit id phase =>
    refine ⟨hall id h.1, ?_⟩
    have hphase := h.2
    cases phase with
    | slices rest =>
      intro name hname
      rw [sliceNamesOf, hsame.specific]
      exact hphase name hname
    | _ => exact hphase

theorem phaseOk_afterStart (was : Bool) : PhaseOk left t id (afterStart t id was) := by
  rw [afterStart]
  split_ifs
  · trivial
  · exact fun _ hname => hname

theorem phaseOk_afterOutcome (was : Bool) (o : Outcome) :
    PhaseOk left t id (afterOutcome t id was o) := by
  cases o with
  | failed => trivial
  | deferred =>
    rw [afterOutcome]
    split_ifs <;> trivial
  | started status => exact phaseOk_afterStart was
  | conditionSkipped => exact phaseOk_afterStart was

theorem Move.phaseOk {phase p : Phase} {w : Option (UnitId × UnitStatus)}
    (h : Move cfg t id a phase w p) (hphase : PhaseOk left t id phase)
    (hleft : ∀ c, t.started c = true → left c) : PhaseOk left t id p := by
  cases h with
  | conflict rest hstarted => exact hleft _ hstarted
  | stop conflict rest => exact hphase
  | active was hstarted => exact phaseOk_afterStart was
  | ran was hspecific hcurrent hpossible => exact phaseOk_afterOutcome was a.outcome
  | mark rest hnamed hstarted => exact fun name hname => hphase name (List.mem_cons_of_mem _ hname)
  | marked name rest => exact fun other hother => hphase other (List.mem_cons_of_mem name hother)
  | _ => trivial

/-- What a worker leaves meets the invariant, with what it has seen in this step. -/
theorem JobOk.effect (h : JobOk seen left t job) (he : job.effect cfg t locked a = some e)
    (hseen : ∀ x d, t.blocks (some cfg.neededIds) x d = false → seen x d)
    (hleft : ∀ c, t.started c = true → left c) : ∀ j ∈ e.jobs, JobOk seen left t j := by
  cases job with
  | scan ids startables =>
    cases ids with
    | nil =>
      cases he
      intro j hj
      obtain ⟨id, hid, rfl⟩ := List.mem_map.mp hj
      exact ⟨h id (List.mem_of_mem_filter hid), trivial⟩
    | cons id ids =>
      rw [Job.effect] at he
      split_ifs at he <;> cases he
      · intro j hj
        rw [List.mem_singleton.mp hj]
        exact h
      · intro j hj
        rw [List.mem_singleton.mp hj]
        exact ⟨fun _ d hd hnot => absurd hd hnot, h⟩
  | check id deps unstarted ids startables =>
    cases deps with
    | nil =>
      cases he
      intro j hj
      rw [List.mem_singleton.mp hj]
      split_ifs with hnil
      · intro x hx
        rcases List.mem_append.mp hx with hx | hx
        · exact h.2 x hx
        · rw [List.mem_singleton.mp hx]
          exact fun d hd => h.1 hnil d hd List.not_mem_nil
      · exact h.2
    | cons elem deps =>
      cases he
      intro j hj
      rw [List.mem_singleton.mp hj]
      refine ⟨fun hnil d hd hnot => ?_, h.2⟩
      split_ifs at hnil with hblocks
      · exact absurd hnil (by simp)
      · by_cases hdelem : d = elem
        · rw [hdelem]
          exact hseen id elem (Bool.eq_false_iff.mpr hblocks)
        · exact h.1 hnil d hd (by simp [hdelem, hnot])
  | unit id phase =>
    rcases Phase.effect_cases he with ⟨p, hjobs, -, hmove⟩ | ⟨hjobs, -⟩ | ⟨next, -, hjobs, -⟩
    · intro j hj
      rw [hjobs] at hj
      rw [List.mem_singleton.mp hj]
      exact ⟨h.1, hmove.phaseOk h.2 hleft⟩
    · intro j hj
      rw [hjobs] at hj
      exact absurd hj List.not_mem_nil
    · intro j hj
      rw [hjobs] at hj
      rw [List.mem_singleton.mp hj]
      exact fun x hx => absurd hx List.not_mem_nil

/-- One step keeps the invariant of the jobs. -/
theorem jobOk_step {act : Action} (h : ∀ j ∈ s.jobs, JobOk seen left s.table j)
    (hs : step cfg s act = some s')
    (hseen : ∀ x d, s.table.blocks (some cfg.neededIds) x d = false → seen x d)
    (hleft : ∀ c, s.table.started c = true → left c) :
    ∀ j ∈ s'.jobs, JobOk seen left s'.table j := by
  intro j hj
  refine JobOk.congr ((SameUnits.refl s.table).preserved hs) ?_
  rcases mem_jobs_step hs hj with hj | ⟨ids, rfl⟩ | ⟨job, a, e, -, hjob, he, hj⟩
  · exact h j hj
  · exact fun x hx => absurd hx List.not_mem_nil
  · exact (h job hjob).effect he hseen hleft j hj

/-- What `id` needs of `elem` before a worker starts it. -/
structure Satisfied (cfg : Config) (t : UnitTable) (id elem : UnitId) : Prop where
  /-- A required unit is started. One that is not loaded does not count, except for a device. -/
  required : (t.deps id).isRequired elem = true →
    t.started elem = true ∨ elem ∉ t.ids ∧ elem.kind ≠ .device
  /-- The start of a unit that is pulled in is over. -/
  pulled : (t.deps id).isRequired elem = false → (t.deps id).isPulled elem = true →
    ∀ status, t.status elem = some status → status.isStarted ∨ status.isStopped
  /-- A unit that is only ordered is not about to start, neither now nor later in this walk. -/
  ordered : (t.deps id).isRequired elem = false → (t.deps id).isPulled elem = false →
    ∀ status, t.status elem = some status →
      status ≠ .starting ∧ (status = .neverStarted → elem ∉ cfg.neededIds)

theorem satisfied_of_not_blocks (h : t.blocks (some cfg.neededIds) id d = false) :
    Satisfied cfg t id d := by
  rw [UnitTable.blocks] at h
  cases hstatus : t.status d with
  | none =>
    rw [hstatus] at h
    refine ⟨fun hreq => .inr ⟨UnitTable.status_eq_none_iff.mp hstatus, fun hdev => ?_⟩,
      fun _ _ _ hs => ?_, fun _ _ _ hs => ?_⟩
    · simp [hreq, hdev] at h
    · rw [hstatus] at hs
      cases hs
    · rw [hstatus] at hs
      cases hs
  | some status =>
    rw [hstatus] at h
    have hready : (t.deps id).ready (some cfg.neededIds) d status = true := by simpa using h
    refine ⟨fun hreq => .inl ?_, fun hreq hpull status' hs => ?_, fun hreq hpull status' hs => ?_⟩
    · rw [UnitTable.started, hstatus]
      simpa [Dependencies.ready, hreq] using hready
    · rw [hstatus] at hs
      cases hs
      simpa [Dependencies.ready, hreq, hpull] using hready
    · rw [hstatus] at hs
      cases hs
      cases status with
      | neverStarted =>
        exact ⟨nofun, fun _ => by simpa [Dependencies.ready, hreq, hpull] using hready⟩
      | starting => simp [Dependencies.ready, hreq, hpull] at hready
      | _ => exact ⟨nofun, nofun⟩

/-- The start itself. -/
def webStart : Action := .work (.unit ⟨.target, "web.target"⟩ (.transition false)) {}

/-- The status of the unit is not `NeverStarted`. -/
def HasLeft (t : UnitTable) (x : UnitId) : Prop := t.status x ≠ some .neverStarted

/-- What a unit waits for: a loaded `After=` dependency that it pulls in or that is needed too. -/
structure WaitsFor (cfg : Config) (t : UnitTable) (x d : UnitId) : Prop where
  after : d ∈ (t.deps x).after
  loaded : d ∈ t.ids
  needed : (t.deps x).isRequired d = true ∨ (t.deps x).isPulled d = true ∨ d ∈ cfg.neededIds

/-- A unit that only the workers that have it start: udev writes the status of devices, and the
    slices of a unit are marked when the unit is. -/
structure Walked (t : UnitTable) (x : UnitId) : Prop where
  device : x.kind ≠ .device
  slice : ∀ y, ∀ name ∈ sliceNamesOf t y, t.named name ≠ some x

/-- Another thread writes devices and units that have left `NeverStarted`, and puts none back. -/
def Owned (s : Walk) : Action → Prop
  | .env id status => status ≠ .neverStarted ∧ (id.kind = .device ∨ HasLeft s.table id)
  | _ => True

instance (t : UnitTable) (x : UnitId) : Decidable (HasLeft t x) :=
  inferInstanceAs (Decidable (_ ≠ _))

instance : ∀ (s : Walk) (act : Action), Decidable (Owned s act)
  | _, .env .. => inferInstanceAs (Decidable (_ ∧ (_ ∨ _)))
  | _, .work .. => .isTrue trivial
  | _, .release _ => .isTrue trivial

theorem WaitsFor.left_of_satisfied (h : WaitsFor cfg t x d) (hsat : Satisfied cfg t x d) :
    HasLeft t d := by
  intro hnever
  cases hreq : (t.deps x).isRequired d with
  | true =>
    rcases hsat.required hreq with hstarted | ⟨hnot, -⟩
    · rw [UnitTable.started, hnever] at hstarted
      cases hstarted
    · exact hnot h.loaded
  | false =>
    cases hpull : (t.deps x).isPulled d with
    | true => rcases hsat.pulled hreq hpull _ hnever with h | h <;> cases h
    | false =>
      rcases h.needed with h | h | h
      · rw [hreq] at h
        cases h
      · rw [hpull] at h
        cases h
      · exact (hsat.ordered hreq hpull _ hnever).2 rfl h

/-- No outcome puts a unit back. -/
theorem Outcome.eq_neverStarted {o : Outcome} {specific : Specific} {current : UnitStatus}
    (h : o.status specific current = .neverStarted) : current = .neverStarted := by
  unfold Outcome.status at h
  split at h
  · exact h
  · cases h
  · cases h
  · cases h
  · split_ifs at h
    exact h
  · cases h
  · cases h
  · cases h
  · split_ifs at h
    exact h

/-- A status that a worker writes: of its own unit, of a conflicting unit or of a slice. It is
    `NeverStarted` only if it was. -/
theorem Phase.write_cases {phase : Phase} (h : phase.effect cfg t locked id a = some e)
    {status : UnitStatus} (hw : e.write = some (x, status)) :
    (status = .neverStarted → t.status x = some .neverStarted) ∧
      (x = id ∨ (∃ rest, phase = .deactivate x rest ∨ phase = .stopping x rest) ∨
        ∃ name rest, phase = .slices (name :: rest) ∧ t.named name = some x) := by
  rcases Phase.effect_cases h with ⟨p, -, -, hmove⟩ | ⟨-, hend⟩ | ⟨next, -, -, -, hnone⟩
  · rw [hw] at hmove
    cases hmove with
    | skipped hassert => exact ⟨nofun, .inl rfl⟩
    | stop conflict rest => exact ⟨nofun, .inr (.inl ⟨rest, .inl rfl⟩)⟩
    | stopped conflict rest => exact ⟨nofun, .inr (.inl ⟨rest, .inr rfl⟩)⟩
    | start was hready => exact ⟨nofun, .inl rfl⟩
    | ran was hspecific hcurrent hpossible =>
      refine ⟨fun hnever => ?_, .inl rfl⟩
      exact hcurrent.trans (congrArg some (Outcome.eq_neverStarted hnever))
    | mark rest hnamed hstarted => exact ⟨nofun, .inr (.inr ⟨_, rest, rfl, hnamed⟩)⟩
  · rw [hw] at hend
    generalize e.parked = entries at hend
    cases hend with
    | asserted hassert => exact ⟨nofun, .inl rfl⟩
  · rw [hw] at hnone
    cases hnone

/-- The status of a unit after a step: that of before, or what was written. -/
theorem status_carryOut (job : Job) (e : Effect) (x : UnitId) :
    (s.carryOut job e).table.status x = s.table.status x ∨
      ∃ status, e.write = some (x, status) ∧ (s.carryOut job e).table.status x = some status := by
  rw [Walk.carryOut]
  cases hw : e.write with
  | none => exact .inl rfl
  | some w =>
    obtain ⟨y, status⟩ := w
    dsimp only [Option.elim]
    by_cases hx : x = y ∧ y ∈ s.table.ids
    · obtain ⟨rfl, hmem⟩ := hx
      exact .inr ⟨status, rfl, UnitTable.status_setStatus_self hmem⟩
    · rw [UnitTable.status_setStatus, if_neg hx]
      exact .inl rfl

/-- A status that a worker writes belongs to the job of a unit. -/
theorem Job.effect_unit (h : job.effect cfg t locked a = some e) {w : UnitId × UnitStatus}
    (hw : e.write = some w) :
    ∃ id phase, job = .unit id phase ∧ phase.effect cfg t locked id a = some e := by
  cases job with
  | scan ids startables =>
    cases ids with
    | nil => cases h; cases hw
    | cons id ids =>
      rw [Job.effect] at h
      split_ifs at h <;> cases h <;> cases hw
  | check id deps unstarted ids startables =>
    cases deps with
    | nil => cases h; cases hw
    | cons elem deps => cases h; cases hw
  | unit id phase => exact ⟨id, phase, rfl, h⟩

/-- A unit that has left `NeverStarted` does not go back. -/
theorem hasLeft_step {act : Action} (hown : Owned s act) (hs : step cfg s act = some s')
    (hx : HasLeft s.table x) : HasLeft s'.table x := by
  cases act with
  | work job a =>
    obtain ⟨-, e, he, rfl⟩ := step_work hs
    rcases status_carryOut job e x with hsame | ⟨status, hw, hstatus⟩
    · rwa [HasLeft, hsame]
    · obtain ⟨id, phase, rfl, hphase⟩ := Job.effect_unit he hw
      rw [HasLeft, hstatus]
      intro hnever
      exact hx ((Phase.write_cases hphase hw).1 (Option.some.inj hnever))
  | env id status =>
    cases hs
    rw [HasLeft, UnitTable.status_setStatus]
    split_ifs
    · exact fun hnever => hown.1 (Option.some.inj hnever)
    · exact hx
  | release entry =>
    rw [step] at hs
    split_ifs at hs
    cases hs
    exact hx

/-- The invariant: a scan has seen that what a unit waits for has left `NeverStarted`. -/
structure OrderInv (cfg : Config) (t₀ : UnitTable) (s : Walk) : Prop where
  same : SameUnits t₀ s.table
  jobs : ∀ j ∈ s.jobs, JobOk (fun x d => WaitsFor cfg t₀ x d → HasLeft s.table d)
    (HasLeft s.table) s.table j

theorem WaitsFor.congr (hsame : SameUnits t₀ t) (h : WaitsFor cfg t₀ x d) : WaitsFor cfg t x d := by
  obtain ⟨hafter, hloaded, hneeded⟩ := h
  rw [← hsame.deps] at hafter hneeded
  rw [← hsame.ids] at hloaded
  exact ⟨hafter, hloaded, hneeded⟩

theorem hasLeft_of_started (h : t.started x = true) : HasLeft t x := by
  obtain ⟨status, hstatus⟩ := UnitTable.started_iff.mp h
  rw [HasLeft, hstatus]
  nofun

theorem OrderInv.preserved (h : OrderInv cfg t₀ s) {act : Action} (hown : Owned s act)
    (hs : step cfg s act = some s') : OrderInv cfg t₀ s' := by
  refine ⟨h.same.preserved hs, fun j hj => ?_⟩
  have hjob := jobOk_step h.jobs hs
    (fun x d hblocks hwaits => (hwaits.congr h.same).left_of_satisfied
      (satisfied_of_not_blocks hblocks)) (fun c => hasLeft_of_started) j hj
  exact hjob.mono (fun x d hseen hwaits => hasLeft_step hown hs (hseen hwaits))
    fun x hx => hasLeft_step hown hs hx

/-- When a unit leaves `NeverStarted`, what it waits for has left already. -/
theorem OrderInv.leaves (h : OrderInv cfg t₀ s) {act : Action} (hown : Owned s act)
    (hs : step cfg s act = some s') (hwalked : Walked t₀ x) (hbefore : ¬ HasLeft s.table x)
    (hafter : HasLeft s'.table x) (hwaits : WaitsFor cfg t₀ x d) : HasLeft s.table d := by
  cases act with
  | work job a =>
    obtain ⟨hjob, e, he, rfl⟩ := step_work hs
    rcases status_carryOut job e x with hsame | ⟨status, hw, hstatus⟩
    · rw [HasLeft, hsame] at hafter
      exact absurd hafter hbefore
    · obtain ⟨id, phase, rfl, hphase⟩ := Job.effect_unit he hw
      have hok := h.jobs _ hjob
      rcases (Phase.write_cases hphase hw).2 with rfl | ⟨rest, rfl | rfl⟩ | ⟨name, rest, rfl, hname⟩
      · exact hok.1 d (by rw [h.same.deps]; exact hwaits.after) hwaits
      · exact absurd hok.2 hbefore
      · exact absurd hok.2 hbefore
      · have hmem := hok.2 name List.mem_cons_self
        rw [sliceNamesOf, h.same.specific] at hmem
        rw [h.same.named] at hname
        exact absurd hname (hwalked.slice id name hmem)
  | env id status =>
    cases hs
    by_cases hx : x = id
    · subst hx
      rcases hown.2 with hdevice | hleft
      · exact absurd hdevice hwalked.device
      · exact absurd hleft hbefore
    · rw [HasLeft, UnitTable.status_setStatus_of_ne hx] at hafter
      exact absurd hafter hbefore
  | release entry =>
    rw [step] at hs
    split_ifs at hs
    cases hs
    exact absurd hafter hbefore

end OxidizedSystemd.Units.Activation
