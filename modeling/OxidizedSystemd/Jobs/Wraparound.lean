import OxidizedSystemd.Jobs.Invariant

/-!
# Job ids after the counter wraps

`create` takes the next value of a wrapping `u32` counter that skips `0` and
inserts the job under it without a look at the jobs installed. A job that
stays installed through `2^32 - 1` allocations is overwritten by the next one.

* `Aged`: a registry with the number of allocations so far and, for each id,
  how many there had been when it was handed out.
* `installed_kept_iff`: a run never overwrites an installed job if and only if
  at each `create` that installs, every job still installed is younger than
  `2^32 - 1` allocations.
* `wrapped_id_overwrites`: the run that replaces the job of one unit until the
  id of another unit's job comes round.
-/

namespace OxidizedSystemd.Jobs

open OxidizedSystemd.Units OxidizedSystemd.Lib JobRegistry

/-- The number of different job ids. -/
def idCount : ℕ := 2 ^ 32 - 1

/-- The id handed out after `k` allocations. -/
def nthId (k : ℕ) : JobId := k % idCount + 1

theorem allocNext_nthId (k : ℕ) : allocNext (nthId k) = nthId (k + 1) := by
  unfold allocNext nthId idCount JobId
  omega

/-- Within one round of the counter an id comes back only at its end. -/
theorem nthId_eq_iff {b k : ℕ} (hlt : b < k) (hle : k - b ≤ idCount) :
    nthId b = nthId k ↔ k - b = idCount := by
  unfold nthId idCount JobId at *
  omega

/-! ## Allocations -/

/-- The registry in which a call allocates an id, if it does. -/
def Op.base (r : JobRegistry) : Op → Option JobRegistry
  | .create unit kind _ mode => r.createBase unit kind mode
  | _ => none

/-- The call does not overwrite a job that is still installed when it allocates an id. -/
def KeepsInstalled (r : JobRegistry) (op : Op) : Prop :=
  ∀ base r', op.base r = some base → op.step r = some r' →
    r.nextId ∉ base.jobs ∧
      ∀ id job, base.jobs.lookup id = some job → r'.jobs.lookup id = some job

/-- A registry with the number of allocations so far and, for each id, the number before it was
    last handed out. -/
structure Aged where
  reg : JobRegistry
  allocs : ℕ
  born : JobId → ℕ

def Aged.new : Aged := ⟨JobRegistry.new, 0, fun _ => 0⟩

/-- One call with its bookkeeping. -/
def Aged.step (a : Aged) (op : Op) : Option Aged :=
  (op.step a.reg).map fun reg =>
    match op.base a.reg with
    | none => { a with reg := reg }
    | some _ =>
      { reg := reg
        allocs := a.allocs + 1
        born := Function.update a.born a.reg.nextId a.allocs }

theorem Aged.step_reg (a : Aged) (op : Op) : (a.step op).map Aged.reg = op.step a.reg := by
  unfold Aged.step
  rw [Option.map_map]
  refine (congrArg (fun f => Option.map f _) ?_).trans Option.map_id'
  funext reg
  cases op.base a.reg <;> rfl

/-- Every job that is still installed when the call allocates was installed fewer than
    `2^32 - 1` allocations ago. -/
def YoungerThanRound (a : Aged) (op : Op) : Prop :=
  ∀ base, op.base a.reg = some base → ∀ id ∈ base.jobs, a.allocs - a.born id < idCount

/-! ## The invariant of runs that overwrite nothing -/

/-- Ids are handed out in order and no installed job is older than a round. -/
structure InOrder (a : Aged) : Prop where
  consistent : Consistent a.reg
  next : a.reg.nextId = nthId a.allocs
  born : ∀ id ∈ a.reg.jobs, a.born id < a.allocs ∧ id = nthId (a.born id) ∧
    a.allocs - a.born id ≤ idCount

theorem inOrder_new : InOrder Aged.new where
  consistent := consistent_new
  next := rfl
  born id hid := absurd hid (AList.notMem_empty id)

/-- What a call does to the ids of a consistent registry. -/
theorem Op.Does.base_cases {r r' : JobRegistry} {op : Op} {sent : List (Sender × JobResult)}
    (hr : Consistent r) (h : op.Does r r' sent) :
    (op.base r = none ∧ Consistent r' ∧ r'.nextId = r.nextId ∧ ∀ id ∈ r'.jobs, id ∈ r.jobs) ∨
    ∃ base unit kind source, op.base r = some base ∧ Consistent base ∧
      base.nextId = r.nextId ∧ (∀ id ∈ base.jobs, id ∈ r.jobs) ∧ base.byUnit unit = none ∧
      r' = base.install unit kind source := by
  have hkeeps : ∀ {β : Type} {view : Job → β} {r' : JobRegistry}, Keeps view r r' →
      ∀ id ∈ r'.jobs, id ∈ r.jobs := by
    intro β view r' hk id hid
    rw [← AList.lookup_isSome, hk.lookup_isSome] at hid
    exact AList.lookup_isSome.mp hid
  have hfinish : ∀ {id result i}, i ∈ (r.finish id result).reg.jobs → i ∈ r.jobs := by
    intro id result i hi
    rw [← AList.lookup_isSome, lookup_finish] at hi
    split_ifs at hi
    · cases hi
    · exact AList.lookup_isSome.mp hi
  cases h with
  | finish id result =>
    exact .inl ⟨rfl, hr.finish id result, finish_nextId r id result, fun _ => hfinish⟩
  | addWaiter id waiter =>
    have hk : Keeps index r (r.addWaiter id waiter) := keeps_modifyJob r id fun _ => rfl
    exact .inl ⟨rfl, hr.keeps hk, hk.nextId, hkeeps hk⟩
  | upkeep hop hk =>
    refine .inl ⟨?_, hr.upkeep hk, hk.nextId, hkeeps hk⟩
    cases op with
    | create => cases hop
    | _ => rfl
  | create _ hc =>
    cases hc with
    | refused message hbase => exact .inl ⟨hbase, hr, rfl, fun _ hid => hid⟩
    | merged id reg _ hbase hk => exact .inl ⟨hbase, hr.upkeep hk, hk.nextId, hkeeps hk⟩
    | installed hunit hbase =>
      exact .inr ⟨r, _, _, _, hbase, hr, rfl, fun _ hid => hid, hunit, rfl⟩
    | replaced id job _ hjob hunit hbase =>
      refine .inr ⟨_, _, _, _, hbase, hr.finish id .canceled, finish_nextId r id .canceled,
        fun _ => hfinish, ?_, rfl⟩
      rw [hr.finish_byUnit hjob, hunit, Function.update_self]

/-- One call: it overwrites nothing if and only if no job still installed is a round old, and
    then the ids stay in order. -/
theorem InOrder.step {a : Aged} (ha : InOrder a) (op : Op) :
    (KeepsInstalled a.reg op ↔ YoungerThanRound a op) ∧
    ∃ a', a.step op = some a' ∧ (YoungerThanRound a op → InOrder a') := by
  obtain ⟨r', sent, happly, hdoes⟩ := op.apply_cases ha.consistent
  have hstep : op.step a.reg = some r' := by rw [Op.step, happly]; rfl
  rcases hdoes.base_cases ha.consistent with
    ⟨hbase, hr', hnext, hsub⟩ | ⟨base, unit, kind, source, hbase, hb, hnext, hsub, hunit, rfl⟩
  · refine ⟨⟨fun _ b h => ?_, fun _ b _ h => ?_⟩, { a with reg := r' }, ?_, fun _ => ?_⟩
    · rw [hbase] at h
      cases h
    · rw [hbase] at h
      cases h
    · rw [Aged.step, hstep, hbase]
      rfl
    · exact ⟨hr', hnext.trans ha.next, fun id hid => ha.born id (hsub id hid)⟩
  · have hfree : YoungerThanRound a op ↔ a.reg.nextId ∉ base.jobs := by
      constructor
      · intro hyoung hid
        obtain ⟨hlt, hnth, hle⟩ := ha.born _ (hsub _ hid)
        have hage := hyoung base hbase _ hid
        exact hage.ne ((nthId_eq_iff hlt hle).mp (hnth.symm.trans ha.next))
      · intro hfree base' hbase' id hid
        rw [hbase] at hbase'
        cases hbase'
        obtain ⟨hlt, hnth, hle⟩ := ha.born id (hsub id hid)
        refine lt_of_le_of_ne hle fun hage => hfree ?_
        rw [ha.next, ← (nthId_eq_iff hlt hle).mpr hage, ← hnth]
        exact hid
    rw [← hnext] at hfree
    refine ⟨⟨fun hkeeps => ?_, fun hyoung base' r' hbase' hstep' => ?_⟩,
      ⟨base.install unit kind source, a.allocs + 1,
        Function.update a.born a.reg.nextId a.allocs⟩, ?_, fun hyoung => ?_⟩
    · rw [hfree, hnext]
      exact (hkeeps base _ hbase hstep).1
    · rw [hbase] at hbase'
      rw [hstep] at hstep'
      cases hbase'
      cases hstep'
      have hnone := AList.lookup_eq_none.mpr (hfree.mp hyoung)
      exact ⟨hnext ▸ hfree.mp hyoung, fun id job hj => lookup_install_of_some hnone hj⟩
    · rw [Aged.step, hstep, hbase]
      rfl
    · have hnone := AList.lookup_eq_none.mpr (hfree.mp hyoung)
      refine ⟨hb.install hunit hnone _ _, ?_, fun id hid => ?_⟩
      · exact (congrArg allocNext (hnext.trans ha.next)).trans (allocNext_nthId a.allocs)
      · dsimp only at hid ⊢
        rw [← AList.lookup_isSome, lookup_install] at hid
        by_cases hi : id = a.reg.nextId
        · subst hi
          rw [Function.update_self]
          exact ⟨Nat.lt_succ_self _, ha.next, by unfold idCount; omega⟩
        · rw [Function.update_of_ne hi]
          rw [hnext, if_neg hi] at hid
          have hmem := AList.lookup_isSome.mp hid
          obtain ⟨hlt, hnth, -⟩ := ha.born id (hsub id hmem)
          have hage := hyoung base hbase id hmem
          exact ⟨by omega, hnth, by omega⟩

/-- A run overwrites no installed job if and only if at every `create` that allocates, each job
    still installed is younger than `2^32 - 1` allocations; such a run never panics. -/
theorem installed_kept_iff (ops : List Op) :
    (RunMeets Aged.step (fun a op => KeepsInstalled a.reg op) Aged.new ops ↔
      RunMeets Aged.step YoungerThanRound Aged.new ops) ∧
    (RunMeets Aged.step YoungerThanRound Aged.new ops →
      ∃ r, run Op.step JobRegistry.new ops = some r ∧ Consistent r) := by
  constructor
  · refine runMeets_congr (fun a op ha => (ha.step op).1) (fun a op a' ha hyoung hstep => ?_) ops
      inOrder_new
    obtain ⟨a'', hstep', hinv⟩ := (ha.step op).2
    rw [hstep] at hstep'
    cases hstep'
    exact hinv hyoung
  · intro hyoung
    obtain ⟨a, hrun, ha⟩ := run_exists_of_meets (P := InOrder) (fun a op ha hyoung => by
      obtain ⟨a', hstep, hinv⟩ := (ha.step op).2
      exact ⟨a', hstep, hinv hyoung⟩) ops inOrder_new hyoung
    refine ⟨a.reg, ?_, ha.consistent⟩
    have := run_map Aged.reg Aged.step_reg ops Aged.new
    rw [hrun] at this
    exact this.symm

/-! ## A job that outlives the round -/

/-- The long-running job's unit, the unit whose job is replaced and the unit that comes last. -/
def keptUnit : UnitId := ⟨.service, "kept.service"⟩

def churnedUnit : UnitId := ⟨.service, "churned.service"⟩

def lateUnit : UnitId := ⟨.service, "late.service"⟩

/-- A request for the churned unit that replaces its job. -/
def churn (kind : JobKind) : Op := .create churnedUnit kind .regular .replace

/-- `n` times a start and a stop of the churned unit, each replacing the one before. -/
def churns : ℕ → List Op
  | 0 => []
  | n + 1 => churns n ++ [churn .start, churn .stop]

/-- Job 1 with a waiter, then `2 * n` ids used up by the churned unit. -/
def keptRun (n : ℕ) : List Op :=
  [.create keptUnit .start .regular .replace, .addWaiter 1 7] ++ churns n

def lateCreate : Op := .create lateUnit .start .regular .replace

def keptJob : Job := { newJob 1 keptUnit .start .regular with waiters := [7] }

/-- The registry after `k` allocations, the last of them a job of the churned unit. -/
structure Churned (k : ℕ) (kind : JobKind) (r : JobRegistry) : Prop where
  next : r.nextId = nthId k
  kept : r.jobs.lookup 1 = some keptJob
  late : r.byUnit lateUnit = none
  last : r.byUnit churnedUnit = none ∨ ∃ id job, r.byUnit churnedUnit = some id ∧ id ≠ 1 ∧
    r.jobs.lookup id = some job ∧ job.unit = churnedUnit ∧ job.kind = kind

theorem nthId_ne_one {k : ℕ} (h : 1 ≤ k) (hk : k < idCount) : nthId k ≠ 1 := by
  unfold nthId JobId
  rw [Nat.mod_eq_of_lt hk]
  omega

theorem Churned.install {k : ℕ} {kind kind' : JobKind} {r : JobRegistry} (h : Churned k kind r)
    (h1 : 1 ≤ k) (hk : k < idCount) :
    Churned (k + 1) kind' (r.install churnedUnit kind' .regular) where
  next := (congrArg allocNext h.next).trans (allocNext_nthId k)
  kept := by
    rw [lookup_install, if_neg, h.kept]
    rw [h.next]
    exact (nthId_ne_one h1 hk).symm
  late := by
    rw [install_byUnit, Function.update_of_ne (by decide)]
    exact h.late
  last := by
    refine .inr ⟨r.nextId, newJob r.nextId churnedUnit kind' .regular, ?_, ?_, ?_, rfl, rfl⟩
    · rw [install_byUnit, Function.update_self]
    · rw [h.next]
      exact nthId_ne_one h1 hk
    · rw [lookup_install, if_pos rfl]

theorem Churned.finish {k id : ℕ} {kind : JobKind} {job : Job} {r : JobRegistry}
    (h : Churned k kind r) (hid : id ≠ 1) (hjob : r.jobs.lookup id = some job)
    (hunit : job.unit = churnedUnit) (hb : r.byUnit churnedUnit = some id) :
    Churned k kind (r.finish id .canceled).reg where
  next := (finish_nextId r id .canceled).trans h.next
  kept := by rw [lookup_finish, if_neg (Ne.symm hid), h.kept]
  late := by
    rw [finish_eq_of_some hjob, hunit]
    dsimp only
    rw [if_pos hb, Function.update_of_ne (by decide)]
    exact h.late
  last := by
    rw [finish_eq_of_some hjob, hunit]
    dsimp only
    rw [if_pos hb, Function.update_self]
    exact .inl rfl

/-- A request that does not merge allocates the next id and leaves job 1 alone. -/
theorem Churned.step {k : ℕ} {kind : JobKind} {r : JobRegistry} (h : Churned k kind r)
    (kind' : JobKind) (h1 : 1 ≤ k) (hk : k < idCount) (hmerge : mergeKinds kind kind' = none) :
    ∃ r', (churn kind').step r = some r' ∧ Churned (k + 1) kind' r' := by
  rcases h.last with hb | ⟨id, job, hb, hid, hjob, hunit, rfl⟩
  · refine ⟨_, ?_, h.install h1 hk⟩
    rw [churn, Op.step, Op.apply, create_of_none hb]
    rfl
  · refine ⟨_, ?_, (h.finish hid hjob hunit hb).install h1 hk⟩
    rw [churn, Op.step, Op.apply, create_replace hb hjob hmerge]
    rfl

theorem churns_run {r : JobRegistry} (h : Churned 1 .stop r) :
    ∀ n, 2 * n + 1 ≤ idCount → ∃ r', run Op.step r (churns n) = some r' ∧
      Churned (2 * n + 1) .stop r' := by
  intro n
  induction n with
  | zero => exact fun _ => ⟨r, rfl, h⟩
  | succ n ih =>
    intro hn
    obtain ⟨r₀, hrun, h₀⟩ := ih (by omega)
    obtain ⟨r₁, hstart, h₁⟩ := h₀.step .start (by omega) (by omega) rfl
    obtain ⟨r₂, hstop, h₂⟩ := h₁.step .stop (by omega) (by omega) rfl
    exact ⟨r₂, run_append_eq_some.mpr ⟨r₀, hrun, run_cons_eq_some.mpr ⟨r₁, hstart,
      run_cons_eq_some.mpr ⟨r₂, hstop, rfl⟩⟩⟩, h₂⟩

theorem keptRun_run {n : ℕ} (hn : 2 * n + 1 ≤ idCount) :
    ∃ r, run Op.step JobRegistry.new (keptRun n) = some r ∧ Churned (2 * n + 1) .stop r := by
  have hfirst : ∃ r, run Op.step JobRegistry.new
      [.create keptUnit .start .regular .replace, .addWaiter 1 7] = some r ∧ Churned 1 .stop r :=
    ⟨_, rfl, rfl, by decide, rfl, .inl rfl⟩
  obtain ⟨r₀, hrun₀, h₀⟩ := hfirst
  obtain ⟨r, hrun, h⟩ := churns_run h₀ n hn
  exact ⟨r, run_append_eq_some.mpr ⟨r₀, hrun₀, hrun⟩, h⟩

/-- When the ids have come round, a create for the late unit gets id 1. -/
theorem Churned.lateCreate {k : ℕ} {kind : JobKind} {r : JobRegistry} (h : Churned k kind r)
    (hk : nthId k = 1) :
    lateCreate.apply r = some (r.install lateUnit .start .regular, []) ∧
    (r.install lateUnit .start .regular).jobs.lookup 1 =
      some (newJob 1 lateUnit .start .regular) ∧
    ¬ KeepsInstalled r Jobs.lateCreate := by
  have happly : Jobs.lateCreate.apply r = some (r.install lateUnit .start .regular, []) := by
    rw [Jobs.lateCreate, Op.apply, create_of_none h.late]
    rfl
  have hnext : r.nextId = 1 := h.next.trans hk
  have hbase : Jobs.lateCreate.base r = some r := by
    simp only [Jobs.lateCreate, Op.base, createBase, h.late]
  refine ⟨happly, ?_, fun hkeeps => ?_⟩
  · rw [lookup_install, hnext, if_pos rfl]
  · refine (hkeeps r _ hbase (by rw [Op.step, happly]; rfl)).1 ?_
    rw [hnext]
    exact AList.lookup_isSome.mp (by rw [h.kept]; rfl)

/-- After one round of ids the next new job takes id 1: it overwrites the job that still has it,
    and the waiter of that job is gone without a result. -/
theorem wrapped_id_overwrites :
    (∃ r r', run Op.step JobRegistry.new (keptRun (2 ^ 31 - 1)) = some r ∧
      r.jobs.lookup 1 = some keptJob ∧ lateCreate.apply r = some (r', []) ∧
      r'.jobs.lookup 1 = some (newJob 1 lateUnit .start .regular)) ∧
    ¬ ∀ ops, RunMeets Aged.step (fun a op => KeepsInstalled a.reg op) Aged.new ops := by
  obtain ⟨r, hrun, h⟩ := keptRun_run (n := 2 ^ 31 - 1) (by decide)
  obtain ⟨happly, hlookup, hoverwrites⟩ := h.lateCreate (by decide)
  refine ⟨⟨r, _, hrun, h.kept, happly, hlookup⟩, fun hall => ?_⟩
  obtain ⟨a, ha, rfl⟩ := Option.map_eq_some_iff.mp
    ((run_map Aged.reg Aged.step_reg (keptRun (2 ^ 31 - 1)) Aged.new).trans hrun)
  exact hoverwrites ((hall (keptRun (2 ^ 31 - 1) ++ [lateCreate])).at_step ha)

end OxidizedSystemd.Jobs
