import OxidizedSystemd.Jobs.Invariant
import OxidizedSystemd.Lib.Acyclic
import Mathlib.Data.Finset.Image

/-!
# Draining a closure of ordered jobs

The pure scheduler of `units/jobs.rs` (tests, lines 836–889): prime the run
queue with `enqueue_ready`, then pop a job, finish it and re-examine only the
units ordered after the finished one.

* `drain`: the loop.
* `QueueComplete`: exactly the ready jobs are queued; this is what
  `requeue_after_finish` restores although it looks at the neighbours only.
* `drain_complete`: on an acyclic ordering every job runs once, after the jobs
  it is ordered after, and the registry ends empty.
-/

namespace OxidizedSystemd.Jobs

open OxidizedSystemd.Units OxidizedSystemd.Lib JobRegistry

/-! ## Model -/

/-- No unit that `u` is ordered after still has an installed job. -/
def isReady (after : UnitId → List UnitId) (r : JobRegistry) (u : UnitId) : Bool :=
  (after u).all fun v => (r.byUnit v).isNone

/-- Finish a popped job and wake the units ordered after its unit (`units/jobs.rs`,
    lines 876–879). -/
def complete (orderedAfter after : UnitId → List UnitId) (r : JobRegistry) (id : JobId)
    (unit : UnitId) (result : JobResult) : JobRegistry :=
  let r := (r.finish id result).reg
  (r.requeueAfterFinish unit orderedAfter (isReady after r)).2

/-- The `while let` loop (`units/jobs.rs`, lines 874–880); `ran` collects the popped ids. `none`
    when the fuel runs out or a popped id is not installed (`unwrap`). -/
def drainLoop (orderedAfter after : UnitId → List UnitId) (result : UnitId → JobResult) :
    ℕ → JobRegistry → List JobId → Option (List JobId × JobRegistry)
  | 0, _, _ => none
  | fuel + 1, r, ran =>
    match r.popReady with
    | (none, r) => some (ran, r)
    | (some id, r) =>
      match r.get id with
      | none => none
      | some job =>
        let r := complete orderedAfter after r id job.unit (result job.unit)
        drainLoop orderedAfter after result fuel r (ran ++ [id])

/-- Prime the run queue and drain it (`units/jobs.rs`, lines 867–880). -/
def drain (orderedAfter after : UnitId → List UnitId) (result : UnitId → JobResult) (fuel : ℕ)
    (r : JobRegistry) : Option (List JobId × JobRegistry) :=
  drainLoop orderedAfter after result fuel (r.enqueueReady (isReady after r)).2 []

/-! ## What the wake-up passes add to the queue -/

/-- `r'` is `r` with the ids `new` added to the run queue. -/
structure Queued (r r' : JobRegistry) (new : JobId → Prop) : Prop where
  rest : r' = { r with runQueue := r'.runQueue }
  mem : ∀ id, id ∈ r'.runQueue ↔ id ∈ r.runQueue ∨ new id

theorem Queued.refl (r : JobRegistry) : Queued r r fun _ => False :=
  ⟨rfl, fun _ => (or_iff_left id).symm⟩

theorem Queued.trans {r r' r'' : JobRegistry} {new new' : JobId → Prop} (h : Queued r r' new)
    (h' : Queued r' r'' new') : Queued r r'' fun id => new id ∨ new' id where
  rest := by rw [h'.rest, h.rest]
  mem id := by rw [h'.mem, h.mem, or_assoc]

theorem Queued.congr {r r' : JobRegistry} {new new' : JobId → Prop} (h : Queued r r' new)
    (hnew : ∀ id, new id ↔ new' id) : Queued r r' new' :=
  ⟨h.rest, fun id => by rw [h.mem, hnew]⟩

theorem queued_enqueue (r : JobRegistry) (id : JobId) :
    Queued r (r.enqueue id) fun i => i = id ∧ r.isWaiting id := by
  unfold enqueue
  split_ifs with h
  · refine ⟨rfl, fun i => ?_⟩
    rw [List.mem_append, List.mem_singleton, and_iff_left h.1]
  · refine ⟨rfl, fun i => ⟨.inl, ?_⟩⟩
    rintro (hi | ⟨rfl, hw⟩)
    · exact hi
    · exact not_not.mp fun hi => h ⟨hw, hi⟩

theorem queued_requeueStep (isReady : UnitId → Bool) (woken : List JobId) (r : JobRegistry)
    (neighbour : UnitId) :
    Queued r (requeueStep isReady (woken, r) neighbour).2 fun id =>
      r.byUnit neighbour = some id ∧ r.isWaiting id ∧ isReady neighbour := by
  cases hb : r.byUnit neighbour with
  | none =>
    simp only [requeueStep, hb]
    exact (Queued.refl r).congr fun id => ⟨False.elim, fun h => by cases h.1⟩
  | some i =>
    simp only [requeueStep, hb]
    by_cases h : r.isWaiting i ∧ isReady neighbour
    · rw [if_pos h]
      refine (queued_enqueue r i).congr fun id => ?_
      rw [Option.some_inj, eq_comm]
      exact ⟨fun hi => ⟨hi.1, hi.1 ▸ h⟩, fun hi => ⟨hi.1, h.1⟩⟩
    · rw [if_neg h]
      refine (Queued.refl r).congr fun id => ⟨False.elim, fun hi => h ?_⟩
      rw [Option.some_inj.mp hi.1]
      exact hi.2

/-- A loop whose body adds the ids `new r c` for each `c`, where `new` does not look at
    the queue. -/
theorem queued_foldl {γ : Type} {f : List JobId × JobRegistry → γ → List JobId × JobRegistry}
    {new : JobRegistry → γ → JobId → Prop}
    (hf : ∀ woken r c, Queued r (f (woken, r) c).2 (new r c))
    (hnew : ∀ r q c id, new { r with runQueue := q } c id ↔ new r c id) (cs : List γ)
    (woken : List JobId) (r : JobRegistry) :
    Queued r (cs.foldl f (woken, r)).2 fun id => ∃ c ∈ cs, new r c id := by
  induction cs generalizing woken r with
  | nil => exact (Queued.refl r).congr fun id => by simp
  | cons c cs ih =>
    have h := hf woken r c
    refine (h.trans (ih (f (woken, r) c).1 (f (woken, r) c).2)).congr fun id => ?_
    rw [List.exists_mem_cons_iff, h.rest]
    exact or_congr_right (exists_congr fun c' => and_congr_right fun _ => hnew r _ c' id)

theorem queued_requeueAfterFinish (r : JobRegistry) (finished : UnitId)
    (orderedAfter : UnitId → List UnitId) (isReady : UnitId → Bool) :
    Queued r (r.requeueAfterFinish finished orderedAfter isReady).2 fun id =>
      ∃ n ∈ orderedAfter finished, r.byUnit n = some id ∧ r.isWaiting id ∧ isReady n :=
  queued_foldl (queued_requeueStep isReady) (fun _ _ _ _ => Iff.rfl) _ [] r

theorem mem_waitingCandidates {r : JobRegistry} {id : JobId} {unit : UnitId} :
    (id, unit) ∈ r.waitingCandidates ↔
      ∃ job, r.jobs.lookup id = some job ∧ job.state = .waiting ∧ job.unit = unit := by
  unfold waitingCandidates
  rw [List.mem_insertionSort, List.mem_map]
  constructor
  · rintro ⟨⟨i, job⟩, hmem, heq⟩
    obtain ⟨hmem, hw⟩ := List.mem_filter.mp hmem
    cases heq
    exact ⟨job, AList.mem_lookup_iff.mpr hmem, of_decide_eq_true hw, rfl⟩
  · rintro ⟨job, hjob, hw, rfl⟩
    exact ⟨⟨id, job⟩, List.mem_filter.mpr ⟨AList.mem_lookup_iff.mp hjob, decide_eq_true hw⟩, rfl⟩

theorem queued_enqueueReadyStep (isReady : UnitId → Bool) (queued : List JobId) (r : JobRegistry)
    (candidate : JobId × UnitId) :
    Queued r (enqueueReadyStep isReady (queued, r) candidate).2 fun id =>
      id = candidate.1 ∧ r.isWaiting id ∧ isReady candidate.2 := by
  obtain ⟨i, unit⟩ := candidate
  simp only [enqueueReadyStep]
  split_ifs with h
  · refine (queued_enqueue r i).congr fun id => and_congr_right fun hi => ?_
    rw [hi]
    exact (and_iff_left h.2).symm
  · refine ⟨rfl, fun id => ⟨.inl, ?_⟩⟩
    rintro (hi | ⟨rfl, -, hready⟩)
    · exact hi
    · exact not_not.mp fun hi => h ⟨hi, hready⟩

theorem queued_enqueueReady (r : JobRegistry) (isReady : UnitId → Bool) :
    Queued r (r.enqueueReady isReady).2 fun id =>
      ∃ job, r.jobs.lookup id = some job ∧ job.state = .waiting ∧ isReady job.unit := by
  refine (queued_foldl (queued_enqueueReadyStep isReady) (fun _ _ _ _ => Iff.rfl) _ [] r).congr
    fun id => ?_
  constructor
  · rintro ⟨⟨i, unit⟩, hmem, rfl, -, hready⟩
    obtain ⟨job, hjob, hw, rfl⟩ := mem_waitingCandidates.mp hmem
    exact ⟨job, hjob, hw, hready⟩
  · rintro ⟨job, hjob, hw, hready⟩
    exact ⟨(id, job.unit), mem_waitingCandidates.mpr ⟨job, hjob, hw, rfl⟩, rfl,
      isWaiting_iff.mpr ⟨job, hjob, hw⟩, hready⟩

/-! ## The invariant of the loop -/

section Drain

variable {orderedAfter after : UnitId → List UnitId} {result : UnitId → JobResult}

/-- A closure of installed jobs that is ready to be drained: nothing runs and `ordered_after` is
    the converse of `after` between the units with a job. -/
structure Closure (orderedAfter after : UnitId → List UnitId) (r : JobRegistry) : Prop where
  consistent : Consistent r
  waiting : ∀ {id job}, r.jobs.lookup id = some job → job.state = .waiting
  converse : ∀ {u v}, (r.byUnit u).isSome → (r.byUnit v).isSome →
    (v ∈ orderedAfter u ↔ u ∈ after v)
  acyclic : Acyclic (Within (fun u => (r.byUnit u).isSome) fun u v => v ∈ after u)

/-- Exactly the ready jobs are queued. -/
def QueueComplete (after : UnitId → List UnitId) (r : JobRegistry) : Prop :=
  ∀ {id job}, r.jobs.lookup id = some job → (id ∈ r.runQueue ↔ isReady after r job.unit)

theorem isReady_iff {r : JobRegistry} {u : UnitId} :
    isReady after r u ↔ ∀ v ∈ after u, r.byUnit v = none := by
  unfold isReady
  rw [List.all_eq_true]
  exact forall₂_congr fun v _ => Option.isNone_iff_eq_none

theorem isReady_congr {r r' : JobRegistry} (h : r'.byUnit = r.byUnit) :
    isReady after r' = isReady after r := by
  unfold isReady
  rw [h]

theorem Closure.queued {r r' : JobRegistry} {new : JobId → Prop} (h : Closure orderedAfter after r)
    (hq : Queued r r' new) (hr' : Consistent r') : Closure orderedAfter after r' := by
  have hjobs : r'.jobs = r.jobs := by rw [hq.rest]
  have hbyUnit : r'.byUnit = r.byUnit := by rw [hq.rest]
  refine ⟨hr', fun hj => h.waiting (hjobs ▸ hj), ?_, ?_⟩
  · rw [hbyUnit]
    exact h.converse
  · rw [hbyUnit]
    exact h.acyclic

/-- The priming pass makes the queue complete. -/
theorem queueComplete_enqueueReady {r : JobRegistry} (h : Closure orderedAfter after r)
    (hq : r.runQueue = []) : QueueComplete after (r.enqueueReady (isReady after r)).2 := by
  have hqueued := queued_enqueueReady r (isReady after r)
  have hjobs : (r.enqueueReady (isReady after r)).2.jobs = r.jobs := by rw [hqueued.rest]
  have hbyUnit : (r.enqueueReady (isReady after r)).2.byUnit = r.byUnit := by rw [hqueued.rest]
  intro id job hj
  rw [hjobs] at hj
  rw [isReady_congr hbyUnit, hqueued.mem, hq, or_iff_right List.not_mem_nil]
  constructor
  · rintro ⟨job', hj', -, hready⟩
    rw [hj] at hj'
    cases hj'
    exact hready
  · exact fun hready => ⟨job, hj, h.waiting hj, hready⟩

/-- The loop never stalls: while jobs are installed one of them is queued. -/
theorem Closure.exists_queued {r : JobRegistry} (h : Closure orderedAfter after r)
    (hq : QueueComplete after r) {id : JobId} (hid : id ∈ r.jobs) : ∃ i, i ∈ r.runQueue := by
  classical
  obtain ⟨job, hjob⟩ := Option.isSome_iff_exists.mp (AList.lookup_isSome.mpr hid)
  have hmem : ∀ {u : UnitId}, u ∈ (r.jobs.entries.map fun e => e.2.unit).toFinset ↔
      (r.byUnit u).isSome := by
    intro u
    rw [List.mem_toFinset, List.mem_map]
    constructor
    · rintro ⟨⟨i, a⟩, ha, rfl⟩
      rw [h.consistent.jobByUnit (AList.mem_lookup_iff.mpr ha)]
      rfl
    · intro hu
      obtain ⟨i, hi⟩ := Option.isSome_iff_exists.mp hu
      obtain ⟨a, ha, rfl⟩ := h.consistent.byUnitJob hi
      exact ⟨⟨i, a⟩, AList.mem_lookup_iff.mp ha, rfl⟩
  have hjobUnit : (r.byUnit job.unit).isSome := by rw [h.consistent.jobByUnit hjob]; rfl
  obtain ⟨u, hu, hsource⟩ := h.acyclic.swap.exists_source ⟨job.unit, hmem.mpr hjobUnit⟩
  obtain ⟨i, hi⟩ := Option.isSome_iff_exists.mp (hmem.mp hu)
  obtain ⟨a, ha, rfl⟩ := h.consistent.byUnitJob hi
  refine ⟨i, (hq ha).mpr (isReady_iff.mpr fun v hv => ?_)⟩
  rw [← Option.not_isSome_iff_eq_none]
  exact fun hsome => hsource v (hmem.mpr hsome) ⟨hmem.mp hu, hsome, hv⟩

/-- `r'` is `r` after the job `id` was popped and finished. -/
structure Retired (r r' : JobRegistry) (id : JobId) (unit : UnitId) : Prop where
  consistent : Consistent r'
  jobs : ∀ i, r'.jobs.lookup i = if i = id then none else r.jobs.lookup i
  byUnit : r'.byUnit = Function.update r.byUnit unit none
  queue : ∀ i, i ∈ r'.runQueue ↔ i ∈ r.runQueue ∧ i ≠ id

/-- `r` after `pop_ready` took `id` off the queue and left `rest` on it. -/
def popped (r : JobRegistry) (id : JobId) (rest : List JobId) : JobRegistry :=
  { r.setRunning id with runQueue := rest }

theorem popReady_cons {r : JobRegistry} {id : JobId} {rest : List JobId}
    (hq : r.runQueue = id :: rest) (hw : r.isWaiting id) :
    r.popReady = (some id, popped r id rest) := by
  rw [popReady, hq, popReadyFrom, if_pos hw, popped]

theorem upkeep_popped {r : JobRegistry} {id : JobId} {rest : List JobId}
    (hq : r.runQueue = id :: rest) : Upkeep r (popped r id rest) := by
  refine (upkeep_setRunning r id).trans (upkeep_dropQueued _ ?_)
  rw [setRunning, modifyJob_runQueue, hq]
  exact List.sublist_cons_self id rest

theorem lookup_popped {r : JobRegistry} {id : JobId} {job : Job} (rest : List JobId)
    (hj : r.jobs.lookup id = some job) (i : JobId) :
    (popped r id rest).jobs.lookup i =
      if i = id then some { job with state := .running } else r.jobs.lookup i := by
  change (r.setRunning id).jobs.lookup i = _
  rw [setRunning, lookup_modifyJob, hj]
  rfl

theorem retired_finish {r : JobRegistry} (hr : Consistent r) {id : JobId} {job : Job}
    {rest : List JobId} (hq : r.runQueue = id :: rest) (hj : r.jobs.lookup id = some job)
    (result : JobResult) : Retired r ((popped r id rest).finish id result).reg id job.unit := by
  have hkeep := upkeep_popped hq
  have hjob := (lookup_popped rest hj id).trans (if_pos rfl)
  refine ⟨(hr.upkeep hkeep).finish id result, fun i => ?_, ?_, fun i => ?_⟩
  · rw [lookup_finish]
    split_ifs with hi
    · rfl
    · rw [lookup_popped rest hj, if_neg hi]
  · rw [(hr.upkeep hkeep).finish_byUnit hjob result, hkeep.byUnit]
  · rw [finish_eq_of_some hjob, hq]
    change i ∈ rest.filter (· ≠ id) ↔ i ∈ id :: rest ∧ i ≠ id
    rw [List.mem_filter, decide_eq_true_iff, List.mem_cons]
    exact ⟨fun h => ⟨.inr h.1, h.2⟩, fun h => ⟨h.1.resolve_left h.2, h.2⟩⟩

theorem Retired.byUnit_of_isSome {r r' : JobRegistry} {id : JobId} {unit u : UnitId}
    (h : Retired r r' id unit) (hu : (r'.byUnit u).isSome) :
    u ≠ unit ∧ (r.byUnit u).isSome := by
  rw [h.byUnit] at hu
  by_cases hunit : u = unit
  · rw [hunit, Function.update_self] at hu
    cases hu
  · rw [Function.update_of_ne hunit] at hu
    exact ⟨hunit, hu⟩

theorem Closure.retired {r r' : JobRegistry} {id : JobId} {unit : UnitId}
    (h : Closure orderedAfter after r) (hret : Retired r r' id unit) :
    Closure orderedAfter after r' where
  consistent := hret.consistent
  waiting {i job} hj := by
    rw [hret.jobs] at hj
    split_ifs at hj
    exact h.waiting hj
  converse hu hv := h.converse (hret.byUnit_of_isSome hu).2 (hret.byUnit_of_isSome hv).2
  acyclic := h.acyclic.mono fun _ _ hab =>
    ⟨(hret.byUnit_of_isSome hab.1).2, (hret.byUnit_of_isSome hab.2.1).2, hab.2.2⟩

/-- A unit that becomes ready when a job retires is ordered after that job's unit. -/
theorem Retired.mem_after {r r' : JobRegistry} {id : JobId} {unit u : UnitId}
    (h : Retired r r' id unit) (hnot : ¬ isReady after r u) (hready : isReady after r' u) :
    unit ∈ after u := by
  rw [isReady_iff] at hnot hready
  push Not at hnot
  obtain ⟨v, hv, hsome⟩ := hnot
  have := hready v hv
  rw [h.byUnit] at this
  by_cases hvu : v = unit
  · exact hvu ▸ hv
  · rw [Function.update_of_ne hvu] at this
    exact absurd this hsome

theorem Retired.isReady {r r' : JobRegistry} {id : JobId} {unit u : UnitId}
    (h : Retired r r' id unit) (hready : isReady after r u) : isReady after r' u := by
  rw [isReady_iff] at hready ⊢
  intro v hv
  rw [← Option.not_isSome_iff_eq_none]
  intro hsome
  have := (h.byUnit_of_isSome hsome).2
  rw [hready v hv] at this
  cases this

/-- The wake-up pass after a finished job makes the queue complete again: it looks only at the
    units ordered after the finished one, and no other unit can have become ready. -/
theorem QueueComplete.retired {r r' r'' : JobRegistry} {id : JobId} {job : Job}
    (hc : Closure orderedAfter after r) (hq : QueueComplete after r)
    (hj : r.jobs.lookup id = some job) (hret : Retired r r' id job.unit)
    (hqueued : Queued r' r'' fun i => ∃ n ∈ orderedAfter job.unit, r'.byUnit n = some i ∧
      r'.isWaiting i ∧ Jobs.isReady after r' n) : QueueComplete after r'' := by
  have hc' := hc.retired hret
  intro i a ha
  rw [hqueued.rest] at ha
  have hi := ha
  rw [hret.jobs] at hi
  split_ifs at hi with hne
  have hbyUnit : r''.byUnit = r'.byUnit := by rw [hqueued.rest]
  rw [isReady_congr hbyUnit, hqueued.mem, hret.queue, and_iff_left hne]
  constructor
  · rintro (hmem | ⟨n, -, hn, -, hready⟩)
    · exact hret.isReady ((hq hi).mp hmem)
    · obtain ⟨b, hb, rfl⟩ := hc'.consistent.byUnitJob hn
      change r'.jobs.lookup i = some a at ha
      rw [ha] at hb
      cases hb
      exact hready
  · intro hready
    by_cases hold : Jobs.isReady after r a.unit
    · exact .inl ((hq hi).mpr hold)
    · have hunit : (r.byUnit job.unit).isSome := by rw [hc.consistent.jobByUnit hj]; rfl
      have haunit : (r.byUnit a.unit).isSome := by rw [hc.consistent.jobByUnit hi]; rfl
      exact .inr ⟨a.unit, (hc.converse hunit haunit).mpr (hret.mem_after hold hready),
        hc'.consistent.jobByUnit ha, isWaiting_iff.mpr ⟨a, ha, hc'.waiting ha⟩, hready⟩

/-! ## The loop -/

/-- Each job of the order comes after the jobs of all units that its unit is ordered after. -/
def Respects (after : UnitId → List UnitId) (r : JobRegistry) (order : List JobId) : Prop :=
  ∀ pre id post job, order = pre ++ id :: post → r.get id = some job →
    ∀ v ∈ after job.unit, ∀ j, r.byUnit v = some j → j ∈ pre

/-- One round of the loop. -/
theorem complete_step {r : JobRegistry} (hc : Closure orderedAfter after r)
    (hq : QueueComplete after r) {id : JobId} {rest : List JobId} (hrun : r.runQueue = id :: rest)
    {job : Job} (hj : r.jobs.lookup id = some job) (result : JobResult) :
    ∃ r', complete orderedAfter after (popped r id rest) id job.unit result = r' ∧
      Closure orderedAfter after r' ∧ QueueComplete after r' ∧
      (∀ i, r'.jobs.lookup i = if i = id then none else r.jobs.lookup i) ∧
      r'.byUnit = Function.update r.byUnit job.unit none := by
  have hret := retired_finish hc.consistent hrun hj result
  have hqueued := queued_requeueAfterFinish ((popped r id rest).finish id result).reg job.unit
    orderedAfter (isReady after ((popped r id rest).finish id result).reg)
  have hcons := hret.consistent.upkeep (upkeep_requeueAfterFinish
    ((popped r id rest).finish id result).reg job.unit orderedAfter
    (isReady after ((popped r id rest).finish id result).reg))
  refine ⟨_, rfl, (hc.retired hret).queued hqueued hcons, hq.retired hc hj hret hqueued,
    fun i => ?_, ?_⟩
  · exact (congrArg (fun r' => r'.jobs.lookup i) hqueued.rest).trans (hret.jobs i)
  · exact (congrArg (fun r' => r'.byUnit) hqueued.rest).trans hret.byUnit

theorem keys_perm_cons {r r' : JobRegistry} {id : JobId} {job : Job}
    (hj : r.jobs.lookup id = some job)
    (h : ∀ i, r'.jobs.lookup i = if i = id then none else r.jobs.lookup i) :
    (id :: r'.jobs.keys).Perm r.jobs.keys := by
  have hmem : ∀ i, i ∈ r'.jobs.keys ↔ i ≠ id ∧ i ∈ r.jobs.keys := by
    intro i
    rw [← AList.mem_keys, ← AList.mem_keys, ← AList.lookup_isSome, ← AList.lookup_isSome, h]
    by_cases hi : i = id
    · rw [if_pos hi]
      exact ⟨fun hn => (by cases hn), fun hn => absurd hi hn.1⟩
    · rw [if_neg hi]
      exact (and_iff_right hi).symm
  refine (List.perm_ext_iff_of_nodup ?_ r.jobs.keys_nodup).mpr fun i => ?_
  · exact List.nodup_cons.mpr ⟨fun hid => ((hmem id).mp hid).1 rfl, r'.jobs.keys_nodup⟩
  · rw [List.mem_cons, hmem]
    constructor
    · rintro (rfl | hi)
      · exact AList.mem_keys.mp (AList.lookup_isSome.mp (hj ▸ rfl))
      · exact hi.2
    · exact fun hi => (em (i = id)).imp_right fun hne => ⟨hne, hi⟩

theorem Respects.cons {r r' : JobRegistry} {id : JobId} {job : Job} {order : List JobId}
    (hc : Consistent r) (hj : r.jobs.lookup id = some job) (hready : isReady after r job.unit)
    (hlookup : ∀ i, r'.jobs.lookup i = if i = id then none else r.jobs.lookup i)
    (hbyUnit : r'.byUnit = Function.update r.byUnit job.unit none)
    (hmem : ∀ i ∈ order, i ≠ id) (h : Respects after r' order) :
    Respects after r (id :: order) := by
  intro pre i post a hsplit ha v hv j hvj
  cases pre with
  | nil =>
    obtain ⟨rfl, -⟩ := List.cons.inj hsplit
    rw [show r.jobs.lookup id = some a from ha] at hj
    cases hj
    rw [isReady_iff.mp hready v hv] at hvj
    cases hvj
  | cons k pre =>
    obtain ⟨rfl, hrest⟩ := List.cons.inj hsplit
    by_cases hunit : v = job.unit
    · rw [hunit, hc.jobByUnit hj] at hvj
      rw [← Option.some.inj hvj]
      exact List.mem_cons_self
    · refine List.mem_cons_of_mem _ (h pre i post a hrest ?_ v hv j ?_)
      · have hi : i ≠ id := hmem i (by rw [hrest]; exact List.mem_append_right _ List.mem_cons_self)
        exact (hlookup i).trans ((if_neg hi).trans ha)
      · rw [hbyUnit, Function.update_of_ne hunit]
        exact hvj

/-- The loop ends with an empty registry and has run every job once and in order. -/
theorem drainLoop_complete (result : UnitId → JobResult) :
    ∀ {fuel : ℕ} {r : JobRegistry} (ran : List JobId),
    Closure orderedAfter after r → QueueComplete after r → r.len < fuel →
    ∃ order r', drainLoop orderedAfter after result fuel r ran = some (ran ++ order, r') ∧
      r'.isEmpty ∧ order.Perm r.jobs.keys ∧ Respects after r order := by
  intro fuel
  induction fuel with
  | zero => exact fun _ _ _ h => absurd h (Nat.not_lt_zero _)
  | succ fuel ih =>
    intro r ran hc hq hfuel
    cases hrun : r.runQueue with
    | nil =>
      have hempty : r.jobs.entries = [] := by
        refine List.eq_nil_iff_forall_not_mem.mpr fun ⟨id, job⟩ hmem => ?_
        have hid : id ∈ r.jobs := AList.lookup_isSome.mp (AList.mem_lookup_iff.mpr hmem ▸ rfl)
        obtain ⟨i, hi⟩ := hc.exists_queued hq hid
        rw [hrun] at hi
        exact List.not_mem_nil hi
      refine ⟨[], { r with runQueue := [] }, ?_, ?_, ?_, ?_⟩
      · rw [drainLoop, popReady, hrun, popReadyFrom, List.append_nil]
      · exact List.isEmpty_iff.mpr hempty
      · rw [AList.keys, hempty]
        rfl
      · intro pre id post job hsplit
        exact absurd hsplit (by simp)
    | cons id rest =>
      have hmem : id ∈ r.runQueue := hrun ▸ List.mem_cons_self
      obtain ⟨job, hj⟩ := Option.isSome_iff_exists.mp (hc.consistent.queue.installed hmem)
      have hw : r.isWaiting id := isWaiting_iff.mpr ⟨job, hj, hc.waiting hj⟩
      obtain ⟨r', hr', hc', hq', hlookup, hbyUnit⟩ :=
        complete_step hc hq hrun hj (result job.unit)
      have hperm := keys_perm_cons hj hlookup
      have hlen : r'.len + 1 = r.len := by
        have := hperm.length_eq
        simpa only [len, List.length_cons, AList.keys, List.keys, List.length_map] using this
      obtain ⟨order, s, hloop, hs, horder, hresp⟩ := ih (ran ++ [id]) hc' hq' (by omega)
      refine ⟨id :: order, s, ?_, hs, (horder.cons id).trans hperm, ?_⟩
      · have hget : (popped r id rest).get id = some { job with state := .running } :=
          (lookup_popped rest hj id).trans (if_pos rfl)
        rw [drainLoop, popReady_cons hrun hw]
        dsimp only
        rw [hget]
        dsimp only
        rw [hr', hloop, List.append_assoc, List.singleton_append]
      · refine hresp.cons hc.consistent hj ((hq hj).mp hmem) hlookup hbyUnit fun i hi => ?_
        have hnodup := (hperm.nodup_iff.mpr r.jobs.keys_nodup)
        exact fun heq => (List.nodup_cons.mp hnodup).1 (heq ▸ horder.mem_iff.mp hi)

/-- From any closure of waiting jobs on an acyclic ordering, priming the queue and draining it
    ends, with more fuel than jobs, with an empty registry; every job ran exactly once and after
    the jobs of all units its unit is ordered after. -/
theorem drain_complete {r : JobRegistry} (h : Closure orderedAfter after r)
    (hq : r.runQueue = []) {fuel : ℕ} (hfuel : r.len < fuel) :
    ∃ order r', drain orderedAfter after result fuel r = some (order, r') ∧ r'.isEmpty ∧
      order.Perm r.jobs.keys ∧ Respects after r order := by
  have hqueued := queued_enqueueReady r (isReady after r)
  have hjobs : (r.enqueueReady (isReady after r)).2.jobs = r.jobs := by rw [hqueued.rest]
  have hbyUnit : (r.enqueueReady (isReady after r)).2.byUnit = r.byUnit := by rw [hqueued.rest]
  have hc := h.queued hqueued (h.consistent.upkeep (upkeep_enqueueReady r _))
  obtain ⟨order, r', hloop, hempty, hperm, hresp⟩ :=
    drainLoop_complete result [] hc (queueComplete_enqueueReady h hq)
      (by unfold len; rw [hjobs]; exact hfuel)
  refine ⟨order, r', hloop, hempty, hjobs ▸ hperm, fun pre id post job hsplit hj v hv j hvj => ?_⟩
  exact hresp pre id post job hsplit (by rw [JobRegistry.get, hjobs]; exact hj) v hv j
    (hbyUnit ▸ hvj)

end Drain

/-! ## The closure of a mount, a target and a service -/

def mountUnit : UnitId := ⟨.mount, "m1.mount"⟩

def targetUnit : UnitId := ⟨.target, "local-fs-pre.target"⟩

def serviceUnit : UnitId := ⟨.service, "s.service"⟩

/-- The service's job is installed first and the mount's last. -/
def chainRegistry : JobRegistry :=
  ((JobRegistry.new.install serviceUnit .start .regular).install targetUnit .start
    .regular).install mountUnit .start .regular

/-- The target is ordered after the mount and the service after the target. -/
def chainAfter (u : UnitId) : List UnitId :=
  if u = targetUnit then [mountUnit] else if u = serviceUnit then [targetUnit] else []

def chainOrderedAfter (u : UnitId) : List UnitId :=
  if u = mountUnit then [targetUnit] else if u = targetUnit then [serviceUnit] else []

theorem chain_installed {u : UnitId} (h : (chainRegistry.byUnit u).isSome) :
    u = mountUnit ∨ u = targetUnit ∨ u = serviceUnit := by
  by_contra hne
  push Not at hne
  have : chainRegistry.byUnit u = none := by
    simp only [chainRegistry, install_byUnit, Function.update_of_ne hne.1,
      Function.update_of_ne hne.2.1, Function.update_of_ne hne.2.2, JobRegistry.new]
  rw [this] at h
  cases h

theorem chain_closure : Closure chainOrderedAfter chainAfter chainRegistry where
  consistent := ((consistent_new.install rfl rfl .start .regular).install (by decide) (by decide)
    .start .regular).install (by decide) (by decide) .start .regular
  waiting {id job} hj := by
    simp only [chainRegistry, lookup_install] at hj
    split_ifs at hj
    all_goals cases hj
    all_goals rfl
  converse hu hv := by
    rcases chain_installed hu with rfl | rfl | rfl <;>
      rcases chain_installed hv with rfl | rfl | rfl <;> decide
  acyclic := by
    refine .of_rank (fun u => if u = serviceUnit then 0 else if u = targetUnit then 1 else 2) ?_
    rintro a b ⟨ha, hb, hab⟩
    rcases chain_installed ha with rfl | rfl | rfl <;>
      rcases chain_installed hb with rfl | rfl | rfl <;> revert hab <;> decide

/-- The three jobs run from the mount to the service. -/
theorem drain_complete_chain :
    ∃ order r', drain chainOrderedAfter chainAfter (fun _ => .done) 4 chainRegistry =
        some (order, r') ∧ r'.isEmpty ∧ order.Perm chainRegistry.jobs.keys ∧
      Respects chainAfter chainRegistry order :=
  drain_complete chain_closure rfl (by decide)

end OxidizedSystemd.Jobs
