import OxidizedSystemd.Jobs.Registry
import OxidizedSystemd.Lib.Run

/-!
# What an operation does to the registry

Every operation installs a job, completes a job, subscribes a channel or does
upkeep: it changes states, deadlines and the run queue only.

* `Upkeep`: the operations that neither install, complete nor subscribe.
* `create_cases`, `Op.apply_cases`: what a call can do, its results and sends.
* `Consistent`: the four structures of the registry agree.
* `representation_invariant`: they agree, and the next id is free, in every
  state reached with fewer than `2^32 - 1` creates.
-/

namespace OxidizedSystemd.Jobs

open OxidizedSystemd.Units OxidizedSystemd.Lib

namespace JobRegistry

variable {r r' r'' : JobRegistry}

/-! ## Lookups after a change of one job -/

theorem lookup_modifyJob (r : JobRegistry) (id i : JobId) (f : Job → Job) :
    (r.modifyJob id f).jobs.lookup i =
      if i = id then (r.jobs.lookup id).map f else r.jobs.lookup i := by
  unfold modifyJob
  cases h : r.jobs.lookup id with
  | none =>
    split_ifs with hi
    · rw [hi, h]; rfl
    · rfl
  | some job =>
    split_ifs with hi
    · rw [hi]; exact AList.lookup_insert _
    · exact AList.lookup_insert_ne hi

@[simp] theorem modifyJob_nextId (r : JobRegistry) (id : JobId) (f : Job → Job) :
    (r.modifyJob id f).nextId = r.nextId := by
  unfold modifyJob; cases r.jobs.lookup id <;> rfl

@[simp] theorem modifyJob_byUnit (r : JobRegistry) (id : JobId) (f : Job → Job) :
    (r.modifyJob id f).byUnit = r.byUnit := by
  unfold modifyJob; cases r.jobs.lookup id <;> rfl

@[simp] theorem modifyJob_runQueue (r : JobRegistry) (id : JobId) (f : Job → Job) :
    (r.modifyJob id f).runQueue = r.runQueue := by
  unfold modifyJob; cases r.jobs.lookup id <;> rfl

theorem install_byUnit (r : JobRegistry) (unit : UnitId) (kind : JobKind)
    (source : ActivationSource) :
    (r.install unit kind source).byUnit = Function.update r.byUnit unit (some r.nextId) := rfl

theorem lookup_install (r : JobRegistry) (unit : UnitId) (kind : JobKind)
    (source : ActivationSource) (i : JobId) :
    (r.install unit kind source).jobs.lookup i =
      if i = r.nextId then some (newJob r.nextId unit kind source) else r.jobs.lookup i := by
  split_ifs with hi
  · rw [hi]; exact AList.lookup_insert _
  · exact AList.lookup_insert_ne hi

/-- The new job of `create` takes a free id: the jobs that stay are not touched. -/
theorem lookup_install_of_some (hfree : r.jobs.lookup r.nextId = none) {unit : UnitId}
    {kind : JobKind} {source : ActivationSource} {id : JobId} {job : Job}
    (hj : r.jobs.lookup id = some job) :
    (r.install unit kind source).jobs.lookup id = some job := by
  rw [lookup_install, if_neg, hj]
  rintro rfl
  rw [hfree] at hj
  cases hj

theorem finish_eq_of_none {id : JobId} (h : r.jobs.lookup id = none) (result : JobResult) :
    r.finish id result = { value := none, reg := r } := by
  unfold finish; rw [h]

theorem finish_eq_of_some {id : JobId} {job : Job} (h : r.jobs.lookup id = some job)
    (result : JobResult) :
    r.finish id result =
      { value := some { job with result := some result }
        reg :=
          { r with
            jobs := r.jobs.erase id
            byUnit :=
              if r.byUnit job.unit = some id then Function.update r.byUnit job.unit none
              else r.byUnit
            runQueue := r.runQueue.filter (· ≠ id) }
        sent := job.waiters.map (·, result) } := by
  unfold finish; rw [h]

theorem lookup_finish (r : JobRegistry) (id i : JobId) (result : JobResult) :
    (r.finish id result).reg.jobs.lookup i = if i = id then none else r.jobs.lookup i := by
  cases h : r.jobs.lookup id with
  | none =>
    rw [finish_eq_of_none h]
    split_ifs with hi
    · rw [hi, h]
    · rfl
  | some job =>
    rw [finish_eq_of_some h]
    by_cases hi : i = id
    · rw [if_pos hi, hi]; exact AList.lookup_erase _ _
    · rw [if_neg hi]; exact AList.lookup_erase_ne hi

@[simp] theorem finish_nextId (r : JobRegistry) (id : JobId) (result : JobResult) :
    (r.finish id result).reg.nextId = r.nextId := by
  unfold finish; cases r.jobs.lookup id <;> rfl

/-! ## Upkeep -/

/-- The run queue has no duplicates and names only installed jobs. -/
structure QueueOk (r : JobRegistry) : Prop where
  nodup : r.runQueue.Nodup
  installed : ∀ {id}, id ∈ r.runQueue → (r.jobs.lookup id).isSome

/-- `r'` is `r` up to the run queue and what `view` does not see of the jobs. -/
structure Keeps {β : Type} (view : Job → β) (r r' : JobRegistry) : Prop where
  nextId : r'.nextId = r.nextId
  byUnit : r'.byUnit = r.byUnit
  jobs : ∀ id, (r'.jobs.lookup id).map view = (r.jobs.lookup id).map view
  queue : r.QueueOk → r'.QueueOk

/-- What the index says of a job. -/
def index (job : Job) : JobId × UnitId := (job.id, job.unit)

/-- The part of a job that no operation but `add_waiter` changes. -/
def core (job : Job) : (JobId × UnitId) × List Sender := (index job, job.waiters)

/-- `r'` is `r` up to kinds, states, results, deadlines, sources and the run queue. -/
abbrev Upkeep (r r' : JobRegistry) : Prop := Keeps core r r'

section Keeps

variable {β : Type} {view : Job → β}

theorem Keeps.refl (r : JobRegistry) : Keeps view r r :=
  ⟨rfl, rfl, fun _ => rfl, id⟩

theorem Keeps.trans (h : Keeps view r r') (h' : Keeps view r' r'') : Keeps view r r'' where
  nextId := h'.nextId.trans h.nextId
  byUnit := h'.byUnit.trans h.byUnit
  jobs id := (h'.jobs id).trans (h.jobs id)
  queue hq := h'.queue (h.queue hq)

theorem Keeps.comp {γ : Type} (h : Keeps view r r') (g : β → γ) :
    Keeps (g ∘ view) r r' where
  nextId := h.nextId
  byUnit := h.byUnit
  jobs id := by
    rw [← Option.map_map, ← Option.map_map, h.jobs id]
  queue := h.queue

theorem Keeps.lookup_isSome (h : Keeps view r r') (id : JobId) :
    (r'.jobs.lookup id).isSome = (r.jobs.lookup id).isSome := by
  have := congrArg Option.isSome (h.jobs id)
  simpa only [Option.isSome_map] using this

theorem Keeps.exists_of_lookup (h : Keeps view r r') {id : JobId} {job : Job}
    (hj : r'.jobs.lookup id = some job) :
    ∃ old, r.jobs.lookup id = some old ∧ view old = view job := by
  have hview := h.jobs id
  rw [hj, Option.map_some] at hview
  exact Option.map_eq_some_iff.mp hview.symm

theorem Keeps.exists_lookup (h : Keeps view r r') {id : JobId} {job : Job}
    (hj : r.jobs.lookup id = some job) :
    ∃ new, r'.jobs.lookup id = some new ∧ view new = view job := by
  have hview := h.jobs id
  rw [hj, Option.map_some] at hview
  exact Option.map_eq_some_iff.mp hview

theorem keeps_modifyJob (r : JobRegistry) (id : JobId) {f : Job → Job}
    (hf : ∀ job, view (f job) = view job) : Keeps view r (r.modifyJob id f) where
  nextId := modifyJob_nextId r id f
  byUnit := modifyJob_byUnit r id f
  jobs i := by
    rw [lookup_modifyJob]
    split_ifs with hi
    · rw [hi, Option.map_map]
      exact congrArg (fun g => Option.map g (r.jobs.lookup id)) (funext hf)
    · rfl
  queue hq := by
    refine ⟨by rw [modifyJob_runQueue]; exact hq.nodup, fun {i} hi => ?_⟩
    rw [modifyJob_runQueue] at hi
    rw [lookup_modifyJob]
    split_ifs with h
    · rw [Option.isSome_map, ← h]; exact hq.installed hi
    · exact hq.installed hi

end Keeps

theorem isWaiting_iff {id : JobId} :
    r.isWaiting id ↔ ∃ job, r.jobs.lookup id = some job ∧ job.state = .waiting := by
  unfold isWaiting
  cases r.jobs.lookup id with
  | none => simp
  | some job => simp

theorem upkeep_enqueue (r : JobRegistry) (id : JobId) : Upkeep r (r.enqueue id) := by
  unfold enqueue
  split_ifs with h
  · refine ⟨rfl, rfl, fun _ => rfl, fun hq => ⟨?_, fun {i} hi => ?_⟩⟩
    · exact hq.nodup.append (List.nodup_singleton id) (by simpa using h.2)
    · rcases List.mem_append.mp hi with hi | hi
      · exact hq.installed hi
      · obtain ⟨job, hjob, -⟩ := isWaiting_iff.mp h.1
        rw [List.mem_singleton.mp hi]
        exact Option.isSome_iff_exists.mpr ⟨job, hjob⟩
  · exact Keeps.refl r

theorem upkeep_dropQueued (r : JobRegistry) {q : List JobId} (hq : q.Sublist r.runQueue) :
    Upkeep r { r with runQueue := q } :=
  ⟨rfl, rfl, fun _ => rfl, fun h => ⟨h.nodup.sublist hq, fun hi => h.installed (hq.subset hi)⟩⟩

/-- `pop_ready` skips the entries that are not waiting and takes the first that is. -/
theorem popReadyFrom_eq (r : JobRegistry) (q : List JobId) :
    ((∀ id ∈ q, ¬ r.isWaiting id) ∧ r.popReadyFrom q = (none, { r with runQueue := [] })) ∨
    ∃ skipped id rest, q = skipped ++ id :: rest ∧ r.isWaiting id ∧
      r.popReadyFrom q = (some id, { r.setRunning id with runQueue := rest }) := by
  induction q with
  | nil => exact .inl ⟨fun id hid => absurd hid List.not_mem_nil, rfl⟩
  | cons a q ih =>
    rw [popReadyFrom]
    by_cases ha : r.isWaiting a
    · exact .inr ⟨[], a, q, rfl, ha, if_pos ha⟩
    · rw [if_neg ha]
      rcases ih with ⟨hq, heq⟩ | ⟨skipped, id, rest, hq, hid, heq⟩
      · exact .inl ⟨List.forall_mem_cons.mpr ⟨ha, hq⟩, heq⟩
      · exact .inr ⟨a :: skipped, id, rest, by rw [hq, List.cons_append], hid, heq⟩

theorem upkeep_setRunning (r : JobRegistry) (id : JobId) : Upkeep r (r.setRunning id) :=
  keeps_modifyJob r id fun _ => rfl

theorem upkeep_popReady (r : JobRegistry) : Upkeep r r.popReady.2 := by
  unfold popReady
  rcases popReadyFrom_eq r r.runQueue with ⟨-, heq⟩ | ⟨skipped, id, rest, hq, -, heq⟩
  · rw [heq]; exact upkeep_dropQueued r (List.nil_sublist _)
  · rw [heq]
    refine (upkeep_setRunning r id).trans (upkeep_dropQueued _ ?_)
    rw [setRunning, modifyJob_runQueue, hq]
    exact (List.sublist_cons_self id rest).trans (List.sublist_append_right _ _)

/-- What every `enqueue` keeps, `requeue_after_finish` keeps. -/
theorem requeueAfterFinish_induct {P : JobRegistry → Prop}
    (henqueue : ∀ r id, P r → P (r.enqueue id)) (hr : P r) (finished : UnitId)
    (orderedAfter : UnitId → List UnitId) (isReady : UnitId → Bool) :
    P (r.requeueAfterFinish finished orderedAfter isReady).2 := by
  refine List.foldlRecOn (motive := fun acc : List JobId × JobRegistry => P acc.2) _ _ hr ?_
  intro (woken, r') hacc neighbour _
  cases hb : r'.byUnit neighbour with
  | none => simpa only [requeueStep, hb] using hacc
  | some id =>
    simp only [requeueStep, hb]
    split_ifs
    · exact henqueue _ _ hacc
    · exact henqueue _ _ hacc
    · exact hacc

/-- What every `enqueue` keeps, `enqueue_ready` keeps. -/
theorem enqueueReady_induct {P : JobRegistry → Prop}
    (henqueue : ∀ r id, P r → P (r.enqueue id)) (hr : P r) (isReady : UnitId → Bool) :
    P (r.enqueueReady isReady).2 := by
  refine List.foldlRecOn (motive := fun acc : List JobId × JobRegistry => P acc.2) _ _ hr ?_
  intro (queued, r') hacc (id, unit) _
  simp only [enqueueReadyStep]
  split_ifs
  · exact henqueue _ _ hacc
  · exact hacc

theorem upkeep_requeueAfterFinish (r : JobRegistry) (finished : UnitId)
    (orderedAfter : UnitId → List UnitId) (isReady : UnitId → Bool) :
    Upkeep r (r.requeueAfterFinish finished orderedAfter isReady).2 :=
  requeueAfterFinish_induct (fun r' id h => h.trans (upkeep_enqueue r' id)) (Keeps.refl r) _ _ _

theorem upkeep_enqueueReady (r : JobRegistry) (isReady : UnitId → Bool) :
    Upkeep r (r.enqueueReady isReady).2 :=
  enqueueReady_induct (fun r' id h => h.trans (upkeep_enqueue r' id)) (Keeps.refl r) _

theorem upkeep_popExpired (r : JobRegistry) (now : Instant) : Upkeep r (r.popExpired now).2 := by
  refine List.foldlRecOn (motive := fun r' => Upkeep r r') _ _ (Keeps.refl r) ?_
  intro r' h id _
  exact h.trans (keeps_modifyJob r' id fun _ => rfl)

/-! ## The representation invariant -/

/-- The index, the jobs and the run queue agree. -/
structure Consistent (r : JobRegistry) : Prop where
  jobId : ∀ {id job}, r.jobs.lookup id = some job → job.id = id
  byUnitJob : ∀ {unit id}, r.byUnit unit = some id →
    ∃ job, r.jobs.lookup id = some job ∧ job.unit = unit
  jobByUnit : ∀ {id job}, r.jobs.lookup id = some job → r.byUnit job.unit = some id
  queue : r.QueueOk

theorem Consistent.unit_inj (h : Consistent r) {i j : JobId} {a b : Job}
    (ha : r.jobs.lookup i = some a) (hb : r.jobs.lookup j = some b) (hab : a.unit = b.unit) :
    i = j := by
  have := h.jobByUnit ha
  rw [hab, h.jobByUnit hb] at this
  exact (Option.some.inj this).symm

theorem consistent_new : Consistent new where
  jobId h := by cases h
  byUnitJob h := by cases h
  jobByUnit h := by cases h
  queue := ⟨List.nodup_nil, fun h => by cases h⟩

theorem Consistent.keeps (hr : Consistent r) (h : Keeps index r r') : Consistent r' where
  jobId hj := by
    obtain ⟨old, hold, hindex⟩ := h.exists_of_lookup hj
    exact (congrArg (·.1) hindex).symm.trans (hr.jobId hold)
  byUnitJob hb := by
    rw [h.byUnit] at hb
    obtain ⟨job, hjob, hunit⟩ := hr.byUnitJob hb
    obtain ⟨new, hnew, hindex⟩ := h.exists_lookup hjob
    exact ⟨new, hnew, (congrArg (·.2) hindex).trans hunit⟩
  jobByUnit {id job} hj := by
    obtain ⟨old, hold, hindex⟩ := h.exists_of_lookup hj
    have hunit : old.unit = job.unit := congrArg (·.2) hindex
    rw [h.byUnit, ← hunit]
    exact hr.jobByUnit hold
  queue := h.queue hr.queue

theorem Consistent.upkeep (hr : Consistent r) (h : Upkeep r r') : Consistent r' :=
  hr.keeps (h.comp (·.1))

theorem Consistent.addWaiter (hr : Consistent r) (id : JobId) (w : Sender) :
    Consistent (r.addWaiter id w) :=
  hr.keeps (keeps_modifyJob r id fun _ => rfl)

/-- The index after `finish` of an installed job. -/
theorem Consistent.finish_byUnit (hr : Consistent r) {id : JobId} {job : Job}
    (hj : r.jobs.lookup id = some job) (result : JobResult) :
    (r.finish id result).reg.byUnit = Function.update r.byUnit job.unit none := by
  rw [finish_eq_of_some hj]
  exact if_pos (hr.jobByUnit hj)

theorem Consistent.finish (hr : Consistent r) (id : JobId) (result : JobResult) :
    Consistent (r.finish id result).reg := by
  cases hj : r.jobs.lookup id with
  | none => rw [finish_eq_of_none hj]; exact hr
  | some job =>
    have hlookup : ∀ {i a}, (r.finish id result).reg.jobs.lookup i = some a →
        i ≠ id ∧ r.jobs.lookup i = some a := by
      intro i a hi
      rw [lookup_finish] at hi
      split_ifs at hi with h
      exact ⟨h, hi⟩
    refine ⟨fun hi => hr.jobId (hlookup hi).2, fun {unit i} hb => ?_, fun {i a} hi => ?_, ?_⟩
    · rw [hr.finish_byUnit hj] at hb
      by_cases hu : unit = job.unit
      · rw [hu, Function.update_self] at hb
        cases hb
      · rw [Function.update_of_ne hu] at hb
        obtain ⟨a, ha, hunit⟩ := hr.byUnitJob hb
        have hne : i ≠ id := by
          rintro rfl
          rw [hj] at ha
          exact hu (hunit ▸ congrArg Job.unit (Option.some.inj ha).symm)
        exact ⟨a, by rw [lookup_finish, if_neg hne]; exact ha, hunit⟩
    · obtain ⟨hne, ha⟩ := hlookup hi
      have hu : a.unit ≠ job.unit := fun hu => hne (hr.unit_inj ha hj hu)
      rw [hr.finish_byUnit hj, Function.update_of_ne hu]
      exact hr.jobByUnit ha
    · have hqueue : (r.finish id result).reg.runQueue = r.runQueue.filter (· ≠ id) := by
        rw [finish_eq_of_some hj]
      refine ⟨hqueue ▸ hr.queue.nodup.filter _, fun {i} hi => ?_⟩
      rw [hqueue, List.mem_filter, decide_eq_true_iff] at hi
      rw [lookup_finish, if_neg hi.2]
      exact hr.queue.installed hi.1

/-- A free id and a unit without a job: what `create` installs keeps the registry consistent. -/
theorem Consistent.install (hr : Consistent r) {unit : UnitId} (hunit : r.byUnit unit = none)
    (hfree : r.jobs.lookup r.nextId = none) (kind : JobKind) (source : ActivationSource) :
    Consistent (r.install unit kind source) where
  jobId {i a} ha := by
    rw [lookup_install] at ha
    split_ifs at ha with hi
    · rw [← Option.some.inj ha, hi]; rfl
    · exact hr.jobId ha
  byUnitJob {u i} hb := by
    rw [install_byUnit] at hb
    by_cases hu : u = unit
    · rw [hu, Function.update_self] at hb
      refine ⟨newJob r.nextId unit kind source, ?_, hu.symm⟩
      rw [lookup_install, if_pos (Option.some.inj hb).symm]
    · rw [Function.update_of_ne hu] at hb
      obtain ⟨a, ha, hau⟩ := hr.byUnitJob hb
      have hi : i ≠ r.nextId := by
        rintro rfl
        rw [hfree] at ha
        cases ha
      exact ⟨a, by rw [lookup_install, if_neg hi]; exact ha, hau⟩
  jobByUnit {i a} ha := by
    rw [install_byUnit]
    rw [lookup_install] at ha
    split_ifs at ha with hi
    · rw [← Option.some.inj ha, hi]
      exact Function.update_self ..
    · have hne : a.unit ≠ unit := by
        intro h
        have := hr.jobByUnit ha
        rw [h, hunit] at this
        cases this
      rw [Function.update_of_ne hne]
      exact hr.jobByUnit ha
  queue := by
    refine ⟨hr.queue.nodup, fun {i} hi => ?_⟩
    rw [lookup_install]
    split_ifs
    · rfl
    · exact hr.queue.installed hi

/-! ## What `create` can do -/

theorem create_of_none {unit : UnitId} (hb : r.byUnit unit = none) (kind : JobKind)
    (source : ActivationSource) (mode : JobMode) :
    r.create unit kind source mode =
      some { value := .ok r.nextId, reg := r.install unit kind source } := by
  simp only [create, hb]

theorem create_replace {unit : UnitId} {id : JobId} {job : Job} {kind : JobKind}
    (hb : r.byUnit unit = some id) (hjob : r.jobs.lookup id = some job)
    (hm : mergeKinds job.kind kind = none) (source : ActivationSource) :
    r.create unit kind source .replace =
      some
        { value := .ok r.nextId
          reg := (r.finish id .canceled).reg.install unit kind source
          sent := job.waiters.map (·, .canceled) } := by
  have hsent : (r.finish id .canceled).sent = job.waiters.map (·, .canceled) := by
    rw [finish_eq_of_some hjob]
  simp only [create, hb, hjob, hm, reduceCtorEq, if_false, finish_nextId, hsent]

/-- The registry in which `create` allocates, if it installs a job: `r` itself, or `r` without
    the job that is replaced. -/
def createBase (r : JobRegistry) (unit : UnitId) (kind : JobKind) (mode : JobMode) :
    Option JobRegistry :=
  match r.byUnit unit with
  | none => some r
  | some existingId =>
    match r.jobs.lookup existingId with
    | none => none
    | some existing =>
      if mergeKinds existing.kind kind = none ∧ mode = .replace then
        some (r.finish existingId .canceled).reg
      else none

/-- What a call of `create` can do in a consistent registry. -/
inductive Created (r : JobRegistry) (unit : UnitId) (kind : JobKind) (source : ActivationSource)
    (mode : JobMode) : Outcome (Except String JobId) → Prop
  | refused (message : String) (hbase : r.createBase unit kind mode = none) :
      Created r unit kind source mode { value := .error message, reg := r }
  | merged (id : JobId) (reg : JobRegistry) (hunit : r.byUnit unit = some id)
      (hbase : r.createBase unit kind mode = none) (hreg : Upkeep r reg) :
      Created r unit kind source mode { value := .ok id, reg := reg }
  | installed (hunit : r.byUnit unit = none) (hbase : r.createBase unit kind mode = some r) :
      Created r unit kind source mode { value := .ok r.nextId, reg := r.install unit kind source }
  | replaced (id : JobId) (job : Job) (hmode : mode = .replace)
      (hjob : r.jobs.lookup id = some job) (hunit : job.unit = unit)
      (hbase : r.createBase unit kind mode = some (r.finish id .canceled).reg) :
      Created r unit kind source mode
        { value := .ok r.nextId
          reg := (r.finish id .canceled).reg.install unit kind source
          sent := job.waiters.map (·, .canceled) }

theorem create_cases (hr : Consistent r) (unit : UnitId) (kind : JobKind)
    (source : ActivationSource) (mode : JobMode) :
    ∃ o, r.create unit kind source mode = some o ∧ Created r unit kind source mode o := by
  cases hb : r.byUnit unit with
  | none =>
    exact ⟨_, create_of_none hb kind source mode, .installed hb (by simp only [createBase, hb])⟩
  | some existingId =>
    obtain ⟨existing, hjob, hunit⟩ := hr.byUnitJob hb
    cases hm : mergeKinds existing.kind kind with
    | some merged =>
      refine ⟨_, by simp only [create, hb, hjob, hm]; rfl, .merged existingId _ hb ?_ ?_⟩
      · simp only [createBase, hb, hjob, hm, reduceCtorEq, false_and, if_false]
      · split_ifs
        · exact keeps_modifyJob r existingId fun _ => rfl
        · exact Keeps.refl r
    | none =>
      cases mode with
      | fail =>
        refine ⟨_, by simp only [create, hb, hjob, hm, if_true]; rfl, .refused _ ?_⟩
        simp only [createBase, hb, hjob, hm, reduceCtorEq, and_false, if_false]
      | replace =>
        refine ⟨_, create_replace hb hjob hm source,
          .replaced existingId existing rfl hjob hunit ?_⟩
        simp only [createBase, hb, hjob, hm, and_self, if_true]

end JobRegistry

/-! ## What a call can do -/

open JobRegistry

/-- The calls that do upkeep only. -/
def Op.isUpkeep : Op → Bool
  | .create .. | .finish .. | .addWaiter .. => false
  | _ => true

/-- What a call can do in a consistent registry, and the results it sends. -/
inductive Op.Does (r : JobRegistry) : Op → JobRegistry → List (Sender × JobResult) → Prop
  | create {unit kind source mode o} (ho : r.create unit kind source mode = some o)
      (h : Created r unit kind source mode o) :
      Does r (.create unit kind source mode) o.reg o.sent
  | finish (id : JobId) (result : JobResult) :
      Does r (.finish id result) (r.finish id result).reg (r.finish id result).sent
  | addWaiter (id : JobId) (waiter : Sender) :
      Does r (.addWaiter id waiter) (r.addWaiter id waiter) []
  | upkeep {op : Op} {reg : JobRegistry} (hop : op.isUpkeep) (h : Upkeep r reg) : Does r op reg []

theorem Op.apply_cases {r : JobRegistry} (hr : Consistent r) (op : Op) :
    ∃ r' sent, op.apply r = some (r', sent) ∧ op.Does r r' sent := by
  cases op with
  | create unit kind source mode =>
    obtain ⟨o, ho, hc⟩ := create_cases hr unit kind source mode
    exact ⟨o.reg, o.sent, by rw [Op.apply, ho]; rfl, .create ho hc⟩
  | finish id result => exact ⟨_, _, rfl, .finish id result⟩
  | addWaiter id waiter => exact ⟨_, _, rfl, .addWaiter id waiter⟩
  | setRunning id => exact ⟨_, _, rfl, .upkeep rfl (upkeep_setRunning r id)⟩
  | setWaiting id => exact ⟨_, _, rfl, .upkeep rfl (keeps_modifyJob r id fun _ => rfl)⟩
  | enqueue id => exact ⟨_, _, rfl, .upkeep rfl (upkeep_enqueue r id)⟩
  | popReady => exact ⟨_, _, rfl, .upkeep rfl (upkeep_popReady r)⟩
  | requeueAfterFinish finished orderedAfter isReady =>
    exact ⟨_, _, rfl, .upkeep rfl (upkeep_requeueAfterFinish r finished orderedAfter isReady)⟩
  | enqueueReady isReady => exact ⟨_, _, rfl, .upkeep rfl (upkeep_enqueueReady r isReady)⟩
  | setDeadline id deadline => exact ⟨_, _, rfl, .upkeep rfl (keeps_modifyJob r id fun _ => rfl)⟩
  | popExpired now => exact ⟨_, _, rfl, .upkeep rfl (upkeep_popExpired r now)⟩

/-- A call keeps a consistent registry consistent, if the id it allocates is free. -/
theorem Op.Does.consistent {r r' : JobRegistry} {op : Op} {sent : List (Sender × JobResult)}
    (h : op.Does r r' sent) (hr : Consistent r) (hfree : r.jobs.lookup r.nextId = none) :
    Consistent r' := by
  cases h with
  | finish id result => exact hr.finish id result
  | addWaiter id waiter => exact hr.addWaiter id waiter
  | upkeep _ h => exact hr.upkeep h
  | create _ hc =>
    cases hc with
    | refused => exact hr
    | merged id reg _ _ hreg => exact hr.upkeep hreg
    | installed hunit _ => exact hr.install hunit hfree _ _
    | replaced id job _ hjob hunit _ =>
      refine (hr.finish id .canceled).install ?_ ?_ _ _
      · rw [hr.finish_byUnit hjob, hunit, Function.update_self]
      · rw [lookup_finish, finish_nextId, hfree, ite_self]

/-! ## Runs with fewer than `2^32 - 1` creates -/

/-- The number of `create` calls of a run. -/
def creates (ops : List Op) : ℕ := ops.countP Op.isCreate

theorem creates_append (as bs : List Op) : creates (as ++ bs) = creates as + creates bs :=
  List.countP_append

/-- The ids are handed out in order so far, at most one for each of `n` creates. -/
structure IdsBelow (n : ℕ) (r : JobRegistry) : Prop where
  nextId_le : r.nextId ≤ n + 1
  below : ∀ {id}, (r.jobs.lookup id).isSome → id < r.nextId

theorem idsBelow_new : IdsBelow 0 JobRegistry.new :=
  ⟨le_rfl, fun hsome => by cases hsome⟩

theorem IdsBelow.free {n : ℕ} {r : JobRegistry} (h : IdsBelow n r) :
    r.jobs.lookup r.nextId = none := by
  rw [← Option.not_isSome_iff_eq_none]
  exact fun hsome => lt_irrefl _ (h.below hsome)

theorem IdsBelow.mono {n m : ℕ} {r r' : JobRegistry} (h : IdsBelow n r) (hnm : n ≤ m)
    (hid : r'.nextId = r.nextId)
    (hjobs : ∀ id, (r'.jobs.lookup id).isSome → (r.jobs.lookup id).isSome) : IdsBelow m r' where
  nextId_le := hid ▸ h.nextId_le.trans (Nat.add_le_add_right hnm 1)
  below hsome := by rw [hid]; exact h.below (hjobs _ hsome)

theorem IdsBelow.finish {n : ℕ} {r : JobRegistry} (h : IdsBelow n r) (id : JobId)
    (result : JobResult) : IdsBelow n (r.finish id result).reg := by
  refine h.mono le_rfl (finish_nextId r id result) fun i hi => ?_
  rw [lookup_finish] at hi
  split_ifs at hi with heq
  · cases hi
  · exact hi

theorem allocNext_of_lt {id : JobId} (h : id + 1 < 2 ^ 32) : allocNext id = id + 1 := by
  unfold allocNext
  rw [Nat.mod_eq_of_lt h, Nat.max_eq_left (Nat.le_add_left 1 id)]

theorem IdsBelow.install {n : ℕ} {r : JobRegistry} (h : IdsBelow n r) (hn : n + 1 < 2 ^ 32 - 1)
    (unit : UnitId) (kind : JobKind) (source : ActivationSource) :
    IdsBelow (n + 1) (r.install unit kind source) := by
  have hnext : (r.install unit kind source).nextId = r.nextId + 1 :=
    allocNext_of_lt ((Nat.add_le_add_right h.nextId_le 1).trans_lt (by omega))
  refine ⟨hnext ▸ Nat.add_le_add_right h.nextId_le 1, fun {id} hsome => ?_⟩
  rw [hnext, Nat.lt_succ_iff]
  rw [lookup_install] at hsome
  split_ifs at hsome with hi
  · exact hi.le
  · exact (h.below hsome).le

theorem Op.Does.idsBelow {n : ℕ} {r r' : JobRegistry} {op : Op} {sent : List (Sender × JobResult)}
    (h : op.Does r r' sent) (hr : IdsBelow n r) (hn : n + creates [op] < 2 ^ 32 - 1) :
    IdsBelow (n + creates [op]) r' := by
  cases h with
  | finish id result => exact hr.finish id result
  | addWaiter id waiter =>
    have hk : Keeps JobRegistry.index r (r.addWaiter id waiter) := keeps_modifyJob r id fun _ => rfl
    exact hr.mono (Nat.le_add_right _ _) hk.nextId fun i hi => (hk.lookup_isSome i) ▸ hi
  | upkeep _ hk =>
    exact hr.mono (Nat.le_add_right _ _) hk.nextId fun i hi => (hk.lookup_isSome i) ▸ hi
  | create _ hc =>
    cases hc with
    | refused => exact hr.mono (Nat.le_add_right _ _) rfl fun _ hi => hi
    | merged id reg _ _ hk =>
      exact hr.mono (Nat.le_add_right _ _) hk.nextId fun i hi => (hk.lookup_isSome i) ▸ hi
    | installed _ _ => exact hr.install hn _ _ _
    | replaced id job _ _ _ _ => exact (hr.finish id .canceled).install hn _ _ _

theorem creates_split {ops as cs : List Op} {op : Op} (h : ops = as ++ op :: cs) :
    creates as + creates [op] ≤ creates ops := by
  have : creates (op :: cs) = creates [op] + creates cs := creates_append [op] cs
  rw [h, creates_append]
  omega

/-- One call of a run of fewer than `2^32 - 1` creates. -/
theorem step_ok {n : ℕ} {r : JobRegistry} (hr : Consistent r) (hids : IdsBelow n r) (op : Op)
    (hn : n + creates [op] < 2 ^ 32 - 1) :
    ∃ r' sent, op.apply r = some (r', sent) ∧ op.Does r r' sent ∧ Consistent r' ∧
      IdsBelow (n + creates [op]) r' := by
  obtain ⟨r', sent, happly, hdoes⟩ := op.apply_cases hr
  exact ⟨r', sent, happly, hdoes, hdoes.consistent hr hids.free, hdoes.idsBelow hids hn⟩

/-- The registry after a run of fewer than `2^32 - 1` creates: no call panics, the structures
    agree and the ids were handed out in order. -/
theorem run_ok {ops : List Op} (h : creates ops < 2 ^ 32 - 1) :
    ∃ r, run Op.step JobRegistry.new ops = some r ∧ Consistent r ∧ IdsBelow (creates ops) r := by
  refine run_exists (P := fun as r => Consistent r ∧ IdsBelow (creates as) r)
    ⟨consistent_new, idsBelow_new⟩ ?_
  intro as op cs r hsplit ⟨hr, hids⟩
  obtain ⟨r', sent, happly, -, hr', hids'⟩ :=
    step_ok hr hids op ((creates_split hsplit).trans_lt h)
  rw [creates_append]
  exact ⟨r', by rw [Op.step, happly]; rfl, hr', hids'⟩

/-- The representation invariant of the registry. -/
structure RepInv (r : JobRegistry) : Prop extends Consistent r where
  oneJobPerUnit : ∀ {i j a b}, r.jobs.lookup i = some a → r.jobs.lookup j = some b →
    a.unit = b.unit → i = j
  nextIdFree : r.nextId ∉ r.jobs

/-- Every call of a run with fewer than `2^32 - 1` creates returns, and the representation
    invariant holds after it. -/
theorem representation_invariant {ops : List Op} (h : creates ops < 2 ^ 32 - 1) :
    ∃ r, run Op.step JobRegistry.new ops = some r ∧ RepInv r := by
  obtain ⟨r, hrun, hr, hids⟩ := run_ok h
  exact ⟨r, hrun, hr, hr.unit_inj, AList.lookup_eq_none.mp hids.free⟩

/-- A replaced job, a merge, a double finish and a stale enqueue. -/
theorem representation_invariant_replace :
    creates [.create ⟨.service, "a.service"⟩ .start .regular .replace, .enqueue 1,
      .create ⟨.service, "a.service"⟩ .stop .regular .replace, .finish 1 .done, .finish 1 .done,
      .enqueue 1, .create ⟨.service, "a.service"⟩ .nop .regular .fail, .popReady] < 2 ^ 32 - 1 ∧
    ∃ r, run Op.step JobRegistry.new
      [.create ⟨.service, "a.service"⟩ .start .regular .replace, .enqueue 1,
        .create ⟨.service, "a.service"⟩ .stop .regular .replace, .finish 1 .done, .finish 1 .done,
        .enqueue 1, .create ⟨.service, "a.service"⟩ .nop .regular .fail, .popReady] = some r ∧
      RepInv r :=
  ⟨by decide, representation_invariant (by decide)⟩

end OxidizedSystemd.Jobs
