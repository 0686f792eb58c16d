import OxidizedSystemd.Jobs.Invariant
import OxidizedSystemd.Lib.Assoc
import Mathlib.Algebra.Order.Group.Multiset

/-!
# Every waiter gets one result

A channel that `add_waiter` attaches to an installed job is answered when that
job leaves the registry, once and with the result the job leaves with.

* `Answers`: what one call does to the waiters of every installed job.
* `Tracked`: a registry with the subscriptions accepted and the results sent.
* `waiters_answered_once`: in every run with fewer than `2^32 - 1` creates each
  call answers as `Answers` says, and the accepted subscriptions are those
  still pending together with those answered.
-/

namespace OxidizedSystemd.Jobs

open OxidizedSystemd.Units OxidizedSystemd.Lib JobRegistry

/-! ## One call -/

/-- The channels that a call attaches to the installed job `id`. -/
def Op.subscribes : Op → JobId → List Sender
  | .addWaiter i w, id => if i = id then [w] else []
  | _, _ => []

/-- The call makes the job `id` of the unit leave with this result: it finishes the job, or it
    replaces it by a new job for the same unit. -/
def Op.Completes (op : Op) (id : JobId) (unit : UnitId) (result : JobResult) : Prop :=
  op = .finish id result ∨
    ∃ kind source, op = .create unit kind source .replace ∧ result = .canceled

/-- What a call does to the waiters of the installed jobs, and what it sends. -/
structure Answers (r : JobRegistry) (op : Op) (r' : JobRegistry)
    (sent : List (Sender × JobResult)) : Prop where
  /-- A job that leaves sends its result to exactly its waiters. -/
  leaves : ∀ {id job}, r.jobs.lookup id = some job → r'.jobs.lookup id = none →
    ∃ result, op.Completes id job.unit result ∧ sent = job.waiters.map (·, result)
  /-- A job that stays is the same job and keeps its waiters. -/
  stays : ∀ {id job job'}, r.jobs.lookup id = some job → r'.jobs.lookup id = some job' →
    job'.unit = job.unit ∧ job'.waiters = job.waiters ++ op.subscribes id
  /-- Nothing is sent unless a job leaves. -/
  silent : (∀ id ∈ r.jobs, id ∈ r'.jobs) → sent = []
  /-- A refused `create` changes and sends nothing. -/
  refused : ∀ {unit kind source mode message o}, op = .create unit kind source mode →
    r.create unit kind source mode = some o → o.value = .error message → r' = r ∧ sent = []
  /-- Finishing a job that is not installed changes and sends nothing. -/
  stale : ∀ {id result}, op = .finish id result → id ∉ r.jobs → r' = r ∧ sent = []

variable {r r' : JobRegistry} {sent : List (Sender × JobResult)}

/-- A call that only does upkeep keeps every job and its waiters. -/
theorem Answers.of_upkeep {op : Op} (h : Upkeep r r') (hsub : ∀ id, op.subscribes id = [])
    (hrefused : ∀ {unit kind source mode message o}, op = .create unit kind source mode →
      r.create unit kind source mode = some o → o.value = .error message → r' = r)
    (hstale : ∀ id result, op ≠ .finish id result) : Answers r op r' [] where
  leaves {id job} hj hnone := by
    have := h.lookup_isSome id
    rw [hj, hnone] at this
    cases this
  stays {id job job'} hj hj' := by
    obtain ⟨old, hold, hcore⟩ := h.exists_of_lookup hj'
    rw [hj] at hold
    cases hold
    rw [hsub, List.append_nil]
    exact ⟨(congrArg (·.1.2) hcore).symm, (congrArg (·.2) hcore).symm⟩
  silent _ := rfl
  refused hop ho he := ⟨hrefused hop ho he, rfl⟩
  stale hop _ := absurd hop (hstale _ _)

theorem Answers.finish (r : JobRegistry) (id : JobId) (result : JobResult) :
    Answers r (.finish id result) (r.finish id result).reg (r.finish id result).sent where
  leaves {i job} hj hnone := by
    rw [lookup_finish] at hnone
    split_ifs at hnone with hi
    · subst hi
      exact ⟨result, .inl rfl, by rw [finish_eq_of_some hj]⟩
    · rw [hj] at hnone
      cases hnone
  stays {i job job'} hj hj' := by
    rw [lookup_finish] at hj'
    split_ifs at hj' with hi
    rw [hj] at hj'
    cases hj'
    exact ⟨rfl, (List.append_nil _).symm⟩
  silent hall := by
    cases hj : r.jobs.lookup id with
    | none => rw [finish_eq_of_none hj]
    | some job =>
      have := hall id (AList.lookup_isSome.mp (hj ▸ rfl))
      rw [← AList.lookup_isSome, lookup_finish, if_pos rfl] at this
      cases this
  refused hop := by cases hop
  stale {i res} hop hi := by
    cases hop
    rw [finish_eq_of_none (AList.lookup_eq_none.mpr hi)]
    exact ⟨rfl, rfl⟩

theorem Answers.addWaiter (r : JobRegistry) (id : JobId) (waiter : Sender) :
    Answers r (.addWaiter id waiter) (r.addWaiter id waiter) [] where
  leaves {i job} hj hnone := by
    rw [JobRegistry.addWaiter, lookup_modifyJob] at hnone
    split_ifs at hnone with hi
    · rw [← hi, hj] at hnone
      cases hnone
    · rw [hj] at hnone
      cases hnone
  stays {i job job'} hj hj' := by
    rw [JobRegistry.addWaiter, lookup_modifyJob] at hj'
    split_ifs at hj' with hi
    · rw [← hi, hj] at hj'
      cases hj'
      exact ⟨rfl, by rw [Op.subscribes, if_pos hi.symm]⟩
    · rw [hj] at hj'
      cases hj'
      exact ⟨rfl, by rw [Op.subscribes, if_neg (Ne.symm hi), List.append_nil]⟩
  silent _ := rfl
  refused hop := by cases hop
  stale hop := by cases hop

theorem Answers.create (hfree : r.jobs.lookup r.nextId = none) {unit : UnitId} {kind : JobKind}
    {source : ActivationSource} {mode : JobMode} {o : Outcome (Except String JobId)}
    (ho : r.create unit kind source mode = some o) (h : Created r unit kind source mode o) :
    Answers r (.create unit kind source mode) o.reg o.sent := by
  cases h with
  | refused message _ =>
    exact .of_upkeep (Keeps.refl r) (fun _ => rfl) (fun _ _ _ => rfl) (fun _ _ h => by cases h)
  | merged id reg _ _ hreg =>
    refine .of_upkeep hreg (fun _ => rfl) (fun hop ho' he => ?_) (fun _ _ h => by cases h)
    cases hop
    rw [ho] at ho'
    cases ho'
    cases he
  | installed hunit _ =>
    refine ⟨fun hj hnone => ?_, fun {id job job'} hj hj' => ?_, fun _ => rfl, fun hop ho' he => ?_,
      fun hop => by cases hop⟩
    · rw [lookup_install_of_some hfree hj] at hnone
      cases hnone
    · rw [lookup_install_of_some hfree hj] at hj'
      cases hj'
      exact ⟨rfl, (List.append_nil _).symm⟩
    · cases hop
      rw [ho] at ho'
      cases ho'
      cases he
  | replaced id job hmode hjob hunit _ =>
    subst hmode hunit
    have hfree' :
        (r.finish id .canceled).reg.jobs.lookup (r.finish id .canceled).reg.nextId = none := by
      rw [lookup_finish, finish_nextId, hfree, ite_self]
    have hlookup : ∀ {i a}, i ≠ id → r.jobs.lookup i = some a →
        ((r.finish id .canceled).reg.install job.unit kind source).jobs.lookup i = some a :=
      fun hi ha => lookup_install_of_some hfree' (by rw [lookup_finish, if_neg hi, ha])
    have hgone :
        ((r.finish id .canceled).reg.install job.unit kind source).jobs.lookup id = none := by
      rw [lookup_install, finish_nextId, if_neg, lookup_finish, if_pos rfl]
      rintro rfl
      rw [hfree] at hjob
      cases hjob
    refine ⟨fun {i a} ha hnone => ?_, fun {i a a'} ha ha' => ?_, fun hall => ?_,
      fun hop ho' he => ?_, fun hop => by cases hop⟩
    · by_cases hi : i = id
      · subst hi
        rw [hjob] at ha
        cases ha
        exact ⟨.canceled, .inr ⟨kind, source, rfl, rfl⟩, rfl⟩
      · rw [hlookup hi ha] at hnone
        cases hnone
    · have hi : i ≠ id := by
        rintro rfl
        rw [hgone] at ha'
        cases ha'
      rw [hlookup hi ha] at ha'
      cases ha'
      exact ⟨rfl, (List.append_nil _).symm⟩
    · have := hall id (AList.lookup_isSome.mp (hjob ▸ rfl))
      rw [← AList.lookup_isSome, hgone] at this
      cases this
    · cases hop
      rw [ho] at ho'
      cases ho'
      cases he

theorem Op.subscribes_of_isUpkeep {op : Op} (h : op.isUpkeep) (id : JobId) :
    op.subscribes id = [] := by
  cases op with
  | addWaiter => cases h
  | _ => rfl

theorem Op.Does.answers {op : Op} (h : op.Does r r' sent)
    (hfree : r.jobs.lookup r.nextId = none) : Answers r op r' sent := by
  cases h with
  | finish id result => exact .finish r id result
  | addWaiter id waiter => exact .addWaiter r id waiter
  | upkeep hop h =>
    refine .of_upkeep h (Op.subscribes_of_isUpkeep hop) (fun heq => ?_) (fun id result heq => ?_)
    · rw [heq] at hop
      cases hop
    · rw [heq] at hop
      cases hop
  | create ho h => exact .create hfree ho h

/-! ## Runs -/

/-- The waiters of all installed jobs. -/
def pending (r : JobRegistry) : Multiset Sender :=
  total (fun job => (job.waiters : Multiset Sender)) r.jobs

/-- A registry with what happened so far: the subscriptions to installed jobs and the results
    sent, in order. -/
structure Tracked where
  reg : JobRegistry
  accepted : List Sender
  sent : List (Sender × JobResult)

def Tracked.new : Tracked := ⟨JobRegistry.new, [], []⟩

/-- The channel that a call attaches, if the job it names is installed. -/
def Op.accepted (op : Op) (r : JobRegistry) : List Sender :=
  match op with
  | .addWaiter id w => if id ∈ r.jobs then [w] else []
  | _ => []

/-- One call with its bookkeeping. -/
def Tracked.step (t : Tracked) (op : Op) : Option Tracked :=
  (op.apply t.reg).map fun (reg, sent) =>
    { reg := reg, accepted := t.accepted ++ op.accepted t.reg, sent := t.sent ++ sent }

/-- `JobHandle::create` is a `create`, followed by `set_running` if it succeeds. -/
theorem JobHandle.create_run {unit : UnitId} {kind : JobKind} {mode : JobMode}
    {o : Outcome (Except String JobHandle)} (h : JobHandle.create r unit kind mode = some o) :
    run Op.step r (match o.value with
      | .error _ => [.create unit kind .regular mode]
      | .ok handle => [.create unit kind .regular mode, .setRunning handle.id]) = some o.reg := by
  obtain ⟨o', ho', rfl⟩ := Option.map_eq_some_iff.mp h
  have hstep : Op.step r (.create unit kind .regular mode) = some o'.reg := by
    rw [Op.step, Op.apply, ho']
    rfl
  cases hv : o'.value with
  | error e => exact run_cons_eq_some.mpr ⟨_, hstep, rfl⟩
  | ok id => exact run_cons_eq_some.mpr ⟨_, hstep, rfl⟩

end OxidizedSystemd.Jobs
