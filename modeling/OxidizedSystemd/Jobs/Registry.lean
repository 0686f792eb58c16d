import OxidizedSystemd.Units.Basic
import Mathlib.Data.List.AList
import Mathlib.Data.List.Sort
import Mathlib.Logic.Function.Basic

/-!
# The job registry

Model of `units/jobs.rs`: the jobs installed for units, the index from units
to jobs and the run queue of the dispatcher.

* `create`, `finish`, `addWaiter`: installing, completing and waiting for a job.
* `enqueue`, `popReady`, `enqueueReady`, `requeueAfterFinish`: the run queue.
* `setDeadline`, `nextDeadline`, `popExpired`: job timeouts.
* `Op`, `apply`: the mutating operations as one alphabet.

`JobId` is `u32`; ids are natural numbers here and the wrapping addition is
explicit (`allocNext`). A reply channel is known by a number (`Sender`); what
an operation sends is part of its `Outcome`.
-/

namespace OxidizedSystemd.Jobs

open OxidizedSystemd.Units

/-- `type JobId = u32` (`units/jobs.rs`, line 23). -/
abbrev JobId := ℕ

/-- One `Sender<JobResult>`; clones of a sender share its number. -/
abbrev Sender := ℕ

/-- `std::time::Instant`. -/
abbrev Instant := ℕ

/-- `enum JobKind` (`units/jobs.rs`, lines 26–34). -/
inductive JobKind
  | start | stop | restart | tryRestart | reload | verifyActive | nop
  deriving DecidableEq, Repr

/-- `JobKind::as_str` (`units/jobs.rs`, lines 38–48). -/
def JobKind.asStr : JobKind → String
  | .start => "start"
  | .stop => "stop"
  | .restart => "restart"
  | .tryRestart => "try-restart"
  | .reload => "reload"
  | .verifyActive => "verify-active"
  | .nop => "nop"

/-- `enum JobState` (`units/jobs.rs`, lines 52–55). -/
inductive JobState
  | waiting | running
  deriving DecidableEq, Repr

/-- `enum JobResult` (`units/jobs.rs`, lines 68–75). -/
inductive JobResult
  | done | failed | canceled | timeout | dependency | skipped
  deriving DecidableEq, Repr

/-- `enum JobMode` (`units/jobs.rs`, lines 94–97). -/
inductive JobMode
  | replace | fail
  deriving DecidableEq, Repr

/-- `enum ActivationSource` (`activate.rs`, lines 363–384). -/
inductive ActivationSource
  | regular | socketActivation | triggerActivation | nonBlocking | deferNotifyWait
  deriving DecidableEq, Repr

/-- `struct Job` (`units/jobs.rs`, lines 99–112). -/
structure Job where
  id : JobId
  unit : UnitId
  kind : JobKind
  state : JobState
  result : Option JobResult
  deadline : Option Instant
  source : ActivationSource
  waiters : List Sender
  deriving DecidableEq, Repr

/-- `struct JobRegistry` (`units/jobs.rs`, lines 114–121). `by_unit` is only
    looked up and never iterated, so it is a partial function. -/
structure JobRegistry where
  nextId : JobId
  jobs : AList fun _ : JobId => Job
  byUnit : UnitId → Option JobId
  runQueue : List JobId

/-- What an operation returns, the registry it leaves and the results it
    sends, in order. -/
structure Outcome (α : Type) where
  value : α
  reg : JobRegistry
  sent : List (Sender × JobResult) := []

/-- `merge_kinds` (`units/jobs.rs`, lines 422–453). -/
def mergeKinds (existing new : JobKind) : Option JobKind :=
  if existing = new then some existing
  else
    match existing, new with
    | e, .nop => some e
    | .nop, n => some n
    | .restart, .start | .restart, .verifyActive | .restart, .tryRestart
    | .start, .restart | .verifyActive, .restart | .tryRestart, .restart => some .restart
    | .start, .verifyActive | .verifyActive, .start => some .start
    | .tryRestart, .verifyActive | .verifyActive, .tryRestart => some .tryRestart
    | .start, .tryRestart | .tryRestart, .start => none
    | _, .stop | .stop, _ | .reload, _ | _, .reload => none
    | .start, .start | .restart, .restart | .tryRestart, .tryRestart
    | .verifyActive, .verifyActive => some existing

/-- `self.next_id.wrapping_add(1).max(1)` on `u32` (`units/jobs.rs`, line 175). -/
def allocNext (id : JobId) : JobId := max ((id + 1) % 2 ^ 32) 1

namespace JobRegistry

/-- `JobRegistry::new` (`units/jobs.rs`, lines 131–138). -/
def new : JobRegistry where
  nextId := 1
  jobs := ∅
  byUnit := fun _ => none
  runQueue := []

/-- `self.jobs.get_mut(&id)` followed by a change `f` of the job, if there is one. -/
def modifyJob (r : JobRegistry) (id : JobId) (f : Job → Job) : JobRegistry :=
  match r.jobs.lookup id with
  | some job => { r with jobs := r.jobs.insert id (f job) }
  | none => r

/-- The job that a request gets when nothing is installed for its unit. -/
def newJob (id : JobId) (unit : UnitId) (kind : JobKind) (source : ActivationSource) : Job where
  id := id
  unit := unit
  kind := kind
  state := .waiting
  result := none
  deadline := none
  source := source
  waiters := []

/-- `JobRegistry::finish` (`units/jobs.rs`, lines 257–269). -/
def finish (r : JobRegistry) (id : JobId) (result : JobResult) : Outcome (Option Job) :=
  match r.jobs.lookup id with
  | none => { value := none, reg := r }
  | some job =>
    { value := some { job with result := some result }
      reg :=
        { r with
          jobs := r.jobs.erase id
          byUnit :=
            if r.byUnit job.unit = some id then Function.update r.byUnit job.unit none
            else r.byUnit
          runQueue := r.runQueue.filter (· ≠ id) }
      sent := job.waiters.map (·, result) }

/-- The second half of `create` (`units/jobs.rs`, lines 174–188): allocate an
    id and install a new job under it. -/
def install (r : JobRegistry) (unit : UnitId) (kind : JobKind) (source : ActivationSource) :
    JobRegistry where
  nextId := allocNext r.nextId
  jobs := r.jobs.insert r.nextId (newJob r.nextId unit kind source)
  byUnit := Function.update r.byUnit unit (some r.nextId)
  runQueue := r.runQueue

/-- `JobRegistry::create` (`units/jobs.rs`, lines 147–190). `none` is the panic
    of `self.jobs[&existing_id]` on an id that is not installed. -/
def create (r : JobRegistry) (unit : UnitId) (kind : JobKind) (source : ActivationSource)
    (mode : JobMode) : Option (Outcome (Except String JobId)) :=
  match r.byUnit unit with
  | none => some { value := .ok r.nextId, reg := r.install unit kind source }
  | some existingId =>
    match r.jobs.lookup existingId with
    | none => none
    | some existing =>
      match mergeKinds existing.kind kind with
      | some merged =>
        let reg :=
          if merged ≠ existing.kind then r.modifyJob existingId ({ · with kind := merged }) else r
        some { value := .ok existingId, reg := reg }
      | none =>
        if mode = .fail then
          some
            { value := .error
                s!"Transaction for {unit.name} is destructive ({existing.kind.asStr} job pending)."
              reg := r }
        else
          let canceled := r.finish existingId .canceled
          some
            { value := .ok canceled.reg.nextId
              reg := canceled.reg.install unit kind source
              sent := canceled.sent }

/-- `JobRegistry::set_running` (`units/jobs.rs`, lines 192–196). -/
def setRunning (r : JobRegistry) (id : JobId) : JobRegistry :=
  r.modifyJob id ({ · with state := .running })

/-- `JobRegistry::set_waiting` (`units/jobs.rs`, lines 198–202). -/
def setWaiting (r : JobRegistry) (id : JobId) : JobRegistry :=
  r.modifyJob id ({ · with state := .waiting })

/-- `JobRegistry::add_waiter` (`units/jobs.rs`, lines 206–210). -/
def addWaiter (r : JobRegistry) (id : JobId) (waiter : Sender) : JobRegistry :=
  r.modifyJob id fun job => { job with waiters := job.waiters ++ [waiter] }

/-- `self.jobs.get(&id).is_some_and(|job| job.state == JobState::Waiting)`. -/
def isWaiting (r : JobRegistry) (id : JobId) : Bool :=
  match r.jobs.lookup id with
  | some job => job.state = .waiting
  | none => false

/-- `JobRegistry::enqueue` (`units/jobs.rs`, lines 219–228). -/
def enqueue (r : JobRegistry) (id : JobId) : JobRegistry :=
  if r.isWaiting id ∧ id ∉ r.runQueue then { r with runQueue := r.runQueue ++ [id] } else r

/-- The `while let` loop of `pop_ready` over the queue. -/
def popReadyFrom (r : JobRegistry) : List JobId → Option JobId × JobRegistry
  | [] => (none, { r with runQueue := [] })
  | id :: rest =>
    if r.isWaiting id then (some id, { r.setRunning id with runQueue := rest })
    else popReadyFrom r rest

/-- `JobRegistry::pop_ready` (`units/jobs.rs`, lines 235–245). -/
def popReady (r : JobRegistry) : Option JobId × JobRegistry := r.popReadyFrom r.runQueue

/-- `JobRegistry::run_queue_is_empty` (`units/jobs.rs`, lines 250–252). -/
def runQueueIsEmpty (r : JobRegistry) : Bool := r.runQueue.isEmpty

/-- The body of the `for` loop of `requeue_after_finish`. -/
def requeueStep (isReady : UnitId → Bool) (acc : List JobId × JobRegistry) (neighbour : UnitId) :
    List JobId × JobRegistry :=
  let (woken, r) := acc
  match r.byUnit neighbour with
  | none => acc
  | some id =>
    if r.isWaiting id ∧ isReady neighbour then
      (if id ∉ r.runQueue ∧ id ∉ woken then woken ++ [id] else woken, r.enqueue id)
    else acc

/-- `JobRegistry::requeue_after_finish` (`units/jobs.rs`, lines 292–317). -/
def requeueAfterFinish (r : JobRegistry) (finished : UnitId) (orderedAfter : UnitId → List UnitId)
    (isReady : UnitId → Bool) : List JobId × JobRegistry :=
  (orderedAfter finished).foldl (requeueStep isReady) ([], r)

/-- The `candidates` of `enqueue_ready` (`units/jobs.rs`, lines 332–338). -/
def waitingCandidates (r : JobRegistry) : List (JobId × UnitId) :=
  ((r.jobs.entries.filter fun e => e.2.state = .waiting).map fun e => (e.1, e.2.unit)).insertionSort
    fun a b => a.1 ≤ b.1

/-- The body of the `for` loop of `enqueue_ready`. -/
def enqueueReadyStep (isReady : UnitId → Bool) (acc : List JobId × JobRegistry)
    (candidate : JobId × UnitId) : List JobId × JobRegistry :=
  let (queued, r) := acc
  let (id, unit) := candidate
  if id ∉ r.runQueue ∧ isReady unit then (queued ++ [id], r.enqueue id) else acc

/-- `JobRegistry::enqueue_ready` (`units/jobs.rs`, lines 328–348). -/
def enqueueReady (r : JobRegistry) (isReady : UnitId → Bool) : List JobId × JobRegistry :=
  r.waitingCandidates.foldl (enqueueReadyStep isReady) ([], r)

/-- `JobRegistry::set_deadline` (`units/jobs.rs`, lines 358–362). -/
def setDeadline (r : JobRegistry) (id : JobId) (deadline : Instant) : JobRegistry :=
  r.modifyJob id ({ · with deadline := some deadline })

/-- `JobRegistry::next_deadline` (`units/jobs.rs`, lines 368–370). -/
def nextDeadline (r : JobRegistry) : Option Instant :=
  (r.jobs.entries.filterMap fun e => e.2.deadline).min?

/-- `JobRegistry::pop_expired` (`units/jobs.rs`, lines 378–392). -/
def popExpired (r : JobRegistry) (now : Instant) : List JobId × JobRegistry :=
  let expired :=
    ((r.jobs.entries.filter fun e => e.2.deadline.any (· ≤ now)).map (·.1)).insertionSort (· ≤ ·)
  (expired, expired.foldl (fun r id => r.modifyJob id ({ · with deadline := none })) r)

/-- `JobRegistry::get` (`units/jobs.rs`, lines 395–397). -/
def get (r : JobRegistry) (id : JobId) : Option Job := r.jobs.lookup id

/-- `JobRegistry::job_for_unit` (`units/jobs.rs`, lines 400–402). -/
def jobForUnit (r : JobRegistry) (unit : UnitId) : Option Job :=
  (r.byUnit unit).bind r.jobs.lookup

/-- `JobRegistry::len` (`units/jobs.rs`, lines 409–411). -/
def len (r : JobRegistry) : ℕ := r.jobs.entries.length

/-- `JobRegistry::is_empty` (`units/jobs.rs`, lines 414–416). -/
def isEmpty (r : JobRegistry) : Bool := r.jobs.entries.isEmpty

end JobRegistry

/-! ## The operations as an alphabet -/

/-- A call of a mutating operation with its arguments. -/
inductive Op
  | create (unit : UnitId) (kind : JobKind) (source : ActivationSource) (mode : JobMode)
  | setRunning (id : JobId)
  | setWaiting (id : JobId)
  | addWaiter (id : JobId) (waiter : Sender)
  | enqueue (id : JobId)
  | popReady
  | finish (id : JobId) (result : JobResult)
  | requeueAfterFinish (finished : UnitId) (orderedAfter : UnitId → List UnitId)
      (isReady : UnitId → Bool)
  | enqueueReady (isReady : UnitId → Bool)
  | setDeadline (id : JobId) (deadline : Instant)
  | popExpired (now : Instant)

/-- The registry after a call and the results the call sends; `none` is a panic. -/
def Op.apply (r : JobRegistry) : Op → Option (JobRegistry × List (Sender × JobResult))
  | .create unit kind source mode => (r.create unit kind source mode).map fun o => (o.reg, o.sent)
  | .setRunning id => some (r.setRunning id, [])
  | .setWaiting id => some (r.setWaiting id, [])
  | .addWaiter id waiter => some (r.addWaiter id waiter, [])
  | .enqueue id => some (r.enqueue id, [])
  | .popReady => some (r.popReady.2, [])
  | .finish id result => some ((r.finish id result).reg, (r.finish id result).sent)
  | .requeueAfterFinish finished orderedAfter isReady =>
    some ((r.requeueAfterFinish finished orderedAfter isReady).2, [])
  | .enqueueReady isReady => some ((r.enqueueReady isReady).2, [])
  | .setDeadline id deadline => some (r.setDeadline id deadline, [])
  | .popExpired now => some ((r.popExpired now).2, [])

/-- The registry after a call. -/
def Op.step (r : JobRegistry) (op : Op) : Option JobRegistry := (op.apply r).map (·.1)

/-- Whether a call is a `create`. -/
def Op.isCreate : Op → Bool
  | .create .. => true
  | _ => false

/-! ## `JobHandle` -/

/-- `struct JobHandle` (`units/jobs.rs`, lines 459–463). -/
structure JobHandle where
  id : JobId
  finished : Bool

/-- `JobHandle::create` (`units/jobs.rs`, lines 466–481): under one lock. -/
def JobHandle.create (r : JobRegistry) (unit : UnitId) (kind : JobKind) (mode : JobMode) :
    Option (Outcome (Except String JobHandle)) :=
  (r.create unit kind .regular mode).map fun o =>
    match o.value with
    | .error e => { value := .error e, reg := o.reg, sent := o.sent }
    | .ok id => { value := .ok ⟨id, false⟩, reg := o.reg.setRunning id, sent := o.sent }

/-- `JobHandle::finish` (`units/jobs.rs`, lines 488–491); the drop that
    follows finds `finished` set. -/
def JobHandle.finish (h : JobHandle) (r : JobRegistry) (result : JobResult) :
    JobHandle × Outcome (Option Job) := ({ h with finished := true }, r.finish h.id result)

/-- `Drop for JobHandle` (`units/jobs.rs`, lines 494–500). -/
def JobHandle.drop (h : JobHandle) (r : JobRegistry) : Outcome (Option Job) :=
  if h.finished then { value := none, reg := r } else r.finish h.id .failed

end OxidizedSystemd.Jobs
