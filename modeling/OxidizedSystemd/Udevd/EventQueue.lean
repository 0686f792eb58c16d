import Mathlib.Data.Finset.Basic
import OxidizedSystemd.Lib.KeyedQueue
import OxidizedSystemd.Lib.Run
import OxidizedSystemd.Udevd.UEvent

/-!
# The event queue

Model of `EventQueue` and of the main loop of `run_daemon` (`udevd/src/lib.rs`, lines 6043–6052,
6193–6206, 6301–6312, 6474–6480 and 7009–7108): events are received, a dispatch round starts a
worker for each event whose device path is not busy, and workers end. The queue is locked for each
of these, and so each is one step.

* `eventQueue_exact`: what holds after any steps.
-/

namespace OxidizedSystemd.Udevd

open Lib

/-- `struct EventQueue`. -/
structure EventQueue where
  queue : List UEvent
  activeWorkers : ℕ
  eventsProcessed : ℕ
  busyDevpaths : Finset Text

/-- `EventQueue::new`. -/
def EventQueue.new : EventQueue where
  queue := []
  activeWorkers := 0
  eventsProcessed := 0
  busyDevpaths := ∅

/-- `EventQueue::is_empty`. -/
def EventQueue.isEmpty (q : EventQueue) : Bool := q.queue.isEmpty && q.activeWorkers == 0

/-- The answer to `SETTLE` (lines 6301–6312). -/
def EventQueue.settle (q : EventQueue) : String :=
  if q.isEmpty then "OK\n"
  else "BUSY queue=" ++ toString q.queue.length ++ " workers=" ++ toString q.activeWorkers ++ "\n"

/-- The daemon with the worker threads that have not ended yet, and the events that were received
    and processed so far. -/
structure Daemon where
  eventQueue : EventQueue
  queueFile : Bool
  execQueuePaused : Bool
  workers : List UEvent
  received : List UEvent
  processed : List UEvent

/-- `update_queue_file`. -/
def Daemon.updateQueueFile (d : Daemon) : Daemon :=
  { d with queueFile := !d.eventQueue.isEmpty }

/-- Lines 7014–7019. -/
def Daemon.receive (d : Daemon) (event : UEvent) : Daemon :=
  { d with
    eventQueue := { d.eventQueue with queue := d.eventQueue.queue ++ [event] }
    received := d.received ++ [event] }.updateQueueFile

/-- The bookkeeping in front of a spawn (lines 7059–7060). -/
def EventQueue.reserve (q : EventQueue) (devpath : Text) : EventQueue :=
  { q with
    busyDevpaths := insert devpath q.busyDevpaths
    activeWorkers := q.activeWorkers + 1 }

/-- The bookkeeping undone (lines 7097–7098). -/
def EventQueue.release (q : EventQueue) (devpath : Text) : EventQueue :=
  { q with
    activeWorkers := q.activeWorkers - 1
    busyDevpaths := q.busyDevpaths.erase devpath }

/-- The loop of a dispatch round (lines 7046–7103), with the events in front of `idx` and those from
    there on. `spawn n` is whether a thread can be spawned when `n` are dispatched. -/
def dispatchLoop (maxNew : ℕ) (spawn : ℕ → Bool) (d : Daemon) (dispatched : ℕ)
    (skipped : List UEvent) : List UEvent → Daemon
  | [] => { d with eventQueue := { d.eventQueue with queue := skipped } }
  | event :: rest =>
    if dispatched < maxNew then
      if event.devpath ∈ d.eventQueue.busyDevpaths then
        dispatchLoop maxNew spawn d dispatched (skipped ++ [event]) rest
      else
        let q := d.eventQueue.reserve event.devpath
        if spawn dispatched then
          dispatchLoop maxNew spawn { d with eventQueue := q, workers := d.workers ++ [event] }
            (dispatched + 1) skipped rest
        else
          { d with
            eventQueue := { q.release event.devpath with queue := skipped ++ event :: rest } }
    else { d with eventQueue := { d.eventQueue with queue := skipped ++ event :: rest } }

/-- A dispatch round (lines 7036–7108). -/
def Daemon.dispatch (d : Daemon) (childrenMax : ℕ) (spawn : ℕ → Bool) : Daemon :=
  if d.execQueuePaused then d
  else
    (dispatchLoop (childrenMax - d.eventQueue.activeWorkers) spawn d 0 []
      d.eventQueue.queue).updateQueueFile

/-- The end of the worker of an event (lines 7078–7083). -/
def Daemon.finish (d : Daemon) (event : UEvent) (workers : List UEvent) : Daemon :=
  let q := d.eventQueue.release event.devpath
  { d with
    eventQueue := { q with eventsProcessed := q.eventsProcessed + 1 }
    workers
    processed := d.processed ++ [event] }.updateQueueFile

/-- What happens to the queue: the workers are counted in the order in which they were started. -/
inductive Action where
  | receive (event : UEvent)
  | dispatch (childrenMax : ℕ) (spawn : ℕ → Bool)
  | finish (worker : ℕ)
  | setPaused (paused : Bool)

def Daemon.step (d : Daemon) : Action → Option Daemon
  | .receive event => some (d.receive event)
  | .dispatch childrenMax spawn => some (d.dispatch childrenMax spawn)
  | .finish worker =>
    d.workers[worker]?.map fun event => d.finish event (d.workers.eraseIdx worker)
  | .setPaused paused => some { d with execQueuePaused := paused }

/-- The daemon when the main loop begins. The queue file is removed at the start (line 6839). -/
def Daemon.start : Daemon where
  eventQueue := .new
  queueFile := false
  execQueuePaused := false
  workers := []
  received := []
  processed := []

/-! ## The invariant -/

/-- The counter and the busy paths say what the workers are, no two of which are on one path, and
    the events of each path are processed in the order in which they came. -/
structure Daemon.Exact (d : Daemon) : Prop where
  active : d.eventQueue.activeWorkers = d.workers.length
  busy : d.eventQueue.busyDevpaths = (d.workers.map UEvent.devpath).toFinset
  apart : KeyedQueue.Apart UEvent.devpath d.workers
  inOrder :
    KeyedQueue.InOrder UEvent.devpath d.received d.processed d.workers d.eventQueue.queue

/-- The queue file says whether the queue is empty. -/
def Daemon.FileCurrent (d : Daemon) : Prop := d.queueFile = !d.eventQueue.isEmpty

variable {d d' : Daemon}

theorem Daemon.Exact.updateQueueFile (h : d.Exact) : d.updateQueueFile.Exact :=
  ⟨h.active, h.busy, h.apart, h.inOrder⟩

theorem release_reserve {q : EventQueue} {devpath : Text} (h : devpath ∉ q.busyDevpaths) :
    (q.reserve devpath).release devpath = q := by
  unfold EventQueue.release EventQueue.reserve
  simp [Finset.erase_insert h]

/-- The worker that is started is the first one of a path that is not busy. -/
theorem Daemon.Exact.start {event : UEvent} {skipped rest : List UEvent}
    (h : Daemon.Exact { d with
      eventQueue := { d.eventQueue with queue := skipped ++ event :: rest } })
    (hskipped : ∀ e ∈ skipped, e.devpath ∈ d.eventQueue.busyDevpaths)
    (hevent : event.devpath ∉ d.eventQueue.busyDevpaths) :
    Daemon.Exact { d with
      eventQueue := { d.eventQueue.reserve event.devpath with queue := skipped ++ rest }
      workers := d.workers ++ [event] } := by
  have hbusy := h.busy
  dsimp only at hbusy
  constructor
  · show d.eventQueue.activeWorkers + 1 = (d.workers ++ [event]).length
    have hactive := h.active
    dsimp only at hactive
    simp [hactive]
  · show insert event.devpath d.eventQueue.busyDevpaths = _
    ext path
    rw [Finset.mem_insert, hbusy, List.mem_toFinset, List.mem_toFinset, List.map_append,
      List.mem_append, List.map_singleton, List.mem_singleton]
    exact or_comm
  · apply h.apart.start
    rw [hbusy] at hevent
    simpa using hevent
  · apply h.inOrder.start
    intro e he heq
    exact hevent (heq ▸ hskipped e he)

/-- A dispatch round. -/
theorem dispatchLoop_exact {maxNew : ℕ} {spawn : ℕ → Bool} {dispatched : ℕ}
    {skipped rest : List UEvent}
    (h : Daemon.Exact { d with eventQueue := { d.eventQueue with queue := skipped ++ rest } })
    (hskipped : ∀ e ∈ skipped, e.devpath ∈ d.eventQueue.busyDevpaths) :
    (dispatchLoop maxNew spawn d dispatched skipped rest).Exact := by
  induction rest generalizing d dispatched skipped with
  | nil => simpa [dispatchLoop] using h
  | cons event rest ih =>
    rw [dispatchLoop]
    split
    · split
      · rename_i hbusy
        apply ih
        · simpa using h
        · intro e he
          rcases List.mem_append.mp he with he | he
          · exact hskipped e he
          · rw [List.mem_singleton.mp he]
            exact hbusy
      · rename_i hbusy
        dsimp only
        split
        · apply ih
          · exact h.start hskipped hbusy
          · intro e he
            exact Finset.mem_insert_of_mem (hskipped e he)
        · rw [release_reserve hbusy]
          exact h
    · exact h

theorem Daemon.Exact.receive (h : d.Exact) (event : UEvent) : (d.receive event).Exact :=
  ⟨h.active, h.busy, h.apart, h.inOrder.receive event⟩

theorem Daemon.Exact.dispatch (h : d.Exact) (childrenMax : ℕ) (spawn : ℕ → Bool) :
    (d.dispatch childrenMax spawn).Exact := by
  rw [Daemon.dispatch]
  split
  · exact h
  · apply Daemon.Exact.updateQueueFile
    apply dispatchLoop_exact
    · exact h
    · simp

/-- The end of a worker. -/
theorem Daemon.Exact.finish (h : d.Exact) {event : UEvent} {ws vs : List UEvent}
    (hworkers : d.workers = ws ++ event :: vs) : (d.finish event (ws ++ vs)).Exact := by
  have hactive := h.active
  have hbusy := h.busy
  have hapart := h.apart
  have hinOrder := h.inOrder
  rw [hworkers] at hactive hbusy hapart hinOrder
  have hnot := hapart.notMem_finish
  constructor
  · show d.eventQueue.activeWorkers - 1 = (ws ++ vs).length
    simp [hactive]
  · show d.eventQueue.busyDevpaths.erase event.devpath =
      ((ws ++ vs).map UEvent.devpath).toFinset
    rw [hbusy]
    ext path
    by_cases hpath : path = event.devpath
    · subst hpath
      simpa using hnot
    · simp [hpath]
  · exact hapart.finish
  · exact hinOrder.finish hapart

theorem Daemon.Exact.step {a : Action} (h : d.Exact) (hstep : d.step a = some d') : d'.Exact := by
  cases a with
  | receive event =>
    cases hstep
    exact h.receive event
  | dispatch childrenMax spawn =>
    cases hstep
    exact h.dispatch childrenMax spawn
  | finish worker =>
    obtain ⟨event, hevent, rfl⟩ := Option.map_eq_some_iff.mp hstep
    obtain ⟨hlt, rfl⟩ := List.getElem?_eq_some_iff.mp hevent
    have hsplit : d.workers = d.workers.take worker ++ d.workers[worker] ::
        d.workers.drop (worker + 1) := by
      rw [List.getElem_cons_drop, List.take_append_drop]
    rw [List.eraseIdx_eq_take_drop_succ]
    exact h.finish hsplit
  | setPaused paused =>
    cases hstep
    exact ⟨h.active, h.busy, h.apart, h.inOrder⟩

theorem Daemon.FileCurrent.step {a : Action} (h : d.FileCurrent) (hstep : d.step a = some d') :
    d'.FileCurrent := by
  cases a with
  | receive event =>
    cases hstep
    rfl
  | dispatch childrenMax spawn =>
    cases hstep
    rw [Daemon.dispatch]
    split
    · exact h
    · rfl
  | finish worker =>
    obtain ⟨event, -, rfl⟩ := Option.map_eq_some_iff.mp hstep
    rfl
  | setPaused paused =>
    cases hstep
    exact h

theorem exact_start : Daemon.start.Exact :=
  ⟨rfl, rfl, List.nodup_nil, fun _ => rfl⟩

theorem exact_run {as : List Action} (h : run Daemon.step .start as = some d) :
    d.Exact ∧ d.FileCurrent := by
  have hstep : ∀ (d : Daemon) (a : Action) (d' : Daemon), d.Exact ∧ d.FileCurrent →
      d.step a = some d' → d'.Exact ∧ d'.FileCurrent :=
    fun _ _ _ hd hstep => ⟨hd.1.step hstep, hd.2.step hstep⟩
  exact run_inv hstep as ⟨exact_start, rfl⟩ h

/-! ## Settling -/

/-- The queue is empty when every event that came is processed. -/
theorem Daemon.Exact.isEmpty_iff (h : d.Exact) :
    d.eventQueue.isEmpty = true ↔ d.processed.length = d.received.length := by
  have hlen := h.inOrder.perm.length_eq
  simp only [List.length_append] at hlen
  rw [EventQueue.isEmpty, Bool.and_eq_true, List.isEmpty_iff_length_eq_zero, beq_iff_eq, h.active]
  omega

theorem settle_eq_ok_iff (q : EventQueue) : q.settle = "OK\n" ↔ q.isEmpty = true := by
  rw [EventQueue.settle]
  constructor
  · intro h
    by_contra hempty
    rw [if_neg hempty] at h
    have hhead := congrArg (fun s : String => s.toList.head?) h
    simp at hhead
  · intro h
    rw [if_pos h]

/-- After any steps the counter, the busy paths and the queue file are exact, every event that came
    is processed once, in the order of its path, or is running or waits. -/
theorem eventQueue_exact {as : List Action} {d : Daemon}
    (h : run Daemon.step .start as = some d) :
    d.Exact ∧ d.received.Perm (d.processed ++ d.workers ++ d.eventQueue.queue) ∧
      (d.queueFile = true ↔ d.processed.length ≠ d.received.length) ∧
      (d.eventQueue.settle ≠ "OK\n" ↔ d.processed.length ≠ d.received.length) := by
  obtain ⟨hexact, hfile⟩ := exact_run h
  have hempty := hexact.isEmpty_iff
  refine ⟨hexact, hexact.inOrder.perm, ?_, ?_⟩
  · rw [hfile, Bool.not_eq_true', ← Bool.not_eq_true, not_iff_not]
    exact hempty
  · rw [not_iff_not, settle_eq_ok_iff]
    exact hempty

/-- An event of a device. -/
def eventOf (devpath : Text) : UEvent where
  action := ['a', 'd', 'd']
  devpath
  subsystem := []
  devname := []
  major := []
  minor := []
  env := .empty

/-- Two events of one device and one of another, of which two are started and one has ended. -/
def twoDevices : List Action :=
  [.receive (eventOf ['a']), .receive (eventOf ['a']), .receive (eventOf ['b']),
    .dispatch 8 (fun _ => true), .finish 1]

theorem eventQueue_exact_twoDevices : ∃ d, run Daemon.step .start twoDevices = some d ∧
    d.eventQueue.queue = [eventOf ['a']] ∧ d.eventQueue.settle ≠ "OK\n" :=
  ⟨_, rfl, rfl, (@eventQueue_exact twoDevices _ rfl).2.2.2.mpr (by decide)⟩

end OxidizedSystemd.Udevd
