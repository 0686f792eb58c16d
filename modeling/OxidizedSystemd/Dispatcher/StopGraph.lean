import OxidizedSystemd.Units.Table
import OxidizedSystemd.Jobs.Registry
import Mathlib.Algebra.Order.BigOperators.Group.Finset

/-!
# The stop graph of the dispatcher

Model of the stop scheduling in `entrypoints/dispatcher.rs`: a stop tree is
collected over the dependents of its root, a unit's chain starts when all its
collected dependents are done, and a finished chain credits its parents.

* `collectLoop`: the closure of a stop tree.
* `beginStopTree`, `startStopChain`, `onStopChainFinished`: the handlers.
* `step`: one event, or one call of the handlers for the event at hand.

The handlers call each other recursively. `Config.calls` is the list of calls
still to be made for the current event, innermost first; events are taken only
when it is empty. What `service_stop_chain_step` comes to is an input of the
step (`StopOutcome`).
-/

namespace OxidizedSystemd.Dispatcher

open OxidizedSystemd.Units OxidizedSystemd.Jobs

/-- `struct StopGraph` (`dispatcher.rs`, lines 157–172); a map is a partial function. -/
structure StopGraph where
  pendingCounts : UnitId → Option ℕ
  parents : UnitId → Option (List UnitId)
  propagateAfter : UnitId → Option (List UnitId)
  rootJobs : UnitId → Option JobId
  active : Finset UnitId

/-- `StopGraph::default`. -/
def StopGraph.empty : StopGraph where
  pendingCounts _ := none
  parents _ := none
  propagateAfter _ := none
  rootJobs _ := none
  active := ∅

/-- A call of a handler: `begin_stop_tree`, `start_stop_chain`, one turn of the
    loop over the parents in `on_stop_chain_finished` and the propagation after it. -/
inductive Call
  | beginStopTree (root : UnitId) (job : Option JobId)
  | startStopChain (id : UnitId)
  | creditParent (parent : UnitId)
  | propagateStops (id : UnitId)
  deriving DecidableEq, Repr

/-- What the first `service_stop_chain_step` of a chain comes to
    (`stop_chain.rs`, lines 64–275): a service may park on a helper (status
    unchanged) or on its main process (status `Stopping`), any unit may be
    finished and stopped, and the deactivation of a unit that is not a service
    may fail, which also finishes its chain. -/
inductive StopOutcome
  | parked (stopping : Bool)
  | finished
  | failed (stopping : Bool)
  deriving DecidableEq, Repr

/-- What the dispatcher did, in order. -/
inductive LogEntry
  | begun (root : UnitId) (job : Option JobId)
  | collected (members : List UnitId)
  | started (id : UnitId)
  | finished (id : UnitId)
  | jobDone (job : JobId)
  deriving DecidableEq, Repr

/-- The dispatcher's stop state: the graph, the statuses, the parked chains, the calls still to
    be made for the current event and the log. -/
structure Config where
  graph : StopGraph
  status : UnitId → UnitStatus
  live : List UnitId
  calls : List Call
  log : List LogEntry

/-- Nothing is being stopped and every unit has the status of the table. -/
def Config.initial (t : UnitTable) : Config where
  graph := .empty
  status id := match t.get id with
    | some u => u.common.status
    | none => .neverStarted
  live := []
  calls := []
  log := []

/-! ## `begin_stop_tree` -/

/-- `already_stopped` (`dispatcher.rs`, lines 1012–1015). -/
def alreadyStopped : UnitStatus → Bool
  | .stopped _ | .neverStarted => true
  | _ => false

/-- The unit is loaded and not stopped: a stop tree that meets it collects it. -/
def Collectable (t : UnitTable) (status : UnitId → UnitStatus) (id : UnitId) : Prop :=
  id ∈ t.ids ∧ alreadyStopped (status id) = false

instance (t : UnitTable) (status : UnitId → UnitStatus) (id : UnitId) :
    Decidable (Collectable t status id) := instDecidableAnd

/-- What a stop tree collects: its members, the edges `(child, parent)` and the units to
    propagate the stop to. -/
structure Collected where
  members : List UnitId
  edges : List (UnitId × UnitId)
  propagateAfter : UnitId → Option (List UnitId)

/-- `members.push`, `edges.push` and `propagate_after.insert` for one unit
    (`dispatcher.rs`, lines 1019–1033). -/
def Collected.add (acc : Collected) (id : UnitId) (deps : Dependencies) : Collected where
  members := acc.members ++ [id]
  edges := acc.edges ++ deps.killBeforeThis.map (·, id)
  propagateAfter :=
    if deps.propagatesStopTo = [] then acc.propagateAfter
    else Function.update acc.propagateAfter id (some deps.propagatesStopTo)

/-- The length of the queue and of the lists that unvisited units can add to it. -/
def collectMeasure (t : UnitTable) (queue : List UnitId) (visited : Finset UnitId) : ℕ :=
  queue.length + ∑ id ∈ t.ids.toFinset \ visited, (t.deps id).killBeforeThis.length

theorem collectMeasure_insert {t : UnitTable} {id : UnitId} {queue : List UnitId}
    {visited : Finset UnitId} (hid : id ∉ visited) (hload : id ∈ t.ids) :
    collectMeasure t (queue ++ (t.deps id).killBeforeThis) (insert id visited) <
      collectMeasure t (id :: queue) visited := by
  have hmem : id ∈ t.ids.toFinset \ visited :=
    Finset.mem_sdiff.mpr ⟨List.mem_toFinset.mpr hload, hid⟩
  have hsum := Finset.add_sum_erase _ (fun id => (t.deps id).killBeforeThis.length) hmem
  rw [collectMeasure, collectMeasure, Finset.sdiff_insert, List.length_append, List.length_cons]
  omega

theorem collectMeasure_skip (t : UnitTable) (id : UnitId) (queue : List UnitId)
    (visited : Finset UnitId) :
    collectMeasure t queue (insert id visited) < collectMeasure t (id :: queue) visited := by
  have hsub : t.ids.toFinset \ insert id visited ⊆ t.ids.toFinset \ visited :=
    Finset.sdiff_subset_sdiff le_rfl (Finset.subset_insert _ _)
  have hsum := Finset.sum_le_sum_of_subset (f := fun id => (t.deps id).killBeforeThis.length) hsub
  rw [collectMeasure, collectMeasure, List.length_cons]
  omega

/-- The `while let` loop over the queue (`dispatcher.rs`, lines 1003–1034). -/
def collectLoop (t : UnitTable) (status : UnitId → UnitStatus) (queue : List UnitId)
    (visited : Finset UnitId) (acc : Collected) : Collected :=
  match queue with
  | [] => acc
  | id :: queue =>
    if id ∈ visited then collectLoop t status queue visited acc
    else if _h : Collectable t status id then
      collectLoop t status (queue ++ (t.deps id).killBeforeThis) (insert id visited)
        (acc.add id (t.deps id))
    else collectLoop t status queue (insert id visited) acc
termination_by collectMeasure t queue visited
decreasing_by
  · exact Nat.add_lt_add_right (Nat.lt_succ_self _) _
  · exact collectMeasure_insert ‹_› ‹Collectable t status id›.1
  · exact collectMeasure_skip t id queue visited

/-- The closure of a stop tree (`dispatcher.rs`, lines 999–1035). -/
def collect (t : UnitTable) (c : Config) (root : UnitId) : Collected :=
  collectLoop t c.status [root] ∅ ⟨[], [], c.graph.propagateAfter⟩

/-! ## The handlers

Each takes the calls that remain after its own. -/

/-- `finish_stop_root` (`dispatcher.rs`, lines 1172–1179). -/
def finishStopRoot (c : Config) (id : UnitId) : Config :=
  match c.graph.rootJobs id with
  | some job =>
    { c with
      graph := { c.graph with rootJobs := Function.update c.graph.rootJobs id none }
      log := c.log ++ [.jobDone job] }
  | none => c

/-- One turn of the loop over the edges. -/
def StopGraph.addEdge (g : StopGraph) (e : UnitId × UnitId) : StopGraph :=
  if e.1 ∈ g.active ∧ e.2 ∈ g.active then
    { g with
      pendingCounts := Function.update g.pendingCounts e.2 (some ((g.pendingCounts e.2).getD 0 + 1))
      parents := Function.update g.parents e.1 (some ((g.parents e.1).getD [] ++ [e.2])) }
  else g

/-- The loop over the edges (`dispatcher.rs`, lines 1044–1049). -/
def StopGraph.addEdges (g : StopGraph) (edges : List (UnitId × UnitId)) : StopGraph :=
  edges.foldl StopGraph.addEdge g

/-- The loop over the members (`dispatcher.rs`, lines 1040–1043). -/
def StopGraph.addMembers (g : StopGraph) (members : List UnitId) : StopGraph where
  pendingCounts id :=
    if id ∈ members then some ((g.pendingCounts id).getD 0) else g.pendingCounts id
  parents := g.parents
  propagateAfter := g.propagateAfter
  rootJobs := g.rootJobs
  active := g.active ∪ members.toFinset

/-- The closure joins the graph (`dispatcher.rs`, lines 1040–1049). -/
def StopGraph.addCollected (g : StopGraph) (collected : Collected) : StopGraph :=
  (g.addMembers collected.members).addEdges collected.edges

/-- `stop_graph.root_jobs.insert`, if there is a job (`dispatcher.rs`, lines 996–998). -/
def insertRootJob (rootJobs : UnitId → Option JobId) (root : UnitId) :
    Option JobId → UnitId → Option JobId
  | some job => Function.update rootJobs root (some job)
  | none => rootJobs

/-- `begin_stop_tree` (`dispatcher.rs`, lines 978–1058). -/
def beginStopTree (t : UnitTable) (c : Config) (root : UnitId) (job : Option JobId)
    (rest : List Call) : Config :=
  if root ∈ c.graph.active then
    { c with calls := rest, log := c.log ++ (job.map LogEntry.jobDone).toList }
  else
    let collected := collect t c root
    let graph := { c.graph with
      rootJobs := insertRootJob c.graph.rootJobs root job
      propagateAfter := collected.propagateAfter }
    if collected.members = [] then finishStopRoot { c with graph := graph, calls := rest } root
    else
      let graph := graph.addCollected collected
      let leaves := collected.members.filter fun id => (graph.pendingCounts id).getD 0 = 0
      { c with
        graph := graph
        calls := leaves.map .startStopChain ++ rest
        log := c.log ++ [.collected collected.members] }

/-- `on_stop_chain_finished` (`dispatcher.rs`, lines 1113–1141) up to its loops, which become
    calls. The `StopWhenUnneeded=` check it sends off only leads to later trees. -/
def onStopChainFinished (c : Config) (id : UnitId) (rest : List Call) : Config :=
  let c := { c with
    graph := { c.graph with
      active := c.graph.active.erase id
      pendingCounts := Function.update c.graph.pendingCounts id none }
    log := c.log ++ [.finished id] }
  let c := finishStopRoot c id
  { c with
    graph := { c.graph with parents := Function.update c.graph.parents id none }
    calls := ((c.graph.parents id).getD []).map .creditParent ++ .propagateStops id :: rest }

/-- `*status = UnitStatus::Stopping` unless the unit is stopped. -/
def markStopping (stopping : Bool) (status : UnitStatus) : UnitStatus :=
  if stopping ∧ status.isStopped = false then .stopping else status

/-- `start_stop_chain` with `route_stop_outcome` (`dispatcher.rs`, lines 1076–1111); `none` for
    an outcome that units of this kind do not have. -/
def startStopChain (t : UnitTable) (c : Config) (id : UnitId) (outcome : StopOutcome)
    (rest : List Call) : Option Config :=
  let c := { c with log := c.log ++ [.started id] }
  match t.get id with
  | none => some (onStopChainFinished c id rest)
  | some unit =>
    match outcome with
    | .parked stopping =>
      if unit.specific.isService then
        some { c with
          status := Function.update c.status id (markStopping stopping (c.status id))
          live := id :: c.live
          calls := rest }
      else none
    | .finished =>
      some (onStopChainFinished
        { c with status := Function.update c.status id (.stopped .stoppedFinal) } id rest)
    | .failed stopping =>
      if unit.specific.isService then none
      else
        some (onStopChainFinished
          { c with status := Function.update c.status id (markStopping stopping (c.status id)) }
          id rest)

/-- One turn of the loop over the parents (`dispatcher.rs`, lines 1124–1133). -/
def creditParent (t : UnitTable) (c : Config) (parent : UnitId) (outcome : StopOutcome)
    (rest : List Call) : Option Config :=
  match c.graph.pendingCounts parent with
  | some count =>
    let c := { c with graph := { c.graph with
      pendingCounts := Function.update c.graph.pendingCounts parent (some (count - 1)) } }
    if count - 1 = 0 then startStopChain t c parent outcome rest else some { c with calls := rest }
  | none => some { c with calls := rest }

/-- The propagation (`dispatcher.rs`, lines 1136–1140). -/
def propagateStops (c : Config) (id : UnitId) (rest : List Call) : Config :=
  match c.graph.propagateAfter id with
  | some targets =>
    { c with
      graph := { c.graph with propagateAfter := Function.update c.graph.propagateAfter id none }
      calls := targets.map (.beginStopTree · none) ++ rest }
  | none => { c with calls := rest }

/-! ## Steps -/

/-- An event (`begin`, `deliver`), or the next call for the event at hand. -/
inductive Action
  | begin (root : UnitId) (job : Option JobId)
  | deliver (id : UnitId)
  | exec (outcome : StopOutcome)
  deriving DecidableEq, Repr

/-- The next call. -/
def exec (t : UnitTable) (c : Config) (outcome : StopOutcome) : Option Config :=
  match c.calls with
  | [] => none
  | .beginStopTree root job :: rest => some (beginStopTree t c root job rest)
  | .startStopChain id :: rest => startStopChain t c id outcome rest
  | .creditParent parent :: rest => creditParent t c parent outcome rest
  | .propagateStops id :: rest => some (propagateStops c id rest)

/-- `Event::StopUnitTree` and `Event::GcUnneeded` begin a tree; a parked chain that is finalized
    marks its unit stopped and is finished. -/
def step (t : UnitTable) (c : Config) : Action → Option Config
  | .begin root job =>
    if c.calls = [] then
      some { c with calls := [.beginStopTree root job], log := c.log ++ [.begun root job] }
    else none
  | .deliver id =>
    if c.calls = [] ∧ id ∈ c.live then
      some (onStopChainFinished
        { c with
          status := Function.update c.status id (.stopped .stoppedFinal)
          live := c.live.erase id } id [])
    else none
  | .exec outcome => exec t c outcome

end OxidizedSystemd.Dispatcher
