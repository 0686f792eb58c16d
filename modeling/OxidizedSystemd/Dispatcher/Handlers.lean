import OxidizedSystemd.Dispatcher.Collect
import OxidizedSystemd.Lib.Countdown

/-!
# What the handlers of the stop graph do

* `StopGraph.countdown`: the counts and edges of the stop graph as a countdown.
* `countdown_addCollected`, `onStopChainFinished_spec`, `countdown_credit`: the
  handlers merge, finish and credit it.
* `Stepped`: what a step does, case by case.
-/

namespace OxidizedSystemd.Dispatcher

open OxidizedSystemd.Units OxidizedSystemd.Jobs OxidizedSystemd.Lib

variable {t : UnitTable}

/-! ## The stop graph as a countdown -/

/-- The accounts of the stop graph. -/
def StopGraph.countdown (g : StopGraph) : Countdown UnitId where
  active := g.active
  count id := (g.pendingCounts id).getD 0
  parents id := (g.parents id).getD []

/-- The credits among the calls still to be made. -/
def creditOf : Call → Option UnitId
  | .creditParent p => some p
  | _ => none

def credits (calls : List Call) : List UnitId := calls.filterMap creditOf

theorem credits_append (as bs : List Call) : credits (as ++ bs) = credits as ++ credits bs :=
  List.filterMap_append

theorem credits_map_creditParent (ps : List UnitId) : credits (ps.map .creditParent) = ps := by
  unfold credits
  rw [List.filterMap_map]
  exact List.filterMap_some

theorem credits_map_of_none {α : Type} {f : α → Call} (h : ∀ a, creditOf (f a) = none)
    (as : List α) : credits (as.map f) = [] := by
  unfold credits
  rw [List.filterMap_map, List.filterMap_eq_nil_iff]
  exact fun a _ => h a

section Edges

variable {g : StopGraph} {e : UnitId × UnitId}

theorem addEdge_active : (g.addEdge e).active = g.active := by
  unfold StopGraph.addEdge
  split_ifs <;> rfl

theorem addEdge_rootJobs : (g.addEdge e).rootJobs = g.rootJobs := by
  unfold StopGraph.addEdge
  split_ifs <;> rfl

theorem addEdge_count (he : e.1 ∈ g.active ∧ e.2 ∈ g.active) (u : UnitId) :
    ((g.addEdge e).pendingCounts u).getD 0 =
      (g.pendingCounts u).getD 0 + if e.2 = u then 1 else 0 := by
  rw [StopGraph.addEdge, if_pos he]
  dsimp only
  split_ifs with hu
  · rw [hu, Function.update_self, Option.getD_some]
  · rw [Function.update_of_ne (Ne.symm hu), add_zero]

theorem addEdge_parents (he : e.1 ∈ g.active ∧ e.2 ∈ g.active) (c : UnitId) :
    ((g.addEdge e).parents c).getD [] =
      (g.parents c).getD [] ++ if e.1 = c then [e.2] else [] := by
  rw [StopGraph.addEdge, if_pos he]
  dsimp only
  split_ifs with hc
  · rw [hc, Function.update_self, Option.getD_some]
  · rw [Function.update_of_ne (Ne.symm hc), List.append_nil]

theorem addEdge_isSome {u : UnitId} (hu : ((g.addEdge e).pendingCounts u).isSome) :
    (g.pendingCounts u).isSome ∨ u ∈ g.active := by
  unfold StopGraph.addEdge at hu
  split_ifs at hu with he
  · dsimp only at hu
    by_cases heu : u = e.2
    · exact .inr (heu ▸ he.2)
    · rw [Function.update_of_ne heu] at hu
      exact .inl hu
  · exact .inl hu

end Edges

/-- The edges whose ends are both active. -/
def activeEdges (g : StopGraph) (edges : List (UnitId × UnitId)) : List (UnitId × UnitId) :=
  edges.filter fun e => e.1 ∈ g.active ∧ e.2 ∈ g.active

/-- What the loop over the edges does to the graph. -/
structure EdgesAdded (g g' : StopGraph) (edges : List (UnitId × UnitId)) : Prop where
  active : g'.active = g.active
  rootJobs : g'.rootJobs = g.rootJobs
  count : ∀ u, (g'.pendingCounts u).getD 0 =
    (g.pendingCounts u).getD 0 + (activeEdges g edges).countP (·.2 = u)
  parents : ∀ c, (g'.parents c).getD [] =
    (g.parents c).getD [] ++ ((activeEdges g edges).filter (·.1 = c)).map (·.2)
  isSome : ∀ u, (g'.pendingCounts u).isSome → (g.pendingCounts u).isSome ∨ u ∈ g.active

theorem addEdges_spec (edges : List (UnitId × UnitId)) :
    ∀ g : StopGraph, EdgesAdded g (g.addEdges edges) edges := by
  induction edges with
  | nil => exact fun g => ⟨rfl, rfl, fun _ => rfl, fun _ => (List.append_nil _).symm, fun _ => .inl⟩
  | cons e edges ih =>
    intro g
    have h := ih (g.addEdge e)
    have hactive : activeEdges (g.addEdge e) edges = activeEdges g edges := by
      unfold activeEdges
      rw [addEdge_active]
    refine ⟨h.active.trans addEdge_active, h.rootJobs.trans addEdge_rootJobs, fun u => ?_,
      fun c => ?_, fun u hu => ?_⟩
    · refine (h.count u).trans ?_
      rw [hactive]
      by_cases he : e.1 ∈ g.active ∧ e.2 ∈ g.active
      · rw [addEdge_count he, activeEdges, activeEdges, List.filter_cons_of_pos (by simpa using he),
          List.countP_cons, add_right_comm, add_assoc]
        simp only [decide_eq_true_eq]
      · rw [StopGraph.addEdge, if_neg he, activeEdges, activeEdges,
          List.filter_cons_of_neg (by simpa using he)]
    · refine (h.parents c).trans ?_
      rw [hactive]
      by_cases he : e.1 ∈ g.active ∧ e.2 ∈ g.active
      · rw [addEdge_parents he, activeEdges, activeEdges,
          List.filter_cons_of_pos (by simpa using he), List.append_assoc]
        by_cases hc : e.1 = c
        · rw [if_pos hc, List.filter_cons_of_pos (by simpa using hc), List.map_cons]
          rfl
        · rw [if_neg hc, List.filter_cons_of_neg (by simpa using hc), List.nil_append]
      · rw [StopGraph.addEdge, if_neg he, activeEdges, activeEdges,
          List.filter_cons_of_neg (by simpa using he)]
    · rcases h.isSome u hu with hu | hu
      · exact addEdge_isSome hu
      · exact .inr (addEdge_active ▸ hu)

theorem addMembers_count (g : StopGraph) (members : List UnitId) (u : UnitId) :
    ((g.addMembers members).pendingCounts u).getD 0 = (g.pendingCounts u).getD 0 := by
  unfold StopGraph.addMembers
  dsimp only
  split_ifs <;> rfl

/-- A closure that joins the graph is merged into the countdown. -/
theorem countdown_addCollected (g : StopGraph) (m : Collected) :
    (g.addCollected m).countdown = g.countdown.merge m.members.toFinset m.edges := by
  have h := addEdges_spec m.edges (g.addMembers m.members)
  unfold StopGraph.addCollected StopGraph.countdown Countdown.merge
  congr 1
  · exact h.active
  · funext u
    rw [h.count, addMembers_count]
    rfl
  · funext c
    exact h.parents c

theorem addCollected_isSome {g : StopGraph} {m : Collected} {u : UnitId}
    (hu : ((g.addCollected m).pendingCounts u).isSome) :
    (g.pendingCounts u).isSome ∨ u ∈ (g.addCollected m).active := by
  have h := addEdges_spec m.edges (g.addMembers m.members)
  unfold StopGraph.addCollected at hu ⊢
  rw [h.active]
  rcases h.isSome u hu with hu | hu
  · unfold StopGraph.addMembers at hu
    dsimp only at hu
    split_ifs at hu with hmem
    · exact .inr (Finset.mem_union_right _ (List.mem_toFinset.mpr hmem))
    · exact .inl hu
  · exact .inr hu

theorem addCollected_rootJobs (g : StopGraph) (m : Collected) :
    (g.addCollected m).rootJobs = g.rootJobs :=
  (addEdges_spec m.edges (g.addMembers m.members)).rootJobs

/-! ## What the handlers do -/

theorem finishStopRoot_eq (c : Config) (id : UnitId) :
    finishStopRoot c id =
      { c with
        graph := { c.graph with rootJobs := Function.update c.graph.rootJobs id none }
        log := c.log ++ ((c.graph.rootJobs id).map LogEntry.jobDone).toList } := by
  unfold finishStopRoot
  cases h : c.graph.rootJobs id with
  | some job => rfl
  | none =>
    have : Function.update c.graph.rootJobs id none = c.graph.rootJobs := by
      rw [← h, Function.update_eq_self]
    rw [this]
    exact congrArg (fun l => { c with log := l }) (List.append_nil c.log).symm

/-- What `on_stop_chain_finished` does. -/
structure ChainFinished (c c' : Config) (id : UnitId) (rest : List Call) : Prop where
  countdown : c'.graph.countdown = c.graph.countdown.finish id
  pendingCounts : c'.graph.pendingCounts = Function.update c.graph.pendingCounts id none
  rootJobs : c'.graph.rootJobs = Function.update c.graph.rootJobs id none
  status : c'.status = c.status
  live : c'.live = c.live
  calls : c'.calls =
    (c.graph.countdown.parents id).map .creditParent ++ .propagateStops id :: rest
  log : c'.log = c.log ++ .finished id :: ((c.graph.rootJobs id).map LogEntry.jobDone).toList

theorem onStopChainFinished_spec (c : Config) (id : UnitId) (rest : List Call) :
    ChainFinished c (onStopChainFinished c id rest) id rest := by
  unfold onStopChainFinished
  dsimp only
  rw [finishStopRoot_eq]
  refine ⟨?_, rfl, rfl, rfl, rfl, rfl, ?_⟩
  · unfold StopGraph.countdown Countdown.finish
    congr 1
    · funext u
      by_cases hu : u = id
      · subst hu
        simp only [Function.update_self, Option.getD_none]
      · simp only [Function.update_of_ne hu]
    · funext u
      by_cases hu : u = id
      · subst hu
        simp only [Function.update_self, Option.getD_none]
      · simp only [Function.update_of_ne hu]
  · exact (List.append_assoc _ _ _)

theorem countdown_credit {g : StopGraph} {p : UnitId} {count : ℕ}
    (h : g.pendingCounts p = some count) :
    StopGraph.countdown { g with
      pendingCounts := Function.update g.pendingCounts p (some (count - 1)) } =
      g.countdown.credit p := by
  unfold StopGraph.countdown Countdown.credit
  congr 1
  funext u
  dsimp only
  by_cases hu : u = p
  · subst hu
    rw [Function.update_self, Function.update_self, h]
    rfl
  · rw [Function.update_of_ne hu, Function.update_of_ne hu]

/-- `begin_stop_tree` for a root that is already stopping, or has nothing to stop. -/
structure TreeSkipped (c c' : Config) (job : Option JobId) (rest : List Call) : Prop where
  countdown : c'.graph.countdown = c.graph.countdown
  pendingCounts : c'.graph.pendingCounts = c.graph.pendingCounts
  rootJobs : c'.graph.rootJobs = c.graph.rootJobs
  status : c'.status = c.status
  live : c'.live = c.live
  calls : c'.calls = rest
  log : c'.log = c.log ++ (job.map LogEntry.jobDone).toList

/-- `begin_stop_tree` for a root that is not stopping yet and not stopped. -/
structure TreeCollected (t : UnitTable) (c c' : Config) (root : UnitId) (job : Option JobId)
    (rest : List Call) : Prop where
  fresh : root ∉ c.graph.active
  collectable : Collectable t c.status root
  countdown : c'.graph.countdown =
    c.graph.countdown.merge (collect t c root).members.toFinset (collect t c root).edges
  isSome : ∀ u, (c'.graph.pendingCounts u).isSome →
    (c.graph.pendingCounts u).isSome ∨ u ∈ c'.graph.active
  rootJobs : c'.graph.rootJobs = insertRootJob c.graph.rootJobs root job
  status : c'.status = c.status
  live : c'.live = c.live
  calls : c'.calls = ((collect t c root).members.filter
    fun id => c'.graph.countdown.count id = 0).map .startStopChain ++ rest
  log : c'.log = c.log ++ [.collected (collect t c root).members]

theorem collect_members_eq_nil {c : Config} {root : UnitId} :
    (collect t c root).members = [] ↔ ¬ Collectable t c.status root := by
  rw [List.eq_nil_iff_forall_not_mem]
  constructor
  · exact fun h hc => h root (mem_collect_iff.mpr ⟨hc, .refl⟩)
  · exact fun h id hid => h (mem_collect_iff.mp hid).1

/-- A root whose tree has no members keeps no job. -/
theorem insertRootJob_undo {rootJobs : UnitId → Option JobId} {root : UnitId}
    (hroot : rootJobs root = none) (job : Option JobId) :
    Function.update (insertRootJob rootJobs root job) root none = rootJobs ∧
      insertRootJob rootJobs root job root = job := by
  cases job with
  | none =>
    refine ⟨?_, hroot⟩
    rw [insertRootJob, ← hroot, Function.update_eq_self]
  | some job =>
    refine ⟨?_, Function.update_self ..⟩
    rw [insertRootJob, Function.update_idem, ← hroot, Function.update_eq_self]

theorem beginStopTree_cases {c : Config} {root : UnitId}
    (hroot : root ∉ c.graph.active → c.graph.rootJobs root = none) (job : Option JobId)
    (rest : List Call) :
    TreeSkipped c (beginStopTree t c root job rest) job rest ∨
    TreeCollected t c (beginStopTree t c root job rest) root job rest := by
  unfold beginStopTree
  by_cases hactive : root ∈ c.graph.active
  · rw [if_pos hactive]
    exact .inl ⟨rfl, rfl, rfl, rfl, rfl, rfl, rfl⟩
  · rw [if_neg hactive]
    dsimp only
    obtain ⟨hundo, hjob⟩ := insertRootJob_undo (hroot hactive) job
    by_cases hmembers : (collect t c root).members = []
    · rw [if_pos hmembers, finishStopRoot_eq]
      exact .inl ⟨rfl, rfl, hundo, rfl, rfl, rfl,
        congrArg (fun j => c.log ++ (j.map LogEntry.jobDone).toList) hjob⟩
    · rw [if_neg hmembers]
      have hroot := not_not.mp fun h => hmembers (collect_members_eq_nil.mpr h)
      exact .inr ⟨hactive, hroot, countdown_addCollected _ _, fun u hu => addCollected_isSome hu,
        addCollected_rootJobs _ _, rfl, rfl, rfl, rfl⟩

/-! ## Log entries -/

/-- Entries about jobs. -/
inductive LogEntry.IsJob : LogEntry → Prop
  | begun (root : UnitId) (job : Option JobId) : IsJob (.begun root job)
  | jobDone (job : JobId) : IsJob (.jobDone job)

theorem LogEntry.IsJob.ne_started {e : LogEntry} (h : e.IsJob) (u : UnitId) : e ≠ .started u := by
  cases h <;> simp

theorem LogEntry.IsJob.ne_finished {e : LogEntry} (h : e.IsJob) (u : UnitId) :
    e ≠ .finished u := by cases h <;> simp

theorem isJob_of_mem_jobDone {job : Option JobId} {e : LogEntry}
    (he : e ∈ (job.map LogEntry.jobDone).toList) : e.IsJob := by
  obtain ⟨j, -, rfl⟩ := Option.map_eq_some_iff.mp (Option.mem_toList.mp he)
  exact .jobDone j

/-! ## Statuses -/

/-- Only services have chains that park. -/
def isService (t : UnitTable) (id : UnitId) : Bool := (t.get id).any (·.specific.isService)

theorem alreadyStopped_markStopping {status : UnitStatus} (h : status ≠ .neverStarted)
    (stopping : Bool) : alreadyStopped (markStopping stopping status) = alreadyStopped status := by
  unfold markStopping
  split_ifs with hs
  · cases status with
    | neverStarted => exact absurd rfl h
    | stopped => cases hs.2
    | _ => rfl
  · rfl

theorem markStopping_ne_neverStarted {status : UnitStatus} (h : status ≠ .neverStarted)
    (stopping : Bool) : markStopping stopping status ≠ .neverStarted := by
  unfold markStopping
  split_ifs
  · exact fun h => by cases h
  · exact h

/-- `status'` is `status` up to the status of `id`, whose chain was started. -/
structure StatusStep (status status' : UnitId → UnitStatus) (id : UnitId) : Prop where
  other : ∀ u, u ≠ id → status' u = status u
  self : (status' id).isStopped ∨ ∃ stopping, status' id = markStopping stopping (status id)

theorem StatusStep.refl (status : UnitId → UnitStatus) (id : UnitId) :
    StatusStep status status id :=
  ⟨fun _ _ => rfl, .inr ⟨false, by simp [markStopping]⟩⟩

theorem statusStep_update {status : UnitId → UnitStatus} {id : UnitId} {s : UnitStatus}
    (hs : s.isStopped ∨ ∃ stopping, s = markStopping stopping (status id)) :
    StatusStep status (Function.update status id s) id := by
  refine ⟨fun u hu => Function.update_of_ne hu _ _, ?_⟩
  rw [Function.update_self]
  exact hs

theorem StatusStep.ne_neverStarted {status status' : UnitId → UnitStatus} {id u : UnitId}
    (h : StatusStep status status' id) (hu : status u ≠ .neverStarted) :
    status' u ≠ .neverStarted := by
  by_cases hid : u = id
  · subst hid
    rcases h.self with hs | ⟨stopping, hs⟩
    · intro hn
      rw [hn] at hs
      cases hs
    · rw [hs]
      exact markStopping_ne_neverStarted hu stopping
  · rw [h.other u hid]
    exact hu

theorem not_isStopped_of_collectable {status : UnitId → UnitStatus} {u : UnitId}
    (h : Collectable t status u) : ¬ (status u).isStopped := by
  have hc := h.2
  intro hs
  cases hst : status u with
  | stopped =>
    rw [hst] at hc
    cases hc
  | _ =>
    rw [hst] at hs
    cases hs

/-- No unit becomes collectable. -/
theorem StatusStep.collectable {status status' : UnitId → UnitStatus} {id u : UnitId}
    (h : StatusStep status status' id)
    (hid : (status' id).isStopped ∨ status id ≠ .neverStarted)
    (hu : Collectable t status' u) : Collectable t status u := by
  refine ⟨hu.1, ?_⟩
  by_cases hne : u = id
  · subst hne
    have hstopped : ¬ (status' u).isStopped := not_isStopped_of_collectable hu
    obtain ⟨stopping, hs⟩ := h.self.resolve_left hstopped
    rw [← alreadyStopped_markStopping (hid.resolve_left hstopped) stopping, ← hs]
    exact hu.2
  · rw [← h.other u hne]
    exact hu.2

/-- The other units stay collectable. -/
theorem StatusStep.collectable_of_ne {status status' : UnitId → UnitStatus} {id u : UnitId}
    (h : StatusStep status status' id) (hne : u ≠ id) (hu : Collectable t status u) :
    Collectable t status' u := ⟨hu.1, by rw [h.other u hne]; exact hu.2⟩

theorem Collectable.ne_neverStarted {status : UnitId → UnitStatus} {id : UnitId}
    (h : Collectable t status id) : status id ≠ .neverStarted := by
  intro hn
  have := h.2
  rw [hn] at this
  cases this

/-! ## Starting a chain -/

/-- What `start_stop_chain` can do. -/
inductive ChainStarted (t : UnitTable) (c : Config) (id : UnitId) (rest : List Call) :
    Config → Prop
  | parked (stopping : Bool) (hservice : isService t id) :
      ChainStarted t c id rest
        { c with
          status := Function.update c.status id (markStopping stopping (c.status id))
          live := id :: c.live
          calls := rest
          log := c.log ++ [.started id] }
  | finished {status : UnitId → UnitStatus} {c' : Config} (hstatus : StatusStep c.status status id)
      (hservice : (status id).isStopped ∨ isService t id = false)
      (hc' : ChainFinished { c with status := status, log := c.log ++ [.started id] } c' id rest) :
      ChainStarted t c id rest c'

theorem startStopChain_cases {c c' : Config} {id : UnitId} {outcome : StopOutcome}
    {rest : List Call} (h : startStopChain t c id outcome rest = some c') :
    ChainStarted t c id rest c' := by
  unfold startStopChain at h
  cases hget : t.get id with
  | none =>
    rw [hget] at h
    cases h
    have hservice : isService t id = false := by
      rw [isService, hget]
      rfl
    exact .finished (.refl _ _) (.inr hservice) (onStopChainFinished_spec _ _ _)
  | some unit =>
    have hunit : isService t id = unit.specific.isService := by rw [isService, hget]; rfl
    rw [hget] at h
    cases outcome with
    | parked stopping =>
      dsimp only at h
      split_ifs at h with hs
      cases h
      exact .parked stopping (hunit.trans hs)
    | finished =>
      cases h
      refine .finished (statusStep_update (.inl rfl)) (.inl ?_) (onStopChainFinished_spec _ _ _)
      rw [Function.update_self]
      rfl
    | failed stopping =>
      dsimp only at h
      split_ifs at h with hs
      cases h
      exact .finished (statusStep_update (.inr ⟨stopping, rfl⟩))
        (.inr (hunit.trans (Bool.eq_false_iff.mpr hs))) (onStopChainFinished_spec _ _ _)

/-! ## Calls and members after a handler -/

section Handlers

variable {c c' : Config} {id : UnitId} {rest : List Call}

theorem ChainFinished.credits_calls
    (h : ChainFinished c c' id rest) :
    credits c'.calls = c.graph.countdown.parents id ++ credits rest := by
  rw [h.calls, credits_append, credits_map_creditParent]
  rfl

theorem ChainFinished.active {id : UnitId} {rest : List Call}
    (h : ChainFinished c c' id rest) : c'.graph.active = c.graph.active.erase id :=
  congrArg Countdown.active h.countdown

theorem TreeSkipped.active {job : Option JobId} {rest : List Call}
    (h : TreeSkipped c c' job rest) : c'.graph.active = c.graph.active :=
  congrArg Countdown.active h.countdown

theorem ChainStarted.active_subset {id : UnitId} {rest : List Call}
    (h : ChainStarted t c id rest c') : c'.graph.active ⊆ c.graph.active := by
  cases h with
  | parked => exact Finset.Subset.refl _
  | finished _ _ hc' =>
    rw [hc'.active]
    exact Finset.erase_subset _ _

theorem ChainStarted.collectable {id u : UnitId} {rest : List Call}
    (h : ChainStarted t c id rest c') (hid : c.status id ≠ .neverStarted)
    (hu : Collectable t c'.status u) : Collectable t c.status u := by
  cases h with
  | parked stopping _ => exact (statusStep_update (.inr ⟨stopping, rfl⟩)).collectable (.inr hid) hu
  | finished hstatus _ hc' =>
    rw [hc'.status] at hu
    exact hstatus.collectable (.inr hid) hu

theorem TreeCollected.active {root : UnitId} {job : Option JobId}
    (hc' : TreeCollected t c c' root job rest) {u : UnitId} :
    u ∈ c'.graph.active ↔ u ∈ c.graph.active ∨ u ∈ (collect t c root).members := by
  have hactive : c'.graph.active = c.graph.active ∪ (collect t c root).members.toFinset :=
    congrArg Countdown.active hc'.countdown
  rw [hactive, Finset.mem_union, List.mem_toFinset]

theorem TreeCollected.mem_start {root : UnitId} {job : Option JobId}
    (hc' : TreeCollected t c c' root job rest) {u : UnitId} :
    .startStopChain u ∈ c'.calls ↔
      (u ∈ (collect t c root).members ∧ c'.graph.countdown.count u = 0) ∨
      .startStopChain u ∈ rest := by
  rw [hc'.calls, List.mem_append, List.mem_map]
  refine or_congr_left ⟨?_, ?_⟩
  · rintro ⟨x, hx, heq⟩
    cases heq
    rw [List.mem_filter, decide_eq_true_iff] at hx
    exact hx
  · intro hu
    exact ⟨u, List.mem_filter.mpr ⟨hu.1, decide_eq_true hu.2⟩, rfl⟩

theorem TreeCollected.credits_calls {root : UnitId} {job : Option JobId}
    (hc' : TreeCollected t c c' root job rest) : credits c'.calls = credits rest := by
  rw [hc'.calls, credits_append, credits_map_of_none (fun _ => rfl), List.nil_append]

/-- What the propagation does to a configuration. -/
structure StopsPropagated (c c' : Config) (rest : List Call) : Prop where
  countdown : c'.graph.countdown = c.graph.countdown
  pendingCounts : c'.graph.pendingCounts = c.graph.pendingCounts
  rootJobs : c'.graph.rootJobs = c.graph.rootJobs
  status : c'.status = c.status
  live : c'.live = c.live
  calls : ∃ targets : List UnitId, c'.calls = targets.map (.beginStopTree · none) ++ rest
  log : c'.log = c.log

theorem propagateStops_spec (c : Config) (id : UnitId) (rest : List Call) :
    StopsPropagated c (propagateStops c id rest) rest := by
  unfold propagateStops
  cases c.graph.propagateAfter id with
  | none => exact ⟨rfl, rfl, rfl, rfl, rfl, ⟨[], rfl⟩, rfl⟩
  | some targets => exact ⟨rfl, rfl, rfl, rfl, rfl, ⟨targets, rfl⟩, rfl⟩

theorem StopsPropagated.active (h : StopsPropagated c c' rest) :
    c'.graph.active = c.graph.active := congrArg Countdown.active h.countdown

/-- The trees of the propagation have no job, credit nobody and start nothing yet. -/
theorem StopsPropagated.calls_iff (hc' : StopsPropagated c c' rest) :
    credits c'.calls = credits rest ∧
    (∀ u, .startStopChain u ∈ c'.calls ↔ .startStopChain u ∈ rest) ∧
    ∀ u j, .beginStopTree u (some j) ∈ c'.calls ↔ .beginStopTree u (some j) ∈ rest := by
  obtain ⟨targets, hcalls⟩ := hc'.calls
  rw [hcalls]
  refine ⟨?_, fun u => ?_, fun u j => ?_⟩
  · rw [credits_append, credits_map_of_none (fun _ => rfl), List.nil_append]
  · rw [List.mem_append, or_iff_right]
    intro hu
    obtain ⟨x, -, hx⟩ := List.mem_map.mp hu
    exact Call.noConfusion hx
  · rw [List.mem_append, or_iff_right]
    intro hu
    obtain ⟨x, -, hx⟩ := List.mem_map.mp hu
    exact Option.some_ne_none j (Call.beginStopTree.inj hx).2.symm

/-- The count of `p`, which was `count`, is lowered. -/
def Config.lowered (c : Config) (p : UnitId) (count : ℕ) : Config :=
  { c with graph := { c.graph with
    pendingCounts := Function.update c.graph.pendingCounts p (some (count - 1)) } }

theorem lowered_countdown {p : UnitId} {count : ℕ} (h : c.graph.pendingCounts p = some count) :
    (c.lowered p count).graph.countdown = c.graph.countdown.credit p := countdown_credit h

theorem countdown_count_of_some {p : UnitId} {count : ℕ}
    (h : c.graph.pendingCounts p = some count) : c.graph.countdown.count p = count := by
  change (c.graph.pendingCounts p).getD 0 = count
  rw [h]
  rfl

/-- With exact counts no credit is for a unit that has left the graph. -/
theorem counted_of_exact (h : c.graph.countdown.Exact (credits c.calls)) {p : UnitId}
    (hcalls : c.calls = .creditParent p :: rest) : c.graph.pendingCounts p ≠ none := by
  intro hnone
  have hpos : 0 < c.graph.countdown.count p := by
    refine h.count_pos ?_
    rw [hcalls]
    exact List.mem_cons_self
  have hzero : c.graph.countdown.count p = 0 := by
    change (c.graph.pendingCounts p).getD 0 = 0
    rw [hnone]
    rfl
  omega

/-- What a credit does: it is for nobody, or it lowers a count, and the chain of the parent
    starts when the count reaches zero. -/
theorem creditParent_cases {p : UnitId} {outcome : StopOutcome}
    (h : creditParent t c p outcome rest = some c') :
    (c.graph.pendingCounts p = none ∧ c' = { c with calls := rest }) ∨
    ∃ count, c.graph.pendingCounts p = some count ∧
      (count - 1 = 0 ∧ ChainStarted t (c.lowered p count) p rest c' ∨
        count - 1 ≠ 0 ∧ c' = { c.lowered p count with calls := rest }) := by
  unfold creditParent at h
  cases hcount : c.graph.pendingCounts p with
  | none =>
    rw [hcount] at h
    exact .inl ⟨rfl, (Option.some.inj h).symm⟩
  | some count =>
    rw [hcount] at h
    refine .inr ⟨count, rfl, ?_⟩
    dsimp only at h
    split_ifs at h with hzero
    · exact .inl ⟨hzero, startStopChain_cases h⟩
    · exact .inr ⟨hzero, (Option.some.inj h).symm⟩

end Handlers

/-! ## Steps -/

/-- What a step does, case by case. -/
inductive Stepped (t : UnitTable) (c : Config) : Action → Config → Prop
  | begin (root : UnitId) (job : Option JobId) (hcalls : c.calls = []) :
      Stepped t c (.begin root job)
        { c with calls := [.beginStopTree root job], log := c.log ++ [.begun root job] }
  | delivered {c' : Config} (id : UnitId) (hcalls : c.calls = []) (hlive : id ∈ c.live)
      (hc' : ChainFinished
        { c with
          status := Function.update c.status id (.stopped .stoppedFinal)
          live := c.live.erase id } c' id []) :
      Stepped t c (.deliver id) c'
  | skipped {c' : Config} {outcome : StopOutcome} {root : UnitId} {job : Option JobId}
      {rest : List Call} (hcalls : c.calls = .beginStopTree root job :: rest)
      (hc' : TreeSkipped c c' job rest) : Stepped t c (.exec outcome) c'
  | collected {c' : Config} {outcome : StopOutcome} {root : UnitId} {job : Option JobId}
      {rest : List Call} (hcalls : c.calls = .beginStopTree root job :: rest)
      (hc' : TreeCollected t c c' root job rest) : Stepped t c (.exec outcome) c'
  | started {c' : Config} {outcome : StopOutcome} {id : UnitId} {rest : List Call}
      (hcalls : c.calls = .startStopChain id :: rest) (hc' : ChainStarted t c id rest c') :
      Stepped t c (.exec outcome) c'
  | dropped {outcome : StopOutcome} {p : UnitId} {rest : List Call}
      (hcalls : c.calls = .creditParent p :: rest) (hcount : c.graph.pendingCounts p = none) :
      Stepped t c (.exec outcome) { c with calls := rest }
  | lowered {outcome : StopOutcome} {p : UnitId} {rest : List Call} {count : ℕ}
      (hcalls : c.calls = .creditParent p :: rest)
      (hcount : c.graph.pendingCounts p = some count) (hpos : count - 1 ≠ 0) :
      Stepped t c (.exec outcome) { c.lowered p count with calls := rest }
  | credited {c' : Config} {outcome : StopOutcome} {p : UnitId} {rest : List Call} {count : ℕ}
      (hcalls : c.calls = .creditParent p :: rest)
      (hcount : c.graph.pendingCounts p = some count) (hzero : count - 1 = 0)
      (hc' : ChainStarted t (c.lowered p count) p rest c') : Stepped t c (.exec outcome) c'
  | propagated {c' : Config} {outcome : StopOutcome} {id : UnitId} {rest : List Call}
      (hcalls : c.calls = .propagateStops id :: rest) (hc' : StopsPropagated c c' rest) :
      Stepped t c (.exec outcome) c'

variable {c c' : Config} {a : Action}

theorem exec_cases (hjobs : ∀ u, u ∉ c.graph.active → c.graph.rootJobs u = none)
    {outcome : StopOutcome} (hc' : exec t c outcome = some c') :
    Stepped t c (.exec outcome) c' := by
  unfold exec at hc'
  cases hcalls : c.calls with
  | nil =>
    rw [hcalls] at hc'
    cases hc'
  | cons call rest =>
    rw [hcalls] at hc'
    cases call with
    | beginStopTree root job =>
      rw [← Option.some.inj hc']
      exact (beginStopTree_cases (hjobs root) job rest).elim (.skipped hcalls) (.collected hcalls)
    | startStopChain id => exact .started hcalls (startStopChain_cases hc')
    | creditParent p =>
      rcases creditParent_cases hc' with ⟨hnone, rfl⟩ | ⟨count, hcount, hcase⟩
      · exact .dropped hcalls hnone
      · rcases hcase with ⟨hzero, hstart⟩ | ⟨hpos, rfl⟩
        · exact .credited hcalls hcount hzero hstart
        · exact .lowered hcalls hcount hpos
    | propagateStops id =>
      rw [← Option.some.inj hc']
      exact .propagated hcalls (propagateStops_spec c id rest)

theorem step_cases (hjobs : ∀ u, u ∉ c.graph.active → c.graph.rootJobs u = none)
    (hc' : step t c a = some c') : Stepped t c a c' := by
  cases a with
  | begin root job =>
    unfold step at hc'
    split_ifs at hc' with hcalls
    rw [← Option.some.inj hc']
    exact .begin root job hcalls
  | deliver id =>
    dsimp only [step] at hc'
    by_cases hlive : c.calls = [] ∧ id ∈ c.live
    · rw [if_pos hlive] at hc'
      rw [← Option.some.inj hc']
      exact .delivered id hlive.1 hlive.2 (onStopChainFinished_spec _ _ _)
    · rw [if_neg hlive] at hc'
      cases hc'
  | exec outcome => exact exec_cases hjobs hc'

/-- A unit becomes active only as a member of a stop tree. -/
theorem Stepped.active (hs : Stepped t c a c') {u : UnitId} (hu : u ∈ c'.graph.active) :
    u ∈ c.graph.active ∨ ∃ outcome root job rest, a = .exec outcome ∧
      c.calls = .beginStopTree root job :: rest ∧ TreeCollected t c c' root job rest ∧
      u ∈ (collect t c root).members := by
  cases hs with
  | begin | dropped | lowered => exact .inl hu
  | delivered id _ _ hc' => exact .inl (Finset.mem_of_mem_erase (hc'.active ▸ hu))
  | skipped _ hc' => exact .inl (hc'.active ▸ hu)
  | collected hcalls hc' =>
    exact (hc'.active.mp hu).imp_right fun hm => ⟨_, _, _, _, rfl, hcalls, hc', hm⟩
  | started _ hc' => exact .inl (hc'.active_subset hu)
  | credited _ _ _ hc' => exact .inl (hc'.active_subset hu)
  | propagated _ hc' => exact .inl (hc'.active ▸ hu)


end OxidizedSystemd.Dispatcher
