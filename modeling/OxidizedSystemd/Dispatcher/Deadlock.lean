import OxidizedSystemd.Dispatcher.Invariant

/-!
# When the stop graph cannot get stuck

A closure with a cycle leaves every unit of the cycle waiting for another one
of it. `deactivate_unit_recursive` stops at units it has visited; the stop
graph has no such guard.

* `AcyclicBegins`: no stop tree that is collected meets such a cycle.
* `active_has_live_chain`: then some active unit has a running chain, and
  when no chain runs nothing is active and every stop job is finished.
* `mutual_requirement_stuck`: two units that require each other wait forever.
-/

namespace OxidizedSystemd.Dispatcher

open OxidizedSystemd.Units OxidizedSystemd.Jobs OxidizedSystemd.Lib
open Relation (ReflTransGen TransGen)

variable {t : UnitTable}

/-- No unit that has to stop before `u`, directly or not, waits for itself. -/
def ReachAcyclic (t : UnitTable) (status : UnitId → UnitStatus) (u : UnitId) : Prop :=
  ∀ v, StopPath t status u v → ¬ TransGen (StopEdge t status) v v

/-- If the step builds a stop tree, its root reaches no cycle. -/
def AcyclicBegins (t : UnitTable) (c : Config) : Action → Prop
  | .exec _ => ∀ root job rest, c.calls = .beginStopTree root job :: rest →
      root ∉ c.graph.active → ReachAcyclic t c.status root
  | _ => True

theorem StopEdge.mono {status status' : UnitId → UnitStatus}
    (h : ∀ u, Collectable t status' u → Collectable t status u) {u d : UnitId}
    (he : StopEdge t status' u d) : StopEdge t status u d := ⟨h u he.1, h d he.2.1, he.2.2⟩

theorem ReachAcyclic.mono {status status' : UnitId → UnitStatus} {u : UnitId}
    (hu : ReachAcyclic t status u) (h : ∀ u, Collectable t status' u → Collectable t status u) :
    ReachAcyclic t status' u := by
  intro v hv hcycle
  exact hu v (ReflTransGen.mono (fun _ _ => StopEdge.mono h) _ _ hv)
    (TransGen.mono (fun _ _ => StopEdge.mono h) _ _ hcycle)

theorem ReachAcyclic.of_path {status : UnitId → UnitStatus} {u v : UnitId}
    (hu : ReachAcyclic t status u) (hpath : StopPath t status u v) : ReachAcyclic t status v :=
  fun w hw => hu w (hpath.trans hw)

theorem reachAcyclic_of_acyclic (h : Acyclic (Dependent t)) (status : UnitId → UnitStatus)
    (u : UnitId) : ReachAcyclic t status u :=
  fun v _ hcycle => h v (TransGen.mono (fun _ _ he => he.2.2) _ _ hcycle)

/-- In an acyclic table every run begins only acyclic trees. -/
theorem acyclicBegins_of_acyclic (h : Acyclic (Dependent t)) (actions : List Action)
    (c : Config) : RunMeets (step t) (AcyclicBegins t) c actions := by
  refine RunMeets.of_forall (fun c a => ?_) actions c
  cases a with
  | exec outcome => exact fun root _ _ _ _ => reachAcyclic_of_acyclic h c.status root
  | begin | deliver => trivial

/-- The invariant of the runs whose trees meet no cycle. -/
structure AcyclicInv (t : UnitTable) (c : Config) : Prop where
  inv : Inv t none c
  acyclic : ∀ {u}, u ∈ c.graph.active → ReachAcyclic t c.status u

theorem acyclicInv_initial (t : UnitTable) : AcyclicInv t (Config.initial t) :=
  ⟨inv_initial t, fun h => absurd h (Finset.notMem_empty _)⟩

theorem AcyclicInv.step {c c' : Config} {a : Action} (h : AcyclicInv t c)
    (hok : AcyclicBegins t c a) (hc' : step t c a = some c') : AcyclicInv t c' := by
  have hs := h.inv.step_cases hc'
  refine ⟨h.inv.stepped hs, fun {u} hu => ?_⟩
  have hshrink : ∀ u, Collectable t c'.status u → Collectable t c.status u :=
    fun u => hs.collectable h.inv
  rcases hs.active hu with hold | ⟨outcome, root, job, rest, rfl, hcalls, htree, hmem⟩
  · exact (h.acyclic hold).mono hshrink
  · have hroot := hok root job rest hcalls htree.fresh
    exact (hroot.of_path (mem_collect_iff.mp hmem).2).mono hshrink

/-- Between events, the waiting leads from every active unit to one with a running chain. -/
theorem AcyclicInv.exists_live {c : Config} (h : AcyclicInv t c) (hcalls : c.calls = [])
    {u : UnitId} (hu : u ∈ c.graph.active) :
    ∃ v ∈ c.graph.active, v ∈ c.live ∧ StopPath t c.status u v := by
  have hcovered := h.inv.covered
  rw [hcalls] at hcovered
  have hedge : ∀ d ∈ c.graph.active, ∀ u ∈ c.graph.active, u ∈ c.graph.countdown.parents d →
      StopEdge t c.status u d :=
    fun d hd u hu hmem => ⟨h.inv.collectable hu, h.inv.collectable hd, h.inv.edges hmem⟩
  obtain ⟨v, hv, hzero, hpath⟩ :=
    Countdown.Covered.exists_zero (g := c.graph.countdown) hcovered hedge hu (h.acyclic hu)
  refine ⟨v, hv, ?_, hpath⟩
  refine (h.inv.zero hv hzero (Option.some_ne_none v).symm).resolve_right fun hs => ?_
  rw [hcalls] at hs
  exact absurd hs List.not_mem_nil

/-- When nothing is active and no call is left, every stop job is finished. -/
theorem Inv.jobs_done {c : Config} (h : Inv t none c) (hcalls : c.calls = [])
    (hactive : c.graph.active = ∅) {root : UnitId} {job : JobId}
    (hbegun : .begun root (some job) ∈ c.log) : .jobDone job ∈ c.log := by
  rcases h.jobs hbegun with hdone | ⟨u, hu⟩ | ⟨u, hu⟩
  · exact hdone
  · have := h.rootJobs (show (c.graph.rootJobs u).isSome by rw [hu]; rfl)
    rw [hactive] at this
    exact absurd this (Finset.notMem_empty u)
  · rw [hcalls] at hu
    exact absurd hu List.not_mem_nil

/-- If no stop tree that is built meets a cycle, an active unit is waited for only while some
    active unit has a running chain; when none has, everything is stopped and reported. -/
theorem active_has_live_chain {actions : List Action} {c : Config}
    (hok : RunMeets (step t) (AcyclicBegins t) (Config.initial t) actions)
    (hc : run (step t) (Config.initial t) actions = some c) (hcalls : c.calls = []) :
    (c.graph.active.Nonempty → ∃ u ∈ c.graph.active, u ∈ c.live) ∧
    (c.live = [] → c.graph.active = ∅ ∧
      ∀ root job, .begun root (some job) ∈ c.log → .jobDone job ∈ c.log) := by
  have h : AcyclicInv t c :=
    run_inv_of_meets (P := AcyclicInv t) (fun _ _ _ h hok hs => h.step hok hs) actions
      (acyclicInv_initial t) hok hc
  have hlive : c.graph.active.Nonempty → ∃ u ∈ c.graph.active, u ∈ c.live := by
    rintro ⟨u, hu⟩
    obtain ⟨v, hv, hvlive, -⟩ := h.exists_live hcalls hu
    exact ⟨v, hv, hvlive⟩
  refine ⟨hlive, fun hnone => ?_⟩
  have hempty : c.graph.active = ∅ := by
    rw [← Finset.not_nonempty_iff_eq_empty]
    intro hne
    obtain ⟨u, -, hu⟩ := hlive hne
    rw [hnone] at hu
    exact absurd hu List.not_mem_nil
  exact ⟨hempty, fun root job hj => h.inv.jobs_done hcalls hempty hj⟩

/-- The stop of two services, one after the other. -/
theorem active_has_live_chain_stopDb :
    ∃ c, run (step webAndDb) (Config.initial webAndDb) stopDb = some c ∧
      c.graph.active = ∅ ∧ .jobDone 1 ∈ c.log := by
  obtain ⟨c, hc, hcalls, hlive, hlog⟩ := stopDb_run
  obtain ⟨-, hdone⟩ :=
    active_has_live_chain (acyclicBegins_of_acyclic webAndDb_acyclic _ _) hc hcalls
  obtain ⟨hactive, hjobs⟩ := hdone hlive
  refine ⟨c, hc, hactive, hjobs ⟨.service, "db.service"⟩ 1 ?_⟩
  rw [hlog]
  exact List.mem_cons_self

/-- Two services that require each other. -/
def mutualRequirement : UnitTable where
  units :=
    [runningService ⟨.service, "a.service"⟩
        { requires := [⟨.service, "b.service"⟩], requiredBy := [⟨.service, "b.service"⟩] },
      runningService ⟨.service, "b.service"⟩
        { requires := [⟨.service, "a.service"⟩], requiredBy := [⟨.service, "a.service"⟩] }]
  nodup := by decide

/-- Their stop is never started: both are active and wait, and no chain runs. -/
theorem mutual_requirement_stuck :
    ∃ c, run (step mutualRequirement) (Config.initial mutualRequirement)
        [.begin ⟨.service, "a.service"⟩ (some 1), .exec .finished] = some c ∧
      c.calls = [] ∧ c.graph.active.Nonempty ∧ (∀ u ∈ c.graph.active, u ∉ c.live) ∧
      .jobDone 1 ∉ c.log := by
  refine ⟨_, Option.some_get (show Option.isSome _ by decide) |>.symm, ?_, ?_, ?_, ?_⟩
  · decide +kernel
  · exact ⟨⟨.service, "a.service"⟩, by decide +kernel⟩
  · decide +kernel
  · decide +kernel

end OxidizedSystemd.Dispatcher
