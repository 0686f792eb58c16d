import OxidizedSystemd.Dispatcher.Handlers
import OxidizedSystemd.Lib.Run

/-!
# What holds of the stop graph in every reachable state

* `Inv`: only loaded, not stopped units are active, their counts are covered,
  and one whose count is zero has its chain started or about to be.
* `Inv.stepped`, `inv_run`: every step keeps it, so it holds in every state of
  every run.
-/

namespace OxidizedSystemd.Dispatcher

open OxidizedSystemd.Units OxidizedSystemd.Jobs OxidizedSystemd.Lib

variable {t : UnitTable}

/-! ## The invariant -/

/-- What holds in every reachable state. `hole` is a unit whose chain was taken off the calls
    and is about to start. -/
structure Inv (t : UnitTable) (hole : Option UnitId) (c : Config) : Prop where
  grounded : c.graph.countdown.Grounded
  counted : ∀ {u}, (c.graph.pendingCounts u).isSome → u ∈ c.graph.active
  edges : ∀ {d u}, u ∈ c.graph.countdown.parents d → Dependent t u d
  collectable : ∀ {u}, u ∈ c.graph.active → Collectable t c.status u
  scheduled : ∀ {u}, .startStopChain u ∈ c.calls → c.status u ≠ .neverStarted
  covered : c.graph.countdown.Covered (credits c.calls)
  zero : ∀ {u}, u ∈ c.graph.active → c.graph.countdown.count u = 0 → hole ≠ some u →
    u ∈ c.live ∨ .startStopChain u ∈ c.calls
  rootJobs : ∀ {u}, (c.graph.rootJobs u).isSome → u ∈ c.graph.active
  jobs : ∀ {root job}, .begun root (some job) ∈ c.log → .jobDone job ∈ c.log ∨
    (∃ u, c.graph.rootJobs u = some job) ∨ ∃ u, .beginStopTree u (some job) ∈ c.calls

theorem inv_initial (t : UnitTable) : Inv t none (Config.initial t) where
  grounded _ _ := rfl
  counted h := by cases h
  edges h := absurd h List.not_mem_nil
  collectable h := absurd h (Finset.notMem_empty _)
  scheduled h := absurd h List.not_mem_nil
  covered _ := Nat.zero_le _
  zero h := absurd h (Finset.notMem_empty _)
  rootJobs h := by cases h
  jobs h := absurd h List.not_mem_nil

/-! ## The handlers keep the invariant -/

section Handlers

variable {c c' : Config} {id : UnitId} {rest : List Call}

/-- A chain finishes: its unit leaves the graph and the units it kept waiting are credited. -/
theorem Inv.finished {status : UnitId → UnitStatus} {live : List UnitId} {log : List LogEntry}
    (h : Inv t (some id) { c with calls := rest }) (hstatus : StatusStep c.status status id)
    (hlive : ∀ u, u ≠ id → u ∈ c.live → u ∈ live) (hlog : ∀ e ∈ c.log, e ∈ log)
    (hbegun : ∀ root job, .begun root job ∈ log → .begun root job ∈ c.log)
    (hc' : ChainFinished { c with status := status, live := live, log := log } c' id rest) :
    Inv t none c' := by
  have hactive : c'.graph.active = c.graph.active.erase id :=
    congrArg Countdown.active hc'.countdown
  have hmem : ∀ {u}, u ∈ c'.graph.active → u ≠ id ∧ u ∈ c.graph.active := by
    intro u hu
    rw [hactive] at hu
    exact Finset.mem_erase.mp hu
  refine ⟨?_, fun {u} hu => ?_, fun {d u} hu => ?_, fun {u} hu => ?_, fun {u} hu => ?_, ?_,
    fun {u} hu hzero _ => ?_, fun {u} hu => ?_, fun {root job} hj => ?_⟩
  · rw [hc'.countdown]
    exact h.grounded.finish id
  · rw [hc'.pendingCounts] at hu
    rw [hactive]
    by_cases hne : u = id
    · rw [hne, Function.update_self] at hu
      cases hu
    · rw [Function.update_of_ne hne] at hu
      exact Finset.mem_erase.mpr ⟨hne, h.counted hu⟩
  · rw [hc'.countdown, Countdown.mem_finish_parents] at hu
    exact h.edges hu.2
  · rw [hc'.status]
    exact hstatus.collectable_of_ne (hmem hu).1 (h.collectable (hmem hu).2)
  · rw [hc'.status]
    rw [hc'.calls] at hu
    rcases List.mem_append.mp hu with hu | hu
    · obtain ⟨p, -, hp⟩ := List.mem_map.mp hu
      cases hp
    · rcases List.mem_cons.mp hu with hu | hu
      · cases hu
      · exact hstatus.ne_neverStarted (h.scheduled hu)
  · rw [hc'.countdown, hc'.credits_calls]
    exact h.covered.finish h.grounded id
  · have hcount : c.graph.countdown.count u = 0 := by
      rw [hc'.countdown, Countdown.finish_count_of_ne _ (hmem hu).1] at hzero
      exact hzero
    rw [hc'.live, hc'.calls]
    rcases h.zero (hmem hu).2 hcount (fun he => (hmem hu).1 (Option.some.inj he).symm) with hl | hs
    · exact .inl (hlive u (hmem hu).1 hl)
    · exact .inr (List.mem_append_right _ (List.mem_cons_of_mem _ hs))
  · rw [hc'.rootJobs] at hu
    rw [hactive]
    by_cases hne : u = id
    · rw [hne, Function.update_self] at hu
      cases hu
    · rw [Function.update_of_ne hne] at hu
      exact Finset.mem_erase.mpr ⟨hne, h.rootJobs hu⟩
  · have hdone : ∀ {e}, e ∈ c.log → e ∈ c'.log := by
      intro e he
      rw [hc'.log]
      exact List.mem_append_left _ (hlog e he)
    rw [hc'.log] at hj
    have hj' : .begun root (some job) ∈ c.log := by
      rcases List.mem_append.mp hj with hj | hj
      · exact hbegun _ _ hj
      · rcases List.mem_cons.mp hj with hj | hj
        · cases hj
        · obtain ⟨j, -, heq⟩ := Option.map_eq_some_iff.mp (Option.mem_toList.mp hj)
          cases heq
    rcases h.jobs hj' with hd | ⟨u, hu⟩ | ⟨u, hu⟩
    · exact .inl (hdone hd)
    · by_cases hne : u = id
      · subst hne
        refine .inl ?_
        rw [hc'.log]
        refine List.mem_append_right _ (List.mem_cons_of_mem _ ?_)
        rw [show c.graph.rootJobs u = some job from hu]
        exact List.mem_singleton.mpr rfl
      · refine .inr (.inl ⟨u, ?_⟩)
        rw [hc'.rootJobs, Function.update_of_ne hne]
        exact hu
    · refine .inr (.inr ⟨u, ?_⟩)
      rw [hc'.calls]
      exact List.mem_append_right _ (List.mem_cons_of_mem _ hu)

/-- A chain parks: its unit is live. -/
theorem Inv.parked {status : UnitId → UnitStatus} {log : List LogEntry}
    (h : Inv t (some id) { c with calls := rest })
    (hid : c.status id ≠ .neverStarted) (stopping : Bool)
    (hstatus : status = Function.update c.status id (markStopping stopping (c.status id)))
    (hlog : ∀ root job, .begun root job ∈ log → .begun root job ∈ c.log)
    (hdone : ∀ e ∈ c.log, e ∈ log) :
    Inv t none { c with status := status, live := id :: c.live, calls := rest, log := log } where
  grounded := h.grounded
  counted := h.counted
  edges := h.edges
  collectable {u} hu := by
    have hc := h.collectable hu
    refine ⟨hc.1, ?_⟩
    dsimp only
    rw [hstatus]
    by_cases hne : u = id
    · subst hne
      rw [Function.update_self, alreadyStopped_markStopping hid]
      exact hc.2
    · rw [Function.update_of_ne hne]
      exact hc.2
  scheduled {u} hu := by
    subst hstatus
    exact (statusStep_update (.inr ⟨stopping, rfl⟩)).ne_neverStarted (h.scheduled hu)
  covered := h.covered
  zero {u} hu hzero _ := by
    by_cases hne : u = id
    · exact .inl (hne ▸ List.mem_cons_self)
    · exact (h.zero hu hzero fun he => hne (Option.some.inj he).symm).imp_left
        (List.mem_cons_of_mem _)
  rootJobs := h.rootJobs
  jobs hj := by
    rcases h.jobs (hlog _ _ hj) with hd | hr | hb
    · exact .inl (hdone _ hd)
    · exact .inr (.inl hr)
    · exact .inr (.inr hb)

theorem mem_log_of_mem_append {log : List LogEntry} {e e' : LogEntry} (h : e ∈ log ++ [e'])
    (hne : e ≠ e') : e ∈ log :=
  (List.mem_append.mp h).resolve_right fun h => hne (List.mem_singleton.mp h)

theorem Inv.started (h : Inv t (some id) { c with calls := rest })
    (hid : c.status id ≠ .neverStarted) (hc' : ChainStarted t c id rest c') : Inv t none c' := by
  cases hc' with
  | parked stopping _ =>
    exact h.parked hid stopping rfl
      (fun root job hj => mem_log_of_mem_append hj (by simp))
      (fun e he => List.mem_append_left _ he)
  | finished hstatus _ hc' =>
    exact h.finished hstatus (fun u _ hu => hu) (fun e he => List.mem_append_left _ he)
      (fun root job hj => mem_log_of_mem_append hj (by simp)) hc'

/-- A start is taken off the calls. -/
theorem Inv.popStart (h : Inv t none c) (hcalls : c.calls = .startStopChain id :: rest) :
    Inv t (some id) { c with calls := rest } where
  grounded := h.grounded
  counted := h.counted
  edges := h.edges
  collectable := h.collectable
  scheduled hu := h.scheduled (hcalls ▸ List.mem_cons_of_mem _ hu)
  covered := by
    have := h.covered
    rw [hcalls] at this
    exact this
  zero {u} hu hzero hne := by
    refine (h.zero hu hzero (Option.some_ne_none u).symm).imp_right fun hs => ?_
    rw [hcalls] at hs
    rcases List.mem_cons.mp hs with hs | hs
    · cases hs
      exact absurd rfl hne
    · exact hs
  rootJobs := h.rootJobs
  jobs hj := by
    rcases h.jobs hj with hd | hr | ⟨u, hu⟩
    · exact .inl hd
    · exact .inr (.inl hr)
    · rw [hcalls] at hu
      exact .inr (.inr ⟨u, (List.mem_cons.mp hu).resolve_left (fun h => Call.noConfusion h)⟩)

/-- A credit is taken off the calls; the parent it was the last for is about to start. -/
theorem Inv.credited (h : Inv t none c) {p : UnitId} (hcalls : c.calls = .creditParent p :: rest)
    {count : ℕ} (hcount : c.graph.pendingCounts p = some count) :
    Inv t (if count - 1 = 0 then some p else none)
      { c.lowered p count with calls := rest } := by
  unfold Config.lowered
  have hp : p ∈ c.graph.active := h.counted (by rw [hcount]; rfl)
  have hgetD := countdown_count_of_some hcount
  have hcountdown := countdown_credit hcount
  refine ⟨?_, fun {u} hu => ?_, h.edges, h.collectable, fun {u} hu => ?_, ?_,
    fun {u} hu hzero hne => ?_, h.rootJobs, fun {root job} hj => ?_⟩
  · rw [hcountdown]
    exact h.grounded
  · dsimp only at hu
    by_cases hup : u = p
    · exact hup ▸ hp
    · rw [Function.update_of_ne hup] at hu
      exact h.counted hu
  · exact h.scheduled (hcalls ▸ List.mem_cons_of_mem _ hu)
  · rw [hcountdown]
    refine Countdown.Covered.credit ?_
    have := h.covered
    rw [hcalls] at this
    exact this
  · have hup : u ≠ p := by
      rintro rfl
      rw [hcountdown, Countdown.credit_count_self, hgetD] at hzero
      rw [if_pos hzero] at hne
      exact hne rfl
    rw [hcountdown, Countdown.credit_count_of_ne _ hup] at hzero
    refine (h.zero hu hzero (Option.some_ne_none u).symm).imp_right fun hs => ?_
    rw [hcalls] at hs
    exact (List.mem_cons.mp hs).resolve_left (fun h => Call.noConfusion h)
  · rcases h.jobs hj with hd | hr | ⟨u, hu⟩
    · exact .inl hd
    · exact .inr (.inl hr)
    · rw [hcalls] at hu
      exact .inr (.inr ⟨u, (List.mem_cons.mp hu).resolve_left (fun h => Call.noConfusion h)⟩)

/-- The calls after a `begin_stop_tree` was taken off. -/
theorem begin_calls {root : UnitId} {job : Option JobId}
    (hcalls : c.calls = .beginStopTree root job :: rest) :
    credits c.calls = credits rest ∧ (∀ u, .startStopChain u ∈ c.calls ↔ .startStopChain u ∈ rest) ∧
    ∀ u j, .beginStopTree u (some j) ∈ c.calls →
      job = some j ∨ .beginStopTree u (some j) ∈ rest := by
  rw [hcalls]
  refine ⟨rfl, fun u => ?_, fun u j hu => ?_⟩
  · rw [List.mem_cons]
    exact or_iff_right (fun h => Call.noConfusion h)
  · rcases List.mem_cons.mp hu with hu | hu
    · exact .inl (Call.beginStopTree.inj hu).2.symm
    · exact .inr hu

theorem Inv.skipped (h : Inv t none c) {root : UnitId} {job : Option JobId}
    (hcalls : c.calls = .beginStopTree root job :: rest) (hc' : TreeSkipped c c' job rest) :
    Inv t none c' := by
  obtain ⟨hcredits, hstart, hbegin⟩ := begin_calls hcalls
  have hactive : c'.graph.active = c.graph.active := congrArg Countdown.active hc'.countdown
  refine ⟨hc'.countdown ▸ h.grounded, fun {u} hu => ?_, fun {d u} hu => ?_, fun {u} hu => ?_,
    fun {u} hu => ?_, ?_, fun {u} hu hzero hne => ?_, fun {u} hu => ?_, fun {r j} hj => ?_⟩
  · rw [hactive]
    exact h.counted (hc'.pendingCounts ▸ hu)
  · exact h.edges (hc'.countdown ▸ hu)
  · rw [hc'.status]
    exact h.collectable (hactive ▸ hu)
  · rw [hc'.status]
    exact h.scheduled ((hstart u).mpr (hc'.calls ▸ hu))
  · rw [hc'.countdown, hc'.calls, ← hcredits]
    exact h.covered
  · rw [hc'.live, hc'.calls, ← hstart u]
    exact h.zero (hactive ▸ hu) (hc'.countdown ▸ hzero) hne
  · rw [hactive]
    exact h.rootJobs (hc'.rootJobs ▸ hu)
  · rw [hc'.log] at hj ⊢
    have hj' : .begun r (some j) ∈ c.log := by
      rcases List.mem_append.mp hj with hj | hj
      · exact hj
      · obtain ⟨j', -, heq⟩ := Option.map_eq_some_iff.mp (Option.mem_toList.mp hj)
        cases heq
    rcases h.jobs hj' with hd | ⟨u, hu⟩ | ⟨u, hu⟩
    · exact .inl (List.mem_append_left _ hd)
    · exact .inr (.inl ⟨u, hc'.rootJobs ▸ hu⟩)
    · rcases hbegin u j hu with hjob | hu
      · refine .inl (List.mem_append_right _ ?_)
        rw [hjob]
        exact List.mem_singleton.mpr rfl
      · exact .inr (.inr ⟨u, hc'.calls ▸ hu⟩)

theorem Inv.collected (h : Inv t none c) {root : UnitId} {job : Option JobId}
    (hcalls : c.calls = .beginStopTree root job :: rest)
    (hc' : TreeCollected t c c' root job rest) : Inv t none c' := by
  obtain ⟨hcredits, hstart, hbegin⟩ := begin_calls hcalls
  have hmembers := @collectable_of_mem_collect t c root
  have hroot : root ∈ (collect t c root).members :=
    mem_collect_iff.mpr ⟨hc'.collectable, .refl⟩
  refine ⟨?_, fun {u} hu => ?_, fun {d u} hu => ?_, fun {u} hu => ?_, fun {u} hu => ?_, ?_,
    fun {u} hu hzero _ => ?_, fun {u} hu => ?_, fun {r j} hj => ?_⟩
  · rw [hc'.countdown]
    exact h.grounded.merge _ _
  · rcases hc'.isSome u hu with hu | hu
    · exact hc'.active.mpr (.inl (h.counted hu))
    · exact hu
  · rw [hc'.countdown, Countdown.mem_merge_parents] at hu
    rcases hu with hu | ⟨he, -⟩
    · exact h.edges hu
    · exact (mem_collect_edges.mp he).2
  · rw [hc'.status]
    exact (hc'.active.mp hu).elim h.collectable hmembers
  · rw [hc'.status]
    rcases hc'.mem_start.mp hu with ⟨hu, -⟩ | hu
    · exact (hmembers hu).ne_neverStarted
    · exact h.scheduled ((hstart u).mpr hu)
  · rw [hc'.countdown, hc'.credits_calls, ← hcredits]
    exact h.covered.merge h.grounded _ _
  · by_cases hu' : u ∈ (collect t c root).members
    · exact .inr (hc'.mem_start.mpr (.inl ⟨hu', hzero⟩))
    · have hold := (hc'.active.mp hu).resolve_right hu'
      have hcount : c.graph.countdown.count u = 0 := by
        rw [hc'.countdown] at hzero
        exact Nat.le_zero.mp (hzero ▸ Countdown.count_le_merge _ _ _ u)
      rw [hc'.live]
      exact (h.zero hold hcount (Option.some_ne_none u).symm).imp_right fun hs =>
        hc'.mem_start.mpr (.inr ((hstart u).mp hs))
  · rw [hc'.rootJobs] at hu
    cases job with
    | none => exact hc'.active.mpr (.inl (h.rootJobs hu))
    | some job =>
      by_cases hur : u = root
      · exact hc'.active.mpr (.inr (hur ▸ hroot))
      · rw [insertRootJob, Function.update_of_ne hur] at hu
        exact hc'.active.mpr (.inl (h.rootJobs hu))
  · rw [hc'.log] at hj ⊢
    rcases h.jobs (mem_log_of_mem_append hj (by simp)) with hd | ⟨u, hu⟩ | ⟨u, hu⟩
    · exact .inl (List.mem_append_left _ hd)
    · refine .inr (.inl ⟨u, ?_⟩)
      rw [hc'.rootJobs]
      cases job with
      | none => exact hu
      | some job =>
        have hur : u ≠ root := by
          rintro rfl
          exact hc'.fresh (h.rootJobs (by rw [hu]; rfl))
        exact (Function.update_of_ne hur _ _).trans hu
    · rcases hbegin u j hu with hjob | hu
      · refine .inr (.inl ⟨root, ?_⟩)
        rw [hc'.rootJobs, hjob]
        exact Function.update_self ..
      · refine .inr (.inr ⟨u, ?_⟩)
        rw [hc'.calls]
        exact List.mem_append_right _ hu

theorem Inv.propagated (h : Inv t none c) (hcalls : c.calls = .propagateStops id :: rest)
    (hc' : StopsPropagated c c' rest) : Inv t none c' := by
  obtain ⟨hcredits, hstart, hbegin⟩ := hc'.calls_iff
  have hactive : c'.graph.active = c.graph.active := congrArg Countdown.active hc'.countdown
  refine ⟨hc'.countdown ▸ h.grounded, fun {u} hu => ?_, fun {d u} hu => ?_, fun {u} hu => ?_,
    fun {u} hu => ?_, ?_, fun {u} hu hzero hne => ?_, fun {u} hu => ?_, fun {r j} hj => ?_⟩
  · rw [hactive]
    exact h.counted (hc'.pendingCounts ▸ hu)
  · exact h.edges (hc'.countdown ▸ hu)
  · rw [hc'.status]
    exact h.collectable (hactive ▸ hu)
  · rw [hc'.status]
    exact h.scheduled (hcalls ▸ List.mem_cons_of_mem _ ((hstart u).mp hu))
  · rw [hc'.countdown, hcredits]
    have := h.covered
    rw [hcalls] at this
    exact this
  · rw [hc'.live, hstart u]
    refine (h.zero (hactive ▸ hu) (hc'.countdown ▸ hzero) hne).imp_right fun hs => ?_
    rw [hcalls] at hs
    exact (List.mem_cons.mp hs).resolve_left (fun h => Call.noConfusion h)
  · rw [hactive]
    exact h.rootJobs (hc'.rootJobs ▸ hu)
  · rw [hc'.log] at hj ⊢
    rcases h.jobs hj with hd | ⟨u, hu⟩ | ⟨u, hu⟩
    · exact .inl hd
    · exact .inr (.inl ⟨u, hc'.rootJobs ▸ hu⟩)
    · rw [hcalls] at hu
      have hu := (List.mem_cons.mp hu).resolve_left (fun h => Call.noConfusion h)
      exact .inr (.inr ⟨u, (hbegin u j).mpr hu⟩)

/-- A credit that found no count is dropped. -/
theorem Inv.dropped (h : Inv t none c) {p : UnitId} (hcalls : c.calls = .creditParent p :: rest)
    (hcount : c.graph.pendingCounts p = none) : Inv t none { c with calls := rest } where
  grounded := h.grounded
  counted := h.counted
  edges := h.edges
  collectable := h.collectable
  scheduled hu := h.scheduled (hcalls ▸ List.mem_cons_of_mem _ hu)
  covered u := by
    have hu := h.covered u
    rw [hcalls] at hu
    by_cases hup : u = p
    · have hzero : c.graph.countdown.count u = 0 := by
        change (c.graph.pendingCounts u).getD 0 = 0
        rw [hup, hcount]
        rfl
      exact hzero ▸ Nat.zero_le _
    · change _ ≤ _ + (p :: credits rest).count u at hu
      rw [List.count_cons_of_ne (Ne.symm hup)] at hu
      exact hu
  zero {u} hu hzero hne := by
    refine (h.zero hu hzero hne).imp_right fun hs => ?_
    rw [hcalls] at hs
    exact (List.mem_cons.mp hs).resolve_left (fun h => Call.noConfusion h)
  rootJobs := h.rootJobs
  jobs hj := by
    rcases h.jobs hj with hd | hr | ⟨u, hu⟩
    · exact .inl hd
    · exact .inr (.inl hr)
    · rw [hcalls] at hu
      exact .inr (.inr ⟨u, (List.mem_cons.mp hu).resolve_left (fun h => Call.noConfusion h)⟩)

theorem Inv.begin (h : Inv t none c) (hcalls : c.calls = []) (root : UnitId)
    (job : Option JobId) :
    Inv t none
      { c with calls := [.beginStopTree root job], log := c.log ++ [.begun root job] } where
  grounded := h.grounded
  counted := h.counted
  edges := h.edges
  collectable := h.collectable
  scheduled hu := Call.noConfusion (List.mem_singleton.mp hu)
  covered := by
    have := h.covered
    rw [hcalls] at this
    exact this
  zero hu hzero hne := by
    refine (h.zero hu hzero hne).imp_right fun hs => ?_
    rw [hcalls] at hs
    exact absurd hs List.not_mem_nil
  rootJobs := h.rootJobs
  jobs {r j} hj := by
    rcases List.mem_append.mp hj with hj | hj
    · rcases h.jobs hj with hd | hr | ⟨u, hu⟩
      · exact .inl (List.mem_append_left _ hd)
      · exact .inr (.inl hr)
      · rw [hcalls] at hu
        exact absurd hu List.not_mem_nil
    · cases List.mem_singleton.mp hj
      exact .inr (.inr ⟨root, List.mem_singleton.mpr rfl⟩)

/-- The work item of a parked chain is taken: the chain is about to finish. -/
theorem Inv.popLive (h : Inv t none c) (id : UnitId) (hcalls : c.calls = []) :
    Inv t (some id) { c with calls := [] } := by
  have heq : { c with calls := [] } = c := by rw [← hcalls]
  rw [heq]
  exact ⟨h.grounded, h.counted, h.edges, h.collectable, h.scheduled, h.covered,
    fun hu hzero _ => h.zero hu hzero (Option.some_ne_none _).symm, h.rootJobs, h.jobs⟩

theorem Inv.delivered (h : Inv t none c) (hcalls : c.calls = [])
    (hc' : ChainFinished
      { c with
        status := Function.update c.status id (.stopped .stoppedFinal)
        live := c.live.erase id } c' id []) : Inv t none c' :=
  (h.popLive id hcalls).finished (statusStep_update (.inl rfl))
    (fun _ hne hu => (List.mem_erase_of_ne hne).mpr hu) (fun _ he => he) (fun _ _ hj => hj) hc'

end Handlers

variable {c c' : Config} {a : Action}

theorem Inv.step_cases (h : Inv t none c) (hc' : step t c a = some c') : Stepped t c a c' :=
  Dispatcher.step_cases
    (fun _ hu => Option.not_isSome_iff_eq_none.mp fun hs => hu (h.rootJobs hs)) hc'

/-- Every step keeps the invariant. -/
theorem Inv.stepped (h : Inv t none c) (hs : Stepped t c a c') : Inv t none c' := by
  cases hs with
  | begin root job hcalls => exact h.begin hcalls root job
  | delivered id hcalls _ hc' => exact h.delivered hcalls hc'
  | skipped hcalls hc' => exact h.skipped hcalls hc'
  | collected hcalls hc' => exact h.collected hcalls hc'
  | started hcalls hc' =>
    exact (h.popStart hcalls).started (h.scheduled (hcalls ▸ List.mem_cons_self)) hc'
  | dropped hcalls hcount => exact h.dropped hcalls hcount
  | lowered hcalls hcount hpos =>
    have := h.credited hcalls hcount
    rw [if_neg hpos] at this
    exact this
  | credited hcalls hcount hzero hc' =>
    have hp := h.collectable (h.counted (by rw [hcount]; rfl))
    have := h.credited hcalls hcount
    rw [if_pos hzero] at this
    exact Inv.started (c := c.lowered _ _) this hp.ne_neverStarted hc'
  | propagated hcalls hc' => exact h.propagated hcalls hc'

theorem inv_run {actions : List Action} (hc : run (step t) (Config.initial t) actions = some c) :
    Inv t none c :=
  run_inv (P := Inv t none) (fun _ _ _ h hs => h.stepped (h.step_cases hs)) actions
    (inv_initial t) hc

/-- No unit becomes collectable. -/
theorem Stepped.collectable (hs : Stepped t c a c') (h : Inv t none c) {u : UnitId}
    (hu : Collectable t c'.status u) : Collectable t c.status u := by
  cases hs with
  | begin | dropped | lowered => exact hu
  | delivered id _ _ hc' =>
    rw [hc'.status] at hu
    refine (statusStep_update (.inl rfl)).collectable (.inl ?_) hu
    rw [Function.update_self]
    rfl
  | skipped _ hc' => exact hc'.status ▸ hu
  | collected _ hc' => exact hc'.status ▸ hu
  | started hcalls hc' => exact hc'.collectable (h.scheduled (hcalls ▸ List.mem_cons_self)) hu
  | credited hcalls hcount _ hc' =>
    have hp := h.collectable (h.counted (by rw [hcount]; rfl))
    exact hc'.collectable hp.ne_neverStarted hu
  | propagated _ hc' => exact hc'.status ▸ hu

/-! ## A service that another one requires -/

/-- A running service with the given dependencies. -/
def runningService (id : UnitId) (deps : Dependencies) : LoadedUnit where
  id := id
  common := { dependencies := deps, status := .started .running }
  specific := .service {}

/-- `web.service` requires `db.service`. -/
def webAndDb : UnitTable where
  units :=
    [runningService ⟨.service, "db.service"⟩ { requiredBy := [⟨.service, "web.service"⟩] },
      runningService ⟨.service, "web.service"⟩ { requires := [⟨.service, "db.service"⟩] }]
  nodup := by decide

/-- The stop of `db.service` stops `web.service`, whose chain parks, and then `db.service`. -/
def stopDb : List Action :=
  [.begin ⟨.service, "db.service"⟩ (some 1), .exec .finished, .exec (.parked true),
    .deliver ⟨.service, "web.service"⟩, .exec .finished, .exec .finished, .exec .finished]

theorem webAndDb_acyclic : Acyclic (Dependent webAndDb) :=
  dependent_acyclic (fun u => if u.name = "db.service" then 0 else 1) (by decide)

/-- What `stopDb` does. -/
def stopDbLog : List LogEntry :=
  [.begun ⟨.service, "db.service"⟩ (some 1),
    .collected [⟨.service, "db.service"⟩, ⟨.service, "web.service"⟩],
    .started ⟨.service, "web.service"⟩, .finished ⟨.service, "web.service"⟩,
    .started ⟨.service, "db.service"⟩, .finished ⟨.service, "db.service"⟩, .jobDone 1]

theorem stopDb_run :
    ∃ c, run (step webAndDb) (Config.initial webAndDb) stopDb = some c ∧ c.calls = [] ∧
      c.live = [] ∧ c.log = stopDbLog := by
  have h : (run (step webAndDb) (Config.initial webAndDb) stopDb).map
      (fun c => (c.calls, c.live, c.log)) = some ([], [], stopDbLog) := by decide +kernel
  obtain ⟨c, hc, heq⟩ := Option.map_eq_some_iff.mp h
  obtain ⟨hcalls, heq⟩ := Prod.mk.inj heq
  exact ⟨c, hc, hcalls, Prod.mk.inj heq⟩

end OxidizedSystemd.Dispatcher
