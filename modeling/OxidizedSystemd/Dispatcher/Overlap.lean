import OxidizedSystemd.Dispatcher.Invariant
import OxidizedSystemd.Lib.Trace

/-!
# When no unit gets a second stop chain

The leaves of a stop tree are its members without pending dependents, running
ones included: a tree that collects a unit whose chain runs starts it again.

* `FreshMembers`: no unit that a stop tree collects has a chain that runs or is
  about to start.
* `ChainInv`: then the units with such a chain are distinct and wait for nothing.
* `chains_do_not_overlap`: no chain starts before the previous chain of its
  unit has finished.
* `running_chain_started_again`: two trees that share a member.
-/

namespace OxidizedSystemd.Dispatcher

open OxidizedSystemd.Units OxidizedSystemd.Jobs OxidizedSystemd.Lib

variable {t : UnitTable}

/-- If the step builds a stop tree, no unit it collects has a chain that runs or that the event
    at hand is about to start. -/
def FreshMembers (t : UnitTable) (c : Config) : Action → Prop
  | .exec _ => ∀ root job rest, c.calls = .beginStopTree root job :: rest →
      root ∉ c.graph.active → ∀ u, StopPath t c.status root u → Collectable t c.status u →
      u ∉ c.live ∧ .startStopChain u ∉ c.calls
  | _ => True

theorem freshMembers_iff {c : Config} {outcome : StopOutcome} :
    FreshMembers t c (.exec outcome) ↔ ∀ root job rest, c.calls = .beginStopTree root job :: rest →
      root ∉ c.graph.active → ∀ u ∈ (collect t c root).members,
        u ∉ c.live ∧ .startStopChain u ∉ c.calls := by
  refine forall₅_congr fun root job rest hcalls hroot => forall_congr' fun u => ?_
  rw [mem_collect_iff]
  constructor
  · exact fun h hu => h hu.2 (hu.2.collectable hu.1)
  · intro h hpath hc
    refine h ⟨?_, hpath⟩
    rcases Relation.ReflTransGen.cases_head hpath with rfl | ⟨v, hv, -⟩
    · exact hc
    · exact hv.1

instance (t : UnitTable) (c : Config) : (a : Action) → Decidable (FreshMembers t c a)
  | .begin _ _ | .deliver _ => .isTrue trivial
  | .exec outcome =>
    match hcalls : c.calls with
    | .beginStopTree root job :: rest =>
      decidable_of_iff (root ∉ c.graph.active → ∀ u ∈ (collect t c root).members,
          u ∉ c.live ∧ .startStopChain u ∉ c.calls) <| by
        rw [freshMembers_iff]
        refine ⟨fun h root' job' rest' heq => ?_, fun h => h root job rest hcalls⟩
        cases hcalls.symm.trans heq
        exact h
    | [] | .startStopChain _ :: _ | .creditParent _ :: _ | .propagateStops _ :: _ =>
      .isTrue fun _ _ _ heq => by rw [hcalls] at heq; cases heq

/-! ## Chains that run -/

/-- The starts among the calls still to be made. -/
def startOf : Call → Option UnitId
  | .startStopChain u => some u
  | _ => none

def scheduled (calls : List Call) : List UnitId := calls.filterMap startOf

/-- The units whose chains run, are about to start or, for the `hole`, are being handled. -/
def chains (hole : Option UnitId) (c : Config) : List UnitId :=
  hole.toList ++ (scheduled c.calls ++ c.live)

theorem chains_none (c : Config) : chains none c = scheduled c.calls ++ c.live := rfl

theorem mem_scheduled {calls : List Call} {u : UnitId} :
    u ∈ scheduled calls ↔ .startStopChain u ∈ calls := by
  rw [scheduled, List.mem_filterMap]
  constructor
  · rintro ⟨call, hmem, hu⟩
    cases call with
    | startStopChain v =>
      cases hu
      exact hmem
    | _ => cases hu
  · exact fun h => ⟨_, h, rfl⟩

theorem scheduled_append (as bs : List Call) :
    scheduled (as ++ bs) = scheduled as ++ scheduled bs :=
  List.filterMap_append

theorem scheduled_map_startStopChain (us : List UnitId) :
    scheduled (us.map .startStopChain) = us := by
  unfold scheduled
  rw [List.filterMap_map]
  exact List.filterMap_some

theorem scheduled_map_of_none {α : Type} {f : α → Call} (h : ∀ a, startOf (f a) = none)
    (as : List α) : scheduled (as.map f) = [] := by
  unfold scheduled
  rw [List.filterMap_map, List.filterMap_eq_nil_iff]
  exact fun a _ => h a

theorem ChainFinished.scheduled_calls {c c' : Config} {id : UnitId} {rest : List Call}
    (h : ChainFinished c c' id rest) : scheduled c'.calls = scheduled rest := by
  rw [h.calls, scheduled_append, scheduled_map_of_none (fun _ => rfl), List.nil_append]
  rfl

theorem StopsPropagated.scheduled_calls {c c' : Config} {rest : List Call}
    (h : StopsPropagated c c' rest) : scheduled c'.calls = scheduled rest := by
  obtain ⟨targets, hcalls⟩ := h.calls
  rw [hcalls, scheduled_append, scheduled_map_of_none (fun _ => rfl), List.nil_append]

/-- A chain of `u` was started and none of `u` has finished since. -/
def Running (log : List LogEntry) (u : UnitId) : Prop :=
  Pending (· = .started u) (· = .finished u) log

/-- No chain was started while one of its unit was running. -/
def StartsApart (log : List LogEntry) : Prop :=
  EveryEvent (fun pre e => ∀ u, e = .started u → ¬ Running pre u) log

section Log

variable {log es : List LogEntry} {u id : UnitId}

theorem running_append_started : Running (log ++ [.started id]) u ↔ u = id ∨ Running log u := by
  rw [Running, pending_append_singleton]
  refine or_congr ⟨fun h => (LogEntry.started.inj h).symm, fun h => h ▸ rfl⟩ ?_
  exact and_iff_left fun h => LogEntry.noConfusion h

theorem running_append_finished :
    Running (log ++ [.finished id]) u ↔ Running log u ∧ u ≠ id := by
  rw [Running, pending_append_singleton, or_iff_right (fun h => LogEntry.noConfusion h)]
  exact and_congr_right fun _ => not_congr
    ⟨fun h => (LogEntry.finished.inj h).symm, fun h => h ▸ rfl⟩

/-- Entries that neither start nor finish a chain. -/
theorem running_append_of_other (hes : ∀ e ∈ es, ∀ v, e ≠ .started v ∧ e ≠ .finished v) :
    Running (log ++ es) u ↔ Running log u :=
  pending_append_of_neither fun e he => ⟨(hes e he u).1, (hes e he u).2⟩

theorem startsApart_append (h : StartsApart log) (hes : ∀ e ∈ es, ∀ v, e ≠ .started v) :
    StartsApart (log ++ es) :=
  everyEvent_append h fun e he _ u hu => absurd hu (hes e he u)

end Log

/-! ## The invariant -/

/-- What holds in the runs whose trees collect only units without a chain. -/
structure ChainInv (hole : Option UnitId) (c : Config) : Prop where
  exact : c.graph.countdown.Exact (credits c.calls)
  ready : ∀ {u}, u ∈ chains hole c → u ∈ c.graph.active ∧ c.graph.countdown.count u = 0
  nodup : (chains hole c).Nodup
  running : ∀ {u}, Running c.log u → u ∈ hole.toList ++ c.live
  apart : StartsApart c.log

theorem chainInv_initial (t : UnitTable) : ChainInv none (Config.initial t) where
  exact u := by
    change 0 = (∑ c ∈ (∅ : Finset UnitId), _) + _
    rfl
  ready h := absurd h List.not_mem_nil
  nodup := List.nodup_nil
  running h := absurd h not_pending_nil
  apart := everyEvent_nil

section Handlers

variable {c c' : Config} {id : UnitId} {rest : List Call}

/-- A step that only moves calls and reports jobs. -/
theorem ChainInv.congr (h : ChainInv none c) (hcountdown : c'.graph.countdown = c.graph.countdown)
    (hlive : c'.live = c.live) (hcredits : credits c'.calls = credits c.calls)
    (hstart : scheduled c'.calls = scheduled c.calls) {es : List LogEntry}
    (hlog : c'.log = c.log ++ es) (hes : ∀ e ∈ es, e.IsJob) : ChainInv none c' := by
  have hactive : c'.graph.active = c.graph.active := congrArg Countdown.active hcountdown
  have hchains : chains none c' = chains none c := by rw [chains, chains, hstart, hlive]
  refine ⟨?_, fun {u} hu => ?_, hchains ▸ h.nodup, fun {u} hu => ?_, ?_⟩
  · rw [hcountdown, hcredits]
    exact h.exact
  · rw [hactive, hcountdown]
    exact h.ready (hchains ▸ hu)
  · rw [hlog, running_append_of_other fun e he v => ⟨(hes e he).ne_started v, ?_⟩] at hu
    · rw [hlive]
      exact h.running hu
    · exact (hes e he).ne_finished v
  · rw [hlog]
    exact startsApart_append h.apart fun e he => (hes e he).ne_started

/-- A chain finishes whose unit waits for nothing. -/
theorem ChainInv.finished {status : UnitId → UnitStatus} {live : List UnitId}
    {log : List LogEntry}
    (h : ChainInv (some id) { c with calls := rest, live := live, log := log })
    (hg : c.graph.countdown.Grounded)
    (hc' : ChainFinished { c with status := status, live := live, log := log } c' id rest) :
    ChainInv none c' := by
  have hchains : chains (some id) { c with calls := rest, live := live, log := log } =
      id :: chains none c' := by
    rw [chains, chains, hc'.scheduled_calls, hc'.live]
    rfl
  have hnodup := h.nodup
  rw [hchains, List.nodup_cons] at hnodup
  have hcount := (h.ready (hchains ▸ List.mem_cons_self)).2
  refine ⟨?_, fun {u} hu => ?_, hnodup.2, fun {u} hu => ?_, ?_⟩
  · rw [hc'.countdown, hc'.credits_calls]
    exact h.exact.finish hg hcount
  · have hne : u ≠ id := fun heq => hnodup.1 (heq ▸ hu)
    obtain ⟨hactive, hzero⟩ := h.ready (hchains ▸ List.mem_cons_of_mem _ hu)
    rw [hc'.active, hc'.countdown, Countdown.finish_count_of_ne _ hne, Finset.mem_erase]
    exact ⟨⟨hne, hactive⟩, hzero⟩
  · rw [hc'.log, ← List.singleton_append, ← List.append_assoc,
      running_append_of_other fun e he v =>
        ⟨(isJob_of_mem_jobDone he).ne_started v, (isJob_of_mem_jobDone he).ne_finished v⟩,
      running_append_finished] at hu
    rw [hc'.live]
    exact (List.mem_cons.mp (h.running hu.1)).resolve_left hu.2
  · rw [hc'.log]
    refine startsApart_append h.apart fun e he => ?_
    rcases List.mem_cons.mp he with rfl | he
    · simp
    · exact (isJob_of_mem_jobDone he).ne_started

/-- A chain parks: its unit goes from the chains at hand to the running ones. -/
theorem ChainInv.parked (h : ChainInv (some id) c) (status : UnitId → UnitStatus) :
    ChainInv none { c with status := status, live := id :: c.live } := by
  have hperm : (chains (some id) c).Perm
      (chains none { c with status := status, live := id :: c.live }) :=
    (List.perm_middle : (scheduled c.calls ++ id :: c.live).Perm _).symm
  exact ⟨h.exact, fun hu => h.ready (hperm.mem_iff.mpr hu), hperm.nodup h.nodup, h.running, h.apart⟩

theorem ChainInv.logStarted (h : ChainInv (some id) c) (hnot : ¬ Running c.log id) :
    ChainInv (some id) { c with log := c.log ++ [.started id] } where
  exact := h.exact
  ready := h.ready
  nodup := h.nodup
  running hu := by
    rcases running_append_started.mp hu with rfl | hu
    · exact List.mem_cons_self
    · exact h.running hu
  apart := by
    refine everyEvent_append_singleton.mpr ⟨h.apart, fun u hu => ?_⟩
    cases hu
    exact hnot

theorem ChainInv.started (h : ChainInv (some id) { c with calls := rest })
    (hg : c.graph.countdown.Grounded) (hnot : ¬ Running c.log id)
    (hc' : ChainStarted t c id rest c') : ChainInv none c' := by
  have hlogged := h.logStarted hnot
  cases hc' with
  | parked stopping _ => exact hlogged.parked _
  | finished _ _ hfin => exact ChainInv.finished (c := c) hlogged hg hfin

/-- A start is taken off the calls. -/
theorem ChainInv.popStart (h : ChainInv none c) (hcalls : c.calls = .startStopChain id :: rest) :
    ChainInv (some id) { c with calls := rest } ∧ ¬ Running c.log id := by
  have hchains : chains none c = id :: (scheduled rest ++ c.live) := by
    rw [chains, hcalls]
    rfl
  have hnodup := h.nodup
  rw [hchains] at hnodup
  refine ⟨⟨?_, fun hu => h.ready (hchains ▸ hu), hnodup,
    fun hu => List.mem_cons_of_mem _ (h.running hu), h.apart⟩, fun hrun => ?_⟩
  · have := h.exact
    rw [hcalls] at this
    exact this
  · exact (List.nodup_cons.mp hnodup).1 (List.mem_append_right _ (h.running hrun))

/-- The work item of a running chain is taken. -/
theorem ChainInv.popLive (h : ChainInv none c) (hcalls : c.calls = []) (hid : id ∈ c.live) :
    ChainInv (some id) { c with calls := [], live := c.live.erase id } := by
  have hperm : c.live.Perm (id :: c.live.erase id) := List.perm_cons_erase hid
  have hchains : chains none c = c.live := by
    rw [chains, hcalls]
    rfl
  have hexact := h.exact
  rw [hcalls] at hexact
  refine ⟨hexact, fun {u} hu => ?_, ?_, fun {u} hu => hperm.mem_iff.mp (h.running hu), h.apart⟩
  · exact h.ready (hchains.symm ▸ hperm.mem_iff.mpr hu)
  · exact hperm.nodup (hchains ▸ h.nodup)

/-- A credit is taken off the calls. It is for a unit that waits, so for none with a chain. -/
theorem ChainInv.credited (h : ChainInv none c) (hinv : Inv t none c) {p : UnitId}
    (hcalls : c.calls = .creditParent p :: rest) {count : ℕ}
    (hcount : c.graph.pendingCounts p = some count) :
    ChainInv (if count - 1 = 0 then some p else none) { c.lowered p count with calls := rest } ∧
      ¬ Running c.log p := by
  have hcountdown := lowered_countdown hcount
  have hchains : chains none c = scheduled rest ++ c.live := by
    rw [chains, hcalls]
    rfl
  have hpos : c.graph.countdown.count p ≠ 0 := by
    refine (h.exact.count_pos ?_).ne'
    rw [hcalls]
    exact List.mem_cons_self
  have hnot : p ∉ chains none c := fun hp => hpos (h.ready hp).2
  have hactive : p ∈ c.graph.active := hinv.counted (by rw [hcount]; rfl)
  have hold : ∀ {u}, u ∈ chains none c → u ∈ c.graph.active ∧
      (c.lowered p count).graph.countdown.count u = 0 := by
    intro u hu
    have hne : u ≠ p := fun heq => hnot (heq ▸ hu)
    rw [hcountdown, Countdown.credit_count_of_ne _ hne]
    exact h.ready hu
  have hexact : (c.lowered p count).graph.countdown.Exact (credits rest) := by
    have := h.exact
    rw [hcalls] at this
    rw [hcountdown]
    exact Countdown.Exact.credit this
  have hnodup := h.nodup
  refine ⟨?_, fun hrun => hnot (List.mem_append_right (scheduled c.calls) (h.running hrun))⟩
  rw [hchains] at hnot hnodup
  split_ifs with hzero
  · refine ⟨hexact, fun {u} hu => ?_, List.nodup_cons.mpr ⟨hnot, hnodup⟩,
      fun hu => List.mem_cons_of_mem _ (h.running hu), h.apart⟩
    rcases List.mem_cons.mp hu with rfl | hu
    · refine ⟨hactive, ?_⟩
      change (c.lowered u count).graph.countdown.count u = 0
      rw [hcountdown, Countdown.credit_count_self, countdown_count_of_some hcount]
      exact hzero
    · exact hold (hchains.symm ▸ hu)
  · exact ⟨hexact, fun hu => hold (hchains.symm ▸ hu), hnodup, h.running, h.apart⟩

/-- A closure of units without chains joins the graph: its leaves are about to start. -/
theorem ChainInv.collected (h : ChainInv none c) (hinv : Inv t none c) {root : UnitId}
    {job : Option JobId} (hcalls : c.calls = .beginStopTree root job :: rest)
    (hfresh : ∀ u ∈ (collect t c root).members, u ∉ c.live ∧ .startStopChain u ∉ c.calls)
    (hc' : TreeCollected t c c' root job rest) : ChainInv none c' := by
  obtain ⟨hcredits, hstart, -⟩ := begin_calls hcalls
  have hchains : chains none c = scheduled rest ++ c.live := by
    rw [chains, hcalls]
    rfl
  have hchains' : chains none c' = ((collect t c root).members.filter
      fun id => c'.graph.countdown.count id = 0) ++ chains none c := by
    rw [hchains, chains, hc'.calls, hc'.live, scheduled_append, scheduled_map_startStopChain,
      List.append_assoc]
    rfl
  have hnew : ∀ u ∈ (collect t c root).members, u ∉ chains none c := by
    intro u hu hmem
    rcases List.mem_append.mp (hchains ▸ hmem) with hs | hl
    · exact (hfresh u hu).2 ((hstart u).mpr (mem_scheduled.mp hs))
    · exact (hfresh u hu).1 hl
  refine ⟨?_, fun {u} hu => ?_, ?_, fun {u} hu => ?_, ?_⟩
  · rw [hc'.countdown, hc'.credits_calls, ← hcredits]
    exact h.exact.merge hinv.grounded _ _
  · rcases List.mem_append.mp (hchains' ▸ hu) with hu | hu
    · obtain ⟨hmem, hzero⟩ := List.mem_filter.mp hu
      exact ⟨hc'.active.mpr (.inr hmem), of_decide_eq_true hzero⟩
    · obtain ⟨hactive, hzero⟩ := h.ready hu
      refine ⟨hc'.active.mpr (.inl hactive), ?_⟩
      rw [hc'.countdown, Countdown.merge_count_of_forall_ne, hzero]
      rintro ⟨child, parent⟩ he rfl
      exact hnew parent (mem_collect_edges.mp he).1 hu
  · rw [hchains']
    refine ((collect_nodup t c root).filter _).append h.nodup fun u hu hmem => ?_
    exact hnew u (List.mem_filter.mp hu).1 hmem
  · rw [hc'.log, running_append_of_other fun e he v => ?_] at hu
    · rw [hc'.live]
      exact h.running hu
    · rw [List.mem_singleton.mp he]
      exact ⟨by simp, by simp⟩
  · rw [hc'.log]
    refine startsApart_append h.apart fun e he v => ?_
    rw [List.mem_singleton.mp he]
    simp

end Handlers

theorem ChainInv.step {c c' : Config} {a : Action} (hinv : Inv t none c) (h : ChainInv none c)
    (hok : FreshMembers t c a) (hs : Stepped t c a c') : ChainInv none c' := by
  cases hs with
  | begin root job hcalls =>
    refine h.congr rfl rfl ?_ ?_ rfl fun e he => ?_
    · rw [hcalls]
      rfl
    · rw [hcalls]
      rfl
    · rw [List.mem_singleton.mp he]
      exact .begun root job
  | delivered id hcalls hlive hc' =>
    exact ChainInv.finished (c := c) (h.popLive hcalls hlive) hinv.grounded hc'
  | skipped hcalls hc' =>
    refine h.congr hc'.countdown hc'.live ?_ ?_ hc'.log fun e => isJob_of_mem_jobDone
    · rw [hc'.calls, hcalls]
      rfl
    · rw [hc'.calls, hcalls]
      rfl
  | collected hcalls hc' =>
    refine h.collected hinv hcalls (fun u hu => ?_) hc'
    obtain ⟨hroot, hpath⟩ := mem_collect_iff.mp hu
    exact hok _ _ _ hcalls hc'.fresh u hpath (hpath.collectable hroot)
  | started hcalls hc' =>
    obtain ⟨hpop, hnot⟩ := h.popStart hcalls
    exact hpop.started hinv.grounded hnot hc'
  | dropped hcalls hcount => exact absurd hcount (counted_of_exact h.exact hcalls)
  | lowered hcalls hcount hpos =>
    have := (h.credited hinv hcalls hcount).1
    rw [if_neg hpos] at this
    exact this
  | @credited _ _ p rest count hcalls hcount hzero hc' =>
    obtain ⟨hpop, hnot⟩ := h.credited hinv hcalls hcount
    rw [if_pos hzero] at hpop
    refine ChainInv.started (c := c.lowered p count) hpop ?_ hnot hc'
    rw [lowered_countdown hcount]
    exact hinv.grounded
  | propagated hcalls hc' =>
    obtain ⟨hcredits, -, -⟩ := hc'.calls_iff
    refine h.congr hc'.countdown hc'.live ?_ ?_
      (hc'.log.trans (List.append_nil _).symm) fun e he => absurd he List.not_mem_nil
    · rw [hcredits, hcalls]
      rfl
    · rw [hc'.scheduled_calls, hcalls]
      rfl

/-- If no stop tree collects a unit with a chain, each unit has at most one running chain, and
    no chain starts before the previous one of its unit has finished. -/
theorem chains_do_not_overlap {actions : List Action} {c : Config}
    (hok : RunMeets (step t) (FreshMembers t) (Config.initial t) actions)
    (hc : run (step t) (Config.initial t) actions = some c) :
    c.live.Nodup ∧ ∀ pre mid post u,
      c.log = pre ++ .started u :: mid ++ .started u :: post → .finished u ∈ mid := by
  have hstep : ∀ c a c', Inv t none c ∧ ChainInv none c → FreshMembers t c a →
      step t c a = some c' → Inv t none c' ∧ ChainInv none c' := by
    rintro c a c' ⟨hinv, h⟩ hok hc'
    have hs := hinv.step_cases hc'
    exact ⟨hinv.stepped hs, h.step hinv hok hs⟩
  have h : ChainInv none c :=
    (run_inv_of_meets (P := fun c => Inv t none c ∧ ChainInv none c) hstep actions
      ⟨inv_initial t, chainInv_initial t⟩ hok hc).2
  refine ⟨(List.nodup_append.mp (chains_none c ▸ h.nodup)).2.1, fun pre mid post u hlog => ?_⟩
  have hnot : ¬ Running (pre ++ .started u :: mid) u := h.apart _ _ _ hlog u rfl
  obtain ⟨e, he, rfl⟩ := exists_closes_of_not_pending hnot rfl
  exact he

theorem chains_do_not_overlap_stopDb :
    ∃ c, run (step webAndDb) (Config.initial webAndDb) stopDb = some c ∧ c.live.Nodup := by
  obtain ⟨c, hc, -⟩ := stopDb_run
  exact ⟨c, hc, (chains_do_not_overlap (by decide +kernel) hc).1⟩

/-- `web.service` is being stopped when the stop of `db.service` begins. The second tree collects
    it again, as a leaf, and starts a second chain. -/
def stopWebThenDb : List Action :=
  [.begin ⟨.service, "web.service"⟩ none, .exec .finished, .exec (.parked false),
    .begin ⟨.service, "db.service"⟩ none, .exec .finished, .exec (.parked false)]

theorem running_chain_started_again :
    ∃ c pre mid, run (step webAndDb) (Config.initial webAndDb) stopWebThenDb = some c ∧
      c.live = [⟨.service, "web.service"⟩, ⟨.service, "web.service"⟩] ∧
      c.log = pre ++ .started ⟨.service, "web.service"⟩ :: mid ++
        [.started ⟨.service, "web.service"⟩] ∧
      .finished ⟨.service, "web.service"⟩ ∉ mid := by
  have h : (run (step webAndDb) (Config.initial webAndDb) stopWebThenDb).map
      (fun c => (c.live, c.log)) = some ([⟨.service, "web.service"⟩, ⟨.service, "web.service"⟩],
        [.begun ⟨.service, "web.service"⟩ none, .collected [⟨.service, "web.service"⟩]] ++
          .started ⟨.service, "web.service"⟩ ::
          [.begun ⟨.service, "db.service"⟩ none,
            .collected [⟨.service, "db.service"⟩, ⟨.service, "web.service"⟩]] ++
          [.started ⟨.service, "web.service"⟩]) := by decide +kernel
  obtain ⟨c, hc, heq⟩ := Option.map_eq_some_iff.mp h
  obtain ⟨hlive, hlog⟩ := Prod.mk.inj heq
  exact ⟨c, _, _, hc, hlive, hlog, by decide⟩

end OxidizedSystemd.Dispatcher
