import OxidizedSystemd.Dispatcher.Deadlock
import OxidizedSystemd.Lib.Trace

/-!
# Dependents stop before what they depend on

In an acyclic table the counts are exact: a chain starts when every dependent
that was collected with its unit has finished, also where trees overlap.

* `Awaiting`: a dependent was collected with a unit and has not finished since.
* `OrderInv`: every such dependent is active and linked to the unit, and the
  unit of a running chain waits for no service.
* `finished_before_started`: when a chain starts, nothing is awaited.
-/

namespace OxidizedSystemd.Dispatcher

open OxidizedSystemd.Units OxidizedSystemd.Jobs OxidizedSystemd.Lib
open Relation (ReflTransGen)

variable {t : UnitTable}

/-! ## The log -/

/-- `d` was collected together with `u` and has not finished since. -/
def Awaiting (log : List LogEntry) (u d : UnitId) : Prop :=
  Pending (fun e => ∃ members, e = .collected members ∧ u ∈ members ∧ d ∈ members)
    (· = .finished d) log

/-- No chain was started while a dependent of its unit was awaited. -/
def StartsInOrder (t : UnitTable) (log : List LogEntry) : Prop :=
  EveryEvent (fun pre e => ∀ u, e = .started u → ∀ d, Dependent t u d → ¬ Awaiting pre u d) log

section Log

variable {log es : List LogEntry} {u d id : UnitId}

theorem awaiting_append_finished : Awaiting (log ++ [.finished id]) u d ↔
    Awaiting log u d ∧ id ≠ d := by
  rw [Awaiting, pending_append_singleton]
  constructor
  · rintro (⟨members, hm, -⟩ | ⟨h, hne⟩)
    · exact LogEntry.noConfusion hm
    · exact ⟨h, fun hid => hne (hid ▸ rfl)⟩
  · rintro ⟨h, hne⟩
    exact .inr ⟨h, fun he => hne (LogEntry.finished.inj he)⟩

theorem awaiting_append_started : Awaiting (log ++ [.started id]) u d ↔ Awaiting log u d := by
  rw [Awaiting, pending_append_singleton]
  constructor
  · rintro (⟨members, hm, -⟩ | ⟨h, -⟩)
    · exact LogEntry.noConfusion hm
    · exact h
  · exact fun h => .inr ⟨h, fun he => LogEntry.noConfusion he⟩

theorem awaiting_append_collected {members : List UnitId} :
    Awaiting (log ++ [.collected members]) u d ↔
      (u ∈ members ∧ d ∈ members) ∨ Awaiting log u d := by
  rw [Awaiting, pending_append_singleton]
  refine or_congr ⟨?_, fun h => ⟨members, rfl, h⟩⟩ (and_iff_left fun he => LogEntry.noConfusion he)
  rintro ⟨members', hm, h⟩
  exact LogEntry.collected.inj hm ▸ h

theorem awaiting_append_jobs (hes : ∀ e ∈ es, e.IsJob) :
    Awaiting (log ++ es) u d ↔ Awaiting log u d := by
  refine pending_append_of_neither fun e he => ⟨?_, ?_⟩
  · rintro ⟨members, rfl, -⟩
    cases hes _ he
  · rintro rfl
    cases hes _ he

theorem startsInOrder_append (h : StartsInOrder t log) (hes : ∀ e ∈ es, ∀ u, e ≠ .started u) :
    StartsInOrder t (log ++ es) :=
  everyEvent_append h fun e he _ u hu => absurd hu (hes e he u)

end Log

/-! ## Units whose dependents are no services -/

/-- No service has to stop before `d`, and `d` is none. -/
def Quiet (t : UnitTable) (status : UnitId → UnitStatus) (d : UnitId) : Prop :=
  ∀ v, StopPath t status d v → isService t v = false

theorem Quiet.mono {status status' : UnitId → UnitStatus} {d : UnitId} (hd : Quiet t status d)
    (h : ∀ u, Collectable t status' u → Collectable t status u) : Quiet t status' d :=
  fun v hv => hd v (ReflTransGen.mono (fun _ _ => StopEdge.mono h) _ _ hv)

theorem Quiet.of_dependents {status : UnitId → UnitStatus} {d : UnitId}
    (hd : isService t d = false)
    (h : ∀ x, Dependent t d x → Collectable t status x → Quiet t status x) :
    Quiet t status d := by
  intro v hv
  rcases ReflTransGen.cases_head hv with rfl | ⟨x, hx, hxv⟩
  · exact hd
  · exact h x hx.2.2 hx.2.1 v hxv

/-! ## The invariant -/

/-- What more than `Inv` holds in the runs over an acyclic table. -/
structure OrderInv (t : UnitTable) (c : Config) : Prop where
  exact : c.graph.countdown.Exact (credits c.calls)
  idle : ∀ {u d}, .startStopChain u ∈ c.calls → Dependent t u d → ¬ Collectable t c.status d
  zeroCount : ∀ {u}, .startStopChain u ∈ c.calls → c.graph.countdown.count u = 0
  linked : ∀ {u d}, u ∈ c.graph.active → Dependent t u d → Collectable t c.status d →
    u ∈ c.graph.countdown.parents d ∨ Quiet t c.status d
  service : ∀ {u}, u ∈ c.live → isService t u
  quiet : ∀ {u d}, u ∈ c.live → Dependent t u d → Collectable t c.status d → Quiet t c.status d
  awaiting : ∀ {u d}, Dependent t u d → Awaiting c.log u d →
    d ∈ c.graph.active ∧ u ∈ c.graph.countdown.parents d
  inOrder : StartsInOrder t c.log

theorem orderInv_initial (t : UnitTable) : OrderInv t (Config.initial t) where
  exact u := by
    change 0 = (∑ c ∈ (∅ : Finset UnitId), _) + _
    rfl
  idle h := absurd h List.not_mem_nil
  zeroCount h := absurd h List.not_mem_nil
  linked h := absurd h (Finset.notMem_empty _)
  service h := absurd h List.not_mem_nil
  quiet h := absurd h List.not_mem_nil
  awaiting _ h := absurd h not_pending_nil
  inOrder := everyEvent_nil

section Handlers

variable {c c' : Config} {id : UnitId} {rest : List Call}

/-- A step that only moves calls and reports jobs. -/
theorem OrderInv.congr (h : OrderInv t c) (hcountdown : c'.graph.countdown = c.graph.countdown)
    (hstatus : c'.status = c.status) (hlive : c'.live = c.live)
    (hcredits : credits c'.calls = credits c.calls)
    (hstart : ∀ u, .startStopChain u ∈ c'.calls → .startStopChain u ∈ c.calls)
    {es : List LogEntry} (hlog : c'.log = c.log ++ es) (hes : ∀ e ∈ es, e.IsJob) :
    OrderInv t c' := by
  have hactive : c'.graph.active = c.graph.active := congrArg Countdown.active hcountdown
  refine ⟨?_, fun {u d} hu => ?_, fun {u} hu => ?_, fun {u d} hu => ?_, fun {u} hu => ?_,
    fun {u d} hu => ?_, fun {u d} hd hw => ?_, ?_⟩
  · rw [hcountdown, hcredits]
    exact h.exact
  · rw [hstatus]
    exact h.idle (hstart u hu)
  · rw [hcountdown]
    exact h.zeroCount (hstart u hu)
  · rw [hcountdown, hstatus]
    exact h.linked (hactive ▸ hu)
  · exact h.service (hlive ▸ hu)
  · rw [hstatus]
    exact h.quiet (hlive ▸ hu)
  · rw [hlog, awaiting_append_jobs hes] at hw
    rw [hactive, hcountdown]
    exact h.awaiting hd hw
  · rw [hlog]
    exact startsInOrder_append h.inOrder fun e he => (hes e he).ne_started

/-- A chain whose unit waits for nothing finishes. -/
theorem OrderInv.finished {status : UnitId → UnitStatus} {live : List UnitId}
    {log : List LogEntry} (h : OrderInv t { c with calls := rest, log := log })
    (hg : c.graph.countdown.Grounded)
    (hshrink : ∀ u, Collectable t status u → Collectable t c.status u)
    (hcount : c.graph.countdown.count id = 0)
    (hself : Collectable t status id → Quiet t status id) (hlive : ∀ u ∈ live, u ∈ c.live)
    (hc' : ChainFinished { c with status := status, live := live, log := log } c' id rest) :
    OrderInv t c' := by
  have hstart : ∀ {u}, .startStopChain u ∈ c'.calls → .startStopChain u ∈ rest := by
    intro u hu
    rw [hc'.calls] at hu
    rcases List.mem_append.mp hu with hu | hu
    · obtain ⟨p, -, hp⟩ := List.mem_map.mp hu
      exact Call.noConfusion hp
    · exact (List.mem_cons.mp hu).resolve_left (fun h => Call.noConfusion h)
  have hlog : c'.log = log ++ [.finished id] ++
      ((c.graph.rootJobs id).map LogEntry.jobDone).toList := by
    rw [hc'.log, List.append_assoc, List.singleton_append]
  refine ⟨?_, fun {u d} hu hd hcd => ?_, fun {u} hu => ?_, fun {u d} hu hd hcd => ?_,
    fun {u} hu => ?_, fun {u d} hu hd hcd => ?_, fun {u d} hd hw => ?_, ?_⟩
  · rw [hc'.countdown, hc'.credits_calls]
    exact h.exact.finish hg hcount
  · rw [hc'.status] at hcd
    exact h.idle (hstart hu) hd (hshrink d hcd)
  · rw [hc'.countdown]
    by_cases hne : u = id
    · rw [hne]
      exact Countdown.finish_count_self _ _
    · rw [Countdown.finish_count_of_ne _ hne]
      exact h.zeroCount (hstart hu)
  · rw [hc'.active, Finset.mem_erase] at hu
    rw [hc'.status] at hcd ⊢
    by_cases hne : d = id
    · subst hne
      exact .inr (hself hcd)
    · rw [hc'.countdown, Countdown.finish_parents_of_ne _ hne]
      exact (h.linked hu.2 hd (hshrink d hcd)).imp_right (Quiet.mono · hshrink)
  · rw [hc'.live] at hu
    exact h.service (hlive u hu)
  · rw [hc'.live] at hu
    rw [hc'.status] at hcd ⊢
    exact (h.quiet (hlive u hu) hd (hshrink d hcd)).mono hshrink
  · rw [hlog, awaiting_append_jobs (fun e => isJob_of_mem_jobDone), awaiting_append_finished] at hw
    obtain ⟨hactive, hparents⟩ := h.awaiting hd hw.1
    rw [hc'.active, hc'.countdown, Finset.mem_erase, Countdown.mem_finish_parents]
    exact ⟨⟨Ne.symm hw.2, hactive⟩, Ne.symm hw.2, hparents⟩
  · rw [hc'.log]
    refine startsInOrder_append h.inOrder fun e he => ?_
    rcases List.mem_cons.mp he with rfl | he
    · simp
    · exact (isJob_of_mem_jobDone he).ne_started

/-- A chain parks whose unit waits for nothing and keeps no service waiting. -/
theorem OrderInv.parked {status : UnitId → UnitStatus} {log : List LogEntry}
    (h : OrderInv t { c with calls := rest, log := log })
    (hshrink : ∀ u, Collectable t status u → Collectable t c.status u)
    (hservice : isService t id)
    (hquiet : ∀ d, Dependent t id d → Collectable t c.status d → Quiet t c.status d) :
    OrderInv t { c with status := status, live := id :: c.live, calls := rest, log := log } where
  exact := h.exact
  idle hu hd hcd := h.idle hu hd (hshrink _ hcd)
  zeroCount := h.zeroCount
  linked hu hd hcd := (h.linked hu hd (hshrink _ hcd)).imp_right (Quiet.mono · hshrink)
  service hu := (List.mem_cons.mp hu).elim (fun heq => heq ▸ hservice) h.service
  quiet {u d} hu hd hcd := by
    refine Quiet.mono ?_ hshrink
    rcases List.mem_cons.mp hu with rfl | hu
    · exact hquiet d hd (hshrink d hcd)
    · exact h.quiet hu hd (hshrink d hcd)
  awaiting := h.awaiting
  inOrder := h.inOrder

/-- The start of a chain whose unit waits for nothing is logged. -/
theorem OrderInv.logStarted (h : OrderInv t c) (hcount : c.graph.countdown.count id = 0) :
    OrderInv t { c with log := c.log ++ [.started id] } where
  exact := h.exact
  idle := h.idle
  zeroCount := h.zeroCount
  linked := h.linked
  service := h.service
  quiet := h.quiet
  awaiting hd hw := h.awaiting hd (awaiting_append_started.mp hw)
  inOrder := by
    refine everyEvent_append_singleton.mpr ⟨h.inOrder, fun u hu d hd hw => ?_⟩
    cases hu
    obtain ⟨hactive, hparents⟩ := h.awaiting hd hw
    exact (h.exact.count_eq_zero_iff.mp hcount).1 d hactive hparents

theorem OrderInv.started (h : OrderInv t { c with calls := rest })
    (hg : c.graph.countdown.Grounded) (hid : c.status id ≠ .neverStarted)
    (hcount : c.graph.countdown.count id = 0)
    (hquiet : ∀ d, Dependent t id d → Collectable t c.status d → Quiet t c.status d)
    (hc' : ChainStarted t c id rest c') : OrderInv t c' := by
  have hlogged := h.logStarted hcount
  cases hc' with
  | parked stopping hservice =>
    refine hlogged.parked (fun u hu => ?_) hservice hquiet
    exact (statusStep_update (.inr ⟨stopping, rfl⟩)).collectable (.inr hid) hu
  | @finished status _ hstatus hservice hfin =>
    have hshrink : ∀ u, Collectable t status u → Collectable t c.status u :=
      fun u => hstatus.collectable (.inr hid)
    refine OrderInv.finished (c := c) hlogged hg hshrink hcount (fun hself => ?_)
      (fun u hu => hu) hfin
    have hnot : ¬ (status id).isStopped := not_isStopped_of_collectable hself
    refine Quiet.of_dependents (hservice.resolve_left hnot) fun x hx hcx => ?_
    exact (hquiet x hx (hshrink x hcx)).mono hshrink

/-- A start is taken off the calls. -/
theorem OrderInv.popStart (h : OrderInv t c) (hcalls : c.calls = .startStopChain id :: rest) :
    OrderInv t { c with calls := rest } := by
  refine h.congr rfl rfl rfl ?_ (fun u hu => ?_) (List.append_nil _).symm
    (fun e he => absurd he List.not_mem_nil)
  · rw [hcalls]
    rfl
  · rw [hcalls]
    exact List.mem_cons_of_mem _ hu

/-- A credit is taken off the calls. -/
theorem OrderInv.credited (h : OrderInv t c) {p : UnitId}
    (hcalls : c.calls = .creditParent p :: rest) {count : ℕ}
    (hcount : c.graph.pendingCounts p = some count) :
    OrderInv t { c.lowered p count with calls := rest } := by
  have hcountdown := lowered_countdown hcount
  have hstart : ∀ {u}, .startStopChain u ∈ rest → .startStopChain u ∈ c.calls :=
    fun hu => hcalls ▸ List.mem_cons_of_mem _ hu
  refine ⟨?_, fun hu => h.idle (hstart hu), fun {u} hu => ?_, h.linked, h.service, h.quiet,
    h.awaiting, h.inOrder⟩
  · have := h.exact
    rw [hcalls] at this
    rw [hcountdown]
    exact Countdown.Exact.credit this
  · have hzero := h.zeroCount (hstart hu)
    rw [hcountdown]
    by_cases hup : u = p
    · rw [hup] at hzero ⊢
      rw [Countdown.credit_count_self, hzero]
    · rw [Countdown.credit_count_of_ne _ hup]
      exact hzero

/-- A closure joins the graph. Its leaves have no dependents left, and neither had the units
    that were about to start, so no count of theirs changes. -/
theorem OrderInv.collected (h : OrderInv t c) (hinv : Inv t none c) {root : UnitId}
    {job : Option JobId} (hcalls : c.calls = .beginStopTree root job :: rest)
    (hc' : TreeCollected t c c' root job rest) : OrderInv t c' := by
  obtain ⟨hcredits, hstart, -⟩ := begin_calls hcalls
  have hinv' : Inv t none c' := hinv.collected hcalls hc'
  have hexact : c'.graph.countdown.Exact (credits c'.calls) := by
    rw [hc'.countdown, hc'.credits_calls, ← hcredits]
    exact h.exact.merge hinv.grounded _ _
  have hgrow : ∀ {u d}, u ∈ c.graph.countdown.parents d → u ∈ c'.graph.countdown.parents d := by
    intro u d hu
    rw [hc'.countdown, Countdown.mem_merge_parents]
    exact .inl hu
  have hlink : ∀ {u d}, u ∈ (collect t c root).members → Dependent t u d →
      d ∈ (collect t c root).members → u ∈ c'.graph.countdown.parents d := by
    intro u d hu hd hdm
    rw [hc'.countdown, Countdown.mem_merge_parents]
    refine .inr ⟨mem_collect_edges.mpr ⟨hu, hd⟩, ?_, ?_⟩
    · exact Finset.mem_union_right _ (List.mem_toFinset.mpr hdm)
    · exact Finset.mem_union_right _ (List.mem_toFinset.mpr hu)
  refine ⟨hexact, fun {u d} hu hd hcd => ?_, fun {u} hu => ?_, fun {u d} hu hd hcd => ?_,
    fun {u} hu => ?_, fun {u d} hu => ?_, fun {u d} hd hw => ?_, ?_⟩
  · rw [hc'.status] at hcd
    rcases hc'.mem_start.mp hu with ⟨hm, hzero⟩ | hu
    · have hdm := mem_collect_of_dependent hm hd hcd
      exact (hexact.count_eq_zero_iff.mp hzero).1 d (hc'.active.mpr (.inr hdm)) (hlink hm hd hdm)
    · exact h.idle ((hstart u).mpr hu) hd hcd
  · rcases hc'.mem_start.mp hu with ⟨-, hzero⟩ | hu
    · exact hzero
    · have hold := (hstart u).mpr hu
      refine hexact.count_eq_zero_iff.mpr ⟨fun d hd hud => ?_, ?_⟩
      · have hcd := hinv'.collectable hd
        rw [hc'.status] at hcd
        exact h.idle hold (hinv'.edges hud) hcd
      · rw [hc'.credits_calls, ← hcredits]
        exact (h.exact.count_eq_zero_iff.mp (h.zeroCount hold)).2
  · rw [hc'.status] at hcd ⊢
    rcases hc'.active.mp hu with hu | hu
    · exact (h.linked hu hd hcd).imp_left hgrow
    · exact .inl (hlink hu hd (mem_collect_of_dependent hu hd hcd))
  · exact h.service (hc'.live ▸ hu)
  · rw [hc'.status]
    exact h.quiet (hc'.live ▸ hu)
  · rw [hc'.log, awaiting_append_collected] at hw
    rcases hw with ⟨hu, hdm⟩ | hw
    · exact ⟨hc'.active.mpr (.inr hdm), hlink hu hd hdm⟩
    · obtain ⟨hactive, hparents⟩ := h.awaiting hd hw
      exact ⟨hc'.active.mpr (.inl hactive), hgrow hparents⟩
  · rw [hc'.log]
    refine startsInOrder_append h.inOrder fun e he u => ?_
    rw [List.mem_singleton.mp he]
    simp

/-- The unit of a running chain waits for nothing: the waiting would lead to a running chain
    of a unit that is no service. -/
theorem OrderInv.live_count (h : OrderInv t c) (hinv : Inv t none c)
    (hacyclic : Acyclic (Dependent t)) (hcalls : c.calls = []) (hid : id ∈ c.live) :
    c.graph.countdown.count id = 0 := by
  by_contra hpos
  have hcovered := hinv.covered
  rw [hcalls] at hcovered
  obtain ⟨d, hd, hmem⟩ :=
    Countdown.Covered.exists_waiting (g := c.graph.countdown) hcovered (Nat.pos_of_ne_zero hpos)
  have hquiet := h.quiet hid (hinv.edges hmem) (hinv.collectable hd)
  have hacyc : AcyclicInv t c := ⟨hinv, fun {u} _ => reachAcyclic_of_acyclic hacyclic c.status u⟩
  obtain ⟨v, -, hlive, hpath⟩ := hacyc.exists_live hcalls hd
  have hservice := h.service hlive
  rw [hquiet v hpath] at hservice
  exact Bool.false_ne_true hservice

end Handlers

theorem OrderInv.step {c c' : Config} {a : Action} (hacyclic : Acyclic (Dependent t))
    (hinv : Inv t none c) (h : OrderInv t c) (hs : Stepped t c a c') : OrderInv t c' := by
  cases hs with
  | begin root job hcalls =>
    refine h.congr rfl rfl rfl ?_ (fun u hu => ?_) rfl (fun e he => ?_)
    · rw [hcalls]
      rfl
    · exact Call.noConfusion (List.mem_singleton.mp hu)
    · rw [List.mem_singleton.mp he]
      exact .begun root job
  | @delivered _ id hcalls hlive hc' =>
    have hsame : { c with calls := [], log := c.log } = c := by rw [← hcalls]
    refine OrderInv.finished (c := c) (hsame.symm ▸ h) hinv.grounded (fun u hu => ?_)
      (h.live_count hinv hacyclic hcalls hlive) (fun hself => ?_)
      (fun u hu => List.mem_of_mem_erase hu) hc'
    · refine (statusStep_update (.inl rfl)).collectable (.inl ?_) hu
      rw [Function.update_self]
      rfl
    · refine absurd ?_ (not_isStopped_of_collectable hself)
      rw [Function.update_self]
      rfl
  | skipped hcalls hc' =>
    obtain ⟨hcredits, hstart, -⟩ := begin_calls hcalls
    refine h.congr hc'.countdown hc'.status hc'.live ?_ (fun u hu => ?_) hc'.log
      (fun e => isJob_of_mem_jobDone)
    · rw [hc'.calls, hcredits]
    · exact (hstart u).mpr (hc'.calls ▸ hu)
  | collected hcalls hc' => exact h.collected hinv hcalls hc'
  | @started _ _ id rest hcalls hc' =>
    have hmem : .startStopChain id ∈ c.calls := hcalls ▸ List.mem_cons_self
    exact (h.popStart hcalls).started hinv.grounded (hinv.scheduled hmem) (h.zeroCount hmem)
      (fun d hd hcd => absurd hcd (h.idle hmem hd)) hc'
  | dropped hcalls hcount => exact absurd hcount (counted_of_exact h.exact hcalls)
  | lowered hcalls hcount => exact h.credited hcalls hcount
  | @credited _ _ p rest count hcalls hcount hzero hc' =>
    have hlowered := h.credited hcalls hcount
    have hp : p ∈ c.graph.active := hinv.counted (by rw [hcount]; rfl)
    have hcountdown := lowered_countdown hcount
    have hpcount : (c.lowered p count).graph.countdown.count p = 0 := by
      rw [hcountdown, Countdown.credit_count_self, countdown_count_of_some hcount]
      exact hzero
    refine OrderInv.started (c := c.lowered p count) hlowered ?_
      (hinv.collectable hp).ne_neverStarted hpcount (fun d hd hcd => ?_) hc'
    · rw [hcountdown]
      exact hinv.grounded
    · refine (hlowered.linked hp hd hcd).resolve_left fun hmem => ?_
      by_cases hactive : d ∈ c.graph.active
      · exact (hlowered.exact.count_eq_zero_iff.mp hpcount).1 d hactive hmem
      · have := hinv.grounded d hactive
        exact absurd (this ▸ hmem) List.not_mem_nil
  | propagated hcalls hc' =>
    obtain ⟨hcredits, hstart, -⟩ := hc'.calls_iff
    refine h.congr hc'.countdown hc'.status hc'.live ?_ (fun u hu => ?_)
      (hc'.log.trans (List.append_nil _).symm) (fun e he => absurd he List.not_mem_nil)
    · rw [hcredits, hcalls]
      rfl
    · rw [hcalls]
      exact List.mem_cons_of_mem _ ((hstart u).mp hu)

theorem orderInv_run (hacyclic : Acyclic (Dependent t)) {actions : List Action} {c : Config}
    (hc : run (step t) (Config.initial t) actions = some c) : OrderInv t c := by
  have hstep : ∀ c a c', Inv t none c ∧ OrderInv t c → step t c a = some c' →
      Inv t none c' ∧ OrderInv t c' := by
    rintro c a c' ⟨hinv, h⟩ hc'
    have hs := hinv.step_cases hc'
    exact ⟨hinv.stepped hs, h.step hacyclic hinv hs⟩
  exact (run_inv (P := fun c => Inv t none c ∧ OrderInv t c) hstep actions
    ⟨inv_initial t, orderInv_initial t⟩ hc).2

/-- In an acyclic table a chain starts only after the chains of the dependents that were
    collected with its unit have finished. -/
theorem finished_before_started (hacyclic : Acyclic (Dependent t)) {actions : List Action}
    {c : Config} (hc : run (step t) (Config.initial t) actions = some c)
    {pre mid post : List LogEntry} {members : List UnitId} {u d : UnitId}
    (hlog : c.log = pre ++ .collected members :: mid ++ .started u :: post)
    (hu : u ∈ members) (hd : d ∈ members) (hdep : Dependent t u d) : .finished d ∈ mid := by
  have hnot : ¬ Awaiting (pre ++ .collected members :: mid) u d :=
    (orderInv_run hacyclic hc).inOrder _ _ _ hlog u rfl d hdep
  obtain ⟨e, he, rfl⟩ := exists_closes_of_not_pending hnot ⟨members, rfl, hu, hd⟩
  exact he

/-- `web.service` has finished when the chain of `db.service` starts. -/
theorem finished_before_started_stopDb :
    ∃ c, run (step webAndDb) (Config.initial webAndDb) stopDb = some c ∧
      .finished ⟨.service, "web.service"⟩ ∈
        ([.started ⟨.service, "web.service"⟩, .finished ⟨.service, "web.service"⟩] :
          List LogEntry) := by
  obtain ⟨c, hc, -, -, hlog⟩ := stopDb_run
  have hsplit : c.log = [.begun ⟨.service, "db.service"⟩ (some 1)] ++
      .collected [⟨.service, "db.service"⟩, ⟨.service, "web.service"⟩] ::
        [.started ⟨.service, "web.service"⟩, .finished ⟨.service, "web.service"⟩] ++
      .started ⟨.service, "db.service"⟩ :: [.finished ⟨.service, "db.service"⟩, .jobDone 1] := hlog
  refine ⟨c, hc, finished_before_started webAndDb_acyclic hc hsplit ?_ ?_ ?_⟩
  · exact List.mem_cons_self
  · exact List.mem_cons_of_mem _ List.mem_cons_self
  · exact List.mem_cons_self

end OxidizedSystemd.Dispatcher
