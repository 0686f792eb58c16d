import OxidizedSystemd.Units.StartChain

/-!
# Runs of a deferred start

What a start does is ordered by stages that never come back, whatever other threads do to
the unit meanwhile. A part of the log that takes a start from one stage to another is a
`Block`; blocks that meet can be put together.

* `step_grows`: what one step adds to the log.
* `start_ordered`: the order of the log, in every run.
-/

namespace OxidizedSystemd.Units.StartChain

open OxidizedSystemd.Jobs (ActivationSource Instant)
open OxidizedSystemd.Lib
open OxidizedSystemd.Services (ServiceType)
open OxidizedSystemd.Units.StopChain (ChildTermination CmdOutcome Commandline)

variable {s s' s₀ : State} {e : Event} {conf : ServiceConfig} {lo mid hi : ℕ}

/-! ## The order of the log -/

/-- The stages of a start. -/
def Entry.rank : Entry → ℕ
  | .ran .condition .. => 0
  | .ran .prestart .. => 1
  | .ran .prelim .. => 2
  | .main _ => 3
  | .sigterm _ => 4
  | .ran .startpost .. => 5
  | .killed => 6
  | .ran .stoppost .. => 7
  | .started | .skipped | .failed _ | .poststartFailed => 8
  | .dispatched _ => 9

/-- The entries that may stand in a log more than once. -/
def Entry.isCommand : Entry → Bool
  | .ran .. => true
  | _ => false

/-- `a` may stand in front of the entries of stage `n`. -/
def Entry.Before (a : Entry) (n : ℕ) : Prop := a.rank < n ∨ a.rank = n ∧ a.isCommand = true

/-- `a` may stand in front of `b`: it is of an earlier stage, or a command of the same one. -/
def Entry.Precedes (a b : Entry) : Prop := a.Before b.rank

/-- The stage of what a start does next. -/
def Control.rank : Control → ℕ
  | .stepping phase | .helper phase .. =>
    match phase with
    | .condition _ => 0
    | .prestart _ => 1
    | .poststopAfterError .. => 7
  | .oneshot | .oneshotHelper .. => 2
  | .evaluating wait _ | .waiting wait => if wait.termSentAt = none then 4 else 5
  | .finishing => 5
  | .settling _ => 8
  | .ended => 10

theorem Entry.Before.mono {a : Entry} (h : a.Before lo) (hle : lo ≤ hi) : a.Before hi := by
  rcases h with h | ⟨h, hcommand⟩
  · exact .inl (by omega)
  · by_cases heq : lo = hi
    · exact .inr ⟨by omega, hcommand⟩
    · exact .inl (by omega)

/-- A piece of a log that takes a start from stage `lo` to stage `hi`. -/
structure Block (lo hi : ℕ) (new : List Entry) : Prop where
  le : lo ≤ hi
  ordered : new.Pairwise Entry.Precedes
  low : ∀ e ∈ new, lo ≤ e.rank
  high : ∀ e ∈ new, e.Before hi

namespace Block

theorem nil (h : lo ≤ hi) : Block lo hi [] := by
  refine ⟨h, List.Pairwise.nil, ?_, ?_⟩ <;> simp

theorem append {a b : List Entry} (ha : Block lo mid a) (hb : Block mid hi b) :
    Block lo hi (a ++ b) := by
  refine ⟨ha.le.trans hb.le, ?_, ?_, ?_⟩
  · refine List.pairwise_append.mpr ⟨ha.ordered, hb.ordered, ?_⟩
    intro x hx y hy
    exact (ha.high x hx).mono (hb.low y hy)
  · intro x hx
    rcases List.mem_append.mp hx with hx | hx
    · exact ha.low x hx
    · exact ha.le.trans (hb.low x hx)
  · intro x hx
    rcases List.mem_append.mp hx with hx | hx
    · exact (ha.high x hx).mono hb.le
    · exact hb.high x hx

theorem mono {new : List Entry} {lo' hi' : ℕ} (h : Block lo hi new) (hlo : lo' ≤ lo)
    (hhi : hi ≤ hi') : Block lo' hi' new where
  le := by have := h.le; omega
  ordered := h.ordered
  low x hx := hlo.trans (h.low x hx)
  high x hx := (h.high x hx).mono hhi

theorem single {x : Entry} (hlo : lo ≤ x.rank) (hhi : x.Before hi) : Block lo hi [x] where
  le := by rcases hhi with h | h <;> omega
  ordered := List.pairwise_singleton _ x
  low y hy := by rwa [List.mem_singleton.mp hy]
  high y hy := by rwa [List.mem_singleton.mp hy]

end Block

theorem runAllCmds_block {stage : Stage} {n : ℕ} (timeout : Option ℕ) (cmds : List Commandline)
    (hrank : ∀ cmd outcome, (Entry.ran stage cmd outcome).rank = n) (outcome : ℕ → CmdOutcome) :
    Block n n (runAllCmds stage timeout outcome cmds).1 := by
  have hone : ∀ cmd o, Block n n [Entry.ran stage cmd o] := fun cmd o =>
    .single (hrank cmd o).ge (.inr ⟨hrank cmd o, rfl⟩)
  induction cmds generalizing outcome with
  | nil => exact .nil le_rfl
  | cons cmd rest ih =>
    rw [runAllCmds]
    split_ifs
    · exact (hone cmd _).append (ih _)
    · exact hone cmd _

theorem runPoststart_block (conf : ServiceConfig) (outcome : Stage → ℕ → CmdOutcome) :
    Block 5 5 (runPoststart conf outcome).1 :=
  runAllCmds_block _ _ (fun _ _ => rfl) _

theorem runPoststop_block (conf : ServiceConfig) (outcome : Stage → ℕ → CmdOutcome) :
    Block 7 7 (runPoststop conf outcome).1 :=
  runAllCmds_block _ _ (fun _ _ => rfl) _

/-- The stage that a result of the main phase leads to. -/
def resultRank : Except ServiceErrorReason StartResult → ℕ
  | .ok .deferredOneshotExec => 2
  | .ok .deferredNotifyWait => 4
  | .ok .started => 5
  | .ok _ => 10
  | .error _ => 7

/-- The stage that a result of the fork leads to. -/
def forkRank : Except ServiceErrorReason (Option StartResult) → ℕ
  | .ok _ => 4
  | .error _ => 7

theorem main_block (err : Option RunCmdError) : Block 3 4 [Entry.main err] :=
  .single le_rfl (.inl (by show 3 < 4; omega))

/-- What `fork_main_and_maybe_defer` adds to the log: the fork, and what comes after it. -/
theorem forkMain_log (conf : ServiceConfig) (source : ActivationSource) (a : MainAnswers)
    (h : Host) :
    ∃ err rest, (forkMainAndMaybeDefer conf source a h).log = .main err :: rest ∧
      Block 4 (forkRank (forkMainAndMaybeDefer conf source a h).result) rest := by
  have hnil : ∀ r, Block 4 (forkRank r) [] := by
    intro r
    refine .nil ?_
    cases r <;> simp [forkRank]
  unfold forkMainAndMaybeDefer
  split
  · split_ifs <;> exact ⟨_, [], rfl, hnil _⟩
  · dsimp only
    split_ifs
    · exact ⟨_, [], rfl, hnil _⟩
    · exact ⟨_, [], rfl, hnil _⟩
    · split
      · exact ⟨_, [], rfl, hnil _⟩
      · exact ⟨_, _, rfl, (runPoststop_block conf a.outcome).mono (by omega) le_rfl⟩

theorem forkMain_block (conf : ServiceConfig) (source : ActivationSource) (a : MainAnswers)
    (h : Host) :
    Block 3 (forkRank (forkMainAndMaybeDefer conf source a h).result)
      (forkMainAndMaybeDefer conf source a h).log := by
  obtain ⟨err, rest, hlog, hrest⟩ := forkMain_log conf source a h
  rw [hlog]
  exact (main_block err).append hrest

/-- A fork only defers the wait for readiness. -/
theorem forkMain_deferred {source : ActivationSource} {a : MainAnswers} {h : Host}
    {deferred : StartResult}
    (hresult : (forkMainAndMaybeDefer conf source a h).result = .ok (some deferred)) :
    deferred = .deferredNotifyWait := by
  revert hresult
  unfold forkMainAndMaybeDefer failInPlace
  grind

/-- What the end of an inline start adds to the log. -/
theorem finishStartTail_log (conf : ServiceConfig) (a : MainAnswers) (h : Host)
    (log : List Entry) :
    ∃ rest, (finishStartTail conf a h log).log = log ++ rest ∧
      Block 5 (resultRank (finishStartTail conf a h log).result) rest := by
  have hpost := runPoststart_block conf a.outcome
  unfold finishStartTail
  split <;> rename_i heq <;> rw [heq] at hpost
  · exact ⟨_, rfl, hpost⟩
  · have hstop := (runPoststop_block conf a.outcome).mono (show 5 ≤ 7 by omega) le_rfl
    exact ⟨_, List.append_assoc .., hpost.append hstop⟩

theorem finishStartTail_block {a : MainAnswers} {h : Host} {log : List Entry}
    (hlog : Block lo 5 log) :
    Block lo (resultRank (finishStartTail conf a h log).result)
      (finishStartTail conf a h log).log := by
  obtain ⟨rest, heq, hrest⟩ := finishStartTail_log conf a h log
  rw [heq]
  exact hlog.append hrest

theorem startMainPhase_block (conf : ServiceConfig) (a : MainAnswers) (h : Host) :
    Block 1 (resultRank (startMainPhase conf a h).result) (startMainPhase conf a h).log := by
  unfold startMainPhase
  cases a.reopenStdio with
  | some err => exact .nil (by show 1 ≤ 7; omega)
  | none =>
    dsimp only
    split_ifs
    · exact finishStartTail_block (.nil (by omega))
    · exact .nil (by show 1 ≤ 2; omega)
    · have hfork := forkMain_block conf .deferNotifyWait a h
      split <;> rename_i hresult
      · rw [hresult] at hfork
        exact hfork.mono (by omega) le_rfl
      · rw [hresult] at hfork
        cases forkMain_deferred hresult
        exact hfork.mono (by omega) le_rfl
      · rw [hresult] at hfork
        exact finishStartTail_block (hfork.mono (by omega) (by show 4 ≤ 5; omega))

/-! ## What a step adds -/

/-- `s'` goes on from `s`, which is at stage `lo`. The unit is not loaded anew; the dependents
    are handed on at most once, and not by a start that failed or was skipped. -/
def Grows (lo : ℕ) (s s' : State) : Prop :=
  ∃ new, s'.log = s.log ++ new ∧ Block lo s'.control.rank new ∧ s'.host.unit = s.host.unit ∧
    (s'.next = s.next ∨ s'.next = []) ∧
    ∀ ids, .dispatched ids ∈ new →
      s.next = ids ∧ ids ≠ [] ∧ ∀ x ∈ new, x.rank = 8 → x = .started

namespace Grows

theorem refl : Grows s.control.rank s s :=
  ⟨[], (List.append_nil _).symm, .nil le_rfl, rfl, .inl rfl,
    fun _ hids => absurd hids List.not_mem_nil⟩

theorem goTo {control : Control} (h : lo ≤ control.rank) : Grows lo s (s.goTo control) :=
  ⟨[], (List.append_nil _).symm, .nil h, rfl, .inl rfl,
    fun _ hids => absurd hids List.not_mem_nil⟩

/-- Only the log, the before-chain and the loaded unit count. -/
theorem of_eq {t : State} (h : Grows lo t s') (hlog : t.log = s.log) (hnext : t.next = s.next)
    (hunit : t.host.unit = s.host.unit) : Grows lo s s' := by
  rw [Grows, ← hlog, ← hnext, ← hunit]
  exact h

/-- What is known of a loaded unit does not count. -/
theorem setHost {host : Host} (hunit : host.unit = s.host.unit)
    (h : Grows lo { s with host := host } s') : Grows lo s s' :=
  h.of_eq rfl rfl hunit

/-- A piece of the log before the dependents are handed on. -/
theorem did {new : List Entry} (hnew : Block lo mid new) (hmid : mid ≤ 9)
    (h : Grows mid (s.did new) s') (hclosed : ∀ x ∈ new, x.rank = 8 → x = .started) :
    Grows lo s s' := by
  obtain ⟨rest, hlog, hrest, hunit, hnext, hids⟩ := h
  refine ⟨new ++ rest, ?_, hnew.append hrest, hunit, hnext, fun ids hmem => ?_⟩
  · rw [hlog, State.did, List.append_assoc]
  · rcases List.mem_append.mp hmem with hmem | hmem
    · have hlast : (9 < mid ∨ _) := hnew.high _ hmem
      rcases hlast with hlast | ⟨-, hcommand⟩
      · omega
      · cases hcommand
    · obtain ⟨hcarries, hne, hstarted⟩ := hids ids hmem
      refine ⟨hcarries, hne, fun x hx => ?_⟩
      rcases List.mem_append.mp hx with hx | hx
      · exact hclosed x hx
      · exact hstarted x hx

/-- A piece of the log that closes nothing. -/
theorem did_open {new : List Entry} (hnew : Block lo mid new) (hmid : mid ≤ 7)
    (h : Grows mid (s.did new) s') : Grows lo s s' := by
  refine h.did hnew (by omega) fun x hx hrank => ?_
  rcases hnew.high x hx with hlast | ⟨hlast, -⟩ <;> omega

/-- The last entry of a start. -/
theorem closing {x : Entry} (hlo : lo ≤ x.rank) (hrank : x.rank = 8) :
    Grows lo s ((s.did [x]).goTo .ended) := by
  refine ⟨[x], rfl, .single hlo (.inl (by rw [hrank]; show 8 < 10; omega)), rfl, .inl rfl, ?_⟩
  intro ids hids
  rw [List.mem_singleton] at hids
  rw [← hids] at hrank
  cases hrank

end Grows

@[simp] theorem unit_leaveStarting (h : Host) (new : UnitStatus) (errors : List String) :
    (h.leaveStarting new errors).unit = h.unit := by
  rw [Host.leaveStarting]
  split_ifs <;> rfl

theorem unit_failCleanup (h : Host) (reason : String) : (h.failCleanup reason).unit = h.unit := by
  unfold Host.failCleanup
  split_ifs
  · rfl
  · split
    · rfl
    · exact unit_leaveStarting ..
    · dsimp only
      split_ifs <;> exact unit_leaveStarting ..

theorem unit_evaluateStartWait (srcvType : ServiceType) (confirm dbusDone : Bool) (a : DaemonPid)
    (h : Host) : (evaluateStartWait srcvType confirm dbusDone a h).2.unit = h.unit := by
  unfold evaluateStartWait
  grind [Host.pickUpDaemon]

theorem unit_forkMain (source : ActivationSource) (a : MainAnswers) (h : Host) :
    (forkMainAndMaybeDefer conf source a h).host.unit = h.unit := by
  unfold forkMainAndMaybeDefer
  split
  · split_ifs <;> rfl
  · dsimp only
    split_ifs
    · rfl
    · rfl
    · split <;> rfl

theorem unit_finishStartTail (a : MainAnswers) (h : Host) (log : List Entry) :
    (finishStartTail conf a h log).host.unit = h.unit := by
  unfold finishStartTail
  split <;> rfl

theorem unit_startMainPhase (a : MainAnswers) (h : Host) :
    (startMainPhase conf a h).host.unit = h.unit := by
  unfold startMainPhase
  split
  · rfl
  · split_ifs
    · exact unit_finishStartTail ..
    · rfl
    · have hfork := @unit_forkMain conf .deferNotifyWait a h
      dsimp only
      split
      · exact hfork
      · exact hfork
      · rw [unit_finishStartTail, hfork]

theorem grows_finalizeFailure {reason : String} (h : lo ≤ 8) :
    Grows lo s (s.finalizeFailure reason) :=
  (Grows.closing (x := .failed reason) h rfl).setHost (unit_failCleanup ..)

theorem grows_finalizeError {error : String} (h : lo ≤ 8) : Grows lo s (s.finalizeError error) :=
  (grows_finalizeFailure (s := s.report (.genericStartError error)) h).of_eq rfl rfl rfl

theorem grows_failDeferredStart {reason : String} (h : lo ≤ 6) :
    Grows lo s (s.failDeferredStart reason) := by
  unfold State.failDeferredStart
  cases s.host.conf? with
  | none => exact grows_finalizeFailure (by omega)
  | some conf =>
    dsimp only
    split_ifs
    · exact grows_finalizeFailure (by omega)
    · refine ⟨[.killed], rfl, .single h (.inl (by show 6 < 7; omega)), rfl, .inr rfl, ?_⟩
      simp

theorem grows_registerStartWait (h : lo ≤ 4) : Grows lo s s.registerStartWait := by
  unfold State.registerStartWait
  cases s.host.conf? with
  | none => exact Grows.goTo (by show lo ≤ 10; omega)
  | some conf =>
    dsimp only
    split
    · exact grows_failDeferredStart (by omega)
    · exact Grows.goTo h

theorem grows_dispatchNext (h : lo ≤ 9) : Grows lo s (s.dispatchNext.goTo .ended) := by
  unfold State.dispatchNext
  split_ifs with hempty
  · exact Grows.goTo (by show lo ≤ 10; omega)
  · have hblock : Block lo 10 [Entry.dispatched s.next] :=
      .single h (.inl (by show 9 < 10; omega))
    refine ⟨[.dispatched s.next], rfl, hblock, rfl, .inl rfl, ?_⟩
    intro ids hids
    rw [List.mem_singleton, Entry.dispatched.injEq] at hids
    subst hids
    refine ⟨rfl, hempty, fun x hx hrank => ?_⟩
    rw [List.mem_singleton.mp hx] at hrank
    cases hrank

theorem grows_progress {wait : StartWait} {confirm : Bool} {a : DaemonPid}
    (h : lo = (Control.waiting wait).rank) : Grows lo s (s.progress wait confirm a) := by
  have hle : lo ≤ 5 := by
    rw [h, Control.rank]
    split_ifs <;> omega
  have hunit := unit_evaluateStartWait wait.srcvType confirm wait.dbusDone a s.host
  unfold State.progress
  revert hunit
  generalize evaluateStartWait wait.srcvType confirm wait.dbusDone a s.host = verdict
  obtain ⟨verdict, host⟩ := verdict
  intro hunit
  cases verdict with
  | pending => exact (Grows.goTo h.le).setHost hunit
  | ready => exact (Grows.goTo hle).setHost hunit
  | abandoned => exact (grows_dispatchNext (by omega)).setHost hunit
  | fail reason => exact (grows_failDeferredStart (by omega)).setHost hunit

theorem grows_expireArmed {wait : StartWait} {drained : Service}
    (h : lo = (Control.waiting wait).rank) : Grows lo s (s.expireArmed wait drained) := by
  have hle : lo ≤ 5 := by
    rw [h, Control.rank]
    split_ifs <;> omega
  unfold State.expireArmed
  split
  · exact Grows.goTo h.le
  · split_ifs with hterm hgrace hgone hlive
    · have hfour : lo ≤ 4 := by rw [h, Control.rank, if_pos (Option.isNone_iff_eq_none.mp hterm)]
      have hsent : Block lo 5 [Entry.sigterm s.now] :=
        .single hfour (.inl (by show 4 < 5; omega))
      exact Grows.did_open hsent (by omega) (Grows.goTo (by show 5 ≤ 5; omega))
    · exact (Grows.goTo h.le).setHost rfl
    · exact Grows.goTo (by show lo ≤ 10; omega)
    · exact Grows.goTo h.le
    · exact grows_failDeferredStart (by omega)

theorem grows_waitTurn {wait : StartWait} (h : lo = (Control.waiting wait).rank)
    (hs : s.waitTurn wait e = some s') : Grows lo s s' := by
  have hle : lo ≤ 5 := by
    rw [h, Control.rank]
    split_ifs <;> omega
  cases e with
  | notify =>
    cases hs
    refine Grows.goTo (le_of_eq ?_)
    rw [h, StartWait.refreshed]
    split_ifs with hterm <;> simp [Control.rank, hterm]
  | recheck => cases hs; exact Grows.goTo h.le
  | dbusName result =>
    cases result with
    | ok _ => cases hs; exact Grows.goTo h.le
    | error message => cases hs; exact grows_failDeferredStart (by omega)
  | expired drained =>
    rw [State.waitTurn, State.expire] at hs
    split_ifs at hs
    · cases hs; exact Grows.goTo h.le
    · cases hs; exact grows_expireArmed h
  | _ => cases hs

theorem grows_finish {outcome : Stage → ℕ → CmdOutcome} : Grows 5 s (s.finish outcome) := by
  unfold State.finish
  split_ifs
  · exact Grows.goTo (by show 5 ≤ 10; omega)
  · cases s.host.conf? with
    | none => exact Grows.goTo (by show 5 ≤ 8; omega)
    | some conf =>
      have hpost := runPoststart_block conf outcome
      dsimp only
      split <;> rename_i heq
      · rw [heq] at hpost
        exact Grows.did_open hpost (by omega) (Grows.goTo (by show 5 ≤ 8; omega))
      · rw [heq] at hpost
        have hstop := (runPoststop_block conf outcome).mono (show 5 ≤ 7 by omega) le_rfl
        exact (Grows.did_open (hpost.append hstop) le_rfl
          (Grows.goTo (by show 7 ≤ 8; omega))).setHost rfl

theorem grows_settle {failure : Option String} : Grows 8 s (s.settle failure) := by
  cases failure with
  | some reason =>
    exact (Grows.closing (x := .poststartFailed) le_rfl rfl).setHost (unit_leaveStarting ..)
  | none =>
    have hstarted : Block 8 9 [Entry.started] := .single le_rfl (.inl (by show 8 < 9; omega))
    refine Grows.of_eq (Grows.did hstarted le_rfl (grows_dispatchNext le_rfl) fun x hx _ => ?_)
      rfl rfl (unit_leaveStarting ..)
    exact List.mem_singleton.mp hx

theorem grows_errorToPoststop {error : String} (h : lo ≤ 7) :
    Grows lo s (s.errorToPoststop error) :=
  Grows.goTo h

theorem grows_conditionSkip (h : lo ≤ 8) : Grows lo s s.conditionSkip :=
  (Grows.closing (x := .skipped) h rfl).setHost (unit_leaveStarting ..)

theorem grows_mainDispatched {result : StartResult} (h : lo ≤ resultRank (.ok result)) :
    Grows lo s (s.mainDispatched result) := by
  cases result with
  | deferredOneshotExec => exact Grows.goTo h
  | deferredNotifyWait => exact grows_registerStartWait h
  | started => exact Grows.goTo h
  | waitingForSocket => exact (Grows.goTo h).setHost (unit_leaveStarting ..)
  | conditionSkipped => exact Grows.goTo h
  | deferredPrestart => exact Grows.goTo h

theorem resultRank_startMainPhase (a : MainAnswers) (h : Host) :
    resultRank (startMainPhase conf a h).result ≤ 7 := by
  unfold startMainPhase forkMainAndMaybeDefer finishStartTail failInPlace
  grind [resultRank]

theorem grows_runMain {a : MainAnswers} : Grows 1 s (s.runMain conf a) := by
  have hblock := startMainPhase_block conf a s.host
  have hrank := @resultRank_startMainPhase conf a s.host
  unfold State.runMain
  dsimp only
  split <;> rename_i hresult <;> rw [hresult] at hblock hrank
  · exact (Grows.did_open hblock hrank (grows_mainDispatched le_rfl)).setHost
      (unit_startMainPhase ..)
  · exact (Grows.did_open hblock hrank ((grows_errorToPoststop le_rfl).of_eq rfl rfl rfl)).setHost
      (unit_startMainPhase ..)

/-- How a chain goes on behind a helper, from the state that has it in its log. -/
inductive HelperEnd (cmd : Commandline) (outcome : CmdOutcome) (t : State) :
    StartChainPhase → State → Prop
  | advance {phase : StartChainPhase} (ok : succeeds cmd outcome = true) :
    HelperEnd cmd outcome t phase (t.goTo (.stepping phase.advance))
  | skip (idx : ℕ) : HelperEnd cmd outcome t (.condition idx) t.conditionSkip
  | poststop {phase : StartChainPhase} (error : String) :
    HelperEnd cmd outcome t phase (t.errorToPoststop error)
  | final (idx : ℕ) (original error : String) (ran : ∀ err, outcome ≠ .spawnFailed err)
    (failed : succeeds cmd outcome = false) :
    HelperEnd cmd outcome t (.poststopAfterError idx original) (t.finalizeError error)

/-- What one turn of a chain does. -/
inductive ChainTurn (s : State) (e : Event) : StartChainPhase → State → Prop
  | gone {phase : StartChainPhase} (left : s.host.conf? = none ∨ s.host.status ≠ .starting) :
    ChainTurn s e phase (s.goTo .ended)
  | fork {phase : StartChainPhase} {conf : ServiceConfig} {cmd : Commandline}
    (timeout : Option ℕ) (deadline : Option Instant) (loaded : s.host.conf? = some conf)
    (action : conf.action phase = .fork cmd) (forked : e = .forked) :
    ChainTurn s e phase (s.goTo (.helper phase cmd timeout deadline))
  | spawnFailed {phase : StartChainPhase} {conf : ServiceConfig} {cmd : Commandline} {s' : State}
    (err : String) (loaded : s.host.conf? = some conf) (action : conf.action phase = .fork cmd)
    (hend : HelperEnd cmd (.spawnFailed err) (s.did [.ran phase.stage cmd (.spawnFailed err)])
      phase s') : ChainTurn s e phase s'
  | prestart {conf : ServiceConfig} {idx : ℕ} (loaded : s.host.conf? = some conf)
    (last : conf.execCondition[idx]? = none) :
    ChainTurn s e (.condition idx) (s.goTo (.stepping (.prestart 0)))
  | main {conf : ServiceConfig} {idx : ℕ} (a : MainAnswers) (loaded : s.host.conf? = some conf)
    (last : conf.startpre[idx]? = none) : ChainTurn s e (.prestart idx) (s.runMain conf a)
  | final {conf : ServiceConfig} (idx : ℕ) (error : String) (loaded : s.host.conf? = some conf)
    (last : conf.stoppost[idx]? = none) :
    ChainTurn s e (.poststopAfterError idx error) (s.finalizeError error)

theorem chainTurn_cases {phase : StartChainPhase} (hs : s.chainTurn phase e = some s') :
    ChainTurn s e phase s' := by
  unfold State.chainTurn at hs
  split at hs
  · rename_i conf hconf _
    split at hs <;> rename_i haction
    · rename_i e _ _ cmd
      cases e with
      | forked => cases hs; exact .fork _ _ hconf haction rfl
      | forkFailed err =>
        refine .spawnFailed err hconf haction ?_
        rw [State.forkHelper] at hs
        split_ifs at hs with hignores <;> cases hs
        · exact .advance hignores
        · exact .poststop _
      | _ => cases hs
    · cases hs
      cases phase <;> rw [ServiceConfig.action] at haction <;> split at haction <;> cases haction
      exact .prestart hconf ‹_›
    · cases hs
      cases phase <;> rw [ServiceConfig.action] at haction <;> split at haction <;> cases haction
      exact .main _ hconf ‹_›
    · cases hs
      cases phase <;> rw [ServiceConfig.action] at haction <;> split at haction <;> cases haction
      exact .final _ _ hconf ‹_›
    · cases hs
  · rename_i hleft
    split at hs <;> cases hs
    refine .gone (or_iff_not_imp_left.mpr fun hsome hstarting => ?_)
    obtain ⟨conf, hconf⟩ := Option.ne_none_iff_exists'.mp hsome
    exact hleft conf hconf hstarting

/-- How the helper of a chain ended, for an event that says so. -/
def Event.outcome? : Event → Option CmdOutcome
  | .forkFailed err => some (.spawnFailed err)
  | .exited termination => some (.exited termination)
  | .timedOut => some .timedOut
  | _ => none

theorem helperTurn_cases {phase : StartChainPhase} {cmd : Commandline} {timeout : Option ℕ}
    {deadline : Option Instant} (hs : s.helperTurn phase cmd timeout deadline e = some s') :
    ∃ outcome, e.outcome? = some outcome ∧
      HelperEnd cmd outcome (s.did [.ran phase.stage cmd outcome]) phase s' := by
  cases e with
  | exited termination =>
    cases hs
    refine ⟨.exited termination, rfl, ?_⟩
    unfold State.childExited
    dsimp only
    split
    · exact .advance ‹_›
    · cases phase with
      | condition idx => dsimp only; split <;> constructor
      | prestart idx => exact .poststop _
      | poststopAfterError idx error =>
        exact .final _ _ _ (by simp) (Bool.eq_false_of_not_eq_true ‹_›)
  | timedOut =>
    rw [State.helperTurn] at hs
    split_ifs at hs
    cases hs
    refine ⟨.timedOut, rfl, ?_⟩
    cases phase with
    | condition idx => exact .poststop _
    | prestart idx => exact .poststop _
    | poststopAfterError idx error => exact .final _ _ _ (by simp) rfl
  | _ => cases hs

/-- The stage of a phase is that of its commands. -/
theorem ran_block (phase : StartChainPhase) (cmd : Commandline) (outcome : CmdOutcome) :
    Block (Control.stepping phase).rank (Control.stepping phase).rank
      [.ran phase.stage cmd outcome] := by
  cases phase <;> exact .single le_rfl (.inr ⟨rfl, rfl⟩)

theorem rank_phase_le (phase : StartChainPhase) : (Control.stepping phase).rank ≤ 7 := by
  cases phase <;> simp [Control.rank]

theorem rank_advance (phase : StartChainPhase) :
    (Control.stepping phase.advance).rank = (Control.stepping phase).rank := by
  cases phase <;> rfl

theorem grows_helperEnd {phase : StartChainPhase} {cmd : Commandline} {outcome : CmdOutcome}
    (h : HelperEnd cmd outcome (s.did [.ran phase.stage cmd outcome]) phase s') :
    Grows (Control.stepping phase).rank s s' := by
  refine Grows.did_open (ran_block phase cmd outcome) (rank_phase_le phase) ?_
  generalize s.did [.ran phase.stage cmd outcome] = t at h ⊢
  cases h with
  | advance ok => exact Grows.goTo (rank_advance phase).ge
  | skip idx => exact grows_conditionSkip (Nat.zero_le 8)
  | poststop error => exact grows_errorToPoststop (rank_phase_le phase)
  | final idx original error ran failed => exact grows_finalizeError (by show 7 ≤ 8; omega)

theorem grows_chainTurn {phase : StartChainPhase} (h : ChainTurn s e phase s') :
    Grows (Control.stepping phase).rank s s' := by
  cases h with
  | gone left => exact Grows.goTo ((rank_phase_le phase).trans (by show 7 ≤ 10; omega))
  | fork timeout deadline loaded action forked => exact Grows.goTo le_rfl
  | spawnFailed err loaded action hend => exact grows_helperEnd hend
  | prestart loaded last => exact Grows.goTo (Nat.zero_le 1)
  | main a loaded last => exact grows_runMain
  | final idx error loaded last => exact grows_finalizeError (by show 7 ≤ 8; omega)

theorem grows_forkLast {a : MainAnswers} : Grows 2 s (s.forkLast conf a) := by
  have hblock := (forkMain_block conf s.source a (s.host.setArgv none)).mono
    (show 2 ≤ 3 by omega) le_rfl
  unfold State.forkLast
  dsimp only
  split <;> rename_i hresult <;> rw [hresult] at hblock
  · exact (Grows.did_open hblock (by show 4 ≤ 7; omega) (grows_registerStartWait le_rfl)).of_eq
      rfl rfl (unit_forkMain ..)
  · exact (Grows.did_open hblock le_rfl ((Grows.goTo (show 7 ≤ Control.ended.rank by decide)).of_eq
      rfl rfl rfl)).of_eq rfl rfl (unit_forkMain ..)

theorem prelim_block (cmd : Commandline) (outcome : CmdOutcome) :
    Block 2 2 [Entry.ran .prelim cmd outcome] :=
  .single le_rfl (.inr ⟨rfl, rfl⟩)

theorem grows_forkPrelim {cmd : Commandline} (hs : s.forkPrelim conf cmd e = some s') :
    Grows 2 s s' := by
  cases e with
  | forked => cases hs; exact (Grows.goTo le_rfl).setHost rfl
  | forkFailed err =>
    cases hs
    exact (Grows.did_open (prelim_block _ _) (by omega)
      ((Grows.goTo (by show 2 ≤ 10; omega)).of_eq rfl rfl rfl)).setHost rfl
  | _ => cases hs

theorem grows_oneshotTurn (hs : s.oneshotTurn e = some s') : Grows 2 s s' := by
  unfold State.oneshotTurn at hs
  split at hs
  · split at hs <;> cases hs
    exact Grows.goTo (by show 2 ≤ 10; omega)
  · rename_i conf _
    split at hs
    · split at hs <;> cases hs
      exact (grows_registerStartWait (by omega)).setHost rfl
    · split at hs
      · exact grows_forkPrelim hs
      · cases hs
        exact grows_forkLast
      · cases hs

theorem grows_oneshotFail {err : RunCmdError} (h : lo ≤ 6) : Grows lo s (s.oneshotFail err) :=
  (grows_failDeferredStart h).of_eq rfl rfl rfl

theorem grows_oneshotHelperTurn {cmd : Commandline} {timeout : Option ℕ} {deadline : Option Instant}
    (hs : s.oneshotHelperTurn cmd timeout deadline e = some s') : Grows 2 s s' := by
  cases e with
  | exited termination =>
    rw [State.oneshotHelperTurn] at hs
    split_ifs at hs <;> cases hs
    · exact Grows.did_open (prelim_block _ _) (by omega) (Grows.goTo le_rfl)
    · exact Grows.did_open (prelim_block _ _) (by omega) (grows_oneshotFail (by omega))
  | timedOut =>
    rw [State.oneshotHelperTurn] at hs
    split_ifs at hs
    cases hs
    exact Grows.did_open (prelim_block _ _) (by omega) (grows_oneshotFail (by omega))
  | _ => cases hs

/-- What one step adds to the log, if it is not one of another thread. -/
theorem step_grows (hs : step s e = some s') :
    (∃ host, e = .world host ∧ s' = { s with host := host }) ∨ Grows s.control.rank s s' := by
  unfold step at hs
  split at hs
  · cases hs
    exact .inl ⟨_, rfl, rfl⟩
  · split_ifs at hs
    cases hs
    exact .inr (Grows.refl.of_eq rfl rfl rfl)
  · right
    split at hs <;> rename_i hcontrol <;> rw [hcontrol]
    · exact grows_chainTurn (chainTurn_cases hs)
    · obtain ⟨outcome, -, hend⟩ := helperTurn_cases hs
      exact grows_helperEnd hend
    · exact grows_oneshotTurn hs
    · exact grows_oneshotHelperTurn hs
    · split at hs <;> cases hs
      exact grows_progress rfl
    · exact grows_waitTurn rfl hs
    · split at hs <;> cases hs
      exact grows_finish
    · split at hs <;> cases hs
      exact grows_settle
    · cases hs

/-- How the dispatcher is given a start. -/
inductive Begins (next : List UnitId) : State → Prop
  | chain (host : Host) (now : Instant) (source : ActivationSource) :
    Begins next (serviceStartChain host now next source)
  | oneshot (host : Host) (now : Instant) (source : ActivationSource) :
    Begins next (oneshotChain host now next source)
  | wait (host : Host) (now : Instant) (source : ActivationSource) :
    Begins next (startServiceWait host now next source)

/-- The invariant of all runs of a start with the before-chain `next`. -/
structure OrderInv (next : List UnitId) (s : State) : Prop where
  ordered : s.log.Pairwise Entry.Precedes
  before : ∀ x ∈ s.log, x.Before s.control.rank
  carries : s.next = next ∨ s.next = []
  handed : ∀ ids, .dispatched ids ∈ s.log →
    ids = next ∧ ∀ x ∈ s.log, x.rank = 8 → x = .started

theorem Control.rank_eq_over {control : Control} (h : 8 < control.rank) : control = .ended := by
  cases control with
  | ended => rfl
  | stepping phase => cases phase <;> simp [Control.rank] at h
  | helper phase => cases phase <;> simp [Control.rank] at h
  | evaluating wait _ => rw [Control.rank] at h; split_ifs at h <;> omega
  | waiting wait => rw [Control.rank] at h; split_ifs at h <;> omega
  | _ => simp [Control.rank] at h

/-- A closing entry is only there when the start is over. -/
theorem Entry.Before.ended {x : Entry} {control : Control} (h : x.Before control.rank)
    (hx : 8 ≤ x.rank) : control = .ended := by
  refine Control.rank_eq_over ?_
  rcases h with h | ⟨-, hcommand⟩
  · omega
  · cases x with
    | ran stage => cases stage <;> simp [Entry.rank] at hx
    | _ => cases hcommand

theorem OrderInv.step {next : List UnitId} (h : OrderInv next s) (hg : Grows s.control.rank s s') :
    OrderInv next s' := by
  obtain ⟨new, hlog, hblock, -, hnext, hids⟩ := hg
  have hover : ∀ x ∈ s.log, 8 ≤ x.rank → new = [] := by
    intro x hx hrank
    have hcontrol := (h.before x hx).ended hrank
    by_contra hne
    obtain ⟨y, hy⟩ := List.exists_mem_of_ne_nil new hne
    have hlow := hblock.low y hy
    rw [hcontrol] at hlow
    have : y.rank ≤ 9 := by
      cases y with
      | ran stage => cases stage <;> simp [Entry.rank]
      | _ => simp [Entry.rank]
    exact absurd hlow (by show ¬ 10 ≤ y.rank; omega)
  refine ⟨?_, ?_, ?_, ?_⟩
  · rw [hlog]
    refine List.pairwise_append.mpr ⟨h.ordered, hblock.ordered, fun x hx y hy => ?_⟩
    exact (h.before x hx).mono (hblock.low y hy)
  · rw [hlog]
    intro x hx
    rcases List.mem_append.mp hx with hx | hx
    · exact (h.before x hx).mono hblock.le
    · exact hblock.high x hx
  · rcases hnext with hnext | hnext
    · rw [hnext]
      exact h.carries
    · exact .inr hnext
  · rw [hlog]
    intro ids hmem
    rcases List.mem_append.mp hmem with hmem | hmem
    · rw [hover _ hmem (by show 8 ≤ 9; omega), List.append_nil]
      exact h.handed ids hmem
    · obtain ⟨rfl, hne, hstarted⟩ := hids ids hmem
      refine ⟨h.carries.resolve_right hne, fun x hx hrank => ?_⟩
      rcases List.mem_append.mp hx with hx | hx
      · rw [hover x hx hrank.ge] at hmem
        exact absurd hmem List.not_mem_nil
      · exact hstarted x hx hrank

theorem orderInv_begins {next : List UnitId} (h : Begins next s) : OrderInv next s := by
  have hempty : ∀ s : State, s.log = [] → s.next = next → OrderInv next s := by
    intro s hlog hnext
    refine ⟨?_, ?_, .inl hnext, ?_⟩ <;> simp [hlog]
  cases h with
  | chain host now source => exact hempty _ rfl rfl
  | oneshot host now source => exact hempty _ rfl rfl
  | wait host now source =>
    -- The wait is registered from a state that is still before all stages.
    have hinv := hempty (serviceStartChain host now next source) rfl rfl
    have hgrows : Grows 0 (serviceStartChain host now next source)
        (startServiceWait host now next source) :=
      (grows_registerStartWait (by omega)).of_eq rfl rfl rfl
    exact hinv.step hgrows

/-- A simple service with an ExecStartPre= and an ExecStartPost= command. -/
def webService : ServiceConfig where
  srcvType := .simple
  startpre := [{ cmd := "/bin/check" }]
  exec := [{ cmd := "/bin/web" }]
  startpost := [{ cmd := "/bin/announce" }]

/-- Its start, with a target behind it. -/
def webStart : State :=
  serviceStartChain { unit := some (.service webService), status := .starting } 0
    [⟨.target, "web.target"⟩] .regular

/-- A start that goes well. -/
def webEvents : List Event :=
  [.tick, .forked, .exited (.exit 0), .main { startService := .ok (some 7) },
    .poststart fun _ _ => .exited (.exit 0), .tick]

end OxidizedSystemd.Units.StartChain
