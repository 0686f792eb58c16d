import OxidizedSystemd.Units.StopChain
import OxidizedSystemd.Lib.Run
import Mathlib.Data.List.TakeDrop

/-!
# Runs of the stop chain

A chain goes through the phases once. In each phase it is at the first command
that has not run; the commands before it ran without an error. `Shape` says so
for every phase together with what the chain is parked on and what it logged.

* `Trans`, `Inv.step_trans`: what a step of a service's chain can do.
* `stopChain_spec`: what every run does, in order, with which errors.
* `stopChain_ignored_timeout`: a timeout ends its stage whatever the prefix.
-/

namespace OxidizedSystemd.Units.StopChain

open OxidizedSystemd.Lib

/-! ## The invariant -/

/-- The first `idx` commands ran, none with an error. -/
structure Clean (cmds : List Commandline) (idx : ℕ) (runs : Runs) : Prop where
  le : idx ≤ cmds.length
  cmds : runs.map Prod.fst = cmds.take idx
  noError : ∀ r ∈ runs, r.2.error? r.1 = none

/-- A stage that is over and ran in order. -/
structure Closed (cmds : List Commandline) (runs : Runs) : Prop extends InOrder cmds runs where
  ended : StageOver cmds runs

theorem clean_zero (cmds : List Commandline) : Clean cmds 0 [] :=
  ⟨Nat.zero_le _, by rw [List.take_zero, List.map_nil], fun r hr => absurd hr List.not_mem_nil⟩

theorem Clean.inOrder {cmds : List Commandline} {idx : ℕ} {runs : Runs} (h : Clean cmds idx runs) :
    InOrder cmds runs :=
  ⟨h.cmds ▸ List.take_prefix idx cmds, fun r hr => h.noError r (List.mem_of_mem_dropLast hr)⟩

/-- A stage without errors is over when no command is left. -/
theorem Clean.closed {cmds : List Commandline} {idx : ℕ} {runs : Runs} (h : Clean cmds idx runs)
    (hlast : cmds[idx]? = none) : Closed cmds runs := by
  refine ⟨h.inOrder, Or.inl ?_⟩
  rw [h.cmds]
  exact List.take_of_length_le (List.getElem?_eq_none_iff.mp hlast)

theorem Clean.map_append {cmds : List Commandline} {idx : ℕ} {runs : Runs} {cmd : Commandline}
    (h : Clean cmds idx runs) (hcmd : cmds[idx]? = some cmd) (outcome : CmdOutcome) :
    (runs ++ [(cmd, outcome)]).map Prod.fst = cmds.take (idx + 1) := by
  rw [List.map_append, h.cmds, List.take_add_one, hcmd]
  rfl

/-- The next command ran without an error. -/
theorem Clean.advance {cmds : List Commandline} {idx : ℕ} {runs : Runs} {cmd : Commandline}
    {outcome : CmdOutcome} (h : Clean cmds idx runs) (hcmd : cmds[idx]? = some cmd)
    (hok : outcome.error? cmd = none) : Clean cmds (idx + 1) (runs ++ [(cmd, outcome)]) := by
  refine ⟨(List.getElem?_eq_some_iff.mp hcmd).1, h.map_append hcmd outcome, fun r hr => ?_⟩
  rcases List.mem_append.mp hr with hr | hr
  · exact h.noError r hr
  · rw [List.mem_singleton.mp hr]
    exact hok

/-- The next command ran with an error. -/
theorem Clean.skip {cmds : List Commandline} {idx : ℕ} {runs : Runs} {cmd : Commandline}
    {outcome : CmdOutcome} {e : String} (h : Clean cmds idx runs) (hcmd : cmds[idx]? = some cmd)
    (herr : outcome.error? cmd = some e) : Closed cmds (runs ++ [(cmd, outcome)]) := by
  refine ⟨⟨?_, ?_⟩, Or.inr ⟨(cmd, outcome), ?_, ?_⟩⟩
  · rw [h.map_append hcmd]
    exact List.take_prefix _ _
  · rw [List.dropLast_concat]
    exact h.noError
  · rw [List.getLast?_concat]
    rfl
  · rw [herr]
    rfl

/-- The log of a chain that is past the terminate phase. -/
def pastTerm (stop : Runs) (term : TermOutcome) (post : Runs) : List Entry :=
  entries .stop stop ++ (.terminated term :: entries .poststop post)

/-- How phase, control and log belong together. -/
inductive Shape (conf : ServiceConfig) : StopPhase → Control → List Entry → Prop
  | stop {idx runs} (h : Clean conf.stop idx runs) :
    Shape conf (.execStop idx) .stepping (entries .stop runs)
  | stopHelper {idx runs cmd timeout} (h : Clean conf.stop idx runs)
    (hcmd : conf.stop[idx]? = some cmd) :
    Shape conf (.execStop idx) (.awaitingHelper cmd timeout) (entries .stop runs)
  | term {runs} (h : Closed conf.stop runs) :
    Shape conf .awaitMainExit .stepping (entries .stop runs)
  | main {runs pid timeout} (h : Closed conf.stop runs) :
    Shape conf .awaitMainExit (.awaitingMain pid timeout) (entries .stop runs)
  | post {idx runs o posts} (h : Closed conf.stop runs) (hpost : Clean conf.stoppost idx posts) :
    Shape conf (.poststop idx) .stepping (pastTerm runs o posts)
  | postHelper {idx runs o posts cmd timeout} (h : Closed conf.stop runs)
    (hpost : Clean conf.stoppost idx posts) (hcmd : conf.stoppost[idx]? = some cmd) :
    Shape conf (.poststop idx) (.awaitingHelper cmd timeout) (pastTerm runs o posts)
  | postSkipped {runs o posts} (h : Closed conf.stop runs) (hpost : Closed conf.stoppost posts) :
    Shape conf (.poststop usizeMax) .stepping (pastTerm runs o posts)
  | finished {phase runs o posts} (h : Closed conf.stop runs) (hpost : Closed conf.stoppost posts) :
    Shape conf phase .finished (pastTerm runs o posts ++ [.finalized])

/-- The invariant of the runs of a service's chain. -/
structure Inv (conf : ServiceConfig) (s : State) : Prop where
  shape : Shape conf s.chain.phase s.control s.log
  errors : s.chain.errors = s.log.filterMap Entry.error?
  status : s.control = .finished →
    s.status = .stopped .stoppedFinal ∧ s.statusErrors = s.chain.errors

theorem inv_initial (conf : ServiceConfig) (status : UnitStatus) (statusErrors : List String) :
    Inv conf (State.initial status statusErrors) :=
  ⟨.stop (clean_zero conf.stop), rfl, fun h => by cases h⟩

/-! ## Steps -/

/-- The command of a phase, if it has one. -/
def ServiceConfig.cmdAt (conf : ServiceConfig) : StopPhase → Option Commandline
  | .execStop idx => conf.stop[idx]?
  | .awaitMainExit => none
  | .poststop idx => conf.stoppost[idx]?

/-- The index a skipped ExecStopPost= phase is left at is past every command. -/
theorem cmdAt_skipped (conf : ServiceConfig) : conf.cmdAt (.poststop usizeMax) = none :=
  List.getElem?_eq_none_iff.mpr conf.stoppost_le

theorem action_cases (conf : ServiceConfig) (phase : StopPhase) :
    (∃ cmd, conf.cmdAt phase = some cmd ∧ conf.action false phase = .forkHelper cmd) ∨
    (∃ idx, phase = .execStop idx ∧ conf.stop[idx]? = none ∧
      conf.action false phase = .nextPhase .awaitMainExit) ∨
    (phase = .awaitMainExit ∧ conf.action false phase = .initiateTerm) ∨
    (∃ idx, phase = .poststop idx ∧ conf.stoppost[idx]? = none ∧
      conf.action false phase = .finalize) := by
  cases phase with
  | execStop idx =>
    cases hcmd : conf.stop[idx]? with
    | none => exact Or.inr (Or.inl ⟨idx, rfl, hcmd, by simp [ServiceConfig.action, hcmd]⟩)
    | some cmd => exact Or.inl ⟨cmd, hcmd, by simp [ServiceConfig.action, hcmd]⟩
  | awaitMainExit => exact Or.inr (Or.inr (Or.inl ⟨rfl, rfl⟩))
  | poststop idx =>
    cases hcmd : conf.stoppost[idx]? with
    | none => exact Or.inr (Or.inr (Or.inr ⟨idx, rfl, hcmd, by simp [ServiceConfig.action, hcmd]⟩))
    | some cmd => exact Or.inl ⟨cmd, hcmd, by simp [ServiceConfig.action, hcmd]⟩

theorem entries_append (stage : Stage) (runs : Runs) (r : Commandline × CmdOutcome) :
    entries stage (runs ++ [r]) = entries stage runs ++ [.ran stage r.1 r.2] := by
  simp [entries]

theorem pastTerm_append (stop : Runs) (o : TermOutcome) (post : Runs)
    (r : Commandline × CmdOutcome) :
    pastTerm stop o (post ++ [r]) = pastTerm stop o post ++ [.ran .poststop r.1 r.2] := by
  simp [pastTerm, entries_append]

theorem Shape.cmdAt {conf : ServiceConfig} {phase : StopPhase} {cmd : Commandline}
    {timeout : Option ℕ} {log : List Entry}
    (h : Shape conf phase (.awaitingHelper cmd timeout) log) : conf.cmdAt phase = some cmd := by
  cases h with
  | stopHelper _ hcmd => exact hcmd
  | postHelper _ _ hcmd => exact hcmd

/-- The command of the phase ran without an error. -/
theorem Shape.advance {conf : ServiceConfig} {phase : StopPhase} {control : Control}
    {log : List Entry} {cmd : Commandline} {outcome : CmdOutcome} (h : Shape conf phase control log)
    (hcontrol : control ≠ .finished) (hcmd : conf.cmdAt phase = some cmd)
    (hok : outcome.error? cmd = none) :
    Shape conf (advanceStopIndex phase) .stepping (log ++ [.ran phase.stage cmd outcome]) := by
  cases h with
  | stop h | stopHelper h _ =>
    have := Shape.stop (h.advance hcmd hok)
    rwa [entries_append] at this
  | term _ | main _ => cases hcmd
  | @post _ _ o _ h hpost | @postHelper _ _ o _ _ _ h hpost _ =>
    have := Shape.post (o := o) h (hpost.advance hcmd hok)
    rwa [pastTerm_append] at this
  | postSkipped => rw [cmdAt_skipped] at hcmd; cases hcmd
  | finished => exact absurd rfl hcontrol

/-- The command of the phase ran with an error. -/
theorem Shape.skip {conf : ServiceConfig} {phase : StopPhase} {control : Control}
    {log : List Entry} {cmd : Commandline} {outcome : CmdOutcome} {e : String}
    (h : Shape conf phase control log) (hcontrol : control ≠ .finished)
    (hcmd : conf.cmdAt phase = some cmd) (herr : outcome.error? cmd = some e) :
    Shape conf (skipCurrentStopPhase phase) .stepping
      (log ++ [.ran phase.stage cmd outcome]) := by
  cases h with
  | stop h | stopHelper h _ =>
    have := Shape.term (h.skip hcmd herr)
    rwa [entries_append] at this
  | term _ | main _ => cases hcmd
  | @post _ _ o _ h hpost | @postHelper _ _ o _ _ _ h hpost _ =>
    have := Shape.postSkipped (o := o) h (hpost.skip hcmd herr)
    rwa [pastTerm_append] at this
  | postSkipped => rw [cmdAt_skipped] at hcmd; cases hcmd
  | finished => exact absurd rfl hcontrol

/-- A loaded, unmasked service. -/
def Host.ofService (conf : ServiceConfig) : Host := ⟨some (.service conf), false⟩

/-- What a step of a service's chain can do. -/
inductive Trans (conf : ServiceConfig) (s : State) : State → Prop
  | fork {cmd timeout} (hcontrol : s.control = .stepping)
    (hcmd : conf.cmdAt s.chain.phase = some cmd) :
    Trans conf s { s with control := .awaitingHelper cmd timeout }
  | advance {cmd outcome}
    (hcontrol : s.control = .stepping ∨ ∃ t, s.control = .awaitingHelper cmd t)
    (hcmd : conf.cmdAt s.chain.phase = some cmd) (hok : outcome.error? cmd = none) :
    Trans conf s (s.ranCmd cmd outcome [] (advanceStopIndex s.chain.phase))
  | skip {cmd outcome e} (hcontrol : s.control = .stepping ∨ ∃ t, s.control = .awaitingHelper cmd t)
    (hcmd : conf.cmdAt s.chain.phase = some cmd) (herr : outcome.error? cmd = some e) :
    Trans conf s (s.ranCmd cmd outcome [e] (skipCurrentStopPhase s.chain.phase))
  | next {idx} (hcontrol : s.control = .stepping) (hphase : s.chain.phase = .execStop idx)
    (hlast : conf.stop[idx]? = none) :
    Trans conf s { s with chain := { s.chain with phase := .awaitMainExit } }
  | signalled {pid timeout} (hcontrol : s.control = .stepping)
    (hphase : s.chain.phase = .awaitMainExit) :
    Trans conf s { s.markStopping with control := .awaitingMain pid timeout }
  | noSignal {outcome} (hcontrol : s.control = .stepping) (hphase : s.chain.phase = .awaitMainExit)
    (hok : (Entry.terminated outcome).error? = none) :
    Trans conf s (s.markStopping.terminated outcome [])
  | mainOver {pid timeout outcome} (hcontrol : s.control = .awaitingMain pid timeout) :
    Trans conf s (s.terminated outcome (Entry.terminated outcome).error?.toList)
  | finalize {idx} (hcontrol : s.control = .stepping) (hphase : s.chain.phase = .poststop idx)
    (hlast : conf.stoppost[idx]? = none) : Trans conf s s.finalize

theorem turn_trans {conf : ServiceConfig} {s s' : State} {e : Event}
    (hcontrol : s.control = .stepping) (h : s.turn (Host.ofService conf) e = some s') :
    Trans conf s s' := by
  replace h : s.serviceTurn conf false e = some s' := h
  unfold State.serviceTurn at h
  rcases action_cases conf s.chain.phase with ⟨cmd, hcmd, ha⟩ | ⟨idx, hphase, hlast, ha⟩ |
    ⟨hphase, ha⟩ | ⟨idx, hphase, hlast, ha⟩
  · simp only [ha] at h
    cases e with
    | forked =>
      obtain rfl := Option.some.inj h
      exact .fork hcontrol hcmd
    | forkFailed e =>
      simp only [State.forkHelper] at h
      by_cases hm : cmd.ignoresFailure
      · rw [if_pos hm] at h
        obtain rfl := Option.some.inj h
        exact .advance (.inl hcontrol) hcmd (if_pos hm)
      · rw [if_neg hm] at h
        obtain rfl := Option.some.inj h
        exact .skip (.inl hcontrol) hcmd (if_neg hm)
    | _ => simp [State.forkHelper] at h
  · simp only [ha] at h
    split at h <;> cases h
    exact .next hcontrol hphase hlast
  · simp only [ha] at h
    cases e with
    | term main sent =>
      simp only [State.initiateTerm] at h
      split at h <;> obtain rfl := Option.some.inj h
      · exact .signalled hcontrol hphase
      · exact .noSignal hcontrol hphase rfl
      · exact .noSignal hcontrol hphase rfl
    | _ => simp [State.initiateTerm] at h
  · simp only [ha] at h
    split at h <;> cases h
    exact .finalize hcontrol hphase hlast

theorem Inv.step_trans {conf : ServiceConfig} {s s' : State} {e : Event} (hinv : Inv conf s)
    (h : step (Host.ofService conf) s e = some s') : Trans conf s s' := by
  unfold step at h
  cases hcontrol : s.control with
  | stepping =>
    rw [hcontrol] at h
    exact turn_trans hcontrol h
  | awaitingHelper cmd timeout =>
    have hcmd : conf.cmdAt s.chain.phase = some cmd := (hcontrol ▸ hinv.shape).cmdAt
    have hc : s.control = .stepping ∨ ∃ t, s.control = .awaitingHelper cmd t :=
      .inr ⟨timeout, hcontrol⟩
    rw [hcontrol] at h
    cases e with
    | helperExited termination =>
      simp only [State.helperOver] at h
      by_cases hok : (termination.success || cmd.ignoresFailure) = true
      · rw [if_pos hok] at h
        obtain rfl := Option.some.inj h
        exact .advance hc hcmd (if_pos hok)
      · rw [if_neg hok] at h
        obtain rfl := Option.some.inj h
        exact .skip hc hcmd (if_neg hok)
    | helperTimedOut =>
      simp only [State.helperOver] at h
      split at h <;> cases h
      exact .skip hc hcmd rfl
    | _ => simp [State.helperOver] at h
  | awaitingMain pid timeout =>
    rw [hcontrol] at h
    cases e with
    | mainExited =>
      cases h
      exact @Trans.mainOver conf s pid timeout .mainExited hcontrol
    | mainTimedOut =>
      simp only [State.mainOver] at h
      split at h <;> cases h
      exact @Trans.mainOver conf s pid timeout .mainTimedOut hcontrol
    | _ => simp [State.mainOver] at h
  | finished => rw [hcontrol] at h; cases h

@[simp] theorem markStopping_chain (s : State) : s.markStopping.chain = s.chain := by
  unfold State.markStopping
  split <;> rfl

@[simp] theorem markStopping_log (s : State) : s.markStopping.log = s.log := by
  unfold State.markStopping
  split <;> rfl

theorem Shape.terminated {conf : ServiceConfig} {control : Control} {log : List Entry}
    (h : Shape conf .awaitMainExit control log) (hcontrol : control ≠ .finished)
    (outcome : TermOutcome) :
    Shape conf (.poststop 0) .stepping (log ++ [.terminated outcome]) := by
  cases h with
  | term h | main h => exact Shape.post h (clean_zero conf.stoppost)
  | finished => exact absurd rfl hcontrol

theorem Shape.awaitMainExit {conf : ServiceConfig} {phase : StopPhase} {pid : Pid}
    {timeout : Option ℕ} {log : List Entry} (h : Shape conf phase (.awaitingMain pid timeout) log) :
    phase = .awaitMainExit := by
  cases h
  rfl

/-- The next command is forked. -/
theorem Shape.fork {conf : ServiceConfig} {phase : StopPhase} {log : List Entry}
    {cmd : Commandline} {timeout : Option ℕ} (h : Shape conf phase .stepping log)
    (hcmd : conf.cmdAt phase = some cmd) : Shape conf phase (.awaitingHelper cmd timeout) log := by
  cases h with
  | stop hclean => exact .stopHelper hclean hcmd
  | term => cases hcmd
  | post hclosed hclean => exact .postHelper hclosed hclean hcmd
  | postSkipped => rw [cmdAt_skipped] at hcmd; cases hcmd

/-- No ExecStop= command is left. -/
theorem Shape.next {conf : ServiceConfig} {idx : ℕ} {log : List Entry}
    (h : Shape conf (.execStop idx) .stepping log) (hlast : conf.stop[idx]? = none) :
    Shape conf .awaitMainExit .stepping log := by
  cases h with
  | stop hclean => exact .term (hclean.closed hlast)

/-- The main process is signalled. -/
theorem Shape.signalled {conf : ServiceConfig} {pid : Pid} {timeout : Option ℕ} {log : List Entry}
    (h : Shape conf .awaitMainExit .stepping log) :
    Shape conf .awaitMainExit (.awaitingMain pid timeout) log := by
  cases h with
  | term hclosed => exact .main hclosed

/-- No ExecStopPost= command is left. -/
theorem Shape.finalized {conf : ServiceConfig} {phase : StopPhase} {idx : ℕ} {log : List Entry}
    (h : Shape conf (.poststop idx) .stepping log) (hlast : conf.stoppost[idx]? = none) :
    Shape conf phase .finished (log ++ [.finalized]) := by
  cases h with
  | post hclosed hclean => exact .finished hclosed (hclean.closed hlast)
  | postSkipped hclosed hpost => exact .finished hclosed hpost

/-- One more entry, with its error. -/
theorem Inv.errors_append {conf : ServiceConfig} {s : State} (h : Inv conf s) (entry : Entry) :
    s.chain.errors ++ entry.error?.toList = (s.log ++ [entry]).filterMap Entry.error? := by
  rw [List.filterMap_append, h.errors]
  cases he : entry.error? <;> simp [he]

/-- Every step keeps the invariant. -/
theorem Inv.trans {conf : ServiceConfig} {s s' : State} (h : Inv conf s) (ht : Trans conf s s') :
    Inv conf s' := by
  have hrun : ∀ {cmd}, (s.control = .stepping ∨ ∃ t, s.control = .awaitingHelper cmd t) →
      s.control ≠ .finished := by
    rintro cmd (hc | ⟨t, hc⟩) hfin
    · rw [hc] at hfin; cases hfin
    · rw [hc] at hfin; cases hfin
  cases ht with
  | fork hcontrol hcmd =>
    have hshape := h.shape
    rw [hcontrol] at hshape
    exact ⟨hshape.fork hcmd, h.errors, fun hfin => by cases hfin⟩
  | @advance cmd outcome hcontrol hcmd hok =>
    refine ⟨h.shape.advance (hrun hcontrol) hcmd hok, ?_, fun hfin => by cases hfin⟩
    have := h.errors_append (.ran s.chain.phase.stage cmd outcome)
    rwa [Entry.error?, hok] at this
  | @skip cmd outcome e hcontrol hcmd herr =>
    refine ⟨h.shape.skip (hrun hcontrol) hcmd herr, ?_, fun hfin => by cases hfin⟩
    have := h.errors_append (.ran s.chain.phase.stage cmd outcome)
    rwa [Entry.error?, herr] at this
  | @next idx hcontrol hphase hlast =>
    refine ⟨?_, h.errors, fun hfin => h.status hfin⟩
    have hshape := h.shape
    rw [hcontrol, hphase] at hshape
    show Shape conf .awaitMainExit s.control s.log
    rw [hcontrol]
    exact hshape.next hlast
  | signalled hcontrol hphase =>
    refine ⟨?_, by simpa using h.errors, fun hfin => by cases hfin⟩
    have hshape := h.shape
    rw [hcontrol, hphase] at hshape
    show Shape conf s.markStopping.chain.phase _ s.markStopping.log
    rw [markStopping_chain, markStopping_log, hphase]
    exact hshape.signalled
  | @noSignal outcome hcontrol hphase hok =>
    have hne : s.control ≠ .finished := by rw [hcontrol]; exact fun hc => by cases hc
    have hshape := (hphase ▸ h.shape).terminated hne outcome
    refine ⟨?_, ?_, fun hfin => by cases hfin⟩
    · simpa only [State.terminated, markStopping_log] using hshape
    · have := h.errors_append (.terminated outcome)
      rw [hok, Option.toList_none] at this
      simpa only [State.terminated, markStopping_log, markStopping_chain] using this
  | @mainOver pid timeout outcome hcontrol =>
    have hphase : s.chain.phase = .awaitMainExit := (hcontrol ▸ h.shape).awaitMainExit
    have hne : s.control ≠ .finished := by rw [hcontrol]; exact fun hc => by cases hc
    exact ⟨(hphase ▸ h.shape).terminated hne outcome, h.errors_append (.terminated outcome),
      fun hfin => by cases hfin⟩
  | @finalize idx hcontrol hphase hlast =>
    refine ⟨?_, ?_, fun _ => ⟨rfl, rfl⟩⟩
    · have hshape := h.shape
      rw [hcontrol, hphase] at hshape
      exact hshape.finalized hlast
    · have := h.errors_append .finalized
      rwa [Entry.error?, Option.toList_none, List.append_nil] at this

/-- How many steps a chain can still take. -/
def remaining (conf : ServiceConfig) (s : State) : ℕ :=
  match s.control, s.chain.phase with
  | .stepping, .execStop idx => 2 * (conf.stop.length - idx) + 2 * conf.stoppost.length + 4
  | .awaitingHelper .., .execStop idx =>
    2 * (conf.stop.length - idx) + 2 * conf.stoppost.length + 3
  | .stepping, .awaitMainExit => 2 * conf.stoppost.length + 3
  | .stepping, .poststop idx => 2 * (conf.stoppost.length - idx) + 1
  | .awaitingHelper .., .poststop idx => 2 * (conf.stoppost.length - idx)
  | .awaitingMain .., _ => 2 * conf.stoppost.length + 2
  | _, _ => 0

theorem cmdAt_lt {conf : ServiceConfig} {cmd : Commandline} :
    ∀ {phase : StopPhase}, conf.cmdAt phase = some cmd →
      (∃ idx < conf.stop.length, phase = .execStop idx) ∨
      (∃ idx < conf.stoppost.length, phase = .poststop idx)
  | .execStop idx, h => .inl ⟨idx, (List.getElem?_eq_some_iff.mp h).1, rfl⟩
  | .poststop idx, h => .inr ⟨idx, (List.getElem?_eq_some_iff.mp h).1, rfl⟩

theorem remaining_trans {conf : ServiceConfig} {s s' : State} (ht : Trans conf s s') :
    remaining conf s' + 1 ≤ remaining conf s := by
  have hpost := conf.stoppost_le
  cases ht with
  | fork hcontrol hcmd =>
    obtain ⟨idx, hlt, hphase⟩ | ⟨idx, hlt, hphase⟩ := cmdAt_lt hcmd
    · simp only [remaining, hcontrol, hphase]
      omega
    · simp only [remaining, hcontrol, hphase]
      omega
  | advance hcontrol hcmd | skip hcontrol hcmd =>
    obtain ⟨idx, hlt, hphase⟩ | ⟨idx, hlt, hphase⟩ := cmdAt_lt hcmd <;>
    obtain hcontrol | ⟨t, hcontrol⟩ := hcontrol <;>
    simp only [remaining, State.ranCmd, advanceStopIndex, skipCurrentStopPhase, hcontrol,
      hphase] <;>
    omega
  | next hcontrol hphase =>
    simp only [remaining, hcontrol, hphase]
    omega
  | signalled hcontrol hphase =>
    simp only [remaining, hcontrol, hphase]
    omega
  | noSignal hcontrol hphase =>
    simp only [remaining, State.terminated, hcontrol, hphase]
    omega
  | mainOver hcontrol =>
    simp only [remaining, State.terminated, hcontrol]
    omega
  | finalize hcontrol hphase =>
    simp only [remaining, State.finalize, hcontrol, hphase]
    omega

theorem initiateTerm_isSome (s : State) (conf : ServiceConfig) (main : MainProcess)
    (sent : KillResult) : (s.initiateTerm conf (.term main sent)).isSome := by
  unfold State.initiateTerm
  dsimp only
  split <;> rfl

/-- A chain that is not finished has an event that it can take. -/
theorem exists_step (conf : ServiceConfig) (s : State) (h : s.control ≠ .finished) :
    ∃ e, (step (Host.ofService conf) s e).isSome := by
  unfold step
  cases hcontrol : s.control with
  | stepping =>
    show ∃ e, (s.serviceTurn conf false e).isSome
    unfold State.serviceTurn
    rcases action_cases conf s.chain.phase with ⟨cmd, -, ha⟩ | ⟨idx, -, -, ha⟩ | ⟨-, ha⟩ |
      ⟨idx, -, -, ha⟩
    · exact ⟨.forked, by rw [ha]; rfl⟩
    · exact ⟨.tick, by rw [ha]; rfl⟩
    · exact ⟨.term {} .ok, by rw [ha]; exact initiateTerm_isSome s conf _ _⟩
    · exact ⟨.tick, by rw [ha]; rfl⟩
  | awaitingHelper cmd timeout =>
    exact ⟨.helperExited (.exit 0), rfl⟩
  | awaitingMain pid timeout => exact ⟨.mainExited, rfl⟩
  | finished => exact absurd hcontrol h

/-! ## Runs -/

theorem entries_actions (stage : Stage) (runs : Runs) :
    (entries stage runs).map Entry.action = (runs.map Prod.fst).map (StopAction.run stage) := by
  simp [entries, Entry.action, Function.comp_def]

theorem pastTerm_actions (stop : Runs) (o : TermOutcome) (post : Runs) :
    (pastTerm stop o post).map Entry.action = (stop.map Prod.fst).map (StopAction.run .stop) ++
      (.terminate :: (post.map Prod.fst).map (StopAction.run .poststop)) := by
  rw [pastTerm, List.map_append, List.map_cons, entries_actions, entries_actions]
  rfl

theorem inOrder_nil (cmds : List Commandline) : InOrder cmds [] := (clean_zero cmds).inOrder

theorem Shape.stages {conf : ServiceConfig} {s : State}
    (h : Shape conf s.chain.phase s.control s.log) :
    ∃ stop term post fin, Stages conf s stop term post fin := by
  obtain ⟨⟨phase, errors⟩, control, status, statusErrors, log⟩ := s
  dsimp only at h
  cases h with
  | @stop _ runs h =>
    exact ⟨runs, none, [], false, by simp [entries], h.inOrder, inOrder_nil _,
      by simp [State.begun, State.inFlight, entries_actions],
      by simp [State.begun, State.inFlight, entries_actions], by simp, by simp⟩
  | @stopHelper _ runs _ _ h =>
    exact ⟨runs, none, [], false, by simp [entries], h.inOrder, inOrder_nil _,
      by simp [State.begun, State.inFlight, entries_actions],
      by simp [State.begun, State.inFlight, entries_actions, StopPhase.stage], by simp, by simp⟩
  | @term runs h =>
    exact ⟨runs, none, [], false, by simp [entries], h.toInOrder, inOrder_nil _, fun _ => h.ended,
      by simp [State.begun, State.inFlight, entries_actions], by simp, by simp⟩
  | @main runs _ _ h =>
    exact ⟨runs, none, [], false, by simp [entries], h.toInOrder, inOrder_nil _, fun _ => h.ended,
      by simp [State.begun, State.inFlight, entries_actions], by simp, by simp⟩
  | @post _ runs o posts h hpost | @postHelper _ runs o posts _ _ h hpost _ =>
    exact ⟨runs, some o, posts, false, by simp [pastTerm], h.toInOrder, hpost.inOrder,
      fun _ => h.ended, fun _ _ => rfl, by simp, by simp⟩
  | @postSkipped runs o posts h hpost =>
    exact ⟨runs, some o, posts, false, by simp [pastTerm], h.toInOrder, hpost.toInOrder,
      fun _ => h.ended, fun _ _ => rfl, by simp, by simp⟩
  | @finished _ runs o posts h hpost =>
    exact ⟨runs, some o, posts, true, by simp [pastTerm], h.toInOrder, hpost.toInOrder,
      fun _ => h.ended, fun _ _ => rfl, by simp, fun _ => ⟨rfl, hpost.ended⟩⟩

/-- A stage runs a part of its commands, in order. -/
theorem InOrder.sublist {cmds : List Commandline} {runs : Runs} (h : InOrder cmds runs)
    (stage : Stage) :
    ((runs.map Prod.fst).map (StopAction.run stage)).Sublist (cmds.map (StopAction.run stage)) :=
  h.initial.sublist.map _

/-- The same with the command that is running. -/
theorem Clean.sublist_helper {cmds : List Commandline} {idx : ℕ} {runs : Runs} {cmd : Commandline}
    (h : Clean cmds idx runs) (hcmd : cmds[idx]? = some cmd) (stage : Stage) :
    ((runs.map Prod.fst).map (StopAction.run stage) ++ [StopAction.run stage cmd]).Sublist
      (cmds.map (StopAction.run stage)) := by
  have h' := h.map_append hcmd .timedOut
  rw [List.map_append, List.map_singleton] at h'
  rw [show [StopAction.run stage cmd] = [cmd].map (StopAction.run stage) from rfl,
    ← List.map_append, h']
  exact (List.take_sublist _ _).map _

/-- What a chain has begun is a part of the plan. -/
theorem Shape.order {conf : ServiceConfig} {s : State}
    (h : Shape conf s.chain.phase s.control s.log) : s.begun.Sublist conf.plan := by
  obtain ⟨⟨phase, errors⟩, control, status, statusErrors, log⟩ := s
  dsimp only at h
  unfold State.begun ServiceConfig.plan
  cases h with
  | stop h =>
    rw [entries_actions]
    exact (h.inOrder.sublist _).append (List.nil_sublist _)
  | stopHelper h hcmd =>
    rw [entries_actions]
    exact (h.sublist_helper hcmd _).trans (List.sublist_append_left _ _)
  | term h =>
    rw [entries_actions]
    exact (h.sublist _).append (List.nil_sublist _)
  | main h =>
    rw [entries_actions]
    exact (h.sublist _).append ((List.nil_sublist _).cons_cons _)
  | post h hpost =>
    rw [pastTerm_actions, List.append_assoc]
    refine (h.sublist _).append (List.Sublist.cons_cons _ ?_)
    exact (hpost.inOrder.sublist _).append (List.nil_sublist _)
  | postHelper h hpost hcmd =>
    rw [pastTerm_actions, List.append_assoc]
    refine (h.sublist _).append (List.Sublist.cons_cons _ ?_)
    exact (hpost.sublist_helper hcmd _).trans (List.sublist_append_left _ _)
  | postSkipped h hpost =>
    rw [pastTerm_actions, List.append_assoc]
    refine (h.sublist _).append (List.Sublist.cons_cons _ ?_)
    exact (hpost.sublist _).append (List.nil_sublist _)
  | finished h hpost =>
    rw [List.map_append, pastTerm_actions, List.append_assoc, List.append_assoc]
    refine (h.sublist _).append (List.Sublist.cons_cons _ ?_)
    rw [State.inFlight, List.append_nil]
    exact (hpost.sublist _).append (List.Sublist.refl _)

theorem Inv.chainSpec {conf : ServiceConfig} {s : State} (h : Inv conf s) : ChainSpec conf s :=
  ⟨h.shape.order, h.shape.stages, h.errors, h.status⟩

/-- Whatever the commands and the main process do, the chain of a loaded, unmasked service
    does what `ChainSpec` says, takes an event until it is finished, and is finished after
    finitely many. -/
theorem stopChain_spec (conf : ServiceConfig) (status : UnitStatus) (statusErrors : List String)
    {events : List Event} {s : State}
    (hs : run (step (Host.ofService conf)) (State.initial status statusErrors) events = some s) :
    ChainSpec conf s ∧
    s.begun.length ≤ conf.stop.length + conf.stoppost.length + 2 ∧
    (s.control ≠ .finished → ∃ e, (step (Host.ofService conf) s e).isSome) ∧
    events.length ≤ 2 * (conf.stop.length + conf.stoppost.length) + 4 := by
  have hinv : Inv conf s :=
    run_inv (fun _ _ _ h hs' => h.trans (h.step_trans hs')) events
      (inv_initial conf status statusErrors) hs
  have hspec := hinv.chainSpec
  refine ⟨hspec, ?_, exists_step conf s, ?_⟩
  · have := hspec.order.length_le
    simp only [ServiceConfig.plan, List.length_append, List.length_map, List.length_cons,
      List.length_nil] at this
    omega
  · have := run_length_add_le (μ := remaining conf)
      (fun _ _ _ h hs' => ⟨h.trans (h.step_trans hs'), remaining_trans (h.step_trans hs')⟩) events
      (inv_initial conf status statusErrors) hs
    simp only [remaining, State.initial] at this
    omega

/-- Two ExecStop= commands, the first with a `-`. -/
def ignoredFirst : ServiceConfig where
  stop := [{ cmd := "/bin/a", prefixes := [.minus] }, { cmd := "/bin/b" }]
  stoppost := [{ cmd := "/bin/c" }]

/-- The first command times out, nothing is alive, the ExecStopPost= command succeeds. -/
def ignoredFirstEvents : List Event :=
  [.forked, .helperTimedOut, .term {} .ok, .forked, .helperExited (.exit 0), .tick]

theorem stopChain_spec_ignoredFirst :
    ∃ s, run (step (Host.ofService ignoredFirst)) (State.initial (.started .running) [])
        ignoredFirstEvents = some s ∧ s.control = .finished ∧ ChainSpec ignoredFirst s := by
  refine ⟨_, Option.some_get (show Option.isSome _ by decide) |>.symm, ?_, ?_⟩
  · decide
  · exact (stopChain_spec ignoredFirst (.started .running) []
      (Option.some_get (show Option.isSome _ by decide) |>.symm)).1

/-- No command without a `-` fails, but a command is skipped and an error recorded. -/
theorem stopChain_ignored_timeout :
    ∃ s, run (step (Host.ofService ignoredFirst)) (State.initial (.started .running) [])
        ignoredFirstEvents = some s ∧ s.control = .finished ∧
      s.log = [.ran .stop { cmd := "/bin/a", prefixes := [.minus] } .timedOut,
        .terminated .nothingAlive, .ran .poststop { cmd := "/bin/c" } (.exited (.exit 0)),
        .finalized] ∧
      s.chain.errors = ["-/bin/a timed out"] := by
  refine ⟨_, Option.some_get (show Option.isSome _ by decide) |>.symm, ?_, ?_, ?_⟩
  · decide
  · decide
  · decide

end OxidizedSystemd.Units.StopChain
