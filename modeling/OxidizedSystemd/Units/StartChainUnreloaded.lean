import OxidizedSystemd.Units.StartChainRuns
import Mathlib.Data.List.Forall2
import Mathlib.Data.List.TakeDrop

/-!
# A deferred start whose unit is not reloaded

As long as the configuration of the unit stays as it is, the main process is forked only
after all the commands in front of it succeeded. The chain of a oneshot service finds its
place by the text of the command that ran (`relocate`), so two preliminary commands with
the same text keep it from ever getting past the second one.

* `Logged`: how the log goes with where the start is.
* `main_after_helpers`: what ran before the main process.
* `poststop_never_ends`: an ExecStopPost= command that cannot be spawned.
* `poststart_runs_twice`: a service without a start wait runs ExecStartPost= twice.
-/

namespace OxidizedSystemd.Units.StartChain

open OxidizedSystemd.Jobs (ActivationSource Instant)
open OxidizedSystemd.Lib
open OxidizedSystemd.Units.StopChain (ChildTermination CmdOutcome Commandline)

variable {s s' s₀ : State} {e : Event} {conf : ServiceConfig} {lo : ℕ}

/-! ## The log -/

/-- Another thread leaves the configuration of the unit and the place of the chain alone. -/
def KeepsConf (s : State) : Event → Prop
  | .world host =>
    host.unit = s.host.unit ∧ host.srvc.currentExecArgv = s.host.srvc.currentExecArgv
  | _ => True

/-- The commands ran, one after the other, and each let the start go on. -/
def Done (stage : Stage) (cmds : List Commandline) (log : List Entry) : Prop :=
  List.Forall₂ (fun cmd x => ∃ o, x = .ran stage cmd o ∧ succeeds cmd o = true) cmds log

/-- A oneshot service with preliminary commands. -/
def ServiceConfig.isMultiOneshot (conf : ServiceConfig) : Prop :=
  conf.srcvType = .oneShot ∧ 1 < conf.exec.length

instance : DecidablePred ServiceConfig.isMultiOneshot :=
  fun conf => inferInstanceAs (Decidable (conf.srcvType = .oneShot ∧ 1 < conf.exec.length))

/-- The preliminary commands of a service. -/
def ServiceConfig.preliminary (conf : ServiceConfig) : List Commandline :=
  if conf.isMultiOneshot then conf.exec.dropLast else []

/-- The texts of the preliminary commands are different from each other. -/
def ServiceConfig.distinct (conf : ServiceConfig) : Prop :=
  (conf.preliminary.map Commandline.display).Nodup

/-- All the conditions hold and all the ExecStartPre= commands succeeded. -/
def Helped (conf : ServiceConfig) (log : List Entry) : Prop :=
  ∃ conds pres, log = conds ++ pres ∧ Done .condition conf.execCondition conds ∧
    Done .prestart conf.startpre pres

/-- The main process is forked after everything in front of it, if it is forked. -/
def Sound (conf : ServiceConfig) (log : List Entry) : Prop :=
  (∀ err, .main err ∉ log) ∨
    ∃ helpers prelims err rest, log = helpers ++ prelims ++ .main err :: rest ∧
      Helped conf helpers ∧ Done .prelim conf.preliminary prelims ∧ conf.distinct ∧
      ∀ x ∈ rest, 4 ≤ x.rank

/-- Where the chain of a oneshot service is: at the command `k`, behind no command whose text
    came before. -/
structure AtPrelim (conf : ServiceConfig) (argv : Option String) (prelims : List Entry)
    (k : ℕ) : Prop where
  place : relocate conf.exec argv = some k
  stuck : ∀ p j (hpj : p < j) (hj : j < conf.preliminary.length),
    (conf.preliminary[p]).display = (conf.preliminary[j]).display → k ≤ j
  done : conf.distinct → Done .prelim (conf.preliminary.take k) prelims
  commands : ∀ x ∈ prelims, x.rank = 2

/-- The log of the chain of a oneshot service. -/
def PrelimLog (conf : ServiceConfig) (argv : Option String) (log : List Entry) : Prop :=
  conf.isMultiOneshot ∧ ∃ helpers prelims k, log = helpers ++ prelims ∧ Helped conf helpers ∧
    AtPrelim conf argv prelims k

/-- The log of a chain in a phase. -/
def PhaseLog (conf : ServiceConfig) : StartChainPhase → List Entry → Prop
  | .condition idx, log => Done .condition (conf.execCondition.take idx) log
  | .prestart idx, log =>
    ∃ conds pres, log = conds ++ pres ∧ Done .condition conf.execCondition conds ∧
      Done .prestart (conf.startpre.take idx) pres
  | .poststopAfterError .., log => Sound conf log

/-- The command of a phase in front of the main process. -/
def ServiceConfig.cmdAt (conf : ServiceConfig) : StartChainPhase → Option Commandline
  | .condition idx => conf.execCondition[idx]?
  | .prestart idx => conf.startpre[idx]?
  | .poststopAfterError .. => none

/-- How the log goes with where the start is. -/
def ControlLog (conf : ServiceConfig) (argv : Option String) (log : List Entry) : Control → Prop
  | .stepping phase => PhaseLog conf phase log
  | .helper (.poststopAfterError ..) .. => Sound conf log
  | .helper phase cmd .. => PhaseLog conf phase log ∧ conf.cmdAt phase = some cmd
  | .oneshot => PrelimLog conf argv log
  | .oneshotHelper cmd .. =>
    argv = some cmd.display ∧ ∃ before k, PrelimLog conf before log ∧
      relocate conf.exec before = some k ∧ conf.preliminary[k]? = some cmd
  | _ => Sound conf log

theorem done_nil (stage : Stage) : Done stage [] [] := List.Forall₂.nil

/-- One more command that lets the start go on. -/
theorem Done.take_succ {stage : Stage} {cmds : List Commandline} {idx : ℕ} {cmd : Commandline}
    {log : List Entry} {outcome : CmdOutcome} (h : Done stage (cmds.take idx) log)
    (hcmd : cmds[idx]? = some cmd) (hok : succeeds cmd outcome = true) :
    Done stage (cmds.take (idx + 1)) (log ++ [.ran stage cmd outcome]) := by
  rw [List.take_add_one, hcmd]
  exact List.rel_append h (List.Forall₂.cons ⟨outcome, rfl, hok⟩ List.Forall₂.nil)

theorem Done.of_take {stage : Stage} {cmds : List Commandline} {idx : ℕ} {log : List Entry}
    (h : Done stage (cmds.take idx) log) (hend : cmds[idx]? = none) : Done stage cmds log := by
  rwa [List.take_of_length_le (List.getElem?_eq_none_iff.mp hend)] at h

theorem Done.exists_ran {stage : Stage} {cmds : List Commandline} {log : List Entry}
    (h : Done stage cmds log) {x : Entry} (hx : x ∈ log) : ∃ cmd o, x = .ran stage cmd o := by
  induction h with
  | nil => exact absurd hx List.not_mem_nil
  | cons hone _ ih =>
    rcases List.mem_cons.mp hx with rfl | hx
    · obtain ⟨o, heq, -⟩ := hone
      exact ⟨_, o, heq⟩
    · exact ih hx

theorem preliminary_eq (h : conf.isMultiOneshot) : conf.preliminary = conf.exec.dropLast :=
  if_pos h

theorem atPrelim_begin (conf : ServiceConfig) : AtPrelim conf none [] 0 where
  place := rfl
  stuck p j hpj hj _ := Nat.zero_le j
  done _ := done_nil .prelim
  commands := by simp

/-- Behind the command that ran, the chain finds its place again, or falls back to the place
    behind an earlier command with the same text. -/
theorem AtPrelim.advance {argv : Option String} {prelims : List Entry} {k : ℕ}
    {cmd : Commandline} {outcome : CmdOutcome} (hmulti : conf.isMultiOneshot)
    (h : AtPrelim conf argv prelims k) (hcmd : conf.preliminary[k]? = some cmd)
    (hok : succeeds cmd outcome = true) :
    ∃ k', AtPrelim conf (some cmd.display) (prelims ++ [.ran .prelim cmd outcome]) k' ∧
      (conf.distinct → k' = k + 1) := by
  obtain ⟨hk, hget⟩ := List.getElem?_eq_some_iff.mp hcmd
  have hexec : k < conf.exec.length := by
    rw [preliminary_eq hmulti, List.length_dropLast] at hk
    omega
  have hcmdAt : conf.exec[k] = cmd := by
    rw [← hget]
    simp [preliminary_eq hmulti, List.getElem_dropLast]
  obtain ⟨i, hi⟩ : ∃ i, conf.exec.findIdx? (fun c => c.display = cmd.display) = some i := by
    refine Option.isSome_iff_exists.mp (List.findIdx?_isSome.trans (List.any_eq_true.mpr ?_))
    exact ⟨cmd, hcmdAt ▸ List.getElem_mem hexec, by simp⟩
  obtain ⟨hilen, hidisp, hfirst⟩ := List.findIdx?_eq_some_iff_getElem.mp hi
  simp only [decide_eq_true_eq] at hidisp hfirst
  have hik : i ≤ k := by
    by_contra hlt
    exact hfirst k (by omega) (by rw [hcmdAt])
  have hpre : ∀ p (hp : p < conf.preliminary.length) (hp' : p < conf.exec.length),
      conf.preliminary[p] = conf.exec[p] := by
    intro p hp hp'
    simp [preliminary_eq hmulti, List.getElem_dropLast]
  have hsame : conf.distinct → i = k := by
    intro hdistinct
    have hinj := @List.Nodup.getElem_inj_iff _ _ hdistinct i (by rw [List.length_map]; omega) k
      (by rw [List.length_map]; omega)
    refine hinj.mp ?_
    rw [List.getElem_map, List.getElem_map, hpre i (by omega) hilen, hget, hidisp]
  refine ⟨i + 1, ⟨by simp [relocate, hi], ?_, ?_, ?_⟩, fun hd => by rw [hsame hd]⟩
  · intro p j hpj hj hsame
    have hkj := h.stuck p j hpj hj hsame
    rcases hkj.lt_or_eq with hkj | rfl
    · omega
    · -- The command `k` itself has a text that came before, so its place is not behind it.
      have hip : i ≤ p := by
        by_contra hlt
        refine hfirst p (by omega) ?_
        rw [← hpre p (by omega) (by omega), hsame, hpre k hj hexec, hcmdAt]
      omega
  · intro hdistinct
    rw [hsame hdistinct]
    exact (h.done hdistinct).take_succ hcmd hok
  · intro x hx
    rcases List.mem_append.mp hx with hx | hx
    · exact h.commands x hx
    · rw [List.mem_singleton.mp hx]
      rfl

theorem Sound.append {log new : List Entry} (h : Sound conf log) (hnew : ∀ x ∈ new, 4 ≤ x.rank) :
    Sound conf (log ++ new) := by
  rcases h with h | ⟨helpers, prelims, err, rest, rfl, hhelped, hprelims, hdistinct, hrest⟩
  · refine .inl fun err hmem => ?_
    rcases List.mem_append.mp hmem with hmem | hmem
    · exact h err hmem
    · exact absurd (hnew _ hmem) (by show ¬ 4 ≤ 3; omega)
  · refine .inr ⟨helpers, prelims, err, rest ++ new, ?_, hhelped, hprelims, hdistinct, ?_⟩
    · simp
    · intro x hx
      rcases List.mem_append.mp hx with hx | hx
      · exact hrest x hx
      · exact hnew x hx

theorem Sound.grows (h : Sound conf s.log) (hg : Grows lo s s') (hlo : 4 ≤ lo) :
    Sound conf s'.log := by
  obtain ⟨new, hlog, hblock, -⟩ := hg
  rw [hlog]
  exact h.append fun x hx => hlo.trans (hblock.low x hx)

/-- Past the main process only the soundness of the log is left to say. -/
theorem controlLog_of_sound {argv : Option String} {log : List Entry} {control : Control}
    (h : Sound conf log) (hrank : 4 ≤ control.rank) : ControlLog conf argv log control := by
  cases control with
  | stepping phase =>
    cases phase with
    | poststopAfterError idx error => exact h
    | _ => simp [Control.rank] at hrank
  | helper phase =>
    cases phase with
    | poststopAfterError idx error => exact h
    | _ => simp [Control.rank] at hrank
  | oneshot => simp [Control.rank] at hrank
  | oneshotHelper => simp [Control.rank] at hrank
  | _ => exact h

theorem Done.noMain {stage : Stage} {cmds : List Commandline} {log : List Entry}
    (h : Done stage cmds log) (err : Option RunCmdError) : .main err ∉ log := by
  intro hmem
  obtain ⟨cmd, o, heq⟩ := h.exists_ran hmem
  cases heq

theorem Helped.noMain {log : List Entry} (h : Helped conf log) (err : Option RunCmdError) :
    .main err ∉ log := by
  obtain ⟨conds, pres, rfl, hconds, hpres⟩ := h
  rw [List.mem_append]
  exact not_or.mpr ⟨hconds.noMain err, hpres.noMain err⟩

theorem PrelimLog.noMain {argv : Option String} {log : List Entry} (h : PrelimLog conf argv log)
    (err : Option RunCmdError) : .main err ∉ log := by
  obtain ⟨-, helpers, prelims, k, rfl, hhelped, hat⟩ := h
  rw [List.mem_append]
  refine not_or.mpr ⟨hhelped.noMain err, fun hmem => ?_⟩
  exact absurd (hat.commands _ hmem) (by show ¬ 3 = 2; omega)

theorem PhaseLog.sound {phase : StartChainPhase} {log : List Entry} (h : PhaseLog conf phase log) :
    Sound conf log := by
  cases phase with
  | condition idx => exact .inl (Done.noMain h)
  | prestart idx =>
    obtain ⟨conds, pres, rfl, hconds, hpres⟩ := h
    refine .inl fun err => ?_
    rw [List.mem_append]
    exact not_or.mpr ⟨hconds.noMain err, hpres.noMain err⟩
  | poststopAfterError idx error => exact h

/-- A command in front of the main process, however it ended. -/
theorem Sound.ran {stage : Stage} {cmd : Commandline} {outcome : CmdOutcome} {log : List Entry}
    (h : ∀ err, .main err ∉ log) : Sound conf (log ++ [.ran stage cmd outcome]) :=
  .inl fun err => by simpa using h err

/-- The next command of a phase let the start go on. -/
theorem PhaseLog.advance {phase : StartChainPhase} {log : List Entry} {cmd : Commandline}
    {outcome : CmdOutcome} (h : PhaseLog conf phase log) (hcmd : conf.cmdAt phase = some cmd)
    (hok : succeeds cmd outcome = true) :
    PhaseLog conf phase.advance (log ++ [.ran phase.stage cmd outcome]) := by
  cases phase with
  | condition idx => exact Done.take_succ h hcmd hok
  | prestart idx =>
    obtain ⟨conds, pres, rfl, hconds, hpres⟩ := h
    exact ⟨conds, _, List.append_assoc .., hconds, hpres.take_succ hcmd hok⟩
  | poststopAfterError idx error => cases hcmd

/-- The fork of a process behind everything that comes in front of it. -/
theorem sound_of_fork {helpers prelims rest : List Entry} {err : Option RunCmdError}
    (hhelped : Helped conf helpers) (hprelims : Done .prelim conf.preliminary prelims)
    (hdistinct : conf.distinct) (hrest : ∀ x ∈ rest, 4 ≤ x.rank) :
    Sound conf (helpers ++ prelims ++ .main err :: rest) :=
  .inr ⟨helpers, prelims, err, rest, rfl, hhelped, hprelims, hdistinct, hrest⟩

/-- The main phase forks behind the helpers, or leaves that to the chain of a oneshot service. -/
theorem startMainPhase_log {helpers : List Entry} (hhelped : Helped conf helpers)
    (a : MainAnswers) (h : Host) :
    ((startMainPhase conf a h).result = .ok .deferredOneshotExec ∧ conf.isMultiOneshot ∧
      (startMainPhase conf a h).log = [] ∧
      (startMainPhase conf a h).host.srvc.currentExecArgv = none) ∨
    (4 ≤ resultRank (startMainPhase conf a h).result ∧
      Sound conf (helpers ++ (startMainPhase conf a h).log)) := by
  have hnone : Sound conf helpers := .inl hhelped.noMain
  have htail : ∀ (h : Host) (log : List Entry), Sound conf (helpers ++ log) →
      4 ≤ resultRank (finishStartTail conf a h log).result ∧
        Sound conf (helpers ++ (finishStartTail conf a h log).log) := by
    intro h log hlog
    obtain ⟨rest, heq, hrest⟩ := finishStartTail_log conf a h log
    rw [heq, ← List.append_assoc]
    refine ⟨(Nat.le_succ 4).trans hrest.le, hlog.append fun x hx => ?_⟩
    exact (Nat.le_succ 4).trans (hrest.low x hx)
  unfold startMainPhase
  split
  · exact .inr ⟨by simp [resultRank], by simpa using hnone⟩
  · split_ifs with hexec hmulti
    · exact .inr (htail h [] (by simpa using hnone))
    · exact .inl ⟨rfl, hmulti, rfl, rfl⟩
    · right
      have hpre : conf.preliminary = [] := if_neg hmulti
      have hdistinct : conf.distinct := by
        rw [ServiceConfig.distinct, hpre]
        exact List.nodup_nil
      obtain ⟨err, rest, hlog, hrest⟩ := forkMain_log conf .deferNotifyWait a h
      have hsound :
          Sound conf (helpers ++ (forkMainAndMaybeDefer conf .deferNotifyWait a h).log) := by
        have : Sound conf (helpers ++ [] ++ .main err :: rest) :=
          sound_of_fork hhelped (hpre ▸ done_nil .prelim) hdistinct hrest.low
        rwa [List.append_nil, ← hlog] at this
      dsimp only
      split <;> rename_i hresult
      · exact ⟨by simp [resultRank], hsound⟩
      · cases forkMain_deferred hresult
        exact ⟨by simp [resultRank], hsound⟩
      · exact htail _ _ hsound

theorem cmdAt_of_action {phase : StartChainPhase} {cmd : Commandline}
    (h : conf.action phase = .fork cmd) (hrank : (Control.stepping phase).rank < 4) :
    conf.cmdAt phase = some cmd := by
  cases phase with
  | condition idx =>
    rw [ServiceConfig.action] at h
    split at h <;> cases h
    assumption
  | prestart idx =>
    rw [ServiceConfig.action] at h
    split at h <;> cases h
    assumption
  | poststopAfterError idx error => simp [Control.rank] at hrank

theorem controlLog_helper {argv : Option String} {log : List Entry} {phase : StartChainPhase}
    {cmd : Commandline} {timeout : Option ℕ} {deadline : Option Instant}
    (hrank : (Control.stepping phase).rank < 4) :
    ControlLog conf argv log (.helper phase cmd timeout deadline) ↔
      PhaseLog conf phase log ∧ conf.cmdAt phase = some cmd := by
  cases phase with
  | poststopAfterError idx error => simp [Control.rank] at hrank
  | _ => exact Iff.rfl

/-- A helper of a phase in front of the main process is over. -/
theorem PhaseLog.noMain {phase : StartChainPhase} {log : List Entry} (h : PhaseLog conf phase log)
    (hrank : (Control.stepping phase).rank < 4) (err : Option RunCmdError) : .main err ∉ log := by
  cases phase with
  | condition idx => exact Done.noMain h err
  | prestart idx =>
    obtain ⟨conds, pres, rfl, hconds, hpres⟩ := h
    rw [List.mem_append]
    exact not_or.mpr ⟨hconds.noMain err, hpres.noMain err⟩
  | poststopAfterError idx error => simp [Control.rank] at hrank

/-- How the log of a start goes with where it is. -/
def Logged (conf : ServiceConfig) (s : State) : Prop :=
  ControlLog conf s.host.srvc.currentExecArgv s.log s.control

/-- Past the main process. -/
theorem Logged.grows (h : Sound conf s.log) (hg : Grows lo s s') (hlo : 4 ≤ lo) :
    Logged conf s' := by
  obtain ⟨new, hlog, hblock, -⟩ := id hg
  exact controlLog_of_sound (h.grows hg hlo) (hlo.trans hblock.le)

theorem logged_runMain {idx : ℕ} {a : MainAnswers} (h : PhaseLog conf (.prestart idx) s.log)
    (hend : conf.startpre[idx]? = none) : Logged conf (s.runMain conf a) := by
  obtain ⟨conds, pres, hlog, hconds, hpres⟩ := h
  have hhelped : Helped conf s.log := ⟨conds, pres, hlog, hconds, hpres.of_take hend⟩
  unfold State.runMain
  dsimp only
  rcases startMainPhase_log hhelped a s.host with ⟨hresult, hmulti, hnew, hargv⟩ | ⟨hrank, hsound⟩
  · rw [hresult, hnew]
    show PrelimLog conf (startMainPhase conf a s.host).host.srvc.currentExecArgv (s.log ++ [])
    rw [hargv]
    exact ⟨hmulti, s.log, [], 0, rfl, hhelped, atPrelim_begin conf⟩
  · split <;> rename_i hresult <;> rw [hresult] at hrank
    · exact Logged.grows hsound (grows_mainDispatched le_rfl) hrank
    · exact Logged.grows hsound (grows_errorToPoststop le_rfl) (by omega)

theorem logged_helperEnd {phase : StartChainPhase} {cmd : Commandline} {outcome : CmdOutcome}
    (h : PhaseLog conf phase s.log) (hcmd : conf.cmdAt phase = some cmd)
    (hrank : (Control.stepping phase).rank < 4)
    (hend : HelperEnd cmd outcome (s.did [.ran phase.stage cmd outcome]) phase s') :
    Logged conf s' := by
  have hsound : Sound conf (s.did [.ran phase.stage cmd outcome]).log := .ran (h.noMain hrank)
  cases hend with
  | advance ok => exact h.advance hcmd ok
  | skip idx => exact Logged.grows hsound (grows_conditionSkip le_rfl) (by omega)
  | poststop error => exact Logged.grows hsound (grows_errorToPoststop le_rfl) (by omega)
  | final idx original error ran failed => simp [Control.rank] at hrank

theorem logged_chainTurn {phase : StartChainPhase} (h : PhaseLog conf phase s.log)
    (hconf : s.host.conf? = some conf) (hrank : (Control.stepping phase).rank < 4)
    (hturn : ChainTurn s e phase s') : Logged conf s' := by
  cases hturn with
  | gone left => exact Logged.grows h.sound (Grows.goTo le_rfl) (by decide)
  | fork timeout deadline loaded action forked =>
    cases hconf.symm.trans loaded
    exact (controlLog_helper hrank).mpr ⟨h, cmdAt_of_action action hrank⟩
  | spawnFailed err loaded action hend =>
    cases hconf.symm.trans loaded
    exact logged_helperEnd h (cmdAt_of_action action hrank) hrank hend
  | prestart loaded last =>
    cases hconf.symm.trans loaded
    exact ⟨s.log, [], (List.append_nil _).symm, Done.of_take h last, done_nil .prestart⟩
  | main a loaded last =>
    cases hconf.symm.trans loaded
    exact logged_runMain h last
  | final idx error loaded last => simp [Control.rank] at hrank

/-- Behind the last preliminary command no two of them have the same text. -/
theorem AtPrelim.distinct {argv : Option String} {prelims : List Entry} {k : ℕ}
    (h : AtPrelim conf argv prelims k) (hend : conf.preliminary[k]? = none) : conf.distinct := by
  rw [List.getElem?_eq_none_iff] at hend
  refine List.nodup_iff_getElem?_ne_getElem?.mpr fun p j hpj hj hsame => ?_
  rw [List.length_map] at hj
  have hstuck := h.stuck p j hpj hj ?_
  · omega
  · rw [List.getElem?_map, List.getElem?_map, List.getElem?_eq_getElem (by omega),
      List.getElem?_eq_getElem hj] at hsame
    simpa using hsame

theorem logged_forkPrelim {cmd : Commandline} {k : ℕ}
    (h : PrelimLog conf s.host.srvc.currentExecArgv s.log)
    (hplace : relocate conf.exec s.host.srvc.currentExecArgv = some k)
    (hcmd : conf.preliminary[k]? = some cmd) (hs : s.forkPrelim conf cmd e = some s') :
    Logged conf s' := by
  cases e with
  | forked =>
    cases hs
    exact ⟨rfl, s.host.srvc.currentExecArgv, k, h, hplace, hcmd⟩
  | forkFailed err =>
    cases hs
    exact Logged.grows (s := s.did [.ran .prelim cmd (.spawnFailed err)]) (.ran h.noMain)
      ((Grows.goTo le_rfl).of_eq rfl rfl rfl) (by decide)
  | _ => cases hs

theorem logged_oneshotTurn (h : PrelimLog conf s.host.srvc.currentExecArgv s.log)
    (hconf : s.host.conf? = some conf) (hs : s.oneshotTurn e = some s') : Logged conf s' := by
  obtain ⟨hmulti, helpers, prelims, k, hlog, hhelped, hat⟩ := id h
  unfold State.oneshotTurn at hs
  rw [hconf] at hs
  dsimp only at hs
  rw [hat.place] at hs
  dsimp only at hs
  rw [← preliminary_eq hmulti] at hs
  split at hs
  · rename_i hcmd
    exact logged_forkPrelim h hat.place hcmd hs
  · rename_i a hend
    cases hs
    have hdistinct := hat.distinct hend
    obtain ⟨err, rest, hnew, hrest⟩ := forkMain_log conf s.source a (s.host.setArgv none)
    have hsound : Sound conf (s.log ++
        (forkMainAndMaybeDefer conf s.source a (s.host.setArgv none)).log) := by
      rw [hlog, hnew]
      exact sound_of_fork hhelped ((hat.done hdistinct).of_take hend) hdistinct hrest.low
    unfold State.forkLast
    dsimp only
    split
    · exact Logged.grows hsound (grows_registerStartWait le_rfl) le_rfl
    · exact Logged.grows hsound ((Grows.goTo le_rfl).of_eq rfl rfl rfl) (by decide)
  · cases hs

theorem logged_oneshotHelperTurn {cmd : Commandline} {timeout : Option ℕ}
    {deadline : Option Instant} {before : Option String} {k : ℕ} (h : PrelimLog conf before s.log)
    (hargv : s.host.srvc.currentExecArgv = some cmd.display)
    (hplace : relocate conf.exec before = some k) (hcmd : conf.preliminary[k]? = some cmd)
    (hs : s.oneshotHelperTurn cmd timeout deadline e = some s') : Logged conf s' := by
  obtain ⟨hmulti, helpers, prelims, k', hlog, hhelped, hat⟩ := id h
  cases hplace.symm.trans hat.place
  cases e with
  | exited termination =>
    rw [State.oneshotHelperTurn] at hs
    split_ifs at hs with hok <;> cases hs
    · obtain ⟨next, hnext, -⟩ := hat.advance hmulti hcmd hok
      show PrelimLog conf s.host.srvc.currentExecArgv (s.log ++ _)
      rw [hargv, hlog, List.append_assoc]
      exact ⟨hmulti, helpers, _, next, rfl, hhelped, hnext⟩
    · exact Logged.grows (.ran h.noMain) (grows_oneshotFail le_rfl) (by omega)
  | timedOut =>
    rw [State.oneshotHelperTurn] at hs
    split_ifs at hs
    cases hs
    exact Logged.grows (.ran h.noMain) (grows_oneshotFail le_rfl) (by omega)
  | _ => cases hs

theorem Logged.sound (h : Logged conf s) : Sound conf s.log := by
  rw [Logged] at h
  revert h
  cases s.control with
  | stepping phase => exact PhaseLog.sound
  | helper phase =>
    cases phase with
    | poststopAfterError idx error => exact id
    | _ => exact fun h => h.1.sound
  | oneshot => exact fun h => .inl h.noMain
  | oneshotHelper =>
    rintro ⟨-, before, k, hprelim, -, -⟩
    exact .inl hprelim.noMain
  | _ => exact id

/-- The invariant of the runs of a start whose unit is not reloaded. -/
structure ConfInv (conf : ServiceConfig) (s : State) : Prop where
  loaded : s.host.conf? = some conf
  logged : Logged conf s

theorem conf?_eq_of_unit {h h' : Host} (hunit : h'.unit = h.unit) : h'.conf? = h.conf? := by
  rw [Host.conf?, Host.conf?, hunit]

theorem ConfInv.step (h : ConfInv conf s) (hkeeps : KeepsConf s e) (hs : step s e = some s') :
    ConfInv conf s' := by
  rcases step_grows hs with ⟨host, rfl, rfl⟩ | hgrows
  · refine ⟨?_, ?_⟩
    · exact (conf?_eq_of_unit hkeeps.1).trans h.loaded
    · have := h.logged
      rwa [Logged, ← hkeeps.2] at this
  · obtain ⟨new, -, -, hunit, -⟩ := id hgrows
    refine ⟨(conf?_eq_of_unit hunit).trans h.loaded, ?_⟩
    by_cases hrank : 4 ≤ s.control.rank
    · exact Logged.grows h.logged.sound hgrows hrank
    · have hlogged := h.logged
      rw [Logged] at hlogged
      unfold StartChain.step at hs
      split at hs
      · cases hs
        have := h.logged
        rwa [Logged, ← hkeeps.2] at this
      · split_ifs at hs
        cases hs
        exact h.logged
      · split at hs <;> rename_i hcontrol <;> rw [hcontrol] at hlogged hrank
        · exact logged_chainTurn hlogged h.loaded (by omega) (chainTurn_cases hs)
        · obtain ⟨hphase, hcmd⟩ := (controlLog_helper (Nat.lt_of_not_le hrank)).mp hlogged
          obtain ⟨outcome, -, hend⟩ := helperTurn_cases hs
          exact logged_helperEnd hphase hcmd (Nat.lt_of_not_le hrank) hend
        · exact logged_oneshotTurn hlogged h.loaded hs
        · obtain ⟨hargv, before, k, hprelim, hplace, hcmd⟩ := hlogged
          exact logged_oneshotHelperTurn hprelim hargv hplace hcmd hs
        · split at hs <;> cases hs
          rename_i wait _ _ _
          exact absurd hrank (by rw [Control.rank]; split_ifs <;> omega)
        · rename_i wait
          exact absurd hrank (by rw [Control.rank]; split_ifs <;> omega)
        · simp [Control.rank] at hrank
        · simp [Control.rank] at hrank
        · simp [Control.rank] at hrank

/-- A run in which no other thread touches the unit. -/
theorem keepsConf_of_alone {es : List Event} (h : ∀ e ∈ es, ∀ host, e ≠ .world host) (s : State) :
    RunMeets step KeepsConf s es := by
  induction es generalizing s with
  | nil => trivial
  | cons e es ih =>
    refine ⟨?_, fun s' _ => ih (fun e he => h e (List.mem_cons_of_mem _ he)) s'⟩
    cases e with
    | world host => exact absurd rfl (h _ List.mem_cons_self host)
    | _ => trivial

/-- The command `k` of ExecStopPost= cannot be spawned, the other helpers succeed, and other
    threads leave the unit as it is and starting. -/
structure NoSpawn (k : ℕ) (s : State) (e : Event) : Prop where
  keeps : KeepsConf s e
  starting : ∀ host, e = .world host → host.status = .starting
  spawn : ∀ error, s.control = .stepping (.poststopAfterError k error) → e ≠ .forked
  succeed : ∀ phase cmd timeout deadline outcome,
    s.control = .helper phase cmd timeout deadline → e.outcome? = some outcome →
      succeeds cmd outcome = true

/-- At the ExecStopPost= commands, and not behind the command `k`. -/
def Control.AtPoststop (k : ℕ) : Control → Prop
  | .stepping (.poststopAfterError idx _) => idx ≤ k
  | .helper (.poststopAfterError idx _) .. => idx < k
  | _ => False

/-- The invariant of a chain that is kept from its end by the command `k`. -/
structure Kept (conf : ServiceConfig) (k : ℕ) (s : State) : Prop where
  loaded : s.host.conf? = some conf
  starting : s.host.status = .starting
  place : s.control.AtPoststop k

theorem Kept.helperEnd {k idx : ℕ} {error : String} {cmd : Commandline} {outcome : CmdOutcome}
    (h : Kept conf k s) (hlt : succeeds cmd outcome = true → idx < k)
    (hout : (∃ err, outcome = .spawnFailed err) ∨ succeeds cmd outcome = true)
    (hend : HelperEnd cmd outcome (s.did [.ran .stoppost cmd outcome])
      (.poststopAfterError idx error) s') : Kept conf k s' := by
  cases hend with
  | advance ok => exact ⟨h.loaded, h.starting, hlt ok⟩
  | poststop error => exact ⟨h.loaded, h.starting, Nat.zero_le k⟩
  | final idx original error ran failed =>
    rcases hout with ⟨err, rfl⟩ | hout
    · exact absurd rfl (ran err)
    · rw [failed] at hout
      cases hout

theorem Kept.step {k : ℕ} {cmd : Commandline} (hcmd : conf.stoppost[k]? = some cmd)
    (hminus : cmd.ignoresFailure = false) (h : Kept conf k s) (hok : NoSpawn k s e)
    (hs : step s e = some s') : Kept conf k s' := by
  have hplace := h.place
  have hlast : ∀ idx, idx ≤ k → ∀ c, conf.stoppost[idx]? = some c →
      c.ignoresFailure = true → idx < k := by
    intro idx hle c hc hignores
    refine hle.lt_of_ne fun heq => ?_
    rw [heq, hcmd] at hc
    cases hc
    rw [hminus] at hignores
    cases hignores
  unfold StartChain.step at hs
  split at hs
  · cases hs
    exact ⟨(conf?_eq_of_unit hok.keeps.1).trans h.loaded, hok.starting _ rfl, hplace⟩
  · split_ifs at hs
    cases hs
    exact ⟨h.loaded, h.starting, hplace⟩
  · split at hs <;> rename_i hcontrol <;> rw [hcontrol] at hplace
    · rename_i phase
      cases phase with
      | poststopAfterError idx error =>
        cases chainTurn_cases hs with
        | gone left =>
          rw [h.loaded] at left
          exact absurd h.starting (left.resolve_left (by simp))
        | fork timeout deadline loaded action forked =>
          refine ⟨h.loaded, h.starting, Nat.lt_of_le_of_ne hplace fun heq => ?_⟩
          exact hok.spawn error (heq ▸ hcontrol) forked
        | spawnFailed err loaded action hend =>
          cases h.loaded.symm.trans loaded
          rw [ServiceConfig.action] at action
          split at action <;> cases action
          refine h.helperEnd (fun hignores => ?_) (.inl ⟨err, rfl⟩) hend
          exact hlast idx hplace _ ‹_› hignores
        | final idx error loaded last =>
          cases h.loaded.symm.trans loaded
          have hk := (List.getElem?_eq_some_iff.mp hcmd).1
          exact absurd (List.getElem?_eq_none_iff.mp last) (Nat.lt_of_le_of_lt hplace hk).not_ge
      | _ => exact hplace.elim
    · rename_i phase c timeout deadline
      obtain ⟨outcome, hout, hend⟩ := helperTurn_cases hs
      have hsucceeds := hok.succeed _ _ _ _ _ hcontrol hout
      cases phase with
      | poststopAfterError idx error => exact h.helperEnd (fun _ => hplace) (.inr hsucceeds) hend
      | _ => exact hplace.elim
    all_goals exact hplace.elim

/-- A start whose ExecStopPost= commands are due does not end if one of them cannot be spawned
    and the others succeed: the chain goes on, from the first command again, and the unit stays
    starting. -/
theorem poststop_never_ends {k : ℕ} {cmd : Commandline} {error : String}
    (hcmd : conf.stoppost[k]? = some cmd) (hminus : cmd.ignoresFailure = false)
    (hconf : s₀.host.conf? = some conf) (hstarting : s₀.host.status = .starting)
    (hbegin : s₀.control = .stepping (.poststopAfterError 0 error)) {es : List Event}
    (hrun : run step s₀ es = some s) (hmeets : RunMeets step (NoSpawn k) s₀ es) :
    s.host.status = .starting ∧ s.control.AtPoststop k ∧
      ∃ e, NoSpawn k s e ∧ e.outcome?.isSome ∧ (step s e).isSome := by
  have h₀ : Kept conf k s₀ := ⟨hconf, hstarting, by rw [hbegin]; exact Nat.zero_le k⟩
  have hinv : Kept conf k s :=
    run_inv_of_meets (fun _ _ _ h hok hs => h.step hcmd hminus hok hs) es h₀ hmeets hrun
  refine ⟨hinv.starting, hinv.place, ?_⟩
  have hplace := hinv.place
  cases hcontrol : s.control with
  | stepping phase =>
    rw [hcontrol] at hplace
    cases phase with
    | poststopAfterError idx error =>
      have hidx : idx < conf.stoppost.length :=
        Nat.lt_of_le_of_lt hplace (List.getElem?_eq_some_iff.mp hcmd).1
      refine ⟨.forkFailed "", ⟨trivial, by simp, by simp, by simp [hcontrol]⟩, rfl, ?_⟩
      simp only [StartChain.step, hcontrol, State.chainTurn, hinv.loaded, hinv.starting,
        ServiceConfig.action, List.getElem?_eq_getElem hidx, State.forkHelper]
      split_ifs <;> rfl
    | _ => exact hplace.elim
  | helper phase c timeout deadline =>
    refine ⟨.exited (.exit 0), ⟨trivial, by simp, by simp, ?_⟩, rfl, ?_⟩
    · rintro _ _ _ _ outcome - hout
      cases hout
      rfl
    · simp [StartChain.step, hcontrol, State.helperTurn]
  | _ =>
    rw [hcontrol] at hplace
    exact hplace.elim

/-- A start that failed, with an ExecStopPost= command that is not installed. -/
def gonePoststop : State where
  host := {
    unit := some (.service { srcvType := .simple, stoppost := [{ cmd := "/bin/gone" }] })
    status := .starting }
  now := 0
  control := .stepping (.poststopAfterError 0 "main ExecStart dispatch failed")
  next := []
  source := .regular

theorem gonePoststop_never_ends :
    ∃ s, run step gonePoststop [.forkFailed "not found"] = some s ∧ s.host.status = .starting ∧
      s.control.AtPoststop 0 ∧ ∃ e, NoSpawn 0 s e ∧ e.outcome?.isSome ∧ (step s e).isSome := by
  have hmeets : RunMeets step (NoSpawn 0) gonePoststop [.forkFailed "not found"] :=
    ⟨⟨trivial, by simp, by simp, by simp [gonePoststop]⟩, fun _ _ => trivial⟩
  exact ⟨_, rfl, poststop_never_ends rfl rfl rfl rfl rfl rfl hmeets⟩

/-! ## ExecStartPost= of a service without a start wait -/

/-- The ExecStartPost= command of an entry. -/
def Entry.poststart? : Entry → Option Commandline
  | .ran .startpost cmd _ => some cmd
  | _ => none

/-- The ExecStartPost= commands of a log. -/
def poststarts (log : List Entry) : List Commandline := log.filterMap Entry.poststart?

@[simp] theorem poststarts_append (a b : List Entry) :
    poststarts (a ++ b) = poststarts a ++ poststarts b :=
  List.filterMap_append

theorem poststarts_eq_nil {log : List Entry} (h : ∀ x ∈ log, x.rank ≠ 5) : poststarts log = [] := by
  refine List.filterMap_eq_nil_iff.mpr fun x hx => ?_
  have hrank := h x hx
  cases x with
  | ran stage cmd outcome =>
    cases stage with
    | startpost => exact absurd rfl hrank
    | _ => rfl
  | _ => rfl

theorem poststarts_of_block {log : List Entry} (h : Block lo mid log) (hmid : mid < 5) :
    poststarts log = [] := by
  refine poststarts_eq_nil fun x hx => ?_
  rcases h.high x hx with hlast | hlast <;> omega

/-- Without an error all the ExecStartPost= commands ran. -/
theorem poststarts_runPoststart {outcome : Stage → ℕ → CmdOutcome}
    (h : (runPoststart conf outcome).2 = none) :
    poststarts (runPoststart conf outcome).1 = conf.startpost := by
  have hall : ∀ (cmds : List Commandline) (timeout : Option ℕ) (outcome : ℕ → CmdOutcome),
      (runAllCmds .startpost timeout outcome cmds).2 = none →
        poststarts (runAllCmds .startpost timeout outcome cmds).1 = cmds := by
    intro cmds timeout
    induction cmds with
    | nil => exact fun _ _ => rfl
    | cons cmd rest ih =>
      intro outcome hnone
      rw [runAllCmds] at hnone ⊢
      split_ifs at hnone ⊢
      exact congrArg (cmd :: ·) (ih _ hnone)
  exact hall _ _ _ h

/-- A service that is started as soon as it is forked. -/
def ServiceConfig.startsAtOnce (conf : ServiceConfig) : Prop :=
  conf.srcvType = .simple ∨ conf.srcvType = .idle ∨ conf.srcvType = .exec

theorem ServiceConfig.startsAtOnce.deferWait (h : conf.startsAtOnce) (inInitrd : Bool)
    (source : ActivationSource) : deferWait inInitrd source conf.srcvType = false := by
  rcases h with h | h | h <;> rw [h] <;> simp [StartChain.deferWait]

/-- Its main phase ends with ExecStartPost=, or with an error. -/
theorem startMainPhase_atOnce (h : conf.startsAtOnce) (a : MainAnswers) (host : Host) :
    (∃ err, (startMainPhase conf a host).result = .error err) ∨
    ((startMainPhase conf a host).result = .ok .started ∧
      poststarts (startMainPhase conf a host).log = conf.startpost) := by
  have htail : ∀ (host : Host) (log : List Entry), poststarts log = [] →
      (∃ err, (finishStartTail conf a host log).result = .error err) ∨
      ((finishStartTail conf a host log).result = .ok .started ∧
        poststarts (finishStartTail conf a host log).log = conf.startpost) := by
    intro host log hlog
    unfold finishStartTail
    split
    · rename_i post heq
      have hpost := @poststarts_runPoststart conf a.outcome (by rw [heq])
      rw [heq] at hpost
      refine .inr ⟨rfl, ?_⟩
      rw [poststarts_append, hlog]
      exact hpost
    · exact .inl ⟨_, rfl⟩
  have hfork : ∀ (host : Host) r,
      (forkMainAndMaybeDefer conf .deferNotifyWait a host).result = .ok r →
        r = none ∧ poststarts (forkMainAndMaybeDefer conf .deferNotifyWait a host).log = [] := by
    intro host r hr
    have hblock := forkMain_block conf .deferNotifyWait a host
    rw [hr] at hblock
    refine ⟨?_, poststarts_of_block hblock (by show 4 < 5; omega)⟩
    revert hr
    unfold forkMainAndMaybeDefer failInPlace
    simp only [h.deferWait]
    grind
  have hmulti : ¬ (conf.srcvType = .oneShot ∧ 1 < conf.exec.length) := by
    rintro ⟨hone, -⟩
    rcases h with h | h | h <;> rw [h] at hone <;> cases hone
  unfold startMainPhase
  split
  · exact .inl ⟨_, rfl⟩
  · split_ifs
    · exact htail _ _ rfl
    · dsimp only
      split <;> rename_i hresult
      · exact .inl ⟨_, rfl⟩
      · cases (hfork host _ hresult).1
      · exact htail _ _ (hfork host _ hresult).2

/-- The ExecStartPost= commands that ran, by where the start is. -/
def PostLog (conf : ServiceConfig) (log : List Entry) : Control → Prop
  | .stepping phase | .helper phase .. =>
    match phase with
    | .poststopAfterError .. => True
    | _ => poststarts log = []
  | .finishing => poststarts log = conf.startpost
  | .settling none => poststarts log = conf.startpost ++ conf.startpost
  | .settling (some _) => True
  | .ended => .started ∈ log → poststarts log = conf.startpost ++ conf.startpost
  | _ => False

/-- A start that is over without a success. -/
theorem postLog_over {log : List Entry} (h : .started ∉ log) : PostLog conf log .ended :=
  fun hstarted => absurd hstarted h

theorem started_notMem_append {log : List Entry} {x : Entry} (h : .started ∉ log)
    (hx : .started ≠ x) : .started ∉ log ++ [x] := by
  rw [List.mem_append, List.mem_singleton]
  exact not_or.mpr ⟨h, hx⟩

theorem postLog_finalizeError {error : String} (h : .started ∉ s.log) :
    PostLog conf (s.finalizeError error).log (s.finalizeError error).control :=
  postLog_over (started_notMem_append h (by simp))

/-- A helper does not run ExecStartPost= commands. -/
theorem poststarts_ran (log : List Entry) (phase : StartChainPhase) (cmd : Commandline)
    (outcome : CmdOutcome) :
    poststarts (log ++ [.ran phase.stage cmd outcome]) = poststarts log := by
  rw [poststarts_append]
  cases phase <;> exact List.append_nil _

/-- A phase goes on behind a command. -/
theorem postLog_advance {phase : StartChainPhase} {cmd : Commandline} {outcome : CmdOutcome}
    (h : PostLog conf s.log (.stepping phase)) :
    PostLog conf (s.log ++ [.ran phase.stage cmd outcome]) (.stepping phase.advance) := by
  have hran := poststarts_ran s.log phase cmd outcome
  cases phase with
  | condition idx => exact hran.trans h
  | prestart idx => exact hran.trans h
  | poststopAfterError idx error => trivial

theorem postLog_runMain (honce : conf.startsAtOnce) (a : MainAnswers)
    (h : poststarts s.log = []) :
    PostLog conf (s.runMain conf a).log (s.runMain conf a).control := by
  unfold State.runMain
  dsimp only
  rcases startMainPhase_atOnce honce a s.host with ⟨err, herr⟩ | ⟨hok, hlog⟩
  · rw [herr]
    trivial
  · rw [hok]
    show poststarts (s.log ++ (startMainPhase conf a s.host).log) = conf.startpost
    rw [poststarts_append, h, hlog, List.nil_append]

theorem postLog_helperEnd {phase : StartChainPhase} {cmd : Commandline} {outcome : CmdOutcome}
    (h : PostLog conf s.log (.stepping phase)) (hopen : .started ∉ s.log)
    (hend : HelperEnd cmd outcome (s.did [.ran phase.stage cmd outcome]) phase s') :
    PostLog conf s'.log s'.control := by
  have hran : .started ∉ (s.did [.ran phase.stage cmd outcome]).log :=
    started_notMem_append hopen (by simp)
  cases hend with
  | advance ok => exact postLog_advance h
  | skip idx => exact postLog_over (started_notMem_append hran (by simp))
  | poststop error => trivial
  | final idx original error ran failed => exact postLog_finalizeError hran

theorem postLog_chainTurn (honce : conf.startsAtOnce) {phase : StartChainPhase}
    (h : PostLog conf s.log (.stepping phase)) (hconf : s.host.conf? = some conf)
    (hopen : .started ∉ s.log) (hturn : ChainTurn s e phase s') :
    PostLog conf s'.log s'.control := by
  cases hturn with
  | gone left => exact postLog_over hopen
  | fork timeout deadline loaded action forked => exact h
  | spawnFailed err loaded action hend => exact postLog_helperEnd h hopen hend
  | prestart loaded last => exact h
  | main a loaded last =>
    cases hconf.symm.trans loaded
    exact postLog_runMain honce a h
  | final idx error loaded last => exact postLog_finalizeError hopen

theorem postLog_finish (outcome : Stage → ℕ → CmdOutcome) (h : poststarts s.log = conf.startpost)
    (hconf : s.host.conf? = some conf) (hopen : .started ∉ s.log) :
    PostLog conf (s.finish outcome).log (s.finish outcome).control := by
  unfold State.finish
  split_ifs
  · exact postLog_over hopen
  · rw [hconf]
    dsimp only
    split
    · rename_i post heq
      have hpost := @poststarts_runPoststart conf outcome (by rw [heq])
      rw [heq] at hpost
      show poststarts (s.log ++ post) = conf.startpost ++ conf.startpost
      rw [poststarts_append, h, hpost]
    · trivial

theorem postLog_settle {failure : Option String} (h : PostLog conf s.log (.settling failure))
    (hopen : .started ∉ s.log) :
    PostLog conf (s.settle failure).log (s.settle failure).control := by
  cases failure with
  | some reason => exact postLog_over (started_notMem_append hopen (by simp))
  | none =>
    intro _
    unfold State.settle State.dispatchNext
    dsimp only
    split_ifs
    · show poststarts (s.log ++ [.started]) = _
      rw [poststarts_append]
      exact (List.append_nil _).trans h
    · show poststarts (s.log ++ [.started] ++ [.dispatched s.next]) = _
      rw [poststarts_append, poststarts_append]
      exact (List.append_nil _).trans ((List.append_nil _).trans h)

/-- The invariant of the starts of a service that is started as soon as it is forked. -/
structure PostInv (conf : ServiceConfig) (next : List UnitId) (s : State) : Prop where
  loaded : s.host.conf? = some conf
  order : OrderInv next s
  posts : PostLog conf s.log s.control

/-- A start that is not over did not succeed yet. -/
theorem OrderInv.unsettled {next : List UnitId} (h : OrderInv next s) (hopen : s.control ≠ .ended) :
    .started ∉ s.log :=
  fun hmem => hopen ((h.before _ hmem).ended le_rfl)

theorem PostInv.step {next : List UnitId} (honce : conf.startsAtOnce) (h : PostInv conf next s)
    (hkeeps : KeepsConf s e) (hs : step s e = some s') : PostInv conf next s' := by
  have hunsettled := h.order.unsettled
  have hposts := h.posts
  rcases step_grows hs with ⟨host, rfl, rfl⟩ | hgrows
  · exact ⟨(conf?_eq_of_unit hkeeps.1).trans h.loaded,
      ⟨h.order.ordered, h.order.before, h.order.carries, h.order.handed⟩, h.posts⟩
  · obtain ⟨new, -, -, hunit, -⟩ := id hgrows
    refine ⟨(conf?_eq_of_unit hunit).trans h.loaded, h.order.step hgrows, ?_⟩
    unfold StartChain.step at hs
    split at hs
    · cases hs
      exact hposts
    · split_ifs at hs
      cases hs
      exact hposts
    · split at hs <;> rename_i hcontrol <;> rw [hcontrol] at hposts hunsettled
      · exact postLog_chainTurn honce hposts h.loaded (hunsettled (by simp)) (chainTurn_cases hs)
      · obtain ⟨outcome, -, hend⟩ := helperTurn_cases hs
        exact postLog_helperEnd hposts (hunsettled (by simp)) hend
      · exact hposts.elim
      · exact hposts.elim
      · exact hposts.elim
      · exact hposts.elim
      · split at hs <;> cases hs
        exact postLog_finish _ hposts h.loaded (hunsettled (by simp))
      · split at hs <;> cases hs
        exact postLog_settle hposts (hunsettled (by simp))
      · cases hs

/-- A service that is started as soon as it is forked runs its ExecStartPost= commands twice
    when its start succeeds: the main phase runs them, and the finisher runs them again. -/
theorem poststart_runs_twice {host : Host} {now : Instant} {next : List UnitId}
    {source : ActivationSource} (hconf : host.conf? = some conf) (honce : conf.startsAtOnce)
    {es : List Event} (hrun : run step (serviceStartChain host now next source) es = some s)
    (hmeets : RunMeets step KeepsConf (serviceStartChain host now next source) es)
    (hstarted : .started ∈ s.log) :
    poststarts s.log = conf.startpost ++ conf.startpost := by
  have hbegin : PostInv conf next (serviceStartChain host now next source) :=
    ⟨hconf, orderInv_begins (.chain host now source), rfl⟩
  have hinv : PostInv conf next s :=
    run_inv_of_meets (fun _ _ _ h hk hs => h.step honce hk hs) es hbegin hmeets hrun
  have hover : s.control = .ended := (hinv.order.before _ hstarted).ended le_rfl
  have hposts := hinv.posts
  rw [hover] at hposts
  exact hposts hstarted

theorem webStart_announces_twice :
    ∃ s, run step webStart webEvents = some s ∧ .started ∈ s.log ∧
      poststarts s.log = [{ cmd := "/bin/announce" }, { cmd := "/bin/announce" }] := by
  have hrun : run step webStart webEvents = some _ := rfl
  have hmeets : RunMeets step KeepsConf webStart webEvents :=
    keepsConf_of_alone (by simp [webEvents]) webStart
  have honce : webService.startsAtOnce := .inl rfl
  exact ⟨_, hrun, by decide, poststart_runs_twice (by rfl) honce hrun hmeets (by decide)⟩

end OxidizedSystemd.Units.StartChain
