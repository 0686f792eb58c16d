import OxidizedSystemd.Jobs.Registry
import OxidizedSystemd.Lib.Run
import OxidizedSystemd.Services.RestartPolicy
import OxidizedSystemd.Units.StopChain

/-!
# The deferred start of one service

Model of a service start that the dispatcher owns (`unitset_manipulation/activate.rs`,
lines 2161–3300, `entrypoints/dispatcher.rs`, lines 125–153, 405–535 and 560–960, and
`services/services.rs`, lines 898–1232): the chain of ExecCondition= and ExecStartPre=
commands, the chain of the preliminary commands of a oneshot service, the parked wait
for readiness with its timeouts, the finisher thread, and the ExecStopPost= commands of
a start that failed.

* `serviceStartChain`, `oneshotChain`, `startServiceWait`: the three ways in.
* `step`: one turn of a chain, one event for what is parked, one access of another
  thread to the unit, or the clock.
* `State.log`: what the start did, in order.

What the kernel and the rest of the program answer (whether a helper could be spawned,
how it ended, what `start_service` and `wait_for_service` return, the pids that are
read for a daemon) is in the events. Another thread may change the unit and its status
between any two steps; the two reads of the table in one turn of a chain are one step.
Instants are microseconds, timeouts milliseconds. Left out: sockets that are re-armed,
the notification socket and the buffers of output, timestamps and the watchdog.
-/

namespace OxidizedSystemd.Units.StartChain

open OxidizedSystemd.Jobs (ActivationSource Instant)
open OxidizedSystemd.Services (ServiceRestart ServiceType SuccessExitStatus)
open OxidizedSystemd.Units.StopChain (ChildTermination CmdOutcome Commandline Pid Timeout)

/-! ## The service -/

/-- What a start reads of a `ServiceConfig`. -/
structure ServiceConfig where
  srcvType : ServiceType
  execCondition : List Commandline := []
  startpre : List Commandline := []
  exec : List Commandline := []
  startpost : List Commandline := []
  stoppost : List Commandline := []
  starttimeout : Option Timeout := none
  stoptimeout : Option Timeout := none
  generaltimeout : Option Timeout := none
  restart : ServiceRestart := .no
  successExitStatus : SuccessExitStatus := ⟨[], []⟩
  dbusName : Option String := none
  pidFile : Bool := false
  guessMainPid : Bool := true

/-- `get_start_timeout` (`services/services.rs`, lines 1503–1520). -/
def ServiceConfig.getStartTimeout (conf : ServiceConfig) : Option ℕ :=
  ((conf.starttimeout.or conf.generaltimeout).map Timeout.deadline).getD (some 90000)

/-- `get_stop_timeout` (`services/services.rs`, lines 1522–1537). -/
def ServiceConfig.getStopTimeout (conf : ServiceConfig) : Option ℕ :=
  ((conf.stoptimeout.or conf.generaltimeout).map Timeout.deadline).getD (some 1000)

/-- What a start reads and writes of the `Service` behind a unit. -/
structure Service where
  currentExecArgv : Option String := none
  mainExitStatus : Option ℤ := none
  mainExitTermination : Option Services.ChildTermination := none
  signaledReady : Bool := false
  reloading : Bool := false
  manualStop : Bool := false
  mainPid : Option Pid := none
  pid : Option Pid := none
  processGroup : Option Pid := none
  extendTimeoutUsec : Option ℕ := none
  extendTimeoutTimestamp : Option Instant := none

/-- What the table holds under the id of the start: a service, or a unit of another type. -/
inductive Loaded
  | service (conf : ServiceConfig)
  | other

/-- The unit of a start with what is around it. `liveMainPid` is `common.main_pid != 0`,
    `writeLocked` a writer that holds the table when a cleanup tries to read it. -/
structure Host where
  unit : Option Loaded
  status : UnitStatus
  statusErrors : List String := []
  srvc : Service := {}
  liveMainPid : Bool := false
  inInitrd : Bool := false
  writeLocked : Bool := false

/-- The configuration, if the unit is a loaded service. -/
def Host.conf? (h : Host) : Option ServiceConfig :=
  match h.unit with
  | some (.service conf) => some conf
  | _ => none

/-- `if matches!(&*status, UnitStatus::Starting) { *status = new }`. -/
def Host.leaveStarting (h : Host) (new : UnitStatus) (errors : List String) : Host :=
  if h.status = .starting then { h with status := new, statusErrors := errors } else h

/-! ## Errors -/

/-- The `Debug` text of a `Duration` of milliseconds. -/
def debugDuration (ms : ℕ) : String :=
  let padded := toString (1000 + ms % 1000)
  let fraction := ((padded.toList.drop 1).reverse.dropWhile (· = '0')).reverse
  if ms = 0 then "0ns"
  else if ms < 1000 then toString ms ++ "ms"
  else if fraction = [] then toString (ms / 1000) ++ "s"
  else toString (ms / 1000) ++ "." ++ String.ofList fraction ++ "s"

/-- The `Debug` text of an `Option<Duration>`. -/
def debugTimeout : Option ℕ → String
  | none => "None"
  | some ms => "Some(" ++ debugDuration ms ++ ")"

/-- `enum RunCmdError` (`services/services.rs`, lines 670–678), the errors of a start. -/
inductive RunCmdError
  | timeout (cmd err : String)
  | spawnError (cmd err : String)
  | badExitCode (cmd : String) (termination : ChildTermination)
  | generic (err : String)
  deriving DecidableEq, Repr

/-- `impl Display for ChildTermination` (`signal_handler.rs`, lines 925–933). -/
def displayTermination : ChildTermination → String
  | .signal sig true => "signal " ++ sig.text ++ " (core dumped)"
  | .signal sig false => "signal " ++ sig.text
  | .exit code => "exit code " ++ toString code

/-- `impl Display for RunCmdError` (`services/services.rs`, lines 682–699). -/
def RunCmdError.display : RunCmdError → String
  | .badExitCode cmd exit => cmd ++ " exited with " ++ displayTermination exit
  | .spawnError cmd err => cmd ++ " failed to spawn: " ++ err
  | .timeout cmd err => cmd ++ " reached its timeout: " ++ err
  | .generic err => "Generic error: " ++ err

/-- `enum ServiceErrorReason` (`services/services.rs`, lines 723–739), the errors of a start. -/
inductive ServiceErrorReason
  | prestartFailed (e : RunCmdError)
  | startFailed (e : RunCmdError)
  | poststartAndPoststopFailed (e e2 : RunCmdError)
  | startAndPoststopFailed (e e2 : RunCmdError)
  | preparingFailed (e : String)
  deriving DecidableEq, Repr

/-- `UnitOperationErrorReason` (lines 148–156), the errors a start records. -/
inductive OperationError
  | genericStartError (e : String)
  | serviceStartError (e : ServiceErrorReason)
  deriving DecidableEq, Repr

/-- A command that lets the start go on: it succeeded, or its `-` hides the failure. A
    timeout is not hidden. -/
def succeeds (cmd : Commandline) : CmdOutcome → Bool
  | .spawnFailed _ => cmd.ignoresFailure
  | .exited termination => termination.success || cmd.ignoresFailure
  | .timedOut => false

/-- The error of `run_cmd` for a command that does not (`services/services.rs`, lines 1789–1873). -/
def runCmdError (timeout : Option ℕ) (cmd : Commandline) : CmdOutcome → RunCmdError
  | .spawnFailed e => .spawnError cmd.display e
  | .exited termination => .badExitCode cmd.display termination
  | .timedOut => .timeout cmd.display ("Timeout (" ++ debugTimeout timeout ++ ") reached")

/-! ## What a start did -/

/-- Which list a command is from. -/
inductive Stage
  | condition | prestart | prelim | startpost | stoppost
  deriving DecidableEq, Repr

/-- Something the start did: a command with how it ended, a call of `start_service` with its
    error, the SIGTERM of a timeout, the kill before ExecStopPost=, how the start ended, and the
    dependents that were handed on. -/
inductive Entry
  | ran (stage : Stage) (cmd : Commandline) (outcome : CmdOutcome)
  | main (err : Option RunCmdError)
  | sigterm (sent : Instant)
  | killed
  | started
  | skipped
  | failed (error : String)
  | poststartFailed
  | dispatched (ids : List UnitId)
  deriving DecidableEq, Repr

/-! ## Commands that are run in place -/

/-- `run_all_cmds` (`services/services.rs`, lines 1917–1930): up to the first error. -/
def runAllCmds (stage : Stage) (timeout : Option ℕ) (outcome : ℕ → CmdOutcome) :
    List Commandline → List Entry × Option RunCmdError
  | [] => ([], none)
  | cmd :: rest =>
    let entry := Entry.ran stage cmd (outcome 0)
    if succeeds cmd (outcome 0) then
      let (log, err) := runAllCmds stage timeout (outcome ∘ Nat.succ) rest
      (entry :: log, err)
    else ([entry], some (runCmdError timeout cmd (outcome 0)))

/-- `run_poststart` (`services/services.rs`, lines 2030–2053). -/
def runPoststart (conf : ServiceConfig) (outcome : Stage → ℕ → CmdOutcome) :
    List Entry × Option RunCmdError :=
  runAllCmds .startpost conf.getStartTimeout (outcome .startpost) conf.startpost

/-- `run_poststop` (`services/services.rs`, lines 2054–2106). -/
def runPoststop (conf : ServiceConfig) (outcome : Stage → ℕ → CmdOutcome) :
    List Entry × Option RunCmdError :=
  runAllCmds .stoppost conf.getStopTimeout (outcome .stoppost) conf.stoppost

/-- `self.pid = None; self.process_group = None`. -/
def Host.clearPids (h : Host) : Host :=
  { h with srvc := { h.srvc with pid := none, processGroup := none } }

/-! ## The main phase -/

/-- `enum StartResult` (lines 701–721). -/
inductive StartResult
  | started | waitingForSocket | conditionSkipped | deferredNotifyWait | deferredOneshotExec
  | deferredPrestart
  deriving DecidableEq, Repr

/-- What the main phase is answered: by `reopen_stdio`, by `start_service` (an error, or
    the pid there is after it), by `wait_for_service`, and by the commands it runs. -/
structure MainAnswers where
  reopenStdio : Option String := none
  startService : Except RunCmdError (Option Pid) := .ok none
  waitForService : Option RunCmdError := none
  outcome : Stage → ℕ → CmdOutcome := fun _ _ => .exited (.exit 0)

/-- What a call leaves behind. -/
structure Called (α : Type) where
  host : Host
  log : List Entry := []
  result : α

/-- `defer_wait` of `fork_main_and_maybe_defer` (lines 1140–1202). -/
def deferWait (inInitrd : Bool) (source : ActivationSource) (srcvType : ServiceType) : Bool :=
  if inInitrd then
    source = .deferNotifyWait && (srcvType = .notify || srcvType = .notifyReload)
  else
    (source = .deferNotifyWait || source = .socketActivation || source = .triggerActivation) &&
      (srcvType = .notify || srcvType = .notifyReload || srcvType = .oneShot ||
        srcvType = .forking || srcvType = .dbus)

/-- A failure after the fork: ExecStopPost= runs in place. -/
def failInPlace (conf : ServiceConfig) (a : MainAnswers) (h : Host) (log : List Entry)
    (one : ServiceErrorReason) (both : RunCmdError → ServiceErrorReason) {α : Type} :
    Called (Except ServiceErrorReason α) :=
  let (post, err) := runPoststop conf a.outcome
  { host := h.clearPids, log := log ++ post, result := .error ((err.map both).getD one) }

/-- `fork_main_and_maybe_defer` (`services/services.rs`, lines 1048–1197). -/
def forkMainAndMaybeDefer (conf : ServiceConfig) (source : ActivationSource) (a : MainAnswers)
    (h : Host) : Called (Except ServiceErrorReason (Option StartResult)) :=
  match a.startService with
  | .error e =>
    if conf.exec.getLast?.any Commandline.ignoresFailure then
      { host := { h with srvc := { h.srvc with
          mainExitStatus := some 203, mainExitTermination := some (.exit 203) } }
        log := [.main (some e)], result := .ok none }
    else { host := h, log := [.main (some e)], result := .error (.startFailed e) }
  | .ok pid =>
    let h := { h with
      srvc := { h.srvc with pid := pid }, liveMainPid := h.liveMainPid || pid.isSome }
    if pid.isNone || source = .nonBlocking then
      { host := h, log := [.main none], result := .ok none }
    else if deferWait h.inInitrd source conf.srcvType then
      { host := h, log := [.main none], result := .ok (some .deferredNotifyWait) }
    else
      match a.waitForService with
      | none => { host := h, log := [.main none], result := .ok none }
      | some e => failInPlace conf a h [.main none] (.startFailed e) (.startAndPoststopFailed e)

/-- `finish_start_tail` (`services/services.rs`, lines 1202–1232). -/
def finishStartTail (conf : ServiceConfig) (a : MainAnswers) (h : Host) (log : List Entry) :
    Called (Except ServiceErrorReason StartResult) :=
  match runPoststart conf a.outcome with
  | (post, none) => { host := h, log := log ++ post, result := .ok .started }
  | (post, some e) =>
    failInPlace conf a h (log ++ post) (.prestartFailed e) (.poststartAndPoststopFailed e)

/-- `start_main_phase` (`services/services.rs`, lines 898–1041) with
    `ActivationSource::DeferNotifyWait`, the source the chain calls it with. -/
def startMainPhase (conf : ServiceConfig) (a : MainAnswers) (h : Host) :
    Called (Except ServiceErrorReason StartResult) :=
  match a.reopenStdio with
  | some e => { host := h, result := .error (.preparingFailed e) }
  | none =>
    if conf.exec = [] then finishStartTail conf a h []
    else if conf.srcvType = .oneShot ∧ 1 < conf.exec.length then
      { host := { h with srvc := { h.srvc with currentExecArgv := none } }
        result := .ok .deferredOneshotExec }
    else
      let called := forkMainAndMaybeDefer conf .deferNotifyWait a h
      match called.result with
      | .error e => { called with result := .error e }
      | .ok (some deferred) => { called with result := .ok deferred }
      | .ok none => finishStartTail conf a called.host called.log

/-! ## Where a start is -/

/-- `enum StartChainPhase` (lines 2390–2401). -/
inductive StartChainPhase
  | condition (idx : ℕ)
  | prestart (idx : ℕ)
  | poststopAfterError (idx : ℕ) (error : String)
  deriving DecidableEq, Repr

/-- The stage of the commands of a phase. -/
def StartChainPhase.stage : StartChainPhase → Stage
  | .condition _ => .condition
  | .prestart _ => .prestart
  | .poststopAfterError .. => .stoppost

/-- `advance_chain_index` (lines 2664–2673). -/
def StartChainPhase.advance : StartChainPhase → StartChainPhase
  | .condition idx => .condition (idx + 1)
  | .prestart idx => .prestart (idx + 1)
  | .poststopAfterError idx error => .poststopAfterError (idx + 1) error

/-- `enum Action` of `service_start_chain_step` (lines 2426–2431). -/
inductive Action
  | fork (cmd : Commandline)
  | nextPhase (phase : StartChainPhase)
  | runMain
  | finalizeError (error : String)
  deriving DecidableEq, Repr

/-- The action of a phase (lines 2444–2466). -/
def ServiceConfig.action (conf : ServiceConfig) : StartChainPhase → Action
  | .condition idx =>
    match conf.execCondition[idx]? with
    | none => .nextPhase (.prestart 0)
    | some cmd => .fork cmd
  | .prestart idx =>
    match conf.startpre[idx]? with
    | none => .runMain
    | some cmd => .fork cmd
  | .poststopAfterError idx error =>
    match conf.stoppost[idx]? with
    | none => .finalizeError error
    | some cmd => .fork cmd

/-- `struct StartWait` (`dispatcher.rs`, lines 129–153), without what it has in common with
    the chains. -/
structure StartWait where
  srcvType : ServiceType
  timeout : Option ℕ
  baseDeadline : Option Instant
  armedDeadline : Option Instant
  /-- In microseconds. -/
  stopGrace : ℕ
  termSentAt : Option Instant := none
  execConfirmAt : Option Instant := none
  dbusDone : Bool := false
  graceUsed : Bool := false
  deriving DecidableEq, Repr

/-- Where a start is: in a chain's step, parked on a helper, inside
    `progress_start_wait`, parked, on the finisher thread before and after the
    ExecStartPost= commands, or over. -/
inductive Control
  | stepping (phase : StartChainPhase)
  | helper (phase : StartChainPhase) (cmd : Commandline) (timeout : Option ℕ)
      (deadline : Option Instant)
  | oneshot
  | oneshotHelper (cmd : Commandline) (timeout : Option ℕ) (deadline : Option Instant)
  | evaluating (wait : StartWait) (execConfirmElapsed : Bool)
  | waiting (wait : StartWait)
  | finishing
  | settling (failure : Option String)
  | ended
  deriving DecidableEq, Repr

/-- A start with its unit, the time and the log. `next`, `source` and `errors` are what the
    chains and the wait carry (`next_services_ids`, `source`, `errors`). -/
structure State where
  host : Host
  now : Instant
  control : Control
  next : List UnitId
  source : ActivationSource
  errors : List OperationError := []
  log : List Entry := []

/-- The log goes on with `entries`. -/
def State.did (s : State) (entries : List Entry) : State := { s with log := s.log ++ entries }

/-- The start goes on at `control`. -/
def State.goTo (s : State) (control : Control) : State := { s with control := control }

/-- `chain.errors.push(…)`. -/
def State.report (s : State) (e : OperationError) : State := { s with errors := s.errors ++ [e] }

/-- The answers `evaluate_start_wait` may need for a forking service. -/
structure DaemonPid where
  pidFile : Option Pid := none
  cgroup : Option Pid := none

inductive Event
  | world (host : Host)
  | clock (now : Instant)
  | tick
  | forked
  | forkFailed (e : String)
  | main (a : MainAnswers)
  | exited (termination : ChildTermination)
  | timedOut
  | evaluate (a : DaemonPid)
  | notify
  | recheck
  | dbusName (result : Except String Unit)
  | expired (drained : Service)
  | poststart (outcome : Stage → ℕ → CmdOutcome)

/-- The deadline of a timeout of milliseconds that starts now. -/
def State.deadline (s : State) (timeout : Option ℕ) : Option Instant :=
  timeout.map fun ms => s.now + 1000 * ms

/-! ## A start that failed -/

/-- The restart policies that apply to a failed start. -/
def restartsFailedStart (restart : ServiceRestart) : Bool :=
  restart = .always || restart = .onFailure

/-- `deferred_start_fail_cleanup` (lines 2073–2117) with `on_service_start_failed`
    (`services/service_exit_handler.rs`, lines 397–480). -/
def Host.failCleanup (h : Host) (reason : String) : Host :=
  if h.writeLocked then h
  else
    match h.unit with
    | none => h
    | some .other => h.leaveStarting (.stopped .stoppedUnexpected) [reason]
    | some (.service conf) =>
      let h := h.clearPids.leaveStarting (.stopped .stoppedUnexpected) [reason]
      if restartsFailedStart conf.restart && !h.srvc.manualStop then
        { h with status := .restarting }
      else h

/-- `finalize_deferred_start_failure` (lines 2763–2770). -/
def State.finalizeFailure (s : State) (reason : String) : State :=
  ({ s with host := s.host.failCleanup reason }.did [.failed reason]).goTo .ended

/-- `start_chain_finalize_error` (lines 2679–2691). `trigger_on_failure_units` skips services. -/
def State.finalizeError (s : State) (error : String) : State :=
  (s.report (.genericStartError error)).finalizeFailure error

/-- `fail_deferred_start` (lines 2781–2828) with a live dispatcher. With ExecStopPost= a new
    chain runs it; that chain has a list of errors of its own. -/
def State.failDeferredStart (s : State) (reason : String) : State :=
  match s.host.conf? with
  | none => s.finalizeFailure reason
  | some conf =>
    if conf.stoppost = [] then s.finalizeFailure reason
    else
      ({ s with host := s.host.clearPids, next := [], source := .regular, errors := [] }.did
        [.killed]).goTo (.stepping (.poststopAfterError 0 reason))

/-! ## The wait for readiness -/

/-- `register_start_wait` (`dispatcher.rs`, lines 534–583) with `start_wait_setup`
    (lines 2888–2915). -/
def State.registerStartWait (s : State) : State :=
  match s.host.conf? with
  | none => s.goTo .ended
  | some conf =>
    if conf.srcvType = .dbus ∧ conf.dbusName = none then
      s.failDeferredStart "No BusName= configured for Type=dbus service"
    else
      s.goTo (.evaluating
        { srcvType := conf.srcvType
          timeout := conf.getStartTimeout
          baseDeadline := s.deadline conf.getStartTimeout
          armedDeadline := s.deadline conf.getStartTimeout
          stopGrace := 1000 * conf.getStopTimeout.getD 90000
          execConfirmAt := if conf.srcvType = .exec then some (s.now + 500000) else none } false)

/-- `enum StartWaitVerdict` (lines 2919–2930). -/
inductive StartWaitVerdict
  | pending | ready | abandoned
  | fail (reason : String)
  deriving DecidableEq, Repr

/-- `exit_success` of `evaluate_start_wait` (lines 2959–2983). -/
def exitSuccess (conf : ServiceConfig) (srvc : Service) : Option Bool :=
  srvc.mainExitStatus.map fun code =>
    (match srvc.mainExitTermination with
      | some term => conf.successExitStatus.isSuccess term
      | none => code = 0 || conf.successExitStatus.exitCodes.contains code) ||
    conf.exec.getLast?.any Commandline.ignoresFailure

/-- The daemon that a forking service leaves behind (lines 2993–3037). -/
def Host.pickUpDaemon (h : Host) (conf : ServiceConfig) (a : DaemonPid) : Host :=
  let pid :=
    if conf.pidFile then a.pidFile
    else if h.srvc.mainPid.isSome then h.srvc.mainPid
    else if conf.guessMainPid then a.cgroup
    else none
  { h with srvc := { h.srvc with mainExitStatus := none, mainExitTermination := none, pid := pid } }

/-- `evaluate_start_wait` (lines 2936–3090): the verdict, and the unit after it. -/
def evaluateStartWait (srcvType : ServiceType) (execConfirmElapsed dbusDone : Bool)
    (a : DaemonPid) (h : Host) : StartWaitVerdict × Host :=
  match h.conf?, h.status with
  | some conf, .starting =>
    match srcvType with
    | .oneShot =>
      match exitSuccess conf h.srvc with
      | some true => (.ready, h)
      | some false => (.abandoned, h)
      | none => (.pending, h)
    | .forking =>
      match exitSuccess conf h.srvc with
      | some true => (.ready, h.pickUpDaemon conf a)
      | some false => (.fail "Forking ExecStart parent exited with failure", h)
      | none => (.pending, h)
    | .exec =>
      if h.srvc.mainExitStatus = some 203 then (.fail "exec() of the service binary failed", h)
      else if execConfirmElapsed then (.ready, h)
      else (.pending, h)
    | .dbus =>
      if dbusDone then (.ready, h)
      else if h.srvc.mainExitStatus.isSome then (.abandoned, h)
      else (.pending, h)
    | .notify | .notifyReload =>
      if h.srvc.signaledReady || h.srvc.reloading then (.ready, h)
      else if h.srvc.mainExitStatus.isSome then
        (.fail "Service exited before sending READY=1", h)
      else (.pending, h)
    | _ => if h.srvc.signaledReady || h.srvc.reloading then (.ready, h) else (.pending, h)
  | _, _ => (.abandoned, h)

/-- The before-chain of a start, when there is one, is walked on a thread of its own. -/
def State.dispatchNext (s : State) : State :=
  if s.next = [] then s else s.did [.dispatched s.next]

/-- `progress_start_wait` (`dispatcher.rs`, lines 586–628). -/
def State.progress (s : State) (wait : StartWait) (execConfirmElapsed : Bool) (a : DaemonPid) :
    State :=
  let (verdict, host) := evaluateStartWait wait.srcvType execConfirmElapsed wait.dbusDone a s.host
  let s := { s with host := host }
  match verdict with
  | .pending => s.goTo (.waiting wait)
  | .abandoned => s.dispatchNext.goTo .ended
  | .fail reason => s.failDeferredStart reason
  | .ready => s.goTo .finishing

/-- `effective_start_deadline` (lines 3095–3115). -/
def effectiveStartDeadline (base : Option Instant) (h : Host) : Option Instant :=
  base.map fun base =>
    match h.conf?, h.srvc.extendTimeoutUsec, h.srvc.extendTimeoutTimestamp with
    | some _, some usec, some ts => max base (ts + usec)
    | _, _, _ => base

/-- The deadline after `Event::Notify` (`dispatcher.rs`, lines 411–420). -/
def StartWait.refreshed (wait : StartWait) (h : Host) : StartWait :=
  if wait.termSentAt = none then
    { wait with
      armedDeadline :=
        match wait.armedDeadline, effectiveStartDeadline wait.baseDeadline h with
        | some current, some new => some (max current new)
        | current, new => new.or current }
  else wait

/-- `deadline.is_some_and(|deadline| deadline <= now)`. -/
def isDue (deadline : Option Instant) (now : Instant) : Bool := deadline.any (· ≤ now)

/-- `effective > now` for the effective deadline of a wait. -/
def StartWait.extended? (wait : StartWait) (h : Host) (now : Instant) : Option Instant :=
  (effectiveStartDeadline wait.baseDeadline h).filter (now < ·)

/-- A start deadline that has passed (`dispatcher.rs`, lines 762–853): the grace, SIGTERM, and
    the failure of the start. `drained` is the service after its notifications are read. -/
def State.expireArmed (s : State) (wait : StartWait) (drained : Service) : State :=
  match wait.extended? s.host s.now with
  | some effective => s.goTo (.waiting { wait with armedDeadline := some effective })
  | none =>
    if wait.termSentAt.isNone then
      if wait.graceUsed then
        (s.did [.sigterm s.now]).goTo (.waiting { wait with
          termSentAt := some s.now, armedDeadline := some (s.now + wait.stopGrace) })
      else
        let host := { s.host with srvc := drained }
        { s with host := host }.goTo (.waiting { wait with
          graceUsed := true
          armedDeadline := (wait.extended? host s.now).or (some (s.now + 2000000)) })
    else if s.host.unit.isNone || s.host.status ≠ .starting then s.goTo .ended
    else if !s.host.liveMainPid then
      s.goTo (.evaluating { wait with armedDeadline := some (s.now + 500000) } false)
    else s.failDeferredStart ("Timed out starting (" ++ debugTimeout wait.timeout ++ ")")

/-- `expire_due_start_waits` for one wait (`dispatcher.rs`, lines 726–855). -/
def State.expire (s : State) (wait : StartWait) (drained : Service) : Option State :=
  if isDue wait.execConfirmAt s.now then
    some (s.goTo (.evaluating { wait with execConfirmAt := none } true))
  else if isDue wait.armedDeadline s.now then some (s.expireArmed wait drained)
  else none

/-- An event for a parked wait. -/
def State.waitTurn (s : State) (wait : StartWait) : Event → Option State
  | .notify => some (s.goTo (.evaluating (wait.refreshed s.host) false))
  | .recheck => some (s.goTo (.evaluating wait false))
  | .dbusName (.ok ()) => some (s.goTo (.evaluating { wait with dbusDone := true } false))
  | .dbusName (.error message) => some (s.failDeferredStart message)
  | .expired drained => s.expire wait drained
  | _ => none

/-- `finish_deferred_start` (lines 3140–3236) on the finisher thread: ExecStartPost=, and
    ExecStopPost= if that fails. -/
def State.finish (s : State) (outcome : Stage → ℕ → CmdOutcome) : State :=
  if s.host.unit.isNone || s.host.status ≠ .starting then s.goTo .ended
  else
    match s.host.conf? with
    | none => s.goTo (.settling none)
    | some conf =>
      match runPoststart conf outcome with
      | (post, none) => (s.did post).goTo (.settling none)
      | (post, some e) =>
        ({ s with host := s.host.clearPids }.did (post ++ (runPoststop conf outcome).1)).goTo
          (.settling (some ("ExecStartPost failed: " ++ e.display)))

/-- The status the finisher sets, and the dependents it starts. -/
def State.settle (s : State) : Option String → State
  | some failure =>
    ({ s with host := s.host.leaveStarting (.stopped .stoppedUnexpected) [failure] }.did
      [.poststartFailed]).goTo .ended
  | none =>
    let host := { s.host with srvc := { s.host.srvc with signaledReady := false } }
    (({ s with host := host.leaveStarting (.started .running) [] }.did
      [.started]).dispatchNext).goTo .ended

/-! ## The chain of ExecCondition=, ExecStartPre= and ExecStopPost= -/

/-- `chain_error_to_poststop` (lines 2675–2677). -/
def State.errorToPoststop (s : State) (error : String) : State :=
  s.goTo (.stepping (.poststopAfterError 0 error))

/-- `apply_condition_skip` (lines 2696–2726). -/
def State.conditionSkip (s : State) : State :=
  ({ s with host := s.host.leaveStarting (.stopped .conditionSkipped) [] }.did [.skipped]).goTo
    .ended

/-- `route_start_chain_outcome` for `MainDispatched` (`dispatcher.rs`, lines 1229–1279) with
    `apply_waiting_for_socket` (lines 2730–2758). -/
def State.mainDispatched (s : State) : StartResult → State
  | .deferredOneshotExec => s.goTo .oneshot
  | .deferredNotifyWait => s.registerStartWait
  | .started => s.goTo .finishing
  | .waitingForSocket =>
    { s with host := s.host.leaveStarting (.started .waitingForSocket) [] }.goTo .ended
  | .conditionSkipped | .deferredPrestart => s.goTo .ended

/-- `Action::RunMain` (lines 2524–2560). -/
def State.runMain (s : State) (conf : ServiceConfig) (a : MainAnswers) : State :=
  let called := startMainPhase conf a s.host
  let s := { s with host := called.host }.did called.log
  match called.result with
  | .ok result => s.mainDispatched result
  | .error e => (s.report (.serviceStartError e)).errorToPoststop "main ExecStart dispatch failed"

/-- `Action::Fork` (lines 2475–2523). -/
def State.forkHelper (s : State) (conf : ServiceConfig) (phase : StartChainPhase)
    (cmd : Commandline) : Event → Option State
  | .forked =>
    some (s.goTo (.helper phase cmd conf.getStartTimeout (s.deadline conf.getStartTimeout)))
  | .forkFailed e =>
    let s := s.did [.ran phase.stage cmd (.spawnFailed e)]
    if cmd.ignoresFailure then some (s.goTo (.stepping phase.advance))
    else some (s.errorToPoststop ("Failed to spawn " ++ cmd.display ++ ": " ++ e))
  | _ => none

/-- One turn of the loop of `service_start_chain_step` (lines 2433–2562). -/
def State.chainTurn (s : State) (phase : StartChainPhase) (e : Event) : Option State :=
  match s.host.conf?, s.host.status with
  | some conf, .starting =>
    match conf.action phase, e with
    | .fork cmd, e => s.forkHelper conf phase cmd e
    | .nextPhase phase, .tick => some (s.goTo (.stepping phase))
    | .runMain, .main a => some (s.runMain conf a)
    | .finalizeError error, .tick => some (s.finalizeError error)
    | _, _ => none
  | _, _ =>
    match e with
    | .tick => some (s.goTo .ended)
    | _ => none

/-- The exit code of a condition that skips the service. -/
def skips : ChildTermination → Bool
  | .exit code => decide (1 ≤ code ∧ code ≤ 254)
  | .signal .. => false

/-- `service_start_chain_child_exited` (lines 2567–2634). -/
def State.childExited (s : State) (phase : StartChainPhase) (cmd : Commandline)
    (termination : ChildTermination) : State :=
  let s := s.did [.ran phase.stage cmd (.exited termination)]
  if succeeds cmd (.exited termination) then s.goTo (.stepping phase.advance)
  else
    match phase with
    | .condition _ =>
      if skips termination then s.conditionSkip
      else
        s.errorToPoststop
          ("ExecCondition " ++ cmd.display ++ " failed: " ++ termination.debug)
    | .prestart _ =>
      s.errorToPoststop ("ExecStartPre " ++ cmd.display ++ " failed: " ++ termination.debug)
    | .poststopAfterError _ error =>
      s.finalizeError
        (error ++ "; ExecStopPost " ++ cmd.display ++ " failed: " ++ termination.debug)

/-- `service_start_chain_timed_out` (lines 2638–2662). -/
def State.childTimedOut (s : State) (phase : StartChainPhase) (cmd : Commandline)
    (timeout : Option ℕ) : State :=
  let s := s.did [.ran phase.stage cmd .timedOut]
  let error := cmd.display ++ " timed out (" ++ debugTimeout timeout ++ ")"
  match phase with
  | .condition _ | .prestart _ => s.errorToPoststop error
  | .poststopAfterError _ original => s.finalizeError (original ++ "; " ++ error)

/-- An event for a chain that is parked on a helper. -/
def State.helperTurn (s : State) (phase : StartChainPhase) (cmd : Commandline)
    (timeout : Option ℕ) (deadline : Option Instant) : Event → Option State
  | .exited termination => some (s.childExited phase cmd termination)
  | .timedOut => if isDue deadline s.now then some (s.childTimedOut phase cmd timeout) else none
  | _ => none

/-! ## The preliminary commands of a oneshot service -/

/-- Where the chain goes on in the list that is loaded now: behind the first command with the
    text of the one that ran. `none` when that text is gone. -/
def relocate (exec : List Commandline) : Option String → Option ℕ
  | none => some 0
  | some lastArgv => (exec.findIdx? fun c => c.display = lastArgv).map (· + 1)

/-- `current_exec_argv = argv`. -/
def Host.setArgv (h : Host) (argv : Option String) : Host :=
  { h with srvc := { h.srvc with currentExecArgv := argv } }

/-- The last command is forked as the main process (lines 2258–2268 and 2295–2308). -/
def State.forkLast (s : State) (conf : ServiceConfig) (a : MainAnswers) : State :=
  let called := forkMainAndMaybeDefer conf s.source a (s.host.setArgv none)
  let s := { s with host := called.host }.did called.log
  match called.result with
  | .ok _ => s.registerStartWait
  | .error e => (s.report (.serviceStartError e)).goTo .ended

/-- The next preliminary command (lines 2269–2282 and 2289–2294, 2309–2320). A command that
    cannot be spawned ends the chain, whatever its prefix. -/
def State.forkPrelim (s : State) (conf : ServiceConfig) (cmd : Commandline) :
    Event → Option State
  | .forked =>
    some ({ s with host := s.host.setArgv (some cmd.display) }.goTo
      (.oneshotHelper cmd conf.getStartTimeout (s.deadline conf.getStartTimeout)))
  | .forkFailed err =>
    some ((({ s with host := s.host.setArgv (some cmd.display) }.did
      [.ran .prelim cmd (.spawnFailed err)]).report (.genericStartError err)).goTo .ended)
  | _ => none

/-- The running command is gone from the list: the service is done (lines 2245–2257). -/
def Host.vanished (h : Host) : Host :=
  { h with srvc := { h.srvc with
    currentExecArgv := none, mainExitStatus := some 0, mainExitTermination := some (.exit 0) } }

/-- `oneshot_chain_step` (lines 2200–2323). -/
def State.oneshotTurn (s : State) (e : Event) : Option State :=
  match s.host.conf? with
  | none =>
    match e with
    | .tick => some (s.goTo .ended)
    | _ => none
  | some conf =>
    match relocate conf.exec s.host.srvc.currentExecArgv with
    | none =>
      match e with
      | .tick => some { s with host := s.host.vanished }.registerStartWait
      | _ => none
    | some idx =>
      match conf.exec.dropLast[idx]?, e with
      | some cmd, e => s.forkPrelim conf cmd e
      | none, .main a => some (s.forkLast conf a)
      | none, _ => none

/-- `oneshot_chain_fail` (lines 2831–2859). -/
def State.oneshotFail (s : State) (e : RunCmdError) : State :=
  ({ s with host := s.host.setArgv none }.report
    (.serviceStartError (.startFailed e))).failDeferredStart e.display

/-- `oneshot_chain_child_exited` (lines 2328–2351) and `oneshot_chain_timed_out`
    (lines 2356–2377). -/
def State.oneshotHelperTurn (s : State) (cmd : Commandline) (timeout : Option ℕ)
    (deadline : Option Instant) : Event → Option State
  | .exited termination =>
    let s := s.did [.ran .prelim cmd (.exited termination)]
    if succeeds cmd (.exited termination) then some (s.goTo .oneshot)
    else some (s.oneshotFail (runCmdError timeout cmd (.exited termination)))
  | .timedOut =>
    if isDue deadline s.now then
      some ((s.did [.ran .prelim cmd .timedOut]).oneshotFail (runCmdError timeout cmd .timedOut))
    else none
  | _ => none

/-! ## The state machine -/

/-- A step of a start, of another thread, or of the clock. -/
def step (s : State) : Event → Option State
  | .world host => some { s with host := host }
  | .clock now => if s.now ≤ now then some { s with now := now } else none
  | e =>
    match s.control with
    | .stepping phase => s.chainTurn phase e
    | .helper phase cmd timeout deadline => s.helperTurn phase cmd timeout deadline e
    | .oneshot => s.oneshotTurn e
    | .oneshotHelper cmd timeout deadline => s.oneshotHelperTurn cmd timeout deadline e
    | .evaluating wait confirm =>
      match e with
      | .evaluate a => some (s.progress wait confirm a)
      | _ => none
    | .waiting wait => s.waitTurn wait e
    | .finishing =>
      match e with
      | .poststart outcome => some (s.finish outcome)
      | _ => none
    | .settling failure =>
      match e with
      | .tick => some (s.settle failure)
      | _ => none
    | .ended => none

/-- `Event::StartServiceChain`, as `park_deferred_start` sends it (lines 1265–1275). -/
def serviceStartChain (host : Host) (now : Instant) (next : List UnitId)
    (source : ActivationSource) : State :=
  { host, now, next, source, control := .stepping (.condition 0) }

/-- `Event::StartOneshotChain` (lines 1283–1291). -/
def oneshotChain (host : Host) (now : Instant) (next : List UnitId)
    (source : ActivationSource) : State :=
  { host, now, next, source, control := .oneshot }

/-- `Event::StartServiceWait` (lines 1296–1304), when the wait is registered. -/
def startServiceWait (host : Host) (now : Instant) (next : List UnitId)
    (source : ActivationSource) : State :=
  State.registerStartWait { host, now, next, source, control := .ended }

end OxidizedSystemd.Units.StartChain
