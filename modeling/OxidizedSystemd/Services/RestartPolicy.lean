import OxidizedSystemd.Units.Basic

/-!
# Restart policy

Models of `SuccessExitStatus::is_success` and `is_clean_signal` (`units/unit.rs`, lines 3792–3824),
`should_restart` and the restart decisions of `on_service_start_failed` and `service_exit_handler`
(`services/service_exit_handler.rs`, lines 231–296, 397–480, 1167–1262 and 1397–1530), without the
delay of a restart.

The comment of `should_restart` has the table of `Restart=`. What an automatic restart is called
for by is that table behind the request to stop and the two lists of exit statuses.

* `shouldRestart_eq_table_iff`: where `should_restart` reads the table.
* `restartPolicy_iff`: where each of the three decisions is the one that is called for.
* `stopped_oneshot_restarts`: a oneshot service that is restarted while it is being stopped.
-/

namespace OxidizedSystemd.Services

open OxidizedSystemd.Units

/-! ## How a process ends -/

/-- `Signal`. -/
inductive Signal
  | sighup | sigint | sigquit | sigill | sigtrap | sigabrt | sigbus | sigfpe | sigkill | sigusr1
  | sigsegv | sigusr2 | sigpipe | sigalrm | sigterm | sigstkflt | sigchld | sigcont | sigstop
  | sigtstp | sigttin | sigttou | sigurg | sigxcpu | sigxfsz | sigvtalrm | sigprof | sigwinch
  | sigio | sigpwr | sigsys
  deriving DecidableEq, Repr

/-- `ChildTermination`. -/
inductive ChildTermination
  | signal (sig : Signal) (coreDumped : Bool)
  | exit (code : ℤ)
  deriving DecidableEq, Repr

/-- `SuccessExitStatus`, also of the statuses that prevent or force a restart. -/
structure SuccessExitStatus where
  exitCodes : List ℤ
  signals : List Signal
  deriving DecidableEq, Repr

/-- `is_clean_signal_value`. -/
def isCleanSignalValue (sig : Signal) : Bool :=
  sig = .sighup ∨ sig = .sigint ∨ sig = .sigterm ∨ sig = .sigpipe

namespace SuccessExitStatus

/-- `is_success`. -/
def isSuccess (ses : SuccessExitStatus) : ChildTermination → Bool
  | .exit code => code = 0 ∨ ses.exitCodes.contains code
  | .signal sig _ => ses.signals.contains sig

/-- `is_clean_signal`. -/
def isCleanSignal (ses : SuccessExitStatus) : ChildTermination → Bool
  | .signal sig _ => isCleanSignalValue sig ∨ ses.signals.contains sig
  | .exit _ => false

/-- The status is listed: the match in front of the decisions. -/
def lists (ses : SuccessExitStatus) : ChildTermination → Bool
  | .exit code => ses.exitCodes.contains code
  | .signal sig _ => ses.signals.contains sig

end SuccessExitStatus

/-! ## The decisions -/

/-- `ServiceRestart`. -/
inductive ServiceRestart
  | no | always | onSuccess | onFailure | onAbnormal | onAbort | onWatchdog
  deriving DecidableEq, Repr

/-- `should_restart` (lines 231–288). -/
def shouldRestart (policy : ServiceRestart) (termination : ChildTermination)
    (ses : SuccessExitStatus) (watchdogFired : Bool) : Bool :=
  match policy with
  | .no => false
  | .always => true
  | .onSuccess => ses.isSuccess termination || ses.isCleanSignal termination
  | .onFailure =>
    if watchdogFired then true
    else
      match termination with
      | .exit code => code ≠ 0 ∧ ¬ses.exitCodes.contains code
      | .signal sig _ => !isCleanSignalValue sig && !ses.signals.contains sig
  | .onAbnormal =>
    if watchdogFired then true
    else
      match termination with
      | .exit _ => false
      | .signal sig _ => !isCleanSignalValue sig && !ses.signals.contains sig
  | .onAbort =>
    match termination with
    | .exit _ => false
    | .signal sig _ => !isCleanSignalValue sig && !ses.signals.contains sig
  | .onWatchdog => watchdogFired

/-- `ServiceType`. -/
inductive ServiceType
  | simple | notify | notifyReload | dbus | oneShot | forking | idle | exec
  deriving DecidableEq, Repr

/-- What the decisions read of `ServiceConfig`. -/
structure ServiceConfig where
  restart : ServiceRestart
  srcvType : ServiceType
  remainAfterExit : Bool
  successExitStatus : SuccessExitStatus
  restartPreventExitStatus : SuccessExitStatus
  restartForceExitStatus : SuccessExitStatus

/-- What they read of the state of a service. -/
structure ServiceState where
  watchdogTimeoutFired : Bool
  runtimeMaxTimeoutFired : Bool
  manualStop : Bool

/-- The decision for a oneshot service (lines 1167–1190). -/
def oneshotShouldRestart (conf : ServiceConfig) (code : ChildTermination) : Bool :=
  if !conf.successExitStatus.isSuccess code then
    !conf.restartPreventExitStatus.lists code &&
      (conf.restartForceExitStatus.lists code ||
        shouldRestart conf.restart code conf.successExitStatus false)
  else false

/-- The decision for a running service that was not stopped by request (lines 1436–1499). -/
def restartUnit (conf : ServiceConfig) (state : ServiceState) (code : ChildTermination) : Bool :=
  let timeoutFired := state.watchdogTimeoutFired || state.runtimeMaxTimeoutFired
  if conf.restartPreventExitStatus.lists code then false
  else
    conf.restartForceExitStatus.lists code ||
      shouldRestart conf.restart code conf.successExitStatus timeoutFired

/-- `UnitStatus::is_started`. -/
def isStarted : UnitStatus → Bool
  | .started _ => true
  | _ => false

/-- `service_exit_handler` schedules a restart (lines 1064–1530). -/
def serviceExitHandler (conf : ServiceConfig) (state : ServiceState) (status : UnitStatus)
    (code : ChildTermination) : Bool :=
  if conf.srcvType = .oneShot then
    if conf.remainAfterExit && conf.successExitStatus.isSuccess code then false
    else oneshotShouldRestart conf code
  else if state.manualStop then false
  else
    let restart := restartUnit conf state code
    let dominated := isStarted status || status = .starting
    let stoppedButRestartable := restart && status = .stopped .stoppedUnexpected
    if !dominated && !stoppedButRestartable then false
    else if conf.remainAfterExit && conf.successExitStatus.isSuccess code then false
    else restart

/-- `on_service_start_failed` schedules a restart (lines 428–480). -/
def onServiceStartFailed (conf : ServiceConfig) (state : ServiceState) : Bool :=
  if ¬(conf.restart = .always ∨ conf.restart = .onFailure) then false
  else if state.manualStop then false
  else true

/-! ## The policy -/

/-- The rows of the table. -/
inductive ExitReason
  | cleanExit | uncleanExit | cleanSignal | uncleanSignal | timeout | watchdog
  deriving DecidableEq, Repr

/-- The row of a termination by itself. -/
def terminationReason (ses : SuccessExitStatus) : ChildTermination → ExitReason
  | .exit code => if code = 0 ∨ code ∈ ses.exitCodes then .cleanExit else .uncleanExit
  | .signal sig _ =>
    if sig ∈ [.sighup, .sigint, .sigterm, .sigpipe] ∨ sig ∈ ses.signals then .cleanSignal
    else .uncleanSignal

/-- The row of the way in which a service ended. -/
def exitReason (ses : SuccessExitStatus) (state : ServiceState) (code : ChildTermination) :
    ExitReason :=
  if state.watchdogTimeoutFired then .watchdog
  else if state.runtimeMaxTimeoutFired then .timeout
  else terminationReason ses code

/-- The policy has a cross in the row (lines 237–244). -/
def table : ServiceRestart → ExitReason → Prop
  | .no, _ => False
  | .always, _ => True
  | .onSuccess, reason => reason = .cleanExit ∨ reason = .cleanSignal
  | .onFailure, reason => reason ≠ .cleanExit ∧ reason ≠ .cleanSignal
  | .onAbnormal, reason => reason = .uncleanSignal ∨ reason = .timeout ∨ reason = .watchdog
  | .onAbort, reason => reason = .uncleanSignal
  | .onWatchdog, reason => reason = .watchdog

/-- An automatic restart is called for: the service was not stopped by request, its status does not
    prevent a restart, and the status forces one or the table has one. -/
def CalledFor (conf : ServiceConfig) (state : ServiceState) (code : ChildTermination) : Prop :=
  state.manualStop = false ∧ conf.restartPreventExitStatus.lists code = false ∧
    (conf.restartForceExitStatus.lists code = true ∨
      table conf.restart (exitReason conf.successExitStatus state code))

/-! ## Where a decision is made -/

/-- The places that decide on a restart. -/
inductive Place
  | running | oneshotFailed | startFailed
  deriving DecidableEq, Repr

/-- The place decides: on the exit of a service that was running and does not remain after it, on
    the failed exit of a oneshot service, and on a failed start. -/
def Place.Decides (conf : ServiceConfig) (status : UnitStatus) (code : ChildTermination) :
    Place → Prop
  | .running => conf.srcvType ≠ .oneShot ∧
      ((∃ s, status = .started s) ∨ status = .starting ∨ status = .stopped .stoppedUnexpected) ∧
      ¬(conf.remainAfterExit = true ∧ conf.successExitStatus.isSuccess code = true)
  | .oneshotFailed => conf.srcvType = .oneShot ∧ conf.successExitStatus.isSuccess code = false
  | .startFailed => True

/-- The place schedules a restart. -/
def Place.schedules (conf : ServiceConfig) (state : ServiceState) (status : UnitStatus)
    (code : ChildTermination) : Place → Bool
  | .running | .oneshotFailed => serviceExitHandler conf state status code
  | .startFailed => onServiceStartFailed conf state

/-! ## `should_restart` and the table -/

/-- The service ran into a timeout. -/
def TimedOut (state : ServiceState) : Prop :=
  state.watchdogTimeoutFired = true ∨ state.runtimeMaxTimeoutFired = true

/-- A timeout that `should_restart` gets wrong, when it is told of timeouts or when it is not. -/
def Misread (told : Bool) (state : ServiceState) (reason : ExitReason) : ServiceRestart → Prop
  | .no | .always => False
  | .onSuccess => TimedOut state ∧ (reason = .cleanExit ∨ reason = .cleanSignal)
  | .onFailure =>
    told = false ∧ TimedOut state ∧ (reason = .cleanExit ∨ reason = .cleanSignal)
  | .onAbnormal => told = false ∧ TimedOut state ∧ reason ≠ .uncleanSignal
  | .onAbort => TimedOut state ∧ reason = .uncleanSignal
  | .onWatchdog =>
    if told then state.runtimeMaxTimeoutFired = true ∧ state.watchdogTimeoutFired = false
    else state.watchdogTimeoutFired = true

variable {conf : ServiceConfig} {state : ServiceState} {status : UnitStatus}
  {code : ChildTermination} {ses : SuccessExitStatus} {policy : ServiceRestart}

theorem terminationReason_cases (ses : SuccessExitStatus) (code : ChildTermination) :
    terminationReason ses code = .cleanExit ∨ terminationReason ses code = .uncleanExit ∨
      terminationReason ses code = .cleanSignal ∨ terminationReason ses code = .uncleanSignal := by
  cases code with
  | exit code =>
    rw [terminationReason]
    split <;> simp
  | signal sig coreDumped =>
    rw [terminationReason]
    split <;> simp

/-- An exit is in the row of clean or of unclean exits. -/
theorem terminationReason_exit (ses : SuccessExitStatus) (c : ℤ) :
    (terminationReason ses (.exit c) = .cleanExit ∧ (c = 0 ∨ c ∈ ses.exitCodes)) ∨
      (terminationReason ses (.exit c) = .uncleanExit ∧ ¬(c = 0 ∨ c ∈ ses.exitCodes)) := by
  rw [terminationReason]
  by_cases h : c = 0 ∨ c ∈ ses.exitCodes
  · rw [if_pos h]
    exact .inl ⟨rfl, h⟩
  · rw [if_neg h]
    exact .inr ⟨rfl, h⟩

/-- A signal is in the row of clean or of unclean signals. -/
theorem terminationReason_signal (ses : SuccessExitStatus) (sig : Signal) (core : Bool) :
    (terminationReason ses (.signal sig core) = .cleanSignal ∧
      (isCleanSignalValue sig = true ∨ sig ∈ ses.signals)) ∨
    (terminationReason ses (.signal sig core) = .uncleanSignal ∧
      ¬(isCleanSignalValue sig = true ∨ sig ∈ ses.signals)) := by
  have hclean : isCleanSignalValue sig = true ↔ sig ∈ [.sighup, .sigint, .sigterm, .sigpipe] := by
    simp [isCleanSignalValue]
  rw [terminationReason, hclean]
  by_cases h : sig ∈ [.sighup, .sigint, .sigterm, .sigpipe] ∨ sig ∈ ses.signals
  · rw [if_pos h]
    exact .inl ⟨rfl, h⟩
  · rw [if_neg h]
    exact .inr ⟨rfl, h⟩

/-- Without a timeout, `should_restart` reads the table. -/
theorem shouldRestart_false_iff :
    shouldRestart policy code ses false = true ↔ table policy (terminationReason ses code) := by
  cases code with
  | exit c =>
    rcases terminationReason_exit ses c with ⟨hreason, h⟩ | ⟨hreason, h⟩
    · rw [hreason]
      cases policy <;> grind [shouldRestart, table, SuccessExitStatus.isSuccess]
    · rw [hreason]
      cases policy <;> grind [shouldRestart, table, SuccessExitStatus.isSuccess,
        SuccessExitStatus.isCleanSignal]
  | signal sig core =>
    rcases terminationReason_signal ses sig core with ⟨hreason, h⟩ | ⟨hreason, h⟩
    · rw [hreason]
      cases policy <;> grind [shouldRestart, table, SuccessExitStatus.isCleanSignal]
    · rw [hreason]
      cases policy <;> grind [shouldRestart, table, SuccessExitStatus.isSuccess,
        SuccessExitStatus.isCleanSignal]

/-- When it is told of a timeout, it goes by the termination only where it does not ask for it. -/
theorem shouldRestart_true_iff : shouldRestart policy code ses true = true ↔
    policy = .onFailure ∨ policy = .onAbnormal ∨ policy = .onWatchdog ∨
      table policy (terminationReason ses code) := by
  have hfalse := @shouldRestart_false_iff code ses policy
  cases policy with
  | no | always | onSuccess | onAbort => simpa [shouldRestart] using hfalse
  | onFailure | onAbnormal | onWatchdog => simp [shouldRestart]

/-- Of a timeout `should_restart` reads the table except where it is misread. -/
theorem shouldRestart_eq_table_iff (told : Bool) :
    (shouldRestart policy code ses
        (told && (state.watchdogTimeoutFired || state.runtimeMaxTimeoutFired)) = true ↔
      table policy (exitReason ses state code)) ↔
    ¬Misread told state (terminationReason ses code) policy := by
  have hreason := terminationReason_cases ses code
  have hfalse := @shouldRestart_false_iff code ses policy
  have htrue := @shouldRestart_true_iff code ses policy
  rw [exitReason]
  generalize terminationReason ses code = reason at *
  cases hw : state.watchdogTimeoutFired with
  | false =>
    cases hr : state.runtimeMaxTimeoutFired with
    | false =>
      -- without a timeout
      rw [Bool.or_self, Bool.and_false, hfalse]
      cases policy <;> cases told <;> simp [Misread, TimedOut, hw, hr]
    | true =>
      rw [Bool.or_true, Bool.and_true]
      cases told with
      | false =>
        rw [hfalse]
        cases policy <;> grind [table, Misread, TimedOut]
      | true =>
        rw [htrue]
        cases policy <;> grind [table, Misread, TimedOut]
  | true =>
    rw [Bool.true_or, Bool.and_true]
    cases told with
    | false =>
      rw [hfalse]
      cases policy <;> grind [table, Misread, TimedOut]
    | true =>
      rw [htrue]
      cases policy <;> grind [table, Misread, TimedOut]

/-! ## The decisions and the policy -/

/-- The policies by which a failed start schedules a restart. -/
def RestartsFailedStart (policy : ServiceRestart) : Prop := policy = .always ∨ policy = .onFailure

/-- The inputs on which a place decides as the policy does. -/
def Place.Conforms (conf : ServiceConfig) (state : ServiceState) (code : ChildTermination) :
    Place → Prop
  | .running =>
    state.manualStop = true ∨ conf.restartPreventExitStatus.lists code = true ∨
      conf.restartForceExitStatus.lists code = true ∨
      ¬Misread true state (terminationReason conf.successExitStatus code) conf.restart
  | .oneshotFailed =>
    conf.restartPreventExitStatus.lists code = true ∨
      if state.manualStop then
        conf.restartForceExitStatus.lists code = false ∧
          ¬table conf.restart (terminationReason conf.successExitStatus code)
      else
        conf.restartForceExitStatus.lists code = true ∨
          ¬Misread false state (terminationReason conf.successExitStatus code) conf.restart
  | .startFailed =>
    state.manualStop = true ∨
      match conf.restart with
      | .always => conf.restartPreventExitStatus.lists code = false
      | .onFailure =>
        conf.restartPreventExitStatus.lists code = false ∧
          (conf.restartForceExitStatus.lists code = true ∨ TimedOut state ∨
            terminationReason conf.successExitStatus code = .uncleanExit ∨
            terminationReason conf.successExitStatus code = .uncleanSignal)
      | policy =>
        conf.restartPreventExitStatus.lists code = true ∨
          (conf.restartForceExitStatus.lists code = false ∧
            ¬table policy (exitReason conf.successExitStatus state code))

/-- The guards behind the decision let it stand where the place decides. -/
theorem serviceExitHandler_running (h : Place.Decides conf status code .running) :
    serviceExitHandler conf state status code =
      (!state.manualStop && restartUnit conf state code) := by
  obtain ⟨htype, hstatus, hremain⟩ := h
  have hkept : (conf.remainAfterExit && conf.successExitStatus.isSuccess code) = false := by
    rw [Bool.and_eq_false_iff]
    grind
  rw [serviceExitHandler, if_neg htype, hkept]
  cases state.manualStop with
  | true => rfl
  | false =>
    rcases hstatus with ⟨s, rfl⟩ | rfl | rfl
    · rfl
    · rfl
    · cases restartUnit conf state code <;> rfl

theorem running_iff (h : Place.Decides conf status code .running) :
    (serviceExitHandler conf state status code = true ↔ CalledFor conf state code) ↔
      Place.Conforms conf state code .running := by
  have htable := @shouldRestart_eq_table_iff state code conf.successExitStatus conf.restart true
  rw [Bool.true_and] at htable
  rw [serviceExitHandler_running h, CalledFor, Place.Conforms, ← htable, restartUnit]
  cases state.manualStop <;> cases conf.restartPreventExitStatus.lists code <;>
    cases conf.restartForceExitStatus.lists code <;> simp

theorem serviceExitHandler_oneshot (h : Place.Decides conf status code .oneshotFailed) :
    serviceExitHandler conf state status code = (!conf.restartPreventExitStatus.lists code &&
      (conf.restartForceExitStatus.lists code ||
        shouldRestart conf.restart code conf.successExitStatus false)) := by
  obtain ⟨htype, hfailed⟩ := h
  rw [serviceExitHandler, if_pos htype, oneshotShouldRestart, hfailed, Bool.and_false]
  rfl

theorem oneshotFailed_iff (h : Place.Decides conf status code .oneshotFailed) :
    (serviceExitHandler conf state status code = true ↔ CalledFor conf state code) ↔
      Place.Conforms conf state code .oneshotFailed := by
  have htable := @shouldRestart_eq_table_iff state code conf.successExitStatus conf.restart false
  have hfalse := @shouldRestart_false_iff code conf.successExitStatus conf.restart
  rw [Bool.false_and] at htable
  rw [serviceExitHandler_oneshot h, CalledFor, Place.Conforms, ← htable, ← hfalse]
  cases state.manualStop <;> cases conf.restartPreventExitStatus.lists code <;>
    cases conf.restartForceExitStatus.lists code <;> simp

theorem startFailed_iff : (onServiceStartFailed conf state = true ↔ CalledFor conf state code) ↔
    Place.Conforms conf state code .startFailed := by
  rw [onServiceStartFailed, CalledFor, Place.Conforms]
  cases hmanual : state.manualStop with
  | true => simp
  | false =>
    cases hpolicy : conf.restart with
    | always => simp [table]
    | onFailure =>
      have hreason := terminationReason_cases conf.successExitStatus code
      have hrow : table .onFailure (exitReason conf.successExitStatus state code) ↔
          TimedOut state ∨ terminationReason conf.successExitStatus code = .uncleanExit ∨
            terminationReason conf.successExitStatus code = .uncleanSignal := by
        rw [exitReason]
        generalize terminationReason conf.successExitStatus code = reason at *
        grind [table, TimedOut]
      simp [hrow]
    | no | onSuccess | onAbnormal | onAbort | onWatchdog =>
      cases conf.restartPreventExitStatus.lists code <;>
        cases conf.restartForceExitStatus.lists code <;> simp

/-- Where a place decides, it schedules a restart exactly if one is called for on exactly these
    inputs. -/
theorem restartPolicy_iff (place : Place) (conf : ServiceConfig) (state : ServiceState)
    (status : UnitStatus) (code : ChildTermination) (h : place.Decides conf status code) :
    (place.schedules conf state status code = true ↔ CalledFor conf state code) ↔
      place.Conforms conf state code := by
  cases place with
  | running => exact running_iff h
  | oneshotFailed => exact oneshotFailed_iff h
  | startFailed => exact startFailed_iff

/-! ## Two services -/

/-- A service of a type with `Restart=on-failure`. -/
def onFailureService (srcvType : ServiceType) : ServiceConfig :=
  ⟨.onFailure, srcvType, false, ⟨[], []⟩, ⟨[], []⟩, ⟨[], []⟩⟩

/-- A running service that exits with the code 1 is restarted as the policy says. -/
theorem restartPolicy_iff_exit :
    Place.running.schedules (onFailureService .simple) ⟨false, false, false⟩ (.started .running)
      (.exit 1) = true ↔ CalledFor (onFailureService .simple) ⟨false, false, false⟩ (.exit 1) := by
  have hdecides : Place.running.Decides (onFailureService .simple) (.started .running) (.exit 1) :=
    ⟨by decide, .inl ⟨_, rfl⟩, by decide⟩
  refine (restartPolicy_iff _ _ _ _ _ hdecides).mpr ?_
  refine .inr (.inr (.inr ?_))
  rintro ⟨hfalse, -⟩
  cases hfalse

/-- A oneshot service that is stopped by request and exits with the code 1 is restarted. -/
theorem stopped_oneshot_restarts : ¬∀ (place : Place) (conf : ServiceConfig) (state : ServiceState)
    (status : UnitStatus) (code : ChildTermination), place.Decides conf status code →
      (place.schedules conf state status code = true ↔ CalledFor conf state code) := by
  intro h
  have hstopped := (h .oneshotFailed (onFailureService .oneShot) ⟨false, false, true⟩ .stopping
    (.exit 1) ⟨rfl, rfl⟩).mp rfl
  cases hstopped.1

end OxidizedSystemd.Services
