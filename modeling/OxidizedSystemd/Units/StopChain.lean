import OxidizedSystemd.Units.Basic
import Mathlib.Data.List.Infix

/-!
# The stop chain of one unit

Model of `units/unitset_manipulation/stop_chain.rs`: the ExecStop= commands,
SIGTERM with the TimeoutStopSec= window, the ExecStopPost= commands and the
final bookkeeping, as phases advanced by events. The dispatcher
(`entrypoints/dispatcher.rs`, lines 457–475 and 946–967) feeds exits and
timeouts of what the chain is parked on.

* `step`: one turn of the loop of `service_stop_chain_step`, or one event for a
  parked chain.
* `ChainSpec`: what a chain is to have done after any events, in which order
  and with which errors.

What the kernel and the rest of the program answer (whether a helper could be
spawned, which process is alive, whether the signal was sent, how a child
ended) is in the events. The unit table does not change during a run.
-/

namespace OxidizedSystemd.Units.StopChain

/-! ## Command lines and exits -/

/-- `enum CommandlinePrefix` (`units/unit_parsing/mod.rs`, lines 4511–4520). -/
inductive CommandlinePrefix
  | atSign | minus | colon | plus | exclamation | doubleExclamation | pipe
  deriving DecidableEq, Repr

def CommandlinePrefix.text : CommandlinePrefix → String
  | .minus => "-"
  | .atSign => "@"
  | .plus => "+"
  | .colon => ":"
  | .exclamation => "!"
  | .doubleExclamation => "!!"
  | .pipe => "|"

/-- `struct Commandline` (`units/unit_parsing/mod.rs`, lines 4522–4527). -/
structure Commandline where
  cmd : String
  args : List String := []
  prefixes : List CommandlinePrefix := []
  deriving DecidableEq, Repr

/-- `impl Display for Commandline` (`units/unit_parsing/mod.rs`, lines 4534–4553). -/
def Commandline.display (c : Commandline) : String :=
  String.join (c.prefixes.map CommandlinePrefix.text) ++ c.cmd ++
    String.join (c.args.map fun arg => " " ++ arg)

/-- A leading `-`: failures are ignored. -/
def Commandline.ignoresFailure (c : Commandline) : Bool := c.prefixes.contains .minus

/-- The signals of `nix::sys::signal::Signal` on Linux. -/
inductive Signal
  | SIGHUP | SIGINT | SIGQUIT | SIGILL | SIGTRAP | SIGABRT | SIGBUS | SIGFPE | SIGKILL | SIGUSR1
  | SIGSEGV | SIGUSR2 | SIGPIPE | SIGALRM | SIGTERM | SIGSTKFLT | SIGCHLD | SIGCONT | SIGSTOP
  | SIGTSTP | SIGTTIN | SIGTTOU | SIGURG | SIGXCPU | SIGXFSZ | SIGVTALRM | SIGPROF | SIGWINCH
  | SIGIO | SIGPWR | SIGSYS
  deriving DecidableEq, Repr

def Signal.text : Signal → String
  | .SIGHUP => "SIGHUP" | .SIGINT => "SIGINT" | .SIGQUIT => "SIGQUIT" | .SIGILL => "SIGILL"
  | .SIGTRAP => "SIGTRAP" | .SIGABRT => "SIGABRT" | .SIGBUS => "SIGBUS" | .SIGFPE => "SIGFPE"
  | .SIGKILL => "SIGKILL" | .SIGUSR1 => "SIGUSR1" | .SIGSEGV => "SIGSEGV"
  | .SIGUSR2 => "SIGUSR2" | .SIGPIPE => "SIGPIPE" | .SIGALRM => "SIGALRM"
  | .SIGTERM => "SIGTERM" | .SIGSTKFLT => "SIGSTKFLT" | .SIGCHLD => "SIGCHLD"
  | .SIGCONT => "SIGCONT" | .SIGSTOP => "SIGSTOP" | .SIGTSTP => "SIGTSTP"
  | .SIGTTIN => "SIGTTIN" | .SIGTTOU => "SIGTTOU" | .SIGURG => "SIGURG" | .SIGXCPU => "SIGXCPU"
  | .SIGXFSZ => "SIGXFSZ" | .SIGVTALRM => "SIGVTALRM" | .SIGPROF => "SIGPROF"
  | .SIGWINCH => "SIGWINCH" | Signal.SIGIO => "SIGIO" | .SIGPWR => "SIGPWR" | .SIGSYS => "SIGSYS"

/-- `enum ChildTermination` (`signal_handler.rs`, lines 917–923). -/
inductive ChildTermination
  | signal (sig : Signal) (coreDumped : Bool)
  | exit (code : ℤ)
  deriving DecidableEq, Repr

/-- `ChildTermination::success` (`signal_handler.rs`, lines 937–942). -/
def ChildTermination.success : ChildTermination → Bool
  | .signal .. => false
  | .exit code => code == 0

/-- The derived `Debug` text. -/
def ChildTermination.debug : ChildTermination → String
  | .signal sig true => "Signal(" ++ sig.text ++ ", true)"
  | .signal sig false => "Signal(" ++ sig.text ++ ", false)"
  | .exit code => "Exit(" ++ toString code ++ ")"

/-! ## The unit -/

/-- `enum KillMode` (`units/unit_parsing/mod.rs`, lines 3868–3878). -/
inductive KillMode
  | controlGroup | process | mixed | none
  deriving DecidableEq, Repr

/-- `enum Timeout`, in milliseconds. -/
inductive Timeout
  | duration (ms : ℕ)
  | infinity
  deriving DecidableEq, Repr

def Timeout.deadline : Timeout → Option ℕ
  | .duration ms => some ms
  | .infinity => Option.none

/-- `usize::MAX`. -/
def usizeMax : ℕ := 2 ^ 64 - 1

/-- What the stop chain reads of a `ServiceConfig`. -/
structure ServiceConfig where
  stop : List Commandline := []
  stoppost : List Commandline := []
  killMode : KillMode := .controlGroup
  stoptimeout : Option Timeout := Option.none
  generaltimeout : Option Timeout := Option.none
  /-- The length of a vector is a `usize`. -/
  stoppost_le : stoppost.length ≤ usizeMax := by decide

/-- `get_stop_timeout` (`services/services.rs`, lines 1522–1537). -/
def ServiceConfig.getStopTimeout (conf : ServiceConfig) : Option ℕ :=
  match conf.stoptimeout with
  | some timeout => timeout.deadline
  | Option.none =>
    match conf.generaltimeout with
    | some timeout => timeout.deadline
    | Option.none => some 1000

/-- What the table holds under the chain's id: a service, or a unit of another type. -/
inductive StopUnit
  | service (conf : ServiceConfig)
  | other

/-- The unit of a chain: not loaded, or loaded and possibly masked. -/
structure Host where
  unit : Option StopUnit
  masked : Bool

/-! ## The chain -/

/-- `enum StopPhase` (lines 33–41). -/
inductive StopPhase
  | execStop (idx : ℕ)
  | awaitMainExit
  | poststop (idx : ℕ)
  deriving DecidableEq, Repr

/-- `struct ServiceStopChain` (lines 21–31), without its id and job. -/
structure ServiceStopChain where
  phase : StopPhase
  errors : List String
  deriving DecidableEq, Repr

/-- `advance_stop_index` (lines 348–354). -/
def advanceStopIndex : StopPhase → StopPhase
  | .execStop idx => .execStop (idx + 1)
  | .awaitMainExit => .awaitMainExit
  | .poststop idx => .poststop (idx + 1)

/-- `skip_current_stop_phase` (lines 359–365). -/
def skipCurrentStopPhase : StopPhase → StopPhase
  | .execStop _ => .awaitMainExit
  | .awaitMainExit => .poststop 0
  | .poststop _ => .poststop usizeMax

/-- `enum Action` of `service_stop_chain_step` (lines 68–74). -/
inductive Action
  | forkHelper (cmd : Commandline)
  | initiateTerm
  | nextPhase (phase : StopPhase)
  | finalize
  | nonService
  deriving DecidableEq, Repr

/-- The action of a service in a phase (lines 83–108). -/
def ServiceConfig.action (conf : ServiceConfig) (masked : Bool) : StopPhase → Action
  | .execStop idx =>
    if masked then .finalize
    else match conf.stop[idx]? with
      | Option.none => .nextPhase .awaitMainExit
      | some cmd => .forkHelper cmd
  | .awaitMainExit => if masked then .finalize else .initiateTerm
  | .poststop idx =>
    match conf.stoppost[idx]? with
    | Option.none => .finalize
    | some cmd => .forkHelper cmd

/-- A process id. -/
abbrev Pid := ℕ

/-- What the terminate phase reads of the service's state and of the pid table
    (lines 196–232): `tablePid` is the entry found by name, `alive` the live
    service entries. -/
structure MainProcess where
  mainPid : Option Pid := Option.none
  pid : Option Pid := Option.none
  tablePid : Option Pid := Option.none
  alive : List Pid := []
  processGroup : Option Pid := Option.none
  deriving DecidableEq, Repr

/-- The target of SIGTERM and the main pid (lines 200–232). -/
def MainProcess.target (m : MainProcess) (killMode : KillMode) : Option (Pid × Pid) :=
  match killMode, (m.mainPid.or m.pid).or m.tablePid with
  | .none, _ => Option.none
  | _, Option.none => Option.none
  | .controlGroup, some pid =>
    if pid ∈ m.alive then some (m.processGroup.getD pid, pid) else Option.none
  | _, some pid => if pid ∈ m.alive then some (pid, pid) else Option.none

/-- The answer of `kill(target, SIGTERM)`. -/
inductive KillResult
  | ok
  | esrch
  | err (e : String)
  deriving DecidableEq, Repr

/-! ## What a run did -/

/-- How a helper command ended. -/
inductive CmdOutcome
  | spawnFailed (e : String)
  | exited (termination : ChildTermination)
  | timedOut
  deriving DecidableEq, Repr

/-- How the terminate phase ended. -/
inductive TermOutcome
  | nothingAlive | signalFailed | mainExited | mainTimedOut
  deriving DecidableEq, Repr

/-- Which list a command is from. -/
inductive Stage
  | stop | poststop
  deriving DecidableEq, Repr

/-- Something the chain did, with how it ended. -/
inductive Entry
  | ran (stage : Stage) (cmd : Commandline) (outcome : CmdOutcome)
  | terminated (outcome : TermOutcome)
  | finalized
  deriving DecidableEq, Repr

/-- The stage of a command run in a phase. -/
def StopPhase.stage : StopPhase → Stage
  | .poststop _ => .poststop
  | _ => .stop

/-! ## The state machine -/

/-- Where a chain is: inside `service_stop_chain_step`, parked in the
    dispatcher, or finished. -/
inductive Control
  | stepping
  | awaitingHelper (cmd : Commandline) (timeout : Option ℕ)
  | awaitingMain (pid : Pid) (timeout : Option ℕ)
  | finished
  deriving DecidableEq, Repr

/-- A chain with the status of its unit and the log of what it did. -/
structure State where
  chain : ServiceStopChain
  control : Control
  status : UnitStatus
  statusErrors : List String
  log : List Entry
  deriving DecidableEq, Repr

/-- `start_stop_chain` (`dispatcher.rs`, lines 1060–1071). -/
def State.initial (status : UnitStatus) (statusErrors : List String) : State where
  chain := { phase := .execStop 0, errors := [] }
  control := .stepping
  status := status
  statusErrors := statusErrors
  log := []

inductive Event
  | tick
  | forked
  | forkFailed (e : String)
  | term (main : MainProcess) (sent : KillResult)
  | deactivated (err : Option String)
  | helperExited (termination : ChildTermination)
  | helperTimedOut
  | mainExited
  | mainTimedOut
  deriving DecidableEq, Repr

/-- A command is over; the chain goes on in `phase`. -/
def State.ranCmd (s : State) (cmd : Commandline) (outcome : CmdOutcome) (errors : List String)
    (phase : StopPhase) : State :=
  { s with
    chain := { phase := phase, errors := s.chain.errors ++ errors }
    control := .stepping
    log := s.log ++ [.ran s.chain.phase.stage cmd outcome] }

/-- The terminate phase is over. -/
def State.terminated (s : State) (outcome : TermOutcome) (errors : List String) : State :=
  { s with
    chain := { phase := .poststop 0, errors := s.chain.errors ++ errors }
    control := .stepping
    log := s.log ++ [.terminated outcome] }

/-- The status a deliberate stop sets (lines 189–194). -/
def State.markStopping (s : State) : State :=
  if s.status.isStopped then s else { s with status := .stopping, statusErrors := [] }

/-- `finalize_stop_chain` (lines 370–485): the final status with the collected errors. -/
def State.finalize (s : State) : State :=
  { s with
    control := .finished
    status := .stopped .stoppedFinal
    statusErrors := s.chain.errors
    log := s.log ++ [.finalized] }

/-- `Action::ForkHelper` (lines 128–175). -/
def State.forkHelper (s : State) (conf : ServiceConfig) (cmd : Commandline) :
    Event → Option State
  | .forked => some { s with control := .awaitingHelper cmd conf.getStopTimeout }
  | .forkFailed e =>
    if cmd.ignoresFailure then
      some (s.ranCmd cmd (.spawnFailed e) [] (advanceStopIndex s.chain.phase))
    else
      some (s.ranCmd cmd (.spawnFailed e) ["Failed to spawn " ++ cmd.display ++ ": " ++ e]
        (skipCurrentStopPhase s.chain.phase))
  | _ => none

/-- `Action::InitiateTerm` (lines 176–261). -/
def State.initiateTerm (s : State) (conf : ServiceConfig) : Event → Option State
  | .term main sent =>
    match main.target conf.killMode, sent with
    | some (_, pid), .ok =>
      some { s.markStopping with control := .awaitingMain pid conf.getStopTimeout }
    | some _, _ => some (s.markStopping.terminated .signalFailed [])
    | Option.none, _ => some (s.markStopping.terminated .nothingAlive [])
  | _ => none

/-- One turn of the loop for a service (lines 82–267). -/
def State.serviceTurn (s : State) (conf : ServiceConfig) (masked : Bool) (e : Event) :
    Option State :=
  match conf.action masked s.chain.phase with
  | .forkHelper cmd => s.forkHelper conf cmd e
  | .initiateTerm => s.initiateTerm conf e
  | .nextPhase phase =>
    if e = .tick then some { s with chain := { s.chain with phase := phase } } else none
  | .finalize => if e = .tick then some s.finalize else none
  | .nonService => none

/-- One turn of the loop of `service_stop_chain_step` (lines 75–267). The
    deactivation of another type of unit sets that unit's status itself. -/
def State.turn (s : State) (h : Host) (e : Event) : Option State :=
  match h.unit with
  | Option.none => if e = .tick then some { s with control := .finished } else none
  | some .other =>
    match e with
    | .deactivated err =>
      some { s with
        chain := { s.chain with errors := s.chain.errors ++ err.toList }
        control := .finished }
    | _ => none
  | some (.service conf) => s.serviceTurn conf h.masked e

/-- `service_stop_chain_helper_exited` (lines 273–306) and the timeout of a
    helper (`dispatcher.rs`, lines 948–960). -/
def State.helperOver (s : State) (cmd : Commandline) (timeout : Option ℕ) : Event → Option State
  | .helperExited termination =>
    if termination.success || cmd.ignoresFailure then
      some (s.ranCmd cmd (.exited termination) [] (advanceStopIndex s.chain.phase))
    else
      some (s.ranCmd cmd (.exited termination)
        [cmd.display ++ " exited with " ++ termination.debug]
        (skipCurrentStopPhase s.chain.phase))
  | .helperTimedOut =>
    if timeout.isSome then
      some (s.ranCmd cmd .timedOut [cmd.display ++ " timed out"]
        (skipCurrentStopPhase s.chain.phase))
    else none
  | _ => none

/-- `service_stop_chain_main_exited` (lines 340–346) and
    `service_stop_chain_main_timeout` (lines 311–326). -/
def State.mainOver (s : State) (timeout : Option ℕ) : Event → Option State
  | .mainExited => some (s.terminated .mainExited [])
  | .mainTimedOut =>
    if timeout.isSome then some (s.terminated .mainTimedOut ["stop timed out"]) else none
  | _ => none

/-- One turn of the loop, or one event for a parked chain. -/
def step (h : Host) (s : State) (e : Event) : Option State :=
  match s.control with
  | .stepping => s.turn h e
  | .awaitingHelper cmd timeout => s.helperOver cmd timeout e
  | .awaitingMain _ timeout => s.mainOver timeout e
  | .finished => none

/-! ## What a chain is to do -/

/-- The error of a command: of a failure that is not ignored, and of any timeout. -/
def CmdOutcome.error? (cmd : Commandline) : CmdOutcome → Option String
  | .spawnFailed e =>
    if cmd.ignoresFailure then none else some ("Failed to spawn " ++ cmd.display ++ ": " ++ e)
  | .exited termination =>
    if termination.success || cmd.ignoresFailure then none
    else some (cmd.display ++ " exited with " ++ termination.debug)
  | .timedOut => some (cmd.display ++ " timed out")

/-- The error of an entry of the log. -/
def Entry.error? : Entry → Option String
  | .ran _ cmd outcome => outcome.error? cmd
  | .terminated .mainTimedOut => some "stop timed out"
  | .terminated _ => none
  | .finalized => none

/-- A thing to do. -/
inductive StopAction
  | run (stage : Stage) (cmd : Commandline)
  | terminate
  | finalize
  deriving DecidableEq, Repr

def Entry.action : Entry → StopAction
  | .ran stage cmd _ => .run stage cmd
  | .terminated _ => .terminate
  | .finalized => .finalize

/-- What a parked chain is in the middle of. -/
def State.inFlight (s : State) : List StopAction :=
  match s.control with
  | .awaitingHelper cmd _ => [.run s.chain.phase.stage cmd]
  | .awaitingMain .. => [.terminate]
  | _ => []

/-- Everything the chain has begun, in order. -/
def State.begun (s : State) : List StopAction := s.log.map Entry.action ++ s.inFlight

/-- Everything a chain may do, in order. -/
def ServiceConfig.plan (conf : ServiceConfig) : List StopAction :=
  conf.stop.map (.run .stop) ++ .terminate :: (conf.stoppost.map (.run .poststop) ++ [.finalize])

/-- The commands a stage has run, with how they ended. -/
abbrev Runs := List (Commandline × CmdOutcome)

/-- The entries of the commands a stage has run. -/
def entries (stage : Stage) (runs : Runs) : List Entry := runs.map fun r => .ran stage r.1 r.2

/-- A stage that is over: it ran all its commands, or up to the first one with an error. -/
def StageOver (cmds : List Commandline) (runs : Runs) : Prop :=
  runs.map Prod.fst = cmds ∨ ∃ r ∈ runs.getLast?, (r.2.error? r.1).isSome

/-- A stage has run a prefix of its commands and nothing after an error. -/
structure InOrder (cmds : List Commandline) (runs : Runs) : Prop where
  initial : runs.map Prod.fst <+: cmds
  noError : ∀ r ∈ runs.dropLast, r.2.error? r.1 = none

/-- The stages of a log: which commands ran, how the main process ended, whether
    the chain is finalised. A stage is begun only when the one before it is over. -/
structure Stages (conf : ServiceConfig) (s : State) (stop : Runs) (term : Option TermOutcome)
    (post : Runs) (fin : Bool) : Prop where
  log : s.log = entries .stop stop ++ (term.toList.map .terminated ++ (entries .poststop post ++
    if fin then [.finalized] else []))
  stopOrder : InOrder conf.stop stop
  postOrder : InOrder conf.stoppost post
  terminate : .terminate ∈ s.begun → StageOver conf.stop stop
  poststop : ∀ cmd, .run .poststop cmd ∈ s.begun → term.isSome
  finished : s.control = .finished ↔ fin
  finalize : fin → term.isSome ∧ StageOver conf.stoppost post

/-- What holds of a service's chain after any events. -/
structure ChainSpec (conf : ServiceConfig) (s : State) : Prop where
  /-- The actions are begun in the order of the plan, each at most once. -/
  order : s.begun.Sublist conf.plan
  stages : ∃ stop term post fin, Stages conf s stop term post fin
  /-- The errors are those of the failures that are not ignored and of the timeouts. -/
  errors : s.chain.errors = s.log.filterMap Entry.error?
  /-- The final status carries them. -/
  status : s.control = .finished →
    s.status = .stopped .stoppedFinal ∧ s.statusErrors = s.chain.errors

end OxidizedSystemd.Units.StopChain
