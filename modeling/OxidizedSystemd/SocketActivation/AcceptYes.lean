import OxidizedSystemd.Lib.Assoc
import OxidizedSystemd.Lib.Run
import OxidizedSystemd.Lib.Text
import Mathlib.Algebra.Order.Group.Multiset
import Mathlib.Tactic.Abel

/-!
# `Accept=yes` sockets

Models of `handle_accept_yes` and `count_connections_per_source`
(`socket_activation.rs`, lines 542–785). The sections of `handle_accept_yes` hold a lock
each; one thread runs it, for one connection after the other, and instances exit between
any two sections. The rate limits in front of `accept()` are left out: a wakeup that they
stop accepts no connection.

* `Inv.step`: what every section and every exit preserves.
* `accounted_iff`: the connections of a run are accounted for exactly if every
    activation starts its instance.
-/

namespace OxidizedSystemd.SocketActivation

open OxidizedSystemd.Lib

abbrev Text := List Char

/-! ## The unit table -/

/-- A connection that `accept()` returned: the socket it came from and its descriptor, which is
    told apart from a later one with the same number. -/
structure Connection where
  socket : Text
  fd : ℕ
deriving DecidableEq

/-- `SocketConfig` and the state of the socket. -/
structure Sock where
  services : List Text
  maxConnections : ℕ
  maxConnectionsPerSource : ℕ
  acceptCounter : ℕ := 0
  activeAcceptConnections : ℕ := 0

/-- The main process of a service and the connection that it serves. -/
structure Process where
  pid : ℕ
  connection : Option Connection

/-- `Service`. -/
structure Service where
  pid : Option Process := none
  acceptedFd : Option Connection := none
  acceptedPeerUid : Option ℕ := none

/-- `Specific`. -/
inductive Specific where
  | socket (sock : Sock)
  | service (srvc : Service)
  | other

/-- `UnitTable`, by the names of the units. -/
abbrev UnitTable := AList fun _ : Text => Specific

/-- A change of a socket that is in the table. -/
def modifySock (table : UnitTable) (id : Text) (f : Sock → Sock) : UnitTable :=
  match table.lookup id with
  | some (.socket sock) => table.insert id (.socket (f sock))
  | _ => table

/-- `accept_counter` and `active_accept_connections` of a socket (lines 589–605). -/
def counters (table : UnitTable) (id : Text) : ℕ × ℕ :=
  match table.lookup id with
  | some (.socket sock) => (sock.acceptCounter, sock.activeAcceptConnections)
  | _ => (0, 0)

/-! ## Names of templates and instances -/

/-- `is_template` (`unit_name.rs`, lines 472–480). -/
def isTemplate (name : Text) : Bool :=
  match splitOnce ['@'] name, rsplitOnce '.' name with
  | some (before, _), some (front, _) => before.length + 1 = front.length
  | _, _ => false

/-- `template_instantiate` (`unit_name.rs`, lines 500–512). -/
def templateInstantiate (template inst : Text) : Option Text :=
  if isTemplate template then
    match splitOnce ['@'] template, rsplitOnce '.' template with
    | some (before, _), some (_, suffix) => some (before ++ ['@'] ++ inst ++ ['.'] ++ suffix)
    | _, _ => none
  else none

/-- `strip_suffix(".socket").unwrap_or(name)`. -/
def baseName (name : Text) : Text :=
  match stripPrefix ".socket".toList.reverse name.reverse with
  | some base => base.reverse
  | none => name

/-- The template of an `Accept=yes` socket (lines 146–179). -/
def templateServiceName (socketId : Text) : List Text → Text
  | [] => baseName socketId ++ "@.service".toList
  | srvcId :: services =>
    if isTemplate srvcId then srvcId
    else
      match splitOnce ['@'] srvcId, rsplitOnce '.' srvcId with
      | some (before, _), some (_, suffix) => before ++ "@.".toList ++ suffix
      -- every unit name has a dot
      | _, _ => templateServiceName socketId services

/-- `SocketActivationInfo`, of an `Accept=yes` socket. -/
structure SocketActivationInfo where
  socketId : Text
  template : Text
  maxConnections : ℕ
  maxConnectionsPerSource : ℕ

/-- `gather_socket_info` (lines 110–221). -/
def gatherSocketInfo (table : UnitTable) (socketId : Text) : Option SocketActivationInfo :=
  match table.lookup socketId with
  | some (.socket sock) =>
    some ⟨socketId, templateServiceName socketId sock.services, sock.maxConnections,
      sock.maxConnectionsPerSource⟩
  | _ => none

/-- `count_connections_per_source` (lines 757–784). -/
def countConnectionsPerSource (table : UnitTable) (socketName : Text) (uid : ℕ) : ℕ :=
  (table.entries.filter fun e =>
    (baseName socketName ++ ['@']).isPrefixOf e.1 && ".service".toList.isSuffixOf e.1 &&
      match e.2 with
      | .service srvc => srvc.pid.isSome && srvc.acceptedPeerUid == some uid
      | _ => false).length

/-! ## The handler and the system -/

/-- Where `handle_accept_yes` is, with its variables. -/
inductive Handling where
  | idle
  | accepted (info : SocketActivationInfo) (conn : Connection) (peerUid : Option ℕ)
  | read (info : SocketActivationInfo) (conn : Connection) (peerUid : Option ℕ)
      (counter active : ℕ)
  | admitted (info : SocketActivationInfo) (conn : Connection) (peerUid : Option ℕ)
      (instanceName : Text)
  | counted (info : SocketActivationInfo) (conn : Connection) (peerUid : Option ℕ)
      (instanceName : Text)
  | inserted (info : SocketActivationInfo) (conn : Connection) (instanceName : Text)

/-- What `activate_unit` did: it forked the main process, the fork failed, or it came back
    without a fork (with an error, or because the unit runs or is skipped). -/
inductive Activation where
  | started (pid : ℕ)
  | forkFailed
  | notStarted
deriving DecidableEq

structure System where
  unitTable : UnitTable
  handling : Handling := .idle
  accepted : List Connection := []
  closed : List Connection := []

inductive Action where
  | accept (socketId : Text) (fd : ℕ) (peerUid : Option ℕ)
  | readCounters
  | checkLimits
  | increment
  | instantiate (found : Bool)
  | activate (outcome : Activation)
  | exit (name : Text)

/-- The slot of a connection is given back, with `saturating_sub`. -/
def freeSlot (table : UnitTable) (socketId : Text) : UnitTable :=
  modifySock table socketId fun sock =>
    { sock with activeAcceptConnections := sock.activeAcceptConnections - 1 }

/-- `libc::close(accepted_fd); return`. -/
def System.reject (s : System) (conn : Connection) : System :=
  { s with handling := .idle, closed := s.closed ++ [conn] }

/-- The limits and the name of the instance (lines 607–644). -/
def System.checkLimits (s : System) (info : SocketActivationInfo) (conn : Connection)
    (peerUid : Option ℕ) (counter active : ℕ) : System :=
  if active ≥ info.maxConnections then s.reject conn
  else if peerUid.any fun uid =>
      countConnectionsPerSource s.unitTable info.socketId uid ≥ info.maxConnectionsPerSource then
    s.reject conn
  else
    match templateInstantiate info.template (decimal counter) with
    | none => s.reject conn
    | some instanceName => { s with handling := .admitted info conn peerUid instanceName }

/-- The instance in the unit table (lines 669–719). A template of a service gives a service. -/
def System.instantiate (s : System) (info : SocketActivationInfo) (conn : Connection)
    (peerUid : Option ℕ) (instanceName : Text) (found : Bool) : System :=
  match s.unitTable.lookup instanceName with
  | none =>
    if found then
      { s with
        unitTable := s.unitTable.insert instanceName
          (.service { acceptedFd := some conn, acceptedPeerUid := peerUid })
        handling := .inserted info conn instanceName }
    else
      System.reject { s with unitTable := freeSlot s.unitTable info.socketId } conn
  | some (.service srvc) =>
    { s with
      unitTable := s.unitTable.insert instanceName (.service { srvc with acceptedFd := some conn })
      handling := .inserted info conn instanceName }
  | some _ => { s with handling := .inserted info conn instanceName }

/-- The activation of the instance (lines 721–754). The parent of a fork takes `accepted_fd`
    and closes it, also when the fork failed (`start_service.rs`, lines 1378–1436). -/
def System.activate (s : System) (instanceName : Text) (outcome : Activation) : Option System :=
  match outcome, s.unitTable.lookup instanceName with
  | .notStarted, _ => some { s with handling := .idle }
  | .started pid, some (.service srvc) =>
    -- `start` refuses a service with a process
    if srvc.pid.isSome then none
    else some { s with
      unitTable := s.unitTable.insert instanceName
        (.service { srvc with pid := some ⟨pid, srvc.acceptedFd⟩, acceptedFd := none })
      handling := .idle
      closed := s.closed ++ srvc.acceptedFd.toList }
  | .forkFailed, some (.service srvc) =>
    some { s with
      unitTable := s.unitTable.insert instanceName (.service { srvc with acceptedFd := none })
      handling := .idle
      closed := s.closed ++ srvc.acceptedFd.toList }
  | _, _ => none

/-- The exit of the main process of a service, with the slot of the connection that it served. -/
def System.exit (s : System) (name : Text) : Option System :=
  match s.unitTable.lookup name with
  | some (.service srvc) =>
    srvc.pid.map fun process =>
      let table := s.unitTable.insert name (.service { srvc with pid := none })
      match process.connection with
      | none => { s with unitTable := table }
      | some conn => { s with unitTable := freeSlot table conn.socket }
  | _ => none

/-- One section of `handle_accept_yes`, or an exit. -/
def System.step (s : System) : Action → Option System
  | .accept socketId fd peerUid =>
    match s.handling, gatherSocketInfo s.unitTable socketId with
    | .idle, some info =>
      some { s with
        handling := .accepted info ⟨socketId, fd⟩ peerUid
        accepted := s.accepted ++ [⟨socketId, fd⟩] }
    | _, _ => none
  | .readCounters =>
    match s.handling with
    | .accepted info conn peerUid =>
      let (counter, active) := counters s.unitTable info.socketId
      some { s with handling := .read info conn peerUid counter active }
    | _ => none
  | .checkLimits =>
    match s.handling with
    | .read info conn peerUid counter active =>
      some (s.checkLimits info conn peerUid counter active)
    | _ => none
  | .increment =>
    match s.handling with
    | .admitted info conn peerUid instanceName =>
      some { s with
        unitTable := modifySock s.unitTable info.socketId fun sock =>
          { sock with
            acceptCounter := sock.acceptCounter + 1
            activeAcceptConnections := sock.activeAcceptConnections + 1 }
        handling := .counted info conn peerUid instanceName }
    | _ => none
  | .instantiate found =>
    match s.handling with
    | .counted info conn peerUid instanceName =>
      some (s.instantiate info conn peerUid instanceName found)
    | _ => none
  | .activate outcome =>
    match s.handling with
    | .inserted _ _ instanceName => s.activate instanceName outcome
    | _ => none
  | .exit name => s.exit name

/-! ## What is to hold -/

/-- Whether a unit serves a connection of a socket. -/
def liveOf (id : Text) : Specific → ℕ
  | .service srvc => if ∃ p ∈ srvc.pid, ∃ c ∈ p.connection, c.socket = id then 1 else 0
  | _ => 0

/-- The slot of the socket that the handler has taken for the instance that it starts. -/
def Handling.slot (id : Text) : Handling → ℕ
  | .counted info _ _ _ | .inserted info _ _ => if info.socketId = id then 1 else 0
  | _ => 0

/-- The descriptors that the handler is still to dispose of. -/
def Handling.held : Handling → List Connection
  | .idle => []
  | .accepted _ conn _ | .read _ conn _ _ _ | .admitted _ conn _ _ | .counted _ conn _ _
  | .inserted _ conn _ => [conn]

/-- The connections are accounted for. -/
structure Accounted (s : System) : Prop where
  /-- The count is the number of instances that start or run. -/
  count : ∀ id sock, s.unitTable.lookup id = some (.socket sock) →
    sock.activeAcceptConnections = total (liveOf id) s.unitTable + s.handling.slot id
  /-- The count does not exceed `MaxConnections=`. -/
  within : ∀ id sock, s.unitTable.lookup id = some (.socket sock) →
    sock.activeAcceptConnections ≤ sock.maxConnections
  /-- Every connection but the one that is being handled has its descriptor closed, once. -/
  closed : (s.accepted : Multiset Connection) = s.closed + s.handling.held

/-! ## Changes of the table -/

/-- A change of sockets, on the units. -/
def onSock (f : Sock → Sock) : Specific → Specific
  | .socket sock => .socket (f sock)
  | spec => spec

variable {table : UnitTable} {id name : Text} {f : Sock → Sock}

theorem lookup_modifySock (a : Text) :
    (modifySock table id f).lookup a =
      if a = id then (table.lookup a).map (onSock f) else table.lookup a := by
  unfold modifySock
  split
  · rename_i sock hsock
    rw [lookup_insert_eq]
    split_ifs with ha
    · rw [ha, hsock]
      rfl
    · rfl
  · rename_i hsock
    split_ifs with ha
    · rw [ha]
      cases h : table.lookup id with
      | none => rfl
      | some spec =>
        cases spec with
        | socket sock => exact absurd h (hsock sock)
        | service srvc => rfl
        | other => rfl
    · rfl

/-- A change of a socket changes no instance. -/
theorem total_modifySock (i : Text) :
    total (liveOf i) (modifySock table id f) = total (liveOf i) table := by
  apply total_congr
  intro a
  rw [lookup_modifySock]
  split_ifs
  · rw [Option.map_map]
    congr 1
    funext spec
    cases spec <;> rfl
  · rfl

theorem lookup_modifySock_service {srvc : Service} :
    (modifySock table id f).lookup name = some (.service srvc) ↔
      table.lookup name = some (.service srvc) := by
  rw [lookup_modifySock]
  split_ifs
  · cases table.lookup name with
    | none => simp
    | some spec => cases spec <;> simp [onSock]
  · rfl

theorem lookup_modifySock_socket {sock' : Sock} {a : Text} :
    (modifySock table id f).lookup a = some (.socket sock') ↔
      ∃ sock, table.lookup a = some (.socket sock) ∧
        sock' = if a = id then f sock else sock := by
  rw [lookup_modifySock]
  split_ifs
  · cases table.lookup a with
    | none => simp
    | some spec => cases spec <;> simp [onSock, eq_comm]
  · simp

/-- The sockets of a table in which a unit that is no socket has been replaced by a service. -/
theorem lookup_insert_socket {srvc : Service} {sock : Sock}
    (h : ∀ sock, table.lookup name ≠ some (.socket sock)) :
    (table.insert name (.service srvc)).lookup id = some (.socket sock) ↔
      table.lookup id = some (.socket sock) := by
  rw [lookup_insert_eq]
  split_ifs with hid
  · constructor
    · intro heq
      cases heq
    · intro hsock
      rw [hid] at hsock
      exact absurd hsock (h sock)
  · rfl

/-! ## The invariant -/

namespace Handling

/-- The socket and the connection that are being handled. -/
def current : Handling → Option (SocketActivationInfo × Connection)
  | .idle => none
  | .accepted info conn _ | .read info conn _ _ _ | .admitted info conn _ _
  | .counted info conn _ _ | .inserted info conn _ => some (info, conn)

/-- The descriptors that wait in the table for an activation. -/
def pending : Handling → Text → Option Connection
  | .inserted _ conn instanceName => fun name => if name = instanceName then some conn else none
  | _ => fun _ => none

/-- The count may have gone down since it was read, and never up. -/
def Seen (table : UnitTable) : Handling → Prop
  | .read info _ _ _ active => (counters table info.socketId).2 ≤ active
  | .admitted info _ _ _ => (counters table info.socketId).2 < info.maxConnections
  | _ => True

end Handling

/-- The invariant of the runs in which every activation starts its instance. -/
structure Inv (s : System) : Prop extends Accounted s where
  fds : ∀ name srvc, s.unitTable.lookup name = some (.service srvc) →
    srvc.acceptedFd = s.handling.pending name
  gathered : ∀ info conn, s.handling.current = some (info, conn) → conn.socket = info.socketId ∧
    ∃ sock, s.unitTable.lookup info.socketId = some (.socket sock) ∧
      sock.maxConnections = info.maxConnections
  seen : s.handling.Seen s.unitTable

theorem counters_of_lookup {sock : Sock} (h : table.lookup id = some (.socket sock)) :
    counters table id = (sock.acceptCounter, sock.activeAcceptConnections) := by
  rw [counters, h]

theorem gatherSocketInfo_eq_some {info : SocketActivationInfo}
    (h : gatherSocketInfo table id = some info) : info.socketId = id ∧
      ∃ sock, table.lookup id = some (.socket sock) ∧
        sock.maxConnections = info.maxConnections := by
  unfold gatherSocketInfo at h
  split at h
  · rename_i sock hsock
    obtain rfl := Option.some.inj h
    exact ⟨rfl, sock, hsock, rfl⟩
  · cases h

namespace Inv

variable {s s' : System}

/-- A section that leaves the table as it is. -/
theorem of_handling (hs : Inv s) {handling : Handling} {accepted closed : List Connection}
    (hslot : ∀ id, handling.slot id = s.handling.slot id)
    (hpending : handling.pending = s.handling.pending)
    (hclosed : (accepted : Multiset Connection) = closed + handling.held)
    (hgathered : ∀ info conn, handling.current = some (info, conn) →
      conn.socket = info.socketId ∧
        ∃ sock, s.unitTable.lookup info.socketId = some (.socket sock) ∧
          sock.maxConnections = info.maxConnections)
    (hseen : handling.Seen s.unitTable) :
    Inv ⟨s.unitTable, handling, accepted, closed⟩ where
  count := by
    intro id sock hsock
    rw [hs.count id sock hsock, hslot id]
  within := hs.within
  closed := hclosed
  fds := by
    intro name srvc hsrvc
    rw [hs.fds name srvc hsrvc, hpending]
  gathered := hgathered
  seen := hseen

/-- A rejection that leaves the table as it is. -/
theorem reject (hs : Inv s) {conn : Connection} (hslot : ∀ id, s.handling.slot id = 0)
    (hpending : s.handling.pending = fun _ => none) (hheld : s.handling.held = [conn]) :
    Inv (s.reject conn) := by
  refine hs.of_handling (fun id => (hslot id).symm) hpending.symm ?_ ?_ trivial
  · rw [hs.closed, hheld, ← Multiset.coe_add]
    simp [Handling.held]
  · intro info conn h
    cases h

theorem accept (hs : Inv s) {socketId : Text} {fd : ℕ} {peerUid : Option ℕ}
    (h : s.step (.accept socketId fd peerUid) = some s') : Inv s' := by
  simp only [System.step] at h
  split at h
  · rename_i info hidle hinfo
    obtain rfl := Option.some.inj h
    obtain ⟨rfl, hsock⟩ := gatherSocketInfo_eq_some hinfo
    refine hs.of_handling ?_ ?_ ?_ ?_ trivial
    · intro id
      rw [hidle]
      rfl
    · rw [hidle]
      rfl
    · have hclosed := hs.closed
      rw [hidle] at hclosed
      rw [← Multiset.coe_add, hclosed]
      simp [Handling.held]
    · intro info' conn hcurrent
      cases hcurrent
      exact ⟨rfl, hsock⟩
  · cases h

theorem readCounters (hs : Inv s) (h : s.step .readCounters = some s') : Inv s' := by
  simp only [System.step] at h
  split at h
  · rename_i info conn peerUid hhandling
    obtain rfl := Option.some.inj h
    have hgathered := hs.gathered info conn (by rw [hhandling]; rfl)
    refine hs.of_handling ?_ ?_ ?_ ?_ ?_
    · intro id
      rw [hhandling]
      rfl
    · rw [hhandling]
      rfl
    · rw [hs.closed, hhandling]
      rfl
    · intro info' conn' hcurrent
      cases hcurrent
      exact hgathered
    · exact le_refl _
  · cases h

theorem checkLimits (hs : Inv s) (h : s.step .checkLimits = some s') : Inv s' := by
  simp only [System.step] at h
  split at h
  · rename_i info conn peerUid counter active hhandling
    obtain rfl := Option.some.inj h
    have hreject : Inv (s.reject conn) := by
      apply hs.reject
      · intro id
        rw [hhandling]
        rfl
      · rw [hhandling]
        rfl
      · rw [hhandling]
        rfl
    unfold System.checkLimits
    split_ifs with hmax hsource
    · exact hreject
    · exact hreject
    · cases templateInstantiate info.template (decimal counter) with
      | none => exact hreject
      | some instanceName =>
        have hgathered := hs.gathered info conn (by rw [hhandling]; rfl)
        have hseen := hs.seen
        rw [hhandling] at hseen
        refine hs.of_handling ?_ ?_ ?_ ?_ ?_
        · intro id
          rw [hhandling]
          rfl
        · rw [hhandling]
          rfl
        · rw [hs.closed, hhandling]
          rfl
        · intro info' conn' hcurrent
          cases hcurrent
          exact hgathered
        · exact lt_of_le_of_lt hseen (not_le.mp hmax)
  · cases h

theorem increment (hs : Inv s) (h : s.step .increment = some s') : Inv s' := by
  simp only [System.step] at h
  split at h
  · rename_i info conn peerUid instanceName hhandling
    obtain rfl := Option.some.inj h
    obtain ⟨hconn, sock₀, hsock₀, hmax⟩ := hs.gathered info conn (by rw [hhandling]; rfl)
    have hseen := hs.seen
    rw [hhandling, Handling.Seen, counters_of_lookup hsock₀, ← hmax] at hseen
    refine ⟨⟨?_, ?_, ?_⟩, ?_, ?_, trivial⟩
    · intro id sock' hsock'
      obtain ⟨sock, hsock, rfl⟩ := lookup_modifySock_socket.mp hsock'
      have hcount := hs.count id sock hsock
      rw [hhandling] at hcount
      rw [total_modifySock]
      by_cases hid : id = info.socketId
      · simp [hid, Handling.slot] at hcount ⊢
        omega
      · simp [hid, Ne.symm hid, Handling.slot] at hcount ⊢
        omega
    · intro id sock' hsock'
      obtain ⟨sock, hsock, rfl⟩ := lookup_modifySock_socket.mp hsock'
      split_ifs with hid
      · rw [hid, hsock₀] at hsock
        cases hsock
        exact hseen
      · exact hs.within id sock hsock
    · rw [hs.closed, hhandling]
      rfl
    · intro name srvc hsrvc
      rw [hs.fds name srvc (lookup_modifySock_service.mp hsrvc), hhandling]
      rfl
    · intro info' conn' hcurrent
      cases hcurrent
      exact ⟨hconn, _, lookup_modifySock_socket.mpr ⟨sock₀, hsock₀, rfl⟩, by simp [hmax]⟩
  · cases h

/-- The slot and the descriptor are given back when the template gives no instance. -/
theorem instantiate_failed (hs : Inv s) {info : SocketActivationInfo} {conn : Connection}
    {peerUid : Option ℕ} {instanceName : Text}
    (hhandling : s.handling = .counted info conn peerUid instanceName) :
    Inv (System.reject { s with unitTable := freeSlot s.unitTable info.socketId } conn) := by
  refine ⟨⟨?_, ?_, ?_⟩, ?_, ?_, trivial⟩
  · intro id sock' hsock'
    obtain ⟨sock, hsock, rfl⟩ := lookup_modifySock_socket.mp hsock'
    have hcount := hs.count id sock hsock
    rw [hhandling] at hcount
    show _ = total (liveOf id) (freeSlot _ _) + 0
    rw [freeSlot, total_modifySock]
    by_cases hid : id = info.socketId
    · simp [hid, Handling.slot] at hcount ⊢
      omega
    · simp [hid, Ne.symm hid, Handling.slot] at hcount ⊢
      omega
  · intro id sock' hsock'
    obtain ⟨sock, hsock, rfl⟩ := lookup_modifySock_socket.mp hsock'
    have hwithin := hs.within id sock hsock
    split_ifs
    · show sock.activeAcceptConnections - 1 ≤ sock.maxConnections
      omega
    · exact hwithin
  · have hclosed := hs.closed
    rw [hhandling] at hclosed
    show (s.accepted : Multiset Connection) = ↑(s.closed ++ [conn]) + ↑([] : List Connection)
    rw [hclosed, ← Multiset.coe_add]
    simp [Handling.held]
  · intro name srvc hsrvc
    rw [hs.fds name srvc (lookup_modifySock_service.mp hsrvc), hhandling]
    rfl
  · intro info' conn' hcurrent
    cases hcurrent

/-- An instance with the descriptor is put in the table, or was there and gets it. -/
theorem instantiate_inserted (hs : Inv s) {info : SocketActivationInfo} {conn : Connection}
    {peerUid : Option ℕ} {instanceName : Text} {srvc : Service}
    (hhandling : s.handling = .counted info conn peerUid instanceName)
    (hnot : ∀ sock, s.unitTable.lookup instanceName ≠ some (.socket sock))
    (hfd : srvc.acceptedFd = some conn)
    (htotal : ∀ id, total (liveOf id) (s.unitTable.insert instanceName (.service srvc)) =
      total (liveOf id) s.unitTable) :
    Inv { s with
      unitTable := s.unitTable.insert instanceName (.service srvc)
      handling := .inserted info conn instanceName } := by
  obtain ⟨hconn, sock₀, hsock₀, hmax⟩ := hs.gathered info conn (by rw [hhandling]; rfl)
  refine ⟨⟨?_, ?_, ?_⟩, ?_, ?_, trivial⟩
  · intro id sock hsock
    have hcount := hs.count id sock ((lookup_insert_socket hnot).mp hsock)
    rw [hhandling] at hcount
    rw [hcount, htotal]
    rfl
  · intro id sock hsock
    exact hs.within id sock ((lookup_insert_socket hnot).mp hsock)
  · rw [hs.closed, hhandling]
    rfl
  · intro name srvc' hsrvc'
    rw [lookup_insert_eq] at hsrvc'
    show srvc'.acceptedFd = if name = instanceName then some conn else none
    split_ifs at hsrvc' ⊢ with hname
    · cases hsrvc'
      exact hfd
    · rw [hs.fds name srvc' hsrvc', hhandling]
      rfl
  · intro info' conn' hcurrent
    cases hcurrent
    exact ⟨hconn, sock₀, (lookup_insert_socket hnot).mpr hsock₀, hmax⟩

/-- A unit that is no service gets no descriptor. -/
theorem instantiate_other (hs : Inv s) {info : SocketActivationInfo} {conn : Connection}
    {peerUid : Option ℕ} {instanceName : Text}
    (hhandling : s.handling = .counted info conn peerUid instanceName)
    (hnot : ∀ srvc, s.unitTable.lookup instanceName ≠ some (.service srvc)) :
    Inv { s with handling := .inserted info conn instanceName } := by
  refine ⟨⟨?_, hs.within, ?_⟩, ?_, ?_, trivial⟩
  · intro id sock hsock
    rw [hs.count id sock hsock, hhandling]
    rfl
  · rw [hs.closed, hhandling]
    rfl
  · intro name srvc hsrvc
    have hname : name ≠ instanceName := by
      rintro rfl
      exact hnot srvc hsrvc
    rw [hs.fds name srvc hsrvc, hhandling]
    exact (if_neg hname).symm
  · intro info' conn' hcurrent
    cases hcurrent
    exact hs.gathered info conn (by rw [hhandling]; rfl)

theorem instantiate (hs : Inv s) {found : Bool} (h : s.step (.instantiate found) = some s') :
    Inv s' := by
  simp only [System.step] at h
  split at h
  · rename_i info conn peerUid instanceName hhandling
    obtain rfl := Option.some.inj h
    unfold System.instantiate
    cases hlookup : s.unitTable.lookup instanceName with
    | none =>
      cases found with
      | false => exact hs.instantiate_failed hhandling
      | true =>
        refine hs.instantiate_inserted hhandling (by simp [hlookup]) rfl ?_
        intro id
        rw [total_insert_of_none hlookup]
        simp [liveOf]
    | some spec =>
      cases spec with
      | service srvc =>
        refine hs.instantiate_inserted hhandling (by simp [hlookup]) rfl ?_
        intro id
        have hadd := total_insert_add (f := liveOf id) hlookup
          (.service { srvc with acceptedFd := some conn })
        exact Nat.add_right_cancel hadd
      | socket sock => exact hs.instantiate_other hhandling (by simp [hlookup])
      | other => exact hs.instantiate_other hhandling (by simp [hlookup])
  · cases h

theorem activate_started (hs : Inv s) {pid : ℕ}
    (h : s.step (.activate (.started pid)) = some s') : Inv s' := by
  simp only [System.step] at h
  split at h
  · rename_i info conn instanceName hhandling
    obtain ⟨hconn, -⟩ := hs.gathered info conn (by rw [hhandling]; rfl)
    cases hlookup : s.unitTable.lookup instanceName with
    | none => simp [System.activate, hlookup] at h
    | some spec =>
      cases spec with
      | socket sock => simp [System.activate, hlookup] at h
      | other => simp [System.activate, hlookup] at h
      | service srvc =>
        have hfd : srvc.acceptedFd = some conn := by
          rw [hs.fds _ srvc hlookup, hhandling]
          exact if_pos rfl
        have hnot : ∀ sock, s.unitTable.lookup instanceName ≠ some (.socket sock) := by
          simp [hlookup]
        simp only [System.activate, hlookup] at h
        split_ifs at h with hpid
        obtain rfl := Option.some.inj h
        have hnone : srvc.pid = none := by simpa using hpid
        refine ⟨⟨?_, ?_, ?_⟩, ?_, ?_, trivial⟩
        · intro id sock hsock
          have hcount := hs.count id sock ((lookup_insert_socket hnot).mp hsock)
          have hadd := total_insert_add (f := liveOf id) hlookup
            (.service { srvc with pid := some ⟨pid, srvc.acceptedFd⟩, acceptedFd := none })
          rw [hhandling] at hcount
          simp only [liveOf, hnone, hfd, Handling.slot, Option.mem_def, Option.some.injEq,
            exists_eq_left', hconn, reduceCtorEq, false_and, exists_false, if_false]
            at hadd hcount ⊢
          omega
        · intro id sock hsock
          exact hs.within id sock ((lookup_insert_socket hnot).mp hsock)
        · have hclosed := hs.closed
          rw [hhandling] at hclosed
          show (s.accepted : Multiset Connection) =
            ↑(s.closed ++ srvc.acceptedFd.toList) + ↑([] : List Connection)
          rw [hclosed, hfd, ← Multiset.coe_add]
          simp [Handling.held]
        · intro name srvc' hsrvc'
          rw [lookup_insert_eq] at hsrvc'
          split_ifs at hsrvc' with hname
          · cases hsrvc'
            rfl
          · rw [hs.fds name srvc' hsrvc', hhandling]
            exact if_neg hname
        · intro info' conn' hcurrent
          cases hcurrent
  · cases h

/-- An exit, with the connections that are no longer served. -/
theorem of_table (hs : Inv s) {table : UnitTable} (served : Text → ℕ)
    (hsocks : ∀ id sock', table.lookup id = some (.socket sock') →
      ∃ sock, s.unitTable.lookup id = some (.socket sock) ∧
        sock'.maxConnections = sock.maxConnections ∧
        sock'.activeAcceptConnections + served id = sock.activeAcceptConnections)
    (hkept : ∀ id sock, s.unitTable.lookup id = some (.socket sock) →
      ∃ sock', table.lookup id = some (.socket sock'))
    (hfds : ∀ name srvc, table.lookup name = some (.service srvc) →
      srvc.acceptedFd = s.handling.pending name)
    (htotal : ∀ id, total (liveOf id) table + served id = total (liveOf id) s.unitTable) :
    Inv { s with unitTable := table } := by
  have hcounters : ∀ info conn, s.handling.current = some (info, conn) →
      (counters table info.socketId).2 ≤ (counters s.unitTable info.socketId).2 := by
    intro info conn hcurrent
    obtain ⟨-, sock, hsock, -⟩ := hs.gathered info conn hcurrent
    obtain ⟨sock', hsock'⟩ := hkept _ sock hsock
    obtain ⟨sock₁, hsock₁, -, hactive⟩ := hsocks _ sock' hsock'
    rw [counters_of_lookup hsock', counters_of_lookup hsock₁]
    exact Nat.le.intro hactive
  refine ⟨⟨?_, ?_, hs.closed⟩, hfds, ?_, ?_⟩
  · intro id sock' hsock'
    obtain ⟨sock, hsock, -, hactive⟩ := hsocks id sock' hsock'
    have hcount := hs.count id sock hsock
    have htotal := htotal id
    show _ = total (liveOf id) table + s.handling.slot id
    omega
  · intro id sock' hsock'
    obtain ⟨sock, hsock, hmax, hactive⟩ := hsocks id sock' hsock'
    have hwithin := hs.within id sock hsock
    omega
  · intro info conn hcurrent
    obtain ⟨hconn, sock, hsock, hmax⟩ := hs.gathered info conn hcurrent
    obtain ⟨sock', hsock'⟩ := hkept _ sock hsock
    obtain ⟨sock₁, hsock₁, hmax', -⟩ := hsocks _ sock' hsock'
    rw [hsock] at hsock₁
    cases hsock₁
    exact ⟨hconn, sock', hsock', hmax'.trans hmax⟩
  · have hseen := hs.seen
    show s.handling.Seen table
    cases hhandling : s.handling with
    | read info conn peerUid counter active =>
      rw [hhandling] at hseen
      exact (hcounters info conn (by rw [hhandling]; rfl)).trans hseen
    | admitted info conn peerUid instanceName =>
      rw [hhandling] at hseen
      exact (hcounters info conn (by rw [hhandling]; rfl)).trans_lt hseen
    | _ => trivial

theorem exit (hs : Inv s) {name : Text} (h : s.step (.exit name) = some s') : Inv s' := by
  simp only [System.step, System.exit] at h
  split at h
  · rename_i srvc hlookup
    obtain ⟨process, hpid, rfl⟩ := Option.map_eq_some_iff.mp h
    have hnot : ∀ sock, s.unitTable.lookup name ≠ some (.socket sock) := by
      simp [hlookup]
    have hfds : ∀ name' srvc',
        (s.unitTable.insert name (.service { srvc with pid := none })).lookup name' =
          some (.service srvc') → srvc'.acceptedFd = s.handling.pending name' := by
      intro name' srvc' hsrvc'
      rw [lookup_insert_eq] at hsrvc'
      split_ifs at hsrvc' with hname
      · cases hsrvc'
        rw [hname, ← hs.fds name srvc hlookup]
      · exact hs.fds name' srvc' hsrvc'
    have htotal : ∀ id, total (liveOf id)
        (s.unitTable.insert name (.service { srvc with pid := none })) +
          liveOf id (.service srvc) = total (liveOf id) s.unitTable := by
      intro id
      exact total_insert_add hlookup _
    cases hconn : process.connection with
    | none =>
      refine hs.of_table (fun _ => 0) ?_ ?_ hfds ?_
      · intro id sock hsock
        exact ⟨sock, (lookup_insert_socket hnot).mp hsock, rfl, rfl⟩
      · intro id sock hsock
        exact ⟨sock, (lookup_insert_socket hnot).mpr hsock⟩
      · intro id
        rw [← htotal id]
        simp [liveOf, hpid, hconn]
    | some conn =>
      refine hs.of_table (fun id => if conn.socket = id then 1 else 0) ?_ ?_ ?_ ?_
      · intro id sock' hsock'
        obtain ⟨sock, hsock, rfl⟩ := lookup_modifySock_socket.mp hsock'
        have hsock := (lookup_insert_socket hnot).mp hsock
        refine ⟨sock, hsock, ?_, ?_⟩
        · split_ifs
          · rfl
          · rfl
        · have hcount := hs.count id sock hsock
          have hid := htotal id
          simp only [liveOf, hpid, hconn, Option.mem_def, Option.some.injEq,
            exists_eq_left'] at hid
          by_cases heq : id = conn.socket
          · simp [heq] at hcount hid ⊢
            omega
          · simp [heq, Ne.symm heq]
      · intro id sock hsock
        exact ⟨_, lookup_modifySock_socket.mpr ⟨sock, (lookup_insert_socket hnot).mpr hsock, rfl⟩⟩
      · intro name' srvc' hsrvc'
        exact hfds name' srvc' (lookup_modifySock_service.mp hsrvc')
      · intro id
        rw [freeSlot, total_modifySock, ← htotal id]
        simp [liveOf, hpid, hconn]
  · cases h

end Inv

/-! ## Runs -/

/-- An activation that forks the main process of its instance. -/
def Action.Starts : Action → Prop
  | .activate (.started _) => True
  | .activate _ => False
  | _ => True

instance Action.decidableStarts : DecidablePred Action.Starts
  | .activate (.started _) | .accept _ _ _ | .readCounters | .checkLimits | .increment
  | .instantiate _ | .exit _ => .isTrue trivial
  | .activate .forkFailed | .activate .notStarted => .isFalse fun h => h

/-- Nothing has been accepted, and no instance serves a connection or has one waiting. -/
structure Initial (s : System) : Prop where
  handling : s.handling = .idle
  accepted : s.accepted = []
  closed : s.closed = []
  count : ∀ id sock, s.unitTable.lookup id = some (.socket sock) →
    sock.activeAcceptConnections = 0
  live : ∀ id, total (liveOf id) s.unitTable = 0
  fds : ∀ name srvc, s.unitTable.lookup name = some (.service srvc) → srvc.acceptedFd = none

variable {s s' : System} {a : Action}

theorem Initial.inv (h : Initial s) : Inv s := by
  refine ⟨⟨?_, ?_, ?_⟩, ?_, ?_, ?_⟩
  · intro id sock hsock
    rw [h.count id sock hsock, h.live id, h.handling]
    rfl
  · intro id sock hsock
    rw [h.count id sock hsock]
    exact Nat.zero_le _
  · rw [h.accepted, h.closed, h.handling]
    rfl
  · intro name srvc hsrvc
    rw [h.fds name srvc hsrvc, h.handling]
    rfl
  · intro info conn hcurrent
    rw [h.handling] at hcurrent
    cases hcurrent
  · rw [h.handling]
    trivial

/-- Every section and every exit keeps the invariant, if an activation starts its instance. -/
theorem Inv.step (hs : Inv s) (ha : a.Starts) (h : s.step a = some s') : Inv s' := by
  cases a with
  | accept socketId fd peerUid => exact hs.accept h
  | readCounters => exact hs.readCounters h
  | checkLimits => exact hs.checkLimits h
  | increment => exact hs.increment h
  | instantiate found => exact hs.instantiate h
  | exit name => exact hs.exit h
  | activate outcome =>
    cases outcome with
    | started pid => exact hs.activate_started h
    | forkFailed => exact ha.elim
    | notStarted => exact ha.elim

/-- An activation without a process leaves the slot of its connection taken. -/
theorem not_accounted_of_unserved (hs : Inv s) {info : SocketActivationInfo} {conn : Connection}
    {instanceName : Text} {table : UnitTable} {accepted closed : List Connection}
    (hhandling : s.handling = .inserted info conn instanceName)
    (hsocks : ∀ id sock, s.unitTable.lookup id = some (.socket sock) →
      table.lookup id = some (.socket sock))
    (htotal : ∀ id, total (liveOf id) table = total (liveOf id) s.unitTable) :
    ¬ Accounted ⟨table, .idle, accepted, closed⟩ := by
  intro haccounted
  obtain ⟨-, sock, hsock, -⟩ := hs.gathered info conn (by rw [hhandling]; rfl)
  have hbefore := hs.count _ sock hsock
  have hafter := haccounted.count _ sock (hsocks _ sock hsock)
  rw [hhandling] at hbefore
  simp only [htotal, Handling.slot, if_true] at hbefore hafter
  omega

theorem not_accounted_of_not_starts (hs : Inv s) (ha : ¬ a.Starts) (h : s.step a = some s') :
    ¬ Accounted s' := by
  cases a with
  | activate outcome =>
    simp only [System.step] at h
    split at h
    · rename_i info conn instanceName hhandling
      cases outcome with
      | started pid => exact absurd trivial ha
      | notStarted =>
        obtain rfl := Option.some.inj h
        exact not_accounted_of_unserved hs hhandling (fun _ _ hsock => hsock) fun _ => rfl
      | forkFailed =>
        cases hlookup : s.unitTable.lookup instanceName with
        | none => simp [System.activate, hlookup] at h
        | some spec =>
          cases spec with
          | socket sock => simp [System.activate, hlookup] at h
          | other => simp [System.activate, hlookup] at h
          | service srvc =>
            simp only [System.activate, hlookup] at h
            obtain rfl := Option.some.inj h
            refine not_accounted_of_unserved hs hhandling ?_ ?_
            · intro id sock hsock
              exact (lookup_insert_socket (by simp [hlookup])).mpr hsock
            · intro id
              exact Nat.add_right_cancel (total_insert_add hlookup _)
    · cases h
  | _ => exact absurd trivial ha

/-- The connections of a run are accounted for all the time exactly if every activation starts
    its instance. -/
theorem accounted_iff {s₀ t : System} (h₀ : Initial s₀) {as : List Action}
    (hrun : run System.step s₀ as = some t) :
    (∀ before after s, as = before ++ after → run System.step s₀ before = some s →
      Accounted s) ↔ RunMeets System.step (fun _ a => a.Starts) s₀ as :=
  run_forall_iff (fun _ hs => hs.toAccounted) (fun _ _ _ => Inv.step)
    (fun _ _ _ => not_accounted_of_not_starts) as h₀.inv hrun

/-! ## An activation that fails -/

/-- `a.socket`, for one connection at a time. -/
def oneSocket : System where
  unitTable := (∅ : AList _).insert "a.socket".toList
    (.socket { services := [], maxConnections := 1, maxConnectionsPerSource := 1 })

/-- One connection, up to the activation of its instance. -/
def connect (fd : ℕ) (outcome : Activation) : List Action :=
  [.accept "a.socket".toList fd (some 0), .readCounters, .checkLimits, .increment,
    .instantiate true, .activate outcome]

theorem initial_oneSocket : Initial oneSocket := by
  have hlookup : ∀ id spec, oneSocket.unitTable.lookup id = some spec →
      spec = .socket { services := [], maxConnections := 1, maxConnectionsPerSource := 1 } := by
    intro id spec h
    rw [oneSocket, lookup_insert_eq] at h
    split_ifs at h
    · cases h
      rfl
    · cases h
  refine ⟨rfl, rfl, rfl, ?_, ?_, ?_⟩
  · intro id sock h
    cases hlookup id _ h
    rfl
  · intro id
    rfl
  · intro name srvc h
    cases hlookup name _ h

/-- Two connections, one after the exit of the instance of the other. -/
def twoConnections : List Action :=
  connect 5 (.started 100) ++ .exit "a@0.service".toList :: connect 6 (.started 101)

theorem accounted_two_connections :
    RunMeets System.step (fun _ a => a.Starts) oneSocket twoConnections ∧
      ∀ before after s, twoConnections = before ++ after →
        run System.step oneSocket before = some s → Accounted s := by
  have hrun : (run System.step oneSocket twoConnections).isSome := by
    decide
  obtain ⟨t, ht⟩ := Option.isSome_iff_exists.mp hrun
  have hmeets : RunMeets System.step (fun _ a => a.Starts) oneSocket twoConnections := by
    decide
  exact ⟨hmeets, (accounted_iff initial_oneSocket ht).mpr hmeets⟩

/-- One activation that fails leaves the descriptor open and uses up `MaxConnections=1`. -/
theorem failed_activation_keeps_slot : ¬ ∀ s₀ : System, Initial s₀ → ∀ as t,
    run System.step s₀ as = some t → Accounted t := by
  intro h
  have hrun : (run System.step oneSocket (connect 5 .notStarted)).map
      (fun t => (t.accepted, t.closed, t.handling.held)) =
        some ([⟨"a.socket".toList, 5⟩], [], []) := by
    decide
  obtain ⟨t, ht, hfds⟩ := Option.map_eq_some_iff.mp hrun
  simp only [Prod.mk.injEq] at hfds
  obtain ⟨haccepted, hclosed, hheld⟩ := hfds
  have haccounted := (h oneSocket initial_oneSocket _ t ht).closed
  rw [haccepted, hclosed, hheld] at haccounted
  cases congrArg Multiset.card haccounted

end OxidizedSystemd.SocketActivation
