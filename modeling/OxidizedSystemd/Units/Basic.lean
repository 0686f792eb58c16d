import Mathlib.Data.List.Destutter
import Mathlib.Data.List.Sort
import Mathlib.Order.Defs.LinearOrder
import Mathlib.Data.String.Basic

/-!
# Units

The data of one unit as `units/id.rs`, `units/status.rs` and `units/unit.rs`
declare it, reduced to the fields the dependency code reads.

`Dependencies` has sixteen lists. Passes that treat them alike go through
`DepKind`, the name of a list, with `Dependencies.list` to read and
`Dependencies.update` to change it.
-/

namespace OxidizedSystemd.Units

/-! ## Identifiers -/

/-- `enum UnitIdKind` (`units/id.rs`, lines 4–14). -/
inductive UnitIdKind
  | target | socket | service | slice | mount | swap | device | timer | path
  deriving DecidableEq, Repr

/-- `struct UnitId` (`units/id.rs`, lines 17–20). Equality compares both fields. -/
structure UnitId where
  kind : UnitIdKind
  name : String
  deriving DecidableEq, Repr

/-- `str::ends_with`. -/
def endsWith (s suffix : String) : Bool := suffix.toList.isSuffixOf s.toList

/-- `str::starts_with`. -/
def startsWith (s pre : String) : Bool := pre.toList.isPrefixOf s.toList

/-- `<&str as TryInto<UnitId>>::try_into` (`units/from_parsed_config.rs`,
    lines 988–1041): the suffix decides the kind. -/
def tryIntoUnitId (s : String) : Except String UnitId :=
  if endsWith s ".target" then .ok ⟨.target, s⟩
  else if endsWith s ".service" then .ok ⟨.service, s⟩
  else if endsWith s ".socket" then .ok ⟨.socket, s⟩
  else if endsWith s ".slice" then .ok ⟨.slice, s⟩
  else if endsWith s ".mount" then .ok ⟨.mount, s⟩
  else if endsWith s ".device" then .ok ⟨.device, s⟩
  else if endsWith s ".timer" then .ok ⟨.timer, s⟩
  else if endsWith s ".path" then .ok ⟨.path, s⟩
  else if endsWith s ".swap" then .ok ⟨.swap, s⟩
  else .error s!"{s} is not a valid unit name. The suffix is not supported."

/-- Ids that `try_into` makes are the same if their names are. -/
theorem eq_of_name_eq {a b : UnitId} (ha : tryIntoUnitId a.name = .ok a)
    (hb : tryIntoUnitId b.name = .ok b) (h : a.name = b.name) : a = b := by
  rw [h, hb] at ha
  exact (Except.ok.inj ha).symm

/-- `UnitId::name_without_suffix` (`units/id.rs`, lines 23–26): the name up to
    its last dot, empty when there is none. -/
def UnitId.nameWithoutSuffix (id : UnitId) : String :=
  let split := (id.name.toList.splitOn '.').map String.ofList
  ".".intercalate split.dropLast

/-! ## Status -/

/-- `enum StatusStarted` (`units/status.rs`, lines 14–17). -/
inductive StatusStarted
  | running | waitingForSocket
  deriving DecidableEq, Repr

/-- `enum StatusStopped` (`units/status.rs`, lines 20–24). -/
inductive StatusStopped
  | stoppedFinal | stoppedUnexpected | conditionSkipped
  deriving DecidableEq, Repr

/-- `enum UnitStatus` (`units/status.rs`, lines 4–11), without the error list
    of `Stopped`. -/
inductive UnitStatus
  | neverStarted | starting | stopping | restarting
  | started (s : StatusStarted)
  | stopped (s : StatusStopped)
  deriving DecidableEq, Repr

/-- `UnitStatus::is_stopped` (`units/status.rs`, lines 70–72). -/
def UnitStatus.isStopped : UnitStatus → Bool
  | .stopped _ => true
  | _ => false

/-! ## Dependencies -/

/-- `struct Dependencies` (`units/unit.rs`, lines 2919–2962). -/
structure Dependencies where
  wants : List UnitId := []
  wantedBy : List UnitId := []
  requires : List UnitId := []
  requiredBy : List UnitId := []
  requisite : List UnitId := []
  conflicts : List UnitId := []
  conflictedBy : List UnitId := []
  before : List UnitId := []
  after : List UnitId := []
  partOf : List UnitId := []
  partOfBy : List UnitId := []
  bindsTo : List UnitId := []
  boundBy : List UnitId := []
  upholds : List UnitId := []
  upheldBy : List UnitId := []
  propagatesStopTo : List UnitId := []
  deriving DecidableEq, Repr

/-- The names of the lists of `Dependencies`. -/
inductive DepKind
  | wants | wantedBy | requires | requiredBy | requisite | conflicts | conflictedBy | before | after
  | partOf | partOfBy | bindsTo | boundBy | upholds | upheldBy | propagatesStopTo
  deriving DecidableEq, Repr

namespace Dependencies

/-- The list of a kind. -/
def list (d : Dependencies) : DepKind → List UnitId
  | .wants => d.wants
  | .wantedBy => d.wantedBy
  | .requires => d.requires
  | .requiredBy => d.requiredBy
  | .requisite => d.requisite
  | .conflicts => d.conflicts
  | .conflictedBy => d.conflictedBy
  | .before => d.before
  | .after => d.after
  | .partOf => d.partOf
  | .partOfBy => d.partOfBy
  | .bindsTo => d.bindsTo
  | .boundBy => d.boundBy
  | .upholds => d.upholds
  | .upheldBy => d.upheldBy
  | .propagatesStopTo => d.propagatesStopTo

/-- The record with the given lists. -/
def ofLists (f : DepKind → List UnitId) : Dependencies where
  wants := f .wants
  wantedBy := f .wantedBy
  requires := f .requires
  requiredBy := f .requiredBy
  requisite := f .requisite
  conflicts := f .conflicts
  conflictedBy := f .conflictedBy
  before := f .before
  after := f .after
  partOf := f .partOf
  partOfBy := f .partOfBy
  bindsTo := f .bindsTo
  boundBy := f .boundBy
  upholds := f .upholds
  upheldBy := f .upheldBy
  propagatesStopTo := f .propagatesStopTo

@[simp] theorem list_ofLists (f : DepKind → List UnitId) (k : DepKind) :
    (ofLists f).list k = f k := by cases k <;> rfl

/-- Apply `f` to the list of kind `k`. -/
def update (d : Dependencies) (k : DepKind) (f : List UnitId → List UnitId) : Dependencies :=
  ofLists fun j => if j = k then f (d.list j) else d.list j

/-- `Vec::push` on the list of kind `k`. -/
def push (d : Dependencies) (k : DepKind) (id : UnitId) : Dependencies :=
  d.update k (· ++ [id])

@[simp] theorem list_update (d : Dependencies) (k j : DepKind) (f : List UnitId → List UnitId) :
    (d.update k f).list j = if j = k then f (d.list j) else d.list j := by
  rw [update, list_ofLists]

theorem mem_list_push {d : Dependencies} {k j : DepKind} {id x : UnitId} :
    x ∈ (d.push k id).list j ↔ x ∈ d.list j ∨ j = k ∧ x = id := by
  rw [push, list_update]
  by_cases h : j = k <;> simp [h]

/-- `Vec::sort` with the order of `UnitId`, which compares names only (and is
    stable), then `Vec::dedup`, which drops repeated neighbours. -/
def sortDedup (l : List UnitId) : List UnitId :=
  (l.insertionSort fun a b => a.name ≤ b.name).destutter (· ≠ ·)

/-- `Dependencies::dedup` (`units/unit.rs`, lines 2965–2997). `requisite` is
    in neither of the source's two lists of fields. -/
def dedup (d : Dependencies) : Dependencies :=
  ofLists fun k => if k = .requisite then d.list k else sortDedup (d.list k)

/-- `Dependencies::remove_id` (`units/unit.rs`, lines 3055–3071); here too
    `requisite` is not among the fields. `remove_from_vec` removes the first
    occurrence until there is none. -/
def removeId (d : Dependencies) (id : UnitId) : Dependencies :=
  ofLists fun k => if k = .requisite then d.list k else (d.list k).filter (· ≠ id)

/-- `Dependencies::kill_before_this` (`units/unit.rs`, lines 3000–3008), also
    the order in which the stop code chains the three lists. -/
def killBeforeThis (d : Dependencies) : List UnitId := d.requiredBy ++ d.partOfBy ++ d.boundBy

theorem mem_destutter'_ne {a x : UnitId} {l : List UnitId} :
    x ∈ l.destutter' (· ≠ ·) a ↔ x = a ∨ x ∈ l := by
  induction l generalizing a with
  | nil => simp
  | cons b l ih =>
    rw [List.destutter']
    by_cases h : a = b
    · subst h
      simp [ih]
    · simp [h, ih]

theorem mem_destutter_ne {x : UnitId} {l : List UnitId} :
    x ∈ l.destutter (· ≠ ·) ↔ x ∈ l := by
  cases l with
  | nil => rfl
  | cons a l => rw [List.destutter_cons', mem_destutter'_ne, List.mem_cons]

@[simp] theorem mem_sortDedup {x : UnitId} {l : List UnitId} : x ∈ sortDedup l ↔ x ∈ l := by
  rw [sortDedup, mem_destutter_ne, List.mem_insertionSort]

instance : Std.Total fun a b : UnitId => a.name ≤ b.name := ⟨fun a b => le_total a.name b.name⟩

instance : IsTrans UnitId fun a b => a.name ≤ b.name := ⟨fun _ _ _ => le_trans⟩

theorem pairwise_sortDedup (ids : List UnitId) :
    (sortDedup ids).Pairwise fun a b => a.name ≤ b.name :=
  (List.pairwise_insertionSort _ ids).sublist (List.destutter_sublist _ _)

@[simp] theorem mem_list_dedup {d : Dependencies} {k : DepKind} {x : UnitId} :
    x ∈ d.dedup.list k ↔ x ∈ d.list k := by
  rw [dedup, list_ofLists]
  split_ifs <;> simp

end Dependencies

/-! ## Units -/

/-- The fields of `ServiceConfig` that dependency resolution reads: `Slice=`,
    `Sockets=` and `BusName=`. -/
structure ServiceConfig where
  slice : Option String := none
  sockets : List UnitId := []
  dbusName : Option String := none
  deriving DecidableEq, Repr

/-- The field of `SocketConfig` that dependency resolution reads: `Service=`. -/
structure SocketConfig where
  services : List UnitId := []
  deriving DecidableEq, Repr

/-- The fields of `MountConfig` that dependency resolution reads. -/
structure MountConfig where
  what : String
  where_ : String
  fsType : Option String := none
  options : Option String := none
  deriving DecidableEq, Repr

/-- `enum Specific` (`units/unit.rs`), with the configurations above. -/
inductive Specific
  | service (conf : ServiceConfig)
  | socket (conf : SocketConfig)
  | target
  | slice
  | mount (conf : MountConfig)
  | swap
  | timer
  | path
  | device
  deriving DecidableEq, Repr

/-- Whether a unit is a service: only services have stop chains that park. -/
def Specific.isService : Specific → Bool
  | .service _ => true
  | _ => false

/-- The fields of `UnitConfig` (`units/unit.rs`) that the code modelled here
    reads. -/
structure UnitConfig where
  refsByName : List UnitId := []
  defaultDependencies : Bool := true
  aliases : List String := []
  allowIsolate : Bool := false
  deriving DecidableEq, Repr

/-- `struct Common` (`units/unit.rs`); `status` is behind a lock of its own. -/
structure Common where
  unit : UnitConfig := {}
  dependencies : Dependencies := {}
  status : UnitStatus := .neverStarted
  deriving DecidableEq, Repr

/-- `struct Unit` (`units/unit.rs`). `Unit` is taken in Lean. -/
structure LoadedUnit where
  id : UnitId
  common : Common := {}
  specific : Specific
  deriving DecidableEq, Repr

/-- Apply `f` to the dependencies of a unit. -/
def LoadedUnit.mapDeps (u : LoadedUnit) (f : Dependencies → Dependencies) : LoadedUnit :=
  { u with common := { u.common with dependencies := f u.common.dependencies } }

@[simp] theorem LoadedUnit.mapDeps_dependencies (u : LoadedUnit)
    (f : Dependencies → Dependencies) :
    (u.mapDeps f).common.dependencies = f u.common.dependencies := rfl

end OxidizedSystemd.Units
