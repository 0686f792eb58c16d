import Mathlib.Data.List.AList
import OxidizedSystemd.Loading.Specifier
import OxidizedSystemd.Units.Basic

/-!
# Directory dependencies

Models of `apply_directory_dependencies`, `resolve_masked_dir_deps` and
`instantiate_template_units` (`units/loading/directory_deps.rs`, lines 1240–1381 and 1617–1896).
The table of units is a map from their names, since a name decides the kind of its unit. The order
in which the hash maps are iterated is a parameter.

* `applyDirectoryDependencies`: the first pass.
* `instantiateTemplateUnits`: the instances, and the second pass.
-/

namespace OxidizedSystemd.Loading

open Lib OxidizedSystemd.Units

/-- `enum DepDirKind`. -/
inductive DepDirKind
  | wants | requires | upholds
  deriving DecidableEq

/-- `struct DirectoryDependency` (lines 37–52). -/
structure DirectoryDependency where
  parentUnit : String
  childUnit : String
  depKind : DepDirKind
  priority : ℕ
  isMask : Bool
  deriving DecidableEq

/-- What an entry is about. -/
abbrev Triple := String × String × DepDirKind

def DirectoryDependency.triple (dep : DirectoryDependency) : Triple :=
  (dep.parentUnit, dep.childUnit, dep.depKind)

/-! ## The table -/

/-- `struct Unit` with the fields that are read here. The others are one value. -/
@[ext] structure TableUnit (ρ : Type*) where
  aliases : List String
  wants : List String
  requires : List String
  upholds : List String
  refsByName : List String
  rest : ρ
  deriving DecidableEq

abbrev Table (ρ : Type*) := SortedMap String (TableUnit ρ)

/-- The aliases of each unit. -/
abbrev View := SortedMap String (List String)

variable {ρ : Type*}

def TableUnit.list (u : TableUnit ρ) : DepDirKind → List String
  | .wants => u.wants
  | .requires => u.requires
  | .upholds => u.upholds

def view (t : Table ρ) : View := t.mapValues (·.aliases)

/-- The order in which the hash maps are iterated. It changes with the keys only. -/
structure IterationOrder where
  units : View → List String
  units_perm : ∀ v, (units v).Perm v.keys
  best : List DirectoryDependency → List DirectoryDependency
  best_perm : ∀ deps, (best deps).Perm deps

/-- The name or an alias of a unit. -/
def IsNameOf (v : View) (name id : String) : Prop :=
  id = name ∨ name ∈ (v.get? id).getD []

instance (v : View) (name id : String) : Decidable (IsNameOf v name id) :=
  inferInstanceAs (Decidable (_ ∨ _))

/-- `unit_table.values().find(..)` by name or alias. -/
def findUnit (order : IterationOrder) (v : View) (name : String) : Option String :=
  (order.units v).find? fun id => IsNameOf v name id

/-- `<&str as TryInto<UnitId>>::try_into` succeeds. -/
def isUnitName (name : String) : Bool := (tryIntoUnitId name).isOk

/-- `if !list.contains(&id) { list.push(id) }`. -/
def pushName (names : List String) (name : String) : List String :=
  if name ∈ names then names else names ++ [name]

/-- `apply_dep_to_unit`, and the reference (lines 1298–1308). -/
def addDirDep (dep : DirectoryDependency) (u : TableUnit ρ) : TableUnit ρ :=
  let u := match dep.depKind with
    | .requires => { u with requires := pushName u.requires dep.childUnit }
    | .wants => { u with wants := pushName u.wants dep.childUnit }
    | .upholds => { u with upholds := pushName u.upholds dep.childUnit }
  { u with refsByName := pushName u.refsByName dep.childUnit }

/-- The body of the loop over entries (lines 1256–1318, and again 1858–1894). -/
def applyDirDep (order : IterationOrder) (t : Table ρ) (dep : DirectoryDependency) : Table ρ :=
  match findUnit order (view t) dep.parentUnit with
  | some parent =>
    if isUnitName dep.childUnit ∧ (t.get? dep.childUnit).isSome then t.modify parent (addDirDep dep)
    else t
  | none => t

/-! ## The first pass -/

/-- The map of `resolve_masked_dir_deps`: the first entry of lowest priority number of each
    triple. -/
def bestDeps (deps : List DirectoryDependency) : AList fun _ : Triple => DirectoryDependency :=
  deps.foldl (fun best dep =>
    match best.lookup dep.triple with
    | some existing => if existing.priority ≤ dep.priority then best else best.insert dep.triple dep
    | none => best.insert dep.triple dep) ∅

/-- `resolve_masked_dir_deps`. -/
def resolveMaskedDirDeps (order : IterationOrder) (deps : List DirectoryDependency) :
    List DirectoryDependency :=
  (order.best ((bestDeps deps).entries.map (·.2))).filter fun dep => !dep.isMask

/-- `apply_directory_dependencies`. -/
def applyDirectoryDependencies (order : IterationOrder) (t : Table ρ)
    (deps : List DirectoryDependency) : Table ρ :=
  (resolveMaskedDirDeps order deps).foldl (applyDirDep order) t

/-! ## Instances -/

/-- What the passes find outside: the targets of the links with a name, directory by directory, the
    units that `instantiate_template` makes, and what `find_symlink_aliases` finds. -/
structure Host (ρ : Type*) where
  isAlphanumeric : Char → Bool
  linkTargets : String → List String
  instantiateTemplate : String → String → String → Option (TableUnit ρ)
  symlinkAliases : String → String → List String

/-- `parse_template_instance`. -/
def templateInstance (name : String) : Option (String × String) :=
  (parseTemplateInstance name.toList).map fun p => (String.ofList p.1, String.ofList p.2)

/-- `has_unresolved_specifiers`. -/
def hasUnresolvedSpecifiers (isAlphanumeric : Char → Bool) : List Char → Bool
  | c :: next :: rest =>
    (c == '%' && next != '%' && isAlphanumeric next) ||
      hasUnresolvedSpecifiers isAlphanumeric (next :: rest)
  | _ => false

/-- An instance whose name has an unresolved specifier. -/
def isUnresolved (host : Host ρ) (name : String) : Bool :=
  match templateInstance name with
  | some (_, inst) => hasUnresolvedSpecifiers host.isAlphanumeric inst.toList
  | none => false

/-- The loop over the entries that collects instances (lines 1628–1680). -/
def collectFromDep (host : Host ρ) (t : Table ρ) (instances : List String)
    (dep : DirectoryDependency) : List String :=
  if ¬ isUnitName dep.childUnit ∨ (t.get? dep.childUnit).isSome then instances
  else
    let isNew := (templateInstance dep.childUnit).isSome ∧ dep.childUnit ∉ instances
    if isNew ∧ isUnresolved host dep.childUnit then instances
    else
      let instances := if isNew then instances ++ [dep.childUnit] else instances
      if ¬ isUnitName dep.parentUnit ∨ (t.get? dep.parentUnit).isSome then instances
      else if (templateInstance dep.parentUnit).isSome ∧ dep.parentUnit ∉ instances ∧
          ¬ isUnresolved host dep.parentUnit then instances ++ [dep.parentUnit]
      else instances

/-- The loop over the references (lines 1695–1718). -/
def collectFromRef (host : Host ρ) (t : Table ρ) (instances : List String) (name : String) :
    List String :=
  if ¬ isUnitName name ∨ (t.get? name).isSome then instances
  else if (templateInstance name).isSome ∧ name ∉ instances ∧ ¬ isUnresolved host name then
    instances ++ [name]
  else instances

/-- What the units want and require (lines 1683–1693). -/
def existingRefs (order : IterationOrder) (t : Table ρ) : List String :=
  (order.units (view t)).flatMap fun id =>
    match t.get? id with
    | some u => u.wants ++ u.requires
    | none => []

/-- `instances_to_create`. -/
def instancesToCreate (order : IterationOrder) (host : Host ρ) (t : Table ρ)
    (deps : List DirectoryDependency) : List String :=
  (existingRefs order t).foldl (collectFromRef host t) (deps.foldl (collectFromDep host t) [])

/-- What a link with the name of the instance leads to (lines 1733–1752): the template, the instance
    and the name. -/
def instanceOverride (targets : List String) (inst : String) : Option (String × String × String) :=
  targets.findSome? fun target =>
    match splitOnce ['@', '.'] target.toList with
    | some (before, suffix) =>
      some (target, inst, String.ofList (before ++ '@' :: (inst.toList ++ '.' :: suffix)))
    | none => (templateInstance target).map fun p => (p.1, p.2, target)

/-- What an instance is made of: the template, the instance, the name of the unit, and the name of
    the link as an alias (lines 1753–1773). -/
def effectiveInstance (host : Host ρ) (name : String) :
    Option (String × String × String × Option String) :=
  (templateInstance name).map fun p =>
    match instanceOverride (host.linkTargets name) p.2 with
    | some (template, inst, effective) => (template, inst, effective, some name)
    | none => (p.1, p.2, name, none)

/-- The new unit with its aliases (lines 1811–1845). -/
def withAliases (host : Host ρ) (template effective : String) (linkName : Option String)
    (u : TableUnit ρ) : TableUnit ρ :=
  let aliases := linkName.toList.foldl pushName u.aliases
  { u with aliases := (host.symlinkAliases template effective).foldl pushName aliases }

/-- The body of the loop that instantiates (lines 1721–1853). -/
def instantiateOne (host : Host ρ) (t : Table ρ) (name : String) : Table ρ :=
  match effectiveInstance host name with
  | none => t
  | some (template, inst, effective, linkName) =>
    let t := match linkName with
      | some linkName => t.erase linkName
      | none => t
    let fresh := match host.instantiateTemplate template inst effective with
      | some u => t.insert effective (withAliases host template effective linkName u)
      | none => t
    match linkName, t.get? effective with
    | some linkName, some existing =>
      if linkName ∈ existing.aliases then fresh
      else t.insert effective { existing with aliases := existing.aliases ++ [linkName] }
    | _, _ => fresh

/-- The table before the entries are applied again. -/
def instantiated (order : IterationOrder) (host : Host ρ) (t : Table ρ)
    (deps : List DirectoryDependency) : Table ρ :=
  (instancesToCreate order host t deps).foldl (instantiateOne host) t

/-- `instantiate_template_units`. -/
def instantiateTemplateUnits (order : IterationOrder) (host : Host ρ) (t : Table ρ)
    (deps : List DirectoryDependency) : Table ρ :=
  deps.foldl (applyDirDep order) (instantiated order host t deps)

end OxidizedSystemd.Loading
