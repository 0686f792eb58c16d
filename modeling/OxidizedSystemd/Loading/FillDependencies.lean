import OxidizedSystemd.Loading.DefaultDependencies
import OxidizedSystemd.Loading.Sockets

/-!
# `fill_dependencies`

Models of the remaining passes of `fill_dependencies`
(`units/loading/dependency_resolving.rs`, lines 254–505) and of the whole.

* `lists_addSliceDependencies`: the edges of `Slice=` are entered on the sliced
    unit only.
-/

namespace OxidizedSystemd.Units

open Dependencies
open OxidizedSystemd.Lib

namespace UnitTable

variable {t : UnitTable} {k : DepKind} {a b : UnitId}

/-! ## Slices -/

/-- The value of `Slice=`; only services have it (lines 482–485). -/
def sliceName : Specific → Option String
  | .service conf => conf.slice
  | _ => none

theorem sliceName_addSocket (id : UnitId) (s : Specific) :
    sliceName (addSocket id s) = sliceName s := by
  cases s with
  | service conf => rw [addSocket]; split_ifs <;> rfl
  | _ => rfl

theorem sliceName_addService (id : UnitId) (s : Specific) :
    sliceName (addService id s) = sliceName s := by
  cases s with
  | socket conf => rw [addService]; split_ifs <;> rfl
  | _ => rfl

/-- The slice that a unit is put into, if it is loaded (lines 481–492). -/
def sliceId (t : UnitTable) (specific : Specific) : Option UnitId := do
  let sliceId ← (tryIntoUnitId (← sliceName specific)).toOption
  if t.contains sliceId then some sliceId else none

/-- `push` unless the list has the id. -/
def pushNew (k : DepKind) (id : UnitId) (d : Dependencies) : Dependencies :=
  if id ∈ d.list k then d else d.push k id

/-- `add_slice_dependencies` (lines 476–505). -/
def addSliceDependencies (t : UnitTable) : UnitTable :=
  let sliceDeps := t.units.filterMap fun unit =>
    (t.sliceId unit.specific).map fun sliceId => (unit.id, sliceId)
  sliceDeps.foldl (fun t p =>
    t.modifyDeps p.1 fun d => pushNew .after p.2 (pushNew .requires p.2 d)) t

/-- The service `a` is in the loaded slice `b`. -/
def SliceEdge (t : UnitTable) (k : DepKind) (a b : UnitId) : Prop :=
  (k = .requires ∨ k = .after) ∧ ∃ s, t.specific a = some s ∧ t.sliceId s = some b

theorem extends_pushNew {f : Dependencies → Dependencies} {pushes : List (DepKind × UnitId)}
    (hf : Extends f pushes) (j : DepKind) (id : UnitId) :
    Extends (fun d => pushNew j id (f d)) ((j, id) :: pushes) := by
  intro d k x
  simp only [pushNew]
  split_ifs with h
  · rw [hf, List.mem_cons, Prod.mk.injEq]
    constructor
    · tauto
    · rintro (hx | ⟨rfl, rfl⟩ | hx)
      · exact Or.inl hx
      · exact (hf d _ _).mp h
      · exact Or.inr hx
  · rw [mem_list_push, hf, List.mem_cons, Prod.mk.injEq]
    tauto

theorem lists_addSliceDependencies :
    t.addSliceDependencies.Lists k a b ↔ t.Lists k a b ∨ t.SliceEdge k a b := by
  have hextends : ∀ p : UnitId × UnitId,
      Extends (fun d => pushNew .after p.2 (pushNew .requires p.2 d))
        [(.after, p.2), (.requires, p.2)] :=
    fun p => extends_pushNew (extends_pushNew extends_id _ _) _ _
  rw [addSliceDependencies, lists_foldl_modifyDeps hextends]
  refine or_congr_right ?_
  simp only [List.mem_filterMap, List.mem_cons, List.not_mem_nil, or_false, Prod.mk.injEq,
    Option.map_eq_some_iff, SliceEdge, specific]
  constructor
  · rintro ⟨ha, p, ⟨u, hu, s, hs, rfl⟩, rfl, h⟩
    have hk : k = .requires ∨ k = .after := by tauto
    have hb : b = s := by tauto
    exact ⟨hk, u.specific, ⟨u, get_of_mem hu, rfl⟩, by rw [hb]; exact hs⟩
  · rintro ⟨hk, s, ⟨u, hu, rfl⟩, hs⟩
    refine ⟨mem_ids_of_get hu, (a, b), ⟨u, mem_units_of_get hu, b, hs, ?_⟩, rfl, by tauto⟩
    rw [get_id hu]

theorem ids_addSliceDependencies (t : UnitTable) : t.addSliceDependencies.ids = t.ids :=
  (sameUnits_foldl_modifyDeps t _ _ _).ids.symm

/-! ## References to units that are not loaded -/

/-- The loop after `add_all_implicit_relations` (lines 408–452): references to
    units that do not exist are dropped, except in the orderings and to devices.
    `requisite` is not among the lists of the loop. -/
def retainExisting (t : UnitTable) : UnitTable :=
  t.mapUnits fun unit => unit.mapDeps fun d => ofLists fun k =>
    if k = .before ∨ k = .after ∨ k = .requisite then d.list k
    else (d.list k).filter fun id => t.contains id || id.kind = .device

theorem lists_retainExisting (hb : b ∈ t.ids) : t.retainExisting.Lists k a b ↔ t.Lists k a b := by
  rw [retainExisting, lists_mapDeps]
  cases h : t.get a with
  | none =>
    have hout : ¬ t.Lists k a b := fun hl => get_eq_none_iff.mp h hl.1
    simp [hout]
  | some u =>
    have hkeep : b ∈ (if k = .before ∨ k = .after ∨ k = .requisite then
          u.common.dependencies.list k
        else (u.common.dependencies.list k).filter fun id => t.contains id || id.kind = .device) ↔
        b ∈ u.common.dependencies.list k := by
      split_ifs
      · rfl
      · simp [contains, hb]
    rw [lists_of_get h, ← hkeep]
    simp

/-- The last loop of `fill_dependencies` (lines 455–458). -/
def dedupAll (t : UnitTable) : UnitTable := t.mapUnits fun unit => unit.mapDeps (·.dedup)

theorem lists_dedupAll : t.dedupAll.Lists k a b ↔ t.Lists k a b := by
  have hextends : ∀ _ : LoadedUnit, Extends (·.dedup) [] := fun _ => extends_dedup extends_id
  rw [dedupAll, lists_extendAll hextends]
  simp

/-! ## The whole function -/

/-- `add_all_implicit_relations` (lines 466–472). -/
def addAllImplicitRelations (t : UnitTable) : UnitTable :=
  t.addDefaultDependencyRelations.addSocketTargetRelations.applySocketsToServices
    |>.addSliceDependencies

/-- `fill_dependencies` (lines 254–461), which always returns `Ok`. -/
def fillDependencies (t : UnitTable) : UnitTable :=
  t.fillReverse.addAllImplicitRelations.retainExisting.dedupAll

end UnitTable

end OxidizedSystemd.Units
