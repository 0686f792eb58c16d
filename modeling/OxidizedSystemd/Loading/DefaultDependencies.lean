import OxidizedSystemd.Loading.MountDeps
import OxidizedSystemd.Loading.ReverseEdges

/-!
# Default dependencies

Model of `add_default_dependency_relations`
(`units/loading/dependency_resolving.rs`, lines 507–682).

* `lists_addDefaultDependencyRelations`: the edges to `shutdown.target`,
    `sysinit.target` and `basic.target` are entered on both sides, the default
    dependencies of a mount on the mount only.
-/

namespace OxidizedSystemd.Units

open Dependencies
open OxidizedSystemd.Lib
open OxidizedSystemd.Loading

namespace UnitTable

variable {t : UnitTable} {k : DepKind} {a b : UnitId}

/-- `shutdown.target`. -/
def shutdownId : UnitId := ⟨.target, "shutdown.target"⟩

/-- `sysinit.target`. -/
def sysinitId : UnitId := ⟨.target, "sysinit.target"⟩

/-- `basic.target`. -/
def basicId : UnitId := ⟨.target, "basic.target"⟩

/-- The units that the loop of `add_default_dependency_relations` does not skip. -/
def TakesDefaults (unit : LoadedUnit) : Prop :=
  unit.common.unit.defaultDependencies ∧ unit.id ≠ shutdownId

instance (unit : LoadedUnit) : Decidable (TakesDefaults unit) :=
  inferInstanceAs (Decidable (_ ∧ _))

/-- What the loop of `add_default_dependency_relations` pushes onto the lists of
    one unit (lines 532–656). -/
def defaultPushes (t : UnitTable) (unit : LoadedUnit) : List (DepKind × UnitId) :=
  (if t.contains shutdownId then [(.conflicts, shutdownId), (.before, shutdownId)] else []) ++
    match unit.id.kind with
    | .service =>
      (if t.contains sysinitId then [(.requires, sysinitId), (.after, sysinitId)] else []) ++
        if t.contains basicId then [(.after, basicId)] else []
    | .socket => if t.contains sysinitId then [(.requires, sysinitId), (.after, sysinitId)] else []
    | .mount => mountDefaultPushes unit.specific
    | _ => []

/-- What is pushed onto a well-known target for every unit that it was pushed to. -/
def targetPushes (j k : DepKind) (units : List LoadedUnit) : List (DepKind × UnitId) :=
  units.flatMap fun unit => [(j, unit.id), (k, unit.id)]

/-- `add_default_dependency_relations` (lines 515–682). -/
def addDefaultDependencyRelations (t : UnitTable) : UnitTable :=
  if ¬ t.contains shutdownId ∧ ¬ t.contains sysinitId ∧ ¬ t.contains basicId then t
  else
    let addAfterToShutdown := t.units.filter fun unit => TakesDefaults unit
    let addAfterToSysinit := t.units.filter fun unit =>
      TakesDefaults unit ∧ (unit.id.kind = .service ∨ unit.id.kind = .socket)
    let addAfterToBasic := t.units.filter fun unit =>
      TakesDefaults unit ∧ unit.id.kind = .service
    let t := t.mapUnits fun unit => unit.mapDeps fun d =>
      if TakesDefaults unit then (d.pushAll (t.defaultPushes unit)).dedup else d
    let t := t.modifyDeps shutdownId fun d =>
      (d.pushAll (targetPushes .conflictedBy .after addAfterToShutdown)).dedup
    let t := t.modifyDeps sysinitId fun d =>
      (d.pushAll (targetPushes .requiredBy .before addAfterToSysinit)).dedup
    t.modifyDeps basicId fun d =>
      (d.pushAll (addAfterToBasic.map fun unit => (.before, unit.id))).dedup

/-- The default dependencies on well-known targets, as the comment of
    `add_default_dependency_relations` lists them. -/
def targetDefaults (kind : UnitIdKind) : List (DepKind × UnitId) :=
  [(.conflicts, shutdownId), (.before, shutdownId)] ++
    match kind with
    | .service => [(.requires, sysinitId), (.after, sysinitId), (.after, basicId)]
    | .socket => [(.requires, sysinitId), (.after, sysinitId)]
    | _ => []

/-- A default dependency of `a` on the loaded target `b`. -/
def DefaultEdge (t : UnitTable) (k : DepKind) (a b : UnitId) : Prop :=
  ∃ unit, t.get a = some unit ∧ TakesDefaults unit ∧ b ∈ t.ids ∧
    (k, b) ∈ targetDefaults unit.id.kind

/-- A default dependency of the mount `a`. -/
def MountEdge (t : UnitTable) (k : DepKind) (a b : UnitId) : Prop :=
  (shutdownId ∈ t.ids ∨ sysinitId ∈ t.ids ∨ basicId ∈ t.ids) ∧
    ∃ unit, t.get a = some unit ∧ TakesDefaults unit ∧ unit.id.kind = .mount ∧
      (k, b) ∈ mountDefaultPushes unit.specific

theorem mem_defaultPushes {unit : LoadedUnit} :
    (k, b) ∈ t.defaultPushes unit ↔
      b ∈ t.ids ∧ (k, b) ∈ targetDefaults unit.id.kind ∨
        unit.id.kind = .mount ∧ (k, b) ∈ mountDefaultPushes unit.specific := by
  have hpair : ∀ {id j}, (id ∈ t.ids ∧ k = j ∧ b = id) ↔ b ∈ t.ids ∧ k = j ∧ b = id := by
    intro id j
    constructor <;> rintro ⟨h, hk, rfl⟩ <;> exact ⟨h, hk, rfl⟩
  unfold defaultPushes targetDefaults
  generalize unit.id.kind = kind
  cases kind <;> simp [contains_iff, and_or_left, hpair, or_assoc]

theorem exists_mem_filter {p : LoadedUnit → Prop} [DecidablePred p] :
    (∃ unit ∈ t.units.filter fun unit => p unit, unit.id = b) ↔
      ∃ unit, t.get b = some unit ∧ p unit := by
  constructor
  · rintro ⟨u, hu, rfl⟩
    rw [List.mem_filter, decide_eq_true_eq] at hu
    exact ⟨u, get_of_mem hu.1, hu.2⟩
  · rintro ⟨u, hu, hp⟩
    exact ⟨u, List.mem_filter.mpr ⟨mem_units_of_get hu, decide_eq_true hp⟩, get_id hu⟩

theorem mem_targetPushes {i j : DepKind} {units : List LoadedUnit} :
    (k, b) ∈ targetPushes i j units ↔ (k = i ∨ k = j) ∧ ∃ unit ∈ units, unit.id = b := by
  simp only [targetPushes, List.mem_flatMap, List.mem_cons, List.not_mem_nil, or_false,
    Prod.mk.injEq, ← or_and_right]
  constructor
  · rintro ⟨u, hu, hk, rfl⟩
    exact ⟨hk, u, hu, rfl⟩
  · rintro ⟨hk, u, hu, rfl⟩
    exact ⟨u, hu, hk, rfl⟩

theorem mem_map_push {j : DepKind} {units : List LoadedUnit} :
    (k, b) ∈ (units.map fun unit => (j, unit.id)) ↔ k = j ∧ ∃ unit ∈ units, unit.id = b := by
  simp only [List.mem_map, Prod.mk.injEq]
  constructor
  · rintro ⟨u, hu, rfl, rfl⟩
    exact ⟨rfl, u, hu, rfl⟩
  · rintro ⟨rfl, u, hu, rfl⟩
    exact ⟨u, hu, rfl, rfl⟩

theorem mem_targetDefaults {kind : UnitIdKind} :
    (k, b) ∈ targetDefaults kind ↔
      b = shutdownId ∧ (k = .conflicts ∨ k = .before) ∨
        b = sysinitId ∧ (k = .requires ∨ k = .after) ∧ (kind = .service ∨ kind = .socket) ∨
          b = basicId ∧ k = .after ∧ kind = .service := by
  unfold targetDefaults
  cases kind <;> simp <;> tauto

/-- What the three targets get is the reverse of what the units got. -/
theorem mirrored_defaultEdge :
    (∃ j, mirrorOf k = some j ∧ t.DefaultEdge j b a) ↔
      a ∈ t.ids ∧
        (a = shutdownId ∧ (k = .conflictedBy ∨ k = .after) ∧
            (∃ unit, t.get b = some unit ∧ TakesDefaults unit) ∨
          a = sysinitId ∧ (k = .requiredBy ∨ k = .before) ∧
            (∃ unit, t.get b = some unit ∧ TakesDefaults unit ∧
              (unit.id.kind = .service ∨ unit.id.kind = .socket)) ∨
          a = basicId ∧ k = .before ∧
            ∃ unit, t.get b = some unit ∧ TakesDefaults unit ∧ unit.id.kind = .service) := by
  have hshutdown : (∃ j, mirrorOf k = some j ∧ (j = .conflicts ∨ j = .before)) ↔
      k = .conflictedBy ∨ k = .after := by cases k <;> simp [mirrorOf]
  have hsysinit : (∃ j, mirrorOf k = some j ∧ (j = .requires ∨ j = .after)) ↔
      k = .requiredBy ∨ k = .before := by cases k <;> simp [mirrorOf]
  have hbasic : mirrorOf k = some .after ↔ k = .before := by cases k <;> simp [mirrorOf]
  constructor
  · rintro ⟨j, hj, u, hu, htakes, ha, hmem⟩
    refine ⟨ha, ?_⟩
    rcases mem_targetDefaults.mp hmem with ⟨h, hk⟩ | ⟨h, hk, hkind⟩ | ⟨h, rfl, hkind⟩
    · exact Or.inl ⟨h, hshutdown.mp ⟨j, hj, hk⟩, u, hu, htakes⟩
    · exact Or.inr (Or.inl ⟨h, hsysinit.mp ⟨j, hj, hk⟩, u, hu, htakes, hkind⟩)
    · exact Or.inr (Or.inr ⟨h, hbasic.mp hj, u, hu, htakes, hkind⟩)
  · rintro ⟨ha, ⟨h, hk, u, hu, htakes⟩ | ⟨h, hk, u, hu, htakes, hkind⟩ |
      ⟨h, hk, u, hu, htakes, hkind⟩⟩
    · obtain ⟨j, hj, hjk⟩ := hshutdown.mpr hk
      exact ⟨j, hj, u, hu, htakes, ha, mem_targetDefaults.mpr (Or.inl ⟨h, hjk⟩)⟩
    · obtain ⟨j, hj, hjk⟩ := hsysinit.mpr hk
      exact ⟨j, hj, u, hu, htakes, ha, mem_targetDefaults.mpr (Or.inr (Or.inl ⟨h, hjk, hkind⟩))⟩
    · exact ⟨.after, hbasic.mpr hk, u, hu, htakes, ha,
        mem_targetDefaults.mpr (Or.inr (Or.inr ⟨h, rfl, hkind⟩))⟩

theorem DefaultEdge.target (h : t.DefaultEdge k a b) :
    shutdownId ∈ t.ids ∨ sysinitId ∈ t.ids ∨ basicId ∈ t.ids := by
  obtain ⟨u, _, _, hb, hmem⟩ := h
  rcases mem_targetDefaults.mp hmem with ⟨rfl, _⟩ | ⟨rfl, _⟩ | ⟨rfl, _⟩
  · exact Or.inl hb
  · exact Or.inr (Or.inl hb)
  · exact Or.inr (Or.inr hb)

/-- The loop of `add_default_dependency_relations`. -/
theorem lists_defaultPushes (htarget : shutdownId ∈ t.ids ∨ sysinitId ∈ t.ids ∨ basicId ∈ t.ids) :
    (t.mapUnits fun unit => unit.mapDeps fun d =>
        if TakesDefaults unit then (d.pushAll (t.defaultPushes unit)).dedup else d).Lists k a b ↔
      t.Lists k a b ∨ t.DefaultEdge k a b ∨ t.MountEdge k a b := by
  have hextends : ∀ unit, Extends
      (fun d => if TakesDefaults unit then (d.pushAll (t.defaultPushes unit)).dedup else d)
      (if TakesDefaults unit then t.defaultPushes unit else []) := by
    intro unit
    by_cases h : TakesDefaults unit
    · simp only [if_pos h]
      exact extends_dedup (extends_pushAll _)
    · simp only [if_neg h]
      exact extends_id
  rw [lists_extendAll hextends]
  refine or_congr_right ?_
  constructor
  · rintro ⟨u, hu, h⟩
    rw [List.mem_ite_nil_right, mem_defaultPushes] at h
    rcases h with ⟨htakes, ⟨hb, hmem⟩ | ⟨hmount, hmem⟩⟩
    · exact Or.inl ⟨u, hu, htakes, hb, hmem⟩
    · exact Or.inr ⟨htarget, u, hu, htakes, hmount, hmem⟩
  · rintro (⟨u, hu, htakes, hb, hmem⟩ | ⟨_, u, hu, htakes, hmount, hmem⟩)
    · exact ⟨u, hu, by rw [if_pos htakes]; exact mem_defaultPushes.mpr (Or.inl ⟨hb, hmem⟩)⟩
    · exact ⟨u, hu, by rw [if_pos htakes]; exact mem_defaultPushes.mpr (Or.inr ⟨hmount, hmem⟩)⟩

theorem lists_addDefaultDependencyRelations :
    t.addDefaultDependencyRelations.Lists k a b ↔
      t.Lists k a b ∨ Mirrored mirrorOf t.DefaultEdge k a b ∨ t.MountEdge k a b := by
  unfold addDefaultDependencyRelations
  split_ifs with hnone
  · have hno : ¬ (shutdownId ∈ t.ids ∨ sysinitId ∈ t.ids ∨ basicId ∈ t.ids) := by
      simpa [contains_iff] using hnone
    have hdefault : ¬ Mirrored mirrorOf t.DefaultEdge k a b := by
      rintro (h | ⟨j, _, h⟩)
      · exact hno h.target
      · exact hno h.target
    have hmount : ¬ t.MountEdge k a b := fun h => hno h.1
    simp [hdefault, hmount]
  · have htarget : shutdownId ∈ t.ids ∨ sysinitId ∈ t.ids ∨ basicId ∈ t.ids := by
      by_contra hno
      exact hnone (by simpa [contains_iff] using hno)
    simp only [lists_modifyDeps (extends_dedup (extends_pushAll _)), ids_modifyDeps, ids_mapUnits,
      lists_defaultPushes htarget, mem_targetPushes, mem_map_push, exists_mem_filter, Mirrored,
      mirrored_defaultEdge, and_or_left]
    exact Iff.of_eq (by ac_rfl)

theorem sameUnits_addDefaultDependencyRelations (t : UnitTable) :
    SameUnits t t.addDefaultDependencyRelations := by
  unfold addDefaultDependencyRelations
  split_ifs
  · exact SameUnits.refl t
  · exact (((sameUnits_mapDeps t _).trans (sameUnits_modifyDeps _ _ _)).trans
      (sameUnits_modifyDeps _ _ _)).trans (sameUnits_modifyDeps _ _ _)

end UnitTable

end OxidizedSystemd.Units
