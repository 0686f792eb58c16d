import OxidizedSystemd.Units.Basic
import Mathlib.Data.List.Nodup
import Mathlib.Data.Finset.Card
import Mathlib.Data.Finset.Dedup

/-!
# The unit table

`UnitTable` is `HashMap<UnitId, Unit>` (`runtime_info.rs`). Every insertion
uses the unit's own id as key, so a table is a list of units whose ids are
distinct. The order of the list stands for the iteration order of the map.

`UnitTable.Lists t k a b`: unit `a` is in `t` and has `b` in its list `k`.
-/

namespace OxidizedSystemd.Units

/-- `HashMap<UnitId, Unit>` keyed by `unit.id`. -/
structure UnitTable where
  units : List LoadedUnit
  nodup : (units.map (·.id)).Nodup

namespace UnitTable

/-- `unit_table.keys()`. -/
def ids (t : UnitTable) : List UnitId := t.units.map (·.id)

/-- `unit_table.get(&id)`. -/
def get (t : UnitTable) (id : UnitId) : Option LoadedUnit := t.units.find? (·.id = id)

/-- `unit_table.contains_key(&id)`. -/
def contains (t : UnitTable) (id : UnitId) : Bool := decide (id ∈ t.ids)

/-- `unit_table.get(&id)`, for the part that depends on the kind of unit. -/
def specific (t : UnitTable) (id : UnitId) : Option Specific := (t.get id).map (·.specific)

/-- Change the units in place; ids stay as they are. -/
def mapUnits (t : UnitTable) (f : LoadedUnit → LoadedUnit) : UnitTable where
  units := t.units.map fun u => { f u with id := u.id }
  nodup := by
    rw [List.map_map]
    exact t.nodup

/-- `unit_table.get_mut(&id)` followed by a change `f` of the unit, if there is one. -/
def modify (t : UnitTable) (id : UnitId) (f : LoadedUnit → LoadedUnit) : UnitTable :=
  t.mapUnits fun u => if u.id = id then f u else u

/-- `unit_table.get_mut(&id)` followed by a change `f` of its dependencies. -/
def modifyDeps (t : UnitTable) (id : UnitId) (f : Dependencies → Dependencies) : UnitTable :=
  t.modify id (·.mapDeps f)

/-- `unit_table.remove(&id)`. -/
def remove (t : UnitTable) (id : UnitId) : UnitTable where
  units := t.units.filter (·.id ≠ id)
  nodup := t.nodup.sublist (List.filter_sublist.map _)

/-- The dependencies of a unit; none for a unit that is not loaded. -/
def deps (t : UnitTable) (id : UnitId) : Dependencies :=
  match t.get id with
  | some u => u.common.dependencies
  | none => {}

/-- Unit `a` is loaded and its list `k` has `b`. -/
def Lists (t : UnitTable) (k : DepKind) (a b : UnitId) : Prop :=
  a ∈ t.ids ∧ b ∈ (t.deps a).list k

/-! ## Lookup -/

theorem get_id {t : UnitTable} {id : UnitId} {u : LoadedUnit} (h : t.get id = some u) :
    u.id = id := by
  simpa using List.find?_some h

theorem mem_units_of_get {t : UnitTable} {id : UnitId} {u : LoadedUnit} (h : t.get id = some u) :
    u ∈ t.units := List.mem_of_find?_eq_some h

theorem get_of_mem {t : UnitTable} {u : LoadedUnit} (hu : u ∈ t.units) : t.get u.id = some u := by
  cases h : t.get u.id with
  | none =>
    rw [get, List.find?_eq_none] at h
    exact absurd (h u hu) (by simp)
  | some v =>
    have := List.inj_on_of_nodup_map t.nodup (mem_units_of_get h) hu (get_id h)
    rw [this]

theorem get_eq_some_iff {t : UnitTable} {id : UnitId} {u : LoadedUnit} :
    t.get id = some u ↔ u ∈ t.units ∧ u.id = id := by
  constructor
  · intro h
    exact ⟨mem_units_of_get h, get_id h⟩
  · rintro ⟨hu, rfl⟩
    exact get_of_mem hu

theorem get_eq_none_iff {t : UnitTable} {id : UnitId} : t.get id = none ↔ id ∉ t.ids := by
  rw [get, List.find?_eq_none, ids, List.mem_map]
  constructor
  · rintro h ⟨u, hu, rfl⟩
    exact h u hu (by simp)
  · intro h u hu hid
    exact h ⟨u, hu, by simpa using hid⟩

theorem exists_get_of_mem {t : UnitTable} {id : UnitId} (h : id ∈ t.ids) :
    ∃ u, t.get id = some u := by
  cases hg : t.get id with
  | none => exact absurd h (get_eq_none_iff.mp hg)
  | some u => exact ⟨u, rfl⟩

theorem mem_ids_of_get {t : UnitTable} {id : UnitId} {u : LoadedUnit} (h : t.get id = some u) :
    id ∈ t.ids := by
  rw [← get_id h]
  exact List.mem_map_of_mem (mem_units_of_get h)

theorem contains_iff {t : UnitTable} {id : UnitId} : t.contains id ↔ id ∈ t.ids :=
  decide_eq_true_iff

theorem ids_nodup (t : UnitTable) : t.ids.Nodup := t.nodup

theorem deps_of_get {t : UnitTable} {id : UnitId} {u : LoadedUnit} (h : t.get id = some u) :
    t.deps id = u.common.dependencies := by rw [deps, h]

theorem deps_of_not_mem {t : UnitTable} {id : UnitId} (h : id ∉ t.ids) : t.deps id = {} := by
  rw [deps, get_eq_none_iff.mpr h]

/-- A unit that lists something is loaded. -/
theorem mem_ids_of_mem_deps {t : UnitTable} {a b : UnitId} {k : DepKind}
    (h : b ∈ (t.deps a).list k) : a ∈ t.ids := by
  by_contra ha
  rw [deps_of_not_mem ha] at h
  cases k <;> exact absurd h (by simp [Dependencies.list])

theorem lists_iff {t : UnitTable} {k : DepKind} {a b : UnitId} :
    t.Lists k a b ↔ b ∈ (t.deps a).list k :=
  ⟨And.right, fun h => ⟨mem_ids_of_mem_deps h, h⟩⟩

theorem lists_of_get {t : UnitTable} {k : DepKind} {a b : UnitId} {u : LoadedUnit}
    (h : t.get a = some u) : t.Lists k a b ↔ b ∈ u.common.dependencies.list k := by
  rw [lists_iff, deps_of_get h]

/-! ## Updates -/

@[simp] theorem ids_mapUnits (t : UnitTable) (f : LoadedUnit → LoadedUnit) :
    (t.mapUnits f).ids = t.ids := by
  rw [ids, mapUnits, List.map_map]
  rfl

@[simp] theorem ids_modify (t : UnitTable) (id : UnitId) (f : LoadedUnit → LoadedUnit) :
    (t.modify id f).ids = t.ids := ids_mapUnits t _

@[simp] theorem ids_modifyDeps (t : UnitTable) (id : UnitId) (f : Dependencies → Dependencies) :
    (t.modifyDeps id f).ids = t.ids := ids_mapUnits t _

theorem get_mapUnits (t : UnitTable) (f : LoadedUnit → LoadedUnit) (id : UnitId) :
    (t.mapUnits f).get id = (t.get id).map fun u => { f u with id := u.id } := by
  rw [get, mapUnits, List.find?_map]
  rfl

theorem get_modify (t : UnitTable) (id x : UnitId) (f : LoadedUnit → LoadedUnit) :
    (t.modify id f).get x =
      (t.get x).map fun u => if x = id then { f u with id := x } else u := by
  rw [modify, get_mapUnits]
  cases h : t.get x with
  | none => rfl
  | some u =>
    have := get_id h
    subst this
    by_cases hx : u.id = id <;> simp [hx]

theorem get_modifyDeps (t : UnitTable) (id x : UnitId) (f : Dependencies → Dependencies) :
    (t.modifyDeps id f).get x = (t.get x).map fun u => if x = id then u.mapDeps f else u := by
  rw [modifyDeps, get_modify]
  cases h : t.get x with
  | none => rfl
  | some u =>
    have := get_id h
    subst this
    rfl

theorem deps_modifyDeps (t : UnitTable) (id x : UnitId) (f : Dependencies → Dependencies) :
    (t.modifyDeps id f).deps x = if x = id ∧ x ∈ t.ids then f (t.deps x) else t.deps x := by
  rw [deps, get_modifyDeps]
  cases h : t.get x with
  | none =>
    have hx := get_eq_none_iff.mp h
    simp [hx, deps_of_not_mem hx]
  | some u =>
    have hx := mem_ids_of_get h
    rw [deps_of_get h]
    by_cases hid : x = id
    · subst hid
      simp [hx]
    · simp [hid]

theorem modifyDeps_modifyDeps (t : UnitTable) (id : UnitId) (f g : Dependencies → Dependencies) :
    (t.modifyDeps id f).modifyDeps id g = t.modifyDeps id fun d => g (f d) := by
  unfold modifyDeps modify mapUnits
  congr 1
  rw [List.map_map]
  refine List.map_congr_left fun u _ => ?_
  by_cases h : u.id = id
  · simp [h, LoadedUnit.mapDeps]
  · simp [h]

@[simp] theorem mem_ids_remove {t : UnitTable} {id x : UnitId} :
    x ∈ (t.remove id).ids ↔ x ∈ t.ids ∧ x ≠ id := by
  simp only [ids, remove, List.mem_map, List.mem_filter, decide_eq_true_eq]
  constructor
  · rintro ⟨u, ⟨hu, hne⟩, rfl⟩
    exact ⟨⟨u, hu, rfl⟩, hne⟩
  · rintro ⟨⟨u, hu, rfl⟩, hne⟩
    exact ⟨u, ⟨hu, hne⟩, rfl⟩

theorem get_remove (t : UnitTable) (id x : UnitId) :
    (t.remove id).get x = if x = id then none else t.get x := by
  by_cases hx : x = id
  · rw [if_pos hx, get_eq_none_iff, mem_ids_remove]
    exact fun h => h.2 hx
  · rw [if_neg hx]
    cases h : t.get x with
    | none =>
      rw [get_eq_none_iff, mem_ids_remove]
      exact fun h' => get_eq_none_iff.mp h h'.1
    | some u =>
      rw [get_eq_some_iff] at h ⊢
      exact ⟨List.mem_filter.mpr ⟨h.1, by simp [h.2, hx]⟩, h.2⟩

end UnitTable

end OxidizedSystemd.Units
