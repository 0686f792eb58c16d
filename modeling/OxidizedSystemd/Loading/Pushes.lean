import OxidizedSystemd.Units.Table

/-!
# Pushing into dependency lists

The passes of dependency resolution only ever push onto the lists of
`Dependencies` and drop repetitions. What such a pass does to the edges of the
table is told by what it pushes.

* `lists_extendAll`: the edges after every unit has been extended.
* `lists_modifyDeps`, `lists_foldl_modifyDeps`, `lists_pushAll`: the same for one
  unit, for one unit a round, and for a series of single pushes.
* `SameUnits`: two tables that differ in dependencies at most.
-/

namespace OxidizedSystemd.Units

/-! ## Extending the dependencies of one unit -/

namespace Dependencies

/-- A series of pushes. -/
def pushAll (d : Dependencies) (pushes : List (DepKind × UnitId)) : Dependencies :=
  pushes.foldl (fun d p => d.push p.1 p.2) d

theorem mem_list_pushAll {d : Dependencies} {pushes : List (DepKind × UnitId)} {k : DepKind}
    {x : UnitId} : x ∈ (d.pushAll pushes).list k ↔ x ∈ d.list k ∨ (k, x) ∈ pushes := by
  induction pushes generalizing d with
  | nil => simp [pushAll]
  | cons p pushes ih =>
    have hstep : d.pushAll (p :: pushes) = (d.push p.1 p.2).pushAll pushes := rfl
    rw [hstep, ih, mem_list_push, List.mem_cons, Prod.ext_iff, or_assoc]

/-- `f` adds the entries `pushes` and nothing else, up to order and repetition. -/
def Extends (f : Dependencies → Dependencies) (pushes : List (DepKind × UnitId)) : Prop :=
  ∀ d k x, x ∈ (f d).list k ↔ x ∈ d.list k ∨ (k, x) ∈ pushes

variable {f g : Dependencies → Dependencies} {pushes : List (DepKind × UnitId)}

theorem extends_id : Extends id [] := by
  intro d k x
  simp

theorem extends_push (k : DepKind) (id : UnitId) : Extends (·.push k id) [(k, id)] := by
  intro d j x
  simp [mem_list_push]

theorem extends_pushAll (pushes : List (DepKind × UnitId)) : Extends (·.pushAll pushes) pushes := by
  intro d k x
  exact mem_list_pushAll

theorem extends_dedup (hf : Extends f pushes) : Extends (fun d => (f d).dedup) pushes := by
  intro d k x
  rw [mem_list_dedup]
  exact hf d k x

end Dependencies

open Dependencies

namespace UnitTable

variable {t t' : UnitTable} {k : DepKind} {a b : UnitId}

/-! ## Edges after a pass -/

/-- A pass that changes the dependencies of every unit. -/
theorem lists_mapDeps {f : LoadedUnit → Dependencies → Dependencies} :
    (t.mapUnits fun u => u.mapDeps (f u)).Lists k a b ↔
      ∃ u, t.get a = some u ∧ b ∈ (f u u.common.dependencies).list k := by
  have hget := get_mapUnits t (fun u => u.mapDeps (f u)) a
  cases h : t.get a with
  | none =>
    rw [h, Option.map_none, get_eq_none_iff] at hget
    have hout : ¬ (t.mapUnits fun u => u.mapDeps (f u)).Lists k a b := fun hl => hget hl.1
    simp [hout]
  | some u =>
    rw [h, Option.map_some] at hget
    rw [lists_of_get hget]
    simp

/-- A pass that extends the dependencies of every unit. -/
theorem lists_extendAll {f : LoadedUnit → Dependencies → Dependencies}
    {pushes : LoadedUnit → List (DepKind × UnitId)} (hf : ∀ u, Extends (f u) (pushes u)) :
    (t.mapUnits fun u => u.mapDeps (f u)).Lists k a b ↔
      t.Lists k a b ∨ ∃ u, t.get a = some u ∧ (k, b) ∈ pushes u := by
  rw [lists_mapDeps]
  cases h : t.get a with
  | none =>
    have hout : ¬ t.Lists k a b := fun hl => get_eq_none_iff.mp h hl.1
    simp [hout]
  | some u =>
    rw [lists_of_get h]
    simpa using hf u u.common.dependencies k b

theorem lists_modifyDeps {f : Dependencies → Dependencies} {pushes : List (DepKind × UnitId)}
    (hf : Extends f pushes) (id : UnitId) :
    (t.modifyDeps id f).Lists k a b ↔
      t.Lists k a b ∨ a ∈ t.ids ∧ a = id ∧ (k, b) ∈ pushes := by
  rw [lists_iff, deps_modifyDeps, lists_iff]
  split_ifs with h
  · obtain ⟨rfl, ha⟩ := h
    simp [hf _ k b, ha]
  · have hno : ¬ (a ∈ t.ids ∧ a = id ∧ (k, b) ∈ pushes) := fun ⟨ha, hid, _⟩ => h ⟨hid, ha⟩
    simp [hno]

/-- A loop that extends the dependencies of one unit in each round. -/
theorem lists_foldl_modifyDeps {ι : Type*} {unit : ι → UnitId}
    {f : ι → Dependencies → Dependencies} {pushes : ι → List (DepKind × UnitId)}
    (hf : ∀ i, Extends (f i) (pushes i)) (l : List ι) :
    (l.foldl (fun t i => t.modifyDeps (unit i) (f i)) t).Lists k a b ↔
      t.Lists k a b ∨ a ∈ t.ids ∧ ∃ i ∈ l, a = unit i ∧ (k, b) ∈ pushes i := by
  induction l generalizing t with
  | nil => simp
  | cons i l ih =>
    rw [List.foldl_cons, ih, lists_modifyDeps (hf i), ids_modifyDeps, or_assoc, ← and_or_left,
      List.exists_mem_cons_iff]

/-- `units.get_mut(&unit)`, then `push` on one of its lists, for each entry
    `(unit, list, id)`; nothing where the unit is not loaded. -/
def pushAll (t : UnitTable) (pushes : List (UnitId × DepKind × UnitId)) : UnitTable :=
  pushes.foldl (fun t p => t.modifyDeps p.1 (·.push p.2.1 p.2.2)) t

theorem lists_pushAll {pushes : List (UnitId × DepKind × UnitId)} :
    (t.pushAll pushes).Lists k a b ↔ t.Lists k a b ∨ a ∈ t.ids ∧ (a, k, b) ∈ pushes := by
  have hpush : ∀ p : UnitId × DepKind × UnitId, Extends (·.push p.2.1 p.2.2) [p.2] :=
    fun p => extends_push p.2.1 p.2.2
  rw [pushAll, lists_foldl_modifyDeps hpush]
  have hmem : (∃ p ∈ pushes, a = p.1 ∧ (k, b) ∈ [p.2]) ↔ (a, k, b) ∈ pushes := by
    constructor
    · rintro ⟨p, hp, rfl, hkb⟩
      rw [List.mem_singleton] at hkb
      rw [hkb]
      exact hp
    · intro hp
      exact ⟨_, hp, rfl, List.mem_singleton.mpr rfl⟩
  exact or_congr_right (and_congr_right' hmem)

end UnitTable

/-! ## Tables that differ in dependencies at most -/

/-- The unit without its dependencies. -/
def LoadedUnit.bare (u : LoadedUnit) : LoadedUnit := u.mapDeps fun _ => {}

namespace UnitTable

/-- The tables have the same units, apart from dependencies. -/
def SameUnits (t t' : UnitTable) : Prop := t.units.map (·.bare) = t'.units.map (·.bare)

variable {t t' t'' : UnitTable} {a : UnitId}

theorem SameUnits.refl (t : UnitTable) : SameUnits t t := rfl

theorem SameUnits.symm (h : SameUnits t t') : SameUnits t' t := Eq.symm h

theorem SameUnits.trans (h : SameUnits t t') (h' : SameUnits t' t'') : SameUnits t t'' :=
  Eq.trans h h'

theorem SameUnits.ids (h : SameUnits t t') : t.ids = t'.ids := by
  have hids := congrArg (List.map (·.id)) h
  rw [List.map_map, List.map_map] at hids
  exact hids

theorem SameUnits.get (h : SameUnits t t') (a : UnitId) :
    (t.get a).map (·.bare) = (t'.get a).map (·.bare) := by
  have hfind : ∀ t : UnitTable,
      (t.get a).map (·.bare) = (t.units.map (·.bare)).find? (·.id = a) := by
    intro t
    rw [List.find?_map]
    rfl
  rw [hfind, hfind, h]

/-- A unit of one table is, apart from its dependencies, in the other. -/
theorem SameUnits.exists_get {u : LoadedUnit} (h : SameUnits t t') (hu : t.get a = some u) :
    ∃ u', t'.get a = some u' ∧ u'.id = u.id ∧ u'.specific = u.specific ∧
      u'.common.unit = u.common.unit := by
  have ha := h.get a
  rw [hu, Option.map_some] at ha
  obtain ⟨u', hu', hbare⟩ := Option.map_eq_some_iff.mp ha.symm
  refine ⟨u', hu', ?_, ?_, ?_⟩
  · exact congrArg (·.id) hbare
  · exact congrArg (·.specific) hbare
  · exact congrArg (·.common.unit) hbare

theorem sameUnits_mapDeps (t : UnitTable) (f : LoadedUnit → Dependencies → Dependencies) :
    SameUnits t (t.mapUnits fun u => u.mapDeps (f u)) := by
  rw [SameUnits, mapUnits, List.map_map]
  rfl

theorem sameUnits_modifyDeps (t : UnitTable) (id : UnitId) (f : Dependencies → Dependencies) :
    SameUnits t (t.modifyDeps id f) := by
  rw [SameUnits, modifyDeps, modify, mapUnits, List.map_map]
  refine List.map_congr_left fun u _ => ?_
  simp only [Function.comp_apply]
  split_ifs <;> rfl

theorem sameUnits_foldl_modifyDeps {ι : Type*} (t : UnitTable) (unit : ι → UnitId)
    (f : ι → Dependencies → Dependencies) (l : List ι) :
    SameUnits t (l.foldl (fun t i => t.modifyDeps (unit i) (f i)) t) := by
  induction l generalizing t with
  | nil => exact SameUnits.refl t
  | cons i l ih => exact (sameUnits_modifyDeps t (unit i) (f i)).trans (ih _)

end UnitTable

end OxidizedSystemd.Units
