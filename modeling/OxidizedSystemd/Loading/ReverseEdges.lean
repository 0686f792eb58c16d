import OxidizedSystemd.Lib.Mirror
import OxidizedSystemd.Loading.Pushes

/-!
# The reverse of declared edges

The loops of `fill_dependencies` (`units/loading/dependency_resolving.rs`, lines
254–399) that make declared edges visible on both sides.

* `lists_fillReverse`: every declared edge and its reverse are there afterwards,
    and nothing else.
-/

namespace OxidizedSystemd.Units

open Dependencies
open OxidizedSystemd.Lib

/-- The list that holds the reverse of the edges in another list. `wants` and
    `requires` are the reverse of nothing: `WantedBy=` and `RequiredBy=` of
    `[Install]` take effect when a unit is enabled. -/
def mirrorOf : DepKind → Option DepKind
  | .wantedBy => some .wants
  | .requiredBy => some .requires
  | .conflicts => some .conflictedBy
  | .conflictedBy => some .conflicts
  | .before => some .after
  | .after => some .before
  | .partOfBy => some .partOf
  | .boundBy => some .bindsTo
  | .upheldBy => some .upholds
  | _ => none

theorem mirrorOf_involutive : Involutive mirrorOf := by
  intro i j k hij hjk
  cases i <;> cases hij <;> cases hjk <;> rfl

namespace UnitTable

variable {t : UnitTable} {k : DepKind} {a b : UnitId}

/-- The pairs `(unit.id, id)` that the first loop of `fill_dependencies` collects
    from one list. -/
def collect (t : UnitTable) (k : DepKind) : List (UnitId × UnitId) :=
  t.units.flatMap fun unit => (unit.common.dependencies.list k).map fun id => (unit.id, id)

/-- The vector `conflicts` of the first loop. -/
def collectConflicts (t : UnitTable) : List (UnitId × UnitId) :=
  t.units.flatMap fun unit =>
    (unit.common.dependencies.conflicts.map fun id => (unit.id, id)) ++
      unit.common.dependencies.conflictedBy.map fun id => (id, unit.id)

/-- A loop over collected pairs that pushes onto a list of both units. -/
def pushBoth (k j : DepKind) (pairs : List (UnitId × UnitId)) : List (UnitId × DepKind × UnitId) :=
  pairs.flatMap fun (unit, id) => [(unit, k, id), (id, j, unit)]

/-- A loop over collected pairs that pushes onto a list of the second unit. -/
def pushReverse (j : DepKind) (pairs : List (UnitId × UnitId)) :
    List (UnitId × DepKind × UnitId) :=
  pairs.map fun (unit, id) => (id, j, unit)

/-- What the loops over the collected vectors push, in their order. -/
def reversePushes (t : UnitTable) : List (UnitId × DepKind × UnitId) :=
  pushBoth .wants .wantedBy (t.collect .wants) ++
    pushBoth .requires .requiredBy (t.collect .requires) ++
    pushReverse .before (t.collect .after) ++
    pushReverse .after (t.collect .before) ++
    pushBoth .conflicts .conflictedBy t.collectConflicts ++
    pushReverse .partOfBy (t.collect .partOf) ++
    pushReverse .upheldBy (t.collect .upholds) ++
    pushReverse .boundBy (t.collect .bindsTo)

/-- The loops of `fill_dependencies` up to `add_all_implicit_relations` (lines
    255–398). -/
def fillReverse (t : UnitTable) : UnitTable := t.pushAll t.reversePushes

theorem mem_collect : (a, b) ∈ t.collect k ↔ t.Lists k a b := by
  rw [collect, List.mem_flatMap]
  constructor
  · rintro ⟨u, hu, hab⟩
    obtain ⟨id, hid, heq⟩ := List.mem_map.mp hab
    obtain ⟨rfl, rfl⟩ := Prod.mk.inj heq
    exact (lists_of_get (get_of_mem hu)).mpr hid
  · intro h
    obtain ⟨u, hu⟩ := exists_get_of_mem h.1
    refine ⟨u, mem_units_of_get hu, List.mem_map.mpr ⟨b, (lists_of_get hu).mp h, ?_⟩⟩
    rw [get_id hu]

theorem mem_collectConflicts :
    (a, b) ∈ t.collectConflicts ↔ t.Lists .conflicts a b ∨ t.Lists .conflictedBy b a := by
  have hswap : t.Lists .conflictedBy b a ↔
      (a, b) ∈ (t.collect .conflictedBy).map fun p => (p.2, p.1) := by
    rw [← mem_collect, List.mem_map]
    constructor
    · intro h
      exact ⟨(b, a), h, rfl⟩
    · rintro ⟨⟨x, y⟩, h, heq⟩
      obtain ⟨rfl, rfl⟩ := Prod.mk.inj heq
      exact h
  rw [← mem_collect, hswap, collect, collect, collectConflicts, List.map_flatMap]
  simp only [List.mem_flatMap, List.mem_append, List.map_map]
  constructor
  · rintro ⟨u, hu, h | h⟩
    · exact Or.inl ⟨u, hu, h⟩
    · exact Or.inr ⟨u, hu, h⟩
  · rintro (⟨u, hu, h⟩ | ⟨u, hu, h⟩)
    · exact ⟨u, hu, Or.inl h⟩
    · exact ⟨u, hu, Or.inr h⟩

theorem mem_pushBoth {i j : DepKind} {pairs : List (UnitId × UnitId)} :
    (a, k, b) ∈ pushBoth i j pairs ↔ k = i ∧ (a, b) ∈ pairs ∨ k = j ∧ (b, a) ∈ pairs := by
  rw [pushBoth, List.mem_flatMap]
  constructor
  · rintro ⟨⟨x, y⟩, hxy, h⟩
    simp only [List.mem_cons, List.not_mem_nil, or_false, Prod.mk.injEq] at h
    rcases h with ⟨rfl, rfl, rfl⟩ | ⟨rfl, rfl, rfl⟩
    · exact Or.inl ⟨rfl, hxy⟩
    · exact Or.inr ⟨rfl, hxy⟩
  · rintro (⟨rfl, h⟩ | ⟨rfl, h⟩)
    · exact ⟨(a, b), h, by simp⟩
    · exact ⟨(b, a), h, by simp⟩

theorem mem_pushReverse {j : DepKind} {pairs : List (UnitId × UnitId)} :
    (a, k, b) ∈ pushReverse j pairs ↔ k = j ∧ (b, a) ∈ pairs := by
  rw [pushReverse, List.mem_map]
  constructor
  · rintro ⟨⟨x, y⟩, hxy, h⟩
    obtain ⟨rfl, rfl, rfl⟩ : y = a ∧ j = k ∧ x = b := by simpa using h
    exact ⟨rfl, hxy⟩
  · rintro ⟨rfl, h⟩
    exact ⟨(b, a), h, rfl⟩

/-- An entry is pushed again, or it is the reverse of a declared one. -/
theorem mem_reversePushes :
    (a, k, b) ∈ t.reversePushes ↔
      (k = .wants ∨ k = .requires ∨ k = .conflicts ∨ k = .conflictedBy) ∧ t.Lists k a b ∨
        ∃ j, mirrorOf k = some j ∧ t.Lists j b a := by
  simp only [reversePushes, List.mem_append, mem_pushBoth, mem_pushReverse, mem_collect,
    mem_collectConflicts]
  cases k <;> simp [mirrorOf, or_comm]

theorem lists_fillReverse :
    t.fillReverse.Lists k a b ↔ t.Lists k a b ∨ a ∈ t.ids ∧ Mirrored mirrorOf t.Lists k a b := by
  rw [fillReverse, lists_pushAll, mem_reversePushes, Mirrored]
  tauto

theorem sameUnits_fillReverse (t : UnitTable) : SameUnits t t.fillReverse :=
  sameUnits_foldl_modifyDeps t _ _ _

end UnitTable

end OxidizedSystemd.Units
