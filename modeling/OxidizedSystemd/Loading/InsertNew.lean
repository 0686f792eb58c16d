import OxidizedSystemd.Lib.Text
import OxidizedSystemd.Loading.FillDependencies

/-!
# Inserting units on demand

Models of `insert_new_unit_lenient` and `insert_new_units`
(`units/unitset_manipulation/insert_new.rs`, lines 399–755), which enter the reverse of
the edges of a new unit, and the first also those of the edges that lead to it.

* `lenientLoop_paired`: the new unit and every other one list each other alike, on the lists
  that `insert_new_unit_lenient` treats.
* `lists_insertNewUnits`: the edges after `insert_new_units`.
* `insert_two_sided_iff`: when either leaves the table two-sided.
-/

namespace OxidizedSystemd.Units

open Dependencies
open OxidizedSystemd.Lib
open UnitTable

/-! ## The source -/

/-- What a unit pushes onto another unit that it lists: for every entry `(k, j)`,
    `if source.k.contains(&id) { j.push(source.id) }`. -/
def reversed (kinds : List (DepKind × DepKind)) (source : LoadedUnit) (id : UnitId) :
    List (DepKind × UnitId) :=
  (kinds.filter fun p => id ∈ source.common.dependencies.list p.1).map fun p => (p.2, source.id)

/-- These pushes, onto a unit. -/
def wire (kinds : List (DepKind × DepKind)) (source target : LoadedUnit) : LoadedUnit :=
  target.mapDeps (·.pushAll (reversed kinds source target.id))

/-- The lists of "Direction 1" (lines 457–505): what is read of the new unit, and what is pushed
    onto. -/
def forwardKinds : List (DepKind × DepKind) :=
  [(.after, .before), (.before, .after), (.requires, .requiredBy), (.wants, .wantedBy),
    (.requiredBy, .requires), (.wantedBy, .wants), (.conflicts, .conflictedBy),
    (.conflictedBy, .conflicts), (.bindsTo, .boundBy), (.boundBy, .bindsTo),
    (.upholds, .upheldBy), (.upheldBy, .upholds)]

/-- The lists of "Direction 2" (lines 508–552): what is read of the existing unit, and what is
    pushed onto. -/
def backwardKinds : List (DepKind × DepKind) :=
  [(.before, .after), (.after, .before), (.wants, .wantedBy), (.requires, .requiredBy),
    (.wantedBy, .wants), (.requiredBy, .requires), (.conflicts, .conflictedBy),
    (.conflictedBy, .conflicts), (.bindsTo, .boundBy), (.boundBy, .bindsTo),
    (.upholds, .upheldBy), (.upheldBy, .upholds)]

/-- The fallback of "Direction 2" (lines 554–577), on the new unit and an existing one. -/
def restorePruned (unit existing : LoadedUnit) : LoadedUnit × LoadedUnit :=
  let deps := existing.common.dependencies
  if unit.id ∈ existing.common.unit.refsByName ∧ unit.id ∉ deps.wants ∧ unit.id ∉ deps.requires ∧
      unit.id ∉ deps.after ∧ unit.id ∉ deps.before ∧ unit.id ∉ deps.bindsTo ∧
      unit.id ∉ deps.conflicts then
    (unit.mapDeps (·.push .wantedBy existing.id), existing.mapDeps (·.push .wants unit.id))
  else (unit, existing)

/-- The association of a socket with its service (lines 579–642). -/
def associate (unit existing : LoadedUnit) : LoadedUnit × LoadedUnit :=
  if unit.id.nameWithoutSuffix = existing.id.nameWithoutSuffix then
    match unit.specific, existing.specific with
    | .socket _, .service _ =>
      ({ unit with specific := addService existing.id unit.specific }.mapDeps fun d =>
          pushNew .requiredBy existing.id (pushNew .before existing.id d),
        { existing with specific := addSocket unit.id existing.specific }.mapDeps fun d =>
          pushNew .requires unit.id (pushNew .after unit.id d))
    | .service _, .socket _ =>
      ({ unit with specific := addSocket existing.id unit.specific }.mapDeps fun d =>
          pushNew .requires existing.id (pushNew .after existing.id d),
        { existing with specific := addService unit.id existing.specific }.mapDeps fun d =>
          pushNew .requiredBy unit.id (pushNew .before unit.id d))
    | _, _ => (unit, existing)
  else (unit, existing)

/-- One round of the loop of `insert_new_unit_lenient`. -/
def wireExisting (unit existing : LoadedUnit) : LoadedUnit × LoadedUnit :=
  let existing := wire forwardKinds unit existing
  let unit := wire backwardKinds existing unit
  let (unit, existing) := restorePruned unit existing
  associate unit existing

/-- The loop of `insert_new_unit_lenient` (lines 456–643). -/
def lenientLoop : LoadedUnit → List LoadedUnit → LoadedUnit × List LoadedUnit
  | unit, [] => (unit, [])
  | unit, existing :: rest =>
    let (unit, existing) := wireExisting unit existing
    let (unit, rest) := lenientLoop unit rest
    (unit, existing :: rest)

/-! ## One pair of units -/

variable {u u' u'' e e' : LoadedUnit} {kinds : List (DepKind × DepKind)} {j k : DepKind}
  {id x : UnitId} {f g : Dependencies → Dependencies}

theorem mem_reversed {source : LoadedUnit} : (k, x) ∈ reversed kinds source id ↔
    x = source.id ∧ ∃ j, (j, k) ∈ kinds ∧ id ∈ source.common.dependencies.list j := by
  simp only [reversed, List.mem_map, List.mem_filter, decide_eq_true_eq, Prod.mk.injEq]
  constructor
  · rintro ⟨⟨i, j⟩, ⟨hkind, hid⟩, rfl, rfl⟩
    exact ⟨rfl, i, hkind, hid⟩
  · rintro ⟨rfl, j, hkind, hid⟩
    exact ⟨(j, k), ⟨hkind, hid⟩, rfl, rfl⟩

theorem mem_list_wire {source target : LoadedUnit} :
    x ∈ (wire kinds source target).common.dependencies.list k ↔
      x ∈ target.common.dependencies.list k ∨
        x = source.id ∧ ∃ j, (j, k) ∈ kinds ∧ target.id ∈ source.common.dependencies.list j := by
  rw [wire, LoadedUnit.mapDeps_dependencies, mem_list_pushAll, mem_reversed]

/-- A list that `insert_new_unit_lenient` never writes to. -/
def Unwired (k : DepKind) : Prop := ∀ j, (j, k) ∉ forwardKinds

/-- A unit whose lists say the same as before, but perhaps of the unit `id`, and of that in the
    lists that are written to. -/
structure Touched (id : UnitId) (u u' : LoadedUnit) : Prop where
  id_eq : u'.id = u.id
  list : ∀ k x, x ≠ id ∨ Unwired k →
    (x ∈ u'.common.dependencies.list k ↔ x ∈ u.common.dependencies.list k)

theorem Touched.trans (h : Touched id u u') (h' : Touched id u' u'') : Touched id u u'' :=
  ⟨h'.id_eq.trans h.id_eq, fun k x hx => (h'.list k x hx).trans (h.list k x hx)⟩

/-- A change that writes one id to lists that are written to. -/
theorem Touched.of_extends {pushes : List (DepKind × UnitId)} (hid : u'.id = u.id)
    (hdeps : u'.common.dependencies = f u.common.dependencies) (hf : Extends f pushes)
    (hpushes : ∀ p ∈ pushes, p.2 = id ∧ ¬ Unwired p.1) : Touched id u u' := by
  refine ⟨hid, fun k x hx => ?_⟩
  rw [hdeps, hf]
  refine or_iff_left fun hmem => ?_
  obtain ⟨hxid, hwired⟩ := hpushes _ hmem
  exact hx.elim (absurd hxid) hwired

/-- The two units list each other alike. -/
def Paired (u e : LoadedUnit) : Prop := ∀ j k, (j, k) ∈ forwardKinds →
  (e.id ∈ u.common.dependencies.list j ↔ u.id ∈ e.common.dependencies.list k)

/-- Both directions treat the same lists. -/
theorem mem_backwardKinds : (j, k) ∈ backwardKinds ↔ (j, k) ∈ forwardKinds := by
  have hperm : backwardKinds.Perm forwardKinds := by decide
  exact hperm.mem_iff

/-- The lists are in pairs. -/
theorem forwardKinds_swap : (j, k) ∈ forwardKinds ↔ (k, j) ∈ forwardKinds := by
  have hperm : (forwardKinds.map Prod.swap).Perm forwardKinds := by decide
  rw [← hperm.mem_iff, List.mem_map]
  constructor
  · rintro ⟨⟨a, b⟩, hmem, heq⟩
    obtain ⟨rfl, rfl⟩ := Prod.mk.inj heq
    exact hmem
  · intro hmem
    exact ⟨(k, j), hmem, rfl⟩

theorem forwardKinds_unique {i : DepKind} (hi : (i, k) ∈ forwardKinds)
    (hj : (j, k) ∈ forwardKinds) : i = j := by
  have hunique : ∀ p ∈ forwardKinds, ∀ q ∈ forwardKinds, p.2 = q.2 → p.1 = q.1 := by decide
  exact hunique _ hi _ hj rfl

/-- What one unit is told of the other, the other is told of it. -/
theorem Paired.extend (h : Paired u e) (hjk : (j, k) ∈ forwardKinds) (hu' : u'.id = u.id)
    (he' : e'.id = e.id) (hud : u'.common.dependencies = f u.common.dependencies)
    (hed : e'.common.dependencies = g e.common.dependencies) (hf : Extends f [(j, e.id)])
    (hg : Extends g [(k, u.id)]) : Paired u' e' := by
  intro i l hil
  rw [hu', he', hud, hed, hf, hg, h i l hil]
  refine or_congr_right ?_
  simp only [List.mem_singleton, Prod.mk.injEq, and_true]
  constructor
  · rintro rfl
    exact forwardKinds_unique (forwardKinds_swap.mp hil) (forwardKinds_swap.mp hjk)
  · rintro rfl
    exact forwardKinds_unique hil hjk

/-- After both directions the units list each other alike. -/
theorem paired_wire (u e : LoadedUnit) :
    Paired (wire backwardKinds (wire forwardKinds u e) u) (wire forwardKinds u e) := by
  intro j k hjk
  have hback : (∃ i, (i, j) ∈ backwardKinds ∧
      u.id ∈ (wire forwardKinds u e).common.dependencies.list i) ↔
        u.id ∈ (wire forwardKinds u e).common.dependencies.list k := by
    constructor
    · rintro ⟨i, hij, hmem⟩
      rw [mem_backwardKinds] at hij
      rwa [← forwardKinds_unique hij (forwardKinds_swap.mp hjk)]
    · intro hmem
      exact ⟨k, mem_backwardKinds.mpr (forwardKinds_swap.mp hjk), hmem⟩
  have hforward : e.id ∈ u.common.dependencies.list j →
      u.id ∈ (wire forwardKinds u e).common.dependencies.list k := by
    intro hmem
    exact mem_list_wire.mpr (Or.inr ⟨rfl, j, hjk, hmem⟩)
  rw [mem_list_wire, hback]
  constructor
  · rintro (hmem | ⟨-, hmem⟩)
    · exact hforward hmem
    · exact hmem
  · intro hmem
    exact Or.inr ⟨rfl, hmem⟩

/-! ## One round -/

/-- What one round makes of the new unit and an existing one. -/
structure Round (u e u' e' : LoadedUnit) : Prop where
  unit : Touched e.id u u'
  existing : Touched u.id e e'
  paired : Paired u' e'

theorem Round.extend {u₀ e₀ : LoadedUnit} (h : Round u₀ e₀ u e) (hjk : (j, k) ∈ forwardKinds)
    (hu' : u'.id = u.id) (he' : e'.id = e.id)
    (hud : u'.common.dependencies = f u.common.dependencies)
    (hed : e'.common.dependencies = g e.common.dependencies) (hf : Extends f [(j, e.id)])
    (hg : Extends g [(k, u.id)]) : Round u₀ e₀ u' e' := by
  have hj : ¬ Unwired j := fun hun => hun k (forwardKinds_swap.mp hjk)
  have hk : ¬ Unwired k := fun hun => hun j hjk
  refine ⟨h.unit.trans (.of_extends hu' hud hf ?_), h.existing.trans (.of_extends he' hed hg ?_),
    h.paired.extend hjk hu' he' hud hed hf hg⟩
  · intro p hp
    rw [List.mem_singleton.mp hp]
    exact ⟨h.existing.id_eq, hj⟩
  · intro p hp
    rw [List.mem_singleton.mp hp]
    exact ⟨h.unit.id_eq, hk⟩

theorem round_wire (u e : LoadedUnit) :
    Round u e (wire backwardKinds (wire forwardKinds u e) u) (wire forwardKinds u e) := by
  refine ⟨.of_extends rfl rfl (extends_pushAll _) ?_, .of_extends rfl rfl (extends_pushAll _) ?_,
    paired_wire u e⟩
  · rintro ⟨k, x⟩ hp
    obtain ⟨rfl, j, hjk, -⟩ := mem_reversed.mp hp
    exact ⟨rfl, fun hun => hun j (mem_backwardKinds.mp hjk)⟩
  · rintro ⟨k, x⟩ hp
    obtain ⟨rfl, j, hjk, -⟩ := mem_reversed.mp hp
    exact ⟨rfl, fun hun => hun j hjk⟩

theorem round_restorePruned {u₀ e₀ : LoadedUnit} (h : Round u₀ e₀ u e) :
    Round u₀ e₀ (restorePruned u e).1 (restorePruned u e).2 := by
  rw [restorePruned]
  split
  · exact h.extend (by decide : (DepKind.wantedBy, DepKind.wants) ∈ forwardKinds) rfl rfl rfl rfl
      (extends_push _ _) (extends_push _ _)
  · exact h

theorem extends_pushNew_self (k : DepKind) (id : UnitId) : Extends (pushNew k id) [(k, id)] :=
  extends_pushNew extends_id k id

/-- A pair of lists of two units whose other data changes too. -/
theorem Round.pushNew {u₀ e₀ : LoadedUnit} (h : Round u₀ e₀ u e) (hjk : (j, k) ∈ forwardKinds)
    (su se : Specific) : Round u₀ e₀
      ({ u with specific := su }.mapDeps (UnitTable.pushNew j e.id))
      ({ e with specific := se }.mapDeps (UnitTable.pushNew k u.id)) :=
  h.extend hjk rfl rfl rfl rfl (extends_pushNew_self j e.id) (extends_pushNew_self k u.id)

theorem round_associate {u₀ e₀ : LoadedUnit} (h : Round u₀ e₀ u e) :
    Round u₀ e₀ (associate u e).1 (associate u e).2 := by
  have hbefore : (DepKind.before, DepKind.after) ∈ forwardKinds := by decide
  have hrequired : (DepKind.requiredBy, DepKind.requires) ∈ forwardKinds := by decide
  rw [associate]
  split
  · split
    · exact (h.pushNew hbefore _ _).pushNew hrequired _ _
    · exact (h.pushNew (forwardKinds_swap.mp hbefore) _ _).pushNew
        (forwardKinds_swap.mp hrequired) _ _
    · exact h
  · exact h

theorem round_wireExisting (u e : LoadedUnit) :
    Round u e (wireExisting u e).1 (wireExisting u e).2 :=
  round_associate (round_restorePruned (round_wire u e))

/-! ## The loop -/

theorem lenientLoop_cons (u e : LoadedUnit) (es : List LoadedUnit) :
    lenientLoop u (e :: es) = ((lenientLoop (wireExisting u e).1 es).1,
      (wireExisting u e).2 :: (lenientLoop (wireExisting u e).1 es).2) := by
  rw [lenientLoop]

theorem ids_lenientLoop (u : LoadedUnit) (es : List LoadedUnit) :
    (lenientLoop u es).2.map (·.id) = es.map (·.id) := by
  induction es generalizing u with
  | nil => rfl
  | cons e es ih =>
    have hid : (wireExisting u e).2.id = e.id := (round_wireExisting u e).existing.id_eq
    simp only [lenientLoop, List.map_cons, hid, ih]

/-- What the loop makes of the new unit and of the others: they list each other alike, and
    nothing else changes. -/
theorem lenientLoop_paired (u : LoadedUnit) {es : List LoadedUnit} (hes : (es.map (·.id)).Nodup) :
    (lenientLoop u es).1.id = u.id ∧
    (∀ k x, x ∉ es.map (·.id) ∨ Unwired k →
      (x ∈ (lenientLoop u es).1.common.dependencies.list k ↔ x ∈ u.common.dependencies.list k)) ∧
    ∀ e ∈ es, ∃ e' ∈ (lenientLoop u es).2, Touched u.id e e' ∧ Paired (lenientLoop u es).1 e' := by
  induction es generalizing u with
  | nil => exact ⟨rfl, fun _ _ _ => Iff.rfl, fun _ he => absurd he List.not_mem_nil⟩
  | cons e es ih =>
    have hround := round_wireExisting u e
    rw [List.map_cons, List.nodup_cons] at hes
    obtain ⟨hid, hlist, hrest⟩ := ih (wireExisting u e).1 hes.2
    rw [lenientLoop_cons]
    -- only what the round says of its units matters from here on
    generalize wireExisting u e = round at hround hid hlist hrest ⊢
    generalize lenientLoop round.1 es = rest at hid hlist hrest ⊢
    refine ⟨hid.trans hround.unit.id_eq, fun k x hx => ?_, List.forall_mem_cons.mpr ⟨?_, ?_⟩⟩
    · rw [List.map_cons, List.mem_cons, not_or] at hx
      rw [hlist k x (hx.imp_left And.right), hround.unit.list k x (hx.imp_left And.left)]
    · refine ⟨round.2, List.mem_cons_self, hround.existing, fun j k hjk => ?_⟩
      -- later rounds do not write the id of this unit
      rw [hlist j _ (Or.inl (hround.existing.id_eq ▸ hes.1)), hid]
      exact hround.paired j k hjk
    · intro e' he'
      obtain ⟨e'', hmem, htouched, hpaired⟩ := hrest e' he'
      exact ⟨e'', List.mem_cons_of_mem _ hmem, hround.unit.id_eq ▸ htouched, hpaired⟩

/-! ## Tables -/

/-- A table as its units and one more, which replaces the one with its id
    (`unit_table.insert(id, unit)`). -/
def putUnit (unit : LoadedUnit) (units : List LoadedUnit) : List LoadedUnit :=
  units.filter (·.id ≠ unit.id) ++ [unit]

theorem nodup_putUnit (unit : LoadedUnit) {units : List LoadedUnit}
    (h : (units.map (·.id)).Nodup) : ((putUnit unit units).map (·.id)).Nodup := by
  rw [putUnit, List.map_append, List.nodup_append]
  refine ⟨h.sublist (List.filter_sublist.map _), List.nodup_singleton _, ?_⟩
  intro a ha b hb
  obtain ⟨u, hu, rfl⟩ := List.mem_map.mp ha
  obtain rfl : b = unit.id := List.mem_singleton.mp hb
  simpa using (List.mem_filter.mp hu).2

/-- A unit is put into a table. -/
def UnitTable.put (t : UnitTable) (unit : LoadedUnit) : UnitTable :=
  ⟨putUnit unit t.units, nodup_putUnit unit t.nodup⟩

/-- `insert_new_unit_lenient` (lines 444–646). -/
def insertNewUnitLenient (unit : LoadedUnit) (t : UnitTable) : UnitTable :=
  UnitTable.put ⟨(lenientLoop unit t.units).2, by rw [ids_lenientLoop]; exact t.nodup⟩
    (lenientLoop unit t.units).1

/-- `check_all_names_exist` (lines 399–442). It only logs the names that do not exist. -/
def checkAllNamesExist (newUnits t : UnitTable) : Except String Unit :=
  t.units.forM fun unit => newUnits.units.forM fun newUnit =>
    let name := newUnit.id.name
    if unit.id = newUnit.id then .error s!"Id {name} exists already"
    else if unit.id.name = name then .error s!"Name {name} exists already"
    else .ok ()

/-- The lists of the second pass of `insert_new_units` (lines 701–750). -/
def batchKinds : List (DepKind × DepKind) :=
  [(.after, .before), (.before, .after), (.requires, .requiredBy), (.wants, .wantedBy),
    (.conflicts, .conflictedBy), (.conflictedBy, .conflicts), (.bindsTo, .boundBy),
    (.boundBy, .bindsTo), (.upholds, .upheldBy), (.upheldBy, .upholds)]

/-- One round of the second pass: what a new unit listed before the insertion is entered on the
    other side. -/
def wireNew (t : UnitTable) (newUnit : LoadedUnit) : UnitTable :=
  t.mapUnits fun unit => if unit.id = newUnit.id then unit else wire batchKinds newUnit unit

/-- `insert_new_units` (lines 649–755). -/
def insertNewUnits (newUnits t : UnitTable) : Except String UnitTable :=
  (checkAllNamesExist newUnits t).map fun _ =>
    newUnits.units.foldl wireNew (newUnits.units.foldl UnitTable.put t)

/-! ## Two-sided tables -/

/-- Every relation between two different units of the table that is kept on both sides is seen
    from both. -/
structure UnitTable.TwoSidedApart (t : UnitTable) : Prop where
  after_before :
    ∀ a ∈ t.ids, ∀ b ∈ t.ids, a ≠ b → (b ∈ (t.deps a).after ↔ a ∈ (t.deps b).before)
  conflicts_conflictedBy :
    ∀ a ∈ t.ids, ∀ b ∈ t.ids, a ≠ b → (b ∈ (t.deps a).conflicts ↔ a ∈ (t.deps b).conflictedBy)
  requires : ∀ a ∈ t.ids, ∀ b ∈ t.ids, a ≠ b → b ∈ (t.deps a).requires → a ∈ (t.deps b).requiredBy
  wants : ∀ a ∈ t.ids, ∀ b ∈ t.ids, a ≠ b → b ∈ (t.deps a).wants → a ∈ (t.deps b).wantedBy
  bindsTo : ∀ a ∈ t.ids, ∀ b ∈ t.ids, a ≠ b → b ∈ (t.deps a).bindsTo → a ∈ (t.deps b).boundBy
  partOf : ∀ a ∈ t.ids, ∀ b ∈ t.ids, a ≠ b → b ∈ (t.deps a).partOf → a ∈ (t.deps b).partOfBy
  upholds : ∀ a ∈ t.ids, ∀ b ∈ t.ids, a ≠ b → b ∈ (t.deps a).upholds → a ∈ (t.deps b).upheldBy

theorem twoSidedApart_iff {t : UnitTable} : t.TwoSidedApart ↔
    ∀ j k, mirrorOf j = some k → ∀ a ∈ t.ids, ∀ b ∈ t.ids, a ≠ b →
      t.Lists k a b → t.Lists j b a := by
  simp only [lists_iff]
  constructor
  · intro h j k hjk a ha b hb hne hab
    cases j <;> cases hjk
    case wantedBy.refl => exact h.wants a ha b hb hne hab
    case requiredBy.refl => exact h.requires a ha b hb hne hab
    case conflicts.refl => exact (h.conflicts_conflictedBy b hb a ha hne.symm).mpr hab
    case conflictedBy.refl => exact (h.conflicts_conflictedBy a ha b hb hne).mp hab
    case before.refl => exact (h.after_before a ha b hb hne).mp hab
    case after.refl => exact (h.after_before b hb a ha hne.symm).mpr hab
    case partOfBy.refl => exact h.partOf a ha b hb hne hab
    case boundBy.refl => exact h.bindsTo a ha b hb hne hab
    case upheldBy.refl => exact h.upholds a ha b hb hne hab
  · intro h
    constructor
    case after_before =>
      exact fun a ha b hb hne =>
        ⟨h .before .after rfl a ha b hb hne, h .after .before rfl b hb a ha hne.symm⟩
    case conflicts_conflictedBy =>
      exact fun a ha b hb hne => ⟨h .conflictedBy .conflicts rfl a ha b hb hne,
        h .conflicts .conflictedBy rfl b hb a ha hne.symm⟩
    case requires => exact h .requiredBy .requires rfl
    case wants => exact h .wantedBy .wants rfl
    case bindsTo => exact h .boundBy .bindsTo rfl
    case partOf => exact h .partOfBy .partOf rfl
    case upholds => exact h .upheldBy .upholds rfl

variable {t t' newUnits : UnitTable} {a b : UnitId}

theorem mem_ids_put {unit : LoadedUnit} : x ∈ (t.put unit).ids ↔ x ∈ t.ids ∨ x = unit.id := by
  simp only [UnitTable.put, putUnit, ids, List.map_append, List.mem_append, List.mem_map,
    List.mem_filter, List.mem_singleton, decide_eq_true_eq]
  constructor
  · rintro (⟨u, ⟨hu, -⟩, rfl⟩ | ⟨u, rfl, rfl⟩)
    · exact Or.inl ⟨u, hu, rfl⟩
    · exact Or.inr rfl
  · rintro (⟨u, hu, rfl⟩ | rfl)
    · by_cases hid : u.id = unit.id
      · exact Or.inr ⟨unit, rfl, hid.symm⟩
      · exact Or.inl ⟨u, ⟨hu, hid⟩, rfl⟩
    · exact Or.inr ⟨unit, rfl, rfl⟩

theorem get_put (unit : LoadedUnit) :
    (t.put unit).get x = if x = unit.id then some unit else t.get x := by
  split
  · rename_i hx
    rw [get_eq_some_iff]
    exact ⟨List.mem_append_right _ (List.mem_singleton_self unit), hx.symm⟩
  · rename_i hx
    cases h : t.get x with
    | none =>
      rw [get_eq_none_iff, mem_ids_put, not_or]
      exact ⟨get_eq_none_iff.mp h, hx⟩
    | some u =>
      rw [get_eq_some_iff] at h ⊢
      refine ⟨List.mem_append_left _ (List.mem_filter.mpr ⟨h.1, ?_⟩), h.2⟩
      simp [h.2, hx]

/-! ## `insert_new_unit_lenient` -/

theorem mem_ids_insertNewUnitLenient :
    x ∈ (insertNewUnitLenient u t).ids ↔ x ∈ t.ids ∨ x = u.id := by
  rw [insertNewUnitLenient, mem_ids_put, (lenientLoop_paired u t.nodup).1]
  have hids : UnitTable.ids ⟨(lenientLoop u t.units).2, by rw [ids_lenientLoop]; exact t.nodup⟩ =
      t.ids := ids_lenientLoop u t.units
  rw [hids]

theorem get_insertNewUnitLenient_self :
    (insertNewUnitLenient u t).get u.id = some (lenientLoop u t.units).1 := by
  rw [insertNewUnitLenient, get_put, if_pos (lenientLoop_paired u t.nodup).1.symm]

/-- What is left of a unit that was there, and is not replaced. -/
theorem exists_insertNewUnitLenient (hb : b ∈ t.ids) (hne : b ≠ u.id) :
    ∃ e e', t.get b = some e ∧ (insertNewUnitLenient u t).get b = some e' ∧ Touched u.id e e' ∧
      Paired (lenientLoop u t.units).1 e' := by
  obtain ⟨hid, -, hothers⟩ := lenientLoop_paired u t.nodup
  obtain ⟨e, he⟩ := exists_get_of_mem hb
  obtain ⟨e', hmem, htouched, hpaired⟩ := hothers e (mem_units_of_get he)
  refine ⟨e, e', he, ?_, htouched, hpaired⟩
  rw [insertNewUnitLenient, get_put, if_neg (by rwa [hid]), get_eq_some_iff]
  exact ⟨hmem, htouched.id_eq.trans (get_id he)⟩

/-- A list that is not written to stays as it is. -/
theorem lists_insertNewUnitLenient_self (hk : Unwired k) :
    (insertNewUnitLenient u t).Lists k u.id x ↔ x ∈ u.common.dependencies.list k := by
  rw [lists_of_get get_insertNewUnitLenient_self]
  exact (lenientLoop_paired u t.nodup).2.1 k x (Or.inr hk)

/-- So does every list of the other units, but for the new unit. -/
theorem lists_insertNewUnitLenient_of_ne (hb : b ∈ t.ids) (hne : b ≠ u.id)
    (hx : x ≠ u.id ∨ Unwired k) : (insertNewUnitLenient u t).Lists k b x ↔ t.Lists k b x := by
  obtain ⟨e, e', he, he', htouched, -⟩ := exists_insertNewUnitLenient hb hne
  rw [lists_of_get he, lists_of_get he']
  exact htouched.list k x hx

/-- The other lists say the same on both sides. -/
theorem lists_insertNewUnitLenient_paired (hjk : (j, k) ∈ forwardKinds) (hb : b ∈ t.ids)
    (hne : b ≠ u.id) : (insertNewUnitLenient u t).Lists j u.id b ↔
      (insertNewUnitLenient u t).Lists k b u.id := by
  obtain ⟨e, e', he, he', htouched, hpaired⟩ := exists_insertNewUnitLenient hb hne
  rw [lists_of_get get_insertNewUnitLenient_self, lists_of_get he']
  have hid : e'.id = b := htouched.id_eq.trans (get_id he)
  have hpair := hpaired j k hjk
  rwa [hid, (lenientLoop_paired u t.nodup).1] at hpair

/-- `PartOf=` is not among the lists of `insert_new_unit_lenient`, so it has to be on both sides
    before. -/
def PartOfAnswered (u : LoadedUnit) (t : UnitTable) : Prop :=
  ∀ b ∈ t.ids, b ≠ u.id →
    (b ∈ u.common.dependencies.partOf → u.id ∈ (t.deps b).partOfBy) ∧
    (u.id ∈ (t.deps b).partOf → b ∈ u.common.dependencies.partOfBy)

/-- The pairs of lists that are kept on both sides are written to, all but one. -/
theorem mem_forwardKinds_of_mirrorOf (h : mirrorOf j = some k) :
    (k, j) ∈ forwardKinds ∨ (k = .partOf ∧ j = .partOfBy) := by
  cases j <;> cases h <;> decide

theorem insertNewUnitLenient_two_sided_iff (ht : t.TwoSidedApart) :
    (insertNewUnitLenient u t).TwoSidedApart ↔ PartOfAnswered u t := by
  have hunwired : Unwired .partOf ∧ Unwired .partOfBy := by
    constructor <;> intro j <;> cases j <;> decide
  have hself : u.id ∈ (insertNewUnitLenient u t).ids :=
    mem_ids_insertNewUnitLenient.mpr (Or.inr rfl)
  constructor
  · intro h b hb hne
    have hb' : b ∈ (insertNewUnitLenient u t).ids := mem_ids_insertNewUnitLenient.mpr (Or.inl hb)
    constructor
    · intro hpart
      have hlists := twoSidedApart_iff.mp h .partOfBy .partOf rfl u.id hself b hb' hne.symm
        ((lists_insertNewUnitLenient_self hunwired.1).mpr hpart)
      exact lists_iff.mp ((lists_insertNewUnitLenient_of_ne hb hne (Or.inr hunwired.2)).mp hlists)
    · intro hpart
      have hlists := twoSidedApart_iff.mp h .partOfBy .partOf rfl b hb' u.id hself hne
        ((lists_insertNewUnitLenient_of_ne hb hne (Or.inr hunwired.1)).mpr (lists_iff.mpr hpart))
      exact (lists_insertNewUnitLenient_self hunwired.2).mp hlists
  · intro h
    refine twoSidedApart_iff.mpr fun j k hjk a ha b hb hne hab => ?_
    rw [mem_ids_insertNewUnitLenient] at ha hb
    by_cases hau : a = u.id
    · subst hau
      have hb := hb.resolve_right hne.symm
      rcases mem_forwardKinds_of_mirrorOf hjk with hkinds | ⟨rfl, rfl⟩
      · exact (lists_insertNewUnitLenient_paired hkinds hb hne.symm).mp hab
      · refine (lists_insertNewUnitLenient_of_ne hb hne.symm (Or.inr hunwired.2)).mpr ?_
        exact lists_iff.mpr ((h b hb hne.symm).1 ((lists_insertNewUnitLenient_self hunwired.1).mp
          hab))
    · have ha := ha.resolve_right hau
      by_cases hbu : b = u.id
      · subst hbu
        rcases mem_forwardKinds_of_mirrorOf hjk with hkinds | ⟨rfl, rfl⟩
        · exact (lists_insertNewUnitLenient_paired (forwardKinds_swap.mp hkinds) ha hau).mpr hab
        · refine (lists_insertNewUnitLenient_self hunwired.2).mpr ((h a ha hau).2 ?_)
          exact lists_iff.mp ((lists_insertNewUnitLenient_of_ne ha hau (Or.inr hunwired.1)).mp hab)
      · have hb := hb.resolve_right hbu
        rw [lists_insertNewUnitLenient_of_ne ha hau (Or.inl hbu)] at hab
        rw [lists_insertNewUnitLenient_of_ne hb hbu (Or.inl hau)]
        exact twoSidedApart_iff.mp ht j k hjk a ha b hb hne hab

/-! ## `insert_new_units` -/

theorem get_foldl_put {us : List LoadedUnit} (hus : (us.map (·.id)).Nodup) :
    (us.foldl UnitTable.put t).get x = (us.find? (·.id = x)).or (t.get x) := by
  induction us generalizing t with
  | nil => rfl
  | cons u us ih =>
    rw [List.map_cons, List.nodup_cons] at hus
    rw [List.foldl_cons, ih hus.2, get_put, List.find?_cons]
    by_cases hx : u.id = x
    · have hnone : us.find? (·.id = x) = none := by
        rw [List.find?_eq_none]
        intro v hv hvx
        have hvid : v.id = u.id := (of_decide_eq_true hvx).trans hx.symm
        exact hus.1 (hvid ▸ List.mem_map_of_mem hv)
      simp [hx, hnone]
    · simp [hx, Ne.symm hx]

theorem wireNew_eq (t : UnitTable) (n : LoadedUnit) :
    wireNew t n = t.mapUnits fun unit => unit.mapDeps fun d =>
      d.pushAll (if unit.id = n.id then [] else reversed batchKinds n unit.id) := by
  rw [wireNew]
  congr 1
  funext unit
  split <;> rfl

theorem lists_wireNew {n : LoadedUnit} : (wireNew t n).Lists k a x ↔
    t.Lists k a x ∨ a ∈ t.ids ∧ a ≠ n.id ∧ x = n.id ∧
      ∃ j, (j, k) ∈ batchKinds ∧ a ∈ n.common.dependencies.list j := by
  rw [wireNew_eq, lists_extendAll fun unit => extends_pushAll _]
  refine or_congr_right ?_
  constructor
  · rintro ⟨u, hu, hmem⟩
    rw [get_id hu] at hmem
    split at hmem
    · exact absurd hmem List.not_mem_nil
    · rename_i hne
      exact ⟨mem_ids_of_get hu, hne, mem_reversed.mp hmem⟩
  · rintro ⟨ha, hne, hmem⟩
    obtain ⟨u, hu⟩ := exists_get_of_mem ha
    refine ⟨u, hu, ?_⟩
    rw [get_id hu, if_neg hne]
    exact mem_reversed.mpr hmem

theorem ids_wireNew (t : UnitTable) (n : LoadedUnit) : (wireNew t n).ids = t.ids :=
  ids_mapUnits t _

theorem lists_foldl_wireNew {us : List LoadedUnit} : (us.foldl wireNew t).Lists k a x ↔
    t.Lists k a x ∨ a ∈ t.ids ∧ ∃ n ∈ us, a ≠ n.id ∧ x = n.id ∧
      ∃ j, (j, k) ∈ batchKinds ∧ a ∈ n.common.dependencies.list j := by
  induction us generalizing t with
  | nil => simp
  | cons u us ih =>
    rw [List.foldl_cons, ih, lists_wireNew, ids_wireNew, or_assoc, ← and_or_left,
      List.exists_mem_cons_iff]

theorem ids_foldl_wireNew {us : List LoadedUnit} : (us.foldl wireNew t).ids = t.ids := by
  induction us generalizing t with
  | nil => rfl
  | cons u us ih => rw [List.foldl_cons, ih, ids_wireNew]

/-- The check passes if no id is taken, also under another kind. -/
theorem checkAllNamesExist_ok (h : checkAllNamesExist newUnits t = .ok ()) :
    ∀ a ∈ newUnits.ids, a ∉ t.ids := by
  intro a ha hat
  obtain ⟨n, hn, rfl⟩ := List.mem_map.mp ha
  obtain ⟨u, hu, hid⟩ := List.mem_map.mp hat
  have hpair := forM_eq_ok.mp (forM_eq_ok.mp h u hu) n hn
  rw [if_pos hid] at hpair
  cases hpair

theorem insertNewUnits_ok (h : insertNewUnits newUnits t = .ok t') :
    (∀ a ∈ newUnits.ids, a ∉ t.ids) ∧
      t' = newUnits.units.foldl wireNew (newUnits.units.foldl UnitTable.put t) := by
  rw [insertNewUnits] at h
  cases hcheck : checkAllNamesExist newUnits t with
  | error e =>
    rw [hcheck] at h
    cases h
  | ok v =>
    rw [hcheck] at h
    exact ⟨checkAllNamesExist_ok hcheck, (Except.ok.inj h).symm⟩

theorem lists_foldl_put (hdisjoint : ∀ a ∈ newUnits.ids, a ∉ t.ids) :
    (newUnits.units.foldl UnitTable.put t).Lists k a x ↔ t.Lists k a x ∨ newUnits.Lists k a x := by
  have hget : (newUnits.units.foldl UnitTable.put t).get a = (newUnits.get a).or (t.get a) :=
    get_foldl_put newUnits.nodup
  cases hnew : newUnits.get a with
  | none =>
    have hout : ¬ newUnits.Lists k a x := fun hl => get_eq_none_iff.mp hnew hl.1
    rw [hnew, Option.none_or] at hget
    rw [or_iff_left hout, lists_iff, lists_iff, deps, deps, hget]
  | some n =>
    have hout : ¬ t.Lists k a x := fun hl => hdisjoint a (mem_ids_of_get hnew) hl.1
    rw [hnew, Option.some_or] at hget
    rw [or_iff_right hout, lists_of_get hget, lists_of_get hnew]

theorem mem_ids_foldl_put :
    a ∈ (newUnits.units.foldl UnitTable.put t).ids ↔ a ∈ t.ids ∨ a ∈ newUnits.ids := by
  have hget : (newUnits.units.foldl UnitTable.put t).get a = (newUnits.get a).or (t.get a) :=
    get_foldl_put newUnits.nodup
  rw [← not_iff_not, ← get_eq_none_iff, hget, Option.or_eq_none_iff, not_or, ← get_eq_none_iff,
    ← get_eq_none_iff, and_comm]

/-- The edges after `insert_new_units`: those of the old and the new units, and the reverse of
    what the new ones list. -/
theorem lists_insertNewUnits (h : insertNewUnits newUnits t = .ok t') : t'.Lists k a x ↔
    t.Lists k a x ∨ newUnits.Lists k a x ∨ (a ∈ t.ids ∨ a ∈ newUnits.ids) ∧ a ≠ x ∧
      ∃ j, (j, k) ∈ batchKinds ∧ newUnits.Lists j x a := by
  obtain ⟨hdisjoint, rfl⟩ := insertNewUnits_ok h
  rw [lists_foldl_wireNew, lists_foldl_put hdisjoint, mem_ids_foldl_put, or_assoc]
  refine or_congr_right (or_congr_right (and_congr_right fun _ => ?_))
  constructor
  · rintro ⟨n, hn, hne, rfl, j, hjk, hmem⟩
    exact ⟨hne, j, hjk, (lists_of_get (get_of_mem hn)).mpr hmem⟩
  · rintro ⟨hne, j, hjk, hl⟩
    obtain ⟨n, hn⟩ := exists_get_of_mem hl.1
    have hid := get_id hn
    exact ⟨n, mem_units_of_get hn, hid.symm ▸ hne, hid.symm, j, hjk, (lists_of_get hn).mp hl⟩

/-- What `insert_new_units` does not enter: the reverse of an edge that an old unit has to a new
    one, and that of `PartOf=`. -/
structure EdgesAnswered (newUnits t : UnitTable) : Prop where
  old : ∀ j k, mirrorOf j = some k → ∀ b ∈ t.ids, ∀ a ∈ newUnits.ids, t.Lists k b a →
    newUnits.Lists j a b
  partOf : ∀ a ∈ newUnits.ids, ∀ b, b ∈ t.ids ∨ b ∈ newUnits.ids → b ≠ a →
    newUnits.Lists .partOf a b → t.Lists .partOfBy b a ∨ newUnits.Lists .partOfBy b a

theorem batchKinds_of_mirrorOf (h : mirrorOf j = some k) :
    (k, j) ∈ batchKinds ∨ (k = .partOf ∧ j = .partOfBy) := by
  cases j <;> cases h <;> decide

theorem eq_of_batchKinds {i : DepKind} (h : mirrorOf j = some k) (hi : (i, k) ∈ batchKinds) :
    i = j := by
  have hinverse : ∀ p ∈ batchKinds, ∀ l, mirrorOf l = some p.2 → p.1 = l := by
    intro p hp l
    revert p
    cases l <;> decide
  exact hinverse _ hi j h

theorem insertNewUnits_two_sided_iff (ht : t.TwoSidedApart)
    (h : insertNewUnits newUnits t = .ok t') : t'.TwoSidedApart ↔ EdgesAnswered newUnits t := by
  have hdisjoint := (insertNewUnits_ok h).1
  have hids : ∀ a, a ∈ t'.ids ↔ a ∈ t.ids ∨ a ∈ newUnits.ids := by
    intro a
    rw [(insertNewUnits_ok h).2, ids_foldl_wireNew, mem_ids_foldl_put]
  constructor
  · intro htwo
    have hedges := twoSidedApart_iff.mp htwo
    constructor
    · intro j k hjk b hb a ha hba
      have hne : b ≠ a := fun heq => hdisjoint a ha (heq ▸ hb)
      have hab := hedges j k hjk b ((hids b).mpr (Or.inl hb)) a ((hids a).mpr (Or.inr ha)) hne
        ((lists_insertNewUnits h).mpr (Or.inl hba))
      rcases (lists_insertNewUnits h).mp hab with hold | hnew | ⟨-, -, i, -, hnew⟩
      · exact absurd hold.1 (hdisjoint a ha)
      · exact hnew
      · exact absurd hb (hdisjoint b hnew.1)
    · intro a ha b hb hne hab
      have hba := hedges .partOfBy .partOf rfl a ((hids a).mpr (Or.inr ha)) b ((hids b).mpr hb)
        hne.symm ((lists_insertNewUnits h).mpr (Or.inr (Or.inl hab)))
      have hnone : ∀ i, (i, DepKind.partOfBy) ∉ batchKinds := by
        intro i
        cases i <;> decide
      rcases (lists_insertNewUnits h).mp hba with hold | hnew | ⟨-, -, i, hi, -⟩
      · exact Or.inl hold
      · exact Or.inr hnew
      · exact absurd hi (hnone i)
  · intro hanswered
    refine twoSidedApart_iff.mpr fun j k hjk a ha b hb hne hab => ?_
    rw [hids] at ha hb
    rcases (lists_insertNewUnits h).mp hab with hold | hnew | ⟨-, -, i, hi, hnew⟩
    · rcases hb with hb | hb
      · exact (lists_insertNewUnits h).mpr (Or.inl (twoSidedApart_iff.mp ht j k hjk a hold.1 b hb
          hne hold))
      · exact (lists_insertNewUnits h).mpr (Or.inr (Or.inl (hanswered.old j k hjk a hold.1 b hb
          hold)))
    · rcases batchKinds_of_mirrorOf hjk with hkinds | ⟨rfl, rfl⟩
      · exact (lists_insertNewUnits h).mpr (Or.inr (Or.inr ⟨hb, hne.symm, k, hkinds, hnew⟩))
      · rcases hanswered.partOf a hnew.1 b hb hne.symm hnew with hba | hba
        · exact (lists_insertNewUnits h).mpr (Or.inl hba)
        · exact (lists_insertNewUnits h).mpr (Or.inr (Or.inl hba))
    · rw [eq_of_batchKinds hjk hi] at hnew
      exact (lists_insertNewUnits h).mpr (Or.inr (Or.inl hnew))

/-! ## Both -/

/-- An insertion leaves a two-sided table two-sided exactly if the edges whose reverse it does not
    enter are on both sides before: those of `PartOf=`, and for `insert_new_units` those that
    lead from an old unit to a new one. -/
theorem insert_two_sided_iff {t : UnitTable} (ht : t.TwoSidedApart) :
    (∀ unit, (insertNewUnitLenient unit t).TwoSidedApart ↔ PartOfAnswered unit t) ∧
    (∀ newUnits t', insertNewUnits newUnits t = .ok t' →
      (t'.TwoSidedApart ↔ EdgesAnswered newUnits t)) :=
  ⟨fun _ => insertNewUnitLenient_two_sided_iff ht, fun _ _ h => insertNewUnits_two_sided_iff ht h⟩

/-- A unit that requires another one, which is not loaded. -/
def waiting : UnitTable where
  units := [{
    id := ⟨.service, "db.service"⟩
    common := { dependencies := { requires := [⟨.service, "web.service"⟩] } }
    specific := .service {} }]
  nodup := by decide

/-- That unit, which may know that it is required, and may be part of the first one. -/
def web (requiredBy partOf : List UnitId) : LoadedUnit where
  id := ⟨.service, "web.service"⟩
  common := { dependencies := { requiredBy := requiredBy, partOf := partOf } }
  specific := .service {}

/-- The new units of an insertion of that unit alone. -/
def onlyWeb (requiredBy partOf : List UnitId) : UnitTable :=
  ⟨[web requiredBy partOf], List.nodup_singleton _⟩

theorem waiting_twoSidedApart : waiting.TwoSidedApart := by
  constructor <;> decide

/-- Where the new unit has `RequiredBy=` itself, both insertions do. -/
theorem insert_two_sided_iff_requiredBy :
    (insertNewUnitLenient (web [⟨.service, "db.service"⟩] []) waiting).TwoSidedApart ∧
      ∃ t', insertNewUnits (onlyWeb [⟨.service, "db.service"⟩] []) waiting = .ok t' ∧
        t'.TwoSidedApart := by
  obtain ⟨hlenient, hbatch⟩ := insert_two_sided_iff waiting_twoSidedApart
  refine ⟨(hlenient _).mpr ?_, _, rfl, (hbatch (onlyWeb [⟨.service, "db.service"⟩] []) _ rfl).mpr
    ⟨?_, ?_⟩⟩
  · unfold PartOfAnswered
    decide
  · intro j k hjk b hb a ha hba
    obtain rfl := List.mem_singleton.mp hb
    obtain rfl := List.mem_singleton.mp ha
    rw [lists_iff] at hba ⊢
    cases j <;> cases hjk <;> revert hba <;> decide
  · intro a ha b hb hne hab
    obtain rfl := List.mem_singleton.mp ha
    rw [lists_iff] at hab
    exact absurd hab List.not_mem_nil

/-- Otherwise `insert_new_units` does not enter that it is required, and neither insertion enters
    that it is part of the other unit. -/
theorem insert_misses_reverse_edges : waiting.TwoSidedApart ∧
    (∃ t', insertNewUnits (onlyWeb [] []) waiting = .ok t' ∧ ¬ t'.TwoSidedApart) ∧
    ¬ (insertNewUnitLenient (web [] [⟨.service, "db.service"⟩]) waiting).TwoSidedApart := by
  refine ⟨waiting_twoSidedApart, ⟨_, rfl, fun h => ?_⟩, fun h => ?_⟩
  · have hreq := h.requires ⟨.service, "db.service"⟩ (by decide)
      ⟨.service, "web.service"⟩ (by decide) (by decide) (by decide)
    exact absurd hreq (by decide)
  · have hpart := h.partOf ⟨.service, "web.service"⟩ (by decide)
      ⟨.service, "db.service"⟩ (by decide) (by decide) (by decide)
    exact absurd hpart (by decide)

end OxidizedSystemd.Units
