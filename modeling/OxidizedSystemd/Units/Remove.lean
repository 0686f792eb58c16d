import OxidizedSystemd.Units.Table
import Mathlib.Logic.Relation

/-!
# Removing units

Model of `unitset_manipulation/remove.rs`. A unit is removed together with the
units that mention it by name, directly or not. Before that it is checked that
the unit and those that mention it directly are stopped, with everything that
requires them.

* `mem_ids_remove_iff`: the units that are removed.
* `check_ok_iff`: when a check succeeds.
* `removal_safe_iff`: exactly when only stopped units are removed.
* `running_unit_removed`: a running unit that is removed.
-/

namespace OxidizedSystemd.Units

open Relation (TransGen ReflTransGen)

variable {t : UnitTable}

/-! ## The functions -/

/-- The loop that checks one unit after the other and returns the first error. -/
def checkAll (check : UnitId → Option (Except String Unit)) :
    List UnitId → Option (Except String Unit)
  | [] => some (.ok ())
  | next :: rest =>
    match check next with
    | some (.ok ()) => checkAll check rest
    | other => other

/-- `check_deactivated_recursive` (lines 30–52). There is no guard against cycles of `required_by`,
    and a unit that is not loaded is a panic: `none` if `fuel` levels are not enough, or it
    panics. -/
def checkDeactivatedRecursive (t : UnitTable) : ℕ → UnitId → Option (Except String Unit)
  | 0, _ => none
  | fuel + 1, removeId =>
    match t.get removeId with
    | none => none
    | some unit =>
      if unit.common.status.isStopped then
        checkAll (checkDeactivatedRecursive t fuel) unit.common.dependencies.requiredBy
      else some (.error ("This unit wasn't stopped before removing: " ++ unit.id.name))

/-- The units that mention `rmId` by name (lines 70–75, 93–97). -/
def referrers (t : UnitTable) (rmId : UnitId) : List UnitId :=
  (t.units.filter fun u => u.id ≠ rmId ∧ rmId ∈ u.common.unit.refsByName).map (·.id)

/-- `find_all_depending` (lines 64–82); `none` if `fuel` levels are not enough. -/
def findAllDepending (t : UnitTable) : ℕ → UnitId → List UnitId → Option (List UnitId)
  | 0, _, _ => none
  | fuel + 1, rmId, ids =>
    if rmId ∈ ids then some ids
    else
      (referrers t rmId).foldlM (fun ids id => findAllDepending t fuel id ids)
        (ids ++ referrers t rmId)

/-- `remove_single_unit` (lines 56–63). -/
def removeSingleUnit (t : UnitTable) (rmId : UnitId) : UnitTable :=
  (t.mapUnits (·.mapDeps (·.removeId rmId))).remove rmId

/-- `remove_with_depending_units` (lines 85–102); `none` if `fuel` levels are not enough. -/
def removeWithDependingUnits : ℕ → UnitId → UnitTable → Option UnitTable
  | 0, _, _ => none
  | fuel + 1, rmId, t =>
    let t := removeSingleUnit t rmId
    (referrers t rmId).foldlM (fun t id => removeWithDependingUnits fuel id t) t

/-- `remove_unit_with_dependencies` (lines 8–27), with `fuel` levels for the checks: the result and
    the table that is left. -/
def removeUnitWithDependencies (fuel : ℕ) (t : UnitTable) (removeId : UnitId) :
    Option (Except String Unit × UnitTable) :=
  match checkDeactivatedRecursive t fuel removeId with
  | none => none
  | some (.error e) => some (.error e, t)
  | some (.ok ()) =>
    match findAllDepending t (t.ids.length + 2) removeId [] with
    | none => none
    | some dependingByNameIds =>
      match checkAll (checkDeactivatedRecursive t fuel) dependingByNameIds with
      | none => none
      | some (.error e) => some (.error e, t)
      | some (.ok ()) =>
        (removeWithDependingUnits (2 * t.ids.length + 1) removeId t).map fun t' => (.ok (), t')

/-! ## References -/

/-- The names a loaded unit mentions. -/
def refsByName (t : UnitTable) (id : UnitId) : List UnitId :=
  match t.get id with
  | some u => u.common.unit.refsByName
  | none => []

/-- `b` is loaded and mentions `a` by name. -/
def Refers (t : UnitTable) (a b : UnitId) : Prop := b ∈ t.ids ∧ b ≠ a ∧ a ∈ refsByName t b

theorem refsByName_of_mem {u : LoadedUnit} (hu : u ∈ t.units) :
    refsByName t u.id = u.common.unit.refsByName := by
  rw [refsByName, UnitTable.get_of_mem hu]

theorem mem_referrers {a b : UnitId} : b ∈ referrers t a ↔ Refers t a b := by
  rw [referrers, List.mem_map]
  constructor
  · rintro ⟨u, hu, rfl⟩
    obtain ⟨hmem, hcond⟩ := List.mem_filter.mp hu
    obtain ⟨hne, href⟩ := of_decide_eq_true hcond
    exact ⟨List.mem_map_of_mem hmem, hne, refsByName_of_mem hmem ▸ href⟩
  · rintro ⟨hb, hne, href⟩
    obtain ⟨u, hu, rfl⟩ := List.mem_map.mp hb
    rw [refsByName_of_mem hu] at href
    exact ⟨u, List.mem_filter.mpr ⟨hu, decide_eq_true ⟨hne, href⟩⟩, rfl⟩

theorem mem_ids_removeSingleUnit {a x : UnitId} :
    x ∈ (removeSingleUnit t a).ids ↔ x ∈ t.ids ∧ x ≠ a := by
  rw [removeSingleUnit, UnitTable.mem_ids_remove, UnitTable.ids_mapUnits]

theorem refsByName_removeSingleUnit {a x : UnitId} (hx : x ≠ a) :
    refsByName (removeSingleUnit t a) x = refsByName t x := by
  rw [refsByName, refsByName, removeSingleUnit, UnitTable.get_remove, if_neg hx,
    UnitTable.get_mapUnits]
  cases t.get x <;> rfl

/-- `t'` holds some of the units of `t`; what they mention is unchanged. -/
structure PartOf (t' t : UnitTable) : Prop where
  mem : ∀ {x}, x ∈ t'.ids → x ∈ t.ids
  refs : ∀ {x}, x ∈ t'.ids → refsByName t' x = refsByName t x

theorem PartOf.refl (t : UnitTable) : PartOf t t := ⟨fun h => h, fun _ => rfl⟩

theorem PartOf.trans {t₁ t₂ t₃ : UnitTable} (h : PartOf t₁ t₂) (h' : PartOf t₂ t₃) :
    PartOf t₁ t₃ := ⟨fun hx => h'.mem (h.mem hx), fun hx => (h.refs hx).trans (h'.refs (h.mem hx))⟩

theorem partOf_removeSingleUnit (t : UnitTable) (a : UnitId) : PartOf (removeSingleUnit t a) t where
  mem hx := (mem_ids_removeSingleUnit.mp hx).1
  refs hx := refsByName_removeSingleUnit (mem_ids_removeSingleUnit.mp hx).2

theorem PartOf.refers {t' : UnitTable} (h : PartOf t' t) {a b : UnitId} (hab : Refers t' a b) :
    Refers t a b := ⟨h.mem hab.1, hab.2.1, h.refs hab.1 ▸ hab.2.2⟩

theorem PartOf.length_le {t' : UnitTable} (h : PartOf t' t) : t'.ids.length ≤ t.ids.length :=
  (List.subperm_of_subset t'.ids_nodup fun _ hx => h.mem hx).length_le

/-! ## What is removed -/

/-- `t'` is `t` without `roots` and the units that mention a removed unit. -/
structure Removed (t : UnitTable) (roots : List UnitId) (t' : UnitTable) : Prop where
  part : PartOf t' t
  gone : ∀ a ∈ roots, a ∉ t'.ids
  closed : ∀ {a b}, a ∈ roots ∨ a ∈ t.ids → a ∉ t'.ids → b ∈ t'.ids → a ∉ refsByName t b
  reached : ∀ {x}, x ∈ t.ids → x ∉ t'.ids → ∃ a ∈ roots, ReflTransGen (Refers t) a x

theorem removed_nil (t : UnitTable) : Removed t [] t where
  part := .refl t
  gone _ ha := absurd ha List.not_mem_nil
  closed ha hnot := absurd (ha.resolve_left List.not_mem_nil) hnot
  reached hx hnot := absurd hx hnot

theorem Removed.cons {t₁ t₂ : UnitTable} {a : UnitId} {rest : List UnitId}
    (h : Removed t [a] t₁) (h' : Removed t₁ rest t₂) : Removed t (a :: rest) t₂ where
  part := h'.part.trans h.part
  gone b hb := by
    rcases List.mem_cons.mp hb with rfl | hb
    · exact fun hmem => h.gone b List.mem_cons_self (h'.part.mem hmem)
    · exact h'.gone b hb
  closed {x y} hx hgone hy := by
    have hy₁ := h'.part.mem hy
    by_cases hx₁ : x ∈ t₁.ids
    · rw [← h.part.refs hy₁]
      exact h'.closed (.inr hx₁) hgone hy
    · rcases hx with hx | hx
      · rcases List.mem_cons.mp hx with rfl | hx
        · exact h.closed (.inl List.mem_cons_self) hx₁ hy₁
        · rw [← h.part.refs hy₁]
          exact h'.closed (.inl hx) hgone hy
      · exact h.closed (.inr hx) hx₁ hy₁
  reached {x} hx hgone := by
    by_cases hx₁ : x ∈ t₁.ids
    · obtain ⟨b, hb, hpath⟩ := h'.reached hx₁ hgone
      exact ⟨b, List.mem_cons_of_mem _ hb,
        ReflTransGen.mono (fun _ _ => h.part.refers) _ _ hpath⟩
    · obtain ⟨b, hb, hpath⟩ := h.reached hx hx₁
      exact ⟨b, List.mem_singleton.mp hb ▸ List.mem_cons_self, hpath⟩

/-- A unit goes first, then the units that mention it. -/
theorem Removed.unit {t' : UnitTable} {a : UnitId}
    (h : Removed (removeSingleUnit t a) (referrers (removeSingleUnit t a) a) t') :
    Removed t [a] t' where
  part := h.part.trans (partOf_removeSingleUnit t a)
  gone b hb hmem := by
    rw [List.mem_singleton.mp hb] at hmem
    exact (mem_ids_removeSingleUnit.mp (h.part.mem hmem)).2 rfl
  closed {x y} hx hgone hy := by
    have hy' := h.part.mem hy
    have hya := (mem_ids_removeSingleUnit.mp hy').2
    rw [← refsByName_removeSingleUnit hya]
    by_cases hxa : x = a
    · subst hxa
      exact fun href => h.gone y (mem_referrers.mpr ⟨hy', hya, href⟩) hy
    · have hxt := hx.resolve_left fun hmem => hxa (List.mem_singleton.mp hmem)
      exact h.closed (.inr (mem_ids_removeSingleUnit.mpr ⟨hxt, hxa⟩)) hgone hy
  reached {x} hx hgone := by
    refine ⟨a, List.mem_singleton.mpr rfl, ?_⟩
    by_cases hxa : x = a
    · exact hxa ▸ .refl
    · obtain ⟨b, hb, hpath⟩ := h.reached (mem_ids_removeSingleUnit.mpr ⟨hx, hxa⟩) hgone
      have hpart := partOf_removeSingleUnit t a
      exact .head (hpart.refers (mem_referrers.mp hb))
        (ReflTransGen.mono (fun _ _ => hpart.refers) _ _ hpath)

/-- What a removal does, if it does it with no units, with one and then the others, and with a unit
    that goes before those that mention it. -/
theorem removeWithDependingUnits_induct {R : UnitTable → List UnitId → UnitTable → Prop}
    (hnil : ∀ t, R t [] t)
    (hcons : ∀ {t t₁ t₂ a rest}, R t [a] t₁ → R t₁ rest t₂ → R t (a :: rest) t₂)
    (hunit : ∀ {t t' a},
      R (removeSingleUnit t a) (referrers (removeSingleUnit t a) a) t' → R t [a] t')
    {fuel : ℕ} : ∀ {t t' a}, removeWithDependingUnits fuel a t = some t' → R t [a] t' := by
  induction fuel with
  | zero => exact fun h => by cases h
  | succ fuel ih =>
    have hloop : ∀ (roots : List UnitId) {t t'},
        roots.foldlM (fun t id => removeWithDependingUnits fuel id t) t = some t' →
          R t roots t' := by
      intro roots
      induction roots with
      | nil =>
        intro t t' h
        rw [List.foldlM_nil] at h
        cases h
        exact hnil t
      | cons a roots ihroots =>
        intro t t' h
        rw [List.foldlM_cons] at h
        obtain ⟨t₁, h₁, h⟩ := Option.bind_eq_some_iff.mp h
        exact hcons (ih h₁) (ihroots h)
    intro t t' a h
    rw [removeWithDependingUnits] at h
    exact hunit (hloop _ h)

theorem removeWithDependingUnits_removed {fuel : ℕ} {t' : UnitTable} {a : UnitId}
    (h : removeWithDependingUnits fuel a t = some t') : Removed t [a] t' :=
  removeWithDependingUnits_induct removed_nil Removed.cons Removed.unit h

/-- Exactly the units that mention the removed unit, directly or not, are removed with it. -/
theorem mem_ids_remove_iff {fuel : ℕ} {t' : UnitTable} {a x : UnitId}
    (h : removeWithDependingUnits fuel a t = some t') :
    x ∈ t'.ids ↔ x ∈ t.ids ∧ ¬ ReflTransGen (Refers t) a x := by
  have hr := removeWithDependingUnits_removed h
  constructor
  · intro hx
    refine ⟨hr.part.mem hx, fun hpath => ?_⟩
    suffices x ∉ t'.ids from this hx
    clear hx
    induction hpath with
    | refl => exact hr.gone a List.mem_cons_self
    | @tail y z hay hyz ih =>
      intro hz
      refine hr.closed ?_ ih hz hyz.2.2
      rcases ReflTransGen.cases_tail hay with rfl | ⟨w, -, hwy⟩
      · exact .inl List.mem_cons_self
      · exact .inr hwy.1
  · rintro ⟨hx, hnot⟩
    by_contra hgone
    obtain ⟨b, hb, hpath⟩ := hr.reached hx hgone
    exact hnot (List.mem_singleton.mp hb ▸ hpath)

/-! ## The removal comes to an end -/

theorem PartOf.length_lt {t' : UnitTable} (h : PartOf t' t) {a : UnitId} (ha : a ∈ t.ids)
    (hgone : a ∉ t'.ids) : t'.ids.length < t.ids.length := by
  have hsub : t'.ids ⊆ t.ids.erase a := by
    intro x hx
    have hne : x ≠ a := fun heq => hgone (heq ▸ hx)
    exact (List.mem_erase_of_ne hne).mpr (h.mem hx)
  have hle := (List.subperm_of_subset t'.ids_nodup hsub).length_le
  have hlen := List.length_erase_add_one ha
  omega

theorem foldlM_isSome {remove : UnitTable → UnitId → Option UnitTable} {n : ℕ}
    (htotal : ∀ t a, t.ids.length ≤ n → (remove t a).isSome)
    (hpart : ∀ t a t', remove t a = some t' → PartOf t' t) (roots : List UnitId) :
    ∀ {t}, t.ids.length ≤ n → (roots.foldlM remove t).isSome := by
  induction roots with
  | nil => exact fun _ => rfl
  | cons a roots ih =>
    intro t ht
    obtain ⟨t₁, h₁⟩ := Option.isSome_iff_exists.mp (htotal t a ht)
    rw [List.foldlM_cons, h₁]
    exact ih ((hpart t a t₁ h₁).length_le.trans ht)

/-- Two levels for each unit are enough. Only a loaded unit makes the table smaller, but a unit that
    is not loaded any more is followed by a loaded one. -/
theorem removeWithDependingUnits_isSome {fuel : ℕ} :
    ∀ {t a}, 2 * t.ids.length + 1 ≤ fuel ∨ a ∈ t.ids ∧ 2 * t.ids.length ≤ fuel →
      (removeWithDependingUnits fuel a t).isSome := by
  induction fuel with
  | zero =>
    rintro t a (h | ⟨ha, h⟩)
    · omega
    · have := List.length_pos_of_mem ha
      omega
  | succ fuel ih =>
    intro t a h
    have hpart : ∀ t a t', removeWithDependingUnits fuel a t = some t' → PartOf t' t :=
      fun _ _ _ h => (removeWithDependingUnits_removed h).part
    have hsmall : ∀ {roots : List UnitId} {t' : UnitTable}, t'.ids.length < t.ids.length →
        (roots.foldlM (fun t id => removeWithDependingUnits fuel id t) t').isSome := by
      intro roots t' hlt
      refine foldlM_isSome (n := t.ids.length - 1) (fun t'' a' hle => ih (.inl ?_)) hpart roots ?_
      · omega
      · omega
    have hsingle := partOf_removeSingleUnit t a
    rw [removeWithDependingUnits]
    by_cases ha : a ∈ t.ids
    · exact hsmall (hsingle.length_lt ha fun hmem => (mem_ids_removeSingleUnit.mp hmem).2 rfl)
    · have hfuel : 2 * t.ids.length ≤ fuel := by
        have := h.resolve_right fun hmem => ha hmem.1
        omega
      cases href : referrers (removeSingleUnit t a) a with
      | nil => rfl
      | cons b rest =>
        have hb : b ∈ (removeSingleUnit t a).ids :=
          (mem_referrers.mp (href ▸ List.mem_cons_self)).1
        have hle := hsingle.length_le
        obtain ⟨t₁, h₁⟩ := Option.isSome_iff_exists.mp (ih (.inr ⟨hb, by omega⟩))
        have hless := (hpart _ _ _ h₁).length_lt hb
          ((removeWithDependingUnits_removed h₁).gone b List.mem_cons_self)
        rw [List.foldlM_cons, h₁]
        exact hsmall (hless.trans_le hle)

theorem foldlM_findAllDepending {fuel : ℕ} {ids : List UnitId} (l : List UnitId)
    (hl : ∀ x ∈ l, x ∈ ids) :
    l.foldlM (fun ids id => findAllDepending t (fuel + 1) id ids) ids = some ids := by
  induction l with
  | nil => rfl
  | cons a l ih =>
    rw [List.foldlM_cons, findAllDepending, if_pos (hl a List.mem_cons_self)]
    exact ih fun x hx => hl x (List.mem_cons_of_mem _ hx)

/-- The recursion of `find_all_depending` stops at once: the units it would visit are in the list
    already. So only the direct referrers are found. -/
theorem findAllDepending_eq (fuel : ℕ) (a : UnitId) :
    findAllDepending t (fuel + 2) a [] = some (referrers t a) := by
  rw [findAllDepending, if_neg List.not_mem_nil, List.nil_append]
  exact foldlM_findAllDepending _ fun _ hx => hx

/-! ## What is checked -/

/-- The unit and everything that requires it is loaded and stopped, and the requirements end. -/
inductive Passes (t : UnitTable) : UnitId → Prop
  | intro {id : UnitId} {unit : LoadedUnit} (hget : t.get id = some unit)
      (hstopped : unit.common.status.isStopped)
      (hreq : ∀ b ∈ unit.common.dependencies.requiredBy, Passes t b) : Passes t id

/-- The unit is loaded and stopped. -/
def Stopped (t : UnitTable) (id : UnitId) : Prop := (t.get id).any (·.common.status.isStopped)

instance (t : UnitTable) (id : UnitId) : Decidable (Stopped t id) :=
  inferInstanceAs (Decidable (_ = true))

theorem Passes.stopped {a : UnitId} (h : Passes t a) : Stopped t a := by
  obtain ⟨hget, hstopped, -⟩ := h
  rw [Stopped, hget]
  exact hstopped

theorem checkAll_ok_iff {check : UnitId → Option (Except String Unit)} {l : List UnitId} :
    checkAll check l = some (.ok ()) ↔ ∀ x ∈ l, check x = some (.ok ()) := by
  induction l with
  | nil => exact ⟨fun _ _ h => absurd h List.not_mem_nil, fun _ => rfl⟩
  | cons a l ih =>
    rw [checkAll, List.forall_mem_cons]
    constructor
    · intro h
      split at h
      · exact ⟨‹_›, ih.mp h⟩
      · exact absurd h ‹_›
    · rintro ⟨ha, hl⟩
      rw [ha]
      exact ih.mpr hl

theorem checkAll_mono {check check' : UnitId → Option (Except String Unit)} {l : List UnitId}
    (h : ∀ x r, check x = some r → check' x = some r) {r : Except String Unit}
    (hr : checkAll check l = some r) : checkAll check' l = some r := by
  induction l with
  | nil => exact hr
  | cons a l ih =>
    rw [checkAll] at hr ⊢
    cases ha : check a with
    | none =>
      rw [ha] at hr
      cases hr
    | some ra =>
      rw [ha] at hr
      rw [h a ra ha]
      cases ra with
      | ok => exact ih hr
      | error e => exact hr

theorem check_mono {fuel fuel' : ℕ} (hle : fuel ≤ fuel') :
    ∀ {a r}, checkDeactivatedRecursive t fuel a = some r →
      checkDeactivatedRecursive t fuel' a = some r := by
  induction fuel generalizing fuel' with
  | zero => exact fun h => by cases h
  | succ fuel ih =>
    intro a r h
    obtain ⟨fuel', rfl⟩ := Nat.exists_eq_add_of_le' (Nat.one_le_of_lt (Nat.succ_le_iff.mp hle))
    rw [checkDeactivatedRecursive] at h ⊢
    cases hget : t.get a with
    | none =>
      rw [hget] at h
      cases h
    | some unit =>
      rw [hget] at h
      dsimp only at h ⊢
      split_ifs at h ⊢ with hstopped
      · exact checkAll_mono (fun x r hx => ih (by omega) hx) h
      · exact h

theorem exists_fuel_forall {l : List UnitId}
    (h : ∀ x ∈ l, ∃ fuel, checkDeactivatedRecursive t fuel x = some (.ok ())) :
    ∃ fuel, ∀ x ∈ l, checkDeactivatedRecursive t fuel x = some (.ok ()) := by
  induction l with
  | nil => exact ⟨0, fun _ hx => absurd hx List.not_mem_nil⟩
  | cons a l ih =>
    obtain ⟨hhead, htail⟩ := List.forall_mem_cons.mp h
    obtain ⟨n, hn⟩ := hhead
    obtain ⟨m, hm⟩ := ih htail
    refine ⟨max n m, List.forall_mem_cons.mpr ⟨check_mono (le_max_left n m) hn, fun x hx => ?_⟩⟩
    exact check_mono (le_max_right n m) (hm x hx)

/-- A check succeeds, given enough levels, exactly for the units that pass. -/
theorem check_ok_iff {a : UnitId} :
    (∃ fuel, checkDeactivatedRecursive t fuel a = some (.ok ())) ↔ Passes t a := by
  constructor
  · rintro ⟨fuel, h⟩
    induction fuel generalizing a with
    | zero => cases h
    | succ fuel ih =>
      rw [checkDeactivatedRecursive] at h
      cases hget : t.get a with
      | none =>
        rw [hget] at h
        cases h
      | some unit =>
        rw [hget] at h
        dsimp only at h
        split_ifs at h with hstopped
        · exact .intro hget hstopped fun b hb => ih (checkAll_ok_iff.mp h b hb)
        · cases h
  · intro h
    induction h with
    | @intro id unit hget hstopped _ ih =>
      obtain ⟨fuel, hfuel⟩ := exists_fuel_forall ih
      refine ⟨fuel + 1, ?_⟩
      rw [checkDeactivatedRecursive, hget]
      dsimp only
      rw [if_pos hstopped]
      exact checkAll_ok_iff.mpr hfuel

/-! ## When only stopped units are removed -/

/-- What a removal can come to. -/
theorem removeUnitWithDependencies_cases {fuel : ℕ} {a : UnitId} {result : Except String Unit}
    {t' : UnitTable} (h : removeUnitWithDependencies fuel t a = some (result, t')) :
    (∃ e, result = .error e ∧ t' = t) ∨
      (result = .ok () ∧ checkDeactivatedRecursive t fuel a = some (.ok ()) ∧
        (∀ b ∈ referrers t a, checkDeactivatedRecursive t fuel b = some (.ok ())) ∧
        removeWithDependingUnits (2 * t.ids.length + 1) a t = some t') := by
  rw [removeUnitWithDependencies, findAllDepending_eq] at h
  split at h
  · cases h
  · cases h
    exact .inl ⟨_, rfl, rfl⟩
  · dsimp only at h
    split at h
    · cases h
    · cases h
      exact .inl ⟨_, rfl, rfl⟩
    · obtain ⟨t₁, hremove, heq⟩ := Option.map_eq_some_iff.mp h
      cases heq
      exact .inr ⟨rfl, ‹_›, checkAll_ok_iff.mp ‹_›, hremove⟩

/-- If the checks pass, the removal ends with the units gone that mention `a`. -/
theorem removeUnitWithDependencies_ok {a : UnitId} (h : Passes t a)
    (hrefs : ∀ b, Refers t a b → Passes t b) :
    ∃ fuel t', removeUnitWithDependencies fuel t a = some (.ok (), t') ∧
      ∀ x, x ∈ t'.ids ↔ x ∈ t.ids ∧ ¬ ReflTransGen (Refers t) a x := by
  obtain ⟨fuel, hfuel⟩ := exists_fuel_forall (l := a :: referrers t a) fun x hx => by
    rcases List.mem_cons.mp hx with rfl | hx
    · exact check_ok_iff.mpr h
    · exact check_ok_iff.mpr (hrefs x (mem_referrers.mp hx))
  obtain ⟨hcheck, hall⟩ := List.forall_mem_cons.mp hfuel
  obtain ⟨t', ht'⟩ := Option.isSome_iff_exists.mp
    (removeWithDependingUnits_isSome (t := t) (a := a) (.inl le_rfl))
  refine ⟨fuel, t', ?_, fun x => mem_ids_remove_iff ht'⟩
  rw [removeUnitWithDependencies, hcheck, findAllDepending_eq]
  dsimp only
  rw [checkAll_ok_iff.mpr hall, ht']
  rfl

/-- A removal that succeeds drops only stopped units, one that fails changes nothing. -/
def RemovalSafe (t : UnitTable) (a : UnitId) : Prop :=
  ∀ fuel result t', removeUnitWithDependencies fuel t a = some (result, t') →
    match result with
    | .ok () => ∀ x ∈ t.ids, x ∉ t'.ids → Stopped t x
    | .error _ => t' = t

/-- A removal is safe exactly when, if all that is checked passes, every unit that mentions a
    direct referrer, by itself or through others, is stopped too. -/
theorem removal_safe_iff {a : UnitId} :
    RemovalSafe t a ↔ (Passes t a → (∀ b, Refers t a b → Passes t b) →
      ∀ b x, Refers t a b → TransGen (Refers t) b x → Stopped t x) := by
  constructor
  · intro hsafe hpass hrefs b x hab hbx
    obtain ⟨fuel, t', hremove, hids⟩ := removeUnitWithDependencies_ok hpass hrefs
    have hx : x ∈ t.ids := by
      obtain ⟨y, -, hyx⟩ := TransGen.tail'_iff.mp hbx
      exact hyx.1
    refine hsafe fuel _ t' hremove x hx fun hmem => ?_
    exact ((hids x).mp hmem).2 (.head hab hbx.to_reflTransGen)
  · intro hcond fuel result t' h
    rcases removeUnitWithDependencies_cases h with ⟨e, rfl, rfl⟩ | ⟨rfl, hcheck, hall, hremove⟩
    · rfl
    · have hpass := check_ok_iff.mp ⟨fuel, hcheck⟩
      have hrefs : ∀ b, Refers t a b → Passes t b :=
        fun b hb => check_ok_iff.mp ⟨fuel, hall b (mem_referrers.mpr hb)⟩
      intro x hx hgone
      have hpath : ReflTransGen (Refers t) a x := by
        by_contra hnot
        exact hgone ((mem_ids_remove_iff hremove).mpr ⟨hx, hnot⟩)
      rcases ReflTransGen.cases_head hpath with rfl | ⟨b, hab, hbx⟩
      · exact hpass.stopped
      · rcases Relation.reflTransGen_iff_eq_or_transGen.mp hbx with rfl | hbx
        · exact (hrefs x hab).stopped
        · exact hcond hpass hrefs b x hab hbx

/-- `c.service` is ordered after `b.service`, and that after `a.service`; only `c.service` runs. -/
def orderedChain : UnitTable where
  units :=
    let service (name : String) (refs : List UnitId) (status : UnitStatus) : LoadedUnit :=
      { id := ⟨.service, name⟩
        common := {
          unit := { refsByName := refs }, dependencies := { after := refs }, status := status }
        specific := .service {} }
    [service "a.service" [] (.stopped .stoppedFinal),
      service "b.service" [⟨.service, "a.service"⟩] (.stopped .stoppedFinal),
      service "c.service" [⟨.service, "b.service"⟩] (.started .running)]
  nodup := by decide

/-- The removal of `a.service` checks `a.service` and `b.service` and removes all three. -/
theorem running_unit_removed : ¬ RemovalSafe orderedChain ⟨.service, "a.service"⟩ := by
  have h : (removeUnitWithDependencies 1 orderedChain ⟨.service, "a.service"⟩).map
      (fun r => (r.1.toOption, r.2.ids)) = some (some (), []) := by decide
  obtain ⟨⟨result, t'⟩, hremove, heq⟩ := Option.map_eq_some_iff.mp h
  obtain ⟨hresult, hids⟩ := Prod.mk.inj heq
  intro hsafe
  have hstopped := hsafe 1 result t' hremove
  cases result with
  | error e => cases hresult
  | ok =>
    have hc := hstopped ⟨.service, "c.service"⟩ (by decide) fun hmem => by
      change _ ∈ t'.ids at hmem
      rw [hids] at hmem
      exact absurd hmem List.not_mem_nil
    exact absurd hc (by decide)

end OxidizedSystemd.Units
