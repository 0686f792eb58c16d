import Mathlib.Data.List.MinMax
import OxidizedSystemd.Loading.DirectoryDeps

/-!
# Masked directory dependencies

The first pass applies what is left of the entries when the masks are resolved; the second pass
applies every entry.

* `lookup_bestDeps`: of each triple the first pass takes the first entry of lowest priority number.
* `get?_foldl_applyDirDep`: what a pass does to a unit.
* `masksKept_iff`: when masks are kept.
* `OrderFree.orderIrrelevant`: when the order of the entries does not matter.
-/

namespace OxidizedSystemd.Loading

open Lib OxidizedSystemd.Units

variable {ρ : Type*} {order order' : IterationOrder} {host : Host ρ} {t t' : Table ρ}
  {deps deps' : List DirectoryDependency} {dep : DirectoryDependency} {id name : String}

/-! ## Entries -/

/-- The entries of a triple. -/
def entriesFor (deps : List DirectoryDependency) (triple : Triple) : List DirectoryDependency :=
  deps.filter fun dep => dep.triple = triple

theorem lookup_bestDeps (deps : List DirectoryDependency) (triple : Triple) :
    (bestDeps deps).lookup triple =
      (entriesFor deps triple).argmin DirectoryDependency.priority := by
  induction deps using List.reverseRecOn with
  | nil => rfl
  | append_singleton deps dep ih =>
    have hentries : entriesFor (deps ++ [dep]) triple =
        entriesFor deps triple ++ if dep.triple = triple then [dep] else [] := by
      rw [entriesFor, List.filter_append, ← entriesFor]
      congr 1
      by_cases h : dep.triple = triple
      · simp [h]
      · simp [h]
    rw [hentries, bestDeps, List.foldl_append, List.foldl_cons, List.foldl_nil, ← bestDeps]
    by_cases htriple : dep.triple = triple
    · subst htriple
      rw [if_pos rfl, List.argmin_concat, ← ih]
      cases hlookup : (bestDeps deps).lookup dep.triple with
      | none => exact AList.lookup_insert _
      | some existing =>
        dsimp only
        by_cases hle : existing.priority ≤ dep.priority
        · rw [if_pos hle, if_neg (Nat.not_lt.mpr hle)]
          exact hlookup
        · rw [if_neg hle, if_pos (Nat.lt_of_not_le hle)]
          exact AList.lookup_insert _
    · rw [if_neg htriple, List.append_nil, ← ih]
      have hinsert : ((bestDeps deps).insert dep.triple dep).lookup triple =
          (bestDeps deps).lookup triple := AList.lookup_insert_ne (Ne.symm htriple)
      cases (bestDeps deps).lookup dep.triple with
      | none => exact hinsert
      | some existing =>
        dsimp only
        split
        · rfl
        · exact hinsert

theorem mem_resolveMaskedDirDeps : dep ∈ resolveMaskedDirDeps order deps ↔
    (entriesFor deps dep.triple).argmin DirectoryDependency.priority = some dep ∧
      dep.isMask = false := by
  rw [resolveMaskedDirDeps, List.mem_filter, (order.best_perm _).mem_iff, List.mem_map,
    Bool.not_eq_true']
  constructor
  · rintro ⟨⟨⟨triple, dep'⟩, hmem, rfl⟩, hmask⟩
    have hlookup := AList.mem_lookup_iff.mpr hmem
    rw [lookup_bestDeps] at hlookup
    have htriple := of_decide_eq_true (List.mem_filter.mp (List.argmin_mem hlookup)).2
    refine ⟨?_, hmask⟩
    dsimp only at htriple ⊢
    rw [htriple]
    exact hlookup
  · rintro ⟨hargmin, hmask⟩
    rw [← lookup_bestDeps] at hargmin
    exact ⟨⟨⟨dep.triple, dep⟩, AList.mem_lookup_iff.mp hargmin, rfl⟩, hmask⟩

/-- Among the entries of a triple, one of lowest priority number is no mask. -/
def Effective (deps : List DirectoryDependency) (triple : Triple) : Prop :=
  ∃ dep ∈ deps, dep.triple = triple ∧ dep.isMask = false ∧
    ∀ other ∈ deps, other.triple = triple → dep.priority ≤ other.priority

theorem effective_of_mem (h : dep ∈ resolveMaskedDirDeps order deps) :
    Effective deps dep.triple := by
  obtain ⟨hargmin, hmask⟩ := mem_resolveMaskedDirDeps.mp h
  refine ⟨dep, (List.mem_filter.mp (List.argmin_mem hargmin)).1, rfl, hmask, ?_⟩
  intro other hother htriple
  exact List.le_of_mem_argmin (List.mem_filter.mpr ⟨hother, decide_eq_true htriple⟩) hargmin

/-! ## A pass -/

theorem findUnit_spec {v : View} (h : findUnit order v name = some id) :
    id ∈ v.keys ∧ IsNameOf v name id := by
  refine ⟨(order.units_perm v).mem_iff.mp (List.mem_of_find?_eq_some h), ?_⟩
  simpa using List.find?_some h

theorem findUnit_isSome {v : View} (hkey : id ∈ v.keys) (h : IsNameOf v name id) :
    ∃ found, findUnit order v name = some found := by
  apply Option.isSome_iff_exists.mp
  rw [findUnit, List.find?_isSome]
  exact ⟨id, (order.units_perm v).mem_iff.mpr hkey, decide_eq_true h⟩

/-- An entry applies to a unit: it is the parent, and the child is loaded. -/
def Applies (order : IterationOrder) (t : Table ρ) (dep : DirectoryDependency) (id : String) :
    Prop :=
  findUnit order (view t) dep.parentUnit = some id ∧ isUnitName dep.childUnit ∧
    (t.get? dep.childUnit).isSome

instance (dep : DirectoryDependency) (id : String) : Decidable (Applies order t dep id) :=
  inferInstanceAs (Decidable (_ ∧ _ ∧ _))

theorem get?_applyDirDep (order : IterationOrder) (t : Table ρ) (dep : DirectoryDependency)
    (id : String) : (applyDirDep order t dep).get? id =
      (t.get? id).map fun u => if Applies order t dep id then addDirDep dep u else u := by
  unfold applyDirDep
  split
  · rename_i parent hparent
    by_cases hchild : isUnitName dep.childUnit ∧ (t.get? dep.childUnit).isSome
    · rw [if_pos hchild, SortedMap.get?_modify]
      by_cases hid : id = parent
      · have happlies : Applies order t dep id := ⟨hid ▸ hparent, hchild⟩
        simp [hid ▸ happlies, hid]
      · have happlies : ¬ Applies order t dep id :=
          fun h => hid (Option.some.inj (h.1.symm.trans hparent))
        simp [happlies, hid]
    · have happlies : ¬ Applies order t dep id := fun h => hchild h.2
      rw [if_neg hchild]
      simp [happlies]
  · rename_i hparent
    have happlies : ¬ Applies order t dep id := by
      intro h
      rw [h.1] at hparent
      cases hparent
    simp [happlies]

@[simp] theorem aliases_addDirDep (dep : DirectoryDependency) (u : TableUnit ρ) :
    (addDirDep dep u).aliases = u.aliases := by
  unfold addDirDep
  cases dep.depKind <;> rfl

@[simp] theorem rest_addDirDep (dep : DirectoryDependency) (u : TableUnit ρ) :
    (addDirDep dep u).rest = u.rest := by
  unfold addDirDep
  cases dep.depKind <;> rfl

theorem mem_pushName {names : List String} {name x : String} :
    x ∈ pushName names name ↔ x ∈ names ∨ x = name := by
  unfold pushName
  split
  · rename_i hmem
    constructor
    · exact Or.inl
    · rintro (h | rfl)
      · exact h
      · exact hmem
  · simp

theorem mem_refsByName_addDirDep {u : TableUnit ρ} {x : String} :
    x ∈ (addDirDep dep u).refsByName ↔ x ∈ u.refsByName ∨ x = dep.childUnit := by
  unfold addDirDep
  cases dep.depKind <;> exact mem_pushName

theorem mem_list_addDirDep {u : TableUnit ρ} {kind : DepDirKind} {child : String} :
    child ∈ (addDirDep dep u).list kind ↔
      child ∈ u.list kind ∨ dep.depKind = kind ∧ dep.childUnit = child := by
  have hpush : ∀ names : List String, child ∈ pushName names dep.childUnit ↔
      child ∈ names ∨ dep.childUnit = child := by
    intro names
    rw [mem_pushName, eq_comm]
  unfold addDirDep
  cases hkind : dep.depKind <;> cases kind <;> simp [TableUnit.list, hpush]

/-- A pass leaves the names of the units as they are. -/
theorem view_applyDirDep (order : IterationOrder) (t : Table ρ) (dep : DirectoryDependency) :
    view (applyDirDep order t dep) = view t := by
  apply SortedMap.ext_get?
  intro id
  rw [view, view, SortedMap.get?_mapValues, SortedMap.get?_mapValues, get?_applyDirDep,
    Option.map_map]
  congr 1
  funext u
  dsimp only [Function.comp_apply]
  split
  · exact aliases_addDirDep dep u
  · rfl

theorem applies_applyDirDep (other : DirectoryDependency) :
    Applies order (applyDirDep order t dep) other id ↔ Applies order t other id := by
  unfold Applies
  rw [view_applyDirDep, get?_applyDirDep, Option.isSome_map]

/-- What a pass does to a unit. -/
theorem get?_foldl_applyDirDep (order : IterationOrder) (t : Table ρ)
    (deps : List DirectoryDependency) (id : String) :
    (deps.foldl (applyDirDep order) t).get? id = (t.get? id).map fun u =>
      (deps.filter fun dep => Applies order t dep id).foldl (fun u dep => addDirDep dep u) u := by
  induction deps generalizing t with
  | nil => simp
  | cons dep deps ih =>
    rw [List.foldl_cons, ih, get?_applyDirDep, Option.map_map]
    congr 1
    funext u
    dsimp only [Function.comp_apply]
    simp only [applies_applyDirDep, List.filter_cons]
    by_cases h : Applies order t dep id
    · simp [h]
    · simp [h]

theorem mem_list_foldl_addDirDep {u : TableUnit ρ} {kind : DepDirKind} {child : String} :
    child ∈ (deps.foldl (fun u dep => addDirDep dep u) u).list kind ↔
      child ∈ u.list kind ∨ ∃ dep ∈ deps, dep.depKind = kind ∧ dep.childUnit = child := by
  induction deps generalizing u with
  | nil => simp
  | cons dep deps ih =>
    rw [List.foldl_cons, ih, mem_list_addDirDep]
    simp [or_assoc]

/-- The dependencies of a unit behind a pass. -/
theorem mem_list_pass {u u' : TableUnit ρ} {kind : DepDirKind} {child : String}
    (hu : t.get? id = some u) (hu' : (deps.foldl (applyDirDep order) t).get? id = some u') :
    child ∈ u'.list kind ↔ child ∈ u.list kind ∨
      ∃ dep ∈ deps, Applies order t dep id ∧ dep.depKind = kind ∧ dep.childUnit = child := by
  rw [get?_foldl_applyDirDep, hu, Option.map_some] at hu'
  rw [← Option.some.inj hu', mem_list_foldl_addDirDep]
  simp [and_assoc]

/-! ## Masks -/

/-- From one table to another, a unit gains a dependency only if an entry of lowest priority number
    for it, under a name of the unit, is no mask. -/
def GainsEffective (order : IterationOrder) (deps : List DirectoryDependency) (t t' : Table ρ) :
    Prop :=
  ∀ id u u' kind child, t.get? id = some u → t'.get? id = some u' → child ∈ u'.list kind →
    child ∉ u.list kind → ∃ parent, findUnit order (view t) parent = some id ∧
      Effective deps (parent, child, kind)

/-- The table behind the first pass. -/
abbrev firstPass (order : IterationOrder) (t : Table ρ) (deps : List DirectoryDependency) :
    Table ρ :=
  applyDirectoryDependencies order t deps

/-- Masks are kept in both passes. -/
structure MasksKept (order : IterationOrder) (host : Host ρ) (t : Table ρ)
    (deps : List DirectoryDependency) : Prop where
  first : GainsEffective order deps t (firstPass order t deps)
  second : GainsEffective order deps (instantiated order host (firstPass order t deps) deps)
    (instantiateTemplateUnits order host (firstPass order t deps) deps)

theorem gainsEffective_firstPass (order : IterationOrder) (t : Table ρ)
    (deps : List DirectoryDependency) : GainsEffective order deps t (firstPass order t deps) := by
  intro id u u' kind child hu hu' hmem hnot
  obtain ⟨dep, hdep, happlies, rfl, rfl⟩ := ((mem_list_pass hu hu').mp hmem).resolve_left hnot
  exact ⟨dep.parentUnit, happlies.1, effective_of_mem hdep⟩

/-- The second pass finds no parent and child for a masked entry, but where the unit has the
    dependency or another entry for it is effective. -/
def MaskedIdle (order : IterationOrder) (t : Table ρ) (deps : List DirectoryDependency) : Prop :=
  ∀ dep ∈ deps, ¬ Effective deps dep.triple → ∀ id u, t.get? id = some u → Applies order t dep id →
    dep.childUnit ∈ u.list dep.depKind ∨ ∃ parent, findUnit order (view t) parent = some id ∧
      Effective deps (parent, dep.childUnit, dep.depKind)

theorem gainsEffective_iff : GainsEffective order deps t (deps.foldl (applyDirDep order) t) ↔
    MaskedIdle order t deps := by
  constructor
  · intro h dep hdep _ id u hu happlies
    apply or_iff_not_imp_left.mpr
    intro hnot
    have hu' := get?_foldl_applyDirDep order t deps id
    rw [hu, Option.map_some] at hu'
    exact h id u _ dep.depKind dep.childUnit hu hu'
      ((mem_list_pass hu hu').mpr (Or.inr ⟨dep, hdep, happlies, rfl, rfl⟩)) hnot
  · intro h id u u' kind child hu hu' hmem hnot
    obtain ⟨dep, hdep, happlies, rfl, rfl⟩ := ((mem_list_pass hu hu').mp hmem).resolve_left hnot
    by_cases heffective : Effective deps dep.triple
    · exact ⟨dep.parentUnit, happlies.1, heffective⟩
    · exact (h dep hdep heffective id u hu happlies).resolve_left hnot

/-! ## The order of the entries -/

theorem head?_filter_argmin {α : Type*} {f : α → ℕ} {l : List α} {a : α}
    (h : l.argmin f = some a) : (l.filter fun b => f b = f a).head? = some a := by
  induction l with
  | nil => cases h
  | cons b l ih =>
    rw [List.argmin_cons] at h
    cases htail : l.argmin f with
    | none =>
      rw [htail] at h
      obtain rfl : b = a := Option.some.inj h
      simp
    | some c =>
      rw [htail] at h
      dsimp only at h
      split at h
      · rename_i hlt
        obtain rfl : c = a := Option.some.inj h
        have hne : f b ≠ f c := by omega
        rw [List.filter_cons_of_neg (by simpa using hne)]
        exact ih htail
      · obtain rfl : b = a := Option.some.inj h
        simp

/-- Entries in another order, where those of one priority keep theirs. -/
def SameWithinPriorities (deps deps' : List DirectoryDependency) : Prop :=
  ∀ priority, (deps.filter fun dep => dep.priority = priority) =
    deps'.filter fun dep => dep.priority = priority

theorem SameWithinPriorities.mem_iff (h : SameWithinPriorities deps deps') :
    dep ∈ deps ↔ dep ∈ deps' := by
  have hdep := congrArg (dep ∈ ·) (h dep.priority)
  simpa using hdep

theorem SameWithinPriorities.symm (h : SameWithinPriorities deps deps') :
    SameWithinPriorities deps' deps := fun priority => (h priority).symm

theorem SameWithinPriorities.argmin_eq (h : SameWithinPriorities deps deps') {triple : Triple}
    (hdep : (entriesFor deps triple).argmin DirectoryDependency.priority = some dep) :
    (entriesFor deps' triple).argmin DirectoryDependency.priority = some dep := by
  have hmem : ∀ other, other ∈ entriesFor deps triple ↔ other ∈ entriesFor deps' triple := by
    intro other
    rw [entriesFor, entriesFor, List.mem_filter, List.mem_filter, h.mem_iff]
  cases hdep' : (entriesFor deps' triple).argmin DirectoryDependency.priority with
  | none =>
    have hnil := List.argmin_eq_none.mp hdep'
    have := (hmem dep).mp (List.argmin_mem hdep)
    rw [hnil] at this
    exact absurd this List.not_mem_nil
  | some dep' =>
    have hle := List.le_of_mem_argmin ((hmem dep').mpr (List.argmin_mem hdep')) hdep
    have hge := List.le_of_mem_argmin ((hmem dep).mp (List.argmin_mem hdep)) hdep'
    have hhead := head?_filter_argmin hdep
    have hhead' := head?_filter_argmin hdep'
    rw [← Nat.le_antisymm hle hge] at hhead'
    have hfilter : (entriesFor deps triple).filter (fun other => other.priority = dep.priority) =
        (entriesFor deps' triple).filter fun other => other.priority = dep.priority := by
      rw [entriesFor, entriesFor, List.filter_comm, h dep.priority, List.filter_comm]
    rw [hfilter, hhead'] at hhead
    exact hhead

theorem SameWithinPriorities.mem_resolve (h : SameWithinPriorities deps deps') :
    dep ∈ resolveMaskedDirDeps order deps ↔ dep ∈ resolveMaskedDirDeps order' deps' := by
  rw [mem_resolveMaskedDirDeps, mem_resolveMaskedDirDeps]
  exact ⟨fun hdep => ⟨h.argmin_eq hdep.1, hdep.2⟩, fun hdep => ⟨h.symm.argmin_eq hdep.1, hdep.2⟩⟩

/-! ## Tables that are the same -/

/-- Units that have the same elements in their lists. -/
structure SameUnit (u u' : TableUnit ρ) : Prop where
  aliases : ∀ name, name ∈ u.aliases ↔ name ∈ u'.aliases
  list : ∀ kind child, child ∈ u.list kind ↔ child ∈ u'.list kind
  refsByName : ∀ child, child ∈ u.refsByName ↔ child ∈ u'.refsByName
  rest : u.rest = u'.rest

def SameTable (t t' : Table ρ) : Prop := ∀ id, Option.Rel SameUnit (t.get? id) (t'.get? id)

theorem SameUnit.refl (u : TableUnit ρ) : SameUnit u u :=
  ⟨fun _ => Iff.rfl, fun _ _ => Iff.rfl, fun _ => Iff.rfl, rfl⟩

theorem SameTable.refl (t : Table ρ) : SameTable t t := by
  intro id
  cases t.get? id with
  | none => exact Option.Rel.none
  | some u => exact Option.Rel.some (SameUnit.refl u)

theorem SameTable.get?_cases (h : SameTable t t') (id : String) :
    (t.get? id = none ∧ t'.get? id = none) ∨
      ∃ u u', t.get? id = some u ∧ t'.get? id = some u' ∧ SameUnit u u' := by
  have hid := h id
  generalize t.get? id = o at hid ⊢
  generalize t'.get? id = o' at hid ⊢
  cases hid with
  | none => exact Or.inl ⟨rfl, rfl⟩
  | some hsame => exact Or.inr ⟨_, _, rfl, rfl, hsame⟩

theorem SameTable.isSome_eq (h : SameTable t t') (id : String) :
    (t.get? id).isSome = (t'.get? id).isSome := by
  rcases h.get?_cases id with ⟨hu, hu'⟩ | ⟨u, u', hu, hu', -⟩
  · rw [hu, hu']
  · rw [hu, hu']
    rfl

theorem SameTable.mem_keys_view (h : SameTable t t') :
    id ∈ (view t).keys ↔ id ∈ (view t').keys := by
  rw [SortedMap.mem_keys, SortedMap.mem_keys, ← Option.isSome_iff_exists,
    ← Option.isSome_iff_exists, view, view, SortedMap.get?_mapValues, SortedMap.get?_mapValues,
    Option.isSome_map, Option.isSome_map, h.isSome_eq]

theorem SameTable.isNameOf_iff (h : SameTable t t') :
    IsNameOf (view t) name id ↔ IsNameOf (view t') name id := by
  unfold IsNameOf
  rw [view, view, SortedMap.get?_mapValues, SortedMap.get?_mapValues]
  apply or_congr_right
  rcases h.get?_cases id with ⟨hu, hu'⟩ | ⟨u, u', hu, hu', hsame⟩
  · rw [hu, hu']
  · rw [hu, hu']
    exact hsame.aliases name

/-- No name of a parent is the name of two units. -/
def Unambiguous (t : Table ρ) (deps : List DirectoryDependency) : Prop :=
  ∀ dep ∈ deps, ∀ id ∈ (view t).keys, ∀ id' ∈ (view t).keys, IsNameOf (view t) dep.parentUnit id →
    IsNameOf (view t) dep.parentUnit id' → id = id'

theorem findUnit_congr (h : SameTable t t') (hone : Unambiguous t deps) (hdep : dep ∈ deps) :
    findUnit order (view t) dep.parentUnit = findUnit order' (view t') dep.parentUnit := by
  cases hfind : findUnit order (view t) dep.parentUnit with
  | none =>
    cases hfind' : findUnit order' (view t') dep.parentUnit with
    | none => rfl
    | some id' =>
      obtain ⟨hkey, hname⟩ := findUnit_spec hfind'
      obtain ⟨found, hfound⟩ : ∃ found, findUnit order (view t) dep.parentUnit = some found :=
        findUnit_isSome (h.mem_keys_view.mpr hkey) (h.isNameOf_iff.mpr hname)
      rw [hfind] at hfound
      cases hfound
  | some id =>
    obtain ⟨hkey, hname⟩ := findUnit_spec hfind
    obtain ⟨id', hfind'⟩ : ∃ id', findUnit order' (view t') dep.parentUnit = some id' :=
      findUnit_isSome (h.mem_keys_view.mp hkey) (h.isNameOf_iff.mp hname)
    obtain ⟨hkey', hname'⟩ := findUnit_spec hfind'
    rw [hfind', hone dep hdep id hkey id' (h.mem_keys_view.mpr hkey') hname
      (h.isNameOf_iff.mpr hname')]

theorem applies_congr (h : SameTable t t') (hone : Unambiguous t deps) (hdep : dep ∈ deps) :
    Applies order t dep id ↔ Applies order' t' dep id := by
  unfold Applies
  rw [findUnit_congr h hone hdep, h.isSome_eq]

@[simp] theorem aliases_foldl_addDirDep (u : TableUnit ρ) :
    (deps.foldl (fun u dep => addDirDep dep u) u).aliases = u.aliases := by
  induction deps generalizing u with
  | nil => rfl
  | cons dep deps ih => rw [List.foldl_cons, ih, aliases_addDirDep]

@[simp] theorem rest_foldl_addDirDep (u : TableUnit ρ) :
    (deps.foldl (fun u dep => addDirDep dep u) u).rest = u.rest := by
  induction deps generalizing u with
  | nil => rfl
  | cons dep deps ih => rw [List.foldl_cons, ih, rest_addDirDep]

theorem mem_refsByName_foldl_addDirDep {u : TableUnit ρ} {child : String} :
    child ∈ (deps.foldl (fun u dep => addDirDep dep u) u).refsByName ↔
      child ∈ u.refsByName ∨ ∃ dep ∈ deps, dep.childUnit = child := by
  induction deps generalizing u with
  | nil => simp
  | cons dep deps ih =>
    rw [List.foldl_cons, ih, mem_refsByName_addDirDep]
    simp [or_assoc, eq_comm]

/-- A pass over the same entries leaves the same table. -/
theorem SameTable.pass (h : SameTable t t') (hone : Unambiguous t deps)
    {passed passed' : List DirectoryDependency} (hpassed : ∀ dep, dep ∈ passed ↔ dep ∈ passed')
    (hsub : ∀ dep ∈ passed, dep ∈ deps) :
    SameTable (passed.foldl (applyDirDep order) t) (passed'.foldl (applyDirDep order') t') := by
  intro id
  have hfilter : ∀ dep, dep ∈ passed.filter (fun dep => Applies order t dep id) ↔
      dep ∈ passed'.filter fun dep => Applies order' t' dep id := by
    intro dep
    rw [List.mem_filter, List.mem_filter, decide_eq_true_iff, decide_eq_true_iff, ← hpassed]
    constructor
    · rintro ⟨hmem, happlies⟩
      exact ⟨hmem, (applies_congr h hone (hsub dep hmem)).mp happlies⟩
    · rintro ⟨hmem, happlies⟩
      exact ⟨hmem, (applies_congr h hone (hsub dep hmem)).mpr happlies⟩
  rw [get?_foldl_applyDirDep, get?_foldl_applyDirDep]
  generalize passed.filter (fun dep => Applies order t dep id) = applied at hfilter
  generalize passed'.filter (fun dep => Applies order' t' dep id) = applied' at hfilter
  rcases h.get?_cases id with ⟨hu, hu'⟩ | ⟨u, u', hu, hu', hsame⟩
  · rw [hu, hu']
    exact Option.Rel.none
  · rw [hu, hu']
    apply Option.Rel.some
    constructor
    · intro name
      rw [aliases_foldl_addDirDep, aliases_foldl_addDirDep, hsame.aliases]
    · intro kind child
      rw [mem_list_foldl_addDirDep, mem_list_foldl_addDirDep, hsame.list]
      simp only [hfilter]
    · intro child
      rw [mem_refsByName_foldl_addDirDep, mem_refsByName_foldl_addDirDep, hsame.refsByName]
      simp only [hfilter]
    · rw [rest_foldl_addDirDep, rest_foldl_addDirDep, hsame.rest]

/-! ## Instances -/

/-- An instance that is not loaded and has no unresolved specifier. -/
def Missing (host : Host ρ) (t : Table ρ) (name : String) : Prop :=
  isUnitName name ∧ (t.get? name).isSome = false ∧ (templateInstance name).isSome ∧
    isUnresolved host name = false

/-- The entry leads to its child. -/
def ReachesParent (host : Host ρ) (t : Table ρ) (dep : DirectoryDependency) : Prop :=
  isUnitName dep.childUnit ∧ (t.get? dep.childUnit).isSome = false ∧
    isUnresolved host dep.childUnit = false

/-- What an entry adds to the instances. -/
def AddedBy (host : Host ρ) (t : Table ρ) (dep : DirectoryDependency) (name : String) : Prop :=
  (name = dep.childUnit ∧ Missing host t name) ∨
    (name = dep.parentUnit ∧ ReachesParent host t dep ∧ Missing host t name)

/-- Instances are different names without unresolved specifiers. -/
structure Collected (host : Host ρ) (instances : List String) : Prop where
  nodup : instances.Nodup
  resolved : ∀ name ∈ instances, isUnresolved host name = false

theorem isUnresolved_of_none (h : (templateInstance name).isSome = false) :
    isUnresolved host name = false := by
  unfold isUnresolved
  rw [Option.isSome_eq_false_iff, Option.isNone_iff_eq_none] at h
  rw [h]

theorem Collected.push {instances : List String} (h : Collected host instances)
    (hnot : name ∉ instances) (hresolved : isUnresolved host name = false) :
    Collected host (instances ++ [name]) := by
  refine ⟨List.nodup_append.mpr ⟨h.nodup, List.pairwise_singleton _ _, ?_⟩, ?_⟩
  · rintro a ha b hb rfl
    rw [List.mem_singleton.mp hb] at ha
    exact hnot ha
  · intro other hother
    rcases List.mem_append.mp hother with hother | hother
    · exact h.resolved other hother
    · rw [List.mem_singleton.mp hother]
      exact hresolved

/-- The parent is added, where the entry leads to it. -/
theorem mem_push_parent {instances : List String} (h : Collected host instances) (t : Table ρ)
    (parent : String) :
    let pushed := if ¬ isUnitName parent ∨ (t.get? parent).isSome then instances
      else if (templateInstance parent).isSome ∧ parent ∉ instances ∧
          ¬ isUnresolved host parent then
        instances ++ [parent]
      else instances
    Collected host pushed ∧ ∀ name, name ∈ pushed ↔
      name ∈ instances ∨ name = parent ∧ Missing host t name := by
  intro pushed
  by_cases hmissing : Missing host t parent
  · obtain ⟨hname, hloaded, hinstance, hresolved⟩ := hmissing
    by_cases hmem : parent ∈ instances
    · have hpushed : pushed = instances := by simp [pushed, hname, hloaded, hmem]
      rw [hpushed]
      refine ⟨h, fun name => ⟨Or.inl, ?_⟩⟩
      rintro (hname | ⟨rfl, -⟩)
      · exact hname
      · exact hmem
    · have hpushed : pushed = instances ++ [parent] := by
        simp [pushed, hname, hloaded, hinstance, hresolved, hmem]
      rw [hpushed]
      refine ⟨h.push hmem hresolved, fun name => ?_⟩
      rw [List.mem_append, List.mem_singleton]
      apply or_congr_right
      constructor
      · rintro rfl
        exact ⟨rfl, hname, hloaded, hinstance, hresolved⟩
      · exact And.left
  · have hpushed : pushed = instances := by
      unfold Missing at hmissing
      simp only [pushed]
      split
      · rfl
      · rename_i hfound
        split
        · rename_i hnew
          simp only [not_or, Bool.not_eq_true, Bool.not_eq_false] at hfound hnew
          exact absurd ⟨hfound.1, hfound.2, hnew.1, hnew.2.2⟩ hmissing
        · rfl
    rw [hpushed]
    refine ⟨h, fun name => ⟨Or.inl, ?_⟩⟩
    rintro (hname | ⟨rfl, hname⟩)
    · exact hname
    · exact absurd hname hmissing

theorem mem_collectFromDep {instances : List String} (h : Collected host instances)
    (dep : DirectoryDependency) : Collected host (collectFromDep host t instances dep) ∧
      ∀ name, name ∈ collectFromDep host t instances dep ↔
        name ∈ instances ∨ AddedBy host t dep name := by
  unfold collectFromDep AddedBy ReachesParent
  by_cases hchild : ¬ isUnitName dep.childUnit ∨ (t.get? dep.childUnit).isSome
  · rw [if_pos hchild]
    refine ⟨h, fun name => ⟨Or.inl, ?_⟩⟩
    rintro (hname | ⟨rfl, hname, hloaded, -⟩ | ⟨-, ⟨hname, hloaded, -⟩, -⟩)
    · exact hname
    · simp [hname, hloaded] at hchild
    · simp [hname, hloaded] at hchild
  · rw [if_neg hchild]
    simp only [not_or, Bool.not_eq_true, Bool.not_eq_false] at hchild
    dsimp only
    by_cases hunresolved : isUnresolved host dep.childUnit
    · have hinstance : (templateInstance dep.childUnit).isSome := by
        cases hsome : (templateInstance dep.childUnit).isSome with
        | true => rfl
        | false =>
          rw [isUnresolved_of_none hsome] at hunresolved
          cases hunresolved
      have hnot : dep.childUnit ∉ instances := by
        intro hmem
        rw [h.resolved _ hmem] at hunresolved
        cases hunresolved
      rw [if_pos ⟨⟨hinstance, hnot⟩, hunresolved⟩]
      refine ⟨h, fun name => ⟨Or.inl, ?_⟩⟩
      rintro (hname | ⟨rfl, -, -, -, hresolved⟩ | ⟨-, ⟨-, -, hresolved⟩, -⟩)
      · exact hname
      · rw [hresolved] at hunresolved
        cases hunresolved
      · rw [hresolved] at hunresolved
        cases hunresolved
    · rw [if_neg fun hnew => hunresolved hnew.2]
      rw [Bool.not_eq_true] at hunresolved
      have hpushed : ∃ pushed, (if (templateInstance dep.childUnit).isSome ∧
          dep.childUnit ∉ instances then instances ++ [dep.childUnit] else instances) = pushed ∧
          Collected host pushed ∧ ∀ name, name ∈ pushed ↔
            name ∈ instances ∨ name = dep.childUnit ∧ Missing host t name := by
        have hpush := mem_push_parent h t dep.childUnit
        simp only [hchild.1, hchild.2, hunresolved, not_true_eq_false, Bool.false_eq_true,
          or_self, if_false, not_false_eq_true, and_true] at hpush
        exact ⟨_, rfl, hpush⟩
      obtain ⟨pushed, heq, hcollected, hmem⟩ := hpushed
      rw [heq]
      have hpush := mem_push_parent hcollected t dep.parentUnit
      refine ⟨hpush.1, fun name => ?_⟩
      rw [hpush.2, hmem, or_assoc]
      simp [hchild.1, hchild.2, hunresolved]

/-- A loop collects what its steps add. -/
theorem mem_foldl_collect {β : Type*} {step : List String → β → List String}
    {added : β → String → Prop}
    (hstep : ∀ instances b, Collected host instances → Collected host (step instances b) ∧
      ∀ name, name ∈ step instances b ↔ name ∈ instances ∨ added b name)
    (bs : List β) {instances : List String} (h : Collected host instances) :
    Collected host (bs.foldl step instances) ∧
      ∀ name, name ∈ bs.foldl step instances ↔ name ∈ instances ∨ ∃ b ∈ bs, added b name := by
  induction bs generalizing instances with
  | nil => simp [h]
  | cons b bs ih =>
    obtain ⟨hcollected, hmem⟩ := hstep instances b h
    refine ⟨(ih hcollected).1, fun name => ?_⟩
    rw [List.foldl_cons, (ih hcollected).2, hmem]
    simp [or_assoc]

theorem mem_instancesToCreate (order : IterationOrder) (host : Host ρ) (t : Table ρ)
    (deps : List DirectoryDependency) : (instancesToCreate order host t deps).Nodup ∧
      ∀ name, name ∈ instancesToCreate order host t deps ↔
        (∃ dep ∈ deps, AddedBy host t dep name) ∨
          ∃ ref ∈ existingRefs order t, name = ref ∧ Missing host t name := by
  have hnil : Collected host [] := ⟨List.nodup_nil, by simp⟩
  obtain ⟨hdeps, hmem⟩ := mem_foldl_collect
    (fun _ dep h => mem_collectFromDep (t := t) h dep) deps hnil
  obtain ⟨hrefs, hmem'⟩ := mem_foldl_collect
    (fun _ ref h => mem_push_parent h t ref) (existingRefs order t) hdeps
  refine ⟨hrefs.nodup, fun name => ?_⟩
  rw [instancesToCreate]
  refine (hmem' name).trans ?_
  rw [hmem]
  simp

theorem mem_existingRefs : name ∈ existingRefs order t ↔
    ∃ id u, t.get? id = some u ∧ (name ∈ u.list .wants ∨ name ∈ u.list .requires) := by
  rw [existingRefs, List.mem_flatMap]
  apply exists_congr
  intro id
  rw [(order.units_perm _).mem_iff, SortedMap.mem_keys, view, SortedMap.get?_mapValues]
  cases t.get? id with
  | none => simp
  | some u => simp [TableUnit.list]

theorem SameTable.symm (h : SameTable t t') : SameTable t' t := by
  intro id
  rcases h.get?_cases id with ⟨hu, hu'⟩ | ⟨u, u', hu, hu', hsame⟩
  · rw [hu, hu']
    exact Option.Rel.none
  · rw [hu, hu']
    exact Option.Rel.some ⟨fun name => (hsame.aliases name).symm,
      fun kind child => (hsame.list kind child).symm, fun child => (hsame.refsByName child).symm,
      hsame.rest.symm⟩

theorem SameTable.missing_iff (h : SameTable t t') :
    Missing host t name ↔ Missing host t' name := by
  unfold Missing
  rw [h.isSome_eq]

theorem SameTable.addedBy_iff (h : SameTable t t') :
    AddedBy host t dep name ↔ AddedBy host t' dep name := by
  unfold AddedBy ReachesParent
  rw [h.missing_iff, h.isSome_eq]

theorem SameTable.mem_existingRefs (h : SameTable t t') (href : name ∈ existingRefs order t) :
    name ∈ existingRefs order' t' := by
  obtain ⟨id, u, hu, hname⟩ := Loading.mem_existingRefs.mp href
  rcases h.get?_cases id with ⟨hnone, -⟩ | ⟨v, u', hv, hu', hsame⟩
  · rw [hnone] at hu
    cases hu
  · obtain rfl : v = u := Option.some.inj (hv.symm.trans hu)
    rw [hsame.list, hsame.list] at hname
    exact Loading.mem_existingRefs.mpr ⟨id, u', hu', hname⟩

/-- The same instances are made, in some order. -/
theorem SameTable.instancesToCreate_perm (h : SameTable t t')
    (hdeps : ∀ dep, dep ∈ deps ↔ dep ∈ deps') :
    (instancesToCreate order host t deps).Perm (instancesToCreate order' host t' deps') := by
  obtain ⟨hnodup, hmem⟩ := mem_instancesToCreate order host t deps
  obtain ⟨hnodup', hmem'⟩ := mem_instancesToCreate order' host t' deps'
  rw [List.perm_ext_iff_of_nodup hnodup hnodup']
  intro name
  rw [hmem, hmem', h.missing_iff]
  apply or_congr
  · apply exists_congr
    intro dep
    rw [hdeps, h.addedBy_iff]
  · apply exists_congr
    intro ref
    rw [and_congr_left_iff]
    exact fun _ => ⟨h.mem_existingRefs, h.symm.mem_existingRefs⟩

/-- The unit of an instance, from the one that has its name. -/
def instanceUnit (host : Host ρ) (template inst effective : String) (linkName : Option String)
    (existing : Option (TableUnit ρ)) : Option (TableUnit ρ) :=
  let fresh := (host.instantiateTemplate template inst effective).map
    (withAliases host template effective linkName)
  match linkName, existing with
  | some linkName, some existing =>
    if linkName ∈ existing.aliases then fresh.or (some existing)
    else some { existing with aliases := existing.aliases ++ [linkName] }
  | _, existing => fresh.or existing

theorem get?_instantiateOne {template inst effective : String} {linkName : Option String}
    (h : effectiveInstance host name = some (template, inst, effective, linkName)) (t : Table ρ)
    (id : String) : (instantiateOne host t name).get? id =
      if id = effective then instanceUnit host template inst effective linkName
        (if linkName = some effective then none else t.get? effective)
      else if linkName = some id then none else t.get? id := by
  unfold instantiateOne instanceUnit
  rw [h]
  cases linkName with
  | none =>
    cases hmade : host.instantiateTemplate template inst effective with
    | none => simp +contextual [hmade]
    | some u => simp [hmade, SortedMap.get?_insert]
  | some linkName =>
    have herase : ∀ id, (t.erase linkName).get? id =
        if linkName = id then none else t.get? id := by
      intro id
      simp [SortedMap.get?_erase, eq_comm]
    simp only [herase, Option.some.injEq]
    cases hexisting : (if linkName = effective then none else t.get? effective) with
    | none =>
      cases host.instantiateTemplate template inst effective with
      | none =>
        by_cases hid : id = effective
        · simp [hid, herase, hexisting]
        · simp [hid, herase]
      | some u => simp [SortedMap.get?_insert, herase]
    | some existing =>
      by_cases halias : linkName ∈ existing.aliases
      · cases host.instantiateTemplate template inst effective with
        | none =>
          by_cases hid : id = effective
          · simp [hid, herase, hexisting, halias]
          · simp [hid, herase, halias]
        | some u => simp [SortedMap.get?_insert, herase, halias]
      · simp [SortedMap.get?_insert, herase, halias]

/-- The names that an instance takes or removes. -/
def touched (host : Host ρ) (name : String) : List String :=
  match effectiveInstance host name with
  | some (_, _, effective, linkName) => effective :: linkName.toList
  | none => []

theorem touched_of_some {template inst effective : String} {linkName : Option String}
    (h : effectiveInstance host name = some (template, inst, effective, linkName)) :
    touched host name = effective :: linkName.toList := by
  rw [touched, h]

/-- Another unit is left as it is. -/
theorem get?_instantiateOne_of_not_mem (h : id ∉ touched host name) :
    (instantiateOne host t name).get? id = t.get? id := by
  cases heffective : effectiveInstance host name with
  | none =>
    unfold instantiateOne
    rw [heffective]
  | some e =>
    obtain ⟨template, inst, effective, linkName⟩ := e
    rw [touched_of_some heffective, List.mem_cons, not_or, Option.mem_toList] at h
    rw [get?_instantiateOne heffective, if_neg h.1, if_neg h.2]

/-- What an instance makes depends on what it touches. -/
theorem get?_instantiateOne_congr (h : ∀ x ∈ touched host name, t.get? x = t'.get? x)
    (hid : id ∈ touched host name) :
    (instantiateOne host t name).get? id = (instantiateOne host t' name).get? id := by
  cases heffective : effectiveInstance host name with
  | none =>
    unfold touched at hid
    rw [heffective] at hid
    exact absurd hid List.not_mem_nil
  | some e =>
    obtain ⟨template, inst, effective, linkName⟩ := e
    rw [touched_of_some heffective] at h
    rw [get?_instantiateOne heffective, get?_instantiateOne heffective,
      h effective List.mem_cons_self, h id (touched_of_some heffective ▸ hid)]

/-- Instances that touch different names are made in any order. -/
theorem instantiateOne_comm {name' : String}
    (h : ∀ x ∈ touched host name, x ∉ touched host name') (t : Table ρ) :
    instantiateOne host (instantiateOne host t name) name' =
      instantiateOne host (instantiateOne host t name') name := by
  apply SortedMap.ext_get?
  intro id
  by_cases hid : id ∈ touched host name
  · rw [get?_instantiateOne_of_not_mem (h id hid)]
    apply get?_instantiateOne_congr _ hid
    intro x hx
    exact (get?_instantiateOne_of_not_mem (h x hx)).symm
  · rw [get?_instantiateOne_of_not_mem hid]
    by_cases hid' : id ∈ touched host name'
    · apply get?_instantiateOne_congr _ hid'
      intro x hx
      exact get?_instantiateOne_of_not_mem fun hmem => h x hmem hx
    · rw [get?_instantiateOne_of_not_mem hid', get?_instantiateOne_of_not_mem hid',
        get?_instantiateOne_of_not_mem hid]

theorem instanceUnit_congr {template inst effective : String} {linkName : Option String}
    {existing existing' : Option (TableUnit ρ)} (h : Option.Rel SameUnit existing existing') :
    Option.Rel SameUnit (instanceUnit host template inst effective linkName existing)
      (instanceUnit host template inst effective linkName existing') := by
  have hor : ∀ {o o' : Option (TableUnit ρ)} (fresh : Option (TableUnit ρ)),
      Option.Rel SameUnit o o' → Option.Rel SameUnit (fresh.or o) (fresh.or o') := by
    intro o o' fresh hrel
    cases fresh with
    | none => exact hrel
    | some u => exact Option.Rel.some (SameUnit.refl u)
  cases h with
  | none =>
    cases linkName with
    | none => exact hor _ Option.Rel.none
    | some linkName => exact hor _ Option.Rel.none
  | @some u u' hsame =>
    cases linkName with
    | none => exact hor _ (Option.Rel.some hsame)
    | some linkName =>
      unfold instanceUnit
      dsimp only
      by_cases halias : linkName ∈ u.aliases
      · rw [if_pos halias, if_pos ((hsame.aliases linkName).mp halias)]
        exact hor _ (Option.Rel.some hsame)
      · rw [if_neg halias, if_neg fun hmem => halias ((hsame.aliases linkName).mpr hmem)]
        apply Option.Rel.some
        constructor
        · intro name
          rw [List.mem_append, List.mem_append, hsame.aliases]
        · exact fun kind => hsame.list kind
        · exact hsame.refsByName
        · exact hsame.rest

theorem SameTable.instantiateOne (h : SameTable t t') (name : String) :
    SameTable (instantiateOne host t name) (instantiateOne host t' name) := by
  intro id
  cases heffective : effectiveInstance host name with
  | none =>
    unfold Loading.instantiateOne
    rw [heffective]
    exact h id
  | some e =>
    obtain ⟨template, inst, effective, linkName⟩ := e
    rw [get?_instantiateOne heffective, get?_instantiateOne heffective]
    split
    · apply instanceUnit_congr
      split
      · exact Option.Rel.none
      · exact h effective
    · split
      · exact Option.Rel.none
      · exact h id

theorem SameTable.foldl_instantiateOne (h : SameTable t t') (names : List String) :
    SameTable (names.foldl (Loading.instantiateOne host) t)
      (names.foldl (Loading.instantiateOne host) t') := by
  induction names generalizing t t' with
  | nil => exact h
  | cons name names ih => exact ih (h.instantiateOne name)

/-! ## The result -/

/-- No two instances touch one name. -/
def NonInterfering (host : Host ρ) (instances : List String) : Prop :=
  ∀ name ∈ instances, ∀ name' ∈ instances, name ≠ name' →
    ∀ x ∈ touched host name, x ∉ touched host name'

theorem foldl_instantiateOne_perm {instances instances' : List String}
    (hperm : instances.Perm instances') (h : NonInterfering host instances) (t : Table ρ) :
    instances.foldl (instantiateOne host) t = instances'.foldl (instantiateOne host) t := by
  apply hperm.foldl_eq'
  intro name hname name' hname' z
  by_cases heq : name = name'
  · rw [heq]
  · exact instantiateOne_comm (h name hname name' hname' heq) z

/-- Names stand for one unit in both passes, and instances for different units. -/
structure OrderFree (order : IterationOrder) (host : Host ρ) (t : Table ρ)
    (deps : List DirectoryDependency) : Prop where
  first : Unambiguous t deps
  instances : NonInterfering host (instancesToCreate order host (firstPass order t deps) deps)
  second : Unambiguous (instantiated order host (firstPass order t deps) deps) deps

/-- The order of entries with different priorities does not matter, nor that of the hash maps. -/
def OrderIrrelevant (order : IterationOrder) (host : Host ρ) (t : Table ρ)
    (deps : List DirectoryDependency) : Prop :=
  ∀ order' deps', SameWithinPriorities deps deps' →
    SameTable (instantiateTemplateUnits order host (firstPass order t deps) deps)
      (instantiateTemplateUnits order' host (firstPass order' t deps') deps')

theorem OrderFree.orderIrrelevant (h : OrderFree order host t deps) :
    OrderIrrelevant order host t deps := by
  intro order' deps' hdeps
  have hmem : ∀ dep, dep ∈ deps ↔ dep ∈ deps' := fun dep => hdeps.mem_iff
  have hfirst : SameTable (firstPass order t deps) (firstPass order' t deps') := by
    apply (SameTable.refl t).pass h.first
    · exact fun dep => hdeps.mem_resolve
    · intro dep hdep
      have hargmin := (mem_resolveMaskedDirDeps.mp hdep).1
      exact (List.mem_filter.mp (List.argmin_mem hargmin)).1
  have hinstances : SameTable (instantiated order host (firstPass order t deps) deps)
      (instantiated order' host (firstPass order' t deps') deps') := by
    unfold instantiated
    have hperm : (instancesToCreate order host (firstPass order t deps) deps).Perm
        (instancesToCreate order' host (firstPass order' t deps') deps') :=
      hfirst.instancesToCreate_perm hmem
    rw [foldl_instantiateOne_perm hperm h.instances]
    exact hfirst.foldl_instantiateOne _
  exact hinstances.pass h.second hmem fun dep hdep => hdep

/-- The second pass keeps masks exactly where masked entries find nothing to do. The order does not
    matter where names are not ambiguous. -/
theorem masksKept_iff (order : IterationOrder) (host : Host ρ) (t : Table ρ)
    (deps : List DirectoryDependency) :
    (MasksKept order host t deps ↔
      MaskedIdle order (instantiated order host (firstPass order t deps) deps) deps) ∧
    (OrderFree order host t deps → OrderIrrelevant order host t deps) := by
  constructor
  · rw [← gainsEffective_iff]
    exact ⟨MasksKept.second, fun h => ⟨gainsEffective_firstPass order t deps, h⟩⟩
  · exact OrderFree.orderIrrelevant

/-- An order by names. -/
def byName : IterationOrder where
  units := SortedMap.keys
  units_perm := fun _ => List.Perm.refl _
  best := fun deps => deps
  best_perm := fun _ => List.Perm.refl _

/-- A masked entry, and nothing else, has the second pass add a dependency. -/
theorem masked_dep_applied :
    let host : Host Unit := ⟨fun _ => false, fun _ => [], fun _ _ _ => none, fun _ _ => []⟩
    let plain : TableUnit Unit := ⟨[], [], [], [], [], ()⟩
    let t := (SortedMap.empty.insert "a.target" plain).insert "b.service" plain
    ¬ MasksKept byName host t [⟨"a.target", "b.service", .wants, 0, true⟩] := by
  intro host plain t h
  obtain ⟨parent, -, dep, hdep, -, hmask, -⟩ := h.second "a.target" plain
    { plain with wants := ["b.service"], refsByName := ["b.service"] } .wants "b.service"
    (by decide) (by decide) (by decide) (by decide)
  rw [List.mem_singleton.mp hdep] at hmask
  cases hmask

end OxidizedSystemd.Loading
