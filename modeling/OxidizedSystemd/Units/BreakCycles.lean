import OxidizedSystemd.Units.SanityCheck

/-!
# Breaking ordering cycles

Model of `break_dependency_cycles` in `unitset_manipulation/sanity_check.rs`:
in every round one edge of each reported circle is removed from both of its
ends, until the check reports none.

* `BreaksTo`: removals of edges each of which lies on a cycle when it goes.
* `breakCircles_breaksTo`: the removals of a round are of this kind, as the
  circles are disjoint.
* `break_dependency_cycles_acyclic`: the rounds end below their limit with an
  acyclic table that differs in ordering edges only.
-/

namespace OxidizedSystemd.Units

open OxidizedSystemd.Lib
open Relation (TransGen ReflTransGen)

variable {t t' : UnitTable}

/-! ## The rounds -/

/-- `before.retain(|id| id != to_id)`. -/
def dropBefore (toId : UnitId) (d : Dependencies) : Dependencies :=
  { d with before := d.before.filter (· ≠ toId) }

/-- `after.retain(|id| id != from_id)`. -/
def dropAfter (fromId : UnitId) (d : Dependencies) : Dependencies :=
  { d with after := d.after.filter (· ≠ fromId) }

/-- The edge is removed at both of its ends (lines 48–62). -/
def removeEdge (t : UnitTable) (fromId toId : UnitId) : UnitTable :=
  (t.modifyDeps fromId (dropBefore toId)).modifyDeps toId (dropAfter fromId)

/-- What is done about one circle (lines 42–72). -/
def breakCircle (t : UnitTable) : List UnitId → UnitTable
  | [] => t
  | [selfId] => t.modifyDeps selfId fun d => dropAfter selfId (dropBefore selfId d)
  | first :: rest => removeEdge t ((first :: rest).getLast (List.cons_ne_nil _ _)) first

/-- The table with the cycles that were broken, and whether the limit was exceeded. -/
structure BreakResult where
  table : UnitTable
  brokenCycles : List (List UnitId)
  exhausted : Bool

/-- The loop of `break_dependency_cycles` with `left` iterations to go (lines 23–84). The order of
    the hash set is that of the round. -/
def breakLoop (ords : ℕ → IterOrder) : ℕ → ℕ → UnitTable → List (List UnitId) →
    Option BreakResult
  | 0, _, t, broken => some ⟨t, broken, true⟩
  | left + 1, round, t, broken =>
    match sanityCheckDependencies t (ords round) with
    | none => none
    | some [] => some ⟨t, broken, false⟩
    | some circles =>
      breakLoop ords left (round + 1) (circles.foldl breakCircle t) (broken ++ circles)

/-- `break_dependency_cycles` (lines 14–86). -/
def breakDependencyCycles (ords : ℕ → IterOrder) (t : UnitTable) : Option BreakResult :=
  breakLoop ords (t.ids.length * t.ids.length + 1) 0 t []

/-! ## Removing one edge -/

theorem mem_before_removeEdge {a b x y : UnitId} :
    y ∈ ((removeEdge t a b).deps x).before ↔ y ∈ (t.deps x).before ∧ ¬ (x = a ∧ y = b) := by
  have hsnd : ((removeEdge t a b).deps x).before =
      ((t.modifyDeps a (dropBefore b)).deps x).before := by
    rw [removeEdge, UnitTable.deps_modifyDeps]
    split_ifs <;> rfl
  rw [hsnd, UnitTable.deps_modifyDeps]
  split_ifs with hx
  · obtain ⟨rfl, -⟩ := hx
    simp [dropBefore]
  · refine ⟨fun hy => ⟨hy, fun h => hx ⟨h.1, ?_⟩⟩, And.left⟩
    exact UnitTable.mem_ids_of_mem_deps (k := .before) hy

theorem mem_after_removeEdge {a b x y : UnitId} :
    y ∈ ((removeEdge t a b).deps x).after ↔ y ∈ (t.deps x).after ∧ ¬ (x = b ∧ y = a) := by
  have hfst : ((t.modifyDeps a (dropBefore b)).deps x).after = (t.deps x).after := by
    rw [UnitTable.deps_modifyDeps]
    split_ifs <;> rfl
  rw [removeEdge, UnitTable.deps_modifyDeps, UnitTable.ids_modifyDeps]
  split_ifs with hx
  · obtain ⟨rfl, -⟩ := hx
    simp [dropAfter, hfst]
  · rw [hfst]
    refine ⟨fun hy => ⟨hy, fun h => hx ⟨h.1, ?_⟩⟩, And.left⟩
    exact UnitTable.mem_ids_of_mem_deps (k := .after) hy

@[simp] theorem ids_removeEdge (t : UnitTable) (a b : UnitId) : (removeEdge t a b).ids = t.ids := by
  rw [removeEdge, UnitTable.ids_modifyDeps, UnitTable.ids_modifyDeps]

theorem before_removeEdge {a b x y : UnitId} :
    Before (removeEdge t a b) x y ↔ Before t x y ∧ ¬ (x = a ∧ y = b) := by
  rw [Before, Before, ids_removeEdge, mem_before_removeEdge, and_assoc, and_assoc]

/-- A unit without its ordering lists. -/
def LoadedUnit.eraseOrdering (u : LoadedUnit) : LoadedUnit :=
  u.mapDeps fun d => { d with before := [], after := [] }

/-- The units of a table without their ordering lists. -/
def withoutOrdering (t : UnitTable) : List LoadedUnit := t.units.map LoadedUnit.eraseOrdering

/-- A change of the ordering lists does not show without them. -/
theorem withoutOrdering_modifyDeps {id : UnitId} {f : Dependencies → Dependencies}
    (hf : ∀ d : Dependencies, { f d with before := [], after := [] } =
      { d with before := [], after := [] }) :
    withoutOrdering (t.modifyDeps id f) = withoutOrdering t := by
  rw [withoutOrdering, withoutOrdering, UnitTable.modifyDeps, UnitTable.modify, UnitTable.mapUnits,
    List.map_map]
  refine List.map_congr_left fun u _ => ?_
  simp only [Function.comp_apply]
  split_ifs
  · simp [LoadedUnit.eraseOrdering, LoadedUnit.mapDeps, hf]
  · rfl

theorem withoutOrdering_removeEdge (t : UnitTable) (a b : UnitId) :
    withoutOrdering (removeEdge t a b) = withoutOrdering t := by
  rw [removeEdge, withoutOrdering_modifyDeps (f := dropAfter a) fun _ => rfl,
    withoutOrdering_modifyDeps (f := dropBefore b) fun _ => rfl]

/-- The circle is broken at the edge from its last unit to its first, also if they are one. -/
theorem breakCircle_eq {circle : List UnitId} (h : circle ≠ []) :
    breakCircle t circle = removeEdge t (circle.getLast h) (circle.head h) := by
  match circle with
  | [id] => exact (UnitTable.modifyDeps_modifyDeps t id _ _).symm
  | first :: second :: rest => rfl

/-! ## What the rounds remove -/

/-- `t'` is `t` after removals of edges, each of which was on a cycle at that point. -/
inductive BreaksTo : UnitTable → UnitTable → Prop
  | refl (t : UnitTable) : BreaksTo t t
  | remove {t t' : UnitTable} (a b : UnitId) (hedge : Before t a b)
      (hback : ReflTransGen (Before t) b a) (hrest : BreaksTo (removeEdge t a b) t') :
      BreaksTo t t'

theorem BreaksTo.trans {t₁ t₂ t₃ : UnitTable} (h : BreaksTo t₁ t₂) (h' : BreaksTo t₂ t₃) :
    BreaksTo t₁ t₃ := by
  induction h with
  | refl => exact h'
  | remove a b hedge hback _ ih => exact .remove a b hedge hback (ih h')

theorem breaksTo_of_circle {circle : List UnitId} (h : Circle (Before t) circle)
    (hrest : BreaksTo (breakCircle t circle) t') : BreaksTo t t' := by
  rw [breakCircle_eq h.ne_nil] at hrest
  exact .remove _ _ h.closes.1 h.closes.2 hrest

/-- Breaking a circle leaves a disjoint one as it is. -/
theorem circle_breakCircle {circle other : List UnitId} (h : Circle (Before t) circle)
    (hother : Circle (Before t) other) (hdisj : List.Disjoint circle other) :
    Circle (Before (breakCircle t circle)) other := by
  rw [breakCircle_eq h.ne_nil]
  refine hother.imp fun a ha b _ hab => before_removeEdge.mpr ⟨hab, fun heq => ?_⟩
  exact hdisj (List.getLast_mem h.ne_nil) (heq.1 ▸ ha)

/-- The removals of one round. -/
theorem breakCircles_breaksTo (circles : List (List UnitId)) :
    ∀ t : UnitTable, (∀ c ∈ circles, Circle (Before t) c) → circles.Pairwise List.Disjoint →
      BreaksTo t (circles.foldl breakCircle t) := by
  induction circles with
  | nil => exact fun t _ _ => .refl t
  | cons circle circles ih =>
    intro t hcircles hdisj
    have hhead := hcircles circle List.mem_cons_self
    obtain ⟨hnew, hdisj⟩ := List.pairwise_cons.mp hdisj
    refine breaksTo_of_circle hhead (ih _ (fun c hc => ?_) hdisj)
    exact circle_breakCircle hhead (hcircles c (List.mem_cons_of_mem _ hc)) (hnew c hc)

/-- The ordering lists of loaded units are converse to each other. -/
def Converse (t : UnitTable) : Prop :=
  ∀ a ∈ t.ids, ∀ b ∈ t.ids, b ∈ (t.deps a).before ↔ a ∈ (t.deps b).after

instance (t : UnitTable) : Decidable (Converse t) :=
  inferInstanceAs (Decidable (∀ a ∈ t.ids, ∀ b ∈ t.ids, _))

theorem Converse.removeEdge (h : Converse t) (a b : UnitId) : Converse (removeEdge t a b) := by
  intro x hx y hy
  rw [ids_removeEdge] at hx hy
  rw [mem_before_removeEdge, mem_after_removeEdge, h x hx y hy, and_comm (a := x = a)]

theorem BreaksTo.converse (h : BreaksTo t t') (ht : Converse t) : Converse t' := by
  induction h with
  | refl => exact ht
  | remove a b _ _ _ ih => exact ih (ht.removeEdge a b)

theorem BreaksTo.withoutOrdering_eq (h : BreaksTo t t') :
    withoutOrdering t' = withoutOrdering t := by
  induction h with
  | refl => rfl
  | remove a b _ _ _ ih => rw [ih, withoutOrdering_removeEdge]

/-- An acyclic table has no edge that could be removed. -/
theorem BreaksTo.eq_of_acyclic (h : BreaksTo t t') (ht : Acyclic (Before t)) : t' = t := by
  cases h with
  | refl => rfl
  | remove a b hedge hback => exact absurd (TransGen.head' hedge hback) (ht a)

/-! ## The number of rounds -/

/-- The ordering edges between loaded units. -/
def orderingEdges (t : UnitTable) : Finset (UnitId × UnitId) :=
  (t.ids.toFinset ×ˢ t.ids.toFinset).filter fun e => e.2 ∈ (t.deps e.1).before

theorem mem_orderingEdges {a b : UnitId} : (a, b) ∈ orderingEdges t ↔ Before t a b := by
  rw [orderingEdges, Finset.mem_filter, Finset.mem_product, List.mem_toFinset, List.mem_toFinset,
    and_assoc]
  rfl

theorem orderingEdges_removeEdge (t : UnitTable) (a b : UnitId) :
    orderingEdges (removeEdge t a b) = (orderingEdges t).erase (a, b) := by
  ext ⟨x, y⟩
  rw [mem_orderingEdges, before_removeEdge, Finset.mem_erase, mem_orderingEdges, and_comm, ne_eq,
    Prod.mk.injEq]

theorem card_orderingEdges_le (t : UnitTable) :
    (orderingEdges t).card ≤ t.ids.length * t.ids.length := by
  refine (Finset.card_filter_le _ _).trans ?_
  rw [Finset.card_product]
  exact Nat.mul_le_mul (List.toFinset_card_le _) (List.toFinset_card_le _)

theorem BreaksTo.card_le (h : BreaksTo t t') :
    (orderingEdges t').card ≤ (orderingEdges t).card := by
  induction h with
  | refl => exact le_rfl
  | remove a b _ _ _ ih =>
    rw [orderingEdges_removeEdge] at ih
    exact ih.trans (Finset.card_le_card (Finset.erase_subset _ _))

/-- A round that breaks a circle leaves fewer edges. -/
theorem card_breakCircles_lt {circle : List UnitId} {circles : List (List UnitId)}
    (hcircles : ∀ c ∈ circle :: circles, Circle (Before t) c)
    (hdisj : (circle :: circles).Pairwise List.Disjoint) :
    (orderingEdges ((circle :: circles).foldl breakCircle t)).card < (orderingEdges t).card := by
  have hhead := hcircles circle List.mem_cons_self
  obtain ⟨hnew, hdisj⟩ := List.pairwise_cons.mp hdisj
  have hrest := breakCircles_breaksTo circles (breakCircle t circle) (fun c hc =>
    circle_breakCircle hhead (hcircles c (List.mem_cons_of_mem _ hc)) (hnew c hc)) hdisj
  refine hrest.card_le.trans_lt ?_
  rw [breakCircle_eq hhead.ne_nil, orderingEdges_removeEdge]
  exact Finset.card_erase_lt_of_mem (mem_orderingEdges.mpr hhead.closes.1)

/-- More rounds than edges are enough. -/
theorem breakLoop_spec (ords : ℕ → IterOrder) {left : ℕ} :
    ∀ (round : ℕ) (t : UnitTable) (broken : List (List UnitId)), (orderingEdges t).card < left →
      ∃ r, breakLoop ords left round t broken = some r ∧ r.exhausted = false ∧
        BreaksTo t r.table ∧ Acyclic (Before r.table) := by
  induction left with
  | zero => exact fun _ _ _ h => absurd h (Nat.not_lt_zero _)
  | succ left ih =>
    intro round t broken hleft
    obtain ⟨circles, hcheck, hreported⟩ := sanityCheck_spec t (ords round)
    rw [breakLoop, hcheck]
    cases circles with
    | nil => exact ⟨_, rfl, rfl, .refl t, hreported.acyclic rfl⟩
    | cons circle circles =>
      have hless := card_breakCircles_lt hreported.isCircle hreported.disjoint
      obtain ⟨r, hr, hexhausted, hbreaks, hacyclic⟩ :=
        ih (round + 1) _ (broken ++ (circle :: circles))
          (hless.trans_le (Nat.le_of_lt_succ hleft))
      have hround := breakCircles_breaksTo _ t hreported.isCircle hreported.disjoint
      exact ⟨r, hr, hexhausted, hround.trans hbreaks, hacyclic⟩

/-- `break_dependency_cycles` ends below its limit with an acyclic table. Every edge it removes was
    on a cycle and goes at both ends, the ordering lists stay converse, and nothing else changes. -/
theorem break_dependency_cycles_acyclic (ords : ℕ → IterOrder) (hconv : Converse t) :
    ∃ r, breakDependencyCycles ords t = some r ∧ r.exhausted = false ∧
      Acyclic (Before r.table) ∧ BreaksTo t r.table ∧ Converse r.table ∧
      withoutOrdering r.table = withoutOrdering t ∧
      (Acyclic (Before t) → r.table = t) := by
  obtain ⟨r, hr, hexhausted, hbreaks, hacyclic⟩ :=
    breakLoop_spec ords 0 t [] (Nat.lt_succ_of_le (card_orderingEdges_le t))
  exact ⟨r, hr, hexhausted, hacyclic, hbreaks, hbreaks.converse hconv, hbreaks.withoutOrdering_eq,
    hbreaks.eq_of_acyclic⟩

/-- `b.target` is on a cycle with `a.target` and on one with `c.target`. -/
def sharedCycles : UnitTable where
  units :=
    let target (name : String) (deps : Dependencies) : LoadedUnit :=
      { id := ⟨.target, name⟩, common := { dependencies := deps }, specific := .target }
    let a : UnitId := ⟨.target, "a.target"⟩
    let b : UnitId := ⟨.target, "b.target"⟩
    let c : UnitId := ⟨.target, "c.target"⟩
    [target "a.target" { before := [b], after := [b] },
      target "b.target" { before := [a, c], after := [a, c] },
      target "c.target" { before := [b], after := [b] }]
  nodup := by decide

theorem break_dependency_cycles_sharedCycles :
    ∃ r, breakDependencyCycles (fun _ => ⟨id, .refl⟩) sharedCycles = some r ∧
      r.exhausted = false ∧ Acyclic (Before r.table) := by
  obtain ⟨r, hr, hexhausted, hacyclic, -⟩ :=
    break_dependency_cycles_acyclic (t := sharedCycles) (fun _ => ⟨id, .refl⟩) (by decide)
  exact ⟨r, hr, hexhausted, hacyclic⟩

end OxidizedSystemd.Units
