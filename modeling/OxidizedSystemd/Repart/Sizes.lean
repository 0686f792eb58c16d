import OxidizedSystemd.Repart.GrowClaims
import OxidizedSystemd.Repart.Matching

/-!
# First fit and the sizes it leads to

Each matched partition is assigned to an area in its turn, and the sizes settled in the
areas are handed out to their members.

* `assignment_getElem?`: the area of a partition, from the budgets at its turn.
* `distribute_rel`: what relates the members of every area to its sizes relates each
  partition to its own.
* `sizes_of_assigned`: a partition with an area gets a size between its bounds.
-/

namespace OxidizedSystemd.Repart

variable {defs : List PartitionDefinition} {sectorSize : ℕ} {areas : List FreeArea}
  {order : List ℕ}

/-! ## First fit -/

/-- The budgets when some partitions have had their turn. -/
def budgetAfter (defs : List PartitionDefinition) (sectorSize : ℕ) (areas : List FreeArea)
    (order : List ℕ) (budget : ℕ → ℕ) (ms : List MatchedPartition) : ℕ → ℕ :=
  ms.foldl (fun budget m => (assignOne defs sectorSize areas order budget m).2) budget

theorem assignLoop_getElem? (budget : ℕ → ℕ) (ms : List MatchedPartition) (k : ℕ) :
    (assignLoop defs sectorSize areas order budget ms)[k]? = (ms[k]?).map fun m =>
      (assignOne defs sectorSize areas order
        (budgetAfter defs sectorSize areas order budget (ms.take k)) m).1 := by
  induction ms generalizing budget k with
  | nil => simp [assignLoop]
  | cons m ms ih =>
    rw [assignLoop]
    cases k with
    | zero => rfl
    | succ k =>
      rw [List.getElem?_cons_succ, List.getElem?_cons_succ, ih, List.take_succ_cons, budgetAfter,
        budgetAfter, List.foldl_cons]

/-- The bytes that a new partition needs, with its padding. -/
def needed (d : PartitionDefinition) : ℕ :=
  saturatingAdd (max d.sizeMin minPartitionSize) d.paddingMin

/-- Only a partition with a request is assigned. -/
theorem assignOne_request {m : MatchedPartition} {budget : ℕ → ℕ}
    (h : (assignOne defs sectorSize areas order budget m).1 ≠ none) :
    (request defs sectorSize m).isSome := by
  cases hreq : request defs sectorSize m with
  | none =>
    rw [assignOne, hreq] at h
    exact absurd rfl h
  | some req => rfl

theorem assignLoop_request (defs : List PartitionDefinition) (sectorSize : ℕ) (budget : ℕ → ℕ)
    (ms : List MatchedPartition) :
    ∀ p ∈ ms.zip (assignLoop defs sectorSize areas order budget ms), p.2 ≠ none →
      (request defs sectorSize p.1).isSome := by
  induction ms generalizing budget with
  | nil => simp
  | cons m ms ih =>
    rw [assignLoop, List.zip_cons_cons]
    exact List.forall_mem_cons.mpr ⟨assignOne_request, ih _⟩

/-! ## Handing out the sizes -/

theorem members_cons_same {m : MatchedPartition} {req : SpaceRequest} {ms : List MatchedPartition}
    {as : List (Option ℕ)} {ai : ℕ} (h : request defs sectorSize m = some req) :
    members defs sectorSize (m :: ms) (some ai :: as) ai =
      (m, req) :: members defs sectorSize ms as ai := by
  rw [members, List.zip_cons_cons, List.filterMap_cons_some (b := (m, req)), members]
  rw [if_pos rfl, h]
  rfl

theorem members_cons_other {m : MatchedPartition} {ms : List MatchedPartition}
    {a : Option ℕ} {as : List (Option ℕ)} {ai : ℕ} (h : a ≠ some ai) :
    members defs sectorSize (m :: ms) (a :: as) ai = members defs sectorSize ms as ai := by
  rw [members, List.zip_cons_cons, List.filterMap_cons_none, members]
  rw [if_neg h]

/-- What relates the members of every area to its sizes relates each of them to its own. -/
theorem distribute_rel {R : MatchedPartition × SpaceRequest → ℕ × ℕ → Prop}
    {ms : List MatchedPartition} {as : List (Option ℕ)} {grown : ℕ → List (ℕ × ℕ)}
    (hreq : ∀ p ∈ ms.zip as, p.2 ≠ none → (request defs sectorSize p.1).isSome)
    (h : ∀ ai, List.Forall₂ R (members defs sectorSize ms as ai) (grown ai))
    {k ai : ℕ} {m : MatchedPartition} {req : SpaceRequest} (hm : ms[k]? = some m)
    (ha : as[k]? = some (some ai)) (hr : request defs sectorSize m = some req) :
    ∃ size, (distribute as grown)[k]? = some size ∧ R (m, req) size := by
  induction ms generalizing as grown k with
  | nil => simp at hm
  | cons m₀ ms ih =>
    cases as with
    | nil => simp at ha
    | cons a as =>
      rw [List.zip_cons_cons] at hreq
      obtain ⟨hreq₀, hreqs⟩ := List.forall_mem_cons.mp hreq
      cases a with
      | none =>
        have hrest : ∀ ai, List.Forall₂ R (members defs sectorSize ms as ai) (grown ai) :=
          fun ai => by
            have hai := h ai
            rwa [members_cons_other (by simp)] at hai
        cases k with
        | zero => simp at ha
        | succ k => exact ih hreqs hrest hm ha
      | some ai₀ =>
        obtain ⟨req₀, hr₀⟩ := Option.isSome_iff_exists.mp (hreq₀ (by simp))
        have hhead := h ai₀
        rw [members_cons_same hr₀] at hhead
        obtain ⟨size, rest, hsize, hrest, hgrown⟩ := List.forall₂_cons_left_iff.mp hhead
        rw [distribute, hgrown]
        cases k with
        | zero =>
          obtain rfl : m₀ = m := by simpa using hm
          obtain rfl : ai₀ = ai := by simpa using ha
          rw [hr] at hr₀
          rw [Option.some.inj hr₀]
          exact ⟨size, rfl, hsize⟩
        | succ k =>
          refine ih hreqs (fun ai' => ?_) hm ha
          by_cases hai : ai' = ai₀
          · rw [hai, Function.update_self]
            exact hrest
          · have hother := h ai'
            rw [members_cons_other (fun heq => hai (Option.some.inj heq).symm)] at hother
            rwa [Function.update_of_ne hai]

theorem pairs_rel {α β : Type*} {P : β → ℕ → Prop} {f g : α → β} {as : List α} {sizes : List ℕ}
    (h : List.Forall₂ P (as.flatMap fun a => [f a, g a]) sizes) :
    List.Forall₂ (fun a s => P (f a) s.1 ∧ P (g a) s.2) as (pairs sizes) := by
  induction as generalizing sizes with
  | nil =>
    rw [List.forall₂_nil_left_iff.mp h]
    exact List.Forall₂.nil
  | cons a as ih =>
    obtain ⟨s, rest, hs, hrest, rfl⟩ := List.forall₂_cons_left_iff.mp h
    obtain ⟨s', rest', hs', hrest', rfl⟩ := List.forall₂_cons_left_iff.mp hrest
    exact List.Forall₂.cons ⟨hs, hs'⟩ (ih hrest')

/-! ## The sizes of new partitions -/

variable {matched : List MatchedPartition} {k ai : ℕ} {m : MatchedPartition}

theorem grownIn_rel (areas : List FreeArea) (assigned : List (Option ℕ)) (ai : ℕ) :
    List.Forall₂ (fun p size => (sizeClaim defs sectorSize p).min ≤ size.1 ∧
        size.1 ≤ (sizeClaim defs sectorSize p).ceiling)
      (members defs sectorSize matched assigned ai)
      (grownIn defs sectorSize matched areas assigned ai) := by
  rw [grownIn]
  exact (pairs_rel (growClaims_bounds _ _ _)).imp fun _ _ h => h.1

theorem assignment_getElem? : (assignment defs sectorSize matched areas)[k]? =
    (matched[k]?).map fun m => (assignOne defs sectorSize areas
      (smallestFirst defs sectorSize matched areas)
      (budgetAfter defs sectorSize areas (smallestFirst defs sectorSize matched areas)
        (available defs sectorSize matched areas) (matched.take k)) m).1 :=
  assignLoop_getElem? _ _ _

/-- A new partition with an area gets a size between its bounds. -/
theorem sizes_of_assigned (hm : matched[k]? = some m) (hnew : m.isNew)
    (ha : (assignment defs sectorSize matched areas)[k]? = some (some ai)) :
    ∃ size, (sizes defs sectorSize matched areas (assignment defs sectorSize matched areas))[k]? =
        some size ∧
      max (definition defs m).sizeMin minPartitionSize ≤ size.1 ∧
      size.1 ≤ max (definition defs m).sizeMax
        (max (definition defs m).sizeMin minPartitionSize) := by
  obtain ⟨size, hsize, hmin, hmax⟩ := distribute_rel
    (assignLoop_request defs sectorSize _ matched)
    (grownIn_rel areas (assignment defs sectorSize matched areas)) hm ha
    (request_of_isNew hnew)
  refine ⟨size, hsize, ?_, ?_⟩
  · rwa [sizeClaim, if_pos hnew] at hmin
  · rwa [sizeClaim, if_pos hnew, SpanClaim.ceiling] at hmax

end OxidizedSystemd.Repart
