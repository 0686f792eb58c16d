import OxidizedSystemd.Lib.CallTree
import OxidizedSystemd.Units.Remove

/-!
# Whether the check before a removal ends

`check_deactivated_recursive` (`unitset_manipulation/remove.rs`, lines 32–52)
follows `required_by` from stopped unit to stopped unit, and stops at the first
unit that does not run out well. It does not remember where it has been, and
takes every id for one of a loaded unit.

* `check_returns_iff`: exactly when it returns.
* `mutual_requirement_loops`: two units that require each other.
-/

namespace OxidizedSystemd.Units

open OxidizedSystemd.Lib
open Relation (TransGen ReflTransGen)

variable {t : UnitTable} {x y : UnitId} {fuel : ℕ}

/-- The check of `x` goes on with `y`: `x` is stopped, and what is before `y` in its `required_by`
    passes. -/
def ChecksNext (t : UnitTable) (x y : UnitId) : Prop :=
  Stopped t x ∧ ∃ pre post, (t.deps x).requiredBy = pre ++ y :: post ∧ ∀ z ∈ pre, Passes t z

theorem Stopped.mem_ids (h : Stopped t x) : x ∈ t.ids := by
  rw [Stopped] at h
  cases hget : t.get x with
  | none =>
    rw [hget] at h
    cases h
  | some unit => exact UnitTable.mem_ids_of_get hget

theorem ChecksNext.mem_requiredBy (h : ChecksNext t x y) : y ∈ (t.deps x).requiredBy := by
  obtain ⟨-, pre, post, heq, -⟩ := h
  rw [heq]
  exact List.mem_append_right _ List.mem_cons_self

theorem finite_checksNext (t : UnitTable) (x : UnitId) : {y | ChecksNext t x y}.Finite :=
  (List.finite_toSet (t.deps x).requiredBy).subset fun _ h => h.mem_requiredBy

/-- A check of a unit that passes does not fail. -/
theorem check_eq_ok (hpass : Passes t x) (h : (checkDeactivatedRecursive t fuel x).isSome) :
    checkDeactivatedRecursive t fuel x = some (.ok ()) := by
  obtain ⟨result, hresult⟩ := Option.isSome_iff_exists.mp h
  obtain ⟨fuel', hok⟩ := check_ok_iff.mpr hpass
  have hmax := check_mono (le_max_left fuel fuel') hresult
  rw [check_mono (le_max_right fuel fuel') hok] at hmax
  rw [hresult, hmax]

/-- The loop over `required_by` returns exactly if the checks that it comes to return. -/
theorem checkAll_isSome_iff {l : List UnitId} :
    (checkAll (checkDeactivatedRecursive t fuel) l).isSome ↔
      ∀ y, (∃ pre post, l = pre ++ y :: post ∧ ∀ z ∈ pre, Passes t z) →
        (checkDeactivatedRecursive t fuel y).isSome := by
  induction l with
  | nil =>
    refine iff_of_true rfl ?_
    rintro y ⟨pre, post, heq, -⟩
    exact absurd heq.symm (List.append_ne_nil_of_right_ne_nil _ (List.cons_ne_nil _ _))
  | cons a l ih =>
    rw [checkAll]
    constructor
    · rintro h y ⟨pre, post, heq, hpre⟩
      have ha : (checkDeactivatedRecursive t fuel a).isSome := by
        cases hcheck : checkDeactivatedRecursive t fuel a with
        | none =>
          rw [hcheck] at h
          cases h
        | some result => rfl
      cases pre with
      | nil =>
        rw [List.nil_append, List.cons.injEq] at heq
        exact heq.1 ▸ ha
      | cons z pre =>
        rw [List.cons_append, List.cons.injEq] at heq
        obtain ⟨rfl, rfl⟩ := heq
        obtain ⟨hz, hpre⟩ := List.forall_mem_cons.mp hpre
        rw [check_eq_ok hz ha] at h
        exact ih.mp h y ⟨pre, post, rfl, hpre⟩
    · intro h
      have ha := h a ⟨[], l, rfl, fun _ hz => absurd hz List.not_mem_nil⟩
      obtain ⟨result, hresult⟩ := Option.isSome_iff_exists.mp ha
      rw [hresult]
      cases result with
      | error e => rfl
      | ok =>
        refine ih.mpr ?_
        rintro y ⟨pre, post, rfl, hpre⟩
        have hpass : Passes t a := check_ok_iff.mp ⟨fuel, hresult⟩
        exact h y ⟨a :: pre, post, rfl, List.forall_mem_cons.mpr ⟨hpass, hpre⟩⟩

theorem check_isSome_iff :
    (checkDeactivatedRecursive t fuel x).isSome ↔
      FinishesWithin (ChecksNext t) (· ∈ t.ids) fuel x := by
  induction fuel generalizing x with
  | zero => exact iff_of_false Bool.false_ne_true id
  | succ fuel ih =>
    rw [checkDeactivatedRecursive, FinishesWithin]
    cases hget : t.get x with
    | none =>
      refine iff_of_false Bool.false_ne_true fun h => ?_
      exact UnitTable.get_eq_none_iff.mp hget h.1
    | some unit =>
      dsimp only
      rw [and_iff_right (UnitTable.mem_ids_of_get hget)]
      have hstopped : Stopped t x ↔ unit.common.status.isStopped = true := by
        rw [Stopped, hget, Option.any_some]
      simp only [ChecksNext, hstopped, UnitTable.deps_of_get hget, ← ih]
      split_ifs with h
      · rw [checkAll_isSome_iff]
        exact forall_congr' fun y => imp_congr_left (and_iff_right h).symm
      · exact iff_of_true rfl fun y hy => absurd hy.1 h

/-- The check of a unit returns exactly if it comes to loaded units only, and from none of them back
    to it. -/
theorem check_returns_iff :
    (∃ fuel, (checkDeactivatedRecursive t fuel x).isSome) ↔
      (∀ y, ReflTransGen (ChecksNext t) x y → y ∈ t.ids) ∧
        ∀ y, ReflTransGen (ChecksNext t) x y → ¬ TransGen (ChecksNext t) y y := by
  simp only [check_isSome_iff]
  rw [exists_finishesWithin_iff (finite_checksNext t),
    acc_iff_no_cycle (S := t.ids.toFinset) fun a b h => List.mem_toFinset.mpr h.1.mem_ids]

/-- `a.service` and `b.service` require each other; both are stopped. -/
def mutualTable : UnitTable where
  units :=
    let service (name : String) (requiredBy : List UnitId) : LoadedUnit :=
      { id := ⟨.service, name⟩
        common := {
          unit := {}, dependencies := { requiredBy := requiredBy }
          status := .stopped .stoppedFinal }
        specific := .service {} }
    [service "a.service" [⟨.service, "b.service"⟩], service "b.service" [⟨.service, "a.service"⟩]]
  nodup := by decide

/-- However many levels there are, the check of `a.service` needs one more. -/
theorem mutual_requirement_loops :
    ¬ ∃ fuel, checkDeactivatedRecursive mutualTable fuel ⟨.service, "a.service"⟩ ≠ none := by
  have hboth : ∀ fuel, checkDeactivatedRecursive mutualTable fuel ⟨.service, "a.service"⟩ = none ∧
      checkDeactivatedRecursive mutualTable fuel ⟨.service, "b.service"⟩ = none := by
    intro fuel
    induction fuel with
    | zero => exact ⟨rfl, rfl⟩
    | succ fuel ih =>
      -- each check starts with the check of the other unit
      have hfirst (check : UnitId → Option (Except String Unit)) (id : UnitId)
          (h : check id = none) : checkAll check [id] = none := by
        rw [checkAll, h]
      exact ⟨hfirst _ _ ih.2, hfirst _ _ ih.1⟩
  rintro ⟨fuel, h⟩
  exact h (hboth fuel).1

end OxidizedSystemd.Units
