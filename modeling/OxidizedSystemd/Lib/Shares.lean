import Mathlib.Algebra.BigOperators.Group.List.Basic
import Mathlib.Algebra.Order.Ring.Nat
import Mathlib.Tactic.Ring

/-!
# Shares in proportion to weights

An amount `v` is shared out among claims in proportion to their weights, which sum to `W`.
`Covers v W w x` says that the share of a claim of weight `w` is at least `x`.

* `Covers.rest`: when a claim takes no more than its share, the others lose nothing.
* `Covers.sum_le`: what all shares cover is no more than the amount.
-/

namespace OxidizedSystemd.Lib

/-- The share of weight `w` in `v` is at least `x`, and a weight of nothing claims nothing. -/
structure Covers (v W w x : ℕ) : Prop where
  le : x * W ≤ v * w
  zero : w = 0 → x = 0

namespace Covers

variable {v v' W w x y z : ℕ}

theorem mono (h : Covers v W w y) (hle : x ≤ y) : Covers v W w x :=
  ⟨Nat.le_trans (Nat.mul_le_mul_right W hle) h.le, fun hw => by have := h.zero hw; omega⟩

theorem of_le (h : Covers v W w x) (hle : v ≤ v') : Covers v' W w x :=
  ⟨Nat.le_trans h.le (Nat.mul_le_mul_right w hle), h.zero⟩

theorem le_amount (h : Covers v W w x) (hw : w ≤ W) : x ≤ v := by
  rcases Nat.eq_zero_or_pos W with hzero | hpos
  · have hx := h.zero (by omega)
    omega
  · refine Nat.le_of_mul_le_mul_right ?_ hpos
    exact Nat.le_trans h.le (Nat.mul_le_mul_left v hw)

/-- When a claim takes no more than its share, what is left covers what the others were. -/
theorem rest {u : ℕ} (h : Covers v W u x) (hz : Covers v W w z) (hw : w ≤ W) :
    Covers (v - z) (W - w) u x := by
  refine ⟨?_, h.zero⟩
  rcases Nat.eq_zero_or_pos W with hzero | hpos
  · have hnone : W - w = 0 := by omega
    rw [hnone, Nat.mul_zero]
    exact Nat.zero_le _
  · refine Nat.le_of_mul_le_mul_left ?_ hpos
    calc W * (x * (W - w)) = x * W * (W - w) := by ring
      _ ≤ v * u * (W - w) := Nat.mul_le_mul_right _ h.le
      _ = u * (v * W - v * w) := by rw [← Nat.mul_sub]; ring
      _ ≤ u * (v * W - z * W) := Nat.mul_le_mul_left u (Nat.sub_le_sub_left hz.le _)
      _ = W * ((v - z) * u) := by rw [← Nat.sub_mul]; ring

/-- What the shares of all weights cover is no more than the amount. -/
theorem sum_le {α : Type*} {weight amount : α → ℕ} {cs : List α}
    (h : ∀ c ∈ cs, Covers v (cs.map weight).sum (weight c) (amount c)) :
    (cs.map amount).sum ≤ v := by
  have hsum : ∀ W, (∀ c ∈ cs, Covers v W (weight c) (amount c)) →
      (cs.map amount).sum * W ≤ v * (cs.map weight).sum := fun W hW => by
    clear h
    induction cs with
    | nil => simp
    | cons c cs ih =>
      obtain ⟨hc, hcs⟩ := List.forall_mem_cons.mp hW
      rw [List.map_cons, List.map_cons, List.sum_cons, List.sum_cons, Nat.add_mul, Nat.mul_add]
      exact Nat.add_le_add hc.le (ih hcs)
  rcases Nat.eq_zero_or_pos (cs.map weight).sum with hzero | hpos
  · have hnone : ∀ x ∈ cs.map amount, x = 0 := fun x hx => by
      obtain ⟨c, hc, rfl⟩ := List.mem_map.mp hx
      exact (h c hc).zero (List.sum_eq_zero_iff_forall_eq_nat.mp hzero _ (List.mem_map_of_mem hc))
    rw [List.sum_eq_zero hnone]
    exact Nat.zero_le v
  · exact Nat.le_of_mul_le_mul_right (hsum _ h) hpos

end Covers

end OxidizedSystemd.Lib
