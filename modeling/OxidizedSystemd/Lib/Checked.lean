import Mathlib.Data.List.Basic
import Mathlib.Data.Nat.Notation

/-!
# Computations that may give up

A computation in `Option` that gives one value under a condition and gives up otherwise, as
arithmetic does that checks for overflow.

* `Gives`: the value and the condition.
* `Gives.bind`, `Gives.mapM`: sequences of such computations.
-/

namespace OxidizedSystemd.Lib

/-- `x` is `a` if `p` holds, and gives up if not. -/
def Gives {α : Type*} (x : Option α) (p : Prop) (a : α) : Prop := ∀ r, x = some r ↔ p ∧ r = a

namespace Gives

variable {α β : Type*} {x : Option α} {p q : Prop} {a : α} {b : β}

theorem some (a : α) : Gives (some a) True a := by
  intro r
  rw [Option.some_inj, true_and, eq_comm]

theorem isSome (h : Gives x p a) : x.isSome ↔ p := by
  rw [Option.isSome_iff_exists]
  exact ⟨fun ⟨r, hr⟩ => ((h r).mp hr).1, fun hp => ⟨a, (h a).mpr ⟨hp, rfl⟩⟩⟩

theorem eq (h : Gives x p a) {r : α} (hr : x = Option.some r) : r = a := ((h r).mp hr).2

theorem eq_some (h : Gives x p a) (hp : p) : x = Option.some a := (h a).mpr ⟨hp, rfl⟩

theorem eq_none (h : Gives x p a) (hp : ¬ p) : x = none :=
  Option.eq_none_iff_forall_ne_some.mpr fun r hr => hp ((h r).mp hr).1

theorem congr (h : Gives x p a) (hpq : p ↔ q) : Gives x q a := by
  intro r
  rw [h r, hpq]

theorem of_not (hp : ¬ p) (a : α) : Gives none p a := by
  intro r
  exact ⟨fun h => absurd h (by simp), fun h => absurd h.1 hp⟩

theorem map (h : Gives x p a) (f : α → β) : Gives (x.map f) p (f a) := by
  intro r
  by_cases hp : p
  · rw [h.eq_some hp, Option.map_some, Option.some_inj, eq_comm]
    exact (and_iff_right hp).symm
  · rw [h.eq_none hp]
    exact of_not hp (f a) r

theorem bind {f : α → Option β} (h : Gives x p a) (hf : p → Gives (f a) q b) :
    Gives (x.bind f) (p ∧ q) b := by
  intro r
  by_cases hp : p
  · rw [h.eq_some hp, Option.bind_some, hf hp r, and_assoc]
    exact (and_iff_right hp).symm
  · rw [h.eq_none hp]
    exact of_not (fun h => hp h.1) b r

theorem mapM {α β : Type} {l : List α} {f : α → Option β} {p : α → Prop} {g : α → β}
    (h : ∀ a ∈ l, Gives (f a) (p a) (g a)) : Gives (l.mapM f) (∀ a ∈ l, p a) (l.map g) := by
  induction l with
  | nil => exact (some []).congr (by simp)
  | cons a l ih =>
    rw [List.mapM_cons]
    have htail := (ih fun b hb => h b (List.mem_cons_of_mem a hb)).bind
      (f := fun rest => Option.some (g a :: rest)) fun _ => some _
    refine ((h a List.mem_cons_self).bind fun _ => htail).congr ?_
    rw [List.forall_mem_cons, and_true]

end Gives

end OxidizedSystemd.Lib
