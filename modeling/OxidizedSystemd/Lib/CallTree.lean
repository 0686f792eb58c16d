import OxidizedSystemd.Lib.Acyclic
import Mathlib.Data.Set.Finite.Basic
import Mathlib.Order.Filter.AtTopBot.Basic
import Mathlib.Order.Filter.Finite

/-!
# Calls that finish

A call makes calls in turn. It finishes within `n` levels when what it does itself succeeds and the
calls that it makes finish within `n - 1`.

* `exists_finishesWithin_iff`: a call finishes exactly if all below it succeed and no chain of calls
  goes on for ever.
* `acc_iff_no_cycle`: with finitely many callers, chains end exactly if none of them returns.
-/

namespace OxidizedSystemd.Lib

open Filter
open Relation (ReflTransGen TransGen)

variable {α : Type*} {calls : α → α → Prop} {succeeds : α → Prop} {c : α} {n m : ℕ}

/-- A call and those below it succeed, at most `n` of them deep. -/
def FinishesWithin (calls : α → α → Prop) (succeeds : α → Prop) : ℕ → α → Prop
  | 0, _ => False
  | n + 1, c => succeeds c ∧ ∀ c', calls c c' → FinishesWithin calls succeeds n c'

theorem FinishesWithin.mono (h : FinishesWithin calls succeeds n c) (hnm : n ≤ m) :
    FinishesWithin calls succeeds m c := by
  induction n generalizing m c with
  | zero => exact h.elim
  | succ n ih =>
    obtain ⟨m, rfl⟩ := Nat.exists_eq_add_of_le' (Nat.le_of_add_left_le hnm)
    exact ⟨h.1, fun c' hc' => ih (h.2 c' hc') (Nat.le_of_add_le_add_right hnm)⟩

theorem FinishesWithin.succeeds_of_reached (h : FinishesWithin calls succeeds n c) {c' : α}
    (hreach : ReflTransGen calls c c') : succeeds c' := by
  induction n generalizing c with
  | zero => exact h.elim
  | succ n ih =>
    rcases ReflTransGen.cases_head hreach with rfl | ⟨d, hd, hreach⟩
    · exact h.1
    · exact ih (h.2 d hd) hreach

theorem FinishesWithin.acc (h : FinishesWithin calls succeeds n c) :
    Acc (Function.swap calls) c := by
  induction n generalizing c with
  | zero => exact h.elim
  | succ n ih => exact Acc.intro c fun c' hc' => ih (h.2 c' hc')

/-- A call that makes finitely many calls finishes exactly if all below it succeed and every chain
    of calls ends. -/
theorem exists_finishesWithin_iff (hfinite : ∀ c, {c' | calls c c'}.Finite) :
    (∃ n, FinishesWithin calls succeeds n c) ↔
      (∀ c', ReflTransGen calls c c' → succeeds c') ∧ Acc (Function.swap calls) c := by
  constructor
  · rintro ⟨n, h⟩
    exact ⟨fun c' => h.succeeds_of_reached, h.acc⟩
  · rintro ⟨hsucceeds, hacc⟩
    induction hacc with
    | intro c hacc ih =>
      have hbelow : ∀ c' ∈ {c' | calls c c'},
          ∀ᶠ n in atTop, FinishesWithin calls succeeds n c' := by
        intro c' hc'
        obtain ⟨n, hn⟩ := ih c' hc' fun d hd => hsucceeds d (.head hc' hd)
        exact eventually_atTop.mpr ⟨n, fun m hm => hn.mono hm⟩
      obtain ⟨n, hn⟩ := ((eventually_all_finite (hfinite c)).mpr hbelow).exists
      exact ⟨n + 1, hsucceeds c .refl, hn⟩

/-- From where every chain of calls ends, none returns. -/
theorem not_cycle_of_acc (h : Acc (Function.swap calls) c) : ¬ TransGen calls c c := by
  induction h with
  | intro c hacc ih =>
    intro hcycle
    obtain ⟨d, hd, hcycle⟩ := exists_succ_on_cycle hcycle
    exact ih d hd hcycle

theorem acc_of_reached {c' : α} (h : Acc (Function.swap calls) c)
    (hreach : ReflTransGen calls c c') : Acc (Function.swap calls) c' := by
  induction hreach with
  | refl => exact h
  | tail _ hlast ih => exact ih.inv hlast

/-- Where only the elements of a finite set make calls, every chain ends exactly if none returns. -/
theorem acc_iff_no_cycle {S : Finset α} (hS : ∀ a b, calls a b → a ∈ S) :
    Acc (Function.swap calls) c ↔ ∀ c', ReflTransGen calls c c' → ¬ TransGen calls c' c' := by
  constructor
  · exact fun h c' hreach => not_cycle_of_acc (acc_of_reached h hreach)
  · intro h
    have hleaf : ∀ a ∉ S, Acc (Function.swap calls) a := fun a ha =>
      Acc.intro a fun b hb => absurd (hS a b hb) ha
    -- the calls below `c` have no cycle
    have hacyclic : Acyclic fun a b => ReflTransGen calls c a ∧ calls a b := by
      intro a ha
      obtain ⟨b, hab, -⟩ := exists_succ_on_cycle ha
      exact h a hab.1 (TransGen.mono (fun _ _ hstep => hstep.2) _ _ ha)
    have hwf := hacyclic.swap.wellFounded_within S
    have hall : ∀ a : S, ReflTransGen calls c a → Acc (Function.swap calls) (a : α) := by
      intro a
      induction a using hwf.induction with
      | _ a ih =>
        intro hreach
        refine Acc.intro _ fun b hb => ?_
        by_cases hmem : b ∈ S
        · exact ih ⟨b, hmem⟩ (.single ⟨hreach, hb⟩) (hreach.tail hb)
        · exact hleaf b hmem
    by_cases hc : c ∈ S
    · exact hall ⟨c, hc⟩ .refl
    · exact hleaf c hc

end OxidizedSystemd.Lib
