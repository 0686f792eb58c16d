import Mathlib.Data.Fintype.Card
import Mathlib.Data.Finite.Defs
import Mathlib.Data.Fintype.EquivFin
import Mathlib.Data.Fintype.Sets
import Mathlib.Logic.Relation
import Mathlib.Order.WellFounded

/-!
# Acyclic relations on finite sets

* `Acyclic.exists_source`: a nonempty finite set has an element no other
  element of the set points to.
* `transGen_within_of_cycles`: a cycle stays inside a set that holds every cycle.
* `Acyclic.exists_sink_reachable`: from every element of a finite set a path
  inside the set leads to an element that points to none of the set.
-/

namespace OxidizedSystemd.Lib

open Relation (TransGen ReflTransGen)

variable {α : Type*} {r s : α → α → Prop}

/-- No element reaches itself in one or more steps. -/
def Acyclic (r : α → α → Prop) : Prop := ∀ a, ¬ TransGen r a a

/-- `r` with both ends in `p`. -/
def Within (p : α → Prop) (r : α → α → Prop) (a b : α) : Prop := p a ∧ p b ∧ r a b

theorem Acyclic.mono (h : Acyclic s) (hrs : ∀ a b, r a b → s a b) : Acyclic r :=
  fun a ha => h a (TransGen.mono hrs _ _ ha)

/-- A relation along which a rank increases is acyclic. -/
theorem Acyclic.of_rank (rank : α → ℕ) (h : ∀ a b, r a b → rank a < rank b) : Acyclic r := by
  intro a ha
  have : ∀ b, TransGen r a b → rank a < rank b := by
    intro b hb
    induction hb with
    | single hab => exact h _ _ hab
    | tail _ hbc ih => exact ih.trans (h _ _ hbc)
  exact lt_irrefl _ (this a ha)

theorem Acyclic.swap (h : Acyclic r) : Acyclic (Function.swap r) := by
  intro a ha
  exact h a (Relation.transGen_swap.mp ha)

theorem Acyclic.wellFounded_within (h : Acyclic r) (S : Finset α) :
    WellFounded fun a b : S => TransGen r a b := by
  have : IsTrans S fun a b : S => TransGen r a b := ⟨fun _ _ _ h₁ h₂ => h₁.trans h₂⟩
  have : Std.Irrefl fun a b : S => TransGen r a b := ⟨fun a ha => h a ha⟩
  exact Finite.wellFounded_of_trans_of_irrefl _

theorem Acyclic.exists_source (h : Acyclic r) {S : Finset α} (hS : S.Nonempty) :
    ∃ a ∈ S, ∀ b ∈ S, ¬ r b a := by
  obtain ⟨x, hx⟩ := hS
  obtain ⟨m, -, hm⟩ := (h.wellFounded_within S).has_min Set.univ ⟨⟨x, hx⟩, trivial⟩
  exact ⟨m, m.2, fun b hb hba => hm ⟨b, hb⟩ trivial (.single hba)⟩

theorem Acyclic.exists_sink_reachable (h : Acyclic r) {S : Finset α} {a : α} (ha : a ∈ S) :
    ∃ b ∈ S, ReflTransGen (Within (· ∈ S) r) a b ∧ ∀ c ∈ S, ¬ r b c := by
  have hwf := h.swap.wellFounded_within S
  suffices ∀ x : S, ∃ b ∈ S, ReflTransGen (Within (· ∈ S) r) x b ∧ ∀ c ∈ S, ¬ r b c from
    this ⟨a, ha⟩
  intro x
  induction x using hwf.induction with
  | _ x ih =>
    by_cases hx : ∃ c ∈ S, r x c
    · obtain ⟨c, hc, hxc⟩ := hx
      obtain ⟨b, hb, hcb, hsink⟩ := ih ⟨c, hc⟩ (.single hxc)
      exact ⟨b, hb, .head ⟨x.2, hc, hxc⟩ hcb, hsink⟩
    · exact ⟨x, x.2, .refl, fun c hc hxc => hx ⟨c, hc, hxc⟩⟩

/-- A cycle through `a` leaves `a` by a first edge, whose end is on a cycle too. -/
theorem exists_succ_on_cycle {a : α} (h : TransGen r a a) : ∃ b, r a b ∧ TransGen r b b := by
  obtain ⟨b, hab, hba⟩ := TransGen.head'_iff.mp h
  exact ⟨b, hab, TransGen.tail' hba hab⟩

/-- A cycle stays inside a set that holds every element of every cycle. -/
theorem transGen_within_of_cycles {p : α → Prop} (h : ∀ x, TransGen r x x → p x) {a : α}
    (ha : TransGen r a a) : TransGen (Within p r) a a := by
  suffices ∀ b, TransGen r a b → ReflTransGen r b a → TransGen (Within p r) a b from
    this a ha .refl
  intro b hab
  induction hab with
  | single hab => exact fun hba => .single ⟨h _ ha, h _ (TransGen.tail' hba hab), hab⟩
  | tail hab hbc ih =>
    intro hca
    have hb : TransGen r _ _ := (TransGen.head' hbc hca).trans hab
    have hc : TransGen r _ _ := TransGen.tail' (hca.trans hab.to_reflTransGen) hbc
    exact (ih (.head hbc hca)).tail ⟨h _ hb, h _ hc, hbc⟩

end OxidizedSystemd.Lib
