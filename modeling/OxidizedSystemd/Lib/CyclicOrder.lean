import Mathlib.Data.List.Rotate

/-!
# Gaps of a cyclic order

An increasing list, closed to a circle by the step from its last element back to the first,
divides the elements that are not in it among the gaps between neighbours.

* `Before`: the strict order of a comparison.
* `countP_gaps`: an element is in exactly one gap, or in the list.
-/

namespace OxidizedSystemd.Lib

variable {α : Type*} [Ord α]

/-- The strict order of `compare`. -/
def Before (a b : α) : Prop := compare a b = .lt

instance : DecidableRel (Before : α → α → Prop) := fun a b =>
  inferInstanceAs (Decidable (compare a b = .lt))

section Order

variable [Std.TransOrd α] {a b c : α}

theorem Before.trans (hab : Before a b) (hbc : Before b c) : Before a c :=
  Std.TransCmp.lt_trans hab hbc

theorem Before.asymm (h : Before a b) : ¬Before b a := by
  intro hba
  have hswap : compare b a = (compare a b).swap := Std.OrientedCmp.eq_swap
  rw [h] at hswap
  rw [Before, hswap] at hba
  cases hba

theorem not_before_self (a : α) : ¬Before a a := fun h => h.asymm h

theorem Before.ne (h : Before a b) : a ≠ b := by
  rintro rfl
  exact not_before_self a h

theorem before_trichotomy [Std.LawfulEqOrd α] (a b : α) : Before a b ∨ a = b ∨ Before b a := by
  have hswap : compare b a = (compare a b).swap := Std.OrientedCmp.eq_swap
  cases hab : compare a b with
  | lt => exact Or.inl hab
  | eq => exact Or.inr (Or.inl (Std.LawfulEqCmp.eq_of_compare hab))
  | gt =>
    rw [hab] at hswap
    exact Or.inr (Or.inr hswap)

end Order

/-! ## Gaps -/

/-- An element is strictly between two neighbours on the circle. Between an element and itself
    there are all others. -/
def inGap [DecidableEq α] (a b x : α) : Bool :=
  if a = b then x ≠ a
  else if Before a b then Before a x ∧ Before x b
  else Before a x ∨ Before x b

/-- The pairs of neighbours, the last with the first. -/
def gaps {α : Type*} (l : List α) : List (α × α) := l.zip (l.rotate 1)

/-- The gaps from an element on, when the circle began with `first`. -/
def gapsFrom {α : Type*} (first a : α) : List α → List (α × α)
  | [] => [(a, first)]
  | b :: rest => (a, b) :: gapsFrom first b rest

theorem gaps_cons {α : Type*} (a : α) (rest : List α) : gaps (a :: rest) = gapsFrom a a rest := by
  have hzip : ∀ (first a : α) (rest : List α),
      (a :: rest).zip (rest ++ [first]) = gapsFrom first a rest := by
    intro first a rest
    induction rest generalizing a with
    | nil => rfl
    | cons b rest ih => rw [List.cons_append, List.zip_cons_cons, ih, gapsFrom]
  rw [gaps, List.rotate_cons_succ, List.rotate_zero, hzip]

section Count

variable [DecidableEq α] [Std.TransOrd α] {first a b x : α} {rest : List α}

theorem inGap_of_before (h : Before a b) : inGap a b x = true ↔ Before a x ∧ Before x b := by
  rw [inGap, if_neg h.ne, if_pos h, decide_eq_true_eq]

theorem inGap_of_after (h : Before b a) : inGap a b x = true ↔ Before a x ∨ Before x b := by
  rw [inGap, if_neg h.ne.symm, if_neg h.asymm, decide_eq_true_eq]

variable [Std.LawfulEqOrd α]

/-- Behind the first element: the gaps from `a` on hold what comes behind `a` and is not in the
    list, and what comes before the first element. -/
theorem countP_gapsFrom (hfirst : Before first a) (hsorted : (a :: rest).Pairwise Before) :
    (gapsFrom first a rest).countP (fun g => inGap g.1 g.2 x) =
      if (Before a x ∧ x ∉ rest) ∨ Before x first then 1 else 0 := by
  induction rest generalizing a with
  | nil =>
    rw [gapsFrom, List.countP_singleton]
    simp [inGap_of_after hfirst]
  | cons b rest ih =>
    have hab : Before a b := List.rel_of_pairwise_cons hsorted List.mem_cons_self
    rw [gapsFrom, List.countP_cons, ih (hfirst.trans hab) hsorted.of_cons]
    simp only [inGap_of_before hab, List.mem_cons, not_or]
    by_cases hgap : Before a x ∧ Before x b
    · -- `x` is in the gap between `a` and `b`, and so in none of those behind it
      obtain ⟨hax, hxb⟩ := hgap
      have hnot : ¬Before b x := hxb.asymm
      have hnotfirst : ¬Before x first := fun h => (hfirst.trans hax).asymm h
      have hmem : x ∉ rest := by
        intro hmem
        exact hnot (List.rel_of_pairwise_cons hsorted.of_cons hmem)
      simp [hax, hxb, hnot, hnotfirst, hxb.ne, hmem]
    · have hsame : (Before b x ∧ x ∉ rest) ↔ (Before a x ∧ x ≠ b ∧ x ∉ rest) := by
        constructor
        · rintro ⟨hbx, hmem⟩
          exact ⟨hab.trans hbx, hbx.ne.symm, hmem⟩
        · rintro ⟨hax, hne, hmem⟩
          rcases before_trichotomy b x with hbx | rfl | hxb
          · exact ⟨hbx, hmem⟩
          · exact absurd rfl hne
          · exact absurd ⟨hax, hxb⟩ hgap
      simp [hgap, hsame]

/-- An element that is not in the list is in exactly one gap, and an element of it is in none. -/
theorem countP_gaps {l : List α} (hne : l ≠ []) (hsorted : l.Pairwise Before) (x : α)
    [Decidable (x ∈ l)] :
    (gaps l).countP (fun g => inGap g.1 g.2 x) = if x ∈ l then 0 else 1 := by
  cases l with
  | nil => exact absurd rfl hne
  | cons a rest =>
    rw [gaps_cons]
    cases rest with
    | nil =>
      rw [gapsFrom, List.countP_singleton, inGap]
      by_cases hx : x = a
      · simp [hx]
      · simp [hx]
    | cons b rest =>
      have hab : Before a b := List.rel_of_pairwise_cons hsorted List.mem_cons_self
      rw [gapsFrom, List.countP_cons, countP_gapsFrom hab hsorted.of_cons]
      simp only [inGap_of_before hab, List.mem_cons]
      have hbehind : ∀ y ∈ rest, Before b y := fun y => List.rel_of_pairwise_cons hsorted.of_cons
      -- the first element is not behind the others
      have hnotfirst : Before a x → ¬Before x a := fun h => h.asymm
      rcases before_trichotomy a x with hax | rfl | hxa
      · have hxne : x ≠ a := hax.ne.symm
        rcases before_trichotomy b x with hbx | rfl | hxb
        · have hnotgap : ¬Before x b := hbx.asymm
          simp [hnotgap, hbx, hnotfirst hax, hxne, hbx.ne.symm]
        · simp [not_before_self, hnotfirst hax]
        · have hmem : x ∉ rest := fun hx => (hbehind x hx).asymm hxb
          simp [hax, hxb, hxb.asymm, hnotfirst hax, hxne, hxb.ne, hmem]
      · simp [not_before_self, hab.asymm]
      · have hxb : Before x b := hxa.trans hab
        have hmem : x ∉ rest := fun hx => (hbehind x hx).asymm hxb
        simp [hxa, hxa.asymm, hxa.ne, hxb.ne, hmem]

end Count

end OxidizedSystemd.Lib
