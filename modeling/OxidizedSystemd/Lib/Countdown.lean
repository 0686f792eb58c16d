import OxidizedSystemd.Lib.Acyclic
import Mathlib.Algebra.BigOperators.Group.Finset.Basic
import Mathlib.Algebra.BigOperators.Group.Finset.Piecewise

/-!
# Counters over waiting edges

A scheduler that releases an element when a counter reaches zero: `count u`
should be the number of recorded edges from active elements to `u`, together
with the credits for `u` that are on their way.

* `Countdown.merge`, `Countdown.finish`, `Countdown.credit`: the three changes.
* `Countdown.Covered`: no count exceeds what can still decrement it.
* `Countdown.Exact`: each count is what can still decrement it.
* `Countdown.Covered.exists_zero`: if waiting is acyclic, from every active
  element the waiting leads to an active element whose count is zero.
-/

namespace OxidizedSystemd.Lib

open Relation (ReflTransGen)

variable {α : Type*} [DecidableEq α]

/-- The active elements, their counts and, for each, the elements that wait for it. -/
structure Countdown (α : Type*) where
  active : Finset α
  count : α → ℕ
  parents : α → List α

namespace Countdown

variable {g : Countdown α} {credits : List α}

/-- The number of recorded edges from active elements to `u`. -/
def waits (g : Countdown α) (u : α) : ℕ := ∑ c ∈ g.active, (g.parents c).count u

/-- The edges `(child, parent)` whose ends are both active once the members are. -/
def added (g : Countdown α) (members : Finset α) (edges : List (α × α)) : List (α × α) :=
  edges.filter fun e => e.1 ∈ g.active ∪ members ∧ e.2 ∈ g.active ∪ members

/-- Add members and edges between active elements. -/
def merge (g : Countdown α) (members : Finset α) (edges : List (α × α)) : Countdown α where
  active := g.active ∪ members
  count u := g.count u + (g.added members edges).countP (·.2 = u)
  parents c := g.parents c ++ ((g.added members edges).filter (·.1 = c)).map (·.2)

/-- `u` is done: it waits for nothing any more and is waited for by nobody. -/
def finish (g : Countdown α) (u : α) : Countdown α where
  active := g.active.erase u
  count := Function.update g.count u 0
  parents := Function.update g.parents u []

/-- One of the edges to `p` is gone. -/
def credit (g : Countdown α) (p : α) : Countdown α :=
  { g with count := Function.update g.count p (g.count p - 1) }

theorem finish_count_self (g : Countdown α) (u : α) : (g.finish u).count u = 0 :=
  Function.update_self ..

theorem finish_count_of_ne (g : Countdown α) {u p : α} (h : p ≠ u) :
    (g.finish u).count p = g.count p := Function.update_of_ne h _ _

theorem finish_parents_of_ne (g : Countdown α) {u c : α} (h : c ≠ u) :
    (g.finish u).parents c = g.parents c := Function.update_of_ne h _ _

theorem mem_finish_parents {g : Countdown α} {u c p : α} :
    p ∈ (g.finish u).parents c ↔ c ≠ u ∧ p ∈ g.parents c := by
  by_cases h : c = u
  · subst h
    have : (g.finish c).parents c = [] := Function.update_self ..
    rw [this]
    exact ⟨fun h => absurd h List.not_mem_nil, fun h => absurd rfl h.1⟩
  · rw [finish_parents_of_ne g h, and_iff_right h]

theorem mem_merge_parents {g : Countdown α} {members : Finset α} {edges : List (α × α)} {c p : α} :
    p ∈ (g.merge members edges).parents c ↔ p ∈ g.parents c ∨
      (c, p) ∈ edges ∧ c ∈ g.active ∪ members ∧ p ∈ g.active ∪ members := by
  change p ∈ g.parents c ++ _ ↔ _
  rw [List.mem_append, List.mem_map]
  refine or_congr_right ⟨?_, ?_⟩
  · rintro ⟨⟨c', p'⟩, he, rfl⟩
    rw [List.mem_filter, added, List.mem_filter, decide_eq_true_iff, decide_eq_true_iff] at he
    obtain ⟨⟨he, hends⟩, rfl⟩ := he
    exact ⟨he, hends⟩
  · rintro ⟨he, hends⟩
    refine ⟨(c, p), ?_, rfl⟩
    rw [List.mem_filter, added, List.mem_filter, decide_eq_true_iff, decide_eq_true_iff]
    exact ⟨⟨he, hends⟩, rfl⟩

theorem count_le_merge (g : Countdown α) (members : Finset α) (edges : List (α × α)) (u : α) :
    g.count u ≤ (g.merge members edges).count u := Nat.le_add_right _ _

theorem merge_count_of_forall_ne (g : Countdown α) (members : Finset α) {edges : List (α × α)}
    {u : α} (h : ∀ e ∈ edges, e.2 ≠ u) : (g.merge members edges).count u = g.count u := by
  have hzero : (g.added members edges).countP (·.2 = u) = 0 := by
    rw [List.countP_eq_zero]
    intro e he
    rw [decide_eq_true_iff]
    exact h e (List.mem_filter.mp he).1
  exact congrArg (g.count u + ·) hzero

/-- Only active elements have recorded edges. -/
def Grounded (g : Countdown α) : Prop := ∀ c, c ∉ g.active → g.parents c = []

def Covered (g : Countdown α) (credits : List α) : Prop :=
  ∀ u, g.count u ≤ g.waits u + credits.count u

def Exact (g : Countdown α) (credits : List α) : Prop :=
  ∀ u, g.count u = g.waits u + credits.count u

/-! ## Waiting edges after a change -/

theorem sum_count_filter {s : Finset α} {l : List (α × α)} (h : ∀ e ∈ l, e.1 ∈ s) (u : α) :
    ∑ c ∈ s, ((l.filter (·.1 = c)).map (·.2)).count u = l.countP (·.2 = u) := by
  induction l with
  | nil => exact Finset.sum_const_zero
  | cons e l ih =>
    have hrest := ih fun e he => h e (List.mem_cons_of_mem _ he)
    have hterm : ∀ c, (((e :: l).filter (·.1 = c)).map (·.2)).count u =
        (if e.1 = c then (if e.2 = u then 1 else 0) else 0) +
          ((l.filter (·.1 = c)).map (·.2)).count u := by
      intro c
      by_cases hc : e.1 = c
      · rw [if_pos hc, List.filter_cons_of_pos (by simpa using hc), List.map_cons, List.count_cons,
          add_comm]
        simp only [beq_iff_eq]
      · rw [if_neg hc, List.filter_cons_of_neg (by simpa using hc), zero_add]
    rw [Finset.sum_congr rfl fun c _ => hterm c, Finset.sum_add_distrib, hrest,
      Finset.sum_ite_eq, if_pos (h e List.mem_cons_self), List.countP_cons, add_comm]
    simp only [decide_eq_true_eq]

theorem waits_merge (hg : g.Grounded) (members : Finset α) (edges : List (α × α)) (u : α) :
    (g.merge members edges).waits u + g.count u = g.waits u + (g.merge members edges).count u := by
  have hold : ∑ c ∈ g.active ∪ members, (g.parents c).count u = g.waits u := by
    refine (Finset.sum_subset Finset.subset_union_left fun c _ hc => ?_).symm
    rw [hg c hc, List.count_nil]
  have hends : ∀ e ∈ g.added members edges, e.1 ∈ g.active ∪ members := fun e he =>
    (of_decide_eq_true (List.mem_filter.mp he).2).1
  have hsum : (g.merge members edges).waits u =
      g.waits u + (g.added members edges).countP (·.2 = u) := by
    rw [← sum_count_filter hends u, ← hold, ← Finset.sum_add_distrib]
    exact Finset.sum_congr rfl fun c _ => List.count_append
  have hcount : (g.merge members edges).count u =
      g.count u + (g.added members edges).countP (·.2 = u) := rfl
  omega

theorem waits_finish (hg : g.Grounded) (u p : α) :
    (g.finish u).waits p + (g.parents u).count p = g.waits p := by
  have hsum : (g.finish u).waits p = ∑ c ∈ g.active.erase u, (g.parents c).count p := by
    refine Finset.sum_congr rfl fun c hc => ?_
    rw [finish_parents_of_ne g (Finset.ne_of_mem_erase hc)]
  rw [hsum]
  by_cases hu : u ∈ g.active
  · exact Finset.sum_erase_add _ _ hu
  · rw [hg u hu, Finset.erase_eq_of_notMem hu]
    rfl

/-! ## The changes keep the accounts -/

theorem Grounded.merge (hg : g.Grounded) (members : Finset α) (edges : List (α × α)) :
    (g.merge members edges).Grounded := by
  intro c hc
  have hold : c ∉ g.active := fun h => hc (Finset.mem_union_left _ h)
  change g.parents c ++ _ = []
  rw [hg c hold, List.nil_append, List.map_eq_nil_iff, List.filter_eq_nil_iff]
  intro e he hec
  rw [added, List.mem_filter, decide_eq_true_iff] at he
  rw [decide_eq_true_iff] at hec
  exact hc (hec ▸ he.2.1)

theorem Grounded.finish (hg : g.Grounded) (u : α) : (g.finish u).Grounded := by
  intro c hc
  by_cases hcu : c = u
  · rw [hcu]
    exact Function.update_self ..
  · rw [finish_parents_of_ne g hcu]
    exact hg c fun h => hc (Finset.mem_erase.mpr ⟨hcu, h⟩)

theorem Covered.merge (h : g.Covered credits) (hg : g.Grounded) (members : Finset α)
    (edges : List (α × α)) : (g.merge members edges).Covered credits := by
  intro u
  have := waits_merge hg members edges u
  have := h u
  omega

theorem Exact.merge (h : g.Exact credits) (hg : g.Grounded) (members : Finset α)
    (edges : List (α × α)) : (g.merge members edges).Exact credits := by
  intro u
  have := waits_merge hg members edges u
  have := h u
  omega

theorem Covered.finish (h : g.Covered credits) (hg : g.Grounded) (u : α) :
    (g.finish u).Covered (g.parents u ++ credits) := by
  intro p
  have hw := waits_finish hg u p
  have := h p
  rw [List.count_append]
  by_cases hp : p = u
  · subst hp
    have := finish_count_self g p
    omega
  · have := finish_count_of_ne g hp
    omega

theorem Exact.finish (h : g.Exact credits) (hg : g.Grounded) {u : α} (hu : g.count u = 0) :
    (g.finish u).Exact (g.parents u ++ credits) := by
  intro p
  have hw := waits_finish hg u p
  have := h p
  have hcount : (g.finish u).count p = g.count p := by
    by_cases hp : p = u
    · rw [hp, hu, finish_count_self]
    · exact finish_count_of_ne g hp
  rw [List.count_append]
  omega

theorem credit_count_self (g : Countdown α) (p : α) : (g.credit p).count p = g.count p - 1 :=
  Function.update_self ..

theorem credit_count_of_ne (g : Countdown α) {p u : α} (h : u ≠ p) :
    (g.credit p).count u = g.count u := Function.update_of_ne h _ _

theorem credit_cases (g : Countdown α) (credits : List α) (p u : α) :
    (g.credit p).count u = g.count u - 1 ∧ (p :: credits).count u = credits.count u + 1 ∨
    (g.credit p).count u = g.count u ∧ (p :: credits).count u = credits.count u := by
  by_cases hu : u = p
  · subst hu
    exact .inl ⟨credit_count_self g u, List.count_cons_self⟩
  · exact .inr ⟨credit_count_of_ne g hu, List.count_cons_of_ne (Ne.symm hu)⟩

theorem waits_credit (g : Countdown α) (p u : α) : (g.credit p).waits u = g.waits u := rfl

theorem Covered.credit {p : α} (h : g.Covered (p :: credits)) : (g.credit p).Covered credits := by
  intro u
  have hu := h u
  have hw := waits_credit g p u
  rcases credit_cases g credits p u with hcase | hcase <;> omega

theorem Exact.credit {p : α} (h : g.Exact (p :: credits)) : (g.credit p).Exact credits := by
  intro u
  have hu := h u
  have hw := waits_credit g p u
  rcases credit_cases g credits p u with hcase | hcase <;> omega

/-- In exact accounts a credit is for an element with a positive count. -/
theorem Exact.count_pos {p : α} (h : g.Exact credits) (hp : p ∈ credits) : 0 < g.count p := by
  have := h p
  have := List.count_pos_iff.mpr hp
  omega

theorem waits_eq_zero_iff {u : α} : g.waits u = 0 ↔ ∀ c ∈ g.active, u ∉ g.parents c := by
  rw [waits, Finset.sum_eq_zero_iff]
  exact forall₂_congr fun c _ => List.count_eq_zero

/-- In exact accounts an element whose count is zero waits for nothing and gets no credit. -/
theorem Exact.count_eq_zero_iff (h : g.Exact credits) {u : α} :
    g.count u = 0 ↔ (∀ c ∈ g.active, u ∉ g.parents c) ∧ u ∉ credits := by
  rw [h u, Nat.add_eq_zero_iff, waits_eq_zero_iff, List.count_eq_zero]

/-- Without credits on their way, an element with a positive count waits for an active one. -/
theorem Covered.exists_waiting (h : g.Covered []) {u : α} (hu : 0 < g.count u) :
    ∃ c ∈ g.active, u ∈ g.parents c := by
  have hw : g.waits u ≠ 0 := by
    have := h u
    rw [List.count_nil] at this
    omega
  obtain ⟨c, hc, hne⟩ := Finset.exists_ne_zero_of_sum_ne_zero hw
  exact ⟨c, hc, List.count_pos_iff.mp (Nat.pos_of_ne_zero hne)⟩

/-- If waiting follows an acyclic relation, it leads from every active element to one whose
    count is zero. -/
theorem Covered.exists_zero (h : g.Covered []) {r : α → α → Prop}
    (hr : ∀ c ∈ g.active, ∀ u ∈ g.active, u ∈ g.parents c → r u c)
    {u : α} (hu : u ∈ g.active) (hacyc : ∀ v, ReflTransGen r u v → ¬ Relation.TransGen r v v) :
    ∃ v ∈ g.active, g.count v = 0 ∧ ReflTransGen r u v := by
  have hcut : Acyclic fun a b => ReflTransGen r u a ∧ r a b := by
    intro a ha
    obtain ⟨b, hab, -⟩ := Relation.TransGen.head'_iff.mp ha
    exact hacyc a hab.1 (Relation.TransGen.mono (fun _ _ h => h.2) _ _ ha)
  obtain ⟨v, hv, hpath, hsink⟩ := hcut.exists_sink_reachable hu
  have hreach : ReflTransGen r u v :=
    ReflTransGen.mono (fun _ _ h => h.2.2.2) _ _ hpath
  refine ⟨v, hv, ?_, hreach⟩
  by_contra hpos
  obtain ⟨c, hc, hvc⟩ := h.exists_waiting (Nat.pos_of_ne_zero hpos)
  exact hsink c hc ⟨hreach, hr c hc v hv hvc⟩

end Countdown

end OxidizedSystemd.Lib
