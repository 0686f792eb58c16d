import Mathlib.Data.Finite.Prod
import Mathlib.Data.Fintype.Lattice
import Mathlib.Data.List.Pairwise
import Mathlib.Logic.Function.Basic
import Mathlib.Logic.Relation

/-!
# Locks taken in the order of their ranks

Processes that take readers-writer locks one after the other and release them when they
have all of them. A process that reads shares the lock with others that read.

* `sameOrder_of_descending`: sequences with descending ranks agree on the order of the locks
  that they have in common.
* `not_deadlocked_of_descending`: they never deadlock.
-/

namespace OxidizedSystemd.Lib

/-- How a lock is taken. -/
inductive LockMode
  | read | write
  deriving DecidableEq, Repr

variable {ι κ ρ : Type*}

/-- What a process holds, and what it still takes, in this order. -/
structure Holding (κ : Type*) where
  held : List (κ × LockMode) := []
  rest : List (κ × LockMode)

/-- Nobody who holds the lock excludes one who takes it so. -/
def Compatible (s : ι → Holding κ) (l : κ × LockMode) : Prop :=
  ∀ i, ∀ h ∈ (s i).held, h.1 = l.1 → h.2 = .read ∧ l.2 = .read

/-- One step of one process: it takes its next lock, or it has all and releases one. -/
inductive LockStep [DecidableEq ι] (s : ι → Holding κ) : (ι → Holding κ) → Prop
  | take {i : ι} {l : κ × LockMode} {ls : List (κ × LockMode)} (hrest : (s i).rest = l :: ls)
      (hfree : Compatible s l) : LockStep s (Function.update s i ⟨l :: (s i).held, ls⟩)
  | release {i : ι} {before after : List (κ × LockMode)} {l : κ × LockMode}
      (hrest : (s i).rest = []) (hheld : (s i).held = before ++ l :: after) :
      LockStep s (Function.update s i ⟨before ++ after, []⟩)

/-- What processes that take these locks can get to. -/
def Reached [DecidableEq ι] (plans : ι → List (κ × LockMode)) : (ι → Holding κ) → Prop :=
  Relation.ReflTransGen LockStep fun i => ⟨[], plans i⟩

/-- A process can go on, even where locks prefer those that wait for writing. -/
def CanGoOn (s : ι → Holding κ) (i : ι) : Prop :=
  match (s i).rest with
  | [] => (s i).held ≠ []
  | l :: _ => Compatible s l ∧
      (l.2 = .read → ∀ j, ∀ l' ∈ (s j).rest.head?, l'.1 = l.1 → l'.2 = .read)

/-- Somebody is not done, and nobody can go on. -/
def Deadlocked (s : ι → Holding κ) : Prop :=
  (∃ i, (s i).rest ≠ [] ∨ (s i).held ≠ []) ∧ ∀ i, ¬ CanGoOn s i

/-- The locks that two sequences have in common stand in the same order in them. -/
def SameOrder (p q : List (κ × LockMode)) : Prop :=
  ∀ a b, List.Sublist [a, b] (p.map Prod.fst) → a ∈ q.map Prod.fst → b ∈ q.map Prod.fst →
    List.Sublist [a, b] (q.map Prod.fst)

section Ranks

variable [LinearOrder ρ] (rank : κ → ρ)

/-- The ranks of the locks descend. -/
def Descending (p : List (κ × LockMode)) : Prop := p.Pairwise fun l l' => rank l'.1 < rank l.1

variable {rank} {p q : List (κ × LockMode)} {plans : ι → List (κ × LockMode)}
  {s s' : ι → Holding κ}

theorem Descending.sublist_iff (hq : Descending rank q) {a b : κ} (ha : a ∈ q.map Prod.fst)
    (hb : b ∈ q.map Prod.fst) :
    List.Sublist [a, b] (q.map Prod.fst) ↔ rank b < rank a := by
  have hpairs : (q.map Prod.fst).Pairwise fun l l' => rank l' < rank l := List.pairwise_map.mpr hq
  constructor
  · intro hsub
    have hpair := hpairs.sublist hsub
    simpa using hpair
  · intro hlt
    obtain ⟨before, after, hsplit⟩ := List.append_of_mem ha
    rw [hsplit] at hb hpairs ⊢
    obtain ⟨-, hafter, hcross⟩ := List.pairwise_append.mp hpairs
    -- what stands in front of `a` has a higher rank, so `b` stands behind it
    rcases List.mem_append.mp hb with hb | hb
    · exact absurd (hcross b hb a List.mem_cons_self) (lt_asymm hlt)
    · rcases List.mem_cons.mp hb with rfl | hb
      · exact absurd hlt (lt_irrefl _)
      · exact (List.cons_sublist_cons.mpr (List.singleton_sublist.mpr hb)).trans
          (List.sublist_append_right before _)

theorem sameOrder_of_descending (hp : Descending rank p) (hq : Descending rank q) :
    SameOrder p q := by
  intro a b hsub ha hb
  have hmem : a ∈ p.map Prod.fst ∧ b ∈ p.map Prod.fst :=
    ⟨hsub.subset List.mem_cons_self, hsub.subset (by simp)⟩
  exact (hq.sublist_iff ha hb).mpr ((hp.sublist_iff hmem.1 hmem.2).mp hsub)

/-! ## Deadlocks -/

/-- What a process holds has a higher rank than what it takes, which descends. -/
def Ordered (rank : κ → ρ) (s : ι → Holding κ) : Prop :=
  ∀ i, Descending rank (s i).rest ∧ ∀ h ∈ (s i).held, ∀ l ∈ (s i).rest, rank l.1 < rank h.1

theorem Ordered.step [DecidableEq ι] (h : Ordered rank s) (hstep : LockStep s s') :
    Ordered rank s' := by
  intro j
  cases hstep with
  | @take i l ls hrest _ =>
    by_cases hj : j = i
    · subst hj
      obtain ⟨hdesc, habove⟩ := h j
      rw [hrest] at hdesc habove
      obtain ⟨hl, hls⟩ := List.pairwise_cons.mp hdesc
      simp only [Function.update_self]
      refine ⟨hls, fun g hg l' hl' => ?_⟩
      rcases List.mem_cons.mp hg with rfl | hg
      · exact hl l' hl'
      · exact habove g hg l' (List.mem_cons_of_mem l hl')
    · simpa only [Function.update_of_ne hj] using h j
  | @release i before after l _ _ =>
    by_cases hj : j = i
    · subst hj
      simp [Descending]
    · simpa only [Function.update_of_ne hj] using h j

theorem ordered_of_reached [DecidableEq ι] (hplans : ∀ i, Descending rank (plans i))
    (h : Reached plans s) : Ordered rank s := by
  induction h with
  | refl => exact fun i => ⟨hplans i, fun _ hheld => absurd hheld List.not_mem_nil⟩
  | tail _ hstep ih => exact ih.step hstep

/-- The process that waits for the lowest lock, or one that waits for the same lock to write,
    is not blocked: whoever held the lock would wait for a lower one. -/
theorem Ordered.not_deadlocked [Finite ι] (h : Ordered rank s) : ¬ Deadlocked s := by
  rintro ⟨⟨i, hi⟩, hstuck⟩
  have hwaits : ∀ j, (s j).held ≠ [] → (s j).rest ≠ [] := by
    intro j hheld hrest
    apply hstuck j
    rw [CanGoOn, hrest]
    exact hheld
  have : Nonempty {j // (s j).rest ≠ []} := ⟨i, hi.elim id (hwaits i)⟩
  obtain ⟨⟨j, hj⟩, hmin⟩ := Finite.exists_min
    fun j : {j // (s j).rest ≠ []} => rank ((s j).rest.head j.2).1
  obtain ⟨l, ls, hrest⟩ := List.exists_cons_of_ne_nil hj
  have hlow : ∀ k, ∀ l' ∈ (s k).rest.head?, rank l.1 ≤ rank l'.1 := by
    intro k l' hl'
    obtain ⟨ls', hk⟩ := List.head?_eq_some_iff.mp hl'
    have hle := hmin ⟨k, by simp [hk]⟩
    simpa [hrest, hk] using hle
  have hfree : ∀ k, ∀ g ∈ (s k).held, g.1 ≠ l.1 := by
    intro k g hg hgl
    obtain ⟨l', ls', hk⟩ := List.exists_cons_of_ne_nil (hwaits k (List.ne_nil_of_mem hg))
    have hlt : rank l'.1 < rank g.1 := (h k).2 g hg l' (by simp [hk])
    have hle : rank l.1 ≤ rank l'.1 := hlow k l' (by simp [hk])
    rw [hgl] at hlt
    exact absurd hlt (not_lt.mpr hle)
  by_cases hwriter : ∃ k, ∃ l' ∈ (s k).rest.head?, l'.1 = l.1 ∧ l'.2 = .write
  · obtain ⟨k, l', hl', hsame, hwrite⟩ := hwriter
    obtain ⟨ls', hk⟩ := List.head?_eq_some_iff.mp hl'
    apply hstuck k
    rw [CanGoOn, hk]
    refine ⟨fun m g hg hgl => absurd (hgl.trans hsame) (hfree m g hg), fun hread => ?_⟩
    rw [hwrite] at hread
    cases hread
  · apply hstuck j
    rw [CanGoOn, hrest]
    refine ⟨fun m g hg hgl => absurd hgl (hfree m g hg), fun _ k l' hl' hsame => ?_⟩
    cases hmode : l'.2 with
    | read => rfl
    | write => exact absurd ⟨k, l', hl', hsame, hmode⟩ hwriter

theorem not_deadlocked_of_descending [DecidableEq ι] [Finite ι]
    (hplans : ∀ i, Descending rank (plans i)) (h : Reached plans s) : ¬ Deadlocked s :=
  (ordered_of_reached hplans h).not_deadlocked

end Ranks

end OxidizedSystemd.Lib
