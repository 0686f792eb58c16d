import Mathlib.Data.List.Basic

/-!
# Extents on a line

An extent is the pair of its first and its last position. `Packed lo hi xs` says of a
list of extents that none is empty, all lie in `[lo, hi]` and no two meet.

* `Packed.perm`, `Packed.sublist`: the order of the extents does not matter, and some
  may be left out.
* `Packed.cons`: an extent in front of all others.
* `Packed.replace`: extents inside an extent take its place.
* `Packed.join`: two extents next to each other become one.
-/

namespace OxidizedSystemd.Lib

/-- The extents have no position in common. -/
def Apart (a b : ℕ × ℕ) : Prop := a.2 < b.1 ∨ b.2 < a.1

instance (a b : ℕ × ℕ) : Decidable (Apart a b) :=
  inferInstanceAs (Decidable (a.2 < b.1 ∨ b.2 < a.1))

theorem Apart.symm {a b : ℕ × ℕ} (h : Apart a b) : Apart b a := Or.symm h

/-- Extents that are not empty, lie in `[lo, hi]` and do not meet. -/
structure Packed (lo hi : ℕ) (xs : List (ℕ × ℕ)) : Prop where
  bounds : ∀ x ∈ xs, lo ≤ x.1 ∧ x.1 ≤ x.2 ∧ x.2 ≤ hi
  apart : xs.Pairwise Apart

instance (lo hi : ℕ) (xs : List (ℕ × ℕ)) : Decidable (Packed lo hi xs) :=
  decidable_of_iff ((∀ x ∈ xs, lo ≤ x.1 ∧ x.1 ≤ x.2 ∧ x.2 ≤ hi) ∧ xs.Pairwise Apart)
    ⟨fun h => ⟨h.1, h.2⟩, fun h => ⟨h.bounds, h.apart⟩⟩

namespace Packed

variable {lo lo' hi : ℕ} {x : ℕ × ℕ} {xs ys : List (ℕ × ℕ)}

theorem nil : Packed lo hi [] := ⟨fun _ h => absurd h List.not_mem_nil, List.Pairwise.nil⟩

theorem perm (h : Packed lo hi xs) (hperm : xs.Perm ys) : Packed lo hi ys :=
  ⟨fun x hx => h.bounds x (hperm.mem_iff.mpr hx),
    (hperm.pairwise_iff fun hab => Apart.symm hab).mp h.apart⟩

theorem sublist (h : Packed lo hi xs) (hsub : ys.Sublist xs) : Packed lo hi ys :=
  ⟨fun x hx => h.bounds x (hsub.subset hx), h.apart.sublist hsub⟩

theorem append_left (h : Packed lo hi (xs ++ ys)) : Packed lo hi xs :=
  h.sublist (List.sublist_append_left xs ys)

theorem append_right (h : Packed lo hi (xs ++ ys)) : Packed lo hi ys :=
  h.sublist (List.sublist_append_right xs ys)

/-- An extent in front of all others. -/
theorem cons {a b : ℕ} (h : Packed (b + 1) hi xs) (hlo : lo ≤ a) (hab : a ≤ b) (hhi : b ≤ hi) :
    Packed lo hi ((a, b) :: xs) := by
  constructor
  · rw [List.forall_mem_cons]
    refine ⟨⟨hlo, hab, hhi⟩, fun x hx => ?_⟩
    obtain ⟨hx₁, hx₂, hx₃⟩ := h.bounds x hx
    exact ⟨by omega, hx₂, hx₃⟩
  · exact List.pairwise_cons.mpr ⟨fun x hx => Or.inl (h.bounds x hx).1, h.apart⟩

theorem single {a b : ℕ} (hlo : lo ≤ a) (hab : a ≤ b) (hhi : b ≤ hi) : Packed lo hi [(a, b)] :=
  cons nil hlo hab hhi

/-- Extents inside an extent take its place. -/
theorem replace (h : Packed lo hi (x :: xs)) (hys : Packed x.1 x.2 ys) :
    Packed lo hi (ys ++ xs) := by
  obtain ⟨hx, hrest⟩ := List.forall_mem_cons.mp h.bounds
  obtain ⟨hapart, hxs⟩ := List.pairwise_cons.mp h.apart
  constructor
  · intro y hy
    rcases List.mem_append.mp hy with hy | hy
    · obtain ⟨hy₁, hy₂, hy₃⟩ := hys.bounds y hy
      omega
    · exact hrest y hy
  · refine List.pairwise_append.mpr ⟨hys.apart, hxs, fun y hy z hz => ?_⟩
    obtain ⟨hy₁, hy₂, hy₃⟩ := hys.bounds y hy
    rcases hapart z hz with hlt | hlt
    · exact Or.inl (by omega)
    · exact Or.inr (by omega)

/-- Two extents next to each other become one. -/
theorem join {a b c : ℕ} (h : Packed lo hi ((a, b) :: (b + 1, c) :: xs)) :
    Packed lo hi ((a, c) :: xs) := by
  obtain ⟨ha, hbounds⟩ := List.forall_mem_cons.mp h.bounds
  obtain ⟨hb, hrest⟩ := List.forall_mem_cons.mp hbounds
  obtain ⟨hapart, hapart'⟩ := List.pairwise_cons.mp h.apart
  obtain ⟨hapart'', hxs⟩ := List.pairwise_cons.mp hapart'
  constructor
  · exact List.forall_mem_cons.mpr ⟨⟨ha.1, by omega, hb.2.2⟩, hrest⟩
  · refine List.pairwise_cons.mpr ⟨fun z hz => ?_, hxs⟩
    have hz₁ := hapart z (List.mem_cons_of_mem _ hz)
    have hz₂ := hapart'' z hz
    have hz₃ := hrest z hz
    simp only [Apart] at *
    omega

end Packed

end OxidizedSystemd.Lib
