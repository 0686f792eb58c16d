import Mathlib.Data.Set.Basic

/-!
# Edges and their reverse

Edges of several kinds between points. `mirror j = some k` says that an edge of
kind `j` is the reverse of an edge of kind `k`.

* `twoSidedOn_or_iff`: edges entered with their reverse, together with others
  entered as they are, are two-sided exactly when each of the others has its
  reverse.
-/

namespace OxidizedSystemd.Lib

variable {K α : Type*} (mirror : K → Option K)

/-- The edges of `E` and their reverses. -/
def Mirrored (E : K → α → α → Prop) (j : K) (a b : α) : Prop :=
  E j a b ∨ ∃ k, mirror j = some k ∧ E k b a

/-- Between points of `s`, every edge of a kind that has a reverse has it. -/
def TwoSidedOn (s : Set α) (R : K → α → α → Prop) : Prop :=
  ∀ j k, mirror j = some k → ∀ a ∈ s, ∀ b ∈ s, R k a b → R j b a

/-- A kind and its reverse determine each other. -/
def Involutive : Prop := ∀ i j k, mirror i = some j → mirror j = some k → i = k

variable {mirror} {E O : K → α → α → Prop} {s : Set α} {j k : K} {a b : α}

theorem Mirrored.of_edge (h : E j a b) : Mirrored mirror E j a b := Or.inl h

theorem Mirrored.of_reverse (hj : mirror j = some k) (h : E k a b) : Mirrored mirror E j b a :=
  Or.inr ⟨k, hj, h⟩

theorem Mirrored.mono {F : K → α → α → Prop} (h : Mirrored mirror E j a b)
    (hEF : ∀ k a b, E k a b → F k a b) : Mirrored mirror F j a b := by
  rcases h with h | ⟨k, hk, h⟩
  · exact Mirrored.of_edge (hEF j a b h)
  · exact Mirrored.of_reverse hk (hEF k b a h)

theorem mirrored_or :
    Mirrored mirror (fun k a b => E k a b ∨ O k a b) j a b ↔
      Mirrored mirror E j a b ∨ Mirrored mirror O j a b := by
  constructor
  · rintro ((h | h) | ⟨k, hk, h | h⟩)
    · exact Or.inl (Mirrored.of_edge h)
    · exact Or.inr (Mirrored.of_edge h)
    · exact Or.inl (Mirrored.of_reverse hk h)
    · exact Or.inr (Mirrored.of_reverse hk h)
  · rintro (h | h)
    · exact h.mono fun _ _ _ => Or.inl
    · exact h.mono fun _ _ _ => Or.inr

/-- Mirrored edges are two-sided. -/
theorem Mirrored.reverse (hinv : Involutive mirror) (hj : mirror j = some k)
    (h : Mirrored mirror E k a b) : Mirrored mirror E j b a := by
  rcases h with h | ⟨i, hk, h⟩
  · exact Mirrored.of_reverse hj h
  · have hij : j = i := hinv j k i hj hk
    rw [← hij] at h
    exact Mirrored.of_edge h

/-- Mirrored edges and edges `O` entered on one side only are two-sided
    exactly when every edge of `O` is answered. -/
theorem twoSidedOn_or_iff (hinv : Involutive mirror) :
    TwoSidedOn mirror s (fun k a b => Mirrored mirror E k a b ∨ O k a b) ↔
      ∀ j k, mirror j = some k → ∀ a ∈ s, ∀ b ∈ s, O k a b →
        Mirrored mirror E j b a ∨ O j b a := by
  constructor
  · intro h j k hj a ha b hb hO
    exact h j k hj a ha b hb (Or.inr hO)
  · rintro h j k hj a ha b hb (hE | hO)
    · exact Or.inl (hE.reverse hinv hj)
    · exact h j k hj a ha b hb hO

end OxidizedSystemd.Lib
