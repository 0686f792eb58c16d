import Mathlib.Data.List.Basic
import Mathlib.Data.Int.Notation
import Mathlib.Data.Nat.Notation

/-!
# Three-way comparison

Comparison results as the numbers −1, 0 and 1, over any type with an order.

* `cmpI32`: `Ord::cmp` with the result as a number.
* `cmpI32_self`, `cmpI32_swap`, `cmpI32_le_trans`, `cmpI32_eq_trans`: `cmpI32` is a total preorder
  wherever `compare` is.
* `compare_take_then_length`, `foldr_zip_then_length`: comparing two slices over their common
  length and then by length is the lexicographic order.
* `exists_maximum`: a total preorder has a greatest element in every list.
* `TotalCompare`: the comparison functions that are total preorders; they are closed under
  negation and under breaking the ties of one by another.
* `keepBest_spec`: a loop that keeps the best value so far ends with a greatest one.
* `TotalCompare.perm_eq_zero`: over two orders of one list it ends with values that tie.
-/

namespace OxidizedSystemd.Lib

universe u

variable {α : Type u}

/-- The number of an ordering. -/
def sign : Ordering → ℤ
  | .lt => -1
  | .eq => 0
  | .gt => 1

/-- The comparison of two values as a number. -/
def cmpI32 [Ord α] (a b : α) : ℤ := sign (compare a b)

theorem sign_eq_zero {o : Ordering} : sign o = 0 ↔ o = .eq := by cases o <;> simp [sign]

theorem sign_le_zero {o : Ordering} : sign o ≤ 0 ↔ o.isLE := by cases o <;> simp [sign]

theorem sign_swap (o : Ordering) : sign o.swap = -sign o := by cases o <;> rfl

section Preorder

variable [Ord α] [Std.TransOrd α]

theorem cmpI32_self (a : α) : cmpI32 a a = 0 := sign_eq_zero.mpr Std.ReflCmp.compare_self

theorem cmpI32_swap (a b : α) : cmpI32 b a = -cmpI32 a b := by
  have hswap : compare b a = (compare a b).swap := Std.OrientedCmp.eq_swap
  rw [cmpI32, hswap, sign_swap, cmpI32]

theorem cmpI32_le_trans {a b c : α} (hab : cmpI32 a b ≤ 0) (hbc : cmpI32 b c ≤ 0) :
    cmpI32 a c ≤ 0 :=
  sign_le_zero.mpr (Std.TransCmp.isLE_trans (sign_le_zero.mp hab) (sign_le_zero.mp hbc))

theorem cmpI32_eq_trans {a b c : α} (hab : cmpI32 a b = 0) (hbc : cmpI32 b c = 0) :
    cmpI32 a c = 0 :=
  sign_eq_zero.mpr (Std.TransCmp.eq_trans (sign_eq_zero.mp hab) (sign_eq_zero.mp hbc))

end Preorder

/-- Comparison over the common length, then by length. -/
theorem compare_take_then_length [Ord α] (as bs : List α) :
    (compare (as.take (min as.length bs.length)) (bs.take (min as.length bs.length))).then
      (compare as.length bs.length) = compare as bs := by
  induction as generalizing bs with
  | nil =>
    cases bs with
    | nil => rfl
    | cons b bs =>
      have hlt : compare 0 (bs.length + 1) = Ordering.lt := Nat.compare_eq_lt.mpr (by omega)
      simp [hlt]
  | cons a as ih =>
    cases bs with
    | nil =>
      have hgt : compare (as.length + 1) 0 = Ordering.gt := Nat.compare_eq_gt.mpr (by omega)
      simp [hgt]
    | cons b bs =>
      have hlength : compare (as.length + 1) (bs.length + 1) = compare as.length bs.length := by
        rw [Nat.compare_eq_ite_lt, Nat.compare_eq_ite_lt]
        simp only [Nat.add_lt_add_iff_right]
      rw [List.compare_cons_cons, List.length_cons, List.length_cons, hlength,
        Nat.succ_min_succ, List.take_succ_cons, List.take_succ_cons, List.compare_cons_cons,
        Ordering.then_assoc, ih]

/-- Comparison element by element, up to the first difference, then by length. -/
theorem foldr_zip_then_length [Ord α] (as bs : List α) :
    (as.zip bs).foldr (fun p rest => (compare p.1 p.2).then rest)
      (compare as.length bs.length) = compare as bs := by
  induction as generalizing bs with
  | nil =>
    rw [← compare_take_then_length]
    simp
  | cons a as ih =>
    cases bs with
    | nil =>
      rw [← compare_take_then_length]
      simp
    | cons b bs =>
      have hlength : compare (as.length + 1) (bs.length + 1) = compare as.length bs.length := by
        rw [Nat.compare_eq_ite_lt, Nat.compare_eq_ite_lt]
        simp only [Nat.add_lt_add_iff_right]
      rw [List.zip_cons_cons, List.foldr_cons, List.length_cons, List.length_cons, hlength, ih,
        List.compare_cons_cons]

/-- A relation that is total and transitive has a greatest element in every list. -/
theorem exists_maximum {le : α → α → Prop} (total : ∀ a b, le a b ∨ le b a)
    (trans : ∀ a b c, le a b → le b c → le a c) {as : List α} (h : as ≠ []) :
    ∃ m ∈ as, ∀ a ∈ as, le a m := by
  induction as with
  | nil => exact absurd rfl h
  | cons a as ih =>
    have hrefl : le a a := (total a a).elim id id
    by_cases has : as = []
    · exact ⟨a, List.mem_cons_self, by simpa [has] using hrefl⟩
    · obtain ⟨m, hm, hmax⟩ := ih has
      cases total a m with
      | inl ham =>
        refine ⟨m, List.mem_cons_of_mem a hm, ?_⟩
        intro x hx
        cases hx with
        | head => exact ham
        | tail _ hx => exact hmax x hx
      | inr hma =>
        refine ⟨a, List.mem_cons_self, ?_⟩
        intro x hx
        cases hx with
        | head => exact hrefl
        | tail _ hx => exact trans x m a (hmax x hx) hma

/-! ## Comparison functions -/

/-- A comparison function that is a total preorder. -/
structure TotalCompare (f : α → α → ℤ) : Prop where
  swap : ∀ a b, f b a = -f a b
  le_trans : ∀ a b c, f a b ≤ 0 → f b c ≤ 0 → f a c ≤ 0

namespace TotalCompare

variable {f g : α → α → ℤ}

/-- The comparison of a key. -/
theorem key {β : Type*} [Ord β] [Std.TransOrd β] (k : α → β) :
    TotalCompare fun a b => cmpI32 (k a) (k b) where
  swap a b := cmpI32_swap (k a) (k b)
  le_trans _ _ _ hab hbc := cmpI32_le_trans hab hbc

/-- The comparison by which all values tie. -/
theorem tie : TotalCompare fun _ _ : α => 0 where
  swap _ _ := rfl
  le_trans _ _ _ _ _ := Int.le_refl 0

theorem neg (hf : TotalCompare f) : TotalCompare fun a b => -f a b where
  swap a b := congrArg Neg.neg (hf.swap a b)
  le_trans a b c hab hbc := by
    have hba : f b a ≤ 0 := by rwa [hf.swap a b]
    have hcb : f c b ≤ 0 := by rwa [hf.swap b c]
    have hca := hf.le_trans c b a hcb hba
    rwa [hf.swap a c] at hca

/-- The ties of one comparison are broken by another. -/
theorem andThen (hf : TotalCompare f) (hg : TotalCompare g) :
    TotalCompare fun a b => if f a b = 0 then g a b else f a b where
  swap a b := by
    rw [hf.swap a b, hg.swap a b]
    by_cases h : f a b = 0
    · rw [if_pos h, if_pos (by omega)]
    · rw [if_neg h, if_neg (by omega)]
  le_trans a b c hab hbc := by
    have hacf := hf.le_trans a b c
    have hbaf := hf.le_trans b c a
    have hcbf := hf.le_trans c a b
    have hswapca := hf.swap c a
    have hswapba := hf.swap b a
    have hswapcb := hf.swap c b
    have hacg := hg.le_trans a b c
    -- The first comparison ties on the outer two only if it ties on all three.
    split at hab <;> split at hbc <;> split <;> omega

/-- A condition that does not depend on the values chooses the comparison. -/
theorem ite (c : Prop) [Decidable c] (hf : TotalCompare f) (hg : TotalCompare g) :
    TotalCompare fun a b => if c then f a b else g a b := by
  by_cases h : c
  · simpa only [if_pos h] using hf
  · simpa only [if_neg h] using hg

end TotalCompare

/-- The better of the best value so far and the next one; the first of two that tie. -/
def keepBest (f : α → α → ℤ) (best : Option α) (found : α) : Option α :=
  match best with
  | none => some found
  | some b => if 0 < f found b then some found else some b

section Best

variable {f : α → α → ℤ} {bs : List α} {a b : α}

/-- From a best value so far on, the loop ends with that value or one of the list, and
    with none that is worse than any of them. -/
theorem keepBest_spec_some (hf : TotalCompare f) (as : List α) (b : α) :
    ∃ m, as.foldl (keepBest f) (some b) = some m ∧ (m = b ∨ m ∈ as) ∧ f b m ≤ 0 ∧
      ∀ a ∈ as, f a m ≤ 0 := by
  induction as generalizing b with
  | nil =>
    have hself := hf.swap b b
    exact ⟨b, rfl, Or.inl rfl, by omega, fun a ha => absurd ha List.not_mem_nil⟩
  | cons a as ih =>
    rw [List.foldl_cons, keepBest]
    split
    · rename_i hbetter
      obtain ⟨m, hm, hmem, ham, hmax⟩ := ih a
      have hba : f b a ≤ 0 := by
        rw [hf.swap a b]
        omega
      refine ⟨m, hm, Or.inr ?_, hf.le_trans b a m hba ham, List.forall_mem_cons.mpr ⟨ham, hmax⟩⟩
      rw [List.mem_cons]
      exact hmem
    · rename_i hworse
      obtain ⟨m, hm, hmem, hbm, hmax⟩ := ih b
      have ham := hf.le_trans a b m (by omega) hbm
      exact ⟨m, hm, hmem.imp_right (List.mem_cons_of_mem a), hbm,
        List.forall_mem_cons.mpr ⟨ham, hmax⟩⟩

/-- The loop ends with nothing for the empty list, else with a greatest value of the list. -/
theorem keepBest_spec (hf : TotalCompare f) (as : List α) :
    (as = [] ∧ as.foldl (keepBest f) none = none) ∨
      ∃ m ∈ as, as.foldl (keepBest f) none = some m ∧ ∀ a ∈ as, f a m ≤ 0 := by
  cases as with
  | nil => exact Or.inl ⟨rfl, rfl⟩
  | cons a as =>
    right
    obtain ⟨m, hm, hmem, ham, hmax⟩ := keepBest_spec_some hf as a
    exact ⟨m, List.mem_cons.mpr hmem, hm, List.forall_mem_cons.mpr ⟨ham, hmax⟩⟩

/-- The greatest values that the loop finds in two orders of a list tie. -/
theorem TotalCompare.perm_eq_zero {as : List α} (hf : TotalCompare f) (hperm : as.Perm bs)
    (ha : as.foldl (keepBest f) none = some a) (hb : bs.foldl (keepBest f) none = some b) :
    f a b = 0 := by
  obtain ⟨-, hnone⟩ | ⟨m, hm, hsome, hmax⟩ := keepBest_spec hf as
  · simp [hnone] at ha
  obtain ⟨-, hnone'⟩ | ⟨m', hm', hsome', hmax'⟩ := keepBest_spec hf bs
  · simp [hnone'] at hb
  obtain rfl := Option.some.inj (hsome.symm.trans ha)
  obtain rfl := Option.some.inj (hsome'.symm.trans hb)
  have hle := hmax' m (hperm.mem_iff.mp hm)
  have hge := hmax m' (hperm.mem_iff.mpr hm')
  rw [hf.swap m m'] at hge
  omega

end Best

end OxidizedSystemd.Lib
