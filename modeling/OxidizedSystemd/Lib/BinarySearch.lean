import Mathlib.Data.List.Pairwise
import Mathlib.Order.Lattice

/-!
# Binary search

`slice::binary_search_by_key`: the part of the list that may hold the key is halved until one
element is left, and this element is compared.

* `binarySearchByKey_some`: what is found has the key.
* `binarySearchByKey_isSome`: in a list sorted by its keys, a key that is there is found.
-/

namespace OxidizedSystemd.Lib

variable {α κ : Type*} [LinearOrder κ]

/-- The place that is left of the `size` elements from `base` on, after at most `fuel` turns. -/
def searchPlace (key : α → κ) (target : κ) (as : List α) : ℕ → ℕ → ℕ → ℕ
  | 0, base, _ => base
  | fuel + 1, base, size =>
    if size ≤ 1 then base
    else if (as[base + size / 2]?).any fun a => target < key a then
      searchPlace key target as fuel base (size - size / 2)
    else searchPlace key target as fuel (base + size / 2) (size - size / 2)

/-- The index of an element with the key, `none` for an error. -/
def binarySearchByKey (key : α → κ) (target : κ) (as : List α) : Option ℕ :=
  let place := searchPlace key target as as.length 0 as.length
  if (as[place]?).any fun a => key a = target then some place else none

variable {key : α → κ} {target : κ} {as : List α} {fuel base size i : ℕ}

theorem binarySearchByKey_some (h : binarySearchByKey key target as = some i) :
    ∃ a, as[i]? = some a ∧ key a = target := by
  unfold binarySearchByKey at h
  dsimp only at h
  split_ifs at h with hfound
  cases h
  obtain ⟨a, ha, hkey⟩ := (Option.any_eq_true _ _).mp hfound
  exact ⟨a, ha, of_decide_eq_true hkey⟩

/-- The keys of a sorted list do not decrease. -/
theorem key_le_of_le (hsorted : as.Pairwise fun a b => key a ≤ key b) {i j : ℕ} {a b : α}
    (h : i ≤ j) (ha : as[i]? = some a) (hb : as[j]? = some b) : key a ≤ key b := by
  obtain ⟨hi, rfl⟩ := List.getElem?_eq_some_iff.mp ha
  obtain ⟨hj, rfl⟩ := List.getElem?_eq_some_iff.mp hb
  rcases Nat.lt_or_eq_of_le h with hlt | rfl
  · exact List.pairwise_iff_getElem.mp hsorted _ _ hi hj hlt
  · exact le_rfl

/-- An element with the key stays in the part that is left. -/
theorem searchPlace_keeps (hsorted : as.Pairwise fun a b => key a ≤ key b) (hfuel : size ≤ fuel)
    (hlen : base + size ≤ as.length)
    (h : ∃ j a, base ≤ j ∧ j < base + size ∧ as[j]? = some a ∧ key a = target) :
    ∃ a, as[searchPlace key target as fuel base size]? = some a ∧ key a = target := by
  have hone : ∀ {base size}, size ≤ 1 →
      (∃ j a, base ≤ j ∧ j < base + size ∧ as[j]? = some a ∧ key a = target) →
      ∃ a, as[base]? = some a ∧ key a = target := by
    rintro base size hsize ⟨j, a, hle, hlt, ha⟩
    obtain rfl : j = base := by omega
    exact ⟨a, ha⟩
  induction fuel generalizing base size with
  | zero => exact hone (hfuel.trans (Nat.zero_le 1)) h
  | succ fuel ih =>
    rw [searchPlace]
    split_ifs with hsize hpast
    · exact hone hsize h
    · -- the element in the middle is past the key
      refine ih (by omega) (by omega) ?_
      obtain ⟨j, a, hle, hlt, ha, hkey⟩ := h
      obtain ⟨b, hb, hpast⟩ := (Option.any_eq_true _ _).mp hpast
      refine ⟨j, a, hle, ?_, ha, hkey⟩
      by_contra hge
      have hmidle := key_le_of_le hsorted (show base + size / 2 ≤ j by omega) hb ha
      exact absurd ((of_decide_eq_true hpast).trans_le hmidle) (by rw [hkey]; exact lt_irrefl _)
    · refine ih (by omega) (by omega) ?_
      obtain ⟨j, a, hle, hlt, ha, hkey⟩ := h
      by_cases hj : base + size / 2 ≤ j
      · exact ⟨j, a, hj, by omega, ha, hkey⟩
      · -- the element in the middle has the key as well
        have hmid := List.getElem?_eq_getElem (show base + size / 2 < as.length by omega)
        rw [hmid, Option.any_some, decide_eq_true_eq, not_lt] at hpast
        have hmidle := key_le_of_le hsorted (show j ≤ base + size / 2 by omega) ha hmid
        exact ⟨base + size / 2, _, le_rfl, by omega, hmid, le_antisymm hpast (hkey ▸ hmidle)⟩

theorem binarySearchByKey_isSome (hsorted : as.Pairwise fun a b => key a ≤ key b) {a : α}
    (ha : a ∈ as) (hkey : key a = target) : (binarySearchByKey key target as).isSome := by
  obtain ⟨j, hj⟩ := List.mem_iff_getElem?.mp ha
  have hjlen := (List.getElem?_eq_some_iff.mp hj).1
  have hkeeps : ∃ b, as[searchPlace key target as as.length 0 as.length]? = some b ∧
      key b = target :=
    searchPlace_keeps hsorted le_rfl (by omega) ⟨j, a, Nat.zero_le j, by omega, hj, hkey⟩
  obtain ⟨b, hb, hbkey⟩ := hkeeps
  rw [binarySearchByKey, hb, Option.any_some, if_pos (decide_eq_true hbkey)]
  rfl

end OxidizedSystemd.Lib
