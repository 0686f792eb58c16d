import Mathlib.Data.List.Sort

/-!
# Layers

Lists of named values, one list for each layer of a search path. A name of a layer masks that name
in the layers behind it.

* `flatten_eq_sortByName_iff`: when the layers one after another are the masked ones by name.
-/

namespace OxidizedSystemd.Lib

variable {κ ν : Type*} [LinearOrder κ]

/-- `sort_by_key` with the name. -/
def sortByName (entries : List (κ × ν)) : List (κ × ν) :=
  entries.insertionSort fun a b => a.1 ≤ b.1

/-- The values whose names are in no layer before theirs. -/
def maskLayers : List (List (κ × ν)) → List (κ × ν)
  | [] => []
  | layer :: layers => layer ++ (maskLayers layers).filter fun p => p.1 ∉ layer.map Prod.fst

/-- No name is in two layers. -/
def DistinctLayers (layers : List (List (κ × ν))) : Prop :=
  layers.Pairwise fun a b => ∀ p ∈ b, p.1 ∉ a.map Prod.fst

instance total_key : Std.Total fun a b : κ × ν => a.1 ≤ b.1 := ⟨fun a b => le_total a.1 b.1⟩

instance trans_key : IsTrans (κ × ν) fun a b => a.1 ≤ b.1 := ⟨fun _ _ _ => le_trans⟩

theorem maskLayers_sublist (layers : List (List (κ × ν))) :
    (maskLayers layers).Sublist layers.flatten := by
  induction layers with
  | nil => exact List.Sublist.refl []
  | cons layer layers ih =>
    rw [List.flatten_cons]
    exact (List.filter_sublist.trans ih).append_left layer

theorem maskLayers_eq_flatten_iff {layers : List (List (κ × ν))} :
    maskLayers layers = layers.flatten ↔ DistinctLayers layers := by
  induction layers with
  | nil => exact ⟨fun _ => List.Pairwise.nil, fun _ => rfl⟩
  | cons layer layers ih =>
    rw [maskLayers, List.flatten_cons, List.append_cancel_left_eq, DistinctLayers,
      List.pairwise_cons]
    constructor
    · intro h
      have hmask : maskLayers layers = layers.flatten := by
        apply (maskLayers_sublist layers).eq_of_length_le
        rw [← h]
        exact List.length_filter_le _ _
      refine ⟨fun other hother p hp => ?_, ih.mp hmask⟩
      have hmem : p ∈ layers.flatten := List.mem_flatten.mpr ⟨other, hother, hp⟩
      rw [← h] at hmem
      exact of_decide_eq_true (List.mem_filter.mp hmem).2
    · rintro ⟨hlayer, hlayers⟩
      rw [ih.mpr hlayers, List.filter_eq_self]
      intro p hp
      obtain ⟨other, hother, hp⟩ := List.mem_flatten.mp hp
      exact decide_eq_true (hlayer other hother p hp)

/-- Layers one after another are the masked ones by name if the names never decrease and no name is
    in two layers. -/
theorem flatten_eq_sortByName_iff {layers : List (List (κ × ν))} :
    layers.flatten = sortByName (maskLayers layers) ↔
      layers.flatten.Pairwise (fun p q => p.1 ≤ q.1) ∧ DistinctLayers layers := by
  constructor
  · intro h
    have hsorted := List.pairwise_insertionSort (fun p q : κ × ν => p.1 ≤ q.1) (maskLayers layers)
    have hmask : maskLayers layers = layers.flatten := by
      apply (maskLayers_sublist layers).eq_of_length_le
      rw [h, sortByName, List.length_insertionSort]
    rw [← sortByName, ← h] at hsorted
    exact ⟨hsorted, maskLayers_eq_flatten_iff.mp hmask⟩
  · rintro ⟨hsorted, hdistinct⟩
    rw [maskLayers_eq_flatten_iff.mpr hdistinct]
    exact hsorted.insertionSort_eq.symm

/-- Sorting is stable: what comes from the values of one name alone stays in its order. -/
theorem flatMap_sortByName {α : Type*} {f : κ × ν → List α} {name : κ} {entries : List (κ × ν)}
    (h : ∀ p : κ × ν, p.1 ≠ name → f p = []) :
    (sortByName entries).flatMap f = entries.flatMap f := by
  have hinsert : ∀ (p : κ × ν) (sorted : List (κ × ν)),
      (sorted.orderedInsert (fun a b => a.1 ≤ b.1) p).flatMap f = f p ++ sorted.flatMap f := by
    intro p sorted
    induction sorted with
    | nil => rfl
    | cons q sorted ih =>
      rw [List.orderedInsert_cons]
      split
      · rfl
      · rename_i hle
        rw [List.flatMap_cons, List.flatMap_cons, ih]
        by_cases hp : p.1 = name
        · have hq : q.1 ≠ name := by
            rintro rfl
            exact hle (le_of_eq hp)
          rw [h q hq, List.nil_append, List.nil_append]
        · rw [h p hp, List.nil_append, List.nil_append]
  induction entries with
  | nil => rfl
  | cons p entries ih =>
    rw [sortByName, List.insertionSort_cons, hinsert, ← sortByName, ih, List.flatMap_cons]

theorem sortByName_perm (entries : List (κ × ν)) : (sortByName entries).Perm entries :=
  List.perm_insertionSort _ entries

end OxidizedSystemd.Lib
