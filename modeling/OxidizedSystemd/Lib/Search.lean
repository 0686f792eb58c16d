import OxidizedSystemd.Lib.Checked
import Mathlib.Data.List.Sort
import Mathlib.Order.Bounds.Basic

/-!
# Searching in order

A search over sorted candidates that stops at the first success finds the least
solution when the solutions of an earlier candidate come before those of a later
one. Nested searches compose.

* `Finds`: a search finds the least element of a set, or nothing when there is none.
* `Finds.findSome?`: a loop over searches.
* `Finds.byField`: a loop over the values of a field, in order.
* `Gives.findSomeM?`: when a loop over searches gives up that may give up.
* `sortDedup`: the candidates, sorted and without repetitions (`sort`, then `dedup`).
-/

namespace OxidizedSystemd.Lib

/-- The result of a search for the least element of `S`. -/
def Finds {α : Type*} [Preorder α] (S : Set α) : Option α → Prop
  | some a => IsLeast S a
  | none => S = ∅

namespace Finds

variable {α β : Type*} [Preorder β]

theorem congr {S T : Set β} {r : Option β} (h : Finds S r) (heq : S = T) : Finds T r :=
  heq ▸ h

theorem none {S : Set β} (h : ∀ b, b ∉ S) : Finds S Option.none :=
  Set.eq_empty_iff_forall_notMem.mpr h

/-- One solution. -/
theorem singleton (b : β) : Finds {b} (some b) := isLeast_singleton

/-- Searches that are made one after the other, until one succeeds. -/
theorem findSome? {L : List α} {f : α → Option β} {T : α → Set β}
    (hL : L.Pairwise fun a a' => ∀ b ∈ T a, ∀ b' ∈ T a', b ≤ b') (h : ∀ a ∈ L, Finds (T a) (f a)) :
    Finds {b | ∃ a ∈ L, b ∈ T a} (L.findSome? f) := by
  induction L with
  | nil =>
    refine none fun b hb => ?_
    obtain ⟨a, ha, -⟩ := hb
    exact absurd ha List.not_mem_nil
  | cons a L ih =>
    have ih := ih hL.of_cons fun a' ha' => h a' (List.mem_cons_of_mem a ha')
    have ha := h a List.mem_cons_self
    rw [List.findSome?_cons]
    cases hfa : f a with
    | some b =>
      rw [hfa] at ha
      refine ⟨⟨a, List.mem_cons_self, ha.1⟩, ?_⟩
      rintro b' ⟨a', ha', hb'⟩
      rcases List.mem_cons.mp ha' with rfl | ha'
      · exact ha.2 hb'
      · exact List.rel_of_pairwise_cons hL ha' b ha.1 b' hb'
    | none =>
      rw [hfa] at ha
      have hempty : ∀ b, b ∉ T a := Set.eq_empty_iff_forall_notMem.mp ha
      refine ih.congr (Set.ext fun b => ?_)
      constructor
      · rintro ⟨a', ha', hb⟩
        exact ⟨a', List.mem_cons_of_mem a ha', hb⟩
      · rintro ⟨a', ha', hb⟩
        rcases List.mem_cons.mp ha' with rfl | ha'
        · exact absurd hb (hempty b)
        · exact ⟨a', ha', hb⟩

/-- A loop over the values of a field, when the order compares the field first: among the
    solutions with the same value, the rest of the search finds the least one. -/
theorem byField [Preorder α] {S : Set β} {L : List α} {f : α → Option β} (field : β → α)
    (hL : L.Pairwise (· < ·)) (hmem : ∀ b ∈ S, field b ∈ L)
    (hmono : ∀ b ∈ S, ∀ b' ∈ S, field b < field b' → b ≤ b')
    (h : ∀ a ∈ L, Finds {b | b ∈ S ∧ field b = a} (f a)) : Finds S (L.findSome? f) := by
  have hordered : L.Pairwise fun a a' => ∀ b ∈ {b | b ∈ S ∧ field b = a},
      ∀ b' ∈ {b | b ∈ S ∧ field b = a'}, b ≤ b' := by
    refine hL.imp fun {a a'} hlt b hb b' hb' => ?_
    obtain ⟨hb, rfl⟩ := hb
    obtain ⟨hb', rfl⟩ := hb'
    exact hmono b hb b' hb' hlt
  refine (findSome? hordered h).congr (Set.ext fun b => ?_)
  constructor
  · rintro ⟨a, -, hb, -⟩
    exact hb
  · exact fun hb => ⟨field b, hmem b hb, hb, rfl⟩

end Finds

/-! ## Candidates -/

section SortDedup

variable {α : Type*} [LinearOrder α]

/-- `Vec::dedup`: one of several equal neighbours is kept. -/
def dedup : List α → List α
  | [] => []
  | [a] => [a]
  | a :: b :: l => if a = b then dedup (b :: l) else a :: dedup (b :: l)

def sortDedup (l : List α) : List α := dedup (l.insertionSort (· ≤ ·))

theorem mem_dedup {l : List α} {x : α} : x ∈ dedup l ↔ x ∈ l := by
  induction l using dedup.induct with
  | case1 => exact Iff.rfl
  | case2 a => exact Iff.rfl
  | case3 b l ih =>
    rw [dedup, if_pos rfl, ih]
    simp
  | case4 a b l hne ih =>
    rw [dedup, if_neg hne, List.mem_cons, ih]
    exact List.mem_cons.symm

theorem pairwise_dedup {l : List α} (h : l.Pairwise (· ≤ ·)) : (dedup l).Pairwise (· < ·) := by
  induction l using dedup.induct with
  | case1 => exact List.Pairwise.nil
  | case2 a => exact List.pairwise_singleton _ a
  | case3 b l ih =>
    rw [dedup, if_pos rfl]
    exact ih h.of_cons
  | case4 a b l hne ih =>
    rw [dedup, if_neg hne, List.pairwise_cons]
    refine ⟨fun x hx => ?_, ih h.of_cons⟩
    have hab : a < b := lt_of_le_of_ne (List.rel_of_pairwise_cons h List.mem_cons_self) hne
    rcases List.mem_cons.mp (mem_dedup.mp hx) with rfl | hx
    · exact hab
    · exact hab.trans_le (List.rel_of_pairwise_cons h.of_cons hx)

@[simp] theorem mem_sortDedup {l : List α} {x : α} : x ∈ sortDedup l ↔ x ∈ l := by
  rw [sortDedup, mem_dedup, List.mem_insertionSort]

theorem pairwise_sortDedup (l : List α) : (sortDedup l).Pairwise (· < ·) :=
  pairwise_dedup (List.pairwise_insertionSort (· ≤ ·) l)

/-- The increasing list with the same elements. -/
theorem eq_sortDedup {l l' : List α} (hlt : l'.Pairwise (· < ·)) (hmem : ∀ x, x ∈ l' ↔ x ∈ l) :
    l' = sortDedup l := by
  have hnodup : ∀ {k : List α}, k.Pairwise (· < ·) → k.Nodup := fun h => h.imp ne_of_lt
  have hperm : l'.Perm (sortDedup l) :=
    (List.perm_ext_iff_of_nodup (hnodup hlt) (hnodup (pairwise_sortDedup l))).mpr fun x =>
      (hmem x).trans mem_sortDedup.symm
  apply hperm.eq_of_pairwise _ hlt (pairwise_sortDedup l)
  intro a b _ _ hab hba
  exact absurd hab (lt_asymm hba)

end SortDedup

/-! ## Searches that may give up -/

section GivesUp

variable {α β : Type*} [LinearOrder α] [Preorder β] {L : List α} {f : α → Option (Option β)}
  {g : α → Option β}

/-- A loop over the values of a field gives up exactly if one of its searches does that is not
    behind a solution. -/
theorem Gives.findSomeM? {S : Set β} {p : α → Prop} (field : β → α) (hL : L.Pairwise (· < ·))
    (hmem : ∀ b ∈ S, field b ∈ L) (hfinds : ∀ a ∈ L, Finds {b | b ∈ S ∧ field b = a} (g a))
    (h : ∀ a ∈ L, Gives (f a) (p a) (g a)) :
    Gives (L.findSomeM? f) (∀ a ∈ L, (∀ b ∈ S, a ≤ field b) → p a) (L.findSome? g) := by
  induction L with
  | nil => exact (Gives.some none).congr (by simp)
  | cons a L ih =>
    have hle : ∀ a' ∈ a :: L, a ≤ a' := by
      intro a' ha'
      rcases List.mem_cons.mp ha' with rfl | ha'
      · exact le_rfl
      · exact (List.rel_of_pairwise_cons hL ha').le
    have hfirst : ∀ b ∈ S, a ≤ field b := fun b hb => hle _ (hmem b hb)
    have hfa := hfinds a List.mem_cons_self
    have ha := h a List.mem_cons_self
    rw [List.findSomeM?_cons, List.findSome?_cons]
    by_cases hp : p a
    case neg =>
      rw [ha.eq_none hp]
      exact Gives.of_not (fun hall => hp (hall a List.mem_cons_self hfirst)) _
    rw [ha.eq_some hp]
    cases hg : g a with
    | some b =>
      -- the searches behind `a` are not made
      rw [hg] at hfa
      show Gives (Option.some (Option.some b)) (∀ a' ∈ a :: L, (∀ b ∈ S, a' ≤ field b) → p a')
        (Option.some b)
      refine (Gives.some (Option.some b)).congr ⟨fun _ a' ha' hbefore => ?_, fun _ => trivial⟩
      obtain ⟨⟨hb, rfl⟩, -⟩ := hfa
      obtain rfl := le_antisymm (hbefore b hb) (hle a' ha')
      exact hp
    | none =>
      rw [hg] at hfa
      have hmem' : ∀ b ∈ S, field b ∈ L := by
        intro b hb
        rcases List.mem_cons.mp (hmem b hb) with heq | hL
        · exact absurd (show b ∈ {b | b ∈ S ∧ field b = a} from ⟨hb, heq⟩)
            (Set.eq_empty_iff_forall_notMem.mp hfa b)
        · exact hL
      refine (ih hL.of_cons hmem' (fun a' ha' => hfinds a' (List.mem_cons_of_mem a ha'))
        fun a' ha' => h a' (List.mem_cons_of_mem a ha')).congr ?_
      rw [List.forall_mem_cons]
      exact ⟨fun hall => ⟨fun _ => hp, hall⟩, fun hall => hall.2⟩

end GivesUp

end OxidizedSystemd.Lib
