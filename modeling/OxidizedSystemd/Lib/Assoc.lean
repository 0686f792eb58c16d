import Mathlib.Algebra.BigOperators.Group.List.Basic
import Mathlib.Data.List.AList

/-!
# Sums over the values of an association list

* `total_of_lookup`: one entry taken out of the sum.
* `total_insert`: the sum after an insertion.
* `total_congr`: lists with the same keys and the same summands have the same sum.
-/

namespace OxidizedSystemd.Lib

variable {α β M : Type*} [AddCommMonoid M]

/-- The sum of `f` over the values of an association list. -/
def total (f : β → M) (m : AList fun _ : α => β) : M := (m.entries.map fun e => f e.2).sum

variable {f : β → M} {m m' : AList fun _ : α => β} {a : α} {b : β}

variable [DecidableEq α]

theorem perm_cons_erase (h : m.lookup a = some b) :
    m.entries.Perm (⟨a, b⟩ :: (m.erase a).entries) := by
  have ha : a ∈ m.keys := AList.mem_keys.mp (AList.lookup_isSome.mp (h ▸ rfl))
  obtain ⟨b', l₁, l₂, _, hsplit, herase⟩ := List.exists_of_kerase ha
  have hb : b' = b := by
    have hmem : (⟨a, b'⟩ : Sigma fun _ : α => β) ∈ m.entries := by
      rw [hsplit]
      exact List.mem_append_right _ List.mem_cons_self
    have := AList.mem_lookup_iff.mpr hmem
    rw [h] at this
    exact (Option.some.inj this).symm
  have herase' : (m.erase a).entries = l₁ ++ l₂ := herase
  rw [herase', hsplit, hb]
  exact List.perm_middle

theorem total_of_lookup (h : m.lookup a = some b) : total f m = f b + total f (m.erase a) := by
  unfold total
  rw [((perm_cons_erase h).map _).sum_eq, List.map_cons, List.sum_cons]

theorem total_insert (a : α) (b : β) : total f (m.insert a b) = f b + total f (m.erase a) := by
  unfold total
  rw [AList.entries_insert, List.map_cons, List.sum_cons]
  rfl

theorem total_erase_of_none (h : m.lookup a = none) : total f (m.erase a) = total f m := by
  unfold total
  have hkeys : a ∉ m.entries.keys := fun ha => AList.lookup_eq_none.mp h (AList.mem_keys.mpr ha)
  rw [show (m.erase a).entries = m.entries from List.kerase_of_notMem_keys hkeys]

theorem total_insert_of_none (h : m.lookup a = none) (b : β) :
    total f (m.insert a b) = f b + total f m := by
  rw [total_insert, total_erase_of_none h]

/-- The sum after an entry has been replaced. -/
theorem total_insert_add (h : m.lookup a = some b) (b' : β) :
    total f (m.insert a b') + f b = total f m + f b' := by
  rw [total_insert, total_of_lookup h, add_comm (f b'), add_right_comm,
    add_comm (total f _) (f b)]

theorem lookup_insert_eq (b : β) (i : α) :
    (m.insert a b).lookup i = if i = a then some b else m.lookup i := by
  split_ifs with hi
  · rw [hi]
    exact AList.lookup_insert m
  · exact AList.lookup_insert_ne hi

theorem lookup_erase_eq (i : α) :
    (m.erase a).lookup i = if i = a then none else m.lookup i := by
  split_ifs with hi
  · rw [hi]; exact AList.lookup_erase _ _
  · exact AList.lookup_erase_ne hi

/-- The sum depends only on the summand found at each key. -/
theorem total_congr (h : ∀ a, (m.lookup a).map f = (m'.lookup a).map f) :
    total f m = total f m' := by
  induction hn : m.entries.length generalizing m m' with
  | zero =>
    have hm : m = ∅ := AList.ext (List.length_eq_zero_iff.mp hn)
    have hm' : m' = ∅ := by
      refine AList.ext (List.eq_nil_iff_forall_not_mem.mpr fun ⟨a, b⟩ hmem => ?_)
      have := h a
      rw [AList.mem_lookup_iff.mpr hmem, hm] at this
      cases this
    rw [hm, hm']
  | succ n ih =>
    obtain ⟨⟨a, b⟩, rest, hentries⟩ := List.exists_cons_of_length_eq_add_one hn
    have hab : m.lookup a = some b :=
      AList.mem_lookup_iff.mpr (by rw [hentries]; exact List.mem_cons_self)
    have hsome := h a
    rw [hab, Option.map_some] at hsome
    obtain ⟨b', hb', hf⟩ := Option.map_eq_some_iff.mp hsome.symm
    rw [total_of_lookup hab, total_of_lookup hb', hf]
    congr 1
    refine ih (fun i => ?_) ?_
    · rw [lookup_erase_eq, lookup_erase_eq]
      split_ifs
      · rfl
      · exact h i
    · have := (perm_cons_erase hab).length_eq
      rw [hn, List.length_cons] at this
      omega

end OxidizedSystemd.Lib
