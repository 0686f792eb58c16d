import OxidizedSystemd.Lib.Acyclic
import Mathlib.Data.List.Chain
import Mathlib.Data.List.Nodup

/-!
# Circles found by a depth-first search

The path of a depth-first search is a list without repetitions along the edges
of a relation. A search that comes back to an element of its path has found a
circle: the path from that element on.

* `PathTo`: a path whose end has an edge to an element.
* `PathTo.push`, `PathTo.circle`: what a search does with it.
* `Circle.closes`: a circle is a cycle, closed by the edge from its last element
  to its first one.
-/

namespace OxidizedSystemd.Lib

open Relation (TransGen ReflTransGen)

variable {α : Type*} {r s : α → α → Prop}

/-- `path` is a path without repetitions, and its end, if it has one, has an edge to `a`. -/
structure PathTo (r : α → α → Prop) (path : List α) (a : α) : Prop where
  nodup : path.Nodup
  chain : (path ++ [a]).IsChain r

/-- A closed path without repetitions. -/
structure Circle (r : α → α → Prop) (c : List α) : Prop where
  ne_nil : c ≠ []
  nodup : c.Nodup
  closed : (c ++ [c.head ne_nil]).IsChain r

theorem pathTo_nil (a : α) : PathTo r [] a := ⟨List.nodup_nil, List.IsChain.singleton a⟩

theorem PathTo.push {path : List α} {a b : α} (h : PathTo r path a) (ha : a ∉ path) (hab : r a b) :
    PathTo r (path ++ [a]) b where
  nodup := h.nodup.append (List.nodup_singleton a) (List.disjoint_singleton.mpr ha)
  chain := by
    rw [List.append_assoc, List.singleton_append, List.isChain_append_cons_cons]
    exact ⟨h.chain, hab, List.IsChain.singleton b⟩

/-- An edge back to the path closes the circle that starts there. -/
theorem PathTo.circle [DecidableEq α] {path : List α} {a : α} (h : PathTo r path a)
    (ha : a ∈ path) : Circle r (path.drop (path.idxOf a)) := by
  obtain ⟨front, back, rfl, hfront⟩ := List.eq_append_cons_of_mem ha
  have hdrop : (front ++ a :: back).drop ((front ++ a :: back).idxOf a) = a :: back := by
    rw [List.idxOf_append_of_notMem hfront, List.idxOf_cons_self, Nat.add_zero, List.drop_left]
  rw [hdrop]
  refine ⟨List.cons_ne_nil _ _, (List.nodup_append.mp h.nodup).2.1, ?_⟩
  have hchain := h.chain
  rw [List.append_assoc] at hchain
  exact hchain.right_of_append

/-- The last element of a circle has an edge to the first, which leads back to the last. -/
theorem Circle.closes {c : List α} (h : Circle r c) :
    r (c.getLast h.ne_nil) (c.head h.ne_nil) ∧
      ReflTransGen r (c.head h.ne_nil) (c.getLast h.ne_nil) := by
  constructor
  · exact h.closed.rel_getLast_head_of_append h.ne_nil (List.cons_ne_nil _ _)
  · exact List.relationReflTransGen_of_exists_isChain c h.closed.left_of_append h.ne_nil

/-- A circle stays one when its own edges stay. -/
theorem Circle.imp {c : List α} (h : Circle r c)
    (hrs : ∀ a ∈ c, ∀ b ∈ c, r a b → s a b) : Circle s c where
  ne_nil := h.ne_nil
  nodup := h.nodup
  closed := by
    have hmem : ∀ a, a ∈ c ++ [c.head h.ne_nil] → a ∈ c := by
      intro a ha
      rcases List.mem_append.mp ha with ha | ha
      · exact ha
      · exact List.mem_singleton.mp ha ▸ List.head_mem _
    exact h.closed.imp_of_mem_imp fun a b ha hb => hrs a (hmem a ha) b (hmem b hb)

end OxidizedSystemd.Lib
