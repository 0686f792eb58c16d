import Mathlib.Algebra.Order.BigOperators.Group.List
import Mathlib.Data.List.Nodup
import Mathlib.Data.Set.Card

/-!
# Forests of nodes that name their parents

Every node has at most one parent, which it gives by a key, and some nodes have a key of
their own. A parent lies less deep than its child, so there is no cycle.

* `Below`: a node below a key, reached upwards from parent to parent.
* `walk`: the enumeration from a key downwards, of a recursion with fuel.
* `mem_walk_iff`, `nodup_walk`: with fuel enough it has each node below the key once.
* `countP_walk`: it counts the nodes below the key that have a property.
-/

namespace OxidizedSystemd.Lib

variable {α κ : Type*}

/-- Nodes that name their parents. -/
structure Forest (α κ : Type*) where
  nodes : List α
  nodup : nodes.Nodup
  parent : α → Option κ
  key : α → Option κ
  key_inj : ∀ a ∈ nodes, ∀ b ∈ nodes, ∀ k, key a = some k → key b = some k → a = b
  depth : κ → ℕ
  parent_lt : ∀ a p k, parent a = some p → key a = some k → depth p < depth k

namespace Forest

/-- A node whose parents lead to a key. -/
inductive Below (F : Forest α κ) (k : κ) : α → Prop
  | child {a : α} : a ∈ F.nodes → F.parent a = some k → Below F k a
  | deeper {a c : α} {j : κ} : a ∈ F.nodes → F.parent a = some j → F.key c = some j →
      Below F k c → Below F k a

/-- The nodes that a recursion over the children visits, `fuel` levels deep. -/
def walk (F : Forest α κ) [DecidableEq κ] : ℕ → κ → List α
  | 0, _ => []
  | fuel + 1, k => F.nodes.flatMap fun a =>
    if F.parent a = some k then a :: (F.key a).elim [] (F.walk fuel) else []

/-- No node has a key that lies deeper. -/
def height (F : Forest α κ) : ℕ := ((F.nodes.filterMap F.key).map F.depth).sum

section Below

variable {F : Forest α κ} {j k : κ} {a b c : α}

theorem Below.mem (h : F.Below k a) : a ∈ F.nodes := by
  cases h with
  | child ha _ => exact ha
  | deeper ha _ _ _ => exact ha

theorem Below.trans (h : F.Below j a) (hkey : F.key c = some j) (hc : F.Below k c) :
    F.Below k a := by
  induction h with
  | child ha hparent => exact .deeper ha hparent hkey hc
  | deeper ha hparent hkey' _ ih => exact .deeper ha hparent hkey' ih

/-- The way up ends at a child of the key. -/
theorem Below.exists_child (h : F.Below k a) :
    F.parent a = some k ∨
      ∃ c j, c ∈ F.nodes ∧ F.parent c = some k ∧ F.key c = some j ∧ F.Below j a := by
  induction h with
  | child _ hparent => exact Or.inl hparent
  | @deeper a c j ha hparent hkey hc ih =>
    right
    cases ih with
    | inl hchild => exact ⟨c, j, hc.mem, hchild, hkey, .child ha hparent⟩
    | inr hdeep =>
      obtain ⟨d, i, hd, hdparent, hdkey, hbelow⟩ := hdeep
      exact ⟨d, i, hd, hdparent, hdkey, .deeper ha hparent hkey hbelow⟩

theorem Below.depth_le_parent (h : F.Below j a) (hparent : F.parent a = some k) :
    F.depth j ≤ F.depth k := by
  induction h generalizing k with
  | child _ hchild =>
    rw [Option.some.inj (hchild.symm.trans hparent)]
  | @deeper a c i _ hchild hkey hc ih =>
    obtain rfl := Option.some.inj (hchild.symm.trans hparent)
    cases hc with
    | child _ hcparent => exact Nat.le_of_lt (F.parent_lt c j i hcparent hkey)
    | deeper _ hcparent _ _ =>
      exact Nat.le_trans (ih hcparent) (Nat.le_of_lt (F.parent_lt c _ i hcparent hkey))

theorem Below.depth_lt (h : F.Below k a) (hkey : F.key a = some j) : F.depth k < F.depth j := by
  cases h with
  | child _ hparent => exact F.parent_lt a k j hparent hkey
  | deeper ha hparent hkey' hc =>
    exact Nat.lt_of_le_of_lt (Below.depth_le_parent (.deeper ha hparent hkey' hc) hparent)
      (F.parent_lt a _ j hparent hkey)

/-- A child of a key does not lie below another one. -/
theorem not_below_sibling (ha : F.parent a = some k) (hb : F.parent b = some k)
    (hkey : F.key b = some j) : ¬ F.Below j a := by
  intro h
  have hle := h.depth_le_parent ha
  have hlt := F.parent_lt b k j hb hkey
  omega

/-- A node lies below one child of a key only. -/
theorem Below.child_unique {i j : κ} (hja : F.Below i c) (hjb : F.Below j c) (ha : a ∈ F.nodes)
    (hb : b ∈ F.nodes) (hka : F.parent a = some k) (hkb : F.parent b = some k)
    (hkeya : F.key a = some i) (hkeyb : F.key b = some j) : a = b := by
  induction hja with
  | child _ hparent =>
    cases hjb with
    | child _ hparent' =>
      obtain rfl := Option.some.inj (hparent.symm.trans hparent')
      exact F.key_inj a ha b hb _ hkeya hkeyb
    | @deeper _ d _ _ hparent' hkeyd hd =>
      obtain rfl := Option.some.inj (hparent.symm.trans hparent')
      obtain rfl := F.key_inj a ha d hd.mem _ hkeya hkeyd
      exact absurd hd (not_below_sibling hka hkb hkeyb)
  | @deeper c d _ _ hparent hkeyd hd ih =>
    cases hjb with
    | child _ hparent' =>
      obtain rfl := Option.some.inj (hparent.symm.trans hparent')
      obtain rfl := F.key_inj b hb d hd.mem _ hkeyb hkeyd
      exact absurd hd (not_below_sibling hkb hka hkeya)
    | @deeper _ e _ _ hparent' hkeye he =>
      obtain rfl := Option.some.inj (hparent.symm.trans hparent')
      obtain rfl := F.key_inj d hd.mem e he.mem _ hkeyd hkeye
      exact ih he

variable {fuel : ℕ}

theorem depth_le_height (ha : a ∈ F.nodes) (hkey : F.key a = some j) : F.depth j ≤ F.height :=
  List.single_le_sum (fun _ _ => Nat.zero_le _) _
    (List.mem_map_of_mem (List.mem_filterMap.mpr ⟨a, ha, hkey⟩))

/-- Fuel that is enough for the walk from a key. -/
def Enough (F : Forest α κ) (fuel : ℕ) (k : κ) : Prop := 0 < fuel ∧ F.height < fuel + F.depth k

theorem Enough.child (h : F.Enough (fuel + 1) k) (ha : a ∈ F.nodes) (hparent : F.parent a = some k)
    (hkey : F.key a = some j) : F.Enough fuel j := by
  have hlt := F.parent_lt a k j hparent hkey
  have hle := depth_le_height ha hkey
  have hheight := h.2
  exact ⟨by omega, by omega⟩

theorem enough_of_height_lt (h : F.height < fuel) (k : κ) : F.Enough fuel k :=
  ⟨by omega, by omega⟩

end Below

section Walk

variable {F : Forest α κ} [DecidableEq κ] {k : κ} {a : α} {fuel : ℕ}

theorem mem_walk_succ : a ∈ F.walk (fuel + 1) k ↔
    ∃ c ∈ F.nodes, F.parent c = some k ∧ (a = c ∨ ∃ j, F.key c = some j ∧ a ∈ F.walk fuel j) := by
  rw [walk, List.mem_flatMap]
  apply exists_congr
  intro c
  apply and_congr_right
  intro _
  split
  · rename_i hparent
    rw [List.mem_cons]
    cases F.key c <;> simp [hparent]
  · rename_i hparent
    simp [hparent]

theorem below_of_mem_walk (h : a ∈ F.walk fuel k) : F.Below k a := by
  induction fuel generalizing k with
  | zero => exact absurd h List.not_mem_nil
  | succ fuel ih =>
    obtain ⟨c, hc, hparent, rfl | ⟨j, hkey, hmem⟩⟩ := mem_walk_succ.mp h
    · exact .child hc hparent
    · exact (ih hmem).trans hkey (.child hc hparent)

theorem mem_walk_iff (h : F.Enough fuel k) : a ∈ F.walk fuel k ↔ F.Below k a := by
  refine ⟨below_of_mem_walk, ?_⟩
  intro hbelow
  induction fuel generalizing k with
  | zero => exact absurd h.1 (Nat.lt_irrefl 0)
  | succ fuel ih =>
    rw [mem_walk_succ]
    cases hbelow.exists_child with
    | inl hparent => exact ⟨a, hbelow.mem, hparent, Or.inl rfl⟩
    | inr hdeep =>
      obtain ⟨c, j, hc, hparent, hkey, hj⟩ := hdeep
      exact ⟨c, hc, hparent, Or.inr ⟨j, hkey, ih (h.child hc hparent hkey) hj⟩⟩

theorem nodup_walk (fuel : ℕ) (k : κ) : (F.walk fuel k).Nodup := by
  induction fuel generalizing k with
  | zero => exact List.nodup_nil
  | succ fuel ih =>
    rw [walk, List.nodup_flatMap]
    constructor
    · intro a _
      split
      · rw [List.nodup_cons]
        cases hkey : F.key a with
        | none => exact ⟨List.not_mem_nil, List.nodup_nil⟩
        | some j =>
          refine ⟨fun hmem => ?_, ih j⟩
          exact Nat.lt_irrefl _ ((below_of_mem_walk hmem).depth_lt hkey)
      · exact List.nodup_nil
    · refine F.nodup.pairwise_of_forall_ne ?_
      intro a ha b hb hne x hxa hxb
      -- What is under two different children of the key would have two ways up.
      have hsplit : ∀ c, x ∈ (if F.parent c = some k then c :: (F.key c).elim [] (F.walk fuel)
          else []) → F.parent c = some k ∧ (x = c ∨ ∃ j, F.key c = some j ∧ F.Below j x) := by
        intro c hx
        split at hx
        · rename_i hparent
          refine ⟨hparent, (List.mem_cons.mp hx).imp_right ?_⟩
          intro hrest
          cases hkey : F.key c with
          | none => simp [hkey] at hrest
          | some j => exact ⟨j, rfl, below_of_mem_walk (by simpa [hkey] using hrest)⟩
        · exact absurd hx List.not_mem_nil
      obtain ⟨hka, rfl | ⟨i, hkeya, hxi⟩⟩ := hsplit a hxa
      · obtain ⟨hkb, rfl | ⟨j, hkeyb, hxj⟩⟩ := hsplit b hxb
        · exact hne rfl
        · exact not_below_sibling hka hkb hkeyb hxj
      · obtain ⟨hkb, rfl | ⟨j, hkeyb, hxj⟩⟩ := hsplit b hxb
        · exact not_below_sibling hkb hka hkeya hxi
        · exact hne (hxi.child_unique hxj ha hb hka hkb hkeya hkeyb)

/-- The count over a walk is the number of nodes below the key that have the property. -/
theorem countP_walk (h : F.Enough fuel k) (p : α → Bool) :
    (F.walk fuel k).countP p = {a | F.Below k a ∧ p a = true}.ncard := by
  classical
  have hset : {a | F.Below k a ∧ p a = true} = ↑((F.walk fuel k).filter p).toFinset := by
    ext a
    simp [mem_walk_iff h]
  rw [hset, Set.ncard_coe_finset, List.toFinset_card_of_nodup ((nodup_walk fuel k).filter p),
    List.countP_eq_length_filter]

end Walk

end Forest

/-- A loop that adds a number for each element. -/
theorem foldlM_add {f : ℕ → α → Option ℕ} {g : α → ℕ} {as : List α}
    (h : ∀ a ∈ as, ∀ n, f n a = some (n + g a)) (n : ℕ) :
    as.foldlM f n = some (n + (as.map g).sum) := by
  induction as generalizing n with
  | nil => rfl
  | cons a as ih =>
    obtain ⟨ha, has⟩ := List.forall_mem_cons.mp h
    rw [List.foldlM_cons, ha, List.map_cons, List.sum_cons, ← Nat.add_assoc]
    exact ih has (n + g a)

end OxidizedSystemd.Lib
