import Mathlib.Order.Lattice
import Mathlib.Data.List.Pairwise

/-!
# Maps as sorted lists

`BTreeMap<K, V>`: a list of pairs whose keys increase. Iteration is in the order
of the keys; `insert` replaces the value of a key that is there.

* `SortedMap.foldl_insert`: inserting the pairs of a map in their order gives
  the map back.
* `SortedMap.ext_mem`: maps with the same pairs are equal.
* `SortedMap.get?_insert`, `SortedMap.ext_get?`: maps as what they have at each key.
* `SortedMap.mem_foldl_insert`: the pairs after any insertions of different keys.
-/

namespace OxidizedSystemd.Lib

variable {κ ν : Type*} [LinearOrder κ]

/-- A map, as the list of its pairs by increasing key. -/
@[ext] structure SortedMap (κ ν : Type*) [LinearOrder κ] where
  pairs : List (κ × ν)
  sorted : pairs.Pairwise fun a b => a.1 < b.1
  deriving DecidableEq

/-- Insert into a sorted list of pairs. -/
def insertPair (k : κ) (v : ν) : List (κ × ν) → List (κ × ν)
  | [] => [(k, v)]
  | p :: ps =>
    if k < p.1 then (k, v) :: p :: ps
    else if k = p.1 then (k, v) :: ps
    else p :: insertPair k v ps

theorem mem_insertPair {k : κ} {v : ν} {ps : List (κ × ν)} {p : κ × ν}
    (h : p ∈ insertPair k v ps) : p = (k, v) ∨ p ∈ ps := by
  induction ps with
  | nil => exact .inl (List.mem_singleton.mp h)
  | cons q qs ih =>
    unfold insertPair at h
    split at h
    · exact List.mem_cons.mp h
    · split at h
      · exact (List.mem_cons.mp h).imp_right (List.mem_cons_of_mem q)
      · rcases List.mem_cons.mp h with h | h
        · exact .inr (h ▸ List.mem_cons_self)
        · exact (ih h).imp_right (List.mem_cons_of_mem q)

theorem insertPair_sorted (k : κ) (v : ν) {ps : List (κ × ν)}
    (h : ps.Pairwise fun a b => a.1 < b.1) :
    (insertPair k v ps).Pairwise fun a b => a.1 < b.1 := by
  induction ps with
  | nil => exact List.pairwise_singleton _ _
  | cons q qs ih =>
    have hq := List.pairwise_cons.mp h
    unfold insertPair
    split
    · rename_i hlt
      refine List.pairwise_cons.mpr ⟨fun p hp => ?_, h⟩
      rcases List.mem_cons.mp hp with rfl | hp
      · exact hlt
      · exact lt_trans hlt (hq.1 p hp)
    · rename_i hge
      split
      · rename_i heq
        exact List.pairwise_cons.mpr ⟨fun p hp => heq ▸ hq.1 p hp, hq.2⟩
      · rename_i hne
        refine List.pairwise_cons.mpr ⟨fun p hp => ?_, ih hq.2⟩
        rcases mem_insertPair hp with rfl | hp
        · exact lt_of_le_of_ne (not_lt.mp hge) (Ne.symm hne)
        · exact hq.1 p hp

/-- A key above all others goes to the end. -/
theorem insertPair_append {k : κ} {v : ν} {ps : List (κ × ν)} (h : ∀ p ∈ ps, p.1 < k) :
    insertPair k v ps = ps ++ [(k, v)] := by
  induction ps with
  | nil => rfl
  | cons q qs ih =>
    have hq := h q List.mem_cons_self
    rw [insertPair, if_neg (lt_asymm hq), if_neg (ne_of_gt hq),
      ih fun p hp => h p (List.mem_cons_of_mem q hp),
      List.cons_append]

namespace SortedMap

/-- The map without pairs. -/
def empty : SortedMap κ ν := ⟨[], List.Pairwise.nil⟩

/-- `BTreeMap::insert`. -/
def insert (m : SortedMap κ ν) (k : κ) (v : ν) : SortedMap κ ν :=
  ⟨insertPair k v m.pairs, insertPair_sorted k v m.sorted⟩

/-- The value of a key. -/
def get? (m : SortedMap κ ν) (k : κ) : Option ν :=
  (m.pairs.find? fun p => p.1 = k).map Prod.snd

/-- The pairs whose keys meet a condition. -/
def restrict (m : SortedMap κ ν) (p : κ → Bool) : SortedMap κ ν :=
  ⟨m.pairs.filter fun q => p q.1, m.sorted.filter _⟩

/-- `BTreeMap::remove`. -/
def erase (m : SortedMap κ ν) (k : κ) : SortedMap κ ν := m.restrict fun k' => decide (k' ≠ k)

theorem mem_of_get? {m : SortedMap κ ν} {k : κ} {v : ν} (h : m.get? k = some v) :
    (k, v) ∈ m.pairs := by
  obtain ⟨p, hp, rfl⟩ := Option.map_eq_some_iff.mp h
  have hk : p.1 = k := by simpa using List.find?_some hp
  have hmem := List.mem_of_find?_eq_some hp
  rwa [← hk]

theorem notMem_of_get?_eq_none {m : SortedMap κ ν} {k : κ} (h : m.get? k = none) (v : ν) :
    (k, v) ∉ m.pairs := by
  intro hmem
  have hnone := List.find?_eq_none.mp (Option.map_eq_none_iff.mp h) (k, v) hmem
  exact hnone (by simp)

theorem mem_insert {m : SortedMap κ ν} {k : κ} {v : ν} {p : κ × ν}
    (h : p ∈ (m.insert k v).pairs) : p = (k, v) ∨ p ∈ m.pairs := mem_insertPair h

theorem mem_insert_self (m : SortedMap κ ν) (k : κ) (v : ν) : (k, v) ∈ (m.insert k v).pairs := by
  have hmem : ∀ ps : List (κ × ν), (k, v) ∈ insertPair k v ps := by
    intro ps
    induction ps with
    | nil => exact List.mem_cons_self
    | cons q qs ih =>
      unfold insertPair
      split
      · exact List.mem_cons_self
      · split
        · exact List.mem_cons_self
        · exact List.mem_cons_of_mem q ih
  exact hmem m.pairs

theorem mem_restrict {m : SortedMap κ ν} {p : κ → Bool} {q : κ × ν} :
    q ∈ (m.restrict p).pairs ↔ q ∈ m.pairs ∧ p q.1 := List.mem_filter

theorem insertPair_perm (k : κ) (v : ν) {ps : List (κ × ν)}
    (h : ps.Pairwise fun a b => a.1 < b.1) :
    (insertPair k v ps).Perm ((k, v) :: ps.filter fun q => decide (q.1 ≠ k)) := by
  have hkeep : ∀ qs : List (κ × ν), (∀ q ∈ qs, k < q.1) →
      (qs.filter fun q => decide (q.1 ≠ k)) = qs := fun qs hqs =>
    List.filter_eq_self.mpr fun q hq => decide_eq_true (ne_of_gt (hqs q hq))
  induction ps with
  | nil => exact List.Perm.refl _
  | cons q qs ih =>
    have hq := List.pairwise_cons.mp h
    unfold insertPair
    split
    · rename_i hlt
      rw [hkeep (q :: qs) fun r hr => ?_]
      rcases List.mem_cons.mp hr with rfl | hr
      · exact hlt
      · exact lt_trans hlt (hq.1 r hr)
    · split
      · rename_i heq
        rw [List.filter_cons_of_neg (by simp [heq]), hkeep qs fun r hr => heq ▸ hq.1 r hr]
      · rename_i hne
        rw [List.filter_cons_of_pos (by simp [Ne.symm hne])]
        exact ((ih hq.2).cons q).trans (List.Perm.swap _ _ _)

/-- The pairs after an insertion. -/
theorem insert_perm (m : SortedMap κ ν) (k : κ) (v : ν) :
    (m.insert k v).pairs.Perm ((k, v) :: (m.erase k).pairs) := insertPair_perm k v m.sorted

/-- A pair in front of the others. -/
theorem perm_of_mem {m : SortedMap κ ν} {k : κ} {v : ν} (h : (k, v) ∈ m.pairs) :
    m.pairs.Perm ((k, v) :: (m.erase k).pairs) := by
  obtain ⟨as, bs, hsplit⟩ := List.append_of_mem h
  have hsorted := m.sorted
  rw [hsplit] at hsorted
  obtain ⟨-, hbs, hcross⟩ := List.pairwise_append.mp hsorted
  have has : ∀ q ∈ as, decide (q.1 ≠ k) = true := fun q hq =>
    decide_eq_true (ne_of_lt (hcross q hq (k, v) List.mem_cons_self))
  have hbs' : ∀ q ∈ bs, decide (q.1 ≠ k) = true := fun q hq =>
    decide_eq_true (ne_of_gt ((List.pairwise_cons.mp hbs).1 q hq))
  have herase : (m.erase k).pairs = as ++ bs := by
    show m.pairs.filter _ = _
    rw [hsplit, List.filter_append, List.filter_eq_self.mpr has,
      List.filter_cons_of_neg (by simp), List.filter_eq_self.mpr hbs']
  rw [hsplit, herase]
  exact List.perm_middle

/-- A key has one value. -/
theorem eq_of_mem {m : SortedMap κ ν} {k : κ} {v v' : ν} (h : (k, v) ∈ m.pairs)
    (h' : (k, v') ∈ m.pairs) : v = v' := by
  rcases List.mem_cons.mp ((perm_of_mem h).mem_iff.mp h') with heq | hmem
  · exact (Prod.mk.inj heq).2.symm
  · exact absurd rfl (of_decide_eq_true (mem_restrict.mp hmem).2)

theorem foldl_insert_pairs {ps : List (κ × ν)} {m : SortedMap κ ν}
    (h : (m.pairs ++ ps).Pairwise fun a b => a.1 < b.1) :
    (ps.foldl (fun m p => m.insert p.1 p.2) m).pairs = m.pairs ++ ps := by
  induction ps generalizing m with
  | nil => rw [List.foldl_nil, List.append_nil]
  | cons p ps ih =>
    have hinsert : (m.insert p.1 p.2).pairs = m.pairs ++ [p] :=
      insertPair_append fun q hq => (List.pairwise_append.mp h).2.2 q hq p List.mem_cons_self
    have hcons : m.pairs ++ p :: ps = m.pairs ++ [p] ++ ps := by
      rw [List.append_assoc, List.singleton_append]
    rw [List.foldl_cons, ih (by rw [hinsert, ← hcons]; exact h), hinsert, ← hcons]

/-- Inserting the pairs of a map in their order gives the map back. -/
theorem foldl_insert (m : SortedMap κ ν) :
    m.pairs.foldl (fun m p => m.insert p.1 p.2) empty = m := by
  apply SortedMap.ext
  rw [foldl_insert_pairs (by exact m.sorted)]
  rfl

/-- The pairs of a map after an insertion. -/
theorem mem_insert_iff {m : SortedMap κ ν} {k : κ} {v : ν} {p : κ × ν} :
    p ∈ (m.insert k v).pairs ↔ p = (k, v) ∨ (p ∈ m.pairs ∧ p.1 ≠ k) := by
  rw [(insert_perm m k v).mem_iff, List.mem_cons, erase, mem_restrict, decide_eq_true_eq]

/-- Maps with the same pairs are equal. -/
theorem ext_mem {m m' : SortedMap κ ν} (h : ∀ p, p ∈ m.pairs ↔ p ∈ m'.pairs) : m = m' := by
  have hnodup : ∀ n : SortedMap κ ν, n.pairs.Nodup := fun n =>
    n.sorted.imp fun hlt heq => absurd hlt (by rw [heq]; exact lt_irrefl _)
  apply SortedMap.ext
  apply ((List.perm_ext_iff_of_nodup (hnodup m) (hnodup m')).mpr h).eq_of_pairwise _ m.sorted
    m'.sorted
  intro a b _ _ hab hba
  exact absurd hab (lt_asymm hba)

theorem get?_eq_some_iff {m : SortedMap κ ν} {k : κ} {v : ν} :
    m.get? k = some v ↔ (k, v) ∈ m.pairs := by
  constructor
  · exact mem_of_get?
  · intro hmem
    cases h : m.get? k with
    | none => exact absurd hmem (notMem_of_get?_eq_none h v)
    | some v' => rw [eq_of_mem (mem_of_get? h) hmem]

@[simp] theorem get?_empty (k : κ) : (empty : SortedMap κ ν).get? k = none := rfl

/-- The value of a key after an insertion. -/
theorem get?_insert (m : SortedMap κ ν) (k k' : κ) (v : ν) :
    (m.insert k v).get? k' = if k' = k then some v else m.get? k' := by
  apply Option.ext
  intro v'
  rw [get?_eq_some_iff, mem_insert_iff, Prod.mk.injEq]
  split
  · rename_i heq
    simp [heq, eq_comm]
  · rename_i hne
    rw [get?_eq_some_iff]
    simp [hne]

theorem get?_erase (m : SortedMap κ ν) (k k' : κ) :
    (m.erase k).get? k' = if k' = k then none else m.get? k' := by
  apply Option.ext
  intro v
  rw [get?_eq_some_iff, erase, mem_restrict, ← get?_eq_some_iff]
  by_cases hk : k' = k
  · simp [hk]
  · simp [hk]

/-- `get_mut` followed by a change of the value, if there is one. -/
def modify (m : SortedMap κ ν) (k : κ) (f : ν → ν) : SortedMap κ ν :=
  match m.get? k with
  | some v => m.insert k (f v)
  | none => m

theorem get?_modify (m : SortedMap κ ν) (k k' : κ) (f : ν → ν) :
    (m.modify k f).get? k' = if k' = k then (m.get? k).map f else m.get? k' := by
  unfold modify
  cases h : m.get? k with
  | none =>
    by_cases hk : k' = k
    · rw [if_pos hk, hk, h]
      rfl
    · rw [if_neg hk]
  | some v =>
    rw [get?_insert]
    rfl

/-- The map with each value changed. -/
def mapValues {μ : Type*} (m : SortedMap κ ν) (f : ν → μ) : SortedMap κ μ where
  pairs := m.pairs.map fun p => (p.1, f p.2)
  sorted := m.sorted.map _ fun _ _ h => h

theorem get?_mapValues {μ : Type*} (m : SortedMap κ ν) (f : ν → μ) (k : κ) :
    (m.mapValues f).get? k = (m.get? k).map f := by
  rw [get?, get?, mapValues, List.find?_map, Option.map_map, Option.map_map]
  rfl

/-- The keys, in their order. -/
def keys (m : SortedMap κ ν) : List κ := m.pairs.map Prod.fst

theorem mem_keys {m : SortedMap κ ν} {k : κ} : k ∈ m.keys ↔ ∃ v, m.get? k = some v := by
  rw [keys, List.mem_map]
  constructor
  · rintro ⟨p, hp, rfl⟩
    exact ⟨p.2, get?_eq_some_iff.mpr hp⟩
  · rintro ⟨v, hv⟩
    exact ⟨(k, v), get?_eq_some_iff.mp hv, rfl⟩

/-- Maps with the same value at each key are equal. -/
theorem ext_get? {m m' : SortedMap κ ν} (h : ∀ k, m.get? k = m'.get? k) : m = m' := by
  apply ext_mem
  intro p
  rw [← get?_eq_some_iff, ← get?_eq_some_iff, h]

/-- The pairs after inserting pairs with different keys: these, and those of other keys. -/
theorem mem_foldl_insert {m : SortedMap κ ν} {ps : List (κ × ν)}
    (h : ps.Pairwise fun a b => a.1 ≠ b.1) {p : κ × ν} :
    p ∈ (ps.foldl (fun m p => m.insert p.1 p.2) m).pairs ↔
      p ∈ ps ∨ (p ∈ m.pairs ∧ ∀ q ∈ ps, p.1 ≠ q.1) := by
  induction ps generalizing m with
  | nil => simp
  | cons q ps ih =>
    obtain ⟨hq, hps⟩ := List.pairwise_cons.mp h
    rw [List.foldl_cons, ih hps, mem_insert_iff, List.mem_cons, List.forall_mem_cons]
    constructor
    · rintro (hp | ⟨rfl | ⟨hp, hne⟩, hall⟩)
      · exact Or.inl (Or.inr hp)
      · exact Or.inl (Or.inl rfl)
      · exact Or.inr ⟨hp, hne, hall⟩
    · rintro ((rfl | hp) | ⟨hp, hne, hall⟩)
      · exact Or.inr ⟨Or.inl rfl, hq⟩
      · exact Or.inl hp
      · exact Or.inr ⟨Or.inr ⟨hp, hne⟩, hall⟩

end SortedMap

end OxidizedSystemd.Lib
