import OxidizedSystemd.Lib.SortedMap

/-!
# Values grouped by key

A map from keys to lists of values, filled with `entry(key).or_default()`. What it holds is
what a list of pairs has at each key, in the order of the list.

* `get?_groups`: the values of a key.
* `extendAll_groups`: the map of two lists of pairs from the maps of each.
-/

namespace OxidizedSystemd.Lib

variable {κ ν μ : Type*} [LinearOrder κ]

/-! ## Values at a key -/

/-- The values of the pairs with the key, in their order. -/
def valuesAt (ps : List (κ × ν)) (k : κ) : List ν := (ps.filter fun p => p.1 = k).map Prod.snd

/-- A list, if it has elements. -/
def nonEmpty (vs : List ν) : Option (List ν) := if vs = [] then none else some vs

variable {ps qs : List (κ × ν)} {k : κ} {v : ν}

@[simp] theorem valuesAt_nil (k : κ) : valuesAt ([] : List (κ × ν)) k = [] := rfl

theorem valuesAt_append (ps qs : List (κ × ν)) (k : κ) :
    valuesAt (ps ++ qs) k = valuesAt ps k ++ valuesAt qs k := by
  simp [valuesAt]

theorem valuesAt_cons (p : κ × ν) (ps : List (κ × ν)) (k : κ) :
    valuesAt (p :: ps) k = if p.1 = k then p.2 :: valuesAt ps k else valuesAt ps k := by
  rw [valuesAt, List.filter_cons]
  by_cases h : p.1 = k
  · simp [h, valuesAt]
  · simp [h, valuesAt]

/-- Values that are mapped. -/
theorem valuesAt_map (f : ν → μ) (ps : List (κ × ν)) (k : κ) :
    valuesAt (ps.map fun p => (p.1, f p.2)) k = (valuesAt ps k).map f := by
  induction ps with
  | nil => rfl
  | cons p ps ih =>
    rw [List.map_cons, valuesAt_cons, valuesAt_cons, ih]
    split
    · rfl
    · rfl

/-- A pair has its value at its key behind those of the earlier pairs with that key. -/
theorem getElem?_valuesAt {i : ℕ} (h : ps[i]? = some (k, v)) :
    (valuesAt ps k)[(ps.take i).countP (·.1 = k)]? = some v := by
  induction ps generalizing i with
  | nil => simp at h
  | cons p ps ih =>
    rw [valuesAt_cons]
    cases i with
    | zero =>
      rw [List.getElem?_cons_zero, Option.some_inj] at h
      simp [h]
    | succ i =>
      rw [List.getElem?_cons_succ] at h
      rw [List.take_succ_cons, List.countP_cons]
      by_cases hp : p.1 = k
      · simp [hp, ih h]
      · simp [hp, ih h]

/-- The values at some keys are the values of all pairs with one of the keys. -/
theorem flatMap_valuesAt_perm (f : κ → ν → μ) {keys : List κ} (hkeys : keys.Nodup)
    (ps : List (κ × ν)) :
    (keys.flatMap fun k => (valuesAt ps k).map (f k)).Perm
      ((ps.filter fun p => p.1 ∈ keys).map fun p => f p.1 p.2) := by
  induction keys with
  | nil => simp
  | cons k keys ih =>
    obtain ⟨hk, hkeys⟩ := List.nodup_cons.mp hkeys
    have hhead : (valuesAt ps k).map (f k) =
        ((ps.filter fun p => p.1 ∈ k :: keys).filter fun p => p.1 = k).map fun p => f p.1 p.2 := by
      rw [valuesAt, List.map_map, List.filter_filter]
      have hsame : (ps.filter fun p => decide (p.1 = k) && decide (p.1 ∈ k :: keys)) =
          ps.filter fun p => p.1 = k :=
        List.filter_congr fun p _ => by by_cases h : p.1 = k <;> simp [h]
      rw [hsame]
      refine List.map_congr_left fun p hp => ?_
      rw [← of_decide_eq_true (List.mem_filter.mp hp).2]
      rfl
    have htail : (ps.filter fun p => p.1 ∈ keys) =
        (ps.filter fun p => p.1 ∈ k :: keys).filter fun p => !decide (p.1 = k) := by
      rw [List.filter_filter]
      refine List.filter_congr fun p _ => ?_
      by_cases h : p.1 = k
      · simp [h, hk]
      · simp [h]
    rw [List.flatMap_cons, hhead]
    refine ((ih hkeys).append_left _).trans ?_
    rw [htail, ← List.map_append]
    exact (List.filter_append_perm _ _).map _

theorem mem_valuesAt : v ∈ valuesAt ps k ↔ (k, v) ∈ ps := by
  rw [valuesAt, List.mem_map]
  constructor
  · rintro ⟨p, hp, rfl⟩
    obtain ⟨hmem, hk⟩ := List.mem_filter.mp hp
    rwa [← of_decide_eq_true hk]
  · intro h
    exact ⟨(k, v), List.mem_filter.mpr ⟨h, by simp⟩, rfl⟩

@[simp] theorem nonEmpty_nil : nonEmpty ([] : List ν) = none := rfl

@[simp] theorem nonEmpty_eq_some_iff {vs ws : List ν} :
    nonEmpty vs = some ws ↔ vs = ws ∧ ws ≠ [] := by
  rw [nonEmpty]
  split
  · rename_i h
    simp [h, eq_comm]
  · rename_i h
    constructor
    · intro heq
      cases heq
      exact ⟨rfl, h⟩
    · rintro ⟨rfl, -⟩
      rfl

theorem nonEmpty_inj {vs ws : List ν} : nonEmpty vs = nonEmpty ws ↔ vs = ws := by
  refine ⟨fun h => ?_, fun h => h ▸ rfl⟩
  cases hv : nonEmpty vs with
  | none =>
    have hnil : ∀ us : List ν, nonEmpty us = none → us = [] := by
      intro us hus
      by_contra hne
      rw [nonEmpty, if_neg hne] at hus
      cases hus
    rw [hnil vs hv, hnil ws (h ▸ hv)]
  | some us =>
    obtain ⟨rfl, -⟩ := nonEmpty_eq_some_iff.mp hv
    exact (nonEmpty_eq_some_iff.mp (h ▸ hv)).1.symm

theorem map_nonEmpty (f : ν → μ) (vs : List ν) :
    (nonEmpty vs).map (List.map f) = nonEmpty (vs.map f) := by
  cases vs with
  | nil => rfl
  | cons v vs => rfl

/-! ## Grouping -/

/-- `entry(k).or_default().extend(vs)`. -/
def extendAt (m : SortedMap κ (List ν)) (k : κ) (vs : List ν) : SortedMap κ (List ν) :=
  m.insert k ((m.get? k).getD [] ++ vs)

/-- The values of the pairs by their keys. -/
def groups (ps : List (κ × ν)) : SortedMap κ (List ν) :=
  ps.foldl (fun m p => extendAt m p.1 [p.2]) SortedMap.empty

/-- Each list of values behind those that are there. -/
def extendAll (m n : SortedMap κ (List ν)) : SortedMap κ (List ν) :=
  n.pairs.foldl (fun m p => extendAt m p.1 p.2) m

theorem get?_extendAt (m : SortedMap κ (List ν)) (k k' : κ) (vs : List ν) :
    (extendAt m k vs).get? k' = if k' = k then some ((m.get? k).getD [] ++ vs) else m.get? k' := by
  rw [extendAt, SortedMap.get?_insert]

/-- The values of a key after lists of values have been put behind those that are there. -/
theorem get?_foldl_extendAt (ps : List (κ × List ν)) (m : SortedMap κ (List ν)) (k : κ) :
    (ps.foldl (fun m p => extendAt m p.1 p.2) m).get? k =
      if valuesAt ps k = [] then m.get? k
      else some ((m.get? k).getD [] ++ (valuesAt ps k).flatten) := by
  induction ps generalizing m with
  | nil => rfl
  | cons p ps ih =>
    rw [List.foldl_cons, ih, get?_extendAt, valuesAt_cons]
    by_cases hk : k = p.1
    · subst hk
      by_cases hnil : valuesAt ps p.1 = []
      · simp [hnil]
      · simp [hnil]
    · simp [hk, Ne.symm hk]

/-- The value of a key that pairs give it one after another. -/
def lastAt (ps : List (κ × ν)) (k : κ) : Option ν := (valuesAt ps k).getLast?

theorem lastAt_eq_none_iff : lastAt ps k = none ↔ ∀ v, (k, v) ∉ ps := by
  rw [lastAt, List.getLast?_eq_none_iff, List.eq_nil_iff_forall_not_mem]
  simp only [mem_valuesAt]

theorem mem_of_lastAt (h : lastAt ps k = some v) : (k, v) ∈ ps :=
  mem_valuesAt.mp (List.mem_of_getLast? h)

theorem lastAt_append (ps qs : List (κ × ν)) (k : κ) :
    lastAt (ps ++ qs) k = (lastAt qs k).or (lastAt ps k) := by
  rw [lastAt, valuesAt_append, List.getLast?_append]
  rfl

@[simp] theorem lastAt_nil (k : κ) : lastAt ([] : List (κ × ν)) k = none := rfl

theorem lastAt_cons (p : κ × ν) (ps : List (κ × ν)) (k : κ) :
    lastAt (p :: ps) k = (lastAt ps k).or (if p.1 = k then some p.2 else none) := by
  rw [← List.singleton_append, lastAt_append]
  congr 1
  rw [lastAt, valuesAt_cons]
  split <;> rfl

/-- A value that is set at one key, if there is one. -/
theorem lastAt_toList_map {α : Type*} (key k : κ) (f : α → ν) (o : Option α) :
    lastAt (o.toList.map fun a => (key, f a)) k = if key = k then o.map f else none := by
  cases o with
  | none => simp
  | some a => simp [lastAt_cons]

theorem get?_foldl_insert (ps : List (κ × ν)) (m : SortedMap κ ν) (k : κ) :
    (ps.foldl (fun m p => m.insert p.1 p.2) m).get? k = (lastAt ps k).or (m.get? k) := by
  unfold lastAt
  induction ps generalizing m with
  | nil => rfl
  | cons p ps ih =>
    rw [List.foldl_cons, ih, SortedMap.get?_insert, valuesAt_cons]
    by_cases hk : k = p.1
    · rw [if_pos hk, if_pos hk.symm, List.getLast?_cons]
      cases (valuesAt ps k).getLast? with
      | none => rfl
      | some v => rfl
    · rw [if_neg hk, if_neg (Ne.symm hk)]

/-- A field that some elements of a list set is what the last of them sets. -/
theorem foldl_lastSet {α δ β : Type*} {f : δ → α → δ} {p : δ → β} {sets : α → Option β}
    (h : ∀ d a, p (f d a) = (sets a).getD (p d)) (l : List α) (d : δ) :
    p (l.foldl f d) = (l.filterMap sets).getLast?.getD (p d) := by
  induction l generalizing d with
  | nil => rfl
  | cons a l ih =>
    rw [List.foldl_cons, ih, h]
    cases hset : sets a with
    | none => simp [hset]
    | some b =>
      rw [List.filterMap_cons_some hset, List.getLast?_cons]
      rfl

/-- The values of a key. -/
theorem get?_groups (ps : List (κ × ν)) (k : κ) :
    (groups ps).get? k = nonEmpty (valuesAt ps k) := by
  have hmap : groups ps = (ps.map fun p => (p.1, [p.2])).foldl (fun m p => extendAt m p.1 p.2)
      SortedMap.empty := by
    rw [List.foldl_map]
    rfl
  rw [hmap, get?_foldl_extendAt, valuesAt_map fun v : ν => [v], SortedMap.get?_empty]
  cases valuesAt ps k with
  | nil => rfl
  | cons v vs => simp [nonEmpty, ← List.flatMap_def]

theorem valuesAt_pairs (m : SortedMap κ ν) (k : κ) : valuesAt m.pairs k = (m.get? k).toList := by
  cases h : m.get? k with
  | none =>
    apply List.eq_nil_iff_forall_not_mem.mpr
    intro v hv
    exact SortedMap.notMem_of_get?_eq_none h v (mem_valuesAt.mp hv)
  | some v =>
    have hmem := SortedMap.get?_eq_some_iff.mp h
    have hperm : (valuesAt m.pairs k).Perm (valuesAt ((k, v) :: (m.erase k).pairs) k) :=
      ((SortedMap.perm_of_mem hmem).filter _).map _
    have hrest : valuesAt (m.erase k).pairs k = [] := by
      apply List.eq_nil_iff_forall_not_mem.mpr
      intro w hw
      exact of_decide_eq_true (SortedMap.mem_restrict.mp (mem_valuesAt.mp hw)).2 rfl
    rw [valuesAt_cons, if_pos rfl, hrest] at hperm
    exact List.perm_singleton.mp hperm

/-- Putting the values of one map behind those of another. -/
theorem get?_extendAll (m n : SortedMap κ (List ν)) (k : κ) :
    (extendAll m n).get? k =
      match n.get? k with
      | some vs => some ((m.get? k).getD [] ++ vs)
      | none => m.get? k := by
  rw [extendAll, get?_foldl_extendAt, valuesAt_pairs]
  cases n.get? k with
  | none => rfl
  | some vs => simp

theorem extendAll_groups (ps qs : List (κ × ν)) :
    extendAll (groups ps) (groups qs) = groups (ps ++ qs) := by
  apply SortedMap.ext_get?
  intro k
  rw [get?_extendAll, get?_groups, get?_groups, get?_groups, valuesAt_append]
  cases valuesAt qs k with
  | nil => simp
  | cons v vs =>
    cases valuesAt ps k with
    | nil => rfl
    | cons w ws => rfl

end OxidizedSystemd.Lib
