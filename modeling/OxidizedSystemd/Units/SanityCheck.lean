import OxidizedSystemd.Units.Table
import OxidizedSystemd.Lib.Circle
import Mathlib.Algebra.Order.BigOperators.Group.Finset

/-!
# The search for ordering cycles

Model of `sanity_check_dependencies` in `unitset_manipulation/sanity_check.rs`.

* `searchBackedge`, `findCycleFrom`: the two depth-first searches.
* `sanityCheckDependencies`: the loop over the units that are not finished.
* `sanityCheck_spec`: it terminates and reports disjoint circles, and when it
  reports none the ordering graph is acyclic.

A hash set is iterated in some order, a parameter of the model (`IterOrder`).
`visited_set` of `find_cycle_dfs` holds the elements of `visited` throughout;
here there is only the list.
-/

namespace OxidizedSystemd.Units

open OxidizedSystemd.Lib
open Relation (TransGen ReflTransGen)

variable {t : UnitTable}

/-- `finished_ids` and `not_finished_ids`. -/
structure CheckState where
  finished : Finset UnitId
  notFinished : List UnitId

/-- `finished_ids.insert(id); not_finished_ids.remove(id)`. -/
def CheckState.finish (s : CheckState) (id : UnitId) : CheckState where
  finished := insert id s.finished
  notFinished := s.notFinished.filter (· ≠ id)

/-- The order in which a hash set is iterated, by what it holds. -/
structure IterOrder where
  order : List UnitId → List UnitId
  perm : ∀ l, (order l).Perm l

/-! ## The searches -/

/-- The number of units that are not visited and of their edges. -/
def searchMeasure (t : UnitTable) (visited : List UnitId) : ℕ :=
  ∑ id ∈ t.ids.toFinset \ visited.toFinset, ((t.deps id).before.length + 1)

theorem searchMeasure_push {visited : List UnitId} {id : UnitId} (hload : id ∈ t.ids)
    (hid : id ∉ visited) :
    searchMeasure t (visited ++ [id]) + (t.deps id).before.length < searchMeasure t visited := by
  have hmem : id ∈ t.ids.toFinset \ visited.toFinset := by
    rw [Finset.mem_sdiff, List.mem_toFinset, List.mem_toFinset]
    exact ⟨hload, hid⟩
  have hsum := Finset.add_sum_erase _ (fun id => (t.deps id).before.length + 1) hmem
  have hset : t.ids.toFinset \ (visited ++ [id]).toFinset =
      (t.ids.toFinset \ visited.toFinset).erase id := by
    ext x
    simp only [Finset.mem_sdiff, Finset.mem_erase, List.mem_toFinset, List.mem_append,
      List.mem_singleton]
    tauto
  rw [searchMeasure, searchMeasure, hset]
  omega

mutual

/-- `search_backedge` (lines 243–286). The result is the circle of `CirclesFound`, if any. -/
def searchBackedge (t : UnitTable) (visited : List UnitId) (s : CheckState) (id : UnitId) :
    CheckState × Option (List UnitId) :=
  if id ∈ s.finished then (s, none)
  else if _hload : id ∈ t.ids then
    if _hid : id ∈ visited then
      let circle := visited.drop (visited.idxOf id)
      (circle.foldl CheckState.finish s, some circle)
    else
      match searchBefore t (visited ++ [id]) s (t.deps id).before with
      | (s, some circle) => (s, some circle)
      | (s, none) => (s.finish id, none)
  else (s, none)
termination_by searchMeasure t visited
decreasing_by exact searchMeasure_push _hload _hid

/-- The loop over `before` in `search_backedge` (lines 270–281). -/
def searchBefore (t : UnitTable) (visited : List UnitId) (s : CheckState) :
    List UnitId → CheckState × Option (List UnitId)
  | [] => (s, none)
  | next :: rest =>
    if next ∈ t.ids then
      match searchBackedge t visited s next with
      | (s, some circle) => (s, some circle)
      | (s, none) => searchBefore t visited s rest
    else searchBefore t visited s rest
termination_by nexts => searchMeasure t visited + nexts.length

end

mutual

/-- `find_cycle_dfs` (lines 196–231), with the units it may enter. -/
def findCycleDfs (t : UnitTable) (notFinished visited : List UnitId) (id : UnitId) :
    Option (List UnitId) :=
  if _hid : id ∈ visited then some (visited.drop (visited.idxOf id))
  else if _hload : id ∈ notFinished ∧ id ∈ t.ids then
    findCycleBefore t notFinished (visited ++ [id]) (t.deps id).before
  else none
termination_by searchMeasure t visited
decreasing_by exact searchMeasure_push _hload.2 _hid

/-- The loop over `before` in `find_cycle_dfs` (lines 218–226). -/
def findCycleBefore (t : UnitTable) (notFinished visited : List UnitId) :
    List UnitId → Option (List UnitId)
  | [] => none
  | next :: rest =>
    if next ∈ notFinished ∧ next ∈ t.ids then
      match findCycleDfs t notFinished visited next with
      | some cycle => some cycle
      | none => findCycleBefore t notFinished visited rest
    else findCycleBefore t notFinished visited rest
termination_by nexts => searchMeasure t visited + nexts.length

end

/-- `find_cycle_from` (lines 180–194). -/
def findCycleFrom (t : UnitTable) (notFinished : List UnitId) (start : UnitId) :
    Option (List UnitId) := findCycleDfs t notFinished [] start

/-! ## The loop -/

/-- The loaded units in `after` that are not finished (lines 111–123). -/
def inDegree (t : UnitTable) (finished : Finset UnitId) (id : UnitId) : ℕ :=
  ((t.deps id).after.filter fun dep => dep ∉ finished ∧ dep ∈ t.ids).length

/-- The loop of `sanity_check_dependencies` (lines 101–169) for at most `fuel` turns. `none` if it
    takes more of them, or panics where it takes a unit from an empty set. -/
def sanityLoop (t : UnitTable) (ord : IterOrder) : ℕ → CheckState → List (List UnitId) →
    Option (List (List UnitId))
  | 0, _, _ => none
  | fuel + 1, s, circles =>
    if s.notFinished = [] then some circles
    else
      match (ord.order s.notFinished).find? fun id => inDegree t s.finished id = 0 with
      | some root =>
        match searchBackedge t [] s root with
        | (s, some circle) => sanityLoop t ord fuel s (circles ++ [circle])
        | (s, none) => sanityLoop t ord fuel s circles
      | none =>
        match (ord.order s.notFinished).head? with
        | none => none
        | some arbitrary =>
          match findCycleFrom t s.notFinished arbitrary with
          | some cycle => some (circles ++ [cycle])
          | none => sanityLoop t ord fuel (s.finish arbitrary) circles

/-- `sanity_check_dependencies` (lines 90–176): the circles of `CirclesFound`, none of them for
    `Ok(())`. Every turn but the last finishes a unit. -/
def sanityCheckDependencies (t : UnitTable) (ord : IterOrder) : Option (List (List UnitId)) :=
  sanityLoop t ord (t.ids.length + 1) ⟨∅, t.ids⟩ []

/-! ## What the searches find -/

/-- `a` is ordered before `b`, and both are loaded. -/
def Before (t : UnitTable) (a b : UnitId) : Prop :=
  a ∈ t.ids ∧ b ∈ t.ids ∧ b ∈ (t.deps a).before

/-- `a` is on no ordering cycle. -/
def OffCycles (t : UnitTable) (a : UnitId) : Prop := ¬ TransGen (Before t) a a

/-- The two sets of the check are the two parts of the table. -/
structure CheckState.Split (t : UnitTable) (s : CheckState) : Prop where
  nodup : s.notFinished.Nodup
  mem_iff : ∀ {a}, a ∈ s.notFinished ↔ a ∈ t.ids ∧ a ∉ s.finished

theorem CheckState.Split.finish {s : CheckState} (h : s.Split t) (id : UnitId) :
    (s.finish id).Split t where
  nodup := h.nodup.filter _
  mem_iff {a} := by
    change a ∈ s.notFinished.filter (· ≠ id) ↔ a ∈ t.ids ∧ a ∉ insert id s.finished
    rw [List.mem_filter, decide_eq_true_iff, h.mem_iff, Finset.mem_insert, not_or, and_assoc]
    exact and_congr_right fun _ => and_comm

theorem CheckState.Split.foldl_finish {s : CheckState} (h : s.Split t) (ids : List UnitId) :
    (ids.foldl CheckState.finish s).Split t := by
  induction ids generalizing s with
  | nil => exact h
  | cons id ids ih => exact ih (h.finish id)

theorem mem_foldl_finish {s : CheckState} {ids : List UnitId} {a : UnitId} :
    a ∈ (ids.foldl CheckState.finish s).finished ↔ a ∈ ids ∨ a ∈ s.finished := by
  induction ids generalizing s with
  | nil => exact (or_iff_right List.not_mem_nil).symm
  | cons id ids ih =>
    rw [List.foldl_cons, ih, List.mem_cons]
    change _ ∨ a ∈ insert id s.finished ↔ _
    rw [Finset.mem_insert, or_assoc, or_left_comm]

/-- A search that found no circle. Only units off the path were finished, none of them on a cycle
    unless one of the finished units was before. -/
structure SearchOk (t : UnitTable) (visited : List UnitId) (s s' : CheckState)
    (targets : List UnitId) : Prop where
  split : s'.Split t
  mono : s.finished ⊆ s'.finished
  fresh : ∀ a ∈ s'.finished, a ∈ s.finished ∨ a ∉ visited
  done : ∀ a ∈ targets, a ∈ t.ids → a ∈ s'.finished
  offCycles : (∀ a ∈ s.finished, OffCycles t a) → ∀ a ∈ s'.finished, OffCycles t a

/-- A search that found a circle, of units that were not finished and now are. -/
structure SearchErr (t : UnitTable) (s s' : CheckState) (circle : List UnitId) : Prop where
  split : s'.Split t
  mono : s.finished ⊆ s'.finished
  isCircle : Circle (Before t) circle
  loaded : ∀ a ∈ circle, a ∈ t.ids
  fresh : ∀ a ∈ circle, a ∉ s.finished
  done : ∀ a ∈ circle, a ∈ s'.finished

/-- What a search from `visited` over `targets` comes to. -/
def Searched (t : UnitTable) (visited : List UnitId) (s : CheckState) (targets : List UnitId) :
    CheckState × Option (List UnitId) → Prop
  | (s', none) => SearchOk t visited s s' targets
  | (s', some circle) => SearchErr t s s' circle

/-- The path of a search: its units are loaded and not finished. -/
structure OnPath (t : UnitTable) (visited : List UnitId) (s : CheckState) (id : UnitId) :
    Prop where
  path : PathTo (Before t) visited id
  loaded : ∀ a ∈ visited, a ∈ t.ids
  open_ : ∀ a ∈ visited, a ∉ s.finished

/-- The loop over the targets, given what the search from one of them comes to. -/
theorem searchBefore_spec {visited : List UnitId}
    (hsearch : ∀ s id, s.Split t → OnPath t visited s id →
      Searched t visited s [id] (searchBackedge t visited s id)) (targets : List UnitId) :
    ∀ s, s.Split t → (∀ x ∈ targets, x ∈ t.ids → OnPath t visited s x) →
      Searched t visited s targets (searchBefore t visited s targets) := by
  induction targets with
  | nil =>
    intro s hs _
    rw [searchBefore]
    exact ⟨hs, Finset.Subset.refl _, fun a ha => .inl ha, fun a ha => absurd ha List.not_mem_nil,
      fun h => h⟩
  | cons next rest ih =>
    intro s hs hpath
    rw [searchBefore]
    split_ifs with hload
    · have hnext := hsearch s next hs (hpath next List.mem_cons_self hload)
      cases hres : searchBackedge t visited s next with
      | mk s' res =>
        rw [hres] at hnext
        cases res with
        | some circle => exact hnext
        | none =>
          have hok : SearchOk t visited s s' [next] := hnext
          have hrest := ih s' hok.split fun x hx hxload => by
            have hx := hpath x (List.mem_cons_of_mem _ hx) hxload
            refine ⟨hx.path, hx.loaded, fun a ha hfin => ?_⟩
            exact (hok.fresh a hfin).elim (hx.open_ a ha) (fun hnot => hnot ha)
          dsimp only
          cases hres' : searchBefore t visited s' rest with
          | mk s'' res' =>
            rw [hres'] at hrest
            cases res' with
            | some circle =>
              have herr : SearchErr t s' s'' circle := hrest
              exact ⟨herr.split, hok.mono.trans herr.mono, herr.isCircle, herr.loaded,
                fun a ha hfin => herr.fresh a ha (hok.mono hfin), herr.done⟩
            | none =>
              have hok' : SearchOk t visited s' s'' rest := hrest
              refine ⟨hok'.split, hok.mono.trans hok'.mono, fun a ha => ?_, fun a ha hal => ?_,
                fun h => hok'.offCycles (hok.offCycles h)⟩
              · exact (hok'.fresh a ha).elim (hok.fresh a) .inr
              · rcases List.mem_cons.mp ha with rfl | ha
                · exact hok'.mono (hok.done a List.mem_cons_self hal)
                · exact hok'.done a ha hal
    · have hrest := ih s hs fun x hx => hpath x (List.mem_cons_of_mem _ hx)
      cases hres : searchBefore t visited s rest with
      | mk s' res =>
        rw [hres] at hrest
        cases res with
        | some circle => exact hrest
        | none =>
          have hok : SearchOk t visited s s' rest := hrest
          refine ⟨hok.split, hok.mono, hok.fresh, fun a ha hal => ?_, hok.offCycles⟩
          rcases List.mem_cons.mp ha with rfl | ha
          · exact absurd hal hload
          · exact hok.done a ha hal

/-- A unit whose successors are finished and off cycles is off cycles itself. -/
theorem SearchOk.finish {visited : List UnitId} {s s' : CheckState} {id : UnitId}
    (h : SearchOk t (visited ++ [id]) s s' (t.deps id).before) (hid : id ∉ visited) :
    SearchOk t visited s (s'.finish id) [id] where
  split := h.split.finish id
  mono := h.mono.trans (Finset.subset_insert _ _)
  fresh a ha := by
    rcases Finset.mem_insert.mp ha with rfl | ha
    · exact .inr hid
    · exact (h.fresh a ha).imp_right fun hnot hmem => hnot (List.mem_append_left _ hmem)
  done a ha _ := Finset.mem_insert.mpr (.inl (List.mem_singleton.mp ha))
  offCycles hoff a ha := by
    have hold := h.offCycles hoff
    rcases Finset.mem_insert.mp ha with rfl | ha
    · intro hcycle
      obtain ⟨b, hab, hb⟩ := exists_succ_on_cycle hcycle
      exact hold b (h.done b hab.2.2 hab.2.1) hb
    · exact hold a ha

theorem searchBackedge_spec {visited : List UnitId} :
    ∀ s id, s.Split t → OnPath t visited s id →
      Searched t visited s [id] (searchBackedge t visited s id) := by
  -- the induction is on the units that are not on the path
  induction hm : searchMeasure t visited using Nat.strong_induction_on generalizing visited with
  | _ m ih =>
    intro s id hs hpath
    have hsame : (id ∈ t.ids → id ∈ s.finished) → SearchOk t visited s s [id] := fun hdone =>
      ⟨hs, Finset.Subset.refl _, fun a ha => .inl ha,
        fun a ha hload => List.mem_singleton.mp ha ▸ hdone (List.mem_singleton.mp ha ▸ hload),
        fun h => h⟩
    rw [searchBackedge]
    split_ifs with hfin hload hid
    · exact hsame fun _ => hfin
    · have hmem : ∀ a ∈ visited.drop (visited.idxOf id), a ∈ visited :=
        fun a ha => List.mem_of_mem_drop ha
      exact ⟨hs.foldl_finish _, fun a ha => mem_foldl_finish.mpr (.inr ha), hpath.path.circle hid,
        fun a ha => hpath.loaded a (hmem a ha), fun a ha => hpath.open_ a (hmem a ha),
        fun a ha => mem_foldl_finish.mpr (.inl ha)⟩
    · have hless := searchMeasure_push hload hid
      have hrec := @ih (searchMeasure t (visited ++ [id])) (by omega) (visited ++ [id]) rfl
      have hloop := searchBefore_spec hrec (t.deps id).before s hs fun x hx hxload => by
        have hmem : ∀ {a}, a ∈ visited ++ [id] → a ∈ visited ∨ a = id := fun ha =>
          (List.mem_append.mp ha).imp_right List.mem_singleton.mp
        refine ⟨hpath.path.push hid ⟨hload, hxload, hx⟩, fun a ha => ?_, fun a ha => ?_⟩
        · exact (hmem ha).elim (hpath.loaded a) (fun h => h ▸ hload)
        · exact (hmem ha).elim (hpath.open_ a) (fun h => h ▸ hfin)
      cases hres : searchBefore t (visited ++ [id]) s (t.deps id).before with
      | mk s' res =>
        rw [hres] at hloop
        cases res with
        | some circle => exact hloop
        | none => exact SearchOk.finish hloop hid
    · exact hsame fun h => absurd h hload

/-! ## What the search for a cycle finds -/

theorem findCycleBefore_some {nf visited : List UnitId} {targets cycle : List UnitId}
    (h : findCycleBefore t nf visited targets = some cycle) :
    ∃ x ∈ targets, x ∈ nf ∧ x ∈ t.ids ∧ findCycleDfs t nf visited x = some cycle := by
  induction targets with
  | nil =>
    rw [findCycleBefore] at h
    cases h
  | cons next rest ih =>
    rw [findCycleBefore] at h
    split_ifs at h with hnext
    · cases hres : findCycleDfs t nf visited next with
      | some c =>
        rw [hres] at h
        exact ⟨next, List.mem_cons_self, hnext.1, hnext.2, hres.trans h⟩
      | none =>
        rw [hres] at h
        obtain ⟨x, hx, hrest⟩ := ih h
        exact ⟨x, List.mem_cons_of_mem _ hx, hrest⟩
    · obtain ⟨x, hx, hrest⟩ := ih h
      exact ⟨x, List.mem_cons_of_mem _ hx, hrest⟩

theorem findCycleBefore_none {nf visited targets : List UnitId}
    (h : findCycleBefore t nf visited targets = none) {x : UnitId} (hx : x ∈ targets)
    (hnf : x ∈ nf) (hload : x ∈ t.ids) : findCycleDfs t nf visited x = none := by
  induction targets with
  | nil => exact absurd hx List.not_mem_nil
  | cons next rest ih =>
    rw [findCycleBefore] at h
    rcases List.mem_cons.mp hx with rfl | hx
    · rw [if_pos ⟨hnf, hload⟩] at h
      cases hres : findCycleDfs t nf visited x with
      | some c =>
        rw [hres] at h
        cases h
      | none => rfl
    · refine ih ?_ hx
      split_ifs at h
      · cases hres : findCycleDfs t nf visited next with
        | some c =>
          rw [hres] at h
          cases h
        | none =>
          rw [hres] at h
          exact h
      · exact h

/-- A cycle that the search reports is a circle of units that are not finished. -/
theorem findCycleDfs_some {nf visited : List UnitId} :
    ∀ {id cycle}, PathTo (Before t) visited id → (∀ a ∈ visited, a ∈ nf) →
      findCycleDfs t nf visited id = some cycle →
      Circle (Before t) cycle ∧ ∀ a ∈ cycle, a ∈ nf := by
  induction hm : searchMeasure t visited using Nat.strong_induction_on generalizing visited with
  | _ m ih =>
    intro id cycle hpath hnf h
    rw [findCycleDfs] at h
    split_ifs at h with hid henter
    · rw [← Option.some.inj h]
      exact ⟨hpath.circle hid, fun a ha => hnf a (List.mem_of_mem_drop ha)⟩
    · obtain ⟨x, hx, hxnf, hxload, hrec⟩ := findCycleBefore_some h
      have hless := searchMeasure_push henter.2 hid
      refine ih _ (by omega) rfl (hpath.push hid ⟨henter.2, hxload, hx⟩) (fun a ha => ?_) hrec
      rcases List.mem_append.mp ha with ha | ha
      · exact hnf a ha
      · exact List.mem_singleton.mp ha ▸ henter.1

/-- A search that finds nothing goes on from a unit to its successors. -/
theorem findCycleDfs_none {nf visited : List UnitId} {id x : UnitId}
    (h : findCycleDfs t nf visited id = none) (hnf : id ∈ nf) (hedge : Before t id x)
    (hx : x ∈ nf) : id ∉ visited ∧ findCycleDfs t nf (visited ++ [id]) x = none := by
  rw [findCycleDfs] at h
  split_ifs at h with hid henter
  · exact ⟨hid, findCycleBefore_none h hedge.2.2 hx hedge.2.1⟩
  · exact absurd ⟨hnf, hedge.1⟩ henter

theorem findCycleDfs_none_of_path {nf visited : List UnitId} {id x : UnitId}
    (h : findCycleDfs t nf visited id = none)
    (hpath : ReflTransGen (Within (· ∈ nf) (Before t)) id x) :
    ∃ visited', (∀ a ∈ visited, a ∈ visited') ∧ findCycleDfs t nf visited' x = none := by
  induction hpath with
  | refl => exact ⟨visited, fun a ha => ha, h⟩
  | tail _ hedge ih =>
    obtain ⟨visited', hsub, hnone⟩ := ih
    obtain ⟨-, hnext⟩ := findCycleDfs_none hnone hedge.1 hedge.2.2 hedge.2.1
    exact ⟨_, fun a ha => List.mem_append_left _ (hsub a ha), hnext⟩

/-- A unit from which the search finds nothing is on no cycle of units it may enter. -/
theorem not_cycle_of_findCycleDfs_none {nf visited : List UnitId} {id : UnitId}
    (h : findCycleDfs t nf visited id = none) :
    ¬ TransGen (Within (· ∈ nf) (Before t)) id id := by
  intro hcycle
  obtain ⟨x, hedge, hback⟩ := TransGen.head'_iff.mp hcycle
  obtain ⟨-, hnext⟩ := findCycleDfs_none h hedge.1 hedge.2.2 hedge.2.1
  obtain ⟨visited', hsub, hagain⟩ := findCycleDfs_none_of_path hnext hback
  have hmem : id ∈ visited' := hsub id (List.mem_append_right _ List.mem_cons_self)
  exact (findCycleDfs_none hagain hedge.1 hedge.2.2 hedge.2.1).1 hmem

/-! ## What the check reports -/

/-- The circles so far are disjoint and made of finished units; as long as there is none, no
    finished unit is on a cycle. -/
structure LoopInv (t : UnitTable) (s : CheckState) (circles : List (List UnitId)) : Prop where
  split : s.Split t
  isCircle : ∀ c ∈ circles, Circle (Before t) c
  finished : ∀ c ∈ circles, ∀ a ∈ c, a ∈ s.finished
  disjoint : circles.Pairwise List.Disjoint
  offCycles : circles = [] → ∀ a ∈ s.finished, OffCycles t a

/-- What `sanity_check_dependencies` reports: disjoint circles, or that there is no cycle. -/
structure Reported (t : UnitTable) (circles : List (List UnitId)) : Prop where
  isCircle : ∀ c ∈ circles, Circle (Before t) c
  disjoint : circles.Pairwise List.Disjoint
  acyclic : circles = [] → Acyclic (Before t)

theorem pairwise_disjoint_snoc {circles : List (List UnitId)} {circle : List UnitId}
    {finished : Finset UnitId} (h : circles.Pairwise List.Disjoint)
    (hold : ∀ c ∈ circles, ∀ a ∈ c, a ∈ finished) (hnew : ∀ a ∈ circle, a ∉ finished) :
    (circles ++ [circle]).Pairwise List.Disjoint := by
  refine List.pairwise_append.mpr ⟨h, List.pairwise_singleton _ _, fun c hc d hd a hac had => ?_⟩
  rw [List.mem_singleton.mp hd] at had
  exact hnew a had (hold c hc a hac)

/-- A turn that finishes a unit leaves fewer of them. -/
theorem CheckState.Split.length_lt {s s' : CheckState} (h : s.Split t) (h' : s'.Split t)
    (hmono : s.finished ⊆ s'.finished) {a : UnitId} (ha : a ∈ s.notFinished)
    (hfin : a ∈ s'.finished) : s'.notFinished.length < s.notFinished.length := by
  have hsub : s'.notFinished ⊆ s.notFinished.erase a := by
    intro x hx
    obtain ⟨hload, hnot⟩ := h'.mem_iff.mp hx
    have hne : x ≠ a := fun heq => hnot (heq ▸ hfin)
    refine (List.mem_erase_of_ne hne).mpr ?_
    exact h.mem_iff.mpr ⟨hload, fun hmem => hnot (hmono hmem)⟩
  have hle := (List.subperm_of_subset h'.nodup hsub).length_le
  have hlen := List.length_erase_add_one ha
  omega

theorem LoopInv.found {s s' : CheckState} {circles : List (List UnitId)} {circle : List UnitId}
    (h : LoopInv t s circles) (herr : SearchErr t s s' circle) :
    LoopInv t s' (circles ++ [circle]) where
  split := herr.split
  isCircle c hc := by
    rcases List.mem_append.mp hc with hc | hc
    · exact h.isCircle c hc
    · exact List.mem_singleton.mp hc ▸ herr.isCircle
  finished c hc a ha := by
    rcases List.mem_append.mp hc with hc | hc
    · exact herr.mono (h.finished c hc a ha)
    · exact herr.done a (List.mem_singleton.mp hc ▸ ha)
  disjoint := pairwise_disjoint_snoc h.disjoint h.finished herr.fresh
  offCycles hnil := absurd hnil (by simp)

theorem LoopInv.searched {s s' : CheckState} {circles : List (List UnitId)}
    {visited targets : List UnitId} (h : LoopInv t s circles)
    (hok : SearchOk t visited s s' targets) : LoopInv t s' circles where
  split := hok.split
  isCircle := h.isCircle
  finished c hc a ha := hok.mono (h.finished c hc a ha)
  disjoint := h.disjoint
  offCycles hnil := hok.offCycles (h.offCycles hnil)

/-- A unit from which no cycle is found is finished by force. -/
theorem LoopInv.forced {s : CheckState} {circles : List (List UnitId)} {id : UnitId}
    (h : LoopInv t s circles) (hnone : findCycleFrom t s.notFinished id = none) :
    LoopInv t (s.finish id) circles where
  split := h.split.finish id
  isCircle := h.isCircle
  finished c hc a ha := Finset.mem_insert_of_mem (h.finished c hc a ha)
  disjoint := h.disjoint
  offCycles hnil a ha := by
    have hoff := h.offCycles hnil
    rcases Finset.mem_insert.mp ha with rfl | ha
    · intro hcycle
      refine not_cycle_of_findCycleDfs_none hnone (transGen_within_of_cycles ?_ hcycle)
      intro x hx
      obtain ⟨y, hxy, -⟩ := exists_succ_on_cycle hx
      exact h.split.mem_iff.mpr ⟨hxy.1, fun hmem => hoff x hmem hx⟩
    · exact hoff a ha

/-- The loop ends within as many turns as there are units left, and one more. -/
theorem sanityLoop_spec {ord : IterOrder} {fuel : ℕ} :
    ∀ {s circles}, LoopInv t s circles → s.notFinished.length < fuel →
      ∃ res, sanityLoop t ord fuel s circles = some res ∧ Reported t res := by
  induction fuel with
  | zero => exact fun _ h => absurd h (Nat.not_lt_zero _)
  | succ fuel ih =>
    intro s circles h hfuel
    rw [sanityLoop]
    split_ifs with hempty
    · refine ⟨circles, rfl, h.isCircle, h.disjoint, fun hnil a ha => ?_⟩
      obtain ⟨b, hab, -⟩ := exists_succ_on_cycle ha
      refine h.offCycles hnil a ?_ ha
      by_contra hnot
      have := h.split.mem_iff.mpr ⟨hab.1, hnot⟩
      rw [hempty] at this
      exact absurd this List.not_mem_nil
    · cases hroot : (ord.order s.notFinished).find? fun id => inDegree t s.finished id = 0 with
      | some root =>
        have hmem := (ord.perm _).mem_iff.mp (List.mem_of_find?_eq_some hroot)
        have hpath : OnPath t [] s root :=
          ⟨pathTo_nil root, fun a ha => absurd ha List.not_mem_nil,
            fun a ha => absurd ha List.not_mem_nil⟩
        have hsearch := searchBackedge_spec s root h.split hpath
        dsimp only
        cases hres : searchBackedge t [] s root with
        | mk s' res =>
          rw [hres] at hsearch
          cases res with
          | some circle =>
            have herr : SearchErr t s s' circle := hsearch
            have hhead := List.head_mem herr.isCircle.ne_nil
            have hless := h.split.length_lt herr.split herr.mono
              (h.split.mem_iff.mpr ⟨herr.loaded _ hhead, herr.fresh _ hhead⟩) (herr.done _ hhead)
            exact ih (h.found herr) (by omega)
          | none =>
            have hok : SearchOk t [] s s' [root] := hsearch
            have hdone := hok.done root List.mem_cons_self (h.split.mem_iff.mp hmem).1
            have hless := h.split.length_lt hok.split hok.mono hmem hdone
            exact ih (h.searched hok) (by omega)
      | none =>
        have hne : ord.order s.notFinished ≠ [] :=
          fun hnil => hempty (hnil ▸ ord.perm s.notFinished).nil_eq.symm
        dsimp only
        cases hhead : (ord.order s.notFinished).head? with
        | none => exact absurd (List.head?_eq_none_iff.mp hhead) hne
        | some arbitrary =>
          have hmem := (ord.perm _).mem_iff.mp (List.mem_of_mem_head? hhead)
          dsimp only
          cases hcycle : findCycleFrom t s.notFinished arbitrary with
          | some cycle =>
            obtain ⟨hcircle, hnf⟩ := findCycleDfs_some (pathTo_nil arbitrary)
              (fun a ha => absurd ha List.not_mem_nil) hcycle
            refine ⟨_, rfl, fun c hc => ?_, ?_, fun hnil => absurd hnil (by simp)⟩
            · rcases List.mem_append.mp hc with hc | hc
              · exact h.isCircle c hc
              · exact List.mem_singleton.mp hc ▸ hcircle
            · exact pairwise_disjoint_snoc h.disjoint h.finished
                fun a ha => (h.split.mem_iff.mp (hnf a ha)).2
          | none =>
            have hless := h.split.length_lt (h.split.finish arbitrary)
              (Finset.subset_insert _ _) hmem (Finset.mem_insert_self _ _)
            exact ih (h.forced hcycle) (by omega)

/-- `sanity_check_dependencies` terminates without a panic and reports disjoint circles; if it
    reports none, there is no ordering cycle. -/
theorem sanityCheck_spec (t : UnitTable) (ord : IterOrder) :
    ∃ circles, sanityCheckDependencies t ord = some circles ∧ Reported t circles := by
  refine sanityLoop_spec ⟨⟨t.ids_nodup, fun {a} => ?_⟩, ?_, ?_, List.Pairwise.nil, ?_⟩
    (Nat.lt_succ_self _)
  · exact (and_iff_left (Finset.notMem_empty a)).symm
  · exact fun c hc => absurd hc List.not_mem_nil
  · exact fun c hc => absurd hc List.not_mem_nil
  · exact fun _ a ha => absurd ha (Finset.notMem_empty a)

end OxidizedSystemd.Units
