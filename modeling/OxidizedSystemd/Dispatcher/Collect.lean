import OxidizedSystemd.Dispatcher.StopGraph
import OxidizedSystemd.Lib.Acyclic

/-!
# The closure of a stop tree

* `StopEdge`: a unit waits for a dependent that is collectable like itself.
* `mem_collect_iff`: a stop tree collects what its root reaches by `StopEdge`.
* `mem_collect_edges`: its edges are those from each member to its dependents.
-/

namespace OxidizedSystemd.Dispatcher

open OxidizedSystemd.Units OxidizedSystemd.Lib
open Relation (ReflTransGen)

variable {t : UnitTable} {status : UnitId → UnitStatus}

/-- `d` is required-by, part-of-by or bound-by `u`: it has to stop first. -/
def Dependent (t : UnitTable) (u d : UnitId) : Prop := d ∈ (t.deps u).killBeforeThis

/-- A table whose dependents rank above what they depend on is acyclic. -/
theorem dependent_acyclic (rank : UnitId → ℕ)
    (h : ∀ u ∈ t.ids, ∀ d ∈ (t.deps u).killBeforeThis, rank u < rank d) :
    Acyclic (Dependent t) := by
  refine Acyclic.of_rank rank fun u d hd => h u ?_ d hd
  by_contra hu
  have hd : d ∈ (t.deps u).killBeforeThis := hd
  rw [UnitTable.deps_of_not_mem hu] at hd
  exact absurd hd List.not_mem_nil

/-- `d` has to stop before `u` and neither is stopped. -/
def StopEdge (t : UnitTable) (status : UnitId → UnitStatus) (u d : UnitId) : Prop :=
  Collectable t status u ∧ Collectable t status d ∧ Dependent t u d

/-- `StopEdge` over any number of steps. -/
abbrev StopPath (t : UnitTable) (status : UnitId → UnitStatus) : UnitId → UnitId → Prop :=
  ReflTransGen (StopEdge t status)

theorem StopPath.collectable {u v : UnitId} (h : StopPath t status u v)
    (hu : Collectable t status u) : Collectable t status v := by
  cases h with
  | refl => exact hu
  | tail _ h => exact h.2.1

/-- The edges that a member adds. -/
def edgesOf (t : UnitTable) (id : UnitId) : List (UnitId × UnitId) :=
  (t.deps id).killBeforeThis.map (·, id)

/-- The state of the collection loop between two turns. -/
structure CollectInv (t : UnitTable) (status : UnitId → UnitStatus) (root : UnitId)
    (queue : List UnitId) (visited : Finset UnitId) (acc : Collected) : Prop where
  nodup : acc.members.Nodup
  mem_iff : ∀ {id}, id ∈ acc.members ↔ id ∈ visited ∧ Collectable t status id
  reached : ∀ {id}, id ∈ acc.members → StopPath t status root id
  queued : ∀ {id}, id ∈ queue → id = root ∨ ∃ m ∈ acc.members, Dependent t m id
  root : root ∈ queue ∨ root ∈ visited
  closed : ∀ {m d}, m ∈ acc.members → Dependent t m d → d ∈ queue ∨ d ∈ visited
  edges : acc.edges = acc.members.flatMap (edgesOf t)

theorem collectInv_start (root : UnitId) (propagateAfter : UnitId → Option (List UnitId)) :
    CollectInv t status root [root] ∅ ⟨[], [], propagateAfter⟩ where
  nodup := List.nodup_nil
  mem_iff := ⟨fun h => absurd h List.not_mem_nil, fun h => absurd h.1 (Finset.notMem_empty _)⟩
  reached h := absurd h List.not_mem_nil
  queued h := .inl (List.mem_singleton.mp h)
  root := .inl List.mem_cons_self
  closed h := absurd h List.not_mem_nil
  edges := rfl

/-- A unit that was visited, or is not collectable, is dropped from the queue. -/
theorem CollectInv.skip {root id : UnitId} {queue : List UnitId} {visited visited' : Finset UnitId}
    {acc : Collected} (h : CollectInv t status root (id :: queue) visited acc)
    (hvisited : ∀ x, x ∈ visited' ↔ x ∈ visited ∨ x = id)
    (hid : id ∈ visited ∨ ¬ Collectable t status id) :
    CollectInv t status root queue visited' acc where
  nodup := h.nodup
  mem_iff {x} := by
    rw [h.mem_iff, hvisited]
    refine ⟨fun hx => ⟨.inl hx.1, hx.2⟩, ?_⟩
    rintro ⟨hx | rfl, hc⟩
    · exact ⟨hx, hc⟩
    · exact ⟨hid.resolve_right (not_not_intro hc), hc⟩
  reached := h.reached
  queued hx := h.queued (List.mem_cons_of_mem _ hx)
  root := by
    rw [hvisited]
    rcases h.root with hr | hr
    · exact (List.mem_cons.mp hr).symm.imp_right .inr
    · exact .inr (.inl hr)
  closed hm hd := by
    rw [hvisited]
    rcases h.closed hm hd with hq | hv
    · exact (List.mem_cons.mp hq).symm.imp_right .inr
    · exact .inr (.inl hv)
  edges := h.edges

/-- An unvisited collectable unit becomes a member and its dependents are queued. -/
theorem CollectInv.add {root id : UnitId} {queue : List UnitId} {visited : Finset UnitId}
    {acc : Collected} (h : CollectInv t status root (id :: queue) visited acc)
    (hid : id ∉ visited) (hc : Collectable t status id) :
    CollectInv t status root (queue ++ (t.deps id).killBeforeThis) (insert id visited)
      (acc.add id (t.deps id)) where
  nodup := by
    refine h.nodup.append (List.nodup_singleton id) ?_
    exact List.disjoint_singleton.mpr fun hm => hid (h.mem_iff.mp hm).1
  mem_iff {x} := by
    change x ∈ acc.members ++ [id] ↔ _
    rw [List.mem_append, List.mem_singleton, h.mem_iff, Finset.mem_insert]
    constructor
    · rintro (hx | rfl)
      · exact ⟨.inr hx.1, hx.2⟩
      · exact ⟨.inl rfl, hc⟩
    · rintro ⟨rfl | hx, hcx⟩
      · exact .inr rfl
      · exact .inl ⟨hx, hcx⟩
  reached {x} hx := by
    rcases List.mem_append.mp hx with hx | hx
    · exact h.reached hx
    · rw [List.mem_singleton.mp hx]
      rcases h.queued List.mem_cons_self with rfl | ⟨m, hm, hdep⟩
      · exact .refl
      · exact (h.reached hm).tail ⟨(h.mem_iff.mp hm).2, hc, hdep⟩
  queued {x} hx := by
    rcases List.mem_append.mp hx with hx | hx
    · refine (h.queued (List.mem_cons_of_mem _ hx)).imp_right ?_
      rintro ⟨m, hm, hdep⟩
      exact ⟨m, List.mem_append_left _ hm, hdep⟩
    · exact .inr ⟨id, List.mem_append_right _ List.mem_cons_self, hx⟩
  root := by
    rw [Finset.mem_insert]
    rcases h.root with hr | hr
    · rcases List.mem_cons.mp hr with hr | hr
      · exact .inr (.inl hr)
      · exact .inl (List.mem_append_left _ hr)
    · exact .inr (.inr hr)
  closed {m d} hm hd := by
    rw [Finset.mem_insert]
    rcases List.mem_append.mp hm with hm | hm
    · rcases h.closed hm hd with hq | hv
      · rcases List.mem_cons.mp hq with hq | hq
        · exact .inr (.inl hq)
        · exact .inl (List.mem_append_left _ hq)
      · exact .inr (.inr hv)
    · rw [List.mem_singleton.mp hm] at hd
      exact .inl (List.mem_append_right _ hd)
  edges := by
    change acc.edges ++ edgesOf t id = (acc.members ++ [id]).flatMap (edgesOf t)
    rw [List.flatMap_append, h.edges, List.flatMap_singleton]

theorem CollectInv.loop {root : UnitId} (queue : List UnitId) (visited : Finset UnitId)
    (acc : Collected) (h : CollectInv t status root queue visited acc) :
    ∃ visited', CollectInv t status root [] visited' (collectLoop t status queue visited acc) := by
  fun_induction collectLoop t status queue visited acc with
  | case1 visited acc => exact ⟨visited, h⟩
  | case2 visited acc id queue hid ih =>
    exact ih (h.skip (fun x => ⟨.inl, fun hx => hx.elim (fun hx => hx) (· ▸ hid)⟩) (.inl hid))
  | case3 visited acc id queue hid hc ih => exact ih (h.add hid hc)
  | case4 visited acc id queue hid hc ih =>
    exact ih (h.skip (fun x => by rw [Finset.mem_insert, or_comm]) (.inr hc))

theorem collect_inv (t : UnitTable) (c : Config) (root : UnitId) :
    ∃ visited, CollectInv t c.status root [] visited (collect t c root) :=
  (collectInv_start root c.graph.propagateAfter).loop _ _ _

theorem collect_nodup (t : UnitTable) (c : Config) (root : UnitId) :
    (collect t c root).members.Nodup := by
  obtain ⟨visited, h⟩ := collect_inv t c root
  exact h.nodup

/-- The members of a stop tree are the collectable units that its root reaches. -/
theorem mem_collect_iff {c : Config} {root id : UnitId} :
    id ∈ (collect t c root).members ↔
      Collectable t c.status root ∧ StopPath t c.status root id := by
  obtain ⟨visited, h⟩ := collect_inv t c root
  have hroot := h.root.resolve_left List.not_mem_nil
  constructor
  · intro hid
    have hreach := h.reached hid
    refine ⟨?_, hreach⟩
    rcases ReflTransGen.cases_head hreach with heq | ⟨x, hx, -⟩
    · exact heq ▸ (h.mem_iff.mp hid).2
    · exact hx.1
  · rintro ⟨hc, hpath⟩
    induction hpath with
    | refl => exact h.mem_iff.mpr ⟨hroot, hc⟩
    | tail _ hedge ih =>
      exact h.mem_iff.mpr ⟨(h.closed ih hedge.2.2).resolve_left List.not_mem_nil, hedge.2.1⟩

theorem collectable_of_mem_collect {c : Config} {root id : UnitId}
    (h : id ∈ (collect t c root).members) : Collectable t c.status id := by
  obtain ⟨hc, hpath⟩ := mem_collect_iff.mp h
  exact hpath.collectable hc

/-- A collectable dependent of a member is a member. -/
theorem mem_collect_of_dependent {c : Config} {root u d : UnitId}
    (hu : u ∈ (collect t c root).members) (hdep : Dependent t u d)
    (hd : Collectable t c.status d) : d ∈ (collect t c root).members := by
  have hc := collectable_of_mem_collect hu
  obtain ⟨hroot, hpath⟩ := mem_collect_iff.mp hu
  exact mem_collect_iff.mpr ⟨hroot, hpath.tail ⟨hc, hd, hdep⟩⟩

theorem mem_collect_edges {c : Config} {root child parent : UnitId} :
    (child, parent) ∈ (collect t c root).edges ↔
      parent ∈ (collect t c root).members ∧ Dependent t parent child := by
  obtain ⟨visited, h⟩ := collect_inv t c root
  rw [h.edges, List.mem_flatMap]
  constructor
  · rintro ⟨m, hm, hmem⟩
    obtain ⟨d, hd, heq⟩ := List.mem_map.mp hmem
    cases heq
    exact ⟨hm, hd⟩
  · rintro ⟨hm, hd⟩
    exact ⟨parent, hm, List.mem_map.mpr ⟨child, hd, rfl⟩⟩

end OxidizedSystemd.Dispatcher
