import OxidizedSystemd.Units.StartSubgraph

/-!
# Pruning the unit table

Model of `prune_units` (`loading/dependency_resolving.rs`, lines 11–248). The
units that are kept are those that the target and the units with
`AllowIsolate=` need, and the services with `BusName=`. The lists of the units
that are kept lose the ids of the others.

* `mem_idsToKeep_iff`: what is kept.
* `pruneUnits_keepsNeeded_iff`: exactly when the units that are kept have what
  they need.
* `bus_service_loses_requirement`: a service that does not.
-/

namespace OxidizedSystemd.Loading

open OxidizedSystemd.Units

variable {t t' : UnitTable} {target : String} {ids : List UnitId} {u x start : UnitId} {fuel : ℕ}

/-! ## What is kept -/

/-- `startunit` (lines 16–28): the last unit that has the name, or has it as an alias. -/
def startUnit (target : String) (t : UnitTable) : Option UnitId :=
  t.units.foldl (fun result unit =>
    if unit.id.name = target ∨ target ∈ unit.common.unit.aliases then some unit.id else result) none

/-- `isolate_target_ids` (lines 48–52). -/
def isolateTargetIds (t : UnitTable) : List UnitId :=
  (t.units.filter (·.common.unit.allowIsolate)).map (·.id)

/-- One turn of the loop over `isolate_target_ids` (lines 54–59), with `added_isolate_root`. -/
def pushIsolateTarget (acc : List UnitId × Bool) (isoId : UnitId) : List UnitId × Bool :=
  if isoId ∈ acc.1 then acc else (acc.1 ++ [isoId], true)

/-- `socket_activation_services` (lines 69–84). -/
def socketActivationServices (t : UnitTable) (idsToKeep : List UnitId) : List UnitId :=
  idsToKeep.flatMap fun id => (t.services id).filter (· ∉ idsToKeep)

/-- Whether the unit is a service with `BusName=`. -/
def busActivatable (unit : LoadedUnit) : Bool :=
  match unit.specific with
  | .service conf => conf.dbusName.isSome
  | _ => false

/-- `dbus_activation_services` (lines 91–108). -/
def dbusActivationServices (t : UnitTable) (idsToKeep : List UnitId) : List UnitId :=
  (t.units.filter fun unit => unit.id ∉ idsToKeep ∧ busActivatable unit).map (·.id)

/-- `ids_to_keep` (lines 32–109), with `fuel` rounds for each subgraph. -/
def idsToKeep (fuel : ℕ) (t : UnitTable) (startunitId : UnitId) : Option (List UnitId) :=
  (collectUnitStartSubgraph t fuel [startunitId]).bind fun ids =>
    let pushed := (isolateTargetIds t).foldl pushIsolateTarget (ids, false)
    (if pushed.2 then collectUnitStartSubgraph t fuel pushed.1 else some pushed.1).map fun ids =>
      let ids := ids ++ socketActivationServices t ids
      ids ++ dbusActivationServices t ids

/-! ## What is left -/

/-- The lists that are filtered (lines 162–243). -/
def prunedKinds : List DepKind :=
  [.before, .after, .requires, .wants, .requiredBy, .wantedBy, .conflicts, .conflictedBy]

/-- What is not taken out of a list. -/
def keeps (idsToKeep : List UnitId) (id : UnitId) : Bool := id ∈ idsToKeep ∨ id.kind = .device

/-- The units in the configuration of a service or a socket (lines 124–159). -/
def cleanSpecific (idsToKeep : List UnitId) : Specific → Specific
  | .service conf => .service { conf with sockets := conf.sockets.filter (keeps idsToKeep) }
  | .socket conf => .socket { conf with services := conf.services.filter (keeps idsToKeep) }
  | other => other

/-- The dependencies (lines 161–245). -/
def cleanDependencies (idsToKeep : List UnitId) (d : Dependencies) : Dependencies :=
  (Dependencies.ofLists fun k =>
    if k ∈ prunedKinds then (d.list k).filter (keeps idsToKeep) else d.list k).dedup

/-- One turn of the loop that cleans up (lines 122–246). -/
def cleanUnit (idsToKeep : List UnitId) (unit : LoadedUnit) : LoadedUnit :=
  { unit.mapDeps (cleanDependencies idsToKeep) with
    specific := cleanSpecific idsToKeep unit.specific }

/-- The units that are not kept are removed (lines 111–120). -/
def removeOthers (idsToKeep : List UnitId) (t : UnitTable) : UnitTable :=
  (t.ids.filter (· ∉ idsToKeep)).foldl UnitTable.remove t

/-- `prune_units`: the result and the table that is left. -/
def pruneUnits (fuel : ℕ) (target : String) (t : UnitTable) :
    Option (Except String Unit × UnitTable) :=
  match startUnit target t with
  | none => some (.error ("Target unit " ++ target ++ " not found"), t)
  | some startunitId =>
    (idsToKeep fuel t startunitId).map fun ids =>
      (.ok (), (removeOthers ids t).mapUnits (cleanUnit ids))

/-! ## The subgraphs -/

/-- The units whose subgraphs are kept. -/
def roots (t : UnitTable) (startunitId : UnitId) : List UnitId := startunitId :: isolateTargetIds t

/-- `x` is a loaded service with `BusName=`. -/
def BusActivatable (t : UnitTable) (x : UnitId) : Prop :=
  ∃ unit ∈ t.units, unit.id = x ∧ busActivatable unit

theorem mem_foldl_pushIsolateTarget {isolate : List UnitId} {acc : List UnitId × Bool} :
    x ∈ (isolate.foldl pushIsolateTarget acc).1 ↔ x ∈ acc.1 ∨ x ∈ isolate := by
  induction isolate generalizing acc with
  | nil => exact (or_iff_left List.not_mem_nil).symm
  | cons a isolate ih =>
    rw [List.foldl_cons, ih, pushIsolateTarget, List.mem_cons, ← or_assoc]
    refine or_congr_left ?_
    split_ifs with ha
    · exact (or_iff_left_of_imp fun h => h ▸ ha).symm
    · rw [List.mem_append, List.mem_singleton]

/-- Without the flag, nothing was pushed. -/
theorem foldl_pushIsolateTarget_eq {isolate : List UnitId} {acc : List UnitId × Bool}
    (h : (isolate.foldl pushIsolateTarget acc).2 = false) :
    acc.2 = false ∧ (isolate.foldl pushIsolateTarget acc).1 = acc.1 := by
  induction isolate generalizing acc with
  | nil => exact ⟨h, rfl⟩
  | cons a isolate ih =>
    rw [List.foldl_cons] at h ⊢
    obtain ⟨hflag, heq⟩ := ih h
    unfold pushIsolateTarget at hflag heq ⊢
    split_ifs at hflag heq ⊢
    exact ⟨hflag, heq⟩

/-- The subgraphs of the target and of the isolate targets. -/
theorem mem_subgraphs {ids : List UnitId} {pushed : List UnitId × Bool}
    (hids : collectUnitStartSubgraph t fuel [start] = some ids)
    (hpushed : (isolateTargetIds t).foldl pushIsolateTarget (ids, false) = pushed)
    {ids' : List UnitId}
    (h : (if pushed.2 then collectUnitStartSubgraph t fuel pushed.1 else some pushed.1) =
      some ids') : x ∈ ids' ↔ Needed t (roots t start) x := by
  have hmem (y : UnitId) : y ∈ pushed.1 ↔ Needed t [start] y ∨ y ∈ isolateTargetIds t := by
    rw [← hpushed, mem_foldl_pushIsolateTarget, mem_collectUnitStartSubgraph hids]
  have hstart (y : UnitId) (hy : Needed t [start] y) : Needed t (roots t start) y := by
    refine hy.mono fun s hs => needed_of_mem ?_
    exact List.mem_singleton.mp hs ▸ List.mem_cons_self
  have hroots (y : UnitId) (hy : y ∈ roots t start) : y ∈ pushed.1 := by
    rcases List.mem_cons.mp hy with rfl | hy
    · exact (hmem y).mpr (.inl (needed_of_mem List.mem_cons_self))
    · exact (hmem y).mpr (.inr hy)
  split_ifs at h with hflag
  · rw [mem_collectUnitStartSubgraph h]
    constructor
    · refine Needed.mono fun s hs => ?_
      rcases (hmem s).mp hs with hs | hs
      · exact hstart s hs
      · exact needed_of_mem (List.mem_cons_of_mem _ hs)
    · exact Needed.mono fun s hs => needed_of_mem (hroots s hs)
  · -- nothing was pushed, so the isolate targets are in the first subgraph
    have hnone : pushed.1 = ids := by
      rw [← hpushed] at hflag ⊢
      exact (foldl_pushIsolateTarget_eq (Bool.eq_false_of_not_eq_true hflag)).2
    rw [← Option.some.inj h]
    constructor
    · rw [hnone, mem_collectUnitStartSubgraph hids]
      exact hstart x
    · intro hx
      rw [hnone, mem_collectUnitStartSubgraph hids]
      refine hx.mono fun s hs => ?_
      rw [← mem_collectUnitStartSubgraph hids, ← hnone]
      exact hroots s hs

/-- The services of the sockets are in the subgraphs already. -/
theorem socketActivationServices_eq_nil {seed : List UnitId}
    (hids : ∀ x, x ∈ ids ↔ Needed t seed x) : socketActivationServices t ids = [] := by
  rw [socketActivationServices, List.flatMap_eq_nil_iff]
  intro id hid
  rw [List.filter_eq_nil_iff]
  intro srvcId hsrvc hnot
  refine of_decide_eq_true hnot ((hids srvcId).mpr (((hids id).mp hid).step ?_))
  exact .inr (.inr (.inr (.inr hsrvc)))

theorem mem_dbusActivationServices :
    x ∈ dbusActivationServices t ids ↔ x ∉ ids ∧ BusActivatable t x := by
  rw [dbusActivationServices, List.mem_map]
  constructor
  · rintro ⟨unit, hunit, rfl⟩
    obtain ⟨hmem, hcond⟩ := List.mem_filter.mp hunit
    obtain ⟨hnot, hbus⟩ := of_decide_eq_true hcond
    exact ⟨hnot, unit, hmem, rfl, hbus⟩
  · rintro ⟨hnot, unit, hmem, rfl, hbus⟩
    exact ⟨unit, List.mem_filter.mpr ⟨hmem, decide_eq_true ⟨hnot, hbus⟩⟩, rfl⟩

/-- What is kept: what the target and the isolate targets need, and the services with `BusName=`. -/
theorem mem_idsToKeep_iff (h : idsToKeep fuel t start = some ids) :
    x ∈ ids ↔ Needed t (roots t start) x ∨ BusActivatable t x := by
  obtain ⟨first, hfirst, h⟩ := Option.bind_eq_some_iff.mp h
  obtain ⟨second, hsecond, rfl⟩ := Option.map_eq_some_iff.mp h
  have hmem (y : UnitId) : y ∈ second ↔ Needed t (roots t start) y :=
    mem_subgraphs hfirst rfl hsecond
  dsimp only
  rw [socketActivationServices_eq_nil hmem, List.append_nil, List.mem_append,
    mem_dbusActivationServices, hmem]
  by_cases hx : Needed t (roots t start) x
  · exact iff_of_true (.inl hx) (.inl hx)
  · rw [or_iff_right hx, or_iff_right hx, and_iff_right hx]

theorem idsToKeep_isSome (hfuel : (mentioned t).card < fuel) (start : UnitId) :
    (idsToKeep fuel t start).isSome := by
  obtain ⟨first, hfirst⟩ :=
    Option.isSome_iff_exists.mp (collectUnitStartSubgraph_isSome hfuel [start])
  rw [idsToKeep, hfirst, Option.bind_some]
  dsimp only
  rw [Option.isSome_map]
  split_ifs
  · exact collectUnitStartSubgraph_isSome hfuel _
  · rfl

/-! ## What is left -/

theorem get_foldl_remove (l : List UnitId) (t : UnitTable) (x : UnitId) :
    (l.foldl UnitTable.remove t).get x = if x ∈ l then none else t.get x := by
  induction l generalizing t with
  | nil => rw [if_neg List.not_mem_nil]; rfl
  | cons a l ih =>
    rw [List.foldl_cons, ih, UnitTable.get_remove]
    simp only [List.mem_cons]
    by_cases hx : x = a
    · simp [hx]
    · simp [hx]

theorem get_removeOthers (ids : List UnitId) (t : UnitTable) (x : UnitId) :
    (removeOthers ids t).get x = if x ∈ ids then t.get x else none := by
  rw [removeOthers, get_foldl_remove]
  by_cases hx : x ∈ ids
  · have hnot : x ∉ t.ids.filter (· ∉ ids) := by
      intro h
      exact of_decide_eq_true (List.mem_filter.mp h).2 hx
    rw [if_pos hx, if_neg hnot]
  · rw [if_neg hx]
    by_cases ht : x ∈ t.ids
    · rw [if_pos (List.mem_filter.mpr ⟨ht, decide_eq_true hx⟩)]
    · rw [UnitTable.get_eq_none_iff.mpr ht, ite_self]

theorem mem_ids_removeOthers : x ∈ (removeOthers ids t).ids ↔ x ∈ t.ids ∧ x ∈ ids := by
  have h := get_removeOthers ids t x
  by_cases hx : x ∈ ids
  · rw [if_pos hx] at h
    rw [and_iff_left hx, ← not_iff_not, ← UnitTable.get_eq_none_iff, ← UnitTable.get_eq_none_iff, h]
  · rw [if_neg hx] at h
    exact iff_of_false (UnitTable.get_eq_none_iff.mp h) fun h' => hx h'.2

theorem mem_list_cleanDependencies {d : Dependencies} {k : DepKind} :
    x ∈ (cleanDependencies ids d).list k ↔
      x ∈ d.list k ∧ (k ∈ prunedKinds → keeps ids x) := by
  rw [cleanDependencies, Dependencies.mem_list_dedup, Dependencies.list_ofLists]
  split_ifs with hk
  · rw [List.mem_filter]
    exact and_congr_right fun _ => ⟨fun h _ => h, fun h => h hk⟩
  · exact ⟨fun h => ⟨h, fun hmem => absurd hmem hk⟩, And.left⟩

theorem deps_cleaned (hu : u ∈ ids) :
    ((removeOthers ids t).mapUnits (cleanUnit ids)).deps u =
      if u ∈ t.ids then cleanDependencies ids (t.deps u) else {} := by
  rw [UnitTable.deps, UnitTable.get_mapUnits, get_removeOthers, if_pos hu]
  cases hget : t.get u with
  | none => rw [if_neg (UnitTable.get_eq_none_iff.mp hget)]; rfl
  | some unit =>
    rw [if_pos (UnitTable.mem_ids_of_get hget), UnitTable.deps_of_get hget]
    rfl

/-- The lists with what a unit needs. -/
def neededKinds : List DepKind := [.requires, .wants, .bindsTo]

/-- The units that are left in `t'` have what they need and `t` has. -/
def KeepsNeeded (t t' : UnitTable) : Prop :=
  ∀ u ∈ t'.ids, ∀ k ∈ neededKinds, ∀ x ∈ (t.deps u).list k, x ∈ t.ids →
    x ∈ t'.ids ∧ x ∈ (t'.deps u).list k

/-- What a service needs that is kept only for its `BusName=` is kept for another reason. -/
def BusServicesCovered (t : UnitTable) (startunitId : UnitId) : Prop :=
  ∀ u, BusActivatable t u → ¬ Needed t (roots t startunitId) u →
    ∀ k ∈ neededKinds, ∀ x ∈ (t.deps u).list k, x ∈ t.ids →
      Needed t (roots t startunitId) x ∨ BusActivatable t x

theorem pullsIn_of_mem_neededKinds {k : DepKind} (hk : k ∈ neededKinds)
    (h : x ∈ (t.deps u).list k) : PullsIn t u x := by
  simp only [neededKinds, List.mem_cons, List.not_mem_nil, or_false] at hk
  rcases hk with rfl | rfl | rfl
  · exact .inr (.inl h)
  · exact .inl h
  · exact .inr (.inr (.inl h))

theorem keepsNeeded_iff (h : idsToKeep fuel t start = some ids) :
    KeepsNeeded t ((removeOthers ids t).mapUnits (cleanUnit ids)) ↔
      BusServicesCovered t start := by
  have hkept {y : UnitId} : y ∈ ((removeOthers ids t).mapUnits (cleanUnit ids)).ids ↔
      y ∈ t.ids ∧ (Needed t (roots t start) y ∨ BusActivatable t y) := by
    rw [UnitTable.ids_mapUnits, mem_ids_removeOthers, mem_idsToKeep_iff h]
  constructor
  · intro hkeeps u hbus _ k hk x hx hxt
    obtain ⟨unit, hunit, rfl, -⟩ := id hbus
    have hu := hkept.mpr ⟨List.mem_map_of_mem hunit, .inr hbus⟩
    exact (hkept.mp (hkeeps unit.id hu k hk x hx hxt).1).2
  · intro hcovered u hu k hk x hx hxt
    obtain ⟨hut, hreason⟩ := hkept.mp hu
    have hxkept : Needed t (roots t start) x ∨ BusActivatable t x := by
      by_cases hneeded : Needed t (roots t start) u
      · exact .inl (hneeded.step (pullsIn_of_mem_neededKinds hk hx))
      · exact hcovered u (hreason.resolve_left hneeded) hneeded k hk x hx hxt
    refine ⟨hkept.mpr ⟨hxt, hxkept⟩, ?_⟩
    rw [deps_cleaned ((mem_idsToKeep_iff h).mpr hreason), if_pos hut, mem_list_cleanDependencies]
    exact ⟨hx, fun _ => decide_eq_true (.inl ((mem_idsToKeep_iff h).mpr hxkept))⟩

/-- The units that are left have what they need exactly if the target is not found, or what a
    service needs that is kept only for its `BusName=` is needed by the target or an isolate target
    too, or has a `BusName=` itself. -/
theorem pruneUnits_keepsNeeded_iff (t : UnitTable) (target : String) :
    ∃ n, ∀ fuel ≥ n, ∃ result t', pruneUnits fuel target t = some (result, t') ∧
      (KeepsNeeded t t' ↔
        ∀ start, startUnit target t = some start → BusServicesCovered t start) := by
  refine ⟨(mentioned t).card + 1, fun fuel hfuel => ?_⟩
  cases hstart : startUnit target t with
  | none =>
    refine ⟨.error ("Target unit " ++ target ++ " not found"), t, by rw [pruneUnits, hstart], ?_⟩
    refine iff_of_true (fun u _ k _ x hx hxt => ⟨hxt, hx⟩) fun start h => ?_
    cases h
  | some start =>
    obtain ⟨ids, hids⟩ := Option.isSome_iff_exists.mp (idsToKeep_isSome (t := t) hfuel start)
    refine ⟨.ok (), (removeOthers ids t).mapUnits (cleanUnit ids), ?_, ?_⟩
    · rw [pruneUnits, hstart]
      simp only [hids, Option.map_some]
    · rw [keepsNeeded_iff hids]
      constructor
      · rintro h _ ⟨⟩
        exact h
      · exact fun h => h start rfl

/-- The target needs nothing; `d.service` has `BusName=` and `Requires=a.service`. -/
def busTable : UnitTable where
  units :=
    let service (name : String) (requires : List UnitId) (dbusName : Option String) : LoadedUnit :=
      { id := ⟨.service, name⟩
        common := { dependencies := { requires := requires } }
        specific := .service { dbusName := dbusName } }
    [{ id := ⟨.target, "t.target"⟩, specific := .target }, service "a.service" [] none,
      service "d.service" [⟨.service, "a.service"⟩] (some "org.d")]
  nodup := by decide

/-- `d.service` is kept and `a.service` is not. -/
theorem bus_service_loses_requirement :
    ∃ t', pruneUnits 1 "t.target" busTable = some (.ok (), t') ∧ ¬ KeepsNeeded busTable t' := by
  refine ⟨_, rfl, fun h => ?_⟩
  have hkept := h ⟨.service, "d.service"⟩ (by decide) .requires (by decide) ⟨.service, "a.service"⟩
    (by decide) (by decide)
  exact absurd hkept.1 (by decide)

end OxidizedSystemd.Loading
