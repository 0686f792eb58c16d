import OxidizedSystemd.Loading.FillDependencies

/-!
# Which edges are visible on both sides

`fill_dependencies` is documented to make edges visible on both sides. The pass
that enters the reverse of declared edges runs first, and two of the later
passes push onto one unit only: `Slice=` and the default dependencies of mounts.

* `lists_fillDependencies`: the edges between loaded units at the end, read off
    the table at the start.
* `fillDependencies_two_sided_iff`: when the result is two-sided.
* `slice_edge_not_two_sided`: a service in a slice, where it is not.
-/

namespace OxidizedSystemd.Units

open Dependencies
open OxidizedSystemd.Lib

namespace UnitTable

variable {t t' : UnitTable} {k : DepKind} {a b : UnitId}

/-! ## The two-sided relations -/

/-- Every relation between loaded units that is kept on both sides is seen from
    both. -/
structure TwoSided (t : UnitTable) : Prop where
  after_before : ∀ a ∈ t.ids, ∀ b ∈ t.ids, b ∈ (t.deps a).after ↔ a ∈ (t.deps b).before
  conflicts_conflictedBy :
    ∀ a ∈ t.ids, ∀ b ∈ t.ids, b ∈ (t.deps a).conflicts ↔ a ∈ (t.deps b).conflictedBy
  requires : ∀ a ∈ t.ids, ∀ b ∈ t.ids, b ∈ (t.deps a).requires → a ∈ (t.deps b).requiredBy
  wants : ∀ a ∈ t.ids, ∀ b ∈ t.ids, b ∈ (t.deps a).wants → a ∈ (t.deps b).wantedBy
  bindsTo : ∀ a ∈ t.ids, ∀ b ∈ t.ids, b ∈ (t.deps a).bindsTo → a ∈ (t.deps b).boundBy
  partOf : ∀ a ∈ t.ids, ∀ b ∈ t.ids, b ∈ (t.deps a).partOf → a ∈ (t.deps b).partOfBy
  upholds : ∀ a ∈ t.ids, ∀ b ∈ t.ids, b ∈ (t.deps a).upholds → a ∈ (t.deps b).upheldBy

theorem twoSided_iff : t.TwoSided ↔ TwoSidedOn mirrorOf {a | a ∈ t.ids} t.Lists := by
  simp only [TwoSidedOn, lists_iff, Set.mem_ofPred_eq]
  constructor
  · intro h j k hjk a ha b hb hab
    cases j <;> cases hjk
    case wantedBy.refl => exact h.wants a ha b hb hab
    case requiredBy.refl => exact h.requires a ha b hb hab
    case conflicts.refl => exact (h.conflicts_conflictedBy b hb a ha).mpr hab
    case conflictedBy.refl => exact (h.conflicts_conflictedBy a ha b hb).mp hab
    case before.refl => exact (h.after_before a ha b hb).mp hab
    case after.refl => exact (h.after_before b hb a ha).mpr hab
    case partOfBy.refl => exact h.partOf a ha b hb hab
    case boundBy.refl => exact h.bindsTo a ha b hb hab
    case upheldBy.refl => exact h.upholds a ha b hb hab
  · intro h
    constructor
    case after_before =>
      exact fun a ha b hb => ⟨h .before .after rfl a ha b hb, h .after .before rfl b hb a ha⟩
    case conflicts_conflictedBy =>
      exact fun a ha b hb =>
        ⟨h .conflictedBy .conflicts rfl a ha b hb, h .conflicts .conflictedBy rfl b hb a ha⟩
    case requires => exact h .requiredBy .requires rfl
    case wants => exact h .wantedBy .wants rfl
    case bindsTo => exact h .boundBy .bindsTo rfl
    case partOf => exact h .partOfBy .partOf rfl
    case upholds => exact h .upheldBy .upholds rfl

/-! ## Edges of a table with the same units -/

theorem SameUnits.defaultEdge (h : SameUnits t t') : t.DefaultEdge = t'.DefaultEdge := by
  have himp : ∀ {t t' : UnitTable}, SameUnits t t' → ∀ k a b,
      t.DefaultEdge k a b → t'.DefaultEdge k a b := by
    rintro t t' h k a b ⟨u, hu, htakes, hb, hmem⟩
    obtain ⟨u', hu', hid, _, hunit⟩ := h.exists_get hu
    refine ⟨u', hu', ?_, h.ids ▸ hb, by rw [hid]; exact hmem⟩
    rw [TakesDefaults, hid, hunit]
    exact htakes
  funext k a b
  exact propext ⟨himp h k a b, himp h.symm k a b⟩

theorem SameUnits.mountEdge (h : SameUnits t t') : t.MountEdge = t'.MountEdge := by
  have himp : ∀ {t t' : UnitTable}, SameUnits t t' → ∀ k a b,
      t.MountEdge k a b → t'.MountEdge k a b := by
    rintro t t' h k a b ⟨htarget, u, hu, htakes, hkind, hmem⟩
    obtain ⟨u', hu', hid, hspecific, hunit⟩ := h.exists_get hu
    rw [h.ids] at htarget
    refine ⟨htarget, u', hu', ?_, by rw [hid]; exact hkind, by rw [hspecific]; exact hmem⟩
    rw [TakesDefaults, hid, hunit]
    exact htakes
  funext k a b
  exact propext ⟨himp h k a b, himp h.symm k a b⟩

theorem SameUnits.socketTargetEdge (h : SameUnits t t') :
    t.SocketTargetEdge = t'.SocketTargetEdge := by
  funext k a b
  rw [SocketTargetEdge, SocketTargetEdge, h.ids]

theorem SameUnits.socketServiceEdge (h : SameUnits t t') :
    t.SocketServiceEdge = t'.SocketServiceEdge := by
  funext k a b
  rw [SocketServiceEdge, SocketServiceEdge, MatchEdge, MatchEdge, h.matchSocket]

/-- The edges of `Slice=` depend on the ids and on the names of slices. -/
theorem sliceEdge_congr (hids : t.ids = t'.ids)
    (hname : ∀ a, (t.specific a).map sliceName = (t'.specific a).map sliceName) :
    t.SliceEdge = t'.SliceEdge := by
  have himp : ∀ {t t' : UnitTable}, t.ids = t'.ids →
      (∀ a, (t.specific a).map sliceName = (t'.specific a).map sliceName) → ∀ k a b,
      t.SliceEdge k a b → t'.SliceEdge k a b := by
    rintro t t' hids hname k a b ⟨hk, s, hs, hslice⟩
    have ha := hname a
    rw [hs, Option.map_some] at ha
    obtain ⟨s', hs', heq⟩ := Option.map_eq_some_iff.mp ha.symm
    have hcontains : t'.contains = t.contains := by
      funext id
      rw [contains, contains, hids]
    refine ⟨hk, s', hs', ?_⟩
    rw [sliceId, heq, hcontains]
    exact hslice
  funext k a b
  exact propext ⟨himp hids hname k a b, himp hids.symm (fun a => (hname a).symm) k a b⟩

/-! ## The edges at the end -/

/-- The edges whose reverse is entered too: what the units declare, and what the
    passes for targets and sockets add. -/
def BothSidesEdge (t : UnitTable) (k : DepKind) (a b : UnitId) : Prop :=
  t.Lists k a b ∨ t.DefaultEdge k a b ∨ t.SocketTargetEdge k a b ∨ t.SocketServiceEdge k a b

/-- The edges that are entered on the unit `a` only. -/
def OneSideEdge (t : UnitTable) (k : DepKind) (a b : UnitId) : Prop :=
  t.MountEdge k a b ∨ t.SliceEdge k a b

theorem mirrored_bothSidesEdge :
    Mirrored mirrorOf t.BothSidesEdge k a b ↔
      Mirrored mirrorOf t.Lists k a b ∨ Mirrored mirrorOf t.DefaultEdge k a b ∨
        Mirrored mirrorOf t.SocketTargetEdge k a b ∨
          Mirrored mirrorOf t.SocketServiceEdge k a b := by
  unfold BothSidesEdge
  rw [mirrored_or, mirrored_or, mirrored_or]

theorem lists_addAllImplicitRelations :
    t.addAllImplicitRelations.Lists k a b ↔
      t.Lists k a b ∨ Mirrored mirrorOf t.DefaultEdge k a b ∨
        Mirrored mirrorOf t.SocketTargetEdge k a b ∨
          Mirrored mirrorOf t.SocketServiceEdge k a b ∨ t.OneSideEdge k a b := by
  have hdefault := sameUnits_addDefaultDependencyRelations t
  have htarget := hdefault.trans (sameUnits_addSocketTargetRelations _)
  have hslice : t.SliceEdge = SliceEdge
      t.addDefaultDependencyRelations.addSocketTargetRelations.applySocketsToServices := by
    refine sliceEdge_congr ?_ fun a => ?_
    · rw [ids_applySocketsToServices]
      exact htarget.ids
    · rw [map_specific_applySocketsToServices sliceName_addSocket sliceName_addService,
        htarget.specific]
  rw [addAllImplicitRelations, lists_addSliceDependencies, ← hslice, lists_applySocketsToServices,
    ← htarget.socketServiceEdge, lists_addSocketTargetRelations, ← hdefault.socketTargetEdge,
    lists_addDefaultDependencyRelations, OneSideEdge]
  exact Iff.of_eq (by ac_rfl)

theorem ids_addAllImplicitRelations (t : UnitTable) : t.addAllImplicitRelations.ids = t.ids := by
  have htarget := (sameUnits_addDefaultDependencyRelations t).trans
    (sameUnits_addSocketTargetRelations _)
  rw [addAllImplicitRelations, ids_addSliceDependencies, ids_applySocketsToServices]
  exact htarget.ids.symm

theorem ids_fillDependencies (t : UnitTable) : t.fillDependencies.ids = t.ids := by
  rw [fillDependencies, dedupAll, ids_mapUnits, retainExisting, ids_mapUnits,
    ids_addAllImplicitRelations]
  exact (sameUnits_fillReverse t).ids.symm

/-- The edges between loaded units after `fill_dependencies`. -/
theorem lists_fillDependencies (ha : a ∈ t.ids) (hb : b ∈ t.ids) :
    t.fillDependencies.Lists k a b ↔
      Mirrored mirrorOf t.BothSidesEdge k a b ∨ t.OneSideEdge k a b := by
  have hsame := sameUnits_fillReverse t
  have hb' : b ∈ t.fillReverse.addAllImplicitRelations.ids := by
    rw [ids_addAllImplicitRelations]
    exact hsame.ids ▸ hb
  have hdeclared : t.fillReverse.Lists k a b ↔ Mirrored mirrorOf t.Lists k a b := by
    rw [lists_fillReverse]
    constructor
    · rintro (h | ⟨_, h⟩)
      · exact Mirrored.of_edge h
      · exact h
    · intro h
      exact Or.inr ⟨ha, h⟩
  have hslice : t.SliceEdge = t.fillReverse.SliceEdge :=
    sliceEdge_congr hsame.ids fun a => by rw [hsame.specific]
  rw [fillDependencies, lists_dedupAll, lists_retainExisting hb', lists_addAllImplicitRelations,
    hdeclared, ← hsame.defaultEdge, ← hsame.socketTargetEdge, ← hsame.socketServiceEdge,
    OneSideEdge, ← hsame.mountEdge, ← hslice, mirrored_bothSidesEdge, OneSideEdge]
  exact Iff.of_eq (by ac_rfl)

/-! ## When the result is two-sided -/

/-- Every edge that is entered on one unit only is entered on the other one for
    another reason. -/
def OneSideAnswered (t : UnitTable) : Prop :=
  ∀ j k, mirrorOf j = some k → ∀ a ∈ t.ids, ∀ b ∈ t.ids, t.OneSideEdge k a b →
    Mirrored mirrorOf t.BothSidesEdge j b a ∨ t.OneSideEdge j b a

/-- `fill_dependencies` makes all edges visible on both sides exactly when every
    edge of `Slice=` and of a mount's defaults is answered by the other unit. -/
theorem fillDependencies_two_sided_iff (t : UnitTable) :
    t.fillDependencies.TwoSided ↔ t.OneSideAnswered := by
  have hlists : TwoSidedOn mirrorOf {a | a ∈ t.ids} t.fillDependencies.Lists ↔
      TwoSidedOn mirrorOf {a | a ∈ t.ids}
        fun k a b => Mirrored mirrorOf t.BothSidesEdge k a b ∨ t.OneSideEdge k a b := by
    refine forall₂_congr fun j k => imp_congr_right fun _ => ?_
    refine forall₂_congr fun a ha => forall₂_congr fun b hb => ?_
    rw [lists_fillDependencies ha hb, lists_fillDependencies hb ha]
  rw [twoSided_iff, ids_fillDependencies, hlists, twoSidedOn_or_iff mirrorOf_involutive]
  rfl

/-- A service in `app.slice`. -/
def sliced : UnitTable where
  units := [
    { id := ⟨.service, "web.service"⟩, specific := .service { slice := some "app.slice" } },
    { id := ⟨.slice, "app.slice"⟩, specific := .slice }]
  nodup := by decide

/-- The slice does not know that the service is in it. -/
theorem slice_edge_not_two_sided : ¬ sliced.fillDependencies.TwoSided := by
  intro h
  have hbefore := (h.after_before ⟨.service, "web.service"⟩ (by decide)
    ⟨.slice, "app.slice"⟩ (by decide)).mp (by decide)
  exact absurd hbefore (by decide)

end UnitTable

end OxidizedSystemd.Units
