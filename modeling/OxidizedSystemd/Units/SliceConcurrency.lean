import OxidizedSystemd.Jobs.Registry
import OxidizedSystemd.Lib.Forest
import OxidizedSystemd.Lib.Text

/-!
# Concurrency limits of slices

Model of `units/slice_concurrency.rs` (lines 39–151): the units of a slice are counted by a
recursion over the loaded slices, and a limit is looked for from a slice upwards. Neither keeps
track of what it has visited. A slice has a longer name than its parent, which ends both.

* `length_lt_of_sliceParentName`: names get shorter upwards.
* `sliceForest`: the units of a table, each below its slice, the ignored one below none.
* `sliceCurrentlyActive_eq_countP`: the recursion counts over a walk of this forest.
* `sliceConcurrency_exact`: the count is the number of units below the slice, and a limit is
  reached exactly if the slice or an ancestor has one that is not above its own count.
-/

namespace OxidizedSystemd.Units.SliceConcurrency

open OxidizedSystemd.Lib
open OxidizedSystemd.Jobs (JobRegistry JobKind JobState)

/-! ## The source -/

/-- The fields of `struct SliceConfig` (`units/unit.rs`) that the limits read. -/
structure SliceConfig where
  concurrencyHardMax : Option ℕ
  concurrencySoftMax : Option ℕ
  deriving DecidableEq

/-- `enum Specific`: the `Slice=` of a service and the settings of a slice. -/
inductive Specific
  | service (slice : Option String)
  | slice (conf : SliceConfig)
  | other
  deriving DecidableEq

/-- The fields of `struct Unit` that the limits read. -/
structure LoadedUnit where
  id : UnitId
  status : UnitStatus
  specific : Specific
  deriving DecidableEq

/-- The fields of `struct RuntimeInfo` that the limits read. Each unit is in the table under
    its own id. -/
structure RuntimeInfo where
  unitTable : List LoadedUnit
  nodup : (unitTable.map (·.id)).Nodup
  jobs : JobRegistry

/-- `is_live` (lines 42–44). -/
def isLive : UnitStatus → Bool
  | .neverStarted | .stopped _ => false
  | _ => true

/-- `mangle_slice_name` (`from_parsed_config.rs`, lines 48–54). -/
def mangleSliceName (slice : String) : String :=
  if slice.isEmpty || endsWith slice ".slice" then slice else slice ++ ".slice"

/-- `slice_parent_name` (lines 62–68). -/
def sliceParentName (sliceName : String) : Option String := do
  let base ← stripSuffix ".slice".toList sliceName.toList
  if base = ['-'] then none
  else (rsplitOnce '-' base).map fun halves => String.ofList (halves.1 ++ ".slice".toList)

/-- `parent_slice_of` (lines 49–57). -/
def parentSliceOf (unit : LoadedUnit) : Option String :=
  if unit.id.kind = .slice then sliceParentName unit.id.name
  else
    match unit.specific with
    | .service slice => slice.map mangleSliceName
    | _ => none

/-- `slice_config` (lines 71–80). -/
def sliceConfig (ri : RuntimeInfo) (sliceName : String) : Option SliceConfig :=
  match ri.unitTable.find? (·.id = ⟨.slice, sliceName⟩) with
  | some { specific := .slice conf, .. } => some conf
  | _ => none

/-- `has_pending_start` (lines 83–88). -/
def hasPendingStart (ri : RuntimeInfo) (id : UnitId) : Bool :=
  (ri.jobs.jobForUnit id).any fun j =>
    j.kind == .start && (j.state == .waiting || j.state == .running)

section Source

variable (ri : RuntimeInfo) (ignore : String)

/-- `slice_currently_active` (lines 94–118), in which the calls are nested `fuel` deep at
    most; `none` if that is not enough. The counter is a `u32`, and there are fewer units
    (`activeCount_le_length`). -/
def sliceCurrentlyActive (withPending : Bool) : ℕ → String → Option ℕ
  | 0, _ => none
  | fuel + 1, sliceName =>
    ri.unitTable.foldlM (fun n unit =>
      if unit.id.name = ignore then some n
      else if parentSliceOf unit ≠ some sliceName then some n
      else
        let n := if isLive unit.status then n + 1
          else if withPending && hasPendingStart ri unit.id then n + 1
          else n
        if unit.id.kind = .slice then
          (sliceCurrentlyActive withPending fuel unit.id.name).map fun below => n + below
        else some n) 0

/-- The limit of a slice that `concurrency_reached` compares with. -/
def limitOf (hard : Bool) (sliceName : String) : Option ℕ :=
  (sliceConfig ri sliceName).bind fun c =>
    if hard then c.concurrencyHardMax else c.concurrencySoftMax

/-- Whether the limit of a slice, if it has one, stops the loop of `concurrency_reached`. -/
def limitReached (hard : Bool) (fuel : ℕ) (s : String) : Option Bool :=
  match limitOf ri hard s with
  | some m => (sliceCurrentlyActive ri ignore hard fuel s).map fun active => decide (active ≥ m)
  | none => some false

/-- `concurrency_reached` (lines 133–151), of which at most `turns` turns are made; `fuel` is
    for the count. -/
def concurrencyReached (hard : Bool) (fuel : ℕ) : ℕ → String → Option Bool
  | 0, _ => none
  | turns + 1, s => do
    if ← limitReached ri ignore hard fuel s then some true
    else
      match sliceParentName s with
      | some parent => concurrencyReached hard fuel turns parent
      | none => some false

/-- `soft_max_reached` (lines 122–124). -/
def softMaxReached (fuel : ℕ) (sliceName : String) : Option Bool :=
  concurrencyReached ri ignore false fuel fuel sliceName

/-- `hard_max_reached` (lines 129–131). -/
def hardMaxReached (fuel : ℕ) (sliceName : String) : Option Bool :=
  concurrencyReached ri ignore true fuel fuel sliceName

end Source

/-! ## What is counted -/

/-- A unit, other than the ignored one, whose slices lead upwards to `s`, through loaded
    slices other than the ignored one. -/
inductive InSubtree (ri : RuntimeInfo) (ignore s : String) : LoadedUnit → Prop
  | direct {unit : LoadedUnit} : unit ∈ ri.unitTable → unit.id.name ≠ ignore →
      parentSliceOf unit = some s → InSubtree ri ignore s unit
  | through {unit slice : LoadedUnit} : unit ∈ ri.unitTable → unit.id.name ≠ ignore →
      parentSliceOf unit = some slice.id.name → slice.id.kind = .slice →
      InSubtree ri ignore s slice → InSubtree ri ignore s unit

/-- A unit that is live or, where pending starts count, has a start job. -/
def Counts (ri : RuntimeInfo) (withPending : Bool) (unit : LoadedUnit) : Prop :=
  isLive unit.status ∨ withPending ∧ ∃ j, ri.jobs.jobForUnit unit.id = some j ∧
    j.kind = .start ∧ (j.state = .waiting ∨ j.state = .running)

/-- The units that a slice counts. -/
noncomputable def activeCount (ri : RuntimeInfo) (ignore : String) (withPending : Bool)
    (s : String) : ℕ :=
  {unit | InSubtree ri ignore s unit ∧ Counts ri withPending unit}.ncard

/-- A slice is the other one or one of its ancestors. -/
def AncestorOrSelf (ancestor sliceName : String) : Prop :=
  Relation.ReflTransGen (fun s parent => sliceParentName s = some parent) sliceName ancestor

/-! ## Names -/

theorem length_lt_of_sliceParentName {s parent : String} (h : sliceParentName s = some parent) :
    parent.toList.length < s.toList.length := by
  obtain ⟨base, hbase, hrest⟩ := Option.bind_eq_some_iff.mp h
  split at hrest
  · cases hrest
  · obtain ⟨⟨front, behind⟩, hsplit, rfl⟩ := Option.map_eq_some_iff.mp hrest
    rw [stripSuffix_eq_some_iff.mp hbase, (rsplitOnce_eq_some_iff.mp hsplit).2]
    simp only [String.toList_ofList, List.length_append, List.length_cons]
    omega

/-! ## The forest of a table -/

/-- The name under which other units have a unit as their parent. -/
def sliceKey (unit : LoadedUnit) : Option String :=
  if unit.id.kind = .slice then some unit.id.name else none

/-- The parent of a unit, of which the ignored one has none. -/
def countedParent (ignore : String) (unit : LoadedUnit) : Option String :=
  if unit.id.name = ignore then none else parentSliceOf unit

theorem sliceKey_eq_some_iff {unit : LoadedUnit} {k : String} :
    sliceKey unit = some k ↔ unit.id = ⟨.slice, k⟩ := by
  obtain ⟨⟨kind, name⟩, status, specific⟩ := unit
  simp [sliceKey]

theorem countedParent_eq_some_iff {ignore s : String} {unit : LoadedUnit} :
    countedParent ignore unit = some s ↔ unit.id.name ≠ ignore ∧ parentSliceOf unit = some s := by
  simp [countedParent]

section Forest

variable (ri : RuntimeInfo) (ignore : String)

/-- The units of a table, each below the slice that it names. -/
def sliceForest : Forest LoadedUnit String where
  nodes := ri.unitTable
  nodup := ri.nodup.of_map
  parent := countedParent ignore
  key := sliceKey
  key_inj := by
    intro a ha b hb k hka hkb
    have hid : a.id = b.id :=
      (sliceKey_eq_some_iff.mp hka).trans (sliceKey_eq_some_iff.mp hkb).symm
    exact List.inj_on_of_nodup_map ri.nodup ha hb hid
  depth name := name.toList.length
  parent_lt := by
    intro a p k hparent hkey
    have hslice := (countedParent_eq_some_iff.mp hparent).2
    rw [parentSliceOf, sliceKey_eq_some_iff.mp hkey] at hslice
    exact length_lt_of_sliceParentName hslice

variable {ri ignore} {s : String} {unit : LoadedUnit}

theorem below_sliceForest : (sliceForest ri ignore).Below s unit ↔ InSubtree ri ignore s unit := by
  constructor
  · intro h
    induction h with
    | child ha hparent =>
      obtain ⟨hname, hslice⟩ := countedParent_eq_some_iff.mp hparent
      exact .direct ha hname hslice
    | @deeper a c j ha hparent hkey _ ih =>
      obtain ⟨hname, hslice⟩ := countedParent_eq_some_iff.mp hparent
      have hid := sliceKey_eq_some_iff.mp hkey
      exact .through ha hname (by rw [hid, hslice]) (by rw [hid]) ih
  · intro h
    induction h with
    | direct hmem hname hparent =>
      exact .child hmem (countedParent_eq_some_iff.mpr ⟨hname, hparent⟩)
    | through hmem hname hparent hkind _ ih =>
      exact .deeper hmem (countedParent_eq_some_iff.mpr ⟨hname, hparent⟩) (if_pos hkind) ih

end Forest

/-! ## The count -/

section Count

variable {ri : RuntimeInfo} {ignore s : String} {withPending : Bool} {fuel : ℕ}

/-- `Counts`, as the code decides it. -/
def counts (ri : RuntimeInfo) (withPending : Bool) (unit : LoadedUnit) : Bool :=
  isLive unit.status || withPending && hasPendingStart ri unit.id

theorem counts_iff {unit : LoadedUnit} :
    counts ri withPending unit = true ↔ Counts ri withPending unit := by
  rw [counts, Counts, hasPendingStart]
  cases ri.jobs.jobForUnit unit.id <;> simp

/-- The recursion counts over the walk of the forest. -/
theorem sliceCurrentlyActive_eq_countP (h : (sliceForest ri ignore).Enough fuel s) :
    sliceCurrentlyActive ri ignore withPending fuel s =
      some (((sliceForest ri ignore).walk fuel s).countP (counts ri withPending)) := by
  induction fuel generalizing s with
  | zero => exact absurd h.1 (Nat.lt_irrefl 0)
  | succ fuel ih =>
    rw [sliceCurrentlyActive, Forest.walk, List.countP_flatMap, ← Nat.zero_add (List.sum _)]
    refine foldlM_add ?_ 0
    intro unit hunit n
    have hchild : (sliceForest ri ignore).parent unit = some s ↔
        unit.id.name ≠ ignore ∧ parentSliceOf unit = some s := countedParent_eq_some_iff
    rw [Function.comp_apply]
    by_cases hname : unit.id.name = ignore
    · simp [hname, hchild]
    by_cases hparent : parentSliceOf unit = some s
    · have hbelow := hchild.mpr ⟨hname, hparent⟩
      have hone : (if isLive unit.status then n + 1
          else if withPending && hasPendingStart ri unit.id then n + 1 else n) =
          n + if counts ri withPending unit then 1 else 0 := by
        cases hlive : isLive unit.status <;> simp [counts, hlive, apply_ite (n + ·)]
      rw [if_neg hname, if_neg (not_not.mpr hparent), if_pos hbelow, hone, List.countP_cons]
      have hkey : (sliceForest ri ignore).key unit = sliceKey unit := rfl
      rw [hkey, sliceKey]
      by_cases hkind : unit.id.kind = .slice
      · rw [if_pos hkind, if_pos hkind, ih (h.child hunit hbelow (if_pos hkind))]
        simp [Nat.add_comm, Nat.add_left_comm]
      · simp [hkind]
    · simp [hname, hparent, hchild]

theorem sliceCurrentlyActive_eq (h : (sliceForest ri ignore).Enough fuel s) :
    sliceCurrentlyActive ri ignore withPending fuel s =
      some (activeCount ri ignore withPending s) := by
  rw [sliceCurrentlyActive_eq_countP h, Forest.countP_walk h]
  simp only [below_sliceForest, counts_iff]
  rfl

/-- Nothing is counted twice. -/
theorem activeCount_le_length : activeCount ri ignore withPending s ≤ ri.unitTable.length := by
  classical
  have hsubset : {unit | InSubtree ri ignore s unit ∧ Counts ri withPending unit} ⊆
      ↑ri.unitTable.toFinset := by
    rintro unit ⟨hbelow, -⟩
    exact List.mem_toFinset.mpr (below_sliceForest.mpr hbelow).mem
  calc activeCount ri ignore withPending s
      ≤ Set.ncard (↑ri.unitTable.toFinset : Set LoadedUnit) :=
        Set.ncard_le_ncard hsubset (Finset.finite_toSet _)
    _ = ri.unitTable.toFinset.card := Set.ncard_coe_finset _
    _ ≤ ri.unitTable.length := List.toFinset_card_le _

end Count

/-! ## The limits -/

section Limits

variable {ri : RuntimeInfo} {ignore s : String} {hard : Bool} {fuel turns : ℕ}

/-- A slice has a limit that its own count reaches. -/
def Reaches (ri : RuntimeInfo) (ignore : String) (hard : Bool) (s : String) : Prop :=
  ∃ m, limitOf ri hard s = some m ∧ m ≤ activeCount ri ignore hard s

theorem ancestorOrSelf_iff {s ancestor : String} :
    AncestorOrSelf ancestor s ↔
      ancestor = s ∨ ∃ parent, sliceParentName s = some parent ∧ AncestorOrSelf ancestor parent :=
  Relation.ReflTransGen.cases_head_iff.trans (or_congr_left eq_comm)

theorem limitReached_eq (hfuel : (sliceForest ri ignore).height < fuel) (hard : Bool)
    (s : String) :
    ∃ b, limitReached ri ignore hard fuel s = some b ∧ (b = true ↔ Reaches ri ignore hard s) := by
  rw [limitReached, sliceCurrentlyActive_eq (Forest.enough_of_height_lt hfuel s)]
  unfold Reaches
  cases limitOf ri hard s with
  | none => exact ⟨false, rfl, by simp⟩
  | some m => exact ⟨_, rfl, by simp⟩

/-- The walk upwards stops at the first slice whose limit is reached. -/
theorem concurrencyReached_eq (hfuel : (sliceForest ri ignore).height < fuel)
    (hturns : s.toList.length < turns) :
    ∃ reached, concurrencyReached ri ignore hard fuel turns s = some reached ∧
      (reached = true ↔
        ∃ ancestor, AncestorOrSelf ancestor s ∧ Reaches ri ignore hard ancestor) := by
  induction turns generalizing s with
  | zero => exact absurd hturns (Nat.not_lt_zero _)
  | succ turns ih =>
    obtain ⟨b, hb, hreaches⟩ := limitReached_eq hfuel hard s
    rw [concurrencyReached, hb, Option.bind_eq_bind, Option.bind_some]
    by_cases h : b = true
    · exact ⟨true, if_pos h, iff_of_true rfl ⟨s, .refl, hreaches.mp h⟩⟩
    rw [if_neg h]
    have hup : (∃ ancestor, AncestorOrSelf ancestor s ∧ Reaches ri ignore hard ancestor) ↔
        ∃ parent, sliceParentName s = some parent ∧
          ∃ ancestor, AncestorOrSelf ancestor parent ∧ Reaches ri ignore hard ancestor := by
      constructor
      · rintro ⟨ancestor, hancestor, hreach⟩
        obtain rfl | ⟨parent, hparent, hrest⟩ := ancestorOrSelf_iff.mp hancestor
        · exact absurd (hreaches.mpr hreach) h
        · exact ⟨parent, hparent, ancestor, hrest, hreach⟩
      · rintro ⟨parent, hparent, ancestor, hrest, hreach⟩
        exact ⟨ancestor, ancestorOrSelf_iff.mpr (Or.inr ⟨parent, hparent, hrest⟩), hreach⟩
    cases hparent : sliceParentName s with
    | none => exact ⟨false, rfl, by simp [hup, hparent]⟩
    | some parent =>
      have hlt := length_lt_of_sliceParentName hparent
      obtain ⟨reached, hreached, hiff⟩ := ih (s := parent) (by omega)
      refine ⟨reached, hreached, ?_⟩
      rw [hiff, hup, hparent]
      simp

/-- For every table and slice, with nesting enough: `sliceCurrentlyActive` is the number of
    units below the slice that are live or, where pending starts count, have a start job; and
    a limit is reached exactly if the slice or one of its ancestors has a limit that is not
    greater than its own count. -/
theorem sliceConcurrency_exact (ri : RuntimeInfo) (sliceName ignore : String) :
    ∃ enough, ∀ fuel ≥ enough,
      (∀ withPending, sliceCurrentlyActive ri ignore withPending fuel sliceName =
        some {unit | InSubtree ri ignore sliceName unit ∧ Counts ri withPending unit}.ncard) ∧
      (∃ reached, hardMaxReached ri ignore fuel sliceName = some reached ∧
        (reached = true ↔ ∃ ancestor, AncestorOrSelf ancestor sliceName ∧
          Reaches ri ignore true ancestor)) ∧
      ∃ reached, softMaxReached ri ignore fuel sliceName = some reached ∧
        (reached = true ↔ ∃ ancestor, AncestorOrSelf ancestor sliceName ∧
          Reaches ri ignore false ancestor) := by
  refine ⟨(sliceForest ri ignore).height + sliceName.toList.length + 1, ?_⟩
  intro fuel hfuel
  have hheight : (sliceForest ri ignore).height < fuel := by omega
  have hturns : sliceName.toList.length < fuel := by omega
  refine ⟨?_, concurrencyReached_eq hheight hturns, concurrencyReached_eq hheight hturns⟩
  intro withPending
  exact sliceCurrentlyActive_eq (Forest.enough_of_height_lt hheight sliceName)

end Limits

end OxidizedSystemd.Units.SliceConcurrency
