import OxidizedSystemd.Repart.BestFit
import OxidizedSystemd.Repart.Span
import Mathlib.Algebra.Order.BigOperators.Group.List

/-!
# The plan fits into the gaps

The sizes that are settled for the areas of first fit leave every area with room for its new
partitions, so that they can be packed into the gaps. The exception are areas that an existing
partition competes for whose size is no multiple of the grain: their span is a little too long.

* `firstFit_minimums_le`: first fit promises no area more than it offers.
* `grownIn_new_le`: the sizes that are settled in an area leave room for one another.
* `plan_packs`: the settled sizes can be packed.
-/

namespace OxidizedSystemd.Repart

open OxidizedSystemd.Lib

variable {defs : List PartitionDefinition} {sectorSize : ℕ}

/-! ## First fit -/

/-- The least that a new partition takes, with its padding. -/
def newMinimum (p : MatchedPartition × SpaceRequest) : ℕ :=
  if p.1.isNew then p.2.minBytes + p.2.paddingMin else 0

theorem newMinimum_of_not_isNew {p : MatchedPartition × SpaceRequest} (h : p.1.isNew = false) :
    newMinimum p = 0 := by
  rw [newMinimum, h]
  rfl

/-- First fit promises no area more than its budget. -/
theorem firstFit_minimums_le (areas : List FreeArea) (order : List ℕ) {budget : ℕ → ℕ}
    (hwords : ∀ ai, budget ai < 2 ^ 64 - 1) (ms : List MatchedPartition) (ai : ℕ) :
    ((members defs sectorSize ms (assignLoop defs sectorSize areas order budget ms) ai).map
      newMinimum).sum ≤ budget ai := by
  induction ms generalizing budget with
  | nil => exact Nat.zero_le _
  | cons m ms ih =>
    rw [assignLoop]
    cases hreq : request defs sectorSize m with
    | none =>
      simp only [assignOne, hreq]
      rw [members_cons_other (by simp)]
      exact ih hwords
    | some req =>
      cases hnew : m.isNew with
      | false =>
        simp only [assignOne, hreq, hnew, Bool.false_eq_true, if_false]
        by_cases ha : (areas.findIdx? fun a =>
            (a.after.map fun p => isExisting p m).getD false) = some ai
        · rw [ha, members_cons_same hreq, List.map_cons, List.sum_cons,
            newMinimum_of_not_isNew hnew, Nat.zero_add]
          exact ih hwords
        · rw [members_cons_other ha]
          exact ih hwords
      | true =>
        simp only [assignOne, hreq, hnew, if_true]
        cases hfind : order.find? fun i =>
            decide (saturatingAdd req.minBytes req.paddingMin ≤ budget i) with
        | none =>
          rw [members_cons_other (by simp)]
          exact ih hwords
        | some ai₀ =>
          dsimp only
          have hfound := List.find?_some hfind
          have hfits := of_decide_eq_true hfound
          have hless : ∀ i, Function.update budget ai₀
              (budget ai₀ - saturatingAdd req.minBytes req.paddingMin) i < 2 ^ 64 - 1 := fun i => by
            by_cases hi : i = ai₀
            · rw [hi, Function.update_self]
              exact Nat.lt_of_le_of_lt (Nat.sub_le _ _) (hwords ai₀)
            · rw [Function.update_of_ne hi]
              exact hwords i
          have hrest := ih hless
          by_cases hai : ai = ai₀
          · subst hai
            rw [members_cons_same hreq, List.map_cons, List.sum_cons]
            rw [Function.update_self] at hrest
            have hminimum : newMinimum (m, req) = saturatingAdd req.minBytes req.paddingMin := by
              have hlt := hwords ai
              rw [newMinimum, if_pos hnew]
              rw [saturatingAdd] at hfits ⊢
              simp only
              omega
            omega
          · rw [members_cons_other fun heq => hai (Option.some.inj heq).symm]
            rwa [Function.update_of_ne hai] at hrest

/-! ## Sizes of an area -/

/-- What an existing partition that competes for an area has, with its padding. -/
def keptMinimum (defs : List PartitionDefinition) (sectorSize : ℕ)
    (p : MatchedPartition × SpaceRequest) : ℕ :=
  if p.1.isNew then 0 else (sizeClaim defs sectorSize p).min + p.2.paddingMin

/-- What a new partition is given. -/
def newSize (q : (MatchedPartition × SpaceRequest) × (ℕ × ℕ)) : ℕ :=
  if q.1.1.isNew then q.2.1 else 0

theorem claims_minimum (defs : List PartitionDefinition) (sectorSize : ℕ)
    (p : MatchedPartition × SpaceRequest) :
    (sizeClaim defs sectorSize p).min + (paddingClaim p).min =
      newMinimum p + keptMinimum defs sectorSize p := by
  rw [newMinimum, keptMinimum]
  cases hnew : p.1.isNew with
  | true => simp [sizeClaim, paddingClaim, hnew]
  | false => simp [paddingClaim]

theorem minimums_flatMap (defs : List PartitionDefinition) (sectorSize : ℕ)
    (ms : List (MatchedPartition × SpaceRequest)) :
    minimums (ms.flatMap fun p => [sizeClaim defs sectorSize p, paddingClaim p]) =
      (ms.map newMinimum).sum + (ms.map (keptMinimum defs sectorSize)).sum := by
  induction ms with
  | nil => rfl
  | cons p ms ih =>
    rw [List.flatMap_cons, List.map_cons, List.map_cons, List.sum_cons, List.sum_cons]
    simp only [List.cons_append, List.nil_append, minimums_cons, ih]
    have hclaims := claims_minimum defs sectorSize p
    omega

theorem sum_pairs {α : Type*} {P : SpanClaim → ℕ → Prop} {f g : α → SpanClaim} {as : List α}
    {sizes : List ℕ} (h : List.Forall₂ P (as.flatMap fun a => [f a, g a]) sizes) :
    ((pairs sizes).map fun s => s.1 + s.2).sum = sizes.sum := by
  induction as generalizing sizes with
  | nil =>
    rw [List.forall₂_nil_left_iff.mp h]
    rfl
  | cons a as ih =>
    obtain ⟨s, rest, hs, hrest, rfl⟩ := List.forall₂_cons_left_iff.mp h
    obtain ⟨s', rest', hs', hrest', rfl⟩ := List.forall₂_cons_left_iff.mp hrest
    have hsum := ih hrest'
    rw [pairs, List.map_cons, List.sum_cons, List.sum_cons, List.sum_cons, hsum]
    omega

/-- Beside what the new partitions get, the others keep what they have. -/
theorem sum_newSize_le {ms : List (MatchedPartition × SpaceRequest)} {grown : List (ℕ × ℕ)}
    (h : List.Forall₂ (fun p s => (sizeClaim defs sectorSize p).min ≤ s.1 ∧
      (paddingClaim p).min ≤ s.2) ms grown) :
    ((ms.zip grown).map newSize).sum + (ms.map (keptMinimum defs sectorSize)).sum ≤
      (grown.map fun s => s.1 + s.2).sum := by
  induction h with
  | nil => exact Nat.le_refl _
  | @cons p s ms grown hone _ ih =>
    have hhead : newSize (p, s) + keptMinimum defs sectorSize p ≤ s.1 + s.2 := by
      rw [newSize, keptMinimum]
      cases hnew : p.1.isNew with
      | true => simp
      | false =>
        obtain ⟨hsize, hpadding⟩ := hone
        rw [paddingClaim] at hpadding
        simp only [Bool.false_eq_true, if_false] at hpadding ⊢
        omega
    rw [List.zip_cons_cons, List.map_cons, List.map_cons, List.map_cons, List.sum_cons,
      List.sum_cons, List.sum_cons]
    omega

variable {matched : List MatchedPartition} {areas : List FreeArea} {assigned : List (Option ℕ)}
  {ai : ℕ}

/-- The existing partitions that compete for an area, together. -/
def keptIn (defs : List PartitionDefinition) (sectorSize : ℕ) (matched : List MatchedPartition)
    (assigned : List (Option ℕ)) (ai : ℕ) : ℕ :=
  ((members defs sectorSize matched assigned ai).map (keptMinimum defs sectorSize)).sum

/-- The new partitions of an area get no more than it offers, if they are promised no more and
    its span is no longer than what it offers with what the others have. -/
theorem grownIn_new_le (areas : List FreeArea)
    (hminimums : ((members defs sectorSize matched assigned ai).map newMinimum).sum ≤
      available defs sectorSize matched areas ai)
    (hpreceding : ((areas[ai]?).map fun a => precedingExtent sectorSize a
      (members defs sectorSize matched assigned ai)).getD 0 ≤
        keptIn defs sectorSize matched assigned ai)
    (hwords : available defs sectorSize matched areas ai +
      keptIn defs sectorSize matched assigned ai + grain sectorSize ≤ 2 ^ 64) :
    (((members defs sectorSize matched assigned ai).zip
      (grownIn defs sectorSize matched areas assigned ai)).map newSize).sum ≤
        available defs sectorSize matched areas ai := by
  have hbounds := growClaims_bounds
    ((members defs sectorSize matched assigned ai).flatMap fun p =>
      [sizeClaim defs sectorSize p, paddingClaim p])
    (available defs sectorSize matched areas ai + ((areas[ai]?).map fun a =>
      precedingExtent sectorSize a (members defs sectorSize matched assigned ai)).getD 0)
    (grain sectorSize)
  have hnew := sum_newSize_le ((pairs_rel hbounds).imp fun _ _ h => ⟨h.1.1, h.2.1⟩)
  rw [sum_pairs hbounds, ← keptIn] at hnew
  have hmins := minimums_flatMap defs sectorSize
    (members defs sectorSize matched assigned ai)
  rw [← keptIn] at hmins
  have hmax : max (available defs sectorSize matched areas ai + ((areas[ai]?).map fun a =>
      precedingExtent sectorSize a (members defs sectorSize matched assigned ai)).getD 0)
      (minimums ((members defs sectorSize matched assigned ai).flatMap fun p =>
        [sizeClaim defs sectorSize p, paddingClaim p])) + grain sectorSize ≤ 2 ^ 64 := by
    omega
  have hsum := growClaims_sum_le _ _ hmax
  rw [grownIn]
  omega

/-! ## Where the plan puts the partitions -/

/-- The sectors of each new partition, with its area. -/
def placedIn (sectorSize : ℕ) :
    List MatchedPartition → List (Option ℕ) → List (ℕ × ℕ) → List (ℕ × ℕ)
  | m :: ms, some ai :: as, size :: ss =>
    if m.isNew then
      (ai, alignDown size.1 (grain sectorSize) / sectorSize) :: placedIn sectorSize ms as ss
    else placedIn sectorSize ms as ss
  | _ :: ms, none :: as, _ :: ss => placedIn sectorSize ms as ss
  | _, _, _ => []

/-- An area is loaded with no more than what its new partitions get. -/
theorem load_placedIn_le {ms : List MatchedPartition} {as : List (Option ℕ)}
    {grown : ℕ → List (ℕ × ℕ)}
    (hreq : ∀ p ∈ ms.zip as, p.2 ≠ none → (request defs sectorSize p.1).isSome)
    (hlen : ∀ ai, (members defs sectorSize ms as ai).length = (grown ai).length) (ai : ℕ) :
    load (placedIn sectorSize ms as (distribute as grown)) ai * sectorSize ≤
      (((members defs sectorSize ms as ai).zip (grown ai)).map newSize).sum := by
  induction ms generalizing as grown with
  | nil => simp [placedIn, load]
  | cons m ms ih =>
    cases as with
    | nil => simp [placedIn, load]
    | cons a as =>
      rw [List.zip_cons_cons] at hreq
      obtain ⟨hreq₀, hreqs⟩ := List.forall_mem_cons.mp hreq
      cases a with
      | none =>
        have hother : ∀ ai, members defs sectorSize (m :: ms) (none :: as) ai =
            members defs sectorSize ms as ai := fun _ => members_cons_other (by simp)
        rw [distribute, placedIn, hother]
        exact ih hreqs fun ai => by rw [← hother, hlen]
      | some ai₀ =>
        obtain ⟨req, hr⟩ := Option.isSome_iff_exists.mp (hreq₀ (by simp))
        have hself : members defs sectorSize (m :: ms) (some ai₀ :: as) ai₀ =
            (m, req) :: members defs sectorSize ms as ai₀ := members_cons_same hr
        have hother : ∀ {ai}, ai ≠ ai₀ → members defs sectorSize (m :: ms) (some ai₀ :: as) ai =
            members defs sectorSize ms as ai := fun hai =>
          members_cons_other fun heq => hai (Option.some.inj heq).symm
        have hlen₀ := hlen ai₀
        rw [hself, List.length_cons] at hlen₀
        obtain ⟨size, rest, hgrown⟩ := List.exists_cons_of_length_eq_add_one hlen₀.symm
        have hrest : ∀ ai, (members defs sectorSize ms as ai).length =
            (Function.update grown ai₀ rest ai).length := fun ai => by
          by_cases hai : ai = ai₀
          · rw [hai, Function.update_self]
            rw [hgrown, List.length_cons] at hlen₀
            omega
          · rw [Function.update_of_ne hai, ← hlen, hother hai]
        have hload := ih hreqs hrest
        rw [distribute, hgrown]
        simp only [List.headD_cons, List.tail_cons]
        rw [placedIn]
        have hsectors : alignDown size.1 (grain sectorSize) / sectorSize * sectorSize ≤ size.1 :=
          Nat.le_trans (Nat.div_mul_le_self _ _) (alignDown_le _ _)
        by_cases hai : ai = ai₀
        · subst hai
          rw [Function.update_self] at hload
          rw [hself, hgrown, List.zip_cons_cons, List.map_cons, List.sum_cons, newSize]
          cases hnew : m.isNew with
          | true =>
            simp only [if_true]
            rw [load_cons_self, Nat.add_mul]
            exact Nat.add_le_add hsectors hload
          | false =>
            simp only [Bool.false_eq_true, if_false, Nat.zero_add]
            exact hload
        · rw [Function.update_of_ne hai] at hload
          rw [hother hai]
          cases hnew : m.isNew with
          | true =>
            simp only [if_true]
            rwa [load_cons_of_ne (Ne.symm hai)]
          | false =>
            simp only [Bool.false_eq_true, if_false]
            exact hload

theorem mem_of_placedIn {ms : List MatchedPartition} {as : List (Option ℕ)} {ss : List (ℕ × ℕ)} :
    ∀ p ∈ placedIn sectorSize ms as ss, some p.1 ∈ as := by
  induction ms generalizing as ss with
  | nil =>
    intro p hp
    simp [placedIn] at hp
  | cons m ms ih =>
    intro p hp
    cases as with
    | nil => simp [placedIn] at hp
    | cons a as =>
      cases ss with
      | nil => cases a <;> simp [placedIn] at hp
      | cons size ss =>
        cases a with
        | none => exact List.mem_cons_of_mem _ (ih p hp)
        | some ai =>
          rw [placedIn] at hp
          split at hp
          · rcases List.mem_cons.mp hp with rfl | hp
            · exact List.mem_cons_self
            · exact List.mem_cons_of_mem _ (ih p hp)
          · exact List.mem_cons_of_mem _ (ih p hp)

/-- The sizes before the layout are those of the areas. -/
theorem placeItems_applySizes {uuidOf : String → ℕ → String} {used : List ℕ} {types : List String}
    {ms : List MatchedPartition} {as : List (Option ℕ)} {ss : List (ℕ × ℕ)}
    (has : as.length = ms.length) (hss : ss.length = ms.length) (hgrain : 0 < grain sectorSize)
    (h : ∀ (k : ℕ) (m : MatchedPartition), ms[k]? = some m → m.isNew →
      ∃ ai size, as[k]? = some (some ai) ∧ ss[k]? = some size ∧ grain sectorSize ≤ size.1) :
    (placeItems sectorSize (applySizes defs sectorSize uuidOf used types ms ss)).map Prod.fst =
      (placedIn sectorSize ms as ss).map Prod.snd := by
  induction ms generalizing as ss used types with
  | nil =>
    rw [applySizes]
    · simp [placeItems, placedIn]
    · simp
  | cons m ms ih =>
    cases as with
    | nil => simp at has
    | cons a as =>
      cases ss with
      | nil => simp at hss
      | cons size ss =>
        have hrest := fun used types => @ih used types as ss (by simpa using has)
          (by simpa using hss) fun k m' hm' hnew' => h (k + 1) m' hm' hnew'
        rw [applySizes_cons]
        cases hnew : m.isNew with
        | true =>
          obtain ⟨ai, size', ha, hsize, hle⟩ := h 0 m rfl hnew
          obtain rfl : a = some ai := by simpa using ha
          obtain rfl : size = size' := by simpa using hsize
          have hne : alignDown size.1 (grain sectorSize) ≠ 0 := by
            rw [alignDown, if_neg (by omega)]
            exact Nat.ne_of_gt (Nat.mul_pos (Nat.div_pos hle hgrain) hgrain)
          rw [applySize_of_isNew hnew]
          rw [placeItems_cons_of_needsPlace]
          swap
          · exact ⟨hnew, hne⟩
          rw [List.map_cons, hrest, placedIn, if_pos hnew, List.map_cons]
        | false =>
          have hno : ¬ (applySize defs sectorSize uuidOf used
              (types.count (definition defs m).typeUuid) m size).1.NeedsPlace := fun hneeds => by
            have hsame := (applySize_frame defs sectorSize uuidOf used
              (types.count (definition defs m).typeUuid) m size).1
            rw [hneeds.1, hnew] at hsame
            cases hsame
          rw [placeItems_cons_of_not_needsPlace hno, hrest]
          cases a with
          | none => rw [placedIn]
          | some ai => rw [placedIn, if_neg (by simp [hnew])]

/-! ## Areas and gaps -/

theorem map_areasFrom (last cursor : ℕ) (previous : Option GptPartition)
    (ps : List GptPartition) :
    (areasFrom last cursor previous ps).map (fun a => (a.startLba, a.endLba)) =
      regionsFrom last cursor (ps.map GptPartition.extent) := by
  induction ps generalizing cursor previous with
  | nil =>
    rw [areasFrom, List.map_nil, regionsFrom]
    split <;> rfl
  | cons p ps ih =>
    rw [areasFrom, List.map_append, ih, List.map_cons, GptPartition.extent, regionsFrom]
    split <;> rfl

/-- The areas are the gaps, each with the partition that it follows. -/
theorem map_findFreeAreas (existing : List GptPartition) (first last : ℕ) :
    (findFreeAreas existing first last).map FreeArea.sectors =
      (findFreeRegions existing first last).map regionSectors := by
  have hsort : (existing.insertionSort fun p q => p.firstLba ≤ q.firstLba).map
        GptPartition.extent =
      (existing.map GptPartition.extent).insertionSort fun a b => a.1 ≤ b.1 :=
    List.map_insertionSort _ _ _ _ fun _ _ _ _ => Iff.rfl
  have hregions : (findFreeAreas existing first last).map (fun a => (a.startLba, a.endLba)) =
      findFreeRegions existing first last := by
    rw [findFreeAreas, map_areasFrom, hsort]
    rfl
  rw [← hregions, List.map_map]
  rfl

theorem mem_of_areasFrom {last cursor : ℕ} {previous : Option GptPartition}
    {ps : List GptPartition} : ∀ a ∈ areasFrom last cursor previous ps, ∀ p,
      a.after = some p → p ∈ ps ∨ previous = some p := by
  induction ps generalizing cursor previous with
  | nil =>
    intro a ha p hp
    rw [areasFrom] at ha
    split at ha
    · rw [List.mem_singleton.mp ha] at hp
      exact .inr hp
    · exact absurd ha List.not_mem_nil
  | cons q ps ih =>
    intro a ha p hp
    rw [areasFrom] at ha
    rcases List.mem_append.mp ha with ha | ha
    · split at ha
      · rw [List.mem_singleton.mp ha] at hp
        exact .inr hp
      · exact absurd ha List.not_mem_nil
    · rcases ih a ha p hp with hmem | heq
      · exact .inl (List.mem_cons_of_mem q hmem)
      · exact .inl (Option.some.inj heq ▸ List.mem_cons_self)

/-- The partition that an area follows is one of the table. -/
theorem mem_of_findFreeAreas {existing : List GptPartition} {first last : ℕ} {a : FreeArea}
    {p : GptPartition} (ha : a ∈ findFreeAreas existing first last) (hp : a.after = some p) :
    p ∈ existing := by
  rcases mem_of_areasFrom a ha p hp with hmem | hnone
  · exact (List.mem_insertionSort _).mp hmem
  · cases hnone

/-! ## The plan -/

theorem mem_members {matched : List MatchedPartition} {assigned : List (Option ℕ)} {ai : ℕ}
    {p : MatchedPartition × SpaceRequest}
    (h : p ∈ members defs sectorSize matched assigned ai) :
    p.1 ∈ matched ∧ request defs sectorSize p.1 = some p.2 := by
  obtain ⟨⟨m, a⟩, hmem, hsome⟩ := List.mem_filterMap.mp h
  split at hsome
  · obtain ⟨req, hreq, rfl⟩ := Option.map_eq_some_iff.mp hsome
    exact ⟨(List.of_mem_zip hmem).1, hreq⟩
  · cases hsome

theorem assignOne_lt {areas : List FreeArea} {order : List ℕ} {budget : ℕ → ℕ}
    {m : MatchedPartition} {ai : ℕ} (horder : ∀ i ∈ order, i < areas.length)
    (h : (assignOne defs sectorSize areas order budget m).1 = some ai) : ai < areas.length := by
  cases hreq : request defs sectorSize m with
  | none => simp [assignOne, hreq] at h
  | some req =>
    cases hnew : m.isNew with
    | false =>
      simp only [assignOne, hreq, hnew, Bool.false_eq_true, if_false] at h
      exact (List.findIdx?_eq_some_iff_findIdx_eq.mp h).1
    | true =>
      simp only [assignOne, hreq, hnew, if_true] at h
      split at h
      · rename_i ai' hfind
        rw [← Option.some.inj h]
        exact horder ai' (List.mem_of_find?_eq_some hfind)
      · cases h

section Plan

variable {existing : List GptPartition} {sectorSize : SectorSize} {uuidOf : String → ℕ → String}
  {first last : ℕ}

theorem assignment_lt {matched : List MatchedPartition} {areas : List FreeArea} {ai : ℕ}
    (h : some ai ∈ assignment defs sectorSize.bytes matched areas) : ai < areas.length := by
  obtain ⟨k, hk⟩ := List.mem_iff_getElem?.mp h
  rw [assignment_getElem?] at hk
  obtain ⟨m, -, hone⟩ := Option.map_eq_some_iff.mp hk
  refine assignOne_lt (fun i hi => ?_) hone
  exact List.mem_range.mp ((List.mem_insertionSort _).mp hi)

/-- No area is next to a competing partition whose size is no multiple of the grain. -/
def Aligned (defs : List PartitionDefinition) (sectorSize : ℕ) (existing : List GptPartition) :
    Prop :=
  ∀ m ∈ matchPartitions defs existing, (request defs sectorSize m).isSome →
    ∀ e, m.existing = some e → grain sectorSize ∣ e.sizeBytes sectorSize

theorem alignUp_le_of_dvd {val align : ℕ} (h : align ∣ val) : alignUp val align ≤ val := by
  rw [alignUp]
  split
  · exact Nat.le_refl val
  · rename_i halign
    obtain ⟨q, rfl⟩ := h
    have hdiv : (align * q + align - 1) / align = q := by
      rw [Nat.div_eq_iff (Nat.pos_of_ne_zero halign)]
      rw [Nat.mul_comm align q]
      omega
    rw [hdiv, Nat.mul_comm q align]
    exact Nat.mod_le _ _

/-- The span of an area is longer than it offers by what a competing partition has. -/
theorem precedingExtent_le {a : FreeArea} {ai : ℕ} {assigned : List (Option ℕ)}
    (hslots : (existing.map (·.slotIndex)).Nodup)
    (haligned : Aligned defs sectorSize.bytes existing)
    (ha : a ∈ findFreeAreas existing first last) :
    precedingExtent sectorSize.bytes a
        (members defs sectorSize.bytes (matchPartitions defs existing) assigned ai) ≤
      keptIn defs sectorSize.bytes (matchPartitions defs existing) assigned ai := by
  rw [precedingExtent]
  split
  · rename_i p hafter
    split
    · rename_i hany
      obtain ⟨r, hr, hcompetes⟩ := List.any_eq_true.mp hany
      rw [Bool.and_eq_true, Bool.not_eq_true'] at hcompetes
      obtain ⟨hold, hslot⟩ := hcompetes
      obtain ⟨hmatched, hreq⟩ := mem_members hr
      obtain ⟨e, he, hslot⟩ := Option.map_eq_some_iff.mp (of_decide_eq_true hslot)
      have heq : e = p := List.inj_on_of_nodup_map hslots
        (mem_of_matchPartitions existing defs r.1 hmatched e he)
        (mem_of_findFreeAreas ha hafter) hslot
      subst heq
      have hdvd := haligned r.1 hmatched (by rw [hreq]; rfl) e he
      have hkept : e.sizeBytes sectorSize.bytes ≤ keptMinimum defs sectorSize.bytes r := by
        simp [keptMinimum, sizeClaim, hold, he]
      refine Nat.le_trans (alignUp_le_of_dvd hdvd) (Nat.le_trans hkept ?_)
      exact List.le_sum_of_mem (List.mem_map_of_mem hr)
    · exact Nat.zero_le _
  · exact Nat.zero_le _

/-- The numbers of every area are within the words. -/
def AreasInWords (defs : List PartitionDefinition) (sectorSize : ℕ) (existing : List GptPartition)
    (first last : ℕ) : Prop :=
  ∀ ai, available defs sectorSize (matchPartitions defs existing)
      (findFreeAreas existing first last) ai +
    keptIn defs sectorSize (matchPartitions defs existing)
      (assignment defs sectorSize (matchPartitions defs existing)
        (findFreeAreas existing first last)) ai + grain sectorSize ≤ 2 ^ 64

/-- The sizes that are settled for the areas of first fit can be packed into the gaps. -/
theorem plan_packs (hslots : (existing.map (·.slotIndex)).Nodup)
    (haligned : Aligned defs sectorSize.bytes existing)
    (hwords : AreasInWords defs sectorSize.bytes existing first last)
    (hassigned : AllAssigned defs sectorSize.bytes existing first last) :
    Packs (gaps existing first last)
      ((plan defs sectorSize.bytes uuidOf existing first last).map Prod.fst) := by
  have hgrain := sectorSize.grain_eq
  have hplan : (plan defs sectorSize.bytes uuidOf existing first last).map Prod.fst =
      (placedIn sectorSize.bytes (matchPartitions defs existing)
        (assignment defs sectorSize.bytes (matchPartitions defs existing)
          (findFreeAreas existing first last))
        (sizes defs sectorSize.bytes (matchPartitions defs existing)
          (findFreeAreas existing first last)
          (assignment defs sectorSize.bytes (matchPartitions defs existing)
            (findFreeAreas existing first last)))).map Prod.snd := by
    refine placeItems_applySizes ?_ (length_sizes _ _) (by omega) fun k m hm hnew => ?_
    · rw [assignment, length_assignLoop]
    · obtain ⟨ai, ha⟩ := hassigned k m hm ((isNew_of_matched hm).mp hnew)
      obtain ⟨size, hsize, hmin, -⟩ := sizes_of_assigned hm hnew ha
      have hfour : minPartitionSize = 4096 := rfl
      exact ⟨ai, size, ha, hsize, by omega⟩
  have hbudgets : ∀ ai, available defs sectorSize.bytes (matchPartitions defs existing)
      (findFreeAreas existing first last) ai < 2 ^ 64 - 1 := fun ai => by
    have hai := hwords ai
    omega
  rw [hplan, gaps, lengths, ← map_findFreeAreas]
  refine packs_of_load (fun p hp => ?_) fun i cap hcap => ?_
  · rw [List.length_map]
    exact assignment_lt (mem_of_placedIn p hp)
  · rw [List.getElem?_map] at hcap
    obtain ⟨a, ha, rfl⟩ := Option.map_eq_some_iff.mp hcap
    have hpreceding : (((findFreeAreas existing first last)[i]?).map fun a =>
        precedingExtent sectorSize.bytes a (members defs sectorSize.bytes
          (matchPartitions defs existing) (assignment defs sectorSize.bytes
            (matchPartitions defs existing) (findFreeAreas existing first last)) i)).getD 0 ≤
        keptIn defs sectorSize.bytes (matchPartitions defs existing)
          (assignment defs sectorSize.bytes (matchPartitions defs existing)
            (findFreeAreas existing first last)) i := by
      rw [ha]
      exact precedingExtent_le hslots haligned (List.mem_of_getElem? ha)
    have hload := load_placedIn_le (assignLoop_request defs sectorSize.bytes _ _)
      (fun ai => (grownIn_rel (findFreeAreas existing first last) (assignment defs
        sectorSize.bytes (matchPartitions defs existing) (findFreeAreas existing first last))
        ai).length_eq) i
    have hnew := grownIn_new_le (findFreeAreas existing first last)
      (firstFit_minimums_le (findFreeAreas existing first last)
        (smallestFirst defs sectorSize.bytes (matchPartitions defs existing)
          (findFreeAreas existing first last)) hbudgets (matchPartitions defs existing) i)
      hpreceding (hwords i)
    have havailable : available defs sectorSize.bytes (matchPartitions defs existing)
        (findFreeAreas existing first last) i ≤ a.sectors * sectorSize.bytes := by
      rw [available, ha]
      exact Nat.sub_le _ _
    refine Nat.le_of_mul_le_mul_right ?_ sectorSize.pos
    exact Nat.le_trans hload (Nat.le_trans hnew havailable)

end Plan

theorem plan_packs_crossing :
    Packs (gaps crossingTable 8 19)
      ((plan crossingDefs sector4096.bytes (fun _ _ => "") crossingTable 8 19).map Prod.fst) := by
  have hnew : ∀ m ∈ matchPartitions crossingDefs crossingTable, m.isNew ∧ m.existing.isNone := by
    decide
  refine plan_packs (by decide) (fun m hm _ e he => ?_) (fun ai => ?_) crossing_allAssigned
  · have hnone := (hnew m hm).2
    rw [he] at hnone
    cases hnone
  · have hkept : ∀ as, keptIn crossingDefs 4096 (matchPartitions crossingDefs crossingTable) as ai =
        0 := fun as => List.sum_eq_zero fun n hn => by
      obtain ⟨p, hp, rfl⟩ := List.mem_map.mp hn
      rw [keptMinimum, if_pos (hnew p.1 (mem_members hp).1).1]
    have havailable : available crossingDefs 4096 (matchPartitions crossingDefs crossingTable)
        (findFreeAreas crossingTable 8 19) ai ≤ 49152 := by
      match ai with
      | 0 => decide
      | 1 => decide
      | _ + 2 => exact Nat.zero_le _
    rw [show sector4096.bytes = 4096 from rfl, hkept]
    exact (Nat.add_le_add_right havailable _).trans (by decide)

end OxidizedSystemd.Repart
