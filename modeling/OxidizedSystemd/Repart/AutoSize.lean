import OxidizedSystemd.Repart.GrowSafety
import OxidizedSystemd.Repart.Plan
import OxidizedSystemd.Repart.UsableRange
import Mathlib.Algebra.BigOperators.Ring.List
import Mathlib.Data.Nat.ModEq
import Mathlib.Tactic.IntervalCases

/-!
# The size of a new image

`run` with `--empty=create --size=auto` (`repart/src/main.rs`, lines 3113–3130) adds up the minimums
of the definitions and what the tables take. When the minimums are multiples of the grain, the
usable range of that image is as long as they are together: no claim grows, and the partitions lie
one behind the other.

* `usableRange_autoSize`: the usable range of the image.
* `growClaims_eq_minimums`: claims whose minimums take the span get their minimums.
* `sizes_unassigned`: so does every definition.
* `placeAll_single`: in one region, what fits together is placed.
* `autoSize_suffices`: the allocation succeeds, with an extent for every definition.
-/

namespace OxidizedSystemd.Repart

/-! ## The source -/

/-- `total_min` (lines 3115–3118). -/
def totalMin (defs : List PartitionDefinition) : ℕ :=
  (defs.map fun d => max d.sizeMin minPartitionSize + d.paddingMin).sum

/-- `overhead` (lines 3119–3124). -/
def overhead (sectorSize : ℕ) : ℕ := gptFirstLbaGrain + maxGptEntries * gptEntrySize + sectorSize

/-- The size of `--size=auto` (lines 3114–3126). -/
def autoSize (defs : List PartitionDefinition) (sectorSize : ℕ) : ℕ :=
  alignUp (totalMin defs + overhead sectorSize) sectorSize

/-! ## The usable range -/

theorem SectorSize.cases (sectorSize : SectorSize) : sectorSize.bytes = 512 ∨
    sectorSize.bytes = 1024 ∨ sectorSize.bytes = 2048 ∨ sectorSize.bytes = 4096 := by
  obtain ⟨k, hk⟩ := sectorSize.powerOfTwo
  have hlow : 2 ^ 9 ≤ 2 ^ k := hk ▸ sectorSize.le_bytes
  have hhigh : 2 ^ k ≤ 2 ^ 12 := hk ▸ sectorSize.bytes_le
  have hlow' : 9 ≤ k := (Nat.pow_le_pow_iff_right (by decide)).mp hlow
  have hhigh' : k ≤ 12 := (Nat.pow_le_pow_iff_right (by decide)).mp hhigh
  rw [hk]
  interval_cases k <;> decide

/-- The tables in front of the range fit into the first mebibyte. -/
theorem alignUp_tables (sectorSize : SectorSize) :
    alignUp (2 + entriesSectors sectorSize.bytes) (gptFirstLbaGrain / sectorSize.bytes) =
      gptFirstLbaGrain / sectorSize.bytes := by
  obtain h | h | h | h := sectorSize.cases <;>
  · rw [h]
    decide

theorem overhead_dvd (sectorSize : SectorSize) :
    sectorSize.bytes ∣ overhead sectorSize.bytes ∧
      overhead sectorSize.bytes / sectorSize.bytes =
        gptFirstLbaGrain / sectorSize.bytes + entriesSectors sectorSize.bytes + 1 := by
  obtain h | h | h | h := sectorSize.cases <;>
  · rw [h]
    decide

/-- The range begins at the first mebibyte, and is as long as the minimums. -/
theorem usableRange_autoSize {defs : List PartitionDefinition} (sectorSize : SectorSize)
    (hgrain : 4096 ∣ totalMin defs) (hwords : totalMin defs + overhead sectorSize.bytes < 2 ^ 64) :
    usableRange sectorSize.bytes (autoSize defs sectorSize.bytes / sectorSize.bytes) none =
      (gptFirstLbaGrain / sectorSize.bytes,
        gptFirstLbaGrain / sectorSize.bytes + totalMin defs / sectorSize.bytes - 1) := by
  obtain ⟨hdvd, hsectors⟩ := overhead_dvd sectorSize
  have hmin : sectorSize.bytes ∣ totalMin defs := Nat.dvd_trans sectorSize.dvd hgrain
  have hsize : autoSize defs sectorSize.bytes = totalMin defs + overhead sectorSize.bytes :=
    alignUp_grained (Or.inr (Nat.dvd_add hmin hdvd)) hwords
  rw [usableRange, hsize, alignUp_tables, Nat.add_div_of_dvd_right hmin, hsectors]
  refine congrArg (Prod.mk _) ?_
  omega

/-! ## Definitions without partitions -/

section Unassigned

variable {defs : List PartitionDefinition} {sectorSize : ℕ} {ms : List MatchedPartition}

/-- The bytes that a definition asks for. -/
def minimumOf (d : PartitionDefinition) : ℕ := max d.sizeMin minPartitionSize + d.paddingMin

/-- What is matched when there is no partition: a new one for each definition. -/
structure Unassigned (defs : List PartitionDefinition) (ms : List MatchedPartition) : Prop where
  definitions : ms.map (definition defs) = defs
  isNew : ∀ m ∈ ms, m.isNew
  existing : ∀ m ∈ ms, m.existing = none
  index : ∀ (k : ℕ) (m : MatchedPartition), ms[k]? = some m → m.definitionIndex = k

theorem matchPartitions_unassigned (defs : List PartitionDefinition) :
    Unassigned defs (matchPartitions defs []) := by
  have hmatched := @matchPartitions_induct []
    (fun before ms => ms.length = before.length ∧ (∀ m ∈ ms, m.isNew ∧ m.existing = none) ∧
      ∀ (k : ℕ) (m : MatchedPartition), ms[k]? = some m → m.definitionIndex = k) defs
    (by
      rintro before ms d ⟨hlen, hnew, hindex⟩
      have hnone : (existingByType [] d.typeUuid) = [] := rfl
      refine ⟨by simp [hlen], ?_, ?_⟩
      · intro m hm
        rcases List.mem_append.mp hm with hm | hm
        · exact hnew m hm
        · rw [List.mem_singleton.mp hm, matchOne, hnone, List.getElem?_nil]
          exact ⟨rfl, rfl⟩
      · intro k m hm
        rw [List.getElem?_append] at hm
        split at hm
        · exact hindex k m hm
        · rename_i hge
          obtain ⟨hk, rfl⟩ := List.getElem?_eq_some_iff.mp hm
          rw [List.length_singleton] at hk
          have hlast : k - ms.length = 0 := by omega
          simp only [hlast, List.getElem_cons_zero, matchOne, hnone, List.getElem?_nil]
          omega)
    ⟨rfl, List.forall_mem_nil _, fun k m hm => by simp at hm⟩
  obtain ⟨hlen, hnew, hindex⟩ := hmatched
  refine ⟨?_, fun m hm => (hnew m hm).1, fun m hm => (hnew m hm).2, hindex⟩
  apply List.ext_getElem
  · rw [List.length_map, hlen]
  · intro k hk hk'
    rw [List.getElem_map, definition,
      hindex k _ (List.getElem?_eq_getElem (by rwa [List.length_map] at hk)),
      List.getD_eq_getElem?_getD, List.getElem?_eq_getElem hk', Option.getD_some]

theorem Unassigned.mem (h : Unassigned defs ms) {m : MatchedPartition} (hm : m ∈ ms) :
    definition defs m ∈ defs := by
  have hmem := List.mem_map_of_mem (f := definition defs) hm
  rwa [h.definitions] at hmem

theorem Unassigned.sum_minimums (h : Unassigned defs ms) :
    (ms.map fun m => minimumOf (definition defs m)).sum = totalMin defs := by
  have hmap : ms.map (fun m => minimumOf (definition defs m)) = defs.map minimumOf := by
    conv_rhs => rw [← h.definitions, List.map_map]
    rfl
  rw [hmap]
  rfl

/-! ## The check of the minimums -/

theorem foldl_words {α : Type*} {f : α → ℕ} {as : List α} {n : ℕ}
    (h : n + (as.map f).sum < 2 ^ 64) :
    as.foldl (fun n a => (n + f a) % 2 ^ 64) n = n + (as.map f).sum := by
  induction as generalizing n with
  | nil => rfl
  | cons a as ih =>
    rw [List.map_cons, List.sum_cons, ← Nat.add_assoc] at h
    have hfirst : (n + f a) % 2 ^ 64 = n + f a := Nat.mod_eq_of_lt (by omega)
    rw [List.foldl_cons, hfirst, ih h, List.map_cons, List.sum_cons, Nat.add_assoc]

/-- The request of a new partition. -/
def newRequest (d : PartitionDefinition) : SpaceRequest :=
  { minBytes := max d.sizeMin minPartitionSize
    maxBytes := d.sizeMax
    weight := d.weight
    paddingMin := d.paddingMin
    paddingMax := d.paddingMax
    paddingWeight := d.paddingWeight }

theorem requests_unassigned (hnew : ∀ m ∈ ms, m.isNew) :
    requests defs sectorSize ms = ms.map fun m => (m, newRequest (definition defs m)) := by
  rw [requests, ← List.filterMap_eq_map]
  apply List.filterMap_congr
  intro m hm
  rw [request_of_isNew (hnew m hm)]
  rfl

theorem checkMinimums_unassigned (h : Unassigned defs ms) {free : ℕ} (hfit : totalMin defs ≤ free)
    (hwords : totalMin defs < 2 ^ 64) : checkMinimums defs sectorSize ms free = .ok () := by
  have hsum : ((requests defs sectorSize ms).map fun r => r.2.minBytes + r.2.paddingMin).sum =
      totalMin defs := by
    rw [requests_unassigned h.isNew, List.map_map]
    exact h.sum_minimums
  rw [checkMinimums]
  dsimp only
  rw [foldl_words (by rw [hsum]; omega), hsum, Nat.zero_add, if_neg]
  rintro ⟨hover, -⟩
  omega

/-! ## Sizes -/

/-- First fit puts every partition into the only area, as long as it offers their minimums. -/
theorem assignLoop_single (areas : List FreeArea) (hnew : ∀ m ∈ ms, m.isNew) {budget : ℕ → ℕ}
    (hfit : (ms.map fun m => minimumOf (definition defs m)).sum ≤ budget 0)
    (hwords : budget 0 < 2 ^ 64) :
    assignLoop defs sectorSize areas [0] budget ms = List.replicate ms.length (some 0) := by
  induction ms generalizing budget with
  | nil => rfl
  | cons m ms ih =>
    obtain ⟨hm, hms⟩ := List.forall_mem_cons.mp hnew
    rw [List.map_cons, List.sum_cons, minimumOf] at hfit
    have hneeded : saturatingAdd (max (definition defs m).sizeMin minPartitionSize)
        (definition defs m).paddingMin = minimumOf (definition defs m) := by
      rw [saturatingAdd, minimumOf]
      omega
    have hone : assignOne defs sectorSize areas [0] budget m = (some 0,
        Function.update budget 0 (budget 0 - minimumOf (definition defs m))) := by
      rw [assignOne, request_of_isNew hm]
      dsimp only
      rw [if_pos hm, hneeded, List.find?_cons_of_pos (by
        rw [decide_eq_true_eq, minimumOf]
        omega)]
    rw [assignLoop, hone]
    dsimp only
    rw [ih hms (by rw [Function.update_self, minimumOf]; omega) (by
      rw [Function.update_self]
      omega)]
    rfl

theorem members_replicate (hnew : ∀ m ∈ ms, m.isNew) :
    members defs sectorSize ms (List.replicate ms.length (some 0)) 0 =
      ms.map fun m => (m, newRequest (definition defs m)) := by
  induction ms with
  | nil => rfl
  | cons m ms ih =>
    obtain ⟨hm, hms⟩ := List.forall_mem_cons.mp hnew
    rw [List.length_cons, List.replicate_succ, members_cons_same (request_of_isNew hm), ih hms]
    rfl

theorem distribute_replicate (ss : List (ℕ × ℕ)) {grown : ℕ → List (ℕ × ℕ)} (h : grown 0 = ss) :
    distribute (List.replicate ss.length (some 0)) grown = ss := by
  induction ss generalizing grown with
  | nil => rfl
  | cons s ss ih =>
    have hrest := @ih (Function.update grown 0 (grown 0).tail) (by
      rw [Function.update_self, h]
      rfl)
    rw [List.length_cons, List.replicate_succ, distribute, hrest, h]
    rfl

/-- Sizes that are not below the minimums, and together not above them, are the minimums. -/
theorem eq_minimums_of_sum_le {claims : List SpanClaim} {ss : List ℕ}
    (h : List.Forall₂ (fun c size => c.min ≤ size ∧ size ≤ c.ceiling) claims ss)
    (hsum : ss.sum ≤ minimums claims) : ss = claims.map (·.min) := by
  have hle : ∀ {claims : List SpanClaim} {ss : List ℕ},
      List.Forall₂ (fun c size => c.min ≤ size ∧ size ≤ c.ceiling) claims ss →
      minimums claims ≤ ss.sum := by
    intro claims ss h
    induction h with
    | nil => exact Nat.le_refl _
    | cons hsize _ ih =>
      rw [minimums_cons, List.sum_cons]
      exact Nat.add_le_add hsize.1 ih
  induction h with
  | nil => rfl
  | cons hsize hrest ih =>
    have hothers := hle hrest
    obtain ⟨hmin, -⟩ := hsize
    rw [minimums_cons, List.sum_cons] at hsum
    rw [List.map_cons, ih (by omega)]
    congr 1
    omega

/-- Claims whose minimums take the span get their minimums. -/
theorem growClaims_eq_minimums {claims : List SpanClaim} {span grain : ℕ}
    (hspan : span ≤ minimums claims) (hwords : minimums claims + grain ≤ 2 ^ 64) :
    growClaims claims span grain = claims.map (·.min) := by
  have hmax : max span (minimums claims) = minimums claims := Nat.max_eq_right hspan
  have hsum : (growClaims claims span grain).sum ≤ max span (minimums claims) :=
    growClaims_sum_le claims span (by rwa [hmax])
  rw [hmax] at hsum
  exact eq_minimums_of_sum_le (growClaims_bounds claims span grain) hsum

theorem pairs_flatMap {α : Type*} (f g : α → ℕ) (as : List α) :
    pairs (as.flatMap fun a => [f a, g a]) = as.map fun a => (f a, g a) := by
  induction as with
  | nil => rfl
  | cons a as ih =>
    rw [List.flatMap_cons, List.map_cons, ← ih]
    rfl

/-- In an area that is as long as the minimums every definition gets its minimum. -/
theorem sizes_unassigned (h : Unassigned defs ms) {a : FreeArea} (hafter : a.after = none)
    (hlength : a.sectors * sectorSize = totalMin defs)
    (hwords : totalMin defs + grain sectorSize ≤ 2 ^ 64) :
    sizes defs sectorSize ms [a] (assignment defs sectorSize ms [a]) =
      ms.map fun m => (max (definition defs m).sizeMin minPartitionSize,
        (definition defs m).paddingMin) := by
  have hgrain : 0 < grain sectorSize := Nat.lt_of_lt_of_le (by decide) (Nat.le_max_left _ _)
  have havailable : available defs sectorSize ms [a] 0 = totalMin defs := by
    rw [available, List.getElem?_cons_zero, Option.map_some, Option.getD_some, areaAvailable,
      hafter]
    exact hlength
  have horder : smallestFirst defs sectorSize ms [a] = [0] := rfl
  have hassigned : assignment defs sectorSize ms [a] = List.replicate ms.length (some 0) := by
    rw [assignment, horder]
    exact assignLoop_single [a] h.isNew (by rw [havailable, h.sum_minimums]) (by omega)
  have hclaims : minimums ((ms.map fun m => (m, newRequest (definition defs m))).flatMap fun p =>
      [sizeClaim defs sectorSize p, paddingClaim p]) = totalMin defs := by
    have hnew : ((ms.map fun m => (m, newRequest (definition defs m))).map newMinimum) =
        ms.map fun m => minimumOf (definition defs m) := by
      rw [List.map_map]
      exact List.map_congr_left fun m hm => if_pos (h.isNew m hm)
    have hkept : ((ms.map fun m => (m, newRequest (definition defs m))).map
        (keptMinimum defs sectorSize)).sum = 0 := by
      refine List.sum_eq_zero fun n hn => ?_
      rw [List.map_map] at hn
      obtain ⟨m, hm, rfl⟩ := List.mem_map.mp hn
      exact if_pos (h.isNew m hm)
    rw [minimums_flatMap, hnew, hkept, h.sum_minimums, Nat.add_zero]
  have hgrown : grownIn defs sectorSize ms [a] (List.replicate ms.length (some 0)) 0 =
      ms.map fun m => (max (definition defs m).sizeMin minPartitionSize,
        (definition defs m).paddingMin) := by
    have hpreceding : precedingExtent sectorSize a
        (ms.map fun m => (m, newRequest (definition defs m))) = 0 := by
      rw [precedingExtent, hafter]
    rw [grownIn, members_replicate h.isNew, havailable, List.getElem?_cons_zero, Option.map_some,
      Option.getD_some, hpreceding, growClaims_eq_minimums (by rw [hclaims]; exact Nat.le_refl _)
        (by rw [hclaims]; exact hwords), List.flatMap_map, List.map_flatMap]
    refine Eq.trans ?_ (pairs_flatMap _ _ ms)
    congr 1
    apply List.flatMap_congr
    intro m hm
    rw [List.map_cons, List.map_cons, List.map_nil, sizeClaim, if_pos (h.isNew m hm)]
    rfl
  rw [sizes, hassigned, ← @List.length_map _ _ ms fun m =>
    (max (definition defs m).sizeMin minPartitionSize, (definition defs m).paddingMin)]
  exact distribute_replicate _ (by rw [List.length_map, hgrown])

/-- A new partition with its size and its padding. -/
structure Sized (sectorSize : ℕ) (size : ℕ × ℕ) (m m' : MatchedPartition) : Prop where
  isNew : m'.isNew
  existing : m'.existing = m.existing
  index : m'.definitionIndex = m.definitionIndex
  allocated : m'.allocatedSize = alignDown size.1 (grain sectorSize)
  padding : m'.paddingSize = size.2

theorem applySizes_sized {uuidOf : String → ℕ → String} (used : List ℕ) (types : List String)
    (hnew : ∀ m ∈ ms, m.isNew) (size : MatchedPartition → ℕ × ℕ) :
    List.Forall₂ (fun m m' => Sized sectorSize (size m) m m') ms
      (applySizes defs sectorSize uuidOf used types ms (ms.map size)) := by
  induction ms generalizing used types with
  | nil => exact List.Forall₂.nil
  | cons m ms ih =>
    obtain ⟨hm, hms⟩ := List.forall_mem_cons.mp hnew
    rw [List.map_cons, applySizes_cons, applySize_of_isNew hm]
    exact List.Forall₂.cons ⟨hm, rfl, rfl, rfl, rfl⟩ (ih _ _ hms)

end Unassigned

/-! ## Layout -/

section Layout

variable {defs : List PartitionDefinition} {sectorSize a b : ℕ} {ms : List MatchedPartition}

/-- The sectors of a partition and its padding. -/
def room (sectorSize : ℕ) (m : MatchedPartition) : ℕ :=
  m.allocatedSize / sectorSize + m.paddingSize / sectorSize

/-- A partition with an extent of its size in a range. -/
structure PlacedAt (sectorSize a b : ℕ) (m m' : MatchedPartition) : Prop where
  eq : m' = { m with startLba := m'.startLba, endLba := m'.endLba }
  endLba : m'.endLba = m'.startLba + m.allocatedSize / sectorSize - 1
  inRange : InRange a b (m'.startLba, m'.endLba)

theorem carve_single {n : ℕ} (hn : 0 < n) (hfit : a + n ≤ b + 1) :
    carve n (sortRegions (retain [(a, b)])) = some (a, [(a + n, b)]) := by
  have hretain : retain [(a, b)] = [(a, b)] := by
    rw [retain, List.filter_cons_of_pos (by rw [decide_eq_true_eq]; omega), List.filter_nil]
  have hsectors : n ≤ regionSectors (a, b) := by
    rw [regionSectors]
    omega
  have hsorted : sortRegions [(a, b)] = [(a, b)] := rfl
  rw [hretain, hsorted, carve, if_pos hsectors]

/-- In one region the partitions are placed one behind the other, if they fit in together. -/
theorem placeAll_single (defs : List PartitionDefinition)
    (hms : ∀ m ∈ ms, m.isNew ∧ 0 < m.allocatedSize / sectorSize)
    (hfit : a + (ms.map (room sectorSize)).sum ≤ b + 1) :
    ∃ ms' free', placeAll defs sectorSize ms (retain [(a, b)]) = .ok (ms', free') ∧
      List.Forall₂ (PlacedAt sectorSize a b) ms ms' := by
  induction ms generalizing a with
  | nil => exact ⟨[], _, rfl, List.Forall₂.nil⟩
  | cons m ms ih =>
    obtain ⟨⟨hnew, hpos⟩, hrest⟩ := List.forall_mem_cons.mp hms
    rw [List.map_cons, List.sum_cons] at hfit
    have hroom : m.allocatedSize / sectorSize ≤ room sectorSize m := Nat.le_add_right _ _
    have hcarve : carve (room sectorSize m) (sortRegions (retain [(a, b)])) =
        some (a, [(a + room sectorSize m, b)]) := carve_single (by omega) (by omega)
    have hsize : m.allocatedSize ≠ 0 := by
      intro hzero
      rw [hzero, Nat.zero_div] at hpos
      exact absurd hpos (Nat.lt_irrefl 0)
    have hone : placeOne defs sectorSize m (retain [(a, b)]) =
        .ok ({ m with
          startLba := a
          endLba := a + m.allocatedSize / sectorSize - 1 },
          retain [(a + room sectorSize m, b)]) := by
      rw [placeOne, if_neg (by simp [hnew, hsize])]
      dsimp only
      rw [← room, hcarve]
    have hfirst : PlacedAt sectorSize a b m { m with
        startLba := a
        endLba := a + m.allocatedSize / sectorSize - 1 } :=
      ⟨rfl, rfl, Nat.le_refl a, by dsimp only; omega, by dsimp only; omega⟩
    obtain ⟨ms', free', hall, hplaced⟩ := ih (a := a + room sectorSize m) hrest (by omega)
    refine ⟨_ :: ms', free', ?_, List.Forall₂.cons hfirst (hplaced.imp fun m m' h =>
      ⟨h.eq, h.endLba, (Nat.le_add_right _ _).trans h.inRange.1, h.inRange.2⟩)⟩
    rw [placeAll, hone]
    change (placeAll defs sectorSize ms _ >>= _) = _
    rw [hall]
    rfl

end Layout

/-! ## The allocation -/

section Allocation

variable {defs : List PartitionDefinition} {sectorSize : SectorSize} {ms : List MatchedPartition}
  {uuidOf : String → ℕ → String}

/-- Minimums that are multiples of 4096. -/
def GrainMinimums (defs : List PartitionDefinition) : Prop :=
  ∀ d ∈ defs, 4096 ∣ d.sizeMin ∧ 4096 ∣ d.paddingMin

theorem dvd_minimum {d : PartitionDefinition} (h : 4096 ∣ d.sizeMin) :
    4096 ∣ max d.sizeMin minPartitionSize := by
  rcases Nat.le_total d.sizeMin minPartitionSize with hle | hle
  · rw [Nat.max_eq_right hle]
    exact Nat.dvd_refl 4096
  · rwa [Nat.max_eq_left hle]

theorem GrainMinimums.dvd_totalMin (h : GrainMinimums defs) : 4096 ∣ totalMin defs := by
  apply List.dvd_sum
  intro n hn
  obtain ⟨d, hd, rfl⟩ := List.mem_map.mp hn
  exact Nat.dvd_add (dvd_minimum (h d hd).1) (h d hd).2

/-- The regions and areas of a disk without partitions. -/
theorem findFreeRegions_nil (a b : ℕ) : findFreeRegions [] a b = retain [(a, b)] := by
  change (if a ≤ b then [(a, b)] else []) = retain [(a, b)]
  rw [retain]
  by_cases hle : a ≤ b
  · rw [if_pos hle, List.filter_cons_of_pos (by simpa using hle), List.filter_nil]
  · rw [if_neg hle, List.filter_cons_of_neg (by simpa using hle), List.filter_nil]

theorem findFreeAreas_nil {a b : ℕ} (h : a ≤ b) : findFreeAreas [] a b = [⟨a, b, none⟩] := if_pos h

/-- In a range that is as long as the minimums every definition is given its minimum. -/
theorem planned_sized (sectorSize : SectorSize) (uuidOf : String → ℕ → String)
    (h : Unassigned defs ms) (a : ℕ) (hgrain : 4096 ∣ totalMin defs)
    (hwords : totalMin defs + 4096 ≤ 2 ^ 64) :
    List.Forall₂ (fun m m' => Sized sectorSize.bytes
        (max (definition defs m).sizeMin minPartitionSize, (definition defs m).paddingMin) m m') ms
      (planned defs sectorSize.bytes uuidOf [] ms a
        (a + totalMin defs / sectorSize.bytes - 1)) := by
  cases ms with
  | nil =>
    rw [planned, applySizes]
    · exact List.Forall₂.nil
    · simp
  | cons m ms =>
    have hpositive : 4096 ≤ totalMin defs := by
      have hmem : minimumOf (definition defs m) ≤ totalMin defs := by
        rw [← h.sum_minimums, List.map_cons, List.sum_cons]
        exact Nat.le_add_right _ _
      rw [minimumOf, minPartitionSize] at hmem
      omega
    have hsectors : totalMin defs / sectorSize.bytes * sectorSize.bytes = totalMin defs :=
      Nat.div_mul_cancel (Nat.dvd_trans sectorSize.dvd hgrain)
    have hone : 0 < totalMin defs / sectorSize.bytes :=
      Nat.div_pos (sectorSize.bytes_le.trans hpositive) sectorSize.pos
    have hlength : (FreeArea.mk a (a + totalMin defs / sectorSize.bytes - 1) none).sectors *
        sectorSize.bytes = totalMin defs := by
      have hcount : (FreeArea.mk a (a + totalMin defs / sectorSize.bytes - 1) none).sectors =
          totalMin defs / sectorSize.bytes := by
        rw [FreeArea.sectors]
        dsimp only
        omega
      rw [hcount, hsectors]
    have hgrainWords : totalMin defs + grain sectorSize.bytes ≤ 2 ^ 64 := by
      rwa [sectorSize.grain_eq]
    rw [planned, findFreeAreas_nil (by omega), sizes_unassigned h rfl hlength hgrainWords]
    exact applySizes_sized _ _ h.isNew _

theorem Sized.allocated_eq {size : ℕ × ℕ} {m m' : MatchedPartition}
    (h : Sized sectorSize.bytes size m m') (hsize : 4096 ∣ size.1) : m'.allocatedSize = size.1 := by
  rw [h.allocated, sectorSize.grain_eq, alignDown, if_neg (by decide), Nat.div_mul_cancel hsize]

/-- Together they take as many sectors as their sizes. -/
theorem sum_room {size : MatchedPartition → ℕ × ℕ} {ps : List MatchedPartition}
    (h : List.Forall₂ (fun m m' => Sized sectorSize.bytes (size m) m m') ms ps)
    (hsize : ∀ m ∈ ms, 4096 ∣ (size m).1 ∧ 4096 ∣ (size m).2) :
    (ps.map (room sectorSize.bytes)).sum * sectorSize.bytes =
      (ms.map fun m => (size m).1 + (size m).2).sum := by
  induction h with
  | nil => exact Nat.zero_mul _
  | cons hm _ ih =>
    obtain ⟨⟨hsize, hpadding⟩, hrest⟩ := List.forall_mem_cons.mp hsize
    rw [List.map_cons, List.sum_cons, Nat.add_mul, ih hrest, List.map_cons, List.sum_cons, room,
      hm.allocated_eq hsize, hm.padding, Nat.add_mul,
      Nat.div_mul_cancel (Nat.dvd_trans sectorSize.dvd hsize),
      Nat.div_mul_cancel (Nat.dvd_trans sectorSize.dvd hpadding)]

/-- A definition is given an extent in the range that is as long as its minimum. -/
structure GivenMinimum (sectorSize a b : ℕ) (d : PartitionDefinition) (m : MatchedPartition) :
    Prop where
  needsPlace : m.NeedsPlace
  sizeMin_le : d.sizeMin ≤ m.bytes sectorSize
  inRange : InRange a b (m.startLba, m.endLba)

theorem givenMinimum_of_placed {d : PartitionDefinition} {a b padding : ℕ}
    {m m' m'' : MatchedPartition}
    (hsized : Sized sectorSize.bytes (max d.sizeMin minPartitionSize, padding) m m')
    (hplaced : PlacedAt sectorSize.bytes a b m' m'') (hgrain : 4096 ∣ d.sizeMin) :
    GivenMinimum sectorSize.bytes a b d m'' := by
  have hsize : m''.allocatedSize = max d.sizeMin minPartitionSize := by
    rw [hplaced.eq]
    exact hsized.allocated_eq (dvd_minimum hgrain)
  have hmin : minPartitionSize ≤ m''.allocatedSize := hsize ▸ Nat.le_max_right _ _
  have hne : m''.allocatedSize ≠ 0 := by
    rw [minPartitionSize] at hmin
    omega
  have hnew : m''.isNew := by
    rw [hplaced.eq]
    exact hsized.isNew
  have hend : m''.endLba = m''.startLba + m''.allocatedSize / sectorSize.bytes - 1 := by
    have hsame : m''.allocatedSize = m'.allocatedSize := by rw [hplaced.eq]
    rw [hsame]
    exact hplaced.endLba
  obtain ⟨n, hn⟩ := dvd_minimum hgrain
  have hbytes := bytes_eq (n := n) (by rw [hsize, hn, Nat.mul_comm]) hne hend
  refine ⟨⟨hnew, hne⟩, ?_, hplaced.inRange⟩
  rw [hbytes, hsize]
  exact Nat.le_max_left _ _

theorem forall₂_trans {α β γ : Type*} {R : α → β → Prop} {S : β → γ → Prop} {as : List α}
    {bs : List β} {cs : List γ} (h : List.Forall₂ R as bs) (h' : List.Forall₂ S bs cs) :
    List.Forall₂ (fun a c => ∃ b, R a b ∧ S b c) as cs := by
  induction h generalizing cs with
  | nil =>
    cases h'
    exact List.Forall₂.nil
  | cons hab _ ih =>
    cases h' with
    | cons hbc hrest => exact List.Forall₂.cons ⟨_, hab, hbc⟩ (ih hrest)

/-- The range offers what is asked for. -/
theorem checkMinimums_range (h : Unassigned defs ms) (a : ℕ)
    (hgrain : 4096 ∣ totalMin defs) (hwords : totalMin defs < 2 ^ 64) :
    checkMinimums defs sectorSize.bytes ms
      (((findFreeRegions [] a (a + totalMin defs / sectorSize.bytes - 1)).map regionSectors).sum *
        sectorSize.bytes) = .ok () := by
  have hsectors : totalMin defs / sectorSize.bytes * sectorSize.bytes = totalMin defs :=
    Nat.div_mul_cancel (Nat.dvd_trans sectorSize.dvd hgrain)
  refine checkMinimums_unassigned h ?_ hwords
  rw [findFreeRegions_nil]
  generalize totalMin defs / sectorSize.bytes = n at hsectors ⊢
  cases n with
  | zero =>
    rw [Nat.zero_mul] at hsectors
    omega
  | succ n =>
    have hcount : a + (n + 1) - 1 - a + 1 = n + 1 := by omega
    rw [retain, List.filter_cons_of_pos (by rw [decide_eq_true_eq]; omega), List.filter_nil,
      List.map_singleton, List.sum_singleton, regionSectors]
    dsimp only
    rw [hcount, hsectors]

/-- In a range that is as long as the minimums every definition is given an extent. -/
theorem allocateSpace_range (sectorSize : SectorSize) (uuidOf : String → ℕ → String) (a : ℕ)
    (hgrain : GrainMinimums defs)
    (hwords : totalMin defs + 4096 ≤ 2 ^ 64) :
    ∃ placed free, List.Forall₂
        (fun m m'' => ∃ m', Sized sectorSize.bytes
          (max (definition defs m).sizeMin minPartitionSize, (definition defs m).paddingMin) m m' ∧
          PlacedAt sectorSize.bytes a (a + totalMin defs / sectorSize.bytes - 1) m' m'')
        (matchPartitions defs []) placed ∧
      allocateSpace defs sectorSize.bytes uuidOf (matchPartitions defs []) a
        (a + totalMin defs / sectorSize.bytes - 1) [] =
          .ok (growAll sectorSize.bytes placed free).1 := by
  have hdvd := hgrain.dvd_totalMin
  have hmatched := matchPartitions_unassigned defs
  have hsectors : totalMin defs / sectorSize.bytes * sectorSize.bytes = totalMin defs :=
    Nat.div_mul_cancel (Nat.dvd_trans sectorSize.dvd hdvd)
  have hsized := planned_sized sectorSize uuidOf hmatched a hdvd hwords
  have hsizes : ∀ m ∈ matchPartitions defs [],
      4096 ∣ max (definition defs m).sizeMin minPartitionSize ∧
        4096 ∣ (definition defs m).paddingMin :=
    fun m hm => ⟨dvd_minimum (hgrain _ (hmatched.mem hm)).1, (hgrain _ (hmatched.mem hm)).2⟩
  have hminimums : ((matchPartitions defs []).map fun m =>
      max (definition defs m).sizeMin minPartitionSize + (definition defs m).paddingMin).sum =
      totalMin defs := hmatched.sum_minimums
  have hroom := Nat.eq_of_mul_eq_mul_right sectorSize.pos
    ((sum_room hsized hsizes).trans (hminimums.trans hsectors.symm))
  have hneeds : ∀ m ∈ planned defs sectorSize.bytes uuidOf [] (matchPartitions defs []) a
      (a + totalMin defs / sectorSize.bytes - 1),
      m.isNew ∧ 0 < m.allocatedSize / sectorSize.bytes := by
    intro m hm
    obtain ⟨k, hk⟩ := List.mem_iff_getElem?.mp hm
    obtain ⟨m₀, hm₀, hsize⟩ := forall₂_getElem? hsized.flip hk
    have hallocated := hsize.allocated_eq (hsizes m₀ (List.mem_of_getElem? hm₀)).1
    refine ⟨hsize.isNew, Nat.div_pos ?_ sectorSize.pos⟩
    rw [hallocated]
    exact sectorSize.bytes_le.trans (Nat.le_max_right _ _)
  obtain ⟨placed, free, hplace, hplaced⟩ := placeAll_single defs hneeds
    (a := a) (b := a + totalMin defs / sectorSize.bytes - 1) (by omega)
  refine ⟨placed, free, forall₂_trans hsized hplaced, ?_⟩
  rw [allocateSpace]
  dsimp only
  rw [checkMinimums_range hmatched a hdvd (by omega), findFreeRegions_nil]
  change (placeAll defs sectorSize.bytes _ _ >>= _) = _
  rw [hplace]
  rfl

/-- On the image that `--size=auto` creates the allocation succeeds, and every definition is given
    an extent in the usable range that is at least as long as its minimum. -/
theorem autoSize_suffices {defs : List PartitionDefinition} (sectorSize : SectorSize)
    (uuidOf : String → ℕ → String) (hgrain : GrainMinimums defs)
    (hwords : totalMin defs + overhead sectorSize.bytes < 2 ^ 64) :
    let range := usableRange sectorSize.bytes (autoSize defs sectorSize.bytes / sectorSize.bytes)
      none
    ∃ ms, allocateSpace defs sectorSize.bytes uuidOf (matchPartitions defs []) range.1 range.2 [] =
        .ok ms ∧ ms.length = defs.length ∧
      ∀ (k : ℕ) (d : PartitionDefinition), defs[k]? = some d → ∃ m, ms[k]? = some m ∧
        m.definitionIndex = k ∧ GivenMinimum sectorSize.bytes range.1 range.2 d m := by
  have hmatched := matchPartitions_unassigned defs
  have hover : 1048576 ≤ overhead sectorSize.bytes := by
    rw [overhead, gptFirstLbaGrain]
    omega
  rw [usableRange_autoSize sectorSize hgrain.dvd_totalMin hwords]
  dsimp only
  obtain ⟨placed, free, hplaced, hallocate⟩ :=
    allocateSpace_range sectorSize uuidOf
      (gptFirstLbaGrain / sectorSize.bytes) hgrain (by omega)
  have hgrown := growAll_new sectorSize.bytes placed free
  refine ⟨_, hallocate, ?_, ?_⟩
  · rw [← hgrown.length_eq, ← hplaced.length_eq, ← List.length_map (definition defs),
      hmatched.definitions]
  · intro k d hd
    rw [← hmatched.definitions, List.getElem?_map] at hd
    obtain ⟨m₀, hm₀, rfl⟩ := Option.map_eq_some_iff.mp hd
    obtain ⟨m₂, hm₂, m₁, hsize, hat⟩ := forall₂_getElem? hplaced hm₀
    obtain ⟨m₃, hm₃, hgrow⟩ := forall₂_getElem? hgrown hm₂
    have hmem := List.mem_of_getElem? hm₀
    have hnone : m₂.existing = none := by
      rw [hat.eq]
      exact hsize.existing.trans (hmatched.existing m₀ hmem)
    obtain rfl := hgrow hnone
    have hindex : m₃.definitionIndex = k := by
      rw [hat.eq]
      exact hsize.index.trans (hmatched.index k m₀ hm₀)
    exact ⟨m₃, hm₃, hindex,
      givenMinimum_of_placed hsize hat (hgrain _ (hmatched.mem hmem)).1⟩

theorem autoSize_suffices_root : ∃ ms,
    allocateSpace [plainDefinition "root" 0 8192 8192] sector512.bytes (fun _ _ => "")
      (matchPartitions [plainDefinition "root" 0 8192 8192] []) 2048 2063 [] = .ok ms ∧
    ms.length = 1 :=
  have h := @autoSize_suffices [plainDefinition "root" 0 8192 8192] sector512
    (fun _ _ => "") (List.forall_mem_singleton.mpr ⟨⟨2, rfl⟩, ⟨0, rfl⟩⟩) (by decide)
  have hrange : usableRange sector512.bytes
      (autoSize [plainDefinition "root" 0 8192 8192] sector512.bytes / sector512.bytes) none =
      (2048, 2063) := by decide
  let ⟨ms, hms, hlen, _⟩ := h
  ⟨ms, by rwa [hrange] at hms, hlen⟩

end Allocation

end OxidizedSystemd.Repart
