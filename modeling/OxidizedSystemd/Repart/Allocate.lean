import Mathlib.Algebra.Order.Ring.Nat
import Mathlib.Data.List.Sort
import Mathlib.Logic.Function.Basic

/-!
# Matching and allocating partitions

Model of `match_partitions`, `grow_claims`, `find_free_regions`, `find_free_areas`,
`allocate_space` and of the partition list that `run` writes (`repart/src/main.rs`,
lines 1014–1089, 1601–1698, 1704–2222 and 3320–3377). Numbers are bounded by the bytes of
a disk, and so by the words, except for the sums of minimums and `align_up`, which wrap.

A request is kept at the position of its partition in `matched` rather than by index.
-/

namespace OxidizedSystemd.Repart

/-! ## Data -/

/-- The fields of `PartitionDefinition` that allocation reads, with what `derived_label` and
    `effective_flags` give for it. -/
structure PartitionDefinition where
  filename : String
  typeUuid : String
  label : Option String
  derivedLabel : String
  uuid : Option String
  priority : ℤ
  weight : ℕ
  paddingWeight : ℕ
  sizeMin : ℕ
  sizeMax : ℕ
  paddingMin : ℕ
  paddingMax : ℕ
  effectiveFlags : UInt64
  deriving DecidableEq, Inhabited

/-- `GptPartition` (lines 1231–1242). -/
structure GptPartition where
  typeGuid : String
  uniqueGuid : String
  firstLba : ℕ
  lastLba : ℕ
  attributes : UInt64
  name : String
  slotIndex : ℕ
  deriving DecidableEq, Inhabited

/-- `size_bytes`. -/
def GptPartition.sizeBytes (p : GptPartition) (sectorSize : ℕ) : ℕ :=
  (p.lastLba - p.firstLba + 1) * sectorSize

/-- `MatchedPartition` (lines 1576–1599). -/
structure MatchedPartition where
  definitionIndex : ℕ
  existing : Option GptPartition
  allocatedSize : ℕ
  paddingSize : ℕ
  assignedUuid : String
  assignedLabel : String
  isNew : Bool
  isGrown : Bool
  startLba : ℕ
  endLba : ℕ
  slotIndex : ℕ
  deriving DecidableEq, Inhabited

/-- A sector size that `--sector-size=` takes (lines 2674–2680). -/
structure SectorSize where
  bytes : ℕ
  powerOfTwo : ∃ k, bytes = 2 ^ k
  le_bytes : 512 ≤ bytes
  bytes_le : bytes ≤ 4096

/-- Sectors of 512 bytes. -/
def sector512 : SectorSize := ⟨512, ⟨9, rfl⟩, by decide, by decide⟩

/-- Sectors of 4096 bytes. -/
def sector4096 : SectorSize := ⟨4096, ⟨12, rfl⟩, by decide, by decide⟩

/-- `MIN_PARTITION_SIZE`. -/
def minPartitionSize : ℕ := 4096

/-! ## Matching -/

/-- `unique_derived_label` (lines 1607–1615). One of the first candidates is free. -/
def uniqueDerivedLabel (base : String) (earlier : List MatchedPartition) : String :=
  let candidate := fun k => if k = 1 then base else base ++ "-" ++ toString k
  (((List.range (earlier.length + 1)).map fun k => candidate (k + 1)).find? fun label =>
    earlier.all fun m => m.assignedLabel ≠ label).getD base

/-- The existing partitions of a type by slot (lines 1627–1637). -/
def existingByType (existing : List GptPartition) (typeUuid : String) : List GptPartition :=
  (existing.filter fun p => p.typeGuid = typeUuid).insertionSort
    fun p q => p.slotIndex ≤ q.slotIndex

/-- The label that a definition gives (lines 1652–1655 and 1676–1679). -/
def newLabel (d : PartitionDefinition) (matched : List MatchedPartition) : String :=
  match d.label with
  | some label => label
  | none => uniqueDerivedLabel d.derivedLabel matched

/-- What the `i`th definition is matched to, as number `counter` of its type
    (lines 1641–1694). -/
def matchOne (existing : List GptPartition) (i counter : ℕ) (d : PartitionDefinition)
    (matched : List MatchedPartition) : MatchedPartition :=
  match (existingByType existing d.typeUuid)[counter]? with
  | some part =>
    { definitionIndex := i
      existing := some part
      allocatedSize := 0
      paddingSize := 0
      assignedUuid := part.uniqueGuid
      assignedLabel := if part.name ≠ "" then part.name else newLabel d matched
      isNew := false
      isGrown := false
      startLba := part.firstLba
      endLba := part.lastLba
      slotIndex := part.slotIndex }
  | none =>
    { definitionIndex := i
      existing := none
      allocatedSize := 0
      paddingSize := 0
      assignedUuid := ""
      assignedLabel := newLabel d matched
      isNew := true
      isGrown := false
      startLba := 0
      endLba := 0
      slotIndex := 0 }

/-- The loop over the definitions; the counter of a type is the number of its definitions
    among those before. -/
def matchLoop (existing : List GptPartition) :
    List PartitionDefinition → List MatchedPartition → List PartitionDefinition →
      List MatchedPartition
  | _, matched, [] => matched
  | before, matched, d :: ds =>
    let counter := (before.map (·.typeUuid)).count d.typeUuid
    matchLoop existing (before ++ [d])
      (matched ++ [matchOne existing before.length counter d matched]) ds

/-- `match_partitions` (lines 1618–1698). -/
def matchPartitions (defs : List PartitionDefinition) (existing : List GptPartition) :
    List MatchedPartition :=
  matchLoop existing [] [] defs

/-! ## Free space -/

/-- `align_up` (lines 1704–1709). -/
def alignUp (val align : ℕ) : ℕ :=
  if align = 0 then val else (val + align - 1) / align * align % 2 ^ 64

/-- `align_down` (lines 1712–1717). -/
def alignDown (val align : ℕ) : ℕ := if align = 0 then val else val / align * align

/-- A contiguous gap, and the existing partition it follows (`FreeArea`). -/
structure FreeArea where
  startLba : ℕ
  endLba : ℕ
  after : Option GptPartition
  deriving DecidableEq

/-- `FreeArea::sectors`. -/
def FreeArea.sectors (a : FreeArea) : ℕ := a.endLba - a.startLba + 1

/-- The loop of `find_free_regions` over the occupied extents. -/
def regionsFrom (lastUsable : ℕ) : ℕ → List (ℕ × ℕ) → List (ℕ × ℕ)
  | cursor, [] => if cursor ≤ lastUsable then [(cursor, lastUsable)] else []
  | cursor, (start, stop) :: rest =>
    (if cursor < start then [(cursor, start - 1)] else []) ++ regionsFrom lastUsable (stop + 1) rest

/-- `find_free_regions` (lines 1720–1743). -/
def findFreeRegions (existing : List GptPartition) (firstUsable lastUsable : ℕ) :
    List (ℕ × ℕ) :=
  regionsFrom lastUsable firstUsable
    ((existing.map fun p => (p.firstLba, p.lastLba)).insertionSort fun a b => a.1 ≤ b.1)

/-- The loop of `find_free_areas` over the partitions. -/
def areasFrom (lastUsable : ℕ) : ℕ → Option GptPartition → List GptPartition → List FreeArea
  | cursor, previous, [] => if cursor ≤ lastUsable then [⟨cursor, lastUsable, previous⟩] else []
  | cursor, previous, p :: rest =>
    (if cursor < p.firstLba then [⟨cursor, p.firstLba - 1, previous⟩] else []) ++
      areasFrom lastUsable (p.lastLba + 1) (some p) rest

/-- `find_free_areas` (lines 1764–1800). -/
def findFreeAreas (existing : List GptPartition) (firstUsable lastUsable : ℕ) : List FreeArea :=
  areasFrom lastUsable firstUsable none
    (existing.insertionSort fun p q => p.firstLba ≤ q.firstLba)

/-! ## Settling claims -/

/-- `SpanClaim`. -/
structure SpanClaim where
  weight : ℕ
  min : ℕ
  max : ℕ
  deriving DecidableEq

/-- `max(max, min)` of a claim, the most that it takes. -/
def SpanClaim.ceiling (c : SpanClaim) : ℕ := Max.max c.max c.min

/-- `scale_by_weight` (lines 1020–1028). -/
def scaleByWeight (value weight weightSum : ℕ) : ℕ :=
  if weight = 0 then 0 else if weight = weightSum then value else value * weight / weightSum

/-- The phases of `grow_claims`. -/
inductive Phase
  | overcharge
  | undercharge
  | distribute
  deriving DecidableEq

/-- What a claim is assigned in a phase (lines 1066–1071). -/
def assigned (grain : ℕ) (phase : Phase) (c : SpanClaim) (share : ℕ) : Option ℕ :=
  match phase with
  | .overcharge => if c.min > share then some c.min else none
  | .undercharge => if c.ceiling < share then some c.ceiling else none
  | .distribute => some (min (max (alignDown share grain) c.min) c.ceiling)

/-- The loop of `grow_claims` between its phases: each claim with its size, the span and the sum
    of the weights that are left. -/
structure Settling where
  sizes : List (SpanClaim × Option ℕ)
  span : ℕ
  weightSum : ℕ
  deriving DecidableEq

/-- One pass over the claims (lines 1059–1081), and whether to try again. -/
def growPass (grain : ℕ) (phase : Phase) :
    List (SpanClaim × Option ℕ) → ℕ → ℕ → Settling × Bool
  | [], span, weightSum => (⟨[], span, weightSum⟩, false)
  | (c, some size) :: rest, span, weightSum =>
    let (st, again) := growPass grain phase rest span weightSum
    (⟨(c, some size) :: st.sizes, st.span, st.weightSum⟩, again)
  | (c, none) :: rest, span, weightSum =>
    match assigned grain phase c (scaleByWeight span c.weight weightSum) with
    | some size =>
      let (st, again) :=
        growPass grain phase rest (span - alignUp size grain) (weightSum - c.weight)
      (⟨(c, some size) :: st.sizes, st.span, st.weightSum⟩, again || phase ≠ .distribute)
    | none =>
      let (st, again) := growPass grain phase rest span weightSum
      (⟨(c, none) :: st.sizes, st.span, st.weightSum⟩, again)

/-- At most `fuel` passes (lines 1056–1087). -/
def growLoop (grain : ℕ) : ℕ → Phase → Settling → Settling
  | 0, _, st => st
  | fuel + 1, phase, st =>
    let (st, again) := growPass grain phase st.sizes st.span st.weightSum
    if again then growLoop grain fuel .overcharge st
    else
      match phase with
      | .overcharge => growLoop grain fuel .undercharge st
      | .undercharge => growLoop grain fuel .distribute st
      | .distribute => st

/-- `grow_claims` (lines 1047–1090). -/
def growClaims (claims : List SpanClaim) (span grain : ℕ) : List ℕ :=
  let start : Settling :=
    ⟨claims.map fun c => (c, none), span, (claims.map (·.weight)).sum⟩
  (growLoop grain (4 * claims.length + 4) .overcharge start).sizes.map fun p => p.2.getD 0

/-! ## Requests -/

/-- `SpaceRequest`. -/
structure SpaceRequest where
  minBytes : ℕ
  maxBytes : ℕ
  weight : ℕ
  paddingMin : ℕ
  paddingMax : ℕ
  paddingWeight : ℕ
  deriving DecidableEq

section Allocate

variable (defs : List PartitionDefinition) (sectorSize : ℕ)

/-- `defs[m.definition_index]`. -/
def definition (m : MatchedPartition) : PartitionDefinition := defs.getD m.definitionIndex default

/-- The request of a matched partition, if it has one (lines 1850–1886). A partition that is not
    new has an existing one. -/
def request (m : MatchedPartition) : Option SpaceRequest :=
  let d := definition defs m
  if m.isNew then
    some
      { minBytes := max d.sizeMin minPartitionSize
        maxBytes := d.sizeMax
        weight := d.weight
        paddingMin := d.paddingMin
        paddingMax := d.paddingMax
        paddingWeight := d.paddingWeight }
  else
    match m.existing with
    | some e =>
      if e.sizeBytes sectorSize < d.sizeMax ∧ 0 < d.weight then
        some
          { minBytes := 0
            maxBytes := d.sizeMax - e.sizeBytes sectorSize
            weight := d.weight
            paddingMin := d.paddingMin
            paddingMax := d.paddingMax
            paddingWeight := d.paddingWeight }
      else none
    | none => none

/-- The partitions that need space, with their requests. -/
def requests (matched : List MatchedPartition) : List (MatchedPartition × SpaceRequest) :=
  matched.filterMap fun m => (request defs sectorSize m).map (m, ·)

/-- `format_size` (lines 518–537). -/
def formatSize (bytes : ℕ) : String :=
  let units := [(2 ^ 40, "T"), (2 ^ 30, "G"), (2 ^ 20, "M"), (2 ^ 10, "K")]
  match units.find? fun u => decide (u.1 ≤ bytes) with
  | some (threshold, suffix) =>
    let frac := bytes % threshold * 10 / threshold
    if frac > 0 then toString (bytes / threshold) ++ "." ++ toString frac ++ suffix
    else toString (bytes / threshold) ++ suffix
  | none => toString bytes ++ "B"

/-- The check of the minimums against the sum of the gaps (lines 1849–1937). All partitions with
    a positive priority are taken off the sum, and stay among the requests. -/
def checkMinimums (matched : List MatchedPartition) (totalFreeBytes : ℕ) : Except String Unit :=
  let reqs := requests defs sectorSize matched
  let fixedBytes := reqs.foldl (fun n r => (n + (r.2.minBytes + r.2.paddingMin)) % 2 ^ 64) 0
  if fixedBytes > totalFreeBytes ∧ reqs ≠ [] then
    let priority := fun r : MatchedPartition × SpaceRequest => (definition defs r.1).priority
    let droppable := (reqs.filter fun r => 0 < priority r ∧ r.1.isNew).insertionSort
      fun a b => priority b ≤ priority a
    let fixedBytes := droppable.foldl
      (fun n r => n - (r.2.minBytes + r.2.paddingMin) % 2 ^ 64) fixedBytes
    if fixedBytes > totalFreeBytes then
      .error ("Not enough disk space: need at least " ++ formatSize fixedBytes ++ " but only " ++
        formatSize totalFreeBytes ++ " available")
    else .ok ()
  else .ok ()

/-! ## Areas -/

/-- Whether a matched partition is the existing partition `p`. -/
def isExisting (p : GptPartition) (m : MatchedPartition) : Bool :=
  decide (m.existing.map (·.slotIndex) = some p.slotIndex)

/-- The bytes that an area offers to new partitions (lines 1958–1976). -/
def areaAvailable (matched : List MatchedPartition) (a : FreeArea) : ℕ :=
  let owed := match a.after with
    | some p => ((matched.find? (isExisting p)).map fun m => (definition defs m).paddingMin).getD 0
    | none => 0
  a.sectors * sectorSize - owed

/-- The bytes that each area offers. -/
def available (matched : List MatchedPartition) (areas : List FreeArea) (i : ℕ) : ℕ :=
  ((areas[i]?).map (areaAvailable defs sectorSize matched)).getD 0

/-- The areas in the order of first fit (lines 1982–1983). -/
def smallestFirst (matched : List MatchedPartition) (areas : List FreeArea) : List ℕ :=
  (List.range areas.length).insertionSort fun i j =>
    available defs sectorSize matched areas i ≤ available defs sectorSize matched areas j

/-- `saturating_add`. -/
def saturatingAdd (a b : ℕ) : ℕ := min (a + b) (2 ^ 64 - 1)

/-- The area of one matched partition, and the budgets after it (lines 1988–2005). -/
def assignOne (areas : List FreeArea) (order : List ℕ) (budget : ℕ → ℕ) (m : MatchedPartition) :
    Option ℕ × (ℕ → ℕ) :=
  match request defs sectorSize m with
  | none => (none, budget)
  | some req =>
    if m.isNew then
      let needed := saturatingAdd req.minBytes req.paddingMin
      match order.find? fun i => decide (needed ≤ budget i) with
      | some ai => (some ai, Function.update budget ai (budget ai - needed))
      | none => (none, budget)
    else
      (areas.findIdx? fun a => (a.after.map fun p => isExisting p m).getD false, budget)

/-- The loop of first fit. -/
def assignLoop (areas : List FreeArea) (order : List ℕ) :
    (ℕ → ℕ) → List MatchedPartition → List (Option ℕ)
  | _, [] => []
  | budget, m :: rest =>
    let (area, budget) := assignOne defs sectorSize areas order budget m
    area :: assignLoop areas order budget rest

/-- The assignment of the matched partitions to areas (lines 1985–2005). -/
def assignment (matched : List MatchedPartition) (areas : List FreeArea) : List (Option ℕ) :=
  assignLoop defs sectorSize areas (smallestFirst defs sectorSize matched areas)
    (available defs sectorSize matched areas) matched

/-! ## Sizes -/

/-- The partitions of an area, with their requests, in their order. -/
def members (matched : List MatchedPartition) (assigned : List (Option ℕ)) (ai : ℕ) :
    List (MatchedPartition × SpaceRequest) :=
  (matched.zip assigned).filterMap fun p =>
    if p.2 = some ai then (request defs sectorSize p.1).map (p.1, ·) else none

/-- The claim of a partition: an existing one claims its total size (lines 2020–2038). -/
def sizeClaim (p : MatchedPartition × SpaceRequest) : SpanClaim :=
  let current := ((p.1.existing).map fun e => e.sizeBytes sectorSize).getD 0
  if p.1.isNew then { weight := p.2.weight, min := p.2.minBytes, max := p.2.maxBytes }
  else
    { weight := p.2.weight
      min := current
      max := max (definition defs p.1).sizeMax current }

/-- The claim of its padding (lines 2039–2043). -/
def paddingClaim (p : MatchedPartition × SpaceRequest) : SpanClaim :=
  { weight := p.2.paddingWeight, min := p.2.paddingMin, max := p.2.paddingMax }

/-- The grain of the layout (line 1946). -/
def grain : ℕ := max 4096 sectorSize

/-- The extent of the partition that the area follows, if it competes there
    (lines 2046–2064). -/
def precedingExtent (a : FreeArea) (ms : List (MatchedPartition × SpaceRequest)) : ℕ :=
  match a.after with
  | some p =>
    if ms.any fun r => !r.1.isNew && isExisting p r.1 then
      alignUp (p.sizeBytes sectorSize) (grain sectorSize)
    else 0
  | none => 0

/-- The settled sizes of an area in pairs: a size and a padding for each member. -/
def pairs : List ℕ → List (ℕ × ℕ)
  | size :: padding :: rest => (size, padding) :: pairs rest
  | _ => []

/-- The sizes and paddings of the members of an area (lines 2066–2070). -/
def grownIn (matched : List MatchedPartition) (areas : List FreeArea)
    (assigned : List (Option ℕ)) (ai : ℕ) : List (ℕ × ℕ) :=
  let ms := members defs sectorSize matched assigned ai
  let preceding := ((areas[ai]?).map fun a => precedingExtent sectorSize a ms).getD 0
  pairs (growClaims (ms.flatMap fun p => [sizeClaim defs sectorSize p, paddingClaim p])
    (available defs sectorSize matched areas ai + preceding) (grain sectorSize))

/-- The sizes of the areas, handed out to the partitions in their order. -/
def distribute : List (Option ℕ) → (ℕ → List (ℕ × ℕ)) → List (ℕ × ℕ)
  | [], _ => []
  | none :: rest, grown => (0, 0) :: distribute rest grown
  | some ai :: rest, grown =>
    (grown ai).headD (0, 0) :: distribute rest (Function.update grown ai (grown ai).tail)

/-- The sizes and paddings of the matched partitions (lines 2007–2070). -/
def sizes (matched : List MatchedPartition) (areas : List FreeArea)
    (assigned : List (Option ℕ)) : List (ℕ × ℕ) :=
  distribute assigned (grownIn defs sectorSize matched areas assigned)

/-- `next_free_slot` (lines 1820–1827). -/
def nextFreeSlot (used : List ℕ) : ℕ :=
  ((List.range (used.length + 1)).find? fun slot => !used.contains slot).getD 0

/-- One matched partition with its size, as instance `instance` of its type
    (lines 2089–2123). -/
def applySize (uuidOf : String → ℕ → String) (used : List ℕ) (inst : ℕ)
    (m : MatchedPartition) (size : ℕ × ℕ) : MatchedPartition × List ℕ :=
  let d := definition defs m
  match request defs sectorSize m with
  | none => (m, used)
  | some _ =>
    match m.isNew, m.existing with
    | false, some e =>
      let allocated := max size.1 (e.sizeBytes sectorSize)
      ({ m with
          allocatedSize := allocated
          isGrown := decide (e.sizeBytes sectorSize < allocated)
          paddingSize := size.2 }, used)
    | _, _ =>
      let slot := nextFreeSlot used
      ({ m with
          allocatedSize := alignDown size.1 (grain sectorSize)
          assignedUuid := d.uuid.getD (uuidOf d.typeUuid inst)
          slotIndex := slot
          paddingSize := size.2 }, slot :: used)

/-- The loop over the requests (lines 2072–2123). The instance of a partition is the number of
    those of its type before it. -/
def applySizes (uuidOf : String → ℕ → String) :
    List ℕ → List String → List MatchedPartition → List (ℕ × ℕ) → List MatchedPartition
  | used, types, m :: rest, size :: sizes =>
    let typeUuid := (definition defs m).typeUuid
    let (m, used) := applySize defs sectorSize uuidOf used (types.count typeUuid) m size
    m :: applySizes uuidOf used (typeUuid :: types) rest sizes
  | _, _, ms, _ => ms

/-! ## Layout -/

/-- The sectors of a region. -/
def regionSectors (r : ℕ × ℕ) : ℕ := r.2 - r.1 + 1

/-- Take `n` sectors from the front of the first region that has them. -/
def carve (n : ℕ) : List (ℕ × ℕ) → Option (ℕ × List (ℕ × ℕ))
  | [] => none
  | r :: rest =>
    if regionSectors r ≥ n then some (r.1, (r.1 + n, r.2) :: rest)
    else (carve n rest).map fun p => (p.1, r :: p.2)

/-- `retain`: the regions that are not empty. -/
def retain (free : List (ℕ × ℕ)) : List (ℕ × ℕ) := free.filter fun r => decide (r.1 ≤ r.2)

/-- The regions, smallest first. -/
def sortRegions (free : List (ℕ × ℕ)) : List (ℕ × ℕ) :=
  free.insertionSort fun r s => regionSectors r ≤ regionSectors s

/-- Place one partition in the smallest region that fits, with its padding or else without
    (lines 2132–2175). -/
def placeOne (m : MatchedPartition) (free : List (ℕ × ℕ)) :
    Except String (MatchedPartition × List (ℕ × ℕ)) :=
  if !m.isNew || m.allocatedSize = 0 then .ok (m, free)
  else
    let needed := m.allocatedSize / sectorSize
    let padding := m.paddingSize / sectorSize
    let sorted := sortRegions free
    match carve (needed + padding) sorted with
    | some (start, free) =>
      .ok ({ m with startLba := start, endLba := start + needed - 1 }, retain free)
    | none =>
      match carve needed sorted with
      | some (start, free) =>
        .ok ({ m with startLba := start, endLba := start + needed - 1, paddingSize := 0 },
          retain free)
      | none =>
        if 0 < (definition defs m).priority then
          .ok ({ m with allocatedSize := 0, isNew := false }, retain sorted)
        else
          .error ("Cannot place partition '" ++ (definition defs m).filename ++
            "': no free region of " ++ formatSize m.allocatedSize ++ " available")

/-- The layout of the new partitions (lines 2130–2176). -/
def placeAll :
    List MatchedPartition → List (ℕ × ℕ) → Except String (List MatchedPartition × List (ℕ × ℕ))
  | [], free => .ok ([], free)
  | m :: rest, free => do
    let (m, free) ← placeOne defs sectorSize m free
    let (rest, free) ← placeAll rest free
    return (m :: rest, free)

/-- Take `n` sectors from the front of the region that starts at `start`, if it has them. -/
def takeAt (start n : ℕ) : List (ℕ × ℕ) → Option (List (ℕ × ℕ))
  | [] => none
  | r :: rest =>
    if r.1 = start ∧ regionSectors r ≥ n then some ((r.1 + n, r.2) :: rest)
    else (takeAt start n rest).map (r :: ·)

/-- The growth of one existing partition (lines 2181–2219). -/
def growOne (m : MatchedPartition) (free : List (ℕ × ℕ)) : MatchedPartition × List (ℕ × ℕ) :=
  match m.isGrown, m.existing with
  | true, some e =>
    let desiredEnd := e.firstLba + m.allocatedSize / sectorSize - 1
    if desiredEnd > e.lastLba then
      match takeAt (e.lastLba + 1) (desiredEnd - e.lastLba) free with
      | some free => ({ m with startLba := e.firstLba, endLba := desiredEnd }, retain free)
      | none =>
        ({ m with
            allocatedSize := e.sizeBytes sectorSize
            isGrown := false
            startLba := e.firstLba
            endLba := e.lastLba }, retain free)
    else
      ({ m with isGrown := false, startLba := e.firstLba, endLba := e.lastLba }, retain free)
  | _, _ => (m, free)

/-- The growth of the existing partitions (lines 2178–2219). -/
def growAll : List MatchedPartition → List (ℕ × ℕ) → List MatchedPartition × List (ℕ × ℕ)
  | [], free => ([], free)
  | m :: rest, free =>
    let (m, free) := growOne sectorSize m free
    let (rest, free) := growAll rest free
    (m :: rest, free)

/-- The matched partitions with their sizes, before the layout. -/
def planned (uuidOf : String → ℕ → String) (existing : List GptPartition)
    (matched : List MatchedPartition) (firstUsable lastUsable : ℕ) : List MatchedPartition :=
  let areas := findFreeAreas existing firstUsable lastUsable
  applySizes defs sectorSize uuidOf (existing.map (·.slotIndex)) [] matched
    (sizes defs sectorSize matched areas (assignment defs sectorSize matched areas))

/-- `allocate_space` (lines 1803–2222), with the derivation of the UUIDs from the seed. -/
def allocateSpace (uuidOf : String → ℕ → String) (matched : List MatchedPartition)
    (firstUsable lastUsable : ℕ) (existing : List GptPartition) :
    Except String (List MatchedPartition) := do
  let freeRegions := findFreeRegions existing firstUsable lastUsable
  checkMinimums defs sectorSize matched ((freeRegions.map regionSectors).sum * sectorSize)
  let (placed, free) ← placeAll defs sectorSize
    (planned defs sectorSize uuidOf existing matched firstUsable lastUsable) freeRegions
  return (growAll sectorSize placed free).1

/-! ## The partitions that are written -/

/-- Whether an existing partition is one that grew (lines 3326–3333). -/
def isModified (matched : List MatchedPartition) (p : GptPartition) : Bool :=
  matched.any fun m => !m.isNew && isExisting p m && m.isGrown

/-- The partition that a grown one is written as (lines 3341–3358). -/
def grownPart (m : MatchedPartition) : Option GptPartition :=
  match m.isNew, m.isGrown, m.existing with
  | false, true, some e =>
    some
      { e with
        lastLba := m.endLba
        attributes := (definition defs m).effectiveFlags
        name := m.assignedLabel }
  | _, _, _ => none

/-- The partition that a new one is written as (lines 3361–3379), unless its type is deferred. -/
def newPart (deferred : String → Bool) (m : MatchedPartition) : Option GptPartition :=
  let d := definition defs m
  if m.isNew ∧ 0 < m.allocatedSize ∧ !deferred d.typeUuid then
    some
      { typeGuid := d.typeUuid
        uniqueGuid := m.assignedUuid
        firstLba := m.startLba
        lastLba := m.endLba
        attributes := d.effectiveFlags
        name := m.assignedLabel
        slotIndex := m.slotIndex }
  else none

/-- The final partition list of `run` (lines 3320–3379). -/
def finalPartitions (deferred : String → Bool) (existing : List GptPartition)
    (matched : List MatchedPartition) : List GptPartition :=
  existing.filter (fun p => !isModified matched p) ++
    (matched.filterMap (grownPart defs) ++ matched.filterMap (newPart defs deferred))

end Allocate

end OxidizedSystemd.Repart
