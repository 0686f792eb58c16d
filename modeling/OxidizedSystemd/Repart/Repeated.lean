import OxidizedSystemd.Repart.Gpt

/-!
# One run after the other

A disk that only `run` writes (`repart/src/main.rs`, lines 3143–3402). It may grow between two
runs, and each run finds the table that the last one wrote.

* `Disk.after`: one run.
* `runs_sound`: the tables are sound, and no partition moves or shrinks.
-/

namespace OxidizedSystemd.Repart

open Lib

/-- A disk with its size in sectors. -/
structure Disk where
  label : Option (GptHeader × List GptPartition)
  sectors : ℕ

/-- The partitions of the label. -/
def Disk.partitions (d : Disk) : List GptPartition := (d.label.map Prod.snd).getD []

/-- A run, and the size of the disk when the device has been opened. -/
structure Run where
  args : RunArgs
  defs : List PartitionDefinition
  uuidOf : String → ℕ → String
  dryRun : Bool
  sectors : ℕ

variable {sectorSize : SectorSize} {d : Disk} {r : Run} {parts : List GptPartition} {n lo hi : ℕ}

/-- Neither `--empty=force` nor `--factory-reset`. -/
def Run.Keeps (r : Run) : Prop := r.args.empty ≠ .force ∧ ∀ d, r.args.factoryReset d = false

theorem workingPartitions_of_keeps {defs : List PartitionDefinition} {existing : List GptPartition}
    (h : r.Keeps) : workingPartitions r.args defs existing = existing := by
  simp [workingPartitions, h.1, h.2]

/-- The partition `p` is in `parts`, where it was and no shorter. -/
def Kept (parts : List GptPartition) (p : GptPartition) : Prop :=
  ∃ p' ∈ parts, p'.slotIndex = p.slotIndex ∧ p'.firstLba = p.firstLba ∧ p.lastLba ≤ p'.lastLba

/-- What is read of the partitions that were written. -/
def readBack (parts : List GptPartition) : List GptPartition :=
  (parts.map Gpt.lowered).insertionSort fun p q => p.slotIndex ≤ q.slotIndex

/-- `run` to its end (lines 3183–3402). A run that fails does not write. -/
def Disk.after (sectorSize : ℕ) (d : Disk) (r : Run) : Disk :=
  match run r.args r.defs sectorSize r.uuidOf d.label r.sectors with
  | .error _ => { d with sectors := r.sectors }
  | .ok (working, ms) =>
    if r.dryRun = false ∧ (d.label = none ∨ ms.any fun m => m.isNew || m.isGrown) then
      let parts := finalPartitions r.defs r.args.deferred working ms
      { label := some (buildGptHeader parts sectorSize r.sectors, readBack parts)
        sectors := r.sectors }
    else { d with sectors := r.sectors }

/-- The label leaves the tables free, and its partitions are in its range. -/
def Disk.Sound (sectorSize : ℕ) (d : Disk) : Prop :=
  ∀ hdr parts, d.label = some (hdr, parts) → hdr.Compatible sectorSize d.sectors ∧
    ValidTable parts hdr.firstUsableLba (d.sectors - 2 - entriesSectors sectorSize)

/-! ## One run -/

theorem ValidTable.mono {lo' hi' : ℕ} (h : ValidTable parts lo hi)
    (hlo : ∀ p ∈ parts, lo' ≤ p.firstLba) (hhi : hi ≤ hi') : ValidTable parts lo' hi' := by
  refine ⟨⟨fun x hx => ?_, h.packed.apart⟩, h.slots⟩
  obtain ⟨p, hp, rfl⟩ := List.mem_map.mp hx
  obtain ⟨-, hle, hlast⟩ := h.packed.bounds _ hx
  exact ⟨hlo p hp, hle, hlast.trans hhi⟩

theorem ValidTable.sublist {parts' : List GptPartition} (h : ValidTable parts lo hi)
    (hsub : parts'.Sublist parts) : ValidTable parts' lo hi :=
  ⟨h.packed.sublist (hsub.map _), h.slots.sublist (hsub.map _)⟩

theorem perm_readBack (parts : List GptPartition) :
    (readBack parts).Perm (parts.map Gpt.lowered) := List.perm_insertionSort _ _

theorem ValidTable.readBack (h : ValidTable parts lo hi) : ValidTable (readBack parts) lo hi := by
  have hextents : (parts.map Gpt.lowered).map GptPartition.extent = parts.map GptPartition.extent :=
    List.map_map
  have hslots : (parts.map Gpt.lowered).map (·.slotIndex) = parts.map (·.slotIndex) := List.map_map
  constructor
  · exact (hextents ▸ h.packed).perm ((perm_readBack parts).symm.map _)
  · exact (((perm_readBack parts).map _).nodup_iff).mpr (hslots ▸ h.slots)

theorem Disk.Sound.grow (h : d.Sound sectorSize.bytes) (hn : d.sectors ≤ n) :
    Disk.Sound sectorSize.bytes { d with sectors := n } := by
  intro hdr parts hlabel
  obtain ⟨⟨hfirst, hlast⟩, htable⟩ := h hdr parts hlabel
  have hle : d.sectors - 2 - entriesSectors sectorSize.bytes ≤
      n - 2 - entriesSectors sectorSize.bytes := by omega
  refine ⟨⟨hfirst, hlast.trans hle⟩, htable.mono (fun p hp => ?_) hle⟩
  exact (htable.packed.bounds _ (List.mem_map_of_mem hp)).1

/-- The range of a run begins behind the tables and ends in front of them, and the partitions of
    the label are in it. -/
theorem Disk.Sound.range (h : d.Sound sectorSize.bytes) (hn : d.sectors ≤ n) :
    let range := usableRange sectorSize.bytes n (d.label.map Prod.fst)
    2 + entriesSectors sectorSize.bytes ≤ range.1 ∧
      range.2 = n - 2 - entriesSectors sectorSize.bytes ∧
      ValidTable d.partitions range.1 range.2 := by
  cases hlabel : d.label with
  | none =>
    refine ⟨le_aligned_first sectorSize, ?_, ?_⟩
    · simp only [usableRange, Option.map_none]
      omega
    · rw [Disk.partitions, hlabel]
      exact ⟨.nil, List.nodup_nil⟩
  | some label =>
    obtain ⟨hdr, parts⟩ := label
    obtain ⟨⟨hfirst, hlast⟩, htable⟩ := h.grow hn hdr parts hlabel
    have hend : (usableRange sectorSize.bytes n (some hdr)).2 =
        n - 2 - entriesSectors sectorSize.bytes := by
      simp only [usableRange] at hlast ⊢
      omega
    refine ⟨hfirst, hend, ?_⟩
    rw [Option.map_some, hend, Disk.partitions, hlabel]
    exact htable

/-- The header that is written has the partitions in its range. -/
theorem ValidTable.written (h : ValidTable parts lo hi)
    (hlo : 2 + entriesSectors sectorSize.bytes ≤ lo) :
    ValidTable parts (buildGptHeader parts sectorSize.bytes n).firstUsableLba hi := by
  refine h.mono (fun p hp => ?_) le_rfl
  have hmem : p.firstLba ∈ parts.map (·.firstLba) := List.mem_map_of_mem hp
  rw [buildGptHeader]
  dsimp only
  cases hmin : (parts.map (·.firstLba)).min? with
  | none => exact absurd (List.min?_eq_none_iff.mp hmin ▸ hmem) List.not_mem_nil
  | some earliest =>
    have hle := (List.min?_eq_some_iff.mp hmin).2 _ hmem
    have hfirst := (h.packed.bounds _ (List.mem_map_of_mem hp)).1
    simp only [GptPartition.extent] at hfirst
    dsimp only
    omega

/-- What a run does to a sound disk. -/
theorem Disk.Sound.after (h : d.Sound sectorSize.bytes) (hn : d.sectors ≤ r.sectors) :
    (d.after sectorSize.bytes r).Sound sectorSize.bytes ∧
      (r.Keeps → ∀ p ∈ d.partitions, Kept (d.after sectorSize.bytes r).partitions p) := by
  have hkept : ∀ p ∈ d.partitions, Kept d.partitions p := fun p hp => ⟨p, hp, rfl, rfl, le_rfl⟩
  obtain ⟨hfirst, hlast, htable⟩ := h.range hn
  rw [Disk.after]
  split
  · exact ⟨h.grow hn, fun _ => hkept⟩
  · rename_i working ms hrun
    split_ifs with hwrite
    · obtain ⟨hworking, halloc⟩ := run_ok hrun
      have hsub : working.Sublist d.partitions := hworking ▸ sublist_workingPartitions r.args _
      have hvalid := finalPartitions_valid sectorSize.pos (htable.sublist hsub) halloc
        r.args.deferred
      constructor
      · rintro _ _ ⟨⟩
        exact ⟨buildGptHeader_compatible _ le_rfl, hlast ▸ (hvalid.written hfirst).readBack⟩
      · intro hkeeps p hp
        obtain ⟨_, hinv, -, -⟩ := allocateSpace_growInv sectorSize.pos (htable.sublist hsub) halloc
        rw [workingPartitions_of_keeps hkeeps] at hworking
        obtain ⟨p', hp', hsame⟩ := hinv.kept p (hworking ▸ hp)
        refine ⟨Gpt.lowered p', (perm_readBack _).mem_iff.mpr (List.mem_map_of_mem ?_), hsame⟩
        rw [finalPartitions_eq]
        exact List.mem_append_left _ hp'
    · exact ⟨h.grow hn, fun _ => hkept⟩

theorem sectors_after (sectorSize : ℕ) (d : Disk) (r : Run) :
    (d.after sectorSize r).sectors = r.sectors := by
  rw [Disk.after]
  split
  · rfl
  · split_ifs <;> rfl

/-! ## Many runs -/

/-- The disk after some runs. -/
def Disk.afterAll (sectorSize : ℕ) (d : Disk) (rs : List Run) : Disk :=
  rs.foldl (Disk.after sectorSize) d

/-- The disk never gets smaller: `--size=` only grows an image (lines 3143–3168), other than with
    `--empty=create`. -/
def Growing (d : Disk) (rs : List Run) : Prop :=
  (d.sectors :: rs.map Run.sectors).IsChain (· ≤ ·)

theorem growing_cons {rs : List Run} (h : Growing d (r :: rs)) (sectorSize : ℕ) :
    d.sectors ≤ r.sectors ∧ Growing (d.after sectorSize r) rs := by
  rw [Growing, sectors_after]
  exact List.isChain_cons_cons.mp h

theorem Disk.Sound.kept {rs : List Run} (h : d.Sound sectorSize.bytes) (hgrow : Growing d rs)
    (hkeeps : ∀ r ∈ rs, r.Keeps) :
    ∀ p ∈ d.partitions, Kept (d.afterAll sectorSize.bytes rs).partitions p := by
  induction rs generalizing d with
  | nil => exact fun p hp => ⟨p, hp, rfl, rfl, le_rfl⟩
  | cons r rs ih =>
    obtain ⟨hn, hgrow⟩ := growing_cons hgrow sectorSize.bytes
    obtain ⟨hr, hrs⟩ := List.forall_mem_cons.mp hkeeps
    obtain ⟨hsound, hkept⟩ := h.after hn
    intro p hp
    obtain ⟨p₁, hp₁, hslot₁, hfirst₁, hlast₁⟩ := hkept hr p hp
    obtain ⟨p₂, hp₂, hslot₂, hfirst₂, hlast₂⟩ := ih hsound hgrow hrs p₁ hp₁
    exact ⟨p₂, hp₂, hslot₂.trans hslot₁, hfirst₂.trans hfirst₁, hlast₁.trans hlast₂⟩

theorem Disk.Sound.afterAll {rs rs' : List Run} (h : d.Sound sectorSize.bytes)
    (hgrow : Growing d (rs ++ rs')) :
    (d.afterAll sectorSize.bytes rs).Sound sectorSize.bytes ∧
      Growing (d.afterAll sectorSize.bytes rs) rs' := by
  induction rs generalizing d with
  | nil => exact ⟨h, hgrow⟩
  | cons r rs ih =>
    obtain ⟨hn, hgrow⟩ := growing_cons hgrow sectorSize.bytes
    exact ih (h.after hn).1 hgrow

end OxidizedSystemd.Repart
