import Mathlib.Data.List.Pairwise
import OxidizedSystemd.Lib.Image
import OxidizedSystemd.Lib.Utf16
import OxidizedSystemd.Repart.Guid
import OxidizedSystemd.Repart.UsableRange

/-!
# Partition tables on a disk

Model of how a GUID partition table is written and read (`repart/src/main.rs`, lines 465–478 and
1214–1569): the entries, the headers with their checksums, and the places of both copies. A disk
is the list of its bytes; a read gives all bytes that are there.

* `decodeEntry_build`: an entry is read back as it was written.
* `entriesData_ok`: each partition is in its slot, the other slots are free.
* `writeGpt_readGpt`: a table is read back as it was written, and its copies match.
-/

namespace OxidizedSystemd.Repart.Gpt

open Lib

/-! ## Checksums -/

/-- The body of the inner loop of `crc32`. -/
def crc32Bit (crc : UInt32) : UInt32 :=
  if crc &&& 1 ≠ 0 then (crc >>> 1) ^^^ 0xEDB88320 else crc >>> 1

/-- The body of the outer loop of `crc32`. -/
def crc32Byte (crc : UInt32) (byte : UInt8) : UInt32 := crc32Bit^[8] (crc ^^^ byte.toUInt32)

/-- `crc32`. -/
def crc32 (data : Bytes) : UInt32 := ~~~ data.foldl crc32Byte 0xFFFFFFFF

example : crc32 (asBytes "123456789") = 0xCBF43926 := by
  set_option maxRecDepth 20000 in decide

/-! ## Names -/

/-- `GPT_LABEL_MAX_UTF16`. -/
def gptLabelMaxUtf16 : ℕ := 36

/-- The code units of data, `chunks_exact(2)`. -/
def codeUnits : Bytes → List ℕ
  | a :: b :: rest => ofLe [a, b] :: codeUnits rest
  | _ => []

/-- `parse_utf16le_name`. -/
def parseUtf16leName (data : Bytes) : String :=
  String.ofList (fromUtf16Lossy ((codeUnits data).takeWhile (· ≠ 0)))

/-- `encode_utf16le_name`. -/
def encodeUtf16leName (name : String) : Bytes :=
  let units := (encodeUtf16 name.toList).take gptLabelMaxUtf16
  units.flatMap (toLe 2) ++ List.replicate (72 - 2 * units.length) 0

/-! ## Writing -/

/-- `GPT_SIGNATURE`. -/
def gptSignature : Bytes := [0x45, 0x46, 0x49, 0x20, 0x50, 0x41, 0x52, 0x54]

/-- `GPT_HEADER_SIZE`. -/
def gptHeaderSize : ℕ := 92

/-- The sector that `write_protective_mbr` writes. -/
def protectiveMbr (disk sectorSize : ℕ) : Bytes :=
  let numSectors := if 0xFFFFFFFF < disk then 0xFFFFFFFF else if 1 < disk then disk - 1 else 1
  List.replicate 446 0 ++ [0x00, 0x00, 0x02, 0x00, 0xEE, 0xFF, 0xFF, 0xFF] ++ toLe 4 1 ++
    toLe 4 numSectors ++ List.replicate 48 0 ++ [0x55, 0xAA] ++
    List.replicate (sectorSize - 512) 0

/-- `build_partition_entry`. -/
def buildPartitionEntry (part : GptPartition) : Faulty Bytes := do
  let typeBytes ← encodeGuid part.typeGuid
  let uniqueBytes ← encodeGuid part.uniqueGuid
  return typeBytes ++ uniqueBytes ++ toLe 8 part.firstLba ++ toLe 8 part.lastLba ++
    toLe 8 part.attributes.toNat ++ encodeUtf16leName part.name

/-- One turn of the loop over the partitions (lines 1449–1456). -/
def placeEntry (data : Bytes) (part : GptPartition) : Faulty Bytes :=
  if part.slotIndex < maxGptEntries then do
    let entry ← buildPartitionEntry part
    return writeAt data (part.slotIndex * gptEntrySize) entry
  else .ok data

/-- `entries_data` (lines 1447–1456). -/
def entriesData (partitions : List GptPartition) : Faulty Bytes :=
  partitions.foldlM placeEntry (List.replicate (maxGptEntries * gptEntrySize) 0)

/-- The sectors that a header names: its own, that of the other header, and its entries. -/
structure Places where
  myLba : ℕ
  alternateLba : ℕ
  partitionEntryLba : ℕ

/-- The places of the primary or of the backup header (lines 1463–1471). -/
def places (disk sectorSize : ℕ) (isBackup : Bool) : Places :=
  if isBackup then ⟨disk - 1, 1, disk - 1 - entriesSectors sectorSize⟩ else ⟨1, disk - 1, 2⟩

/-- The first bytes of a header, with its checksum (lines 1489–1515). -/
def headerFields (crc : ℕ) (at_ : Places) (usable : Repart.GptHeader) (guid : Bytes)
    (entriesCrc : ℕ) : Bytes :=
  gptSignature ++ toLe 4 0x00010000 ++ toLe 4 gptHeaderSize ++ toLe 4 crc ++ toLe 4 0 ++
    toLe 8 at_.myLba ++ toLe 8 at_.alternateLba ++ toLe 8 usable.firstUsableLba ++
    toLe 8 usable.lastUsableLba ++ guid ++ toLe 8 at_.partitionEntryLba ++
    toLe 4 maxGptEntries ++ toLe 4 gptEntrySize ++ toLe 4 entriesCrc

/-- `build_gpt_header`: the sector of the header, and the entries behind it. -/
def buildGptHeader (diskGuid : String) (partitions : List GptPartition) (disk sectorSize : ℕ)
    (isBackup : Bool) : Faulty Bytes := do
  let entries ← entriesData partitions
  let guid ← encodeGuid diskGuid
  let fields := fun crc => headerFields crc (places disk sectorSize isBackup)
    (Repart.buildGptHeader partitions sectorSize disk) guid (crc32 entries).toNat
  return fields (crc32 (fields 0)).toNat ++ List.replicate (sectorSize - gptHeaderSize) 0 ++ entries

/-- `write_gpt`. -/
def writeGpt (image : Bytes) (diskGuid : String) (partitions : List GptPartition)
    (diskSize sectorSize : ℕ) : Faulty Bytes := do
  let disk := diskSize / sectorSize
  let image := writeAt image 0 (protectiveMbr disk sectorSize)
  let primary ← buildGptHeader diskGuid partitions disk sectorSize false
  let image := writeAt image sectorSize (primary.take sectorSize)
  let image := writeAt image (2 * sectorSize) (primary.drop sectorSize)
  let backup ← buildGptHeader diskGuid partitions disk sectorSize true
  let image := writeAt image ((disk - 1 - entriesSectors sectorSize) * sectorSize)
    (backup.drop sectorSize)
  return writeAt image ((disk - 1) * sectorSize) (backup.take sectorSize)

/-! ## Reading -/

/-- `GptHeader`, of which the usable range is a part. -/
structure GptHeader extends Repart.GptHeader where
  revision : ℕ
  headerSize : ℕ
  headerCrc32 : ℕ
  myLba : ℕ
  alternateLba : ℕ
  diskGuid : String
  partitionEntryLba : ℕ
  numPartitionEntries : ℕ
  partitionEntrySize : ℕ
  partitionEntriesCrc32 : ℕ

/-- The header in a sector (lines 1265–1301). -/
def parseGptHeader (buf : Bytes) : Option GptHeader :=
  if buf.length < gptHeaderSize then none
  else if buf.take 8 ≠ gptSignature then none
  else
    some
      { revision := leAt buf 8 4
        headerSize := leAt buf 12 4
        headerCrc32 := leAt buf 16 4
        myLba := leAt buf 24 8
        alternateLba := leAt buf 32 8
        firstUsableLba := leAt buf 40 8
        lastUsableLba := leAt buf 48 8
        diskGuid := parseGuid ((buf.drop 56).take 16)
        partitionEntryLba := leAt buf 72 8
        numPartitionEntries := leAt buf 80 4
        partitionEntrySize := leAt buf 84 4
        partitionEntriesCrc32 := leAt buf 88 4 }

/-- `read_gpt_header`. -/
def readGptHeader (image : Bytes) (sectorSize : ℕ) : Option GptHeader :=
  parseGptHeader (readAt image (1 * sectorSize) sectorSize)

/-- The partition in an entry, none in a free one (lines 1323–1345). -/
def decodeEntry (slot : ℕ) (entry : Bytes) : Option GptPartition :=
  let typeGuid := parseGuid (entry.take 16)
  if isZeroGuid typeGuid then none
  else
    some
      { typeGuid := typeGuid
        uniqueGuid := parseGuid ((entry.drop 16).take 16)
        firstLba := leAt entry 32 8
        lastLba := leAt entry 40 8
        attributes := UInt64.ofNat (leAt entry 48 8)
        name := parseUtf16leName ((entry.drop 56).take (min entry.length 128 - 56))
        slotIndex := slot }

/-- The loop of `read_gpt_partitions`, with the entries that are left. -/
def readEntries (image : Bytes) (start entrySize : ℕ) : ℕ → ℕ → List GptPartition
  | 0, _ => []
  | left + 1, i =>
    let entry := readAt image (start + i * entrySize) entrySize
    if entry.length < 128 then []
    else (decodeEntry i entry).toList ++ readEntries image start entrySize left (i + 1)

/-- `read_gpt_partitions`. -/
def readGptPartitions (image : Bytes) (header : GptHeader) (sectorSize : ℕ) :
    List GptPartition :=
  readEntries image (header.partitionEntryLba * sectorSize)
    (max header.partitionEntrySize gptEntrySize) header.numPartitionEntries 0

/-! ## Entries -/

/-- A partition that can be written: what the fields of an entry hold. -/
structure Writable (p : GptPartition) : Prop where
  type_guid : CanonicalGuid p.typeGuid
  type_nonzero : p.typeGuid ≠ zeroGuid
  unique_guid : CanonicalGuid p.uniqueGuid
  first_lba : p.firstLba < 2 ^ 64
  last_lba : p.lastLba < 2 ^ 64
  slot : p.slotIndex < maxGptEntries
  name_length : (encodeUtf16 p.name.toList).length ≤ gptLabelMaxUtf16
  name_nul : ∀ c ∈ p.name.toList, c.toNat ≠ 0

/-- A partition with its GUIDs in lower case. -/
def lowered (p : GptPartition) : GptPartition :=
  { p with
    typeGuid := lowerGuid p.typeGuid
    uniqueGuid := lowerGuid p.uniqueGuid }

theorem leAt_append_left (n v : ℕ) (bs : Bytes) (h : v < 256 ^ n) :
    leAt (toLe n v ++ bs) 0 n = v := by
  rw [leAt, List.drop_zero, List.take_append_of_le_length (by simp),
    List.take_of_length_le (by simp), ofLe_toLe_of_lt h]

theorem leAt_append_right {as : Bytes} {off : ℕ} (h : as.length ≤ off) (bs : Bytes) (n : ℕ) :
    leAt (as ++ bs) off n = leAt bs (off - as.length) n := by
  rw [leAt, leAt, List.drop_append, List.drop_eq_nil_of_le h, List.nil_append]

theorem leAt_toLe_append {n off : ℕ} (h : n ≤ off) (v : ℕ) (bs : Bytes) (m : ℕ) :
    leAt (toLe n v ++ bs) off m = leAt bs (off - n) m := by
  rw [leAt_append_right (by rwa [length_toLe]), length_toLe]

theorem codeUnits_flatMap {units : List ℕ} (h : ∀ unit ∈ units, unit < 0x10000) (rest : Bytes) :
    codeUnits (units.flatMap (toLe 2) ++ rest) = units ++ codeUnits rest := by
  induction units with
  | nil => rfl
  | cons unit units ih =>
    obtain ⟨hunit, hunits⟩ := List.forall_mem_cons.mp h
    have hbytes : ofLe [UInt8.ofNat unit, UInt8.ofNat (unit / 256)] = unit :=
      ofLe_toLe_of_lt (n := 2) hunit
    rw [List.flatMap_cons, List.append_assoc]
    show ofLe [UInt8.ofNat unit, UInt8.ofNat (unit / 256)] :: codeUnits _ = _
    rw [hbytes]
    exact congrArg _ (ih hunits)

theorem codeUnits_zeros (n : ℕ) : codeUnits (List.replicate (2 * n) 0) = List.replicate n 0 := by
  induction n with
  | zero => rfl
  | succ n ih =>
    show ofLe [0, 0] :: codeUnits (List.replicate (2 * n) 0) = _
    rw [ih]
    rfl

theorem length_flatMap_toLe (units : List ℕ) :
    (units.flatMap (toLe 2)).length = 2 * units.length := by
  induction units with
  | nil => rfl
  | cons unit units ih =>
    rw [List.flatMap_cons, List.length_append, length_toLe, ih, List.length_cons]
    omega

/-- A name is read back as it was written. -/
theorem parseUtf16leName_encode {name : String}
    (hlen : (encodeUtf16 name.toList).length ≤ gptLabelMaxUtf16)
    (hnul : ∀ c ∈ name.toList, c.toNat ≠ 0) :
    (encodeUtf16leName name).length = 72 ∧ parseUtf16leName (encodeUtf16leName name) = name := by
  have htake : (encodeUtf16 name.toList).take gptLabelMaxUtf16 = encodeUtf16 name.toList :=
    List.take_of_length_le hlen
  have hnonzero : ∀ unit ∈ encodeUtf16 name.toList, decide (unit ≠ 0) = true := by
    intro unit hunit
    apply decide_eq_true
    rintro rfl
    obtain ⟨c, hc, hzero⟩ := List.mem_flatMap.mp hunit
    exact hnul c hc (zero_mem_encodeUtf16Char hzero)
  rw [gptLabelMaxUtf16] at hlen
  constructor
  · rw [encodeUtf16leName, htake, List.length_append, length_flatMap_toLe, List.length_replicate]
    omega
  · rw [parseUtf16leName, encodeUtf16leName, htake,
      codeUnits_flatMap fun unit hunit => encodeUtf16_lt hunit,
      show 72 - 2 * (encodeUtf16 name.toList).length =
        2 * (36 - (encodeUtf16 name.toList).length) by omega,
      codeUnits_zeros, List.takeWhile_append_of_pos hnonzero]
    have hzeros : (List.replicate (36 - (encodeUtf16 name.toList).length) 0).takeWhile
        (fun unit : ℕ => decide (unit ≠ 0)) = [] := by
      cases 36 - (encodeUtf16 name.toList).length with
      | zero => rfl
      | succ n => rfl
    rw [hzeros, List.append_nil, fromUtf16Lossy_encode, String.ofList_toList]

/-- An entry is read back as it was written. -/
theorem decodeEntry_build {p : GptPartition} (h : Writable p) :
    ∃ entry, buildPartitionEntry p = .ok entry ∧ entry.length = gptEntrySize ∧
      decodeEntry p.slotIndex entry = some (lowered p) := by
  obtain ⟨typeBytes, htype, htypeLen, htypeText⟩ := parseGuid_encodeGuid h.type_guid
  obtain ⟨uniqueBytes, hunique, huniqueLen, huniqueText⟩ := parseGuid_encodeGuid h.unique_guid
  obtain ⟨hnameLen, hname⟩ := parseUtf16leName_encode h.name_length h.name_nul
  have hzero : isZeroGuid (lowerGuid p.typeGuid) = false := by
    rw [isZeroGuid, beq_eq_false_iff_ne]
    exact fun hzero => h.type_nonzero (eq_zeroGuid_of_lowerGuid h.type_guid hzero)
  have hattributes : p.attributes.toNat < 256 ^ 8 := p.attributes.toNat_lt
  generalize hentry : typeBytes ++ (uniqueBytes ++ (toLe 8 p.firstLba ++ (toLe 8 p.lastLba ++
    (toLe 8 p.attributes.toNat ++ encodeUtf16leName p.name)))) = entry
  have hlen : entry.length = 128 := by simp [← hentry, htypeLen, huniqueLen, hnameLen]
  refine ⟨entry, ?_, hlen, ?_⟩
  · rw [buildPartitionEntry, htype, hunique, ← hentry]
    simp only [ok_bind, List.append_assoc]
    rfl
  · have htypeField : entry.take 16 = typeBytes := by rw [← hentry, List.take_left' htypeLen]
    have huniqueField : (entry.drop 16).take 16 = uniqueBytes := by
      rw [← hentry, List.drop_left' htypeLen, List.take_left' huniqueLen]
    have hfirst : leAt entry 32 8 = p.firstLba := by
      rw [← hentry, leAt_append_right (by omega), leAt_append_right (by omega), htypeLen,
        huniqueLen]
      exact leAt_append_left 8 _ _ h.first_lba
    have hlast : leAt entry 40 8 = p.lastLba := by
      rw [← hentry, leAt_append_right (by omega), leAt_append_right (by omega),
        leAt_append_right (by simp; omega), htypeLen, huniqueLen, length_toLe]
      exact leAt_append_left 8 _ _ h.last_lba
    have hattribute : leAt entry 48 8 = p.attributes.toNat := by
      rw [← hentry, leAt_append_right (by omega), leAt_append_right (by omega),
        leAt_append_right (by simp; omega), leAt_append_right (by simp; omega), htypeLen,
        huniqueLen, length_toLe, length_toLe]
      exact leAt_append_left 8 _ _ hattributes
    have hnameField : (entry.drop 56).take (min entry.length 128 - 56) =
        encodeUtf16leName p.name := by
      rw [hlen, ← hentry]
      simp [List.drop_append, List.drop_eq_nil_of_le, List.take_of_length_le, htypeLen, huniqueLen,
        hnameLen]
    rw [decodeEntry]
    simp only [htypeField, huniqueField, hfirst, hlast, hattribute, hnameField, htypeText,
      huniqueText, hname, hzero]
    simp [lowered]

/-- Different partitions have different slots. -/
def DistinctSlots (ps : List GptPartition) : Prop :=
  ps.Pairwise fun p q => p.slotIndex ≠ q.slotIndex

theorem eq_of_slot_eq {ps : List GptPartition} (h : DistinctSlots ps) {p q : GptPartition}
    (hp : p ∈ ps) (hq : q ∈ ps) (hslot : p.slotIndex = q.slotIndex) : p = q := by
  by_contra hne
  have : Std.Symm fun p q : GptPartition => p.slotIndex ≠ q.slotIndex := ⟨fun _ _ => Ne.symm⟩
  exact h.forall hp hq hne hslot

/-- The loop over the partitions: each is in its slot, the other slots stay as they are. -/
theorem foldlM_placeEntry {ps : List GptPartition} (h : ∀ p ∈ ps, Writable p)
    (hslots : DistinctSlots ps) {data : Bytes}
    (hdata : data.length = maxGptEntries * gptEntrySize) :
    ∃ data', ps.foldlM placeEntry data = .ok data' ∧
      data'.length = maxGptEntries * gptEntrySize ∧
      (∀ i < maxGptEntries, (∀ p ∈ ps, p.slotIndex ≠ i) →
        readAt data' (i * gptEntrySize) gptEntrySize =
          readAt data (i * gptEntrySize) gptEntrySize) ∧
      ∀ p ∈ ps, decodeEntry p.slotIndex
        (readAt data' (p.slotIndex * gptEntrySize) gptEntrySize) = some (lowered p) := by
  induction ps generalizing data with
  | nil => exact ⟨data, rfl, hdata, fun _ _ _ => rfl, by simp⟩
  | cons p ps ih =>
    obtain ⟨hp, hps⟩ := List.forall_mem_cons.mp h
    obtain ⟨hne, hslots⟩ := List.pairwise_cons.mp hslots
    obtain ⟨entry, hentry, hentryLen, hdecode⟩ := decodeEntry_build hp
    have hslot := hp.slot
    have hplace : placeEntry data p =
        .ok (writeAt data (p.slotIndex * gptEntrySize) entry) := by
      rw [placeEntry, if_pos hp.slot, hentry]
      rfl
    have hlen : (writeAt data (p.slotIndex * gptEntrySize) entry).length =
        maxGptEntries * gptEntrySize := by
      rw [length_writeAt, hdata, hentryLen, Nat.max_eq_left]
      simp only [maxGptEntries, gptEntrySize] at hslot ⊢
      omega
    obtain ⟨data', hfold, hlen', hothers, hread⟩ := ih hps hslots hlen
    refine ⟨data', ?_, hlen', fun i hi hnone => ?_, fun q hq => ?_⟩
    · rw [List.foldlM_cons, hplace]
      exact hfold
    · obtain ⟨hpi, hnone⟩ := List.forall_mem_cons.mp hnone
      rw [hothers i hi hnone]
      rcases Nat.lt_or_gt_of_ne hpi with hlt | hgt
      · apply readAt_writeAt_of_after
        rw [hentryLen]
        simp only [gptEntrySize]
        omega
      · apply readAt_writeAt_of_before
        · simp only [gptEntrySize]
          omega
        · rw [hdata]
          simp only [maxGptEntries, gptEntrySize] at hi ⊢
          omega
    · rcases List.mem_cons.mp hq with rfl | hq
      · rw [hothers _ hslot fun r hr => (hne r hr).symm]
        have hself := readAt_writeAt_self data (q.slotIndex * gptEntrySize) entry
        rw [hentryLen] at hself
        rw [hself, hdecode]
      · exact hread q hq

theorem decodeEntry_zeros (slot : ℕ) : decodeEntry slot (List.replicate gptEntrySize 0) = none := by
  have hzero : isZeroGuid (parseGuid ((List.replicate gptEntrySize 0).take 16)) = true := by
    decide
  rw [decodeEntry]
  simp only [hzero, if_true]

/-- Each partition is in its slot, the other slots are free. -/
theorem entriesData_ok {ps : List GptPartition} (h : ∀ p ∈ ps, Writable p)
    (hslots : DistinctSlots ps) :
    ∃ data, entriesData ps = .ok data ∧ data.length = maxGptEntries * gptEntrySize ∧
      ∀ i < maxGptEntries, ∀ q,
        decodeEntry i (readAt data (i * gptEntrySize) gptEntrySize) = some q ↔
          ∃ p ∈ ps, p.slotIndex = i ∧ lowered p = q := by
  obtain ⟨data, hfold, hlen, hothers, hread⟩ := foldlM_placeEntry h hslots
    (List.length_replicate (n := maxGptEntries * gptEntrySize) (a := (0 : UInt8)))
  refine ⟨data, hfold, hlen, fun i hi q => ?_⟩
  by_cases hex : ∃ p ∈ ps, p.slotIndex = i
  · obtain ⟨p, hp, rfl⟩ := hex
    rw [hread p hp, Option.some_inj]
    constructor
    · exact fun hq => ⟨p, hp, rfl, hq⟩
    · rintro ⟨p', hp', hslot, rfl⟩
      rw [eq_of_slot_eq hslots hp' hp hslot]
  · have hnone : ∀ p ∈ ps, p.slotIndex ≠ i := fun p hp hslot => hex ⟨p, hp, hslot⟩
    have hzeros : readAt (List.replicate (maxGptEntries * gptEntrySize) (0 : UInt8))
        (i * gptEntrySize) gptEntrySize = List.replicate gptEntrySize 0 := by
      rw [readAt, List.drop_replicate, List.take_replicate, Nat.min_eq_left]
      simp only [maxGptEntries, gptEntrySize] at hi ⊢
      omega
    rw [hothers i hi hnone, hzeros, decodeEntry_zeros]
    constructor
    · intro hq
      cases hq
    · rintro ⟨p, hp, hslot, -⟩
      exact absurd hslot (hnone p hp)

theorem decodeEntry_slot {slot : ℕ} {entry : Bytes} {p : GptPartition}
    (h : decodeEntry slot entry = some p) : p.slotIndex = slot := by
  rw [decodeEntry] at h
  split at h
  · cases h
  · cases h
    rfl

/-- The loop over entries that are all there. -/
theorem readEntries_eq {image : Bytes} {start entrySize : ℕ} (hsize : 128 ≤ entrySize)
    (left i : ℕ) (hlen : start + (i + left) * entrySize ≤ image.length) :
    readEntries image start entrySize left i = (List.range' i left).filterMap fun j =>
      decodeEntry j (readAt image (start + j * entrySize) entrySize) := by
  induction left generalizing i with
  | zero => rfl
  | succ left ih =>
    have hle : start + i * entrySize + entrySize ≤ image.length := by
      have hmul : (i + (left + 1)) * entrySize = i * entrySize + entrySize + left * entrySize := by
        ring
      omega
    have hentry := length_readAt hle
    rw [readEntries, if_neg (by omega), ih (i + 1) (by rwa [Nat.add_right_comm i 1 left]),
      List.range'_succ, List.filterMap_cons]
    cases decodeEntry i (readAt image (start + i * entrySize) entrySize) with
    | none => rfl
    | some p => rfl

/-- The entries of a table, read in the order of the slots. -/
theorem readEntries_entriesData {ps : List GptPartition} {image data : Bytes} {start : ℕ}
    (hlen : data.length = maxGptEntries * gptEntrySize)
    (hread : readAt image start data.length = data) (hend : start + data.length ≤ image.length)
    (hdecode : ∀ i < maxGptEntries, ∀ q,
      decodeEntry i (readAt data (i * gptEntrySize) gptEntrySize) = some q ↔
        ∃ p ∈ ps, p.slotIndex = i ∧ lowered p = q)
    (hps : ∀ p ∈ ps, p.slotIndex < maxGptEntries) :
    (readEntries image start gptEntrySize maxGptEntries 0).Pairwise
        (fun p q => p.slotIndex < q.slotIndex) ∧
      ∀ q, q ∈ readEntries image start gptEntrySize maxGptEntries 0 ↔ q ∈ ps.map lowered := by
  have hentry : ∀ i < maxGptEntries, readAt image (start + i * gptEntrySize) gptEntrySize =
      readAt data (i * gptEntrySize) gptEntrySize := by
    intro i hi
    rw [← hread, readAt_readAt _ image start]
    rw [hlen]
    simp only [maxGptEntries, gptEntrySize] at hi ⊢
    omega
  rw [readEntries_eq (by decide) _ _ (by rw [Nat.zero_add, ← hlen]; exact hend)]
  constructor
  · rw [List.pairwise_filterMap]
    apply (List.pairwise_lt_range' (n := maxGptEntries)).imp
    intro i j hij p hp q hq
    rw [decodeEntry_slot hp, decodeEntry_slot hq]
    exact hij
  · intro q
    rw [List.mem_filterMap, List.mem_map]
    constructor
    · rintro ⟨i, hi, hq⟩
      have hi : i < maxGptEntries := by simpa using (List.mem_range'_1.mp hi).2
      rw [hentry i hi] at hq
      obtain ⟨p, hp, -, hlow⟩ := (hdecode i hi q).mp hq
      exact ⟨p, hp, hlow⟩
    · rintro ⟨p, hp, hlow⟩
      have hi := hps p hp
      refine ⟨p.slotIndex, List.mem_range'_1.mpr ⟨Nat.zero_le _, by simpa using hi⟩, ?_⟩
      rw [hentry _ hi]
      exact (hdecode _ hi q).mpr ⟨p, hp, rfl, hlow⟩

/-! ## Headers -/

@[simp] theorem length_gptSignature : gptSignature.length = 8 := rfl

variable {at_ : Places} {usable : Repart.GptHeader} {guid : Bytes} {crc entriesCrc : ℕ}

theorem length_headerFields (hguid : guid.length = 16) :
    (headerFields crc at_ usable guid entriesCrc).length = gptHeaderSize := by
  simp [headerFields, hguid, gptHeaderSize]

/-- A header is read back as it was written. -/
theorem parseGptHeader_headerFields (hguid : guid.length = 16) (hcrc : crc < 2 ^ 32)
    (hentriesCrc : entriesCrc < 2 ^ 32) (hmy : at_.myLba < 2 ^ 64)
    (halternate : at_.alternateLba < 2 ^ 64) (hentry : at_.partitionEntryLba < 2 ^ 64)
    (rest : Bytes) :
    ∃ header, parseGptHeader (headerFields crc at_ usable guid entriesCrc ++ rest) = some header ∧
      header.headerSize = gptHeaderSize ∧ header.headerCrc32 = crc ∧ header.myLba = at_.myLba ∧
      header.alternateLba = at_.alternateLba ∧ header.diskGuid = parseGuid guid ∧
      header.partitionEntryLba = at_.partitionEntryLba ∧
      header.numPartitionEntries = maxGptEntries ∧ header.partitionEntrySize = gptEntrySize ∧
      header.partitionEntriesCrc32 = entriesCrc := by
  have hlen : (headerFields crc at_ usable guid entriesCrc).length = gptHeaderSize :=
    length_headerFields hguid
  have hsignature :
      (headerFields crc at_ usable guid entriesCrc ++ rest).take 8 = gptSignature := by
    simp only [headerFields, List.append_assoc]
    exact List.take_left' rfl
  have hguidField : ((headerFields crc at_ usable guid entriesCrc ++ rest).drop 56).take 16 =
      guid := by
    simp only [headerFields, List.append_assoc]
    iterate 9 rw [List.drop_append, List.drop_eq_nil_of_le (by simp), List.nil_append]
    exact List.take_left' hguid
  rw [parseGptHeader, if_neg (by simp [hlen]), if_neg (by simp [hsignature]), hguidField]
  refine ⟨_, rfl, ?_, ?_, ?_, ?_, rfl, ?_, ?_, ?_, ?_⟩
  all_goals
    simp only [headerFields, List.append_assoc]
    rw [leAt_append_right (by decide), leAt_toLe_append (by decide)]
  · exact leAt_append_left 4 _ _ (by decide)
  all_goals rw [leAt_toLe_append (by decide)]
  · exact leAt_append_left 4 _ _ hcrc
  · iterate 2 rw [leAt_toLe_append (by decide)]
    exact leAt_append_left 8 _ _ hmy
  · iterate 3 rw [leAt_toLe_append (by decide)]
    exact leAt_append_left 8 _ _ halternate
  all_goals
    iterate 6 rw [leAt_toLe_append (by decide)]
    rw [leAt_append_right (by rw [hguid]; decide), hguid]
  · exact leAt_append_left 8 _ _ hentry
  · rw [leAt_toLe_append (by decide)]
    exact leAt_append_left 4 _ _ (by decide)
  · iterate 2 rw [leAt_toLe_append (by decide)]
    exact leAt_append_left 4 _ _ (by decide)
  · iterate 3 rw [leAt_toLe_append (by decide)]
    exact leAt_append_left 4 _ _ hentriesCrc

/-- The checksum is made of the header with zeros in its place. -/
theorem writeAt_headerFields (crc : ℕ) (at_ : Places) (usable : Repart.GptHeader) (guid : Bytes)
    (entriesCrc : ℕ) : writeAt (headerFields crc at_ usable guid entriesCrc) 16 (toLe 4 0) =
      headerFields 0 at_ usable guid entriesCrc := by
  have hsplit : ∀ crc, headerFields crc at_ usable guid entriesCrc =
      (gptSignature ++ toLe 4 0x00010000 ++ toLe 4 gptHeaderSize) ++ (toLe 4 crc ++
        (toLe 4 0 ++ (toLe 8 at_.myLba ++ (toLe 8 at_.alternateLba ++
        (toLe 8 usable.firstUsableLba ++ (toLe 8 usable.lastUsableLba ++ (guid ++
        (toLe 8 at_.partitionEntryLba ++ (toLe 4 maxGptEntries ++ (toLe 4 gptEntrySize ++
        toLe 4 entriesCrc)))))))))) := by
    intro crc
    simp only [headerFields, List.append_assoc]
  rw [hsplit, hsplit]
  exact writeAt_append rfl (by rw [length_toLe, length_toLe]) _

/-- The checksums in a header are those of the image: of its own bytes, with zeros in the place
    of the checksum, and of the entries that it names. -/
structure ChecksumsMatch (image : Bytes) (sectorSize : ℕ) (header : GptHeader) : Prop where
  header_crc : header.headerCrc32 = (crc32 (writeAt
    (readAt image (header.myLba * sectorSize) header.headerSize) 16 (toLe 4 0))).toNat
  entries_crc : header.partitionEntriesCrc32 = (crc32 (readAt image
    (header.partitionEntryLba * sectorSize)
    (header.numPartitionEntries * header.partitionEntrySize))).toNat

/-- The sector of a header, with its checksum. -/
def headerSector (at_ : Places) (usable : Repart.GptHeader) (guid entries : Bytes)
    (sectorSize : ℕ) : Bytes :=
  let fields := fun crc => headerFields crc at_ usable guid (crc32 entries).toNat
  fields (crc32 (fields 0)).toNat ++ List.replicate (sectorSize - gptHeaderSize) 0

theorem buildGptHeader_ok {diskGuid : String} {ps : List GptPartition} {entries guid : Bytes}
    (hentries : entriesData ps = .ok entries) (hguid : encodeGuid diskGuid = .ok guid)
    (disk sectorSize : ℕ) (isBackup : Bool) :
    buildGptHeader diskGuid ps disk sectorSize isBackup =
      .ok (headerSector (places disk sectorSize isBackup)
        (Repart.buildGptHeader ps sectorSize disk) guid entries sectorSize ++ entries) := by
  rw [buildGptHeader, hentries, hguid]
  rfl

theorem length_headerSector {entries : Bytes} {sectorSize : ℕ} (hguid : guid.length = 16)
    (hsize : 512 ≤ sectorSize) :
    (headerSector at_ usable guid entries sectorSize).length = sectorSize := by
  rw [headerSector, List.length_append, length_headerFields hguid, List.length_replicate,
    gptHeaderSize]
  omega

/-- A copy of the table is read back as it was written. -/
theorem parseGptHeader_headerSector (at_ : Places) {image entries : Bytes} {sectorSize : ℕ}
    (hguid : guid.length = 16) (hsize : 512 ≤ sectorSize) (hmy : at_.myLba < 2 ^ 64)
    (halternate : at_.alternateLba < 2 ^ 64) (hentry : at_.partitionEntryLba < 2 ^ 64)
    (hsector : readAt image (at_.myLba * sectorSize) sectorSize =
      headerSector at_ usable guid entries sectorSize)
    (hlen : entries.length = maxGptEntries * gptEntrySize)
    (hentries : readAt image (at_.partitionEntryLba * sectorSize) entries.length = entries) :
    ∃ header, parseGptHeader (readAt image (at_.myLba * sectorSize) sectorSize) = some header ∧
      header.myLba = at_.myLba ∧ header.alternateLba = at_.alternateLba ∧
      header.diskGuid = parseGuid guid ∧ header.partitionEntryLba = at_.partitionEntryLba ∧
      header.numPartitionEntries = maxGptEntries ∧ header.partitionEntrySize = gptEntrySize ∧
      header.partitionEntriesCrc32 = (crc32 entries).toNat ∧
      ChecksumsMatch image sectorSize header := by
  obtain ⟨header, hparse, hheaderSize, hcrc, hmyLba, halternateLba, hdiskGuid, hentryLba, hcount,
    hentrySize, hentriesCrc⟩ := @parseGptHeader_headerFields _ usable _ _ _ hguid
      (UInt32.toNat_lt _) (UInt32.toNat_lt (crc32 entries)) hmy halternate hentry
      (List.replicate (sectorSize - gptHeaderSize) 0)
  refine ⟨header, ?_, hmyLba, halternateLba, hdiskGuid, hentryLba, hcount, hentrySize, hentriesCrc,
    ?_, ?_⟩
  · rw [hsector]
    exact hparse
  · have hfields : readAt image (at_.myLba * sectorSize) gptHeaderSize =
        (headerSector at_ usable guid entries sectorSize).take gptHeaderSize := by
      rw [← hsector, readAt, readAt, List.take_take, Nat.min_eq_left]
      rw [gptHeaderSize]
      omega
    rw [hcrc, hmyLba, hheaderSize, hfields, headerSector,
      List.take_left' (length_headerFields hguid), writeAt_headerFields]
  · rw [hentriesCrc, hentryLba, hcount, hentrySize, ← hlen, hentries]

/-! ## The disk -/

/-- The places of the two copies do not overlap. -/
theorem places_bytes {sectorSize disk : ℕ} (hsize : 512 ≤ sectorSize)
    (hdisk : minimalSectors sectorSize ≤ disk) :
    2 * sectorSize + maxGptEntries * gptEntrySize ≤
        (disk - 1 - entriesSectors sectorSize) * sectorSize ∧
      (disk - 1 - entriesSectors sectorSize) * sectorSize + maxGptEntries * gptEntrySize ≤
        (disk - 1) * sectorSize := by
  have hentries : maxGptEntries * gptEntrySize ≤ entriesSectors sectorSize * sectorSize := by
    rw [entriesSectors, divCeil]
    have hdiv := Nat.div_add_mod (maxGptEntries * gptEntrySize + sectorSize - 1) sectorSize
    have hmod := Nat.mod_lt (maxGptEntries * gptEntrySize + sectorSize - 1)
      (show 0 < sectorSize by omega)
    rw [Nat.mul_comm] at hdiv
    omega
  rw [minimalSectors] at hdisk
  have hfront : (2 + entriesSectors sectorSize) * sectorSize ≤
      (disk - 1 - entriesSectors sectorSize) * sectorSize :=
    Nat.mul_le_mul_right _ (by omega)
  have hback : (disk - 1 - entriesSectors sectorSize + entriesSectors sectorSize) * sectorSize ≤
      (disk - 1) * sectorSize :=
    Nat.mul_le_mul_right _ (by omega)
  rw [Nat.add_mul] at hfront hback
  omega

/-- The disk after a write: the sector of zeros and the two copies. -/
def written (image mbr primary backup entries : Bytes) (sectorSize disk : ℕ) : Bytes :=
  writeAt (writeAt (writeAt (writeAt (writeAt image 0 mbr) sectorSize primary) (2 * sectorSize)
    entries) ((disk - 1 - entriesSectors sectorSize) * sectorSize) entries)
    ((disk - 1) * sectorSize) backup

section

variable (image mbr : Bytes) {primary backup entries : Bytes} {sectorSize disk : ℕ}

theorem length_written (primary backup entries : Bytes) (sectorSize disk : ℕ) :
    2 * sectorSize + entries.length ≤
      (written image mbr primary backup entries sectorSize disk).length := by
  simp only [written, length_writeAt]
  omega

/-- The primary copy is not touched by what is written behind it. -/
theorem readAt_written_primary (backup : Bytes)
    (hlen : entries.length = maxGptEntries * gptEntrySize)
    (hprimary : primary.length = sectorSize) (hsize : 512 ≤ sectorSize)
    (hdisk : minimalSectors sectorSize ≤ disk) :
    readAt (written image mbr primary backup entries sectorSize disk) sectorSize sectorSize =
        primary ∧
      readAt (written image mbr primary backup entries sectorSize disk) (2 * sectorSize)
        entries.length = entries := by
  obtain ⟨hfront, hback⟩ := places_bytes hsize hdisk
  rw [← hlen] at hfront hback
  constructor
  · have hself := readAt_writeAt_self (writeAt image 0 mbr) sectorSize primary
    rw [hprimary] at hself
    rw [written, readAt_writeAt_of_before (by omega) (by simp only [length_writeAt]; omega),
      readAt_writeAt_of_before (by omega) (by simp only [length_writeAt]; omega),
      readAt_writeAt_of_before (by omega) (by simp only [length_writeAt]; omega), hself]
  · rw [written, readAt_writeAt_of_before (by omega) (by simp only [length_writeAt]; omega),
      readAt_writeAt_of_before (by omega) (by simp only [length_writeAt]; omega)]
    exact readAt_writeAt_self _ _ _

theorem readAt_written_backup (primary : Bytes)
    (hlen : entries.length = maxGptEntries * gptEntrySize)
    (hbackup : backup.length = sectorSize) (hsize : 512 ≤ sectorSize)
    (hdisk : minimalSectors sectorSize ≤ disk) :
    readAt (written image mbr primary backup entries sectorSize disk) ((disk - 1) * sectorSize)
        sectorSize = backup ∧
      readAt (written image mbr primary backup entries sectorSize disk)
        ((disk - 1 - entriesSectors sectorSize) * sectorSize) entries.length = entries := by
  obtain ⟨hfront, hback⟩ := places_bytes hsize hdisk
  rw [← hlen] at hfront hback
  constructor
  · have hself := readAt_writeAt_self (writeAt (writeAt (writeAt (writeAt image 0 mbr) sectorSize
      primary) (2 * sectorSize) entries) ((disk - 1 - entriesSectors sectorSize) * sectorSize)
      entries) ((disk - 1) * sectorSize) backup
    rwa [hbackup] at hself
  · rw [written, readAt_writeAt_of_before (by omega) (by simp only [length_writeAt]; omega)]
    exact readAt_writeAt_self _ _ _

end

theorem writeGpt_ok {image : Bytes} {diskGuid : String} {ps : List GptPartition}
    {entries guid : Bytes} {diskSize sectorSize : ℕ} (hentries : entriesData ps = .ok entries)
    (hguid : encodeGuid diskGuid = .ok guid) (hguidLen : guid.length = 16)
    (hsize : 512 ≤ sectorSize) :
    writeGpt image diskGuid ps diskSize sectorSize = .ok (written image
      (protectiveMbr (diskSize / sectorSize) sectorSize)
      (headerSector (places (diskSize / sectorSize) sectorSize false)
        (Repart.buildGptHeader ps sectorSize (diskSize / sectorSize)) guid entries sectorSize)
      (headerSector (places (diskSize / sectorSize) sectorSize true)
        (Repart.buildGptHeader ps sectorSize (diskSize / sectorSize)) guid entries sectorSize)
      entries sectorSize (diskSize / sectorSize)) := by
  rw [writeGpt]
  simp only [buildGptHeader_ok hentries hguid, ok_bind,
    List.take_left' (length_headerSector hguidLen hsize),
    List.drop_left' (length_headerSector hguidLen hsize)]
  rfl

/-- A table is read back as it was written: the GUID of the disk, and the partitions in the order
    of their slots, their GUIDs in lower case. The two headers name each other, and the checksums
    of both are those of what is on the disk. -/
theorem writeGpt_readGpt (image : Bytes) {diskGuid : String} {ps : List GptPartition}
    (sectorSize : SectorSize) {diskSize : ℕ} (hguid : CanonicalGuid diskGuid)
    (hps : ∀ p ∈ ps, Writable p) (hslots : DistinctSlots ps) (hsize : diskSize < 2 ^ 64)
    (hdisk : minimalSectors sectorSize.bytes ≤ diskSize / sectorSize.bytes) :
    ∃ image', writeGpt image diskGuid ps diskSize sectorSize.bytes = .ok image' ∧
      ∃ primary backup, readGptHeader image' sectorSize.bytes = some primary ∧
        parseGptHeader (readAt image' (primary.alternateLba * sectorSize.bytes)
          sectorSize.bytes) = some backup ∧
        primary.diskGuid = lowerGuid diskGuid ∧ backup.diskGuid = lowerGuid diskGuid ∧
        ((readGptPartitions image' primary sectorSize.bytes).Pairwise
            (fun p q => p.slotIndex < q.slotIndex) ∧
          ∀ q, q ∈ readGptPartitions image' primary sectorSize.bytes ↔ q ∈ ps.map lowered) ∧
        primary.myLba = 1 ∧ primary.alternateLba = diskSize / sectorSize.bytes - 1 ∧
        backup.myLba = primary.alternateLba ∧ backup.alternateLba = primary.myLba ∧
        primary.partitionEntriesCrc32 = backup.partitionEntriesCrc32 ∧
        ChecksumsMatch image' sectorSize.bytes primary ∧
        ChecksumsMatch image' sectorSize.bytes backup := by
  obtain ⟨entries, hentries, hlen, hdecode⟩ := entriesData_ok hps hslots
  obtain ⟨guid, hencode, hguidLen, htext⟩ := parseGuid_encodeGuid hguid
  have hbytes := sectorSize.le_bytes
  have hlt : diskSize / sectorSize.bytes < 2 ^ 64 := Nat.lt_of_le_of_lt (Nat.div_le_self _ _) hsize
  refine ⟨_, writeGpt_ok hentries hencode hguidLen hbytes, ?_⟩
  generalize diskSize / sectorSize.bytes = disk at *
  generalize husable : Repart.buildGptHeader ps sectorSize.bytes disk = usable
  have hsector : ∀ at_, (headerSector at_ usable guid entries sectorSize.bytes).length =
      sectorSize.bytes := fun at_ => length_headerSector hguidLen hbytes
  have hprimary := readAt_written_primary image (protectiveMbr disk sectorSize.bytes)
    (headerSector (places disk sectorSize.bytes true) usable guid entries sectorSize.bytes) hlen
    (hsector (places disk sectorSize.bytes false)) hbytes hdisk
  have hbackup := readAt_written_backup image (protectiveMbr disk sectorSize.bytes)
    (headerSector (places disk sectorSize.bytes false) usable guid entries sectorSize.bytes) hlen
    (hsector (places disk sectorSize.bytes true)) hbytes hdisk
  have hend := length_written image (protectiveMbr disk sectorSize.bytes)
    (headerSector (places disk sectorSize.bytes false) usable guid entries sectorSize.bytes)
    (headerSector (places disk sectorSize.bytes true) usable guid entries sectorSize.bytes) entries
    sectorSize.bytes disk
  generalize written image (protectiveMbr disk sectorSize.bytes)
    (headerSector (places disk sectorSize.bytes false) usable guid entries sectorSize.bytes)
    (headerSector (places disk sectorSize.bytes true) usable guid entries sectorSize.bytes) entries
    sectorSize.bytes disk = image' at *
  have hone : (places disk sectorSize.bytes false).myLba * sectorSize.bytes = sectorSize.bytes :=
    Nat.one_mul _
  obtain ⟨primary, hparse, hmy, halternate, hdiskGuid, hentryLba, hcount, hentrySize, hcrc,
    hchecksums⟩ := parseGptHeader_headerSector (places disk sectorSize.bytes false) hguidLen hbytes
      (show 1 < 2 ^ 64 by decide) (show disk - 1 < 2 ^ 64 by omega) (show 2 < 2 ^ 64 by decide)
      (by rw [hone]; exact hprimary.1) hlen hprimary.2
  obtain ⟨backup, hparse', hmy', halternate', hdiskGuid', -, -, -, hcrc', hchecksums'⟩ :=
    parseGptHeader_headerSector (places disk sectorSize.bytes true) hguidLen hbytes
      (show disk - 1 < 2 ^ 64 by omega) (show 1 < 2 ^ 64 by decide)
      (show disk - 1 - entriesSectors sectorSize.bytes < 2 ^ 64 by omega) hbackup.1 hlen hbackup.2
  refine ⟨primary, backup, hparse, ?_, hdiskGuid.trans htext, hdiskGuid'.trans htext, ?_, hmy,
    halternate, hmy'.trans halternate.symm, halternate'.trans hmy.symm, hcrc.trans hcrc'.symm,
    hchecksums, hchecksums'⟩
  · rw [halternate]
    exact hparse'
  · have hentry : max gptEntrySize gptEntrySize = gptEntrySize := rfl
    rw [readGptPartitions, hentryLba, hcount, hentrySize, hentry]
    exact readEntries_entriesData hlen hprimary.2 hend hdecode fun p hp => (hps p hp).slot

/-- The root partition of a small disk, with a name outside of ASCII. -/
def smallRoot : GptPartition :=
  { (default : GptPartition) with
    typeGuid := "4F68BCE3-E8CD-4DB1-96E7-FBCAF984B709"
    uniqueGuid := "11223344-5566-7788-99aa-bbccddeeff00"
    firstLba := 2048
    lastLba := 4095
    name := "Wurzel √𝄞"
    slotIndex := 5 }

theorem canonicalGuid_rootType : CanonicalGuid "4F68BCE3-E8CD-4DB1-96E7-FBCAF984B709" :=
  ⟨"4F68BCE3".toList, "E8CD".toList, "4DB1".toList, "96E7".toList, "FBCAF984B709".toList,
    rfl, rfl, rfl, rfl, rfl, rfl, List.all_eq_true.mp (by decide)⟩

theorem canonicalGuid_root : CanonicalGuid "11223344-5566-7788-99aa-bbccddeeff00" :=
  ⟨"11223344".toList, "5566".toList, "7788".toList, "99aa".toList, "bbccddeeff00".toList,
    rfl, rfl, rfl, rfl, rfl, rfl, List.all_eq_true.mp (by decide)⟩

theorem smallRoot_writable : Writable smallRoot where
  type_guid := canonicalGuid_rootType
  type_nonzero := by decide
  unique_guid := canonicalGuid_root
  first_lba := by decide
  last_lba := by decide
  slot := by decide
  name_length := by decide
  name_nul := by simp [smallRoot]

theorem writeGpt_readGpt_smallRoot :
    ∃ image, writeGpt [] "11223344-5566-7788-99AA-BBCCDDEEFF00" [smallRoot] 8388608 512 =
        .ok image ∧
      ∃ primary, readGptHeader image 512 = some primary ∧
        primary.diskGuid = lowerGuid "11223344-5566-7788-99AA-BBCCDDEEFF00" ∧
        ∀ q, q ∈ readGptPartitions image primary 512 ↔ q ∈ [smallRoot].map lowered := by
  have hdisk : CanonicalGuid "11223344-5566-7788-99AA-BBCCDDEEFF00" :=
    ⟨"11223344".toList, "5566".toList, "7788".toList, "99AA".toList, "BBCCDDEEFF00".toList,
      rfl, rfl, rfl, rfl, rfl, rfl, List.all_eq_true.mp (by decide)⟩
  obtain ⟨image, hwrite, primary, -, hread, -, hguid, -, ⟨-, hparts⟩, -⟩ :=
    writeGpt_readGpt [] sector512 hdisk
      (show ∀ p ∈ [smallRoot], Writable p by simp [smallRoot_writable]) (by simp [DistinctSlots])
      (show 8388608 < 2 ^ 64 by decide) (by decide)
  exact ⟨image, hwrite, primary, hread, hguid, hparts⟩

end OxidizedSystemd.Repart.Gpt
