import OxidizedSystemd.Journal.Frame
import OxidizedSystemd.Lib.Faults
import OxidizedSystemd.Lib.Text
import Mathlib.Data.List.Perm.Subperm

/-!
# Reading the journal files of C systemd

Model of `c_journal.rs` (lines 78–436) on 64-bit machine words: every addition and
index of the source is one that may fault, with overflow checks or without. The
libraries that decompress are parameters.

* `readDataObject_safe_iff`, `parseEntry_safe_iff`: when one object is read without a fault.
* `collectEntryOffsets_safe_iff`: when the chain of arrays is.
* `readCJournal_safe_iff`: a file is read without a fault, in finitely many turns,
  exactly if no link and no data object in it leaves the words.
-/

namespace OxidizedSystemd.Journal.CJournal

open OxidizedSystemd.Lib

/-! ## Constants -/

/-- `C_JOURNAL_MAGIC`, the bytes of `LPKSHHRH`. -/
def cJournalMagic : Bytes := [0x4C, 0x50, 0x4B, 0x53, 0x48, 0x48, 0x52, 0x48]

def minHeaderSize : ℕ := 208

def headerIncompatibleCompact : ℕ := 1 <<< 4

def objectData : UInt8 := 1

def objectEntry : UInt8 := 3

def objectEntryArray : UInt8 := 6

def objectCompressedXz : UInt8 := (1 : UInt8) <<< 0

def objectCompressedLz4 : UInt8 := (1 : UInt8) <<< 1

def objectCompressedZstd : UInt8 := (1 : UInt8) <<< 2

def objectCompressionMask : UInt8 :=
  objectCompressedXz ||| objectCompressedLz4 ||| objectCompressedZstd

def objectHeaderSize : ℕ := 16

def entryFixedSize : ℕ := 48

def dataFixedSize : ℕ := 48

def entryArrayFixedSize : ℕ := 8

/-! ## The reader -/

/-- The errors of the reader: `ErrorKind::InvalidData` and `Unsupported` with their texts. -/
inductive ReadError
  | invalidData (msg : String)
  | unsupported (msg : String)
  deriving DecidableEq, Repr

/-- The content of a file: a `Vec<u8>`, which has at most `isize::MAX` bytes. -/
structure Buffer where
  bytes : Bytes
  length_lt : bytes.length < 2 ^ 63

/-- The libraries that decompress: bytes, or the text of an error. LZ4 is told the size of
    what it decompresses to. -/
structure Libraries where
  lz4 : Bytes → ℕ → Except String Bytes
  zstd : Bytes → Except String Bytes
  xz : Bytes → Except String Bytes

structure CJournalHeader where
  incompatibleFlags : ℕ
  entryArrayOffset : ℕ
  deriving DecidableEq, Repr

/-- `CJournalHeader::is_compact`. -/
def CJournalHeader.isCompact (h : CJournalHeader) : Bool :=
  h.incompatibleFlags &&& headerIncompatibleCompact != 0

section Reader

variable (checks : Bool) (libs : Libraries) (data : Bytes)

/-- `parse_header` (lines 78–96). -/
def parseHeader : Faulty (Except ReadError CJournalHeader) :=
  if data.length < minHeaderSize then
    return .error (.invalidData "file too small for C journal header")
  else do
    let magic ← slice data 0 8
    if magic ≠ cJournalMagic then return .error (.invalidData "not a C journal file")
    else
      let incompatibleFlags ← readLe checks data 12 4
      let entryArrayOffset ← readLe checks data 176 8
      return .ok { incompatibleFlags, entryArrayOffset }

/-- `read_object_header` (lines 104–128): type, flags and size. -/
def readObjectHeader (offset : ℕ) : Faulty (Except ReadError (UInt8 × UInt8 × ℕ)) := do
  let stop ← add checks offset objectHeaderSize
  if stop > data.length then
    return .error (.invalidData ("object header at " ++ toString offset ++
      " extends past end of file"))
  else
    let objType ← index data offset
    let flags ← index data (← add checks offset 1)
    let size ← readLe checks data (← add checks offset 8) 8
    if size < objectHeaderSize then
      return .error (.invalidData ("object at " ++ toString offset ++ " claims size " ++
        toString size ++ " below the " ++ toString objectHeaderSize ++ "-byte header"))
    else return .ok (objType, flags, size)

/-- The loop over the items of an array or an entry (lines 168–177, 180–189, 225–236 and
    240–251): items of `width` bytes, every `stride` bytes, up to the end of the data. -/
def forItems {σ : Type} (start stride width : ℕ) (body : σ → ℕ → Faulty σ) :
    ℕ → ℕ → σ → Faulty σ
  | 0, _, s => .ok s
  | count + 1, i, s => do
    let itemOff ← add checks start (← mul checks i stride)
    if (← add checks itemOff width) > data.length then return s
    else
      let offset ← readLe checks data itemOff width
      let s ← if offset ≠ 0 then body s offset else .ok s
      forItems start stride width body count (i + 1) s

/-- At most `fuel` turns of the loop of `collect_entry_offsets` (lines 132–191). -/
def collectLoop (compact : Bool) : ℕ → List ℕ → List ℕ → ℕ → Faulty (List ℕ)
  | 0, _, _, _ => .error .endless
  | fuel + 1, visited, offsets, eaOffset =>
    if eaOffset = 0 then .ok offsets
    else if visited.contains eaOffset then .ok offsets
    else do
      match ← readObjectHeader checks data eaOffset with
      | .error _ => return offsets
      | .ok (objType, _, size) =>
        if objType ≠ objectEntryArray then return offsets
        else
          let base ← add checks eaOffset objectHeaderSize
          let payloadSize ← sub checks size objectHeaderSize
          if (← add checks base entryArrayFixedSize) > data.length then return offsets
          else
            let nextEa ← readLe checks data base 8
            let itemsStart ← add checks base entryArrayFixedSize
            let itemsBytes := payloadSize - entryArrayFixedSize
            let push := fun (offsets : List ℕ) entryOffset => Except.ok (offsets ++ [entryOffset])
            let offsets ←
              if compact then forItems checks data itemsStart 4 4 push (itemsBytes / 4) 0 offsets
              else forItems checks data itemsStart 8 8 push (itemsBytes / 8) 0 offsets
            collectLoop compact fuel (eaOffset :: visited) offsets nextEa

/-- `collect_entry_offsets` (lines 132–191). -/
def collectEntryOffsets (eaOffset : ℕ) (compact : Bool) : Faulty (List ℕ) :=
  collectLoop checks data compact (data.length + 1) [] [] eaOffset

/-- `decompress_data_object` (lines 293–322). -/
def decompressDataObject (flags : UInt8) (compressed : Bytes) :
    Faulty (Except ReadError Bytes) :=
  if flags &&& objectCompressedLz4 ≠ 0 then
    if compressed.length < 8 then
      return .error (.invalidData "LZ4 compressed data too short for size prefix")
    else do
      let uncompressedSize ← readLe checks compressed 0 8
      let lz4Data ← slice compressed 8 compressed.length
      return (libs.lz4 lz4Data uncompressedSize).mapError
        fun e => .invalidData ("LZ4 decompress: " ++ e)
  else if flags &&& objectCompressedZstd ≠ 0 then
    return (libs.zstd compressed).mapError fun e => .invalidData ("zstd decompress: " ++ e)
  else if flags &&& objectCompressedXz ≠ 0 then
    return (libs.xz compressed).mapError fun e => .invalidData ("XZ decompress: " ++ e)
  else return .error (.unsupported "unknown compression type")

/-- The key and the value of a data object (lines 365–376). -/
def splitKeyValue (kvBytes : Bytes) : Except ReadError (String × Bytes) :=
  if kvBytes.contains 0x3D then
    .ok (fromUtf8Lossy (kvBytes.takeWhile (· != 0x3D)), (kvBytes.dropWhile (· != 0x3D)).tail)
  else .error (.invalidData "data object has no KEY=VALUE separator")

/-- `read_data_object` (lines 325–377). -/
def readDataObject (offset : ℕ) : Faulty (Except ReadError (String × Bytes)) := do
  match ← readObjectHeader checks data offset with
  | .error e => return .error e
  | .ok (objType, flags, size) =>
    if objType ≠ objectData then
      return .error (.invalidData ("expected data object at " ++ toString offset ++
        ", got type " ++ toString objType))
    else
      let base ← add checks offset objectHeaderSize
      let payloadSize ← sub checks size objectHeaderSize
      if payloadSize < dataFixedSize then return .error (.invalidData "data object too small")
      else
        let kvStart ← add checks base dataFixedSize
        let kvLen ← sub checks payloadSize dataFixedSize
        if (← add checks kvStart kvLen) > data.length then
          return .error (.invalidData "data payload extends past end of file")
        else
          let compressedBytes ← slice data kvStart (← add checks kvStart kvLen)
          if flags &&& objectCompressionMask ≠ 0 then
            match ← decompressDataObject checks libs flags compressedBytes with
            | .error e => return .error e
            | .ok decompressed => return splitKeyValue decompressed
          else return splitKeyValue compressedBytes

/-- The fields with those of a data object, if it can be read. -/
def insertDataObject (fields : SortedMap String Bytes) (dataOffset : ℕ) :
    Faulty (SortedMap String Bytes) := do
  match ← readDataObject checks libs data dataOffset with
  | .ok (k, v) => return fields.insert k v
  | .error _ => return fields

/-- The boot id in hex (lines 256–274). -/
def bootIdHex (bootId : Bytes) : String :=
  String.ofList (bootId.flatMap fun b => hexPad 2 b.toNat)

/-- `parse_entry` (lines 197–290). -/
def parseEntry (offset : ℕ) (compact : Bool) : Faulty (Except ReadError JournalEntry) := do
  match ← readObjectHeader checks data offset with
  | .error e => return .error e
  | .ok (objType, _, size) =>
    if objType ≠ objectEntry then
      return .error (.invalidData ("expected entry object at " ++ toString offset ++
        ", got type " ++ toString objType))
    else
      let base ← add checks offset objectHeaderSize
      let payloadSize ← sub checks size objectHeaderSize
      if (← add checks base entryFixedSize) > data.length then
        return .error (.invalidData "entry object truncated")
      else
        let seqnum ← readLe checks data base 8
        let realtime ← readLe checks data (← add checks base 8) 8
        let monotonic ← readLe checks data (← add checks base 16) 8
        let bootId ← slice data (← add checks base 24) (← add checks base 40)
        let itemsStart ← add checks base entryFixedSize
        let itemsBytes := payloadSize - entryFixedSize
        let body := insertDataObject checks libs data
        let fields ←
          if compact then
            forItems checks data itemsStart 4 4 body (itemsBytes / 4) 0 SortedMap.empty
          else forItems checks data itemsStart 16 8 body (itemsBytes / 16) 0 SortedMap.empty
        let fields := match fields.get? "_BOOT_ID" with
          | some _ => fields
          | none => fields.insert "_BOOT_ID" (asBytes (bootIdHex bootId))
        return .ok
          { fields
            realtimeUsec := UInt64.ofNat realtime
            monotonicUsec := UInt64.ofNat monotonic
            seqnum := UInt64.ofNat seqnum }

/-- The loop of `read_c_journal` over the offsets of the entries (lines 408–433). -/
def parseEntries (compact : Bool) :
    List ℕ → List JournalEntry → List ℕ → Faulty (List JournalEntry)
  | _, entries, [] => .ok entries
  | seenOffsets, entries, offset :: entryOffsets =>
    if seenOffsets.contains offset then parseEntries compact seenOffsets entries entryOffsets
    else do
      match ← parseEntry checks libs data offset compact with
      | .ok entry => parseEntries compact (offset :: seenOffsets) (entries ++ [entry]) entryOffsets
      | .error _ => parseEntries compact (offset :: seenOffsets) entries entryOffsets

/-- `read_c_journal` on the content of the file (lines 395–436). -/
def readCJournal : Faulty (Except ReadError (List JournalEntry)) := do
  match ← parseHeader checks data with
  | .error e => return .error e
  | .ok header =>
    if header.entryArrayOffset = 0 then return .ok []
    else
      let entryOffsets ←
        collectEntryOffsets checks data header.entryArrayOffset header.isCompact
      let entries ← parseEntries checks libs data header.isCompact [] [] entryOffsets
      return .ok entries

end Reader

/-! ## What is in a file -/

section Layout

variable (data : Bytes)

/-- An object whose header lies in the file and claims no less than its own size. -/
structure IsObject (offset : ℕ) (objType : UInt8) (size : ℕ) : Prop where
  header_le : offset + 16 ≤ data.length
  objType_eq : data[offset]? = some objType
  size_eq : leAt data (offset + 8) 8 = size
  le_size : 16 ≤ size

/-- An array of entries whose link to the next one lies in the file. -/
structure IsArray (offset size : ℕ) : Prop where
  isObject : IsObject data offset objectEntryArray size
  link_le : offset + 24 ≤ data.length

/-- The arrays on the chain that starts at `offset`. -/
inductive Chain : ℕ → ℕ → Prop
  | here {offset : ℕ} (hne : offset ≠ 0) : Chain offset offset
  | next {offset size array : ℕ} (hne : offset ≠ 0) (harray : IsArray data offset size)
      (h : Chain (leAt data (offset + 16) 8) array) : Chain offset array

/-- A link among the `count` items at `start` that lie in the file. -/
def Item (start stride width count link : ℕ) : Prop :=
  link ≠ 0 ∧ ∃ i < count, start + i * stride + width ≤ data.length ∧
    link = leAt data (start + i * stride) width

/-- A link of an array to an entry. -/
def ArrayItem (compact : Bool) (offset entry : ℕ) : Prop :=
  ∃ size, IsArray data offset size ∧
    if compact then Item data (offset + 24) 4 4 ((size - 24) / 4) entry
    else Item data (offset + 24) 8 8 ((size - 24) / 8) entry

/-- A link of an entry to a data object. -/
def EntryItem (compact : Bool) (offset dataOffset : ℕ) : Prop :=
  ∃ size, IsObject data offset objectEntry size ∧ offset + 64 ≤ data.length ∧
    if compact then Item data (offset + 64) 4 4 ((size - 64) / 4) dataOffset
    else Item data (offset + 64) 16 8 ((size - 64) / 16) dataOffset

/-- The end of an object header at `offset` is a word. -/
def InWords (offset : ℕ) : Prop := offset + 16 < 2 ^ 64

/-- So is the end of the data object at `offset`, if there is one. -/
def DataInWords (offset : ℕ) : Prop :=
  InWords offset ∧ ∀ size, IsObject data offset objectData size → 64 ≤ size →
    offset + size < 2 ^ 64

/-- And the ends of the data objects of the entry at `offset`. -/
def EntryInWords (compact : Bool) (offset : ℕ) : Prop :=
  InWords offset ∧ ∀ dataOffset, EntryItem data compact offset dataOffset →
    DataInWords data dataOffset

/-- The links of all arrays on the chain stay in the words. -/
def ChainInWords (compact : Bool) (offset : ℕ) : Prop :=
  ∀ array, Chain data offset array → InWords array ∧
    ∀ entry, ArrayItem data compact array entry → EntryInWords data compact entry

/-- The header of a file. -/
structure IsHeader (header : CJournalHeader) : Prop where
  length_le : 208 ≤ data.length
  magic : data.take 8 = cJournalMagic
  incompatibleFlags : header.incompatibleFlags = leAt data 12 4
  entryArrayOffset : header.entryArrayOffset = leAt data 176 8

/-- No link and no data object of the file leaves the words. -/
def LinksInWords : Prop :=
  ∀ header, IsHeader data header → ChainInWords data header.isCompact header.entryArrayOffset

end Layout

variable {checks : Bool} {libs : Libraries} {data : Bytes} {offset : ℕ}

theorem IsObject.unique {t t' : UInt8} {size size' : ℕ} (h : IsObject data offset t size)
    (h' : IsObject data offset t' size') : t = t' ∧ size = size' :=
  ⟨Option.some.inj (h.objType_eq.symm.trans h'.objType_eq), h.size_eq.symm.trans h'.size_eq⟩

/-! ## Objects -/

/-- Near the end of the words the check of the header overflows. Without overflow checks it
    passes, and the index behind it is outside the file. -/
theorem not_safe_readObjectHeader (hlen : data.length < 2 ^ 63) (hheader : 16 ≤ data.length)
    (hword : offset < 2 ^ 64) (h : ¬ InWords offset) :
    ¬ Safe (readObjectHeader checks data offset) := by
  have hover : 2 ^ 64 ≤ offset + objectHeaderSize := Nat.not_lt.mp h
  rw [readObjectHeader]
  refine not_safe_add hword (by decide) hover ?_
  have hle : ¬ offset + objectHeaderSize - 2 ^ 64 > data.length := by
    rw [objectHeaderSize] at hover ⊢
    omega
  rw [if_neg hle]
  exact not_safe_bind _ (not_safe_index (by rw [objectHeaderSize] at hover; omega))

theorem readObjectHeader_cases (checks : Bool) (hlen : data.length < 2 ^ 63) (h : InWords offset) :
    (∃ t flags size, IsObject data offset t size ∧
      readObjectHeader checks data offset = .ok (.ok (t, flags, size))) ∨
    (∃ e, (∀ t size, ¬ IsObject data offset t size) ∧
      readObjectHeader checks data offset = .ok (.error e)) := by
  rw [readObjectHeader, add_ok (b := objectHeaderSize) h]
  simp only [ok_bind]
  by_cases hend : offset + objectHeaderSize > data.length
  · rw [if_pos hend]
    exact .inr ⟨_, fun t size hobject => Nat.not_le.mpr hend hobject.header_le, rfl⟩
  · have hend' : offset + 16 ≤ data.length := Nat.not_lt.mp hend
    rw [if_neg hend, index_ok (by omega), add_ok (by omega), add_ok (by omega)]
    simp only [ok_bind]
    rw [index_ok (by omega), readLe_ok (by omega) hlen]
    simp only [ok_bind]
    split
    · rename_i hsize
      refine .inr ⟨_, fun t size hobject => ?_, rfl⟩
      exact absurd hobject.le_size (Nat.not_le.mpr (hobject.size_eq ▸ hsize))
    · rename_i hsize
      refine .inl ⟨data[offset], _, _, ⟨hend', ?_, rfl, Nat.not_lt.mp hsize⟩, rfl⟩
      exact List.getElem?_eq_getElem (by omega)

/-- Decompression faults nowhere of its own. -/
theorem safe_decompressDataObject (checks : Bool) (libs : Libraries) {compressed : Bytes}
    (hlen : compressed.length < 2 ^ 63) (flags : UInt8) :
    Safe (decompressDataObject checks libs flags compressed) := by
  rw [decompressDataObject]
  split
  · split
    · exact safe_pure _
    · rename_i hshort
      rw [readLe_ok (by omega) hlen]
      simp only [ok_bind]
      rw [slice_ok (by omega) (Nat.le_refl _)]
      exact safe_pure _
  · split
    · exact safe_pure _
    · split <;> exact safe_pure _

/-- The payload of a data object, once its bytes are at hand. -/
theorem safe_payload {payload : Bytes} (hlen : payload.length < 2 ^ 63) (flags : UInt8) :
    Safe (do
      if flags &&& objectCompressionMask ≠ 0 then
        match ← decompressDataObject checks libs flags payload with
        | .error e => return .error e
        | .ok decompressed => return splitKeyValue decompressed
      else return splitKeyValue payload : Faulty (Except ReadError (String × Bytes))) := by
  split
  · obtain ⟨r, hr⟩ := safe_decompressDataObject checks libs hlen flags
    rw [hr]
    cases r with
    | error e => exact safe_pure _
    | ok decompressed => exact safe_pure _
  · exact safe_pure _

theorem readDataObject_safe_iff (checks : Bool) (libs : Libraries)
    (hlen : data.length < 2 ^ 63) (hheader : 16 ≤ data.length) (hword : offset < 2 ^ 64) :
    Safe (readDataObject checks libs data offset) ↔ DataInWords data offset := by
  by_cases hin : InWords offset
  swap
  · rw [readDataObject]
    exact iff_of_false (not_safe_bind _ (not_safe_readObjectHeader hlen hheader hword hin))
      fun h => hin h.1
  obtain ⟨t, flags, size, hobject, hread⟩ | ⟨e, hnone, hread⟩ :=
    readObjectHeader_cases checks hlen hin
  swap
  · rw [readDataObject, hread]
    exact iff_of_true (safe_pure _) ⟨hin, fun size hobject => absurd hobject (hnone _ size)⟩
  have hle := hobject.header_le
  have hsize := hobject.le_size
  have hlt : size < 2 ^ 64 := hobject.size_eq ▸ leAt_lt data (offset + 8) 8
  have hheaderSize : objectHeaderSize = 16 := rfl
  have hfixedSize : dataFixedSize = 48 := rfl
  rw [readDataObject, hread]
  simp only [ok_bind]
  by_cases ht : t = objectData
  swap
  · rw [if_pos ht]
    exact iff_of_true (safe_pure _) ⟨hin, fun size' h' => absurd (hobject.unique h').1 ht⟩
  subst ht
  rw [if_neg (not_not_intro rfl), add_ok (b := objectHeaderSize) hin,
    sub_ok (b := objectHeaderSize) hsize]
  simp only [ok_bind]
  by_cases hsmall : size - objectHeaderSize < dataFixedSize
  · rw [if_pos hsmall]
    refine iff_of_true (safe_pure _) ⟨hin, fun size' h' hge => ?_⟩
    have := (hobject.unique h').2
    omega
  rw [if_neg hsmall, add_ok (by omega), sub_ok (by omega)]
  simp only [ok_bind]
  have hend : offset + objectHeaderSize + dataFixedSize +
      (size - objectHeaderSize - dataFixedSize) = offset + size := by omega
  have hdata : DataInWords data offset ↔ offset + size < 2 ^ 64 := by
    constructor
    · exact fun h => h.2 size hobject (by omega)
    · exact fun h => ⟨hin, fun size' h' _ => (hobject.unique h').2 ▸ h⟩
  rw [hdata]
  by_cases hover : offset + size < 2 ^ 64
  · rw [add_ok (by omega), hend]
    simp only [ok_bind]
    refine iff_of_true ?_ hover
    split
    · exact safe_pure _
    · rename_i hfit
      rw [slice_ok (by omega) (by omega)]
      exact safe_payload (by simp; omega) flags
  · -- The sum wraps to less than `offset`, so the slice ends in front of its start.
    refine iff_of_false (not_safe_add (by omega) (by omega) (by omega) ?_) hover
    rw [if_neg (by omega)]
    refine not_safe_add (by omega) (by omega) (by omega) ?_
    exact not_safe_bind _ (not_safe_slice (by omega))

/-! ## Items -/

/-- The links that the loop over the items meets. -/
def links (data : Bytes) (start stride width : ℕ) : ℕ → ℕ → List ℕ
  | 0, _ => []
  | count + 1, i =>
    if start + i * stride + width > data.length then []
    else
      (if leAt data (start + i * stride) width ≠ 0 then [leAt data (start + i * stride) width]
        else []) ++ links data start stride width count (i + 1)

variable {start stride width count i : ℕ}

/-- The loop is a fold over the links, and its own additions stay in the words: an item past the
    end of the file is the last one that is looked at. -/
theorem forItems_eq {σ : Type} {body : σ → ℕ → Faulty σ} (hlen : data.length < 2 ^ 63)
    (hstride : stride ≤ 16) (hwidth : width ≤ 8) (hcount : (i + count) * stride < 2 ^ 64)
    (hstart : start + i * stride ≤ data.length + stride) (s : σ) :
    forItems checks data start stride width body count i s =
      (links data start stride width count i).foldlM body s := by
  induction count generalizing i s with
  | zero => rfl
  | succ count ih =>
    have hmul : i * stride < 2 ^ 64 :=
      Nat.lt_of_le_of_lt (Nat.mul_le_mul_right stride (Nat.le_add_right i _)) hcount
    rw [forItems, links, mul_ok hmul]
    simp only [ok_bind]
    rw [add_ok (by omega)]
    simp only [ok_bind]
    rw [add_ok (by omega)]
    simp only [ok_bind]
    by_cases hend : start + i * stride + width > data.length
    · rw [if_pos hend, if_pos hend]
      rfl
    · have hnext : start + (i + 1) * stride ≤ data.length + stride := by
        rw [Nat.add_mul, Nat.one_mul]
        omega
      have hcount' : (i + 1 + count) * stride < 2 ^ 64 := by
        rwa [show i + 1 + count = i + (count + 1) by omega]
      rw [if_neg hend, if_neg hend, readLe_ok (by omega) hlen]
      simp only [ok_bind]
      split
      · rw [List.singleton_append, List.foldlM_cons]
        simp only [ih hcount' hnext]
      · rw [List.nil_append]
        exact ih hcount' hnext s

theorem mem_links {link : ℕ} : link ∈ links data start stride width count i ↔
    link ≠ 0 ∧ ∃ j, i ≤ j ∧ j < i + count ∧ start + j * stride + width ≤ data.length ∧
      link = leAt data (start + j * stride) width := by
  induction count generalizing i with
  | zero =>
    rw [links]
    refine iff_of_false List.not_mem_nil ?_
    rintro ⟨-, j, hj, hj', -⟩
    omega
  | succ count ih =>
    rw [links]
    split
    · rename_i hend
      refine iff_of_false List.not_mem_nil ?_
      rintro ⟨-, j, hj, -, hfit, -⟩
      have := Nat.mul_le_mul_right stride hj
      omega
    · rename_i hfit
      have hhere : (link ∈ if leAt data (start + i * stride) width ≠ 0 then
          [leAt data (start + i * stride) width] else []) ↔
          link ≠ 0 ∧ link = leAt data (start + i * stride) width := by
        split
        · rename_i hne
          rw [List.mem_singleton]
          exact ⟨fun h => ⟨h ▸ hne, h⟩, fun h => h.2⟩
        · rename_i hzero
          refine iff_of_false List.not_mem_nil ?_
          rintro ⟨hne, rfl⟩
          exact hzero hne
      rw [List.mem_append, hhere, ih]
      constructor
      · rintro (⟨hne, rfl⟩ | ⟨hne, j, hj, hj', hrest⟩)
        · exact ⟨hne, i, Nat.le_refl i, by omega, Nat.not_lt.mp hfit, rfl⟩
        · exact ⟨hne, j, by omega, by omega, hrest⟩
      · rintro ⟨hne, j, hj, hj', hrest, heq⟩
        rcases Nat.eq_or_lt_of_le hj with rfl | hlt
        · exact Or.inl ⟨hne, heq⟩
        · exact Or.inr ⟨hne, j, hlt, by omega, hrest, heq⟩

theorem mem_links_iff_item {link : ℕ} :
    link ∈ links data start stride width count 0 ↔ Item data start stride width count link := by
  rw [mem_links, Item]
  simp

theorem item_lt {link : ℕ} (hwidth : width ≤ 8) (h : Item data start stride width count link) :
    link < 2 ^ 64 := by
  obtain ⟨-, i, -, -, rfl⟩ := h
  exact Nat.lt_of_lt_of_le (leAt_lt _ _ _) (Nat.pow_le_pow_right (by decide) hwidth)

/-! ## Entries -/

theorem insertDataObject_safe_iff (hlen : data.length < 2 ^ 63) (hheader : 16 ≤ data.length)
    (hword : offset < 2 ^ 64) (fields : SortedMap String Bytes) :
    Safe (insertDataObject checks libs data fields offset) ↔ DataInWords data offset := by
  rw [← readDataObject_safe_iff checks libs hlen hheader hword,
    insertDataObject, safe_bind]
  constructor
  · rintro ⟨r, hr, -⟩
    exact ⟨r, hr⟩
  · rintro ⟨r, hr⟩
    refine ⟨r, hr, ?_⟩
    cases r with
    | error e => exact safe_pure _
    | ok kv => exact safe_pure _

/-- The loop over the items of an entry. -/
theorem forItems_insertDataObject_safe_iff (hlen : data.length < 2 ^ 63)
    (hheader : 16 ≤ data.length) (hstride : stride ≤ 16) (hwidth : width ≤ 8)
    (hcount : count * stride < 2 ^ 64) (hstart : start ≤ data.length) :
    Safe (forItems checks data start stride width (insertDataObject checks libs data) count 0
      SortedMap.empty) ↔
      ∀ link, Item data start stride width count link → DataInWords data link := by
  have hbody : ∀ link ∈ links data start stride width count 0, ∀ fields,
      Safe (insertDataObject checks libs data fields link) ↔ DataInWords data link :=
    fun link hlink => insertDataObject_safe_iff hlen hheader
      (item_lt hwidth (mem_links_iff_item.mp hlink))
  rw [forItems_eq hlen hstride hwidth (by rwa [Nat.zero_add]) (by omega), safe_foldlM hbody]
  simp only [mem_links_iff_item]

/-- What follows the items of an entry is safe. -/
theorem safe_entry_fields {k : SortedMap String Bytes → JournalEntry}
    {r : Faulty (SortedMap String Bytes)} :
    Safe (do
      let fields ← r
      return .ok (k fields) : Faulty (Except ReadError JournalEntry)) ↔ Safe r := by
  rw [safe_bind]
  constructor
  · rintro ⟨fields, hr, -⟩
    exact ⟨fields, hr⟩
  · rintro ⟨fields, hr⟩
    exact ⟨fields, hr, safe_pure _⟩

theorem parseEntry_safe_iff (checks : Bool) (libs : Libraries) (hlen : data.length < 2 ^ 63)
    (hheader : 16 ≤ data.length) (hword : offset < 2 ^ 64) (compact : Bool) :
    Safe (parseEntry checks libs data offset compact) ↔ EntryInWords data compact offset := by
  by_cases hin : InWords offset
  swap
  · rw [parseEntry]
    exact iff_of_false (not_safe_bind _ (not_safe_readObjectHeader hlen hheader hword hin))
      fun h => hin h.1
  obtain ⟨t, flags, size, hobject, hread⟩ | ⟨e, hnone, hread⟩ :=
    readObjectHeader_cases checks hlen hin
  swap
  · rw [parseEntry, hread]
    refine iff_of_true (safe_pure _) ⟨hin, fun link hlink => ?_⟩
    obtain ⟨size, hobject, -⟩ := hlink
    exact absurd hobject (hnone _ size)
  have hle := hobject.header_le
  have hsize := hobject.le_size
  have hlt : size < 2 ^ 64 := hobject.size_eq ▸ leAt_lt data (offset + 8) 8
  have hheaderSize : objectHeaderSize = 16 := rfl
  have hfixedSize : entryFixedSize = 48 := rfl
  rw [parseEntry, hread]
  simp only [ok_bind]
  by_cases ht : t = objectEntry
  swap
  · rw [if_pos ht]
    refine iff_of_true (safe_pure _) ⟨hin, fun link hlink => ?_⟩
    obtain ⟨size', h', -⟩ := hlink
    exact absurd (hobject.unique h').1 ht
  subst ht
  rw [if_neg (not_not_intro rfl), add_ok (b := objectHeaderSize) hin,
    sub_ok (b := objectHeaderSize) hsize]
  simp only [ok_bind]
  rw [add_ok (by omega)]
  simp only [ok_bind]
  by_cases hend : offset + objectHeaderSize + entryFixedSize > data.length
  · rw [if_pos hend]
    refine iff_of_true (safe_pure _) ⟨hin, fun link hlink => ?_⟩
    obtain ⟨_, -, hle', -⟩ := hlink
    omega
  have hitem : ∀ stride width, (∀ link,
      (if compact then Item data (offset + 64) 4 4 ((size - 64) / 4) link
        else Item data (offset + 64) 16 8 ((size - 64) / 16) link) ↔
        Item data (offset + 64) stride width ((size - 64) / stride) link) →
      ((∀ link, Item data (offset + objectHeaderSize + entryFixedSize) stride width
        ((size - objectHeaderSize - entryFixedSize) / stride) link → DataInWords data link) ↔
        EntryInWords data compact offset) := fun stride width hform => by
    have hstart : offset + objectHeaderSize + entryFixedSize = offset + 64 := by omega
    have hbytes : size - objectHeaderSize - entryFixedSize = size - 64 := by omega
    rw [hstart, hbytes]
    constructor
    · intro h
      refine ⟨hin, fun link hlink => h link ((hform link).mp ?_)⟩
      obtain ⟨size', h', -, hitem⟩ := hlink
      rwa [← (hobject.unique h').2] at hitem
    · intro h link hlink
      exact h.2 link ⟨size, hobject, by omega, (hform link).mpr hlink⟩
  have hcount : ∀ stride, (size - objectHeaderSize - entryFixedSize) / stride * stride < 2 ^ 64 :=
    fun stride => Nat.lt_of_le_of_lt (Nat.div_mul_le_self _ stride) (by omega)
  rw [if_neg hend]
  simp (disch := omega) only [ok_bind, readLe_ok, add_ok, slice_ok]
  cases compact with
  | true =>
    rw [if_pos rfl, safe_entry_fields]
    exact (forItems_insertDataObject_safe_iff hlen hheader (by decide) (by decide) (hcount 4)
      (by omega)).trans (hitem 4 4 fun link => by simp)
  | false =>
    rw [if_neg Bool.false_ne_true, safe_entry_fields]
    exact (forItems_insertDataObject_safe_iff hlen hheader (by decide) (by decide) (hcount 16)
      (by omega)).trans (hitem 16 8 fun link => by simp)

/-! ## The chain of arrays -/

variable {compact : Bool} {size fuel : ℕ} {visited offsets : List ℕ}

theorem not_chain_zero (array : ℕ) : ¬ Chain data 0 array := by
  intro h
  cases h with
  | here hne => exact hne rfl
  | next hne _ _ => exact hne rfl

/-- The links of an array, as the reader meets them. -/
def arrayLinks (data : Bytes) (compact : Bool) (offset size : ℕ) : List ℕ :=
  if compact then links data (offset + 24) 4 4 ((size - 24) / 4) 0
  else links data (offset + 24) 8 8 ((size - 24) / 8) 0

theorem mem_arrayLinks (h : IsArray data offset size) {entry : ℕ} :
    entry ∈ arrayLinks data compact offset size ↔ ArrayItem data compact offset entry := by
  have hiff : entry ∈ arrayLinks data compact offset size ↔
      if compact then Item data (offset + 24) 4 4 ((size - 24) / 4) entry
      else Item data (offset + 24) 8 8 ((size - 24) / 8) entry := by
    rw [arrayLinks]
    split <;> exact mem_links_iff_item
  rw [hiff, ArrayItem]
  constructor
  · exact fun hitem => ⟨size, h, hitem⟩
  · rintro ⟨size', h', hitem⟩
    rwa [(h.isObject.unique h'.isObject).2]

theorem foldlM_push (as offsets : List ℕ) :
    as.foldlM (fun (offsets : List ℕ) entryOffset =>
      (Except.ok (offsets ++ [entryOffset]) : Faulty (List ℕ))) offsets = .ok (offsets ++ as) := by
  induction as generalizing offsets with
  | nil => rw [List.append_nil]; rfl
  | cons a as ih =>
    rw [List.foldlM_cons, ok_bind, ih, List.append_assoc, List.singleton_append]

/-- A turn at an array takes its links and goes on at the next one. -/
theorem collectLoop_of_isArray (hlen : data.length < 2 ^ 63) (hne : offset ≠ 0)
    (hnew : offset ∉ visited) (h : IsArray data offset size) :
    collectLoop checks data compact (fuel + 1) visited offsets offset =
      collectLoop checks data compact fuel (offset :: visited)
        (offsets ++ arrayLinks data compact offset size) (leAt data (offset + 16) 8) := by
  have hlink := h.link_le
  have hsize := h.isObject.le_size
  have hlt : size < 2 ^ 64 := h.isObject.size_eq ▸ leAt_lt data (offset + 8) 8
  have hin : InWords offset := by
    rw [InWords]
    omega
  have hheaderSize : objectHeaderSize = 16 := rfl
  have hfixedSize : entryArrayFixedSize = 8 := rfl
  have hstart : offset + objectHeaderSize + entryArrayFixedSize = offset + 24 := by omega
  have hbytes : size - objectHeaderSize - entryArrayFixedSize = size - 24 := by omega
  have hcount : ∀ stride, (0 + (size - 24) / stride) * stride < 2 ^ 64 := fun stride => by
    rw [Nat.zero_add]
    exact Nat.lt_of_le_of_lt (Nat.div_mul_le_self _ stride) (by omega)
  obtain ⟨t, flags, size', hobject, hread⟩ | ⟨e, hnone, -⟩ :=
    readObjectHeader_cases checks hlen hin
  swap
  · exact absurd h.isObject (hnone _ size)
  obtain ⟨rfl, rfl⟩ := hobject.unique h.isObject
  rw [collectLoop, if_neg hne, if_neg (by simpa using hnew), hread]
  simp only [ok_bind]
  rw [if_neg (not_not_intro rfl)]
  simp (disch := omega) only [ok_bind, add_ok, sub_ok, readLe_ok]
  rw [if_neg (by omega), hstart, hbytes, arrayLinks]
  cases compact with
  | true =>
    rw [if_pos rfl, if_pos rfl, forItems_eq hlen (by decide) (by decide) (hcount 4) (by omega),
      foldlM_push, ok_bind]
    rfl
  | false =>
    rw [if_neg Bool.false_ne_true, if_neg Bool.false_ne_true,
      forItems_eq hlen (by decide) (by decide) (hcount 8) (by omega), foldlM_push, ok_bind]
    rfl

/-- A turn at anything else is the last one. -/
theorem collectLoop_of_not_isArray (hlen : data.length < 2 ^ 63) (hin : InWords offset)
    (h : ∀ size, ¬ IsArray data offset size) :
    collectLoop checks data compact (fuel + 1) visited offsets offset = .ok offsets := by
  rw [collectLoop]
  split
  · rfl
  · split
    · rfl
    · obtain ⟨t, flags, size, hobject, hread⟩ | ⟨e, -, hread⟩ :=
        readObjectHeader_cases checks hlen hin
      swap
      · rw [hread]
        rfl
      have hle := hobject.header_le
      have hheaderSize : objectHeaderSize = 16 := rfl
      have hfixedSize : entryArrayFixedSize = 8 := rfl
      rw [hread]
      simp only [ok_bind]
      split
      · rfl
      · rename_i ht
        have ht' : t = objectEntryArray := not_not.mp ht
        have hend : ¬ offset + 24 ≤ data.length := fun hlink => h size ⟨ht' ▸ hobject, hlink⟩
        rw [add_ok (b := objectHeaderSize) hin, sub_ok (b := objectHeaderSize) hobject.le_size]
        simp only [ok_bind]
        rw [add_ok (by omega)]
        simp only [ok_bind]
        rw [if_pos (by omega)]
        rfl

/-- What the loop keeps: the arrays it has visited lie in the file, their links are collected,
    and they lead to each other or to the array it is at. -/
structure Visited (data : Bytes) (compact : Bool) (visited offsets : List ℕ) (offset : ℕ) :
    Prop where
  nodup : visited.Nodup
  lt : ∀ v ∈ visited, v < data.length
  collected : ∀ v ∈ visited, ∀ entry, ArrayItem data compact v entry → entry ∈ offsets
  closed : ∀ v ∈ visited, ∀ size, IsArray data v size →
    leAt data (v + 16) 8 = offset ∨ leAt data (v + 16) 8 ∈ visited

theorem Visited.chain (h : Visited data compact visited offsets offset)
    (hmem : offset ∈ visited) {v array : ℕ} (hchain : Chain data v array) (hv : v ∈ visited) :
    array ∈ visited := by
  induction hchain with
  | here _ => exact hv
  | next _ harray _ ih =>
    rcases h.closed _ hv _ harray with heq | hnext
    · exact ih (heq ▸ hmem)
    · exact ih hnext

theorem Visited.step (h : Visited data compact visited offsets offset) (hnew : offset ∉ visited)
    (harray : IsArray data offset size) :
    Visited data compact (offset :: visited) (offsets ++ arrayLinks data compact offset size)
      (leAt data (offset + 16) 8) where
  nodup := List.nodup_cons.mpr ⟨hnew, h.nodup⟩
  lt := List.forall_mem_cons.mpr ⟨by have := harray.link_le; omega, h.lt⟩
  collected := List.forall_mem_cons.mpr
    ⟨fun entry hentry => List.mem_append_right offsets ((mem_arrayLinks harray).mpr hentry),
      fun v hv entry hentry => List.mem_append_left _ (h.collected v hv entry hentry)⟩
  closed := List.forall_mem_cons.mpr
    ⟨fun _ _ => Or.inl rfl, fun v hv size hsize => by
      rcases h.closed v hv size hsize with heq | hmem
      · exact Or.inr (heq ▸ List.mem_cons_self)
      · exact Or.inr (List.mem_cons_of_mem offset hmem)⟩

/-- The loop ends within its turns, without a fault exactly if the arrays on the chain lie in the
    words, and then with the links of all of them. -/
theorem collectLoop_spec (checks : Bool) (hlen : data.length < 2 ^ 63) (hheader : 16 ≤ data.length)
    (hword : offset < 2 ^ 64) (hfuel : data.length + 1 ≤ fuel + visited.length)
    (h : Visited data compact visited offsets offset) :
    (Safe (collectLoop checks data compact fuel visited offsets offset) ↔
      ∀ array, Chain data offset array → InWords array) ∧
    ∀ r, collectLoop checks data compact fuel visited offsets offset = .ok r → ∀ entry,
      entry ∈ r ↔ entry ∈ offsets ∨
        ∃ array, Chain data offset array ∧ ArrayItem data compact array entry := by
  induction fuel generalizing visited offsets offset with
  | zero =>
    have hle : visited.length ≤ data.length := by
      have hsub : visited ⊆ List.range data.length :=
        fun v hv => List.mem_range.mpr (h.lt v hv)
      have hperm := List.subperm_of_subset h.nodup hsub
      simpa using hperm.length_le
    omega
  | succ fuel ih =>
    by_cases hne : offset = 0
    · subst hne
      rw [collectLoop, if_pos rfl]
      refine ⟨iff_of_true (safe_ok _) fun array hchain => absurd hchain (not_chain_zero array), ?_⟩
      rintro r ⟨⟩ entry
      refine ⟨Or.inl, ?_⟩
      rintro (hmem | ⟨array, hchain, -⟩)
      · exact hmem
      · exact absurd hchain (not_chain_zero array)
    by_cases hseen : offset ∈ visited
    · have hin : ∀ array, Chain data offset array → array ∈ visited :=
        fun array hchain => h.chain hseen hchain hseen
      rw [collectLoop, if_neg hne, if_pos (by simpa using hseen)]
      refine ⟨iff_of_true (safe_ok _) fun array hchain => ?_, ?_⟩
      · have := h.lt array (hin array hchain)
        rw [InWords]
        omega
      · rintro r ⟨⟩ entry
        refine ⟨Or.inl, ?_⟩
        rintro (hmem | ⟨array, hchain, hitem⟩)
        · exact hmem
        · exact h.collected array (hin array hchain) entry hitem
    by_cases hin : InWords offset
    swap
    · have hunsafe :
          ¬ Safe (collectLoop checks data compact (fuel + 1) visited offsets offset) := by
        rw [collectLoop, if_neg hne, if_neg (by simpa using hseen)]
        exact not_safe_bind _ (not_safe_readObjectHeader hlen hheader hword hin)
      exact ⟨iff_of_false hunsafe fun hall => hin (hall offset (.here hne)),
        fun r hr => absurd ⟨r, hr⟩ hunsafe⟩
    by_cases harray : ∃ size, IsArray data offset size
    · obtain ⟨size, harray⟩ := harray
      have hchain : ∀ array, Chain data offset array ↔
          array = offset ∨ Chain data (leAt data (offset + 16) 8) array := fun array => by
        constructor
        · intro hchain
          cases hchain with
          | here _ => exact Or.inl rfl
          | next _ _ hnext => exact Or.inr hnext
        · rintro (rfl | hnext)
          · exact .here hne
          · exact .next hne harray hnext
      obtain ⟨hsafe, hmem⟩ := ih (leAt_lt data (offset + 16) 8)
        (by rw [List.length_cons]; omega) (h.step hseen harray)
      rw [collectLoop_of_isArray hlen hne hseen harray]
      refine ⟨hsafe.trans ?_, fun r hr entry => (hmem r hr entry).trans ?_⟩
      · simp only [hchain, forall_eq_or_imp]
        exact (and_iff_right hin).symm
      · rw [List.mem_append, mem_arrayLinks harray, or_assoc]
        simp only [hchain, or_and_right, exists_or, exists_eq_left]
    · have hnone : ∀ size, ¬ IsArray data offset size := fun size hsize => harray ⟨size, hsize⟩
      have hchain : ∀ array, Chain data offset array → array = offset := fun array hchain => by
        cases hchain with
        | here _ => rfl
        | next _ hsize _ => exact absurd hsize (hnone _)
      rw [collectLoop_of_not_isArray hlen hin hnone]
      refine ⟨iff_of_true (safe_ok _) fun array h => hchain array h ▸ hin, ?_⟩
      rintro r ⟨⟩ entry
      refine ⟨Or.inl, ?_⟩
      rintro (hmem | ⟨array, hstep, size, hsize, -⟩)
      · exact hmem
      · exact absurd (hchain array hstep ▸ hsize) (hnone size)

/-! ## Files -/

theorem arrayItem_lt {entry : ℕ} (h : ArrayItem data compact offset entry) : entry < 2 ^ 64 := by
  obtain ⟨size, -, hitem⟩ := h
  cases compact with
  | true => exact item_lt (by decide) hitem
  | false => exact item_lt (by decide) hitem

theorem parseEntries_safe_iff (checks : Bool) (libs : Libraries) (hlen : data.length < 2 ^ 63)
    (hheader : 16 ≤ data.length)
    {seen entryOffsets : List ℕ} (hseen : ∀ e ∈ seen, EntryInWords data compact e)
    (hword : ∀ e ∈ entryOffsets, e < 2 ^ 64) (entries : List JournalEntry) :
    Safe (parseEntries checks libs data compact seen entries entryOffsets) ↔
      ∀ e ∈ entryOffsets, EntryInWords data compact e := by
  induction entryOffsets generalizing seen entries with
  | nil => simp [parseEntries]
  | cons offset entryOffsets ih =>
    obtain ⟨hoffset, hrest⟩ := List.forall_mem_cons.mp hword
    rw [parseEntries, List.forall_mem_cons]
    by_cases hmem : offset ∈ seen
    · rw [if_pos (by simpa using hmem), ih hseen hrest]
      exact (and_iff_right (hseen offset hmem)).symm
    · have hparse := parseEntry_safe_iff checks libs hlen hheader hoffset
        compact
      rw [if_neg (by simpa using hmem), safe_bind, ← hparse]
      constructor
      · rintro ⟨r, hr, hsafe⟩
        have hseen' := List.forall_mem_cons.mpr ⟨hparse.mp ⟨r, hr⟩, hseen⟩
        cases r with
        | ok entry => exact ⟨⟨_, hr⟩, (ih hseen' hrest _).mp hsafe⟩
        | error e => exact ⟨⟨_, hr⟩, (ih hseen' hrest _).mp hsafe⟩
      · rintro ⟨⟨r, hr⟩, hall⟩
        have hseen' := List.forall_mem_cons.mpr ⟨hparse.mp ⟨r, hr⟩, hseen⟩
        refine ⟨r, hr, ?_⟩
        cases r with
        | ok entry => exact (ih hseen' hrest _).mpr hall
        | error e => exact (ih hseen' hrest _).mpr hall

theorem parseHeader_cases (checks : Bool) (hlen : data.length < 2 ^ 63) :
    (∃ header, IsHeader data header ∧ parseHeader checks data = .ok (.ok header)) ∨
    (∃ e, (∀ header, ¬ IsHeader data header) ∧ parseHeader checks data = .ok (.error e)) := by
  have hmin : minHeaderSize = 208 := rfl
  rw [parseHeader]
  split
  · rename_i hsmall
    exact .inr ⟨_, fun header h => by have := h.length_le; omega, rfl⟩
  · rename_i hlarge
    simp (disch := omega) only [ok_bind, slice_ok, readLe_ok]
    by_cases hmagic : (data.drop 0).take (8 - 0) = cJournalMagic
    · rw [if_neg (not_not_intro hmagic)]
      exact .inl ⟨_, ⟨by omega, hmagic, rfl, rfl⟩, rfl⟩
    · rw [if_pos hmagic]
      exact .inr ⟨_, fun header h => hmagic h.magic, rfl⟩

theorem IsHeader.unique {header header' : CJournalHeader} (h : IsHeader data header)
    (h' : IsHeader data header') : header = header' := by
  obtain ⟨flags, first⟩ := header
  obtain ⟨flags', first'⟩ := header'
  have hflags : flags = flags' := h.incompatibleFlags.trans h'.incompatibleFlags.symm
  have hfirst : first = first' := h.entryArrayOffset.trans h'.entryArrayOffset.symm
  rw [hflags, hfirst]

/-- A file is read without a fault, with overflow checks or without and whatever the libraries
    that decompress give, exactly if its links and data objects stay in the words. -/
theorem readCJournal_safe_iff (checks : Bool) (libs : Libraries) (file : Buffer) :
    Safe (readCJournal checks libs file.bytes) ↔ LinksInWords file.bytes := by
  obtain ⟨data, hlen⟩ := file
  show Safe (readCJournal checks libs data) ↔ LinksInWords data
  rw [readCJournal]
  obtain ⟨header, hheader, hread⟩ | ⟨e, hnone, hread⟩ := parseHeader_cases checks hlen
  swap
  · rw [hread]
    exact iff_of_true (safe_pure _) fun header h => absurd h (hnone header)
  have hlinks : LinksInWords data ↔
      ChainInWords data header.isCompact header.entryArrayOffset := by
    constructor
    · exact fun h => h header hheader
    · exact fun h header' h' => hheader.unique h' ▸ h
  have hmin : 16 ≤ data.length := Nat.le_trans (by decide) hheader.length_le
  have hword : header.entryArrayOffset < 2 ^ 64 :=
    hheader.entryArrayOffset ▸ leAt_lt data 176 8
  have hstart : Visited data header.isCompact [] [] header.entryArrayOffset :=
    ⟨List.nodup_nil, by simp, by simp, by simp⟩
  have hfuel : data.length + 1 ≤ data.length + 1 + ([] : List ℕ).length := Nat.le_refl _
  obtain ⟨hsafe, hmem⟩ := collectLoop_spec checks hlen hmin hword hfuel hstart
  rw [hread, hlinks]
  simp only [ok_bind]
  split
  · rename_i hzero
    rw [hzero]
    exact iff_of_true (safe_pure _) fun array h => absurd h (not_chain_zero array)
  rw [collectEntryOffsets, safe_bind]
  constructor
  · rintro ⟨offsets, hoffsets, hparse⟩
    obtain ⟨entries, hentries, -⟩ := safe_bind.mp hparse
    have hlt : ∀ e ∈ offsets, e < 2 ^ 64 := fun e he => by
      rcases (hmem offsets hoffsets e).mp he with hnil | ⟨array, -, hitem⟩
      · exact absurd hnil List.not_mem_nil
      · exact arrayItem_lt hitem
    have hall := (parseEntries_safe_iff checks libs hlen hmin (List.forall_mem_nil _) hlt []).mp
      ⟨entries, hentries⟩
    exact fun array hchain => ⟨hsafe.mp ⟨offsets, hoffsets⟩ array hchain, fun entry hitem =>
      hall entry ((hmem offsets hoffsets entry).mpr (Or.inr ⟨array, hchain, hitem⟩))⟩
  · intro h
    obtain ⟨offsets, hoffsets⟩ := hsafe.mpr fun array hchain => (h array hchain).1
    refine ⟨offsets, hoffsets, safe_bind.mpr ?_⟩
    have hitem : ∀ e ∈ offsets, ∃ array, Chain data header.entryArrayOffset array ∧
        ArrayItem data header.isCompact array e := fun e he => by
      rcases (hmem offsets hoffsets e).mp he with hnil | hitem
      · exact absurd hnil List.not_mem_nil
      · exact hitem
    have hlt : ∀ e ∈ offsets, e < 2 ^ 64 := fun e he => by
      obtain ⟨_, -, hlink⟩ := hitem e he
      exact arrayItem_lt hlink
    have hwords : ∀ e ∈ offsets, EntryInWords data header.isCompact e := fun e he => by
      obtain ⟨array, hchain, hlink⟩ := hitem e he
      exact (h array hchain).2 e hlink
    obtain ⟨entries, hentries⟩ :=
      (parseEntries_safe_iff checks libs hlen hmin (List.forall_mem_nil _) hlt []).mpr hwords
    exact ⟨entries, hentries, safe_pure _⟩

/-- A header whose first array is eight bytes in front of the end of the words. -/
def wrappingFile : Buffer where
  bytes := cJournalMagic ++ List.replicate 168 0 ++ toLe 8 (2 ^ 64 - 8) ++ List.replicate 24 0
  length_lt := by set_option maxRecDepth 20000 in decide

/-- Libraries that can decompress nothing. -/
def noLibraries : Libraries where
  lz4 _ _ := .error "unsupported"
  zstd _ := .error "unsupported"
  xz _ := .error "unsupported"

/-- The check of an object header overflows: with overflow checks the addition panics, without
    them the index behind it does. -/
theorem readCJournal_faults :
    readCJournal true noLibraries wrappingFile.bytes = .error .overflow ∧
      readCJournal false noLibraries wrappingFile.bytes = .error .outOfBounds := by
  set_option maxRecDepth 20000 in decide

end OxidizedSystemd.Journal.CJournal
