import OxidizedSystemd.Journal.Frame

/-!
# Journal files

Model of `FileHeader` and `JournalFile` (`journal/storage.rs`, lines 77–329). The
file on disk is a list of bytes; an open `JournalFile` caches its header.

* `FileHeader.deserialize_serialize`: the header on disk is read back.
* `readAll_truncated`: of a file that is cut off behind its header, the entries
  whose frames lie before the cut are read.
-/

namespace OxidizedSystemd.Journal

open OxidizedSystemd.Lib

/-! ## The header -/

/-- `enum JournalCompress` (lines 84–89). -/
inductive JournalCompress
  | none | xz | lz4 | zstd
  deriving DecidableEq, Repr

/-- `compress as u8`. -/
def JournalCompress.toU8 : JournalCompress → UInt8
  | .none => 0
  | .xz => 1
  | .lz4 => 2
  | .zstd => 3

/-- `JournalCompress::from_u8` (lines 103–110). -/
def JournalCompress.fromU8 (b : UInt8) : JournalCompress :=
  if b = 0 then .none else if b = 1 then .xz else if b = 2 then .lz4 else .zstd

/-- `JOURNAL_MAGIC` (line 56). -/
def journalMagic : Bytes := [0x4A, 0x52, 0x4E, 0x4C, 0x5F, 0x52, 0x53, 0x00]

/-- `FORMAT_VERSION` (line 59). -/
def formatVersion : ℕ := 1

/-- `HEADER_SIZE` (line 62). -/
def headerSize : ℕ := 64

/-- `struct FileHeader` (lines 125–142), without the magic and the version, which are
    constant. -/
structure FileHeader where
  fileId : BitVec 128
  headSeqnum : UInt64
  tailSeqnum : UInt64
  entryCount : UInt64
  fileSize : UInt64
  compress : JournalCompress
  deriving DecidableEq, Repr

/-- `FileHeader::new` (lines 145–158) with a random id. -/
def FileHeader.new (fileId : BitVec 128) (compress : JournalCompress) : FileHeader where
  fileId := fileId
  headSeqnum := 0
  tailSeqnum := 0
  entryCount := 0
  fileSize := UInt64.ofNat headerSize
  compress := compress

/-- `FileHeader::serialize` (lines 160–172). -/
def FileHeader.serialize (h : FileHeader) : Bytes :=
  journalMagic ++ (toLe 4 formatVersion ++ (toLe 16 h.fileId.toNat ++
    (toLe 8 h.headSeqnum.toNat ++ (toLe 8 h.tailSeqnum.toNat ++ (toLe 8 h.entryCount.toNat ++
      (toLe 8 h.fileSize.toNat ++ [h.compress.toU8, 0, 0, 0]))))))

/-- `FileHeader::deserialize` (lines 174–205) of 64 bytes. -/
def FileHeader.deserialize (buf : Bytes) : Except IoError FileHeader :=
  if buf.take 8 ≠ journalMagic then .error (.invalidData "invalid journal file magic")
  else if ofLe ((buf.drop 8).take 4) ≠ formatVersion then
    .error (.invalidData ("unsupported journal format version " ++
      toString (ofLe ((buf.drop 8).take 4)) ++ " (expected " ++ toString formatVersion ++ ")"))
  else
    .ok
      { fileId := BitVec.ofNat 128 (ofLe ((buf.drop 12).take 16))
        headSeqnum := UInt64.ofNat (ofLe ((buf.drop 28).take 8))
        tailSeqnum := UInt64.ofNat (ofLe ((buf.drop 36).take 8))
        entryCount := UInt64.ofNat (ofLe ((buf.drop 44).take 8))
        fileSize := UInt64.ofNat (ofLe ((buf.drop 52).take 8))
        compress := JournalCompress.fromU8 (buf.getD 60 0) }

/-! ## The file -/

/-- `struct JournalFile` (lines 214–221): the cached header, and whether there is a writer. -/
structure JournalFile where
  header : FileHeader
  writable : Bool
  deriving DecidableEq, Repr

/-- `JournalFile::create` (lines 225–243), with the new contents of the file. -/
def JournalFile.create (fileId : BitVec 128) (compress : JournalCompress) : JournalFile × Bytes :=
  (⟨FileHeader.new fileId compress, true⟩, (FileHeader.new fileId compress).serialize)

/-- `JournalFile::open` (lines 246–265). -/
def JournalFile.openFile (disk : Bytes) (writable : Bool) : Except IoError JournalFile :=
  match readExact headerSize disk with
  | (.error e, _) => .error e
  | (.ok buf, _) => (FileHeader.deserialize buf).map fun header => ⟨header, writable⟩

/-- The header after an append (lines 278–284). -/
def FileHeader.appended (h : FileHeader) (seqnum : UInt64) (frameLen : ℕ) : FileHeader :=
  { h with
    headSeqnum := if h.entryCount = 0 then seqnum else h.headSeqnum
    tailSeqnum := seqnum
    entryCount := h.entryCount + 1
    fileSize := h.fileSize + UInt64.ofNat frameLen }

/-- Write the header at the start of the file (lines 289–292). -/
def writeHeader (h : FileHeader) (disk : Bytes) : Bytes := h.serialize ++ disk.drop headerSize

/-- `JournalFile::append` (lines 268–295): the frame is written at the end, then the header. -/
def JournalFile.append (f : JournalFile) (disk : Bytes) (e : JournalEntry) (seqnum : UInt64) :
    Except IoError (JournalFile × Bytes) :=
  if f.writable then
    let frame := serializeEntry e seqnum
    let header := f.header.appended seqnum frame.length
    .ok (⟨header, f.writable⟩, writeHeader header (disk ++ frame))
  else .error (.other "journal file not writable")

/-- `JournalFile::read_all` (lines 298–323). -/
def readAll (disk : Bytes) : List JournalEntry := (readEntries (disk.drop headerSize)).1

/-! ## What an append leaves -/

theorem length_serialize (h : FileHeader) : h.serialize.length = headerSize := by
  simp only [FileHeader.serialize, List.length_append, length_toLe]
  rfl

theorem fromU8_toU8 (c : JournalCompress) : JournalCompress.fromU8 c.toU8 = c := by
  cases c <;> rfl

/-- The header on disk is read back. -/
theorem FileHeader.deserialize_serialize (h : FileHeader) :
    FileHeader.deserialize h.serialize = .ok h := by
  have hl := length_toLe
  have hdrop8 : h.serialize.drop 8 = toLe 4 formatVersion ++ (toLe 16 h.fileId.toNat ++
      (toLe 8 h.headSeqnum.toNat ++ (toLe 8 h.tailSeqnum.toNat ++ (toLe 8 h.entryCount.toNat ++
        (toLe 8 h.fileSize.toNat ++ [h.compress.toU8, 0, 0, 0]))))) := rfl
  have hdrop12 : h.serialize.drop 12 = toLe 16 h.fileId.toNat ++ (toLe 8 h.headSeqnum.toNat ++
      (toLe 8 h.tailSeqnum.toNat ++ (toLe 8 h.entryCount.toNat ++ (toLe 8 h.fileSize.toNat ++
        [h.compress.toU8, 0, 0, 0])))) := by
    rw [show 12 = 8 + 4 from rfl, ← List.drop_drop, hdrop8, drop_append_of_length (hl _ _)]
  have hdrop28 : h.serialize.drop 28 = toLe 8 h.headSeqnum.toNat ++ (toLe 8 h.tailSeqnum.toNat ++
      (toLe 8 h.entryCount.toNat ++ (toLe 8 h.fileSize.toNat ++ [h.compress.toU8, 0, 0, 0]))) := by
    rw [show 28 = 12 + 16 from rfl, ← List.drop_drop, hdrop12, drop_append_of_length (hl _ _)]
  have hdrop36 : h.serialize.drop 36 = toLe 8 h.tailSeqnum.toNat ++ (toLe 8 h.entryCount.toNat ++
      (toLe 8 h.fileSize.toNat ++ [h.compress.toU8, 0, 0, 0])) := by
    rw [show 36 = 28 + 8 from rfl, ← List.drop_drop, hdrop28, drop_append_of_length (hl _ _)]
  have hdrop44 : h.serialize.drop 44 = toLe 8 h.entryCount.toNat ++ (toLe 8 h.fileSize.toNat ++
      [h.compress.toU8, 0, 0, 0]) := by
    rw [show 44 = 36 + 8 from rfl, ← List.drop_drop, hdrop36, drop_append_of_length (hl _ _)]
  have hdrop52 : h.serialize.drop 52 = toLe 8 h.fileSize.toNat ++ [h.compress.toU8, 0, 0, 0] := by
    rw [show 52 = 44 + 8 from rfl, ← List.drop_drop, hdrop44, drop_append_of_length (hl _ _)]
  have hdrop60 : h.serialize.drop 60 = [h.compress.toU8, 0, 0, 0] := by
    rw [show 60 = 52 + 8 from rfl, ← List.drop_drop, hdrop52, drop_append_of_length (hl _ _)]
  have hcompress : h.serialize.getD 60 0 = h.compress.toU8 := by
    rw [List.getD_eq_getElem?_getD, ← Nat.add_zero 60, ← List.getElem?_drop, hdrop60]
    rfl
  have hversion : ofLe (toLe 4 formatVersion) = formatVersion := ofLe_toLe_of_lt (by decide)
  have hfileId : BitVec.ofNat 128 (ofLe (toLe 16 h.fileId.toNat)) = h.fileId := by
    rw [ofLe_toLe_of_lt (Nat.lt_of_lt_of_le h.fileId.isLt (by norm_num)), BitVec.ofNat_toNat,
      BitVec.setWidth_eq]
  have hmagic : h.serialize.take 8 = journalMagic := rfl
  rw [FileHeader.deserialize, if_neg (not_not.mpr hmagic), hdrop8,
    take_append_of_length (hl _ _), hversion, if_neg (not_not.mpr rfl), hdrop12,
    take_append_of_length (hl _ _), hdrop28, take_append_of_length (hl _ _), hdrop36,
    take_append_of_length (hl _ _), hdrop44, take_append_of_length (hl _ _), hdrop52,
    take_append_of_length (hl _ _), hcompress, fromU8_toU8, hfileId, ofNat_ofLe_toLe,
    ofNat_ofLe_toLe, ofNat_ofLe_toLe, ofNat_ofLe_toLe]

/-- A file with a header in front is opened with that header. -/
theorem openFile_serialize (h : FileHeader) (body : Bytes) (writable : Bool) :
    JournalFile.openFile (h.serialize ++ body) writable = .ok ⟨h, writable⟩ := by
  rw [JournalFile.openFile, readExact_append (length_serialize h)]
  dsimp only
  rw [FileHeader.deserialize_serialize]
  rfl

theorem readAll_serialize (h : FileHeader) (body : Bytes) :
    readAll (h.serialize ++ body) = (readEntries body).1 := by
  rw [readAll, drop_append_of_length (length_serialize h)]

/-- Writing the header leaves what is behind it. -/
theorem writeHeader_serialize (h h' : FileHeader) (body : Bytes) :
    writeHeader h' (h.serialize ++ body) = h'.serialize ++ body := by
  rw [writeHeader, drop_append_of_length (length_serialize h)]

/-- An append adds the frame behind what is there, and renews the header. -/
theorem append_serialize {f f' : JournalFile} {h : FileHeader} {body disk' : Bytes}
    {e : JournalEntry} {seqnum : UInt64}
    (hok : f.append (h.serialize ++ body) e seqnum = .ok (f', disk')) :
    f' = ⟨f.header.appended seqnum (serializeEntry e seqnum).length, true⟩ ∧
      disk' = f'.header.serialize ++ (body ++ serializeEntry e seqnum) := by
  unfold JournalFile.append at hok
  split at hok
  · rename_i hw
    obtain ⟨rfl, rfl⟩ := Prod.mk.inj (Except.ok.inj hok)
    rw [hw, List.append_assoc, writeHeader_serialize]
    exact ⟨rfl, rfl⟩
  · cases hok

/-! ## Truncated files -/

/-- Append entries with their sequence numbers, one after the other. -/
def JournalFile.appendAll : JournalFile × Bytes → List (JournalEntry × UInt64) →
    Except IoError (JournalFile × Bytes)
  | file, [] => .ok file
  | (f, disk), (e, seqnum) :: es =>
    match f.append disk e seqnum with
    | .error err => .error err
    | .ok file => JournalFile.appendAll file es

/-- The entries as they are stored. -/
def storedEntries (es : List (JournalEntry × UInt64)) : List JournalEntry :=
  es.map fun p => p.1.stored p.2

/-- The offset of the end of the frame of entry `i`. -/
def frameEnd (es : List (JournalEntry × UInt64)) (i : ℕ) : ℕ :=
  headerSize + (frames (storedEntries (es.take (i + 1)))).length

theorem appendAll_serialize {es : List (JournalEntry × UInt64)} {f f' : JournalFile}
    {h : FileHeader} {body disk' : Bytes}
    (hok : JournalFile.appendAll (f, h.serialize ++ body) es = .ok (f', disk')) :
    ∃ h' : FileHeader, disk' = h'.serialize ++ (body ++ frames (storedEntries es)) := by
  induction es generalizing f h body with
  | nil =>
    obtain ⟨-, rfl⟩ := Prod.mk.inj (Except.ok.inj hok)
    exact ⟨h, by rw [show frames (storedEntries []) = [] from rfl, List.append_nil]⟩
  | cons p es ih =>
    unfold JournalFile.appendAll at hok
    rcases happ : f.append (h.serialize ++ body) p.1 p.2 with err | ⟨f₁, disk₁⟩
    · rw [happ] at hok; cases hok
    · rw [happ] at hok
      obtain ⟨rfl, rfl⟩ := append_serialize happ
      obtain ⟨h', rfl⟩ := ih hok
      refine ⟨h', ?_⟩
      rw [List.append_assoc]
      rfl

/-- Of a journal file that is cut off behind its header, `read_all` returns exactly the entries
    whose frames end at or before the cut, each as it was stored, in order. -/
theorem readAll_truncated {es : List (JournalEntry × UInt64)} (hfits : ∀ p ∈ es, p.1.Fits)
    {fileId : BitVec 128} {compress : JournalCompress} {f : JournalFile} {disk : Bytes}
    (hdisk : JournalFile.appendAll (JournalFile.create fileId compress) es = .ok (f, disk))
    {cut : ℕ} (hcut : headerSize ≤ cut) :
    ∃ n ≤ es.length, readAll (disk.take cut) = storedEntries (es.take n) ∧
      ∀ i < es.length, i < n ↔ frameEnd es i ≤ cut := by
  have hbody : JournalFile.create fileId compress =
      (⟨FileHeader.new fileId compress, true⟩,
        (FileHeader.new fileId compress).serialize ++ []) := by
    rw [List.append_nil]
    rfl
  rw [hbody] at hdisk
  obtain ⟨h', rfl⟩ := appendAll_serialize hdisk
  rw [List.nil_append]
  have hstored : ∀ e ∈ storedEntries es, e.Fits := by
    intro e he
    obtain ⟨p, hp, rfl⟩ := List.mem_map.mp he
    exact (hfits p hp).stored p.2
  obtain ⟨n, hn, hread, hiff⟩ := readEntries_take hstored (cut - headerSize)
  rw [storedEntries, List.length_map] at hn
  refine ⟨n, hn, ?_, fun i hi => ?_⟩
  · rw [List.take_append, List.take_of_length_le (by rw [length_serialize]; exact hcut),
      length_serialize, readAll_serialize, hread, storedEntries, storedEntries, List.map_take]
  · have := hiff i (by rw [storedEntries, List.length_map]; exact hi)
    rw [this, frameEnd, storedEntries, storedEntries, List.map_take]
    omega

/-- An entry with one field. -/
def helloEntry : JournalEntry where
  fields := ⟨[("MESSAGE", [0x68, 0x69])], List.pairwise_singleton _ _⟩
  realtimeUsec := 1700000000000000
  monotonicUsec := 1000000
  seqnum := 0

theorem helloEntry_fits : helloEntry.Fits where
  keys := by decide
  body := by decide

/-- Two entries. -/
def helloEntries : List (JournalEntry × UInt64) := [(helloEntry, 1), (helloEntry, 2)]

/-- The second frame is cut off in its length. -/
theorem readAll_truncated_hello :
    ∃ f disk, JournalFile.appendAll (JournalFile.create 7 .zstd) helloEntries = .ok (f, disk) ∧
      ∃ n ≤ 2, readAll (disk.take 117) = storedEntries (helloEntries.take n) ∧
        ∀ i < 2, i < n ↔ frameEnd helloEntries i ≤ 117 := by
  have hfits : ∀ p ∈ helloEntries, p.1.Fits := by
    intro p hp
    rcases List.mem_cons.mp hp with rfl | hp
    · exact helloEntry_fits
    · rw [List.mem_singleton.mp hp]
      exact helloEntry_fits
  rcases hdisk : JournalFile.appendAll (JournalFile.create 7 .zstd) helloEntries with
    err | ⟨f, disk⟩
  · cases hdisk
  · have hcut : headerSize ≤ 117 := by decide
    exact ⟨f, disk, rfl, readAll_truncated hfits hdisk hcut⟩

end OxidizedSystemd.Journal
