import OxidizedSystemd.Journal.Cursor

/-!
# The export format

Model of `to_export_format`, `from_export_format` and `parse_export_entries`
(`journal/entry.rs`, lines 332–371 and 428–548). A reader is the list of the bytes
that are left.

* `exportLoop_exportField`: one field is read back, whatever its value.
* `fromExportFormat_toExportFormat`: so is an entry, in front of any other bytes.
* `parseExportEntries_toExportFormat`: and any list of entries.
-/

namespace OxidizedSystemd.Journal

open OxidizedSystemd.Lib

/-! ## Writing -/

/-- `is_binary_safe` (lines 632–634). -/
def isBinarySafe (data : Bytes) : Bool := !data.contains 0 && !data.contains 0x0A

/-- A line `KEY=VALUE`. -/
def textField (key : String) (value : Bytes) : Bytes := asBytes key ++ 0x3D :: (value ++ [0x0A])

/-- A field with a length in front of its value (lines 357–363). -/
def binaryField (key : String) (value : Bytes) : Bytes :=
  asBytes key ++ 0x0A :: (toLe 8 value.length ++ (value ++ [0x0A]))

/-- A field as it is written (lines 351–364). -/
def exportField (f : String × Bytes) : Bytes :=
  if isBinarySafe f.2 then textField f.1 f.2 else binaryField f.1 f.2

/-- `{}` of a number, as bytes. -/
def decimalBytes (n : ℕ) : Bytes := asBytes (String.ofList (decimal n))

/-- The lines in front of the fields (lines 336–345). -/
def exportHeader (e : JournalEntry) (cursor : String) : List (String × Bytes) :=
  [("__CURSOR", asBytes cursor),
    ("__REALTIME_TIMESTAMP", decimalBytes e.realtimeUsec.toNat),
    ("__MONOTONIC_TIMESTAMP", decimalBytes e.monotonicUsec.toNat),
    ("__SEQNUM", decimalBytes e.seqnum.toNat),
    ("__SEQNUM_ID", [0x30])] ++
  (Cursor.JournalEntry.bootId e).toList.map fun bootId => ("_BOOT_ID", asBytes bootId)

/-- The fields behind the header: all but `_BOOT_ID` (lines 348–350). -/
def exportFields (e : JournalEntry) : List (String × Bytes) :=
  e.fields.pairs.filter fun f => decide (f.1 ≠ "_BOOT_ID")

/-- `to_export_format` (lines 332–371). -/
def toExportFormat (e : JournalEntry) (cursor : String) : Bytes :=
  (exportHeader e cursor).flatMap (fun f => textField f.1 f.2) ++
    ((exportFields e).flatMap exportField ++ [0x0A])

/-! ## Reading -/

/-- `BufRead::read_until` on the bytes that are left. -/
def readUntil (delimiter : UInt8) (bs : Bytes) : Bytes × Bytes :=
  match bs.dropWhile (· != delimiter) with
  | [] => (bs, [])
  | _ :: rest => (bs.takeWhile (· != delimiter) ++ [delimiter], rest)

/-- The line without its newline (lines 446–448). -/
def stripNewline (line : Bytes) : Bytes :=
  if line.getLast? = some 0x0A then line.dropLast else line

/-- A timestamp: `trim`, `parse`, and 0 for what does not parse. -/
def parseUsec (s : String) : UInt64 :=
  UInt64.ofNat ((fromStrRadix 10 Cursor.u64Max (trim s.toList)).getD 0)

/-- The entry after a line with a `=` (lines 465–486). -/
def addText (entry : JournalEntry) (key : String) (value : Bytes) : JournalEntry :=
  if key = "__CURSOR" then { entry with fields := entry.fields.insert "__CURSOR" value }
  else if key = "__REALTIME_TIMESTAMP" then
    match fromUtf8 value with
    | some s => { entry with realtimeUsec := parseUsec s }
    | none => entry
  else if key = "__MONOTONIC_TIMESTAMP" then
    match fromUtf8 value with
    | some s => { entry with monotonicUsec := parseUsec s }
    | none => entry
  else { entry with fields := entry.fields.insert key value }

/-- The largest binary value (line 501). -/
def maxBinaryLen : ℕ := 256 * 1024 * 1024

/-- The value of a binary field behind the line of its key (lines 496–532). A newline that
    is missing at the end is no error. -/
def readBinary (key : String) (bs : Bytes) : Except IoError Bytes × Bytes :=
  match readExact 8 bs with
  | (.error e, bs) => (.error e, bs)
  | (.ok lenBuf, bs) =>
    let dataLen := ofLe lenBuf
    if dataLen > maxBinaryLen then
      (.error (.invalidData ("binary field '" ++ key ++ "' claims " ++ toString dataLen ++
        " bytes — too large")), bs)
    else if bs.length < dataLen then
      -- `take` and `read_to_end` get what is left; the error is of kind `UnexpectedEof`
      (.error .unexpectedEof, [])
    else (.ok (bs.take dataLen), bs.drop (dataLen + 1))

/-- At most `fuel` turns of the loop of `from_export_format` (lines 432–537). -/
def exportLoop : ℕ → JournalEntry → Bool → Bytes → Except IoError (Option JournalEntry) × Bytes
  | 0, _, _, bs => (.error .unexpectedEof, bs)
  | fuel + 1, entry, gotAnyField, bs =>
    let (lineBuf, rest) := readUntil 0x0A bs
    if lineBuf.isEmpty then (.ok (if gotAnyField then some entry else none), rest)
    else
      let line := stripNewline lineBuf
      if line.isEmpty then
        if gotAnyField then (.ok (some entry), rest) else exportLoop fuel entry gotAnyField rest
      else if line.contains 0x3D then
        let key := fromUtf8Lossy (line.takeWhile (· != 0x3D))
        let value := (line.dropWhile (· != 0x3D)).tail
        exportLoop fuel (addText entry key value) true rest
      else
        let key := fromUtf8Lossy line
        match readBinary key rest with
        | (.error e, rest) => (.error e, rest)
        | (.ok data, rest) =>
          exportLoop fuel { entry with fields := entry.fields.insert key data } true rest

/-- `JournalEntry::with_timestamp(0, 0)`. -/
def emptyEntry : JournalEntry :=
  { fields := SortedMap.empty, realtimeUsec := 0, monotonicUsec := 0, seqnum := 0 }

/-- `from_export_format` (lines 428–537). Every turn takes a byte, or is the last one. -/
def fromExportFormat (bs : Bytes) : Except IoError (Option JournalEntry) × Bytes :=
  exportLoop (bs.length + 1) emptyEntry false bs

/-- At most `fuel` turns of the loop of `parse_export_entries` (lines 545–547). -/
def parseLoop : ℕ → Bytes → Except IoError (List JournalEntry)
  | 0, _ => .error .unexpectedEof
  | fuel + 1, bs =>
    match fromExportFormat bs with
    | (.error e, _) => .error e
    | (.ok none, _) => .ok []
    | (.ok (some entry), rest) => (parseLoop fuel rest).map (entry :: ·)

/-- `parse_export_entries` (lines 542–548). Every entry has a byte. -/
def parseExportEntries (bs : Bytes) : Except IoError (List JournalEntry) :=
  parseLoop (bs.length + 1) bs

/-! ## One line -/

theorem takeWhile_bne_append {b : UInt8} {line : Bytes} (h : b ∉ line) (rest : Bytes) :
    (line ++ b :: rest).takeWhile (· != b) = line := by
  have hline : ∀ c ∈ line, (c != b) = true :=
    fun c hc => bne_iff_ne.mpr fun heq => h (heq ▸ hc)
  rw [List.takeWhile_append_of_pos hline]
  simp

theorem dropWhile_bne_append {b : UInt8} {line : Bytes} (h : b ∉ line) (rest : Bytes) :
    (line ++ b :: rest).dropWhile (· != b) = b :: rest := by
  have hline : ∀ c ∈ line, (c != b) = true :=
    fun c hc => bne_iff_ne.mpr fun heq => h (heq ▸ hc)
  rw [List.dropWhile_append_of_pos hline]
  simp

theorem readUntil_append {delimiter : UInt8} {line : Bytes} (h : delimiter ∉ line) (rest : Bytes) :
    readUntil delimiter (line ++ delimiter :: rest) = (line ++ [delimiter], rest) := by
  rw [readUntil, dropWhile_bne_append h, takeWhile_bne_append h]

theorem stripNewline_append (line : Bytes) : stripNewline (line ++ [0x0A]) = line := by
  rw [stripNewline, List.getLast?_concat, if_pos rfl, List.dropLast_concat]

/-- A key as it may be written: not empty, and without `=` or newline. -/
structure IsKey (key : String) : Prop where
  ne_empty : key ≠ ""
  equals : '=' ∉ key.toList
  newline : '\n' ∉ key.toList

variable {fuel : ℕ} {entry : JournalEntry} {got : Bool} {key : String} {value rest : Bytes}

theorem equals_not_mem (h : IsKey key) : (0x3D : UInt8) ∉ asBytes key :=
  not_mem_asBytes (c := '=') (by decide) h.equals

theorem newline_not_mem (h : IsKey key) : (0x0A : UInt8) ∉ asBytes key :=
  not_mem_asBytes (c := '\n') (by decide) h.newline

/-- A text line is read as its key and value. -/
theorem exportLoop_textField (h : IsKey key) (hvalue : (0x0A : UInt8) ∉ value) :
    exportLoop (fuel + 1) entry got (textField key value ++ rest) =
      exportLoop fuel (addText entry key value) true rest := by
  have hsplit : textField key value ++ rest =
      (asBytes key ++ 0x3D :: value) ++ 0x0A :: rest := by
    rw [textField]
    simp
  have hline : (0x0A : UInt8) ∉ asBytes key ++ 0x3D :: value := by
    rw [List.mem_append, List.mem_cons, not_or, not_or]
    exact ⟨newline_not_mem h, by decide, hvalue⟩
  rw [hsplit, exportLoop, readUntil_append hline]
  dsimp only
  rw [stripNewline_append, if_neg (by simp), if_neg (by simp), if_pos (by simp),
    takeWhile_bne_append (equals_not_mem h), dropWhile_bne_append (equals_not_mem h),
    fromUtf8Lossy_asBytes]
  rfl

/-- A binary field is read as its key and value, whatever bytes these are. -/
theorem exportLoop_binaryField (h : IsKey key) (hvalue : value.length ≤ maxBinaryLen) :
    exportLoop (fuel + 1) entry got (binaryField key value ++ rest) =
      exportLoop fuel { entry with fields := entry.fields.insert key value } true rest := by
  have hsplit : binaryField key value ++ rest =
      asBytes key ++ 0x0A :: (toLe 8 value.length ++ (value ++ 0x0A :: rest)) := by
    rw [binaryField]
    simp
  have hlen : ofLe (toLe 8 value.length) = value.length := by
    rw [ofLe_toLe]
    exact Nat.mod_eq_of_lt (Nat.lt_of_le_of_lt hvalue (by decide))
  have hread : readBinary key (toLe 8 value.length ++ (value ++ 0x0A :: rest)) =
      (.ok value, rest) := by
    rw [readBinary, readExact_append (length_toLe 8 _)]
    dsimp only
    rw [hlen, if_neg (Nat.not_lt.mpr hvalue), if_neg (by simp), List.take_left,
      List.drop_append, List.drop_of_length_le (by omega)]
    simp
  have hequals : (asBytes key).contains 0x3D = false := by
    simpa using equals_not_mem h
  rw [hsplit, exportLoop, readUntil_append (newline_not_mem h)]
  dsimp only
  rw [stripNewline_append, if_neg (by simp), if_neg (by simpa using asBytes_ne_nil h.ne_empty),
    hequals, if_neg (by simp), fromUtf8Lossy_asBytes, hread]

/-- The blank line ends the entry. -/
theorem exportLoop_blank : exportLoop (fuel + 1) entry true (0x0A :: rest) =
    (.ok (some entry), rest) := by
  have hread : readUntil 0x0A (0x0A :: rest) = ([0x0A], rest) :=
    readUntil_append (List.not_mem_nil : (0x0A : UInt8) ∉ []) rest
  rw [exportLoop, hread]
  rfl

/-! ## The fields of an entry -/

/-- A field as it may be written: with a key that is no address field. -/
structure IsField (f : String × Bytes) : Prop where
  isKey : IsKey f.1
  not_address : ¬ "__".toList <+: f.1.toList
  length : f.2.length ≤ maxBinaryLen

theorem addText_of_isField {f : String × Bytes} (h : IsField f) (entry : JournalEntry) :
    addText entry f.1 f.2 = { entry with fields := entry.fields.insert f.1 f.2 } := by
  have hne : ∀ key : String, "__".toList <+: key.toList → f.1 ≠ key :=
    fun key hkey heq => h.not_address (heq ▸ hkey)
  rw [addText, if_neg (hne _ (by decide)), if_neg (hne _ (by decide)), if_neg (hne _ (by decide))]

/-- A field is read back, whatever its value. -/
theorem exportLoop_exportField {f : String × Bytes} (h : IsField f) :
    exportLoop (fuel + 1) entry got (exportField f ++ rest) =
      exportLoop fuel { entry with fields := entry.fields.insert f.1 f.2 } true rest := by
  unfold exportField
  split
  · rename_i hsafe
    have hvalue : (0x0A : UInt8) ∉ f.2 := by
      simp only [isBinarySafe, Bool.and_eq_true, Bool.not_eq_true', List.contains_eq_mem,
        decide_eq_false_iff_not] at hsafe
      exact hsafe.2
    rw [exportLoop_textField h.isKey hvalue, addText_of_isField h]
  · exact exportLoop_binaryField h.isKey h.length

theorem exportLoop_exportFields {fs : List (String × Bytes)} (h : ∀ f ∈ fs, IsField f) :
    exportLoop (fuel + fs.length) entry true (fs.flatMap exportField ++ rest) =
      exportLoop fuel { entry with fields := fs.foldl (fun m p => m.insert p.1 p.2) entry.fields }
        true rest := by
  induction fs generalizing entry with
  | nil => rfl
  | cons f fs ih =>
    rw [List.flatMap_cons, List.append_assoc, List.length_cons, ← Nat.add_assoc,
      exportLoop_exportField (h f List.mem_cons_self),
      ih fun g hg => h g (List.mem_cons_of_mem f hg), List.foldl_cons]

/-! ## The header -/

theorem newline_not_mem_decimalBytes (n : ℕ) : (0x0A : UInt8) ∉ decimalBytes n := by
  refine not_mem_asBytes (c := '\n') (by decide) ?_
  rw [String.toList_ofList]
  intro h
  obtain ⟨d, hd, heq⟩ := mem_toDigits (by decide) h
  have hdigit : ∀ d < 10, '\n' ≠ Nat.digitChar d := by decide
  exact hdigit d hd heq

theorem parseUsec_decimal (usec : UInt64) :
    parseUsec (String.ofList (decimal usec.toNat)) = usec := by
  have hle : usec.toNat ≤ Cursor.u64Max := Nat.le_of_lt_succ usec.toNat_lt
  rw [parseUsec, String.toList_ofList, fromStrRadix_decimal hle]
  exact UInt64.ofNat_toNat

/-- The metadata that the writer adds and the reader keeps. -/
def metadata (e : JournalEntry) (cursor : String) : List (String × Bytes) :=
  [("__CURSOR", asBytes cursor), ("__SEQNUM", decimalBytes e.seqnum.toNat),
    ("__SEQNUM_ID", [0x30])]

/-- The fields and the metadata. -/
def withMetadata (fields : SortedMap String Bytes) (e : JournalEntry) (cursor : String) :
    SortedMap String Bytes :=
  (metadata e cursor).foldl (fun m p => m.insert p.1 p.2) fields

/-- What the header of an entry leaves behind. -/
def headerEntry (e : JournalEntry) (cursor : String) : JournalEntry :=
  { fields :=
      (Cursor.JournalEntry.bootId e).toList.foldl (fun m s => m.insert "_BOOT_ID" (asBytes s))
        (withMetadata SortedMap.empty e cursor)
    realtimeUsec := e.realtimeUsec
    monotonicUsec := e.monotonicUsec
    seqnum := 0 }

/-- Lines are read one by one. -/
theorem exportLoop_textFields {fs : List (String × Bytes)}
    (h : ∀ f ∈ fs, IsKey f.1 ∧ (0x0A : UInt8) ∉ f.2) :
    exportLoop (fuel + fs.length) entry got
        (fs.flatMap (fun f => textField f.1 f.2) ++ rest) =
      exportLoop fuel (fs.foldl (fun e f => addText e f.1 f.2) entry) (got || !fs.isEmpty)
        rest := by
  induction fs generalizing entry got with
  | nil => simp
  | cons f fs ih =>
    obtain ⟨hkey, hvalue⟩ := h f List.mem_cons_self
    rw [List.flatMap_cons, List.append_assoc, List.length_cons, ← Nat.add_assoc,
      exportLoop_textField hkey hvalue, ih fun g hg => h g (List.mem_cons_of_mem f hg),
      List.foldl_cons]
    simp

theorem isKey_of_mem_exportHeader {e : JournalEntry} {cursor : String}
    (hcursor : '\n' ∉ cursor.toList)
    (hboot : ∀ s, Cursor.JournalEntry.bootId e = some s → '\n' ∉ s.toList) :
    ∀ f ∈ exportHeader e cursor, IsKey f.1 ∧ (0x0A : UInt8) ∉ f.2 := by
  have hline : ∀ s : String, '\n' ∉ s.toList → (0x0A : UInt8) ∉ asBytes s :=
    fun s h => not_mem_asBytes (c := '\n') (by decide) h
  have hdecimal := newline_not_mem_decimalBytes
  have hkeys : ∀ key ∈ ["__CURSOR", "__REALTIME_TIMESTAMP", "__MONOTONIC_TIMESTAMP", "__SEQNUM",
      "__SEQNUM_ID", "_BOOT_ID"], key ≠ "" ∧ '=' ∉ key.toList ∧ '\n' ∉ key.toList := by decide
  have hkey : ∀ key ∈ ["__CURSOR", "__REALTIME_TIMESTAMP", "__MONOTONIC_TIMESTAMP", "__SEQNUM",
      "__SEQNUM_ID", "_BOOT_ID"], IsKey key :=
    fun key h => ⟨(hkeys key h).1, (hkeys key h).2.1, (hkeys key h).2.2⟩
  intro f hf
  rw [exportHeader, List.mem_append] at hf
  rcases hf with hf | hf
  · simp only [List.mem_cons, List.not_mem_nil, or_false] at hf
    rcases hf with rfl | rfl | rfl | rfl | rfl
    · exact ⟨hkey _ (by simp), hline cursor hcursor⟩
    · exact ⟨hkey _ (by simp), hdecimal _⟩
    · exact ⟨hkey _ (by simp), hdecimal _⟩
    · exact ⟨hkey _ (by simp), hdecimal _⟩
    · exact ⟨hkey _ (by simp), by decide⟩
  · obtain ⟨s, hs, rfl⟩ := List.mem_map.mp hf
    exact ⟨hkey _ (by simp), hline s (hboot s (Option.mem_toList.mp hs))⟩

theorem foldl_exportHeader (e : JournalEntry) (cursor : String) :
    (exportHeader e cursor).foldl (fun e f => addText e f.1 f.2) emptyEntry =
      headerEntry e cursor := by
  have hbytes : ∀ n : UInt64, fromUtf8 (decimalBytes n.toNat) =
      some (String.ofList (decimal n.toNat)) := fun n => fromUtf8_asBytes _
  have hother : ∀ (entry : JournalEntry) (key : String) (value : Bytes),
      key ≠ "__CURSOR" → key ≠ "__REALTIME_TIMESTAMP" → key ≠ "__MONOTONIC_TIMESTAMP" →
      addText entry key value = { entry with fields := entry.fields.insert key value } :=
    fun entry key value h₁ h₂ h₃ => by rw [addText, if_neg h₁, if_neg h₂, if_neg h₃]
  have hreal : ∀ entry : JournalEntry,
      addText entry "__REALTIME_TIMESTAMP" (decimalBytes e.realtimeUsec.toNat) =
        { entry with realtimeUsec := e.realtimeUsec } := fun entry => by
    rw [addText, if_neg (by decide), if_pos rfl, hbytes]
    dsimp only
    rw [parseUsec_decimal]
  have hmono : ∀ entry : JournalEntry,
      addText entry "__MONOTONIC_TIMESTAMP" (decimalBytes e.monotonicUsec.toNat) =
        { entry with monotonicUsec := e.monotonicUsec } := fun entry => by
    rw [addText, if_neg (by decide), if_neg (by decide), if_pos rfl, hbytes]
    dsimp only
    rw [parseUsec_decimal]
  have hcursor : ∀ entry : JournalEntry, addText entry "__CURSOR" (asBytes cursor) =
      { entry with fields := entry.fields.insert "__CURSOR" (asBytes cursor) } :=
    fun entry => if_pos rfl
  rw [exportHeader, List.foldl_append]
  simp only [List.foldl_cons, List.foldl_nil]
  rw [hcursor, hreal, hmono, hother _ "__SEQNUM" _ (by decide) (by decide) (by decide),
    hother _ "__SEQNUM_ID" _ (by decide) (by decide) (by decide)]
  cases hboot : Cursor.JournalEntry.bootId e with
  | none => rw [headerEntry, hboot]; rfl
  | some s =>
    rw [headerEntry, hboot]
    exact hother _ "_BOOT_ID" _ (by decide) (by decide) (by decide)

/-! ## Entries -/

/-- An entry that the format can carry: its fields have keys that are no address fields and
    values up to the reader's limit, and its `_BOOT_ID` is a line of text. -/
structure Exportable (e : JournalEntry) : Prop where
  isField : ∀ f ∈ e.fields.pairs, IsField f
  bootId : ∀ v, e.fields.get? "_BOOT_ID" = some v → ∃ s : String, v = asBytes s ∧ '\n' ∉ s.toList

/-- The entry as it is read back: with the metadata among its fields, and the sequence number
    there only. -/
def exported (e : JournalEntry) (cursor : String) : JournalEntry :=
  { e with fields := withMetadata e.fields e cursor, seqnum := 0 }

theorem bootId_of_exportable {e : JournalEntry} (h : Exportable e) {s : String}
    (hs : Cursor.JournalEntry.bootId e = some s) :
    ("_BOOT_ID", asBytes s) ∈ e.fields.pairs ∧ '\n' ∉ s.toList := by
  obtain ⟨v, hv, heq⟩ := Option.map_eq_some_iff.mp hs
  obtain ⟨t, rfl, ht⟩ := h.bootId v hv
  rw [fromUtf8Lossy_asBytes] at heq
  subst heq
  exact ⟨SortedMap.mem_of_get? hv, ht⟩

theorem metadata_pairwise (e : JournalEntry) (cursor : String) :
    (metadata e cursor).Pairwise fun a b => a.1 ≠ b.1 := by
  have hkeys : ["__CURSOR", "__SEQNUM", "__SEQNUM_ID"].Pairwise (· ≠ ·) := by decide
  exact (List.pairwise_map (f := Prod.fst)).mp hkeys

theorem metadata_address {e : JournalEntry} {cursor : String} {f : String × Bytes}
    (h : f ∈ metadata e cursor) : "__".toList <+: f.1.toList := by
  have hkeys : ∀ key ∈ ["__CURSOR", "__SEQNUM", "__SEQNUM_ID"], "__".toList <+: key.toList := by
    decide
  exact hkeys f.1 (List.mem_map_of_mem (f := Prod.fst) h)

/-- The fields of the entry that is read back: those of the entry, and the metadata. -/
theorem mem_exported {e : JournalEntry} (h : Exportable e) (cursor : String)
    (f : String × Bytes) :
    f ∈ (exported e cursor).fields.pairs ↔ f ∈ e.fields.pairs ∨ f ∈ metadata e cursor := by
  have hmem := SortedMap.mem_foldl_insert (m := e.fields) (p := f) (metadata_pairwise e cursor)
  have hnot : f ∈ e.fields.pairs → ∀ g ∈ metadata e cursor, f.1 ≠ g.1 := fun hf g hg heq =>
    (h.isField f hf).not_address (heq ▸ metadata_address hg)
  rw [exported, withMetadata]
  dsimp only
  rw [hmem]
  constructor
  · rintro (hf | ⟨hf, -⟩)
    · exact Or.inr hf
    · exact Or.inl hf
  · rintro (hf | hf)
    · exact Or.inr ⟨hf, hnot hf⟩
    · exact Or.inl hf

/-- The fields that the header leaves behind: the metadata, and the `_BOOT_ID`. -/
theorem mem_headerEntry {e : JournalEntry} (h : Exportable e) (cursor : String)
    (f : String × Bytes) :
    f ∈ (headerEntry e cursor).fields.pairs ↔
      f ∈ metadata e cursor ∨ (f ∈ e.fields.pairs ∧ f.1 = "_BOOT_ID") := by
  have hmeta : f ∈ (withMetadata SortedMap.empty e cursor).pairs ↔ f ∈ metadata e cursor := by
    rw [withMetadata, SortedMap.mem_foldl_insert (metadata_pairwise e cursor)]
    exact or_iff_left fun hf => absurd hf.1 List.not_mem_nil
  cases hboot : Cursor.JournalEntry.bootId e with
  | none =>
    have hnone := SortedMap.notMem_of_get?_eq_none (Option.map_eq_none_iff.mp hboot)
    rw [headerEntry, hboot]
    refine hmeta.trans (or_iff_left fun hf => ?_).symm
    exact hnone f.2 (hf.2 ▸ hf.1)
  | some s =>
    obtain ⟨hmem, -⟩ := bootId_of_exportable h hboot
    have hkeys : "_BOOT_ID" ∉ ["__CURSOR", "__SEQNUM", "__SEQNUM_ID"] := by decide
    rw [headerEntry, hboot]
    show f ∈ ((withMetadata SortedMap.empty e cursor).insert "_BOOT_ID" (asBytes s)).pairs ↔ _
    rw [SortedMap.mem_insert_iff, hmeta]
    constructor
    · rintro (rfl | ⟨hf, -⟩)
      · exact Or.inr ⟨hmem, rfl⟩
      · exact Or.inl hf
    · rintro (hf | ⟨hf, hkey⟩)
      · exact Or.inr ⟨hf, fun heq => hkeys (heq ▸ List.mem_map_of_mem (f := Prod.fst) hf)⟩
      · obtain ⟨key, value⟩ := f
        subst hkey
        exact Or.inl (by rw [SortedMap.eq_of_mem hf hmem])

/-- The header and the fields behind it make up the entry. -/
theorem foldl_exportFields {e : JournalEntry} (h : Exportable e) (cursor : String) :
    (exportFields e).foldl (fun m p => m.insert p.1 p.2) (headerEntry e cursor).fields =
      (exported e cursor).fields := by
  have hdiff : (exportFields e).Pairwise fun a b => a.1 ≠ b.1 :=
    (e.fields.sorted.filter _).imp fun hlt => ne_of_lt hlt
  have hexport : ∀ f, f ∈ exportFields e ↔ f ∈ e.fields.pairs ∧ f.1 ≠ "_BOOT_ID" := fun f => by
    rw [exportFields, List.mem_filter, decide_eq_true_eq]
  apply SortedMap.ext_mem
  intro f
  rw [SortedMap.mem_foldl_insert hdiff, mem_exported h, hexport, mem_headerEntry h]
  constructor
  · rintro (⟨hf, -⟩ | ⟨hf | ⟨hf, -⟩, -⟩)
    · exact Or.inl hf
    · exact Or.inr hf
    · exact Or.inl hf
  · rintro (hf | hf)
    · by_cases hkey : f.1 = "_BOOT_ID"
      · refine Or.inr ⟨Or.inr ⟨hf, hkey⟩, fun q hq heq => ?_⟩
        exact ((hexport q).mp hq).2 (heq ▸ hkey)
      · exact Or.inl ⟨hf, hkey⟩
    · refine Or.inr ⟨Or.inl hf, fun q hq heq => ?_⟩
      exact (h.isField q ((hexport q).mp hq).1).not_address (heq ▸ metadata_address hf)

/-- Some turns of the loop read an entry in front of any other bytes. -/
theorem exportLoop_toExportFormat {e : JournalEntry} (h : Exportable e) {cursor : String}
    (hcursor : '\n' ∉ cursor.toList) :
    exportLoop (fuel + 1 + (exportFields e).length + (exportHeader e cursor).length) emptyEntry
        false (toExportFormat e cursor ++ rest) = (.ok (some (exported e cursor)), rest) := by
  have hheader := isKey_of_mem_exportHeader (e := e) hcursor
    fun s hs => (bootId_of_exportable h hs).2
  have hfields : ∀ f ∈ exportFields e, IsField f :=
    fun f hf => h.isField f (List.mem_of_mem_filter hf)
  have hgot : (false || !(exportHeader e cursor).isEmpty) = true := rfl
  have hsplit : toExportFormat e cursor ++ rest =
      (exportHeader e cursor).flatMap (fun f => textField f.1 f.2) ++
        ((exportFields e).flatMap exportField ++ 0x0A :: rest) := by
    rw [toExportFormat]
    simp
  rw [hsplit, exportLoop_textFields hheader, hgot, foldl_exportHeader,
    exportLoop_exportFields hfields, foldl_exportFields h, exportLoop_blank]
  rfl

theorem length_le_flatMap {α : Type*} {f : α → Bytes} (hf : ∀ a, f a ≠ []) (as : List α) :
    as.length ≤ (as.flatMap f).length := by
  induction as with
  | nil => exact Nat.le_refl 0
  | cons a as ih =>
    have ha := List.length_pos_iff.mpr (hf a)
    rw [List.flatMap_cons, List.length_append, List.length_cons]
    omega

/-- An entry is read back in front of any other bytes. -/
theorem fromExportFormat_toExportFormat {e : JournalEntry} (h : Exportable e) {cursor : String}
    (hcursor : '\n' ∉ cursor.toList) (rest : Bytes) :
    fromExportFormat (toExportFormat e cursor ++ rest) =
      (.ok (some (exported e cursor)), rest) := by
  have htext : ∀ f : String × Bytes, textField f.1 f.2 ≠ [] := fun f => by simp [textField]
  have hfield : ∀ f, exportField f ≠ [] := fun f => by
    unfold exportField
    split
    · exact htext f
    · simp [binaryField]
  have hlen : (exportFields e).length + (exportHeader e cursor).length + 1 ≤
      (toExportFormat e cursor ++ rest).length := by
    have h₁ := length_le_flatMap htext (exportHeader e cursor)
    have h₂ := length_le_flatMap hfield (exportFields e)
    rw [toExportFormat]
    simp only [List.length_append, List.length_singleton]
    omega
  obtain ⟨fuel, hfuel⟩ := Nat.exists_eq_add_of_le hlen
  have hturns : (toExportFormat e cursor ++ rest).length + 1 =
      fuel + 1 + 1 + (exportFields e).length + (exportHeader e cursor).length := by omega
  rw [fromExportFormat, hturns]
  exact exportLoop_toExportFormat h hcursor

theorem parseLoop_toExportFormat {es : List (JournalEntry × String)}
    (h : ∀ p ∈ es, Exportable p.1 ∧ '\n' ∉ p.2.toList) :
    parseLoop (fuel + 1 + es.length) (es.flatMap fun p => toExportFormat p.1 p.2) =
      .ok (es.map fun p => exported p.1 p.2) := by
  induction es with
  | nil => rfl
  | cons p es ih =>
    obtain ⟨he, hcursor⟩ := h p List.mem_cons_self
    rw [List.flatMap_cons, List.length_cons, ← Nat.add_assoc, parseLoop,
      fromExportFormat_toExportFormat he hcursor]
    dsimp only
    rw [ih fun q hq => h q (List.mem_cons_of_mem p hq)]
    rfl

/-- The entries that were written are read back in their order: with the same timestamps and
    fields, and the metadata of the writer among the fields. -/
theorem parseExportEntries_toExportFormat {es : List (JournalEntry × String)}
    (h : ∀ p ∈ es, Exportable p.1 ∧ '\n' ∉ p.2.toList) :
    parseExportEntries (es.flatMap fun p => toExportFormat p.1 p.2) =
      .ok (es.map fun p => exported p.1 p.2) := by
  have hne : ∀ p : JournalEntry × String, toExportFormat p.1 p.2 ≠ [] := fun p => by
    simp [toExportFormat]
  obtain ⟨fuel, hfuel⟩ := Nat.exists_eq_add_of_le (length_le_flatMap hne es)
  have hturns : (es.flatMap fun p => toExportFormat p.1 p.2).length + 1 =
      fuel + 1 + es.length := by omega
  rw [parseExportEntries, hturns]
  exact parseLoop_toExportFormat h

/-- An entry whose message looks like the end of an entry and a line of metadata. -/
def forgedEntry : JournalEntry :=
  { fields := (SortedMap.empty.insert "MESSAGE" "a\n\n__CURSOR=b\n".toUTF8.toList).insert
      "_BOOT_ID" (asBytes "c")
    realtimeUsec := 5
    monotonicUsec := 3
    seqnum := 1 }

theorem forgedEntry_exportable : Exportable forgedEntry where
  isField := by
    intro f hf
    have hmem : f ∈ [("MESSAGE", "a\n\n__CURSOR=b\n".toUTF8.toList), ("_BOOT_ID", asBytes "c")] :=
      hf
    have hkeys : ∀ key ∈ ["MESSAGE", "_BOOT_ID"], (key ≠ "" ∧ '=' ∉ key.toList ∧
        '\n' ∉ key.toList) ∧ ¬ "__".toList <+: key.toList := by decide
    have hlen : ∀ value ∈ ["a\n\n__CURSOR=b\n".toUTF8.toList, asBytes "c"],
        value.length ≤ maxBinaryLen := by decide +kernel
    obtain ⟨⟨h₁, h₂, h₃⟩, h₄⟩ := hkeys f.1 (List.mem_map_of_mem (f := Prod.fst) hmem)
    exact ⟨⟨h₁, h₂, h₃⟩, h₄, hlen f.2 (List.mem_map_of_mem (f := Prod.snd) hmem)⟩
  bootId := by
    intro v hv
    have hget : forgedEntry.fields.get? "_BOOT_ID" = some (asBytes "c") := by rfl
    exact ⟨"c", (Option.some.inj (hget.symm.trans hv)).symm, by decide⟩

theorem parseExportEntries_toExportFormat_forged :
    parseExportEntries (toExportFormat forgedEntry "x" ++ toExportFormat forgedEntry "y") =
      .ok [exported forgedEntry "x", exported forgedEntry "y"] := by
  have hes : ∀ p ∈ [(forgedEntry, "x"), (forgedEntry, "y")], Exportable p.1 ∧ '\n' ∉ p.2.toList :=
    fun p hp => by
      simp only [List.mem_cons, List.not_mem_nil, or_false] at hp
      rcases hp with rfl | rfl
      · exact ⟨forgedEntry_exportable, by decide⟩
      · exact ⟨forgedEntry_exportable, by decide⟩
  have h := parseExportEntries_toExportFormat hes
  simpa using h

end OxidizedSystemd.Journal
