import OxidizedSystemd.Hwdb.Fnmatch
import OxidizedSystemd.Lib.BinarySearch
import OxidizedSystemd.Lib.Faults
import OxidizedSystemd.Lib.SortedMap
import OxidizedSystemd.Lib.Utf8

/-!
# The hardware database

Model of the reader of `hwdb.bin` (`libsystemd/src/hwdb.rs`, lines 43–272 and 420–487). A sum or a
product that a `usize` cannot hold is a fault.

* `fromBytes_ok`: an accepted database has the header that its first 80 bytes are.
* `TrieNode.read_ok`, `readChildren_ok`, `collectValues_ok`: what is read where the offsets fit.
* `safe_read`, `safe_readChildren`, `safe_collectValues`: when they do.
-/

namespace OxidizedSystemd.Hwdb

open Lib

/-! ## Numbers and strings -/

/-- `data.get(a..b)`. -/
def getRange (data : Bytes) (a b : ℕ) : Option Bytes :=
  if a ≤ b ∧ b ≤ data.length then some ((data.drop a).take (b - a)) else none

/-- `read_u8`. -/
def readU8 (data : Bytes) (off : ℕ) : Option UInt8 := data[off]?

/-- `read_u64_le`. -/
def readU64Le (data : Bytes) (off : ℕ) : Faulty (Option ℕ) := do
  let stop ← add true off 8
  return (getRange data off stop).map ofLe

/-- `read_cstr`. -/
def readCstr (data : Bytes) (off : ℕ) : Option String :=
  if data.length ≤ off then none
  else ((data.drop off).findIdx? (· = 0)).bind fun nul => fromUtf8 ((data.drop off).take nul)

/-! ## The header -/

/-- `HWDB_SIG`. -/
def hwdbSig : Bytes := [0x4B, 0x53, 0x4C, 0x50, 0x48, 0x48, 0x52, 0x48]

/-- `MIN_FILE_SIZE`. -/
def minFileSize : ℕ := 80

/-- `HwdbHeader`. -/
structure HwdbHeader where
  toolVersion : ℕ
  fileSize : ℕ
  headerSize : ℕ
  nodeSize : ℕ
  childEntrySize : ℕ
  valueEntrySize : ℕ
  nodesRootOff : ℕ
  nodesLen : ℕ
  stringsLen : ℕ
  deriving DecidableEq

/-- `HwdbHeader::parse`. -/
def HwdbHeader.parse (data : Bytes) : Faulty (Option HwdbHeader) := do
  if data.length < minFileSize then return none
  if data.take 8 ≠ hwdbSig then return none
  let some toolVersion ← readU64Le data 8 | return none
  let some fileSize ← readU64Le data 16 | return none
  let some headerSize ← readU64Le data 24 | return none
  let some nodeSize ← readU64Le data 32 | return none
  let some childEntrySize ← readU64Le data 40 | return none
  let some valueEntrySize ← readU64Le data 48 | return none
  let some nodesRootOff ← readU64Le data 56 | return none
  let some nodesLen ← readU64Le data 64 | return none
  let some stringsLen ← readU64Le data 72 | return none
  return some
    { toolVersion, fileSize, headerSize, nodeSize, childEntrySize, valueEntrySize, nodesRootOff,
      nodesLen, stringsLen }

end OxidizedSystemd.Hwdb

/-- `Hwdb`: the bytes of a file, which no vector has more of than `isize::MAX`. -/
structure OxidizedSystemd.Hwdb where
  data : OxidizedSystemd.Lib.Bytes
  header : OxidizedSystemd.Hwdb.HwdbHeader
  length_lt : data.length < 2 ^ 63

namespace OxidizedSystemd.Hwdb

open Lib

/-- `Hwdb::from_bytes`, with the text of its error. -/
def fromBytes (data : Bytes) (length_lt : data.length < 2 ^ 63) :
    Faulty (Except String Hwdb) := do
  let some header ← HwdbHeader.parse data | return .error "invalid hwdb.bin header"
  if data.length ≠ header.fileSize then
    return .error ("hwdb.bin file size mismatch: header says " ++ toString header.fileSize ++
      " but file is " ++ toString data.length ++ " bytes")
  return .ok ⟨data, header, length_lt⟩

/-! ## Nodes -/

/-- `TrieNode`. -/
structure TrieNode where
  prefixOff : ℕ
  childrenCount : UInt8
  valuesCount : ℕ
  deriving DecidableEq

/-- `TrieNode::read`. -/
def TrieNode.read (data : Bytes) (off : ℕ) : Faulty (Option TrieNode) := do
  let stop ← add true off 24
  if data.length < stop then return none
  let some prefixOff ← readU64Le data off | return none
  let some childrenCount := readU8 data (← add true off 8) | return none
  let some valuesCount ← readU64Le data (← add true off 16) | return none
  return some { prefixOff, childrenCount, valuesCount }

/-- `ChildEntry`. -/
structure ChildEntry where
  c : UInt8
  childOff : ℕ
  deriving DecidableEq

/-- `ValueEntry`. -/
structure ValueEntry where
  keyOff : ℕ
  valueOff : ℕ
  deriving DecidableEq

/-- `read_child_entry`. -/
def readChildEntry (data : Bytes) (off : ℕ) : Faulty (Option ChildEntry) := do
  let some c := readU8 data off | return none
  let some childOff ← readU64Le data (← add true off 8) | return none
  return some { c, childOff }

/-- `read_value_entry`. -/
def readValueEntry (data : Bytes) (off : ℕ) : Faulty (Option ValueEntry) := do
  let some keyOff ← readU64Le data off | return none
  let some valueOff ← readU64Le data (← add true off 8) | return none
  return some { keyOff, valueOff }

/-- `read_children`. -/
def readChildren (db : Hwdb) (nodeOff : ℕ) (node : TrieNode) : Faulty (List ChildEntry) := do
  let base ← add true nodeOff db.header.nodeSize
  (List.range node.childrenCount.toNat).foldlM (fun out i => do
    let off ← add true base (← mul true i db.header.childEntrySize)
    match ← readChildEntry db.data off with
    | some ce => return out ++ [ce]
    | none => return out) []

/-- `child_lookup`. -/
def childLookup (db : Hwdb) (nodeOff : ℕ) (node : TrieNode) (c : UInt8) :
    Faulty (Option ChildEntry) := do
  let children ← db.readChildren nodeOff node
  return (binarySearchByKey (fun e => e.c.toNat) c.toNat children).bind fun idx => children[idx]?

/-- `strip_prefix(' ')`. -/
def stripSpace (s : String) : Option String :=
  match s.toList with
  | ' ' :: rest => some (String.ofList rest)
  | _ => none

/-- The property of a value entry, if its key begins with a space (lines 439–444). -/
def property (db : Hwdb) (ve : ValueEntry) : Option (String × String) := do
  let rawKey ← readCstr db.data ve.keyOff
  let key ← stripSpace rawKey
  let val ← readCstr db.data ve.valueOff
  return (key, val)

/-- `collect_values`. The properties are listed in the order in which they are inserted. -/
def collectValues (db : Hwdb) (nodeOff : ℕ) (node : TrieNode)
    (props : List (String × String)) : Faulty (List (String × String)) := do
  let valuesBase ← add true (← add true nodeOff db.header.nodeSize)
    (← mul true node.childrenCount.toNat db.header.childEntrySize)
  (List.range node.valuesCount).foldlM (fun props vi => do
    let voff ← add true valuesBase (← mul true vi db.header.valueEntrySize)
    match ← readValueEntry db.data voff with
    | some ve => return props ++ (db.property ve).toList
    | none => return props) props

/-! ## What is read -/

section Read

/-- The number at an offset. -/
def u64At (data : Bytes) (off : ℕ) : Option ℕ := (getRange data off (off + 8)).map ofLe

/-- The node at an offset. -/
def nodeAt (data : Bytes) (off : ℕ) : Option TrieNode :=
  if data.length < off + 24 then none
  else do
    let prefixOff ← u64At data off
    let childrenCount ← readU8 data (off + 8)
    let valuesCount ← u64At data (off + 16)
    return { prefixOff, childrenCount, valuesCount }

/-- The child entry at an offset. -/
def childEntryAt (data : Bytes) (off : ℕ) : Option ChildEntry := do
  let c ← readU8 data off
  let childOff ← u64At data (off + 8)
  return { c, childOff }

/-- The value entry at an offset. -/
def valueEntryAt (data : Bytes) (off : ℕ) : Option ValueEntry := do
  let keyOff ← u64At data off
  let valueOff ← u64At data (off + 8)
  return { keyOff, valueOff }

variable {data : Bytes} {off : ℕ}

theorem readU64Le_eq (h : off + 8 < 2 ^ 64) : readU64Le data off = .ok (u64At data off) := by
  rw [readU64Le, add_ok h, ok_bind]
  rfl

theorem safe_readU64Le : Safe (readU64Le data off) ↔ off + 8 < 2 ^ 64 := by
  rw [readU64Le, safe_bind, ← safe_add]
  exact exists_congr fun stop => and_iff_left (safe_pure _)

theorem TrieNode.read_eq (h : off + 24 < 2 ^ 64) :
    TrieNode.read data off = .ok (nodeAt data off) := by
  rw [TrieNode.read, add_ok h, ok_bind, nodeAt]
  split_ifs with hshort
  · rfl
  · rw [readU64Le_eq (by omega), ok_bind]
    cases u64At data off with
    | none => rfl
    | some prefixOff =>
      dsimp only
      rw [add_ok (by omega), ok_bind]
      cases readU8 data (off + 8) with
      | none => rfl
      | some childrenCount =>
        dsimp only
        rw [add_ok (by omega), ok_bind, readU64Le_eq (by omega), ok_bind]
        cases u64At data (off + 16) with
        | none => rfl
        | some valuesCount => rfl

theorem TrieNode.safe_read : Safe (TrieNode.read data off) ↔ off + 24 < 2 ^ 64 := by
  constructor
  · intro h
    obtain ⟨stop, hstop, -⟩ := safe_bind.mp h
    exact safe_add.mp ⟨stop, hstop⟩
  · intro h
    rw [TrieNode.read_eq h]
    exact safe_ok _

theorem TrieNode.safe_read_bind {α : Type} {k : Option TrieNode → Faulty α} :
    Safe (TrieNode.read data off >>= k) ↔ off + 24 < 2 ^ 64 ∧ Safe (k (nodeAt data off)) := by
  by_cases h : off + 24 < 2 ^ 64
  · rw [TrieNode.read_eq h, ok_bind]
    exact (and_iff_right h).symm
  · exact iff_of_false (not_safe_bind k fun hsafe => h (TrieNode.safe_read.mp hsafe)) fun hk =>
      h hk.1

/-- A byte that is there has no offset near the end of the words. -/
theorem readChildEntry_eq (hlen : data.length < 2 ^ 63) :
    readChildEntry data off = .ok (childEntryAt data off) := by
  unfold readChildEntry childEntryAt
  cases hc : readU8 data off with
  | none => rfl
  | some c =>
    have hoff := (List.getElem?_eq_some_iff.mp hc).1
    dsimp only
    rw [add_ok (by omega), ok_bind, readU64Le_eq (by omega), ok_bind]
    cases u64At data (off + 8) with
    | none => rfl
    | some childOff => rfl

/-- A string that stands in the data, with a NUL behind it. -/
theorem readCstr_eq {cs : List Char} (rest : Bytes)
    (h : data.drop off = cs.flatMap String.utf8EncodeChar ++ 0 :: rest)
    (hnul : 0 ∉ cs.flatMap String.utf8EncodeChar) :
    readCstr data off = some (String.ofList cs) := by
  have hlt : off < data.length := by
    by_contra hge
    rw [List.drop_eq_nil_of_le (Nat.not_lt.mp hge)] at h
    exact absurd h.symm (List.append_ne_nil_of_right_ne_nil _ (List.cons_ne_nil _ _))
  have hnone : (cs.flatMap String.utf8EncodeChar).findIdx? (· = 0) = none := by
    rw [List.findIdx?_eq_none_iff]
    intro b hb
    exact decide_eq_false fun heq => hnul (heq ▸ hb)
  have hfind : (data.drop off).findIdx? (· = 0) =
      some (cs.flatMap String.utf8EncodeChar).length := by
    rw [h, List.findIdx?_append, hnone, Option.none_or, List.findIdx?_cons, if_pos (by rfl),
      Option.map_some, Nat.zero_add]
  rw [readCstr, if_neg (Nat.not_le.mpr hlt), hfind, Option.bind_some, h, List.take_left,
    ← asBytes_ofList, fromUtf8_asBytes]

theorem u64At_bound {n : ℕ} (h : u64At data off = some n) : off + 8 ≤ data.length := by
  obtain ⟨bytes, hbytes, -⟩ := Option.map_eq_some_iff.mp h
  unfold getRange at hbytes
  split_ifs at hbytes with hrange
  exact hrange.2

theorem readValueEntry_eq (hlen : data.length < 2 ^ 63) (h : off + 8 < 2 ^ 64) :
    readValueEntry data off = .ok (valueEntryAt data off) := by
  unfold readValueEntry valueEntryAt
  rw [readU64Le_eq h, ok_bind]
  cases hkey : u64At data off with
  | none => rfl
  | some keyOff =>
    have hoff := u64At_bound hkey
    dsimp only
    rw [add_ok h, ok_bind, readU64Le_eq (by omega), ok_bind]
    cases u64At data (off + 8) with
    | none => rfl
    | some valueOff => rfl

theorem safe_readValueEntry (hlen : data.length < 2 ^ 63) :
    Safe (readValueEntry data off) ↔ off + 8 < 2 ^ 64 := by
  constructor
  · intro h
    obtain ⟨keyOff, hkey, -⟩ := safe_bind.mp h
    exact safe_readU64Le.mp ⟨keyOff, hkey⟩
  · intro h
    rw [readValueEntry_eq hlen h]
    exact safe_ok _

end Read

/-! ## Accepted files -/

section Accepted

variable {data : Bytes}

/-- The header that the first 80 bytes are. -/
def headerAt (data : Bytes) : HwdbHeader where
  toolVersion := leAt data 8 8
  fileSize := leAt data 16 8
  headerSize := leAt data 24 8
  nodeSize := leAt data 32 8
  childEntrySize := leAt data 40 8
  valueEntrySize := leAt data 48 8
  nodesRootOff := leAt data 56 8
  nodesLen := leAt data 64 8
  stringsLen := leAt data 72 8

theorem u64At_eq {off : ℕ} (h : off + 8 ≤ data.length) :
    u64At data off = some (leAt data off 8) := by
  rw [u64At, getRange, if_pos ⟨Nat.le_add_right off 8, h⟩, Nat.add_sub_cancel_left]
  rfl

theorem HwdbHeader.parse_eq (hlen : minFileSize ≤ data.length) (hsig : data.take 8 = hwdbSig)
    (hmax : data.length < 2 ^ 63) : HwdbHeader.parse data = .ok (some (headerAt data)) := by
  have hlen' : 80 ≤ data.length := hlen
  have hread : ∀ off ≤ 72, readU64Le data off = .ok (some (leAt data off 8)) := fun off hoff => by
    rw [readU64Le_eq (by omega), u64At_eq (by omega)]
  unfold HwdbHeader.parse
  rw [if_neg (Nat.not_lt.mpr hlen), if_neg (not_not_intro hsig)]
  simp (disch := decide) only [hread, ok_bind]
  rfl

theorem HwdbHeader.parse_eq_none (h : data.length < minFileSize ∨ data.take 8 ≠ hwdbSig) :
    HwdbHeader.parse data = .ok none := by
  unfold HwdbHeader.parse
  by_cases hshort : data.length < minFileSize
  · rw [if_pos hshort]
    rfl
  · rw [if_neg hshort, if_pos (h.resolve_left hshort)]
    rfl

/-- A file is accepted when it is as long as its header says. -/
theorem fromBytes_ok_iff {hmax : data.length < 2 ^ 63} {db : Hwdb} :
    fromBytes data hmax = .ok (.ok db) ↔ minFileSize ≤ data.length ∧ data.take 8 = hwdbSig ∧
      data.length = leAt data 16 8 ∧ db = ⟨data, headerAt data, hmax⟩ := by
  unfold fromBytes
  by_cases hlen : minFileSize ≤ data.length
  · by_cases hsig : data.take 8 = hwdbSig
    · rw [HwdbHeader.parse_eq hlen hsig hmax, ok_bind]
      dsimp only
      split_ifs with hsize
      · refine iff_of_false (fun h => by cases h) fun h => hsize h.2.2.1
      · rw [ne_eq, not_not] at hsize
        constructor
        · intro h
          cases h
          exact ⟨hlen, hsig, hsize, rfl⟩
        · rintro ⟨-, -, -, rfl⟩
          rfl
    · rw [HwdbHeader.parse_eq_none (.inr hsig), ok_bind]
      exact iff_of_false (fun h => by cases h) fun h => hsig h.2.1
  · rw [HwdbHeader.parse_eq_none (.inl (Nat.not_le.mp hlen)), ok_bind]
    exact iff_of_false (fun h => by cases h) fun h => hlen h.1

end Accepted

/-! ## The entries of a node -/

section Entries

variable (db : Hwdb) (off : ℕ) (node : TrieNode)

/-- Where child entry `i` is. -/
def childOffset (i : ℕ) : ℕ := off + db.header.nodeSize + i * db.header.childEntrySize

/-- Where value entry `vi` is. -/
def valueOffset (vi : ℕ) : ℕ :=
  db.childOffset off node.childrenCount.toNat + vi * db.header.valueEntrySize

/-- The offsets of the child entries fit. -/
structure ChildrenFit : Prop where
  base : off + db.header.nodeSize < 2 ^ 64
  child : ∀ i < node.childrenCount.toNat, db.childOffset off i < 2 ^ 64

/-- The offsets of the value entries, and of the values in them, fit. -/
structure ValuesFit : Prop where
  base : db.childOffset off node.childrenCount.toNat < 2 ^ 64
  value : ∀ vi < node.valuesCount, db.valueOffset off node vi + 8 < 2 ^ 64

/-- The child entries of a node. -/
def childrenAt : List ChildEntry :=
  (List.range node.childrenCount.toNat).filterMap fun i =>
    childEntryAt db.data (db.childOffset off i)

/-- The properties of a node, by the place of their entries. -/
def valuesAt : List (String × String) :=
  (List.range node.valuesCount).filterMap fun vi =>
    (valueEntryAt db.data (db.valueOffset off node vi)).bind db.property

variable {db off node}

theorem readChildren_eq (h : db.ChildrenFit off node) :
    db.readChildren off node = .ok (db.childrenAt off node) := by
  rw [readChildren, add_ok h.base, ok_bind, foldlM_filterMap
    (g := fun i => childEntryAt db.data (db.childOffset off i))]
  · rfl
  · intro i hi out
    have hfit := h.child i (List.mem_range.mp hi)
    unfold childOffset at hfit ⊢
    rw [mul_ok (by omega), ok_bind, add_ok hfit, ok_bind, readChildEntry_eq db.length_lt, ok_bind]
    cases childEntryAt db.data (off + db.header.nodeSize + i * db.header.childEntrySize) with
    | none => exact congrArg Except.ok (List.append_nil out).symm
    | some ce => rfl

theorem safe_readChildren : Safe (db.readChildren off node) ↔ db.ChildrenFit off node := by
  constructor
  · intro h
    obtain ⟨base, hbase, h⟩ := safe_bind.mp h
    have hfits := safe_add.mp ⟨base, hbase⟩
    rw [add_ok hfits] at hbase
    cases hbase
    refine ⟨hfits, fun i hi => ?_⟩
    suffices hbody : ∀ i ∈ List.range node.childrenCount.toNat, db.childOffset off i < 2 ^ 64 from
      hbody i (List.mem_range.mpr hi)
    refine (safe_foldlM ?_ []).mp h
    · intro i hi out
      unfold childOffset
      constructor
      · intro hsafe
        obtain ⟨at', hat, hsafe⟩ := safe_bind.mp hsafe
        have hmul := safe_mul.mp ⟨at', hat⟩
        rw [mul_ok hmul] at hat
        cases hat
        obtain ⟨stop, hstop, -⟩ := safe_bind.mp hsafe
        exact safe_add.mp ⟨stop, hstop⟩
      · intro hfit
        rw [mul_ok (by omega), ok_bind, add_ok hfit, ok_bind, readChildEntry_eq db.length_lt,
          ok_bind]
        cases childEntryAt db.data (off + db.header.nodeSize + i * db.header.childEntrySize) with
        | none => exact safe_ok _
        | some ce => exact safe_ok _
  · intro h
    rw [readChildren_eq h]
    exact safe_ok _

theorem safe_readChildren_bind {α : Type} {k : List ChildEntry → Faulty α} :
    Safe (db.readChildren off node >>= k) ↔
      db.ChildrenFit off node ∧ Safe (k (db.childrenAt off node)) := by
  by_cases h : db.ChildrenFit off node
  · rw [readChildren_eq h, ok_bind]
    exact (and_iff_right h).symm
  · exact iff_of_false (not_safe_bind k fun hsafe => h (safe_readChildren.mp hsafe)) fun hk =>
      h hk.1

theorem collectValues_eq (h : db.ValuesFit off node) (props : List (String × String)) :
    db.collectValues off node props = .ok (props ++ db.valuesAt off node) := by
  have hbase := h.base
  unfold childOffset at hbase
  rw [collectValues, add_ok (by omega), ok_bind, mul_ok (by omega), ok_bind, add_ok hbase, ok_bind,
    foldlM_filterMap (g := fun vi =>
      (valueEntryAt db.data (db.valueOffset off node vi)).bind db.property)]
  · rfl
  · intro vi hvi out
    have hfit := h.value vi (List.mem_range.mp hvi)
    unfold valueOffset childOffset at hfit ⊢
    rw [mul_ok (by omega), ok_bind, add_ok (by omega), ok_bind,
      readValueEntry_eq db.length_lt hfit, ok_bind]
    cases valueEntryAt db.data _ with
    | none => exact congrArg Except.ok (List.append_nil out).symm
    | some ve => rfl

theorem safe_collectValues (props : List (String × String)) :
    Safe (db.collectValues off node props) ↔ db.ValuesFit off node := by
  constructor
  · intro h
    obtain ⟨base, hbase, h⟩ := safe_bind.mp h
    rw [add_ok (safe_add.mp ⟨base, hbase⟩)] at hbase
    cases hbase
    obtain ⟨size, hsize, h⟩ := safe_bind.mp h
    rw [mul_ok (safe_mul.mp ⟨size, hsize⟩)] at hsize
    cases hsize
    obtain ⟨valuesBase, hvalues, h⟩ := safe_bind.mp h
    have hfits := safe_add.mp ⟨valuesBase, hvalues⟩
    rw [add_ok hfits] at hvalues
    cases hvalues
    refine ⟨hfits, fun vi hvi => ?_⟩
    suffices hbody : ∀ vi ∈ List.range node.valuesCount,
        db.valueOffset off node vi + 8 < 2 ^ 64 from hbody vi (List.mem_range.mpr hvi)
    refine (safe_foldlM ?_ props).mp h
    · intro vi hvi out
      unfold valueOffset childOffset
      constructor
      · intro hsafe
        obtain ⟨at', hat, hsafe⟩ := safe_bind.mp hsafe
        rw [mul_ok (safe_mul.mp ⟨at', hat⟩)] at hat
        cases hat
        obtain ⟨voff, hvoff, hsafe⟩ := safe_bind.mp hsafe
        rw [add_ok (safe_add.mp ⟨voff, hvoff⟩)] at hvoff
        cases hvoff
        obtain ⟨ve, hve, -⟩ := safe_bind.mp hsafe
        exact (safe_readValueEntry db.length_lt).mp ⟨ve, hve⟩
      · intro hfit
        rw [mul_ok (by omega), ok_bind, add_ok (by omega), ok_bind,
          readValueEntry_eq db.length_lt hfit, ok_bind]
        cases valueEntryAt db.data _ with
        | none => exact safe_ok _
        | some ve => exact safe_ok _
  · intro h
    rw [collectValues_eq h]
    exact safe_ok _

/-! ## Children by their edge -/

/-- The child entries of a sorted node have different bytes. -/
def SortedChildren (db : Hwdb) (off : ℕ) (node : TrieNode) : Prop :=
  (db.childrenAt off node).Pairwise fun a b => a.c < b.c

theorem childLookup_eq (h : db.ChildrenFit off node) (c : UInt8) :
    db.childLookup off node c =
      .ok ((binarySearchByKey (fun e : ChildEntry => e.c.toNat) c.toNat
        (db.childrenAt off node)).bind fun idx => (db.childrenAt off node)[idx]?) := by
  rw [childLookup, readChildren_eq h, ok_bind]
  rfl

/-- What the search finds is a child with the byte. -/
theorem mem_of_childLookup (h : db.ChildrenFit off node) {c : UInt8} {child : ChildEntry}
    (hlookup : db.childLookup off node c = .ok (some child)) :
    child ∈ db.childrenAt off node ∧ child.c = c := by
  rw [childLookup_eq h] at hlookup
  obtain ⟨idx, hidx, hget⟩ := Option.bind_eq_some_iff.mp (Except.ok.inj hlookup)
  obtain ⟨found, hfound, hkey⟩ := binarySearchByKey_some hidx
  rw [hget] at hfound
  cases hfound
  exact ⟨List.mem_of_getElem? hget, UInt8.toNat_inj.mp hkey⟩

/-- In a sorted node the search finds every child. -/
theorem childLookup_of_mem (h : db.ChildrenFit off node) (hsorted : db.SortedChildren off node)
    {child : ChildEntry} (hmem : child ∈ db.childrenAt off node) :
    db.childLookup off node child.c = .ok (some child) := by
  have hle : (db.childrenAt off node).Pairwise fun a b => a.c.toNat ≤ b.c.toNat :=
    hsorted.imp fun h => Nat.le_of_lt (UInt8.lt_iff_toNat_lt.mp h)
  obtain ⟨idx, hidx⟩ := Option.isSome_iff_exists.mp (binarySearchByKey_isSome hle hmem rfl)
  obtain ⟨found, hfound, hkey⟩ := binarySearchByKey_some hidx
  rw [childLookup_eq h, hidx, Option.bind_some, hfound]
  congr 2
  by_contra hne
  have hdistinct : (db.childrenAt off node).Pairwise fun a b => a.c.toNat ≠ b.c.toNat :=
    hsorted.imp fun h => Nat.ne_of_lt (UInt8.lt_iff_toNat_lt.mp h)
  have : Std.Symm fun a b : ChildEntry => a.c.toNat ≠ b.c.toNat := ⟨fun _ _ h => h.symm⟩
  exact hdistinct.forall (List.mem_of_getElem? hfound) hmem hne hkey

end Entries

end OxidizedSystemd.Hwdb
