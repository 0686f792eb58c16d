import OxidizedSystemd.Journal.File
import OxidizedSystemd.Lib.Text
import Mathlib.Data.List.Sort

/-!
# Cursors

Model of the readers of a journal directory (`journal/storage.rs`, lines
1140–1222 and 1268–1339) and of `make_cursor` (lines 637–654). Entries are
listed by time; a cursor is compared by sequence number.

* `readAllFromDirectory`, `collect`: what a reader returns.
* `parseCursorSeqnum_makeCursor`: the sequence number in a cursor.
* `afterCursor_exact_iff`: when the entries after a cursor are those that follow
  its entry in the listing.
* `clock_step_loses_entry`: an entry that is skipped after the clock stepped back.
-/

namespace OxidizedSystemd.Journal.Cursor

open OxidizedSystemd.Lib

/-! ## Reading a directory -/

/-- A regular file of the directory. -/
structure DirFile where
  name : String
  contents : Bytes

/-- A journal file, also one that was not closed (lines 1278–1287). -/
def DirFile.isJournal (f : DirFile) : Bool :=
  hasExtension "journal" f.name || hasExtension "journal~" f.name

/-- The entries of one file: in the native format, else in the format of C systemd
    (lines 1291–1315). A file that is neither has none. -/
def readFile (readCJournal : Bytes → Except IoError (List JournalEntry)) (f : DirFile) :
    List JournalEntry :=
  match JournalFile.openFile f.contents false with
  | .ok _ => readAll f.contents
  | .error _ =>
    match readCJournal f.contents with
    | .ok entries => entries
    | .error _ => []

/-- The order of the listing (lines 1319–1323). -/
def entryLe (a b : JournalEntry) : Prop :=
  a.realtimeUsec < b.realtimeUsec ∨ a.realtimeUsec = b.realtimeUsec ∧ a.seqnum ≤ b.seqnum

instance : DecidableRel entryLe := fun a b =>
  inferInstanceAs (Decidable (a.realtimeUsec < b.realtimeUsec ∨
    a.realtimeUsec = b.realtimeUsec ∧ a.seqnum ≤ b.seqnum))

/-- The entries of all journal files, in the order of the file names (lines 1274–1316). -/
def storedEntries (readCJournal : Bytes → Except IoError (List JournalEntry))
    (dir : List DirFile) : List JournalEntry :=
  ((dir.filter DirFile.isJournal).insertionSort fun f g => f.name ≤ g.name).flatMap
    (readFile readCJournal)

/-- `read_all_from_directory` (lines 1273–1326). `sort_by` is a stable sort. -/
def readAllFromDirectory (readCJournal : Bytes → Except IoError (List JournalEntry))
    (dir : List DirFile) : List JournalEntry :=
  (storedEntries readCJournal dir).insertionSort entryLe

/-! ## Cursors -/

/-- `JournalEntry::boot_id` (`journal/entry.rs`, lines 172–174). -/
def JournalEntry.bootId (e : JournalEntry) : Option String :=
  (e.fields.get? "_BOOT_ID").map fromUtf8Lossy

/-- `make_cursor` (lines 637–654), with the id of the active file or 0. -/
def makeCursor (fileId : BitVec 128) (e : JournalEntry) : List Char :=
  "s=".toList ++ hexPad 32 fileId.toNat ++ (';' :: ("i=".toList ++ hex e.seqnum.toNat ++
    (';' :: ("b=".toList ++ ((JournalEntry.bootId e).getD "").toList ++
      (';' :: ("m=".toList ++ hex e.monotonicUsec.toNat ++
        (';' :: ("t=".toList ++ hex e.realtimeUsec.toNat ++
          (';' :: ("x=".toList ++ hex 0))))))))))

/-- `u64::MAX`. -/
def u64Max : ℕ := 2 ^ 64 - 1

/-- `parse_cursor_seqnum` (lines 1332–1339): the first part that is a sequence number. -/
def parseCursorSeqnum (cursor : List Char) : Option UInt64 :=
  match (cursor.splitOn ';').findSome? (stripPrefix "i=".toList) with
  | some digits => (fromStrRadix 16 u64Max (trim digits)).map UInt64.ofNat
  | none => none

/-! ## Readers -/

/-- `enum SeekPosition` (lines 1047–1062). -/
inductive SeekPosition
  | head
  | tail
  | cursor (cursor : List Char)
  | afterCursor (cursor : List Char)
  | realtimeTimestamp (ts : UInt64)
  | seqNum (seq : UInt64)

/-- `apply_seek` (lines 1196–1221). -/
def applySeek (entries : List JournalEntry) : SeekPosition → List JournalEntry
  | .head => entries
  | .tail => entries
  | .cursor cursor =>
    match parseCursorSeqnum cursor with
    | some target => entries.filter fun e => e.seqnum ≥ target
    | none => entries
  | .afterCursor cursor =>
    match parseCursorSeqnum cursor with
    | some target => entries.filter fun e => e.seqnum > target
    | none => entries
  | .realtimeTimestamp ts => entries.filter fun e => e.realtimeUsec ≥ ts
  | .seqNum seq => entries.filter fun e => e.seqnum ≥ seq

/-- `JournalReader::collect` (lines 1144–1162); a filter is the predicate it stands for. -/
def collect (readCJournal : Bytes → Except IoError (List JournalEntry)) (dir : List DirFile)
    (filters : List (JournalEntry → Bool)) (seek : SeekPosition) : List JournalEntry :=
  let entries := applySeek (readAllFromDirectory readCJournal dir) seek
  let entries := if filters.isEmpty then entries else entries.filter fun e => filters.all (· e)
  match seek with
  | .tail => entries.reverse
  | _ => entries

/-! ## The sequence number of a cursor -/

theorem notMem_hex (n : ℕ) : ';' ∉ hex n := by
  intro h
  obtain ⟨d, hd, hc⟩ := mem_toDigits (by decide) h
  revert hc
  revert d
  decide

theorem notMem_hexPad (width n : ℕ) : ';' ∉ hexPad width n := by
  intro h
  rcases List.mem_append.mp h with h | h
  · exact absurd (List.eq_of_mem_replicate h) (by decide)
  · exact notMem_hex n h

theorem parseCursorSeqnum_makeCursor (fileId : BitVec 128) (e : JournalEntry) :
    parseCursorSeqnum (makeCursor fileId e) = some e.seqnum := by
  have hfile : ';' ∉ "s=".toList ++ hexPad 32 fileId.toNat := by
    rw [List.mem_append, not_or]
    exact ⟨by decide, notMem_hexPad _ _⟩
  have hseq : ';' ∉ "i=".toList ++ hex e.seqnum.toNat := by
    rw [List.mem_append, not_or]
    exact ⟨by decide, notMem_hex _⟩
  have hskip : stripPrefix "i=".toList ("s=".toList ++ hexPad 32 fileId.toNat) = none := rfl
  have hfound : stripPrefix "i=".toList ("i=".toList ++ hex e.seqnum.toNat) =
      some (hex e.seqnum.toNat) := rfl
  have hmax : e.seqnum.toNat ≤ u64Max := Nat.le_pred_of_lt e.seqnum.toNat_lt
  unfold parseCursorSeqnum makeCursor
  rw [List.splitOn_append_cons_self_of_not_mem hfile, List.splitOn_append_cons_self_of_not_mem hseq,
    List.findSome?_cons, hskip]
  dsimp only
  rw [List.findSome?_cons, hfound]
  dsimp only
  rw [fromStrRadix_hex hmax, Option.map_some, UInt64.ofNat_toNat]

/-! ## Entries after a cursor -/

/-- What is above each member of a list is what follows it exactly if the list increases. -/
theorem filter_eq_drop_iff (l : List JournalEntry) :
    (∀ i (h : i < l.length), (l.filter fun e => e.seqnum > l[i].seqnum) = l.drop (i + 1)) ↔
      l.Pairwise fun a b => a.seqnum < b.seqnum := by
  induction l with
  | nil => exact ⟨fun _ => List.Pairwise.nil, fun _ i h => absurd h (Nat.not_lt_zero i)⟩
  | cons a l ih =>
    constructor
    · intro h
      have hhead : (l.filter fun e => e.seqnum > a.seqnum) = l := by
        have h0 := h 0 (Nat.succ_pos _)
        rwa [List.getElem_cons_zero, List.filter_cons_of_neg (by grind), List.drop_one,
          List.tail_cons] at h0
      have hlt : ∀ b ∈ l, a.seqnum < b.seqnum := by
        intro b hb
        have := List.filter_eq_self.mp hhead b hb
        exact of_decide_eq_true this
      refine List.pairwise_cons.mpr ⟨hlt, ih.mp fun i hi => ?_⟩
      have hi' := h (i + 1) (Nat.succ_lt_succ hi)
      have hlti := hlt l[i] (List.getElem_mem hi)
      rwa [List.getElem_cons_succ, List.filter_cons_of_neg (by grind), List.drop_succ_cons] at hi'
    · intro h i hi
      obtain ⟨hlt, htail⟩ := List.pairwise_cons.mp h
      cases i with
      | zero =>
        rw [List.getElem_cons_zero, List.filter_cons_of_neg (by grind), List.drop_one,
          List.tail_cons]
        exact List.filter_eq_self.mpr fun b hb => decide_eq_true (hlt b hb)
      | succ i =>
        have hi' := Nat.lt_of_succ_lt_succ hi
        have hlti := hlt l[i] (List.getElem_mem hi')
        rw [List.getElem_cons_succ, List.filter_cons_of_neg (by grind), List.drop_succ_cons]
        exact ih.mpr htail i hi'

instance : Std.Total entryLe where
  total a b := by unfold entryLe; grind

instance : IsTrans JournalEntry entryLe where
  trans a b c := by unfold entryLe; grind

/-- Two entries whose sequence numbers differ and have the order of their timestamps. -/
def Agree (a b : JournalEntry) : Prop :=
  (a.seqnum < b.seqnum ∧ a.realtimeUsec ≤ b.realtimeUsec) ∨
  (b.seqnum < a.seqnum ∧ b.realtimeUsec ≤ a.realtimeUsec)

theorem Agree.symm {a b : JournalEntry} (h : Agree a b) : Agree b a := Or.symm h

/-- The sorted list increases exactly if any two entries agree. -/
theorem pairwise_insertionSort_iff (es : List JournalEntry) :
    (es.insertionSort entryLe).Pairwise (fun a b => a.seqnum < b.seqnum) ↔ es.Pairwise Agree := by
  have hsorted := List.pairwise_insertionSort entryLe es
  rw [← (List.perm_insertionSort entryLe es).pairwise_iff Agree.symm]
  constructor
  · refine fun h => (hsorted.and h).imp fun {a b} hab => ?_
    obtain ⟨hle, hlt⟩ := hab
    unfold entryLe at hle
    unfold Agree
    grind
  · refine fun h => (hsorted.and h).imp fun {a b} hab => ?_
    obtain ⟨hle, hagree⟩ := hab
    unfold entryLe at hle
    unfold Agree at hagree
    grind

theorem collect_afterCursor (readCJournal : Bytes → Except IoError (List JournalEntry))
    (dir : List DirFile) (fileId : BitVec 128) (e : JournalEntry) :
    collect readCJournal dir [] (.afterCursor (makeCursor fileId e)) =
      (readAllFromDirectory readCJournal dir).filter fun e' => e'.seqnum > e.seqnum := by
  have happly : collect readCJournal dir [] (.afterCursor (makeCursor fileId e)) =
      applySeek (readAllFromDirectory readCJournal dir) (.afterCursor (makeCursor fileId e)) := rfl
  rw [happly, applySeek, parseCursorSeqnum_makeCursor]

/-- For every entry of the listing, the entries after its cursor are those that follow it, exactly
    if any two stored entries have different sequence numbers in the order of their timestamps. -/
theorem afterCursor_exact_iff (readCJournal : Bytes → Except IoError (List JournalEntry))
    (dir : List DirFile) (fileId : BitVec 128) :
    (∀ i (h : i < (readAllFromDirectory readCJournal dir).length),
      collect readCJournal dir []
          (.afterCursor (makeCursor fileId (readAllFromDirectory readCJournal dir)[i])) =
        (readAllFromDirectory readCJournal dir).drop (i + 1)) ↔
    (storedEntries readCJournal dir).Pairwise Agree := by
  rw [← pairwise_insertionSort_iff, ← filter_eq_drop_iff]
  refine forall_congr' fun i => forall_congr' fun h => ?_
  rw [collect_afterCursor]
  exact Iff.rfl

/-- An entry without fields. -/
def stepEntry (realtimeUsec seqnum : UInt64) : JournalEntry where
  fields := SortedMap.empty
  realtimeUsec := realtimeUsec
  monotonicUsec := 0
  seqnum := seqnum

/-- Two entries; the clock stepped back between them. -/
def steppedBack : List DirFile :=
  [{ name := "system.journal"
     contents := (FileHeader.new 7 .zstd).serialize ++
       frames [stepEntry 200 1, stepEntry 100 2] }]

/-- A reader for the format of C systemd that takes no file. -/
def noCJournal : Bytes → Except IoError (List JournalEntry) := fun _ => .error .unexpectedEof

/-- After the first entry of the listing the second one is missing. -/
theorem clock_step_loses_entry :
    readAllFromDirectory noCJournal steppedBack = [stepEntry 100 2, stepEntry 200 1] ∧
    collect noCJournal steppedBack [] (.afterCursor (makeCursor 7 (stepEntry 100 2))) = [] := by
  have hlist : readAllFromDirectory noCJournal steppedBack =
      [stepEntry 100 2, stepEntry 200 1] := by set_option maxRecDepth 20000 in decide
  refine ⟨hlist, ?_⟩
  rw [collect_afterCursor, hlist]
  decide

end OxidizedSystemd.Journal.Cursor
