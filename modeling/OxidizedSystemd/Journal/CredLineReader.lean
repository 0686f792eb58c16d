import OxidizedSystemd.Journal.StdoutStream
import OxidizedSystemd.Lib.Lines

/-!
# Lines of a stdout stream

`CredLineReader` of `journald/src/main.rs` (lines 2197–2368): it cuts what it receives into lines
and attributes each to the process that wrote it.

The abstraction of a reader is the list of the lines that it will still return: those that are
ready, and those from the start of a line that it has on.

* `pending_scanData`: the loop over a chunk leaves that list as it is.
* `pending_nextLine`: a call returns its first element.
* `results_eq`: the calls one after the other.
* `credLineReader_lines`: the lines are those of the bytes with their writers.
-/

namespace OxidizedSystemd.Journal.StdoutStream

open OxidizedSystemd.Lib
open OxidizedSystemd.Journal.Native (Reads)

/-! ## The reader -/

/-- `b'\\n'`. -/
def newline : UInt8 := 10

/-- `struct CredLineReader` (lines 2215–2228), without its stream and its buffer. -/
structure CredLineReader where
  lineBuf : Bytes
  currentCred : Option Ucred
  currentMeta : Option (ℕ × ProcMeta)
  pidMetaCache : ℕ → Option ProcMeta
  ready : List CredLine

/-- `CredLineReader::new`. -/
def CredLineReader.new : CredLineReader := ⟨[], none, none, fun _ => none, []⟩

/-- What a `recvmsg` gives: data with credentials, and what `/proc` has at that time, or an
    error. No data is the end of the stream. -/
inductive Received
  | ok (data : Bytes) (cred : Option Ucred) (reads : Reads)
  | err

/-- A line with the reader's credentials and metadata. -/
def CredLineReader.line (r : CredLineReader) (bytes : Bytes) (pidChange : Bool) : CredLine where
  text := (fromUtf8Lossy bytes).toList
  cred := r.currentCred
  procMeta := r.currentMeta
  pidChange := pidChange

/-- The body of the loop of `scan_data`, with the start of the line and whether it is the first. -/
def scanByte (data : Bytes) (pidChange : Bool) (state : CredLineReader × ℕ × Bool)
    (byte : UInt8 × ℕ) : CredLineReader × ℕ × Bool :=
  let (r, start, firstLine) := state
  let (b, i) := byte
  if b = newline then
    let lineBuf := r.lineBuf ++ (data.drop start).take (i - start)
    ({ r with ready := r.ready ++ [r.line lineBuf (pidChange && firstLine)], lineBuf := [] },
      i + 1, false)
  else state

/-- `scan_data`. -/
def CredLineReader.scanData (r : CredLineReader) (data : Bytes) (pidChange : Bool) :
    CredLineReader :=
  let (r, start, _) := data.zipIdx.foldl (scanByte data pidChange) (r, 0, true)
  if start < data.length then { r with lineBuf := r.lineBuf ++ data.drop start } else r

/-- The metadata of the process that has sent (lines 2317–2324). -/
def CredLineReader.readMeta (r : CredLineReader) (cred : Option Ucred) (reads : Reads) :
    CredLineReader :=
  match (cred.map Ucred.pid).filter (0 < ·) with
  | some pid =>
    let (procMeta, cache) := getOrReadMeta reads r.pidMetaCache pid
    { r with currentMeta := some (pid, procMeta), pidMetaCache := cache }
  | none => r

/-- Another process has sent than the one before. -/
def CredLineReader.changed (r : CredLineReader) (cred : Option Ucred) : Bool :=
  let newPid := cred.map Ucred.pid
  let oldPid := r.currentCred.map Ucred.pid
  newPid.isSome ∧ oldPid.isSome ∧ newPid ≠ oldPid

/-- The start of a line as a line of the process before (lines 2338–2350). -/
def CredLineReader.flush (r : CredLineReader) : CredLineReader :=
  let oldMeta := (r.currentCred.map Ucred.pid).bind fun p =>
    (r.pidMetaCache p).map fun m => (p, m)
  { r with
    ready := r.ready ++ [{ r.line r.lineBuf true with procMeta := oldMeta }]
    lineBuf := [] }

/-- The line that another process ends by sending, and the credentials that are current then
    (lines 2333–2358). -/
def CredLineReader.setCred (r : CredLineReader) (cred : Option Ucred) : CredLineReader :=
  let r' := if r.changed cred ∧ r.lineBuf ≠ [] then r.flush else r
  { r' with currentCred := cred.or r'.currentCred }

/-- `next_line` when data has been received (lines 2315–2361). -/
def CredLineReader.receive (r : CredLineReader) (data : Bytes) (cred : Option Ucred)
    (reads : Reads) : CredLineReader :=
  let r := r.readMeta cred reads
  let pidChange := decide (r.changed cred ∧ r.lineBuf = [])
  (r.setCred cred).scanData data pidChange

/-- `next_line` at the end of the stream (lines 2302–2313). -/
def CredLineReader.atEnd (r : CredLineReader) : Option CredLine × CredLineReader :=
  if r.lineBuf ≠ [] then (some (r.line r.lineBuf false), { r with lineBuf := [] }) else (none, r)

/-- `next_line`, with what is still to be received: nothing behind the last element. -/
def CredLineReader.nextLine (r : CredLineReader) :
    List Received → Option CredLine × CredLineReader × List Received
  | [] =>
    match r.ready with
    | line :: ready => (some line, { r with ready }, [])
    | [] => (r.atEnd.1, r.atEnd.2, [])
  | received :: stream =>
    match r.ready with
    | line :: ready => (some line, { r with ready }, received :: stream)
    | [] =>
      match received with
      | .err => (none, r, stream)
      | .ok data cred reads =>
        if data = [] then (r.atEnd.1, r.atEnd.2, stream)
        else (r.receive data cred reads).nextLine stream

/-- What calls of `next_line` return one after the other. -/
def results : ℕ → CredLineReader → List Received → List (Option CredLine)
  | 0, _, _ => []
  | n + 1, r, stream =>
    let (line, r, stream) := r.nextLine stream
    line :: results n r stream

/-! ## What a reader will return -/

/-- A line as it is seen here: its text and the process that it is attributed to. -/
def CredLine.view (l : CredLine) : Text × Option ℕ := (l.text, l.cred.map Ucred.pid)

/-- The text and the process of bytes of one writer. -/
def lineView (l : Bytes × ℕ) : Text × Option ℕ := ((fromUtf8Lossy l.1).toList, some l.2)

/-- The bytes that are received, each with its writer. -/
def streamBytes (stream : List Received) : List (UInt8 × ℕ) :=
  stream.flatMap fun
    | .ok data (some cred) _ => tagged cred.pid data
    | _ => []

/-- Chunks that are not empty, each with the credentials of its one writer. -/
def WellSent (stream : List Received) : Prop :=
  ∀ received ∈ stream, ∃ data cred reads, received = .ok data (some cred) reads ∧ data ≠ []

/-- The lines that the reader will return. -/
def CredLineReader.pending (r : CredLineReader) (stream : List Received) :
    List (Text × Option ℕ) :=
  r.ready.map CredLine.view ++
    (linesFrom newline ((r.currentCred.map Ucred.pid).getD 0) r.lineBuf
      (streamBytes stream)).map lineView

/-- The start of a line has a writer. -/
def CredLineReader.Owned (r : CredLineReader) : Prop := r.lineBuf ≠ [] → r.currentCred.isSome

variable {r : CredLineReader} {cred : Ucred} {stream : List Received}

theorem view_line (h : r.currentCred = some cred) (bytes : Bytes) (pidChange : Bool) :
    (r.line bytes pidChange).view = lineView (bytes, cred.pid) := by
  rw [CredLine.view, CredLineReader.line, h]
  rfl

/-- The loop of `scan_data` from the byte behind `done` on: the start of the line that it has is
    what was there before and the bytes from `start` on. -/
theorem scanByte_foldl (done todo : Bytes) (rest : List (UInt8 × ℕ)) (pidChange firstLine : Bool)
    (start : ℕ) (hcred : r.currentCred = some cred) (hstart : start ≤ done.length) :
    ∃ r' start' firstLine', (todo.zipIdx done.length).foldl (scanByte (done ++ todo) pidChange)
        (r, start, firstLine) = (r', start', firstLine') ∧ r'.currentCred = some cred ∧
      r'.ready.map CredLine.view ++ (linesFrom newline cred.pid
        (r'.lineBuf ++ (done ++ todo).drop start') rest).map lineView =
      r.ready.map CredLine.view ++ (linesFrom newline cred.pid
        (r.lineBuf ++ done.drop start) (tagged cred.pid todo ++ rest)).map lineView := by
  induction todo generalizing r done start firstLine with
  | nil => exact ⟨r, start, firstLine, rfl, hcred, by rw [List.append_nil]; rfl⟩
  | cons b todo ih =>
    have hdata : done ++ b :: todo = (done ++ [b]) ++ todo := by simp
    have hdone : (done ++ [b]).length = done.length + 1 := by simp
    have hseg : ((done ++ b :: todo).drop start).take (done.length - start) = done.drop start := by
      rw [List.drop_append_of_le_length hstart]
      exact List.take_left' (by rw [List.length_drop])
    rw [List.zipIdx_cons, List.foldl_cons, tagged_cons, List.cons_append, linesFrom_same]
    by_cases hb : b = newline
    · subst hb
      have hstep : scanByte (done ++ newline :: todo) pidChange (r, start, firstLine)
          (newline, done.length) = ({ r with
            ready := r.ready ++ [r.line (r.lineBuf ++ done.drop start) (pidChange && firstLine)]
            lineBuf := [] }, done.length + 1, false) := by
        rw [scanByte, if_pos rfl, hseg]
      have := ih (r := { r with
          ready := r.ready ++ [r.line (r.lineBuf ++ done.drop start) (pidChange && firstLine)]
          lineBuf := [] }) (done ++ [newline]) false (done.length + 1) hcred (by simp)
      rw [← hdata, hdone] at this
      obtain ⟨r', start', firstLine', hfold, hcred', hpending⟩ := this
      refine ⟨r', start', firstLine', by rw [hstep, hfold], hcred', hpending.trans ?_⟩
      have hnil : (done ++ [newline]).drop (done.length + 1) = [] :=
        List.drop_of_length_le (by simp)
      simp [view_line hcred, hnil]
    · have hstep : scanByte (done ++ b :: todo) pidChange (r, start, firstLine)
          (b, done.length) = (r, start, firstLine) := by
        rw [scanByte, if_neg hb]
      have := ih (r := r) (done ++ [b]) firstLine start hcred (by simp; omega)
      rw [← hdata, hdone, List.drop_append_of_le_length hstart, ← List.append_assoc] at this
      rw [hstep, if_neg hb]
      exact this

/-- What `scan_data` leaves to be returned: the lines from the start of the line through the data
    to what is still to be received. -/
theorem pending_scanData (hcred : r.currentCred = some cred) (data : Bytes) (pidChange : Bool)
    (stream : List Received) :
    (r.scanData data pidChange).pending stream =
      r.ready.map CredLine.view ++ (linesFrom newline cred.pid r.lineBuf
        (tagged cred.pid data ++ streamBytes stream)).map lineView ∧
      (r.scanData data pidChange).currentCred = some cred := by
  obtain ⟨r', start', firstLine', hfold, hcred', hpending⟩ :=
    scanByte_foldl [] data (streamBytes stream) pidChange true 0 hcred le_rfl
  rw [List.nil_append, List.length_nil] at hfold
  rw [List.drop_nil, List.append_nil, List.nil_append] at hpending
  have hscan : r.scanData data pidChange =
      { r' with lineBuf := r'.lineBuf ++ data.drop start' } := by
    rw [CredLineReader.scanData, hfold]
    dsimp only
    split
    · rfl
    · rename_i hend
      rw [List.drop_of_length_le (by omega), List.append_nil]
  rw [hscan]
  refine ⟨?_, hcred'⟩
  rw [CredLineReader.pending, hcred']
  exact hpending

theorem readMeta_eq (r : CredLineReader) (cred : Option Ucred) (reads : Reads) :
    (r.readMeta cred reads).ready = r.ready ∧ (r.readMeta cred reads).lineBuf = r.lineBuf ∧
      (r.readMeta cred reads).currentCred = r.currentCred := by
  rw [CredLineReader.readMeta]
  split
  · exact ⟨rfl, rfl, rfl⟩
  · exact ⟨rfl, rfl, rfl⟩

theorem changed_iff {old : Ucred} (h : r.currentCred = some old) :
    r.changed (some cred) = true ↔ cred.pid ≠ old.pid := by
  simp [CredLineReader.changed, h]

/-- Ending the line of the process before, if there is one, does not change what will be returned
    when another chunk has come. -/
theorem pending_setCred (howned : r.Owned) {data : Bytes} (hdata : data ≠ []) (cred : Ucred)
    (rest : List (UInt8 × ℕ)) :
    (r.setCred (some cred)).ready.map CredLine.view ++ (linesFrom newline cred.pid
        (r.setCred (some cred)).lineBuf (tagged cred.pid data ++ rest)).map lineView =
      r.ready.map CredLine.view ++ (linesFrom newline ((r.currentCred.map Ucred.pid).getD 0)
        r.lineBuf (tagged cred.pid data ++ rest)).map lineView := by
  rw [CredLineReader.setCred]
  split
  · rename_i hflush
    obtain ⟨hchanged, hbuf⟩ := hflush
    obtain ⟨old, hold⟩ := Option.isSome_iff_exists.mp (howned hbuf)
    obtain ⟨b, data, rfl⟩ := List.exists_cons_of_ne_nil hdata
    have hpid : cred.pid ≠ old.pid := (changed_iff hold).mp hchanged
    have hview : (CredLine.view { r.line r.lineBuf true with
        procMeta := (r.currentCred.map Ucred.pid).bind fun p =>
          (r.pidMetaCache p).map fun m => (p, m) }) = lineView (r.lineBuf, old.pid) :=
      view_line hold r.lineBuf true
    rw [tagged_cons, List.cons_append, hold, Option.map_some, Option.getD_some,
      linesFrom_change hpid hbuf, CredLineReader.flush]
    simp [hview]
  · rename_i hsame
    by_cases hbuf : r.lineBuf = []
    · dsimp only
      rw [hbuf, linesFrom_nil_tag]
    · obtain ⟨old, hold⟩ := Option.isSome_iff_exists.mp (howned hbuf)
      have hpid : cred.pid = old.pid := by
        by_contra hne
        exact hsame ⟨(changed_iff hold).mpr hne, hbuf⟩
      rw [hold, hpid]
      rfl

/-- Receiving a chunk does not change what will be returned. -/
theorem pending_receive (howned : r.Owned) {data : Bytes} (hdata : data ≠ []) (cred : Ucred)
    (reads : Reads) (stream : List Received) :
    (r.receive data (some cred) reads).pending stream =
      r.pending (.ok data (some cred) reads :: stream) ∧
      (r.receive data (some cred) reads).currentCred = some cred := by
  obtain ⟨hready, hbuf, hcred⟩ := readMeta_eq r (some cred) reads
  have howned' : (r.readMeta (some cred) reads).Owned := by
    rw [CredLineReader.Owned, hbuf, hcred]
    exact howned
  have hset := pending_setCred howned' hdata cred (streamBytes stream)
  rw [hready, hbuf, hcred] at hset
  have hcurrent : ((r.readMeta (some cred) reads).setCred (some cred)).currentCred = some cred :=
    rfl
  obtain ⟨hpending, hcurrent'⟩ := pending_scanData hcurrent data
    (decide ((r.readMeta (some cred) reads).changed (some cred) ∧
      (r.readMeta (some cred) reads).lineBuf = [])) stream
  exact ⟨hpending.trans hset, hcurrent'⟩

/-! ## Calls -/

theorem pending_nil (r : CredLineReader) (h : r.ready = []) :
    r.pending [] = if r.lineBuf = [] then []
      else [lineView (r.lineBuf, (r.currentCred.map Ucred.pid).getD 0)] := by
  rw [CredLineReader.pending, h]
  show (linesFrom newline _ r.lineBuf []).map lineView = _
  rw [linesFrom]
  split
  · rfl
  · rfl

/-- A call returns the first of the lines that will be returned, and nothing when there is none. -/
theorem pending_nextLine (howned : r.Owned) (hstream : WellSent stream) :
    let (line, r', stream') := r.nextLine stream
    r.pending stream = (line.map CredLine.view).toList ++ r'.pending stream' ∧
      (line = none → r'.pending stream' = []) ∧ r'.Owned ∧ WellSent stream' := by
  induction stream generalizing r with
  | nil =>
    rw [CredLineReader.nextLine]
    cases hready : r.ready with
    | cons line ready =>
      refine ⟨?_, by simp, howned, hstream⟩
      rw [CredLineReader.pending, hready]
      rfl
    | nil =>
      rw [pending_nil r hready, CredLineReader.atEnd]
      by_cases hbuf : r.lineBuf = []
      · simp only [hbuf, ne_eq, not_true, if_false, if_true]
        refine ⟨?_, fun _ => ?_, howned, hstream⟩
        · rw [pending_nil r hready, if_pos hbuf]
          rfl
        · rw [pending_nil r hready, if_pos hbuf]
      · obtain ⟨cred, hcred⟩ := Option.isSome_iff_exists.mp (howned hbuf)
        simp only [hbuf, ne_eq, not_false_iff, if_true, if_false]
        refine ⟨?_, by simp, by simp [CredLineReader.Owned], hstream⟩
        rw [pending_nil _ (by exact hready), if_pos rfl, Option.map_some, view_line hcred, hcred]
        rfl
  | cons received stream ih =>
    rw [CredLineReader.nextLine.eq_def]
    dsimp only
    cases hready : r.ready with
    | cons line ready =>
      refine ⟨?_, by simp, howned, hstream⟩
      rw [CredLineReader.pending, hready]
      rfl
    | nil =>
      obtain ⟨⟨data, cred, reads, rfl, hdata⟩, hrest⟩ := List.forall_mem_cons.mp hstream
      obtain ⟨hpending, hcred⟩ := pending_receive howned hdata cred reads stream
      have howned' : (r.receive data (some cred) reads).Owned := fun _ => by rw [hcred]; rfl
      rw [← hpending]
      dsimp only
      rw [if_neg hdata]
      exact ih howned' hrest

/-- The calls one after the other return the lines that the reader will return, and then nothing. -/
theorem results_eq (howned : r.Owned) (hstream : WellSent stream) (n : ℕ) :
    (results n r stream).map (Option.map CredLine.view) =
      ((r.pending stream).map some ++ List.replicate n none).take n := by
  induction n generalizing r stream with
  | zero => rfl
  | succ n ih =>
    have hnext := pending_nextLine howned hstream
    rw [results]
    generalize r.nextLine stream = next at hnext ⊢
    obtain ⟨line, r', stream'⟩ := next
    obtain ⟨hpending, hnone, howned', hstream'⟩ := hnext
    rw [List.map_cons, ih howned' hstream', hpending]
    cases line with
    | none =>
      rw [hnone rfl]
      simp [List.replicate_succ]
    | some line =>
      have htake : ∀ l : List (Option (Text × Option ℕ)),
          (l ++ List.replicate (n + 1) none).take n = (l ++ List.replicate n none).take n := by
        intro l
        rw [List.replicate_succ', ← List.append_assoc, List.take_append_of_le_length (by simp)]
      rw [Option.map_some, Option.toList_some, List.singleton_append, List.map_cons,
        List.cons_append, List.take_succ_cons, htake]

/-- Whatever the chunks are, the calls return the lines of the bytes with their writers: these hold
    every byte but the newlines once and in order, each in a line of its writer, and a line ends at
    a newline, where the writer changes, or at the end. -/
theorem credLineReader_lines (bytes : List (UInt8 × ℕ)) :
    ∃ lines : List (Bytes × ℕ), Lines newline bytes lines ∧
      (lines.flatMap fun l => tagged l.2 l.1) =
        bytes.filter (fun b => decide (b.1 ≠ newline)) ∧
      ∀ stream, WellSent stream → streamBytes stream = bytes → ∀ n,
        (results n .new stream).map (Option.map CredLine.view) =
          (lines.map (fun l => some (lineView l)) ++ List.replicate n none).take n := by
  have hlines := @lines_linesFrom UInt8 ℕ newline 0 [] bytes _ _ (by simp)
  refine ⟨_, hlines, hlines.flatMap, fun stream hstream hbytes n => ?_⟩
  have howned : CredLineReader.new.Owned := fun h => absurd rfl h
  rw [results_eq howned hstream n, CredLineReader.pending, hbytes]
  simp [CredLineReader.new, Function.comp_def]

/-- Bytes of two processes, received in two ways. -/
theorem credLineReader_lines_two :
    let stream : List Received := [.ok [97, 98] (some ⟨1, 0, 0⟩) Native.noReads,
      .ok [99, 10, 100] (some ⟨2, 0, 0⟩) Native.noReads]
    let stream' : List Received := [.ok [97] (some ⟨1, 0, 0⟩) Native.noReads,
      .ok [98] (some ⟨1, 0, 0⟩) Native.noReads, .ok [99, 10, 100] (some ⟨2, 0, 0⟩) Native.noReads]
    ∀ n, (results n .new stream).map (Option.map CredLine.view) =
      (results n .new stream').map (Option.map CredLine.view) := by
  intro stream stream' n
  have hstream : WellSent stream := by simp [stream, WellSent]
  have hstream' : WellSent stream' := by simp [stream', WellSent]
  obtain ⟨lines, -, -, hresults⟩ := credLineReader_lines (streamBytes stream)
  rw [hresults stream hstream rfl, hresults stream' hstream' rfl]

end OxidizedSystemd.Journal.StdoutStream
