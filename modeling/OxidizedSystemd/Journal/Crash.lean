import OxidizedSystemd.Journal.File
import OxidizedSystemd.Lib.Run

/-!
# Crashes in the middle of a frame

`JournalFile::open` does not look at the end of the file. A frame that a crash
left unfinished stays in the file, and what is appended behind it is read as
the rest of that frame.

* `step`: open, append, and a crash that cuts an append off after any number of
  bytes of its frame.
* `acked_sublist_readAll`: if every append is made at the end of a whole frame,
  what was acknowledged is read.
* `partial_frame_hides_append`: behind an unfinished frame it is not.
-/

namespace OxidizedSystemd.Journal.Crash

open OxidizedSystemd.Lib

/-- A journal file, the handle of the process that has it open, and the entries whose append
    has returned. -/
structure State where
  disk : Bytes
  file : Option JournalFile
  acked : List JournalEntry
  deriving DecidableEq

inductive Action
  | openFile
  | append (e : JournalEntry) (seqnum : UInt64)
  /-- The process dies after `k` bytes of the frame of an append. -/
  | crash (e : JournalEntry) (seqnum : UInt64) (k : ℕ)
  deriving DecidableEq

/-- A file that was just created. -/
def State.initial (fileId : BitVec 128) (compress : JournalCompress) : State where
  disk := (JournalFile.create fileId compress).2
  file := some (JournalFile.create fileId compress).1
  acked := []

/-- One action; an append that fails changes nothing. -/
def step (s : State) : Action → Option State
  | .openFile =>
    match s.file, JournalFile.openFile s.disk true with
    | none, .ok f => some { s with file := some f }
    | _, _ => none
  | .append e seqnum =>
    s.file.map fun f =>
      match f.append s.disk e seqnum with
      | .ok (f', disk') =>
        { disk := disk', file := some f', acked := s.acked ++ [e.stored seqnum] }
      | .error _ => s
  | .crash e seqnum k =>
    s.file.map fun _ =>
      { s with disk := s.disk ++ (serializeEntry e seqnum).take k, file := none }

/-- The file ends with a whole frame. -/
def AtBoundary (disk : Bytes) : Prop :=
  ∃ es : List JournalEntry, (∀ e ∈ es, e.Fits) ∧ disk.drop headerSize = frames es

/-- An append is made at the end of a whole frame, of an entry that the reader can take. -/
def AppendsAtBoundary (s : State) : Action → Prop
  | .append e _ => e.Fits ∧ AtBoundary s.disk
  | _ => True

/-- The file has a header, and what was acknowledged is read. -/
structure Inv (s : State) : Prop where
  header : ∃ (h : FileHeader) (body : Bytes), s.disk = h.serialize ++ body
  acked : s.acked.Sublist (readAll s.disk)

theorem inv_initial (fileId : BitVec 128) (compress : JournalCompress) :
    Inv (State.initial fileId compress) :=
  ⟨⟨_, [], (List.append_nil _).symm⟩, List.nil_sublist _⟩

theorem Inv.step {s s' : State} {a : Action} (h : Inv s) (hok : AppendsAtBoundary s a)
    (hs : step s a = some s') : Inv s' := by
  obtain ⟨header, body, hdisk⟩ := h.header
  have hacked := h.acked
  rw [hdisk, readAll_serialize] at hacked
  cases a with
  | openFile =>
    simp only [Crash.step] at hs
    split at hs
    · cases hs
      exact ⟨h.header, h.acked⟩
    · cases hs
  | append e seqnum =>
    obtain ⟨hfits, es, hes, hboundary⟩ := hok
    obtain ⟨f, -, rfl⟩ := Option.map_eq_some_iff.mp hs
    rcases happ : f.append s.disk e seqnum with err | ⟨f', disk'⟩
    · exact h
    · rw [hdisk] at happ
      obtain ⟨-, rfl⟩ := append_serialize happ
      rw [hdisk, drop_append_of_length (length_serialize header)] at hboundary
      have hes' : ∀ e' ∈ es ++ [e.stored seqnum], e'.Fits := by
        intro e' he'
        rcases List.mem_append.mp he' with he' | he'
        · exact hes e' he'
        · rw [List.mem_singleton.mp he']
          exact hfits.stored seqnum
      refine ⟨⟨_, _, rfl⟩, ?_⟩
      show (s.acked ++ [e.stored seqnum]).Sublist _
      rw [readAll_serialize, hboundary, ← frames_concat, readEntries_frames hes']
      rw [hboundary, readEntries_frames hes] at hacked
      exact hacked.append (List.Sublist.refl _)
  | crash e seqnum k =>
    obtain ⟨f, -, rfl⟩ := Option.map_eq_some_iff.mp hs
    refine ⟨⟨header, body ++ (serializeEntry e seqnum).take k, ?_⟩, ?_⟩
    · show s.disk ++ _ = _
      rw [hdisk, List.append_assoc]
    · show s.acked.Sublist (readAll (s.disk ++ _))
      rw [hdisk, List.append_assoc, readAll_serialize]
      have hprefix := readEntries_prefix body ((serializeEntry e seqnum).take k)
      exact hacked.trans hprefix.sublist

/-- In every run of opens, appends and crashes in which each append is made at the end of a whole
    frame, every entry that was acknowledged is read, in the order of the appends. -/
theorem acked_sublist_readAll {fileId : BitVec 128} {compress : JournalCompress}
    {actions : List Action} {s : State}
    (hok : RunMeets step AppendsAtBoundary (State.initial fileId compress) actions)
    (hs : run step (State.initial fileId compress) actions = some s) :
    s.acked.Sublist (readAll s.disk) :=
  (run_inv_of_meets (fun _ _ _ h hok hs => h.step hok hs) actions
    (inv_initial fileId compress) hok hs).acked

/-- An entry without fields. -/
def emptyEntry (realtimeUsec : UInt64) : JournalEntry where
  fields := SortedMap.empty
  realtimeUsec := realtimeUsec
  monotonicUsec := 0
  seqnum := 0

theorem emptyEntry_fits (realtimeUsec : UInt64) : (emptyEntry realtimeUsec).Fits where
  keys f hf := by cases hf
  body := show 28 ≤ maxFrameLen by decide

/-- A crash before the first byte of a frame, and an append after it. -/
theorem acked_sublist_readAll_clean :
    ∃ s, run step (State.initial 7 .zstd) [.crash (emptyEntry 100) 1 0, .openFile,
        .append (emptyEntry 200) 1] = some s ∧ s.acked.Sublist (readAll s.disk) ∧
      s.acked = [(emptyEntry 200).stored 1] := by
  rcases hs : run step (State.initial 7 .zstd) [.crash (emptyEntry 100) 1 0, .openFile,
    .append (emptyEntry 200) 1] with _ | s
  · exact absurd hs (by decide)
  · refine ⟨s, rfl, acked_sublist_readAll ?_ hs, ?_⟩
    · refine ⟨trivial, fun s₁ hs₁ => ⟨trivial, fun s₂ hs₂ => ⟨⟨emptyEntry_fits 200, [], ?_, ?_⟩,
        fun _ _ => trivial⟩⟩⟩
      · exact fun e he => by cases he
      · obtain rfl := Option.some.inj hs₁
        rw [← Option.some.inj hs₂]
        decide
    · rw [← Option.some.inj hs]
      decide

/-- An entry acknowledged after a crash in the middle of a frame is not read. -/
theorem partial_frame_hides_append :
    ∃ s, run step (State.initial 7 .zstd) [.append (emptyEntry 100) 1, .crash (emptyEntry 200) 2 10,
        .openFile, .append (emptyEntry 300) 2] = some s ∧
      s.acked = [(emptyEntry 100).stored 1, (emptyEntry 300).stored 2] ∧
      readAll s.disk = [(emptyEntry 100).stored 1] := by
  refine ⟨_, Option.some_get (show Option.isSome _ by decide) |>.symm, ?_, ?_⟩
  · decide
  · decide

end OxidizedSystemd.Journal.Crash
