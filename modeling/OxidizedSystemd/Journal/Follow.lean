import OxidizedSystemd.Journal.File
import OxidizedSystemd.Lib.Run

/-!
# Follow mode

`read_entries_from_offset` (`journal/storage.rs`, lines 1408–1438) is documented
to return the end of the last entry that was read. It returns the position of
the reader, and a reader that meets the beginning of a frame has taken it.

* `step`: a writer that extends the file byte by byte and a reader that polls
  with the offset it got from the poll before.
* `follow_exact`: the polls are exact in the runs that poll at frame boundaries,
  and only in those.
* `poll_in_frame_loses_entry`: an entry that is never polled.
-/

namespace OxidizedSystemd.Journal.Follow

open OxidizedSystemd.Lib

/-- `read_entries_from_offset` (lines 1413–1438): the entries and the new offset. -/
def readEntriesFromOffset (disk : Bytes) (offset : ℕ) : List JournalEntry × ℕ :=
  if offset ≥ disk.length then ([], offset)
  else
    let start := if offset < headerSize then headerSize else offset
    let read := readEntries (disk.drop start)
    (read.1, start + ((disk.drop start).length - read.2.length))

/-- A journal file with its writer and its reader. -/
structure State where
  header : FileHeader
  /-- The entries whose frames are complete. -/
  complete : List JournalEntry
  /-- The entry that is being written, and how many bytes of its frame are in the file. -/
  current : Option (JournalEntry × ℕ)
  offset : ℕ
  polled : List JournalEntry
  deriving DecidableEq

/-- The part of a frame at the end of the file. -/
def State.tail (s : State) : Bytes :=
  match s.current with
  | none => []
  | some (e, k) => (serializeEntry e e.seqnum).take k

/-- The contents of the file. -/
def State.disk (s : State) : Bytes := s.header.serialize ++ (frames s.complete ++ s.tail)

/-- The end of the last complete frame. -/
def State.lastFrameEnd (s : State) : ℕ := headerSize + (frames s.complete).length

inductive Action
  | beginEntry (e : JournalEntry)
  | writeByte
  | writeHeader (h : FileHeader)
  | poll
  deriving DecidableEq

/-- A file that was just created, and a reader that starts at offset 0. -/
def State.initial (header : FileHeader) : State where
  header := header
  complete := []
  current := none
  offset := 0
  polled := []

/-- One byte more of a frame. -/
def State.writeByte (s : State) : Option State :=
  s.current.map fun p =>
    if p.2 + 1 = (serializeEntry p.1 p.1.seqnum).length then
      { s with complete := s.complete ++ [p.1], current := none }
    else { s with current := some (p.1, p.2 + 1) }

def step (s : State) : Action → Option State
  | .beginEntry e => if s.current = none then some { s with current := some (e, 0) } else none
  | .writeByte => s.writeByte
  | .writeHeader h => some { s with header := h }
  | .poll =>
    let read := readEntriesFromOffset s.disk s.offset
    some { s with offset := read.2, polled := s.polled ++ read.1 }

/-- Entries that the reader can take, and polls that see whole frames only. -/
def PollsAtBoundary (s : State) : Action → Prop
  | .beginEntry e => e.Fits
  | .poll => s.tail = []
  | .writeByte | .writeHeader _ => True

instance : ∀ (s : State) (a : Action), Decidable (PollsAtBoundary s a)
  | _, .beginEntry e => inferInstanceAs (Decidable e.Fits)
  | s, .poll => inferInstanceAs (Decidable (s.tail = []))
  | _, .writeByte | _, .writeHeader _ => .isTrue trivial

/-- Entries that the reader can take, and polls that complete what was polled to all complete
    frames and return the end of the last one. -/
def PollsExact (s : State) : Action → Prop
  | .beginEntry e => e.Fits
  | .poll => s.polled ++ (readEntriesFromOffset s.disk s.offset).1 = s.complete ∧
      (readEntriesFromOffset s.disk s.offset).2 = s.lastFrameEnd
  | .writeByte | .writeHeader _ => True

/-- What was polled is the beginning of what is complete, and the offset is its end. -/
structure Inv (s : State) : Prop where
  complete : ∀ e ∈ s.complete, e.Fits
  current : ∀ p ∈ s.current, p.1.Fits ∧ p.2 < (serializeEntry p.1 p.1.seqnum).length
  polled : s.polled <+: s.complete
  offset : s.polled = [] ∧ s.offset = 0 ∨ s.offset = headerSize + (frames s.polled).length

theorem inv_initial (header : FileHeader) : Inv (State.initial header) :=
  ⟨fun _ he => absurd he List.not_mem_nil, fun p hp => absurd hp (Option.not_mem_none p),
    List.nil_prefix, .inl ⟨rfl, rfl⟩⟩

/-- The part of a frame at the end of the file is not read, and taken. -/
theorem Inv.readEntries_tail {s : State} (h : Inv s) : readEntries s.tail = ([], []) := by
  unfold State.tail
  cases hcurrent : s.current with
  | none => exact readEntries_nil
  | some p =>
    obtain ⟨hfits, hlt⟩ := h.current p hcurrent
    exact readEntries_error
      (deserializeEntry_truncated (serializeEntry_isFrame hfits.body p.1.seqnum) hlt)

theorem length_disk (s : State) : s.disk.length = s.lastFrameEnd + s.tail.length := by
  rw [State.disk, State.lastFrameEnd, List.length_append, List.length_append, length_serialize,
    Nat.add_assoc]

/-- What is behind the offset: the frames that were not polled, and the part of one. -/
theorem drop_disk {s : State} {new : List JournalEntry} (hnew : s.complete = s.polled ++ new) :
    s.disk.drop (headerSize + (frames s.polled).length) = frames new ++ s.tail := by
  rw [State.disk, ← List.drop_drop, drop_append_of_length (length_serialize s.header), hnew,
    frames_append, List.append_assoc, drop_append_of_length rfl]

theorem frames_eq_nil {es : List JournalEntry} (h : (frames es).length = 0) : es = [] := by
  cases es with
  | nil => rfl
  | cons e es =>
    rw [frames_cons, List.length_append, length_serializeEntry] at h
    omega

/-- A poll reads all complete frames and goes on behind the part of a frame that follows them. -/
theorem Inv.poll {s : State} (h : Inv s) :
    s.polled ++ (readEntriesFromOffset s.disk s.offset).1 = s.complete ∧
      (readEntriesFromOffset s.disk s.offset).2 = s.disk.length := by
  obtain ⟨new, hnew⟩ := h.polled
  have hfits : ∀ e ∈ new, e.Fits := fun e he =>
    h.complete e (hnew ▸ List.mem_append_right s.polled he)
  have hread : readEntries (frames new ++ s.tail) = (new, []) := by
    rw [readEntries_frames_append hfits, h.readEntries_tail, List.append_nil]
  have hlen : s.disk.length = headerSize + (frames s.polled).length +
      (frames new ++ s.tail).length := by
    rw [length_disk, State.lastFrameEnd, ← hnew, frames_append]
    simp only [List.length_append]
    omega
  have hstart : ∀ start, start = headerSize + (frames s.polled).length →
      (readEntries (s.disk.drop start)).1 = new ∧
        start + ((s.disk.drop start).length - (readEntries (s.disk.drop start)).2.length) =
          s.disk.length := by
    rintro start rfl
    rw [drop_disk hnew.symm, hread]
    exact ⟨rfl, hlen.symm⟩
  have hheader : headerSize = 64 := rfl
  unfold readEntriesFromOffset
  rcases h.offset with ⟨hpolled, hoffset⟩ | hoffset
  · have hempty : (frames s.polled).length = 0 := by rw [hpolled]; rfl
    obtain ⟨hentries, hend⟩ := hstart headerSize (by omega)
    rw [hoffset, if_neg (by omega)]
    dsimp only
    rw [if_pos (by omega), hentries, hend]
    exact ⟨hnew, rfl⟩
  · by_cases hge : s.offset ≥ s.disk.length
    · have hnone : (frames new ++ s.tail).length = 0 := by omega
      have hnil : new = [] := frames_eq_nil (by rw [List.length_append] at hnone; omega)
      rw [if_pos hge, ← hnew, hnil]
      exact ⟨rfl, by omega⟩
    · obtain ⟨hentries, hend⟩ := hstart s.offset hoffset
      rw [if_neg hge]
      dsimp only
      rw [if_neg (by omega), hentries, hend]
      exact ⟨hnew, rfl⟩

/-- A poll is exact when the file ends with a whole frame, and not otherwise. -/
theorem Inv.pollsExact_iff {s : State} (h : Inv s) (a : Action) :
    PollsExact s a ↔ PollsAtBoundary s a := by
  cases a with
  | beginEntry e => exact Iff.rfl
  | writeByte => exact Iff.rfl
  | writeHeader header => exact Iff.rfl
  | poll =>
    obtain ⟨hentries, hend⟩ := h.poll
    unfold PollsExact PollsAtBoundary
    rw [hend, length_disk, ← List.length_eq_zero_iff]
    exact ⟨fun hexact => by omega, fun htail => ⟨hentries, by omega⟩⟩

theorem Inv.step {s s' : State} {a : Action} (h : Inv s) (hok : PollsAtBoundary s a)
    (hs : step s a = some s') : Inv s' := by
  cases a with
  | beginEntry e =>
    simp only [Follow.step] at hs
    split at hs
    · obtain rfl := Option.some.inj hs
      refine ⟨h.complete, fun p hp => ?_, h.polled, h.offset⟩
      obtain rfl := Option.mem_some_iff.mp hp
      exact ⟨hok, by rw [length_serializeEntry]; exact Nat.succ_pos _⟩
    · cases hs
  | writeByte =>
    obtain ⟨p, hp, rfl⟩ := Option.map_eq_some_iff.mp hs
    obtain ⟨hfits, hlt⟩ := h.current p hp
    split
    · refine ⟨fun e he => ?_, fun q hq => absurd hq (Option.not_mem_none q),
        h.polled.trans (List.prefix_append _ _), h.offset⟩
      rcases List.mem_append.mp he with he | he
      · exact h.complete e he
      · rw [List.mem_singleton.mp he]
        exact hfits
    · refine ⟨h.complete, fun q hq => ?_, h.polled, h.offset⟩
      obtain rfl := Option.mem_some_iff.mp hq
      exact ⟨hfits, lt_of_le_of_ne hlt ‹_›⟩
  | writeHeader header =>
    obtain rfl := Option.some.inj hs
    exact ⟨h.complete, h.current, h.polled, h.offset⟩
  | poll =>
    obtain rfl := Option.some.inj hs
    obtain ⟨hentries, hend⟩ := (h.pollsExact_iff .poll).mpr hok
    refine ⟨h.complete, h.current, ?_, .inr ?_⟩
    · exact hentries ▸ List.prefix_rfl
    · show (readEntriesFromOffset s.disk s.offset).2 = headerSize + _
      rw [hend, hentries]
      rfl

/-- The polls of a run all complete what was polled to all complete frames, and return the end of
    the last one, exactly if every poll sees whole frames only; then what was polled is always
    the beginning of what was written. -/
theorem follow_exact (header : FileHeader) (actions : List Action) :
    (RunMeets step PollsExact (State.initial header) actions ↔
      RunMeets step PollsAtBoundary (State.initial header) actions) ∧
    ∀ s, RunMeets step PollsAtBoundary (State.initial header) actions →
      run step (State.initial header) actions = some s → s.polled <+: s.complete := by
  refine ⟨runMeets_congr (fun s a h => h.pollsExact_iff a) (fun _ _ _ h hok hs => h.step hok hs)
    actions (inv_initial header), fun s hok hs => ?_⟩
  exact (run_inv_of_meets (fun _ _ _ h hok hs => h.step hok hs) actions
    (inv_initial header) hok hs).polled

/-- An entry without fields. -/
def tickEntry : JournalEntry where
  fields := SortedMap.empty
  realtimeUsec := 100
  monotonicUsec := 0
  seqnum := 1

/-- The frame of an entry and a poll. -/
def pollAfterFrame : List Action :=
  .beginEntry tickEntry :: (List.replicate 36 .writeByte ++ [.poll])

theorem follow_exact_pollAfterFrame :
    ∃ s, run step (State.initial (FileHeader.new 7 .zstd)) pollAfterFrame = some s ∧
      RunMeets step PollsExact (State.initial (FileHeader.new 7 .zstd)) pollAfterFrame ∧
      s.polled <+: s.complete ∧ s.polled = [tickEntry] := by
  obtain ⟨hiff, hprefix⟩ := follow_exact (FileHeader.new 7 .zstd) pollAfterFrame
  have hok : RunMeets step PollsAtBoundary (State.initial (FileHeader.new 7 .zstd))
      pollAfterFrame := by decide
  rcases hs : run step (State.initial (FileHeader.new 7 .zstd)) pollAfterFrame with _ | s
  · exact absurd hs (by decide)
  · refine ⟨s, rfl, hiff.mpr hok, hprefix s hok hs, ?_⟩
    rw [← Option.some.inj hs]
    decide

/-- A poll after ten bytes of a frame, and one when it is complete. -/
def pollInFrame : List Action :=
  .beginEntry tickEntry :: (List.replicate 10 .writeByte ++ .poll ::
    (List.replicate 26 .writeByte ++ [.poll]))

/-- The entry is never polled, and the offsets are not the ends of frames. -/
theorem poll_in_frame_loses_entry :
    ∃ s, run step (State.initial (FileHeader.new 7 .zstd)) pollInFrame = some s ∧
      s.complete = [tickEntry] ∧ s.tail = [] ∧ s.polled = [] ∧ s.offset = 78 ∧
      s.lastFrameEnd = 100 := by
  refine ⟨_, Option.some_get (show Option.isSome _ by decide) |>.symm, ?_, ?_, ?_, ?_, ?_⟩
  · decide
  · decide
  · decide
  · decide
  · decide

end OxidizedSystemd.Journal.Follow
