import OxidizedSystemd.Journal.Storage
import OxidizedSystemd.Lib.Run
import Mathlib.Data.List.Flatten
import Mathlib.Data.List.Perm.Subperm

/-!
# Sequence numbers across restarts

The next sequence number is recovered from the headers, and a header is written
after the frame that it counts. A crash between the two leaves a header that is
behind, and the number is given again.

* `step`: restarts, appends, rotations, vacuuming, and crashes, also between the
  frame and the header of an append.
* `increasing_of_startsInSync`: the numbers increase in the order of the appends
  if no restart finds a header behind its frames.
* `crash_before_header_repeats_seqnum`: a number that is given twice.
-/

namespace OxidizedSystemd.Journal.Sequence

open OxidizedSystemd.Lib

/-! ## Runs -/

/-- The journal directory, the process that has it open, and the number of frames written. -/
structure State where
  dir : Directory
  storage : Option JournalStorage
  time : ℕ
  deriving DecidableEq

inductive Action
  | start (config : StorageConfig) (env : Env)
  | append (e : JournalEntry) (env : Env) (n : ℕ)
  | rotate (env : Env)
  | vacuum (n : ℕ)
  | crash
  /-- The process dies when the active file has its archive name and there is no new one. -/
  | crashInRotation (env : Env)
  /-- The process dies in an append when the frame is written and the header is not. -/
  | crashBeforeHeader (e : JournalEntry) (env : Env) (n : ℕ)
  deriving DecidableEq

/-- An empty directory. -/
def State.initial : State := ⟨SortedMap.empty, none, 0⟩

/-- The state after an operation that returns the storage and the directory. -/
def State.opened (s : State) (r : JournalStorage × Directory) : State :=
  { s with dir := r.2, storage := some r.1 }

def step (s : State) : Action → Option State
  | .start config env =>
    if s.storage = none then some (s.opened (JournalStorage.new config s.dir env)) else none
  | .append e env n =>
    s.storage.bind fun st =>
      let ready := st.rotateIfFull s.dir env n
      (ready.1.appendToActive ready.2 e s.time).map fun r =>
        { s.opened r with time := s.time + 1 }
  | .rotate env => s.storage.map fun st => s.opened (st.rotate s.dir env)
  | .vacuum n => s.storage.map fun st => { s with dir := st.vacuum s.dir n }
  | .crash => s.storage.map fun _ => { s with storage := none }
  | .crashInRotation env =>
    s.storage.map fun st => { s with dir := st.archive s.dir env, storage := none }
  | .crashBeforeHeader e env n =>
    s.storage.bind fun st =>
      let ready := st.rotateIfFull s.dir env n
      (ready.1.frameOnly ready.2 e s.time).map fun dir =>
        { dir := dir, storage := none, time := s.time + 1 }

/-- All frames of a directory. -/
def writesOf (dir : Directory) : List Write := dir.pairs.flatMap fun p => p.2.writes

/-- The sequence numbers that are read of a file are those of its frames, and over all files they
    increase with the time of the append. -/
structure Increasing (s : State) : Prop where
  readable : ∀ p ∈ s.dir.pairs,
    (readAll p.2.disk).map JournalEntry.seqnum <+: p.2.writes.map Write.seqnum
  distinct : ((writesOf s.dir).map Write.time).Nodup
  increasing : ∀ w ∈ writesOf s.dir, ∀ w' ∈ writesOf s.dir, w.time < w'.time → w.seqnum < w'.seqnum

/-- No header is behind the frames of its file. -/
def HeadersCurrent (dir : Directory) : Prop :=
  ∀ p ∈ dir.pairs, ∀ jf, JournalFile.openFile p.2.disk false = .ok jf →
    ∀ w ∈ p.2.writes, w.seqnum ≤ jf.header.tailSeqnum

/-- The journal is opened with current headers and a name that is listed; the length of a frame
    and the next number are not cut off. -/
def StartsInSync (s : State) : Action → Prop
  | .start config _ => HeadersCurrent s.dir ∧
      ∀ name ∈ config.activeFilename, hasExtension "journal" name
  | .append e .. | .crashBeforeHeader e .. => bodySize e < 2 ^ 32 ∧
      ∀ st ∈ s.storage, st.nextSeqnum.toNat + 1 < 2 ^ 64
  | _ => True

/-! ## Frames -/

/-- The frames of a file. -/
def frameBytes (ws : List Write) : Bytes := ws.flatMap fun w => serializeEntry w.entry w.seqnum

theorem frameBytes_concat (ws : List Write) (w : Write) :
    frameBytes (ws ++ [w]) = frameBytes ws ++ serializeEntry w.entry w.seqnum := by
  rw [frameBytes, List.flatMap_append, List.flatMap_singleton]
  rfl

theorem readEntries_frameBytes {ws : List Write} (h : ∀ w ∈ ws, bodySize w.entry < 2 ^ 32) :
    (readEntries (frameBytes ws)).1.map JournalEntry.seqnum <+: ws.map Write.seqnum := by
  induction ws with
  | nil => exact List.prefix_rfl
  | cons w ws ih =>
    rw [frameBytes, List.flatMap_cons]
    rcases deserializeEntry_seqnum (h w List.mem_cons_self) w.seqnum (frameBytes ws) with
      ⟨e', hok, hseq⟩ | ⟨err, rest, herr⟩
    · have := ih fun w' hw' => h w' (List.mem_cons_of_mem w hw')
      rw [show (ws.flatMap fun w => serializeEntry w.entry w.seqnum) = frameBytes ws from rfl,
        readEntries_ok hok, List.map_cons, List.map_cons, hseq]
      exact List.cons_prefix_cons.mpr ⟨rfl, this⟩
    · rw [show (ws.flatMap fun w => serializeEntry w.entry w.seqnum) = frameBytes ws from rfl,
        readEntries_error herr]
      exact List.nil_prefix

/-- A file is a header and its frames. -/
structure HasHeader (f : StoredFile) (h : FileHeader) : Prop where
  disk : f.disk = h.serialize ++ frameBytes f.writes
  tail : h.tailSeqnum.toNat + 1 < 2 ^ 64
  sizes : ∀ w ∈ f.writes, bodySize w.entry < 2 ^ 32

theorem HasHeader.openFile {f : StoredFile} {h : FileHeader} (hf : HasHeader f h)
    (writable : Bool) : JournalFile.openFile f.disk writable = .ok ⟨h, writable⟩ := by
  rw [hf.disk, openFile_serialize]

theorem HasHeader.readable {f : StoredFile} {h : FileHeader} (hf : HasHeader f h) :
    (readAll f.disk).map JournalEntry.seqnum <+: f.writes.map Write.seqnum := by
  rw [hf.disk, readAll_serialize]
  exact readEntries_frameBytes hf.sizes

/-- A file that was just created. -/
theorem hasHeader_new (fileId : BitVec 128) (compress : JournalCompress) :
    HasHeader ⟨(FileHeader.new fileId compress).serialize, []⟩ (FileHeader.new fileId compress) :=
  ⟨(List.append_nil _).symm, show 0 + 1 < 2 ^ 64 by decide,
    fun _ hw => absurd hw List.not_mem_nil⟩

/-! ## Operations of the directory -/

/-- A directory got from another one without writing a frame: files are removed, renamed or
    created, and every name is listed. -/
structure Derived (dir dir' : Directory) : Prop where
  writes : (writesOf dir').Subperm (writesOf dir)
  files : ∀ p ∈ dir'.pairs, (∃ name, (name, p.2) ∈ dir.pairs) ∨
    ∃ fileId compress, p.2 = ⟨(FileHeader.new fileId compress).serialize, []⟩
  names : (∀ p ∈ dir.pairs, hasExtension "journal" p.1) →
    ∀ p ∈ dir'.pairs, hasExtension "journal" p.1

theorem Derived.refl (dir : Directory) : Derived dir dir :=
  ⟨List.Subperm.refl _, fun p hp => .inl ⟨p.1, hp⟩, id⟩

theorem Derived.trans {dir dir' dir'' : Directory} (h : Derived dir dir')
    (h' : Derived dir' dir'') : Derived dir dir'' := by
  refine ⟨h'.writes.trans h.writes, fun p hp => ?_, fun hnames => h'.names (h.names hnames)⟩
  rcases h'.files p hp with ⟨name, hmem⟩ | hnew
  · exact h.files (name, p.2) hmem
  · exact .inr hnew

theorem writesOf_perm {dir : Directory} {ps : List (String × StoredFile)}
    (h : dir.pairs.Perm ps) : (writesOf dir).Perm (ps.flatMap fun p => p.2.writes) :=
  h.flatMap_right _

/-- The frames after a file is put in place of another one. -/
theorem writesOf_insert (dir : Directory) (name : String) (f : StoredFile) :
    (writesOf (dir.insert name f)).Perm (f.writes ++ writesOf (dir.erase name)) := by
  have := writesOf_perm (dir.insert_perm name f)
  rwa [List.flatMap_cons] at this

theorem writesOf_erase {dir : Directory} {name : String} {f : StoredFile}
    (h : (name, f) ∈ dir.pairs) : (writesOf dir).Perm (f.writes ++ writesOf (dir.erase name)) := by
  have := writesOf_perm (SortedMap.perm_of_mem h)
  rwa [List.flatMap_cons] at this

theorem writesOf_restrict (dir : Directory) (p : String → Bool) :
    (writesOf (dir.restrict p)).Sublist (writesOf dir) :=
  List.filter_sublist.flatMap _

theorem derived_restrict (dir : Directory) (p : String → Bool) : Derived dir (dir.restrict p) :=
  ⟨(writesOf_restrict dir p).subperm, fun q hq => .inl ⟨q.1, (SortedMap.mem_restrict.mp hq).1⟩,
    fun h q hq => h q (SortedMap.mem_restrict.mp hq).1⟩

theorem derived_rename (dir : Directory) (old : String) {new : String}
    (hnew : hasExtension "journal" new) : Derived dir (dir.rename old new) := by
  unfold Directory.rename
  cases hold : dir.get? old with
  | none => exact Derived.refl dir
  | some f =>
    have hmem := SortedMap.mem_of_get? hold
    refine ⟨?_, fun p hp => ?_, fun h p hp => ?_⟩
    · refine (writesOf_insert _ _ _).subperm.trans (List.Subperm.trans ?_
        (writesOf_erase hmem).symm.subperm)
      exact ((writesOf_restrict _ _).append_left _).subperm
    · rcases SortedMap.mem_insert hp with rfl | hp
      · exact .inl ⟨old, hmem⟩
      · exact .inl ⟨p.1, (SortedMap.mem_restrict.mp hp).1⟩
    · rcases SortedMap.mem_insert hp with rfl | hp
      · exact hnew
      · exact h p (SortedMap.mem_restrict.mp hp).1

theorem derived_create (dir : Directory) {name : String} (hname : hasExtension "journal" name)
    (fileId : BitVec 128) (compress : JournalCompress) :
    Derived dir (dir.insert name ⟨(JournalFile.create fileId compress).2, []⟩) := by
  refine ⟨?_, fun p hp => ?_, fun h p hp => ?_⟩
  · exact (writesOf_insert _ _ _).subperm.trans (writesOf_restrict _ _).subperm
  · rcases SortedMap.mem_insert hp with rfl | hp
    · exact .inr ⟨fileId, compress, rfl⟩
    · exact .inl ⟨p.1, hp⟩
  · rcases SortedMap.mem_insert hp with rfl | hp
    · exact hname
    · exact h p hp

theorem archivedName_journal (env : Env) : hasExtension "journal" (archivedName env) := by
  have hlist : (archivedName env).toList = "system@".toList ++ hexPad 16 env.timestamp ++
      ('-' :: hexPad 8 env.random) ++ ".journal".toList := String.toList_ofList
  unfold hasExtension
  rw [Bool.and_eq_true]
  constructor
  · rw [List.isSuffixOf_iff_suffix, hlist]
    exact List.suffix_append _ _
  · rw [decide_eq_true_eq, ← String.length_toList (s := archivedName env), hlist]
    simp only [List.length_append, List.length_cons]
    have h7 : "system@".toList.length = 7 := rfl
    have h8 : ".journal".toList.length = 8 := rfl
    have hext : "journal".length = 7 := rfl
    omega

/-! ## Operations of the storage -/

/-- The configured name of the active file is listed. -/
def ListedName (config : StorageConfig) : Prop :=
  ∀ name ∈ config.activeFilename, hasExtension "journal" name

/-- The active file of the storage is in the directory, with the cached header. -/
def HasActive (r : JournalStorage × Directory) : Prop :=
  ∃ f, (r.1.activePath, f) ∈ r.2.pairs ∧ HasHeader f r.1.activeFile.header

theorem createNewActiveFile_derived {config : StorageConfig} (hname : ListedName config)
    (dir : Directory) (env : Env) (next : UInt64) :
    Derived dir (createNewActiveFile config dir env next).2 := by
  have hlisted : hasExtension "journal" (config.activeFilename.getD "system.journal") := by
    cases hc : config.activeFilename with
    | none => decide
    | some name => exact hname name hc
  unfold createNewActiveFile
  dsimp only
  split
  · exact (derived_rename dir _ (archivedName_journal env)).trans
      (derived_create _ hlisted env.fileId config.compress)
  · exact derived_create dir hlisted env.fileId config.compress

theorem createNewActiveFile_active (config : StorageConfig) (dir : Directory) (env : Env)
    (next : UInt64) : HasActive (createNewActiveFile config dir env next) :=
  ⟨_, SortedMap.mem_insert_self _ _ _, hasHeader_new env.fileId config.compress⟩

theorem rotate_derived {st : JournalStorage} (hname : ListedName st.config) (dir : Directory)
    (env : Env) : Derived dir (st.rotate dir env).2 :=
  (derived_rename dir st.activePath (archivedName_journal env)).trans
    (createNewActiveFile_derived hname _ env st.nextSeqnum)

theorem vacuum_derived (st : JournalStorage) (dir : Directory) (n : ℕ) :
    Derived dir (st.vacuum dir n) := by
  unfold JournalStorage.vacuum
  exact derived_restrict dir _

/-- Vacuuming keeps the active file. -/
theorem vacuum_active {st : JournalStorage} {dir : Directory} (h : HasActive (st, dir)) (n : ℕ) :
    HasActive (st, st.vacuum dir n) := by
  obtain ⟨f, hmem, hf⟩ := h
  refine ⟨f, SortedMap.mem_restrict.mpr ⟨hmem, decide_eq_true fun hremoved => ?_⟩, hf⟩
  have := (List.mem_filter.mp (List.mem_of_mem_take hremoved)).2
  exact absurd rfl (of_decide_eq_true this)

theorem rotateIfFull_derived {st : JournalStorage} (hname : ListedName st.config)
    (dir : Directory) (env : Env) (n : ℕ) : Derived dir (st.rotateIfFull dir env n).2 := by
  unfold JournalStorage.rotateIfFull
  split
  · exact (rotate_derived hname dir env).trans (vacuum_derived _ _ n)
  · exact Derived.refl dir

theorem rotateIfFull_active {st : JournalStorage} {dir : Directory} (h : HasActive (st, dir))
    (env : Env) (n : ℕ) : HasActive (st.rotateIfFull dir env n) := by
  unfold JournalStorage.rotateIfFull
  split
  · exact vacuum_active (createNewActiveFile_active st.config _ env st.nextSeqnum) n
  · exact h

/-- A rotation keeps the configuration and the next number. -/
theorem rotateIfFull_storage (st : JournalStorage) (dir : Directory) (env : Env) (n : ℕ) :
    (st.rotateIfFull dir env n).1.nextSeqnum = st.nextSeqnum ∧
      (st.rotateIfFull dir env n).1.config = st.config := by
  unfold JournalStorage.rotateIfFull
  split
  · exact ⟨rfl, rfl⟩
  · exact ⟨rfl, rfl⟩

theorem lt_add_one {t : UInt64} (h : t.toNat + 1 < 2 ^ 64) : t < t + 1 := by
  rw [UInt64.lt_iff_toNat_lt, UInt64.toNat_add]
  have h1 : (1 : UInt64).toNat = 1 := rfl
  rw [h1, Nat.mod_eq_of_lt h]
  exact Nat.lt_succ_self _

/-- The number found by the scan is above every header. -/
theorem scanSeqnum_spec {files : List (String × StoredFile)}
    (h : ∀ p ∈ files, ∃ header, HasHeader p.2 header) (next : UInt64) :
    next ≤ scanSeqnum files next ∧
      ∀ p ∈ files, ∀ header, HasHeader p.2 header → header.tailSeqnum < scanSeqnum files next := by
  induction files generalizing next with
  | nil => exact ⟨UInt64.le_refl next, fun p hp => absurd hp List.not_mem_nil⟩
  | cons p files ih =>
    obtain ⟨header, hheader⟩ := h p List.mem_cons_self
    have hopen := hheader.openFile false
    have htail := lt_add_one hheader.tail
    have hscan : scanSeqnum (p :: files) next = scanSeqnum files
        (if header.tailSeqnum ≥ next then header.tailSeqnum + 1 else next) := by
      rw [scanSeqnum, List.foldl_cons, hopen]
      rfl
    obtain ⟨hle, hlt⟩ := ih (fun q hq => h q (List.mem_cons_of_mem p hq))
      (if header.tailSeqnum ≥ next then header.tailSeqnum + 1 else next)
    rw [hscan]
    refine ⟨?_, fun q hq header' hheader' => ?_⟩
    · split at hle <;> grind
    · rcases List.mem_cons.mp hq with rfl | hq
      · have heq : header' = header := by
          have := hheader'.openFile false
          rw [hopen] at this
          exact (JournalFile.mk.inj (Except.ok.inj this)).1.symm
        rw [heq]
        split at hle <;> grind
      · exact hlt q hq header' hheader'

theorem openOrCreate_derived {config : StorageConfig} (hname : ListedName config)
    (dir : Directory) (env : Env) (next : UInt64) :
    Derived dir (openOrCreateActiveFile config dir env next).2 := by
  have hcreate := createNewActiveFile_derived hname dir env (scanSeqnum (listJournalFiles dir) next)
  unfold openOrCreateActiveFile
  dsimp only
  split
  · split
    · split
      · exact hcreate
      · split
        · exact Derived.refl dir
        · exact hcreate
    · exact hcreate
  · split
    · split
      · split
        · exact Derived.refl dir
        · exact hcreate
      · exact hcreate
    · exact hcreate

theorem openOrCreate_active {config : StorageConfig} {dir : Directory}
    (h : ∀ p ∈ dir.pairs, ∃ header, HasHeader p.2 header) (env : Env) (next : UInt64) :
    HasActive (openOrCreateActiveFile config dir env next) := by
  have hcreate := createNewActiveFile_active config dir env (scanSeqnum (listJournalFiles dir) next)
  have hopened : ∀ {name f jf}, (name, f) ∈ dir.pairs →
      JournalFile.openFile f.disk true = .ok jf →
      HasActive (⟨config, name, jf, scanSeqnum (listJournalFiles dir) next⟩, dir) := by
    intro name f jf hmem hopen
    obtain ⟨header, hheader⟩ := h (name, f) hmem
    rw [hheader.openFile] at hopen
    obtain rfl := Except.ok.inj hopen
    exact ⟨f, hmem, hheader⟩
  unfold openOrCreateActiveFile
  dsimp only
  split
  · rename_i f hget
    split
    · rename_i jf hopen
      split
      · exact hcreate
      · split
        · exact hopened (SortedMap.mem_of_get? hget) hopen
        · exact hcreate
    · exact hcreate
  · split
    · rename_i newest f hlast
      split
      · rename_i jf hopen
        split
        · exact hopened (List.mem_filter.mp (List.mem_of_getLast? hlast)).1 hopen
        · exact hcreate
      · exact hcreate
    · exact hcreate

theorem openOrCreate_storage (config : StorageConfig) (dir : Directory) (env : Env)
    (next : UInt64) :
    (openOrCreateActiveFile config dir env next).1.nextSeqnum =
        scanSeqnum (listJournalFiles dir) next ∧
      (openOrCreateActiveFile config dir env next).1.config = config := by
  unfold openOrCreateActiveFile
  dsimp only
  repeat' split
  all_goals exact ⟨rfl, rfl⟩

/-! ## The invariant -/

/-- What holds while the journal is open. -/
structure Running (dir : Directory) (st : JournalStorage) : Prop where
  active : HasActive (st, dir)
  next : ∀ w ∈ writesOf dir, w.seqnum < st.nextSeqnum
  name : ListedName st.config

/-- The invariant of the runs that start in sync. -/
structure Inv (s : State) : Prop where
  names : ∀ p ∈ s.dir.pairs, hasExtension "journal" p.1
  headers : ∀ p ∈ s.dir.pairs, ∃ header, HasHeader p.2 header
  distinct : ((writesOf s.dir).map Write.time).Nodup
  earlier : ∀ w ∈ writesOf s.dir, w.time < s.time
  increasing : ∀ w ∈ writesOf s.dir, ∀ w' ∈ writesOf s.dir, w.time < w'.time → w.seqnum < w'.seqnum
  running : ∀ st ∈ s.storage, Running s.dir st

theorem inv_initial : Inv State.initial where
  names _ hp := absurd hp List.not_mem_nil
  headers _ hp := absurd hp List.not_mem_nil
  distinct := List.nodup_nil
  earlier _ hw := absurd hw List.not_mem_nil
  increasing _ hw := absurd hw List.not_mem_nil
  running st hst := absurd hst (Option.not_mem_none st)

theorem Inv.toIncreasing {s : State} (h : Inv s) : Increasing s where
  readable p hp := by
    obtain ⟨header, hheader⟩ := h.headers p hp
    exact hheader.readable
  distinct := h.distinct
  increasing := h.increasing

/-- What an operation that writes no frame leaves. -/
theorem Inv.derived {s : State} (h : Inv s) {dir : Directory} (hd : Derived s.dir dir)
    {storage : Option JournalStorage} (hrun : ∀ st ∈ storage, Running dir st) :
    Inv { s with dir := dir, storage := storage } where
  names := hd.names h.names
  headers p hp := by
    rcases hd.files p hp with ⟨name, hmem⟩ | ⟨fileId, compress, hnew⟩
    · exact h.headers (name, p.2) hmem
    · rw [hnew]
      exact ⟨_, hasHeader_new fileId compress⟩
  distinct := by
    obtain ⟨ws, hperm, hsub⟩ := hd.writes
    exact (hperm.map _).nodup_iff.mp (h.distinct.sublist (hsub.map _))
  earlier w hw := h.earlier w (hd.writes.subset hw)
  increasing w hw w' hw' := h.increasing w (hd.writes.subset hw) w' (hd.writes.subset hw')
  running := hrun

/-- The numbers below the next one stay below it. -/
theorem Running.derived {dir dir' : Directory} {st st' : JournalStorage} (h : Running dir st)
    (hd : Derived dir dir') (hactive : HasActive (st', dir'))
    (hnext : st'.nextSeqnum = st.nextSeqnum) (hconfig : st'.config = st.config) :
    Running dir' st' where
  active := hactive
  next w hw := hnext ▸ h.next w (hd.writes.subset hw)
  name := hconfig ▸ h.name

/-- Opening the journal when all headers are current. -/
theorem Inv.start {s : State} (h : Inv s) {config : StorageConfig} (hcurrent : HeadersCurrent s.dir)
    (hname : ListedName config) (env : Env) :
    Inv (s.opened (JournalStorage.new config s.dir env)) := by
  have hd := openOrCreate_derived hname s.dir env 1
  obtain ⟨hnext, hconfig⟩ := openOrCreate_storage config s.dir env 1
  refine h.derived hd fun st hst => ?_
  obtain rfl := Option.mem_some_iff.mp hst
  refine ⟨openOrCreate_active h.headers env 1, fun w hw => ?_, ?_⟩
  · obtain ⟨p, hp, hwp⟩ := List.mem_flatMap.mp (hd.writes.subset hw)
    obtain ⟨header, hheader⟩ := h.headers p hp
    have hlisted : p ∈ listJournalFiles s.dir := List.mem_filter.mpr ⟨hp, h.names p hp⟩
    have hbelow : header.tailSeqnum < scanSeqnum (listJournalFiles s.dir) 1 :=
      (scanSeqnum_spec (fun q hq => h.headers q (List.mem_filter.mp hq).1) 1).2 p hlisted header
        hheader
    have hcur : w.seqnum ≤ header.tailSeqnum := hcurrent p hp _ (hheader.openFile false) w hwp
    rw [JournalStorage.new, hnext]
    exact UInt64.lt_of_le_of_lt hcur hbelow
  · rw [JournalStorage.new, hconfig]
    exact hname

/-- One frame more. -/
theorem writesOf_written {dir : Directory} {name : String} {f : StoredFile}
    (h : (name, f) ∈ dir.pairs) (disk : Bytes) (w : Write) :
    (writesOf (dir.insert name (f.written disk w))).Perm (w :: writesOf dir) := by
  refine (writesOf_insert dir name _).trans ?_
  rw [StoredFile.written, List.append_assoc]
  refine List.perm_middle.trans (List.Perm.cons w ?_)
  exact (writesOf_erase h).symm

/-- A frame is written under the next number. -/
theorem Inv.write {s : State} (h : Inv s) {st : JournalStorage} (hst : Running s.dir st)
    {f : StoredFile} (hf : (st.activePath, f) ∈ s.dir.pairs) {e : JournalEntry} {disk : Bytes}
    {header : FileHeader} (hheader : HasHeader (f.written disk ⟨s.time, e, st.nextSeqnum⟩) header)
    {storage : Option JournalStorage}
    (hrun : ∀ st' ∈ storage, HasActive (st', s.dir.insert st.activePath
        (f.written disk ⟨s.time, e, st.nextSeqnum⟩)) ∧
      st.nextSeqnum < st'.nextSeqnum ∧ ListedName st'.config) :
    Inv ⟨s.dir.insert st.activePath (f.written disk ⟨s.time, e, st.nextSeqnum⟩), storage,
      s.time + 1⟩ := by
  have hperm := writesOf_written hf disk ⟨s.time, e, st.nextSeqnum⟩
  refine ⟨fun p hp => ?_, fun p hp => ?_, ?_, fun w hw => ?_, fun w hw w' hw' hlt => ?_,
    fun st' hst' => ?_⟩
  · rcases SortedMap.mem_insert hp with rfl | hp
    · exact h.names (st.activePath, f) hf
    · exact h.names p hp
  · rcases SortedMap.mem_insert hp with rfl | hp
    · exact ⟨header, hheader⟩
    · exact h.headers p hp
  · refine (hperm.map _).nodup_iff.mpr (List.nodup_cons.mpr ⟨fun hmem => ?_, h.distinct⟩)
    obtain ⟨w, hw, htime⟩ := List.mem_map.mp hmem
    exact absurd htime (Nat.ne_of_lt (h.earlier w hw))
  · rcases List.mem_cons.mp (hperm.mem_iff.mp hw) with rfl | hw
    · exact Nat.lt_succ_self _
    · exact Nat.lt_succ_of_lt (h.earlier w hw)
  · rcases List.mem_cons.mp (hperm.mem_iff.mp hw) with rfl | hw
    · rcases List.mem_cons.mp (hperm.mem_iff.mp hw') with rfl | hw'
      · exact absurd hlt (Nat.lt_irrefl _)
      · exact absurd hlt (Nat.lt_asymm (h.earlier w' hw'))
    · rcases List.mem_cons.mp (hperm.mem_iff.mp hw') with rfl | hw'
      · exact hst.next w hw
      · exact h.increasing w hw w' hw' hlt
  · obtain ⟨hactive, hnext, hname⟩ := hrun st' hst'
    refine ⟨hactive, fun w hw => ?_, hname⟩
    rcases List.mem_cons.mp (hperm.mem_iff.mp hw) with rfl | hw
    · exact hnext
    · exact UInt64.lt_trans (hst.next w hw) hnext

/-- The header of a file with one frame more. -/
theorem HasHeader.written {f : StoredFile} {h h' : FileHeader} (hf : HasHeader f h) {w : Write}
    (hsize : bodySize w.entry < 2 ^ 32) (htail : h'.tailSeqnum.toNat + 1 < 2 ^ 64) :
    HasHeader (f.written (h'.serialize ++ (frameBytes f.writes ++
      serializeEntry w.entry w.seqnum)) w) h' where
  disk := by
    show _ = h'.serialize ++ frameBytes (f.writes ++ [w])
    rw [frameBytes_concat]
    rfl
  tail := htail
  sizes w' hw' := by
    rcases List.mem_append.mp hw' with hw' | hw'
    · exact hf.sizes w' hw'
    · rw [List.mem_singleton.mp hw']
      exact hsize

/-- An append to the active file. -/
theorem Inv.append {s : State} (h : Inv s) {st : JournalStorage} (hst : Running s.dir st)
    {e : JournalEntry} (hsize : bodySize e < 2 ^ 32) (hnext : st.nextSeqnum.toNat + 1 < 2 ^ 64)
    {r : JournalStorage × Directory} (hr : st.appendToActive s.dir e s.time = some r) :
    Inv { s.opened r with time := s.time + 1 } := by
  obtain ⟨f, hf, hheader⟩ := hst.active
  unfold JournalStorage.appendToActive at hr
  cases hget : s.dir.get? st.activePath with
  | none => rw [hget] at hr; cases hr
  | some f' =>
    obtain rfl := SortedMap.eq_of_mem hf (SortedMap.mem_of_get? hget)
    rw [hget] at hr
    dsimp only at hr
    rcases happ : st.activeFile.append f.disk e st.nextSeqnum with err | ⟨jf, disk⟩
    · rw [happ] at hr; cases hr
    · rw [happ] at hr
      obtain rfl := Option.some.inj hr
      rw [hheader.disk] at happ
      obtain ⟨rfl, rfl⟩ := append_serialize happ
      have hwritten := @HasHeader.written _ _
        (st.activeFile.header.appended st.nextSeqnum (serializeEntry e st.nextSeqnum).length)
        hheader ⟨s.time, e, st.nextSeqnum⟩ hsize hnext
      refine h.write hst hf hwritten fun st' hst' => ?_
      obtain rfl := Option.mem_some_iff.mp hst'
      exact ⟨⟨_, SortedMap.mem_insert_self _ _ _, hwritten⟩, lt_add_one hnext, hst.name⟩

/-- A crash between the frame and the header of an append. -/
theorem Inv.frameOnly {s : State} (h : Inv s) {st : JournalStorage} (hst : Running s.dir st)
    {e : JournalEntry} (hsize : bodySize e < 2 ^ 32) {dir : Directory}
    (hdir : st.frameOnly s.dir e s.time = some dir) : Inv ⟨dir, none, s.time + 1⟩ := by
  obtain ⟨f, hf, hheader⟩ := hst.active
  obtain ⟨f', hget, rfl⟩ := Option.map_eq_some_iff.mp hdir
  obtain rfl := SortedMap.eq_of_mem hf (SortedMap.mem_of_get? hget)
  have hwritten := hheader.written (w := ⟨s.time, e, st.nextSeqnum⟩) hsize hheader.tail
  rw [← List.append_assoc, ← hheader.disk] at hwritten
  exact h.write hst hf hwritten fun st' hst' => absurd hst' (Option.not_mem_none st')

/-- Every step in sync keeps the invariant. -/
theorem Inv.step {s s' : State} {a : Action} (h : Inv s) (hok : StartsInSync s a)
    (hs : step s a = some s') : Inv s' := by
  have hready : ∀ {st : JournalStorage} (env : Env) (n : ℕ), st ∈ s.storage →
      Inv (s.opened (st.rotateIfFull s.dir env n)) ∧
        Running (st.rotateIfFull s.dir env n).2 (st.rotateIfFull s.dir env n).1 ∧
        (st.rotateIfFull s.dir env n).1.nextSeqnum = st.nextSeqnum := by
    intro st env n hst
    have hrun := h.running st hst
    have hd := rotateIfFull_derived hrun.name s.dir env n
    obtain ⟨hnext, hconfig⟩ := rotateIfFull_storage st s.dir env n
    have hrun' := hrun.derived hd (rotateIfFull_active hrun.active env n) hnext hconfig
    refine ⟨h.derived hd fun st' hst' => ?_, hrun', hnext⟩
    obtain rfl := Option.mem_some_iff.mp hst'
    exact hrun'
  cases a with
  | start config env =>
    simp only [Sequence.step] at hs
    split at hs
    · obtain rfl := Option.some.inj hs
      exact h.start hok.1 hok.2 env
    · cases hs
  | append e env n =>
    obtain ⟨hsize, hnext⟩ := hok
    obtain ⟨st, hst, hs⟩ := Option.bind_eq_some_iff.mp hs
    obtain ⟨r, hr, rfl⟩ := Option.map_eq_some_iff.mp hs
    obtain ⟨hinv, hrun, hseq⟩ := hready env n hst
    exact hinv.append hrun hsize (hseq ▸ hnext st hst) hr
  | rotate env =>
    obtain ⟨st, hst, rfl⟩ := Option.map_eq_some_iff.mp hs
    have hrun := h.running st hst
    have hd := rotate_derived hrun.name s.dir env
    refine h.derived hd fun st' hst' => ?_
    obtain rfl := Option.mem_some_iff.mp hst'
    exact hrun.derived hd (createNewActiveFile_active st.config _ env st.nextSeqnum) rfl rfl
  | vacuum n =>
    obtain ⟨st, hst, rfl⟩ := Option.map_eq_some_iff.mp hs
    have hrun := h.running st hst
    refine h.derived (vacuum_derived st s.dir n) fun st' hst' => ?_
    obtain rfl := Option.some.inj (hst.symm.trans hst')
    exact hrun.derived (vacuum_derived st s.dir n) (vacuum_active hrun.active n) rfl rfl
  | crash =>
    obtain ⟨st, -, rfl⟩ := Option.map_eq_some_iff.mp hs
    exact h.derived (Derived.refl s.dir) fun st' hst' => absurd hst' (Option.not_mem_none st')
  | crashInRotation env =>
    obtain ⟨st, -, rfl⟩ := Option.map_eq_some_iff.mp hs
    exact h.derived (derived_rename s.dir st.activePath (archivedName_journal env)) fun st' hst' =>
      absurd hst' (Option.not_mem_none st')
  | crashBeforeHeader e env n =>
    obtain ⟨hsize, -⟩ := hok
    obtain ⟨st, hst, hs⟩ := Option.bind_eq_some_iff.mp hs
    obtain ⟨dir, hdir, rfl⟩ := Option.map_eq_some_iff.mp hs
    obtain ⟨hinv, hrun, -⟩ := hready env n hst
    exact hinv.frameOnly hrun hsize hdir

/-- In every run in which no restart finds a header behind the frames of its file, the sequence
    numbers that can be read are those of frames, and increase in the order of the appends. -/
theorem increasing_of_startsInSync {actions : List Action} {s : State}
    (hok : RunMeets step StartsInSync State.initial actions)
    (hs : run step State.initial actions = some s) : Increasing s :=
  (run_inv_of_meets (fun _ _ _ h hok hs => h.step hok hs) actions inv_initial hok hs).toIncreasing

/-- The header of a file is not behind its frames, as a test. -/
def headerCurrent (f : StoredFile) : Bool :=
  match JournalFile.openFile f.disk false with
  | .ok jf => f.writes.all fun w => w.seqnum ≤ jf.header.tailSeqnum
  | .error _ => true

theorem headerCurrent_iff (f : StoredFile) : headerCurrent f = true ↔
    ∀ jf, JournalFile.openFile f.disk false = .ok jf →
      ∀ w ∈ f.writes, w.seqnum ≤ jf.header.tailSeqnum := by
  unfold headerCurrent
  cases JournalFile.openFile f.disk false with
  | ok jf => simp
  | error err => simp

instance (dir : Directory) : Decidable (HeadersCurrent dir) :=
  decidable_of_iff (∀ p ∈ dir.pairs, headerCurrent p.2 = true) <|
    forall_congr' fun p => forall_congr' fun _ => headerCurrent_iff p.2

instance : ∀ (s : State) (a : Action), Decidable (StartsInSync s a)
  | s, .start config _ => inferInstanceAs (Decidable (HeadersCurrent s.dir ∧
      ∀ name ∈ config.activeFilename, hasExtension "journal" name))
  | s, .append e _ _ | s, .crashBeforeHeader e _ _ => inferInstanceAs (Decidable
      (bodySize e < 2 ^ 32 ∧ ∀ st ∈ s.storage, st.nextSeqnum.toNat + 1 < 2 ^ 64))
  | _, .rotate _ | _, .vacuum _ | _, .crash | _, .crashInRotation _ => .isTrue trivial

/-- The default size limit. -/
def defaultConfig : StorageConfig := ⟨64 * 1024 * 1024, .zstd, none⟩

/-- An entry without fields. -/
def plainEntry (realtimeUsec : UInt64) : JournalEntry where
  fields := SortedMap.empty
  realtimeUsec := realtimeUsec
  monotonicUsec := 0
  seqnum := 0

/-- Two appends with a restart between them. -/
def restarted : List Action :=
  [.start defaultConfig ⟨7, 1, 1⟩, .append (plainEntry 100) ⟨7, 1, 1⟩ 0, .crash,
    .start defaultConfig ⟨8, 2, 2⟩, .append (plainEntry 200) ⟨8, 2, 2⟩ 0]

theorem increasing_of_startsInSync_restarted :
    ∃ s, run step State.initial restarted = some s ∧ Increasing s ∧ s.time = 2 := by
  have hok : RunMeets step StartsInSync State.initial restarted := by decide
  rcases hs : run step State.initial restarted with _ | s
  · exact absurd hs (by decide)
  · refine ⟨s, rfl, increasing_of_startsInSync hok hs, ?_⟩
    rw [← Option.some.inj hs]
    decide

/-- An append that dies before its header, a restart, and another append. -/
def headerLost : List Action :=
  [.start defaultConfig ⟨7, 1, 1⟩, .crashBeforeHeader (plainEntry 100) ⟨7, 1, 1⟩ 0,
    .start defaultConfig ⟨8, 2, 2⟩, .append (plainEntry 200) ⟨8, 2, 2⟩ 0]

/-- Both entries are read, with the same sequence number. -/
theorem crash_before_header_repeats_seqnum :
    ∃ s, run step State.initial headerLost = some s ∧
      (s.dir.pairs.flatMap fun p => readAll p.2.disk) =
        [(plainEntry 100).stored 1, (plainEntry 200).stored 1] := by
  refine ⟨_, Option.some_get (show Option.isSome _ by decide) |>.symm, ?_⟩
  decide

end OxidizedSystemd.Journal.Sequence
