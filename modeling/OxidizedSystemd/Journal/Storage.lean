import OxidizedSystemd.Journal.File
import OxidizedSystemd.Lib.Text

/-!
# Journal storage

Model of `JournalStorage` (`journal/storage.rs`, lines 478–960): the active file,
rotation, vacuuming, and the sequence numbers, which are recovered from the
headers of the files when the storage is opened.

A directory maps file names to their contents. Each file also carries the list
of the frames that were written to it and when; no definition reads that list.
Operations of the file system succeed.
-/

namespace OxidizedSystemd.Journal

open OxidizedSystemd.Lib

/-- A frame that was written: the how manieth, of which entry, under which number. -/
structure Write where
  time : ℕ
  entry : JournalEntry
  seqnum : UInt64
  deriving DecidableEq

/-- A file of the journal directory. -/
structure StoredFile where
  disk : Bytes
  writes : List Write
  deriving DecidableEq

/-- The journal directory, by file name. -/
abbrev Directory := SortedMap String StoredFile

/-- What `JournalStorage` reads of its `StorageConfig` (lines 480–523). -/
structure StorageConfig where
  maxFileSize : UInt64
  compress : JournalCompress
  activeFilename : Option String
  deriving DecidableEq

/-- `struct JournalStorage` (lines 546–554). The active file is `None` only in the middle of a
    rotation. -/
structure JournalStorage where
  config : StorageConfig
  activePath : String
  activeFile : JournalFile
  nextSeqnum : UInt64
  deriving DecidableEq

/-- The file id, the time and the random number that a new or an archived file gets. -/
structure Env where
  fileId : BitVec 128
  timestamp : ℕ
  random : ℕ
  deriving DecidableEq

/-- The name of an archived file (lines 667–668 and 856–857). -/
def archivedName (env : Env) : String :=
  String.ofList ("system@".toList ++ hexPad 16 env.timestamp ++ ('-' :: hexPad 8 env.random) ++
    ".journal".toList)

/-- `fs::rename`. -/
def Directory.rename (dir : Directory) (old new : String) : Directory :=
  match dir.get? old with
  | some f => (dir.erase old).insert new f
  | none => dir

/-- `list_journal_files` (lines 999–1015), sorted by name. -/
def listJournalFiles (dir : Directory) : List (String × StoredFile) :=
  dir.pairs.filter fun p => hasExtension "journal" p.1

/-- `create_new_active_file` (lines 841–864). -/
def createNewActiveFile (config : StorageConfig) (dir : Directory) (env : Env)
    (nextSeqnum : UInt64) : JournalStorage × Directory :=
  let filename := config.activeFilename.getD "system.journal"
  let dir := if (dir.get? filename).isSome then dir.rename filename (archivedName env) else dir
  let created := JournalFile.create env.fileId config.compress
  (⟨config, filename, created.1, nextSeqnum⟩, dir.insert filename ⟨created.2, []⟩)

/-- The scan for the highest `tail_seqnum` (lines 807–813). -/
def scanSeqnum (files : List (String × StoredFile)) (nextSeqnum : UInt64) : UInt64 :=
  files.foldl (fun next p =>
    match JournalFile.openFile p.2.disk false with
    | .ok jf => if jf.header.tailSeqnum ≥ next then jf.header.tailSeqnum + 1 else next
    | .error _ => next) nextSeqnum

/-- `open_or_create_active_file` (lines 800–839). -/
def openOrCreateActiveFile (config : StorageConfig) (dir : Directory) (env : Env)
    (nextSeqnum : UInt64) : JournalStorage × Directory :=
  let files := listJournalFiles dir
  let next := scanSeqnum files nextSeqnum
  match dir.get? "system.journal" with
  | some f =>
    match JournalFile.openFile f.disk true with
    | .ok jf =>
      if jf.header.compress ≠ config.compress then createNewActiveFile config dir env next
      else if jf.header.fileSize < config.maxFileSize then
        (⟨config, "system.journal", jf, next⟩, dir)
      else createNewActiveFile config dir env next
    | .error _ => createNewActiveFile config dir env next
  | none =>
    match files.getLast? with
    | some (newest, f) =>
      match JournalFile.openFile f.disk true with
      | .ok jf =>
        if jf.header.fileSize < config.maxFileSize then (⟨config, newest, jf, next⟩, dir)
        else createNewActiveFile config dir env next
      | .error _ => createNewActiveFile config dir env next
    | none => createNewActiveFile config dir env next

/-- `JournalStorage::new` (lines 561–582). -/
def JournalStorage.new (config : StorageConfig) (dir : Directory) (env : Env) :
    JournalStorage × Directory := openOrCreateActiveFile config dir env 1

/-- The first part of `rotate` (lines 661–671): the active file gets its archive name. -/
def JournalStorage.archive (st : JournalStorage) (dir : Directory) (env : Env) : Directory :=
  dir.rename st.activePath (archivedName env)

/-- `rotate` (lines 658–680). -/
def JournalStorage.rotate (st : JournalStorage) (dir : Directory) (env : Env) :
    JournalStorage × Directory :=
  createNewActiveFile st.config (st.archive dir env) env st.nextSeqnum

/-- `vacuum` (lines 870–959): the first `n` files by name are removed, not the active one. The
    limits and the free space decide how many. -/
def JournalStorage.vacuum (st : JournalStorage) (dir : Directory) (n : ℕ) : Directory :=
  let removed := (((listJournalFiles dir).map Prod.fst).filter (· ≠ st.activePath)).take n
  dir.restrict fun name => name ∉ removed

/-- The rotation of an `append` into a full file, with the vacuuming after it (lines 601–607). -/
def JournalStorage.rotateIfFull (st : JournalStorage) (dir : Directory) (env : Env) (n : ℕ) :
    JournalStorage × Directory :=
  if st.activeFile.header.fileSize ≥ st.config.maxFileSize then
    ((st.rotate dir env).1, (st.rotate dir env).1.vacuum (st.rotate dir env).2 n)
  else (st, dir)

/-- The active file after its append wrote `disk`. -/
def StoredFile.written (f : StoredFile) (disk : Bytes) (w : Write) : StoredFile :=
  ⟨disk, f.writes ++ [w]⟩

/-- The rest of `append` (lines 614–621). -/
def JournalStorage.appendToActive (st : JournalStorage) (dir : Directory) (e : JournalEntry)
    (time : ℕ) : Option (JournalStorage × Directory) :=
  match dir.get? st.activePath with
  | none => none
  | some f =>
    match st.activeFile.append f.disk e st.nextSeqnum with
    | .error _ => none
    | .ok (jf, disk) =>
      some (⟨st.config, st.activePath, jf, st.nextSeqnum + 1⟩,
        dir.insert st.activePath (f.written disk ⟨time, e, st.nextSeqnum⟩))

/-- What is left when the process dies in `append` between the frame and the header. -/
def JournalStorage.frameOnly (st : JournalStorage) (dir : Directory) (e : JournalEntry)
    (time : ℕ) : Option Directory :=
  (dir.get? st.activePath).map fun f =>
    dir.insert st.activePath (f.written (f.disk ++ serializeEntry e st.nextSeqnum)
      ⟨time, e, st.nextSeqnum⟩)

end OxidizedSystemd.Journal
