import OxidizedSystemd.Lib.Grouping
import OxidizedSystemd.Lib.Hex
import OxidizedSystemd.Lib.Lines
import OxidizedSystemd.Lib.Utf8
import OxidizedSystemd.Udevd.UEvent

/-!
# The device database

Model of `write_device_db` and of the readers of what it writes (`udevd/src/lib.rs`, lines
2081–2118, 3750–3806 and 4473–4638): `IMPORT{db}`, `IMPORT{parent}` and `ImportProperty=`. The
database directory is a map from file names to texts. An entry is replaced as a whole, under the
lock.

* `writeDeviceDb`: a new entry.
* `importDb`, `importParent`, `readExistingUdevDbEnv`: its readers.
-/

namespace OxidizedSystemd.Udevd

open Lib

/-- `str::replace` of each `/`. -/
def escapeSlashes (text : Text) : Text :=
  text.flatMap fun c => if c = '/' then "\\x2f".toList else [c]

/-- The last component of a path (`rsplit('/').next()`). -/
def baseName (path : Text) : Text := (path.splitOn '/').getLastD []

/-- `device_id`. -/
def deviceId (event : UEvent) : Text :=
  if event.major ≠ [] ∧ event.minor ≠ [] then
    (if event.subsystem = "block".toList then 'b' else 'c') :: (event.major ++ ':' :: event.minor)
  else if event.subsystem = "net".toList ∧ ((event.env.get? "IFINDEX".toList).getD []) ≠ [] then
    'n' :: (event.env.get? "IFINDEX".toList).getD []
  else if event.subsystem ≠ [] then
    '+' :: (event.subsystem ++ ':' :: baseName event.devpath)
  else 'n' :: escapeSlashes event.devpath

/-! ## Writing -/

/-- The fields of `RuleResult` that are read. `SYMLINK=` is split at white space, and so no link has
    a line feed (lines 1866–1887). -/
structure RuleResult where
  symlinks : List Text
  tags : List Text
  options : List Text
  symlink_newline : ∀ link ∈ symlinks, '\n' ∉ link

/-- The order in which the environment is visited. -/
structure Visit (env : SortedMap Text Text) where
  pairs : List (Text × Text)
  perm : pairs.Perm env.pairs

/-- One byte of a value (lines 3799–3803), as characters. -/
def escapeByte (b : UInt8) : Text :=
  if (1 ≤ b.toNat ∧ b.toNat ≤ 0x20) ∨ b.toNat = 0x7F then '\\' :: 'x' :: hexPad 2 b.toNat
  else [Char.ofNat b.toNat]

/-- `escape_db_value`. -/
def escapeDbValue (value : Text) : Text :=
  (value.flatMap String.utf8EncodeChar).flatMap escapeByte

/-- A tag that is not there yet is put behind the others. -/
def pushTag (tags : List Text) (tag : Text) : List Text :=
  if tags.contains tag then tags else tags ++ [tag]

/-- The tags of an entry (lines 4557–4565). -/
def previousTags (content : Text) : List Text :=
  (((textLines content).filterMap (stripPrefix "G:".toList)).filter (· ≠ [])).foldl pushTag []

/-- Every tag that the device has had (lines 4556–4570). -/
def mergedTags (previous : Option Text) (tags : List Text) : List Text :=
  tags.foldl pushTag ((previous.map previousTags).getD [])

/-- `format_joined`. -/
def formatJoined (tags : List Text) : Text :=
  if tags = [] then [] else tags.foldl (fun acc tag => acc ++ tag ++ [':']) [':']

/-- The keys that are not stored (lines 4597–4599). -/
def skippedKeys : List Text :=
  ["ACTION".toList, "DEVPATH".toList, "SUBSYSTEM".toList, "SEQNUM".toList, "SYNTH_UUID".toList]

def propertyLine (key value : Text) : Text := 'E' :: ':' :: (key ++ '=' :: value)

variable {env : SortedMap Text Text}

/-- The properties of the environment that are stored. -/
def Visit.stored (visit : Visit env) : List (Text × Text) :=
  visit.pairs.filter fun p => !skippedKeys.contains p.1

/-- The pseudo-properties for the tags (lines 4606–4624). -/
def tagProperties (merged tags : List Text) : List (Text × Text) :=
  (if merged = [] then [] else [("TAGS".toList, formatJoined merged)]) ++
    if tags = [] then [] else [("CURRENT_TAGS".toList, formatJoined tags)]

/-- The lines of an entry (lines 4572–4624). -/
def dbLines (result : RuleResult) (merged : List Text) (visit : Visit env) : List Text :=
  result.symlinks.map ("S:".toList ++ ·) ++ merged.map ("G:".toList ++ ·) ++
    result.tags.map ("Q:".toList ++ ·) ++ (if result.symlinks = [] then [] else ["L:0".toList]) ++
    visit.stored.map (fun p => propertyLine p.1 (escapeDbValue p.2)) ++
    (tagProperties merged result.tags).map fun p => propertyLine p.1 p.2

/-- The database: only devices have entries. -/
structure DeviceDb where
  file : Text → Option Text
  named : ∀ name, (file name).isSome → ∃ event, name = deviceId event

/-- `write_device_db`. -/
def writeDeviceDb (db : DeviceDb) (event : UEvent) (result : RuleResult) (visit : Visit event.env) :
    DeviceDb where
  file := Function.update db.file (deviceId event) (some (unlines (dbLines result
    (mergedTags (db.file (deviceId event)) result.tags) visit)))
  named := by
    intro name h
    by_cases hname : name = deviceId event
    · exact ⟨event, hname⟩
    · rw [Function.update_of_ne hname] at h
      exact db.named name h

/-! ## Reading -/

/-- The key and the value of a line of an entry. -/
def readEntry (line : Text) : Option (Text × Text) :=
  (stripPrefix "E:".toList line).bind (splitOnce ['='])

def readEntries (content : Text) : List (Text × Text) := (textLines content).filterMap readEntry

/-- Properties entered into an environment. -/
def enter (env : SortedMap Text Text) (entries : List (Text × Text)) : SortedMap Text Text :=
  entries.foldl (fun m p => m.insert p.1 p.2) env

/-- `IMPORT{db}` (lines 2081–2094): the environment behind it. -/
def importDb (db : DeviceDb) (event : UEvent) : SortedMap Text Text :=
  match db.file (deviceId event) with
  | some content => enter event.env (readEntries content)
  | none => event.env

/-- The path of the parent (lines 2097–2103), for paths without empty components and dots. -/
def parentDevpath (devpath : Text) : Option Text :=
  match (devpath.splitOn '/').filter (· ≠ []) with
  | [] => none
  | components => some ('/' :: ['/'].intercalate components.dropLast)

/-- `IMPORT{parent}` (lines 2095–2118). -/
def importParent (db : DeviceDb) (event : UEvent) : SortedMap Text Text :=
  match (parentDevpath event.devpath).bind fun devpath => db.file (escapeSlashes devpath) with
  | some content => enter event.env (readEntries content)
  | none => event.env

/-- `udev_db_path_for_event`: the file name. -/
def udevDbNameForEvent (event : UEvent) : Option Text :=
  match event.env.get? "IFINDEX".toList with
  | some ifindex =>
    if event.subsystem = "net".toList then some ('n' :: ifindex) else deviceNumber
  | none => deviceNumber
where
  deviceNumber : Option Text :=
    match event.env.get? "MAJOR".toList, event.env.get? "MINOR".toList with
    | some major, some minor =>
      some ((if event.subsystem = "block".toList then 'b' else 'c') :: (major ++ ':' :: minor))
    | _, _ => none

/-- `read_existing_udev_db_env`, which `ImportProperty=` reads from. -/
def readExistingUdevDbEnv (db : DeviceDb) (event : UEvent) : Option (SortedMap Text Text) :=
  ((udevDbNameForEvent event).bind db.file).map fun content => enter .empty (readEntries content)

end OxidizedSystemd.Udevd
