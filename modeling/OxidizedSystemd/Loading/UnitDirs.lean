import Mathlib.Data.Char
import Mathlib.Data.List.Lex
import OxidizedSystemd.Lib.Grouping
import OxidizedSystemd.Lib.Layers
import OxidizedSystemd.Lib.Text

/-!
# Unit directories

What the loaders read of the unit directories: `parse_all_units` (`units/loading/mod.rs`,
lines 430–520) walks them at boot; `find_unit_file_in_dirs` and `collect_dropin_entries`
(`units/loading/directory_deps.rs`, lines 956–989 and 2659–2667), `find_new_unit_path` and
`collect_dropins_for_unit` (`units/unitset_manipulation/insert_new.rs`, lines 11–112) look for
single names.

A directory is the list of its entries, in the order in which the file system lists them. A unit
directory that does not exist has no entries.
-/

namespace OxidizedSystemd.Loading

open Lib

abbrev Text := List Char

/-- What there is under a name, where links are followed. A text is missing where it cannot be
    read. -/
inductive Node
  | file (isLink : Bool) (text : Option Text)
  | dir (isLink : Bool) (entries : List (Text × Node))
  | brokenLink

abbrev Entries := List (Text × Node)

/-- `std::fs::read_to_string`. -/
def Node.readToString : Node → Option Text
  | .file _ text => text
  | _ => none

/-- `str::ends_with`. -/
def textEndsWith (suffix name : Text) : Bool := suffix.isSuffixOf name

/-- `str::strip_suffix`. -/
def stripSuffix (suffix name : Text) : Option Text :=
  if textEndsWith suffix name then some (name.take (name.length - suffix.length)) else none

/-- `is_unit_file`. -/
def isUnitFile (filename : Text) : Bool :=
  [".service", ".socket", ".target", ".slice", ".mount", ".swap", ".timer", ".path",
    ".device"].any fun suffix => textEndsWith suffix.toList filename

/-- `parse_dep_dir_name`: whether it is one. -/
def isDepDirName (dirName : Text) : Bool :=
  [".wants", ".requires", ".upholds"].any fun suffix => textEndsWith suffix.toList dirName

/-- `parse_dropin_dir_name`. -/
def parseDropinDirName (dirName : Text) : Option Text := stripSuffix ".d".toList dirName

/-- `collect_dropin_entries`: the names and the texts of the drop-ins in a directory. -/
def collectDropinEntries (entries : Entries) : List (Text × Text) :=
  (sortByName entries).filterMap fun entry =>
    if textEndsWith ".conf".toList entry.1 then entry.2.readToString.map fun text => (entry.1, text)
    else none

/-! ## Boot -/

/-- What `parse_all_units` comes to: a unit file that it can read, or a drop-in of a unit. -/
inductive Item
  | fragment (name text : Text)
  | dropin (unitName filename text : Text)

mutual

/-- What `parse_all_units` comes to under a name. -/
def Node.items (name : Text) : Node → List Item
  | .file _ text => if isUnitFile name then text.toList.map (.fragment name) else []
  | .dir _ entries =>
    if isDepDirName name then []
    else match parseDropinDirName name with
      | some unitName =>
        (collectDropinEntries entries).map fun dropin => .dropin unitName dropin.1 dropin.2
      | none => (sortByName (entryItems entries)).flatMap Prod.snd
  | .brokenLink => []

/-- What it comes to under each name of a directory. -/
def entryItems : Entries → List (Text × List Item)
  | [] => []
  | (name, node) :: entries => (name, node.items name) :: entryItems entries

end

/-- `parse_all_units`, of one directory: the entries by their names. -/
def parseAllUnits (entries : Entries) : List Item :=
  (sortByName (entryItems entries)).flatMap Prod.snd

/-- The drop-ins of a unit among what has been read. -/
def dropinsAmong (items : List Item) (unitName : Text) : List (Text × Text) :=
  items.filterMap fun
    | .dropin unitName' filename text =>
      if unitName' = unitName then some (filename, text) else none
    | .fragment _ _ => none

/-- The map of drop-ins behind the loop of `load_all_units_inner` (lines 95–111). -/
def bootDropins (unitDirs : List Entries) (unitName : Text) : List (Text × Text) :=
  dropinsAmong (unitDirs.flatMap parseAllUnits) unitName

section

variable (loads : Text → Text → Bool)

/-- The fragments among what has been read, of those that load: the text resolves, parses and
    converts to a unit. -/
def fragmentsAmong (items : List Item) : List (Text × Text) :=
  items.filterMap fun
    | .fragment name text => if loads name text then some (name, text) else none
    | .dropin _ _ _ => none

/-- The table behind the loop: `insert_parsed_unit` puts each unit under its name. -/
def bootFragments (unitDirs : List Entries) : SortedMap Text Text :=
  (fragmentsAmong loads (unitDirs.flatMap parseAllUnits)).foldl (fun m p => m.insert p.1 p.2) .empty

end

/-! ## On demand -/

/-- `find_unit_file_in_dirs`: the text of the file. -/
def findUnitFileInDirs (unitDirs : List Entries) (unitName : Text) : Option (Option Text) :=
  unitDirs.findSome? fun entries => entries.findSome? fun
    | (name, .file _ text) => if name = unitName then some text else none
    | _ => none

/-- The template that `find_new_unit_path` falls back to (lines 49–61): its name ends the instance
    at the first dot. -/
def fallbackName (findName : Text) : Option Text :=
  match splitOnce ['@'] findName with
  | some (before, rest) =>
    let templateName := before ++ '@' :: rest.dropWhile (· ≠ '.')
    if '.' ∈ rest ∧ templateName ≠ findName then some templateName else none
  | none => none

mutual

/-- What `find_new_unit_path` finds under a name: a link is taken by its name, a directory is
    searched, there also for the template. -/
def Node.find (name findName : Text) : Node → Option (Option Text)
  | .file _ text => if name = findName then some text else none
  | .dir true _ => if name = findName then some none else none
  | .dir false entries => (findEntries findName entries).or
      ((fallbackName findName).bind fun templateName => findEntries templateName entries)
  | .brokenLink => if name = findName then some none else none

/-- What it finds in a directory, in the order in which that is listed. -/
def findEntries (findName : Text) : Entries → Option (Option Text)
  | [] => none
  | (name, node) :: entries => (node.find name findName).or (findEntries findName entries)

end

/-- `find_new_unit_path`: the text of the file. -/
def findNewUnitPath (unitDirs : List Entries) (findName : Text) : Option (Option Text) :=
  (unitDirs.findSome? (findEntries findName)).or
    ((fallbackName findName).bind fun templateName => unitDirs.findSome? (findEntries templateName))

/-- `parts[..i].join("-") + "-"`, for each `i` but the last. -/
def joinedPrefixes : List Text → List Text
  | part :: next :: parts =>
    (part ++ ['-']) :: (joinedPrefixes (next :: parts)).map fun joined => part ++ '-' :: joined
  | _ => []

/-- The names of hierarchical prefix drop-ins. -/
def prefixKeys (unitName : Text) : List Text :=
  match rsplitOnce '.' unitName with
  | some (base, suffix) => (joinedPrefixes (base.splitOn '-')).map (· ++ '.' :: suffix)
  | none => []

/-- The directories that `collect_dropins_for_unit` looks for (lines 79–97), without `.d`. -/
def dropinDirKeys (unitName : Text) : List Text :=
  (rsplitOnce '.' unitName).toList.map Prod.snd ++ prefixKeys unitName ++ [unitName]

/-- The drop-ins in the directory of a key. -/
def dropinsIn (entries : Entries) (key : Text) : List (Text × Text) :=
  entries.flatMap fun
    | (name, .dir _ dropins) =>
      if name = key ++ ".d".toList then collectDropinEntries dropins else []
    | _ => []

/-- `collect_dropins_for_unit`: the drop-ins of a key. -/
def collectDropinsForUnit (unitDirs : List Entries) (unitName key : Text) : List (Text × Text) :=
  unitDirs.flatMap fun entries => (dropinDirKeys unitName).flatMap fun key' =>
    if key' = key then dropinsIn entries key' else []

end OxidizedSystemd.Loading
