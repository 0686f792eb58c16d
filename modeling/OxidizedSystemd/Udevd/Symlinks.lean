import Mathlib.Data.List.DropRight
import OxidizedSystemd.Udevd.DeviceDb

/-!
# Device symlinks

Model of the symlinks under `/dev`, of the claims below `/run/udev/links`, and of what
`process_event` does to them (`udevd/src/lib.rs`, lines 311–320, 4752–4949 and 5824–5909). The
directories of paths are no links, so a file is told by the components of its path. A symlink is
the node that it leads to.

* `createDeviceSymlinks`, `removeDeviceSymlinks`: claims made and withdrawn.
* `processEvent`: an event.
-/

namespace OxidizedSystemd.Udevd

open Lib

/-! ## Paths -/

/-- A component that `Path::components` leaves out. -/
def isRedundant (component : Text) : Bool := component = [] ∨ component = ['.']

/-- The file of an absolute path. -/
def fileOf (path : Text) : List Text :=
  ((path.splitOn '/').filter fun c => !isRedundant c).foldl (fun file c =>
    if c = ['.', '.'] then file.dropLast else file ++ [c]) []

/-- A path below `/dev`, or an absolute one. -/
def inDev (path : Text) : Text := if path.head? = some '/' then path else "/dev/".toList ++ path

/-- `resolve_link_path`. -/
def resolveLinkPath (link : Text) : Text := inDev link

/-- `UEvent::devnode`. -/
def UEvent.devnode (event : UEvent) : Option Text :=
  if event.devname = [] then none else some (inDev event.devname)

/-- `udev_node_escape_path`. -/
def udevNodeEscapePath (src : Text) : Text :=
  src.flatMap fun c =>
    if c = '/' then "\\x2f".toList else if c = '\\' then "\\x5c".toList else [c]

/-- What is behind `/dev` in a path (`strip_prefix`). -/
def stripDev (path : Text) : Option Text :=
  match (path.splitOn '/').dropWhile isRedundant with
  | first :: rest =>
    if first = "dev".toList then
      some (['/'].intercalate ((rest.dropWhile isRedundant).rdropWhile isRedundant))
    else none
  | [] => none

/-- `stack_directory`: the name below `/run/udev/links`. -/
def stackDirectory (linkPath : Text) : Option Text :=
  match stripDev linkPath with
  | some name => if name = [] then none else some (udevNodeEscapePath name)
  | none => none

/-! ## Claims -/

/-- `devlink_priority`, with the options in the order in which they are visited. -/
def devlinkPriority (options : List Text) : ℤ :=
  ((options.findSome? (stripPrefix "link_priority=".toList)).bind fun v =>
    parseSigned (2 ^ 31 - 1) (trim v)).getD 0

/-- The entries of a directory: the id of a device, and what the link leads to. -/
abbrev Claims := List (Text × Text)

/-- The target of an entry (line 4793). -/
def claimData (priority : ℤ) (devnode : Text) : Text := signedDecimal priority ++ ':' :: devnode

/-- The priority and the node of an entry (lines 4831–4836). -/
def readClaim (target : Text) : Option (ℤ × Text) :=
  (splitOnce [':'] target).bind fun p => (parseSigned (2 ^ 31 - 1) p.1).map fun prio => (prio, p.2)

/-- `stack_directory_update`. -/
def stackDirectoryUpdate (dir : Claims) (id devnode : Text) (priority : ℤ) (add : Bool) : Claims :=
  if add then
    let data := claimData priority devnode
    if (id, data) ∈ dir then dir else dir.filter (·.1 ≠ id) ++ [(id, data)]
  else dir.filter (·.1 ≠ id)

/-- What is seen of the file system: the nodes, and the order of the entries of a directory. -/
structure Sight where
  exist : Text → Bool
  readDir : Claims → Claims
  readDir_perm : ∀ dir, (readDir dir).Perm dir

/-- The body of the loop over entries (lines 4825–4847). -/
def considerClaim (sight : Sight) (id : Text) (best : Option (Text × ℤ)) (entry : Text × Text) :
    Option (Text × ℤ) :=
  if entry.1 = id then best
  else
    match readClaim entry.2 with
    | some (otherPriority, otherDevnode) =>
      if !sight.exist otherDevnode then best
      else
        match best with
        | some (_, priority) =>
          if otherPriority ≤ priority then best else some (otherDevnode, otherPriority)
        | none => some (otherDevnode, otherPriority)
    | none => best

/-- `stack_directory_find_prioritized`. -/
def stackDirectoryFindPrioritized (sight : Sight) (dir : Claims) (id : Text)
    (own : Option (Text × ℤ)) : Option Text :=
  ((sight.readDir dir).foldl (considerClaim sight id) own).map (·.1)

/-! ## Symlinks -/

/-- The claims of each directory below `/run/udev/links`, the symlinks, and the database. -/
structure LinkStore where
  claims : Text → Claims
  symlink : List Text → Option Text
  db : DeviceDb

/-- `apply_symlink`. -/
def applySymlink (store : LinkStore) (linkPath : Text) (winner : Option Text) : LinkStore :=
  { store with symlink := Function.update store.symlink (fileOf linkPath) winner }

/-- A claim is made or withdrawn, and the symlink follows. -/
def updateLink (sight : Sight) (id devnode : Text) (priority : ℤ) (add : Bool) (store : LinkStore)
    (linkPath dir : Text) : LinkStore :=
  let entries := stackDirectoryUpdate (store.claims dir) id devnode priority add
  let winner := stackDirectoryFindPrioritized sight entries id
    (if add then some (devnode, priority) else none)
  applySymlink { store with claims := Function.update store.claims dir entries } linkPath winner

/-- `create_device_symlinks`. -/
def createDeviceSymlinks (sight : Sight) (store : LinkStore) (event : UEvent)
    (symlinks : List Text) (priority : ℤ) : LinkStore :=
  match event.devnode with
  | some devnode => symlinks.foldl (fun store link =>
      match stackDirectory (resolveLinkPath link) with
      | some dir =>
        updateLink sight (deviceId event) devnode priority true store (resolveLinkPath link) dir
      | none => applySymlink store (resolveLinkPath link) (some devnode)) store
  | none => store

/-- `remove_device_symlinks`. -/
def removeDeviceSymlinks (sight : Sight) (store : LinkStore) (event : UEvent)
    (symlinks : List Text) : LinkStore :=
  symlinks.foldl (fun store link =>
    match stackDirectory (resolveLinkPath link) with
    | some dir => updateLink sight (deviceId event) [] 0 false store (resolveLinkPath link) dir
    | none => applySymlink store (resolveLinkPath link) none) store

/-! ## Events -/

/-- `remove_device_db`. -/
def removeDeviceDb (db : DeviceDb) (event : UEvent) : DeviceDb where
  file := Function.update db.file (deviceId event) none
  named := by
    intro name h
    by_cases hname : name = deviceId event
    · exact ⟨event, hname⟩
    · rw [Function.update_of_ne hname] at h
      exact db.named name h

/-- The symlinks of an entry (lines 5883–5893). -/
def oldSymlinks (content : Text) : List Text :=
  (textLines content).filterMap (stripPrefix "S:".toList)

/-- An event behind the rules, with their result. The environment is the one of the entry as it is
    left, when the programs have run. -/
structure Processed where
  event : UEvent
  result : RuleResult
  visit : Visit event.env
  sight : Sight
  symlink_return : ∀ link ∈ result.symlinks, '\r' ∉ link

/-- The actions with which symlinks are made. -/
def settingActions : List Text :=
  ["add".toList, "change".toList, "bind".toList, "move".toList, "online".toList]

/-- The actions with which symlinks are removed. -/
def removingActions : List Text := ["remove".toList, "unbind".toList, "offline".toList]

/-- `process_event` behind the rules. -/
def processEvent (store : LinkStore) (p : Processed) : LinkStore :=
  if settingActions.contains p.event.action then
    let store := createDeviceSymlinks p.sight store p.event p.result.symlinks
      (devlinkPriority p.result.options)
    { store with db := writeDeviceDb store.db p.event p.result p.visit }
  else if removingActions.contains p.event.action then
    let symlinks := ((store.db.file (deviceId p.event)).map oldSymlinks).getD []
    let store := removeDeviceSymlinks p.sight store p.event symlinks
    { store with db := removeDeviceDb store.db p.event }
  else store

/-- At boot there are no symlinks and no claims. -/
def LinkStore.new : LinkStore where
  claims := fun _ => []
  symlink := fun _ => none
  db := ⟨fun _ => none, by simp⟩

end OxidizedSystemd.Udevd
