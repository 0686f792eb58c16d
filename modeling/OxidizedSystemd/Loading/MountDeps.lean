import OxidizedSystemd.Loading.UnitName

/-!
# Default dependencies of a mount

Models of `mount_default_deps` and its helpers (`units/mount_monitor.rs`) and of the
`UnitIdKind::Mount` arm of `add_default_dependency_relations`
(`units/loading/dependency_resolving.rs`, lines 575–646).
-/

namespace OxidizedSystemd.Loading

open OxidizedSystemd.Units

/-- `fstype_is_network` (`units/mount_monitor.rs`, lines 76–94). -/
def fstypeIsNetwork (fstype : String) : Bool :=
  fstype ∈ ["nfs", "nfs4", "cifs", "smb3", "smbfs", "ncpfs", "glusterfs", "ceph", "afs", "coda",
    "ocfs2", "orangefs", "lustre", "9p"]

/-- `mount_is_network_static` (`units/mount_monitor.rs`, lines 99–104). -/
def mountIsNetworkStatic (fsType options : Option String) : Bool :=
  (fsType.map fstypeIsNetwork).getD false ||
    (options.map fun o => decide ("_netdev".toList ∈ o.toList.splitOn ',')).getD false

/-- The four vectors that `mount_default_deps` returns. -/
structure MountDefaultDeps where
  after : List String
  before : List String
  wants : List String
  requires : List String
  deriving DecidableEq, Repr

/-- `mount_default_deps` (`units/mount_monitor.rs`, lines 146–170). -/
def mountDefaultDeps (what : String) (isNetwork : Bool) : MountDefaultDeps :=
  let deps : MountDefaultDeps :=
    if isNetwork then
      { after := ["remote-fs-pre.target", "network.target"],
        before := ["umount.target", "remote-fs.target"], wants := [], requires := [] }
    else
      { after := ["local-fs-pre.target"], before := ["umount.target", "local-fs.target"],
        wants := ["local-fs-pre.target"], requires := [] }
  if startsWith what "/dev/" then
    let esc := unitNamePathEscape what
    { deps with
      after := deps.after ++ [s!"{esc}.device", s!"blockdev@{esc}.target"],
      requires := deps.requires ++ [s!"{esc}.device"] }
  else deps

/-- `dep_unit_id` (`units/mount_monitor.rs`, lines 189–203). -/
def depUnitId (name : String) : Option UnitId :=
  if endsWith name ".target" then some ⟨.target, name⟩
  else if endsWith name ".device" then some ⟨.device, name⟩
  else if endsWith name ".mount" then some ⟨.mount, name⟩
  else none

/-- The file systems that the mount arm leaves alone (lines 586–607). -/
def isApiFilesystem (fstype : String) : Bool :=
  fstype ∈ ["proc", "sysfs", "devtmpfs", "devpts", "cgroup", "cgroup2", "mqueue", "hugetlbfs",
    "debugfs", "tracefs", "securityfs", "pstore", "bpf", "configfs", "fusectl", "efivarfs",
    "binfmt_misc", "autofs", "ramfs"]

/-- The mount arm of `add_default_dependency_relations` (lines 575–646): what it
    pushes, list by list. -/
def mountDefaultPushes (specific : Specific) : List (DepKind × UnitId) :=
  match specific with
  | .mount conf =>
    let fstype := conf.fsType.getD ""
    if conf.where_ = "/" ∨ isApiFilesystem fstype then []
    else
      let isNetwork := mountIsNetworkStatic (some fstype) conf.options
      let deps := mountDefaultDeps conf.what isNetwork
      (deps.after.filterMap depUnitId).map (.after, ·) ++
        (deps.before.filterMap depUnitId).map (.before, ·) ++
        (deps.wants.filterMap depUnitId).map (.wants, ·) ++
        (deps.requires.filterMap depUnitId).map (.requires, ·)
  | _ => []

end OxidizedSystemd.Loading
