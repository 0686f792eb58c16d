import OxidizedSystemd.Udevd.Rules.Match

/-!
# Imported properties

Models of `handle_import`, `handle_builtin_import`, `builtin_net_setup_link` and
`run_program_capture` (`udevd/src/lib.rs`, lines 1990–2124, 3411–3649 and 4124–4463), with
`resolve_name_from_policy` (`libsystemd/src/link_config.rs`, lines 761–787): what they do to
the properties of an event.
-/

namespace OxidizedSystemd.Udevd.Rules

open Lib

variable (outside : Outside)

/-! ## Programs -/

/-- `resolve_program_path`. -/
def resolveProgramPath (name : Text) : Text :=
  if name.head? = some '/' then name
  else
    let dirs := ["/usr/lib/udev".toList, "/lib/udev".toList, "/usr/libexec/udev".toList]
    ((dirs.map (joinPath · name)).find? outside.pathExists).getD name

/-- `run_program_capture`: the output of a program that succeeds, without line ends behind it. -/
def runProgramCapture (cmd : Text) (event : RuleEvent) : Option Text :=
  match splitWhitespace cmd with
  | [] => none
  | name :: arguments =>
    match outside.spawn (resolveProgramPath outside name :: arguments) event.env with
    | some (true, stdout) =>
      some (stdout.reverse.dropWhile fun c => c = '\n' || c = '\r').reverse
    | _ => none

/-! ## Lines of properties -/

/-- `unquote_property_value`. -/
def unquotePropertyValue (val : Text) : Text :=
  if 2 ≤ val.length ∧ (val.head? = some '"' ∨ val.head? = some '\'') ∧ val.getLast? = val.head? then
    val.tail.dropLast
  else val

/-- A line of a program's output (lines 2030–2040). -/
def programLine (line : Text) : Option (Text × Text) :=
  if line = [] ∨ line.head? = some '#' then none
  else
    (splitOnce ['='] line).bind fun (key, val) =>
      if key = [] then none else some (key, unquotePropertyValue val)

/-- A line of a file (lines 2048–2056). -/
def fileLine (line : Text) : Option (Text × Text) :=
  let line := trim line
  if line = [] ∨ line.head? = some '#' then none
  else (splitOnce ['='] line).map fun (key, val) => (trim key, unquotePropertyValue (trim val))

/-- A parameter of the kernel command line (lines 2064–2073). -/
def cmdlineParam (pattern param : Text) : Option (Text × Text) :=
  if globMatch pattern param then some ((splitOnce ['='] param).getD (param, ['1'])) else none

/-- The properties that `IMPORT{kind}` finds (lines 2022–2120), in their order. -/
def importedProperties (kind value : Text) (event : RuleEvent) : List (Text × Text) :=
  if kind = "program".toList then
    ((runProgramCapture outside value event).map textLines).getD [] |>.filterMap programLine
  else if kind = "file".toList then
    ((outside.readFile value).map textLines).getD [] |>.filterMap fileLine
  else if kind = "cmdline".toList then
    ((outside.readFile "/proc/cmdline".toList).map splitWhitespace).getD []
      |>.filterMap (cmdlineParam value)
  else if kind = "db".toList then
    ((outside.db.file (deviceId event.toUEvent)).map readEntries).getD []
  else if kind = "parent".toList then
    (((parentDevpath event.devpath).bind fun devpath =>
      outside.db.file (escapeSlashes devpath)).map readEntries).getD []
  else []

/-- The event with properties set one after another. -/
def RuleEvent.enter (event : RuleEvent) (properties : List (Text × Text)) : RuleEvent :=
  { event with env := Udevd.enter event.env properties }

/-! ## Builtins -/

/-- `IMPORT{builtin}="path_id"` (lines 4131–4148). -/
def pathId (event : RuleEvent) : List (Text × Text) :=
  let idPath := (event.devpath.map fun c => if c = '/' then '-' else c).dropWhile (· = '-')
  if idPath = [] then []
  else
    let tag := idPath.map fun c => if c = '.' ∨ c = ':' then '_' else c
    [("ID_PATH".toList, "platform-".toList ++ idPath),
      ("ID_PATH_TAG".toList, "platform-".toList ++ tag)]

/-- `trim_start_matches("0x")`. -/
def trimHexPrefix : Text → Text
  | '0' :: 'x' :: cs => trimHexPrefix cs
  | cs => cs

/-- `IMPORT{builtin}="input_id"` (lines 4149–4177). -/
def inputId (event : RuleEvent) : List (Text × Text) :=
  if event.subsystem ≠ "input".toList then []
  else
    let caps := (outside.readFile (joinPath (syspath event) "capabilities/ev".toList)).bind
      fun caps => fromStrRadix 16 (2 ^ 64 - 1) (trimHexPrefix (trim caps))
    let bits := caps.getD 0
    [("ID_INPUT".toList, ['1'])] ++
      (if bits.testBit 1 then [("ID_INPUT_KEY".toList, ['1'])] else []) ++
      (if bits.testBit 2 then [("ID_INPUT_MOUSE".toList, ['1'])] else []) ++
      (if bits.testBit 3 then [("ID_INPUT_TOUCHSCREEN".toList, ['1'])] else [])

/-- `IMPORT{builtin}="usb_id"` (lines 4178–4189). -/
def usbId (event : RuleEvent) : List (Text × Text) :=
  ((readSysattr outside event "idVendor".toList).map ("ID_VENDOR_ID".toList, ·)).toList ++
    ((readSysattr outside event "idProduct".toList).map ("ID_MODEL_ID".toList, ·)).toList ++
    ((readSysattr outside event "serial".toList).map ("ID_SERIAL_SHORT".toList, ·)).toList

/-- `IMPORT{builtin}="net_id"` (lines 4190–4207). -/
def netId (event : RuleEvent) : List (Text × Text) :=
  match event.env.get? "INTERFACE".toList with
  | some ifname =>
    if event.subsystem = "net".toList then
      [("ID_NET_NAME".toList, ifname), ("ID_NET_NAME_PATH".toList, ifname)] ++
        ((outside.ethtoolDriver ifname).map ("ID_NET_DRIVER".toList, ·)).toList
    else []
  | none => []

/-- `udev_encode`. -/
def udevEncode (bytes : Bytes) : Text :=
  bytes.flatMap fun b =>
    let c := Char.ofNat b.toNat
    if b < 0x80 ∧ (c.isAlphanum ∨ "#+-.:=@_/".toList.contains c) then [c]
    else '\\' :: 'x' :: hexPad 2 b.toNat

/-- `push_fs_label`. -/
def pushFsLabel (label : Bytes) : List (Text × Text) :=
  let label := ((label.takeWhile (· != 0)).reverse.dropWhile (· == 0x20)).reverse
  if label = [] then []
  else [("ID_FS_LABEL".toList, (fromUtf8Lossy label).toList),
    ("ID_FS_LABEL_ENC".toList, udevEncode label)]

/-- The properties of `probe_filesystem`. -/
def fileSystemProperties (fs : FileSystem) : List (Text × Text) :=
  [("ID_FS_TYPE".toList, fs.type), ("ID_FS_USAGE".toList, fs.usage)] ++
    (match fs.uuid with
      | some uuid => [("ID_FS_UUID".toList, uuid), ("ID_FS_UUID_ENC".toList, uuid)]
      | none => []) ++
    pushFsLabel fs.label

/-- The properties of a loop device (lines 4247–4267). -/
def loopProperties (backing : LoopBacking) : List (Text × Text) :=
  let devno := backing.device
  let major := (devno >>> 8 &&& 0xFFF) ||| (devno >>> 32 &&& (2 ^ 64 - 1 - 0xFFF))
  let minor := (devno &&& 0xFF) ||| (devno >>> 12 &&& (2 ^ 64 - 1 - 0xFF))
  [("ID_LOOP_BACKING_DEVICE".toList, decimal major ++ ':' :: decimal minor),
    ("ID_LOOP_BACKING_INODE".toList, decimal backing.inode)] ++
    match backing.fileName with
    | some name =>
      [("ID_LOOP_BACKING_FILENAME_ENC".toList, udevEncode (asBytes (String.ofList name))),
        ("ID_LOOP_BACKING_FILENAME".toList, name)]
    | none => []

/-- The output of `blkid -p -o udev` for a device that is not recognized (lines 4221–4240). -/
def blkidOutput (node : Text) : List (Text × Text) :=
  match outside.spawn ["blkid".toList, "-p".toList, "-o".toList, "udev".toList, node] .empty with
  | some (true, stdout) => (textLines stdout).filterMap (splitOnce ['='])
  | _ => []

/-- The backing file of a device that is named `loop…` (lines 4243–4268). -/
def enterLoop (node : Text) (event : RuleEvent) : RuleEvent :=
  if "loop".toList.isPrefixOf (kernelName event) then
    match outside.loopBacking node with
    | some backing => event.enter (loopProperties backing)
    | none => event
  else event

/-- `IMPORT{builtin}="blkid"` (lines 4208–4269). -/
def builtinBlkid (event : RuleEvent) : RuleEvent :=
  match devnode event with
  | none => event
  | some node =>
    match outside.probe node with
    | some fs => enterLoop outside node (event.enter (fileSystemProperties fs))
    | none => enterLoop outside node (event.enter (blkidOutput outside node))

/-! ## `.link` files -/

/-- The property that a naming policy takes a name from. -/
def NamePolicy.key : NamePolicy → Option Text
  | .kernel => none
  | .database => some "ID_NET_NAME_FROM_DATABASE".toList
  | .onboard => some "ID_NET_NAME_ONBOARD".toList
  | .slot => some "ID_NET_NAME_SLOT".toList
  | .path => some "ID_NET_NAME_PATH".toList
  | .mac => some "ID_NET_NAME_MAC".toList
  | .keep => none

/-- The name that a property gives, if it is set and not empty. -/
def policyName (env : SortedMap Text Text) (policy : NamePolicy) : Option Text :=
  (policy.key.bind env.get?).filter fun name => decide (name ≠ [])

/-- `resolve_name_from_policy`. -/
def resolveNameFromPolicy (explicit : Option Text) (env : SortedMap Text Text) :
    List NamePolicy → Option Text
  | [] => explicit
  | policy :: policies =>
    if policy = .keep then none
    else (policyName env policy).or (resolveNameFromPolicy explicit env policies)

/-- The alternative names (lines 3542–3570). -/
def alternativeNames (link : LinkFileConfig) (env : SortedMap Text Text) : List Text :=
  (link.alternativeNamesPolicy.filterMap (policyName env)).foldl
    (fun names name => if names.contains name then names else names ++ [name])
    (link.alternativeNames.filter fun name => decide (name ≠ []))

/-- The properties that tell of the file itself (lines 3478–3496). -/
def linkFileProperties (link : LinkFileConfig) : List (Text × Text) :=
  ("ID_NET_LINK_FILE".toList, link.path) ::
    if link.dropinPaths = [] then []
    else [("ID_NET_LINK_FILE_DROPINS".toList, [':'].intercalate link.dropinPaths)]

/-- The properties for the settings of the file (lines 3498–3574). -/
def linkSettings (link : LinkFileConfig) (originalName : Text) (env : SortedMap Text Text) :
    List (Text × Text) :=
  (match resolveNameFromPolicy link.name env link.namePolicy with
    | some name =>
      if name ≠ [] ∧ name ≠ originalName then [("ID_NET_NAME".toList, name)] else []
    | none => []) ++
    (link.mtu.map fun mtu => ("ID_NET_LINK_FILE_MTU".toList, decimal mtu)).toList ++
    (link.macAddress.map ("ID_NET_LINK_FILE_MACADDRESS".toList, ·)).toList ++
    (link.macAddressPolicy.map ("ID_NET_LINK_FILE_MACADDRESS_POLICY".toList, ·)).toList ++
    if alternativeNames link env = [] then []
    else [("ID_NET_LINK_FILE_ALTNAMES".toList, [' '].intercalate (alternativeNames link env))]

/-- `is_read_only_property`. -/
def isReadOnlyProperty (key : Text) : Bool :=
  ["ACTION".toList, "DEVPATH".toList, "SUBSYSTEM".toList, "DEVTYPE".toList, "DEVNAME".toList,
    "IFINDEX".toList, "MAJOR".toList, "MINOR".toList, "SEQNUM".toList, "DRIVER".toList].contains key

/-- One entry of `Property=` (lines 3611–3620). -/
def linkProperty (event : RuleEvent) (entry : Text) : RuleEvent :=
  match splitOnce ['='] entry with
  | some (key, value) =>
    let key := trim key
    if key = [] ∨ isReadOnlyProperty key then event
    else event.set key (expandSubstitutions ⟨outside, event, [], [], []⟩ value)
  | none => event

/-- One entry of `UnsetProperty=` (lines 3624–3629). -/
def unsetProperty (event : RuleEvent) (entry : Text) : RuleEvent :=
  let key := trim entry
  if key ≠ [] ∧ isReadOnlyProperty key = false then
    { event with env := event.env.erase key }
  else event

/-- One entry of `ImportProperty=` (lines 3639–3647). -/
def importProperty (entries : SortedMap Text Text) (event : RuleEvent) (entry : Text) :
    RuleEvent :=
  let key := trim entry
  if key = [] ∨ (event.env.get? key).isSome then event
  else
    match entries.get? key with
    | some value => event.set key value
    | none => event

/-- The `[Link]` properties (lines 3592–3648), for the actions that they apply to. -/
def applyLinkProperties (link : LinkFileConfig) (event : RuleEvent) : RuleEvent :=
  if ["add".toList, "bind".toList, "move".toList].contains event.action then
    let event := link.properties.foldl (linkProperty outside) event
    let event := link.unsetProperties.foldl unsetProperty event
    match readExistingUdevDbEnv outside.db event.toUEvent with
    | some entries => link.importProperties.foldl (importProperty entries) event
    | none => event
  else event

/-- `builtin_net_setup_link` (lines 3411–3649), but for the alias, which is not a property. -/
def builtinNetSetupLink (event : RuleEvent) : RuleEvent :=
  let originalName := (event.env.get? "INTERFACE".toList).getD (baseName event.devpath)
  if event.subsystem ≠ "net".toList ∨ originalName = [] then event
  else
    match outside.linkConfig event with
    | none => event
    | some link =>
      let event := event.enter (linkFileProperties link)
      let event := event.enter (linkSettings link originalName event.env)
      applyLinkProperties outside link event

/-! ## Imports -/

/-- `handle_builtin_import` (lines 4124–4292). `keyboard` and `kmod` set no properties. -/
def handleBuiltinImport (cmd : Text) (event : RuleEvent) : RuleEvent :=
  match splitWhitespace cmd with
  | [] => event
  | name :: _ =>
    if name = "path_id".toList then event.enter (pathId event)
    else if name = "input_id".toList then event.enter (inputId outside event)
    else if name = "usb_id".toList then event.enter (usbId outside event)
    else if name = "net_id".toList then event.enter (netId outside event)
    else if name = "blkid".toList then builtinBlkid outside event
    else if name = "hwdb".toList then event.enter (outside.hwdb cmd event)
    else if name = "net_setup_link".toList then builtinNetSetupLink outside event
    else event

/-- `handle_import` (lines 2014–2124): the event, and the result of the last program. -/
def handleImport (kind value : Text) (event : RuleEvent) (programResult : Text) :
    RuleEvent × Text :=
  if kind = "builtin".toList then (handleBuiltinImport outside value event, programResult)
  else
    (event.enter (importedProperties outside kind value event),
      if kind = "program".toList then
        (runProgramCapture outside value event).getD programResult
      else programResult)

end OxidizedSystemd.Udevd.Rules
