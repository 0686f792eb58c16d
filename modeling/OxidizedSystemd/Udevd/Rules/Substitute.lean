import OxidizedSystemd.Udevd.DeviceDb

/-!
# Substitutions in rule values

Model of `expand_substitutions` and of what it reads of an event (`udevd/src/lib.rs`, lines
306–329 and 1169–1426). A path is its text. What the rules read of the machine is an
argument: files, links, programs and databases.
-/

namespace OxidizedSystemd.Udevd.Rules

open Lib

/-- `struct UEvent`, with the fields that the rules read. -/
structure RuleEvent extends UEvent where
  devtype : Text
  driver : Text

/-- The event with a property set. -/
def RuleEvent.set (event : RuleEvent) (key value : Text) : RuleEvent :=
  { event with env := event.env.insert key value }

/-- What a probed file system is, with its identifier as it is printed and its label as it is
    stored (lines 4024–4121). -/
structure FileSystem where
  type : Text
  usage : Text
  uuid : Option Text
  label : Bytes

/-- The backing file of a loop device (lines 3927–3956). -/
structure LoopBacking where
  device : ℕ
  inode : ℕ
  fileName : Option Text

/-- `enum NamePolicy`. -/
inductive NamePolicy
  | kernel
  | database
  | onboard
  | slot
  | path
  | mac
  | keep
  deriving DecidableEq, Repr

/-- `struct LinkFileConfig`, with the settings that reach the event. -/
structure LinkFileConfig where
  path : Text
  dropinPaths : List Text
  name : Option Text
  namePolicy : List NamePolicy
  alternativeNamesPolicy : List NamePolicy
  alternativeNames : List Text
  macAddressPolicy : Option Text
  macAddress : Option Text
  mtu : Option ℕ
  properties : List Text
  unsetProperties : List Text
  importProperties : List Text

/-- What the rules read of the machine. -/
structure Outside where
  /-- `fs::read_to_string`. -/
  readFile : Text → Option Text
  /-- `fs::read_link`. -/
  readLink : Text → Option Text
  /-- `Path::exists`. -/
  pathExists : Text → Bool
  /-- A program with its arguments, run in an environment: whether it succeeds, and its output;
      `none` if it does not start or not end in time. -/
  spawn : List Text → SortedMap Text Text → Option (Bool × Text)
  /-- `uname -r`. -/
  kernelRelease : Text
  db : DeviceDb
  /-- The properties that `builtin_hwdb` finds for its command line and the event. -/
  hwdb : Text → RuleEvent → List (Text × Text)
  /-- The first of the `.link` files that matches the interface. -/
  linkConfig : RuleEvent → Option LinkFileConfig
  /-- What the superblocks of a device are recognized as. -/
  probe : Text → Option FileSystem
  /-- `LOOP_GET_STATUS64`. -/
  loopBacking : Text → Option LoopBacking
  /-- `ETHTOOL_GDRVINFO`. -/
  ethtoolDriver : Text → Option Text

/-! ## Paths -/

/-- `Path::join`. -/
def joinPath (path other : Text) : Text :=
  if other.head? = some '/' then other
  else if path = [] ∨ path.getLast? = some '/' then path ++ other
  else path ++ '/' :: other

/-- The components of a path that are not empty and not `.`. -/
def components (path : Text) : List Text :=
  (path.splitOn '/').filter fun piece => piece ≠ [] ∧ piece ≠ ['.']

/-- `Path::file_name`, empty for none. -/
def fileName (path : Text) : Text :=
  match (components path).getLast? with
  | some name => if name = ['.', '.'] then [] else name
  | none => []

/-- `PathBuf::pop` of an absolute path. -/
def popPath (path : Text) : Option Text :=
  let blank := fun piece : Text => piece = [] ∨ piece = ['.']
  match (path.splitOn '/').reverse.dropWhile fun piece => decide (blank piece) with
  | [] => none
  | _ :: front =>
    match (front.dropWhile fun piece => decide (blank piece)).reverse with
    | [] => some ['/']
    | pieces => some (['/'].intercalate pieces)

/-- `UEvent::syspath`. -/
def syspath (event : RuleEvent) : Text :=
  joinPath "/sys".toList (event.devpath.dropWhile (· = '/'))

/-- `UEvent::devnode`. -/
def devnode (event : RuleEvent) : Option Text :=
  if event.devname = [] then none
  else if event.devname.head? = some '/' then some event.devname
  else some (joinPath "/dev".toList event.devname)

/-- `UEvent::read_sysattr`. -/
def readSysattr (outside : Outside) (event : RuleEvent) (attr : Text) : Option Text :=
  (outside.readFile (joinPath (syspath event) attr)).map trimEnd

/-- `kernel_name`. -/
def kernelName (event : RuleEvent) : Text := baseName event.devpath

/-- `kernel_number`: the digits at the end of the name. -/
def kernelNumber (event : RuleEvent) : Text :=
  ((kernelName event).reverse.takeWhile Char.isDigit).reverse

/-! ## Substitutions -/

/-- `extract_braced`: the text between braces, and how many characters it takes with them. -/
def extractBraced : Text → Text × ℕ
  | '{' :: cs =>
    let content := cs.takeWhile (· != '}')
    (content, 1 + content.length + if cs.contains '}' then 1 else 0)
  | _ => ([], 0)

/-- `subst_with_index`: all of the result of a program, its `n`th word or the words from there. -/
def substWithIndex (programResult cs : Text) : Text × ℕ :=
  if cs.head? = some '{' then
    let (spec, advance) := extractBraced cs
    let parts := splitWhitespace programResult
    if spec.getLast? = some '+' then
      match fromStrRadix 10 (2 ^ 64 - 1) spec.dropLast with
      | some n =>
        if 0 < n ∧ n ≤ parts.length then ([' '].intercalate (parts.drop (n - 1)), advance)
        else ([], advance)
      | none => ([], advance)
    else
      match fromStrRadix 10 (2 ^ 64 - 1) spec with
      | some n =>
        if 0 < n ∧ n ≤ parts.length then (parts.getD (n - 1) [], advance) else ([], advance)
      | none => ([], advance)
  else (programResult, 0)

/-- The arguments of `expand_substitutions` behind the template. -/
structure Substitution where
  outside : Outside
  event : RuleEvent
  programResult : Text
  deviceName : Text
  symlinks : List Text

variable (args : Substitution)

/-- A specifier behind `%` (lines 1248–1297). -/
def expandSpecifier (c : Char) (rest : Text) : Text × ℕ :=
  match c with
  | 'k' => (kernelName args.event, 1)
  | 'n' => (kernelNumber args.event, 1)
  | 'p' => (args.event.devpath, 1)
  | 'b' => (baseName args.event.devpath, 1)
  | 'M' => (args.event.major, 1)
  | 'm' => (args.event.minor, 1)
  | 'c' =>
    let (value, advance) := substWithIndex args.programResult rest
    (value, 1 + advance)
  | 'N' => ((devnode args.event).getD [], 1)
  | 'D' => (args.deviceName, 1)
  | 'S' => ("/sys".toList, 1)
  | 'r' => ("/dev".toList, 1)
  | 'v' => (args.outside.kernelRelease, 1)
  | 's' =>
    if rest.head? = some '{' then
      let (attr, advance) := extractBraced rest
      ((readSysattr args.outside args.event attr).getD [], 1 + advance)
    else ([], 1)
  | 'E' =>
    if rest.head? = some '{' then
      let (key, advance) := extractBraced rest
      ((args.event.env.get? key).getD [], 1 + advance)
    else ([], 1)
  | c => (['%', c], 1)

/-- The keywords behind `$`, with their values (lines 1302–1320). -/
def keywords : List (Text × Text) :=
  [("kernel".toList, kernelName args.event), ("number".toList, kernelNumber args.event),
    ("devpath".toList, args.event.devpath), ("id".toList, baseName args.event.devpath),
    ("driver".toList, args.event.driver), ("major".toList, args.event.major),
    ("minor".toList, args.event.minor), ("result".toList, args.programResult),
    ("name".toList, args.deviceName), ("links".toList, [' '].intercalate args.symlinks),
    ("root".toList, "/dev".toList), ("sys".toList, "/sys".toList),
    ("devnode".toList, (devnode args.event).getD [])]

/-- `expand_one_subst` on the text behind a sigil (lines 1235–1363). -/
def expandOneSubst (sigil : Char) (rest : Text) : Text × ℕ :=
  if sigil = '%' then
    match rest with
    | c :: cs => expandSpecifier args c cs
    | [] => ([sigil], 0)
  else
    match (keywords args).find? fun keyword => keyword.1.isPrefixOf rest with
    | some (keyword, value) => (value, keyword.length)
    | none =>
      if "attr\x7b".toList.isPrefixOf rest then
        let (attr, advance) := extractBraced (rest.drop 4)
        ((readSysattr args.outside args.event attr).getD [], 4 + advance)
      else if "env\x7b".toList.isPrefixOf rest then
        let (key, advance) := extractBraced (rest.drop 3)
        ((args.event.env.get? key).getD [], 3 + advance)
      else
        match rest with
        | c :: _ => ([sigil, c], 1)
        | [] => ([sigil], 0)

/-- The loop of `expand_substitutions`. Every turn reads a character, so that the length of the
    template is enough fuel. -/
def expandFrom : ℕ → Text → Text
  | 0, _ => []
  | _ + 1, [] => []
  | fuel + 1, c :: rest =>
    if c = '$' ∨ c = '%' then
      match rest with
      | [] => [c]
      | d :: more =>
        if d = c then c :: expandFrom fuel more
        else
          let (expanded, advance) := expandOneSubst args c rest
          expanded ++ expandFrom fuel (rest.drop advance)
    else c :: expandFrom fuel rest

/-- `expand_substitutions` (lines 1187–1233). -/
def expandSubstitutions (template : Text) : Text := expandFrom args template.length template

end OxidizedSystemd.Udevd.Rules
