import OxidizedSystemd.Udevd.GlobMatch
import OxidizedSystemd.Udevd.RuleLine
import OxidizedSystemd.Udevd.Rules.Substitute

/-!
# Match tokens

Models of `match_token`, `match_program` and `match_parent_token` (`udevd/src/lib.rs`, lines
1577–1833). A match reads the event and changes the result of the last program only.
-/

namespace OxidizedSystemd.Udevd.Rules

open Lib

/-- `is_match_op`. -/
def isMatchOp (op : RuleOp) : Bool := op = .match || op = .nomatch

/-- `is_match_key`. -/
def isMatchKey (key : Text) : Bool := key = "PROGRAM".toList

/-- What a token says when its test is `matched`. -/
def verdict (op : RuleOp) (matched : Bool) : Bool :=
  match op with
  | .match => matched
  | .nomatch => !matched
  | _ => false

variable (outside : Outside)

/-- `match_program` (lines 1682–1756). -/
def matchProgram (token : RuleToken) (event : RuleEvent) (programResult : Text) : Bool × Text :=
  let cmd := expandSubstitutions ⟨outside, event, programResult, [], []⟩ token.value
  let parts := splitWhitespace cmd
  if parts = [] then (false, programResult)
  else
    let header := ((SortedMap.empty.insert "DEVPATH".toList event.devpath).insert
      "ACTION".toList event.action).insert "SUBSYSTEM".toList event.subsystem
    match outside.spawn parts (enter header event.env.pairs) with
    | some (success, stdout) =>
      (verdict token.op success, if success then trimEnd stdout else programResult)
    | none => (token.op = .nomatch, programResult)

/-- The test of a device on the way up (lines 1758–1809). -/
def matchDevice (token : RuleToken) (path : Text) : Bool :=
  if token.key = "KERNELS".toList then globMatch token.value (fileName path)
  else if token.key = "SUBSYSTEMS".toList then
    match outside.readLink (joinPath path "subsystem".toList) with
    | some target => globMatch token.value (fileName target)
    | none => false
  else if token.key = "DRIVERS".toList then
    match outside.readLink (joinPath path "driver".toList) with
    | some target => globMatch token.value (fileName target)
    | none => false
  else if token.key = "ATTRS".toList then
    match token.attr with
    | some attr =>
      match outside.readFile (joinPath path attr) with
      | some value => globMatch token.value (trim value)
      | none => false
    | none => false
  else false

/-- The loop up the device tree (lines 1757–1827): whether a device matches. A path gets shorter on
    its way up, so that its length is enough fuel. -/
def matchParents (token : RuleToken) : ℕ → Text → Bool
  | 0, _ => false
  | fuel + 1, path =>
    if matchDevice outside token path then true
    else
      match popPath path with
      | none => false
      | some parent =>
        if parent = "/sys/devices".toList ∨ parent = "/sys".toList ∨ parent = ['/'] then false
        else matchParents token fuel parent

/-- `match_parent_token` (lines 1759–1843). -/
def matchParentToken (token : RuleToken) (event : RuleEvent) : Bool :=
  verdict token.op (matchParents outside token ((syspath event).length + 1) (syspath event))

/-- What a match token compares its pattern with (lines 1591–1651). -/
inductive Subject
  | value (value : Option Text)
  | test
  | program
  | parent
  | unknown

def subject (token : RuleToken) (event : RuleEvent) (programResult : Text) : Subject :=
  if token.key = "ACTION".toList then .value (some event.action)
  else if token.key = "DEVPATH".toList then .value (some event.devpath)
  else if token.key = "KERNEL".toList then .value (some (kernelName event))
  else if token.key = "SUBSYSTEM".toList then .value (some event.subsystem)
  else if token.key = "DRIVER".toList then .value (some event.driver)
  else if token.key = "DEVTYPE".toList then .value (some event.devtype)
  else if token.key = "NAME".toList then .value ((devnode event).map fileName)
  else if token.key = "ATTR".toList then .value (token.attr.bind (readSysattr outside event))
  else if token.key = "ENV".toList then .value (token.attr.bind event.env.get?)
  else if token.key = "TAG".toList then .value (event.env.get? "TAGS".toList)
  else if token.key = "TEST".toList then .test
  else if token.key = "RESULT".toList then .value (some programResult)
  else if isMatchKey token.key then .program
  else if ["KERNELS".toList, "SUBSYSTEMS".toList, "DRIVERS".toList, "ATTRS".toList,
      "TAGS".toList].contains token.key then .parent
  else .unknown

/-- `match_token` (lines 1590–1679): the verdict, and the result of the last program. -/
def matchToken (token : RuleToken) (event : RuleEvent) (programResult : Text) : Bool × Text :=
  match subject outside token event programResult with
  | .value (some value) => (verdict token.op (globMatch token.value value), programResult)
  | .value none => (token.op = .nomatch, programResult)
  | .test =>
    let raw := expandSubstitutions ⟨outside, event, programResult, [], []⟩ token.value
    let path := if raw.head? = some '/' then raw else joinPath (syspath event) raw
    (verdict token.op (outside.pathExists path), programResult)
  | .program => matchProgram outside token event programResult
  | .parent => (matchParentToken outside token event, programResult)
  | .unknown => (true, programResult)

end OxidizedSystemd.Udevd.Rules
