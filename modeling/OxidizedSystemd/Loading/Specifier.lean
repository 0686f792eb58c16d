import OxidizedSystemd.Lib.SortedMap
import OxidizedSystemd.Loading.UnitDirs
import OxidizedSystemd.Loading.UnitNameUnescape

/-!
# Specifiers

Models of `resolve_specifiers` (`specifier.rs`, lines 255–443) and of what it takes from a unit name
(lines 484–505), and of `instance_of` and `parse_template_instance`
(`units/loading/directory_deps.rs`, lines 1383–1401 and 1441–1461).
-/

namespace OxidizedSystemd.Loading

open Lib

/-- `struct SpecifierContext`, with the fields that are expanded. -/
structure SpecifierContext where
  userName : Text
  userUid : Text
  userHome : Text
  userShell : Text
  userGroup : Text
  userGid : Text
  machineId : Text
  bootId : Text
  hostname : Text
  shortHostname : Text
  kernelRelease : Text
  architecture : Text
  runtimeDir : Text
  configDir : Text
  cacheDir : Text
  logDir : Text
  stateDir : Text
  tmpDir : Text
  varTmpDir : Text
  osRelease : SortedMap Text Text

/-- A context without texts. -/
def emptyContext : SpecifierContext :=
  ⟨[], [], [], [], [], [], [], [], [], [], [], [], [], [], [], [], [], [], [], .empty⟩

/-- A unit name without its suffix. -/
def withoutSuffix (unitName : Text) : Text :=
  ((rsplitOnce '.' unitName).map Prod.fst).getD unitName

/-- `extract_prefix`. -/
def extractPrefix (unitName : Text) : Text := (withoutSuffix unitName).takeWhile (· ≠ '@')

/-- `instance_of`. -/
def instanceOf (unitName : Text) : Text :=
  match splitOnce ['@'] unitName with
  | some (_, rest) => withoutSuffix rest
  | none => []

/-- `parse_template_instance`: the template and the instance. -/
def parseTemplateInstance (unitName : Text) : Option (Text × Text) :=
  match splitOnce ['@'] unitName with
  | some (before, rest) =>
    match rsplitOnce '.' rest with
    | some (inst, suffix) => if inst = [] then none else some (before ++ '@' :: '.' :: suffix, inst)
    | none => none
  | none => none

/-- `unit_name_unescape(raw).unwrap_or(raw)`. -/
def unescapeOr (raw : Text) : Text :=
  ((unitNameUnescape (String.ofList raw)).map String.toList).getD raw

/-- What `%j` stands for: the instance up to its first dash, or the prefix behind its last one. -/
def dashPart (unitName inst : Text) : Text :=
  if inst ≠ [] then inst.takeWhile (· ≠ '-')
  else ((rsplitOnce '-' (extractPrefix unitName)).map Prod.snd).getD (extractPrefix unitName)

/-- What `%f` stands for. -/
def instancePath (unitName inst : Text) : Text :=
  let unescaped := unescapeOr (if inst = [] then extractPrefix unitName else inst)
  if unescaped.head? = some '/' then unescaped else '/' :: unescaped

/-- A field of os-release, empty where it is missing. -/
def SpecifierContext.osField (ctx : SpecifierContext) (field : String) : Text :=
  (ctx.osRelease.get? field.toList).getD []

/-- What a specifier stands for (lines 289–427). An unknown one is kept. -/
def specifierValue (ctx : SpecifierContext) (unitName inst : Text) (spec : Char) : Text :=
  match spec with
  | 'n' => unitName
  | 'N' => withoutSuffix unitName
  | 'p' => extractPrefix unitName
  | 'P' => unescapeOr (extractPrefix unitName)
  | 'i' => inst
  | 'I' => unescapeOr inst
  | 'f' => instancePath unitName inst
  | 'j' => dashPart unitName inst
  | 'J' => unescapeOr (dashPart unitName inst)
  | 'u' => ctx.userName
  | 'U' => ctx.userUid
  | 'h' => ctx.userHome
  | 's' => ctx.userShell
  | 'g' => ctx.userGroup
  | 'G' => ctx.userGid
  | 'm' => ctx.machineId
  | 'b' => ctx.bootId
  | 'H' => ctx.hostname
  | 'l' => ctx.shortHostname
  | 'v' => ctx.kernelRelease
  | 'a' => ctx.architecture
  | 't' => ctx.runtimeDir
  | 'T' => ctx.tmpDir
  | 'V' => ctx.varTmpDir
  | 'E' => ctx.configDir
  | 'C' => ctx.cacheDir
  | 'S' => ctx.stateDir
  | 'L' => ctx.logDir
  | 'd' => "/run/credentials/".toList ++ unitName
  | 'o' => ctx.osField "ID"
  | 'w' => ctx.osField "VERSION"
  | 'q' => ctx.osField "VERSION_ID"
  | 'M' => ctx.osField "PRETTY_NAME"
  | 'A' => ctx.osField "IMAGE_VERSION"
  | 'B' => ctx.osField "BUILD_ID"
  | 'W' => ctx.osField "VARIANT_ID"
  | '%' => ['%']
  | _ => ['%', spec]

/-- The loop of `resolve_specifiers`: one pass from the left, where `value` is what a specifier
    stands for. -/
def expandSpecifiers (value : Char → Text) : Text → Text
  | [] => []
  | ['%'] => ['%']
  | '%' :: spec :: rest => value spec ++ expandSpecifiers value rest
  | c :: rest => c :: expandSpecifiers value rest

/-- `resolve_specifiers`. -/
def resolveSpecifiers (ctx : SpecifierContext) (content unitName inst : Text) : Text :=
  expandSpecifiers (specifierValue ctx unitName inst) content

/-- The instance of an instantiated name. -/
theorem instanceOf_eq {unitName template inst : Text}
    (h : parseTemplateInstance unitName = some (template, inst)) : instanceOf unitName = inst := by
  unfold parseTemplateInstance at h
  unfold instanceOf
  split at h
  · rename_i before rest _
    split at h
    · rename_i hdot
      split at h
      · cases h
      · rw [← (Prod.mk.inj (Option.some.inj h)).2]
        show withoutSuffix rest = _
        rw [withoutSuffix, hdot]
        rfl
    · cases h
  · cases h

end OxidizedSystemd.Loading
