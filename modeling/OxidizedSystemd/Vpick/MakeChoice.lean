import OxidizedSystemd.Vpick.CompareVersions

/-!
# The choice among versioned entries

Model of `make_choice` and `pick_result_compare` (`vpick-core/src/lib.rs`, lines 25–116 and
251–537). What the kernel answers is a parameter: the name of the machine, and the mode and
the canonical form of a path.

* `pickResult?`: what the loop of `make_choice` makes of one entry, if it does not skip it.
* `pickResultCompare_total`: `pick_result_compare` is a total preorder.
* `path_eq_of_pickResultCompare`: only results with one path tie.
* `makeChoice_eq`: the loop keeps the best of the results.
* `makeChoice_order_independent`: the same entries in another order give the same path,
  and it is the path of a greatest one.
-/

namespace OxidizedSystemd.Vpick

open OxidizedSystemd.Lib

/-! ## The architecture -/

/-- `enum Arch` (lines 25–42). -/
inductive Arch where
  | x86_64 | x86 | arm64 | arm | ia64 | ppc64Le | ppc64 | ppc | s390x | s390 | riscv64 | riscv32
  | mips64Le | mipsLe | loongarch64
  deriving DecidableEq

/-- `ARCH_TABLE` (lines 44–60). -/
def archTable : List (String × Arch) :=
  [("x86-64", .x86_64), ("x86", .x86), ("arm64", .arm64), ("arm", .arm), ("ia64", .ia64),
    ("ppc64-le", .ppc64Le), ("ppc64", .ppc64), ("ppc", .ppc), ("s390x", .s390x), ("s390", .s390),
    ("riscv64", .riscv64), ("riscv32", .riscv32), ("mips64-le", .mips64Le),
    ("mips-le", .mipsLe), ("loongarch64", .loongarch64)]

/-- `arch_from_string` (lines 62–64). -/
def archFromString (s : List Char) : Option Arch :=
  (archTable.find? fun entry => entry.1.toList == s).map Prod.snd

/-- `native_arch` (lines 76–106), of the `machine` field that `uname` fills in. -/
def nativeArch (uname : Option Bytes) : Option Arch := do
  let machine ← uname
  let m := fromUtf8Lossy (machine.takeWhile (· ≠ 0))
  if m = "x86_64" then some .x86_64
  else if m ∈ ["i686", "i586", "i486", "i386"] then some .x86
  else if m ∈ ["aarch64", "aarch64_be"] then some .arm64
  else if "arm".toList.isPrefixOf m.toList then some .arm
  else if m = "ia64" then some .ia64
  else if m = "ppc64le" then some .ppc64Le
  else if m = "ppc64" then some .ppc64
  else if m = "ppc" then some .ppc
  else if m = "s390x" then some .s390x
  else if m = "s390" then some .s390
  else if m = "riscv64" then some .riscv64
  else if m = "riscv32" then some .riscv32
  else if m = "mips64" then some .mips64Le
  else if m = "mips" then some .mipsLe
  else if m = "loongarch64" then some .loongarch64
  else none

/-- `secondary_arch` (lines 109–116). -/
def secondaryArch (uname : Option Bytes) : Option Arch :=
  match nativeArch uname with
  | some .x86_64 => some .x86
  | some .arm64 => some .arm
  | some .ppc64 => some .ppc
  | _ => none

/-! ## The inode type -/

/-- `libc::S_IFMT`. -/
def sIfmt : ℕ := 0o170000

/-- `dt_bit` (lines 263–265). -/
def dtBit (dt : ℕ) : ℕ := 1 <<< dt

/-- `mode_to_dt` (lines 267–278). -/
def modeToDt (mode : ℕ) : ℕ :=
  match mode &&& sIfmt with
  | 0o100000 => 8
  | 0o040000 => 4
  | 0o120000 => 10
  | 0o060000 => 6
  | 0o020000 => 2
  | 0o010000 => 1
  | 0o140000 => 12
  | _ => 0

/-! ## Results and filters -/

/-- `PICK_ARCHITECTURE` (line 308). -/
def pickArchitecture : ℕ := 1

/-- `PICK_TRIES` (line 309). -/
def pickTries : ℕ := 2

/-- `PICK_RESOLVE` (line 310). -/
def pickResolve : ℕ := 4

/-- `struct PickFilter` (lines 317–324). -/
structure PickFilter where
  typeMask : ℕ
  basename : Option (List Char)
  version : Option (List Char)
  architecture : Option Arch
  suffix : Option (List Char)

/-- `struct PickResult` (lines 326–334). -/
structure PickResult where
  path : Bytes
  mode : ℕ
  version : Option (List Char)
  architecture : Option Arch
  triesLeft : Option ℕ
  triesDone : Option ℕ
  deriving DecidableEq

/-- `u32::MAX`. -/
def u32Max : ℕ := 4294967295

/-- `pick_result_compare` (lines 343–391). -/
def pickResultCompare (uname : Option Bytes) (flags : ℕ) (a b : PickResult) : ℤ :=
  let d := if flags &&& pickTries ≠ 0 then
      cmpI32 (a.triesLeft != some 0) (b.triesLeft != some 0)
    else 0
  let d := if d = 0 then
      compareVersions (String.ofList (a.version.getD [])) (String.ofList (b.version.getD []))
    else d
  let d := if flags &&& pickArchitecture ≠ 0 then
      let native := nativeArch uname
      let d := if d = 0 then cmpI32 (a.architecture == native) (b.architecture == native) else d
      let secondary := secondaryArch uname
      if secondary.isSome then
        if d = 0 then cmpI32 (a.architecture == secondary) (b.architecture == secondary) else d
      else d
    else d
  let d := if flags &&& pickTries ≠ 0 then
      let d := if d = 0 then cmpI32 (a.triesLeft.getD u32Max) (b.triesLeft.getD u32Max) else d
      if d = 0 then -cmpI32 (a.triesDone.getD u32Max) (b.triesDone.getD u32Max) else d
    else d
  if d = 0 then cmpI32 a.path b.path else d

/-! ## The names of entries -/

/-- `VERSION_CHARS` (line 251). -/
def versionChars : List Char :=
  "0123456789abcdefghijklmnopqrstuvwxyzABCDEFGHIJKLMNOPQRSTUVWXYZ.~_-+^".toList

/-- `version_is_valid` (lines 253–255). -/
def versionIsValid (s : List Char) : Bool := !s.isEmpty && s.all fun c => versionChars.contains c

/-- `parse_tries` (lines 394–413). -/
def parseTries (s : List Char) : Option (ℕ × ℕ) := do
  let rest ← stripPrefix ['+'] s
  let digits := rest.takeWhile Char.isDigit
  if digits.isEmpty then none
  else
    let left ← fromStrRadix 10 u32Max digits
    let after := rest.drop digits.length
    if after.isEmpty then some (left, 0)
    else
      let doneStr ← stripPrefix ['-'] after
      if doneStr.isEmpty || !doneStr.all Char.isDigit then none
      else
        let done ← fromStrRadix 10 u32Max doneStr
        some (left, done)

/-- `architecture_matches` (lines 415–426). -/
def architectureMatches (uname : Option Bytes) (filter : PickFilter) (a : Option Arch) : Bool :=
  match filter.architecture with
  | some fa => a == some fa
  | none =>
    if a == nativeArch uname then true
    else if (secondaryArch uname).isSome && a == secondaryArch uname then true
    else a.isNone

/-- `Path::join`. -/
def joinPath (dir name : Bytes) : Bytes :=
  if name.head? = some 0x2f then name
  else if dir.isEmpty || dir.getLast? = some 0x2f then dir ++ name
  else dir ++ 0x2f :: name

/-- What the kernel answers about a path, `none` for an error. -/
structure FileSystem where
  /-- `std::fs::metadata`, the mode of the file behind the symlinks. -/
  metadata : Bytes → Option ℕ
  /-- `std::fs::canonicalize`. -/
  canonicalize : Bytes → Option Bytes

/-- `stat_and_maybe_resolve` (lines 428–437). -/
def statAndMaybeResolve (fs : FileSystem) (path : Bytes) (resolve : Bool) :
    Option (ℕ × Bytes) := do
  let mode ← fs.metadata path
  let out ← if resolve then fs.canonicalize path else some path
  some (mode, out)

/-! ## The loop -/

section Loop

variable (uname : Option Bytes) (fs : FileSystem) (dir : Bytes) (filter : PickFilter) (flags : ℕ)

/-- The part of a name between the basename and the suffix (lines 452–469). -/
def strippedName (dname : List Char) : Option (List Char) := do
  let e ← match filter.basename.filter (!·.isEmpty) with
    | some bn => stripPrefix bn dname >>= stripPrefix ['_']
    | none => some dname
  match filter.suffix.filter (!·.isEmpty) with
  | some sfx => stripSuffix sfx e
  | none => some e

/-- What is left of a name in front of the tries, and both counters (lines 471–482). -/
def takeTries (owned : List Char) : List Char × Option ℕ × Option ℕ :=
  if flags &&& pickTries ≠ 0 then
    match rsplitOnce '+' owned with
    | some (front, behind) =>
      match parseTries ('+' :: behind) with
      | some (l, d) => (front, some l, some d)
      | none => (owned, none, none)
    | none => (owned, none, none)
  else (owned, none, none)

/-- What is left of a name in front of the architecture, and the architecture, unless it is
    not a wanted one (lines 484–495). -/
def takeArchitecture (owned : List Char) : Option (List Char × Option Arch) :=
  if flags &&& pickArchitecture ≠ 0 then
    match rsplitOnce '_' owned with
    | some (front, behind) =>
      let arch := archFromString behind
      if architectureMatches uname filter arch then some (front, arch) else none
    | none => if architectureMatches uname filter none then some (owned, none) else none
  else some (owned, none)

/-- One turn of the loop of `make_choice` up to the comparison (lines 448–524); `none` is a
    `continue`. An entry is its name, `none` where reading it failed. -/
def pickResult? (ent : Option Bytes) : Option PickResult := do
  let dname := fromUtf8Lossy (← ent)
  let e ← strippedName filter dname.toList
  let (owned, triesLeft, triesDone) := takeTries flags e
  let (owned, arch) ← takeArchitecture uname filter flags owned
  if !versionIsValid owned then none
  else if filter.version.any (· ≠ owned) then none
  else
    let entryPath := joinPath dir (asBytes dname)
    let (mode, resolved) ← statAndMaybeResolve fs entryPath (flags &&& pickResolve ≠ 0)
    if filter.typeMask ≠ 0 ∧ filter.typeMask &&& dtBit (modeToDt mode) = 0 then none
    else
      some { path := resolved, mode := mode, version := if owned.isEmpty then none else some owned,
             architecture := arch, triesLeft := triesLeft, triesDone := triesDone }

/-- One turn of the loop of `make_choice` (lines 448–534). -/
def considerEntry (best : Option PickResult) (ent : Option Bytes) : Option PickResult :=
  match pickResult? uname fs dir filter flags ent with
  | none => best
  | some found =>
    match best with
    | none => some found
    | some b => if pickResultCompare uname flags found b > 0 then some found else some b

/-- `make_choice` (lines 440–537), of what `read_dir` answers: the entries in the order of
    the directory, or the text of the error. -/
def makeChoice (readDir : Except (List Char) (List (Option Bytes))) :
    Except (List Char) (Option PickResult) :=
  match readDir with
  | .error e =>
    .error ("Failed to read directory ".toList ++ (fromUtf8Lossy dir).toList ++ ": ".toList ++ e)
  | .ok entries => .ok (entries.foldl (considerEntry uname fs dir filter flags) none)

end Loop

/-! ## The comparison -/

section Comparison

variable {uname : Option Bytes} {flags : ℕ} {a b : PickResult}

theorem compareVersions_total (v : PickResult → String) :
    TotalCompare fun a b => compareVersions (v a) (v b) := by
  simp only [compareVersions_eq_cmpI32_versionKey]
  exact TotalCompare.key fun a => versionKey (v a)

/-- What `pick_result_compare` compares in front of the paths. -/
theorem pickResultCompare_eq_andThen (uname : Option Bytes) (flags : ℕ) : ∃ f, TotalCompare f ∧
    pickResultCompare uname flags =
      fun a b => if f a b = 0 then cmpI32 a.path b.path else f a b := by
  have htries := TotalCompare.ite (flags &&& pickTries ≠ 0)
    (TotalCompare.key fun a : PickResult => a.triesLeft != some 0) TotalCompare.tie
  have hversion := htries.andThen
    (compareVersions_total fun a => String.ofList (a.version.getD []))
  have hnative := hversion.andThen (TotalCompare.key fun a => a.architecture == nativeArch uname)
  have hsecondary := TotalCompare.ite ((secondaryArch uname).isSome = true)
    (hnative.andThen (TotalCompare.key fun a => a.architecture == secondaryArch uname)) hnative
  have harch := TotalCompare.ite (flags &&& pickArchitecture ≠ 0) hsecondary hversion
  have hleft := harch.andThen (TotalCompare.key fun a => a.triesLeft.getD u32Max)
  have hdone := hleft.andThen (TotalCompare.key fun a => a.triesDone.getD u32Max).neg
  exact ⟨_, TotalCompare.ite (flags &&& pickTries ≠ 0) hdone harch, rfl⟩

theorem pickResultCompare_total (uname : Option Bytes) (flags : ℕ) :
    TotalCompare (pickResultCompare uname flags) := by
  obtain ⟨f, hf, heq⟩ := pickResultCompare_eq_andThen uname flags
  rw [heq]
  exact hf.andThen (TotalCompare.key PickResult.path)

/-- The paths break every tie. -/
theorem path_eq_of_pickResultCompare (h : pickResultCompare uname flags a b = 0) :
    a.path = b.path := by
  obtain ⟨f, -, heq⟩ := pickResultCompare_eq_andThen uname flags
  rw [heq] at h
  dsimp only at h
  split at h
  · exact Std.LawfulEqOrd.compare_eq_iff_eq.mp (sign_eq_zero.mp h)
  · contradiction

end Comparison

/-! ## The loop keeps the best result -/

section Choice

variable (uname : Option Bytes) (fs : FileSystem) (dir : Bytes) (filter : PickFilter) (flags : ℕ)

/-- The results of the matching entries, in the order of the directory. -/
def matching (entries : List (Option Bytes)) : List PickResult :=
  entries.filterMap (pickResult? uname fs dir filter flags)

theorem makeChoice_eq (entries : List (Option Bytes)) :
    makeChoice uname fs dir filter flags (.ok entries) =
      .ok ((matching uname fs dir filter flags entries).foldl
        (keepBest (pickResultCompare uname flags)) none) := by
  rw [makeChoice, matching, List.foldl_filterMap]
  congr 2
  funext best ent
  rw [considerEntry]
  cases pickResult? uname fs dir filter flags ent with
  | none => rfl
  | some found => cases best <;> rfl

/-- Whether `makeChoice` finds anything, and the path it finds, do not depend on the order in
    which the directory lists its entries, and what it finds is greatest among the results
    of the matching entries. -/
theorem makeChoice_order_independent {entries entries' : List (Option Bytes)}
    (h : entries.Perm entries') :
    ∃ found found',
      makeChoice uname fs dir filter flags (.ok entries) = .ok found ∧
      makeChoice uname fs dir filter flags (.ok entries') = .ok found' ∧
      found.map PickResult.path = found'.map PickResult.path ∧
      (found = none ↔ ∀ ent ∈ entries, pickResult? uname fs dir filter flags ent = none) ∧
      ∀ best, found = some best →
        (∃ ent ∈ entries, pickResult? uname fs dir filter flags ent = some best) ∧
        ∀ ent ∈ entries, ∀ other, pickResult? uname fs dir filter flags ent = some other →
          pickResultCompare uname flags other best ≤ 0 := by
  have htotal := pickResultCompare_total uname flags
  have hperm : (matching uname fs dir filter flags entries).Perm
      (matching uname fs dir filter flags entries') := h.filterMap _
  refine ⟨_, _, makeChoice_eq uname fs dir filter flags entries,
    makeChoice_eq uname fs dir filter flags entries', ?_⟩
  obtain ⟨hnil, hnone⟩ | ⟨best, hbest, hsome, hmax⟩ := keepBest_spec htotal
    (matching uname fs dir filter flags entries)
  · have hnil' := hnil ▸ hperm
    rw [hnone, List.nil_perm.mp hnil']
    refine ⟨rfl, ?_, ?_⟩
    · exact iff_of_true rfl (List.filterMap_eq_nil_iff.mp hnil)
    · intro best hbest
      cases hbest
  · obtain ⟨ent, hent, hresult⟩ := List.mem_filterMap.mp hbest
    rw [hsome]
    refine ⟨?_, ?_, ?_⟩
    · obtain ⟨hnil', -⟩ | ⟨best', -, hsome', -⟩ := keepBest_spec htotal
        (matching uname fs dir filter flags entries')
      · rw [hnil', List.perm_nil] at hperm
        rw [hperm] at hbest
        exact absurd hbest List.not_mem_nil
      · rw [hsome']
        exact congrArg some (path_eq_of_pickResultCompare (htotal.perm_eq_zero hperm hsome hsome'))
    · refine iff_of_false (Option.some_ne_none best) ?_
      intro hall
      rw [hall ent hent] at hresult
      cases hresult
    · rintro _ ⟨⟩
      refine ⟨⟨ent, hent, hresult⟩, ?_⟩
      intro ent' hent' other hother
      exact hmax other (List.mem_filterMap.mpr ⟨ent', hent', hother⟩)

end Choice

/-- It applies to two images and a file of another name: the one with tries left is chosen,
    although the other one is newer. -/
theorem makeChoice_order_independent_images :
    let fs : FileSystem := ⟨fun _ => some 0o100644, some⟩
    let filter : PickFilter := ⟨0, some "os".toList, none, none, some ".raw".toList⟩
    let choice := makeChoice (some (asBytes "x86_64")) fs (asBytes "/os.raw.v") filter 3
    let used := some (asBytes "os_2_x86-64+0-3.raw")
    let fresh := some (asBytes "os_1_x86-64+2-1.raw")
    let other := some (asBytes "notes.txt")
    choice (.ok [used, fresh, other]) =
        .ok (some ⟨asBytes "/os.raw.v/os_1_x86-64+2-1.raw", 0o100644, some ['1'], some .x86_64,
          some 2, some 1⟩) ∧
      ∃ found found', choice (.ok [used, fresh, other]) = .ok found ∧
        choice (.ok [fresh, used, other]) = .ok found' ∧
        found.map PickResult.path = found'.map PickResult.path := by
  refine ⟨by decide, ?_⟩
  obtain ⟨found, found', hfound, hfound', hpath, -⟩ :=
    makeChoice_order_independent (some (asBytes "x86_64")) ⟨fun _ => some 0o100644, some⟩
      (asBytes "/os.raw.v") ⟨0, some "os".toList, none, none, some ".raw".toList⟩ 3
      (List.Perm.swap (some (asBytes "os_1_x86-64+2-1.raw")) (some (asBytes "os_2_x86-64+0-3.raw"))
        [some (asBytes "notes.txt")])
  exact ⟨found, found', hfound, hfound', hpath⟩

end OxidizedSystemd.Vpick
