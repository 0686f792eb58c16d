import OxidizedSystemd.Cgroups.DeviceProgram
import OxidizedSystemd.Lib.Text

/-!
# Device policies

Model of `apply_device_policy` (`platform/cgroups/bpf_devices.rs`, lines 221–299
and 460–509) up to the program that it loads. What `std::fs::metadata` reports
of a path is a parameter, with the device number taken apart by `libc::major`
and `libc::minor`.

* `deviceProgram_unmatched`: what happens to an access that no rule matches.
* `deviceProgram_faithful_iff`: exactly when the program allows what the entries
  name, and nothing else.
* `char_node_is_denied`: a character device whose entry is of no use.
-/

namespace OxidizedSystemd.Cgroups

open OxidizedSystemd.Lib
open OxidizedSystemd.Lib.Ebpf

def BPF_DEVCG_DEV_BLOCK : UInt32 := 1

/-- The bits of a mode that hold the type of a file. -/
def S_IFMT : UInt32 := 0o170000

def S_IFBLK : UInt32 := 0o060000

def S_IFCHR : UInt32 := 0o020000

/-- What `parse_device_allow_entry` reads of a `std::fs::Metadata`. -/
structure Metadata where
  mode : UInt32
  major : UInt32
  minor : UInt32
  deriving DecidableEq

/-- `enum DevicePolicy` (`units/unit_parsing/mod.rs`, lines 2022–2032). -/
inductive DevicePolicy
  | auto | closed | strict
  deriving DecidableEq

/-! ## The rules -/

/-- `parse_access` (lines 223–234). -/
def parseAccess (s : List Char) : UInt32 :=
  s.foldl (fun access c =>
    if c = 'r' then access ||| BPF_DEVCG_ACC_READ
    else if c = 'w' then access ||| BPF_DEVCG_ACC_WRITE
    else if c = 'm' then access ||| BPF_DEVCG_ACC_MKNOD
    else access) 0

/-- The device and the access of an entry (lines 237–251); none for one that gives no access. -/
def deviceAndAccess (entry : List Char) : Option (List Char × UInt32) :=
  match splitWhitespace entry with
  | [] => none
  | device :: rest =>
    let access :=
      match rest with
      | access :: _ => parseAccess access
      | [] => BPF_DEVCG_ACC_ALL
    if access = 0 then none else some (device, access)

/-- The rule of a device class (lines 254–269). -/
def classRule (device : List Char) (access : UInt32) : Option DeviceRule :=
  if device = "char-*".toList then some ⟨some BPF_DEVCG_DEV_CHAR, none, none, access⟩
  else if device = "block-*".toList then some ⟨some BPF_DEVCG_DEV_BLOCK, none, none, access⟩
  else none

/-- The type that is read off a mode (lines 279–283). -/
def statDevType (mode : UInt32) : UInt32 :=
  if mode &&& S_IFBLK ≠ 0 then BPF_DEVCG_DEV_BLOCK else BPF_DEVCG_DEV_CHAR

/-- The rule of a path (lines 272–296), given how a type is read off a mode. -/
def nodeRule (devType : UInt32 → UInt32) (metadata : List Char → Option Metadata)
    (device : List Char) (access : UInt32) : Option DeviceRule :=
  if device.head? = some '/' then
    (metadata device).map fun stat =>
      ⟨some (devType stat.mode), some stat.major, some stat.minor, access⟩
  else none

/-- `parse_device_allow_entry` (lines 236–299). -/
def parseDeviceAllowEntry (metadata : List Char → Option Metadata) (entry : List Char) :
    Option DeviceRule :=
  (deviceAndAccess entry).bind fun (device, access) =>
    match classRule device access with
    | some rule => some rule
    | none => nodeRule statDevType metadata device access

/-- The rules of a policy (lines 478–480). -/
def policyRules (policy : DevicePolicy) : List DeviceRule :=
  if policy = .closed then defaultClosedRules else []

/-- The rules that `apply_device_policy` collects (lines 476–487). -/
def collectRules (metadata : List Char → Option Metadata) (policy : DevicePolicy)
    (deviceAllow : List (List Char)) : List DeviceRule :=
  policyRules policy ++ deviceAllow.filterMap (parseDeviceAllowEntry metadata)

/-- The program that `apply_device_policy` loads (lines 466–490). -/
def deviceProgram (metadata : List Char → Option Metadata) (policy : DevicePolicy)
    (deviceAllow : List (List Char)) : Option (List Insn) :=
  if policy = .auto ∧ deviceAllow = [] then none
  else
    let defaultAllow := policy = .auto
    some (buildBpfProgram (collectRules metadata policy deviceAllow) defaultAllow)

variable {metadata : List Char → Option Metadata} {policy : DevicePolicy}
  {deviceAllow : List (List Char)}

/-! ## Accesses that no rule matches -/

/-- With entries there is a program, and what none of its rules matches is denied, unless the policy
    is `auto`, which allows it. -/
theorem deviceProgram_unmatched (metadata : List Char → Option Metadata) (policy : DevicePolicy)
    (hne : deviceAllow ≠ []) :
    ∃ prog, deviceProgram metadata policy deviceAllow = some prog ∧
      ∀ ctx, (∀ rule ∈ collectRules metadata policy deviceAllow, ¬ rule.Matches ctx) →
        deviceVerdict prog ctx = some (if policy = .auto then 1 else 0) := by
  refine ⟨_, if_neg fun h => hne h.2, fun ctx hnone => ?_⟩
  rw [deviceVerdict_buildBpfProgram, if_neg]
  · simp only [decide_eq_true_iff]
  · rintro ⟨rule, hrule, hmatch, -⟩
    exact hnone rule hrule hmatch

/-- The system has one node, `/dev/sda`. -/
def oneDisk (device : List Char) : Option Metadata :=
  if device = "/dev/sda".toList then some ⟨S_IFBLK, 8, 0⟩ else none

theorem deviceProgram_unmatched_oneDisk :
    ∃ prog, deviceProgram oneDisk .strict ["/dev/sda rw".toList] = some prog ∧
      ∀ ctx, (∀ rule ∈ collectRules oneDisk .strict ["/dev/sda rw".toList], ¬ rule.Matches ctx) →
        deviceVerdict prog ctx = some (if DevicePolicy.strict = .auto then 1 else 0) :=
  deviceProgram_unmatched oneDisk .strict (List.cons_ne_nil _ _)

/-- Under `auto`, `/dev/sda rw` does not restrict the access to `/dev/sdb`. -/
theorem auto_allows_unmatched :
    ∃ prog, deviceProgram oneDisk .auto ["/dev/sda rw".toList] = some prog ∧
      (∀ rule ∈ collectRules oneDisk .auto ["/dev/sda rw".toList],
        ¬ rule.Matches ⟨0x20001, 8, 16⟩) ∧
      deviceVerdict prog ⟨0x20001, 8, 16⟩ = some 1 := by
  have hrules : collectRules oneDisk .auto ["/dev/sda rw".toList] = [⟨some 1, some 8, some 0, 6⟩] :=
    rfl
  have hnone : ∀ rule ∈ collectRules oneDisk .auto ["/dev/sda rw".toList],
      ¬ rule.Matches ⟨0x20001, 8, 16⟩ := by
    rw [hrules]
    decide
  refine ⟨_, rfl, hnone, ?_⟩
  rw [deviceVerdict_buildBpfProgram, if_neg]
  · rfl
  · rintro ⟨rule, hrule, hmatch, -⟩
    exact hnone rule hrule hmatch

/-! ## What the entries name -/

/-- The type of a node. -/
def nodeDevType (mode : UInt32) : UInt32 :=
  if mode &&& S_IFMT = S_IFBLK then BPF_DEVCG_DEV_BLOCK else BPF_DEVCG_DEV_CHAR

/-- A rule of the policy or a device class grants the access. -/
def GrantedByClass (policy : DevicePolicy) (deviceAllow : List (List Char)) (ctx : DevCtx) : Prop :=
  (∃ rule ∈ policyRules policy, rule.Matches ctx) ∨
    ∃ entry ∈ deviceAllow, ∃ device access, deviceAndAccess entry = some (device, access) ∧
      ∃ rule ∈ classRule device access, rule.Matches ctx

/-- A named node grants the access, given how a type is read off a mode. -/
def GrantedByNode (devType : UInt32 → UInt32) (metadata : List Char → Option Metadata)
    (deviceAllow : List (List Char)) (ctx : DevCtx) : Prop :=
  ∃ entry ∈ deviceAllow, ∃ device access, deviceAndAccess entry = some (device, access) ∧
    ∃ rule ∈ nodeRule devType metadata device access, rule.Matches ctx

/-- A default rule, a device class or a named node of the same kind and number grants the access. -/
def Granted (metadata : List Char → Option Metadata) (policy : DevicePolicy)
    (deviceAllow : List (List Char)) (ctx : DevCtx) : Prop :=
  GrantedByClass policy deviceAllow ctx ∨ GrantedByNode nodeDevType metadata deviceAllow ctx

/-- An entry names the node that `stat` is of. -/
def Names (metadata : List Char → Option Metadata) (entry : List Char) (stat : Metadata)
    (access : UInt32) : Prop :=
  ∃ device, deviceAndAccess entry = some (device, access) ∧ device.head? = some '/' ∧
    metadata device = some stat

/-- What the kernel reports of a device node: the type, and a number of 12 and 20 bits. -/
def Metadata.IsNode (stat : Metadata) : Prop :=
  (stat.mode &&& S_IFMT = S_IFBLK ∨ stat.mode &&& S_IFMT = S_IFCHR) ∧
    stat.major < 0x1000 ∧ stat.minor < 0x100000

/-- The request of an access to a device of a type with the number of a node. -/
def Metadata.request (stat : Metadata) (devType access : UInt32) : DevCtx :=
  ⟨access <<< 16 ||| devType, stat.major, stat.minor⟩

/-- The access that an entry gives to a character node is also given to this node by a default rule
    or a device class, and to the block device with the same number by what the entries name. -/
def CharNodesCovered (metadata : List Char → Option Metadata) (policy : DevicePolicy)
    (deviceAllow : List (List Char)) : Prop :=
  ∀ entry ∈ deviceAllow, ∀ stat access, Names metadata entry stat access →
    stat.mode &&& S_IFMT = S_IFCHR →
      GrantedByClass policy deviceAllow (stat.request BPF_DEVCG_DEV_CHAR access) ∧
        Granted metadata policy deviceAllow (stat.request BPF_DEVCG_DEV_BLOCK access)

/-! ## Rules and entries -/

theorem grantedByNode_iff {devType : UInt32 → UInt32} {ctx : DevCtx} :
    GrantedByNode devType metadata deviceAllow ctx ↔
      ∃ entry ∈ deviceAllow, ∃ stat access, Names metadata entry stat access ∧
        (⟨some (devType stat.mode), some stat.major, some stat.minor, access⟩ :
          DeviceRule).Matches ctx := by
  constructor
  · rintro ⟨entry, hentry, device, access, hparts, rule, hrule, hmatch⟩
    rw [nodeRule] at hrule
    split_ifs at hrule with hslash
    · obtain ⟨stat, hstat, rfl⟩ := Option.map_eq_some_iff.mp hrule
      exact ⟨entry, hentry, stat, access, ⟨device, hparts, hslash, hstat⟩, hmatch⟩
    · cases hrule
  · rintro ⟨entry, hentry, stat, access, ⟨device, hparts, hslash, hstat⟩, hmatch⟩
    refine ⟨entry, hentry, device, access, hparts, _, ?_, hmatch⟩
    rw [nodeRule, if_pos hslash, hstat]
    rfl

/-- A device class is no path. -/
theorem nodeRule_of_classRule {devType : UInt32 → UInt32} {device : List Char} {access : UInt32}
    {rule : DeviceRule} (h : classRule device access = some rule) :
    nodeRule devType metadata device access = none := by
  rw [classRule] at h
  have hslash : device.head? ≠ some '/' := by
    split_ifs at h with hchar hblock
    · rw [hchar]
      decide
    · rw [hblock]
      decide
  rw [nodeRule, if_neg hslash]

theorem mem_parseDeviceAllowEntry {entry : List Char} {rule : DeviceRule} :
    parseDeviceAllowEntry metadata entry = some rule ↔
      ∃ device access, deviceAndAccess entry = some (device, access) ∧
        (rule ∈ classRule device access ∨ rule ∈ nodeRule statDevType metadata device access) := by
  rw [parseDeviceAllowEntry, Option.bind_eq_some_iff, Prod.exists]
  refine exists_congr fun device => exists_congr fun access => and_congr_right fun _ => ?_
  dsimp only
  cases hclass : classRule device access with
  | none => rw [or_iff_right (Option.not_mem_none rule)]; rfl
  | some classRule =>
    rw [nodeRule_of_classRule hclass, or_iff_left (Option.not_mem_none rule)]
    rfl

/-- What the rules match that are collected. -/
theorem exists_collectRules_iff {ctx : DevCtx} :
    (∃ rule ∈ collectRules metadata policy deviceAllow, rule.Matches ctx) ↔
      GrantedByClass policy deviceAllow ctx ∨
        GrantedByNode statDevType metadata deviceAllow ctx := by
  simp only [collectRules, List.mem_append, List.mem_filterMap, mem_parseDeviceAllowEntry,
    GrantedByClass, GrantedByNode]
  constructor
  · rintro ⟨rule, hrule | ⟨entry, hentry, device, access, hparts, hclass | hnode⟩, hmatch⟩
    · exact .inl (.inl ⟨rule, hrule, hmatch⟩)
    · exact .inl (.inr ⟨entry, hentry, device, access, hparts, rule, hclass, hmatch⟩)
    · exact .inr ⟨entry, hentry, device, access, hparts, rule, hnode, hmatch⟩
  · rintro ((⟨rule, hrule, hmatch⟩ | ⟨entry, hentry, device, access, hparts, rule, hrule, hmatch⟩) |
      ⟨entry, hentry, device, access, hparts, rule, hrule, hmatch⟩)
    · exact ⟨rule, .inl hrule, hmatch⟩
    · exact ⟨rule, .inr ⟨entry, hentry, device, access, hparts, .inl hrule⟩, hmatch⟩
    · exact ⟨rule, .inr ⟨entry, hentry, device, access, hparts, .inr hrule⟩, hmatch⟩

/-- The numbers of nodes are in range. -/
theorem inRange_of_mem_collectRules
    (hnodes : ∀ entry ∈ deviceAllow, ∀ stat access, Names metadata entry stat access → stat.IsNode)
    {rule : DeviceRule} (h : rule ∈ collectRules metadata policy deviceAllow) : rule.InRange := by
  have hsmall {x bound : UInt32} (hx : x < bound) (hb : bound ≤ 0x80000000) : x < 0x80000000 :=
    UInt32.lt_of_lt_of_le hx hb
  rcases List.mem_append.mp h with h | h
  · rw [policyRules] at h
    have hdefault : ∀ rule ∈ defaultClosedRules, rule.InRange := by decide
    split_ifs at h
    · exact hdefault rule h
    · cases h
  · obtain ⟨entry, hentry, h⟩ := List.mem_filterMap.mp h
    obtain ⟨device, access, hparts, h | h⟩ := mem_parseDeviceAllowEntry.mp h
    · rw [Option.mem_def, classRule] at h
      split_ifs at h
      · cases h
        exact ⟨fun _ h => (Option.not_mem_none _ h).elim, fun _ h => (Option.not_mem_none _ h).elim⟩
      · cases h
        exact ⟨fun _ h => (Option.not_mem_none _ h).elim, fun _ h => (Option.not_mem_none _ h).elim⟩
    · rw [Option.mem_def, nodeRule] at h
      split_ifs at h with hslash
      obtain ⟨stat, hstat, rfl⟩ := Option.map_eq_some_iff.mp h
      obtain ⟨-, hmajor, hminor⟩ := hnodes entry hentry stat access ⟨device, hparts, hslash, hstat⟩
      constructor
      · rintro _ ⟨⟩
        exact hsmall hmajor (by decide)
      · rintro _ ⟨⟩
        exact hsmall hminor (by decide)

/-! ## Requests for all that an entry gives -/

theorem parseAccess_lt (s : List Char) : (parseAccess s).toNat < 2 ^ 3 := by
  have hloop : ∀ (s : List Char) (access : UInt32), access.toNat < 2 ^ 3 →
      (s.foldl (fun access c =>
        if c = 'r' then access ||| BPF_DEVCG_ACC_READ
        else if c = 'w' then access ||| BPF_DEVCG_ACC_WRITE
        else if c = 'm' then access ||| BPF_DEVCG_ACC_MKNOD
        else access) access).toNat < 2 ^ 3 := by
    intro s
    induction s with
    | nil => exact fun _ h => h
    | cons c s ih =>
      intro access h
      rw [List.foldl_cons]
      refine ih _ ?_
      split_ifs
      · exact Nat.or_lt_two_pow h (by decide)
      · exact Nat.or_lt_two_pow h (by decide)
      · exact Nat.or_lt_two_pow h (by decide)
      · exact h
  exact hloop s 0 (by decide)

theorem access_lt {entry device : List Char} {access : UInt32}
    (h : deviceAndAccess entry = some (device, access)) : access.toNat < 2 ^ 3 := by
  rw [deviceAndAccess] at h
  split at h
  · cases h
  · dsimp only at h
    split at h <;> split_ifs at h <;> cases h
    · exact parseAccess_lt _
    · decide

/-- The halves of the first field of a request. -/
theorem devType_access_request (stat : Metadata) {devType access : UInt32}
    (htype : devType.toNat < 2 ^ 16) (haccess : access.toNat < 2 ^ 3) :
    (stat.request devType access).devType = devType ∧
      (stat.request devType access).access = access := by
  have hfield : (access <<< 16 ||| devType).toNat = access.toNat * 2 ^ 16 + devType.toNat := by
    have hshift : (access <<< 16).toNat = access.toNat <<< 16 := by
      have hlt : access.toNat <<< 16 < 2 ^ 32 := by
        rw [Nat.shiftLeft_eq]
        omega
      have hbits : (16 : UInt32).toNat % 32 = 16 := rfl
      rw [UInt32.toNat_shiftLeft, hbits, Nat.mod_eq_of_lt hlt]
    rw [UInt32.toNat_or, hshift, ← Nat.shiftLeft_add_eq_or_of_lt htype, Nat.shiftLeft_eq]
  constructor
  · refine UInt32.toNat_inj.mp ?_
    have hmask : (access <<< 16 ||| devType).toNat &&& (2 ^ 16 - 1) = devType.toNat := by
      rw [Nat.and_two_pow_sub_one_eq_mod, hfield, Nat.mul_add_mod_of_lt htype]
    exact (UInt32.toNat_and ..).trans hmask
  · refine UInt32.toNat_inj.mp ?_
    have hshift : (access <<< 16 ||| devType).toNat >>> 16 = access.toNat := by
      rw [Nat.shiftRight_eq_div_pow, hfield]
      omega
    exact (UInt32.toNat_shiftRight ..).trans hshift

/-- A rule that matches the request of all that an entry gives to a device matches each request that
    the entry grants. -/
theorem DeviceRule.Matches.of_request {rule : DeviceRule} {stat : Metadata}
    {devType access : UInt32} (htype : devType.toNat < 2 ^ 16) (haccess : access.toNat < 2 ^ 3)
    (h : rule.Matches (stat.request devType access)) {ctx : DevCtx}
    (hctx : (⟨some devType, some stat.major, some stat.minor, access⟩ : DeviceRule).Matches ctx) :
    rule.Matches ctx := by
  obtain ⟨hreqType, hreqAccess⟩ := devType_access_request stat htype haccess
  obtain ⟨hdevType, hmajor, hminor, hbits⟩ := h
  obtain ⟨htype', hmajor', hminor', hbits'⟩ := hctx
  rw [hreqType] at hdevType
  rw [hreqAccess] at hbits
  refine ⟨fun t ht => ?_, fun m hm => ?_, fun m hm => ?_, fun bit hbit hasked => ?_⟩
  · exact (htype' devType rfl).trans (hdevType t ht)
  · exact (hmajor' stat.major rfl).trans (hmajor m hm)
  · exact (hminor' stat.minor rfl).trans (hminor m hm)
  · exact hbits bit hbit (hbits' bit hbit hasked)

theorem GrantedByClass.of_request {stat : Metadata} {devType access : UInt32}
    (htype : devType.toNat < 2 ^ 16) (haccess : access.toNat < 2 ^ 3)
    (h : GrantedByClass policy deviceAllow (stat.request devType access)) {ctx : DevCtx}
    (hctx : (⟨some devType, some stat.major, some stat.minor, access⟩ : DeviceRule).Matches ctx) :
    GrantedByClass policy deviceAllow ctx := by
  rcases h with ⟨rule, hrule, hmatch⟩ |
    ⟨entry, hentry, device, access', hparts, rule, hrule, hmatch⟩
  · exact .inl ⟨rule, hrule, hmatch.of_request htype haccess hctx⟩
  · exact .inr ⟨entry, hentry, device, access', hparts, rule, hrule,
      hmatch.of_request htype haccess hctx⟩

theorem Granted.of_request {stat : Metadata} {devType access : UInt32}
    (htype : devType.toNat < 2 ^ 16) (haccess : access.toNat < 2 ^ 3)
    (h : Granted metadata policy deviceAllow (stat.request devType access)) {ctx : DevCtx}
    (hctx : (⟨some devType, some stat.major, some stat.minor, access⟩ : DeviceRule).Matches ctx) :
    Granted metadata policy deviceAllow ctx := by
  rcases h with h | ⟨entry, hentry, device, access', hparts, rule, hrule, hmatch⟩
  · exact .inl (h.of_request htype haccess hctx)
  · exact .inr ⟨entry, hentry, device, access', hparts, rule, hrule,
      hmatch.of_request htype haccess hctx⟩

/-- The request of all that an entry gives to a device is granted by the entry's rule. -/
theorem matches_request (stat : Metadata) {devType access : UInt32}
    (htype : devType.toNat < 2 ^ 16) (haccess : access.toNat < 2 ^ 3) :
    (⟨some devType, some stat.major, some stat.minor, access⟩ : DeviceRule).Matches
      (stat.request devType access) := by
  obtain ⟨hreqType, hreqAccess⟩ := devType_access_request stat htype haccess
  refine ⟨?_, ?_, ?_, fun bit _ hasked => hreqAccess ▸ hasked⟩
  · rintro _ ⟨⟩
    exact hreqType
  · rintro _ ⟨⟩
    rfl
  · rintro _ ⟨⟩
    rfl

/-- Every node is taken for a block device: the bit of `S_IFCHR` is one of those of `S_IFBLK`. -/
theorem statDevType_of_isNode {stat : Metadata} (h : stat.IsNode) :
    statDevType stat.mode = BPF_DEVCG_DEV_BLOCK := by
  have hmask : stat.mode &&& S_IFBLK = (stat.mode &&& S_IFMT) &&& S_IFBLK := by
    rw [UInt32.and_assoc]
    rfl
  rw [statDevType, if_pos]
  rw [hmask]
  rcases h.1 with h | h
  · rw [h]
    decide
  · rw [h]
    decide

/-- Under `strict` and `closed`, the program allows what a default rule, a device class or a named
    node grants exactly if what the entries give to character nodes is given to them, and to the
    block devices with their numbers, in other ways too. -/
theorem deviceProgram_faithful_iff (hpolicy : policy ≠ .auto)
    (hnodes : ∀ entry ∈ deviceAllow, ∀ stat access, Names metadata entry stat access →
      stat.IsNode) :
    (∃ prog, deviceProgram metadata policy deviceAllow = some prog ∧
      ∀ ctx, deviceVerdict prog ctx = some 1 ↔ Granted metadata policy deviceAllow ctx) ↔
        CharNodesCovered metadata policy deviceAllow := by
  have hprog : deviceProgram metadata policy deviceAllow =
      some (buildBpfProgram (collectRules metadata policy deviceAllow) false) := by
    rw [deviceProgram, if_neg fun h => hpolicy h.1]
    simp only [hpolicy, decide_false]
  have hverdict (ctx : DevCtx) :
      deviceVerdict (buildBpfProgram (collectRules metadata policy deviceAllow) false) ctx =
        some 1 ↔ GrantedByClass policy deviceAllow ctx ∨
          GrantedByNode statDevType metadata deviceAllow ctx := by
    have hrules : (∃ rule ∈ collectRules metadata policy deviceAllow,
        rule.Matches ctx ∧ rule.InRange) ↔
          ∃ rule ∈ collectRules metadata policy deviceAllow, rule.Matches ctx :=
      exists_congr fun rule => and_congr_right fun hrule =>
        and_iff_left (inRange_of_mem_collectRules hnodes hrule)
    rw [deviceVerdict_buildBpfProgram, if_congr hrules rfl rfl, if_neg Bool.false_ne_true,
      ← exists_collectRules_iff]
    split_ifs with h
    · exact iff_of_true rfl h
    · exact iff_of_false (by decide) h
  have hblock : BPF_DEVCG_DEV_BLOCK.toNat < 2 ^ 16 := by decide
  have hchar : BPF_DEVCG_DEV_CHAR.toNat < 2 ^ 16 := by decide
  have hlt {entry : List Char} {stat : Metadata} {access : UInt32}
      (h : Names metadata entry stat access) : access.toNat < 2 ^ 3 := by
    obtain ⟨device, hparts, -⟩ := h
    exact access_lt hparts
  have hkind {stat : Metadata} (h : stat.mode &&& S_IFMT = S_IFCHR) :
      nodeDevType stat.mode = BPF_DEVCG_DEV_CHAR := by
    rw [nodeDevType, h]
    rfl
  constructor
  · rintro ⟨prog, hsome, hagree⟩ entry hentry stat access hnames hischar
    obtain rfl := Option.some.inj (hprog.symm.trans hsome)
    have hstat := hnodes entry hentry stat access hnames
    have hboth (ctx : DevCtx) : Granted metadata policy deviceAllow ctx ↔
        GrantedByClass policy deviceAllow ctx ∨
          GrantedByNode statDevType metadata deviceAllow ctx :=
      (hagree ctx).symm.trans (hverdict ctx)
    constructor
    · -- the entry grants its own request, which no block rule matches
      have hgranted :
          Granted metadata policy deviceAllow (stat.request BPF_DEVCG_DEV_CHAR access) :=
        .inr (grantedByNode_iff.mpr ⟨entry, hentry, stat, access, hnames,
          (hkind hischar).symm ▸ matches_request stat hchar (hlt hnames)⟩)
      rcases (hboth _).mp hgranted with hclass | hnode
      · exact hclass
      · obtain ⟨entry', hentry', stat', access', hnames', hmatch⟩ := grantedByNode_iff.mp hnode
        have htype := hmatch.1 _ rfl
        rw [(devType_access_request stat hchar (hlt hnames)).1,
          statDevType_of_isNode (hnodes entry' hentry' stat' access' hnames')] at htype
        exact absurd htype (by decide)
    · refine (hboth _).mpr (.inr (grantedByNode_iff.mpr ⟨entry, hentry, stat, access, hnames, ?_⟩))
      rw [statDevType_of_isNode hstat]
      exact matches_request stat hblock (hlt hnames)
  · intro hcovered
    refine ⟨_, hprog, fun ctx => (hverdict ctx).trans (or_congr_right' fun hclass => ?_)⟩
    rw [grantedByNode_iff]
    constructor
    · rintro ⟨entry, hentry, stat, access, hnames, hmatch⟩
      have hstat := hnodes entry hentry stat access hnames
      rw [statDevType_of_isNode hstat] at hmatch
      rcases hstat.1 with hisblock | hischar
      · refine grantedByNode_iff.mpr ⟨entry, hentry, stat, access, hnames, ?_⟩
        rwa [nodeDevType, if_pos hisblock]
      · have hgranted := (hcovered entry hentry stat access hnames hischar).2
        exact (hgranted.of_request hblock (hlt hnames) hmatch).resolve_left hclass
    · intro hnode
      obtain ⟨entry, hentry, stat, access, hnames, hmatch⟩ := grantedByNode_iff.mp hnode
      have hstat := hnodes entry hentry stat access hnames
      rcases hstat.1 with hisblock | hischar
      · refine ⟨entry, hentry, stat, access, hnames, ?_⟩
        rw [nodeDevType, if_pos hisblock] at hmatch
        rwa [statDevType_of_isNode hstat]
      · rw [hkind hischar] at hmatch
        have hgranted := (hcovered entry hentry stat access hnames hischar).1
        exact absurd (hgranted.of_request hchar (hlt hnames) hmatch) hclass

theorem isNode_oneDisk : ∀ entry ∈ ["/dev/sda rw".toList], ∀ stat access,
    Names oneDisk entry stat access → stat.IsNode := by
  rintro entry - stat access ⟨device, -, -, hstat⟩
  rw [oneDisk] at hstat
  split_ifs at hstat
  cases hstat
  exact ⟨.inl rfl, by decide, by decide⟩

/-- A block device is named. -/
theorem deviceProgram_faithful_oneDisk :
    (∃ prog, deviceProgram oneDisk .strict ["/dev/sda rw".toList] = some prog ∧
      ∀ ctx, deviceVerdict prog ctx = some 1 ↔ Granted oneDisk .strict ["/dev/sda rw".toList] ctx) ↔
        CharNodesCovered oneDisk .strict ["/dev/sda rw".toList] :=
  deviceProgram_faithful_iff (by decide) isNode_oneDisk

/-- The system has one node, `/dev/kvm`. -/
def oneChar (device : List Char) : Option Metadata :=
  if device = "/dev/kvm".toList then some ⟨S_IFCHR, 10, 232⟩ else none

/-- Under `strict`, `/dev/kvm rw` does not allow to read `/dev/kvm`. -/
theorem char_node_is_denied :
    Granted oneChar .strict ["/dev/kvm rw".toList] ⟨0x20002, 10, 232⟩ ∧
      ∃ prog, deviceProgram oneChar .strict ["/dev/kvm rw".toList] = some prog ∧
        deviceVerdict prog ⟨0x20002, 10, 232⟩ = some 0 := by
  constructor
  · refine .inr ⟨_, List.mem_cons_self, "/dev/kvm".toList, 6, rfl,
      ⟨some 2, some 10, some 232, 6⟩, rfl, ?_⟩
    decide
  · have hrules : collectRules oneChar .strict ["/dev/kvm rw".toList] =
        [⟨some 1, some 10, some 232, 6⟩] := rfl
    refine ⟨_, rfl, ?_⟩
    rw [hrules, deviceVerdict_buildBpfProgram, if_neg (by decide)]
    rfl

end OxidizedSystemd.Cgroups
