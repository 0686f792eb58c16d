import OxidizedSystemd.Cgroups.Emit

/-!
# The device program

Model of `build_bpf_program` (`platform/cgroups/bpf_devices.rs`, lines 147–152 and
314–373), which compiles a list of device rules to an eBPF program: a block for
each rule, that allows what the rule covers and else falls through to the next
block, and the default at the end.

* `DeviceRule.Matches`: what a rule allows.
* `returns_ruleCode`: the block of a rule.
* `buildBpfProgram_correct`: the program allows what some rule matches, and
  otherwise returns the default.
-/

namespace OxidizedSystemd.Cgroups

open OxidizedSystemd.Lib
open OxidizedSystemd.Lib.Ebpf

def BPF_DEVCG_DEV_CHAR : UInt32 := 2
def BPF_DEVCG_ACC_MKNOD : UInt32 := 1
def BPF_DEVCG_ACC_READ : UInt32 := 2
def BPF_DEVCG_ACC_WRITE : UInt32 := 4
def BPF_DEVCG_ACC_ALL : UInt32 := BPF_DEVCG_ACC_MKNOD ||| BPF_DEVCG_ACC_READ ||| BPF_DEVCG_ACC_WRITE

/-- `struct DeviceRule` (lines 144–149); `none` stands for any. -/
structure DeviceRule where
  devType : Option UInt32
  major : Option UInt32
  minor : Option UInt32
  access : UInt32
  deriving DecidableEq

/-- The block of a rule (lines 317–364), behind the instructions so far. -/
def emitRule (insns : List Insn) (rule : DeviceRule) : List Insn :=
  let b : Emitter := ⟨insns, []⟩
  let b := b.push (ldxMemW R2 R1 0)
  let b := b.push (mov64Reg R3 R2)
  let b := b.push (alu32AndImm R2 0xFFFF)
  let b :=
    match rule.devType with
    | some devType => b.pushSkip (jneImm R2 devType.toInt32 0)
    | none => b
  let b :=
    match rule.major with
    | some major => (b.push (ldxMemW R2 R1 4)).pushSkip (jneImm R2 major.toInt32 0)
    | none => b
  let b :=
    match rule.minor with
    | some minor => (b.push (ldxMemW R2 R1 8)).pushSkip (jneImm R2 minor.toInt32 0)
    | none => b
  let disallowed := ~~~rule.access &&& BPF_DEVCG_ACC_ALL
  let b :=
    if disallowed ≠ 0 then
      ((b.push (alu64RshImm R3 16)).push (alu32AndImm R3 disallowed.toInt32)).pushSkip
        (jneImm R3 0 0)
    else b
  let b := b.push (mov64Imm R0 1)
  let b := b.push exitInsn
  b.patchSkips

/-- `build_bpf_program` (lines 314–373). -/
def buildBpfProgram (rules : List DeviceRule) (defaultAllow : Bool) : List Insn :=
  rules.foldl emitRule [] ++ [mov64Imm R0 (if defaultAllow then 1 else 0), exitInsn]

/-! ## What the kernel asks -/

/-- `struct bpf_cgroup_dev_ctx`: the lower half of the first field is the type of the device, the
    upper half the access. -/
structure DevCtx where
  accessType : UInt32
  major : UInt32
  minor : UInt32
  deriving DecidableEq

def DevCtx.devType (ctx : DevCtx) : UInt32 := ctx.accessType &&& 0xFFFF

def DevCtx.access (ctx : DevCtx) : UInt32 := ctx.accessType >>> 16

/-- The fields at their offsets. -/
def DevCtx.machine (ctx : DevCtx) : Machine where
  context off :=
    if off = 0 then some (.scalar ctx.accessType.toUInt64)
    else if off = 4 then some (.scalar ctx.major.toUInt64)
    else if off = 8 then some (.scalar ctx.minor.toUInt64)
    else none
  packet := []

/-- What a program answers. -/
def deviceVerdict (prog : List Insn) (ctx : DevCtx) : Option UInt64 :=
  run ctx.machine prog prog.length 0 Regs.initial

/-- The kinds of access. -/
def accessBits : List UInt32 := [BPF_DEVCG_ACC_MKNOD, BPF_DEVCG_ACC_READ, BPF_DEVCG_ACC_WRITE]

/-- A rule covers the device, and every access that is asked for. -/
def DeviceRule.Matches (rule : DeviceRule) (ctx : DevCtx) : Prop :=
  (∀ devType ∈ rule.devType, ctx.devType = devType) ∧
    (∀ major ∈ rule.major, ctx.major = major) ∧
    (∀ minor ∈ rule.minor, ctx.minor = minor) ∧
    ∀ bit ∈ accessBits, ctx.access &&& bit ≠ 0 → rule.access &&& bit ≠ 0

-- The instances go through the options and the list, not through all the `u32`s.
instance (rule : DeviceRule) (ctx : DevCtx) : Decidable (rule.Matches ctx) :=
  @instDecidableAnd _ _ rule.devType.decidableForallMem <|
    @instDecidableAnd _ _ rule.major.decidableForallMem <|
      @instDecidableAnd _ _ rule.minor.decidableForallMem (List.decidableBAll _ accessBits)

/-- Device numbers that are their own sign extension. -/
def DeviceRule.InRange (rule : DeviceRule) : Prop :=
  (∀ major ∈ rule.major, major < 0x80000000) ∧ ∀ minor ∈ rule.minor, minor < 0x80000000

instance (rule : DeviceRule) : Decidable rule.InRange :=
  @instDecidableAnd _ _ rule.major.decidableForallMem rule.minor.decidableForallMem

/-! ## The block of a rule -/

/-- The comparison of a register with a field of the rule, if it has one. -/
def checkField (load : List (Insn × Bool)) : Option UInt32 → List (Insn × Bool)
  | some value => load ++ [(jneImm R2 value.toInt32 0, true)]
  | none => []

def checkAccess (disallowed : UInt32) : List (Insn × Bool) :=
  if disallowed ≠ 0 then
    [(alu64RshImm R3 16, false), (alu32AndImm R3 disallowed.toInt32, false), (jneImm R3 0 0, true)]
  else []

/-- The block of a rule, with its marks. -/
def ruleCode (rule : DeviceRule) : List (Insn × Bool) :=
  [(ldxMemW R2 R1 0, false), (mov64Reg R3 R2, false), (alu32AndImm R2 0xFFFF, false)] ++
    (checkField [] rule.devType ++
      (checkField [(ldxMemW R2 R1 4, false)] rule.major ++
        (checkField [(ldxMemW R2 R1 8, false)] rule.minor ++
          (checkAccess (~~~rule.access &&& BPF_DEVCG_ACC_ALL) ++
            [(mov64Imm R0 1, false), (exitInsn, false)]))))

theorem emitRule_eq (insns : List Insn) (rule : DeviceRule) :
    emitRule insns rule = insns ++ resolve (ruleCode rule) := by
  rw [← patchSkips_emit]
  obtain ⟨devType, major, minor, access⟩ := rule
  unfold emitRule ruleCode checkAccess
  dsimp only
  by_cases hdis : ~~~access &&& BPF_DEVCG_ACC_ALL ≠ 0
  · rw [if_pos hdis, if_pos hdis]
    cases devType <;> cases major <;> cases minor <;> rfl
  · rw [if_neg hdis, if_neg hdis]
    cases devType <;> cases major <;> cases minor <;> rfl

/-! ## Accesses as bits -/

/-- A bit that is asked for and not allowed. -/
theorem and_not_and_twoPow (x a : BitVec 32) (i : ℕ) (hi : i < 32) :
    x &&& (~~~a &&& BitVec.twoPow 32 i) = 0#32 ↔
      (x &&& BitVec.twoPow 32 i ≠ 0#32 → a &&& BitVec.twoPow 32 i ≠ 0#32) := by
  have hne : BitVec.twoPow 32 i ≠ 0#32 := by
    intro h
    have := congrArg (BitVec.getLsbD · i) h
    simp [hi] at this
  rw [← BitVec.and_assoc, BitVec.and_twoPow, BitVec.and_twoPow, BitVec.and_twoPow,
    BitVec.getLsbD_and, BitVec.getLsbD_not, decide_eq_true hi]
  cases x.getLsbD i <;> cases a.getLsbD i <;> simp [hne]

/-- Nothing is asked for that the rule does not allow. -/
theorem disallowed_eq_zero (access allowed : UInt32) :
    access &&& (~~~allowed &&& BPF_DEVCG_ACC_ALL) = 0 ↔
      ∀ bit ∈ accessBits, access &&& bit ≠ 0 → allowed &&& bit ≠ 0 := by
  have hbit : ∀ (bit : UInt32) (i : ℕ), i < 32 → bit.toBitVec = BitVec.twoPow 32 i →
      (access &&& (~~~allowed &&& bit) = 0 ↔ (access &&& bit ≠ 0 → allowed &&& bit ≠ 0)) := by
    intro bit i hi hb
    have := and_not_and_twoPow access.toBitVec allowed.toBitVec i hi
    rw [← hb] at this
    rw [Ne, Ne, ← UInt32.toBitVec_inj, ← UInt32.toBitVec_inj, ← UInt32.toBitVec_inj]
    exact this
  have hor : access &&& (~~~allowed &&& BPF_DEVCG_ACC_ALL) =
      (access &&& (~~~allowed &&& BPF_DEVCG_ACC_MKNOD)) |||
      (access &&& (~~~allowed &&& BPF_DEVCG_ACC_READ)) |||
      (access &&& (~~~allowed &&& BPF_DEVCG_ACC_WRITE)) := by
    have hdistrib : ∀ x y z : UInt32, x &&& (y ||| z) = x &&& y ||| x &&& z := fun x y z =>
      UInt32.toBitVec_inj.mp BitVec.and_or_distrib_left
    simp only [BPF_DEVCG_ACC_ALL, hdistrib]
  rw [hor, UInt32.or_eq_zero_iff, UInt32.or_eq_zero_iff, hbit BPF_DEVCG_ACC_MKNOD 0 (by decide) rfl,
    hbit BPF_DEVCG_ACC_READ 1 (by decide) rfl, hbit BPF_DEVCG_ACC_WRITE 2 (by decide) rfl,
    and_assoc]
  simp [accessBits]
/-- The upper half of the first field, on 64 and on 32 bits. -/
theorem toUInt32_shiftRight (x : UInt32) : (x.toUInt64 >>> 16).toUInt32 = x >>> 16 := by
  apply UInt32.toNat_inj.mp
  have := x.toNat_lt
  simp [UInt64.toNat_shiftRight, UInt32.toNat_shiftRight, Nat.shiftRight_eq_div_pow]
  omega

/-! ## Running a block -/

section Block

variable {ctx : DevCtx} {code : List (Insn × Bool)} {rest : List Insn} {v : UInt64}

/-- What stands behind the block is run with the context in place. -/
def RestReturns (ctx : DevCtx) (rest : List Insn) (v : UInt64) : Prop :=
  ∀ regs : Regs, regs R1 = .ctx → Returns ctx.machine rest regs v

/-- A part of a block is run with the context and the access in place. -/
def CodeReturns (ctx : DevCtx) (code : List (Insn × Bool)) (rest : List Insn) (v : UInt64) : Prop :=
  ∀ regs : Regs, regs R1 = .ctx → regs R3 = .scalar ctx.accessType.toUInt64 →
    Returns ctx.machine (resolve code ++ rest) regs v

/-- A comparison of `r2` goes on in the block or leaves it. -/
theorem returns_compare {x value : UInt32} {regs : Regs} (hlen : code.length < 2 ^ 15)
    (hctx : regs R1 = .ctx) (haccess : regs R3 = .scalar ctx.accessType.toUInt64)
    (hx : regs R2 = .scalar x.toUInt64)
    (heq : x = value ∧ value < 0x80000000 → CodeReturns ctx code rest v)
    (hne : ¬ (x = value ∧ value < 0x80000000) → RestReturns ctx rest v) :
    Returns ctx.machine (resolve ((jneImm R2 value.toInt32 0, true) :: code) ++ rest) regs v := by
  have ht : test true .jne (regs R2) (Operand.value regs (.imm value.toInt32)) =
      some (decide (¬ (x = value ∧ value < 0x80000000))) := by
    rw [hx]
    show some (decide (x.toUInt64 ≠ signExtend value.toInt32)) = _
    simp only [ne_eq, toUInt64_eq_signExtend]
  refine Returns.skip hlen (fun off => decode_jneImm (by decide) _ off) ht ?_
  by_cases h : x = value ∧ value < 0x80000000
  · rw [decide_eq_false (not_not.mpr h)]
    exact heq h regs hctx haccess
  · rw [decide_eq_true h]
    exact hne h regs hctx

/-- The type of the device is in `r2` when it is compared. -/
theorem returns_checkType {field : Option UInt32} {regs : Regs} (hlen : code.length < 2 ^ 15)
    (hctx : regs R1 = .ctx) (haccess : regs R3 = .scalar ctx.accessType.toUInt64)
    (htype : regs R2 = .scalar ctx.devType.toUInt64)
    (heq : (∀ value ∈ field, ctx.devType = value) → CodeReturns ctx code rest v)
    (hne : (¬ ∀ value ∈ field, ctx.devType = value) → RestReturns ctx rest v) :
    Returns ctx.machine (resolve (checkField [] field ++ code) ++ rest) regs v := by
  have hsmall : ctx.devType < 0x80000000 := by
    rw [UInt32.lt_iff_toNat_lt]
    exact Nat.lt_of_le_of_lt Nat.and_le_right (by decide)
  cases field with
  | none => exact heq (fun value h => absurd h (Option.not_mem_none value)) regs hctx haccess
  | some value =>
    simp only [Option.mem_some_iff, forall_eq'] at heq hne
    refine returns_compare hlen hctx haccess htype (fun h => heq h.1) fun h => hne fun h' => ?_
    exact h ⟨h', h' ▸ hsmall⟩

/-- A number of the device is loaded to be compared. -/
theorem returns_checkNumber {field : Option UInt32} {off : Int16} {x : UInt32}
    (hlen : code.length < 2 ^ 15)
    (hx : ctx.machine.context off.toInt = some (.scalar x.toUInt64))
    (heq : (∀ value ∈ field, x = value ∧ value < 0x80000000) → CodeReturns ctx code rest v)
    (hne : (¬ ∀ value ∈ field, x = value ∧ value < 0x80000000) → RestReturns ctx rest v) :
    CodeReturns ctx (checkField [(ldxMemW R2 R1 off, false)] field ++ code) rest v := by
  intro regs hctx haccess
  cases field with
  | none => exact heq (fun value h => absurd h (Option.not_mem_none value)) regs hctx haccess
  | some value =>
    simp only [Option.mem_some_iff, forall_eq'] at heq hne
    refine Returns.load (decode_ldxMemW (by decide) (by decide) off) ?_
      (returns_compare hlen hctx haccess (Regs.set_same _ _ _) heq hne)
    rw [hctx]
    exact hx

/-- The end of a block: the access is checked, and allowed. -/
theorem returns_checkAccess {allowed : UInt32}
    (heq : (∀ bit ∈ accessBits, ctx.access &&& bit ≠ 0 → allowed &&& bit ≠ 0) → v = 1)
    (hne : (¬ ∀ bit ∈ accessBits, ctx.access &&& bit ≠ 0 → allowed &&& bit ≠ 0) →
      RestReturns ctx rest v) :
    CodeReturns ctx (checkAccess (~~~allowed &&& BPF_DEVCG_ACC_ALL) ++
      [(mov64Imm R0 1, false), (exitInsn, false)]) rest v := by
  intro regs hctx haccess
  rw [← disallowed_eq_zero] at heq hne
  generalize ~~~allowed &&& BPF_DEVCG_ACC_ALL = disallowed at heq hne ⊢
  by_cases hzero : disallowed = 0
  · rw [checkAccess, if_neg (not_not.mpr hzero), heq (by rw [hzero, UInt32.and_zero])]
    exact returns_verdict ctx.machine 1 rest regs
  · rw [checkAccess, if_pos hzero]
    have hshift : alu true .rsh (regs R3) (Operand.value regs (.imm 16)) =
        some (.scalar (ctx.accessType.toUInt64 >>> 16)) := by
      rw [haccess]
      rfl
    refine Returns.alu (decode_alu64RshImm (by decide) 16) hshift ?_
    have hmask : alu false .and ((regs.set R3 (.scalar (ctx.accessType.toUInt64 >>> 16))) R3)
        (Operand.value (regs.set R3 (.scalar (ctx.accessType.toUInt64 >>> 16)))
          (.imm disallowed.toInt32)) = some (.scalar (ctx.access &&& disallowed).toUInt64) := by
      rw [Regs.set_same]
      show some (Value.scalar ((ctx.accessType.toUInt64 >>> 16).toUInt32 &&&
        (signExtend disallowed.toInt32).toUInt32).toUInt64) = _
      rw [toUInt32_shiftRight, toUInt32_signExtend]
      rfl
    refine Returns.alu (decode_alu32AndImm (by decide) _) hmask ?_
    have htest : ∀ regs : Regs, regs R3 = .scalar (ctx.access &&& disallowed).toUInt64 →
        test true .jne (regs R3) (Operand.value regs (.imm 0)) =
          some (decide (ctx.access &&& disallowed ≠ 0)) := by
      intro regs h
      rw [h]
      show some (decide ((ctx.access &&& disallowed).toUInt64 ≠
        signExtend (UInt32.toInt32 0))) = _
      have hzero : (0 : UInt32) < 0x80000000 := by decide
      simp only [ne_eq, toUInt64_eq_signExtend, hzero, and_true]
    refine Returns.skip (by decide) (fun off => decode_jneImm (by decide) 0 off)
      (htest _ (Regs.set_same _ _ _)) ?_
    by_cases h : ctx.access &&& disallowed = 0
    · rw [decide_eq_false (not_not.mpr h), heq h]
      exact returns_verdict ctx.machine 1 rest _
    · rw [decide_eq_true h]
      exact hne h _ hctx

end Block

theorem length_checkField (load : List (Insn × Bool)) (field : Option UInt32) :
    (checkField load field).length ≤ load.length + 1 := by
  cases field with
  | none => exact Nat.zero_le _
  | some value => rw [checkField, List.length_append]; rfl

theorem length_checkAccess (disallowed : UInt32) : (checkAccess disallowed).length ≤ 3 := by
  unfold checkAccess
  split
  · exact Nat.le_refl 3
  · exact Nat.zero_le 3

/-- The block of a rule allows what the rule matches, and is left otherwise. A number that is not in
    range is not equal to any number of a device. -/
theorem returns_ruleCode {rule : DeviceRule} {ctx : DevCtx} {rest : List Insn} {v : UInt64}
    (hmatch : rule.Matches ctx ∧ rule.InRange → v = 1)
    (hrest : ¬ (rule.Matches ctx ∧ rule.InRange) → RestReturns ctx rest v) :
    RestReturns ctx (resolve (ruleCode rule) ++ rest) v := by
  intro regs hctx
  have hload : ctx.machine.load 4 (regs R1) (Int16.toInt 0) =
      some (.scalar ctx.accessType.toUInt64) := by
    rw [hctx]
    rfl
  refine Returns.load (decode_ldxMemW (by decide) (by decide) 0) hload ?_
  refine Returns.alu (decode_mov64Reg (by decide) (by decide)) rfl ?_
  have hmask : ∀ regs : Regs, regs R2 = .scalar ctx.accessType.toUInt64 →
      alu false .and (regs R2) (Operand.value regs (.imm 0xFFFF)) =
        some (.scalar ctx.devType.toUInt64) := by
    intro regs h
    rw [h]
    show some (Value.scalar (ctx.accessType.toUInt64.toUInt32 &&& _).toUInt64) = _
    rw [UInt32.toUInt32_toUInt64]
    rfl
  refine Returns.alu (decode_alu32AndImm (by decide) _) (hmask _ rfl) ?_
  have hnumbers := length_checkField [(ldxMemW R2 R1 4, false)] rule.major
  have hnumbers' := length_checkField [(ldxMemW R2 R1 8, false)] rule.minor
  have haccess := length_checkAccess (~~~rule.access &&& BPF_DEVCG_ACC_ALL)
  refine returns_checkType ?_ hctx rfl rfl (fun h1 => ?_) (fun h1 => hrest fun h => h1 h.1.1)
  · simp only [List.length_append, List.length_cons, List.length_nil] at *
    omega
  refine returns_checkNumber (x := ctx.major) ?_ rfl (fun h2 => ?_)
    fun h2 => hrest fun h => h2 fun value hv => ⟨h.1.2.1 value hv, h.2.1 value hv⟩
  · simp only [List.length_append, List.length_cons, List.length_nil] at *
    omega
  refine returns_checkNumber (x := ctx.minor) ?_ rfl (fun h3 => ?_)
    fun h3 => hrest fun h => h3 fun value hv => ⟨h.1.2.2.1 value hv, h.2.2 value hv⟩
  · simp only [List.length_append, List.length_cons, List.length_nil] at *
    omega
  refine returns_checkAccess (fun h4 => hmatch ?_) fun h4 => hrest fun h => h4 h.1.2.2.2
  exact ⟨⟨h1, fun value hv => (h2 value hv).1, fun value hv => (h3 value hv).1, h4⟩,
    fun value hv => (h2 value hv).2, fun value hv => (h3 value hv).2⟩

/-! ## The program -/

/-- The blocks of the rules, and the default behind them. -/
theorem returns_rules (rules : List DeviceRule) (ctx : DevCtx) (default : Int32) :
    RestReturns ctx ((rules.flatMap fun rule => resolve (ruleCode rule)) ++
        [mov64Imm R0 default, exitInsn])
      (if ∃ r ∈ rules, r.Matches ctx ∧ r.InRange then 1 else signExtend default) := by
  induction rules with
  | nil =>
    intro regs _
    rw [if_neg (by simp)]
    exact returns_verdict ctx.machine default [] regs
  | cons rule rules ih =>
    rw [List.flatMap_cons, List.append_assoc]
    refine returns_ruleCode (fun h => ?_) fun h => ?_
    · exact if_pos ⟨rule, List.mem_cons_self, h⟩
    · simp only [List.mem_cons, exists_eq_or_imp, h, false_or]
      exact ih

/-- The program allows what some rule matches whose numbers are in range, and otherwise returns the
    default. -/
theorem deviceVerdict_buildBpfProgram (rules : List DeviceRule) (defaultAllow : Bool)
    (ctx : DevCtx) :
    deviceVerdict (buildBpfProgram rules defaultAllow) ctx =
      some (if ∃ r ∈ rules, r.Matches ctx ∧ r.InRange then 1
        else if defaultAllow then 1 else 0) := by
  rw [deviceVerdict, buildBpfProgram, foldl_blocks emitRule_eq, List.nil_append,
    (returns_rules rules ctx _ Regs.initial rfl).run]
  cases defaultAllow <;> rfl

/-- The program allows what some rule matches, and otherwise returns the default. -/
theorem buildBpfProgram_correct {rules : List DeviceRule} (hrange : ∀ r ∈ rules, r.InRange)
    (defaultAllow : Bool) (ctx : DevCtx) :
    deviceVerdict (buildBpfProgram rules defaultAllow) ctx =
      some (if ∃ r ∈ rules, r.Matches ctx then 1 else if defaultAllow then 1 else 0) := by
  have hrules : (∃ r ∈ rules, r.Matches ctx ∧ r.InRange) ↔ ∃ r ∈ rules, r.Matches ctx :=
    exists_congr fun r => and_congr_right fun hr => and_iff_left (hrange r hr)
  rw [deviceVerdict_buildBpfProgram, if_congr hrules rfl rfl]

/-- A pseudo-device of the `closed` policy. -/
def closedRule (major : UInt32) (minor : Option UInt32) : DeviceRule :=
  ⟨some BPF_DEVCG_DEV_CHAR, some major, minor, BPF_DEVCG_ACC_ALL⟩

/-- `default_closed_rules` (lines 153–219). -/
def defaultClosedRules : List DeviceRule :=
  [closedRule 1 (some 3), closedRule 1 (some 5), closedRule 1 (some 7), closedRule 1 (some 8),
    closedRule 1 (some 9), closedRule 5 (some 0), closedRule 5 (some 1), closedRule 5 (some 2),
    closedRule 136 none]

/-- A terminal, 136:7, can be read and written under the `closed` policy. -/
theorem buildBpfProgram_correct_closed :
    deviceVerdict (buildBpfProgram defaultClosedRules false) ⟨0x60002, 136, 7⟩ = some 1 :=
  (buildBpfProgram_correct (by decide) false _).trans (by decide)

end OxidizedSystemd.Cgroups
