import OxidizedSystemd.Lib.Ebpf

/-!
# Emitting eBPF

Model of the instruction helpers of `platform/cgroups/bpf_devices.rs` (lines 53–140)
and of the way its programs are laid out: instructions are pushed on a vector, and
the jumps of a block, pushed with the displacement 0, are patched when its end is
known.

* `decode_*`: what each helper encodes.
* `patchSkips_emit`: the block that is left when its jumps are patched.
* `Returns.skip`: a patched jump goes to the end of its block.
-/

namespace OxidizedSystemd.Cgroups

open OxidizedSystemd.Lib
open OxidizedSystemd.Lib.Ebpf

/-! ## Instructions -/

abbrev R0 : UInt8 := 0
abbrev R1 : UInt8 := 1
abbrev R2 : UInt8 := 2
abbrev R3 : UInt8 := 3
abbrev R4 : UInt8 := 4
abbrev R5 : UInt8 := 5
abbrev R6 : UInt8 := 6
abbrev R7 : UInt8 := 7
abbrev R8 : UInt8 := 8
abbrev R9 : UInt8 := 9

/-- `insn` (lines 73–80). -/
def insn (code dst src : UInt8) (off : Int16) (imm : Int32) : Insn :=
  ⟨code, (src <<< 4) ||| dst, off, imm⟩

/-- `r[dst] = *(u32 *)(r[src] + off)` (lines 86–88). -/
def ldxMemW (dst src : UInt8) (off : Int16) : Insn := insn 0x61 dst src off 0

/-- `r[dst] = r[src]` (lines 91–93). -/
def mov64Reg (dst src : UInt8) : Insn := insn 0xbf dst src 0 0

/-- `r[dst] = imm` (lines 96–98). -/
def mov64Imm (dst : UInt8) (imm : Int32) : Insn := insn 0xb7 dst 0 0 imm

/-- `r[dst] &= imm` on 32 bits (lines 101–103). -/
def alu32AndImm (dst : UInt8) (imm : Int32) : Insn := insn 0x54 dst 0 0 imm

/-- `r[dst] >>= imm` (lines 106–108). -/
def alu64RshImm (dst : UInt8) (imm : Int32) : Insn := insn 0x77 dst 0 0 imm

/-- `if r[dst] != imm goto pc + 1 + off` (lines 111–113). -/
def jneImm (dst : UInt8) (imm : Int32) (off : Int16) : Insn := insn 0x55 dst 0 off imm

/-- `exit` (lines 116–118). -/
def exitInsn : Insn := insn 0x95 0 0 0 0

/-- `r[dst] = *(u8 *)(r[src] + off)` (lines 121–123). -/
def ldxMemB (dst src : UInt8) (off : Int16) : Insn := insn 0x71 dst src off 0

/-- `r[dst] += imm` (lines 126–128). -/
def alu64AddImm (dst : UInt8) (imm : Int32) : Insn := insn 0x07 dst 0 0 imm

/-- `if r[dst] > r[src] goto pc + 1 + off` (lines 131–133). -/
def jgtReg (dst src : UInt8) (off : Int16) : Insn := insn 0x2d dst src off 0

/-- `if (u32)r[dst] != imm goto pc + 1 + off` (lines 141–143). -/
def jne32Imm (dst : UInt8) (imm : Int32) (off : Int16) : Insn := insn 0x56 dst 0 off imm

section Decode

variable {dst src : UInt8}

/-- The two halves of `regs`. -/
theorem regs_halves (hdst : dst < 16) (hsrc : src < 16) :
    ((src <<< 4) ||| dst) &&& 0x0f = dst ∧ ((src <<< 4) ||| dst) >>> 4 = src := by
  have hall : ∀ a b : Fin 16, ((UInt8.ofNat b <<< 4) ||| UInt8.ofNat a) &&& 0x0f = UInt8.ofNat a ∧
      ((UInt8.ofNat b <<< 4) ||| UInt8.ofNat a) >>> 4 = UInt8.ofNat b := by
    decide
  have := hall ⟨dst.toNat, UInt8.lt_iff_toNat_lt.mp hdst⟩ ⟨src.toNat, UInt8.lt_iff_toNat_lt.mp hsrc⟩
  simpa using this

theorem insn_dst (hdst : dst < 16) (hsrc : src < 16) (code : UInt8) (off : Int16) (imm : Int32) :
    (insn code dst src off imm).dst = dst :=
  (regs_halves hdst hsrc).1

theorem insn_src (hdst : dst < 16) (hsrc : src < 16) (code : UInt8) (off : Int16) (imm : Int32) :
    (insn code dst src off imm).src = src :=
  (regs_halves hdst hsrc).2

theorem decode_ldxMemW (hdst : dst < 16) (hsrc : src < 16) (off : Int16) :
    decode (ldxMemW dst src off) = some (.load 4 dst src off.toInt) := by
  rw [ldxMemW, decode, insn_dst hdst hsrc, insn_src hdst hsrc]
  simp +decide [insn, loadSize]

theorem decode_ldxMemB (hdst : dst < 16) (hsrc : src < 16) (off : Int16) :
    decode (ldxMemB dst src off) = some (.load 1 dst src off.toInt) := by
  rw [ldxMemB, decode, insn_dst hdst hsrc, insn_src hdst hsrc]
  simp +decide [insn, loadSize]

theorem decode_mov64Reg (hdst : dst < 16) (hsrc : src < 16) :
    decode (mov64Reg dst src) = some (.alu true .mov dst (.reg src)) := by
  rw [mov64Reg, decode, insn_dst hdst hsrc, Insn.operand, insn_src hdst hsrc]
  simp +decide [insn, aluOp]

theorem decode_mov64Imm (hdst : dst < 16) (imm : Int32) :
    decode (mov64Imm dst imm) = some (.alu true .mov dst (.imm imm)) := by
  rw [mov64Imm, decode, insn_dst hdst (by decide)]
  simp +decide [insn, aluOp, Insn.operand]

theorem decode_alu32AndImm (hdst : dst < 16) (imm : Int32) :
    decode (alu32AndImm dst imm) = some (.alu false .and dst (.imm imm)) := by
  rw [alu32AndImm, decode, insn_dst hdst (by decide)]
  simp +decide [insn, aluOp, Insn.operand]

theorem decode_alu64RshImm (hdst : dst < 16) (imm : Int32) :
    decode (alu64RshImm dst imm) = some (.alu true .rsh dst (.imm imm)) := by
  rw [alu64RshImm, decode, insn_dst hdst (by decide)]
  simp +decide [insn, aluOp, Insn.operand]

theorem decode_alu64AddImm (hdst : dst < 16) (imm : Int32) :
    decode (alu64AddImm dst imm) = some (.alu true .add dst (.imm imm)) := by
  rw [alu64AddImm, decode, insn_dst hdst (by decide)]
  simp +decide [insn, aluOp, Insn.operand]

theorem decode_jneImm (hdst : dst < 16) (imm : Int32) (off : Int16) :
    decode (jneImm dst imm off) = some (.jump true .jne dst (.imm imm) off.toInt) := by
  rw [jneImm, decode, insn_dst hdst (by decide)]
  simp +decide [insn, jmpOp, Insn.operand]

theorem decode_jne32Imm (hdst : dst < 16) (imm : Int32) (off : Int16) :
    decode (jne32Imm dst imm off) = some (.jump false .jne dst (.imm imm) off.toInt) := by
  rw [jne32Imm, decode, insn_dst hdst (by decide)]
  simp +decide [insn, jmpOp, Insn.operand]

theorem decode_jgtReg (hdst : dst < 16) (hsrc : src < 16) (off : Int16) :
    decode (jgtReg dst src off) = some (.jump true .jgt dst (.reg src) off.toInt) := by
  rw [jgtReg, decode, insn_dst hdst hsrc, Insn.operand, insn_src hdst hsrc]
  simp +decide [insn, jmpOp]

theorem decode_exitInsn : decode exitInsn = some .exit := by
  rw [exitInsn, decode]
  simp +decide

end Decode

/-- `r0 = verdict; exit`. -/
theorem returns_verdict (m : Machine) (verdict : Int32) (rest : List Insn) (regs : Regs) :
    Returns m (mov64Imm R0 verdict :: exitInsn :: rest) regs (signExtend verdict) :=
  Returns.alu (decode_mov64Imm (by decide) verdict) rfl
    (Returns.exit decode_exitInsn (Regs.set_same regs R0 _))

/-! ## Patches -/

/-- `insns[idx].off = (target - idx - 1) as i16`. -/
def patch (target : ℕ) (insns : List Insn) (idx : ℕ) : List Insn :=
  insns.modify idx fun i => { i with off := Int16.ofNat (target - idx - 1) }

theorem patch_append (target : ℕ) (before : List Insn) (i : Insn) (rest : List Insn) :
    patch target (before ++ i :: rest) before.length =
      before ++ { i with off := Int16.ofNat (target - before.length - 1) } :: rest := by
  rw [patch, List.modify_eq_take_cons_drop (by simp), List.take_left]
  simp

/-- A position behind some instructions. -/
theorem patch_append_add (target : ℕ) (before : List Insn) (rest : List Insn) (k : ℕ) :
    patch (before.length + target) (before ++ rest) (before.length + k) =
      before ++ patch target rest k := by
  have hoff : before.length + target - (before.length + k) = target - k :=
    Nat.add_sub_add_left _ _ _
  rw [patch, patch, hoff]
  induction before with
  | nil => rw [List.length_nil, Nat.zero_add]; rfl
  | cons i before ih =>
    rw [List.length_cons, Nat.add_right_comm, List.cons_append, List.modify_succ_cons, ih]
    · rfl
    · exact Nat.add_sub_add_left _ _ _

/-- A loop that emits a block for each of its items. -/
theorem foldl_blocks {α : Type} {emit : List Insn → α → List Insn} {block : α → List Insn}
    (h : ∀ insns a, emit insns a = insns ++ block a) (items : List α) (insns : List Insn) :
    items.foldl emit insns = insns ++ items.flatMap block := by
  induction items generalizing insns with
  | nil => rw [List.foldl_nil, List.flatMap_nil, List.append_nil]
  | cons a items ih => rw [List.foldl_cons, ih, h, List.flatMap_cons, List.append_assoc]

/-- The instructions so far, and `skip_patches`. -/
structure Emitter where
  insns : List Insn
  skips : List ℕ

def Emitter.push (b : Emitter) (i : Insn) : Emitter := { b with insns := b.insns ++ [i] }

def Emitter.pushSkip (b : Emitter) (i : Insn) : Emitter :=
  ⟨b.insns ++ [i], b.skips ++ [b.insns.length]⟩

/-- All skips of a block land behind it. -/
def Emitter.patchSkips (b : Emitter) : List Insn :=
  b.skips.foldl (patch b.insns.length) b.insns

/-- The instructions of a block, some of which are marked to be patched. -/
def Emitter.emit (b : Emitter) (code : List (Insn × Bool)) : Emitter :=
  code.foldl (fun b p => if p.2 then b.pushSkip p.1 else b.push p.1) b

/-- A block with its jumps patched. -/
def resolve : List (Insn × Bool) → List Insn
  | [] => []
  | (i, skip) :: code =>
    (if skip then { i with off := Int16.ofNat code.length } else i) :: resolve code

@[simp] theorem length_resolve (code : List (Insn × Bool)) :
    (resolve code).length = code.length := by
  induction code with
  | nil => rfl
  | cons p code ih => rw [resolve, List.length_cons, ih, List.length_cons]

/-- The positions of the marked instructions of a block that begins at `start`. -/
def skipsOf : ℕ → List (Insn × Bool) → List ℕ
  | _, [] => []
  | start, (_, skip) :: code => (if skip then [start] else []) ++ skipsOf (start + 1) code

theorem emit_eq (insns : List Insn) (skips : List ℕ) (code : List (Insn × Bool)) :
    (⟨insns, skips⟩ : Emitter).emit code =
      ⟨insns ++ code.map Prod.fst, skips ++ skipsOf insns.length code⟩ := by
  induction code generalizing insns skips with
  | nil => simp [Emitter.emit, skipsOf]
  | cons p code ih =>
    obtain ⟨i, skip⟩ := p
    cases skip with
    | true =>
      have := ih (insns ++ [i]) (skips ++ [insns.length])
      simpa [Emitter.emit, Emitter.pushSkip, skipsOf] using this
    | false =>
      have := ih (insns ++ [i]) skips
      simpa [Emitter.emit, Emitter.push, skipsOf] using this

theorem foldl_patch (insns : List Insn) (code : List (Insn × Bool)) :
    (skipsOf insns.length code).foldl (patch (insns.length + code.length))
      (insns ++ code.map Prod.fst) = insns ++ resolve code := by
  induction code generalizing insns with
  | nil => rfl
  | cons p code ih =>
    obtain ⟨i, skip⟩ := p
    have hih : ∀ i', (skipsOf (insns.length + 1) code).foldl
        (patch (insns.length + (code.length + 1))) (insns ++ i' :: code.map Prod.fst) =
        insns ++ i' :: resolve code := by
      intro i'
      have := ih (insns ++ [i'])
      rw [List.length_append, List.length_singleton, List.append_assoc, List.append_assoc] at this
      rwa [Nat.add_comm code.length 1, ← Nat.add_assoc]
    cases skip with
    | true =>
      have hoff : insns.length + (code.length + 1) - insns.length - 1 = code.length := by omega
      rw [skipsOf, if_pos rfl, List.singleton_append, List.foldl_cons, List.map_cons,
        List.length_cons, patch_append, hoff]
      exact hih _
    | false => exact hih i

/-- The block that is left when its jumps are patched. -/
theorem patchSkips_emit (insns : List Insn) (code : List (Insn × Bool)) :
    ((⟨insns, []⟩ : Emitter).emit code).patchSkips = insns ++ resolve code := by
  rw [emit_eq, Emitter.patchSkips]
  have := foldl_patch insns code
  simpa using this

/-- A patched jump lands behind its block. -/
theorem Returns.skip {m : Machine} {i : Insn} {code : List (Insn × Bool)} {rest : List Insn}
    {regs : Regs} {v : UInt64} {wide : Bool} {op : JmpOp} {dst : UInt8} {y : Operand} {taken : Bool}
    (hlen : code.length < 2 ^ 15)
    (hd : ∀ off, decode { i with off := off } = some (.jump wide op dst y off.toInt))
    (ht : test wide op (regs dst) (y.value regs) = some taken)
    (h : Returns m (if taken then rest else resolve code ++ rest) regs v) :
    Returns m (resolve ((i, true) :: code) ++ rest) regs v := by
  refine Returns.branch (n := code.length) ?_ ht ?_
  · rw [if_pos rfl, hd, Int16.toInt_ofNat_of_lt hlen]
  · show Returns m (if taken then (resolve code ++ rest).drop code.length else _) regs v
    rwa [List.drop_left' (length_resolve code)]

end OxidizedSystemd.Cgroups
