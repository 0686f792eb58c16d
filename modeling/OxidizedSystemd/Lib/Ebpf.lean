import OxidizedSystemd.Lib.LittleEndian

/-!
# eBPF

The part of the eBPF instruction set that a filter over a context and a packet
needs: loads, additions, masks, shifts and moves, conditional jumps and the exit,
in the encoding of the kernel.

A register holds a number or a pointer, as in the kernel's verifier: the context
cannot be read but through its fields, and a pointer into the packet is the offset
from its first byte. A load outside of the packet does not succeed.

* `run`: a number of instructions of a program, `none` if that many are not enough.
* `Returns`: what the code at some place of a program returns, by its first
  instruction (`Returns.load`, `Returns.alu`, `Returns.branch`, `Returns.goto`,
  `Returns.exit`).
-/

namespace OxidizedSystemd.Lib.Ebpf

/-! ## Encoding -/

/-- An instruction: the destination register is the lower half of `regs`. -/
structure Insn where
  code : UInt8
  regs : UInt8
  off : Int16
  imm : Int32
  deriving DecidableEq

inductive AluOp
  | add | and | rsh | mov
  deriving DecidableEq

inductive JmpOp
  | jeq | jgt | jne
  deriving DecidableEq

inductive Operand
  | reg (r : UInt8)
  | imm (k : Int32)
  deriving DecidableEq

/-- A decoded instruction; `wide` ones work on 64 bits, the other ones on 32. -/
inductive Instr
  | load (size : ℕ) (dst src : UInt8) (off : ℤ)
  | alu (wide : Bool) (op : AluOp) (dst : UInt8) (y : Operand)
  | jump (wide : Bool) (op : JmpOp) (dst : UInt8) (y : Operand) (off : ℤ)
  | goto (off : ℤ)
  | exit
  deriving DecidableEq

def Insn.dst (i : Insn) : UInt8 := i.regs &&& 0x0f

def Insn.src (i : Insn) : UInt8 := i.regs >>> 4

/-- The second operand: `BPF_K` or `BPF_X`. -/
def Insn.operand (i : Insn) : Operand :=
  if i.code &&& 0x08 = 0 then .imm i.imm else .reg i.src

/-- `BPF_W`, `BPF_H`, `BPF_B` and `BPF_DW`. -/
def loadSize (code : UInt8) : ℕ :=
  if code &&& 0x18 = 0x00 then 4
  else if code &&& 0x18 = 0x08 then 2
  else if code &&& 0x18 = 0x10 then 1
  else 8

def aluOp (code : UInt8) : Option AluOp :=
  if code &&& 0xf0 = 0x00 then some .add
  else if code &&& 0xf0 = 0x50 then some .and
  else if code &&& 0xf0 = 0x70 then some .rsh
  else if code &&& 0xf0 = 0xb0 then some .mov
  else none

def jmpOp (code : UInt8) : Option JmpOp :=
  if code &&& 0xf0 = 0x10 then some .jeq
  else if code &&& 0xf0 = 0x20 then some .jgt
  else if code &&& 0xf0 = 0x50 then some .jne
  else none

/-- The classes `BPF_LDX`, `BPF_ALU`, `BPF_JMP`, `BPF_JMP32` and `BPF_ALU64`. -/
def decode (i : Insn) : Option Instr :=
  if i.code &&& 0x07 = 0x01 then
    if i.code &&& 0xe0 = 0x60 then some (.load (loadSize i.code) i.dst i.src i.off.toInt) else none
  else if i.code &&& 0x07 = 0x04 then
    (aluOp i.code).map fun op => .alu false op i.dst i.operand
  else if i.code &&& 0x07 = 0x05 then
    if i.code &&& 0xf0 = 0x00 then some (.goto i.off.toInt)
    else if i.code &&& 0xf0 = 0x90 then some .exit
    else (jmpOp i.code).map fun op => .jump true op i.dst i.operand i.off.toInt
  else if i.code &&& 0x07 = 0x06 then
    (jmpOp i.code).map fun op => .jump false op i.dst i.operand i.off.toInt
  else if i.code &&& 0x07 = 0x07 then
    (aluOp i.code).map fun op => .alu true op i.dst i.operand
  else none

/-! ## Meaning -/

/-- What a register holds. -/
inductive Value
  | uninit
  | scalar (x : UInt64)
  | ctx
  | packet (off : ℤ)
  deriving DecidableEq

abbrev Regs := UInt8 → Value

def Regs.set (regs : Regs) (r : UInt8) (v : Value) : Regs := fun r' => if r' = r then v else regs r'

@[simp] theorem Regs.set_same (regs : Regs) (r : UInt8) (v : Value) : (regs.set r v) r = v :=
  if_pos rfl

theorem Regs.set_ne (regs : Regs) {r r' : UInt8} (v : Value) (h : r' ≠ r) :
    (regs.set r v) r' = regs r' :=
  if_neg h

/-- The registers at the start: `r1` is the context. -/
def Regs.initial : Regs := fun r => if r = 1 then .ctx else .uninit

/-- What a program can read: the 4-byte fields of its context, and the packet. -/
structure Machine where
  context : ℤ → Option Value
  packet : Bytes

/-- An immediate as a 64-bit number. -/
def signExtend (k : Int32) : UInt64 := k.toInt64.toUInt64

def Operand.value (regs : Regs) : Operand → Value
  | .reg r => regs r
  | .imm k => .scalar (signExtend k)

/-- The bytes of the packet from `start` on, if it has `size` of them. -/
def Machine.readPacket (m : Machine) (size : ℕ) (start : ℤ) : Option Value :=
  if 0 ≤ start ∧ start + size ≤ m.packet.length then
    some (.scalar (UInt64.ofNat (ofLe ((m.packet.drop start.toNat).take size))))
  else none

def Machine.load (m : Machine) (size : ℕ) : Value → ℤ → Option Value
  | .ctx, off => if size = 4 then m.context off else none
  | .packet start, off => m.readPacket size (start + off)
  | _, _ => none

def AluOp.eval64 : AluOp → UInt64 → UInt64 → UInt64
  | .add, a, b => a + b
  | .and, a, b => a &&& b
  | .rsh, a, b => a >>> b
  | .mov, _, b => b

def AluOp.eval32 : AluOp → UInt32 → UInt32 → UInt32
  | .add, a, b => a + b
  | .and, a, b => a &&& b
  | .rsh, a, b => a >>> b
  | .mov, _, b => b

/-- Pointers can be moved and, into the packet, added to. -/
def alu : Bool → AluOp → Value → Value → Option Value
  | _, _, _, .uninit => none
  | true, .mov, _, y => some y
  | false, .mov, _, .scalar b => some (.scalar b.toUInt32.toUInt64)
  | true, .add, .packet start, .scalar b => some (.packet (start + b.toInt64.toInt))
  | true, op, .scalar a, .scalar b => some (.scalar (op.eval64 a b))
  | false, op, .scalar a, .scalar b => some (.scalar (op.eval32 a.toUInt32 b.toUInt32).toUInt64)
  | _, _, _, _ => none

def JmpOp.eval64 : JmpOp → UInt64 → UInt64 → Bool
  | .jeq, a, b => a = b
  | .jgt, a, b => b < a
  | .jne, a, b => a ≠ b

def JmpOp.eval32 : JmpOp → UInt32 → UInt32 → Bool
  | .jeq, a, b => a = b
  | .jgt, a, b => b < a
  | .jne, a, b => a ≠ b

/-- Numbers are compared, and which of two pointers into the packet is further. -/
def test : Bool → JmpOp → Value → Value → Option Bool
  | true, op, .scalar a, .scalar b => some (op.eval64 a b)
  | false, op, .scalar a, .scalar b => some (op.eval32 a.toUInt32 b.toUInt32)
  | true, .jgt, .packet start, .packet start' => some (start' < start)
  | _, _, _, _ => none

/-- What an instruction does. -/
inductive Effect
  | next (regs : Regs)
  | jump (off : ℤ)
  | exit (r0 : UInt64)

def effect (m : Machine) (regs : Regs) : Instr → Option Effect
  | .load size dst src off => (m.load size (regs src) off).map fun v => .next (regs.set dst v)
  | .alu wide op dst y => (alu wide op (regs dst) (y.value regs)).map fun v =>
      .next (regs.set dst v)
  | .jump wide op dst y off => (test wide op (regs dst) (y.value regs)).map fun taken =>
      .jump (if taken then off else 0)
  | .goto off => some (.jump off)
  | .exit =>
    match regs 0 with
    | .scalar v => some (.exit v)
    | _ => none

/-- At most `fuel` instructions of a program from `pc` on, until it exits. -/
def run (m : Machine) (prog : List Insn) : ℕ → ℕ → Regs → Option UInt64
  | 0, _, _ => none
  | fuel + 1, pc, regs =>
    match (prog[pc]?.bind decode).bind (effect m regs) with
    | some (.next regs) => run m prog fuel (pc + 1) regs
    | some (.jump off) =>
      if 0 ≤ pc + 1 + off then run m prog fuel (pc + 1 + off).toNat regs else none
    | some (.exit r0) => some r0
    | none => none

/-- More fuel gives the same result. -/
theorem run_mono {m : Machine} {prog : List Insn} {fuel fuel' pc : ℕ} {regs : Regs} {v : UInt64}
    (h : run m prog fuel pc regs = some v) (hle : fuel ≤ fuel') :
    run m prog fuel' pc regs = some v := by
  induction fuel generalizing fuel' pc regs with
  | zero => cases h
  | succ fuel ih =>
    obtain ⟨fuel', rfl⟩ : ∃ n, fuel' = n + 1 := ⟨fuel' - 1, by omega⟩
    have hle' : fuel ≤ fuel' := Nat.le_of_succ_le_succ hle
    unfold run at h ⊢
    cases heff : (prog[pc]?.bind decode).bind (effect m regs) with
    | none => rw [heff] at h; cases h
    | some e =>
      rw [heff] at h
      cases e with
      | next regs' => exact ih h hle'
      | jump off =>
        dsimp only at h ⊢
        split at h
        · rename_i hpc
          rw [if_pos hpc]
          exact ih h hle'
        · cases h
      | exit r0 => exact h

/-! ## Rules -/

/-- Wherever the code stands at the end of a program, the run from there returns `v`, and no
    instruction of it is executed twice. -/
def Returns (m : Machine) (code : List Insn) (regs : Regs) (v : UInt64) : Prop :=
  ∀ prog pc, prog.drop pc = code → run m prog code.length pc regs = some v

section Rules

variable {m : Machine} {i : Insn} {rest : List Insn} {regs : Regs} {v : UInt64}

theorem Returns.run {code : List Insn} (h : Returns m code regs v) :
    run m code code.length 0 regs = some v :=
  h code 0 rfl

/-- The first instruction of the code, and the code behind it. -/
theorem drop_cons {prog : List Insn} {pc : ℕ} (h : prog.drop pc = i :: rest) :
    prog[pc]? = some i ∧ ∀ n, prog.drop (pc + 1 + n) = rest.drop n := by
  refine ⟨?_, fun n => ?_⟩
  · rw [← List.head?_drop, h, List.head?_cons]
  · rw [Nat.add_assoc, Nat.add_comm 1 n, ← List.drop_drop, h, List.drop_succ_cons]

theorem Returns.next {instr : Instr} {regs' : Regs} (hd : decode i = some instr)
    (he : effect m regs instr = some (.next regs')) (h : Returns m rest regs' v) :
    Returns m (i :: rest) regs v := by
  intro prog pc hcode
  obtain ⟨hpc, hdrop⟩ := drop_cons hcode
  rw [List.length_cons, Ebpf.run, hpc, Option.bind_some, hd, Option.bind_some, he]
  exact h prog (pc + 1) (hdrop 0)

/-- A jump over the next instructions. -/
theorem Returns.jump {instr : Instr} {n : ℕ} (hd : decode i = some instr)
    (he : effect m regs instr = some (.jump n)) (h : Returns m (rest.drop n) regs v) :
    Returns m (i :: rest) regs v := by
  intro prog pc hcode
  obtain ⟨hpc, hdrop⟩ := drop_cons hcode
  have htarget : (pc : ℤ) + 1 + n = ((pc + 1 + n : ℕ) : ℤ) := by push_cast; rfl
  rw [List.length_cons, Ebpf.run, hpc, Option.bind_some, hd, Option.bind_some, he]
  dsimp only
  rw [htarget, if_pos (Int.natCast_nonneg _), Int.toNat_natCast]
  refine run_mono (h prog (pc + 1 + n) (hdrop n)) ?_
  rw [List.length_drop]
  omega

theorem Returns.load {size : ℕ} {dst src : UInt8} {off : ℤ} {x : Value}
    (hd : decode i = some (.load size dst src off)) (hx : m.load size (regs src) off = some x)
    (h : Returns m rest (regs.set dst x) v) : Returns m (i :: rest) regs v :=
  Returns.next hd (by rw [effect, hx]; rfl) h

theorem Returns.alu {wide : Bool} {op : AluOp} {dst : UInt8} {y : Operand} {x : Value}
    (hd : decode i = some (.alu wide op dst y))
    (hx : alu wide op (regs dst) (y.value regs) = some x)
    (h : Returns m rest (regs.set dst x) v) : Returns m (i :: rest) regs v :=
  Returns.next hd (by rw [effect, hx]; rfl) h

/-- A conditional jump forward. -/
theorem Returns.branch {wide : Bool} {op : JmpOp} {dst : UInt8} {y : Operand} {n : ℕ} {taken : Bool}
    (hd : decode i = some (.jump wide op dst y n))
    (ht : test wide op (regs dst) (y.value regs) = some taken)
    (h : Returns m (if taken then rest.drop n else rest) regs v) :
    Returns m (i :: rest) regs v := by
  cases taken with
  | true => exact Returns.jump hd (by rw [effect, ht]; rfl) h
  | false =>
    have he : effect m regs (.jump wide op dst y n) = some (.jump (0 : ℕ)) := by
      rw [effect, ht]
      rfl
    exact Returns.jump hd he h

theorem Returns.goto {n : ℕ} (hd : decode i = some (.goto n)) (h : Returns m (rest.drop n) regs v) :
    Returns m (i :: rest) regs v :=
  Returns.jump hd rfl h

theorem Returns.exit (hd : decode i = some .exit) (hv : regs 0 = .scalar v) :
    Returns m (i :: rest) regs v := by
  intro prog pc hcode
  rw [List.length_cons, Ebpf.run, (drop_cons hcode).1, Option.bind_some, hd, Option.bind_some,
    effect, hv]

end Rules

/-! ## Immediates -/

/-- A number below `2^31` is its own sign extension. -/
theorem signExtend_toInt32 {k : UInt32} (h : k < 0x80000000) :
    signExtend k.toInt32 = k.toUInt64 := by
  have hmsb : k.toBitVec.msb = false := by
    rw [BitVec.msb_eq_false_iff_two_mul_lt]
    have := UInt32.lt_iff_toNat_lt.mp h
    have h31 : (0x80000000 : UInt32).toNat = 2 ^ 31 := rfl
    show 2 * k.toNat < 2 ^ 32
    omega
  apply UInt64.toBitVec_inj.mp
  exact BitVec.signExtend_eq_setWidth_of_msb_false hmsb

/-- The 32-bit instructions see the immediate itself. -/
theorem toUInt32_signExtend (k : Int32) : (signExtend k).toUInt32 = k.toUInt32 := by
  apply UInt32.toBitVec_inj.mp
  show (BitVec.signExtend 64 k.toBitVec).setWidth 32 = _
  ext i hi
  have h64 : i < 64 := by omega
  rw [BitVec.getElem_setWidth, BitVec.getLsbD_signExtend, if_pos hi, decide_eq_true h64,
    Bool.true_and, BitVec.getLsbD_eq_getElem hi]
  rfl

/-- The 64-bit comparison of a 32-bit number with an immediate: a negative immediate is not equal to
    any of them. -/
theorem toUInt64_eq_signExtend {x k : UInt32} :
    x.toUInt64 = signExtend k.toInt32 ↔ x = k ∧ k < 0x80000000 := by
  constructor
  · intro heq
    have hxk := congrArg UInt64.toUInt32 heq
    rw [toUInt32_signExtend, UInt32.toUInt32_toUInt64] at hxk
    refine ⟨hxk, ?_⟩
    by_contra hnot
    have hmsb : k.toBitVec.msb = true := by
      rw [BitVec.msb_eq_decide, decide_eq_true_iff]
      exact Nat.not_lt.mp fun hlt => hnot (UInt32.lt_iff_toNat_lt.mpr hlt)
    -- the top bits differ
    have htop : (x.toBitVec.setWidth 64).getLsbD 63 =
        (BitVec.signExtend 64 k.toBitVec).getLsbD 63 :=
      congrArg (fun y : UInt64 => y.toBitVec.getLsbD 63) heq
    rw [BitVec.getLsbD_setWidth, BitVec.getLsbD_of_ge x.toBitVec 63 (by decide),
      BitVec.getLsbD_signExtend, if_neg (by decide), hmsb] at htop
    cases htop
  · rintro ⟨rfl, hlt⟩
    rw [signExtend_toInt32 hlt]

end OxidizedSystemd.Lib.Ebpf
