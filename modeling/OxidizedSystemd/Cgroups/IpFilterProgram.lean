import OxidizedSystemd.Cgroups.IpFilter

/-!
# The IP filter, run

What the program of `build_ip_filter_program` returns for a packet. The jumps are
patched in seven places; `buildIpFilterProgram_eq` gives the layout they result in,
and the rest follows that layout from the first instruction to the tails.

* `returns_v4Blocks`, `returns_v6Blocks`: the first rule that an address passes
  decides.
* `returns_v4Path`, `returns_v6Path`: the path of a version.
* `returns_filterLayout`: the whole program.
-/

namespace OxidizedSystemd.Cgroups

open OxidizedSystemd.Lib
open OxidizedSystemd.Lib.Ebpf

/-! ## Layout -/

/-- The comparison of a word. -/
def wordCheck (rule : FilterRule Words) (w : Fin 4) : List (Insn × Bool) :=
  [(mov64Reg R5 (wordReg w), false), (alu32AndImm R5 (rule.mask w).toInt32, false),
    (jne32Imm R5 (rule.network w).toInt32 0, true)]

/-- The block of an IPv6 prefix, with its marks. -/
def v6Code (rule : FilterRule Words) : List (Insn × Bool) :=
  (List.finRange 4).flatMap (wordCheck rule) ++
    [(mov64Imm R0 rule.verdict, false), (exitInsn, false)]

theorem emitV6Block_eq (insns : List Insn) (rule : FilterRule Words) :
    emitV6Block insns rule = insns ++ resolve (v6Code rule) := by
  rw [← patchSkips_emit]
  rfl

/-- Where the address is in the packet. -/
def v4Off (egress : Bool) : Int16 := if egress then IPV4_DST_OFF else IPV4_SRC_OFF

def v6Off (egress : Bool) : Int16 := if egress then IPV6_DST_OFF else IPV6_SRC_OFF

/-- The instructions in front of the IPv4 prefixes, with their jumps. -/
def filterHead (egress : Bool) (short toV6 short4 : Int16) : List Insn :=
  [ldxMemW R2 R1 SK_BUFF_DATA_OFF, ldxMemW R3 R1 SK_BUFF_DATA_END_OFF, mov64Reg R4 R2,
    alu64AddImm R4 1, jgtReg R4 R3 short, ldxMemB R5 R2 0, alu64RshImm R5 4, jne32Imm R5 4 toV6,
    mov64Reg R4 R2, alu64AddImm R4 20, jgtReg R4 R3 short4,
    ldxMemW R6 R2 (v4Off egress)]

/-- The words of an IPv6 address are loaded. -/
def v6Loads (off : Int16) : List Insn :=
  [ldxMemW R6 R2 off, ldxMemW R7 R2 (off + 4), ldxMemW R8 R2 (off + 8), ldxMemW R9 R2 (off + 12)]

/-- The instructions in front of the IPv6 prefixes, with their jumps. -/
def v6Head (egress : Bool) (other short6 : Int16) : List Insn :=
  jne32Imm R5 6 other :: mov64Reg R4 R2 :: alu64AddImm R4 40 :: jgtReg R4 R3 short6 ::
    v6Loads (v6Off egress)

def ja (off : Int16) : Insn := insn BPF_JA 0 0 off 0

def filterTails (defaultVerdict : Int32) : List Insn :=
  [mov64Imm R0 defaultVerdict, exitInsn, mov64Imm R0 1, exitInsn]

section Layout

variable (A B : List Insn) (egress : Bool) (a b c d e f g : Int16) (dv : Int32)

/-- The whole program, with all its jumps. -/
def filterInsns : List Insn :=
  filterHead egress a b c ++ (A ++ ja d :: (v6Head egress e f ++ (B ++ ja g :: filterTails dv)))

/-- The program with its jumps patched. -/
def filterLayout : List Insn :=
  filterInsns A B egress (Int16.ofNat (A.length + B.length + 19)) (Int16.ofNat (A.length + 5))
    (Int16.ofNat (A.length + B.length + 13)) (Int16.ofNat (B.length + 9))
    (Int16.ofNat (B.length + 10)) (Int16.ofNat (B.length + 7)) 0 dv

theorem patch_v4_default (target : ℕ) :
    patch (12 + (A.length + target)) (filterInsns A B egress a b c d e f g dv) (12 + A.length) =
      filterInsns A B egress a b c (Int16.ofNat (target - 1)) e f g dv :=
  (patch_append_add (A.length + target) (filterHead egress a b c) _ (A.length + 0)).trans
    (congrArg (filterHead egress a b c ++ ·) (patch_append_add target A _ 0))

theorem patch_v6_default (target : ℕ) :
    patch (12 + (A.length + (9 + (B.length + target)))) (filterInsns A B egress a b c d e f g dv)
        (12 + (A.length + (9 + B.length))) =
      filterInsns A B egress a b c d e f (Int16.ofNat (target - 1)) dv := by
  have hB := patch_append_add target B (ja g :: filterTails dv) 0
  have hhead := patch_append_add (B.length + target) (ja d :: v6Head egress e f)
    (B ++ ja g :: filterTails dv) (B.length + 0)
  have hA := patch_append_add (9 + (B.length + target)) A
    ((ja d :: v6Head egress e f) ++ (B ++ ja g :: filterTails dv)) (9 + (B.length + 0))
  refine (patch_append_add (A.length + (9 + (B.length + target))) (filterHead egress a b c) _
    (A.length + (9 + (B.length + 0)))).trans (congrArg (filterHead egress a b c ++ ·) ?_)
  refine hA.trans (congrArg (A ++ ·) ?_)
  exact hhead.trans (congrArg ((ja d :: v6Head egress e f) ++ ·) hB)

/-- A jump in front of the IPv6 prefixes. -/
theorem patch_v6_head (target k : ℕ) {e' f' : Int16}
    (h : patch target (v6Head egress e f ++ (B ++ ja g :: filterTails dv)) k =
      v6Head egress e' f' ++ (B ++ ja g :: filterTails dv)) :
    patch (12 + (A.length + (1 + target))) (filterInsns A B egress a b c d e f g dv)
        (12 + (A.length + (1 + k))) =
      filterInsns A B egress a b c d e' f' g dv := by
  have hja := patch_append_add target [ja d] (v6Head egress e f ++ (B ++ ja g :: filterTails dv)) k
  rw [h] at hja
  refine (patch_append_add (A.length + (1 + target)) (filterHead egress a b c) _
    (A.length + (1 + k))).trans (congrArg (filterHead egress a b c ++ ·) ?_)
  exact (patch_append_add (1 + target) A _ (1 + k)).trans (congrArg (A ++ ·) hja)

/-- The jumps to the tails. -/
theorem patch_tails :
    [4, 10, 12 + (A.length + (1 + 0)), 12 + (A.length + (1 + 3))].foldl
        (patch (12 + (A.length + (1 + (B.length + 11)))))
        ([12 + A.length, 12 + (A.length + (9 + B.length))].foldl
          (patch (12 + (A.length + (9 + (B.length + 1)))))
          (filterInsns A B egress 0 b 0 0 0 0 0 dv)) =
      filterInsns A B egress (Int16.ofNat (A.length + B.length + 19)) b
        (Int16.ofNat (A.length + B.length + 13)) (Int16.ofNat (B.length + 9))
        (Int16.ofNat (B.length + 10)) (Int16.ofNat (B.length + 7)) 0 dv := by
  have hhead : ∀ a c d e f g target,
      patch target (filterInsns A B egress a b c d e f g dv) 4 =
        filterInsns A B egress (Int16.ofNat (target - 4 - 1)) b c d e f g dv ∧
      patch target (filterInsns A B egress a b c d e f g dv) 10 =
        filterInsns A B egress a b (Int16.ofNat (target - 10 - 1)) d e f g dv :=
    fun _ _ _ _ _ _ _ => ⟨rfl, rfl⟩
  simp only [List.foldl_cons, List.foldl_nil]
  rw [patch_v4_default, patch_v6_default, (hhead _ _ _ _ _ _ _).1, (hhead _ _ _ _ _ _ _).2,
    patch_v6_head _ _ _ _ _ _ _ _ _ _ _ _ 0 rfl, patch_v6_head _ _ _ _ _ _ _ _ _ _ _ _ 3 rfl]
  congr 2 <;> omega

end Layout

theorem buildIpFilterProgram_eq (v4 : List (FilterRule UInt32)) (v6 : List (FilterRule Words))
    (defaultVerdict : Int32) (egress : Bool) :
    buildIpFilterProgram v4 v6 defaultVerdict egress =
      filterLayout (v4.flatMap v4Block) (v6.flatMap fun rule => resolve (v6Code rule)) egress
        defaultVerdict := by
  unfold buildIpFilterProgram
  dsimp only
  rw [foldl_blocks (fun _ _ => rfl), foldl_blocks emitV6Block_eq]
  generalize v4.flatMap v4Block = A
  generalize (v6.flatMap fun rule => resolve (v6Code rule)) = B
  obtain ⟨M, hM⟩ : ∃ M, M = patch (filterHead egress 0 0 0 ++ A ++ [ja 0]).length
    (filterHead egress 0 0 0 ++ A ++ [ja 0]) 7 := ⟨_, rfl⟩
  have hmid : M = filterHead egress 0 (Int16.ofNat (A.length + 5)) 0 ++ (A ++ [ja 0]) := by
    rw [hM, List.append_assoc, List.length_append, List.length_append]
    show filterHead egress 0 (Int16.ofNat (12 + (A.length + 1) - 7 - 1)) 0 ++ _ = _
    rw [show 12 + (A.length + 1) - 7 - 1 = A.length + 5 by omega]
  obtain ⟨N, hN⟩ : ∃ N, N = M ++ [jne32Imm R5 6 0, mov64Reg R4 R2, alu64AddImm R4 40] ++
    [jgtReg R4 R3 0, ldxMemW R6 R2 (v6Off egress),
      ldxMemW R7 R2 ((v6Off egress) + 4),
      ldxMemW R8 R2 ((v6Off egress) + 8),
      ldxMemW R9 R2 ((v6Off egress) + 12)] ++ B := ⟨_, rfl⟩
  have hlen : M.length = 12 + (A.length + (1 + 0)) := by
    rw [hmid, List.length_append, List.length_append]
    rfl
  have hlenN : N.length = 12 + (A.length + (9 + B.length)) := by
    rw [hN]
    simp only [List.length_append, List.length_cons, List.length_nil, hlen]
    omega
  have hinsns : N ++ [ja 0] ++ [mov64Imm R0 defaultVerdict, exitInsn] ++
      [mov64Imm R0 1, exitInsn] =
      filterInsns A B egress 0 (Int16.ofNat (A.length + 5)) 0 0 0 0 0 defaultVerdict := by
    rw [hN, hmid]
    simp [filterInsns, filterTails, v6Head, v6Loads]
  have htails := patch_tails A B egress (Int16.ofNat (A.length + 5)) defaultVerdict
  rw [← hinsns] at htails
  have hdefault : 12 + (A.length + (9 + (B.length + 1))) = (N ++ [ja 0]).length := by
    rw [List.length_append, hlenN]
    rfl
  have hallow : 12 + (A.length + (1 + (B.length + 11))) =
      (N ++ [ja 0] ++ [mov64Imm R0 defaultVerdict, exitInsn]).length := by
    simp only [List.length_append, List.length_cons, List.length_nil, hlenN]
    omega
  have hother : 12 + (A.length + (1 + 3)) =
      (M ++ [jne32Imm R5 6 0, mov64Reg R4 R2, alu64AddImm R4 40]).length := by
    rw [List.length_append, hlen]
    rfl
  have hfirst : 12 + A.length = (filterHead egress 0 0 0 ++ A).length := by
    rw [List.length_append]
    rfl
  rw [hdefault, hallow, hother, hfirst, ← hlenN, ← hlen] at htails
  rw [hN, hM] at htails
  exact htails

/-! ## Masked comparisons -/

section Compare

variable {m : Machine} {rest : List Insn} {regs : Regs} {v : UInt64}

/-- A word is copied and masked. -/
theorem returns_mask {dst src : UInt8} (hdst : dst < 16) (hsrc : src < 16) {a : UInt64}
    (ha : regs src = .scalar a) (mask : UInt32)
    (h : Returns m rest ((regs.set dst (.scalar a)).set dst
      (.scalar (a.toUInt32 &&& mask).toUInt64)) v) :
    Returns m (mov64Reg dst src :: alu32AndImm dst mask.toInt32 :: rest) regs v := by
  have hmov : alu true .mov (regs dst) (Operand.value regs (.reg src)) = some (.scalar a) := by
    show alu true .mov (regs dst) (regs src) = _
    rw [ha]
    rfl
  have hand : alu false .and ((regs.set dst (.scalar a)) dst)
      (Operand.value (regs.set dst (.scalar a)) (.imm mask.toInt32)) =
      some (.scalar (a.toUInt32 &&& mask).toUInt64) := by
    rw [Regs.set_same]
    show some (Value.scalar (a.toUInt32 &&& (signExtend mask.toInt32).toUInt32).toUInt64) = _
    rw [toUInt32_signExtend]
    rfl
  exact Returns.alu (decode_mov64Reg hdst hsrc) hmov
    (Returns.alu (decode_alu32AndImm hdst _) hand h)

/-- The comparison of a 32-bit word with an immediate. -/
theorem test_jne32 (x k : UInt32) (regs : Regs) :
    test false .jne (.scalar x.toUInt64) (Operand.value regs (.imm k.toInt32)) =
      some (decide (x ≠ k)) := by
  show some (decide (x.toUInt64.toUInt32 ≠ (signExtend k.toInt32).toUInt32)) = _
  rw [toUInt32_signExtend, UInt32.toUInt32_toUInt64]
  rfl

/-- The verdict of the first rule that a word passes. -/
def firstVerdict {W : Type} (hit : FilterRule W → Bool) (rules : List (FilterRule W))
    (defaultVerdict : Int32) : Int32 :=
  ((rules.find? hit).map FilterRule.verdict).getD defaultVerdict

theorem firstVerdict_cons {W : Type} (hit : FilterRule W → Bool) (rule : FilterRule W)
    (rules : List (FilterRule W)) (defaultVerdict : Int32) :
    firstVerdict hit (rule :: rules) defaultVerdict =
      if hit rule then rule.verdict else firstVerdict hit rules defaultVerdict := by
  unfold firstVerdict
  rw [List.find?_cons]
  cases hit rule with
  | true => rfl
  | false => rfl

/-- The prefixes of IPv4: the word in `r6` is compared with one after the other. -/
theorem returns_v4Blocks {x : UInt64} {defaultVerdict : Int32}
    (hrest : ∀ regs, Returns m rest regs (signExtend defaultVerdict))
    (rules : List (FilterRule UInt32)) (hx : regs R6 = .scalar x) :
    Returns m (rules.flatMap v4Block ++ rest) regs (signExtend (firstVerdict
      (fun rule => x.toUInt32 &&& rule.mask = rule.network) rules defaultVerdict)) := by
  induction rules generalizing regs with
  | nil => exact hrest regs
  | cons rule rules ih =>
    rw [firstVerdict_cons, List.flatMap_cons]
    refine returns_mask (by decide) (by decide) hx rule.mask ?_
    refine Returns.branch (n := 2) (decode_jne32Imm (by decide) _ 2)
      (by rw [Regs.set_same]; exact test_jne32 _ _ _) ?_
    by_cases h : x.toUInt32 &&& rule.mask = rule.network
    · rw [decide_eq_false (not_not.mpr h), decide_eq_true h]
      exact returns_verdict m rule.verdict _ _
    · rw [decide_eq_true h, decide_eq_false h]
      exact ih hx

/-- The four words are loaded. -/
def Loaded (x : Fin 4 → UInt64) (regs : Regs) : Prop := ∀ w, regs (wordReg w) = .scalar (x w)

theorem wordReg_lt (w : Fin 4) : wordReg w < 16 := by
  revert w
  decide

theorem Loaded.set_R5 {x : Fin 4 → UInt64} (h : Loaded x regs) (y : Value) :
    Loaded x (regs.set R5 y) := by
  have hne : ∀ w, wordReg w ≠ R5 := by decide
  intro w
  rw [Regs.set_ne regs y (hne w)]
  exact h w

theorem length_wordChecks (rule : FilterRule Words) (ws : List (Fin 4)) :
    (ws.flatMap (wordCheck rule)).length = 3 * ws.length := by
  induction ws with
  | nil => rfl
  | cons w ws ih =>
    rw [List.flatMap_cons, List.length_append, ih, List.length_cons]
    show 3 + 3 * ws.length = _
    omega

/-- The comparisons of the words of a prefix. -/
theorem returns_words {x : Fin 4 → UInt64} (rule : FilterRule Words) (ws : List (Fin 4))
    {tail : List (Insn × Bool)} (hlen : 3 * ws.length + tail.length < 2 ^ 15)
    (heq : (∀ w ∈ ws, (x w).toUInt32 &&& rule.mask w = rule.network w) →
      ∀ regs, Loaded x regs → Returns m (resolve tail ++ rest) regs v)
    (hne : (¬ ∀ w ∈ ws, (x w).toUInt32 &&& rule.mask w = rule.network w) →
      ∀ regs, Loaded x regs → Returns m rest regs v) (hx : Loaded x regs) :
    Returns m (resolve (ws.flatMap (wordCheck rule) ++ tail) ++ rest) regs v := by
  induction ws generalizing regs with
  | nil => exact heq (fun w hw => absurd hw List.not_mem_nil) regs hx
  | cons w ws ih =>
    rw [List.length_cons] at hlen
    show Returns m (mov64Reg R5 (wordReg w) :: alu32AndImm R5 (rule.mask w).toInt32 ::
      (resolve ((jne32Imm R5 (rule.network w).toInt32 0, true) ::
        (ws.flatMap (wordCheck rule) ++ tail)) ++ rest)) regs v
    refine returns_mask (by decide) (wordReg_lt w) (hx w) (rule.mask w) ?_
    have hx' := (hx.set_R5 (.scalar (x w))).set_R5
      (.scalar ((x w).toUInt32 &&& rule.mask w).toUInt64)
    refine Returns.skip ?_ (fun off => decode_jne32Imm (by decide) _ off)
      (by rw [Regs.set_same]; exact test_jne32 _ _ _) ?_
    · rw [List.length_append, length_wordChecks]
      omega
    · by_cases h : (x w).toUInt32 &&& rule.mask w = rule.network w
      · rw [decide_eq_false (not_not.mpr h)]
        refine ih (by omega) (fun hall => heq ?_) (fun hall => hne ?_) hx'
        · rwa [List.forall_mem_cons, and_iff_right h]
        · rwa [List.forall_mem_cons, and_iff_right h]
      · rw [decide_eq_true h]
        exact hne (fun hall => h (hall w List.mem_cons_self)) _ hx'

/-- The prefixes of IPv6. -/
theorem returns_v6Blocks {x : Fin 4 → UInt64} {defaultVerdict : Int32}
    (hrest : ∀ regs, Returns m rest regs (signExtend defaultVerdict))
    (rules : List (FilterRule Words)) (hx : Loaded x regs) :
    Returns m ((rules.flatMap fun rule => resolve (v6Code rule)) ++ rest) regs
      (signExtend (firstVerdict (fun rule : FilterRule Words =>
        ∀ w, (x w).toUInt32 &&& rule.mask w = rule.network w) rules defaultVerdict)) := by
  induction rules generalizing regs with
  | nil => exact hrest regs
  | cons rule rules ih =>
    rw [firstVerdict_cons, List.flatMap_cons, List.append_assoc]
    have hlen : 3 * (List.finRange 4).length + 2 < 2 ^ 15 := by decide
    refine returns_words rule (List.finRange 4) hlen (fun h regs _ => ?_) (fun h regs hx => ?_) hx
    · rw [decide_eq_true fun w => h w (List.mem_finRange w)]
      exact returns_verdict m rule.verdict _ regs
    · rw [decide_eq_false fun h' => h fun w _ => h' w]
      exact ih hx

end Compare

/-! ## The paths -/

/-- The last two instructions. -/
def allowTail : List Insn := [mov64Imm R0 1, exitInsn]

theorem drop_to_default (xs B : List Insn) (g : Int16) (dv : Int32) {n : ℕ}
    (h : n = xs.length + B.length + 1) :
    (xs ++ (B ++ ja g :: filterTails dv)).drop n = filterTails dv := by
  have hsplit : xs ++ (B ++ ja g :: filterTails dv) = (xs ++ (B ++ [ja g])) ++ filterTails dv := by
    simp only [List.append_assoc, List.singleton_append]
  rw [hsplit, List.drop_left']
  simp only [List.length_append, List.length_singleton, h]
  omega

theorem drop_to_allow (xs B : List Insn) (g : Int16) (dv : Int32) {n : ℕ}
    (h : n = xs.length + B.length + 3) :
    (xs ++ (B ++ ja g :: filterTails dv)).drop n = allowTail := by
  have hn : n = (xs.length + B.length + 1) + 2 := h
  rw [hn, ← List.drop_drop, drop_to_default xs B g dv rfl]
  rfl

theorem decode_ja (off : Int16) : decode (ja off) = some (.goto off.toInt) := by
  rw [ja, decode]
  simp +decide [insn, BPF_JA]

/-- A jump that was patched. -/
theorem toInt_ofNat {n : ℕ} (h : n < 2 ^ 15) : (Int16.ofNat n).toInt = n :=
  Int16.toInt_ofNat_of_lt h

/-- The first half of the first octet. -/
def version (packet : Bytes) : UInt8 := packet.headD 0 >>> 4

theorem test_version (ver k : UInt8) (regs : Regs) :
    test false .jne (.scalar ver.toUInt64) (Operand.value regs (.imm k.toUInt32.toInt32)) =
      some (decide (ver ≠ k)) := by
  have h := test_jne32 ver.toUInt32 k.toUInt32 regs
  rw [UInt8.toUInt64_toUInt32] at h
  rw [h]
  simp only [ne_eq, UInt8.toUInt32_inj]

/-- A field of a packet that is long enough. -/
theorem load_packet {packet : Bytes} {size k : ℕ} {off : Int16} (hoff : off.toInt = k)
    (h : k + size ≤ packet.length) : (skbMachine packet).load size (.packet 0) off.toInt =
      some (.scalar (UInt64.ofNat (ofLe ((packet.drop k).take size)))) := by
  show (skbMachine packet).readPacket size (0 + off.toInt) = _
  rw [hoff, Int.zero_add, Machine.readPacket, if_pos]
  · rfl
  · refine ⟨Int.natCast_nonneg k, ?_⟩
    show (k : ℤ) + size ≤ packet.length
    omega

section Paths

variable {packet : Bytes} {rest : List Insn} {regs : Regs} {v : UInt64}

/-- The check that a packet has `n` octets. -/
theorem returns_bound {n : ℕ} {k : Int32} {off : ℕ} (hk : (signExtend k).toInt64.toInt = n)
    (hoff : off < 2 ^ 15) (h2 : regs R2 = .packet 0) (h3 : regs R3 = .packet packet.length)
    (hshort : packet.length < n → ∀ regs, Returns (skbMachine packet) (rest.drop off) regs v)
    (hlong : n ≤ packet.length → Returns (skbMachine packet) rest
      ((regs.set R4 (.packet 0)).set R4 (.packet n)) v) :
    Returns (skbMachine packet)
      (mov64Reg R4 R2 :: alu64AddImm R4 k :: jgtReg R4 R3 (Int16.ofNat off) :: rest) regs v := by
  have hmov : alu true .mov (regs R4) (Operand.value regs (.reg R2)) = some (.packet 0) := by
    show alu true .mov (regs R4) (regs R2) = _
    rw [h2]
    rfl
  have hadd : alu true .add ((regs.set R4 (.packet 0)) R4)
      (Operand.value (regs.set R4 (.packet 0)) (.imm k)) = some (.packet n) := by
    rw [Regs.set_same, ← hk, ← Int.zero_add (signExtend k).toInt64.toInt]
    rfl
  refine Returns.alu (decode_mov64Reg (by decide) (by decide)) hmov
    (Returns.alu (decode_alu64AddImm (by decide) k) hadd ?_)
  have hd := decode_jgtReg (by decide : R4 < 16) (by decide : R3 < 16) (Int16.ofNat off)
  rw [toInt_ofNat hoff] at hd
  have ht : test true .jgt (((regs.set R4 (.packet 0)).set R4 (.packet n)) R4)
      (Operand.value ((regs.set R4 (.packet 0)).set R4 (.packet n)) (.reg R3)) =
      some (decide (packet.length < n)) := by
    show test true .jgt (.packet n) (regs R3) = _
    rw [h3]
    show some (decide ((packet.length : ℤ) < n)) = _
    simp only [Int.ofNat_lt]
  refine Returns.branch hd ht ?_
  by_cases h : packet.length < n
  · rw [decide_eq_true h]
    exact hshort h _
  · rw [decide_eq_false h]
    exact hlong (Nat.not_lt.mp h)

theorem returns_allowTail (regs : Regs) : Returns (skbMachine packet) allowTail regs 1 :=
  returns_verdict _ 1 [] regs

/-- Where the address of a family begins. -/
def addrStart4 (egress : Bool) : ℕ := if egress then 16 else 12

def addrStart6 (egress : Bool) : ℕ := if egress then 24 else 8

/-- The address that is filtered. -/
def addr4 (packet : Bytes) (egress : Bool) : Bytes := (packet.drop (addrStart4 egress)).take 4

def addr6 (packet : Bytes) (egress : Bool) : Bytes := (packet.drop (addrStart6 egress)).take 16

/-- The word of an address as a load of the packet gives it. -/
def loadedWord (bs : Bytes) : UInt64 := UInt64.ofNat (ofLe bs)

theorem toUInt32_loadedWord (bs : Bytes) : (loadedWord bs).toUInt32 = fromLeBytes bs := by
  apply UInt32.toNat_inj.mp
  simp [loadedWord, fromLeBytes]

theorem wordOctets_addr6 (packet : Bytes) (egress : Bool) (w : Fin 4) :
    wordOctets (addr6 packet egress) w = (packet.drop (addrStart6 egress + 4 * w)).take 4 := by
  have hw := w.2
  rw [wordOctets, addr6, List.drop_take, List.take_take, List.drop_drop]
  congr 1
  omega

/-- The words of an IPv6 address are in their registers. -/
theorem returns_v6Loads {egress : Bool} (hlen : 40 ≤ packet.length) (h2 : regs R2 = .packet 0)
    (hrest : ∀ regs, Loaded (fun w => loadedWord (wordOctets (addr6 packet egress) w)) regs →
      Returns (skbMachine packet) rest regs v) :
    Returns (skbMachine packet)
      (v6Loads (v6Off egress) ++ rest) regs v := by
  have hword : ∀ (w : Fin 4) {off : Int16} {regs : Regs},
      off.toInt = ((addrStart6 egress + 4 * w : ℕ) : ℤ) → regs R2 = .packet 0 →
      (skbMachine packet).load 4 (regs R2) off.toInt =
        some (.scalar (loadedWord (wordOctets (addr6 packet egress) w))) := by
    intro w off regs hoff h
    have hbound : addrStart6 egress + 4 * w + 4 ≤ packet.length := by
      have hw := w.2
      have hstart : addrStart6 egress ≤ 24 := by cases egress <;> decide
      omega
    rw [h, load_packet hoff hbound, wordOctets_addr6]
    rfl
  refine Returns.load (decode_ldxMemW (by decide) (by decide) _)
    (hword 0 (by cases egress <;> decide) h2) ?_
  refine Returns.load (decode_ldxMemW (by decide) (by decide) _)
    (hword 1 (by cases egress <;> decide) h2) ?_
  refine Returns.load (decode_ldxMemW (by decide) (by decide) _)
    (hword 2 (by cases egress <;> decide) h2) ?_
  refine Returns.load (decode_ldxMemW (by decide) (by decide) _)
    (hword 3 (by cases egress <;> decide) h2) ?_
  refine hrest _ fun w => ?_
  match w with
  | 0 => rfl
  | 1 => rfl
  | 2 => rfl
  | 3 => rfl

/-- What the rules of IPv6 say about an address. -/
def v6Verdict (rules : List (FilterRule Words)) (dv : Int32) (addr : Bytes) : Int32 :=
  firstVerdict (fun rule : FilterRule Words =>
    ∀ w, fromLeBytes (wordOctets addr w) &&& rule.mask w = rule.network w) rules dv

/-- What the rules of IPv4 say about an address. -/
def v4Verdict (rules : List (FilterRule UInt32)) (dv : Int32) (addr : Bytes) : Int32 :=
  firstVerdict (fun rule => fromLeBytes addr &&& rule.mask = rule.network) rules dv

/-- The path of the packets that are not IPv4. -/
theorem returns_v6Path (egress : Bool) {rules : List (FilterRule Words)} {ver : UInt8}
    {B : List Insn} (hB : (rules.flatMap fun rule => resolve (v6Code rule)) = B)
    (hlen : B.length + 10 < 2 ^ 15) (dv : Int32) (h2 : regs R2 = .packet 0)
    (h3 : regs R3 = .packet packet.length) (h5 : regs R5 = .scalar ver.toUInt64) :
    Returns (skbMachine packet)
      (v6Head egress (Int16.ofNat (B.length + 10)) (Int16.ofNat (B.length + 7)) ++
        (B ++ ja 0 :: filterTails dv)) regs
      (if ver = 6 ∧ 40 ≤ packet.length then signExtend (v6Verdict rules dv (addr6 packet egress))
      else 1) := by
  generalize hv : (if ver = 6 ∧ 40 ≤ packet.length then
    signExtend (v6Verdict rules dv (addr6 packet egress)) else 1) = v
  have hother := decode_jne32Imm (by decide : R5 < 16) 6 (Int16.ofNat (B.length + 10))
  rw [toInt_ofNat hlen] at hother
  refine Returns.branch hother (by rw [h5]; exact test_version ver 6 regs) ?_
  by_cases hver : ver = 6
  · rw [decide_eq_false (not_not.mpr hver)]
    refine returns_bound (n := 40) rfl (by omega) h2 h3 (fun h regs => ?_) fun h => ?_
    · rw [if_neg fun hlong => absurd hlong.2 (Nat.not_le.mpr h)] at hv
      have hn : B.length + 7 = (v6Loads (v6Off egress)).length +
          B.length + 3 := by
        rw [Nat.add_comm B.length, Nat.add_right_comm]
        rfl
      show Returns _ ((v6Loads _ ++ (B ++ ja 0 :: filterTails dv)).drop (B.length + 7)) regs v
      rw [drop_to_allow _ B 0 dv hn, ← hv]
      exact returns_allowTail regs
    · rw [if_pos ⟨hver, h⟩] at hv
      rw [← hv, ← hB]
      refine returns_v6Loads h h2 fun regs hx => ?_
      have hrest : ∀ regs, Returns (skbMachine packet) (ja 0 :: filterTails dv) regs
          (signExtend dv) := fun regs =>
        Returns.goto (n := 0) (decode_ja 0) (returns_verdict _ dv _ regs)
      have hblocks := returns_v6Blocks hrest rules hx
      simp only [toUInt32_loadedWord] at hblocks
      exact hblocks
  · rw [decide_eq_true hver]
    rw [if_neg fun h => hver h.1] at hv
    have hn : B.length + 10 = (mov64Reg R4 R2 :: alu64AddImm R4 40 ::
        jgtReg R4 R3 (Int16.ofNat (B.length + 7)) ::
        v6Loads (v6Off egress)).length + B.length + 3 := by
      rw [Nat.add_comm B.length, Nat.add_right_comm]
      rfl
    show Returns _ (((mov64Reg R4 R2 :: alu64AddImm R4 40 ::
      jgtReg R4 R3 (Int16.ofNat (B.length + 7)) :: v6Loads (v6Off egress)) ++
      (B ++ ja 0 :: filterTails dv)).drop (B.length + 10)) regs v
    rw [drop_to_allow _ B 0 dv hn, ← hv]
    exact returns_allowTail regs

/-- A jump over both paths. -/
theorem drop_over_paths (A B xs C : List Insn) (g : Int16) (dv : Int32) {n : ℕ}
    (h : n = xs.length + A.length + C.length + B.length + 4) :
    (xs ++ (A ++ ja g :: (C ++ (B ++ ja 0 :: filterTails dv)))).drop n = allowTail := by
  have hsplit : xs ++ (A ++ ja g :: (C ++ (B ++ ja 0 :: filterTails dv))) =
      (xs ++ (A ++ ja g :: C)) ++ (B ++ ja 0 :: filterTails dv) := by
    simp only [List.append_assoc, List.cons_append]
  rw [hsplit, drop_to_allow _ B 0 dv]
  simp only [List.length_append, List.length_cons]
  omega

/-- The path of the packets that are IPv4. -/
theorem returns_v4Path (egress : Bool) {rules : List (FilterRule UInt32)} {A : List Insn}
    (C B : List Insn) (hA : rules.flatMap v4Block = A) (hC : C.length = 8)
    (hlen : A.length + B.length + 13 < 2 ^ 15) (dv : Int32) (h2 : regs R2 = .packet 0)
    (h3 : regs R3 = .packet packet.length) :
    Returns (skbMachine packet)
      (mov64Reg R4 R2 :: alu64AddImm R4 20 ::
        jgtReg R4 R3 (Int16.ofNat (A.length + B.length + 13)) ::
        ldxMemW R6 R2 (v4Off egress) ::
        (A ++ ja (Int16.ofNat (B.length + 9)) :: (C ++ (B ++ ja 0 :: filterTails dv)))) regs
      (if 20 ≤ packet.length then signExtend (v4Verdict rules dv (addr4 packet egress))
        else 1) := by
  refine returns_bound (n := 20) rfl hlen h2 h3 (fun h regs => ?_) fun h => ?_
  · have hdrop := drop_over_paths A B [ldxMemW R6 R2 (v4Off egress)] C
      (Int16.ofNat (B.length + 9)) dv (n := A.length + B.length + 13)
      (by rw [hC, List.length_singleton]; omega)
    have hreturns : Returns (skbMachine packet) allowTail regs 1 := returns_allowTail regs
    rw [if_neg (Nat.not_le.mpr h)]
    rw [← hdrop] at hreturns
    exact hreturns
  · rw [if_pos h]
    have hstart : addrStart4 egress + 4 ≤ packet.length := by
      have : addrStart4 egress ≤ 16 := by cases egress <;> decide
      omega
    have hload : (skbMachine packet).load 4 (regs R2)
        (v4Off egress).toInt =
        some (.scalar (loadedWord (addr4 packet egress))) := by
      rw [h2, load_packet (k := addrStart4 egress) (by cases egress <;> decide) hstart]
      rfl
    refine Returns.load (decode_ldxMemW (by decide) (by decide) _) hload ?_
    have hgoto := decode_ja (Int16.ofNat (B.length + 9))
    rw [toInt_ofNat (by omega)] at hgoto
    have hdrop : (C ++ (B ++ ja 0 :: filterTails dv)).drop (B.length + 9) = filterTails dv :=
      drop_to_default C B 0 dv (by omega)
    have hrest : ∀ regs, Returns (skbMachine packet)
        (ja (Int16.ofNat (B.length + 9)) :: (C ++ (B ++ ja 0 :: filterTails dv))) regs
        (signExtend dv) := fun regs =>
      Returns.goto hgoto (by rw [hdrop]; exact returns_verdict _ dv _ regs)
    have hblocks := returns_v4Blocks hrest rules (Regs.set_same
      ((regs.set R4 (.packet 0)).set R4 (.packet 20)) R6
      (.scalar (loadedWord (addr4 packet egress))))
    rw [toUInt32_loadedWord, hA] at hblocks
    exact hblocks

/-- The verdict for a packet. -/
def packetVerdict (v4 : List (FilterRule UInt32)) (v6 : List (FilterRule Words)) (dv : Int32)
    (egress : Bool) (packet : Bytes) : Int32 :=
  if version packet = 4 ∧ 20 ≤ packet.length then v4Verdict v4 dv (addr4 packet egress)
  else if version packet = 6 ∧ 40 ≤ packet.length then v6Verdict v6 dv (addr6 packet egress)
  else 1

theorem toUInt64_version (b : UInt8) (bs : Bytes) :
    UInt64.ofNat (ofLe [b]) >>> signExtend 4 = (version (b :: bs)).toUInt64 := by
  apply UInt64.toNat_inj.mp
  have h4 : signExtend 4 = 4 := rfl
  have := b.toNat_lt
  rw [h4]
  simp [version, ofLe, UInt64.toNat_shiftRight]

/-- An IPv4 packet is judged by its first prefix, when it holds the header. -/
theorem packetVerdict_v4 {v4 : List (FilterRule UInt32)} {v6 : List (FilterRule Words)}
    {dv : Int32} {egress : Bool} (hver : version packet = 4) :
    signExtend (packetVerdict v4 v6 dv egress packet) =
      if 20 ≤ packet.length then signExtend (v4Verdict v4 dv (addr4 packet egress)) else 1 := by
  have h6 : version packet ≠ 6 := by rw [hver]; decide
  rw [packetVerdict, if_neg fun h : version packet = 6 ∧ _ => h6 h.1]
  by_cases hlong : 20 ≤ packet.length
  · rw [if_pos ⟨hver, hlong⟩, if_pos hlong]
  · rw [if_neg fun h => hlong h.2, if_neg hlong]
    rfl

/-- Of the other packets, an IPv6 one is. -/
theorem packetVerdict_v6 {v4 : List (FilterRule UInt32)} {v6 : List (FilterRule Words)}
    {dv : Int32} {egress : Bool} (hver : version packet ≠ 4) :
    signExtend (packetVerdict v4 v6 dv egress packet) =
      if version packet = 6 ∧ 40 ≤ packet.length then
        signExtend (v6Verdict v6 dv (addr6 packet egress))
      else 1 := by
  rw [packetVerdict, if_neg fun h => hver h.1]
  split
  · rfl
  · rfl

/-- The version of a packet is in `r5`. -/
theorem returns_version {b : UInt8} {bs : Bytes} (h2 : regs R2 = .packet 0)
    (h3 : regs R3 = .packet (b :: bs).length)
    (hrest : ∀ regs : Regs, regs R2 = .packet 0 → regs R3 = .packet (b :: bs).length →
      regs R5 = .scalar (version (b :: bs)).toUInt64 →
      Returns (skbMachine (b :: bs)) rest regs v) :
    Returns (skbMachine (b :: bs)) (ldxMemB R5 R2 0 :: alu64RshImm R5 4 :: rest) regs v := by
  have hbyte : (skbMachine (b :: bs)).load 1 (regs R2) (Int16.toInt 0) =
      some (.scalar (UInt64.ofNat (ofLe [b]))) := by
    have hlen : 0 + 1 ≤ (b :: bs).length := Nat.le_add_left 1 bs.length
    rw [h2, load_packet (k := 0) rfl hlen]
    rfl
  have hshift : alu true .rsh ((regs.set R5 (.scalar (UInt64.ofNat (ofLe [b])))) R5)
      (Operand.value (regs.set R5 (.scalar (UInt64.ofNat (ofLe [b])))) (.imm 4)) =
      some (.scalar (version (b :: bs)).toUInt64) := by
    rw [Regs.set_same, ← toUInt64_version]
    rfl
  refine Returns.load (decode_ldxMemB (by decide) (by decide) 0) hbyte ?_
  refine Returns.alu (decode_alu64RshImm (by decide) 4) hshift ?_
  exact hrest _ h2 h3 rfl

/-- The jump of the packets that are not IPv4, behind the four instructions of the other path. -/
theorem drop_to_v6 (A xs X : List Insn) (g : Int16) (h : xs.length = 4) :
    (xs ++ (A ++ ja g :: X)).drop (A.length + 5) = X := by
  rw [← List.singleton_append, ← List.append_assoc, ← List.append_assoc]
  refine List.drop_left' ?_
  simp only [List.length_append, List.length_singleton, h]
  omega

/-- What the program returns for a packet. -/
theorem returns_filterLayout {v4 : List (FilterRule UInt32)} {v6 : List (FilterRule Words)}
    {A B : List Insn} (hA : v4.flatMap v4Block = A)
    (hB : (v6.flatMap fun rule => resolve (v6Code rule)) = B) {egress : Bool} {dv : Int32}
    (hlen : (filterLayout A B egress dv).length ≤ 2 ^ 15) :
    Returns (skbMachine packet) (filterLayout A B egress dv) Regs.initial
      (signExtend (packetVerdict v4 v6 dv egress packet)) := by
  have hbound : A.length + B.length + 19 < 2 ^ 15 := by
    have : (filterLayout A B egress dv).length = 12 + (A.length + (1 + (8 + (B.length + 5)))) := by
      simp only [filterLayout, filterInsns, List.length_append, List.length_cons]
      show 12 + (A.length + (8 + (B.length + (4 + 1)) + 1)) = _
      omega
    omega
  have hdata : (skbMachine packet).load 4 (Regs.initial R1) SK_BUFF_DATA_OFF.toInt =
      some (.packet 0) := rfl
  have hdataEnd : (skbMachine packet).load 4 (Regs.initial R1) SK_BUFF_DATA_END_OFF.toInt =
      some (.packet packet.length) := rfl
  refine Returns.load (decode_ldxMemW (by decide) (by decide) _) hdata
    (Returns.load (decode_ldxMemW (by decide) (by decide) _) hdataEnd ?_)
  refine returns_bound (n := 1) rfl hbound rfl rfl (fun h regs => ?_) fun h => ?_
  · obtain rfl : packet = [] := List.length_eq_zero_iff.mp (Nat.lt_one_iff.mp h)
    have hdrop := drop_over_paths A B [ldxMemB R5 R2 0, alu64RshImm R5 4,
      jne32Imm R5 4 (Int16.ofNat (A.length + 5)), mov64Reg R4 R2, alu64AddImm R4 20,
      jgtReg R4 R3 (Int16.ofNat (A.length + B.length + 13)), ldxMemW R6 R2 (v4Off egress)]
      (v6Head egress (Int16.ofNat (B.length + 10)) (Int16.ofNat (B.length + 7)))
      (Int16.ofNat (B.length + 9)) dv (n := A.length + B.length + 19)
      (by simp only [v6Head, v6Loads, List.length_cons, List.length_nil]; omega)
    have hreturns : Returns (skbMachine []) allowTail regs 1 := returns_allowTail regs
    rw [← hdrop] at hreturns
    exact hreturns
  · obtain ⟨b, bs, rfl⟩ := List.exists_cons_of_length_pos h
    refine returns_version rfl rfl fun regs h2 h3 h5 => ?_
    have hjne := decode_jne32Imm (by decide : R5 < 16) 4 (Int16.ofNat (A.length + 5))
    rw [toInt_ofNat (by omega)] at hjne
    refine Returns.branch hjne (by rw [h5]; exact test_version _ 4 regs) ?_
    by_cases hver : version (b :: bs) = 4
    · rw [decide_eq_false (not_not.mpr hver), packetVerdict_v4 hver]
      exact returns_v4Path egress
        (v6Head egress (Int16.ofNat (B.length + 10)) (Int16.ofNat (B.length + 7))) B hA rfl
        (by omega) dv h2 h3
    · have hpath := returns_v6Path egress hB (by omega) dv h2 h3 h5
      have hdrop := drop_to_v6 A [mov64Reg R4 R2, alu64AddImm R4 20,
        jgtReg R4 R3 (Int16.ofNat (A.length + B.length + 13)), ldxMemW R6 R2 (v4Off egress)]
        (v6Head egress (Int16.ofNat (B.length + 10)) (Int16.ofNat (B.length + 7)) ++
          (B ++ ja 0 :: filterTails dv)) (Int16.ofNat (B.length + 9)) rfl
      rw [decide_eq_true hver, packetVerdict_v6 hver]
      rw [← hdrop] at hpath
      exact hpath

end Paths

end OxidizedSystemd.Cgroups
