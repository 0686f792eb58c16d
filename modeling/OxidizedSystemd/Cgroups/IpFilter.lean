import OxidizedSystemd.Cgroups.Emit
import OxidizedSystemd.Lib.IpAddr
import Mathlib.Data.List.Sort

/-!
# The IP filter

Model of `IPAddressAllow=` and `IPAddressDeny=` (`platform/cgroups/bpf_devices.rs`,
lines 585–875): the entries are resolved to prefixes, sorted, and compiled to an
eBPF program that takes the first prefix that matches.

* `buildIpFilterProgram`: the compiler, with its patches.
* `ipAddressProgram`: the program for the two lists and a direction.
* `skbVerdict`: what a program answers for a packet.
-/

namespace OxidizedSystemd.Cgroups

open OxidizedSystemd.Lib
open OxidizedSystemd.Lib.Ebpf

def SK_BUFF_DATA_OFF : Int16 := 76
def SK_BUFF_DATA_END_OFF : Int16 := 80
def IPV4_SRC_OFF : Int16 := 12
def IPV4_DST_OFF : Int16 := 16
def IPV6_SRC_OFF : Int16 := 8
def IPV6_DST_OFF : Int16 := 24
def BPF_JA : UInt8 := 0x05

/-! ## Prefixes -/

/-- The first half of `parse_ipv4_cidr` and of `parse_ipv6_cidr` (lines 618–625 and 656–663): an
    address of `n` octets, and a length that defaults to all of its bits. -/
def parseCidr (n : ℕ) (parseAddr : List Char → Option (Octets n)) (s : List Char) :
    Option (Prefix n) := do
  let (addr, len) ←
    match splitOnce ['/'] s with
    | some (a, l) => (fromStrRadix 10 255 (trim l)).map fun len => (a, len)
    | none => some (s, 8 * n)
  if h : len ≤ 8 * n then
    return ⟨← parseAddr (trim addr), len, h⟩
  else none

/-- `u32::from_le_bytes`. -/
def fromLeBytes (bs : Bytes) : UInt32 := UInt32.ofNat (ofLe bs)

/-- `u32::to_be_bytes`. -/
def toBeBytes (x : UInt32) : Bytes := (toLe 4 x.toNat).reverse

/-- `mask_be` (line 626). -/
def maskBe (len : ℕ) : UInt32 := if len = 0 then 0 else (~~~0) <<< UInt32.ofNat (32 - len)

/-- `parse_ipv4_cidr` (lines 617–641). -/
def parseIpv4Cidr (s : List Char) : Option (UInt32 × UInt32 × ℕ) :=
  (parseCidr 4 parseIpv4 s).map fun p =>
    let maskOctets := toBeBytes (maskBe p.len)
    (fromLeBytes (maskBytes p.octets.1 maskOctets), fromLeBytes maskOctets, p.len)

/-- `ipv4_prefix_from_entry` (lines 645–654). -/
def ipv4PrefixFromEntry (entry : List Char) : Option (UInt32 × UInt32 × ℕ) :=
  let e := trim entry
  if e = "any".toList then some (0, 0, 0)
  else if e = "localhost".toList then parseIpv4Cidr "127.0.0.0/8".toList
  else if e = "link-local".toList then parseIpv4Cidr "169.254.0.0/16".toList
  else if e = "multicast".toList then parseIpv4Cidr "224.0.0.0/4".toList
  else if ':' ∈ e then none
  else parseIpv4Cidr e

/-- An IPv6 address or mask as four words. -/
abbrev Words := Fin 4 → UInt32

/-- The four octets of a word. -/
def wordOctets (bs : Bytes) (i : Fin 4) : Bytes := (bs.drop (4 * i)).take 4

/-- `parse_ipv6_cidr` (lines 660–705). -/
def parseIpv6Cidr (s : List Char) : Option (Words × Words × ℕ) :=
  (parseCidr 16 parseIpv6 s).map fun p =>
    let maskOctets := prefixMask 16 p.len
    (fun i => fromLeBytes (maskBytes (wordOctets p.octets.1 i) (wordOctets maskOctets i)),
      fun i => fromLeBytes (wordOctets maskOctets i), p.len)

/-- `ipv6_prefix_from_entry` (lines 710–719). -/
def ipv6PrefixFromEntry (entry : List Char) : Option (Words × Words × ℕ) :=
  let e := trim entry
  if e = "any".toList then some (fun _ => 0, fun _ => 0, 0)
  else if e = "localhost".toList then parseIpv6Cidr "::1/128".toList
  else if e = "link-local".toList then parseIpv6Cidr "fe80::/64".toList
  else if e = "multicast".toList then parseIpv6Cidr "ff00::/8".toList
  else if ':' ∈ e then parseIpv6Cidr e
  else none

/-! ## The program -/

/-- A prefix with its verdict, over the words of one family. -/
structure FilterRule (W : Type) where
  network : W
  mask : W
  verdict : Int32

/-- The five instructions of an IPv4 prefix (lines 761–765). -/
def v4Block (rule : FilterRule UInt32) : List Insn :=
  [mov64Reg R7 R6, alu32AndImm R7 rule.mask.toInt32, jne32Imm R7 rule.network.toInt32 2,
    mov64Imm R0 rule.verdict, exitInsn]

/-- The registers of the four words (line 784). -/
def wordReg : Fin 4 → UInt8
  | 0 => R6
  | 1 => R7
  | 2 => R8
  | 3 => R9

/-- The block of an IPv6 prefix (lines 786–799), behind the instructions so far. -/
def emitV6Block (insns : List Insn) (rule : FilterRule Words) : List Insn :=
  let b := [0, 1, 2, 3].foldl (fun (b : Emitter) w =>
    let b := b.push (mov64Reg R5 (wordReg w))
    let b := b.push (alu32AndImm R5 (rule.mask w).toInt32)
    b.pushSkip (jne32Imm R5 (rule.network w).toInt32 0)) ⟨insns, []⟩
  let b := b.push (mov64Imm R0 rule.verdict)
  let b := b.push exitInsn
  b.patchSkips

/-- `build_ip_filter_program` (lines 725–815). -/
def buildIpFilterProgram (v4 : List (FilterRule UInt32)) (v6 : List (FilterRule Words))
    (defaultVerdict : Int32) (egress : Bool) : List Insn :=
  let v4Off := if egress then IPV4_DST_OFF else IPV4_SRC_OFF
  let v6Off := if egress then IPV6_DST_OFF else IPV6_SRC_OFF
  -- the version nibble
  let insns := [ldxMemW R2 R1 SK_BUFF_DATA_OFF, ldxMemW R3 R1 SK_BUFF_DATA_END_OFF,
    mov64Reg R4 R2, alu64AddImm R4 1]
  let allowPatches := [insns.length]
  let insns := insns ++ [jgtReg R4 R3 0, ldxMemB R5 R2 0, alu64RshImm R5 4]
  let toV6 := insns.length
  let insns := insns ++ [jne32Imm R5 4 0]
  -- the IPv4 path
  let insns := insns ++ [mov64Reg R4 R2, alu64AddImm R4 20]
  let allowPatches := allowPatches ++ [insns.length]
  let insns := insns ++ [jgtReg R4 R3 0, ldxMemW R6 R2 v4Off]
  let insns := v4.foldl (fun insns rule => insns ++ v4Block rule) insns
  let defaultPatches := [insns.length]
  let insns := insns ++ [insn BPF_JA 0 0 0 0]
  -- the IPv6 path
  let insns := patch insns.length insns toV6
  let allowPatches := allowPatches ++ [insns.length]
  let insns := insns ++ [jne32Imm R5 6 0, mov64Reg R4 R2, alu64AddImm R4 40]
  let allowPatches := allowPatches ++ [insns.length]
  let insns := insns ++ [jgtReg R4 R3 0, ldxMemW R6 R2 v6Off, ldxMemW R7 R2 (v6Off + 4),
    ldxMemW R8 R2 (v6Off + 8), ldxMemW R9 R2 (v6Off + 12)]
  let insns := v6.foldl emitV6Block insns
  let defaultPatches := defaultPatches ++ [insns.length]
  let insns := insns ++ [insn BPF_JA 0 0 0 0]
  -- the tails
  let defaultIdx := insns.length
  let insns := insns ++ [mov64Imm R0 defaultVerdict, exitInsn]
  let allowIdx := insns.length
  let insns := insns ++ [mov64Imm R0 1, exitInsn]
  allowPatches.foldl (patch allowIdx) (defaultPatches.foldl (patch defaultIdx) insns)

/-! ## The policy of a unit -/

/-- A resolved entry of one of the lists. -/
structure Entry (W : Type) where
  network : W
  mask : W
  len : ℕ
  isAllow : Bool

/-- The entries of both lists that have a prefix in a family (lines 834–843). -/
def entries {W : Type} (prefixFromEntry : List Char → Option (W × W × ℕ))
    (allow deny : List (List Char)) : List (Entry W) :=
  let resolve isAllow e := (prefixFromEntry e).map fun p => Entry.mk p.1 p.2.1 p.2.2 isAllow
  allow.filterMap (resolve true) ++ deny.filterMap (resolve false)

/-- The comparison of lines 845–846: the longer one first, and at one length what is allowed. -/
def Entry.Before {W : Type} (a b : Entry W) : Prop :=
  b.len < a.len ∨ b.len = a.len ∧ b.isAllow ≤ a.isAllow

instance {W : Type} : DecidableRel (Entry.Before (W := W)) := fun a b =>
  inferInstanceAs (Decidable (b.len < a.len ∨ b.len = a.len ∧ b.isAllow ≤ a.isAllow))

/-- Lines 845–854: sorted, and with a verdict for the list it comes from. -/
def filterRules {W : Type} (es : List (Entry W)) : List (FilterRule W) :=
  (es.insertionSort Entry.Before).map fun e => ⟨e.network, e.mask, if e.isAllow then 1 else 0⟩

/-- The program that `apply_ip_address_policy` attaches in one direction (lines 822–860). -/
def ipAddressProgram (allow deny : List (List Char)) (egress : Bool) : List Insn :=
  buildIpFilterProgram (filterRules (entries ipv4PrefixFromEntry allow deny))
    (filterRules (entries ipv6PrefixFromEntry allow deny)) (if allow.isEmpty then 1 else 0) egress

/-- The context of a packet: where its data begins and ends. -/
def skbMachine (packet : Bytes) : Machine where
  context off :=
    if off = 76 then some (.packet 0)
    else if off = 80 then some (.packet packet.length)
    else none
  packet := packet

/-- What a program answers for a packet. -/
def skbVerdict (prog : List Insn) (packet : Bytes) : Option UInt64 :=
  run (skbMachine packet) prog prog.length 0 Regs.initial

end OxidizedSystemd.Cgroups
