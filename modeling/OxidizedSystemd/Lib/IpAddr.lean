import OxidizedSystemd.Lib.LittleEndian
import OxidizedSystemd.Lib.Text

/-!
# IP addresses and their prefixes

The addresses of both families are lists of octets. They are read as the Rust
standard library reads them (`Ipv4Addr::from_str`, `Ipv6Addr::from_str`).

* `parseIpv4`, `parseIpv6`: the textual forms of an address.
* `Prefix.Contains`: an address begins with the bits of a prefix.
* `Prefix.contains_iff_masked`: an address is in a prefix when both agree under
  the mask of the prefix.
-/

namespace OxidizedSystemd.Lib

/-- An address of `n` octets, in network order. -/
abbrev Octets (n : ℕ) := { bs : Bytes // bs.length = n }

/-! ## Parsing -/

/-- `read_number`: the digits that come next, at most `maxDigits` of them. -/
def readNumber (radix maxDigits max : ℕ) (allowZeroPrefix : Bool) (cs : List Char) :
    Option (ℕ × List Char) :=
  let digits := cs.takeWhile fun c => (toDigit radix c).isSome
  if digits.length = 0 ∨ maxDigits < digits.length then none
  else if allowZeroPrefix = false ∧ digits.head? = some '0' ∧ 1 < digits.length then none
  else (parseDigits radix max 0 digits).map fun n => (n, cs.drop digits.length)

/-- `read_given_char`. -/
def readGivenChar (c : Char) : List Char → Option (List Char)
  | [] => none
  | d :: cs => if d = c then some cs else none

/-- An octet of a dotted address. -/
def readOctet (cs : List Char) : Option (UInt8 × List Char) :=
  (readNumber 10 3 255 false cs).map fun p => (UInt8.ofNat p.1, p.2)

/-- `read_ipv4_addr`. -/
def readIpv4 (cs : List Char) : Option (Octets 4 × List Char) := do
  let (a, cs) ← readOctet cs
  let cs ← readGivenChar '.' cs
  let (b, cs) ← readOctet cs
  let cs ← readGivenChar '.' cs
  let (c, cs) ← readOctet cs
  let cs ← readGivenChar '.' cs
  let (d, cs) ← readOctet cs
  return (⟨[a, b, c, d], rfl⟩, cs)

/-- `Ipv4Addr::from_str`. -/
def parseIpv4 (cs : List Char) : Option (Octets 4) :=
  if 15 < cs.length then none
  else
    match readIpv4 cs with
    | some (addr, []) => some addr
    | _ => none

/-- What follows the colon between two groups; the first group has none. -/
def readSeparated {α : Type} (first : Bool) (read : List Char → Option (α × List Char))
    (cs : List Char) : Option (α × List Char) :=
  if first then read cs else (readGivenChar ':' cs).bind read

/-- The octets of a group of 16 bits. -/
def groupOctets (group : ℕ) : Bytes := [UInt8.ofNat (group / 256), UInt8.ofNat group]

/-- `read_groups` of at most `limit` groups: their octets, whether the last two are a dotted
    address, and the rest. -/
def readGroups : Bool → ℕ → List Char → Bytes × Bool × List Char
  | _, 0, cs => ([], false, cs)
  | first, limit + 1, cs =>
    match if 0 < limit then readSeparated first readIpv4 cs else none with
    | some (addr, cs) => (addr.1, true, cs)
    | none =>
      match readSeparated first (readNumber 16 4 65535 true) cs with
      | some (group, cs) =>
        let (octets, embedded, cs) := readGroups false limit cs
        (groupOctets group ++ octets, embedded, cs)
      | none => ([], false, cs)

theorem length_readGroups (first : Bool) (limit : ℕ) (cs : List Char) :
    (readGroups first limit cs).1.length ≤ 2 * limit := by
  induction limit generalizing first cs with
  | zero => exact Nat.le_refl 0
  | succ limit ih =>
    unfold readGroups
    split
    · rename_i addr cs' hread
      split at hread
      · have := addr.2
        dsimp only
        omega
      · cases hread
    · split
      · rename_i group cs' _
        have := ih false cs'
        dsimp only
        rw [List.length_append]
        simp only [groupOctets, List.length_cons, List.length_nil]
        omega
      · exact Nat.zero_le _

/-- `read_ipv6_addr`: eight groups, or some groups on both sides of `::`. -/
def readIpv6 (cs : List Char) : Option (Octets 16 × List Char) :=
  let head := readGroups true 8 cs
  if h : head.1.length = 16 then some (⟨head.1, h⟩, head.2.2)
  else if head.2.1 then none
  else
    match head.2.2 with
    | ':' :: ':' :: rest =>
      let tail := readGroups true (8 - (head.1.length / 2 + 1)) rest
      some (⟨head.1 ++ List.replicate (16 - head.1.length - tail.1.length) 0 ++ tail.1, by
        have hhead : head.1.length ≤ 2 * 8 := length_readGroups true 8 cs
        have htail : tail.1.length ≤ 2 * (8 - (head.1.length / 2 + 1)) :=
          length_readGroups true _ rest
        rw [List.length_append, List.length_append, List.length_replicate]
        omega⟩, tail.2.2)
    | _ => none

/-- `Ipv6Addr::from_str`. -/
def parseIpv6 (cs : List Char) : Option (Octets 16) :=
  match readIpv6 cs with
  | some (addr, []) => some addr
  | _ => none

/-! ## Prefixes -/

/-- The first `len` bits of an address of `n` octets. -/
structure Prefix (n : ℕ) where
  octets : Octets n
  len : ℕ
  len_le : len ≤ 8 * n
  deriving DecidableEq

/-- A bit of an address, the first one being the most significant bit of the first octet. -/
def addrBit (bs : Bytes) (i : ℕ) : Bool := (bs.getD (i / 8) 0).toNat.testBit (7 - i % 8)

def Prefix.Contains {n : ℕ} (p : Prefix n) (addr : Bytes) : Prop :=
  ∀ i < p.len, addrBit addr i = addrBit p.octets.1 i

instance {n : ℕ} (p : Prefix n) (addr : Bytes) : Decidable (p.Contains addr) :=
  Nat.decidableBallLT p.len fun i _ => addrBit addr i = addrBit p.octets.1 i

/-- The mask of the first `len` bits of `n` octets. -/
def prefixMask : ℕ → ℕ → Bytes
  | 0, _ => []
  | n + 1, len =>
    if 8 ≤ len then 0xff :: prefixMask n (len - 8)
    else if 0 < len then (0xff <<< UInt8.ofNat (8 - len)) :: prefixMask n 0
    else List.replicate (n + 1) 0

/-- Octet by octet. -/
def maskBytes (bs mask : Bytes) : Bytes := List.zipWith (· &&& ·) bs mask

theorem length_prefixMask (n len : ℕ) : (prefixMask n len).length = n := by
  induction n generalizing len with
  | zero => rfl
  | succ n ih =>
    unfold prefixMask
    split
    · rw [List.length_cons, ih]
    · split
      · rw [List.length_cons, ih]
      · exact List.length_replicate

/-- The mask of an octet. -/
def octetMask (len : ℕ) : UInt8 :=
  if 8 ≤ len then 0xff else if 0 < len then 0xff <<< UInt8.ofNat (8 - len) else 0

theorem prefixMask_zero (n : ℕ) : prefixMask n 0 = List.replicate n 0 := by
  cases n with
  | zero => rfl
  | succ n => rfl

theorem prefixMask_succ (n len : ℕ) :
    prefixMask (n + 1) len = octetMask len :: prefixMask n (len - 8) := by
  unfold octetMask
  rw [prefixMask]
  split
  · rfl
  · rename_i h8
    rw [Nat.sub_eq_zero_of_le (Nat.le_of_lt (Nat.not_le.mp h8)), prefixMask_zero]
    split
    · rfl
    · rfl

theorem testBit_octetMask (len : ℕ) {i : ℕ} (hi : i < 8) :
    (octetMask len).toNat.testBit (7 - i) = decide (i < len) := by
  by_cases h8 : 8 ≤ len
  · have hall : ∀ i < 8, (0xff : UInt8).toNat.testBit (7 - i) = true := by decide
    rw [octetMask, if_pos h8, hall i hi, decide_eq_true (Nat.lt_of_lt_of_le hi h8)]
  · have hall : ∀ len < 8, ∀ i < 8, (octetMask len).toNat.testBit (7 - i) = decide (i < len) := by
      decide
    exact hall len (Nat.not_le.mp h8) i hi

/-- Two octets agree under a mask when they begin with the same bits. -/
theorem and_octetMask_iff (a b : UInt8) (len : ℕ) : a &&& octetMask len = b &&& octetMask len ↔
    ∀ i < 8, i < len → a.toNat.testBit (7 - i) = b.toNat.testBit (7 - i) := by
  rw [← UInt8.toNat_inj, UInt8.toNat_and, UInt8.toNat_and]
  constructor
  · intro h i hi hlen
    have := congrArg (Nat.testBit · (7 - i)) h
    simpa [testBit_octetMask len hi, hlen] using this
  · intro h
    refine Nat.eq_of_testBit_eq fun j => ?_
    rw [Nat.testBit_and, Nat.testBit_and]
    by_cases hj : j < 8
    · have hmask := testBit_octetMask len (i := 7 - j) (by omega)
      have hbits := h (7 - j) (by omega)
      rw [Nat.sub_sub_self (by omega)] at hmask hbits
      rw [hmask]
      by_cases hlen : 7 - j < len
      · rw [hbits hlen]
      · rw [decide_eq_false hlen, Bool.and_false, Bool.and_false]
    · have hhigh : ∀ x : UInt8, x.toNat.testBit j = false := fun x =>
        Nat.testBit_lt_two_pow (Nat.lt_of_lt_of_le x.toNat_lt
          (Nat.pow_le_pow_right (by decide) (Nat.not_lt.mp hj)))
      rw [hhigh a, hhigh b]

theorem addrBit_cons_lt (b : UInt8) (bs : Bytes) {i : ℕ} (h : i < 8) :
    addrBit (b :: bs) i = b.toNat.testBit (7 - i) := by
  rw [addrBit, Nat.div_eq_of_lt h, Nat.mod_eq_of_lt h]
  rfl

theorem addrBit_cons_add (b : UInt8) (bs : Bytes) (i : ℕ) :
    addrBit (b :: bs) (i + 8) = addrBit bs i := by
  rw [addrBit, addrBit, Nat.add_mod_right, Nat.add_div_right i (by decide)]
  rfl

/-- Two addresses agree under a mask when they begin with the same bits. -/
theorem masked_iff {as bs : Bytes} {n : ℕ} (ha : as.length = n) (hb : bs.length = n) {len : ℕ}
    (hlen : len ≤ 8 * n) : maskBytes as (prefixMask n len) = maskBytes bs (prefixMask n len) ↔
      ∀ i < len, addrBit as i = addrBit bs i := by
  induction n generalizing as bs len with
  | zero =>
    obtain rfl := List.length_eq_zero_iff.mp ha
    obtain rfl := List.length_eq_zero_iff.mp hb
    exact ⟨fun _ i _ => rfl, fun _ => rfl⟩
  | succ n ih =>
    obtain ⟨a, as, rfl⟩ := List.exists_cons_of_length_eq_add_one ha
    obtain ⟨b, bs, rfl⟩ := List.exists_cons_of_length_eq_add_one hb
    have ih := ih (Nat.succ.inj ha) (Nat.succ.inj hb) (show len - 8 ≤ 8 * n by omega)
    rw [prefixMask_succ, maskBytes, maskBytes, List.zipWith_cons_cons, List.zipWith_cons_cons,
      List.cons.injEq, and_octetMask_iff, ← maskBytes, ← maskBytes, ih]
    constructor
    · rintro ⟨hfirst, hrest⟩ i hi
      by_cases h8 : i < 8
      · rw [addrBit_cons_lt a as h8, addrBit_cons_lt b bs h8]
        exact hfirst i h8 hi
      · obtain ⟨i, rfl⟩ := Nat.exists_eq_add_of_le' (Nat.not_lt.mp h8)
        rw [addrBit_cons_add, addrBit_cons_add]
        exact hrest i (by omega)
    · intro h
      refine ⟨fun i h8 hi => ?_, fun i hi => ?_⟩
      · have := h i hi
        rwa [addrBit_cons_lt a as h8, addrBit_cons_lt b bs h8] at this
      · have := h (i + 8) (by omega)
        rwa [addrBit_cons_add, addrBit_cons_add] at this

/-- The mask of a prefix. -/
def Prefix.mask {n : ℕ} (p : Prefix n) : Bytes := prefixMask n p.len

/-- An address is in a prefix when both agree under the mask. -/
theorem Prefix.contains_iff_masked {n : ℕ} (p : Prefix n) {addr : Bytes} (h : addr.length = n) :
    p.Contains addr ↔ maskBytes addr p.mask = maskBytes p.octets.1 p.mask :=
  (masked_iff h p.octets.2 p.len_le).symm

end OxidizedSystemd.Lib
