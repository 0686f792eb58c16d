import Mathlib.Tactic.Ring
import OxidizedSystemd.Lib.LittleEndian
import OxidizedSystemd.Lib.Text

/-!
# Hexadecimal text of bytes

The digits of a number at a fixed width, and those of bytes one after another.

* `hexPad_eq`: `{:0width$x}` is the digits at that width, where they suffice.
* `hexDigits_ofLe_reverse`: the digits of a number are those of its bytes from the most
  significant on.
* `digitChar_of_toDigit`: a digit that is read is printed in lower case.
* `bytesOfHex_hexOfBytes`: the bytes are read back from their digits.
-/

namespace OxidizedSystemd.Lib

/-- The last `width` digits of a number. -/
def hexDigits : ℕ → ℕ → List Char
  | 0, _ => []
  | width + 1, n => hexDigits width (n / 16) ++ [Nat.digitChar (n % 16)]

/-- The digits of bytes, `{:02x}` of each. -/
def hexOfBytes (bs : Bytes) : List Char := bs.flatMap fun b => hexDigits 2 b.toNat

theorem hexDigits_succ (width n : ℕ) :
    hexDigits (width + 1) n = hexDigits width (n / 16) ++ [Nat.digitChar (n % 16)] := rfl

@[simp] theorem length_hexDigits (width n : ℕ) : (hexDigits width n).length = width := by
  induction width generalizing n with
  | zero => rfl
  | succ width ih => rw [hexDigits_succ, List.length_append, ih, List.length_singleton]

theorem hexDigits_zero (width : ℕ) : hexDigits width 0 = List.replicate width '0' := by
  induction width with
  | zero => rfl
  | succ width ih =>
    rw [hexDigits_succ, Nat.zero_div, ih, List.replicate_succ']
    rfl

theorem hexPad_eq {width n : ℕ} (hpos : 0 < width) (h : n < 16 ^ width) :
    hexPad width n = hexDigits width n := by
  induction width generalizing n with
  | zero => omega
  | succ width ih =>
    by_cases hn : n < 16
    · rw [hexPad, hex, Nat.toDigits_of_lt_base hn, hexDigits_succ, Nat.div_eq_of_lt hn,
        Nat.mod_eq_of_lt hn, hexDigits_zero]
      rfl
    · have hdiv : n / 16 < 16 ^ width := by
        rw [Nat.pow_succ] at h
        omega
      have hwidth : 0 < width := by
        apply Nat.pos_of_ne_zero
        rintro rfl
        simp at h
        omega
      rw [hexDigits_succ, ← ih hwidth hdiv, hexPad, hexPad, hex, hex,
        Nat.toDigits_of_base_le (by decide) (Nat.not_lt.mp hn), List.length_append,
        List.length_singleton, Nat.add_sub_add_right, List.append_assoc]

theorem hexDigits_add (m : ℕ) {n r : ℕ} (a : ℕ) (h : r < 16 ^ n) :
    hexDigits (m + n) (a * 16 ^ n + r) = hexDigits m a ++ hexDigits n r := by
  induction n generalizing r with
  | zero =>
    obtain rfl : r = 0 := by simpa using h
    rw [pow_zero, Nat.mul_one]
    exact (List.append_nil _).symm
  | succ n ih =>
    have hr : r / 16 < 16 ^ n := by
      rw [Nat.pow_succ] at h
      omega
    have hshift : a * 16 ^ (n + 1) = 16 * (a * 16 ^ n) := by ring
    have hdiv : (a * 16 ^ (n + 1) + r) / 16 = a * 16 ^ n + r / 16 := by omega
    have hmod : (a * 16 ^ (n + 1) + r) % 16 = r % 16 := by omega
    rw [← Nat.add_assoc, hexDigits_succ, hdiv, hmod, ih hr, hexDigits_succ, List.append_assoc]

theorem ofLe_append (as bs : Bytes) : ofLe (as ++ bs) = ofLe as + 256 ^ as.length * ofLe bs := by
  induction as with
  | nil => simp [ofLe]
  | cons a as ih =>
    rw [List.cons_append, ofLe, ih, ofLe, List.length_cons, pow_succ']
    ring

/-- The digits of a number are those of its bytes. -/
theorem hexDigits_ofLe_reverse (bs : Bytes) :
    hexDigits (2 * bs.length) (ofLe bs.reverse) = hexOfBytes bs := by
  induction bs with
  | nil => rfl
  | cons b bs ih =>
    have hlt := ofLe_lt bs.reverse
    have hpow : (256 : ℕ) ^ bs.length = 16 ^ (2 * bs.length) := by
      rw [Nat.pow_mul]
    rw [List.length_reverse, hpow] at hlt
    have hvalue : ofLe (b :: bs).reverse = b.toNat * 16 ^ (2 * bs.length) + ofLe bs.reverse := by
      rw [List.reverse_cons, ofLe_append, List.length_reverse, hpow]
      simp only [ofLe]
      ring
    rw [hvalue, List.length_cons, show 2 * (bs.length + 1) = 2 + 2 * bs.length by omega,
      hexDigits_add 2 _ hlt, ih]
    rfl

/-- The two digits of a byte. -/
theorem hexDigits_two (n : ℕ) :
    hexDigits 2 n = [Nat.digitChar (n / 16 % 16), Nat.digitChar (n % 16)] := rfl

theorem length_hexOfBytes (bs : Bytes) : (hexOfBytes bs).length = 2 * bs.length := by
  induction bs with
  | nil => rfl
  | cons b bs ih =>
    rw [hexOfBytes, List.flatMap_cons, List.length_append, length_hexDigits, ← hexOfBytes, ih,
      List.length_cons]
    omega

theorem hexOfBytes_append (as bs : Bytes) :
    hexOfBytes (as ++ bs) = hexOfBytes as ++ hexOfBytes bs := List.flatMap_append

theorem hexOfBytes_take (bs : Bytes) {n : ℕ} (h : n ≤ bs.length) :
    hexOfBytes (bs.take n) = (hexOfBytes bs).take (2 * n) := by
  have hlen : (hexOfBytes (bs.take n)).length = 2 * n := by
    rw [length_hexOfBytes, List.length_take, Nat.min_eq_left h]
  conv_rhs => rw [← List.take_append_drop n bs, hexOfBytes_append, ← hlen, List.take_left]

theorem hexOfBytes_drop (bs : Bytes) {n : ℕ} (h : n ≤ bs.length) :
    hexOfBytes (bs.drop n) = (hexOfBytes bs).drop (2 * n) := by
  have hlen : (hexOfBytes (bs.take n)).length = 2 * n := by
    rw [length_hexOfBytes, List.length_take, Nat.min_eq_left h]
  conv_rhs => rw [← List.take_append_drop n bs, hexOfBytes_append, ← hlen, List.drop_left]

/-- A digit that is read is printed in lower case. -/
theorem digitChar_of_toDigit {c : Char} {d : ℕ} (h : toDigit 16 c = some d) :
    Nat.digitChar d = c.toLower ∧ d < 16 ∧ c.toNat < 128 := by
  have hlt : c.toNat < 128 := by
    apply Nat.lt_of_not_le
    intro hle
    simp [toDigit, show ¬ c.toNat ≤ 57 by omega, show ¬ c.toNat ≤ 122 by omega,
      show ¬ c.toNat ≤ 90 by omega] at h
  have hall : ∀ n < 128, ∀ d, toDigit 16 (Char.ofNat n) = some d →
      Nat.digitChar d = (Char.ofNat n).toLower ∧ d < 16 := by
    intro n hn d hd
    have hdec : ∀ n < 128, (toDigit 16 (Char.ofNat n)).all fun d =>
        Nat.digitChar d = (Char.ofNat n).toLower && d < 16 := by decide
    have := hdec n hn
    rw [hd] at this
    simpa using this
  have hc := hall c.toNat hlt d
  rw [Char.ofNat_toNat] at hc
  exact ⟨(hc h).1, (hc h).2, hlt⟩

/-- The bytes of pairs of digits, each read with `u8::from_str_radix`. -/
def bytesOfHex : List Char → Option Bytes
  | [] => some []
  | [_] => none
  | c :: d :: cs => do
    let b ← fromStrRadix 16 255 [c, d]
    let bs ← bytesOfHex cs
    some (UInt8.ofNat b :: bs)

theorem fromStrRadix_hexDigits : ∀ n < 256, fromStrRadix 16 255 (hexDigits 2 n) = some n := by
  set_option maxRecDepth 20000 in decide

theorem bytesOfHex_hexOfBytes (bs : Bytes) : bytesOfHex (hexOfBytes bs) = some bs := by
  induction bs with
  | nil => rfl
  | cons b bs ih =>
    have hb := fromStrRadix_hexDigits b.toNat b.toNat_lt
    rw [hexDigits_two] at hb
    rw [hexOfBytes, List.flatMap_cons, ← hexOfBytes, hexDigits_two, List.cons_append,
      List.cons_append, List.nil_append, bytesOfHex, hb, ih]
    exact congrArg (fun x => some (x :: bs)) (UInt8.ofNat_toNat)

/-- Only digits are printed. -/
theorem mem_hexOfBytes {bs : Bytes} {c : Char} (h : c ∈ hexOfBytes bs) :
    ∃ d < 16, c = Nat.digitChar d := by
  obtain ⟨b, -, hc⟩ := List.mem_flatMap.mp h
  rw [hexDigits_two, List.mem_pair] at hc
  cases hc with
  | inl hc => exact ⟨_, Nat.mod_lt _ (by decide), hc⟩
  | inr hc => exact ⟨_, Nat.mod_lt _ (by decide), hc⟩

end OxidizedSystemd.Lib
