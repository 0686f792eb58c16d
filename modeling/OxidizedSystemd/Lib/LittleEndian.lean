import Mathlib.Data.List.Basic
import Mathlib.Data.Nat.ModEq

/-!
# Little-endian numbers

`toLe n v` is the list of the `n` low bytes of `v`, least significant first
(`to_le_bytes` of an `8n`-bit integer after a cast to it); `ofLe` is the number
that a list of bytes is (`from_le_bytes`).

* `ofLe_toLe`: the round trip keeps the low `8n` bits.
* `toLe_ofLe`: every list of bytes is the encoding of its number.
* `ofLe_zipWith_and`: a conjunction is taken byte by byte.
-/

namespace OxidizedSystemd.Lib

/-- A list of bytes. -/
abbrev Bytes := List UInt8

/-- The `n` low bytes of `v`. -/
def toLe : ℕ → ℕ → Bytes
  | 0, _ => []
  | n + 1, v => UInt8.ofNat v :: toLe n (v / 256)

/-- The number with the given bytes. -/
def ofLe : Bytes → ℕ
  | [] => 0
  | b :: bs => b.toNat + 256 * ofLe bs

@[simp] theorem length_toLe (n v : ℕ) : (toLe n v).length = n := by
  induction n generalizing v with
  | zero => rfl
  | succ n ih => rw [toLe, List.length_cons, ih]

/-- What is checked for the numbers of all bytes holds of every byte. -/
theorem forall_byte {P : UInt8 → Prop} (h : ∀ n < 256, P (UInt8.ofNat n)) (b : UInt8) : P b := by
  rw [← @UInt8.ofNat_toNat b]
  exact h b.toNat b.toNat_lt

theorem toNat_ofNat (v : ℕ) : (UInt8.ofNat v).toNat = v % 256 := by
  simp [UInt8.toNat_ofNat']

theorem ofLe_toLe (n v : ℕ) : ofLe (toLe n v) = v % 256 ^ n := by
  induction n generalizing v with
  | zero => rw [toLe, ofLe, pow_zero, Nat.mod_one]
  | succ n ih =>
    rw [toLe, ofLe, ih, toNat_ofNat, pow_succ', Nat.mod_mul]

theorem ofLe_toLe_of_lt {n v : ℕ} (h : v < 256 ^ n) : ofLe (toLe n v) = v := by
  rw [ofLe_toLe, Nat.mod_eq_of_lt h]

theorem ofLe_lt (bs : Bytes) : ofLe bs < 256 ^ bs.length := by
  induction bs with
  | nil => simp [ofLe]
  | cons b bs ih =>
    have hb := b.toNat_lt
    rw [ofLe, List.length_cons, pow_succ']
    omega

theorem toLe_ofLe (bs : Bytes) : toLe bs.length (ofLe bs) = bs := by
  induction bs with
  | nil => rfl
  | cons b bs ih =>
    have hb := b.toNat_lt
    have hdiv : (b.toNat + 256 * ofLe bs) / 256 = ofLe bs := by omega
    have hbyte : UInt8.ofNat (b.toNat + 256 * ofLe bs) = b := by
      apply UInt8.toNat_inj.mp
      rw [toNat_ofNat]
      omega
    rw [ofLe, List.length_cons, toLe, hdiv, ih, hbyte]

/-- A bitwise conjunction, byte by byte. -/
theorem ofLe_zipWith_and {as bs : Bytes} (h : as.length = bs.length) :
    ofLe (List.zipWith (· &&& ·) as bs) = ofLe as &&& ofLe bs := by
  induction as generalizing bs with
  | nil => rw [List.zipWith_nil_left, ofLe, Nat.zero_and]
  | cons a as ih =>
    obtain ⟨b, bs, rfl⟩ := List.exists_cons_of_length_eq_add_one h.symm
    have ha := a.toNat_lt
    have hb := b.toNat_lt
    have hdiv : ((a.toNat + 256 * ofLe as) &&& (b.toNat + 256 * ofLe bs)) / 2 ^ 8 =
        (a.toNat + 256 * ofLe as) / 2 ^ 8 &&& (b.toNat + 256 * ofLe bs) / 2 ^ 8 :=
      Nat.and_div_two_pow
    have hmod : ((a.toNat + 256 * ofLe as) &&& (b.toNat + 256 * ofLe bs)) % 2 ^ 8 =
        (a.toNat + 256 * ofLe as) % 2 ^ 8 &&& (b.toNat + 256 * ofLe bs) % 2 ^ 8 :=
      Nat.and_mod_two_pow
    rw [show (a.toNat + 256 * ofLe as) / 2 ^ 8 = ofLe as by omega,
      show (b.toNat + 256 * ofLe bs) / 2 ^ 8 = ofLe bs by omega] at hdiv
    rw [show (a.toNat + 256 * ofLe as) % 2 ^ 8 = a.toNat by omega,
      show (b.toNat + 256 * ofLe bs) % 2 ^ 8 = b.toNat by omega] at hmod
    rw [List.zipWith_cons_cons, ofLe, ofLe, ofLe, ih (Nat.succ.inj h), UInt8.toNat_and]
    omega

theorem ofLe_inj {as bs : Bytes} (hlen : as.length = bs.length) (h : ofLe as = ofLe bs) :
    as = bs := by
  rw [← toLe_ofLe as, ← toLe_ofLe bs, hlen, h]

end OxidizedSystemd.Lib
