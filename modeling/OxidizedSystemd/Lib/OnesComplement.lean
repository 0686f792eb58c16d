import OxidizedSystemd.Lib.LittleEndian

/-!
# One's complement sums

Words of 16 bits added with the carry put back at the low end. The sum of words is the
representative of their sum modulo 65535 that is zero only if all words are.

* `onesSum_eq`: the one's complement sum of words from their sum.
* `foldCarries_eq`: adding all carries at the end gives the same.
* `onesRep_complement`: with the complement of their sum, words add up to all ones.
-/

namespace OxidizedSystemd.Lib

/-- The representative of a sum modulo 65535, zero for zero only. -/
def onesRep (n : ℕ) : ℕ := if n = 0 then 0 else (n - 1) % 65535 + 1

/-- Addition with the carry put back. -/
def onesAdd (a b : ℕ) : ℕ := if a + b < 65536 then a + b else a + b - 65535

/-- The one's complement sum. -/
def onesSum (words : List ℕ) : ℕ := words.foldl onesAdd 0

/-- The carries of a sum put back until there are none. -/
def foldCarries (sum : ℕ) : ℕ :=
  if sum / 65536 ≠ 0 then foldCarries (sum % 65536 + sum / 65536) else sum
termination_by sum

variable {m n : ℕ} {words : List ℕ}

theorem onesRep_lt (n : ℕ) : onesRep n < 65536 := by
  rw [onesRep]
  split
  · omega
  · omega

theorem onesRep_of_lt (h : n < 65536) : onesRep n = n := by
  rw [onesRep]
  split
  · omega
  · omega

/-- Numbers that are both zero or both not, with the same remainder, have one representative. -/
theorem onesRep_congr (hzero : m = 0 ↔ n = 0) (hmod : m % 65535 = n % 65535) :
    onesRep m = onesRep n := by
  rw [onesRep, onesRep]
  by_cases hn : n = 0
  · rw [if_pos hn, if_pos (hzero.mpr hn)]
  · have hm : m ≠ 0 := fun h => hn (hzero.mp h)
    rw [if_neg hn, if_neg hm]
    omega

theorem onesRep_mod (n : ℕ) : onesRep n % 65535 = n % 65535 := by
  rw [onesRep]
  split
  · omega
  · omega

theorem onesRep_eq_zero_iff : onesRep n = 0 ↔ n = 0 := by
  rw [onesRep]
  split
  · omega
  · omega

theorem foldCarries_eq (sum : ℕ) : foldCarries sum = onesRep sum := by
  induction sum using foldCarries.induct with
  | case1 sum hcarry ih =>
    rw [foldCarries, if_pos hcarry, ih]
    apply onesRep_congr
    · omega
    · omega
  | case2 sum hnone =>
    rw [foldCarries, if_neg hnone, onesRep_of_lt (by omega)]

theorem onesAdd_onesRep (m : ℕ) (hn : n < 65536) : onesAdd (onesRep m) n = onesRep (m + n) := by
  have hlt := onesRep_lt m
  have hmod := onesRep_mod m
  have hzero := @onesRep_eq_zero_iff m
  have hadd : onesAdd (onesRep m) n = onesRep (onesRep m + n) := by
    rw [onesAdd]
    split
    · rename_i hsmall
      rw [onesRep_of_lt hsmall]
    · have : onesRep (onesRep m + n) = onesRep (onesRep m + n - 65535) := by
        apply onesRep_congr
        · omega
        · omega
      rw [this]
      exact (onesRep_of_lt (by omega)).symm
  rw [hadd]
  apply onesRep_congr
  · omega
  · omega

/-- Words add up to the representative of their sum. -/
theorem onesSum_eq (h : ∀ w ∈ words, w < 65536) : onesSum words = onesRep words.sum := by
  have hfrom : ∀ m, words.foldl onesAdd (onesRep m) = onesRep (m + words.sum) := by
    induction words with
    | nil => simp
    | cons w words ih =>
      obtain ⟨hw, hrest⟩ := List.forall_mem_cons.mp h
      intro m
      rw [List.foldl_cons, onesAdd_onesRep m hw, ih hrest, List.sum_cons, Nat.add_assoc]
  have hzero : onesRep 0 = 0 := if_pos rfl
  have hsum := hfrom 0
  rwa [hzero, Nat.zero_add] at hsum

/-- A sum and the complement of its representative give all ones. -/
theorem onesRep_complement (n : ℕ) : onesRep (n + (65535 - onesRep n)) = 65535 := by
  have hlt := onesRep_lt n
  have hmod := onesRep_mod n
  have hzero := @onesRep_eq_zero_iff n
  rw [onesRep, if_neg (by omega)]
  omega

end OxidizedSystemd.Lib
