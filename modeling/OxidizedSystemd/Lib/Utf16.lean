import Mathlib.Data.List.Basic
import Mathlib.Data.Nat.Notation

/-!
# UTF-16

`str::encode_utf16` and `String::from_utf16_lossy`, with code units as numbers below 2^16.

* `encodeUtf16_lt`: what is encoded is code units.
* `fromUtf16Lossy_encode`: what is encoded is decoded again.
-/

namespace OxidizedSystemd.Lib

/-- `char::encode_utf16`. -/
def encodeUtf16Char (c : Char) : List ℕ :=
  if c.toNat < 0x10000 then [c.toNat]
  else [0xD800 + (c.toNat - 0x10000) / 0x400, 0xDC00 + (c.toNat - 0x10000) % 0x400]

/-- `str::encode_utf16`. -/
def encodeUtf16 (cs : List Char) : List ℕ := cs.flatMap encodeUtf16Char

/-- The second half of a pair. -/
def isLowSurrogate (unit : ℕ) : Bool := 0xDC00 ≤ unit && unit ≤ 0xDFFF

/-- `String::from_utf16_lossy`. A half without its other half is replaced. -/
def fromUtf16Lossy : List ℕ → List Char
  | [] => []
  | unit :: units =>
    let decoded := fromUtf16Lossy units
    if unit < 0xD800 ∨ 0xDFFF < unit then Char.ofNat unit :: decoded
    else if isLowSurrogate unit then Char.ofNat 0xFFFD :: decoded
    else
      match units with
      | [] => [Char.ofNat 0xFFFD]
      | low :: rest =>
        if isLowSurrogate low then
          Char.ofNat (0x10000 + (unit - 0xD800) * 0x400 + (low - 0xDC00)) :: fromUtf16Lossy rest
        else Char.ofNat 0xFFFD :: decoded

theorem toNat_valid (c : Char) : c.toNat < 0xD800 ∨ 0xDFFF < c.toNat ∧ c.toNat < 0x110000 := c.valid

theorem encodeUtf16_lt {cs : List Char} {unit : ℕ} (h : unit ∈ encodeUtf16 cs) :
    unit < 0x10000 := by
  obtain ⟨c, -, hc⟩ := List.mem_flatMap.mp h
  have hvalid := toNat_valid c
  rw [encodeUtf16Char] at hc
  split at hc
  · rw [List.mem_singleton.mp hc]
    assumption
  · rcases List.mem_cons.mp hc with rfl | hc
    · omega
    · rw [List.mem_singleton.mp hc]
      omega

/-- A character without code unit 0 is not NUL. -/
theorem zero_mem_encodeUtf16Char {c : Char} (h : 0 ∈ encodeUtf16Char c) : c.toNat = 0 := by
  rw [encodeUtf16Char] at h
  split at h
  · exact (List.mem_singleton.mp h).symm
  · simp at h
    omega

theorem fromUtf16Lossy_encode_append (c : Char) (units : List ℕ) :
    fromUtf16Lossy (encodeUtf16Char c ++ units) = c :: fromUtf16Lossy units := by
  have hvalid := toNat_valid c
  rw [encodeUtf16Char]
  split
  · rename_i hlt
    rw [List.singleton_append, fromUtf16Lossy.eq_def]
    simp only
    rw [if_pos (by omega), Char.ofNat_toNat]
  · rename_i hge
    have hsum : 0x10000 + (0xD800 + (c.toNat - 0x10000) / 0x400 - 0xD800) * 0x400 +
        (0xDC00 + (c.toNat - 0x10000) % 0x400 - 0xDC00) = c.toNat := by omega
    have hhigh : isLowSurrogate (0xD800 + (c.toNat - 0x10000) / 0x400) = false := by
      simp [isLowSurrogate]
      omega
    have hlow : isLowSurrogate (0xDC00 + (c.toNat - 0x10000) % 0x400) = true := by
      simp [isLowSurrogate]
      omega
    rw [List.cons_append, List.singleton_append, fromUtf16Lossy, if_neg (by omega), hhigh]
    simp only [hlow, hsum, if_true, Char.ofNat_toNat]
    rfl

/-- What is encoded is decoded again. -/
theorem fromUtf16Lossy_encode (cs : List Char) : fromUtf16Lossy (encodeUtf16 cs) = cs := by
  induction cs with
  | nil => rfl
  | cons c cs ih =>
    rw [encodeUtf16, List.flatMap_cons, fromUtf16Lossy_encode_append]
    exact congrArg _ ih

end OxidizedSystemd.Lib
