import OxidizedSystemd.Lib.LittleEndian
import OxidizedSystemd.Lib.Text
import Mathlib.Data.String.Basic

/-!
# Strings as UTF-8

* `asBytes`: `str::as_bytes`.
* `fromUtf8Lossy`: `String::from_utf8_lossy`, with U+FFFD for what is not UTF-8.
* `fromUtf8`: `String::from_utf8`, `none` for its error.
* `fromUtf8Lossy_asBytes`, `fromUtf8_asBytes`: the encoding of a string is decoded to it.
-/

namespace OxidizedSystemd.Lib

/-- The UTF-8 encoding of a string. -/
def asBytes (s : String) : Bytes := s.toList.flatMap String.utf8EncodeChar

/-- A continuation byte. -/
def isContinuation (b : UInt8) : Bool := 0x80 ≤ b && b ≤ 0xBF

/-- The second bytes that a three-byte sequence may have after its first. -/
def isSecondOfThree (b c : UInt8) : Bool :=
  (b == 0xE0 && 0xA0 ≤ c && c ≤ 0xBF) || (0xE1 ≤ b && b ≤ 0xEC && isContinuation c) ||
  (b == 0xED && 0x80 ≤ c && c ≤ 0x9F) || (0xEE ≤ b && b ≤ 0xEF && isContinuation c)

/-- The second bytes that a four-byte sequence may have after its first. -/
def isSecondOfFour (b c : UInt8) : Bool :=
  (b == 0xF0 && 0x90 ≤ c && c ≤ 0xBF) || (0xF1 ≤ b && b ≤ 0xF3 && isContinuation c) ||
  (b == 0xF4 && 0x80 ≤ c && c ≤ 0x8F)

/-- How many bytes of a sequence that does not decode one U+FFFD stands for: as many
    as could start a sequence. A missing byte is read as 0. -/
def invalidLength (b : UInt8) (bs : Bytes) : ℕ :=
  if isSecondOfThree b (bs.getD 0 0) then 2
  else if isSecondOfFour b (bs.getD 0 0) then if isContinuation (bs.getD 1 0) then 3 else 2
  else 1

/-- The characters of at most `fuel` sequences. -/
def lossyChars : ℕ → Bytes → List Char
  | 0, _ => []
  | _ + 1, [] => []
  | fuel + 1, b :: bs =>
    match ByteArray.utf8DecodeChar? (b :: bs).toByteArray 0 with
    | some c => c :: lossyChars fuel ((b :: bs).drop c.utf8Size)
    | none => '\uFFFD' :: lossyChars fuel ((b :: bs).drop (invalidLength b bs))

/-- `String::from_utf8_lossy`. Every sequence has a byte, so the length is fuel enough. -/
def fromUtf8Lossy (bs : Bytes) : String := String.ofList (lossyChars bs.length bs)

theorem utf8EncodeChar_cons (c : Char) : ∃ b bs, String.utf8EncodeChar c = b :: bs :=
  List.exists_cons_of_ne_nil String.utf8EncodeChar_ne_nil

theorem lossyChars_encode {cs : List Char} {fuel : ℕ} (h : cs.length ≤ fuel) :
    lossyChars fuel (cs.flatMap String.utf8EncodeChar) = cs := by
  induction cs generalizing fuel with
  | nil => cases fuel <;> rfl
  | cons c cs ih =>
    obtain ⟨fuel, rfl⟩ := Nat.exists_eq_succ_of_ne_zero (Nat.ne_of_gt (Nat.lt_of_lt_of_le
      (Nat.succ_pos _) h))
    obtain ⟨b, bs, hb⟩ := utf8EncodeChar_cons c
    have hdecode := ByteArray.utf8DecodeChar?_utf8EncodeChar_append
      (b := (cs.flatMap String.utf8EncodeChar).toByteArray) (c := c)
    rw [← List.toByteArray_append] at hdecode
    have hsize := String.length_utf8EncodeChar c
    rw [List.flatMap_cons]
    generalize cs.flatMap String.utf8EncodeChar = tail at ih hdecode
    rw [hb] at hdecode hsize
    rw [hb, List.cons_append, lossyChars, ← List.cons_append, hdecode]
    dsimp only
    rw [← hsize, List.drop_left, ih (Nat.le_of_succ_le_succ h)]

theorem length_le_flatMap_encode (cs : List Char) :
    cs.length ≤ (cs.flatMap String.utf8EncodeChar).length := by
  induction cs with
  | nil => exact Nat.zero_le _
  | cons c cs ih =>
    have := c.utf8Size_pos
    rw [List.flatMap_cons, List.length_append, String.length_utf8EncodeChar, List.length_cons]
    omega

theorem fromUtf8Lossy_asBytes (s : String) : fromUtf8Lossy (asBytes s) = s := by
  rw [fromUtf8Lossy, asBytes, lossyChars_encode (length_le_flatMap_encode _)]
  exact String.ofList_toList

/-- `String::from_utf8`: bytes are UTF-8 if they are the encoding of what they decode to. -/
def fromUtf8 (bs : Bytes) : Option String :=
  if asBytes (fromUtf8Lossy bs) = bs then some (fromUtf8Lossy bs) else none

theorem fromUtf8_asBytes (s : String) : fromUtf8 (asBytes s) = some s := by
  rw [fromUtf8, fromUtf8Lossy_asBytes, if_pos rfl]

/-- An ASCII character is encoded as one byte. -/
theorem utf8EncodeChar_ascii {a : Char} (ha : a.toNat < 128) :
    String.utf8EncodeChar a = [UInt8.ofNat a.toNat] := by
  have hval : a.val.toNat = a.toNat := rfl
  unfold String.utf8EncodeChar
  dsimp only
  rw [if_pos (by omega), hval]

/-- An ASCII byte of an encoding is a character of its own. -/
theorem toNat_eq_of_mem_encode {c : Char} {b : UInt8} (h : b ∈ String.utf8EncodeChar c)
    (hb : b < 0x80) : c.toNat = b.toNat := by
  have hlt : b.toNat < 128 := UInt8.lt_iff_toNat_lt.mp hb
  have hc : c.toNat = c.val.toNat := rfl
  -- Of more than one byte, the first is at least 0xC0 and the others are at least 0x80.
  have hhigh : ∀ v, 128 ≤ v → v < 256 → b ≠ UInt8.ofNat v := by
    intro v hv hv' heq
    rw [heq, toNat_ofNat] at hlt
    omega
  unfold String.utf8EncodeChar at h
  dsimp only at h
  split_ifs at h <;> simp only [List.mem_cons, List.not_mem_nil, or_false] at h
  · rw [h, toNat_ofNat, hc]
    omega
  · rcases h with h | h <;> exact absurd h (hhigh _ (by omega) (by omega))
  · rcases h with h | h | h <;> exact absurd h (hhigh _ (by omega) (by omega))
  · rcases h with h | h | h | h <;> exact absurd h (hhigh _ (by omega) (by omega))

/-- A string without an ASCII character has not its byte. -/
theorem not_mem_asBytes {s : String} {c : Char} (hc : c.toNat < 128) (h : c ∉ s.toList) :
    UInt8.ofNat c.toNat ∉ asBytes s := by
  have hnat : (UInt8.ofNat c.toNat).toNat = c.toNat := by
    rw [toNat_ofNat]
    omega
  intro hmem
  obtain ⟨d, hd, hbyte⟩ := List.mem_flatMap.mp hmem
  have heq := toNat_eq_of_mem_encode hbyte (UInt8.lt_iff_toNat_lt.mpr (by rw [hnat]; exact hc))
  rw [hnat] at heq
  exact h (Char.toNat_inj.mp heq ▸ hd)

theorem asBytes_ne_nil {s : String} (h : s ≠ "") : asBytes s ≠ [] := by
  intro hnil
  rw [asBytes, List.flatMap_eq_nil_iff] at hnil
  apply h
  apply String.toList_eq_nil_iff.mp
  cases hs : s.toList with
  | nil => rfl
  | cons c cs =>
    exact absurd (hnil c (by rw [hs]; exact List.mem_cons_self)) String.utf8EncodeChar_ne_nil

theorem asBytes_ofList (cs : List Char) :
    asBytes (String.ofList cs) = cs.flatMap String.utf8EncodeChar := by
  rw [asBytes, String.toList_ofList]

/-- ASCII bytes are the encoding of a string. -/
theorem asBytes_ascii {bs : Bytes} (h : ∀ b ∈ bs, b < 0x80) :
    asBytes (String.ofList (bs.map fun b => Char.ofNat b.toNat)) = bs := by
  rw [asBytes_ofList, List.flatMap_map]
  induction bs with
  | nil => rfl
  | cons b bs ih =>
    obtain ⟨hb, hrest⟩ := List.forall_mem_cons.mp h
    have hlt : b.toNat < 128 := UInt8.lt_iff_toNat_lt.mp hb
    have hchar := charOfNat_toNat b.toNat_lt
    rw [List.flatMap_cons, ih hrest, utf8EncodeChar_ascii (by rw [hchar]; exact hlt), hchar,
      UInt8.ofNat_toNat]
    rfl

/-- The encoding of ASCII characters is ASCII. -/
theorem asBytes_lt {s : String} (h : ∀ c ∈ s.toList, c.toNat < 128) :
    ∀ b ∈ asBytes s, b < 0x80 := by
  intro b hb
  obtain ⟨c, hc, hb⟩ := List.mem_flatMap.mp hb
  have hlt := h c hc
  rw [utf8EncodeChar_ascii hlt, List.mem_singleton] at hb
  rw [hb, UInt8.lt_iff_toNat_lt, toNat_ofNat]
  exact Nat.lt_of_le_of_lt (Nat.mod_le _ _) hlt

theorem fromUtf8_isSome_ascii {bs : Bytes} (h : ∀ b ∈ bs, b < 0x80) : (fromUtf8 bs).isSome := by
  rw [← asBytes_ascii h, fromUtf8_asBytes]
  rfl

end OxidizedSystemd.Lib
