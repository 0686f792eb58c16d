import OxidizedSystemd.Lib.Faults
import OxidizedSystemd.Lib.Utf8
import Mathlib.Data.List.TakeWhile

/-!
# Cuts of a string at byte offsets

A string is a list of characters and an offset counts the bytes of its encoding. A cut
between two characters gives the two parts; a cut inside a character is a fault.

* `splitAtByte_eq_ok_iff`: a cut at the length of a front part gives that part.
* `not_safe_splitAtByte`: a cut inside a character is a fault.
* `takeWhile_encode_append`, `length_takeWhile_encode`: a scan of the bytes stops behind the
  characters that it takes whole, or inside the next one.
-/

namespace OxidizedSystemd.Lib

/-- The bytes of a string. -/
def encode (cs : List Char) : Bytes := cs.flatMap String.utf8EncodeChar

/-- `(&s[..n], &s[n..])`. -/
def splitAtByte : List Char → ℕ → Faulty (List Char × List Char)
  | [], n => if n = 0 then .ok ([], []) else .error .outOfBounds
  | c :: cs, n =>
    if n = 0 then .ok ([], c :: cs)
    else if n < c.utf8Size then .error .outOfBounds
    else (splitAtByte cs (n - c.utf8Size)).map fun (as, bs) => (c :: as, bs)

/-- `str::find` of the first character that satisfies `p`. -/
def find (p : Char → Bool) (cs : List Char) : Option ℕ :=
  if cs.any p then some (encode (cs.takeWhile fun c => !p c)).length else none

/-- `str::rfind` of the last character that satisfies `p`. -/
def rfind (p : Char → Bool) (cs : List Char) : Option ℕ :=
  match cs.reverse.dropWhile fun c => !p c with
  | [] => none
  | _ :: before => some (encode before.reverse).length

section Encode

variable {c : Char} {as bs cs : List Char} {n : ℕ}

@[simp] theorem encode_nil : encode [] = [] := rfl

@[simp] theorem encode_cons (c : Char) (cs : List Char) :
    encode (c :: cs) = String.utf8EncodeChar c ++ encode cs := rfl

@[simp] theorem encode_append (as bs : List Char) :
    encode (as ++ bs) = encode as ++ encode bs := List.flatMap_append

theorem length_encode_cons (c : Char) (cs : List Char) :
    (encode (c :: cs)).length = c.utf8Size + (encode cs).length := by
  simp

theorem length_le_encode (cs : List Char) : cs.length ≤ (encode cs).length :=
  length_le_flatMap_encode cs

theorem encode_eq_nil_iff : encode cs = [] ↔ cs = [] := by
  constructor
  · intro h
    have hlen := length_le_encode cs
    rw [h] at hlen
    exact List.length_eq_zero_iff.mp (Nat.le_zero.mp hlen)
  · intro h
    rw [h]
    rfl

/-! ## Cuts -/

theorem splitAtByte_append (as bs : List Char) :
    splitAtByte (as ++ bs) (encode as).length = .ok (as, bs) := by
  induction as with
  | nil => cases bs <;> simp [splitAtByte]
  | cons c as ih =>
    have hpos := c.utf8Size_pos
    rw [List.cons_append, splitAtByte, length_encode_cons, if_neg (by omega), if_neg (by omega),
      Nat.add_sub_cancel_left, ih]
    rfl

theorem splitAtByte_eq_ok_iff :
    splitAtByte cs n = .ok (as, bs) ↔ cs = as ++ bs ∧ n = (encode as).length := by
  constructor
  · intro h
    induction cs generalizing n as with
    | nil =>
      unfold splitAtByte at h
      split_ifs at h with hn
      obtain ⟨rfl, rfl⟩ := Prod.mk.inj (Except.ok.inj h)
      simp [hn]
    | cons c cs ih =>
      unfold splitAtByte at h
      split_ifs at h with hn hlt
      · obtain ⟨rfl, rfl⟩ := Prod.mk.inj (Except.ok.inj h)
        simp [hn]
      · cases hrest : splitAtByte cs (n - c.utf8Size) with
        | error f =>
          rw [hrest] at h
          cases h
        | ok parts =>
          rw [hrest] at h
          obtain ⟨rfl, rfl⟩ := Prod.mk.inj (Except.ok.inj h)
          obtain ⟨rfl, hlen⟩ := ih hrest
          refine ⟨rfl, ?_⟩
          rw [length_encode_cons]
          omega
  · rintro ⟨rfl, rfl⟩
    exact splitAtByte_append as bs

/-- A cut gives two parts exactly if it is behind the bytes of a front part. -/
theorem safe_splitAtByte_iff :
    Safe (splitAtByte cs n) ↔ ∃ as bs, cs = as ++ bs ∧ n = (encode as).length := by
  constructor
  · rintro ⟨⟨as, bs⟩, h⟩
    exact ⟨as, bs, splitAtByte_eq_ok_iff.mp h⟩
  · rintro ⟨as, bs, h⟩
    exact ⟨_, splitAtByte_eq_ok_iff.mpr h⟩

/-- A cut inside a character is a fault. -/
theorem not_safe_splitAtByte (hlow : (encode as).length < n)
    (hhigh : n < (encode as).length + c.utf8Size) : ¬ Safe (splitAtByte (as ++ c :: bs) n) := by
  rw [safe_splitAtByte_iff]
  rintro ⟨as', bs', h, rfl⟩
  rcases List.append_eq_append_iff.mp h with ⟨ds, rfl, hds⟩ | ⟨ds, rfl, -⟩
  · cases ds with
    | nil => simp at hlow
    | cons d ds =>
      obtain ⟨rfl, -⟩ := List.cons.inj hds
      rw [encode_append, List.length_append, length_encode_cons] at hhigh
      omega
  · rw [encode_append, List.length_append] at hlow
    omega

end Encode

/-! ## Scans of the bytes -/

section Scan

variable {p : UInt8 → Bool} {as bs : List Char}

/-- All bytes of a character satisfy `p`. -/
def allBytes (p : UInt8 → Bool) (c : Char) : Bool := (String.utf8EncodeChar c).all p

/-- The first byte of a character satisfies `p`. -/
def firstByte (p : UInt8 → Bool) (c : Char) : Bool := (String.utf8EncodeChar c).head?.any p

theorem of_mem_encode {b : UInt8} (has : ∀ c ∈ as, allBytes p c = true) (hb : b ∈ encode as) :
    p b = true := by
  obtain ⟨c, hc, hbc⟩ := List.mem_flatMap.mp hb
  exact List.all_eq_true.mp (has c hc) b hbc

/-- The scan stops between two characters if the first byte of the next one ends it. -/
theorem takeWhile_encode_append (as bs : List Char) (has : ∀ c ∈ as, allBytes p c = true)
    (hbs : ∀ c ∈ bs.head?, firstByte p c = false) :
    (encode (as ++ bs)).takeWhile p = encode as := by
  rw [encode_append, List.takeWhile_append_of_pos fun b hb => of_mem_encode has hb]
  cases bs with
  | nil => simp
  | cons c bs =>
    obtain ⟨b, rest, hb⟩ := utf8EncodeChar_cons c
    have hc := hbs c rfl
    rw [firstByte, hb] at hc
    rw [encode_cons, hb, List.cons_append, List.takeWhile_cons, if_neg (by simpa using hc),
      List.append_nil]

/-- Otherwise it stops inside that character, or goes on behind it. -/
theorem length_takeWhile_encode (as bs : List Char) (has : ∀ c ∈ as, allBytes p c = true) {c : Char}
    (hfirst : firstByte p c = true) (hall : allBytes p c = false) :
    (encode as).length < ((encode (as ++ c :: bs)).takeWhile p).length ∧
      ((encode (as ++ c :: bs)).takeWhile p).length < (encode as).length + c.utf8Size := by
  obtain ⟨b, rest, hb⟩ := utf8EncodeChar_cons c
  have hsize := String.length_utf8EncodeChar c
  rw [hb, List.length_cons] at hsize
  rw [firstByte, hb] at hfirst
  rw [allBytes, hb] at hall
  have hpb : p b = true := by simpa using hfirst
  obtain ⟨b', hb', hnot⟩ : ∃ b' ∈ rest, p b' = false := by simpa [hpb] using hall
  have hshort : (rest.takeWhile p).length < rest.length := by
    refine Nat.lt_of_le_of_ne (List.takeWhile_prefix p).length_le fun heq => ?_
    have hself := (List.takeWhile_prefix (l := rest) p).eq_of_length heq
    simp [List.takeWhile_eq_self_iff.mp hself b' hb'] at hnot
  have htake : (encode as ++ encode (c :: bs)).takeWhile p =
      encode as ++ (encode (c :: bs)).takeWhile p :=
    List.takeWhile_append_of_pos fun b hb => of_mem_encode has hb
  rw [encode_append, htake, encode_cons, hb,
    List.cons_append, List.takeWhile_cons, if_pos hpb, List.takeWhile_append,
    if_neg (Nat.ne_of_lt hshort), List.length_append, List.length_cons]
  omega

/-! ## ASCII characters -/

/-- The byte of an ASCII character is in the encoding of that character only. -/
theorem mem_utf8EncodeChar_iff {a c : Char} (ha : a.toNat < 128) :
    UInt8.ofNat a.toNat ∈ String.utf8EncodeChar c ↔ c = a := by
  have hnat : (UInt8.ofNat a.toNat).toNat = a.toNat := by
    rw [toNat_ofNat]
    omega
  constructor
  · intro h
    have heq := toNat_eq_of_mem_encode h (UInt8.lt_iff_toNat_lt.mpr (by rw [hnat]; exact ha))
    rw [hnat] at heq
    exact Char.toNat_inj.mp heq
  · rintro rfl
    rw [utf8EncodeChar_ascii ha]
    exact List.mem_singleton_self _

/-- A scan up to an ASCII character takes the characters in front of it. -/
theorem takeWhile_encode_ascii {a : Char} (ha : a.toNat < 128) (as bs : List Char) (has : a ∉ as)
    (hbs : ∀ c ∈ bs.head?, c = a) :
    (encode (as ++ bs)).takeWhile (· != UInt8.ofNat a.toNat) = encode as := by
  apply takeWhile_encode_append
  · intro c hc
    rw [allBytes, List.all_eq_true]
    intro b hb
    rw [bne_iff_ne]
    rintro rfl
    exact has ((mem_utf8EncodeChar_iff ha).mp hb ▸ hc)
  · intro c hc
    rw [hbs c hc, firstByte, utf8EncodeChar_ascii ha]
    simp

end Scan

end OxidizedSystemd.Lib
