import OxidizedSystemd.Lib.Faults
import OxidizedSystemd.Lib.Hex
import OxidizedSystemd.Lib.Utf8

/-!
# GUIDs

Model of `parse_guid` and `encode_guid` (`repart/src/main.rs`, lines 260–319): the bytes of a
GUID in a partition table, whose first three fields are little-endian, and its text.

* `parseGuid_encodeGuid`: the text is read back from the bytes, in lower case.
* `eq_zeroGuid_of_lowerGuid`: only the zero GUID has the bytes that mark a free entry.
-/

namespace OxidizedSystemd.Repart

open Lib

/-- `ZERO_GUID`. -/
def zeroGuid : String := "00000000-0000-0000-0000-000000000000"

/-- `parse_guid`. -/
def parseGuid (data : Bytes) : String :=
  if data.length < 16 then zeroGuid
  else
    String.ofList (hexPad 8 (leAt data 0 4) ++ '-' :: (hexPad 4 (leAt data 4 2) ++ '-' ::
      (hexPad 4 (leAt data 6 2) ++ '-' :: (hexOfBytes ((data.drop 8).take 2) ++ '-' ::
        hexOfBytes ((data.drop 10).take 6)))))

/-- `u8::from_str_radix` of the digits in pairs of bytes (lines 295–298). A pair that a character
    goes across is an index that is out of bounds. -/
def hexBytes : List Char → Faulty Bytes
  | [] => .ok []
  | c :: cs =>
    if c.utf8Size = 2 then (hexBytes cs).map (0 :: ·)
    else
      match cs with
      | [] => .error .outOfBounds
      | d :: ds =>
        if c.utf8Size = 1 ∧ d.utf8Size = 1 then
          (hexBytes ds).map (UInt8.ofNat ((fromStrRadix 16 255 [c, d]).getD 0) :: ·)
        else .error .outOfBounds

/-- `encode_guid`. -/
def encodeGuid (guid : String) : Faulty Bytes :=
  let hex := guid.toList.filter (· ≠ '-')
  if (asBytes (String.ofList hex)).length ≠ 32 then .ok (List.replicate 16 0)
  else do
    let bytes ← hexBytes hex
    if bytes.length ≠ 16 then .ok (List.replicate 16 0)
    else
      return (bytes.take 4).reverse ++ ((bytes.drop 4).take 2).reverse ++
        ((bytes.drop 6).take 2).reverse ++ bytes.drop 8

/-- `is_zero_guid`. -/
def isZeroGuid (guid : String) : Bool := guid == zeroGuid

/-! ## Canonical GUIDs -/

/-- A digit of a GUID, in either case. -/
def isHexDigit (c : Char) : Bool := (toDigit 16 c).isSome

/-- A GUID as it is written: digits in groups of 8, 4, 4, 4 and 12. -/
def CanonicalGuid (guid : String) : Prop :=
  ∃ a b c d e : List Char,
    guid.toList = a ++ '-' :: (b ++ '-' :: (c ++ '-' :: (d ++ '-' :: e))) ∧
    a.length = 8 ∧ b.length = 4 ∧ c.length = 4 ∧ d.length = 4 ∧ e.length = 12 ∧
    ∀ x ∈ a ++ b ++ c ++ d ++ e, isHexDigit x

/-- A GUID in lower case. -/
def lowerGuid (guid : String) : String := String.ofList (guid.toList.map Char.toLower)

theorem exists_toDigit {c : Char} (h : isHexDigit c) : ∃ d, toDigit 16 c = some d :=
  Option.isSome_iff_exists.mp h

theorem toNat_lt_of_hexDigit {c : Char} (h : isHexDigit c) : c.toNat < 128 := by
  obtain ⟨d, hd⟩ := exists_toDigit h
  exact (digitChar_of_toDigit hd).2.2

/-- What holds of all ASCII characters holds of digits. -/
theorem hexDigit_induction {P : Char → Prop} (h : ∀ n < 128, isHexDigit (Char.ofNat n) →
    P (Char.ofNat n)) {c : Char} (hc : isHexDigit c) : P c := by
  have := h c.toNat (toNat_lt_of_hexDigit hc)
  rw [Char.ofNat_toNat] at this
  exact this hc

theorem utf8Size_hexDigit {c : Char} (h : isHexDigit c) : c.utf8Size = 1 :=
  hexDigit_induction (P := fun c => c.utf8Size = 1) (by decide) h

theorem hexDigit_ne {c : Char} (h : isHexDigit c) : c ≠ '-' ∧ c ≠ '+' :=
  hexDigit_induction (P := fun c => c ≠ '-' ∧ c ≠ '+') (by decide) h

/-- Two digits are a byte with these digits. -/
theorem fromStrRadix_pair {c d : Char} (hc : isHexDigit c) (hd : isHexDigit d) :
    hexDigits 2 (UInt8.ofNat ((fromStrRadix 16 255 [c, d]).getD 0)).toNat =
      [c.toLower, d.toLower] := by
  obtain ⟨x, hx⟩ := exists_toDigit hc
  obtain ⟨y, hy⟩ := exists_toDigit hd
  obtain ⟨hxc, hxlt, -⟩ := digitChar_of_toDigit hx
  obtain ⟨hyd, hylt, -⟩ := digitChar_of_toDigit hy
  have hplus : '+' ∉ [c, d] := by
    simp [Ne.symm (hexDigit_ne hc).2, Ne.symm (hexDigit_ne hd).2]
  have hvalue : fromStrRadix 16 255 [c, d] = some (x * 16 + y) := by
    rw [fromStrRadix_of_ne_plus (by simp) hplus]
    simp only [parseDigits, hx, hy, Option.bind_some]
    rw [if_pos (by omega), if_pos (by omega)]
    simp
  rw [hvalue, Option.getD_some, toNat_ofNat, Nat.mod_eq_of_lt (by omega)]
  rw [hexDigits_two, show (x * 16 + y) / 16 % 16 = x by omega,
    show (x * 16 + y) % 16 = y by omega, hxc, hyd]

/-- Digits are bytes with these digits. -/
theorem hexBytes_ok {n : ℕ} {cs : List Char} (hlen : cs.length = 2 * n)
    (h : ∀ c ∈ cs, isHexDigit c) :
    ∃ bytes, hexBytes cs = .ok bytes ∧ bytes.length = n ∧
      hexOfBytes bytes = cs.map Char.toLower := by
  induction n generalizing cs with
  | zero =>
    obtain rfl := List.length_eq_zero_iff.mp hlen
    exact ⟨[], rfl, rfl, rfl⟩
  | succ n ih =>
    obtain ⟨c, cs, rfl⟩ := List.exists_cons_of_length_eq_add_one
      (show cs.length = 2 * n + 1 + 1 by omega)
    obtain ⟨d, ds, rfl⟩ := List.exists_cons_of_length_eq_add_one
      (show cs.length = 2 * n + 1 by rw [List.length_cons] at hlen; omega)
    have hc := h c (by simp)
    have hd := h d (by simp)
    have hrest : ds.length = 2 * n := by
      simp at hlen
      omega
    obtain ⟨bytes, hbytes, hcount, htext⟩ := ih hrest fun x hx => h x (by simp [hx])
    refine ⟨UInt8.ofNat ((fromStrRadix 16 255 [c, d]).getD 0) :: bytes, ?_,
      by rw [List.length_cons, hcount], ?_⟩
    · rw [hexBytes, if_neg (by rw [utf8Size_hexDigit hc]; decide)]
      simp only [utf8Size_hexDigit hc, utf8Size_hexDigit hd, hbytes, and_self, if_true]
      rfl
    · rw [hexOfBytes, List.flatMap_cons, fromStrRadix_pair hc hd, ← hexOfBytes, htext]
      rfl

/-- The text of sixteen bytes that are laid out as `encode_guid` does. -/
theorem parseGuid_layout {bytes : Bytes} (h : bytes.length = 16) :
    parseGuid ((bytes.take 4).reverse ++ ((bytes.drop 4).take 2).reverse ++
        ((bytes.drop 6).take 2).reverse ++ bytes.drop 8) =
      String.ofList (hexOfBytes (bytes.take 4) ++ '-' :: (hexOfBytes ((bytes.drop 4).take 2) ++
        '-' :: (hexOfBytes ((bytes.drop 6).take 2) ++ '-' ::
          (hexOfBytes ((bytes.drop 8).take 2) ++ '-' :: hexOfBytes (bytes.drop 10))))) := by
  have hfield : ∀ (bs : Bytes) n, bs.length = n → 0 < n →
      hexPad (2 * n) (ofLe bs.reverse) = hexOfBytes bs := by
    rintro bs n rfl hpos
    have hlt := ofLe_lt bs.reverse
    rw [List.length_reverse, show 256 = 16 ^ 2 by rfl, ← Nat.pow_mul] at hlt
    rw [hexPad_eq (by omega) hlt, hexDigits_ofLe_reverse]
  have hfour : (bytes.take 4).length = 4 := by simp [h]
  have hmid : ((bytes.drop 4).take 2).length = 2 := by simp [h]
  have hhigh : ((bytes.drop 6).take 2).length = 2 := by simp [h]
  have hrest : (bytes.drop 8).length = 8 := by simp [h]
  have hten : bytes.drop 10 = ((bytes.drop 8).drop 2).take 6 := by
    rw [List.drop_drop, List.take_of_length_le (by simp [h])]
  rw [parseGuid, if_neg (by simp [h]), hten, ← hfield _ 4 hfour (by decide),
    ← hfield _ 2 hmid (by decide), ← hfield _ 2 hhigh (by decide)]
  generalize (bytes.take 4) = low at hfour ⊢
  generalize ((bytes.drop 4).take 2) = mid at hmid ⊢
  generalize ((bytes.drop 6).take 2) = high at hhigh ⊢
  generalize bytes.drop 8 = rest at hrest ⊢
  simp [leAt, List.drop_append, List.drop_eq_nil_of_le, hfour, hmid, hhigh]

theorem length_asBytes_hexDigits {cs : List Char} (h : ∀ c ∈ cs, isHexDigit c) :
    (asBytes (String.ofList cs)).length = cs.length := by
  rw [asBytes_ofList]
  induction cs with
  | nil => rfl
  | cons c cs ih =>
    obtain ⟨hc, hcs⟩ := List.forall_mem_cons.mp h
    rw [List.flatMap_cons, List.length_append, String.length_utf8EncodeChar, utf8Size_hexDigit hc,
      ih hcs, List.length_cons, Nat.add_comm]

/-- The text of a GUID is read back from its bytes, in lower case. -/
theorem parseGuid_encodeGuid {guid : String} (h : CanonicalGuid guid) :
    ∃ bytes, encodeGuid guid = .ok bytes ∧ bytes.length = 16 ∧
      parseGuid bytes = lowerGuid guid := by
  obtain ⟨a, b, c, d, e, hguid, ha, hb, hc, hd, he, hdigits⟩ := h
  have hfilter : guid.toList.filter (· ≠ '-') = a ++ b ++ c ++ d ++ e := by
    have hkeep : ∀ x ∈ a ++ b ++ c ++ d ++ e, decide (x ≠ '-') = true := fun x hx =>
      decide_eq_true (hexDigit_ne (hdigits x hx)).1
    rw [← List.filter_eq_self.mpr hkeep, hguid]
    simp [List.filter_append]
  have hlen : (a ++ b ++ c ++ d ++ e).length = 2 * 16 := by simp [ha, hb, hc, hd, he]
  obtain ⟨bytes, hbytes, hcount, htext⟩ := hexBytes_ok hlen hdigits
  refine ⟨_, ?_, ?_, (parseGuid_layout hcount).trans ?_⟩
  · have hthirty : ¬(asBytes (String.ofList (a ++ b ++ c ++ d ++ e))).length ≠ 32 := by
      rw [length_asBytes_hexDigits hdigits, hlen]
      decide
    rw [encodeGuid, hfilter, if_neg hthirty, hbytes]
    simp only [ok_bind]
    rw [if_neg (by simp [hcount])]
    rfl
  · simp [hcount]
  · have htake : ∀ m n, m + n ≤ 16 → hexOfBytes ((bytes.drop m).take n) =
        (((a ++ b ++ c ++ d ++ e).map Char.toLower).drop (2 * m)).take (2 * n) := by
      intro m n hmn
      rw [hexOfBytes_take _ (by rw [List.length_drop]; omega), hexOfBytes_drop _ (by omega), htext]
    have hlow := htake 0 4 (by decide)
    have hnode : bytes.drop 10 = (bytes.drop 10).take 6 := by
      rw [List.take_of_length_le (by simp [hcount])]
    rw [List.drop_zero] at hlow
    rw [hnode, hlow, htake, htake, htake, htake, lowerGuid, hguid]
    · simp [List.drop_append, List.drop_eq_nil_of_le, List.take_of_length_le, ha, hb, hc, hd, he]
    all_goals decide

theorem toLower_hexDigit {c : Char} (h : isHexDigit c) (hzero : c.toLower = '0' ∨ c.toLower = '-') :
    c.toLower = c :=
  hexDigit_induction (P := fun c => c.toLower = '0' ∨ c.toLower = '-' → c.toLower = c) (by decide)
    h hzero

/-- Only the zero GUID has the bytes that mark a free entry. -/
theorem eq_zeroGuid_of_lowerGuid {guid : String} (h : CanonicalGuid guid)
    (hzero : lowerGuid guid = zeroGuid) : guid = zeroGuid := by
  obtain ⟨a, b, c, d, e, hguid, -, -, -, -, -, hdigits⟩ := h
  have hmap : guid.toList.map Char.toLower = zeroGuid.toList := by
    rw [← hzero, lowerGuid, String.toList_ofList]
  have hself : ∀ x ∈ guid.toList, x.toLower = x := by
    intro x hx
    have hall : zeroGuid.toList.all (fun y => y == '0' || y == '-') = true := by decide
    have hzeros : ∀ y ∈ zeroGuid.toList, y = '0' ∨ y = '-' := by simpa using hall
    have hx0 := hzeros x.toLower (hmap ▸ List.mem_map_of_mem hx)
    have hx' : x = '-' ∨ x ∈ a ++ b ++ c ++ d ++ e := by
      rw [or_iff_not_imp_left]
      intro hdash
      rw [hguid] at hx
      simpa [hdash] using hx
    rcases hx' with rfl | hx'
    · rfl
    · exact toLower_hexDigit (hdigits x hx') hx0
  have hlist : guid.toList.map Char.toLower = guid.toList :=
    (List.map_congr_left hself).trans (List.map_id _)
  rw [← String.ofList_toList (s := guid), ← hlist, hmap, String.ofList_toList]

end OxidizedSystemd.Repart
