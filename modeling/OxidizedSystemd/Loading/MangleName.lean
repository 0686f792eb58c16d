import OxidizedSystemd.Lib.Hex
import OxidizedSystemd.Lib.StrSlice
import OxidizedSystemd.Loading.UnitNameUnescape

/-!
# Mangled unit names

Models of `unit_name_mangle` and `unit_name_hash_long` (`unit_name.rs`), which make the name of a
unit from what a user typed: a name with a suffix is escaped in front of it, an absolute path
becomes the name of a mount or a device, and anything else becomes a service.

* `recognizedSuffix_append`: a name has at most one unit suffix.
* `unitNameMangle_of_parts`: a unit name is left as it is.
* `length_hashed`: a hashed name has 255 bytes.
* `unitNameMangle_projects`: the result is a unit name, and the name of a path is short and can be
  read back.
-/

namespace OxidizedSystemd.Loading

open OxidizedSystemd.Units
open OxidizedSystemd.Lib

/-! ## Long names -/

/-- `UNIT_NAME_MAX` (line 186). -/
def unitNameMax : ℕ := 256

/-- `UNIT_NAME_HASH_LENGTH_CHARS` (line 188). -/
def unitNameHashLengthChars : ℕ := 16

/-- `LONG_UNIT_NAME_HASH_KEY` (lines 191–193). -/
def longUnitNameHashKey : Bytes :=
  [0xec, 0xf2, 0x37, 0xfb, 0x58, 0x32, 0x4a, 0x32, 0x84, 0x9f, 0x06, 0x9b, 0x0d, 0x21, 0xeb, 0x9a]

/-- `u64::rotate_left`, by less than 64 bits and more than none. -/
def rotateLeft (x k : UInt64) : UInt64 := x <<< k ||| x >>> (64 - k)

/-- The words `v` of `siphash24`. -/
structure SipState where
  v0 : UInt64
  v1 : UInt64
  v2 : UInt64
  v3 : UInt64

/-- `sipround` (lines 197–212). -/
def sipround (v : SipState) : SipState :=
  let v0 := v.v0 + v.v1
  let v1 := rotateLeft v.v1 13
  let v1 := v1 ^^^ v0
  let v0 := rotateLeft v0 32
  let v2 := v.v2 + v.v3
  let v3 := rotateLeft v.v3 16
  let v3 := v3 ^^^ v2
  let v0 := v0 + v3
  let v3 := rotateLeft v3 21
  let v3 := v3 ^^^ v0
  let v2 := v2 + v1
  let v1 := rotateLeft v1 17
  let v1 := v1 ^^^ v2
  let v2 := rotateLeft v2 32
  ⟨v0, v1, v2, v3⟩

/-- A word of the data: two rounds (lines 229–232). -/
def sipWord (v : SipState) (m : UInt64) : SipState :=
  let v := sipround (sipround { v with v3 := v.v3 ^^^ m })
  { v with v0 := v.v0 ^^^ m }

/-- The chunks of eight bytes (lines 226–233), and the remainder. -/
def sipChunks : SipState → Bytes → SipState × Bytes
  | v, b0 :: b1 :: b2 :: b3 :: b4 :: b5 :: b6 :: b7 :: rest =>
    sipChunks (sipWord v (.ofNat (ofLe [b0, b1, b2, b3, b4, b5, b6, b7]))) rest
  | v, rest => (v, rest)

/-- `siphash24` (lines 216–250). -/
def siphash24 (data key : Bytes) : UInt64 :=
  let k0 := .ofNat (ofLe (key.take 8))
  let k1 := .ofNat (ofLe (key.drop 8))
  let v : SipState :=
    ⟨0x736f6d6570736575 ^^^ k0, 0x646f72616e646f6d ^^^ k1, 0x6c7967656e657261 ^^^ k0,
      0x7465646279746573 ^^^ k1⟩
  let (v, remainder) := sipChunks v data
  let b := (.ofNat data.length : UInt64) <<< 56 ||| .ofNat (ofLe remainder)
  let v := sipWord v b
  let v := { v with v2 := v.v2 ^^^ 0xff }
  let v := sipround (sipround (sipround (sipround v)))
  v.v0 ^^^ v.v1 ^^^ v.v2 ^^^ v.v3

example : siphash24 [] ((List.range 16).map UInt8.ofNat) = 0x726fdb47dd0e0e31 ∧
    siphash24 ((List.range 15).map UInt8.ofNat) ((List.range 16).map UInt8.ofNat) =
      0xa129ca6149be45e5 := by
  decide

/-- `while !name.is_char_boundary(cut) { cut -= 1 }` (lines 280–282). -/
def charBoundary (name : List Char) : ℕ → ℕ
  | 0 => 0
  | cut + 1 => if (splitAtByte name (cut + 1)).isOk then cut + 1 else charBoundary name cut

/-- `&name[..cut]`, for a cut at a boundary. -/
def cutName (name : List Char) (cut : ℕ) : List Char :=
  ((splitAtByte name cut).toOption.map Prod.fst).getD []

/-- `unit_name_hash_long` (lines 257–284). The length of the head does not underflow for a suffix
    of at most 237 bytes. -/
def unitNameHashLong (name : String) : Option String :=
  if (asBytes name).length < unitNameMax then none
  else
    (rsplitOnce '.' name.toList).map fun (_, suffixType) =>
      let hash := hexOfBytes (toLe 8 (siphash24 (asBytes name ++ [0]) longUnitNameHashKey).toNat)
      let len := unitNameMax - 1 - (encode suffixType).length - unitNameHashLengthChars - 2
      let cut := charBoundary name.toList (min len (asBytes name).length)
      String.ofList (cutName name.toList cut ++ '_' :: hash ++ '.' :: suffixType)

/-! ## Mangling -/

/-- `SUFFIXES` (lines 516–528). -/
def suffixes : List String :=
  [".service", ".socket", ".target", ".device", ".mount", ".automount", ".swap", ".timer", ".path",
    ".slice", ".scope"]

/-- `recognized_suffix` (lines 515–535). -/
def recognizedSuffix (name : String) : Option String := suffixes.find? fun suffix =>
  endsWith name suffix

/-- `&s[..s.len() - suffix.len()]`. -/
def cutSuffix (s suffix : String) : String :=
  String.ofList (s.toList.take (s.toList.length - suffix.toList.length))

/-- A turn of `unit_name_mangle_escape` (lines 378–393). -/
def mangleChar (c : Char) : List Char :=
  if c = '/' then ['-']
  else if isValidChar c ∨ c = '-' ∨ c = '@' ∨ c = '\\' then [c]
  else (String.utf8EncodeChar c).flatMap hexByte

/-- `unit_name_mangle_escape` (lines 368–396). -/
def unitNameMangleEscape (s : String) : String := String.ofList (s.toList.flatMap mangleChar)

/-- The suffix of the unit of a path (lines 436–440). -/
def pathSuffix (path : String) : String := if startsWith path "/dev/" then ".device" else ".mount"

/-- The name of the unit of a path, which may be too long (line 441). -/
def unhashedName (path : String) : String := unitNamePathEscape path ++ pathSuffix path

/-- What has no suffix, or nothing in front of it (lines 435–448). -/
def mangleBare (s : String) : String :=
  if startsWith s "/" then (unitNameHashLong (unhashedName s)).getD (unhashedName s)
  else unitNameMangleEscape s ++ ".service"

/-- `unit_name_mangle` (lines 419–449). -/
def unitNameMangle (s : String) : String :=
  match recognizedSuffix s with
  | some suffix =>
    let namePart := cutSuffix s suffix
    if namePart = "" then mangleBare s else unitNameMangleEscape namePart ++ suffix
  | none => mangleBare s

/-- The name in front of the recognised suffix. -/
def unitNamePart (name : String) : String :=
  ((recognizedSuffix name).map (cutSuffix name)).getD name

/-! ## Characters -/

/-- A character of a mangled name. -/
def IsMangled (c : Char) : Prop := isValidChar c ∨ c = '-' ∨ c = '@' ∨ c = '\\'

theorem isMangled_of_isEscaped {c : Char} (h : IsEscaped c) : IsMangled c := by
  rcases h with hvalid | hdash | hbackslash
  · exact Or.inl hvalid
  · exact Or.inr (Or.inl hdash)
  · exact Or.inr (Or.inr (Or.inr hbackslash))

theorem isMangled_of_mem_mangleChar {c x : Char} (h : x ∈ mangleChar c) : IsMangled x := by
  unfold mangleChar at h
  split_ifs at h with _ hkept
  · rw [List.mem_singleton.mp h]
    exact Or.inr (Or.inl rfl)
  · rw [List.mem_singleton.mp h]
    exact hkept
  · obtain ⟨b, -, hb⟩ := List.mem_flatMap.mp h
    exact isMangled_of_isEscaped (isEscaped_of_mem_hexByte hb)

theorem mangleChar_ne_nil (c : Char) : mangleChar c ≠ [] := by
  unfold mangleChar
  split_ifs
  · exact List.cons_ne_nil _ _
  · exact List.cons_ne_nil _ _
  · obtain ⟨b, bs, heq⟩ := utf8EncodeChar_cons c
    rw [heq, List.flatMap_cons]
    exact List.cons_ne_nil _ _

theorem mangleChar_of_isMangled {c : Char} (h : IsMangled c) : mangleChar c = [c] := by
  unfold mangleChar
  have hslash : c ≠ '/' := by
    rintro rfl
    revert h
    unfold IsMangled
    decide
  rw [if_neg hslash]
  exact if_pos h

theorem unitNameMangleEscape_chars (s : String) :
    ∀ c ∈ (unitNameMangleEscape s).toList, IsMangled c := by
  intro c hc
  rw [unitNameMangleEscape, String.toList_ofList] at hc
  obtain ⟨x, -, hx⟩ := List.mem_flatMap.mp hc
  exact isMangled_of_mem_mangleChar hx

theorem unitNameMangleEscape_ne_empty {s : String} (h : s ≠ "") : unitNameMangleEscape s ≠ "" := by
  intro hempty
  have hnil := String.toList_eq_nil_iff.mpr hempty
  rw [unitNameMangleEscape, String.toList_ofList, List.flatMap_eq_nil_iff] at hnil
  apply h
  apply String.toList_eq_nil_iff.mp
  apply List.eq_nil_iff_forall_not_mem.mpr
  intro c hc
  exact mangleChar_ne_nil c (hnil c hc)

/-- What consists of the characters of a mangled name is left as it is. -/
theorem unitNameMangleEscape_of_mangled {s : String} (h : ∀ c ∈ s.toList, IsMangled c) :
    unitNameMangleEscape s = s := by
  rw [unitNameMangleEscape, List.flatMap_congr fun c hc => mangleChar_of_isMangled (h c hc),
    List.flatMap_singleton', String.ofList_toList]

theorem utf8Size_of_isMangled {c : Char} (h : IsMangled c) : c.utf8Size = 1 := by
  rcases h with hvalid | rfl | rfl | rfl
  · obtain ⟨b, hb, -⟩ := utf8EncodeChar_of_isValidChar hvalid
    rw [← String.length_utf8EncodeChar, hb]
    rfl
  · decide
  · decide
  · decide

/-- A mangled name has a byte for each character. -/
theorem length_encode_mangled {cs : List Char} (h : ∀ c ∈ cs, IsMangled c) :
    (encode cs).length = cs.length := by
  induction cs with
  | nil => rfl
  | cons c cs ih =>
    obtain ⟨hc, hcs⟩ := List.forall_mem_cons.mp h
    rw [length_encode_cons, utf8Size_of_isMangled hc, ih hcs, List.length_cons, Nat.add_comm]

/-! ## Suffixes -/

theorem isMangled_of_mem_suffix {suffix : String} (h : suffix ∈ suffixes) :
    ∀ c ∈ suffix.toList, IsMangled c := by
  have hvalid : suffixes.all (fun s => s.toList.all isValidChar) = true := by decide
  rw [List.all_eq_true] at hvalid
  exact fun c hc => Or.inl (List.all_eq_true.mp (hvalid suffix h) c hc)

theorem endsWith_append (part suffix : String) : endsWith (part ++ suffix) suffix := by
  rw [endsWith, List.isSuffixOf_iff_suffix, String.toList_append]
  exact List.suffix_append _ _

theorem suffix_of_recognizedSuffix {s suffix : String} (h : recognizedSuffix s = some suffix) :
    suffix.toList <:+ s.toList ∧ suffix ∈ suffixes := by
  have hends : endsWith s suffix = true := List.find?_some (p := fun x => endsWith s x) h
  exact ⟨List.isSuffixOf_iff_suffix.mp hends, List.mem_of_find?_eq_some h⟩

/-- No suffix ends with another one, so a name has at most one. -/
theorem recognizedSuffix_append (part : String) {suffix : String} (h : suffix ∈ suffixes) :
    recognizedSuffix (part ++ suffix) = some suffix := by
  have hapart : ∀ a ∈ suffixes, ∀ b ∈ suffixes, a.toList <:+ b.toList → a = b := by
    decide
  have hends : suffix.toList <:+ (part ++ suffix).toList :=
    List.isSuffixOf_iff_suffix.mp (endsWith_append part suffix)
  cases hfind : recognizedSuffix (part ++ suffix) with
  | none =>
    have hnot := List.find?_eq_none.mp hfind suffix h
    exact absurd (endsWith_append part suffix) hnot
  | some other =>
    obtain ⟨hother, hmem⟩ := suffix_of_recognizedSuffix hfind
    rcases List.suffix_or_suffix_of_suffix hother hends with hle | hle
    · rw [hapart other hmem suffix h hle]
    · rw [hapart suffix h other hmem hle]

theorem cutSuffix_append (part suffix : String) :
    cutSuffix (part ++ suffix) suffix = part := by
  rw [cutSuffix, String.toList_append, List.length_append, Nat.add_sub_cancel, List.take_left,
    String.ofList_toList]

/-- The recognised suffix is the end of the name. -/
theorem cutSuffix_append_self {s suffix : String} (h : recognizedSuffix s = some suffix) :
    cutSuffix s suffix ++ suffix = s ∧ suffix ∈ suffixes := by
  obtain ⟨⟨front, hfront⟩, hmem⟩ := suffix_of_recognizedSuffix h
  refine ⟨?_, hmem⟩
  apply String.toList_inj.mp
  rw [cutSuffix, String.toList_append, String.toList_ofList, ← hfront, List.length_append,
    Nat.add_sub_cancel, List.take_left]

/-! ## Unit names -/

/-- A name of mangled characters in front of a suffix. -/
structure NameParts (name part suffix : String) : Prop where
  eq : name = part ++ suffix
  part_ne : part ≠ ""
  chars : ∀ c ∈ part.toList, IsMangled c
  suffix_mem : suffix ∈ suffixes

/-- The result is a non-empty name in front of a unit suffix, and consists of the characters of a
    mangled name. -/
structure IsUnitName (name : String) : Prop where
  parts : ∃ part suffix, name = part ++ suffix ∧ part ≠ "" ∧ suffix ∈ suffixes
  chars : ∀ c ∈ name.toList, IsMangled c

theorem NameParts.isUnitName {name part suffix : String} (h : NameParts name part suffix) :
    IsUnitName name := by
  refine ⟨⟨part, suffix, h.eq, h.part_ne, h.suffix_mem⟩, ?_⟩
  intro c hc
  rw [h.eq, String.toList_append] at hc
  cases List.mem_append.mp hc with
  | inl hpart => exact h.chars c hpart
  | inr hsuffix => exact isMangled_of_mem_suffix h.suffix_mem c hsuffix

/-- A unit name is left as it is. -/
theorem unitNameMangle_of_parts {name part suffix : String} (h : NameParts name part suffix) :
    unitNameMangle name = name := by
  rw [h.eq, unitNameMangle, recognizedSuffix_append part h.suffix_mem]
  dsimp only
  rw [cutSuffix_append, if_neg h.part_ne, unitNameMangleEscape_of_mangled h.chars]

theorem unitNamePart_of_parts {name part suffix : String} (h : NameParts name part suffix) :
    unitNamePart name = part := by
  rw [unitNamePart, h.eq, recognizedSuffix_append part h.suffix_mem, Option.map_some,
    cutSuffix_append, Option.getD_some]

theorem mangleEscape_parts {s suffix : String} (hne : s ≠ "") (hsuffix : suffix ∈ suffixes) :
    NameParts (unitNameMangleEscape s ++ suffix) (unitNameMangleEscape s) suffix :=
  ⟨rfl, unitNameMangleEscape_ne_empty hne, unitNameMangleEscape_chars s, hsuffix⟩

/-! ## Names of paths -/

theorem pathSuffix_mem (path : String) : pathSuffix path ∈ suffixes := by
  unfold pathSuffix
  split <;> decide

theorem escapeChar_ne_nil (c : Char) (i : ℕ) : escapeChar c i ≠ [] := by
  unfold escapeChar
  split_ifs
  · exact List.cons_ne_nil _ _
  · exact List.cons_ne_nil _ _
  · exact List.cons_ne_nil _ _
  · obtain ⟨b, bs, heq⟩ := utf8EncodeChar_cons c
    rw [heq, List.flatMap_cons]
    exact List.cons_ne_nil _ _

theorem unitNamePathEscape_ne_empty (path : String) : unitNamePathEscape path ≠ "" := by
  simp only [unitNamePathEscape]
  split_ifs with h
  · decide
  · intro hempty
    have hnil := String.toList_eq_nil_iff.mpr hempty
    rw [unitNameEscape, String.toList_ofList, List.flatMap_eq_nil_iff] at hnil
    apply h
    apply String.toList_eq_nil_iff.mp
    cases hcs : (normalizePath path).toList with
    | nil => rfl
    | cons c cs =>
      rw [hcs] at hnil
      exact absurd (hnil (c, 0) (by simp)) (escapeChar_ne_nil c 0)

theorem unhashedName_parts (path : String) :
    NameParts (unhashedName path) (unitNamePathEscape path) (pathSuffix path) :=
  ⟨rfl, unitNamePathEscape_ne_empty path,
    fun c hc => isMangled_of_isEscaped (unitNamePathEscape_chars path c hc), pathSuffix_mem path⟩

/-- A cut of a mangled name is behind a number of characters. -/
theorem splitAtByte_mangled {cs : List Char} (h : ∀ c ∈ cs, IsMangled c) {n : ℕ}
    (hn : n ≤ cs.length) : splitAtByte cs n = .ok (cs.take n, cs.drop n) := by
  apply splitAtByte_eq_ok_iff.mpr
  refine ⟨(List.take_append_drop n cs).symm, ?_⟩
  rw [length_encode_mangled fun c hc => h c (List.mem_of_mem_take hc), List.length_take,
    Nat.min_eq_left hn]

theorem cutName_mangled {cs : List Char} (h : ∀ c ∈ cs, IsMangled c) {n : ℕ} (hn : n ≤ cs.length) :
    cutName cs (charBoundary cs n) = cs.take n := by
  have hcut : charBoundary cs n = n := by
    cases n with
    | zero => rfl
    | succ n =>
      rw [charBoundary, splitAtByte_mangled h hn]
      rfl
  rw [hcut, cutName, splitAtByte_mangled h hn]
  rfl

theorem isMangled_of_mem_hexOfBytes {bs : Bytes} {c : Char} (h : c ∈ hexOfBytes bs) :
    IsMangled c := by
  obtain ⟨d, hd, rfl⟩ := mem_hexOfBytes h
  exact Or.inl (isValidChar_digitChar d hd)

/-- What the suffix of a path is: a dot and a type without a dot. -/
theorem pathSuffix_eq (path : String) :
    ∃ suffixType : List Char, (pathSuffix path).toList = '.' :: suffixType ∧ '.' ∉ suffixType ∧
      suffixType.length ≤ 6 := by
  unfold pathSuffix
  split
  · exact ⟨"device".toList, rfl, by decide, by decide⟩
  · exact ⟨"mount".toList, rfl, by decide, by decide⟩

/-- A hashed name is a unit name of 255 bytes. -/
theorem hashed_parts {path name : String} (h : unitNameHashLong (unhashedName path) = some name) :
    ∃ part, NameParts name part (pathSuffix path) ∧ (asBytes name).length = 255 := by
  have hunhashed := (unhashedName_parts path).isUnitName.chars
  have hlength : (asBytes (unhashedName path)).length = (unhashedName path).toList.length :=
    length_encode_mangled hunhashed
  obtain ⟨suffixType, hsuffix, hdot, hshort⟩ := pathSuffix_eq path
  have hsplit : rsplitOnce '.' (unhashedName path).toList =
      some ((unitNamePathEscape path).toList, suffixType) := by
    apply rsplitOnce_eq_some_iff.mpr
    refine ⟨hdot, ?_⟩
    rw [unhashedName, String.toList_append, hsuffix]
  have htype : ∀ c ∈ suffixType, IsMangled c := by
    intro c hc
    apply isMangled_of_mem_suffix (pathSuffix_mem path) c
    rw [hsuffix]
    exact List.mem_cons_of_mem _ hc
  rw [unitNameHashLong] at h
  split at h
  · cases h
  rename_i hlong
  rw [hlength, unitNameMax] at hlong
  rw [hsplit, Option.map_some] at h
  dsimp only at h
  rw [hlength, length_encode_mangled htype] at h
  generalize hlen : unitNameMax - 1 - suffixType.length - unitNameHashLengthChars - 2 = len at h
  generalize hhash : hexOfBytes _ = hash at h
  rw [unitNameMax, unitNameHashLengthChars] at hlen
  have hhashLength : hash.length = 16 := by rw [← hhash, length_hexOfBytes, length_toLe]
  rw [Nat.min_eq_left (by omega), cutName_mangled hunhashed (by omega)] at h
  obtain rfl := Option.some.inj h
  have htake : ((unhashedName path).toList.take len).length = len := by
    rw [List.length_take]
    omega
  have hparts : NameParts
      (String.ofList ((unhashedName path).toList.take len ++ '_' :: hash ++ '.' :: suffixType))
      (String.ofList ((unhashedName path).toList.take len ++ '_' :: hash)) (pathSuffix path) := by
    refine ⟨?_, ?_, ?_, pathSuffix_mem path⟩
    · apply String.toList_inj.mp
      rw [String.toList_append, String.toList_ofList, String.toList_ofList, hsuffix]
    · intro hempty
      have hnil := String.toList_eq_nil_iff.mpr hempty
      rw [String.toList_ofList] at hnil
      simp at hnil
    · intro c hc
      rw [String.toList_ofList] at hc
      rcases List.mem_append.mp hc with hhead | hrest
      · exact hunhashed c (List.mem_of_mem_take hhead)
      · cases List.mem_cons.mp hrest with
        | inl hunderscore =>
          rw [hunderscore]
          exact Or.inl (by decide)
        | inr hmem =>
          rw [← hhash] at hmem
          exact isMangled_of_mem_hexOfBytes hmem
  refine ⟨_, hparts, ?_⟩
  have hbytes := length_encode_mangled hparts.isUnitName.chars
  rw [String.toList_ofList, List.length_append, List.length_append, List.length_cons,
    List.length_cons, htake, hhashLength] at hbytes
  rw [asBytes_ofList]
  refine hbytes.trans ?_
  omega

/-- The name of a path: the escaped path in front of its suffix, or a shorter name. -/
theorem mangleBare_path {path : String} (h : startsWith path "/") :
    (∃ part, NameParts (mangleBare path) part (pathSuffix path)) ∧
    (asBytes (mangleBare path)).length < unitNameMax ∧
    ((asBytes (unhashedName path)).length < unitNameMax → mangleBare path = unhashedName path) := by
  rw [mangleBare, if_pos h]
  cases hhash : unitNameHashLong (unhashedName path) with
  | some name =>
    obtain ⟨part, hparts, hlength⟩ := hashed_parts hhash
    rw [Option.getD_some]
    refine ⟨⟨part, hparts⟩, by rw [hlength, unitNameMax]; decide, ?_⟩
    intro hshort
    rw [unitNameHashLong, if_pos hshort] at hhash
    cases hhash
  | none =>
    rw [Option.getD_none]
    refine ⟨⟨_, unhashedName_parts path⟩, ?_, fun _ => rfl⟩
    apply Nat.lt_of_not_le
    intro hlong
    rw [unitNameHashLong, if_neg (Nat.not_lt.mpr hlong), Option.map_eq_none_iff,
      rsplitOnce_eq_none_iff] at hhash
    obtain ⟨suffixType, hsuffix, -⟩ := pathSuffix_eq path
    apply hhash
    rw [unhashedName, String.toList_append, hsuffix]
    exact List.mem_append_right _ List.mem_cons_self

/-- The name of a path is read back. -/
theorem unitNamePathUnescape_pathEscape {path : String} (h : startsWith path "/")
    (hvalid : isValidNormalizedPath (normalizePath path)) :
    unitNamePathUnescape (unitNamePathEscape path) = some ("/" ++ normalizePath path) := by
  apply unitNamePathUnescape_of_escape
  have hne : path ≠ "" := by
    rintro rfl
    exact absurd h (by decide)
  rw [unitNamePathEscapeChecked, if_neg hne]
  dsimp only [unitNamePathEscape]
  by_cases hroot : normalizePath path = ""
  · rw [if_pos hroot, if_pos h, if_pos hroot]
  · rw [if_neg hroot, if_pos hvalid, if_neg hroot]

/-! ## The results -/

theorem mangleBare_parts {s : String} (h : s ≠ "") :
    ∃ part suffix, NameParts (mangleBare s) part suffix := by
  by_cases hslash : startsWith s "/"
  · obtain ⟨⟨part, hparts⟩, -⟩ := mangleBare_path hslash
    exact ⟨part, _, hparts⟩
  · rw [mangleBare, if_neg hslash]
    exact ⟨_, _, mangleEscape_parts h (by decide)⟩

theorem unitNameMangle_parts {s : String} (h : s ≠ "") :
    ∃ part suffix, NameParts (unitNameMangle s) part suffix := by
  rw [unitNameMangle]
  cases hsuffix : recognizedSuffix s with
  | none => exact mangleBare_parts h
  | some suffix =>
    dsimp only
    by_cases hpart : cutSuffix s suffix = ""
    · rw [if_pos hpart]
      exact mangleBare_parts h
    · rw [if_neg hpart]
      exact ⟨_, _, mangleEscape_parts hpart (cutSuffix_append_self hsuffix).2⟩

/-- Mangling makes a unit name of every string that is not empty, and leaves it as it is when it is
    mangled again. The name of an absolute path without a suffix is shorter than 256 bytes; and if
    the name is that short without a hash and no component of the normal form is `..`, the path is
    read back from it. -/
theorem unitNameMangle_projects :
    (∀ s, s ≠ "" → unitNameMangle (unitNameMangle s) = unitNameMangle s ∧
      IsUnitName (unitNameMangle s)) ∧
    ∀ path, startsWith path "/" → recognizedSuffix path = none →
      (asBytes (unitNameMangle path)).length < 256 ∧
      ((asBytes (unhashedName path)).length < 256 → isValidNormalizedPath (normalizePath path) →
        unitNamePathUnescape (unitNamePart (unitNameMangle path)) =
          some ("/" ++ normalizePath path)) := by
  constructor
  · intro s hs
    obtain ⟨part, suffix, hparts⟩ := unitNameMangle_parts hs
    exact ⟨unitNameMangle_of_parts hparts, hparts.isUnitName⟩
  · intro path hslash hsuffix
    have hmangle : unitNameMangle path = mangleBare path := by rw [unitNameMangle, hsuffix]
    obtain ⟨-, hlength, hunhashed⟩ := mangleBare_path hslash
    rw [hmangle]
    refine ⟨hlength, fun hshort hvalid => ?_⟩
    rw [hunhashed hshort, unitNamePart_of_parts (unhashedName_parts path)]
    exact unitNamePathUnescape_pathEscape hslash hvalid

/-- They are both met by a path. -/
theorem unitNameMangle_projects_dev :
    IsUnitName (unitNameMangle "/dev//x y") ∧
    unitNamePathUnescape (unitNamePart (unitNameMangle "/dev//x y")) =
      some ("/" ++ normalizePath "/dev//x y") :=
  ⟨(unitNameMangle_projects.1 "/dev//x y" (by decide)).2,
    (unitNameMangle_projects.2 "/dev//x y" (by decide) (by decide)).2 (by decide)
      (by decide)⟩

end OxidizedSystemd.Loading
