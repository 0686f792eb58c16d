import OxidizedSystemd.Lib.TextPieces
import OxidizedSystemd.Resolved.CacheKey
import OxidizedSystemd.Resolved.Message
import OxidizedSystemd.Resolved.SkipName

/-!
# Names that are encoded

`encode_name` (`resolved/src/dns.rs`, lines 608–636) and `parse_name` behind it. The encoder allows
`MAX_NAME_LENGTH + 1` octets, one more than a name may have; `parse_name` measures the text, which
is two characters shorter than the encoding, and takes that name as well.

* `parseName_encoded`: what `parse_name` reads in labels that are written out.
* `encodeName_roundTrips_iff`: the encoding of an ASCII name is within the limits and read back
  exactly if the name has at most 253 characters without its trailing dots.
* `long_name_is_encoded`: a name of 254 characters has an encoding of 256 octets.
-/

namespace OxidizedSystemd.Resolved

open OxidizedSystemd.Lib

/-- The name without its trailing dots (line 616). -/
def trimmedName (name : List Char) : List Char := (name.reverse.dropWhile (· = '.')).reverse

/-- A label of 1 to 63 octets. -/
def ShortLabel (l : Bytes) : Prop := 1 ≤ l.length ∧ l.length ≤ maxLabelLength

/-- The encoding has at most 255 octets, its labels 1 to 63, and `parse_name` reads the name. -/
structure RoundTrips (name : List Char) (buf : Bytes) : Prop where
  octets : buf.length ≤ maxNameLength
  labels : ∃ labels : List Bytes, (∀ l ∈ labels, ShortLabel l) ∧
    buf = labels.flatMap labelBytes ++ [0]
  parsed : parseName buf 0 = .ok (nameOrRoot (trimmedName name), buf.length)

/-! ## Labels that are written out -/

theorem ShortLabel.not_pointer {l : Bytes} (h : ShortLabel l) : l.length &&& 0xC0 ≠ 0xC0 := by
  have hall : ∀ n < 64, n &&& 0xC0 ≠ 0xC0 := by decide
  exact hall _ (Nat.lt_succ_of_le h.2)

/-- Labels with the root behind them are a name without pointers. -/
theorem nameVia_of_labels {data tail : Bytes} {pos : ℕ} {labels : List Bytes}
    (hshort : ∀ l ∈ labels, ShortLabel l)
    (h : data.drop pos = labels.flatMap labelBytes ++ 0 :: tail) :
    NameVia data 0 pos labels (pos + (labels.flatMap labelBytes).length + 1) := by
  induction labels generalizing pos with
  | nil => exact .root (getElem?_of_drop h).1
  | cons l labels ih =>
    obtain ⟨hl, hrest⟩ := List.forall_mem_cons.mp hshort
    have hlen : l.length ≤ 63 := hl.2
    have hnat : (UInt8.ofNat l.length).toNat = l.length := toNat_ofNat_length (by omega)
    have hne : l ≠ [] := List.ne_nil_of_length_pos hl.1
    rw [List.flatMap_cons, List.append_assoc] at h
    have hcons : data.drop pos =
        UInt8.ofNat l.length :: (l ++ (labels.flatMap labelBytes ++ 0 :: tail)) := h
    obtain ⟨hbyte, htail⟩ := getElem?_of_drop hcons
    have htake : (data.drop (pos + 1)).take l.length = l := by rw [htail, List.take_left]
    have hbehind : data.drop (pos + 1 + l.length) = labels.flatMap labelBytes ++ 0 :: tail := by
      rw [← List.drop_drop, htail, List.drop_left]
    have hname := NameVia.label hbyte (by rw [hnat]; exact length_pos_of_ne_nil hne)
      (by rw [hnat]; exact hl.not_pointer) (by rw [hnat]; exact hl.2)
      (by rw [hnat]; exact le_length_of_drop htail hne) (by rw [hnat]; exact ih hrest hbehind)
    rw [hnat, htake] at hname
    have hsum : pos + ((l :: labels).flatMap labelBytes).length =
        pos + 1 + l.length + (labels.flatMap labelBytes).length := by
      rw [List.flatMap_cons, List.length_append, labelBytes, List.length_cons]
      omega
    rw [hsum]
    exact hname

/-- `parse_name` reads labels that are written out, if their text is short enough. -/
theorem parseName_encoded {labels : List Bytes} (hshort : ∀ l ∈ labels, ShortLabel l)
    (htext : (textBehind [] labels).length ≤ maxNameLength) :
    parseName (labels.flatMap labelBytes ++ [0]) 0 =
      .ok (textBehind [] labels, (labels.flatMap labelBytes ++ [0]).length) := by
  apply parseName_ok_iff.mpr
  refine ⟨0, labels, ?_, ⟨Nat.zero_le _, htext⟩, rfl⟩
  have hname : NameVia (labels.flatMap labelBytes ++ [0]) 0 0 labels
      (0 + (labels.flatMap labelBytes).length + 1) := nameVia_of_labels hshort List.drop_zero
  rwa [Nat.zero_add, ← List.length_singleton (a := (0 : UInt8)), ← List.length_append] at hname

/-! ## ASCII names -/

section Ascii

variable {cs : List Char} {pieces : List (List Char)}

/-- The bytes of a piece of the name. -/
def pieceBytes (piece : List Char) : Bytes := asBytes (String.ofList piece)

theorem pieceBytes_ascii (h : ∀ c ∈ cs, c.toNat < 128) :
    pieceBytes cs = cs.map fun c => UInt8.ofNat c.toNat := by
  rw [pieceBytes, asBytes_ofList]
  induction cs with
  | nil => rfl
  | cons c cs ih =>
    obtain ⟨hc, hcs⟩ := List.forall_mem_cons.mp h
    rw [List.flatMap_cons, utf8EncodeChar_ascii hc, ih hcs]
    rfl

/-- An ASCII label is its own text. -/
theorem escape_pieceBytes (h : ∀ c ∈ cs, c.toNat < 128) :
    (pieceBytes cs).flatMap escapeByte = cs := by
  have hbyte : ∀ c ∈ cs, escapeByte (UInt8.ofNat c.toNat) = [c] := by
    intro c hc
    have hlt := h c hc
    have hnat : (UInt8.ofNat c.toNat).toNat = c.toNat := by
      rw [toNat_ofNat]
      omega
    rw [escapeByte, if_pos (UInt8.lt_iff_toNat_lt.mpr (by rw [hnat]; exact hlt)), hnat,
      Char.ofNat_toNat]
  rw [pieceBytes_ascii h, List.flatMap_map, List.flatMap_congr hbyte]
  exact List.flatMap_singleton' cs

theorem intercalate_dot_cons (piece : List Char) (pieces : List (List Char)) :
    ['.'].intercalate (piece :: pieces) = piece ++ pieces.flatMap ('.' :: ·) := by
  induction pieces generalizing piece with
  | nil => simp
  | cons p pieces ih =>
    rw [List.intercalate_cons_cons, ih, List.flatMap_cons]
    simp

/-- The text of pieces that are not empty is the pieces with dots between them. -/
theorem textBehind_pieces (hascii : ∀ p ∈ pieces, ∀ c ∈ p, c.toNat < 128)
    (hne : ∀ p ∈ pieces, p ≠ []) :
    textBehind [] (pieces.map pieceBytes) = nameOrRoot (['.'].intercalate pieces) := by
  rw [textBehind]
  cases pieces with
  | nil => rfl
  | cons p pieces =>
    obtain ⟨hp, hpieces⟩ := List.forall_mem_cons.mp hascii
    have hfirst : appendLabel [] (pieceBytes p) = p := escape_pieceBytes hp
    rw [List.map_cons, List.foldl_cons, hfirst, foldl_appendLabel (hne p List.mem_cons_self),
      List.flatMap_map, intercalate_dot_cons]
    congr 2
    apply List.flatMap_congr
    intro q hq
    rw [escape_pieceBytes (hpieces q hq)]

/-- The encoding has a byte for each character of the text, one in front and one behind. -/
theorem length_labelBytes_pieces (hascii : ∀ p ∈ pieces, ∀ c ∈ p, c.toNat < 128)
    (hne : pieces ≠ []) :
    ((pieces.map pieceBytes).flatMap labelBytes ++ [0]).length =
      (['.'].intercalate pieces).length + 2 := by
  have hsum : ∀ qs : List (List Char), (∀ p ∈ qs, ∀ c ∈ p, c.toNat < 128) →
      ((qs.map pieceBytes).flatMap labelBytes).length = (qs.flatMap ('.' :: ·)).length := by
    intro qs hqs
    rw [List.flatMap_map, List.length_flatMap, List.length_flatMap]
    congr 1
    apply List.map_congr_left
    intro q hq
    rw [labelBytes, List.length_cons, pieceBytes_ascii (hqs q hq), List.length_map,
      List.length_cons]
  obtain ⟨p, pieces, rfl⟩ := List.exists_cons_of_ne_nil hne
  rw [List.length_append, hsum _ hascii, intercalate_dot_cons, List.flatMap_cons,
    List.cons_append, List.length_cons]
  rfl

end Ascii

/-! ## The encoder -/

theorem encodeName_eq_some {name : List Char} {buf : Bytes} (h : encodeName name = some buf)
    (hroot : ¬(name = ['.'] ∨ name = [])) :
    (∀ p ∈ (trimmedName name).splitOn '.', ShortLabel (pieceBytes p)) ∧
    buf = (((trimmedName name).splitOn '.').map pieceBytes).flatMap labelBytes ++ [0] ∧
    buf.length ≤ maxNameLength + 1 := by
  rw [encodeName, if_neg hroot] at h
  dsimp only at h
  split_ifs at h with hall hlong
  obtain rfl := Option.some.inj h
  refine ⟨?_, rfl, Nat.not_lt.mp hlong⟩
  intro p hp
  have hlabel := List.all_eq_true.mp hall _ (List.mem_map_of_mem hp)
  obtain ⟨hne, hle⟩ := of_decide_eq_true hlabel
  exact ⟨Nat.one_le_iff_ne_zero.mpr hne, hle⟩

/-- The encoding of an ASCII name has at most 255 octets and labels of 1 to 63 octets, and is read
    back as the name without its trailing dots, exactly if that has at most 253 characters. -/
theorem encodeName_roundTrips_iff {name : List Char} (hascii : ∀ c ∈ name, c.toNat < 128)
    {buf : Bytes} (h : encodeName name = some buf) :
    RoundTrips name buf ↔ (trimmedName name).length ≤ 253 := by
  by_cases hroot : name = ['.'] ∨ name = []
  · rw [encodeName, if_pos hroot] at h
    obtain rfl := Option.some.inj h
    have htrimmed : trimmedName name = [] := by rcases hroot with rfl | rfl <;> rfl
    rw [htrimmed]
    refine iff_of_true ⟨by decide, ⟨[], by simp, rfl⟩, ?_⟩ (Nat.zero_le _)
    rw [htrimmed]
    rfl
  obtain ⟨hshort, rfl, hlong⟩ := encodeName_eq_some h hroot
  have hpieces : ∀ p ∈ (trimmedName name).splitOn '.', ∀ c ∈ p, c.toNat < 128 := by
    intro p hp c hc
    have hmem := mem_of_mem_splitOn hp hc
    rw [trimmedName, List.mem_reverse] at hmem
    exact hascii c (List.mem_reverse.mp ((List.dropWhile_sublist _).subset hmem))
  have hlength := length_labelBytes_pieces hpieces (List.splitOn_ne_nil _ _)
  have hne : ∀ p ∈ (trimmedName name).splitOn '.', p ≠ [] := by
    rintro p hp rfl
    exact absurd (hshort [] hp).1 (by decide)
  have htext := textBehind_pieces hpieces hne
  rw [List.intercalate_splitOn] at hlength htext
  rw [hlength] at hlong
  have hlabels : ∀ l ∈ ((trimmedName name).splitOn '.').map pieceBytes, ShortLabel l :=
    List.forall_mem_map.mpr hshort
  constructor
  · intro hround
    have hoctets := hround.octets
    rw [hlength, maxNameLength] at hoctets
    omega
  · intro hle
    refine ⟨by rw [hlength, maxNameLength]; omega, ⟨_, hlabels, rfl⟩, ?_⟩
    rw [← htext]
    refine parseName_encoded hlabels ?_
    rw [htext, length_nameOrRoot_le, maxNameLength]
    omega

theorem encodeName_roundTrips_a : RoundTrips ['a', '.'] [1, 0x61, 0] ↔ 1 ≤ 253 :=
  encodeName_roundTrips_iff (by simp) (by decide)

/-- Three labels of 63 characters and one of 62. -/
def longName : List Char :=
  ['.'].intercalate [.replicate 63 'a', .replicate 63 'a', .replicate 63 'a', .replicate 62 'a']

/-- `encode_name` takes a name whose encoding has 256 octets. -/
theorem long_name_is_encoded : ¬ ∀ name : List Char, (∀ c ∈ name, c.toNat < 128) → '\\' ∉ name →
    ∀ buf, encodeName name = some buf → RoundTrips name buf := by
  intro h
  have hlength : (encodeName longName).map List.length = some 256 := by
    set_option maxRecDepth 20000 in decide
  obtain ⟨buf, hbuf, hoctets⟩ := Option.map_eq_some_iff.mp hlength
  have hascii : longName.all (fun c => c.toNat < 128) = true := by
    set_option maxRecDepth 20000 in decide
  have hround := (h longName (by simpa using hascii) (by decide) buf hbuf).octets
  rw [hoctets, maxNameLength] at hround
  exact absurd hround (by decide)

end OxidizedSystemd.Resolved
