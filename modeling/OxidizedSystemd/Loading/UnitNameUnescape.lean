import OxidizedSystemd.Lib.Lines
import OxidizedSystemd.Lib.Utf8
import OxidizedSystemd.Loading.UnitName
import Mathlib.Data.List.Infix

/-!
# Unescaping of unit names

Models of `unit_name_unescape`, `unit_name_path_escape_checked` and
`unit_name_path_unescape` (`unit_name.rs`), which read a name or a path back from
its escaped form.

* `unitNameUnescape_unitNameEscape`: every string is read back.
* `unitNamePathUnescape_of_escape`: so is the normalised absolute path behind an
  escaped path.
* `unitName_escaping_reversible`: both, and that paths with different normal forms
  have different names.
-/

namespace OxidizedSystemd.Loading

open OxidizedSystemd.Units
open OxidizedSystemd.Lib

/-! ## The source -/

/-- `hex_digit` (lines 582–589). -/
def hexDigit (b : UInt8) : Option UInt8 :=
  if 0x30 ≤ b ∧ b ≤ 0x39 then some (b - 0x30)
  else if 0x61 ≤ b ∧ b ≤ 0x66 then some (b - 0x61 + 10)
  else if 0x41 ≤ b ∧ b ≤ 0x46 then some (b - 0x41 + 10)
  else none

/-- The loop of `unit_name_unescape` (lines 92–109) on what is left of the bytes. -/
def unescapeBytes : Bytes → Option Bytes
  | [] => some []
  | b :: bs =>
    if b = 0x2d then (unescapeBytes bs).map (0x2f :: ·)
    else if b = 0x5c then
      match bs with
      | 0x78 :: h :: l :: rest =>
        (hexDigit h).bind fun hi => (hexDigit l).bind fun lo =>
          (unescapeBytes rest).map ((hi <<< 4 ||| lo) :: ·)
      -- no `x`, or fewer than three bytes behind the backslash
      | _ => none
    else (unescapeBytes bs).map (b :: ·)

/-- `unit_name_unescape` (lines 87–112). -/
def unitNameUnescape (s : String) : Option String := (unescapeBytes (asBytes s)).bind fromUtf8

/-- `is_valid_normalized_path` (lines 572–579). -/
def isValidNormalizedPath (path : String) : Bool :=
  (path.toList.splitOn '/').all fun component => component != "..".toList

/-- `unit_name_path_escape_checked` (lines 143–175). -/
def unitNamePathEscapeChecked (path : String) : Option String :=
  if path = "" then some "-"
  else
    let normalized := normalizePath path
    if normalized = "" then if startsWith path "/" then some "-" else none
    else if isValidNormalizedPath normalized then some (unitNameEscape normalized)
    else none

/-- `is_normalized_path` (lines 334–361). -/
def isNormalizedPath (path : String) : Bool :=
  if path = "" then false
  else if path = "/" then true
  else if ['/'] <:+ path.toList then false
  else if ['/', '/'] <:+: path.toList then false
  else (path.toList.splitOn '/').all fun component =>
    component != ".".toList && component != "..".toList

/-- `unit_name_path_unescape` (lines 299–330). -/
def unitNamePathUnescape (s : String) : Option String :=
  if s = "" then none
  else if s = "-" then some "/"
  else
    (unitNameUnescape s).bind fun unescaped =>
      if unescaped = "" then some "/"
      else if startsWith unescaped "/" then none
      else if isNormalizedPath ("/" ++ unescaped) then some ("/" ++ unescaped)
      else none

/-! ## Names -/

/-- A byte that is neither `-` nor a backslash is read as itself. -/
theorem unescapeBytes_plain {b : UInt8} (hdash : b ≠ 0x2d) (hbackslash : b ≠ 0x5c)
    (rest : Bytes) : unescapeBytes (b :: rest) = (unescapeBytes rest).map (b :: ·) := by
  rw [unescapeBytes.eq_def]
  dsimp only
  rw [if_neg hdash, if_neg hbackslash]

theorem unescapeBytes_dash (rest : Bytes) :
    unescapeBytes (0x2d :: rest) = (unescapeBytes rest).map (0x2f :: ·) := by
  rw [unescapeBytes.eq_def]
  dsimp only
  rw [if_pos rfl]

theorem hexDigit_digitChar :
    ∀ n < 16, (String.utf8EncodeChar (Nat.digitChar n)).map hexDigit = [some (UInt8.ofNat n)] := by
  decide

theorem nibbles_eq : ∀ b : UInt8,
    (UInt8.ofNat (b.toNat / 16)) <<< 4 ||| UInt8.ofNat (b.toNat % 16) = b :=
  forall_byte (by set_option maxRecDepth 20000 in decide)

theorem unescapeBytes_hexByte (b : UInt8) (rest : Bytes) :
    unescapeBytes ((hexByte b).flatMap String.utf8EncodeChar ++ rest) =
      (unescapeBytes rest).map (b :: ·) := by
  have hlt := b.toNat_lt
  obtain ⟨h, hh, hhi⟩ := List.map_eq_singleton_iff.mp
    (hexDigit_digitChar (b.toNat / 16) (by omega))
  obtain ⟨l, hl, hlo⟩ := List.map_eq_singleton_iff.mp
    (hexDigit_digitChar (b.toNat % 16) (by omega))
  have hbytes : (hexByte b).flatMap String.utf8EncodeChar = [0x5c, 0x78, h, l] := by
    simp only [hexByte, List.flatMap_cons, List.flatMap_nil, hh, hl]
    rfl
  rw [hbytes]
  simp only [List.cons_append, List.nil_append, unescapeBytes]
  rw [hhi, hlo, Option.bind_some, Option.bind_some, nibbles_eq]
  rfl

theorem unescapeBytes_hexBytes (bs rest : Bytes) :
    unescapeBytes ((bs.flatMap hexByte).flatMap String.utf8EncodeChar ++ rest) =
      (unescapeBytes rest).map (bs ++ ·) := by
  induction bs with
  | nil => simp
  | cons b bs ih =>
    rw [List.flatMap_cons, List.flatMap_append, List.append_assoc, unescapeBytes_hexByte, ih,
      Option.map_map]
    rfl

/-- A character that stays as it is, is one byte that is read as itself. -/
theorem utf8EncodeChar_of_isValidChar {c : Char} (h : isValidChar c) :
    ∃ b, String.utf8EncodeChar c = [b] ∧ b ≠ 0x2d ∧ b ≠ 0x5c := by
  have hascii : ∀ n < 128, isValidChar (Char.ofNat n) →
      String.utf8EncodeChar (Char.ofNat n) = [UInt8.ofNat n] ∧ UInt8.ofNat n ≠ 0x2d ∧
        UInt8.ofNat n ≠ 0x5c := by
    decide
  have hle : ∀ d : Char, c.val ≤ d.val → d.toNat < 128 → c.toNat < 128 := by
    intro d hle hlt
    exact Nat.lt_of_le_of_lt (UInt32.le_iff_toNat_le.mp hle) hlt
  have hlt : c.toNat < 128 := by
    rw [isValidChar] at h
    unfold Char.isAlphanum Char.isAlpha Char.isUpper Char.isLower Char.isDigit at h
    simp only [Bool.or_eq_true, beq_iff_eq, decide_eq_true_eq, Bool.and_eq_true] at h
    rcases h with (((((⟨_, h⟩ | ⟨_, h⟩) | ⟨_, h⟩) | h) | h) | h)
    · exact hle 'Z' h (by decide)
    · exact hle 'z' h (by decide)
    · exact hle '9' h (by decide)
    all_goals rw [h]; decide
  have := hascii c.toNat hlt (by rwa [Char.ofNat_toNat])
  rw [Char.ofNat_toNat] at this
  exact ⟨_, this⟩

theorem unescapeBytes_escapeChar (c : Char) (i : ℕ) (rest : Bytes) :
    unescapeBytes ((escapeChar c i).flatMap String.utf8EncodeChar ++ rest) =
      (unescapeBytes rest).map (String.utf8EncodeChar c ++ ·) := by
  unfold escapeChar
  split_ifs with hslash hdot hvalid
  · rw [hslash]
    exact unescapeBytes_dash rest
  · rw [hdot.2]
    exact unescapeBytes_hexByte 0x2e rest
  · obtain ⟨b, hb, hdash, hbackslash⟩ := utf8EncodeChar_of_isValidChar hvalid
    rw [List.flatMap_singleton, hb]
    exact unescapeBytes_plain hdash hbackslash rest
  · exact unescapeBytes_hexBytes _ rest

theorem unescapeBytes_escape (cs : List (Char × ℕ)) :
    unescapeBytes ((cs.flatMap fun p => escapeChar p.1 p.2).flatMap String.utf8EncodeChar) =
      some ((cs.map Prod.fst).flatMap String.utf8EncodeChar) := by
  induction cs with
  | nil => rfl
  | cons c cs ih =>
    rw [List.flatMap_cons, List.flatMap_append, unescapeBytes_escapeChar, ih]
    rfl

theorem unitNameUnescape_unitNameEscape (s : String) :
    unitNameUnescape (unitNameEscape s) = some s := by
  have hbytes : asBytes s = (s.toList.zipIdx.map Prod.fst).flatMap String.utf8EncodeChar := by
    rw [List.zipIdx_map_fst, asBytes]
  rw [unitNameUnescape, unitNameEscape, asBytes_ofList, unescapeBytes_escape, ← hbytes,
    Option.bind_some, fromUtf8_asBytes]

/-! ## Paths -/

/-- The components that `normalize_path` joins. -/
def pathComponents (path : String) : List String :=
  normalizeComponents (startsWith path "/") true ((path.toList.splitOn '/').map String.ofList)

theorem mem_normalizeComponents {absolute beginning : Bool} {parts : List String} {c : String}
    (h : c ∈ normalizeComponents absolute beginning parts) : c ∈ parts ∧ c ≠ "" ∧ c ≠ "." := by
  induction parts generalizing beginning with
  | nil => cases h
  | cons part parts ih =>
    rw [normalizeComponents] at h
    split_ifs at h with hdot hdotdot
    · exact ⟨List.mem_cons_of_mem _ (ih h).1, (ih h).2⟩
    · exact ⟨List.mem_cons_of_mem _ (ih h).1, (ih h).2⟩
    · cases List.mem_cons.mp h with
      | inl heq => exact ⟨by rw [heq]; exact List.mem_cons_self, heq ▸ not_or.mp hdot⟩
      | inr htail => exact ⟨List.mem_cons_of_mem _ (ih htail).1, (ih htail).2⟩

theorem slash_not_mem_of_mem_pathComponents {path c : String} (h : c ∈ pathComponents path) :
    '/' ∉ c.toList := by
  obtain ⟨piece, hpiece, rfl⟩ := List.mem_map.mp (mem_normalizeComponents h).1
  rw [String.toList_ofList]
  exact not_mem_of_mem_splitOn hpiece

theorem toList_normalizePath (path : String) :
    (normalizePath path).toList = ['/'].intercalate ((pathComponents path).map String.toList) :=
  String.toList_intercalate

/-- The normal form is split into the components it was joined from. -/
theorem splitOn_normalizePath {path : String} (h : pathComponents path ≠ []) :
    (normalizePath path).toList.splitOn '/' = (pathComponents path).map String.toList := by
  rw [toList_normalizePath]
  apply List.splitOn_intercalate
  · intro l hl
    obtain ⟨c, hc, rfl⟩ := List.mem_map.mp hl
    exact slash_not_mem_of_mem_pathComponents hc
  · simpa using h

theorem normalizePath_eq_empty (path : String) :
    normalizePath path = "" ↔ pathComponents path = [] := by
  constructor
  · intro h
    by_contra hne
    have hsplit := splitOn_normalizePath hne
    rw [h, String.toList_empty, List.splitOn_nil] at hsplit
    obtain ⟨c, hc, hempty⟩ := List.map_eq_singleton_iff.mp hsplit.symm
    have hmem : c ∈ pathComponents path := by simp [hc]
    exact (mem_normalizeComponents hmem).2.1 (String.toList_eq_nil_iff.mp hempty)
  · intro h
    apply String.toList_eq_nil_iff.mp
    rw [toList_normalizePath, h]
    rfl

/-- The normal form behind a slash is a normalised path, if no component is `..`. -/
theorem isNormalizedPath_slash {path : String} (hne : pathComponents path ≠ [])
    (hdotdot : ".." ∉ pathComponents path) :
    isNormalizedPath ("/" ++ normalizePath path) = true := by
  have hlist : ("/" ++ normalizePath path).toList = '/' :: (normalizePath path).toList := by
    rw [String.toList_append]
    rfl
  have hsplit : ("/" ++ normalizePath path).toList.splitOn '/' =
      [] :: (pathComponents path).map String.toList := by
    rw [hlist, List.splitOn_cons_eq_if_modifyHead, if_pos (beq_self_eq_true _),
      splitOn_normalizePath hne]
  -- A second slash, or one at the end, would leave an empty component.
  have hempty : [] ∉ (pathComponents path).map String.toList := by
    intro h
    obtain ⟨c, hc, hnil⟩ := List.mem_map.mp h
    exact (mem_normalizeComponents hc).2.1 (String.toList_eq_nil_iff.mp hnil)
  have hpieces : ∀ before after : List Char,
      before ++ '/' :: after = ("/" ++ normalizePath path).toList →
      [] ∉ after.splitOn '/' := by
    intro before after heq hmem
    have happ := List.splitOn_append_cons_self before after (a := '/')
    rw [heq, hsplit] at happ
    obtain ⟨first, rest, hbefore⟩ :=
      List.exists_cons_of_ne_nil (List.splitOn_ne_nil '/' before)
    rw [hbefore, List.cons_append] at happ
    apply hempty
    rw [(List.cons.inj happ).2]
    exact List.mem_append_right rest hmem
  unfold isNormalizedPath
  split_ifs with h0 h1 h2 h3
  · rw [h0, String.toList_empty] at hlist
    cases hlist
  · rfl
  · obtain ⟨before, heq⟩ := h2
    exact absurd List.mem_cons_self (hpieces before [] heq)
  · obtain ⟨before, after, heq⟩ := h3
    rw [List.append_assoc] at heq
    refine absurd ?_ (hpieces before ('/' :: after) heq)
    rw [List.splitOn_cons_eq_if_modifyHead, if_pos (beq_self_eq_true _)]
    exact List.mem_cons_self
  · rw [hsplit, List.all_eq_true]
    intro component hmem
    cases List.mem_cons.mp hmem with
    | inl h => rw [h]; rfl
    | inr h =>
      obtain ⟨c, hc, rfl⟩ := List.mem_map.mp h
      have hdot : c.toList ≠ ".".toList :=
        fun heq => (mem_normalizeComponents hc).2.2 (String.toList_inj.mp heq)
      have hdots : c.toList ≠ "..".toList :=
        fun heq => hdotdot (String.toList_inj.mp heq ▸ hc)
      rw [bne_iff_ne.mpr hdot, bne_iff_ne.mpr hdots]
      rfl

theorem isValidNormalizedPath_iff {path : String} (h : pathComponents path ≠ []) :
    isValidNormalizedPath (normalizePath path) ↔ ".." ∉ pathComponents path := by
  rw [isValidNormalizedPath, splitOn_normalizePath h, List.all_eq_true]
  simp only [List.mem_map, bne_iff_ne, forall_exists_index, and_imp, forall_apply_eq_imp_iff₂,
    ne_eq, String.toList_inj]
  constructor
  · intro hall hmem
    exact hall ".." hmem rfl
  · intro hnot c hc heq
    exact hnot (heq ▸ hc)

/-- The normal form has no slash in front. -/
theorem startsWith_normalizePath {path : String} (h : pathComponents path ≠ []) :
    startsWith (normalizePath path) "/" = false := by
  have hsplit := splitOn_normalizePath h
  unfold startsWith
  cases hcs : (normalizePath path).toList with
  | nil => rfl
  | cons c cs =>
    rw [hcs, List.splitOn_cons_eq_if_modifyHead] at hsplit
    by_cases hc : c = '/'
    · rw [if_pos (by simpa using hc)] at hsplit
      have hmem : [] ∈ (pathComponents path).map String.toList := by
        rw [← hsplit]
        exact List.mem_cons_self
      obtain ⟨d, hd, hnil⟩ := List.mem_map.mp hmem
      exact absurd (String.toList_eq_nil_iff.mp hnil) (mem_normalizeComponents hd).2.1
    · change (('/' == c) && _) = false
      rw [beq_eq_false_iff_ne.mpr (Ne.symm hc)]
      rfl

/-- An accepted path is read back as its normal form behind a slash. -/
theorem unitNamePathUnescape_of_escape {path name : String}
    (h : unitNamePathEscapeChecked path = some name) :
    unitNamePathUnescape name = some ("/" ++ normalizePath path) := by
  unfold unitNamePathEscapeChecked at h
  by_cases hempty : path = ""
  · rw [if_pos hempty] at h
    rw [← Option.some.inj h, hempty]
    decide
  · rw [if_neg hempty] at h
    dsimp only at h
    by_cases hroot : normalizePath path = ""
    · rw [if_pos hroot] at h
      split at h
      · rw [← Option.some.inj h, hroot]
        rfl
      · cases h
    · rw [if_neg hroot] at h
      split at h
      · rename_i hvalid
        have hne : pathComponents path ≠ [] :=
          fun hnil => hroot ((normalizePath_eq_empty path).mpr hnil)
        have hback := unitNameUnescape_unitNameEscape (normalizePath path)
        have hname := Option.some.inj h
        rw [hname] at hback
        unfold unitNamePathUnescape
        split_ifs with h0 h1
        · rw [h0] at hback
          exact absurd (Option.some.inj hback).symm hroot
        · rw [h1] at hback
          have hslash : normalizePath path = "/" := (Option.some.inj hback).symm
          have := startsWith_normalizePath hne
          rw [hslash] at this
          exact absurd this (by decide)
        · rw [hback, Option.bind_some, if_neg hroot, startsWith_normalizePath hne,
            isNormalizedPath_slash hne ((isValidNormalizedPath_iff hne).mp hvalid)]
          rfl
      · cases h

/-- Escaping is reversible: a string is read back from its escaped form, and the
    normalised absolute path from the name of an accepted path. So paths with different
    normal forms never have the same name. -/
theorem unitName_escaping_reversible :
    (∀ s, unitNameUnescape (unitNameEscape s) = some s) ∧
    (∀ path name, unitNamePathEscapeChecked path = some name →
      unitNamePathUnescape name = some ("/" ++ normalizePath path)) ∧
    (∀ p q name, unitNamePathEscapeChecked p = some name →
      unitNamePathEscapeChecked q = some name → normalizePath p = normalizePath q) := by
  refine ⟨unitNameUnescape_unitNameEscape, fun path name => unitNamePathUnescape_of_escape, ?_⟩
  intro p q name hp hq
  have heq := (unitNamePathUnescape_of_escape hp).symm.trans (unitNamePathUnescape_of_escape hq)
  have hlists := congrArg String.toList (Option.some.inj heq)
  rw [String.toList_append, String.toList_append] at hlists
  exact String.toList_inj.mp (List.append_cancel_left hlists)

/-- It applies to a path with a hidden file, a dash and a character that is not ASCII. -/
theorem unitName_escaping_reversible_hidden :
    unitNamePathEscapeChecked "/.é//-/" = some "\\x2e\\xc3\\xa9-\\x2d" ∧
    unitNamePathUnescape "\\x2e\\xc3\\xa9-\\x2d" = some ("/" ++ normalizePath "/.é//-/") :=
  have h : unitNamePathEscapeChecked "/.é//-/" = some "\\x2e\\xc3\\xa9-\\x2d" := by
    decide
  ⟨h, unitName_escaping_reversible.2.1 _ _ h⟩

end OxidizedSystemd.Loading
