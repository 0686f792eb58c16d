import OxidizedSystemd.Units.Basic

/-!
# Escaping of unit names

Models of `unit_name_escape` and `unit_name_path_escape` (`unit_name.rs`), which
name the device unit behind a mount.

* `unitNameEscape_chars`: what an escaped name consists of. In particular it has
  no `/`.
-/

namespace OxidizedSystemd.Loading

open OxidizedSystemd.Units

/-- `is_valid_char` (`unit_name.rs`, lines 24–26). -/
def isValidChar (c : Char) : Bool := c.isAlphanum || c == ':' || c == '_' || c == '.'

/-- `format!("\\x{:02x}", b)`. -/
def hexByte (b : UInt8) : List Char :=
  ['\\', 'x', Nat.digitChar (b.toNat / 16), Nat.digitChar (b.toNat % 16)]

/-- One character of the loop of `unit_name_escape`, at index `i`. -/
def escapeChar (c : Char) (i : ℕ) : List Char :=
  if c = '/' then ['-']
  else if i = 0 ∧ c = '.' then hexByte 0x2e
  else if isValidChar c then [c]
  else (String.utf8EncodeChar c).flatMap hexByte

/-- `unit_name_escape` (`unit_name.rs`, lines 44–70). -/
def unitNameEscape (s : String) : String :=
  String.ofList (s.toList.zipIdx.flatMap fun (c, i) => escapeChar c i)

/-- The loop of `normalize_path`: empty components and `.` are dropped, and `..`
    while nothing else has come yet (`beginning`) in an absolute path. -/
def normalizeComponents (absolute : Bool) (beginning : Bool) : List String → List String
  | [] => []
  | part :: parts =>
    if part = "" ∨ part = "." then normalizeComponents absolute beginning parts
    else if part = ".." ∧ absolute ∧ beginning then normalizeComponents absolute beginning parts
    else part :: normalizeComponents absolute false parts

/-- `normalize_path` (`unit_name.rs`, lines 545–568). -/
def normalizePath (path : String) : String :=
  let parts := (path.toList.splitOn '/').map String.ofList
  "/".intercalate (normalizeComponents (startsWith path "/") true parts)

/-- `unit_name_path_escape` (`unit_name.rs`, lines 177–183). -/
def unitNamePathEscape (path : String) : String :=
  let normalized := normalizePath path
  if normalized = "" then "-" else unitNameEscape normalized

/-! ## Characters of an escaped name -/

/-- A character of an escaped name. -/
def IsEscaped (c : Char) : Prop := isValidChar c ∨ c = '-' ∨ c = '\\'

theorem isValidChar_digitChar : ∀ n < 16, isValidChar (Nat.digitChar n) := by decide

theorem isEscaped_of_mem_hexByte {b : UInt8} {c : Char} (h : c ∈ hexByte b) : IsEscaped c := by
  have hlt : b.toNat < 256 := b.toNat_lt
  simp only [hexByte, List.mem_cons, List.not_mem_nil, or_false] at h
  rcases h with rfl | rfl | rfl | rfl
  · exact Or.inr (Or.inr rfl)
  · exact Or.inl (by decide)
  · exact Or.inl (isValidChar_digitChar _ (by omega))
  · exact Or.inl (isValidChar_digitChar _ (by omega))

theorem isEscaped_of_mem_escapeChar {c x : Char} {i : ℕ} (h : x ∈ escapeChar c i) :
    IsEscaped x := by
  unfold escapeChar at h
  split_ifs at h with _ _ hvalid
  · rw [List.mem_singleton] at h
    exact Or.inr (Or.inl h)
  · exact isEscaped_of_mem_hexByte h
  · rw [List.mem_singleton] at h
    rw [h]
    exact Or.inl hvalid
  · obtain ⟨b, _, hb⟩ := List.mem_flatMap.mp h
    exact isEscaped_of_mem_hexByte hb

/-- An escaped name has letters, digits, `:`, `_`, `.`, `-` and `\` only. -/
theorem unitNameEscape_chars (s : String) : ∀ c ∈ (unitNameEscape s).toList, IsEscaped c := by
  intro c hc
  rw [unitNameEscape, String.toList_ofList, List.mem_flatMap] at hc
  obtain ⟨⟨x, i⟩, _, hx⟩ := hc
  exact isEscaped_of_mem_escapeChar hx

theorem unitNamePathEscape_chars (path : String) :
    ∀ c ∈ (unitNamePathEscape path).toList, IsEscaped c := by
  intro c hc
  simp only [unitNamePathEscape] at hc
  split_ifs at hc
  · have hdash : c = '-' := by simpa using hc
    exact Or.inr (Or.inl hdash)
  · exact unitNameEscape_chars _ c hc

example : unitNamePathEscape "/dev//disk/./by-label/x y" = "dev-disk-by\\x2dlabel-x\\x20y" := by
  decide

end OxidizedSystemd.Loading
