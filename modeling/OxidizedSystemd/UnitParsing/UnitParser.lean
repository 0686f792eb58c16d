import Mathlib.Data.Char
import Mathlib.Data.List.Induction
import Mathlib.Data.List.Lex
import OxidizedSystemd.Lib.Grouping
import OxidizedSystemd.Lib.Text

/-!
# Unit files

Model of `parse_file` and `parse_section` (`libsystemd/src/units/unit_parsing/unit_parser.rs`,
lines 13–106 and 3473–3499). A text is the list of its characters. `str::to_uppercase` is given
by the characters that it has for each one.

* `parseSection_eq`: a section as its assignments by key.
* `get?_parseFile`: the sections of a file as its blocks by header.
-/

namespace OxidizedSystemd.UnitParsing

open Lib

abbrev Text := List Char

/-- `ParsedSection`. -/
abbrev ParsedSection := SortedMap Text (List (ℕ × Text))

/-- `ParsedFile`. -/
abbrev ParsedFile := SortedMap Text ParsedSection

/-- The upper case of each character, which is never without characters. -/
structure UpperCase where
  upper : Char → Text
  upper_ne_nil : ∀ c, upper c ≠ []

/-- The upper case of ASCII characters. -/
def UpperCase.ascii : UpperCase := ⟨fun c => [c.toUpper], by simp⟩

/-- `str::to_uppercase`. -/
def UpperCase.toUppercase (u : UpperCase) (text : Text) : Text := text.flatMap u.upper

/-! ## Sections -/

/-- The key and the value of a line, none without a `=` (lines 3484–3491). -/
def assignment (u : UpperCase) (line : Text) : Option (Text × Text) :=
  match line.dropWhile (· ≠ '=') with
  | [] => none
  | value =>
    some (u.toUppercase (trim (line.takeWhile (· ≠ '='))), trim (value.dropWhile (· = '=')))

/-- The body of the loop of `parse_section` (lines 3478–3496). -/
def parseLine (u : UpperCase) (state : ParsedSection × ℕ) (line : Text) : ParsedSection × ℕ :=
  if line.head? = some '#' then state
  else
    match assignment u line with
    | none => state
    | some (name, value) => (extendAt state.1 name [(state.2, value)], state.2 + 1)

/-- `parse_section`. -/
def parseSection (u : UpperCase) (lines : List Text) : ParsedSection :=
  (lines.foldl (parseLine u) (SortedMap.empty, 0)).1

/-! ## Files -/

/-- A piece of a line behind what has been accumulated. -/
def appendPiece (accumulator piece : Text) : Text :=
  if accumulator.isEmpty then piece else accumulator ++ ' ' :: piece

/-- What a continued line has in front of its backslash. -/
def continuation (trimmed : Text) : Option Text :=
  if trimmed.getLast? = some '\\' then some (trimEnd trimmed.dropLast) else none

/-- The lines with the continued ones joined (lines 23–48). -/
def joinLines (accumulator : Text) : List Text → List Text
  | [] => if accumulator.isEmpty then [] else [accumulator]
  | raw :: rest =>
    match continuation (trim raw) with
    | some piece => joinLines (appendPiece accumulator piece) rest
    | none => appendPiece accumulator (trim raw) :: joinLines [] rest

/-- A line that begins a section. -/
def isHeader (line : Text) : Bool := line.head? == some '['

/-- A section is entered, or put behind the one that has its name (lines 71–82 and 91–103). -/
def mergeSection (sections : ParsedFile) (name : Text) (parsed : ParsedSection) : ParsedFile :=
  match sections.get? name with
  | some existing => sections.insert name (extendAll existing parsed)
  | none => sections.insert name parsed

/-- The loop over the lines behind the first header (lines 64–103). -/
def parseLines (u : UpperCase) (sections : ParsedFile) (name : Text) (current : List Text) :
    List Text → ParsedFile
  | [] => mergeSection sections name (parseSection u current)
  | line :: rest =>
    if isHeader line then
      parseLines u (mergeSection sections name (parseSection u current)) line [] rest
    else parseLines u sections name (current ++ [line]) rest

/-- `parse_file` from the joined lines on (lines 50–105). -/
def parseJoined (u : UpperCase) (lines : List Text) : ParsedFile :=
  match lines.dropWhile (!isHeader ·) with
  | [] => SortedMap.empty
  | header :: rest => parseLines u SortedMap.empty header [] rest

/-- `parse_file`. -/
def parseFile (u : UpperCase) (content : Text) : ParsedFile :=
  parseJoined u (joinLines [] (content.splitOn '\n'))

/-! ## A section as its assignments -/

/-- What a line of a section assigns. -/
def lineEntry (u : UpperCase) (line : Text) : Option (Text × Text) :=
  if line.head? = some '#' then none else assignment u line

/-- What the lines of a section assign. -/
def lineEntries (u : UpperCase) (lines : List Text) : List (Text × Text) :=
  lines.filterMap (lineEntry u)

/-- The assignments with their numbers, by their keys. -/
def numbered (n : ℕ) (entries : List (Text × Text)) : List (Text × (ℕ × Text)) :=
  (entries.zipIdx n).map fun e => (e.1.1, (e.2, e.1.2))

variable {u : UpperCase}

theorem parseLine_eq (state : ParsedSection × ℕ) (line : Text) :
    parseLine u state line =
      match lineEntry u line with
      | none => state
      | some (name, value) => (extendAt state.1 name [(state.2, value)], state.2 + 1) := by
  rw [parseLine, lineEntry]
  split
  · rfl
  · rfl

theorem extendAt_groups (ps : List (Text × (ℕ × Text))) (k : Text) (v : ℕ × Text) :
    extendAt (groups ps) k [v] = groups (ps ++ [(k, v)]) := by
  rw [groups, groups, List.foldl_append]
  rfl

theorem foldl_parseLine (lines : List Text) (ps : List (Text × (ℕ × Text))) (n : ℕ) :
    lines.foldl (parseLine u) (groups ps, n) =
      (groups (ps ++ numbered n (lineEntries u lines)), n + (lineEntries u lines).length) := by
  induction lines generalizing ps n with
  | nil => simp [lineEntries, numbered]
  | cons line lines ih =>
    rw [List.foldl_cons, parseLine_eq]
    cases h : lineEntry u line with
    | none =>
      simp only [ih]
      simp [lineEntries, h]
    | some entry =>
      obtain ⟨name, value⟩ := entry
      simp only [extendAt_groups, ih]
      simp [lineEntries, h, numbered]
      omega

/-- A section as its assignments by key. -/
theorem parseSection_eq (lines : List Text) :
    parseSection u lines = groups (numbered 0 (lineEntries u lines)) := by
  have h := foldl_parseLine (u := u) lines [] 0
  rw [List.nil_append] at h
  exact congrArg Prod.fst h

theorem map_numbered (n : ℕ) (entries : List (Text × Text)) :
    (numbered n entries).map (fun p => (p.1, p.2.2)) = entries := by
  rw [numbered, List.map_map]
  exact (List.zipIdx_map_fst n entries)

/-! ## A file as its sections -/

/-- The headers, each with the lines behind it. -/
def blocks : List Text → List (Text × List Text)
  | [] => []
  | line :: rest =>
    if isHeader line then (line, rest.takeWhile (!isHeader ·)) :: blocks rest else blocks rest

/-- The blocks entered one after another. -/
def mergeBlocks (u : UpperCase) (sections : ParsedFile) (bs : List (Text × List Text)) :
    ParsedFile :=
  bs.foldl (fun m b => mergeSection m b.1 (parseSection u b.2)) sections

theorem parseLines_eq (lines : List Text) (sections : ParsedFile) (name : Text)
    (current : List Text) :
    parseLines u sections name current lines =
      mergeBlocks u sections
        ((name, current ++ lines.takeWhile (!isHeader ·)) :: blocks lines) := by
  induction lines generalizing sections name current with
  | nil => simp [parseLines, blocks, mergeBlocks]
  | cons line lines ih =>
    rw [parseLines, blocks, List.takeWhile_cons]
    by_cases h : isHeader line
    · simp only [h, if_true, ih]
      simp [mergeBlocks]
    · simp only [h, ih]
      simp

theorem parseJoined_eq (lines : List Text) :
    parseJoined u lines = mergeBlocks u SortedMap.empty (blocks lines) := by
  induction lines with
  | nil => rfl
  | cons line lines ih =>
    rw [parseJoined, List.dropWhile_cons, blocks]
    by_cases h : isHeader line
    · simp only [h]
      exact parseLines_eq lines SortedMap.empty line []
    · simp only [h]
      exact ih

/-- The sections of a file as its blocks by header. -/
theorem get?_mergeBlocks (bs : List (Text × List Text)) (header : Text) :
    (mergeBlocks u SortedMap.empty bs).get? header =
      (nonEmpty (valuesAt bs header)).map fun parts =>
        groups (parts.flatMap fun lines => numbered 0 (lineEntries u lines)) := by
  induction bs using List.reverseRecOn with
  | nil => rfl
  | append_singleton bs b ih =>
    obtain ⟨name, lines⟩ := b
    have hstep : mergeBlocks u SortedMap.empty (bs ++ [(name, lines)]) =
        mergeSection (mergeBlocks u SortedMap.empty bs) name (parseSection u lines) := by
      rw [mergeBlocks, List.foldl_append]
      rfl
    rw [hstep, valuesAt_append, valuesAt_cons, mergeSection, parseSection_eq]
    by_cases hname : name = header
    · subst hname
      rw [ih]
      cases valuesAt bs name with
      | nil => simp [SortedMap.get?_insert, nonEmpty]
      | cons part parts => simp [SortedMap.get?_insert, nonEmpty, extendAll_groups]
    · have hother : ∀ m v, (SortedMap.insert m name v : ParsedFile).get? header = m.get? header :=
        fun m v => by rw [SortedMap.get?_insert, if_neg (Ne.symm hname)]
      cases (mergeBlocks u SortedMap.empty bs).get? name with
      | none => simp [hother, ih, hname]
      | some existing => simp [hother, ih, hname]

/-! ## Contents -/

/-- The values of a file without their numbers: none for a header that is not there. -/
def ParsedFile.contents (file : ParsedFile) (header : Text) : Option (Text → Option (List Text)) :=
  (file.get? header).map fun parsed key => (parsed.get? key).map (List.map Prod.snd)

/-- The sections of a unit file: their headers, each with what is assigned behind it. -/
abbrev Sections := List (Text × List (Text × Text))

/-- What is assigned behind all headers of one name. -/
def Sections.entriesAt (sections : Sections) (header : Text) : List (Text × Text) :=
  (valuesAt sections header).flatten

/-- The values of sections: none for a header that is not there. -/
def Sections.contents (sections : Sections) (header : Text) :
    Option (Text → Option (List Text)) :=
  if valuesAt sections header = [] then none
  else some fun key => nonEmpty (valuesAt (sections.entriesAt header) key)

theorem contents_eq_iff {s t : Sections} : s.contents = t.contents ↔
    (∀ header, valuesAt s header = [] ↔ valuesAt t header = []) ∧
      ∀ header key, valuesAt (s.entriesAt header) key = valuesAt (t.entriesAt header) key := by
  have hempty : ∀ (s : Sections) header, valuesAt s header = [] →
      ∀ key, valuesAt (s.entriesAt header) key = [] := by
    intro s header h key
    rw [Sections.entriesAt, h]
    rfl
  constructor
  · intro h
    constructor
    · intro header
      have hheader := congrFun h header
      rw [Sections.contents, Sections.contents] at hheader
      by_cases hs : valuesAt s header = []
      · by_cases ht : valuesAt t header = []
        · exact iff_of_true hs ht
        · simp [hs, ht] at hheader
      · by_cases ht : valuesAt t header = []
        · simp [hs, ht] at hheader
        · exact iff_of_false hs ht
    · intro header key
      have hheader := congrFun h header
      rw [Sections.contents, Sections.contents] at hheader
      by_cases hs : valuesAt s header = []
      · by_cases ht : valuesAt t header = []
        · rw [hempty s header hs, hempty t header ht]
        · simp [hs, ht] at hheader
      · by_cases ht : valuesAt t header = []
        · simp [hs, ht] at hheader
        · rw [if_neg hs, if_neg ht] at hheader
          exact nonEmpty_inj.mp (congrFun (Option.some.inj hheader) key)
  · rintro ⟨hheaders, hvalues⟩
    funext header
    rw [Sections.contents, Sections.contents]
    simp only [hheaders, hvalues]

theorem mem_entriesAt {s : Sections} {header : Text} {e : Text × Text} :
    e ∈ s.entriesAt header ↔ ∃ es, (header, es) ∈ s ∧ e ∈ es := by
  rw [Sections.entriesAt, List.mem_flatten]
  simp only [mem_valuesAt]

/-- Sections whose values are mapped. -/
def Sections.mapValues (f : Text → Text) (s : Sections) : Sections :=
  s.map fun p => (p.1, p.2.map fun e => (e.1, f e.2))

/-- Sections keep their contents when each value stays as it is. -/
theorem contents_mapValues_iff {s : Sections} {f : Text → Text} :
    (s.mapValues f).contents = s.contents ↔ ∀ p ∈ s, ∀ e ∈ p.2, f e.2 = e.2 := by
  have hheader : ∀ header, valuesAt (s.mapValues f) header =
      (valuesAt s header).map (List.map fun e => (e.1, f e.2)) := fun header =>
    valuesAt_map (List.map fun e : Text × Text => (e.1, f e.2)) s header
  have hvalues : ∀ header key, valuesAt ((s.mapValues f).entriesAt header) key =
      (valuesAt (s.entriesAt header) key).map f := by
    intro header key
    rw [Sections.entriesAt, hheader, ← List.map_flatten]
    exact valuesAt_map f _ key
  rw [contents_eq_iff]
  constructor
  · rintro ⟨-, h⟩ ⟨header, es⟩ hp ⟨key, value⟩ he
    have hmap := h header key
    rw [hvalues] at hmap
    have hmem : value ∈ valuesAt (s.entriesAt header) key :=
      mem_valuesAt.mpr (mem_entriesAt.mpr ⟨es, hp, he⟩)
    exact List.map_inj_left.mp (hmap.trans (List.map_id _).symm) value hmem
  · intro h
    refine ⟨fun header => ?_, fun header key => ?_⟩
    · rw [hheader, List.map_eq_nil_iff]
    · rw [hvalues]
      refine (List.map_inj_left.mpr fun value hvalue => ?_).trans (List.map_id _)
      obtain ⟨es, hp, he⟩ := mem_entriesAt.mp (mem_valuesAt.mp hvalue)
      exact h (header, es) hp (key, value) he

/-- The sections of joined lines. -/
def sectionsOf (u : UpperCase) (lines : List Text) : Sections :=
  (blocks lines).map fun b => (b.1, lineEntries u b.2)

theorem sectionsOf_header {line : Text} (h : isHeader line) (rest : List Text) :
    sectionsOf u (line :: rest) =
      (line, lineEntries u (rest.takeWhile (!isHeader ·))) :: sectionsOf u rest := by
  rw [sectionsOf, blocks, if_pos h]
  rfl

theorem sectionsOf_skip {line : Text} (h : isHeader line = false) (rest : List Text) :
    sectionsOf u (line :: rest) = sectionsOf u rest := by
  rw [sectionsOf, blocks, h]
  rfl

theorem sectionsOf_body {body : List Text} (h : ∀ line ∈ body, isHeader line = false)
    (rest : List Text) : sectionsOf u (body ++ rest) = sectionsOf u rest := by
  induction body with
  | nil => rfl
  | cons line body ih =>
    obtain ⟨hline, hbody⟩ := List.forall_mem_cons.mp h
    rw [List.cons_append, sectionsOf_skip hline]
    exact ih hbody

/-- A file has the contents of its sections. -/
theorem contents_parseJoined (lines : List Text) :
    (parseJoined u lines).contents = (sectionsOf u lines).contents := by
  funext header
  rw [ParsedFile.contents, parseJoined_eq, get?_mergeBlocks, Sections.contents,
    Sections.entriesAt, sectionsOf, valuesAt_map (lineEntries u)]
  cases h : valuesAt (blocks lines) header with
  | nil => rfl
  | cons part parts =>
    rw [nonEmpty, if_neg (List.cons_ne_nil part parts), if_neg (by simp), Option.map_some,
      Option.map_some, Option.some_inj]
    funext key
    rw [get?_groups, map_nonEmpty, ← valuesAt_map Prod.snd, List.map_flatMap]
    simp only [map_numbered]
    rfl

end OxidizedSystemd.UnitParsing
