import OxidizedSystemd.Lib.Lines
import OxidizedSystemd.UnitParsing.UnitParser

/-!
# Reading back what is written

Unit files as they are written: a line for the header of each section and one for each of its
assignments. `parse_file` reads them back, except for the values that begin with `=`:
`parse_section` takes off every `=` in front of a value, and not just the one that ends the key.

* `sectionsOf_renderLines`: what is read back.
* `parseFile_render_iff`: which files are read back as they were written.
-/

namespace OxidizedSystemd.UnitParsing

open Lib

/-- An assignment that can be written as a line of its own. -/
structure Entry where
  key : Text
  value : Text
  key_equals : '=' ∉ key
  key_newline : '\n' ∉ key
  key_head : ∀ c ∈ key.head?, c ≠ '[' ∧ c ≠ '#' ∧ c ≠ ';'
  key_trim : trim key = key
  value_newline : '\n' ∉ value
  value_trim : trim value = value
  value_last : value.getLast? ≠ some '\\'

/-- A section that can be written. -/
structure UnitSection where
  name : Text
  name_newline : '\n' ∉ name
  entries : List Entry

/-- `[Section]`. -/
def UnitSection.header (s : UnitSection) : Text := '[' :: (s.name ++ [']'])

/-- `key=value`. -/
def Entry.line (e : Entry) : Text := e.key ++ '=' :: e.value

/-- The lines of sections. -/
def renderLines (sections : List UnitSection) : List Text :=
  sections.flatMap fun s => s.header :: s.entries.map Entry.line

/-- The text of sections. -/
def render (sections : List UnitSection) : Text := (renderLines sections).flatMap (· ++ ['\n'])

/-- What is written, with the upper case of the keys. -/
def written (u : UpperCase) (sections : List UnitSection) : Sections :=
  sections.map fun s => (s.header, s.entries.map fun e => (u.toUppercase e.key, e.value))

/-! ## Lines -/

/-- A line that is joined with no other and has no blanks around it. -/
structure Plain (line : Text) : Prop where
  newline : '\n' ∉ line
  trimmed : trim line = line
  last : line.getLast? ≠ some '\\'

theorem Entry.plain (e : Entry) : Plain e.line := by
  obtain ⟨hkey, -⟩ := trim_eq_self_iff.mp e.key_trim
  obtain ⟨-, hvalue⟩ := trim_eq_self_iff.mp e.value_trim
  have hlast : e.line.getLast? = some (e.value.getLast?.getD '=') := by
    rw [Entry.line, List.getLast?_append, List.getLast?_cons]
    rfl
  refine ⟨?_, trim_eq_self_iff.mpr ⟨?_, ?_⟩, ?_⟩
  · simp [Entry.line, e.key_newline, e.value_newline]
  · intro c hc
    rw [Entry.line] at hc
    cases h : e.key with
    | nil =>
      rw [h] at hc
      obtain rfl : '=' = c := by simpa using hc
      decide
    | cons k ks =>
      rw [h] at hc
      exact hkey c (by simpa [h] using hc)
  · intro c hc
    rw [hlast] at hc
    cases h : e.value.getLast? with
    | none =>
      obtain rfl : '=' = c := by simpa [h] using hc
      decide
    | some v => exact hvalue c (by simpa [h] using hc)
  · rw [hlast]
    cases h : e.value.getLast? with
    | none => decide
    | some v =>
      intro hv
      exact e.value_last (by simpa [h] using hv)

theorem UnitSection.plain (s : UnitSection) : Plain s.header := by
  have hlast : s.header.getLast? = some ']' := by simp [UnitSection.header, List.getLast?_cons]
  refine ⟨?_, trim_eq_self_iff.mpr ⟨?_, ?_⟩, ?_⟩
  · simp [UnitSection.header, s.name_newline]
  · intro c hc
    obtain rfl : '[' = c := by simpa [UnitSection.header] using hc
    decide
  · intro c hc
    rw [hlast] at hc
    obtain rfl : ']' = c := by simpa using hc
    decide
  · rw [hlast]
    decide

theorem plain_of_mem_renderLines {sections : List UnitSection} {line : Text}
    (h : line ∈ renderLines sections) : Plain line := by
  obtain ⟨s, -, hs⟩ := List.mem_flatMap.mp h
  rcases List.mem_cons.mp hs with rfl | hs
  · exact s.plain
  · obtain ⟨e, -, rfl⟩ := List.mem_map.mp hs
    exact e.plain

theorem continuation_of_plain {line : Text} (h : Plain line) : continuation (trim line) = none := by
  rw [h.trimmed, continuation, if_neg h.last]

/-- Plain lines stay as they are. -/
theorem joinLines_plain {lines : List Text} (h : ∀ line ∈ lines, Plain line) (rest : List Text) :
    joinLines [] (lines ++ rest) = lines ++ joinLines [] rest := by
  induction lines with
  | nil => rfl
  | cons line lines ih =>
    obtain ⟨hline, hlines⟩ := List.forall_mem_cons.mp h
    rw [List.cons_append, joinLines, continuation_of_plain hline, hline.trimmed]
    simp [appendPiece, ih hlines]

/-! ## What is read back -/

variable {u : UpperCase}

/-- What is read of a value: the text behind every `=` in front of it. -/
def readValue (value : Text) : Text := trim (value.dropWhile (· = '='))

theorem assignment_line (e : Entry) :
    assignment u e.line = some (u.toUppercase e.key, readValue e.value) := by
  have hkey : ∀ c ∈ e.key, decide (c ≠ '=') = true := by
    intro c hc
    apply decide_eq_true
    rintro rfl
    exact e.key_equals hc
  have htake : e.line.takeWhile (· ≠ '=') = e.key := by
    rw [Entry.line, List.takeWhile_append_of_pos hkey]
    simp
  have hdrop : e.line.dropWhile (· ≠ '=') = '=' :: e.value := by
    rw [Entry.line, List.dropWhile_append_of_pos hkey]
    simp
  rw [assignment, hdrop, htake, e.key_trim]
  rfl

theorem lineEntry_line (e : Entry) :
    lineEntry u e.line = some (u.toUppercase e.key, readValue e.value) := by
  rw [lineEntry, if_neg, assignment_line]
  rw [Entry.line]
  intro h
  cases hkey : e.key with
  | nil => simp [hkey] at h
  | cons k ks =>
    have hhead := (e.key_head k (by simp [hkey])).2.1
    simp [hkey, hhead] at h

theorem isHeader_line (e : Entry) : isHeader e.line = false := by
  rw [Entry.line, isHeader]
  cases hkey : e.key with
  | nil => rfl
  | cons k ks =>
    have hhead := (e.key_head k (by simp [hkey])).1
    simp [hhead]

theorem isHeader_header (s : UnitSection) : isHeader s.header = true := rfl

theorem lineEntries_lines (es : List Entry) :
    lineEntries u (es.map Entry.line) =
      es.map fun e => (u.toUppercase e.key, readValue e.value) := by
  rw [lineEntries, List.filterMap_map]
  exact List.filterMap_eq_map_iff_forall_eq_some.mpr fun e _ => lineEntry_line e

/-- The lines behind the assignments of a section assign nothing more. -/
theorem lineEntries_takeWhile_renderLines (sections : List UnitSection) :
    lineEntries u ((renderLines sections ++ [[]]).takeWhile (!isHeader ·)) = [] := by
  cases sections with
  | nil => rfl
  | cons s sections =>
    rw [renderLines, List.flatMap_cons, List.cons_append, List.cons_append, List.takeWhile_cons,
      isHeader_header]
    rfl

theorem sectionsOf_renderLines (sections : List UnitSection) :
    sectionsOf u (renderLines sections ++ [[]]) =
      sections.map fun s =>
        (s.header, s.entries.map fun e => (u.toUppercase e.key, readValue e.value)) := by
  induction sections with
  | nil => rfl
  | cons s sections ih =>
    have hbody : ∀ line ∈ s.entries.map Entry.line, isHeader line = false := by
      intro line hline
      obtain ⟨e, -, rfl⟩ := List.mem_map.mp hline
      exact isHeader_line e
    have hsplit : renderLines (s :: sections) ++ [[]] =
        s.header :: (s.entries.map Entry.line ++ (renderLines sections ++ [[]])) := by
      simp [renderLines]
    rw [hsplit, sectionsOf_header (isHeader_header s), sectionsOf_body hbody, ih,
      List.takeWhile_append_of_pos fun line hline => by rw [hbody line hline]; rfl, lineEntries,
      List.filterMap_append, ← lineEntries, ← lineEntries, lineEntries_lines,
      lineEntries_takeWhile_renderLines, List.append_nil, List.map_cons]

/-- What is read back of a file that is written. -/
theorem contents_parseFile_render (sections : List UnitSection) :
    (parseFile u (render sections)).contents =
      Sections.contents (sections.map fun s =>
        (s.header, s.entries.map fun e => (u.toUppercase e.key, readValue e.value))) := by
  have hplain : ∀ line ∈ renderLines sections, Plain line := fun _ => plain_of_mem_renderLines
  rw [parseFile, render, splitOn_flatMap fun line hline => (hplain line hline).newline,
    joinLines_plain hplain, contents_parseJoined]
  exact congrArg Sections.contents (sectionsOf_renderLines sections)

/-- Only the `=` signs in front of a value are lost. -/
theorem readValue_eq_self_iff (e : Entry) :
    readValue e.value = e.value ↔ e.value.head? ≠ some '=' := by
  rw [readValue]
  constructor
  · intro h hhead
    cases hv : e.value with
    | nil => simp [hv] at hhead
    | cons c cs =>
      obtain rfl : c = '=' := by simpa [hv] using hhead
      rw [hv, List.dropWhile_cons, decide_eq_true rfl] at h
      have hlen := congrArg List.length h
      have htrim := length_trim_le (cs.dropWhile (· = '='))
      have hdrop := (List.dropWhile_sublist (fun c => decide (c = '=')) (l := cs)).length_le
      simp only [if_true, List.length_cons] at hlen
      omega
  · intro hhead
    rw [dropWhile_eq_self_iff_head?.mpr, e.value_trim]
    intro c hc
    apply decide_eq_false
    rintro rfl
    exact hhead hc

/-- A unit file is read back as it was written exactly when no value begins with `=`. -/
theorem parseFile_render_iff (u : UpperCase) (sections : List UnitSection) :
    (parseFile u (render sections)).contents = (written u sections).contents ↔
      ∀ s ∈ sections, ∀ e ∈ s.entries, e.value.head? ≠ some '=' := by
  have hread : (sections.map fun s =>
      (s.header, s.entries.map fun e => (u.toUppercase e.key, readValue e.value))) =
        (written u sections).mapValues readValue := by
    rw [written, Sections.mapValues, List.map_map]
    simp [Function.comp_def]
  rw [contents_parseFile_render, hread, contents_mapValues_iff]
  simp only [written, List.forall_mem_map, readValue_eq_self_iff]

/-- `[S]` with `a==b`. -/
def doubleEquals : UnitSection :=
  { name := ['S']
    name_newline := by decide
    entries := [
      { key := ['a']
        value := ['=', 'b']
        key_equals := by decide
        key_newline := by decide
        key_head := by simp
        key_trim := by decide
        value_newline := by decide
        value_trim := by decide
        value_last := by decide }] }

/-- The value of `a==b` is read as `b`. -/
theorem double_equals_lost :
    ¬ ∀ u sections, (parseFile u (render sections)).contents = (written u sections).contents := by
  intro h
  have hcontents := congrFun (h UpperCase.ascii [doubleEquals]) doubleEquals.header
  have hvalues := congrArg (Option.map (· ['A'])) hcontents
  exact absurd hvalues (by decide)

end OxidizedSystemd.UnitParsing
