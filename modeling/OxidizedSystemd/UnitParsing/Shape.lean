import OxidizedSystemd.UnitParsing.Comments

/-!
# The shape of a unit file

The shape of a parsed file is its headers, their keys and how many values each key has. It is told
by the headers among the lines and by the pairs of a header and a key that the lines assign.

* `sameShape_iff`: files of one shape.
-/

namespace OxidizedSystemd.UnitParsing

open Lib

/-- The same headers, the same keys behind each, and as many values for each key. -/
def SameShape (f f' : ParsedFile) : Prop :=
  ∀ header, (f.contents header).map (fun values key => (values key).map List.length) =
    (f'.contents header).map fun values key => (values key).map List.length

/-- The headers and keys that lines assign, behind a header or none. -/
def assigned (u : UpperCase) (header : Option Text) : List Text → List (Text × Text)
  | [] => []
  | line :: rest =>
    if isHeader line then assigned u (some line) rest
    else
      (header.bind fun h => (lineEntry u line).map fun e => (h, e.1)).toList ++
        assigned u header rest

variable {u : UpperCase} {lines lines' : List Text} {header key : Text}

/-- The headers and keys of sections. -/
def Sections.keys (s : Sections) : List (Text × Text) :=
  s.flatMap fun p => p.2.map fun e => (p.1, e.1)

theorem assigned_eq (lines : List Text) (header : Option Text) : assigned u header lines =
    (header.toList.flatMap fun h => (lineEntries u (lines.takeWhile (!isHeader ·))).map
      fun e => (h, e.1)) ++ (sectionsOf u lines).keys := by
  induction lines generalizing header with
  | nil =>
    cases header with
    | none => rfl
    | some h => rfl
  | cons line lines ih =>
    rw [assigned]
    by_cases hline : isHeader line
    · rw [if_pos hline, ih, sectionsOf_header hline, List.takeWhile_cons, hline]
      cases header with
      | none => simp [Sections.keys]
      | some h => simp [Sections.keys, lineEntries]
    · rw [if_neg hline, ih]
      rw [Bool.not_eq_true] at hline
      rw [sectionsOf_skip hline, List.takeWhile_cons, hline]
      cases header with
      | none => simp
      | some h =>
        cases hentry : lineEntry u line with
        | none => simp [lineEntries, hentry]
        | some e => simp [lineEntries, hentry]

theorem length_valuesAt_entries (es : List (Text × Text)) (header key : Text) :
    (valuesAt es key).length = (es.map fun e => (header, e.1)).count (header, key) := by
  induction es with
  | nil => rfl
  | cons e es ih =>
    rw [valuesAt_cons, List.map_cons, List.count_cons, ← ih]
    by_cases h : e.1 = key
    · simp [h]
    · simp [h]

/-- How often a key is assigned behind a header. -/
theorem length_valuesAt_entriesAt (s : Sections) (header key : Text) :
    (valuesAt (s.entriesAt header) key).length = s.keys.count (header, key) := by
  induction s with
  | nil => rfl
  | cons p s ih =>
    have hentries : Sections.entriesAt (p :: s) header =
        (if p.1 = header then p.2 else []) ++ Sections.entriesAt s header := by
      rw [Sections.entriesAt, valuesAt_cons]
      split
      · rfl
      · rfl
    have hkeys : Sections.keys (p :: s) = (p.2.map fun e => (p.1, e.1)) ++ Sections.keys s := by
      simp [Sections.keys]
    rw [hentries, hkeys, valuesAt_append, List.length_append, List.count_append, ih]
    congr 1
    by_cases h : p.1 = header
    · rw [if_pos h, h]
      exact length_valuesAt_entries p.2 header key
    · rw [if_neg h]
      symm
      apply List.count_eq_zero.mpr
      intro hmem
      obtain ⟨e, -, heq⟩ := List.mem_map.mp hmem
      exact h (Prod.mk.inj heq).1

theorem valuesAt_sectionsOf_eq_nil_iff (lines : List Text) (header : Text) :
    valuesAt (sectionsOf u lines) header = [] ↔ header ∉ lines.filter isHeader := by
  induction lines with
  | nil => simp [sectionsOf, blocks]
  | cons line lines ih =>
    by_cases hline : isHeader line
    · rw [sectionsOf_header hline, valuesAt_cons, List.filter_cons_of_pos hline, List.mem_cons,
        not_or, ← ih]
      by_cases h : line = header
      · simp [h]
      · simp [h, Ne.symm h]
    · rw [sectionsOf_skip (by simpa using hline), List.filter_cons_of_neg hline]
      exact ih

theorem map_length_nonEmpty {α : Type*} (vs : List α) :
    (nonEmpty vs).map List.length = if vs.length = 0 then none else some vs.length := by
  cases vs with
  | nil => rfl
  | cons v vs => rfl

/-- Files have one shape when the same headers are there, and each key is assigned as often behind
    each header. -/
theorem sameShape_iff : SameShape (parseJoined u lines) (parseJoined u lines') ↔
    (∀ header, header ∈ lines.filter isHeader ↔ header ∈ lines'.filter isHeader) ∧
      ∀ p, (assigned u none lines).count p = (assigned u none lines').count p := by
  have hassigned : ∀ lines : List Text, assigned u none lines = (sectionsOf u lines).keys :=
    fun lines => assigned_eq lines none
  have hcontents : ∀ (lines : List Text) (header : Text),
      ((parseJoined u lines).contents header).map (fun values key => (values key).map List.length) =
        if header ∈ lines.filter isHeader then some fun key =>
          if (assigned u none lines).count (header, key) = 0 then none
          else some ((assigned u none lines).count (header, key))
        else none := by
    intro lines header
    rw [contents_parseJoined, Sections.contents]
    by_cases h : header ∈ lines.filter isHeader
    · have hne : valuesAt (sectionsOf u lines) header ≠ [] :=
        fun hnil => (valuesAt_sectionsOf_eq_nil_iff lines header).mp hnil h
      rw [if_neg hne, if_pos h, Option.map_some, Option.some_inj]
      funext key
      rw [map_length_nonEmpty, length_valuesAt_entriesAt, hassigned]
    · rw [if_pos ((valuesAt_sectionsOf_eq_nil_iff lines header).mpr h), if_neg h]
      rfl
  have habsent : ∀ (lines : List Text) (header key : Text), header ∉ lines.filter isHeader →
      (assigned u none lines).count (header, key) = 0 := by
    intro lines header key h
    rw [hassigned, ← length_valuesAt_entriesAt, Sections.entriesAt,
      (valuesAt_sectionsOf_eq_nil_iff lines header).mpr h]
    rfl
  unfold SameShape
  simp only [hcontents]
  constructor
  · intro h
    have hheaders : ∀ header, header ∈ lines.filter isHeader ↔ header ∈ lines'.filter isHeader := by
      intro header
      have hheader := h header
      constructor
      · intro hin
        by_contra hnot
        rw [if_pos hin, if_neg hnot] at hheader
        cases hheader
      · intro hin
        by_contra hnot
        rw [if_neg hnot, if_pos hin] at hheader
        cases hheader
    refine ⟨hheaders, ?_⟩
    rintro ⟨header, key⟩
    by_cases hin : header ∈ lines.filter isHeader
    · have hheader := h header
      rw [if_pos hin, if_pos ((hheaders header).mp hin), Option.some_inj] at hheader
      have hkey := congrFun hheader key
      by_cases hzero : (assigned u none lines).count (header, key) = 0
      · by_cases hzero' : (assigned u none lines').count (header, key) = 0
        · rw [hzero, hzero']
        · rw [if_pos hzero, if_neg hzero'] at hkey
          cases hkey
      · by_cases hzero' : (assigned u none lines').count (header, key) = 0
        · rw [if_neg hzero, if_pos hzero'] at hkey
          cases hkey
        · rw [if_neg hzero, if_neg hzero'] at hkey
          exact Option.some.inj hkey
    · rw [habsent lines header key hin,
        habsent lines' header key fun h => hin ((hheaders header).mpr h)]
  · rintro ⟨hheaders, hcounts⟩ header
    simp only [hheaders, hcounts]

end OxidizedSystemd.UnitParsing
