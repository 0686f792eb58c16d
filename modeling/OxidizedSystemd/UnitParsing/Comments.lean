import Mathlib.Data.List.TakeWhile
import OxidizedSystemd.UnitParsing.Render

/-!
# Comments

What a comment line does to the parse of a unit file. Continued lines are joined before comments
are looked for, and `parse_section` knows only the comments that begin with `#`.

* `joinLines_append`: the lines of a text, joined up to some place and from there on.
* `comment_inert_iff`: the comments that change nothing, whatever follows them.
-/

namespace OxidizedSystemd.UnitParsing

open Lib

/-! ## Joining -/

/-- The lines that are complete behind some lines, and what is accumulated there. -/
def joinPrefix (accumulator : Text) : List Text → List Text × Text
  | [] => ([], accumulator)
  | raw :: rest =>
    match continuation (trim raw) with
    | some piece => joinPrefix (appendPiece accumulator piece) rest
    | none =>
      (appendPiece accumulator (trim raw) :: (joinPrefix [] rest).1, (joinPrefix [] rest).2)

/-- The lines are joined up to some place and from there on. -/
theorem joinLines_append (accumulator : Text) (as bs : List Text) :
    joinLines accumulator (as ++ bs) =
      (joinPrefix accumulator as).1 ++ joinLines (joinPrefix accumulator as).2 bs := by
  induction as generalizing accumulator with
  | nil => rfl
  | cons raw rest ih =>
    rw [List.cons_append, joinLines, joinPrefix]
    cases continuation (trim raw) with
    | some piece => exact ih _
    | none => exact congrArg _ (ih [])

theorem appendPiece_of_ne_nil {accumulator : Text} (h : accumulator ≠ []) (piece : Text) :
    appendPiece accumulator piece = accumulator ++ ' ' :: piece := by
  rw [appendPiece, if_neg (by simpa using h)]

/-- What is accumulated begins the line that the rest is joined to. -/
theorem joinLines_of_ne_nil (lines : List Text) : ∃ tail rest, ∀ accumulator, accumulator ≠ [] →
    joinLines accumulator lines = (accumulator ++ tail) :: rest := by
  induction lines with
  | nil =>
    refine ⟨[], [], fun accumulator h => ?_⟩
    rw [joinLines, if_neg (by simpa using h), List.append_nil]
  | cons raw lines ih =>
    cases hpiece : continuation (trim raw) with
    | some piece =>
      obtain ⟨tail, rest, hrest⟩ := ih
      refine ⟨' ' :: piece ++ tail, rest, fun accumulator h => ?_⟩
      rw [joinLines, hpiece]
      simp only [appendPiece_of_ne_nil h]
      rw [hrest _ (by simp), List.append_assoc]
    | none =>
      refine ⟨' ' :: trim raw, joinLines [] lines, fun accumulator h => ?_⟩
      rw [joinLines, hpiece]
      simp only [appendPiece_of_ne_nil h]

/-! ## Lines and sections -/

variable {u : UpperCase}

theorem lineEntries_append (as bs : List Text) :
    lineEntries u (as ++ bs) = lineEntries u as ++ lineEntries u bs := List.filterMap_append

/-- A header ends the section before it. -/
theorem sectionsOf_append_header {line : Text} (h : isHeader line) (as bs : List Text) :
    sectionsOf u (as ++ line :: bs) = sectionsOf u as ++ sectionsOf u (line :: bs) := by
  induction as with
  | nil => rfl
  | cons a as ih =>
    rw [List.cons_append, sectionsOf, blocks, sectionsOf, blocks]
    cases ha : isHeader a with
    | false => exact ih
    | true =>
      have htake : (as ++ line :: bs).takeWhile (!isHeader ·) = as.takeWhile (!isHeader ·) := by
        rw [List.takeWhile_append]
        split
        · rename_i hlen
          simp [h, (List.takeWhile_prefix _).eq_of_length hlen]
        · rfl
      simp only [if_true, List.map_cons, htake, List.cons_append]
      exact congrArg _ ih

/-- The last header of some lines. -/
theorem exists_last_header {lines : List Text} (h : ∃ line ∈ lines, isHeader line) :
    ∃ as header body, lines = as ++ header :: body ∧ isHeader header ∧
      ∀ line ∈ body, isHeader line = false := by
  induction lines with
  | nil => simp at h
  | cons line lines ih =>
    by_cases hlines : ∃ line ∈ lines, isHeader line
    · obtain ⟨as, header, body, rfl, hheader, hbody⟩ := ih hlines
      exact ⟨line :: as, header, body, rfl, hheader, hbody⟩
    · refine ⟨[], line, lines, rfl, ?_, fun l hl => ?_⟩
      · obtain ⟨l, hl, hheader⟩ := h
        rcases List.mem_cons.mp hl with rfl | hl
        · exact hheader
        · exact absurd ⟨l, hl, hheader⟩ hlines
      · simpa using fun hheader => hlines ⟨l, hl, hheader⟩

/-- The lines behind a header are its section, up to the next header. -/
theorem sectionsOf_last {as body rest : List Text} {header : Text} (h : isHeader header)
    (hbody : ∀ line ∈ body, isHeader line = false) :
    sectionsOf u (as ++ header :: body ++ rest) =
      sectionsOf u as ++
        (header, lineEntries u body ++ lineEntries u (rest.takeWhile (!isHeader ·))) ::
          sectionsOf u rest := by
  rw [List.append_assoc, List.cons_append, sectionsOf_append_header h, sectionsOf_header h,
    sectionsOf_body hbody,
    List.takeWhile_append_of_pos fun line hline => by rw [hbody line hline]; rfl,
    lineEntries_append]

/-- A line without a header before it. -/
theorem sectionsOf_before_headers {as : List Text} (h : ¬ ∃ line ∈ as, isHeader line)
    (bs : List Text) : sectionsOf u (as ++ bs) = sectionsOf u bs :=
  sectionsOf_body (fun line hline => by simpa using fun hheader => h ⟨line, hline, hheader⟩) bs

/-- The sections with a line that is no header put between others. -/
theorem sectionsOf_insert {as : List Text} (h : ∃ line ∈ as, isHeader line) (bs : List Text) :
    ∃ front header entries more back, ∀ line, isHeader line = false →
      sectionsOf u (as ++ line :: bs) =
          front ++ (header, entries ++ (lineEntry u line).toList ++ more) :: back ∧
        sectionsOf u (as ++ bs) = front ++ (header, entries ++ more) :: back := by
  obtain ⟨as, header, body, rfl, hheader, hbody⟩ := exists_last_header h
  refine ⟨sectionsOf u as, header, lineEntries u body,
    lineEntries u (bs.takeWhile (!isHeader ·)), sectionsOf u bs, fun line hline => ⟨?_, ?_⟩⟩
  · have htake : (line :: bs).takeWhile (!isHeader ·) = line :: bs.takeWhile (!isHeader ·) := by
      rw [List.takeWhile_cons, hline]
      rfl
    have hentries : lineEntries u (line :: bs.takeWhile (!isHeader ·)) =
        (lineEntry u line).toList ++ lineEntries u (bs.takeWhile (!isHeader ·)) := by
      cases h : lineEntry u line with
      | none => simp [lineEntries, h]
      | some e => simp [lineEntries, h]
    rw [sectionsOf_last hheader hbody, htake, sectionsOf_skip hline, hentries, List.append_assoc]
  · exact sectionsOf_last hheader hbody

/-! ## What differs -/

theorem entriesAt_append (s t : Sections) (header : Text) :
    (s ++ t).entriesAt header = s.entriesAt header ++ t.entriesAt header := by
  rw [Sections.entriesAt, valuesAt_append, List.flatten_append]
  rfl

theorem entriesAt_cons (header : Text) (entries : List (Text × Text)) (s : Sections) :
    Sections.entriesAt ((header, entries) :: s) header = entries ++ s.entriesAt header := by
  rw [Sections.entriesAt, valuesAt_cons, if_pos rfl, List.flatten_cons]
  rfl

/-- One entry in a section is seen. -/
theorem contents_entry_inj {front back : Sections} {header : Text}
    {entries more : List (Text × Text)} {e e' : Option (Text × Text)}
    (h : Sections.contents (front ++ (header, entries ++ e.toList ++ more) :: back) =
      Sections.contents (front ++ (header, entries ++ e'.toList ++ more) :: back)) : e = e' := by
  have hvalues : ∀ key, valuesAt e.toList key = valuesAt e'.toList key := by
    intro key
    have hkey := (contents_eq_iff.mp h).2 header key
    simpa [entriesAt_append, entriesAt_cons, valuesAt_append] using hkey
  cases e with
  | none =>
    cases e' with
    | none => rfl
    | some e' => simpa [valuesAt_cons] using hvalues e'.1
  | some e =>
    cases e' with
    | none => simpa [valuesAt_cons] using hvalues e.1
    | some e' =>
      have hkey := hvalues e.1
      by_cases hne : e'.1 = e.1
      · rw [Option.some_inj]
        apply Prod.ext hne.symm
        simpa [valuesAt_cons, hne] using hkey
      · simp [valuesAt_cons, hne] at hkey

/-- A line that assigns something else changes the contents. -/
theorem lineEntry_eq_of_contents {as : List Text} (h : ∃ line ∈ as, isHeader line)
    {bs : List Text} {line line' : Text} (hline : isHeader line = false)
    (hline' : isHeader line' = false)
    (hcontents : (sectionsOf u (as ++ line :: bs)).contents =
      (sectionsOf u (as ++ line' :: bs)).contents) : lineEntry u line = lineEntry u line' := by
  obtain ⟨front, header, entries, more, back, hinsert⟩ := sectionsOf_insert (u := u) h bs
  rw [(hinsert line hline).1, (hinsert line' hline').1] at hcontents
  exact contents_entry_inj hcontents

/-- A line changes the contents exactly when it assigns something behind a header. -/
theorem contents_insert_iff {as : List Text} {line : Text} (hline : isHeader line = false)
    (bs : List Text) : (sectionsOf u (as ++ line :: bs)).contents =
      (sectionsOf u (as ++ bs)).contents ↔
        lineEntry u line = none ∨ ¬ ∃ header ∈ as, isHeader header := by
  by_cases h : ∃ header ∈ as, isHeader header
  · obtain ⟨front, header, entries, more, back, hinsert⟩ := sectionsOf_insert (u := u) h bs
    rw [(hinsert line hline).1, (hinsert line hline).2, or_iff_left (not_not.mpr h)]
    constructor
    · intro hcontents
      have hnone : entries ++ more = entries ++ (none : Option (Text × Text)).toList ++ more := by
        simp
      rw [hnone] at hcontents
      exact contents_entry_inj hcontents
    · intro hnone
      simp [hnone]
  · rw [sectionsOf_before_headers h, sectionsOf_before_headers h]
    exact iff_of_true (congrArg _ (sectionsOf_skip hline bs)) (.inr h)

/-- The headers of a file are its header lines. -/
theorem valuesAt_sectionsOf_ne_nil {lines : List Text} {header : Text} :
    valuesAt (sectionsOf u lines) header ≠ [] ↔ header ∈ lines ∧ isHeader header := by
  induction lines with
  | nil => simp [sectionsOf, blocks]
  | cons line lines ih =>
    cases hline : isHeader line with
    | false =>
      rw [sectionsOf_skip hline, ih, List.mem_cons]
      constructor
      · exact fun h => ⟨.inr h.1, h.2⟩
      · rintro ⟨rfl | hmem, hheader⟩
        · rw [hline] at hheader
          cases hheader
        · exact ⟨hmem, hheader⟩
    | true =>
      rw [sectionsOf_header hline, valuesAt_cons, List.mem_cons]
      by_cases heq : line = header
      · subst heq
        simp [hline]
      · rw [if_neg heq, ih]
        simp [Ne.symm heq]

/-- A header that only one of two files has. -/
theorem contents_ne_of_header {as bs : List Text} {header : Text} (h : isHeader header)
    (has : header ∈ as) (hbs : header ∉ bs) :
    (sectionsOf u as).contents ≠ (sectionsOf u bs).contents := by
  intro hcontents
  have hmem := valuesAt_sectionsOf_ne_nil (u := u).mpr ⟨has, h⟩
  rw [ne_eq, (contents_eq_iff.mp hcontents).1, ← ne_eq, valuesAt_sectionsOf_ne_nil] at hmem
  exact hbs hmem.1

theorem lineEntry_eq_none_iff {line : Text} :
    lineEntry u line = none ↔ line.head? = some '#' ∨ '=' ∉ line := by
  have hassign : assignment u line = none ↔ '=' ∉ line := by
    have hdrop : line.dropWhile (· ≠ '=') = [] ↔ '=' ∉ line := by
      rw [List.dropWhile_eq_nil_iff]
      constructor
      · intro h hmem
        simpa using h '=' hmem
      · intro h c hc
        apply decide_eq_true
        rintro rfl
        exact h hc
    rw [← hdrop, assignment]
    split
    · rename_i h
      exact iff_of_true rfl h
    · rename_i h
      exact iff_of_false (by simp) h
  rw [lineEntry]
  by_cases h : line.head? = some '#'
  · simp [h]
  · simp [h, hassign]

/-! ## Comment lines -/

/-- A line whose first character that is not blank is `#` or `;`. -/
structure CommentLine where
  text : Text
  newline : '\n' ∉ text
  mark : (trim text).head? = some '#' ∨ (trim text).head? = some ';'

/-- The comment without the blanks around it. -/
def CommentLine.trimmed (comment : CommentLine) : Text := trim comment.text

/-- Behind the complete lines and what is accumulated: the comment is a line that assigns nothing,
    or it goes into a line that assigns nothing. -/
def CommentInert (lines : List Text) (accumulator : Text) (comment : CommentLine) : Prop :=
  if accumulator = [] then
    comment.trimmed.getLast? ≠ some '\\' ∧
      (comment.trimmed.head? = some '#' ∨ '=' ∉ comment.trimmed ∨
        ¬ ∃ header ∈ lines, isHeader header)
  else
    comment.trimmed.getLast? = some '\\' ∧
      (accumulator.head? = some '#' ∨
        (accumulator.head? ≠ some '[' ∧ ¬ ∃ header ∈ lines, isHeader header))

/-- The text with the comment as a line of its own. -/
def insertComment (before : Text) (comment : CommentLine) (after : Text) : Text :=
  before ++ '\n' :: (comment.text ++ '\n' :: after)

theorem contents_insertComment (before : Text) (comment : CommentLine) (after : Text) :
    (parseFile u (insertComment before comment after)).contents =
      (sectionsOf u ((joinPrefix [] (before.splitOn '\n')).1 ++
        joinLines (joinPrefix [] (before.splitOn '\n')).2
          (comment.text :: after.splitOn '\n'))).contents := by
  rw [parseFile, insertComment, List.splitOn_append_cons_self,
    List.splitOn_append_cons_self_of_not_mem comment.newline, joinLines_append,
    contents_parseJoined]

theorem contents_without_comment (before after : Text) :
    (parseFile u (before ++ '\n' :: after)).contents =
      (sectionsOf u ((joinPrefix [] (before.splitOn '\n')).1 ++
        joinLines (joinPrefix [] (before.splitOn '\n')).2 (after.splitOn '\n'))).contents := by
  rw [parseFile, List.splitOn_append_cons_self, joinLines_append, contents_parseJoined]

theorem CommentLine.isHeader_eq (comment : CommentLine) : isHeader comment.trimmed = false := by
  rw [isHeader, CommentLine.trimmed]
  rcases comment.mark with h | h
  · rw [h]
    rfl
  · rw [h]
    rfl

/-- What a continued comment has in front of its backslash begins with its mark. -/
theorem CommentLine.continuation_eq (comment : CommentLine)
    (h : comment.trimmed.getLast? = some '\\') :
    ∃ mark rest, isWhitespace mark = false ∧ mark ≠ '=' ∧
      continuation comment.trimmed = some (mark :: rest) := by
  have hmark : ∃ mark ∈ comment.trimmed.head?,
      isWhitespace mark = false ∧ mark ≠ '=' ∧ mark ≠ '\\' := by
    rcases comment.mark with hmark | hmark
    · exact ⟨'#', hmark, by decide, by decide, by decide⟩
    · exact ⟨';', hmark, by decide, by decide, by decide⟩
  obtain ⟨mark, hhead, hblank, hequals, hne⟩ := hmark
  obtain ⟨cs, hcs⟩ : ∃ cs, comment.trimmed = mark :: cs := by
    cases hc : comment.trimmed with
    | nil => simp [hc] at hhead
    | cons c cs => exact ⟨cs, by simpa [hc] using hhead⟩
  have hnil : cs ≠ [] := by
    rintro rfl
    simp [hcs, hne] at h
  refine ⟨mark, trimEnd cs.dropLast, hblank, hequals, ?_⟩
  rw [continuation, if_pos h, hcs, List.dropLast_cons_of_ne_nil hnil]
  exact congrArg some (trimEnd_append_cons [] hblank _)

/-- A header that is none of the lines, and longer than all of them. -/
def freshSection (lines : List Text) : UnitSection :=
  { name := List.replicate lines.flatten.length 'Z'
    name_newline := by simp
    entries := [] }

theorem length_lt_freshSection {lines : List Text} {line : Text} (h : line ∈ lines) :
    line.length < (freshSection lines).header.length := by
  have hle := (List.sublist_flatten_of_mem h).length_le
  simp [UnitSection.header, freshSection] at hle ⊢
  omega

theorem joinLines_singleton {line : Text} (h : Plain line) (accumulator : Text) :
    joinLines accumulator (line.splitOn '\n') = [appendPiece accumulator line] := by
  rw [List.splitOn_eq_singleton h.newline, joinLines, continuation_of_plain h, h.trimmed]
  rfl

/-! ## Lines that a comment goes into -/

theorem assignment_of_mem {line : Text} (h : '=' ∈ line) :
    assignment u line = some (u.toUppercase (trim (line.takeWhile (· ≠ '='))),
      trim ((line.dropWhile (· ≠ '=')).dropWhile (· = '='))) := by
  rw [assignment]
  split
  · rename_i hnil
    have := List.dropWhile_eq_nil_iff.mp hnil '=' h
    simp at this
  · rfl

theorem toUppercase_append_ne {cs ds : Text} (h : ds ≠ []) :
    u.toUppercase (cs ++ ds) ≠ u.toUppercase cs := by
  obtain ⟨d, hd⟩ := List.exists_mem_of_ne_nil ds h
  simp only [UpperCase.toUppercase]
  rw [List.flatMap_append, ne_eq, List.append_right_eq_self, List.flatMap_eq_nil_iff]
  exact fun hall => u.upper_ne_nil d (hall d hd)

/-- Text that begins with a mark changes what a line assigns. -/
theorem assignment_ne_of_comment {mark : Char} (hmark : isWhitespace mark = false)
    (hne : mark ≠ '=') (accumulator rest : Text) :
    assignment u (accumulator ++ ' ' :: (mark :: rest ++ [' ', '='])) ≠
      assignment u (accumulator ++ ' ' :: ['=']) := by
  rw [assignment_of_mem (by simp), assignment_of_mem (by simp), ne_eq, Option.some_inj]
  intro h
  obtain ⟨hkey, hvalue⟩ := Prod.mk.inj h
  by_cases hmem : '=' ∈ accumulator
  · -- the comment is part of the value
    have hdrop : accumulator.dropWhile (· ≠ '=') ≠ [] := by
      intro hnil
      have := List.dropWhile_eq_nil_iff.mp hnil '=' hmem
      simp at this
    have hvalues : ∀ tail : Text, ((accumulator ++ ' ' :: tail).dropWhile (· ≠ '=')).dropWhile
        (· = '=') = ((accumulator.dropWhile (· ≠ '=')).dropWhile (· = '=') ++ [' ']) ++ tail := by
      intro tail
      rw [List.dropWhile_append, if_neg (by simpa using hdrop),
        dropWhile_append_of_head? (by simp), List.append_assoc]
      rfl
    rw [hvalues, hvalues, List.cons_append, trim_append_cons _ hmark,
      trim_append_cons _ (by decide), List.append_right_inj] at hvalue
    have hrest := (List.cons.inj hvalue).2
    rw [show rest ++ [' ', '='] = (rest ++ [' ']) ++ '=' :: [] by simp,
      trimEnd_append_cons _ (by decide)] at hrest
    simp [trimEnd] at hrest
  · -- the comment is part of the key
    have hkeep : ∀ c ∈ accumulator ++ [' '], decide (c ≠ '=') = true := by
      intro c hc
      apply decide_eq_true
      rintro rfl
      simp [hmem] at hc
    have hkeys : ∀ tail : Text, (accumulator ++ ' ' :: tail).takeWhile (· ≠ '=') =
        (accumulator ++ [' ']) ++ tail.takeWhile (· ≠ '=') := by
      intro tail
      rw [← List.takeWhile_append_of_pos hkeep, List.append_assoc]
      rfl
    have hmarked : (mark :: rest ++ [' ', '=']).takeWhile (· ≠ '=') =
        mark :: (rest ++ [' ', '=']).takeWhile (· ≠ '=') := by
      rw [List.cons_append, List.takeWhile_cons, if_pos (decide_eq_true hne)]
    obtain ⟨more, hmore⟩ := trimEnd_prefix ((accumulator ++ [' ']).dropWhile isWhitespace)
    have hshort : trim (accumulator ++ [' '] ++ ['='].takeWhile (· ≠ '=')) =
        trimEnd ((accumulator ++ [' ']).dropWhile isWhitespace) := by
      rw [show ['='].takeWhile (· ≠ '=') = ([] : Text) by decide, List.append_nil]
      rfl
    rw [hkeys, hkeys, hmarked, trim_append_cons _ hmark, hshort] at hkey
    generalize trimEnd ((accumulator ++ [' ']).dropWhile isWhitespace) = key at hkey hmore
    rw [← hmore, List.append_assoc] at hkey
    exact toUppercase_append_ne (by simp) hkey

theorem lineEntry_ne_of_comment {accumulator : Text} (hhead : accumulator.head? ≠ some '#')
    (hnil : accumulator ≠ []) {mark : Char} (hmark : isWhitespace mark = false) (hne : mark ≠ '=')
    (rest : Text) :
    lineEntry u (accumulator ++ ' ' :: (mark :: rest ++ [' ', '='])) ≠
      lineEntry u (accumulator ++ ' ' :: ['=']) := by
  have hkeep : ∀ tail, (accumulator ++ tail).head? ≠ some '#' := by
    intro tail
    rwa [List.head?_append_of_ne_nil _ hnil]
  rw [lineEntry, lineEntry, if_neg (hkeep _), if_neg (hkeep _)]
  exact assignment_ne_of_comment hmark hne accumulator rest

/-! ## The comments that change nothing -/

variable {lines : List Text} {accumulator : Text} {comment : CommentLine}

theorem contents_of_inert (h : CommentInert lines accumulator comment) (rest : List Text) :
    (sectionsOf u (lines ++ joinLines accumulator (comment.text :: rest))).contents =
      (sectionsOf u (lines ++ joinLines accumulator rest)).contents := by
  rw [CommentInert] at h
  split at h
  · rename_i hnil
    obtain ⟨hlast, heffect⟩ := h
    have hcontinued : continuation (trim comment.text) = none := if_neg hlast
    rw [hnil, joinLines, hcontinued]
    apply (contents_insert_iff comment.isHeader_eq _).mpr
    rw [lineEntry_eq_none_iff, or_assoc]
    exact heffect
  · rename_i hne
    obtain ⟨hlast, heffect⟩ := h
    obtain ⟨mark, piece, -, -, hpiece⟩ := comment.continuation_eq hlast
    obtain ⟨tail, more, htail⟩ := joinLines_of_ne_nil rest
    rw [joinLines, show continuation (trim comment.text) = some (mark :: piece) from hpiece]
    simp only [appendPiece_of_ne_nil hne]
    rw [htail _ (by simp), htail _ hne, List.append_assoc]
    have hhead : ∀ tail, (accumulator ++ tail).head? = accumulator.head? := fun tail =>
      List.head?_append_of_ne_nil _ hne
    have hnot : ∀ tail, isHeader (accumulator ++ tail) = false := by
      intro tail
      rw [isHeader, hhead]
      rcases heffect with heffect | ⟨heffect, -⟩
      · rw [heffect]
        rfl
      · simpa using heffect
    have hsame : ∀ tail, (sectionsOf u (lines ++ (accumulator ++ tail) :: more)).contents =
        (sectionsOf u (lines ++ more)).contents := by
      intro tail
      apply (contents_insert_iff (hnot tail) more).mpr
      rcases heffect with heffect | ⟨-, heffect⟩
      · exact .inl (lineEntry_eq_none_iff.mpr (.inl ((hhead tail).trans heffect)))
      · exact .inr heffect
    rw [hsame, hsame]

/-- A comment in front of a header that no line has before. -/
theorem inert_of_fresh
    (h : (sectionsOf u (lines ++ joinLines accumulator
        (comment.text :: (freshSection lines).header.splitOn '\n'))).contents =
      (sectionsOf u (lines ++ joinLines accumulator
        ((freshSection lines).header.splitOn '\n'))).contents) :
    (accumulator = [] → comment.trimmed.getLast? ≠ some '\\') ∧
      (accumulator ≠ [] → comment.trimmed.getLast? = some '\\' ∧ accumulator.head? ≠ some '[') := by
  have hplain := (freshSection lines).plain
  have hheader := isHeader_header (freshSection lines)
  have hfresh : ∀ line ∈ lines, line.length < (freshSection lines).header.length := fun _ =>
    length_lt_freshSection
  generalize (freshSection lines).header = fresh at h hplain hheader hfresh
  have hlines : ∀ front, front ++ fresh ∉ lines := by
    intro front hmem
    have hlt := hfresh _ hmem
    rw [List.length_append] at hlt
    omega
  have hlonger : ∀ front, fresh ≠ front ++ ' ' :: fresh := by
    intro front heq
    have hlen := congrArg List.length heq
    simp at hlen
    omega
  rw [joinLines_singleton hplain] at h
  constructor
  · intro hnil hlast
    obtain ⟨mark, piece, -, -, hpiece⟩ := comment.continuation_eq hlast
    rw [hnil, joinLines, show continuation (trim comment.text) = some (mark :: piece) from hpiece]
      at h
    simp only [joinLines_singleton hplain] at h
    refine contents_ne_of_header hheader ?_ ?_ h.symm
    · simp [appendPiece]
    · have hmarked := hlonger (mark :: piece)
      simpa [appendPiece] using ⟨hlines [], hmarked⟩
  · intro hne
    have hlast : comment.trimmed.getLast? = some '\\' := by
      by_contra hlast
      have hcontinued : continuation (trim comment.text) = none := if_neg hlast
      rw [joinLines, hcontinued] at h
      simp only [joinLines_singleton hplain] at h
      refine contents_ne_of_header hheader ?_ ?_ h
      · simp [appendPiece]
      · simpa [appendPiece_of_ne_nil hne] using ⟨hlines [], hlonger accumulator⟩
    refine ⟨hlast, fun hhead => ?_⟩
    obtain ⟨mark, piece, -, -, hpiece⟩ := comment.continuation_eq hlast
    rw [joinLines, show continuation (trim comment.text) = some (mark :: piece) from hpiece] at h
    simp only [joinLines_singleton hplain, appendPiece_of_ne_nil hne] at h
    rw [appendPiece_of_ne_nil (by simp)] at h
    have hjoined : isHeader (accumulator ++ ' ' :: fresh) = true := by
      rw [isHeader, List.head?_append_of_ne_nil _ hne, hhead]
      rfl
    refine contents_ne_of_header hjoined (by simp) ?_ h.symm
    intro hmem
    rcases List.mem_append.mp hmem with hmem | hmem
    · exact hlines (accumulator ++ [' ']) (by simpa using hmem)
    · have hlen := congrArg List.length (List.mem_singleton.mp hmem)
      simp at hlen
      omega

/-- A comment inside a line that assigns something. -/
theorem no_header_of_equals (hne : accumulator ≠ []) (hhead : accumulator.head? ≠ some '#')
    (hbracket : accumulator.head? ≠ some '[')
    (hlast : comment.trimmed.getLast? = some '\\')
    (h : (sectionsOf u (lines ++ joinLines accumulator
        (comment.text :: ['='].splitOn '\n'))).contents =
      (sectionsOf u (lines ++ joinLines accumulator (['='].splitOn '\n'))).contents) :
    ¬ ∃ header ∈ lines, isHeader header := by
  intro hheader
  have hplain : Plain ['='] := ⟨by decide, by decide, by decide⟩
  obtain ⟨mark, piece, hmark, hequals, hpiece⟩ := comment.continuation_eq hlast
  rw [joinLines, show continuation (trim comment.text) = some (mark :: piece) from hpiece] at h
  simp only [joinLines_singleton hplain, appendPiece_of_ne_nil hne] at h
  rw [appendPiece_of_ne_nil (by simp), List.append_assoc, List.cons_append] at h
  have hnot : ∀ tail, isHeader (accumulator ++ tail) = false := by
    intro tail
    rw [isHeader, List.head?_append_of_ne_nil _ hne]
    simpa using hbracket
  exact lineEntry_ne_of_comment hhead hne hmark hequals piece
    (lineEntry_eq_of_contents hheader (hnot _) (hnot _) h)

/-- A comment changes nothing, whatever follows it, exactly when it is inert. -/
theorem comment_inert_iff (u : UpperCase) (before : Text) (comment : CommentLine) :
    (∀ after, (parseFile u (insertComment before comment after)).contents =
      (parseFile u (before ++ '\n' :: after)).contents) ↔
        CommentInert (joinPrefix [] (before.splitOn '\n')).1
          (joinPrefix [] (before.splitOn '\n')).2 comment := by
  simp only [contents_insertComment, contents_without_comment]
  generalize (joinPrefix [] (before.splitOn '\n')).1 = lines
  generalize (joinPrefix [] (before.splitOn '\n')).2 = accumulator
  constructor
  · intro h
    obtain ⟨hnil, hcontinued⟩ := inert_of_fresh (h (freshSection lines).header)
    rw [CommentInert]
    split
    · rename_i haccumulator
      have hlast := hnil haccumulator
      have hjoin : continuation (trim comment.text) = none := if_neg hlast
      have hempty := h []
      rw [haccumulator, joinLines, hjoin] at hempty
      have heffect := (contents_insert_iff comment.isHeader_eq _).mp hempty
      rw [lineEntry_eq_none_iff, or_assoc] at heffect
      exact ⟨hlast, heffect⟩
    · rename_i hne
      obtain ⟨hlast, hbracket⟩ := hcontinued hne
      refine ⟨hlast, ?_⟩
      by_cases hhead : accumulator.head? = some '#'
      · exact .inl hhead
      · exact .inr ⟨hbracket, no_header_of_equals hne hhead hbracket hlast (h ['='])⟩
  · intro h after
    exact contents_of_inert h (after.splitOn '\n')

/-- `;a=b`. -/
def semicolonComment : CommentLine := ⟨[';', 'a', '=', 'b'], by decide, by decide⟩

/-- Behind the header `[S]` the comment `;a=b` is read as the key `;A`. -/
theorem semicolon_comment_assigns :
    ¬ ∀ u before comment after, (parseFile u (insertComment before comment after)).contents =
      (parseFile u (before ++ '\n' :: after)).contents := by
  intro h
  have hcontents := congrFun (h UpperCase.ascii ['[', 'S', ']'] semicolonComment []) ['[', 'S', ']']
  have hvalues := congrArg (Option.map (· [';', 'A'])) hcontents
  exact absurd hvalues (by decide)

end OxidizedSystemd.UnitParsing
