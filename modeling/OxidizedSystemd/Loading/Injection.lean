import OxidizedSystemd.Loading.Specifier
import OxidizedSystemd.UnitParsing.Shape

/-!
# Instances and directives

Specifiers are expanded in the text of a unit before it is split into lines, and some of them
unescape the instance: what stands for one may have a line feed or end with a backslash.

* `splitOn_expandSpecifiers`: the lines of an expanded text, line by line.
* `sameShape_resolve_iff`: when the text parses as it does before it is expanded.
-/

namespace OxidizedSystemd.Loading

open Lib UnitParsing

/-! ## Lines -/

/-- The lines that a line is expanded to. -/
def expandedLines (value : Char → Text) (line : Text) : List Text :=
  (expandSpecifiers value line).splitOn '\n'

variable {value : Char → Text}

theorem expandSpecifiers_cons_of_ne {c : Char} (h : c ≠ '%') (rest : Text) :
    expandSpecifiers value (c :: rest) = c :: expandSpecifiers value rest := by
  rw [expandSpecifiers]
  · intro hc
    exact absurd hc h
  · intro spec rest' hc
    exact absurd hc h

theorem expandSpecifiers_append_of_not_mem {front : Text} (h : '%' ∉ front) (rest : Text) :
    expandSpecifiers value (front ++ rest) = front ++ expandSpecifiers value rest := by
  induction front with
  | nil => rfl
  | cons c front ih =>
    rw [List.mem_cons, not_or] at h
    rw [List.cons_append, expandSpecifiers_cons_of_ne (Ne.symm h.1), ih h.2]
    rfl

/-- A text without specifiers. -/
theorem expandSpecifiers_of_not_mem {text : Text} (h : '%' ∉ text) :
    expandSpecifiers value text = text := by
  have happend : expandSpecifiers value (text ++ []) = text ++ expandSpecifiers value [] :=
    expandSpecifiers_append_of_not_mem h []
  rw [List.append_nil] at happend
  exact happend.trans (List.append_nil text)

/-- A line feed is no specifier. -/
theorem expandSpecifiers_append_newline (hnewline : value '\n' = ['%', '\n']) (line rest : Text) :
    expandSpecifiers value (line ++ '\n' :: rest) =
      expandSpecifiers value line ++ '\n' :: expandSpecifiers value rest := by
  induction line using expandSpecifiers.induct with
  | case1 => exact expandSpecifiers_cons_of_ne (by decide) rest
  | case2 =>
    show value '\n' ++ expandSpecifiers value rest = _
    rw [hnewline]
    rfl
  | case3 spec line ih =>
    show value spec ++ expandSpecifiers value (line ++ '\n' :: rest) = _
    rw [ih, ← List.append_assoc]
    rfl
  | case4 c line hone hmore ih =>
    have hc : c ≠ '%' := by
      rintro rfl
      cases line with
      | nil => exact hone rfl rfl
      | cons spec line => exact hmore spec line rfl rfl
    rw [List.cons_append, expandSpecifiers_cons_of_ne hc, expandSpecifiers_cons_of_ne hc, ih]
    rfl

/-- The lines of an expanded text, line by line. -/
theorem splitOn_expandSpecifiers (hnewline : value '\n' = ['%', '\n']) (content : Text) :
    (expandSpecifiers value content).splitOn '\n' =
      (content.splitOn '\n').flatMap (expandedLines value) := by
  have hlines : ∀ lines : List Text, lines ≠ [] →
      (expandSpecifiers value (['\n'].intercalate lines)).splitOn '\n' =
        lines.flatMap (expandedLines value) := by
    intro lines
    induction lines with
    | nil => exact fun h => absurd rfl h
    | cons line lines ih =>
      intro _
      cases lines with
      | nil => simp [expandedLines]
      | cons line' lines =>
        rw [List.intercalate_cons_cons, List.append_assoc, List.singleton_append,
          expandSpecifiers_append_newline hnewline, List.splitOn_append_cons_self,
          ih (List.cons_ne_nil _ _)]
        rfl
  have hcontent := hlines (content.splitOn '\n') (List.splitOn_ne_nil _ _)
  rwa [List.intercalate_splitOn] at hcontent

/-! ## Lines that differ in a value -/

/-- Equal texts, or texts that are equal up to a `=`. -/
def Alike (a a' : Text) : Prop :=
  a = a' ∨ ∃ front rest rest', a = front ++ '=' :: rest ∧ a' = front ++ '=' :: rest'

variable {a a' b b' : Text} {u : UpperCase}

theorem Alike.isEmpty_eq (h : Alike a a') : a.isEmpty = a'.isEmpty := by
  rcases h with rfl | ⟨front, rest, rest', rfl, rfl⟩
  · rfl
  · cases front <;> rfl

theorem Alike.isHeader_eq (h : Alike a a') : isHeader a = isHeader a' := by
  rcases h with rfl | ⟨front, rest, rest', rfl, rfl⟩
  · rfl
  · cases front with
    | nil => rfl
    | cons c front => rfl

theorem Alike.trim (h : Alike a a') : Alike (trim a) (trim a') := by
  rcases h with rfl | ⟨front, rest, rest', rfl, rfl⟩
  · exact Or.inl rfl
  · exact Or.inr ⟨front.dropWhile isWhitespace, trimEnd rest, trimEnd rest',
      trim_append_cons front (by decide) rest, trim_append_cons front (by decide) rest'⟩

theorem continuation_append_cons {front rest piece : Text}
    (h : continuation (front ++ '=' :: rest) = some piece) :
    ∃ rest', piece = front ++ '=' :: rest' := by
  unfold continuation at h
  split at h
  · rename_i hlast
    have hne : rest ≠ [] := by
      rintro rfl
      rw [List.getLast?_append, List.getLast?_singleton] at hlast
      exact absurd (Option.some.inj hlast) (by decide)
    have hdrop : (front ++ '=' :: rest).dropLast = front ++ '=' :: rest.dropLast := by
      rw [List.dropLast_append_of_ne_nil (List.cons_ne_nil _ _), List.dropLast_cons_of_ne_nil hne]
    rw [hdrop, trimEnd_append_cons front (by decide)] at h
    exact ⟨trimEnd rest.dropLast, (Option.some.inj h).symm⟩
  · cases h

theorem Alike.continuation (h : Alike a a') (hb : continuation a = some b)
    (hb' : continuation a' = some b') : Alike b b' := by
  rcases h with rfl | ⟨front, rest, rest', rfl, rfl⟩
  · exact Or.inl (Option.some.inj (hb.symm.trans hb'))
  · obtain ⟨rest₀, rfl⟩ := continuation_append_cons hb
    obtain ⟨rest₁, rfl⟩ := continuation_append_cons hb'
    exact Or.inr ⟨front, rest₀, rest₁, rfl, rfl⟩

theorem Alike.appendPiece (h : Alike a a') (hb : Alike b b') :
    Alike (appendPiece a b) (appendPiece a' b') := by
  unfold UnitParsing.appendPiece
  rw [← h.isEmpty_eq]
  split
  · exact hb
  · rcases h with rfl | ⟨front, rest, rest', rfl, rfl⟩
    · rcases hb with rfl | ⟨front, rest, rest', rfl, rfl⟩
      · exact Or.inl rfl
      · exact Or.inr ⟨a ++ ' ' :: front, rest, rest', by simp, by simp⟩
    · exact Or.inr ⟨front, rest ++ ' ' :: b, rest' ++ ' ' :: b', by simp, by simp⟩

theorem assignment_append_cons (front rest : Text) :
    (assignment u (front ++ '=' :: rest)).map Prod.fst =
      some (u.toUppercase (Lib.trim (front.takeWhile (· ≠ '=')))) := by
  unfold assignment
  have hdrop : (front ++ '=' :: rest).dropWhile (· ≠ '=') ≠ [] := by
    intro hnil
    have hall := List.dropWhile_eq_nil_iff.mp hnil '=' (by simp)
    simp at hall
  have htake : (front ++ '=' :: rest).takeWhile (· ≠ '=') = front.takeWhile (· ≠ '=') := by
    rw [List.takeWhile_append]
    split
    · rename_i hlen
      have hfront : front.takeWhile (fun c => decide (c ≠ '=')) = front :=
        (List.takeWhile_prefix _).eq_of_length hlen
      rw [hfront]
      simp
    · rfl
  split
  · rename_i hnil
    exact absurd hnil hdrop
  · rw [htake]
    rfl

/-- The key of a line does not depend on its value. -/
theorem Alike.lineEntry (h : Alike a a') :
    (lineEntry u a).map Prod.fst = (lineEntry u a').map Prod.fst := by
  rcases h with rfl | ⟨front, rest, rest', rfl, rfl⟩
  · rfl
  · have hhead : (front ++ '=' :: rest).head? = (front ++ '=' :: rest').head? := by
      cases front with
      | nil => rfl
      | cons c front => rfl
    unfold UnitParsing.lineEntry
    rw [hhead]
    split
    · rfl
    · rw [assignment_append_cons, assignment_append_cons]

/-! ## Templates -/

/-- Specifiers stand only behind the first `=` of a line. -/
def InValue (line : Text) : Prop := '%' ∉ line.takeWhile (· ≠ '=')

def SpecifiersInValues (content : Text) : Prop := ∀ line ∈ content.splitOn '\n', InValue line

/-- A line is expanded behind its first `=`. -/
theorem alike_expandedLines {line : Text} (hvalue : InValue line) (hnewline : '\n' ∉ line) :
    ∃ first added, expandedLines value line = first :: added ∧ Alike line first := by
  have hsplit := List.takeWhile_append_dropWhile (p := fun c => decide (c ≠ '=')) (l := line)
  unfold InValue at hvalue
  cases hdrop : line.dropWhile (· ≠ '=') with
  | nil =>
    have htake : line.takeWhile (· ≠ '=') = line := by
      rw [hdrop, List.append_nil] at hsplit
      exact hsplit
    rw [htake] at hvalue
    refine ⟨line, [], ?_, Or.inl rfl⟩
    rw [expandedLines, expandSpecifiers_of_not_mem hvalue, List.splitOn_eq_singleton hnewline]
  | cons c rest =>
    have hc : c = '=' := by
      have hhead := List.head?_dropWhile_not (fun c => decide (c ≠ '=')) line
      rw [hdrop] at hhead
      simpa using hhead
    subst hc
    rw [hdrop] at hsplit
    generalize line.takeWhile (· ≠ '=') = front at hsplit hvalue
    subst hsplit
    have hfront : '\n' ∉ front ++ ['='] := by
      intro hmem
      apply hnewline
      rw [List.mem_append, List.mem_singleton] at hmem
      rw [List.mem_append, List.mem_cons]
      exact hmem.imp_right Or.inl
    obtain ⟨first, added, hrest⟩ : ∃ first added,
        (expandSpecifiers value rest).splitOn '\n' = first :: added :=
      List.exists_cons_of_ne_nil (List.splitOn_ne_nil _ _)
    refine ⟨front ++ '=' :: first, added, ?_, Or.inr ⟨front, rest, first, rfl, rfl⟩⟩
    have hexpand : expandSpecifiers value (front ++ '=' :: rest) =
        (front ++ ['=']) ++ expandSpecifiers value rest := by
      rw [expandSpecifiers_append_of_not_mem hvalue, expandSpecifiers_cons_of_ne (by decide)]
      simp
    rw [expandedLines, hexpand, splitOn_append_of_not_mem hfront, hrest]
    simp

/-! ## Places -/

/-- A line with what is accumulated before it, and whether a header stands before what follows. -/
structure Place where
  accumulator : Text
  behindHeader : Bool
  line : Text
  deriving DecidableEq

/-- The lines of a template with their places, as the lines are joined. -/
def places (accumulator : Text) (behindHeader : Bool) : List Text → List Place
  | [] => []
  | raw :: rest =>
    match continuation (trim raw) with
    | some piece =>
      ⟨accumulator, behindHeader, raw⟩ :: places (appendPiece accumulator piece) behindHeader rest
    | none =>
      let behindHeader := behindHeader || isHeader (appendPiece accumulator (trim raw))
      ⟨accumulator, behindHeader, raw⟩ :: places [] behindHeader rest

/-- What stands for the specifiers of a line adds no header, continues no line that is not
    continued, and ends no line that is. A header has no specifiers. -/
structure Unbroken (value : Char → Text) (p : Place) : Prop where
  continued : ∀ piece ∈ expandedLines value p.line,
    (continuation (trim piece)).isSome = (continuation (trim p.line)).isSome
  whole : (continuation (trim p.line)).isSome → '\n' ∉ expandSpecifiers value p.line
  header : isHeader (appendPiece p.accumulator (trim p.line)) →
    expandSpecifiers value p.line = p.line
  added : ∀ piece ∈ (expandedLines value p.line).tail, isHeader (trim piece) = false

/-- The lines that are added behind a header assign nothing. -/
def AddsNothing (u : UpperCase) (value : Char → Text) (p : Place) : Prop :=
  p.behindHeader = true →
    ∀ piece ∈ (expandedLines value p.line).tail, lineEntry u (trim piece) = none

/-! ## Joined lines -/

theorem joinLines_of_not_continued {pieces : List Text}
    (h : ∀ piece ∈ pieces, continuation (trim piece) = none) (rest : List Text) :
    joinLines [] (pieces ++ rest) = pieces.map trim ++ joinLines [] rest := by
  induction pieces with
  | nil => rfl
  | cons piece pieces ih =>
    obtain ⟨hpiece, hpieces⟩ := List.forall_mem_cons.mp h
    rw [List.cons_append, joinLines, hpiece]
    exact congrArg _ (ih hpieces)

theorem assigned_append {lines : List Text} (h : ∀ line ∈ lines, isHeader line = false)
    (header : Option Text) (rest : List Text) :
    assigned u header (lines ++ rest) = assigned u header lines ++ assigned u header rest := by
  induction lines with
  | nil => rfl
  | cons line lines ih =>
    obtain ⟨hline, hlines⟩ := List.forall_mem_cons.mp h
    rw [List.cons_append, assigned, assigned, hline, ih hlines]
    simp

/-- Lines assign nothing where there is no header, or none of them does. -/
theorem assigned_eq_nil_iff {lines : List Text} (h : ∀ line ∈ lines, isHeader line = false)
    (header : Option Text) : assigned u header lines = [] ↔
      (header.isSome = true → ∀ line ∈ lines, lineEntry u line = none) := by
  induction lines with
  | nil => simp [assigned]
  | cons line lines ih =>
    obtain ⟨hline, hlines⟩ := List.forall_mem_cons.mp h
    rw [assigned, hline, if_neg (by simp), List.append_eq_nil_iff, ih hlines]
    cases header with
    | none => simp
    | some name => simp

/-- Two lines with the same header or key, with what follows them. -/
theorem assigned_alike (h : Alike a a') (hheader : isHeader a → a = a') (header : Option Text)
    (rest rest' : List Text) : ∃ front header',
      header'.isSome = (header.isSome || isHeader a) ∧
      assigned u header (a :: rest) = front ++ assigned u header' rest ∧
      assigned u header (a' :: rest') = front ++ assigned u header' rest' := by
  rw [assigned, assigned, ← h.isHeader_eq]
  by_cases ha : isHeader a
  · rw [if_pos ha, if_pos ha, ← hheader ha]
    exact ⟨[], some a, by simp [ha], rfl, rfl⟩
  · rw [if_neg ha, if_neg ha]
    have hentry : (header.bind fun h => (lineEntry u a').map fun e => (h, e.1)) =
        header.bind fun h => (lineEntry u a).map fun e => (h, e.1) := by
      cases header with
      | none => rfl
      | some name =>
        have hkey := congrArg (Option.map fun key : Text => (name, key)) (h.lineEntry (u := u))
        rw [Option.map_map, Option.map_map] at hkey
        exact hkey.symm
    rw [hentry]
    exact ⟨_, header, by simp [ha], rfl, rfl⟩

theorem isHeader_appendPiece {accumulator : Text} (h : accumulator ≠ []) (piece : Text) :
    isHeader (appendPiece accumulator piece) = isHeader accumulator := by
  rw [appendPiece_of_ne_nil h]
  cases accumulator with
  | nil => exact absurd rfl h
  | cons c accumulator => rfl

/-- A continued line that begins with a header. -/
theorem isHeader_of_continuation {trimmed piece : Text} (h : continuation trimmed = some piece)
    (hheader : isHeader piece) : isHeader trimmed := by
  unfold continuation at h
  split at h
  · have hprefix : piece <+: trimmed := by
      rw [← Option.some.inj h]
      refine List.IsPrefix.trans ?_ (List.dropLast_prefix _)
      apply trimEnd_prefix
    obtain ⟨rest, rfl⟩ := hprefix
    cases piece with
    | nil => cases hheader
    | cons c piece => exact hheader
  · cases h

/-- A header is put together from equal pieces. -/
theorem appendPiece_eq_of_isHeader {piece piece' : Text} (h : Alike a a')
    (hheader : isHeader a → a = a') (hpiece : isHeader (appendPiece a piece) → piece = piece')
    (hjoined : isHeader (appendPiece a piece)) : appendPiece a piece = appendPiece a' piece' := by
  have ha : a = a' := by
    by_cases hnil : a = []
    · subst hnil
      have hempty := h.isEmpty_eq
      rw [List.isEmpty_nil, eq_comm, List.isEmpty_iff] at hempty
      exact hempty.symm
    · rw [isHeader_appendPiece hnil] at hjoined
      exact hheader hjoined
  rw [← hpiece hjoined, ← ha]

/-- What joined lines and the lines of the expanded text have in common. -/
structure Grown (u : UpperCase) (header : Option Text) (lines lines' : List Text)
    (same : Prop) : Prop where
  headers : lines'.filter isHeader = lines.filter isHeader
  sublist : (assigned u header lines).Sublist (assigned u header lines')
  eq_iff : assigned u header lines = assigned u header lines' ↔ same

theorem grown_expanded {lines : List Text} (hvalue : ∀ line ∈ lines, InValue line)
    (hnewline : ∀ line ∈ lines, '\n' ∉ line) (header : Option Text) (h : Alike a a')
    (hheader : isHeader a → a = a')
    (hunbroken : ∀ p ∈ places a header.isSome lines, Unbroken value p) :
    Grown u header (joinLines a lines) (joinLines a' (lines.flatMap (expandedLines value)))
      (∀ p ∈ places a header.isSome lines, AddsNothing u value p) := by
  induction lines generalizing a a' header with
  | nil =>
    rw [List.flatMap_nil, joinLines, joinLines, ← h.isEmpty_eq, places]
    split
    · exact ⟨rfl, List.Sublist.refl _, iff_of_true rfl (by simp)⟩
    · obtain ⟨front, header', -, hfront, hfront'⟩ := assigned_alike (u := u) h hheader header [] []
      refine ⟨?_, by rw [hfront, hfront'], iff_of_true (by rw [hfront, hfront']) (by simp)⟩
      by_cases ha : isHeader a
      · rw [← hheader ha]
      · have ha' : ¬ isHeader a' := h.isHeader_eq ▸ ha
        simp [ha, ha']
  | cons raw rest ih =>
    obtain ⟨hvalueRaw, hvalueRest⟩ := List.forall_mem_cons.mp hvalue
    obtain ⟨hnewlineRaw, hnewlineRest⟩ := List.forall_mem_cons.mp hnewline
    obtain ⟨first, added, hlines, halike⟩ : ∃ first added,
        expandedLines value raw = first :: added ∧ Alike raw first :=
      alike_expandedLines hvalueRaw hnewlineRaw
    have hwholeLine : expandSpecifiers value raw = raw → first = raw ∧ added = [] := by
      intro heq
      rw [expandedLines, heq, List.splitOn_eq_singleton hnewlineRaw] at hlines
      exact ⟨(List.cons.inj hlines).1.symm, (List.cons.inj hlines).2.symm⟩
    rw [List.flatMap_cons, hlines, List.cons_append]
    cases hcont : continuation (trim raw) with
    | some piece =>
      have hplaces : places a header.isSome (raw :: rest) =
          ⟨a, header.isSome, raw⟩ :: places (appendPiece a piece) header.isSome rest := by
        rw [places, hcont]
      rw [hplaces] at hunbroken ⊢
      obtain ⟨hplace, hrest⟩ := List.forall_mem_cons.mp hunbroken
      -- a continued line has no added lines
      have hadded : added = [] := by
        have hwhole := hplace.whole (by rw [hcont]; rfl)
        rw [expandedLines, List.splitOn_eq_singleton hwhole] at hlines
        exact (List.cons.inj hlines).2.symm
      have hfirst : (continuation (trim first)).isSome = true := by
        rw [hplace.continued first (by rw [hlines]; exact List.mem_cons_self), hcont]
        rfl
      obtain ⟨piece', hcont'⟩ := Option.isSome_iff_exists.mp hfirst
      have hpieces := halike.trim.continuation hcont hcont'
      have hjoined : isHeader (appendPiece a piece) →
          appendPiece a piece = appendPiece a' piece' := by
        intro hisHeader
        apply appendPiece_eq_of_isHeader h hheader _ hisHeader
        intro _
        have hraw : isHeader (appendPiece a (trim raw)) := by
          by_cases hnil : a = []
          · subst hnil
            exact isHeader_of_continuation hcont hisHeader
          · rw [isHeader_appendPiece hnil] at hisHeader ⊢
            exact hisHeader
        rw [(hwholeLine (hplace.header hraw)).1, hcont] at hcont'
        exact Option.some.inj hcont'
      have hgrown := ih hvalueRest hnewlineRest header (h.appendPiece hpieces) hjoined hrest
      rw [hadded, List.nil_append, joinLines, hcont, joinLines, hcont']
      refine ⟨hgrown.headers, hgrown.sublist, hgrown.eq_iff.trans ?_⟩
      rw [List.forall_mem_cons]
      refine ⟨fun hall => ⟨fun _ => ?_, hall⟩, And.right⟩
      rw [hlines, hadded]
      exact fun _ hmem => absurd hmem List.not_mem_nil
    | none =>
      have hplaces : places a header.isSome (raw :: rest) = ⟨a, header.isSome ||
          isHeader (appendPiece a (trim raw)), raw⟩ ::
            places [] (header.isSome || isHeader (appendPiece a (trim raw))) rest := by
        rw [places, hcont]
      rw [hplaces] at hunbroken ⊢
      obtain ⟨hplace, hrest⟩ := List.forall_mem_cons.mp hunbroken
      have hpieces : ∀ piece ∈ first :: added, continuation (trim piece) = none := by
        intro piece hpiece
        have hsome := hplace.continued piece (hlines ▸ hpiece)
        rw [hcont] at hsome
        simpa using hsome
      obtain ⟨hfirst, hadded⟩ := List.forall_mem_cons.mp hpieces
      have hnoHeader : ∀ line ∈ added.map trim, isHeader line = false := by
        intro line hline
        obtain ⟨piece, hpiece, rfl⟩ := List.mem_map.mp hline
        exact hplace.added piece (by rw [hlines]; exact hpiece)
      have hjoined : isHeader (appendPiece a (trim raw)) →
          appendPiece a (trim raw) = appendPiece a' (trim first) := by
        intro hisHeader
        apply appendPiece_eq_of_isHeader h hheader _ hisHeader
        intro hraw
        rw [(hwholeLine (hplace.header hraw)).1]
      have halikeJoined := h.appendPiece halike.trim
      rw [joinLines, hcont, joinLines, hfirst]
      dsimp only
      rw [joinLines_of_not_continued hadded]
      obtain ⟨front, header', hsome, hfront, hfront'⟩ :=
        assigned_alike (u := u) halikeJoined hjoined header (joinLines [] rest)
          (added.map trim ++ joinLines [] (rest.flatMap (expandedLines value)))
      rw [← hsome] at hrest ⊢
      have hgrown := ih hvalueRest hnewlineRest header' (Or.inl rfl) (fun _ => rfl) hrest
      rw [assigned_append hnoHeader] at hfront'
      refine ⟨?_, ?_, ?_⟩
      · have hfilter : (added.map trim).filter isHeader = [] := by
          apply List.filter_eq_nil_iff.mpr
          intro line hline
          simp [hnoHeader line hline]
        by_cases hisHeader : isHeader (appendPiece a (trim raw))
        · rw [← hjoined hisHeader, List.filter_cons_of_pos hisHeader,
            List.filter_cons_of_pos hisHeader, List.filter_append, hfilter, hgrown.headers]
          rfl
        · have hisHeader' : ¬ isHeader (appendPiece a' (trim first)) :=
            halikeJoined.isHeader_eq ▸ hisHeader
          rw [List.filter_cons_of_neg hisHeader, List.filter_cons_of_neg hisHeader',
            List.filter_append, hfilter, hgrown.headers]
          rfl
      · rw [hfront, hfront']
        exact (hgrown.sublist.trans (List.sublist_append_right _ _)).append_left front
      · rw [hfront, hfront', List.append_cancel_left_eq, List.forall_mem_cons, ← hgrown.eq_iff]
        have hnothing : AddsNothing u value ⟨a, header'.isSome, raw⟩ ↔
            assigned u header' (added.map trim) = [] := by
          rw [assigned_eq_nil_iff hnoHeader, List.forall_mem_map]
          unfold AddsNothing
          rw [hlines]
          rfl
        rw [hnothing]
        constructor
        · intro heq
          have hlen := congrArg List.length heq
          have hle := hgrown.sublist.length_le
          rw [List.length_append] at hlen
          have hnil : assigned u header' (added.map trim) = [] :=
            List.length_eq_zero_iff.mp (by omega)
          rw [hnil, List.nil_append] at heq
          exact ⟨hnil, heq⟩
        · rintro ⟨hnil, heq⟩
          rw [hnil, List.nil_append]
          exact heq

/-! ## The result -/

/-- Where what stands for specifiers breaks no line, an expanded text parses to the shape of its
    template if and only if the lines that are added assign nothing. -/
theorem sameShape_resolve_iff (u : UpperCase) (ctx : SpecifierContext)
    (content unitName inst : Text)
    (hvalues : SpecifiersInValues content)
    (hunbroken : ∀ p ∈ places [] false (content.splitOn '\n'),
      Unbroken (specifierValue ctx unitName inst) p) :
    SameShape (parseFile u (resolveSpecifiers ctx content unitName inst)) (parseFile u content) ↔
      ∀ p ∈ places [] false (content.splitOn '\n'),
        AddsNothing u (specifierValue ctx unitName inst) p := by
  have hgrown : Grown u none (joinLines [] (content.splitOn '\n'))
      (joinLines [] ((content.splitOn '\n').flatMap
        (expandedLines (specifierValue ctx unitName inst)))) _ :=
    grown_expanded hvalues (fun line hline => not_mem_of_mem_splitOn hline) none (Or.inl rfl)
      (fun _ => rfl) hunbroken
  rw [parseFile, parseFile, resolveSpecifiers, splitOn_expandSpecifiers rfl, sameShape_iff]
  refine Iff.trans ?_ hgrown.eq_iff
  constructor
  · rintro ⟨-, hcount⟩
    have hperm := List.perm_iff_count.mpr hcount
    exact hgrown.sublist.eq_of_length hperm.length_eq.symm
  · intro heq
    exact ⟨fun header => by rw [hgrown.headers], fun p => by rw [heq]⟩

/-- A plain instance changes nothing. -/
theorem sameShape_plain_instance : SameShape
    (parseFile .ascii (resolveSpecifiers emptyContext "[S]\nK=%I".toList "a@x.service".toList
      "x".toList))
    (parseFile .ascii "[S]\nK=%I".toList) := by
  have hplaces : places [] false ("[S]\nK=%I".toList.splitOn '\n') =
      [⟨[], true, "[S]".toList⟩, ⟨[], true, "K=%I".toList⟩] := by decide
  have hheader : expandedLines (specifierValue emptyContext "a@x.service".toList "x".toList)
      "[S]".toList = ["[S]".toList] := by decide
  have hvalue : expandedLines (specifierValue emptyContext "a@x.service".toList "x".toList)
      "K=%I".toList = ["K=x".toList] := by decide
  refine (sameShape_resolve_iff .ascii emptyContext _ _ _ ?_ ?_).mpr ?_
  · unfold SpecifiersInValues InValue
    decide
  · rw [hplaces]
    intro p hp
    rw [List.mem_cons, List.mem_singleton] at hp
    rcases hp with rfl | rfl
    · constructor
      · rw [hheader]
        decide
      · decide
      · decide
      · rw [hheader]
        decide
    · constructor
      · rw [hvalue]
        decide
      · decide
      · decide
      · rw [hvalue]
        decide
  · rw [hplaces]
    intro p hp _
    rw [List.mem_cons, List.mem_singleton] at hp
    rcases hp with rfl | rfl
    · rw [hheader]
      decide
    · rw [hvalue]
      decide

/-- An instance whose escapes stand for a line feed and a `=` adds a key. -/
theorem instance_adds_key :
    (∀ c ∈ "x\\x0aE\\x3dy".toList, IsEscaped c) ∧ SpecifiersInValues "[S]\nK=%I".toList ∧
      ¬ SameShape
        (parseFile .ascii (resolveSpecifiers emptyContext "[S]\nK=%I".toList
          "a@x\\x0aE\\x3dy.service".toList "x\\x0aE\\x3dy".toList))
        (parseFile .ascii "[S]\nK=%I".toList) := by
  refine ⟨?_, by unfold SpecifiersInValues InValue; decide, ?_⟩
  · have hall : ("x\\x0aE\\x3dy".toList.all fun c => isValidChar c || c == '\\') = true := by
      decide
    intro c hc
    have hchar := List.all_eq_true.mp hall c hc
    rw [Bool.or_eq_true, beq_iff_eq] at hchar
    exact hchar.imp_right Or.inr
  · intro h
    have hresolved : resolveSpecifiers emptyContext "[S]\nK=%I".toList
        "a@x\\x0aE\\x3dy.service".toList "x\\x0aE\\x3dy".toList = "[S]\nK=x\nE=y".toList := by
      decide +kernel
    rw [hresolved] at h
    have hcount := (sameShape_iff.mp h).2 ("[S]".toList, "E".toList)
    revert hcount
    decide

end OxidizedSystemd.Loading
