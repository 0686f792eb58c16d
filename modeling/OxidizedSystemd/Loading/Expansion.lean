import OxidizedSystemd.Loading.Injection
import OxidizedSystemd.Loading.MergeUnits

/-!
# Expanding once

The content that a unit is parsed from, on each path (`unitset_manipulation/insert_new.rs`, lines
284–329, and `units/loading/directory_deps.rs`, lines 1154–1161 and 1490–1500), from the text of the
unit and those of its drop-ins. On the path of `load_new_unit` a drop-in is expanded by itself and
once more with the merged text.

* `parseIniToSections_expand`: the sections of an expanded text.
* `expandedOnce_iff`: when every path expands once.
-/

namespace OxidizedSystemd.Loading

open Lib

/-! ## The paths -/

/-- The instance that `load_new_unit` takes: up to the first dot (lines 313–319). -/
def loadInstance (findName : Text) : Text :=
  match splitOnce ['@'] findName with
  | some (_, rest) => ((splitOnce ['.'] rest).map Prod.fst).getD []
  | none => []

/-- The content that `load_new_unit` parses. -/
def loadNewContent (ctx : SpecifierContext) (findName content : Text) (dropins : List Text) :
    Text :=
  let overrides := dropins.map fun d => resolveSpecifiers ctx d findName (instanceOf findName)
  let finalContent := if overrides = [] then content else mergeUnitContents content overrides
  resolveSpecifiers ctx finalContent findName (loadInstance findName)

/-- The content that `apply_dropins` parses. -/
def applyDropinsContent (ctx : SpecifierContext) (unitName content : Text) (dropins : List Text) :
    Text :=
  mergeUnitContents (resolveSpecifiers ctx content unitName (instanceOf unitName))
    (dropins.map fun d => resolveSpecifiers ctx d unitName (instanceOf unitName))

/-- The content that `instantiate_template` parses. -/
def instantiateContent (ctx : SpecifierContext) (content : Text) (dropins : List Text)
    (instanceUnitName instanceName : Text) : Text :=
  resolveSpecifiers ctx (if dropins = [] then content else mergeUnitContents content dropins)
    instanceUnitName instanceName

/-- The texts are merged as they are, and the result is expanded. -/
def mergedThenExpanded (ctx : SpecifierContext) (unitName inst content : Text)
    (dropins : List Text) : Text :=
  resolveSpecifiers ctx (mergeUnitContents content dropins) unitName inst

/-- Every path parses what is merged and then expanded. -/
structure ExpandedOnce (ctx : SpecifierContext) (unitName content : Text)
    (dropins : List Text) : Prop where
  load : loadNewContent ctx unitName content dropins =
    mergedThenExpanded ctx unitName (instanceOf unitName) content dropins
  apply : dropins ≠ [] → applyDropinsContent ctx unitName content dropins =
    mergedThenExpanded ctx unitName (instanceOf unitName) content dropins
  instantiate : ∀ inst, instantiateContent ctx content dropins unitName inst =
    mergedThenExpanded ctx unitName inst content dropins

/-! ## Sections of a text -/

theorem trim_append_whitespace (cs : Text) {c : Char} (hc : isWhitespace c = true) :
    trim (cs ++ [c]) = trim cs := by
  have hdrop : (cs ++ [c]).dropWhile isWhitespace =
      if cs.dropWhile isWhitespace = [] then [] else cs.dropWhile isWhitespace ++ [c] := by
    rw [List.dropWhile_append]
    simp [hc]
  rw [trim, trim, hdrop]
  split
  · rename_i hnil
    rw [hnil]
  · simp [hc]

theorem trim_stripCr (line : Text) : trim (stripCr line) = trim line := by
  unfold stripCr
  split
  · rename_i hlast
    have hline : line.dropLast ++ ['\r'] = line := List.dropLast_append_getLast? _ hlast
    rw [← trim_append_whitespace line.dropLast (c := '\r') (by decide), hline]
  · rfl

theorem parseIniLines_append_blank (current : Text) (lines trimmed : List Text) :
    parseIniLines current lines (trimmed ++ [[]]) = parseIniLines current lines trimmed := by
  induction trimmed generalizing current lines with
  | nil =>
    show (if current = [] ∨ true then parseIniLines current lines [] else _) = _
    rw [if_pos (Or.inr rfl)]
  | cons line trimmed ih =>
    rw [List.cons_append, parseIniLines, parseIniLines, ih, ih, ih, ih]

/-- Sections are read from the lines between line feeds. -/
theorem parseIniToSections_eq (content : Text) :
    parseIniToSections content = parseIniLines [] [] ((content.splitOn '\n').map trim) := by
  have hsplit := List.splitOn_ne_nil '\n' content
  rw [parseIniToSections, textLines]
  generalize content.splitOn '\n' = pieces at hsplit
  obtain ⟨front, last, rfl⟩ := (List.eq_nil_or_concat' pieces).resolve_left hsplit
  have hfront : (front.map stripCr).map trim = front.map trim := by
    rw [List.map_map]
    exact List.map_congr_left fun line _ => trim_stripCr line
  rw [List.dropLast_concat, List.getLast?_concat, List.map_append, List.map_append, hfront]
  by_cases hlast : last = []
  · rw [hlast]
    exact (congrArg _ (List.append_nil _)).trans (parseIniLines_append_blank _ _ _).symm
  · simp [hlast]

/-! ## Lines that are expanded as lines -/

/-- What stands for the specifiers of a line leaves it what it is: one line, with the blanks around
    it, of the same kind and with the same key, and an empty value where it had one. -/
structure Tame (expand : Text → Text) (line : Text) : Prop where
  oneLine : '\n' ∉ expand line
  trim : Lib.trim (expand line) = expand (Lib.trim line)
  header : isIniHeader (Lib.trim line) → expand (Lib.trim line) = Lib.trim line
  notHeader : isIniHeader (expand (Lib.trim line)) = isIniHeader (Lib.trim line)
  ignored : isIniIgnored (expand (Lib.trim line)) = isIniIgnored (Lib.trim line)
  kind : mergeKind (expand (Lib.trim line)) = mergeKind (Lib.trim line)

def TameText (expand : Text → Text) (content : Text) : Prop :=
  ∀ line ∈ content.splitOn '\n', Tame expand line

theorem parseIniLines_map {expand : Text → Text} {trimmed : List Text}
    (h : ∀ line ∈ trimmed, (isIniHeader line → expand line = line) ∧
      isIniHeader (expand line) = isIniHeader line ∧ isIniIgnored (expand line) = isIniIgnored line)
    (current : Text) (lines : List Text) :
    parseIniLines current (lines.map expand) (trimmed.map expand) =
      mapLines expand (parseIniLines current lines trimmed) := by
  induction trimmed generalizing current lines with
  | nil =>
    rw [List.map_nil, parseIniLines, parseIniLines]
    split
    · rfl
    · rfl
  | cons line trimmed ih =>
    obtain ⟨⟨hheader, hisHeader, hignored⟩, hrest⟩ := List.forall_mem_cons.mp h
    rw [List.map_cons, parseIniLines, parseIniLines, hisHeader, hignored]
    split
    · rename_i hline
      rw [hheader hline]
      split
      · exact ih hrest line lines
      · have hnext := ih hrest line []
        rw [List.map_nil] at hnext
        rw [hnext]
        rfl
    · split
      · exact ih hrest current lines
      · have hnext := ih hrest current (lines ++ [line])
        rw [List.map_append, List.map_singleton] at hnext
        exact hnext

variable {value : Char → Text}

/-- The sections of an expanded text. -/
theorem parseIniToSections_expand (hnewline : value '\n' = ['%', '\n']) {content : Text}
    (h : TameText (expandSpecifiers value) content) :
    parseIniToSections (expandSpecifiers value content) =
      mapLines (expandSpecifiers value) (parseIniToSections content) := by
  have hlines : (content.splitOn '\n').flatMap (expandedLines value) =
      (content.splitOn '\n').map (expandSpecifiers value) := by
    rw [List.map_eq_flatMap]
    apply List.flatMap_congr
    intro line hline
    exact List.splitOn_eq_singleton (h line hline).oneLine
  have htrim : ((content.splitOn '\n').map (expandSpecifiers value)).map trim =
      ((content.splitOn '\n').map trim).map (expandSpecifiers value) := by
    rw [List.map_map, List.map_map]
    exact List.map_congr_left fun line hline => (h line hline).trim
  rw [parseIniToSections_eq, parseIniToSections_eq, splitOn_expandSpecifiers hnewline, hlines,
    htrim]
  apply parseIniLines_map _ [] []
  intro trimmed htrimmed
  obtain ⟨line, hline, rfl⟩ := List.mem_map.mp htrimmed
  exact ⟨(h line hline).header, (h line hline).notHeader, (h line hline).ignored⟩

theorem expandSpecifiers_unlines (hnewline : value '\n' = ['%', '\n']) (lines : List Text) :
    expandSpecifiers value (unlines lines) = unlines (lines.map (expandSpecifiers value)) := by
  induction lines with
  | nil => rfl
  | cons line lines ih =>
    have hcons : ∀ (line : Text) lines,
        unlines (line :: lines) = line ++ '\n' :: unlines lines := by
      intro line lines
      simp [unlines]
    rw [hcons, expandSpecifiers_append_newline hnewline, ih, List.map_cons, hcons]

/-- The lines of sections as they are written. -/
def sectionLines (sections : List (Text × List Text)) : List Text :=
  sections.flatMap fun sec => sec.1 :: (sec.2 ++ [[]])

/-- Written sections are expanded line by line. -/
theorem expandSpecifiers_renderSections (hnewline : value '\n' = ['%', '\n'])
    (sections : List (Text × List Text)) : expandSpecifiers value (renderSections sections) =
      unlines ((sectionLines sections).map (expandSpecifiers value)) :=
  expandSpecifiers_unlines hnewline _

/-- All names and lines of sections that are read from a text. -/
theorem mem_parseIniLines {P : Text → Prop} {current : Text} {lines trimmed : List Text}
    (hcurrent : current ≠ [] → isIniHeader current ∧ P current) (hlines : ∀ line ∈ lines, P line)
    (htrimmed : ∀ line ∈ trimmed, P line) : ∀ sec ∈ parseIniLines current lines trimmed,
      (isIniHeader sec.1 ∧ P sec.1) ∧ ∀ line ∈ sec.2, P line := by
  induction trimmed generalizing current lines with
  | nil =>
    rw [parseIniLines]
    split
    · simp
    · rename_i hne
      intro sec hsec
      rw [List.mem_singleton.mp hsec]
      exact ⟨hcurrent hne, hlines⟩
  | cons line trimmed ih =>
    obtain ⟨hline, hrest⟩ := List.forall_mem_cons.mp htrimmed
    rw [parseIniLines]
    split
    · rename_i hheader
      split
      · exact ih (fun _ => ⟨hheader, hline⟩) hlines hrest
      · rename_i hne
        intro sec hsec
        rcases List.mem_cons.mp hsec with rfl | hsec
        · exact ⟨hcurrent hne, hlines⟩
        · exact ih (fun _ => ⟨hheader, hline⟩) (by simp) hrest sec hsec
    · split
      · exact ih hcurrent hlines hrest
      · apply ih hcurrent _ hrest
        intro other hother
        rcases List.mem_append.mp hother with hother | hother
        · exact hlines other hother
        · rw [List.mem_singleton.mp hother]
          exact hline

/-- What is tame about the names and the lines of a tame text. -/
theorem tame_parseIniToSections {expand : Text → Text} {content : Text}
    (h : TameText expand content) : ∀ sec ∈ parseIniToSections content, expand sec.1 = sec.1 ∧
      ∀ line ∈ sec.2, mergeKind (expand line) = mergeKind line ∧ '\n' ∉ expand line := by
  have hall : ∀ trimmed ∈ (content.splitOn '\n').map trim,
      (isIniHeader trimmed → expand trimmed = trimmed) ∧
        mergeKind (expand trimmed) = mergeKind trimmed ∧ '\n' ∉ expand trimmed := by
    intro trimmed htrimmed
    obtain ⟨line, hline, rfl⟩ := List.mem_map.mp htrimmed
    refine ⟨(h line hline).header, (h line hline).kind, ?_⟩
    rw [← (h line hline).trim]
    exact fun hmem => (h line hline).oneLine (mem_of_mem_trim hmem)
  rw [parseIniToSections_eq]
  intro sec hsec
  obtain ⟨⟨hheader, hname⟩, hlines⟩ := mem_parseIniLines (fun hne => absurd rfl hne) (by simp) hall
    sec hsec
  exact ⟨hname.1 hheader, fun line hline => (hlines line hline).2⟩

/-! ## Where lines come from -/

/-- The sections of the merge, with whether a line comes from a drop-in. -/
def origins (content : Text) (dropins : List Text) : List (Text × List (Bool × Text)) :=
  dropins.foldl (fun merged d =>
      mergeSections Prod.snd merged (mapLines (fun line => (true, line)) (parseIniToSections d)))
    (mapLines (fun line => (false, line)) (parseIniToSections content))

theorem mapLines_mapLines {α β γ : Type*} (f : α → β) (g : β → γ)
    (sections : List (Text × List α)) : mapLines g (mapLines f sections) =
      mapLines (fun a => g (f a)) sections := by
  rw [mapLines, mapLines, mapLines, List.map_map]
  apply List.map_congr_left
  intro sec _
  simp

/-- What holds of the names and the lines of the texts holds of the merge. -/
theorem forall_origins {Q : Text → Prop} {P : Bool × Text → Prop} {content : Text}
    {dropins : List Text}
    (hcontent : ∀ sec ∈ parseIniToSections content, Q sec.1 ∧ ∀ line ∈ sec.2, P (false, line))
    (hdropins : ∀ d ∈ dropins, ∀ sec ∈ parseIniToSections d,
      Q sec.1 ∧ ∀ line ∈ sec.2, P (true, line)) :
    ∀ sec ∈ origins content dropins, Q sec.1 ∧ ∀ line ∈ sec.2, P line := by
  have htagged : ∀ (dropin : Bool) (sections : List (Text × List Text)),
      (∀ sec ∈ sections, Q sec.1 ∧ ∀ line ∈ sec.2, P (dropin, line)) →
      ∀ sec ∈ mapLines (fun line => (dropin, line)) sections,
        Q sec.1 ∧ ∀ line ∈ sec.2, P line := by
    intro dropin sections h sec hsec
    obtain ⟨sec', hsec', rfl⟩ := List.mem_map.mp hsec
    refine ⟨(h sec' hsec').1, fun line hline => ?_⟩
    obtain ⟨line', hline', rfl⟩ := List.mem_map.mp hline
    exact (h sec' hsec').2 line' hline'
  unfold origins
  induction dropins using List.reverseRecOn with
  | nil => exact htagged false _ hcontent
  | append_singleton dropins d ih =>
    rw [List.foldl_append]
    exact forall_mergeSections (ih fun d' hd' => hdropins d' (List.mem_append_left _ hd'))
      (htagged true _ (hdropins d (by simp)))

/-- Texts whose lines are mapped are merged as the lines they come from. -/
theorem foldl_mergeSections_map (f : Bool × Text → Text) (content : Text) (dropins : List Text)
    (hcontent : ∀ sec ∈ parseIniToSections content, ∀ line ∈ sec.2,
      mergeKind (f (false, line)) = mergeKind line)
    (hdropins : ∀ d ∈ dropins, ∀ sec ∈ parseIniToSections d, ∀ line ∈ sec.2,
      mergeKind (f (true, line)) = mergeKind line) :
    dropins.foldl (fun merged d =>
        mergeSections id merged (mapLines (fun line => f (true, line)) (parseIniToSections d)))
      (mapLines (fun line => f (false, line)) (parseIniToSections content)) =
        mapLines f (origins content dropins) := by
  induction dropins using List.reverseRecOn with
  | nil => exact (mapLines_mapLines (fun line => (false, line)) f _).symm
  | append_singleton dropins d ih =>
    have hbefore : ∀ d' ∈ dropins, ∀ sec ∈ parseIniToSections d', ∀ line ∈ sec.2,
        mergeKind (f (true, line)) = mergeKind line :=
      fun d' hd' => hdropins d' (List.mem_append_left _ hd')
    have hmerged : AllLines (fun line => mergeKind (id (f line)) = mergeKind line.2)
        (origins content dropins) := by
      intro sec hsec
      exact (forall_origins (Q := fun _ => True)
        (P := fun line => mergeKind (f line) = mergeKind line.2)
        (fun sec hsec => ⟨trivial, hcontent sec hsec⟩)
        (fun d' hd' sec hsec => ⟨trivial, hbefore d' hd' sec hsec⟩) sec hsec).2
    have hadded : AllLines (fun line => mergeKind (id (f line)) = mergeKind line.2)
        (mapLines (fun line => (true, line)) (parseIniToSections d)) := by
      intro sec hsec line hline
      obtain ⟨sec', hsec', rfl⟩ := List.mem_map.mp hsec
      obtain ⟨line', hline', rfl⟩ := List.mem_map.mp hline
      exact hdropins d (by simp) sec' hsec' line' hline'
    have horigins : origins content (dropins ++ [d]) = mergeSections Prod.snd
        (origins content dropins) (mapLines (fun line => (true, line)) (parseIniToSections d)) := by
      rw [origins, List.foldl_append]
      rfl
    rw [List.foldl_append, ih hbefore, horigins, ← mergeSections_map hmerged hadded,
      mapLines_mapLines]
    rfl

/-- The merge of texts. -/
theorem mergeUnitContents_origins (content : Text) {dropins : List Text} (h : dropins ≠ []) :
    mergeUnitContents content dropins =
      renderSections (mapLines Prod.snd (origins content dropins)) := by
  have hmap : ∀ sections : List (Text × List Text), mapLines (fun line => line) sections =
      sections := by
    intro sections
    simp [mapLines]
  have hfold := foldl_mergeSections_map Prod.snd content dropins (fun _ _ _ _ => rfl)
    (fun _ _ _ _ _ _ => rfl)
  rw [mergeUnitContents_eq content h, mergeAll, ← hfold]
  simp only [hmap]

/-- The merge of a text, as it is or expanded, and expanded drop-ins. -/
theorem mergeUnitContents_expand (hnewline : value '\n' = ['%', '\n']) {content content' : Text}
    {dropins : List Text} (h : dropins ≠ []) {f : Text → Text}
    (hcontent : ∀ sec ∈ parseIniToSections content, ∀ line ∈ sec.2,
      mergeKind (f line) = mergeKind line)
    (hcontent' : parseIniToSections content' = mapLines f (parseIniToSections content))
    (hdropins : ∀ d ∈ dropins, TameText (expandSpecifiers value) d) :
    mergeUnitContents content' (dropins.map (expandSpecifiers value)) =
      renderSections (mapLines (fun line => if line.1 then expandSpecifiers value line.2
        else f line.2) (origins content dropins)) := by
  have hkind : ∀ d ∈ dropins, ∀ sec ∈ parseIniToSections d, ∀ line ∈ sec.2,
      mergeKind (expandSpecifiers value line) = mergeKind line := fun d hd sec hsec line hline =>
    ((tame_parseIniToSections (hdropins d hd) sec hsec).2 line hline).1
  have hfold := foldl_mergeSections_map
    (fun line => if line.1 then expandSpecifiers value line.2 else f line.2) content dropins
    hcontent hkind
  rw [mergeUnitContents_eq content' (by simpa using h), mergeAll, hcontent', List.foldl_map,
    ← hfold]
  congr 1
  apply List.foldl_ext
  intro merged d hd
  rw [parseIniToSections_expand hnewline (hdropins d hd)]
  rfl

/-! ## The result -/

/-- Texts of as many lines are equal only line by line, where one has no line feeds in its lines. -/
theorem unlines_inj {as bs : List Text} (hlength : as.length = bs.length)
    (hbs : ∀ line ∈ bs, '\n' ∉ line) (h : unlines as = unlines bs) : as = bs := by
  have hcount : ∀ lines : List Text, lines.length ≤ (unlines lines).count '\n' ∧
      ((∀ line ∈ lines, '\n' ∉ line) → (unlines lines).count '\n' = lines.length) ∧
      ((unlines lines).count '\n' = lines.length → ∀ line ∈ lines, '\n' ∉ line) := by
    intro lines
    induction lines with
    | nil => simp [unlines]
    | cons line lines ih =>
      obtain ⟨hle, heq, hnot⟩ := ih
      have hcons : (unlines (line :: lines)).count '\n' =
          line.count '\n' + ((unlines lines).count '\n' + 1) := by
        simp [unlines, Nat.add_comm]
      rw [hcons, List.length_cons]
      refine ⟨by omega, fun hall => ?_, fun htotal => ?_⟩
      · obtain ⟨hline, hlines⟩ := List.forall_mem_cons.mp hall
        rw [List.count_eq_zero.mpr hline, heq hlines]
        omega
      · rw [List.forall_mem_cons]
        exact ⟨List.count_eq_zero.mp (by omega), hnot (by omega)⟩
  have has : ∀ line ∈ as, '\n' ∉ line := by
    apply (hcount as).2.2
    rw [h, (hcount bs).2.1 hbs, hlength]
  have hlines : ∀ lines : List Text, (∀ line ∈ lines, '\n' ∉ line) →
      (unlines lines).splitOn '\n' = lines ++ [[]] := by
    intro lines hall
    rw [splitOn_unlines]
    congr 1
    calc lines.flatMap (List.splitOn '\n') = lines.flatMap fun line => [line] :=
          List.flatMap_congr fun line hline => List.splitOn_eq_singleton (hall line hline)
      _ = lines := List.flatMap_singleton' lines
  have hsplit := congrArg (List.splitOn '\n') h
  rw [hlines as has, hlines bs hbs] at hsplit
  exact List.append_cancel_right hsplit

theorem map_sectionLines_eq_iff {α : Type*} (f f' : α → Text) (g g' : Text → Text)
    (hblank : g [] = g' []) (sections : List (Text × List α)) :
    (sectionLines (mapLines f sections)).map g = (sectionLines (mapLines f' sections)).map g' ↔
      ∀ sec ∈ sections, g sec.1 = g' sec.1 ∧ ∀ line ∈ sec.2, g (f line) = g' (f' line) := by
  induction sections with
  | nil => simp [mapLines, sectionLines]
  | cons sec sections ih =>
    have hcons : ∀ f : α → Text, sectionLines (mapLines f (sec :: sections)) =
        sec.1 :: (sec.2.map f ++ [] :: sectionLines (mapLines f sections)) := by
      intro f
      simp [mapLines, sectionLines]
    rw [hcons, hcons, List.map_cons, List.map_cons, List.map_append, List.map_append, List.map_cons,
      List.map_cons, List.map_map, List.map_map, List.cons.injEq, List.forall_mem_cons, ← ih,
      and_assoc]
    apply and_congr_right
    intro _
    constructor
    · intro heq
      obtain ⟨hlines, hrest⟩ := List.append_inj heq (by simp)
      exact ⟨List.map_inj_left.mp hlines, (List.cons.inj hrest).2⟩
    · rintro ⟨hlines, hrest⟩
      have hmapped : sec.2.map (g ∘ f) = sec.2.map (g' ∘ f') := List.map_inj_left.mpr hlines
      rw [hmapped, hrest, hblank]

section

variable {again : Char → Text} {content : Text} {dropins : List Text}

/-- Names in the merge of tame texts stay as they are, and lines stay lines. -/
theorem tame_origins (hcontent : TameText (expandSpecifiers value) content)
    (hdropins : ∀ d ∈ dropins, TameText (expandSpecifiers value) d) :
    ∀ sec ∈ origins content dropins, (expandSpecifiers value sec.1 = sec.1 ∧ '\n' ∉ sec.1) ∧
      ∀ line ∈ sec.2, '\n' ∉ expandSpecifiers value line.2 := by
  have htext : ∀ text, TameText (expandSpecifiers value) text → ∀ sec ∈ parseIniToSections text,
      (expandSpecifiers value sec.1 = sec.1 ∧ '\n' ∉ sec.1) ∧
        ∀ line ∈ sec.2, '\n' ∉ expandSpecifiers value line := by
    intro text htame sec hsec
    obtain ⟨hname, hlines⟩ := tame_parseIniToSections htame sec hsec
    exact ⟨⟨hname, (wellFormed_parseIniToSections text sec hsec).1.oneLine⟩,
      fun line hline => (hlines line hline).2⟩
  exact forall_origins (Q := fun name => expandSpecifiers value name = name ∧ '\n' ∉ name)
    (P := fun line => '\n' ∉ expandSpecifiers value line.2) (htext content hcontent)
    fun d hd => htext d (hdropins d hd)

theorem expand_mergeUnitContents (hnewline : value '\n' = ['%', '\n']) (hne : dropins ≠ []) :
    expandSpecifiers value (mergeUnitContents content dropins) =
      unlines ((sectionLines (mapLines Prod.snd (origins content dropins))).map
        (expandSpecifiers value)) := by
  rw [mergeUnitContents_origins content hne, expandSpecifiers_renderSections hnewline]

/-- Tame texts may be expanded before they are merged. -/
theorem mergeUnitContents_map_expand (hnewline : value '\n' = ['%', '\n']) (hne : dropins ≠ [])
    (hcontent : TameText (expandSpecifiers value) content)
    (hdropins : ∀ d ∈ dropins, TameText (expandSpecifiers value) d) :
    mergeUnitContents (expandSpecifiers value content) (dropins.map (expandSpecifiers value)) =
      expandSpecifiers value (mergeUnitContents content dropins) := by
  have hlines := (map_sectionLines_eq_iff (fun line : Bool × Text => expandSpecifiers value line.2)
    Prod.snd id (expandSpecifiers value) rfl (origins content dropins)).mpr fun sec hsec =>
      ⟨(tame_origins hcontent hdropins sec hsec).1.1.symm, fun _ _ => rfl⟩
  rw [List.map_id] at hlines
  rw [expand_mergeUnitContents hnewline hne, ← hlines]
  refine (mergeUnitContents_expand hnewline hne (fun sec hsec line hline =>
    ((tame_parseIniToSections hcontent sec hsec).2 line hline).1)
    (parseIniToSections_expand hnewline hcontent) hdropins).trans ?_
  simp only [ite_self]
  rfl

/-- Drop-ins that are expanded twice, and the rest with something else once. -/
theorem expand_again_eq_iff (hnewline : value '\n' = ['%', '\n'])
    (hnewline' : again '\n' = ['%', '\n']) (hne : dropins ≠ [])
    (hcontent : TameText (expandSpecifiers value) content)
    (hdropins : ∀ d ∈ dropins, TameText (expandSpecifiers value) d) :
    expandSpecifiers again (mergeUnitContents content (dropins.map (expandSpecifiers value))) =
        expandSpecifiers value (mergeUnitContents content dropins) ↔
      ∀ sec ∈ origins content dropins, expandSpecifiers again sec.1 = sec.1 ∧ ∀ line ∈ sec.2,
        expandSpecifiers again (if line.1 then expandSpecifiers value line.2 else line.2) =
          expandSpecifiers value line.2 := by
  have htame := tame_origins hcontent hdropins
  have hmap : mapLines (fun line => line) (parseIniToSections content) =
      parseIniToSections content := by
    simp [mapLines]
  have hiff := map_sectionLines_eq_iff
    (fun line : Bool × Text => if line.1 then expandSpecifiers value line.2 else line.2) Prod.snd
    (expandSpecifiers again) (expandSpecifiers value) rfl (origins content dropins)
  rw [mergeUnitContents_expand hnewline hne (fun _ _ _ _ => rfl) hmap.symm hdropins,
    expandSpecifiers_renderSections hnewline', expand_mergeUnitContents hnewline hne]
  constructor
  · intro heq sec hsec
    have hlists := unlines_inj (by simp [sectionLines, mapLines, Function.comp_def]) ?_ heq
    · obtain ⟨hname, hlines⟩ := hiff.mp hlists sec hsec
      exact ⟨hname.trans (htame sec hsec).1.1, hlines⟩
    · intro expanded hexpanded
      obtain ⟨line, hline, rfl⟩ := List.mem_map.mp hexpanded
      obtain ⟨mapped, hmapped, hline⟩ := List.mem_flatMap.mp hline
      obtain ⟨sec, hsec, rfl⟩ := List.mem_map.mp hmapped
      obtain ⟨hname, hlines⟩ := htame sec hsec
      rw [List.mem_cons, List.mem_append, List.mem_singleton] at hline
      rcases hline with rfl | hline | rfl
      · rw [hname.1]
        exact hname.2
      · obtain ⟨tagged, htagged, rfl⟩ := List.mem_map.mp hline
        exact hlines tagged htagged
      · exact List.not_mem_nil
  · intro hstays
    rw [hiff.mpr fun sec hsec =>
      ⟨(hstays sec hsec).1.trans (htame sec hsec).1.1.symm, (hstays sec hsec).2⟩]

end

/-- What is expanded once more stays as it is, and so does what takes the other instance. -/
def StaysExpanded (ctx : SpecifierContext) (unitName content : Text) (dropins : List Text) : Prop :=
  let expand := expandSpecifiers (specifierValue ctx unitName (instanceOf unitName))
  let again := expandSpecifiers (specifierValue ctx unitName (loadInstance unitName))
  if dropins = [] then again content = expand content
  else ∀ sec ∈ origins content dropins, again sec.1 = sec.1 ∧
    ∀ line ∈ sec.2, again (if line.1 then expand line.2 else line.2) = expand line.2

/-- Where lines are expanded as lines, every path expands once if and only if the lines of the
    merge stay as they are when they are expanded again. -/
theorem expandedOnce_iff (ctx : SpecifierContext) (unitName content : Text) (dropins : List Text)
    (hcontent : dropins ≠ [] →
      TameText (expandSpecifiers (specifierValue ctx unitName (instanceOf unitName))) content)
    (hdropins : ∀ d ∈ dropins,
      TameText (expandSpecifiers (specifierValue ctx unitName (instanceOf unitName))) d) :
    ExpandedOnce ctx unitName content dropins ↔ StaysExpanded ctx unitName content dropins := by
  have hload : loadNewContent ctx unitName content dropins =
      mergedThenExpanded ctx unitName (instanceOf unitName) content dropins ↔
        StaysExpanded ctx unitName content dropins := by
    unfold loadNewContent mergedThenExpanded StaysExpanded resolveSpecifiers
    by_cases hnil : dropins = []
    · subst hnil
      exact Iff.rfl
    · dsimp only
      rw [if_neg (by simpa using hnil), if_neg hnil]
      exact expand_again_eq_iff rfl rfl hnil (hcontent hnil) hdropins
  constructor
  · intro h
    exact hload.mp h.load
  · intro h
    refine ⟨hload.mpr h, fun hne => ?_, ?_⟩
    · exact mergeUnitContents_map_expand rfl hne (hcontent hne) hdropins
    · intro inst
      unfold instantiateContent mergedThenExpanded
      split
      · rename_i hnil
        rw [hnil]
        rfl
      · rfl

theorem expandedOnce_unit_name :
    ExpandedOnce emptyContext "a.service".toList "[S]\nA=x".toList ["[S]\nB=%n".toList] := by
  have hlines : ∀ text ∈ ["[S]\nA=x".toList, "[S]\nB=%n".toList], ∀ line ∈ text.splitOn '\n',
      line ∈ ["[S]".toList, "A=x".toList, "B=%n".toList] := by
    decide
  have htame : ∀ line ∈ ["[S]".toList, "A=x".toList, "B=%n".toList],
      Tame (expandSpecifiers (specifierValue emptyContext "a.service".toList
        (instanceOf "a.service".toList))) line := by
    intro line hline
    simp only [List.mem_cons, List.not_mem_nil, or_false] at hline
    rcases hline with rfl | rfl | rfl <;>
      constructor <;> decide
  refine (expandedOnce_iff _ _ _ _ (fun _ line hline => ?_) fun d hd line hline => ?_).mpr ?_
  · exact htame line (hlines _ List.mem_cons_self line hline)
  · exact htame line (hlines d (List.mem_cons_of_mem _ hd) line hline)
  · unfold StaysExpanded
    decide +kernel

/-- A drop-in with a doubled percent sign. -/
theorem doubled_percent_expanded_twice :
    ¬ ExpandedOnce emptyContext "a.service".toList "[S]".toList ["[S]\nK=%%n".toList] := by
  intro h
  have hload := h.load
  revert hload
  decide +kernel

end OxidizedSystemd.Loading
