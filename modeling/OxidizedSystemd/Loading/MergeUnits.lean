import Mathlib.Data.List.Induction
import OxidizedSystemd.Lib.Lines
import OxidizedSystemd.Loading.UnitDirs

/-!
# Merging drop-ins

Model of `merge_unit_contents`, `merge_ini_sections` and `parse_ini_to_sections`
(`units/loading/directory_deps.rs`, lines 2400–2656). A line may carry more than its text, so that a
merge can be followed; `merge_ini_sections` is about texts.

* `mergeSections_map`: a map of lines that keeps their settings commutes with a merge.
* `parseIniToSections_renderSections`: what is written is read back.
* `mergeUnitContents_eq`: drop-ins are merged as sections.
-/

namespace OxidizedSystemd.Loading

open Lib

/-- The keys of `is_list_setting`. -/
def listSettings : List String :=
  ["ExecStartPre", "ExecStartPost", "ExecStart", "ExecStop", "ExecStopPre", "ExecStopPost",
   "ExecReload", "ExecCondition", "Environment", "EnvironmentFile", "PassEnvironment",
   "UnsetEnvironment", "StandardInputText", "StandardInputData", "Documentation", "Requires",
   "Wants", "After", "Before", "BindsTo", "PartOf", "Conflicts", "Upholds", "RequiredBy",
   "WantedBy", "Also", "ReadWritePaths", "ReadOnlyPaths", "InaccessiblePaths", "BindPaths",
   "BindReadOnlyPaths", "SupplementaryGroups", "CapabilityBoundingSet", "AmbientCapabilities",
   "SystemCallFilter", "SystemCallArchitectures", "RestrictAddressFamilies", "DeviceAllow",
   "ListenStream", "ListenDatagram", "ListenSequentialPacket", "ListenFIFO", "ListenSpecial",
   "ListenNetlink", "ListenMessageQueue", "ListenUSBFunction", "ImportCredential",
   "LoadCredential", "LoadCredentialEncrypted", "SetCredential", "SetCredentialEncrypted",
   "ConditionPathExists", "ConditionPathExistsGlob", "ConditionPathIsDirectory",
   "ConditionPathIsSymbolicLink", "ConditionPathIsMountPoint", "ConditionPathIsReadWrite",
   "ConditionDirectoryNotEmpty", "ConditionFileNotEmpty", "ConditionFileIsExecutable",
   "ConditionNeedsUpdate", "ConditionFirstBoot", "ConditionSecurity", "ConditionCapability",
   "ConditionACPower", "ConditionVirtualization", "ConditionHost", "ConditionKernelCommandLine",
   "ConditionKernelVersion", "ConditionEnvironment", "ConditionUser", "ConditionGroup",
   "ConditionControlGroupController", "ConditionMemory", "ConditionCPUs", "AssertPathExists",
   "AssertPathExistsGlob", "AssertPathIsDirectory", "AssertPathIsSymbolicLink",
   "AssertPathIsMountPoint", "AssertPathIsReadWrite", "AssertDirectoryNotEmpty",
   "AssertFileNotEmpty", "AssertFileIsExecutable", "AssertNeedsUpdate", "AssertFirstBoot",
   "AssertSecurity", "AssertCapability", "AssertACPower", "AssertVirtualization", "AssertHost",
   "AssertKernelCommandLine", "AssertKernelVersion", "AssertEnvironment", "AssertUser",
   "AssertGroup", "AssertControlGroupController", "AssertMemory", "AssertCPUs", "OnCalendar",
   "OnBootSec", "OnStartupSec", "OnActiveSec", "OnUnitActiveSec", "OnUnitInactiveSec", "Alias",
   "StateDirectory", "RuntimeDirectory", "LogsDirectory", "ConfigurationDirectory",
   "CacheDirectory"]

/-- `is_list_setting`. -/
def isListSetting (key : Text) : Bool := listSettings.any fun setting => setting.toList = key

/-- The key and the value of a line (lines 2574–2577). -/
def settingOf (line : Text) : Option (Text × Text) :=
  (splitOnce ['='] (trim line)).map fun p => (trim p.1, trim p.2)

/-! ## Merging -/

section

variable {α : Type*} (text : α → Text)

/-- `retain` of the lines that have another key (lines 2580–2587). -/
def retainOthers (lines : List α) (key : Text) : List α :=
  lines.filter fun existing => ((settingOf (text existing)).map Prod.fst) ≠ some key

/-- The body of the loop over the lines of a section that is there (lines 2572–2605). -/
def mergeLine (lines : List α) (line : α) : List α :=
  match settingOf (text line) with
  | some (key, value) =>
    if value = [] then retainOthers text lines key
    else if isListSetting key then lines ++ [line]
    else retainOthers text lines key ++ [line]
  | none => lines ++ [line]

/-- The last section of a name is updated, if there is one. -/
def updateLast (name : Text) (f : List α → List α) :
    List (Text × List α) → Option (List (Text × List α))
  | [] => none
  | (other, lines) :: rest =>
    match updateLast name f rest with
    | some rest => some ((other, lines) :: rest)
    | none => if other = name then some ((other, f lines) :: rest) else none

/-- The body of the loop over the sections of the overlay (lines 2569–2611). -/
def mergeSection (merged : List (Text × List α)) (sec : Text × List α) : List (Text × List α) :=
  match updateLast sec.1 (fun lines => sec.2.foldl (mergeLine text) lines) merged with
  | some merged => merged
  | none => merged ++ [sec]

/-- The sections that `merge_ini_sections` writes. -/
def mergeSections (base overlay : List (Text × List α)) : List (Text × List α) :=
  overlay.foldl (mergeSection text) base

end

/-! ## Texts -/

/-- A line that begins a section (line 2633). -/
def isIniHeader (trimmed : Text) : Bool := trimmed.head? = some '[' && trimmed.getLast? = some ']'

/-- A blank line or a comment (line 2641). -/
def isIniIgnored (trimmed : Text) : Bool :=
  trimmed = [] || trimmed.head? = some '#' || trimmed.head? = some ';'

/-- The loop of `parse_ini_to_sections`, on trimmed lines. -/
def parseIniLines (current : Text) (lines : List Text) : List Text → List (Text × List Text)
  | [] => if current = [] then [] else [(current, lines)]
  | trimmed :: rest =>
    if isIniHeader trimmed then
      if current = [] then parseIniLines trimmed lines rest
      else (current, lines) :: parseIniLines trimmed [] rest
    else if current = [] ∨ isIniIgnored trimmed then parseIniLines current lines rest
    else parseIniLines current (lines ++ [trimmed]) rest

/-- `parse_ini_to_sections`. -/
def parseIniToSections (content : Text) : List (Text × List Text) :=
  parseIniLines [] [] ((textLines content).map trim)

/-- The content that is written (lines 2614–2623). -/
def renderSections (sections : List (Text × List Text)) : Text :=
  unlines (sections.flatMap fun sec => sec.1 :: (sec.2 ++ [[]]))

/-- `merge_ini_sections`. -/
def mergeIniSections (base overlay : Text) : Text :=
  renderSections (mergeSections id (parseIniToSections base) (parseIniToSections overlay))

/-- `merge_unit_contents`, without the names of the files. -/
def mergeUnitContents (base : Text) (overrides : List Text) : Text :=
  overrides.foldl mergeIniSections base

/-! ## Lines that carry more -/

section

variable {α β : Type*} {text : α → Text} {text' : β → Text}

/-- Sections whose lines are mapped. -/
def mapLines (f : α → β) (sections : List (Text × List α)) : List (Text × List β) :=
  sections.map fun sec => (sec.1, sec.2.map f)

/-- All lines of sections. -/
def AllLines (P : α → Prop) (sections : List (Text × List α)) : Prop :=
  ∀ sec ∈ sections, ∀ line ∈ sec.2, P line

/-- What decides how a line is merged: its key, and whether its value is empty. -/
def mergeKind (line : Text) : Option (Text × Bool) :=
  (settingOf line).map fun p => (p.1, decide (p.2 = []))

theorem retainOthers_map {f : α → β} {lines : List α}
    (h : ∀ a ∈ lines, mergeKind (text' (f a)) = mergeKind (text a)) (key : Text) :
    retainOthers text' (lines.map f) key = (retainOthers text lines key).map f := by
  have hkey : ∀ line, (mergeKind line).map Prod.fst = (settingOf line).map Prod.fst := by
    intro line
    rw [mergeKind, Option.map_map]
    rfl
  rw [retainOthers, retainOthers, List.filter_map]
  congr 1
  apply List.filter_congr
  intro a ha
  dsimp only [Function.comp_apply]
  rw [← hkey, ← hkey, h a ha]

theorem mergeLine_map {f : α → β} {lines : List α} {line : α}
    (h : ∀ a ∈ lines, mergeKind (text' (f a)) = mergeKind (text a))
    (hline : mergeKind (text' (f line)) = mergeKind (text line)) :
    mergeLine text' (lines.map f) (f line) = (mergeLine text lines line).map f := by
  unfold mergeLine
  unfold mergeKind at hline
  cases hsetting : settingOf (text line) with
  | none =>
    rw [hsetting, Option.map_none, Option.map_eq_none_iff] at hline
    rw [hline]
    simp
  | some p =>
    rw [hsetting, Option.map_some] at hline
    obtain ⟨p', hp', heq⟩ := Option.map_eq_some_iff.mp hline
    obtain ⟨hkey, hempty⟩ := Prod.mk.inj heq
    rw [hp']
    dsimp only
    rw [← hkey]
    by_cases hvalue : p.2 = []
    · have hvalue' : p'.2 = [] := by simpa [hvalue] using hempty
      rw [if_pos hvalue, if_pos hvalue', retainOthers_map h]
    · have hvalue' : p'.2 ≠ [] := by simpa [hvalue] using hempty
      rw [if_neg hvalue, if_neg hvalue', retainOthers_map h]
      split
      · simp
      · simp

theorem mem_mergeLine {lines : List α} {line a : α} (h : a ∈ mergeLine text lines line) :
    a ∈ lines ∨ a = line := by
  have hretain : ∀ key, a ∈ retainOthers text lines key → a ∈ lines :=
    fun key ha => (List.mem_filter.mp ha).1
  unfold mergeLine at h
  split at h
  · split at h
    · exact Or.inl (hretain _ h)
    · split at h
      · simpa using h
      · rw [List.mem_append, List.mem_singleton] at h
        exact h.imp_left (hretain _)
  · simpa using h

theorem mem_foldl_mergeLine {lines added : List α} {a : α}
    (h : a ∈ added.foldl (mergeLine text) lines) : a ∈ lines ∨ a ∈ added := by
  induction added generalizing lines with
  | nil => exact Or.inl h
  | cons line added ih =>
    rcases ih h with h | h
    · rcases mem_mergeLine h with h | rfl
      · exact Or.inl h
      · exact Or.inr List.mem_cons_self
    · exact Or.inr (List.mem_cons_of_mem _ h)

theorem foldl_mergeLine_map {f : α → β} {lines added : List α}
    (h : ∀ a ∈ lines, mergeKind (text' (f a)) = mergeKind (text a))
    (hadded : ∀ a ∈ added, mergeKind (text' (f a)) = mergeKind (text a)) :
    (added.map f).foldl (mergeLine text') (lines.map f) =
      (added.foldl (mergeLine text) lines).map f := by
  induction added generalizing lines with
  | nil => rfl
  | cons line added ih =>
    obtain ⟨hline, hrest⟩ := List.forall_mem_cons.mp hadded
    rw [List.map_cons, List.foldl_cons, List.foldl_cons, mergeLine_map h hline]
    apply ih _ hrest
    intro a ha
    rcases mem_mergeLine ha with ha | rfl
    · exact h a ha
    · exact hline

theorem updateLast_map {f : α → β} {name : Text} {g : List α → List α} {g' : List β → List β}
    {sections : List (Text × List α)} (h : ∀ sec ∈ sections, g' (sec.2.map f) = (g sec.2).map f) :
    updateLast name g' (mapLines f sections) = (updateLast name g sections).map (mapLines f) := by
  induction sections with
  | nil => rfl
  | cons sec sections ih =>
    obtain ⟨hsec, hsections⟩ := List.forall_mem_cons.mp h
    have hcons : mapLines f (sec :: sections) = (sec.1, sec.2.map f) :: mapLines f sections := rfl
    rw [hcons, updateLast, updateLast, ih hsections]
    cases updateLast name g sections with
    | some rest => rfl
    | none =>
      dsimp only [Option.map_none]
      split
      · rw [hsec]
        rfl
      · rfl

/-- The sections behind an update: those before it, or the updated one. -/
theorem mem_updateLast {name : Text} {g : List α → List α} {sections updated : List (Text × List α)}
    (h : updateLast name g sections = some updated) {sec : Text × List α} (hsec : sec ∈ updated) :
    sec ∈ sections ∨ ∃ lines, (name, lines) ∈ sections ∧ sec = (name, g lines) := by
  induction sections generalizing updated with
  | nil => cases h
  | cons first sections ih =>
    obtain ⟨other, lines⟩ := first
    rw [updateLast] at h
    split at h
    · rename_i rest hrest
      rw [← Option.some.inj h, List.mem_cons] at hsec
      rcases hsec with rfl | hsec
      · exact Or.inl List.mem_cons_self
      · refine (ih hrest hsec).imp (List.mem_cons_of_mem _) ?_
        rintro ⟨lines', hmem, heq⟩
        exact ⟨lines', List.mem_cons_of_mem _ hmem, heq⟩
    · split at h
      · rename_i hname
        rw [← Option.some.inj h, List.mem_cons] at hsec
        rcases hsec with rfl | hsec
        · exact Or.inr ⟨lines, by rw [hname]; exact List.mem_cons_self, by rw [hname]⟩
        · exact Or.inl (List.mem_cons_of_mem _ hsec)
      · cases h

/-- A section of a merge has a name that was there, and lines that were there. -/
theorem mem_mergeSection {merged : List (Text × List α)} {added sec : Text × List α}
    (h : sec ∈ mergeSection text merged added) :
    (sec.1 = added.1 ∨ ∃ lines, (sec.1, lines) ∈ merged) ∧
      ∀ line ∈ sec.2, line ∈ added.2 ∨ ∃ other ∈ merged, line ∈ other.2 := by
  unfold mergeSection at h
  split at h
  · rename_i updated hupdated
    rcases mem_updateLast hupdated h with hsec | ⟨lines, hmem, rfl⟩
    · exact ⟨Or.inr ⟨sec.2, hsec⟩, fun line hline => Or.inr ⟨sec, hsec, hline⟩⟩
    · refine ⟨Or.inl rfl, fun line hline => ?_⟩
      rcases mem_foldl_mergeLine hline with hline | hline
      · exact Or.inr ⟨_, hmem, hline⟩
      · exact Or.inl hline
  · rcases List.mem_append.mp h with hsec | hsec
    · exact ⟨Or.inr ⟨sec.2, hsec⟩, fun line hline => Or.inr ⟨sec, hsec, hline⟩⟩
    · rw [List.mem_singleton.mp hsec]
      exact ⟨Or.inl rfl, fun line hline => Or.inl hline⟩

/-- What holds of the names and the lines of both holds of the merge. -/
theorem forall_mergeSections {Q : Text → Prop} {P : α → Prop} {base overlay : List (Text × List α)}
    (hbase : ∀ sec ∈ base, Q sec.1 ∧ ∀ line ∈ sec.2, P line)
    (hoverlay : ∀ sec ∈ overlay, Q sec.1 ∧ ∀ line ∈ sec.2, P line) :
    ∀ sec ∈ mergeSections text base overlay, Q sec.1 ∧ ∀ line ∈ sec.2, P line := by
  unfold mergeSections
  induction overlay generalizing base with
  | nil => exact hbase
  | cons added overlay ih =>
    obtain ⟨hadded, hrest⟩ := List.forall_mem_cons.mp hoverlay
    apply ih _ hrest
    intro sec hsec
    obtain ⟨hname, hlines⟩ := mem_mergeSection hsec
    constructor
    · rcases hname with hname | ⟨lines, hmem⟩
      · exact hname ▸ hadded.1
      · exact (hbase _ hmem).1
    · intro line hline
      rcases hlines line hline with hline | ⟨other, hother, hline⟩
      · exact hadded.2 line hline
      · exact (hbase other hother).2 line hline

theorem AllLines.mergeSections {P : α → Prop} {base overlay : List (Text × List α)}
    (hbase : AllLines P base) (hoverlay : AllLines P overlay) :
    AllLines P (mergeSections text base overlay) := by
  intro sec hsec
  exact (forall_mergeSections (Q := fun _ => True) (fun sec hsec => ⟨trivial, hbase sec hsec⟩)
    (fun sec hsec => ⟨trivial, hoverlay sec hsec⟩) sec hsec).2

/-- A map of lines that keeps how they are merged commutes with a merge. -/
theorem mergeSections_map {f : α → β} {base overlay : List (Text × List α)}
    (hbase : AllLines (fun a => mergeKind (text' (f a)) = mergeKind (text a)) base)
    (hoverlay : AllLines (fun a => mergeKind (text' (f a)) = mergeKind (text a)) overlay) :
    mergeSections text' (mapLines f base) (mapLines f overlay) =
      mapLines f (mergeSections text base overlay) := by
  unfold mergeSections
  induction overlay generalizing base with
  | nil => rfl
  | cons added overlay ih =>
    obtain ⟨hadded, hrest⟩ := List.forall_mem_cons.mp hoverlay
    have hstep : mergeSection text' (mapLines f base) (added.1, added.2.map f) =
        mapLines f (mergeSection text base added) := by
      unfold mergeSection
      rw [updateLast_map (g := fun lines => added.2.foldl (mergeLine text) lines)
        fun sec hsec => foldl_mergeLine_map (hbase sec hsec) hadded]
      cases updateLast added.1 (fun lines => added.2.foldl (mergeLine text) lines) base with
      | some merged => rfl
      | none => simp [mapLines]
    have hmapped : mapLines f (added :: overlay) = (added.1, added.2.map f) :: mapLines f overlay :=
      rfl
    rw [hmapped, List.foldl_cons, List.foldl_cons, hstep]
    apply ih _ hrest
    have hsingle : AllLines (fun a => mergeKind (text' (f a)) = mergeKind (text a)) [added] :=
      fun sec hsec => List.mem_singleton.mp hsec ▸ hadded
    exact AllLines.mergeSections hbase hsingle

end

/-! ## Writing and reading -/

/-- A line that is read as a line of a section. -/
structure IniLine (line : Text) : Prop where
  trimmed : trim line = line
  notHeader : isIniHeader line = false
  notIgnored : isIniIgnored line = false
  oneLine : '\n' ∉ line

/-- A line that is read as the header of a section. -/
structure IniHeader (line : Text) : Prop where
  trimmed : trim line = line
  header : isIniHeader line = true
  oneLine : '\n' ∉ line

/-- Sections that are read as they are written. -/
def WellFormed (sections : List (Text × List Text)) : Prop :=
  ∀ sec ∈ sections, IniHeader sec.1 ∧ ∀ line ∈ sec.2, IniLine line

theorem IniHeader.ne_nil {line : Text} (h : IniHeader line) : line ≠ [] := by
  rintro rfl
  exact absurd h.header (by decide)

theorem mem_of_mem_trim {line : Text} {c : Char} (h : c ∈ trim line) : c ∈ line := by
  rw [trim, List.mem_reverse] at h
  exact List.dropWhile_subset _ (List.mem_reverse.mp (List.dropWhile_subset _ h))

theorem trim_trim (line : Text) : trim (trim line) = trim line := by
  have hdrop : ∀ {p : Char → Bool} (l : Text), ∀ c ∈ (l.dropWhile p).head?, p c = false := by
    intro p l c hc
    have hnot := List.head?_dropWhile_not p l
    rw [Option.mem_def.mp hc] at hnot
    simpa using hnot
  apply trim_eq_self_iff.mpr
  constructor
  · intro c hc
    by_cases hnil : trim line = []
    · rw [hnil] at hc
      cases hc
    · have hprefix : trim line <+: line.dropWhile isWhitespace := by
        have hsuffix := List.dropWhile_suffix isWhitespace
          (l := (line.dropWhile isWhitespace).reverse)
        rw [trim]
        simpa using List.reverse_prefix.mpr hsuffix
      obtain ⟨rest, hrest⟩ := hprefix
      apply hdrop line c
      rw [← hrest, List.head?_append_of_ne_nil _ hnil]
      exact hc
  · intro c hc
    rw [trim, List.getLast?_reverse] at hc
    exact hdrop _ c hc

/-- The sections that are read are written one by one. -/
theorem wellFormed_parseIniLines {current : Text} {lines trimmed : List Text}
    (hcurrent : current ≠ [] → IniHeader current) (hlines : ∀ line ∈ lines, IniLine line)
    (htrimmed : ∀ line ∈ trimmed, trim line = line ∧ '\n' ∉ line) :
    WellFormed (parseIniLines current lines trimmed) := by
  induction trimmed generalizing current lines with
  | nil =>
    rw [parseIniLines]
    split
    · intro sec hsec
      exact absurd hsec List.not_mem_nil
    · rename_i hne
      intro sec hsec
      rw [List.mem_singleton.mp hsec]
      exact ⟨hcurrent hne, hlines⟩
  | cons line trimmed ih =>
    obtain ⟨⟨htrim, hnewline⟩, hrest⟩ := List.forall_mem_cons.mp htrimmed
    rw [parseIniLines]
    split
    · rename_i hheader
      have hnew : line ≠ [] → IniHeader line := fun _ => ⟨htrim, hheader, hnewline⟩
      split
      · exact ih hnew hlines hrest
      · rename_i hne
        intro sec hsec
        rcases List.mem_cons.mp hsec with rfl | hsec
        · exact ⟨hcurrent hne, hlines⟩
        · exact ih hnew (by simp) hrest sec hsec
    · rename_i hheader
      split
      · exact ih hcurrent hlines hrest
      · rename_i hkept
        rw [not_or] at hkept
        apply ih hcurrent _ hrest
        intro other hother
        rcases List.mem_append.mp hother with hother | hother
        · exact hlines other hother
        · rw [List.mem_singleton.mp hother]
          exact ⟨htrim, by simpa using hheader, by simpa using hkept.2, hnewline⟩

theorem wellFormed_parseIniToSections (content : Text) :
    WellFormed (parseIniToSections content) := by
  apply wellFormed_parseIniLines
  · exact fun h => absurd rfl h
  · simp
  · intro line hline
    obtain ⟨raw, hraw, rfl⟩ := List.mem_map.mp hline
    exact ⟨trim_trim raw, fun hmem => newline_not_mem_of_mem_textLines hraw (mem_of_mem_trim hmem)⟩

theorem WellFormed.mergeSections {base overlay : List (Text × List Text)} (hbase : WellFormed base)
    (hoverlay : WellFormed overlay) : WellFormed (mergeSections id base overlay) :=
  forall_mergeSections hbase hoverlay

theorem parseIniLines_append {current : Text} (hcurrent : current ≠ []) {added : List Text}
    (hadded : ∀ line ∈ added, IniLine line) (lines rest : List Text) :
    parseIniLines current lines (added ++ rest) = parseIniLines current (lines ++ added) rest := by
  induction added generalizing lines with
  | nil => rw [List.nil_append, List.append_nil]
  | cons line added ih =>
    obtain ⟨hline, hrest⟩ := List.forall_mem_cons.mp hadded
    rw [List.cons_append, parseIniLines, hline.notHeader, if_neg (by simp),
      if_neg (by simp [hcurrent, hline.notIgnored]), ih hrest, List.append_assoc]
    rfl

theorem parseIniLines_sections {sections : List (Text × List Text)} (h : WellFormed sections)
    (current : Text) (lines : List Text) (hlines : current = [] → lines = []) :
    parseIniLines current lines (sections.flatMap fun sec => sec.1 :: (sec.2 ++ [[]])) =
      if current = [] then sections else (current, lines) :: sections := by
  induction sections generalizing current lines with
  | nil => rfl
  | cons sec sections ih =>
    obtain ⟨⟨hname, hlines'⟩, hrest⟩ := List.forall_mem_cons.mp h
    have hsection : ∀ lines, parseIniLines sec.1 lines (sec.2 ++ [] ::
        sections.flatMap fun sec => sec.1 :: (sec.2 ++ [[]])) =
          (sec.1, lines ++ sec.2) :: sections := by
      intro lines
      have hblank : isIniIgnored [] = true := rfl
      have hnotHeader : isIniHeader [] = false := rfl
      rw [parseIniLines_append hname.ne_nil hlines', parseIniLines, hnotHeader,
        if_neg (by simp), if_pos (Or.inr hblank),
        ih hrest sec.1 _ fun hnil => absurd hnil hname.ne_nil, if_neg hname.ne_nil]
    rw [List.flatMap_cons, List.cons_append, List.append_assoc, List.singleton_append,
      parseIniLines, if_pos hname.header]
    split
    · rename_i hcurrent
      rw [hlines hcurrent, hsection, List.nil_append]
    · rw [hsection, List.nil_append]

/-- What is written is read back. -/
theorem parseIniToSections_renderSections {sections : List (Text × List Text)}
    (h : WellFormed sections) : parseIniToSections (renderSections sections) = sections := by
  have hlines : ∀ line ∈ sections.flatMap (fun sec => sec.1 :: (sec.2 ++ [[]])),
      trim line = line ∧ '\n' ∉ line := by
    intro line hline
    obtain ⟨sec, hsec, hline⟩ := List.mem_flatMap.mp hline
    obtain ⟨hname, hlines⟩ := h sec hsec
    rw [List.mem_cons, List.mem_append, List.mem_singleton] at hline
    rcases hline with rfl | hline | rfl
    · exact ⟨hname.trimmed, hname.oneLine⟩
    · exact ⟨(hlines line hline).trimmed, (hlines line hline).oneLine⟩
    · exact ⟨rfl, List.not_mem_nil⟩
  have htrim : ∀ line ∈ sections.flatMap (fun sec => sec.1 :: (sec.2 ++ [[]])),
      (trim ∘ stripCr) line = line := by
    intro line hline
    have hlast : line.getLast? ≠ some '\r' := by
      intro heq
      have hwhite := (trim_eq_self_iff.mp (hlines line hline).1).2 '\r' heq
      exact absurd hwhite (by decide)
    rw [Function.comp_apply, stripCr_of_ne hlast, (hlines line hline).1]
  rw [parseIniToSections, renderSections, textLines_unlines_of_not_mem fun line hline =>
    (hlines line hline).2, List.map_map, List.map_congr_left htrim, List.map_id',
    parseIniLines_sections h [] [] fun _ => rfl, if_pos rfl]

/-- Drop-ins merged as sections. -/
def mergeAll (base : List (Text × List Text)) (overrides : List Text) : List (Text × List Text) :=
  overrides.foldl (fun merged content => mergeSections id merged (parseIniToSections content)) base

/-- Drop-ins are merged as sections. -/
theorem mergeUnitContents_eq (base : Text) {overrides : List Text} (h : overrides ≠ []) :
    mergeUnitContents base overrides =
      renderSections (mergeAll (parseIniToSections base) overrides) := by
  have hrender : ∀ (overrides : List Text) (sections : List (Text × List Text)),
      WellFormed sections → overrides.foldl mergeIniSections (renderSections sections) =
        renderSections (mergeAll sections overrides) := by
    intro overrides
    induction overrides with
    | nil => exact fun _ _ => rfl
    | cons content overrides ih =>
      intro sections hsections
      rw [List.foldl_cons, mergeIniSections, parseIniToSections_renderSections hsections,
        ih _ (hsections.mergeSections (wellFormed_parseIniToSections content))]
      rfl
  cases overrides with
  | nil => exact absurd rfl h
  | cons content overrides =>
    rw [mergeUnitContents, List.foldl_cons, mergeIniSections, hrender]
    · rfl
    · exact (wellFormed_parseIniToSections base).mergeSections
        (wellFormed_parseIniToSections content)

end OxidizedSystemd.Loading
