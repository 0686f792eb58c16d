import OxidizedSystemd.Lib.Grouping
import OxidizedSystemd.Udevd.Rules.Process

/-!
# Read-only properties

`is_read_only_property` names the properties that rules and `.link` files must not overwrite
(`udevd/src/lib.rs`, lines 1435–1455). Only `Property=` and `UnsetProperty=` of `.link` files ask
it; assignments and imports do not.

* `keepsReadOnly_executeAssignment_iff`: what one token does to the read-only properties.
* `processRules_readOnly_iff`: they stay as they were received exactly if no token that is executed
  sets one of them to another value.
-/

namespace OxidizedSystemd.Udevd.Rules

open Lib

/-- The read-only properties of two events are the same. -/
def KeepsReadOnly (event event' : RuleEvent) : Prop :=
  ∀ key, isReadOnlyProperty key = true → event'.env.get? key = event.env.get? key

/-- Properties that, set one after another, leave the read-only ones at the values that they
    have. -/
def Harmless (event : RuleEvent) (properties : List (Text × Text)) : Prop :=
  ∀ key, isReadOnlyProperty key = true → ∀ value, lastAt properties key = some value →
    event.env.get? key = some value

/-- No property is read-only. -/
def Writable (properties : List (Text × Text)) : Prop :=
  ∀ p ∈ properties, isReadOnlyProperty p.1 = false

section Keeps

variable {event event₁ event₂ : RuleEvent} {properties : List (Text × Text)}

@[refl] theorem KeepsReadOnly.refl (event : RuleEvent) : KeepsReadOnly event event :=
  fun _ _ => rfl

theorem KeepsReadOnly.trans (h : KeepsReadOnly event event₁) (h' : KeepsReadOnly event₁ event₂) :
    KeepsReadOnly event event₂ :=
  fun key hkey => (h' key hkey).trans (h key hkey)

/-- A step that keeps the properties does not count, before another one. -/
theorem KeepsReadOnly.iff_left (h : KeepsReadOnly event event₁) :
    KeepsReadOnly event event₂ ↔ KeepsReadOnly event₁ event₂ := by
  constructor
  · intro h₂ key hkey
    rw [h₂ key hkey, h key hkey]
  · exact h.trans

/-- And not behind one. -/
theorem KeepsReadOnly.iff_right (h : KeepsReadOnly event₁ event₂) :
    KeepsReadOnly event event₂ ↔ KeepsReadOnly event event₁ := by
  constructor
  · intro h₂ key hkey
    rw [← h₂ key hkey, h key hkey]
  · intro h₁
    exact h₁.trans h

theorem keepsReadOnly_enter_iff :
    KeepsReadOnly event (event.enter properties) ↔ Harmless event properties := by
  have hget : ∀ key, (event.enter properties).env.get? key =
      (lastAt properties key).or (event.env.get? key) := get?_foldl_insert properties event.env
  apply forall₂_congr
  intro key _
  rw [hget]
  cases lastAt properties key with
  | none => simp
  | some value => simp [eq_comm]

theorem Writable.harmless (h : Writable properties) : Harmless event properties := by
  intro key hkey value hlast
  have hfalse := h (key, value) (mem_of_lastAt hlast)
  rw [hkey] at hfalse
  cases hfalse

theorem Writable.keepsReadOnly (h : Writable properties) :
    KeepsReadOnly event (event.enter properties) := keepsReadOnly_enter_iff.mpr h.harmless

/-! ## Properties with names of their own -/

theorem writable_nil : Writable [] := fun _ h => absurd h List.not_mem_nil

theorem writable_cons {key value : Text} (hkey : isReadOnlyProperty key = false)
    (h : Writable properties) : Writable ((key, value) :: properties) :=
  List.forall_mem_cons.mpr ⟨hkey, h⟩

theorem writable_append {properties' : List (Text × Text)} (h : Writable properties)
    (h' : Writable properties') : Writable (properties ++ properties') :=
  List.forall_mem_append.mpr ⟨h, h'⟩

theorem writable_option {key : Text} (hkey : isReadOnlyProperty key = false)
    (value : Option Text) : Writable (value.map (key, ·)).toList := by
  cases value with
  | none => exact writable_nil
  | some value => exact writable_cons hkey writable_nil

theorem writable_ite {key value : Text} (hkey : isReadOnlyProperty key = false) (c : Prop)
    [Decidable c] : Writable (if c then [(key, value)] else []) := by
  split
  · exact writable_cons hkey writable_nil
  · exact writable_nil

theorem writable_pathId (event : RuleEvent) : Writable (pathId event) := by
  unfold pathId
  dsimp only
  split
  · exact writable_nil
  · exact writable_cons (by decide) (writable_cons (by decide) writable_nil)

theorem writable_inputId (outside : Outside) (event : RuleEvent) :
    Writable (inputId outside event) := by
  unfold inputId
  split
  · exact writable_nil
  · apply writable_append
    · apply writable_append
      · apply writable_append
        · exact writable_cons (by decide) writable_nil
        · exact writable_ite (by decide) _
      · exact writable_ite (by decide) _
    · exact writable_ite (by decide) _

theorem writable_usbId (outside : Outside) (event : RuleEvent) :
    Writable (usbId outside event) := by
  apply writable_append
  · apply writable_append
    · exact writable_option (by decide) _
    · exact writable_option (by decide) _
  · exact writable_option (by decide) _

theorem writable_netId (outside : Outside) (event : RuleEvent) :
    Writable (netId outside event) := by
  unfold netId
  cases event.env.get? "INTERFACE".toList with
  | none => exact writable_nil
  | some ifname =>
    dsimp only
    split
    · apply writable_append
      · exact writable_cons (by decide) (writable_cons (by decide) writable_nil)
      · exact writable_option (by decide) _
    · exact writable_nil

theorem writable_fileSystemProperties (fs : FileSystem) : Writable (fileSystemProperties fs) := by
  unfold fileSystemProperties
  apply writable_append
  · apply writable_append
    · exact writable_cons (by decide) (writable_cons (by decide) writable_nil)
    · cases fs.uuid with
      | none => exact writable_nil
      | some uuid => exact writable_cons (by decide) (writable_cons (by decide) writable_nil)
  · unfold pushFsLabel
    dsimp only
    split
    · exact writable_nil
    · exact writable_cons (by decide) (writable_cons (by decide) writable_nil)

theorem writable_loopProperties (backing : LoopBacking) : Writable (loopProperties backing) := by
  apply writable_append
  · exact writable_cons (by decide) (writable_cons (by decide) writable_nil)
  · cases backing.fileName with
    | none => exact writable_nil
    | some name => exact writable_cons (by decide) (writable_cons (by decide) writable_nil)

theorem writable_linkFileProperties (link : LinkFileConfig) :
    Writable (linkFileProperties link) := by
  apply writable_cons (by decide)
  split
  · exact writable_nil
  · exact writable_cons (by decide) writable_nil

theorem writable_linkSettings (link : LinkFileConfig) (originalName : Text)
    (env : SortedMap Text Text) : Writable (linkSettings link originalName env) := by
  unfold linkSettings
  apply writable_append
  · apply writable_append
    · apply writable_append
      · apply writable_append
        · cases resolveNameFromPolicy link.name env link.namePolicy with
          | none => exact writable_nil
          | some name => exact writable_ite (by decide) _
        · cases link.mtu with
          | none => exact writable_nil
          | some mtu => exact writable_cons (by decide) writable_nil
      · exact writable_option (by decide) _
    · exact writable_option (by decide) _
  · split
    · exact writable_nil
    · exact writable_cons (by decide) writable_nil

/-! ## The guarded settings of a `.link` file -/

theorem keepsReadOnly_foldl {α : Type} {f : RuleEvent → α → RuleEvent}
    (h : ∀ event a, KeepsReadOnly event (f event a)) (as : List α) (event : RuleEvent) :
    KeepsReadOnly event (as.foldl f event) := by
  induction as generalizing event with
  | nil => exact .refl event
  | cons a as ih => exact (h event a).trans (ih _)

theorem keepsReadOnly_set (event : RuleEvent) {key : Text} (hkey : isReadOnlyProperty key = false)
    (value : Text) : KeepsReadOnly event (event.set key value) := by
  show KeepsReadOnly event (event.enter [(key, value)])
  exact (writable_cons hkey writable_nil).keepsReadOnly

theorem keepsReadOnly_linkProperty (outside : Outside) (event : RuleEvent) (entry : Text) :
    KeepsReadOnly event (linkProperty outside event entry) := by
  unfold linkProperty
  cases splitOnce ['='] entry with
  | none => exact .refl event
  | some parts =>
    dsimp only
    split
    · exact .refl event
    · rename_i hkey
      push Not at hkey
      exact keepsReadOnly_set event (by simpa using hkey.2) _

theorem keepsReadOnly_unsetProperty (event : RuleEvent) (entry : Text) :
    KeepsReadOnly event (unsetProperty event entry) := by
  unfold unsetProperty
  dsimp only
  split
  · rename_i hkey
    intro key hread
    show (event.env.erase (trim entry)).get? key = _
    rw [SortedMap.get?_erase, if_neg]
    rintro rfl
    rw [hread] at hkey
    cases hkey.2
  · exact .refl event

/-! ## `ImportProperty=` -/

/-- The property that an entry of `ImportProperty=` takes from the database: one that the event
    does not have. -/
def missingEntry (entries : SortedMap Text Text) (event : RuleEvent) (entry : Text) :
    Option (Text × Text) :=
  if trim entry = [] ∨ (event.env.get? (trim entry)).isSome then none
  else (entries.get? (trim entry)).map (trim entry, ·)

variable {entries : SortedMap Text Text} {entry key value : Text} {imports : List Text}

theorem importProperty_eq (entries : SortedMap Text Text) (event : RuleEvent) (entry : Text) :
    importProperty entries event entry =
      event.enter (missingEntry entries event entry).toList := by
  unfold importProperty missingEntry
  dsimp only
  split
  · rfl
  · cases entries.get? (trim entry) with
    | none => rfl
    | some value => rfl

theorem missingEntry_eq_some_iff : missingEntry entries event entry = some (key, value) ↔
    key = trim entry ∧ key ≠ [] ∧ event.env.get? key = none ∧ entries.get? key = some value := by
  unfold missingEntry
  split
  · rename_i hskip
    constructor
    · intro h
      cases h
    · rintro ⟨rfl, hne, hnone, -⟩
      rw [hnone] at hskip
      simp [hne] at hskip
  · rename_i hskip
    push Not at hskip
    rw [Option.map_eq_some_iff]
    constructor
    · rintro ⟨value', hvalue, hpair⟩
      obtain ⟨rfl, rfl⟩ := Prod.mk.inj hpair
      exact ⟨rfl, hskip.1, by simpa using hskip.2, hvalue⟩
    · rintro ⟨rfl, -, -, hvalue⟩
      exact ⟨value, hvalue, rfl⟩

theorem writable_missingEntries_iff :
    Writable (imports.filterMap (missingEntry entries event)) ↔
      ∀ entry ∈ imports, isReadOnlyProperty (trim entry) = true →
        event.env.get? (trim entry) = none → entries.get? (trim entry) = none := by
  constructor
  · intro h entry hentry hread hnone
    by_contra hsome
    obtain ⟨value, hvalue⟩ := Option.ne_none_iff_exists'.mp hsome
    have hne : trim entry ≠ [] := by
      intro hnil
      rw [hnil] at hread
      revert hread
      decide
    have hfalse := h (trim entry, value) (List.mem_filterMap.mpr
      ⟨entry, hentry, missingEntry_eq_some_iff.mpr ⟨rfl, hne, hnone, hvalue⟩⟩)
    rw [hread] at hfalse
    cases hfalse
  · rintro h ⟨key, value⟩ hp
    obtain ⟨entry, hentry, hmissing⟩ := List.mem_filterMap.mp hp
    obtain ⟨rfl, -, hnone, hvalue⟩ := missingEntry_eq_some_iff.mp hmissing
    by_contra hread
    rw [h entry hentry (by simpa using hread) hnone] at hvalue
    cases hvalue

theorem KeepsReadOnly.writable_missingEntries (h : KeepsReadOnly event event₁) :
    Writable (imports.filterMap (missingEntry entries event₁)) ↔
      Writable (imports.filterMap (missingEntry entries event)) := by
  rw [writable_missingEntries_iff, writable_missingEntries_iff]
  refine forall₃_congr fun entry _ hentry => ?_
  rw [h _ hentry]

theorem harmless_missingEntries_iff :
    Harmless event (imports.filterMap (missingEntry entries event)) ↔
      Writable (imports.filterMap (missingEntry entries event)) := by
  constructor
  · rintro h ⟨key, value⟩ hp
    by_contra hread
    obtain ⟨value', hlast⟩ := Option.ne_none_iff_exists'.mp fun hnone =>
      lastAt_eq_none_iff.mp hnone value hp
    have hhas := h key (by simpa using hread) value' hlast
    obtain ⟨entry, -, hmissing⟩ := List.mem_filterMap.mp hp
    rw [(missingEntry_eq_some_iff.mp hmissing).2.2.1] at hhas
    cases hhas
  · exact Writable.harmless

/-- A property that the event has is not imported. -/
theorem get?_foldl_importProperty (imports : List Text) (h : event.env.get? key = some value) :
    (imports.foldl (importProperty entries) event).env.get? key = some value := by
  induction imports generalizing event with
  | nil => exact h
  | cons entry imports ih =>
    apply ih
    rw [importProperty_eq]
    cases hmissing : missingEntry entries event entry with
    | none => exact h
    | some p =>
      obtain ⟨key', value'⟩ := p
      show (event.env.insert key' value').get? key = _
      rw [SortedMap.get?_insert, if_neg]
      · exact h
      · rintro rfl
        rw [(missingEntry_eq_some_iff.mp hmissing).2.2.1] at h
        cases h

theorem keepsReadOnly_foldl_importProperty_iff :
    KeepsReadOnly event (imports.foldl (importProperty entries) event) ↔
      Writable (imports.filterMap (missingEntry entries event)) := by
  induction imports generalizing event with
  | nil => exact iff_of_true (.refl event) writable_nil
  | cons entry imports ih =>
    rw [List.foldl_cons, importProperty_eq, List.filterMap_cons]
    cases hmissing : missingEntry entries event entry with
    | none => exact ih
    | some p =>
      obtain ⟨key, value⟩ := p
      show KeepsReadOnly event (imports.foldl (importProperty entries) (event.set key value)) ↔
        Writable ((key, value) :: _)
      obtain ⟨-, -, hnone, -⟩ := missingEntry_eq_some_iff.mp hmissing
      cases hread : isReadOnlyProperty key with
      | false =>
        have hset := keepsReadOnly_set event hread value
        rw [hset.iff_left, ih, hset.writable_missingEntries, Writable, Writable,
          List.forall_mem_cons]
        exact (and_iff_right hread).symm
      | true =>
        apply iff_of_false
        · intro h
          have hhas : (event.set key value).env.get? key = some value := by
            show (event.env.insert key value).get? key = _
            rw [SortedMap.get?_insert, if_pos rfl]
          have hkept := h key hread
          rw [get?_foldl_importProperty imports hhas, hnone] at hkept
          cases hkept
        · intro h
          have hfalse := h (key, value) List.mem_cons_self
          rw [hread] at hfalse
          cases hfalse

/-! ## Imports -/

theorem foldl_subsystem {α : Type} {f : RuleEvent → α → RuleEvent}
    (h : ∀ event a, (f event a).subsystem = event.subsystem) (as : List α) (event : RuleEvent) :
    (as.foldl f event).subsystem = event.subsystem := by
  induction as generalizing event with
  | nil => rfl
  | cons a as ih => exact (ih _).trans (h event a)

theorem subsystem_linkProperty (outside : Outside) (event : RuleEvent) (entry : Text) :
    (linkProperty outside event entry).subsystem = event.subsystem := by
  unfold linkProperty
  cases splitOnce ['='] entry with
  | none => rfl
  | some parts =>
    dsimp only
    split
    · rfl
    · rfl

theorem subsystem_unsetProperty (event : RuleEvent) (entry : Text) :
    (unsetProperty event entry).subsystem = event.subsystem := by
  unfold unsetProperty
  dsimp only
  split
  · rfl
  · rfl

/-- The entry of a device in the database is found through read-only properties. -/
theorem KeepsReadOnly.readExistingUdevDbEnv (h : KeepsReadOnly event event₁)
    (hsubsystem : event₁.subsystem = event.subsystem) (db : DeviceDb) :
    readExistingUdevDbEnv db event₁.toUEvent = readExistingUdevDbEnv db event.toUEvent := by
  unfold Udevd.readExistingUdevDbEnv udevDbNameForEvent udevDbNameForEvent.deviceNumber
  rw [h "IFINDEX".toList (by decide), h "MAJOR".toList (by decide), h "MINOR".toList (by decide),
    hsubsystem]

/-- The properties that `ImportProperty=` of the matching `.link` file takes from the database. -/
def importedByLink (outside : Outside) (event : RuleEvent) : List (Text × Text) :=
  if event.subsystem ≠ "net".toList ∨
      (event.env.get? "INTERFACE".toList).getD (baseName event.devpath) = [] then []
  else
    match outside.linkConfig event with
    | none => []
    | some link =>
      if ["add".toList, "bind".toList, "move".toList].contains event.action then
        match readExistingUdevDbEnv outside.db event.toUEvent with
        | some entries => link.importProperties.filterMap (missingEntry entries event)
        | none => []
      else []

theorem keepsReadOnly_applyLinkProperties_iff {outside : Outside} {link : LinkFileConfig} :
    KeepsReadOnly event (applyLinkProperties outside link event) ↔
      (["add".toList, "bind".toList, "move".toList].contains event.action = true →
        ∀ entries, readExistingUdevDbEnv outside.db event.toUEvent = some entries →
          Writable (link.importProperties.filterMap (missingEntry entries event))) := by
  unfold applyLinkProperties
  split
  · rename_i haction
    have hset := (keepsReadOnly_foldl (keepsReadOnly_linkProperty outside) link.properties
      event).trans (keepsReadOnly_foldl keepsReadOnly_unsetProperty link.unsetProperties _)
    have hsubsystem := (foldl_subsystem subsystem_unsetProperty link.unsetProperties
      (link.properties.foldl (linkProperty outside) event)).trans
        (foldl_subsystem (subsystem_linkProperty outside) link.properties event)
    have hentries := hset.readExistingUdevDbEnv hsubsystem outside.db
    dsimp only
    rw [forall_prop_of_true haction, hentries]
    cases readExistingUdevDbEnv outside.db event.toUEvent with
    | none => exact iff_of_true hset (by simp)
    | some entries =>
      dsimp only
      rw [hset.iff_left, keepsReadOnly_foldl_importProperty_iff, hset.writable_missingEntries]
      simp
  · rename_i haction
    exact iff_of_true (.refl event) fun h => absurd h haction

theorem keepsReadOnly_builtinNetSetupLink_iff (outside : Outside) (event : RuleEvent) :
    KeepsReadOnly event (builtinNetSetupLink outside event) ↔
      Harmless event (importedByLink outside event) := by
  unfold builtinNetSetupLink importedByLink
  dsimp only
  split
  · exact iff_of_true (.refl event) writable_nil.harmless
  · cases outside.linkConfig event with
    | none => exact iff_of_true (.refl event) writable_nil.harmless
    | some link =>
      dsimp only
      generalize (event.env.get? "INTERFACE".toList).getD (baseName event.devpath) = originalName
      have hfile : KeepsReadOnly event (event.enter (linkFileProperties link)) :=
        (writable_linkFileProperties link).keepsReadOnly
      have hset := hfile.trans (writable_linkSettings link originalName
        (event.enter (linkFileProperties link)).env).keepsReadOnly
      have hentries := hset.readExistingUdevDbEnv rfl outside.db
      rw [hset.iff_left, keepsReadOnly_applyLinkProperties_iff, hentries]
      show (["add".toList, "bind".toList, "move".toList].contains event.action = true → _) ↔ _
      split
      · rename_i haction
        rw [forall_prop_of_true haction]
        cases readExistingUdevDbEnv outside.db event.toUEvent with
        | none => exact iff_of_true (by simp) writable_nil.harmless
        | some entries =>
          dsimp only
          rw [harmless_missingEntries_iff, ← hset.writable_missingEntries]
          simp
      · rename_i haction
        exact iff_of_true (fun h => absurd h haction) writable_nil.harmless

/-- The properties that `blkid` prints for a device that is not recognized. -/
def importedByBlkid (outside : Outside) (event : RuleEvent) : List (Text × Text) :=
  match devnode event with
  | none => []
  | some node => if (outside.probe node).isSome then [] else blkidOutput outside node

theorem keepsReadOnly_enterLoop (outside : Outside) (node : Text) (event : RuleEvent) :
    KeepsReadOnly event (enterLoop outside node event) := by
  unfold enterLoop
  split
  · cases outside.loopBacking node with
    | none => exact .refl event
    | some backing => exact (writable_loopProperties backing).keepsReadOnly
  · exact .refl event

theorem keepsReadOnly_builtinBlkid_iff (outside : Outside) (event : RuleEvent) :
    KeepsReadOnly event (builtinBlkid outside event) ↔
      Harmless event (importedByBlkid outside event) := by
  unfold builtinBlkid importedByBlkid
  cases devnode event with
  | none => exact iff_of_true (.refl event) writable_nil.harmless
  | some node =>
    dsimp only
    cases outside.probe node with
    | none => exact (keepsReadOnly_enterLoop outside node _).iff_right.trans keepsReadOnly_enter_iff
    | some fs =>
      exact iff_of_true ((writable_fileSystemProperties fs).keepsReadOnly.trans
        (keepsReadOnly_enterLoop outside node _)) writable_nil.harmless

/-- The properties that a builtin sets without a look at their names. -/
def importedByBuiltin (outside : Outside) (cmd : Text) (event : RuleEvent) : List (Text × Text) :=
  match splitWhitespace cmd with
  | [] => []
  | name :: _ =>
    if name = "blkid".toList then importedByBlkid outside event
    else if name = "hwdb".toList then outside.hwdb cmd event
    else if name = "net_setup_link".toList then importedByLink outside event
    else []

theorem keepsReadOnly_handleBuiltinImport_iff (outside : Outside) (cmd : Text)
    (event : RuleEvent) :
    KeepsReadOnly event (handleBuiltinImport outside cmd event) ↔
      Harmless event (importedByBuiltin outside cmd event) := by
  unfold handleBuiltinImport importedByBuiltin
  cases splitWhitespace cmd with
  | nil => exact iff_of_true (.refl event) writable_nil.harmless
  | cons name arguments =>
    dsimp only
    by_cases hpath : name = "path_id".toList
    · subst hpath
      exact iff_of_true (writable_pathId event).keepsReadOnly writable_nil.harmless
    by_cases hinput : name = "input_id".toList
    · subst hinput
      exact iff_of_true (writable_inputId outside event).keepsReadOnly writable_nil.harmless
    by_cases husb : name = "usb_id".toList
    · subst husb
      exact iff_of_true (writable_usbId outside event).keepsReadOnly writable_nil.harmless
    by_cases hnet : name = "net_id".toList
    · subst hnet
      exact iff_of_true (writable_netId outside event).keepsReadOnly writable_nil.harmless
    rw [if_neg hpath, if_neg hinput, if_neg husb, if_neg hnet]
    split_ifs
    · exact keepsReadOnly_builtinBlkid_iff outside event
    · exact keepsReadOnly_enter_iff
    · exact keepsReadOnly_builtinNetSetupLink_iff outside event
    · exact iff_of_true (.refl event) writable_nil.harmless

/-- The properties that a token sets without a look at their names. -/
def assignedProperties (outside : Outside) (token : RuleToken) (value : Text)
    (event : RuleEvent) : List (Text × Text) :=
  if token.key = "ENV".toList then
    (token.attr.map fun key => (key, envValue event token.op key value)).toList
  else if token.key = "IMPORT".toList then
    if token.attr = some "builtin".toList then importedByBuiltin outside value event
    else importedProperties outside (token.attr.getD "file".toList) value event
  else []

/-- One token. -/
theorem keepsReadOnly_executeAssignment_iff (outside : Outside) (token : RuleToken)
    (value : Text) (st : RuleState) :
    KeepsReadOnly st.event (executeAssignment outside token value st).event ↔
      Harmless st.event (assignedProperties outside token value st.event) := by
  unfold executeAssignment assignedProperties
  have hevent : (if token.op = .assignFinal then
      { st with finalKeys := finalKey token :: st.finalKeys } else st).event = st.event := by
    split
    · rfl
    · rfl
  generalize (if token.op = .assignFinal then
      { st with finalKeys := finalKey token :: st.finalKeys } else st) = st' at hevent
  dsimp only
  rw [← hevent]
  split_ifs with henv himport hbuiltin hprogram
  · cases token.attr with
    | none => exact iff_of_true (.refl _) writable_nil.harmless
    | some key =>
      show KeepsReadOnly st'.event
        (st'.event.enter [(key, envValue st'.event token.op key value)]) ↔ _
      exact keepsReadOnly_enter_iff
  · rw [hbuiltin]
    exact keepsReadOnly_handleBuiltinImport_iff outside value st'.event
  · unfold handleImport
    rw [if_neg]
    · exact keepsReadOnly_enter_iff
    · cases hattr : token.attr with
      | none => decide
      | some kind =>
        rintro rfl
        exact hbuiltin hattr
  · exact iff_of_true (.refl _) writable_nil.harmless
  · exact iff_of_true (.refl _) writable_nil.harmless

end Keeps

/-! ## Runs -/

section Runs

variable {world : ℕ → Outside} {rules : List Rule} {event : RuleEvent}

/-- The tokens that are executed do no harm. -/
def ExecutedHarmless (world : ℕ → Outside) (rules : List Rule) (event : RuleEvent) : Prop :=
  ∀ st token, Executed world rules event st token → Harmless st.event
    (assignedProperties (world st.clock) token (expandedValue world st token) st.event)

theorem keepsReadOnly_assignStep_iff {st : RuleState} {token : RuleToken}
    (h : executes st token = true) :
    KeepsReadOnly st.event (assignStep world st token).event ↔ Harmless st.event
      (assignedProperties (world st.clock) token (expandedValue world st token) st.event) := by
  rw [assignStep, if_pos h]
  exact keepsReadOnly_executeAssignment_iff _ token _ st

/-- The tokens of a rule, as far as they have been looked at. -/
theorem keepsReadOnly_before {i : ℕ} {st₀ st₁ : RuleState} {rule : Rule}
    {before after : List RuleToken} (hat : AtRule world rules event i st₀)
    (hrule : rules[i]? = some rule) (henter : enterRule world rule st₀ = some st₁)
    (htokens : rule.tokens = before ++ after) (hkept : KeepsReadOnly event st₀.event)
    (hall : ∀ st token, Executed world rules event st token →
      KeepsReadOnly event st.event → KeepsReadOnly event (assignStep world st token).event) :
    KeepsReadOnly event (before.foldl (assignStep world) st₁).event := by
  induction before using List.reverseRecOn generalizing after with
  | nil =>
    rw [List.foldl_nil, event_enterRule henter]
    exact hkept
  | append_singleton before token ih =>
    rw [List.append_assoc] at htokens
    have hbefore := ih htokens
    rw [List.foldl_append, List.foldl_cons, List.foldl_nil]
    cases hexec : executes (before.foldl (assignStep world) st₁) token with
    | true =>
      refine hall _ token ⟨?_, hexec⟩ hbefore
      exact ⟨i, st₀, rule, st₁, before, after, hat, hrule, henter, htokens, rfl⟩
    | false =>
      rw [assignStep, if_neg (by rw [hexec]; exact Bool.false_ne_true)]
      exact hbefore

/-- What every executed token keeps is kept at every rule. -/
theorem AtRule.keepsReadOnly {i : ℕ} {st : RuleState} (h : AtRule world rules event i st)
    (hall : ∀ st token, Executed world rules event st token →
      KeepsReadOnly event st.event → KeepsReadOnly event (assignStep world st token).event) :
    KeepsReadOnly event st.event := by
  induction h with
  | start => exact .refl event
  | turn hat hrule ih =>
    rename_i st rule
    unfold Rules.turn
    cases henter : enterRule world rule st with
    | none =>
      dsimp only
      rw [event_matchTokens]
      exact ih
    | some st₁ =>
      dsimp only
      exact keepsReadOnly_before hat hrule henter (List.append_nil _).symm ih hall

theorem AtToken.keepsReadOnly {st : RuleState} {token : RuleToken}
    (h : AtToken world rules event st token)
    (hall : ∀ st token, Executed world rules event st token →
      KeepsReadOnly event st.event → KeepsReadOnly event (assignStep world st token).event) :
    KeepsReadOnly event st.event := by
  obtain ⟨i, st₀, rule, st₁, before, after, hat, hrule, henter, htokens, rfl⟩ := h
  exact keepsReadOnly_before hat hrule henter htokens (hat.keepsReadOnly hall) hall

/-- The read-only properties stay as they were received, all the way, exactly if no token that is
    executed sets one of them to another value. -/
theorem reached_readOnly_iff (world : ℕ → Outside) (rules : List Rule) (event : RuleEvent) :
    (∀ st, Reached world rules event st → KeepsReadOnly event st.event) ↔
      ExecutedHarmless world rules event := by
  constructor
  · intro hkept st token hexec
    have hafter := hkept _ (.token hexec)
    have hbefore : KeepsReadOnly event st.event := by
      apply hexec.1.keepsReadOnly
      intro st' token' hexec' _
      exact hkept _ (.token hexec')
    exact (keepsReadOnly_assignStep_iff hexec.2).mp (hbefore.iff_left.mp hafter)
  · intro hharmless
    have hall : ∀ st token, Executed world rules event st token →
        KeepsReadOnly event st.event → KeepsReadOnly event (assignStep world st token).event := by
      intro st token hexec hbefore
      exact hbefore.trans ((keepsReadOnly_assignStep_iff hexec.2).mpr (hharmless st token hexec))
    intro st hreached
    cases hreached with
    | rule hat => exact hat.keepsReadOnly hall
    | token hexec => exact hall _ _ hexec (hexec.1.keepsReadOnly hall)

/-- The read-only properties stay as they were received, all the way to the end of `process_rules`,
    exactly if no token that is executed sets one of them to another value. -/
theorem processRules_readOnly_iff (world : ℕ → Outside) (rules : List Rule) (event : RuleEvent) :
    Reached world rules event (processRules world rules event) ∧
    ((∀ st, Reached world rules event st → KeepsReadOnly event st.event) ↔
      ExecutedHarmless world rules event) :=
  ⟨reached_processRules world rules event, reached_readOnly_iff world rules event⟩

end Runs

/-! ## An assignment that is not guarded -/

theorem named_of_no_file (name : Text) (h : (none : Option Text).isSome) :
    ∃ event, name = deviceId event := by
  simp at h

/-- A machine without files and programs. -/
def emptyMachine : Outside where
  readFile _ := none
  readLink _ := none
  pathExists _ := false
  spawn _ _ := none
  kernelRelease := []
  db := ⟨fun _ => none, named_of_no_file⟩
  hwdb _ _ := []
  linkConfig _ := none
  probe _ := none
  loopBacking _ := none
  ethtoolDriver _ := none

/-- `add` of `/devices/d`. -/
def addEvent : RuleEvent where
  action := "add".toList
  devpath := "/devices/d".toList
  subsystem := []
  devname := []
  major := []
  minor := []
  env := SortedMap.empty.insert "ACTION".toList "add".toList
  devtype := []
  driver := []

/-- `ENV{ACTION}="remove"`. -/
def removeRule : Rule where
  tokens := [⟨"ENV".toList, some "ACTION".toList, .assign, "remove".toList⟩]
  label := none
  gotoTarget := none

theorem action_overwritten : ¬ ∀ world rules event,
    KeepsReadOnly event (processRules world rules event).event := by
  intro h
  have hkept := h (fun _ => emptyMachine) [removeRule] addEvent "ACTION".toList (by decide)
  have haction : (processRules (fun _ => emptyMachine) [removeRule] addEvent).event.env.get?
      "ACTION".toList = some "remove".toList := by decide
  rw [haction] at hkept
  revert hkept
  decide

end OxidizedSystemd.Udevd.Rules
