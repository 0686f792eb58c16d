import Mathlib.Algebra.BigOperators.Ring.List
import Mathlib.Algebra.Order.BigOperators.Group.List
import OxidizedSystemd.Loading.Specifier

/-!
# Drop-ins at boot and on demand

Models of `collect_applicable_dropins`, `apply_dropins` and `instantiate_template`
(`units/loading/directory_deps.rs`, lines 1003–1168 and 1472–1527), as far as the drop-ins that they
apply.

* `length_dropinsAmong`, `dropinsAmong_eq`: the walk at boot also comes to the drop-ins below the
  directories.
* `sameDropins`: when both loaders apply the same drop-ins.
-/

namespace OxidizedSystemd.Loading

open Lib

/-! ## The source -/

/-- The keys that `collect_applicable_dropins` goes through. -/
def applicableKeys (unitName : Text) : List Text :=
  ((rsplitOnce '.' unitName).toList.map Prod.snd).filter (· ≠ []) ++ prefixKeys unitName ++
    [unitName]

section

variable (ctx : SpecifierContext)

/-- A drop-in with its specifiers resolved. -/
def resolved (unitName inst : Text) (dropin : Text × Text) : Text × Text :=
  (dropin.1, resolveSpecifiers ctx dropin.2 unitName inst)

/-- `collect_applicable_dropins`, of a map of drop-ins. -/
def collectApplicableDropins (unitName : Text) (dropins : Text → List (Text × Text)) :
    List (Text × Text) :=
  (applicableKeys unitName).flatMap fun key =>
    (dropins key).map (resolved ctx unitName (instanceOf unitName))

/-- The base that `apply_dropins` merges into (lines 1132–1152). A slice needs no file. -/
def baseContent (unitDirs : List Entries) (unitName : Text) : Option Text :=
  match findUnitFileInDirs unitDirs unitName with
  | some text => text
  | none => (stripSuffix ".slice".toList unitName).map fun base =>
      "[Unit]\nDescription=Slice /".toList ++ base.map (fun c => if c = '-' then '/' else c) ++
        "\n\n[Slice]\n".toList

/-- The types that `apply_dropins` parses again (lines 1171–1189). -/
def isReparsed (unitName : Text) : Bool :=
  [".service", ".socket", ".target", ".slice", ".timer"].any fun suffix =>
    textEndsWith suffix.toList unitName

/-- The drop-ins that `apply_dropins` merges into a unit. -/
def applyDropinsOverrides (unitDirs : List Entries) (unitName : Text) : List (Text × Text) :=
  if isReparsed unitName ∧ (baseContent unitDirs unitName).isSome then
    collectApplicableDropins ctx unitName (bootDropins unitDirs)
  else []

/-- The types that `instantiate_template` knows (lines 1511–1526). -/
def isInstantiated (unitName : Text) : Bool :=
  [".service", ".socket", ".target"].any fun suffix => textEndsWith suffix.toList unitName

/-- The drop-ins that `instantiate_template` merges, with the specifiers that it resolves
    afterwards. -/
def instantiateOverrides (unitDirs : List Entries) (templateName instanceName unitName : Text) :
    List (Text × Text) :=
  (bootDropins unitDirs templateName ++ bootDropins unitDirs unitName).map
    (resolved ctx unitName instanceName)

/-- The drop-ins that `load_new_unit` merges. -/
def onDemandOverrides (unitDirs : List Entries) (unitName : Text) : List (Text × Text) :=
  collectApplicableDropins ctx unitName (collectDropinsForUnit unitDirs unitName)

end

/-! ## Keys -/

theorem joinedPrefixes_eq {parts : List Text} {joined : Text} (h : joined ∈ joinedPrefixes parts) :
    ∃ front rest, joined = front ++ ['-'] ∧ ['-'].intercalate parts = joined ++ rest := by
  induction parts generalizing joined with
  | nil => exact absurd h List.not_mem_nil
  | cons part parts ih =>
    cases parts with
    | nil => exact absurd h List.not_mem_nil
    | cons next parts =>
      rw [joinedPrefixes, List.mem_cons, List.mem_map] at h
      rcases h with rfl | ⟨tail, htail, rfl⟩
      · exact ⟨part, ['-'].intercalate (next :: parts), rfl, by simp [List.intercalate_cons_cons]⟩
      · obtain ⟨front, rest, rfl, heq⟩ := ih htail
        refine ⟨part ++ '-' :: front, rest, by simp, ?_⟩
        rw [List.intercalate_cons_cons, heq]
        simp

theorem pairwise_joinedPrefixes (parts : List Text) :
    (joinedPrefixes parts).Pairwise fun a b => a.length < b.length := by
  induction parts with
  | nil => exact List.Pairwise.nil
  | cons part parts ih =>
    cases parts with
    | nil => exact List.Pairwise.nil
    | cons next parts =>
      rw [joinedPrefixes, List.pairwise_cons]
      constructor
      · intro longer hlonger
        obtain ⟨joined, hjoined, rfl⟩ := List.mem_map.mp hlonger
        obtain ⟨front, rest, rfl, -⟩ := joinedPrefixes_eq hjoined
        simp only [List.length_append, List.length_cons, List.length_nil]
        omega
      · apply ih.map
        intro a b h
        simpa using h

/-- A unit name whose last dash is at the end, in front of the suffix. -/
def EndsInDash (unitName : Text) : Prop := ∃ front, withoutSuffix unitName = front ++ ['-']

theorem mem_prefixKeys {unitName key : Text} (h : key ∈ prefixKeys unitName) :
    ∃ base suffix front rest, rsplitOnce '.' unitName = some (base, suffix) ∧
      base = front ++ '-' :: rest ∧ key = front ++ '-' :: '.' :: suffix := by
  unfold prefixKeys at h
  split at h
  · rename_i base suffix hsplit
    obtain ⟨joined, hjoined, rfl⟩ := List.mem_map.mp h
    obtain ⟨front, rest, rfl, hbase⟩ := joinedPrefixes_eq hjoined
    rw [List.intercalate_splitOn] at hbase
    exact ⟨base, suffix, front, rest, hsplit, by simpa using hbase, by simp⟩
  · exact absurd h List.not_mem_nil

theorem nodup_prefixKeys (unitName : Text) : (prefixKeys unitName).Nodup := by
  unfold prefixKeys
  split
  · apply List.Nodup.map
    · intro a b h
      exact List.append_cancel_right h
    · apply (pairwise_joinedPrefixes _).imp
      rintro a b h rfl
      exact absurd h (Nat.lt_irrefl _)
  · exact List.Pairwise.nil

/-- The keys but the name of the unit itself. -/
def otherKeys (unitName : Text) : List Text :=
  (rsplitOnce '.' unitName).toList.map Prod.snd ++ prefixKeys unitName

theorem nodup_otherKeys (unitName : Text) : (otherKeys unitName).Nodup := by
  rw [otherKeys, List.nodup_append]
  refine ⟨?_, nodup_prefixKeys unitName, ?_⟩
  · cases rsplitOnce '.' unitName with
    | none => exact List.Pairwise.nil
    | some halves => exact List.pairwise_singleton _ _
  · rintro type htype key hkey rfl
    obtain ⟨halves, hhalves, rfl⟩ := List.mem_map.mp htype
    obtain ⟨base, suffix, front, rest, hsplit, -, hname⟩ := mem_prefixKeys hkey
    have hnot := (rsplitOnce_eq_some_iff.mp (Option.mem_toList.mp hhalves)).1
    rw [hname] at hnot
    simp at hnot

theorem mem_applicableKeys {unitName key : Text} (h : key ∈ applicableKeys unitName) :
    key ∈ otherKeys unitName ∨ key = unitName := by
  rw [applicableKeys, List.mem_append, List.mem_append, List.mem_singleton] at h
  rcases h with (h | h) | h
  · exact Or.inl (List.mem_append_left _ (List.mem_of_mem_filter h))
  · exact Or.inl (List.mem_append_right _ h)
  · exact Or.inr h

/-! ## The walk and the lookups -/

theorem entryItems_eq (entries : Entries) :
    entryItems entries = entries.map fun entry => (entry.1, entry.2.items entry.1) := by
  induction entries with
  | nil => rfl
  | cons entry entries ih => rw [entryItems, ih, List.map_cons]

theorem dropinsAmong_flatMap {α : Type*} (l : List α) (f : α → List Item) (key : Text) :
    dropinsAmong (l.flatMap f) key = l.flatMap fun a => dropinsAmong (f a) key :=
  List.filterMap_flatMap

/-- What the walk comes to below the directories that are not for drop-ins. -/
def nestedDropins (entries : Entries) (key : Text) : List (Text × Text) :=
  (sortByName (entryItems entries)).flatMap fun entry =>
    if (parseDropinDirName entry.1).isSome then [] else dropinsAmong entry.2 key

theorem stripSuffix_eq_some_iff {suffix name rest : Text} :
    stripSuffix suffix name = some rest ↔ name = rest ++ suffix := by
  rw [stripSuffix, textEndsWith]
  constructor
  · intro h
    split at h
    · rename_i hsuffix
      obtain ⟨front, rfl⟩ := List.isSuffixOf_iff_suffix.mp hsuffix
      rw [← Option.some.inj h]
      simp
    · cases h
  · rintro rfl
    rw [if_pos (List.isSuffixOf_iff_suffix.mpr (List.suffix_append rest suffix))]
    simp

/-- The directory of drop-ins is not one of dependencies. -/
theorem isDepDirName_append_d (unitName : Text) :
    isDepDirName (unitName ++ ".d".toList) = false := by
  apply Bool.eq_false_iff.mpr
  intro h
  obtain ⟨suffix, hsuffix, hends⟩ := List.any_eq_true.mp h
  obtain ⟨front, heq⟩ := List.isSuffixOf_iff_suffix.mp hends
  have hlast := congrArg List.getLast? heq
  simp only [List.mem_cons, List.not_mem_nil, or_false] at hsuffix
  rcases hsuffix with rfl | rfl | rfl <;> simp [List.getLast?_append] at hlast

/-- What the walk finds under the name of a directory of drop-ins. -/
theorem dropinsAmong_items_append_d (unitName key : Text) (node : Node) :
    dropinsAmong (node.items (unitName ++ ".d".toList)) key =
      match node with
      | .dir _ dropins => if unitName = key then collectDropinEntries dropins else []
      | _ => [] := by
  cases node with
  | file isLink text =>
    rw [Node.items]
    split
    · cases text <;> rfl
    · rfl
  | brokenLink => rfl
  | dir isLink dropins =>
    have hparse : parseDropinDirName (unitName ++ ".d".toList) = some unitName :=
      stripSuffix_eq_some_iff.mpr rfl
    rw [Node.items, isDepDirName_append_d, if_neg Bool.false_ne_true, hparse]
    dsimp only
    rw [dropinsAmong, List.filterMap_map]
    split
    · rename_i hkey
      simp [hkey]
    · rename_i hkey
      simp [hkey]

/-- What the walk comes to in the directory of the key itself. -/
def dropinsUnder (key : Text) (entry : Text × List Item) : List (Text × Text) :=
  if entry.1 = key ++ ".d".toList then dropinsAmong entry.2 key else []

theorem flatMap_dropinsUnder (entries : Entries) (key : Text) :
    (sortByName (entryItems entries)).flatMap (dropinsUnder key) = dropinsIn entries key := by
  have hother : ∀ item : Text × List Item, item.1 ≠ key ++ ".d".toList →
      dropinsUnder key item = [] := fun item hitem => if_neg hitem
  rw [flatMap_sortByName hother, entryItems_eq, List.flatMap_map, dropinsIn]
  congr 1
  funext ⟨name, node⟩
  unfold dropinsUnder
  by_cases hname : name = key ++ ".d".toList
  · rw [if_pos hname]
    dsimp only
    rw [hname, dropinsAmong_items_append_d]
    cases node with
    | dir isLink dropins => simp
    | file isLink text => rfl
    | brokenLink => rfl
  · rw [if_neg hname]
    cases node with
    | dir isLink dropins => exact (if_neg hname).symm
    | file isLink text => rfl
    | brokenLink => rfl

/-- The walk comes to the drop-ins of a key in its directory and below the others. -/
theorem dropinsAmong_item (entries : Entries) (key : Text) :
    ∀ entry ∈ sortByName (entryItems entries), dropinsAmong entry.2 key = dropinsUnder key entry ++
      if (parseDropinDirName entry.1).isSome then [] else dropinsAmong entry.2 key := by
  intro entry hentry
  have hmem := (sortByName_perm _).mem_iff.mp hentry
  rw [entryItems_eq] at hmem
  obtain ⟨⟨name, node⟩, -, rfl⟩ := List.mem_map.mp hmem
  unfold dropinsUnder
  dsimp only
  cases hparse : parseDropinDirName name with
  | none =>
    have hname : name ≠ key ++ ".d".toList := by
      intro heq
      rw [parseDropinDirName, stripSuffix_eq_some_iff.mpr heq] at hparse
      cases hparse
    rw [if_neg hname]
    rfl
  | some unitName =>
    obtain rfl := stripSuffix_eq_some_iff.mp hparse
    by_cases hkey : unitName = key
    · simp [hkey]
    · have hname : unitName ++ ".d".toList ≠ key ++ ".d".toList :=
        fun heq => hkey (List.append_cancel_right heq)
      rw [if_neg hname, dropinsAmong_items_append_d]
      cases node with
      | dir isLink dropins => simp [hkey]
      | file isLink text => rfl
      | brokenLink => rfl

theorem length_dropinsAmong (entries : Entries) (key : Text) :
    (dropinsAmong (parseAllUnits entries) key).length =
      (dropinsIn entries key).length + (nestedDropins entries key).length := by
  rw [← flatMap_dropinsUnder, nestedDropins, parseAllUnits, dropinsAmong_flatMap]
  simp only [List.length_flatMap]
  rw [← List.sum_map_add]
  congr 1
  apply List.map_congr_left
  intro entry hentry
  rw [← List.length_append, ← dropinsAmong_item entries key entry hentry]

/-- Without drop-ins below, the walk comes to those of the directory itself. -/
theorem dropinsAmong_eq {entries : Entries} {key : Text} (h : nestedDropins entries key = []) :
    dropinsAmong (parseAllUnits entries) key = dropinsIn entries key := by
  rw [← flatMap_dropinsUnder, parseAllUnits, dropinsAmong_flatMap]
  apply List.flatMap_congr
  intro entry hentry
  rw [dropinsAmong_item entries key entry hentry, List.flatMap_eq_nil_iff.mp h entry hentry,
    List.append_nil]

/-! ## Both loaders -/

variable {ctx : SpecifierContext} {unitDirs : List Entries} {unitName key : Text}

/-- The drop-ins in the directories of the key. -/
def topDropins (unitDirs : List Entries) (key : Text) : List (Text × Text) :=
  unitDirs.flatMap fun entries => dropinsIn entries key

/-- There are no drop-ins for the key below the directories. -/
def AtTop (unitDirs : List Entries) (key : Text) : Prop :=
  ∀ entries ∈ unitDirs, nestedDropins entries key = []

theorem length_eq_of_length_flatMap_eq {α β : Type*} {l : List α} {f g : α → List β}
    (h : (l.flatMap f).length = (l.flatMap g).length)
    (hle : ∀ a ∈ l, (f a).length ≤ (g a).length) : ∀ a ∈ l, (f a).length = (g a).length := by
  have hlength : ∀ l : List α, (∀ a ∈ l, (f a).length ≤ (g a).length) →
      (l.flatMap f).length ≤ (l.flatMap g).length := by
    intro l hl
    rw [List.length_flatMap, List.length_flatMap]
    exact List.sum_le_sum hl
  induction l with
  | nil => exact fun a ha => absurd ha List.not_mem_nil
  | cons a l ih =>
    obtain ⟨ha, hl⟩ := List.forall_mem_cons.mp hle
    have htail := hlength l hl
    rw [List.flatMap_cons, List.flatMap_cons, List.length_append, List.length_append] at h
    exact List.forall_mem_cons.mpr ⟨by omega, ih (by omega) hl⟩

theorem bootDropins_eq_topDropins (h : AtTop unitDirs key) :
    bootDropins unitDirs key = topDropins unitDirs key := by
  rw [bootDropins, dropinsAmong_flatMap]
  exact List.flatMap_congr fun entries hentries => dropinsAmong_eq (h entries hentries)

theorem length_topDropins_le (unitDirs : List Entries) (key : Text) :
    (topDropins unitDirs key).length ≤ (bootDropins unitDirs key).length := by
  rw [bootDropins, dropinsAmong_flatMap, topDropins, List.length_flatMap, List.length_flatMap]
  apply List.sum_le_sum
  intro entries _
  rw [length_dropinsAmong]
  exact Nat.le_add_right _ _

theorem atTop_of_length_eq
    (h : (topDropins unitDirs key).length = (bootDropins unitDirs key).length) :
    AtTop unitDirs key := by
  rw [bootDropins, dropinsAmong_flatMap] at h
  intro entries hentries
  have hlength := length_eq_of_length_flatMap_eq h (fun entries _ => by
    rw [length_dropinsAmong]
    exact Nat.le_add_right _ _) entries hentries
  rw [length_dropinsAmong] at hlength
  exact List.length_eq_zero_iff.mp (by omega)

theorem flatMap_of_nodup {α : Type*} {keys : List Text} (h : keys.Nodup) (f : Text → List α)
    (key : Text) : (keys.flatMap fun key' => if key' = key then f key' else []) =
      if key ∈ keys then f key else [] := by
  induction keys with
  | nil => rfl
  | cons first keys ih =>
    obtain ⟨hfirst, hkeys⟩ := List.nodup_cons.mp h
    rw [List.flatMap_cons, ih hkeys]
    by_cases heq : first = key
    · subst heq
      simp [hfirst]
    · simp [heq, Ne.symm heq]

/-- What is collected on demand: the drop-ins of a key, and once more where the unit has the key as
    its name and as one of its prefixes. -/
theorem collectDropinsForUnit_eq_flatMap (unitDirs : List Entries) (unitName key : Text) :
    collectDropinsForUnit unitDirs unitName key = unitDirs.flatMap fun entries =>
      (if key ∈ otherKeys unitName then dropinsIn entries key else []) ++
        if unitName = key then dropinsIn entries key else [] := by
  unfold collectDropinsForUnit
  congr 1
  funext entries
  have hkeys : dropinDirKeys unitName = otherKeys unitName ++ [unitName] := rfl
  rw [hkeys, List.flatMap_append, flatMap_of_nodup (nodup_otherKeys unitName),
    List.flatMap_singleton]
  congr 1
  split
  · rename_i heq
    rw [heq]
  · rfl

theorem mem_prefixKeys_of_mem_otherKeys (h : unitName ∈ otherKeys unitName) :
    unitName ∈ prefixKeys unitName := by
  apply (List.mem_append.mp h).resolve_left
  intro h
  obtain ⟨⟨base, suffix⟩, hsplit, rfl⟩ := List.mem_map.mp h
  obtain ⟨hnot, heq⟩ := rsplitOnce_eq_some_iff.mp (Option.mem_toList.mp hsplit)
  have hdot : '.' ∈ base ++ '.' :: suffix := List.mem_append_right _ List.mem_cons_self
  rw [← heq] at hdot
  exact hnot hdot

theorem collectDropinsForUnit_eq_topDropins
    (honce : unitName ∈ prefixKeys unitName → topDropins unitDirs unitName = [])
    (hkey : key ∈ applicableKeys unitName) :
    collectDropinsForUnit unitDirs unitName key = topDropins unitDirs key := by
  rw [collectDropinsForUnit_eq_flatMap]
  by_cases hother : key ∈ otherKeys unitName
  · rw [topDropins]
    apply List.flatMap_congr
    intro entries hentries
    rw [if_pos hother]
    split
    · rename_i heq
      subst heq
      have hnone := honce (mem_prefixKeys_of_mem_otherKeys hother)
      rw [List.flatMap_eq_nil_iff.mp hnone entries hentries]
      rfl
    · rw [List.append_nil]
  · obtain rfl := (mem_applicableKeys hkey).resolve_left hother
    simp [hother, topDropins]

theorem length_topDropins_le_collect (hkey : key ∈ applicableKeys unitName) :
    (topDropins unitDirs key).length ≤ (collectDropinsForUnit unitDirs unitName key).length := by
  rw [collectDropinsForUnit_eq_flatMap, topDropins, List.length_flatMap, List.length_flatMap]
  apply List.sum_le_sum
  intro entries _
  rw [List.length_append]
  rcases mem_applicableKeys hkey with h | rfl
  · rw [if_pos h]
    exact Nat.le_add_right _ _
  · rw [if_pos rfl]
    exact Nat.le_add_left _ _

/-- A unit that is one of its own prefixes gets its drop-ins twice. -/
theorem length_collect_self (h : unitName ∈ prefixKeys unitName) :
    (collectDropinsForUnit unitDirs unitName unitName).length =
      2 * (topDropins unitDirs unitName).length := by
  rw [collectDropinsForUnit_eq_flatMap, topDropins, List.length_flatMap, List.length_flatMap,
    ← List.sum_map_mul_left]
  congr 1
  have hother : unitName ∈ otherKeys unitName := List.mem_append_right _ h
  apply List.map_congr_left
  intro entries _
  rw [if_pos hother, if_pos rfl, List.length_append]
  omega

/-- The keys in front of the name of the unit. -/
def generalKeys (unitName : Text) : List Text :=
  ((rsplitOnce '.' unitName).toList.map Prod.snd).filter (· ≠ []) ++ prefixKeys unitName

section

variable (ctx : SpecifierContext) (unitDirs : List Entries) (unitName : Text)

/-- A unit with a file of its own, which is read at boot. -/
def HasFragment : Prop := ∃ text, Item.fragment unitName text ∈ unitDirs.flatMap parseAllUnits

/-- Both loaders apply the same drop-ins to a unit with a file. -/
def SamePlain : Prop := HasFragment unitDirs unitName →
  applyDropinsOverrides ctx unitDirs unitName = onDemandOverrides ctx unitDirs unitName

/-- Both loaders apply the same drop-ins to an instance, where the boot makes it of a template. -/
def SameInstance : Prop := ∀ template inst, parseTemplateInstance unitName = some (template, inst) →
  (findUnitFileInDirs unitDirs template).join.isSome → isInstantiated unitName →
  instantiateOverrides ctx unitDirs template inst unitName =
    onDemandOverrides ctx unitDirs unitName

/-- The drop-ins of a unit are all in the unit directories themselves, and are not found twice; or
    there are none, where `apply_dropins` leaves the unit alone. -/
def PlainAgrees : Prop :=
  if isReparsed unitName ∧ (baseContent unitDirs unitName).isSome then
    (∀ key ∈ applicableKeys unitName, AtTop unitDirs key) ∧
      (unitName ∈ prefixKeys unitName → topDropins unitDirs unitName = [])
  else ∀ key ∈ applicableKeys unitName, topDropins unitDirs key = []

/-- What the template has of drop-ins is what there is for the type and the prefixes of the
    instance. -/
def TemplateAgrees (template inst : Text) : Prop :=
  (topDropins unitDirs template).map (resolved ctx unitName inst) =
    (generalKeys unitName).flatMap fun key =>
      (topDropins unitDirs key).map (resolved ctx unitName inst)

/-- The drop-ins of an instance are all in the unit directories, are not found twice, and the
    template agrees. -/
def InstanceAgrees : Prop := ∀ template inst,
  parseTemplateInstance unitName = some (template, inst) →
  (findUnitFileInDirs unitDirs template).join.isSome → isInstantiated unitName →
  AtTop unitDirs template ∧ AtTop unitDirs unitName ∧
    (unitName ∈ prefixKeys unitName → topDropins unitDirs unitName = []) ∧
    TemplateAgrees ctx unitDirs unitName template inst

end

theorem length_collectApplicableDropins (dropins : Text → List (Text × Text)) :
    (collectApplicableDropins ctx unitName dropins).length =
      ((applicableKeys unitName).flatMap dropins).length := by
  rw [collectApplicableDropins, List.length_flatMap, List.length_flatMap]
  simp only [List.length_map]

theorem collectApplicableDropins_congr {dropins dropins' : Text → List (Text × Text)}
    (h : ∀ key ∈ applicableKeys unitName, dropins key = dropins' key) :
    collectApplicableDropins ctx unitName dropins =
      collectApplicableDropins ctx unitName dropins' := by
  unfold collectApplicableDropins
  apply List.flatMap_congr
  intro key hkey
  rw [h key hkey]

theorem self_mem_applicableKeys (unitName : Text) : unitName ∈ applicableKeys unitName :=
  List.mem_append_right _ (List.mem_singleton_self unitName)

theorem overrides_eq_of_plainAgrees (h : PlainAgrees unitDirs unitName) :
    applyDropinsOverrides ctx unitDirs unitName = onDemandOverrides ctx unitDirs unitName := by
  unfold PlainAgrees at h
  unfold applyDropinsOverrides onDemandOverrides
  split at h
  · rename_i hreparsed
    rw [if_pos hreparsed]
    apply collectApplicableDropins_congr
    intro key hkey
    rw [bootDropins_eq_topDropins (h.1 key hkey), collectDropinsForUnit_eq_topDropins h.2 hkey]
  · rename_i hreparsed
    rw [if_neg hreparsed]
    apply Eq.symm
    apply List.eq_nil_of_length_eq_zero
    rw [length_collectApplicableDropins, List.length_eq_zero_iff, List.flatMap_eq_nil_iff]
    intro key hkey
    rw [collectDropinsForUnit_eq_topDropins (fun _ => h unitName (self_mem_applicableKeys unitName))
      hkey]
    exact h key hkey

/-- Where the drop-ins are in the unit directories, or the unit is none of its prefixes, the loaders
    agree only so. -/
theorem plainAgrees_of_overrides_eq
    (h : applyDropinsOverrides ctx unitDirs unitName = onDemandOverrides ctx unitDirs unitName)
    (htop : unitName ∉ prefixKeys unitName ∨ ∀ key ∈ applicableKeys unitName, AtTop unitDirs key) :
    PlainAgrees unitDirs unitName := by
  have hlength := congrArg List.length h
  unfold applyDropinsOverrides onDemandOverrides at hlength
  rw [length_collectApplicableDropins] at hlength
  unfold PlainAgrees
  by_cases hreparsed : isReparsed unitName ∧ (baseContent unitDirs unitName).isSome
  · rw [if_pos hreparsed, length_collectApplicableDropins] at hlength
    rw [if_pos hreparsed]
    rcases htop with hprefix | htop
    · refine ⟨fun key hkey => ?_, fun hmem => absurd hmem hprefix⟩
      have hcollect : ∀ key ∈ applicableKeys unitName,
          collectDropinsForUnit unitDirs unitName key = topDropins unitDirs key :=
        fun key hkey => collectDropinsForUnit_eq_topDropins (fun hmem => absurd hmem hprefix) hkey
      rw [List.flatMap_congr hcollect] at hlength
      exact atTop_of_length_eq (length_eq_of_length_flatMap_eq hlength.symm
        (fun key _ => length_topDropins_le unitDirs key) key hkey)
    · refine ⟨htop, fun hmem => ?_⟩
      rw [List.flatMap_congr fun key hkey => bootDropins_eq_topDropins (htop key hkey)] at hlength
      have hself := length_eq_of_length_flatMap_eq hlength
        (fun key hkey => length_topDropins_le_collect hkey) unitName
        (self_mem_applicableKeys unitName)
      rw [length_collect_self hmem] at hself
      exact List.length_eq_zero_iff.mp (by omega)
  · rw [if_neg hreparsed] at hlength
    rw [if_neg hreparsed]
    intro key hkey
    have hnil := List.flatMap_eq_nil_iff.mp (List.length_eq_zero_iff.mp hlength.symm) key hkey
    have hle : (topDropins unitDirs key).length ≤
        (collectDropinsForUnit unitDirs unitName key).length := length_topDropins_le_collect hkey
    rw [hnil] at hle
    exact List.length_eq_zero_iff.mp (Nat.le_zero.mp hle)

theorem instantiateOverrides_eq_iff {template inst : Text}
    (hparse : parseTemplateInstance unitName = some (template, inst))
    (htemplate : AtTop unitDirs template) (hself : AtTop unitDirs unitName)
    (honce : unitName ∈ prefixKeys unitName → topDropins unitDirs unitName = []) :
    instantiateOverrides ctx unitDirs template inst unitName =
      onDemandOverrides ctx unitDirs unitName ↔
        TemplateAgrees ctx unitDirs unitName template inst := by
  have hcollect : onDemandOverrides ctx unitDirs unitName =
      collectApplicableDropins ctx unitName (topDropins unitDirs) :=
    collectApplicableDropins_congr fun key hkey => collectDropinsForUnit_eq_topDropins honce hkey
  have hkeys : applicableKeys unitName = generalKeys unitName ++ [unitName] := rfl
  rw [hcollect, collectApplicableDropins, instanceOf_eq hparse, hkeys, List.flatMap_append,
    List.flatMap_singleton, instantiateOverrides, bootDropins_eq_topDropins htemplate,
    bootDropins_eq_topDropins hself, List.map_append, List.append_cancel_right_eq]
  rfl

/-- The loaders apply the same drop-ins where they are in the unit directories themselves, the boot
    parses the unit again and a template agrees with its instances; and, but for copies of drop-ins
    below the directories, only there. -/
theorem sameDropins (ctx : SpecifierContext) (unitDirs : List Entries) (unitName : Text) :
    ((HasFragment unitDirs unitName → PlainAgrees unitDirs unitName) ∧
        InstanceAgrees ctx unitDirs unitName →
      SamePlain ctx unitDirs unitName ∧ SameInstance ctx unitDirs unitName) ∧
    (unitName ∉ prefixKeys unitName ∨ (∀ key ∈ applicableKeys unitName, AtTop unitDirs key) →
      (SamePlain ctx unitDirs unitName ↔
        (HasFragment unitDirs unitName → PlainAgrees unitDirs unitName))) ∧
    ∀ template inst, parseTemplateInstance unitName = some (template, inst) →
      AtTop unitDirs template → AtTop unitDirs unitName →
      (unitName ∈ prefixKeys unitName → topDropins unitDirs unitName = []) →
      (instantiateOverrides ctx unitDirs template inst unitName =
        onDemandOverrides ctx unitDirs unitName ↔
          TemplateAgrees ctx unitDirs unitName template inst) := by
  refine ⟨?_, ?_, ?_⟩
  · rintro ⟨hplain, hinstance⟩
    refine ⟨fun hfragment => overrides_eq_of_plainAgrees (hplain hfragment), ?_⟩
    intro template inst hparse hfind hinstantiated
    obtain ⟨htemplate, hself, honce, hagrees⟩ := hinstance template inst hparse hfind hinstantiated
    exact (instantiateOverrides_eq_iff hparse htemplate hself honce).mpr hagrees
  · intro htop
    constructor
    · intro h hfragment
      exact plainAgrees_of_overrides_eq (h hfragment) htop
    · intro h hfragment
      exact overrides_eq_of_plainAgrees (h hfragment)
  · intro template inst hparse htemplate hself honce
    exact instantiateOverrides_eq_iff hparse htemplate hself honce

/-- A template with a drop-in. -/
def templateDirs : List Entries :=
  [[("g@.service".toList, .file false (some "[Service]".toList)),
    ("g@.service.d".toList,
      .dir false [("a.conf".toList, .file false (some "[Unit]".toList))])]]

theorem template_dropins_differ :
    ¬ SameInstance emptyContext templateDirs "g@x.service".toList := by
  intro h
  have heq := h "g@.service".toList "x".toList (by decide) (by decide) (by decide)
  revert heq
  decide

end OxidizedSystemd.Loading
