import OxidizedSystemd.Loading.UnitDirs

/-!
# The order of the unit directories

A unit directory comes before those behind it in the search path. The lookups take the first file of
a name; at boot the last one that loads stays in the table, and drop-ins are put one behind the
other.

* `get?_bootFragments`, `findUnitFileInDirs_eq`, `findNewUnitPath_eq`: the loaders over the files of
  a name in their order.
* `oneOrder_iff`: when they agree.
-/

namespace OxidizedSystemd.Loading

open Lib

/-! ## The files of a name -/

/-- The texts of the files of a name at the top of the directories. -/
def topTexts (unitDirs : List Entries) (unitName : Text) : List (Option Text) :=
  unitDirs.flatMap fun entries => entries.filterMap fun
    | (name, .file _ text) => if name = unitName then some text else none
    | _ => none

mutual

/-- The files that the search for a name may end at, under a name. -/
def Node.searched (name findName : Text) : Node → List (Option Text)
  | .file _ text => if name = findName then [text] else []
  | .dir true _ => if name = findName then [none] else []
  | .dir false entries => searchedEntries findName entries ++
      (fallbackName findName).toList.flatMap fun templateName =>
        searchedEntries templateName entries
  | .brokenLink => if name = findName then [none] else []

/-- These files in a directory, in the order of the search. -/
def searchedEntries (findName : Text) : Entries → List (Option Text)
  | [] => []
  | (name, node) :: entries => node.searched name findName ++ searchedEntries findName entries

end

/-- The files that the search for a name may end at, in its order. -/
def searchedTexts (unitDirs : List Entries) (findName : Text) : List (Option Text) :=
  unitDirs.flatMap (searchedEntries findName) ++
    (fallbackName findName).toList.flatMap fun templateName =>
      unitDirs.flatMap (searchedEntries templateName)

theorem findUnitFileInDirs_eq (unitDirs : List Entries) (unitName : Text) :
    findUnitFileInDirs unitDirs unitName = (topTexts unitDirs unitName).head? := by
  rw [topTexts, List.head?_flatMap]
  simp only [List.head?_filterMap]
  rfl

theorem head?_toList_flatMap {α β : Type*} (o : Option α) (f : α → List β) :
    (o.toList.flatMap f).head? = o.bind fun a => (f a).head? := by
  cases o with
  | none => rfl
  | some a => simp

mutual

theorem Node.find_eq (name findName : Text) (node : Node) :
    node.find name findName = (node.searched name findName).head? := by
  match node with
  | .file _ text =>
    rw [Node.find, Node.searched]
    split <;> rfl
  | .dir true _ =>
    rw [Node.find, Node.searched]
    split <;> rfl
  | .dir false entries =>
    rw [Node.find, Node.searched, List.head?_append, head?_toList_flatMap,
      findEntries_eq findName entries]
    congr 2
    funext templateName
    exact findEntries_eq templateName entries
  | .brokenLink =>
    rw [Node.find, Node.searched]
    split <;> rfl

theorem findEntries_eq (findName : Text) (entries : Entries) :
    findEntries findName entries = (searchedEntries findName entries).head? := by
  match entries with
  | [] => rfl
  | (name, node) :: entries =>
    rw [findEntries, searchedEntries, List.head?_append, Node.find_eq name findName node,
      findEntries_eq findName entries]

end

theorem findNewUnitPath_eq (unitDirs : List Entries) (findName : Text) :
    findNewUnitPath unitDirs findName = (searchedTexts unitDirs findName).head? := by
  have hdirs : ∀ name, (unitDirs.flatMap (searchedEntries name)).head? =
      unitDirs.findSome? (findEntries name) := by
    intro name
    rw [List.head?_flatMap]
    congr 1
    funext entries
    exact (findEntries_eq name entries).symm
  rw [findNewUnitPath, searchedTexts, List.head?_append, head?_toList_flatMap, hdirs]
  congr 2
  funext templateName
  exact (hdirs templateName).symm

section

variable (loads : Text → Text → Bool) (unitDirs : List Entries)

/-- The files at boot, in the order of the walk, of those that load. -/
def loadedTexts : List (Text × Text) := fragmentsAmong loads (unitDirs.flatMap parseAllUnits)

/-- The last file stays. -/
theorem get?_bootFragments (unitName : Text) :
    (bootFragments loads unitDirs).get? unitName =
      lastAt (loadedTexts loads unitDirs) unitName := by
  rw [bootFragments, get?_foldl_insert, SortedMap.get?_empty, Option.or_none]
  rfl

/-! ## Drop-ins -/

/-- The drop-ins that the walk comes to, for each directory. -/
def bootLayers (unitName : Text) : List (List (Text × Text)) :=
  unitDirs.map fun entries => dropinsAmong (parseAllUnits entries) unitName

/-- The drop-ins that are collected on demand, for each directory. -/
def onDemandLayers (unitName key : Text) : List (List (Text × Text)) :=
  unitDirs.map fun entries => (dropinDirKeys unitName).flatMap fun key' =>
    if key' = key then dropinsIn entries key' else []

theorem bootDropins_eq (unitName : Text) :
    bootDropins unitDirs unitName = (bootLayers unitDirs unitName).flatten := by
  rw [bootDropins, dropinsAmong, List.filterMap_flatMap, List.flatMap_def]
  rfl

theorem collectDropinsForUnit_eq (unitName key : Text) :
    collectDropinsForUnit unitDirs unitName key = (onDemandLayers unitDirs unitName key).flatten :=
  List.flatMap_def

/-! ## One order -/

/-- The loaders agree on the fragment of a unit; the drop-ins in a directory mask those of their
    names in the directories behind it, and are taken by their names. -/
structure OneOrder : Prop where
  fragment : ∀ unitName text, (bootFragments loads unitDirs).get? unitName = some text →
    findUnitFileInDirs unitDirs unitName = some (some text) ∧
      findNewUnitPath unitDirs unitName = some (some text)
  boot : ∀ unitName, bootDropins unitDirs unitName =
    sortByName (maskLayers (bootLayers unitDirs unitName))
  onDemand : ∀ unitName key, collectDropinsForUnit unitDirs unitName key =
    sortByName (maskLayers (onDemandLayers unitDirs unitName key))

/-- The last file of a name that loads has the text of the first one at the top, and of the first
    one that a search may end at. -/
def LastIsFirst : Prop := ∀ unitName text,
  lastAt (loadedTexts loads unitDirs) unitName = some text →
  (topTexts unitDirs unitName).head? = some (some text) ∧
    (searchedTexts unitDirs unitName).head? = some (some text)

/-- The names of drop-ins never decrease from one to the next, and no name is in two directories. -/
def InNameOrder (layers : List (List (Text × Text))) : Prop :=
  layers.flatten.Pairwise (fun p q => p.1 ≤ q.1) ∧ DistinctLayers layers

theorem oneOrder_iff : OneOrder loads unitDirs ↔ LastIsFirst loads unitDirs ∧
    (∀ unitName, InNameOrder (bootLayers unitDirs unitName)) ∧
    ∀ unitName key, InNameOrder (onDemandLayers unitDirs unitName key) := by
  have hfragment : LastIsFirst loads unitDirs ↔ ∀ unitName text,
      (bootFragments loads unitDirs).get? unitName = some text →
      findUnitFileInDirs unitDirs unitName = some (some text) ∧
        findNewUnitPath unitDirs unitName = some (some text) := by
    simp only [get?_bootFragments, findUnitFileInDirs_eq, findNewUnitPath_eq]
    rfl
  constructor
  · intro h
    refine ⟨hfragment.mpr h.fragment, fun unitName => ?_, fun unitName key => ?_⟩
    · exact flatten_eq_sortByName_iff.mp ((bootDropins_eq unitDirs unitName).symm.trans
        (h.boot unitName))
    · exact flatten_eq_sortByName_iff.mp
        ((collectDropinsForUnit_eq unitDirs unitName key).symm.trans (h.onDemand unitName key))
  · rintro ⟨hlast, hboot, honDemand⟩
    refine ⟨hfragment.mp hlast, fun unitName => ?_, fun unitName key => ?_⟩
    · rw [bootDropins_eq]
      exact flatten_eq_sortByName_iff.mpr (hboot unitName)
    · rw [collectDropinsForUnit_eq]
      exact flatten_eq_sortByName_iff.mpr (honDemand unitName key)

end

/-- A target with a fragment in two directories. -/
def twoFragments : List Entries :=
  [[("a.target".toList, .file false (some "[Unit]\nDescription=high".toList))],
    [("a.target".toList, .file false (some "[Unit]\nDescription=low".toList))]]

theorem low_fragment_stays : ¬ OneOrder (fun _ _ => true) twoFragments := by
  intro h
  have hfind := (h.fragment "a.target".toList "[Unit]\nDescription=low".toList (by decide)).1
  revert hfind
  decide

end OxidizedSystemd.Loading
