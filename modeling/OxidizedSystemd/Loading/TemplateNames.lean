import OxidizedSystemd.Loading.Specifier

/-!
# Readers of template names

The instance and the template of a unit name as five places read them: `parse_template_instance`
and `instance_of` (in `Specifier`), `fallbackName` of `find_new_unit_path` (in `UnitDirs`),
`extract_instance` (`specifier.rs`, lines 500–511) and `load_new_unit`
(`units/unitset_manipulation/insert_new.rs`, lines 315–323). Some of them end the instance at the
first dot behind the `@`, and the others at the last one.

* `namesAgree_iff`: the names that all of them read alike.
-/

namespace OxidizedSystemd.Loading

open Lib

/-- `extract_instance`. -/
def extractInstance (unitName : Text) : Text :=
  match splitOnce ['@'] (withoutSuffix unitName) with
  | some (_, inst) => inst
  | none => []

/-- The instance that `load_new_unit` expands (lines 317–323). -/
def loadedInstance (findName : Text) : Text :=
  match splitOnce ['@'] findName with
  | some (_, rest) => ((splitOnce ['.'] rest).map Prod.fst).getD []
  | none => []

/-- The instance of `parse_template_instance`, empty for a name that is no instance. -/
def parsedInstance (unitName : Text) : Text :=
  ((parseTemplateInstance unitName).map Prod.snd).getD []

/-- The readers give one template and one instance. -/
structure NamesAgree (unitName : Text) : Prop where
  template : fallbackName unitName = (parseTemplateInstance unitName).map Prod.fst
  instanceOf : instanceOf unitName = parsedInstance unitName
  extracted : extractInstance unitName = parsedInstance unitName
  loaded : loadedInstance unitName = parsedInstance unitName

variable {unitName before rest inst suffix : Text}

/-! ## Names without an `@` -/

theorem withoutSuffix_isPrefix (unitName : Text) : withoutSuffix unitName <+: unitName := by
  unfold withoutSuffix
  cases h : rsplitOnce '.' unitName with
  | none => exact List.prefix_rfl
  | some halves => exact ⟨'.' :: halves.2, (rsplitOnce_eq_some_iff.mp h).2.symm⟩

theorem extractInstance_of_not_mem (h : '@' ∉ withoutSuffix unitName) :
    extractInstance unitName = [] := by
  rw [extractInstance, splitOnce_singleton_eq_none_iff.mpr h]

theorem namesAgree_of_not_mem (h : '@' ∉ unitName) : NamesAgree unitName := by
  have hsplit : splitOnce ['@'] unitName = none := splitOnce_singleton_eq_none_iff.mpr h
  have hextract : extractInstance unitName = [] :=
    extractInstance_of_not_mem fun hmem => h ((withoutSuffix_isPrefix unitName).subset hmem)
  constructor
  · simp [fallbackName, parseTemplateInstance, hsplit]
  · simp [instanceOf, parsedInstance, parseTemplateInstance, hsplit]
  · simp [hextract, parsedInstance, parseTemplateInstance, hsplit]
  · simp [loadedInstance, parsedInstance, parseTemplateInstance, hsplit]

/-! ## Names with one -/

theorem splitOnce_at (h : '@' ∉ before) (rest : Text) :
    splitOnce ['@'] (before ++ '@' :: rest) = some (before, rest) :=
  splitOnce_singleton_eq_some_iff.mpr ⟨h, rfl⟩

theorem withoutSuffix_append (h : '.' ∉ suffix) (front : Text) :
    withoutSuffix (front ++ '.' :: suffix) = front := by
  rw [withoutSuffix, rsplitOnce_eq_some_iff.mpr ⟨h, rfl⟩]
  rfl

/-- Without a dot behind the `@` there is no instance, except for `instance_of`. -/
theorem namesAgree_noDot_iff (hat : '@' ∉ before) (hdot : '.' ∉ rest) :
    NamesAgree (before ++ '@' :: rest) ↔ rest = [] := by
  have hsplit := splitOnce_at hat rest
  have hparse : parseTemplateInstance (before ++ '@' :: rest) = none := by
    rw [parseTemplateInstance, hsplit]
    dsimp only
    rw [rsplitOnce_eq_none_iff.mpr hdot]
  have hinstance : instanceOf (before ++ '@' :: rest) = rest := by
    rw [instanceOf, hsplit]
    dsimp only
    rw [withoutSuffix, rsplitOnce_eq_none_iff.mpr hdot]
    rfl
  constructor
  · intro h
    have hagree := h.instanceOf
    rwa [hinstance, parsedInstance, hparse] at hagree
  · rintro rfl
    constructor
    · simp [fallbackName, hsplit, hparse]
    · rw [hinstance, parsedInstance, hparse]
      rfl
    · rw [parsedInstance, hparse]
      show extractInstance (before ++ ['@']) = []
      by_cases hmem : '.' ∈ before
      · -- the last dot is in front of the `@`
        obtain ⟨front, back, hlast⟩ : ∃ front back, rsplitOnce '.' before = some (front, back) := by
          cases h : rsplitOnce '.' before with
          | none => exact absurd hmem (rsplitOnce_eq_none_iff.mp h)
          | some halves => exact ⟨halves.1, halves.2, rfl⟩
        obtain ⟨hback, rfl⟩ := rsplitOnce_eq_some_iff.mp hlast
        apply extractInstance_of_not_mem
        rw [List.append_assoc, List.cons_append, withoutSuffix_append (by simpa using hback)]
        exact fun hfront => hat (List.mem_append_left _ hfront)
      · have hnone : '.' ∉ before ++ ['@'] := by simpa using hmem
        rw [extractInstance, withoutSuffix, rsplitOnce_eq_none_iff.mpr hnone]
        simp [splitOnce_at hat]
    · rw [parsedInstance, hparse, loadedInstance, hsplit]
      rfl

/-- With a dot behind the `@`, the first one has to be the last one. -/
theorem namesAgree_dot_iff (hat : '@' ∉ before) (hdot : '.' ∉ suffix) :
    NamesAgree (before ++ '@' :: (inst ++ '.' :: suffix)) ↔ '.' ∉ inst := by
  have hsplit := splitOnce_at hat (inst ++ '.' :: suffix)
  have hlast : rsplitOnce '.' (inst ++ '.' :: suffix) = some (inst, suffix) :=
    rsplitOnce_eq_some_iff.mpr ⟨hdot, rfl⟩
  have hparsed : parsedInstance (before ++ '@' :: (inst ++ '.' :: suffix)) = inst := by
    rw [parsedInstance, parseTemplateInstance, hsplit]
    dsimp only
    rw [hlast]
    dsimp only
    split_ifs with hnil
    · exact hnil.symm
    · rfl
  constructor
  · intro h hmem
    obtain ⟨first, back, rfl, hfirst⟩ := List.eq_append_cons_of_mem hmem
    have hloaded := h.loaded
    rw [hparsed, loadedInstance, hsplit] at hloaded
    dsimp only at hloaded
    rw [List.append_assoc, List.cons_append,
      splitOnce_singleton_eq_some_iff.mpr ⟨hfirst, rfl⟩] at hloaded
    have hlen := congrArg List.length hloaded
    simp at hlen
  · intro hinst
    have hfirst : splitOnce ['.'] (inst ++ '.' :: suffix) = some (inst, suffix) :=
      splitOnce_singleton_eq_some_iff.mpr ⟨hinst, rfl⟩
    have hdrop : (inst ++ '.' :: suffix).dropWhile (· ≠ '.') = '.' :: suffix := by
      rw [List.dropWhile_append_of_pos fun c hc => by
        simpa using fun heq : c = '.' => hinst (heq ▸ hc)]
      simp
    constructor
    · rw [fallbackName, parseTemplateInstance, hsplit]
      dsimp only
      rw [hdrop, hlast]
      cases inst with
      | nil => simp
      | cons c cs =>
        have hne : '.' ≠ c := fun heq => hinst (heq ▸ List.mem_cons_self)
        simp [hne]
    · rw [hparsed, instanceOf, hsplit]
      exact withoutSuffix_append hdot inst
    · have hassoc : before ++ '@' :: (inst ++ '.' :: suffix) =
          (before ++ '@' :: inst) ++ '.' :: suffix := by simp
      rw [hparsed, extractInstance, hassoc, withoutSuffix_append hdot, splitOnce_at hat]
    · rw [hparsed, loadedInstance, hsplit]
      dsimp only
      rw [hfirst]
      rfl

/-- The readers agree on the names with nothing or with exactly one dot behind the first `@`. -/
theorem namesAgree_iff (unitName : Text) : NamesAgree unitName ↔
    ∀ before rest, splitOnce ['@'] unitName = some (before, rest) →
      rest = [] ∨ rest.count '.' = 1 := by
  cases hsplit : splitOnce ['@'] unitName with
  | none =>
    have hnot := splitOnce_singleton_eq_none_iff.mp hsplit
    exact iff_of_true (namesAgree_of_not_mem hnot) (by simp)
  | some halves =>
    obtain ⟨before, rest⟩ := halves
    obtain ⟨hat, rfl⟩ := splitOnce_singleton_eq_some_iff.mp hsplit
    have hone : (∀ before' rest', some (before, rest) = some (before', rest') →
        rest' = [] ∨ rest'.count '.' = 1) ↔ rest = [] ∨ rest.count '.' = 1 := by
      constructor
      · exact fun h => h before rest rfl
      · rintro h before' rest' heq
        rwa [← (Prod.mk.inj (Option.some.inj heq)).2]
    rw [hone]
    cases hlast : rsplitOnce '.' rest with
    | none =>
      have hdot := rsplitOnce_eq_none_iff.mp hlast
      have hcount : rest.count '.' ≠ 1 := by rw [List.count_eq_zero.mpr hdot]; decide
      rw [namesAgree_noDot_iff hat hdot, or_iff_left hcount]
    | some parts =>
      obtain ⟨inst, suffix⟩ := parts
      obtain ⟨hdot, rfl⟩ := rsplitOnce_eq_some_iff.mp hlast
      have hnil : inst ++ '.' :: suffix ≠ [] := by simp
      rw [namesAgree_dot_iff hat hdot, or_iff_right hnil, List.count_append, List.count_cons_self,
        List.count_eq_zero.mpr hdot, ← List.count_eq_zero]
      omega

/-- An instance with a dot: loaded on demand, it is another instance of another template. -/
theorem dotted_instance_cut : ¬ NamesAgree "mnt@foo.bar.mount".toList := by
  intro h
  have hloaded := h.loaded
  revert hloaded
  decide

end OxidizedSystemd.Loading
