import OxidizedSystemd.Udevd.Rules.ReadOnly

/-!
# Rules of several files

`RuleSet::load` puts the rules of all files into one list, and `find_label` searches this list from
the rule behind the `GOTO` to its end (`udevd/src/lib.rs`, lines 718–768). A `GOTO` whose label is
missing in its file may so find one in a later file.

* `walk_fileNext`: files that are processed one after the other are a walk through the list in
  which labels are looked up in their file only.
* `independent_iff`: the list is processed like the files one after the other exactly if no rule
  that matches goes to a label of a later file, other than one right behind it.
-/

namespace OxidizedSystemd.Udevd.Rules

open Lib

/-! ## One list and one file after the other -/

/-- `RuleSet::load` (lines 724–746): the rules of the files, in their order. -/
def load (files : List (List Rule)) : List Rule :=
  files.foldl (fun all rules => all ++ rules) []

variable (world : ℕ → Outside)

/-- The files processed one after the other, each as a rule set of its own, with the variables
    carried over. -/
def processFiles (files : List (List Rule)) (st : RuleState) : RuleState :=
  files.foldl (fun st rules => processRulesLoop world rules rules.length 0 st) st

/-- The rules that are looked at in files processed one after the other, with the places that they
    have in the list of all rules. -/
def fileVisits : List (List Rule) → RuleState → List (ℕ × RuleState)
  | [], _ => []
  | rules :: files, st =>
    loopVisits world rules rules.length 0 st ++
      (fileVisits files (processRulesLoop world rules rules.length 0 st)).map fun (i, st) =>
        (rules.length + i, st)

/-- The files do not interfere: processing their list looks at the same rules with the same
    variables, and ends with the same variables. -/
structure Independent (files : List (List Rule)) (event : RuleEvent) : Prop where
  visits : visits world (load files) event = fileVisits world files (.start event)
  result : processRules world (load files) event = processFiles world files (.start event)

/-- A rule that matches goes to a label of a later file only if this is the rule right behind. -/
def LabelsApart (files : List (List Rule)) (event : RuleEvent) : Prop :=
  ∀ before file after i st rule target, files = before ++ file :: after → file[i]? = some rule →
    AtRule world (load files) event ((load before).length + i) st →
    (enterRule world rule st).isSome → rule.gotoTarget = some target →
    (∀ r ∈ file.drop (i + 1), r.label ≠ some target) →
    (∀ r ∈ load after, r.label ≠ some target) ∨
      (file.drop (i + 1) = [] ∧ (load after).head?.bind Rule.label = some target)

/-! ## Walks -/

/-- A turn of the loop, with the rule behind a rule that matches given by `next`. -/
def stride (next : ℕ → Rule → ℕ) (i : ℕ) (rule : Rule) (st : RuleState) : ℕ × RuleState :=
  match enterRule world rule st with
  | some st => (next i rule, rule.tokens.foldl (assignStep world) st)
  | none => (i + 1, (matchTokens world rule.tokens false st).2.2)

/-- A walk to the end of the rules: what it looks at, and the variables at its end. -/
inductive Walk (next : ℕ → Rule → ℕ) (rules : List Rule) :
    ℕ → RuleState → List (ℕ × RuleState) → RuleState → Prop
  | done {i : ℕ} {st : RuleState} (h : rules[i]? = none) : Walk next rules i st [] st
  | step {i : ℕ} {st st' : RuleState} {rule : Rule} {passed : List (ℕ × RuleState)}
      (h : rules[i]? = some rule)
      (hrest : Walk next rules (stride world next i rule st).1 (stride world next i rule st).2
        passed st') :
      Walk next rules i st ((i, st) :: passed) st'

section Walks

variable {world : ℕ → Outside} {next next' : ℕ → Rule → ℕ} {rules file rest : List Rule}
  {files : List (List Rule)} {event : RuleEvent} {i : ℕ} {st st' st₁ : RuleState} {rule : Rule}
  {passed passed' : List (ℕ × RuleState)}

theorem load_eq_flatten (files : List (List Rule)) : load files = files.flatten := by
  have hloop : ∀ all, files.foldl (fun all rules => all ++ rules) all = all ++ files.flatten := by
    induction files with
    | nil => exact fun all => (List.append_nil all).symm
    | cons rules files ih =>
      intro all
      rw [List.foldl_cons, ih, List.flatten_cons, List.append_assoc]
  exact hloop []

/-- A walk ends in one way. -/
theorem Walk.unique (h : Walk world next rules i st passed st₁)
    (h' : Walk world next rules i st passed' st') : passed = passed' ∧ st₁ = st' := by
  induction h generalizing passed' with
  | done hnone =>
    cases h' with
    | done => exact ⟨rfl, rfl⟩
    | step hsome => exact absurd (hnone.symm.trans hsome) (Option.some_ne_none _).symm
  | step hsome hrest ih =>
    cases h' with
    | done hnone => exact absurd (hnone.symm.trans hsome) (Option.some_ne_none _).symm
    | step hsome' hrest' =>
      cases hsome.symm.trans hsome'
      obtain ⟨hpassed, hst⟩ := ih hrest'
      exact ⟨by rw [hpassed], hst⟩

theorem walk_processRulesLoop {fuel : ℕ} (hfuel : rules.length ≤ i + fuel) :
    Walk world (nextRule rules) rules i st (loopVisits world rules fuel i st)
      (processRulesLoop world rules fuel i st) := by
  induction fuel generalizing i st with
  | zero => exact .done (List.getElem?_eq_none_iff.mpr hfuel)
  | succ fuel ih =>
    rw [loopVisits, processRulesLoop]
    cases hrule : rules[i]? with
    | none => exact .done hrule
    | some rule =>
      have hlt := lt_turn world rules i rule st
      have hnext : rules.length ≤ (turn world rules i rule st).1 + fuel := by omega
      exact .step hrule (ih hnext)

/-- What agrees with a walk along its way walks the same way. -/
theorem Walk.of_agree (h : Walk world next rules i st passed st')
    (hagree : ∀ p ∈ passed, ∀ rule, rules[p.1]? = some rule → (enterRule world rule p.2).isSome →
      next p.1 rule = next' p.1 rule) : Walk world next' rules i st passed st' := by
  induction h with
  | done hnone => exact .done hnone
  | step hsome hrest ih =>
    rename_i i st st' rule passed
    rw [List.forall_mem_cons] at hagree
    have hstride : stride world next i rule st = stride world next' i rule st := by
      unfold stride
      cases henter : enterRule world rule st with
      | none => rfl
      | some st₁ =>
        rw [hagree.1 rule hsome (by rw [henter]; rfl)]
    refine .step hsome ?_
    rw [← hstride]
    exact ih hagree.2

theorem Walk.start_eq {j : ℕ} {st₂ : RuleState} (h : Walk world next rules i st passed st')
    (h' : Walk world next' rules j st₁ passed st₂) (hi : i ≤ rules.length)
    (hj : j ≤ rules.length) : i = j := by
  cases h with
  | done hnone =>
    cases h' with
    | done hnone' =>
      have hi' := List.getElem?_eq_none_iff.mp hnone
      have hj' := List.getElem?_eq_none_iff.mp hnone'
      omega
  | step =>
    cases h' with
    | step => rfl

/-- Walks that look at the same rules agree along their way. -/
theorem Walk.agree (h : Walk world next rules i st passed st')
    (h' : Walk world next' rules i st passed st₁)
    (hle : ∀ i rule, rules[i]? = some rule → next i rule ≤ rules.length)
    (hle' : ∀ i rule, rules[i]? = some rule → next' i rule ≤ rules.length) :
    ∀ p ∈ passed, ∀ rule, rules[p.1]? = some rule → (enterRule world rule p.2).isSome →
      next p.1 rule = next' p.1 rule := by
  induction h with
  | done hnone => exact fun p hp => absurd hp List.not_mem_nil
  | step hsome hrest ih =>
    rename_i i st st' rule passed
    cases h' with
    | step hsome' hrest' =>
      cases hsome.symm.trans hsome'
      have hnext : (enterRule world rule st).isSome → next i rule = next' i rule := by
        intro henter
        obtain ⟨entered, henter⟩ := Option.isSome_iff_exists.mp henter
        unfold stride at hrest hrest'
        rw [henter] at hrest hrest'
        exact hrest.start_eq hrest' (hle i rule hsome) (hle' i rule hsome)
      have hstride : stride world next i rule st = stride world next' i rule st := by
        unfold stride
        cases henter : enterRule world rule st with
        | none => rfl
        | some entered => rw [hnext (by rw [henter]; rfl)]
      rw [← hstride] at hrest'
      refine List.forall_mem_cons.mpr ⟨fun rule' hrule' => ?_, ih hrest'⟩
      cases hsome.symm.trans hrule'
      exact hnext

/-! ## One walk through all files -/

/-- The rule behind a rule that matches, when labels are looked up in its file only. -/
def fileNext : List (List Rule) → ℕ → Rule → ℕ
  | [], i, _ => i + 1
  | file :: files, i, rule =>
    if i < file.length then nextRule file i rule
    else file.length + fileNext files (i - file.length) rule

theorem fileNext_add (file : List Rule) (files : List (List Rule)) (i : ℕ) (rule : Rule) :
    fileNext (file :: files) (file.length + i) rule = file.length + fileNext files i rule := by
  rw [fileNext, if_neg (Nat.not_lt.mpr (Nat.le_add_right _ _)), Nat.add_sub_cancel_left]

/-- A walk through the rules behind others. -/
theorem Walk.shift (h : Walk world next' rest i st passed st')
    (hnext : ∀ i rule, next (file.length + i) rule = file.length + next' i rule) :
    Walk world next (file ++ rest) (file.length + i) st
      (passed.map fun (i, st) => (file.length + i, st)) st' := by
  have hget : ∀ i, (file ++ rest)[file.length + i]? = rest[i]? := by
    intro i
    rw [List.getElem?_append_right (Nat.le_add_right _ _), Nat.add_sub_cancel_left]
  induction h with
  | done hnone => exact .done ((hget _).trans hnone)
  | step hsome hrest ih =>
    rename_i i st st' rule passed
    have hstride : stride world next (file.length + i) rule st =
        (file.length + (stride world next' i rule st).1, (stride world next' i rule st).2) := by
      unfold stride
      cases enterRule world rule st with
      | none => rfl
      | some entered =>
        dsimp only
        rw [hnext]
    refine .step ((hget i).trans hsome) ?_
    rw [hstride]
    exact ih

/-- A walk through a file, and on through the rules behind it. -/
theorem Walk.append (h : Walk world next' file i st passed st₁) (hi : i ≤ file.length)
    (hle : ∀ i rule, file[i]? = some rule → next' i rule ≤ file.length)
    (hnext : ∀ i rule, file[i]? = some rule → next i rule = next' i rule)
    (hrest : Walk world next (file ++ rest) file.length st₁ passed' st') :
    Walk world next (file ++ rest) i st (passed ++ passed') st' := by
  induction h with
  | done hnone =>
    have hlen := List.getElem?_eq_none_iff.mp hnone
    rw [Nat.le_antisymm hi hlen]
    exact hrest
  | step hsome hwalk ih =>
    rename_i i st st' rule passed
    have hlt := (List.getElem?_eq_some_iff.mp hsome).1
    have hstride : stride world next i rule st = stride world next' i rule st := by
      unfold stride
      rw [hnext i rule hsome]
    have hbound : (stride world next' i rule st).1 ≤ file.length := by
      unfold stride
      cases enterRule world rule st with
      | none => exact hlt
      | some entered => exact hle i rule hsome
    refine .step ((List.getElem?_append_left hlt).trans hsome) ?_
    rw [hstride]
    exact ih hbound hrest

theorem nextRule_le (hrule : rules[i]? = some rule) : nextRule rules i rule ≤ rules.length := by
  have hlt := (List.getElem?_eq_some_iff.mp hrule).1
  unfold nextRule
  cases htarget : rule.gotoTarget.bind fun target => findLabel rules target (i + 1) with
  | none => exact hlt
  | some j =>
    obtain ⟨target, -, hfind⟩ := Option.bind_eq_some_iff.mp htarget
    have hmem := List.mem_of_find?_eq_some hfind
    rw [List.mem_range'_1] at hmem
    rw [Option.getD_some]
    omega

/-- Files that are processed one after the other are one walk. -/
theorem walk_fileNext (world : ℕ → Outside) (files : List (List Rule)) (st : RuleState) :
    Walk world (fileNext files) files.flatten 0 st (fileVisits world files st)
      (processFiles world files st) := by
  induction files generalizing st with
  | nil => exact .done rfl
  | cons file files ih =>
    have hrest := (ih (processRulesLoop world file file.length 0 st)).shift
      (fileNext_add file files)
    refine (walk_processRulesLoop (Nat.le_add_left _ 0)).append (Nat.zero_le _)
      (fun i rule => nextRule_le) ?_ hrest
    intro i rule hrule
    rw [fileNext, if_pos (List.getElem?_eq_some_iff.mp hrule).1]

/-! ## Labels in the list and in their file -/

theorem find?_range_label (rules : List Rule) (label : Text) :
    ((List.range rules.length).find? fun i => (rules[i]?.bind Rule.label) = some label) =
      rules.findIdx? fun rule => rule.label = some label := by
  induction rules with
  | nil => rfl
  | cons rule rules ih =>
    rw [List.length_cons, List.range_succ_eq_map, List.find?_cons, List.findIdx?_cons, ← ih,
      List.find?_map]
    by_cases hlabel : rule.label = some label
    · simp [hlabel]
    · simp [hlabel, Function.comp_def]

theorem findLabel_eq (rules : List Rule) (label : Text) (start : ℕ) :
    findLabel rules label start =
      ((rules.drop start).findIdx? fun rule => rule.label = some label).map (start + ·) := by
  rw [findLabel, List.range'_eq_map_range, List.find?_map, ← List.length_drop,
    ← find?_range_label]
  simp only [Function.comp_def, List.getElem?_drop]

/-- How many rules a `GOTO` passes over. -/
def hop (target : Option Text) (behind : List Rule) : ℕ :=
  (target.bind fun target => behind.findIdx? fun rule => rule.label = some target).getD 0

theorem nextRule_eq_hop (rules : List Rule) (i : ℕ) (rule : Rule) :
    nextRule rules i rule = i + 1 + hop rule.gotoTarget (rules.drop (i + 1)) := by
  unfold nextRule hop
  cases rule.gotoTarget with
  | none => rfl
  | some target =>
    rw [Option.bind_some, Option.bind_some, findLabel_eq]
    cases (rules.drop (i + 1)).findIdx? fun rule => rule.label = some target with
    | none => rfl
    | some j => rfl

/-- A `GOTO` passes over the same number of rules, with others behind them, exactly if these rules
    have its label, or the others have it nowhere or right behind the `GOTO`. -/
theorem hop_append_eq_iff {target : Text} {behind later : List Rule} :
    hop (some target) (behind ++ later) = hop (some target) behind ↔
      ((∀ r ∈ behind, r.label ≠ some target) → (∀ r ∈ later, r.label ≠ some target) ∨
        (behind = [] ∧ later.head?.bind Rule.label = some target)) := by
  have hmissing : ∀ rules : List Rule,
      (rules.findIdx? fun rule => rule.label = some target) = none ↔
        ∀ r ∈ rules, r.label ≠ some target := by
    intro rules
    simp [List.findIdx?_eq_none_iff]
  unfold hop
  rw [Option.bind_some, Option.bind_some, List.findIdx?_append, ← hmissing, ← hmissing]
  cases hbehind : behind.findIdx? fun rule => rule.label = some target with
  | some j => simp
  | none =>
    cases later with
    | nil => simp
    | cons first later =>
      rw [List.findIdx?_cons]
      by_cases hfirst : first.label = some target
      · cases behind with
        | nil => simp [hfirst]
        | cons rule behind => simp [hfirst]
      · cases later.findIdx? fun rule => rule.label = some target with
        | none => simp [hfirst]
        | some j => simp [hfirst]

theorem fileNext_eq_hop {before after : List (List Rule)} (hrule : file[i]? = some rule) :
    fileNext (before ++ file :: after) (before.flatten.length + i) rule =
      before.flatten.length + i + 1 + hop rule.gotoTarget (file.drop (i + 1)) := by
  induction before with
  | nil =>
    have hlt := (List.getElem?_eq_some_iff.mp hrule).1
    rw [List.flatten_nil, List.length_nil, Nat.zero_add, List.nil_append, fileNext, if_pos hlt,
      nextRule_eq_hop]
  | cons first before ih =>
    rw [List.flatten_cons, List.length_append, List.cons_append, Nat.add_assoc, fileNext_add, ih]
    omega

theorem nextRule_flatten {before after : List (List Rule)} (hrule : file[i]? = some rule) :
    nextRule (before ++ file :: after).flatten (before.flatten.length + i) rule =
      before.flatten.length + i + 1 +
        hop rule.gotoTarget (file.drop (i + 1) ++ after.flatten) := by
  have hlt := (List.getElem?_eq_some_iff.mp hrule).1
  have hdrop : before.flatten.length + i + 1 - before.flatten.length = i + 1 := by omega
  rw [nextRule_eq_hop, List.flatten_append, List.flatten_cons, List.drop_append,
    List.drop_eq_nil_of_le (by omega), List.nil_append, hdrop,
    List.drop_append_of_le_length hlt]

/-- The rule behind a `GOTO` is the same in the list and in its file exactly if no later file has
    its label, unless the file has it or it is right behind. -/
theorem nextRule_eq_fileNext_iff {before after : List (List Rule)} (hrule : file[i]? = some rule) :
    nextRule (before ++ file :: after).flatten (before.flatten.length + i) rule =
        fileNext (before ++ file :: after) (before.flatten.length + i) rule ↔
      ∀ target, rule.gotoTarget = some target → (∀ r ∈ file.drop (i + 1), r.label ≠ some target) →
        (∀ r ∈ after.flatten, r.label ≠ some target) ∨
          (file.drop (i + 1) = [] ∧ after.flatten.head?.bind Rule.label = some target) := by
  rw [nextRule_flatten hrule, fileNext_eq_hop hrule, Nat.add_left_cancel_iff]
  cases hgoto : rule.gotoTarget with
  | none => simp [hop]
  | some target =>
    rw [hop_append_eq_iff]
    constructor
    · rintro h _ ⟨⟩
      exact h
    · exact fun h => h target rfl

/-! ## Independence -/

/-- A place in the list of all rules is a place in one of the files. -/
theorem exists_file (h : files.flatten[i]? = some rule) :
    ∃ before file after j, files = before ++ file :: after ∧ file[j]? = some rule ∧
      i = before.flatten.length + j := by
  induction files generalizing i with
  | nil => cases h
  | cons file files ih =>
    rw [List.flatten_cons] at h
    by_cases hlt : i < file.length
    · rw [List.getElem?_append_left hlt] at h
      exact ⟨[], file, files, i, rfl, h, (Nat.zero_add i).symm⟩
    · rw [List.getElem?_append_right (Nat.le_of_not_lt hlt)] at h
      obtain ⟨before, file', after, j, rfl, hj, hi⟩ := ih h
      refine ⟨file :: before, file', after, j, rfl, hj, ?_⟩
      rw [List.flatten_cons, List.length_append]
      omega

theorem fileNext_le (h : files.flatten[i]? = some rule) :
    fileNext files i rule ≤ files.flatten.length := by
  induction files generalizing i with
  | nil => cases h
  | cons file files ih =>
    rw [List.flatten_cons] at h
    rw [fileNext, List.flatten_cons, List.length_append]
    split
    · rename_i hlt
      rw [List.getElem?_append_left hlt] at h
      exact Nat.le_add_right_of_le (nextRule_le h)
    · rename_i hlt
      rw [List.getElem?_append_right (Nat.le_of_not_lt hlt)] at h
      exact Nat.add_le_add_left (ih h) _

/-- The list of all rules is processed like the files one after the other exactly if no rule that
    matches goes to a label of a later file, unless this is the rule right behind. -/
theorem independent_iff (world : ℕ → Outside) (files : List (List Rule)) (event : RuleEvent) :
    Independent world files event ↔ LabelsApart world files event := by
  have hlist : Walk world (nextRule files.flatten) files.flatten 0 (.start event)
      (visits world files.flatten event) (processRules world files.flatten event) :=
    walk_processRulesLoop (Nat.le_add_left _ 0)
  have hfiles := walk_fileNext world files (.start event)
  constructor
  · rintro ⟨hvisits, -⟩ before file after i st rule target rfl hrule hat henter hgoto
    rw [load_eq_flatten] at hvisits ⊢
    rw [load_eq_flatten, load_eq_flatten] at hat
    rw [← hvisits] at hfiles
    have hflat : (before ++ file :: after).flatten[before.flatten.length + i]? = some rule := by
      rw [List.flatten_append, List.flatten_cons, List.getElem?_append_right (Nat.le_add_right _ _),
        Nat.add_sub_cancel_left,
        List.getElem?_append_left (List.getElem?_eq_some_iff.mp hrule).1, hrule]
    have hmem := mem_visits_iff.mpr ⟨hat, (List.getElem?_eq_some_iff.mp hflat).1⟩
    have hagree := hlist.agree hfiles (fun i rule => nextRule_le) (fun i rule => fileNext_le)
      _ hmem rule hflat henter
    exact (nextRule_eq_fileNext_iff hrule).mp hagree target hgoto
  · intro hapart
    have hagree : ∀ p ∈ visits world files.flatten event, ∀ rule, files.flatten[p.1]? = some rule →
        (enterRule world rule p.2).isSome →
          nextRule files.flatten p.1 rule = fileNext files p.1 rule := by
      rintro ⟨i, st⟩ hmem rule hrule henter
      obtain ⟨before, file, after, j, rfl, hj, rfl⟩ := exists_file hrule
      refine (nextRule_eq_fileNext_iff hj).mpr fun target hgoto => ?_
      have hat := (mem_visits_iff.mp hmem).1
      have h := hapart before file after j st rule target rfl hj
      rw [load_eq_flatten, load_eq_flatten, load_eq_flatten] at h
      exact h hat henter hgoto
    obtain ⟨hvisits, hresult⟩ := (hlist.of_agree hagree).unique hfiles
    constructor
    · rw [load_eq_flatten, hvisits]
    · rw [load_eq_flatten, hresult]

end Walks

/-! ## A label of the next file -/

/-- `GOTO="end"`, in a file without this label. -/
def strayGoto : Rule where
  tokens := [⟨"GOTO".toList, none, .assign, "end".toList⟩]
  label := none
  gotoTarget := some "end".toList

/-- `SYMLINK+="disk"` and `LABEL="end"`. -/
def labelledFile : List Rule :=
  [⟨[⟨"SYMLINK".toList, none, .assignAdd, "disk".toList⟩], none, none⟩,
    ⟨[⟨"LABEL".toList, none, .assign, "end".toList⟩], some "end".toList, none⟩]

/-- A file without the label of its `GOTO` takes a rule from the next file. -/
theorem goto_skips_next_file : ¬ ∀ world files event,
    (processRules world (load files) event).result =
      (processFiles world files (.start event)).result := by
  intro h
  have hsame := congrArg RuleResult.symlinks
    (h (fun _ => emptyMachine) [[strayGoto], labelledFile] addEvent)
  have hlist : (processRules (fun _ => emptyMachine) (load [[strayGoto], labelledFile])
      addEvent).result.symlinks = [] := by decide
  have hfiles : (processFiles (fun _ => emptyMachine) [[strayGoto], labelledFile]
      (.start addEvent)).result.symlinks = ["disk".toList] := by decide
  rw [hlist, hfiles] at hsame
  cases hsame

end OxidizedSystemd.Udevd.Rules
