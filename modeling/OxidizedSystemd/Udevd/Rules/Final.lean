import OxidizedSystemd.Udevd.DbRoundTrip
import OxidizedSystemd.Udevd.Rules.ReadOnly

/-!
# Final assignments

`:=` makes the key of a token final: its key and its attribute, written one behind the other
(`udevd/src/lib.rs`, lines 1539–1541 and 1858–1862). A field of the result that is assigned under
several of these keys, as the programs are under `RUN` and `RUN{program}`, is final under one of
them only.

* `finalKey_mem_of_after`: what a `:=` has made final stays final to the end of the run.
* `finalAssignments_iff`: a final field stays as it is exactly if no later assignment under another
  key writes to it.
-/

namespace OxidizedSystemd.Udevd.Rules

open Lib

/-! ## Executions -/

variable (world : ℕ → Outside)

/-- The tokens of a rule that are executed, each with the variables before it. -/
def ruleExecutions : List RuleToken → RuleState → List (RuleState × RuleToken)
  | [], _ => []
  | token :: tokens, st =>
    if executes st token then (st, token) :: ruleExecutions tokens (assignStep world st token)
    else ruleExecutions tokens (assignStep world st token)

/-- What a turn executes. -/
def turnExecutions (rules : List Rule) (i : ℕ) (st : RuleState) : List (RuleState × RuleToken) :=
  match rules[i]? with
  | some rule =>
    match enterRule world rule st with
    | some st => ruleExecutions world rule.tokens st
    | none => []
  | none => []

/-- What `process_rules` executes, in this order. -/
def executions (rules : List Rule) (event : RuleEvent) : List (RuleState × RuleToken) :=
  (visits world rules event).flatMap fun (i, st) => turnExecutions world rules i st

/-! ## Fields -/

/-- The fields of the result that `:=` can make final. -/
inductive ResultField
  | name
  | symlinks
  | owner
  | group
  | mode
  | runPrograms
  | runBuiltins
  deriving DecidableEq

/-- The field that an assignment writes to. -/
def fieldOf (token : RuleToken) : Option ResultField :=
  if token.key = "NAME".toList then some .name
  else if token.key = "SYMLINK".toList then some .symlinks
  else if token.key = "OWNER".toList then some .owner
  else if token.key = "GROUP".toList then some .group
  else if token.key = "MODE".toList then some .mode
  else if token.key = "RUN".toList then
    if token.attr = some "builtin".toList then some .runBuiltins else some .runPrograms
  else none

/-- A field is the same in two results. -/
def SameField (result result' : RuleResult) : ResultField → Prop
  | .name => result'.name = result.name
  | .symlinks => result'.symlinks = result.symlinks
  | .owner => result'.owner = result.owner
  | .group => result'.group = result.group
  | .mode => result'.mode = result.mode
  | .runPrograms => result'.runPrograms = result.runPrograms
  | .runBuiltins => result'.runBuiltins = result.runBuiltins

/-- Behind a `:=`, nothing that is executed changes its field. -/
def FinalAssignments (rules : List Rule) (event : RuleEvent) : Prop :=
  ∀ before st token after field, executions world rules event = before ++ (st, token) :: after →
    token.op = .assignFinal → fieldOf token = some field →
    ∀ p ∈ after, SameField p.1.result (assignStep world p.1 p.2).result field

/-- Links that an operator adds to or takes from nothing. -/
def LeavesLinks (op : RuleOp) (value : Text) (symlinks : List Text) : Prop :=
  match op with
  | .assign | .assignFinal => splitWhitespace value = symlinks
  | .assignAdd => ∀ link ∈ splitWhitespace value, link ∈ symlinks
  | .assignRemove => ∀ link ∈ splitWhitespace value, link ∉ symlinks
  | _ => True

/-- A command that is there alone already, or is not added. -/
def LeavesRun (op : RuleOp) (value : Text) (commands : List Text) : Prop :=
  match op with
  | .assign | .assignFinal => commands = [value]
  | .assignAdd => False
  | _ => True

/-- An assignment writes what its field holds already. -/
def Leaves (op : RuleOp) (value : Text) (result : RuleResult) : ResultField → Prop
  | .name => value = [] ∨ result.name = some value
  | .symlinks => LeavesLinks op value result.symlinks
  | .owner => result.owner = some value
  | .group => result.group = some value
  | .mode => ∀ mode, fromStrRadix 8 (2 ^ 32 - 1) value = some mode → result.mode = some mode
  | .runPrograms => LeavesRun op value result.runPrograms
  | .runBuiltins => LeavesRun op value result.runBuiltins

/-- Behind a `:=`, the assignments to its field that are executed under another key write what is
    there already. -/
def OneSpelling (rules : List Rule) (event : RuleEvent) : Prop :=
  ∀ before st token after field, executions world rules event = before ++ (st, token) :: after →
    token.op = .assignFinal → fieldOf token = some field →
    ∀ p ∈ after, fieldOf p.2 = some field → finalKey p.2 ≠ finalKey token →
      Leaves p.2.op (expandedValue world p.1 p.2) p.1.result field

section Runs

variable {world : ℕ → Outside} {rules : List Rule} {event : RuleEvent}
  {st st' : RuleState} {token : RuleToken} {field : ResultField}

/-! ## Keys that are final -/

theorem finalKeys_matchTokens (world : ℕ → Outside) (tokens : List RuleToken)
    (hasMatchKeys : Bool) (st : RuleState) :
    (matchTokens world tokens hasMatchKeys st).2.2.finalKeys = st.finalKeys := by
  induction tokens generalizing hasMatchKeys st with
  | nil => rfl
  | cons token tokens ih =>
    unfold matchTokens
    split_ifs
    · exact ih _ _
    · exact ih _ _
    · rfl
    · exact ih _ _

theorem finalKeys_enterRule {rule : Rule} (h : enterRule world rule st = some st') :
    st'.finalKeys = st.finalKeys := by
  have hkeys := finalKeys_matchTokens world rule.tokens false st
  unfold enterRule at h
  dsimp only at h
  split at h
  · rw [← Option.some.inj h, hkeys]
  · cases h

theorem finalKeys_executeAssignment (outside : Outside) (token : RuleToken) (value : Text)
    (st : RuleState) : (executeAssignment outside token value st).finalKeys =
      if token.op = .assignFinal then finalKey token :: st.finalKeys else st.finalKeys := by
  have hfirst : (if token.op = .assignFinal then
      { st with finalKeys := finalKey token :: st.finalKeys } else st).finalKeys =
        if token.op = .assignFinal then finalKey token :: st.finalKeys else st.finalKeys := by
    split
    · rfl
    · rfl
  rw [← hfirst]
  unfold executeAssignment
  generalize (if token.op = .assignFinal then
    { st with finalKeys := finalKey token :: st.finalKeys } else st) = st₁
  dsimp only
  split_ifs
  · cases token.attr with
    | none => rfl
    | some key => rfl
  · rfl
  · rfl
  · rfl

theorem finalKeys_subset_assignStep (world : ℕ → Outside) (st : RuleState) (token : RuleToken) :
    st.finalKeys ⊆ (assignStep world st token).finalKeys := by
  unfold assignStep
  split
  · show st.finalKeys ⊆ (executeAssignment _ token _ st).finalKeys
    rw [finalKeys_executeAssignment]
    split
    · exact List.subset_cons_self _ _
    · exact List.Subset.refl _
  · exact List.Subset.refl _

theorem finalKey_mem_assignStep (hexec : executes st token = true) (hop : token.op = .assignFinal) :
    finalKey token ∈ (assignStep world st token).finalKeys := by
  rw [assignStep, if_pos hexec]
  show finalKey token ∈ (executeAssignment _ token _ st).finalKeys
  rw [finalKeys_executeAssignment, if_pos hop]
  exact List.mem_cons_self

/-- Executions in which keys stay final: from `st` to the first one, and from each one to those
    behind it. -/
def KeepsFinal (world : ℕ → Outside) (st : RuleState) (all : List (RuleState × RuleToken)) : Prop :=
  (∀ p ∈ all, st.finalKeys ⊆ p.1.finalKeys) ∧
    all.Pairwise fun p q => (assignStep world p.1 p.2).finalKeys ⊆ q.1.finalKeys

theorem KeepsFinal.of_subset {all : List (RuleState × RuleToken)} (h : KeepsFinal world st' all)
    (hsub : st.finalKeys ⊆ st'.finalKeys) : KeepsFinal world st all :=
  ⟨fun p hp => List.Subset.trans hsub (h.1 p hp), h.2⟩

theorem keepsFinal_ruleExecutions (world : ℕ → Outside) (tokens : List RuleToken) (st : RuleState) :
    KeepsFinal world st (ruleExecutions world tokens st) ∧
      (∀ p ∈ ruleExecutions world tokens st, (assignStep world p.1 p.2).finalKeys ⊆
        (tokens.foldl (assignStep world) st).finalKeys) ∧
      st.finalKeys ⊆ (tokens.foldl (assignStep world) st).finalKeys := by
  induction tokens generalizing st with
  | nil =>
    refine ⟨⟨?_, List.Pairwise.nil⟩, ?_, List.Subset.refl _⟩
    · exact fun p hp => absurd hp List.not_mem_nil
    · exact fun p hp => absurd hp List.not_mem_nil
  | cons token tokens ih =>
    obtain ⟨hkept, hend, hsub⟩ := ih (assignStep world st token)
    have hstep := finalKeys_subset_assignStep world st token
    rw [ruleExecutions, List.foldl_cons]
    split
    · refine ⟨⟨?_, List.pairwise_cons.mpr ⟨hkept.1, hkept.2⟩⟩, ?_, List.Subset.trans hstep hsub⟩
      · exact List.forall_mem_cons.mpr ⟨List.Subset.refl _, (hkept.of_subset hstep).1⟩
      · exact List.forall_mem_cons.mpr ⟨hsub, hend⟩
    · exact ⟨hkept.of_subset hstep, hend, List.Subset.trans hstep hsub⟩

theorem keepsFinal_turnExecutions (world : ℕ → Outside) {i : ℕ} {rule : Rule}
    (hrule : rules[i]? = some rule) (st : RuleState) :
    KeepsFinal world st (turnExecutions world rules i st) ∧
      (∀ p ∈ turnExecutions world rules i st, (assignStep world p.1 p.2).finalKeys ⊆
        (turn world rules i rule st).2.finalKeys) ∧
      st.finalKeys ⊆ (turn world rules i rule st).2.finalKeys := by
  unfold turnExecutions turn
  rw [hrule]
  dsimp only
  cases henter : enterRule world rule st with
  | none =>
    refine ⟨⟨?_, List.Pairwise.nil⟩, ?_, ?_⟩
    · exact fun p hp => absurd hp List.not_mem_nil
    · exact fun p hp => absurd hp List.not_mem_nil
    · rw [finalKeys_matchTokens]
      exact List.Subset.refl _
  | some st₁ =>
    obtain ⟨hkept, hend, hsub⟩ := keepsFinal_ruleExecutions world rule.tokens st₁
    have henters : st.finalKeys ⊆ st₁.finalKeys := by
      rw [finalKeys_enterRule henter]
      exact List.Subset.refl _
    exact ⟨hkept.of_subset henters, hend, List.Subset.trans henters hsub⟩

theorem keepsFinal_loopVisits (world : ℕ → Outside) (rules : List Rule) (fuel i : ℕ)
    (st : RuleState) : KeepsFinal world st
      ((loopVisits world rules fuel i st).flatMap fun (i, st) =>
        turnExecutions world rules i st) := by
  induction fuel generalizing i st with
  | zero => exact ⟨fun p hp => absurd hp List.not_mem_nil, List.Pairwise.nil⟩
  | succ fuel ih =>
    rw [loopVisits]
    cases hrule : rules[i]? with
    | none => exact ⟨fun p hp => absurd hp List.not_mem_nil, List.Pairwise.nil⟩
    | some rule =>
      obtain ⟨hkept, hend, hsub⟩ := keepsFinal_turnExecutions world hrule st
      have hrest := ih (turn world rules i rule st).1 (turn world rules i rule st).2
      refine ⟨?_, List.pairwise_append.mpr ⟨hkept.2, hrest.2, ?_⟩⟩
      · exact List.forall_mem_append.mpr ⟨hkept.1, (hrest.of_subset hsub).1⟩
      · exact fun p hp q hq => List.Subset.trans (hend p hp) (hrest.1 q hq)

/-- What a `:=` has made final stays final to the end of the run. -/
theorem finalKey_mem_of_after {before after : List (RuleState × RuleToken)}
    (h : executions world rules event = before ++ (st, token) :: after)
    (hexec : executes st token = true) (hop : token.op = .assignFinal) :
    ∀ p ∈ after, finalKey token ∈ p.1.finalKeys := by
  have hkept : (executions world rules event).Pairwise _ :=
    (keepsFinal_loopVisits world rules rules.length 0 (.start event)).2
  rw [h, List.pairwise_append, List.pairwise_cons] at hkept
  exact fun p hp => hkept.2.1.1 p hp (finalKey_mem_assignStep hexec hop)

/-! ## The executions are the tokens that are executed -/

theorem mem_ruleExecutions_iff {tokens : List RuleToken} {st₁ : RuleState} :
    (st, token) ∈ ruleExecutions world tokens st₁ ↔
      ∃ before after, tokens = before ++ token :: after ∧
        st = before.foldl (assignStep world) st₁ ∧ executes st token = true := by
  induction tokens generalizing st₁ with
  | nil =>
    constructor
    · exact fun h => absurd h List.not_mem_nil
    · rintro ⟨before, after, htokens, -⟩
      exact absurd htokens.symm (List.append_ne_nil_of_right_ne_nil _ (List.cons_ne_nil _ _))
  | cons first tokens ih =>
    have hrest : (st, token) ∈ ruleExecutions world tokens (assignStep world st₁ first) ↔
        ∃ before after, first :: tokens = (first :: before) ++ token :: after ∧
          st = (first :: before).foldl (assignStep world) st₁ ∧ executes st token = true := by
      rw [ih]
      simp only [List.cons_append, List.cons.injEq, true_and, List.foldl_cons]
    have hall : (∃ before after, first :: tokens = before ++ token :: after ∧
        st = before.foldl (assignStep world) st₁ ∧ executes st token = true) ↔
        (first = token ∧ st = st₁ ∧ executes st token = true) ∨
          (st, token) ∈ ruleExecutions world tokens (assignStep world st₁ first) := by
      rw [hrest]
      constructor
      · rintro ⟨before, after, htokens, hst, hexec⟩
        cases before with
        | nil => exact .inl ⟨(List.cons.inj htokens).1, hst, hexec⟩
        | cons head before =>
          obtain ⟨rfl, -⟩ := List.cons.inj htokens
          exact .inr ⟨before, after, htokens, hst, hexec⟩
      · rintro (⟨rfl, rfl, hexec⟩ | ⟨before, after, htokens, hst, hexec⟩)
        · exact ⟨[], tokens, rfl, rfl, hexec⟩
        · exact ⟨first :: before, after, htokens, hst, hexec⟩
    rw [hall, ruleExecutions]
    split
    · rename_i hfirst
      rw [List.mem_cons, Prod.mk.injEq]
      refine or_congr_left ⟨?_, ?_⟩
      · rintro ⟨rfl, rfl⟩
        exact ⟨rfl, rfl, hfirst⟩
      · rintro ⟨rfl, rfl, -⟩
        exact ⟨rfl, rfl⟩
    · rename_i hfirst
      rw [or_iff_right]
      rintro ⟨rfl, rfl, hexec⟩
      exact hfirst hexec

/-- What is in the list of executions is what is executed. -/
theorem mem_executions_iff :
    (st, token) ∈ executions world rules event ↔ Executed world rules event st token := by
  rw [executions, List.mem_flatMap]
  constructor
  · rintro ⟨⟨i, st₀⟩, hvisit, hmem⟩
    obtain ⟨hat, hlt⟩ := mem_visits_iff.mp hvisit
    have hrule : rules[i]? = some rules[i] := List.getElem?_eq_getElem hlt
    dsimp only [turnExecutions] at hmem
    rw [hrule] at hmem
    dsimp only at hmem
    cases henter : enterRule world rules[i] st₀ with
    | none =>
      rw [henter] at hmem
      exact absurd hmem List.not_mem_nil
    | some st₁ =>
      rw [henter] at hmem
      obtain ⟨before, after, htokens, hst, hexec⟩ := mem_ruleExecutions_iff.mp hmem
      exact ⟨⟨i, st₀, rules[i], st₁, before, after, hat, hrule, henter, htokens, hst⟩, hexec⟩
  · rintro ⟨⟨i, st₀, rule, st₁, before, after, hat, hrule, henter, htokens, hst⟩, hexec⟩
    have hlt := (List.getElem?_eq_some_iff.mp hrule).1
    refine ⟨(i, st₀), mem_visits_iff.mpr ⟨hat, hlt⟩, ?_⟩
    dsimp only [turnExecutions]
    rw [hrule]
    dsimp only
    rw [henter]
    exact mem_ruleExecutions_iff.mpr ⟨before, after, htokens, hst, hexec⟩

theorem executes_of_split {before after : List (RuleState × RuleToken)}
    (h : executions world rules event = before ++ after) :
    ∀ p ∈ after, executes p.1 p.2 = true := by
  intro p hp
  have hmem : (p.1, p.2) ∈ executions world rules event := by
    rw [h]
    exact List.mem_append_right _ hp
  exact (mem_executions_iff.mp hmem).2

/-! ## What an assignment does to a field -/

theorem foldl_pushTag_eq_iff {added tags : List Text} :
    added.foldl pushTag tags = tags ↔ ∀ tag ∈ added, tag ∈ tags := by
  constructor
  · intro h tag htag
    rw [← h]
    exact mem_foldl_pushTag.mpr (.inr htag)
  · intro h
    induction added with
    | nil => rfl
    | cons tag added ih =>
      rw [List.forall_mem_cons] at h
      rw [List.foldl_cons, pushTag, if_pos (List.contains_iff_mem.mpr h.1)]
      exact ih h.2

theorem assignSymlinks_eq_iff (op : RuleOp) (value : Text) (symlinks : List Text) :
    assignSymlinks op value symlinks = symlinks ↔ LeavesLinks op value symlinks := by
  cases op with
  | assign => rfl
  | assignFinal => rfl
  | assignAdd => exact foldl_pushTag_eq_iff
  | assignRemove =>
    show symlinks.filter _ = symlinks ↔ ∀ link ∈ splitWhitespace value, link ∉ symlinks
    rw [List.filter_eq_self]
    simp only [Bool.not_eq_true', List.contains_eq_mem, decide_eq_false_iff_not]
    exact ⟨fun h link hlink hmem => h link hmem hlink, fun h link hmem hlink => h link hlink hmem⟩
  | «match» => exact iff_of_true rfl trivial
  | «nomatch» => exact iff_of_true rfl trivial

theorem assignRun_eq_iff (op : RuleOp) (value : Text) (commands : List Text) :
    assignRun op value commands = commands ↔ LeavesRun op value commands := by
  cases op with
  | assign => exact eq_comm
  | assignFinal => exact eq_comm
  | assignAdd => exact iff_of_false (by simp [assignRun]) id
  | assignRemove => exact iff_of_true rfl trivial
  | «match» => exact iff_of_true rfl trivial
  | «nomatch» => exact iff_of_true rfl trivial

/-- What an assignment to a field makes of the result. -/
def writeField (op : RuleOp) (value : Text) (result : RuleResult) : ResultField → RuleResult
  | .name => if value ≠ [] then { result with name := some value } else result
  | .symlinks => { result with symlinks := assignSymlinks op value result.symlinks }
  | .owner => { result with owner := some value }
  | .group => { result with group := some value }
  | .mode =>
    match fromStrRadix 8 (2 ^ 32 - 1) value with
    | some mode => { result with mode := some mode }
    | none => result
  | .runPrograms => { result with runPrograms := assignRun op value result.runPrograms }
  | .runBuiltins => { result with runBuiltins := assignRun op value result.runBuiltins }

theorem assignResult_of_field (h : fieldOf token = some field) (value : Text)
    (result : RuleResult) :
    assignResult token value result = writeField token.op value result field := by
  unfold fieldOf at h
  unfold assignResult
  split_ifs at h with hname hlinks howner hgroup hmode hrun hbuiltin
  all_goals cases h
  · rw [if_pos hname]
    rfl
  · rw [if_neg hname, if_pos hlinks]
    rfl
  · rw [if_neg hname, if_neg hlinks, if_pos howner]
    rfl
  · rw [if_neg hname, if_neg hlinks, if_neg howner, if_pos hgroup]
    rfl
  · rw [if_neg hname, if_neg hlinks, if_neg howner, if_neg hgroup, if_pos hmode]
    rfl
  · have htag : token.key ≠ "TAG".toList := by
      rw [hrun]
      decide
    rw [if_neg hname, if_neg hlinks, if_neg howner, if_neg hgroup, if_neg hmode, if_neg htag,
      if_pos hrun, if_pos hbuiltin]
    rfl
  · have htag : token.key ≠ "TAG".toList := by
      rw [hrun]
      decide
    rw [if_neg hname, if_neg hlinks, if_neg howner, if_neg hgroup, if_neg hmode, if_neg htag,
      if_pos hrun, if_neg hbuiltin]
    rfl

theorem sameField_refl (result : RuleResult) (field : ResultField) :
    SameField result result field := by
  cases field with
  | name => rfl
  | symlinks => rfl
  | owner => rfl
  | group => rfl
  | mode => rfl
  | runPrograms => rfl
  | runBuiltins => rfl

/-- An assignment to a field leaves it exactly if it writes what is there. -/
theorem sameField_writeField_iff (op : RuleOp) (value : Text) (result : RuleResult)
    (field : ResultField) : SameField result (writeField op value result field) field ↔
      Leaves op value result field := by
  cases field with
  | name =>
    rw [writeField]
    by_cases hvalue : value = []
    · rw [if_neg (not_not_intro hvalue)]
      exact iff_of_true rfl (.inl hvalue)
    · rw [if_pos hvalue]
      exact ⟨fun hsame => .inr hsame.symm, fun hleaves => (hleaves.resolve_left hvalue).symm⟩
  | symlinks => exact assignSymlinks_eq_iff op value result.symlinks
  | owner => exact eq_comm
  | group => exact eq_comm
  | mode =>
    rw [writeField, Leaves]
    cases fromStrRadix 8 (2 ^ 32 - 1) value with
    | none => exact iff_of_true rfl fun mode hmode => absurd hmode (Option.some_ne_none mode).symm
    | some mode =>
      constructor
      · rintro hsame _ ⟨⟩
        exact hsame.symm
      · intro hleaves
        exact (hleaves mode rfl).symm
  | runPrograms => exact assignRun_eq_iff op value result.runPrograms
  | runBuiltins => exact assignRun_eq_iff op value result.runBuiltins

/-- And leaves the other fields. -/
theorem sameField_writeField {field' : ResultField} (h : field' ≠ field) (op : RuleOp)
    (value : Text) (result : RuleResult) :
    SameField result (writeField op value result field') field := by
  cases field' with
  | name =>
    rw [writeField]
    split
    · cases field <;> first | rfl | exact absurd rfl h
    · exact sameField_refl result field
  | mode =>
    rw [writeField]
    split
    · cases field <;> first | rfl | exact absurd rfl h
    · exact sameField_refl result field
  | symlinks | owner | group | runPrograms | runBuiltins =>
    cases field <;> first | rfl | exact absurd rfl h

theorem sameField_assignResult_of_none (h : fieldOf token = none) (value : Text)
    (result : RuleResult) : SameField result (assignResult token value result) field := by
  unfold fieldOf at h
  split_ifs at h with hname hlinks howner hgroup hmode hrun
  rw [assignResult, if_neg hname, if_neg hlinks, if_neg howner, if_neg hgroup, if_neg hmode]
  split
  · cases field <;> rfl
  · split
    · split
      · cases field <;> rfl
      · exact sameField_refl result field
    · split
      · split
        · cases field <;> rfl
        · exact sameField_refl result field
      · split
        · split
          · exact sameField_refl result field
          · cases field <;> rfl
        · exact sameField_refl result field

/-- The keys of the fields. -/
def fieldKeys : List Text :=
  ["NAME".toList, "SYMLINK".toList, "OWNER".toList, "GROUP".toList, "MODE".toList, "RUN".toList]

theorem key_mem_fieldKeys (h : fieldOf token = some field) : token.key ∈ fieldKeys := by
  unfold fieldOf at h
  split_ifs at h with hname hlinks howner hgroup hmode hrun hbuiltin
  all_goals simp [fieldKeys, *]

theorem fieldOf_eq_none {key : Text} (hkey : token.key = key) (h : key ∉ fieldKeys) :
    fieldOf token = none := by
  by_contra hsome
  obtain ⟨field, hfield⟩ := Option.ne_none_iff_exists'.mp hsome
  exact h (hkey ▸ key_mem_fieldKeys hfield)

/-- What a token does to the fields: the overrides of the environment are none of them. -/
theorem sameField_executeAssignment_iff (outside : Outside) (token : RuleToken) (value : Text)
    (st : RuleState) (field : ResultField) :
    SameField st.result (executeAssignment outside token value st).result field ↔
      SameField st.result (assignResult token value st.result) field := by
  have hresult : (if token.op = .assignFinal then
      { st with finalKeys := finalKey token :: st.finalKeys } else st).result = st.result := by
    split
    · rfl
    · rfl
  unfold executeAssignment
  generalize (if token.op = .assignFinal then
    { st with finalKeys := finalKey token :: st.finalKeys } else st) = st₁ at hresult ⊢
  rw [← hresult]
  dsimp only
  split_ifs with henv himport hprogram
  · have hnone : fieldOf token = none := fieldOf_eq_none henv (by decide)
    refine iff_of_true ?_ (sameField_assignResult_of_none hnone value _)
    cases token.attr with
    | none => exact sameField_refl _ field
    | some key => cases field <;> rfl
  · have hnone : fieldOf token = none := fieldOf_eq_none himport (by decide)
    exact iff_of_true (sameField_refl _ field) (sameField_assignResult_of_none hnone value _)
  · have hnone : fieldOf token = none := fieldOf_eq_none hprogram (by decide)
    exact iff_of_true (sameField_refl _ field) (sameField_assignResult_of_none hnone value _)
  · rfl

/-- A token that is executed leaves a field exactly if it is none of the field's or writes what is
    there. -/
theorem sameField_assignStep_iff (hexec : executes st token = true) (field : ResultField) :
    SameField st.result (assignStep world st token).result field ↔
      (fieldOf token = some field →
        Leaves token.op (expandedValue world st token) st.result field) := by
  have hstep : (assignStep world st token).result =
      (executeAssignment (world st.clock) token (expandedValue world st token) st).result := by
    rw [assignStep, if_pos hexec]
  rw [hstep, sameField_executeAssignment_iff]
  cases hfield : fieldOf token with
  | none =>
    refine iff_of_true (sameField_assignResult_of_none hfield _ _) fun h => ?_
    cases h
  | some field' =>
    rw [assignResult_of_field hfield, Option.some.injEq]
    by_cases heq : field' = field
    · rw [heq, sameField_writeField_iff]
      exact (imp_iff_right rfl).symm
    · exact iff_of_true (sameField_writeField heq _ _ _) fun h => absurd h heq

/-- A token whose key is final is not executed. -/
theorem finalKey_not_mem (hexec : executes st token = true) (hfield : fieldOf token = some field) :
    finalKey token ∉ st.finalKeys := by
  intro hmem
  have hkey := key_mem_fieldKeys hfield
  have hlabel : token.key ≠ "LABEL".toList := fun heq => absurd (heq ▸ hkey) (by decide)
  have hgoto : token.key ≠ "GOTO".toList := fun heq => absurd (heq ▸ hkey) (by decide)
  have hnot : executes st token = false := by
    rw [executes, List.contains_iff_mem.mpr hmem, decide_eq_true hlabel, decide_eq_true hgoto]
    exact Bool.and_false _
  rw [hnot] at hexec
  cases hexec

/-- Final assignments are final exactly if, behind a `:=`, the assignments to its field that are
    executed under another key write what is there already. -/
theorem finalAssignments_iff (world : ℕ → Outside) (rules : List Rule) (event : RuleEvent) :
    FinalAssignments world rules event ↔ OneSpelling world rules event := by
  refine forall₅_congr fun before st token after field => ?_
  refine forall₃_congr fun hsplit hop hfield => ?_
  have hexecs : ∀ p ∈ (st, token) :: after, executes p.1 p.2 = true := executes_of_split hsplit
  have hfinal := finalKey_mem_of_after hsplit (hexecs _ List.mem_cons_self) hop
  refine forall₂_congr fun p hp => ?_
  have hexec := hexecs p (List.mem_cons_of_mem _ hp)
  rw [sameField_assignStep_iff hexec]
  refine forall_congr' fun hsame => ?_
  have hne : finalKey p.2 ≠ finalKey token := by
    intro heq
    apply finalKey_not_mem hexec hsame
    rw [heq]
    exact hfinal p hp
  exact (imp_iff_right hne).symm

end Runs

/-! ## Two spellings of one list -/

/-- `RUN:="/bin/a"`. -/
def finalRun : RuleToken := ⟨"RUN".toList, none, .assignFinal, "/bin/a".toList⟩

/-- `RUN{program}+="/bin/b"`. -/
def addProgram : RuleToken := ⟨"RUN".toList, some "program".toList, .assignAdd, "/bin/b".toList⟩

/-- The list of programs grows behind `RUN:=`. -/
theorem final_run_grows : ¬ ∀ world rules event, FinalAssignments world rules event := by
  intro h
  let world : ℕ → Outside := fun _ => emptyMachine
  have hsame := h world [⟨[finalRun], none, none⟩, ⟨[addProgram], none, none⟩] addEvent []
    (.start addEvent) finalRun [(assignStep world (.start addEvent) finalRun, addProgram)]
    .runPrograms rfl rfl (by decide) _ List.mem_cons_self
  have hbefore : (assignStep world (.start addEvent) finalRun).result.runPrograms =
      ["/bin/a".toList] := by decide
  have hafter : (assignStep world (assignStep world (.start addEvent) finalRun)
      addProgram).result.runPrograms = ["/bin/a".toList, "/bin/b".toList] := by decide
  have hgrown : ["/bin/a".toList, "/bin/b".toList] = ["/bin/a".toList] :=
    hafter.symm.trans (hsame.trans hbefore)
  exact absurd hgrown (by decide)

end OxidizedSystemd.Udevd.Rules
