import OxidizedSystemd.Udevd.Rules.Import

/-!
# Processing rules

Model of `process_rules` and `execute_assignment` (`udevd/src/lib.rs`, lines 697–751, 1463–1575
and 1849–1988). Between two tokens the machine may change: what is read of it is a function
of the number of tokens that have been looked at.

* `atRule_processRules`: the loop ends behind the last rule.
* `event_matchTokens`: match tokens leave the event as it is.
-/

namespace OxidizedSystemd.Udevd.Rules

open Lib

/-- `struct Rule`, with the fields that are processed. -/
structure Rule where
  tokens : List RuleToken
  label : Option Text
  gotoTarget : Option Text

/-- `struct RuleResult`. -/
structure RuleResult where
  name : Option Text
  symlinks : List Text
  owner : Option Text
  group : Option Text
  mode : Option ℕ
  runPrograms : List Text
  runBuiltins : List Text
  tags : List Text
  envOverrides : SortedMap Text Text
  sysattrWrites : List (Text × Text)
  options : List Text

/-- What `process_rules` has in its variables, and how many tokens it has looked at. -/
structure RuleState where
  event : RuleEvent
  result : RuleResult
  programResult : Text
  finalKeys : List Text
  clock : ℕ

/-- The variables at the start. -/
def RuleState.start (event : RuleEvent) : RuleState where
  event := event
  result := ⟨none, [], none, none, none, [], [], [], .empty, [], []⟩
  programResult := []
  finalKeys := []
  clock := 0

/-! ## Assignments -/

/-- `SYMLINK`: what an operator makes of the links. -/
def assignSymlinks (op : RuleOp) (value : Text) (symlinks : List Text) : List Text :=
  let links := splitWhitespace value
  match op with
  | .assign | .assignFinal => links
  | .assignAdd =>
    links.foldl (fun all link => if all.contains link then all else all ++ [link]) symlinks
  | .assignRemove => symlinks.filter fun link => !links.contains link
  | _ => symlinks

/-- `TAG`. -/
def assignTags (op : RuleOp) (value : Text) (tags : List Text) : List Text :=
  match op with
  | .assign | .assignFinal | .assignAdd =>
    if value ≠ [] ∧ tags.contains value = false then tags ++ [value] else tags
  | .assignRemove => tags.filter (· ≠ value)
  | _ => tags

/-- `RUN`, of either kind. -/
def assignRun (op : RuleOp) (value : Text) (commands : List Text) : List Text :=
  match op with
  | .assign | .assignFinal => [value]
  | .assignAdd => commands ++ [value]
  | _ => commands

/-- The value of `ENV{key}` behind an assignment (lines 1903–1914). -/
def envValue (event : RuleEvent) (op : RuleOp) (key value : Text) : Text :=
  if op = .assignAdd then
    match event.env.get? key with
    | some existing => if existing ≠ [] then existing ++ ' ' :: value else value
    | none => value
  else value

/-- The key that `:=` makes final. -/
def finalKey (token : RuleToken) : Text := token.key ++ token.attr.getD []

/-- The assignments that change the result only (lines 1857–1900 and 1919–1986). -/
def assignResult (token : RuleToken) (value : Text) (result : RuleResult) : RuleResult :=
  if token.key = "NAME".toList then
    if value ≠ [] then { result with name := some value } else result
  else if token.key = "SYMLINK".toList then
    { result with symlinks := assignSymlinks token.op value result.symlinks }
  else if token.key = "OWNER".toList then { result with owner := some value }
  else if token.key = "GROUP".toList then { result with group := some value }
  else if token.key = "MODE".toList then
    match fromStrRadix 8 (2 ^ 32 - 1) value with
    | some mode => { result with mode := some mode }
    | none => result
  else if token.key = "TAG".toList then
    { result with tags := assignTags token.op value result.tags }
  else if token.key = "RUN".toList then
    if token.attr = some "builtin".toList then
      { result with runBuiltins := assignRun token.op value result.runBuiltins }
    else { result with runPrograms := assignRun token.op value result.runPrograms }
  else if token.key = "ATTR".toList then
    match token.attr with
    | some attr => { result with sysattrWrites := result.sysattrWrites ++ [(attr, value)] }
    | none => result
  else if token.key = "SYSCTL".toList then
    match token.attr with
    | some key =>
      let path := "/proc/sys/".toList ++ key.map fun c => if c = '.' then '/' else c
      { result with sysattrWrites := result.sysattrWrites ++ [(path, value)] }
    | none => result
  else if token.key = "OPTIONS".toList then
    if result.options.contains value then result
    else { result with options := result.options ++ [value] }
  else result

variable (outside : Outside)

/-- `execute_assignment` (lines 1849–1988). -/
def executeAssignment (token : RuleToken) (value : Text) (st : RuleState) : RuleState :=
  let st := if token.op = .assignFinal then
    { st with finalKeys := finalKey token :: st.finalKeys } else st
  if token.key = "ENV".toList then
    match token.attr with
    | some key =>
      let newValue := envValue st.event token.op key value
      { st with
        event := st.event.set key newValue
        result := { st.result with envOverrides := st.result.envOverrides.insert key newValue } }
    | none => st
  else if token.key = "IMPORT".toList then
    let (event, programResult) :=
      handleImport outside (token.attr.getD "file".toList) value st.event st.programResult
    { st with event := event, programResult := programResult }
  else if token.key = "PROGRAM".toList then
    { st with programResult := (runProgramCapture outside value st.event).getD st.programResult }
  else { st with result := assignResult token value st.result }

/-! ## Rules -/

variable (world : ℕ → Outside)

/-- A match token: the verdict, and the state with the result of the last program. -/
def matchStep (st : RuleState) (token : RuleToken) : Bool × RuleState :=
  let (matched, programResult) := matchToken (world st.clock) token st.event st.programResult
  (matched, { st with programResult := programResult, clock := st.clock + 1 })

/-- The match tokens of a rule (lines 1500–1521): whether all match and whether there are any. -/
def matchTokens : List RuleToken → Bool → RuleState → Bool × Bool × RuleState
  | [], hasMatchKeys, st => (true, hasMatchKeys, st)
  | token :: tokens, hasMatchKeys, st =>
    if isMatchKey token.key ∧ isMatchOp token.op = false then
      matchTokens tokens hasMatchKeys (matchStep world st token).2
    else if isMatchOp token.op then
      if (matchStep world st token).1 then matchTokens tokens true (matchStep world st token).2
      else (false, true, (matchStep world st token).2)
    else matchTokens tokens hasMatchKeys st

/-- A token is executed (lines 1531–1541). -/
def executes (st : RuleState) (token : RuleToken) : Bool :=
  !isMatchOp token.op && !isMatchKey token.key &&
    !(st.finalKeys.contains (finalKey token) && token.key ≠ "LABEL".toList &&
      token.key ≠ "GOTO".toList)

/-- The value of a token with its substitutions (lines 1543–1549). -/
def expandedValue (st : RuleState) (token : RuleToken) : Text :=
  expandSubstitutions ⟨world st.clock, st.event, st.programResult, st.result.name.getD [],
    st.result.symlinks⟩ token.value

/-- A token of a rule that matches (lines 1530–1560). -/
def assignStep (st : RuleState) (token : RuleToken) : RuleState :=
  if executes st token then
    { executeAssignment (world st.clock) token (expandedValue world st token) st with
      clock := st.clock + 1 }
  else st

/-- `find_label`. -/
def findLabel (rules : List Rule) (label : Text) (start : ℕ) : Option ℕ :=
  (List.range' start (rules.length - start)).find? fun i => (rules[i]?.bind Rule.label) = some label

/-- The rule behind a rule that matches (lines 1562–1571). -/
def nextRule (rules : List Rule) (i : ℕ) (rule : Rule) : ℕ :=
  (rule.gotoTarget.bind fun target => findLabel rules target (i + 1)).getD (i + 1)

/-- The state in which the assignments of a rule are executed, if they are (lines 1498–1530). -/
def enterRule (rule : Rule) (st : RuleState) : Option RuleState :=
  let (matched, hasMatchKeys, st) := matchTokens world rule.tokens false st
  if matched ∧ ¬(hasMatchKeys = false ∧ rule.label.isSome) then some st else none

/-- A turn of the loop at a rule (lines 1493–1572). -/
def turn (rules : List Rule) (i : ℕ) (rule : Rule) (st : RuleState) : ℕ × RuleState :=
  match enterRule world rule st with
  | some st => (nextRule rules i rule, rule.tokens.foldl (assignStep world) st)
  | none => (i + 1, (matchTokens world rule.tokens false st).2.2)

/-- The loop of `process_rules`. Every turn goes forward, so that the number of rules is enough
    fuel. -/
def processRulesLoop (rules : List Rule) : ℕ → ℕ → RuleState → RuleState
  | 0, _, st => st
  | fuel + 1, i, st =>
    match rules[i]? with
    | some rule =>
      processRulesLoop rules fuel (turn world rules i rule st).1 (turn world rules i rule st).2
    | none => st

/-- `process_rules` (lines 1489–1575): the variables at its end. -/
def processRules (rules : List Rule) (event : RuleEvent) : RuleState :=
  processRulesLoop world rules rules.length 0 (.start event)

/-- The rules that the loop looks at, each with the variables before it. -/
def loopVisits (rules : List Rule) : ℕ → ℕ → RuleState → List (ℕ × RuleState)
  | 0, _, _ => []
  | fuel + 1, i, st =>
    match rules[i]? with
    | some rule =>
      (i, st) :: loopVisits rules fuel (turn world rules i rule st).1
        (turn world rules i rule st).2
    | none => []

/-- The rules that `process_rules` looks at. -/
def visits (rules : List Rule) (event : RuleEvent) : List (ℕ × RuleState) :=
  loopVisits world rules rules.length 0 (.start event)

/-! ## Runs -/

section Runs

variable {world : ℕ → Outside} {rules : List Rule} {event : RuleEvent}

/-- The loop is at a rule, with these variables. -/
inductive AtRule (world : ℕ → Outside) (rules : List Rule) (event : RuleEvent) :
    ℕ → RuleState → Prop
  | start : AtRule world rules event 0 (.start event)
  | turn {i : ℕ} {st : RuleState} {rule : Rule} (h : AtRule world rules event i st)
      (hrule : rules[i]? = some rule) :
      AtRule world rules event (turn world rules i rule st).1 (turn world rules i rule st).2

/-- A token of a rule that matches is looked at, with these variables. -/
def AtToken (world : ℕ → Outside) (rules : List Rule) (event : RuleEvent) (st : RuleState)
    (token : RuleToken) : Prop :=
  ∃ i st₀ rule st₁ before after, AtRule world rules event i st₀ ∧ rules[i]? = some rule ∧
    enterRule world rule st₀ = some st₁ ∧ rule.tokens = before ++ token :: after ∧
    st = before.foldl (assignStep world) st₁

/-- A token is executed, with these variables. -/
def Executed (world : ℕ → Outside) (rules : List Rule) (event : RuleEvent) (st : RuleState)
    (token : RuleToken) : Prop :=
  AtToken world rules event st token ∧ executes st token = true

/-- The variables at a rule or behind a token. -/
inductive Reached (world : ℕ → Outside) (rules : List Rule) (event : RuleEvent) :
    RuleState → Prop
  | rule {i : ℕ} {st : RuleState} (h : AtRule world rules event i st) :
      Reached world rules event st
  | token {st : RuleState} {token : RuleToken} (h : Executed world rules event st token) :
      Reached world rules event (assignStep world st token)

theorem event_matchTokens (world : ℕ → Outside) (tokens : List RuleToken) (hasMatchKeys : Bool)
    (st : RuleState) :
    (matchTokens world tokens hasMatchKeys st).2.2.event = st.event := by
  induction tokens generalizing hasMatchKeys st with
  | nil => rfl
  | cons token tokens ih =>
    unfold matchTokens
    split_ifs
    · exact ih _ _
    · exact ih _ _
    · rfl
    · exact ih _ _

theorem event_enterRule {rule : Rule} {st st' : RuleState}
    (h : enterRule world rule st = some st') : st'.event = st.event := by
  have hevent := event_matchTokens world rule.tokens false st
  unfold enterRule at h
  dsimp only at h
  split at h
  · rw [← Option.some.inj h, hevent]
  · cases h

theorem lt_nextRule (rules : List Rule) (i : ℕ) (rule : Rule) : i < nextRule rules i rule := by
  unfold nextRule
  cases htarget : rule.gotoTarget.bind fun target => findLabel rules target (i + 1) with
  | none => exact Nat.lt_succ_self i
  | some j =>
    obtain ⟨target, -, hfind⟩ := Option.bind_eq_some_iff.mp htarget
    have hmem := List.mem_of_find?_eq_some hfind
    rw [List.mem_range'_1] at hmem
    exact hmem.1

/-- Every turn goes forward. -/
theorem lt_turn (world : ℕ → Outside) (rules : List Rule) (i : ℕ) (rule : Rule) (st : RuleState) :
    i < (turn world rules i rule st).1 := by
  unfold turn
  cases enterRule world rule st with
  | none => exact Nat.lt_succ_self i
  | some st' => exact lt_nextRule rules i rule

theorem atRule_processRulesLoop {fuel i : ℕ} {st : RuleState}
    (h : AtRule world rules event i st) (hfuel : rules.length ≤ i + fuel) :
    ∃ j, rules.length ≤ j ∧
      AtRule world rules event j (processRulesLoop world rules fuel i st) := by
  induction fuel generalizing i st with
  | zero => exact ⟨i, hfuel, h⟩
  | succ fuel ih =>
    unfold processRulesLoop
    cases hrule : rules[i]? with
    | none => exact ⟨i, List.getElem?_eq_none_iff.mp hrule, h⟩
    | some rule =>
      have hlt := lt_turn world rules i rule st
      exact ih (.turn h hrule) (by omega)

/-- The loop ends behind the last rule. -/
theorem atRule_processRules (world : ℕ → Outside) (rules : List Rule) (event : RuleEvent) :
    ∃ i, rules.length ≤ i ∧ AtRule world rules event i (processRules world rules event) :=
  atRule_processRulesLoop .start (Nat.le_add_left _ _)

theorem reached_processRules (world : ℕ → Outside) (rules : List Rule) (event : RuleEvent) :
    Reached world rules event (processRules world rules event) := by
  obtain ⟨i, -, hat⟩ := atRule_processRules world rules event
  exact .rule hat

/-- The rest of the run from a rule that the loop is at. -/
theorem AtRule.visits {i : ℕ} {st : RuleState} (h : AtRule world rules event i st) :
    ∃ fuel passed, rules.length ≤ i + fuel ∧
      visits world rules event = passed ++ loopVisits world rules fuel i st := by
  induction h with
  | start => exact ⟨rules.length, [], Nat.le_add_left _ _, rfl⟩
  | turn hat hrule ih =>
    rename_i i st rule
    obtain ⟨fuel, passed, hfuel, hrun⟩ := ih
    have hlt := (List.getElem?_eq_some_iff.mp hrule).1
    have hnext := lt_turn world rules i rule st
    cases fuel with
    | zero => omega
    | succ fuel =>
      refine ⟨fuel, passed ++ [(i, st)], by omega, ?_⟩
      rw [hrun, loopVisits, hrule, List.append_assoc, List.singleton_append]

theorem atRule_of_mem_loopVisits {fuel i j : ℕ} {st st' : RuleState}
    (h : AtRule world rules event i st) (hmem : (j, st') ∈ loopVisits world rules fuel i st) :
    AtRule world rules event j st' ∧ j < rules.length := by
  induction fuel generalizing i st with
  | zero => exact absurd hmem List.not_mem_nil
  | succ fuel ih =>
    rw [loopVisits] at hmem
    cases hrule : rules[i]? with
    | none =>
      rw [hrule] at hmem
      exact absurd hmem List.not_mem_nil
    | some rule =>
      rw [hrule] at hmem
      rcases List.mem_cons.mp hmem with heq | hrest
      · cases heq
        exact ⟨h, (List.getElem?_eq_some_iff.mp hrule).1⟩
      · exact ih (.turn h hrule) hrest

/-- The rules in the list of visits are those that the loop is at. -/
theorem mem_visits_iff {i : ℕ} {st : RuleState} :
    (i, st) ∈ visits world rules event ↔ AtRule world rules event i st ∧ i < rules.length := by
  constructor
  · exact atRule_of_mem_loopVisits .start
  · rintro ⟨hat, hlt⟩
    obtain ⟨fuel, passed, hfuel, hrun⟩ := hat.visits
    cases fuel with
    | zero => omega
    | succ fuel =>
      rw [hrun, loopVisits, List.getElem?_eq_getElem hlt]
      exact List.mem_append_right _ List.mem_cons_self

end Runs

end OxidizedSystemd.Udevd.Rules
