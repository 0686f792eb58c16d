import OxidizedSystemd.Resolved.Cache
import OxidizedSystemd.Resolved.NameSafety
import OxidizedSystemd.Resolved.Replies

/-!
# Names that are skipped

`extract_min_ttl` gets behind a name with `skip_name` (`resolved/src/dns.rs`, lines 1270–1298), the
parser with `parse_name`. `skip_name` counts labels and pointers together against the bound that
`parse_name` has for pointers alone.

* `parseName_ok_iff`: the names that `parse_name` takes.
* `skipName_of_nameVia`: the names that `skip_name` gets behind.
* `extractMinTtl_of_walked`: the records that `extract_min_ttl` reads.
* `skipName_agrees_iff`: the two agree at an offset, and on a message, exactly if no name that
  `parse_name` takes goes through more than 128 labels and pointers together.
* `long_chain_is_not_skipped`: a name of one label behind 128 pointers.
-/

namespace OxidizedSystemd.Resolved

open OxidizedSystemd.Lib

/-! ## Names and their pointers -/

/-- The message has these labels at an offset, through `hops` pointers, and `behind` is the offset
    behind them. -/
inductive NameVia (data : Bytes) : ℕ → ℕ → List Bytes → ℕ → Prop where
  | root {offset : ℕ} (h : data[offset]? = some 0) : NameVia data 0 offset [] (offset + 1)
  | label {hops offset : ℕ} {b : UInt8} {labels : List Bytes} {behind : ℕ}
      (h : data[offset]? = some b) (hne : b.toNat ≠ 0) (hptr : b.toNat &&& 0xC0 ≠ 0xC0)
      (hlen : b.toNat ≤ maxLabelLength) (hfit : offset + 1 + b.toNat ≤ data.length)
      (rest : NameVia data hops (offset + 1 + b.toNat) labels behind) :
      NameVia data hops offset ((data.drop (offset + 1)).take b.toNat :: labels) behind
  | pointer {hops offset : ℕ} {hi lo : UInt8} {labels : List Bytes} {behind : ℕ}
      (h : data[offset]? = some hi) (hptr : hi.toNat &&& 0xC0 = 0xC0)
      (hlo : data[offset + 1]? = some lo)
      (rest : NameVia data hops (pointerTarget hi lo) labels behind) :
      NameVia data (hops + 1) offset labels (offset + 2)

/-- The limits of `parse_name`: on pointers, and on the characters of the text. -/
structure Limits (hops : ℕ) (labels : List Bytes) : Prop where
  hops : hops ≤ maxCompressionHops
  text : (textBehind [] labels).length ≤ maxNameLength

/-- A name at the offset that is within the limits of `parse_name` has at most 128 labels and
    pointers together. -/
def Shallow (data : Bytes) (pos : ℕ) : Prop :=
  ∀ hops labels behind, NameVia data hops pos labels behind → Limits hops labels →
    labels.length + hops ≤ maxCompressionHops

section Names

variable {data : Bytes} {offset behind hops : ℕ} {labels : List Bytes}

theorem length_nameOrRoot_le (name : List Char) :
    (nameOrRoot name).length ≤ maxNameLength ↔ name.length ≤ maxNameLength := by
  unfold nameOrRoot
  cases name with
  | nil => exact iff_of_true (by decide) (by decide)
  | cons c cs => rfl

theorem length_le_foldl_appendLabel (name : List Char) (labels : List Bytes) :
    name.length ≤ (labels.foldl appendLabel name).length := by
  induction labels generalizing name with
  | nil => exact Nat.le_refl _
  | cons l labels ih =>
    refine Nat.le_trans ?_ (ih (appendLabel name l))
    unfold appendLabel
    rw [List.length_append]
    split
    · exact Nat.le_add_right _ _
    · rw [List.length_append]
      omega

/-- A turn that ends with a name is at its root label. -/
theorem nameTurn_done {c : NameCursor} {r : List Char × ℕ}
    (h : nameTurn data c = .done (.ok r)) :
    data[c.offset]? = some 0 ∧ r = (nameOrRoot c.name, c.endOffset.getD (c.offset + 1)) := by
  rw [nameTurn] at h
  cases hb : data[c.offset]? with
  | none => simp [hb] at h
  | some b =>
    rw [hb] at h
    dsimp only at h
    by_cases hroot : b.toNat = 0
    · rw [if_pos hroot] at h
      have hzero : b = 0 := UInt8.toNat_inj.mp hroot
      exact ⟨by rw [hzero], (Except.ok.inj (NameTurn.done.inj h)).symm⟩
    rw [if_neg hroot] at h
    by_cases hptr : b.toNat &&& 0xC0 = 0xC0
    · rw [if_pos hptr] at h
      cases hlo : data[c.offset + 1]? with
      | none => simp [hlo] at h
      | some lo =>
        rw [hlo] at h
        dsimp only at h
        split at h <;> simp at h
    · rw [if_neg hptr] at h
      split_ifs at h <;> simp at h

/-- What the loop reads is a name within the limits. -/
theorem parseNameLoop_via {fuel : ℕ} {c : NameCursor} {text : List Char} (hc : CursorWithin c)
    (h : parseNameLoop data fuel c.name c.offset c.hops c.endOffset = .ok (text, behind)) :
    ∃ hops labels last, NameVia data hops c.offset labels last ∧
      c.hops + hops ≤ maxCompressionHops ∧
      (labels.foldl appendLabel c.name).length ≤ maxNameLength ∧
      text = textBehind c.name labels ∧ behind = c.endOffset.getD last := by
  induction fuel generalizing c with
  | zero => simp [parseNameLoop] at h
  | succ fuel ih =>
    rw [parseNameLoop_succ] at h
    cases hturn : nameTurn data c with
    | done result =>
      rw [hturn] at h
      dsimp only at h
      rw [h] at hturn
      obtain ⟨hroot, hresult⟩ := nameTurn_done hturn
      obtain ⟨rfl, rfl⟩ := Prod.mk.inj hresult
      exact ⟨0, [], c.offset + 1, .root hroot, hc.hops, hc.name, rfl, rfl⟩
    | next c' =>
      rw [hturn] at h
      obtain ⟨hops, labels, last, hname, hhops, htext, rfl, rfl⟩ := ih (nameTurn_next hturn hc).1 h
      obtain ⟨hi, lo, hb, hptr, hlo, -, rfl⟩ | ⟨b, hb, hne, hptr, hlen, hfit, -, rfl⟩ :=
        nameTurn_next_cases hturn
      · dsimp only at hhops
        exact ⟨hops + 1, labels, c.offset + 2, .pointer hb hptr hlo hname, by omega, htext, rfl,
          rfl⟩
      · exact ⟨hops, _ :: labels, last, .label hb hne hptr hlen hfit hname, hhops, htext, rfl,
          rfl⟩

/-- A name within the limits is read. -/
theorem NameVia.parseNameLoop (h : NameVia data hops offset labels behind) {fuel before : ℕ}
    {name : List Char} {endOffset : Option ℕ} (hhops : before + hops ≤ maxCompressionHops)
    (htext : (labels.foldl appendLabel name).length ≤ maxNameLength)
    (hfuel : labels.length + hops < fuel) :
    parseNameLoop data fuel name offset before endOffset =
      .ok (textBehind name labels, endOffset.getD behind) := by
  induction h generalizing fuel before name endOffset with
  | root hb =>
    obtain ⟨fuel, rfl⟩ : ∃ n, fuel = n + 1 := ⟨fuel - 1, by omega⟩
    rw [Resolved.parseNameLoop, hb]
    rfl
  | @label _ offset b labels _ hb hne hptr hlen hfit _ ih =>
    obtain ⟨fuel, rfl⟩ : ∃ n, fuel = n + 1 := ⟨fuel - 1, by omega⟩
    have hlonger := length_le_foldl_appendLabel
      (appendLabel name ((data.drop (offset + 1)).take b.toNat)) labels
    rw [List.foldl_cons] at htext
    rw [List.length_cons] at hfuel
    rw [Resolved.parseNameLoop, hb]
    dsimp only
    rw [if_neg hne, if_neg hptr, if_neg (Nat.not_lt.mpr hlen), if_neg (Nat.not_lt.mpr hfit),
      if_neg (by omega), ih hhops htext (by omega)]
    rfl
  | @pointer hops offset hi lo labels _ hb hptr hlo _ ih =>
    obtain ⟨fuel, rfl⟩ : ∃ n, fuel = n + 1 := ⟨fuel - 1, by omega⟩
    rw [Resolved.parseNameLoop, hb]
    dsimp only
    rw [if_neg (ne_zero_of_pointer hptr), if_pos hptr, hlo]
    dsimp only
    rw [if_neg (by omega), ih (by omega) htext (by omega)]
    rfl

/-- Each label has a character of the text. -/
theorem NameVia.length_le (h : NameVia data hops offset labels behind) (name : List Char) :
    name.length + labels.length ≤ (labels.foldl appendLabel name).length := by
  induction h generalizing name with
  | root _ => exact Nat.le_refl _
  | @label _ offset b labels _ _ hne _ _ hfit _ ih =>
    have hlonger := length_lt_appendLabel name (take_label_ne_nil hne hfit)
    have hrest := ih (appendLabel name ((data.drop (offset + 1)).take b.toNat))
    rw [List.length_cons, List.foldl_cons]
    omega
  | pointer _ _ _ _ ih => exact ih name

/-- `parse_name` takes the names within its limits. -/
theorem parseName_ok_iff {text : List Char} :
    parseName data offset = .ok (text, behind) ↔
      ∃ hops labels, NameVia data hops offset labels behind ∧ Limits hops labels ∧
        text = textBehind [] labels := by
  constructor
  · intro h
    have hstart : CursorWithin (.start offset) := ⟨Nat.zero_le _, Nat.zero_le _⟩
    obtain ⟨hops, labels, last, hname, hhops, htext, rfl, hbehind⟩ := parseNameLoop_via hstart h
    rw [NameCursor.start, Nat.zero_add] at hhops
    obtain rfl : behind = last := hbehind
    exact ⟨hops, labels, hname, ⟨hhops, (length_nameOrRoot_le _).mpr htext⟩, rfl⟩
  · rintro ⟨hops, labels, hname, hlimits, rfl⟩
    have hhops := hlimits.hops
    have htext := (length_nameOrRoot_le _).mp hlimits.text
    have hlabels := hname.length_le []
    rw [List.length_nil, Nat.zero_add] at hlabels
    exact hname.parseNameLoop (by omega) htext (by omega)

/-! ## Skipped names -/

/-- `skip_name` gets behind a name if its labels and pointers leave a turn for the root. -/
theorem skipNameLoop_of_nameVia (h : NameVia data hops offset labels behind) (turns : ℕ)
    (endPos : Option ℕ) :
    skipNameLoop data turns offset endPos =
      if labels.length + hops < turns then some (endPos.getD behind) else none := by
  induction h generalizing turns endPos with
  | root hb =>
    cases turns with
    | zero => rfl
    | succ turns =>
      rw [skipNameLoop, hb, List.length_nil, if_pos (by omega)]
      rfl
  | label hb hne hptr _ _ _ ih =>
    cases turns with
    | zero => rw [skipNameLoop, if_neg (Nat.not_lt_zero _)]
    | succ turns =>
      rw [skipNameLoop, hb]
      dsimp only
      rw [if_neg hne, if_neg hptr, ih, List.length_cons]
      refine if_congr ?_ rfl rfl
      omega
  | @pointer hops offset hi lo labels _ hb hptr hlo _ ih =>
    cases turns with
    | zero => rw [skipNameLoop, if_neg (Nat.not_lt_zero _)]
    | succ turns =>
      rw [skipNameLoop, hb]
      dsimp only
      rw [if_neg (ne_zero_of_pointer hptr), if_pos hptr, hlo]
      dsimp only
      rw [ih, Option.getD_some]
      refine if_congr ?_ rfl rfl
      omega

theorem skipName_of_nameVia (h : NameVia data hops offset labels behind) :
    skipName data offset =
      if labels.length + hops ≤ maxCompressionHops then some behind else none := by
  rw [skipName, skipNameLoop_of_nameVia h, Option.getD_none]
  exact if_congr Nat.lt_succ_iff rfl rfl

end Names

/-- `skip_name` gets behind every name that `parse_name` takes, and what `skip_name` rejects
    `parse_name` rejects. -/
structure SkipsAlike (data : Bytes) (pos : ℕ) : Prop where
  accepts : ∀ name behind, parseName data pos = .ok (name, behind) →
    skipName data pos = some behind
  rejects : skipName data pos = none → ∃ e, parseName data pos = .error e

theorem skipsAlike_iff (data : Bytes) (pos : ℕ) : SkipsAlike data pos ↔ Shallow data pos := by
  constructor
  · intro h hops labels behind hname hlimits
    have hskip := h.accepts _ _ (parseName_ok_iff.mpr ⟨hops, labels, hname, hlimits, rfl⟩)
    rw [skipName_of_nameVia hname] at hskip
    split at hskip
    · assumption
    · cases hskip
  · intro h
    have haccepts : ∀ name behind, parseName data pos = .ok (name, behind) →
        skipName data pos = some behind := by
      intro name behind hparse
      obtain ⟨hops, labels, hname, hlimits, -⟩ := parseName_ok_iff.mp hparse
      rw [skipName_of_nameVia hname, if_pos (h hops labels behind hname hlimits)]
    refine ⟨haccepts, fun hnone => ?_⟩
    cases hparse : parseName data pos with
    | error e => exact ⟨e, rfl⟩
    | ok r =>
      rw [haccepts r.1 r.2 hparse] at hnone
      cases hnone

/-! ## The walk over a message -/

/-- The offset behind a name, as the parser finds it. -/
def parsedEnd (data : Bytes) (pos : ℕ) : Option ℕ :=
  match parseName data pos with
  | .ok (_, behind) => some behind
  | .error _ => none

section Walk

variable (nameEnd : ℕ → Option ℕ) (data : Bytes)

/-- The offset behind the questions, with `nameEnd` for the names. -/
def questionsEnd : ℕ → ℕ → Option ℕ
  | 0, pos => some pos
  | n + 1, pos =>
    (nameEnd pos).bind fun pos =>
      if pos + 4 > data.length then none else questionsEnd n (pos + 4)

/-- The offsets of the fields behind the names of the records, as far as the records go. -/
def recordFields : ℕ → ℕ → Option (List ℕ)
  | 0, _ => some []
  | n + 1, pos =>
    (nameEnd pos).bind fun pos =>
      if pos + 10 > data.length then some []
      else (recordFields n (pos + 10 + be16 data (pos + 8))).map (pos :: ·)

/-- The records of a message. -/
def walkedRecords : Option (List ℕ) :=
  (questionsEnd nameEnd data (be16 data 4) headerSize).bind
    (recordFields nameEnd data (be16 data 6 + be16 data 8 + be16 data 10))

end Walk

/-- The lifetimes in the records at these fields. -/
def ttlsAt (data : Bytes) (fields : List ℕ) : List ℕ :=
  (fields.filter fun pos => be16 data pos ≠ optRecord).map fun pos => be32 data (pos + 4)

section Walks

variable {data : Bytes} {nameEnd nameEnd' : ℕ → Option ℕ}

theorem questionsEnd_skipName (n pos : ℕ) :
    questionsEnd (skipName data) data n pos = skipQuestions data n pos := by
  induction n generalizing pos with
  | zero => rfl
  | succ n ih =>
    rw [questionsEnd, skipQuestions]
    congr 1
    funext pos
    rw [ih]

theorem recordFields_skipName (n pos : ℕ) :
    (recordFields (skipName data) data n pos).map (ttlsAt data) = recordTtls data n pos := by
  induction n generalizing pos with
  | zero => rfl
  | succ n ih =>
    rw [recordFields, recordTtls]
    cases skipName data pos with
    | none => rfl
    | some pos =>
      simp only [Option.bind_some]
      split
      · rfl
      · rw [← ih, Option.map_map]
        by_cases hopt : be16 data pos = optRecord
        · rw [if_pos hopt]
          congr 1
          funext fields
          rw [Function.comp_apply, ttlsAt, List.filter_cons_of_neg (by simpa using hopt), ttlsAt]
        · rw [if_neg hopt, Option.map_map]
          congr 1
          funext fields
          rw [Function.comp_apply, ttlsAt, List.filter_cons_of_pos (by simpa using hopt),
            List.map_cons]
          rfl

/-- `extract_min_ttl` reads the lifetimes of the records that `skip_name` leads to. -/
theorem extractMinTtl_of_walked {fields : List ℕ} (hheader : headerSize ≤ data.length)
    (hwalk : walkedRecords (skipName data) data = some fields) :
    extractMinTtl data = (ttlsAt data fields).min? := by
  obtain ⟨pos, hpos, hfields⟩ := Option.bind_eq_some_iff.mp hwalk
  rw [extractMinTtl_eq, responseTtls, if_neg (Nat.not_lt.mpr hheader)]
  dsimp only
  split
  · rename_i hnone
    rw [hnone] at hfields
    rw [← Option.some.inj hfields]
    rfl
  · rw [← questionsEnd_skipName, hpos, Option.bind_some, ← recordFields_skipName, hfields]
    rfl

/-- A walk goes on as it did when the names end where they did. -/
theorem walkedRecords_mono (h : ∀ pos e, nameEnd pos = some e → nameEnd' pos = some e)
    {fields : List ℕ} (hwalk : walkedRecords nameEnd data = some fields) :
    walkedRecords nameEnd' data = some fields := by
  have hquestions : ∀ n pos e, questionsEnd nameEnd data n pos = some e →
      questionsEnd nameEnd' data n pos = some e := by
    intro n
    induction n with
    | zero => exact fun pos e he => he
    | succ n ih =>
      intro pos e he
      obtain ⟨behind, hname, hrest⟩ := Option.bind_eq_some_iff.mp he
      rw [questionsEnd, h pos behind hname, Option.bind_some]
      split at hrest
      · cases hrest
      · rename_i hfit
        rw [if_neg hfit]
        exact ih _ e hrest
  have hrecords : ∀ n pos fields, recordFields nameEnd data n pos = some fields →
      recordFields nameEnd' data n pos = some fields := by
    intro n
    induction n with
    | zero => exact fun pos fields hfields => hfields
    | succ n ih =>
      intro pos fields hfields
      obtain ⟨behind, hname, hrest⟩ := Option.bind_eq_some_iff.mp hfields
      rw [recordFields, h pos behind hname, Option.bind_some]
      split at hrest
      · rename_i hshort
        rw [if_pos hshort]
        exact hrest
      · rename_i hfit
        obtain ⟨rest, hnext, rfl⟩ := Option.map_eq_some_iff.mp hrest
        rw [if_neg hfit, ih _ rest hnext]
        rfl
  obtain ⟨pos, hpos, hfields⟩ := Option.bind_eq_some_iff.mp hwalk
  rw [walkedRecords, hquestions _ _ pos hpos, Option.bind_some]
  exact hrecords _ pos fields hfields

end Walks

/-- Where the parser's names lead through all records, so do those that are skipped, and the least
    lifetime is the one of these records. -/
def WalksAlike (data : Bytes) : Prop :=
  headerSize ≤ data.length → ∀ fields, walkedRecords (parsedEnd data) data = some fields →
    walkedRecords (skipName data) data = some fields ∧
      extractMinTtl data = (ttlsAt data fields).min?

/-- At an offset `skip_name` agrees with `parse_name` exactly if no name there that `parse_name`
    takes goes through more than 128 labels and pointers together; and they agree at all offsets
    of a message and on the walk over its records exactly if this holds at all offsets. -/
theorem skipName_agrees_iff (data : Bytes) :
    (∀ pos, SkipsAlike data pos ↔ Shallow data pos) ∧
    (((∀ pos, SkipsAlike data pos) ∧ WalksAlike data) ↔ ∀ pos, Shallow data pos) := by
  refine ⟨skipsAlike_iff data, fun h pos => (skipsAlike_iff data pos).mp (h.1 pos), fun h => ?_⟩
  have halike := fun pos => (skipsAlike_iff data pos).mpr (h pos)
  refine ⟨halike, fun hheader fields hparsed => ?_⟩
  have hends : ∀ pos e, parsedEnd data pos = some e → skipName data pos = some e := by
    intro pos e he
    rw [parsedEnd] at he
    split at he
    · rename_i name behind hparse
      rw [← Option.some.inj he]
      exact (halike pos).accepts name behind hparse
    · cases he
  have hskipped := walkedRecords_mono hends hparsed
  exact ⟨hskipped, extractMinTtl_of_walked hheader hskipped⟩

/-- 128 pointers, each to the next one, and a label behind the last. -/
def longChain : Bytes :=
  ((List.range 128).flatMap fun i =>
    [UInt8.ofNat (0xC0 + (2 * i + 2) / 256), UInt8.ofNat (2 * i + 2)]) ++ [1, 0x61, 0]

/-- `parse_name` reads the name `a`, and `skip_name` gives up. -/
theorem long_chain_is_not_skipped : ¬ ∀ data pos, SkipsAlike data pos := by
  intro h
  have hparse : parseName longChain 0 = .ok (['a'], 2) := by
    set_option maxRecDepth 20000 in decide
  have hskip : skipName longChain 0 = none := by set_option maxRecDepth 20000 in decide
  have hsome := (h longChain 0).accepts _ _ hparse
  rw [hskip] at hsome
  cases hsome

end OxidizedSystemd.Resolved
