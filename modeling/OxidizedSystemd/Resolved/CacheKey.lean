import OxidizedSystemd.Resolved.Name
import Mathlib.Logic.Relation

/-!
# Cache keys of queries

Model of `CacheKey::from_query` (`resolved/src/dns.rs`, lines 889–919), and what two
queries with one key have in common.

* `fromQuery_eq`: the key is the text of the labels in lower case, with type and class.
* `sameSpelling_iff`: two names have one text exactly if they are spellings of each
  other, that is, if dots of labels can be turned into boundaries of labels and bytes
  into their escapes so that only the case of letters is left.
* `fromQuery_injective_iff`: where keys tell two questions apart.
* `sameQuestion_of_key`: they do among names without dots and backslashes in their labels.
-/

namespace OxidizedSystemd.Resolved

open OxidizedSystemd.Lib

/-- `CacheKey` (lines 878–887). -/
structure CacheKey where
  name : List Char
  qtype : ℕ
  qclass : ℕ
  deriving DecidableEq, Repr

/-- `CacheKey::new` (lines 890–896). -/
def CacheKey.new (name : List Char) (qtype qclass : ℕ) : CacheKey :=
  { name := toLowercase name, qtype, qclass }

/-- `CacheKey::from_query` (lines 900–919). -/
def fromQuery (query : Bytes) : Option CacheKey :=
  if query.length < headerSize then none
  else if be16 query 4 = 0 then none
  else
    match parseName query headerSize with
    | .error _ => none
    | .ok (name, pos) =>
      if pos + 4 > query.length then none
      else some (CacheKey.new name (be16 query pos) (be16 query (pos + 2)))

/-! ## Questions -/

/-- The first question of a message: the labels of its name, its type and its class. -/
def IsQuestion (query : Bytes) (labels : List Bytes) (qtype qclass : ℕ) : Prop :=
  ∃ pos, NameAt query headerSize labels pos ∧ qtype = be16 query pos ∧
    qclass = be16 query (pos + 2)

/-- `u8::to_ascii_lowercase`. -/
def asciiLower (b : UInt8) : UInt8 := if 0x41 ≤ b ∧ b ≤ 0x5A then b + 0x20 else b

/-- The labels are the same byte for byte up to ASCII case. -/
def SameLabels (labels labels' : List Bytes) : Prop :=
  labels.map (List.map asciiLower) = labels'.map (List.map asciiLower)

instance (labels labels' : List Bytes) : Decidable (SameLabels labels labels') :=
  inferInstanceAs (Decidable (_ = _))

/-- A byte of a label as the bytes of its text. -/
def escapeText (b : UInt8) : Bytes :=
  if b < 0x80 then [b]
  else [0x5C, 0x30 + b / 100, 0x30 + b / 10 % 10, 0x30 + b % 10]

/-- Another spelling of a name: a dot of a label becomes the end of the label, a byte that
    is not ASCII becomes its escape, a letter becomes small, and the root becomes the
    label `.`. -/
inductive Respell : List Bytes → List Bytes → Prop where
  | dot (before after : List Bytes) (a b : Bytes) :
      Respell (before ++ (a ++ 0x2E :: b) :: after) (before ++ a :: b :: after)
  | escape (before after : List Bytes) (a b : Bytes) (c : UInt8) (h : 0x80 ≤ c) :
      Respell (before ++ (a ++ c :: b) :: after) (before ++ (a ++ escapeText c ++ b) :: after)
  | lower (before after : List Bytes) (a b : Bytes) (c : UInt8) :
      Respell (before ++ (a ++ c :: b) :: after) (before ++ (a ++ asciiLower c :: b) :: after)
  | root : Respell [] [[0x2E]]

/-- The names are spellings of each other. -/
def SameSpelling : List Bytes → List Bytes → Prop := Relation.EqvGen Respell

/-! ## The text of a name -/

/-- A label as the bytes of its text, in lower case. -/
def labelText (label : Bytes) : Bytes := (label.flatMap escapeText).map asciiLower

/-- The text of a name, in lower case. -/
def nameText : List Bytes → Bytes
  | [] => [0x2E]
  | label :: labels => labelText label ++ labels.flatMap fun l => 0x2E :: labelText l

theorem labelText_append (a b : Bytes) : labelText (a ++ b) = labelText a ++ labelText b := by
  rw [labelText, List.flatMap_append, List.map_append, labelText, labelText]

theorem labelText_cons (b : UInt8) (bs : Bytes) :
    labelText (b :: bs) = labelText [b] ++ labelText bs :=
  labelText_append [b] bs

theorem labelText_singleton (b : UInt8) : labelText [b] = (escapeText b).map asciiLower := by
  rw [labelText, List.flatMap_singleton]

/-- The text of a byte. An escape is ASCII and has no letters and no dot, so it is its own text. -/
theorem labelText_byte : ∀ b : UInt8,
    labelText (escapeText b) = labelText [b] ∧ labelText [asciiLower b] = labelText [b] ∧
      (0x80 ≤ b → labelText [b] = escapeText b) ∧ (0x2E ∈ labelText [b] → b = 0x2E) :=
  forall_byte (by set_option maxRecDepth 20000 in decide)

theorem labelText_escapeText (b : UInt8) : labelText (escapeText b) = labelText [b] :=
  (labelText_byte b).1

theorem labelText_asciiLower (b : UInt8) : labelText [asciiLower b] = labelText [b] :=
  (labelText_byte b).2.1

theorem nameText_append (before : List Bytes) (label : Bytes) (after : List Bytes) :
    nameText (before ++ label :: after) =
      (before.flatMap fun l => labelText l ++ [0x2E]) ++ nameText (label :: after) := by
  induction before with
  | nil => rfl
  | cons l before ih =>
    rw [List.cons_append, nameText, List.flatMap_cons, List.append_assoc, List.append_assoc, ← ih]
    cases before with
    | nil => rfl
    | cons m before => rfl

theorem nameText_of_respell {labels labels' : List Bytes} (h : Respell labels labels') :
    nameText labels = nameText labels' := by
  cases h with
  | dot before after a b =>
    rw [nameText_append, nameText_append]
    congr 1
    rw [nameText, nameText, List.flatMap_cons, ← List.append_assoc, labelText_append,
      labelText_cons]
    rfl
  | escape before after a b c hc =>
    rw [nameText_append, nameText_append, nameText, nameText, labelText_append, labelText_cons,
      labelText_append, labelText_append, labelText_escapeText]
    simp only [List.append_assoc]
  | lower before after a b c =>
    rw [nameText_append, nameText_append, nameText, nameText, labelText_append, labelText_cons,
      labelText_append, labelText_cons (asciiLower c), labelText_asciiLower]
  | root => decide

theorem nameText_of_sameSpelling {labels labels' : List Bytes} (h : SameSpelling labels labels') :
    nameText labels = nameText labels' := by
  induction h with
  | rel _ _ h => exact nameText_of_respell h
  | refl _ => rfl
  | symm _ _ _ ih => exact ih.symm
  | trans _ _ _ _ _ ih ih' => exact ih.trans ih'

/-- The rest of a label may be written out, whatever stands before it. -/
theorem sameSpelling_labelText (before after : List Bytes) (a b : Bytes) :
    SameSpelling (before ++ (a ++ b) :: after) (before ++ (a ++ labelText b) :: after) := by
  induction b generalizing a with
  | nil => exact Relation.EqvGen.refl _
  | cons c b ih =>
    have hrest := ih (a ++ labelText [c])
    rw [List.append_assoc, List.append_assoc, ← labelText_cons] at hrest
    refine Relation.EqvGen.trans _ _ _ (Relation.EqvGen.rel _ _ ?_) hrest
    by_cases hc : 0x80 ≤ c
    · have htext : labelText [c] = escapeText c := (labelText_byte c).2.2.1 hc
      rw [htext, ← List.append_assoc]
      exact Respell.escape before after a b c hc
    · have htext : labelText [c] = [asciiLower c] := by
        rw [labelText_singleton, escapeText, if_pos (UInt8.not_le.mp hc)]
        rfl
      rw [htext]
      exact Respell.lower before after a b c

/-- Every label may be written out. -/
theorem sameSpelling_map_labelText (before labels : List Bytes) :
    SameSpelling (before ++ labels) (before ++ labels.map labelText) := by
  induction labels generalizing before with
  | nil => exact Relation.EqvGen.refl _
  | cons label labels ih =>
    have hrest := ih (before ++ [labelText label])
    rw [List.append_assoc, List.append_assoc] at hrest
    exact Relation.EqvGen.trans _ _ _ (sameSpelling_labelText before labels [] label) hrest

/-- Labels may be joined to one. -/
theorem sameSpelling_join (label : Bytes) (labels : List Bytes) :
    SameSpelling (label :: labels) [label ++ labels.flatMap fun l => 0x2E :: l] := by
  induction labels generalizing label with
  | nil =>
    rw [List.flatMap_nil, List.append_nil]
    exact Relation.EqvGen.refl _
  | cons l labels ih =>
    have hrest := ih (label ++ 0x2E :: l)
    rw [List.append_assoc] at hrest
    refine Relation.EqvGen.trans _ _ _ (Relation.EqvGen.symm _ _ (Relation.EqvGen.rel _ _ ?_)) hrest
    exact Respell.dot [] labels label l

/-- Every name is a spelling of the one label that its text is. -/
theorem sameSpelling_nameText (labels : List Bytes) : SameSpelling labels [nameText labels] := by
  cases labels with
  | nil => exact Relation.EqvGen.rel _ _ Respell.root
  | cons label labels =>
    have hjoin := sameSpelling_join (labelText label) (labels.map labelText)
    rw [List.flatMap_map] at hjoin
    exact Relation.EqvGen.trans _ _ _ (sameSpelling_map_labelText [] (label :: labels)) hjoin

theorem sameSpelling_iff (labels labels' : List Bytes) :
    SameSpelling labels labels' ↔ nameText labels = nameText labels' := by
  constructor
  · exact nameText_of_sameSpelling
  · intro h
    have hleft := sameSpelling_nameText labels
    rw [h] at hleft
    exact Relation.EqvGen.trans _ _ _ hleft
      (Relation.EqvGen.symm _ _ (sameSpelling_nameText labels'))

/-! ## The key of a question -/

/-- The characters of ASCII bytes. -/
def asciiChars (bs : Bytes) : List Char := bs.map fun b => Char.ofNat b.toNat

theorem asciiChars_injective : Function.Injective asciiChars := by
  apply List.map_injective_iff.mpr
  intro b c h
  have htoNat := congrArg Char.toNat h
  rw [charOfNat_toNat b.toNat_lt, charOfNat_toNat c.toNat_lt] at htoNat
  exact UInt8.toNat_inj.mp htoNat

theorem toLowercase_append (a b : List Char) :
    toLowercase (a ++ b) = toLowercase a ++ toLowercase b := List.map_append

theorem toLowercase_escapeByte :
    ∀ b : UInt8, toLowercase (escapeByte b) = asciiChars (labelText [b]) :=
  forall_byte (by set_option maxRecDepth 20000 in decide)

theorem toLowercase_label (label : Bytes) :
    toLowercase (label.flatMap escapeByte) = asciiChars (labelText label) := by
  induction label with
  | nil => rfl
  | cons b bs ih =>
    rw [List.flatMap_cons, toLowercase_append, ih, toLowercase_escapeByte, labelText_cons b bs,
      asciiChars, asciiChars, asciiChars, List.map_append]

theorem foldl_appendLabel {name : List Char} (h : name ≠ []) (labels : List Bytes) :
    labels.foldl appendLabel name =
      name ++ labels.flatMap fun l => '.' :: l.flatMap escapeByte := by
  induction labels generalizing name with
  | nil => simp
  | cons l labels ih =>
    have hfalse : name.isEmpty = false := by simpa using h
    have hne : appendLabel name l ≠ [] := by simp [appendLabel, h]
    rw [List.foldl_cons, ih hne, appendLabel, hfalse, List.flatMap_cons]
    simp

theorem toLowercase_textBehind {labels : List Bytes} (h : ∀ l ∈ labels, l ≠ []) :
    toLowercase (textBehind [] labels) = asciiChars (nameText labels) := by
  cases labels with
  | nil => decide
  | cons l labels =>
    have hlabel : appendLabel [] l = l.flatMap escapeByte := rfl
    have hne : appendLabel [] l ≠ [] := by
      have := length_lt_appendLabel [] (h l List.mem_cons_self)
      exact List.ne_nil_of_length_pos (Nat.zero_lt_of_lt this)
    have hroot : ∀ rest, nameOrRoot (appendLabel [] l ++ rest) = appendLabel [] l ++ rest := by
      intro rest
      unfold nameOrRoot
      rw [if_neg]
      simp [hne]
    rw [textBehind, List.foldl_cons, foldl_appendLabel hne, hroot, toLowercase_append, hlabel,
      toLowercase_label, nameText, asciiChars, asciiChars, List.map_append]
    congr 1
    rw [toLowercase, List.map_flatMap, List.map_flatMap]
    apply List.flatMap_congr
    intro m hm
    have hm' := toLowercase_label m
    rw [toLowercase, asciiChars] at hm'
    rw [List.map_cons, List.map_cons, hm']
    rfl

/-- The key of a query is the text of its labels, with its type and class. -/
theorem fromQuery_eq {query : Bytes} {labels : List Bytes} {qtype qclass : ℕ}
    (hq : IsQuestion query labels qtype qclass) (h : fromQuery query ≠ none) :
    fromQuery query =
      some { name := asciiChars (nameText labels), qtype := qtype, qclass := qclass } := by
  obtain ⟨pos, hname, rfl, rfl⟩ := hq
  unfold fromQuery at h ⊢
  split_ifs at h ⊢
  · exact absurd rfl h
  · exact absurd rfl h
  · cases hparse : parseName query headerSize with
    | error e => simp [hparse] at h
    | ok r =>
      obtain ⟨text, behind⟩ := r
      rw [hparse] at h
      dsimp only at h ⊢
      obtain ⟨labels', hname', htext⟩ := parseName_ok hparse
      obtain ⟨rfl, rfl⟩ := nameAt_unique hname hname'
      split_ifs at h ⊢
      · exact absurd rfl h
      rw [htext, CacheKey.new, toLowercase_textBehind (ne_nil_of_nameAt hname)]

/-! ## When keys tell questions apart -/

section TwoQueries

variable {query query' : Bytes} {labels labels' : List Bytes} {qtype qtype' qclass qclass' : ℕ}

theorem fromQuery_eq_iff (hq : IsQuestion query labels qtype qclass)
    (hq' : IsQuestion query' labels' qtype' qclass') (h : fromQuery query ≠ none)
    (h' : fromQuery query' ≠ none) :
    fromQuery query = fromQuery query' ↔
      SameSpelling labels labels' ∧ qtype = qtype' ∧ qclass = qclass' := by
  rw [fromQuery_eq hq h, fromQuery_eq hq' h', Option.some_inj, CacheKey.mk.injEq,
    asciiChars_injective.eq_iff, sameSpelling_iff]

/-- Two queries with one key ask the same question exactly if their names are not
    different names of one spelling, for the same type and class. -/
theorem fromQuery_injective_iff (hq : IsQuestion query labels qtype qclass)
    (hq' : IsQuestion query' labels' qtype' qclass') (h : fromQuery query ≠ none)
    (h' : fromQuery query' ≠ none) :
    (fromQuery query = fromQuery query' →
      SameLabels labels labels' ∧ qtype = qtype' ∧ qclass = qclass') ↔
    (SameSpelling labels labels' → qtype = qtype' → qclass = qclass' →
      SameLabels labels labels') := by
  rw [fromQuery_eq_iff hq hq' h h']
  constructor
  · intro himp hspelling htype hclass
    exact (himp ⟨hspelling, htype, hclass⟩).1
  · intro himp hall
    exact ⟨himp hall.1 hall.2.1 hall.2.2, hall.2⟩

end TwoQueries

/-- A query for the address of the name whose only label is `a.b`. -/
def dottedQuery : Bytes :=
  [0x12, 0x34, 1, 0, 0, 1, 0, 0, 0, 0, 0, 0, 3, 0x61, 0x2E, 0x62, 0, 0, 1, 0, 1]

/-- A query for the address of the name with the labels `a` and `b`. -/
def undottedQuery : Bytes :=
  [0x12, 0x34, 1, 0, 0, 1, 0, 0, 0, 0, 0, 0, 1, 0x61, 1, 0x62, 0, 0, 1, 0, 1]

theorem isQuestion_dottedQuery : IsQuestion dottedQuery [[0x61, 0x2E, 0x62]] 1 1 := by
  refine ⟨17, ?_, by decide, by decide⟩
  have hroot : NameAt dottedQuery 16 [] 17 := NameAt.root (by decide)
  exact NameAt.label (b := 3) (by decide) (by decide) (by decide) (by decide) (by decide) hroot

theorem isQuestion_undottedQuery : IsQuestion undottedQuery [[0x61], [0x62]] 1 1 := by
  refine ⟨17, ?_, by decide, by decide⟩
  have hroot : NameAt undottedQuery 16 [] 17 := NameAt.root (by decide)
  have hb : NameAt undottedQuery 14 [[0x62]] 17 :=
    NameAt.label (b := 1) (by decide) (by decide) (by decide) (by decide) (by decide) hroot
  exact NameAt.label (b := 1) (by decide) (by decide) (by decide) (by decide) (by decide) hb

/-- The queries ask for different names and have one key. -/
theorem fromQuery_not_injective :
    ¬ ∀ (query query' : Bytes) (labels labels' : List Bytes) (qtype qtype' qclass qclass' : ℕ),
      IsQuestion query labels qtype qclass → IsQuestion query' labels' qtype' qclass' →
      fromQuery query ≠ none → fromQuery query = fromQuery query' →
      SameLabels labels labels' ∧ qtype = qtype' ∧ qclass = qclass' := by
  intro h
  have hsame := (h _ _ _ _ _ _ _ _ isQuestion_dottedQuery isQuestion_undottedQuery
    (by decide) (by decide)).1
  exact absurd hsame (by decide)

/-- At these queries neither side holds: the names are two spellings. -/
theorem fromQuery_injective_iff_dotted :
    (fromQuery dottedQuery = fromQuery undottedQuery →
      SameLabels [[0x61, 0x2E, 0x62]] [[0x61], [0x62]] ∧ 1 = 1 ∧ 1 = 1) ↔
    (SameSpelling [[0x61, 0x2E, 0x62]] [[0x61], [0x62]] → 1 = 1 → 1 = 1 →
      SameLabels [[0x61, 0x2E, 0x62]] [[0x61], [0x62]]) :=
  fromQuery_injective_iff isQuestion_dottedQuery isQuestion_undottedQuery (by decide)
    (by decide)

/-! ## Plain names -/

/-- Labels without a dot or a backslash, as host names have them. -/
def PlainLabels (labels : List Bytes) : Prop := ∀ l ∈ labels, l ≠ [] ∧ 0x2E ∉ l ∧ 0x5C ∉ l

theorem dot_not_mem_labelText {label : Bytes} (h : 0x2E ∉ label) : 0x2E ∉ labelText label := by
  induction label with
  | nil => exact h
  | cons b bs ih =>
    rw [List.mem_cons, not_or] at h
    rw [labelText_cons, List.mem_append, not_or]
    exact ⟨fun hmem => h.1 ((labelText_byte b).2.2.2 hmem).symm, ih h.2⟩

/-- The byte behind the text of one: an escape is three digits. -/
def unescapeText : Bytes → UInt8
  | [_, a, b, c] => (a - 0x30) * 100 + (b - 0x30) * 10 + (c - 0x30)
  | bs => bs.headD 0

/-- The byte of a label is known from its text, up to case, whatever comes behind. -/
theorem labelText_cons_inj {b b' : UInt8} {bs bs' : Bytes} (h : b ≠ 0x5C) (h' : b' ≠ 0x5C)
    (heq : labelText (b :: bs) = labelText (b' :: bs')) :
    asciiLower b = asciiLower b' ∧ labelText bs = labelText bs' := by
  have hshape : ∀ b : UInt8, b ≠ 0x5C →
      ((labelText [b]).length = if (labelText [b]).headD 0 = 0x5C then 4 else 1) ∧
        unescapeText (labelText [b]) = asciiLower b ∧ labelText [b] ≠ [] :=
    forall_byte (by set_option maxRecDepth 20000 in decide)
  obtain ⟨hlength, hback, hne⟩ := hshape b h
  obtain ⟨hlength', hback', hne'⟩ := hshape b' h'
  rw [labelText_cons b, labelText_cons b'] at heq
  have hhead : (labelText [b]).headD 0 = (labelText [b']).headD 0 := by
    obtain ⟨x, xs, hx⟩ := List.exists_cons_of_ne_nil hne
    obtain ⟨y, ys, hy⟩ := List.exists_cons_of_ne_nil hne'
    rw [hx, hy] at heq ⊢
    exact (List.cons.inj heq).1
  obtain ⟨hfirst, hrest⟩ := List.append_inj heq (by rw [hlength, hlength', hhead])
  exact ⟨by rw [← hback, ← hback', hfirst], hrest⟩

theorem labelText_inj {l l' : Bytes} (h : 0x5C ∉ l) (h' : 0x5C ∉ l')
    (heq : labelText l = labelText l') : l.map asciiLower = l'.map asciiLower := by
  have hne : ∀ (b : UInt8) (bs : Bytes), labelText (b :: bs) ≠ [] := by
    intro b bs hnil
    rw [labelText, List.flatMap_cons, List.map_append, List.append_eq_nil_iff] at hnil
    unfold escapeText at hnil
    split at hnil <;> simp at hnil
  induction l generalizing l' with
  | nil =>
    cases l' with
    | nil => rfl
    | cons b' bs' => exact absurd heq.symm (hne b' bs')
  | cons b bs ih =>
    cases l' with
    | nil => exact absurd heq (hne b bs)
    | cons b' bs' =>
      rw [List.mem_cons, not_or] at h h'
      obtain ⟨hb, hbs⟩ := labelText_cons_inj (Ne.symm h.1) (Ne.symm h'.1) heq
      rw [List.map_cons, List.map_cons, hb, ih h.2 h'.2 hbs]

theorem nameText_eq_intercalate {labels : List Bytes} (h : labels ≠ []) :
    nameText labels = [0x2E].intercalate (labels.map labelText) := by
  induction labels with
  | nil => exact absurd rfl h
  | cons l labels ih =>
    cases labels with
    | nil => simp [nameText]
    | cons m labels =>
      rw [List.map_cons, List.intercalate_cons_of_ne_nil (by simp), ← ih (by simp)]
      simp [nameText]

/-- The labels of a plain name, as its text has them. -/
theorem splitOn_nameText {labels : List Bytes} (h : PlainLabels labels) (hne : labels ≠ []) :
    (nameText labels).splitOn 0x2E = labels.map labelText := by
  rw [nameText_eq_intercalate hne, List.splitOn_intercalate]
  · intro l hl
    obtain ⟨m, hm, rfl⟩ := List.mem_map.mp hl
    exact dot_not_mem_labelText (h m hm).2.1
  · simpa using hne

theorem nameText_ne_root {labels : List Bytes} (h : PlainLabels labels) (hne : labels ≠ []) :
    nameText labels ≠ nameText [] := by
  intro heq
  have hsplit := splitOn_nameText h hne
  rw [heq] at hsplit
  -- The text of the root has an empty label, and a plain name has none.
  have hmem : [] ∈ labels.map labelText := by
    rw [← hsplit]
    decide
  obtain ⟨l, hl, hnil⟩ := List.mem_map.mp hmem
  have hlower := labelText_inj (h l hl).2.2 (List.not_mem_nil : (0x5C : UInt8) ∉ []) hnil
  exact (h l hl).1 (List.map_eq_nil_iff.mp hlower)

/-- Plain names of one spelling are the same name. -/
theorem sameLabels_of_sameSpelling {labels labels' : List Bytes} (h : PlainLabels labels)
    (h' : PlainLabels labels') (hspelling : SameSpelling labels labels') :
    SameLabels labels labels' := by
  rw [sameSpelling_iff] at hspelling
  by_cases hne : labels = []
  · by_cases hne' : labels' = []
    · rw [hne, hne']
      rfl
    · rw [hne] at hspelling
      exact absurd hspelling.symm (nameText_ne_root h' hne')
  · by_cases hne' : labels' = []
    · rw [hne'] at hspelling
      exact absurd hspelling (nameText_ne_root h hne)
    · have hmaps : labels.map labelText = labels'.map labelText := by
        rw [← splitOn_nameText h hne, hspelling, splitOn_nameText h' hne']
      clear hspelling hne hne'
      unfold SameLabels
      induction labels generalizing labels' with
      | nil => rw [(List.map_eq_nil_iff.mp hmaps.symm)]
      | cons l labels ih =>
        obtain ⟨m, ms, rfl, hlm, hrest⟩ := List.map_eq_cons_iff.mp hmaps.symm
        rw [List.map_cons, List.map_cons,
          labelText_inj (h l List.mem_cons_self).2.2 (h' m List.mem_cons_self).2.2 hlm.symm,
          ih (fun x hx => h x (List.mem_cons_of_mem l hx))
            (fun x hx => h' x (List.mem_cons_of_mem m hx)) hrest.symm]

/-- The name that a query asks for is a host name. -/
def HostName (query : Bytes) : Prop :=
  ∀ labels qtype qclass, IsQuestion query labels qtype qclass → PlainLabels labels

/-- The queries ask for the same name up to ASCII case, and for the same type and class. -/
def SameQuestion (query query' : Bytes) : Prop :=
  ∃ labels labels' qtype qclass, IsQuestion query labels qtype qclass ∧
    IsQuestion query' labels' qtype qclass ∧ SameLabels labels labels'

theorem exists_isQuestion {query : Bytes} (h : fromQuery query ≠ none) :
    ∃ labels qtype qclass, IsQuestion query labels qtype qclass := by
  unfold fromQuery at h
  split_ifs at h
  · exact absurd rfl h
  · exact absurd rfl h
  · cases hparse : parseName query headerSize with
    | error e => simp [hparse] at h
    | ok r =>
      obtain ⟨labels, hname, -⟩ := parseName_ok hparse
      exact ⟨labels, _, _, r.2, hname, rfl, rfl⟩

/-- Queries for host names have one key only if they ask the same question. -/
theorem sameQuestion_of_key {query query' : Bytes} (hhost : HostName query)
    (hhost' : HostName query') (h : fromQuery query ≠ none)
    (heq : fromQuery query = fromQuery query') : SameQuestion query query' := by
  obtain ⟨labels, qtype, qclass, hq⟩ := exists_isQuestion h
  obtain ⟨labels', qtype', qclass', hq'⟩ := exists_isQuestion (heq ▸ h)
  obtain ⟨hspelling, rfl, rfl⟩ := (fromQuery_eq_iff hq hq' h (heq ▸ h)).mp heq
  exact ⟨labels, labels', qtype, qclass, hq, hq',
    sameLabels_of_sameSpelling (hhost _ _ _ hq) (hhost' _ _ _ hq') hspelling⟩

theorem hostName_undottedQuery : HostName undottedQuery := by
  rintro labels qtype qclass ⟨_, hname, -⟩
  obtain ⟨_, hname', -⟩ := isQuestion_undottedQuery
  rw [(nameAt_unique hname hname').1]
  simp [PlainLabels]

end OxidizedSystemd.Resolved
