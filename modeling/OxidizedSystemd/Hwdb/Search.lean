import OxidizedSystemd.Hwdb.Lookup
import Mathlib.Logic.Relation
import Mathlib.Order.Filter.AtTopBot.Basic
import Mathlib.Order.Filter.Finite

/-!
# What a lookup finds in a trie

The pattern of a node is what the prefixes and edges on the way to it spell. A lookup collects the
properties of the nodes whose patterns match the modalias, and of those that match when a `[` on the
way is taken for that letter.

* `trieFnmatch_spec`: the search below a glob character finds the nodes that match.
* `trieSearch_spec`: the walk finds what matches anywhere on its way.
* `collected_naive_iff`: when these are the nodes that match.
-/

namespace OxidizedSystemd.Hwdb

open Lib Filter
open Relation (ReflTransGen)

/-! ## Tries -/

/-- A node whose entries are in the file, with children in the order of their edges, which are
    tries. -/
inductive IsTrie (db : Hwdb) : ℕ → Prop
  | node {off : ℕ} {node : TrieNode} (hnode : nodeAt db.data off = some node)
      (hentries : db.valueOffset off node node.valuesCount ≤ db.data.length)
      (hsorted : db.SortedChildren off node)
      (hchildren : ∀ child ∈ db.childrenAt off node, IsTrie db child.childOff) : IsTrie db off

/-- The node at `off'` is below the one at `off`, and `pat` is spelled from the prefix of the one
    to the prefix of the other. -/
inductive PatternTo (db : Hwdb) : ℕ → Bytes → ℕ → Prop
  | here {off : ℕ} {node : TrieNode} (hnode : nodeAt db.data off = some node) :
      PatternTo db off (db.nodePrefix node) off
  | child {off off' : ℕ} {node : TrieNode} {child : ChildEntry} {pat : Bytes}
      (hnode : nodeAt db.data off = some node) (hchild : child ∈ db.childrenAt off node)
      (hrest : PatternTo db child.childOff pat off') :
      PatternTo db off (db.nodePrefix node ++ edge child.c ++ pat) off'

/-- A property of a node below `off` whose pattern, from `start` on and behind `buf`, matches. -/
def Matched (db : Hwdb) (off start : ℕ) (buf text : Bytes) (kv : String × String) : Prop :=
  ∃ pat off' node, PatternTo db off pat off' ∧ fnmatch (buf ++ pat.drop start) text = true ∧
    nodeAt db.data off' = some node ∧ kv ∈ db.valuesAt off' node

/-- The naive lookup: a property of a node below `off` whose pattern matches the text. -/
def Naive (db : Hwdb) (off : ℕ) (text : Bytes) (kv : String × String) : Prop :=
  db.Matched off 0 [] text kv

section Node

variable {db : Hwdb} {off : ℕ} {node : TrieNode} {text buf : Bytes} {kv : String × String}

theorem off_lt_of_nodeAt (h : nodeAt db.data off = some node) : off + 24 < 2 ^ 64 := by
  unfold nodeAt at h
  have hlen := db.length_lt
  split_ifs at h with hshort
  omega

/-- Entries that are in the file have offsets that fit. -/
theorem fits_of_entries (hentries : db.valueOffset off node node.valuesCount ≤ db.data.length) :
    db.ChildrenFit off node ∧ db.ValuesFit off node := by
  have hlen := db.length_lt
  unfold valueOffset at hentries
  have hbase : db.childOffset off node.childrenCount.toNat < 2 ^ 64 := by omega
  refine ⟨⟨?_, fun i hi => ?_⟩, hbase, fun vi hvi => ?_⟩
  · unfold childOffset at hbase
    omega
  · have hmul := Nat.mul_le_mul_right db.header.childEntrySize (Nat.le_of_lt hi)
    unfold childOffset at hbase ⊢
    omega
  · have hmul := Nat.mul_le_mul_right db.header.valueEntrySize (Nat.le_of_lt hvi)
    unfold valueOffset
    omega

/-- A match is at the node itself or below one of its children. -/
theorem matched_iff {start : ℕ} (hnode : nodeAt db.data off = some node)
    (hstart : start ≤ (db.nodePrefix node).length) :
    db.Matched off start buf text kv ↔
      (fnmatch (buf ++ (db.nodePrefix node).drop start) text = true ∧ kv ∈ db.valuesAt off node) ∨
      ∃ child ∈ db.childrenAt off node,
        db.Matched child.childOff 0 (buf ++ (db.nodePrefix node).drop start ++ edge child.c)
          text kv := by
  constructor
  · rintro ⟨pat, off', node', hpattern, hmatch, hnode', hkv⟩
    cases hpattern with
    | here h =>
      rw [hnode] at h hnode'
      cases h
      cases hnode'
      exact .inl ⟨hmatch, hkv⟩
    | child h hchild hrest =>
      rename_i node'' child pat
      rw [hnode] at h
      cases h
      refine .inr ⟨child, hchild, pat, off', node', hrest, ?_, hnode', hkv⟩
      rwa [List.append_assoc, List.drop_append_of_le_length hstart, ← List.append_assoc,
        ← List.append_assoc] at hmatch
  · rintro (⟨hmatch, hkv⟩ | ⟨child, hchild, pat, off', node', hrest, hmatch, hnode', hkv⟩)
    · exact ⟨_, off, node, .here hnode, hmatch, hnode, hkv⟩
    · refine ⟨_, off', node', .child hnode hchild hrest, ?_, hnode', hkv⟩
      rwa [List.append_assoc, List.drop_append_of_le_length hstart, ← List.append_assoc,
        ← List.append_assoc]

end Node

/-! ## Below a glob character -/

/-- A place in the prefix of a node at which the prefix may be cut. -/
def CutAt (db : Hwdb) (off start : ℕ) : Prop :=
  start = 0 ∨ ∀ node, nodeAt db.data off = some node →
    ∃ pre, db.readPrefix node = some pre ∧ isCharBoundary pre start = true

section Fnmatch

variable {db : Hwdb} {off start : ℕ} {node : TrieNode} {tail buf : Bytes}

theorem le_length_of_boundary {pre : Bytes} (h : isCharBoundary pre start = true) :
    start ≤ pre.length := by
  simp only [isCharBoundary, Bool.or_eq_true, decide_eq_true_eq] at h
  rcases h with (rfl | rfl) | h
  · exact Nat.zero_le _
  · exact le_rfl
  · obtain ⟨b, hb, -⟩ := (Option.any_eq_true _ _).mp h
    exact Nat.le_of_lt (List.getElem?_eq_some_iff.mp hb).1

theorem CutAt.le_length (h : CutAt db off start) (hnode : nodeAt db.data off = some node) :
    start ≤ (db.nodePrefix node).length := by
  rcases h with rfl | h
  · exact Nat.zero_le _
  · obtain ⟨pre, hpre, hboundary⟩ := h node hnode
    rw [nodePrefix, hpre]
    exact le_length_of_boundary hboundary

theorem CutAt.prefixFrom_eq (h : CutAt db off start) (hnode : nodeAt db.data off = some node) :
    db.prefixFrom node start = .ok ((db.nodePrefix node).drop start) := by
  rw [prefixFrom, nodePrefix]
  cases hpre : db.readPrefix node with
  | none =>
    rw [Option.getD_none, List.drop_nil]
  | some pre =>
    have hboundary : isCharBoundary pre start = true := by
      rcases h with rfl | h
      · rfl
      · obtain ⟨pre', hpre', hboundary⟩ := h node hnode
        rw [hpre] at hpre'
        cases hpre'
        exact hboundary
    dsimp only
    rw [strFrom, if_pos hboundary, Option.getD_some]

/-- One call of the search, given what it calls. -/
theorem trieFnmatch_succ (h : CutAt db off start) (hnode : nodeAt db.data off = some node)
    (hfits : db.ChildrenFit off node) (fuel : ℕ) (props : Props) :
    trieFnmatch db tail (fuel + 1) off start buf props =
      (db.childrenAt off node).foldlM (fun props child =>
        trieFnmatch db tail fuel child.childOff 0
          (buf ++ (db.nodePrefix node).drop start ++ edge child.c) props) props >>= fun props =>
      if 0 < node.valuesCount ∧ fnmatch (buf ++ (db.nodePrefix node).drop start) tail then
        db.collectValues off node props
      else return props := by
  rw [trieFnmatch, TrieNode.read_eq (off_lt_of_nodeAt hnode), ok_bind, hnode]
  dsimp only
  rw [h.prefixFrom_eq hnode, ok_bind, readChildren_eq hfits]
  rfl

theorem appends_collectValues (h : db.ValuesFit off node) :
    Appends (db.collectValues off node) (· ∈ db.valuesAt off node) := fun props =>
  ⟨db.valuesAt off node, collectValues_eq h props, fun _ => Iff.rfl⟩

theorem valuesCount_pos {kv : String × String} (h : kv ∈ db.valuesAt off node) :
    0 < node.valuesCount := by
  obtain ⟨vi, hvi, -⟩ := List.mem_filterMap.mp h
  exact Nat.zero_lt_of_lt (List.mem_range.mp hvi)

/-- The search collects what matches at the node and below it. -/
theorem trieFnmatch_spec (h : IsTrie db off) :
    ∀ᶠ fuel in atTop, ∀ tail start buf, CutAt db off start →
      Appends (trieFnmatch db tail fuel off start buf) (db.Matched off start buf tail) := by
  induction h with
  | node hnode hentries hsorted hchildren ih =>
    rename_i off node
    obtain ⟨n, hn⟩ := eventually_atTop.mp
      ((eventually_all_finite (List.finite_toSet (db.childrenAt off node))).mpr ih)
    obtain ⟨hfits, hvalues⟩ := fits_of_entries hentries
    refine eventually_atTop.mpr ⟨n + 1, fun fuel hfuel tail start buf hcut => ?_⟩
    obtain ⟨m, rfl⟩ := Nat.exists_eq_add_of_le' (Nat.le_of_add_left_le hfuel)
    have hm : n ≤ m := Nat.le_of_add_le_add_right hfuel
    have hbelow := Appends.foldlM fun child hchild =>
      hn m hm child hchild tail 0 (buf ++ (db.nodePrefix node).drop start ++ edge child.c)
        (.inl rfl)
    have hhere : Appends (fun props =>
        if 0 < node.valuesCount ∧ fnmatch (buf ++ (db.nodePrefix node).drop start) tail then
          db.collectValues off node props
        else .ok props) fun kv => fnmatch (buf ++ (db.nodePrefix node).drop start) tail = true ∧
          kv ∈ db.valuesAt off node := by
      by_cases hmatch : 0 < node.valuesCount ∧
          fnmatch (buf ++ (db.nodePrefix node).drop start) tail = true
      · simp only [if_pos hmatch]
        exact (appends_collectValues hvalues).congr fun kv => (and_iff_right hmatch.2).symm
      · simp only [if_neg hmatch]
        refine Appends.nothing.congr fun kv => iff_of_false id ?_
        rintro ⟨htrue, hkv⟩
        exact hmatch ⟨valuesCount_pos hkv, htrue⟩
    intro props
    rw [trieFnmatch_succ hcut hnode hfits]
    obtain ⟨new, hnew, hmem⟩ := hbelow.bind hhere props
    refine ⟨new, hnew, fun kv => ?_⟩
    rw [hmem, matched_iff hnode (hcut.le_length hnode)]
    exact or_comm

end Fnmatch

/-! ## Along letters -/

/-- A step along the prefix of a node and an edge `c`, both taken for letters. -/
def LiteralStep (db : Hwdb) (c : UInt8) (p q : ℕ × Bytes) : Prop :=
  ∃ node child, nodeAt db.data p.1 = some node ∧
    (∀ b ∈ db.nodePrefix node, isGlobChar b = false) ∧ child ∈ db.childrenAt p.1 node ∧
    child.c = c ∧ q.1 = child.childOff ∧ p.2 = db.nodePrefix node ++ c :: q.2

/-- Steps along letters. -/
def Walks (db : Hwdb) : ℕ × Bytes → ℕ × Bytes → Prop :=
  ReflTransGen fun p q => ∃ c, db.LiteralStep c p q

/-- What matches at a node on the way, with the text that is left there. -/
def Found (db : Hwdb) (p : ℕ × Bytes) (kv : String × String) : Prop :=
  ∃ q, db.Walks p q ∧ db.Naive q.1 q.2 kv

section Walk

variable {db : Hwdb} {off : ℕ} {node : TrieNode} {text rest : Bytes} {kv : String × String}
  {p q : ℕ × Bytes}

theorem found_iff : db.Found p kv ↔ db.Naive p.1 p.2 kv ∨
    ∃ c q, db.LiteralStep c p q ∧ db.Found q kv := by
  constructor
  · rintro ⟨q, hwalk, hnaive⟩
    rcases ReflTransGen.cases_head hwalk with rfl | ⟨r, ⟨c, hstep⟩, hwalk⟩
    · exact .inl hnaive
    · exact .inr ⟨c, r, hstep, q, hwalk, hnaive⟩
  · rintro (hnaive | ⟨c, r, hstep, q, hwalk, hnaive⟩)
    · exact ⟨p, .refl, hnaive⟩
    · exact ⟨q, .head ⟨c, hstep⟩ hwalk, hnaive⟩

/-- An ASCII byte is its own encoding. -/
theorem edge_ascii {c : UInt8} (h : c < 0x80) : edge c = [c] := by
  have hlt : c.toNat < 128 := UInt8.lt_iff_toNat_lt.mp h
  have hchar := charOfNat_toNat c.toNat_lt
  rw [edge, utf8EncodeChar_ascii (by rw [hchar]; exact hlt), hchar, UInt8.ofNat_toNat]

theorem glob_ascii {c : UInt8} (h : isGlobChar c = true) : c < 0x80 := by
  simp only [isGlobChar, Bool.or_eq_true, decide_eq_true_eq] at h
  rcases h with (rfl | rfl) | rfl <;> decide

/-- Another byte is encoded as bytes that are not ASCII. -/
theorem edge_not_ascii {c : UInt8} (h : ¬ c < 0x80) :
    ∃ b bs, edge c = b :: bs ∧ ¬ b < 0x80 := by
  obtain ⟨b, bs, hb⟩ := utf8EncodeChar_cons (Char.ofNat c.toNat)
  refine ⟨b, bs, hb, fun hlt => h ?_⟩
  have hmem : b ∈ String.utf8EncodeChar (Char.ofNat c.toNat) := hb ▸ List.mem_cons_self
  have hnat := toNat_eq_of_mem_encode hmem hlt
  rw [charOfNat_toNat c.toNat_lt] at hnat
  exact UInt8.toNat_inj.mp hnat ▸ hlt

/-- Behind an edge that is no glob character, an ASCII text matches when it begins with it. -/
theorem matched_literal_iff (hascii : ∀ b ∈ text, b < 0x80) {child : ChildEntry}
    (hglob : isGlobChar child.c = false) :
    db.Matched child.childOff 0 (edge child.c) text kv ↔
      ∃ rest, text = child.c :: rest ∧ db.Naive child.childOff rest kv := by
  by_cases hc : child.c < 0x80
  · unfold Naive Matched
    rw [edge_ascii hc]
    constructor
    · rintro ⟨pat, off', node', hpattern, hmatch, hrest⟩
      obtain ⟨rest, rfl, htail⟩ := (fnmatch_cons_iff hglob).mp hmatch
      exact ⟨rest, rfl, pat, off', node', hpattern, htail, hrest⟩
    · rintro ⟨rest, rfl, pat, off', node', hpattern, hmatch, hrest⟩
      exact ⟨pat, off', node', hpattern, (fnmatch_cons_iff hglob).mpr ⟨rest, rfl, hmatch⟩, hrest⟩
  · obtain ⟨b, bs, hedge, hb⟩ := edge_not_ascii hc
    refine iff_of_false ?_ ?_
    · rintro ⟨pat, off', node', hpattern, hmatch, -⟩
      have hletter : isGlobChar b = false := Bool.eq_false_iff.mpr fun h => hb (glob_ascii h)
      rw [hedge, List.cons_append] at hmatch
      obtain ⟨rest, rfl, -⟩ := (fnmatch_cons_iff hletter).mp hmatch
      exact hb (hascii b List.mem_cons_self)
    · rintro ⟨rest, rfl, -⟩
      exact hc (hascii child.c List.mem_cons_self)

end Walk

/-! ## The walk -/

section Search

variable {db : Hwdb} {off idx : ℕ} {node : TrieNode} {search : Bytes} {kv : String × String}

theorem searchTail_eq (hascii : ∀ b ∈ search, b < 0x80) (hidx : idx ≤ search.length) :
    searchTail search idx = search.drop idx := by
  rw [searchTail, if_pos hidx,
    if_pos (fromUtf8_isSome_ascii fun b hb => hascii b (List.mem_of_mem_drop hb))]

/-- The search for an edge finds the child that has it. -/
theorem childLookup_spec (hfits : db.ChildrenFit off node) (hsorted : db.SortedChildren off node)
    (c : UInt8) : ∃ found, db.childLookup off node c = .ok found ∧
      ∀ child, found = some child ↔ child ∈ db.childrenAt off node ∧ child.c = c := by
  refine ⟨_, childLookup_eq hfits c, fun child => ⟨fun h => ?_, ?_⟩⟩
  · exact mem_of_childLookup hfits (h ▸ childLookup_eq hfits c)
  · rintro ⟨hmem, rfl⟩
    have hlookup := childLookup_of_mem hfits hsorted hmem
    rw [childLookup_eq hfits] at hlookup
    exact Except.ok.inj hlookup

theorem appends_withChild (hfits : db.ChildrenFit off node)
    (hsorted : db.SortedChildren off node) (c : UInt8) {visit : ChildEntry → Props → Faulty Props}
    {p : ChildEntry → String × String → Prop}
    (h : ∀ child ∈ db.childrenAt off node, child.c = c → Appends (visit child) (p child)) :
    Appends (db.withChild off node c visit)
      fun kv => ∃ child ∈ db.childrenAt off node, child.c = c ∧ p child kv := by
  obtain ⟨found, hlookup, hfound⟩ := childLookup_spec hfits hsorted c
  intro props
  rw [withChild, hlookup, ok_bind]
  cases found with
  | none =>
    refine ⟨[], congrArg Except.ok (List.append_nil props).symm, fun kv => ?_⟩
    refine iff_of_false List.not_mem_nil ?_
    rintro ⟨child, hmem, hc, -⟩
    cases (hfound child).mpr ⟨hmem, hc⟩
  | some child =>
    obtain ⟨hmem, hc⟩ := (hfound child).mp rfl
    refine ((h child hmem hc).congr fun kv => ⟨fun hp => ⟨child, hmem, hc, hp⟩, ?_⟩) props
    rintro ⟨child', hmem', hc', hp⟩
    cases (hfound child').mpr ⟨hmem', hc'⟩
    exact hp

/-- Letters in front of a pattern match themselves. -/
theorem matched_append_iff {front buf rest : Bytes} (h : ∀ b ∈ front, isGlobChar b = false) :
    db.Matched off 0 (front ++ buf) (front ++ rest) kv ↔ db.Matched off 0 buf rest kv := by
  have hiff : ∀ pat : Bytes, fnmatch (front ++ buf ++ pat) (front ++ rest) = true ↔
      fnmatch (buf ++ pat) rest = true := by
    intro pat
    rw [List.append_assoc, fnmatch_append_iff h]
    constructor
    · rintro ⟨rest', heq, hmatch⟩
      rwa [List.append_cancel_left heq]
    · intro hmatch
      exact ⟨rest, rfl, hmatch⟩
  unfold Matched
  simp only [hiff]

/-- What matches at a node whose prefix is letters that the text begins with. -/
theorem naive_behind (hnode : nodeAt db.data off = some node)
    (hletters : ∀ b ∈ db.nodePrefix node, isGlobChar b = false) {rest : Bytes} :
    db.Naive off (db.nodePrefix node ++ rest) kv ↔
      (rest = [] ∧ kv ∈ db.valuesAt off node) ∨
      ∃ child ∈ db.childrenAt off node, db.Matched child.childOff 0 (edge child.c) rest kv := by
  unfold Naive
  rw [matched_iff hnode (Nat.zero_le _), List.nil_append, List.drop_zero]
  refine or_congr (and_congr_left fun _ => ?_) ?_
  · rw [← List.append_nil (db.nodePrefix node), fnmatch_append_iff hletters, List.append_nil]
    constructor
    · rintro ⟨rest', heq, hmatch⟩
      rw [List.append_cancel_left heq]
      exact fnmatch_nil_iff.mp hmatch
    · rintro rfl
      exact ⟨[], rfl, fnmatch_nil_iff.mpr rfl⟩
  · exact exists_congr fun child => and_congr_right fun _ => matched_append_iff hletters

/-- What is found at a node whose prefix is letters that the text begins with. -/
theorem found_behind {rest : Bytes} (hascii : ∀ b ∈ rest, b < 0x80)
    (hnode : nodeAt db.data off = some node)
    (hletters : ∀ b ∈ db.nodePrefix node, isGlobChar b = false) (kv : String × String) :
    db.Found (off, db.nodePrefix node ++ rest) kv ↔
      (∃ wc ∈ [star, question, opening], ∃ child ∈ db.childrenAt off node, child.c = wc ∧
        db.Matched child.childOff 0 (edge wc) rest kv) ∨
      (rest = [] ∧ kv ∈ db.valuesAt off node) ∨
      ∃ ch text, rest = ch :: text ∧ ∃ child ∈ db.childrenAt off node, child.c = ch ∧
        db.Found (child.childOff, text) kv := by
  have hglob : ∀ c, isGlobChar c = true ↔ c ∈ [star, question, opening] := by
    intro c
    simp [isGlobChar, or_assoc]
  rw [found_iff, naive_behind hnode hletters]
  constructor
  · rintro ((hvalue | ⟨child, hchild, hmatch⟩) | ⟨c, q, hstep, hfound⟩)
    · exact .inr (.inl hvalue)
    · by_cases hc : isGlobChar child.c = true
      · exact .inl ⟨child.c, (hglob _).mp hc, child, hchild, rfl, hmatch⟩
      · obtain ⟨text, rfl, hnaive⟩ :=
          (matched_literal_iff hascii (Bool.eq_false_iff.mpr hc)).mp hmatch
        exact .inr (.inr ⟨_, text, rfl, child, hchild, rfl, found_iff.mpr (.inl hnaive)⟩)
    · obtain ⟨node', child, hnode', -, hchild, rfl, hq, hsplit⟩ := hstep
      cases hnode.symm.trans hnode'
      refine .inr (.inr ⟨child.c, q.2, List.append_cancel_left hsplit, child, hchild, rfl, ?_⟩)
      rwa [← hq]
  · rintro (⟨wc, hwc, child, hchild, rfl, hmatch⟩ | hvalue | ⟨ch, text, rfl, child, hchild, rfl, h⟩)
    · exact .inl (.inr ⟨child, hchild, hmatch⟩)
    · exact .inl (.inl hvalue)
    · exact .inr ⟨child.c, (child.childOff, text), ⟨node, child, hnode, hletters, hchild, rfl, rfl,
        rfl⟩, h⟩

/-- A pattern begins with the prefix of the node that it starts at. -/
theorem PatternTo.split {pat : Bytes} {off' : ℕ} (h : PatternTo db off pat off')
    (hnode : nodeAt db.data off = some node) : ∃ rest, pat = db.nodePrefix node ++ rest := by
  cases h with
  | here h =>
    cases hnode.symm.trans h
    exact ⟨[], (List.append_nil _).symm⟩
  | child h hchild hrest =>
    cases hnode.symm.trans h
    exact ⟨_, List.append_assoc _ _ _⟩

/-- What matches at a node whose prefix has letters in front of a glob character. -/
theorem naive_glob (hnode : nodeAt db.data off = some node) {front rest text : Bytes}
    (hsplit : db.nodePrefix node = front ++ rest) (hfront : ∀ b ∈ front, isGlobChar b = false) :
    db.Naive off (front ++ text) kv ↔ db.Matched off front.length [] text kv := by
  refine exists_congr fun pat => exists_congr fun off' => exists_congr fun node' =>
    and_congr_right fun hpattern => and_congr_left fun _ => ?_
  obtain ⟨behind, rfl⟩ := hpattern.split hnode
  rw [hsplit, List.nil_append, List.nil_append, List.drop_zero, List.append_assoc, List.drop_left,
    fnmatch_append_iff hfront]
  constructor
  · rintro ⟨text', heq, hmatch⟩
    rwa [List.append_cancel_left heq]
  · intro hmatch
    exact ⟨text, rfl, hmatch⟩

/-- A prefix may be cut in front of a glob character. -/
theorem cutAt_glob (hnode : nodeAt db.data off = some node) {front rest : Bytes} {c : UInt8}
    (hsplit : db.nodePrefix node = front ++ c :: rest) (hc : isGlobChar c = true) :
    CutAt db off front.length := by
  refine .inr fun node' hnode' => ?_
  cases hnode.symm.trans hnode'
  unfold nodePrefix at hsplit
  cases hpre : db.readPrefix node with
  | none =>
    rw [hpre, Option.getD_none] at hsplit
    exact absurd hsplit.symm (List.append_ne_nil_of_right_ne_nil _ (List.cons_ne_nil _ _))
  | some pre =>
    rw [hpre, Option.getD_some] at hsplit
    refine ⟨pre, rfl, ?_⟩
    have hbyte : pre[front.length]? = some c := by
      rw [hsplit, List.getElem?_append_right le_rfl, Nat.sub_self, List.getElem?_cons_zero]
    have hnot : isContinuation c = false := by
      have hlt := glob_ascii hc
      rw [isContinuation, Bool.and_eq_false_iff]
      exact .inl (decide_eq_false (UInt8.not_le.mpr hlt))
    rw [isCharBoundary, hbyte, Option.any_some, hnot]
    exact Bool.or_true _

/-- The walk collects what is found along letters. -/
theorem trieSearch_spec (h : IsTrie db off) (hascii : ∀ b ∈ search, b < 0x80) :
    ∀ᶠ fuel in atTop, ∀ idx ≤ search.length,
      Appends (trieSearch db search fuel off idx) (db.Found (off, search.drop idx)) := by
  induction h with
  | node hnode hentries hsorted hchildren ih =>
    rename_i off node
    obtain ⟨hfits, hvalues⟩ := fits_of_entries hentries
    have hfinite := List.finite_toSet (db.childrenAt off node)
    have hwalk := (eventually_all_finite hfinite).mpr ih
    have hbelow := (eventually_all_finite hfinite).mpr fun child hchild =>
      trieFnmatch_spec (hchildren child hchild)
    obtain ⟨n, hn⟩ := eventually_atTop.mp ((trieFnmatch_spec
      (.node hnode hentries hsorted hchildren)).and (hbelow.and hwalk))
    refine eventually_atTop.mpr ⟨n + 1, fun fuel hfuel idx hidx props => ?_⟩
    obtain ⟨m, rfl⟩ := Nat.exists_eq_add_of_le' (Nat.le_of_add_left_le hfuel)
    obtain ⟨hhere, hbelow, hwalk⟩ := hn m (Nat.le_of_add_le_add_right hfuel)
    rw [trieSearch, TrieNode.read_eq (off_lt_of_nodeAt hnode), ok_bind, hnode]
    dsimp only
    cases hstop : matchPrefix search (db.nodePrefix node) 0 idx with
    | glob pi idx' =>
      obtain ⟨front, c, rest, hsplit, hc, hfront, rfl, hdrop, hle⟩ := matchPrefix_glob hstop
      dsimp only
      rw [searchTail_eq hascii (hle hidx), Nat.zero_add]
      refine (hhere _ _ _ (cutAt_glob hnode hsplit hc)).congr (fun kv => ?_) props
      rw [← naive_glob hnode hsplit hfront, ← hdrop, found_iff, or_iff_left]
      -- a prefix with a glob character is not walked along
      rintro ⟨c', q, ⟨node', child, hnode', hletters, -⟩, -⟩
      cases hnode.symm.trans hnode'
      rw [hletters c (hsplit ▸ List.mem_append_right _ List.mem_cons_self)] at hc
      cases hc
    | differs =>
      refine ⟨[], congrArg Except.ok (List.append_nil props).symm, fun kv => ?_⟩
      refine iff_of_false List.not_mem_nil fun hfound => ?_
      rcases found_iff.mp hfound with ⟨pat, off', node', hpattern, hmatch, -⟩ | ⟨c, q, hstep, -⟩
      · obtain ⟨rest, rfl⟩ := hpattern.split hnode
        rw [List.nil_append, List.drop_zero, (matchPrefix_differs hstop rest).1] at hmatch
        cases hmatch
      · obtain ⟨node', child, hnode', -, -, -, -, hsplit⟩ := hstep
        cases hnode.symm.trans hnode'
        exact (matchPrefix_differs hstop []).2 ⟨_, hsplit.symm⟩
    | behind idx' =>
      obtain ⟨hletters, hdrop, hle, -⟩ := matchPrefix_behind hstop
      dsimp only
      rw [searchTail_eq hascii (hle hidx), hdrop]
      have hprobes := Appends.foldlM fun wc (_ : wc ∈ [star, question, opening]) =>
        appends_withChild hfits hsorted wc fun child hchild _ =>
          hbelow child hchild (search.drop idx') 0 (edge wc) (.inl rfl)
      have hrest : ∀ b ∈ search.drop idx', b < 0x80 := fun b hb =>
        hascii b (List.mem_of_mem_drop hb)
      have hfound := found_behind hrest hnode hletters
      cases hget : search[idx']? with
      | none =>
        rw [List.drop_eq_nil_of_le (List.getElem?_eq_none_iff.mp hget)] at hprobes hfound ⊢
        refine ((hprobes.bind (appends_collectValues hvalues)).congr fun kv => ?_) props
        rw [hfound]
        refine or_congr_right ⟨fun hkv => .inl ⟨rfl, hkv⟩, ?_⟩
        rintro (⟨-, hkv⟩ | ⟨ch, text, hcons, -⟩)
        · exact hkv
        · cases hcons
      | some ch =>
        have hlt := (List.getElem?_eq_some_iff.mp hget).1
        have hnext := appends_withChild hfits hsorted ch fun child hchild _ =>
          hwalk child hchild (idx' + 1) hlt
        refine ((hprobes.bind hnext).congr fun kv => ?_) props
        rw [hfound, drop_cons_of_getElem? hget]
        refine or_congr_right ⟨fun h => .inr ⟨ch, _, rfl, h⟩, ?_⟩
        rintro (⟨hnil, -⟩ | ⟨ch', text, hcons, h⟩)
        · cases hnil
        · cases hcons
          exact h

end Search

/-! ## The naive lookup -/

/-- Where a `[` of the text leads along an edge `[`, the properties that match behind it are
    properties of nodes that match the text. -/
def BracketsAgree (db : Hwdb) (root : ℕ) (text : Bytes) : Prop :=
  ∀ p q, db.Walks (root, text) p → db.LiteralStep opening p q →
    ∀ kv, db.Naive q.1 q.2 kv → db.Naive root text kv

section Naive

variable {db : Hwdb} {root : ℕ} {text : Bytes} {kv : String × String} {p q : ℕ × Bytes}

/-- An edge other than `[` matches the letter that it is taken for. -/
theorem naive_of_step {c : UInt8} (hstep : db.LiteralStep c p q) (hc : c ≠ opening)
    (hascii : ∀ b ∈ p.2, b < 0x80) (h : db.Naive q.1 q.2 kv) : db.Naive p.1 p.2 kv := by
  obtain ⟨node, child, hnode, hletters, hchild, rfl, hq, hsplit⟩ := hstep
  obtain ⟨pat, off', node', hpattern, hmatch, hvalues⟩ := h
  have hbyte : child.c < 0x80 :=
    hascii _ (hsplit ▸ List.mem_append_right _ List.mem_cons_self)
  rw [hq] at hpattern
  refine ⟨_, off', node', .child hnode hchild hpattern, ?_, hvalues⟩
  rw [hsplit, edge_ascii hbyte, List.nil_append, List.drop_zero, List.append_assoc,
    fnmatch_append_iff hletters]
  exact ⟨_, rfl, fnmatch_cons_self hc hmatch⟩

/-- The text that is left is the end of the text. -/
theorem Walks.suffix (h : db.Walks p q) : q.2 <:+ p.2 := by
  induction h with
  | refl => exact List.suffix_rfl
  | tail _ hstep ih =>
    obtain ⟨c, node, child, -, -, -, -, -, hsplit⟩ := hstep
    rw [hsplit] at ih
    exact ((List.suffix_cons _ _).trans (List.suffix_append _ _)).trans ih

/-- What is found along letters is what matches, exactly if brackets agree. -/
theorem found_naive_iff (hascii : ∀ b ∈ text, b < 0x80) :
    (∀ kv, db.Found (root, text) kv ↔ db.Naive root text kv) ↔ db.BracketsAgree root text := by
  constructor
  · intro h p q hwalk hstep kv hnaive
    exact (h kv).mp ⟨q, hwalk.tail ⟨opening, hstep⟩, hnaive⟩
  · intro h kv
    refine ⟨?_, fun hnaive => ⟨_, .refl, hnaive⟩⟩
    rintro ⟨q, hwalk, hnaive⟩
    induction hwalk with
    | refl => exact hnaive
    | tail hbefore hstep ih =>
      obtain ⟨c, hstep⟩ := hstep
      by_cases hc : c = opening
      · exact h _ _ hbefore (hc ▸ hstep) kv hnaive
      · exact ih (naive_of_step hstep hc
          (fun b hb => hascii b ((Walks.suffix hbefore).subset hb)) hnaive)

end Naive

/-- The map has the properties: each of its values is one of them, and it has all their keys. -/
def Holds (m : SortedMap String String) (props : Props) : Prop :=
  (∀ k v, m.get? k = some v → (k, v) ∈ props) ∧ ∀ k v, (k, v) ∈ props → (m.get? k).isSome

theorem holds_insertAll (props : Props) : Holds (insertAll props) props := by
  induction props using List.reverseRecOn with
  | nil =>
    exact ⟨fun k v h => (Option.some_ne_none v h.symm).elim,
      fun k v h => absurd h List.not_mem_nil⟩
  | append_singleton props p ih =>
    rw [insertAll, List.foldl_append, List.foldl_cons, List.foldl_nil]
    change Holds ((insertAll props).insert p.1 p.2) _
    constructor
    · intro k v h
      rw [SortedMap.get?_insert] at h
      split_ifs at h with hk
      · cases h
        rw [hk]
        exact List.mem_append_right _ (List.mem_singleton_self _)
      · exact List.mem_append_left _ (ih.1 k v h)
    · intro k v h
      rw [SortedMap.get?_insert]
      split_ifs with hk
      · rfl
      · rcases List.mem_append.mp h with h | h
        · exact ih.2 k v h
        · exact absurd (congrArg Prod.fst (List.mem_singleton.mp h)) hk

/-- A lookup in a trie returns the properties that it collects, and these are the ones that match
    exactly if brackets agree. -/
theorem collected_naive_iff {db : Hwdb} (htrie : IsTrie db db.header.nodesRootOff)
    {modalias : String} (hascii : ∀ c ∈ modalias.toList, c.toNat < 128) :
    ∃ n, ∀ fuel ≥ n, ∃ props, db.collected fuel modalias = .ok props ∧
      db.lookup fuel modalias = .ok (insertAll props) ∧ Holds (insertAll props) props ∧
      ((∀ kv, kv ∈ props ↔ db.Naive db.header.nodesRootOff (asBytes modalias) kv) ↔
        db.BracketsAgree db.header.nodesRootOff (asBytes modalias)) := by
  have hbytes := asBytes_lt hascii
  obtain ⟨n, hn⟩ := eventually_atTop.mp (trieSearch_spec htrie hbytes)
  refine ⟨n, fun fuel hfuel => ?_⟩
  obtain ⟨props, hprops, hmem⟩ := hn fuel hfuel 0 (Nat.zero_le _) []
  rw [List.nil_append] at hprops
  rw [List.drop_zero] at hmem
  have hcollected : db.collected fuel modalias = .ok props := hprops
  refine ⟨props, hcollected, by rw [lookup, hcollected]; rfl, holds_insertAll props, ?_⟩
  simp only [hmem]
  exact found_naive_iff hbytes

/-! ## A bracket taken for a letter -/

/-- A database with the property `K=v` at the pattern `[a]`: the root, its child, the node behind
    the child with the prefix `a]`, its value, and the strings. -/
def bracketBytes : Bytes :=
  hwdbSig ++ [0, 168, 80, 24, 16, 16, 80, 80, 8, 0, 1, 0, 0x5B, 120, 160, 0, 1, 163, 166].flatMap
    (toLe 8) ++ [0x61, 0x5D, 0, 0x20, 0x4B, 0, 0x76, 0]

theorem bracketBytes_length : bracketBytes.length = 168 := by rfl

theorem bracketBytes_lt : bracketBytes.length < 2 ^ 63 := by
  rw [bracketBytes_length]
  decide

def bracketTrie : Hwdb where
  data := bracketBytes
  header := ⟨0, 168, 80, 24, 16, 16, 80, 80, 8⟩
  length_lt := bracketBytes_lt

/-- The header, the records and the strings of `bracketTrie`. -/
theorem bracketTrie_reads :
    (bracketBytes.take 8 = hwdbSig ∧ leAt bracketBytes 16 8 = 168 ∧
      headerAt bracketBytes = bracketTrie.header) ∧
    (nodeAt bracketTrie.data 80 = some ⟨0, 1, 0⟩ ∧ nodeAt bracketTrie.data 120 = some ⟨160, 0, 1⟩ ∧
      bracketTrie.childrenAt 80 ⟨0, 1, 0⟩ = [⟨opening, 120⟩] ∧
      bracketTrie.childrenAt 120 ⟨160, 0, 1⟩ = [] ∧
      valueEntryAt bracketTrie.data 144 = some ⟨163, 166⟩) ∧
    bracketTrie.data.drop 160 = [0x61, 0x5D, 0, 0x20, 0x4B, 0, 0x76, 0] ∧
    bracketTrie.data.drop 163 = [0x20, 0x4B, 0, 0x76, 0] ∧
    bracketTrie.data.drop 166 = [0x76, 0] := by
  set_option maxRecDepth 20000 in decide

theorem nodeAt_root : nodeAt bracketTrie.data 80 = some ⟨0, 1, 0⟩ := bracketTrie_reads.2.1.1

theorem nodeAt_bracket : nodeAt bracketTrie.data 120 = some ⟨160, 0, 1⟩ := bracketTrie_reads.2.1.2.1

theorem childrenAt_root : bracketTrie.childrenAt 80 ⟨0, 1, 0⟩ = [⟨opening, 120⟩] :=
  bracketTrie_reads.2.1.2.2.1

theorem childrenAt_bracket : bracketTrie.childrenAt 120 ⟨160, 0, 1⟩ = [] :=
  bracketTrie_reads.2.1.2.2.2.1

theorem isTrie_bracketTrie : IsTrie bracketTrie 80 := by
  have hbelow : IsTrie bracketTrie 120 := by
    refine .node nodeAt_bracket ?_ ?_ ?_
    · rw [show bracketTrie.data.length = 168 from bracketBytes_length]
      decide
    · rw [SortedChildren, childrenAt_bracket]
      exact List.Pairwise.nil
    · rw [childrenAt_bracket]
      exact fun child h => absurd h List.not_mem_nil
  refine .node nodeAt_root ?_ ?_ ?_
  · rw [show bracketTrie.data.length = 168 from bracketBytes_length]
    decide
  · rw [SortedChildren, childrenAt_root]
    exact List.pairwise_singleton _ _
  · rw [childrenAt_root]
    exact List.forall_mem_singleton.mpr hbelow

theorem asBytes_bracket : asBytes "[a]" = [opening, 0x61, closing] := by
  rw [show "[a]" = String.ofList ['[', 'a', ']'] from rfl, asBytes_ofList]
  rfl

theorem ascii_bracket : ∀ c ∈ "[a]".toList, c.toNat < 128 := by
  rw [show "[a]" = String.ofList ['[', 'a', ']'] from rfl, String.toList_ofList]
  simp only [List.forall_mem_cons, List.not_mem_nil, false_implies, implies_true, and_true]
  decide

theorem nodePrefix_root : bracketTrie.nodePrefix ⟨0, 1, 0⟩ = [] := rfl

theorem nodePrefix_bracket : bracketTrie.nodePrefix ⟨160, 0, 1⟩ = [0x61, closing] := by
  have hread : readCstr bracketTrie.data 160 = some (String.ofList ['a', ']']) :=
    readCstr_eq [0x20, 0x4B, 0, 0x76, 0] bracketTrie_reads.2.2.1 (by decide)
  rw [nodePrefix, readPrefix, if_neg (by decide), hread, Option.map_some, asBytes_ofList]
  rfl

theorem valuesAt_bracket : bracketTrie.valuesAt 120 ⟨160, 0, 1⟩ = [("K", "v")] := by
  have hentry : valueEntryAt bracketTrie.data 144 = some ⟨163, 166⟩ :=
    bracketTrie_reads.2.1.2.2.2.2
  have hkey : readCstr bracketTrie.data 163 = some (String.ofList [' ', 'K']) :=
    readCstr_eq [0x76, 0] bracketTrie_reads.2.2.2.1 (by decide)
  have hvalue : readCstr bracketTrie.data 166 = some (String.ofList ['v']) :=
    readCstr_eq [] bracketTrie_reads.2.2.2.2 (by decide)
  have hproperty : bracketTrie.property ⟨163, 166⟩ = some ("K", "v") := by
    rw [property, hkey, hvalue]
    rfl
  have hoffset : bracketTrie.valueOffset 120 ⟨160, 0, 1⟩ 0 = 144 := rfl
  have hfirst : (valueEntryAt bracketTrie.data (bracketTrie.valueOffset 120 ⟨160, 0, 1⟩ 0)).bind
      bracketTrie.property = some ("K", "v") := by
    rw [hoffset, hentry, Option.bind_some, hproperty]
  rw [valuesAt, show List.range (TrieNode.mk 160 0 1).valuesCount = [0] from rfl]
  simp only [List.filterMap_cons, List.filterMap_nil, hfirst]

/-- The properties of a database with a bracket expression, for a text that it does not match. -/
theorem collected_naive_bracketTrie :
    ∃ n, ∀ fuel ≥ n, ∃ props, bracketTrie.collected fuel "[a]" = .ok props ∧
      bracketTrie.lookup fuel "[a]" = .ok (insertAll props) ∧ Holds (insertAll props) props ∧
      ((∀ kv, kv ∈ props ↔ bracketTrie.Naive 80 (asBytes "[a]") kv) ↔
        bracketTrie.BracketsAgree 80 (asBytes "[a]")) :=
  collected_naive_iff isTrie_bracketTrie ascii_bracket

theorem not_naive_bracket (kv : String × String) : ¬ bracketTrie.Naive 80 (asBytes "[a]") kv := by
  have hvalues : bracketTrie.valuesAt 80 ⟨0, 1, 0⟩ = [] := rfl
  unfold Naive
  rw [matched_iff nodeAt_root (Nat.zero_le _), hvalues, childrenAt_root, nodePrefix_root]
  rintro (⟨-, hkv⟩ | ⟨child, hchild, hmatch⟩)
  · cases hkv
  · rw [List.mem_singleton.mp hchild, matched_iff nodeAt_bracket (Nat.zero_le _),
      childrenAt_bracket, nodePrefix_bracket, asBytes_bracket] at hmatch
    rcases hmatch with ⟨hmatch, -⟩ | ⟨child', hchild', -⟩
    · exact Bool.false_ne_true hmatch
    · cases hchild'

/-- The pattern `[a]` does not match `[a]`, and its property is returned. -/
theorem bracket_returned : IsTrie bracketTrie bracketTrie.header.nodesRootOff ∧
    (∃ n, ∀ fuel ≥ n, ∃ m, bracketTrie.lookup fuel "[a]" = .ok m ∧ (m.get? "K").isSome) ∧
    ∀ kv, ¬ bracketTrie.Naive bracketTrie.header.nodesRootOff (asBytes "[a]") kv := by
  refine ⟨isTrie_bracketTrie, ?_, not_naive_bracket⟩
  have hfound : bracketTrie.Found (80, asBytes "[a]") ("K", "v") := by
    refine ⟨(120, [0x61, closing]), .single ⟨opening, ⟨0, 1, 0⟩, ⟨opening, 120⟩, nodeAt_root,
      ?_, ?_, rfl, rfl, ?_⟩, ?_⟩
    · rw [nodePrefix_root]
      exact fun b hb => absurd hb List.not_mem_nil
    · rw [childrenAt_root]
      exact List.mem_singleton_self _
    · rw [nodePrefix_root, asBytes_bracket]
      rfl
    · unfold Naive
      rw [matched_iff nodeAt_bracket (Nat.zero_le _), nodePrefix_bracket, valuesAt_bracket]
      exact .inl ⟨rfl, List.mem_singleton_self _⟩
  obtain ⟨n, hn⟩ := eventually_atTop.mp
    (trieSearch_spec isTrie_bracketTrie (asBytes_lt ascii_bracket))
  refine ⟨n, fun fuel hfuel => ?_⟩
  obtain ⟨props, hprops, hmem⟩ := hn fuel hfuel 0 (Nat.zero_le _) []
  rw [List.nil_append] at hprops
  rw [List.drop_zero] at hmem
  have hcollected : bracketTrie.collected fuel "[a]" = .ok props := hprops
  refine ⟨insertAll props, by rw [lookup, hcollected]; rfl, ?_⟩
  exact (holds_insertAll props).2 "K" "v" ((hmem _).mpr hfound)

end OxidizedSystemd.Hwdb
