import OxidizedSystemd.Hwdb.Format

/-!
# Lookup in the hardware database

Model of `Hwdb::lookup` (`libsystemd/src/hwdb.rs`, lines 274–418): the walk along letters, and the
search of all that is below a glob character.

* `matchPrefix_glob`, `matchPrefix_differs`, `matchPrefix_behind`: what the comparison of a prefix
  says about the patterns that begin with it.
-/

namespace OxidizedSystemd.Hwdb

open Lib

/-- The properties in the order in which they are inserted. -/
abbrev Props := List (String × String)

/-- The bytes of `c as char`. -/
def edge (c : UInt8) : Bytes := String.utf8EncodeChar (Char.ofNat c.toNat)

/-- The prefix of a node, if it has one. -/
def readPrefix (db : Hwdb) (node : TrieNode) : Option Bytes :=
  if node.prefixOff = 0 then none else (readCstr db.data node.prefixOff).map asBytes

/-- The bytes of the prefix of a node. -/
def nodePrefix (db : Hwdb) (node : TrieNode) : Bytes := (db.readPrefix node).getD []

/-- `is_char_boundary`. -/
def isCharBoundary (s : Bytes) (i : ℕ) : Bool :=
  i = 0 || i = s.length || (s[i]?).any fun b => !isContinuation b

/-- `&s[start..]`. -/
def strFrom (s : Bytes) (start : ℕ) : Faulty Bytes :=
  if isCharBoundary s start then .ok (s.drop start) else .error .outOfBounds

/-- The rest of the prefix of a node (lines 375–386). -/
def prefixFrom (db : Hwdb) (node : TrieNode) (prefixStart : ℕ) : Faulty Bytes :=
  match db.readPrefix node with
  | some pre => strFrom pre prefixStart
  | none => .ok []

/-- `search_tail` (lines 400–404). -/
def searchTail (search : Bytes) (searchIdx : ℕ) : Bytes :=
  if searchIdx ≤ search.length then
    if (fromUtf8 (search.drop searchIdx)).isSome then search.drop searchIdx else []
  else []

/-- `trie_fnmatch`, called within itself at most `fuel` times. What is pushed to the buffer is
    taken off again before the return. -/
def trieFnmatch (db : Hwdb) (tail : Bytes) : ℕ → ℕ → ℕ → Bytes → Props → Faulty Props
  | 0, _, _, _, _ => .error .endless
  | fuel + 1, nodeOff, prefixStart, buf, props => do
    match ← TrieNode.read db.data nodeOff with
    | none => return props
    | some node =>
      let rest ← db.prefixFrom node prefixStart
      let children ← db.readChildren nodeOff node
      let props ← children.foldlM (fun props child =>
        trieFnmatch db tail fuel child.childOff 0 (buf ++ rest ++ edge child.c) props) props
      if 0 < node.valuesCount ∧ fnmatch (buf ++ rest) tail then
        db.collectValues nodeOff node props
      else return props

/-- Where the comparison of a prefix ends: at a glob character, at a difference, or behind it. -/
inductive PrefixEnd
  | glob (pi searchIdx : ℕ)
  | differs
  | behind (searchIdx : ℕ)
  deriving DecidableEq

/-- The comparison of a prefix (lines 319–329), from its byte `pi` on. -/
def matchPrefix (search : Bytes) : Bytes → ℕ → ℕ → PrefixEnd
  | [], _, searchIdx => .behind searchIdx
  | pc :: rest, pi, searchIdx =>
    if isGlobChar pc then .glob pi searchIdx
    else if search[searchIdx]? = some pc then matchPrefix search rest (pi + 1) (searchIdx + 1)
    else .differs

/-- What is done with the child behind an edge, if there is one (lines 333–339 and 350–356). -/
def withChild (db : Hwdb) (nodeOff : ℕ) (node : TrieNode) (c : UInt8)
    (visit : ChildEntry → Props → Faulty Props) (props : Props) : Faulty Props := do
  match ← db.childLookup nodeOff node c with
  | some child => visit child props
  | none => return props

/-- `trie_search`, a turn of which counts as a call. -/
def trieSearch (db : Hwdb) (search : Bytes) : ℕ → ℕ → ℕ → Props → Faulty Props
  | 0, _, _, _ => .error .endless
  | fuel + 1, nodeOff, searchIdx, props => do
    match ← TrieNode.read db.data nodeOff with
    | none => return props
    | some node =>
      match matchPrefix search (db.nodePrefix node) 0 searchIdx with
      | .glob pi searchIdx =>
        trieFnmatch db (searchTail search searchIdx) fuel nodeOff pi [] props
      | .differs => return props
      | .behind searchIdx =>
        let props ← [star, question, opening].foldlM (fun props wc =>
          db.withChild nodeOff node wc (fun child =>
            trieFnmatch db (searchTail search searchIdx) fuel child.childOff 0 (edge wc)) props)
              props
        match search[searchIdx]? with
        | none => db.collectValues nodeOff node props
        | some ch =>
          db.withChild nodeOff node ch (fun child =>
            trieSearch db search fuel child.childOff (searchIdx + 1)) props

/-- The properties that a lookup inserts. -/
def collected (db : Hwdb) (fuel : ℕ) (modalias : String) : Faulty Props :=
  trieSearch db (asBytes modalias) fuel db.header.nodesRootOff 0 []

/-- The map after the insertions. -/
def insertAll (props : Props) : SortedMap String String :=
  props.foldl (fun m p => m.insert p.1 p.2) .empty

/-- `Hwdb::lookup`. -/
def lookup (db : Hwdb) (fuel : ℕ) (modalias : String) : Faulty (SortedMap String String) :=
  (db.collected fuel modalias).map insertAll

/-! ## Prefixes -/

section Prefix

variable {search p : Bytes} {pi idx pi' idx' : ℕ}

theorem drop_cons_of_getElem? {c : UInt8} (h : search[idx]? = some c) :
    search.drop idx = c :: search.drop (idx + 1) := drop_of_getElem? h

/-- The walk stops at a glob character of the prefix, with letters in front of it. -/
theorem matchPrefix_glob (h : matchPrefix search p pi idx = .glob pi' idx') :
    ∃ front c rest, p = front ++ c :: rest ∧ isGlobChar c = true ∧
      (∀ b ∈ front, isGlobChar b = false) ∧ pi' = pi + front.length ∧
      search.drop idx = front ++ search.drop idx' ∧
      (idx ≤ search.length → idx' ≤ search.length) := by
  induction p generalizing pi idx with
  | nil => cases h
  | cons c p ih =>
    rw [matchPrefix] at h
    split_ifs at h with hglob hsame
    · cases h
      exact ⟨[], c, p, rfl, hglob, fun b hb => absurd hb List.not_mem_nil, rfl, rfl, id⟩
    · obtain ⟨front, c', rest, rfl, hc', hfront, rfl, hdrop, hle⟩ := ih h
      have hlt := (List.getElem?_eq_some_iff.mp hsame).1
      refine ⟨c :: front, c', rest, rfl, hc', ?_, ?_, ?_, fun _ => hle hlt⟩
      · exact List.forall_mem_cons.mpr ⟨Bool.eq_false_iff.mpr hglob, hfront⟩
      · rw [List.length_cons]
        omega
      · rw [drop_cons_of_getElem? hsame, hdrop, List.cons_append]

/-- Behind the prefix: it is letters, and the text begins with it. -/
theorem matchPrefix_behind (h : matchPrefix search p pi idx = .behind idx') :
    (∀ b ∈ p, isGlobChar b = false) ∧ search.drop idx = p ++ search.drop idx' ∧
      (idx ≤ search.length → idx' ≤ search.length) ∧ idx ≤ idx' := by
  induction p generalizing pi idx with
  | nil =>
    cases h
    exact ⟨fun b hb => absurd hb List.not_mem_nil, rfl, id, le_rfl⟩
  | cons c p ih =>
    rw [matchPrefix] at h
    split_ifs at h with hglob hsame
    obtain ⟨hp, hdrop, hle, hidx⟩ := ih h
    have hlt := (List.getElem?_eq_some_iff.mp hsame).1
    refine ⟨List.forall_mem_cons.mpr ⟨Bool.eq_false_iff.mpr hglob, hp⟩, ?_, fun _ => hle hlt,
      Nat.le_of_succ_le hidx⟩
    rw [drop_cons_of_getElem? hsame, hdrop, List.cons_append]

/-- A text that differs from the letters of a prefix matches no pattern that begins with it. -/
theorem matchPrefix_differs (h : matchPrefix search p pi idx = .differs) (pat : Bytes) :
    fnmatch (p ++ pat) (search.drop idx) = false ∧ ¬ p <+: search.drop idx := by
  induction p generalizing pi idx with
  | nil => cases h
  | cons c p ih =>
    rw [matchPrefix] at h
    split_ifs at h with hglob hsame
    · obtain ⟨hmatch, hfront⟩ := ih h
      rw [drop_cons_of_getElem? hsame]
      constructor
      · rw [Bool.eq_false_iff, List.cons_append, Ne,
          fnmatch_cons_iff (Bool.eq_false_iff.mpr hglob)]
        rintro ⟨rest, heq, htrue⟩
        cases heq
        rw [hmatch] at htrue
        cases htrue
      · rw [List.cons_prefix_cons]
        exact fun hsplit => hfront hsplit.2
    · have hdiffers : ∀ rest, search.drop idx ≠ c :: rest := by
        intro rest heq
        have hget := congrArg (·[0]?) heq
        rw [List.getElem?_drop, Nat.add_zero, List.getElem?_cons_zero] at hget
        exact hsame hget
      constructor
      · rw [Bool.eq_false_iff, List.cons_append, Ne,
          fnmatch_cons_iff (Bool.eq_false_iff.mpr hglob)]
        rintro ⟨rest, heq, -⟩
        exact hdiffers rest heq
      · rintro ⟨rest, heq⟩
        exact hdiffers _ heq.symm

end Prefix

end OxidizedSystemd.Hwdb
