import OxidizedSystemd.Hwdb.Search
import OxidizedSystemd.Lib.CallTree

/-!
# Lookup in a file that is not trusted

Whether a lookup returns depends on the offsets and sizes in the file: each sum that it computes has
to be a `usize`, and the search below a glob character must not come back to a node.

* `safe_trieFnmatch`, `safe_trieSearch`: a call is safe when what it computes fits and the calls
  that it makes are safe.
* `lookup_safe_iff`: when a lookup in an accepted file returns.
-/

namespace OxidizedSystemd.Hwdb

open Lib
open Relation (ReflTransGen TransGen)

/-! ## Calls -/

/-- A turn of the walk, at a node and a place in the modalias; or a call of the search below a glob
    character, at a node and a place in its prefix, with the pattern so far and the rest of the
    modalias. -/
inductive Call
  | walk (off idx : ℕ)
  | below (off start : ℕ) (buf tail : Bytes)

/-- What a call computes, apart from the calls that it makes, fits. -/
def Fits (db : Hwdb) (search : Bytes) : Call → Prop
  | .walk off idx => off + 24 < 2 ^ 64 ∧ ∀ node, nodeAt db.data off = some node →
      ∀ idx', matchPrefix search (db.nodePrefix node) 0 idx = .behind idx' →
        db.ChildrenFit off node ∧ (search[idx']? = none → db.ValuesFit off node)
  | .below off start buf tail => off + 24 < 2 ^ 64 ∧ ∀ node, nodeAt db.data off = some node →
      db.ChildrenFit off node ∧
        (0 < node.valuesCount ∧ fnmatch (buf ++ (db.nodePrefix node).drop start) tail = true →
          db.ValuesFit off node)

/-- The calls that a call makes. -/
inductive Calls (db : Hwdb) (search : Bytes) : Call → Call → Prop
  | glob {off idx pi idx' : ℕ} {node : TrieNode} (hnode : nodeAt db.data off = some node)
      (hstop : matchPrefix search (db.nodePrefix node) 0 idx = .glob pi idx') :
      Calls db search (.walk off idx) (.below off pi [] (searchTail search idx'))
  | probe {off idx idx' : ℕ} {node : TrieNode} {wc : UInt8} {child : ChildEntry}
      (hnode : nodeAt db.data off = some node)
      (hstop : matchPrefix search (db.nodePrefix node) 0 idx = .behind idx')
      (hwc : wc ∈ [star, question, opening])
      (hlookup : db.childLookup off node wc = .ok (some child)) :
      Calls db search (.walk off idx)
        (.below child.childOff 0 (edge wc) (searchTail search idx'))
  | next {off idx idx' : ℕ} {node : TrieNode} {ch : UInt8} {child : ChildEntry}
      (hnode : nodeAt db.data off = some node)
      (hstop : matchPrefix search (db.nodePrefix node) 0 idx = .behind idx')
      (hch : search[idx']? = some ch) (hlookup : db.childLookup off node ch = .ok (some child)) :
      Calls db search (.walk off idx) (.walk child.childOff (idx' + 1))
  | child {off start : ℕ} {buf tail : Bytes} {node : TrieNode} {child : ChildEntry}
      (hnode : nodeAt db.data off = some node) (hchild : child ∈ db.childrenAt off node) :
      Calls db search (.below off start buf tail)
        (.below child.childOff 0 (buf ++ (db.nodePrefix node).drop start ++ edge child.c) tail)

section Calls

variable {db : Hwdb} {search : Bytes} {off start idx fuel : ℕ} {buf tail : Bytes} {props : Props}

/-- At the end of a call the values are collected, or they are not. -/
theorem safe_collect_or_skip {node : TrieNode} {p : Prop} [Decidable p] (props : Props) :
    Safe (if p then db.collectValues off node props else pure props) ↔
      (p → db.ValuesFit off node) := by
  split_ifs with h
  · rw [safe_collectValues]
    exact (imp_iff_right h).symm
  · exact iff_of_true (safe_pure _) fun hp => absurd hp h

/-- The search below a glob character is safe when its calls finish within their fuel. -/
theorem safe_trieFnmatch (search : Bytes) (hcut : CutAt db off start) :
    Safe (trieFnmatch db tail fuel off start buf props) ↔
      FinishesWithin (db.Calls search) (db.Fits search) fuel (.below off start buf tail) := by
  induction fuel generalizing off start buf props with
  | zero => exact iff_of_false (not_safe_error _) id
  | succ fuel ih =>
    rw [FinishesWithin, trieFnmatch, TrieNode.safe_read_bind, Fits, and_assoc]
    refine and_congr_right fun hoff => ?_
    cases hnode : nodeAt db.data off with
    | none =>
      refine iff_of_true (safe_ok _) ⟨fun node h => (Option.some_ne_none node h.symm).elim, ?_⟩
      intro c' hcall
      cases hcall with
      | child h => cases hnode.symm.trans h
    | some node =>
      dsimp only
      have hloop : Safe ((db.childrenAt off node).foldlM (fun props child =>
          trieFnmatch db tail fuel child.childOff 0
            (buf ++ (db.nodePrefix node).drop start ++ edge child.c) props) props) ↔
          ∀ child ∈ db.childrenAt off node,
            FinishesWithin (db.Calls search) (db.Fits search) fuel (.below child.childOff 0
              (buf ++ (db.nodePrefix node).drop start ++ edge child.c) tail) := by
        refine safe_foldlM ?_ props
        intro child _ props
        exact ih (.inl rfl)
      rw [hcut.prefixFrom_eq hnode, ok_bind, safe_readChildren_bind,
        safe_bind_iff (fun props => safe_collect_or_skip props), hloop]
      constructor
      · rintro ⟨hfits, hbelow, hvalues⟩
        refine ⟨?_, ?_⟩
        · rintro node ⟨⟩
          exact ⟨hfits, hvalues⟩
        · intro c' hcall
          cases hcall with
          | child h hchild =>
            cases hnode.symm.trans h
            exact hbelow _ hchild
      · rintro ⟨hfits, hbelow⟩
        obtain ⟨hfits, hvalues⟩ := hfits node rfl
        exact ⟨hfits, fun child hchild => hbelow _ (.child hnode hchild), hvalues⟩

/-- What is done with a child is safe when its entry can be looked up, and with the child that is
    found. -/
theorem safe_withChild {node : TrieNode} {c : UInt8} {visit : ChildEntry → Props → Faulty Props}
    (hfits : db.ChildrenFit off node) :
    Safe (db.withChild off node c visit props) ↔
      ∀ child, db.childLookup off node c = .ok (some child) → Safe (visit child props) := by
  rw [withChild, childLookup_eq hfits, ok_bind]
  generalize (binarySearchByKey (fun e : ChildEntry => e.c.toNat) c.toNat
    (db.childrenAt off node)).bind (fun idx => (db.childrenAt off node)[idx]?) = found
  cases found with
  | none =>
    refine iff_of_true (safe_ok _) fun child h => ?_
    cases h
  | some child =>
    constructor
    · rintro h child' ⟨⟩
      exact h
    · intro h
      exact h child rfl

theorem childrenFit_of_safe {node : TrieNode} {c : UInt8}
    {visit : ChildEntry → Props → Faulty Props}
    (h : Safe (db.withChild off node c visit props)) : db.ChildrenFit off node := by
  obtain ⟨found, hlookup, -⟩ := safe_bind.mp h
  obtain ⟨children, hread, -⟩ := safe_bind.mp ⟨found, hlookup⟩
  exact safe_readChildren.mp ⟨children, hread⟩

theorem CutAt.of_glob {node : TrieNode} {pi idx' : ℕ} (hnode : nodeAt db.data off = some node)
    (hstop : matchPrefix search (db.nodePrefix node) 0 idx = .glob pi idx') :
    CutAt db off pi := by
  obtain ⟨front, c, rest, hsplit, hc, -, rfl, -⟩ := matchPrefix_glob hstop
  rw [Nat.zero_add]
  exact cutAt_glob hnode hsplit hc

/-- What a turn of the walk calls: the search below a glob character of the prefix, or behind the
    prefix the searches below the glob edges and the next turn. -/
theorem Calls.of_walk {node : TrieNode} {c : Call} (h : db.Calls search (.walk off idx) c)
    (hnode : nodeAt db.data off = some node) :
    (∃ pi idx', matchPrefix search (db.nodePrefix node) 0 idx = .glob pi idx' ∧
      c = .below off pi [] (searchTail search idx')) ∨
    ∃ idx', matchPrefix search (db.nodePrefix node) 0 idx = .behind idx' ∧
      ((∃ wc ∈ [star, question, opening], ∃ child,
        db.childLookup off node wc = .ok (some child) ∧
          c = .below child.childOff 0 (edge wc) (searchTail search idx')) ∨
      ∃ ch, search[idx']? = some ch ∧ ∃ child, db.childLookup off node ch = .ok (some child) ∧
        c = .walk child.childOff (idx' + 1)) := by
  cases h with
  | glob h hglob =>
    cases hnode.symm.trans h
    exact .inl ⟨_, _, hglob, rfl⟩
  | probe h hbehind hwc hlookup =>
    cases hnode.symm.trans h
    exact .inr ⟨_, hbehind, .inl ⟨_, hwc, _, hlookup, rfl⟩⟩
  | next h hbehind hch hlookup =>
    cases hnode.symm.trans h
    exact .inr ⟨_, hbehind, .inr ⟨_, hch, _, hlookup, rfl⟩⟩

/-- The walk is safe when its turns and calls finish within its fuel. -/
theorem safe_trieSearch :
    Safe (trieSearch db search fuel off idx props) ↔
      FinishesWithin (db.Calls search) (db.Fits search) fuel (.walk off idx) := by
  induction fuel generalizing off idx props with
  | zero => exact iff_of_false (not_safe_error _) id
  | succ fuel ih =>
    rw [FinishesWithin, trieSearch, TrieNode.safe_read_bind, Fits, and_assoc]
    refine and_congr_right fun hoff => ?_
    cases hnode : nodeAt db.data off with
    | none =>
      refine iff_of_true (safe_ok _) ⟨fun node h => (Option.some_ne_none node h.symm).elim, ?_⟩
      intro c' hcall
      cases hcall with
      | glob h => cases hnode.symm.trans h
      | probe h => cases hnode.symm.trans h
      | next h => cases hnode.symm.trans h
    | some node =>
      dsimp only
      cases hstop : matchPrefix search (db.nodePrefix node) 0 idx with
      | glob pi idx' =>
        dsimp only
        rw [safe_trieFnmatch search (CutAt.of_glob hnode hstop)]
        constructor
        · intro hfinishes
          refine ⟨?_, ?_⟩
          · rintro node ⟨⟩ idx'' hbehind
            cases hstop.symm.trans hbehind
          · intro c' hcall
            rcases hcall.of_walk hnode with ⟨pi', idx'', hglob, rfl⟩ | ⟨idx'', hbehind, -⟩
            · cases hstop.symm.trans hglob
              exact hfinishes
            · cases hstop.symm.trans hbehind
        · rintro ⟨-, hcalls⟩
          exact hcalls _ (.glob hnode hstop)
      | differs =>
        refine iff_of_true (safe_ok _) ⟨?_, ?_⟩
        · rintro node ⟨⟩ idx'' hbehind
          cases hstop.symm.trans hbehind
        · intro c' hcall
          rcases hcall.of_walk hnode with ⟨pi', idx'', hglob, -⟩ | ⟨idx'', hbehind, -⟩
          · cases hstop.symm.trans hglob
          · cases hstop.symm.trans hbehind
      | behind idx' =>
        dsimp only
        by_cases hfits : db.ChildrenFit off node
        · have hloop : Safe ([star, question, opening].foldlM (fun props wc =>
              db.withChild off node wc (fun child => trieFnmatch db (searchTail search idx') fuel
                child.childOff 0 (edge wc)) props) props) ↔
              ∀ wc ∈ [star, question, opening], ∀ child,
                db.childLookup off node wc = .ok (some child) →
                FinishesWithin (db.Calls search) (db.Fits search) fuel
                  (.below child.childOff 0 (edge wc) (searchTail search idx')) := by
            refine safe_foldlM ?_ props
            intro wc _ props
            rw [safe_withChild hfits]
            exact forall_congr' fun child => imp_congr_right fun _ =>
              safe_trieFnmatch search (.inl rfl)
          cases hget : search[idx']? with
          | none =>
            dsimp only
            rw [safe_bind_iff (fun props => safe_collectValues props), hloop]
            constructor
            · rintro ⟨hprobes, hvalues⟩
              refine ⟨?_, ?_⟩
              · rintro node ⟨⟩ idx'' hbehind
                cases hstop.symm.trans hbehind
                exact ⟨hfits, fun _ => hvalues⟩
              · intro c' hcall
                rcases hcall.of_walk hnode with ⟨pi', idx'', hglob, -⟩ | ⟨idx'', hbehind,
                  ⟨wc, hwc, child, hlookup, rfl⟩ | ⟨ch, hch, -⟩⟩
                · cases hstop.symm.trans hglob
                · cases hstop.symm.trans hbehind
                  exact hprobes wc hwc child hlookup
                · cases hstop.symm.trans hbehind
                  cases hget.symm.trans hch
            · rintro ⟨hthis, hcalls⟩
              exact ⟨fun wc hwc child hlookup => hcalls _ (.probe hnode hstop hwc hlookup),
                (hthis node rfl idx' hstop).2 hget⟩
          | some ch =>
            dsimp only
            have hnext : ∀ props, Safe (db.withChild off node ch
                (fun child => trieSearch db search fuel child.childOff (idx' + 1)) props) ↔
                ∀ child, db.childLookup off node ch = .ok (some child) →
                  FinishesWithin (db.Calls search) (db.Fits search) fuel
                    (.walk child.childOff (idx' + 1)) := by
              intro props
              rw [safe_withChild hfits]
              exact forall_congr' fun child => imp_congr_right fun _ => ih
            rw [safe_bind_iff hnext, hloop]
            constructor
            · rintro ⟨hprobes, hwalk⟩
              refine ⟨?_, ?_⟩
              · rintro node ⟨⟩ idx'' hbehind
                cases hstop.symm.trans hbehind
                refine ⟨hfits, fun hnone => ?_⟩
                cases hget.symm.trans hnone
              · intro c' hcall
                rcases hcall.of_walk hnode with ⟨pi', idx'', hglob, -⟩ | ⟨idx'', hbehind,
                  ⟨wc, hwc, child, hlookup, rfl⟩ | ⟨ch', hch, child, hlookup, rfl⟩⟩
                · cases hstop.symm.trans hglob
                · cases hstop.symm.trans hbehind
                  exact hprobes wc hwc child hlookup
                · cases hstop.symm.trans hbehind
                  cases hget.symm.trans hch
                  exact hwalk child hlookup
            · rintro ⟨-, hcalls⟩
              exact ⟨fun wc hwc child hlookup => hcalls _ (.probe hnode hstop hwc hlookup),
                fun child hlookup => hcalls _ (.next hnode hstop hget hlookup)⟩
        · refine iff_of_false (fun hsafe => hfits ?_) fun h => hfits (h.1 node rfl idx' hstop).1
          -- the first search for an edge reads the children
          obtain ⟨props', hloop, -⟩ := safe_bind.mp hsafe
          rw [List.foldlM_cons] at hloop
          obtain ⟨props'', hfirst, -⟩ := safe_bind.mp ⟨props', hloop⟩
          exact childrenFit_of_safe ⟨props'', hfirst⟩

/-! ## Chains of calls -/

/-- The links of the trie. -/
def Child (db : Hwdb) (off off' : ℕ) : Prop :=
  ∃ node child, nodeAt db.data off = some node ∧ child ∈ db.childrenAt off node ∧
    child.childOff = off'

theorem mem_of_lookup {node : TrieNode} {c : UInt8} {child : ChildEntry}
    (h : db.childLookup off node c = .ok (some child)) :
    child ∈ db.childrenAt off node ∧ child.c = c := by
  obtain ⟨children, hread, -⟩ := safe_bind.mp ⟨some child, h⟩
  exact mem_of_childLookup (safe_readChildren.mp ⟨children, hread⟩) h

theorem finite_calls (c : Call) : {c' | db.Calls search c c'}.Finite := by
  cases c with
  | below off start buf tail =>
    cases hnode : nodeAt db.data off with
    | none =>
      refine Set.finite_empty.subset ?_
      intro c' hcall
      cases hcall with
      | child h => cases hnode.symm.trans h
    | some node =>
      refine ((List.finite_toSet (db.childrenAt off node)).image fun child =>
        Call.below child.childOff 0 (buf ++ (db.nodePrefix node).drop start ++ edge child.c)
          tail).subset ?_
      rintro c' hcall
      cases hcall with
      | child h hchild =>
        cases hnode.symm.trans h
        exact ⟨_, hchild, rfl⟩
  | walk off idx =>
    cases hnode : nodeAt db.data off with
    | none =>
      refine Set.finite_empty.subset ?_
      rintro c' hcall
      cases hcall with
      | glob h => cases hnode.symm.trans h
      | probe h => cases hnode.symm.trans h
      | next h => cases hnode.symm.trans h
    | some node =>
      have hchildren := List.finite_toSet (db.childrenAt off node)
      cases hstop : matchPrefix search (db.nodePrefix node) 0 idx with
      | glob pi idx' =>
        refine (Set.finite_singleton (Call.below off pi [] (searchTail search idx'))).subset ?_
        intro c' hcall
        rcases hcall.of_walk hnode with ⟨pi', idx'', hglob, rfl⟩ | ⟨idx'', hbehind, -⟩
        · cases hstop.symm.trans hglob
          exact Set.mem_singleton _
        · cases hstop.symm.trans hbehind
      | differs =>
        refine Set.finite_empty.subset ?_
        intro c' hcall
        rcases hcall.of_walk hnode with ⟨pi', idx'', hglob, -⟩ | ⟨idx'', hbehind, -⟩
        · cases hstop.symm.trans hglob
        · cases hstop.symm.trans hbehind
      | behind idx' =>
        refine ((hchildren.image fun child =>
          Call.below child.childOff 0 (edge child.c) (searchTail search idx')).union
            (hchildren.image fun child => Call.walk child.childOff (idx' + 1))).subset ?_
        intro c' hcall
        rcases hcall.of_walk hnode with ⟨pi', idx'', hglob, -⟩ | ⟨idx'', hbehind,
          ⟨wc, hwc, child, hlookup, rfl⟩ | ⟨ch, -, child, hlookup, rfl⟩⟩
        · cases hstop.symm.trans hglob
        · cases hstop.symm.trans hbehind
          obtain ⟨hchild, rfl⟩ := mem_of_lookup hlookup
          exact .inl ⟨child, hchild, rfl⟩
        · cases hstop.symm.trans hbehind
          exact .inr ⟨child, (mem_of_lookup hlookup).1, rfl⟩

/-- Below a glob character a call goes to the children of its node. -/
theorem Calls.of_below {c : Call} (h : db.Calls search (.below off start buf tail) c) :
    ∃ off' buf', db.Child off off' ∧ c = .below off' 0 buf' tail := by
  cases h with
  | child hnode hchild => exact ⟨_, _, ⟨_, _, hnode, hchild, rfl⟩, rfl⟩

theorem exists_calls_of_child (search : Bytes) {off' : ℕ} (h : db.Child off off') :
    ∃ buf', db.Calls search (.below off start buf tail) (.below off' 0 buf' tail) := by
  obtain ⟨node, child, hnode, hchild, rfl⟩ := h
  exact ⟨_, .child hnode hchild⟩

/-- The search below a glob character follows the links of the trie. -/
theorem acc_below_iff :
    Acc (Function.swap (db.Calls search)) (.below off start buf tail) ↔
      Acc (Function.swap db.Child) off := by
  constructor
  · intro h
    generalize hc : Call.below off start buf tail = c at h
    induction h generalizing off start buf with
    | intro c hacc ih =>
      subst hc
      refine Acc.intro off fun off' hchild => ?_
      obtain ⟨buf', hcall⟩ := exists_calls_of_child search hchild
      exact ih _ hcall rfl
  · intro h
    induction h generalizing start buf with
    | intro off hacc ih =>
      refine Acc.intro _ fun c hcall => ?_
      obtain ⟨off', buf', hchild, rfl⟩ := hcall.of_below
      exact ih off' hchild

theorem exists_reached_of_child {off' : ℕ} (h : ReflTransGen db.Child off off') :
    ∃ start' buf', ReflTransGen (db.Calls search) (.below off start buf tail)
      (.below off' start' buf' tail) := by
  induction h with
  | refl => exact ⟨start, buf, .refl⟩
  | tail _ hchild ih =>
    obtain ⟨start', buf', hreach⟩ := ih
    obtain ⟨buf'', hcall⟩ := exists_calls_of_child search hchild
    exact ⟨0, buf'', hreach.tail hcall⟩

/-- Only nodes in the file have children. -/
theorem lt_length_of_child {off' : ℕ} (h : db.Child off off') :
    off ∈ Finset.range db.data.length := by
  obtain ⟨node, child, hnode, -⟩ := h
  unfold nodeAt at hnode
  split_ifs at hnode with hshort
  exact Finset.mem_range.mpr (by omega)

/-- A chain of turns takes bytes of the modalias, so a chain of calls ends if it does below the glob
    characters. -/
theorem acc_walk (h : ∀ off' start buf tail,
      ReflTransGen (db.Calls search) (.walk off idx) (.below off' start buf tail) →
        Acc (Function.swap (db.Calls search)) (.below off' start buf tail)) :
    Acc (Function.swap (db.Calls search)) (.walk off idx) := by
  generalize hleft : search.length - idx = left
  induction left using Nat.strong_induction_on generalizing off idx with
  | _ left ih =>
    refine Acc.intro _ fun c hcall => ?_
    cases hcall with
    | glob hnode hstop => exact h _ _ _ _ (.single (.glob hnode hstop))
    | probe hnode hstop hwc hlookup => exact h _ _ _ _ (.single (.probe hnode hstop hwc hlookup))
    | next hnode hstop hch hlookup =>
      rename_i idx' node ch child
      have hlt := (List.getElem?_eq_some_iff.mp hch).1
      have hle := (matchPrefix_behind hstop).2.2.2
      refine ih (search.length - (idx' + 1)) (by omega) ?_ rfl
      intro off' start buf tail hreach
      exact h _ _ _ _ (.head (.next hnode hstop hch hlookup) hreach)

end Calls

/-! ## Safe lookups -/

/-- The calls that a lookup makes. -/
def Reached (db : Hwdb) (modalias : String) : Call → Prop :=
  ReflTransGen (db.Calls (asBytes modalias)) (.walk db.header.nodesRootOff 0)

/-- A lookup returns exactly if what its calls compute fits, and the search below a glob character
    never enters a node that is below itself. -/
theorem lookup_safe_iff (db : Hwdb) (modalias : String) :
    (∃ fuel, Safe (db.lookup fuel modalias)) ↔
      (∀ c, db.Reached modalias c → db.Fits (asBytes modalias) c) ∧
      ∀ off start buf tail, db.Reached modalias (.below off start buf tail) →
        ¬ TransGen db.Child off off := by
  have hlookup : ∀ fuel, Safe (db.lookup fuel modalias) ↔ FinishesWithin
      (db.Calls (asBytes modalias)) (db.Fits (asBytes modalias)) fuel
      (.walk db.header.nodesRootOff 0) := by
    intro fuel
    rw [lookup, safe_map]
    exact safe_trieSearch
  rw [exists_congr hlookup, exists_finishesWithin_iff finite_calls]
  refine and_congr_right fun _ => ⟨fun hacc off start buf tail hreach => ?_, fun h => ?_⟩
  · exact not_cycle_of_acc (acc_below_iff.mp (acc_of_reached hacc hreach))
  · refine acc_walk fun off start buf tail hreach => acc_below_iff.mpr ?_
    rw [acc_iff_no_cycle fun a b => lt_length_of_child]
    intro off' hchild
    obtain ⟨start', buf', hbelow⟩ := exists_reached_of_child hchild
    exact h off' start' buf' tail (hreach.trans hbelow)

/-! ## A root near the end of the words -/

/-- A file of a header alone, with the root of the trie at the last offset that there is. -/
def farBytes : Bytes :=
  hwdbSig ++ [0, 80, 80, 24, 16, 16, 2 ^ 64 - 1, 0, 0].flatMap (toLe 8)

theorem farBytes_lt : farBytes.length < 2 ^ 63 := by decide

def farHwdb : Hwdb where
  data := farBytes
  header := ⟨0, 80, 80, 24, 16, 16, 2 ^ 64 - 1, 0, 0⟩
  length_lt := farBytes_lt

/-- The file is accepted, and a lookup adds to the offset of the root. -/
theorem far_root_overflows : fromBytes farBytes farBytes_lt = .ok (.ok farHwdb) ∧
    ¬ ∃ fuel, Safe (farHwdb.lookup fuel "") := by
  constructor
  · rw [fromBytes_ok_iff]
    refine ⟨by decide, by decide, by decide, ?_⟩
    have hheader : headerAt farBytes = ⟨0, 80, 80, 24, 16, 16, 2 ^ 64 - 1, 0, 0⟩ := by
      decide
    rw [hheader]
    rfl
  · rintro ⟨fuel, hsafe⟩
    rw [lookup, safe_map, collected, safe_trieSearch] at hsafe
    have hfits := hsafe.succeeds_of_reached .refl
    exact absurd hfits.1 (by decide)

end OxidizedSystemd.Hwdb
