import Mathlib.Data.List.Nodup
import OxidizedSystemd.UnitParsing.UnitParser

/-!
# The numbers of entries

`parse_section` numbers the assignments of a block, and `parse_file` merges the blocks of one
header.
`parse_socket_section` (`units/unit_parsing/socket_unit.rs`, lines 226–273) sorts the `Listen*=`
assignments of a socket by their numbers.

* `entryNumber_eq`: a number counts the entries of one block.
* `keepsOrder_iff`: the files whose numbers keep the order of their lines.
-/

namespace OxidizedSystemd.UnitParsing

open Lib

/-! ## Numbers -/

/-- The blocks of a file. -/
def fileBlocks (content : Text) : List (Text × List Text) :=
  blocks (joinLines [] (content.splitOn '\n'))

variable (u : UpperCase)

/-- The assignments of each block of a section, in the order of the file. -/
def sectionBlocks (content header : Text) : List (List (Text × Text)) :=
  (valuesAt (fileBlocks content) header).map (lineEntries u)

/-- The assignments of a section, in the order of the file. -/
def sectionEntries (content header : Text) : List (Text × Text) :=
  (sectionBlocks u content header).flatten

/-- The number that `parse_file` gives to an assignment of a section: the one that its value has
    among the values of its key. -/
def entryNumber (content header : Text) (i : ℕ) : Option ℕ := do
  let (key, _) ← (sectionEntries u content header)[i]?
  let parsed ← (parseFile u content).get? header
  let values ← parsed.get? key
  let (number, _) ← values[((sectionEntries u content header).take i).countP (·.1 = key)]?
  return number

/-- The number of an earlier line of a section is smaller than the one of a later line. -/
def KeepsOrder (content : Text) : Prop :=
  ∀ header i j, i < j → j < (sectionEntries u content header).length →
    ∃ n m, entryNumber u content header i = some n ∧ entryNumber u content header j = some m ∧ n < m

/-! ## Sockets -/

/-- `SocketKind`. -/
inductive SocketKind
  | stream (address : Text)
  | sequential (address : Text)
  | datagram (address : Text)
  | fifo (address : Text)
  | netlink (address : Text)
  | special (address : Text)
  | messageQueue (name : Text)
  deriving DecidableEq

/-- The listen directives, in the order in which they are collected (lines 226–268). -/
def listenKinds : List (String × (Text → SocketKind)) :=
  [("LISTENSTREAM", .stream), ("LISTENDATAGRAM", .datagram),
    ("LISTENSEQUENTIALPACKET", .sequential),
    ("LISTENFIFO", .fifo), ("LISTENMESSAGEQUEUE", .messageQueue), ("LISTENNETLINK", .netlink),
    ("LISTENSPECIAL", .special)]

/-- `socket_kinds` of `parse_socket_section` (lines 226–273): collected by directive, and sorted by
    number. -/
def socketKinds (parsed : ParsedSection) : List SocketKind :=
  let collected := listenKinds.flatMap fun (key, kind) =>
    ((parsed.get? key.toList).getD []).map fun (number, value) => (number, kind value)
  (collected.mergeSort fun l r => l.1 ≤ r.1).map Prod.snd

/-- What an assignment of a socket listens on. -/
def listenKind (entry : Text × Text) : Option SocketKind :=
  (listenKinds.find? (·.1.toList = entry.1)).map fun (_, kind) => kind entry.2

/-- A socket listens in the order of its file. -/
def ListensInOrder (content : Text) : Prop :=
  ∀ parsed, (parseFile u content).get? "[Socket]".toList = some parsed →
    socketKinds parsed = (sectionEntries u content "[Socket]".toList).filterMap listenKind

/-- No section has assignments behind two of its headers. -/
def OneBlock (content : Text) : Prop :=
  ∀ header, ((sectionBlocks u content header).filter fun entries => !entries.isEmpty).length ≤ 1

variable {u : UpperCase} {content header : Text}

/-! ## Numbers as places in a block -/

/-- The assignments of a section with their numbers, in the order of the file. -/
def numberedEntries (u : UpperCase) (content header : Text) : List (Text × (ℕ × Text)) :=
  (sectionBlocks u content header).flatMap (numbered 0)

theorem get?_parseFile (u : UpperCase) (content header : Text) :
    (parseFile u content).get? header =
      if sectionBlocks u content header = [] then none
      else some (groups (numberedEntries u content header)) := by
  have hblocks : parseFile u content = mergeBlocks u SortedMap.empty (fileBlocks content) :=
    parseJoined_eq _
  rw [hblocks, get?_mergeBlocks, numberedEntries, sectionBlocks, List.flatMap_map]
  cases valuesAt (fileBlocks content) header with
  | nil => rfl
  | cons lines parts => rfl

theorem sectionEntries_eq (u : UpperCase) (content header : Text) :
    sectionEntries u content header =
      (numberedEntries u content header).map fun p => (p.1, p.2.2) := by
  rw [sectionEntries, numberedEntries, List.map_flatMap]
  simp only [map_numbered]
  rw [List.flatMap_id']

/-- The number of an assignment is its place in its block. -/
theorem entryNumber_eq (u : UpperCase) (content header : Text) (i : ℕ) :
    entryNumber u content header i = (numberedEntries u content header)[i]?.map (·.2.1) := by
  rw [entryNumber, sectionEntries_eq, List.getElem?_map]
  cases hi : (numberedEntries u content header)[i]? with
  | none => rfl
  | some p =>
    obtain ⟨key, number, value⟩ := p
    have hne : sectionBlocks u content header ≠ [] := by
      intro hnil
      rw [numberedEntries, hnil] at hi
      cases hi
    have hvalue : (valuesAt (numberedEntries u content header) key)[((numberedEntries u content
        header).take i).countP (·.1 = key)]? = some (number, value) := by
      convert getElem?_valuesAt hi
    have hvalues : valuesAt (numberedEntries u content header) key ≠ [] := by
      intro hnil
      rw [hnil] at hvalue
      cases hvalue
    have hcount : (((numberedEntries u content header).map fun p => (p.1, p.2.2)).take i).countP
        (·.1 = key) = ((numberedEntries u content header).take i).countP (·.1 = key) := by
      rw [← List.map_take, List.countP_map]
      rfl
    simp only [Option.map_some, Option.bind_eq_bind, Option.bind_some]
    rw [get?_parseFile, if_neg hne, Option.bind_some, get?_groups, nonEmpty, if_neg hvalues,
      Option.bind_some, hcount, hvalue]
    rfl

theorem map_number_numbered (n : ℕ) (entries : List (Text × Text)) :
    (numbered n entries).map (·.2.1) = List.range' n entries.length := by
  rw [numbered, List.map_map]
  exact List.zipIdx_map_snd n entries

theorem map_number_numberedEntries (u : UpperCase) (content header : Text) :
    (numberedEntries u content header).map (·.2.1) =
      (sectionBlocks u content header).flatMap fun entries => List.range entries.length := by
  rw [numberedEntries, List.map_flatMap]
  simp only [map_number_numbered, List.range_eq_range']

/-- Numbers that begin at zero in each block rise through all blocks if one of them has any. -/
theorem pairwise_flatMap_range_iff {α : Type*} (parts : List (List α)) :
    (parts.flatMap fun part => List.range part.length).Pairwise (· < ·) ↔
      (parts.filter fun part => !part.isEmpty).length ≤ 1 := by
  induction parts with
  | nil => simp
  | cons part parts ih =>
    cases part with
    | nil => simpa using ih
    | cons a part =>
      have hempty : (∀ n ∈ parts.flatMap fun part => List.range part.length, 0 < n) ↔
          parts.filter (fun part => !part.isEmpty) = [] := by
        rw [List.filter_eq_nil_iff]
        constructor
        · intro h other hother hne
          have hpos : 0 < other.length := by
            cases other with
            | nil => simp at hne
            | cons b other => simp
          exact absurd (h 0 (List.mem_flatMap.mpr ⟨other, hother, List.mem_range.mpr hpos⟩))
            (Nat.lt_irrefl 0)
        · intro h n hn
          obtain ⟨other, hother, hrange⟩ := List.mem_flatMap.mp hn
          have hnil : other = [] := by simpa using h other hother
          simp [hnil] at hrange
      have hone : ((a :: part) :: parts.filter fun part => !part.isEmpty).length ≤ 1 ↔
          parts.filter (fun part => !part.isEmpty) = [] := by simp
      rw [List.flatMap_cons, List.pairwise_append, List.filter_cons_of_pos (by rfl), hone, ← hempty]
      constructor
      · rintro ⟨-, -, h⟩ n hn
        exact h 0 (List.mem_range.mpr (by simp)) n hn
      · intro h
        have hnil : parts.flatMap (fun part => List.range part.length) = [] := by
          rw [List.flatMap_eq_nil_iff]
          intro other hother
          have hother : other = [] := by
            simpa using List.filter_eq_nil_iff.mp (hempty.mp h) other hother
          rw [hother]
          rfl
        rw [hnil]
        exact ⟨List.pairwise_lt_range, List.Pairwise.nil, by simp⟩

theorem numbers_pairwise_iff (u : UpperCase) (content header : Text) :
    ((numberedEntries u content header).map (·.2.1)).Pairwise (· < ·) ↔
      ((sectionBlocks u content header).filter fun entries => !entries.isEmpty).length ≤ 1 := by
  rw [map_number_numberedEntries]
  exact pairwise_flatMap_range_iff _

/-- The numbers of a file keep the order of its lines if no section is entered twice. -/
theorem keepsOrder_iff (u : UpperCase) (content : Text) :
    KeepsOrder u content ↔ OneBlock u content := by
  refine forall_congr' fun header => ?_
  have hnumber : ∀ i, entryNumber u content header i =
      ((numberedEntries u content header).map (·.2.1))[i]? := by
    intro i
    rw [entryNumber_eq, List.getElem?_map]
  have hlen : (sectionEntries u content header).length =
      ((numberedEntries u content header).map (·.2.1)).length := by
    rw [sectionEntries_eq, List.length_map, List.length_map]
  rw [← numbers_pairwise_iff, List.pairwise_iff_getElem]
  simp only [hnumber, hlen]
  constructor
  · intro h i j hi hj hij
    obtain ⟨n, m, hn, hm, hlt⟩ := h i j hij hj
    rw [List.getElem?_eq_getElem hi, Option.some_inj] at hn
    rw [List.getElem?_eq_getElem hj, Option.some_inj] at hm
    rwa [hn, hm]
  · intro h i j hij hj
    have hi := Nat.lt_trans hij hj
    exact ⟨_, _, List.getElem?_eq_getElem hi, List.getElem?_eq_getElem hj, h i j hi hj hij⟩

/-! ## The order of a socket -/

/-- The number and the kind of a numbered assignment of a socket. -/
def numberedKind (p : Text × (ℕ × Text)) : Option (ℕ × SocketKind) :=
  (listenKind (p.1, p.2.2)).map fun kind => (p.2.1, kind)

theorem listenKind_eq {entry : String × (Text → SocketKind)} (h : entry ∈ listenKinds)
    (value : Text) : listenKind (entry.1.toList, value) = some (entry.2 value) := by
  have hnodup : (listenKinds.map Prod.fst).Nodup := by decide
  have hsome : (listenKinds.find? (·.1.toList = entry.1.toList)).isSome :=
    List.find?_isSome.mpr ⟨entry, h, decide_eq_true rfl⟩
  obtain ⟨found, hfound⟩ := Option.isSome_iff_exists.mp hsome
  have hkey : found.1 = entry.1 := by
    have hmatches := List.find?_some hfound
    exact String.toList_injective (of_decide_eq_true hmatches)
  have heq : found = entry :=
    List.inj_on_of_nodup_map hnodup (List.mem_of_find?_eq_some hfound) h hkey
  rw [listenKind, hfound, heq]
  rfl

/-- What is collected by directive is what the lines listen on, in some order. -/
theorem collected_perm (ps : List (Text × (ℕ × Text))) :
    (listenKinds.flatMap fun (key, kind) =>
      (((groups ps).get? key.toList).getD []).map fun (number, value) => (number, kind value)).Perm
      (ps.filterMap numberedKind) := by
  have hkeys : (listenKinds.map (·.1.toList)).Nodup := by simp [listenKinds]
  have hperm := (flatMap_valuesAt_perm (fun key (v : ℕ × Text) => numberedKind (key, v)) hkeys
    ps).filterMap id
  have hleft : (listenKinds.flatMap fun (key, kind) =>
      (((groups ps).get? key.toList).getD []).map fun (number, value) => (number, kind value)) =
      ((listenKinds.map (·.1.toList)).flatMap fun k =>
        (valuesAt ps k).map fun v => numberedKind (k, v)).filterMap id := by
    rw [List.flatMap_map, List.filterMap_flatMap]
    refine List.flatMap_congr fun entry hentry => ?_
    obtain ⟨key, kind⟩ := entry
    have hget : ((groups ps).get? key.toList).getD [] = valuesAt ps key.toList := by
      rw [get?_groups, nonEmpty]
      split_ifs with hnil
      · exact hnil.symm
      · rfl
    have hkind : (fun v : ℕ × Text => numberedKind (key.toList, v)) =
        fun v => some (v.1, kind v.2) := by
      funext v
      rw [numberedKind, listenKind_eq hentry]
      rfl
    dsimp only
    rw [hget, List.filterMap_map, hkind, Function.id_comp, List.filterMap_eq_map']
  rw [← hleft, List.filterMap_map, List.filterMap_filter] at hperm
  refine hperm.trans (.of_eq (List.filterMap_congr fun p _ => ?_))
  split_ifs with hmem
  · rfl
  · -- a key that is none of a listen directive
    rw [numberedKind, listenKind, List.find?_eq_none.mpr]
    · rfl
    · intro entry hentry heq
      refine hmem (@decide_eq_true _ (_) ?_)
      exact List.mem_map.mpr ⟨entry, hentry, of_decide_eq_true heq⟩

/-- A socket whose numbers keep the order of its lines listens in that order. -/
theorem socketKinds_eq {ps : List (Text × (ℕ × Text))} (h : (ps.map (·.2.1)).Pairwise (· < ·)) :
    socketKinds (groups ps) = (ps.map fun p => (p.1, p.2.2)).filterMap listenKind := by
  have hrises : (ps.filterMap numberedKind).Pairwise fun l r => l.1 < r.1 := by
    refine List.Pairwise.filterMap _ ?_ (List.pairwise_map.mp h)
    intro p q hlt l hl r hr
    obtain ⟨kind, -, rfl⟩ := Option.map_eq_some_iff.mp hl
    obtain ⟨kind', -, rfl⟩ := Option.map_eq_some_iff.mp hr
    exact hlt
  have hnodup : ((ps.filterMap numberedKind).map Prod.fst).Nodup := by
    rw [List.nodup_iff_pairwise_ne, List.pairwise_map]
    exact hrises.imp fun hlt => Nat.ne_of_lt hlt
  have hsorted : (listenKinds.flatMap fun (key, kind) =>
      (((groups ps).get? key.toList).getD []).map fun (number, value) =>
        (number, kind value)).mergeSort (fun l r => l.1 ≤ r.1) = ps.filterMap numberedKind := by
    have hperm := (List.mergeSort_perm _ fun l r : ℕ × SocketKind => decide (l.1 ≤ r.1)).trans
      (collected_perm ps)
    refine @List.Perm.eq_of_pairwise _ (fun l r => l.1 ≤ r.1) _ _ ?_ ?_ ?_ hperm
    · intro l r hl hr hle hge
      exact List.inj_on_of_nodup_map hnodup (hperm.subset hl) hr (Nat.le_antisymm hle hge)
    · have hpairwise := @List.pairwise_mergeSort _ (fun l r : ℕ × SocketKind => l.1 ≤ r.1)
        (fun a b c hab hbc => by
          simp only [decide_eq_true_eq] at hab hbc ⊢
          exact Nat.le_trans hab hbc)
        fun a b => by simpa using Nat.le_total a.1 b.1
      exact (hpairwise _).imp fun hle => of_decide_eq_true hle
    · exact hrises.imp fun hlt => Nat.le_of_lt hlt
  rw [socketKinds]
  dsimp only
  rw [hsorted, List.map_filterMap, List.filterMap_map]
  refine List.filterMap_congr fun p _ => ?_
  rw [numberedKind, Option.map_map]
  exact Option.map_id'

/-- The entries of a file keep its order, and with them its listen directives, exactly if no
    section has assignments behind two of its headers. -/
theorem entryOrder_iff (u : UpperCase) (content : Text) :
    KeepsOrder u content ∧ ListensInOrder u content ↔ OneBlock u content := by
  constructor
  · rintro ⟨h, -⟩
    exact (keepsOrder_iff u content).mp h
  · intro h
    refine ⟨(keepsOrder_iff u content).mpr h, fun parsed hparsed => ?_⟩
    rw [get?_parseFile] at hparsed
    split_ifs at hparsed
    rw [← Option.some.inj hparsed, sectionEntries_eq]
    exact socketKinds_eq ((numbers_pairwise_iff u content _).mpr (h _))

/-- A socket with two sections, whose first address is the second one in the file. -/
theorem second_section_first :
    ¬ (KeepsOrder .ascii "[Socket]\nBacklog=9\nListenFIFO=/a\n[Socket]\nListenStream=/b".toList ∧
      ListensInOrder .ascii
        "[Socket]\nBacklog=9\nListenFIFO=/a\n[Socket]\nListenStream=/b".toList) := by
  rintro ⟨h, -⟩
  obtain ⟨n, m, hn, hm, hlt⟩ := h "[Socket]".toList 1 2 (by decide) (by decide)
  have hn' : entryNumber .ascii
      "[Socket]\nBacklog=9\nListenFIFO=/a\n[Socket]\nListenStream=/b".toList "[Socket]".toList 1 =
      some 1 := by decide
  have hm' : entryNumber .ascii
      "[Socket]\nBacklog=9\nListenFIFO=/a\n[Socket]\nListenStream=/b".toList "[Socket]".toList 2 =
      some 0 := by decide
  rw [hn'] at hn
  rw [hm'] at hm
  rw [← Option.some.inj hn, ← Option.some.inj hm] at hlt
  exact absurd hlt (by decide)

end OxidizedSystemd.UnitParsing
