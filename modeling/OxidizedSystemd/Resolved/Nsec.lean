import OxidizedSystemd.Lib.Compare
import OxidizedSystemd.Lib.CyclicOrder
import OxidizedSystemd.Resolved.Routing

/-!
# Denial of existence

`NsecRecord::denies_name` and `canonical_name_order` of `resolved/src/dnssec.rs` (lines 714–774 and
1410–1432): names are compared label by label from the right, and a record denies what is
between its own name and the next one.

`to_lowercase` is a parameter with the two facts about it that the comparison rests on.

* `canonicalNameOrder_eq_compare`: the order is that of the labels from the right.
* `deniesName_eq_inGap`: a record denies the names in its gap.
* `countP_deniesName`: a chain denies every other name by one record.
-/

namespace OxidizedSystemd.Resolved

open OxidizedSystemd.Lib

/-! ## Names -/

/-- `str::to_lowercase`: what is in lower case stays as it is, and no dot comes to the end. -/
structure LowerCase where
  lower : List Char → List Char
  lower_lower : ∀ s, lower (lower s) = lower s
  getLast?_lower : ∀ s, (lower s).getLast? = some '.' → s.getLast? = some '.'

theorem toLower_of_lt {c : Char} (h : c.toNat < 128) :
    c.toLower.toLower = c.toLower ∧ (c.toLower = '.' → c = '.') := by
  have hall : ∀ n < 128, (Char.ofNat n).toLower.toLower = (Char.ofNat n).toLower ∧
      ((Char.ofNat n).toLower = '.' → Char.ofNat n = '.') := by decide
  have hc := hall c.toNat h
  rwa [Char.ofNat_toNat] at hc

theorem toLower_of_ge {c : Char} (h : ¬c.toNat < 128) : c.toLower = c := by
  have hupper : ¬(c.val ≥ 'A'.val ∧ c.val ≤ 'Z'.val) := by
    intro hc
    have hle : c.toNat ≤ 90 := UInt32.le_iff_toNat_le.mp hc.2
    omega
  exact dif_neg hupper

/-- The lower case of ASCII characters. -/
def LowerCase.ascii : LowerCase where
  lower := toAsciiLowercase
  lower_lower := by
    have hchar : ∀ c : Char, c.toLower.toLower = c.toLower := by
      intro c
      by_cases hc : c.toNat < 128
      · exact (toLower_of_lt hc).1
      · rw [toLower_of_ge hc, toLower_of_ge hc]
    intro s
    simp [toAsciiLowercase, hchar]
  getLast?_lower := by
    intro s hs
    rw [toAsciiLowercase, List.getLast?_map, Option.map_eq_some_iff] at hs
    obtain ⟨c, hc, hdot⟩ := hs
    by_cases hlt : c.toNat < 128
    · rwa [← (toLower_of_lt hlt).2 hdot]
    · rwa [← hdot, toLower_of_ge hlt]

/-- `name.trim_end_matches('.').to_lowercase()`. -/
def LowerCase.canonical (l : LowerCase) (name : List Char) : List Char :=
  l.lower (trimEndDots name)

/-- `canonical_name_order`. Text is ordered by its bytes, which is the order of its characters. -/
def canonicalNameOrder (l : LowerCase) (a b : List Char) : Ordering :=
  let aLabels := ((l.canonical a).splitOn '.').reverse
  let bLabels := ((l.canonical b).splitOn '.').reverse
  (aLabels.zip bLabels).foldr (fun labels rest => (compare labels.1 labels.2).then rest)
    (compare aLabels.length bLabels.length)

/-- `NsecRecord`. -/
structure NsecRecord where
  name : List Char
  nextName : List Char
  types : List ℕ
  ttl : ℕ

/-- `denies_name`. -/
def NsecRecord.deniesName (l : LowerCase) (r : NsecRecord) (qname : List Char) : Bool :=
  let qname := l.canonical qname
  let owner := l.canonical r.name
  let next := l.canonical r.nextName
  if owner = next then qname ≠ owner
  else if canonicalNameOrder l owner next = .lt then
    canonicalNameOrder l owner qname = .lt ∧ canonicalNameOrder l qname next = .lt
  else
    canonicalNameOrder l owner qname = .lt ∨ canonicalNameOrder l qname next = .lt

/-! ## The order -/

section Order

variable {l : LowerCase} {a b c : List Char}

theorem trimEndDots_eq_self (h : a.getLast? ≠ some '.') : trimEndDots a = a := by
  rw [trimEndDots, dropWhile_eq_self_iff_head?.mpr, List.reverse_reverse]
  intro c hc
  rw [List.head?_reverse] at hc
  apply decide_eq_false
  rintro rfl
  exact h hc

theorem getLast?_trimEndDots (a : List Char) : (trimEndDots a).getLast? ≠ some '.' := by
  intro h
  rw [trimEndDots, List.getLast?_reverse] at h
  have hnot := List.head?_dropWhile_not (fun c => decide (c = '.')) a.reverse
  rw [h] at hnot
  simp at hnot

/-- The functions normalize names that are normalized already. -/
@[simp] theorem canonical_canonical (l : LowerCase) (a : List Char) :
    l.canonical (l.canonical a) = l.canonical a := by
  have hlast : (l.canonical a).getLast? ≠ some '.' := fun h =>
    getLast?_trimEndDots a (l.getLast?_lower _ h)
  rw [LowerCase.canonical, trimEndDots_eq_self hlast, LowerCase.canonical, l.lower_lower]

/-- The labels of a name from the right. -/
def LowerCase.key (l : LowerCase) (name : List Char) : List (List Char) :=
  ((l.canonical name).splitOn '.').reverse

theorem key_canonical (l : LowerCase) (a : List Char) : l.key (l.canonical a) = l.key a := by
  rw [LowerCase.key, canonical_canonical, LowerCase.key]

theorem key_inj : l.key a = l.key b ↔ l.canonical a = l.canonical b := by
  rw [LowerCase.key, LowerCase.key, List.reverse_inj]
  refine ⟨fun h => ?_, fun h => by rw [h]⟩
  calc l.canonical a = ['.'].intercalate ((l.canonical a).splitOn '.') :=
        (List.intercalate_splitOn '.').symm
    _ = ['.'].intercalate ((l.canonical b).splitOn '.') := by rw [h]
    _ = l.canonical b := List.intercalate_splitOn '.'

/-- The loop over the common labels, then the lengths: the order of lists. -/
theorem canonicalNameOrder_eq_compare (l : LowerCase) (a b : List Char) :
    canonicalNameOrder l a b = compare (l.key a) (l.key b) :=
  foldr_zip_then_length (l.key a) (l.key b)

theorem canonicalNameOrder_eq_lt : canonicalNameOrder l a b = .lt ↔ Before (l.key a) (l.key b) := by
  rw [canonicalNameOrder_eq_compare, Before]

end Order

/-! ## Denial -/

section Denial

variable {l : LowerCase} {r : NsecRecord} {records : List NsecRecord} {qname : List Char}

/-- A record denies the names in the gap behind its own. -/
theorem deniesName_eq_inGap (l : LowerCase) (r : NsecRecord) (qname : List Char) :
    r.deniesName l qname = inGap (l.key r.name) (l.key r.nextName) (l.key qname) := by
  have hlt : ∀ a b, canonicalNameOrder l (l.canonical a) (l.canonical b) = .lt ↔
      Before (l.key a) (l.key b) := by
    intro a b
    rw [canonicalNameOrder_eq_lt, key_canonical, key_canonical]
  rw [NsecRecord.deniesName, inGap]
  simp only [hlt, key_inj, ne_eq]

/-- The records of a zone by their names: each points to the next name, the last to the first. -/
structure NsecChain (l : LowerCase) (records : List NsecRecord) : Prop where
  ne_nil : records ≠ []
  sorted : (records.map NsecRecord.name).Pairwise fun a b => canonicalNameOrder l a b = .lt
  next : records.map NsecRecord.nextName = (records.map NsecRecord.name).rotate 1

/-- How many records of a chain deny a name. -/
theorem countP_deniesName (h : NsecChain l records) (qname : List Char) :
    records.countP (fun r => r.deniesName l qname) =
      if l.canonical qname ∈ records.map fun r => l.canonical r.name then 0 else 1 := by
  have hsorted : (records.map fun r => l.key r.name).Pairwise Before := by
    rw [List.pairwise_map]
    refine (List.pairwise_map.mp h.sorted).imp fun {a b} hab => ?_
    exact canonicalNameOrder_eq_lt.mp hab
  have hpairs : (records.map fun r => (l.key r.name, l.key r.nextName)) =
      gaps (records.map fun r => l.key r.name) := by
    have hnext : (records.map fun r => l.key r.nextName) =
        (records.map fun r => l.key r.name).rotate 1 := by
      have := congrArg (List.map l.key) h.next
      simpa [List.map_rotate, Function.comp_def] using this
    rw [gaps, ← hnext, List.zip_map']
  have hmem : l.key qname ∈ (records.map fun r => l.key r.name) ↔
      l.canonical qname ∈ records.map fun r => l.canonical r.name := by
    simp only [List.mem_map, key_inj]
  have hcount : records.countP (fun r => r.deniesName l qname) =
      (gaps (records.map fun r => l.key r.name)).countP fun g => inGap g.1 g.2 (l.key qname) := by
    rw [← hpairs, List.countP_map]
    exact List.countP_congr fun r _ => by simp [deniesName_eq_inGap]
  rw [hcount, countP_gaps (by simpa using h.ne_nil) hsorted]
  exact if_congr hmem rfl rfl

/-- A chain denies exactly the names that are not in it, each by one record; and the order of
    names is total. -/
theorem nsec_denial_exact (l : LowerCase) :
    (∀ records, NsecChain l records → ∀ qname,
      ((∃ r ∈ records, r.deniesName l qname = true) ↔
        l.canonical qname ∉ records.map fun r => l.canonical r.name) ∧
      (l.canonical qname ∉ (records.map fun r => l.canonical r.name) →
        records.countP (fun r => r.deniesName l qname) = 1)) ∧
    (∀ a b, canonicalNameOrder l b a = (canonicalNameOrder l a b).swap) ∧
    (∀ a b c, canonicalNameOrder l a b ≠ .gt → canonicalNameOrder l b c ≠ .gt →
      canonicalNameOrder l a c ≠ .gt) ∧
    ∀ a b, canonicalNameOrder l a b = .eq ↔ l.canonical a = l.canonical b := by
  refine ⟨fun records h qname => ⟨?_, fun hnot => ?_⟩, ?_, ?_, ?_⟩
  · rw [← List.countP_pos_iff, countP_deniesName h]
    split
    · rename_i hmem
      simp [hmem]
    · rename_i hmem
      simp [hmem]
  · rw [countP_deniesName h, if_neg hnot]
  · intro a b
    rw [canonicalNameOrder_eq_compare, canonicalNameOrder_eq_compare]
    exact Std.OrientedCmp.eq_swap
  · intro a b c
    simp only [canonicalNameOrder_eq_compare, ← Ordering.isLE_iff_ne_gt]
    exact Std.TransCmp.isLE_trans
  · intro a b
    rw [canonicalNameOrder_eq_compare, Std.LawfulEqCmp.compare_eq_iff_eq, key_inj]

/-- The names between those of a zone with an apex and two hosts. -/
theorem nsec_denial_exact_example :
    let records : List NsecRecord := [⟨"example.com".toList, "a.example.com".toList, [], 0⟩,
      ⟨"a.example.com".toList, "www.example.com".toList, [], 0⟩,
      ⟨"www.example.com".toList, "example.com".toList, [], 0⟩]
    records.countP (fun r => r.deniesName .ascii "Mail.example.com.".toList) = 1 := by
  intro records
  have hchain : NsecChain .ascii records :=
    ⟨by simp [records], by decide, by decide⟩
  exact ((nsec_denial_exact .ascii).1 records hchain "Mail.example.com.".toList).2
    (by decide)

end Denial

end OxidizedSystemd.Resolved
