import OxidizedSystemd.Lib.Text
import Mathlib.Data.List.TakeWhile

/-!
# Texts that are put together and cut again

What the splitting functions of `Text` make of texts that are joined from pieces without the
character they cut at.

* `splitWhitespace_append_cons`, `splitWhitespace_singleton`: words.
* `splitOnce_append`, `splitOnce_of_notMem`: a pattern that is there once, or not at all.
* `exists_piece`: a character is in one of the pieces.
* `padded`, `fromStrRadix_padded`: the format `{:0>width$}`.
-/

namespace OxidizedSystemd.Lib

/-! ## Words -/

theorem splitWhitespace_append_cons {word : List Char} (hne : word ≠ [])
    (hword : ∀ c ∈ word, isWhitespace c = false) (rest : List Char) :
    splitWhitespace (word ++ ' ' :: rest) = word :: splitWhitespace rest := by
  rw [splitWhitespace, List.splitOnP_append_cons_of_forall_mem hword ' ' (by decide),
    List.filter_cons_of_pos (by simpa using hne)]
  rfl

theorem splitWhitespace_singleton {word : List Char} (hne : word ≠ [])
    (hword : ∀ c ∈ word, isWhitespace c = false) : splitWhitespace word = [word] := by
  rw [splitWhitespace, List.splitOnP_eq_singleton hword,
    List.filter_cons_of_pos (by simpa using hne), List.filter_nil]

/-- The words of a text have no blanks. -/
theorem of_mem_splitWhitespace {cs word : List Char} (h : word ∈ splitWhitespace cs) :
    ∀ c ∈ word, isWhitespace c = false := by
  rw [splitWhitespace] at h
  have hmem := (List.mem_filter.mp h).1
  clear h
  induction cs generalizing word with
  | nil =>
    obtain rfl := List.mem_singleton.mp hmem
    exact fun c hc => absurd hc List.not_mem_nil
  | cons a cs ih =>
    rw [List.splitOnP_cons_eq_if_modifyHead] at hmem
    split at hmem
    · rcases List.mem_cons.mp hmem with rfl | hmem
      · exact fun c hc => absurd hc List.not_mem_nil
      · exact ih hmem
    · rename_i ha
      obtain ⟨first, rest, hsplit⟩ :=
        List.exists_cons_of_ne_nil (List.splitOnP_ne_nil isWhitespace cs)
      rw [hsplit] at hmem ih
      rcases List.mem_cons.mp hmem with rfl | hmem
      · intro c hc
        rcases List.mem_cons.mp hc with rfl | hc
        · simpa using ha
        · exact ih List.mem_cons_self c hc
      · exact ih (List.mem_cons_of_mem first hmem)

/-! ## Patterns -/

/-- A pattern behind a text without its first character. -/
theorem splitOnce_append {c : Char} {as : List Char} (h : c ∉ as) (pattern bs : List Char) :
    splitOnce (c :: pattern) (as ++ c :: pattern ++ bs) = some (as, bs) := by
  induction as with
  | nil =>
    have hstrip : stripPrefix (c :: pattern) (c :: (pattern ++ bs)) = some bs :=
      stripPrefix_eq_some_iff.mpr rfl
    rw [List.nil_append, List.cons_append, splitOnce, hstrip]
  | cons a as ih =>
    have hstrip : stripPrefix (c :: pattern) (a :: (as ++ c :: pattern ++ bs)) = none := by
      refine Option.eq_none_iff_forall_not_mem.mpr fun rest hrest => ?_
      have heq := (List.cons.inj (stripPrefix_eq_some_iff.mp hrest)).1
      exact h (heq ▸ List.mem_cons_self)
    rw [List.cons_append, List.cons_append, splitOnce, hstrip]
    dsimp only
    rw [ih fun hmem => h (List.mem_cons_of_mem a hmem), Option.map_some]

theorem splitOnce_of_notMem {c : Char} {cs : List Char} (h : c ∉ cs) (pattern : List Char) :
    splitOnce (c :: pattern) cs = none := by
  induction cs with
  | nil => rfl
  | cons a cs ih =>
    have hstrip : stripPrefix (c :: pattern) (a :: cs) = none := by
      refine Option.eq_none_iff_forall_not_mem.mpr fun rest hrest => ?_
      have heq := (List.cons.inj (stripPrefix_eq_some_iff.mp hrest)).1
      exact h (heq ▸ List.mem_cons_self)
    rw [splitOnce, hstrip]
    dsimp only
    rw [ih fun hmem => h (List.mem_cons_of_mem a hmem), Option.map_none]

theorem append_of_splitOnce {pattern cs as bs : List Char}
    (h : splitOnce pattern cs = some (as, bs)) : cs = as ++ pattern ++ bs := by
  induction cs generalizing as with
  | nil => cases h
  | cons a cs ih =>
    rw [splitOnce] at h
    split at h
    · rename_i rest hstrip
      obtain ⟨rfl, rfl⟩ := Prod.mk.inj (Option.some.inj h)
      exact stripPrefix_eq_some_iff.mp hstrip
    · obtain ⟨⟨xs, ys⟩, hsplit, heq⟩ := Option.map_eq_some_iff.mp h
      obtain ⟨rfl, rfl⟩ := Prod.mk.inj heq
      rw [ih hsplit]
      rfl

theorem splitStrFuel_of_notMem {c : Char} {cs : List Char} (h : c ∉ cs) (pattern : List Char)
    (fuel : ℕ) : splitStrFuel (c :: pattern) fuel cs = [cs] := by
  cases fuel with
  | zero => rfl
  | succ fuel => rw [splitStrFuel, splitOnce_of_notMem h]

theorem splitStr_of_notMem {c : Char} {cs : List Char} (h : c ∉ cs) (pattern : List Char) :
    splitStr (c :: pattern) cs = [cs] :=
  splitStrFuel_of_notMem h pattern _

theorem splitStr_append {c : Char} {as bs : List Char} (has : c ∉ as) (hbs : c ∉ bs)
    (pattern : List Char) : splitStr (c :: pattern) (as ++ c :: pattern ++ bs) = [as, bs] := by
  obtain ⟨fuel, hfuel⟩ : ∃ fuel, (as ++ c :: pattern ++ bs).length = fuel + 1 :=
    ⟨as.length + pattern.length + bs.length, by simp; omega⟩
  rw [splitStr, hfuel, splitStrFuel, splitOnce_append has]
  dsimp only
  rw [splitStrFuel_of_notMem hbs]

/-! ## Pieces -/

/-- The first piece goes on with a character that is no separator. -/
theorem splitOn_cons (a sep : Char) (cs : List Char) : ∃ first rest,
    cs.splitOn sep = first :: rest ∧ (a :: cs).splitOn sep =
      if a = sep then [] :: first :: rest else (a :: first) :: rest := by
  obtain ⟨first, rest, hsplit⟩ := List.exists_cons_of_ne_nil (List.splitOn_ne_nil sep cs)
  refine ⟨first, rest, hsplit, ?_⟩
  rw [List.splitOn_cons_eq_if_modifyHead, hsplit]
  simp

theorem exists_piece_splitOn {c sep : Char} {cs : List Char} (hc : c ∈ cs) (hne : c ≠ sep) :
    ∃ piece ∈ cs.splitOn sep, c ∈ piece := by
  induction cs with
  | nil => cases hc
  | cons a cs ih =>
    obtain ⟨first, rest, hsplit, hcons⟩ := splitOn_cons a sep cs
    rw [hsplit] at ih
    rw [hcons]
    rcases List.mem_cons.mp hc with rfl | hc
    · rw [if_neg hne]
      exact ⟨_, List.mem_cons_self, List.mem_cons_self⟩
    · obtain ⟨piece, hpiece, hmem⟩ := ih hc
      split
      · exact ⟨piece, List.mem_cons_of_mem _ hpiece, hmem⟩
      · rcases List.mem_cons.mp hpiece with rfl | hpiece
        · exact ⟨_, List.mem_cons_self, List.mem_cons_of_mem a hmem⟩
        · exact ⟨piece, List.mem_cons_of_mem _ hpiece, hmem⟩

theorem mem_of_mem_splitOn {c sep : Char} {cs piece : List Char} (h : piece ∈ cs.splitOn sep)
    (hc : c ∈ piece) : c ∈ cs := by
  induction cs generalizing piece with
  | nil =>
    obtain rfl := List.mem_singleton.mp h
    cases hc
  | cons a cs ih =>
    obtain ⟨first, rest, hsplit, hcons⟩ := splitOn_cons a sep cs
    rw [hsplit] at ih
    rw [hcons] at h
    split at h
    · rcases List.mem_cons.mp h with rfl | h
      · cases hc
      · exact List.mem_cons_of_mem a (ih h hc)
    · rcases List.mem_cons.mp h with rfl | h
      · rcases List.mem_cons.mp hc with rfl | hc
        · exact List.mem_cons_self
        · exact List.mem_cons_of_mem a (ih List.mem_cons_self hc)
      · exact List.mem_cons_of_mem a (ih (List.mem_cons_of_mem first h) hc)

theorem exists_piece_splitStr {c : Char} {pattern cs : List Char} (hc : c ∈ cs)
    (hpattern : c ∉ pattern) : ∃ piece ∈ splitStr pattern cs, c ∈ piece := by
  have hfuel : ∀ fuel (cs : List Char), c ∈ cs →
      ∃ piece ∈ splitStrFuel pattern fuel cs, c ∈ piece := by
    intro fuel
    induction fuel with
    | zero => exact fun cs hc => ⟨cs, List.mem_singleton_self cs, hc⟩
    | succ fuel ih =>
      intro cs hc
      rw [splitStrFuel]
      split
      · rename_i piece rest hsplit
        rw [append_of_splitOnce hsplit, List.mem_append, List.mem_append] at hc
        rcases hc with (hc | hc) | hc
        · exact ⟨piece, List.mem_cons_self, hc⟩
        · exact absurd hc hpattern
        · obtain ⟨found, hfound, hmem⟩ := ih rest hc
          exact ⟨found, List.mem_cons_of_mem piece hfound, hmem⟩
      · exact ⟨cs, List.mem_singleton_self cs, hc⟩
  exact hfuel cs.length cs hc

theorem mem_intercalate {c sep : Char} {pieces : List (List Char)}
    (h : c ∈ [sep].intercalate pieces) : c = sep ∨ ∃ piece ∈ pieces, c ∈ piece := by
  induction pieces with
  | nil => cases h
  | cons piece pieces ih =>
    by_cases hnil : pieces = []
    · rw [hnil, List.intercalate_singleton] at h
      exact .inr ⟨piece, List.mem_cons_self, h⟩
    · rw [List.intercalate_cons_of_ne_nil hnil, List.mem_append, List.mem_append,
        List.mem_singleton] at h
      rcases h with (h | h) | h
      · exact .inr ⟨piece, List.mem_cons_self, h⟩
      · exact .inl h
      · rcases ih h with h | ⟨found, hfound, hc⟩
        · exact .inl h
        · exact .inr ⟨found, List.mem_cons_of_mem piece hfound, hc⟩

/-- What is trimmed are blanks. -/
theorem mem_trim {c : Char} {cs : List Char} (hc : c ∈ cs) (hblank : isWhitespace c = false) :
    c ∈ trim cs := by
  have hdrop : ∀ ds : List Char, c ∈ ds → c ∈ ds.dropWhile isWhitespace := by
    intro ds hds
    rw [← List.takeWhile_append_dropWhile (p := isWhitespace) (l := ds), List.mem_append] at hds
    rcases hds with hds | hds
    · have := List.mem_takeWhile_imp hds
      rw [hblank] at this
      cases this
    · exact hds
  rw [trim, List.mem_reverse]
  exact hdrop _ (List.mem_reverse.mpr (hdrop cs hc))

/-- A text between two words without blanks. -/
theorem trim_of_ends {as bs : List Char} (has : as ≠ []) (hbs : bs ≠ [])
    (hasBlank : ∀ c ∈ as, isWhitespace c = false) (hbsBlank : ∀ c ∈ bs, isWhitespace c = false)
    (middle : List Char) : trim (as ++ middle ++ bs) = as ++ middle ++ bs := by
  refine trim_eq_self_iff.mpr ⟨fun c hc => ?_, fun c hc => ?_⟩
  · obtain ⟨a, as, rfl⟩ := List.exists_cons_of_ne_nil has
    obtain rfl : a = c := Option.some.inj hc
    exact hasBlank a List.mem_cons_self
  · rw [List.getLast?_append_of_ne_nil _ hbs] at hc
    exact hbsBlank c (List.mem_of_getLast? hc)

/-! ## Padded numbers -/

/-- `{:0>width$}`. -/
def padded (width n : ℕ) : List Char :=
  List.replicate (width - (decimal n).length) '0' ++ decimal n

theorem mem_padded {width n : ℕ} {c : Char} (h : c ∈ padded width n) :
    ∃ d < 10, c = Nat.digitChar d := by
  rcases List.mem_append.mp h with h | h
  · exact ⟨0, by decide, (List.mem_replicate.mp h).2⟩
  · exact mem_toDigits (by decide) h

/-- What is printed with zeros in front is parsed back. -/
theorem fromStrRadix_padded {width max n : ℕ} (h : n ≤ max) :
    fromStrRadix 10 max (padded width n) = some n := by
  have hzeros : ∀ k, parseDigits 10 max 0 (List.replicate k '0') = some 0 := by
    intro k
    induction k with
    | zero => rfl
    | succ k ih =>
      have hdigit : toDigit 10 '0' = some 0 := by decide
      rw [List.replicate_succ, parseDigits, hdigit, Option.bind_some, if_pos (Nat.zero_le _)]
      exact ih
  have hne : padded width n ≠ [] := by
    intro hnil
    exact Nat.toDigits_ne_nil (List.append_eq_nil_iff.mp hnil).2
  have hplus : '+' ∉ padded width n := by
    intro hmem
    obtain ⟨d, hd, heq⟩ := mem_padded hmem
    have hdigits : ∀ d < 10, '+' ≠ Nat.digitChar d := by decide
    exact hdigits d hd heq
  rw [fromStrRadix_of_ne_plus hne hplus, padded, parseDigits_append, hzeros, Option.bind_some]
  exact parseDigits_toDigits (by decide) (by decide) n h

theorem padded_zero (n : ℕ) : padded 0 n = decimal n := by
  rw [padded, Nat.zero_sub, List.replicate_zero, List.nil_append]

theorem isDigit_of_mem_padded {width n : ℕ} {c : Char} (h : c ∈ padded width n) :
    c.isDigit = true := by
  obtain ⟨d, hd, rfl⟩ := mem_padded h
  have hdigits : ∀ d < 10, (Nat.digitChar d).isDigit = true := by decide
  exact hdigits d hd

theorem padded_ne_nil (width n : ℕ) : padded width n ≠ [] := by
  intro hnil
  exact Nat.toDigits_ne_nil (List.append_eq_nil_iff.mp hnil).2

theorem notMem_padded {width n : ℕ} {c : Char} (hc : c.isDigit = false) : c ∉ padded width n := by
  intro hmem
  rw [isDigit_of_mem_padded hmem] at hc
  cases hc

/-- What is parsed is in range. -/
theorem le_of_fromStrRadix {radix max n : ℕ} {cs : List Char}
    (h : fromStrRadix radix max cs = some n) : n ≤ max := by
  have hdigits : ∀ (cs : List Char) (acc n : ℕ), acc ≤ max →
      parseDigits radix max acc cs = some n → n ≤ max := by
    intro cs
    induction cs with
    | nil =>
      intro acc n hacc h
      exact Option.some.inj h ▸ hacc
    | cons c cs ih =>
      intro acc n hacc h
      obtain ⟨d, -, h⟩ := Option.bind_eq_some_iff.mp h
      split at h
      · rename_i hle
        exact ih _ n hle h
      · cases h
  unfold fromStrRadix at h
  split at h
  · cases h
  · cases h
  · exact hdigits _ 0 n (Nat.zero_le max) h
  · exact hdigits _ 0 n (Nat.zero_le max) h

/-! ## Loops over pieces -/

theorem okOr_eq_ok {ε α : Type} {e : ε} {x : Option α} {a : α} :
    okOr e x = .ok a ↔ x = some a := by
  cases x <;> simp [okOr]

/-- A loop over inputs that were made from its results. -/
theorem mapM_map_eq_ok {ε α β : Type} {f : α → Except ε β} {g : β → α} {bs : List β}
    (h : ∀ b ∈ bs, f (g b) = .ok b) : (bs.map g).mapM f = .ok bs := by
  induction bs with
  | nil => rfl
  | cons b bs ih =>
    rw [List.map_cons, List.mapM_cons, h b List.mem_cons_self]
    show (bs.map g).mapM f >>= (fun rest => .ok (b :: rest)) = _
    rw [ih fun b' hb' => h b' (List.mem_cons_of_mem b hb')]
    rfl

end OxidizedSystemd.Lib
