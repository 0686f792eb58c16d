import Mathlib.Algebra.Ring.Parity
import OxidizedSystemd.Loading.DirectoryDeps

/-!
# Unresolved specifiers

The scan that `resolve_specifiers` (`specifier.rs`, lines 280–443) makes of a text, beside that of
`has_unresolved_specifiers`: the expander takes percent signs in pairs, and the other specifiers
with the character behind the sign.

* `expandSpecifiers_eq`: the expander replaces what the scan reads.
* `hasUnresolvedSpecifiers_iff`, `meetsSpecifier_iff`: the runs of percent signs that either stops
  at.
* `scannersAgree_iff`: the texts on which they agree.
-/

namespace OxidizedSystemd.Loading

open Lib

/-- `char::is_alphanumeric`, which is the one of ASCII where that is defined. -/
structure Alphanumeric where
  is : Char → Bool
  is_ascii : ∀ c : Char, c.toNat < 128 → is c = c.isAlphanum

/-- The ASCII characters alone. -/
def Alphanumeric.ascii : Alphanumeric := ⟨Char.isAlphanum, fun _ _ => rfl⟩

variable (alnum : Alphanumeric)

/-! ## The scan of the expander -/

/-- What `resolve_specifiers` reads of a text. -/
inductive Piece
  | literal (c : Char)
  | specifier (spec : Char)
  deriving DecidableEq

/-- The text of a piece, behind the expansion. -/
def Piece.expand (value : Char → Text) : Piece → Text
  | .literal c => [c]
  | .specifier spec => value spec

/-- The pieces of a text, from the left. -/
def pieces : Text → List Piece
  | [] => []
  | ['%'] => [.literal '%']
  | '%' :: spec :: rest => .specifier spec :: pieces rest
  | c :: rest => .literal c :: pieces rest

/-- The expander replaces the specifiers that the scan meets. -/
theorem expandSpecifiers_eq (value : Char → Text) (content : Text) :
    expandSpecifiers value content = (pieces content).flatMap (Piece.expand value) := by
  fun_induction expandSpecifiers value content with
  | case1 => rfl
  | case2 => rfl
  | case3 spec rest ih =>
    rw [pieces, List.flatMap_cons, ih]
    rfl
  | case4 c rest hone hmore ih =>
    rw [pieces, List.flatMap_cons, ih]
    · rfl
    · exact hone
    · exact hmore

/-- The scan meets a percent sign with an alphanumeric character as a specifier. -/
def MeetsSpecifier (content : Text) : Prop :=
  ∃ spec, alnum.is spec = true ∧ Piece.specifier spec ∈ pieces content

/-! ## Runs of percent signs -/

/-- A run of `n` percent signs, with an alphanumeric character behind it. -/
def RunBefore (n : ℕ) (content : Text) : Prop :=
  ∃ before c after, content = before ++ (List.replicate n '%' ++ c :: after) ∧
    before.getLast? ≠ some '%' ∧ alnum.is c = true

variable {alnum : Alphanumeric} {n m : ℕ} {c : Char} {rest content : Text}

theorem Alphanumeric.percent (alnum : Alphanumeric) : alnum.is '%' = false :=
  alnum.is_ascii '%' (by decide)

/-- A text is a run of percent signs and what is behind it. -/
theorem run_induction {P : Text → Prop} (signs : ∀ n, P (List.replicate n '%'))
    (run : ∀ n c rest, c ≠ '%' → P rest → P (List.replicate n '%' ++ c :: rest)) (content : Text) :
    P content := by
  induction hlen : content.length using Nat.strong_induction_on generalizing content with
  | _ len ih =>
    have hsplit := List.takeWhile_append_dropWhile (p := (· = '%')) (l := content)
    have hsigns : content.takeWhile (· = '%') =
        List.replicate (content.takeWhile (· = '%')).length '%' :=
      List.eq_replicate_of_mem fun c hc => by
        simpa using List.all_eq_true.mp List.all_takeWhile c hc
    cases hdrop : content.dropWhile (· = '%') with
    | nil =>
      rw [hdrop, List.append_nil] at hsplit
      rw [← hsplit, hsigns]
      exact signs _
    | cons c rest =>
      rw [hdrop] at hsplit
      have hc : c ≠ '%' := by
        have hhead := List.head?_dropWhile_not (· = '%') content
        rw [hdrop] at hhead
        simpa using hhead
      rw [← hsplit, hsigns]
      refine run _ c rest hc (ih rest.length ?_ rest rfl)
      rw [← hlen, ← hsplit]
      simp
      omega

/-! ### The two scanners -/

theorem hasUnresolvedSpecifiers_replicate (n : ℕ) :
    hasUnresolvedSpecifiers alnum.is (List.replicate n '%') = false := by
  induction n with
  | zero => rfl
  | succ n ih =>
    cases n with
    | zero => rfl
    | succ n => simpa [List.replicate_succ, hasUnresolvedSpecifiers] using ih

theorem hasUnresolvedSpecifiers_literal (hc : c ≠ '%') :
    hasUnresolvedSpecifiers alnum.is (c :: rest) = hasUnresolvedSpecifiers alnum.is rest := by
  cases rest with
  | nil => rfl
  | cons next rest => simp [hasUnresolvedSpecifiers, hc]

theorem hasUnresolvedSpecifiers_run (hc : c ≠ '%') :
    hasUnresolvedSpecifiers alnum.is (List.replicate n '%' ++ c :: rest) = true ↔
      0 < n ∧ alnum.is c = true ∨ hasUnresolvedSpecifiers alnum.is rest = true := by
  induction n with
  | zero => simp [hasUnresolvedSpecifiers_literal hc]
  | succ n ih =>
    cases n with
    | zero =>
      show hasUnresolvedSpecifiers alnum.is ('%' :: c :: rest) = true ↔ _
      simp [hasUnresolvedSpecifiers, hasUnresolvedSpecifiers_literal hc, hc]
    | succ n => simpa [List.replicate_succ, hasUnresolvedSpecifiers] using ih

theorem not_meetsSpecifier_replicate (n : ℕ) : ¬ MeetsSpecifier alnum (List.replicate n '%') := by
  rintro ⟨spec, hspec, hmem⟩
  induction n using Nat.twoStepInduction with
  | zero => simp [pieces] at hmem
  | one => simp [pieces] at hmem
  | more n ih _ =>
    rw [List.replicate_succ, List.replicate_succ, pieces, List.mem_cons] at hmem
    cases hmem with
    | inl heq =>
      rw [Piece.specifier.inj heq, alnum.percent] at hspec
      cases hspec
    | inr hmem => exact ih hmem

theorem meetsSpecifier_literal (hc : c ≠ '%') :
    MeetsSpecifier alnum (c :: rest) ↔ MeetsSpecifier alnum rest := by
  have hpieces : pieces (c :: rest) = .literal c :: pieces rest := by
    rw [pieces]
    · exact fun heq _ => hc heq
    · exact fun spec after heq _ => hc heq
  simp [MeetsSpecifier, hpieces]

/-- Percent signs are taken in pairs. -/
theorem meetsSpecifier_run (hc : c ≠ '%') :
    MeetsSpecifier alnum (List.replicate n '%' ++ c :: rest) ↔
      Odd n ∧ alnum.is c = true ∨ MeetsSpecifier alnum rest := by
  induction n using Nat.twoStepInduction with
  | zero => simp [meetsSpecifier_literal hc]
  | one => simp [MeetsSpecifier, pieces, and_or_left, exists_or]
  | more n ih _ =>
    have hodd : Odd (n + 2) ↔ Odd n := by
      rw [Nat.odd_iff, Nat.odd_iff, Nat.add_mod_right]
    have hpieces : pieces (List.replicate (n + 2) '%' ++ c :: rest) =
        .specifier '%' :: pieces (List.replicate n '%' ++ c :: rest) := rfl
    rw [hodd, ← ih]
    simp [MeetsSpecifier, hpieces, and_or_left, exists_or, alnum.percent]

theorem not_runBefore_replicate (n m : ℕ) : ¬ RunBefore alnum n (List.replicate m '%') := by
  rintro ⟨before, c, after, heq, -, hc⟩
  have hmem : c ∈ List.replicate m '%' := by simp [heq]
  rw [List.eq_of_mem_replicate hmem, alnum.percent] at hc
  cases hc

theorem run_inj {d : Char} {after : Text} (hc : c ≠ '%') (hd : d ≠ '%')
    (h : List.replicate n '%' ++ d :: after = List.replicate m '%' ++ c :: rest) :
    n = m ∧ d = c ∧ after = rest := by
  have hsigns : ∀ k (e : Char) (t : Text), e ≠ '%' →
      ((List.replicate k '%' ++ e :: t).takeWhile (· = '%')).length = k := by
    intro k e t he
    rw [List.takeWhile_append_of_pos (by simp), List.takeWhile_cons_of_neg (by simpa using he)]
    simp
  have hlen : n = m := by
    rw [← hsigns n d after hd, h, hsigns m c rest hc]
  subst hlen
  exact ⟨rfl, List.cons.inj (List.append_cancel_left h)⟩

/-- The runs of a text that begins with one. -/
theorem runBefore_run (hc : c ≠ '%') :
    RunBefore alnum n (List.replicate m '%' ++ c :: rest) ↔
      n = m ∧ alnum.is c = true ∨ RunBefore alnum n rest := by
  constructor
  · rintro ⟨before, d, after, heq, hlast, hd⟩
    have hne : d ≠ '%' := fun h => by simp [h, alnum.percent] at hd
    by_cases hnil : before = []
    · rw [hnil, List.nil_append] at heq
      obtain ⟨rfl, rfl, rfl⟩ := run_inj hne hc heq
      exact Or.inl ⟨rfl, hd⟩
    · -- what is in front of the run is more than percent signs
      have hsigns : ∀ k, before ≠ List.replicate k '%' := by
        rintro k rfl
        cases k with
        | zero => exact hnil rfl
        | succ k =>
          rw [List.replicate_succ', List.getLast?_concat] at hlast
          exact hlast rfl
      rcases List.append_eq_append_iff.mp heq with ⟨as, hbefore, hrest⟩ | ⟨bs, hbefore, -⟩
      · cases as with
        | nil =>
          rw [List.append_nil] at hbefore
          exact absurd hbefore (hsigns m)
        | cons a as =>
          obtain ⟨rfl, rfl⟩ := List.cons.inj hrest
          refine Or.inr ⟨as, d, after, rfl, fun has => hlast ?_, hd⟩
          rw [hbefore, List.getLast?_append, List.getLast?_cons, has]
          rfl
      · refine absurd ?_ (hsigns before.length)
        refine List.eq_replicate_of_mem fun e he => ?_
        exact List.eq_of_mem_replicate (hbefore ▸ List.mem_append_left bs he)
  · rintro (⟨rfl, halnum⟩ | ⟨before, d, after, rfl, hlast, hd⟩)
    · exact ⟨[], c, rest, rfl, by simp, halnum⟩
    · refine ⟨List.replicate m '%' ++ c :: before, d, after, by simp, ?_, hd⟩
      rw [List.getLast?_append, List.getLast?_cons]
      cases hbefore : before.getLast? with
      | none => simpa using hc
      | some e =>
        rw [hbefore] at hlast
        simpa using hlast

/-- `has_unresolved_specifiers` stops at every run. -/
theorem hasUnresolvedSpecifiers_iff (content : Text) :
    hasUnresolvedSpecifiers alnum.is content = true ↔ ∃ n, 0 < n ∧ RunBefore alnum n content := by
  induction content using run_induction with
  | signs m => simp [hasUnresolvedSpecifiers_replicate, not_runBefore_replicate]
  | run m c rest hc ih =>
    rw [hasUnresolvedSpecifiers_run hc, ih]
    simp [runBefore_run hc, and_or_left, exists_or]

/-- The expander meets an alphanumeric specifier in the runs of odd length. -/
theorem meetsSpecifier_iff (content : Text) :
    MeetsSpecifier alnum content ↔ ∃ n, Odd n ∧ RunBefore alnum n content := by
  induction content using run_induction with
  | signs m => simp [not_meetsSpecifier_replicate, not_runBefore_replicate]
  | run m c rest hc ih =>
    rw [meetsSpecifier_run hc, ih]
    simp [runBefore_run hc, and_or_left, exists_or]

/-- They agree where a run of odd length is in front of an alphanumeric character, and where no run
    is. -/
theorem scannersAgree_iff (alnum : Alphanumeric) (content : Text) :
    (hasUnresolvedSpecifiers alnum.is content = true ↔ MeetsSpecifier alnum content) ↔
      (∃ n, Odd n ∧ RunBefore alnum n content) ∨
        ∀ n, 0 < n → Even n → ¬ RunBefore alnum n content := by
  have hpositive : ∀ n : ℕ, Odd n → 0 < n := by
    rintro n ⟨k, rfl⟩
    omega
  rw [hasUnresolvedSpecifiers_iff, meetsSpecifier_iff]
  constructor
  · intro h
    by_cases hodd : ∃ n, Odd n ∧ RunBefore alnum n content
    · exact Or.inl hodd
    · exact Or.inr fun n hpos _ hrun => hodd (h.mp ⟨n, hpos, hrun⟩)
  · rintro (hodd | heven)
    · refine iff_of_true ?_ hodd
      obtain ⟨n, hn, hrun⟩ := hodd
      exact ⟨n, hpositive n hn, hrun⟩
    · constructor
      · rintro ⟨n, hpos, hrun⟩
        exact ⟨n, Nat.not_even_iff_odd.mp fun h => heven n hpos h hrun, hrun⟩
      · rintro ⟨n, hn, hrun⟩
        exact ⟨n, hpositive n hn, hrun⟩

/-- An escaped percent sign in front of a letter. -/
theorem escaped_percent_unresolved :
    ¬ (hasUnresolvedSpecifiers Char.isAlphanum "%%i".toList = true ↔
      MeetsSpecifier .ascii "%%i".toList) := by
  have hmeets : ¬ MeetsSpecifier .ascii "%%i".toList := by
    rintro ⟨spec, hspec, hmem⟩
    have hpieces : pieces "%%i".toList = [.specifier '%', .literal 'i'] := by decide
    rw [hpieces] at hmem
    simp only [List.mem_cons, Piece.specifier.injEq, reduceCtorEq, List.not_mem_nil, or_false]
      at hmem
    rw [hmem] at hspec
    cases hspec
  exact fun h => hmeets (h.mp (by decide))

end OxidizedSystemd.Loading
