import Mathlib.Data.List.Basic

/-!
# Matching with stars

Patterns of tokens that stand for one letter, and of stars that stand for any part of a word. A
word is scanned from left to right; where it does not match, the scan goes back to the last star
and gives it one letter more.

* `Scan`: the scan.
* `Scan.eq_true_iff`: it is enough to go back to the last star.
-/

namespace OxidizedSystemd.Lib.Wildcards

variable {α : Type*}

/-- What stands for a letter, or a star. -/
inductive Token (α : Type*)
  | one (p : α → Bool)
  | star

/-- The words that a pattern matches. -/
inductive Matches : List (Token α) → List α → Prop
  | nil : Matches [] []
  | one {p : α → Bool} {a : α} {ts : List (Token α)} {w : List α} (ha : p a = true)
      (h : Matches ts w) : Matches (.one p :: ts) (a :: w)
  | star {u w : List α} {ts : List (Token α)} (h : Matches ts w) : Matches (.star :: ts) (u ++ w)

/-- The first token does not match the next letter, or there is none. -/
def Stuck (ts : List (Token α)) (a : α) : Prop :=
  ts = [] ∨ ∃ p ts', ts = .one p :: ts' ∧ p a = false

/-- A scan of a word, with the tokens behind the last star and the letters that it had left. -/
inductive Scan : List (Token α) → List α → Option (List (Token α) × List α) → Bool → Prop
  | done {ts : List (Token α)} {back : Option (List (Token α) × List α)}
      (h : ∀ t ∈ ts, t = .star) : Scan ts [] back true
  | short {ts : List (Token α)} {back : Option (List (Token α) × List α)} {p : α → Bool}
      (h : .one p ∈ ts) : Scan ts [] back false
  | one {p : α → Bool} {a : α} {ts : List (Token α)} {w : List α}
      {back : Option (List (Token α) × List α)} {r : Bool} (ha : p a = true)
      (h : Scan ts w back r) : Scan (.one p :: ts) (a :: w) back r
  | star {a : α} {ts : List (Token α)} {w : List α} {back : Option (List (Token α) × List α)}
      {r : Bool} (h : Scan ts (a :: w) (some (ts, a :: w)) r) : Scan (.star :: ts) (a :: w) back r
  | stuck {a : α} {ts : List (Token α)} {w : List α} (h : Stuck ts a) : Scan ts (a :: w) none false
  | retry {a b : α} {ts ts' : List (Token α)} {w w' : List α} {r : Bool} (h : Stuck ts a)
      (hrest : Scan ts' w' (some (ts', w')) r) : Scan ts (a :: w) (some (ts', b :: w')) r

variable {p : α → Bool} {a : α} {ts seg : List (Token α)} {w v : List α}
  {back : Option (List (Token α) × List α)} {r : Bool}

theorem matches_one_iff : Matches (.one p :: ts) (a :: w) ↔ p a = true ∧ Matches ts w := by
  constructor
  · intro h
    cases h with
    | one ha h => exact ⟨ha, h⟩
  · rintro ⟨ha, h⟩
    exact .one ha h

/-- A star matches any front of the word. -/
theorem matches_star_iff : Matches (.star :: ts) w ↔ ∃ v, v <:+ w ∧ Matches ts v := by
  constructor
  · intro h
    cases h with
    | star h => exact ⟨_, List.suffix_append _ _, h⟩
  · rintro ⟨v, ⟨u, rfl⟩, h⟩
    exact .star h

theorem Matches.star_of_suffix (h : Matches (.star :: ts) v) (hv : v <:+ w) :
    Matches (.star :: ts) w := by
  obtain ⟨v', hv', h⟩ := matches_star_iff.mp h
  exact matches_star_iff.mpr ⟨v', hv'.trans hv, h⟩

theorem Stuck.not_matches (h : Stuck ts a) : ¬ Matches ts (a :: w) := by
  rintro hmatches
  rcases h with rfl | ⟨p, ts', rfl, ha⟩
  · cases hmatches
  · rw [matches_one_iff, ha] at hmatches
    cases hmatches.1

theorem not_stuck_star : ¬ Stuck (.star :: ts) a := by
  rintro (h | ⟨p, ts', h, -⟩)
  · cases h
  · cases h

/-- A scan that goes back to the star itself takes one more turn. -/
theorem Scan.of_star (h : Scan (.star :: ts) w (some (ts, w)) r) :
    Scan ts w (some (ts, w)) r := by
  cases h with
  | done hstars => exact .done fun t ht => hstars t (List.mem_cons_of_mem _ ht)
  | short hone => exact .short ((List.mem_cons.mp hone).resolve_left fun heq => by cases heq)
  | star h => exact h
  | retry hstuck => exact absurd hstuck not_stuck_star

/-- A pattern of stars matches the empty word, and no other pattern does. -/
theorem matches_nil_iff : Matches ts [] ↔ ∀ t ∈ ts, t = .star := by
  induction ts with
  | nil => exact iff_of_true .nil fun t h => absurd h List.not_mem_nil
  | cons t ts ih =>
    rw [List.forall_mem_cons, ← ih]
    cases t with
    | one p =>
      refine iff_of_false ?_ fun h => ?_
      · intro h
        cases h
      · cases h.1
    | star =>
      rw [matches_star_iff]
      constructor
      · rintro ⟨v, hv, h⟩
        rw [List.suffix_nil.mp hv] at h
        exact ⟨rfl, h⟩
      · rintro ⟨-, h⟩
        exact ⟨[], List.suffix_rfl, h⟩

/-- Tokens without stars match as many letters as they are. -/
theorem Matches.drop_ones (hseg : ∀ t ∈ seg, t ≠ .star) (h : Matches (seg ++ ts) w) :
    seg.length ≤ w.length ∧ Matches ts (w.drop seg.length) := by
  induction seg generalizing w with
  | nil => exact ⟨Nat.zero_le _, h⟩
  | cons t seg ih =>
    obtain ⟨ht, hrest⟩ := List.forall_mem_cons.mp hseg
    cases t with
    | star => exact absurd rfl ht
    | one p =>
      cases h with
      | one ha h =>
        obtain ⟨hle, h⟩ := ih hrest h
        exact ⟨Nat.succ_le_succ hle, h⟩

/-- A match in which the last star has more letters than so far. -/
def Retry : Option (List (Token α) × List α) → Prop
  | none => False
  | some (ts, w) => ∃ v, v <:+ w ∧ v ≠ w ∧ Matches ts v

/-- From the last star on, the scan has passed over tokens without stars and as many letters. -/
def Behind (ts : List (Token α)) (w : List α) : Option (List (Token α) × List α) → Prop
  | none => True
  | some (ts', w') => ∃ seg u, ts' = seg ++ ts ∧ w' = u ++ w ∧ seg.length = u.length ∧
      ∀ t ∈ seg, t ≠ .star

theorem behind_self (ts : List (Token α)) (w : List α) : Behind ts w (some (ts, w)) :=
  ⟨[], [], rfl, rfl, rfl, fun _ h => absurd h List.not_mem_nil⟩

/-- What a star that has more letters would match is left over for the tokens behind it. -/
theorem Retry.matches_drop (hbehind : Behind ts w back) (h : Retry back) :
    ∃ v, v <:+ w ∧ v ≠ w ∧ Matches ts v := by
  cases back with
  | none => exact absurd h id
  | some star =>
    obtain ⟨ts', w'⟩ := star
    obtain ⟨seg, u, rfl, rfl, hlength, hseg⟩ := hbehind
    obtain ⟨v, hsuffix, hne, hmatches⟩ := h
    obtain ⟨hle, hrest⟩ := hmatches.drop_ones hseg
    obtain ⟨front, hfront⟩ := hsuffix
    have hpos : front ≠ [] := by
      rintro rfl
      exact hne hfront
    have hlen := congrArg List.length hfront
    have hpos := List.length_pos_iff.mpr hpos
    rw [List.length_append, List.length_append] at hlen
    have hdrop : v.drop seg.length = w.drop front.length := by
      have h := congrArg (List.drop (front.length + u.length)) hfront
      rw [← List.drop_drop, List.drop_left, Nat.add_comm, ← List.drop_drop, List.drop_left] at h
      rw [hlength, h]
    refine ⟨v.drop seg.length, hdrop ▸ List.drop_suffix _ _, ?_, hrest⟩
    intro heq
    have hlen' := congrArg List.length heq
    rw [List.length_drop] at hlen'
    omega

theorem proper_suffix_cons_iff {b : α} {w v : List α} :
    v <:+ b :: w ∧ v ≠ b :: w ↔ v <:+ w := by
  rw [List.suffix_cons_iff]
  constructor
  · rintro ⟨rfl | h, hne⟩
    · exact absurd rfl hne
    · exact h
  · intro h
    refine ⟨.inr h, ?_⟩
    rintro rfl
    have hle := h.length_le
    rw [List.length_cons] at hle
    omega

/-- A suffix is the word or a proper suffix. -/
theorem exists_suffix_iff :
    (∃ v, v <:+ w ∧ Matches ts v) ↔ Matches ts w ∨ ∃ v, v <:+ w ∧ v ≠ w ∧ Matches ts v := by
  constructor
  · rintro ⟨v, hv, h⟩
    by_cases heq : v = w
    · exact .inl (heq ▸ h)
    · exact .inr ⟨v, hv, heq, h⟩
  · rintro (h | ⟨v, hv, -, h⟩)
    · exact ⟨w, List.suffix_rfl, h⟩
    · exact ⟨v, hv, h⟩

/-- A scan finds out whether the word matches from here on, or from the last star on with more
    letters for the star. -/
theorem Scan.eq_true_iff (h : Scan ts w back r) (hbehind : Behind ts w back) :
    r = true ↔ Matches ts w ∨ Retry back := by
  induction h with
  | done hstars => exact iff_of_true rfl (.inl (matches_nil_iff.mpr hstars))
  | short hone =>
    refine iff_of_false Bool.false_ne_true ?_
    rintro (hmatches | hretry)
    · cases matches_nil_iff.mp hmatches _ hone
    · obtain ⟨v, hv, hne, -⟩ := hretry.matches_drop hbehind
      exact hne (List.suffix_nil.mp hv)
  | one ha hscan ih =>
    rename_i p a ts w back r
    have hnext : Behind ts w back := by
      cases back with
      | none => trivial
      | some star =>
        obtain ⟨seg, u, hts, hw, hlength, hseg⟩ := hbehind
        refine ⟨seg ++ [.one p], u ++ [a], by simp [hts], by simp [hw], by simp [hlength], ?_⟩
        intro t ht
        rcases List.mem_append.mp ht with ht | ht
        · exact hseg t ht
        · rw [List.mem_singleton.mp ht]
          intro h
          cases h
    rw [ih hnext, matches_one_iff]
    exact or_congr_left (and_iff_right ha).symm
  | star hscan ih =>
    rename_i a ts w back r
    have hmatches : Matches (.star :: ts) (a :: w) ↔
        Matches ts (a :: w) ∨ Retry (some (ts, a :: w)) := by
      rw [matches_star_iff]
      exact exists_suffix_iff
    rw [ih (behind_self ts _), ← hmatches, or_iff_left_of_imp]
    intro hretry
    obtain ⟨v, hv, -, h⟩ := hretry.matches_drop hbehind
    exact h.star_of_suffix hv
  | stuck hstuck => exact iff_of_false Bool.false_ne_true (by
      rintro (hmatches | hretry)
      · exact hstuck.not_matches hmatches
      · exact hretry)
  | retry hstuck hscan ih =>
    rename_i a b ts ts' w w' r
    have hretry : Retry (some (ts', b :: w')) ↔ Matches ts' w' ∨ Retry (some (ts', w')) := by
      unfold Retry
      rw [← exists_suffix_iff]
      apply exists_congr
      intro v
      rw [← and_assoc, proper_suffix_cons_iff]
    rw [ih (behind_self ts' w'), ← hretry, or_iff_right hstuck.not_matches]

end OxidizedSystemd.Lib.Wildcards
