import OxidizedSystemd.Lib.LittleEndian
import OxidizedSystemd.Lib.Wildcards

/-!
# Matching modaliases

Model of `fnmatch` (`libsystemd/src/hwdb.rs`, lines 489–616). A text is the list of its bytes.

* `fnmatch_iff`: the loop, which goes back to the last star only, decides whether the tokens of a
  pattern match a text.
-/

namespace OxidizedSystemd.Hwdb

open Lib Lib.Wildcards

/-! ## Bracket expressions -/

/-- `]`. -/
def closing : UInt8 := 0x5D

/-- `*`. -/
def star : UInt8 := 0x2A

/-- `?`. -/
def question : UInt8 := 0x3F

/-- `[`. -/
def opening : UInt8 := 0x5B

/-- `is_glob_char`. -/
def isGlobChar (c : UInt8) : Bool := c = star || c = question || c = opening

/-- The loop of `match_bracket` (lines 591–613) over what is left of the pattern at `i`. -/
def bracketLoop (ch : UInt8) : Bytes → ℕ → Bool → Bool → Option (Bool × ℕ)
  | [], _, _, _ => none
  | lo :: rest, i, matched, first =>
    if lo = closing ∧ first = false then some (matched, i + 1)
    else
      match rest with
      | dash :: hi :: behind =>
        if dash = 0x2D ∧ hi ≠ closing then
          bracketLoop ch behind (i + 3) (matched || (lo ≤ ch && ch ≤ hi)) false
        else bracketLoop ch (dash :: hi :: behind) (i + 1) (matched || ch == lo) false
      | behind => bracketLoop ch behind (i + 1) (matched || ch == lo) false

/-- `match_bracket`, for a pattern with a `[` in front of `pat`. -/
def matchBracket (pat : Bytes) (ch : UInt8) : Option (Bool × ℕ) :=
  match pat with
  | [] => none
  | c :: rest =>
    if c = 0x21 ∨ c = 0x5E then
      (bracketLoop ch rest 2 false true).map fun (matched, i) => (!matched, i)
    else bracketLoop ch (c :: rest) 1 false true

/-! ## `fnmatch` -/

/-- The loop of `fnmatch_bytes` (lines 514–565), of at most `fuel` turns, with the last star and the
    place that it has reached in the text; and the stars at the end (lines 567–572). -/
def fnmatchLoop (pat s : Bytes) : ℕ → ℕ → ℕ → Option ℕ → ℕ → Bool
  | 0, _, _, _, _ => false
  | fuel + 1, pi, si, starPi, starSi =>
    match s[si]? with
    | none => (pat.drop pi).all (· = star)
    | some c =>
      match pat[pi]? with
      | some p =>
        if p = question then fnmatchLoop pat s fuel (pi + 1) (si + 1) starPi starSi
        else if p = opening then
          match matchBracket (pat.drop (pi + 1)) c, starPi with
          | some (true, stop), _ => fnmatchLoop pat s fuel (pi + stop) (si + 1) starPi starSi
          | _, some sp => fnmatchLoop pat s fuel sp (starSi + 1) (some sp) (starSi + 1)
          | _, none => false
        else if p = star then fnmatchLoop pat s fuel (pi + 1) si (some pi) si
        else if p = c then fnmatchLoop pat s fuel (pi + 1) (si + 1) starPi starSi
        else
          match starPi with
          | some sp => fnmatchLoop pat s fuel (sp + 1) (starSi + 1) (some sp) (starSi + 1)
          | none => false
      | none =>
        match starPi with
        | some sp => fnmatchLoop pat s fuel (sp + 1) (starSi + 1) (some sp) (starSi + 1)
        | none => false

/-- `fnmatch`. A star reaches each place in the text once, and between two of them there are no more
    turns than bytes. -/
def fnmatch (pat s : Bytes) : Bool :=
  fnmatchLoop pat s ((s.length + 2) * (pat.length + s.length + 2)) 0 0 none 0

/-! ## Tokens -/

/-- The tokens of a pattern. A `[` without an end matches nothing. -/
def tokens : Bytes → List (Token UInt8)
  | [] => []
  | c :: rest =>
    if c = question then .one (fun _ => true) :: tokens rest
    else if c = opening then
      match matchBracket rest 0 with
      | some (_, stop) =>
        .one (fun ch => (matchBracket rest ch).any Prod.fst) :: tokens (rest.drop (stop - 1))
      | none => [.one fun _ => false]
    else if c = star then .star :: tokens rest
    else .one (· == c) :: tokens rest
termination_by pat => pat.length
decreasing_by all_goals (simp only [List.length_cons, List.length_drop]; omega)

/-- How long a bracket expression is does not depend on the byte. -/
theorem bracketLoop_snd (ch ch' : UInt8) (pat : Bytes) (i : ℕ) (matched matched' first : Bool) :
    (bracketLoop ch pat i matched first).map Prod.snd =
      (bracketLoop ch' pat i matched' first).map Prod.snd := by
  fun_induction bracketLoop ch pat i matched first generalizing matched' with
  | case1 => rfl
  | case2 lo rest i matched first hend =>
    rw [bracketLoop.eq_def]
    dsimp only
    rw [if_pos hend]
    rfl
  | case3 lo i matched first hend dash hi behind hrange ih =>
    rw [bracketLoop.eq_def _ (lo :: dash :: hi :: behind)]
    dsimp only
    rw [if_neg hend, if_pos hrange]
    exact ih _
  | case4 lo i matched first hend dash hi behind hrange ih =>
    rw [bracketLoop.eq_def _ (lo :: dash :: hi :: behind)]
    dsimp only
    rw [if_neg hend, if_neg hrange]
    exact ih _
  | case5 lo i matched first hend rest hshort ih =>
    rw [bracketLoop.eq_def _ (lo :: rest)]
    dsimp only
    rw [if_neg hend]
    split
    · exact (hshort _ _ _ rfl).elim
    · exact ih _

theorem matchBracket_snd (pat : Bytes) (ch ch' : UInt8) :
    (matchBracket pat ch).map Prod.snd = (matchBracket pat ch').map Prod.snd := by
  cases pat with
  | nil => rfl
  | cons c rest =>
    unfold matchBracket
    dsimp only
    split_ifs
    · rw [Option.map_map, Option.map_map]
      exact bracketLoop_snd ch ch' rest 2 false false true
    · exact bracketLoop_snd ch ch' (c :: rest) 1 false false true

/-! ## The loop scans -/

section Tokens

variable {pat s rest : Bytes} {c p : UInt8} {pi si starSi fuel stop : ℕ} {starPi : Option ℕ}

@[simp] theorem tokens_nil : tokens [] = [] := by rw [tokens]

@[simp] theorem tokens_question :
    tokens (question :: rest) = .one (fun _ => true) :: tokens rest := by
  rw [tokens, if_pos rfl]

@[simp] theorem tokens_star : tokens (star :: rest) = .star :: tokens rest := by
  rw [tokens, if_neg (by decide), if_neg (by decide), if_pos rfl]

theorem bracketLoop_pos {ch : UInt8} {pat : Bytes} {i stop : ℕ} {matched first m : Bool}
    (h : bracketLoop ch pat i matched first = some (m, stop)) : i < stop := by
  fun_induction bracketLoop ch pat i matched first with
  | case1 => cases h
  | case2 =>
    cases h
    exact Nat.lt_succ_self _
  | case3 => rename_i ih; exact (Nat.lt_add_of_pos_right (by decide)).trans (ih h)
  | case4 => rename_i ih; exact (Nat.lt_succ_self _).trans (ih h)
  | case5 => rename_i ih; exact (Nat.lt_succ_self _).trans (ih h)

theorem matchBracket_pos {m : Bool} (h : matchBracket rest c = some (m, stop)) : 0 < stop := by
  cases rest with
  | nil => cases h
  | cons b rest =>
    unfold matchBracket at h
    dsimp only at h
    split_ifs at h
    · obtain ⟨⟨m', stop'⟩, hloop, heq⟩ := Option.map_eq_some_iff.mp h
      cases heq
      exact (Nat.zero_lt_two).trans (bracketLoop_pos hloop)
    · exact Nat.zero_lt_one.trans (bracketLoop_pos h)

theorem tokens_opening (h : (matchBracket rest c).map Prod.snd = some stop) :
    tokens (opening :: rest) =
      .one (fun ch => (matchBracket rest ch).any Prod.fst) :: tokens (rest.drop (stop - 1)) := by
  rw [matchBracket_snd rest c 0] at h
  obtain ⟨⟨matched, _⟩, hmatch, rfl⟩ := Option.map_eq_some_iff.mp h
  rw [tokens, if_neg (by decide), if_pos rfl, hmatch]

theorem tokens_unterminated (h : matchBracket rest c = none) :
    tokens (opening :: rest) = [.one fun _ => false] := by
  have hnone : matchBracket rest 0 = none := by
    have hsnd := matchBracket_snd rest c 0
    rw [h] at hsnd
    exact Option.map_eq_none_iff.mp hsnd.symm
  rw [tokens, if_neg (by decide), if_pos rfl, hnone]

theorem tokens_literal (h : isGlobChar c = false) :
    tokens (c :: rest) = .one (· == c) :: tokens rest := by
  simp only [isGlobChar, Bool.or_eq_false_iff, decide_eq_false_iff_not] at h
  rw [tokens, if_neg h.1.2, if_neg h.2, if_neg h.1.1]

theorem stuck_opening (h : ∀ stop, matchBracket rest c ≠ some (true, stop)) :
    Stuck (tokens (opening :: rest)) c := by
  refine .inr ?_
  cases hmatch : matchBracket rest c with
  | none => exact ⟨_, _, tokens_unterminated hmatch, rfl⟩
  | some result =>
    obtain ⟨matched, stop⟩ := result
    refine ⟨_, _, tokens_opening (c := c) (by rw [hmatch]; rfl), ?_⟩
    cases matched with
    | false => rw [hmatch]; rfl
    | true => exact absurd hmatch (h stop)

theorem tokens_stars (h : ∀ b ∈ pat, b = star) : ∀ t ∈ tokens pat, t = .star := by
  induction pat with
  | nil => simp
  | cons b pat ih =>
    obtain ⟨rfl, hrest⟩ := List.forall_mem_cons.mp h
    rw [tokens_star]
    exact List.forall_mem_cons.mpr ⟨rfl, ih hrest⟩

theorem exists_one_of_not_stars (h : ¬ ∀ b ∈ pat, b = star) : ∃ p, .one p ∈ tokens pat := by
  induction pat with
  | nil => exact absurd (fun _ hb => absurd hb List.not_mem_nil) h
  | cons b pat ih =>
    rw [tokens]
    split_ifs with hquestion hopening hstar
    · exact ⟨_, List.mem_cons_self⟩
    · split
      · exact ⟨_, List.mem_cons_self⟩
      · exact ⟨_, List.mem_cons_self⟩
    · obtain ⟨p, hp⟩ := ih fun hrest => h (List.forall_mem_cons.mpr ⟨hstar, hrest⟩)
      exact ⟨p, List.mem_cons_of_mem _ hp⟩
    · exact ⟨_, List.mem_cons_self⟩

/-- The last star is a star, and it has not passed the place in the text. -/
structure LastStar (pat : Bytes) (starPi : Option ℕ) (starSi si : ℕ) : Prop where
  star : ∀ sp, starPi = some sp → pat[sp]? = some star
  le : starSi ≤ si

/-- How many turns the loop may take. -/
def turnsLeft (pat s : Bytes) (pi si starSi : ℕ) : ℕ :=
  (s.length + 1 - starSi) * (pat.length + s.length + 2) + (s.length - si) + (pat.length - pi)

theorem turnsLeft_retry (h : starSi < s.length) (pi' pi si : ℕ) :
    turnsLeft pat s pi' (starSi + 1) (starSi + 1) < turnsLeft pat s pi si starSi := by
  have hmul : (s.length + 1 - starSi) * (pat.length + s.length + 2) =
      (s.length + 1 - (starSi + 1)) * (pat.length + s.length + 2) +
        (pat.length + s.length + 2) := by
    rw [← Nat.succ_mul]
    congr 1
    omega
  unfold turnsLeft
  omega

theorem turnsLeft_star (hle : starSi ≤ si) (h : pi < pat.length) :
    turnsLeft pat s (pi + 1) si si < turnsLeft pat s pi si starSi := by
  have hmul := Nat.mul_le_mul_right (pat.length + s.length + 2)
    (show s.length + 1 - si ≤ s.length + 1 - starSi by omega)
  unfold turnsLeft
  omega

theorem turnsLeft_next (h : si < s.length) (n : ℕ) :
    turnsLeft pat s (pi + n) (si + 1) starSi < turnsLeft pat s pi si starSi := by
  unfold turnsLeft
  omega

theorem drop_of_getElem? (h : pat[pi]? = some p) : pat.drop pi = p :: pat.drop (pi + 1) := by
  obtain ⟨hlt, rfl⟩ := List.getElem?_eq_some_iff.mp h
  exact List.drop_eq_getElem_cons hlt

end Tokens

/-- What the loop goes back to. -/
def behindStar (pat s : Bytes) (starPi : Option ℕ) (starSi : ℕ) :
    Option (List (Token UInt8) × Bytes) :=
  starPi.map fun sp => (tokens (pat.drop (sp + 1)), s.drop starSi)

section Loop

variable {pat s : Bytes} {c p : UInt8} {pi si starSi fuel sp : ℕ} {starPi : Option ℕ}

/-- The turns from a star on scan what is behind it. -/
theorem scan_retry (hstar : LastStar pat starPi starSi si) (hsi : si < s.length) (b : Bool)
    (hstuck : Stuck (tokens (pat.drop pi)) s[si])
    (hnext : ∀ sp, starPi = some sp → Scan (tokens (pat.drop (sp + 1))) (s.drop (starSi + 1))
      (behindStar pat s (some sp) (starSi + 1)) b) (hnone : starPi = none → b = false) :
    Scan (tokens (pat.drop pi)) (s.drop si) (behindStar pat s starPi starSi) b := by
  rw [List.drop_eq_getElem_cons hsi]
  cases starPi with
  | none =>
    rw [hnone rfl]
    exact .stuck hstuck
  | some sp =>
    have hle := hstar.le
    rw [behindStar, Option.map_some, List.drop_eq_getElem_cons (show starSi < s.length by omega)]
    exact .retry hstuck (hnext sp rfl)

theorem LastStar.retry (hstar : LastStar pat (some sp) starSi si) :
    LastStar pat (some sp) (starSi + 1) (starSi + 1) := ⟨hstar.star, le_rfl⟩

/-- What the loop finds is the result of a scan. -/
theorem scan_fnmatchLoop (hstar : LastStar pat starPi starSi si)
    (hfuel : turnsLeft pat s pi si starSi < fuel) :
    Scan (tokens (pat.drop pi)) (s.drop si) (behindStar pat s starPi starSi)
      (fnmatchLoop pat s fuel pi si starPi starSi) := by
  induction fuel generalizing pi si starPi starSi with
  | zero => exact absurd hfuel (Nat.not_lt_zero _)
  | succ fuel ih =>
    have hnextStar : ∀ n, LastStar pat starPi starSi (si + n) := fun n =>
      ⟨hstar.star, hstar.le.trans (Nat.le_add_right si n)⟩
    rw [fnmatchLoop.eq_def]
    dsimp only
    cases htext : s[si]? with
    | none =>
      rw [List.drop_eq_nil_of_le (List.getElem?_eq_none_iff.mp htext)]
      by_cases hall : ∀ b ∈ pat.drop pi, b = star
      · dsimp only
        rw [List.all_eq_true.mpr fun b hb => decide_eq_true (hall b hb)]
        exact .done (tokens_stars hall)
      · obtain ⟨p, hp⟩ := exists_one_of_not_stars hall
        have hfalse : (pat.drop pi).all (· = star) = false := by
          rw [← Bool.not_eq_true, List.all_eq_true]
          exact fun h => hall fun b hb => of_decide_eq_true (h b hb)
        dsimp only
        rw [hfalse]
        exact .short hp
    | some c =>
      obtain ⟨hsi, rfl⟩ := List.getElem?_eq_some_iff.mp htext
      have hle := hstar.le
      have hdrop := List.drop_eq_getElem_cons hsi
      -- a mismatch goes back behind the last star
      have hback : ∀ sp, starPi = some sp → Scan (tokens (pat.drop (sp + 1)))
          (s.drop (starSi + 1)) (behindStar pat s (some sp) (starSi + 1))
          (fnmatchLoop pat s fuel (sp + 1) (starSi + 1) (some sp) (starSi + 1)) := by
        rintro sp rfl
        exact ih hstar.retry (Nat.lt_of_lt_of_le (turnsLeft_retry (by omega) _ _ _)
          (Nat.le_of_lt_succ hfuel))
      cases hpat : pat[pi]? with
      | none =>
        have hstuck : Stuck (tokens (pat.drop pi)) s[si] := by
          rw [List.drop_eq_nil_of_le (List.getElem?_eq_none_iff.mp hpat), tokens_nil]
          exact .inl rfl
        dsimp only
        cases starPi with
        | none => exact scan_retry hstar hsi _ hstuck (by simp) fun _ => rfl
        | some sp =>
          refine scan_retry hstar hsi _ hstuck ?_ (by simp)
          rintro sp ⟨⟩
          exact hback sp rfl
      | some p =>
        have hpi := (List.getElem?_eq_some_iff.mp hpat).1
        have hpdrop := drop_of_getElem? hpat
        dsimp only
        split_ifs with hquestion hopening hstarToken hsame
        · rw [hpdrop, hquestion, tokens_question, hdrop]
          exact .one rfl (ih (hnextStar 1)
            (Nat.lt_of_lt_of_le (turnsLeft_next hsi 1) (Nat.le_of_lt_succ hfuel)))
        · rw [hopening] at hpdrop
          by_cases hmatch : ∃ stop, matchBracket (pat.drop (pi + 1)) s[si] = some (true, stop)
          · obtain ⟨stop, hmatch⟩ := hmatch
            obtain ⟨n, rfl⟩ := Nat.exists_eq_add_of_lt (matchBracket_pos hmatch)
            have htokens := tokens_opening (c := s[si]) (by rw [hmatch]; rfl)
            rw [hmatch, hpdrop, htokens, hdrop, List.drop_drop]
            refine .one (by rw [hmatch]; rfl) ?_
            have hscan := ih (hnextStar 1)
              (Nat.lt_of_lt_of_le (turnsLeft_next hsi (0 + n + 1)) (Nat.le_of_lt_succ hfuel))
            dsimp only
            rwa [show pi + (0 + n + 1) = pi + 1 + (0 + n + 1 - 1) by omega] at hscan ⊢
          · have hne : ∀ stop, matchBracket (pat.drop (pi + 1)) s[si] ≠ some (true, stop) :=
              fun stop heq => hmatch ⟨stop, heq⟩
            have hstuck : Stuck (tokens (pat.drop pi)) s[si] := hpdrop ▸ stuck_opening hne
            cases starPi with
            | none =>
              refine scan_retry hstar hsi _ hstuck (by simp) fun _ => ?_
              split
              · exact absurd ‹_› (hne _)
              · rename_i heq _
                cases heq
              · rfl
            | some sp =>
              refine scan_retry hstar hsi _ hstuck ?_ (by simp)
              rintro sp' ⟨⟩
              -- the turn goes back to the star, and the next one passes it
              have hsp := drop_of_getElem? (hstar.star sp rfl)
              have hscan : Scan (tokens (pat.drop sp)) (s.drop (starSi + 1))
                  (behindStar pat s (some sp) (starSi + 1))
                  (fnmatchLoop pat s fuel sp (starSi + 1) (some sp) (starSi + 1)) :=
                ih hstar.retry (Nat.lt_of_lt_of_le (turnsLeft_retry (by omega) _ _ _)
                  (Nat.le_of_lt_succ hfuel))
              rw [hsp, tokens_star] at hscan
              split
              · exact absurd ‹_› (hne _)
              · rename_i heq _
                cases heq
                exact hscan.of_star
              · rename_i heq _
                cases heq
        · rw [hpdrop, hstarToken, tokens_star, hdrop]
          refine .star ?_
          rw [← hdrop]
          have hlast : LastStar pat (some pi) si si := by
            refine ⟨?_, le_rfl⟩
            rintro sp ⟨⟩
            rw [hpat, hstarToken]
          exact ih hlast
            (Nat.lt_of_lt_of_le (turnsLeft_star hle hpi) (Nat.le_of_lt_succ hfuel))
        · have hglob : isGlobChar p = false := by
            simp [isGlobChar, hquestion, hopening, hstarToken]
          rw [hpdrop, tokens_literal hglob, hdrop]
          exact .one (beq_iff_eq.mpr hsame.symm) (ih (hnextStar 1)
            (Nat.lt_of_lt_of_le (turnsLeft_next hsi 1) (Nat.le_of_lt_succ hfuel)))
        · have hglob : isGlobChar p = false := by
            simp [isGlobChar, hquestion, hopening, hstarToken]
          have hstuck : Stuck (tokens (pat.drop pi)) s[si] := by
            rw [hpdrop, tokens_literal hglob]
            exact .inr ⟨_, _, rfl, beq_eq_false_iff_ne.mpr fun h => hsame h.symm⟩
          cases starPi with
          | none => exact scan_retry hstar hsi _ hstuck (by simp) fun _ => rfl
          | some sp =>
            refine scan_retry hstar hsi _ hstuck ?_ (by simp)
            rintro sp ⟨⟩
            exact hback sp rfl

/-- `fnmatch` decides whether the tokens match. -/
theorem fnmatch_iff : fnmatch pat s = true ↔ Matches (tokens pat) s := by
  have hscan : Scan (tokens (pat.drop 0)) (s.drop 0) none (fnmatch pat s) := by
    have hstar : LastStar pat none 0 0 := ⟨fun sp h => (Option.some_ne_none sp h.symm).elim, le_rfl⟩
    refine scan_fnmatchLoop hstar ?_
    have hmul : (s.length + 2) * (pat.length + s.length + 2) =
        (s.length + 1) * (pat.length + s.length + 2) + (pat.length + s.length + 2) :=
      Nat.succ_mul _ _
    unfold turnsLeft
    rw [Nat.sub_zero]
    omega
  rw [List.drop_zero, List.drop_zero] at hscan
  rw [hscan.eq_true_iff trivial]
  exact or_iff_left id

end Loop

/-! ## Patterns that begin with a letter -/

section Front

variable {pat s front : Bytes} {c : UInt8}

/-- A letter matches itself. -/
theorem fnmatch_cons_iff (h : isGlobChar c = false) :
    fnmatch (c :: pat) s = true ↔ ∃ rest, s = c :: rest ∧ fnmatch pat rest = true := by
  rw [fnmatch_iff, tokens_literal h]
  cases s with
  | nil =>
    refine iff_of_false ?_ ?_
    · rintro ⟨⟩
    · rintro ⟨rest, ⟨⟩, -⟩
  | cons b rest =>
    rw [matches_one_iff, beq_iff_eq, ← fnmatch_iff]
    constructor
    · rintro ⟨rfl, hmatch⟩
      exact ⟨rest, rfl, hmatch⟩
    · rintro ⟨rest', ⟨⟩, hmatch⟩
      exact ⟨rfl, hmatch⟩

/-- The letters in front of a pattern match themselves. -/
theorem fnmatch_append_iff (h : ∀ c ∈ front, isGlobChar c = false) :
    fnmatch (front ++ pat) s = true ↔ ∃ rest, s = front ++ rest ∧ fnmatch pat rest = true := by
  induction front generalizing s with
  | nil =>
    constructor
    · intro hmatch
      exact ⟨s, rfl, hmatch⟩
    · rintro ⟨rest, rfl, hmatch⟩
      exact hmatch
  | cons c front ih =>
    obtain ⟨hc, hrest⟩ := List.forall_mem_cons.mp h
    rw [List.cons_append, fnmatch_cons_iff hc]
    constructor
    · rintro ⟨rest, rfl, hmatch⟩
      obtain ⟨rest', rfl, htail⟩ := (ih hrest).mp hmatch
      exact ⟨rest', rfl, htail⟩
    · rintro ⟨rest, rfl, hmatch⟩
      exact ⟨front ++ rest, List.cons_append, (ih hrest).mpr ⟨rest, rfl, hmatch⟩⟩

theorem fnmatch_nil_iff : fnmatch [] s = true ↔ s = [] := by
  rw [fnmatch_iff, tokens_nil]
  constructor
  · rintro ⟨⟩
    rfl
  · rintro rfl
    exact .nil

/-- A byte other than `[` matches itself, a star and a question mark among them. -/
theorem fnmatch_cons_self (h : c ≠ opening) (hmatch : fnmatch pat s = true) :
    fnmatch (c :: pat) (c :: s) = true := by
  by_cases hglob : isGlobChar c = true
  · rw [fnmatch_iff] at hmatch ⊢
    simp only [isGlobChar, Bool.or_eq_true, decide_eq_true_eq, h, or_false] at hglob
    rcases hglob with rfl | rfl
    · rw [tokens_star, matches_star_iff]
      exact ⟨s, List.suffix_cons _ _, hmatch⟩
    · rw [tokens_question]
      exact .one rfl hmatch
  · exact (fnmatch_cons_iff (Bool.not_eq_true _ ▸ hglob)).mpr ⟨s, rfl, hmatch⟩

end Front

end OxidizedSystemd.Hwdb
