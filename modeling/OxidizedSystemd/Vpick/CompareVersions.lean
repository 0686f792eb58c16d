import OxidizedSystemd.Lib.Compare
import OxidizedSystemd.Lib.Utf8

/-!
# Comparison of version strings

Model of `compare_versions` (`vpick-core/src/lib.rs`, lines 120–245).

The loop of the source walks over two byte strings at once. `versionKey` reads one
string alone: a list of numbers for every turn of the loop, so that the loop is the
lexicographic comparison of two keys.

* `loop_eq_cmpI32_segments`: the loop, for any fuel, compares keys.
* `segments_fuel`: the key does not depend on the fuel once there is a turn for every
  byte, so the loop ends by itself.
* `compareVersions_eq_cmpI32_versionKey`: the refinement.
* `compareVersions_totalPreorder`: it is a total preorder, sorting by it gives a
  sorted list, and every list has a greatest element.
-/

namespace OxidizedSystemd.Vpick

open OxidizedSystemd.Lib

/-! ## The source -/

def isDigit (b : UInt8) : Bool := 0x30 ≤ b && b ≤ 0x39

def isAlphabetic (b : UInt8) : Bool := (0x41 ≤ b && b ≤ 0x5a) || (0x61 ≤ b && b ≤ 0x7a)

/-- `is_valid` (lines 136–138). -/
def isValid (b : UInt8) : Bool :=
  isDigit b || isAlphabetic b || b == 0x7e || b == 0x2d || b == 0x5e || b == 0x2e

/-- `at` (lines 140–142), of what is left of a string: its first byte, or NUL. -/
def byteAt (s : Bytes) : UInt8 := s.headD 0

/-- How a turn of the loop ends: with the result, or with what is left of both. -/
inductive Turn where
  | done (r : ℤ)
  | next (a b : Bytes)

/-- `if r != 0 { return r; }`, and then the rest of the turn. The `r` is a `cmp` (lines 241–247). -/
def orElse (r : ℤ) (rest : Turn) : Turn := if r ≠ 0 then .done r else rest

/-- The test for one special character: `~` (lines 158–165), and `-`, `^`, `.`
    (lines 173–182). -/
def special (sep : UInt8) (a b : Bytes) (rest : Bytes → Bytes → Turn) : Turn :=
  if byteAt a = sep ∨ byteAt b = sep then
    orElse (cmpI32 (byteAt a != sep) (byteAt b != sep)) (rest a.tail b.tail)
  else rest a b

/-- Numeric segments (lines 185–215). -/
def numeric (a b : Bytes) : Turn :=
  let da := a.takeWhile isDigit
  let db := b.takeWhile isDigit
  orElse (cmpI32 (!da.isEmpty) (!db.isEmpty))
    (let da := da.dropWhile (· == 0x30)
     let db := db.dropWhile (· == 0x30)
     orElse (cmpI32 da.length db.length)
       (orElse (cmpI32 da db)
         (.next (a.dropWhile isDigit) (b.dropWhile isDigit))))

/-- Alphabetic segments (lines 217–236). -/
def alphabetic (a b : Bytes) : Turn :=
  let la := a.takeWhile isAlphabetic
  let lb := b.takeWhile isAlphabetic
  let n := min la.length lb.length
  orElse (cmpI32 (la.take n) (lb.take n))
    (orElse (cmpI32 la.length lb.length)
      (.next (a.dropWhile isAlphabetic) (b.dropWhile isAlphabetic)))

/-- One turn of the loop (lines 149–237). -/
def turn (a b : Bytes) : Turn :=
  special 0x7e (a.dropWhile fun c => !isValid c) (b.dropWhile fun c => !isValid c) fun a b =>
    if byteAt a = 0 ∨ byteAt b = 0 then .done (cmpI32 (byteAt a) (byteAt b))
    else
      special 0x2d a b fun a b => special 0x5e a b fun a b => special 0x2e a b fun a b =>
        if isDigit (byteAt a) ∨ isDigit (byteAt b) then numeric a b else alphabetic a b

/-- At most `fuel` turns of the loop. -/
def loop : ℕ → Bytes → Bytes → ℤ
  | 0, _, _ => 0
  | fuel + 1, a, b =>
    match turn a b with
    | .done r => r
    | .next a b => loop fuel a b

/-- `compare_kernel_versions` (lines 135–239). A turn takes at least one byte of each
    string, so one turn more than both have bytes is enough. -/
def compareKernelVersions (a b : String) : ℤ :=
  loop ((asBytes a).length + (asBytes b).length + 1) (asBytes a) (asBytes b)

/-- `compare_versions` (lines 120–127). -/
def compareVersions (a b : String) : ℤ :=
  match a.isEmpty, b.isEmpty with
  | true, true => 0
  | true, false => -1
  | false, true => 1
  | false, false => compareKernelVersions a b

/-! ## The key of one string -/

/-- A special character is taken away. -/
def strip (sep : UInt8) (s : Bytes) : Bytes := if byteAt s = sep then s.tail else s

/-- 0 for the special character, 1 for any other: the special one is the older. -/
def flag (b : Bool) : ℕ := if b then 1 else 0

/-- What a turn has left of a string after invalid characters and a `~`. -/
def afterTilde (s : Bytes) : Bytes := strip 0x7e (s.dropWhile fun c => !isValid c)

/-- What a turn has left of a string after the separators. -/
def afterSeparators (s : Bytes) : Bytes := strip 0x2e (strip 0x5e (strip 0x2d s))

/-- What a turn reads of the segment behind the separators: whether it is numeric, how
    long the number is, and its characters. -/
def segment (s : Bytes) : List ℕ :=
  if isDigit (byteAt s) then
    let digits := (s.takeWhile isDigit).dropWhile (· == 0x30)
    1 :: digits.length :: digits.map UInt8.toNat
  else 0 :: (s.takeWhile isAlphabetic).map UInt8.toNat

/-- What is left of a string behind its segment. -/
def behindSegment (s : Bytes) : Bytes :=
  if isDigit (byteAt s) then s.dropWhile isDigit else s.dropWhile isAlphabetic

/-- What a turn reads behind the end test: the separators and the segment. -/
def separatorsAndSegment (s : Bytes) : List ℕ :=
  flag (byteAt s != 0x2d) :: flag (byteAt (strip 0x2d s) != 0x5e) ::
    flag (byteAt (strip 0x5e (strip 0x2d s)) != 0x2e) :: segment (afterSeparators s)

/-- What a turn reads of the string: which special characters it has, and its segment. -/
def token (s : Bytes) : List ℕ :=
  flag (byteAt (s.dropWhile fun c => !isValid c) != 0x7e) :: flag (byteAt (afterTilde s) != 0) ::
    if byteAt (afterTilde s) = 0 then [] else separatorsAndSegment (afterTilde s)

/-- The turns of at most `fuel` turns of the loop on one string. -/
def segments : ℕ → Bytes → List (List ℕ)
  | 0, _ => []
  | fuel + 1, s =>
    token s :: if byteAt (afterTilde s) = 0 then []
      else segments fuel (behindSegment (afterSeparators (afterTilde s)))

/-- The key of a version string. The empty string has the empty key, the oldest. -/
def versionKey (s : String) : List (List ℕ) :=
  if s.isEmpty then [] else segments ((asBytes s).length + 1) (asBytes s)

/-! ## A turn compares tokens -/

/-- A comparison that decides the turn unless it is a tie. -/
def resolve (o : Ordering) (rest : Turn) : Turn :=
  match o with
  | .lt => .done (-1)
  | .eq => rest
  | .gt => .done 1

theorem orElse_cmpI32 {α : Type} [Ord α] (x y : α) (rest : Turn) :
    orElse (cmpI32 x y) rest = resolve (compare x y) rest := by
  unfold orElse cmpI32
  cases compare x y <;> rfl

theorem resolve_then (o p : Ordering) (rest : Turn) :
    resolve (o.then p) rest = resolve o (resolve p rest) := by
  cases o <;> rfl

theorem compare_flag (b c : Bool) : compare (flag b) (flag c) = compare b c := by
  cases b <;> cases c <;> rfl

theorem special_eq (sep : UInt8) (a b : Bytes) (rest : Bytes → Bytes → Turn) :
    special sep a b rest =
      resolve (compare (flag (byteAt a != sep)) (flag (byteAt b != sep)))
        (rest (strip sep a) (strip sep b)) := by
  rw [compare_flag, ← orElse_cmpI32]
  unfold special strip
  by_cases ha : byteAt a = sep
  · by_cases hb : byteAt b = sep
    · rw [if_pos (Or.inl ha), if_pos ha, if_pos hb]
    · rw [if_pos (Or.inl ha), if_pos ha, if_neg hb, ha, bne_self_eq_false, bne_iff_ne.mpr hb]
      rfl
  · by_cases hb : byteAt b = sep
    · rw [if_pos (Or.inr hb), if_neg ha, if_pos hb, hb, bne_self_eq_false, bne_iff_ne.mpr ha]
      rfl
    · rw [if_neg (not_or.mpr ⟨ha, hb⟩), if_neg ha, if_neg hb, bne_iff_ne.mpr ha,
        bne_iff_ne.mpr hb]
      rfl

theorem compare_map_toNat (xs ys : Bytes) :
    compare (xs.map UInt8.toNat) (ys.map UInt8.toNat) = compare xs ys := by
  induction xs generalizing ys with
  | nil => cases ys <;> rfl
  | cons x xs ih =>
    cases ys with
    | nil => rfl
    | cons y ys =>
      rw [List.map_cons, List.map_cons, List.compare_cons_cons, List.compare_cons_cons, ih,
        UInt8.compare_eq_toNat_compare_toNat]

theorem takeWhile_isEmpty (p : UInt8 → Bool) (h : p 0 = false) (s : Bytes) :
    (s.takeWhile p).isEmpty = !p (byteAt s) := by
  cases s with
  | nil => simp [byteAt, h]
  | cons c s => cases hc : p c <;> simp [byteAt, hc]

theorem numeric_eq {a b : Bytes} (h : isDigit (byteAt a) ∨ isDigit (byteAt b)) :
    numeric a b =
      resolve (compare (segment a) (segment b)) (.next (behindSegment a) (behindSegment b)) := by
  have hempty := takeWhile_isEmpty isDigit rfl
  unfold numeric segment behindSegment
  simp only [orElse_cmpI32, hempty, Bool.not_not]
  cases ha : isDigit (byteAt a) <;> cases hb : isDigit (byteAt b)
  · simp [ha, hb] at h
  · rfl
  · rfl
  · simp only [if_true, List.compare_cons_cons, resolve_then, compare_map_toNat]
    rfl

theorem alphabetic_eq {a b : Bytes} (ha : isDigit (byteAt a) = false)
    (hb : isDigit (byteAt b) = false) :
    alphabetic a b =
      resolve (compare (segment a) (segment b)) (.next (behindSegment a) (behindSegment b)) := by
  unfold alphabetic segment behindSegment
  simp only [ha, hb, orElse_cmpI32, Bool.false_eq_true, if_false, List.compare_cons_cons,
    compare_map_toNat]
  rw [← resolve_then, compare_take_then_length]
  rfl

/-- What a turn leaves of a string, if it has not ended. -/
def behindTurn (s : Bytes) : Bytes := behindSegment (afterSeparators (afterTilde s))

/-- A byte compared with NUL. -/
theorem compare_zero {x : UInt8} (h : x ≠ 0) : compare 0 x = .lt := by
  have hpos : 0 < x := UInt8.pos_iff_ne_zero.mpr h
  rw [UInt8.compare_eq_toNat_compare_toNat, Nat.compare_eq_lt]
  exact hpos

/-- The end test of lines 168–170. -/
theorem ended_eq (x y : UInt8) (rest : Turn) :
    (if x = 0 ∨ y = 0 then Turn.done (cmpI32 x y) else rest) =
      resolve (compare (flag (x != 0)) (flag (y != 0))) (if x = 0 then .done 0 else rest) := by
  rw [compare_flag]
  by_cases hx : x = 0
  · by_cases hy : y = 0
    · rw [if_pos (Or.inl hx), if_pos hx, hx, hy]
      rfl
    · rw [if_pos (Or.inl hx), hx, cmpI32, compare_zero hy, bne_iff_ne.mpr hy]
      rfl
  · by_cases hy : y = 0
    · have hgt : compare x 0 = .gt := by
        rw [Std.OrientedOrd.eq_swap, compare_zero hx]
        rfl
      rw [if_pos (Or.inr hy), hy, cmpI32, hgt, bne_iff_ne.mpr hx]
      rfl
    · rw [if_neg (not_or.mpr ⟨hx, hy⟩), if_neg hx, bne_iff_ne.mpr hx, bne_iff_ne.mpr hy]
      rfl

theorem separators_eq (a b : Bytes) :
    (special 0x2d a b fun a b => special 0x5e a b fun a b => special 0x2e a b fun a b =>
        if isDigit (byteAt a) ∨ isDigit (byteAt b) then numeric a b else alphabetic a b) =
      resolve (compare (separatorsAndSegment a) (separatorsAndSegment b))
        (.next (behindSegment (afterSeparators a)) (behindSegment (afterSeparators b))) := by
  rw [special_eq, special_eq, special_eq]
  simp only [separatorsAndSegment, afterSeparators, List.compare_cons_cons, resolve_then]
  generalize strip 0x2e (strip 0x5e (strip 0x2d a)) = x
  generalize strip 0x2e (strip 0x5e (strip 0x2d b)) = y
  congr 3
  by_cases h : isDigit (byteAt x) ∨ isDigit (byteAt y)
  · rw [if_pos h, numeric_eq h]
  · obtain ⟨hx, hy⟩ := not_or.mp h
    rw [if_neg h, alphabetic_eq (Bool.eq_false_iff.mpr hx) (Bool.eq_false_iff.mpr hy)]

/-- A turn is the comparison of two tokens. -/
theorem turn_eq (a b : Bytes) :
    turn a b = resolve (compare (token a) (token b))
      (if byteAt (afterTilde a) = 0 then .done 0 else .next (behindTurn a) (behindTurn b)) := by
  unfold turn token behindTurn afterTilde
  rw [special_eq, List.compare_cons_cons, resolve_then]
  generalize strip 0x7e (a.dropWhile fun c => !isValid c) = x
  generalize strip 0x7e (b.dropWhile fun c => !isValid c) = y
  rw [ended_eq, separators_eq, List.compare_cons_cons, resolve_then]
  congr 1
  -- The tokens behind the end test only matter where both strings go on.
  by_cases hx : byteAt x = 0
  · by_cases hy : byteAt y = 0
    · rw [if_pos hx, if_pos hx, if_pos hy, if_pos hx]
      rfl
    · rw [hx, bne_iff_ne.mpr hy]
      rfl
  · by_cases hy : byteAt y = 0
    · rw [hy, bne_iff_ne.mpr hx]
      rfl
    · rw [if_neg hx, if_neg hx, if_neg hx, if_neg hy]

/-! ## The loop compares keys -/

/-- Equal tokens end together. -/
theorem ended_of_token_eq {a b : Bytes} (h : token a = token b) :
    byteAt (afterTilde a) = 0 ↔ byteAt (afterTilde b) = 0 := by
  have hflag := congrArg (fun t => t.getD 1 0) h
  simp only [token, List.getD_cons_succ, List.getD_cons_zero] at hflag
  by_cases ha : byteAt (afterTilde a) = 0 <;> by_cases hb : byteAt (afterTilde b) = 0 <;>
    simp [ha, hb, flag] at hflag ⊢

theorem loop_eq_cmpI32_segments (fuel : ℕ) (a b : Bytes) :
    loop fuel a b = cmpI32 (segments fuel a) (segments fuel b) := by
  induction fuel generalizing a b with
  | zero => rfl
  | succ fuel ih =>
    rw [loop, turn_eq, cmpI32, segments, segments, List.compare_cons_cons]
    cases h : compare (token a) (token b) with
    | lt => rfl
    | gt => rfl
    | eq =>
      have hended := ended_of_token_eq (Std.LawfulEqOrd.compare_eq_iff_eq.mp h)
      by_cases ha : byteAt (afterTilde a) = 0
      · rw [if_pos ha, if_pos ha, if_pos (hended.mp ha)]
        rfl
      · have hb : byteAt (afterTilde b) ≠ 0 := fun hb => ha (hended.mpr hb)
        rw [if_neg ha, if_neg ha, if_neg hb]
        exact ih _ _

/-! ## Every turn takes a byte -/

theorem strip_eq_or_lt (sep : UInt8) (hsep : sep ≠ 0) (s : Bytes) :
    (byteAt s ≠ sep ∧ strip sep s = s) ∨ (strip sep s).length < s.length := by
  unfold strip
  by_cases h : byteAt s = sep
  · right
    rw [if_pos h]
    cases s with
    | nil => exact absurd h.symm hsep
    | cons c s => exact Nat.lt_succ_self _
  · exact Or.inl ⟨h, if_neg h⟩

theorem strip_length_le (sep : UInt8) (s : Bytes) : (strip sep s).length ≤ s.length := by
  unfold strip
  split
  · rw [List.length_tail]
    omega
  · exact le_refl _

theorem afterSeparators_eq_or_lt (s : Bytes) :
    (byteAt s ≠ 0x2d ∧ byteAt s ≠ 0x5e ∧ byteAt s ≠ 0x2e ∧ afterSeparators s = s) ∨
      (afterSeparators s).length < s.length := by
  unfold afterSeparators
  have hdot := strip_length_le 0x2e (strip 0x5e (strip 0x2d s))
  have hcaret := strip_length_le 0x5e (strip 0x2d s)
  rcases strip_eq_or_lt 0x2d (by decide) s with ⟨hdash, heq⟩ | hlt
  · rw [heq] at hdot hcaret ⊢
    rcases strip_eq_or_lt 0x5e (by decide) s with ⟨hcaret', heq⟩ | hlt
    · rw [heq] at hdot ⊢
      rcases strip_eq_or_lt 0x2e (by decide) s with ⟨hdot', heq⟩ | hlt
      · exact Or.inl ⟨hdash, hcaret', hdot', heq⟩
      · exact Or.inr hlt
    · exact Or.inr (by omega)
  · exact Or.inr (by omega)

theorem behindSegment_length_le (s : Bytes) : (behindSegment s).length ≤ s.length := by
  unfold behindSegment
  split <;> exact (List.dropWhile_sublist _).length_le

theorem behindSegment_length_lt {c : UInt8} {s : Bytes} (h : isDigit c ∨ isAlphabetic c) :
    (behindSegment (c :: s)).length < (c :: s).length := by
  have hhead : byteAt (c :: s) = c := rfl
  unfold behindSegment
  rw [hhead, List.length_cons]
  by_cases hdigit : isDigit c
  · rw [if_pos hdigit, List.dropWhile_cons_of_pos hdigit]
    exact Nat.lt_succ_of_le (List.dropWhile_sublist _).length_le
  · rw [if_neg hdigit, List.dropWhile_cons_of_pos (h.resolve_left hdigit)]
    exact Nat.lt_succ_of_le (List.dropWhile_sublist _).length_le

/-- The first character that is left of the invalid ones is a valid one. -/
theorem isValid_byteAt_dropWhile {s : Bytes} (h : byteAt (s.dropWhile fun c => !isValid c) ≠ 0) :
    isValid (byteAt (s.dropWhile fun c => !isValid c)) := by
  cases hd : s.dropWhile fun c => !isValid c with
  | nil => exact absurd (by rw [hd]; rfl) h
  | cons c rest =>
    have hhead := List.head_dropWhile_not (fun c => !isValid c) (l := s) (by rw [hd]; simp)
    simp only [hd, List.head_cons, Bool.not_eq_false'] at hhead
    exact hhead

theorem behindTurn_length_lt {s : Bytes} (h : byteAt (afterTilde s) ≠ 0) :
    (behindTurn s).length < s.length := by
  have hseps := behindSegment_length_le (afterSeparators (afterTilde s))
  have hdrop := (List.dropWhile_sublist (l := s) fun c => !isValid c).length_le
  have hvalid := @isValid_byteAt_dropWhile s
  unfold behindTurn
  unfold afterTilde at h hseps ⊢
  generalize s.dropWhile (fun c => !isValid c) = d at h hseps hdrop hvalid ⊢
  rcases strip_eq_or_lt 0x7e (by decide) d with ⟨htilde, heq⟩ | hlt
  · rw [heq] at h hseps ⊢
    rcases afterSeparators_eq_or_lt d with ⟨hdash, hcaret, hdot, heq⟩ | hlt
    · rw [heq]
      cases d with
      | nil => exact absurd rfl h
      | cons c d =>
        have hsegment : isDigit c ∨ isAlphabetic c := by
          have := hvalid h
          simp only [byteAt, List.headD_cons] at this htilde hdash hcaret hdot
          simpa [isValid, htilde, hdash, hcaret, hdot] using this
        exact Nat.lt_of_lt_of_le (behindSegment_length_lt hsegment) hdrop
    · omega
  · have hle : (afterSeparators (strip 0x7e d)).length ≤ (strip 0x7e d).length := by
      rcases afterSeparators_eq_or_lt (strip 0x7e d) with ⟨_, _, _, heq⟩ | hlt
      · rw [heq]
      · exact Nat.le_of_lt hlt
    omega

theorem segments_fuel {fuel fuel' : ℕ} {s : Bytes} (h : s.length < fuel) (h' : s.length < fuel') :
    segments fuel s = segments fuel' s := by
  induction fuel generalizing fuel' s with
  | zero => omega
  | succ fuel ih =>
    obtain ⟨fuel', rfl⟩ := Nat.exists_eq_succ_of_ne_zero (Nat.ne_of_gt (Nat.zero_lt_of_lt h'))
    rw [segments, segments]
    by_cases hended : byteAt (afterTilde s) = 0
    · rw [if_pos hended, if_pos hended]
    · have hlt : (behindTurn s).length < s.length := behindTurn_length_lt hended
      rw [if_neg hended, if_neg hended]
      congr 1
      exact ih (Nat.lt_of_lt_of_le hlt (Nat.le_of_lt_succ h))
        (Nat.lt_of_lt_of_le hlt (Nat.le_of_lt_succ h'))

/-! ## The refinement -/

theorem compareVersions_eq_cmpI32_versionKey (a b : String) :
    compareVersions a b = cmpI32 (versionKey a) (versionKey b) := by
  unfold compareVersions versionKey
  cases ha : a.isEmpty <;> cases hb : b.isEmpty
  · change compareKernelVersions a b = _
    rw [compareKernelVersions, loop_eq_cmpI32_segments]
    simp only [Bool.false_eq_true, if_false]
    rw [@segments_fuel _ ((asBytes a).length + 1) (asBytes a) (by omega) (by omega),
      @segments_fuel _ ((asBytes b).length + 1) (asBytes b) (by omega) (by omega)]
  · rfl
  · rfl
  · rfl

/-- Less or equal. -/
def versionLe (a b : String) : Bool := compareVersions a b ≤ 0

theorem versionLe_trans (a b c : String) (hab : versionLe a b) (hbc : versionLe b c) :
    versionLe a c := by
  simp only [versionLe, decide_eq_true_eq, compareVersions_eq_cmpI32_versionKey] at hab hbc ⊢
  exact cmpI32_le_trans hab hbc

theorem versionLe_total (a b : String) : versionLe a b ∨ versionLe b a := by
  simp only [versionLe, decide_eq_true_eq, compareVersions_eq_cmpI32_versionKey]
  rw [cmpI32_swap (versionKey a)]
  omega

/-- `compare_versions` is a total preorder on all strings: reflexive, antisymmetric in
    sign, with a transitive order and a transitive equivalence. Sorting by it gives a
    sorted list, and every list that is not empty has a greatest element. -/
theorem compareVersions_totalPreorder :
    (∀ a, compareVersions a a = 0) ∧
    (∀ a b, compareVersions b a = -compareVersions a b) ∧
    (∀ a b c, compareVersions a b ≤ 0 → compareVersions b c ≤ 0 → compareVersions a c ≤ 0) ∧
    (∀ a b c, compareVersions a b = 0 → compareVersions b c = 0 → compareVersions a c = 0) ∧
    (∀ versions : List String,
      (versions.mergeSort versionLe).Pairwise fun a b => compareVersions a b ≤ 0) ∧
    (∀ versions : List String, versions ≠ [] →
      ∃ m ∈ versions, ∀ v ∈ versions, compareVersions v m ≤ 0) := by
  refine ⟨?_, ?_, ?_, ?_, ?_, ?_⟩
  · intro a
    rw [compareVersions_eq_cmpI32_versionKey]
    exact cmpI32_self _
  · intro a b
    rw [compareVersions_eq_cmpI32_versionKey, compareVersions_eq_cmpI32_versionKey]
    exact cmpI32_swap _ _
  · intro a b c hab hbc
    rw [compareVersions_eq_cmpI32_versionKey] at hab hbc ⊢
    exact cmpI32_le_trans hab hbc
  · intro a b c hab hbc
    rw [compareVersions_eq_cmpI32_versionKey] at hab hbc ⊢
    exact cmpI32_eq_trans hab hbc
  · intro versions
    have hsorted := List.pairwise_mergeSort versionLe_trans
      (fun a b => by simpa using versionLe_total a b) versions
    exact hsorted.imp fun h => of_decide_eq_true h
  · intro versions hne
    obtain ⟨m, hm, hmax⟩ := exists_maximum versionLe_total versionLe_trans hne
    exact ⟨m, hm, fun v hv => of_decide_eq_true (hmax v hv)⟩

/-- It applies at every three strings: a pre-release, an equal spelling, and a later one. -/
theorem compareVersions_totalPreorder_rc :
    compareVersions "1.2~rc1" "1.02" ≤ 0 ∧ compareVersions "1.02" "1.10" ≤ 0 ∧
      compareVersions "1.2~rc1" "1.10" ≤ 0 :=
  ⟨by decide, by decide,
    compareVersions_totalPreorder.2.2.1 "1.2~rc1" "1.02" "1.10" (by decide)
      (by decide)⟩

end OxidizedSystemd.Vpick
