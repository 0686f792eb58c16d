import Mathlib.Data.Int.Notation
import Mathlib.Data.List.Basic
import Mathlib.Data.Nat.Notation

/-!
# Text as lists of characters

The string functions of the Rust standard library that the models use, on lists
of characters.

* `isWhitespace`, `trim`: `char::is_whitespace`, `str::trim`.
* `splitOnce`, `splitStr`, `splitWhitespace`, `toLowercase`: the methods of `str`.
* `fromStrRadix`: `from_str_radix` of an unsigned type, `none` for every error.
* `hex`, `hexPad`: the formats `{:x}` and `{:0width$x}`.
* `signedDecimal`, `parseSigned`: the same for signed types.
* `fromStrRadix_hex`, `fromStrRadix_decimal`, `parseSigned_signedDecimal`: what `{:x}` and `{}`
  print is parsed back.
-/

namespace OxidizedSystemd.Lib

universe u

/-- `char::is_whitespace`: the Unicode property `White_Space`. -/
def isWhitespace (c : Char) : Bool :=
  let n := c.toNat
  (9 ≤ n && n ≤ 13) || n == 0x20 || n == 0x85 || n == 0xA0 || n == 0x1680 ||
  (0x2000 ≤ n && n ≤ 0x200A) || n == 0x2028 || n == 0x2029 || n == 0x202F || n == 0x205F ||
  n == 0x3000

/-- `u8 as char`. -/
theorem charOfNat_toNat {n : ℕ} (h : n < 256) : (Char.ofNat n).toNat = n := by
  have hall : ∀ n < 256, (Char.ofNat n).toNat = n := by set_option maxRecDepth 20000 in decide
  exact hall n h

/-- `str::trim`. -/
def trim (cs : List Char) : List Char :=
  ((cs.dropWhile isWhitespace).reverse.dropWhile isWhitespace).reverse

/-- `str::trim_end`. -/
def trimEnd (cs : List Char) : List Char := (cs.reverse.dropWhile isWhitespace).reverse

theorem trim_of_no_whitespace {cs : List Char} (h : ∀ c ∈ cs, isWhitespace c = false) :
    trim cs = cs := by
  have hdrop : ∀ ds : List Char, (∀ c ∈ ds, isWhitespace c = false) →
      ds.dropWhile isWhitespace = ds := by
    intro ds hds
    cases ds with
    | nil => rfl
    | cons d ds => rw [List.dropWhile_cons, hds d List.mem_cons_self]; rfl
  rw [trim, hdrop cs h, hdrop cs.reverse fun c hc => h c (List.mem_reverse.mp hc),
    List.reverse_reverse]

theorem dropWhile_eq_self_iff_head? {α : Type u} {p : α → Bool} {l : List α} :
    l.dropWhile p = l ↔ ∀ a ∈ l.head?, p a = false := by
  cases l with
  | nil => simp
  | cons a l =>
    rw [List.dropWhile_cons]
    cases h : p a with
    | false => simp [h]
    | true =>
      have hlen := (List.dropWhile_sublist p (l := l)).length_le
      constructor
      · intro heq
        simp only [if_true] at heq
        rw [heq, List.length_cons] at hlen
        omega
      · intro hall
        have := hall a rfl
        rw [h] at this
        cases this

/-- What is dropped from the front ends where an element stays. -/
theorem dropWhile_append_of_head? {α : Type u} {p : α → Bool} {as bs : List α}
    (h : ∀ b ∈ bs.head?, p b = false) : (as ++ bs).dropWhile p = as.dropWhile p ++ bs := by
  induction as with
  | nil => exact dropWhile_eq_self_iff_head?.mpr h
  | cons a as ih =>
    rw [List.cons_append, List.dropWhile_cons, List.dropWhile_cons]
    cases p a with
    | true => exact ih
    | false => rfl

/-- What is trimmed from the end ends where a character stays. -/
theorem trimEnd_append_cons (cs : List Char) {c : Char} (hc : isWhitespace c = false)
    (ds : List Char) : trimEnd (cs ++ c :: ds) = cs ++ c :: trimEnd ds := by
  rw [trimEnd, trimEnd, List.reverse_append, List.reverse_cons, List.append_assoc,
    List.singleton_append, dropWhile_append_of_head? (by simpa using hc)]
  simp

theorem trimEnd_prefix (cs : List Char) : trimEnd cs <+: cs := by
  have h := List.dropWhile_suffix isWhitespace (l := cs.reverse)
  rw [trimEnd]
  simpa using List.reverse_prefix.mpr h

/-- What is trimmed from both ends ends where a character stays. -/
theorem trim_append_cons (cs : List Char) {c : Char} (hc : isWhitespace c = false)
    (ds : List Char) : trim (cs ++ c :: ds) = cs.dropWhile isWhitespace ++ c :: trimEnd ds := by
  have hdrop : (cs ++ c :: ds).dropWhile isWhitespace = cs.dropWhile isWhitespace ++ c :: ds :=
    dropWhile_append_of_head? (by simpa using hc)
  have htrim := trimEnd_append_cons (cs.dropWhile isWhitespace) hc ds
  rw [trimEnd] at htrim
  rw [trim, hdrop, htrim]

theorem length_trim_le (cs : List Char) : (trim cs).length ≤ cs.length := by
  have hstart := (List.dropWhile_sublist isWhitespace (l := cs)).length_le
  have hend := (List.dropWhile_sublist isWhitespace
    (l := (cs.dropWhile isWhitespace).reverse)).length_le
  rw [List.length_reverse] at hend
  rw [trim, List.length_reverse]
  omega

/-- A text without blanks around it. -/
theorem trim_eq_self_iff {cs : List Char} : trim cs = cs ↔
    (∀ c ∈ cs.head?, isWhitespace c = false) ∧ ∀ c ∈ cs.getLast?, isWhitespace c = false := by
  constructor
  · intro h
    have hstart := List.dropWhile_sublist isWhitespace (l := cs)
    have hend := List.dropWhile_sublist isWhitespace (l := (cs.dropWhile isWhitespace).reverse)
    have hlen := congrArg List.length h
    rw [trim, List.length_reverse] at hlen
    have hle := hend.length_le
    rw [List.length_reverse] at hle
    have hhead := hstart.eq_of_length (by have := hstart.length_le; omega)
    rw [hhead] at hend hlen
    have hlast := hend.eq_of_length (by rw [List.length_reverse, hlen])
    refine ⟨dropWhile_eq_self_iff_head?.mp hhead, ?_⟩
    have := dropWhile_eq_self_iff_head?.mp hlast
    rwa [List.head?_reverse] at this
  · rintro ⟨hhead, hlast⟩
    rw [trim, dropWhile_eq_self_iff_head?.mpr hhead, dropWhile_eq_self_iff_head?.mpr,
      List.reverse_reverse]
    rwa [List.head?_reverse]

/-- `str::strip_prefix`. -/
def stripPrefix (prefixed cs : List Char) : Option (List Char) :=
  if prefixed.isPrefixOf cs then some (cs.drop prefixed.length) else none

/-- `str::split_once`, for a pattern that is not empty. -/
def splitOnce (pattern : List Char) : List Char → Option (List Char × List Char)
  | [] => none
  | c :: cs =>
    match stripPrefix pattern (c :: cs) with
    | some rest => some ([], rest)
    | none => (splitOnce pattern cs).map fun halves => (c :: halves.1, halves.2)

theorem stripPrefix_eq_some_iff {prefixed cs rest : List Char} :
    stripPrefix prefixed cs = some rest ↔ cs = prefixed ++ rest := by
  rw [stripPrefix]
  constructor
  · intro h
    split at h
    · rename_i hprefix
      rw [← Option.some.inj h]
      exact (List.prefix_iff_eq_append.mp (List.isPrefixOf_iff_prefix.mp hprefix)).symm
    · cases h
  · rintro rfl
    rw [if_pos (List.isPrefixOf_iff_prefix.mpr (List.prefix_append prefixed rest)),
      List.drop_left]

/-- What is cut at a character: the first one is between the halves. -/
theorem splitOnce_singleton_eq_some_iff {c : Char} {cs as bs : List Char} :
    splitOnce [c] cs = some (as, bs) ↔ c ∉ as ∧ cs = as ++ c :: bs := by
  induction cs generalizing as with
  | nil => simp [splitOnce]
  | cons d cs ih =>
    rw [splitOnce]
    by_cases hd : d = c
    · have hstrip : stripPrefix [c] (d :: cs) = some cs :=
        stripPrefix_eq_some_iff.mpr (by rw [hd]; rfl)
      rw [hstrip]
      cases as with
      | nil => simp [hd]
      | cons a as =>
        simp only [Option.some.injEq, Prod.mk.injEq, List.mem_cons, not_or, List.cons_append,
          List.cons.injEq]
        constructor
        · rintro ⟨h, -⟩
          cases h
        · rintro ⟨⟨hne, -⟩, rfl, -⟩
          exact absurd hd.symm hne
    · have hstrip : stripPrefix [c] (d :: cs) = none := by
        apply Option.eq_none_iff_forall_not_mem.mpr
        intro rest hrest
        exact hd (List.cons.inj (stripPrefix_eq_some_iff.mp hrest)).1
      rw [hstrip]
      cases as with
      | nil => simp [hd]
      | cons a as =>
        simp only [Option.map_eq_some_iff, Prod.mk.injEq, Prod.exists, List.cons.injEq,
          List.mem_cons, not_or, List.cons_append]
        constructor
        · rintro ⟨xs, ys, h, ⟨rfl, rfl⟩, rfl⟩
          obtain ⟨hmem, heq⟩ := ih.mp h
          exact ⟨⟨fun heq => hd heq.symm, hmem⟩, rfl, heq⟩
        · rintro ⟨⟨-, hmem⟩, rfl, heq⟩
          exact ⟨as, bs, ih.mpr ⟨hmem, heq⟩, ⟨rfl, rfl⟩, rfl⟩

theorem splitOnce_singleton_eq_none_iff {c : Char} {cs : List Char} :
    splitOnce [c] cs = none ↔ c ∉ cs := by
  rw [Option.eq_none_iff_forall_not_mem]
  constructor
  · intro h hmem
    obtain ⟨as, bs, heq, hnot⟩ := List.eq_append_cons_of_mem hmem
    exact h (as, bs) (splitOnce_singleton_eq_some_iff.mpr ⟨hnot, heq⟩)
  · rintro hnot ⟨as, bs⟩ h
    rw [(splitOnce_singleton_eq_some_iff.mp h).2] at hnot
    exact hnot (List.mem_append_right as List.mem_cons_self)

/-- `str::strip_suffix`. -/
def stripSuffix (suffix cs : List Char) : Option (List Char) :=
  (stripPrefix suffix.reverse cs.reverse).map List.reverse

theorem stripSuffix_eq_some_iff {suffix cs rest : List Char} :
    stripSuffix suffix cs = some rest ↔ cs = rest ++ suffix := by
  rw [stripSuffix, Option.map_eq_some_iff]
  constructor
  · rintro ⟨front, hfront, rfl⟩
    rw [← List.reverse_inj, stripPrefix_eq_some_iff.mp hfront]
    simp
  · rintro rfl
    exact ⟨rest.reverse, stripPrefix_eq_some_iff.mpr List.reverse_append, List.reverse_reverse rest⟩

/-- `str::rsplit_once`, for a character. -/
def rsplitOnce (c : Char) (cs : List Char) : Option (List Char × List Char) :=
  (splitOnce [c] cs.reverse).map fun halves => (halves.2.reverse, halves.1.reverse)

theorem rsplitOnce_eq_some_iff {c : Char} {cs as bs : List Char} :
    rsplitOnce c cs = some (as, bs) ↔ c ∉ bs ∧ cs = as ++ c :: bs := by
  rw [rsplitOnce, Option.map_eq_some_iff]
  constructor
  · rintro ⟨⟨xs, ys⟩, hsplit, heq⟩
    obtain ⟨rfl, rfl⟩ := Prod.mk.inj heq
    obtain ⟨hmem, hrev⟩ := splitOnce_singleton_eq_some_iff.mp hsplit
    refine ⟨fun h => hmem (List.mem_reverse.mp h), ?_⟩
    have := congrArg List.reverse hrev
    simpa using this
  · rintro ⟨hmem, rfl⟩
    refine ⟨(bs.reverse, as.reverse), splitOnce_singleton_eq_some_iff.mpr ⟨?_, ?_⟩, ?_⟩
    · exact fun h => hmem (List.mem_reverse.mp h)
    · simp
    · simp

theorem rsplitOnce_eq_none_iff {c : Char} {cs : List Char} : rsplitOnce c cs = none ↔ c ∉ cs := by
  rw [rsplitOnce, Option.map_eq_none_iff, splitOnce_singleton_eq_none_iff, List.mem_reverse]

/-- `str::splitn`, for a character. -/
def splitN (c : Char) : ℕ → List Char → List (List Char)
  | 0, _ => []
  | 1, cs => [cs]
  | n + 2, cs =>
    match splitOnce [c] cs with
    | some halves => halves.1 :: splitN c (n + 1) halves.2
    | none => [cs]

theorem splitN_append {c : Char} {as : List Char} (h : c ∉ as) (n : ℕ) (bs : List Char) :
    splitN c (n + 2) (as ++ c :: bs) = as :: splitN c (n + 1) bs := by
  rw [splitN, splitOnce_singleton_eq_some_iff.mpr ⟨h, rfl⟩]

/-- `str::split`, of which at most `fuel` pieces are cut off. -/
def splitStrFuel (pattern : List Char) : ℕ → List Char → List (List Char)
  | 0, cs => [cs]
  | fuel + 1, cs =>
    match splitOnce pattern cs with
    | some (piece, rest) => piece :: splitStrFuel pattern fuel rest
    | none => [cs]

/-- `str::split`, for a pattern that is not empty. -/
def splitStr (pattern cs : List Char) : List (List Char) := splitStrFuel pattern cs.length cs

/-- `str::split_whitespace`. -/
def splitWhitespace (cs : List Char) : List (List Char) :=
  (cs.splitOnP isWhitespace).filter fun piece => !piece.isEmpty

/-- `str::to_lowercase`, of the characters whose lower case is ASCII: the capital letters and the
    Kelvin sign. The others stay as they are here, and none of them becomes ASCII in the source. -/
def toLowercase (cs : List Char) : List Char :=
  cs.map fun c => if c.toNat = 0x212A then 'k' else c.toLower

/-! ## Numbers -/

/-- `char::to_digit`. -/
def toDigit (radix : ℕ) (c : Char) : Option ℕ :=
  let n := c.toNat
  let digit :=
    if 48 ≤ n ∧ n ≤ 57 then some (n - 48)
    else if 97 ≤ n ∧ n ≤ 122 then some (n - 87)
    else if 65 ≤ n ∧ n ≤ 90 then some (n - 55)
    else none
  digit.filter (· < radix)

/-- The digits behind a value, which may not exceed `max`. -/
def parseDigits (radix max : ℕ) : ℕ → List Char → Option ℕ
  | acc, [] => some acc
  | acc, c :: cs =>
    (toDigit radix c).bind fun d =>
      if acc * radix + d ≤ max then parseDigits radix max (acc * radix + d) cs else none

/-- `from_str_radix` of an unsigned type with values up to `max`. -/
def fromStrRadix (radix max : ℕ) : List Char → Option ℕ
  | [] => none
  | ['+'] => none
  | '+' :: cs => parseDigits radix max 0 cs
  | cs => parseDigits radix max 0 cs

/-- `{}` of a number. -/
def decimal (n : ℕ) : List Char := Nat.toDigits 10 n

/-- `{:x}`. -/
def hex (n : ℕ) : List Char := Nat.toDigits 16 n

/-- `{:0width$x}`. -/
def hexPad (width n : ℕ) : List Char := List.replicate (width - (hex n).length) '0' ++ hex n

/-- A file name with an extension and something in front of it (`Path::extension`). -/
def hasExtension (extension name : String) : Bool :=
  ('.' :: extension.toList).isSuffixOf name.toList && extension.length + 1 < name.length

theorem parseDigits_append (radix max acc : ℕ) (as bs : List Char) :
    parseDigits radix max acc (as ++ bs) =
      (parseDigits radix max acc as).bind fun v => parseDigits radix max v bs := by
  induction as generalizing acc with
  | nil => rfl
  | cons a as ih =>
    rw [List.cons_append, parseDigits, parseDigits]
    cases toDigit radix a with
    | none => rfl
    | some d =>
      rw [Option.bind_some, Option.bind_some]
      split
      · exact ih _
      · rfl

theorem toDigit_digitChar : ∀ radix ≤ 16, ∀ d < radix,
    toDigit radix (Nat.digitChar d) = some d := by decide

theorem parseDigits_toDigits {radix max : ℕ} (hradix : 1 < radix) (hle : radix ≤ 16) (n : ℕ)
    (h : n ≤ max) : parseDigits radix max 0 (Nat.toDigits radix n) = some n := by
  induction n using Nat.strongRecOn with
  | ind n ih =>
    by_cases hn : n < radix
    · rw [Nat.toDigits_of_lt_base hn, parseDigits, toDigit_digitChar radix hle n hn,
        Option.bind_some, if_pos (by omega), parseDigits, Nat.zero_mul, Nat.zero_add]
    · have hdiv : n / radix < n := Nat.div_lt_self (by omega) hradix
      have hmod : n % radix < radix := Nat.mod_lt n (by omega)
      rw [Nat.toDigits_of_base_le hradix (Nat.not_lt.mp hn), parseDigits_append,
        ih (n / radix) hdiv (by omega), Option.bind_some, parseDigits,
        toDigit_digitChar radix hle (n % radix) hmod, Option.bind_some, Nat.div_add_mod', if_pos h,
        parseDigits]

/-- The characters of a number. -/
theorem mem_toDigits {radix n : ℕ} {c : Char} (hradix : 1 < radix)
    (h : c ∈ Nat.toDigits radix n) : ∃ d < radix, c = Nat.digitChar d := by
  induction n using Nat.strongRecOn with
  | ind n ih =>
    by_cases hn : n < radix
    · rw [Nat.toDigits_of_lt_base hn, List.mem_singleton] at h
      exact ⟨n, hn, h⟩
    · rw [Nat.toDigits_of_base_le hradix (Nat.not_lt.mp hn), List.mem_append,
        List.mem_singleton] at h
      rcases h with h | h
      · exact ih (n / radix) (Nat.div_lt_self (by omega) hradix) h
      · exact ⟨n % radix, Nat.mod_lt n (by omega), h⟩

theorem digitChar_not_whitespace : ∀ d < 16, isWhitespace (Nat.digitChar d) = false := by decide

theorem fromStrRadix_of_ne_plus {radix max : ℕ} {cs : List Char} (hne : cs ≠ [])
    (hplus : '+' ∉ cs) : fromStrRadix radix max cs = parseDigits radix max 0 cs := by
  unfold fromStrRadix
  split
  · exact absurd rfl hne
  · exact absurd List.mem_cons_self hplus
  · exact absurd List.mem_cons_self hplus
  · rfl

theorem trim_toDigits {radix : ℕ} (hradix : 1 < radix) (hle : radix ≤ 16) (n : ℕ) :
    trim (Nat.toDigits radix n) = Nat.toDigits radix n := by
  refine trim_of_no_whitespace fun c hc => ?_
  obtain ⟨d, hd, rfl⟩ := mem_toDigits hradix hc
  exact digitChar_not_whitespace d (by omega)

/-- What is printed in a radix is parsed back. -/
theorem fromStrRadix_toDigits {radix max n : ℕ} (hradix : 1 < radix) (hle : radix ≤ 16)
    (h : n ≤ max) : fromStrRadix radix max (trim (Nat.toDigits radix n)) = some n := by
  have hplus : '+' ∉ Nat.toDigits radix n := by
    intro hc
    obtain ⟨d, hd, hplus⟩ := mem_toDigits hradix hc
    have hdigit : ∀ d < 16, '+' ≠ Nat.digitChar d := by decide
    exact hdigit d (by omega) hplus
  rw [trim_toDigits hradix hle, fromStrRadix_of_ne_plus Nat.toDigits_ne_nil hplus]
  exact parseDigits_toDigits hradix hle n h

/-- What `{:x}` prints is parsed back. -/
theorem fromStrRadix_hex {max n : ℕ} (h : n ≤ max) :
    fromStrRadix 16 max (trim (hex n)) = some n :=
  fromStrRadix_toDigits (by decide) (by decide) h

/-- What `{}` prints is parsed back. -/
theorem fromStrRadix_decimal {max n : ℕ} (h : n ≤ max) :
    fromStrRadix 10 max (trim (decimal n)) = some n :=
  fromStrRadix_toDigits (by decide) (by decide) h

/-- `{}` of a signed number. -/
def signedDecimal : ℤ → List Char
  | .ofNat n => decimal n
  | .negSucc n => '-' :: decimal (n + 1)

/-- `str::parse` of a signed type with values up to `max`. -/
def parseSigned (max : ℕ) : List Char → Option ℤ
  | ['-'] => none
  | '-' :: cs => (parseDigits 10 (max + 1) 0 cs).map fun n : ℕ => -(n : ℤ)
  | cs => (fromStrRadix 10 max cs).map fun n : ℕ => (n : ℤ)

theorem not_mem_decimal {c : Char} (hc : ∀ d < 10, c ≠ Nat.digitChar d) (n : ℕ) :
    c ∉ decimal n := by
  intro hmem
  obtain ⟨d, hd, heq⟩ := mem_toDigits (by decide) hmem
  exact hc d hd heq

theorem not_mem_signedDecimal {c : Char} (hc : ∀ d < 10, c ≠ Nat.digitChar d) (hminus : c ≠ '-')
    (z : ℤ) : c ∉ signedDecimal z := by
  cases z with
  | ofNat n => exact not_mem_decimal hc n
  | negSucc n => exact List.not_mem_cons_of_ne_of_not_mem hminus (not_mem_decimal hc _)

/-- What `{}` prints of a signed number is parsed back. -/
theorem parseSigned_signedDecimal {max : ℕ} {z : ℤ} (hle : z ≤ max) (hge : -(max + 1) ≤ z) :
    parseSigned max (signedDecimal z) = some z := by
  cases z with
  | ofNat n =>
    have hn : n ≤ max := by
      have : (Int.ofNat n : ℤ) = n := rfl
      omega
    have hminus : ∀ cs, decimal n ≠ '-' :: cs := by
      intro cs heq
      exact not_mem_decimal (by decide) n (heq ▸ List.mem_cons_self)
    have hparse : fromStrRadix 10 max (decimal n) = some n := by
      rw [decimal, fromStrRadix_of_ne_plus Nat.toDigits_ne_nil (not_mem_decimal (by decide) n)]
      exact parseDigits_toDigits (by decide) (by decide) n hn
    show parseSigned max (decimal n) = some (n : ℤ)
    unfold parseSigned
    split
    · rename_i heq
      exact absurd heq (hminus _)
    · rename_i heq
      exact absurd heq (hminus _)
    · rw [hparse]
      rfl
  | negSucc n =>
    have hn : n + 1 ≤ max + 1 := by
      have : Int.negSucc n = -(n + 1 : ℤ) := Int.negSucc_eq n
      omega
    show parseSigned max ('-' :: decimal (n + 1)) = some (Int.negSucc n)
    unfold parseSigned
    split
    · rename_i heq
      exact absurd (List.cons.inj heq).2 Nat.toDigits_ne_nil
    · rename_i heq
      obtain ⟨-, rfl⟩ := List.cons.inj heq
      have hparse : parseDigits 10 (max + 1) 0 (decimal (n + 1)) = some (n + 1) :=
        parseDigits_toDigits (by decide) (by decide) _ hn
      rw [hparse]
      rfl
    · rename_i hne
      exact absurd rfl (hne (decimal (n + 1)))

/-! ## Parsers -/

/-- `Option::ok_or`. -/
def okOr {ε α : Type*} (e : ε) : Option α → Except ε α
  | some a => .ok a
  | none => .error e

/-- A sequence of two fallible steps succeeds when both do. -/
theorem bind_eq_ok {ε : Type*} {α β : Type u} {x : Except ε α} {f : α → Except ε β} {b : β} :
    (x >>= f) = .ok b ↔ ∃ a, x = .ok a ∧ f a = .ok b := by
  cases x <;> simp [bind, Except.bind]

/-- What a loop over inputs collects comes from them. -/
theorem mem_of_mapM_eq_ok {ε : Type*} {α β : Type u} {f : α → Except ε β} {l : List α}
    {bs : List β} (h : l.mapM f = .ok bs) : ∀ b ∈ bs, ∃ a ∈ l, f a = .ok b := by
  induction l generalizing bs with
  | nil =>
    rw [List.mapM_nil] at h
    obtain rfl : [] = bs := Except.ok.inj h
    exact fun b hb => absurd hb List.not_mem_nil
  | cons a l ih =>
    rw [List.mapM_cons, bind_eq_ok] at h
    obtain ⟨b, hb, h⟩ := h
    obtain ⟨bs', hbs', h⟩ := bind_eq_ok.mp h
    obtain rfl : b :: bs' = bs := Except.ok.inj h
    intro x hx
    rcases List.mem_cons.mp hx with rfl | hx
    · exact ⟨a, List.mem_cons_self, hb⟩
    · obtain ⟨a', ha', hfa'⟩ := ih hbs' x hx
      exact ⟨a', List.mem_cons_of_mem a ha', hfa'⟩

/-- A loop of checks succeeds when all of them do. -/
theorem forM_eq_ok {ε : Type*} {α : Type*} {f : α → Except ε PUnit} {l : List α} :
    l.forM f = .ok ⟨⟩ ↔ ∀ a ∈ l, f a = .ok ⟨⟩ := by
  induction l with
  | nil => exact ⟨fun _ a ha => absurd ha List.not_mem_nil, fun _ => rfl⟩
  | cons a l ih =>
    rw [List.forM, bind_eq_ok, List.forall_mem_cons, ← ih]
    constructor
    · rintro ⟨⟨⟩, ha, hl⟩
      exact ⟨ha, hl⟩
    · rintro ⟨ha, hl⟩
      exact ⟨⟨⟩, ha, hl⟩

end OxidizedSystemd.Lib
