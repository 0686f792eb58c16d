import OxidizedSystemd.Lib.StrSlice
import OxidizedSystemd.Udevd.UEvent

/-!
# Rule lines

Models of `parse_rule_line`, `parse_rule_key`, `parse_rule_op` and `parse_rule_value`
(`udevd/src/lib.rs`, lines 883–1032). The scanners index the bytes of a line; a slice that
cuts a character in two is a fault, and so is a loop that does not end.

* `parseRuleKey_attr`, `parseRuleKey_bare`, `not_safe_parseRuleKey`: what is read into a key.
* `parseRuleValue_quoted`, `valueLoop_encode`: what is read into a value.
-/

namespace OxidizedSystemd.Udevd

open Lib

/-- `enum RuleOp` (lines 669–682). -/
inductive RuleOp
  | «match»
  | nomatch
  | assign
  | assignAdd
  | assignRemove
  | assignFinal
  deriving DecidableEq, Repr

/-- `struct RuleToken` (lines 686–695). -/
structure RuleToken where
  key : Text
  attr : Option Text
  op : RuleOp
  value : Text
  deriving DecidableEq, Repr

/-- `Result<T, String>`. -/
abbrev Parsed (α : Type) := Except Text α

/-- The error of a missing `what`, with at most 20 bytes of the text that stands in its place. -/
def expected {α : Type} (what s : Text) : Faulty (Parsed α) := do
  let (got, _) ← splitAtByte s (min (encode s).length 20)
  return .error ("Expected ".toList ++ what ++ ", got: ".toList ++ got)

/-! ## Keys -/

/-- `b as char`. -/
def charOfByte (b : UInt8) : Char := Char.ofNat b.toNat

/-- `c.is_alphanumeric() || c == '_'` for `c = b as char`, a character up to U+00FF. -/
def isKeyByte (b : UInt8) : Bool :=
  (0x30 ≤ b && b ≤ 0x39) || (0x41 ≤ b && b ≤ 0x5A) || (0x61 ≤ b && b ≤ 0x7A) || b == 0x5F ||
  b == 0xAA || b == 0xB5 || b == 0xBA || b == 0xB2 || b == 0xB3 || b == 0xB9 ||
  (0xBC ≤ b && b ≤ 0xBE) || (0xC0 ≤ b && b != 0xD7 && b != 0xF7)

/-- `parse_rule_key` (lines 919–965): the name, the attribute in braces and the rest. -/
def parseRuleKey (s : Text) : Faulty (Parsed (Text × Option Text × Text)) :=
  let bytes := encode s
  let i := (bytes.takeWhile isKeyByte).length
  if bytes[i]? = some 0x7B then do
    let start := i + 1
    let i := i + ((bytes.drop i).takeWhile (· != 0x7D)).length
    if bytes.length ≤ i then
      return .error "Unclosed '\x7b' in key".toList
    let (upToAttr, _) ← splitAtByte s i
    let (_, attr) ← splitAtByte upToAttr start
    let (front, rest) ← splitAtByte s (i + 1)
    let keyEnd := (rfind (· = '{') front).getD (i + 1)
    let (keyName, _) ← splitAtByte s ((find (· = '{') s).getD keyEnd)
    return .ok (keyName, some attr, rest)
  else if i = 0 then
    expected "key name".toList s
  else do
    let (keyName, rest) ← splitAtByte s i
    return .ok (keyName, none, rest)

/-! ## Operators -/

/-- The operator that a text starts with, and the rest (lines 969–980). -/
def stripOp (s : Text) : Option (RuleOp × Text) :=
  ((stripPrefix "==".toList s).map (RuleOp.match, ·)).or <|
  ((stripPrefix "!=".toList s).map (RuleOp.nomatch, ·)).or <|
  ((stripPrefix "+=".toList s).map (RuleOp.assignAdd, ·)).or <|
  ((stripPrefix "-=".toList s).map (RuleOp.assignRemove, ·)).or <|
  ((stripPrefix ":=".toList s).map (RuleOp.assignFinal, ·)).or <|
  (stripPrefix "=".toList s).map (RuleOp.assign, ·)

/-- `parse_rule_op` (lines 968–984). -/
def parseRuleOp (s : Text) : Faulty (Parsed (RuleOp × Text)) :=
  match stripOp s with
  | some found => .ok (.ok found)
  | none => expected "operator".toList s

/-! ## Values -/

/-- `str::trim_start`. -/
def trimStart (s : Text) : Text := s.dropWhile isWhitespace

/-- The loop over the bytes of a quoted value (lines 1001–1027), from the byte at `i` on, with
    the place of the closing quote. -/
def valueLoop : Bytes → ℕ → Text → Text × Option ℕ
  | [], _, value => (value, none)
  | [c], i, value => if c = 0x22 then (value, some i) else (value ++ [charOfByte c], none)
  | c :: next :: bytes, i, value =>
    if c = 0x5C then
      if next = 0x22 ∨ next = 0x5C then
        valueLoop bytes (i + 2) (value ++ [charOfByte next])
      else
        valueLoop bytes (i + 2) (value ++ ['\\', charOfByte next])
    else if c = 0x22 then (value, some i)
    else valueLoop (next :: bytes) (i + 1) (value ++ [charOfByte c])

/-- `parse_rule_value` (lines 987–1032). -/
def parseRuleValue (s : Text) : Faulty (Parsed (Text × Text)) :=
  let s := trimStart s
  if s.head? ≠ some '"' then do
    let stop := (find (fun c => c = ',' || c = '\n') s).getD (encode s).length
    let (val, rest) ← splitAtByte s stop
    return .ok (trim val, rest)
  else
    match valueLoop ((encode s).drop 1) 1 [] with
    | (value, some i) => do
      let (_, rest) ← splitAtByte s (i + 1)
      return .ok (value, rest)
    | (value, none) => return .ok (value, [])

/-! ## Lines -/

/-- The commas and blanks in front of a key (line 889). -/
def skipCommas (s : Text) : Text := s.dropWhile fun c => c = ',' || isWhitespace c

/-- The loop over a line (lines 887–913). -/
def parseRuleLineLoop : ℕ → Text → List RuleToken → Faulty (Parsed (List RuleToken))
  | 0, _, _ => .error .endless
  | fuel + 1, remaining, tokens =>
    if remaining = [] then return .ok tokens
    else if skipCommas remaining = [] then return .ok tokens
    else do
      match ← parseRuleKey (skipCommas remaining) with
      | .error e => return .error e
      | .ok (key, attr, rest) =>
        match ← parseRuleOp (trimStart rest) with
        | .error e => return .error e
        | .ok (op, rest) =>
          match ← parseRuleValue (trimStart rest) with
          | .error e => return .error e
          | .ok (value, rest) =>
            parseRuleLineLoop fuel rest (tokens ++ [⟨key, attr, op, value⟩])

/-- `parse_rule_line` (lines 883–915). Every turn reads a key and an operator, so that the length
    of the line is enough fuel. -/
def parseRuleLine (line : Text) : Faulty (Parsed (List RuleToken)) :=
  parseRuleLineLoop ((trim line).length + 1) (trim line) []

/-! ## What a key is read from -/

/-- All bytes of a character are read as letters, digits or underscores. -/
def isKeyChar (c : Char) : Bool := allBytes isKeyByte c

section Key

variable {key attr rest s : Text} {c : Char}

theorem firstByte_brace : firstByte isKeyByte '{' = false := by decide

/-- The byte behind a key. -/
theorem getElem?_encode_append (key rest : Text) :
    (encode (key ++ rest))[(encode key).length]? = (encode rest).head? := by
  rw [encode_append, List.getElem?_append_right (Nat.le_refl _), Nat.sub_self,
    List.head?_eq_getElem?]

theorem head?_encode_brace (rest : Text) : (encode ('{' :: rest)).head? = some 0x7B := by
  rw [encode_cons, utf8EncodeChar_ascii (by decide)]
  rfl

/-- Behind a brace the scan goes on to the closing one. -/
theorem takeWhile_attr (rest : Text) (hattr : '}' ∉ attr) (hrest : ∀ c ∈ rest.head?, c = '}') :
    (encode ('{' :: (attr ++ rest))).takeWhile (· != 0x7D) = encode ('{' :: attr) := by
  have hscan := takeWhile_encode_ascii (a := '}') (by decide)
    ('{' :: attr) rest (by simpa using hattr) hrest
  exact hscan

theorem splitAtByte_front (as bs : Text) {n : ℕ} (hn : n = (encode as).length) :
    splitAtByte (as ++ bs) n = .ok (as, bs) := by
  rw [hn, splitAtByte_append]

/-- A name with an attribute in braces. -/
theorem parseRuleKey_attr (hkey : ∀ c ∈ key, isKeyChar c = true) (hattr : '}' ∉ attr)
    (rest : Text) :
    parseRuleKey (key ++ ('{' :: (attr ++ '}' :: rest))) = .ok (.ok (key, some attr, rest)) := by
  have hname : '{' ∉ key := by
    intro hmem
    have := hkey _ hmem
    revert this
    decide
  have hscan := takeWhile_encode_append (p := isKeyByte) key
    ('{' :: (attr ++ '}' :: rest)) hkey (by simpa using firstByte_brace)
  have hdrop : (encode (key ++ ('{' :: (attr ++ '}' :: rest)))).drop (encode key).length =
      encode ('{' :: (attr ++ '}' :: rest)) := by
    rw [encode_append, List.drop_left]
  have hfind : find (· = '{') (key ++ ('{' :: (attr ++ '}' :: rest))) =
      some (encode key).length := by
    rw [find, if_pos (by simp), List.takeWhile_append_of_pos]
    · simp
    · intro c hc
      simpa using fun h : c = '{' => hname (h ▸ hc)
  have hbrace : '{'.utf8Size = 1 := rfl
  have hclose : '}'.utf8Size = 1 := rfl
  unfold parseRuleKey
  dsimp only
  rw [hscan, getElem?_encode_append, head?_encode_brace, if_pos rfl, hdrop,
    takeWhile_attr _ hattr (by simp), if_neg, hfind]
  · rw [show key ++ ('{' :: (attr ++ '}' :: rest)) = (key ++ ['{'] ++ attr) ++ '}' :: rest by simp,
      splitAtByte_front _ _ (by simp), ok_bind]
    dsimp only
    rw [splitAtByte_front (key ++ ['{']) attr (by simp [hbrace]), ok_bind]
    dsimp only
    rw [show (key ++ ['{'] ++ attr) ++ '}' :: rest =
        (key ++ ['{'] ++ attr ++ ['}']) ++ rest by simp,
      splitAtByte_front _ _ (by simp; omega), ok_bind]
    dsimp only
    rw [show (key ++ ['{'] ++ attr ++ ['}']) ++ rest = key ++ (['{'] ++ attr ++ ['}'] ++ rest) by
      simp, Option.getD_some, splitAtByte_append]
    rfl
  · simp only [encode_append, encode_cons, List.length_append, String.length_utf8EncodeChar]
    omega

/-- Braces that are not closed. -/
theorem parseRuleKey_unclosed (hkey : ∀ c ∈ key, isKeyChar c = true) (hattr : '}' ∉ attr) :
    ∃ e, parseRuleKey (key ++ ('{' :: attr)) = .ok (.error e) := by
  have hscan := takeWhile_encode_append (p := isKeyByte) key ('{' :: attr) hkey
    (by simpa using firstByte_brace)
  have hdrop : (encode (key ++ ('{' :: attr))).drop (encode key).length = encode ('{' :: attr) := by
    rw [encode_append, List.drop_left]
  have hstop := takeWhile_attr [] hattr (by simp)
  rw [List.append_nil] at hstop
  unfold parseRuleKey
  dsimp only
  rw [hscan, getElem?_encode_append, head?_encode_brace, if_pos rfl, hdrop, hstop,
    if_pos (by simp)]
  exact ⟨_, rfl⟩

/-- A character that is neither read into a key nor opens an attribute. -/
def EndsKey (c : Char) : Prop := firstByte isKeyByte c = false ∧ c ≠ '{'

theorem head?_encode_ne_brace (hrest : ∀ c ∈ rest.head?, c ≠ '{') :
    (encode rest).head? ≠ some 0x7B := by
  cases rest with
  | nil => simp
  | cons c rest =>
    intro h
    obtain ⟨b, bs, hb⟩ := utf8EncodeChar_cons c
    rw [encode_cons, hb, List.cons_append, List.head?_cons] at h
    have hmem : UInt8.ofNat '{'.toNat ∈ String.utf8EncodeChar c := by
      rw [hb, Option.some.inj h]
      exact List.mem_cons_self
    exact hrest c rfl ((mem_utf8EncodeChar_iff (by decide)).mp hmem)

/-- A name without an attribute. -/
theorem parseRuleKey_bare (hkey : ∀ c ∈ key, isKeyChar c = true) (hne : key ≠ [])
    (hrest : ∀ c ∈ rest.head?, EndsKey c) :
    parseRuleKey (key ++ rest) = .ok (.ok (key, none, rest)) := by
  have hscan := takeWhile_encode_append (p := isKeyByte) key rest hkey fun c hc =>
    (hrest c hc).1
  have hlen : (encode key).length ≠ 0 := by
    rw [Ne, List.length_eq_zero_iff, encode_eq_nil_iff]
    exact hne
  unfold parseRuleKey
  dsimp only
  rw [hscan, getElem?_encode_append, if_neg (head?_encode_ne_brace fun c hc => (hrest c hc).2),
    if_neg hlen, splitAtByte_append]
  rfl

/-- No name at all. -/
theorem parseRuleKey_missing (hrest : ∀ c ∈ rest.head?, EndsKey c) :
    parseRuleKey rest = expected "key name".toList rest := by
  have hscan := takeWhile_encode_append (p := isKeyByte) [] rest (by simp)
    fun c hc => (hrest c hc).1
  rw [List.nil_append, encode_nil] at hscan
  have hhead := head?_encode_ne_brace fun c hc => (hrest c hc).2
  rw [List.head?_eq_getElem?] at hhead
  unfold parseRuleKey
  dsimp only
  rw [hscan, List.length_nil, if_neg hhead, if_pos rfl]

/-- A character of which the first bytes only are read into the key. -/
theorem not_safe_parseRuleKey (hkey : ∀ c ∈ key, isKeyChar c = true)
    (hfirst : firstByte isKeyByte c = true) (hall : isKeyChar c = false) (rest : Text) :
    ¬ Safe (parseRuleKey (key ++ c :: rest)) := by
  obtain ⟨hlow, hhigh⟩ := length_takeWhile_encode key rest hkey hfirst hall
  have hbrace : c ≠ '{' := by
    rintro rfl
    rw [firstByte_brace] at hfirst
    cases hfirst
  have hbyte : (encode (key ++ c :: rest))[((encode (key ++ c :: rest)).takeWhile
      isKeyByte).length]? ≠ some 0x7B := by
    rw [encode_append, encode_cons] at hlow hhigh ⊢
    rw [List.getElem?_append_right (Nat.le_of_lt hlow), List.getElem?_append_left (by simp; omega)]
    intro h
    exact hbrace ((mem_utf8EncodeChar_iff (a := '{') (by decide)).mp (List.mem_of_getElem? h))
  unfold parseRuleKey
  dsimp only
  rw [if_neg hbyte, if_neg (by omega)]
  exact not_safe_bind _ (not_safe_splitAtByte hlow hhigh)

end Key

/-! ## What an operator and a value are read from -/

/-- The characters that the bytes of a character are read as. -/
def latin1 (c : Char) : Text := (String.utf8EncodeChar c).map charOfByte

/-- The value behind an opening quote, and the text behind the closing one. -/
def quoted : Text → Text × Text
  | [] => ([], [])
  | c :: cs =>
    if c = '"' then ([], cs)
    else if c = '\\' then
      match cs with
      | [] => (['\\'], [])
      | d :: cs =>
        ((if d = '"' ∨ d = '\\' then [d] else '\\' :: latin1 d) ++ (quoted cs).1, (quoted cs).2)
    else (latin1 c ++ (quoted cs).1, (quoted cs).2)

/-- The text behind a value. -/
def afterValue (s : Text) : Text :=
  if s.head? = some '"' then (quoted s.tail).2
  else s.dropWhile fun c => !(c = ',' || c = '\n')

section Value

variable {s rest : Text} {op : RuleOp} {c : Char}

theorem stripOp_length (h : stripOp s = some (op, rest)) : rest.length < s.length := by
  have hprefix : ∃ text : Text, text ≠ [] ∧ s = text ++ rest := by
    simp only [stripOp, Option.or_eq_some_iff, Option.map_eq_some_iff,
      stripPrefix_eq_some_iff, Prod.mk.injEq] at h
    rcases h with ⟨_, h, -, rfl⟩ | ⟨-, h⟩
    · exact ⟨_, by decide, h⟩
    rcases h with ⟨_, h, -, rfl⟩ | ⟨-, h⟩
    · exact ⟨_, by decide, h⟩
    rcases h with ⟨_, h, -, rfl⟩ | ⟨-, h⟩
    · exact ⟨_, by decide, h⟩
    rcases h with ⟨_, h, -, rfl⟩ | ⟨-, h⟩
    · exact ⟨_, by decide, h⟩
    rcases h with ⟨_, h, -, rfl⟩ | ⟨-, _, h, -, rfl⟩
    · exact ⟨_, by decide, h⟩
    · exact ⟨_, by decide, h⟩
  obtain ⟨text, hne, rfl⟩ := hprefix
  have := List.length_pos_of_ne_nil hne
  rw [List.length_append]
  omega

theorem quoted_close (cs : Text) : quoted ('"' :: cs) = ([], cs) := by
  rw [quoted.eq_def]
  dsimp only
  rw [if_pos rfl]

theorem quoted_escape (d : Char) (cs : Text) : quoted ('\\' :: d :: cs) =
    ((if d = '"' ∨ d = '\\' then [d] else '\\' :: latin1 d) ++ (quoted cs).1, (quoted cs).2) :=
  rfl

theorem quoted_plain (hquote : c ≠ '"') (hslash : c ≠ '\\') (cs : Text) :
    quoted (c :: cs) = (latin1 c ++ (quoted cs).1, (quoted cs).2) := by
  rw [quoted.eq_def]
  dsimp only
  rw [if_neg hquote, if_neg hslash]

theorem valueLoop_quote (bytes : Bytes) (i : ℕ) (value : Text) :
    valueLoop (0x22 :: bytes) i value = (value, some i) := by
  cases bytes with
  | nil => rfl
  | cons next bytes => rfl

theorem valueLoop_cons {b : UInt8} (hquote : b ≠ 0x22) (hslash : b ≠ 0x5C) (bytes : Bytes) (i : ℕ)
    (value : Text) :
    valueLoop (b :: bytes) i value = valueLoop bytes (i + 1) (value ++ [charOfByte b]) := by
  cases bytes with
  | nil => exact if_neg hquote
  | cons next bytes => exact (if_neg hslash).trans (if_neg hquote)

theorem valueLoop_plain {bs : Bytes} (h : ∀ b ∈ bs, b ≠ 0x22 ∧ b ≠ 0x5C) (bytes : Bytes) (i : ℕ)
    (value : Text) : valueLoop (bs ++ bytes) i value =
      valueLoop bytes (i + bs.length) (value ++ bs.map charOfByte) := by
  induction bs generalizing i value with
  | nil => simp
  | cons b bs ih =>
    obtain ⟨hquote, hslash⟩ := h b List.mem_cons_self
    have hrest := ih fun b hb => h b (List.mem_cons_of_mem _ hb)
    rw [List.cons_append, valueLoop_cons hquote hslash, hrest]
    simp [Nat.add_comm, Nat.add_left_comm]

/-- The bytes of a character other than a quote and a backslash. -/
theorem ne_of_mem_utf8EncodeChar (hquote : c ≠ '"') (hslash : c ≠ '\\') :
    ∀ b ∈ String.utf8EncodeChar c, b ≠ 0x22 ∧ b ≠ 0x5C := by
  intro b hb
  constructor
  · rintro rfl
    exact hquote ((mem_utf8EncodeChar_iff (a := '"') (by decide)).mp hb)
  · rintro rfl
    exact hslash ((mem_utf8EncodeChar_iff (a := '\\') (by decide)).mp hb)

theorem valueLoop_char (hquote : c ≠ '"') (hslash : c ≠ '\\') (bytes : Bytes) (i : ℕ)
    (value : Text) : valueLoop (String.utf8EncodeChar c ++ bytes) i value =
      valueLoop bytes (i + c.utf8Size) (value ++ latin1 c) := by
  rw [valueLoop_plain (ne_of_mem_utf8EncodeChar hquote hslash), String.length_utf8EncodeChar,
    latin1]

/-- Behind a backslash the loop takes one byte of the next character, and reads the others as they
    are. -/
theorem valueLoop_escape (d : Char) (bytes : Bytes) (i : ℕ) (value : Text) :
    valueLoop (0x5C :: (String.utf8EncodeChar d ++ bytes)) i value =
      valueLoop bytes (i + 1 + d.utf8Size)
        (value ++ if d = '"' ∨ d = '\\' then [d] else '\\' :: latin1 d) := by
  by_cases hspecial : d = '"' ∨ d = '\\'
  · rw [if_pos hspecial]
    rcases hspecial with rfl | rfl <;> rfl
  · rw [if_neg hspecial]
    push Not at hspecial
    have hbytes := ne_of_mem_utf8EncodeChar hspecial.1 hspecial.2
    have hsize := String.length_utf8EncodeChar d
    rw [latin1]
    obtain ⟨b, bs, hb⟩ := utf8EncodeChar_cons d
    rw [hb] at hbytes hsize ⊢
    obtain ⟨hquote, hslash⟩ := hbytes b List.mem_cons_self
    rw [List.cons_append, valueLoop, if_pos rfl, if_neg (by simp [hquote, hslash]),
      valueLoop_plain fun b hb => hbytes b (List.mem_cons_of_mem _ hb), List.map_cons, ← hsize,
      List.length_cons, List.append_assoc]
    congr 1
    omega

/-- The loop over the bytes reads the characters up to a quote that is not escaped. -/
theorem valueLoop_encode (s : Text) (i : ℕ) (value : Text) :
    (∃ body, s = body ++ '"' :: (quoted s).2 ∧ valueLoop (encode s) i value =
      (value ++ (quoted s).1, some (i + (encode body).length))) ∨
    ((quoted s).2 = [] ∧ valueLoop (encode s) i value = (value ++ (quoted s).1, none)) := by
  induction s using quoted.induct generalizing i value with
  | case1 => exact Or.inr ⟨rfl, congrArg (·, none) (List.append_nil value).symm⟩
  | case2 cs =>
    left
    refine ⟨[], by rw [quoted_close]; rfl, ?_⟩
    rw [quoted_close, encode_cons, utf8EncodeChar_ascii (by decide), List.singleton_append,
      List.append_nil]
    exact valueLoop_quote _ _ _
  | case3 => exact Or.inr ⟨rfl, rfl⟩
  | case4 d cs _ ih =>
    have hstep := valueLoop_escape d (encode cs) i value
    rw [quoted_escape, encode_cons, utf8EncodeChar_ascii (by decide), List.singleton_append,
      encode_cons]
    rcases ih (i + 1 + d.utf8Size)
      (value ++ if d = '"' ∨ d = '\\' then [d] else '\\' :: latin1 d) with
      ⟨body, hbody, hloop⟩ | ⟨hnil, hloop⟩
    · left
      refine ⟨'\\' :: d :: body, congrArg (fun cs => '\\' :: d :: cs) hbody, ?_⟩
      have hsize : '\\'.utf8Size = 1 := rfl
      refine (hstep.trans hloop).trans ?_
      simp [hsize, Nat.add_assoc]
    · right
      exact ⟨hnil, (hstep.trans hloop).trans (by rw [List.append_assoc])⟩
  | case5 c cs hquote hslash ih =>
    have hstep := valueLoop_char hquote hslash (encode cs) i value
    rw [quoted_plain hquote hslash, encode_cons]
    rcases ih (i + c.utf8Size) (value ++ latin1 c) with ⟨body, hbody, hloop⟩ | ⟨hnil, hloop⟩
    · left
      refine ⟨c :: body, congrArg (c :: ·) hbody, (hstep.trans hloop).trans ?_⟩
      simp [Nat.add_assoc]
    · right
      exact ⟨hnil, (hstep.trans hloop).trans (by rw [List.append_assoc])⟩

theorem quoted_length (s : Text) : (quoted s).2.length ≤ s.length := by
  rcases valueLoop_encode s 0 [] with ⟨body, hbody, -⟩ | ⟨hnil, -⟩
  · have := congrArg List.length hbody
    rw [List.length_append, List.length_cons] at this
    omega
  · rw [hnil]
    exact Nat.zero_le _

theorem afterValue_length (s : Text) : (afterValue s).length ≤ s.length := by
  unfold afterValue
  split
  · have := quoted_length s.tail
    rw [List.length_tail] at this
    omega
  · exact (List.dropWhile_sublist _).length_le

theorem trimStart_of_ne {c : Char} (h : isWhitespace c = false) (cs : Text) :
    trimStart (c :: cs) = c :: cs := by
  rw [trimStart, List.dropWhile_cons, h]
  rfl

theorem parseRuleValue_quoted (cs : Text) :
    parseRuleValue ('"' :: cs) = .ok (.ok (quoted cs)) := by
  unfold parseRuleValue
  dsimp only
  rw [trimStart_of_ne (by decide), if_neg (by simp), encode_cons, utf8EncodeChar_ascii (by decide),
    List.singleton_append, List.drop_one, List.tail_cons]
  rcases valueLoop_encode cs 1 [] with ⟨body, hbody, hloop⟩ | ⟨hnil, hloop⟩
  · have hsize : '"'.utf8Size = 1 := rfl
    have hcut := splitAtByte_front ('"' :: body ++ ['"']) (quoted cs).2
      (n := 1 + (encode body).length + 1) (by simp [hsize]; omega)
    rw [show '"' :: body ++ ['"'] ++ (quoted cs).2 = '"' :: cs by simp [← hbody]] at hcut
    rw [hloop]
    dsimp only
    rw [hcut]
    rfl
  · rw [hloop, List.nil_append]
    show Except.ok (Except.ok ((quoted cs).1, [])) = _
    rw [← hnil]

theorem parseRuleValue_unquoted {s : Text} (h : (trimStart s).head? ≠ some '"') :
    ∃ value, parseRuleValue s =
      .ok (.ok (value, (trimStart s).dropWhile fun c => !(c = ',' || c = '\n'))) := by
  unfold parseRuleValue
  dsimp only
  rw [if_pos h]
  generalize trimStart s = s
  have hstop : (find (fun c => c = ',' || c = '\n') s).getD (encode s).length =
      (encode (s.takeWhile fun c => !(c = ',' || c = '\n'))).length := by
    unfold find
    split
    · rfl
    · rename_i hany
      rw [List.takeWhile_eq_self_iff.mpr]
      · rfl
      · intro c hc
        simp only [Bool.not_eq_true, List.any_eq_false] at hany
        simpa using hany c hc
  have hcut := splitAtByte_append (s.takeWhile fun c => !(c = ',' || c = '\n'))
    (s.dropWhile fun c => !(c = ',' || c = '\n'))
  rw [List.takeWhile_append_dropWhile] at hcut
  rw [hstop, hcut]
  exact ⟨_, rfl⟩

theorem trimStart_trimStart (s : Text) : trimStart (trimStart s) = trimStart s := by
  apply dropWhile_eq_self_iff_head?.mpr
  intro c hc
  have := List.head?_dropWhile_not isWhitespace s
  rw [Option.mem_def, trimStart] at hc
  simpa [hc] using this

/-- A value is cut between characters. -/
theorem parseRuleValue_eq (s : Text) :
    ∃ value, parseRuleValue (trimStart s) = .ok (.ok (value, afterValue (trimStart s))) := by
  unfold afterValue
  split
  · rename_i hquote
    obtain ⟨cs, hcs⟩ : ∃ cs, trimStart s = '"' :: cs := by
      cases hs : trimStart s with
      | nil =>
        rw [hs] at hquote
        cases hquote
      | cons c cs =>
        rw [hs] at hquote
        exact ⟨cs, by rw [Option.some.inj hquote]⟩
    rw [hcs, parseRuleValue_quoted]
    exact ⟨_, rfl⟩
  · rename_i hquote
    have hvalue := parseRuleValue_unquoted (s := trimStart s) (by rwa [trimStart_trimStart])
    rwa [trimStart_trimStart] at hvalue

end Value

end OxidizedSystemd.Udevd
