import OxidizedSystemd.Udevd.RuleLine

/-!
# Parsing rule lines

What `parse_rule_line` (`udevd/src/lib.rs`, lines 883–916) does to any line, and to one that is
printed from tokens.

* `safe_parseRuleLine_iff`: a line is parsed without a fault exactly if each key is read up to
  the end of a character, and so is the text that an error message quotes.
* `parse_print_iff`: printed tokens are read back exactly if their keys are read whole and
  their values are ASCII.
* `parseRuleLine_iff`: both.
-/

namespace OxidizedSystemd.Udevd

open Lib

/-! ## Safety of a line -/

/-- The text behind a key, if there is a key and its braces are closed. -/
def afterKey (s : Text) : Option Text :=
  let rest := s.dropWhile isKeyChar
  if rest.head? = some '{' then
    if rest.contains '}' then some (rest.dropWhile (· != '}')).tail else none
  else if rest.length = s.length then none
  else some rest

/-- The text behind an item of a line: a key, an operator and a value. -/
def afterItem (s : Text) : Option Text :=
  (afterKey s).bind fun rest =>
    (stripOp (trimStart rest)).map fun found => afterValue (trimStart found.2)

/-- The texts of a line in front of which a key is read. -/
inductive KeyAt : Text → Text → Prop
  | first (text : Text) : KeyAt text (skipCommas text)
  | next {text rest s : Text} (hitem : afterItem (skipCommas text) = some rest)
      (hrest : KeyAt rest s) : KeyAt text s

/-- The first 20 bytes of a text, or all of fewer, are whole characters. -/
def QuotedWhole (s : Text) : Prop :=
  ∃ as bs, s = as ++ bs ∧ (encode as).length = min (encode s).length 20

/-- The key in front of a text is read up to the end of a character, and so is what the error of a
    missing key or operator quotes. -/
structure CutBetween (s : Text) : Prop where
  key : ∀ c ∈ (s.dropWhile isKeyChar).head?, firstByte isKeyByte c = false
  missingKey : (∀ c ∈ s.head?, EndsKey c) → QuotedWhole s
  missingOp : ∀ rest ∈ afterKey s, stripOp (trimStart rest) = none → QuotedWhole (trimStart rest)

/-- A key that the parser reads: it is not missing, and its attribute ends at its brace. -/
structure ReadableKey (key : Text) (attr : Option Text) : Prop where
  name : ∀ c ∈ key, isKeyChar c = true
  present : key ≠ [] ∨ attr ≠ none
  closed : ∀ a ∈ attr, '}' ∉ a

section Line

variable {s rest text key : Text} {attr : Option Text}

/-- An error is returned exactly if its quote is cut between characters. -/
theorem safe_expected_bind {α β : Type} {what s : Text} {k : Parsed α → Faulty β}
    (hk : ∀ e, Safe (k (.error e))) : Safe (expected what s >>= k) ↔ QuotedWhole s := by
  unfold expected QuotedWhole
  cases hsplit : splitAtByte s (min (encode s).length 20) with
  | error f =>
    apply iff_of_false
    · exact not_safe_error f
    · rintro ⟨as, bs, hs, hlen⟩
      rw [splitAtByte_eq_ok_iff.mpr ⟨hs, hlen.symm⟩] at hsplit
      cases hsplit
  | ok parts =>
    obtain ⟨as, bs⟩ := parts
    obtain ⟨hs, hlen⟩ := splitAtByte_eq_ok_iff.mp hsplit
    exact iff_of_true (hk _) ⟨as, bs, hs, hlen.symm⟩

theorem firstByte_of_isKeyChar {c : Char} (h : isKeyChar c = true) :
    firstByte isKeyByte c = true := by
  obtain ⟨b, bs, hb⟩ := utf8EncodeChar_cons c
  rw [isKeyChar, allBytes, hb, List.all_cons, Bool.and_eq_true] at h
  rw [firstByte, hb]
  exact h.1

theorem not_forall_endsKey (hkey : ∀ c ∈ key, isKeyChar c = true)
    (h : key ≠ [] ∨ rest.head? = some '{') : ¬ ∀ c ∈ (key ++ rest).head?, EndsKey c := by
  intro hall
  cases key with
  | nil =>
    rcases h with h | h
    · exact h rfl
    · exact (hall '{' h).2 rfl
  | cons c key =>
    have hfirst := firstByte_of_isKeyChar (hkey c List.mem_cons_self)
    rw [(hall c rfl).1] at hfirst
    cases hfirst

theorem afterKey_append (hkey : ∀ c ∈ key, isKeyChar c = true)
    (hrest : ∀ c ∈ rest.head?, firstByte isKeyByte c = false) :
    afterKey (key ++ rest) =
      if rest.head? = some '{' then
        if rest.contains '}' then some (rest.dropWhile (· != '}')).tail else none
      else if key = [] then none
      else some rest := by
  have hstop : ∀ c ∈ rest.head?, isKeyChar c = false := by
    intro c hc
    by_contra hkeyChar
    have hfirst := firstByte_of_isKeyChar (by simpa using hkeyChar)
    rw [hrest c hc] at hfirst
    cases hfirst
  have hdrop : (key ++ rest).dropWhile isKeyChar = rest := by
    rw [List.dropWhile_append_of_pos hkey]
    exact dropWhile_eq_self_iff_head?.mpr hstop
  have hlen : rest.length = (key ++ rest).length ↔ key = [] := by
    rw [List.length_append, ← List.length_eq_zero_iff]
    omega
  unfold afterKey
  dsimp only
  rw [hdrop]
  simp only [hlen]

/-- What the parser of a key does where it cuts between characters. -/
theorem parseRuleKey_cases
    (h : ∀ c ∈ (s.dropWhile isKeyChar).head?, firstByte isKeyByte c = false) :
    (∃ key attr rest, parseRuleKey s = .ok (.ok (key, attr, rest)) ∧ afterKey s = some rest ∧
      ReadableKey key attr ∧ rest.length ≤ s.length ∧ ¬ ∀ c ∈ s.head?, EndsKey c) ∨
    (∃ e, parseRuleKey s = .ok (.error e) ∧ afterKey s = none ∧ ¬ ∀ c ∈ s.head?, EndsKey c) ∨
    (parseRuleKey s = expected "key name".toList s ∧ afterKey s = none ∧
      ∀ c ∈ s.head?, EndsKey c) := by
  have hkey : ∀ c ∈ s.takeWhile isKeyChar, isKeyChar c = true := fun c => List.mem_takeWhile_imp
  rw [← List.takeWhile_append_dropWhile (p := isKeyChar) (l := s)]
  have hafter := afterKey_append hkey h
  generalize s.takeWhile isKeyChar = key at hkey hafter
  generalize s.dropWhile isKeyChar = rest at h hafter
  rw [hafter]
  by_cases hbrace : rest.head? = some '{'
  · obtain ⟨r, rfl⟩ : ∃ r, rest = '{' :: r := by
      cases rest with
      | nil => cases hbrace
      | cons c r => exact ⟨r, by rw [Option.some.inj hbrace]⟩
    have hhead := not_forall_endsKey hkey (Or.inr hbrace)
    rw [if_pos hbrace]
    by_cases hclose : '}' ∈ r
    · obtain ⟨attr, tail, rfl, hattr⟩ := List.eq_append_cons_of_mem hclose
      have hopen : ∀ c ∈ '{' :: attr, (c != '}') = true := by
        intro c hc
        rw [bne_iff_ne]
        rintro rfl
        simp [hattr] at hc
      have hdrop : ('{' :: (attr ++ '}' :: tail)).dropWhile (· != '}') = '}' :: tail := by
        rw [← List.cons_append, List.dropWhile_append_of_pos hopen]
        rfl
      rw [if_pos (by simp), hdrop]
      refine Or.inl ⟨key, some attr, tail, parseRuleKey_attr hkey hattr tail, rfl,
        ⟨hkey, Or.inr (by simp), ?_⟩, ?_, hhead⟩
      · intro a ha
        rw [← Option.some.inj ha]
        exact hattr
      · simp
        omega
    · obtain ⟨e, he⟩ := parseRuleKey_unclosed hkey hclose
      rw [if_neg (by simpa using hclose)]
      exact Or.inr (Or.inl ⟨e, he, rfl, hhead⟩)
  · have hends : ∀ c ∈ rest.head?, EndsKey c := by
      intro c hc
      refine ⟨h c hc, ?_⟩
      rintro rfl
      exact hbrace hc
    rw [if_neg hbrace]
    by_cases hname : key = []
    · subst hname
      rw [if_pos rfl, List.nil_append]
      exact Or.inr (Or.inr ⟨parseRuleKey_missing hends, rfl, hends⟩)
    · rw [if_neg hname]
      refine Or.inl ⟨key, none, rest, parseRuleKey_bare hkey hname hends, rfl,
        ⟨hkey, Or.inl hname, by simp⟩, ?_, not_forall_endsKey hkey (Or.inl hname)⟩
      rw [List.length_append]
      omega

theorem not_safe_parseRuleKey_of_cut
    (h : ¬ ∀ c ∈ (s.dropWhile isKeyChar).head?, firstByte isKeyByte c = false) :
    ¬ Safe (parseRuleKey s) := by
  have hkey : ∀ c ∈ s.takeWhile isKeyChar, isKeyChar c = true := fun c => List.mem_takeWhile_imp
  have hstop := List.head?_dropWhile_not isKeyChar s
  rw [← List.takeWhile_append_dropWhile (p := isKeyChar) (l := s)]
  cases hrest : s.dropWhile isKeyChar with
  | nil =>
    rw [hrest] at h
    exact absurd (by simp) h
  | cons c rest =>
    rw [hrest] at h hstop
    refine not_safe_parseRuleKey hkey ?_ (by simpa using hstop) rest
    by_contra hfirst
    exact h (by simpa using hfirst)

theorem cutBetween_nil : CutBetween [] := by
  refine ⟨by simp, fun _ => ⟨[], [], rfl, rfl⟩, ?_⟩
  intro rest hrest
  cases hrest

theorem keyAt_forall_iff {P : Text → Prop} :
    (∀ s, KeyAt text s → P s) ↔ P (skipCommas text) ∧
      ∀ rest, afterItem (skipCommas text) = some rest → ∀ s, KeyAt rest s → P s := by
  constructor
  · intro h
    exact ⟨h _ (KeyAt.first text), fun rest hitem s hrest => h s (KeyAt.next hitem hrest)⟩
  · rintro ⟨hfirst, hnext⟩ s hs
    cases hs with
    | first => exact hfirst
    | next hitem hrest => exact hnext _ hitem s hrest

theorem length_skipCommas (text : Text) : (skipCommas text).length ≤ text.length :=
  (List.dropWhile_sublist _).length_le

theorem length_trimStart (text : Text) : (trimStart text).length ≤ text.length :=
  (List.dropWhile_sublist _).length_le

/-- The loop is safe exactly if every key is read up to the end of a character. -/
theorem safe_parseRuleLineLoop_iff {fuel : ℕ} (hfuel : text.length < fuel)
    (tokens : List RuleToken) :
    Safe (parseRuleLineLoop fuel text tokens) ↔ ∀ s, KeyAt text s → CutBetween s := by
  induction fuel generalizing text tokens with
  | zero => omega
  | succ fuel ih =>
    rw [keyAt_forall_iff]
    have hskip := length_skipCommas text
    unfold parseRuleLineLoop
    by_cases hend : skipCommas text = []
    · have hstop : afterItem [] = none := rfl
      rw [hend, hstop]
      apply iff_of_true
      · split_ifs <;> exact safe_pure _
      · exact ⟨cutBetween_nil, fun rest hrest => by cases hrest⟩
    · have hne : text ≠ [] := by
        rintro rfl
        exact hend rfl
      rw [if_neg hne, if_neg hend]
      generalize skipCommas text = s at hskip hend
      by_cases hcut : ∀ c ∈ (s.dropWhile isKeyChar).head?, firstByte isKeyByte c = false
      · rcases parseRuleKey_cases hcut with ⟨key, attr, rest, hparse, hafter, -, hlen, hhead⟩ |
          ⟨e, hparse, hafter, hhead⟩ | ⟨hparse, hafter, hhead⟩
        · rw [hparse, ok_bind]
          dsimp only
          unfold parseRuleOp
          have hop := length_trimStart rest
          cases hstrip : stripOp (trimStart rest) with
          | none =>
            refine Iff.trans (safe_expected_bind fun e => ?_) ?_
            · exact safe_pure _
            constructor
            · intro hquoted
              refine ⟨⟨hcut, fun h => absurd h hhead, ?_⟩, ?_⟩
              · intro r hr _
                rw [hafter] at hr
                rwa [← Option.some.inj hr]
              · simp [afterItem, hafter, hstrip]
            · intro h
              exact h.1.missingOp rest hafter hstrip
          | some found =>
            obtain ⟨op, r⟩ := found
            have hlt := stripOp_length hstrip
            have hvalue := length_trimStart r
            have hle := afterValue_length (trimStart r)
            obtain ⟨value, hread⟩ := parseRuleValue_eq r
            have hitem : afterItem s = some (afterValue (trimStart r)) := by
              simp [afterItem, hafter, hstrip]
            simp only [ok_bind, hread]
            rw [ih (by omega), hitem]
            constructor
            · intro h
              refine ⟨⟨hcut, fun h => absurd h hhead, ?_⟩, ?_⟩
              · intro r' hr' hnone
                rw [hafter] at hr'
                rw [← Option.some.inj hr', hstrip] at hnone
                cases hnone
              · intro r' hr'
                rwa [← Option.some.inj hr']
            · intro h
              exact h.2 _ rfl
        · rw [hparse]
          apply iff_of_true (safe_pure _)
          refine ⟨⟨hcut, fun h => absurd h hhead, ?_⟩, ?_⟩
          · simp [hafter]
          · simp [afterItem, hafter]
        · rw [hparse]
          refine Iff.trans (safe_expected_bind fun e => ?_) ?_
          · exact safe_pure _
          constructor
          · intro hquoted
            refine ⟨⟨hcut, fun _ => hquoted, ?_⟩, ?_⟩
            · simp [hafter]
            · simp [afterItem, hafter]
          · intro h
            exact h.1.missingKey hhead
      · apply iff_of_false
        · exact not_safe_bind _ (not_safe_parseRuleKey_of_cut hcut)
        · intro h
          exact hcut h.1.key

theorem safe_parseRuleLine_iff (line : Text) :
    Safe (parseRuleLine line) ↔ ∀ s, KeyAt (trim line) s → CutBetween s :=
  safe_parseRuleLineLoop_iff (Nat.lt_succ_self _) []

end Line

/-! ## Printed tokens -/

/-- How an operator is written. -/
def RuleOp.text : RuleOp → Text
  | .match => "==".toList
  | .nomatch => "!=".toList
  | .assign => "=".toList
  | .assignAdd => "+=".toList
  | .assignRemove => "-=".toList
  | .assignFinal => ":=".toList

/-- A value with its quotes and backslashes escaped. -/
def escape (value : Text) : Text :=
  value.flatMap fun c => if c = '"' ∨ c = '\\' then ['\\', c] else [c]

def printAttr : Option Text → Text
  | none => []
  | some attr => '{' :: attr ++ ['}']

/-- A token as `KEY{attr}op"value"`. -/
def printToken (token : RuleToken) : Text :=
  token.key ++ (printAttr token.attr ++ (token.op.text ++ '"' :: (escape token.value ++ ['"'])))

def printLine (tokens : List RuleToken) : Text := [','].intercalate (tokens.map printToken)

/-- A token with its value read byte by byte. -/
def asRead (token : RuleToken) : RuleToken :=
  { token with value := token.value.flatMap latin1 }

section Print

variable {token : RuleToken} {tokens : List RuleToken} {key text more : Text} {attr : Option Text}

theorem quoted_print (value rest : Text) :
    quoted (escape value ++ '"' :: rest) = (value.flatMap latin1, rest) := by
  induction value with
  | nil => exact quoted_close rest
  | cons c value ih =>
    rw [escape] at ih ⊢
    rw [List.flatMap_cons, List.flatMap_cons, List.append_assoc]
    by_cases hspecial : c = '"' ∨ c = '\\'
    · have hlatin : latin1 c = [c] := by
        rcases hspecial with rfl | rfl <;> rfl
      rw [if_pos hspecial, List.cons_append, List.singleton_append, quoted_escape, ih,
        if_pos hspecial, hlatin]
    · rw [if_neg hspecial]
      push Not at hspecial
      rw [List.singleton_append, quoted_plain hspecial.1 hspecial.2, ih]

theorem stripOp_print (op : RuleOp) (rest : Text) :
    stripOp (op.text ++ '"' :: rest) = some (op, '"' :: rest) := by
  cases op <;> rfl

theorem endsKey_op (op : RuleOp) (rest : Text) : ∀ c ∈ (op.text ++ rest).head?, EndsKey c := by
  have hops : ∀ op : RuleOp, ∃ c cs, op.text = c :: cs ∧ EndsKey c ∧ isWhitespace c = false := by
    intro op
    cases op <;> exact ⟨_, _, rfl, ⟨by decide, by decide⟩, by decide⟩
  obtain ⟨c, cs, hop, hends, -⟩ := hops op
  rw [hop]
  intro c' hc'
  rwa [← Option.some.inj hc']

theorem trimStart_op (op : RuleOp) (rest : Text) :
    trimStart (op.text ++ rest) = op.text ++ rest := by
  cases op <;> exact trimStart_of_ne (by decide) _

theorem parseRuleKey_print (hkey : ReadableKey key attr) (op : RuleOp) (rest : Text) :
    parseRuleKey (key ++ (printAttr attr ++ (op.text ++ rest))) =
      .ok (.ok (key, attr, op.text ++ rest)) := by
  cases attr with
  | none =>
    have hname : key ≠ [] := by simpa using hkey.present
    exact parseRuleKey_bare hkey.name hname (endsKey_op op rest)
  | some attr =>
    have hparse := parseRuleKey_attr hkey.name (hkey.closed attr rfl) (op.text ++ rest)
    rw [← hparse, printAttr]
    simp

/-- No blank is read into a key. -/
theorem not_whitespace_of_isKeyChar {c : Char} (h : isKeyChar c = true) :
    isWhitespace c = false := by
  have hblanks : ∀ n ∈ [9, 10, 11, 12, 13, 0x20, 0x85, 0xA0, 0x1680, 0x2000, 0x2001, 0x2002,
      0x2003, 0x2004, 0x2005, 0x2006, 0x2007, 0x2008, 0x2009, 0x200A, 0x2028, 0x2029, 0x202F,
      0x205F, 0x3000], isKeyChar (Char.ofNat n) = false := by decide
  by_contra hblank
  have hmem := hblanks c.toNat (by
    simp only [isWhitespace, Bool.not_eq_false] at hblank
    simp at hblank ⊢
    omega)
  rw [Char.ofNat_toNat, h] at hmem
  cases hmem

theorem printToken_cons (hkey : ReadableKey token.key token.attr) :
    ∃ c cs, printToken token = c :: cs ∧ c ≠ ',' ∧ isWhitespace c = false := by
  obtain ⟨key, attr, op, value⟩ := token
  cases key with
  | nil =>
    cases attr with
    | none => exact absurd hkey.present (by simp)
    | some attr => exact ⟨'{', _, rfl, by decide, by decide⟩
  | cons c key =>
    have hc := hkey.name c List.mem_cons_self
    refine ⟨c, _, rfl, ?_, not_whitespace_of_isKeyChar hc⟩
    rintro rfl
    revert hc
    decide

theorem skipCommas_print (hkey : ReadableKey token.key token.attr) (more : Text) :
    skipCommas (printToken token ++ more) = printToken token ++ more := by
  obtain ⟨c, cs, hcons, hcomma, hblank⟩ := printToken_cons hkey
  apply dropWhile_eq_self_iff_head?.mpr
  intro d hd
  rw [hcons] at hd
  rw [← Option.some.inj hd]
  simp [hcomma, hblank]

/-- One turn of the loop reads a printed token. -/
theorem parseRuleLineLoop_print (hkey : ReadableKey token.key token.attr)
    (htext : skipCommas text = printToken token ++ more) (fuel : ℕ) :
    parseRuleLineLoop (fuel + 1) text tokens =
      parseRuleLineLoop fuel more (tokens ++ [asRead token]) := by
  obtain ⟨c, cs, hcons, -, -⟩ := printToken_cons hkey
  have hskip : skipCommas text ≠ [] := by
    rw [htext, hcons]
    simp
  have hne : text ≠ [] := by
    rintro rfl
    exact hskip rfl
  have hprint : printToken token ++ more = token.key ++ (printAttr token.attr ++
      (token.op.text ++ '"' :: (escape token.value ++ '"' :: more))) := by
    simp [printToken]
  have hvalue := parseRuleValue_quoted (escape token.value ++ '"' :: more)
  rw [quoted_print] at hvalue
  rw [parseRuleLineLoop, if_neg hne, if_neg hskip, htext, hprint, parseRuleKey_print hkey]
  simp only [ok_bind, trimStart_op, parseRuleOp, stripOp_print]
  rw [trimStart_of_ne (by decide), hvalue]
  rfl

/-- The tokens of a line behind its first one. -/
def printMore (tokens : List RuleToken) : Text :=
  tokens.flatMap fun token => ',' :: printToken token

theorem printLine_cons (token : RuleToken) (tokens : List RuleToken) :
    printLine (token :: tokens) = printToken token ++ printMore tokens := by
  induction tokens generalizing token with
  | nil => simp [printLine, printMore]
  | cons next tokens ih =>
    have hnext := ih next
    simp only [printLine, List.map_cons, printMore] at hnext ⊢
    rw [List.intercalate_cons_cons, hnext]
    simp

theorem parseRuleLineLoop_printMore
    (hkeys : ∀ token ∈ tokens, ReadableKey token.key token.attr) {fuel : ℕ}
    (hfuel : (printMore tokens).length < fuel) (read : List RuleToken) :
    parseRuleLineLoop fuel (printMore tokens) read = .ok (.ok (read ++ tokens.map asRead)) := by
  obtain ⟨fuel, rfl⟩ := Nat.exists_eq_succ_of_ne_zero (Nat.ne_of_gt (Nat.zero_lt_of_lt hfuel))
  induction tokens generalizing fuel read with
  | nil =>
    rw [parseRuleLineLoop, printMore, List.flatMap_nil, if_pos rfl, List.map_nil, List.append_nil]
    rfl
  | cons token tokens ih =>
    have hkey := hkeys token List.mem_cons_self
    have hmore : printMore (token :: tokens) = ',' :: (printToken token ++ printMore tokens) := rfl
    have hskip : skipCommas (printMore (token :: tokens)) =
        printToken token ++ printMore tokens := skipCommas_print hkey _
    rw [hmore, List.length_cons, List.length_append] at hfuel
    obtain ⟨fuel, rfl⟩ : ∃ n, fuel = n + 1 := ⟨fuel - 1, by omega⟩
    rw [Nat.succ_eq_add_one, parseRuleLineLoop_print hkey hskip,
      ih (fun token htoken => hkeys token (List.mem_cons_of_mem _ htoken)) _ fuel (by omega)]
    simp

theorem getLast?_printToken (token : RuleToken) : (printToken token).getLast? = some '"' := by
  have hprint : printToken token = token.key ++ (printAttr token.attr ++
      (token.op.text ++ '"' :: escape token.value)) ++ ['"'] := by
    simp [printToken]
  rw [hprint, List.getLast?_concat]

/-- What ends in a quote does so too with more tokens behind it. -/
theorem getLast?_append_printMore (front : Text) (h : front.getLast? = some '"') :
    (front ++ printMore tokens).getLast? = some '"' := by
  induction tokens generalizing front with
  | nil => rwa [printMore, List.flatMap_nil, List.append_nil]
  | cons token tokens ih =>
    have hmore : front ++ printMore (token :: tokens) =
        (front ++ [',']) ++ printToken token ++ printMore tokens := by
      simp [printMore]
    rw [hmore]
    apply ih
    rw [List.getLast?_append, getLast?_printToken]
    rfl

theorem trim_printLine (hkeys : ∀ token ∈ tokens, ReadableKey token.key token.attr) :
    trim (printLine tokens) = printLine tokens := by
  cases tokens with
  | nil => rfl
  | cons token tokens =>
    obtain ⟨c, cs, hcons, -, hblank⟩ := printToken_cons (hkeys token List.mem_cons_self)
    rw [printLine_cons]
    apply trim_eq_self_iff.mpr
    constructor
    · intro d hd
      rw [hcons] at hd
      rwa [← Option.some.inj hd]
    · intro d hd
      have hquote : d = '"' := by
        rw [getLast?_append_printMore _ (getLast?_printToken token)] at hd
        exact (Option.some.inj hd).symm
      rw [hquote]
      decide

theorem parseRuleLine_print (hkeys : ∀ token ∈ tokens, ReadableKey token.key token.attr) :
    parseRuleLine (printLine tokens) = .ok (.ok (tokens.map asRead)) := by
  rw [parseRuleLine, trim_printLine hkeys]
  cases tokens with
  | nil => rfl
  | cons token tokens =>
    have hkey := hkeys token List.mem_cons_self
    obtain ⟨c, cs, hcons, -, -⟩ := printToken_cons hkey
    rw [printLine_cons, parseRuleLineLoop_print hkey (skipCommas_print hkey _),
      parseRuleLineLoop_printMore fun token htoken => hkeys token (List.mem_cons_of_mem _ htoken)]
    · rfl
    · rw [hcons, List.length_append, List.length_cons]
      omega

theorem expected_ne_ok {α : Type} (what s : Text) (a : α) : expected what s ≠ .ok (.ok a) := by
  unfold expected
  cases splitAtByte s (min (encode s).length 20) with
  | error f => simp
  | ok parts =>
    intro h
    cases Except.ok.inj h

/-- Every token that is read has a key. -/
theorem readableKey_of_parse {rest : Text} (h : parseRuleKey text = .ok (.ok (key, attr, rest))) :
    ReadableKey key attr := by
  by_cases hcut : ∀ c ∈ (text.dropWhile isKeyChar).head?, firstByte isKeyByte c = false
  · rcases parseRuleKey_cases hcut with ⟨key', attr', rest', hparse, -, hkey, -⟩ |
      ⟨e, hparse, -⟩ | ⟨hparse, -⟩
    · rw [hparse] at h
      obtain ⟨rfl, hsnd⟩ := Prod.mk.inj (Except.ok.inj (Except.ok.inj h))
      obtain ⟨rfl, -⟩ := Prod.mk.inj hsnd
      exact hkey
    · rw [hparse] at h
      cases Except.ok.inj h
    · rw [hparse] at h
      exact absurd h (expected_ne_ok _ _ _)
  · exact absurd ⟨_, h⟩ (not_safe_parseRuleKey_of_cut hcut)

theorem readableKey_of_parseLoop {fuel : ℕ} {read : List RuleToken}
    (hread : ∀ token ∈ read, ReadableKey token.key token.attr)
    (h : parseRuleLineLoop fuel text read = .ok (.ok tokens)) :
    ∀ token ∈ tokens, ReadableKey token.key token.attr := by
  induction fuel generalizing text read with
  | zero => cases h
  | succ fuel ih =>
    unfold parseRuleLineLoop at h
    split_ifs at h with hnil hskip
    · rwa [← Except.ok.inj (Except.ok.inj h)]
    · rwa [← Except.ok.inj (Except.ok.inj h)]
    · cases hkey : parseRuleKey (skipCommas text) with
      | error f =>
        rw [hkey] at h
        cases h
      | ok result =>
        rw [hkey, ok_bind] at h
        obtain e | ⟨key, attr, rest⟩ := result
        · cases Except.ok.inj h
        dsimp only at h
        cases hop : parseRuleOp (trimStart rest) with
        | error f =>
          rw [hop] at h
          cases h
        | ok result =>
          rw [hop, ok_bind] at h
          obtain e | ⟨op, rest⟩ := result
          · cases Except.ok.inj h
          dsimp only at h
          obtain ⟨value, hvalue⟩ := parseRuleValue_eq rest
          rw [hvalue, ok_bind] at h
          refine ih (List.forall_mem_append.mpr ⟨hread, ?_⟩) h
          intro token htoken
          rw [List.mem_singleton.mp htoken]
          exact readableKey_of_parse hkey

theorem length_flatMap_latin1 (value : Text) :
    (value.flatMap latin1).length = (encode value).length := by
  induction value with
  | nil => rfl
  | cons c value ih =>
    rw [List.flatMap_cons, List.length_append, ih, latin1, List.length_map, encode_cons,
      List.length_append]

theorem latin1_ascii {c : Char} (h : c.toNat < 128) : latin1 c = [c] := by
  rw [latin1, utf8EncodeChar_ascii h, List.map_singleton, charOfByte, toNat_ofNat,
    Nat.mod_eq_of_lt (by omega), Char.ofNat_toNat]

/-- A value is read back exactly if it is ASCII. -/
theorem flatMap_latin1_eq_iff {value : Text} :
    value.flatMap latin1 = value ↔ ∀ c ∈ value, c.toNat < 128 := by
  induction value with
  | nil => simp
  | cons c value ih =>
    have hlen := length_flatMap_latin1 value
    have hle := length_le_encode value
    have hpos := c.utf8Size_pos
    rw [List.forall_mem_cons, ← ih, List.flatMap_cons]
    constructor
    · intro h
      have hcount := congrArg List.length h
      rw [List.length_append, latin1, List.length_map, String.length_utf8EncodeChar, hlen,
        List.length_cons] at hcount
      have hsize : c.utf8Size = 1 := by omega
      have hascii : c.toNat < 128 := by
        have hval := UInt32.le_iff_toNat_le.mp (Char.utf8Size_eq_one_iff.mp hsize)
        exact Nat.lt_succ_of_le hval
      rw [latin1_ascii hascii] at h
      exact ⟨hascii, (List.cons.inj h).2⟩
    · rintro ⟨hascii, hvalue⟩
      rw [hvalue, latin1_ascii hascii, List.singleton_append]

theorem parse_print_iff (tokens : List RuleToken) :
    parseRuleLine (printLine tokens) = .ok (.ok tokens) ↔
      ∀ token ∈ tokens, ReadableKey token.key token.attr ∧ ∀ c ∈ token.value, c.toNat < 128 := by
  have hsame : tokens.map asRead = tokens ↔
      ∀ token ∈ tokens, ∀ c ∈ token.value, c.toNat < 128 := by
    have hmap := List.map_inj_left (f := asRead) (g := id) (l := tokens)
    rw [List.map_id] at hmap
    rw [hmap]
    refine forall₂_congr fun token _ => ?_
    rw [← flatMap_latin1_eq_iff]
    constructor
    · intro h
      exact congrArg RuleToken.value h
    · intro h
      rw [asRead, h]
      rfl
  constructor
  · intro h
    have hkeys := readableKey_of_parseLoop (by simp) h
    rw [parseRuleLine_print hkeys] at h
    have hvalues := hsame.mp (Except.ok.inj (Except.ok.inj h))
    exact fun token htoken => ⟨hkeys token htoken, hvalues token htoken⟩
  · intro h
    rw [parseRuleLine_print fun token htoken => (h token htoken).1,
      hsame.mpr fun token htoken => (h token htoken).2]

end Print

/-! ## Lines as the parser should read them -/

/-- A line is parsed without a fault exactly if every key and every quoted text of it is cut between
    characters, and tokens are read back from a line exactly if their keys are read whole and their
    values are ASCII. -/
theorem parseRuleLine_iff (line : Text) (tokens : List RuleToken) :
    (Safe (parseRuleLine line) ↔ ∀ s, KeyAt (trim line) s → CutBetween s) ∧
    (parseRuleLine (printLine tokens) = .ok (.ok tokens) ↔
      ∀ token ∈ tokens, ReadableKey token.key token.attr ∧ ∀ c ∈ token.value, c.toNat < 128) :=
  ⟨safe_parseRuleLine_iff line, parse_print_iff tokens⟩

/-- `é` is encoded as the bytes of `Ã` and `©`, of which the first is a letter and the second is
    not. -/
theorem accents_lost :
    (¬ ∀ line, Safe (parseRuleLine line)) ∧
    ¬ ∀ tokens : List RuleToken,
      (∀ token ∈ tokens, token.key ≠ [] ∧ (∀ c ∈ token.key, c.isAlphanum = true ∨ c = '_') ∧
        ∀ attr ∈ token.attr, '}' ∉ attr) →
      parseRuleLine (printLine tokens) = .ok (.ok tokens) := by
  constructor
  · intro h
    have hfault : parseRuleLine "é==\"x\"".toList = .error .outOfBounds := by decide
    obtain ⟨tokens, htokens⟩ := h "é==\"x\"".toList
    rw [hfault] at htokens
    cases htokens
  · intro h
    have hread : parseRuleLine (printLine [⟨['N'], none, .assign, ['é']⟩]) =
        .ok (.ok [⟨['N'], none, .assign, ['Ã', '©']⟩]) := by decide
    have hback := h [⟨['N'], none, .assign, ['é']⟩] (by
      intro token htoken
      rw [List.mem_singleton.mp htoken]
      refine ⟨by simp, ?_, by simp⟩
      intro c hc
      rw [List.mem_singleton.mp hc]
      exact Or.inl rfl)
    rw [hread] at hback
    simp at hback

end OxidizedSystemd.Udevd
