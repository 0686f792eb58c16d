import OxidizedSystemd.Lib.StrSlice
import OxidizedSystemd.UnitParsing.UnitParser

/-!
# Command lines

Model of `parse_cmdline` (`units/unit_parsing/service_unit.rs`, lines 347–399). The words of a line
are those of `shlex::split`, which is a parameter. The prefixes of the first word are taken off one
byte at a time; a cut at a byte that is not the end of a character is a fault.

* `stripPrefixes_iff`: the words whose prefixes are taken off without a fault.
* `parseCmdline_iff`: the lines that are parsed without a fault, and without a loss.
-/

namespace OxidizedSystemd.UnitParsing

open Lib

/-- `CommandlinePrefix`. -/
inductive CommandlinePrefix
  | atSign
  | minus
  | colon
  | plus
  | exclamation
  | doubleExclamation
  | pipe
  deriving DecidableEq

/-- A prefix as it is written. -/
def CommandlinePrefix.text : CommandlinePrefix → Text
  | .atSign => ['@']
  | .minus => ['-']
  | .colon => [':']
  | .plus => ['+']
  | .exclamation => ['!']
  | .doubleExclamation => ['!', '!']
  | .pipe => ['|']

/-- `Commandline`. -/
structure Commandline where
  cmd : Text
  prefixes : List CommandlinePrefix
  args : List Text
  deriving DecidableEq

/-- The `"!"` arm, for what is behind the first byte (lines 380–388): the word is longer than one
    byte exactly if there is something. -/
def exclamationArm (rest : Text) : Faulty (CommandlinePrefix × Text) :=
  if rest = [] then return (.exclamation, rest)
  else do
    let (second, behind) ← splitAtByte rest 1
    if second = ['!'] then return (.doubleExclamation, behind) else return (.exclamation, rest)

/-- A turn of the loop: the prefix at the front, if there is one, and what is behind it. -/
def takePrefix (cmd : Text) : Faulty (Option (CommandlinePrefix × Text)) := do
  let (first, rest) ← splitAtByte cmd 1
  if first = ['-'] then return some (.minus, rest)
  else if first = ['+'] then return some (.plus, rest)
  else if first = ['@'] then return some (.atSign, rest)
  else if first = [':'] then return some (.colon, rest)
  else if first = ['|'] then return some (.pipe, rest)
  else if first = ['!'] then (exclamationArm rest).map some
  else return none

/-- The loop (lines 358–393). Every turn takes a character, so that it ends. -/
def stripPrefixes : ℕ → List CommandlinePrefix → Text → Faulty (List CommandlinePrefix × Text)
  | 0, _, _ => .error .endless
  | fuel + 1, prefixes, cmd => do
    match ← takePrefix cmd with
    | some (found, rest) => stripPrefixes fuel (prefixes ++ [found]) rest
    | none => return (prefixes, cmd)

/-- `parse_cmdline`, whose errors are texts. -/
def parseCmdline (split : Text → Option (List Text)) (rawLine : Text) :
    Faulty (Except Text Commandline) :=
  match split rawLine with
  | none => return .error ("Could not parse cmdline: ".toList ++ rawLine)
  | some [] => return .error ("Empty command line: ".toList ++ rawLine)
  | some (word :: args) => do
    let (prefixes, cmd) ← stripPrefixes (word.length + 1) [] word
    return .ok ⟨cmd, prefixes, args⟩

/-! ## One prefix -/

/-- The characters that are prefixes. -/
def isPrefixChar (c : Char) : Bool := "-+@:|!".toList.contains c

theorem isPrefixChar_iff {c : Char} :
    isPrefixChar c = true ↔ c = '-' ∨ c = '+' ∨ c = '@' ∨ c = ':' ∨ c = '|' ∨ c = '!' := by
  simp [isPrefixChar]

variable {c : Char} {cs cmd rest : Text} {found : CommandlinePrefix}

theorem utf8Size_eq_one_iff : c.utf8Size = 1 ↔ c.toNat < 128 := by
  have hval : c.toNat = c.val.toNat := rfl
  rw [Char.utf8Size, hval]
  simp only [UInt32.le_iff_toNat_le]
  split_ifs with h
  · exact iff_of_true rfl (Nat.lt_succ_of_le h)
  · exact iff_of_false (by decide) fun hlt => h (Nat.le_of_lt_succ hlt)
  · exact iff_of_false (by decide) fun hlt => h (Nat.le_of_lt_succ hlt)
  · exact iff_of_false (by decide) fun hlt => h (Nat.le_of_lt_succ hlt)

/-- The first byte is cut off exactly if it is a character. -/
theorem splitAtByte_one (c : Char) (cs : Text) :
    splitAtByte (c :: cs) 1 = if c.toNat < 128 then .ok ([c], cs) else .error .outOfBounds := by
  have hpos := c.utf8Size_pos
  rw [splitAtByte, if_neg (by decide)]
  split_ifs with hlt hascii hascii
  · rw [utf8Size_eq_one_iff.mpr hascii] at hlt
    exact absurd hlt (by decide)
  · rfl
  · rw [utf8Size_eq_one_iff.mpr hascii]
    cases cs <;> rfl
  · exact absurd (utf8Size_eq_one_iff.mp (by omega)) hascii

theorem takePrefix_nil : takePrefix [] = .error .outOfBounds := rfl

theorem takePrefix_not_ascii (h : ¬ c.toNat < 128) :
    takePrefix (c :: cs) = .error .outOfBounds := by
  rw [takePrefix, splitAtByte_one, if_neg h]
  rfl

theorem takePrefix_command (hascii : c.toNat < 128) (h : isPrefixChar c = false) :
    takePrefix (c :: cs) = .ok none := by
  have hnot : ∀ d, isPrefixChar d = true → ¬ [c] = [d] := by
    rintro d hd heq
    rw [List.singleton_inj.mp heq, hd] at h
    cases h
  rw [takePrefix, splitAtByte_one, if_pos hascii, ok_bind]
  dsimp only
  rw [if_neg (hnot '-' rfl), if_neg (hnot '+' rfl), if_neg (hnot '@' rfl), if_neg (hnot ':' rfl),
    if_neg (hnot '|' rfl), if_neg (hnot '!' rfl)]
  rfl

theorem exclamationArm_cons (hascii : c.toNat < 128) :
    exclamationArm (c :: cs) =
      .ok (if c = '!' then (.doubleExclamation, cs) else (.exclamation, c :: cs)) := by
  rw [exclamationArm, if_neg (List.cons_ne_nil c cs), splitAtByte_one, if_pos hascii, ok_bind]
  dsimp only
  by_cases hc : c = '!'
  · rw [if_pos (by rw [hc]), if_pos hc]
    rfl
  · rw [if_neg (by simpa using hc), if_neg hc]
    rfl

theorem takePrefix_exclamation (cs : Text) :
    takePrefix ('!' :: cs) = (exclamationArm cs).map some := by
  rw [takePrefix, splitAtByte_one]
  rfl

theorem takePrefix_single (h : isPrefixChar c = true) (hne : c ≠ '!') (cs : Text) :
    ∃ found, takePrefix (c :: cs) = .ok (some (found, cs)) ∧ found.text = [c] := by
  rcases isPrefixChar_iff.mp h with rfl | rfl | rfl | rfl | rfl | rfl
  · exact ⟨.minus, by rw [takePrefix, splitAtByte_one]; rfl, rfl⟩
  · exact ⟨.plus, by rw [takePrefix, splitAtByte_one]; rfl, rfl⟩
  · exact ⟨.atSign, by rw [takePrefix, splitAtByte_one]; rfl, rfl⟩
  · exact ⟨.colon, by rw [takePrefix, splitAtByte_one]; rfl, rfl⟩
  · exact ⟨.pipe, by rw [takePrefix, splitAtByte_one]; rfl, rfl⟩
  · exact absurd rfl hne

/-- A turn without a fault, and what it takes. -/
inductive Takes : Text → Option (CommandlinePrefix × Text) → Prop
  | command {c : Char} {cs : Text} (hascii : c.toNat < 128) (h : isPrefixChar c = false) :
      Takes (c :: cs) none
  | found (found : CommandlinePrefix) {rest : Text} :
      Takes (found.text ++ rest) (some (found, rest))

theorem takes_of_takePrefix {taken : Option (CommandlinePrefix × Text)}
    (h : takePrefix cmd = .ok taken) : Takes cmd taken := by
  cases cmd with
  | nil =>
    rw [takePrefix_nil] at h
    cases h
  | cons c cs =>
    by_cases hascii : c.toNat < 128
    · cases hchar : isPrefixChar c with
      | false =>
        rw [takePrefix_command hascii hchar] at h
        rw [← Except.ok.inj h]
        exact .command hascii hchar
      | true =>
        by_cases hc : c = '!'
        · subst hc
          rw [takePrefix_exclamation] at h
          cases cs with
          | nil =>
            rw [← Except.ok.inj h]
            exact .found .exclamation
          | cons d ds =>
            by_cases hd : d.toNat < 128
            · rw [exclamationArm_cons hd] at h
              rw [← Except.ok.inj h]
              split_ifs with heq
              · rw [heq]
                exact .found .doubleExclamation
              · exact .found .exclamation
            · rw [exclamationArm, if_neg (List.cons_ne_nil d ds), splitAtByte_one, if_neg hd] at h
              cases h
        · obtain ⟨found, htake, htext⟩ := takePrefix_single hchar hc cs
          rw [htake] at h
          rw [← Except.ok.inj h, ← List.singleton_append, ← htext]
          exact .found found
    · rw [takePrefix_not_ascii hascii] at h
      cases h

/-- A turn has no fault when what it reads is ASCII, up to the command. -/
theorem safe_takePrefix (hascii : c.toNat < 128)
    (hnext : isPrefixChar c = true → ∀ d ∈ cs.head?, d.toNat < 128) :
    Safe (takePrefix (c :: cs)) := by
  cases hchar : isPrefixChar c with
  | false => exact ⟨_, takePrefix_command hascii hchar⟩
  | true =>
    by_cases hc : c = '!'
    · subst hc
      rw [takePrefix_exclamation]
      cases cs with
      | nil => exact ⟨_, rfl⟩
      | cons d ds =>
        rw [exclamationArm_cons (hnext hchar d rfl)]
        exact ⟨_, rfl⟩
    · obtain ⟨found, htake, -⟩ := takePrefix_single hchar hc cs
      exact ⟨_, htake⟩

/-! ## All prefixes -/

theorem isPrefixChar_text (found : CommandlinePrefix) :
    ∀ c ∈ found.text, isPrefixChar c = true := by
  intro c hc
  rw [isPrefixChar_iff]
  cases found <;> simp [CommandlinePrefix.text] at hc <;> simp [hc]

theorem length_text_pos (found : CommandlinePrefix) : 0 < found.text.length := by
  cases found <;> decide

theorem dropWhile_text_append (found : CommandlinePrefix) (rest : Text) :
    (found.text ++ rest).dropWhile isPrefixChar = rest.dropWhile isPrefixChar :=
  List.dropWhile_append_of_pos (isPrefixChar_text found)

/-- The command that is left behind the prefixes begins with an ASCII character. -/
def AsciiCommand (word : Text) : Prop :=
  ∃ c ∈ (word.dropWhile isPrefixChar).head?, c.toNat < 128

/-- What the loop gives: the word, cut in front of its command. -/
theorem stripPrefixes_spec {fuel : ℕ} {prefixes all : List CommandlinePrefix} {command : Text}
    (h : stripPrefixes fuel prefixes cmd = .ok (all, command)) :
    all.flatMap CommandlinePrefix.text ++ command =
        prefixes.flatMap CommandlinePrefix.text ++ cmd ∧
      command = cmd.dropWhile isPrefixChar ∧ AsciiCommand cmd := by
  induction fuel generalizing prefixes cmd with
  | zero => cases h
  | succ fuel ih =>
    rw [stripPrefixes] at h
    cases htaken : takePrefix cmd with
    | error fault =>
      rw [htaken] at h
      cases h
    | ok taken =>
      rw [htaken, ok_bind] at h
      cases takes_of_takePrefix htaken with
      | command hascii hcommand =>
        obtain ⟨rfl, rfl⟩ := Prod.mk.inj (Except.ok.inj h)
        rename_i c cs
        have hdrop : (c :: cs).dropWhile isPrefixChar = c :: cs := by
          rw [List.dropWhile_cons_of_neg (by simp [hcommand])]
        exact ⟨rfl, hdrop.symm, c, by rw [hdrop]; rfl, hascii⟩
      | found =>
        obtain ⟨hall, hcommand, hascii⟩ := ih h
        rw [AsciiCommand, dropWhile_text_append]
        refine ⟨?_, hcommand, hascii⟩
        rw [hall]
        simp

theorem AsciiCommand.head (h : AsciiCommand cmd) : ∀ c ∈ cmd.head?, c.toNat < 128 := by
  intro c hc
  cases cmd with
  | nil => cases hc
  | cons d ds =>
    rw [Option.some.inj hc] at h
    cases hchar : isPrefixChar c with
    | true => rcases isPrefixChar_iff.mp hchar with rfl | rfl | rfl | rfl | rfl | rfl <;> decide
    | false =>
      obtain ⟨e, he, hascii⟩ := h
      rw [List.dropWhile_cons_of_neg (by simp [hchar])] at he
      rwa [Option.some.inj he]

theorem safe_stripPrefixes {fuel : ℕ} (prefixes : List CommandlinePrefix)
    (hfuel : cmd.length < fuel) (h : AsciiCommand cmd) :
    Safe (stripPrefixes fuel prefixes cmd) := by
  induction fuel generalizing prefixes cmd with
  | zero => exact absurd hfuel (Nat.not_lt_zero _)
  | succ fuel ih =>
    have hsafe : Safe (takePrefix cmd) := by
      cases cmd with
      | nil =>
        obtain ⟨c, hc, -⟩ := h
        cases hc
      | cons c cs =>
        refine safe_takePrefix (h.head c rfl) fun hchar => ?_
        rw [AsciiCommand, List.dropWhile_cons_of_pos hchar] at h
        exact AsciiCommand.head h
    obtain ⟨taken, htaken⟩ := hsafe
    rw [stripPrefixes, htaken, ok_bind]
    cases takes_of_takePrefix htaken with
    | command hascii hcommand => exact safe_pure _
    | found =>
      rename_i found rest
      have hpos := length_text_pos found
      rw [List.length_append] at hfuel
      rw [AsciiCommand, dropWhile_text_append] at h
      exact ih _ (by omega) h

/-- The words whose prefixes are taken off without a fault. -/
theorem stripPrefixes_iff (word : Text) :
    Safe (stripPrefixes (word.length + 1) [] word) ↔ AsciiCommand word := by
  constructor
  · rintro ⟨⟨all, command⟩, h⟩
    exact (stripPrefixes_spec h).2.2
  · exact safe_stripPrefixes [] (Nat.lt_succ_self _)

/-! ## The line -/

/-- What is parsed is what the line has: the prefixes and the command are the first word. -/
structure Lossless (words : Option (List Text)) (line : Commandline) : Prop where
  words : words = some ((line.prefixes.flatMap CommandlinePrefix.text ++ line.cmd) :: line.args)
  command : ∀ c ∈ line.cmd.head?, isPrefixChar c = false

/-- A line is parsed without a fault, and without a loss, exactly if its command begins with an
    ASCII character. -/
theorem parseCmdline_iff (split : Text → Option (List Text)) (rawLine : Text) :
    (Safe (parseCmdline split rawLine) ∧
      ∀ line, parseCmdline split rawLine = .ok (.ok line) → Lossless (split rawLine) line) ↔
      ∀ word args, split rawLine = some (word :: args) → AsciiCommand word := by
  -- an error text is no line
  have herror : ∀ (text : Text) words line,
      (pure (.error text) : Faulty (Except Text Commandline)) = .ok (.ok line) →
        Lossless words line := by
    intro text words line h
    cases Except.ok.inj h
  unfold parseCmdline
  cases hsplit : split rawLine with
  | none => exact iff_of_true ⟨safe_pure _, herror _ _⟩ (by simp)
  | some words =>
    cases words with
    | nil => exact iff_of_true ⟨safe_pure _, herror _ _⟩ (by simp)
    | cons word args =>
      dsimp only
      constructor
      · rintro ⟨hsafe, -⟩ word' args' heq
        rw [← (List.cons.inj (Option.some.inj heq)).1]
        obtain ⟨stripped, hstripped, -⟩ := safe_bind.mp hsafe
        exact (stripPrefixes_iff word).mp ⟨stripped, hstripped⟩
      · intro h
        obtain ⟨⟨all, command⟩, hstripped⟩ := (stripPrefixes_iff word).mpr (h word args rfl)
        obtain ⟨hall, hcommand, -⟩ := stripPrefixes_spec hstripped
        rw [hstripped, ok_bind]
        refine ⟨safe_pure _, fun line hline => ?_⟩
        rw [← Except.ok.inj (Except.ok.inj hline)]
        constructor
        · rw [hall]
          rfl
        · intro c hc
          dsimp only at hc
          rw [hcommand] at hc
          have hnot := List.head?_dropWhile_not isPrefixChar word
          rw [Option.mem_def.mp hc] at hnot
          simpa using hnot

/-- A command line of one prefix alone, as in `ExecStart=-`. -/
theorem bare_prefix_panics :
    ¬ (Safe (parseCmdline (fun _ => some ["-".toList]) "-".toList) ∧
      ∀ line, parseCmdline (fun _ => some ["-".toList]) "-".toList = .ok (.ok line) →
        Lossless (some ["-".toList]) line) := by
  rintro ⟨⟨line, h⟩, -⟩
  have hfault : parseCmdline (fun _ => some ["-".toList]) "-".toList = .error .outOfBounds := by
    decide
  rw [hfault] at h
  cases h

end OxidizedSystemd.UnitParsing
