import OxidizedSystemd.Journal.Export
import OxidizedSystemd.Lib.Faults

/-!
# The native journal protocol

Model of `parse_native_message` and `is_valid_field_name` (`journald/src/main.rs`, lines
1101–1187) on 64-bit machine words: every addition and slice of the source is one that may fault,
with overflow checks or without.

* `nativeTurn_ok`, `not_safe_nativeTurn`: what a turn of the loop does, and when it faults.
* `parseNativeMessage_safe_iff`: a datagram is parsed without a fault exactly if no length word
  that the loop reads is too long.
* `parseNativeMessage_encoded`: the encodings of fields are read back.
-/

namespace OxidizedSystemd.Journal.Native

open OxidizedSystemd.Lib

/-! ## Names -/

/-- `u8::is_ascii_digit`. -/
def isAsciiDigit (b : UInt8) : Bool := 0x30 ≤ b && b ≤ 0x39

/-- `u8::is_ascii_uppercase`. -/
def isAsciiUppercase (b : UInt8) : Bool := 0x41 ≤ b && b ≤ 0x5A

/-- `is_valid_field_name` (lines 1177–1187). -/
def isValidFieldName (name : String) : Bool :=
  if (asBytes name).isEmpty || decide (64 < (asBytes name).length) then false
  else if (asBytes name).head?.any isAsciiDigit then false
  else (asBytes name).all fun b => isAsciiUppercase b || isAsciiDigit b || b == 0x5F

/-! ## The parser -/

abbrev Fields := SortedMap String Bytes

/-- A field with a valid name is inserted. -/
def insertField (fields : Fields) (key : Bytes) (value : Bytes) : Fields :=
  if isValidFieldName (fromUtf8Lossy key) then fields.insert (fromUtf8Lossy key) value else fields

section Parser

variable (checks : Bool) (data : Bytes)

/-- `KEY=VALUE\n` (lines 1115–1122). -/
def textArm (pos : ℕ) (fields : Fields) (remaining : Bytes) (eq nl : ℕ) : Faulty (ℕ × Fields) := do
  let key ← slice remaining 0 eq
  let start ← add checks eq 1
  let value ← slice remaining start nl
  let pos ← add checks pos (← add checks nl 1)
  return (pos, insertField fields key value)

/-- A line without a value (lines 1147 and 1161). -/
def skipLine (pos : ℕ) (fields : Fields) (nl : ℕ) : Faulty (ℕ × Fields) := do
  let pos ← add checks pos (← add checks nl 1)
  return (pos, fields)

/-- A newline behind the value is skipped (lines 1139–1141). -/
def skipNewline (pos : ℕ) : Faulty ℕ :=
  if pos < data.length then do
    if (← index data pos) = 0x0A then add checks pos 1 else return pos
  else return pos

/-- `KEY\n`, the length, the data (lines 1123–1148). -/
def binaryArm (pos : ℕ) (fields : Fields) (remaining : Bytes) (nl : ℕ) : Faulty (ℕ × Fields) := do
  let key ← slice remaining 0 nl
  let afterNl ← slice remaining (← add checks nl 1) remaining.length
  if 8 ≤ afterNl.length then
    let valueLen := ofLe (← slice afterNl 0 8)
    if (← add checks 8 valueLen) ≤ afterNl.length then
      let value ← slice afterNl 8 (← add checks 8 valueLen)
      let behind ← add checks (← add checks (← add checks nl 1) 8) valueLen
      let pos ← skipNewline checks data (← add checks pos behind)
      return (pos, insertField fields key value)
    else skipLine checks pos fields nl
  else skipLine checks pos fields nl

/-- `KEY=VALUE` without a newline (lines 1149–1157). -/
def lastArm (fields : Fields) (remaining : Bytes) (eq : ℕ) : Faulty (ℕ × Fields) := do
  let key ← slice remaining 0 eq
  let value ← slice remaining (← add checks eq 1) remaining.length
  return (data.length, insertField fields key value)

/-- What stands behind a newline that no `=` precedes: a binary field, or nothing (lines 1123
    and 1158–1164). -/
def behindNewline (pos : ℕ) (fields : Fields) (remaining : Bytes) (nl : ℕ) :
    Faulty (ℕ × Fields) :=
  if nl < remaining.length - 1 then binaryArm checks data pos fields remaining nl
  else skipLine checks pos fields nl

/-- A turn of the loop (lines 1106–1165). -/
def nativeTurn (pos : ℕ) (fields : Fields) : Faulty (ℕ × Fields) := do
  let remaining ← slice data pos data.length
  match remaining.idxOf? 0x3D, remaining.idxOf? 0x0A with
  | some eq, some nl =>
    if eq < nl then textArm checks pos fields remaining eq nl
    else behindNewline checks data pos fields remaining nl
  | none, some nl => behindNewline checks data pos fields remaining nl
  | some eq, none => lastArm checks data fields remaining eq
  | none, none => return (data.length, fields)

/-- At most `fuel` turns of the loop. -/
def nativeLoop : ℕ → ℕ → Fields → Faulty Fields
  | 0, _, _ => .error .endless
  | fuel + 1, pos, fields =>
    if pos < data.length then do
      let (pos, fields) ← nativeTurn checks data pos fields
      nativeLoop fuel pos fields
    else return fields

/-- `parse_native_message` (lines 1101–1168), with the readings of the clocks that
    `JournalEntry::new` takes. A turn takes a byte, or it is the last one. -/
def parseNativeMessage (realtimeUsec monotonicUsec : UInt64) : Faulty JournalEntry := do
  let fields ← nativeLoop checks data (data.length + 1) 0 SortedMap.empty
  return ⟨fields, realtimeUsec, monotonicUsec, 0⟩

end Parser

/-! ## A turn -/

/-- The bytes that a turn takes and the field that it reads, from what is left. -/
abbrev Turn := ℕ × Option (Bytes × Bytes)

/-- The length word behind a newline at `nl`. -/
def wordBehind (rest : Bytes) (nl : ℕ) : Option ℕ :=
  if nl + 9 ≤ rest.length then some (ofLe ((rest.drop (nl + 1)).take 8)) else none

/-- What stands behind a newline that no `=` precedes. -/
def turnBehind (rest : Bytes) (nl : ℕ) : Turn :=
  match wordBehind rest nl with
  | some len =>
    if nl + 9 + len ≤ rest.length then
      (nl + 9 + len + (if rest[nl + 9 + len]? = some 0x0A then 1 else 0),
        some (rest.take nl, (rest.drop (nl + 9)).take len))
    else (nl + 1, none)
  | none => (nl + 1, none)

/-- A turn, from what is left. -/
def turn (rest : Bytes) : Turn :=
  match rest.idxOf? 0x3D, rest.idxOf? 0x0A with
  | some eq, some nl =>
    if eq < nl then
      (nl + 1, some (rest.take eq, (rest.drop (eq + 1)).take (nl - (eq + 1))))
    else turnBehind rest nl
  | none, some nl => turnBehind rest nl
  | some eq, none => (rest.length, some (rest.take eq, rest.drop (eq + 1)))
  | none, none => (rest.length, none)

/-- The length word that a turn reads. -/
def lengthWord (rest : Bytes) : Option ℕ :=
  match rest.idxOf? 0x3D, rest.idxOf? 0x0A with
  | some eq, some nl => if eq < nl then none else wordBehind rest nl
  | none, some nl => wordBehind rest nl
  | _, none => none

/-- The sum of the length and the eight bytes in front of it leaves the words. -/
def Overlong (rest : Bytes) : Prop := ∃ len ∈ lengthWord rest, 2 ^ 64 ≤ 8 + len

def addField (fields : Fields) : Option (Bytes × Bytes) → Fields
  | some (key, value) => insertField fields key value
  | none => fields

section Turns

variable {checks : Bool} {data rest : Bytes} {pos nl eq : ℕ} {fields : Fields}

theorem skipLine_ok (hlen : data.length < 2 ^ 63) (hrest : data.drop pos = rest)
    (hpos : pos < data.length) (hnl : nl < rest.length) :
    skipLine checks pos fields nl = .ok (pos + (nl + 1), fields) := by
  have hlength : rest.length = data.length - pos := by rw [← hrest, List.length_drop]
  rw [skipLine, add_ok (by omega)]
  simp only [ok_bind]
  rw [add_ok (by omega)]
  rfl

theorem skipNewline_ok (hlen : data.length < 2 ^ 63) (hrest : data.drop pos = rest) (moved : ℕ) :
    skipNewline checks data (pos + moved) =
      .ok (pos + (moved + if rest[moved]? = some 0x0A then 1 else 0)) := by
  have hget : rest[moved]? = data[pos + moved]? := by rw [← hrest, List.getElem?_drop]
  unfold skipNewline
  split
  · rename_i hlt
    rw [index_ok hlt, hget, List.getElem?_eq_getElem hlt]
    simp only [ok_bind, Option.some.injEq]
    split
    · exact add_ok (by omega)
    · rfl
  · rename_i hge
    rw [hget, List.getElem?_eq_none (Nat.not_lt.mp hge)]
    rfl

/-- What stands behind the newline, as a slice. -/
theorem slice_behind (hnl : nl < rest.length) :
    slice rest (nl + 1) rest.length = .ok (rest.drop (nl + 1)) := by
  rw [slice_ok (by omega) (Nat.le_refl _), ← List.length_drop, List.take_length]

theorem wordBehind_lt {len : ℕ} (h : wordBehind rest nl = some len) :
    nl + 9 ≤ rest.length ∧ len < 2 ^ 64 := by
  unfold wordBehind at h
  split at h
  · rename_i hle
    refine ⟨hle, ?_⟩
    rw [← Option.some.inj h]
    exact leAt_lt rest (nl + 1) 8
  · cases h

theorem behindNewline_ok (hlen : data.length < 2 ^ 63) (hrest : data.drop pos = rest)
    (hpos : pos < data.length) (hnl : nl < rest.length)
    (hwords : ∀ len ∈ wordBehind rest nl, 8 + len < 2 ^ 64) :
    behindNewline checks data pos fields rest nl =
      .ok (pos + (turnBehind rest nl).1, addField fields (turnBehind rest nl).2) := by
  have hlength : rest.length = data.length - pos := by rw [← hrest, List.length_drop]
  have hskip : skipLine checks pos fields nl = .ok (pos + (nl + 1), fields) :=
    skipLine_ok hlen hrest hpos hnl
  unfold behindNewline turnBehind
  cases hword : wordBehind rest nl with
  | none =>
    have hshort : ¬ nl + 9 ≤ rest.length := by
      intro hle
      rw [wordBehind, if_pos hle] at hword
      cases hword
    split
    · rw [binaryArm, slice_ok (Nat.zero_le nl) (by omega), ok_bind, add_ok (by omega), ok_bind,
        slice_behind hnl, ok_bind, if_neg (by rw [List.length_drop]; omega)]
      exact hskip
    · exact hskip
  | some len =>
    have hwords := hwords len hword
    obtain ⟨hle, -⟩ := wordBehind_lt hword
    have hvalue : ofLe ((rest.drop (nl + 1)).take 8) = len := by
      rw [wordBehind, if_pos hle] at hword
      exact Option.some.inj hword
    rw [if_pos (by omega), binaryArm, slice_ok (Nat.zero_le nl) (by omega), ok_bind,
      add_ok (by omega), ok_bind, slice_behind hnl, ok_bind,
      if_pos (by rw [List.length_drop]; omega),
      slice_ok (Nat.zero_le 8) (by rw [List.length_drop]; omega), ok_bind]
    simp only [List.drop_zero, Nat.sub_zero]
    rw [hvalue, add_ok hwords, ok_bind, List.length_drop]
    by_cases hfits : nl + 9 + len ≤ rest.length
    · have hmoved : nl + 1 + 8 + len = nl + 9 + len := by omega
      rw [if_pos (by omega), if_pos hfits, ok_bind,
        slice_ok (by omega) (by rw [List.length_drop]; omega), ok_bind, ok_bind,
        add_ok (by omega), ok_bind, add_ok (by omega), ok_bind, hmoved, add_ok (by omega), ok_bind,
        skipNewline_ok hlen hrest, ok_bind, Nat.add_sub_cancel_left,
        List.drop_drop]
      rfl
    · rw [if_neg (by omega), if_neg hfits]
      exact hskip

theorem not_safe_behindNewline (hlen : data.length < 2 ^ 63) (hrest : data.drop pos = rest)
    (hpos : pos < data.length) {len : ℕ} (hword : wordBehind rest nl = some len)
    (hover : 2 ^ 64 ≤ 8 + len) :
    ¬ Safe (behindNewline checks data pos fields rest nl) := by
  have hlength : rest.length = data.length - pos := by rw [← hrest, List.length_drop]
  obtain ⟨hle, hlt⟩ := wordBehind_lt hword
  have hvalue : ofLe ((rest.drop (nl + 1)).take 8) = len := by
    rw [wordBehind, if_pos hle] at hword
    exact Option.some.inj hword
  rw [behindNewline, if_pos (by omega), binaryArm, slice_ok (Nat.zero_le nl) (by omega), ok_bind,
    add_ok (by omega), ok_bind, slice_behind (by omega), ok_bind,
    if_pos (by rw [List.length_drop]; omega),
    slice_ok (Nat.zero_le 8) (by rw [List.length_drop]; omega), ok_bind]
  simp only [List.drop_zero, Nat.sub_zero]
  rw [hvalue]
  refine not_safe_add (by decide) hlt hover ?_
  -- without overflow checks the sum wraps to less than eight, and the value ends in front of
  -- its start
  rw [if_pos (by rw [List.length_drop]; omega)]
  refine not_safe_add (by decide) hlt hover ?_
  exact not_safe_bind _ (not_safe_slice (by omega))

theorem idxOf?_lt {b : UInt8} {i : ℕ} (h : rest.idxOf? b = some i) : i < rest.length := by
  obtain ⟨hlt, -, -⟩ := List.findIdx?_eq_some_iff_getElem.mp h
  exact hlt

theorem slice_rest (hrest : data.drop pos = rest) (hpos : pos < data.length) :
    slice data pos data.length = .ok rest := by
  rw [slice_ok (Nat.le_of_lt hpos) (Nat.le_refl _), ← List.length_drop, List.take_length, hrest]

/-- A turn goes on behind what it takes, with the field that it reads. -/
theorem nativeTurn_ok (hlen : data.length < 2 ^ 63) (hrest : data.drop pos = rest)
    (hpos : pos < data.length) (hover : ¬ Overlong rest) :
    nativeTurn checks data pos fields =
      .ok (pos + (turn rest).1, addField fields (turn rest).2) := by
  have hlength : rest.length = data.length - pos := by rw [← hrest, List.length_drop]
  have hend : pos + rest.length = data.length := by omega
  rw [nativeTurn, slice_rest hrest hpos, ok_bind]
  unfold turn
  unfold Overlong lengthWord at hover
  cases heq : rest.idxOf? 0x3D with
  | none =>
    cases hnl : rest.idxOf? 0x0A with
    | none =>
      dsimp only
      rw [hend]
      rfl
    | some nl =>
      simp only [heq, hnl, not_exists, not_and, Nat.not_le] at hover
      exact behindNewline_ok hlen hrest hpos (idxOf?_lt hnl) hover
  | some eq =>
    have hltEq := idxOf?_lt heq
    cases hnl : rest.idxOf? 0x0A with
    | none =>
      dsimp only
      rw [lastArm, slice_ok (Nat.zero_le eq) (by omega), ok_bind, add_ok (by omega), ok_bind,
        slice_behind hltEq, ok_bind, hend]
      rfl
    | some nl =>
      have hltNl := idxOf?_lt hnl
      dsimp only
      by_cases hlt : eq < nl
      · rw [if_pos hlt, if_pos hlt, textArm, slice_ok (Nat.zero_le eq) (by omega), ok_bind,
          add_ok (by omega), ok_bind, slice_ok (by omega) (by omega), ok_bind, add_ok (by omega),
          ok_bind, add_ok (by omega)]
        rfl
      · simp only [heq, hnl, if_neg hlt, not_exists, not_and, Nat.not_le] at hover
        rw [if_neg hlt, if_neg hlt]
        exact behindNewline_ok hlen hrest hpos hltNl hover

/-- A length word that is too long is a fault, with overflow checks or without. -/
theorem not_safe_nativeTurn (hlen : data.length < 2 ^ 63) (hrest : data.drop pos = rest)
    (hpos : pos < data.length) (hover : Overlong rest) :
    ¬ Safe (nativeTurn checks data pos fields) := by
  obtain ⟨len, hword, hover⟩ := hover
  rw [nativeTurn, slice_rest hrest hpos, ok_bind]
  unfold lengthWord at hword
  cases heq : rest.idxOf? 0x3D with
  | none =>
    cases hnl : rest.idxOf? 0x0A with
    | none => simp [heq, hnl] at hword
    | some nl =>
      simp only [heq, hnl] at hword
      exact not_safe_behindNewline hlen hrest hpos hword hover
  | some eq =>
    cases hnl : rest.idxOf? 0x0A with
    | none => simp [heq, hnl] at hword
    | some nl =>
      by_cases hlt : eq < nl
      · simp [heq, hnl, hlt] at hword
      · simp only [heq, hnl, if_neg hlt] at hword
        dsimp only
        rw [if_neg hlt]
        exact not_safe_behindNewline hlen hrest hpos hword hover

theorem turnBehind_bounds (hnl : nl < rest.length) :
    0 < (turnBehind rest nl).1 ∧ (turnBehind rest nl).1 ≤ rest.length := by
  unfold turnBehind
  split
  · split
    · rename_i hfits
      split
      · rename_i hget
        have hlt := (List.getElem?_eq_some_iff.mp hget).1
        dsimp only
        omega
      · dsimp only
        omega
    · exact ⟨Nat.succ_pos nl, hnl⟩
  · exact ⟨Nat.succ_pos nl, hnl⟩

/-- A turn takes a byte at least, and none that is not there. -/
theorem turn_bounds (hne : rest ≠ []) : 0 < (turn rest).1 ∧ (turn rest).1 ≤ rest.length := by
  have hpos := List.length_pos_of_ne_nil hne
  unfold turn
  split
  · rename_i hnl
    have hlt := idxOf?_lt hnl
    split
    · exact ⟨Nat.succ_pos _, hlt⟩
    · exact turnBehind_bounds hlt
  · rename_i hnl
    exact turnBehind_bounds (idxOf?_lt hnl)
  · exact ⟨hpos, Nat.le_refl _⟩
  · exact ⟨hpos, Nat.le_refl _⟩

end Turns

/-! ## Safety -/

/-- What is left at the turns of the loop, up to the first fault. -/
inductive Reaches : Bytes → Bytes → Prop
  | start (data : Bytes) : Reaches data data
  | turn {data rest : Bytes} (hne : data ≠ []) (hover : ¬ Overlong data)
      (h : Reaches (data.drop (turn data).1) rest) : Reaches data rest

theorem not_overlong_nil : ¬ Overlong [] := by
  simp [Overlong, lengthWord]

/-- The loop is safe from a cursor on exactly if no length word that is read behind it is too
    long. -/
theorem nativeLoop_safe_iff {checks : Bool} {data : Bytes} (hlen : data.length < 2 ^ 63)
    {fuel pos : ℕ} {fields : Fields} (hfuel : data.length - pos < fuel) :
    Safe (nativeLoop checks data fuel pos fields) ↔
      ∀ rest, Reaches (data.drop pos) rest → ¬ Overlong rest := by
  induction fuel generalizing pos fields with
  | zero => omega
  | succ fuel ih =>
    unfold nativeLoop
    by_cases hpos : pos < data.length
    · rw [if_pos hpos]
      by_cases hover : Overlong (data.drop pos)
      · apply iff_of_false
        · exact not_safe_bind _ (not_safe_nativeTurn hlen rfl hpos hover)
        · intro hall
          exact hall _ (Reaches.start _) hover
      · have hne : data.drop pos ≠ [] := by
          intro hnil
          have := congrArg List.length hnil
          simp at this
          omega
        obtain ⟨hprogress, -⟩ := turn_bounds hne
        rw [nativeTurn_ok hlen rfl hpos hover, ok_bind]
        dsimp only
        rw [ih (by omega), ← List.drop_drop]
        constructor
        · intro hall rest hreach
          cases hreach with
          | start => exact hover
          | turn _ _ h => exact hall rest h
        · intro hall rest hreach
          exact hall rest (Reaches.turn hne hover hreach)
    · rw [if_neg hpos, List.drop_of_length_le (Nat.not_lt.mp hpos)]
      apply iff_of_true (safe_pure _)
      intro rest hreach
      cases hreach with
      | start => exact not_overlong_nil
      | turn hne => exact absurd rfl hne

/-- A datagram in the receive buffer: a slice, which has at most `isize::MAX` bytes. -/
structure Datagram where
  bytes : Bytes
  length_lt : bytes.length < 2 ^ 63

/-- A datagram is parsed without a fault, with overflow checks or without, exactly if every
    length word that the loop reads leaves room for itself in front of the value. -/
theorem parseNativeMessage_safe_iff (checks : Bool) (realtimeUsec monotonicUsec : UInt64)
    (datagram : Datagram) :
    Safe (parseNativeMessage checks datagram.bytes realtimeUsec monotonicUsec) ↔
      ∀ rest, Reaches datagram.bytes rest → ¬ Overlong rest := by
  have hloop : Safe (nativeLoop checks datagram.bytes (datagram.bytes.length + 1) 0
      SortedMap.empty) ↔ ∀ rest, Reaches (datagram.bytes.drop 0) rest → ¬ Overlong rest :=
    nativeLoop_safe_iff datagram.length_lt (Nat.lt_succ_self _)
  rw [List.drop_zero] at hloop
  rw [← hloop, parseNativeMessage, safe_bind]
  exact exists_congr fun fields => and_iff_left (safe_pure _)

/-- A name, a newline and a length of `2 ^ 64 - 1`. -/
def crashingDatagram : Datagram := ⟨[0x41, 0x0A] ++ List.replicate 8 0xFF, by decide⟩

theorem length_word_crashes : ¬ ∀ checks realtimeUsec monotonicUsec,
    Safe (parseNativeMessage checks crashingDatagram.bytes realtimeUsec monotonicUsec) := by
  intro h
  obtain ⟨entry, hentry⟩ := h true 0 0
  have hfault : parseNativeMessage true crashingDatagram.bytes 0 0 = .error .overflow := by
    decide
  rw [hfault] at hentry
  cases hentry

/-! ## Decoding -/

/-- A field as a client sends it. A value with a newline takes the binary encoding. -/
structure SentField where
  name : String
  value : Bytes
  binary : Bool
  valid : isValidFieldName name = true
  text : binary = false → (0x0A : UInt8) ∉ value

namespace SentField

/-- `KEY=VALUE\n`, or `KEY\n` with the length, the value and a newline. -/
def encode (f : SentField) : Bytes :=
  if f.binary then binaryField f.name f.value else textField f.name f.value

def pair (f : SentField) : String × Bytes := (f.name, f.value)

end SentField

/-- The encodings of fields, one behind the other. The newline behind the last one is optional
    where it is a text field. -/
inductive Encodes : List SentField → Bytes → Prop
  | nil : Encodes [] []
  | cons {fs : List SentField} {bytes : Bytes} (f : SentField) (h : Encodes fs bytes) :
      Encodes (f :: fs) (f.encode ++ bytes)
  | bare (f : SentField) (hf : f.binary = false) :
      Encodes [f] (asBytes f.name ++ 0x3D :: f.value)

section Decode

theorem byte_of_isValidFieldName {name : String} (h : isValidFieldName name = true) :
    ∀ b ∈ asBytes name, b ≠ 0x3D ∧ b ≠ 0x0A := by
  unfold isValidFieldName at h
  split at h
  · cases h
  · split at h
    · cases h
    · intro b hb
      have hbyte := List.all_eq_true.mp h b hb
      constructor
      · rintro rfl
        revert hbyte
        decide
      · rintro rfl
        revert hbyte
        decide

theorem SentField.equals_not_mem (f : SentField) : (0x3D : UInt8) ∉ asBytes f.name :=
  fun h => (byte_of_isValidFieldName f.valid _ h).1 rfl

theorem SentField.newline_not_mem (f : SentField) : (0x0A : UInt8) ∉ asBytes f.name :=
  fun h => (byte_of_isValidFieldName f.valid _ h).2 rfl

theorem insertField_name (f : SentField) (fields : Fields) :
    insertField fields (asBytes f.name) f.value = fields.insert f.name f.value := by
  rw [insertField, fromUtf8Lossy_asBytes, if_pos f.valid]

/-- The first place of a byte that nothing in front of it is. -/
theorem idxOf?_append {b : UInt8} {front : Bytes} (h : b ∉ front) (rest : Bytes) :
    (front ++ b :: rest).idxOf? b = some front.length := by
  rw [List.idxOf?, List.findIdx?_append, List.findIdx?_eq_none_iff.mpr]
  · simp [List.findIdx?_cons]
  · intro c hc
    exact beq_eq_false_iff_ne.mpr fun heq => h (heq ▸ hc)

/-- The first place of a byte is not in front. -/
theorem le_of_idxOf? {b : UInt8} {front rest : Bytes} (h : b ∉ front) {i : ℕ}
    (hi : (front ++ rest).idxOf? b = some i) : front.length ≤ i := by
  obtain ⟨hlt, hget, -⟩ := List.findIdx?_eq_some_iff_getElem.mp hi
  by_contra hlt'
  rw [List.getElem_append_left (Nat.not_le.mp hlt')] at hget
  exact h (beq_iff_eq.mp hget ▸ List.getElem_mem _)

theorem turn_textField (f : SentField) (hf : f.binary = false) (rest : Bytes) :
    turn (f.encode ++ rest) = (f.encode.length, some (asBytes f.name, f.value)) := by
  have hencode : f.encode ++ rest =
      asBytes f.name ++ 0x3D :: (f.value ++ 0x0A :: rest) := by
    rw [SentField.encode, hf, textField]
    simp
  have hnewline : (asBytes f.name ++ 0x3D :: (f.value ++ 0x0A :: rest)).idxOf? 0x0A =
      some ((asBytes f.name).length + 1 + f.value.length) := by
    have hfront : (0x0A : UInt8) ∉ asBytes f.name ++ 0x3D :: f.value := by
      rw [List.mem_append, List.mem_cons, not_or, not_or]
      exact ⟨f.newline_not_mem, by decide, f.text hf⟩
    have happend := idxOf?_append hfront rest
    rw [List.append_assoc, List.cons_append] at happend
    rw [happend, List.length_append, List.length_cons]
    congr 1
    omega
  have hlength : f.encode.length = (asBytes f.name).length + 1 + f.value.length + 1 := by
    rw [SentField.encode, hf, textField]
    simp
    omega
  rw [hencode, turn, idxOf?_append f.equals_not_mem, hnewline]
  dsimp only
  rw [if_pos (by omega), hlength, List.take_left]
  have hdrop : (asBytes f.name ++ 0x3D :: (f.value ++ 0x0A :: rest)).drop
      ((asBytes f.name).length + 1) = f.value ++ 0x0A :: rest := by
    rw [← List.drop_drop, List.drop_left]
    rfl
  rw [hdrop, Nat.add_sub_cancel_left, List.take_left]

theorem encode_binary (f : SentField) (hf : f.binary = true) (rest : Bytes) :
    f.encode ++ rest =
      asBytes f.name ++ 0x0A :: (toLe 8 f.value.length ++ (f.value ++ 0x0A :: rest)) := by
  rw [SentField.encode, hf, binaryField]
  simp

theorem length_encode_binary (f : SentField) (hf : f.binary = true) :
    f.encode.length = (asBytes f.name).length + 9 + f.value.length + 1 := by
  rw [SentField.encode, hf, binaryField]
  simp
  omega

theorem lengthWord_binaryField (f : SentField) (hf : f.binary = true)
    (hlen : f.value.length < 2 ^ 64) (rest : Bytes) :
    wordBehind (f.encode ++ rest) (asBytes f.name).length = some f.value.length ∧
      turn (f.encode ++ rest) = turnBehind (f.encode ++ rest) (asBytes f.name).length ∧
      lengthWord (f.encode ++ rest) = some f.value.length := by
  have hnewline : (f.encode ++ rest).idxOf? 0x0A = some (asBytes f.name).length := by
    rw [encode_binary f hf, idxOf?_append f.newline_not_mem]
  have hequals : ∀ eq, (f.encode ++ rest).idxOf? 0x3D = some eq →
      ¬ eq < (asBytes f.name).length := by
    intro eq heq
    rw [encode_binary f hf] at heq
    exact Nat.not_lt.mpr (le_of_idxOf? f.equals_not_mem heq)
  have hword : wordBehind (f.encode ++ rest) (asBytes f.name).length = some f.value.length := by
    have hlong : (asBytes f.name).length + 9 ≤ (f.encode ++ rest).length := by
      rw [List.length_append, length_encode_binary f hf]
      omega
    rw [wordBehind, if_pos hlong, encode_binary f hf, ← List.drop_drop, List.drop_left]
    show some (ofLe ((toLe 8 f.value.length ++ (f.value ++ 0x0A :: rest)).take 8)) = _
    rw [List.take_left' (length_toLe 8 _), ofLe_toLe_of_lt hlen]
  refine ⟨hword, ?_, ?_⟩
  · unfold turn
    rw [hnewline]
    cases heq : (f.encode ++ rest).idxOf? 0x3D with
    | none => rfl
    | some eq => exact if_neg (hequals eq heq)
  · unfold lengthWord
    rw [hnewline]
    cases heq : (f.encode ++ rest).idxOf? 0x3D with
    | none => exact hword
    | some eq => exact (if_neg (hequals eq heq)).trans hword

theorem turn_binaryField (f : SentField) (hf : f.binary = true) (hlen : f.value.length < 2 ^ 64)
    (rest : Bytes) :
    turn (f.encode ++ rest) = (f.encode.length, some (asBytes f.name, f.value)) := by
  obtain ⟨hword, hturn, -⟩ := lengthWord_binaryField f hf hlen rest
  have hlong : (asBytes f.name).length + 9 + f.value.length ≤ (f.encode ++ rest).length := by
    rw [List.length_append, length_encode_binary f hf]
    omega
  have hdrop : (f.encode ++ rest).drop ((asBytes f.name).length + 9) =
      f.value ++ 0x0A :: rest := by
    rw [encode_binary f hf, ← List.drop_drop, List.drop_left]
    show (toLe 8 f.value.length ++ (f.value ++ 0x0A :: rest)).drop 8 = _
    exact List.drop_left' (length_toLe 8 _)
  have hget : (f.encode ++ rest)[(asBytes f.name).length + 9 + f.value.length]? = some 0x0A := by
    rw [← List.getElem?_drop, hdrop, List.getElem?_append_right (Nat.le_refl _), Nat.sub_self]
    rfl
  rw [hturn, turnBehind, hword]
  dsimp only
  rw [if_pos hlong, if_pos hget, hdrop, List.take_left, length_encode_binary f hf,
    encode_binary f hf, List.take_left]

theorem turn_encode (f : SentField) (hlen : f.value.length < 2 ^ 64) (rest : Bytes) :
    turn (f.encode ++ rest) = (f.encode.length, some (asBytes f.name, f.value)) := by
  cases hf : f.binary with
  | false => exact turn_textField f hf rest
  | true => exact turn_binaryField f hf hlen rest

theorem lengthWord_textField (f : SentField) (hf : f.binary = false) (rest : Bytes) :
    lengthWord (f.encode ++ rest) = none := by
  have hencode : f.encode ++ rest = asBytes f.name ++ 0x3D :: (f.value ++ 0x0A :: rest) := by
    rw [SentField.encode, hf, textField]
    simp
  have hbehind : (0x0A : UInt8) ∉ asBytes f.name ++ [0x3D] := by
    rw [List.mem_append, List.mem_singleton, not_or]
    exact ⟨f.newline_not_mem, by decide⟩
  rw [hencode, lengthWord, idxOf?_append f.equals_not_mem]
  cases hnl : (asBytes f.name ++ 0x3D :: (f.value ++ 0x0A :: rest)).idxOf? 0x0A with
  | none => rfl
  | some nl =>
    dsimp only
    rw [if_pos]
    rw [← List.singleton_append, ← List.append_assoc] at hnl
    have hle := le_of_idxOf? hbehind hnl
    rw [List.length_append, List.length_singleton] at hle
    omega

theorem not_overlong_encode (f : SentField) (hlen : f.value.length < 2 ^ 63) (rest : Bytes) :
    ¬ Overlong (f.encode ++ rest) := by
  rintro ⟨len, hword, hover⟩
  cases hf : f.binary with
  | false =>
    rw [lengthWord_textField f hf rest] at hword
    cases hword
  | true =>
    obtain ⟨-, -, hsome⟩ := lengthWord_binaryField f hf (by omega) rest
    rw [hsome] at hword
    have := Option.some.inj hword
    omega

/-- The last field without its newline. -/
theorem turn_bare (f : SentField) (hf : f.binary = false) :
    turn (asBytes f.name ++ 0x3D :: f.value) =
        ((asBytes f.name ++ 0x3D :: f.value).length, some (asBytes f.name, f.value)) ∧
      ¬ Overlong (asBytes f.name ++ 0x3D :: f.value) := by
  have hnewline : (asBytes f.name ++ 0x3D :: f.value).idxOf? 0x0A = none := by
    rw [List.idxOf?_eq_none_iff, List.mem_append, List.mem_cons, not_or, not_or]
    exact ⟨f.newline_not_mem, by decide, f.text hf⟩
  constructor
  · rw [turn, idxOf?_append f.equals_not_mem, hnewline]
    dsimp only
    rw [List.take_left, ← List.drop_drop, List.drop_left]
    rfl
  · rw [Overlong, lengthWord, idxOf?_append f.equals_not_mem, hnewline]
    simp

theorem length_value_lt (f : SentField) : f.value.length < f.encode.length := by
  cases hf : f.binary with
  | false =>
    rw [SentField.encode, hf, textField]
    simp
    omega
  | true =>
    rw [length_encode_binary f hf]
    omega

/-- The loop reads the fields one by one. -/
theorem nativeLoop_encodes {checks : Bool} {data : Bytes} (hlen : data.length < 2 ^ 63)
    {fs : List SentField} {rest : Bytes} (h : Encodes fs rest) {fuel pos : ℕ} {fields : Fields}
    (hrest : data.drop pos = rest) (hfuel : rest.length < fuel) :
    nativeLoop checks data fuel pos fields =
      .ok (fs.foldl (fun m f => m.insert f.name f.value) fields) := by
  have hlength : rest.length = data.length - pos := by rw [← hrest, List.length_drop]
  obtain ⟨fuel, rfl⟩ : ∃ n, fuel = n + 1 := ⟨fuel - 1, by omega⟩
  induction h generalizing fuel pos fields with
  | nil =>
    rw [nativeLoop, if_neg (by rw [List.length_nil] at hlength; omega)]
    rfl
  | @cons fs bytes f h ih =>
    have hvalue := length_value_lt f
    rw [List.length_append] at hlength hfuel
    have hpos : pos < data.length := by omega
    have hdrop : data.drop (pos + f.encode.length) = bytes := by
      rw [← List.drop_drop, hrest, List.drop_left]
    rw [nativeLoop, if_pos hpos,
      nativeTurn_ok hlen hrest hpos (not_overlong_encode f (by omega) bytes), ok_bind,
      turn_encode f (by omega)]
    dsimp only [addField]
    rw [insertField_name]
    obtain ⟨more, hmore⟩ : ∃ n, fuel = n + 1 := ⟨fuel - 1, by omega⟩
    subst hmore
    rw [ih hdrop (by rw [← hdrop, List.length_drop]) more (by omega)]
    rfl
  | bare f hf =>
    rw [List.length_append, List.length_cons] at hlength hfuel
    have hpos : pos < data.length := by omega
    obtain ⟨hturn, hover⟩ := turn_bare f hf
    have hend : ¬ pos + (asBytes f.name ++ 0x3D :: f.value).length < data.length := by
      rw [List.length_append, List.length_cons]
      omega
    rw [nativeLoop, if_pos hpos, nativeTurn_ok hlen hrest hpos hover, ok_bind, hturn]
    dsimp only [addField]
    obtain ⟨more, hmore⟩ : ∃ n, fuel = n + 1 := ⟨fuel - 1, by omega⟩
    subst hmore
    rw [insertField_name, nativeLoop, if_neg hend]
    rfl

/-- Fields with different names are read back, whatever their values and encodings are. -/
theorem parseNativeMessage_encoded (checks : Bool) (realtimeUsec monotonicUsec : UInt64)
    {fs : List SentField} (datagram : Datagram) (h : Encodes fs datagram.bytes)
    (hnames : (fs.map SentField.name).Nodup) :
    ∃ entry, parseNativeMessage checks datagram.bytes realtimeUsec monotonicUsec = .ok entry ∧
      entry.fields.pairs.Perm (fs.map SentField.pair) := by
  have hloop : nativeLoop checks datagram.bytes (datagram.bytes.length + 1) 0 SortedMap.empty =
      .ok (fs.foldl (fun m f => m.insert f.name f.value) SortedMap.empty) :=
    nativeLoop_encodes datagram.length_lt h (List.drop_zero) (Nat.lt_succ_self _)
  have hfold : fs.foldl (fun m f => m.insert f.name f.value) SortedMap.empty =
      (fs.map SentField.pair).foldl (fun m p => m.insert p.1 p.2) (SortedMap.empty : Fields) := by
    rw [List.foldl_map]
    rfl
  have hne : (fs.map SentField.pair).Pairwise fun a b => a.1 ≠ b.1 := by
    rw [List.pairwise_map]
    exact List.pairwise_map.mp hnames
  refine ⟨_, by rw [parseNativeMessage, hloop]; rfl, ?_⟩
  rw [hfold, List.perm_ext_iff_of_nodup]
  · intro p
    rw [SortedMap.mem_foldl_insert hne]
    simp [SortedMap.empty]
  · exact (SortedMap.sorted _).imp fun hlt heq => absurd hlt (by rw [heq]; exact lt_irrefl _)
  · exact hne.imp fun hab heq => hab (by rw [heq])

end Decode

/-- A value with a newline, and a text field without one at the end. -/
def mixedFields : List SentField :=
  [⟨"A", [0x0A], true, by decide, fun h => Bool.noConfusion h⟩, ⟨"B", [0x62], false, by decide,
    fun _ => by decide⟩]

def mixedDatagram : Datagram :=
  ⟨[0x41, 0x0A] ++ (toLe 8 1 ++ [0x0A, 0x0A, 0x42, 0x3D, 0x62]), by decide⟩

theorem parseNativeMessage_mixed : ∃ entry,
    parseNativeMessage true mixedDatagram.bytes 0 0 = .ok entry ∧
      entry.fields.pairs.Perm (mixedFields.map SentField.pair) :=
  parseNativeMessage_encoded true 0 0 mixedDatagram
    (Encodes.cons _ (Encodes.bare _ rfl)) (by decide)

end OxidizedSystemd.Journal.Native
