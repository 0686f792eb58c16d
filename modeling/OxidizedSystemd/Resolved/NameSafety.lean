import OxidizedSystemd.Lib.Faults
import OxidizedSystemd.Resolved.Name

/-!
# Names of a message that is not trusted

`parse_name` (`resolved/src/dns.rs`, lines 531–605) with every sum, index and slice that it
computes. A sum that leaves the words and an access outside the message are faults, and so is a loop
that takes more turns than it is given.

* `readNameTurn_ok`: a turn has no fault.
* `readNameLoop_eq`: the loop reads what `parse_name` reads.
* `parseName_safe`: for any message and offset there is no fault, and the offset behind the name
  lies behind its start and inside the message.
-/

namespace OxidizedSystemd.Resolved

open OxidizedSystemd.Lib

/-! ## The source -/

/-- What `parse_name` returns: the name and the offset behind it. -/
abbrev ParsedName := Except DnsError (List Char × ℕ)

/-- The variables of the loop (lines 532–535). -/
structure NameCursor where
  name : List Char
  offset : ℕ
  hops : ℕ
  endOffset : Option ℕ

/-- How a turn of the loop ends. -/
inductive NameTurn where
  | done (result : ParsedName)
  | next (cursor : NameCursor)

/-- `if end_offset.is_none() { end_offset = Some(offset + n); }`. -/
def markEnd (checks : Bool) (endOffset : Option ℕ) (offset n : ℕ) : Faulty ℕ :=
  match endOffset with
  | some e => .ok e
  | none => add checks offset n

/-- A compression pointer (lines 553–570). -/
def readPointer (checks : Bool) (data : Bytes) (c : NameCursor) (b : UInt8) : Faulty NameTurn := do
  if (← add checks c.offset 1) ≥ data.length then return .done (.error .tooShort)
  else
    let lo ← index data (← add checks c.offset 1)
    let e ← markEnd checks c.endOffset c.offset 2
    if c.hops + 1 > maxCompressionHops then return .done (.error .compressionLoop)
    else return .next ⟨c.name, pointerTarget b lo, c.hops + 1, some e⟩

/-- A label (lines 572–597). -/
def readLabel (checks : Bool) (data : Bytes) (c : NameCursor) (b : UInt8) : Faulty NameTurn := do
  if b.toNat > maxLabelLength then return .done (.error .labelTooLong)
  else
    let offset ← add checks c.offset 1
    if (← add checks offset b.toNat) > data.length then return .done (.error .tooShort)
    else
      let label ← slice data offset (← add checks offset b.toNat)
      let name := appendLabel c.name label
      let offset ← add checks offset b.toNat
      if name.length > maxNameLength then return .done (.error .nameTooLong)
      else return .next ⟨name, offset, c.hops, c.endOffset⟩

/-- A turn of the loop (lines 538–597), and what follows the loop. -/
def readNameTurn (checks : Bool) (data : Bytes) (c : NameCursor) : Faulty NameTurn := do
  if c.offset ≥ data.length then return .done (.error .tooShort)
  else
    let b ← index data c.offset
    if b.toNat = 0 then
      return .done (.ok (nameOrRoot c.name, ← markEnd checks c.endOffset c.offset 1))
    else if b.toNat &&& 0xC0 = 0xC0 then readPointer checks data c b
    else readLabel checks data c b

/-- At most `fuel` turns of the loop. -/
def readNameLoop (checks : Bool) (data : Bytes) : ℕ → NameCursor → Faulty ParsedName
  | 0, _ => .error .endless
  | fuel + 1, c => do
    match ← readNameTurn checks data c with
    | .done result => return result
    | .next c => readNameLoop checks data fuel c

/-- The variables in front of the loop. -/
def NameCursor.start (offset : ℕ) : NameCursor := ⟨[], offset, 0, none⟩

/-! ## A turn -/

/-- What a turn does, without its faults. -/
def nameTurn (data : Bytes) (c : NameCursor) : NameTurn :=
  match data[c.offset]? with
  | none => .done (.error .tooShort)
  | some b =>
    if b.toNat = 0 then .done (.ok (nameOrRoot c.name, c.endOffset.getD (c.offset + 1)))
    else if b.toNat &&& 0xC0 = 0xC0 then
      match data[c.offset + 1]? with
      | none => .done (.error .tooShort)
      | some lo =>
        if c.hops + 1 > maxCompressionHops then .done (.error .compressionLoop)
        else
          .next ⟨c.name, pointerTarget b lo, c.hops + 1, some (c.endOffset.getD (c.offset + 2))⟩
    else if b.toNat > maxLabelLength then .done (.error .labelTooLong)
    else if c.offset + 1 + b.toNat > data.length then .done (.error .tooShort)
    else
      let name := appendLabel c.name ((data.drop (c.offset + 1)).take b.toNat)
      if name.length > maxNameLength then .done (.error .nameTooLong)
      else .next ⟨name, c.offset + 1 + b.toNat, c.hops, c.endOffset⟩

section Turn

variable {checks : Bool} {data : Bytes} {c : NameCursor}

theorem markEnd_ok {n : ℕ} (h : c.offset + n < 2 ^ 64) :
    markEnd checks c.endOffset c.offset n = .ok (c.endOffset.getD (c.offset + n)) := by
  cases c.endOffset with
  | some e => rfl
  | none => exact add_ok h

/-- No sum of a turn leaves the words, and no access leaves the message. -/
theorem readNameTurn_ok (hlen : data.length < 2 ^ 63) :
    readNameTurn checks data c = .ok (nameTurn data c) := by
  unfold readNameTurn nameTurn
  by_cases hin : c.offset < data.length
  swap
  · rw [if_pos (Nat.not_lt.mp hin), List.getElem?_eq_none (Nat.not_lt.mp hin)]
    rfl
  rw [if_neg (Nat.not_le.mpr hin), index_ok hin, List.getElem?_eq_getElem hin]
  simp only [ok_bind]
  generalize data[c.offset] = b
  have hb := b.toNat_lt
  by_cases hroot : b.toNat = 0
  · rw [if_pos hroot, if_pos hroot, markEnd_ok (by omega)]
    rfl
  rw [if_neg hroot, if_neg hroot]
  by_cases hptr : b.toNat &&& 0xC0 = 0xC0
  · rw [if_pos hptr, if_pos hptr, readPointer, add_ok (by omega)]
    simp only [ok_bind]
    by_cases hlo : c.offset + 1 < data.length
    · rw [if_neg (Nat.not_le.mpr hlo), index_ok hlo, List.getElem?_eq_getElem hlo,
        markEnd_ok (by omega)]
      simp only [ok_bind]
      split <;> rfl
    · rw [if_pos (Nat.not_lt.mp hlo), List.getElem?_eq_none (Nat.not_lt.mp hlo)]
      rfl
  rw [if_neg hptr, if_neg hptr, readLabel]
  by_cases hlong : b.toNat > maxLabelLength
  · rw [if_pos hlong, if_pos hlong]
    rfl
  rw [if_neg hlong, if_neg hlong, add_ok (by omega)]
  simp only [ok_bind]
  rw [add_ok (by omega)]
  simp only [ok_bind]
  by_cases hfit : c.offset + 1 + b.toNat > data.length
  · rw [if_pos hfit, if_pos hfit]
    rfl
  rw [if_neg hfit, if_neg hfit, slice_ok (Nat.le_add_right _ _) (Nat.not_lt.mp hfit),
    Nat.add_sub_cancel_left]
  simp only [ok_bind]
  split <;> rfl

end Turn

/-! ## The loop -/

/-- One turn of `parse_name` and the turns behind it. -/
theorem parseNameLoop_succ (data : Bytes) (fuel : ℕ) (c : NameCursor) :
    parseNameLoop data (fuel + 1) c.name c.offset c.hops c.endOffset =
      match nameTurn data c with
      | .done result => result
      | .next c => parseNameLoop data fuel c.name c.offset c.hops c.endOffset := by
  rw [parseNameLoop, nameTurn]
  cases data[c.offset]? with
  | none => rfl
  | some b =>
    dsimp only
    by_cases hroot : b.toNat = 0
    · rw [if_pos hroot, if_pos hroot]
    rw [if_neg hroot, if_neg hroot]
    by_cases hptr : b.toNat &&& 0xC0 = 0xC0
    · rw [if_pos hptr, if_pos hptr]
      cases data[c.offset + 1]? with
      | none => rfl
      | some lo =>
        dsimp only
        split <;> rfl
    rw [if_neg hptr, if_neg hptr]
    split_ifs <;> rfl

/-- How a turn goes on: through a pointer, or behind a label. -/
theorem nameTurn_next_cases {data : Bytes} {c c' : NameCursor} (h : nameTurn data c = .next c') :
    (∃ hi lo, data[c.offset]? = some hi ∧ hi.toNat &&& 0xC0 = 0xC0 ∧
      data[c.offset + 1]? = some lo ∧ c.hops + 1 ≤ maxCompressionHops ∧
      c' = ⟨c.name, pointerTarget hi lo, c.hops + 1, some (c.endOffset.getD (c.offset + 2))⟩) ∨
    ∃ b, data[c.offset]? = some b ∧ b.toNat ≠ 0 ∧ b.toNat &&& 0xC0 ≠ 0xC0 ∧
      b.toNat ≤ maxLabelLength ∧ c.offset + 1 + b.toNat ≤ data.length ∧
      (appendLabel c.name ((data.drop (c.offset + 1)).take b.toNat)).length ≤ maxNameLength ∧
      c' = ⟨appendLabel c.name ((data.drop (c.offset + 1)).take b.toNat),
        c.offset + 1 + b.toNat, c.hops, c.endOffset⟩ := by
  rw [nameTurn] at h
  cases hb : data[c.offset]? with
  | none => simp [hb] at h
  | some b =>
    rw [hb] at h
    dsimp only at h
    by_cases hroot : b.toNat = 0
    · simp [if_pos hroot] at h
    rw [if_neg hroot] at h
    by_cases hptr : b.toNat &&& 0xC0 = 0xC0
    · rw [if_pos hptr] at h
      cases hlo : data[c.offset + 1]? with
      | none => simp [hlo] at h
      | some lo =>
        rw [hlo] at h
        dsimp only at h
        split at h
        · cases h
        · rename_i hhops
          exact .inl ⟨b, lo, rfl, hptr, rfl, Nat.not_lt.mp hhops, (NameTurn.next.inj h).symm⟩
    rw [if_neg hptr] at h
    split_ifs at h with hlong hfit hname
    exact .inr ⟨b, rfl, hroot, hptr, Nat.not_lt.mp hlong, Nat.not_lt.mp hfit,
      Nat.not_lt.mp hname, (NameTurn.next.inj h).symm⟩

/-- The bounds of `parse_name` on what it has read. -/
structure CursorWithin (c : NameCursor) : Prop where
  name : c.name.length ≤ maxNameLength
  hops : c.hops ≤ maxCompressionHops

/-- The characters and hops of a cursor. -/
def NameCursor.progress (c : NameCursor) : ℕ := c.name.length + c.hops

/-- A turn that is not the last one adds a character or counts a hop, within the bounds. -/
theorem nameTurn_next {data : Bytes} {c c' : NameCursor} (h : nameTurn data c = .next c')
    (hc : CursorWithin c) : CursorWithin c' ∧ c.progress < c'.progress := by
  obtain ⟨hi, lo, -, -, -, hhops, rfl⟩ | ⟨b, -, hne, -, -, hfit, hname, rfl⟩ :=
    nameTurn_next_cases h
  · refine ⟨⟨hc.name, hhops⟩, ?_⟩
    simp only [NameCursor.progress]
    omega
  · have hlonger := length_lt_appendLabel c.name (take_label_ne_nil hne hfit)
    refine ⟨⟨hname, hc.hops⟩, ?_⟩
    simp only [NameCursor.progress]
    omega

/-- The loop has no fault and reads what `parse_name` reads, if it is given a turn for each
    character and each hop that are still allowed. -/
theorem readNameLoop_eq {checks : Bool} {data : Bytes} (hlen : data.length < 2 ^ 63) {fuel : ℕ}
    {c : NameCursor} (hc : CursorWithin c)
    (hfuel : maxNameLength + maxCompressionHops < fuel + c.progress) :
    readNameLoop checks data fuel c =
      .ok (parseNameLoop data fuel c.name c.offset c.hops c.endOffset) := by
  induction fuel generalizing c with
  | zero =>
    have hname := hc.name
    have hhops := hc.hops
    rw [NameCursor.progress] at hfuel
    omega
  | succ fuel ih =>
    rw [readNameLoop, readNameTurn_ok hlen, ok_bind, parseNameLoop_succ]
    cases hturn : nameTurn data c with
    | done result => rfl
    | next c' =>
      obtain ⟨hc', hprogress⟩ := nameTurn_next hturn hc
      exact ih hc' (by omega)

/-- A name ends behind its start and inside the message. -/
theorem behind_of_nameAt {data : Bytes} {offset behind : ℕ} {labels : List Bytes}
    (h : NameAt data offset labels behind) : offset < behind ∧ behind ≤ data.length := by
  induction h with
  | root hb => exact ⟨Nat.lt_succ_self _, (List.getElem?_eq_some_iff.mp hb).1⟩
  | label _ _ _ _ _ _ ih => exact ⟨by omega, ih.2⟩
  | pointer _ _ hlo _ _ => exact ⟨by omega, (List.getElem?_eq_some_iff.mp hlo).1⟩

/-- A message: a slice, which has at most `isize::MAX` bytes. -/
structure MessageBytes where
  bytes : Bytes
  length_lt : bytes.length < 2 ^ 63

/-- `parse_name` ends after at most 384 turns, without a fault, whatever the pointers of the message
    lead to; and the offset behind a name lies behind its start and inside the message. -/
theorem parseName_safe (checks : Bool) (message : MessageBytes) (start : ℕ) :
    (∀ fuel, maxNameLength + maxCompressionHops < fuel →
      readNameLoop checks message.bytes fuel (.start start) =
        .ok (parseName message.bytes start)) ∧
    ∀ name behind, parseName message.bytes start = .ok (name, behind) →
      start < behind ∧ behind ≤ message.bytes.length := by
  constructor
  · intro fuel hfuel
    have hwithin : CursorWithin (.start start) := ⟨Nat.zero_le _, Nat.zero_le _⟩
    rw [readNameLoop_eq message.length_lt hwithin hfuel, parseName]
    refine congrArg Except.ok (parseNameLoop_fuel ?_ ?_ ?_ ?_)
    · exact Nat.zero_le _
    · exact Nat.zero_le _
    · exact hfuel
    · exact Nat.lt_succ_self _
  · intro name behind h
    obtain ⟨labels, hname, -⟩ := parseName_ok h
    exact behind_of_nameAt hname

end OxidizedSystemd.Resolved
