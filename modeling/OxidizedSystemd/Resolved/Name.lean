import OxidizedSystemd.Lib.Text
import OxidizedSystemd.Lib.LittleEndian

/-!
# Domain names on the wire

Model of `parse_name` (`resolved/src/dns.rs`, lines 531–605), which turns a name of
a DNS message into text, and the labels that the message has there (`NameAt`).

* `nameAt_unique`: a message has one sequence of labels at an offset.
* `parseName_ok`: what `parse_name` returns is the text of the labels at the offset,
  and the offset behind the name.
* `parseNameLoop_fuel`: the loop ends by itself.
-/

namespace OxidizedSystemd.Resolved

open OxidizedSystemd.Lib

/-- `MAX_NAME_LENGTH` (line 32). -/
def maxNameLength : ℕ := 255

/-- `MAX_LABEL_LENGTH` (line 35). -/
def maxLabelLength : ℕ := 63

/-- `HEADER_SIZE` (line 38). -/
def headerSize : ℕ := 12

/-- `MAX_COMPRESSION_HOPS` (line 50). -/
def maxCompressionHops : ℕ := 128

/-- The errors of `DnsError` that parsing a name has. -/
inductive DnsError where
  | tooShort
  | compressionLoop
  | labelTooLong
  | nameTooLong
  deriving DecidableEq, Repr

/-- `str::to_ascii_lowercase`. -/
def toAsciiLowercase (cs : List Char) : List Char := cs.map Char.toLower

/-- `u16::from_be_bytes` of the two bytes at an offset that the caller has checked. -/
def be16 (data : Bytes) (pos : ℕ) : ℕ :=
  (data.getD pos 0).toNat * 256 + (data.getD (pos + 1) 0).toNat

/-- The offset of a compression pointer (line 558). -/
def pointerTarget (hi lo : UInt8) : ℕ := ((hi.toNat &&& 0x3F) <<< 8) ||| lo.toNat

/-- One byte of a label in the text (lines 587–592): itself, or `\DDD` if it is not
    ASCII. -/
def escapeByte (b : UInt8) : List Char :=
  if b < 0x80 then [Char.ofNat b.toNat]
  else ['\\', Nat.digitChar (b.toNat / 100), Nat.digitChar (b.toNat / 10 % 10),
    Nat.digitChar (b.toNat % 10)]

/-- A label behind the text that is there already (lines 580–593). -/
def appendLabel (name : List Char) (label : Bytes) : List Char :=
  (if name.isEmpty then name else name ++ ['.']) ++ label.flatMap escapeByte

/-- The name behind the loop (lines 600–602). -/
def nameOrRoot (name : List Char) : List Char := if name.isEmpty then ['.'] else name

/-- At most `fuel` turns of the loop of `parse_name` (lines 537–598), and what follows it. -/
def parseNameLoop (data : Bytes) :
    ℕ → List Char → ℕ → ℕ → Option ℕ → Except DnsError (List Char × ℕ)
  | 0, _, _, _, _ => .error .nameTooLong
  | fuel + 1, name, offset, hops, endOffset =>
    match data[offset]? with
    | none => .error .tooShort
    | some b =>
      let len := b.toNat
      if len = 0 then
        .ok (nameOrRoot name, endOffset.getD (offset + 1))
      else if len &&& 0xC0 = 0xC0 then
        match data[offset + 1]? with
        | none => .error .tooShort
        | some lo =>
          if hops + 1 > maxCompressionHops then .error .compressionLoop
          else
            parseNameLoop data fuel name (pointerTarget b lo) (hops + 1)
              (some (endOffset.getD (offset + 2)))
      else if len > maxLabelLength then .error .labelTooLong
      else if offset + 1 + len > data.length then .error .tooShort
      else
        let name := appendLabel name ((data.drop (offset + 1)).take len)
        if name.length > maxNameLength then .error .nameTooLong
        else parseNameLoop data fuel name (offset + 1 + len) hops endOffset

/-- `parse_name` (lines 531–605). A turn lengthens the name or counts a hop, so it has at
    most one turn for every character and every hop, and the last one. -/
def parseName (data : Bytes) (start : ℕ) : Except DnsError (List Char × ℕ) :=
  parseNameLoop data (maxNameLength + maxCompressionHops + 1) [] start 0 none

/-! ## The labels of a message -/

/-- The message has these labels at an offset, and `behind` is the offset behind them. -/
inductive NameAt (data : Bytes) : ℕ → List Bytes → ℕ → Prop where
  | root {offset : ℕ} (h : data[offset]? = some 0) : NameAt data offset [] (offset + 1)
  | label {offset : ℕ} {b : UInt8} {labels : List Bytes} {behind : ℕ}
      (h : data[offset]? = some b) (hne : b.toNat ≠ 0) (hptr : b.toNat &&& 0xC0 ≠ 0xC0)
      (hlen : b.toNat ≤ maxLabelLength) (hfit : offset + 1 + b.toNat ≤ data.length)
      (rest : NameAt data (offset + 1 + b.toNat) labels behind) :
      NameAt data offset ((data.drop (offset + 1)).take b.toNat :: labels) behind
  | pointer {offset : ℕ} {hi lo : UInt8} {labels : List Bytes} {behind : ℕ}
      (h : data[offset]? = some hi) (hptr : hi.toNat &&& 0xC0 = 0xC0)
      (hlo : data[offset + 1]? = some lo)
      (rest : NameAt data (pointerTarget hi lo) labels behind) :
      NameAt data offset labels (offset + 2)

variable {data : Bytes} {offset behind behind' : ℕ} {labels labels' : List Bytes}

/-- A label that is there has at least one byte. -/
theorem take_label_ne_nil {n : ℕ} (hne : n ≠ 0) (hfit : offset + 1 + n ≤ data.length) :
    (data.drop (offset + 1)).take n ≠ [] := by
  intro hnil
  have hlength := congrArg List.length hnil
  rw [List.length_take, List.length_drop, List.length_nil] at hlength
  omega

/-- A pointer does not begin like the root. -/
theorem ne_zero_of_pointer {n : ℕ} (hptr : n &&& 0xC0 = 0xC0) : n ≠ 0 := by
  rintro rfl
  exact absurd hptr (by decide)

theorem nameAt_unique (h : NameAt data offset labels behind)
    (h' : NameAt data offset labels' behind') : labels = labels' ∧ behind = behind' := by
  induction h generalizing labels' behind' with
  | root hb =>
    cases h' with
    | root _ => exact ⟨rfl, rfl⟩
    | label hb' hne => exact absurd (by rw [← Option.some.inj (hb.symm.trans hb')]; rfl) hne
    | pointer hb' hptr =>
      rw [← Option.some.inj (hb.symm.trans hb')] at hptr
      exact absurd rfl (ne_zero_of_pointer hptr)
  | label hb hne hptr _ _ _ ih =>
    cases h' with
    | root hb' => exact absurd (by rw [Option.some.inj (hb.symm.trans hb')]; rfl) hne
    | label hb' _ _ _ _ rest =>
      obtain rfl := Option.some.inj (hb.symm.trans hb')
      obtain ⟨hlabels, hbehind⟩ := ih rest
      exact ⟨by rw [hlabels], hbehind⟩
    | pointer hb' hptr' =>
      rw [← Option.some.inj (hb.symm.trans hb')] at hptr'
      exact absurd hptr' hptr
  | pointer hb hptr hlo _ ih =>
    cases h' with
    | root hb' =>
      rw [Option.some.inj (hb.symm.trans hb')] at hptr
      exact absurd rfl (ne_zero_of_pointer hptr)
    | label hb' _ hptr' =>
      rw [← Option.some.inj (hb.symm.trans hb')] at hptr'
      exact absurd hptr hptr'
    | pointer hb' _ hlo' rest =>
      obtain rfl := Option.some.inj (hb.symm.trans hb')
      obtain rfl := Option.some.inj (hlo.symm.trans hlo')
      exact ⟨(ih rest).1, rfl⟩

/-- Labels on the wire have at least one byte. -/
theorem ne_nil_of_nameAt (h : NameAt data offset labels behind) : ∀ l ∈ labels, l ≠ [] := by
  induction h with
  | root _ => intro l hl; cases hl
  | label _ hne _ _ hfit _ ih =>
    intro l hl
    cases List.mem_cons.mp hl with
    | inl heq =>
      rw [heq]
      exact take_label_ne_nil hne hfit
    | inr htail => exact ih l htail
  | pointer _ _ _ _ ih => exact ih

/-! ## The loop reads the labels -/

/-- The text of a name in which `name` has been read already. -/
def textBehind (name : List Char) (labels : List Bytes) : List Char :=
  nameOrRoot (labels.foldl appendLabel name)

theorem parseNameLoop_ok {fuel hops : ℕ} {name text : List Char} {endOffset : Option ℕ}
    (h : parseNameLoop data fuel name offset hops endOffset = .ok (text, behind)) :
    ∃ labels last, NameAt data offset labels last ∧ text = textBehind name labels ∧
      behind = endOffset.getD last := by
  induction fuel generalizing name offset hops endOffset with
  | zero => simp [parseNameLoop] at h
  | succ fuel ih =>
    rw [parseNameLoop] at h
    cases hb : data[offset]? with
    | none => simp [hb] at h
    | some b =>
      rw [hb] at h
      dsimp only at h
      by_cases hroot : b.toNat = 0
      · rw [if_pos hroot] at h
        have hzero : b = 0 := UInt8.toNat_inj.mp hroot
        obtain ⟨rfl, rfl⟩ := Prod.mk.inj (Except.ok.inj h)
        exact ⟨[], offset + 1, NameAt.root (hzero ▸ hb), rfl, rfl⟩
      rw [if_neg hroot] at h
      by_cases hptr : b.toNat &&& 0xC0 = 0xC0
      · rw [if_pos hptr] at h
        cases hlo : data[offset + 1]? with
        | none => simp [hlo] at h
        | some lo =>
          rw [hlo] at h
          dsimp only at h
          split at h
          · simp at h
          · obtain ⟨labels, last, hname, htext, hbehind⟩ := ih h
            exact ⟨labels, offset + 2, NameAt.pointer hb hptr hlo hname, htext, hbehind⟩
      · rw [if_neg hptr] at h
        split_ifs at h with hlong hfit hlength
        obtain ⟨labels, last, hname, htext, hbehind⟩ := ih h
        exact ⟨_, last, NameAt.label hb hroot hptr (by omega) (by omega) hname, htext, hbehind⟩

theorem parseName_ok {start : ℕ} {text : List Char}
    (h : parseName data start = .ok (text, behind)) :
    ∃ labels, NameAt data start labels behind ∧ text = textBehind [] labels := by
  obtain ⟨labels, last, hname, htext, hbehind⟩ := parseNameLoop_ok h
  rw [Option.getD_none] at hbehind
  exact ⟨labels, hbehind ▸ hname, htext⟩

/-! ## The loop ends -/

theorem length_lt_appendLabel (name : List Char) {label : Bytes} (h : label ≠ []) :
    name.length < (appendLabel name label).length := by
  obtain ⟨b, bs, rfl⟩ := List.exists_cons_of_ne_nil h
  have hone : 0 < (escapeByte b).length := by
    unfold escapeByte
    split <;> exact Nat.succ_pos _
  unfold appendLabel
  rw [List.length_append, List.flatMap_cons, List.length_append]
  split
  · omega
  · rw [List.length_append]
    omega

/-- Enough fuel for the characters and hops that are still allowed gives one result. -/
theorem parseNameLoop_fuel {fuel fuel' hops : ℕ} {name : List Char} {endOffset : Option ℕ}
    (hname : name.length ≤ maxNameLength) (hhops : hops ≤ maxCompressionHops)
    (h : maxNameLength + maxCompressionHops < fuel + name.length + hops)
    (h' : maxNameLength + maxCompressionHops < fuel' + name.length + hops) :
    parseNameLoop data fuel name offset hops endOffset =
      parseNameLoop data fuel' name offset hops endOffset := by
  induction fuel generalizing fuel' name offset hops endOffset with
  | zero => omega
  | succ fuel ih =>
    obtain ⟨fuel', rfl⟩ : ∃ n, fuel' = n + 1 := ⟨fuel' - 1, by omega⟩
    rw [parseNameLoop, parseNameLoop]
    cases data[offset]? with
    | none => rfl
    | some b =>
      dsimp only
      by_cases hroot : b.toNat = 0
      · rw [if_pos hroot, if_pos hroot]
      rw [if_neg hroot, if_neg hroot]
      by_cases hptr : b.toNat &&& 0xC0 = 0xC0
      · rw [if_pos hptr, if_pos hptr]
        cases data[offset + 1]? with
        | none => rfl
        | some lo =>
          dsimp only
          split
          · rfl
          · exact ih hname (by omega) (by omega) (by omega)
      rw [if_neg hptr, if_neg hptr]
      split_ifs with hlong hfit hlength
      · rfl
      · rfl
      · rfl
      · have hlonger := length_lt_appendLabel name (take_label_ne_nil hroot (Nat.not_lt.mp hfit))
        exact ih (by omega) hhops (by omega) (by omega)

end OxidizedSystemd.Resolved
