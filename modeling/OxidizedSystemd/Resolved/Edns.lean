import OxidizedSystemd.Resolved.Message

/-!
# Stripping OPT records

Model of `skip_name_in_message`, `skip_rr`, `strip_opt_from_message` and `has_opt_record`
(`resolved/src/edns.rs`, lines 476–588 and 717–775), and what they do to a message.

* `skipNameInMessageLoop_fuel`: the loop ends by itself.
* `skipNameInMessage_some`: what is skipped is a name as it is written there.
* `stripOptFromMessage_some`: what is stripped is the message without its OPT records.
* `hasOptRecord_bytes`: what is found is an OPT record of the message.
-/

namespace OxidizedSystemd.Resolved

open OxidizedSystemd.Lib

/-! ## The functions -/

/-- At most `fuel` turns of the loop of `skip_name_in_message` (lines 722–756). -/
def skipNameInMessageLoop (msg : Bytes) : ℕ → ℕ → ℕ → Option ℕ → Option ℕ
  | 0, _, _, _ => none
  | fuel + 1, offset, hops, endOffset =>
    match msg[offset]? with
    | none => none
    | some b =>
      let len := b.toNat
      if len = 0 then some (endOffset.getD (offset + 1))
      else if len &&& 0xC0 = 0xC0 then
        match msg[offset + 1]? with
        | none => none
        | some lo =>
          if hops + 1 > 128 then none
          else
            skipNameInMessageLoop msg fuel (pointerTarget b lo) (hops + 1)
              (some (endOffset.getD (offset + 2)))
      else if offset + 1 + len > msg.length then none
      else skipNameInMessageLoop msg fuel (offset + 1 + len) hops endOffset

/-- The turns that the loop can still make: each goes on in the message or follows a pointer. -/
def turnsLeft (msg : Bytes) (offset hops : ℕ) : ℕ :=
  (128 - hops) * (msg.length + 1) + (msg.length + 1 - offset)

/-- `skip_name_in_message`. -/
def skipNameInMessage (msg : Bytes) (start : ℕ) : Option ℕ :=
  skipNameInMessageLoop msg (turnsLeft msg 0 0 + 1) start 0 none

/-- `skip_rr`. -/
def skipRr (msg : Bytes) (start : ℕ) : Option ℕ :=
  (skipNameInMessage msg start).bind fun nameEnd =>
    if nameEnd + 10 > msg.length then none
    else
      let rrEnd := nameEnd + 10 + be16 msg (nameEnd + 8)
      if rrEnd > msg.length then none else some rrEnd

/-- The loop over the answers and the authorities. -/
def skipRrs (msg : Bytes) : ℕ → ℕ → Option ℕ
  | 0, offset => some offset
  | n + 1, offset => (skipRr msg offset).bind (skipRrs msg n)

/-- The loop over the questions in `strip_opt_from_message` (lines 500–506). -/
def stripSkipQuestions (msg : Bytes) : ℕ → ℕ → Option ℕ
  | 0, offset => some offset
  | n + 1, offset =>
    (skipNameInMessage msg offset).bind fun offset =>
      if offset + 4 > msg.length then none else stripSkipQuestions msg n (offset + 4)

/-- The loop over the additional records (lines 520–537), with `result` and `new_arcount`. -/
def stripRecords (msg : Bytes) : ℕ → ℕ → Bytes → ℕ → Option (Bytes × ℕ)
  | 0, _, result, newArcount => some (result, newArcount)
  | n + 1, pos, result, newArcount =>
    (skipNameInMessage msg pos).bind fun nameEnd =>
      if nameEnd + 10 > msg.length then none
      else
        let rrEnd := nameEnd + 10 + be16 msg (nameEnd + 8)
        if rrEnd > msg.length then none
        else if be16 msg nameEnd = optRecord then stripRecords msg n rrEnd result (newArcount - 1)
        else
          stripRecords msg n rrEnd (result ++ (msg.drop pos).take (rrEnd - pos)) newArcount

/-- `copy_from_slice` of the two bytes of a count. -/
def setBe16 (msg : Bytes) (pos v : ℕ) : Bytes :=
  (msg.set pos (UInt8.ofNat (v / 256))).set (pos + 1) (UInt8.ofNat v)

/-- `strip_opt_from_message`. -/
def stripOptFromMessage (msg : Bytes) : Option Bytes :=
  if msg.length < headerSize then none
  else
    let arcount := be16 msg 10
    if arcount = 0 then some msg
    else
      (stripSkipQuestions msg (be16 msg 4) headerSize).bind fun offset =>
        (skipRrs msg (be16 msg 6 + be16 msg 8) offset).bind fun additionalStart =>
          (stripRecords msg arcount additionalStart (msg.take additionalStart) arcount).map
            fun result => setBe16 result.1 10 result.2

/-- The loop over the questions in `has_opt_record` (lines 561–567). -/
def hasSkipQuestions (msg : Bytes) : ℕ → ℕ → Option ℕ
  | 0, offset => some offset
  | n + 1, offset =>
    (skipNameInMessage msg offset).bind fun offset => hasSkipQuestions msg n (offset + 4)

/-- The loop over the additional records (lines 579–594). -/
def findOptRecord (msg : Bytes) : ℕ → ℕ → Bool
  | 0, _ => false
  | n + 1, offset =>
    match skipNameInMessage msg offset with
    | none => false
    | some nameEnd =>
      if nameEnd + 10 ≤ msg.length then
        if be16 msg nameEnd = optRecord then true
        else findOptRecord msg n (nameEnd + 10 + be16 msg (nameEnd + 8))
      else false

/-- `has_opt_record`. -/
def hasOptRecord (msg : Bytes) : Bool :=
  if msg.length < headerSize then false
  else if be16 msg 10 = 0 then false
  else
    match (hasSkipQuestions msg (be16 msg 4) headerSize).bind
        (skipRrs msg (be16 msg 6 + be16 msg 8)) with
    | none => false
    | some offset => findOptRecord msg (be16 msg 10) offset

/-! ## The loop ends -/

variable {msg : Bytes}

theorem turnsLeft_pointer {offset hops : ℕ} (h : offset < msg.length) (hhops : hops < 128)
    (target : ℕ) : turnsLeft msg target (hops + 1) < turnsLeft msg offset hops := by
  rw [turnsLeft, turnsLeft, show 128 - hops = 128 - (hops + 1) + 1 by omega, Nat.succ_mul]
  omega

theorem turnsLeft_label {offset offset' : ℕ} (h : offset < msg.length) (hlt : offset < offset')
    (hops : ℕ) : turnsLeft msg offset' hops < turnsLeft msg offset hops := by
  rw [turnsLeft, turnsLeft]
  omega

/-- More fuel than there are turns left gives one result. -/
theorem skipNameInMessageLoop_fuel {fuel fuel' offset hops : ℕ} {endOffset : Option ℕ}
    (h : turnsLeft msg offset hops < fuel) (h' : turnsLeft msg offset hops < fuel') :
    skipNameInMessageLoop msg fuel offset hops endOffset =
      skipNameInMessageLoop msg fuel' offset hops endOffset := by
  induction fuel generalizing fuel' offset hops endOffset with
  | zero => omega
  | succ fuel ih =>
    obtain ⟨fuel', rfl⟩ : ∃ n, fuel' = n + 1 := ⟨fuel' - 1, by omega⟩
    rw [skipNameInMessageLoop, skipNameInMessageLoop]
    cases hb : msg[offset]? with
    | none => rfl
    | some b =>
      have hlt : offset < msg.length := (List.getElem?_eq_some_iff.mp hb).1
      dsimp only
      by_cases hroot : b.toNat = 0
      · rw [if_pos hroot, if_pos hroot]
      rw [if_neg hroot, if_neg hroot]
      by_cases hptr : b.toNat &&& 0xC0 = 0xC0
      · rw [if_pos hptr, if_pos hptr]
        cases msg[offset + 1]? with
        | none => rfl
        | some lo =>
          dsimp only
          by_cases hmore : hops + 1 > 128
          · rw [if_pos hmore, if_pos hmore]
          · have hturns := turnsLeft_pointer hlt (show hops < 128 by omega) (pointerTarget b lo)
            rw [if_neg hmore, if_neg hmore]
            exact ih (by omega) (by omega)
      rw [if_neg hptr, if_neg hptr]
      by_cases hfit : offset + 1 + b.toNat > msg.length
      · rw [if_pos hfit, if_pos hfit]
      · have hturns := turnsLeft_label hlt (show offset < offset + 1 + b.toNat by omega) hops
        rw [if_neg hfit, if_neg hfit]
        exact ih (by omega) (by omega)

/-! ## What is skipped -/

/-- Behind a pointer the loop only looks whether the name ends. -/
theorem skipNameInMessageLoop_end {fuel offset hops e e' : ℕ}
    (h : skipNameInMessageLoop msg fuel offset hops (some e) = some e') : e' = e := by
  induction fuel generalizing offset hops with
  | zero => simp [skipNameInMessageLoop] at h
  | succ fuel ih =>
    rw [skipNameInMessageLoop] at h
    cases hb : msg[offset]? with
    | none => simp [hb] at h
    | some b =>
      rw [hb] at h
      dsimp only at h
      by_cases hroot : b.toNat = 0
      · rw [if_pos hroot] at h
        exact (Option.some.inj h).symm
      rw [if_neg hroot] at h
      by_cases hptr : b.toNat &&& 0xC0 = 0xC0
      · rw [if_pos hptr] at h
        cases hlo : msg[offset + 1]? with
        | none => simp [hlo] at h
        | some lo =>
          rw [hlo] at h
          dsimp only at h
          split at h
          · cases h
          · exact ih h
      rw [if_neg hptr] at h
      split at h
      · cases h
      · exact ih h

theorem drop_eq_cons {pos : ℕ} {b : UInt8} (h : msg[pos]? = some b) :
    msg.drop pos = b :: msg.drop (pos + 1) := by
  obtain ⟨hlt, rfl⟩ := List.getElem?_eq_some_iff.mp h
  exact List.drop_eq_getElem_cons hlt

/-- What is skipped is a name as it is written there. -/
theorem skipNameInMessageLoop_some {fuel offset hops e : ℕ}
    (h : skipNameInMessageLoop msg fuel offset hops none = some e) :
    ∃ (n : WireName) (tail : Bytes), msg.drop offset = n.bytes ++ tail ∧
      e = offset + n.bytes.length := by
  induction fuel generalizing offset hops with
  | zero => simp [skipNameInMessageLoop] at h
  | succ fuel ih =>
    rw [skipNameInMessageLoop] at h
    cases hb : msg[offset]? with
    | none => simp [hb] at h
    | some b =>
      have hdrop := drop_eq_cons hb
      rw [hb] at h
      dsimp only at h
      by_cases hroot : b.toNat = 0
      · rw [if_pos hroot] at h
        obtain rfl : b = 0 := UInt8.toNat_inj.mp hroot
        exact ⟨rootName, msg.drop (offset + 1), hdrop, (Option.some.inj h).symm⟩
      rw [if_neg hroot] at h
      by_cases hptr : b.toNat &&& 0xC0 = 0xC0
      · rw [if_pos hptr] at h
        cases hlo : msg[offset + 1]? with
        | none => simp [hlo] at h
        | some lo =>
          rw [hlo] at h
          dsimp only at h
          split at h
          · cases h
          · have hend := skipNameInMessageLoop_end h
            refine ⟨pointerName b lo hptr, msg.drop (offset + 2), ?_, hend⟩
            rw [hdrop, drop_eq_cons hlo]
            rfl
      rw [if_neg hptr] at h
      split at h
      · cases h
      · rename_i hfit
        obtain ⟨n, tail, hn, rfl⟩ := ih h
        have hlen : ((msg.drop (offset + 1)).take b.toNat).length = b.toNat := by
          rw [List.length_take, List.length_drop]
          omega
        have hsplit := List.take_append_drop b.toNat (msg.drop (offset + 1))
        rw [List.drop_drop, hn] at hsplit
        rw [← hsplit] at hdrop
        generalize (msg.drop (offset + 1)).take b.toNat = label at hlen hdrop
        have hok : label ≠ [] ∧ label.length < 256 ∧ ¬IsPointer label.length := by
          refine ⟨?_, by rw [hlen]; exact b.toNat_lt, by rw [hlen]; exact hptr⟩
          intro hnil
          rw [hnil] at hlen
          exact hroot hlen.symm
        have hlabel : labelBytes label = b :: label := by
          rw [labelBytes, hlen, UInt8.ofNat_toNat]
        refine ⟨n.cons label hok, tail, ?_, ?_⟩
        · rw [hdrop, WireName.bytes_cons, hlabel, List.append_assoc, List.cons_append]
        · rw [WireName.bytes_cons, hlabel, List.length_append, List.length_cons, hlen]
          omega

theorem skipNameInMessage_some {pos e : ℕ} (h : skipNameInMessage msg pos = some e) :
    ∃ (n : WireName) (tail : Bytes), msg.drop pos = n.bytes ++ tail ∧
      e = pos + n.bytes.length :=
  skipNameInMessageLoop_some h

theorem skipNameInMessage_eq {n : WireName} {pos e : ℕ} {tail : Bytes}
    (hn : msg.drop pos = n.bytes ++ tail) (h : skipNameInMessage msg pos = some e) :
    e = pos + n.bytes.length := by
  obtain ⟨n', tail', hn', rfl⟩ := skipNameInMessage_some h
  rw [(WireName.bytes_inj (hn.symm.trans hn')).1]

/-- The fields of a record, from the offset behind its name. -/
theorem WireRecord.fields (r : WireRecord) {pos : ℕ} {tail : Bytes}
    (h : msg.drop pos = r.bytes ++ tail) :
    be16 msg (pos + r.name.bytes.length) = r.rtype ∧
      be16 msg (pos + r.name.bytes.length + 8) = r.rdata.length ∧
      pos + r.name.bytes.length + 10 + r.rdata.length = pos + r.bytes.length ∧
      pos + r.bytes.length ≤ msg.length := by
  have hfixed : msg.drop (pos + r.name.bytes.length) = r.fixed ++ (r.rdata ++ tail) := by
    rw [← List.drop_drop, h, bytes, List.append_assoc, List.drop_left, List.append_assoc]
  have hne : r.bytes ≠ [] := by
    intro hnil
    have hlen := congrArg List.length hnil
    rw [bytes, List.length_append, List.length_append, r.length_fixed, List.length_nil] at hlen
    omega
  have htype := be16_drop msg (pos + r.name.bytes.length) 0
  have hlen := be16_drop msg (pos + r.name.bytes.length) 8
  rw [hfixed, be16_append_left (by rw [r.length_fixed]; omega)] at htype hlen
  refine ⟨htype.symm, by rw [← hlen, r.length_rdata], ?_, le_length_of_drop h hne⟩
  rw [bytes, List.length_append, List.length_append, r.length_fixed]
  omega

/-- The record behind a name. -/
theorem exists_record {n : WireName} {pos : ℕ} {tail : Bytes}
    (hn : msg.drop pos = n.bytes ++ tail)
    (hend : pos + n.bytes.length + 10 + be16 msg (pos + n.bytes.length + 8) ≤ msg.length) :
    ∃ (r : WireRecord) (rest : Bytes), msg.drop pos = r.bytes ++ rest ∧ r.name = n := by
  have htail : msg.drop (pos + n.bytes.length) = tail := by
    rw [← List.drop_drop, hn, List.drop_left]
  have hlen : 10 + be16 tail 8 ≤ tail.length := by
    have hbe := be16_drop msg (pos + n.bytes.length) 8
    rw [htail] at hbe
    rw [hbe, ← htail, List.length_drop]
    omega
  have hfixed : (tail.take 10).length = 10 := by
    rw [List.length_take]
    omega
  have hbe : be16 (tail.take 10) 8 = be16 tail 8 := by
    conv_rhs => rw [← List.take_append_drop 10 tail]
    rw [be16_append_left (by rw [hfixed]; omega)]
  refine ⟨⟨n, tail.take 10, (tail.drop 10).take (be16 tail 8), hfixed, ?_⟩,
    (tail.drop 10).drop (be16 tail 8), ?_, rfl⟩
  · rw [hbe, List.length_take, List.length_drop]
    omega
  · rw [hn, WireRecord.bytes, List.append_assoc, List.append_assoc, List.take_append_drop,
      List.take_append_drop]

/-- What is skipped is a record as it is written there. -/
theorem skipRr_some {pos e : ℕ} (h : skipRr msg pos = some e) :
    ∃ (r : WireRecord) (tail : Bytes), msg.drop pos = r.bytes ++ tail ∧
      e = pos + r.bytes.length := by
  rw [skipRr, Option.bind_eq_some_iff] at h
  obtain ⟨nameEnd, hname, h⟩ := h
  obtain ⟨n, tail, hn, rfl⟩ := skipNameInMessage_some hname
  dsimp only at h
  split_ifs at h
  obtain rfl := Option.some.inj h
  obtain ⟨r, rest, hr, rfl⟩ := exists_record hn (by omega)
  obtain ⟨-, hlen, hend, -⟩ := r.fields hr
  exact ⟨r, rest, hr, by rw [hlen, hend]⟩

theorem skipRrs_some {n pos e : ℕ} (h : skipRrs msg n pos = some e) :
    ∃ (rs : List WireRecord) (tail : Bytes), rs.length = n ∧
      msg.drop pos = rs.flatMap WireRecord.bytes ++ tail ∧
      e = pos + (rs.flatMap WireRecord.bytes).length := by
  induction n generalizing pos with
  | zero => exact ⟨[], msg.drop pos, rfl, rfl, (Option.some.inj h).symm⟩
  | succ n ih =>
    rw [skipRrs, Option.bind_eq_some_iff] at h
    obtain ⟨next, hr, h⟩ := h
    obtain ⟨r, tail, hdrop, rfl⟩ := skipRr_some hr
    obtain ⟨rs, tail', hlen, hdrop', rfl⟩ := ih h
    refine ⟨r :: rs, tail', by rw [List.length_cons, hlen], ?_, ?_⟩
    · rw [← List.drop_drop, hdrop, List.drop_left] at hdrop'
      rw [hdrop, hdrop', List.flatMap_cons, List.append_assoc]
    · rw [List.flatMap_cons, List.length_append, Nat.add_assoc]

theorem stripSkipQuestions_some {n pos e : ℕ} (h : stripSkipQuestions msg n pos = some e) :
    ∃ (qs : List WireQuestion) (tail : Bytes), qs.length = n ∧
      msg.drop pos = qs.flatMap WireQuestion.bytes ++ tail ∧
      e = pos + (qs.flatMap WireQuestion.bytes).length := by
  induction n generalizing pos with
  | zero => exact ⟨[], msg.drop pos, rfl, rfl, (Option.some.inj h).symm⟩
  | succ n ih =>
    rw [stripSkipQuestions, Option.bind_eq_some_iff] at h
    obtain ⟨nameEnd, hname, h⟩ := h
    obtain ⟨name, tail, hn, rfl⟩ := skipNameInMessage_some hname
    split_ifs at h with hshort
    obtain ⟨qs, tail', hlen, hdrop', rfl⟩ := ih h
    have htail : msg.drop (pos + name.bytes.length) = tail := by
      rw [← List.drop_drop, hn, List.drop_left]
    have hfixed : (tail.take 4).length = 4 := by
      rw [← htail, List.length_take, List.length_drop]
      omega
    refine ⟨⟨name, tail.take 4, hfixed⟩ :: qs, tail', by rw [List.length_cons, hlen], ?_, ?_⟩
    · rw [← List.drop_drop, htail] at hdrop'
      rw [hn, List.flatMap_cons, WireQuestion.bytes, List.append_assoc, List.append_assoc,
        ← hdrop', List.take_append_drop]
    · rw [List.flatMap_cons, List.length_append, WireQuestion.bytes, List.length_append, hfixed]
      dsimp only
      omega

/-! ## What is stripped -/

/-- The records that are not `OPT`. -/
def keptRecords (rs : List WireRecord) : List WireRecord := rs.filter fun r => ¬r.IsOpt

theorem keptRecords_cons_opt {r : WireRecord} (h : r.IsOpt) (rs : List WireRecord) :
    keptRecords (r :: rs) = keptRecords rs :=
  List.filter_cons_of_neg (by simpa using h)

theorem keptRecords_cons_other {r : WireRecord} (h : ¬r.IsOpt) (rs : List WireRecord) :
    keptRecords (r :: rs) = r :: keptRecords rs :=
  List.filter_cons_of_pos (by simpa using h)

theorem length_keptRecords_le (rs : List WireRecord) : (keptRecords rs).length ≤ rs.length :=
  List.length_filter_le _ _

theorem be16_lt (data : Bytes) (pos : ℕ) : be16 data pos < 65536 := by
  have hhi := (data.getD pos 0).toNat_lt
  have hlo := (data.getD (pos + 1) 0).toNat_lt
  rw [be16]
  omega

theorem length_setBe16 (data : Bytes) (pos v : ℕ) : (setBe16 data pos v).length = data.length := by
  rw [setBe16, List.length_set, List.length_set]

theorem be16_setBe16_self {data : Bytes} {pos v : ℕ} (hpos : pos + 1 < data.length)
    (hv : v < 65536) : be16 (setBe16 data pos v) pos = v := by
  rw [be16, setBe16, List.getD_eq_getElem?_getD, List.getD_eq_getElem?_getD,
    List.getElem?_set_ne (by omega), List.getElem?_set_self (by omega),
    List.getElem?_set_self (by rw [List.length_set]; omega), Option.getD_some, Option.getD_some,
    toNat_ofNat, toNat_ofNat]
  omega

theorem be16_setBe16_of_lt {data : Bytes} {pos v pos' : ℕ} (h : pos' + 1 < pos) :
    be16 (setBe16 data pos v) pos' = be16 data pos' := by
  rw [be16, be16, setBe16, List.getD_eq_getElem?_getD, List.getD_eq_getElem?_getD,
    List.getElem?_set_ne (by omega), List.getElem?_set_ne (by omega),
    List.getElem?_set_ne (by omega), List.getElem?_set_ne (by omega),
    ← List.getD_eq_getElem?_getD, ← List.getD_eq_getElem?_getD]

/-- A message without its `OPT` records. -/
def WireMessage.withoutOpt (m : WireMessage) : WireMessage where
  header := setBe16 m.header 10 (keptRecords m.additionals).length
  questions := m.questions
  answers := m.answers
  authorities := m.authorities
  additionals := keptRecords m.additionals
  length_header := by rw [length_setBe16, m.length_header]
  qdcount := by rw [be16_setBe16_of_lt (by decide), m.qdcount]
  ancount := by rw [be16_setBe16_of_lt (by decide), m.ancount]
  nscount := by rw [be16_setBe16_of_lt (by decide), m.nscount]
  arcount := by
    have hle := length_keptRecords_le m.additionals
    have hlt := be16_lt m.header 10
    rw [m.arcount] at hlt
    rw [be16_setBe16_self (by rw [m.length_header]; decide) (by omega)]

theorem WireMessage.additionals_withoutOpt (m : WireMessage) :
    m.withoutOpt.additionals = keptRecords m.additionals := rfl

/-- The bytes of a message with another count in its header. -/
theorem setBe16_append {header : Bytes} {pos : ℕ} (h : pos + 1 < header.length) (v : ℕ)
    (rest : Bytes) : setBe16 (header ++ rest) pos v = setBe16 header pos v ++ rest := by
  rw [setBe16, setBe16, List.set_append_left _ _ (by omega),
    List.set_append_left _ _ (by rwa [List.length_set])]

theorem stripRecords_some {n pos c c' : ℕ} {result result' : Bytes}
    (h : stripRecords msg n pos result c = some (result', c')) :
    ∃ (rs : List WireRecord) (tail : Bytes), rs.length = n ∧
      msg.drop pos = rs.flatMap WireRecord.bytes ++ tail ∧
      result' = result ++ (keptRecords rs).flatMap WireRecord.bytes ∧
      c' = c - (rs.length - (keptRecords rs).length) := by
  induction n generalizing pos result c with
  | zero =>
    obtain ⟨rfl, rfl⟩ := Prod.mk.inj (Option.some.inj h)
    exact ⟨[], msg.drop pos, rfl, rfl, (List.append_nil _).symm, rfl⟩
  | succ n ih =>
    rw [stripRecords, Option.bind_eq_some_iff] at h
    obtain ⟨nameEnd, hname, h⟩ := h
    obtain ⟨name, tail, hn, rfl⟩ := skipNameInMessage_some hname
    dsimp only at h
    by_cases hshort : pos + name.bytes.length + 10 > msg.length
    · rw [if_pos hshort] at h
      cases h
    rw [if_neg hshort] at h
    by_cases hlong : pos + name.bytes.length + 10 + be16 msg (pos + name.bytes.length + 8) >
        msg.length
    · rw [if_pos hlong] at h
      cases h
    rw [if_neg hlong] at h
    obtain ⟨r, rest, hr, rfl⟩ := exists_record hn (by omega)
    obtain ⟨htype, hlen, hend, -⟩ := r.fields hr
    rw [htype, hlen, hend] at h
    have htake : (msg.drop pos).take (pos + r.bytes.length - pos) = r.bytes := by
      rw [hr, Nat.add_sub_cancel_left, List.take_left]
    rw [htake] at h
    by_cases hopt : r.rtype = optRecord
    · rw [if_pos hopt] at h
      obtain ⟨rs, tail', hrs, hdrop, hresult, hc⟩ := ih h
      have hle := length_keptRecords_le rs
      refine ⟨r :: rs, tail', by rw [List.length_cons, hrs], ?_, ?_, ?_⟩
      · rw [← List.drop_drop, hr, List.drop_left] at hdrop
        rw [hr, hdrop, List.flatMap_cons, List.append_assoc]
      · rw [keptRecords_cons_opt hopt, hresult]
      · rw [keptRecords_cons_opt hopt, hc, List.length_cons]
        omega
    · rw [if_neg hopt] at h
      obtain ⟨rs, tail', hrs, hdrop, hresult, hc⟩ := ih h
      refine ⟨r :: rs, tail', by rw [List.length_cons, hrs], ?_, ?_, ?_⟩
      · rw [← List.drop_drop, hr, List.drop_left] at hdrop
        rw [hr, hdrop, List.flatMap_cons, List.append_assoc]
      · rw [keptRecords_cons_other hopt, hresult, List.flatMap_cons, List.append_assoc]
      · rw [keptRecords_cons_other hopt, hc, List.length_cons, List.length_cons]
        omega

/-- The parts of bytes make a message, with the counts that its header has. -/
theorem exists_wireMessage {qs : List WireQuestion} {rs adds : List WireRecord} {rest : Bytes}
    (hlen : headerSize ≤ msg.length)
    (hmsg : msg.drop headerSize = qs.flatMap WireQuestion.bytes ++
      (rs.flatMap WireRecord.bytes ++ (adds.flatMap WireRecord.bytes ++ rest)))
    (hqs : qs.length = be16 msg 4) (hrs : rs.length = be16 msg 6 + be16 msg 8)
    (hadds : adds.length = be16 msg 10) :
    ∃ m : WireMessage, msg = m.bytes ++ rest ∧ m.header = msg.take headerSize ∧
      m.questions = qs ∧ m.answers ++ m.authorities = rs ∧ m.additionals = adds := by
  have hheader : (msg.take headerSize).length = headerSize := by
    rw [List.length_take, Nat.min_eq_left hlen]
  have hbe : ∀ pos, pos + 1 < headerSize → be16 (msg.take headerSize) pos = be16 msg pos := by
    intro pos hpos
    conv_rhs => rw [← List.take_append_drop headerSize msg]
    rw [be16_append_left (by rwa [hheader])]
  refine ⟨⟨msg.take headerSize, qs, rs.take (be16 msg 6), rs.drop (be16 msg 6), adds, hheader,
    ?_, ?_, ?_, ?_⟩, ?_, rfl, rfl, List.take_append_drop _ _, rfl⟩
  · rw [hbe _ (by decide), hqs]
  · rw [hbe _ (by decide), List.length_take, hrs]
    omega
  · rw [hbe _ (by decide), List.length_drop, hrs]
    omega
  · rw [hbe _ (by decide), hadds]
  · rw [WireMessage.bytes, WireMessage.front]
    dsimp only
    rw [List.take_append_drop, List.append_assoc, List.append_assoc, List.append_assoc, ← hmsg,
      List.take_append_drop]

/-- What is stripped is the message without its `OPT` records; what lies behind it is dropped. -/
theorem stripOptFromMessage_some {result : Bytes} (h : stripOptFromMessage msg = some result)
    (harcount : be16 msg 10 ≠ 0) :
    ∃ (m : WireMessage) (rest : Bytes), msg = m.bytes ++ rest ∧ result = m.withoutOpt.bytes := by
  rw [stripOptFromMessage] at h
  by_cases hshort : msg.length < headerSize
  · rw [if_pos hshort] at h
    cases h
  rw [if_neg hshort] at h
  dsimp only at h
  rw [if_neg harcount, Option.bind_eq_some_iff] at h
  obtain ⟨offset, hquestions, h⟩ := h
  rw [Option.bind_eq_some_iff] at h
  obtain ⟨start, hrecords, h⟩ := h
  rw [Option.map_eq_some_iff] at h
  obtain ⟨⟨stripped, count⟩, hadds, rfl⟩ := h
  obtain ⟨qs, tail, hqs, hqdrop, rfl⟩ := stripSkipQuestions_some hquestions
  obtain ⟨rs, tail', hrs, hrdrop, rfl⟩ := skipRrs_some hrecords
  obtain ⟨adds, rest, hlen, hadrop, rfl, rfl⟩ := stripRecords_some hadds
  rw [← List.drop_drop, hqdrop, List.drop_left] at hrdrop
  rw [← List.drop_drop, ← List.drop_drop, hqdrop, List.drop_left, hrdrop, List.drop_left] at hadrop
  obtain ⟨m, hmsg, hheader, rfl, hboth, rfl⟩ := exists_wireMessage (by omega)
    (by rw [hqdrop, hrdrop, hadrop]) hqs hrs hlen
  have hfront : m.front.length = headerSize + (m.questions.flatMap WireQuestion.bytes).length +
      (rs.flatMap WireRecord.bytes).length := by
    rw [WireMessage.front, hboth, List.length_append, List.length_append, m.length_header,
      Nat.add_assoc]
  have hstart : msg.take (headerSize + (m.questions.flatMap WireQuestion.bytes).length +
      (rs.flatMap WireRecord.bytes).length) = m.front := by
    rw [← hfront, hmsg, WireMessage.bytes, List.append_assoc, List.take_left]
  have hcount : be16 msg 10 - (m.additionals.length - (keptRecords m.additionals).length) =
      (keptRecords m.additionals).length := by
    have hle := length_keptRecords_le m.additionals
    omega
  refine ⟨m, rest, hmsg, ?_⟩
  dsimp only
  rw [hstart, hcount, WireMessage.front, List.append_assoc,
    setBe16_append (by rw [m.length_header]; decide)]
  simp only [WireMessage.bytes, WireMessage.front, WireMessage.withoutOpt, List.append_assoc]

/-! ## What is found -/

theorem hasSkipQuestions_eq {qs : List WireQuestion} {pos e : ℕ} {tail : Bytes}
    (hqs : msg.drop pos = qs.flatMap WireQuestion.bytes ++ tail)
    (h : hasSkipQuestions msg qs.length pos = some e) :
    e = pos + (qs.flatMap WireQuestion.bytes).length := by
  induction qs generalizing pos with
  | nil => exact (Option.some.inj h).symm
  | cons q qs ih =>
    rw [List.length_cons, hasSkipQuestions, Option.bind_eq_some_iff] at h
    obtain ⟨nameEnd, hname, h⟩ := h
    rw [List.flatMap_cons, List.append_assoc] at hqs
    have hbytes : q.bytes.length = q.name.bytes.length + 4 := by
      rw [WireQuestion.bytes, List.length_append, q.length_fixed]
    have hn :
        msg.drop pos = q.name.bytes ++ (q.fixed ++ (qs.flatMap WireQuestion.bytes ++ tail)) := by
      rw [hqs, WireQuestion.bytes, List.append_assoc]
    obtain rfl := skipNameInMessage_eq hn hname
    have hrest : msg.drop (pos + q.name.bytes.length + 4) =
        qs.flatMap WireQuestion.bytes ++ tail := by
      rw [Nat.add_assoc, ← hbytes, ← List.drop_drop, hqs, List.drop_left]
    rw [ih hrest h, List.flatMap_cons, List.length_append, hbytes]
    omega

theorem skipRrs_eq {rs : List WireRecord} {pos e : ℕ} {tail : Bytes}
    (hrs : msg.drop pos = rs.flatMap WireRecord.bytes ++ tail)
    (h : skipRrs msg rs.length pos = some e) : e = pos + (rs.flatMap WireRecord.bytes).length := by
  obtain ⟨rs', tail', hlen, hrs', rfl⟩ := skipRrs_some h
  rw [(flatMap_inj WireRecord.bytes_inj hlen.symm (hrs.symm.trans hrs')).1]

theorem findOptRecord_some {rs : List WireRecord} {pos : ℕ} {tail : Bytes}
    (hrs : msg.drop pos = rs.flatMap WireRecord.bytes ++ tail)
    (h : findOptRecord msg rs.length pos = true) : ∃ r ∈ rs, r.IsOpt := by
  induction rs generalizing pos with
  | nil => cases h
  | cons r rs ih =>
    rw [List.flatMap_cons, List.append_assoc] at hrs
    rw [List.length_cons, findOptRecord] at h
    cases hname : skipNameInMessage msg pos with
    | none => simp [hname] at h
    | some nameEnd =>
      obtain ⟨htype, hlen, hend, hle⟩ := r.fields hrs
      have hn : msg.drop pos = r.name.bytes ++
          (r.fixed ++ r.rdata ++ (rs.flatMap WireRecord.bytes ++ tail)) := by
        rw [hrs, WireRecord.bytes, List.append_assoc]
      obtain rfl := skipNameInMessage_eq hn hname
      rw [hname] at h
      dsimp only at h
      rw [if_pos (by omega), htype, hlen, hend] at h
      by_cases hopt : r.rtype = optRecord
      · exact ⟨r, List.mem_cons_self, hopt⟩
      · rw [if_neg hopt] at h
        obtain ⟨r', hr', hopt'⟩ := ih (by rw [← List.drop_drop, hrs, List.drop_left]) h
        exact ⟨r', List.mem_cons_of_mem r hr', hopt'⟩

/-- Where the sections of a message begin. -/
theorem WireMessage.drop_questions (m : WireMessage) (trailing : Bytes) :
    (m.bytes ++ trailing).drop headerSize = m.questions.flatMap WireQuestion.bytes ++
      ((m.answers ++ m.authorities).flatMap WireRecord.bytes ++
        (m.additionals.flatMap WireRecord.bytes ++ trailing)) := by
  rw [bytes, front, ← m.length_header]
  simp only [List.append_assoc, List.drop_left]

theorem WireMessage.drop_records (m : WireMessage) (trailing : Bytes) :
    (m.bytes ++ trailing).drop (headerSize + (m.questions.flatMap WireQuestion.bytes).length) =
      (m.answers ++ m.authorities).flatMap WireRecord.bytes ++
        (m.additionals.flatMap WireRecord.bytes ++ trailing) := by
  rw [← List.drop_drop, m.drop_questions, List.drop_left]

theorem WireMessage.drop_additionals (m : WireMessage) (trailing : Bytes) :
    (m.bytes ++ trailing).drop (headerSize + (m.questions.flatMap WireQuestion.bytes).length +
        ((m.answers ++ m.authorities).flatMap WireRecord.bytes).length) =
      m.additionals.flatMap WireRecord.bytes ++ trailing := by
  rw [← List.drop_drop, m.drop_records, List.drop_left]

/-- What is found is an `OPT` record of the message. -/
theorem hasOptRecord_bytes {m : WireMessage} {trailing : Bytes}
    (h : hasOptRecord (m.bytes ++ trailing) = true) : ∃ r ∈ m.additionals, r.IsOpt := by
  rw [hasOptRecord] at h
  split_ifs at h
  rw [m.be16_bytes trailing (by decide), m.be16_bytes trailing (by decide),
    m.be16_bytes trailing (by decide), m.be16_bytes trailing (by decide), m.qdcount, m.ancount,
    m.nscount, m.arcount, ← List.length_append] at h
  cases hstart : (hasSkipQuestions (m.bytes ++ trailing) m.questions.length headerSize).bind
      (skipRrs (m.bytes ++ trailing) (m.answers ++ m.authorities).length) with
  | none =>
    rw [hstart] at h
    cases h
  | some start =>
    rw [hstart] at h
    obtain ⟨offset, hq, hr⟩ := Option.bind_eq_some_iff.mp hstart
    obtain rfl := hasSkipQuestions_eq (m.drop_questions trailing) hq
    obtain rfl := skipRrs_eq (m.drop_records trailing) hr
    exact findOptRecord_some (m.drop_additionals trailing) h

end OxidizedSystemd.Resolved
