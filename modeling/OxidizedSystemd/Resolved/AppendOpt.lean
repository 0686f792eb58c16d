import OxidizedSystemd.Resolved.OptRecord
import OxidizedSystemd.Resolved.StripOpt

/-!
# OPT records that are appended

Model of `extract_opt_record` (`resolved/src/edns.rs`, lines 600–654), which is to find the record
that `append_opt_to_query` put at the end of a message.

* `appendOptToQuery_eq`: what is appended is a message with one additional record more.
* `extractOptRecord_ok`: the walks find the first `OPT` record.
* `append_extract_strip_iff`: the appended record is found, extracted and stripped exactly if no
    name of the message takes too many pointers.
-/

namespace OxidizedSystemd.Resolved

open OxidizedSystemd.Lib

/-! ## Extraction -/

/-- The loop over the additional records in `extract_opt_record` (lines 631–651). -/
def extractFromRecords (msg : Bytes) : ℕ → ℕ → Option OptRecord
  | 0, _ => none
  | n + 1, offset =>
    (skipNameInMessage msg offset).bind fun nameEnd =>
      if nameEnd + 10 > msg.length then none
      else
        let rrEnd := nameEnd + 10 + be16 msg (nameEnd + 8)
        if rrEnd > msg.length then none
        else if be16 msg nameEnd = optRecord then
          OptRecord.parse ((msg.drop nameEnd).take (rrEnd - nameEnd))
        else extractFromRecords msg n rrEnd

/-- `extract_opt_record` (lines 600–654). Its loops over the questions and the records in front are
    those of `strip_opt_from_message`. -/
def extractOptRecord (msg : Bytes) : Option OptRecord :=
  if msg.length < headerSize then none
  else if be16 msg 10 = 0 then none
  else
    (stripSkipQuestions msg (be16 msg 4) headerSize).bind fun offset =>
      (skipRrs msg (be16 msg 6 + be16 msg 8) offset).bind (extractFromRecords msg (be16 msg 10))

/-! ## The message that is appended to -/

variable {m : WireMessage} {r : WireRecord} {msg : Bytes} {opt : OptRecord}

/-- A message with one additional record more. -/
def WireMessage.append (m : WireMessage) (r : WireRecord) (h : m.additionals.length < 65535) :
    WireMessage where
  header := setBe16 m.header 10 (m.additionals.length + 1)
  questions := m.questions
  answers := m.answers
  authorities := m.authorities
  additionals := m.additionals ++ [r]
  length_header := by rw [length_setBe16, m.length_header]
  qdcount := by rw [be16_setBe16_of_lt (by decide), m.qdcount]
  ancount := by rw [be16_setBe16_of_lt (by decide), m.ancount]
  nscount := by rw [be16_setBe16_of_lt (by decide), m.nscount]
  arcount := by
    rw [be16_setBe16_self (by rw [m.length_header]; decide) (by omega), List.length_append]
    rfl

theorem WireMessage.bytes_append (h : m.additionals.length < 65535) :
    (m.append r h).bytes = setBe16 (m.bytes ++ r.bytes) 10 (m.additionals.length + 1) := by
  have hheader : 10 + 1 < m.header.length := by
    rw [m.length_header]
    decide
  simp only [bytes, front, append, setBe16_append hheader, List.flatMap_append,
    List.flatMap_singleton, List.append_assoc]

/-- What is appended is a message with one additional record more. -/
theorem appendOptToQuery_eq (hopts : ∀ r ∈ m.additionals, ¬r.IsOpt)
    (hcount : m.additionals.length < 65535) (hrdata : opt.rdata.length < 2 ^ 16) :
    appendOptToQuery m.bytes opt = some (m.append (opt.record hrdata) hcount).bytes := by
  have hlen : headerSize ≤ m.bytes.length := by
    rw [WireMessage.bytes, WireMessage.front]
    simp only [List.length_append, m.length_header]
    omega
  have hnone : ¬hasOptRecord m.bytes = true := by
    intro hfound
    rw [← List.append_nil m.bytes] at hfound
    obtain ⟨r, hr, hopt⟩ := hasOptRecord_bytes hfound
    exact hopts r hr hopt
  rw [appendOptToQuery, if_neg (Nat.not_lt.mpr hlen), if_neg hnone]
  dsimp only
  rw [m.be16_bytes opt.toBytes (by decide), m.arcount, if_pos (by omega),
    WireMessage.bytes_append, OptRecord.record_bytes]

/-- Behind the header, a message begins with the bytes of the one that it was appended to. -/
theorem agreeTo_append (h : m.additionals.length < 65535) :
    AgreeTo m.bytes (m.append r h).bytes m.bytes.length := by
  have hdrop : m.bytes.drop headerSize = (m.questions.flatMap WireQuestion.bytes ++
      ((m.answers ++ m.authorities).flatMap WireRecord.bytes ++
        m.additionals.flatMap WireRecord.bytes)) ++ [] := by
    rw [WireMessage.bytes, WireMessage.front, ← m.length_header]
    simp only [List.append_assoc, List.drop_left, List.append_nil]
  have hdrop' : (m.append r h).bytes.drop headerSize = (m.questions.flatMap WireQuestion.bytes ++
      ((m.answers ++ m.authorities).flatMap WireRecord.bytes ++
        m.additionals.flatMap WireRecord.bytes)) ++ r.bytes := by
    rw [WireMessage.bytes, WireMessage.front, ← (m.append r h).length_header]
    simp only [WireMessage.append, List.append_assoc, List.drop_left, List.flatMap_append,
      List.flatMap_singleton]
  have hagree := agreeTo_of_drop hdrop hdrop'
  rw [List.length_append, List.length_append, ← Nat.add_assoc, ← Nat.add_assoc,
    ← m.length_front, ← List.length_append] at hagree
  exact hagree

theorem names_append (h : m.additionals.length < 65535) :
    (m.append r h).names = m.names ++ [r.name] := by
  simp only [WireMessage.names, WireMessage.append, List.map_append, List.map_cons, List.map_nil,
    List.append_assoc]

/-- The names of a message can still be skipped, and so can the name of the record. -/
theorem skippable_append (hcount : m.additionals.length < 65535)
    (h : ∀ n ∈ m.names, Skippable m.bytes n) (hr : r.name = rootName) :
    ∀ n ∈ (m.append r hcount).names, Skippable (m.append r hcount).bytes n := by
  intro n hn
  have hle : m.bytes.length ≤ (m.append r hcount).bytes.length := by
    rw [WireMessage.bytes_append, length_setBe16, List.length_append]
    omega
  rw [names_append, List.mem_append, List.mem_singleton] at hn
  rcases hn with hn | rfl
  · obtain ⟨hops, labels, hfollows, hfew⟩ := h n hn
    exact ⟨hops, labels, (hfollows.congr (agreeTo_append hcount)).mono hle, hfew⟩
  · rw [hr]
    exact ⟨0, [], ⟨fun l hl => absurd hl List.not_mem_nil, [], ⟨rfl, rfl⟩, rfl⟩, Nat.zero_le _⟩

/-! ## The walks -/

theorem hasSkipQuestions_ok {qs : List WireQuestion} {pos : ℕ} {tail : Bytes}
    (hqs : msg.drop pos = qs.flatMap WireQuestion.bytes ++ tail)
    (h : ∀ q ∈ qs, Skippable msg q.name) :
    hasSkipQuestions msg qs.length pos = some (pos + (qs.flatMap WireQuestion.bytes).length) := by
  induction qs generalizing pos with
  | nil => rfl
  | cons q qs ih =>
    obtain ⟨hq, hrest⟩ := List.forall_mem_cons.mp h
    rw [List.flatMap_cons, List.append_assoc] at hqs
    have hbytes : q.bytes.length = q.name.bytes.length + 4 := by
      rw [WireQuestion.bytes, List.length_append, q.length_fixed]
    have hn : msg.drop pos =
        q.name.bytes ++ (q.fixed ++ (qs.flatMap WireQuestion.bytes ++ tail)) := by
      rw [hqs, WireQuestion.bytes, List.append_assoc]
    rw [List.length_cons, hasSkipQuestions, hq.skip hn, Option.bind_some, Nat.add_assoc pos,
      ← hbytes, ih (by rw [← List.drop_drop, hqs, List.drop_left]) hrest, List.flatMap_cons,
      List.length_append, Nat.add_assoc]

/-- The records in front of the first `OPT` record are passed over, and it is found. -/
theorem findOptRecord_ok {pre post : List WireRecord} {pos : ℕ} {tail : Bytes}
    (hrs : msg.drop pos = (pre ++ r :: post).flatMap WireRecord.bytes ++ tail)
    (h : ∀ r' ∈ pre ++ [r], Skippable msg r'.name) (hopt : r.IsOpt) :
    findOptRecord msg (pre ++ r :: post).length pos = true := by
  induction pre generalizing pos with
  | nil =>
    rw [List.nil_append, List.flatMap_cons, List.append_assoc] at hrs
    obtain ⟨htype, -, hend, hfit⟩ := r.fields hrs
    rw [WireRecord.bytes, List.append_assoc] at hrs
    rw [List.nil_append, List.length_cons, findOptRecord,
      (h r (by simp)).skip hrs]
    dsimp only
    rw [if_pos (by omega), htype]
    exact if_pos hopt
  | cons r' pre ih =>
    obtain ⟨hr', hrest⟩ := List.forall_mem_cons.mp h
    rw [List.cons_append, List.flatMap_cons, List.append_assoc] at hrs
    obtain ⟨-, hlen, hend, hfit⟩ := r'.fields hrs
    have hnext : msg.drop (pos + r'.bytes.length) =
        (pre ++ r :: post).flatMap WireRecord.bytes ++ tail := by
      rw [← List.drop_drop, hrs, List.drop_left]
    rw [WireRecord.bytes, List.append_assoc] at hrs
    rw [List.cons_append, List.length_cons, findOptRecord, hr'.skip hrs]
    dsimp only
    rw [if_pos (by omega), hlen, hend]
    split
    · rfl
    · exact ih hnext hrest

theorem extractFromRecords_ok {pre post : List WireRecord} {pos : ℕ} {tail : Bytes}
    (hrs : msg.drop pos = (pre ++ r :: post).flatMap WireRecord.bytes ++ tail)
    (h : ∀ r' ∈ pre ++ [r], Skippable msg r'.name) (hpre : ∀ r' ∈ pre, ¬r'.IsOpt)
    (hopt : r.IsOpt) :
    extractFromRecords msg (pre ++ r :: post).length pos =
      OptRecord.parse (r.fixed ++ r.rdata) := by
  induction pre generalizing pos with
  | nil =>
    rw [List.nil_append, List.flatMap_cons, List.append_assoc] at hrs
    obtain ⟨htype, hlen, hend, hfit⟩ := r.fields hrs
    rw [WireRecord.bytes, List.append_assoc] at hrs
    have htake : (msg.drop (pos + r.name.bytes.length)).take
        (pos + r.bytes.length - (pos + r.name.bytes.length)) = r.fixed ++ r.rdata := by
      rw [← List.drop_drop, hrs, List.drop_left]
      refine List.take_left' ?_
      rw [List.length_append, r.length_fixed]
      omega
    rw [List.nil_append, List.length_cons, extractFromRecords, (h r (by simp)).skip hrs,
      Option.bind_some, if_neg (by omega), hlen, hend]
    dsimp only
    rw [if_neg (by omega), htype, if_pos (show r.rtype = optRecord from hopt), htake]
  | cons r' pre ih =>
    obtain ⟨hr', hrest⟩ := List.forall_mem_cons.mp h
    obtain ⟨hother, hpre⟩ := List.forall_mem_cons.mp hpre
    rw [List.cons_append, List.flatMap_cons, List.append_assoc] at hrs
    obtain ⟨htype, hlen, hend, hfit⟩ := r'.fields hrs
    have hnext : msg.drop (pos + r'.bytes.length) =
        (pre ++ r :: post).flatMap WireRecord.bytes ++ tail := by
      rw [← List.drop_drop, hrs, List.drop_left]
    rw [WireRecord.bytes, List.append_assoc] at hrs
    rw [List.cons_append, List.length_cons, extractFromRecords, hr'.skip hrs, Option.bind_some,
      if_neg (by omega), hlen, hend]
    dsimp only
    rw [if_neg (by omega), htype, if_neg (show ¬r'.rtype = optRecord from hother)]
    exact ih hnext hrest hpre

/-- The counts of a message are read. -/
theorem WireMessage.counts {trailing : Bytes} (hmsg : msg = m.bytes ++ trailing) :
    headerSize ≤ msg.length ∧ be16 msg 4 = m.questions.length ∧
      be16 msg 6 + be16 msg 8 = (m.answers ++ m.authorities).length ∧
      be16 msg 10 = m.additionals.length := by
  rw [hmsg, m.be16_bytes trailing (by decide), m.be16_bytes trailing (by decide),
    m.be16_bytes trailing (by decide), m.be16_bytes trailing (by decide), m.qdcount, m.ancount,
    m.nscount, m.arcount]
  refine ⟨?_, rfl, List.length_append.symm, rfl⟩
  rw [bytes, front]
  simp only [List.length_append, m.length_header]
  omega

/-- `has_opt_record` finds an `OPT` record, and `extract_opt_record` reads the first one. -/
theorem extractOptRecord_ok {trailing : Bytes} {pre post : List WireRecord}
    (hmsg : msg = m.bytes ++ trailing) (h : ∀ n ∈ m.names, Skippable msg n)
    (hadds : m.additionals = pre ++ r :: post) (hpre : ∀ r' ∈ pre, ¬r'.IsOpt) (hopt : r.IsOpt) :
    hasOptRecord msg = true ∧ extractOptRecord msg = OptRecord.parse (r.fixed ++ r.rdata) := by
  obtain ⟨hlen, hqd, hrr, har⟩ := WireMessage.counts hmsg
  have hquestions := m.drop_questions trailing
  have hrecords := m.drop_records trailing
  have hadditionals := m.drop_additionals trailing
  rw [← hmsg] at hquestions hrecords hadditionals
  have hpos : m.additionals.length ≠ 0 := by
    rw [hadds, List.length_append, List.length_cons]
    omega
  simp only [WireMessage.names, List.mem_append, List.mem_map] at h
  have hq : ∀ q ∈ m.questions, Skippable msg q.name := fun q hq => h _ (.inl ⟨q, hq, rfl⟩)
  have hr := skipRrs_ok hrecords fun r hr => h _ (.inr ⟨r, .inl (List.mem_append.mp hr), rfl⟩)
  have ha : ∀ r' ∈ pre ++ [r], Skippable msg r'.name := by
    intro r' hr'
    refine h _ (.inr ⟨r', .inr ?_, rfl⟩)
    rw [hadds]
    rcases List.mem_append.mp hr' with hr' | hr'
    · exact List.mem_append_left _ hr'
    · rw [List.mem_singleton.mp hr']
      exact List.mem_append_right _ List.mem_cons_self
  rw [hadds] at hadditionals
  constructor
  · rw [hasOptRecord, if_neg (Nat.not_lt.mpr hlen), har, if_neg hpos, hqd, hrr,
      hasSkipQuestions_ok hquestions hq, Option.bind_some, hr, hadds]
    exact findOptRecord_ok hadditionals ha hopt
  · rw [extractOptRecord, if_neg (Nat.not_lt.mpr hlen), har, if_neg hpos, hqd, hrr,
      stripSkipQuestions_ok hquestions hq, Option.bind_some, hr, Option.bind_some, hadds]
    exact extractFromRecords_ok hadditionals ha hpre hopt

/-! ## The three functions agree -/

/-- A count that is set back. -/
theorem setBe16_setBe16_self {pos : ℕ} (h : pos + 1 < msg.length) (v : ℕ) :
    setBe16 (setBe16 msg pos v) pos (be16 msg pos) = msg := by
  have hlo := (msg[pos + 1]).toNat_lt
  have hhigh : UInt8.ofNat (be16 msg pos / 256) = msg[pos] := by
    apply UInt8.toNat_inj.mp
    rw [toNat_ofNat, be16, List.getD_eq_getElem _ _ (by omega), List.getD_eq_getElem _ _ h]
    have hhi := (msg[pos]).toNat_lt
    omega
  have hlow : UInt8.ofNat (be16 msg pos) = msg[pos + 1] := by
    apply UInt8.toNat_inj.mp
    rw [toNat_ofNat, be16, List.getD_eq_getElem _ _ (by omega), List.getD_eq_getElem _ _ h]
    omega
  have hcomm : ∀ (l : Bytes) (a b : UInt8), (l.set (pos + 1) a).set pos b =
      (l.set pos b).set (pos + 1) a := fun l a b => List.set_comm _ _ (by omega)
  rw [setBe16, setBe16, hhigh, hlow, hcomm, List.set_set, List.set_set, List.set_getElem_self,
    List.set_getElem_self]

/-- What is stripped of an appended record is the message. -/
theorem withoutOpt_append (hopts : ∀ r ∈ m.additionals, ¬r.IsOpt)
    (hcount : m.additionals.length < 65535) (hopt : r.IsOpt) :
    (m.append r hcount).withoutOpt.bytes = m.bytes := by
  have hkept : keptRecords (m.append r hcount).additionals = m.additionals := by
    show keptRecords (m.additionals ++ [r]) = _
    rw [keptRecords_append, keptRecords_eq_self hopts, keptRecords_cons_opt hopt]
    exact List.append_nil _
  have hheader : setBe16 (m.append r hcount).header 10 m.additionals.length = m.header := by
    show setBe16 (setBe16 m.header 10 (m.additionals.length + 1)) 10 m.additionals.length = _
    rw [← m.arcount]
    exact setBe16_setBe16_self (by rw [m.length_header]; decide) _
  rw [WireMessage.bytes, WireMessage.bytes, WireMessage.front, WireMessage.front,
    WireMessage.additionals_withoutOpt, hkept]
  show setBe16 _ 10 (keptRecords _).length ++ _ ++ _ = _
  rw [hkept, hheader]
  rfl

/-! ## Names with too many pointers -/

variable {n : WireName} {bound hops : ℕ} {labels : List Bytes}

/-- The loop gives up behind 128 pointers. -/
theorem ReadsWithin.skip_none {offset : ℕ} (h : ReadsWithin msg bound hops offset labels)
    {before : ℕ} (hbefore : before ≤ 128) (hmany : 128 < before + hops) (fuel e : ℕ) :
    skipNameInMessageLoop msg fuel offset before (some e) = none := by
  induction fuel generalizing hops offset labels before with
  | zero => rfl
  | succ fuel ih =>
    cases h with
    | root _ _ hb => omega
    | @label _ offset b _ _ hb hne hptr _ hend rest =>
      rw [skipNameInMessageLoop, hb]
      dsimp only
      rw [if_neg hne, if_neg (show ¬(b.toNat &&& 0xC0 = 0xC0) from hptr)]
      split
      · rfl
      · exact ih rest hbefore hmany
    | @pointer _ offset hi lo _ _ _ hb hptr hlo rest =>
      rw [skipNameInMessageLoop, hb]
      dsimp only
      rw [if_neg (ne_zero_of_pointer hptr), if_pos (show hi.toNat &&& 0xC0 = 0xC0 from hptr), hlo]
      dsimp only
      split
      · rfl
      · exact ih rest (by omega) (by omega)

/-- A name that is skipped goes through at most 128 pointers. -/
theorem WireName.Follows.hops_le (h : n.Follows msg bound hops labels) {pos e : ℕ} {tail : Bytes}
    (hn : msg.drop pos = n.bytes ++ tail) (hskip : skipNameInMessage msg pos = some e) :
    hops ≤ 128 := by
  by_contra hmany
  obtain ⟨-, rest, hend, -⟩ := h
  rw [WireName.bytes, List.append_assoc] at hn
  have hfuel : turnsLeft msg pos 0 < turnsLeft msg 0 0 + 1 := by
    rw [turnsLeft, turnsLeft]
    omega
  rw [skipNameInMessage, skipNameInMessageLoop_labels n.label_ok hn hfuel] at hskip
  have hdrop : msg.drop (pos + (n.labels.flatMap labelBytes).length) =
      endBytes n.pointer ++ tail := by
    rw [← List.drop_drop, hn, List.drop_left]
  cases hp : n.pointer with
  | none =>
    rw [hp] at hend
    exact hmany (hend.1 ▸ Nat.zero_le _)
  | some p =>
    rw [hp] at hdrop hend
    obtain ⟨k, rfl, hreads⟩ := hend
    obtain ⟨hhi, htail⟩ := getElem?_of_drop (b := p.1) hdrop
    obtain ⟨hlo, -⟩ := getElem?_of_drop (b := p.2) htail
    have hptr := n.pointer_ok p hp
    rw [skipNameInMessageLoop, hhi] at hskip
    dsimp only at hskip
    rw [if_neg (ne_zero_of_pointer hptr), if_pos (show p.1.toNat &&& 0xC0 = 0xC0 from hptr), hlo]
      at hskip
    dsimp only at hskip
    rw [if_neg (by decide), hreads.skip_none (by omega) (by omega)] at hskip
    cases hskip

/-- A name stands in a message and is skipped there. -/
def IsSkipped (msg : Bytes) (n : WireName) : Prop :=
  ∃ pos tail e, msg.drop pos = n.bytes ++ tail ∧ skipNameInMessage msg pos = some e

theorem isSkipped_questions {qs : List WireQuestion} {pos e : ℕ} {tail : Bytes}
    (hqs : msg.drop pos = qs.flatMap WireQuestion.bytes ++ tail)
    (h : stripSkipQuestions msg qs.length pos = some e) : ∀ q ∈ qs, IsSkipped msg q.name := by
  induction qs generalizing pos with
  | nil => exact fun q hq => absurd hq List.not_mem_nil
  | cons q qs ih =>
    rw [List.length_cons, stripSkipQuestions, Option.bind_eq_some_iff] at h
    obtain ⟨nameEnd, hname, h⟩ := h
    rw [List.flatMap_cons, List.append_assoc] at hqs
    have hbytes : q.bytes.length = q.name.bytes.length + 4 := by
      rw [WireQuestion.bytes, List.length_append, q.length_fixed]
    have hn : msg.drop pos =
        q.name.bytes ++ (q.fixed ++ (qs.flatMap WireQuestion.bytes ++ tail)) := by
      rw [hqs, WireQuestion.bytes, List.append_assoc]
    have hskipped : IsSkipped msg q.name := ⟨pos, _, nameEnd, hn, hname⟩
    obtain rfl := skipNameInMessage_eq hn hname
    split at h
    · cases h
    · refine List.forall_mem_cons.mpr ⟨hskipped, ih ?_ h⟩
      rw [Nat.add_assoc, ← hbytes, ← List.drop_drop, hqs, List.drop_left]

theorem isSkipped_records {rs : List WireRecord} {pos e : ℕ} {tail : Bytes}
    (hrs : msg.drop pos = rs.flatMap WireRecord.bytes ++ tail)
    (h : skipRrs msg rs.length pos = some e) : ∀ r ∈ rs, IsSkipped msg r.name := by
  induction rs generalizing pos with
  | nil => exact fun r hr => absurd hr List.not_mem_nil
  | cons r rs ih =>
    rw [List.length_cons, skipRrs, Option.bind_eq_some_iff] at h
    obtain ⟨rrEnd, hrr, h⟩ := h
    rw [List.flatMap_cons, List.append_assoc] at hrs
    obtain ⟨r', tail', hr', rfl⟩ := skipRr_some hrr
    obtain ⟨rfl, -⟩ := WireRecord.bytes_inj (hrs.symm.trans hr')
    obtain ⟨nameEnd, hname, -⟩ := Option.bind_eq_some_iff.mp hrr
    have hn : msg.drop pos =
        r.name.bytes ++ (r.fixed ++ r.rdata ++ (rs.flatMap WireRecord.bytes ++ tail)) := by
      rw [hrs, WireRecord.bytes, List.append_assoc]
    refine List.forall_mem_cons.mpr ⟨⟨pos, _, nameEnd, hn, hname⟩, ih ?_ h⟩
    rw [← List.drop_drop, hrs, List.drop_left]

theorem isSkipped_additionals {rs : List WireRecord} {pos count : ℕ} {tail result : Bytes}
    {out : Bytes × ℕ} (hrs : msg.drop pos = rs.flatMap WireRecord.bytes ++ tail)
    (h : stripRecords msg rs.length pos result count = some out) :
    ∀ r ∈ rs, IsSkipped msg r.name := by
  induction rs generalizing pos result count with
  | nil => exact fun r hr => absurd hr List.not_mem_nil
  | cons r rs ih =>
    rw [List.length_cons, stripRecords, Option.bind_eq_some_iff] at h
    obtain ⟨nameEnd, hname, h⟩ := h
    rw [List.flatMap_cons, List.append_assoc] at hrs
    obtain ⟨-, hlen, hend, hfit⟩ := r.fields hrs
    have hnext : msg.drop (pos + r.bytes.length) = rs.flatMap WireRecord.bytes ++ tail := by
      rw [← List.drop_drop, hrs, List.drop_left]
    rw [WireRecord.bytes, List.append_assoc] at hrs
    have hskipped : IsSkipped msg r.name := ⟨pos, _, nameEnd, hrs, hname⟩
    obtain rfl := skipNameInMessage_eq hrs hname
    rw [if_neg (by omega), hlen, hend] at h
    dsimp only at h
    rw [if_neg (by omega)] at h
    refine List.forall_mem_cons.mpr ⟨hskipped, ?_⟩
    split at h
    · exact ih hnext h
    · exact ih hnext h

/-- All names of a message that is stripped are skipped. -/
theorem isSkipped_of_strip {result : Bytes} (hadds : m.additionals ≠ [])
    (h : stripOptFromMessage (m.bytes ++ []) = some result) :
    ∀ n ∈ m.names, IsSkipped (m.bytes ++ []) n := by
  obtain ⟨hlen, hqd, hrr, har⟩ := WireMessage.counts (show m.bytes ++ [] = m.bytes ++ [] from rfl)
  have hpos := List.length_pos_iff.mpr hadds
  rw [stripOptFromMessage, if_neg (Nat.not_lt.mpr hlen)] at h
  dsimp only at h
  rw [if_neg (by omega), hqd, hrr, har, Option.bind_eq_some_iff] at h
  obtain ⟨offset, hquestions, h⟩ := h
  obtain ⟨start, hrecords, h⟩ := Option.bind_eq_some_iff.mp h
  obtain ⟨out, hadditionals, -⟩ := Option.map_eq_some_iff.mp h
  have hq := isSkipped_questions (m.drop_questions []) hquestions
  obtain ⟨qs, tail, hqs, hdrop, rfl⟩ := stripSkipQuestions_some hquestions
  obtain ⟨rfl, -⟩ := flatMap_inj WireQuestion.bytes_inj hqs
    (hdrop.symm.trans (m.drop_questions []))
  have hr := isSkipped_records (m.drop_records []) hrecords
  obtain rfl := skipRrs_eq (m.drop_records []) hrecords
  have ha := isSkipped_additionals (m.drop_additionals []) hadditionals
  intro n hn
  simp only [WireMessage.names, List.mem_append, List.mem_map] at hn
  rcases hn with ⟨q, hmem, rfl⟩ | ⟨r, hmem | hmem, rfl⟩
  · exact hq q hmem
  · exact hr r (List.mem_append.mpr hmem)
  · exact ha r hmem

/-! ## The three functions agree -/

/-- Every name of the message is read between the header and its end. -/
def WireMessage.WellFormed (m : WireMessage) : Prop :=
  ∀ n ∈ m.names, ∃ hops labels, n.Follows m.bytes m.bytes.length hops labels

/-- No name of the message goes through more than 128 pointers. -/
def WireMessage.FewPointers (m : WireMessage) : Prop :=
  ∀ n ∈ m.names, ∀ hops labels, n.Follows m.bytes m.bytes.length hops labels → hops ≤ 128

/-- The record that is appended to the message is found, extracted as it was, and stripped. -/
def Agree (m : WireMessage) (opt : OptRecord) : Prop :=
  ∃ msg, appendOptToQuery m.bytes opt = some msg ∧ hasOptRecord msg = true ∧
    extractOptRecord msg = some opt ∧ stripOptFromMessage msg = some m.bytes

/-- What agrees has no name with too many pointers. -/
theorem Agree.fewPointers (h : Agree m opt) (hopts : ∀ r ∈ m.additionals, ¬r.IsOpt)
    (hcount : m.additionals.length < 65535) (hrdata : opt.rdata.length < 2 ^ 16) :
    m.FewPointers := by
  intro n hn hops labels hfollows
  obtain ⟨msg, happend, -, -, hstrip⟩ := h
  rw [appendOptToQuery_eq hopts hcount hrdata] at happend
  rw [← Option.some.inj happend, ← List.append_nil (WireMessage.bytes _)] at hstrip
  obtain ⟨pos, tail, e, hdrop, hskip⟩ := isSkipped_of_strip (by simp [WireMessage.append]) hstrip n
    (by rw [names_append]; exact List.mem_append_left _ hn)
  rw [List.append_nil] at hdrop hskip
  exact (hfollows.congr (agreeTo_append hcount)).hops_le hdrop hskip

/-- On a well-formed message without `OPT` records and with fewer than 65535 additional records,
    and for a record whose options fit into 16 bits, the functions agree exactly if no name goes
    through more pointers than they follow. -/
theorem append_extract_strip_iff (m : WireMessage) (hm : m.WellFormed)
    (hopts : ∀ r ∈ m.additionals, ¬r.IsOpt) (hcount : m.additionals.length < 65535)
    (opt : OptRecord) (hrdata : opt.rdata.length < 2 ^ 16) : Agree m opt ↔ m.FewPointers := by
  constructor
  · exact fun h => h.fewPointers hopts hcount hrdata
  · intro hfew
    have hnames : ∀ n ∈ m.names, Skippable m.bytes n := by
      intro n hn
      obtain ⟨hops, labels, hfollows⟩ := hm n hn
      exact ⟨hops, labels, hfollows, hfew n hn hops labels hfollows⟩
    have hskip := skippable_append hcount hnames
      (show (opt.record hrdata).name = rootName from rfl)
    have hopt := OptRecord.record_isOpt hrdata
    have hmsg := (List.append_nil (m.append (opt.record hrdata) hcount).bytes).symm
    obtain ⟨hfound, hextract⟩ := extractOptRecord_ok hmsg hskip rfl hopts hopt
    refine ⟨_, appendOptToQuery_eq hopts hcount hrdata, hfound, ?_, ?_⟩
    · rw [hextract]
      exact OptRecord.parse_fixed hrdata
    · rw [stripOptFromMessage_ok hmsg hskip (by simp [WireMessage.append]),
        withoutOpt_append hopts hcount hopt]

/-! ## Two messages -/

theorem isPointer_c0 : IsPointer (0xC0 : UInt8).toNat := by decide

/-- A response to a question for `a`, with a record that leads to the name of the question. -/
def pointerMessage : WireMessage :=
  smallMessage answeredMessage.questions [emptyRecord (pointerName 0xC0 0x0C isPointer_c0) 1]
    (by decide) (by decide)

theorem readsWithin_pointerMessage :
    ReadsWithin pointerMessage.bytes pointerMessage.bytes.length 0 12 [[0x61]] :=
  (readsWithin_nameA (by decide) (by decide) (by decide) (by decide)).mono (by decide)

theorem names_pointerMessage :
    pointerMessage.names = [nameA, pointerName 0xC0 0x0C isPointer_c0] := rfl

/-- A record that asks for DNSSEC and has a cookie is appended, extracted and stripped. -/
theorem append_extract_strip_cookie :
    Agree pointerMessage ⟨4096, 0, 0, ⟨true⟩, [⟨10, [1, 2, 3, 4, 5, 6, 7, 8]⟩]⟩ := by
  have hpointer : (pointerName 0xC0 0x0C isPointer_c0).Follows pointerMessage.bytes
      pointerMessage.bytes.length 1 [[0x61]] :=
    follows_pointerName (by decide) readsWithin_pointerMessage
  refine (append_extract_strip_iff _ ?_ ?_ (by decide) _ (by decide)).mpr ?_
  · intro n hn
    rw [names_pointerMessage, List.mem_cons, List.mem_singleton] at hn
    rcases hn with rfl | rfl
    · exact ⟨0, _, follows_nameA⟩
    · exact ⟨1, _, hpointer⟩
  · intro r hr
    rw [List.mem_singleton.mp hr]
    decide
  · intro n hn hops labels h
    rw [names_pointerMessage, List.mem_cons, List.mem_singleton] at hn
    rcases hn with rfl | rfl
    · rw [h.hops_unique (@follows_nameA _ 0)]
      decide
    · rw [h.hops_unique hpointer]
      decide

theorem isPointer_or (y : UInt8) : IsPointer (0xC0 ||| y).toNat := by
  rw [IsPointer, UInt8.toNat_or]
  apply Nat.eq_of_testBit_eq
  intro i
  rw [Nat.testBit_and, Nat.testBit_or]
  have hmask : (0xC0 : UInt8).toNat = 0xC0 := rfl
  rw [hmask]
  cases Nat.testBit 0xC0 i with
  | false => rw [Bool.and_false]
  | true => rw [Bool.true_or, Bool.and_self]

/-- Where the names of `chainMessage` stand. -/
def chainOffset : ℕ → ℕ
  | 0 => 12
  | k + 1 => 19 + 12 * k

/-- A record whose name leads to the one in front of it. -/
def chainRecord (k : ℕ) : WireRecord :=
  emptyRecord (pointerName (0xC0 ||| UInt8.ofNat (chainOffset k / 256))
    (UInt8.ofNat (chainOffset k)) (isPointer_or _)) 10

/-- A response to a question for `a`, with 129 records each of which leads to the name in front of
    it. -/
def chainMessage : WireMessage :=
  smallMessage answeredMessage.questions ((List.range 129).map chainRecord) (by decide) (by simp)

theorem length_chainRecord (k : ℕ) : (chainRecord k).bytes.length = 12 := rfl

theorem length_chainRecords (ks : List ℕ) :
    ((ks.map chainRecord).flatMap WireRecord.bytes).length = 12 * ks.length := by
  induction ks with
  | nil => rfl
  | cons k ks ih =>
    rw [List.map_cons, List.flatMap_cons, List.length_append, ih, length_chainRecord,
      List.length_cons, Nat.mul_succ, Nat.add_comm]

theorem chainMessage_drop {k : ℕ} (hk : k < 129) : ∃ tail,
    chainMessage.bytes.drop (chainOffset (k + 1)) = (chainRecord k).bytes ++ tail := by
  have hsplit : List.range 129 = (List.range 129).take k ++ k :: (List.range 129).drop (k + 1) := by
    conv_lhs => rw [← List.take_append_drop k (List.range 129)]
    rw [List.drop_eq_getElem_cons (by simpa using hk), List.getElem_range]
  have hlen : ((List.range 129).take k).length = k := by
    rw [List.length_take, List.length_range]
    omega
  have hdrop : chainMessage.bytes.drop 19 =
      ((List.range 129).map chainRecord).flatMap WireRecord.bytes := by
    have hadditionals := chainMessage.drop_additionals []
    rw [List.append_nil, List.append_nil] at hadditionals
    exact hadditionals
  rw [hsplit, List.map_append, List.flatMap_append] at hdrop
  have hstart : chainOffset (k + 1) = 19 + 12 * ((List.range 129).take k).length := by
    rw [hlen]
    rfl
  rw [hstart, ← List.drop_drop, ← length_chainRecords]
  rw [hdrop, List.drop_left]
  exact ⟨_, rfl⟩

theorem pointerTarget_chain : ∀ k < 129, pointerTarget (0xC0 ||| UInt8.ofNat (chainOffset k / 256))
    (UInt8.ofNat (chainOffset k)) = chainOffset k := by
  decide

/-- The name of the record leads through all names in front of it. -/
theorem readsWithin_chain {k : ℕ} (hk : k ≤ 129) :
    ReadsWithin chainMessage.bytes chainMessage.bytes.length k (chainOffset k) [[0x61]] := by
  induction k with
  | zero =>
    have hquestion := chainMessage.drop_questions []
    rw [List.append_nil] at hquestion
    obtain ⟨hlen, hrest⟩ := getElem?_of_drop (b := 1) hquestion
    obtain ⟨ha, hrest⟩ := getElem?_of_drop (b := 0x61) hrest
    obtain ⟨hroot, -⟩ := getElem?_of_drop (b := 0) hrest
    refine (readsWithin_nameA (by decide) hlen ha hroot).mono ?_
    have := (List.getElem?_eq_some_iff.mp hroot).1
    exact this
  | succ k ih =>
    obtain ⟨tail, hdrop⟩ := chainMessage_drop (show k < 129 by omega)
    obtain ⟨hhi, hrest⟩ := getElem?_of_drop
      (b := 0xC0 ||| UInt8.ofNat (chainOffset k / 256)) hdrop
    obtain ⟨hlo, -⟩ := getElem?_of_drop (b := UInt8.ofNat (chainOffset k)) hrest
    have hend := (List.getElem?_eq_some_iff.mp hlo).1
    have hstart : headerSize ≤ chainOffset (k + 1) := by
      simp only [chainOffset, headerSize]
      omega
    refine .pointer hstart hend hhi (isPointer_or _) hlo ?_
    rw [pointerTarget_chain k (by omega)]
    exact ih (by omega)

theorem follows_chainRecord {k : ℕ} (hk : k < 129) : (chainRecord k).name.Follows
    chainMessage.bytes chainMessage.bytes.length (k + 1) [[0x61]] := by
  refine follows_pointerName (isPointer_or _) ?_
  rw [pointerTarget_chain k hk]
  exact readsWithin_chain (by omega)

theorem wellFormed_chainMessage : chainMessage.WellFormed := by
  intro n hn
  have hnames : chainMessage.names =
      nameA :: ((List.range 129).map chainRecord).map (·.name) := rfl
  rw [hnames, List.mem_cons, List.mem_map] at hn
  obtain rfl | ⟨r, hr, rfl⟩ := hn
  · exact ⟨0, _, follows_nameA⟩
  · obtain ⟨k, hk, rfl⟩ := List.mem_map.mp hr
    exact ⟨k + 1, _, follows_chainRecord (List.mem_range.mp hk)⟩

/-- The name of the last record goes through 129 pointers: the record that is appended behind it
    is not found. -/
theorem long_chain_hides_opt : ¬∀ (m : WireMessage) (opt : OptRecord), m.WellFormed →
    (∀ r ∈ m.additionals, ¬r.IsOpt) → m.additionals.length < 65535 →
      opt.rdata.length < 2 ^ 16 → Agree m opt := by
  intro h
  have hopts : ∀ r ∈ chainMessage.additionals, ¬r.IsOpt := by
    intro r hr
    obtain ⟨k, -, rfl⟩ := List.mem_map.mp hr
    show ¬be16 [0, 10, 0, 1, 0, 0, 0, 0, 0, 0] 0 = optRecord
    decide
  have hcount : chainMessage.additionals.length < 65535 := by
    show ((List.range 129).map chainRecord).length < 65535
    simp
  have hrdata : (⟨4096, 0, 0, ⟨false⟩, []⟩ : OptRecord).rdata.length < 2 ^ 16 := by decide
  have hagree := h chainMessage _ wellFormed_chainMessage hopts hcount hrdata
  have hlast : (chainRecord 128).name ∈ chainMessage.names :=
    List.mem_append_right _ (List.mem_map_of_mem
      (List.mem_map_of_mem (List.mem_range.mpr (by decide))))
  have hfew := hagree.fewPointers hopts hcount hrdata _ hlast _ _ (follows_chainRecord (by decide))
  exact absurd hfew (by decide)

end OxidizedSystemd.Resolved
