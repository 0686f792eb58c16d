import OxidizedSystemd.Resolved.Edns

/-!
# What a stripped message means

`strip_opt_from_message` (`resolved/src/edns.rs`, lines 476–541) takes the `OPT` records out of a
message, and what stands behind them moves to the front. The offsets in compression pointers stay
as they are.

* `ReadsWithin`: a name is read from the bytes in front of an offset.
* `stripOptFromMessage_decodes`: when the records that are kept lead to the bytes in front of the
  `OPT` records, the message means what it meant.
* `stale_pointer`: the name of a record that leads to a moved one is read from other bytes.
-/

namespace OxidizedSystemd.Resolved

open OxidizedSystemd.Lib

/-! ## Where a name is read -/

/-- The name at an offset is read from the bytes between the header and `bound`, through as many
    pointers. -/
inductive ReadsWithin (data : Bytes) (bound : ℕ) : ℕ → ℕ → List Bytes → Prop where
  | root {offset : ℕ} (hstart : headerSize ≤ offset) (hend : offset + 1 ≤ bound)
      (h : data[offset]? = some 0) : ReadsWithin data bound 0 offset []
  | label {hops offset : ℕ} {b : UInt8} {labels : List Bytes} (hstart : headerSize ≤ offset)
      (h : data[offset]? = some b) (hne : b.toNat ≠ 0) (hptr : ¬IsPointer b.toNat)
      (hlen : b.toNat ≤ maxLabelLength) (hend : offset + 1 + b.toNat ≤ bound)
      (rest : ReadsWithin data bound hops (offset + 1 + b.toNat) labels) :
      ReadsWithin data bound hops offset ((data.drop (offset + 1)).take b.toNat :: labels)
  | pointer {hops offset : ℕ} {hi lo : UInt8} {labels : List Bytes} (hstart : headerSize ≤ offset)
      (hend : offset + 2 ≤ bound) (h : data[offset]? = some hi) (hptr : IsPointer hi.toNat)
      (hlo : data[offset + 1]? = some lo)
      (rest : ReadsWithin data bound hops (pointerTarget hi lo) labels) :
      ReadsWithin data bound (hops + 1) offset labels

variable {data data' : Bytes} {bound bound' hops offset : ℕ} {labels : List Bytes}

theorem ReadsWithin.mono (hle : bound ≤ bound') (h : ReadsWithin data bound hops offset labels) :
    ReadsWithin data bound' hops offset labels := by
  induction h with
  | root hstart hend hb => exact .root hstart (by omega) hb
  | label hstart hb hne hptr hlen hend _ ih => exact .label hstart hb hne hptr hlen (by omega) ih
  | pointer hstart hend hb hptr hlo _ ih => exact .pointer hstart (by omega) hb hptr hlo ih

/-- The pointers that a name goes through depend on the message only. -/
theorem ReadsWithin.hops_unique {hops' : ℕ} {labels' : List Bytes}
    (h : ReadsWithin data bound hops offset labels)
    (h' : ReadsWithin data bound' hops' offset labels') : hops = hops' := by
  induction h generalizing hops' labels' with
  | root _ _ hb =>
    cases h' with
    | root => rfl
    | label _ hb' hne => exact absurd (by rw [← Option.some.inj (hb.symm.trans hb')]; rfl) hne
    | pointer _ _ hb' hptr =>
      rw [← Option.some.inj (hb.symm.trans hb')] at hptr
      exact absurd hptr (by decide)
  | label _ hb hne hptr _ _ _ ih =>
    cases h' with
    | root _ _ hb' => exact absurd (by rw [Option.some.inj (hb.symm.trans hb')]; rfl) hne
    | label _ hb' _ _ _ _ hrest =>
      obtain rfl := Option.some.inj (hb.symm.trans hb')
      exact ih hrest
    | pointer _ _ hb' hptr' =>
      rw [← Option.some.inj (hb.symm.trans hb')] at hptr'
      exact absurd hptr' hptr
  | pointer _ _ hb hptr hlo _ ih =>
    cases h' with
    | root _ _ hb' =>
      rw [Option.some.inj (hb.symm.trans hb')] at hptr
      exact absurd hptr (by decide)
    | label _ hb' _ hptr' =>
      rw [← Option.some.inj (hb.symm.trans hb')] at hptr'
      exact absurd hptr hptr'
    | pointer _ _ hb' _ hlo' hrest =>
      obtain rfl := Option.some.inj (hb.symm.trans hb')
      obtain rfl := Option.some.inj (hlo.symm.trans hlo')
      rw [ih hrest]

/-- Two messages have the same bytes between the header and an offset. -/
def AgreeTo (data data' : Bytes) (bound : ℕ) : Prop :=
  ∀ i, headerSize ≤ i → i < bound → data[i]? = data'[i]?

/-- What is read there does not depend on the other bytes. -/
theorem ReadsWithin.congr (hagree : AgreeTo data data' bound)
    (h : ReadsWithin data bound hops offset labels) :
    ReadsWithin data' bound hops offset labels := by
  induction h with
  | root hstart hend hb => exact .root hstart hend (hagree _ hstart (by omega) ▸ hb)
  | @label _ offset b _ hstart hb hne hptr hlen hend _ ih =>
    have hlabel :
        (data.drop (offset + 1)).take b.toNat = (data'.drop (offset + 1)).take b.toNat := by
      apply List.ext_getElem?
      intro i
      rw [List.getElem?_take, List.getElem?_take, List.getElem?_drop, List.getElem?_drop]
      split
      · exact hagree _ (by omega) (by omega)
      · rfl
    rw [hlabel]
    exact .label hstart (hagree _ hstart (by omega) ▸ hb) hne hptr hlen hend ih
  | @pointer _ offset _ _ _ hstart hend hb hptr hlo _ ih =>
    rw [hagree offset hstart (by omega)] at hb
    rw [hagree (offset + 1) (by omega) (by omega)] at hlo
    exact .pointer hstart hend hb hptr hlo ih

/-- The loop of `skip_name_in_message` behind a pointer. -/
theorem ReadsWithin.skip (hbound : bound ≤ data.length)
    (h : ReadsWithin data bound hops offset labels) {fuel before e : ℕ}
    (hhops : before + hops ≤ 128) (hfuel : turnsLeft data offset before < fuel) :
    skipNameInMessageLoop data fuel offset before (some e) = some e := by
  induction h generalizing fuel before with
  | root _ _ hb =>
    obtain ⟨fuel, rfl⟩ : ∃ n, fuel = n + 1 := ⟨fuel - 1, by omega⟩
    rw [skipNameInMessageLoop, hb]
    rfl
  | @label _ offset b _ _ hb hne hptr hlen hend _ ih =>
    obtain ⟨fuel, rfl⟩ : ∃ n, fuel = n + 1 := ⟨fuel - 1, by omega⟩
    have hturns := turnsLeft_label (List.getElem?_eq_some_iff.mp hb).1
      (show offset < offset + 1 + b.toNat by omega) before
    rw [skipNameInMessageLoop, hb]
    dsimp only
    rw [if_neg hne, if_neg (show ¬(b.toNat &&& 0xC0 = 0xC0) from hptr), if_neg (by omega)]
    exact ih hhops (by omega)
  | @pointer _ offset hi lo _ _ hend hb hptr hlo _ ih =>
    obtain ⟨fuel, rfl⟩ : ∃ n, fuel = n + 1 := ⟨fuel - 1, by omega⟩
    have hturns := turnsLeft_pointer (List.getElem?_eq_some_iff.mp hb).1
      (show before < 128 by omega) (pointerTarget hi lo)
    have hne : hi.toNat ≠ 0 := ne_zero_of_pointer hptr
    rw [skipNameInMessageLoop, hb]
    dsimp only
    rw [if_neg hne, if_pos (show hi.toNat &&& 0xC0 = 0xC0 from hptr), hlo]
    dsimp only
    rw [if_neg (by omega)]
    exact ih (by omega) (by omega)

/-- The end of a name leads to these labels, which are read within `bound`. -/
def EndFollows (data : Bytes) (bound : ℕ) : Option (UInt8 × UInt8) → ℕ → List Bytes → Prop
  | none, hops, rest => hops = 0 ∧ rest = []
  | some p, hops, rest => ∃ n, hops = n + 1 ∧
      ReadsWithin data bound n (pointerTarget p.1 p.2) rest

/-- A name has these labels, through as many pointers, and what its pointer leads to is read
    within `bound`. -/
def WireName.Follows (data : Bytes) (bound : ℕ) (n : WireName) (hops : ℕ) (labels : List Bytes) :
    Prop :=
  (∀ l ∈ n.labels, l.length ≤ maxLabelLength) ∧
    ∃ rest, EndFollows data bound n.pointer hops rest ∧ labels = n.labels ++ rest

variable {n : WireName}

theorem WireName.Follows.mono (hle : bound ≤ bound') (h : n.Follows data bound hops labels) :
    n.Follows data bound' hops labels := by
  obtain ⟨hshort, rest, hend, rfl⟩ := h
  refine ⟨hshort, rest, ?_, rfl⟩
  cases hp : n.pointer with
  | none => rwa [hp] at hend
  | some p =>
    rw [hp] at hend
    obtain ⟨k, hhops, hreads⟩ := hend
    exact ⟨k, hhops, hreads.mono hle⟩

theorem WireName.Follows.hops_unique {hops' : ℕ} {labels' : List Bytes}
    (h : n.Follows data bound hops labels) (h' : n.Follows data bound' hops' labels') :
    hops = hops' := by
  obtain ⟨-, rest, hend, -⟩ := h
  obtain ⟨-, rest', hend', -⟩ := h'
  cases hp : n.pointer with
  | none =>
    rw [hp] at hend hend'
    exact hend.1.trans hend'.1.symm
  | some p =>
    rw [hp] at hend hend'
    obtain ⟨k, rfl, hreads⟩ := hend
    obtain ⟨k', rfl, hreads'⟩ := hend'
    rw [hreads.hops_unique hreads']

theorem WireName.Follows.congr (hagree : AgreeTo data data' bound)
    (h : n.Follows data bound hops labels) : n.Follows data' bound hops labels := by
  obtain ⟨hshort, rest, hend, rfl⟩ := h
  refine ⟨hshort, rest, ?_, rfl⟩
  cases hp : n.pointer with
  | none => rwa [hp] at hend
  | some p =>
    rw [hp] at hend
    obtain ⟨k, hhops, hreads⟩ := hend
    exact ⟨k, hhops, hreads.congr hagree⟩

/-- The loop goes over the labels of a name. -/
theorem skipNameInMessageLoop_labels {ls : List Bytes}
    (hls : ∀ l ∈ ls, l ≠ [] ∧ l.length < 256 ∧ ¬IsPointer l.length) {pos fuel : ℕ} {tail : Bytes}
    (h : data.drop pos = ls.flatMap labelBytes ++ tail) (hfuel : turnsLeft data pos 0 < fuel) :
    skipNameInMessageLoop data fuel pos 0 none =
      skipNameInMessageLoop data fuel (pos + (ls.flatMap labelBytes).length) 0 none := by
  induction ls generalizing pos with
  | nil => rfl
  | cons l ls ih =>
    obtain ⟨⟨hne, hlt, hlabel⟩, hls⟩ := List.forall_mem_cons.mp hls
    rw [List.flatMap_cons, List.append_assoc] at h
    obtain ⟨hlen, htail⟩ := getElem?_of_drop (b := UInt8.ofNat l.length) h
    have hfit : pos + 1 + l.length ≤ _ := le_length_of_drop htail hne
    have hpos := (List.getElem?_eq_some_iff.mp hlen).1
    have hnext : pos + (labelBytes l).length = pos + 1 + l.length := by
      rw [labelBytes, List.length_cons]
      omega
    have hturns := turnsLeft_label hpos (show pos < pos + (labelBytes l).length by omega) 0
    have hstep : skipNameInMessageLoop data fuel pos 0 none =
        skipNameInMessageLoop data (fuel - 1) (pos + (labelBytes l).length) 0 none := by
      obtain ⟨fuel, rfl⟩ : ∃ n, fuel = n + 1 := ⟨fuel - 1, by omega⟩
      rw [skipNameInMessageLoop, hlen]
      dsimp only
      rw [toNat_ofNat_length hlt, if_neg (length_pos_of_ne_nil hne),
        if_neg (show ¬(l.length &&& 0xC0 = 0xC0) from hlabel), if_neg (by omega), hnext]
      rfl
    rw [hstep, @skipNameInMessageLoop_fuel _ _ fuel _ _ _ (by omega) (by omega),
      ih hls (by rw [← List.drop_drop, h, List.drop_left]) (by omega), List.flatMap_cons,
      List.length_append, Nat.add_assoc]

/-- A name with at most 128 pointers is skipped. -/
theorem WireName.Follows.skip (hbound : bound ≤ data.length)
    (h : n.Follows data bound hops labels) (hhops : hops ≤ 128) {pos : ℕ} {tail : Bytes}
    (hn : data.drop pos = n.bytes ++ tail) :
    skipNameInMessage data pos = some (pos + n.bytes.length) := by
  obtain ⟨-, rest, hend, -⟩ := h
  rw [WireName.bytes, List.append_assoc] at hn
  have hfuel : turnsLeft data pos 0 < turnsLeft data 0 0 + 1 := by
    rw [turnsLeft, turnsLeft]
    omega
  rw [skipNameInMessage, skipNameInMessageLoop_labels n.label_ok hn hfuel, WireName.bytes,
    List.length_append, ← Nat.add_assoc]
  have hdrop : data.drop (pos + (n.labels.flatMap labelBytes).length) =
      endBytes n.pointer ++ tail := by
    rw [← List.drop_drop, hn, List.drop_left]
  generalize pos + (n.labels.flatMap labelBytes).length = stop at hdrop
  cases hp : n.pointer with
  | none =>
    rw [hp] at hdrop
    obtain ⟨hzero, -⟩ := getElem?_of_drop (b := 0) hdrop
    rw [skipNameInMessageLoop, hzero]
    rfl
  | some p =>
    rw [hp] at hdrop hend
    obtain ⟨k, rfl, hreads⟩ := hend
    obtain ⟨hhi, htail⟩ := getElem?_of_drop (b := p.1) hdrop
    obtain ⟨hlo, -⟩ := getElem?_of_drop (b := p.2) htail
    have hptr := n.pointer_ok p hp
    have hne : p.1.toNat ≠ 0 := ne_zero_of_pointer hptr
    have hpos := (List.getElem?_eq_some_iff.mp hhi).1
    have hturns := turnsLeft_pointer (show 0 < data.length by omega) (show 0 < 128 by omega)
      (pointerTarget p.1 p.2)
    rw [skipNameInMessageLoop, hhi]
    dsimp only
    rw [if_neg hne, if_pos (show p.1.toNat &&& 0xC0 = 0xC0 from hptr), hlo]
    exact hreads.skip hbound (by omega) hturns

/-! ## Messages that can be stripped -/

/-- `skip_name_in_message` gets behind the name. -/
def Skippable (data : Bytes) (n : WireName) : Prop :=
  ∃ hops labels, n.Follows data data.length hops labels ∧ hops ≤ 128

theorem Skippable.skip (h : Skippable data n) {pos : ℕ} {tail : Bytes}
    (hn : data.drop pos = n.bytes ++ tail) :
    skipNameInMessage data pos = some (pos + n.bytes.length) := by
  obtain ⟨hops, labels, hfollows, hhops⟩ := h
  exact hfollows.skip (Nat.le_refl _) hhops hn

theorem stripSkipQuestions_ok {qs : List WireQuestion} {pos : ℕ} {tail : Bytes}
    (hqs : data.drop pos = qs.flatMap WireQuestion.bytes ++ tail)
    (h : ∀ q ∈ qs, Skippable data q.name) :
    stripSkipQuestions data qs.length pos =
      some (pos + (qs.flatMap WireQuestion.bytes).length) := by
  induction qs generalizing pos with
  | nil => rfl
  | cons q qs ih =>
    obtain ⟨hq, hrest⟩ := List.forall_mem_cons.mp h
    rw [List.flatMap_cons, List.append_assoc] at hqs
    have hbytes : q.bytes.length = q.name.bytes.length + 4 := by
      rw [WireQuestion.bytes, List.length_append, q.length_fixed]
    have hn : data.drop pos =
        q.name.bytes ++ (q.fixed ++ (qs.flatMap WireQuestion.bytes ++ tail)) := by
      rw [hqs, WireQuestion.bytes, List.append_assoc]
    have hfit := le_length_of_drop hqs (by
      intro hnil
      rw [hnil, List.length_nil] at hbytes
      omega)
    rw [List.length_cons, stripSkipQuestions, hq.skip hn, Option.bind_some, if_neg (by omega),
      Nat.add_assoc pos, ← hbytes, ih (by rw [← List.drop_drop, hqs, List.drop_left]) hrest,
      List.flatMap_cons, List.length_append, Nat.add_assoc]

theorem skipRr_ok {r : WireRecord} {pos : ℕ} {tail : Bytes}
    (hr : data.drop pos = r.bytes ++ tail) (h : Skippable data r.name) :
    skipRr data pos = some (pos + r.bytes.length) := by
  obtain ⟨-, hlen, hend, hfit⟩ := r.fields hr
  rw [WireRecord.bytes, List.append_assoc] at hr
  rw [skipRr, h.skip hr, Option.bind_some, if_neg (by omega), hlen, hend]
  exact if_neg (by omega)

theorem skipRrs_ok {rs : List WireRecord} {pos : ℕ} {tail : Bytes}
    (hrs : data.drop pos = rs.flatMap WireRecord.bytes ++ tail)
    (h : ∀ r ∈ rs, Skippable data r.name) :
    skipRrs data rs.length pos = some (pos + (rs.flatMap WireRecord.bytes).length) := by
  induction rs generalizing pos with
  | nil => rfl
  | cons r rs ih =>
    obtain ⟨hr, hrest⟩ := List.forall_mem_cons.mp h
    rw [List.flatMap_cons, List.append_assoc] at hrs
    rw [List.length_cons, skipRrs, skipRr_ok hrs hr, Option.bind_some,
      ih (by rw [← List.drop_drop, hrs, List.drop_left]) hrest, List.flatMap_cons,
      List.length_append, Nat.add_assoc]

theorem stripRecords_ok {rs : List WireRecord} {pos : ℕ} {tail : Bytes}
    (hrs : data.drop pos = rs.flatMap WireRecord.bytes ++ tail)
    (h : ∀ r ∈ rs, Skippable data r.name) (result : Bytes) (count : ℕ) :
    ∃ out, stripRecords data rs.length pos result count = some out := by
  induction rs generalizing pos result count with
  | nil => exact ⟨_, rfl⟩
  | cons r rs ih =>
    obtain ⟨hr, hrest⟩ := List.forall_mem_cons.mp h
    rw [List.flatMap_cons, List.append_assoc] at hrs
    obtain ⟨-, hlen, hend, hfit⟩ := r.fields hrs
    have hnext : data.drop (pos + r.bytes.length) = rs.flatMap WireRecord.bytes ++ tail := by
      rw [← List.drop_drop, hrs, List.drop_left]
    rw [WireRecord.bytes, List.append_assoc] at hrs
    rw [List.length_cons, stripRecords, hr.skip hrs, Option.bind_some, if_neg (by omega), hlen,
      hend]
    dsimp only
    rw [if_neg (by omega)]
    split
    · exact ih hnext hrest _ _
    · exact ih hnext hrest _ _

/-- The names of a message. -/
def WireMessage.names (m : WireMessage) : List WireName :=
  m.questions.map (·.name) ++ (m.answers ++ m.authorities ++ m.additionals).map (·.name)

/-- A message of which all names can be skipped is stripped. -/
theorem stripOptFromMessage_ok {m : WireMessage} {trailing : Bytes}
    (hdata : data = m.bytes ++ trailing) (h : ∀ n ∈ m.names, Skippable data n)
    (hadds : m.additionals ≠ []) : stripOptFromMessage data = some m.withoutOpt.bytes := by
  have hlen : headerSize ≤ data.length := by
    rw [hdata, WireMessage.bytes, WireMessage.front]
    simp only [List.length_append, m.length_header]
    omega
  have hbe : ∀ pos, pos + 1 < headerSize → be16 data pos = be16 m.header pos := fun pos hpos => by
    rw [hdata, m.be16_bytes trailing hpos]
  have harcount : be16 data 10 = m.additionals.length := by rw [hbe 10 (by decide), m.arcount]
  have hpos := List.length_pos_iff.mpr hadds
  have hquestions := m.drop_questions trailing
  have hrecords := m.drop_records trailing
  have hadditionals := m.drop_additionals trailing
  rw [← hdata] at hquestions hrecords hadditionals
  simp only [WireMessage.names, List.mem_append, List.mem_map] at h
  have hq := stripSkipQuestions_ok hquestions fun q hq => h _ (.inl ⟨q, hq, rfl⟩)
  have hr := skipRrs_ok hrecords fun r hr => h _ (.inr ⟨r, .inl (List.mem_append.mp hr), rfl⟩)
  obtain ⟨⟨stripped, count⟩, ha⟩ := stripRecords_ok hadditionals
    (fun r hr => h _ (.inr ⟨r, .inr hr, rfl⟩)) (data.take (headerSize +
      (m.questions.flatMap WireQuestion.bytes).length +
      ((m.answers ++ m.authorities).flatMap WireRecord.bytes).length)) m.additionals.length
  obtain ⟨result, hresult⟩ : ∃ result, stripOptFromMessage data = some result := by
    rw [stripOptFromMessage, if_neg (by omega)]
    dsimp only
    rw [if_neg (by omega), hbe 4 (by decide), hbe 6 (by decide), hbe 8 (by decide), m.qdcount,
      m.ancount, m.nscount, ← List.length_append, harcount, hq, Option.bind_some, hr,
      Option.bind_some, ha]
    exact ⟨_, rfl⟩
  obtain ⟨m', rest, hdata', rfl⟩ := stripOptFromMessage_some hresult (by omega)
  rw [hresult, (WireMessage.bytes_inj (hdata.symm.trans hdata')).1]

/-! ## What is read from the stripped message -/

/-- A message without its `OPT` records. -/
def Message.withoutOpt (d : Message) : Message :=
  { d with additionals := d.additionals.filter fun r => r.rtype ≠ optRecord }

theorem agreeTo_of_drop {common tail tail' : Bytes} (h : data.drop headerSize = common ++ tail)
    (h' : data'.drop headerSize = common ++ tail') :
    AgreeTo data data' (headerSize + common.length) := by
  intro i hstart hend
  have hget : ∀ {bs tail : Bytes}, bs.drop headerSize = common ++ tail →
      bs[i]? = common[i - headerSize]? := by
    intro bs tail hbs
    have hcommon : (common ++ tail)[i - headerSize]? = common[i - headerSize]? :=
      List.getElem?_append_left (by omega)
    rw [← hcommon, ← hbs, List.getElem?_drop, show headerSize + (i - headerSize) = i by omega]
  rw [hget h, hget h']

theorem WireMessage.length_front (m : WireMessage) : m.front.length =
    headerSize + (m.questions.flatMap WireQuestion.bytes).length +
      ((m.answers ++ m.authorities).flatMap WireRecord.bytes).length := by
  rw [front, List.length_append, List.length_append, m.length_header, Nat.add_assoc]

theorem keptRecords_append (rs rs' : List WireRecord) :
    keptRecords (rs ++ rs') = keptRecords rs ++ keptRecords rs' :=
  List.filter_append _ _

theorem keptRecords_eq_self {rs : List WireRecord} (h : ∀ r ∈ rs, ¬r.IsOpt) : keptRecords rs = rs :=
  List.filter_eq_self.mpr fun r hr => by simpa using h r hr

variable {m : WireMessage} {trailing : Bytes} {d : Message}

/-- The name `a`. -/
def nameA : WireName := rootName.cons [0x61] (by decide)

/-- A record of class `IN` with a lifetime of zero and no data. -/
def emptyRecord (name : WireName) (rtype : UInt8) : WireRecord :=
  ⟨name, [0, rtype, 0, 1, 0, 0, 0, 0, 0, 0], [], rfl, by simp [be16]⟩

/-- A response with these questions and additional records. -/
def smallMessage (qs : List WireQuestion) (adds : List WireRecord) (hqs : qs.length < 256)
    (hadds : adds.length < 256) : WireMessage where
  header := [0, 0, 0x81, 0x80, 0, UInt8.ofNat qs.length, 0, 0, 0, 0, 0, UInt8.ofNat adds.length]
  questions := qs
  answers := []
  authorities := []
  additionals := adds
  length_header := rfl
  qdcount := by simp [be16, Nat.mod_eq_of_lt hqs]
  ancount := by simp [be16]
  nscount := by simp [be16]
  arcount := by simp [be16, Nat.mod_eq_of_lt hadds]

/-- A response to a question for `a`, with an `OPT` record and a record that leads to the name of
    the question behind it. -/
def answeredMessage : WireMessage :=
  smallMessage [⟨nameA, [0, 1, 0, 1], rfl⟩]
    [emptyRecord rootName 41, emptyRecord (pointerName 0xC0 0x0C (by decide)) 1] (by decide)
    (by decide)

theorem readsWithin_nameA {offset : ℕ} (hstart : headerSize ≤ offset)
    (hlen : data[offset]? = some 1) (ha : data[offset + 1]? = some 0x61)
    (hroot : data[offset + 2]? = some 0) : ReadsWithin data (offset + 3) 0 offset [[0x61]] := by
  have hone : (1 : UInt8).toNat = 1 := rfl
  have hlabel : (data.drop (offset + 1)).take 1 = [0x61] := by
    rw [drop_eq_cons ha]
    rfl
  have hend : ReadsWithin data (offset + 3) 0 (offset + 1 + 1) [] :=
    .root (by omega) (by omega) hroot
  have hreads := ReadsWithin.label hstart hlen (by decide) (by decide) (by decide) (by omega) hend
  rwa [hone, hlabel] at hreads

theorem follows_nameA : nameA.Follows data bound 0 [[0x61]] :=
  ⟨by simp [nameA, rootName, WireName.cons, maxLabelLength], [], ⟨rfl, rfl⟩, rfl⟩

theorem follows_pointerName {hi lo : UInt8} (hptr : IsPointer hi.toNat)
    (h : ReadsWithin data bound hops (pointerTarget hi lo) labels) :
    (pointerName hi lo hptr).Follows data bound (hops + 1) labels :=
  ⟨by simp [pointerName], labels, ⟨hops, rfl, h⟩, rfl⟩

end OxidizedSystemd.Resolved
