import OxidizedSystemd.Resolved.Cache

/-!
# Messages on the wire

A DNS message as the sequence of its parts (RFC 1035, section 4): the header, the questions and
the records, each with its name as it is written there, and what they mean when the compression
pointers are followed.

* `WireName.bytes_inj`: where a name ends can be read from its bytes.
* `WireName.resolves_iff_nameAt`: the name that `parse_name` reads at an offset.
* `decodes_unique`: a message has one meaning.
-/

namespace OxidizedSystemd.Resolved

open OxidizedSystemd.Lib

/-! ## Names -/

/-- The bits of a compression pointer. -/
def IsPointer (len : ℕ) : Prop := len &&& 0xC0 = 0xC0

instance (len : ℕ) : Decidable (IsPointer len) := inferInstanceAs (Decidable (_ = _))

/-- A name as it is written: its labels, and the pointer in the place of the root. -/
structure WireName where
  labels : List Bytes
  pointer : Option (UInt8 × UInt8)
  label_ok : ∀ l ∈ labels, l ≠ [] ∧ l.length < 256 ∧ ¬IsPointer l.length
  pointer_ok : ∀ p, pointer = some p → IsPointer p.1.toNat

/-- A label behind its length. -/
def labelBytes (l : Bytes) : Bytes := UInt8.ofNat l.length :: l

/-- The end of a name: the root, or a pointer. -/
def endBytes : Option (UInt8 × UInt8) → Bytes
  | none => [0]
  | some p => [p.1, p.2]

def WireName.bytes (n : WireName) : Bytes := n.labels.flatMap labelBytes ++ endBytes n.pointer

/-- The root. -/
def rootName : WireName := ⟨[], none, by simp, by simp⟩

/-- A pointer without a label in front. -/
def pointerName (hi lo : UInt8) (h : IsPointer hi.toNat) : WireName :=
  ⟨[], some (hi, lo), by simp, by simpa using h⟩

/-- A name with a label in front. -/
def WireName.cons (l : Bytes) (h : l ≠ [] ∧ l.length < 256 ∧ ¬IsPointer l.length) (n : WireName) :
    WireName :=
  ⟨l :: n.labels, n.pointer, List.forall_mem_cons.mpr ⟨h, n.label_ok⟩, n.pointer_ok⟩

theorem WireName.bytes_cons {l : Bytes} (h : l ≠ [] ∧ l.length < 256 ∧ ¬IsPointer l.length)
    (n : WireName) : (n.cons l h).bytes = labelBytes l ++ n.bytes :=
  List.append_assoc (labelBytes l) _ _

theorem toNat_ofNat_length {l : Bytes} (h : l.length < 256) :
    (UInt8.ofNat l.length).toNat = l.length := by
  rw [toNat_ofNat, Nat.mod_eq_of_lt h]

theorem length_pos_of_ne_nil {l : Bytes} (h : l ≠ []) : l.length ≠ 0 := by
  rwa [Ne, List.length_eq_zero_iff]

/-- What the labels and the end of a name are, and where it ends. -/
theorem labels_inj {as bs : List Bytes} {p q : Option (UInt8 × UInt8)} {s t : Bytes}
    (has : ∀ l ∈ as, l ≠ [] ∧ l.length < 256 ∧ ¬IsPointer l.length)
    (hbs : ∀ l ∈ bs, l ≠ [] ∧ l.length < 256 ∧ ¬IsPointer l.length)
    (hp : ∀ r, p = some r → IsPointer r.1.toNat) (hq : ∀ r, q = some r → IsPointer r.1.toNat)
    (h : as.flatMap labelBytes ++ (endBytes p ++ s) = bs.flatMap labelBytes ++ (endBytes q ++ t)) :
    as = bs ∧ p = q ∧ s = t := by
  -- A first byte is a length, the root, or a pointer, and no two of these.
  have hend : ∀ (l : Bytes) (r : Option (UInt8 × UInt8)) (u v : Bytes), l ≠ [] → l.length < 256 →
      ¬IsPointer l.length → (∀ x, r = some x → IsPointer x.1.toNat) →
      labelBytes l ++ u ≠ endBytes r ++ v := by
    intro l r u v hne hlt hlabel hr heq
    have hlen := toNat_ofNat_length hlt
    cases r with
    | none =>
      have hbyte : UInt8.ofNat l.length = 0 := (List.cons.inj heq).1
      rw [hbyte] at hlen
      exact length_pos_of_ne_nil hne hlen.symm
    | some x =>
      have hbyte : UInt8.ofNat l.length = x.1 := (List.cons.inj heq).1
      rw [hbyte] at hlen
      exact hlabel (hlen ▸ hr x rfl)
  induction as generalizing bs with
  | nil =>
    cases bs with
    | nil =>
      refine ⟨rfl, ?_⟩
      rw [List.flatMap_nil, List.nil_append, List.nil_append] at h
      cases p with
      | none =>
        cases q with
        | none => exact ⟨rfl, (List.cons.inj h).2⟩
        | some y =>
          have hy := hq y rfl
          rw [← (List.cons.inj h).1] at hy
          exact absurd hy (by decide)
      | some x =>
        cases q with
        | none =>
          have hx := hp x rfl
          rw [(List.cons.inj h).1] at hx
          exact absurd hx (by decide)
        | some y =>
          obtain ⟨h1, h⟩ := List.cons.inj h
          obtain ⟨h2, h⟩ := List.cons.inj h
          exact ⟨congrArg some (Prod.ext h1 h2), h⟩
    | cons b bs =>
      obtain ⟨hne, hlt, hlabel⟩ := hbs b List.mem_cons_self
      rw [List.flatMap_cons, List.append_assoc] at h
      exact absurd h.symm (hend b p _ s hne hlt hlabel hp)
  | cons a as ih =>
    obtain ⟨⟨hne, hlt, hlabel⟩, has⟩ := List.forall_mem_cons.mp has
    rw [List.flatMap_cons, List.append_assoc] at h
    cases bs with
    | nil => exact absurd h (hend a q _ t hne hlt hlabel hq)
    | cons b bs =>
      obtain ⟨⟨_, hlt', -⟩, hbs'⟩ := List.forall_mem_cons.mp hbs
      rw [List.flatMap_cons, List.append_assoc] at h
      obtain ⟨hbyte, htail⟩ := List.cons.inj h
      have hlen : a.length = b.length := by
        rw [← toNat_ofNat_length hlt, hbyte, toNat_ofNat_length hlt']
      obtain ⟨hab, hrest⟩ := List.append_inj htail hlen
      obtain ⟨hlabels, hpq⟩ := ih has hbs' hrest
      exact ⟨by rw [hab, hlabels], hpq⟩

/-- Where a name ends can be read from its bytes. -/
theorem WireName.bytes_inj {n n' : WireName} {s t : Bytes} (h : n.bytes ++ s = n'.bytes ++ t) :
    n = n' ∧ s = t := by
  rw [bytes, bytes, List.append_assoc, List.append_assoc] at h
  obtain ⟨hlabels, hpointer, hrest⟩ :=
    labels_inj n.label_ok n'.label_ok n.pointer_ok n'.pointer_ok h
  cases n
  cases n'
  cases hlabels
  cases hpointer
  exact ⟨rfl, hrest⟩

/-! ## Messages -/

/-- A question as it is written, with the bytes of its type and class. -/
structure WireQuestion where
  name : WireName
  fixed : Bytes
  length_fixed : fixed.length = 4

def WireQuestion.bytes (q : WireQuestion) : Bytes := q.name.bytes ++ q.fixed

/-- A record as it is written, with the bytes of its type, class and lifetime and of the length
    of its data. -/
structure WireRecord where
  name : WireName
  fixed : Bytes
  rdata : Bytes
  length_fixed : fixed.length = 10
  length_rdata : rdata.length = be16 fixed 8

def WireRecord.bytes (r : WireRecord) : Bytes := r.name.bytes ++ (r.fixed ++ r.rdata)

def WireRecord.rtype (r : WireRecord) : ℕ := be16 r.fixed 0

/-- The record is an `OPT` record. -/
def WireRecord.IsOpt (r : WireRecord) : Prop := r.rtype = optRecord

instance (r : WireRecord) : Decidable r.IsOpt := inferInstanceAs (Decidable (_ = _))

/-- A message as it is written: as many questions and records as its header says. -/
structure WireMessage where
  header : Bytes
  questions : List WireQuestion
  answers : List WireRecord
  authorities : List WireRecord
  additionals : List WireRecord
  length_header : header.length = headerSize
  qdcount : be16 header 4 = questions.length
  ancount : be16 header 6 = answers.length
  nscount : be16 header 8 = authorities.length
  arcount : be16 header 10 = additionals.length

/-- What lies in front of the additional section. -/
def WireMessage.front (m : WireMessage) : Bytes :=
  m.header ++ (m.questions.flatMap WireQuestion.bytes ++
    (m.answers ++ m.authorities).flatMap WireRecord.bytes)

def WireMessage.bytes (m : WireMessage) : Bytes :=
  m.front ++ m.additionals.flatMap WireRecord.bytes

theorem be16_append_left {as : Bytes} {pos : ℕ} (h : pos + 1 < as.length) (bs : Bytes) :
    be16 (as ++ bs) pos = be16 as pos := by
  rw [be16, be16, List.getD_eq_getElem?_getD, List.getD_eq_getElem?_getD,
    List.getElem?_append_left (by omega), List.getElem?_append_left h,
    ← List.getD_eq_getElem?_getD, ← List.getD_eq_getElem?_getD]

theorem be16_drop (data : Bytes) (off pos : ℕ) :
    be16 (data.drop off) pos = be16 data (off + pos) := by
  rw [be16, be16, List.getD_eq_getElem?_getD, List.getD_eq_getElem?_getD, List.getElem?_drop,
    List.getElem?_drop, ← Nat.add_assoc, ← List.getD_eq_getElem?_getD, ← List.getD_eq_getElem?_getD]

theorem WireMessage.be16_bytes (m : WireMessage) (trailing : Bytes) {pos : ℕ}
    (h : pos + 1 < headerSize) : be16 (m.bytes ++ trailing) pos = be16 m.header pos := by
  rw [bytes, front, List.append_assoc, List.append_assoc]
  exact be16_append_left (by rwa [m.length_header]) _

/-- Parts of which each shows where it ends are known from their bytes. -/
theorem flatMap_inj {α : Type} {enc : α → Bytes}
    (henc : ∀ {a b : α} {s t : Bytes}, enc a ++ s = enc b ++ t → a = b ∧ s = t)
    {as bs : List α} (hlen : as.length = bs.length) {s t : Bytes}
    (h : as.flatMap enc ++ s = bs.flatMap enc ++ t) : as = bs ∧ s = t := by
  induction as generalizing bs with
  | nil =>
    obtain rfl := List.length_eq_zero_iff.mp hlen.symm
    exact ⟨rfl, h⟩
  | cons a as ih =>
    cases bs with
    | nil => cases hlen
    | cons b bs =>
      rw [List.flatMap_cons, List.flatMap_cons, List.append_assoc, List.append_assoc] at h
      obtain ⟨rfl, htail⟩ := henc h
      obtain ⟨rfl, hrest⟩ := ih (Nat.succ.inj hlen) htail
      exact ⟨rfl, hrest⟩

theorem WireQuestion.bytes_inj {q q' : WireQuestion} {s t : Bytes}
    (h : q.bytes ++ s = q'.bytes ++ t) : q = q' ∧ s = t := by
  rw [bytes, bytes, List.append_assoc, List.append_assoc] at h
  obtain ⟨hname, htail⟩ := WireName.bytes_inj h
  obtain ⟨hfixed, hrest⟩ := List.append_inj htail (q.length_fixed.trans q'.length_fixed.symm)
  cases q
  cases q'
  cases hname
  cases hfixed
  exact ⟨rfl, hrest⟩

theorem WireRecord.bytes_inj {r r' : WireRecord} {s t : Bytes}
    (h : r.bytes ++ s = r'.bytes ++ t) : r = r' ∧ s = t := by
  simp only [bytes, List.append_assoc] at h
  obtain ⟨hname, htail⟩ := WireName.bytes_inj h
  obtain ⟨hfixed, htail⟩ := List.append_inj htail (r.length_fixed.trans r'.length_fixed.symm)
  obtain ⟨hrdata, hrest⟩ := List.append_inj htail
    (by rw [r.length_rdata, r'.length_rdata, hfixed])
  cases r
  cases r'
  cases hname
  cases hfixed
  cases hrdata
  exact ⟨rfl, hrest⟩

/-- The parts of a message are known from its bytes. -/
theorem WireMessage.bytes_inj {m m' : WireMessage} {s t : Bytes}
    (h : m.bytes ++ s = m'.bytes ++ t) : m = m' ∧ s = t := by
  have hparts : ∀ m : WireMessage, ∀ s, m.bytes ++ s = m.header ++
      (m.questions.flatMap WireQuestion.bytes ++ (m.answers.flatMap WireRecord.bytes ++
        (m.authorities.flatMap WireRecord.bytes ++
          (m.additionals.flatMap WireRecord.bytes ++ s)))) := by
    intro m s
    simp only [bytes, front, List.flatMap_append, List.append_assoc]
  rw [hparts, hparts] at h
  obtain ⟨hheader, h⟩ := List.append_inj h (m.length_header.trans m'.length_header.symm)
  obtain ⟨hquestions, h⟩ := flatMap_inj WireQuestion.bytes_inj
    (by rw [← m.qdcount, ← m'.qdcount, hheader]) h
  obtain ⟨hanswers, h⟩ := flatMap_inj WireRecord.bytes_inj
    (by rw [← m.ancount, ← m'.ancount, hheader]) h
  obtain ⟨hauthorities, h⟩ := flatMap_inj WireRecord.bytes_inj
    (by rw [← m.nscount, ← m'.nscount, hheader]) h
  obtain ⟨hadditionals, hrest⟩ := flatMap_inj WireRecord.bytes_inj
    (by rw [← m.arcount, ← m'.arcount, hheader]) h
  cases m
  cases m'
  cases hheader
  cases hquestions
  cases hanswers
  cases hauthorities
  cases hadditionals
  exact ⟨rfl, hrest⟩

/-! ## Meaning -/

/-- The labels that the end of a name leads to. -/
def EndResolves (data : Bytes) : Option (UInt8 × UInt8) → List Bytes → Prop
  | none, rest => rest = []
  | some p, rest => ∃ behind, NameAt data (pointerTarget p.1 p.2) rest behind

/-- The labels of a name, those that its pointer leads to behind its own. -/
def WireName.Resolves (data : Bytes) (n : WireName) (labels : List Bytes) : Prop :=
  (∀ l ∈ n.labels, l.length ≤ maxLabelLength) ∧
    ∃ rest, EndResolves data n.pointer rest ∧ labels = n.labels ++ rest

structure Question where
  name : List Bytes
  qtype : ℕ
  qclass : ℕ

structure Record where
  name : List Bytes
  rtype : ℕ
  rclass : ℕ
  ttl : ℕ
  rdata : Bytes

/-- A message with the compression resolved: the identifier and the flags of its header, its
    question, and the records of its sections. -/
structure Message where
  id : ℕ
  flags : ℕ
  questions : List Question
  answers : List Record
  authorities : List Record
  additionals : List Record

def WireQuestion.Decodes (data : Bytes) (q : WireQuestion) (d : Question) : Prop :=
  ∃ labels, q.name.Resolves data labels ∧
    d = { name := labels, qtype := be16 q.fixed 0, qclass := be16 q.fixed 2 }

def WireRecord.Decodes (data : Bytes) (r : WireRecord) (d : Record) : Prop :=
  ∃ labels, r.name.Resolves data labels ∧
    d =
      { name := labels
        rtype := r.rtype
        rclass := be16 r.fixed 2
        ttl := be32 r.fixed 4
        rdata := r.rdata }

structure WireMessage.Decodes (data : Bytes) (m : WireMessage) (d : Message) : Prop where
  id : d.id = be16 m.header 0
  flags : d.flags = be16 m.header 2
  questions : List.Forall₂ (WireQuestion.Decodes data) m.questions d.questions
  answers : List.Forall₂ (WireRecord.Decodes data) m.answers d.answers
  authorities : List.Forall₂ (WireRecord.Decodes data) m.authorities d.authorities
  additionals : List.Forall₂ (WireRecord.Decodes data) m.additionals d.additionals

/-- The bytes mean this message; what lies behind it is not read. -/
def Decodes (data : Bytes) (d : Message) : Prop :=
  ∃ (m : WireMessage) (trailing : Bytes), data = m.bytes ++ trailing ∧ m.Decodes data d

/-! ## A message has one meaning -/

variable {data : Bytes}

theorem endResolves_unique {p : Option (UInt8 × UInt8)} {rest rest' : List Bytes}
    (h : EndResolves data p rest) (h' : EndResolves data p rest') : rest = rest' := by
  cases p with
  | none => exact Eq.trans h (Eq.symm h')
  | some p =>
    obtain ⟨behind, hname⟩ := h
    obtain ⟨behind', hname'⟩ := h'
    exact (nameAt_unique hname hname').1

theorem WireName.resolves_unique {n : WireName} {labels labels' : List Bytes}
    (h : n.Resolves data labels) (h' : n.Resolves data labels') : labels = labels' := by
  obtain ⟨-, rest, hend, rfl⟩ := h
  obtain ⟨-, rest', hend', rfl⟩ := h'
  rw [endResolves_unique hend hend']

theorem WireQuestion.decodes_unique {q : WireQuestion} {d d' : Question} (h : q.Decodes data d)
    (h' : q.Decodes data d') : d = d' := by
  obtain ⟨labels, hname, rfl⟩ := h
  obtain ⟨labels', hname', rfl⟩ := h'
  rw [WireName.resolves_unique hname hname']

theorem WireRecord.decodes_unique {r : WireRecord} {d d' : Record} (h : r.Decodes data d)
    (h' : r.Decodes data d') : d = d' := by
  obtain ⟨labels, hname, rfl⟩ := h
  obtain ⟨labels', hname', rfl⟩ := h'
  rw [WireName.resolves_unique hname hname']

/-- Bytes have one meaning. -/
theorem decodes_unique {d d' : Message} (h : Decodes data d) (h' : Decodes data d') : d = d' := by
  obtain ⟨m, trailing, hdata, hm⟩ := h
  obtain ⟨m', trailing', hdata', hm'⟩ := h'
  obtain ⟨rfl, -⟩ := WireMessage.bytes_inj (hdata.symm.trans hdata')
  have hquestions := List.right_unique_forall₂' (R := WireQuestion.Decodes data)
    (fun _ _ _ => WireQuestion.decodes_unique) hm.questions hm'.questions
  have hanswers := List.right_unique_forall₂' (R := WireRecord.Decodes data)
    (fun _ _ _ => WireRecord.decodes_unique) hm.answers hm'.answers
  have hauthorities := List.right_unique_forall₂' (R := WireRecord.Decodes data)
    (fun _ _ _ => WireRecord.decodes_unique) hm.authorities hm'.authorities
  have hadditionals := List.right_unique_forall₂' (R := WireRecord.Decodes data)
    (fun _ _ _ => WireRecord.decodes_unique) hm.additionals hm'.additionals
  have hid := hm.id.trans hm'.id.symm
  have hflags := hm.flags.trans hm'.flags.symm
  cases d
  cases d'
  simp_all

/-! ## The names of `parse_name` -/

theorem getElem?_of_drop {pos : ℕ} {b : UInt8} {bs : Bytes} (h : data.drop pos = b :: bs) :
    data[pos]? = some b ∧ data.drop (pos + 1) = bs := by
  constructor
  · have hzero := congrArg (·[0]?) h
    simpa [List.getElem?_drop] using hzero
  · rw [← List.drop_drop, h, List.drop_one, List.tail_cons]

theorem le_length_of_drop {pos : ℕ} {as bs : Bytes} (h : data.drop pos = as ++ bs) (hne : as ≠ []) :
    pos + as.length ≤ data.length := by
  have hlen := congrArg List.length h
  rw [List.length_drop, List.length_append] at hlen
  have hpos := List.length_pos_iff.mpr hne
  omega

theorem nameAt_end_iff {p : Option (UInt8 × UInt8)} (hp : ∀ r, p = some r → IsPointer r.1.toNat)
    {pos behind : ℕ} {tail : Bytes} {labels : List Bytes}
    (h : data.drop pos = endBytes p ++ tail) :
    NameAt data pos labels behind ↔
      EndResolves data p labels ∧ behind = pos + (endBytes p).length := by
  cases p with
  | none =>
    have hroot := NameAt.root (getElem?_of_drop h).1
    constructor
    · intro hname
      obtain ⟨hlabels, hbehind⟩ := nameAt_unique hname hroot
      exact ⟨hlabels, hbehind⟩
    · rintro ⟨rfl, rfl⟩
      exact hroot
  | some r =>
    obtain ⟨hhi, htail⟩ := getElem?_of_drop h
    obtain ⟨hlo, -⟩ := getElem?_of_drop htail
    have hptr := hp r rfl
    constructor
    · intro hname
      cases hname with
      | root hb =>
        rw [Option.some.inj (hhi.symm.trans hb)] at hptr
        exact absurd hptr (by decide)
      | label hb _ hlabel =>
        rw [Option.some.inj (hhi.symm.trans hb)] at hptr
        exact absurd hptr hlabel
      | pointer hb _ hlo' hrest =>
        obtain rfl := Option.some.inj (hhi.symm.trans hb)
        obtain rfl := Option.some.inj (hlo.symm.trans hlo')
        exact ⟨⟨_, hrest⟩, rfl⟩
    · rintro ⟨⟨_, hrest⟩, rfl⟩
      exact NameAt.pointer hhi hptr hlo hrest

theorem nameAt_label_iff {l : Bytes} (hl : l ≠ [] ∧ l.length < 256 ∧ ¬IsPointer l.length)
    {pos behind : ℕ} {tail : Bytes} {labels : List Bytes}
    (h : data.drop pos = labelBytes l ++ tail) :
    NameAt data pos labels behind ↔ l.length ≤ maxLabelLength ∧ ∃ labels',
      labels = l :: labels' ∧ NameAt data (pos + (labelBytes l).length) labels' behind := by
  obtain ⟨hne, hlt, hlabel⟩ := hl
  have hcons : data.drop pos = UInt8.ofNat l.length :: (l ++ tail) := h
  obtain ⟨hlen, htail⟩ := getElem?_of_drop hcons
  have hnat := toNat_ofNat_length hlt
  have htake : (data.drop (pos + 1)).take l.length = l := by rw [htail, List.take_left]
  have hnext : pos + (labelBytes l).length = pos + 1 + l.length := by
    rw [labelBytes, List.length_cons]
    omega
  rw [hnext]
  constructor
  · intro hname
    cases hname with
    | root hb =>
      rw [Option.some.inj (hlen.symm.trans hb)] at hnat
      exact absurd hnat.symm (length_pos_of_ne_nil hne)
    | label hb _ _ hshort _ hrest =>
      obtain rfl := Option.some.inj (hlen.symm.trans hb)
      rw [hnat] at hshort hrest
      exact ⟨hshort, _, by rw [hnat, htake], hrest⟩
    | pointer hb hptr =>
      rw [← Option.some.inj (hlen.symm.trans hb), hnat] at hptr
      exact absurd hptr hlabel
  · rintro ⟨hshort, labels', rfl, hrest⟩
    have hname := NameAt.label hlen (by rw [hnat]; exact length_pos_of_ne_nil hne)
      (by rw [hnat]; exact hlabel) (by rwa [hnat])
      (by rw [hnat]; exact le_length_of_drop htail hne) (by rwa [hnat])
    rwa [hnat, htake] at hname

/-- The labels that `parse_name` reads at the offset of a name. -/
theorem WireName.resolves_iff_nameAt {n : WireName} {pos : ℕ} {tail : Bytes}
    {labels : List Bytes} (h : data.drop pos = n.bytes ++ tail) :
    n.Resolves data labels ↔ NameAt data pos labels (pos + n.bytes.length) := by
  obtain ⟨own, pointer, hown, hpointer⟩ := n
  rw [bytes, List.append_assoc] at h
  rw [Resolves, bytes]
  dsimp only at h ⊢
  -- Over the labels of the name itself; behind them is its end.
  induction own generalizing pos labels with
  | nil =>
    rw [List.flatMap_nil, List.nil_append] at h
    rw [nameAt_end_iff hpointer h]
    simp
  | cons l own ih =>
    obtain ⟨hl, hown'⟩ := List.forall_mem_cons.mp hown
    rw [List.flatMap_cons, List.append_assoc] at h
    have hrest : data.drop (pos + (labelBytes l).length) =
        own.flatMap labelBytes ++ (endBytes pointer ++ tail) := by
      rw [← List.drop_drop, h, List.drop_left]
    rw [nameAt_label_iff hl h, List.forall_mem_cons, List.flatMap_cons, List.append_assoc,
      List.length_append, ← Nat.add_assoc, and_assoc]
    apply and_congr_right
    intro _
    constructor
    · rintro ⟨hshort, rest, hend, rfl⟩
      exact ⟨own ++ rest, rfl, (ih hown' hrest).mp ⟨hshort, rest, hend, rfl⟩⟩
    · rintro ⟨labels', rfl, hname⟩
      obtain ⟨hshort, rest, hend, rfl⟩ := (ih hown' hrest).mpr hname
      exact ⟨hshort, rest, hend, rfl⟩

end OxidizedSystemd.Resolved
