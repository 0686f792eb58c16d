import OxidizedSystemd.Lib.Utf8
import OxidizedSystemd.Resolved.Edns

/-!
# Replies that are made here

Model of the parsing of a query (`resolved/src/dns.rs`, lines 420–472), of the replies of
`build_servfail` and `build_formerr` (lines 642–695) and of those from `/etc/hosts`
(`resolved/src/hosts.rs`, lines 207–278 and 351–459).

* `ednsFree_of_arcount`: a message without additional records has no `OPT` record.
* `EtcHosts.lookup_ednsFree`, `buildServfail_ednsFree`, `buildFormerr_ednsFree`: none of the
  replies has one.
* `stripOptFromMessage_ednsFree`: nor has a stripped message.
-/

namespace OxidizedSystemd.Resolved

open OxidizedSystemd.Lib

/-! ## Queries -/

/-- The fields of `DnsQuestion`. A type is its number: `RecordType` names each in one way. -/
structure DnsQuestion where
  name : List Char
  qtype : ℕ
  qclass : ℕ

/-- What is read of a `DnsMessage`: the `qr` flag of its header, and its questions. -/
structure DnsMessage where
  qr : Bool
  questions : List DnsQuestion

/-- The loop of `DnsMessage::parse` (lines 437–458). -/
def parseQuestions (data : Bytes) : ℕ → ℕ → Except DnsError (List DnsQuestion)
  | 0, _ => .ok []
  | n + 1, offset => do
    let (name, offset) ← parseName data offset
    if offset + 4 > data.length then .error .tooShort
    else
      let rest ← parseQuestions data n (offset + 4)
      return { name, qtype := be16 data offset, qclass := be16 data (offset + 2) } :: rest

/-- `DnsMessage::parse`. -/
def DnsMessage.parse (data : Bytes) : Except DnsError DnsMessage :=
  if data.length < headerSize then .error .tooShort
  else do
    let questions ← parseQuestions data (be16 data 4) headerSize
    return { qr := (data.getD 2 0) &&& 0x80 ≠ 0, questions }

/-- `is_query`. -/
def DnsMessage.isQuery (msg : DnsMessage) : Bool := !msg.qr

/-- `extract_query_name` (`routing.rs`, lines 309–326). -/
def extractQueryName (query : Bytes) : Option (List Char) :=
  if query.length < headerSize then none
  else if be16 query 4 = 0 then none
  else
    match parseName query headerSize with
    | .ok (name, _) => some name
    | .error _ => none

/-! ## Errors -/

/-- `build_servfail`. -/
def buildServfail (query : Bytes) : Option Bytes :=
  if query.length < headerSize then none
  else
    let response := (query.set 2 (((query.getD 2 0) &&& 0x79) ||| 0x80)).set 3 0x82
    some (setBe16 (setBe16 (setBe16 response 6 0) 8 0) 10 0)

/-- `build_formerr`. -/
def buildFormerr (query : Bytes) : Option Bytes :=
  if query.length < headerSize then none
  else some (query.take 2 ++ [0x80, 0x81] ++ List.replicate 8 0)

/-! ## Hosts -/

/-- What is read of an `EtcHosts`: its addresses as octets, and `resolve_ptr`. -/
structure EtcHosts where
  ipv4 : List Char → Option (List Bytes)
  ipv6 : List Char → Option (List Bytes)
  resolvePtr : List Char → Option (List Char)

/-- `lookup_v4`. -/
def EtcHosts.lookupV4 (hosts : EtcHosts) (name : List Char) : Option (List Bytes) :=
  hosts.ipv4 (toAsciiLowercase name)

/-- `lookup_v6`. -/
def EtcHosts.lookupV6 (hosts : EtcHosts) (name : List Char) : Option (List Bytes) :=
  hosts.ipv6 (toAsciiLowercase name)

/-- `to_be_bytes` of a `u16`. -/
def toBe16 (v : ℕ) : Bytes := [UInt8.ofNat (v / 256), UInt8.ofNat v]

/-- `encode_name` (`dns.rs`, lines 608–636), none for its errors. -/
def encodeName (name : List Char) : Option Bytes :=
  if name = ['.'] ∨ name = [] then some [0]
  else
    let labels := ((name.reverse.dropWhile (· = '.')).reverse.splitOn '.').map fun label =>
      asBytes (String.ofList label)
    if labels.all fun label => label.length ≠ 0 ∧ label.length ≤ maxLabelLength then
      let buf := labels.flatMap labelBytes ++ [0]
      if buf.length > maxNameLength + 1 then none else some buf
    else none

/-- `build_response_header`. -/
def buildResponseHeader (query : Bytes) (ancount : ℕ) : Bytes :=
  let resp := query ++ List.replicate (headerSize - query.length) 0
  let flags := ((query.getD 2 0) &&& 0x78) ||| 0x84
  let flags := if (query.getD 2 0) &&& 0x01 ≠ 0 then flags ||| 0x01 else flags
  setBe16 (setBe16 (setBe16 ((resp.set 2 flags).set 3 0x80) 6 ancount) 8 0) 10 0

/-- A record of class `IN` with a lifetime of zero behind a response. -/
def appendRecord (buf : Bytes) (name : List Char) (rtype : ℕ) (rdata : Bytes) : Bytes :=
  match encodeName name with
  | some encoded =>
    buf ++ encoded ++ toBe16 rtype ++ toBe16 1 ++ [0, 0, 0, 0] ++ toBe16 rdata.length ++ rdata
  | none => buf

/-- `append_a_record`. -/
def appendARecord (buf : Bytes) (name : List Char) (addr : Bytes) : Bytes :=
  appendRecord buf name 1 addr

/-- `append_aaaa_record`. -/
def appendAaaaRecord (buf : Bytes) (name : List Char) (addr : Bytes) : Bytes :=
  appendRecord buf name 28 addr

/-- `append_ptr_record`. -/
def appendPtrRecord (buf : Bytes) (qname hostname : List Char) : Bytes :=
  match encodeName hostname with
  | some encodedHostname => appendRecord buf qname 12 encodedHostname
  | none => buf

/-- `build_a_response`. -/
def buildAResponse (query : Bytes) (qname : List Char) (addrs : List Bytes) : Bytes :=
  addrs.foldl (fun buf addr => appendARecord buf qname addr)
    (buildResponseHeader query addrs.length)

/-- `build_aaaa_response`. -/
def buildAaaaResponse (query : Bytes) (qname : List Char) (addrs : List Bytes) : Bytes :=
  addrs.foldl (fun buf addr => appendAaaaRecord buf qname addr)
    (buildResponseHeader query addrs.length)

/-- `build_ptr_response`. -/
def buildPtrResponse (query : Bytes) (qname hostname : List Char) : Bytes :=
  appendPtrRecord (buildResponseHeader query 1) qname hostname

/-- `build_any_response`. -/
def buildAnyResponse (query : Bytes) (qname : List Char) (v4 v6 : List Bytes) : Bytes :=
  v6.foldl (fun buf addr => appendAaaaRecord buf qname addr)
    (v4.foldl (fun buf addr => appendARecord buf qname addr)
      (buildResponseHeader query (v4.length + v6.length)))

/-- `EtcHosts::lookup`. -/
def EtcHosts.lookup (hosts : EtcHosts) (query : Bytes) : Option Bytes :=
  match DnsMessage.parse query with
  | .error _ => none
  | .ok msg =>
    if !msg.isQuery then none
    else
      match msg.questions with
      | [] => none
      | q :: _ =>
        let qname := toAsciiLowercase q.name
        if q.qtype = 1 then
          (hosts.lookupV4 qname).bind fun addrs =>
            if addrs.isEmpty then none else some (buildAResponse query qname addrs)
        else if q.qtype = 28 then
          (hosts.lookupV6 qname).bind fun addrs =>
            if addrs.isEmpty then none else some (buildAaaaResponse query qname addrs)
        else if q.qtype = 12 then
          (hosts.resolvePtr qname).map (buildPtrResponse query qname)
        else if q.qtype = 255 then
          let v4 := (hosts.lookupV4 qname).getD []
          let v6 := (hosts.lookupV6 qname).getD []
          if v4.isEmpty && v6.isEmpty then none else some (buildAnyResponse query qname v4 v6)
        else none

/-! ## Replies without OPT records -/

/-- The message has no `OPT` record, whatever its identifier is set to. -/
def EdnsFree (msg : Bytes) : Prop :=
  ∀ a b, hasOptRecord ((msg.set 0 a).set 1 b) = false

variable {msg query : Bytes}

theorem EdnsFree.hasOptRecord (h : EdnsFree msg) : hasOptRecord msg = false := by
  by_cases hlen : 1 < msg.length
  · have hself := h msg[0] msg[1]
    rwa [List.set_getElem_self, List.set_getElem_self] at hself
  · rw [Resolved.hasOptRecord, if_pos]
    rw [headerSize]
    omega

theorem be16_set_of_lt {pos : ℕ} (h : 1 < pos) (a b : UInt8) :
    be16 ((msg.set 0 a).set 1 b) pos = be16 msg pos := by
  rw [be16, be16, List.getD_eq_getElem?_getD, List.getD_eq_getElem?_getD,
    List.getElem?_set_ne (by omega), List.getElem?_set_ne (by omega),
    List.getElem?_set_ne (by omega), List.getElem?_set_ne (by omega),
    ← List.getD_eq_getElem?_getD, ← List.getD_eq_getElem?_getD]

theorem ednsFree_of_arcount (h : be16 msg 10 = 0) : EdnsFree msg := by
  intro a b
  rw [hasOptRecord, be16_set_of_lt (by decide), h]
  split <;> rfl

theorem ednsFree_nil : EdnsFree [] := ednsFree_of_arcount rfl

/-- A message with another identifier. -/
def WireMessage.withId (m : WireMessage) (a b : UInt8) : WireMessage where
  header := (m.header.set 0 a).set 1 b
  questions := m.questions
  answers := m.answers
  authorities := m.authorities
  additionals := m.additionals
  length_header := by rw [List.length_set, List.length_set, m.length_header]
  qdcount := by rw [be16_set_of_lt (by decide), m.qdcount]
  ancount := by rw [be16_set_of_lt (by decide), m.ancount]
  nscount := by rw [be16_set_of_lt (by decide), m.nscount]
  arcount := by rw [be16_set_of_lt (by decide), m.arcount]

theorem WireMessage.bytes_withId (m : WireMessage) (a b : UInt8) :
    (m.withId a b).bytes = (m.bytes.set 0 a).set 1 b := by
  have hlen := m.length_header
  rw [headerSize] at hlen
  simp only [bytes, front, List.append_assoc]
  rw [List.set_append_left _ _ (by omega),
    List.set_append_left _ _ (by rw [List.length_set]; omega)]
  rfl

/-- A stripped message has no `OPT` record. -/
theorem stripOptFromMessage_ednsFree {result : Bytes}
    (h : stripOptFromMessage msg = some result) : EdnsFree result := by
  by_cases harcount : be16 msg 10 = 0
  · rw [stripOptFromMessage] at h
    split at h
    · cases h
    · dsimp only at h
      rw [if_pos harcount] at h
      obtain rfl := Option.some.inj h
      exact ednsFree_of_arcount harcount
  · obtain ⟨m, rest, -, rfl⟩ := stripOptFromMessage_some h harcount
    intro a b
    rw [← WireMessage.bytes_withId, Bool.eq_false_iff]
    intro hfound
    rw [← List.append_nil (m.withoutOpt.withId a b).bytes] at hfound
    obtain ⟨r, hr, hopt⟩ := hasOptRecord_bytes hfound
    have hnot := List.of_mem_filter hr
    simp [hopt] at hnot

theorem buildServfail_ednsFree (query : Bytes) : EdnsFree ((buildServfail query).getD []) := by
  rw [buildServfail]
  split
  · exact ednsFree_nil
  · rename_i hlen
    apply ednsFree_of_arcount
    rw [headerSize] at hlen
    apply be16_setBe16_self
    · simp only [length_setBe16, List.length_set]
      omega
    · decide

theorem buildFormerr_ednsFree (query : Bytes) : EdnsFree ((buildFormerr query).getD []) := by
  rw [buildFormerr]
  split
  · exact ednsFree_nil
  · rename_i hlen
    apply ednsFree_of_arcount
    rw [headerSize] at hlen
    have htake : (query.take 2 ++ [0x80, 0x81]).length = 4 := by
      rw [List.length_append, List.length_take, List.length_cons, List.length_cons, List.length_nil]
      omega
    have hdrop := be16_drop (query.take 2 ++ [0x80, 0x81] ++ List.replicate 8 0) 4 6
    rw [List.drop_left' htake] at hdrop
    rw [Option.getD_some, ← hdrop]
    decide

theorem appendRecord_eq_append (buf : Bytes) (name : List Char) (rtype : ℕ) (rdata : Bytes) :
    ∃ more, appendRecord buf name rtype rdata = buf ++ more := by
  rw [appendRecord]
  split
  · simp only [List.append_assoc]
    exact ⟨_, rfl⟩
  · exact ⟨[], (List.append_nil buf).symm⟩

theorem foldl_appendRecord (name : List Char) (rtype : ℕ) (addrs : List Bytes) (buf : Bytes) :
    ∃ more, addrs.foldl (fun buf addr => appendRecord buf name rtype addr) buf = buf ++ more := by
  induction addrs generalizing buf with
  | nil => exact ⟨[], (List.append_nil buf).symm⟩
  | cons addr addrs ih =>
    obtain ⟨record, hrecord⟩ := appendRecord_eq_append buf name rtype addr
    obtain ⟨more, hmore⟩ := ih (buf ++ record)
    exact ⟨record ++ more, by rw [List.foldl_cons, hrecord, hmore, List.append_assoc]⟩

/-- The header of a reply says that there are no additional records. -/
theorem buildResponseHeader_ednsFree (query : Bytes) (ancount : ℕ) (more : Bytes) :
    EdnsFree (buildResponseHeader query ancount ++ more) := by
  apply ednsFree_of_arcount
  have hlen : 11 < (query ++ List.replicate (headerSize - query.length) (0 : UInt8)).length := by
    rw [List.length_append, List.length_replicate, headerSize]
    omega
  rw [buildResponseHeader, be16_append_left]
  · apply be16_setBe16_self
    · simp only [length_setBe16, List.length_set]
      omega
    · decide
  · simp only [length_setBe16, List.length_set]
    omega

theorem buildAResponse_ednsFree (query : Bytes) (qname : List Char) (addrs : List Bytes) :
    EdnsFree (buildAResponse query qname addrs) := by
  obtain ⟨more, hmore⟩ := foldl_appendRecord qname 1 addrs (buildResponseHeader query addrs.length)
  have hall : buildAResponse query qname addrs =
      buildResponseHeader query addrs.length ++ more := hmore
  rw [hall]
  exact buildResponseHeader_ednsFree query addrs.length more

theorem buildAaaaResponse_ednsFree (query : Bytes) (qname : List Char) (addrs : List Bytes) :
    EdnsFree (buildAaaaResponse query qname addrs) := by
  obtain ⟨more, hmore⟩ := foldl_appendRecord qname 28 addrs (buildResponseHeader query addrs.length)
  have hall : buildAaaaResponse query qname addrs =
      buildResponseHeader query addrs.length ++ more := hmore
  rw [hall]
  exact buildResponseHeader_ednsFree query addrs.length more

theorem buildPtrResponse_ednsFree (query : Bytes) (qname hostname : List Char) :
    EdnsFree (buildPtrResponse query qname hostname) := by
  rw [buildPtrResponse, appendPtrRecord]
  split
  · obtain ⟨more, hmore⟩ := appendRecord_eq_append (buildResponseHeader query 1) qname 12 _
    rw [hmore]
    exact buildResponseHeader_ednsFree query 1 more
  · rw [← List.append_nil (buildResponseHeader query 1)]
    exact buildResponseHeader_ednsFree query 1 []

theorem buildAnyResponse_ednsFree (query : Bytes) (qname : List Char) (v4 v6 : List Bytes) :
    EdnsFree (buildAnyResponse query qname v4 v6) := by
  obtain ⟨more, hmore⟩ := foldl_appendRecord qname 1 v4
    (buildResponseHeader query (v4.length + v6.length))
  obtain ⟨more', hmore'⟩ := foldl_appendRecord qname 28 v6
    (buildResponseHeader query (v4.length + v6.length) ++ more)
  have hall : buildAnyResponse query qname v4 v6 =
      buildResponseHeader query (v4.length + v6.length) ++ (more ++ more') := by
    rw [← List.append_assoc, ← hmore', ← hmore]
    rfl
  rw [hall]
  exact buildResponseHeader_ednsFree query _ _

/-- No reply from `/etc/hosts` has an `OPT` record. -/
theorem EtcHosts.lookup_ednsFree {hosts : EtcHosts} {response : Bytes}
    (h : hosts.lookup query = some response) : EdnsFree response := by
  rw [lookup] at h
  split at h
  · cases h
  · split at h
    · cases h
    · split at h
      · cases h
      · dsimp only at h
        split_ifs at h
        · obtain ⟨addrs, -, h⟩ := Option.bind_eq_some_iff.mp h
          split at h
          · cases h
          · exact Option.some.inj h ▸ buildAResponse_ednsFree query _ addrs
        · obtain ⟨addrs, -, h⟩ := Option.bind_eq_some_iff.mp h
          split at h
          · cases h
          · exact Option.some.inj h ▸ buildAaaaResponse_ednsFree query _ addrs
        · obtain ⟨hostname, -, rfl⟩ := Option.map_eq_some_iff.mp h
          exact buildPtrResponse_ednsFree query _ hostname
        · exact Option.some.inj h ▸ buildAnyResponse_ednsFree query _ _ _

end OxidizedSystemd.Resolved
