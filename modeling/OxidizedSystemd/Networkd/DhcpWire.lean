import OxidizedSystemd.Lib.OnesComplement
import OxidizedSystemd.Networkd.Dhcp

/-!
# DHCPv4 on the wire

`serialize` and `parse` of a packet, with its options (`networkd/src/dhcp.rs`, lines 461–559 and
842–875), and the IP and UDP headers around it (lines 908–1007).

* `parse_serialize`: a packet is read back as it was, with its options in order.
* `extractDhcpPayload_build`: so is the payload of a packet for the expected port.
* `onesSum_header`: its IP header adds up to all ones.
-/

namespace OxidizedSystemd.Networkd

open Lib

/-! ## Numbers in network order -/

/-- `to_be_bytes`, of `n` bytes. -/
def toBe (n v : ℕ) : Bytes := (toLe n v).reverse

/-- `from_be_bytes`. -/
def ofBe (bs : Bytes) : ℕ := ofLe bs.reverse

/-- `data[i..i + n]`. -/
def bytesAt (data : Bytes) (i n : ℕ) : Bytes := (data.drop i).take n

/-- The bytes `data[i..i + n]` copied into an array, when they are there. -/
def octetsAt (data : Bytes) (i n : ℕ) : Octets n :=
  if h : (bytesAt data i n).length = n then ⟨bytesAt data i n, h⟩ else zeros n

@[simp] theorem length_toBe (n v : ℕ) : (toBe n v).length = n := by
  rw [toBe, List.length_reverse, length_toLe]

theorem ofBe_toBe {n v : ℕ} (h : v < 256 ^ n) : ofBe (toBe n v) = v := by
  rw [ofBe, toBe, List.reverse_reverse, ofLe_toLe_of_lt h]

/-- What is there behind as many bytes. -/
theorem bytesAt_append {front mid back : Bytes} {i n : ℕ} (hi : front.length = i)
    (hn : mid.length = n) : bytesAt (front ++ (mid ++ back)) i n = mid := by
  rw [bytesAt, List.drop_left' hi, List.take_left' hn]

theorem octetsAt_eq {data : Bytes} {i n : ℕ} {o : Octets n} (h : bytesAt data i n = o.1) :
    octetsAt data i n = o := by
  have hlen : (bytesAt data i n).length = n := h ▸ o.2
  rw [octetsAt, dif_pos hlen]
  exact Subtype.ext h

/-! ## Packets -/

def magicCookie : Bytes := [99, 130, 83, 99]
def optPad : UInt8 := 0
def optEnd : UInt8 := 255
def minPacketSize : ℕ := 240

/-- The body of the loop over the options: a pad or an end has no data. -/
def serializeOption (opt : DhcpOption) : Bytes :=
  if opt.code = optPad ∨ opt.code = optEnd then [opt.code]
  else opt.code :: UInt8.ofNat opt.data.length :: opt.data

/-- The fields in front of the magic cookie. -/
def DhcpPacket.fields (pkt : DhcpPacket) : List Bytes :=
  [[pkt.op], [pkt.htype], [pkt.hlen], [pkt.hops], toBe 4 pkt.xid.toNat, toBe 2 pkt.secs.toNat,
    toBe 2 pkt.flags.toNat, pkt.ciaddr.1, pkt.yiaddr.1, pkt.siaddr.1, pkt.giaddr.1, pkt.chaddr.1,
    pkt.sname.1, pkt.file.1]

/-- `while buf.len() < len { buf.push(0) }`. -/
def padTo (len : ℕ) (buf : Bytes) : Bytes := buf ++ List.replicate (len - buf.length) 0

/-- `DhcpPacket::serialize`. -/
def DhcpPacket.serialize (pkt : DhcpPacket) : Bytes :=
  padTo 300 (pkt.fields.flatten ++ magicCookie ++ pkt.options.flatMap serializeOption ++ [optEnd])

/-- The loop of `parse_options`. -/
def parseOptionsLoop (data : Bytes) (i : ℕ) (options : List DhcpOption) :
    Except String (List DhcpOption) :=
  if i < data.length then
    let code := data.getD i 0
    if code = optPad then parseOptionsLoop data (i + 1) options
    else if code = optEnd then .ok options
    else if i + 1 ≥ data.length then .ok options
    else
      let len := (data.getD (i + 1) 0).toNat
      if i + 2 + len > data.length then
        .error s!"option {code} truncated: need {len} bytes at offset {i + 2}"
      else parseOptionsLoop data (i + 2 + len) (options ++ [⟨code, bytesAt data (i + 2) len⟩])
  else .ok options
termination_by data.length - i

/-- `parse_options`. -/
def parseOptions (data : Bytes) : Except String (List DhcpOption) := parseOptionsLoop data 0 []

/-- What `parse` gives for data that is long enough, with the options. -/
def DhcpPacket.ofData (data : Bytes) (options : List DhcpOption) : DhcpPacket where
  op := data.getD 0 0
  htype := data.getD 1 0
  hlen := data.getD 2 0
  hops := data.getD 3 0
  xid := UInt32.ofNat (ofBe (bytesAt data 4 4))
  secs := UInt16.ofNat (ofBe (bytesAt data 8 2))
  flags := UInt16.ofNat (ofBe (bytesAt data 10 2))
  ciaddr := octetsAt data 12 4
  yiaddr := octetsAt data 16 4
  siaddr := octetsAt data 20 4
  giaddr := octetsAt data 24 4
  chaddr := octetsAt data 28 16
  sname := octetsAt data 44 64
  file := octetsAt data 108 128
  options := options

/-- `DhcpPacket::parse`. -/
def DhcpPacket.parse (data : Bytes) : Except String DhcpPacket :=
  if data.length < minPacketSize then
    .error s!"packet too short: {data.length} < {minPacketSize} bytes"
  else if bytesAt data 236 4 ≠ magicCookie then .error "invalid magic cookie"
  else (parseOptions (data.drop 240)).map (DhcpPacket.ofData data)

/-! ## Options -/

/-- An option that has data on the wire. -/
def DhcpOption.Ok (opt : DhcpOption) : Prop :=
  1 ≤ opt.code ∧ opt.code ≤ 254 ∧ opt.data.length ≤ 255

variable {opt : DhcpOption} {options acc : List DhcpOption} {pkt : DhcpPacket}

theorem DhcpOption.Ok.code_ne (h : opt.Ok) : opt.code ≠ optPad ∧ opt.code ≠ optEnd := by
  obtain ⟨hge, hle, -⟩ := h
  constructor
  · rintro heq
    rw [heq] at hge
    exact absurd hge (by decide)
  · rintro heq
    rw [heq] at hle
    exact absurd hle (by decide)

theorem serializeOption_eq (h : opt.Ok) :
    serializeOption opt = opt.code :: UInt8.ofNat opt.data.length :: opt.data := by
  rw [serializeOption, if_neg (not_or.mpr h.code_ne)]

/-- One turn of the loop reads an option. -/
theorem parseOptionsLoop_option (front : Bytes) (h : opt.Ok) (back : Bytes)
    (acc : List DhcpOption) :
    parseOptionsLoop (front ++ (serializeOption opt ++ back)) front.length acc =
      parseOptionsLoop (front ++ (serializeOption opt ++ back))
        (front ++ serializeOption opt).length (acc ++ [opt]) := by
  obtain ⟨hpad, hend⟩ := h.code_ne
  have hlen : (UInt8.ofNat opt.data.length).toNat = opt.data.length := by
    rw [toNat_ofNat]
    exact Nat.mod_eq_of_lt (Nat.lt_succ_of_le h.2.2)
  rw [serializeOption_eq h]
  have hcode : (front ++ (opt.code :: UInt8.ofNat opt.data.length :: opt.data ++ back)).getD
      front.length 0 = opt.code := by simp
  have hsize : (front ++ (opt.code :: UInt8.ofNat opt.data.length :: opt.data ++ back)).getD
      (front.length + 1) 0 = UInt8.ofNat opt.data.length := by simp
  have hdata : bytesAt (front ++ (opt.code :: UInt8.ofNat opt.data.length :: opt.data ++ back))
      (front.length + 2) opt.data.length = opt.data := by
    have := @bytesAt_append (front ++ [opt.code, UInt8.ofNat opt.data.length]) opt.data back
      (front.length + 2) _ (by simp) rfl
    simpa using this
  rw [parseOptionsLoop]
  simp only [hcode, hsize, hlen, hdata, hpad, hend, if_false]
  have htotal : (front ++ (opt.code :: UInt8.ofNat opt.data.length :: opt.data ++ back)).length =
      front.length + 2 + opt.data.length + back.length := by
    simp
    omega
  rw [htotal, if_pos (by omega), if_neg (by omega), if_neg (by omega)]
  simp [Nat.add_assoc, Nat.add_comm 2]

/-- The loop reads the options up to the end marker, whatever is behind it. -/
theorem parseOptionsLoop_options (front : Bytes) (h : ∀ opt ∈ options, opt.Ok) (back : Bytes)
    (acc : List DhcpOption) :
    parseOptionsLoop (front ++ (options.flatMap serializeOption ++ optEnd :: back)) front.length
      acc = .ok (acc ++ options) := by
  induction options generalizing front acc with
  | nil =>
    rw [parseOptionsLoop]
    simp [optEnd, optPad]
  | cons opt options ih =>
    obtain ⟨hopt, hrest⟩ := List.forall_mem_cons.mp h
    rw [List.flatMap_cons, List.append_assoc, parseOptionsLoop_option _ hopt, ← List.append_assoc,
      ih _ hrest, List.append_assoc, List.singleton_append]

/-! ## The packet -/

/-- A field among fields that are one behind the other. -/
theorem bytesAt_flatten {fields : List Bytes} {field rest : Bytes} {k i n : ℕ}
    (hfield : fields[k]? = some field) (hi : (fields.take k).flatten.length = i)
    (hn : field.length = n) : bytesAt (fields.flatten ++ rest) i n = field := by
  have hsplit : fields = fields.take k ++ field :: fields.drop (k + 1) := by
    obtain ⟨hlt, rfl⟩ := List.getElem?_eq_some_iff.mp hfield
    rw [← List.drop_eq_getElem_cons hlt, List.take_append_drop]
  rw [hsplit, List.flatten_append, List.flatten_cons, List.append_assoc, List.append_assoc]
  exact bytesAt_append hi hn

theorem getD_of_bytesAt {data : Bytes} {i : ℕ} {b : UInt8} (h : bytesAt data i 1 = [b]) :
    data.getD i 0 = b := by
  have hhead := congrArg List.head? h
  rw [bytesAt, List.head?_take, List.head?_drop, if_neg (by omega)] at hhead
  rw [List.getD_eq_getElem?_getD, hhead]
  rfl

theorem length_fields (pkt : DhcpPacket) : pkt.fields.flatten.length = 236 := by
  simp [DhcpPacket.fields, pkt.ciaddr.2, pkt.yiaddr.2, pkt.siaddr.2, pkt.giaddr.2, pkt.chaddr.2,
    pkt.sname.2, pkt.file.2]

/-- The fields are read back, whatever is behind them. -/
theorem ofData_fields (pkt : DhcpPacket) (rest : Bytes) :
    DhcpPacket.ofData (pkt.fields.flatten ++ rest) pkt.options = pkt := by
  have hbyte : ∀ {k i : ℕ} {b : UInt8}, pkt.fields[k]? = some [b] →
      (pkt.fields.take k).flatten.length = i → (pkt.fields.flatten ++ rest).getD i 0 = b :=
    fun hfield hi => getD_of_bytesAt (bytesAt_flatten hfield hi rfl)
  have hoctets : ∀ {k i n : ℕ} {o : Octets n}, pkt.fields[k]? = some o.1 →
      (pkt.fields.take k).flatten.length = i → octetsAt (pkt.fields.flatten ++ rest) i n = o :=
    fun {_ _ _ o} hfield hi => octetsAt_eq (bytesAt_flatten hfield hi o.2)
  have hnumber : ∀ {k i n v : ℕ}, pkt.fields[k]? = some (toBe n v) →
      (pkt.fields.take k).flatten.length = i → v < 256 ^ n →
      ofBe (bytesAt (pkt.fields.flatten ++ rest) i n) = v := by
    intro k i n v hfield hi hv
    rw [bytesAt_flatten hfield hi (length_toBe n v), ofBe_toBe hv]
  -- the length in front of a field is the sum of those of the fields before it
  have hlen : ∀ k, (pkt.fields.take k).flatten.length =
      ([1, 1, 1, 1, 4, 2, 2, 4, 4, 4, 4, 16, 64, 128].take k).sum := by
    intro k
    rw [List.length_flatten, List.map_take]
    congr 2
    simp [DhcpPacket.fields, pkt.ciaddr.2, pkt.yiaddr.2, pkt.siaddr.2, pkt.giaddr.2, pkt.chaddr.2,
      pkt.sname.2, pkt.file.2]
  rw [DhcpPacket.ofData]
  rw [hbyte (k := 0) (i := 0) rfl (hlen 0), hbyte (k := 1) (i := 1) rfl (hlen 1),
    hbyte (k := 2) (i := 2) rfl (hlen 2), hbyte (k := 3) (i := 3) rfl (hlen 3)]
  rw [hnumber (k := 4) (i := 4) rfl (hlen 4) pkt.xid.toNat_lt, UInt32.ofNat_toNat,
    hnumber (k := 5) (i := 8) rfl (hlen 5) pkt.secs.toNat_lt, UInt16.ofNat_toNat,
    hnumber (k := 6) (i := 10) rfl (hlen 6) pkt.flags.toNat_lt, UInt16.ofNat_toNat]
  rw [hoctets (k := 7) (i := 12) rfl (hlen 7), hoctets (k := 8) (i := 16) rfl (hlen 8),
    hoctets (k := 9) (i := 20) rfl (hlen 9), hoctets (k := 10) (i := 24) rfl (hlen 10),
    hoctets (k := 11) (i := 28) rfl (hlen 11), hoctets (k := 12) (i := 44) rfl (hlen 12),
    hoctets (k := 13) (i := 108) rfl (hlen 13)]

/-- A packet is read back as it was. -/
theorem parse_serialize (h : ∀ opt ∈ pkt.options, opt.Ok) :
    DhcpPacket.parse pkt.serialize = .ok pkt := by
  obtain ⟨pad, hpad⟩ : ∃ pad, pkt.serialize = pkt.fields.flatten ++
      (magicCookie ++ (pkt.options.flatMap serializeOption ++ optEnd :: pad)) := by
    exact ⟨_, by simp [DhcpPacket.serialize, padTo]; rfl⟩
  have hlen := length_fields pkt
  have hshort : ¬pkt.serialize.length < minPacketSize := by
    rw [hpad, List.length_append, List.length_append, hlen]
    simp [magicCookie, minPacketSize]
    omega
  have hcookie : bytesAt pkt.serialize 236 4 = magicCookie := by
    rw [hpad]
    exact bytesAt_append hlen rfl
  have hrest : pkt.serialize.drop 240 =
      pkt.options.flatMap serializeOption ++ optEnd :: pad := by
    rw [hpad, ← List.append_assoc]
    exact List.drop_left' (by rw [List.length_append, hlen]; rfl)
  have hoptions := parseOptionsLoop_options [] h pad []
  rw [List.nil_append, List.length_nil, List.nil_append] at hoptions
  rw [DhcpPacket.parse, if_neg hshort, if_neg (not_not_intro hcookie), hrest, parseOptions,
    hoptions, Except.map, hpad, ofData_fields]

/-! ## IP and UDP -/

/-- The words that `ip_checksum` adds up. -/
def headerWords : Bytes → List ℕ
  | [] => []
  | [a] => [a.toNat * 256]
  | a :: b :: rest => ofBe [a, b] :: headerWords rest

/-- `ip_checksum`, of a header whose words add up to a `u32`. -/
def ipChecksum (header : Bytes) : ℕ := 65535 - foldCarries (headerWords header).sum

/-- `build_udp_ip_packet`. -/
def buildUdpIpPacket (checks : Bool) (srcIp dstIp : Ipv4Addr) (srcPort dstPort : UInt16)
    (payload : Bytes) : Faulty Bytes := do
  let headerLen ← add16 checks 20 8
  let totalLen ← add16 checks headerLen (payload.length % 65536)
  let pkt := [0x45, 0x10] ++ toBe 2 totalLen ++ [0x00, 0x00] ++ [0x00, 0x00] ++ [64, 17] ++
    [0x00, 0x00] ++ srcIp.1 ++ dstIp.1
  let ipCksum := ipChecksum (pkt.take 20)
  let pkt := (pkt.set 10 (UInt8.ofNat (ipCksum / 256))).set 11 (UInt8.ofNat (ipCksum % 256))
  let udpLen ← add16 checks 8 (payload.length % 65536)
  return pkt ++ toBe 2 srcPort.toNat ++ toBe 2 dstPort.toNat ++ toBe 2 udpLen ++ [0x00, 0x00] ++
    payload

/-- `extract_dhcp_payload`. -/
def extractDhcpPayload (data : Bytes) (expectedPort : UInt16) : Option Bytes :=
  if data.length < 28 then none
  else if (data.getD 0 0 >>> 4) &&& 0xf ≠ 4 then none
  else
    let ihl := (data.getD 0 0 &&& 0xf).toNat * 4
    if data.length < ihl + 8 then none
    else if data.getD 9 0 ≠ 17 then none
    else
      let udpStart := ihl
      let dstPort := ofBe (bytesAt data (udpStart + 2) 2)
      let udpLen := ofBe (bytesAt data (udpStart + 4) 2)
      if dstPort ≠ expectedPort.toNat then none
      else
        let payloadStart := udpStart + 8
        let payloadEnd := udpStart + udpLen
        if payloadEnd > data.length ∨ payloadStart > payloadEnd then none
        else some (bytesAt data payloadStart (payloadEnd - payloadStart))

section Udp

variable {checks : Bool} {srcIp dstIp : Ipv4Addr} {srcPort dstPort : UInt16} {payload : Bytes}

/-- The IP header with a checksum. -/
def ipHeader (srcIp dstIp : Ipv4Addr) (totalLen cksum : ℕ) : Bytes :=
  [0x45, 0x10] ++ toBe 2 totalLen ++ [0, 0, 0, 0, 64, 17] ++ toBe 2 cksum ++ srcIp.1 ++ dstIp.1

theorem toBe_two (v : ℕ) : toBe 2 v = [UInt8.ofNat (v / 256), UInt8.ofNat v] := rfl

theorem length_ipHeader (srcIp dstIp : Ipv4Addr) (totalLen cksum : ℕ) :
    (ipHeader srcIp dstIp totalLen cksum).length = 20 := by
  simp [ipHeader, srcIp.2, dstIp.2]

/-- The parts of a packet whose lengths fit. -/
theorem buildUdpIpPacket_eq (h : payload.length ≤ 65507) :
    buildUdpIpPacket checks srcIp dstIp srcPort dstPort payload =
      .ok (ipHeader srcIp dstIp (28 + payload.length)
        (ipChecksum (ipHeader srcIp dstIp (28 + payload.length) 0)) ++
        (toBe 2 srcPort.toNat ++ (toBe 2 dstPort.toNat ++ (toBe 2 (8 + payload.length) ++
          ([0, 0] ++ payload))))) := by
  have hlen : payload.length % 65536 = payload.length := Nat.mod_eq_of_lt (by omega)
  have hmod : ∀ v, UInt8.ofNat (v % 256) = UInt8.ofNat v := by
    intro v
    apply UInt8.toNat_inj.mp
    rw [toNat_ofNat, toNat_ofNat, Nat.mod_mod]
  have hzero : [0x45, 0x10] ++ toBe 2 (28 + payload.length) ++ [0x00, 0x00] ++ [0x00, 0x00] ++
      [64, 17] ++ [0x00, 0x00] ++ srcIp.1 ++ dstIp.1 =
        ipHeader srcIp dstIp (28 + payload.length) 0 := by
    simp [ipHeader, toBe_two]
  rw [buildUdpIpPacket, hlen, add16_ok (by omega), ok_bind, add16_ok (by omega), ok_bind]
  dsimp only
  rw [hzero, add16_ok (by omega), ok_bind, List.take_of_length_le (length_ipHeader _ _ _ _).le]
  simp [ipHeader, toBe_two, hmod]
  rfl

/-- The octets of an address. -/
theorem exists_octets (o : Ipv4Addr) : ∃ a b c d, o.1 = [a, b, c, d] := by
  obtain ⟨bs, hlen⟩ := o
  obtain ⟨a, b, c, d, rfl⟩ := List.length_eq_four.mp hlen
  exact ⟨a, b, c, d, rfl⟩

theorem ofBe_pair (a b : UInt8) : ofBe [a, b] = b.toNat + 256 * a.toNat := by
  simp [ofBe, ofLe]

theorem headerWords_lt (header : Bytes) : ∀ w ∈ headerWords header, w < 65536 := by
  induction header using headerWords.induct with
  | case1 => simp [headerWords]
  | case2 a =>
    have ha := a.toNat_lt
    simp [headerWords]
    omega
  | case3 a b rest ih =>
    have ha := a.toNat_lt
    have hb := b.toNat_lt
    rw [headerWords, List.forall_mem_cons, ofBe_pair]
    exact ⟨by omega, ih⟩

/-- The words of a header add up to those of the header without a checksum, and the checksum. -/
theorem sum_headerWords {totalLen cksum : ℕ} (hcksum : cksum < 65536) :
    (headerWords (ipHeader srcIp dstIp totalLen cksum)).sum =
      (headerWords (ipHeader srcIp dstIp totalLen 0)).sum + cksum := by
  obtain ⟨a, b, c, d, hsrc⟩ := exists_octets srcIp
  obtain ⟨a', b', c', d', hdst⟩ := exists_octets dstIp
  have hread : ofBe [UInt8.ofNat (cksum / 256), UInt8.ofNat cksum] = cksum :=
    ofBe_toBe (n := 2) hcksum
  have hzero : ofBe [UInt8.ofNat (0 / 256), UInt8.ofNat 0] = 0 := by decide
  simp only [ipHeader, toBe_two, hsrc, hdst, List.cons_append, List.nil_append, headerWords,
    List.sum_cons, hread, hzero]
  omega

/-- The header of a packet adds up to all ones. -/
theorem onesSum_header (srcIp dstIp : Ipv4Addr) (totalLen : ℕ) :
    onesSum (headerWords (ipHeader srcIp dstIp totalLen
      (ipChecksum (ipHeader srcIp dstIp totalLen 0)))) = 65535 := by
  have hcksum : ipChecksum (ipHeader srcIp dstIp totalLen 0) < 65536 := by
    rw [ipChecksum]
    omega
  rw [onesSum_eq (headerWords_lt _), sum_headerWords hcksum, ipChecksum, foldCarries_eq,
    onesRep_complement]

/-- The payload of a packet is found behind its headers. -/
theorem extractDhcpPayload_eq (h : payload.length ≤ 65507) (totalLen cksum : ℕ) :
    extractDhcpPayload (ipHeader srcIp dstIp totalLen cksum ++
      (toBe 2 srcPort.toNat ++ (toBe 2 dstPort.toNat ++ (toBe 2 (8 + payload.length) ++
        ([0, 0] ++ payload))))) dstPort = some payload := by
  have hheader := length_ipHeader srcIp dstIp totalLen cksum
  generalize hdata : ipHeader srcIp dstIp totalLen cksum ++
    (toBe 2 srcPort.toNat ++ (toBe 2 dstPort.toNat ++ (toBe 2 (8 + payload.length) ++
      ([0, 0] ++ payload)))) = data
  have hlen : data.length = 28 + payload.length := by
    rw [← hdata]
    simp [hheader]
    omega
  have hversion : data.getD 0 0 = 0x45 := by
    rw [← hdata]
    rfl
  have hproto : data.getD 9 0 = 17 := by
    rw [← hdata]
    rfl
  have hport : ofBe (bytesAt data 22 2) = dstPort.toNat := by
    rw [← hdata, ← List.append_assoc, bytesAt_append (by simp [hheader]) (length_toBe _ _)]
    exact ofBe_toBe dstPort.toNat_lt
  have hudp : ofBe (bytesAt data 24 2) = 8 + payload.length := by
    rw [← hdata, ← List.append_assoc, ← List.append_assoc,
      bytesAt_append (by simp [hheader]) (length_toBe _ _)]
    exact ofBe_toBe (by omega)
  have hpayload : bytesAt data 28 payload.length = payload := by
    have hbehind := @bytesAt_append (ipHeader srcIp dstIp totalLen cksum ++ (toBe 2 srcPort.toNat ++
      (toBe 2 dstPort.toNat ++ (toBe 2 (8 + payload.length) ++ [0, 0])))) payload [] 28
      payload.length (by simp [hheader]) rfl
    rw [← hdata]
    simpa only [List.append_assoc, List.append_nil] using hbehind
  have hihl : ((0x45 : UInt8) &&& 0xf).toNat * 4 = 20 := by decide
  rw [extractDhcpPayload, if_neg (by omega), hversion, if_neg (by decide)]
  dsimp only
  rw [hihl, if_neg (by omega), hproto, if_neg (by decide), hport, if_neg (by simp), hudp,
    if_neg (by omega), show 20 + (8 + payload.length) - (20 + 8) = payload.length by omega,
    hpayload]

end Udp

/-! ## Both encapsulations -/

/-- A packet is read back from its bytes, and a payload from the packet around it, whose header
    adds up to all ones. -/
theorem dhcp_wire_roundTrip :
    (∀ pkt : DhcpPacket, (∀ opt ∈ pkt.options, opt.Ok) →
      DhcpPacket.parse pkt.serialize = .ok pkt) ∧
    ∀ (checks : Bool) (srcIp dstIp : Ipv4Addr) (srcPort dstPort : UInt16) (payload : Bytes),
      payload.length ≤ 65507 → ∃ pkt,
        buildUdpIpPacket checks srcIp dstIp srcPort dstPort payload = .ok pkt ∧
        extractDhcpPayload pkt dstPort = some payload ∧
        onesSum (headerWords (pkt.take 20)) = 65535 := by
  refine ⟨fun pkt h => parse_serialize h, ?_⟩
  intro checks srcIp dstIp srcPort dstPort payload h
  refine ⟨_, buildUdpIpPacket_eq h, extractDhcpPayload_eq h _ _, ?_⟩
  rw [List.take_left' (length_ipHeader _ _ _ _)]
  exact onesSum_header srcIp dstIp _

/-- A request with two options, and an empty payload. -/
theorem dhcp_wire_roundTrip_example :
    let pkt : DhcpPacket := ⟨1, 1, 6, 0, 0x3903F326, 0, 0x8000, zeros 4, zeros 4, zeros 4, zeros 4,
      zeros 16, zeros 64, zeros 128, [⟨53, [1]⟩, ⟨55, [1, 3, 6]⟩]⟩
    DhcpPacket.parse pkt.serialize = .ok pkt ∧
      ∃ bytes, buildUdpIpPacket true (zeros 4) (zeros 4) 68 67 [] = .ok bytes ∧
        extractDhcpPayload bytes 67 = some [] ∧ onesSum (headerWords (bytes.take 20)) = 65535 := by
  intro pkt
  refine ⟨dhcp_wire_roundTrip.1 pkt ?_, dhcp_wire_roundTrip.2 true _ _ 68 67 [] (by decide)⟩
  intro opt hopt
  simp only [pkt, List.mem_cons, List.not_mem_nil, or_false] at hopt
  rcases hopt with rfl | rfl
  · exact ⟨by decide, by decide, by decide⟩
  · exact ⟨by decide, by decide, by decide⟩

end OxidizedSystemd.Networkd
