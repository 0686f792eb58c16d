import OxidizedSystemd.Lib.Faults
import OxidizedSystemd.Lib.IpAddr
import OxidizedSystemd.Lib.Utf8

/-!
# DHCPv4 packets and leases

Model of the packets, their options and the leases of `networkd/src/dhcp.rs` (lines 63–146,
275–458, 562–663 and 739–905). A lease is computed with `u32` arithmetic, whose overflow is a
fault with overflow checks and wraps around without. Instants are nanoseconds of one
monotonic clock.

* `toLease_ok`: the lease of an ACK.
* `toLease_timers_iff`: the ACKs whose lease has its timers in order.
-/

namespace OxidizedSystemd.Networkd

open Lib

/-! ## Addresses -/

/-- `Ipv4Addr`. -/
abbrev Ipv4Addr := Octets 4

theorem length_octets (a b c d : UInt8) : [a, b, c, d].length = 4 := rfl

/-- `Ipv4Addr::new`. -/
def Ipv4Addr.new (a b c d : UInt8) : Ipv4Addr := ⟨[a, b, c, d], length_octets a b c d⟩

/-- `[0; n]`. -/
def zeros (n : ℕ) : Octets n := ⟨List.replicate n 0, List.length_replicate⟩

/-- `Ipv4Addr::UNSPECIFIED`. -/
def Ipv4Addr.unspecified : Ipv4Addr := Ipv4Addr.new 0 0 0 0

/-! ## Leases -/

/-- `Instant`. -/
abbrev Instant := ℕ

/-- `Duration::from_secs`. -/
def fromSecs (secs : UInt32) : ℕ := secs.toNat * 1000000000

/-- `Instant::elapsed`, at the time `now`. -/
def elapsed (since now : Instant) : ℕ := now - since

/-- `DhcpLease`. -/
structure DhcpLease where
  address : Ipv4Addr
  subnetMask : Ipv4Addr
  routers : List Ipv4Addr
  dnsServers : List Ipv4Addr
  ntpServers : List Ipv4Addr
  broadcast : Option Ipv4Addr
  hostname : Option String
  domainName : Option String
  classlessRoutes : List (Ipv4Addr × UInt8 × Ipv4Addr)
  serverId : Ipv4Addr
  leaseTime : UInt32
  renewalTime : UInt32
  rebindingTime : UInt32
  mtu : Option UInt16
  obtainedAt : Instant
  deriving DecidableEq

/-- `DhcpLease::remaining`. -/
def DhcpLease.remaining (lease : DhcpLease) (now : Instant) : ℕ :=
  fromSecs lease.leaseTime - elapsed lease.obtainedAt now

/-- `DhcpLease::is_expired`. -/
def DhcpLease.isExpired (lease : DhcpLease) (now : Instant) : Bool := lease.remaining now == 0

/-- `DhcpLease::needs_renewal`. -/
def DhcpLease.needsRenewal (lease : DhcpLease) (now : Instant) : Bool :=
  fromSecs lease.renewalTime ≤ elapsed lease.obtainedAt now

/-- `DhcpLease::needs_rebinding`. -/
def DhcpLease.needsRebinding (lease : DhcpLease) (now : Instant) : Bool :=
  fromSecs lease.rebindingTime ≤ elapsed lease.obtainedAt now

/-- The client renews before it rebinds and rebinds before the lease expires. -/
structure DhcpLease.TimersOrdered (lease : DhcpLease) : Prop where
  renewal_le : lease.renewalTime ≤ lease.rebindingTime
  rebinding_le : lease.rebindingTime ≤ lease.leaseTime

/-! ## Packets -/

/-- `DhcpOption`. -/
structure DhcpOption where
  code : UInt8
  data : Bytes
  deriving DecidableEq

/-- `DhcpPacket`. -/
structure DhcpPacket where
  op : UInt8
  htype : UInt8
  hlen : UInt8
  hops : UInt8
  xid : UInt32
  secs : UInt16
  flags : UInt16
  ciaddr : Ipv4Addr
  yiaddr : Ipv4Addr
  siaddr : Ipv4Addr
  giaddr : Ipv4Addr
  chaddr : Octets 16
  sname : Octets 64
  file : Octets 128
  options : List DhcpOption
  deriving DecidableEq

def bootpRequest : UInt8 := 1
def bootpReply : UInt8 := 2
def htypeEthernet : UInt8 := 1
def hlenEthernet : UInt8 := 6

def dhcpDiscover : UInt8 := 1
def dhcpOffer : UInt8 := 2
def dhcpRequest : UInt8 := 3
def dhcpAck : UInt8 := 5
def dhcpNak : UInt8 := 6

def optSubnetMask : UInt8 := 1
def optRouter : UInt8 := 3
def optDns : UInt8 := 6
def optHostname : UInt8 := 12
def optDomainName : UInt8 := 15
def optBroadcast : UInt8 := 28
def optNtp : UInt8 := 42
def optRequestedIp : UInt8 := 50
def optLeaseTime : UInt8 := 51
def optMessageType : UInt8 := 53
def optServerId : UInt8 := 54
def optParameterList : UInt8 := 55
def optRenewalTime : UInt8 := 58
def optRebindingTime : UInt8 := 59
def optClientId : UInt8 := 61
def optClasslessRoutes : UInt8 := 121

/-- The first option with the code whose data can be read. -/
def findOption {α : Type} (options : List DhcpOption) (code : UInt8) (read : Bytes → Option α) :
    Option α :=
  options.findSome? fun opt => if opt.code = code then read opt.data else none

/-- Data of four bytes as an address. -/
def readIpv4Data : Bytes → Option Ipv4Addr
  | [a, b, c, d] => some (Ipv4Addr.new a b c d)
  | _ => none

/-- `u32::from_be_bytes`, of data of four bytes. -/
def readU32Data : Bytes → Option UInt32
  | [a, b, c, d] =>
    some (a.toUInt32 <<< 24 ||| b.toUInt32 <<< 16 ||| c.toUInt32 <<< 8 ||| d.toUInt32)
  | _ => none

/-- `u16::from_be_bytes`, of data of two bytes. -/
def readU16Data : Bytes → Option UInt16
  | [a, b] => some (a.toUInt16 <<< 8 ||| b.toUInt16)
  | _ => none

/-- `DhcpPacket::message_type`. -/
def DhcpPacket.messageType (pkt : DhcpPacket) : Option UInt8 :=
  findOption pkt.options optMessageType List.head?

/-- `DhcpPacket::get_option_ipv4`. -/
def DhcpPacket.getOptionIpv4 (pkt : DhcpPacket) (code : UInt8) : Option Ipv4Addr :=
  findOption pkt.options code readIpv4Data

/-- `DhcpPacket::server_id`. -/
def DhcpPacket.serverId (pkt : DhcpPacket) : Option Ipv4Addr :=
  findOption pkt.options optServerId readIpv4Data

/-- `DhcpPacket::get_option_u32`. -/
def DhcpPacket.getOptionU32 (pkt : DhcpPacket) (code : UInt8) : Option UInt32 :=
  findOption pkt.options code readU32Data

/-- `DhcpPacket::get_option_string`. -/
def DhcpPacket.getOptionString (pkt : DhcpPacket) (code : UInt8) : Option String :=
  findOption pkt.options code fun data => if data.isEmpty then none else some (fromUtf8Lossy data)

/-- The option 26 (lines 771–777). -/
def DhcpPacket.mtu (pkt : DhcpPacket) : Option UInt16 := findOption pkt.options 26 readU16Data

/-- The addresses in data, `chunks_exact(4)`. -/
def readIpv4List : Bytes → List Ipv4Addr
  | a :: b :: c :: d :: rest => Ipv4Addr.new a b c d :: readIpv4List rest
  | _ => []

/-- `DhcpPacket::get_option_ipv4_list`. -/
def DhcpPacket.getOptionIpv4List (pkt : DhcpPacket) (code : UInt8) : List Ipv4Addr :=
  pkt.options.flatMap fun opt =>
    if opt.code = code ∧ 4 ≤ opt.data.length ∧ opt.data.length % 4 = 0 then readIpv4List opt.data
    else []

/-- The routes in data (lines 430–453). Each turn reads a byte, so that the fuel is the length. -/
def readRoutes : ℕ → Bytes → List (Ipv4Addr × UInt8 × Ipv4Addr)
  | 0, _ => []
  | _ + 1, [] => []
  | fuel + 1, prefixLen :: data =>
    if 32 < prefixLen then []
    else
      let octets := (prefixLen.toNat + 7) / 8
      let dest := data.take octets ++ List.replicate (4 - octets) 0
      match readIpv4Data dest, data.drop octets with
      | some dest, a :: b :: c :: d :: rest =>
        (dest, prefixLen, Ipv4Addr.new a b c d) :: readRoutes fuel rest
      | _, _ => []

/-- `DhcpPacket::get_classless_routes`. -/
def DhcpPacket.getClasslessRoutes (pkt : DhcpPacket) : List (Ipv4Addr × UInt8 × Ipv4Addr) :=
  pkt.options.flatMap fun opt =>
    if opt.code = optClasslessRoutes then readRoutes opt.data.length opt.data else []

/-! ## The lease of an ACK -/

/-- `lease_time` (line 762). -/
def DhcpPacket.leaseSecs (pkt : DhcpPacket) : UInt32 := (pkt.getOptionU32 optLeaseTime).getD 3600

/-- `DhcpPacket::to_lease`, at the time `now`. The argument of `unwrap_or` is computed whether the
    option is there or not. -/
def DhcpPacket.toLease (checks : Bool) (now : Instant) (pkt : DhcpPacket) :
    Faulty (Except String DhcpLease) :=
  if pkt.messageType ≠ some dhcpAck then .ok (.error "not a DHCPACK")
  else if pkt.yiaddr = Ipv4Addr.unspecified then .ok (.error "ACK has no yiaddr")
  else do
    let sevenfold ← mul32 checks pkt.leaseSecs 7
    return .ok
      { address := pkt.yiaddr
        subnetMask := (pkt.getOptionIpv4 optSubnetMask).getD (Ipv4Addr.new 255 255 255 0)
        routers := pkt.getOptionIpv4List optRouter
        dnsServers := pkt.getOptionIpv4List optDns
        ntpServers := pkt.getOptionIpv4List optNtp
        broadcast := pkt.getOptionIpv4 optBroadcast
        hostname := pkt.getOptionString optHostname
        domainName := pkt.getOptionString optDomainName
        classlessRoutes := pkt.getClasslessRoutes
        serverId := pkt.serverId.getD pkt.siaddr
        leaseTime := pkt.leaseSecs
        renewalTime := (pkt.getOptionU32 optRenewalTime).getD (pkt.leaseSecs / 2)
        rebindingTime := (pkt.getOptionU32 optRebindingTime).getD (sevenfold / 8)
        mtu := pkt.mtu
        obtainedAt := now }

/-- T1 of an ACK: what the server says, else half of the lease time. -/
def DhcpPacket.renewalSecs (pkt : DhcpPacket) : ℕ :=
  ((pkt.getOptionU32 optRenewalTime).map (·.toNat)).getD (pkt.leaseSecs.toNat / 2)

/-- T2 of an ACK: what the server says, else seven eighths of the lease time. -/
def DhcpPacket.rebindingSecs (pkt : DhcpPacket) : ℕ :=
  ((pkt.getOptionU32 optRebindingTime).map (·.toNat)).getD (pkt.leaseSecs.toNat * 7 / 8)

/-- The ACK gives an address, for a time whose sevenfold is a `u32`, and its timers are in
    order. -/
structure DhcpPacket.TimersFit (pkt : DhcpPacket) : Prop where
  has_address : pkt.yiaddr ≠ Ipv4Addr.unspecified
  no_overflow : pkt.leaseSecs.toNat * 7 < 2 ^ 32
  renewal_le : pkt.renewalSecs ≤ pkt.rebindingSecs
  rebinding_le : pkt.rebindingSecs ≤ pkt.leaseSecs.toNat

/-- The lease of an ACK whose lease time does not overflow. -/
theorem toLease_ok {checks : Bool} {now : Instant} {pkt : DhcpPacket}
    (hack : pkt.messageType = some dhcpAck) (haddr : pkt.yiaddr ≠ Ipv4Addr.unspecified)
    (h : pkt.leaseSecs.toNat * 7 < 2 ^ 32) :
    ∃ lease, pkt.toLease checks now = .ok (.ok lease) ∧ lease.leaseTime = pkt.leaseSecs ∧
      lease.renewalTime.toNat = pkt.renewalSecs ∧
      lease.rebindingTime.toNat = pkt.rebindingSecs := by
  have hmul : mul32 checks pkt.leaseSecs 7 = .ok (pkt.leaseSecs * 7) := mul32_ok h
  rw [DhcpPacket.toLease, if_neg (by simp [hack]), if_neg haddr, hmul]
  refine ⟨_, rfl, rfl, ?_, ?_⟩
  · rw [DhcpPacket.renewalSecs]
    cases pkt.getOptionU32 optRenewalTime with
    | none => simp
    | some t => simp
  · rw [DhcpPacket.rebindingSecs]
    cases pkt.getOptionU32 optRebindingTime with
    | none =>
      simp only [Option.getD_none, Option.map_none, UInt32.toNat_div, UInt32.toNat_mul]
      exact congrArg (· / 8) (Nat.mod_eq_of_lt h)
    | some t => simp

/-- An ACK whose lease time overflows stops a run with overflow checks. -/
theorem toLease_overflow {now : Instant} {pkt : DhcpPacket}
    (hack : pkt.messageType = some dhcpAck) (haddr : pkt.yiaddr ≠ Ipv4Addr.unspecified)
    (h : 2 ^ 32 ≤ pkt.leaseSecs.toNat * 7) : pkt.toLease true now = .error .overflow := by
  have hmul : mul32 true pkt.leaseSecs 7 = .error .overflow := mul32_overflow h
  rw [DhcpPacket.toLease, if_neg (by simp [hack]), if_neg haddr, hmul]
  rfl

/-- The lease of an ACK is computed without overflow and has its timers in order exactly when its
    values fit. -/
theorem toLease_timers_iff (now : Instant) (pkt : DhcpPacket)
    (hack : pkt.messageType = some dhcpAck) :
    (∀ checks, ∃ lease, pkt.toLease checks now = .ok (.ok lease) ∧ lease.TimersOrdered) ↔
      pkt.TimersFit := by
  constructor
  · intro hlease
    obtain ⟨lease, hok, hordered⟩ := hlease true
    have haddr : pkt.yiaddr ≠ Ipv4Addr.unspecified := by
      intro haddr
      rw [DhcpPacket.toLease, if_neg (by simp [hack]), if_pos haddr] at hok
      cases hok
    have hlt : pkt.leaseSecs.toNat * 7 < 2 ^ 32 := by
      apply Nat.lt_of_not_le
      intro hle
      rw [toLease_overflow hack haddr hle] at hok
      cases hok
    obtain ⟨lease', hok', htime, hrenewal, hrebinding⟩ :=
      @toLease_ok true now pkt hack haddr hlt
    obtain rfl : lease = lease' := by
      rw [hok] at hok'
      simpa using hok'
    refine ⟨haddr, hlt, ?_, ?_⟩
    · rw [← hrenewal, ← hrebinding]
      exact UInt32.le_iff_toNat_le.mp hordered.renewal_le
    · rw [← hrebinding, ← htime]
      exact UInt32.le_iff_toNat_le.mp hordered.rebinding_le
  · intro hfit checks
    obtain ⟨lease, hok, htime, hrenewal, hrebinding⟩ :=
      @toLease_ok checks now pkt hack hfit.has_address hfit.no_overflow
    refine ⟨lease, hok, ?_, ?_⟩
    · apply UInt32.le_iff_toNat_le.mpr
      rw [hrenewal, hrebinding]
      exact hfit.renewal_le
    · apply UInt32.le_iff_toNat_le.mpr
      rw [hrebinding, htime]
      exact hfit.rebinding_le

/-- An ACK for the address 192.168.1.100. -/
def exampleAck (options : List DhcpOption) : DhcpPacket :=
  { op := bootpReply
    htype := htypeEthernet
    hlen := hlenEthernet
    hops := 0
    xid := 0
    secs := 0
    flags := 0
    ciaddr := Ipv4Addr.unspecified
    yiaddr := Ipv4Addr.new 192 168 1 100
    siaddr := Ipv4Addr.unspecified
    giaddr := Ipv4Addr.unspecified
    chaddr := zeros 16
    sname := zeros 64
    file := zeros 128
    options := ⟨optMessageType, [dhcpAck]⟩ :: options }

/-- A lease of a day, with the default timers. -/
theorem toLease_timers_iff_day :
    (∀ checks, ∃ lease,
      (exampleAck [⟨optLeaseTime, [0, 1, 0x51, 0x80]⟩]).toLease checks 0 = .ok (.ok lease) ∧
        lease.TimersOrdered) ↔ (exampleAck [⟨optLeaseTime, [0, 1, 0x51, 0x80]⟩]).TimersFit :=
  toLease_timers_iff 0 (exampleAck [⟨optLeaseTime, [0, 1, 0x51, 0x80]⟩]) rfl

/-- The infinite lease: seven times 0xffffffff seconds. -/
theorem toLease_infinite_overflows :
    (exampleAck [⟨optLeaseTime, [0xff, 0xff, 0xff, 0xff]⟩]).messageType = some dhcpAck ∧
      ¬ ∀ checks, ∃ lease,
        (exampleAck [⟨optLeaseTime, [0xff, 0xff, 0xff, 0xff]⟩]).toLease checks 0 =
          .ok (.ok lease) ∧ lease.TimersOrdered := by
  refine ⟨rfl, fun h => ?_⟩
  obtain ⟨lease, hlease, -⟩ := h true
  have hover : (exampleAck [⟨optLeaseTime, [0xff, 0xff, 0xff, 0xff]⟩]).toLease true 0 =
      .error .overflow := by decide
  rw [hover] at hlease
  cases hlease

end OxidizedSystemd.Networkd
