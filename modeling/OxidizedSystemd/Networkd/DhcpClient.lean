import OxidizedSystemd.Lib.Run
import OxidizedSystemd.Networkd.Dhcp

/-!
# The DHCPv4 client

Model of the state machine of `networkd/src/dhcp.rs` (lines 318–341, 562–663, 881–905 and
1002–1240): the packets that `next_packet` sends and the replies that `process_reply` takes.
Each call reads the clock once; the time of day, from which a transaction id is hashed, is read
apart from it.

* `run_consistent`: what the client holds in each state, over every run.
* `run_expiry_iff`: the runs in which a lease that has expired is dropped by the next call.
-/

namespace OxidizedSystemd.Networkd

open Lib

/-! ## Packets of the client -/

/-- `ClientIdMode`. -/
inductive ClientIdMode
  | mac
  | duid
  deriving DecidableEq

/-- `DhcpClientConfig`. -/
structure DhcpClientConfig where
  mac : Octets 6
  hostname : Option String
  clientIdentifier : ClientIdMode
  requestBroadcast : Bool
  requestOptions : List UInt8

/-- `add_client_id`. -/
def addClientId (options : List DhcpOption) (config : DhcpClientConfig) : List DhcpOption :=
  match config.clientIdentifier with
  | .mac => options ++ [⟨optClientId, htypeEthernet :: config.mac.1⟩]
  | .duid => options ++ [⟨optClientId, 0xff :: 0 :: 3 :: 0 :: htypeEthernet :: config.mac.1⟩]

/-- `DhcpPacket::new_request`. -/
def DhcpPacket.newRequest (xid : UInt32) (mac : Octets 6) : DhcpPacket :=
  { op := bootpRequest
    htype := htypeEthernet
    hlen := hlenEthernet
    hops := 0
    xid := xid
    secs := 0
    flags := 0
    ciaddr := Ipv4Addr.unspecified
    yiaddr := Ipv4Addr.unspecified
    siaddr := Ipv4Addr.unspecified
    giaddr := Ipv4Addr.unspecified
    chaddr := ⟨mac.1 ++ List.replicate 10 0, by simp [mac.2]⟩
    sname := zeros 64
    file := zeros 128
    options := [] }

/-- The flag that asks for broadcast replies. -/
def broadcastFlags (config : DhcpClientConfig) : UInt16 :=
  if config.requestBroadcast then 0x8000 else 0

/-- The options 12 and 55 (lines 576–590). -/
def hostnameAndParameters (config : DhcpClientConfig) : List DhcpOption :=
  (config.hostname.map fun hostname => ⟨optHostname, asBytes hostname⟩).toList ++
    if config.requestOptions.isEmpty then [] else [⟨optParameterList, config.requestOptions⟩]

/-- `DhcpPacket::build_discover`. -/
def DhcpPacket.buildDiscover (config : DhcpClientConfig) (xid : UInt32) : DhcpPacket :=
  { DhcpPacket.newRequest xid config.mac with
    flags := broadcastFlags config
    options :=
      addClientId [⟨optMessageType, [dhcpDiscover]⟩] config ++ hostnameAndParameters config }

/-- `DhcpPacket::build_request`. -/
def DhcpPacket.buildRequest (config : DhcpClientConfig) (xid : UInt32) (offeredIp : Ipv4Addr)
    (serverId : Option Ipv4Addr) (ciaddr : Ipv4Addr) : DhcpPacket :=
  { DhcpPacket.newRequest xid config.mac with
    ciaddr := ciaddr
    flags := broadcastFlags config
    options :=
      addClientId [⟨optMessageType, [dhcpRequest]⟩] config ++
      (if ciaddr = Ipv4Addr.unspecified then [⟨optRequestedIp, offeredIp.1⟩] else []) ++
      (serverId.map fun sid => ⟨optServerId, sid.1⟩).toList ++ hostnameAndParameters config }

/-! ## The state machine -/

/-- `generate_xid`, at a time of day in nanoseconds. -/
def generateXid (mac : Octets 6) (ts : ℕ) : UInt32 :=
  (mac.1 ++ toLe 16 ts).foldl (fun h b => (h ^^^ b.toUInt32) * 0x01000193) 0x811c9dc5

/-- `DhcpState`. -/
inductive DhcpState
  | init
  | selecting
  | requesting
  | bound
  | renewing
  | rebinding
  deriving DecidableEq

/-- `DhcpClient`. -/
structure DhcpClient where
  config : DhcpClientConfig
  state : DhcpState
  xid : UInt32
  lease : Option DhcpLease
  lastOffer : Option DhcpPacket
  attempts : UInt32
  lastSend : Option Instant

/-- `DhcpClient::new`. -/
def DhcpClient.new (config : DhcpClientConfig) (ts : ℕ) : DhcpClient :=
  { config := config
    state := .init
    xid := generateXid config.mac ts
    lease := none
    lastOffer := none
    attempts := 0
    lastSend := none }

/-- The request for the address of a lease. -/
def DhcpClient.leaseRequest (client : DhcpClient) (lease : DhcpLease)
    (serverId : Option Ipv4Addr) : DhcpPacket :=
  DhcpPacket.buildRequest client.config client.xid lease.address serverId lease.address

/-- `DhcpClient::next_packet`, at the time `now` and the time of day `ts`. -/
def DhcpClient.nextPacket (checks : Bool) (now : Instant) (ts : ℕ) (client : DhcpClient) :
    Faulty (Option DhcpPacket × DhcpClient) :=
  match client.state with
  | .init => do
    let xid := generateXid client.config.mac ts
    let attempts ← add32 checks client.attempts 1
    return (some (DhcpPacket.buildDiscover client.config xid),
      { client with
        xid := xid
        state := .selecting
        attempts := attempts
        lastSend := some now })
  | .selecting => do
    let attempts ← add32 checks client.attempts 1
    return (some (DhcpPacket.buildDiscover client.config client.xid),
      { client with
        attempts := attempts
        lastSend := some now })
  | .requesting =>
    match client.lastOffer with
    | some offer => do
      let attempts ← add32 checks client.attempts 1
      return (some (DhcpPacket.buildRequest client.config client.xid offer.yiaddr offer.serverId
          Ipv4Addr.unspecified),
        { client with
          attempts := attempts
          lastSend := some now })
    | none =>
      .ok (none,
        { client with
          state := .init
          attempts := 0 })
  | .bound =>
    match client.lease with
    | some lease =>
      if lease.needsRenewal now then
        let client := { client with
          state := .renewing
          xid := generateXid client.config.mac ts
          lastSend := some now }
        .ok (some (client.leaseRequest lease (some lease.serverId)), client)
      else .ok (none, client)
    | none => .ok (none, client)
  | .renewing =>
    match client.lease with
    | some lease =>
      .ok (some (client.leaseRequest lease (some lease.serverId)),
        { client with
          state := if lease.needsRebinding now then .rebinding else .renewing
          lastSend := some now })
    | none => .ok (none, { client with state := .init })
  | .rebinding =>
    match client.lease with
    | some lease =>
      if lease.isExpired now then
        .ok (none,
          { client with
            state := .init
            lease := none })
      else .ok (some (client.leaseRequest lease none), { client with lastSend := some now })
    | none => .ok (none, { client with state := .init })

/-- The reply is for the client: its transaction and its hardware address. -/
structure DhcpClient.Accepts (client : DhcpClient) (pkt : DhcpPacket) : Prop where
  op_eq : pkt.op = bootpReply
  xid_eq : pkt.xid = client.xid
  chaddr_eq : pkt.chaddr.1.take 6 = client.config.mac.1

instance (client : DhcpClient) (pkt : DhcpPacket) : Decidable (client.Accepts pkt) :=
  decidable_of_iff (pkt.op = bootpReply ∧ pkt.xid = client.xid ∧
      pkt.chaddr.1.take 6 = client.config.mac.1)
    ⟨fun h => ⟨h.1, h.2.1, h.2.2⟩, fun h => ⟨h.op_eq, h.xid_eq, h.chaddr_eq⟩⟩

/-- An ACK, for a lease that is requested, renewed or rebound. -/
def DhcpClient.takeAck (checks : Bool) (now : Instant) (client : DhcpClient) (pkt : DhcpPacket) :
    Faulty (Option DhcpLease × DhcpClient) := do
  match ← pkt.toLease checks now with
  | .ok lease =>
    return (some lease,
      { client with
        state := .bound
        lease := some lease
        attempts := 0 })
  | .error _ => return (none, client)

/-- `DhcpClient::process_reply`. -/
def DhcpClient.processReply (checks : Bool) (now : Instant) (client : DhcpClient)
    (pkt : DhcpPacket) : Faulty (Option DhcpLease × DhcpClient) :=
  if ¬ client.Accepts pkt then .ok (none, client)
  else
    match pkt.messageType with
    | none => .ok (none, client)
    | some msgType =>
      match client.state with
      | .selecting =>
        if msgType = dhcpOffer then
          .ok (none,
            { client with
              lastOffer := some pkt
              state := .requesting
              attempts := 0 })
        else .ok (none, client)
      | .requesting =>
        if msgType = dhcpAck then client.takeAck checks now pkt
        else if msgType = dhcpNak then
          .ok (none,
            { client with
              state := .init
              lastOffer := none
              attempts := 0 })
        else .ok (none, client)
      | .renewing | .rebinding =>
        if msgType = dhcpAck then client.takeAck checks now pkt
        else if msgType = dhcpNak then
          .ok (none,
            { client with
              state := .init
              lease := none
              lastOffer := none
              attempts := 0 })
        else .ok (none, client)
      | .init | .bound => .ok (none, client)

/-! ## Runs -/

/-- A call of the client. -/
inductive Call
  | nextPacket (now : Instant) (ts : ℕ)
  | processReply (now : Instant) (pkt : DhcpPacket)

/-- The client after a call, `none` if the call stops at a fault. -/
def step (checks : Bool) (client : DhcpClient) : Call → Option DhcpClient
  | .nextPacket now ts => ((client.nextPacket checks now ts).map Prod.snd).toOption
  | .processReply now pkt => ((client.processReply checks now pkt).map Prod.snd).toOption

/-- What the client holds in each state, with leases of which `Acked` holds. -/
structure DhcpClient.Consistent (Acked : DhcpLease → Prop) (client : DhcpClient) : Prop where
  unleased : client.state = .init ∨ client.state = .selecting ∨ client.state = .requesting →
    client.lease = none
  offered : client.state = .requesting → ∃ offer, client.lastOffer = some offer
  leased : client.state = .bound ∨ client.state = .renewing ∨ client.state = .rebinding →
    ∃ lease, client.lease = some lease ∧ Acked lease

variable {checks : Bool} {client client' : DhcpClient} {Acked : DhcpLease → Prop} {now : Instant}
  {ts : ℕ} {pkt : DhcpPacket} {out : Option DhcpPacket}

theorem new_consistent (config : DhcpClientConfig) (ts : ℕ) :
    (DhcpClient.new config ts).Consistent Acked :=
  ⟨fun _ => rfl, by simp [DhcpClient.new], by simp [DhcpClient.new]⟩

theorem DhcpClient.Consistent.mono {Acked' : DhcpLease → Prop} (h : client.Consistent Acked)
    (himp : ∀ lease, Acked lease → Acked' lease) : client.Consistent Acked' := by
  refine ⟨h.unleased, h.offered, fun hstate => ?_⟩
  obtain ⟨lease, hlease, hacked⟩ := h.leased hstate
  exact ⟨lease, hlease, himp lease hacked⟩

theorem consistent_of_unleased (hlease : client.lease = none)
    (hstate : client.state = .init ∨ client.state = .selecting) : client.Consistent Acked := by
  refine ⟨fun _ => hlease, fun h => ?_, fun h => ?_⟩
  · rw [h] at hstate
    simp at hstate
  · rcases hstate with hstate | hstate
    · simp [hstate] at h
    · simp [hstate] at h

theorem consistent_of_leased {lease : DhcpLease} (hlease : client.lease = some lease)
    (hacked : Acked lease)
    (hstate : client.state = .bound ∨ client.state = .renewing ∨ client.state = .rebinding) :
    client.Consistent Acked := by
  refine ⟨fun h => ?_, fun h => ?_, fun _ => ⟨lease, hlease, hacked⟩⟩
  · rcases h with h | h | h
    · simp [h] at hstate
    · simp [h] at hstate
    · simp [h] at hstate
  · simp [h] at hstate

/-- A step that only changes what the invariant does not see. -/
theorem DhcpClient.Consistent.congr (h : client.Consistent Acked)
    (hstate : client'.state = client.state) (hlease : client'.lease = client.lease)
    (hoffer : client'.lastOffer = client.lastOffer) : client'.Consistent Acked := by
  refine ⟨?_, ?_, ?_⟩
  · rw [hstate, hlease]
    exact h.unleased
  · rw [hstate, hoffer]
    exact h.offered
  · rw [hstate, hlease]
    exact h.leased

theorem nextPacket_consistent (h : client.Consistent Acked)
    (hnext : client.nextPacket checks now ts = .ok (out, client')) :
    client'.Consistent Acked := by
  rw [DhcpClient.nextPacket] at hnext
  cases hstate : client.state with
  | init =>
    simp only [hstate] at hnext
    obtain ⟨attempts, -, hnext⟩ := bind_eq_ok.mp hnext
    cases hnext
    exact consistent_of_unleased (h.unleased (.inl hstate)) (.inr rfl)
  | selecting =>
    simp only [hstate] at hnext
    obtain ⟨attempts, -, hnext⟩ := bind_eq_ok.mp hnext
    cases hnext
    exact h.congr hstate.symm rfl rfl
  | requesting =>
    obtain ⟨offer, hoffer⟩ := h.offered hstate
    simp only [hstate, hoffer] at hnext
    obtain ⟨attempts, -, hnext⟩ := bind_eq_ok.mp hnext
    cases hnext
    exact h.congr hstate.symm rfl hoffer.symm
  | bound =>
    obtain ⟨lease, hlease, hacked⟩ := h.leased (.inl hstate)
    simp only [hstate, hlease] at hnext
    split at hnext
    · cases hnext
      exact consistent_of_leased rfl hacked (.inr (.inl rfl))
    · cases hnext
      exact h
  | renewing =>
    obtain ⟨lease, hlease, hacked⟩ := h.leased (.inr (.inl hstate))
    simp only [hstate, hlease] at hnext
    cases hnext
    apply consistent_of_leased rfl hacked
    cases lease.needsRebinding now with
    | true => exact .inr (.inr rfl)
    | false => exact .inr (.inl rfl)
  | rebinding =>
    obtain ⟨lease, hlease, hacked⟩ := h.leased (.inr (.inr hstate))
    simp only [hstate, hlease] at hnext
    split at hnext
    · cases hnext
      exact consistent_of_unleased rfl (.inl rfl)
    · cases hnext
      exact h.congr hstate.symm hlease.symm rfl

/-- An ACK that is taken gives its lease, or changes nothing. -/
theorem takeAck_consistent {taken : Option DhcpLease} (h : client.Consistent Acked)
    (hack : ∀ lease, pkt.toLease checks now = .ok (.ok lease) → Acked lease)
    (htake : client.takeAck checks now pkt = .ok (taken, client')) : client'.Consistent Acked := by
  rw [DhcpClient.takeAck] at htake
  obtain ⟨result, hresult, htake⟩ := bind_eq_ok.mp htake
  cases result with
  | ok lease =>
    cases htake
    exact consistent_of_leased rfl (hack lease hresult) (.inl rfl)
  | error e =>
    cases htake
    exact h

theorem processReply_consistent {taken : Option DhcpLease} (h : client.Consistent Acked)
    (hack : ∀ lease, client.Accepts pkt → pkt.messageType = some dhcpAck →
      pkt.toLease checks now = .ok (.ok lease) → Acked lease)
    (hreply : client.processReply checks now pkt = .ok (taken, client')) :
    client'.Consistent Acked := by
  rw [DhcpClient.processReply] at hreply
  split at hreply
  · cases hreply
    exact h
  · rename_i haccepts
    have haccepts := not_not.mp haccepts
    cases htype : pkt.messageType with
    | none =>
      simp only [htype] at hreply
      cases hreply
      exact h
    | some msgType =>
      simp only [htype] at hreply
      cases hstate : client.state with
      | init | bound =>
        simp only [hstate] at hreply
        cases hreply
        exact h
      | selecting =>
        simp only [hstate] at hreply
        split at hreply
        · cases hreply
          exact ⟨fun _ => h.unleased (.inr (.inl hstate)), fun _ => ⟨pkt, rfl⟩, by simp⟩
        · cases hreply
          exact h
      | requesting =>
        simp only [hstate] at hreply
        split at hreply
        · rename_i hmsg
          exact takeAck_consistent h (fun lease => hack lease haccepts (by rw [htype, hmsg])) hreply
        · split at hreply
          · cases hreply
            exact consistent_of_unleased (h.unleased (.inr (.inr hstate))) (.inl rfl)
          · cases hreply
            exact h
      | renewing | rebinding =>
        simp only [hstate] at hreply
        split at hreply
        · rename_i hmsg
          exact takeAck_consistent h (fun lease => hack lease haccepts (by rw [htype, hmsg])) hreply
        · split at hreply
          · cases hreply
            exact consistent_of_unleased rfl (.inl rfl)
          · cases hreply
            exact h

/-- The lease is that of an ACK in the calls which was for the client when it came. -/
def CarriedByAck (checks : Bool) (client₀ : DhcpClient) (calls : List Call) (lease : DhcpLease) :
    Prop :=
  ∃ before now pkt after client, calls = before ++ Call.processReply now pkt :: after ∧
    run (step checks) client₀ before = some client ∧ client.Accepts pkt ∧
    pkt.messageType = some dhcpAck ∧ pkt.toLease checks now = .ok (.ok lease)

/-- A lease that has expired is dropped by the next call, which sends nothing and restarts. -/
def DropsExpired (checks : Bool) (client : DhcpClient) : Call → Prop
  | .nextPacket now ts =>
    ∀ lease, client.lease = some lease → lease.isExpired now →
      ∃ client', client.nextPacket checks now ts = .ok (none, client') ∧ client'.state = .init ∧
        client'.lease = none
  | .processReply _ _ => True

/-- The lease has not expired when a packet is asked for before the client rebinds. -/
def UnexpiredBeforeRebinding (client : DhcpClient) : Call → Prop
  | .nextPacket now _ =>
    client.state = .bound ∨ client.state = .renewing →
      ∀ lease, client.lease = some lease → ¬ lease.isExpired now
  | .processReply _ _ => True

theorem carriedByAck_append {client₀ : DhcpClient} {calls : List Call} {lease : DhcpLease}
    (call : Call) (h : CarriedByAck checks client₀ calls lease) :
    CarriedByAck checks client₀ (calls ++ [call]) lease := by
  obtain ⟨before, now, pkt, after, client, hcalls, hrest⟩ := h
  exact ⟨before, now, pkt, after ++ [call], client, by simp [hcalls], hrest⟩

theorem step_nextPacket_eq_some :
    step checks client (.nextPacket now ts) = some client' ↔
      ∃ out, client.nextPacket checks now ts = .ok (out, client') := by
  rw [step]
  cases client.nextPacket checks now ts with
  | error f => simp [Except.toOption, Except.map]
  | ok result => obtain ⟨out, c⟩ := result; simp [Except.toOption, Except.map]

theorem step_processReply_eq_some :
    step checks client (.processReply now pkt) = some client' ↔
      ∃ taken, client.processReply checks now pkt = .ok (taken, client') := by
  rw [step]
  cases client.processReply checks now pkt with
  | error f => simp [Except.toOption, Except.map]
  | ok result => obtain ⟨taken, c⟩ := result; simp [Except.toOption, Except.map]

/-- What the client holds in each state, after every run. -/
theorem run_consistent (config : DhcpClientConfig) (calls : List Call)
    (hrun : run (step checks) (DhcpClient.new config ts) calls = some client) :
    client.Consistent (CarriedByAck checks (DhcpClient.new config ts) calls) := by
  refine run_inv_of_history
    (P := fun calls c => c.Consistent (CarriedByAck checks (DhcpClient.new config ts) calls))
    (new_consistent config ts) ?_ calls hrun
  intro before call client client' hbefore hconsistent hstep
  have hconsistent := hconsistent.mono fun lease => carriedByAck_append call
  cases call with
  | nextPacket now ts =>
    obtain ⟨out, hnext⟩ := step_nextPacket_eq_some.mp hstep
    exact nextPacket_consistent hconsistent hnext
  | processReply now pkt =>
    obtain ⟨taken, hreply⟩ := step_processReply_eq_some.mp hstep
    apply processReply_consistent hconsistent _ hreply
    intro lease haccepts htype hlease
    exact ⟨before, now, pkt, [], client, rfl, hbefore, haccepts, htype, hlease⟩

theorem nextPacket_expired {lease : DhcpLease} (hstate : client.state = .rebinding)
    (hlease : client.lease = some lease) (hexpired : lease.isExpired now) :
    client.nextPacket checks now ts =
      .ok (none, { client with state := .init, lease := none }) := by
  rw [DhcpClient.nextPacket]
  simp only [hstate, hlease]
  exact if_pos hexpired

/-- Only a client that rebinds looks whether its lease has expired. -/
theorem dropsExpired_iff (h : client.Consistent Acked) (call : Call) :
    DropsExpired checks client call ↔ UnexpiredBeforeRebinding client call := by
  cases call with
  | processReply now pkt => exact Iff.rfl
  | nextPacket now ts =>
    constructor
    · intro hdrops hstate lease hlease hexpired
      obtain ⟨client', hnext, hinit, -⟩ := hdrops lease hlease hexpired
      rw [DhcpClient.nextPacket] at hnext
      rcases hstate with hstate | hstate
      · simp only [hstate, hlease] at hnext
        split at hnext
        · cases hnext
        · cases hnext
          simp [hstate] at hinit
      · simp only [hstate, hlease] at hnext
        cases hnext
    · intro hunexpired lease hlease hexpired
      cases hstate : client.state with
      | init => simp [h.unleased (.inl hstate)] at hlease
      | selecting => simp [h.unleased (.inr (.inl hstate))] at hlease
      | requesting => simp [h.unleased (.inr (.inr hstate))] at hlease
      | bound => exact absurd hexpired (hunexpired (.inl hstate) lease hlease)
      | renewing => exact absurd hexpired (hunexpired (.inr hstate) lease hlease)
      | rebinding =>
        exact ⟨_, nextPacket_expired hstate hlease hexpired, rfl, rfl⟩

/-- What a client holds over every run, and the runs in which a lease that has expired is
    dropped by the next call. -/
theorem run_expiry_iff (checks : Bool) (config : DhcpClientConfig) (ts : ℕ) (calls : List Call) :
    (∀ client, run (step checks) (DhcpClient.new config ts) calls = some client →
      client.Consistent (CarriedByAck checks (DhcpClient.new config ts) calls)) ∧
    (RunMeets (step checks) (DropsExpired checks) (DhcpClient.new config ts) calls ↔
      RunMeets (step checks) UnexpiredBeforeRebinding (DhcpClient.new config ts) calls) := by
  refine ⟨fun client hrun => run_consistent config calls hrun, ?_⟩
  apply runMeets_congr (P := DhcpClient.Consistent fun _ => True)
  · exact fun client call h => dropsExpired_iff h call
  · intro client call client' h _ hstep
    cases call with
    | nextPacket now ts =>
      obtain ⟨out, hnext⟩ := step_nextPacket_eq_some.mp hstep
      exact nextPacket_consistent h hnext
    | processReply now pkt =>
      obtain ⟨taken, hreply⟩ := step_processReply_eq_some.mp hstep
      exact processReply_consistent h (fun _ _ _ _ => trivial) hreply
  · exact new_consistent config ts

/-- A client with the hardware address 2:0:0:0:0:1. -/
def exampleConfig : DhcpClientConfig :=
  { mac := ⟨[2, 0, 0, 0, 0, 1], rfl⟩
    hostname := none
    clientIdentifier := .mac
    requestBroadcast := false
    requestOptions := [] }

/-- A reply to its first transaction. -/
def exampleReply (options : List DhcpOption) : DhcpPacket :=
  { exampleAck [] with
    xid := generateXid exampleConfig.mac 0
    chaddr := ⟨[2, 0, 0, 0, 0, 1] ++ List.replicate 10 0, rfl⟩
    options := options }

/-- A lease of ten seconds, and the next packet when they are over. -/
def expiredCalls : List Call :=
  [.nextPacket 0 0, .processReply 0 (exampleReply [⟨optMessageType, [dhcpOffer]⟩]),
    .nextPacket 0 0,
    .processReply 0
      (exampleReply [⟨optMessageType, [dhcpAck]⟩, ⟨optLeaseTime, [0, 0, 0, 10]⟩]),
    .nextPacket 10000000000 0]

/-- A client that is bound asks for an address whose lease has expired. -/
theorem expired_lease_requested :
    ¬ RunMeets (step true) (DropsExpired true) (DhcpClient.new exampleConfig 0) expiredCalls := by
  intro h
  have hbound : (run (step true) (DhcpClient.new exampleConfig 0) (expiredCalls.take 4)).map
      (fun c => (c.state, c.lease.map fun lease =>
        lease.isExpired 10000000000 && lease.needsRenewal 10000000000)) =
      some (.bound, some true) := by decide
  obtain ⟨client, hrun, hclient⟩ := Option.map_eq_some_iff.mp hbound
  obtain ⟨hstate, hheld⟩ := Prod.mk.inj hclient
  obtain ⟨lease, hlease, htimes⟩ := Option.map_eq_some_iff.mp hheld
  obtain ⟨hexpired, hrenewal⟩ := Bool.and_eq_true_iff.mp htimes
  obtain ⟨client', hnext, -⟩ := RunMeets.at_step h hrun lease hlease hexpired
  simp [DhcpClient.nextPacket, hstate, hlease, hrenewal] at hnext

end OxidizedSystemd.Networkd
