import KiloProxy.Engine.Device
import KiloProxy.Engine.DnsReplies
import KiloProxy.Engine.SocksSession

/-!
# Runs of the device

What the UDP gateway reads are datagrams that the device read, in order. What comes back is
written as packets that the engine itself would take, each from the remote to the local
address of a packet that the device read before.

The invariant puts the parts together: the session is at a state of its own system, what
was submitted to it was read from the device, and what was written answers what the gateway
client received. So the run theorems of `UdpGwRuns` speak about the packets of the device.
-/

namespace KiloProxy.Engine
set_option autoImplicit false
open KiloProxy.Run KiloProxy.Net

/-! ## The gateway client of a session -/

namespace SocksUdpGwClient

variable {o o' : SocksUdpGwClient} {ok : Bool}

/-- Giving up the connection does not touch the UDP client behind it. -/
theorem freeSocks_udpgw (h : o.freeSocks = some o') : o'.udpgwClient = o.udpgwClient := by
  unfold freeSocks at h
  split at h
  · cases h
  · obtain ⟨o₁, ho₁, rfl⟩ := Option.map_eq_some_iff.mp h
    split at ho₁
    · unfold disconnectServer at ho₁
      split at ho₁
      · cases ho₁
      · exact Option.some.inj ho₁ ▸ rfl
    · exact Option.some.inj ho₁ ▸ rfl

theorem freed_udpgw (h : o.freeSocks.map setReconnectTimer = some o') : o'.udpgwClient = o.udpgwClient := by
  obtain ⟨o₁, ho₁, rfl⟩ := Option.map_eq_some_iff.mp h
  have hsame := freeSocks_udpgw ho₁
  exact hsame

/-- A new attempt to connect does not touch the UDP client. -/
theorem tryConnect_udpgw (h : o.tryConnect ok = some o') : o'.udpgwClient = o.udpgwClient := by
  unfold tryConnect at h
  split at h
  · cases h
  · split at h
    · exact Option.some.inj h ▸ rfl
    · exact Option.some.inj h ▸ rfl

/-- An event of the SOCKS client does not touch the UDP client. -/
theorem socksClientHandler_udpgw {event : BSocksClient.Event} (h : o.socksClientHandler event ok = some o') :
    o'.udpgwClient = o.udpgwClient := by
  unfold socksClientHandler at h
  split at h
  · cases h
  · split at h
    · split at h
      · cases h
      · obtain ⟨o₁, ho₁, h⟩ := Option.bind_eq_some_iff.mp h
        have hsame : o₁.udpgwClient = o.udpgwClient := by
          unfold connectServer at ho₁
          split at ho₁
          · cases ho₁
          · exact Option.some.inj ho₁ ▸ rfl
        split at h
        · exact Option.some.inj h ▸ hsame
        · exact (freed_udpgw h).trans hsame
    · exact freed_udpgw h
    · exact freed_udpgw h

/-- Only its own calls change the gateway client. -/
theorem handle_udpgw {a : Call} (h : o.handle a = some o') (hother : ∀ b, a ≠ .udpgw b) :
    o'.udpgwClient = o.udpgwClient := by
  cases a with
  | socks a ok =>
    obtain ⟨c, _, h⟩ := Option.bind_eq_some_iff.mp (show o.socks a ok = some o' from h)
    obtain ⟨c', _, h⟩ := Option.bind_eq_some_iff.mp h
    split at h
    · exact Option.some.inj h ▸ rfl
    · have hsame := socksClientHandler_udpgw h
      exact hsame
  | serverError =>
    have h : o.udpgwHandlerServererror = some o' := h
    unfold udpgwHandlerServererror at h
    split at h
    · cases h
    · exact freed_udpgw h
  | timer ok =>
    have h : o.reconnectTimerHandler ok = some o' := h
    unfold reconnectTimerHandler at h
    split at h
    · cases h
    · have hsame := tryConnect_udpgw h
      exact hsame
  | udpgw b => exact absurd rfl (hother b)

/-- What a call submits. -/
def Call.submission : Call → Option (Conaddr × Bool × List UInt8)
  | .udpgw b => b.submission
  | _ => none

/-- Whatever a handler of the session does, the UDP client sees at most the one datagram submitted. -/
theorem Sound.passes {authInfo : List AuthInfo} {addr : BAddr} {udpMtu maxConnections : Nat} (hpos : 0 < maxConnections)
    (h : Sound authInfo addr udpMtu maxConnections o) {a : Call} (hc : o.Calls a) (ho' : o.handle a = some o') :
    UdpGwClient.Passes o.udpgwClient a.submission o'.udpgwClient := by
  cases a with
  | udpgw b =>
    have hb : o.udpgwClient.Calls b := by
      cases b with
      | receive packet => exact hc.2
      | submit conaddr isDns data room => exact hc
      | firstJob conid room => exact hc
    obtain ⟨udpgw, hudpgw, rfl⟩ := Option.map_eq_some_iff.mp ho'
    obtain ⟨r, hr, _, hpasses⟩ := (UdpGwClient.reachable_correct hpos h.udpgw).handle hb (.inl trivial)
    obtain rfl := Option.some.inj (hr.symm.trans hudpgw)
    exact hpasses
  | socks b ok => exact handle_udpgw ho' (fun _ => Call.noConfusion) ▸ .refl _
  | serverError => exact handle_udpgw ho' (fun _ => Call.noConfusion) ▸ .refl _
  | timer ok => exact handle_udpgw ho' (fun _ => Call.noConfusion) ▸ .refl _

end SocksUdpGwClient

/-! ## Packets -/

namespace Device

variable {options : DeviceOptions} {data : List UInt8}

/-- The engine parses the IPv6 packets it writes. -/
theorem parseUdpIp6_packetIp6 {h : Ipv6Header} {u : UdpHeader} (hversion : h.version = 6)
    (hnext : h.nextHeader = ipv6NextUdp) (hpayload : ntoh16 h.payloadLength = udpHeaderSize + data.length)
    (hudp : ntoh16 u.length = udpHeaderSize + data.length) :
    DeviceOptions.parseUdpIp6 (packetIp6 h u data) = some (h, { u with checksum := hton16 0 }, data) := by
  -- the datagram with its checksum
  obtain ⟨summed, hsummed⟩ : ∃ summed : UdpHeader, summed =
      { u with checksum := udpIp6Checksum { u with checksum := hton16 0 } data h.sourceAddress h.destinationAddress } :=
    ⟨_, rfl⟩
  have hlength : ntoh16 summed.length = udpHeaderSize + data.length := by
    rw [hsummed]
    exact hudp
  have hpacket : packetIp6 h u data = h.bytes ++ (summed.bytes ++ data) := by
    rw [hsummed]
    exact List.append_assoc _ _ _
  have hbody : (summed.bytes ++ data).length = udpHeaderSize + data.length := by
    rw [List.length_append, summed.bytes_length]
  unfold DeviceOptions.parseUdpIp6
  rw [hpacket, if_neg, ipv6Check_append hversion (hpayload.trans hbody.symm), Option.bind_some]
  · dsimp only
    rw [udpCheck_append hlength, Option.bind_some, hsummed]
    exact if_neg (not_not_intro rfl)
  · rintro (hshort | hother)
    · rw [List.length_append, h.bytes_length] at hshort
      omega
    · rw [h.bytes_nextHeader] at hother
      exact hother (congrArg some hnext)

theorem packetIp6_length (h : Ipv6Header) (u : UdpHeader) (data : List UInt8) :
    (packetIp6 h u data).length = ipv6HeaderSize + udpHeaderSize + data.length := by
  unfold packetIp6
  rw [List.length_append, List.length_append, h.bytes_length, UdpHeader.bytes_length]

/-- **A datagram over IPv4 is read back.** -/
theorem parse_ipv4 (options : DeviceOptions) (localIp remoteIp : List.Vector UInt8 4)
    (localPort remotePort : List.Vector UInt8 2) (hlen : data.length ≤ 65535 - (ipv4HeaderSize + udpHeaderSize)) :
    ∃ isDns, options.parseDevicePacket
        (DnsGateway.packet (ipv4HeaderOf localIp remoteIp data) (udpHeaderOf localPort remotePort data) data) =
      some (⟨.ipv4 remoteIp remotePort, .ipv4 localIp localPort⟩, isDns, data) := by
  have hsum : ipv4HeaderSize + udpHeaderSize = 28 := rfl
  have hudp : udpHeaderSize = 8 := rfl
  have hversion : (ipv4HeaderOf localIp remoteIp data).version = 4 := by
    show (UInt8.ofNat (4 * 16 + ipv4HeaderSize / 4)).toNat / 16 = 4
    decide
  have hheader : (ipv4HeaderOf localIp remoteIp data).headerLen = ipv4HeaderSize := by
    show (UInt8.ofNat (4 * 16 + ipv4HeaderSize / 4)).toNat % 16 * 4 = ipv4HeaderSize
    decide
  have htotal : ntoh16 (ipv4HeaderOf localIp remoteIp data).totalLength = ipv4HeaderSize + udpHeaderSize + data.length :=
    ntoh16_hton16 (by omega)
  have hlength : ntoh16 (udpHeaderOf localPort remotePort data).length = udpHeaderSize + data.length :=
    ntoh16_hton16 (by omega)
  have hparse := DnsGateway.parseUdp_packet hversion rfl hheader htotal hlength
  unfold DeviceOptions.parseDevicePacket
  have hfirst : ((DnsGateway.packet (ipv4HeaderOf localIp remoteIp data) (udpHeaderOf localPort remotePort data)
      data).head?.getD 0).toNat / 16 = 4 := by
    rw [DnsGateway.packet_eq]
    exact hversion
  rw [hfirst]
  dsimp only
  rw [hparse, Option.map_some]
  exact ⟨_, rfl⟩

/-- **A datagram over IPv6 is read back.** -/
theorem parse_ipv6 (hip6 : options.netifIp6addr) (localIp remoteIp : List.Vector UInt8 16)
    (localPort remotePort : List.Vector UInt8 2) (hlen : data.length ≤ 65535 - udpHeaderSize) :
    options.parseDevicePacket (packetIp6 (ipv6HeaderOf localIp remoteIp data) (udpHeaderOf localPort remotePort data) data) =
      some (⟨.ipv6 remoteIp remotePort, .ipv6 localIp localPort⟩, false, data) := by
  have hudp : udpHeaderSize = 8 := rfl
  have hversion : (ipv6HeaderOf localIp remoteIp data).version = 6 := by
    show (UInt8.ofNat (6 * 16)).toNat / 16 = 6
    decide
  have hpayload : ntoh16 (ipv6HeaderOf localIp remoteIp data).payloadLength = udpHeaderSize + data.length :=
    ntoh16_hton16 (by omega)
  have hlength : ntoh16 (udpHeaderOf localPort remotePort data).length = udpHeaderSize + data.length :=
    ntoh16_hton16 (by omega)
  have hparse := parseUdpIp6_packetIp6 hversion rfl hpayload hlength
  unfold DeviceOptions.parseDevicePacket
  have hfirst : ((packetIp6 (ipv6HeaderOf localIp remoteIp data) (udpHeaderOf localPort remotePort data)
      data).head?.getD 0).toNat / 16 = 6 := hversion
  rw [hfirst]
  dsimp only
  rw [if_neg (not_not_intro hip6), hparse, Option.map_some]
  rfl

/-- The addresses and the data of a packet that the engine takes as a datagram. -/
def reads (options : DeviceOptions) (p : List UInt8) : Option (Conaddr × List UInt8) :=
  (options.processDeviceUdpPacket p).map fun m => (m.1, m.2.2)

/-- A datagram that came back, as the packet written for it is to be read. -/
def mirrored (r : BAddr × BAddr × List UInt8) : Option (Conaddr × List UInt8) := some (⟨r.2.1, r.1⟩, r.2.2)

/-- A parsed packet that fits the MTU is one the device reads. -/
theorem reads_of_parse {conaddr : Conaddr} {isDns : Bool} {p : List UInt8}
    (hparse : options.parseDevicePacket p = some (conaddr, isDns, data)) (hlen : data.length ≤ options.udpMtu) :
    reads options p = some (conaddr, data) := by
  unfold reads DeviceOptions.processDeviceUdpPacket
  rw [hparse, Option.bind_some]
  dsimp only
  rw [if_neg (Nat.not_lt.mpr hlen), Option.map_some]

/-- The addresses of a packet that is taken are both of IPv4 or both of IPv6, and its data fits. -/
theorem processDeviceUdpPacket_fits {conaddr : Conaddr} {isDns : Bool} {p : List UInt8}
    (h : options.processDeviceUdpPacket p = some (conaddr, isDns, data)) :
    conaddr.localAddr.isIpv6 = conaddr.remoteAddr.isIpv6 ∧ data.length ≤ options.udpMtu := by
  obtain ⟨⟨conaddr', isDns', data'⟩, hparse, h⟩ := Option.bind_eq_some_iff.mp h
  dsimp only at h
  split at h
  · cases h
  · rename_i hlen
    simp only [Option.some.injEq, Prod.mk.injEq] at h
    obtain ⟨rfl, rfl, rfl⟩ := h
    refine ⟨?_, Nat.not_lt.mp hlen⟩
    unfold DeviceOptions.parseDevicePacket at hparse
    split at hparse
    · obtain ⟨_, _, heq⟩ := Option.map_eq_some_iff.mp hparse
      obtain rfl : _ = conaddr' := congrArg Prod.fst heq
      rfl
    · split at hparse
      · cases hparse
      · obtain ⟨_, _, heq⟩ := Option.map_eq_some_iff.mp hparse
        obtain rfl : _ = conaddr' := congrArg Prod.fst heq
        rfl
    · cases hparse

/-- A datagram that came back is dropped, or written as a packet of its addresses. -/
theorem handlerReceived_eq (d : Device) {localAddr remoteAddr : BAddr} (hsame : localAddr.isIpv6 = remoteAddr.isIpv6)
    (data : List UInt8) :
    d.udpgwClientHandlerReceived localAddr remoteAddr data = some d ∨
      ∃ p, d.udpgwClientHandlerReceived localAddr remoteAddr data = some { d with written := d.written ++ [p] } ∧
        p.length ≤ d.options.deviceMtu ∧ reads d.options p = mirrored (localAddr, remoteAddr, data) := by
  have hipv4 : ipv4HeaderSize + udpHeaderSize = 28 := rfl
  have hipv6 : ipv6HeaderSize + udpHeaderSize = 48 := rfl
  cases localAddr with
  | ipv4 localIp localPort =>
    cases remoteAddr with
    | ipv6 _ _ => cases hsame
    | ipv4 remoteIp remotePort =>
      unfold udpgwClientHandlerReceived
      dsimp only
      split
      · exact .inl rfl
      · rename_i hfits
        obtain ⟨hlen, hmtu⟩ := not_or.mp hfits
        have hp := DnsGateway.packet_length (ipv4HeaderOf localIp remoteIp data) (udpHeaderOf localPort remotePort data) data
        obtain ⟨isDns, hparse⟩ := parse_ipv4 d.options localIp remoteIp localPort remotePort (Nat.not_lt.mp hlen)
        refine .inr ⟨_, if_neg (by omega), by omega, reads_of_parse hparse (le_max_of_le_left ?_)⟩
        show data.length ≤ d.options.deviceMtu - (ipv4HeaderSize + udpHeaderSize)
        omega
  | ipv6 localIp localPort =>
    cases remoteAddr with
    | ipv4 _ _ => cases hsame
    | ipv6 remoteIp remotePort =>
      unfold udpgwClientHandlerReceived
      dsimp only
      split
      · exact .inl rfl
      · rename_i hip6
        have hip6 : d.options.netifIp6addr := not_not.mp hip6
        split
        · exact .inl rfl
        · rename_i hfits
          obtain ⟨hlen, hmtu⟩ := not_or.mp hfits
          have hp := packetIp6_length (ipv6HeaderOf localIp remoteIp data) (udpHeaderOf localPort remotePort data) data
          refine .inr ⟨_, if_neg (by omega), by omega,
            reads_of_parse (parse_ipv6 hip6 localIp remoteIp localPort remotePort (Nat.not_lt.mp hlen))
              (le_max_of_le_left ?_)⟩
          show data.length ≤ d.options.deviceMtu - (ipv4HeaderSize + udpHeaderSize)
          omega

/-! ## The invariant -/

/-- What was submitted are packets that were read. -/
def Asked (options : DeviceOptions) (read : List (List UInt8)) (submitted : List (Conaddr × Bool × List UInt8)) : Prop :=
  ∃ kept : List (List UInt8), kept.Sublist read ∧ kept.map options.processDeviceUdpPacket = submitted.map some

/-- Every datagram submitted was read from some packet of the device. -/
theorem Asked.of_mem {read : List (List UInt8)} {submitted : List (Conaddr × Bool × List UInt8)}
    (h : Asked options read submitted) {m : Conaddr × Bool × List UInt8} (hm : m ∈ submitted) :
    ∃ p ∈ read, options.processDeviceUdpPacket p = some m := by
  obtain ⟨kept, hsub, hkept⟩ := h
  have hmem : some m ∈ kept.map options.processDeviceUdpPacket := hkept ▸ List.mem_map_of_mem hm
  obtain ⟨p, hp, heq⟩ := List.mem_map.mp hmem
  exact ⟨p, hsub.subset hp, heq⟩

/-- Between calls: what was submitted was read, and what was written was received and fits the device. -/
structure Sound (options : DeviceOptions) (authInfo : List AuthInfo) (addr : BAddr) (d : Device) : Prop where
  same : d.options = options
  session : Reachable (SocksUdpGwClient.system authInfo addr options.udpMtu defaultUdpgwMaxConnections) d.udpgwClient
  asked : Asked options d.read d.udpgwClient.udpgwClient.submitted
  written : ∃ kept : List (BAddr × BAddr × List UInt8), kept.Sublist d.udpgwClient.udpgwClient.received ∧
    d.written.map (reads options) = kept.map mirrored
  fits : ∀ p ∈ d.written, p.length ≤ options.deviceMtu

variable {authInfo : List AuthInfo} {addr : BAddr} {dnsgw : Ipv4Addr} {d d' : Device}

theorem maxConnections_pos : 0 < defaultUdpgwMaxConnections := by decide

/-- The gateway client is one of its own runs. -/
theorem Sound.udpgw (h : Sound options authInfo addr d) :
    Reachable (UdpGwClient.system options.udpMtu defaultUdpgwMaxConnections) d.udpgwClient.udpgwClient :=
  (SocksUdpGwClient.reachable_sound maxConnections_pos h.session).udpgw

/-- A call of the gateway client, with what it submits asked for by what was read. -/
theorem Sound.clientCall (h : Sound options authInfo addr d) {a : SocksUdpGwClient.Call} (hc : d.udpgwClient.Calls a)
    (hasked : Asked options d.read (d.udpgwClient.udpgwClient.submitted ++ a.submission.toList)) :
    ∃ d', d.client a = some d' ∧ Sound options authInfo addr d' := by
  have hsession := SocksUdpGwClient.reachable_sound maxConnections_pos h.session
  obtain ⟨c, hhandle, _⟩ := hsession.handle maxConnections_pos hc
  have hreach : Reachable (SocksUdpGwClient.system authInfo addr options.udpMtu defaultUdpgwMaxConnections) c :=
    .next h.session trivial ((if_pos hc).trans hhandle)
  obtain ⟨_, hsubmitted, hreceived⟩ := hsession.passes maxConnections_pos hc hhandle
  rw [← hsubmitted] at hasked
  obtain ⟨kept, hsub, hwritten⟩ := h.written
  unfold Device.client
  rw [hhandle, Option.bind_some]
  rcases hreceived with hsame | ⟨⟨localAddr, remoteAddr, data⟩, hmore⟩
  · rw [hsame, List.drop_length]
    exact ⟨_, rfl, h.same, hreach, hasked, ⟨kept, hsame ▸ hsub, hwritten⟩, h.fits⟩
  · rw [hmore, List.drop_left]
    dsimp only
    -- the flow that it is for was submitted, so both addresses are of one kind
    have hkind : localAddr.isIpv6 = remoteAddr.isIpv6 := by
      have hcorrect := UdpGwClient.reachable_correct maxConnections_pos
        (SocksUdpGwClient.reachable_sound maxConnections_pos hreach).udpgw
      obtain ⟨m, hm, hflow⟩ := hcorrect.delivered.asked (localAddr, remoteAddr, data)
        (hmore ▸ List.mem_append_right _ List.mem_cons_self)
      obtain ⟨p, _, hp⟩ := hasked.of_mem hm
      have hsame := (processDeviceUdpPacket_fits hp).1
      rw [hflow] at hsame
      exact hsame
    rcases handlerReceived_eq { d with udpgwClient := c } hkind data with hdropped | ⟨p, hsent, hlen, hreads⟩
    · refine ⟨_, hdropped, h.same, hreach, hasked, ⟨kept, ?_, hwritten⟩, h.fits⟩
      rw [hmore]
      exact hsub.trans (List.sublist_append_left _ _)
    · have hoptions : d.options = options := h.same
      refine ⟨_, hsent, hoptions, hreach, hasked, ⟨kept ++ [(localAddr, remoteAddr, data)], ?_, ?_⟩, fun q hq => ?_⟩
      · rw [hmore]
        exact hsub.append (List.Sublist.refl _)
      · have hreads : reads options p = mirrored (localAddr, remoteAddr, data) := hoptions ▸ hreads
        rw [List.map_append, List.map_append, hwritten, List.map_singleton, List.map_singleton, hreads]
      · rcases List.mem_append.mp hq with hold | hown
        · exact h.fits q hold
        · rw [List.mem_singleton.mp hown, ← hoptions]
          exact hlen

/-- The calls of the gateway client submit nothing. -/
theorem calls_client {a : SocksUdpGwClient.Call} (hc : d.Calls (.client a)) :
    d.udpgwClient.Calls a ∧ a.submission = none := by
  cases a with
  | udpgw b =>
    cases b with
    | submit conaddr isDns data room => exact hc.elim
    | firstJob conid room => exact ⟨hc, rfl⟩
    | receive packet => exact ⟨hc, rfl⟩
  | socks b ok => exact ⟨hc, rfl⟩
  | serverError => exact ⟨hc, rfl⟩
  | timer ok => exact ⟨hc, rfl⟩

/-- Every call the environment may make succeeds and keeps the invariant. -/
theorem Sound.handle (h : Sound options authInfo addr d) {a : Call} (hc : d.Calls a) :
    ∃ d', d.handle a = some d' ∧ Sound options authInfo addr d' := by
  cases a with
  | client a =>
    obtain ⟨hc, hnone⟩ := calls_client hc
    refine h.clientCall hc ?_
    rw [hnone]
    exact (List.append_nil d.udpgwClient.udpgwClient.submitted).symm ▸ h.asked
  | read data room =>
    obtain ⟨hidle, _⟩ := hc
    obtain rfl := h.same
    obtain ⟨kept, hsub, hkept⟩ := h.asked
    have hread : Sound d.options authInfo addr { d with read := d.read ++ [data] } :=
      ⟨h.same, h.session, ⟨kept, hsub.trans (List.sublist_append_left _ _), hkept⟩, h.written, h.fits⟩
    show ∃ d', d.deviceReadHandlerSend data room = some d' ∧ _
    unfold deviceReadHandlerSend
    dsimp only
    split
    · exact ⟨_, rfl, hread.same, hread.session, hread.asked, hread.written, hread.fits⟩
    · rename_i dnsGateway _
      have hpassed : Sound d.options authInfo addr { d with read := d.read ++ [data], dnsGateway := dnsGateway } :=
        ⟨hread.same, hread.session, hread.asked, hread.written, hread.fits⟩
      split
      · rename_i conaddr isDns payload hprocess
        have hmtu := UdpGwClient.reachable_mtu maxConnections_pos h.udpgw
        have hcall : d.udpgwClient.Calls (.udpgw (.submit conaddr isDns payload room)) :=
          ⟨hidle, hmtu ▸ (processDeviceUdpPacket_fits hprocess).2⟩
        refine hpassed.clientCall hcall ⟨kept ++ [data], hsub.append (List.Sublist.refl _), ?_⟩
        rw [List.map_append, List.map_append, hkept, List.map_singleton, hprocess]
        rfl
      · refine ⟨_, rfl, ?_⟩
        split
        · exact hpassed
        · exact ⟨hpassed.same, hpassed.session, hpassed.asked, hpassed.written, hpassed.fits⟩

/-- The invariant of every reachable device. -/
theorem reachable_sound (h : Reachable (system options dnsgw authInfo addr) d) : Sound options authInfo addr d := by
  refine h.invariant (fun d hd => ?_) fun d a d' hs _ hstep => ?_
  · obtain ⟨ok, hd⟩ := hd
    unfold init at hd
    split at hd
    · cases hd
    · obtain ⟨c, hinit, rfl⟩ := Option.map_eq_some_iff.mp hd
      have hreach : Reachable (SocksUdpGwClient.system authInfo addr options.udpMtu defaultUdpgwMaxConnections) c :=
        .start ⟨ok, hinit⟩
      have hnew : c.udpgwClient = .init options.udpMtu defaultUdpgwMaxConnections := by
        unfold SocksUdpGwClient.init at hinit
        exact SocksUdpGwClient.tryConnect_udpgw hinit
      refine ⟨rfl, hreach, ⟨[], List.Sublist.refl _, ?_⟩, ⟨[], List.nil_sublist _, rfl⟩,
        fun _ hp => absurd hp List.not_mem_nil⟩
      show [] = c.udpgwClient.submitted.map some
      rw [hnew]
      rfl
  · have hstep : (if d.Calls a then d.handle a else none) = some d' := hstep
    split at hstep
    · rename_i hc
      obtain ⟨r, hr, hsr⟩ := hs.handle hc
      obtain rfl := Option.some.inj (hr.symm.trans hstep)
      exact hsr
    · cases hstep

def browsing : DeviceOptions := ⟨DnsGateway.interfaceIp, true, false, 1500⟩

def page : Ipv4Addr := ⟨.cons 9 (.cons 9 (.cons 9 (.cons 9 .nil))), .cons 0 (.cons 80 .nil)⟩

/-- A session that comes up, a datagram that is read and one that comes back. -/
def loading : List Call :=
  BSocksClient.dialogue.map (fun a => .client (.socks a true)) ++
    [.read (DnsGateway.datagram DnsGateway.resolver page [1, 2]) true, .client (.udpgw (.firstJob 0 true)),
      .client (.udpgw (.receive [0, 0, 0, 9, 9, 9, 9, 0, 80, 7]))]

/-- The state after a run, from a first try that was set up. -/
def ranTo (as : List Call) : Option Device :=
  (init browsing DnsGateway.gateway BSocksClient.offered BSocksClient.destination true).bind fun d =>
    exec (system browsing DnsGateway.gateway BSocksClient.offered BSocksClient.destination) d as

theorem ranTo_reachable {as : List Call} (h : ranTo as = some d) :
    Reachable (system browsing DnsGateway.gateway BSocksClient.offered BSocksClient.destination) d := by
  obtain ⟨d₁, hd₁, hrun⟩ := Option.bind_eq_some_iff.mp h
  exact exec_reaches as (.start ⟨true, hd₁⟩) hrun

/-- One more datagram to the page. -/
def more : Call := .read (DnsGateway.datagram DnsGateway.resolver page [3]) true

/-- **No handler faults**, in the device, the gateway client and its session, in whatever order the packets of both
sides come. -/
theorem device_total (h : Reachable (system options dnsgw authInfo addr) d) {a : Call} (hc : d.Calls a) :
    ∃ d', d.handle a = some d' := by
  obtain ⟨d', hd', _⟩ := (reachable_sound h).handle hc
  exact ⟨d', hd'⟩

theorem device_total_loading :
    ∃ d, ranTo loading = some d ∧ ∃ d', d.handle more = some d' := by
  obtain ⟨d, hd, hc⟩ : ∃ d ∈ ranTo loading, d.Calls more := by decide +kernel
  exact ⟨d, hd, device_total (ranTo_reachable hd) hc⟩

/-- What the server is to read for a packet of the device. -/
def passedOn (options : DeviceOptions) (p : List UInt8) : Option (BAddr × Bool × List UInt8) :=
  (options.processDeviceUdpPacket p).map fun m => (m.1.remoteAddr, m.2.1, m.2.2)

/-- **What comes back goes to who asked.** The engine would take each packet that it writes as a datagram; in order they
have the source and the data of packets of the server; and each fits the device and goes from the remote to the
local address of a packet that the device read. -/
theorem answers_go_back (h : Reachable (system options dnsgw authInfo addr) d) :
    (∃ kept : List (List UInt8), kept.Sublist d.udpgwClient.udpgwClient.arrived ∧
      d.written.map (fun p => (reads options p).map fun m => (m.1.localAddr, m.2)) = kept.map UdpGwClient.source) ∧
      ∀ p ∈ d.written, p.length ≤ options.deviceMtu ∧ ∃ asked ∈ d.read, ∃ localAddr remoteAddr data payload,
        reads options asked = some (⟨localAddr, remoteAddr⟩, payload) ∧
          reads options p = some (⟨remoteAddr, localAddr⟩, data) := by
  have hs := reachable_sound h
  have hdelivered := (UdpGwClient.reachable_correct maxConnections_pos hs.udpgw).delivered
  obtain ⟨received, hreceived, hwritten⟩ := hs.written
  constructor
  · obtain ⟨arrived, harrived, hsource⟩ := hdelivered.arrived
    have hsub := hsource ▸ hreceived.map fun r : BAddr × BAddr × List UInt8 => some r.2
    obtain ⟨kept, hkept, hread⟩ := List.sublist_map_iff.mp hsub
    refine ⟨kept, hkept.trans harrived, ?_⟩
    have hmap := congrArg (List.map (Option.map fun m : Conaddr × List UInt8 => (m.1.localAddr, m.2))) hwritten
    rw [List.map_map, List.map_map] at hmap
    exact hmap.trans hread
  · intro p hp
    have hmem : reads options p ∈ received.map mirrored := hwritten ▸ List.mem_map_of_mem hp
    obtain ⟨r, hr, hmirrored⟩ := List.mem_map.mp hmem
    obtain ⟨m, hm, hflow⟩ := hdelivered.asked r (hreceived.subset hr)
    obtain ⟨asked, hasked, hprocess⟩ := hs.asked.of_mem hm
    refine ⟨hs.fits p hp, asked, hasked, r.1, r.2.1, r.2.2, m.2.2, ?_, hmirrored.symm⟩
    unfold reads
    rw [hprocess, Option.map_some, hflow]

theorem answers_go_back_loading :
    ∃ d, ranTo loading = some d ∧ d.written ≠ [] ∧
      (∃ kept : List (List UInt8), kept.Sublist d.udpgwClient.udpgwClient.arrived ∧
      d.written.map (fun p => (reads browsing p).map fun m => (m.1.localAddr, m.2)) = kept.map UdpGwClient.source) ∧
      ∀ p ∈ d.written, p.length ≤ browsing.deviceMtu ∧ ∃ asked ∈ d.read, ∃ localAddr remoteAddr data payload,
        reads browsing asked = some (⟨localAddr, remoteAddr⟩, payload) ∧
          reads browsing p = some (⟨remoteAddr, localAddr⟩, data) := by
  obtain ⟨d, hd, hwritten⟩ : ∃ d ∈ ranTo loading, d.written ≠ [] := by decide +kernel
  exact ⟨d, hd, hwritten, answers_go_back (ranTo_reachable hd)⟩

end Device
end KiloProxy.Engine
