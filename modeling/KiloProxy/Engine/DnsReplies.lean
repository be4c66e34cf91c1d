import KiloProxy.Engine.DnsGateway
import KiloProxy.Store.Slot

/-!
# Replies of the DNS gateway

An entry of the tree counts the queries of its port that wait for a reply, but has the
addresses of one of them only. A reply is written as one to a query that its port made; where
a port that waits asks nothing else, it is written as one to the query that waits longest.
Every packet written verifies.
-/

namespace KiloProxy.Engine.DnsGateway
set_option autoImplicit false
open KiloProxy.Run KiloProxy.Net KiloProxy.Store

variable {dnsgw : Ipv4Addr} {netifIpaddr : List.Vector UInt8 4} {g : DnsGateway} {port : List.Vector UInt8 2} {q : Query}
  {history : List Passage} {data payload : List UInt8} {ipv4Header : Ipv4Header} {udpHeader : UdpHeader}

/-! ## Packets -/

/-- What the checks of a packet of UDP say; its checksum is taken out. -/
theorem parseUdp_eq_some :
    parseUdp data = some (ipv4Header, udpHeader, payload) ↔
      data[9]? = some ipv4ProtocolUdp ∧ ∃ body u, ipv4Check data = some (ipv4Header, body) ∧ udpCheck body = some (u, payload) ∧
        { u with checksum := hton16 0 } = udpHeader ∧
          u.checksum = udpChecksum udpHeader payload ipv4Header.sourceAddress ipv4Header.destinationAddress := by
  unfold parseUdp
  constructor
  · intro h
    split at h
    · cases h
    · rename_i hudp
      obtain ⟨⟨h', body⟩, hcheck, h⟩ := Option.bind_eq_some_iff.mp h
      obtain ⟨⟨u, payload'⟩, hdatagram, h⟩ := Option.bind_eq_some_iff.mp h
      dsimp only at h
      split at h
      · cases h
      · rename_i hsum
        have h := Option.some.inj h
        simp only [Prod.mk.injEq] at h
        obtain ⟨rfl, rfl, rfl⟩ := h
        exact ⟨not_not.mp (not_or.mp hudp).2, body, u, hcheck, hdatagram, rfl, not_not.mp hsum⟩
  · rintro ⟨hudp, body, u, hcheck, hdatagram, rfl, hsum⟩
    have hlen := (ipv4Check_eq_some.mp hcheck).2.2.1
    rw [if_neg]
    · exact Option.bind_eq_some_iff.mpr
        ⟨_, hcheck, Option.bind_eq_some_iff.mpr ⟨_, hdatagram, if_neg (not_not_intro hsum)⟩⟩
    · rintro (hshort | hother)
      · omega
      · exact hother hudp

/-- What is parsed as a datagram is IPv4 and UDP. -/
theorem parseUdp_version (h : parseUdp data = some (ipv4Header, udpHeader, payload)) :
    ipv4Header.version = 4 ∧ ipv4Header.protocol = ipv4ProtocolUdp := by
  obtain ⟨hudp, body, u, hcheck, _⟩ := parseUdp_eq_some.mp h
  obtain ⟨hof, hversion, _⟩ := ipv4Check_eq_some.mp hcheck
  rw [Ipv4Header.ofBytes_eq_some hof, Ipv4Header.bytes_protocol] at hudp
  exact ⟨hversion, Option.some.inj hudp⟩

/-- The lengths its headers state agree with the payload and fit in the packet. -/
theorem parseUdp_lengths (h : parseUdp data = some (ipv4Header, udpHeader, payload)) :
    ntoh16 udpHeader.length = udpHeaderSize + payload.length ∧
      ipv4HeaderSize + udpHeaderSize + payload.length ≤ data.length := by
  obtain ⟨_, body, u, hcheck, hdatagram, rfl, _⟩ := parseUdp_eq_some.mp h
  obtain ⟨_, _, hheader, htotal, _, rfl⟩ := ipv4Check_eq_some.mp hcheck
  obtain ⟨_, hlength, rfl⟩ := udpCheck_eq_some.mp hdatagram
  rw [List.length_drop, List.length_take] at hlength
  rw [List.length_drop, List.length_take, List.length_drop, List.length_take]
  show ntoh16 u.length = _ ∧ _
  omega

/-- A header with its checksum. -/
def summed (h : Ipv4Header) : Ipv4Header := { h with checksum := ipv4Checksum { h with checksum := hton16 0 } [] }

def summedUdp (u : UdpHeader) (payload : List UInt8) (h : Ipv4Header) : UdpHeader :=
  { u with checksum := udpChecksum { u with checksum := hton16 0 } payload h.sourceAddress h.destinationAddress }

/-- A packet is the two headers, their checksums filled in, and the payload. -/
theorem packet_eq (h : Ipv4Header) (u : UdpHeader) (payload : List UInt8) :
    packet h u payload = (summed h).bytes ++ ((summedUdp u payload h).bytes ++ payload) := List.append_assoc _ _ _

theorem packet_length (h : Ipv4Header) (u : UdpHeader) (payload : List UInt8) :
    (packet h u payload).length = ipv4HeaderSize + udpHeaderSize + payload.length := by
  rw [packet_eq, List.length_append, List.length_append, Ipv4Header.bytes_length, UdpHeader.bytes_length, Nat.add_assoc]

/-- **A packet that is written is accepted** when its lengths are those of what is written. -/
theorem parseUdp_packet {h : Ipv4Header} {u : UdpHeader} (hversion : h.version = 4)
    (hprotocol : h.protocol = ipv4ProtocolUdp) (hheader : h.headerLen = ipv4HeaderSize)
    (htotal : ntoh16 h.totalLength = ipv4HeaderSize + udpHeaderSize + payload.length)
    (hudp : ntoh16 u.length = udpHeaderSize + payload.length) :
    parseUdp (packet h u payload) = some (summed h, { u with checksum := hton16 0 }, payload) := by
  have hlength := packet_length h u payload
  have hsame : (summed h).headerLen = ipv4HeaderSize := hheader
  have hcheck : ipv4Check (packet h u payload) = some (summed h, (summedUdp u payload h).bytes ++ payload) := by
    refine ipv4Check_eq_some.mpr ⟨?_, hversion, ?_, ?_, ?_, ?_⟩
    · rw [packet_eq, Ipv4Header.ofBytes_append]
    · omega
    · show (summed h).headerLen ≤ ntoh16 h.totalLength ∧ ntoh16 h.totalLength ≤ _
      omega
    · rw [hsame, Nat.sub_self, List.take_zero]
      rfl
    · rw [hsame, List.take_of_length_le (by show _ ≤ ntoh16 h.totalLength; omega), packet_eq,
        List.drop_left' (Ipv4Header.bytes_length _)]
  have hdatagram : udpCheck ((summedUdp u payload h).bytes ++ payload) = some (summedUdp u payload h, payload) :=
    udpCheck_append hudp
  refine parseUdp_eq_some.mpr ⟨?_, _, _, hcheck, hdatagram, rfl, rfl⟩
  rw [packet_eq, Ipv4Header.bytes_protocol]
  exact congrArg some hprotocol

/-! ## Steps -/

/-- The headers of a query as they are passed on. -/
def queryIpv4 (g : DnsGateway) (h : Ipv4Header) : Ipv4Header :=
  { h with destinationAddress := g.dnsgw.ip, sourceAddress := g.netifIpaddr }

def queryUdp (g : DnsGateway) (u : UdpHeader) : UdpHeader := { u with destPort := g.dnsgw.port }

/-- The headers of a reply to a query as they are passed on. -/
def replyIpv4 (q : Query) (h : Ipv4Header) : Ipv4Header :=
  { h with sourceAddress := q.remoteAddr.ip, destinationAddress := q.localAddr.ip }

def replyUdp (q : Query) (u : UdpHeader) : UdpHeader := { u with sourcePort := q.remoteAddr.port }

/-- What a packet does: it is not for the gateway, or it is a query, or a reply to a port that has an entry. -/
inductive Step (g : DnsGateway) (data : List UInt8) (g' : DnsGateway) : Prop where
  | bypass (hsame : g' = g)
  | query (h : Ipv4Header) (u : UdpHeader) (payload : List UInt8) (hparse : parseUdp data = some (h, u, payload))
      (hport : u.destPort = hton16 53)
      (hnext : g' = { g.insertConnection (queryOf h u) u.sourcePort with
        initialized := true, history := g.history ++ [.query (queryOf h u)],
        sent := g.sent ++ [packet (g.queryIpv4 h) (g.queryUdp u) payload] })
  | reply (h : Ipv4Header) (u : UdpHeader) (payload : List UInt8) (con : Connection)
      (hparse : parseUdp data = some (h, u, payload)) (hfind : g.findConnection u.destPort = some con)
      (hnext : g' = { g.removeConnection u.destPort con with
        history := g.history ++ [.reply con.query],
        sent := g.sent ++ [packet (replyIpv4 con.query h) (replyUdp con.query u) payload] })

/-- A packet is passed by, is a query of the device or is a reply of the server, and does no more. -/
theorem process_step (g : DnsGateway) (data : List UInt8) : Step g data (g.processDeviceDnsPacket data).2 := by
  unfold processDeviceDnsPacket
  split
  · exact .bypass rfl
  · split
    · exact .bypass rfl
    · rename_i h u payload hparse
      dsimp only
      split
      · exact .bypass rfl
      · by_cases hto : u.destPort = hton16 53
        · rw [if_pos hto]
          exact .query h u payload hparse hto rfl
        · rw [if_neg hto, replyHeaders]
          split
          · exact .bypass rfl
          · rename_i hnext
            split at hnext
            · cases hnext
            · obtain ⟨con, hfind, hnext⟩ := Option.map_eq_some_iff.mp hnext
              simp only [Prod.mk.injEq] at hnext
              obtain ⟨rfl, rfl, rfl⟩ := hnext
              exact .reply h u payload con hparse hfind rfl

/-! ## The entries and the queries that wait -/

/-- The queries of a port that wait for a reply, the one that waits longest in front. -/
def wait (port : List.Vector UInt8 2) (waiting : List Query) : Passage → List Query
  | .query q => if q.localAddr.port = port then waiting ++ [q] else waiting
  | .reply q => if q.localAddr.port = port then waiting.tail else waiting

def waiting (port : List.Vector UInt8 2) (history : List Passage) : List Query := history.foldl (wait port) []

/-- One more passage changes who waits on a port as `wait` says. -/
theorem waiting_concat (port : List.Vector UInt8 2) (history : List Passage) (e : Passage) :
    waiting port (history ++ [e]) = wait port (waiting port history) e := by
  simp only [waiting, List.foldl_append, List.foldl_cons, List.foldl_nil]

/-- The entry of a port counts what waits, and has the addresses of a query that the port made. With `steady`, of all
that wait. -/
structure EntryOf (steady : Prop) (port : List.Vector UInt8 2) (history : List Passage) (con : Connection) : Prop where
  count : con.count = (waiting port history).length
  pos : 0 < con.count
  own : con.query.localAddr.port = port
  asked : .query con.query ∈ history
  same : steady → ∀ q ∈ waiting port history, q = con.query

/-- A port without an entry has nothing that waits. -/
def Fits (steady : Prop) (port : List.Vector UInt8 2) (history : List Passage) : Option Connection → Prop
  | none => waiting port history = []
  | some con => EntryOf steady port history con

variable {steady : Prop} {con : Connection} {e : Passage}

/-- An event of another port. -/
theorem Fits.other {entry : Option Connection} (h : Fits steady port history entry)
    (hwait : ∀ waiting, wait port waiting e = waiting) : Fits steady port (history ++ [e]) entry := by
  have hsame : waiting port (history ++ [e]) = waiting port history := by rw [waiting_concat, hwait]
  cases entry with
  | none => exact hsame.trans h
  | some con => exact ⟨hsame ▸ h.count, h.pos, h.own, List.mem_append_left _ h.asked, fun hs => hsame ▸ h.same hs⟩

/-- A query of a port that has no entry. -/
theorem Fits.opened (h : Fits steady q.localAddr.port history none) :
    Fits steady q.localAddr.port (history ++ [.query q]) (some ⟨q, 1⟩) := by
  have hwaiting : waiting q.localAddr.port (history ++ [.query q]) = [q] := by
    rw [waiting_concat, show waiting q.localAddr.port history = [] from h]
    exact if_pos rfl
  refine ⟨?_, Nat.one_pos, rfl, List.mem_append_right _ List.mem_cons_self, fun _ w hw => ?_⟩
  · rw [hwaiting]
    rfl
  · rw [hwaiting] at hw
    exact List.mem_singleton.mp hw

/-- A query of a port that waits. -/
theorem Fits.joined (h : Fits steady q.localAddr.port history (some con))
    (hsteady : steady → ∀ w ∈ waiting q.localAddr.port history, w = q) :
    Fits steady q.localAddr.port (history ++ [.query q]) (some { con with count := con.count + 1 }) := by
  have hwaiting : waiting q.localAddr.port (history ++ [.query q]) = waiting q.localAddr.port history ++ [q] := by
    rw [waiting_concat]
    exact if_pos rfl
  have hcount := h.count
  have hpos := h.pos
  refine ⟨?_, Nat.succ_pos _, h.own, List.mem_append_left _ h.asked, fun hs w hw => ?_⟩
  · rw [hwaiting, List.length_append, ← hcount]
    rfl
  · -- the entry has the addresses of one that waits, so those of the new one
    obtain ⟨v, hv⟩ := List.exists_mem_of_length_pos (hcount ▸ hpos)
    have hcon : con.query = q := (h.same hs v hv).symm.trans (hsteady hs v hv)
    rw [hwaiting] at hw
    rcases List.mem_append.mp hw with hw | hw
    · exact h.same hs w hw
    · exact (List.mem_singleton.mp hw).trans hcon.symm

/-- A reply to a port. -/
theorem Fits.replied (h : Fits steady port history (some con)) :
    Fits steady port (history ++ [.reply con.query])
      (if con.count - 1 = 0 then none else some { con with count := con.count - 1 }) := by
  have hwaiting : waiting port (history ++ [.reply con.query]) = (waiting port history).tail := by
    rw [waiting_concat]
    exact if_pos h.own
  have hlength : (waiting port (history ++ [.reply con.query])).length = con.count - 1 := by
    rw [hwaiting, List.length_tail, h.count]
  split
  · rename_i hlast
    exact List.length_eq_zero_iff.mp (hlength.trans hlast)
  · rename_i hmore
    refine ⟨hlength.symm, Nat.pos_of_ne_zero hmore, h.own, List.mem_append_left _ h.asked, fun hs w hw => ?_⟩
    rw [hwaiting] at hw
    exact h.same hs w (List.mem_of_mem_tail hw)

/-! ## Whole runs -/

/-- A reply is to a port that waits, and as one to a query of it; with `steady`, to the one that waits longest. -/
def Answers (steady : Prop) (before : List Passage) : Passage → Prop
  | .query _ => True
  | .reply q => waiting q.localAddr.port before ≠ [] ∧ .query q ∈ before ∧
      (steady → (waiting q.localAddr.port before).head? = some q)

/-- The addresses in a packet. -/
def addresses (packet : List UInt8) : Option (Ipv4Addr × Ipv4Addr) :=
  (Ipv4Header.ofBytes packet).bind fun h => (UdpHeader.ofBytes (packet.drop ipv4HeaderSize)).map fun u =>
    (⟨h.sourceAddress, u.sourcePort⟩, ⟨h.destinationAddress, u.destPort⟩)

/-- The addresses of a packet are read from the headers it was built of. -/
theorem addresses_packet (h : Ipv4Header) (u : UdpHeader) (payload : List UInt8) :
    addresses (packet h u payload) = some (⟨h.sourceAddress, u.sourcePort⟩, ⟨h.destinationAddress, u.destPort⟩) := by
  unfold addresses
  rw [packet_eq, Ipv4Header.ofBytes_append, Option.bind_some, List.drop_left' (Ipv4Header.bytes_length _),
    UdpHeader.ofBytes_append]
  rfl

/-- What is seen of an event: a query goes from the interface to the gateway, and a reply from the server to the
address that asked. -/
def seen (dnsgw : Ipv4Addr) (netifIpaddr : List.Vector UInt8 4) : Passage → Option (Ipv4Addr × Ipv4Addr)
  | .query q => some (⟨netifIpaddr, q.localAddr.port⟩, dnsgw)
  | .reply q => some (q.remoteAddr, q.localAddr)

structure Sound (steady : Prop) (dnsgw : Ipv4Addr) (netifIpaddr : List.Vector UInt8 4) (g : DnsGateway) : Prop where
  gateway : g.dnsgw = dnsgw
  netif : g.netifIpaddr = netifIpaddr
  fits : ∀ port, Fits steady port g.history (g.findConnection port)
  answers : Justified (Answers steady) g.history
  written : g.sent.map addresses = g.history.map (seen dnsgw netifIpaddr)

/-- A port that waits asks nothing else. -/
def SameQuery (g : DnsGateway) (data : List UInt8) : Prop :=
  match parseUdp data with
  | none => True
  | some (h, u, _) => u.destPort = hton16 53 → ∀ w ∈ waiting u.sourcePort g.history, w = queryOf h u

instance (g : DnsGateway) (data : List UInt8) : Decidable (SameQuery g data) := by
  unfold SameQuery
  split <;> infer_instance

/-- A query opens the connection of its port, or counts one more waiting answer there. -/
theorem findConnection_insert (g : DnsGateway) (q : Query) (port x : List.Vector UInt8 2) :
    (g.insertConnection q port).findConnection x =
      if x = port then some ((g.findConnection port).elim ⟨q, 1⟩ fun con => { con with count := con.count + 1 })
      else g.findConnection x := by
  unfold insertConnection
  cases h : g.findConnection port with
  | none => simp [findConnection, Entries.get_put, Function.update_apply]
  | some con => simp [findConnection, Entries.get_put, Function.update_apply]

/-- A reply counts one down, and closes the connection with the last. -/
theorem findConnection_remove (g : DnsGateway) (port x : List.Vector UInt8 2) (con : Connection) :
    (g.removeConnection port con).findConnection x =
      if x = port then if con.count - 1 = 0 then none else some { con with count := con.count - 1 }
      else g.findConnection x := by
  unfold removeConnection findConnection
  by_cases hlast : con.count - 1 = 0
  · simp [hlast, Entries.get_remove, Function.update_apply]
  · simp [hlast, Entries.get_put, Function.update_apply]

/-- A query keeps the table in step with who waits. -/
theorem Sound.query {h : Ipv4Header} {u : UdpHeader} (hg : Sound steady dnsgw netifIpaddr g) (payload : List UInt8)
    (hsteady : steady → ∀ w ∈ waiting u.sourcePort g.history, w = queryOf h u) :
    Sound steady dnsgw netifIpaddr { g.insertConnection (queryOf h u) u.sourcePort with
      initialized := true, history := g.history ++ [.query (queryOf h u)],
      sent := g.sent ++ [packet (g.queryIpv4 h) (g.queryUdp u) payload] } := by
  refine ⟨hg.gateway, hg.netif, fun port => ?_, hg.answers.concat trivial, ?_⟩
  · show Fits steady port (g.history ++ [.query (queryOf h u)]) ((g.insertConnection (queryOf h u) u.sourcePort).findConnection port)
    rw [findConnection_insert]
    have hfits := hg.fits port
    split
    · rename_i hport
      subst hport
      cases hfind : g.findConnection u.sourcePort with
      | none =>
        rw [hfind] at hfits
        have hfits : Fits steady (queryOf h u).localAddr.port g.history none := hfits
        exact hfits.opened
      | some con =>
        rw [hfind] at hfits
        have hfits : Fits steady (queryOf h u).localAddr.port g.history (some con) := hfits
        exact hfits.joined hsteady
    · rename_i hport
      exact hfits.other fun waiting => if_neg (Ne.symm hport)
  · show (g.sent ++ [_]).map addresses = (g.history ++ [_]).map (seen dnsgw netifIpaddr)
    rw [List.map_append, List.map_append, hg.written, List.map_singleton, List.map_singleton, addresses_packet]
    show _ ++ [some ((⟨g.netifIpaddr, u.sourcePort⟩ : Ipv4Addr), g.dnsgw)] = _
    rw [hg.gateway, hg.netif]
    rfl

/-- A reply goes to a query that waits on its port, and keeps the table in step with who waits. -/
theorem Sound.reply {u : UdpHeader} (hg : Sound steady dnsgw netifIpaddr g) (h : Ipv4Header) (payload : List UInt8)
    (hfind : g.findConnection u.destPort = some con) :
    Sound steady dnsgw netifIpaddr { g.removeConnection u.destPort con with
      history := g.history ++ [.reply con.query],
      sent := g.sent ++ [packet (replyIpv4 con.query h) (replyUdp con.query u) payload] } := by
  have hentry := hg.fits u.destPort
  rw [hfind] at hentry
  have hport : con.query.localAddr.port = u.destPort := hentry.own
  obtain ⟨v, hv⟩ := List.exists_mem_of_length_pos (hentry.count ▸ hentry.pos)
  refine ⟨hg.gateway, hg.netif, fun port => ?_, hg.answers.concat ?_, ?_⟩
  · show Fits steady port (g.history ++ [.reply con.query]) ((g.removeConnection u.destPort con).findConnection port)
    rw [findConnection_remove]
    split
    · rename_i he
      subst he
      exact Fits.replied hentry
    · rename_i hother
      exact (hg.fits port).other fun waiting => if_neg fun he => hother (he.symm.trans hport)
  · show waiting con.query.localAddr.port g.history ≠ [] ∧ _ ∧ (steady → (waiting con.query.localAddr.port g.history).head? = _)
    rw [hport]
    refine ⟨List.ne_nil_of_mem hv, hentry.asked, fun hs => ?_⟩
    cases hw : waiting u.destPort g.history with
    | nil =>
      rw [hw] at hv
      cases hv
    | cons w ws => rw [List.head?_cons, hentry.same hs w (hw ▸ List.mem_cons_self)]
  · show (g.sent ++ [_]).map addresses = (g.history ++ [_]).map (seen dnsgw netifIpaddr)
    rw [List.map_append, List.map_append, hg.written, List.map_singleton, List.map_singleton, addresses_packet]
    show _ ++ [some (con.query.remoteAddr, (⟨con.query.localAddr.ip, u.destPort⟩ : Ipv4Addr))] = _
    rw [← hport]
    rfl

/-- In every run the table counts the queries that wait. -/
theorem reaches_sound (h : Reaches (system dnsgw netifIpaddr) (fun g data => steady → SameQuery g data) g) :
    Sound steady dnsgw netifIpaddr g := by
  refine h.invariant (fun g hg => ?_) fun g data g' hg hsteady hstep => ?_
  · obtain rfl : g = init dnsgw netifIpaddr := hg
    exact ⟨rfl, rfl, fun _ => rfl, Justified.nil _, rfl⟩
  · obtain rfl := Option.some.inj hstep
    cases process_step g data with
    | bypass hsame =>
      rw [hsame]
      exact hg
    | query h u payload hparse hport hnext =>
      rw [hnext]
      refine hg.query payload fun hs => ?_
      have hsame := hsteady hs
      unfold SameQuery at hsame
      rw [hparse] at hsame
      exact hsame hport
    | reply h u payload con hparse hfind hnext =>
      rw [hnext]
      exact hg.reply h payload hfind

/-- A resolver, the server that it asks, the gateway and the interface. -/
def resolver : Ipv4Addr := ⟨⟨[10, 0, 0, 2], rfl⟩, ⟨[16, 0], rfl⟩⟩

def server : Ipv4Addr := ⟨.cons 8 (.cons 8 (.cons 8 (.cons 8 .nil))), .cons 0 (.cons 53 .nil)⟩

def gateway : Ipv4Addr := ⟨.cons 10 (.cons 0 (.cons 0 (.cons 1 .nil))), .cons 31 (.cons 217 .nil)⟩

def interfaceIp : List.Vector UInt8 4 := ⟨[10, 0, 0, 3], rfl⟩

/-- A packet between two addresses. -/
def datagram (source dest : Ipv4Addr) (payload : List UInt8) : List UInt8 :=
  packet ⟨0x45, 0, hton16 (28 + payload.length), hton16 7, hton16 0, 64, 17, hton16 0, source.ip, dest.ip⟩
    ⟨source.port, dest.port, hton16 (8 + payload.length), hton16 0⟩ payload

/-- A query and its reply. -/
def exchange : List (List UInt8) :=
  [datagram resolver server [1, 2], datagram gateway ⟨interfaceIp, resolver.port⟩ [3]]

/-- Two queries of one port, the second sent before the first is answered, and their replies. -/
def overlapping : List (List UInt8) :=
  [datagram resolver server [1, 2], datagram resolver server [5, 6],
    datagram gateway ⟨interfaceIp, resolver.port⟩ [3], datagram gateway ⟨interfaceIp, resolver.port⟩ [7]]

/-- The state after a run in which no port that waits asks anything else. -/
def ranTo (packets : List (List UInt8)) : DnsGateway :=
  (execWhere (system gateway interfaceIp) (fun g data => SameQuery g data) (init gateway interfaceIp) packets).getD
    (init gateway interfaceIp)

theorem ranTo_reaches (packets : List (List UInt8)) :
    Reaches (system gateway interfaceIp) (fun g data => SameQuery g data) (ranTo packets) := by
  unfold ranTo
  cases hrun : execWhere (system gateway interfaceIp) (fun g data => SameQuery g data) (init gateway interfaceIp) packets with
  | none => exact .start rfl
  | some g => exact execWhere_reaches packets (.start rfl) hrun

/-- **No reply without a query.** What is written to the device are the queries, from the interface to the
gateway, and the replies, from the server to the address that asked; a reply is written only to a port
that waits for one, as a reply to a query that came from that port; and an entry counts what waits. -/
theorem replies_were_asked (h : Reachable (system dnsgw netifIpaddr) g) :
    g.sent.map addresses = g.history.map (seen dnsgw netifIpaddr) ∧
      (∀ before q after, g.history = before ++ .reply q :: after →
        waiting q.localAddr.port before ≠ [] ∧ .query q ∈ before) ∧
        ∀ port, (g.findConnection port).elim 0 Connection.count = (waiting port g.history).length := by
  have hg : Sound False dnsgw netifIpaddr g := reaches_sound (h.mono fun _ _ _ => False.elim)
  refine ⟨hg.written, fun before q after heq => ?_, fun port => ?_⟩
  · obtain ⟨hwaits, hasked, _⟩ := hg.answers before (.reply q) after heq
    exact ⟨hwaits, hasked⟩
  · have hfits := hg.fits port
    cases hfind : g.findConnection port with
    | none =>
      rw [hfind] at hfits
      exact (congrArg List.length (show waiting port g.history = [] from hfits)).symm
    | some con =>
      rw [hfind] at hfits
      exact EntryOf.count hfits

theorem replies_were_asked_exchange :
    (ranTo exchange).sent.map addresses = (ranTo exchange).history.map (seen gateway interfaceIp) ∧
      (∀ before q after, (ranTo exchange).history = before ++ .reply q :: after →
        waiting q.localAddr.port before ≠ [] ∧ .query q ∈ before) ∧
        ∀ port, ((ranTo exchange).findConnection port).elim 0 Connection.count =
          (waiting port (ranTo exchange).history).length :=
  replies_were_asked (ranTo_reaches exchange).reachable

/-- **Replies answer in order** on runs in which a port that waits asks nothing but what it asked: every reply
is written as one to the query of its port that waits longest. -/
theorem replies_in_order (h : Reaches (system dnsgw netifIpaddr) (fun g data => SameQuery g data) g) :
    ∀ before q after, g.history = before ++ .reply q :: after → (waiting q.localAddr.port before).head? = some q := by
  have hg : Sound True dnsgw netifIpaddr g := reaches_sound (h.mono fun _ _ hsame _ => hsame)
  intro before q after heq
  exact (hg.answers before (.reply q) after heq).2.2 trivial

theorem replies_in_order_overlapping :
    (ranTo overlapping).history.length = 4 ∧ ∀ before q after, (ranTo overlapping).history = before ++ .reply q :: after →
      (waiting q.localAddr.port before).head? = some q :=
  ⟨by decide +kernel, replies_in_order (ranTo_reaches overlapping)⟩

/-- The packet's two sums are right: that of its header, when the header is as long as its first
byte says, and that of the datagram. The gateway sums the 20 bytes it writes, whatever that
byte says, so the sum of a header with options is not. -/
def Verifies (p payload : List UInt8) : Prop :=
  ∃ h u, p = Ipv4Header.bytes h ++ (UdpHeader.bytes u ++ payload) ∧
    (h.headerLen = ipv4HeaderSize → carried (wordSum (p.take h.headerLen)) = 65535) ∧
    carried (udpSum u payload h.sourceAddress h.destinationAddress) = 65535

/-- The checksums the gateway fills in verify, that of a header with options apart. -/
theorem packet_verifies (h : Ipv4Header) (u : UdpHeader) (payload : List UInt8) : Verifies (packet h u payload) payload := by
  have hsum : carried (wordSum (summed h).bytes + wordSum []) = 65535 := ipv4Checksum_verifies h []
  rw [show wordSum [] = 0 from rfl, Nat.add_zero] at hsum
  refine ⟨summed h, summedUdp u payload h, packet_eq h u payload, fun hlen => ?_, udpChecksum_verifies _ _ _ _⟩
  rwa [hlen, packet_eq, List.take_left' (Ipv4Header.bytes_length _)]

/-- What is written instead of a packet that was read: its headers with other addresses. -/
structure Rewrites (h : Ipv4Header) (u : UdpHeader) (h' : Ipv4Header) (u' : UdpHeader) : Prop where
  version4Ihl4 : h'.version4Ihl4 = h.version4Ihl4
  totalLength : h'.totalLength = h.totalLength
  protocol : h'.protocol = h.protocol
  length : u'.length = u.length

/-- A rewritten packet is no longer than the one read, and verifies. -/
theorem Rewrites.written {h h' : Ipv4Header} {u u' : UdpHeader} (hsame : Rewrites h u h' u')
    (hparse : parseUdp data = some (h, u, payload)) :
    (packet h' u' payload).length ≤ data.length ∧ Verifies (packet h' u' payload) payload ∧
      (h.headerLen = ipv4HeaderSize → ntoh16 h.totalLength = ipv4HeaderSize + udpHeaderSize + payload.length →
        ∃ h'' u'', parseUdp (packet h' u' payload) = some (h'', u'', payload)) := by
  obtain ⟨hversion, hprotocol⟩ := parseUdp_version hparse
  obtain ⟨hudp, hfits⟩ := parseUdp_lengths hparse
  refine ⟨(packet_length h' u' payload).trans_le hfits, packet_verifies h' u' payload, fun hheader htotal => ?_⟩
  have hversion' : h'.version = 4 := by rw [Ipv4Header.version, hsame.version4Ihl4]; exact hversion
  have hheader' : h'.headerLen = ipv4HeaderSize := by rw [Ipv4Header.headerLen, hsame.version4Ihl4]; exact hheader
  exact ⟨_, _, parseUdp_packet hversion' (hsame.protocol.trans hprotocol) hheader' (hsame.totalLength ▸ htotal)
    (hsame.length ▸ hudp)⟩

/-- **What is written verifies.** The packet is no longer than the one that was read, has its data, and its
sums are right, that of a header with options apart; and if the lengths of the packet that was read are those
of a header without options and a datagram with nothing behind it, the checks of the program accept it. -/
theorem written_verifies (g : DnsGateway) (data : List UInt8) :
    (g.processDeviceDnsPacket data).2.sent = g.sent ∨
      ∃ h u payload p, parseUdp data = some (h, u, payload) ∧ (g.processDeviceDnsPacket data).2.sent = g.sent ++ [p] ∧
        p.length ≤ data.length ∧ Verifies p payload ∧
          (h.headerLen = ipv4HeaderSize → ntoh16 h.totalLength = ipv4HeaderSize + udpHeaderSize + payload.length →
            ∃ h' u', parseUdp p = some (h', u', payload)) := by
  cases process_step g data with
  | bypass hsame => exact .inl (congrArg DnsGateway.sent hsame)
  | query h u payload hparse _ hnext =>
    have hsame : Rewrites h u (g.queryIpv4 h) (g.queryUdp u) := ⟨rfl, rfl, rfl, rfl⟩
    exact .inr ⟨h, u, payload, _, hparse, congrArg DnsGateway.sent hnext, hsame.written hparse⟩
  | reply h u payload con hparse _ hnext =>
    have hsame : Rewrites h u (replyIpv4 con.query h) (replyUdp con.query u) := ⟨rfl, rfl, rfl, rfl⟩
    exact .inr ⟨h, u, payload, _, hparse, congrArg DnsGateway.sent hnext, hsame.written hparse⟩

end KiloProxy.Engine.DnsGateway
