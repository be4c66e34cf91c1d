import KiloProxy.Engine.UdpGwTable

/-!
# Runs of the UDP gateway client

The connections are the flows used last, and every search for a number ends. The server is
sent what was submitted, in order and to the addresses it was submitted for; the user gets
what came in, from the address that it came from, for a flow that was submitted.

Three invariants stand side by side: the table (`Sound`), what passed to the server
(`Passing`) and what was handed to the user (`Delivered`). Between the submission of a new
flow and the job that sends its first packet the second has one packet outstanding; no
other call can come before that job.
-/

namespace KiloProxy.Engine.UdpGwClient
set_option autoImplicit false
open KiloProxy.Run KiloProxy.Store

variable {full : Prop} {o o' : UdpGwClient} {con : UdpGwConnection} {conaddr : Conaddr} {isDns : Bool}
  {data packet : List UInt8} {room : Bool}

/-! ## What passes to the server -/

/-- What the server reads in a packet: the address, whether it is for the DNS server, and the data. -/
def read (packet : List UInt8) : Option (BAddr × Bool × List UInt8) :=
  (parseDatagram packet).map fun d => (d.remoteAddr, decide (d.flags &&& udpgwClientFlagDns ≠ 0), d.data)

/-- What was submitted, as the server is to read it. -/
def wanted (m : Conaddr × Bool × List UInt8) : Option (BAddr × Bool × List UInt8) := some (m.1.remoteAddr, m.2.1, m.2.2)

def dnsFlags (isDns : Bool) : UInt8 := if isDns then udpgwClientFlagDns else 0

/-- The flags of a packet, with or without the one to rebind. -/
inductive FlagsOf (isDns : Bool) : UInt8 → Prop where
  | plain : FlagsOf isDns (dnsFlags isDns)
  | rebind : FlagsOf isDns (dnsFlags isDns ||| udpgwClientFlagRebind)
  | first : FlagsOf isDns (udpgwClientFlagRebind ||| dnsFlags isDns)

/-- The flags say whether a datagram goes to the DNS server. -/
theorem FlagsOf.read {flags : UInt8} (h : FlagsOf isDns flags) :
    flags &&& udpgwClientFlagIpv6 = 0 ∧ decide (flags &&& udpgwClientFlagDns ≠ 0) = isDns := by
  cases h <;> cases isDns <;> decide

/-- The server reads from a packet the address and the data that were submitted. -/
theorem read_udpgwPacket {flags : UInt8} (hflags : FlagsOf isDns flags) {conid : Nat} (hconid : conid < 65536) :
    read (udpgwPacket flags conid conaddr.remoteAddr data) = wanted (conaddr, isDns, data) := by
  obtain ⟨hsix, hdns⟩ := hflags.read
  unfold read
  rw [parseDatagram_udpgwPacket hsix hconid, Option.map_some, flagsFor_dns]
  exact congrArg some (Prod.ext rfl (Prod.ext hdns rfl))

/-- The packets sent are those of `submitted` that were kept; all of them, unless a buffer was full. -/
def Passed (full : Prop) (submitted : List (Conaddr × Bool × List UInt8)) (sent : List (List UInt8)) : Prop :=
  ∃ kept, kept.Sublist submitted ∧ (full ∨ kept = submitted) ∧ sent.map read = kept.map wanted

variable {asked : List (Conaddr × Bool × List UInt8)} {packets : List (List UInt8)} {m : Conaddr × Bool × List UInt8}

/-- A packet sent is the last one asked for. -/
theorem Passed.went (h : Passed full asked packets) (hread : read packet = wanted m) :
    Passed full (asked ++ [m]) (packets ++ [packet]) := by
  obtain ⟨kept, hsub, hall, hkept⟩ := h
  refine ⟨kept ++ [m], hsub.append (List.Sublist.refl _), hall.imp id fun he => by rw [he], ?_⟩
  rw [List.map_append, List.map_append, hkept, List.map_singleton, List.map_singleton, hread]

/-- A packet may be missing only where the link was full. -/
theorem Passed.dropped (h : Passed full asked packets) (hfull : full) : Passed full (asked ++ [m]) packets := by
  obtain ⟨kept, hsub, _, hkept⟩ := h
  exact ⟨kept, hsub.trans (List.sublist_append_left _ _), .inl hfull, hkept⟩

/-- Between calls all that was submitted has passed, or the first packet of the connection that is new waits. -/
inductive Passing (full : Prop) (o : UdpGwClient) : Prop where
  | idle (hidle : o.Idle) (hpassed : Passed full o.submitted o.sent)
  | first (m : Conaddr × Bool × List UInt8) (before : List (Conaddr × Bool × List UInt8)) (rest : List UdpGwConnection)
      (con : UdpGwConnection) (hsubmitted : o.submitted = before ++ [m]) (hconnections : o.connections = rest ++ [con])
      (hrest : ∀ c ∈ rest, c.firstJob = none) (hjob : con.firstJob = some (dnsFlags m.2.1, m.2.2))
      (hconaddr : con.conaddr = m.1) (hlen : m.2.2.length ≤ o.udpMtu) (hpassed : Passed full before o.sent)

/-! ## What passes to the user -/

/-- The address that a packet of the server comes from, and its data. -/
def source (packet : List UInt8) : Option (BAddr × List UInt8) := (parseDatagram packet).map fun d => (d.remoteAddr, d.data)

/-- The user got packets that arrived, for flows that were submitted. -/
structure Delivered (o : UdpGwClient) : Prop where
  arrived : ∃ kept : List (List UInt8), kept.Sublist o.arrived ∧ o.received.map (fun r => some r.2) = kept.map source
  asked : ∀ r ∈ o.received, ∃ m ∈ o.submitted, m.1 = ⟨r.1, r.2.1⟩
  flows : ∀ con ∈ o.connections, ∃ m ∈ o.submitted, m.1 = con.conaddr

/-! ## The calls -/

/-- The packet is sent, or dropped when the buffer is full. -/
def sends (o : UdpGwClient) (con : UdpGwConnection) (flags : UInt8) (data : List UInt8) (room : Bool) : UdpGwClient :=
  { o with sent := if room then o.sent ++ [udpgwPacket flags con.conid con.conaddr.remoteAddr data] else o.sent }

theorem connectionSend_eq (hlen : data.length ≤ o.udpMtu) (flags : UInt8) :
    o.connectionSend con flags data room = some (o.sends con flags data room) := by
  unfold connectionSend sends
  rw [if_neg (Nat.not_lt.mpr hlen)]
  cases room <;> rfl

/-- Sending on a connection adds its datagram, or drops it for want of room. -/
theorem Passed.connectionSend (h : Passed full asked packets) (con : UdpGwConnection) (data : List UInt8) {flags : UInt8}
    (hflags : FlagsOf isDns flags) (hconid : con.conid < 65536) (hroom : full ∨ room) :
    Passed full (asked ++ [(con.conaddr, isDns, data)])
      (if room then packets ++ [udpgwPacket flags con.conid con.conaddr.remoteAddr data] else packets) := by
  cases room with
  | true => exact h.went (read_udpgwPacket hflags hconid)
  | false => exact h.dropped (hroom.resolve_right Bool.false_ne_true)

/-- What holds between calls. -/
structure Correct (full : Prop) (o : UdpGwClient) : Prop where
  sound : Sound o
  passing : Passing full o
  delivered : Delivered o

/-- A connection found by address is in the table, with that address. -/
theorem find_conaddr (h : o.findConnectionByConaddr conaddr = some con) : con ∈ o.connections ∧ con.conaddr = conaddr :=
  ⟨List.mem_of_find?_eq_some h, by simpa using List.find?_some h⟩

/-- A connection found by number is in the table, with that number. -/
theorem find_conid {conid : Nat} (h : o.findConnectionByConid conid = some con) :
    con ∈ o.connections ∧ con.conid = conid :=
  ⟨List.mem_of_find?_eq_some h, by simpa using List.find?_some h⟩

/-- Numbers fit in the two bytes of the header. -/
theorem Sound.conid_lt (h : Sound o) (hcon : con ∈ o.connections) : con.conid < 65536 :=
  Nat.lt_of_lt_of_le (h.table.conid_lt con hcon) h.le

/-- A connection is used, and what passed is recorded. -/
theorem Sound.moved (h : Sound o) (hcon : con ∈ o.connections) :
    Sound ((o.used con.conaddr).moveToEnd con) :=
  ⟨h.pos, h.le, h.count.trans (h.table.length_moved hcon).symm, h.next_lt, h.table.moved hcon⟩

/-- All connections after the move were there before. -/
theorem mem_moveToEnd {c : UdpGwConnection} (hc : c ∈ (o.moveToEnd con).connections) : c ∈ o.connections ∨ c = con := by
  rcases List.mem_append.mp hc with hc | hc
  · exact .inl (List.mem_of_mem_filter hc)
  · exact .inr (List.mem_singleton.mp hc)

theorem Passing.passed (h : Passing full o) (hidle : o.Idle) : Passed full o.submitted o.sent := by
  cases h with
  | idle _ hpassed => exact hpassed
  | first m before rest con _ hconnections _ hjob =>
    have hnone := hidle con (by rw [hconnections]; exact List.mem_append_right _ List.mem_cons_self)
    rw [hjob] at hnone
    cases hnone

/-- One more packet is submitted, and all connections are old ones or its own. -/
theorem Delivered.submit (h : Delivered o) (hsubmitted : o'.submitted = o.submitted ++ [m])
    (harrived : o'.arrived = o.arrived) (hreceived : o'.received = o.received)
    (hflows : ∀ c ∈ o'.connections, c ∈ o.connections ∨ c.conaddr = m.1) : Delivered o' := by
  refine ⟨?_, fun r hr => ?_, fun c hc => ?_⟩
  · rw [harrived, hreceived]
    exact h.arrived
  · rw [hreceived] at hr
    obtain ⟨n, hn, hflow⟩ := h.asked r hr
    rw [hsubmitted]
    exact ⟨n, List.mem_append_left _ hn, hflow⟩
  · rw [hsubmitted]
    rcases hflows c hc with hold | hown
    · obtain ⟨n, hn, hflow⟩ := h.flows c hold
      exact ⟨n, List.mem_append_left _ hn, hflow⟩
    · exact ⟨m, List.mem_append_right _ List.mem_cons_self, hown.symm⟩

/-- A packet of a flow that has a connection. -/
theorem submitPacket_old (hlen : data.length ≤ o.udpMtu) (hfind : o.findConnectionByConaddr conaddr = some con) (fuel : Nat) :
    o.submitPacket fuel conaddr isDns data room =
      some (((o.submitting conaddr isDns data).moveToEnd con).sends con (dnsFlags isDns) data room) := by
  have hfind : (o.submitting conaddr isDns data).findConnectionByConaddr conaddr = some con := hfind
  unfold submitPacket
  rw [if_neg (Nat.not_lt.mpr hlen)]
  simp only [hfind]
  exact connectionSend_eq (by exact hlen) _

/-- A datagram of a known address goes out on its connection, which becomes the most recent. -/
theorem Correct.submit_old (h : Correct full o) (hidle : o.Idle) (hroom : full ∨ room) (hcon : con ∈ o.connections) :
    Correct full (((o.submitting con.conaddr isDns data).moveToEnd con).sends con (dnsFlags isDns) data room) := by
  have hmoved := h.sound.moved hcon
  refine ⟨⟨hmoved.pos, hmoved.le, hmoved.count, hmoved.next_lt, hmoved.table⟩, .idle ?_ ?_, ?_⟩
  · intro c hc
    rcases mem_moveToEnd hc with hold | rfl
    · exact hidle c hold
    · exact hidle c hcon
  · exact (h.passing.passed hidle).connectionSend con data .plain (h.sound.conid_lt hcon) hroom
  · refine h.delivered.submit rfl rfl rfl fun c hc => ?_
    rcases mem_moveToEnd hc with hold | rfl
    · exact .inl hold
    · exact .inl hcon

/-- The first connection was given to the flow. -/
def reusing (o : UdpGwClient) (conaddr : Conaddr) (isDns : Bool) (data : List UInt8) (con : UdpGwConnection)
    (rest : List UdpGwConnection) : UdpGwClient :=
  { o.submitting conaddr isDns data with connections := rest ++ [{ con with conaddr := conaddr }] }

/-- A packet of a flow that gets the connection used least recently. -/
theorem submitPacket_reuse {rest : List UdpGwConnection} (h : Sound o) (hlen : data.length ≤ o.udpMtu)
    (hnew : o.findConnectionByConaddr conaddr = none) (hmax : o.numConnections = o.maxConnections)
    (hq : o.connections = con :: rest) (fuel : Nat) :
    o.submitPacket fuel conaddr isDns data room =
      some ((o.reusing conaddr isDns data con rest).sends { con with conaddr := conaddr }
        (dnsFlags isDns ||| udpgwClientFlagRebind) data room) := by
  have hnew : (o.submitting conaddr isDns data).findConnectionByConaddr conaddr = none := hnew
  have hconnections : (o.submitting conaddr isDns data).connections = con :: rest := hq
  have hpos := h.pos
  -- the first connection is the only one with its number
  have hrest : ({ con with conaddr := conaddr } :: rest).filter (fun c => c.conid ≠ con.conid) = rest := by
    have hconids := h.table.conids
    rw [hq] at hconids
    have hout := (List.nodup_cons.mp hconids).1
    rw [List.filter_cons_of_neg (by simp)]
    refine List.filter_eq_self.mpr fun c hc => ?_
    have hne : c.conid ≠ con.conid := fun he => hout (he ▸ List.mem_map_of_mem hc)
    simpa using hne
  have hmoved : { o.submitting conaddr isDns data with connections := { con with conaddr := conaddr } :: rest }.moveToEnd
      { con with conaddr := conaddr } = o.reusing conaddr isDns data con rest := by
    unfold moveToEnd reusing
    rw [hrest]
  have hreuse : (o.submitting conaddr isDns data).reuseConnection conaddr = some ({ con with conaddr := conaddr },
      { o.submitting conaddr isDns data with connections := { con with conaddr := conaddr } :: rest }) := by
    unfold reuseConnection
    rw [if_neg, hconnections]
    rintro (hsome | hzero)
    · rw [hnew] at hsome
      cases hsome
    · exact absurd (hmax.symm.trans hzero) (Nat.ne_of_gt hpos)
  unfold submitPacket
  rw [if_neg (Nat.not_lt.mpr hlen)]
  simp only [hnew]
  rw [if_pos (by exact hmax), hreuse, Option.bind_some, hmoved]
  exact connectionSend_eq (by exact hlen) _

theorem notMem_of_find (hnew : o.findConnectionByConaddr conaddr = none) :
    conaddr ∉ o.connections.map UdpGwConnection.conaddr := fun hmem => by
  have hsome := findConnectionByConaddr_isSome.mpr hmem
  rw [hnew] at hsome
  cases hsome

/-- When the table is full the least recent connection gets the new address under its old number, and the server
is told to rebind. -/
theorem Correct.submit_reuse {rest : List UdpGwConnection} (h : Correct full o) (hidle : o.Idle) (hroom : full ∨ room)
    (hnew : o.findConnectionByConaddr conaddr = none) (hmax : o.numConnections = o.maxConnections)
    (hq : o.connections = con :: rest) :
    Correct full ((o.reusing conaddr isDns data con rest).sends { con with conaddr := conaddr }
      (dnsFlags isDns ||| udpgwClientFlagRebind) data room) := by
  have htable := h.sound.table
  have hcount := h.sound.count
  have hflow := notMem_of_find hnew
  rw [hq] at htable hcount hflow
  have hcon : con ∈ o.connections := hq ▸ List.mem_cons_self
  have hlength : (con :: rest).length = (rest ++ [{ con with conaddr := conaddr }]).length := by
    rw [List.length_append]
    rfl
  refine ⟨⟨h.sound.pos, h.sound.le, hcount.trans hlength, h.sound.next_lt, ?_⟩, .idle ?_ ?_, ?_⟩
  · exact htable.replaced (hcount.symm.trans hmax) hflow
  · intro c hc
    rcases List.mem_append.mp hc with hold | hown
    · exact hidle c (hq ▸ List.mem_cons_of_mem con hold)
    · rw [List.mem_singleton.mp hown]
      exact hidle con hcon
  · have hconid : con.conid < 65536 := h.sound.conid_lt hcon
    exact (h.passing.passed hidle).connectionSend { con with conaddr := conaddr } data .rebind hconid hroom
  · refine h.delivered.submit rfl rfl rfl fun c hc => ?_
    rcases List.mem_append.mp hc with hold | hown
    · exact .inl (hq ▸ List.mem_cons_of_mem con hold)
    · exact .inr (by rw [List.mem_singleton.mp hown])

/-- The flow has a new connection, with its first packet waiting. -/
def joining (o : UdpGwClient) (conaddr : Conaddr) (isDns : Bool) (data : List UInt8) (conid : Nat) : UdpGwClient :=
  { o.submitting conaddr isDns data with
    connections := o.connections ++ [⟨conaddr, conid, some (dnsFlags isDns, data)⟩],
    numConnections := o.numConnections + 1, nextConid := conid }

/-- A packet of a flow that gets a connection of its own. -/
theorem submitPacket_new (h : Sound o) (hlen : data.length ≤ o.udpMtu) (hnew : o.findConnectionByConaddr conaddr = none)
    (hmax : o.numConnections ≠ o.maxConnections) :
    ∃ conid, o.submitPacket (o.maxConnections + 1) conaddr isDns data room = some (o.joining conaddr isDns data conid) ∧
      conid < o.maxConnections ∧ conid ∉ o.connections.map UdpGwConnection.conid := by
  have hroom : o.connections.length < o.maxConnections := by
    have hle := h.table.length_le
    have hcount := h.count
    omega
  have hnew : (o.submitting conaddr isDns data).findConnectionByConaddr conaddr = none := hnew
  have hcount : (o.submitting conaddr isDns data).numConnections = o.connections.length := h.count
  have hnext : (o.submitting conaddr isDns data).nextConid < o.maxConnections := h.next_lt
  obtain ⟨conid, hconid, hlt, hfree⟩ := findUnusedConid_eq (by exact hnext) (by exact hcount) (by exact hroom)
  have hconid : findUnusedConid (o.maxConnections + 1) (o.submitting conaddr isDns data) =
    some (conid, { o.submitting conaddr isDns data with nextConid := conid }) := hconid
  have hinit : (o.submitting conaddr isDns data).connectionInit (o.maxConnections + 1) conaddr (dnsFlags isDns) data =
      some (o.joining conaddr isDns data conid) := by
    unfold connectionInit
    rw [if_neg, hconid, Option.bind_some]
    · dsimp only
      rw [if_neg]
      · rfl
      · exact fun hsome => hfree (findConnectionByConid_isSome.mp hsome)
    · rintro (hle | hsome | hlong)
      · have hle : o.maxConnections ≤ o.numConnections := hle
        exact absurd h.count (by omega)
      · rw [hnew] at hsome
        cases hsome
      · exact absurd hlen (Nat.not_le.mpr hlong)
  refine ⟨conid, ?_, hlt, hfree⟩
  unfold submitPacket
  rw [if_neg (Nat.not_lt.mpr hlen)]
  simp only [hnew]
  rw [if_neg (by exact hmax)]
  exact hinit

/-- While the table has room a new flow gets a free number. -/
theorem Correct.submit_new {conid : Nat} (h : Correct full o) (hidle : o.Idle) (hlen : data.length ≤ o.udpMtu)
    (hnew : o.findConnectionByConaddr conaddr = none) (hmax : o.numConnections ≠ o.maxConnections)
    (hlt : conid < o.maxConnections) (hfree : conid ∉ o.connections.map UdpGwConnection.conid) :
    Correct full (o.joining conaddr isDns data conid) := by
  have hroom : o.connections.length < o.maxConnections := by
    have hle := h.sound.table.length_le
    have hcount := h.sound.count
    omega
  have hlength : o.numConnections + 1 =
      (o.connections ++ [(⟨conaddr, conid, some (dnsFlags isDns, data)⟩ : UdpGwConnection)]).length := by
    rw [List.length_append, h.sound.count]
    rfl
  refine ⟨⟨h.sound.pos, h.sound.le, hlength, hlt, ?_⟩, ?_, ?_⟩
  · exact h.sound.table.joined hroom (notMem_of_find hnew) hfree hlt
  · exact .first (conaddr, isDns, data) o.submitted o.connections ⟨conaddr, conid, some (dnsFlags isDns, data)⟩
      rfl rfl hidle rfl rfl hlen (h.passing.passed hidle)
  · refine h.delivered.submit rfl rfl rfl fun c hc => ?_
    rcases List.mem_append.mp hc with hold | hown
    · exact .inl hold
    · exact .inr (by rw [List.mem_singleton.mp hown])

/-- The job of the connection with a number is done. -/
def jobDone (conid : Nat) (c : UdpGwConnection) : UdpGwConnection := if c.conid = conid then { c with firstJob := none } else c

theorem jobDone_fields (conid : Nat) (c : UdpGwConnection) :
    (jobDone conid c).conid = c.conid ∧ (jobDone conid c).conaddr = c.conaddr := by
  unfold jobDone
  split
  · exact ⟨rfl, rfl⟩
  · exact ⟨rfl, rfl⟩

/-- A finished job changes no number and no address. -/
theorem Table.jobDone {max : Nat} {connections : List UdpGwConnection} {uses : List Conaddr}
    (h : Table max connections uses) (conid : Nat) : Table max (connections.map (jobDone conid)) uses := by
  refine ⟨?_, ?_, ?_⟩
  · rw [List.map_map,
      show UdpGwConnection.conid ∘ UdpGwClient.jobDone conid = _ from funext fun c => (jobDone_fields conid c).1]
    exact h.conids
  · intro c hc
    obtain ⟨d, hd, rfl⟩ := List.mem_map.mp hc
    rw [(jobDone_fields conid d).1]
    exact h.conid_lt d hd
  · rw [List.map_map,
      show UdpGwConnection.conaddr ∘ UdpGwClient.jobDone conid = _ from funext fun c => (jobDone_fields conid c).2]
    exact h.recent

/-- The number finds its connection. -/
theorem Sound.find_conid (h : Sound o) (hcon : con ∈ o.connections) : o.findConnectionByConid con.conid = some con := by
  obtain ⟨c, hc⟩ := Option.isSome_iff_exists.mp (findConnectionByConid_isSome.mpr (List.mem_map_of_mem hcon))
  obtain ⟨hmem, hconid⟩ := UdpGwClient.find_conid hc
  rw [hc, List.inj_on_of_nodup_map h.table.conids hmem hcon hconid]

/-- What a call submits. -/
def Call.submission : Call → Option (Conaddr × Bool × List UInt8)
  | .submit conaddr isDns data _ => some (conaddr, isDns, data)
  | _ => none

/-- What a call that submits this leaves as it is, and what it adds to what was received. -/
structure Passes (o : UdpGwClient) (submission : Option (Conaddr × Bool × List UInt8)) (o' : UdpGwClient) : Prop where
  mtu : o'.udpMtu = o.udpMtu
  submitted : o'.submitted = o.submitted ++ submission.toList
  received : o'.received = o.received ∨ ∃ r, o'.received = o.received ++ [r]

theorem Passes.refl (o : UdpGwClient) : Passes o none o := ⟨rfl, (List.append_nil _).symm, .inl rfl⟩

/-- A packet of the server submits nothing. -/
theorem recvInterfaceHandlerSend_passes (o : UdpGwClient) (packet : List UInt8) :
    Passes o none (o.recvInterfaceHandlerSend packet) := by
  unfold recvInterfaceHandlerSend
  dsimp only
  split
  · exact ⟨rfl, (List.append_nil _).symm, .inl rfl⟩
  · split
    · exact ⟨rfl, (List.append_nil _).symm, .inl rfl⟩
    · split
      · exact ⟨rfl, (List.append_nil _).symm, .inl rfl⟩
      · split
        · exact ⟨rfl, (List.append_nil _).symm, .inl rfl⟩
        · exact ⟨rfl, (List.append_nil _).symm, .inr ⟨_, rfl⟩⟩

/-- The first packet of a connection is sent. -/
theorem Correct.firstJob {conid : Nat} (h : Correct full o) (hc : o.Calls (.firstJob conid room)) (hroom : full ∨ room) :
    ∃ o', o.connectionFirstJob conid room = some o' ∧ Correct full o' ∧ Passes o none o' := by
  obtain ⟨con, hcon, rfl, hpending⟩ := hc
  cases h.passing with
  | idle hidle _ => exact absurd (hidle con hcon) hpending
  | first m before rest last hsubmitted hconnections hrest hjob hconaddr hlen hpassed =>
    obtain rfl : con = last := by
      rw [hconnections] at hcon
      rcases List.mem_append.mp hcon with hold | hown
      · exact absurd (hrest con hold) hpending
      · exact List.mem_singleton.mp hown
    refine ⟨({ o with connections := o.connections.map (jobDone con.conid) }).sends con
      (udpgwClientFlagRebind ||| dnsFlags m.2.1) m.2.2 room, ?_, ⟨⟨h.sound.pos, h.sound.le, ?_, h.sound.next_lt, ?_⟩, ?_, ?_⟩,
      rfl, (List.append_nil _).symm, .inl rfl⟩
    · unfold connectionFirstJob
      rw [h.sound.find_conid hcon, Option.bind_some, hjob, Option.bind_some]
      exact connectionSend_eq (by exact hlen) _
    · exact h.sound.count.trans (List.length_map _).symm
    · exact h.sound.table.jobDone con.conid
    · refine .idle (fun c hc => ?_) ?_
      · obtain ⟨d, hd, rfl⟩ := List.mem_map.mp hc
        unfold jobDone
        split
        · rfl
        · rename_i hother
          rw [hconnections] at hd
          rcases List.mem_append.mp hd with hold | hown
          · exact hrest d hold
          · exact absurd (congrArg UdpGwConnection.conid (List.mem_singleton.mp hown)) hother
      · have hm : (con.conaddr, m.2.1, m.2.2) = m := by rw [hconaddr]
        have hsent := hpassed.connectionSend con m.2.2 (.first : FlagsOf m.2.1 _) (h.sound.conid_lt hcon) hroom
        rw [hm, ← hsubmitted] at hsent
        exact hsent
    · refine ⟨h.delivered.arrived, h.delivered.asked, fun c hc => ?_⟩
      obtain ⟨d, hd, rfl⟩ := List.mem_map.mp hc
      rw [(jobDone_fields _ d).2]
      exact h.delivered.flows d hd

/-- A packet of the server that is not for the user. -/
theorem Correct.ignored (h : Correct full o) : Correct full { o with arrived := o.arrived ++ [packet] } := by
  refine ⟨⟨h.sound.pos, h.sound.le, h.sound.count, h.sound.next_lt, h.sound.table⟩, ?_, ?_⟩
  · cases h.passing with
    | idle hidle hpassed => exact .idle hidle hpassed
    | first m before rest con hsubmitted hconnections hrest hjob hconaddr hlen hpassed =>
      exact .first m before rest con hsubmitted hconnections hrest hjob hconaddr hlen hpassed
  · obtain ⟨kept, hsub, hkept⟩ := h.delivered.arrived
    exact ⟨⟨kept, hsub.trans (List.sublist_append_left _ _), hkept⟩, h.delivered.asked, h.delivered.flows⟩

/-- A packet of the server is handed over under the address its number stands for, or dropped. -/
theorem Correct.receive (h : Correct full o) (hidle : o.Idle) : Correct full (o.recvInterfaceHandlerSend packet) := by
  unfold recvInterfaceHandlerSend
  split
  · exact h.ignored
  · rename_i d hparse
    dsimp only
    split
    · exact h.ignored
    · split
      · exact h.ignored
      · rename_i con hfind
        split
        · exact h.ignored
        · rename_i hsame
          have hsame : con.conaddr.remoteAddr = d.remoteAddr := not_not.mp hsame
          have hcon : con ∈ o.connections := (find_conid hfind).1
          have hmoved := h.sound.moved hcon
          have hkept : ∀ c, c ∈ (o.moveToEnd con).connections → c ∈ o.connections := by
            intro c hc
            rcases mem_moveToEnd hc with hold | rfl
            · exact hold
            · exact hcon
          refine ⟨⟨hmoved.pos, hmoved.le, hmoved.count, hmoved.next_lt, hmoved.table⟩, ?_, ?_⟩
          · exact .idle (fun c hc => hidle c (hkept c hc)) (h.passing.passed hidle)
          · refine ⟨?_, fun r hr => ?_, fun c hc => h.delivered.flows c (hkept c hc)⟩
            · obtain ⟨kept, hsub, hread⟩ := h.delivered.arrived
              have hsource : source packet = some (con.conaddr.remoteAddr, d.data) := by
                unfold source
                rw [hparse, hsame]
                rfl
              refine ⟨kept ++ [packet], hsub.append (List.Sublist.refl _), ?_⟩
              show (o.received ++ [_]).map _ = _
              rw [List.map_append, List.map_append, hread, List.map_singleton, List.map_singleton, hsource]
            · rcases List.mem_append.mp hr with hold | hown
              · exact h.delivered.asked r hold
              · rw [List.mem_singleton.mp hown]
                exact h.delivered.flows con hcon

/-! ## Whole runs -/

/-- The buffer of the connection has room. -/
def Roomy : Call → Prop
  | .submit _ _ _ room => room
  | .firstJob _ room => room
  | .receive _ => True

instance : (a : Call) → Decidable (Roomy a)
  | .submit _ _ _ room => inferInstanceAs (Decidable (room = true))
  | .firstJob _ room => inferInstanceAs (Decidable (room = true))
  | .receive _ => inferInstanceAs (Decidable True)

/-- The empty client is correct. -/
theorem init_correct (full : Prop) (udpMtu : Nat) {maxConnections : Nat} (hpos : 0 < maxConnections) :
    Correct full (init udpMtu maxConnections) := by
  have hmax : 0 < min maxConnections 65536 := Nat.lt_min.mpr ⟨hpos, by decide⟩
  refine ⟨⟨hmax, Nat.min_le_right _ _, rfl, hmax, Table.nil _⟩, .idle ?_ ?_, ?_⟩
  · exact fun _ hc => absurd hc List.not_mem_nil
  · exact ⟨[], List.Sublist.refl _, .inr rfl, rfl⟩
  · exact ⟨⟨[], List.Sublist.refl _, rfl⟩, fun _ hr => absurd hr List.not_mem_nil, fun _ hc => absurd hc List.not_mem_nil⟩

/-- Every call the environment may make succeeds and keeps the client correct. -/
theorem Correct.handle (h : Correct full o) {a : Call} (hc : o.Calls a) (hroom : full ∨ Roomy a) :
    ∃ o', o.handle a = some o' ∧ Correct full o' ∧ Passes o a.submission o' := by
  cases a with
  | submit conaddr isDns data room =>
    obtain ⟨hidle, hlen⟩ := hc
    show ∃ o', o.submitPacket (o.maxConnections + 1) conaddr isDns data room = some o' ∧ Correct full o' ∧ _
    cases hfind : o.findConnectionByConaddr conaddr with
    | some con =>
      obtain ⟨hcon, rfl⟩ := find_conaddr hfind
      exact ⟨_, submitPacket_old hlen hfind _, h.submit_old hidle hroom hcon, rfl, rfl, .inl rfl⟩
    | none =>
      by_cases hmax : o.numConnections = o.maxConnections
      · have hpos := h.sound.pos
        have hcount := h.sound.count
        obtain ⟨con, rest, hq⟩ := List.exists_cons_of_length_pos (show 0 < o.connections.length by omega)
        exact ⟨_, submitPacket_reuse h.sound hlen hfind hmax hq _, h.submit_reuse hidle hroom hfind hmax hq, rfl, rfl,
          .inl rfl⟩
      · obtain ⟨conid, hnew, hlt, hfree⟩ := submitPacket_new h.sound hlen hfind hmax
        exact ⟨_, hnew, h.submit_new hidle hlen hfind hmax hlt hfree, rfl, rfl, .inl rfl⟩
  | firstJob conid room => exact h.firstJob hc hroom
  | receive packet => exact ⟨_, rfl, h.receive hc, recvInterfaceHandlerSend_passes o packet⟩

/-- The invariant of every run; where all packets find room none is dropped. -/
theorem reaches_correct {udpMtu maxConnections : Nat} (hpos : 0 < maxConnections)
    (h : Reaches (system udpMtu maxConnections) (fun _ a => full ∨ Roomy a) o) : Correct full o := by
  refine h.invariant (fun o ho => ?_) fun o a o' ho hroom hstep => ?_
  · obtain rfl : o = init udpMtu maxConnections := ho
    exact init_correct full udpMtu hpos
  · have hstep : (if o.Calls a then o.handle a else none) = some o' := hstep
    split at hstep
    · rename_i hc
      obtain ⟨r, hr, hcorrect, _⟩ := ho.handle hc hroom
      obtain rfl := Option.some.inj (hr.symm.trans hstep)
      exact hcorrect
    · cases hstep

/-- The invariant of every run, with packets that find no room. -/
theorem reachable_correct {udpMtu maxConnections : Nat} (hpos : 0 < maxConnections)
    (h : Reachable (system udpMtu maxConnections) o) : Correct True o :=
  reaches_correct hpos (h.mono fun _ _ _ => .inl trivial)

/-- The MTU is the one that was set up. -/
def CorrectAt (udpMtu : Nat) (o : UdpGwClient) : Prop := Correct True o ∧ o.udpMtu = udpMtu

/-- The MTU never changes. -/
theorem reachable_mtu {udpMtu maxConnections : Nat} (hpos : 0 < maxConnections)
    (h : Reachable (system udpMtu maxConnections) o) : o.udpMtu = udpMtu := by
  have hboth : CorrectAt udpMtu o := by
    refine h.invariant (fun o ho => ?_) fun o a o' ho _ hstep => ?_
    · obtain rfl : o = init udpMtu maxConnections := ho
      exact ⟨init_correct True udpMtu hpos, rfl⟩
    · have hstep : (if o.Calls a then o.handle a else none) = some o' := hstep
      split at hstep
      · rename_i hc
        obtain ⟨r, hr, hcorrect, hpasses⟩ := ho.1.handle hc (.inl trivial)
        obtain rfl := Option.some.inj (hr.symm.trans hstep)
        exact ⟨hcorrect, hpasses.mtu.trans ho.2⟩
      · cases hstep
  exact hboth.2

def firstFlow : Conaddr := ⟨.ipv4 ⟨[10, 0, 0, 1], rfl⟩ ⟨[4, 0], rfl⟩, .ipv4 ⟨[8, 8, 8, 8], rfl⟩ ⟨[0, 53], rfl⟩⟩

def secondFlow : Conaddr := ⟨.ipv4 ⟨[10, 0, 0, 1], rfl⟩ ⟨[4, 1], rfl⟩, .ipv4 ⟨[9, 9, 9, 9], rfl⟩ ⟨[0, 80], rfl⟩⟩

/-- Two flows and one connection; the reply to the first flow comes in before the second takes its connection. -/
def twoFlows : List Call :=
  [.submit firstFlow true [1, 2] true, .firstJob 0 true, .receive [0, 0, 0, 8, 8, 8, 8, 0, 53, 7],
    .submit secondFlow false [3] true]

/-- The state after a run of calls with room for all packets. -/
def ranTo (as : List Call) : UdpGwClient :=
  (execWhere (system 16 1) (fun _ a => False ∨ Roomy a) (init 16 1) as).getD (init 16 1)

theorem ranTo_reaches (as : List Call) : Reaches (system 16 1) (fun _ a => False ∨ Roomy a) (ranTo as) := by
  unfold ranTo
  cases hrun : execWhere (system 16 1) (fun _ a => False ∨ Roomy a) (init 16 1) as with
  | none => exact .start rfl
  | some o => exact execWhere_reaches as (.start rfl) hrun

/-- **The connections are the flows used last**, the least recent in front, and no two share a number; no
call fails, so the search for a number that is not taken ends. -/
theorem connections_recent {udpMtu maxConnections : Nat} (hpos : 0 < maxConnections)
    (h : Reachable (system udpMtu maxConnections) o) :
    (∀ a, o.Calls a → ∃ o', o.handle a = some o') ∧
      (o.connections.map UdpGwConnection.conid).Nodup ∧ (∀ con ∈ o.connections, con.conid < 65536) ∧
        o.connections.map UdpGwConnection.conaddr = ((mostRecent o.uses).take o.maxConnections).reverse := by
  have hcorrect := reachable_correct hpos h
  refine ⟨fun a hc => ?_, hcorrect.sound.table.conids, fun con hcon => hcorrect.sound.conid_lt hcon,
    hcorrect.sound.table.recent⟩
  obtain ⟨o', ho', _⟩ := hcorrect.handle hc (.inl trivial)
  exact ⟨o', ho'⟩

theorem connections_recent_twoFlows :
    (∀ a, (ranTo twoFlows).Calls a → ∃ o', (ranTo twoFlows).handle a = some o') ∧
      ((ranTo twoFlows).connections.map UdpGwConnection.conid).Nodup ∧
        (∀ con ∈ (ranTo twoFlows).connections, con.conid < 65536) ∧
          (ranTo twoFlows).connections.map UdpGwConnection.conaddr =
            ((mostRecent (ranTo twoFlows).uses).take (ranTo twoFlows).maxConnections).reverse :=
  connections_recent (by decide) (ranTo_reaches twoFlows).reachable

/-- **The user gets what came in**: packets that arrived, in order, from the address that they came from, each
for a flow with that remote address that was submitted. -/
theorem received_for_submitted {udpMtu maxConnections : Nat} (hpos : 0 < maxConnections)
    (h : Reachable (system udpMtu maxConnections) o) :
    (∃ kept : List (List UInt8), kept.Sublist o.arrived ∧ o.received.map (fun r => some r.2) = kept.map source) ∧
      ∀ r ∈ o.received, ∃ m ∈ o.submitted, m.1 = ⟨r.1, r.2.1⟩ :=
  ⟨(reachable_correct hpos h).delivered.arrived, (reachable_correct hpos h).delivered.asked⟩

theorem received_for_submitted_twoFlows :
    (∃ kept : List (List UInt8), kept.Sublist (ranTo twoFlows).arrived ∧
      (ranTo twoFlows).received.map (fun r => some r.2) = kept.map source) ∧
      ∀ r ∈ (ranTo twoFlows).received, ∃ m ∈ (ranTo twoFlows).submitted, m.1 = ⟨r.1, r.2.1⟩ :=
  received_for_submitted (by decide) (ranTo_reaches twoFlows).reachable

end KiloProxy.Engine.UdpGwClient
