import KiloProxy.Engine.UdpGwClient
import Mathlib.Data.List.Nodup
import Mathlib.Data.Nat.ModEq

/-!
# The format and the table of the UDP gateway client

A packet is read back as it was written. In the table of the connections no number and no
flow occurs twice, and the list is the flows used last; the search for a number that is
not taken ends, because fewer are taken than there are.
-/

namespace KiloProxy.Engine
set_option autoImplicit false
open KiloProxy.Run KiloProxy.Store KiloProxy.Net

/-! ## The format -/

/-- The address behind the header is of the kind that the flags say. -/
theorem parseAddr_eq_some {flags : UInt8} {addr : BAddr} {s rest : List UInt8} :
    parseAddr flags s = some (addr, rest) ↔
      s = addr.bytes ++ rest ∧ (flags &&& udpgwClientFlagIpv6 ≠ 0 ↔ addr.isIpv6) := by
  unfold parseAddr
  cases addr with
  | ipv4 ip port =>
    simp only [BAddr.bytes, BAddr.isIpv6, Bool.false_eq_true, iff_false, not_not, List.append_assoc]
    split
    · rename_i hsix
      constructor
      · intro h
        obtain ⟨_, _, h⟩ := Option.bind_eq_some_iff.mp h
        obtain ⟨_, _, h⟩ := Option.map_eq_some_iff.mp h
        cases h
      · rintro ⟨_, hfour⟩
        exact absurd hfour hsix
    · rename_i hfour
      simp only [Option.bind_eq_some_iff, Option.map_eq_some_iff, Prod.exists, Prod.mk.injEq, BAddr.ipv4.injEq,
        takeVector_eq_some]
      constructor
      · rintro ⟨_, _, rfl, _, _, rfl, ⟨rfl, rfl⟩, rfl⟩
        exact ⟨rfl, not_not.mp hfour⟩
      · rintro ⟨rfl, _⟩
        exact ⟨_, _, rfl, _, _, rfl, ⟨rfl, rfl⟩, rfl⟩
  | ipv6 ip port =>
    simp only [BAddr.bytes, BAddr.isIpv6, iff_true, List.append_assoc]
    split
    · rename_i hsix
      simp only [Option.bind_eq_some_iff, Option.map_eq_some_iff, Prod.exists, Prod.mk.injEq, BAddr.ipv6.injEq,
        takeVector_eq_some]
      constructor
      · rintro ⟨_, _, rfl, _, _, rfl, ⟨rfl, rfl⟩, rfl⟩
        exact ⟨rfl, hsix⟩
      · rintro ⟨rfl, _⟩
        exact ⟨_, _, rfl, _, _, rfl, ⟨rfl, rfl⟩, rfl⟩
    · rename_i hfour
      constructor
      · intro h
        obtain ⟨_, _, h⟩ := Option.bind_eq_some_iff.mp h
        obtain ⟨_, _, h⟩ := Option.map_eq_some_iff.mp h
        cases h
      · rintro ⟨_, hsix⟩
        exact absurd hsix hfour

/-- The flags of a packet to a server: the kind of the address is said by the address. -/
def flagsFor (flags : UInt8) (addr : BAddr) : UInt8 := if addr.isIpv6 then flags ||| udpgwClientFlagIpv6 else flags

/-- A flag of a combination is a flag of one of its parts. -/
theorem or_and_flag (a b c : UInt8) : (a ||| b) &&& c = (a &&& c) ||| (b &&& c) :=
  UInt8.toBitVec_inj.mp BitVec.and_or_distrib_right

/-- The IPv6 flag says which kind the address is. -/
theorem flagsFor_ipv6 {flags : UInt8} (hflags : flags &&& udpgwClientFlagIpv6 = 0) (addr : BAddr) :
    flagsFor flags addr &&& udpgwClientFlagIpv6 ≠ 0 ↔ addr.isIpv6 := by
  unfold flagsFor
  cases haddr : addr.isIpv6 with
  | false => simpa using hflags
  | true =>
    have hboth : (flags ||| udpgwClientFlagIpv6) &&& udpgwClientFlagIpv6 = udpgwClientFlagIpv6 := by
      rw [or_and_flag, hflags]
      rfl
    simp only [if_true, hboth, iff_true]
    decide

/-- The address does not touch the DNS flag. -/
theorem flagsFor_dns (flags : UInt8) (addr : BAddr) :
    flagsFor flags addr &&& udpgwClientFlagDns = flags &&& udpgwClientFlagDns := by
  unfold flagsFor
  split
  · rw [or_and_flag]
    exact UInt8.or_zero
  · rfl

/-- What is read from a packet in the right form: its parts, and the kind of the address is flagged. -/
theorem parseDatagram_eq_some {s : List UInt8} {d : Datagram} :
    parseDatagram s = some d ↔
      s = d.flags :: htol16 d.conid ++ (d.remoteAddr.bytes ++ d.data) ∧ d.conid < 65536 ∧
        (d.flags &&& udpgwClientFlagIpv6 ≠ 0 ↔ d.remoteAddr.isIpv6) := by
  constructor
  · intro h
    match s with
    | [] => cases h
    | [_] => cases h
    | [_, _] => cases h
    | flags :: a :: b :: s =>
      obtain ⟨⟨addr, data⟩, haddr, rfl⟩ := Option.map_eq_some_iff.mp h
      obtain ⟨rfl, hkind⟩ := parseAddr_eq_some.mp haddr
      refine ⟨?_, ?_, hkind⟩
      · show flags :: a :: b :: (addr.bytes ++ data) = flags :: htol16 (ltoh16 a b) ++ (addr.bytes ++ data)
        rw [htol16_ltoh16]
        rfl
      · have ha := a.toNat_lt
        have hb := b.toNat_lt
        show a.toNat + 256 * b.toNat < 65536
        omega
  · rintro ⟨rfl, hconid, hkind⟩
    have haddr : parseAddr d.flags (d.remoteAddr.bytes ++ d.data) = some (d.remoteAddr, d.data) :=
      parseAddr_eq_some.mpr ⟨rfl, hkind⟩
    have hback : ltoh16 (UInt8.ofNat d.conid) (UInt8.ofNat (d.conid / 256)) = d.conid :=
      ltoh16_htol16 (Nat.le_of_lt_succ hconid)
    show (parseAddr d.flags (d.remoteAddr.bytes ++ d.data)).map _ = some d
    rw [haddr, Option.map_some, hback]

/-- A packet is read back as it was written. -/
theorem parseDatagram_udpgwPacket {flags : UInt8} (hflags : flags &&& udpgwClientFlagIpv6 = 0) {conid : Nat}
    (hconid : conid < 65536) (addr : BAddr) (data : List UInt8) :
    parseDatagram (udpgwPacket flags conid addr data) = some ⟨flagsFor flags addr, conid, addr, data⟩ :=
  parseDatagram_eq_some.mpr ⟨rfl, hconid, flagsFor_ipv6 hflags addr⟩

namespace UdpGwClient

/-! ## The table -/

/-- Numbers and flows are different, and the list is the `max` flows used last. -/
structure Table (max : Nat) (connections : List UdpGwConnection) (uses : List Conaddr) : Prop where
  conids : (connections.map UdpGwConnection.conid).Nodup
  conid_lt : ∀ con ∈ connections, con.conid < max
  recent : RecentQueue max uses (connections.map UdpGwConnection.conaddr)

variable {max : Nat} {connections rest : List UdpGwConnection} {uses : List Conaddr} {con : UdpGwConnection}

theorem Table.nil (max : Nat) : Table max [] [] :=
  ⟨List.nodup_nil, fun _ h => absurd h List.not_mem_nil, RecentQueue.nil max⟩

/-- Distinct numbers below the maximum are at most as many. -/
theorem Table.length_le (h : Table max connections uses) : connections.length ≤ max := by
  have hle := h.recent.length_le
  rwa [List.length_map] at hle

/-- The connections with another number are those of another flow. -/
theorem Table.filter_map (h : Table max connections uses) (hcon : con ∈ connections) :
    (connections.filter fun c => c.conid ≠ con.conid).map UdpGwConnection.conaddr =
      (connections.map UdpGwConnection.conaddr).filter fun a => a ≠ con.conaddr := by
  rw [List.filter_map]
  refine congrArg _ (List.filter_congr fun c hc => ?_)
  have hsame : c.conid = con.conid ↔ c.conaddr = con.conaddr := by
    constructor
    · intro he
      rw [List.inj_on_of_nodup_map h.conids hc hcon he]
    · intro he
      rw [List.inj_on_of_nodup_map h.recent.nodup hc hcon he]
  simp [hsame]

/-- Moving a connection to the end keeps their number. -/
theorem Table.length_moved (h : Table max connections uses) (hcon : con ∈ connections) :
    (connections.filter (fun c => c.conid ≠ con.conid) ++ [con]).length = connections.length := by
  have hlength := RecentQueue.length_moved h.recent.nodup (List.mem_map_of_mem hcon)
  rw [← h.filter_map hcon, List.length_append, List.length_map, List.length_map] at hlength
  rw [List.length_append, ← hlength]
  rfl

/-- A connection is used. -/
theorem Table.moved (h : Table max connections uses) (hcon : con ∈ connections) :
    Table max (connections.filter (fun c => c.conid ≠ con.conid) ++ [con]) (uses ++ [con.conaddr]) := by
  refine ⟨?_, ?_, ?_⟩
  · rw [List.map_append]
    refine (List.nodup_append.mpr ⟨(h.conids.sublist (List.filter_sublist.map _)), List.nodup_singleton _, ?_⟩)
    intro a ha b hb hab
    obtain ⟨c, hc, rfl⟩ := List.mem_map.mp ha
    obtain rfl := List.mem_singleton.mp hb
    exact absurd hab (by simpa using (List.mem_filter.mp hc).2)
  · intro c hc
    rcases List.mem_append.mp hc with hc | hc
    · exact h.conid_lt c (List.mem_of_mem_filter hc)
    · rw [List.mem_singleton.mp hc]
      exact h.conid_lt con hcon
  · rw [List.map_append, h.filter_map hcon]
    exact h.recent.moved (List.mem_map_of_mem hcon)

/-- A new connection with a number that is not taken. -/
theorem Table.joined (h : Table max connections uses) (hroom : connections.length < max)
    (hflow : con.conaddr ∉ connections.map UdpGwConnection.conaddr)
    (hfree : con.conid ∉ connections.map UdpGwConnection.conid) (hlt : con.conid < max) :
    Table max (connections ++ [con]) (uses ++ [con.conaddr]) := by
  refine ⟨?_, ?_, ?_⟩
  · rw [List.map_append]
    exact h.conids.append (List.nodup_singleton _) (List.disjoint_singleton.mpr hfree)
  · intro c hc
    rcases List.mem_append.mp hc with hc | hc
    · exact h.conid_lt c hc
    · rw [List.mem_singleton.mp hc]
      exact hlt
  · rw [List.map_append]
    exact h.recent.joined hflow (by rw [List.length_map]; exact hroom)

/-- In a full table the first connection is given to a new flow. -/
theorem Table.replaced {conaddr : Conaddr} (h : Table max (con :: rest) uses) (hfull : (con :: rest).length = max)
    (hflow : conaddr ∉ (con :: rest).map UdpGwConnection.conaddr) :
    Table max (rest ++ [{ con with conaddr := conaddr }]) (uses ++ [conaddr]) := by
  obtain ⟨hout, hnodup⟩ := List.nodup_cons.mp h.conids
  refine ⟨?_, ?_, ?_⟩
  · rw [List.map_append]
    exact hnodup.append (List.nodup_singleton _) (List.disjoint_singleton.mpr hout)
  · intro c hc
    rcases List.mem_append.mp hc with hc | hc
    · exact h.conid_lt c (List.mem_cons_of_mem con hc)
    · rw [List.mem_singleton.mp hc]
      exact h.conid_lt con List.mem_cons_self
  · rw [List.map_append]
    exact h.recent.replaced hflow (by rw [List.length_cons, List.length_map]; exact hfull)

/-! ## The search for a number -/

/-- The numbers from `next` on, around; behind them come others, so that all are different. -/
def candidate (max next k : Nat) : Nat := if k < max then (next + k) % max else k

/-- The search for a number tries each one once. -/
theorem candidate_injective (max next : Nat) : Function.Injective (candidate max next) := by
  intro j k h
  unfold candidate at h
  split at h
  · rename_i hj
    have hmod := Nat.mod_lt (next + j) (Nat.zero_lt_of_lt hj)
    split at h
    · rename_i hk
      have hjk : j % max = k % max := Nat.ModEq.add_left_cancel' next h
      rwa [Nat.mod_eq_of_lt hj, Nat.mod_eq_of_lt hk] at hjk
    · omega
  · split at h
    · rename_i hk
      have hmod := Nat.mod_lt (next + k) (Nat.zero_lt_of_lt hk)
      omega
    · exact h

/-- What holds between calls, apart from what passed. -/
structure Sound (o : UdpGwClient) : Prop where
  pos : 0 < o.maxConnections
  le : o.maxConnections ≤ 65536
  count : o.numConnections = o.connections.length
  next_lt : o.nextConid < o.maxConnections
  table : Table o.maxConnections o.connections o.uses

variable {o : UdpGwClient}

theorem nextConnection_eq (hnext : o.nextConid < o.maxConnections) :
    o.nextConnection = { o with nextConid := (o.nextConid + 1) % o.maxConnections } := by
  unfold nextConnection
  split
  · rename_i hlast
    have hwrap : o.nextConid + 1 = o.maxConnections := by omega
    rw [hwrap, Nat.mod_self]
  · rw [Nat.mod_eq_of_lt (by omega)]

theorem findConnectionByConid_isSome {conid : Nat} :
    (o.findConnectionByConid conid).isSome ↔ conid ∈ o.connections.map UdpGwConnection.conid := by
  unfold findConnectionByConid
  simp [List.find?_isSome]

theorem findConnectionByConaddr_isSome {conaddr : Conaddr} :
    (o.findConnectionByConaddr conaddr).isSome ↔ conaddr ∈ o.connections.map UdpGwConnection.conaddr := by
  unfold findConnectionByConaddr
  simp [List.find?_isSome]

/-- **The search ends** at a number that is not taken: as long as there is room, one is free. -/
theorem findUnusedConid_eq (hnext : o.nextConid < o.maxConnections) (hcount : o.numConnections = o.connections.length)
    (hroom : o.connections.length < o.maxConnections) :
    ∃ conid, findUnusedConid (o.maxConnections + 1) o = some (conid, { o with nextConid := conid }) ∧
      conid < o.maxConnections ∧ conid ∉ o.connections.map UdpGwConnection.conid := by
  obtain ⟨k, hk, hfree⟩ := exists_firstFree (o.connections.map UdpGwConnection.conid)
    (candidate_injective o.maxConnections o.nextConid)
  rw [List.length_map] at hk
  have hcand : ∀ j, j ≤ k → candidate o.maxConnections o.nextConid j = (o.nextConid + j) % o.maxConnections :=
    fun j hj => if_pos (by omega)
  -- before turn `j` the next number is the `j`-th candidate
  have hturn : ∀ j s, j < k → s = { o with nextConid := (o.nextConid + j) % o.maxConnections } →
      ∃ t, conidTaken s = (true, t) ∧
        t.nextConnection = { o with nextConid := (o.nextConid + (j + 1)) % o.maxConnections } := by
    intro j s hj hs
    subst hs
    have htaken := hfree.earlier j hj
    rw [hcand j (Nat.le_of_lt hj)] at htaken
    refine ⟨_, Prod.ext (findConnectionByConid_isSome.mpr htaken) rfl, ?_⟩
    rw [nextConnection_eq (by exact Nat.mod_lt _ (by omega))]
    show { o with nextConid := ((o.nextConid + j) % o.maxConnections + 1) % o.maxConnections } = _
    rw [Nat.mod_add_mod, Nat.add_assoc]
  have hexit : ∀ s, s = { o with nextConid := (o.nextConid + k) % o.maxConnections } →
      ∃ t, conidTaken s = (false, t) ∧ t = { o with nextConid := (o.nextConid + k) % o.maxConnections } := by
    intro s hs
    subst hs
    have hout := hfree.free
    rw [hcand k (Nat.le_refl k)] at hout
    refine ⟨_, Prod.ext ?_ rfl, rfl⟩
    exact Bool.eq_false_iff.mpr fun hsome => hout (findConnectionByConid_isSome.mp hsome)
  have hstart : o = { o with nextConid := (o.nextConid + 0) % o.maxConnections } := by
    rw [Nat.add_zero, Nat.mod_eq_of_lt hnext]
  obtain ⟨t, hrun, ht⟩ := runWhile_exits hturn hexit (show k < o.maxConnections + 1 by omega) hstart
  subst ht
  refine ⟨(o.nextConid + k) % o.maxConnections, ?_, Nat.mod_lt _ (by omega), ?_⟩
  · unfold findUnusedConid
    rw [if_neg (by omega), hrun]
    rfl
  · rw [← hcand k (Nat.le_refl k)]
    exact hfree.free

end UdpGwClient
end KiloProxy.Engine
