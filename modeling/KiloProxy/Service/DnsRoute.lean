import KiloProxy.Service.Configure
import KiloProxy.Util.CarveCoverage

/-!
# The DNS server of the fast tunnel

On the hev path the Builder's DNS server must stay outside the tunnel. `addRoutes`
carves it out of the routes when it reads it as a dotted quad; the platform also takes
IPv6 literals and IPv4 addresses written in other ways, which the carve-out ignores.
The shipped tables hold two routes with host bits set; both start in the middle of
their block, where the carve-out still leaves the carved address out.
-/

namespace KiloProxy.Service
set_option autoImplicit false
open KiloProxy.Text KiloProxy.Util KiloProxy.Util.Routes KiloProxy.Cidr

/-- What is relied on of the platform's address parser: addresses have 32 and 128 bits,
a dotted quad it accepts reads as that address, and it reads the text of the routes. -/
structure NumericParser (d : Device) : Prop where
  v4_bits : ∀ {s t}, d.parseNumeric s = some (.v4 t) → t < 2 ^ 32
  v6_bits : ∀ {s x}, d.parseNumeric s = some (.v6 x) → x < 2 ^ 128
  quad : ∀ {s a t}, d.parseNumeric s = some a → ipv4ToLong s = some t → a = .v4 t
  printed : ∀ v, d.parseNumeric (longToIpv4 v) = some (.v4 (v % 2 ^ 32))
  any6 : d.parseNumeric "::".toList = some (.v6 0)

/-- The route of one `addRoute` call covers the address. A call the parser rejects, or
with a prefix length out of range, adds no route. -/
def callCovers (d : Device) (call : Str × Int) (a : InetAddr) : Bool :=
  match d.parseNumeric call.1, a with
  | some (.v4 base), .v4 t => 0 ≤ call.2 && call.2 ≤ 32 && subnetCovers base call.2.toNat t
  | some (.v6 base), .v6 x =>
    0 ≤ call.2 && call.2 ≤ 128 && base / 2 ^ (128 - call.2.toNat) == x / 2 ^ (128 - call.2.toNat)
  | _, _ => false

/-- No DNS server of the tunnel is covered by a route of the tunnel. -/
def DnsOutside (d : Device) (b : Builder) : Prop :=
  ∀ server ∈ b.dnsServers, ∀ a, d.parseNumeric server = some a → ∀ call ∈ b.routes, callCovers d call a = false

/-- The address the platform reads in `text` is one the carve-out deals with: an IPv6
address while IPv6 is off, or an IPv4 address written as a dotted quad or covered by
no route of the table. -/
def CarvedAway (d : Device) (route : Option Str) (ipv6 : Bool) (text : Str) : Prop :=
  match d.parseNumeric text with
  | none => True
  | some (.v6 _) => ipv6 = false
  | some (.v4 t) => (ipv4ToLong text).isSome = true ∨ ∀ r ∈ namedRoutes (route.getD routeAll), covers r t = false

/-- The condition on the settings: the profile's DNS server, when the hev path uses it
at all, is one the carve-out deals with. -/
def DnsSettingsCarved (d : Device) (mDns : Option Str) (mDnsPort : Int) (route : Option Str) (ipv6 : Bool) : Prop :=
  trim (mDns.getD []) ≠ [] → mDnsPort = 53 → isNumericAddress d (trim (mDns.getD [])) = true →
    CarvedAway d route ipv6 (trim (mDns.getD []))

/-! ## The tables -/

/-- A route as the tables write them: canonical text, not in `127.0.0.0/8`, and a base
that starts its block or the upper half of it. -/
def tableRoute (r : Str) : Bool :=
  match routeBlock r with
  | some (base, len) =>
    r == cidrText (base, len) && len < 32 && !startsWith r "127".toList &&
      (if len = 0 then base == 0 else base % 2 ^ (31 - len) == 0)
  | none => false

theorem simpleRoute_table : ∀ r ∈ simpleRoute, tableRoute r = true := by decide +kernel

theorem ruRoute_table : ∀ r ∈ ruRoute, tableRoute r = true := by decide +kernel

theorem allRoute_table : ∀ r ∈ ["0.0.0.0/0".toList], tableRoute r = true := by decide +kernel

/-- The routes of the tables are well formed. -/
theorem namedRoutes_table (name : Str) : ∀ r ∈ namedRoutes name, tableRoute r = true := by
  unfold namedRoutes
  split
  · exact allRoute_table
  · split
    · exact simpleRoute_table
    · split
      · exact ruRoute_table
      · split
        · intro r hr
          rcases List.mem_append.mp hr with h | h
          · exact simpleRoute_table r h
          · exact ruRoute_table r h
        · exact allRoute_table

/-- What a table route says about its block. -/
theorem tableRoute_block {r : Str} (h : tableRoute r = true) :
    ∃ base len, routeBlock r = some (base, len) ∧ r = cidrText (base, len) ∧ len < 32 ∧
      startsWith r "127".toList = false ∧ (len = 0 → base = 0) ∧ base % 2 ^ (31 - len) = 0 := by
  unfold tableRoute at h
  cases hr : routeBlock r with
  | none => rw [hr] at h; cases h
  | some block =>
    obtain ⟨base, len⟩ := block
    rw [hr] at h
    simp only [Bool.and_eq_true, beq_iff_eq, decide_eq_true_eq, Bool.not_eq_true'] at h
    obtain ⟨⟨⟨htext, hlen⟩, hloop⟩, hbase⟩ := h
    refine ⟨base, len, rfl, htext, hlen, hloop, ?_, ?_⟩
    · intro h0
      rw [if_pos h0] at hbase
      simpa using hbase
    · split at hbase
      · rw [beq_iff_eq] at hbase
        rw [hbase, Nat.zero_mod]
      · simpa using hbase

/-- Text that names a block the way the carve-out prints it. -/
def Canonical (r : Str) : Prop := ∃ base len, len ≤ 32 ∧ r = cidrText (base, len)

/-- Carving a table route leaves no route that covers the address. -/
theorem excludeEntry_table {r : Str} {target : Nat} (hr : tableRoute r = true) (ht : target < 2 ^ 32) :
    ∀ s ∈ excludeEntry target r, Canonical s ∧ covers s target = false := by
  obtain ⟨base, len, hblock, htext, hlen, _, hzero, hhalf⟩ := tableRoute_block hr
  obtain ⟨hb, _⟩ := routeBlock_bounds hblock
  intro s hs
  rw [excludeEntry_some hblock, if_neg (by omega)] at hs
  cases hin : subnetCovers base len target with
  | false =>
    rw [hin] at hs
    obtain rfl : s = r := by simpa using hs
    exact ⟨⟨base, len, by omega, htext⟩, by rw [covers, hblock]; exact hin⟩
  | true =>
    rw [hin] at hs
    have hpieces : s ∈ (splitDown target base len).map cidrText := hs
    have hsame := ((subnetCovers_iff hb ht (by omega)).mp hin).symm
    constructor
    · obtain ⟨c, hc, rfl⟩ := List.mem_map.mp hpieces
      rw [splitDown_eq _ _ (by omega : len ≤ 32)] at hc
      obtain ⟨e, _, rfl⟩ := List.mem_map.mp hc
      exact ⟨e.1, 32 - e.2, by omega, rfl⟩
    · -- a covering piece would make the loop hold the address
      rw [← Bool.not_eq_true]
      intro hcov
      have hleft : Left 32 target base (32 - len) target :=
        (splitDown_covers (by omega) ht hsame).mp (List.any_eq_true.mpr ⟨s, hpieces, hcov⟩)
      by_cases h0 : len = 0
      · rw [h0, hzero h0] at hleft
        have hwhole := (left_aligned (Nat.le_refl 32) ht
          (by rw [Nat.zero_div, Nat.div_eq_of_lt ht]) (Nat.zero_mod _) target).mp hleft
        exact hwhole.2 rfl
      · exact left_half_aligned (by omega) ht hsame (by rw [show 32 - len - 1 = 31 - len by omega]; exact hhalf)
          hleft

/-! ## The calls -/

/-- The call made for canonical text. -/
theorem routeCall_cidrText {base len : Nat} (hlen : len ≤ 32) :
    routeCall (cidrText (base, len)) =
      if startsWith (longToIpv4 base) "127".toList then none else some (longToIpv4 base, (len : Int)) := by
  rw [routeCall, split_cidrText]
  simp only [toIntOrNull_ofNat (by omega : len < 2 ^ 31), Option.map_some]

/-- A table route is passed on. -/
theorem routeCall_table {r : Str} (h : tableRoute r = true) : ∃ call, routeCall r = some call := by
  obtain ⟨base, len, _, htext, hlen, hloop, _⟩ := tableRoute_block h
  refine ⟨(longToIpv4 base, (len : Int)), ?_⟩
  rw [htext, routeCall_cidrText (by omega), if_neg]
  intro h127
  rw [htext, cidrText] at hloop
  have hprefix := (List.isPrefixOf_iff_prefix.mp h127).trans
    (List.prefix_append (longToIpv4 base) ('/' :: ofNat len))
  rw [startsWith, List.isPrefixOf_iff_prefix.mpr hprefix] at hloop
  cases hloop

/-- A canonical route and its call cover the same IPv4 addresses, and no IPv6 one. -/
theorem callCovers_canonical {d : Device} (hp : NumericParser d) {r : Str} {call : Str × Int} {a : InetAddr}
    (hr : Canonical r) (hcall : routeCall r = some call) :
    callCovers d call a = match a with | .v4 t => covers r t | .v6 _ => false := by
  obtain ⟨base, len, hlen, rfl⟩ := hr
  rw [routeCall_cidrText hlen] at hcall
  split at hcall
  · cases hcall
  · obtain rfl := Option.some.inj hcall
    unfold callCovers
    rw [hp.printed]
    cases a with
    | v4 t =>
      have hbounds : (0 : Int) ≤ len ∧ (len : Int) ≤ 32 := by omega
      simp only [covers, routeBlock_cidrText hlen, Int.toNat_natCast, hbounds, decide_true, Bool.true_and]
    | v6 x => rfl

/-- The addresses a list of canonical routes covers, over its calls. -/
theorem calls_avoid {d : Device} (hp : NumericParser d) {routes : List Str} {a : InetAddr}
    (hcan : ∀ r ∈ routes, Canonical r) (havoid : ∀ t, a = .v4 t → ∀ r ∈ routes, covers r t = false) :
    ∀ call ∈ routes.filterMap routeCall, callCovers d call a = false := by
  intro call hcall
  obtain ⟨r, hr, hrc⟩ := List.mem_filterMap.mp hcall
  rw [callCovers_canonical hp (hcan r hr) hrc]
  cases a with
  | v4 t => exact havoid t rfl r hr
  | v6 x => rfl

theorem namedRoutes_canonical (name : Str) : ∀ r ∈ namedRoutes name, Canonical r := by
  intro r hr
  obtain ⟨base, len, _, htext, hlen, _⟩ := tableRoute_block (namedRoutes_table name r hr)
  exact ⟨base, len, by omega, htext⟩

/-! ## `configure` -/

theorem foldl_addRoute_routes (rs : List (Str × Int)) (b : Builder) :
    (rs.foldl (fun b r => b.addRoute r.1 r.2) b).routes = b.routes ++ rs ∧
      (rs.foldl (fun b r => b.addRoute r.1 r.2) b).dnsServers = b.dnsServers := by
  induction rs generalizing b with
  | nil => exact ⟨by simp, rfl⟩
  | cons r rest ih =>
    obtain ⟨hroutes, hdns⟩ := ih (b.addRoute r.1 r.2)
    exact ⟨by rw [List.foldl_cons, hroutes, Builder.addRoute]; simp, hdns⟩

theorem foldl_apps_net {f : Builder → Str → Builder}
    (hf : ∀ b p, (f b p).routes = b.routes ∧ (f b p).dnsServers = b.dnsServers) (apps : List Str) (b : Builder) :
    (apps.foldl f b).routes = b.routes ∧ (apps.foldl f b).dnsServers = b.dnsServers := by
  induction apps generalizing b with
  | nil => exact ⟨rfl, rfl⟩
  | cons p rest ih =>
    obtain ⟨hroutes, hdns⟩ := ih (f b p)
    exact ⟨hroutes.trans (hf b p).1, hdns.trans (hf b p).2⟩

theorem addDisallowed_net (d : Device) (b : Builder) (p : Str) :
    (b.addDisallowed d p).routes = b.routes ∧ (b.addDisallowed d p).dnsServers = b.dnsServers := by
  unfold Builder.addDisallowed
  split <;> exact ⟨rfl, rfl⟩

theorem addAllowed_net (d : Device) (b : Builder) (p : Str) :
    (b.addAllowed d p).routes = b.routes ∧ (b.addAllowed d p).dnsServers = b.dnsServers := by
  unfold Builder.addAllowed
  split <;> exact ⟨rfl, rfl⟩

/-- The application lists change no route and no DNS server. -/
theorem configureApps_net (d : Device) (b : Builder) (perApp bypass : Bool) (apps : Option (List Str)) :
    (configureApps d b perApp bypass apps).routes = b.routes ∧
      (configureApps d b perApp bypass apps).dnsServers = b.dnsServers := by
  unfold configureApps
  split
  · exact addDisallowed_net d b _
  · split
    · obtain ⟨hroutes, hdns⟩ := foldl_apps_net
        (f := fun b p => if p = [] then b else b.addDisallowed d (trimControl p))
        (fun b p => by split; exacts [⟨rfl, rfl⟩, addDisallowed_net d b _]) (apps.getD [])
        (b.addDisallowed d d.packageName)
      obtain ⟨hroutes', hdns'⟩ := addDisallowed_net d b d.packageName
      exact ⟨hroutes.trans hroutes', hdns.trans hdns'⟩
    · exact foldl_apps_net (fun b p => by split; exacts [⟨rfl, rfl⟩, addAllowed_net d b _]) _ b

/-- The routes of the hev path. -/
theorem configureRoutes_hev (b : Builder) (dnsServer : Str) (route : Option Str) (ipv6 : Bool) :
    (configureRoutes b true dnsServer route ipv6).routes =
        b.routes ++ ((if ipv6 then [("::".toList, (0 : Int))] else []) ++
          addRoutes (route.getD routeAll) (some dnsServer)) ∧
      (configureRoutes b true dnsServer route ipv6).dnsServers = b.dnsServers := by
  unfold configureRoutes
  simp only [if_true]
  rw [(foldl_addRoute_routes _ _).1, (foldl_addRoute_routes _ _).2]
  cases ipv6 with
  | true => exact ⟨by simp [Builder.addRoute, Builder.addAddress], rfl⟩
  | false => exact ⟨rfl, rfl⟩

/-- What the hev path of `configure` hands to the Builder: one DNS server, the IPv6
default route when IPv6 is on, and the calls of `addRoutes`. -/
theorem configure_hev_net {d : Device} {mDns name route : Option Str} {mDnsPort : Int}
    {perApp bypass ipv6 : Bool} {apps : Option (List Str)} {b : Builder}
    (h : configure d true mDns mDnsPort name route perApp bypass apps ipv6 = .ok b) :
    b.dnsServers = [hevDnsServer d mDns mDnsPort] ∧
      b.routes = (if ipv6 then [("::".toList, (0 : Int))] else []) ++
        addRoutes (route.getD routeAll) (some (hevDnsServer d mDns mDnsPort)) := by
  simp only [configure, Builder.addDnsServer, Builder.addAddress, if_true] at h
  split at h
  · simp only [bind, Except.bind, pure, Except.pure, Except.ok.injEq] at h
    rw [← h, (configureApps_net _ _ _ _ _).1, (configureApps_net _ _ _ _ _).2, (configureRoutes_hev _ _ _ _).1,
      (configureRoutes_hev _ _ _ _).2]
    split <;> exact ⟨rfl, rfl⟩
  · cases h

/-- `configure` goes through exactly when the platform reads the DNS server. -/
theorem configure_ok (d : Device) (mDns name route : Option Str) (mDnsPort : Int) (perApp bypass ipv6 : Bool)
    (apps : Option (List Str)) (h : d.parseNumeric (hevDnsServer d mDns mDnsPort) ≠ none) :
    ∃ b, configure d true mDns mDnsPort name route perApp bypass apps ipv6 = .ok b := by
  obtain ⟨a, ha⟩ := Option.ne_none_iff_exists'.mp h
  simp only [configure, Builder.addDnsServer, Builder.addAddress, if_true, ha]
  exact ⟨_, rfl⟩

/-- The default route covers every IPv6 address. -/
theorem any6_covers {d : Device} (hp : NumericParser d) {x : Nat} (hx : x < 2 ^ 128) :
    callCovers d ("::".toList, 0) (.v6 x) = true := by
  unfold callCovers
  rw [hp.any6]
  have hzero : x / 2 ^ 128 = 0 := Nat.div_eq_of_lt hx
  simp only [Int.toNat_zero, Nat.sub_zero, hzero]
  rfl

/-- Whether the routes for one DNS server leave it outside. -/
theorem routes_avoid_iff {d : Device} (hp : NumericParser d) (route : Option Str) (ipv6 : Bool) {server : Str}
    {a : InetAddr} (hne : server ≠ []) (ha : d.parseNumeric server = some a) :
    (∀ call ∈ (if ipv6 then [("::".toList, (0 : Int))] else []) ++ addRoutes (route.getD routeAll) (some server),
        callCovers d call a = false) ↔ CarvedAway d route ipv6 server := by
  generalize hname : route.getD routeAll = name
  simp only [List.forall_mem_append, addRoutes, if_neg hne, CarvedAway, ha, hname]
  cases a with
  | v6 x =>
    have hquad : ipv4ToLong server = none := by
      cases h : ipv4ToLong server with
      | none => rfl
      | some t => cases hp.quad ha h
    rw [excludeIpv4, hquad]
    constructor
    · rintro ⟨hany, _⟩
      cases ipv6 with
      | false => rfl
      | true =>
        have hout := hany ("::".toList, 0) (by simp)
        rw [any6_covers hp (hp.v6_bits ha)] at hout
        cases hout
    · rintro rfl
      refine ⟨by simp, calls_avoid hp (namedRoutes_canonical name) fun t h => ?_⟩
      cases h
  | v4 t =>
    have hsix : ∀ call ∈ (if ipv6 then [("::".toList, (0 : Int))] else []), callCovers d call (.v4 t) = false := by
      intro call hcall
      split at hcall
      · obtain rfl := List.mem_singleton.mp hcall
        unfold callCovers
        rw [hp.any6]
      · cases hcall
    have ht := hp.v4_bits ha
    cases hq : ipv4ToLong server with
    | some t' =>
      obtain rfl : t = t' := by
        cases hp.quad ha hq
        rfl
      have hcarved : ∀ s ∈ (namedRoutes name).flatMap (excludeEntry t), Canonical s ∧ covers s t = false := by
        intro s hs
        obtain ⟨r, hr, hs⟩ := List.mem_flatMap.mp hs
        exact excludeEntry_table (namedRoutes_table name r hr) ht s hs
      rw [excludeIpv4_some hq]
      constructor
      · intro _; exact .inl rfl
      · intro _
        refine ⟨hsix, calls_avoid hp (fun s hs => (hcarved s hs).1) fun u h s hs => ?_⟩
        cases h
        exact (hcarved s hs).2
    | none =>
      rw [excludeIpv4, hq]
      constructor
      · rintro ⟨_, hcalls⟩
        refine .inr fun r hr => ?_
        obtain ⟨call, hcall⟩ := routeCall_table (namedRoutes_table name r hr)
        have hout := hcalls _ (List.mem_filterMap.mpr ⟨r, hr, hcall⟩)
        rwa [callCovers_canonical hp (namedRoutes_canonical name r hr) hcall] at hout
      · rintro (h | h)
        · cases h
        · refine ⟨hsix, calls_avoid hp (namedRoutes_canonical name) fun u hu r hr => ?_⟩
          cases hu
          exact h r hr

theorem hevDnsServer_ne_nil (d : Device) (mDns : Option Str) (mDnsPort : Int) :
    hevDnsServer d mDns mDnsPort ≠ [] := by
  simp only [hevDnsServer]
  split
  · rename_i h; exact h.1
  · decide

/-- **DNS of the fast tunnel.** The DNS server is outside every tunnel the hev path
configures exactly when the profile's server, if used, is one the carve-out deals with. -/
theorem hev_dns_outside_iff (d : Device) (hp : NumericParser d) (mDns name route : Option Str) (mDnsPort : Int)
    (perApp bypass ipv6 : Bool) (apps : Option (List Str)) :
    (∀ b, configure d true mDns mDnsPort name route perApp bypass apps ipv6 = .ok b → DnsOutside d b) ↔
      DnsSettingsCarved d mDns mDnsPort route ipv6 := by
  have hserver : (∀ b, configure d true mDns mDnsPort name route perApp bypass apps ipv6 = .ok b →
      DnsOutside d b) ↔ CarvedAway d route ipv6 (hevDnsServer d mDns mDnsPort) := by
    cases ha : d.parseNumeric (hevDnsServer d mDns mDnsPort) with
    | none =>
      simp only [CarvedAway, ha, iff_true]
      intro b hb server hs a hparse
      obtain ⟨hdns, _⟩ := configure_hev_net hb
      rw [hdns, List.mem_singleton] at hs
      rw [hs, ha] at hparse
      cases hparse
    | some a =>
      obtain ⟨b, hb⟩ := configure_ok d mDns name route mDnsPort perApp bypass ipv6 apps (by simp [ha])
      obtain ⟨hdns, hroutes⟩ := configure_hev_net hb
      have hb' : (∀ b', configure d true mDns mDnsPort name route perApp bypass apps ipv6 = .ok b' →
          DnsOutside d b') ↔ DnsOutside d b := by
        rw [hb]
        constructor
        · intro h; exact h b rfl
        · intro h b' he; cases he; exact h
      rw [hb', DnsOutside, hdns, hroutes]
      simp only [List.mem_singleton, forall_eq, ha, Option.some.injEq]
      rw [forall_eq', routes_avoid_iff hp route ipv6 (hevDnsServer_ne_nil d mDns mDnsPort) ha]
  rw [hserver, DnsSettingsCarved]
  by_cases hused : trim (mDns.getD []) ≠ [] ∧ mDnsPort = 53 ∧ isNumericAddress d (trim (mDns.getD [])) = true
  · rw [hevDnsServer, if_pos hused]
    constructor
    · intro h _ _ _; exact h
    · intro h; exact h hused.1 hused.2.1 hused.2.2
  · rw [hevDnsServer, if_neg hused]
    constructor
    · intro _ h1 h2 h3; exact (hused ⟨h1, h2, h3⟩).elim
    · intro _
      have hdefault := hp.printed 134744072
      rw [show longToIpv4 134744072 = hevDnsDefault by decide] at hdefault
      unfold CarvedAway
      rw [hdefault]
      exact .inl (by decide)

def googleDns6 : Str := "2001:4860:4860::8888".toList

/-- A device that reads dotted quads and two IPv6 literals. -/
def dualDevice : Device :=
  { sdk := 34
    packageName := "com.kiloproxy.pro".toList
    installed := fun p => p = "com.kiloproxy.pro".toList
    isNumericPlatform := fun s => (ipv4ToLong s).isSome || s = "::".toList || s = googleDns6
    parseNumeric := fun s =>
      match ipv4ToLong s with
      | some t => some (.v4 t)
      | none =>
        if s = "::".toList then some (.v6 0)
        else if s = googleDns6 then some (.v6 0x20014860486000000000000000008888)
        else none
    self_installed := by decide }

theorem dualDevice_numeric : NumericParser dualDevice where
  v4_bits {s t} h := by
    simp only [dualDevice] at h
    split at h
    · rename_i hq
      cases h
      exact ipv4ToLong_lt hq
    · split at h
      · cases h
      · split at h <;> cases h
  v6_bits {s x} h := by
    simp only [dualDevice] at h
    split at h
    · cases h
    · split at h
      · cases h; decide
      · split at h
        · cases h; decide
        · cases h
  quad {s a t} h hq := by
    simp only [dualDevice, hq] at h
    exact (Option.some.inj h).symm
  printed v := by simp only [dualDevice, ipv4ToLong_longToIpv4]
  any6 := by decide

/-- `1.1.1.1` with IPv6 on. -/
theorem hev_dns_outside_quad :
    (∀ b, configure dualDevice true (some "1.1.1.1".toList) 53 none none false false none true = .ok b →
        DnsOutside dualDevice b) ↔
      DnsSettingsCarved dualDevice (some "1.1.1.1".toList) 53 none true :=
  hev_dns_outside_iff dualDevice dualDevice_numeric _ none none 53 false false true none

/-- An IPv6 DNS server with IPv6 on is covered by `::/0`. -/
theorem hev_dns6_inside :
    ∃ b, configure dualDevice true (some googleDns6) 53 none none false false none true = .ok b ∧
      ¬ DnsOutside dualDevice b := by
  obtain ⟨b, hb⟩ := configure_ok dualDevice (some googleDns6) none none 53 false false true none (by decide)
  obtain ⟨hdns, hroutes⟩ := configure_hev_net hb
  refine ⟨b, hb, fun h => ?_⟩
  have hserver : googleDns6 ∈ b.dnsServers := by rw [hdns]; decide
  have hany : ("::".toList, (0 : Int)) ∈ b.routes := by rw [hroutes]; simp
  have := h _ hserver _ rfl _ hany
  exact absurd this (by decide)

end KiloProxy.Service
