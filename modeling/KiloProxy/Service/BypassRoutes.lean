import KiloProxy.Cidr.Partition
import KiloProxy.Service.DnsRoute

/-!
# The "Bypass" route settings

The settings `chn`, `ru` and `ru_chn` are offered as "Bypass Chinese IPs", "Bypass Russian
IPs" and "Bypass RU & CN IPs". Their tables hold the blocks of these countries, and
`addRoutes` routes the tables into the tunnel: the country goes through the proxy and the
rest of the world stays outside, whatever the excluded address.
-/

namespace KiloProxy.Service
set_option autoImplicit false
open KiloProxy.Text KiloProxy.Util KiloProxy.Util.Routes KiloProxy.Cidr

/-- The values behind the "Bypass" labels. -/
def bypassNames : List Str := [routeChn, routeRu, routeRuChn]

/-- What a "Bypass" setting promises: the country's addresses stay outside the tunnel, all
others go into it, but for loopback and the excluded address. -/
structure BypassesCountry (d : Device) (name : Str) (excludeIp : Option Str) : Prop where
  outside : ∀ a, a < 2 ^ 32 → coversAny (namedRoutes name) a = true →
    ∀ call ∈ addRoutes name excludeIp, callCovers d call (.v4 a) = false
  inside : ∀ a, a < 2 ^ 32 → coversAny (namedRoutes name) a = false → a / 2 ^ 24 ≠ 127 →
    excludeIp.bind ipv4ToLong ≠ some a → ∃ call ∈ addRoutes name excludeIp, callCovers d call (.v4 a) = true

/-! ## The calls and the tables -/

/-- What becomes of a route for the address that is excluded, if any. -/
def carved (target : Option Nat) (r : Str) : List Str := target.elim [r] fun t => excludeEntry t r

/-- The routes added are those of the table, carved. -/
theorem addRoutes_eq (name : Str) (excludeIp : Option Str) :
    addRoutes name excludeIp =
      ((namedRoutes name).flatMap (carved (excludeIp.bind ipv4ToLong))).filterMap routeCall := by
  have hkeep : ∀ routes : List Str, routes.flatMap (carved none) = routes := fun routes => by
    show routes.flatMap (fun r => [r]) = routes
    rw [List.flatMap_singleton']
  unfold addRoutes
  cases excludeIp with
  | none => rw [Option.bind_none, hkeep]
  | some ip =>
    rw [Option.bind_some]
    by_cases hnil : ip = []
    · have hnone : ipv4ToLong ip = none := by
        rw [hnil]
        decide
      rw [hnone, hkeep]
      simp only [if_pos hnil]
    · simp only [if_neg hnil]
      cases hip : ipv4ToLong ip with
      | none => rw [excludeIpv4, hip, hkeep]
      | some t =>
        rw [excludeIpv4_some hip]
        rfl

/-- A route within one block of the form `o.0.0.0/8`, other than `8.0.0.0/8` and `9.0.0.0/8`. -/
def octetRoute (r : Str) : Bool :=
  match routeBlock r with
  | some (base, len) =>
    8 ≤ len && base % 2 ^ 24 + 2 ^ (32 - len) ≤ 2 ^ 24 && base / 2 ^ 24 != 8 && base / 2 ^ 24 != 9
  | none => false

theorem simpleRoute_octets : ∀ r ∈ simpleRoute, octetRoute r = true := by decide +kernel

theorem ruRoute_octets : ∀ r ∈ ruRoute, octetRoute r = true := by decide +kernel

/-- The tables behind the "Bypass" labels. -/
theorem namedRoutes_bypass {name : Str} (h : name ∈ bypassNames) :
    namedRoutes name = simpleRoute ∨ namedRoutes name = ruRoute ∨ namedRoutes name = simpleRoute ++ ruRoute := by
  obtain rfl | rfl | rfl : name = routeChn ∨ name = routeRu ∨ name = routeRuChn := by
    simpa [bypassNames] using h
  · exact .inl rfl
  · exact .inr (.inl rfl)
  · exact .inr (.inr rfl)

theorem namedRoutes_octets {name : Str} (h : name ∈ bypassNames) : ∀ r ∈ namedRoutes name, octetRoute r = true := by
  intro r hr
  obtain he | he | he := namedRoutes_bypass h
  · rw [he] at hr
    exact simpleRoute_octets r hr
  · rw [he] at hr
    exact ruRoute_octets r hr
  · rw [he] at hr
    obtain hr | hr := List.mem_append.mp hr
    · exact simpleRoute_octets r hr
    · exact ruRoute_octets r hr

/-- Each is a block inside one octet, and not that of the DNS servers. -/
theorem octetRoute_block {r : Str} (h : octetRoute r = true) : ∃ base len, routeBlock r = some (base, len) ∧
    8 ≤ len ∧ base % 2 ^ 24 + 2 ^ (32 - len) ≤ 2 ^ 24 ∧ base / 2 ^ 24 ≠ 8 ∧ base / 2 ^ 24 ≠ 9 := by
  unfold octetRoute at h
  cases hr : routeBlock r with
  | none =>
    rw [hr] at h
    cases h
  | some block =>
    obtain ⟨base, len⟩ := block
    rw [hr] at h
    simp only [Bool.and_eq_true, decide_eq_true_eq, bne_iff_ne] at h
    obtain ⟨⟨⟨hlen, hfits⟩, height⟩, hnine⟩ := h
    exact ⟨base, len, rfl, hlen, hfits, height, hnine⟩

/-! ## What the routes cover -/

/-- A block that starts and ends within one first octet, left behind there, covers no
address of another. -/
theorem carved_octet {target : Option Nat} {r s : Str} {a : Nat} (h : octetRoute r = true)
    (hs : s ∈ carved target r) (ha : a < 2 ^ 32) (hcov : covers s a = true) :
    a / 2 ^ 24 ≠ 8 ∧ a / 2 ^ 24 ≠ 9 := by
  obtain ⟨base, len, hblock, hlen, hfits, height, hnine⟩ := octetRoute_block h
  obtain ⟨hb, hle⟩ := routeBlock_bounds hblock
  have hsame : a / 2 ^ 24 = base / 2 ^ 24 := by
    have hkept : covers r a = true → a / 2 ^ 24 = base / 2 ^ 24 := by
      intro hr
      rw [covers, hblock] at hr
      exact div_pow_eq_of_le (by omega) ((subnetCovers_iff hb ha hle).mp hr)
    cases target with
    | none =>
      obtain rfl := List.mem_singleton.mp hs
      exact hkept hcov
    | some t =>
      replace hs : s ∈ excludeEntry t r := hs
      rw [excludeEntry_some hblock] at hs
      split at hs
      · split at hs
        · obtain rfl := List.mem_singleton.mp hs
          exact hkept hcov
        · cases hs
      · split at hs
        · obtain rfl := List.mem_singleton.mp hs
          exact hkept hcov
        · obtain ⟨c, hc, rfl⟩ := List.mem_map.mp hs
          rw [splitDown_eq _ _ hle] at hc
          obtain ⟨⟨e, j⟩, hmem, rfl⟩ := List.mem_map.mp hc
          have hj : j < 32 - len := bisect_size_lt hmem
          have hpiece : e ∈ cell (base, 32 - len) :=
            bisect_within _ hmem (mem_cell.mpr ⟨Nat.le_refl e, by have := Nat.two_pow_pos j; omega⟩)
          rw [mem_cell] at hpiece
          have hfirst : e / 2 ^ 24 = base / 2 ^ 24 := by omega
          have he : e < 2 ^ 32 := by omega
          rw [covers, routeBlock_cidrText (by omega), Nat.mod_eq_of_lt he] at hcov
          have hnear := (subnetCovers_iff he ha (by omega)).mp hcov
          exact (div_pow_eq_of_le (by omega) hnear).trans hfirst
  rw [hsame]
  exact ⟨height, hnine⟩

/-- Every route that is added is written the way the carve-out prints it. -/
theorem carved_canonical {name : Str} {r s : Str} {target : Option Nat} (hr : r ∈ namedRoutes name)
    (ht : ∀ t ∈ target, t < 2 ^ 32) (hs : s ∈ carved target r) : Canonical s := by
  cases target with
  | none =>
    obtain rfl := List.mem_singleton.mp hs
    exact namedRoutes_canonical name s hr
  | some t => exact (excludeEntry_table (namedRoutes_table name r hr) (ht t rfl) s hs).1

theorem excluded_lt (excludeIp : Option Str) : ∀ t ∈ excludeIp.bind ipv4ToLong, t < 2 ^ 32 := by
  intro t ht
  obtain ⟨ip, _, hip⟩ := Option.bind_eq_some_iff.mp ht
  exact ipv4ToLong_lt hip

/-- A route whose block does not hold the excluded address is passed on. -/
theorem carved_keeps {target : Option Nat} {r : Str} {base len : Nat} (hblock : routeBlock r = some (base, len))
    (hlen : len < 32) (hmiss : ∀ t ∈ target, subnetCovers base len t = false) : carved target r = [r] := by
  cases target with
  | none => rfl
  | some t =>
    show excludeEntry t r = [r]
    rw [excludeEntry_some hblock, if_neg (by omega), hmiss t rfl]
    rfl

/-- The call for a route that is passed on covers what the route does. -/
theorem kept_covered {d : Device} (hp : NumericParser d) {name : Str} {excludeIp : Option Str} {r : Str} {a : Nat}
    (hr : r ∈ namedRoutes name) (hkeep : carved (excludeIp.bind ipv4ToLong) r = [r]) (hcov : covers r a = true) :
    ∃ call ∈ addRoutes name excludeIp, callCovers d call (.v4 a) = true := by
  obtain ⟨call, hcall⟩ := routeCall_table (namedRoutes_table name r hr)
  refine ⟨call, ?_, ?_⟩
  · rw [addRoutes_eq]
    apply List.mem_filterMap.mpr
    refine ⟨r, List.mem_flatMap.mpr ⟨r, hr, ?_⟩, hcall⟩
    rw [hkeep]
    exact List.mem_singleton_self r
  · rw [callCovers_canonical hp (namedRoutes_canonical name r hr) hcall]
    exact hcov

/-! ## Neither half holds -/

/-- Of two routes that have no address in common one is passed on. -/
theorem carved_keeps_one {r r' : Str} {base len base' len' : Nat} (hblock : routeBlock r = some (base, len))
    (hblock' : routeBlock r' = some (base', len')) (hlen : len < 32) (hlen' : len' < 32)
    (apart : ∀ t, t < 2 ^ 32 → subnetCovers base len t = true → subnetCovers base' len' t = false)
    {target : Option Nat} (ht : ∀ t ∈ target, t < 2 ^ 32) : carved target r = [r] ∨ carved target r' = [r'] := by
  by_cases hhit : ∃ t ∈ target, subnetCovers base len t = true
  · obtain ⟨t, hmem, hcov⟩ := hhit
    right
    refine carved_keeps hblock' hlen' fun u hu => ?_
    obtain rfl : u = t := Option.mem_unique hu hmem
    exact apart u (ht u hu) hcov
  · left
    refine carved_keeps hblock hlen fun t hmem => ?_
    rw [← Bool.not_eq_true]
    exact fun hcov => hhit ⟨t, hmem, hcov⟩

/-- `1.0.1.0/24` or `1.0.2.0/23` stays in the tunnel. -/
theorem simpleRoute_keeps {target : Option Nat} (ht : ∀ t ∈ target, t < 2 ^ 32) :
    ∃ r ∈ simpleRoute, carved target r = [r] ∧ ∃ a, a < 2 ^ 32 ∧ covers r a = true := by
  have hapart : ∀ t, t < 2 ^ 32 → subnetCovers 16777472 24 t = true → subnetCovers 16777728 23 t = false := by
    intro t ht hcov
    have hleft := (subnetCovers_iff (by decide) ht (by decide)).mp hcov
    rw [← Bool.not_eq_true]
    intro hcov'
    have hright := (subnetCovers_iff (by decide) ht (by decide)).mp hcov'
    omega
  have hblock : routeBlock "1.0.1.0/24".toList = some (16777472, 24) := by decide
  have hblock' : routeBlock "1.0.2.0/23".toList = some (16777728, 23) := by decide
  obtain hkeep | hkeep := carved_keeps_one hblock hblock' (by decide) (by decide) hapart ht
  · exact ⟨_, by decide, hkeep, 16777472, by decide, by decide⟩
  · exact ⟨_, by decide, hkeep, 16777728, by decide, by decide⟩

/-- `2.60.0.0/14` or `2.92.0.0/14` does. -/
theorem ruRoute_keeps {target : Option Nat} (ht : ∀ t ∈ target, t < 2 ^ 32) :
    ∃ r ∈ ruRoute, carved target r = [r] ∧ ∃ a, a < 2 ^ 32 ∧ covers r a = true := by
  have hapart : ∀ t, t < 2 ^ 32 → subnetCovers 37486592 14 t = true → subnetCovers 39583744 14 t = false := by
    intro t ht hcov
    have hleft := (subnetCovers_iff (by decide) ht (by decide)).mp hcov
    rw [← Bool.not_eq_true]
    intro hcov'
    have hright := (subnetCovers_iff (by decide) ht (by decide)).mp hcov'
    omega
  have hblock : routeBlock "2.60.0.0/14".toList = some (37486592, 14) := by decide
  have hblock' : routeBlock "2.92.0.0/14".toList = some (39583744, 14) := by decide
  obtain hkeep | hkeep := carved_keeps_one hblock hblock' (by decide) (by decide) hapart ht
  · exact ⟨_, by decide, hkeep, 37486592, by decide, by decide⟩
  · exact ⟨_, by decide, hkeep, 39583744, by decide, by decide⟩

/-- One of them is not carved at all. -/
theorem namedRoutes_keeps {name : Str} (h : name ∈ bypassNames) {target : Option Nat} (ht : ∀ t ∈ target, t < 2 ^ 32) :
    ∃ r ∈ namedRoutes name, carved target r = [r] ∧ ∃ a, a < 2 ^ 32 ∧ covers r a = true := by
  obtain he | he | he := namedRoutes_bypass h
  · rw [he]
    exact simpleRoute_keeps ht
  · rw [he]
    exact ruRoute_keeps ht
  · rw [he]
    obtain ⟨r, hr, hrest⟩ := simpleRoute_keeps ht
    exact ⟨r, List.mem_append_left _ hr, hrest⟩

/-- An address of the country goes into the tunnel. -/
theorem country_not_outside {d : Device} (hp : NumericParser d) {name : Str} (hname : name ∈ bypassNames)
    (excludeIp : Option Str) : ∃ a, a < 2 ^ 32 ∧ coversAny (namedRoutes name) a = true ∧
      ∃ call ∈ addRoutes name excludeIp, callCovers d call (.v4 a) = true := by
  obtain ⟨r, hr, hkeep, a, ha, hcov⟩ := namedRoutes_keeps hname (excluded_lt excludeIp)
  exact ⟨a, ha, List.any_eq_true.mpr ⟨r, hr, hcov⟩, kept_covered hp hr hkeep hcov⟩

/-- Addresses of `8.0.0.0/8` and `9.0.0.0/8` are in none of the blocks and stay outside. -/
theorem rest_not_inside {d : Device} (hp : NumericParser d) {name : Str} (hname : name ∈ bypassNames)
    (excludeIp : Option Str) {a : Nat} (hoctet : a / 2 ^ 24 = 8 ∨ a / 2 ^ 24 = 9) (ha : a < 2 ^ 32) :
    coversAny (namedRoutes name) a = false ∧ ∀ call ∈ addRoutes name excludeIp, callCovers d call (.v4 a) = false := by
  have hmiss : ∀ (target : Option Nat) {r s : Str},
      r ∈ namedRoutes name → s ∈ carved target r → covers s a = false := by
    intro target r s hr hs
    rw [← Bool.not_eq_true]
    intro hcov
    have hother := carved_octet (namedRoutes_octets hname r hr) hs ha hcov
    omega
  constructor
  · rw [← Bool.not_eq_true]
    intro hcov
    obtain ⟨r, hr, hcov⟩ := List.any_eq_true.mp hcov
    rw [hmiss none hr (List.mem_singleton_self r)] at hcov
    cases hcov
  · rw [addRoutes_eq]
    have hpiece : ∀ s ∈ (namedRoutes name).flatMap (carved (excludeIp.bind ipv4ToLong)),
        Canonical s ∧ covers s a = false := by
      intro s hs
      obtain ⟨r, hr, hs⟩ := List.mem_flatMap.mp hs
      exact ⟨carved_canonical hr (excluded_lt excludeIp) hs, hmiss _ hr hs⟩
    refine calls_avoid hp (fun s hs => (hpiece s hs).1) fun t h s hs => ?_
    cases h
    exact (hpiece s hs).2

/-- **No "Bypass" setting bypasses**: whatever is excluded, an address of the country goes
into the tunnel and another one, neither loopback nor excluded, stays outside. -/
theorem bypass_never {d : Device} (hp : NumericParser d) {name : Str} (hname : name ∈ bypassNames)
    (excludeIp : Option Str) : ¬ BypassesCountry d name excludeIp ∧
      (∃ a, a < 2 ^ 32 ∧ coversAny (namedRoutes name) a = true ∧
        ∃ call ∈ addRoutes name excludeIp, callCovers d call (.v4 a) = true) ∧
      ∃ a, a < 2 ^ 32 ∧ coversAny (namedRoutes name) a = false ∧ a / 2 ^ 24 ≠ 127 ∧
        excludeIp.bind ipv4ToLong ≠ some a ∧ ∀ call ∈ addRoutes name excludeIp, callCovers d call (.v4 a) = false := by
  have hcountry := country_not_outside hp hname excludeIp
  refine ⟨fun h => ?_, hcountry, ?_⟩
  · obtain ⟨a, ha, hin, call, hcall, hcov⟩ := hcountry
    rw [h.outside a ha hin call hcall] at hcov
    cases hcov
  · by_cases height : excludeIp.bind ipv4ToLong = some (8 * 2 ^ 24)
    · have hnine := rest_not_inside hp hname excludeIp (a := 9 * 2 ^ 24) (.inr (by decide)) (by decide)
      refine ⟨9 * 2 ^ 24, by decide, hnine.1, by decide, ?_, hnine.2⟩
      rw [height]
      exact fun h => absurd (Option.some.inj h) (by decide)
    · have hrest := rest_not_inside hp hname excludeIp (a := 8 * 2 ^ 24) (.inl (by decide)) (by decide)
      exact ⟨8 * 2 ^ 24, by decide, hrest.1, by decide, height, hrest.2⟩

/-- "Bypass RU & CN IPs" with `8.8.8.8` excluded. -/
theorem bypass_never_both : ¬ BypassesCountry dualDevice routeRuChn (some "8.8.8.8".toList) :=
  (bypass_never dualDevice_numeric (by decide) (some "8.8.8.8".toList)).1

/-- "Bypass Chinese IPs" without an excluded address routes `1.0.1.0` into the tunnel. -/
theorem bypass_tunnels_china :
    ¬ ∀ d, NumericParser d → ∀ name ∈ bypassNames, ∀ excludeIp, BypassesCountry d name excludeIp := by
  intro h
  have hout := (h dualDevice dualDevice_numeric routeChn (by decide) none).outside 16777472 (by decide) (by decide)
    ("1.0.1.0".toList, 24) (by decide)
  exact absurd hout (by decide)

end KiloProxy.Service
