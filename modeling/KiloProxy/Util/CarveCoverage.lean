import KiloProxy.Util.Routes

/-!
# What a carved route list covers

`covers` is the coverage check of `RoutesTest` with the route read the way
`excludeIpv4` reads it. An entry is carved exactly when it has zero host bits or does
not cover the carved address (`entry_exact_iff`); the one exception is `128.0.0.0/0`
against an address of the upper half, where the first middle wraps to `0.0.0.0`.
-/

namespace KiloProxy.Util.Routes
set_option autoImplicit false
open KiloProxy.Text KiloProxy.Cidr

/-- The block a route names: base and prefix length. -/
def routeBlock (r : Str) : Option (Nat × Nat) :=
  match split '/' r with
  | [p0, p1] => (ipv4ToLong (trim p0)).bind fun base => (toIntOrNull (trim p1)).bind fun len =>
    if len < 0 ∨ len > 32 then none else some (base, len.toNat)
  | _ => none

/-- Route `r` covers address `a`: both agree under the prefix mask. -/
def covers (r : Str) (a : Nat) : Bool :=
  match routeBlock r with
  | none => false
  | some (base, len) => subnetCovers base len a

def coversAny (routes : List Str) (a : Nat) : Bool := routes.any fun r => covers r a

/-- The route list covers after the carve-out what it covered before, less the address. -/
def CarvesOut (routes : List Str) (ip : Str) (target : Nat) : Prop :=
  ∀ a, a < 2 ^ 32 → (coversAny (excludeIpv4 routes ip) a = true ↔ coversAny routes a = true ∧ a ≠ target)

/-- A route that covers `target` starts at the first address of its block, or is
`128.0.0.0/0` below `target`. -/
def CleanFor (target : Nat) (r : Str) : Prop :=
  ∀ base len, routeBlock r = some (base, len) → subnetCovers base len target = true →
    base % 2 ^ (32 - len) = 0 ∨ (len = 0 ∧ base = 2 ^ 31 ∧ 2 ^ 31 ≤ target)

/-- A route that parses is a block of the address space. -/
theorem routeBlock_bounds {r : Str} {base len : Nat} (h : routeBlock r = some (base, len)) :
    base < 2 ^ 32 ∧ len ≤ 32 := by
  unfold routeBlock at h
  split at h
  · obtain ⟨b, hb, h⟩ := Option.bind_eq_some_iff.mp h
    obtain ⟨l, hl, h⟩ := Option.bind_eq_some_iff.mp h
    split at h
    · cases h
    · simp only [Option.some.injEq, Prod.mk.injEq] at h
      obtain ⟨rfl, rfl⟩ := h
      exact ⟨ipv4ToLong_lt hb, by omega⟩
  · cases h

theorem testBit_prefixMask {len i : Nat} (hlen : len ≤ 32) :
    (prefixMask len).testBit i = (decide (32 - len ≤ i) && decide (i < 32)) := by
  have hlow : (0xFFFFFFFF : Nat) = 2 ^ 32 - 1 := rfl
  rw [prefixMask, hlow, Nat.testBit_and, Nat.testBit_two_pow_sub_one, Nat.testBit_shiftLeft,
    Nat.testBit_two_pow_sub_one]
  grind

/-- The mask comparison is equality of the prefixes. -/
theorem subnetCovers_iff {base len a : Nat} (hb : base < 2 ^ 32) (ha : a < 2 ^ 32) (hlen : len ≤ 32) :
    subnetCovers base len a = true ↔ a / 2 ^ (32 - len) = base / 2 ^ (32 - len) := by
  unfold subnetCovers
  split
  · rename_i h0
    subst h0
    rw [Nat.sub_zero, Nat.div_eq_of_lt ha, Nat.div_eq_of_lt hb]
    exact ⟨fun _ => rfl, fun _ => rfl⟩
  · rw [beq_iff_eq]
    constructor
    · intro h
      refine Nat.eq_of_testBit_eq fun i => ?_
      have hi := congrArg (fun x => x.testBit (i + (32 - len))) h
      simp only [Nat.testBit_and, testBit_prefixMask hlen] at hi
      rw [Nat.testBit_div_two_pow, Nat.testBit_div_two_pow]
      by_cases hin : i + (32 - len) < 32
      · simpa [hin] using hi.symm
      · have hbig : 2 ^ 32 ≤ 2 ^ (i + (32 - len)) := Nat.pow_le_pow_right (by decide) (by omega)
        rw [Nat.testBit_lt_two_pow (by omega), Nat.testBit_lt_two_pow (by omega)]
    · intro h
      refine Nat.eq_of_testBit_eq fun i => ?_
      rw [Nat.testBit_and, Nat.testBit_and, testBit_prefixMask hlen]
      by_cases hin : 32 - len ≤ i
      · have hi := congrArg (fun x => x.testBit (i - (32 - len))) h
        simp only [Nat.testBit_div_two_pow] at hi
        rw [show i - (32 - len) + (32 - len) = i by omega] at hi
        rw [hi]
      · simp [hin]

/-- A printed prefix reads back, its base modulo the address space. -/
theorem routeBlock_cidrText {base len : Nat} (hlen : len ≤ 32) :
    routeBlock (cidrText (base, len)) = some (base % 2 ^ 32, len) := by
  have htrim : trim (ofNat len) = ofNat len := trimBy_eq fun c hc => not_whitespace_ofNat hc
  rw [routeBlock, split_cidrText]
  simp only [trim_longToIpv4, ipv4ToLong_longToIpv4, htrim, toIntOrNull_ofNat (by omega : len < 2 ^ 31),
    Option.bind_some]
  rw [if_neg (by omega)]
  simp

/-- The source's loop is the halving loop. -/
theorem splitDown_eq (target base : Nat) {len : Nat} (hlen : len ≤ 32) :
    splitDown target base len = (bisect target (32 - len) base).map fun c => (c.1, 32 - c.2) := by
  obtain ⟨n, hn⟩ : ∃ n, n = 32 - len := ⟨_, rfl⟩
  induction n generalizing base len with
  | zero =>
    rw [splitDown, if_neg (by omega), ← hn]
    rfl
  | succ n ih =>
    have hnext : 32 - (len + 1) = n := by omega
    have hcur : len + 1 = 32 - n := by omega
    rw [splitDown, if_pos (by omega), ← hn, bisect]
    simp only [Nat.add_sub_cancel, Nat.shiftLeft_eq, Nat.one_mul]
    split
    · rw [ih base (by omega) hnext.symm, hnext, List.map_cons, hcur]
    · rw [ih (base + 2 ^ n) (by omega) hnext.symm, hnext, List.map_cons, hcur]

/-- What the loop's prefixes cover. -/
theorem splitDown_covers {target base len a : Nat} (hlen : len ≤ 32) (ha : a < 2 ^ 32)
    (hblock : base / 2 ^ (32 - len) = target / 2 ^ (32 - len)) :
    coversAny ((splitDown target base len).map cidrText) a = true ↔ Left 32 target base (32 - len) a := by
  have hnear : target - base < 2 ^ (32 - len) := by
    have h1 := Nat.div_add_mod base (2 ^ (32 - len))
    have h2 := Nat.div_add_mod target (2 ^ (32 - len))
    have h3 := Nat.mod_lt target (Nat.two_pow_pos (32 - len))
    rw [hblock] at h1
    omega
  have one : ∀ e j, j < 32 - len → (covers (cidrText (e, 32 - j)) a = true ↔ a / 2 ^ j = e % 2 ^ 32 / 2 ^ j) := by
    intro e j hj
    rw [covers, routeBlock_cidrText (by omega)]
    simp only
    rw [subnetCovers_iff (Nat.mod_lt _ (by decide)) ha (by omega), show 32 - (32 - j) = j by omega]
  rw [splitDown_eq _ _ hlen, coversAny, List.any_eq_true]
  simp only [List.map_map, List.mem_map, Function.comp_apply]
  constructor
  · rintro ⟨r, ⟨⟨e, j⟩, hmem, rfl⟩, hcov⟩
    obtain ⟨hj, rfl⟩ := (mem_bisect hnear).mp hmem
    exact ⟨j, hj, (one _ _ hj).mp hcov⟩
  · rintro ⟨j, hj, hcov⟩
    exact ⟨_, ⟨(leftBehind target base j, j), (mem_bisect hnear).mpr ⟨hj, rfl⟩, rfl⟩, (one _ _ hj).mpr hcov⟩

/-- A route that names no block is kept. -/
theorem excludeEntry_none {r : Str} (target : Nat) (h : routeBlock r = none) : excludeEntry target r = [r] := by
  by_cases hpair : ∃ p0 p1, split '/' r = [p0, p1]
  · obtain ⟨p0, p1, hs⟩ := hpair
    simp only [routeBlock, hs] at h
    simp only [excludeEntry, hs]
    cases hb : ipv4ToLong (trim p0) with
    | none => rfl
    | some base =>
      cases hl : toIntOrNull (trim p1) with
      | none => rfl
      | some len =>
        simp only [hb, hl, Option.bind_some] at h
        split at h
        · rename_i hrange; simp only [if_pos hrange]
        · cases h
  · unfold excludeEntry
    split
    · rename_i p0 p1 hs; exact absurd ⟨p0, p1, hs⟩ hpair
    · rfl

/-- What becomes of a route that names a block. -/
theorem excludeEntry_some {r : Str} {target base len : Nat} (h : routeBlock r = some (base, len)) :
    excludeEntry target r =
      if len = 32 then (if base ≠ target then [r] else [])
      else if !subnetCovers base len target then [r]
      else (splitDown target base len).map cidrText := by
  by_cases hpair : ∃ p0 p1, split '/' r = [p0, p1]
  · obtain ⟨p0, p1, hs⟩ := hpair
    simp only [routeBlock, hs] at h
    obtain ⟨b, hb, h⟩ := Option.bind_eq_some_iff.mp h
    obtain ⟨l, hl, h⟩ := Option.bind_eq_some_iff.mp h
    split at h
    · cases h
    · rename_i hrange
      simp only [Option.some.injEq, Prod.mk.injEq] at h
      obtain ⟨rfl, rfl⟩ := h
      have h32 : (l = 32) ↔ l.toNat = 32 := by omega
      simp only [excludeEntry, hs, hb, hl, if_neg hrange, h32]
  · unfold routeBlock at h
    split at h
    · rename_i p0 p1 hs; exact absurd ⟨p0, p1, hs⟩ hpair
    · cases h

theorem coversAny_singleton (r : Str) (a : Nat) : coversAny [r] a = covers r a := by
  simp [coversAny]

/-- One entry is carved exactly when it is clean for the carved address. -/
theorem entry_exact_iff {target : Nat} (ht : target < 2 ^ 32) (r : Str) :
    (∀ a, a < 2 ^ 32 → (coversAny (excludeEntry target r) a = true ↔ covers r a = true ∧ a ≠ target)) ↔
      CleanFor target r := by
  cases hr : routeBlock r with
  | none =>
    have hcov : ∀ a, covers r a = false := fun a => by rw [covers, hr]
    constructor
    · intro _ base len h
      rw [hr] at h; cases h
    · intro _ a _
      rw [excludeEntry_none target hr, coversAny_singleton, hcov a]
      simp
  | some block =>
    obtain ⟨base, len⟩ := block
    obtain ⟨hb, hlen⟩ := routeBlock_bounds hr
    have hcov : ∀ a, covers r a = subnetCovers base len a := fun a => by rw [covers, hr]
    have hclean : CleanFor target r ↔ (subnetCovers base len target = true →
        base % 2 ^ (32 - len) = 0 ∨ (len = 0 ∧ base = 2 ^ 31 ∧ 2 ^ 31 ≤ target)) := by
      constructor
      · intro h; exact h base len hr
      · intro h b l hbl
        rw [hr] at hbl; cases hbl; exact h
    rw [hclean, excludeEntry_some hr]
    by_cases h32 : len = 32
    · -- a host route is dropped or kept
      subst h32
      have heq : ∀ a, a < 2 ^ 32 → (subnetCovers base 32 a = true ↔ a = base) := fun a ha => by
        rw [subnetCovers_iff hb ha (Nat.le_refl _)]; simp
      constructor
      · intro _ _; exact .inl (by simp [Nat.mod_one])
      · intro _ a ha
        rw [if_pos rfl, hcov a, heq a ha]
        split
        · rename_i hne
          rw [coversAny_singleton, hcov a, heq a ha]
          exact ⟨fun e => ⟨e, fun h => hne (e ▸ h)⟩, And.left⟩
        · rename_i he
          rw [not_not] at he
          subst he
          simp [coversAny]
    · rw [if_neg h32]
      by_cases hin : subnetCovers base len target = true
      · -- the entry is split down from its literal base
        have hblock : base / 2 ^ (32 - len) = target / 2 ^ (32 - len) :=
          ((subnetCovers_iff hb ht hlen).mp hin).symm
        have hcarve : ∀ a, a < 2 ^ 32 → ((coversAny ((splitDown target base len).map cidrText) a = true ↔
            covers r a = true ∧ a ≠ target) ↔ (Left 32 target base (32 - len) a ↔
            a / 2 ^ (32 - len) = target / 2 ^ (32 - len) ∧ a ≠ target)) := fun a ha => by
          rw [splitDown_covers hlen ha hblock, hcov a, subnetCovers_iff hb ha hlen, hblock]
        rw [hin]
        simp only [Bool.not_true, Bool.false_eq_true, if_false, forall_const]
        rw [forall₂_congr hcarve]
        by_cases h0 : len = 0
        · subst h0
          have hwhole := left_whole (m := 31) ht hb
          simp only [Nat.sub_zero, true_and]
          have hmod : base % 2 ^ 32 = 0 ↔ base = 0 := by rw [Nat.mod_eq_of_lt hb]
          rw [hmod, ← hwhole]
          refine forall₂_congr fun a ha => ?_
          rw [Nat.div_eq_of_lt ha, Nat.div_eq_of_lt ht]
          simp
        · constructor
          · intro h
            refine .inl ?_
            by_contra hmis
            exact left_misaligned (by omega : 32 - len < 32) ht hblock hmis h
          · rintro (halign | ⟨hz, _⟩) a _
            · exact left_aligned (by omega) ht hblock halign a
            · exact absurd hz h0
      · -- the entry does not cover the address and is kept
        constructor
        · intro _ h; exact absurd h hin
        · intro _ a _
          rw [Bool.not_eq_true] at hin
          rw [hin, hcov a]
          simp only [Bool.not_false, if_true]
          rw [coversAny_singleton, hcov a]
          exact ⟨fun h => ⟨h, fun e => by rw [e, hin] at h; cases h⟩, And.left⟩

theorem excludeIpv4_some {ip : Str} {target : Nat} (h : ipv4ToLong ip = some target) (routes : List Str) :
    excludeIpv4 routes ip = routes.flatMap (excludeEntry target) := by
  rw [excludeIpv4, h]

theorem coversAny_flatMap (routes : List Str) (f : Str → List Str) (a : Nat) :
    coversAny (routes.flatMap f) a = true ↔ ∃ r ∈ routes, coversAny (f r) a = true := by
  simp only [coversAny, List.any_eq_true, List.mem_flatMap]
  constructor
  · rintro ⟨s, ⟨r, hr, hs⟩, h⟩; exact ⟨r, hr, s, hs, h⟩
  · rintro ⟨r, hr, s, hs, h⟩; exact ⟨s, ⟨r, hr, hs⟩, h⟩

/-- A list of clean routes is carved exactly. -/
theorem carvesOut_of_clean {routes : List Str} {ip : Str} {target : Nat} (h : ipv4ToLong ip = some target)
    (hclean : ∀ r ∈ routes, CleanFor target r) : CarvesOut routes ip target := by
  intro a ha
  rw [excludeIpv4_some h, coversAny_flatMap]
  have entry : ∀ r ∈ routes, (coversAny (excludeEntry target r) a = true ↔ covers r a = true ∧ a ≠ target) :=
    fun r hr => (entry_exact_iff (ipv4ToLong_lt h) r).mpr (hclean r hr) a ha
  constructor
  · rintro ⟨r, hr, hcov⟩
    obtain ⟨hcov, hne⟩ := (entry r hr).mp hcov
    exact ⟨List.any_eq_true.mpr ⟨r, hr, hcov⟩, hne⟩
  · rintro ⟨hcov, hne⟩
    obtain ⟨r, hr, hcov⟩ := List.any_eq_true.mp hcov
    exact ⟨r, hr, (entry r hr).mpr ⟨hcov, hne⟩⟩

/-- A one-route list is carved exactly when the route is clean. -/
theorem carvesOut_singleton {ip : Str} {target : Nat} (h : ipv4ToLong ip = some target) (r : Str) :
    CarvesOut [r] ip target ↔ CleanFor target r := by
  rw [← entry_exact_iff (ipv4ToLong_lt h) r, CarvesOut]
  refine forall₂_congr fun a _ => ?_
  rw [excludeIpv4_some h, coversAny_flatMap, coversAny_singleton]
  simp

/-- **The carve-out.** Entry by entry, `excludeIpv4` covers what the route covered less
the address exactly for clean routes; a list of clean routes is carved exactly. -/
theorem excludeIpv4_carves_iff (routes : List Str) (ip : Str) (target : Nat)
    (h : ipv4ToLong ip = some target) :
    ((∀ r ∈ routes, CarvesOut [r] ip target) ↔ ∀ r ∈ routes, CleanFor target r) ∧
      ((∀ r ∈ routes, CleanFor target r) → CarvesOut routes ip target) :=
  ⟨forall₂_congr fun r _ => carvesOut_singleton h r, carvesOut_of_clean h⟩

/-- `8.8.8.8` out of the default route. -/
theorem excludeIpv4_carves_default :
    ((∀ r ∈ ["0.0.0.0/0".toList], CarvesOut [r] "8.8.8.8".toList 134744072) ↔
        ∀ r ∈ ["0.0.0.0/0".toList], CleanFor 134744072 r) ∧
      ((∀ r ∈ ["0.0.0.0/0".toList], CleanFor 134744072 r) →
        CarvesOut ["0.0.0.0/0".toList] "8.8.8.8".toList 134744072) :=
  excludeIpv4_carves_iff ["0.0.0.0/0".toList] "8.8.8.8".toList 134744072 (by decide)

/-- The shipped route `27.36.0.0/13` has host bits: carving `27.36.0.1` out of it loses
`27.32.0.0/14` and adds `27.40.0.0/14`. -/
theorem excludeIpv4_shipped_unaligned :
    "27.36.0.0/13".toList ∈ simpleRoute ∧ ipv4ToLong "27.36.0.1".toList = some 455344129 ∧
      ¬ CarvesOut ["27.36.0.0/13".toList] "27.36.0.1".toList 455344129 := by
  refine ⟨by decide, by decide, fun h => ?_⟩
  have hclean := (carvesOut_singleton (by decide) _).mp h 455344128 13 (by decide) (by decide)
  exact absurd hclean (by decide)

end KiloProxy.Util.Routes
