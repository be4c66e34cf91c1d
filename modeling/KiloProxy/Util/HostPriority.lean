import KiloProxy.Util.CountrySwitch

/-!
# Host against username in `detectType`

The comment of `ProxyProviders` gives the host priority over the username markers. The
tests run provider by provider, though, each on the host or the username: a marker of a
provider tested earlier wins over the host of a later one, and nothing else does.
-/

namespace KiloProxy.Util.ProxyProviders
set_option autoImplicit false
open KiloProxy.Text

/-- The gateway domains, with the provider each belongs to. -/
def gateways : List (Str × ProviderType) :=
  [("owlproxy.com".toList, .owl), ("rapidproxy.io".toList, .rapid), ("cliproxy.io".toList, .clip),
    ("ipdeep.com".toList, .ipdeep)]

/-- The host is the domain or lies under it, in any case and with spaces around it. -/
def HostUnder (host domain : Str) : Prop :=
  lowercase (trim host) = domain ∨ ∃ sub, lowercase (trim host) = sub ++ '.' :: domain

/-- The username half of the provider's test. -/
def hasMarker (username : Str) : ProviderType → Bool
  | .owl => decide (zoneMark <:+: username)
  | .rapid => matchesMark residentialMark username
  | .clip => matchesMark regionMark username
  | .ipdeep => matchesMark resCountryMark username
  | .generic => (genericParts username).isSome
  | .custom => true

/-- The providers `detectType` tests before this one. -/
def testedBefore : ProviderType → List ProviderType
  | .owl => []
  | .rapid => [.owl]
  | .clip => [.owl, .rapid]
  | .ipdeep => [.owl, .rapid, .clip]
  | .generic => [.owl, .rapid, .clip, .ipdeep]
  | .custom => [.owl, .rapid, .clip, .ipdeep, .generic]

/-- The test for a domain: the host is the domain, or a name under it. -/
theorem hostEndsWith_iff {host domain : Str} : hostEndsWith host domain = true ↔ HostUnder host domain := by
  rw [hostEndsWith, Bool.or_eq_true, beq_iff_eq, endsWith, List.isSuffixOf_iff_suffix]
  constructor
  · rintro (heq | ⟨sub, hsub⟩)
    · exact .inl heq
    · exact .inr ⟨sub, hsub.symm⟩
  · rintro (heq | ⟨sub, hsub⟩)
    · exact .inl heq
    · exact .inr ⟨sub, hsub.symm⟩

/-- Either way the domain ends the host. -/
theorem HostUnder.suffix {host domain : Str} (h : HostUnder host domain) : domain <:+ lowercase (trim host) := by
  rcases h with heq | ⟨sub, hsub⟩
  · rw [heq]
  · exact ⟨sub ++ ['.'], by rw [hsub]; simp⟩

/-- No gateway domain ends another one. -/
theorem gateways_apart : ∀ a ∈ gateways, ∀ b ∈ gateways, a.1 <:+ b.1 → a = b := by decide +kernel

/-- A host lies under one gateway domain at most. -/
theorem HostUnder.only {host : Str} {a b : Str × ProviderType} (ha : a ∈ gateways) (hb : b ∈ gateways)
    (hosta : HostUnder host a.1) (hostb : HostUnder host b.1) : a = b := by
  rcases le_total a.1.length b.1.length with hlen | hlen
  · exact gateways_apart a ha b hb (List.suffix_of_suffix_length_le hosta.suffix hostb.suffix hlen)
  · exact (gateways_apart b hb a ha (List.suffix_of_suffix_length_le hostb.suffix hosta.suffix hlen)).symm

/-- Under one gateway domain the host half of every other test fails. -/
theorem HostUnder.others {host domain : Str} {type : ProviderType} (hgate : (domain, type) ∈ gateways)
    (hhost : HostUnder host domain) {other : Str × ProviderType} (hother : other ∈ gateways)
    (hne : other.2 ≠ type) : hostEndsWith host other.1 = false := by
  rw [← Bool.not_eq_true, hostEndsWith_iff]
  intro hunder
  have hsame := HostUnder.only hother hgate hunder hhost
  exact hne (by rw [hsame])

/-- **Host priority.** Under a gateway domain the type is that domain's provider exactly
when the username carries no marker of a provider tested earlier. -/
theorem host_decides_iff (host username domain : Str) (type : ProviderType) (hgate : (domain, type) ∈ gateways)
    (hhost : HostUnder host domain) :
    detectType host username = type ↔ ∀ earlier ∈ testedBefore type, hasMarker username earlier = false := by
  have hhere := hostEndsWith_iff.mpr hhost
  have hothers : ∀ other ∈ gateways, other.2 ≠ type → hostEndsWith host other.1 = false :=
    fun _ hother hne => HostUnder.others hgate hhost hother hne
  simp only [gateways, List.mem_cons, Prod.mk.injEq, List.not_mem_nil, or_false] at hgate
  rcases hgate with ⟨rfl, rfl⟩ | ⟨rfl, rfl⟩ | ⟨rfl, rfl⟩ | ⟨rfl, rfl⟩
  · rw [detectType_owl, isOwl, hhere, Bool.true_or]
    simp only [testedBefore, List.not_mem_nil, false_implies, implies_true]
  · have howl := hothers ("owlproxy.com".toList, .owl) (by simp [gateways]) (by decide)
    rw [detectType_rapid, isOwl, isRapid, hhere, howl]
    simp only [Bool.false_or, Bool.true_or, and_true, testedBefore, List.forall_mem_singleton, hasMarker]
  · have howl := hothers ("owlproxy.com".toList, .owl) (by simp [gateways]) (by decide)
    have hrapid := hothers ("rapidproxy.io".toList, .rapid) (by simp [gateways]) (by decide)
    rw [detectType_clip, isOwl, isRapid, isClip, hhere, howl, hrapid]
    simp only [Bool.false_or, Bool.true_or, testedBefore, List.forall_mem_cons, hasMarker, List.not_mem_nil,
      false_implies, implies_true, and_true]
  · have howl := hothers ("owlproxy.com".toList, .owl) (by simp [gateways]) (by decide)
    have hrapid := hothers ("rapidproxy.io".toList, .rapid) (by simp [gateways]) (by decide)
    have hclip := hothers ("cliproxy.io".toList, .clip) (by simp [gateways]) (by decide)
    rw [detectType_ipdeep, isOwl, isRapid, isClip, isIpDeep, hhere, howl, hrapid, hclip]
    simp only [Bool.false_or, Bool.true_or, testedBefore, List.forall_mem_cons, hasMarker, List.not_mem_nil,
      false_implies, implies_true, and_true]

/-- A Rapid gateway with spaces and capitals, and a plain username. -/
theorem host_decides_rapid :
    detectType " Gate.RapidProxy.io ".toList "user".toList = .rapid ↔
      ∀ earlier ∈ testedBefore .rapid, hasMarker "user".toList earlier = false :=
  host_decides_iff _ _ "rapidproxy.io".toList .rapid (by simp [gateways])
    (.inr ⟨"gate".toList, by decide +kernel⟩)

/-- An Owl marker in the username of a Rapid gateway. -/
theorem owl_marker_wins : ("rapidproxy.io".toList, .rapid) ∈ gateways ∧
    HostUnder "gate.rapidproxy.io".toList "rapidproxy.io".toList ∧
    detectType "gate.rapidproxy.io".toList "u_custom_zone_us".toList = .owl :=
  ⟨by simp [gateways], .inr ⟨"gate".toList, by decide +kernel⟩, by decide +kernel⟩

end KiloProxy.Util.ProxyProviders
