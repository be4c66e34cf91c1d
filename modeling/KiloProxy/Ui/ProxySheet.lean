import KiloProxy.Util.UsernameCodec

/-!
# `AddEditProxySheet`

What the sheet reads out of a username. A username made by one of the builders, over a
base that holds no marker, gives back what was built in.
-/

namespace KiloProxy.Ui
set_option autoImplicit false
open KiloProxy.Text KiloProxy.Util KiloProxy.Util.ProxyProviders

/-- The state of the sheet that `detectFromUsername` reads and writes. -/
structure AddEditProxySheet where
  provider : Str
  isEdit : Bool
  nameTouched : Bool
  syncing : Bool
  name : Str
  host : Str
  proxyType : ProviderType
  selectedCountry : Option Str
  owlMode : Str
  owlTime : Int
  ipdeepMode : Str
  ipdeepTime : Int
deriving DecidableEq, Repr

/-- `freshProfileName` on the names that have a profile; one number more than there are
names is always free. -/
def freshProfileName (mProfiles : List Str) (base : Str) : Str :=
  let numbered (n : Nat) : Str := base ++ ' ' :: ofNat n
  let free := (List.range mProfiles.length).find? fun k => numbered (k + 1) ∉ mProfiles
  numbered (free.getD mProfiles.length + 1)

def detectFromUsername (mProfiles : List Str) (sheet : AddEditProxySheet) (newVal : Str) : AddEditProxySheet :=
  if sheet.syncing then sheet
  else
    let t := if sheet.provider = "owl".toList then .owl else detectType sheet.host newVal
    let cc := parseCountry newVal t
    let sheet := { sheet with
      proxyType := t
      selectedCountry := cc.bind fun code => Countries.codes.find? fun c => uppercase c = uppercase code }
    let sheet :=
      if t = .owl then
        match findLazy zoneMark newVal with
        | none => sheet
        | some owlMatch =>
          match findDigits timeMark owlMatch.2.2 with
          | some time => { sheet with owlMode := "sticky".toList, owlTime := (toIntOrNull time).getD 5 }
          | none => { sheet with owlMode := "unique".toList }
      else sheet
    let sheet :=
      if t = .ipdeep then
        if isIpDeepSticky newVal then
          { sheet with ipdeepMode := "sticky".toList, ipdeepTime := (parseIpDeepTime newVal).getD 5 }
        else { sheet with ipdeepMode := "unique".toList }
      else sheet
    if !sheet.isEdit && !sheet.nameTouched && sheet.proxyType ≠ .custom then
      { sheet with name := freshProfileName mProfiles (label sheet.proxyType) }
    else sheet

/-! ## The builders -/

/-- A call of one of the builders; `drawn` is the session number it would draw. -/
inductive Build where
  | buildUsername (type : ProviderType) (mode : Str) (time : Int) (separator : Char) (upper : Bool) (drawn : Nat)
  | buildIpDeep (mode : Str) (time : Int) (sessionId : Option Str) (drawn : Nat)

namespace Build

def username (base cc : Str) : Build → Option Str
  | buildUsername type mode time separator upper drawn =>
    ProxyProviders.buildUsername base type cc mode time [separator] upper drawn
  | buildIpDeep mode time sessionId drawn => some (ProxyProviders.buildIpDeep base cc mode time sessionId drawn)

def type : Build → ProviderType
  | buildUsername type _ _ _ _ _ => type
  | buildIpDeep _ _ _ _ => .ipdeep

/-- Whether a session is built in, with its minutes. -/
def sticky : Build → Option Int
  | buildUsername .owl mode time _ _ _ => if mode = "sticky".toList then some time else none
  | buildUsername _ _ _ _ _ _ => none
  | buildIpDeep mode time _ _ => if mode = "sticky".toList then some time else none

/-- The session id that is built in. -/
def session : Build → Option Str
  | buildUsername _ _ _ _ _ _ => none
  | buildIpDeep mode _ sessionId drawn => if mode = "sticky".toList then some (sessionId.getD (ofNat drawn)) else none

/-- A positive `Int` of minutes, a numeric session id, and one of the separators that
`genericParts` knows. -/
def Proper : Build → Prop
  | buildUsername _ _ time separator _ _ => 0 < time ∧ time < 2 ^ 31 ∧ (separator = '-' ∨ separator = '_')
  | buildIpDeep _ time sessionId _ =>
    0 < time ∧ time < 2 ^ 31 ∧ ∀ sid ∈ sessionId, sid ≠ [] ∧ ∀ c ∈ sid, isDigit c = true

end Build

/-- `sticky` or `unique`. -/
def modeOf (sticky : Option Int) : Str := if sticky.isSome then "sticky".toList else "unique".toList

/-- What is read back of the username of a builder. -/
structure ReadsBack (mProfiles : List Str) (host base cc : Str) (b : Build) (u : Str) : Prop where
  detected : detectType host u = b.type
  country : (parseCountry u b.type).map uppercase = some cc
  extracted : extractBase u b.type = some base
  owlMode : b.type = .owl → ∀ sheet : AddEditProxySheet, sheet.syncing = false → sheet.host = host →
    (detectFromUsername mProfiles sheet u).proxyType = .owl ∧
    (detectFromUsername mProfiles sheet u).owlMode = modeOf b.sticky ∧
    (detectFromUsername mProfiles sheet u).owlTime = b.sticky.getD sheet.owlTime
  ipdeepMode : b.type = .ipdeep → ∀ sheet : AddEditProxySheet, sheet.syncing = false → sheet.host = host →
    sheet.provider ≠ "owl".toList →
    (detectFromUsername mProfiles sheet u).proxyType = .ipdeep ∧
    (detectFromUsername mProfiles sheet u).ipdeepMode = modeOf b.sticky ∧
    (detectFromUsername mProfiles sheet u).ipdeepTime = b.sticky.getD sheet.ipdeepTime
  session : b.type = .ipdeep → ipdeepSessionId u = b.session
  generic : ∀ mode time separator upper drawn, b = .buildUsername .generic mode time separator upper drawn →
    genericParts u = some ⟨base, [separator], upper, cc⟩

/-! ## What the sheet takes over -/

section Detect

variable (mProfiles : List Str) {sheet : AddEditProxySheet} {u : Str} (hsync : sheet.syncing = false)
include hsync

/-- An Owl username fills in the mode and the time it was built with. -/
theorem detect_owl (htype : detectType sheet.host u = .owl) {base cc tail : Str}
    (hfind : findLazy zoneMark u = some (base, cc, tail)) :
    (detectFromUsername mProfiles sheet u).proxyType = .owl ∧
    (detectFromUsername mProfiles sheet u).owlMode =
      modeOf ((findDigits timeMark tail).map fun ds => (toIntOrNull ds).getD 5) ∧
    (detectFromUsername mProfiles sheet u).owlTime =
      ((findDigits timeMark tail).map fun ds => (toIntOrNull ds).getD 5).getD sheet.owlTime := by
  have ht : (if sheet.provider = "owl".toList then ProviderType.owl else detectType sheet.host u) = .owl := by
    rw [htype, ite_self]
  simp only [detectFromUsername, hsync, ht, hfind]
  cases findDigits timeMark tail with
  | none => split_ifs <;> simp [modeOf] at *
  | some ds => split_ifs <;> simp [modeOf] at *

/-- An IpDeep username fills in the mode and the time it was built with. -/
theorem detect_ipdeep (htype : detectType sheet.host u = .ipdeep) (hprovider : sheet.provider ≠ "owl".toList) :
    (detectFromUsername mProfiles sheet u).proxyType = .ipdeep ∧
    (detectFromUsername mProfiles sheet u).ipdeepMode =
      modeOf ((ipdeepSessionId u).map fun _ => (parseIpDeepTime u).getD 5) ∧
    (detectFromUsername mProfiles sheet u).ipdeepTime =
      ((ipdeepSessionId u).map fun _ => (parseIpDeepTime u).getD 5).getD sheet.ipdeepTime := by
  have hid : ipdeepSessionId u = findDigits sessionMark u := rfl
  simp only [detectFromUsername, hsync, if_neg hprovider, htype, isIpDeepSticky, hid]
  cases findDigits sessionMark u with
  | none => split_ifs <;> simp [modeOf] at *
  | some sid => split_ifs <;> simp [modeOf] at *

end Detect

/-! ## The round trip -/

/-- The minutes of a session as they are printed. -/
theorem time_digits {time : Int} (h : 0 < time ∧ time < 2 ^ 31) :
    ofInt time ≠ [] ∧ (∀ c ∈ ofInt time, isDigit c = true) ∧ toIntOrNull (ofInt time) = some time := by
  obtain ⟨n, rfl⟩ := Int.eq_ofNat_of_zero_le h.1.le
  have hn : n < 2 ^ 31 := by
    have := h.2
    omega
  exact ⟨ofNat_ne_nil n, isDigit_ofNat n, toIntOrNull_ofNat hn⟩

section RoundTrip

variable (mProfiles : List Str) {host base cc : Str} (hhost : Unrelated host) (hbase : PlainBase base)
  (hcc : cc ∈ Countries.codes)
include hhost hbase hcc

omit hhost in
/-- The Owl builder is read back. -/
theorem owl_back (mode : Str) {time : Int} (htime : 0 < time ∧ time < 2 ^ 31) (separator : Char) (upper : Bool)
    (drawn : Nat) :
    ReadsBack mProfiles host base cc (.buildUsername .owl mode time separator upper drawn)
      (base ++ (zoneMark ++ (lowercase cc ++ owlTail mode time drawn))) := by
  obtain ⟨_, hul, _, x, y, hxy, hx, hy, _⟩ := code_cases hcc
  obtain ⟨hne, hds, hread⟩ := time_digits htime
  have hfind := owl_reads hbase hx hy (owlTail_oneLine hds mode drawn)
  have htype := owl_detected host base (x :: y :: owlTail mode time drawn)
  have hsticky : ((findDigits timeMark (owlTail mode time drawn)).map fun ds => (toIntOrNull ds).getD 5) =
      (Build.buildUsername .owl mode time separator upper drawn).sticky := by
    rw [owlTail_digits hne hds, Build.sticky]
    split
    · rw [Option.map_some, hread, Option.getD_some]
    · rfl
  rw [hxy] at hul ⊢
  refine ⟨htype, ?_, ?_, ?_, ?_, ?_, ?_⟩
  · rw [Build.type, parseCountry, List.cons_append, List.cons_append, List.nil_append, hfind, Option.map_some,
      Option.map_some, hul]
  · rw [Build.type, extractBase, List.cons_append, List.cons_append, List.nil_append, hfind, Option.map_some]
  · rintro _ sheet hsync rfl
    rw [← hsticky]
    exact detect_owl mProfiles hsync htype hfind
  · intro h; cases h
  · intro h; cases h
  · intro _ _ _ _ _ h; cases h

omit hhost in
/-- Rapid and Clip: two capitals at the end, no session. -/
theorem ending_back {b : Build} {mark : Str} (hne : mark ≠ []) (hline : OneLine mark)
    (hdetect : ∀ x y, isLetter x = true → isLetter y = true → detectType host (base ++ (mark ++ [x, y])) = b.type)
    (hparse : ∀ u, parseCountry u b.type = (findGreedy mark u).map (·.2.1))
    (hextract : ∀ u, extractBase u b.type = (findGreedy mark u).map (·.1)) (hb : b.type = .rapid ∨ b.type = .clip) :
    ReadsBack mProfiles host base cc b (base ++ (mark ++ uppercase cc)) := by
  obtain ⟨hup, _, ⟨x, y, hxy, hx, hy⟩, _⟩ := code_cases hcc
  have hfind : findGreedy mark (base ++ (mark ++ [x, y])) = some (base, [x, y], []) :=
    ending_reads hbase hx hy hne hline
  have hother : b.type ≠ .owl ∧ b.type ≠ .ipdeep ∧ b.type ≠ .generic := by
    rcases hb with hb | hb <;> rw [hb] <;> decide
  rw [hup, hxy]
  refine ⟨hdetect x y hx hy, ?_, ?_, fun h => absurd h hother.1, fun h => absurd h hother.2.1,
    fun h => absurd h hother.2.1, ?_⟩
  · rw [hparse, hfind, Option.map_some, Option.map_some, ← hxy, hup]
  · rw [hextract, hfind, Option.map_some]
  · rintro _ _ _ _ _ rfl
    exact absurd rfl hother.2.2

theorem rapid_back (mode : Str) (time : Int) (separator : Char) (upper : Bool) (drawn : Nat) :
    ReadsBack mProfiles host base cc (.buildUsername .rapid mode time separator upper drawn)
      (base ++ (residentialMark ++ uppercase cc)) :=
  ending_back mProfiles hbase hcc (by decide) (by decide +kernel)
    (fun _ _ hx hy => rapid_detected hbase hx hy hhost) (fun _ => rfl) (fun _ => rfl) (.inl rfl)

theorem clip_back (mode : Str) (time : Int) (separator : Char) (upper : Bool) (drawn : Nat) :
    ReadsBack mProfiles host base cc (.buildUsername .clip mode time separator upper drawn)
      (base ++ (regionMark ++ uppercase cc)) :=
  ending_back mProfiles hbase hcc (by decide) (by decide +kernel)
    (fun _ _ hx hy => clip_detected hbase hx hy hhost) (fun _ => rfl) (fun _ => rfl) (.inr rfl)

/-- IpDeep, over what is found of a session behind the country. -/
theorem ipdeep_back {b : Build} {tail : Str} (hb : b.type = .ipdeep) (htail : SessionTail tail)
    (hid : findDigits sessionMark tail = b.session)
    (hsticky : ((findDigits sessionMark tail).map fun _ =>
      ((findDigits sessionTimeMark tail).bind toIntOrNull).getD 5) = b.sticky) :
    ReadsBack mProfiles host base cc b (base ++ (resCountryMark ++ (lowercase cc ++ tail))) := by
  obtain ⟨_, hul, _, x, y, hxy, hx, hy, _⟩ := code_cases hcc
  have hfind := ipdeep_reads hbase hx hy htail
  have htype := ipdeep_detected hbase hx hy htail hhost
  have hsession : ipdeepSessionId (base ++ (resCountryMark ++ x :: y :: tail)) = findDigits sessionMark tail :=
    session_skip hbase hx hy (.inl rfl) htail.head
  have htime : parseIpDeepTime (base ++ (resCountryMark ++ x :: y :: tail)) =
      (findDigits sessionTimeMark tail).bind toIntOrNull := by
    rw [parseIpDeepTime, session_skip hbase hx hy (.inr rfl) htail.head]
  rw [hxy] at hul ⊢
  refine ⟨htype.trans hb.symm, ?_, ?_, fun h => ?_, ?_, fun _ => hsession.trans hid, ?_⟩
  · rw [hb, parseCountry, List.cons_append, List.cons_append, List.nil_append, hfind, Option.map_some,
      Option.map_some, hul]
  · rw [hb, extractBase, List.cons_append, List.cons_append, List.nil_append, hfind, Option.map_some]
  · rw [hb] at h; cases h
  · rintro _ sheet hsync rfl hprovider
    have hsheet := detect_ipdeep mProfiles hsync htype hprovider
    rw [hsession, htime, hsticky] at hsheet
    exact hsheet
  · rintro _ _ _ _ _ rfl
    cases hb

/-- The generic builder is read back. -/
theorem generic_back (mode : Str) (time : Int) {separator : Char} (hsep : separator = '-' ∨ separator = '_')
    (upper : Bool) (drawn : Nat) :
    ReadsBack mProfiles host base cc (.buildUsername .generic mode time separator upper drawn)
      (base ++ ([separator] ++ if upper then uppercase cc else lowercase cc)) := by
  obtain ⟨hup, hul, ⟨x, y, hxy, hx, hy⟩, x', y', hxy', hx', hy', _⟩ := code_cases hcc
  obtain ⟨hcap, hlow⟩ := code_upper cc hcc
  -- the code as it is written
  obtain ⟨v, w, hvw, hv, hw, hcode, hcase⟩ : ∃ v w, (if upper then uppercase cc else lowercase cc) = [v, w] ∧
      isLetter v = true ∧ isLetter w = true ∧ uppercase [v, w] = cc ∧ [v, w].all isUpperAscii = upper := by
    cases upper with
    | true => exact ⟨x, y, hup.trans hxy, hx, hy, by rw [← hxy, hup], by rw [← hxy, ← hup]; exact hcap⟩
    | false => exact ⟨x', y', hxy', hx', hy', by rw [← hxy', hul], by rw [← hxy']; exact hlow⟩
  have hmem : uppercase [v, w] ∈ Countries.codes := by rw [hcode]; exact hcc
  have hread : genericParts (base ++ ([separator] ++ [v, w])) = some ⟨base, [separator], upper, cc⟩ := by
    have hparts := generic_reads hbase hsep hv hw hmem
    rw [hcase, hcode] at hparts
    exact hparts
  rw [hvw]
  refine ⟨generic_detected hbase hsep hv hw hmem hhost, ?_, ?_, ?_, ?_, ?_, ?_⟩
  · rw [Build.type, parseCountry, hread, Option.map_some, Option.map_some, hup]
  · rw [Build.type, extractBase, hread, Option.map_some]
  · intro h; cases h
  · intro h; cases h
  · intro h; cases h
  · intro _ _ _ _ _ h
    cases h
    exact hread

end RoundTrip

/-- A builder that builds `u`, and what that gives back. -/
theorem built {mProfiles : List Str} {host base cc u : Str} {b : Build} (hu : b.username base cc = some u)
    (htype : b.type ≠ .custom) (hback : ReadsBack mProfiles host base cc b u) :
    (b.username base cc = none ↔ b.type = .custom) ∧
      ∀ v, b.username base cc = some v → ReadsBack mProfiles host base cc b v := by
  constructor
  · constructor
    · intro hnone
      rw [hu] at hnone; cases hnone
    · intro hcustom
      exact absurd hcustom htype
  · intro v hv
    obtain rfl := Option.some.inj (hu.symm.trans hv)
    exact hback

/-- **What is built into a username is read back**, for every builder, code and base
without a marker. Only the custom type builds nothing. -/
theorem builders_round_trip (mProfiles : List Str) {host base cc : Str} (hhost : Unrelated host) (hbase : PlainBase base)
    (hcc : cc ∈ Countries.codes) {b : Build} (hb : b.Proper) :
    (b.username base cc = none ↔ b.type = .custom) ∧
      ∀ u, b.username base cc = some u → ReadsBack mProfiles host base cc b u := by
  cases b with
  | buildUsername type mode time separator upper drawn =>
    obtain ⟨hpos, hmax, hsep⟩ := hb
    cases type with
    | owl =>
      exact built (buildUsername_owl base cc mode time [separator] upper drawn) (fun h => by cases h)
        (owl_back mProfiles hbase hcc mode ⟨hpos, hmax⟩ separator upper drawn)
    | rapid => exact built rfl (fun h => by cases h) (rapid_back mProfiles hhost hbase hcc mode time separator upper drawn)
    | clip => exact built rfl (fun h => by cases h) (clip_back mProfiles hhost hbase hcc mode time separator upper drawn)
    | ipdeep =>
      have hback : ReadsBack mProfiles host base cc (.buildUsername .ipdeep mode time separator upper drawn)
          (base ++ (resCountryMark ++ (lowercase cc ++ []))) :=
        ipdeep_back mProfiles hhost hbase hcc rfl sessionTail_nil rfl rfl
      rw [List.append_nil] at hback
      exact built rfl (fun h => by cases h) hback
    | generic => exact built rfl (fun h => by cases h) (generic_back mProfiles hhost hbase hcc mode time hsep upper drawn)
    | custom =>
      refine ⟨⟨fun _ => rfl, fun _ => rfl⟩, fun u hu => ?_⟩
      cases hu
  | buildIpDeep mode time sessionId drawn =>
    obtain ⟨hpos, hmax, hsid⟩ := hb
    obtain ⟨hne, hds, hread⟩ := time_digits ⟨hpos, hmax⟩
    have hid : sessionId.getD (ofNat drawn) ≠ [] ∧ ∀ c ∈ sessionId.getD (ofNat drawn), isDigit c = true := by
      cases sessionId with
      | none => exact ⟨ofNat_ne_nil drawn, isDigit_ofNat drawn⟩
      | some sid => exact hsid sid rfl
    apply built rfl (fun h => by cases h)
    rw [buildIpDeep_eq]
    apply ipdeep_back mProfiles hhost hbase hcc rfl (sessionTail_tail hid.2 hds mode)
    · rw [sessionTail_id hid.2 hid.1, Build.session]
    · rw [sessionTail_id hid.2 hid.1, sessionTail_time hid.2 hds hid.1 hne, Build.sticky]
      split
      · rw [Option.map_some, Option.bind_some, hread, Option.getD_some]
      · rfl

theorem builders_round_trip_ipdeep :
    ReadsBack [] "10.0.0.1".toList "acct".toList "DE".toList (.buildIpDeep "sticky".toList 30 (some "42".toList) 0)
      "acct-res-country-de-session-42-sessiontime-30".toList := by
  have hhost : Unrelated "10.0.0.1".toList :=
    ⟨by decide +kernel, by decide +kernel, by decide +kernel, by decide +kernel⟩
  have hbase : PlainBase "acct".toList := ⟨by decide, by decide +kernel, by decide +kernel⟩
  have hproper : (Build.buildIpDeep "sticky".toList 30 (some "42".toList) 0).Proper := by
    refine ⟨by decide, by decide, fun sid hsid => ?_⟩
    cases hsid
    exact ⟨by decide, List.all_eq_true.mp (by decide)⟩
  exact (builders_round_trip [] hhost hbase (by decide +kernel) hproper).2 _ (by decide +kernel)

end KiloProxy.Ui
