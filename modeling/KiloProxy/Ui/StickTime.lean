import KiloProxy.Ui.SheetForm

/-!
# Choosing a stick time

The sheet rebuilds an IpDeep username from the parts it reads: the text in front of the country, the
country, the session id and the minutes. A state segment is none of these, so it is lost, and the country
is written in lower case. Nothing is rebuilt where no known country is read. What a choice does is so
decided by the username and by what the sheet read of it (`set_time_local`).
-/

namespace KiloProxy.Ui
set_option autoImplicit false
open KiloProxy.Text KiloProxy.Util KiloProxy.Util.ProxyProviders

/-- `base-res-country-<cc>[-state-<city>]-session-<id>-sessiontime-<t>`: the base holds no session, and
neither a country nor a session stands in the city between its hyphens. -/
structure IpDeepName where
  base : Str
  x : Char
  y : Char
  city : Option Str
  id : Str
  minutes : Str
  base_ne : base ≠ []
  base_line : OneLine base
  base_plain : ¬ sessionMark <:+: base
  letters : isLetter x = true ∧ isLetter y = true
  city_line : ∀ c ∈ city, OneLine c
  city_plain : ∀ c ∈ city, ∀ m ∈ [resCountryMark, sessionMark], ¬ m <:+: '-' :: (c ++ ['-'])
  id_ne : id ≠ []
  id_digits : ∀ c ∈ id, isDigit c = true
  minutes_digits : ∀ c ∈ minutes, isDigit c = true

namespace IpDeepName

variable (n : IpDeepName)

/-- The optional segment. -/
def state : Str :=
  match n.city with
  | none => []
  | some c => "-state-".toList ++ c

/-- What stands behind the country. -/
def tail (t : Str) : Str := n.state ++ (sessionMark ++ (n.id ++ (sessionTimeMark ++ t)))

/-- The username with `t` for its minutes. -/
def withTime (t : Str) : Str := n.base ++ (resCountryMark ++ n.x :: n.y :: n.tail t)

def username : Str := n.withTime n.minutes

theorem withTime_inj {t t' : Str} : n.withTime t = n.withTime t' ↔ t = t' := by
  simp [withTime, tail]

/-! ## What is read of it -/

theorem state_cons {c : Str} (h : n.city = some c) : n.state = "-state".toList ++ '-' :: c := by
  rw [state, h]
  rfl

theorem tail_head (t : Str) : ∀ c ∈ (n.tail t).head?, c = '-' := by
  intro c hc
  rw [tail] at hc
  cases hcity : n.city with
  | none =>
    rw [state, hcity] at hc
    cases hc
    rfl
  | some d =>
    rw [state_cons n hcity] at hc
    cases hc
    rfl

/-- Neither a country nor a session starts in the state. -/
theorem state_noStart {mark : Str} (hmark : mark ∈ [resCountryMark, sessionMark]) (s : Str) :
    NoStart mark n.state (sessionMark ++ s) := by
  cases hcity : n.city with
  | none =>
    rw [state, hcity]
    exact noStart_nil _ _
  | some c =>
    have hplain := n.city_plain c hcity mark hmark
    rw [← List.cons_append] at hplain
    have hcross : crossFree mark '-' 's' = true := by
      simp only [List.mem_cons, List.not_mem_nil, or_false] at hmark
      rcases hmark with rfl | rfl <;> decide
    have hcityFree : NoStart mark ('-' :: c) (sessionMark ++ s) :=
      noStart_of_next hplain (cross_of_crossFree hcross)
    have hword : NoStart mark "-state".toList ('-' :: c ++ (sessionMark ++ s)) := by
      obtain ⟨a, b, ms, rfl, hab⟩ : ∃ a b ms, mark = '-' :: a :: b :: ms ∧ ¬(a = 's' ∧ b = 't') := by
        simp only [List.mem_cons, List.not_mem_nil, or_false] at hmark
        rcases hmark with rfl | rfl
        · exact ⟨'r', 'e', "s-country-".toList, by decide, by decide⟩
        · exact ⟨'s', 'e', "ssion-".toList, by decide, by decide⟩
      have hparts : "-state".toList = '-' :: 's' :: 't' :: "ate".toList := by decide
      rw [hparts]
      refine noStart_cons.mpr ⟨?_, noStart_of_head (by decide)⟩
      rintro ⟨r, hr⟩
      simp only [List.cons_append, List.cons.injEq] at hr
      exact hab ⟨hr.2.1, hr.2.2.1⟩
    rw [state_cons n hcity]
    exact noStart_append.mpr ⟨hword, hcityFree⟩

section Read

variable {t : Str} (ht : ∀ c ∈ t, isDigit c = true)
include ht

/-- The session holds no `r`, so no country. -/
theorem session_notMem {c : Char} (hc : isDigit c = false ∧ c ∉ sessionTimeMark) :
    c ∉ sessionMark ++ (n.id ++ (sessionTimeMark ++ t)) :=
  (sessionTail_sticky n.id_digits ht).notMem hc

/-- No country stands behind the session. -/
theorem tail_country : lastAt resCountryMark isLetter (fun _ => true) (n.tail t) = none := by
  refine (n.state_noStart (by simp) _).lastAt ?_
  have hno : NoStart resCountryMark (sessionMark ++ (n.id ++ (sessionTimeMark ++ t))) [] := by
    refine noStart_of_mem (c := 'r') (by decide) ?_
    rw [List.append_nil]
    exact n.session_notMem ht (by decide)
  have hlast : lastAt resCountryMark isLetter (fun _ => true)
      (sessionMark ++ (n.id ++ (sessionTimeMark ++ t)) ++ []) = none := hno.lastAt rfl
  rw [List.append_nil] at hlast
  exact hlast

/-- The username is on one line. -/
theorem oneLine : OneLine (n.withTime t) := by
  have hstate : OneLine n.state := by
    cases hcity : n.city with
    | none =>
      rw [state, hcity]
      intro c hc; cases hc
    | some c =>
      rw [state, hcity]
      exact oneLine_append.mpr ⟨by decide +kernel, n.city_line c hcity⟩
  rw [withTime, oneLine_append, oneLine_append]
  refine ⟨n.base_line, by decide +kernel, oneLine_letters n.letters.1 n.letters.2 ?_⟩
  exact oneLine_append.mpr ⟨hstate, (sessionTail_sticky n.id_digits ht).oneLine⟩

theorem reads : findGreedy resCountryMark (n.withTime t) = some (n.base, [n.x, n.y], n.tail t) :=
  country_reads n.base_ne n.letters.1 n.letters.2 (n.oneLine ht) (n.tail_head t) (n.tail_country ht)

omit ht in
/-- The session is read back. -/
theorem session_reads : ipdeepSessionId (n.withTime t) = some n.id := by
  have hbase : ∀ d, isDigit d = true →
      NoStart (sessionMark ++ [d]) n.base (resCountryMark ++ n.x :: n.y :: n.tail t) := by
    intro d hd
    apply noStart_of_stem
    · rw [List.dropLast_concat]
      exact n.base_plain
    · rw [resCountryMark_append]
      exact cross_concat (by decide) fun he => by
        rw [he] at hd
        exact absurd hd (by decide)
  have hcountry := country_noStart n.letters.1 n.letters.2 (.inl rfl) (n.tail_head t)
  have hparts : resCountryMark ++ n.x :: n.y :: n.tail t = resCountryMark ++ [n.x, n.y] ++ n.tail t := by simp
  rw [ipdeepSessionId, withTime, findDigits_skip_digit hbase, hparts, findDigits_skip hcountry, tail,
    findDigits_skip (n.state_noStart (by simp) _)]
  exact session_digits n.id_ne n.id_digits t

end Read
end IpDeepName

/-! ## What the sheet holds of it -/

theorem ofInt_last (n : Int) : ∃ ds d, ofInt n = ds ++ [d] ∧ isDigit d = true := by
  have hnat : ∀ k : Nat, ∃ ds d, ofNat k = ds ++ [d] ∧ isDigit d = true := by
    intro k
    have hne := ofNat_ne_nil k
    exact ⟨_, _, (List.dropLast_append_getLast hne).symm, isDigit_ofNat k _ (List.getLast_mem hne)⟩
  cases n with
  | ofNat k => exact hnat k
  | negSucc k =>
    obtain ⟨ds, d, hds, hd⟩ := hnat (k + 1)
    exact ⟨'-' :: ds, d, by rw [ofInt, hds]; rfl, hd⟩

/-- The type that the sheet takes a username for. -/
def typeOf (provider host u : Str) : ProviderType :=
  if provider = "owl".toList then .owl else detectType host u

/-- The country that the sheet reads. -/
def countryOf (u : Str) (type : ProviderType) : Option Str :=
  (parseCountry u type).bind fun code => Countries.codes.find? fun c => uppercase c = uppercase code

/-- What `detectFromUsername` leaves in the sheet. -/
theorem detect_reads (mProfiles : List Str) {sheet : AddEditProxySheet} (hsync : sheet.syncing = false) (u : Str) :
    (detectFromUsername mProfiles sheet u).syncing = false ∧
    (detectFromUsername mProfiles sheet u).proxyType = typeOf sheet.provider sheet.host u ∧
    (detectFromUsername mProfiles sheet u).selectedCountry = countryOf u (typeOf sheet.provider sheet.host u) ∧
    (typeOf sheet.provider sheet.host u = .ipdeep → isIpDeepSticky u = true →
      (detectFromUsername mProfiles sheet u).ipdeepMode = "sticky".toList) := by
  unfold detectFromUsername countryOf
  rw [hsync, if_neg Bool.false_ne_true, ← typeOf]
  generalize typeOf sheet.provider sheet.host u = t
  cases t with
  | owl =>
    cases findLazy zoneMark u with
    | none => simp only [reduceCtorEq, if_true, if_false]; split_ifs <;> simp
    | some m =>
      cases hm : findDigits timeMark m.2.2 <;> simp only [hm, reduceCtorEq, if_true, if_false] <;>
        split_ifs <;> simp
  | ipdeep =>
    cases isIpDeepSticky u <;> simp only [reduceCtorEq, if_true, if_false] <;> split_ifs <;> simp
  | custom => simp
  | rapid => simp only [reduceCtorEq, if_false]; split_ifs <;> simp
  | clip => simp only [reduceCtorEq, if_false]; split_ifs <;> simp
  | generic => simp only [reduceCtorEq, if_false]; split_ifs <;> simp

/-! ## What a rebuild writes -/

/-- What holds of every ASCII letter. -/
theorem letter_facts {c : Char} (h : isLetter c = true) :
    lowerChar (upperChar c) = lowerChar c ∧ (lowerChar c).length = 1 ∧ isDigit c = false := by
  have hall : ∀ n < 128, isLetter (Char.ofNat n) = true →
      lowerChar (upperChar (Char.ofNat n)) = lowerChar (Char.ofNat n) ∧ (lowerChar (Char.ofNat n)).length = 1 ∧
        isDigit (Char.ofNat n) = false := by decide +kernel
  exact ascii_all (p := fun c => isLetter c = true → lowerChar (upperChar c) = lowerChar c ∧
    (lowerChar c).length = 1 ∧ isDigit c = false) hall (isLetter_lt h) h

/-- A code in lower case is the country as it was written, in lower case. -/
theorem lowercase_code {code : Str} {x y : Char} (hcode : code ∈ Countries.codes) (hx : isLetter x = true)
    (hy : isLetter y = true) (h : uppercase code = uppercase [x, y]) : lowercase code = lowercase [x, y] := by
  rw [(code_cases hcode).1] at h
  rw [h, uppercase, lowercase, lowercase, List.map_cons, List.map_cons, List.map_nil, List.flatMap_cons,
    List.flatMap_cons, (letter_facts hx).1, (letter_facts hy).1]
  rfl

/-- A code ends with a letter, in either case. -/
theorem code_last {code : Str} (hcode : code ∈ Countries.codes) :
    (∃ x y, uppercase code = [x, y] ∧ isLetter y = true) ∧ ∃ x y, lowercase code = [x, y] ∧ isLetter y = true := by
  obtain ⟨hup, _, ⟨x, y, hxy, _, hy⟩, v, w, hvw, _, hw, _⟩ := code_cases hcode
  exact ⟨⟨x, y, by rw [hup, hxy], hy⟩, v, w, hvw, hw⟩

/-- The expressions read no empty base. -/
theorem findGreedy_base {mark u : Str} {m : Str × Str × Str} (h : findGreedy mark u = some m) : m.1 ≠ [] := by
  obtain ⟨body, _, hlast⟩ := Option.bind_eq_some_iff.mp h
  obtain ⟨c, b, _, _, hb, _⟩ := lastMark_some hlast
  rw [hb]
  exact List.cons_ne_nil c b

theorem findLazy_base {mark u : Str} {m : Str × Str × Str} (h : findLazy mark u = some m) : m.1 ≠ [] := by
  obtain ⟨body, _, hfirst⟩ := Option.bind_eq_some_iff.mp h
  obtain ⟨c, b, _, _, hb, _⟩ := firstMark_some hfirst
  rw [hb]
  exact List.cons_ne_nil c b

section Rebuild

variable {s : SheetForm} {code : Str} (drawn : Nat) (hsync : s.syncing = false)
  (hcountry : s.selectedCountry = some code)
include hsync hcountry

/-- A chosen time rebuilds the username from the parts read off it. -/
theorem sync_ipdeep {n : IpDeepName} (huser : s.username = n.username) (htype : s.proxyType = .ipdeep)
    (hmode : s.ipdeepMode = "sticky".toList) :
    (s.syncUsernameFromUi drawn).username = n.base ++ (resCountryMark ++ (lowercase code ++
      (sessionMark ++ (n.id ++ (sessionTimeMark ++ ofInt s.ipdeepTime))))) := by
  have hbase : extractBase n.username .ipdeep = some n.base := by
    rw [extractBase, IpDeepName.username, n.reads n.minutes_digits]
    rfl
  have hid : ipdeepSessionId n.username = some n.id := n.session_reads
  simp only [SheetForm.syncUsernameFromUi, hsync, hcountry, htype, huser, hbase, hid, if_neg n.base_ne]
  rw [if_neg Bool.false_ne_true, SheetForm.rebuilt, buildIpDeep_eq, hmode, sessionTail, if_pos rfl, Option.getD_some]

/-- The three providers with a builder and nothing else. -/
theorem sync_built {type : ProviderType} (ht : s.proxyType = type) (htype : type = .owl ∨ type = .rapid ∨ type = .clip)
    {base full : Str} (hextract : extractBase s.username type = some base) (hne : base ≠ [])
    (hbuild : buildUsername base type code s.owlMode s.owlTime ['-'] true drawn = some full) :
    (s.syncUsernameFromUi drawn).username = full := by
  subst ht
  rcases htype with ht | ht | ht <;>
  · rw [ht] at hextract hbuild
    simp only [SheetForm.syncUsernameFromUi, hsync, hcountry, ht, hextract, Option.getD_some, if_neg hne, hbuild]
    rfl

/-- For another provider the rebuilt username ends with the country, or with minutes behind a low line. -/
theorem sync_other (hcode : code ∈ Countries.codes) (htype : s.proxyType ≠ .ipdeep)
    (hread : parseCountry s.username s.proxyType ≠ none) :
    (∃ pre z, isLetter z = true ∧ (s.syncUsernameFromUi drawn).username = pre ++ [z]) ∨
      ∃ pre, (s.syncUsernameFromUi drawn).username = pre ++ '_' :: ofInt s.owlTime := by
  obtain ⟨⟨x, y, hup, hy⟩, v, w, hlow, hw⟩ := code_last hcode
  -- a country in front of nothing
  have hends : ∀ base mark : Str, (s.syncUsernameFromUi drawn).username = base ++ (mark ++ uppercase code) →
      ∃ pre z, isLetter z = true ∧ (s.syncUsernameFromUi drawn).username = pre ++ [z] := by
    intro base mark h
    exact ⟨base ++ (mark ++ [x]), y, hy, by rw [h, hup]; simp⟩
  cases ht : s.proxyType with
  | custom =>
    rw [ht] at hread
    exact absurd rfl hread
  | ipdeep => exact absurd ht htype
  | owl =>
    rw [ht, parseCountry, ne_eq, Option.map_eq_none_iff] at hread
    obtain ⟨m, hm⟩ := Option.ne_none_iff_exists'.mp hread
    have hextract : extractBase s.username .owl = some m.1 := by rw [extractBase, hm]; rfl
    have hfull := sync_built drawn hsync hcountry ht (.inl rfl) hextract (findLazy_base hm)
      (buildUsername_owl m.1 code s.owlMode s.owlTime ['-'] true drawn)
    unfold owlTail at hfull
    split at hfull
    · refine .inr ⟨m.1 ++ (zoneMark ++ (lowercase code ++ ("_st__city_sid_".toList ++ (ofNat drawn ++
        "_time".toList)))), ?_⟩
      rw [hfull, show timeMark = "_time".toList ++ ['_'] by decide]
      simp
    · exact .inl ⟨m.1 ++ (zoneMark ++ [v]), w, hw, by rw [hfull, hlow]; simp⟩
  | rapid =>
    rw [ht, parseCountry, ne_eq, Option.map_eq_none_iff] at hread
    obtain ⟨m, hm⟩ := Option.ne_none_iff_exists'.mp hread
    have hextract : extractBase s.username .rapid = some m.1 := by rw [extractBase, hm]; rfl
    exact .inl (hends m.1 residentialMark
      (sync_built drawn hsync hcountry ht (.inr (.inl rfl)) hextract (findGreedy_base hm) rfl))
  | clip =>
    rw [ht, parseCountry, ne_eq, Option.map_eq_none_iff] at hread
    obtain ⟨m, hm⟩ := Option.ne_none_iff_exists'.mp hread
    have hextract : extractBase s.username .clip = some m.1 := by rw [extractBase, hm]; rfl
    exact .inl (hends m.1 regionMark
      (sync_built drawn hsync hcountry ht (.inr (.inr rfl)) hextract (findGreedy_base hm) rfl))
  | generic =>
    rw [ht, parseCountry, ne_eq, Option.map_eq_none_iff] at hread
    obtain ⟨m, hm⟩ := Option.ne_none_iff_exists'.mp hread
    have hfull : (s.syncUsernameFromUi drawn).username =
        m.base ++ (m.separator ++ if m.upper then uppercase code else lowercase code) := by
      simp only [SheetForm.syncUsernameFromUi, hsync, hcountry, ht, hm, if_neg Bool.false_ne_true, buildUsername]
      rfl
    left
    split at hfull
    · exact ⟨m.base ++ (m.separator ++ [x]), y, hy, by rw [hfull, hup]; simp⟩
    · exact ⟨m.base ++ (m.separator ++ [v]), w, hw, by rw [hfull, hlow]; simp⟩

end Rebuild

/-! ## The choice -/

/-- The sheet that was opened on a profile and has loaded it. -/
def editSheet (mProfiles : List Str) (provider initialName profileName : Str) (profile : SavedProxy)
    (isDefault : Bool) : SheetForm :=
  (SheetForm.opened (some profileName) provider initialName).load mProfiles profileName profile isDefault

/-- What such a sheet holds of the username. -/
theorem editSheet_reads (mProfiles : List Str) (provider initialName profileName : Str) (profile : SavedProxy)
    (isDefault : Bool) {s : SheetForm}
    (hs : s = editSheet mProfiles provider initialName profileName profile isDefault) :
    s.username = profile.username ∧ s.syncing = false ∧
      s.selectedCountry = countryOf profile.username s.proxyType ∧
      (s.proxyType = .ipdeep → isIpDeepSticky profile.username = true → s.ipdeepMode = "sticky".toList) := by
  subst hs
  have hopen : AddEditProxySheet.syncing { (SheetForm.opened (some profileName) provider initialName) with
      name := profileName, host := profile.server } = false := rfl
  obtain ⟨hsync, htype, hcountry, hmode⟩ := detect_reads mProfiles hopen profile.username
  refine ⟨rfl, hsync, ?_, ?_⟩
  · exact hcountry.trans (by rw [← htype]; rfl)
  · exact fun ht => hmode (htype.symm.trans ht)

/-- A known country that is read is one of the table. -/
theorem countryOf_some {u code : Str} {type : ProviderType} (h : countryOf u type = some code) :
    code ∈ Countries.codes ∧ ∃ cc, parseCountry u type = some cc ∧ uppercase code = uppercase cc := by
  obtain ⟨cc, hcc, hfind⟩ := Option.bind_eq_some_iff.mp h
  exact ⟨List.mem_of_find?_eq_some hfind, cc, hcc, by simpa using List.find?_some hfind⟩

/-- A time stands at the end, behind a hyphen. -/
theorem withTime_last (n : IpDeepName) (t : Int) :
    (∃ pre d, isDigit d = true ∧ n.withTime (ofInt t) = pre ++ [d]) ∧
      ∃ pre, n.withTime (ofInt t) = pre ++ '-' :: ofInt t := by
  obtain ⟨ds, d, hds, hd⟩ := ofInt_last t
  have hmark : sessionTimeMark = "-sessiontime".toList ++ ['-'] := by decide
  constructor
  · refine ⟨n.withTime ds, d, hd, ?_⟩
    rw [hds]
    simp [IpDeepName.withTime, IpDeepName.tail]
  · refine ⟨n.base ++ (resCountryMark ++ n.x :: n.y :: (n.state ++ (sessionMark ++ (n.id ++
      "-sessiontime".toList)))), ?_⟩
    rw [IpDeepName.withTime, IpDeepName.tail, hmark]
    simp

/-- Nothing is rebuilt where no country is read. -/
theorem setTime_none {s : SheetForm} (drawn : Nat) (t : Int) (hsync : s.syncing = false)
    (hnone : s.selectedCountry = none) : (s.setTime drawn t).username = s.username := by
  unfold SheetForm.setTime SheetForm.syncUsernameFromUi
  split <;> simp [hsync, hnone]

/-- The rebuilt username of an IpDeep profile. -/
theorem setTime_ipdeep {s : SheetForm} {n : IpDeepName} {code : Str} (drawn : Nat) (t : Int) (hsync : s.syncing = false)
    (huser : s.username = n.username) (htype : s.proxyType = .ipdeep) (hmode : s.ipdeepMode = "sticky".toList)
    (hcountry : s.selectedCountry = some code) :
    (s.setTime drawn t).username = n.base ++ (resCountryMark ++ (lowercase code ++
      (sessionMark ++ (n.id ++ (sessionTimeMark ++ ofInt t))))) := by
  unfold SheetForm.setTime
  rw [if_pos htype]
  exact sync_ipdeep (s := { s with ipdeepTime := t }) drawn hsync hcountry huser htype hmode

/-- It is the one that was asked for when the country is in lower case and there is no state. -/
theorem rebuilt_iff (n : IpDeepName) {code : Str} (hlow : lowercase code = lowercase [n.x, n.y]) (t : Str) :
    n.base ++ (resCountryMark ++ (lowercase code ++ (sessionMark ++ (n.id ++ (sessionTimeMark ++ t))))) = n.withTime t ↔
      lowercase [n.x, n.y] = [n.x, n.y] ∧ n.city = none := by
  have hlen : (lowercase [n.x, n.y]).length = 2 := by
    rw [lowercase, List.flatMap_cons, List.flatMap_cons, List.flatMap_nil, List.length_append, List.length_append,
      (letter_facts n.letters.1).2.1, (letter_facts n.letters.2).2.1]
    rfl
  rw [hlow, IpDeepName.withTime, IpDeepName.tail, List.append_cancel_left_eq, List.append_cancel_left_eq]
  constructor
  · intro h
    have hboth : lowercase [n.x, n.y] ++ (sessionMark ++ (n.id ++ (sessionTimeMark ++ t))) =
        [n.x, n.y] ++ (n.state ++ (sessionMark ++ (n.id ++ (sessionTimeMark ++ t)))) := h
    obtain ⟨hxy, hrest⟩ := List.append_inj hboth hlen
    have hstate : n.state = [] := List.self_eq_append_left.mp hrest
    refine ⟨hxy, ?_⟩
    cases hcity : n.city with
    | none => rfl
    | some c =>
      rw [n.state_cons hcity] at hstate
      exact absurd hstate (by simp)
  · rintro ⟨hxy, hcity⟩
    rw [IpDeepName.state, hcity, hxy]
    rfl

/-- Another provider's rebuilt username does not end with minutes behind a hyphen. -/
theorem setTime_other (n : IpDeepName) {s : SheetForm} {code : Str} (drawn : Nat) (t : Int) (hsync : s.syncing = false)
    (hcountry : s.selectedCountry = some code) (hcode : code ∈ Countries.codes) (htype : s.proxyType ≠ .ipdeep)
    (hread : parseCountry s.username s.proxyType ≠ none) : (s.setTime drawn t).username ≠ n.withTime (ofInt t) := by
  have hset : s.setTime drawn t = SheetForm.syncUsernameFromUi drawn { s with owlTime := t } := by
    rw [SheetForm.setTime, if_neg htype]
  obtain ⟨⟨pre, d, hd, hlast⟩, pre', hhyphen⟩ := withTime_last n t
  rw [hset]
  obtain ⟨q, z, hz, hq⟩ | ⟨q, hq⟩ := sync_other (s := { s with owlTime := t }) drawn hsync hcountry hcode htype hread
  · rw [hq, hlast]
    intro he
    obtain ⟨_, hzd⟩ := List.append_inj' he rfl
    obtain ⟨rfl, _⟩ := List.cons.inj hzd
    rw [(letter_facts hz).2.2] at hd
    cases hd
  · rw [hq, hhyphen]
    intro he
    rw [List.append_cons q, List.append_cons pre'] at he
    have hsign := (List.append_inj' (List.append_cancel_right he) rfl).2
    exact absurd hsign (by decide)

/-- **Choosing a stick time changes only the minutes** exactly when the username is read as IpDeep's, its
country is known and in lower case and there is no state segment, or when no country is read and the minutes
were chosen already. -/
theorem set_time_local (mProfiles : List Str) (provider initialName profileName server password : Str) (port : Int)
    (isDefault : Bool) (drawn : Nat) (n : IpDeepName) (t : Int) {s : SheetForm}
    (hs : s = editSheet mProfiles provider initialName profileName ⟨server, port, n.username, password⟩ isDefault) :
    (s.setTime drawn t).username = n.withTime (ofInt t) ↔
      (s.proxyType = .ipdeep ∧ s.selectedCountry ≠ none ∧ lowercase [n.x, n.y] = [n.x, n.y] ∧ n.city = none) ∨
        (s.selectedCountry = none ∧ n.minutes = ofInt t) := by
  obtain ⟨huser, hsync, hcountry, hmode⟩ := editSheet_reads mProfiles provider initialName profileName _ isDefault hs
  have hsticky : isIpDeepSticky n.username = true := by
    have hid : ipdeepSessionId n.username = some n.id := n.session_reads
    rw [ipdeepSessionId] at hid
    rw [isIpDeepSticky, hid]
    rfl
  cases hsel : s.selectedCountry with
  | none =>
    rw [setTime_none drawn t hsync hsel, huser, IpDeepName.username, n.withTime_inj]
    simp
  | some code =>
    obtain ⟨hcode, cc, hparse, hup⟩ := countryOf_some (hcountry.symm.trans hsel)
    by_cases htype : s.proxyType = .ipdeep
    · rw [htype, parseCountry, IpDeepName.username, n.reads n.minutes_digits] at hparse
      obtain rfl := Option.some.inj hparse
      have hlow := lowercase_code hcode n.letters.1 n.letters.2 hup
      rw [setTime_ipdeep drawn t hsync huser htype (hmode htype hsticky) hsel, rebuilt_iff n hlow]
      simp [htype]
    · have hread : parseCountry s.username s.proxyType ≠ none := by rw [huser, hparse]; simp
      simp [setTime_other n drawn t hsync hsel hcode htype hread, htype]

/-- An IpDeep username of the account `acct`. -/
def acctName (city : Option Str) (hline : ∀ c ∈ city, OneLine c)
    (hplain : ∀ c ∈ city, ∀ m ∈ [resCountryMark, sessionMark], ¬ m <:+: '-' :: (c ++ ['-'])) : IpDeepName where
  base := "acct".toList
  x := 'u'
  y := 's'
  city := city
  id := "42".toList
  minutes := "5".toList
  base_ne := by decide
  base_line := by decide +kernel
  base_plain := by decide
  letters := by decide
  city_line := hline
  city_plain := hplain
  id_ne := by decide
  id_digits := List.all_eq_true.mp (by decide)
  minutes_digits := List.all_eq_true.mp (by decide)

/-- Without a state only the minutes change. -/
theorem set_time_local_stateless :
    ((editSheet ["Work".toList] "custom".toList [] "Work".toList ⟨"gw.ipdeep.com".toList, 1080,
        "acct-res-country-us-session-42-sessiontime-5".toList, "pw".toList⟩ true).setTime 0 30).username =
      "acct-res-country-us-session-42-sessiontime-30".toList := by
  have hsheet : (editSheet ["Work".toList] "custom".toList [] "Work".toList ⟨"gw.ipdeep.com".toList, 1080,
      (acctName none (by simp) (by simp)).username, "pw".toList⟩ true).proxyType = .ipdeep ∧
      (editSheet ["Work".toList] "custom".toList [] "Work".toList ⟨"gw.ipdeep.com".toList, 1080,
      (acctName none (by simp) (by simp)).username, "pw".toList⟩ true).selectedCountry ≠ none := by decide +kernel
  exact (set_time_local ["Work".toList] "custom".toList [] "Work".toList "gw.ipdeep.com".toList "pw".toList 1080 true 0
    (acctName none (by simp) (by simp)) 30 rfl).mpr (.inl ⟨hsheet.1, hsheet.2, by decide, rfl⟩)

/-- A state segment is lost. -/
theorem stick_time_drops_state :
    ∃ n : IpDeepName, n.username = "acct-res-country-us-state-newyork-session-42-sessiontime-5".toList ∧
      n.withTime (ofInt 30) = "acct-res-country-us-state-newyork-session-42-sessiontime-30".toList ∧
      ((editSheet ["Work".toList] "custom".toList [] "Work".toList ⟨"gw.ipdeep.com".toList, 1080, n.username,
        "pw".toList⟩ true).setTime 0 30).username = "acct-res-country-us-session-42-sessiontime-30".toList ∧
      ((editSheet ["Work".toList] "custom".toList [] "Work".toList ⟨"gw.ipdeep.com".toList, 1080, n.username,
        "pw".toList⟩ true).setTime 0 30).username ≠ n.withTime (ofInt 30) :=
  ⟨acctName (some "newyork".toList) (by decide +kernel) (by decide +kernel), by decide +kernel⟩

end KiloProxy.Ui
