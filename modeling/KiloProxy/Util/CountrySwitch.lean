import KiloProxy.Util.ProxyProviders

/-!
# Switching the country of a username

What a tap on a country writes into the username, in the Countries tab and in the
bubble menu. The Owl branch wants the text behind the zone to be empty or a sticky
suffix, the Rapid and Clip branches drop that text, and the IpDeep branch keeps it.
-/

namespace KiloProxy.Util.ProxyProviders
set_option autoImplicit false
open KiloProxy.Text

/-- `_st__city_sid_\d+_time_\d+` -/
def stickySuffix (s : Str) : Bool :=
  startsWith s "_st__city_sid_".toList &&
    (let sid := s.drop 14
     let rest := sid.dropWhile isDigit
     sid.takeWhile isDigit != [] && startsWith rest "_time_".toList &&
      (let time := rest.drop 6; time != [] && time.all isDigit))

/-- `(_st__city_sid_\d+_time_\d+)?` -/
def zoneTail (s : Str) : Bool := s == [] || stickySuffix s

/-- `Regex("^(.+?)_custom_zone_[a-zA-Z]{2}(_st__city_sid_\d+_time_\d+)?$").find(username)`. -/
def findZone (username : Str) : Option (Str × Str × Str) :=
  (lineBody username).bind (firstMark zoneMark isLetter zoneTail)

/-- The username a tap on the country `code` writes, if it writes one. -/
def newUsername (host username code : Str) : Option Str :=
  match detectType host username with
  | .owl => (findZone username).map fun m => m.1 ++ (zoneMark ++ (lowercase code ++ m.2.2))
  | .rapid => (extractBase username .rapid).bind fun base => buildDefault base .rapid code
  | .clip => (extractBase username .clip).bind fun base => buildDefault base .clip code
  | .ipdeep => switchIpDeepCountry username code
  | .generic => (genericParts username).bind fun parts =>
    buildUsername parts.base .generic code "unique".toList 5 parts.separator parts.upper 0
  | .custom => none

/-- `CountriesScreen.onCountryTap`. -/
def onCountryTap (host username code : Str) : Option Str := newUsername host username code

/-- `FloatingControlService.onBubbleCountrySelected`. -/
def onBubbleCountrySelected (host username code : Str) : Option Str := newUsername host username code

/-- Where `parseCountry` finds the country: the text in front of the token, the token
and the text behind it. -/
def countryToken (username : Str) (type : ProviderType) : Option (Str × Str × Str) :=
  let around (mark : Str) (m : Str × Str × Str) : Str × Str × Str :=
    (m.1 ++ mark, m.2.1, username.drop (m.1.length + mark.length + 2))
  match type with
  | .owl => (findLazy zoneMark username).map (around zoneMark)
  | .rapid => (findGreedy residentialMark username).map (around residentialMark)
  | .clip => (findGreedy regionMark username).map (around regionMark)
  | .ipdeep => (findGreedy resCountryMark username).map (around resCountryMark)
  | .generic => (genericGroups username).map fun m => around [m.2.1] (m.1, m.2.2, [])
  | .custom => none

/-- The tap replaces the token, by the code in some case, and nothing else, and the new
username is read back as the code. -/
def SwitchesOnly (tap : Str → Str → Str → Option Str) (host username code : Str) : Prop :=
  ∃ pre tok post tok', countryToken username (detectType host username) = some (pre, tok, post) ∧
    tap host username code = some (pre ++ (tok' ++ post)) ∧ uppercase tok' = code ∧
    (parseCountry (pre ++ (tok' ++ post)) (detectType host (pre ++ (tok' ++ post)))).map uppercase = some code

/-- What may follow `re` so that the end of `-res-country-` and `re` start a marker. -/
def reMarks : List Str := ["sidential-".toList, "gion-".toList, "s-country-".toList]

/-- The condition on the username and the code. -/
def KeepsRest (host username code : Str) : Prop :=
  (∀ c ∈ username, isLineTerminator c = false) ∧
    match detectType host username with
    | .owl => ∀ base cc tail, findLazy zoneMark username = some (base, cc, tail) →
        zoneTail tail = true ∨
          (uppercase cc = code ∧ ∃ base' tail', findZone username = some (base', lowercase code, tail'))
    | .rapid => ∀ base cc tail, findGreedy residentialMark username = some (base, cc, tail) → tail = []
    | .clip => ∀ base cc tail, findGreedy regionMark username = some (base, cc, tail) → tail = []
    | .ipdeep => ∀ base cc tail, findGreedy resCountryMark username = some (base, cc, tail) →
        code = "RE".toList → ∀ m ∈ reMarks, ∀ x y, isLetter x = true → isLetter y = true →
          m ++ [x, y] <+: tail → uppercase [x, y] = code
    | .generic => True
    | .custom => True

example : onCountryTap "gate.owlproxy.com".toList "u1_custom_zone_us_st__city_sid_12_time_5".toList "DE".toList =
    some "u1_custom_zone_de_st__city_sid_12_time_5".toList := by decide

/-! ## Codes and lines -/

def twoLetters : Str → Bool
  | [x, y] => isLetter x && isLetter y
  | _ => false

/-- What is used of a country code. -/
def codeReads (c : Str) : Bool :=
  twoLetters c && twoLetters (lowercase c) && uppercase (lowercase c) == c && uppercase c == c &&
    (lowercase c != "re".toList || c == "RE".toList)

theorem codes_read : ∀ c ∈ Countries.codes, codeReads c = true := by decide +kernel

theorem twoLetters_split {s : Str} (h : twoLetters s = true) :
    ∃ x y, s = [x, y] ∧ isLetter x = true ∧ isLetter y = true := by
  unfold twoLetters at h
  split at h
  · rename_i x y
    rw [Bool.and_eq_true] at h
    exact ⟨x, y, rfl, h.1, h.2⟩
  · cases h

/-- A code and its lower-case form. -/
theorem code_cases {code : Str} (h : code ∈ Countries.codes) :
    uppercase code = code ∧ uppercase (lowercase code) = code ∧
      (∃ x y, code = [x, y] ∧ isLetter x = true ∧ isLetter y = true) ∧
      (∃ x y, lowercase code = [x, y] ∧ isLetter x = true ∧ isLetter y = true ∧
        (x = 'r' → y = 'e' → code = "RE".toList)) := by
  have hc := codes_read code h
  simp only [codeReads, Bool.and_eq_true, beq_iff_eq, Bool.or_eq_true, bne_iff_ne, ne_eq] at hc
  obtain ⟨⟨⟨⟨htwo, hlow⟩, hul⟩, hu⟩, hre⟩ := hc
  obtain ⟨x, y, hxy, hx, hy⟩ := twoLetters_split hlow
  refine ⟨hu, hul, twoLetters_split htwo, x, y, hxy, hx, hy, ?_⟩
  rintro rfl rfl
  rcases hre with h | h
  · exact (h hxy).elim
  · exact h

theorem isLetter_not {c d : Char} (hc : isLetter c = true) (hd : isLetter d = false) : c ≠ d := by
  rintro rfl
  rw [hc] at hd; cases hd

/-- Letters end no line. -/
theorem isLetter_line {c : Char} (h : isLetter c = true) : isLineTerminator c = false := by
  simp only [isLetter, isUpperAscii, isLowerAscii, Bool.or_eq_true, Bool.and_eq_true, decide_eq_true_eq,
    Char.le_def, UInt32.le_iff_toNat_le] at h
  have hn : c.toNat = c.val.toNat := rfl
  have h10 : ('\n' : Char).val.toNat = 10 := rfl
  have h13 : ('\r' : Char).val.toNat = 13 := rfl
  have hA : ('A' : Char).val.toNat = 65 := rfl
  have hZ : ('Z' : Char).val.toNat = 90 := rfl
  have ha : ('a' : Char).val.toNat = 97 := rfl
  have hz : ('z' : Char).val.toNat = 122 := rfl
  simp only [isLineTerminator, Bool.or_eq_false_iff, beq_eq_false_iff_ne, ne_eq]
  refine ⟨⟨⟨⟨?_, ?_⟩, ?_⟩, ?_⟩, ?_⟩
  · rintro rfl; omega
  · rintro rfl; omega
  all_goals omega

/-- Text without a line terminator. -/
def OneLine (s : Str) : Prop := ∀ c ∈ s, isLineTerminator c = false

instance (s : Str) : Decidable (OneLine s) :=
  List.decidableBAll (fun c => isLineTerminator c = false) s

theorem oneLine_append {s t : Str} : OneLine (s ++ t) ↔ OneLine s ∧ OneLine t := by
  simp only [OneLine, List.mem_append, or_imp, forall_and]

theorem oneLine_letters {x y : Char} {t : Str} (hx : isLetter x = true) (hy : isLetter y = true) (ht : OneLine t) :
    OneLine (x :: y :: t) := by
  intro c hc
  simp only [List.mem_cons] at hc
  obtain rfl | rfl | hc := hc
  · exact isLetter_line hx
  · exact isLetter_line hy
  · exact ht c hc

/-- Other letters in their place keep the text on one line. -/
theorem oneLine_swap {w mark t : Str} {x y x' y' : Char} (hx' : isLetter x' = true) (hy' : isLetter y' = true)
    (h : OneLine (w ++ (mark ++ x :: y :: t))) : OneLine (w ++ (mark ++ x' :: y' :: t)) := by
  rw [oneLine_append, oneLine_append] at h ⊢
  exact ⟨h.1, h.2.1, oneLine_letters hx' hy' fun c hc => h.2.2 c (by simp [hc])⟩

theorem lineBody_oneLine {s : Str} (h : OneLine s) : lineBody s = some s := by
  have hall : ∀ c ∈ s, (!isLineTerminator c) = true := fun c hc => by rw [h c hc]; rfl
  rw [lineBody, List.dropWhile_eq_nil_iff.mpr hall, List.takeWhile_eq_self_iff.mpr hall]
  rfl

theorem wholeLine_oneLine {s : Str} (h : OneLine s) : wholeLine s = some s := by
  rw [wholeLine, if_pos]
  rw [List.all_eq_true]
  intro c hc
  rw [h c hc]; rfl

/-- The body is the text, less a final line terminator. -/
theorem lineBody_split {s body : Str} (h : lineBody s = some body) :
    ∃ rest, s = body ++ rest ∧ OneLine body ∧ (rest = [] ↔ OneLine s) := by
  simp only [lineBody] at h
  split at h
  · cases h
    refine ⟨_, (List.takeWhile_append_dropWhile).symm, ?_, ?_⟩
    · intro c hc
      have := List.mem_takeWhile_imp hc
      simpa using this
    · rw [List.dropWhile_eq_nil_iff]
      constructor
      · intro hd c hc; simpa using hd c hc
      · intro hs c hc; simpa using hs c hc
  · cases h

/-! ## What the groups say -/

/-- The groups of a greedy regular expression on text of one line. -/
theorem findGreedy_oneLine (mark : Str) {u : Str} (h : OneLine u) :
    findGreedy mark u = lastMark mark isLetter (fun _ => true) u := by
  rw [findGreedy, lineBody_oneLine h, Option.bind_some]

theorem findLazy_oneLine (mark : Str) {u : Str} (h : OneLine u) :
    findLazy mark u = firstMark mark isLetter (fun _ => true) u := by
  rw [findLazy, lineBody_oneLine h, Option.bind_some]

theorem findZone_oneLine {u : Str} (h : OneLine u) : findZone u = firstMark zoneMark isLetter zoneTail u := by
  rw [findZone, lineBody_oneLine h, Option.bind_some]

theorem lastMark_isSome (mark : Str) (c : Char) (s : Str) :
    (lastMark mark isLetter (fun _ => true) (c :: s)).isSome = occurs mark isLetter s := by
  rw [lastMark, Option.isSome_map, occurs]

theorem matchesMark_oneLine (mark : Str) {c : Char} {s : Str} (h : OneLine (c :: s)) :
    matchesMark mark (c :: s) = occurs mark isLetter s := by
  rw [matchesMark, wholeLine_oneLine h, Option.bind_some, lastMark_isSome]

/-- What has groups matches. -/
theorem matchesMark_of_findGreedy {mark u : Str} {r : Str × Str × Str} (h : OneLine u) (hfind : findGreedy mark u = some r) :
    matchesMark mark u = true := by
  rw [matchesMark, wholeLine_oneLine h, Option.bind_some, ← findGreedy_oneLine _ h, hfind]
  rfl

/-! ## Which provider is detected -/

theorem detectType_owl {host u : Str} : detectType host u = .owl ↔ isOwl host u = true := by
  unfold detectType
  cases isOwl host u with
  | true => simp
  | false => simp only [Bool.false_eq_true, if_false, iff_false]; split_ifs <;> simp

theorem detectType_rapid {host u : Str} : detectType host u = .rapid ↔ isOwl host u = false ∧ isRapid host u = true := by
  unfold detectType
  cases isOwl host u <;> cases isRapid host u <;> simp
  split_ifs <;> simp

theorem detectType_clip {host u : Str} : detectType host u = .clip ↔
    isOwl host u = false ∧ isRapid host u = false ∧ isClip host u = true := by
  unfold detectType
  cases isOwl host u <;> cases isRapid host u <;> cases isClip host u <;> simp
  split_ifs <;> simp

theorem detectType_ipdeep {host u : Str} : detectType host u = .ipdeep ↔
    isOwl host u = false ∧ isRapid host u = false ∧ isClip host u = false ∧ isIpDeep host u = true := by
  unfold detectType
  cases isOwl host u <;> cases isRapid host u <;> cases isClip host u <;> cases isIpDeep host u <;> simp
  split_ifs <;> simp

theorem detectType_generic {host u : Str} : detectType host u = .generic ↔
    isOwl host u = false ∧ isRapid host u = false ∧ isClip host u = false ∧ isIpDeep host u = false ∧
      (genericParts u).isSome = true := by
  unfold detectType
  cases isOwl host u <;> cases isRapid host u <;> cases isClip host u <;> cases isIpDeep host u <;>
    cases genericParts u <;> simp

/-- The groups of the generic regular expression. -/
theorem genericGroups_some {u base tok : Str} {sep : Char} (h : genericGroups u = some (base, sep, tok)) :
    ∃ body x y, lineBody u = some body ∧ base ≠ [] ∧ tok = [x, y] ∧ (sep = '-' ∨ sep = '_') ∧
      isLetter x = true ∧ isLetter y = true ∧ body = base ++ [sep, x, y] := by
  obtain ⟨body, hbody, h⟩ := Option.bind_eq_some_iff.mp h
  refine ⟨body, ?_⟩
  split at h
  · rename_i y x s b bs hrev
    split at h
    · rename_i hok
      simp only [Bool.and_eq_true, Bool.or_eq_true, beq_iff_eq] at hok
      cases h
      refine ⟨x, y, hbody, by simp, rfl, hok.2, hok.1.1, hok.1.2, ?_⟩
      have hsplit := congrArg List.reverse hrev
      rw [List.reverse_reverse] at hsplit
      rw [hsplit]
      simp
    · cases h
  · cases h

/-- What the generic expression captures of its own usernames. -/
theorem genericGroups_eq {base : Str} {sep x y : Char} (hbase : base ≠ []) (hsep : sep = '-' ∨ sep = '_')
    (hx : isLetter x = true) (hy : isLetter y = true) (h : OneLine (base ++ [sep, x, y])) :
    genericGroups (base ++ [sep, x, y]) = some (base, sep, [x, y]) := by
  obtain ⟨b, bs, hrev⟩ := List.exists_cons_of_ne_nil (List.reverse_ne_nil_iff.mpr hbase)
  have hok : (sep == '-' || sep == '_') = true := by simpa using hsep
  rw [genericGroups, lineBody_oneLine h, Option.bind_some, List.reverse_append, hrev]
  have hback : bs.reverse ++ [b] = base := by
    rw [← List.reverse_cons, ← hrev, List.reverse_reverse]
  simp only [List.reverse_cons, List.reverse_nil, List.nil_append, List.cons_append, hx, hy, hok,
    Bool.and_true, if_true, hback]

/-- What the generic branch reads off a username is what its expression captures. -/
theorem genericParts_some {u : Str} {parts : GenericParts} (h : genericParts u = some parts) :
    ∃ base sep tok, genericGroups u = some (base, sep, tok) ∧ uppercase tok ∈ Countries.codes ∧
      parts = ⟨base, [sep], tok.all isUpperAscii, uppercase tok⟩ := by
  obtain ⟨⟨base, sep, tok⟩, hgroups, hok⟩ := Option.bind_eq_some_iff.mp h
  simp only at hok
  split at hok
  · rename_i hcc
    exact ⟨base, sep, tok, hgroups, hcc, (Option.some.inj hok).symm⟩
  · cases hok

end KiloProxy.Util.ProxyProviders
