import KiloProxy.Util.CountrySwitch

/-!
# What a country tap keeps

A tap keeps the rest of the username exactly when the branch of its provider rebuilds
it: Owl when the text behind the zone is a sticky suffix, Rapid and Clip when there is
none, IpDeep always but for `RE` in front of text that completes another marker, and
the generic branch always. A final line terminator is never kept.
-/

namespace KiloProxy.Util.ProxyProviders
set_option autoImplicit false
open KiloProxy.Text

/-! ## Tokens and groups -/

theorem drop_token (a m z : Str) (x y : Char) :
    (a ++ (m ++ x :: y :: z)).drop (a.length + m.length + 2) = z := by
  rw [show a ++ (m ++ x :: y :: z) = (a ++ m ++ [x, y]) ++ z by simp]
  exact List.drop_left' (by simp only [List.length_append, List.length_cons, List.length_nil])

theorem length_token (a m z : Str) (x y : Char) :
    (a ++ (m ++ x :: y :: z)).length = a.length + m.length + 2 + z.length := by
  simp
  omega

/-- The groups of the regular expressions with a marker, on any text. -/
theorem findGreedy_groups {mark u base cc tail : Str} (h : findGreedy mark u = some (base, cc, tail)) :
    ∃ body x y, lineBody u = some body ∧ cc = [x, y] ∧ body = base ++ (mark ++ x :: y :: tail) := by
  obtain ⟨body, hbody, hgroups⟩ := Option.bind_eq_some_iff.mp h
  obtain ⟨_, _, x, y, _, hcc, hs, _⟩ := lastMark_some hgroups
  exact ⟨body, x, y, hbody, hcc, hs⟩

theorem findLazy_groups {mark u base cc tail : Str} (h : findLazy mark u = some (base, cc, tail)) :
    ∃ body x y, lineBody u = some body ∧ cc = [x, y] ∧ body = base ++ (mark ++ x :: y :: tail) := by
  obtain ⟨body, hbody, hgroups⟩ := Option.bind_eq_some_iff.mp h
  obtain ⟨_, _, x, y, _, hcc, hs, _⟩ := firstMark_some hgroups
  exact ⟨body, x, y, hbody, hcc, hs⟩

/-- The token is two characters of the username. -/
theorem countryToken_split {u pre tok post : Str} {type : ProviderType}
    (h : countryToken u type = some (pre, tok, post)) : tok.length = 2 ∧ u = pre ++ (tok ++ post) := by
  have around : ∀ body mark base tail rest : Str, ∀ x y : Char, u = body ++ rest →
      body = base ++ (mark ++ x :: y :: tail) → pre = base ++ mark → tok = [x, y] →
      post = u.drop (base.length + mark.length + 2) → tok.length = 2 ∧ u = pre ++ (tok ++ post) := by
    rintro body mark base tail rest x y hu rfl rfl rfl rfl
    have hu' : u = base ++ (mark ++ x :: y :: (tail ++ rest)) := by rw [hu]; simp
    refine ⟨rfl, ?_⟩
    rw [hu', drop_token]
    simp
  have greedy : ∀ mark : Str, ((findGreedy mark u).map fun m : Str × Str × Str =>
      (m.1 ++ mark, m.2.1, u.drop (m.1.length + mark.length + 2))) = some (pre, tok, post) →
      tok.length = 2 ∧ u = pre ++ (tok ++ post) := by
    intro mark hm
    obtain ⟨⟨base, cc, tail⟩, hfind, he⟩ := Option.map_eq_some_iff.mp hm
    obtain ⟨body, x, y, hbody, rfl, hs⟩ := findGreedy_groups hfind
    obtain ⟨rest, hrest, _⟩ := lineBody_split hbody
    cases he
    exact around body mark base tail rest x y hrest hs rfl rfl rfl
  cases type with
  | owl =>
    obtain ⟨⟨base, cc, tail⟩, hfind, he⟩ := Option.map_eq_some_iff.mp h
    obtain ⟨body, x, y, hbody, rfl, hs⟩ := findLazy_groups hfind
    obtain ⟨rest, hrest, _⟩ := lineBody_split hbody
    cases he
    exact around body zoneMark base tail rest x y hrest hs rfl rfl rfl
  | rapid => exact greedy residentialMark h
  | clip => exact greedy regionMark h
  | ipdeep => exact greedy resCountryMark h
  | generic =>
    obtain ⟨⟨base, sep, cc⟩, hfind, he⟩ := Option.map_eq_some_iff.mp h
    obtain ⟨body, x, y, hbody, _, rfl, _, _, _, hs⟩ := genericGroups_some hfind
    obtain ⟨rest, hrest, _⟩ := lineBody_split hbody
    cases he
    exact around body [sep] base [] rest x y hrest hs rfl rfl rfl
  | custom => cases h

/-- No branch writes more than the body of the username. -/
theorem newUsername_length {host u code u' : Str} (hcode : code ∈ Countries.codes)
    (h : newUsername host u code = some u') : ∃ body, lineBody u = some body ∧ u'.length ≤ body.length := by
  obtain ⟨hup, _, ⟨a, b, hab, _⟩, a', b', hlow, _⟩ := code_cases hcode
  have built : ∀ mark : Str, ∀ v : Str, v.length = 2 →
      ((findGreedy mark u).map (·.1)).bind (fun base => some (base ++ (mark ++ v))) = some u' →
      ∃ body, lineBody u = some body ∧ u'.length ≤ body.length := by
    intro mark v hv hm
    obtain ⟨base, hbase, he⟩ := Option.bind_eq_some_iff.mp hm
    obtain ⟨⟨base', cc, tail⟩, hfind, rfl⟩ := Option.map_eq_some_iff.mp hbase
    obtain ⟨body, x, y, hbody, _, rfl⟩ := findGreedy_groups hfind
    cases he
    refine ⟨_, hbody, ?_⟩
    rw [length_token]
    simp [hv]
    omega
  unfold newUsername at h
  cases htype : detectType host u with
  | owl =>
    simp only [htype] at h
    obtain ⟨⟨base, cc, tail⟩, hfind, rfl⟩ := Option.map_eq_some_iff.mp h
    obtain ⟨body, hbody, hgroups⟩ := Option.bind_eq_some_iff.mp hfind
    obtain ⟨_, _, x, y, _, _, rfl, _⟩ := firstMark_some hgroups
    refine ⟨_, hbody, ?_⟩
    rw [hlow, length_token]
    simp
    omega
  | rapid =>
    simp only [htype] at h
    exact built residentialMark (uppercase code) (by rw [hup, hab]; rfl) h
  | clip =>
    simp only [htype] at h
    exact built regionMark (uppercase code) (by rw [hup, hab]; rfl) h
  | ipdeep =>
    simp only [htype] at h
    obtain ⟨⟨base, cc, tail⟩, hfind, rfl⟩ := Option.map_eq_some_iff.mp h
    obtain ⟨body, x, y, hbody, _, rfl⟩ := findGreedy_groups hfind
    refine ⟨_, hbody, ?_⟩
    rw [hlow, length_token]
    simp
    omega
  | generic =>
    simp only [htype] at h
    obtain ⟨parts, hparts, he⟩ := Option.bind_eq_some_iff.mp h
    obtain ⟨base, sep, cc, hgroups, _, rfl⟩ := genericParts_some hparts
    obtain ⟨body, x, y, hbody, _, _, _, _, _, rfl⟩ := genericGroups_some hgroups
    cases he
    refine ⟨_, hbody, ?_⟩
    rw [hup, hlow, hab]
    split <;> simp
  | custom =>
    simp only [htype] at h
    cases h

/-- A final line terminator is lost. -/
theorem oneLine_of_switches {host u code : Str} (hcode : code ∈ Countries.codes)
    (h : SwitchesOnly newUsername host u code) : OneLine u := by
  obtain ⟨pre, tok, post, tok', htoken, hnew, hup, _⟩ := h
  obtain ⟨htwo, hu⟩ := countryToken_split htoken
  obtain ⟨body, hbody, hlen⟩ := newUsername_length hcode hnew
  obtain ⟨rest, hrest, _, hline⟩ := lineBody_split hbody
  rw [← hline]
  have htwo' : tok'.length = 2 := by
    obtain ⟨_, _, ⟨a, b, hab, _⟩, _⟩ := code_cases hcode
    have := congrArg List.length hup
    rw [hab, uppercase, List.length_map] at this
    exact this
  have hlen₁ := congrArg List.length hu
  have hlen₂ := congrArg List.length hrest
  simp only [List.length_append] at hlen hlen₁ hlen₂
  exact List.length_eq_zero_iff.mp (by omega)

/-- A letter at the end does not complete the zone marker. -/
theorem zone_drop {z : Char} (hz : isLetter z = true) (w : Str) : zoneMark <:+: w ++ [z] ↔ zoneMark <:+: w := by
  rw [List.infix_concat_iff]
  constructor
  · rintro (h | h)
    · have hlast := List.IsSuffix.getLast h (by decide)
      simp only [List.getLast_append_singleton] at hlast
      rw [← hlast] at hz
      exact absurd hz (by decide)
    · exact h
  · exact .inr

/-- The Owl marker ends in no letter: the two letters at the end are not part of it. -/
theorem zone_two {x y : Char} (hx : isLetter x = true) (hy : isLetter y = true) (w : Str) (sep : Char) :
    zoneMark <:+: w ++ [sep, x, y] ↔ zoneMark <:+: w ++ [sep] := by
  rw [show w ++ [sep, x, y] = w ++ [sep] ++ [x] ++ [y] by simp, zone_drop hy, zone_drop hx]

section Trailing

variable {sep x y x' y' : Char} (hsep : sep = '-' ∨ sep = '_') (hx : isLetter x = true) (hy : isLetter y = true)
  (hx' : isLetter x' = true) (hy' : isLetter y' = true)
include hx hy hx' hy'

theorem zone_trailing (w : Str) : zoneMark <:+: w ++ [sep, x, y] ↔ zoneMark <:+: w ++ [sep, x', y'] := by
  rw [zone_two hx hy, zone_two hx' hy']

include hsep in
theorem matchesMark_trailing {mark : Str} (hmark : mark ≠ []) {w : Str} (hw : w ≠ [])
    (h : OneLine (w ++ [sep, x, y])) (h' : OneLine (w ++ [sep, x', y'])) :
    matchesMark mark (w ++ [sep, x, y]) = matchesMark mark (w ++ [sep, x', y']) := by
  obtain ⟨c, b, rfl⟩ := List.exists_cons_of_ne_nil hw
  rw [List.cons_append] at h h' ⊢
  have hm : isLetter sep = false := by rcases hsep with rfl | rfl <;> decide
  rw [List.cons_append, matchesMark_oneLine mark h, matchesMark_oneLine mark h',
    occurs_trailing hmark hm hx hy hx' hy']

omit hx hy in
theorem oneLine_trailing {w : Str} (h : OneLine (w ++ [sep, x, y])) : OneLine (w ++ [sep, x', y']) := by
  have hmark : OneLine (w ++ ([sep] ++ x :: y :: [])) := h
  exact oneLine_swap hx' hy' hmark

include hsep in
/-- The checks for the known providers do not see which letters end the username. -/
theorem detect_trailing (host : Str) {w : Str} (hw : w ≠ []) (h : OneLine (w ++ [sep, x, y])) :
    isOwl host (w ++ [sep, x', y']) = isOwl host (w ++ [sep, x, y]) ∧
      isRapid host (w ++ [sep, x', y']) = isRapid host (w ++ [sep, x, y]) ∧
      isClip host (w ++ [sep, x', y']) = isClip host (w ++ [sep, x, y]) ∧
      isIpDeep host (w ++ [sep, x', y']) = isIpDeep host (w ++ [sep, x, y]) := by
  have h' : OneLine (w ++ [sep, x', y']) := oneLine_trailing hx' hy' h
  have hmark : ∀ mark : Str, mark ≠ [] → matchesMark mark (w ++ [sep, x', y']) = matchesMark mark (w ++ [sep, x, y]) :=
    fun mark hne => matchesMark_trailing hsep hx' hy' hx hy hne hw h' h
  refine ⟨?_, ?_, ?_, ?_⟩
  · rw [isOwl, isOwl, decide_eq_decide.mpr (zone_trailing hx' hy' hx hy w)]
  · rw [isRapid, isRapid, hmark residentialMark (by decide)]
  · rw [isClip, isClip, hmark regionMark (by decide)]
  · rw [isIpDeep, isIpDeep, hmark resCountryMark (by decide)]

end Trailing

/-- The branches that drop the text behind the token. -/
theorem dropped_iff (mark₀ : Str) {host u code base cc tail : Str} {type : ProviderType} (hcode : code ∈ Countries.codes)
    (hline : OneLine u) (htype : detectType host u = type)
    (hnew : newUsername host u code =
      ((findGreedy (mark₀ ++ ['-']) u).map (·.1)).bind fun base => some (base ++ (mark₀ ++ ['-'] ++ uppercase code)))
    (htoken : countryToken u type = (findGreedy (mark₀ ++ ['-']) u).map fun m =>
      (m.1 ++ (mark₀ ++ ['-']), m.2.1, u.drop (m.1.length + (mark₀ ++ ['-']).length + 2)))
    (hparse : ∀ v, parseCountry v type = (findGreedy (mark₀ ++ ['-']) v).map (·.2.1))
    (hdetect : ∀ w x y x' y', w ≠ [] → isLetter x = true → isLetter y = true → isLetter x' = true →
      isLetter y' = true → OneLine (w ++ ['-', x, y]) → detectType host (w ++ ['-', x, y]) = type →
      detectType host (w ++ ['-', x', y']) = type)
    (hfind : findGreedy (mark₀ ++ ['-']) u = some (base, cc, tail)) :
    SwitchesOnly newUsername host u code ↔ tail = [] := by
  obtain ⟨hup, _, ⟨a, b, hab, ha, hb⟩, _⟩ := code_cases hcode
  have hgroups := hfind
  rw [findGreedy_oneLine _ hline] at hgroups
  obtain ⟨c, base', x, y, rfl, rfl, hu, hx, hy, _⟩ := lastMark_some hgroups
  have hnew' : newUsername host u code = some (c :: base' ++ (mark₀ ++ ['-'] ++ [a, b])) := by
    rw [hnew, hfind, hup, hab]
    rfl
  constructor
  · rintro ⟨pre, tok, post, tok', htok, htap, hcc, _⟩
    obtain ⟨htwo, hsplit⟩ := countryToken_split htok
    have hsame := Option.some.inj (htap.symm.trans hnew')
    have htwo' : tok'.length = 2 := by
      have := congrArg List.length hcc
      rwa [hab, uppercase, List.length_map] at this
    have hlen₁ := congrArg List.length hsame
    have hlen₂ := congrArg List.length (hsplit.symm.trans hu)
    rw [length_token] at hlen₂
    simp only [List.length_append, List.length_cons, List.length_nil] at hlen₁ hlen₂
    exact List.length_eq_zero_iff.mp (by omega)
  · rintro rfl
    have hw : ∀ x y : Char, c :: base' ++ (mark₀ ++ ['-'] ++ [x, y]) = c :: base' ++ mark₀ ++ ['-', x, y] := by
      intro x y; simp
    have hline' : OneLine (c :: base' ++ mark₀ ++ ['-', a, b]) :=
      oneLine_trailing ha hb (by rw [← hw, ← hu]; exact hline)
    have htype' : detectType host (c :: base' ++ (mark₀ ++ ['-'] ++ [a, b])) = type := by
      rw [hw]
      apply hdetect _ x y a b (by simp) hx hy ha hb
      · rw [← hw, ← hu]; exact hline
      · rw [← hw, ← hu]; exact htype
    have hread : findGreedy (mark₀ ++ ['-']) (c :: base' ++ (mark₀ ++ ['-'] ++ [a, b])) = some (c :: base', [a, b], []) := by
      rw [findGreedy_oneLine _ (by rw [hw]; exact hline')]
      exact lastMark_end (by simp) ha hb rfl
    refine ⟨c :: base' ++ (mark₀ ++ ['-']), [x, y], [], [a, b], ?_, ?_, ?_, ?_⟩
    · rw [htype, htoken, hfind, hu]
      simp only [Option.map_some, drop_token]
    · rw [hnew']
      simp
    · rw [← hab]; exact hup
    · have hsame : c :: base' ++ (mark₀ ++ ['-']) ++ ([a, b] ++ []) = c :: base' ++ (mark₀ ++ ['-'] ++ [a, b]) := by
        simp
      rw [hsame, htype', hparse, hread, Option.map_some, Option.map_some, ← hab, hup]

/-- A tap on a Rapid username keeps the rest exactly when there is none. -/
theorem rapid_switches_iff {host u code base cc tail : Str} (hcode : code ∈ Countries.codes) (hline : OneLine u)
    (htype : detectType host u = .rapid) (hfind : findGreedy residentialMark u = some (base, cc, tail)) :
    SwitchesOnly newUsername host u code ↔ tail = [] := by
  apply dropped_iff "-residential".toList hcode hline htype _ rfl (fun _ => rfl) _ hfind
  · simp only [newUsername, htype]
    rfl
  · intro w x y x' y' hw hx hy hx' hy' h ht
    obtain ⟨howl, hrapid, _⟩ := detect_trailing (.inl rfl) hx hy hx' hy' host hw h
    rw [detectType_rapid] at ht ⊢
    rwa [howl, hrapid]

/-- A tap on a username of Clip keeps the rest exactly when there is none. -/
theorem clip_switches_iff {host u code base cc tail : Str} (hcode : code ∈ Countries.codes) (hline : OneLine u)
    (htype : detectType host u = .clip) (hfind : findGreedy regionMark u = some (base, cc, tail)) :
    SwitchesOnly newUsername host u code ↔ tail = [] := by
  apply dropped_iff "-region".toList hcode hline htype _ rfl (fun _ => rfl) _ hfind
  · simp only [newUsername, htype]
    rfl
  · intro w x y x' y' hw hx hy hx' hy' h ht
    obtain ⟨howl, hrapid, hclip, _⟩ := detect_trailing (.inl rfl) hx hy hx' hy' host hw h
    rw [detectType_clip] at ht ⊢
    rwa [howl, hrapid, hclip]

/-- The generic branch always keeps the rest. -/
theorem generic_switches {host u code : Str} (hcode : code ∈ Countries.codes) (hline : OneLine u)
    (htype : detectType host u = .generic) : SwitchesOnly newUsername host u code := by
  obtain ⟨hup, hul, ⟨a, b, hab, ha, hb⟩, a', b', hlow, ha', hb', _⟩ := code_cases hcode
  obtain ⟨howl, hrapid, hclip, hdeep, hsome⟩ := detectType_generic.mp htype
  obtain ⟨parts, hparts⟩ := Option.isSome_iff_exists.mp hsome
  obtain ⟨base, sep, tok, hgroups, hcc, rfl⟩ := genericParts_some hparts
  obtain ⟨body, x, y, hbody, hbase, rfl, hsep, hx, hy, rfl⟩ := genericGroups_some hgroups
  rw [lineBody_oneLine hline] at hbody
  obtain rfl := Option.some.inj hbody
  -- the code in the case of the old token
  obtain ⟨v, w, hcase, hv, hw, hread⟩ : ∃ v w, (if [x, y].all isUpperAscii then uppercase code else lowercase code) =
      [v, w] ∧ isLetter v = true ∧ isLetter w = true ∧ uppercase [v, w] = code := by
    split
    · exact ⟨a, b, hup.trans hab, ha, hb, by rw [← hab, hup]⟩
    · exact ⟨a', b', hlow, ha', hb', by rw [← hlow, hul]⟩
  have hline' : OneLine (base ++ [sep, v, w]) := oneLine_trailing hv hw hline
  have hgroups' := genericGroups_eq hbase hsep hv hw hline'
  have hparts' : genericParts (base ++ [sep, v, w]) = some ⟨base, [sep], [v, w].all isUpperAscii, code⟩ := by
    rw [genericParts, hgroups', Option.bind_some]
    simp only [hread]
    rw [if_pos hcode]
  have htype' : detectType host (base ++ [sep, v, w]) = .generic := by
    obtain ⟨h1, h2, h3, h4⟩ := detect_trailing hsep hx hy hv hw host hbase hline
    rw [detectType_generic, h1, h2, h3, h4, hparts']
    exact ⟨howl, hrapid, hclip, hdeep, rfl⟩
  have hsplit : base ++ [sep] ++ ([v, w] ++ []) = base ++ [sep, v, w] := by simp
  refine ⟨base ++ [sep], [x, y], [], [v, w], ?_, ?_, hread, ?_⟩
  · have hdrop := drop_token base [sep] [] x y
    simp only [List.cons_append, List.nil_append] at hdrop
    simp only [htype, countryToken, hgroups, Option.map_some, hdrop]
  · simp only [newUsername, htype, hparts, Option.bind_some, buildUsername, hcase]
    simp
  · rw [hsplit, htype']
    simp only [parseCountry, hparts', Option.map_some, hup]

/-! ## IpDeep

The three markers with a hyphen in front all start with `-re`. -/

section ReMarks

variable {m tail : Str} {x y : Char} (hx : isLetter x = true) (hy : isLetter y = true)

def reMark (m : Str) : Str := '-' :: 'r' :: 'e' :: m

theorem markAt_reMark_ne {c : Char} (hc : c ≠ '-') (s : Str) :
    markAt (reMark m) isLetter (fun _ => true) (c :: s) = none := by
  rw [markAt, if_neg]
  simp [reMark, hc.symm]

/-- A hyphen, the two letters and the tail hold a marker exactly when the letters are
`re` and the tail completes it. -/
theorem markAt_hyphen {cc t : Str} : markAt (reMark m) isLetter (fun _ => true) ('-' :: x :: y :: tail) = some (cc, t) ↔
    x = 'r' ∧ y = 'e' ∧ ∃ v w, cc = [v, w] ∧ tail = m ++ v :: w :: t ∧ isLetter v = true ∧ isLetter w = true := by
  rw [markAt_some]
  simp only [reMark, List.cons_append, List.cons.injEq, true_and]
  constructor
  · rintro ⟨v, w, rfl, ⟨rfl, rfl, rfl⟩, hv, hw, _⟩
    exact ⟨rfl, rfl, v, w, rfl, rfl, hv, hw⟩
  · rintro ⟨rfl, rfl, v, w, rfl, rfl, hv, hw⟩
    exact ⟨v, w, rfl, ⟨rfl, rfl, rfl⟩, hv, hw, trivial⟩

include hx hy in
theorem lastAt_letters (h : lastAt (reMark m) isLetter (fun _ => true) tail = none) :
    lastAt (reMark m) isLetter (fun _ => true) (x :: y :: tail) = none :=
  lastAt_none_cons.mpr ⟨lastAt_none_cons.mpr ⟨h, markAt_reMark_ne (isLetter_not hy (by decide)) _⟩,
    markAt_reMark_ne (isLetter_not hx (by decide)) _⟩

/-- No marker starts between the hyphens of `-res-country-`. -/
theorem lastAt_country {s : Str} (h : lastAt (reMark m) isLetter (fun _ => true) s = none) :
    lastAt (reMark m) isLetter (fun _ => true) ("res-country".toList ++ s) = none := by
  have hyphen : markAt (reMark m) isLetter (fun _ => true) ("-country".toList ++ s) = none := by
    rw [markAt, if_neg]
    simp [reMark]
  have hcountry : lastAt (reMark m) isLetter (fun _ => true) ("country".toList ++ s) = none := by
    simp [lastAt_none_cons, markAt_reMark_ne, h]
  have hmid : lastAt (reMark m) isLetter (fun _ => true) ("-country".toList ++ s) = none :=
    lastAt_none_cons.mpr ⟨hcountry, hyphen⟩
  have hres : ∀ r : Str, lastAt (reMark m) isLetter (fun _ => true) r = none →
      lastAt (reMark m) isLetter (fun _ => true) ('r' :: 'e' :: 's' :: r) = none := by
    intro r hr
    simp [lastAt_none_cons, markAt_reMark_ne, hr]
  exact hres _ hmid

/-- The text of the marker between its first and its last hyphen. -/
theorem resCountryMark_split : resCountryMark = '-' :: ("res-country".toList ++ ['-']) := by decide

include hx hy in
/-- Behind the first hyphen of `-res-country-`: a marker stands across the letters or nowhere. -/
theorem lastAt_resCountry (htail : lastAt (reMark m) isLetter (fun _ => true) tail = none) (q : Str × Str) :
    (markAt (reMark m) isLetter (fun _ => true) ('-' :: x :: y :: tail) = none →
        lastAt (reMark m) isLetter (fun _ => true) ("res-country".toList ++ ('-' :: x :: y :: tail)) = none) ∧
      (markAt (reMark m) isLetter (fun _ => true) ('-' :: x :: y :: tail) = some q →
        ∃ b, lastAt (reMark m) isLetter (fun _ => true) ("res-country".toList ++ ('-' :: x :: y :: tail)) = some (b, q)) := by
  have hletters := lastAt_letters hx hy htail
  constructor
  · intro hmark
    exact lastAt_country (lastAt_none_cons.mpr ⟨hletters, hmark⟩)
  · intro hmark
    exact ⟨_, lastAt_append _ (lastAt_here hmark hletters)⟩

/-- `-res-country-` itself starts no other marker. -/
theorem markAt_resCountry (hm : m = "sidential-".toList ∨ m = "gion-".toList) (s : Str) :
    markAt (reMark m) isLetter (fun _ => true) ('-' :: ("res-country".toList ++ s)) = none := by
  rw [markAt, if_neg]
  rcases hm with rfl | rfl <;> simp [reMark]

theorem resCountryMark_append (s : Str) : resCountryMark ++ s = '-' :: ("res-country".toList ++ ('-' :: s)) := by
  rw [resCountryMark_split]
  simp only [List.cons_append, List.append_assoc, List.nil_append]

include hx hy in
/-- A marker across the letters is the last one of its kind, and is read. -/
theorem findGreedy_crossing {c : Char} {b : Str} {q : Str × Str}
    (hline : OneLine (c :: b ++ (resCountryMark ++ x :: y :: tail)))
    (htail : lastAt (reMark m) isLetter (fun _ => true) tail = none)
    (hmark : markAt (reMark m) isLetter (fun _ => true) ('-' :: x :: y :: tail) = some q) :
    ∃ base, findGreedy (reMark m) (c :: b ++ (resCountryMark ++ x :: y :: tail)) = some (base, q) := by
  obtain ⟨d, hd⟩ := (lastAt_resCountry hx hy htail q).2 hmark
  have hall := lastAt_append (b ++ ['-']) hd
  rw [findGreedy_oneLine _ hline, resCountryMark_append, List.cons_append, lastMark]
  rw [List.append_assoc, List.cons_append, List.nil_append] at hall
  rw [hall]
  exact ⟨_, rfl⟩

include hx hy in
/-- Where one of the other two markers does not occur with some letters, it occurs with
others exactly when one crosses them. -/
theorem occurs_crossing (hm : m = "sidential-".toList ∨ m = "gion-".toList) {b z : Str}
    (hb : occurs (reMark m) isLetter (b ++ (resCountryMark ++ z)) = false)
    (htail : lastAt (reMark m) isLetter (fun _ => true) tail = none) :
    occurs (reMark m) isLetter (b ++ (resCountryMark ++ x :: y :: tail)) =
      (markAt (reMark m) isLetter (fun _ => true) ('-' :: x :: y :: tail)).isSome := by
  have hlen : (reMark m).length ≤ resCountryMark.length := by rcases hm with rfl | rfl <;> decide
  have near : ∀ c, markAt (reMark m) isLetter (fun _ => true) (c :: (resCountryMark ++ x :: y :: tail)) = none := by
    intro c
    rw [resCountryMark_append, markAt, if_neg]
    simp [reMark]
  rw [occurs_far hlen (fun c _ => near c) hb, resCountryMark_append, occurs_cons, markAt_resCountry hm]
  cases hmark : markAt (reMark m) isLetter (fun _ => true) ('-' :: x :: y :: tail) with
  | none => rw [occurs, (lastAt_resCountry hx hy htail ([], [])).1 hmark]; rfl
  | some q =>
    obtain ⟨d, hd⟩ := (lastAt_resCountry hx hy htail q).2 hmark
    rw [occurs, hd]; rfl

end ReMarks

/-- A hyphen is not in the zone marker, so it parts the search. -/
theorem zone_behind_hyphen {s t : Str} : zoneMark <:+: s ++ '-' :: t ↔ zoneMark <:+: s ∨ zoneMark <:+: t := by
  constructor
  · rintro ⟨a, b, h⟩
    rw [List.append_assoc] at h
    rcases List.append_eq_append_iff.mp h with ⟨c, rfl, hc⟩ | ⟨c, rfl, hc⟩
    · rcases List.append_eq_append_iff.mp hc with ⟨d, rfl, _⟩ | ⟨d, hd, hrest⟩
      · exact .inl ⟨a, d, by simp⟩
      · cases d with
        | nil => rw [List.append_nil] at hd; exact .inl ⟨a, [], by simp [hd]⟩
        | cons e d =>
          have hmem : e ∈ zoneMark := by rw [hd]; simp
          cases hrest
          exact absurd hmem (by decide)
    · cases c with
      | nil =>
        have hmem : '-' ∈ zoneMark := by
          obtain ⟨z, hz⟩ : ∃ z, zoneMark = '_' :: z := ⟨_, rfl⟩
          rw [hz] at hc
          cases hc
        exact absurd hmem (by decide)
      | cons e c =>
        cases hc
        exact .inr ⟨c, b, by simp⟩
  · rintro (h | h)
    · exact h.trans (List.infix_append' [] s _)
    · exact h.trans ⟨s ++ ['-'], [], by simp⟩

/-- Two letters in front do not make a zone. -/
theorem zone_letters {x y : Char} {tail : Str} (hx : isLetter x = true) (hy : isLetter y = true) :
    zoneMark <:+: x :: y :: tail ↔ zoneMark <:+: tail := by
  have skip : ∀ z s, isLetter z = true → (zoneMark <:+: z :: s ↔ zoneMark <:+: s) := by
    intro z s hz
    rw [List.infix_cons_iff]
    constructor
    · rintro (⟨b, h⟩ | h)
      · cases h
        exact absurd hz (by decide)
      · exact h
    · exact .inr
  rw [skip x _ hx, skip y _ hy]

theorem residentialMark_re : residentialMark = reMark "sidential-".toList := by decide
theorem regionMark_re : regionMark = reMark "gion-".toList := by decide

/-- An IpDeep username: where its last marker is, and that no other marker occurs. -/
structure IpDeepShape (host : Str) (c : Char) (b : Str) (x y : Char) (tail : Str) : Prop where
  line : OneLine (c :: b ++ (resCountryMark ++ x :: y :: tail))
  first : isLetter x = true
  second : isLetter y = true
  last : lastAt resCountryMark isLetter (fun _ => true) (resCountryMark.tail ++ x :: y :: tail) = none
  owl : isOwl host (c :: b ++ (resCountryMark ++ x :: y :: tail)) = false
  rapid : isRapid host (c :: b ++ (resCountryMark ++ x :: y :: tail)) = false
  clip : isClip host (c :: b ++ (resCountryMark ++ x :: y :: tail)) = false

namespace IpDeepShape

variable {host b tail : Str} {c x y x' y' : Char} (h : IpDeepShape host c b x y tail)
include h

theorem line_of (hx' : isLetter x' = true) (hy' : isLetter y' = true) :
    OneLine (c :: b ++ (resCountryMark ++ x' :: y' :: tail)) := oneLine_swap hx' hy' h.line

/-- The other two kinds of marker do not occur. -/
theorem clean {m : Str} (hm : m = "sidential-".toList ∨ m = "gion-".toList) :
    occurs (reMark m) isLetter (b ++ (resCountryMark ++ x :: y :: tail)) = false := by
  have hmatch : matchesMark (reMark m) (c :: b ++ (resCountryMark ++ x :: y :: tail)) = false := by
    rcases hm with rfl | rfl
    · exact (Bool.or_eq_false_iff.mp h.rapid).2
    · exact (Bool.or_eq_false_iff.mp h.clip).2
  have hline := h.line
  rw [List.cons_append] at hmatch hline
  rwa [matchesMark_oneLine _ hline] at hmatch

theorem clean_tail {m : Str} (hm : m = "sidential-".toList ∨ m = "gion-".toList) :
    lastAt (reMark m) isLetter (fun _ => true) tail = none := by
  have hright := h.clean hm
  rw [occurs, Option.isSome_eq_false_iff, Option.isNone_iff_eq_none] at hright
  have hsplit : b ++ (resCountryMark ++ x :: y :: tail) = b ++ resCountryMark ++ [x, y] ++ tail := by simp
  rw [hsplit] at hright
  exact lastAt_none_right hright

theorem clean_country : lastAt resCountryMark isLetter (fun _ => true) tail = none := by
  have hsplit : resCountryMark.tail ++ x :: y :: tail = resCountryMark.tail ++ [x, y] ++ tail := by simp
  have hlast := h.last
  rw [hsplit] at hlast
  exact lastAt_none_right hlast

/-- Owl is not detected after the rewrite either. -/
theorem owl_of (hx' : isLetter x' = true) (hy' : isLetter y' = true) :
    isOwl host (c :: b ++ (resCountryMark ++ x' :: y' :: tail)) = false := by
  have hzone : zoneMark <:+: c :: b ++ (resCountryMark ++ x' :: y' :: tail) ↔
      zoneMark <:+: c :: b ++ (resCountryMark ++ x :: y :: tail) := by
    have hsplit : ∀ z : Str, c :: b ++ (resCountryMark ++ z) = c :: b ++ ('-' :: "res-country".toList) ++ '-' :: z := by
      intro z
      rw [resCountryMark_append]
      simp only [List.cons_append, List.append_assoc]
    rw [hsplit, hsplit (x :: y :: tail), zone_behind_hyphen, zone_behind_hyphen, zone_behind_hyphen,
      zone_behind_hyphen, zone_letters hx' hy', zone_letters h.first h.second]
  have howl := h.owl
  rw [isOwl, decide_eq_decide.mpr hzone]
  exact howl

theorem rapid_of (hx' : isLetter x' = true) (hy' : isLetter y' = true) :
    isRapid host (c :: b ++ (resCountryMark ++ x' :: y' :: tail)) =
      (markAt (reMark "sidential-".toList) isLetter (fun _ => true) ('-' :: x' :: y' :: tail)).isSome := by
  have hhost := (Bool.or_eq_false_iff.mp h.rapid).1
  have hline := h.line_of hx' hy'
  rw [List.cons_append] at hline ⊢
  rw [isRapid, hhost, Bool.false_or, matchesMark_oneLine _ hline, residentialMark_re,
    occurs_crossing hx' hy' (.inl rfl) (h.clean (.inl rfl)) (h.clean_tail (.inl rfl))]

theorem clip_of (hx' : isLetter x' = true) (hy' : isLetter y' = true) :
    isClip host (c :: b ++ (resCountryMark ++ x' :: y' :: tail)) =
      (markAt (reMark "gion-".toList) isLetter (fun _ => true) ('-' :: x' :: y' :: tail)).isSome := by
  have hhost := (Bool.or_eq_false_iff.mp h.clip).1
  have hline := h.line_of hx' hy'
  rw [List.cons_append] at hline ⊢
  rw [isClip, hhost, Bool.false_or, matchesMark_oneLine _ hline, regionMark_re,
    occurs_crossing hx' hy' (.inr rfl) (h.clean (.inr rfl)) (h.clean_tail (.inr rfl))]

/-- The last `-res-country-` of the rewritten username. -/
theorem country_of (hx' : isLetter x' = true) (hy' : isLetter y' = true) :
    ∃ base t, findGreedy resCountryMark (c :: b ++ (resCountryMark ++ x' :: y' :: tail)) =
      some (base, match markAt (reMark "s-country-".toList) isLetter (fun _ => true) ('-' :: x' :: y' :: tail) with
        | some q => q
        | none => ([x', y'], t)) := by
  have hline := h.line_of hx' hy'
  cases hmark : markAt (reMark "s-country-".toList) isLetter (fun _ => true) ('-' :: x' :: y' :: tail) with
  | some q =>
    obtain ⟨base, hfind⟩ := findGreedy_crossing hx' hy' hline h.clean_country hmark
    exact ⟨base, [], hfind⟩
  | none =>
    have hrest := (lastAt_resCountry hx' hy' h.clean_country ([], [])).1 hmark
    have hhere : markAt resCountryMark isLetter (fun _ => true) (resCountryMark ++ x' :: y' :: tail) =
        some ([x', y'], tail) := markAt_here hx' hy' rfl
    rw [resCountryMark_append] at hhere
    have hall := lastAt_append b (lastAt_here hhere hrest)
    refine ⟨c :: (b ++ []), tail, ?_⟩
    rw [findGreedy_oneLine _ hline, List.cons_append, resCountryMark_append, lastMark, hall]
    rfl

/-- How the rewritten username is read back. -/
theorem reads (hx' : isLetter x' = true) (hy' : isLetter y' = true) {u' : Str}
    (hu' : u' = c :: b ++ (resCountryMark ++ x' :: y' :: tail)) :
    parseCountry u' (detectType host u') =
      match markAt (reMark "sidential-".toList) isLetter (fun _ => true) ('-' :: x' :: y' :: tail) with
      | some q => some q.1
      | none =>
        match markAt (reMark "gion-".toList) isLetter (fun _ => true) ('-' :: x' :: y' :: tail) with
        | some q => some q.1
        | none =>
          match markAt (reMark "s-country-".toList) isLetter (fun _ => true) ('-' :: x' :: y' :: tail) with
          | some q => some q.1
          | none => some [x', y'] := by
  have hline := h.line_of hx' hy'
  have howl := h.owl_of hx' hy'
  have hrapid := h.rapid_of hx' hy'
  have hclip := h.clip_of hx' hy'
  obtain ⟨base, t, hcountry⟩ := h.country_of hx' hy'
  rw [← hu'] at hline howl hrapid hclip hcountry
  cases hr : markAt (reMark "sidential-".toList) isLetter (fun _ => true) ('-' :: x' :: y' :: tail) with
  | some q =>
    rw [hr] at hrapid
    obtain ⟨base, hfind⟩ := findGreedy_crossing hx' hy' (by rw [← hu']; exact hline) (h.clean_tail (.inl rfl)) hr
    rw [← hu', ← residentialMark_re] at hfind
    rw [detectType_rapid.mpr ⟨howl, hrapid⟩, parseCountry, hfind]
    rfl
  | none =>
    rw [hr] at hrapid
    cases hc : markAt (reMark "gion-".toList) isLetter (fun _ => true) ('-' :: x' :: y' :: tail) with
    | some q =>
      rw [hc] at hclip
      obtain ⟨base, hfind⟩ := findGreedy_crossing hx' hy' (by rw [← hu']; exact hline) (h.clean_tail (.inr rfl)) hc
      rw [← hu', ← regionMark_re] at hfind
      rw [detectType_clip.mpr ⟨howl, hrapid, hclip⟩, parseCountry, hfind]
      rfl
    | none =>
      rw [hc] at hclip
      have hdeep : isIpDeep host u' = true := by
        rw [isIpDeep, matchesMark_of_findGreedy hline hcountry, Bool.or_true]
      rw [detectType_ipdeep.mpr ⟨howl, hrapid, hclip, hdeep⟩, parseCountry, hcountry]
      cases markAt (reMark "s-country-".toList) isLetter (fun _ => true) ('-' :: x' :: y' :: tail) <;> rfl

end IpDeepShape

/-- A marker in the tail that `re` completes is read instead of the code. -/
theorem reads_code_iff {tail code : Str} {x' y' : Char} (hx' : isLetter x' = true) (hy' : isLetter y' = true)
    (hread : uppercase [x', y'] = code) (hre : x' = 'r' → y' = 'e' → code = "RE".toList)
    (hlow : code = "RE".toList → x' = 'r' ∧ y' = 'e') :
    ((match markAt (reMark "sidential-".toList) isLetter (fun _ => true) ('-' :: x' :: y' :: tail) with
      | some q => some q.1
      | none =>
        match markAt (reMark "gion-".toList) isLetter (fun _ => true) ('-' :: x' :: y' :: tail) with
        | some q => some q.1
        | none =>
          match markAt (reMark "s-country-".toList) isLetter (fun _ => true) ('-' :: x' :: y' :: tail) with
          | some q => some q.1
          | none => some [x', y'] : Option Str).map uppercase = some code) ↔
      (code = "RE".toList → ∀ m ∈ reMarks, ∀ x y, isLetter x = true → isLetter y = true →
        m ++ [x, y] <+: tail → uppercase [x, y] = code) := by
  have crosses : ∀ m cc t, markAt (reMark m) isLetter (fun _ => true) ('-' :: x' :: y' :: tail) = some (cc, t) →
      code = "RE".toList ∧ ∃ v w, cc = [v, w] ∧ isLetter v = true ∧ isLetter w = true ∧ m ++ [v, w] <+: tail := by
    intro m cc t hm
    obtain ⟨hr, he, v, w, rfl, rfl, hv, hw⟩ := markAt_hyphen.mp hm
    exact ⟨hre hr he, v, w, rfl, hv, hw, ⟨t, by simp⟩⟩
  have read_of : ∀ m ∈ reMarks, ∀ cc t,
      markAt (reMark m) isLetter (fun _ => true) ('-' :: x' :: y' :: tail) = some (cc, t) →
      (code = "RE".toList → ∀ m ∈ reMarks, ∀ x y, isLetter x = true → isLetter y = true →
        m ++ [x, y] <+: tail → uppercase [x, y] = code) → uppercase cc = code := by
    intro m hm cc t hmark hcond
    obtain ⟨hcode, v, w, rfl, hv, hw, hpre⟩ := crosses m cc t hmark
    exact hcond hcode m hm v w hv hw hpre
  constructor
  · intro h hcode m hm x y hx hy hpre
    obtain ⟨t, rfl⟩ := hpre
    obtain ⟨rfl, rfl⟩ := hlow hcode
    have hhere : markAt (reMark m) isLetter (fun _ => true) ('-' :: 'r' :: 'e' :: (m ++ [x, y] ++ t)) = some ([x, y], t) :=
      markAt_hyphen.mpr ⟨rfl, rfl, x, y, rfl, by simp, hx, hy⟩
    -- only one of the three can start the tail
    have other : ∀ m', (∃ a r a' r', m = a :: r ∧ m' = a' :: r' ∧ a ≠ a') →
        markAt (reMark m') isLetter (fun _ => true) ('-' :: 'r' :: 'e' :: (m ++ [x, y] ++ t)) = none := by
      rintro m' ⟨a, r, a', r', rfl, rfl, hne⟩
      rw [markAt, if_neg]
      simp [reMark, hne.symm]
    have second : ∀ m', (∃ a b r b' r', m = a :: b :: r ∧ m' = a :: b' :: r' ∧ b ≠ b') →
        markAt (reMark m') isLetter (fun _ => true) ('-' :: 'r' :: 'e' :: (m ++ [x, y] ++ t)) = none := by
      rintro m' ⟨a, b, r, b', r', rfl, rfl, hne⟩
      rw [markAt, if_neg]
      simp [reMark, hne.symm]
    simp only [reMarks, List.mem_cons, List.not_mem_nil, or_false] at hm
    rcases hm with rfl | rfl | rfl
    · rw [hhere] at h
      exact Option.some.inj h
    · rw [hhere, other "sidential-".toList ⟨_, _, _, _, rfl, rfl, by decide⟩] at h
      exact Option.some.inj h
    · rw [hhere, second "sidential-".toList ⟨_, _, _, _, _, rfl, rfl, by decide⟩,
        other "gion-".toList ⟨_, _, _, _, rfl, rfl, by decide⟩] at h
      exact Option.some.inj h
  · intro h
    cases h₁ : markAt (reMark "sidential-".toList) isLetter (fun _ => true) ('-' :: x' :: y' :: tail) with
    | some q => exact congrArg some (read_of _ (by simp [reMarks]) q.1 q.2 h₁ h)
    | none =>
      cases h₂ : markAt (reMark "gion-".toList) isLetter (fun _ => true) ('-' :: x' :: y' :: tail) with
      | some q => exact congrArg some (read_of _ (by simp [reMarks]) q.1 q.2 h₂ h)
      | none =>
        cases h₃ : markAt (reMark "s-country-".toList) isLetter (fun _ => true) ('-' :: x' :: y' :: tail) with
        | some q => exact congrArg some (read_of _ (by simp [reMarks]) q.1 q.2 h₃ h)
        | none => exact congrArg some hread

/-- The IpDeep branch keeps the rest; the code is read back unless it is `RE` and
completes another marker. -/
theorem ipdeep_switches_iff {host u code base cc tail : Str} (hcode : code ∈ Countries.codes) (hline : OneLine u)
    (htype : detectType host u = .ipdeep) (hfind : findGreedy resCountryMark u = some (base, cc, tail)) :
    SwitchesOnly newUsername host u code ↔
      (code = "RE".toList → ∀ m ∈ reMarks, ∀ x y, isLetter x = true → isLetter y = true →
        m ++ [x, y] <+: tail → uppercase [x, y] = code) := by
  obtain ⟨_, hul, _, x', y', hlow, hx', hy', hre⟩ := code_cases hcode
  have hgroups := hfind
  rw [findGreedy_oneLine _ hline] at hgroups
  obtain ⟨c, b, x, y, rfl, rfl, hu, hx, hy, hat⟩ := lastMark_some hgroups
  obtain ⟨howl, hrapid, hclip, _⟩ := detectType_ipdeep.mp htype
  have hlast : lastAt resCountryMark isLetter (fun _ => true) (resCountryMark.tail ++ x :: y :: tail) = none := by
    obtain ⟨d, r, hsplit, _, hnone⟩ := lastAt_some hat
    rw [List.append_cancel_left_eq, resCountryMark_append] at hsplit
    cases hsplit
    rw [resCountryMark_split, List.tail_cons, List.append_assoc]
    exact hnone
  rw [hu] at hline howl hrapid hclip
  have hshape : IpDeepShape host c b x y tail := ⟨hline, hx, hy, hlast, howl, hrapid, hclip⟩
  have hnew : newUsername host u code = some (c :: b ++ (resCountryMark ++ x' :: y' :: tail)) := by
    simp only [newUsername, htype, switchIpDeepCountry, hfind, Option.map_some, hlow]
    rfl
  have hdrop : u.drop ((c :: b).length + resCountryMark.length + 2) = tail := by
    rw [hu]
    exact drop_token _ _ _ x y
  have htoken : countryToken u (detectType host u) = some (c :: b ++ resCountryMark, [x, y], tail) := by
    simp only [htype, countryToken, hfind, Option.map_some, hdrop]
  have hlow' : code = "RE".toList → x' = 'r' ∧ y' = 'e' := by
    rintro rfl
    cases hlow
    exact ⟨rfl, rfl⟩
  rw [← reads_code_iff hx' hy' (by rw [← hlow, hul]) hre hlow']
  have hsame : c :: b ++ resCountryMark ++ ([x', y'] ++ tail) = c :: b ++ (resCountryMark ++ x' :: y' :: tail) := by
    simp
  constructor
  · rintro ⟨pre, tok, post, tok', htok, htap, _, hread⟩
    rw [htoken] at htok
    cases htok
    rw [hnew] at htap
    rwa [hshape.reads hx' hy' (Option.some.inj htap).symm] at hread
  · intro h
    refine ⟨_, _, _, [x', y'], htoken, ?_, by rw [← hlow, hul], ?_⟩
    · rw [hnew, hsame]
    · rwa [hshape.reads hx' hy' hsame]

/-! ## Owl -/

theorem zoneMark_cons : zoneMark = '_' :: 'c' :: "ustom_zone_".toList := by decide

/-- Whether an occurrence of the zone marker starts earlier does not depend on the letters. -/
theorem zone_earlier {x y x' y' : Char} {s t : Str} (hs : s ≠ [])
    (h : markAt zoneMark isLetter (fun _ => true) (s ++ (zoneMark ++ x :: y :: t)) = none) :
    markAt zoneMark isLetter (fun _ => true) (s ++ (zoneMark ++ x' :: y' :: t)) = none := by
  match s, hs with
  | [d], _ =>
    rw [markAt, if_neg]
    rw [zoneMark_cons]
    simp
  | d :: e :: s, _ =>
    rw [← List.append_assoc] at h ⊢
    exact markAt_none_far (by simp) _ h

/-- The Owl branch on a username of one line with its first zone at `c :: b`. -/
structure OwlShape (c : Char) (b : Str) (x y : Char) (tail : Str) : Prop where
  line : OneLine (c :: b ++ (zoneMark ++ x :: y :: tail))
  first : isLetter x = true
  second : isLetter y = true
  earliest : ∀ b₁ b₂, b = b₁ ++ b₂ → b₂ ≠ [] →
    markAt zoneMark isLetter (fun _ => true) (b₂ ++ (zoneMark ++ x :: y :: tail)) = none

namespace OwlShape

variable {b tail : Str} {c x y : Char} (h : OwlShape c b x y tail)
include h

/-- A sticky suffix, or none, behind the first zone is what the tap matches. -/
theorem findZone_first (ht : zoneTail tail = true) :
    findZone (c :: b ++ (zoneMark ++ x :: y :: tail)) = some (c :: b, [x, y], tail) := by
  rw [findZone_oneLine h.line]
  exact firstMark_eq h.first h.second ht fun b₁ b₂ he hne => markAt_none_of_any (h.earliest b₁ b₂ he hne)

/-- The first zone stays the first one with other letters. -/
theorem reads {x' y' : Char} (hx' : isLetter x' = true) (hy' : isLetter y' = true) (host : Str) {u' : Str}
    (hu' : u' = c :: b ++ (zoneMark ++ x' :: y' :: tail)) :
    parseCountry u' (detectType host u') = some [x', y'] := by
  have hline : OneLine u' := by
    rw [hu']
    exact oneLine_swap hx' hy' h.line
  have howl : isOwl host u' = true := by
    have hin : zoneMark <:+: u' := ⟨c :: b, x' :: y' :: tail, by rw [hu']; simp⟩
    simp [isOwl, hin]
  have hfirst : findLazy zoneMark u' = some (c :: b, [x', y'], tail) := by
    rw [findLazy_oneLine _ hline, hu']
    exact firstMark_eq hx' hy' rfl fun b₁ b₂ he hne => zone_earlier hne (h.earliest b₁ b₂ he hne)
  rw [detectType_owl.mpr howl, parseCountry, hfirst]
  rfl

/-- A match of the tap at a later zone starts behind the first zone's letters. -/
theorem later_zone {base cc t : Str} (ht : zoneTail tail = false)
    (hfind : findZone (c :: b ++ (zoneMark ++ x :: y :: tail)) = some (base, cc, t)) :
    ∃ w, base ++ zoneMark = c :: b ++ zoneMark ++ [x, y] ++ w := by
  rw [findZone_oneLine h.line] at hfind
  obtain ⟨c', b', v, w, rfl, rfl, hu, hv, hw, hok, _⟩ := firstMark_some hfind
  have hu' : b ++ (zoneMark ++ x :: y :: tail) = b' ++ (zoneMark ++ v :: w :: t) := (List.cons.inj hu).2
  have hc : c' = c := (List.cons.inj hu).1.symm
  rcases List.append_eq_append_iff.mp hu' with ⟨d, rfl, hd⟩ | ⟨d, rfl, hd⟩
  · cases d with
    | nil =>
      have he : x :: y :: tail = v :: w :: t := List.append_cancel_left hd
      cases he
      rw [ht] at hok; cases hok
    | cons e d =>
      cases d with
      | nil =>
        -- the marker cannot start on its own second symbol
        rw [zoneMark_cons] at hd
        simp at hd
      | cons f d =>
        have hlong : zoneMark ++ [x, y] ++ tail = e :: f :: d ++ zoneMark ++ (v :: w :: t) := by
          rw [List.append_assoc, List.append_assoc]
          exact hd
        obtain ⟨r, hr, _⟩ | ⟨r, hr, _⟩ := List.append_eq_append_iff.mp hlong
        · refine ⟨r, ?_⟩
          rw [hc, List.append_assoc (c :: b), List.append_assoc (c :: b), ← hr]
          simp
        · have hlen := congrArg List.length hr
          simp only [List.length_append, List.length_cons, List.length_nil] at hlen
          obtain rfl : r = [] := List.length_eq_zero_iff.mp (by omega)
          refine ⟨[], ?_⟩
          rw [hc, List.append_nil, List.append_assoc (c :: b), hr, List.append_nil]
          simp
  · -- an earlier start would have been the first zone
    cases d with
    | nil =>
      have he : v :: w :: t = x :: y :: tail := List.append_cancel_left hd
      cases he
      rw [ht] at hok; cases hok
    | cons e d =>
      have hnone := h.earliest b' (e :: d) rfl (by simp)
      rw [← hd, markAt_here hv hw rfl] at hnone
      cases hnone

end OwlShape

/-- The Owl branch keeps the rest when the first zone is the one it matches, or when it
writes back what is there. -/
theorem owl_switches_iff {host u code base cc tail : Str} (hcode : code ∈ Countries.codes) (hline : OneLine u)
    (htype : detectType host u = .owl) (hfind : findLazy zoneMark u = some (base, cc, tail)) :
    SwitchesOnly newUsername host u code ↔
      zoneTail tail = true ∨ (uppercase cc = code ∧ ∃ base' tail', findZone u = some (base', lowercase code, tail')) := by
  obtain ⟨_, hul, ⟨a, b, hab, _⟩, x', y', hlow, hx', hy', _⟩ := code_cases hcode
  have hgroups := hfind
  rw [findLazy_oneLine _ hline] at hgroups
  obtain ⟨c, b₀, x, y, rfl, rfl, hu, hx, hy, _, hearliest⟩ := firstMark_some hgroups
  have hshape : OwlShape c b₀ x y tail := ⟨by rw [← hu]; exact hline, hx, hy, hearliest⟩
  have hdrop : u.drop ((c :: b₀).length + zoneMark.length + 2) = tail := by
    rw [hu]
    exact drop_token _ _ _ x y
  have htoken : countryToken u (detectType host u) = some (c :: b₀ ++ zoneMark, [x, y], tail) := by
    simp only [htype, countryToken, hfind, Option.map_some, hdrop]
  have hnew : newUsername host u code =
      (findZone u).map fun m => m.1 ++ (zoneMark ++ (lowercase code ++ m.2.2)) := by
    simp only [newUsername, htype]
  constructor
  · rintro ⟨pre, tok, post, tok', htok, htap, hup, _⟩
    rw [htoken] at htok
    cases htok
    cases ht : zoneTail tail with
    | true => exact .inl rfl
    | false =>
      refine .inr ?_
      rw [hnew] at htap
      obtain ⟨⟨base', cc', t⟩, hzone, hwritten⟩ := Option.map_eq_some_iff.mp htap
      have hlater := hzone
      rw [hu] at hlater
      obtain ⟨w, hw⟩ := hshape.later_zone ht hlater
      rw [findZone_oneLine hline] at hzone
      obtain ⟨_, _, v₁, v₂, _, rfl, hu', _⟩ := firstMark_some hzone
      -- the rest behind the first letters, as it was and as it is written
      have hold : tail = w ++ ([v₁, v₂] ++ t) := by
        have hsplit : c :: b₀ ++ zoneMark ++ [x, y] ++ tail = c :: b₀ ++ zoneMark ++ [x, y] ++ (w ++ ([v₁, v₂] ++ t)) := by
          rw [← List.append_assoc _ w, ← hw]
          have : c :: b₀ ++ zoneMark ++ [x, y] ++ tail = u := by rw [hu]; simp
          rw [this, hu']
          simp
        exact List.append_cancel_left hsplit
      have hwrite : [x, y] ++ (w ++ (lowercase code ++ t)) = tok' ++ tail := by
        have hsplit : c :: b₀ ++ zoneMark ++ ([x, y] ++ (w ++ (lowercase code ++ t))) = c :: b₀ ++ zoneMark ++ (tok' ++ tail) := by
          rw [← hwritten, ← List.append_assoc base', hw]
          simp
        exact List.append_cancel_left hsplit
      have htwo : tok'.length = 2 := by
        have := congrArg List.length hup
        rwa [hab, uppercase, List.length_map] at this
      obtain ⟨htok', hrest⟩ := List.append_inj hwrite htwo.symm
      rw [hold] at hrest
      have hletters := (List.append_inj (List.append_cancel_left hrest) (by rw [hlow]; rfl)).1
      refine ⟨by rw [htok']; exact hup, base', t, ?_⟩
      rw [findZone_oneLine hline, hzone, hletters]
  · rintro (ht | ⟨hup, base', t, hzone⟩)
    · have hsame : c :: b₀ ++ zoneMark ++ ([x', y'] ++ tail) = c :: b₀ ++ (zoneMark ++ x' :: y' :: tail) := by simp
      have hmatch := hshape.findZone_first ht
      rw [← hu] at hmatch
      refine ⟨_, _, _, [x', y'], htoken, ?_, by rw [← hlow, hul], ?_⟩
      · rw [hnew, hmatch, Option.map_some, hlow, hsame]
        rfl
      · rw [hshape.reads hx' hy' host hsame, Option.map_some, ← hlow, hul]
    · -- the tap writes back the username it found
      have hback : c :: b₀ ++ zoneMark ++ ([x, y] ++ tail) = u := by rw [hu]; simp
      refine ⟨_, _, _, [x, y], htoken, ?_, hup, ?_⟩
      · rw [hback, hnew, hzone]
        rw [findZone_oneLine hline] at hzone
        obtain ⟨_, _, v₁, v₂, _, hcc, hu', _⟩ := firstMark_some hzone
        rw [Option.map_some, hcc, hu']
        simp
      · rw [hback, htype, parseCountry, hfind, Option.map_some, Option.map_some, hup]

/-! ## The taps -/

/-- A country is found exactly where the groups of its type are. -/
theorem newUsername_switches_iff {host u code : Str} (hcode : code ∈ Countries.codes)
    (hparse : parseCountry u (detectType host u) ≠ none) :
    SwitchesOnly newUsername host u code ↔ KeepsRest host u code := by
  have found : ∀ {o : Option (Str × Str × Str)}, o.map (·.2.1) ≠ none → ∃ base cc tail, o = some (base, cc, tail) := by
    intro o ho
    cases o with
    | none => exact (ho rfl).elim
    | some m => exact ⟨m.1, m.2.1, m.2.2, rfl⟩
  have unique : ∀ {o : Option (Str × Str × Str)} {base cc tail : Str} {P : Str → Str → Prop},
      o = some (base, cc, tail) → ((∀ b c t, o = some (b, c, t) → P c t) ↔ P cc tail) := by
    rintro o base cc tail P rfl
    constructor
    · intro h; exact h base cc tail rfl
    · intro h b c t he; cases he; exact h
  by_cases hline : OneLine u
  · rw [KeepsRest, and_iff_right (show ∀ c ∈ u, isLineTerminator c = false from hline)]
    cases htype : detectType host u with
    | owl =>
      rw [htype] at hparse
      obtain ⟨base, cc, tail, hfind⟩ := found hparse
      simp only
      rw [owl_switches_iff hcode hline htype hfind]
      exact (unique (P := fun cc tail => zoneTail tail = true ∨
        (uppercase cc = code ∧ ∃ base' tail', findZone u = some (base', lowercase code, tail'))) hfind).symm
    | rapid =>
      rw [htype] at hparse
      obtain ⟨base, cc, tail, hfind⟩ := found hparse
      simp only
      rw [rapid_switches_iff hcode hline htype hfind]
      exact (unique (P := fun _ tail => tail = []) hfind).symm
    | clip =>
      rw [htype] at hparse
      obtain ⟨base, cc, tail, hfind⟩ := found hparse
      simp only
      rw [clip_switches_iff hcode hline htype hfind]
      exact (unique (P := fun _ tail => tail = []) hfind).symm
    | ipdeep =>
      rw [htype] at hparse
      obtain ⟨base, cc, tail, hfind⟩ := found hparse
      simp only
      rw [ipdeep_switches_iff hcode hline htype hfind]
      exact (unique (P := fun _ tail => code = "RE".toList → ∀ m ∈ reMarks, ∀ x y, isLetter x = true →
        isLetter y = true → m ++ [x, y] <+: tail → uppercase [x, y] = code) hfind).symm
    | generic => exact iff_of_true (generic_switches hcode hline htype) trivial
    | custom =>
      rw [htype] at hparse
      exact (hparse rfl).elim
  · constructor
    · intro h; exact (hline (oneLine_of_switches hcode h)).elim
    · intro h; exact (hline h.1).elim

end KiloProxy.Util.ProxyProviders
