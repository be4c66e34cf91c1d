import KiloProxy.Text.Starts
import KiloProxy.Util.CountryKept

/-!
# Usernames as they are built

A base that holds none of the markers, not even less its last character, puts no
occurrence in front of the one the builder writes: an occurrence that started in the base
would have to end on the first character of the written marker.
-/

namespace KiloProxy.Util.ProxyProviders
set_option autoImplicit false
open KiloProxy.Text

/-- A host that names no provider. -/
structure Unrelated (host : Str) : Prop where
  owl : hostEndsWith host "owlproxy.com".toList = false
  rapid : hostEndsWith host "rapidproxy.io".toList = false
  clip : hostEndsWith host "cliproxy.io".toList = false
  ipdeep : hostEndsWith host "ipdeep.com".toList = false

/-- What the bases do not hold. -/
def stems : List Str :=
  ["_custom_zone".toList, "-residential".toList, "-region".toList, "-res-country".toList, "-session".toList]

/-- A base: one line that holds no stem. -/
structure PlainBase (base : Str) : Prop where
  nonempty : base ≠ []
  oneLine : OneLine base
  plain : ∀ m ∈ stems, ¬ m <:+: base

theorem residentialMark_cons : residentialMark = '-' :: 'r' :: "esidential-".toList := by decide
theorem regionMark_cons : regionMark = '-' :: 'r' :: "egion-".toList := by decide

/-- A character that neither the rest of a marker nor a letter can be. -/
theorem notMem_token {c x y : Char} {w : Str} (hc : c ∉ w ∧ isLetter c = false) (hx : isLetter x = true)
    (hy : isLetter y = true) : c ∉ w ++ [x, y] := by
  intro hin
  simp only [List.mem_append, List.mem_cons, List.not_mem_nil, or_false] at hin
  obtain hin | rfl | rfl := hin
  · exact hc.1 hin
  · exact isLetter_not hx hc.2 rfl
  · exact isLetter_not hy hc.2 rfl

theorem zoneMark_stem : zoneMark.dropLast = "_custom_zone".toList := by decide
theorem residentialMark_stem : residentialMark.dropLast = "-residential".toList := by decide
theorem regionMark_stem : regionMark.dropLast = "-region".toList := by decide
theorem resCountryMark_stem : resCountryMark.dropLast = "-res-country".toList := by decide
theorem sessionMark_stem : sessionMark.dropLast = "-session".toList := by decide

theorem sessionTimeMark_stem : "-session".toList <:+: sessionTimeMark.dropLast := by decide

theorem zoneMark_stems : zoneMark.dropLast ∈ stems := by rw [zoneMark_stem]; decide
theorem residentialMark_stems : residentialMark.dropLast ∈ stems := by rw [residentialMark_stem]; decide
theorem regionMark_stems : regionMark.dropLast ∈ stems := by rw [regionMark_stem]; decide
theorem resCountryMark_stems : resCountryMark.dropLast ∈ stems := by rw [resCountryMark_stem]; decide
theorem sessionMark_stems : sessionMark.dropLast ∈ stems := by rw [sessionMark_stem]; decide

/-! ## Digits behind a marker -/

/-- Digits are looked for behind the text that holds no marker. -/
theorem findDigits_skip {mark w s : Str} (h : NoStart mark w s) : findDigits mark (w ++ s) = findDigits mark s := by
  induction w with
  | nil => rfl
  | cons c w ih =>
    obtain ⟨hhere, hrest⟩ := noStart_cons.mp h
    have hno : mark.isPrefixOf (c :: (w ++ s)) = false := by
      rw [Bool.eq_false_iff]
      exact fun hp => hhere (List.isPrefixOf_iff_prefix.mp hp)
    rw [List.cons_append, findDigits, hno, Bool.false_and, ← ih hrest]
    rfl

/-- It is enough that no marker with a digit behind it starts there. -/
theorem findDigits_skip_digit {mark w s : Str} (h : ∀ d, isDigit d = true → NoStart (mark ++ [d]) w s) :
    findDigits mark (w ++ s) = findDigits mark s := by
  induction w with
  | nil => rfl
  | cons c w ih =>
    rw [List.cons_append, findDigits, ← ih fun d hd => (noStart_cons.mp (h d hd)).2]
    refine if_neg fun hfound => ?_
    rw [Bool.and_eq_true, bne_iff_ne] at hfound
    obtain ⟨r, hr⟩ := List.isPrefixOf_iff_prefix.mp hfound.1
    rw [← hr, List.drop_left] at hfound
    cases r with
    | nil => exact hfound.2 rfl
    | cons d r =>
      have hd : isDigit d = true := by
        by_contra hno
        exact hfound.2 (List.takeWhile_cons_of_neg hno)
      refine (noStart_cons.mp (h d hd)).1 ⟨r, ?_⟩
      rw [← hr, List.append_assoc]
      rfl

theorem takeWhile_digits {ds rest : Str} (hds : ∀ c ∈ ds, isDigit c = true)
    (hrest : ∀ c ∈ rest.head?, isDigit c = false) : (ds ++ rest).takeWhile isDigit = ds := by
  rw [List.takeWhile_append_of_pos hds]
  cases rest with
  | nil => rw [List.takeWhile_nil, List.append_nil]
  | cons c rest =>
    rw [List.takeWhile_cons, hrest c rfl]
    exact List.append_nil ds

/-- The digits behind a marker are found. -/
theorem findDigits_here {m : Char} {mark ds rest : Str} (hne : ds ≠ []) (hds : ∀ c ∈ ds, isDigit c = true)
    (hrest : ∀ c ∈ rest.head?, isDigit c = false) : findDigits (m :: mark) (m :: mark ++ (ds ++ rest)) = some ds := by
  have hpre : (m :: mark).isPrefixOf (m :: (mark ++ (ds ++ rest))) = true :=
    List.isPrefixOf_iff_prefix.mpr (List.prefix_append (m :: mark) _)
  have hdrop : (m :: (mark ++ (ds ++ rest))).drop (m :: mark).length = ds ++ rest := by
    rw [← List.cons_append, List.drop_left]
  rw [List.cons_append, findDigits, hpre, hdrop, takeWhile_digits hds hrest]
  simp [hne]

/-! ## What a plain base keeps out -/

namespace PlainBase

variable {base : Str} (h : PlainBase base)
include h

theorem stem_free {mark : Str} (hmark : mark.dropLast ∈ stems) : ¬ mark.dropLast <:+: base := h.plain _ hmark

theorem tail_free {mark b : Str} {c : Char} (hmark : mark.dropLast ∈ stems) (hb : base = c :: b) :
    ¬ mark.dropLast <:+: b := fun hin => h.stem_free hmark (hb ▸ hin.trans (List.suffix_cons c b).isInfix)

theorem zone_free : ¬ zoneMark <:+: base := fun hin =>
  h.stem_free zoneMark_stems ((List.dropLast_prefix zoneMark).isInfix.trans hin)

/-- No zone marker where a hyphen follows and no underscore. -/
theorem zone_hyphen {t : Str} (ht : '_' ∉ t) : ¬ zoneMark <:+: base ++ '-' :: t := by
  rw [zone_behind_hyphen]
  rintro (hin | hin)
  · exact h.zone_free hin
  · exact ht (hin.subset (by decide))

theorem zone_generic {sep x y : Char} (hx : isLetter x = true) (hy : isLetter y = true) :
    ¬ zoneMark <:+: base ++ [sep, x, y] := by
  rw [zone_two hx hy, List.infix_concat_iff]
  rintro (hin | hin)
  · -- the marker would end on the separator
    obtain ⟨t, ht⟩ := hin
    have hlast := congrArg List.dropLast ht
    rw [List.dropLast_concat, List.dropLast_append_of_ne_nil (by decide)] at hlast
    exact h.stem_free zoneMark_stems ⟨t, [], by rw [List.append_nil]; exact hlast⟩
  · exact h.zone_free hin

/-- A provider whose marker does not occur is not detected. -/
theorem not_matches {mark s : Str} (hmark : mark.dropLast ∈ stems) (hline : OneLine (base ++ s))
    (hs : ∀ b, ¬ mark.dropLast <:+: b → occurs mark isLetter (b ++ s) = false) :
    matchesMark mark (base ++ s) = false := by
  obtain ⟨c, b, hb⟩ := List.exists_cons_of_ne_nil h.nonempty
  have hfree := h.tail_free hmark hb
  rw [hb, List.cons_append] at hline ⊢
  rw [matchesMark_oneLine _ hline]
  exact hs b hfree

/-- No Owl. -/
theorem not_owl {host : Str} (hhost : Unrelated host) {t : Str} (ht : '_' ∉ t) :
    isOwl host (base ++ '-' :: t) = false := by
  rw [isOwl, hhost.owl, Bool.false_or, decide_eq_false_iff_not]
  exact h.zone_hyphen ht

end PlainBase

/-! ## Owl -/

/-- An Owl username is taken apart as it was built. -/
theorem owl_reads {base tail : Str} {x y : Char} (h : PlainBase base) (hx : isLetter x = true) (hy : isLetter y = true)
    (ht : OneLine tail) : findLazy zoneMark (base ++ (zoneMark ++ x :: y :: tail)) = some (base, [x, y], tail) := by
  have hzone : OneLine zoneMark := by decide +kernel
  have hline : OneLine (base ++ (zoneMark ++ x :: y :: tail)) := by
    rw [oneLine_append, oneLine_append]
    exact ⟨h.oneLine, hzone, oneLine_letters hx hy ht⟩
  obtain ⟨c, b, rfl⟩ := List.exists_cons_of_ne_nil h.nonempty
  have hstart : NoStart zoneMark b (zoneMark ++ x :: y :: tail) := by
    apply noStart_of_stem (h.tail_free zoneMark_stems rfl)
    rw [zoneMark_cons]
    exact cross_of_crossFree (by decide)
  rw [findLazy_oneLine _ hline]
  exact firstMark_eq hx hy rfl fun b₁ b₂ he hne => hstart.markAt he hne

theorem owl_detected (host base tail : Str) : detectType host (base ++ (zoneMark ++ tail)) = .owl := by
  have hin : zoneMark <:+: base ++ (zoneMark ++ tail) := ⟨base, tail, by rw [List.append_assoc]⟩
  rw [detectType_owl, isOwl, decide_eq_true hin, Bool.or_true]

/-! ## Rapid and Clip -/

section EndingToken

variable {base mark : Str} {x y : Char} (h : PlainBase base) (hx : isLetter x = true) (hy : isLetter y = true)
include h hx hy

theorem token_oneLine (hmark : OneLine mark) : OneLine (base ++ (mark ++ [x, y])) := by
  rw [oneLine_append, oneLine_append]
  exact ⟨h.oneLine, hmark, oneLine_letters hx hy fun c hc => by cases hc⟩

theorem ending_reads (hne : mark ≠ []) (hmark : OneLine mark) :
    findGreedy mark (base ++ (mark ++ [x, y])) = some (base, [x, y], []) := by
  obtain ⟨c, b, hb⟩ := List.exists_cons_of_ne_nil h.nonempty
  rw [findGreedy_oneLine _ (token_oneLine h hx hy hmark), hb]
  exact lastMark_end hne hx hy rfl

theorem ending_matches (hne : mark ≠ []) (hmark : OneLine mark) : matchesMark mark (base ++ (mark ++ [x, y])) = true :=
  matchesMark_of_findGreedy (token_oneLine h hx hy hmark) (ending_reads h hx hy hne hmark)

/-- A Rapid username is detected. -/
theorem rapid_detected {host : Str} (hhost : Unrelated host) :
    detectType host (base ++ (residentialMark ++ [x, y])) = .rapid := by
  rw [detectType_rapid]
  constructor
  · rw [residentialMark_cons]
    exact h.not_owl hhost (notMem_token (by decide) hx hy)
  · rw [isRapid, ending_matches h hx hy (by decide) (by decide +kernel), Bool.or_true]

/-- A username of Clip is detected. -/
theorem clip_detected {host : Str} (hhost : Unrelated host) :
    detectType host (base ++ (regionMark ++ [x, y])) = .clip := by
  have hline : OneLine (base ++ (regionMark ++ [x, y])) := token_oneLine h hx hy (by decide +kernel)
  rw [detectType_clip]
  refine ⟨?_, ?_, ?_⟩
  · rw [regionMark_cons]
    exact h.not_owl hhost (notMem_token (by decide) hx hy)
  · rw [isRapid, hhost.rapid, Bool.false_or]
    apply h.not_matches residentialMark_stems hline
    intro b hb
    have hstart : NoStart residentialMark b (regionMark ++ [x, y]) := by
      apply noStart_of_stem hb
      rw [regionMark_cons]
      exact cross_of_crossFree (by decide)
    have hshort : (regionMark ++ [x, y]).length < residentialMark.length + 2 := by
      have hregion : regionMark.length = 8 := by decide
      have hresidential : residentialMark.length = 13 := by decide
      rw [List.length_append, hregion, hresidential]
      simp
    rw [hstart.occurs, occurs, lastAt_short hshort]
    rfl
  · rw [isClip, ending_matches h hx hy (by decide) (by decide +kernel), Bool.or_true]

end EndingToken

/-! ## IpDeep -/

/-- What the builder puts behind the country: nothing or a session. -/
structure SessionTail (tail : Str) : Prop where
  symbols : ∀ c ∈ tail, isDigit c = true ∨ c ∈ sessionTimeMark
  head : ∀ c ∈ tail.head?, c = '-'

theorem sessionTail_nil : SessionTail [] := by
  constructor
  · intro c hc; cases hc
  · intro c hc; cases hc

theorem sessionTail_sticky {sid ds : Str} (hsid : ∀ c ∈ sid, isDigit c = true) (hds : ∀ c ∈ ds, isDigit c = true) :
    SessionTail (sessionMark ++ (sid ++ (sessionTimeMark ++ ds))) := by
  have hsub : sessionMark ⊆ sessionTimeMark := by decide +kernel
  constructor
  · intro c hc
    simp only [List.mem_append] at hc
    obtain hc | hc | hc | hc := hc
    · exact .inr (hsub hc)
    · exact .inl (hsid c hc)
    · exact .inr hc
    · exact .inl (hds c hc)
  · intro c hc
    cases hc
    rfl

namespace SessionTail

variable {tail : Str} (h : SessionTail tail)
include h

theorem notMem {c : Char} (hc : isDigit c = false ∧ c ∉ sessionTimeMark) : c ∉ tail := by
  intro hin
  rcases h.symbols c hin with hd | hs
  · rw [hc.1] at hd; cases hd
  · exact hc.2 hs

theorem oneLine : OneLine tail := by
  have hmark : OneLine sessionTimeMark := by decide +kernel
  intro c hc
  rcases h.symbols c hc with hd | hs
  · exact isDigit_line hd
  · exact hmark c hs

/-- No marker with an `r` in it. -/
theorem lastAt_none (m : Str) : lastAt (reMark m) isLetter (fun _ => true) tail = none := by
  cases hl : lastAt (reMark m) isLetter (fun _ => true) tail with
  | none => rfl
  | some r =>
    obtain ⟨b, cc, t⟩ := r
    obtain ⟨c, r, rfl, hmark, _⟩ := lastAt_some hl
    obtain ⟨_, _, _, hr, _⟩ := markAt_some.mp hmark
    have hin : 'r' ∈ b ++ c :: r := List.mem_append_right _ (hr ▸ by simp [reMark])
    exact absurd hin (h.notMem (by decide))

end SessionTail

/-- Nor does a tail behind a hyphen complete one. -/
theorem markAt_none {x y m : Char} {ms tail : Str} (hhead : ∀ c ∈ tail.head?, c = '-') (hm : m ≠ '-') :
    markAt (reMark (m :: ms)) isLetter (fun _ => true) ('-' :: x :: y :: tail) = none := by
  cases hmark : markAt (reMark (m :: ms)) isLetter (fun _ => true) ('-' :: x :: y :: tail) with
  | none => rfl
  | some r =>
    obtain ⟨_, _, _, _, _, rfl, _⟩ := markAt_hyphen.mp hmark
    exact absurd (hhead m rfl) hm

/-- The country in front of any tail that holds no country. -/
theorem country_reads {base tail : Str} {x y : Char} (hne : base ≠ []) (hx : isLetter x = true) (hy : isLetter y = true)
    (hline : OneLine (base ++ (resCountryMark ++ x :: y :: tail))) (hhead : ∀ c ∈ tail.head?, c = '-')
    (hlast : lastAt resCountryMark isLetter (fun _ => true) tail = none) :
    findGreedy resCountryMark (base ++ (resCountryMark ++ x :: y :: tail)) = some (base, [x, y], tail) := by
  have hrest := (lastAt_resCountry (m := "s-country-".toList) hx hy hlast ([], [])).1 (markAt_none hhead (by decide))
  have hhere : markAt resCountryMark isLetter (fun _ => true) (resCountryMark ++ x :: y :: tail) =
      some ([x, y], tail) := markAt_here hx hy rfl
  obtain ⟨c, b, rfl⟩ := List.exists_cons_of_ne_nil hne
  rw [resCountryMark_append] at hhere
  have hall := lastAt_append b (lastAt_here hhere hrest)
  rw [findGreedy_oneLine _ hline, List.cons_append, resCountryMark_append, lastMark, hall, List.append_nil]
  rfl

/-- No session starts in the country. -/
theorem country_noStart {mark tail : Str} {x y : Char} (hx : isLetter x = true) (hy : isLetter y = true)
    (hmark : mark = sessionMark ∨ mark = sessionTimeMark) (hhead : ∀ c ∈ tail.head?, c = '-') :
    NoStart mark (resCountryMark ++ [x, y]) tail := by
  obtain ⟨ms, rfl⟩ : ∃ ms, mark = '-' :: 's' :: 'e' :: 's' :: ms := by
    rcases hmark with rfl | rfl
    · exact ⟨"sion-".toList, by decide⟩
    · exact ⟨"siontime-".toList, by decide⟩
  have hxy : '-' ∉ ([] : Str) ++ [x, y] := notMem_token (by decide) hx hy
  have hparts : "res-country".toList = "res".toList ++ '-' :: "country".toList := by decide
  rw [resCountryMark_append, hparts, List.append_assoc, List.cons_append, noStart_cons, noStart_append, noStart_cons,
    noStart_append, noStart_cons]
  refine ⟨?_, noStart_of_head (by decide), ?_, noStart_of_head (by decide), ?_, noStart_of_head hxy⟩
  · simp
  · simp
  · -- the letters may be `se`, but the tail does not go on
    rintro ⟨r, hr⟩
    simp only [List.cons_append, List.nil_append, List.cons.injEq] at hr
    obtain ⟨_, _, _, rfl⟩ := hr
    exact absurd (hhead 's' rfl) (by decide)

section IpDeep

variable {base tail : Str} {x y : Char} (h : PlainBase base) (hx : isLetter x = true) (hy : isLetter y = true)
  (ht : SessionTail tail)
include h hx hy ht

theorem ipdeep_oneLine : OneLine (base ++ (resCountryMark ++ x :: y :: tail)) := by
  have hmark : OneLine resCountryMark := by decide +kernel
  rw [oneLine_append, oneLine_append]
  exact ⟨h.oneLine, hmark, oneLine_letters hx hy ht.oneLine⟩

theorem ipdeep_reads :
    findGreedy resCountryMark (base ++ (resCountryMark ++ x :: y :: tail)) = some (base, [x, y], tail) :=
  country_reads h.nonempty hx hy (ipdeep_oneLine h hx hy ht) ht.head (ht.lastAt_none "s-country-".toList)

/-- The other two markers with a hyphen do not occur. -/
theorem ipdeep_not {m : Str} (hm : m = "sidential-".toList ∨ m = "gion-".toList) (hstem : (reMark m).dropLast ∈ stems)
    (hcross : crossFree (reMark m) '-' 'r' = true) :
    matchesMark (reMark m) (base ++ (resCountryMark ++ x :: y :: tail)) = false := by
  apply h.not_matches hstem (ipdeep_oneLine h hx hy ht)
  intro b hb
  have hstart : NoStart (reMark m) b (resCountryMark ++ x :: y :: tail) := by
    apply noStart_of_stem hb
    rw [resCountryMark_append]
    exact cross_of_crossFree hcross
  have hmark : markAt (reMark m) isLetter (fun _ => true) ('-' :: x :: y :: tail) = none := by
    rcases hm with rfl | rfl
    · exact markAt_none ht.head (by decide)
    · exact markAt_none ht.head (by decide)
  have hrest := (lastAt_resCountry hx hy (ht.lastAt_none m) ([], [])).1 hmark
  rw [hstart.occurs, resCountryMark_append, occurs_cons, markAt_resCountry hm, occurs, hrest]
  rfl

/-- An IpDeep username is detected. -/
theorem ipdeep_detected {host : Str} (hhost : Unrelated host) :
    detectType host (base ++ (resCountryMark ++ x :: y :: tail)) = .ipdeep := by
  have hline := ipdeep_oneLine h hx hy ht
  rw [detectType_ipdeep]
  refine ⟨?_, ?_, ?_, ?_⟩
  · rw [resCountryMark_append]
    apply h.not_owl hhost
    intro hin
    simp only [List.mem_append, List.mem_cons] at hin
    obtain hin | hin | rfl | rfl | hin := hin
    · exact absurd hin (by decide)
    · exact absurd hin (by decide)
    · exact absurd hx (by decide)
    · exact absurd hy (by decide)
    · exact ht.notMem (by decide) hin
  · rw [isRapid, hhost.rapid, residentialMark_re, ipdeep_not h hx hy ht (.inl rfl) (by decide) (by decide)]
    rfl
  · rw [isClip, hhost.clip, regionMark_re, ipdeep_not h hx hy ht (.inr rfl) (by decide) (by decide)]
    rfl
  · rw [isIpDeep, matchesMark_of_findGreedy hline (ipdeep_reads h hx hy ht), Bool.or_true]

omit ht in
/-- The session is looked for behind the country. -/
theorem session_skip {mark : Str} (hmark : mark = sessionMark ∨ mark = sessionTimeMark)
    (hhead : ∀ c ∈ tail.head?, c = '-') :
    findDigits mark (base ++ (resCountryMark ++ x :: y :: tail)) = findDigits mark tail := by
  have hbase : NoStart mark base (resCountryMark ++ x :: y :: tail) := by
    rw [resCountryMark_append]
    rcases hmark with rfl | rfl
    · apply noStart_of_stem (h.stem_free sessionMark_stems)
      exact cross_of_crossFree (by decide)
    · apply noStart_of_stem (fun hin => h.plain "-session".toList (by decide) (sessionTimeMark_stem.trans hin))
      exact cross_of_crossFree (by decide)
  have hcountry : NoStart mark (resCountryMark ++ [x, y]) tail := country_noStart hx hy hmark hhead
  rw [findDigits_skip hbase, show resCountryMark ++ x :: y :: tail = resCountryMark ++ [x, y] ++ tail by simp,
    findDigits_skip hcountry]

end IpDeep

theorem notMem_digits {ds : Str} (hds : ∀ c ∈ ds, isDigit c = true) {m : Char} (hm : isDigit m = false) : m ∉ ds := by
  intro hin
  have hd := hds m hin
  rw [hm] at hd; cases hd

/-- Digits do not complete a marker without one. -/
theorem digits_cross {mark ds s : Str} (hmark : mark.all (fun c => !isDigit c) = true) (hne : ds ≠ [])
    (hds : ∀ c ∈ ds, isDigit c = true) : ∀ q p, mark = q ++ p → q ≠ [] → 2 ≤ p.length → ¬ p <+: ds ++ s := by
  obtain ⟨d, ds, rfl⟩ := List.exists_cons_of_ne_nil hne
  apply cross_of_head
  intro c hc hin
  cases hc
  have hno := List.all_eq_true.mp hmark d hin
  rw [hds d List.mem_cons_self] at hno
  cases hno

/-- The session is read back. -/
theorem session_digits {sid : Str} (hne : sid ≠ []) (hsid : ∀ c ∈ sid, isDigit c = true) (ds : Str) :
    findDigits sessionMark (sessionMark ++ (sid ++ (sessionTimeMark ++ ds))) = some sid := by
  have hdash : ∀ c ∈ (sessionTimeMark ++ ds).head?, isDigit c = false := by
    intro c hc
    cases hc
    decide
  exact findDigits_here hne hsid hdash

theorem digits_end {m : Char} {mark ds : Str} (hne : ds ≠ []) (hds : ∀ c ∈ ds, isDigit c = true) :
    findDigits (m :: mark) (m :: mark ++ ds) = some ds := by
  have hhere : findDigits (m :: mark) (m :: mark ++ (ds ++ [])) = some ds :=
    findDigits_here hne hds fun c hc => by cases hc
  rw [List.append_nil] at hhere
  exact hhere

/-- The time of the session is read back. -/
theorem sessionTime_digits {sid ds : Str} (hsne : sid ≠ []) (hsid : ∀ c ∈ sid, isDigit c = true) (hne : ds ≠ [])
    (hds : ∀ c ∈ ds, isDigit c = true) :
    findDigits sessionTimeMark (sessionMark ++ (sid ++ (sessionTimeMark ++ ds))) = some ds := by
  have hmark : NoStart sessionTimeMark sessionMark (sid ++ (sessionTimeMark ++ ds)) :=
    noStart_of_stem (by decide) (digits_cross (by decide) hsne hsid)
  have hid : NoStart sessionTimeMark sid (sessionTimeMark ++ ds) := noStart_of_head (notMem_digits hsid (by decide))
  rw [findDigits_skip hmark, findDigits_skip hid]
  exact digits_end hne hds

/-- What `buildIpDeep` puts behind the country. -/
def sessionTail (mode : Str) (time : Int) (sid : Str) : Str :=
  if mode = "sticky".toList then sessionMark ++ (sid ++ (sessionTimeMark ++ ofInt time)) else []

theorem buildIpDeep_eq (base cc mode : Str) (time : Int) (sessionId : Option Str) (drawn : Nat) :
    buildIpDeep base cc mode time sessionId drawn =
      base ++ (resCountryMark ++ (lowercase cc ++ sessionTail mode time (sessionId.getD (ofNat drawn)))) := by
  unfold buildIpDeep sessionTail
  by_cases hmode : mode = "sticky".toList
  · simp only [hmode, ne_eq, not_true_eq_false, if_false, if_true, List.append_assoc]
  · simp only [ne_eq, hmode, not_false_eq_true, if_true, if_false, List.append_nil]

section SessionTail

variable {sid : Str} {time : Int} (hsid : ∀ c ∈ sid, isDigit c = true) (ht : ∀ c ∈ ofInt time, isDigit c = true)
include hsid ht

theorem sessionTail_tail (mode : Str) : SessionTail (sessionTail mode time sid) := by
  unfold sessionTail
  split
  · exact sessionTail_sticky hsid ht
  · exact sessionTail_nil

omit ht in
theorem sessionTail_id (hne : sid ≠ []) (mode : Str) :
    findDigits sessionMark (sessionTail mode time sid) = if mode = "sticky".toList then some sid else none := by
  unfold sessionTail
  split
  · exact session_digits hne hsid (ofInt time)
  · rfl

theorem sessionTail_time (hne : sid ≠ []) (htne : ofInt time ≠ []) (mode : Str) :
    findDigits sessionTimeMark (sessionTail mode time sid) =
      if mode = "sticky".toList then some (ofInt time) else none := by
  unfold sessionTail
  split
  · exact sessionTime_digits hne hsid htne ht
  · rfl

end SessionTail

/-! ## Sticky Owl -/

/-- What stands in front of the minutes of a sticky Owl username. -/
def timeMark : Str := "_time_".toList

/-- The time of a sticky Owl username is read back. -/
theorem owl_time {ds : Str} (n : Nat) (hne : ds ≠ []) (hds : ∀ c ∈ ds, isDigit c = true) :
    findDigits timeMark ("_st__city_sid_".toList ++ (ofNat n ++ (timeMark ++ ds))) = some ds := by
  have hmark : NoStart timeMark "_st__city_sid_".toList (ofNat n ++ (timeMark ++ ds)) :=
    noStart_of_stem (by decide) (digits_cross (by decide) (ofNat_ne_nil n) (isDigit_ofNat n))
  have hid : NoStart timeMark (ofNat n) (timeMark ++ ds) := noStart_of_head (notMem_digits (isDigit_ofNat n) (by decide))
  rw [findDigits_skip hmark, findDigits_skip hid]
  exact digits_end hne hds

/-- What the builder puts behind the zone. -/
def owlTail (mode : Str) (time : Int) (sid : Nat) : Str :=
  if mode = "sticky".toList then "_st__city_sid_".toList ++ (ofNat sid ++ (timeMark ++ ofInt time)) else []

theorem buildUsername_owl (base cc mode : Str) (time : Int) (separator : Str) (upper : Bool) (sid : Nat) :
    buildUsername base .owl cc mode time separator upper sid =
      some (base ++ (zoneMark ++ (lowercase cc ++ owlTail mode time sid))) := by
  unfold buildUsername owlTail
  by_cases hmode : mode = "sticky".toList
  · simp only [hmode, if_true, List.append_assoc]
    rfl
  · simp only [if_neg hmode, List.append_nil]

theorem owlTail_oneLine {time : Int} (ht : ∀ c ∈ ofInt time, isDigit c = true) (mode : Str) (sid : Nat) :
    OneLine (owlTail mode time sid) := by
  have hsid : OneLine "_st__city_sid_".toList := by decide +kernel
  have htime : OneLine timeMark := by decide +kernel
  unfold owlTail
  split
  · rw [oneLine_append, oneLine_append, oneLine_append]
    exact ⟨hsid, fun c hc => isDigit_line (isDigit_ofNat sid c hc), htime, fun c hc => isDigit_line (ht c hc)⟩
  · intro c hc; cases hc

theorem owlTail_digits {time : Int} (hne : ofInt time ≠ []) (ht : ∀ c ∈ ofInt time, isDigit c = true) (mode : Str)
    (sid : Nat) :
    findDigits timeMark (owlTail mode time sid) = if mode = "sticky".toList then some (ofInt time) else none := by
  unfold owlTail
  split
  · exact owl_time sid hne ht
  · rfl

/-! ## Two letters at the end -/

section Generic

variable {base : Str} {sep x y : Char} (h : PlainBase base) (hsep : sep = '-' ∨ sep = '_') (hx : isLetter x = true)
  (hy : isLetter y = true) (hcc : uppercase [x, y] ∈ Countries.codes)
include h hsep hx hy hcc

omit hcc in
theorem generic_oneLine : OneLine (base ++ [sep, x, y]) := by
  have hline : isLineTerminator sep = false := by rcases hsep with rfl | rfl <;> decide
  rw [oneLine_append]
  refine ⟨h.oneLine, fun c hc => ?_⟩
  cases List.mem_cons.mp hc with
  | inl he => rw [he]; exact hline
  | inr hin => exact oneLine_letters hx hy (fun c hc => by cases hc) c hin

theorem generic_reads :
    genericParts (base ++ [sep, x, y]) = some ⟨base, [sep], [x, y].all isUpperAscii, uppercase [x, y]⟩ := by
  have hline := generic_oneLine h hsep hx hy
  rw [genericParts, genericGroups_eq h.nonempty hsep hx hy hline, Option.bind_some]
  exact if_pos hcc

/-- A generic username is detected. -/
theorem generic_detected {host : Str} (hhost : Unrelated host) : detectType host (base ++ [sep, x, y]) = .generic := by
  have hline := generic_oneLine h hsep hx hy
  have hshort : ∀ mark : Str, 2 ≤ mark.length → mark.dropLast ∈ stems → matchesMark mark (base ++ [sep, x, y]) = false :=
    fun mark hlong hmark => h.not_matches hmark hline fun b hb => occurs_short_end hb hlong (by simp)
  rw [detectType_generic, isOwl, isRapid, isClip, isIpDeep, hhost.owl, hhost.rapid, hhost.clip, hhost.ipdeep,
    hshort residentialMark (by decide) residentialMark_stems, hshort regionMark (by decide) regionMark_stems,
    hshort resCountryMark (by decide) resCountryMark_stems, generic_reads h hsep hx hy hcc]
  refine ⟨?_, rfl, rfl, rfl, rfl⟩
  rw [Bool.false_or, decide_eq_false_iff_not]
  exact h.zone_generic hx hy

end Generic

/-- The letters of a code show which case they are in. -/
theorem code_upper : ∀ cc ∈ Countries.codes,
    (uppercase cc).all isUpperAscii = true ∧ (lowercase cc).all isUpperAscii = false := by decide +kernel

end KiloProxy.Util.ProxyProviders
