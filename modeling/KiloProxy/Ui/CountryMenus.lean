import KiloProxy.Util.Countries
import Mathlib.Data.List.Nodup
import Mathlib.Tactic.Tauto

/-!
# The country menus

The bubble's menu shows the connected country, the recent ones and the rest, and keeps a
second list for its search; the countries page shows the recent ones and the rest. Each
leaves out by other sets what stands further up. On recent codes that are in upper case and
differ, the search list is the menu in its order, and every list is a front of distinct
countries with all others behind it.
-/

namespace KiloProxy.Ui
set_option autoImplicit false
open KiloProxy.Text KiloProxy.Util KiloProxy.Util.Countries

/-- What the bubble's list shows. -/
inductive MenuItem where
  | recentLabel
  | separator
  | allLabel
  | row (country : Country) (isConnected : Bool)
deriving DecidableEq, Repr

def MenuItem.shownRow : MenuItem → Option (Country × Bool)
  | row country isConnected => some (country, isConnected)
  | _ => none

namespace BubbleMenuOverlay

/-- `isNullOrBlank` -/
def isNullOrBlank (s : Option Str) : Bool := s.all fun s => s.all isWhitespace

/-- The country on top: the connected one, if it is in the table and not among the recent ones. -/
def pinned (recents : List Str) (connectedCode : Option Str) : Option Country :=
  let connectedInRecents := !isNullOrBlank connectedCode && connectedCode.any recents.contains
  if !isNullOrBlank connectedCode && !connectedInRecents then connectedCode.bind fromCode else none

/-- The views that `show` adds to its list. -/
def showItems (recents : List Str) (connectedCountryCode : Option Str) : List MenuItem :=
  let connectedCode := connectedCountryCode.map uppercase
  let top := (pinned recents connectedCode).toList
  let shown := top.map Country.code
  let recentRows := recents.filterMap fun code => if code ∈ shown then none else fromCode code
  let shown := shown ++ recentRows.map Country.code
  let allRows := ALL.filter fun c => c.code ∉ shown
  top.map (.row · true) ++
    (if recentRows ≠ [] then .recentLabel :: recentRows.map fun it => .row it (some it.code = connectedCode) else []) ++
    (if recentRows ≠ [] ∧ allRows ≠ [] then [.separator] else []) ++
    (if allRows ≠ [] then .allLabel :: allRows.map (.row · false) else [])

/-- The countries that the list shows, with their marks. -/
def rows (items : List MenuItem) : List (Country × Bool) := items.filterMap MenuItem.shownRow

/-- One `forEach` over what is not in the list yet. -/
def addMissing {α : Type} (code : α → Str) (item : α → Option (Country × Bool)) (items : List (Country × Bool)) (a : α) :
    List (Country × Bool) :=
  if items.any fun it => it.1.code == code a then items else items ++ (item a).toList

/-- The list that `show` keeps for the search. -/
def allCountryItems (recents : List Str) (connectedCountryCode : Option Str) : List (Country × Bool) :=
  let connectedCode := connectedCountryCode.map uppercase
  let items := (pinned recents connectedCode).toList.map (·, true)
  let items := recents.foldl
    (addMissing id fun code => (fromCode code).map fun it => (it, decide (some it.code = connectedCode))) items
  ALL.foldl (addMissing Country.code fun c => some (c, false)) items

end BubbleMenuOverlay

namespace CountriesScreen

/-- `recentList` -/
def recentList (recentCountries : List Str) : List Country := recentCountries.filterMap fromCode

/-- The rows of the page; `matching` is the test of a query on the names, codes and dialling codes. -/
def rows (matching : Str → Country → Bool) (query : Str) (recentCountries : List Str) : List Country :=
  let filteredCountries := if query = [] then ALL else ALL.filter (matching query)
  let showRecents := query = [] ∧ recentList recentCountries ≠ []
  let allCountries := if showRecents then filteredCountries.filter fun c => c.code ∉ recentCountries else filteredCountries
  (if showRecents then recentList recentCountries else []) ++ allCountries

end CountriesScreen

/-- Every country of the table, once. -/
structure EachOnce (countries : List Country) : Prop where
  nodup : countries.Nodup
  complete : ∀ c, c ∈ countries ↔ c ∈ ALL

/-- The three lists are complete, and the bubble marks the connected country and no other. -/
structure MenusComplete (recents : List Str) (connectedCountryCode : Option Str) : Prop where
  shown : EachOnce ((BubbleMenuOverlay.rows (BubbleMenuOverlay.showItems recents connectedCountryCode)).map Prod.fst)
  searched : EachOnce ((BubbleMenuOverlay.allCountryItems recents connectedCountryCode).map Prod.fst)
  listed : ∀ matching, EachOnce (CountriesScreen.rows matching [] recents)
  shownMark : ∀ r ∈ BubbleMenuOverlay.rows (BubbleMenuOverlay.showItems recents connectedCountryCode),
    r.2 = true ↔ some r.1.code = connectedCountryCode.map uppercase
  searchedMark : ∀ r ∈ BubbleMenuOverlay.allCountryItems recents connectedCountryCode,
    r.2 = true ↔ some r.1.code = connectedCountryCode.map uppercase

/-! ## A front and the rest -/

/-- The table without what stands in front. -/
def remaining (front : List Country) : List Country := ALL.filter fun c => c ∉ front

/-- With the others behind it, any front without repetition makes a full menu. -/
theorem eachOnce_front {front : List Country} (hn : front.Nodup) (hsub : ∀ c ∈ front, c ∈ ALL) :
    EachOnce (front ++ remaining front) where
  nodup := by
    refine List.nodup_append.mpr ⟨hn, all_nodup.filter _, fun c hc d hd he => ?_⟩
    obtain rfl := he
    simpa [hc] using (List.mem_filter.mp hd).2
  complete := by
    intro c
    rw [List.mem_append, remaining, List.mem_filter, decide_eq_true_eq]
    constructor
    · rintro (h | h)
      · exact hsub c h
      · exact h.1
    · intro h
      by_cases hc : c ∈ front
      · exact .inl hc
      · exact .inr ⟨h, hc⟩

theorem mem_map_code {c : Country} {l : List Country} : c.code ∈ l.map Country.code ↔ c ∈ l :=
  List.mem_map_of_injective fun _ _ h => Country.ext h

/-- Codes tell what is left as the countries do. -/
theorem remaining_codes (front : List Country) : (ALL.filter fun c => c.code ∉ front.map Country.code) = remaining front := by
  refine List.filter_congr fun c _ => ?_
  rw [decide_eq_decide, mem_map_code]

/-! ## The recent countries -/

section

variable {recents : List Str} {connectedCode : Option Str}

/-- Recent codes that differ and are in upper case. -/
structure Recents (recents : List Str) : Prop where
  nodup : recents.Nodup
  upper : ∀ code ∈ recents, uppercase code = code

namespace Recents

theorem mem_recentList (h : Recents recents) {c : Country} :
    c ∈ CountriesScreen.recentList recents ↔ c ∈ ALL ∧ c.code ∈ recents := by
  rw [CountriesScreen.recentList, List.mem_filterMap]
  constructor
  · rintro ⟨code, hcode, hfound⟩
    obtain ⟨hall, hc⟩ := fromCode_some_iff.mp hfound
    rw [h.upper code hcode] at hc
    exact ⟨hall, hc ▸ hcode⟩
  · rintro ⟨hall, hcode⟩
    exact ⟨c.code, hcode, fromCode_some_iff.mpr ⟨hall, (h.upper _ hcode).symm⟩⟩

theorem recentList_nodup (h : Recents recents) : (CountriesScreen.recentList recents).Nodup := by
  have hpair : recents.Pairwise fun a b => uppercase a ≠ uppercase b := by
    refine h.nodup.imp_of_mem fun ha hb hne => ?_
    rwa [h.upper _ ha, h.upper _ hb]
  refine hpair.filterMap fromCode fun a b hne c hc d hd he => ?_
  obtain rfl := he
  exact hne ((fromCode_some_iff.mp hc).2.symm.trans (fromCode_some_iff.mp hd).2)

end Recents

end

/-! ## The bubble -/

section

variable {recents : List Str} {connectedCountryCode : Option Str}

namespace BubbleMenuOverlay

theorem pinned_some {u : Str} :
    pinned recents (some u) = if u.all isWhitespace = true ∨ u ∈ recents then none else fromCode u := by
  unfold pinned isNullOrBlank
  simp only [Option.all_some, Option.any_some, Option.bind_some, List.contains_eq_mem]
  cases u.all isWhitespace <;> by_cases hmem : u ∈ recents <;> simp [hmem]

/-- The connected country is pinned when it is known and not a recent one. -/
theorem pinned_some_iff {c : Country} : pinned recents (connectedCountryCode.map uppercase) = some c ↔
    c ∈ ALL ∧ some c.code = connectedCountryCode.map uppercase ∧ c.code ∉ recents := by
  cases connectedCountryCode with
  | none => simp [pinned]
  | some code =>
    rw [Option.map_some, Option.some.injEq, pinned_some]
    constructor
    · intro h
      split at h
      · cases h
      · rename_i hout
        obtain ⟨hall, hcode⟩ := fromCode_some_iff.mp h
        rw [uppercase_uppercase] at hcode
        exact ⟨hall, hcode, fun hmem => hout (.inr (hcode ▸ hmem))⟩
    · rintro ⟨hall, hcode, hout⟩
      have hblank := code_not_blank (mem_all.mp hall)
      rw [hcode] at hblank hout
      rw [if_neg (not_or.mpr ⟨by simp [hblank], hout⟩), fromCode_some_iff, uppercase_uppercase]
      exact ⟨hall, hcode⟩

/-- What stands above the rest. -/
def front (recents : List Str) (connectedCountryCode : Option Str) : List Country :=
  (pinned recents (connectedCountryCode.map uppercase)).toList ++ CountriesScreen.recentList recents

/-- A country with its mark. -/
def mark (connectedCountryCode : Option Str) (c : Country) : Country × Bool :=
  (c, decide (some c.code = connectedCountryCode.map uppercase))

/-- The marked front with the rest behind it. -/
def marked (recents : List Str) (connectedCountryCode : Option Str) : List (Country × Bool) :=
  (front recents connectedCountryCode).map (mark connectedCountryCode) ++
    (remaining (front recents connectedCountryCode)).map (·, false)

theorem mem_front (h : Recents recents) {c : Country} : c ∈ front recents connectedCountryCode ↔
    c ∈ ALL ∧ (some c.code = connectedCountryCode.map uppercase ∨ c.code ∈ recents) := by
  rw [front, List.mem_append, Option.mem_toList, pinned_some_iff, h.mem_recentList]
  tauto

/-- The pinned country and the recent ones are all different. -/
theorem front_nodup (h : Recents recents) : (front recents connectedCountryCode).Nodup := by
  refine List.nodup_append.mpr ⟨?_, h.recentList_nodup, fun c hc d hd he => ?_⟩
  · cases pinned recents (connectedCountryCode.map uppercase) with
    | none => exact List.nodup_nil
    | some c => exact List.nodup_singleton c
  · obtain rfl := he
    rw [Option.mem_toList, pinned_some_iff] at hc
    exact hc.2.2 (h.mem_recentList.mp hd).2

theorem marked_eachOnce (h : Recents recents) : EachOnce ((marked recents connectedCountryCode).map Prod.fst) := by
  have hfst : (marked recents connectedCountryCode).map Prod.fst =
      front recents connectedCountryCode ++ remaining (front recents connectedCountryCode) := by
    rw [marked, List.map_append, List.map_map, List.map_map]
    congr 1
    · exact List.map_id _
    · exact List.map_id _
  rw [hfst]
  exact eachOnce_front (front_nodup h) fun c hc => ((mem_front h).mp hc).1

/-- The mark stands on the connected country and no other. -/
theorem marked_connected (h : Recents recents) : ∀ r ∈ marked recents connectedCountryCode,
    r.2 = true ↔ some r.1.code = connectedCountryCode.map uppercase := by
  intro r hr
  obtain hr | hr := List.mem_append.mp hr
  · obtain ⟨c, _, rfl⟩ := List.mem_map.mp hr
    exact decide_eq_true_iff
  · obtain ⟨c, hc, rfl⟩ := List.mem_map.mp hr
    obtain ⟨hall, hout⟩ := List.mem_filter.mp hc
    have hout : c ∉ front recents connectedCountryCode := by simpa using hout
    constructor
    · intro hfalse
      cases hfalse
    · intro hcode
      exact absurd ((mem_front h).mpr ⟨hall, .inl hcode⟩) hout

/-- Nothing recent is left out for the country on top. -/
theorem recentRows_eq : (recents.filterMap fun code =>
      if code ∈ (pinned recents (connectedCountryCode.map uppercase)).toList.map Country.code then none
      else fromCode code) = CountriesScreen.recentList recents := by
  refine List.filterMap_congr fun code hcode => if_neg fun htop => ?_
  obtain ⟨c, hc, rfl⟩ := List.mem_map.mp htop
  rw [Option.mem_toList, pinned_some_iff] at hc
  exact hc.2.2 hcode

/-- The country on top is marked. -/
theorem pinned_marked : (pinned recents (connectedCountryCode.map uppercase)).toList.map (·, true) =
    (pinned recents (connectedCountryCode.map uppercase)).toList.map (mark connectedCountryCode) := by
  refine List.map_congr_left fun c hc => ?_
  rw [Option.mem_toList, pinned_some_iff] at hc
  rw [mark, decide_eq_true hc.2.1]

theorem rows_append (items more : List MenuItem) : rows (items ++ more) = rows items ++ rows more :=
  List.filterMap_append

theorem rows_row (l : List Country) (isConnected : Country → Bool) :
    rows (l.map fun c => .row c (isConnected c)) = l.map fun c => (c, isConnected c) := by
  rw [rows, List.filterMap_map, ← List.filterMap_eq_map]
  rfl

/-- A section's label is no country. -/
theorem rows_section {α : Type} (label : MenuItem) (hlabel : label.shownRow = none) (l : List α) (item : α → MenuItem) :
    rows (if l ≠ [] then label :: l.map item else []) = rows (l.map item) := by
  cases l with
  | nil => rfl
  | cons a l => rw [if_pos (List.cons_ne_nil a l), rows, List.filterMap_cons_none hlabel, rows]

theorem rows_separator {p : Prop} [Decidable p] : rows (if p then [.separator] else []) = [] := by
  split
  · rfl
  · rfl

theorem showItems_rows : rows (showItems recents connectedCountryCode) = marked recents connectedCountryCode := by
  have hcodes : (pinned recents (connectedCountryCode.map uppercase)).toList.map Country.code ++
      (CountriesScreen.recentList recents).map Country.code = (front recents connectedCountryCode).map Country.code :=
    (List.map_append ..).symm
  unfold showItems
  simp only [recentRows_eq, hcodes, remaining_codes]
  rw [rows_append, rows_append, rows_append, rows_separator, rows_section _ rfl, rows_section _ rfl, List.append_nil,
    rows_row _ fun _ => true, rows_row _ fun it => decide (some it.code = connectedCountryCode.map uppercase),
    rows_row _ fun _ => false, pinned_marked, marked, front, List.map_append]
  rfl

/-! ## The search list -/

/-- Going over a list adds what it has and the items do not. The keys differ, so nothing
that was added keeps another element out. -/
theorem foldl_addMissing {α : Type} {code : α → Str} {item : α → Option (Country × Bool)}
    {l : List α} (hitem : ∀ a ∈ l, ∀ it ∈ item a, it.1.code = code a) (hl : (l.map code).Nodup)
    (items : List (Country × Bool)) :
    l.foldl (addMissing code item) items =
      items ++ (l.filter fun a => code a ∉ items.map fun it => it.1.code).filterMap item := by
  induction l generalizing items with
  | nil => exact (List.append_nil items).symm
  | cons a l ih =>
    obtain ⟨ha, hl⟩ := List.nodup_cons.mp hl
    have ih := ih (fun b hb => hitem b (List.mem_cons_of_mem a hb)) hl
    have hany : (items.any fun it => it.1.code == code a) = decide (code a ∈ items.map fun it => it.1.code) := by
      rw [Bool.eq_iff_iff, decide_eq_true_iff, List.any_eq_true, List.mem_map]
      simp only [beq_iff_eq]
    rw [List.foldl_cons, addMissing, hany]
    by_cases hin : code a ∈ items.map fun it => it.1.code
    · rw [if_pos (decide_eq_true hin), ih, List.filter_cons_of_neg (by simpa using hin)]
    · rw [if_neg (by simpa using hin), ih, List.filter_cons_of_pos (by simpa using hin), List.append_assoc]
      congr 1
      have hrest : (l.filter fun b => code b ∉ (items ++ (item a).toList).map fun it => it.1.code) =
          l.filter fun b => code b ∉ items.map fun it => it.1.code := by
        refine List.filter_congr fun b hb => ?_
        have hba : code b ≠ code a := fun he => ha (he ▸ List.mem_map_of_mem hb)
        have hout : code b ∉ (item a).toList.map fun it => it.1.code := fun hmem => by
          obtain ⟨it, hit, he⟩ := List.mem_map.mp hmem
          exact hba (he.symm.trans (hitem a List.mem_cons_self it (Option.mem_toList.mp hit)))
        rw [decide_eq_decide, List.map_append, List.mem_append]
        exact not_congr (or_iff_left hout)
      rw [hrest]
      cases hitemA : item a with
      | none => rw [List.filterMap_cons_none hitemA]; rfl
      | some it => rw [List.filterMap_cons_some hitemA]; rfl

/-- The searched menu of the bubble has the marked items. -/
theorem allCountryItems_eq (h : Recents recents) :
    allCountryItems recents connectedCountryCode = marked recents connectedCountryCode := by
  have hfound : ∀ code ∈ recents, ∀ it ∈ (fromCode code).map (mark connectedCountryCode), it.1.code = id code := by
    intro code hcode it hit
    obtain ⟨c, hc, rfl⟩ := Option.mem_map.mp hit
    exact (fromCode_some_iff.mp hc).2.trans (h.upper code hcode)
  have hout : ∀ code ∈ recents, code ∉ ((pinned recents (connectedCountryCode.map uppercase)).toList.map
      (mark connectedCountryCode)).map fun it => it.1.code := by
    intro code hcode hmem
    rw [List.map_map] at hmem
    obtain ⟨c, hc, rfl⟩ := List.mem_map.mp hmem
    rw [Option.mem_toList, pinned_some_iff] at hc
    exact hc.2.2 hcode
  have hrecents : recents.foldl (addMissing id fun code => (fromCode code).map (mark connectedCountryCode))
      ((pinned recents (connectedCountryCode.map uppercase)).toList.map (mark connectedCountryCode)) =
      (front recents connectedCountryCode).map (mark connectedCountryCode) := by
    rw [foldl_addMissing hfound (by rw [List.map_id]; exact h.nodup), front, List.map_append]
    congr 1
    have hkept : (recents.filter fun code => id code ∉ ((pinned recents (connectedCountryCode.map uppercase)).toList.map
        (mark connectedCountryCode)).map fun it => it.1.code) = recents :=
      List.filter_eq_self.mpr fun code hcode => decide_eq_true (hout code hcode)
    rw [hkept, CountriesScreen.recentList, List.map_filterMap]
  have hcodes : ((front recents connectedCountryCode).map (mark connectedCountryCode)).map (fun it => it.1.code) =
      (front recents connectedCountryCode).map Country.code := List.map_map
  have hinj : Function.Injective Country.code := fun _ _ he => Country.ext he
  have hall : (ALL.map Country.code).Nodup := all_nodup.map hinj
  have hrest : ∀ c ∈ ALL, ∀ it ∈ some (c, false), it.1.code = c.code := fun _ _ _ hit => by cases hit; rfl
  calc allCountryItems recents connectedCountryCode
    _ = ALL.foldl (addMissing Country.code fun c => some (c, false))
          (recents.foldl (addMissing id fun code => (fromCode code).map (mark connectedCountryCode))
            ((pinned recents (connectedCountryCode.map uppercase)).toList.map (·, true))) := rfl
    _ = ALL.foldl (addMissing Country.code fun c => some (c, false))
          ((front recents connectedCountryCode).map (mark connectedCountryCode)) := by rw [pinned_marked, hrecents]
    _ = marked recents connectedCountryCode := by
      rw [foldl_addMissing hrest hall, hcodes, remaining_codes, marked]
      exact congrArg _ (congrFun List.filterMap_eq_map _)

end BubbleMenuOverlay

/-! ## The page -/

/-- The recent countries with all others behind them; an empty front leaves everything. -/
theorem CountriesScreen.rows_eq (h : Recents recents) (matching : Str → Country → Bool) :
    rows matching [] recents = recentList recents ++ remaining (recentList recents) := by
  have hcodes : (ALL.filter fun c => c.code ∉ recents) = remaining (recentList recents) := by
    refine List.filter_congr fun c hc => ?_
    rw [decide_eq_decide, h.mem_recentList]
    exact not_congr ⟨fun hcode => ⟨hc, hcode⟩, fun hmem => hmem.2⟩
  unfold rows
  simp only [if_true, true_and]
  by_cases hnone : recentList recents = []
  · have hkept : remaining [] = ALL := List.filter_eq_self.mpr fun _ _ => rfl
    rw [hnone, hkept]
    simp
  · rw [if_pos hnone, if_pos hnone, hcodes]

/-- **The country menus lose nothing.** -/
theorem menus_complete (hn : recents.Nodup) (hup : ∀ code ∈ recents, uppercase code = code)
    (connectedCountryCode : Option Str) : MenusComplete recents connectedCountryCode := by
  have h : Recents recents := ⟨hn, hup⟩
  have hrows := @BubbleMenuOverlay.showItems_rows recents connectedCountryCode
  constructor
  · rw [hrows]
    exact BubbleMenuOverlay.marked_eachOnce h
  · rw [BubbleMenuOverlay.allCountryItems_eq h]
    exact BubbleMenuOverlay.marked_eachOnce h
  · intro matching
    rw [CountriesScreen.rows_eq h]
    exact eachOnce_front h.recentList_nodup fun c hc => (h.mem_recentList.mp hc).1
  · rw [hrows]
    exact BubbleMenuOverlay.marked_connected h
  · rw [BubbleMenuOverlay.allCountryItems_eq h]
    exact BubbleMenuOverlay.marked_connected h

end

/-- Connected to a recent country; one recent code is not in the table. -/
theorem menus_complete_recent : MenusComplete (List.map String.toList ["DE", "QQ", "US"]) (some "us".toList) :=
  menus_complete (by decide) (by decide) _

end KiloProxy.Ui
