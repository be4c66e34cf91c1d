import KiloProxy.Util.Mutators

/-!
# The default and the user's choice

`addProfile` and `switchDefault` make a profile the default, a rename takes the default
along, and a removal drops it: also when another profile is removed. `Choice` runs the
registry together with the profile that was made the default last and is still there.
-/

namespace KiloProxy.Util
set_option autoImplicit false
open KiloProxy.Text KiloProxy.Store KiloProxy.Run

namespace ProfileManager

/-- `chosen` is the profile made the default last, under its present name; it is no part
of the program. -/
structure Choice where
  manager : ProfileManager
  chosen : Option Str

namespace Choice

/-- What a call makes of the choice. -/
def choose (s : ProfileManager) (chosen : Option Str) : Action → Option Str
  | .addProfile name => if name ∈ s.mProfiles then chosen else some name
  | .switchDefault name => if name ∈ s.mProfiles then some name else chosen
  | .renameProfile oldName newName => if Renames s oldName newName ∧ chosen = some oldName then some newName else chosen
  | .removeProfile name =>
    if name ≠ s.mProfiles.headD profDefault ∧ name ∈ s.mProfiles ∧ chosen = some name then none else chosen
  | _ => chosen

def step (c : Choice) (a : Action × List (Str × PrefValue)) : Option Choice :=
  (system.step c.manager a).map fun s => ⟨s, choose c.manager c.chosen a.1⟩

/-- Nothing is chosen yet. -/
def system : System Choice (Action × List (Str × PrefValue)) where
  init c := ProfileManager.system.init c.manager ∧ c.chosen = none
  step := step

/-- The default is the chosen profile. -/
def Followed (c : Choice) : Prop :=
  ∀ n, c.chosen = some n → c.manager.lastProfile = n ∧ n ∈ c.manager.mProfiles

/-- Removing a profile that is not the default leaves the default. -/
def RemovalsKeep (s : ProfileManager) (a : Action × List (Str × PrefValue)) : Prop :=
  ∀ name s', a.1 = .removeProfile name → ProfileManager.system.step s a = some s' → name ≠ s.lastProfile →
    s'.lastProfile = s.lastProfile

/-- The migration of `name` does not touch `last_profile`, unless the default is the
placeholder anyway. -/
def MigrationKeepsLast (s : ProfileManager) (name : Str) : Prop :=
  Profile.Migrates s.pref name → ∀ suf v, s.pref.get (Profile.legacyPrefix name ++ suf) = some v →
    (Profile.legacyPrefix name ++ suf = prefLastProfile → s.lastProfile = profDefault) ∧
    Profile.prefPrefix name ++ suf ≠ prefLastProfile

/-- The condition, read off the entries of the store. -/
theorem migrationKeepsLast_iff {s : ProfileManager} {name : Str} : MigrationKeepsLast s name ↔
    (Profile.Migrates s.pref name → ∀ e ∈ s.pref.list, startsWith e.1 (Profile.legacyPrefix name) = true →
      (e.1 = prefLastProfile → s.lastProfile = profDefault) ∧
      Profile.prefPrefix name ++ removePrefix e.1 (Profile.legacyPrefix name) ≠ prefLastProfile) := by
  constructor
  · rintro h hmig ⟨k, v⟩ he hpre
    obtain ⟨suf, rfl⟩ := List.isPrefixOf_iff_prefix.mp hpre
    rw [removePrefix_append]
    exact h hmig suf v (Entries.mem_list_iff.mp he)
  · intro h hmig suf v hget
    have hrow := h hmig _ (Entries.mem_list_iff.mpr hget) (startsWith_append _ _)
    rw [removePrefix_append] at hrow
    exact hrow

instance (s : ProfileManager) (name : Str) : Decidable (MigrationKeepsLast s name) :=
  @decidable_of_iff _ _ migrationKeepsLast_iff.symm (@instDecidableForall _ _ inferInstance (List.decidableBAll _ _))

/-- The profile that the call builds. -/
def BuildKeepsLast (s : ProfileManager) (name : Str) : Prop :=
  name ∈ s.mProfiles → name ∉ s.cached → MigrationKeepsLast s name

/-- No profile but the default is removed, unless the default is the placeholder; names
fit on a line; and no migration touches `last_profile`. -/
def KeepsChoice (s : ProfileManager) (a : Action × List (Str × PrefValue)) : Prop :=
  match a.1 with
  | .getProfile name => BuildKeepsLast s name
  | .getDefault => BuildKeepsLast s s.lastProfile
  | .addProfile name => name ∉ s.mProfiles → Listable name ∧ BuildKeepsLast (s.register name) name
  | .removeProfile name =>
    name ≠ s.mProfiles.headD profDefault → name ∈ s.mProfiles → name = s.lastProfile ∨ s.lastProfile = profDefault
  | .renameProfile oldName newName => Renames s oldName newName → Listable newName ∧ BuildKeepsLast s oldName
  | _ => True

instance (s : ProfileManager) (name : Str) : Decidable (BuildKeepsLast s name) := by
  unfold BuildKeepsLast; infer_instance

instance (s : ProfileManager) (a : Action × List (Str × PrefValue)) : Decidable (KeepsChoice s a) :=
  match a with
  | (.getProfile name, _) => inferInstanceAs (Decidable (BuildKeepsLast s name))
  | (.getDefault, _) => inferInstanceAs (Decidable (BuildKeepsLast s s.lastProfile))
  | (.addProfile name, _) =>
    inferInstanceAs (Decidable (name ∉ s.mProfiles → Listable name ∧ BuildKeepsLast (s.register name) name))
  | (.removeProfile name, _) =>
    inferInstanceAs (Decidable (name ≠ s.mProfiles.headD profDefault → name ∈ s.mProfiles →
      name = s.lastProfile ∨ s.lastProfile = profDefault))
  | (.renameProfile oldName newName, _) =>
    inferInstanceAs (Decidable (Renames s oldName newName → Listable newName ∧ BuildKeepsLast s oldName))
  | (.switchDefault _, _) | (.reload, _) | (.setField _ _ _, _) | (.collect _, _) => instDecidableTrue

end Choice

/-! ## Following the choice -/

/-- A build whose migration keeps off `last_profile` keeps the default. -/
theorem Got.lastProfile {s s' : ProfileManager} {all : List (Str × PrefValue)} {name : Str} (h : Reloaded s)
    (hgot : Got s all name s') (hkeep : Choice.BuildKeepsLast s name) : s'.lastProfile = s.lastProfile := by
  have h' := h.got hgot
  cases hgot with
  | inl he => rw [he]
  | inr hbuilt =>
    obtain ⟨⟨hmem, hnew⟩, hall, hpref, _⟩ := hbuilt
    have hmoves := hkeep hmem hnew
    rw [Profile.init_eq] at hpref
    split at hpref
    · rename_i hmig
      have ht : ∀ m ∈ all.filterMap (Profile.legacyMove name), m.target ≠ prefLastProfile := by
        intro m hm
        obtain ⟨suf, _, ht, hget⟩ := (Profile.mem_moves hall).mp hm
        rw [ht]
        exact (hmoves hmig suf _ hget).2
      by_cases hs : ∃ m ∈ all.filterMap (Profile.legacyMove name), m.source = prefLastProfile
      · -- moved away: both defaults are the placeholder
        have hgone : s'.pref.get prefLastProfile = none := by
          rw [hpref, Entries.get_edit]
          exact putAll_move_source ht (.inr hs)
        obtain ⟨m, hm, he⟩ := hs
        obtain ⟨suf, hsource, _, hget⟩ := (Profile.mem_moves hall).mp hm
        rw [(hmoves hmig suf _ hget).1 (hsource.symm.trans he)]
        apply h'.lastProfile_of_none
        rw [getString, hgone]
      · apply h.lastProfile_congr h'
        apply getString_congr
        rw [hpref, Entries.get_edit]
        exact putAll_move_other (fun m hm he => hs ⟨m, hm, he⟩) ht _
    · apply h.lastProfile_congr h'
      rw [hpref]

namespace Choice

variable {c : Choice} {s' : ProfileManager} {all : List (Str × PrefValue)}

theorem followed_of_same (h : Followed c) (list : s'.mProfiles = c.manager.mProfiles)
    (last : s'.lastProfile = c.manager.lastProfile) : Followed ⟨s', c.chosen⟩ := by
  intro n hn
  rw [last, list]
  exact h n hn

/-- An added profile is the new choice. -/
theorem Followed.add (hre : Reloaded c.manager) (h : Followed c) {name : Str}
    (hkeep : name ∉ c.manager.mProfiles → Listable name ∧ BuildKeepsLast (c.manager.register name) name)
    (hs : c.manager.addProfile all name = some s') : Followed ⟨s', choose c.manager c.chosen (.addProfile name)⟩ := by
  cases addProfile_cases hs with
  | inl hsame =>
    obtain ⟨hmem, rfl⟩ := hsame
    simp only [choose, if_pos hmem]
    exact h
  | inr hadd =>
    obtain ⟨hnew, hgot⟩ := hadd
    simp only [choose, if_neg hnew]
    obtain ⟨hname, hbuild⟩ := hkeep hnew
    rw [register_lastProfile] at hgot
    intro n hn
    obtain rfl := Option.some.inj hn
    constructor
    · show s'.lastProfile = name
      rw [hgot.lastProfile (c.manager.register_list name) hbuild, register_lastProfile]
    · show name ∈ s'.mProfiles
      rw [hgot.list, hre.register_names hname hnew]
      exact List.mem_append_right _ List.mem_cons_self

/-- Another profile is removed only where the default is the placeholder. -/
theorem Followed.remove (hre : Reloaded c.manager) (h : Followed c) {name : Str}
    (hkeep : name ≠ c.manager.mProfiles.headD profDefault → name ∈ c.manager.mProfiles →
      name = c.manager.lastProfile ∨ c.manager.lastProfile = profDefault)
    (hs : c.manager.removeProfile all name = some s') :
    Followed ⟨s', choose c.manager c.chosen (.removeProfile name)⟩ := by
  cases removeProfile_cases hs with
  | inl hsame =>
    obtain ⟨hguard, rfl⟩ := hsame
    have hno : ¬ (name ≠ c.manager.mProfiles.headD profDefault ∧ name ∈ c.manager.mProfiles ∧
        c.chosen = some name) := by
      rintro ⟨hne, hmem, _⟩
      cases hguard with
      | inl he => exact hne he
      | inr hout => exact hout hmem
    simp only [choose, if_neg hno]
    exact h
  | inr hremove =>
    obtain ⟨hne, hmem, t, ht, rfl⟩ := hremove
    have hdef : name ≠ profDefault := by
      rw [← hre.head]
      exact hne
    have hlist := (hre.got ht).unregister_names hdef
    intro n hn
    have hother : c.chosen = some n ∧ n ≠ name := by
      simp only [choose] at hn
      split at hn
      · cases hn
      · rename_i hno
        refine ⟨hn, ?_⟩
        rintro rfl
        exact hno ⟨hne, hmem, hn⟩
    obtain ⟨hlast, hin⟩ := h n hother.1
    -- another profile is removed: the choice is the placeholder
    have hplaceholder : n = profDefault := by
      cases hkeep hne hmem with
      | inl he => exact absurd (hlast.symm.trans he.symm) hother.2
      | inr hdef => exact hlast.symm.trans hdef
    constructor
    · show (t.unregister name).lastProfile = n
      rw [unregister_lastProfile, hplaceholder]
    · show n ∈ (t.unregister name).mProfiles
      rw [hlist, ht.list]
      exact (List.mem_erase_of_ne hother.2).mpr hin

/-- A rename of the choice carries the choice over. -/
theorem Followed.rename (hre : Reloaded c.manager) (h : Followed c) {oldName newName : Str}
    (hkeep : Renames c.manager oldName newName → Listable newName ∧ BuildKeepsLast c.manager oldName)
    (hs : c.manager.renameProfile all oldName newName = some s') :
    Followed ⟨s', choose c.manager c.chosen (.renameProfile oldName newName)⟩ := by
  cases renameProfile_cases hs with
  | inl hsame =>
    obtain ⟨hno, rfl⟩ := hsame
    have hno : ¬ (Renames c.manager oldName newName ∧ c.chosen = some oldName) := fun hr => hno hr.1
    simp only [choose, if_neg hno]
    exact h
  | inr hrename =>
    obtain ⟨hr, t, ht, rfl⟩ := hrename
    obtain ⟨hname, hbuild⟩ := hkeep hr
    have hkept := ht.lastProfile hre hbuild
    obtain ⟨_, hold, hne, hnew⟩ := id hr
    rw [← ht.list] at hold hnew
    have hdef : oldName ≠ profDefault := by
      rw [← hre.head]
      exact hne
    have hlast := (hre.got ht).rename_lastProfile newName hdef
    have hlist := (hre.got ht).rename_names hdef hname hnew
    intro n hn
    simp only [choose, hr, true_and] at hn
    show (t.rename oldName newName).lastProfile = n ∧ n ∈ (t.rename oldName newName).mProfiles
    rw [hlast, hlist, hkept]
    split at hn
    · rename_i hchosen
      rw [if_pos (h oldName hchosen).1, ← Option.some.inj hn]
      exact ⟨rfl, List.mem_set (List.idxOf_lt_length_of_mem hold) newName⟩
    · rename_i hother
      have hn_ne : n ≠ oldName := by
        rintro rfl
        exact hother hn
      obtain ⟨hlast', hin⟩ := h n hn
      rw [hlast', if_neg hn_ne]
      rw [← ht.list] at hin
      exact ⟨rfl, mem_set_of_ne hin hn_ne⟩

/-- Switching the default is a choice, and is followed. -/
theorem Followed.switchDefault (h : Followed c) (name : Str) :
    Followed ⟨c.manager.switchDefault name, choose c.manager c.chosen (.switchDefault name)⟩ := by
  by_cases hmem : name ∈ c.manager.mProfiles
  · simp only [choose, ProfileManager.switchDefault, if_pos hmem]
    intro n hn
    obtain rfl := Option.some.inj hn
    exact ⟨lastProfile_of_some (getString_put _ _ _), hmem⟩
  · simp only [choose, ProfileManager.switchDefault, if_neg hmem]
    exact h

/-- Every call that meets the condition follows the choice. -/
theorem Followed.step (hre : Reloaded c.manager) (h : Followed c) {a : Action} (hkeep : KeepsChoice c.manager (a, all))
    (hs : ProfileManager.system.step c.manager (a, all) = some s') : Followed ⟨s', choose c.manager c.chosen a⟩ := by
  cases a with
  | getProfile name =>
    have hgot := getProfile_got hs
    exact followed_of_same h hgot.list (hgot.lastProfile hre hkeep)
  | getDefault =>
    have hgot := getProfile_got hs
    exact followed_of_same h hgot.list (hgot.lastProfile hre hkeep)
  | addProfile name => exact h.add hre hkeep hs
  | removeProfile name => exact h.remove hre hkeep hs
  | renameProfile oldName newName => exact h.rename hre hkeep hs
  | switchDefault name =>
    obtain rfl := Option.some.inj hs
    exact h.switchDefault name
  | reload =>
    obtain rfl := Option.some.inj hs
    exact followed_of_same h hre.symm (hre.lastProfile_congr (c.manager.reload_list) rfl)
  | setField name f v =>
    obtain rfl := setField_cases all hs
    refine followed_of_same h rfl ?_
    apply hre.lastProfile_congr (hre.step hs)
    apply getString_congr
    exact get_edit_registry (Profile.setField_keys name f v) (List.mem_cons_of_mem _ List.mem_cons_self)
  | collect name =>
    obtain rfl := Option.some.inj hs
    exact h

/-- Removing another profile than the default. -/
theorem removals_keep {s : ProfileManager} {a : Action × List (Str × PrefValue)}
    (hkeep : KeepsChoice s a) : RemovalsKeep s a := by
  obtain ⟨a, all⟩ := a
  intro name s' ha hs hne
  obtain rfl : a = .removeProfile name := ha
  cases removeProfile_cases hs with
  | inl hsame => rw [hsame.2]
  | inr hremove =>
    obtain ⟨hhead, hmem, t, _, rfl⟩ := hremove
    rw [unregister_lastProfile, (hkeep hhead hmem).resolve_left hne]

/-- **The default follows the choice** in every run in which only the default is removed,
or the default is the placeholder. -/
theorem default_follows {c : Choice} (h : Reaches system (fun c a => KeepsChoice c.manager a) c) :
    Followed c ∧ ∀ a, KeepsChoice c.manager a → RemovalsKeep c.manager a := by
  have hinv : Reloaded c.manager ∧ Followed c := by
    apply h.invariant (P := fun c => Reloaded c.manager ∧ Followed c)
    · intro c hc
      refine ⟨hc.1.1, fun n hn => ?_⟩
      rw [hc.2] at hn
      cases hn
    · rintro c ⟨a, all⟩ c' hc hkeep hstep
      obtain ⟨s', hs, rfl⟩ := Option.map_eq_some_iff.mp hstep
      exact ⟨hc.1.step hs, hc.2.step hc.1 hkeep hs⟩
  exact ⟨hinv.2, fun a hkeep => removals_keep hkeep⟩

/-- Nothing stored, nothing chosen. -/
def unchosen : Choice := ⟨fresh, none⟩

/-- Add `a` and `b`. -/
def addBoth : List (Action × List (Str × PrefValue)) :=
  [(.addProfile "a".toList, [(prefProfile, .string "a".toList), (prefLastProfile, .string "a".toList)]),
   (.addProfile "b".toList, [(prefProfile, .string "a\nb".toList), (prefLastProfile, .string "b".toList)])]

/-- Make `a` the default and rename it. -/
def switchThenRename : List (Action × List (Str × PrefValue)) :=
  addBoth ++ [(.switchDefault "a".toList, []), (.renameProfile "a".toList "c".toList, [])]

theorem default_follows_renamed : ∃ c, c.chosen = some "c".toList ∧ Followed c ∧
    ∀ a, KeepsChoice c.manager a → RemovalsKeep c.manager a := by
  have hinit : Reaches system (fun c a => KeepsChoice c.manager a) unchosen := .start ⟨⟨by decide +kernel, rfl, rfl⟩, rfl⟩
  have hrun : ((execWhere system (fun c a => KeepsChoice c.manager a) unchosen switchThenRename).map
      fun c => c.chosen) = some (some "c".toList) := by
    decide +kernel
  obtain ⟨c, hexec, hchosen⟩ := Option.map_eq_some_iff.mp hrun
  exact ⟨c, hchosen, default_follows (execWhere_reaches _ hinit hexec)⟩

/-- Add `a`, add `b`, remove `a`: `b` was chosen, the placeholder is the default. -/
theorem removal_drops_default : ¬ ∀ c, Reachable system c → Followed c := by
  intro h
  have hinit : Reachable system unchosen := .start ⟨⟨by decide +kernel, rfl, rfl⟩, rfl⟩
  have hrun : ((exec system unchosen (addBoth ++ [(.removeProfile "a".toList, [])])).map
      fun c => (c.chosen, c.manager.lastProfile)) = some (some "b".toList, profDefault) := by
    decide +kernel
  obtain ⟨c, hexec, he⟩ := Option.map_eq_some_iff.mp hrun
  obtain ⟨hchosen, hlast⟩ := Prod.mk.inj he
  have hfollow := (h c (exec_reaches _ hinit hexec) _ hchosen).1
  rw [hlast] at hfollow
  exact absurd hfollow (by decide)

end Choice

end ProfileManager

end KiloProxy.Util
