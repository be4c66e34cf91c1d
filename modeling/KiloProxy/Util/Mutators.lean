import KiloProxy.Util.StoredNames

/-!
# What the mutators of the registry write

Each mutator writes the list as text, mostly the default with it, and ends by reading
the list again: memory holds what a reload would build (`Reloaded`), and the list in
memory is the placeholder with names that can be stored again. Names that fit on a line
come back as they were written.
-/

namespace KiloProxy.Util
set_option autoImplicit false
open KiloProxy.Text KiloProxy.Store KiloProxy.Run

theorem ProfileManager.getString_congr {pref pref' : ProfileStore} {k : Str} (h : pref'.get k = pref.get k) :
    getString pref' k = getString pref k := by
  unfold getString
  rw [h]

/-- A batch over keys of profiles leaves the keys of the registry alone. -/
theorem get_edit_registry {pref : ProfileStore} {puts : Puts Str PrefValue} {k : Str}
    (hputs : ∀ p ∈ puts, ∃ n f, p.1 = Profile.key n f) (hk : k ∈ [prefProfile, prefLastProfile]) :
    (pref.edit puts).get k = pref.get k := by
  apply Entries.get_edit_of_notMem
  intro hmem
  obtain ⟨p, hp, rfl⟩ := List.mem_map.mp hmem
  obtain ⟨n, f, he⟩ := hputs p hp
  rw [he] at hk
  exact Profile.key_not_registry n f hk

namespace Profile

theorem delete_keys (name : Str) : ∀ p ∈ ProfileField.all.map fun f => (key name f, (none : Option PrefValue)),
    ∃ n f, p.1 = key n f := by
  intro p hp
  obtain ⟨f, _, rfl⟩ := List.mem_map.mp hp
  exact ⟨name, f, rfl⟩

theorem copyTo_keys (pref : ProfileStore) (name newName : Str) :
    ∀ p ∈ ProfileField.all.filterMap fun f => (pref.get (key name f)).map fun v => (key newName f, some v),
      ∃ n f, p.1 = key n f := by
  intro p hp
  obtain ⟨f, _, hf⟩ := List.mem_filterMap.mp hp
  obtain ⟨v, _, rfl⟩ := Option.map_eq_some_iff.mp hf
  exact ⟨newName, f, rfl⟩

theorem setField_keys (name : Str) (f : ProfileField) (v : PrefValue) :
    ∀ p ∈ [(key name f, some v)], ∃ n f, p.1 = key n f := by
  intro p hp
  exact ⟨name, f, congrArg Prod.fst (List.mem_singleton.mp hp)⟩

/-- Deleting a profile leaves the keys of the registry alone. -/
theorem get_delete_registry (pref : ProfileStore) (name : Str) {k : Str} (hk : k ∈ [prefProfile, prefLastProfile]) :
    (delete pref name).get k = pref.get k := get_edit_registry (delete_keys name) hk

/-- So does copying one. -/
theorem get_copyTo_registry (pref : ProfileStore) (name newName : Str) {k : Str}
    (hk : k ∈ [prefProfile, prefLastProfile]) : (copyTo pref name newName).get k = pref.get k :=
  get_edit_registry (copyTo_keys pref name newName) hk

end Profile

/-- What differs from the replaced element stays. -/
theorem mem_set_of_ne {l : List Str} {a b c : Str} (h : a ∈ l) (hne : a ≠ b) : a ∈ l.set (l.idxOf b) c := by
  induction l with
  | nil => cases h
  | cons x l ih =>
    by_cases hx : x = b
    · have hin : a ∈ l := (List.mem_cons.mp h).resolve_left fun he => hne (he.trans hx)
      rw [hx, List.idxOf_cons_self, List.set_cons_zero]
      exact List.mem_cons_of_mem _ hin
    · rw [List.idxOf_cons_ne _ hx, List.set_cons_succ]
      cases List.mem_cons.mp h with
      | inl he =>
        rw [he]
        exact List.mem_cons_self
      | inr hin => exact List.mem_cons_of_mem _ (ih hin)

namespace ProfileManager

/-! ## The default -/

/-- The default after a batch that writes the list, then maybe the default. -/
theorem getString_last {pref : ProfileStore} {v : Option PrefValue} {last : Puts Str PrefValue} :
    getString (pref.edit ((prefProfile, v) :: last)) prefLastProfile = getString (pref.edit last) prefLastProfile := by
  have hne : prefLastProfile ≠ prefProfile := by decide
  apply getString_congr
  rw [Entries.get_edit, Entries.get_edit, putAll_cons]
  by_cases hmem : prefLastProfile ∈ last.map Prod.fst
  · exact putAll_of_mem hmem _ _
  · rw [putAll_of_notMem hmem, putAll_of_notMem hmem, Function.update_of_ne hne]

theorem getString_put (pref : ProfileStore) (k v : Str) : getString (pref.edit [(k, some (.string v))]) k = some v := by
  rw [getString, Entries.get_edit, putAll_cons, putAll_nil, Function.update_self]

theorem register_last (s : ProfileManager) (name : Str) :
    getString (s.register name).pref prefLastProfile = some name := by
  unfold register reload
  rw [getString_last, getString_put]

theorem unregister_last (s : ProfileManager) (name : Str) :
    getString (s.unregister name).pref prefLastProfile = none := by
  unfold unregister reload
  rw [getString_last, getString, Entries.get_edit, putAll_cons, putAll_nil, Function.update_self]

/-- A rename follows the default. -/
theorem rename_last (s : ProfileManager) (oldName newName : Str) :
    getString (s.rename oldName newName).pref prefLastProfile =
      if getString s.pref prefLastProfile = some oldName then some newName
      else getString s.pref prefLastProfile := by
  have hkeep : getString (Profile.delete (Profile.copyTo s.pref oldName newName) oldName) prefLastProfile =
      getString s.pref prefLastProfile := by
    apply getString_congr
    rw [Profile.get_delete_registry _ _ (by simp), Profile.get_copyTo_registry _ _ _ (by simp)]
  unfold rename reload
  simp only [getString_last, hkeep]
  split
  · exact getString_put _ _ _
  · rw [Entries.edit_nil]
    exact hkeep

/-! ## The list -/

theorem reload_list (s : ProfileManager) : s.reload.mProfiles = storedProfiles s.reload.pref := rfl

theorem register_list (s : ProfileManager) (name : Str) :
    (s.register name).mProfiles = storedProfiles (s.register name).pref := reload_list _

theorem unregister_list (s : ProfileManager) (name : Str) :
    (s.unregister name).mProfiles = storedProfiles (s.unregister name).pref := reload_list _

theorem rename_list (s : ProfileManager) (oldName newName : Str) :
    (s.rename oldName newName).mProfiles = storedProfiles (s.rename oldName newName).pref := by
  unfold rename
  exact reload_list _

/-- Memory holds what a reload would build. -/
def Reloaded (s : ProfileManager) : Prop := s.mProfiles = storedProfiles s.pref

/-- A written list of names that fit on a line is read back. -/
theorem list_of_written {s : ProfileManager} {pref : ProfileStore} {names : List Str} {last : Puts Str PrefValue}
    (h : Reloaded s) (hpref : s.pref = pref.edit ((prefProfile, some (.string (join names ['\n']))) :: last))
    (hlast : ∀ p ∈ last, p.1 = prefLastProfile) (hnames : ∀ n ∈ names, Listable n ∧ n ≠ profDefault) :
    s.mProfiles = profDefault :: names := by
  have hne : prefProfile ≠ prefLastProfile := by decide
  apply h.trans
  apply storedProfiles_written _ hnames
  rw [hpref, Entries.get_edit, putAll_cons, putAll_of_notMem, Function.update_self]
  intro hmem
  obtain ⟨p, hp, he⟩ := List.mem_map.mp hmem
  exact hne (he.symm.trans (hlast p hp))

namespace Reloaded

variable {s s' : ProfileManager}

/-- The list in memory: the placeholder, then names that can be stored. -/
theorem list (h : Reloaded s) :
    ∃ names, s.mProfiles = profDefault :: names ∧ ∀ n ∈ names, Listable n ∧ n ≠ profDefault := by
  obtain ⟨names, hlist, hnames⟩ := storedProfiles_cons s.pref
  exact ⟨names, h.trans hlist, hnames⟩

theorem head (h : Reloaded s) : s.mProfiles.headD profDefault = profDefault := by
  obtain ⟨names, hlist, _⟩ := h.list
  rw [hlist, List.headD_cons]

/-- Names in memory have no line break. -/
theorem oneLine (h : Reloaded s) {n : Str} (hn : n ∈ s.mProfiles) : '\n' ∉ n := by
  obtain ⟨names, hlist, hnames⟩ := h.list
  rw [hlist] at hn
  cases List.mem_cons.mp hn with
  | inl he =>
    rw [he]
    decide
  | inr hn => exact (hnames n hn).1.oneLine

/-- A write outside the stored list. -/
theorem of_pref (h : Reloaded s) (profile : s'.pref.get prefProfile = s.pref.get prefProfile)
    (list : s'.mProfiles = s.mProfiles) : Reloaded s' := by
  rw [Reloaded, list, h, storedProfiles_congr profile]

/-- A registered name goes last on the list. -/
theorem register_names (h : Reloaded s) {name : Str} (hname : Listable name) (hnew : name ∉ s.mProfiles) :
    (s.register name).mProfiles = s.mProfiles ++ [name] := by
  obtain ⟨names, hlist, hnames⟩ := h.list
  have happend : s.mProfiles ++ [name] = profDefault :: (names ++ [name]) := by rw [hlist, List.cons_append]
  have hpref : (s.register name).pref = s.pref.edit [(prefProfile, some (.string (join (names ++ [name]) ['\n']))),
      (prefLastProfile, some (.string name))] := by
    unfold register reload
    simp only [happend, List.drop_one, List.tail_cons]
  rw [hlist, List.mem_cons, not_or] at hnew
  rw [happend]
  apply list_of_written (s.register_list name) hpref (by simp)
  intro n hn
  cases List.mem_append.mp hn with
  | inl hn => exact hnames n hn
  | inr hn =>
    rw [List.mem_singleton.mp hn]
    exact ⟨hname, hnew.1⟩

/-- An unregistered name goes off the list. -/
theorem unregister_names (h : Reloaded s) {name : Str} (hne : name ≠ profDefault) :
    (s.unregister name).mProfiles = s.mProfiles.erase name := by
  obtain ⟨names, hlist, hnames⟩ := h.list
  have herase : s.mProfiles.erase name = profDefault :: names.erase name := by
    rw [hlist, List.erase_cons_tail (by simpa using hne.symm)]
  have hpref : (s.unregister name).pref = (Profile.delete s.pref name).edit
      [(prefProfile, some (.string (join (names.erase name) ['\n']))), (prefLastProfile, none)] := by
    unfold unregister reload
    simp only [herase, List.drop_one, List.tail_cons]
  rw [herase]
  apply list_of_written (s.unregister_list name) hpref (by simp)
  intro n hn
  exact hnames n (List.mem_of_mem_erase hn)

/-- The new name takes the place of the old one. -/
theorem rename_names (h : Reloaded s) {oldName newName : Str} (hne : oldName ≠ profDefault)
    (hname : Listable newName) (hnew : newName ∉ s.mProfiles) :
    (s.rename oldName newName).mProfiles = s.mProfiles.set (s.mProfiles.idxOf oldName) newName := by
  obtain ⟨names, hlist, hnames⟩ := h.list
  have hset : s.mProfiles.set (s.mProfiles.idxOf oldName) newName =
      profDefault :: names.set (names.idxOf oldName) newName := by
    rw [hlist, List.idxOf_cons_ne _ hne.symm, List.set_cons_succ]
  have hpref : ∃ last : Puts Str PrefValue, (∀ p ∈ last, p.1 = prefLastProfile) ∧ (s.rename oldName newName).pref =
      (Profile.delete (Profile.copyTo s.pref oldName newName) oldName).edit
        ((prefProfile, some (.string (join (names.set (names.idxOf oldName) newName) ['\n']))) :: last) := by
    unfold rename reload
    simp only [hset, List.drop_one, List.tail_cons]
    refine ⟨_, ?_, rfl⟩
    intro p hp
    split at hp
    · rw [List.mem_singleton.mp hp]
    · cases hp
  obtain ⟨last, hputs, hpref⟩ := hpref
  rw [hlist, List.mem_cons, not_or] at hnew
  rw [hset]
  apply list_of_written (s.rename_list oldName newName) hpref hputs
  intro n hn
  cases List.mem_or_eq_of_mem_set hn with
  | inl hn => exact hnames n hn
  | inr he =>
    rw [he]
    exact ⟨hname, hnew.1⟩

end Reloaded

/-! ## The default name -/

theorem lastProfile_of_some {s : ProfileManager} {n : Str} (h : getString s.pref prefLastProfile = some n) :
    s.lastProfile = n := by
  rw [lastProfile, h, Option.getD_some]

theorem Reloaded.lastProfile_of_none {s : ProfileManager} (h : Reloaded s)
    (hnone : getString s.pref prefLastProfile = none) : s.lastProfile = profDefault := by
  rw [lastProfile, hnone, Option.getD_none, h.head]

theorem Reloaded.lastProfile_of_ne {s : ProfileManager} (h : Reloaded s) {n : Str} (hn : s.lastProfile = n)
    (hne : n ≠ profDefault) : getString s.pref prefLastProfile = some n := by
  cases hlast : getString s.pref prefLastProfile with
  | none => exact absurd (hn.symm.trans (h.lastProfile_of_none hlast)) hne
  | some m => rw [← hn, lastProfile_of_some hlast]

/-- Where `last_profile` stays, so does the default. -/
theorem Reloaded.lastProfile_congr {s s' : ProfileManager} (h : Reloaded s) (h' : Reloaded s')
    (hlast : getString s'.pref prefLastProfile = getString s.pref prefLastProfile) : s'.lastProfile = s.lastProfile := by
  rw [lastProfile, lastProfile, hlast, h.head, h'.head]

theorem register_lastProfile (s : ProfileManager) (name : Str) : (s.register name).lastProfile = name :=
  lastProfile_of_some (s.register_last name)

theorem unregister_lastProfile (s : ProfileManager) (name : Str) : (s.unregister name).lastProfile = profDefault :=
  Reloaded.lastProfile_of_none (s.unregister_list name) (s.unregister_last name)

/-- The default after a rename. -/
theorem Reloaded.rename_lastProfile {s : ProfileManager} (h : Reloaded s) {oldName : Str} (newName : Str)
    (hne : oldName ≠ profDefault) :
    (s.rename oldName newName).lastProfile = if s.lastProfile = oldName then newName else s.lastProfile := by
  have hlast := s.rename_last oldName newName
  by_cases hold : s.lastProfile = oldName
  · rw [if_pos (h.lastProfile_of_ne hold hne)] at hlast
    rw [if_pos hold, lastProfile_of_some hlast]
  · have hother : getString s.pref prefLastProfile ≠ some oldName := fun he => hold (lastProfile_of_some he)
    rw [if_neg hother] at hlast
    rw [if_neg hold]
    exact h.lastProfile_congr (s.rename_list oldName newName) hlast

/-- A process that has just read its preferences. -/
def opened (pref : ProfileStore) : ProfileManager := ⟨pref, storedProfiles pref, [], []⟩

theorem opened_reloaded (pref : ProfileStore) : Reloaded (opened pref) := rfl

theorem opened_reachable (pref : ProfileStore) : Reachable system (opened pref) := .start ⟨rfl, rfl, rfl⟩

/-! ## What one call does -/

/-- `s'` got the profile `name` at `s`: it was there, or it is built. -/
def Got (s : ProfileManager) (all : List (Str × PrefValue)) (name : Str) (s' : ProfileManager) : Prop :=
  s' = s ∨ (name ∈ s.mProfiles ∧ name ∉ s.cached) ∧ all.Perm s.pref.list ∧
    s'.pref = Profile.init s.pref all name ∧ s'.mProfiles = s.mProfiles

section Calls

variable {s s' : ProfileManager} {all : List (Str × PrefValue)}

/-- What `getProfile` does to the registry. -/
theorem getProfile_got {name : Str} (h : s.getProfile all name = some s') : Got s all name s' := by
  unfold getProfile at h
  split at h
  · rename_i hmem
    unfold factoryGetProfile at h
    split at h
    · exact .inl (Option.some.inj h).symm
    · rename_i hnew
      split at h
      · rename_i hall
        obtain rfl := Option.some.inj h
        exact .inr ⟨⟨hmem, hnew⟩, hall, rfl, rfl⟩
      · cases h
  · exact .inl (Option.some.inj h).symm

/-- The profile is alive afterwards. -/
theorem getProfile_cached {name : Str} (hmem : name ∈ s.mProfiles) (h : s.getProfile all name = some s') :
    name ∈ s'.cached ∧ ∀ n, n ≠ name → (n ∈ s'.cached ↔ n ∈ s.cached) := by
  unfold getProfile factoryGetProfile at h
  rw [if_pos hmem] at h
  split at h
  · rename_i hcached
    obtain rfl := Option.some.inj h
    exact ⟨hcached, fun _ _ => Iff.rfl⟩
  · split at h
    · obtain rfl := Option.some.inj h
      refine ⟨List.mem_cons_self, fun n hne => ?_⟩
      rw [List.mem_cons]
      exact ⟨fun hn => hn.resolve_left hne, .inr⟩
    · cases h

/-- What adding does. -/
theorem addProfile_cases {name : Str} (h : s.addProfile all name = some s') :
    name ∈ s.mProfiles ∧ s' = s ∨
      name ∉ s.mProfiles ∧ Got (s.register name) all (s.register name).lastProfile s' := by
  unfold addProfile at h
  split at h
  · rename_i hmem
    exact .inl ⟨hmem, (Option.some.inj h).symm⟩
  · rename_i hnew
    exact .inr ⟨hnew, getProfile_got h⟩

/-- What removing does. -/
theorem removeProfile_cases {name : Str} (h : s.removeProfile all name = some s') :
    (name = s.mProfiles.headD profDefault ∨ name ∉ s.mProfiles) ∧ s' = s ∨
      name ≠ s.mProfiles.headD profDefault ∧ name ∈ s.mProfiles ∧ ∃ t, Got s all name t ∧ s' = t.unregister name := by
  unfold removeProfile at h
  split at h
  · rename_i hguard
    exact .inl ⟨hguard, (Option.some.inj h).symm⟩
  · rename_i hguard
    rw [not_or, Decidable.not_not] at hguard
    obtain ⟨t, ht, he⟩ := Option.map_eq_some_iff.mp h
    exact .inr ⟨hguard.1, hguard.2, t, getProfile_got ht, he.symm⟩

/-- `renameProfile` does not return early. -/
def Renames (s : ProfileManager) (oldName newName : Str) : Prop :=
  oldName ≠ newName ∧ oldName ∈ s.mProfiles ∧ oldName ≠ s.mProfiles.headD profDefault ∧ newName ∉ s.mProfiles

instance (s : ProfileManager) (oldName newName : Str) : Decidable (Renames s oldName newName) := by
  unfold Renames; infer_instance

/-- What renaming does. -/
theorem renameProfile_cases {oldName newName : Str} (h : s.renameProfile all oldName newName = some s') :
    ¬ Renames s oldName newName ∧ s' = s ∨
      Renames s oldName newName ∧ ∃ t, Got s all oldName t ∧ s' = t.rename oldName newName := by
  unfold renameProfile at h
  split at h
  · rename_i hguard
    refine .inl ⟨?_, (Option.some.inj h).symm⟩
    rintro ⟨hdiffer, hold, hne, hnew⟩
    obtain he | he | he | he := hguard
    · exact hdiffer he
    · exact he hold
    · exact hne he
    · exact hnew he
  · rename_i hguard
    obtain ⟨t, ht, he⟩ := Option.map_eq_some_iff.mp h
    have hr : Renames s oldName newName := by
      simpa only [Renames, not_or, Decidable.not_not] using hguard
    exact .inr ⟨hr, t, getProfile_got ht, he.symm⟩

theorem renameProfile_renames {oldName newName : Str} (hr : Renames s oldName newName)
    (h : s.renameProfile all oldName newName = some s') :
    ∃ t, s.getProfile all oldName = some t ∧ s' = t.rename oldName newName := by
  unfold renameProfile at h
  rw [if_neg] at h
  · obtain ⟨t, ht, he⟩ := Option.map_eq_some_iff.mp h
    exact ⟨t, ht, he.symm⟩
  · obtain ⟨hdiffer, hold, hhead, hnew⟩ := hr
    simp only [not_or, Decidable.not_not]
    exact ⟨hdiffer, hold, hhead, hnew⟩

theorem setField_cases (all : List (Str × PrefValue)) {name : Str} {f : ProfileField} {v : PrefValue}
    (h : system.step s (.setField name f v, all) = some s') : s' = { s with pref := Profile.setField s.pref name f v } := by
  have h : (if name ∈ s.cached ∧ f.accepts v = true then some { s with pref := Profile.setField s.pref name f v }
    else none) = some s' := h
  split at h
  · exact (Option.some.inj h).symm
  · cases h

end Calls

theorem Got.list {s s' : ProfileManager} {all : List (Str × PrefValue)} {name : Str} (h : Got s all name s') :
    s'.mProfiles = s.mProfiles := by
  cases h with
  | inl he => rw [he]
  | inr hbuilt => exact hbuilt.2.2.2

/-- Getting a profile leaves the stored list alone. -/
theorem Got.profile {s s' : ProfileManager} {all : List (Str × PrefValue)} {name : Str} (h : Got s all name s') :
    s'.pref.get prefProfile = s.pref.get prefProfile := by
  cases h with
  | inl he => rw [he]
  | inr hbuilt =>
    obtain ⟨_, hall, hpref, _⟩ := hbuilt
    rw [hpref, Profile.init_profile hall name]

theorem Reloaded.got {s s' : ProfileManager} {all : List (Str × PrefValue)} {name : Str} (h : Reloaded s)
    (hgot : Got s all name s') : Reloaded s' :=
  h.of_pref hgot.profile hgot.list

/-- The copies in memory are those of the file. -/
theorem Reloaded.switchDefault {s : ProfileManager} (h : Reloaded s) (name : Str) : Reloaded (s.switchDefault name) := by
  unfold ProfileManager.switchDefault
  split
  · refine h.of_pref ?_ rfl
    exact Entries.get_edit_of_notMem fun hmem =>
      absurd (List.mem_singleton.mp hmem) (show prefProfile ≠ prefLastProfile by decide)
  · exact h

/-- Every call leaves memory as a reload would build it. -/
theorem Reloaded.step {s s' : ProfileManager} {a : Action × List (Str × PrefValue)} (h : Reloaded s)
    (hs : system.step s a = some s') : Reloaded s' := by
  obtain ⟨a, all⟩ := a
  cases a with
  | getProfile name => exact h.got (getProfile_got hs)
  | getDefault => exact h.got (getProfile_got hs)
  | addProfile name =>
    cases addProfile_cases hs with
    | inl hsame => exact hsame.2 ▸ h
    | inr hadd => exact Reloaded.got (s.register_list name) hadd.2
  | removeProfile name =>
    cases removeProfile_cases hs with
    | inl hsame => exact hsame.2 ▸ h
    | inr hremove =>
      obtain ⟨_, _, t, _, rfl⟩ := hremove
      exact t.unregister_list name
  | renameProfile oldName newName =>
    cases renameProfile_cases hs with
    | inl hsame => exact hsame.2 ▸ h
    | inr hrename =>
      obtain ⟨_, t, _, rfl⟩ := hrename
      exact t.rename_list oldName newName
  | switchDefault name =>
    obtain rfl := Option.some.inj hs
    exact h.switchDefault name
  | reload =>
    obtain rfl := Option.some.inj hs
    exact s.reload_list
  | setField name f v =>
    obtain rfl := setField_cases all hs
    exact h.of_pref (get_edit_registry (Profile.setField_keys name f v) List.mem_cons_self) rfl
  | collect name =>
    obtain rfl := Option.some.inj hs
    exact h

theorem reachable_reloaded {s : ProfileManager} (h : Reachable system s) : Reloaded s := by
  apply Reaches.invariant (P := Reloaded) _ _ h
  · exact fun s hinit => hinit.1
  · exact fun s a s' h _ hstep => h.step hstep

end ProfileManager

end KiloProxy.Util
