import KiloProxy.Util.Mutators

/-!
# The profile registry

The list in memory, the stored list and the stored default agree in every state of a
run whose names fit on a line each, when they agree at the start: the stored list names
nothing twice, the stored default is absent or listed, and no other key ends like
`last_profile` (a migration could move it there).
-/

namespace KiloProxy.Util
set_option autoImplicit false
open KiloProxy.Text KiloProxy.Store KiloProxy.Run

/-- What `last_profile` ends with. -/
def profileMark : Str := "_profile".toList

/-- No other key ends like `last_profile`. -/
def LoneLast (pref : ProfileStore) : Prop := ∀ k, profileMark <:+ k → k ≠ prefLastProfile → pref.get k = none

namespace Profile

theorem profileMark_lastProfile : profileMark <:+ prefLastProfile := ⟨"last".toList, by decide⟩

/-- No key of a profile ends in the mark of the list. -/
theorem key_not_mark (n : Str) (f : ProfileField) : ¬ profileMark <:+ key n f := by
  intro h
  have hall : ∀ f ∈ ProfileField.all, profileMark.isSuffixOf f.suffix = false := by decide
  have hf : f.suffix <:+ key n f := List.suffix_append _ _
  rcases Nat.le_total f.suffix.length profileMark.length with hle | hle
  · exact suffix_not_registry f ((List.suffix_of_suffix_length_le hf h hle).trans profileMark_lastProfile)
  · have hno := hall f f.mem_all
    rw [List.isSuffixOf_iff_suffix.mpr (List.suffix_of_suffix_length_le h hf hle)] at hno
    cases hno

/-- A migration moves nothing onto a key that ends like `last_profile`. -/
theorem target_not_mark {pref : ProfileStore} {name suf : Str} {v : PrefValue} (hlone : LoneLast pref)
    (hmig : Migrates pref name) (hget : pref.get (legacyPrefix name ++ suf) = some v) :
    ¬ profileMark <:+ prefPrefix name ++ suf := by
  intro h
  have hsource : profileMark <:+ legacyPrefix name ++ suf → legacyPrefix name ++ suf = prefLastProfile := by
    intro hmark
    by_contra hne
    rw [hlone _ hmark hne] at hget
    cases hget
  rcases Nat.le_total profileMark.length suf.length with hle | hle
  · -- the mark lies in what is kept, so the old key is `last_profile` itself
    have hsuf : profileMark <:+ suf := List.suffix_of_suffix_length_le h (List.suffix_append _ _) hle
    have hlast := hsource (hsuf.trans (List.suffix_append _ _))
    obtain ⟨x, rfl⟩ := hsuf
    have hx : legacyPrefix name ++ x = "last".toList := by
      rw [← List.append_assoc, show prefLastProfile = "last".toList ++ profileMark by decide] at hlast
      exact List.append_cancel_right hlast
    apply legacyPrefix_not_letters hmig
    intro c hc
    have hall : "last".toList.all isLowerAscii = true := by decide
    exact List.all_eq_true.mp hall c (hx ▸ List.mem_append_left _ hc)
  · -- the new prefix ends in the first part of the mark, and so does the name
    obtain ⟨q, hq⟩ := List.suffix_of_suffix_length_le (List.suffix_append _ _) h hle
    rw [← hq] at h
    obtain ⟨w, hw⟩ := h
    have hpre : prefPrefix name = w ++ q := by
      rw [← List.append_assoc] at hw
      exact (List.append_cancel_right hw).symm
    have hplain : ∀ c ∈ q, isPlain c = true := by
      have hall : profileMark.all isPlain = true := by decide
      exact fun c hc => List.all_eq_true.mp hall c (hq ▸ List.mem_append_left _ hc)
    obtain ⟨t, rfl, _⟩ := urlEncode_suffix hplain hpre
    cases q with
    | nil =>
      rw [List.nil_append] at hq
      have hlast := hsource (by rw [hq]; exact List.suffix_append _ _)
      rw [hq, show prefLastProfile = "last".toList ++ profileMark by decide] at hlast
      apply legacyPrefix_not_letters hmig
      intro c hc
      have hall : "last".toList.all isLowerAscii = true := by decide
      exact List.all_eq_true.mp hall c (List.append_cancel_right hlast ▸ hc)
    | cons c q =>
      -- the old prefix doubles the underscore
      have hc : c = '_' ∧ q ++ suf = "profile".toList := by
        have hcons : c :: (q ++ suf) = '_' :: "profile".toList := hq
        exact ⟨(List.cons.inj hcons).1, (List.cons.inj hcons).2⟩
      obtain ⟨rfl, hrest⟩ := hc
      have hlow : ∀ c ∈ q, isLowerAscii c = true := by
        have hall : "profile".toList.all isLowerAscii = true := by decide
        exact fun c hc => List.all_eq_true.mp hall c (hrest ▸ List.mem_append_left _ hc)
      have hold : legacyPrefix (t ++ '_' :: q) ++ suf = legacyPrefix t ++ ['_'] ++ profileMark := by
        have hcons : legacyPrefix ('_' :: q) = '_' :: '_' :: q := by
          rw [legacyPrefix_eq, List.flatMap_cons, ← legacyPrefix_eq, legacyPrefix_letters hlow]
          rfl
        rw [legacyPrefix_append, hcons, ← hq]
        simp only [List.append_assoc, List.cons_append, List.nil_append]
      have hlast := hsource (by rw [hold]; exact List.suffix_append _ _)
      rw [hold, show prefLastProfile = "last".toList ++ profileMark by decide] at hlast
      have hend := congrArg List.getLast? (List.append_cancel_right hlast)
      rw [List.getLast?_append, List.getLast?_singleton, Option.some_or] at hend
      exact absurd hend (by decide)

/-- What a construction does to keys that end like `last_profile`. -/
theorem init_mark {pref : ProfileStore} {all : List (Str × PrefValue)} (hall : all.Perm pref.list) (name : Str)
    (hlone : LoneLast pref) {k : Str} (hk : profileMark <:+ k) :
    (init pref all name).get k = pref.get k ∨ (init pref all name).get k = none := by
  rw [init_eq]
  split
  · rename_i hmig
    have ht : ∀ m ∈ all.filterMap (legacyMove name), m.target ≠ k := by
      intro m hm he
      obtain ⟨suf, _, ht, hget⟩ := (mem_moves hall).mp hm
      rw [← he, ht] at hk
      exact target_not_mark hlone hmig hget hk
    rw [Entries.get_edit]
    by_cases hs : ∃ m ∈ all.filterMap (legacyMove name), m.source = k
    · exact .inr (putAll_move_source ht (.inr hs))
    · exact .inl (putAll_move_other (fun m hm he => hs ⟨m, hm, he⟩) ht _)
  · exact .inl rfl

theorem init_lone {pref : ProfileStore} {all : List (Str × PrefValue)} (hall : all.Perm pref.list) {name : Str}
    (hlone : LoneLast pref) : LoneLast (init pref all name) := by
  intro k hk hne
  rcases init_mark hall name hlone hk with h | h
  · rw [h]
    exact hlone k hk hne
  · exact h

end Profile

/-- A batch over keys of profiles and of the registry brings up no such key. -/
theorem LoneLast.edit {pref : ProfileStore} (h : LoneLast pref) {puts : Puts Str PrefValue}
    (hputs : ∀ p ∈ puts, (∃ n f, p.1 = Profile.key n f) ∨ p.1 ∈ [prefProfile, prefLastProfile]) :
    LoneLast (pref.edit puts) := by
  intro k hk hne
  rw [Entries.get_edit_of_notMem, h k hk hne]
  intro hmem
  obtain ⟨p, hp, rfl⟩ := List.mem_map.mp hmem
  rcases hputs p hp with ⟨n, f, he⟩ | hreg
  · rw [he] at hk
    exact Profile.key_not_mark n f hk
  · rcases List.mem_cons.mp hreg with he | hlast
    · rw [he] at hk
      exact absurd (List.isSuffixOf_iff_suffix.mpr hk) (by decide)
    · exact hne (List.mem_singleton.mp hlast)

/-! ## The invariant -/

/-- What the preferences hold of the registry is in order. -/
structure SoundStore (pref : ProfileStore) : Prop where
  nodup : (ProfileManager.storedProfiles pref).Nodup
  last : ∀ n, ProfileManager.getString pref prefLastProfile = some n → n ∈ ProfileManager.storedProfiles pref
  lone : LoneLast pref

namespace SoundStore

variable {pref pref' : ProfileStore}

/-- Preferences whose registry keys stay as they are, the default possibly gone. -/
theorem of_keys (h : SoundStore pref) (profile : pref'.get prefProfile = pref.get prefProfile)
    (last : pref'.get prefLastProfile = pref.get prefLastProfile ∨ pref'.get prefLastProfile = none)
    (lone : LoneLast pref') : SoundStore pref' := by
  have hlist := ProfileManager.storedProfiles_congr profile
  constructor
  · rw [hlist]
    exact h.nodup
  · intro n hn
    rw [hlist]
    cases last with
    | inl hsame => exact h.last n (ProfileManager.getString_congr hsame ▸ hn)
    | inr hnone =>
      rw [ProfileManager.getString, hnone] at hn
      cases hn
  · exact lone

theorem init (h : SoundStore pref) {all : List (Str × PrefValue)} (hall : all.Perm pref.list) (name : Str) :
    SoundStore (Profile.init pref all name) :=
  h.of_keys (Profile.init_profile hall name) (Profile.init_mark hall name h.lone Profile.profileMark_lastProfile)
    (Profile.init_lone hall h.lone)

end SoundStore

/-- Writing fields of profiles. -/
theorem SoundStore.edit_profile {pref : ProfileStore} (h : SoundStore pref) {puts : Puts Str PrefValue}
    (hputs : ∀ p ∈ puts, ∃ n f, p.1 = Profile.key n f) : SoundStore (pref.edit puts) := by
  apply h.of_keys
  · exact get_edit_registry hputs (by simp)
  · exact .inl (get_edit_registry hputs (by simp))
  · exact h.lone.edit fun p hp => .inl (hputs p hp)

namespace ProfileManager

/-- Memory and preferences agree. -/
structure Sound (s : ProfileManager) : Prop where
  store : SoundStore s.pref
  reloaded : Reloaded s

namespace Sound

variable {s s' : ProfileManager}

/-- The name `getDefault` asks for is registered. -/
theorem lastProfile_mem (h : Sound s) : s.lastProfile ∈ s.mProfiles := by
  obtain ⟨names, hlist, _⟩ := h.reloaded.list
  unfold lastProfile
  cases hlast : getString s.pref prefLastProfile with
  | none =>
    rw [hlist]
    exact List.mem_cons_self
  | some n =>
    rw [h.reloaded]
    exact h.store.last n hlast

/-- The list and the default after a mutator ran. -/
theorem of_list (h : Reloaded s') (nodup : s'.mProfiles.Nodup)
    (last : ∀ n, getString s'.pref prefLastProfile = some n → n ∈ s'.mProfiles) (lone : LoneLast s'.pref) :
    Sound s' := by
  have hlist : s'.mProfiles = storedProfiles s'.pref := h
  rw [hlist] at nodup last
  exact ⟨⟨nodup, last, lone⟩, h⟩

theorem got (h : Sound s) {all : List (Str × PrefValue)} {name : Str} (hgot : Got s all name s') : Sound s' := by
  refine ⟨?_, h.reloaded.got hgot⟩
  cases hgot with
  | inl he => exact he ▸ h.store
  | inr hbuilt =>
    obtain ⟨_, hall, hpref, _⟩ := hbuilt
    rw [hpref]
    exact h.store.init hall name

theorem nodup (h : Sound s) : s.mProfiles.Nodup := by
  rw [h.reloaded]
  exact h.store.nodup

/-- Adding keeps the registry sound. -/
theorem register (h : Sound s) {name : Str} (hname : Listable name) (hnew : name ∉ s.mProfiles) :
    Sound (s.register name) := by
  have hlist := h.reloaded.register_names hname hnew
  apply of_list (s.register_list name)
  · rw [hlist, List.nodup_append]
    refine ⟨h.nodup, List.nodup_singleton name, fun a ha b hb he => hnew ?_⟩
    rw [← List.mem_singleton.mp hb, ← he]
    exact ha
  · intro n hn
    rw [s.register_last name] at hn
    rw [hlist, ← Option.some.inj hn]
    exact List.mem_append_right _ List.mem_cons_self
  · apply h.store.lone.edit
    intro p hp
    refine .inr ?_
    cases List.mem_cons.mp hp with
    | inl he => simp [he]
    | inr hp => simp [List.mem_singleton.mp hp]

/-- Removing keeps the registry sound. -/
theorem unregister (h : Sound s) {name : Str} (hne : name ≠ profDefault) : Sound (s.unregister name) := by
  apply of_list (s.unregister_list name)
  · rw [h.reloaded.unregister_names hne]
    exact h.nodup.erase name
  · intro n hn
    rw [s.unregister_last name] at hn
    cases hn
  · have hlone : LoneLast (Profile.delete s.pref name) :=
      (h.store.edit_profile (Profile.delete_keys name)).lone
    apply hlone.edit
    intro p hp
    refine .inr ?_
    cases List.mem_cons.mp hp with
    | inl he => simp [he]
    | inr hp => simp [List.mem_singleton.mp hp]

/-- Renaming keeps the registry sound. -/
theorem rename (h : Sound s) {oldName newName : Str} (hold : oldName ∈ s.mProfiles) (hne : oldName ≠ profDefault)
    (hname : Listable newName) (hnew : newName ∉ s.mProfiles) : Sound (s.rename oldName newName) := by
  have hlist := h.reloaded.rename_names hne hname hnew
  apply of_list (s.rename_list oldName newName)
  · rw [hlist]
    exact h.nodup.set hnew
  · intro n hn
    rw [s.rename_last oldName newName] at hn
    rw [hlist]
    split at hn
    · rw [← Option.some.inj hn]
      exact List.mem_set (List.idxOf_lt_length_of_mem hold) newName
    · rename_i hother
      -- another default keeps its place
      apply mem_set_of_ne
      · rw [h.reloaded]
        exact h.store.last n hn
      · intro he
        exact hother (he ▸ hn)
  · have hlone : LoneLast (Profile.delete (Profile.copyTo s.pref oldName newName) oldName) :=
      ((h.store.edit_profile (Profile.copyTo_keys _ _ _)).edit_profile (Profile.delete_keys oldName)).lone
    apply hlone.edit
    intro p hp
    refine .inr ?_
    cases List.mem_cons.mp hp with
    | inl he => simp [he]
    | inr hp =>
      split at hp
      · simp [List.mem_singleton.mp hp]
      · cases hp

/-- Switching the default keeps the registry sound. -/
theorem switchDefault (h : Sound s) (name : Str) : Sound (s.switchDefault name) := by
  have hre := h.reloaded.switchDefault name
  unfold ProfileManager.switchDefault at hre ⊢
  split
  · rename_i hname
    rw [if_pos hname] at hre
    apply of_list hre h.nodup
    · intro n hn
      rw [getString_put] at hn
      rw [← Option.some.inj hn]
      exact hname
    · apply h.store.lone.edit
      intro p hp
      rw [List.mem_singleton.mp hp]
      exact .inr (List.mem_cons_of_mem _ List.mem_cons_self)
  · exact h

end Sound

/-- Names that are added or renamed to fit on a line. -/
def NamesListable (_ : ProfileManager) (a : Action × List (Str × PrefValue)) : Prop :=
  match a.1 with
  | .addProfile name => Listable name
  | .renameProfile _ newName => Listable newName
  | _ => True

instance (s : ProfileManager) (a : Action × List (Str × PrefValue)) : Decidable (NamesListable s a) :=
  match a with
  | (.addProfile name, _) => inferInstanceAs (Decidable (Listable name))
  | (.renameProfile _ newName, _) => inferInstanceAs (Decidable (Listable newName))
  | (.getProfile _, _) | (.getDefault, _) | (.removeProfile _, _) | (.switchDefault _, _) | (.reload, _)
  | (.setField _ _ _, _) | (.collect _, _) => instDecidableTrue

/-- Every step keeps the registry sound. -/
theorem Sound.step {s s' : ProfileManager} {a : Action × List (Str × PrefValue)} (h : Sound s)
    (hname : NamesListable s a) (hs : system.step s a = some s') : Sound s' := by
  have hre := h.reloaded.step hs
  have hhead := h.reloaded.head
  obtain ⟨a, all⟩ := a
  cases a with
  | getProfile name => exact h.got (getProfile_got hs)
  | getDefault => exact h.got (getProfile_got hs)
  | addProfile name =>
    cases addProfile_cases hs with
    | inl hsame => exact hsame.2 ▸ h
    | inr hadd => exact (h.register hname hadd.1).got hadd.2
  | removeProfile name =>
    cases removeProfile_cases hs with
    | inl hsame => exact hsame.2 ▸ h
    | inr hremove =>
      obtain ⟨hne, _, t, ht, rfl⟩ := hremove
      exact (h.got ht).unregister (hhead ▸ hne)
  | renameProfile oldName newName =>
    cases renameProfile_cases hs with
    | inl hsame => exact hsame.2 ▸ h
    | inr hrename =>
      obtain ⟨⟨_, hold, hne, hnew⟩, t, ht, rfl⟩ := hrename
      rw [← ht.list] at hold hnew
      exact (h.got ht).rename hold (hhead ▸ hne) hname hnew
  | switchDefault name =>
    obtain rfl := Option.some.inj hs
    exact h.switchDefault name
  | reload =>
    obtain rfl := Option.some.inj hs
    exact ⟨h.store, hre⟩
  | setField name f v =>
    obtain rfl := setField_cases all hs
    exact ⟨h.store.edit_profile (Profile.setField_keys name f v), hre⟩
  | collect name =>
    obtain rfl := Option.some.inj hs
    exact ⟨h.store, hre⟩

/-! ## The registry over whole runs -/

/-- What callers rely on: the placeholder first, no name twice, memory as a reload would
build it, and the default listed, also between the two halves of `addProfile`. -/
structure Intact (s : ProfileManager) : Prop where
  placeholder : s.mProfiles.head? = some profDefault
  nodup : s.mProfiles.Nodup
  reloaded : s.reload.mProfiles = s.mProfiles
  last : ∀ n, getString s.pref prefLastProfile = some n → n ∈ s.mProfiles
  default : s.lastProfile ∈ s.mProfiles
  added : ∀ name, Listable name → name ∉ s.mProfiles → (s.register name).lastProfile ∈ (s.register name).mProfiles

/-- A sound registry is intact. -/
theorem Sound.intact {s : ProfileManager} (h : Sound s) : Intact s where
  placeholder := by
    obtain ⟨names, hlist, _⟩ := h.reloaded.list
    rw [hlist, List.head?_cons]
  nodup := h.nodup
  reloaded := h.reloaded.symm
  last n hn := by
    rw [h.reloaded]
    exact h.store.last n hn
  default := h.lastProfile_mem
  added name hname hnew := (h.register hname hnew).lastProfile_mem

/-- **The registry stays intact** in every run over names that fit on a line, from
preferences whose registry is in order. -/
theorem registry_intact {s₀ s : ProfileManager} (hinit : system.init s₀) (hstore : SoundStore s₀.pref)
    (hrun : Leads system NamesListable s₀ s) : Intact s := by
  have hsound : Sound s := hrun.invariant ⟨hstore, hinit.1⟩ fun _ _ _ h hname hs => h.step hname hs
  exact hsound.intact

/-- Add `Work`, rename it, get it under its new name. -/
def workThenHome : List (Action × List (Str × PrefValue)) :=
  [(.addProfile "Work".toList,
     [(prefProfile, .string "Work".toList), (prefLastProfile, .string "Work".toList)]),
   (.renameProfile "Work".toList "Home".toList, []),
   (.getProfile "Home".toList,
     [(prefProfile, .string "Home".toList), (prefLastProfile, .string "Home".toList)])]

theorem registry_intact_home :
    ∃ s, Leads system NamesListable fresh s ∧ s.mProfiles = [profDefault, "Home".toList] ∧ Intact s := by
  have hinit : system.init fresh := ⟨by decide +kernel, rfl, rfl⟩
  have hstore : SoundStore fresh.pref := by
    refine ⟨by decide +kernel, ?_, fun _ _ _ => rfl⟩
    intro n hn
    cases hn
  have hrun : ((execWhere system NamesListable fresh workThenHome).map fun s => s.mProfiles) =
      some [profDefault, "Home".toList] := by
    decide +kernel
  obtain ⟨s, hexec, hlist⟩ := Option.map_eq_some_iff.mp hrun
  have hleads := execWhere_leads _ .here hexec
  exact ⟨s, hleads, hlist, registry_intact hinit hstore hleads⟩

/-- Names as they are entered: trimmed, not blank, on one line. -/
def NamesEntered (_ : ProfileManager) (a : Action × List (Str × PrefValue)) : Prop :=
  match a.1 with
  | .addProfile name => trim name = name ∧ name ≠ [] ∧ '\n' ∉ name
  | .renameProfile _ newName => trim newName = newName ∧ newName ≠ [] ∧ '\n' ∉ newName
  | _ => True

/-- A name listed twice. -/
def twice : ProfileStore := ⟨[(prefProfile, .string "a\na".toList)], by decide +kernel⟩

/-- A default that is not listed. -/
def astray : ProfileStore := ⟨[(prefLastProfile, .string "a".toList)], by decide +kernel⟩

/-- Old keys of a profile `last_`, one of which ends like `last_profile`. -/
def underscored : ProfileStore :=
  ⟨[("last__server".toList, .string "a".toList), ("last__profile".toList, .string "a".toList)], by decide +kernel⟩

/-- A registry that opens on the store is not intact, or does not stay so. -/
def Spoils (pref : ProfileStore) : Prop :=
  system.init (opened pref) ∧ ∃ s, Leads system NamesEntered (opened pref) s ∧ ¬ Intact s

/-- Each of the three spoils the registry: at once, or when `last_` is added. -/
theorem registry_not_intact : Spoils twice ∧ Spoils astray ∧ Spoils underscored := by
  refine ⟨⟨⟨rfl, rfl, rfl⟩, ?_⟩, ⟨⟨rfl, rfl, rfl⟩, ?_⟩, ⟨rfl, rfl, rfl⟩, ?_⟩
  · have hdup : ¬ (opened twice).mProfiles.Nodup := by decide +kernel
    exact ⟨opened twice, .here, fun h => hdup h.nodup⟩
  · have hout : (opened astray).lastProfile ∉ (opened astray).mProfiles := by decide +kernel
    exact ⟨opened astray, .here, fun h => hout h.default⟩
  · have hrun : ((system.step (opened underscored) (.addProfile "last_".toList,
        underscored.list ++
          [(prefProfile, .string "last_".toList), (prefLastProfile, .string "last_".toList)])).any
          fun s => decide (s.lastProfile ∉ s.mProfiles)) = true := by
      decide +kernel
    obtain ⟨s, hstep, hout⟩ := (Option.any_eq_true _ _).mp hrun
    have hentered : NamesEntered (opened underscored) (.addProfile "last_".toList,
        underscored.list ++
          [(prefProfile, .string "last_".toList), (prefLastProfile, .string "last_".toList)]) :=
      ⟨by decide +kernel, by decide, by decide⟩
    exact ⟨s, .next .here hentered hstep, fun h => of_decide_eq_true hout h.default⟩

end ProfileManager

end KiloProxy.Util
