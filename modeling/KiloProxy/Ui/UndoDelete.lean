import KiloProxy.Ui.ProfileCopies

/-!
# Swiping a profile away and taking it back

The snapshot holds the name and four fields. Undo adds the name again, which puts it at
the end of the list and makes it the default, and writes the four fields and that there
is a password; what `delete` removed besides stays removed.
-/

namespace KiloProxy.Ui
set_option autoImplicit false
open KiloProxy.Text KiloProxy.Store KiloProxy.Run KiloProxy.Util
open KiloProxy.Util.Profile KiloProxy.Util.ProfileManager

/-- Field snapshot for Undo. -/
structure DeletedProfile where
  name : Str
  server : PrefValue
  port : PrefValue
  username : PrefValue
  password : PrefValue

/-- `swipeDelete` up to the snackbar; there is no snapshot when it returns early. -/
def swipeDelete (pm : ProfileManager) (all : List (Str × PrefValue)) (name : Str) :
    Option (ProfileManager × Option DeletedProfile) :=
  if name ∉ pm.mProfiles then some (pm, none)
  else
    (pm.getProfile all name).bind fun p =>
      let backup : DeletedProfile :=
        ⟨name, getField p.pref name .server, getField p.pref name .port, getField p.pref name .username,
          getField p.pref name .password⟩
      (p.removeProfile all name).map fun removed => (removed.reload, some backup)

/-- The setters that Undo calls on the profile it got. -/
def DeletedProfile.restore (backup : DeletedProfile) (pref : ProfileStore) (it : Str) : ProfileStore :=
  let pref := setField pref it .server backup.server
  let pref := setField pref it .port backup.port
  let pref := setField pref it .userpw (.bool true)
  let pref := setField pref it .username backup.username
  setField pref it .password backup.password

/-- The Undo action. -/
def undoDelete (pm : ProfileManager) (all : List (Str × PrefValue)) (backup : DeletedProfile) : Option ProfileManager :=
  (pm.addProfile all backup.name).map fun added =>
    match pm.addProfileResult backup.name with
    | .ok (some it) => { added with pref := backup.restore added.pref it }.reload
    | .ok none => added.reload
    | .error () => added

/-- A swipe and its Undo. Of the profiles that are alive in between those in `kept` stay so. -/
def swipeThenUndo (pm : ProfileManager) (all allUndo : List (Str × PrefValue)) (kept : List Str) (name : Str) :
    Option ProfileManager :=
  (swipeDelete pm all name).bind fun swiped =>
    match swiped.2 with
    | none => some swiped.1
    | some backup => undoDelete { swiped.1 with cached := swiped.1.cached.filter fun n => n ∈ kept } allUndo backup

/-- Everything is as before: the getters of the profile, once it is there, the list, the
default, and what the getters of every other profile may return, which is built if it is not
alive. -/
structure Restored (pm : ProfileManager) (all : List (Str × PrefValue)) (name : Str) (pm' : ProfileManager) : Prop where
  own : ∀ f, getField pm'.pref name f = getField (pm.held all name) name f
  profiles : pm'.mProfiles = pm.mProfiles
  default : pm'.lastProfile = pm.lastProfile
  others : ∀ n ∈ pm.mProfiles, n ≠ name → ∀ f,
    readings pm'.pref (n ∈ pm'.cached) n f = readings pm.pref (n ∈ pm.cached) n f

/-! ## When Undo restores -/

section Conditions

variable (pref : ProfileStore) (name : Str)

/-- What Undo writes for a field. -/
def backedUp (f : ProfileField) : Option PrefValue :=
  match f with
  | .server | .port | .username | .password => some (getField pref name f)
  | .userpw => some (.bool true)
  | _ => none

/-- The profile has to be built again, and finds an old layout. -/
def BuiltAgain (kept : List Str) : Prop := name ∉ kept ∧ Migrates pref name

instance (kept : List Str) : Decidable (BuiltAgain pref name kept) := by unfold BuiltAgain; infer_instance

/-- What stands under a key when Undo comes to write: the profile's own keys are gone, and
old keys have moved, if any. -/
def standing (kept : List Str) (allUndo : List (Str × PrefValue)) (k : Str) : Option PrefValue :=
  let left := if k ∈ keysOf name then none else pref.get k
  if BuiltAgain pref name kept then (lastWrite (movesOf allUndo name) k).getD left else left

/-- What stands there after it. -/
def restored (kept : List Str) (allUndo : List (Str × PrefValue)) (k : Str) : Option PrefValue :=
  match ProfileField.all.find? fun g => key name g = k with
  | some g => (backedUp pref name g).or (standing pref name kept allUndo k)
  | none => standing pref name kept allUndo k

/-- The default then: the profile itself, unless `last_profile` was moved. -/
def standingLast (kept : List Str) (allUndo : List (Str × PrefValue)) : Str :=
  if BuiltAgain pref name kept then
    defaultOf ((lastWrite (movesOf allUndo name) prefLastProfile).getD (some (.string name)))
  else name

end Conditions

/-- The profile is the last one and the default, and has a password set; what Undo does not
write reads as before; and no getter of another profile notices, be it alive or built anew. -/
structure UndoClean (pm : ProfileManager) (pref : ProfileStore) (kept : List Str) (allUndo : List (Str × PrefValue))
    (name : Str) : Prop where
  last : ∃ front, pm.mProfiles = front ++ [name] ∧ name ∉ front
  default : standingLast pref name kept allUndo = pm.lastProfile
  userpw : getField pref name .userpw = .bool true
  plain : ∀ f, backedUp pref name f = none →
    (standing pref name kept allUndo (key name f)).getD f.default = getField pref name f
  others : ∀ n ∈ pm.mProfiles, n ≠ name → ∀ f,
    SameValues (mayRead (restored pref name kept allUndo) (decide (n ∈ kept ∧ n ∈ pm.cached)) n f)
      (mayRead pm.pref.get (n ∈ pm.cached) n f)

/-! ## What the setters leave -/

theorem setField_get (pref : ProfileStore) (name : Str) (f : ProfileField) (v : PrefValue) (k : Str) :
    (setField pref name f v).get k = if k = key name f then some v else pref.get k := by
  rw [setField, Entries.get_edit, putAll_cons, putAll_nil, Function.update_apply]

/-- The snapshot of a store. -/
def snapshot (pref : ProfileStore) (name : Str) : DeletedProfile :=
  ⟨name, getField pref name .server, getField pref name .port, getField pref name .username, getField pref name .password⟩

theorem restore_key (pref before : ProfileStore) (name : Str) (f : ProfileField) :
    ((snapshot before name).restore pref name).get (key name f) =
      (backedUp before name f).or (pref.get (key name f)) := by
  have hkey : ∀ f g, key name f = key name g ↔ f = g := fun f g => ⟨key_injective, fun h => by rw [h]⟩
  unfold DeletedProfile.restore snapshot
  simp only [setField_get, hkey]
  cases f with
  | server | port | userpw | username | password => rfl
  | route | dns | dnsPort | perapp | appbypass | applist | ipv6 | udp | udpgw | auto => rfl

theorem restore_other {pref : ProfileStore} {backup : DeletedProfile} {name k : Str} (hk : k ∉ keysOf name) :
    (backup.restore pref name).get k = pref.get k := by
  have hne : ∀ f, k ≠ key name f := fun f he => hk (mem_keysOf.mpr ⟨f, he⟩)
  unfold DeletedProfile.restore
  simp only [setField_get, if_neg (hne _)]

theorem registry_not_keysOf {name k : Str} (hk : k ∈ [prefProfile, prefLastProfile]) : k ∉ keysOf name := by
  intro h
  obtain ⟨g, rfl⟩ := mem_keysOf.mp h
  exact key_not_registry name g hk

/-! ## The swipe -/

section Swipe

variable {pm t : ProfileManager} {all allUndo : List (Str × PrefValue)} {name : Str} {kept : List Str}

/-- What is left when the row is gone. -/
def swiped (t : ProfileManager) (kept : List Str) (name : Str) : ProfileManager :=
  { (t.unregister name).reload with cached := t.cached.filter fun n => n ∈ kept }

/-- A swipe takes the profile off the list and keeps a snapshot. -/
theorem swipeDelete_eq (ht : pm.getProfile all name = some t) (hname : name ∈ pm.mProfiles)
    (hhead : name ≠ pm.mProfiles.headD profDefault) :
    swipeDelete pm all name = some ((t.unregister name).reload, some (snapshot t.pref name)) := by
  have hlist := (getProfile_got ht).list
  have hlive := (getProfile_cached hname ht).1
  have hagain : t.getProfile all name = some t := by
    rw [getProfile, hlist, if_pos hname, factoryGetProfile, if_pos hlive]
  have hguard : ¬ (name = t.mProfiles.headD profDefault ∨ name ∉ t.mProfiles) := by
    rw [hlist, not_or, Decidable.not_not]
    exact ⟨hhead, hname⟩
  unfold swipeDelete
  rw [if_neg (not_not_intro hname), ht, Option.bind_some, removeProfile, if_neg hguard, hagain]
  rfl

theorem swipeThenUndo_eq (ht : pm.getProfile all name = some t) (hname : name ∈ pm.mProfiles)
    (hhead : name ≠ pm.mProfiles.headD profDefault) :
    swipeThenUndo pm all allUndo kept name = undoDelete (swiped t kept name) allUndo (snapshot t.pref name) := by
  have hcached : (t.unregister name).reload.cached = t.cached := by rw [unregister, reload, reload]
  unfold swipeThenUndo
  rw [swipeDelete_eq ht hname hhead, Option.bind_some, swiped, ← hcached]

theorem swiped_get {k : Str} (hk : k ∉ [prefProfile, prefLastProfile]) :
    (swiped t kept name).pref.get k = if k ∈ keysOf name then none else t.pref.get k := by
  show (t.unregister name).pref.get k = _
  rw [unregister_pref, registryPuts_other (fun p hp => by rw [List.mem_singleton.mp hp]) hk, ← delete_eq, delete_get]

theorem swiped_reloaded : Reloaded (swiped t kept name) := rfl

theorem swiped_list (hre : Reloaded t) (hne : name ≠ profDefault) :
    (swiped t kept name).mProfiles = t.mProfiles.erase name := hre.unregister_names hne

/-- The old layout is as it was. -/
theorem swiped_migrates : Migrates (swiped t kept name).pref name ↔ Migrates t.pref name := by
  by_cases hne : legacyPrefix name = prefPrefix name
  · exact ⟨fun h => absurd hne h.1, fun h => absurd hne h.1⟩
  · have hold : legacyPrefix name ++ ProfileField.server.suffix ∉ keysOf name := fun h => by
      obtain ⟨g, hg⟩ := mem_keysOf.mp h
      exact old_ne_key hne .server g hg
    unfold Migrates Entries.contains
    rw [show "server".toList = ProfileField.server.suffix from rfl, swiped_get (old_not_registry name .server),
      if_neg hold]

theorem swiped_builtAgain (hlive : name ∈ t.cached) :
    name ∉ (swiped t kept name).cached ∧ Migrates (swiped t kept name).pref name ↔ BuiltAgain t.pref name kept := by
  have hcached : name ∈ (swiped t kept name).cached ↔ name ∈ kept := by
    show name ∈ t.cached.filter _ ↔ _
    rw [List.mem_filter, decide_eq_true_iff]
    exact ⟨fun h => h.2, fun h => ⟨hlive, h⟩⟩
  rw [hcached, swiped_migrates, BuiltAgain]

end Swipe

/-! ## Undo -/

/-- The keys of the profile after Undo: the snapshot over what stands there. -/
theorem restored_key (pref : ProfileStore) (name : Str) (kept : List Str) (allUndo : List (Str × PrefValue))
    (f : ProfileField) : restored pref name kept allUndo (key name f) =
      (backedUp pref name f).or (standing pref name kept allUndo (key name f)) := by
  have hkey : (fun g => decide (key name g = key name f)) = fun g => decide (g = f) := by
    funext g
    exact decide_eq_decide.mpr ⟨key_injective, fun h => by rw [h]⟩
  have hfind : ∀ f : ProfileField, ProfileField.all.find? (fun g => decide (g = f)) = some f := by
    intro f
    cases f <;> rfl
  unfold restored
  rw [hkey, hfind]

/-- Any other key is as the migration left it. -/
theorem restored_other {pref : ProfileStore} {name k : Str} (kept : List Str) (allUndo : List (Str × PrefValue))
    (hk : k ∉ keysOf name) : restored pref name kept allUndo k = standing pref name kept allUndo k := by
  have hfind : ProfileField.all.find? (fun g => decide (key name g = k)) = none := by
    rw [List.find?_eq_none]
    intro g _ he
    exact hk (mem_keysOf.mpr ⟨g, (of_decide_eq_true he).symm⟩)
  unfold restored
  rw [hfind]

/-- What the registry, the keys of profiles and the cache hold after Undo. -/
structure Undone (t pm' : ProfileManager) (kept : List Str) (allUndo : List (Str × PrefValue)) (name : Str) : Prop where
  list : pm'.mProfiles = t.mProfiles.erase name ++ [name]
  default : pm'.lastProfile = standingLast t.pref name kept allUndo
  values : ∀ k ∉ [prefProfile, prefLastProfile], pm'.pref.get k = restored t.pref name kept allUndo k
  alive : ∀ n, n ≠ name → (n ∈ pm'.cached ↔ n ∈ kept ∧ n ∈ t.cached)

section Undo

variable {t pm' : ProfileManager} {allUndo : List (Str × PrefValue)} {name : Str} {kept : List Str}

/-- Undo lists the profile again, last, and writes the snapshot over the new one. -/
theorem undone (hre : Reloaded t) (hname : Listable name) (hne : name ≠ profDefault) (hlive : name ∈ t.cached)
    (hgone : name ∉ t.mProfiles.erase name)
    (hrun : undoDelete (swiped t kept name) allUndo (snapshot t.pref name) = some pm') :
    Undone t pm' kept allUndo name := by
  have hlist : (swiped t kept name).mProfiles = t.mProfiles.erase name := swiped_list hre hne
  have hnew : name ∉ (swiped t kept name).mProfiles := hlist ▸ hgone
  have hregister : ((swiped t kept name).register name).mProfiles = t.mProfiles.erase name ++ [name] := by
    rw [swiped_reloaded.register_names hname hnew, hlist]
  have hlisted : name ∈ ((swiped t kept name).register name).mProfiles := by
    rw [hregister]
    exact List.mem_append_right _ List.mem_cons_self
  obtain ⟨added, hadded, he⟩ := Option.map_eq_some_iff.mp hrun
  have hadded : (swiped t kept name).addProfile allUndo name = some added := hadded
  have hresult : (swiped t kept name).addProfileResult (snapshot t.pref name).name = .ok (some name) :=
    (addProfileResult_listed hnew).mpr hlisted
  rw [hresult] at he
  obtain rfl : ({ added with pref := (snapshot t.pref name).restore added.pref name } : ProfileManager).reload = pm' := he
  have hget := added_get hnew hadded hlisted
  simp only [swiped_builtAgain hlive] at hget
  -- the setters write none of the registry's keys
  have hadd := (addProfile_cases hadded).resolve_left fun h => hnew h.1
  have hregistry : ∀ k ∈ [prefProfile, prefLastProfile],
      ((snapshot t.pref name).restore added.pref name).get k = added.pref.get k :=
    fun k hk => restore_other (registry_not_keysOf hk)
  have hreAdded : Reloaded added := Reloaded.got ((swiped t kept name).register_list name) hadd.2
  have hstanding : ∀ k ∉ [prefProfile, prefLastProfile], added.pref.get k = standing t.pref name kept allUndo k := by
    intro k hk
    rw [hget, register_other _ _ hk, swiped_get hk, standing]
  have hbuilt : ((swiped t kept name).register name).getProfile allUndo name = some added := by
    have hdefault := hadded
    unfold addProfile getDefault at hdefault
    rwa [if_neg hnew, register_lastProfile] at hdefault
  constructor
  · show storedProfiles ((snapshot t.pref name).restore added.pref name) = _
    rw [storedProfiles_congr (hregistry prefProfile (by simp)), ← hreAdded, hadd.2.list, hregister]
  · rw [Reloaded.lastProfile_eq (reload_list _)]
    show defaultOf (((snapshot t.pref name).restore added.pref name).get prefLastProfile) = _
    rw [hregistry prefLastProfile (by simp), hget, standingLast]
    have hlast : ((swiped t kept name).register name).pref.get prefLastProfile = some (.string name) := by
      rw [register_pref, Entries.get_edit_apply]
      rfl
    rw [hlast]
    split
    · rfl
    · rfl
  · intro k hk
    show ((snapshot t.pref name).restore added.pref name).get k = _
    by_cases hown : k ∈ keysOf name
    · obtain ⟨f, rfl⟩ := mem_keysOf.mp hown
      rw [restore_key, hstanding _ hk, restored_key]
    · rw [restore_other hown, hstanding k hk, restored_other kept allUndo hown]
  · intro n hother
    show n ∈ added.cached ↔ _
    rw [(getProfile_cached hlisted hbuilt).2 n hother]
    show n ∈ t.cached.filter (fun n => decide (n ∈ kept)) ↔ _
    rw [List.mem_filter, decide_eq_true_iff]
    exact and_comm

/-- A name that is still listed is not added again. -/
theorem undone_listed (hmem : name ∈ (swiped t kept name).mProfiles)
    (hrun : undoDelete (swiped t kept name) allUndo (snapshot t.pref name) = some pm') :
    pm'.mProfiles = (swiped t kept name).mProfiles := by
  have hadd : (swiped t kept name).addProfile allUndo (snapshot t.pref name).name = some (swiped t kept name) :=
    if_pos hmem
  have hresult : (swiped t kept name).addProfileResult (snapshot t.pref name).name = .ok none := if_pos hmem
  rw [undoDelete, hadd, Option.map_some, hresult] at hrun
  obtain rfl := Option.some.inj hrun
  rfl

/-- A getter after Undo, from what stands under its keys then. -/
theorem Undone.mayRead_eq (h : Undone t pm' kept allUndo name) (alive : Bool) (n : Str) (f : ProfileField) :
    mayRead pm'.pref.get alive n f = mayRead (restored t.pref name kept allUndo) alive n f :=
  mayRead_congr alive (h.values _ (old_not_registry n .server)) (h.values _ (old_not_registry n f))
    (h.values _ (key_not_registry n f))

theorem Undone.own (h : Undone t pm' kept allUndo name) (f : ProfileField) : pm'.pref.get (key name f) =
    (backedUp t.pref name f).or (standing t.pref name kept allUndo (key name f)) := by
  rw [h.values _ (key_not_registry name f), restored_key]

end Undo

/-- Taken out and put at the end: the list is the same when the name was there. -/
theorem erase_append_self {l : List Str} {name : Str} (hgone : name ∉ l.erase name) :
    l.erase name ++ [name] = l ↔ ∃ front, l = front ++ [name] ∧ name ∉ front := by
  constructor
  · intro h
    exact ⟨l.erase name, h.symm, hgone⟩
  · rintro ⟨front, rfl, hfront⟩
    rw [List.erase_append_right _ hfront, List.erase_cons_head, List.append_nil]

/-- The snapshot holds what the getters returned, the authentication switch apart. -/
theorem backedUp_cases (pref : ProfileStore) (name : Str) (f : ProfileField) :
    (∃ v, backedUp pref name f = some v ∧ (f ≠ .userpw → v = getField pref name f)) ∨
      backedUp pref name f = none := by
  cases f with
  | server | port | username | password => exact .inl ⟨_, rfl, fun _ => rfl⟩
  | userpw => exact .inl ⟨_, rfl, fun h => absurd rfl h⟩
  | route | dns | dnsPort | perapp | appbypass | applist | ipv6 | udp | udpgw | auto => exact .inr rfl

/-- An old profile `b c`, and behind it one with a server and a password, the default. -/
def lone : ProfileStore :=
  ⟨[(prefProfile, .string "b c\na".toList), (prefLastProfile, .string "a".toList),
    ("aserver".toList, .string "10.0.0.1".toList), ("auserpw".toList, .bool true),
    ("b_cserver".toList, .string "10.0.0.2".toList)], by decide +kernel⟩

/-- Two profiles. -/
def pair : ProfileStore := ⟨[(prefProfile, .string "a\nb".toList)], by decide +kernel⟩

end KiloProxy.Ui
