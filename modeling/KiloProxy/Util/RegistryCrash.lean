import KiloProxy.Store.Cuts
import KiloProxy.Util.Mutators

/-!
# Registry calls cut short

Each mutator of the registry makes several edits: the migration of a profile it builds,
the copy and the removal of fields, the list with the default. A process that dies
between two of them leaves the store as it is; `sight` is what a restarted process sees
of it, with no profile alive: it gets each of them through the constructor, which may
migrate. A removal empties the profile before it takes it off the list, and so does a
rename.
-/

namespace KiloProxy.Util
set_option autoImplicit false
open KiloProxy.Text KiloProxy.Store KiloProxy.Run

namespace Profile

/-- The edit of the migration. -/
def movesOf (all : List (Str × PrefValue)) (name : Str) : Puts Str PrefValue :=
  movePuts (all.filterMap (legacyMove name))

/-- The edit of `delete`. -/
def deletePuts (name : Str) : Puts Str PrefValue := ProfileField.all.map fun f => (key name f, none)

/-- The edit of `copyTo`. -/
def copyPuts (pref : ProfileStore) (name newName : Str) : Puts Str PrefValue :=
  ProfileField.all.filterMap fun f => (pref.get (key name f)).map fun v => (key newName f, some v)

theorem delete_eq (pref : ProfileStore) (name : Str) : delete pref name = pref.edit (deletePuts name) := rfl

theorem copyTo_eq (pref : ProfileStore) (name newName : Str) :
    copyTo pref name newName = pref.edit (copyPuts pref name newName) := rfl

end Profile

namespace ProfileManager

/-! ## The edits of a call -/

inductive RegistryCall where
  | add (name : Str)
  | remove (name : Str)
  | rename (oldName newName : Str)

def RegistryCall.action : RegistryCall → Action
  | .add name => .addProfile name
  | .remove name => .removeProfile name
  | .rename oldName newName => .renameProfile oldName newName

/-- The edit of the constructor, should `getProfile` run one that migrates. -/
def migration (s : ProfileManager) (all : List (Str × PrefValue)) (name : Str) : List (Puts Str PrefValue) :=
  if (name ∈ s.mProfiles ∧ name ∉ s.cached) ∧ Profile.Migrates s.pref name then [Profile.movesOf all name] else []

/-- The store once `getProfile` has returned. -/
def held (s : ProfileManager) (all : List (Str × PrefValue)) (name : Str) : ProfileStore :=
  whole Entries.edit s.pref (migration s all name)

/-- The list and maybe the default, as the mutators write them. -/
def registryPuts (mProfiles : List Str) (last : Puts Str PrefValue) : Puts Str PrefValue :=
  (prefProfile, some (.string (join (mProfiles.drop 1) ['\n']))) :: last

/-- What `renameProfile` writes of the default. -/
def renamedLast (pref : ProfileStore) (oldName newName : Str) : Puts Str PrefValue :=
  if getString pref prefLastProfile = some oldName then [(prefLastProfile, some (.string newName))] else []

/-- The edits of a call, in order. -/
def edits (s : ProfileManager) (all : List (Str × PrefValue)) : RegistryCall → List (Puts Str PrefValue)
  | .add name =>
    if name ∈ s.mProfiles then []
    else
      registryPuts (s.mProfiles ++ [name]) [(prefLastProfile, some (.string name))] ::
        migration (s.register name) all (s.register name).lastProfile
  | .remove name =>
    if name = s.mProfiles.headD profDefault ∨ name ∉ s.mProfiles then []
    else
      migration s all name ++ [Profile.deletePuts name] ++
        [registryPuts (s.mProfiles.erase name) [(prefLastProfile, none)]]
  | .rename oldName newName =>
    if Renames s oldName newName then
      migration s all oldName ++ [Profile.copyPuts (s.held all oldName) oldName newName, Profile.deletePuts oldName] ++
        [registryPuts (s.mProfiles.set (s.mProfiles.idxOf oldName) newName)
          (renamedLast (Profile.delete (Profile.copyTo (s.held all oldName) oldName newName) oldName) oldName newName)]
    else []

/-! The mutators make these edits. -/

theorem register_pref (s : ProfileManager) (name : Str) : (s.register name).pref =
    s.pref.edit (registryPuts (s.mProfiles ++ [name]) [(prefLastProfile, some (.string name))]) := rfl

theorem unregister_pref (s : ProfileManager) (name : Str) : (s.unregister name).pref =
    (s.pref.edit (Profile.deletePuts name)).edit
      (registryPuts (s.mProfiles.erase name) [(prefLastProfile, none)]) := rfl

theorem rename_pref (s : ProfileManager) (oldName newName : Str) : (s.rename oldName newName).pref =
    (Profile.delete (Profile.copyTo s.pref oldName newName) oldName).edit
      (registryPuts (s.mProfiles.set (s.mProfiles.idxOf oldName) newName)
        (renamedLast (Profile.delete (Profile.copyTo s.pref oldName newName) oldName) oldName newName)) := by
  unfold rename reload registryPuts renamedLast
  simp only

/-- The store behind a listed profile: as it is, or as the constructor leaves it. -/
theorem held_listed {s : ProfileManager} {all : List (Str × PrefValue)} {name : Str} (hmem : name ∈ s.mProfiles) :
    s.held all name = if name ∈ s.cached then s.pref else Profile.init s.pref all name := by
  unfold held migration
  by_cases hcached : name ∈ s.cached
  · rw [if_pos hcached, if_neg fun hb => hb.1.2 hcached]
    rfl
  · rw [if_neg hcached, Profile.init_eq]
    by_cases hmig : Profile.Migrates s.pref name
    · rw [if_pos hmig, if_pos ⟨⟨hmem, hcached⟩, hmig⟩]
      rfl
    · rw [if_neg hmig, if_neg fun hb => hmig hb.2]
      rfl

/-- After `getProfile` the file holds what the constructor left. -/
theorem Got.pref_eq {s s' : ProfileManager} {all : List (Str × PrefValue)} {name : Str}
    (h : s.getProfile all name = some s') : s'.pref = s.held all name := by
  unfold getProfile factoryGetProfile at h
  split at h
  · rename_i hmem
    rw [held_listed hmem]
    split at h
    · rename_i hcached
      rw [if_pos hcached]
      obtain rfl := Option.some.inj h
      rfl
    · rename_i hnew
      rw [if_neg hnew]
      split at h
      · obtain rfl := Option.some.inj h
        rfl
      · cases h
  · rename_i hout
    unfold held migration
    rw [if_neg fun hb => hout hb.1.1]
    obtain rfl := Option.some.inj h
    rfl

/-- The edits lead to the store that the call leaves. -/
theorem edits_step {s s' : ProfileManager} {all : List (Str × PrefValue)} (call : RegistryCall)
    (h : system.step s (call.action, all) = some s') : s'.pref = whole Entries.edit s.pref (edits s all call) := by
  cases call with
  | add name =>
    have h : s.addProfile all name = some s' := h
    unfold addProfile at h
    rw [edits]
    split at h
    · rename_i hmem
      rw [if_pos hmem]
      obtain rfl := Option.some.inj h
      rfl
    · rename_i hnew
      rw [if_neg hnew]
      exact Got.pref_eq h
  | remove name =>
    have h : s.removeProfile all name = some s' := h
    unfold removeProfile at h
    rw [edits]
    split at h
    · rename_i hguard
      rw [if_pos hguard]
      obtain rfl := Option.some.inj h
      rfl
    · rename_i hguard
      rw [if_neg hguard]
      obtain ⟨t, ht, rfl⟩ := Option.map_eq_some_iff.mp h
      rw [unregister_pref, (getProfile_got ht).list, Got.pref_eq ht, held]
      simp only [whole, List.foldl_append, List.foldl_cons, List.foldl_nil]
  | rename oldName newName =>
    have h : s.renameProfile all oldName newName = some s' := h
    rw [edits]
    cases renameProfile_cases h with
    | inl hsame =>
      rw [if_neg hsame.1, hsame.2]
      rfl
    | inr hrename =>
      obtain ⟨hr, _⟩ := hrename
      rw [if_pos hr]
      obtain ⟨t, ht, rfl⟩ := renameProfile_renames hr h
      rw [rename_pref, (getProfile_got ht).list, Got.pref_eq ht]
      generalize renamedLast _ oldName newName = last
      rw [Profile.delete_eq, Profile.copyTo_eq]
      simp only [held, whole, List.foldl_append, List.foldl_cons, List.foldl_nil]

/-! ## What a restarted process sees -/

/-- The list, the default, and what the getters of the listed profiles may return. -/
structure Sight where
  profiles : List Str
  default : Str
  fields : List (ProfileField → Set PrefValue)

/-- What is read after a restart: no profile is alive, so `getProfile` builds it first. -/
def sight (pref : ProfileStore) : Sight where
  profiles := (opened pref).mProfiles
  default := (opened pref).lastProfile
  fields := (opened pref).mProfiles.map fun n => Profile.readings pref false n

/-- The default that a stored value names. -/
def defaultOf : Option PrefValue → Str
  | some (.string n) => n
  | _ => profDefault

/-- The default is the stored one, or the placeholder. -/
theorem Reloaded.lastProfile_eq {s : ProfileManager} (h : Reloaded s) :
    s.lastProfile = defaultOf (s.pref.get prefLastProfile) := by
  rw [lastProfile, h.head, getString]
  cases s.pref.get prefLastProfile with
  | none => rfl
  | some v =>
    cases v with
    | string n => rfl
    | int _ => rfl
    | long _ => rfl
    | bool _ => rfl

theorem opened_lastProfile (pref : ProfileStore) : (opened pref).lastProfile = defaultOf (pref.get prefLastProfile) :=
  (opened_reloaded pref).lastProfile_eq

/-- Two files look alike when a restart lists the same profiles, with the same default and the same values. -/
theorem sight_eq_iff {p q : ProfileStore} : sight p = sight q ↔
    storedProfiles p = storedProfiles q ∧ (opened p).lastProfile = (opened q).lastProfile ∧
      ∀ n ∈ storedProfiles q, ∀ f, Profile.readings p false n f = Profile.readings q false n f := by
  constructor
  · intro h
    have hlist : storedProfiles p = storedProfiles q := congrArg Sight.profiles h
    refine ⟨hlist, congrArg Sight.default h, fun n hn f => ?_⟩
    have hfields : (storedProfiles p).map (fun n => Profile.readings p false n) =
        (storedProfiles q).map fun n => Profile.readings q false n := congrArg Sight.fields h
    rw [hlist] at hfields
    exact congrFun (List.map_inj_left.mp hfields n hn) f
  · rintro ⟨hlist, hlast, hfields⟩
    have hmap : (storedProfiles p).map (fun n => Profile.readings p false n) =
        (storedProfiles q).map fun n => Profile.readings q false n := by
      rw [hlist]
      exact List.map_inj_left.mpr fun n hn => funext (hfields n hn)
    exact (Sight.mk.injEq _ _ _ _ _ _).mpr ⟨hlist, hlast, hmap⟩

/-- With `stored` under the keys, the getters of the listed profiles may return what they may
return now. -/
def Unseen (pref : ProfileStore) (stored : Str → Option PrefValue) : Prop :=
  ∀ n ∈ storedProfiles pref, ∀ f,
    Profile.SameValues (Profile.mayRead stored false n f) (Profile.mayRead pref.get false n f)

instance (pref : ProfileStore) (stored : Str → Option PrefValue) : Decidable (Unseen pref stored) :=
  @decidable_of_iff _ (∀ n ∈ storedProfiles pref, ∀ f ∈ ProfileField.all,
      Profile.SameValues (Profile.mayRead stored false n f) (Profile.mayRead pref.get false n f))
    ⟨fun h n hn f => h n hn f f.mem_all, fun h n hn f _ => h n hn f⟩ (List.decidableBAll _ _)

theorem unseen_iff {pref pref' : ProfileStore} : Unseen pref pref'.get ↔
    ∀ n ∈ storedProfiles pref, ∀ f, Profile.readings pref' false n f = Profile.readings pref false n f := by
  simp only [Profile.readings_eq_iff]
  rfl

/-- When an edit outside the stored list does not show. -/
theorem sight_edit_iff {pref : ProfileStore} {puts : Puts Str PrefValue} (hprofile : lastWrite puts prefProfile = none) :
    sight (pref.edit puts) = sight pref ↔
      (∀ w, lastWrite puts prefLastProfile = some w → defaultOf w = (opened pref).lastProfile) ∧
      Unseen pref (putAll puts pref.get) := by
  have hlist : storedProfiles (pref.edit puts) = storedProfiles pref := by
    apply storedProfiles_congr
    rw [Entries.get_edit_apply, hprofile, Option.getD_none]
  have hlast : (opened (pref.edit puts)).lastProfile = (opened pref).lastProfile ↔
      ∀ w, lastWrite puts prefLastProfile = some w → defaultOf w = (opened pref).lastProfile := by
    rw [opened_lastProfile (pref.edit puts), Entries.get_edit_apply]
    cases hw : lastWrite puts prefLastProfile with
    | none => simp [opened_lastProfile]
    | some w => simp
  rw [sight_eq_iff, hlast, ← Entries.get_edit, unseen_iff]
  simp only [hlist, true_and]

/-- What shows the same lets the same store go unseen. -/
theorem Unseen.congr {p q r : ProfileStore} (h : sight p = sight q) : Unseen p r.get ↔ Unseen q r.get := by
  obtain ⟨hlist, _, hfields⟩ := sight_eq_iff.mp h
  rw [unseen_iff, unseen_iff, hlist]
  constructor
  · intro hp n hn f
    rw [hp n hn f, hfields n hn f]
  · intro hq n hn f
    rw [hq n hn f, hfields n hn f]

/-! ## When a call is atomic -/

/-- The migration of `name`, if it is to be built, writes over the default what is read there,
and no getter of a listed profile notices: each migrates to the same when its turn comes. -/
def MigrationUnseen (s : ProfileManager) (all : List (Str × PrefValue)) (name : Str) : Prop :=
  (name ∈ s.mProfiles ∧ name ∉ s.cached) ∧ Profile.Migrates s.pref name →
    (∀ w, lastWrite (Profile.movesOf all name) prefLastProfile = some w → defaultOf w = s.lastProfile) ∧
    Unseen s.pref (putAll (Profile.movesOf all name) s.pref.get)

/-- No getter notices that the keys of `name` are empty. -/
def EmptyingUnseen (pref : ProfileStore) (stored : Str → Option PrefValue) (name : Str) : Prop :=
  Unseen pref (putAll (Profile.deletePuts name) stored)

/-- No getter notices that what `source` holds of `name` stands under the keys of `newName`. -/
def CopyUnseen (pref source : ProfileStore) (name newName : Str) : Prop :=
  Unseen pref (putAll (Profile.copyPuts source name newName) source.get)

/-- The call ends at once, or its edits but one do not show. -/
def CrashSafe (s : ProfileManager) (all : List (Str × PrefValue)) : RegistryCall → Prop
  | .add name => name ∉ s.mProfiles → MigrationUnseen (s.register name) all name
  | .remove name => name ≠ s.mProfiles.headD profDefault ∧ name ∈ s.mProfiles →
      MigrationUnseen s all name ∧ EmptyingUnseen s.pref (s.held all name).get name
  | .rename oldName newName => Renames s oldName newName →
      MigrationUnseen s all oldName ∧ CopyUnseen s.pref (s.held all oldName) oldName newName ∧
        EmptyingUnseen s.pref (putAll (Profile.copyPuts (s.held all oldName) oldName newName) (s.held all oldName).get)
          oldName

/-- A restart after any number of the edits sees the state before the call or after it. -/
def AtomicCall (s : ProfileManager) (all : List (Str × PrefValue)) (call : RegistryCall) (s' : ProfileManager) : Prop :=
  ∀ k, sight (cut Entries.edit s.pref (edits s all call) k) = sight s.pref ∨
    sight (cut Entries.edit s.pref (edits s all call) k) = sight s'.pref

/-! ## What the edits write -/

/-- Edits that leave the stored list alone. -/
def OffList (es : List (Puts Str PrefValue)) : Prop := ∀ puts ∈ es, lastWrite puts prefProfile = none

theorem OffList.cut {es : List (Puts Str PrefValue)} (h : OffList es) (pref : ProfileStore) (k : Nat) :
    (cut Entries.edit pref es k).get prefProfile = pref.get prefProfile := by
  induction es generalizing pref k with
  | nil => rw [cut_nil]
  | cons puts es ih =>
    cases k with
    | zero => rfl
    | succ k =>
      rw [cut_cons, ih (fun p hp => h p (List.mem_cons_of_mem _ hp)), Entries.get_edit_apply,
        h puts List.mem_cons_self, Option.getD_none]

theorem OffList.sight {es : List (Puts Str PrefValue)} (h : OffList es) (pref : ProfileStore) (k : Nat) :
    (sight (Store.cut Entries.edit pref es k)).profiles = storedProfiles pref :=
  storedProfiles_congr (h.cut pref k)

/-- The migration writes neither over the stored list. -/
theorem movesOf_offList {pref : ProfileStore} {all : List (Str × PrefValue)} (hall : all.Perm pref.list) {name : Str}
    (hmig : Profile.Migrates pref name) : lastWrite (Profile.movesOf all name) prefProfile = none := by
  cases hw : lastWrite (Profile.movesOf all name) prefProfile with
  | none => rfl
  | some w =>
    obtain ⟨m, hm, hput⟩ := List.mem_flatMap.mp (mem_of_lastWrite hw)
    obtain ⟨suf, hs, ht, _⟩ := (Profile.mem_moves hall).mp hm
    cases List.mem_cons.mp hput with
    | inl he =>
      have htarget : prefProfile = m.target := congrArg Prod.fst he
      exact absurd (htarget.trans ht).symm (Profile.target_ne_profile hmig suf)
    | inr he =>
      have hsource : prefProfile = m.source := congrArg Prod.fst (List.mem_singleton.mp he)
      exact absurd (hsource.trans hs).symm (Profile.source_ne_profile hmig suf)

theorem lastWrite_deletePuts {name k : Str} {w : Option PrefValue} :
    lastWrite (Profile.deletePuts name) k = some w ↔ w = none ∧ ∃ g, k = Profile.key name g := by
  have hnodup : ((Profile.deletePuts name).map Prod.fst).Nodup := by
    rw [Profile.deletePuts, List.map_map]
    apply List.Nodup.map
    · intro f g h
      exact Profile.key_injective h
    · decide
  rw [lastWrite_iff_mem hnodup, Profile.deletePuts, List.mem_map]
  constructor
  · rintro ⟨g, _, he⟩
    obtain ⟨rfl, rfl⟩ := Prod.mk.inj he
    exact ⟨rfl, g, rfl⟩
  · rintro ⟨rfl, g, rfl⟩
    exact ⟨g, g.mem_all, rfl⟩

/-- What a copy writes last under a key. -/
theorem lastWrite_copyPuts {pref : ProfileStore} {name newName k : Str} {w : Option PrefValue} :
    lastWrite (Profile.copyPuts pref name newName) k = some w ↔
      ∃ g v, k = Profile.key newName g ∧ pref.get (Profile.key name g) = some v ∧ w = some v := by
  have hnodup : ((Profile.copyPuts pref name newName).map Prod.fst).Nodup := by
    rw [Profile.copyPuts, List.map_filterMap, List.Nodup, List.pairwise_filterMap]
    have hall : ProfileField.all.Nodup := by decide
    apply hall.imp
    intro f g hne k hk k' hk' he
    obtain ⟨p, hp, rfl⟩ := Option.map_eq_some_iff.mp hk
    obtain ⟨q, hq, rfl⟩ := Option.map_eq_some_iff.mp hk'
    obtain ⟨_, _, rfl⟩ := Option.map_eq_some_iff.mp hp
    obtain ⟨_, _, rfl⟩ := Option.map_eq_some_iff.mp hq
    exact hne (Profile.key_injective he)
  rw [lastWrite_iff_mem hnodup, Profile.copyPuts, List.mem_filterMap]
  constructor
  · rintro ⟨g, _, he⟩
    obtain ⟨v, hv, hput⟩ := Option.map_eq_some_iff.mp he
    obtain ⟨rfl, rfl⟩ := Prod.mk.inj hput
    exact ⟨g, v, rfl, hv, rfl⟩
  · rintro ⟨g, v, rfl, hv, rfl⟩
    exact ⟨g, g.mem_all, by rw [hv, Option.map_some]⟩

theorem deletePuts_registry (name : Str) {k : Str} (hk : k ∈ [prefProfile, prefLastProfile]) :
    lastWrite (Profile.deletePuts name) k = none := by
  cases hw : lastWrite (Profile.deletePuts name) k with
  | none => rfl
  | some w =>
    obtain ⟨_, g, rfl⟩ := lastWrite_deletePuts.mp hw
    exact absurd hk (Profile.key_not_registry name g)

theorem copyPuts_registry (pref : ProfileStore) (name newName : Str) {k : Str}
    (hk : k ∈ [prefProfile, prefLastProfile]) : lastWrite (Profile.copyPuts pref name newName) k = none := by
  cases hw : lastWrite (Profile.copyPuts pref name newName) k with
  | none => rfl
  | some w =>
    obtain ⟨g, _, rfl, _⟩ := lastWrite_copyPuts.mp hw
    exact absurd hk (Profile.key_not_registry newName g)

/-! ## The edits before the last -/

section Fronts

variable {s : ProfileManager} {all : List (Str × PrefValue)} {name : Str}

theorem migration_offList (hall : name ∈ s.mProfiles ∧ name ∉ s.cached → all.Perm s.pref.list) :
    OffList (s.migration all name) := by
  intro puts hputs
  unfold migration at hputs
  split at hputs
  · rename_i hbuilds
    rw [List.mem_singleton.mp hputs]
    exact movesOf_offList (hall hbuilds.1) hbuilds.2
  · cases hputs

/-- A migration shows nothing exactly under its condition. -/
theorem migration_quiet_iff (hre : Reloaded s) (hall : name ∈ s.mProfiles ∧ name ∉ s.cached → all.Perm s.pref.list) :
    Quiet Entries.edit sight s.pref (s.migration all name) ↔ MigrationUnseen s all name := by
  unfold migration MigrationUnseen
  have hlast : (opened s.pref).lastProfile = s.lastProfile := Reloaded.lastProfile_congr hre (opened_reloaded _) rfl
  split
  · rename_i hbuilds
    simp only [Quiet, and_true]
    rw [sight_edit_iff (movesOf_offList (hall hbuilds.1) hbuilds.2), hlast]
    exact (imp_iff_right hbuilds).symm
  · rename_i hno
    exact iff_of_true trivial fun hbuilds => absurd hbuilds hno

/-- An edit that leaves the registry's own keys alone. -/
theorem offRegistry_quiet_iff {pref : ProfileStore} {puts : Puts Str PrefValue}
    (hputs : ∀ k ∈ [prefProfile, prefLastProfile], lastWrite puts k = none) :
    sight (pref.edit puts) = sight pref ↔ Unseen pref (putAll puts pref.get) := by
  rw [sight_edit_iff (hputs _ List.mem_cons_self), hputs prefLastProfile (List.mem_cons_of_mem _ List.mem_cons_self)]
  exact and_iff_right fun w hw => by cases hw

variable (hre : Reloaded s) (hall : name ∈ s.mProfiles ∧ name ∉ s.cached → all.Perm s.pref.list)
include hre hall

/-- The edits of a removal before the last. -/
theorem remove_quiet_iff : Quiet Entries.edit sight s.pref (s.migration all name ++ [Profile.deletePuts name]) ↔
    MigrationUnseen s all name ∧ EmptyingUnseen s.pref (s.held all name).get name := by
  rw [quiet_append, migration_quiet_iff hre hall]
  apply and_congr_right
  intro hquiet
  have hheld : sight (s.held all name) = sight s.pref :=
    Quiet.whole Entries.edit sight ((migration_quiet_iff hre hall).mpr hquiet)
  show sight ((s.held all name).edit (Profile.deletePuts name)) = sight (s.held all name) ∧ True ↔ _
  rw [and_true, offRegistry_quiet_iff (fun _ => deletePuts_registry name), EmptyingUnseen, ← Entries.get_edit,
    Unseen.congr hheld]

/-- The edits of a rename before the last. -/
theorem rename_quiet_iff (newName : Str) : Quiet Entries.edit sight s.pref
      (s.migration all name ++ [Profile.copyPuts (s.held all name) name newName, Profile.deletePuts name]) ↔
    MigrationUnseen s all name ∧ CopyUnseen s.pref (s.held all name) name newName ∧
      EmptyingUnseen s.pref (putAll (Profile.copyPuts (s.held all name) name newName) (s.held all name).get) name := by
  rw [quiet_append, migration_quiet_iff hre hall]
  apply and_congr_right
  intro hquiet
  have hheld : sight (s.held all name) = sight s.pref :=
    Quiet.whole Entries.edit sight ((migration_quiet_iff hre hall).mpr hquiet)
  show sight ((s.held all name).edit (Profile.copyPuts (s.held all name) name newName)) = sight (s.held all name) ∧
    sight (((s.held all name).edit (Profile.copyPuts (s.held all name) name newName)).edit (Profile.deletePuts name)) =
      sight ((s.held all name).edit (Profile.copyPuts (s.held all name) name newName)) ∧ True ↔ _
  have hcopy : sight ((s.held all name).edit (Profile.copyPuts (s.held all name) name newName)) =
      sight (s.held all name) ↔ CopyUnseen s.pref (s.held all name) name newName := by
    rw [offRegistry_quiet_iff (fun _ => copyPuts_registry (s.held all name) name newName), CopyUnseen,
      ← Entries.get_edit, Unseen.congr hheld]
  rw [hcopy, and_true]
  apply and_congr_right
  intro hunseen
  have hcopied := (hcopy.mpr hunseen).trans hheld
  rw [offRegistry_quiet_iff (fun _ => deletePuts_registry name), EmptyingUnseen, ← Entries.get_edit,
    Unseen.congr hcopied, Entries.get_edit, Entries.get_edit]

end Fronts

/-! ## Every call -/

theorem getProfile_perm {s s' : ProfileManager} {all : List (Str × PrefValue)} {name : Str}
    (h : s.getProfile all name = some s') : name ∈ s.mProfiles ∧ name ∉ s.cached → all.Perm s.pref.list := by
  rintro ⟨hmem, hnew⟩
  rw [getProfile, if_pos hmem, factoryGetProfile, if_neg hnew] at h
  split at h
  · rename_i hall
    exact hall
  · cases h

section Calls

variable {s s' : ProfileManager} {all : List (Str × PrefValue)}

/-- Adding is atomic exactly under its condition. -/
theorem add_atomic_iff (hre : Reloaded s) {name : Str} (hs : s.addProfile all name = some s') :
    CrashAtomic Entries.edit sight s.pref (edits s all (.add name)) ↔ CrashSafe s all (.add name) := by
  unfold addProfile at hs
  rw [edits, CrashSafe]
  split at hs
  · rename_i hmem
    rw [if_pos hmem]
    refine iff_of_true (fun k => .inl ?_) fun hnew => absurd hmem hnew
    rw [cut_nil]
  · rename_i hnew
    rw [if_neg hnew, imp_iff_right hnew]
    have hall := getProfile_perm hs
    rw [register_lastProfile] at hall ⊢
    by_cases hname : Listable name
    · rw [crashAtomic_first, ← register_pref]
      · exact migration_quiet_iff (s.register_list name) hall
      · -- the name is listed from the first edit on
        intro k he
        rw [← register_pref] at he
        have hlist := (migration_offList hall).sight (s.register name).pref k
        rw [he, ← s.register_list name, hre.register_names hname hnew] at hlist
        have hlength : s.mProfiles = s.mProfiles ++ [name] := hre.trans hlist
        exact absurd (List.self_eq_append_right.mp hlength) (List.cons_ne_nil _ _)
    · -- a name that is not read back is not built
      have hout : name ∉ (s.register name).mProfiles := by
        intro hmem
        obtain ⟨names, hlist, hnames⟩ := Reloaded.list (s.register_list name)
        rw [hlist] at hmem
        cases List.mem_cons.mp hmem with
        | inl he => exact hname (he ▸ ⟨by decide, by decide⟩)
        | inr hin => exact hname (hnames name hin).1
      have hnone : migration (s.register name) all name = [] := if_neg fun hbuilds => hout hbuilds.1.1
      rw [hnone]
      refine iff_of_true ?_ fun hbuilds => absurd hbuilds.1.1 hout
      intro k
      cases k with
      | zero => exact .inl rfl
      | succ k =>
        rw [cut_cons, cut_nil]
        exact .inr rfl

/-- Removing is atomic exactly under its condition. -/
theorem remove_atomic_iff (hre : Reloaded s) {name : Str} (hs : s.removeProfile all name = some s') :
    CrashAtomic Entries.edit sight s.pref (edits s all (.remove name)) ↔ CrashSafe s all (.remove name) := by
  have hpref := edits_step (.remove name) hs
  rw [edits] at hpref ⊢
  rw [CrashSafe]
  cases removeProfile_cases hs with
  | inl hsame =>
    rw [if_pos hsame.1]
    have hno : ¬ (name ≠ s.mProfiles.headD profDefault ∧ name ∈ s.mProfiles) := by
      rintro ⟨hne, hmem⟩
      cases hsame.1 with
      | inl he => exact hne he
      | inr hout => exact hout hmem
    refine iff_of_true (fun k => .inl ?_) fun hgo => absurd hgo hno
    rw [cut_nil]
  | inr hremove =>
    obtain ⟨hne, hmem, t, ht, rfl⟩ := hremove
    have hguard : ¬ (name = s.mProfiles.headD profDefault ∨ name ∉ s.mProfiles) := by
      rintro (he | hout)
      · exact hne he
      · exact hout hmem
    rw [if_neg hguard] at hpref ⊢
    rw [imp_iff_right ⟨hne, hmem⟩]
    unfold removeProfile at hs
    rw [if_neg hguard] at hs
    obtain ⟨u, hu, _⟩ := Option.map_eq_some_iff.mp hs
    have hall := getProfile_perm hu
    rw [crashAtomic_last, remove_quiet_iff hre hall]
    -- the list loses a name with the last edit
    intro k he
    rw [← hpref] at he
    have hoff : OffList (s.migration all name ++ [Profile.deletePuts name]) := by
      intro puts hputs
      cases List.mem_append.mp hputs with
      | inl hmig => exact migration_offList hall puts hmig
      | inr hdel =>
        rw [List.mem_singleton.mp hdel]
        exact deletePuts_registry name List.mem_cons_self
    have hlist := hoff.sight s.pref k
    rw [he, ← hre] at hlist
    have hleft : (t.unregister name).mProfiles = s.mProfiles := (t.unregister_list name).trans hlist
    rw [(hre.got ht).unregister_names (hre.head ▸ hne), ht.list] at hleft
    have hlength := congrArg List.length hleft
    rw [List.length_erase_of_mem hmem] at hlength
    have hpos := List.length_pos_of_mem hmem
    omega

/-- Renaming is atomic exactly under its condition. -/
theorem rename_atomic_iff (hre : Reloaded s) {oldName newName : Str} (hname : Listable newName)
    (hs : s.renameProfile all oldName newName = some s') :
    CrashAtomic Entries.edit sight s.pref (edits s all (.rename oldName newName)) ↔
      CrashSafe s all (.rename oldName newName) := by
  have hpref := edits_step (.rename oldName newName) hs
  rw [edits] at hpref ⊢
  rw [CrashSafe]
  cases renameProfile_cases hs with
  | inl hsame =>
    rw [if_neg hsame.1]
    refine iff_of_true (fun k => .inl ?_) fun hgo => absurd hgo hsame.1
    rw [cut_nil]
  | inr hrename =>
    obtain ⟨hr, t, ht, rfl⟩ := hrename
    rw [if_pos hr] at hpref ⊢
    rw [imp_iff_right hr]
    obtain ⟨hdiffer, hold, hne, hnew⟩ := hr
    unfold renameProfile at hs
    rw [if_neg (by simp only [not_or, Decidable.not_not]; exact ⟨hdiffer, hold, hne, hnew⟩)] at hs
    obtain ⟨u, hu, _⟩ := Option.map_eq_some_iff.mp hs
    have hall := getProfile_perm hu
    rw [crashAtomic_last, rename_quiet_iff hre hall]
    -- the new name is listed with the last edit
    intro k he
    rw [← hpref] at he
    have hoff : OffList (s.migration all oldName ++
        [Profile.copyPuts (s.held all oldName) oldName newName, Profile.deletePuts oldName]) := by
      intro puts hputs
      cases List.mem_append.mp hputs with
      | inl hmig => exact migration_offList hall puts hmig
      | inr hrest =>
        cases List.mem_cons.mp hrest with
        | inl hcopy =>
          rw [hcopy]
          exact copyPuts_registry _ oldName newName List.mem_cons_self
        | inr hdel =>
          rw [List.mem_singleton.mp hdel]
          exact deletePuts_registry oldName List.mem_cons_self
    have hlist := hoff.sight s.pref k
    rw [he, ← hre] at hlist
    have hafter : (t.rename oldName newName).mProfiles = s.mProfiles := (t.rename_list oldName newName).trans hlist
    rw [(hre.got ht).rename_names (hre.head ▸ hne) hname (ht.list ▸ hnew), ht.list] at hafter
    apply hnew
    rw [← hafter]
    exact List.mem_set (List.idxOf_lt_length_of_mem hold) newName

end Calls

/-- What is left of an old profile `a b` that is not listed. -/
def oldServer : ProfileStore := ⟨[("a_bserver".toList, .string "10.0.0.1".toList)], by decide +kernel⟩

/-- A profile with a server. -/
def withServer : ProfileStore :=
  ⟨[(prefProfile, .string "a".toList), ("aserver".toList, .string "10.0.0.1".toList)], by decide +kernel⟩

end ProfileManager

end KiloProxy.Util
