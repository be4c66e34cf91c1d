import KiloProxy.Util.NamesPersist
import KiloProxy.Util.OldKeys
import KiloProxy.Util.RegistryCrash

/-!
# Renaming and duplicating a profile

`renameProfile` copies the fields, deletes the old ones and builds the new profile when
it is next asked for; `duplicateProfileAs` registers and builds the new profile and then
copies. Only stored fields are copied, the two names may share a port, and the
constructor may move old keys, so that what arrives is not always what was there.
-/

namespace KiloProxy.Ui
set_option autoImplicit false
open KiloProxy.Text KiloProxy.Store KiloProxy.Run KiloProxy.Util
open KiloProxy.Util.Profile KiloProxy.Util.ProfileManager

/-- `duplicateProfileAs`; an error is a throw of `addProfile`. The lists are the iteration
orders of the store when a profile of a registered name and when the new one is built. -/
def duplicateProfileAs (pm : ProfileManager) (all allNew : List (Str × PrefValue)) (srcName newName : Str) :
    Option (ProfileManager × Except Unit Bool) :=
  if trim newName = [] then some (pm, .ok false)
  else if newName ∈ pm.mProfiles then (pm.getProfile all newName).map fun pm => (pm, .ok false)
  else if srcName ∉ pm.mProfiles then some (pm, .ok false)
  else
    (pm.getProfile all srcName).bind fun pm =>
      (pm.addProfile allNew newName).map fun added =>
        match pm.addProfileResult newName with
        | .error () => (added, .error ())
        | .ok none => (added, .ok false)
        | .ok (some _) => ({ added with pref := copyTo added.pref srcName newName }, .ok true)

inductive CopyCall where
  | rename (src dst : Str)
  | duplicate (src dst : Str)

namespace CopyCall

def src : CopyCall → Str
  | rename src _ => src
  | duplicate src _ => src

def dst : CopyCall → Str
  | rename _ dst => dst
  | duplicate _ dst => dst

def run (pm : ProfileManager) (all allNew : List (Str × PrefValue)) :
    CopyCall → Option (ProfileManager × Except Unit Bool)
  | rename src dst => (pm.renameProfile all src dst).map fun pm' => (pm', .ok (pm.renameProfileResult src dst))
  | duplicate src dst => duplicateProfileAs pm all allNew src dst

end CopyCall

/-- What a getter returns to a caller, who has to get the profile first. -/
def read (pm : ProfileManager) (all : List (Str × PrefValue)) (name : Str) (f : ProfileField) : PrefValue :=
  getField (pm.held all name) name f

/-- What else a call promises: a rename hands the place over, a duplicate leaves the source. -/
def Settles (pm : ProfileManager) (all : List (Str × PrefValue)) (pm' : ProfileManager) : CopyCall → Prop
  | .rename src dst => src ∉ pm'.mProfiles ∧ pm'.mProfiles[pm.mProfiles.idxOf src]? = some dst
  | .duplicate src _ => ∀ all', all'.Perm pm'.pref.list → ∀ f, read pm' all' src f = read pm all src f

/-- The call is faithful. -/
structure Faithful (pm : ProfileManager) (all : List (Str × PrefValue)) (c : CopyCall) (pm' : ProfileManager) :
    Prop where
  getters : ∀ all', all'.Perm pm'.pref.list → ∀ f, read pm' all' c.dst f = read pm all c.src f
  settles : Settles pm all pm' c

/-! ## When a call is faithful -/

/-- The keys of a profile. -/
def keysOf (name : Str) : List Str := ProfileField.all.map (key name)

theorem mem_keysOf {name k : Str} : k ∈ keysOf name ↔ ∃ g, k = key name g := by
  unfold keysOf
  rw [List.mem_map]
  constructor
  · rintro ⟨g, _, rfl⟩
    exact ⟨g, rfl⟩
  · rintro ⟨g, rfl⟩
    exact ⟨g, g.mem_all, rfl⟩

section Conditions

variable (pref : ProfileStore) (src dst : Str) (f : ProfileField)

/-- The field survives a copy followed by a deletion: a key that is also one of the source's
goes with it, and what the source does not store is not copied. -/
def Arrives : Prop :=
  if key dst f ∈ keysOf src then getField pref src f = f.default
  else pref.get (key src f) = none → getField pref dst f = f.default

instance : Decidable (Arrives pref src dst f) := by unfold Arrives; infer_instance

/-- Something is stored under the new key then. -/
def Filled : Prop := key dst f ∉ keysOf src ∧ (pref.get (key src f) ≠ none ∨ pref.get (key dst f) ≠ none)

/-- What the old layout of `dst` holds for the field once the source is deleted. -/
def oldValue : Option PrefValue :=
  if legacyPrefix dst ++ f.suffix ∈ keysOf src then none else pref.get (legacyPrefix dst ++ f.suffix)

/-- The profile of `dst` has to be built, and finds an old layout. -/
def FindsOld (cached : List Str) : Prop :=
  dst ∉ cached ∧ Migrates pref dst ∧ legacyPrefix dst ≠ prefPrefix src

instance (cached : List Str) : Decidable (FindsOld pref src dst cached) := by
  unfold FindsOld; infer_instance

/-- A rename carries the field over. Where an old layout is found, an old value takes the
place of the copied one, and a new key that begins like an old one is moved away. -/
def FieldKept (cached : List Str) : Prop :=
  if FindsOld pref src dst cached then
    (∀ w, oldValue pref src dst f = some w → w = getField pref src f) ∧
    (startsWith (key dst f) (legacyPrefix dst) = true → Filled pref src dst f → f.default = getField pref src f) ∧
    (oldValue pref src dst f = none → ¬ (startsWith (key dst f) (legacyPrefix dst) = true ∧ Filled pref src dst f) →
      Arrives pref src dst f)
  else Arrives pref src dst f

/-- What stands under a key once the old keys of `dst` have moved: the last move decides. -/
def settled (cached : List Str) (allNew : List (Str × PrefValue)) (k : Str) : Option PrefValue :=
  if dst ∉ cached ∧ Migrates pref dst then (lastWrite (movesOf allNew dst) k).getD (pref.get k) else pref.get k

end Conditions

/-- A rename is clean: the new name fits on a line, the old one is listed once, and every
field is carried over. -/
structure RenameClean (pm : ProfileManager) (pref : ProfileStore) (src dst : Str) : Prop where
  oneLine : '\n' ∉ dst
  once : pm.mProfiles.count src = 1
  fields : ∀ f, FieldKept pref src dst f pm.cached

/-- A duplicate is clean: what the moves leave of the source is what it had, what they take is
found under the new key, and a shared key is given no other value. -/
structure DuplicateClean (stored : Str → Option PrefValue) (before : ProfileField → PrefValue) (src dst : Str) :
    Prop where
  copied : ∀ f v, stored (key src f) = some v → v = before f
  rest : ∀ f, stored (key src f) = none → (stored (key dst f)).getD f.default = before f
  shared : ∀ f g v, key dst g = key src f → stored (key src g) = some v → before g = before f
  lost : ∀ f, stored (key src f) = none → (∀ g, key dst g = key src f → stored (key src g) = none) →
    before f = f.default

/-- The call is clean, for the store once the profile of the source is there. -/
def Clean (pm : ProfileManager) (all allNew : List (Str × PrefValue)) : CopyCall → Prop
  | .rename src dst => RenameClean pm (pm.held all src) src dst
  | .duplicate src dst =>
    DuplicateClean (settled (pm.held all src) dst pm.cached allNew) (getField (pm.held all src) src) src dst

/-! ## What the edits leave -/

section Edits

variable {pref : ProfileStore} {src dst : Str} {f : ProfileField}

/-- What a copy leaves under the new key. -/
theorem copyTo_key (pref : ProfileStore) (src dst : Str) (f : ProfileField) :
    (copyTo pref src dst).get (key dst f) = (pref.get (key src f)).or (pref.get (key dst f)) := by
  rw [copyTo_eq, Entries.get_edit_apply]
  cases hv : pref.get (key src f) with
  | some v =>
    rw [lastWrite_copyPuts.mpr ⟨f, v, rfl, hv, rfl⟩]
    rfl
  | none =>
    cases hw : lastWrite (copyPuts pref src dst) (key dst f) with
    | none => rfl
    | some w =>
      obtain ⟨g, v, hk, hget, _⟩ := lastWrite_copyPuts.mp hw
      rw [← key_injective hk, hv] at hget
      cases hget

/-- A copy writes the keys of the new name only. -/
theorem copyTo_other {k : Str} (hk : ∀ g, k = key dst g → pref.get (key src g) = none) :
    (copyTo pref src dst).get k = pref.get k := by
  rw [copyTo_eq, Entries.get_edit_apply]
  cases hw : lastWrite (copyPuts pref src dst) k with
  | none => rfl
  | some w =>
    obtain ⟨g, v, he, hget, _⟩ := lastWrite_copyPuts.mp hw
    rw [hk g he] at hget
    cases hget

/-- A deleted profile leaves every key but its own. -/
theorem delete_get (pref : ProfileStore) (name k : Str) :
    (delete pref name).get k = if k ∈ keysOf name then none else pref.get k := by
  rw [delete_eq, Entries.get_edit_apply]
  split
  · rename_i hk
    rw [lastWrite_deletePuts.mpr ⟨rfl, mem_keysOf.mp hk⟩]
    rfl
  · rename_i hk
    cases hw : lastWrite (deletePuts name) k with
    | none => rfl
    | some w => exact absurd (mem_keysOf.mpr (lastWrite_deletePuts.mp hw).2) hk

/-- A key that is none of the registry's. -/
theorem registryPuts_other {mProfiles : List Str} {last : Puts Str PrefValue} {k : Str}
    (hlast : ∀ p ∈ last, p.1 = prefLastProfile) (hk : k ∉ [prefProfile, prefLastProfile]) :
    (pref.edit (registryPuts mProfiles last)).get k = pref.get k := by
  apply Entries.get_edit_of_notMem
  intro hmem
  apply hk
  obtain ⟨p, hp, rfl⟩ := List.mem_map.mp hmem
  cases List.mem_cons.mp hp with
  | inl he =>
    rw [he]
    exact List.mem_cons_self
  | inr hp =>
    rw [hlast p hp]
    exact List.mem_cons_of_mem _ List.mem_cons_self

theorem renamedLast_key (pref : ProfileStore) (src dst : Str) :
    ∀ p ∈ renamedLast pref src dst, p.1 = prefLastProfile := by
  intro p hp
  unfold renamedLast at hp
  split at hp
  · rw [List.mem_singleton.mp hp]
  · cases hp

/-- No old key is one of the registry's. -/
theorem old_not_registry (n : Str) (f : ProfileField) : legacyPrefix n ++ f.suffix ∉ [prefProfile, prefLastProfile] := by
  intro h
  apply suffix_not_registry f
  have hlast : prefProfile <:+ prefLastProfile := ⟨"last_".toList, by decide⟩
  cases List.mem_cons.mp h with
  | inl he => exact (he ▸ List.suffix_append _ _ : f.suffix <:+ prefProfile).trans hlast
  | inr he => exact List.mem_singleton.mp he ▸ List.suffix_append _ _

end Edits

/-! ## A rename -/

section Rename

variable {t : ProfileManager} {src dst : Str} {f : ProfileField}

theorem rename_other {k : Str} (hk : k ∉ [prefProfile, prefLastProfile]) : (t.rename src dst).pref.get k =
    if k ∈ keysOf src then none else (copyTo t.pref src dst).get k := by
  rw [rename_pref, registryPuts_other (renamedLast_key _ _ _) hk, delete_get]

theorem rename_key : (t.rename src dst).pref.get (key dst f) =
    if key dst f ∈ keysOf src then none else (t.pref.get (key src f)).or (t.pref.get (key dst f)) := by
  rw [rename_other (key_not_registry dst f), copyTo_key]

theorem rename_old (hne : legacyPrefix dst ≠ prefPrefix dst) :
    (t.rename src dst).pref.get (legacyPrefix dst ++ f.suffix) = oldValue t.pref src dst f := by
  rw [rename_other (old_not_registry dst f), copyTo_other fun g he => absurd he (old_ne_key hne f g), oldValue]

/-- A field arrives under the new name as the condition says. -/
theorem rename_arrives : getField (t.rename src dst).pref dst f = getField t.pref src f ↔ Arrives t.pref src dst f := by
  unfold Arrives
  rw [getField, rename_key]
  split
  · exact eq_comm
  · unfold getField
    cases t.pref.get (key src f) with
    | some v => simp
    | none => simp

/-- The key of a field under the new name is filled as the condition says. -/
theorem rename_filled : (t.rename src dst).pref.get (key dst f) ≠ none ↔ Filled t.pref src dst f := by
  unfold Filled
  rw [rename_key]
  split
  · rename_i hk
    exact ⟨fun h => absurd rfl h, fun h => absurd hk h.1⟩
  · rename_i hk
    rw [ne_eq, Option.or_eq_none_iff, not_and_or]
    exact ⟨fun h => ⟨hk, h⟩, fun h => h.2⟩

/-- The old server of the source is its new one. -/
theorem old_server_mem : legacyPrefix dst ++ ProfileField.server.suffix ∈ keysOf src ↔
    legacyPrefix dst = prefPrefix src := by
  rw [mem_keysOf]
  constructor
  · rintro ⟨g, hg⟩
    have hends : ∀ g ∈ ProfileField.all, ProfileField.server.suffix.isSuffixOf g.suffix = true ∨
        g.suffix.isSuffixOf ProfileField.server.suffix = true → g = .server := by decide +kernel
    have hs : ProfileField.server.suffix <:+ key src g := hg ▸ List.suffix_append _ _
    have hserver : g = .server := by
      apply hends g g.mem_all
      rw [List.isSuffixOf_iff_suffix, List.isSuffixOf_iff_suffix]
      rcases Nat.le_total ProfileField.server.suffix.length g.suffix.length with hle | hle
      · exact .inl (List.suffix_of_suffix_length_le hs (List.suffix_append _ _) hle)
      · exact .inr (List.suffix_of_suffix_length_le (List.suffix_append _ _) hs hle)
    rw [hserver] at hg
    exact List.append_cancel_right hg
  · intro h
    exact ⟨.server, by rw [h, key]⟩

/-- What is left for the constructor of the new profile to move. -/
theorem rename_migrates : Migrates (t.rename src dst).pref dst ↔
    Migrates t.pref dst ∧ legacyPrefix dst ≠ prefPrefix src := by
  by_cases hne : legacyPrefix dst = prefPrefix dst
  · exact ⟨fun h => absurd hne h.1, fun h => absurd hne h.1.1⟩
  · unfold Migrates Entries.contains
    rw [show "server".toList = ProfileField.server.suffix from rfl, rename_old hne, oldValue]
    split
    · rename_i hk
      constructor
      · rintro ⟨_, h⟩
        cases h
      · rintro ⟨_, h⟩
        exact absurd (old_server_mem.mp hk) h
    · rename_i hk
      exact ⟨fun h => ⟨h, fun he => hk (old_server_mem.mpr he)⟩, fun h => h.1⟩

/-- The getters of the new name, through the profile that is there or built anew. -/
theorem rename_fields_iff (hlisted : dst ∈ (t.rename src dst).mProfiles) :
    (∀ all', all'.Perm (t.rename src dst).pref.list → ∀ f, read (t.rename src dst) all' dst f = getField t.pref src f) ↔
      ∀ f, FieldKept t.pref src dst f t.cached := by
  have hcached : (t.rename src dst).cached = t.cached := by rw [ProfileManager.rename, reload]
  have hstay : (∀ all' : List (Str × PrefValue), all'.Perm (t.rename src dst).pref.list →
      ∀ f, getField (t.rename src dst).pref dst f = getField t.pref src f) ↔ ∀ f, Arrives t.pref src dst f :=
    ⟨fun h f => rename_arrives.mp (h _ (List.Perm.refl _) f), fun h _ _ f => rename_arrives.mpr (h f)⟩
  unfold read FieldKept
  simp only [held_listed hlisted, hcached]
  by_cases hlive : dst ∈ t.cached
  · simp only [if_pos hlive]
    rw [hstay]
    have hno : ¬ FindsOld t.pref src dst t.cached := fun h => h.1 hlive
    simp only [if_neg hno]
  · simp only [if_neg hlive]
    by_cases hmig : Migrates (t.rename src dst).pref dst
    · have hfinds : FindsOld t.pref src dst t.cached := ⟨hlive, rename_migrates.mp hmig⟩
      simp only [if_pos hfinds]
      have hfield : ∀ f, (∀ all', all'.Perm (t.rename src dst).pref.list →
          getField (init (t.rename src dst).pref all' dst) dst f = getField t.pref src f) ↔
            (∀ w, oldValue t.pref src dst f = some w → w = getField t.pref src f) ∧
            (startsWith (key dst f) (legacyPrefix dst) = true → Filled t.pref src dst f →
              f.default = getField t.pref src f) ∧
            (oldValue t.pref src dst f = none →
              ¬ (startsWith (key dst f) (legacyPrefix dst) = true ∧ Filled t.pref src dst f) →
              Arrives t.pref src dst f) := by
        intro f
        unfold getField
        rw [init_orders_iff hmig, rename_filled, ← rename_old hmig.1]
        -- the only old key that moves to the new one is the old key of the field
        have hold : ∀ suf, prefPrefix dst ++ suf = key dst f ↔ suf = f.suffix := fun suf => by
          rw [key, List.append_cancel_left_eq]
        have harr : getField (t.rename src dst).pref dst f = getField t.pref src f ↔ Arrives t.pref src dst f :=
          rename_arrives
        unfold getField at harr
        simp only [hold, forall_eq, harr]
      constructor
      · intro h f
        exact (hfield f).mp fun all' hall => h all' hall f
      · intro h all' hall f
        exact (hfield f).mpr (h f) all' hall
    · have hno : ¬ FindsOld t.pref src dst t.cached := fun h => hmig (rename_migrates.mpr h.2)
      simp only [if_neg hno, init_eq, if_neg hmig]
      exact hstay

end Rename

/-! ## A duplicate -/

section Duplicate

variable {pm pm' t : ProfileManager} {all allNew : List (Str × PrefValue)} {src dst : Str}

/-- A duplicate that returns true: the source is got, the new name added, the fields copied. -/
theorem duplicateProfileAs_true (h : duplicateProfileAs pm all allNew src dst = some (pm', .ok true)) :
    ∃ t added, pm.getProfile all src = some t ∧ dst ∉ pm.mProfiles ∧ t.addProfile allNew dst = some added ∧
      t.addProfileResult dst = .ok (some dst) ∧ pm' = { added with pref := copyTo added.pref src dst } := by
  unfold duplicateProfileAs at h
  split at h
  · cases h
  · split at h
    · obtain ⟨_, _, he⟩ := Option.map_eq_some_iff.mp h
      cases he
    · rename_i hdst
      split at h
      · cases h
      · obtain ⟨t, ht, h⟩ := Option.bind_eq_some_iff.mp h
        obtain ⟨added, hadded, h⟩ := Option.map_eq_some_iff.mp h
        split at h
        · cases h
        · cases h
        · rename_i n hresult
          obtain ⟨rfl, _⟩ := Prod.mk.inj h
          refine ⟨t, added, ht, hdst, hadded, ?_, rfl⟩
          -- the default is the name that was just added
          unfold addProfileResult getDefaultResult at hresult ⊢
          rw [register_lastProfile] at hresult ⊢
          split at hresult
          · cases hresult
          · rename_i hnew
            rw [if_neg hnew]
            split at hresult
            · rename_i hlisted
              rw [if_pos hlisted]
              rfl
            · cases hresult

theorem register_other (t : ProfileManager) (dst : Str) {k : Str} (hk : k ∉ [prefProfile, prefLastProfile]) :
    (t.register dst).pref.get k = t.pref.get k := by
  rw [register_pref]
  exact registryPuts_other (fun p hp => by rw [List.mem_singleton.mp hp]) hk

theorem register_migrates (t : ProfileManager) (dst : Str) : Migrates (t.register dst).pref dst ↔ Migrates t.pref dst := by
  unfold Migrates Entries.contains
  rw [show "server".toList = ProfileField.server.suffix from rfl, register_other t dst (old_not_registry dst .server)]

/-- The new name is added and its profile got: any key of the store. -/
theorem added_get {added : ProfileManager} (hnew : dst ∉ t.mProfiles) (hadded : t.addProfile allNew dst = some added)
    (hlisted : dst ∈ (t.register dst).mProfiles) (k : Str) : added.pref.get k =
      if dst ∉ t.cached ∧ Migrates t.pref dst then (lastWrite (movesOf allNew dst) k).getD ((t.register dst).pref.get k)
      else (t.register dst).pref.get k := by
  unfold addProfile at hadded
  rw [if_neg hnew, getDefault, register_lastProfile] at hadded
  have hcached : (t.register dst).cached = t.cached := by rw [register, reload]
  rw [Got.pref_eq hadded, held_listed hlisted, hcached]
  by_cases hlive : dst ∈ t.cached
  · rw [if_pos hlive, if_neg fun h => h.1 hlive]
  · rw [if_neg hlive, init_eq]
    by_cases hmig : Migrates t.pref dst
    · rw [if_pos ((register_migrates t dst).mpr hmig), if_pos ⟨hlive, hmig⟩, Entries.get_edit_apply]
      rfl
    · rw [if_neg fun h => hmig ((register_migrates t dst).mp h), if_neg fun h => hmig h.2]

/-- The keys of profiles then. -/
theorem added_settled {added : ProfileManager} (hnew : dst ∉ t.mProfiles) (hadded : t.addProfile allNew dst = some added)
    (hlisted : dst ∈ (t.register dst).mProfiles) (n : Str) (f : ProfileField) :
    added.pref.get (key n f) = settled t.pref dst t.cached allNew (key n f) := by
  rw [added_get hnew hadded hlisted, register_other t dst (key_not_registry n f), settled]

end Duplicate

/-- What a copy leaves under both names. -/
theorem copyTo_iff {pref : ProfileStore} {src dst : Str} {before : ProfileField → PrefValue} :
    ((∀ f, getField (copyTo pref src dst) dst f = before f) ∧ ∀ f, getField (copyTo pref src dst) src f = before f) ↔
      DuplicateClean pref.get before src dst := by
  constructor
  · rintro ⟨hdst, hsrc⟩
    have hcopied : ∀ f v, pref.get (key src f) = some v → v = before f := by
      intro f v hv
      have h := hdst f
      rw [getField, copyTo_key, hv] at h
      exact h
    have hover : ∀ f g v, key dst g = key src f → pref.get (key src g) = some v → v = before f := by
      intro f g v hk hv
      have h := hsrc f
      rw [getField, ← hk, copyTo_key, hv] at h
      exact h
    refine ⟨hcopied, fun f hnone => ?_, fun f g v hk hv => ?_, fun f hnone hother => ?_⟩
    · have h := hdst f
      rw [getField, copyTo_key, hnone, Option.none_or] at h
      exact h
    · rw [← hcopied g v hv]
      exact hover f g v hk hv
    · have h := hsrc f
      rw [getField, copyTo_other fun g he => hother g he.symm, hnone] at h
      exact h.symm
  · intro h
    constructor
    · intro f
      rw [getField, copyTo_key]
      cases hv : pref.get (key src f) with
      | some v => exact h.copied f v hv
      | none =>
        rw [Option.none_or]
        exact h.rest f hv
    · intro f
      by_cases hover : ∃ g v, key dst g = key src f ∧ pref.get (key src g) = some v
      · obtain ⟨g, v, hk, hv⟩ := hover
        rw [getField, ← hk, copyTo_key, hv, ← h.shared f g v hk hv]
        exact h.copied g v hv
      · have hkeep : ∀ g, key dst g = key src f → pref.get (key src g) = none := by
          intro g hk
          cases hv : pref.get (key src g) with
          | none => rfl
          | some v => exact absurd ⟨g, v, hk, hv⟩ hover
        rw [getField, copyTo_other fun g he => hkeep g he.symm]
        cases hv : pref.get (key src f) with
        | some v => exact h.copied f v hv
        | none => exact (h.lost f hv hkeep).symm

theorem DuplicateClean.congr {stored stored' : Str → Option PrefValue} {before : ProfileField → PrefValue} {src dst : Str}
    (h : DuplicateClean stored before src dst) (hsame : ∀ n f, stored' (key n f) = stored (key n f)) :
    DuplicateClean stored' before src dst where
  copied f v hv := h.copied f v (hsame src f ▸ hv)
  rest f hnone := by
    rw [hsame]
    exact h.rest f (hsame src f ▸ hnone)
  shared f g v hk hv := h.shared f g v hk (hsame src g ▸ hv)
  lost f hnone hother := h.lost f (hsame src f ▸ hnone) fun g hk => hsame src g ▸ hother g hk

/-- The old name is gone and the new one has its place. -/
theorem rename_settles_iff {t : ProfileManager} {src dst : Str} (hre : Reloaded t) (hsrc : src ∈ t.mProfiles)
    (hne : src ≠ profDefault) (hdst : dst ∉ t.mProfiles) (hnonempty : dst ≠ []) :
    src ∉ (t.rename src dst).mProfiles ∧ (t.rename src dst).mProfiles[t.mProfiles.idxOf src]? = some dst ↔
      '\n' ∉ dst ∧ t.mProfiles.count src = 1 := by
  have hplace : t.mProfiles.idxOf src < t.mProfiles.length := List.idxOf_lt_length_of_mem hsrc
  have hlist : '\n' ∉ dst → (t.rename src dst).mProfiles = t.mProfiles.set (t.mProfiles.idxOf src) dst := by
    intro hline
    have hname : Listable dst := ⟨hnonempty, hline⟩
    exact hre.rename_names hne hname hdst
  have hgone : src ∉ t.mProfiles.set (t.mProfiles.idxOf src) dst ↔ t.mProfiles.count src = 1 := by
    have hdiffer : dst ≠ src := fun he => hdst (he ▸ hsrc)
    have hpos := List.count_pos_iff.mpr hsrc
    rw [← List.count_eq_zero, List.count_set hplace, List.getElem_idxOf hplace]
    simp only [beq_self_eq_true, if_true, beq_false_of_ne hdiffer, Bool.false_eq_true, if_false]
    omega
  constructor
  · rintro ⟨hout, hat⟩
    have hre' : Reloaded (t.rename src dst) := t.rename_list src dst
    have hline : '\n' ∉ dst := hre'.oneLine (List.mem_of_getElem? hat)
    rw [hlist hline] at hout
    exact ⟨hline, hgone.mp hout⟩
  · rintro ⟨hline, honce⟩
    rw [hlist hline]
    exact ⟨hgone.mpr honce, List.getElem?_set_self hplace⟩

section Calls

variable {pm pm' : ProfileManager} {all allNew : List (Str × PrefValue)}

theorem FieldKept.congr {pref : ProfileStore} {src dst : Str} {f : ProfileField} {cached cached' : List Str}
    (h : dst ∈ cached ↔ dst ∈ cached') : FieldKept pref src dst f cached ↔ FieldKept pref src dst f cached' := by
  have hfinds : FindsOld pref src dst cached ↔ FindsOld pref src dst cached' := by
    unfold FindsOld
    rw [h]
  unfold FieldKept
  simp only [hfinds]

/-- A rename is faithful exactly under its condition. -/
theorem rename_faithful_iff (hre : Reloaded pm) {src dst : Str} (hsrc : src ∈ pm.mProfiles) (hne : src ≠ profDefault)
    (hdst : dst ∉ pm.mProfiles) (hnonempty : dst ≠ []) (hs : pm.renameProfile all src dst = some pm') :
    Faithful pm all (.rename src dst) pm' ↔ RenameClean pm (pm.held all src) src dst := by
  have hdiffer : dst ≠ src := fun he => hdst (he ▸ hsrc)
  have hhead : src ≠ pm.mProfiles.headD profDefault := by
    rw [hre.head]
    exact hne
  obtain ⟨t, ht, rfl⟩ := renameProfile_renames ⟨hdiffer.symm, hsrc, hhead, hdst⟩ hs
  have hgot := getProfile_got ht
  have hpref : t.pref = pm.held all src := Got.pref_eq ht
  have hcached := (getProfile_cached hsrc ht).2 dst hdiffer
  have hsettles := rename_settles_iff (hre.got hgot) (hgot.list ▸ hsrc) hne (hgot.list ▸ hdst) hnonempty
  rw [hgot.list] at hsettles
  -- what was read of the source is read of the store once it is got
  have hfields : dst ∈ (t.rename src dst).mProfiles →
      ((∀ all' : List (Str × PrefValue), all'.Perm (t.rename src dst).pref.list →
          ∀ f, read (t.rename src dst) all' dst f = read pm all src f) ↔
        ∀ f, FieldKept (pm.held all src) src dst f pm.cached) := by
    intro hlisted
    have hiff := rename_fields_iff hlisted
    rw [hpref] at hiff
    simp only [FieldKept.congr hcached] at hiff
    exact hiff
  constructor
  · intro h
    obtain ⟨hline, honce⟩ := hsettles.mp h.settles
    exact ⟨hline, honce, (hfields (List.mem_of_getElem? h.settles.2)).mp h.getters⟩
  · intro h
    have hplaced := hsettles.mpr ⟨h.oneLine, h.once⟩
    exact ⟨(hfields (List.mem_of_getElem? hplaced.2)).mpr h.fields, hplaced⟩

/-- A duplicate is faithful exactly under its condition, which looks at the keys after the migration of the
copy. -/
theorem duplicate_faithful_iff {src dst : Str} (hsrc : src ∈ pm.mProfiles)
    (hs : duplicateProfileAs pm all allNew src dst = some (pm', .ok true)) :
    Faithful pm all (.duplicate src dst) pm' ↔
      DuplicateClean (settled (pm.held all src) dst pm.cached allNew) (getField (pm.held all src) src) src dst := by
  obtain ⟨t, added, ht, hdst, hadded, hresult, rfl⟩ := duplicateProfileAs_true hs
  have hdiffer : dst ≠ src := fun he => hdst (he ▸ hsrc)
  have hgot := getProfile_got ht
  have hpref : t.pref = pm.held all src := Got.pref_eq ht
  obtain ⟨hlive, hcached⟩ := getProfile_cached hsrc ht
  have hnew : dst ∉ t.mProfiles := hgot.list ▸ hdst
  have hlisted : dst ∈ (t.register dst).mProfiles := (addProfileResult_listed hnew).mp hresult
  have hstored : ∀ n f, added.pref.get (key n f) = settled (pm.held all src) dst pm.cached allNew (key n f) := by
    intro n f
    rw [added_settled hnew hadded hlisted, hpref]
    unfold settled
    simp only [hcached dst hdiffer]
  -- both profiles are alive when the call returns
  have hbuilt : (t.register dst).getProfile allNew dst = some added := by
    unfold addProfile at hadded
    rw [if_neg hnew, getDefault, register_lastProfile] at hadded
    exact hadded
  obtain ⟨hdstLive, hothers⟩ := getProfile_cached hlisted hbuilt
  have hsrcLive : src ∈ added.cached := by
    have hkeep : (t.register dst).cached = t.cached := by rw [register, reload]
    rw [hothers src hdiffer.symm, hkeep]
    exact hlive
  have hread : ∀ n ∈ added.cached, ∀ all' f, read { added with pref := copyTo added.pref src dst } all' n f =
      getField (copyTo added.pref src dst) n f := by
    intro n hn all' f
    unfold read held migration
    rw [if_neg fun hb => hb.1.2 hn]
    rfl
  have hiff : ((∀ f, getField (copyTo added.pref src dst) dst f = getField (pm.held all src) src f) ∧
      ∀ f, getField (copyTo added.pref src dst) src f = getField (pm.held all src) src f) ↔
      DuplicateClean added.pref.get (getField (pm.held all src) src) src dst := copyTo_iff
  constructor
  · intro h
    have hclean := hiff.mp ⟨fun f => hread dst hdstLive _ f ▸ h.getters _ (List.Perm.refl _) f,
      fun f => hread src hsrcLive _ f ▸ h.settles _ (List.Perm.refl _) f⟩
    exact hclean.congr fun n f => (hstored n f).symm
  · intro h
    obtain ⟨hd, hs⟩ := hiff.mpr (h.congr hstored)
    refine ⟨fun all' _ f => ?_, fun all' _ f => ?_⟩
    · show read _ all' dst f = _
      rw [hread dst hdstLive]
      exact hd f
    · rw [hread src hsrcLive]
      exact hs f

/-- **Renaming and duplicating are faithful** exactly when they are clean. -/
theorem copies_faithful_iff {c : CopyCall} (hreach : Reachable system pm) (hsrc : c.src ∈ pm.mProfiles)
    (hne : c.src ≠ profDefault) (hdst : c.dst ∉ pm.mProfiles) (hblank : trim c.dst ≠ [])
    (hrun : c.run pm all allNew = some (pm', .ok true)) : Faithful pm all c pm' ↔ Clean pm all allNew c := by
  cases c with
  | rename src dst =>
    have hnonempty : dst ≠ [] := fun he => hblank (by rw [show (CopyCall.rename src dst).dst = [] from he]; rfl)
    obtain ⟨s', hs, he⟩ := Option.map_eq_some_iff.mp hrun
    obtain ⟨rfl, _⟩ := Prod.mk.inj he
    exact rename_faithful_iff (reachable_reloaded hreach) hsrc hne hdst hnonempty hs
  | duplicate src dst => exact duplicate_faithful_iff hsrc hrun

end Calls

/-- `a`, which has a server, renamed to `b`. -/
theorem copies_faithful_plain : ∃ pm', (CopyCall.rename "a".toList "b".toList).run (opened withServer) withServer.list [] =
      some (pm', .ok true) ∧
    Faithful (opened withServer) withServer.list (.rename "a".toList "b".toList) pm' := by
  have hsome : ((CopyCall.rename "a".toList "b".toList).run (opened withServer) withServer.list []).map
      (fun r => r.2.toOption) = some (some true) := by
    decide +kernel
  obtain ⟨⟨pm', result⟩, hrun, hresult⟩ := Option.map_eq_some_iff.mp hsome
  cases result with
  | error e => cases hresult
  | ok b =>
    obtain rfl : b = true := Option.some.inj hresult
    have hiff : Faithful (opened withServer) withServer.list (.rename "a".toList "b".toList) pm' ↔
        Clean (opened withServer) withServer.list [] (.rename "a".toList "b".toList) :=
      copies_faithful_iff (opened_reachable _) (by decide +kernel) (by decide) (by decide +kernel) (by decide +kernel) hrun
    have harrives : ∀ f ∈ ProfileField.all,
        Arrives ((opened withServer).held withServer.list "a".toList) "a".toList "b".toList f := by
      decide +kernel
    have hfinds : ¬ FindsOld ((opened withServer).held withServer.list "a".toList) "a".toList "b".toList [] := by
      decide +kernel
    refine ⟨pm', hrun, hiff.mpr ⟨by decide, by decide +kernel, fun f => ?_⟩⟩
    show FieldKept _ _ _ _ []
    rw [FieldKept, if_neg hfinds]
    exact harrives f f.mem_all

/-- A profile with a port. -/
def withPort : ProfileStore :=
  ⟨[(prefProfile, .string "home".toList), ("homeport".toList, .int 3128)], by decide +kernel⟩

/-- The port of `homedns_` is deleted with the DNS port of `home`. -/
theorem rename_drops_port : ¬ ∀ pm pm' all allNew c, Reachable system pm → CopyCall.src c ∈ pm.mProfiles →
    c.src ≠ profDefault → c.dst ∉ pm.mProfiles → trim c.dst ≠ [] → c.run pm all allNew = some (pm', .ok true) →
    Faithful pm all c pm' := by
  intro h
  have hsome : ((CopyCall.rename "home".toList "homedns_".toList).run (opened withPort) withPort.list []).map
      (fun r => (r.2.toOption, read r.1 r.1.pref.list "homedns_".toList .port)) = some (some true, .int 1080) := by
    decide +kernel
  obtain ⟨⟨pm', result⟩, hrun, hread⟩ := Option.map_eq_some_iff.mp hsome
  obtain ⟨hresult, hport⟩ := Prod.mk.inj hread
  cases result with
  | error e => cases hresult
  | ok b =>
    obtain rfl : b = true := Option.some.inj hresult
    have hfaithful := h _ _ _ _ (.rename "home".toList "homedns_".toList) (opened_reachable _) (by decide +kernel)
      (by decide) (by decide +kernel) (by decide +kernel) hrun
    have hbefore : read (opened withPort) withPort.list "home".toList .port = .int 3128 := by decide +kernel
    have hsame := hfaithful.getters _ (List.Perm.refl _) .port
    rw [show (CopyCall.rename "home".toList "homedns_".toList).dst = "homedns_".toList from rfl, hport,
      show (CopyCall.rename "home".toList "homedns_".toList).src = "home".toList from rfl, hbefore] at hsame
    exact absurd hsame (by decide)

end KiloProxy.Ui
