import KiloProxy.Util.Migration
import KiloProxy.Util.ProfileKeys

/-!
# What the preferences hold of the registry

The list of names is stored as one text with a line per name; names without a line
break read back as they were written. A migration never touches that text, and the
stored default only when the old prefix of the name begins `last_profile` or the store
holds a key that ends like it.
-/

namespace KiloProxy.Util
set_option autoImplicit false
open KiloProxy.Text KiloProxy.Store

/-! ## The list as text -/

theorem flatMap_separator {sep : Str} {list : List Str} (h : list ≠ []) :
    (list.flatMap fun s => s ++ sep) = sep.intercalate list ++ sep := by
  induction list with
  | nil => exact absurd rfl h
  | cons s list ih =>
    cases list with
    | nil => simp
    | cons t list =>
      rw [List.flatMap_cons, ih (by simp), List.intercalate_cons_cons]
      simp only [List.append_assoc]

/-- Kotlin's join. -/
theorem join_eq (list : List Str) (sep : Str) : join list sep = sep.intercalate list := by
  unfold join
  split
  · rename_i h
    rw [h, List.intercalate_nil]
  · rename_i h
    simp only [flatMap_separator h, List.length_append, Nat.add_sub_cancel, List.take_left]

/-- A name that the stored list can hold. -/
structure Listable (name : Str) : Prop where
  nonempty : name ≠ []
  oneLine : '\n' ∉ name

instance (name : Str) : Decidable (Listable name) :=
  decidable_of_iff (name ≠ [] ∧ '\n' ∉ name) ⟨fun h => ⟨h.1, h.2⟩, fun h => ⟨h.nonempty, h.oneLine⟩⟩

namespace ProfileManager

theorem storedProfiles_congr {pref pref' : ProfileStore} (h : pref'.get prefProfile = pref.get prefProfile) :
    storedProfiles pref' = storedProfiles pref := by
  unfold storedProfiles getString
  rw [h]

/-- The registry reads back the names it wrote. -/
theorem storedProfiles_written {pref : ProfileStore} {names : List Str}
    (h : pref.get prefProfile = some (.string (join names ['\n'])))
    (hnames : ∀ n ∈ names, Listable n ∧ n ≠ profDefault) : storedProfiles pref = profDefault :: names := by
  have hraw : getString pref prefProfile = some (join names ['\n']) := by rw [getString, h]
  unfold storedProfiles
  rw [hraw, Option.getD_some, join_eq]
  cases names with
  | nil => rfl
  | cons n names =>
    have hne : ['\n'].intercalate (n :: names) ≠ [] := by
      cases names with
      | nil => simpa using (hnames n List.mem_cons_self).1.nonempty
      | cons m names => simp [List.intercalate_cons_cons]
    have hsplit : split '\n' (['\n'].intercalate (n :: names)) = n :: names :=
      List.splitOn_intercalate '\n' (fun m hm => (hnames m hm).1.oneLine) (by simp)
    have hkept : (n :: names).filter (fun p => p ≠ []) = n :: names :=
      List.filter_eq_self.mpr fun m hm => by simpa using (hnames m hm).1.nonempty
    have hothers : (n :: names).filter (fun p => p ≠ profDefault) = n :: names :=
      List.filter_eq_self.mpr fun m hm => by simpa using (hnames m hm).2
    simp only [if_neg hne, hsplit, hkept, hothers]

/-- The stored list is the placeholder and names that can be stored again. -/
theorem storedProfiles_cons (pref : ProfileStore) : ∃ names, storedProfiles pref = profDefault :: names ∧
    ∀ n ∈ names, Listable n ∧ n ≠ profDefault := by
  refine ⟨_, rfl, fun n hn => ?_⟩
  obtain ⟨hn, hdefault⟩ := List.mem_filter.mp hn
  split at hn
  · cases hn
  · obtain ⟨hmem, hne⟩ := List.mem_filter.mp hn
    exact ⟨⟨by simpa using hne, not_mem_split hmem⟩, by simpa using hdefault⟩

end ProfileManager

/-! ## Migrations and the keys of the registry -/

namespace Profile

def legacyChar (c : Char) : Str := if c = '_' then ['_', '_'] else if c = ' ' then ['_'] else [c]

/-- The old prefix, character by character. -/
theorem legacyPrefix_eq (n : Str) : legacyPrefix n = n.flatMap legacyChar := by
  unfold legacyPrefix
  induction n with
  | nil => rfl
  | cons c n ih =>
    rw [List.flatMap_cons, List.map_append, ih, List.flatMap_cons]
    congr 1
    unfold legacyChar
    split
    · decide
    · split
      · rename_i h
        simp [h]
      · rename_i h
        simp [h]

theorem legacyPrefix_append (n m : Str) : legacyPrefix (n ++ m) = legacyPrefix n ++ legacyPrefix m := by
  simp only [legacyPrefix_eq, List.flatMap_append]

/-- Letters stay as they are in both layouts. -/
theorem legacyPrefix_letters {n : Str} (h : ∀ c ∈ n, isLowerAscii c = true) : legacyPrefix n = n := by
  induction n with
  | nil => rfl
  | cons c n ih =>
    have hc : c ≠ '_' ∧ c ≠ ' ' := by
      have hlow := h c List.mem_cons_self
      constructor
      · rintro rfl
        exact absurd hlow (by decide)
      · rintro rfl
        exact absurd hlow (by decide)
    rw [legacyPrefix_eq, List.flatMap_cons, legacyChar, if_neg hc.1, if_neg hc.2, ← legacyPrefix_eq,
      ih fun x hx => h x (List.mem_cons_of_mem _ hx)]
    rfl

/-- An old prefix of letters is the name. -/
theorem letters_of_legacyPrefix {n : Str} (h : ∀ c ∈ legacyPrefix n, isLowerAscii c = true) : legacyPrefix n = n := by
  apply legacyPrefix_letters
  intro c hc
  have hmem : ∀ x ∈ legacyChar c, isLowerAscii x = true := fun x hx => by
    apply h
    rw [legacyPrefix_eq]
    exact List.mem_flatMap.mpr ⟨c, hc, hx⟩
  unfold legacyChar at hmem
  split at hmem
  · exact absurd (hmem '_' (by simp)) (by decide)
  · split at hmem
    · exact absurd (hmem '_' (by simp)) (by decide)
    · exact hmem c (by simp)

theorem isPlain_of_lower {c : Char} (h : isLowerAscii c = true) : isPlain c = true := by
  rw [isPlain, h]
  rfl

section Migrating

variable {pref : ProfileStore} {name : Str} (hmig : Migrates pref name)
include hmig

/-- A name that migrates has no old prefix of letters. -/
theorem legacyPrefix_not_letters : ¬ ∀ c ∈ legacyPrefix name, isLowerAscii c = true := by
  intro h
  have hname := letters_of_legacyPrefix h
  rw [hname] at h
  exact hmig.1 (hname.trans (urlEncode_plain fun c hc => isPlain_of_lower (h c hc)).symm)

/-- Nor a new one. -/
theorem prefPrefix_not_letters : ¬ ∀ c ∈ prefPrefix name, isLowerAscii c = true := by
  intro h
  obtain ⟨t, ht, hnil⟩ := urlEncode_suffix (s := name) (w := []) (fun c hc => isPlain_of_lower (h c hc)) rfl
  obtain rfl : t = [] := urlEncode_injective hnil
  have hname : name = prefPrefix name := ht
  rw [← hname] at h
  exact hmig.1 ((legacyPrefix_letters h).trans hname)

/-- No key that is moved is the stored list, and none becomes it. -/
theorem source_ne_profile (suf : Str) : legacyPrefix name ++ suf ≠ prefProfile := fun h =>
  legacyPrefix_not_letters hmig fun c hc => by
    have hall : prefProfile.all isLowerAscii = true := by decide
    exact List.all_eq_true.mp hall c (h ▸ List.mem_append_left _ hc)

theorem target_ne_profile (suf : Str) : prefPrefix name ++ suf ≠ prefProfile := fun h =>
  prefPrefix_not_letters hmig fun c hc => by
    have hall : prefProfile.all isLowerAscii = true := by decide
    exact List.all_eq_true.mp hall c (h ▸ List.mem_append_left _ hc)

end Migrating

/-- A construction leaves the stored list alone. -/
theorem init_profile {pref : ProfileStore} {all : List (Str × PrefValue)} (hall : all.Perm pref.list) (name : Str) :
    (init pref all name).get prefProfile = pref.get prefProfile := by
  rw [init_eq]
  split
  · rename_i hmig
    rw [Entries.get_edit]
    apply putAll_move_other
    · intro m hm
      obtain ⟨suf, hs, _⟩ := (mem_moves hall).mp hm
      rw [hs]
      exact source_ne_profile hmig suf
    · intro m hm
      obtain ⟨suf, _, ht, _⟩ := (mem_moves hall).mp hm
      rw [ht]
      exact target_ne_profile hmig suf
  · rfl

end Profile

end KiloProxy.Util
