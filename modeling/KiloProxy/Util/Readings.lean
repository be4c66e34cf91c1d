import KiloProxy.Store.Cuts
import KiloProxy.Util.ProfileManager
import Mathlib.Data.Set.Basic

/-!
# What a getter may return

A caller gets a profile first, and a profile that is not alive is built: its constructor
may move old keys, in the iteration order of the store, before a getter reads. `readings`
are the values a getter may return over all orders. They are settled by four things
(`mem_readings_iff`): whether the old server key is stored, what the old key of the field
holds, whether its new key begins like an old one, and what the new key holds.
-/

namespace KiloProxy.Util
set_option autoImplicit false
open KiloProxy.Text KiloProxy.Store

namespace Profile

/-- The constructor migrates. -/
def Migrates (pref : ProfileStore) (name : Str) : Prop :=
  legacyPrefix name ≠ prefPrefix name ∧ pref.contains (legacyPrefix name ++ "server".toList) = true

instance (pref : ProfileStore) (name : Str) : Decidable (Migrates pref name) := by
  unfold Migrates; infer_instance

/-- What a getter may return, over the iteration orders of the store. -/
def readings (pref : ProfileStore) (alive : Bool) (name : Str) (f : ProfileField) : Set PrefValue :=
  {v | ∃ all, all.Perm pref.list ∧ getField (if alive then pref else init pref all name) name f = v}

/-- The same, from what stands under the keys. When the profile is built and finds its old
server key, an old value comes over, and a new key that begins like an old one is moved away. -/
def mayRead (stored : Str → Option PrefValue) (alive : Bool) (name : Str) (f : ProfileField) : List PrefValue :=
  let here := (stored (key name f)).getD f.default
  if alive = false ∧ legacyPrefix name ≠ prefPrefix name ∧
      (stored (legacyPrefix name ++ "server".toList)).isSome = true then
    match stored (legacyPrefix name ++ f.suffix),
        startsWith (key name f) (legacyPrefix name) && (stored (key name f)).isSome with
    | some w, true => [w, f.default]
    | some w, false => [w]
    | none, true => [f.default]
    | none, false => [here]
  else [here]

/-- Two lists of the same values. -/
def SameValues (vs ws : List PrefValue) : Prop := vs ⊆ ws ∧ ws ⊆ vs

instance (vs ws : List PrefValue) : Decidable (SameValues vs ws) := inferInstanceAs (Decidable (_ ∧ _))

/-! ## The moves of a migration -/

/-- The constructor moves the old keys when the old prefix is another one and an old server is stored. -/
theorem init_eq (pref : ProfileStore) (all : List (Str × PrefValue)) (name : Str) :
    init pref all name = if Migrates pref name then pref.edit (movePuts (all.filterMap (legacyMove name))) else pref := by
  unfold init
  by_cases h₁ : legacyPrefix name ≠ prefPrefix name
  · by_cases h₂ : pref.contains (legacyPrefix name ++ "server".toList) = true
    · rw [if_pos (show Migrates pref name from ⟨h₁, h₂⟩)]
      show (if _ then (if _ then _ else _) else _) = _
      rw [if_pos h₁, if_pos h₂]
    · rw [if_neg fun h : Migrates pref name => h₂ h.2]
      show (if _ then (if _ then _ else _) else _) = _
      rw [if_pos h₁, if_neg h₂]
  · rw [if_neg fun h : Migrates pref name => h₁ h.1]
    show (if _ then _ else _) = _
    rw [if_neg h₁]

/-- The moves are the stored keys with the old prefix, whatever the iteration order. -/
theorem mem_moves {pref : ProfileStore} {all : List (Str × PrefValue)} {name : Str} (hall : all.Perm pref.list)
    {m : Move Str PrefValue} : m ∈ all.filterMap (legacyMove name) ↔
      ∃ suf, m.source = legacyPrefix name ++ suf ∧ m.target = prefPrefix name ++ suf ∧
        pref.get (legacyPrefix name ++ suf) = some m.value := by
  rw [List.mem_filterMap]
  constructor
  · rintro ⟨⟨k, v⟩, he, hm⟩
    unfold legacyMove at hm
    split at hm
    · rename_i hpre
      obtain ⟨suf, rfl⟩ := List.isPrefixOf_iff_prefix.mp hpre
      obtain rfl := Option.some.inj hm
      refine ⟨suf, rfl, ?_, Entries.mem_list_iff.mp (hall.mem_iff.mp he)⟩
      exact congrArg (prefPrefix name ++ ·) (removePrefix_append _ suf)
    · cases hm
  · rintro ⟨suf, hs, ht, hget⟩
    obtain ⟨source, target, value⟩ := m
    simp only at hs ht hget
    subst hs ht
    refine ⟨_, hall.mem_iff.mpr (Entries.mem_list_iff.mpr hget), ?_⟩
    simp only [legacyMove, startsWith_append, removePrefix_append, if_true]

/-! ## What a migration leaves under a key -/

section Orders

variable {pref : ProfileStore} {name : Str}

/-- The entry moves, last. -/
theorem init_last (hmig : Migrates pref name) {suf : Str} {w : PrefValue}
    (hget : pref.get (legacyPrefix name ++ suf) = some w) (k : Str) :
    ∃ all, all.Perm pref.list ∧ ∃ moves, (init pref all name).get k =
      (lastWrite (movePuts (moves ++ [⟨legacyPrefix name ++ suf, prefPrefix name ++ suf, w⟩])) k).getD (pref.get k) := by
  let e := (legacyPrefix name ++ suf, w)
  have hmem : e ∈ pref.list := Entries.mem_list_iff.mpr hget
  have hmove : legacyMove name e = some ⟨legacyPrefix name ++ suf, prefPrefix name ++ suf, w⟩ := by
    show (if _ then some _ else none) = _
    rw [if_pos (startsWith_append _ _)]
    show some (Move.mk _ (prefPrefix name ++ removePrefix (legacyPrefix name ++ suf) (legacyPrefix name)) _) = _
    rw [removePrefix_append]
  refine ⟨pref.list.erase e ++ [e], ?_, (pref.list.erase e).filterMap (legacyMove name), ?_⟩
  · exact (List.perm_append_singleton _ _).trans (List.perm_cons_erase hmem).symm
  · rw [init_eq, if_pos hmig, Entries.get_edit_apply, List.filterMap_append]
    congr 3
    rw [List.filterMap_cons_some hmove, List.filterMap_nil]

/-- What a migration may leave under a key: the value an old key brings, nothing where the
key begins like an old one itself, and else what it held. -/
inductive Left (pref : ProfileStore) (name k : Str) : Option PrefValue → Prop where
  | moved {suf : Str} {w : PrefValue} : prefPrefix name ++ suf = k → pref.get (legacyPrefix name ++ suf) = some w →
      Left pref name k (some w)
  | gone : startsWith k (legacyPrefix name) = true → pref.get k ≠ none → Left pref name k none
  | kept : (∀ suf, prefPrefix name ++ suf = k → pref.get (legacyPrefix name ++ suf) = none) →
      ¬ (startsWith k (legacyPrefix name) = true ∧ pref.get k ≠ none) → Left pref name k (pref.get k)

/-- Whatever the order, one of these is left. -/
theorem init_left (hmig : Migrates pref name) {all : List (Str × PrefValue)} (hall : all.Perm pref.list) (k : Str) :
    Left pref name k ((init pref all name).get k) := by
  rw [init_eq, if_pos hmig, Entries.get_edit_apply]
  have hmem : ∀ {suf w}, pref.get (legacyPrefix name ++ suf) = some w →
      (⟨legacyPrefix name ++ suf, prefPrefix name ++ suf, w⟩ : Move Str PrefValue) ∈ all.filterMap (legacyMove name) :=
    fun hget => (mem_moves hall).mpr ⟨_, rfl, rfl, hget⟩
  cases hw : lastWrite (movePuts (all.filterMap (legacyMove name))) k with
  | none =>
    have hout := notMem_of_lastWrite hw
    apply Left.kept
    · intro suf hk
      cases hget : pref.get (legacyPrefix name ++ suf) with
      | none => rfl
      | some w => exact absurd (hk ▸ target_mem_movePuts (hmem hget)) hout
    · rintro ⟨hpre, hsome⟩
      obtain ⟨suf, rfl⟩ := List.isPrefixOf_iff_prefix.mp hpre
      obtain ⟨w, hget⟩ := Option.ne_none_iff_exists'.mp hsome
      exact hout (source_mem_movePuts (hmem hget))
  | some w =>
    obtain ⟨m, hm, hput⟩ := List.mem_flatMap.mp (mem_of_lastWrite hw)
    obtain ⟨suf, hs, ht, hget⟩ := (mem_moves hall).mp hm
    rcases List.mem_cons.mp hput with he | hput
    · obtain ⟨rfl, rfl⟩ := Prod.mk.inj he
      exact .moved ht.symm hget
    · obtain ⟨rfl, rfl⟩ := Prod.mk.inj (List.mem_singleton.mp hput)
      apply Left.gone
      · rw [hs]
        exact startsWith_append _ _
      · rw [hs, hget]
        exact Option.some_ne_none _

/-- Each of them is left in some order. -/
theorem Left.exists_init (hmig : Migrates pref name) {k : Str} {r : Option PrefValue} (h : Left pref name k r) :
    ∃ all, all.Perm pref.list ∧ (init pref all name).get k = r := by
  cases h with
  | @moved suf w hk hget =>
    obtain ⟨all, hall, moves, hinit⟩ := init_last hmig hget k
    have hne : k ≠ legacyPrefix name ++ suf := by
      rw [← hk]
      exact fun he => hmig.1 (List.append_cancel_right he).symm
    refine ⟨all, hall, ?_⟩
    rw [hinit, lastWrite_move_last, if_neg hne, if_pos hk.symm]
    rfl
  | gone hpre hsome =>
    obtain ⟨suf, rfl⟩ := List.isPrefixOf_iff_prefix.mp hpre
    obtain ⟨w, hget⟩ := Option.ne_none_iff_exists'.mp hsome
    obtain ⟨all, hall, moves, hinit⟩ := init_last hmig hget (legacyPrefix name ++ suf)
    refine ⟨all, hall, ?_⟩
    rw [hinit, lastWrite_move_last, if_pos rfl]
    rfl
  | kept hnone hstay =>
    refine ⟨pref.list, List.Perm.refl _, ?_⟩
    have hleft := init_left hmig (List.Perm.refl _) k
    generalize (init pref pref.list name).get k = r at hleft
    cases hleft with
    | @moved suf w hk hget =>
      rw [hnone suf hk] at hget
      cases hget
    | gone hpre hsome => exact absurd ⟨hpre, hsome⟩ hstay
    | kept _ _ => rfl

end Orders

/-! ## What a getter may return -/

section Readings

variable {pref : ProfileStore} {name : Str} {f : ProfileField} {v : PrefValue}

/-- Of a profile that is alive, or that the constructor leaves alone, what stands under the key. -/
theorem mem_readings_still {alive : Bool} (h : alive = true ∨ ¬ Migrates pref name) :
    v ∈ readings pref alive name f ↔ getField pref name f = v := by
  have hsame : ∀ all, (if alive then pref else init pref all name) = pref := by
    intro all
    obtain rfl | hno := h
    · rfl
    · rw [init_eq, if_neg hno, ite_self]
  constructor
  · rintro ⟨all, _, hread⟩
    rwa [hsame] at hread
  · intro hread
    exact ⟨pref.list, List.Perm.refl _, by rwa [hsame]⟩

/-- Of a profile that is built and migrates, one of the values that may be left. -/
theorem mem_readings_migrates (hmig : Migrates pref name) :
    v ∈ readings pref false name f ↔ ∃ r, Left pref name (key name f) r ∧ r.getD f.default = v := by
  constructor
  · rintro ⟨all, hall, hread⟩
    exact ⟨_, init_left hmig hall _, hread⟩
  · rintro ⟨r, hleft, hread⟩
    obtain ⟨all, hall, hinit⟩ := hleft.exists_init hmig
    refine ⟨all, hall, ?_⟩
    show ((init pref all name).get (key name f)).getD f.default = v
    rw [hinit, hread]

/-- **The readings are settled by four things.** -/
theorem mem_readings_iff {alive : Bool} : v ∈ readings pref alive name f ↔ v ∈ mayRead pref.get alive name f := by
  by_cases hbuilt : alive = false ∧ Migrates pref name
  · obtain ⟨rfl, hmig⟩ := hbuilt
    have hserver : (pref.get (legacyPrefix name ++ "server".toList)).isSome = true := hmig.2
    have hsuffix : ∀ suf, prefPrefix name ++ suf = key name f → suf = f.suffix := fun suf h => List.append_cancel_left h
    have haway : (startsWith (key name f) (legacyPrefix name) && (pref.get (key name f)).isSome) = true ↔
        startsWith (key name f) (legacyPrefix name) = true ∧ pref.get (key name f) ≠ none := by
      rw [Bool.and_eq_true, Option.ne_none_iff_isSome]
    rw [mem_readings_migrates hmig]
    unfold mayRead
    rw [if_pos ⟨rfl, hmig.1, hserver⟩]
    constructor
    · rintro ⟨r, hleft, rfl⟩
      cases hleft with
      | @moved suf w hk hget =>
        rw [← hsuffix suf hk, hget]
        cases startsWith (key name f) (legacyPrefix name) && (pref.get (key name f)).isSome with
        | true => exact List.mem_cons_self
        | false => exact List.mem_cons_self
      | gone hpre hsome =>
        rw [haway.mpr ⟨hpre, hsome⟩]
        cases pref.get (legacyPrefix name ++ f.suffix) with
        | none => exact List.mem_singleton_self _
        | some w => exact List.mem_cons_of_mem _ (List.mem_singleton_self _)
      | kept hnone hstay =>
        have hstays := Bool.eq_false_iff.mpr (haway.not.mpr hstay)
        rw [hnone f.suffix rfl, hstays]
        exact List.mem_singleton_self _
    · intro hv
      split at hv
      · rename_i w hget hmoves
        obtain ⟨hpre, hsome⟩ := haway.mp hmoves
        obtain rfl | hv := List.mem_cons.mp hv
        · exact ⟨_, .moved rfl hget, rfl⟩
        · exact ⟨_, .gone hpre hsome, (List.mem_singleton.mp hv).symm⟩
      · rename_i w hget _
        exact ⟨_, .moved rfl hget, (List.mem_singleton.mp hv).symm⟩
      · rename_i hmoves
        obtain ⟨hpre, hsome⟩ := haway.mp hmoves
        exact ⟨_, .gone hpre hsome, (List.mem_singleton.mp hv).symm⟩
      · rename_i hnone hstays
        refine ⟨_, .kept (fun suf hk => hsuffix suf hk ▸ hnone) fun hmoves => ?_, (List.mem_singleton.mp hv).symm⟩
        rw [haway.mpr hmoves] at hstays
        cases hstays
  · have hstill : alive = true ∨ ¬ Migrates pref name := by
      rw [not_and_or, Bool.not_eq_false] at hbuilt
      exact hbuilt
    have hno : ¬ (alive = false ∧ legacyPrefix name ≠ prefPrefix name ∧
        (pref.get (legacyPrefix name ++ "server".toList)).isSome = true) := fun h => hbuilt h
    rw [mem_readings_still hstill]
    unfold mayRead
    rw [if_neg hno, List.mem_singleton, eq_comm]
    rfl

theorem readings_eq_iff {pref' : ProfileStore} {alive alive' : Bool} :
    readings pref' alive' name f = readings pref alive name f ↔
      SameValues (mayRead pref'.get alive' name f) (mayRead pref.get alive name f) := by
  rw [Set.ext_iff]
  simp only [mem_readings_iff]
  exact ⟨fun h => ⟨fun v hv => (h v).mp hv, fun v hv => (h v).mpr hv⟩, fun h v => ⟨fun hv => h.1 hv, fun hv => h.2 hv⟩⟩

/-- The three keys that a getter depends on. -/
theorem mayRead_congr {stored stored' : Str → Option PrefValue} (alive : Bool)
    (hserver : stored' (legacyPrefix name ++ "server".toList) = stored (legacyPrefix name ++ "server".toList))
    (hold : stored' (legacyPrefix name ++ f.suffix) = stored (legacyPrefix name ++ f.suffix))
    (hkey : stored' (key name f) = stored (key name f)) :
    mayRead stored' alive name f = mayRead stored alive name f := by
  unfold mayRead
  rw [hserver, hold, hkey]

/-- Of them the old keys count as long as the profile is not alive, and that of the field only
with the old server key. -/
theorem readings_congr {pref pref' : ProfileStore} {alive : Bool} (hkey : pref'.get (key name f) = pref.get (key name f))
    (hserver : alive = false → pref'.get (legacyPrefix name ++ "server".toList) =
      pref.get (legacyPrefix name ++ "server".toList))
    (hold : alive = false → Migrates pref name →
      pref'.get (legacyPrefix name ++ f.suffix) = pref.get (legacyPrefix name ++ f.suffix)) :
    readings pref' alive name f = readings pref alive name f := by
  have hstill : (alive = true ∨ ¬ Migrates pref' name) → (alive = true ∨ ¬ Migrates pref name) →
      readings pref' alive name f = readings pref alive name f := by
    intro h' h
    ext v
    rw [mem_readings_still h', mem_readings_still h, getField, getField, hkey]
  cases halive : alive with
  | true =>
    rw [halive] at hstill
    exact hstill (.inl rfl) (.inl rfl)
  | false =>
    have hsame := hserver halive
    by_cases hmig : Migrates pref name
    · ext v
      rw [mem_readings_iff, mem_readings_iff, mayRead_congr false hsame (hold halive hmig) hkey]
    · have hmig' : ¬ Migrates pref' name := by
        unfold Migrates Entries.contains at hmig ⊢
        rwa [hsame]
      rw [halive] at hstill
      exact hstill (.inr hmig') (.inr hmig)

end Readings

end Profile

end KiloProxy.Util
