import KiloProxy.Util.ProfileManager

/-!
# The keys of the profiles

A key is the encoded name with the field behind it and nothing in between. The only
field that another one ends with is `port`, in `dns_port`, so two keys of different
profiles are one key exactly when one name is the other with `dns_` behind it
(`key_eq_iff`). No key of a profile is a key of the registry.
-/

namespace KiloProxy.Util
set_option autoImplicit false
open KiloProxy.Text KiloProxy.Store

/-- What a name needs behind it for its ports to share a key. -/
def dnsMark : Str := "dns_".toList

theorem suffix_dnsPort : ProfileField.dnsPort.suffix = dnsMark ++ ProfileField.port.suffix := by decide

/-- The fields whose name another field ends with. -/
theorem suffix_cases {f g : ProfileField} (h : f.suffix <:+ g.suffix) : f = g ∨ (f = .port ∧ g = .dnsPort) := by
  have hall : ∀ f ∈ ProfileField.all, ∀ g ∈ ProfileField.all,
      f.suffix.isSuffixOf g.suffix = true → f = g ∨ (f = .port ∧ g = .dnsPort) := by decide +kernel
  exact hall f f.mem_all g g.mem_all (List.isSuffixOf_iff_suffix.mpr h)

/-- No field ends in `profile`. -/
theorem suffix_not_registry (f : ProfileField) : ¬ f.suffix <:+ prefLastProfile := by
  have hall : ∀ f ∈ ProfileField.all, f.suffix.isSuffixOf prefLastProfile = false := by decide +kernel
  intro h
  have hno := hall f f.mem_all
  rw [List.isSuffixOf_iff_suffix.mpr h] at hno
  cases hno

namespace Profile

theorem key_ne_lastProfile (n : Str) (f : ProfileField) : key n f ≠ prefLastProfile := fun h =>
  suffix_not_registry f (h ▸ List.suffix_append _ _)

theorem key_ne_profile (n : Str) (f : ProfileField) : key n f ≠ prefProfile := by
  intro h
  apply suffix_not_registry f
  have hlast : prefProfile <:+ prefLastProfile := ⟨"last_".toList, by decide⟩
  exact (h ▸ List.suffix_append _ _ : f.suffix <:+ prefProfile).trans hlast

theorem prefPrefix_dns (n : Str) : prefPrefix (n ++ dnsMark) = prefPrefix n ++ dnsMark := by
  have hplain : dnsMark.all isPlain = true := by decide
  unfold prefPrefix
  rw [urlEncode_append, urlEncode_plain (List.all_eq_true.mp hplain)]

/-- The one collision. -/
theorem key_port_dns (n : Str) : key (n ++ dnsMark) .port = key n .dnsPort := by
  rw [key, key, prefPrefix_dns, suffix_dnsPort, List.append_assoc]

/-- Keys with the shorter field first. -/
theorem key_eq_of_suffix {n m : Str} {f g : ProfileField} (h : key n f = key m g) (hs : f.suffix <:+ g.suffix) :
    (n = m ∧ f = g) ∨ (n = m ++ dnsMark ∧ f = .port ∧ g = .dnsPort) := by
  unfold key at h
  rcases suffix_cases hs with rfl | ⟨rfl, rfl⟩
  · exact .inl ⟨urlEncode_injective (List.append_cancel_right h), rfl⟩
  · refine .inr ⟨?_, rfl, rfl⟩
    rw [suffix_dnsPort, ← List.append_assoc] at h
    have hpre : prefPrefix n = prefPrefix (m ++ dnsMark) := by
      rw [prefPrefix_dns]
      exact List.append_cancel_right h
    exact urlEncode_injective hpre

/-- When two keys are one. -/
theorem key_eq_iff {n m : Str} {f g : ProfileField} : key n f = key m g ↔
    (n = m ∧ f = g) ∨ (n = m ++ dnsMark ∧ f = .port ∧ g = .dnsPort) ∨
      (m = n ++ dnsMark ∧ f = .dnsPort ∧ g = .port) := by
  constructor
  · intro h
    have hf : f.suffix <:+ key m g := h ▸ List.suffix_append _ _
    have hg : g.suffix <:+ key m g := List.suffix_append _ _
    -- both fields are ends of the one key, so one of them is an end of the other
    rcases Nat.le_total f.suffix.length g.suffix.length with hle | hle
    · rcases key_eq_of_suffix h (List.suffix_of_suffix_length_le hf hg hle) with hsame | hdns
      · exact .inl hsame
      · exact .inr (.inl hdns)
    · rcases key_eq_of_suffix h.symm (List.suffix_of_suffix_length_le hg hf hle) with ⟨hn, hfg⟩ | ⟨hm, hg', hf'⟩
      · exact .inl ⟨hn.symm, hfg.symm⟩
      · exact .inr (.inr ⟨hm, hf', hg'⟩)
  · rintro (⟨rfl, rfl⟩ | ⟨rfl, rfl, rfl⟩ | ⟨rfl, rfl, rfl⟩)
    · rfl
    · exact key_port_dns m
    · exact (key_port_dns n).symm

/-- One profile keeps its fields apart. -/
theorem key_injective {n : Str} {f g : ProfileField} (h : key n f = key n g) : f = g := by
  obtain ⟨_, hfg⟩ | ⟨hn, _⟩ | ⟨hn, _⟩ := key_eq_iff.mp h
  · exact hfg
  · exact absurd (List.self_eq_append_right.mp hn) (by decide)
  · exact absurd (List.self_eq_append_right.mp hn) (by decide)

/-! ## What writing a profile leaves alone -/

/-- The getters of `m` and the registry read the same in both stores. -/
structure Untouched (m : Str) (pref pref' : ProfileStore) : Prop where
  getters : ∀ g, getField pref' m g = getField pref m g
  profiles : pref'.get prefProfile = pref.get prefProfile
  last : pref'.get prefLastProfile = pref.get prefLastProfile

/-- The profile `n` never touches what belongs to `m`. -/
structure Separate (n m : Str) : Prop where
  keys : ∀ f g, key n f ≠ key m g
  registry : ∀ f, key n f ∉ [prefProfile, prefLastProfile]
  setter : ∀ pref f v, f.accepts v = true → Untouched m pref (setField pref n f v)
  delete : ∀ pref, Untouched m pref (delete pref n)
  copyTo : ∀ pref source, Untouched m pref (copyTo pref source n)

theorem key_not_registry (n : Str) (f : ProfileField) : key n f ∉ [prefProfile, prefLastProfile] := by
  simp only [List.mem_cons, List.not_mem_nil, or_false, not_or]
  exact ⟨key_ne_profile n f, key_ne_lastProfile n f⟩

/-- A batch over keys of `n` leaves the registry alone, and `m` where the keys differ. -/
theorem untouched_of_keys {n m : Str} (hkeys : ∀ f g, key n f ≠ key m g) {pref : ProfileStore}
    {puts : Puts Str PrefValue} (hputs : ∀ p ∈ puts, ∃ f, p.1 = key n f) : Untouched m pref (pref.edit puts) := by
  have hout : ∀ k, (∀ f, key n f ≠ k) → (pref.edit puts).get k = pref.get k := by
    intro k hk
    apply Entries.get_edit_of_notMem
    intro hmem
    obtain ⟨p, hp, rfl⟩ := List.mem_map.mp hmem
    obtain ⟨f, hf⟩ := hputs p hp
    exact hk f hf.symm
  refine ⟨fun g => ?_, hout _ (key_ne_profile n), hout _ (key_ne_lastProfile n)⟩
  rw [getField, getField, hout _ fun f => hkeys f g]

/-- Profiles without a common key do not touch each other. -/
theorem separate_of_keys {n m : Str} (hkeys : ∀ f g, key n f ≠ key m g) : Separate n m where
  keys := hkeys
  registry := key_not_registry n
  setter pref f v _ := untouched_of_keys hkeys (by simp)
  delete pref := by
    apply untouched_of_keys hkeys
    intro p hp
    obtain ⟨f, _, rfl⟩ := List.mem_map.mp hp
    exact ⟨f, rfl⟩
  copyTo pref source := by
    apply untouched_of_keys hkeys
    intro p hp
    obtain ⟨f, _, hf⟩ := List.mem_filterMap.mp hp
    obtain ⟨v, _, rfl⟩ := Option.map_eq_some_iff.mp hf
    exact ⟨f, rfl⟩

/-- **Profiles are separate** unless one name is the other with `dns_` behind it. -/
theorem separate_iff {n m : Str} (hne : n ≠ m) : Separate n m ↔ n ≠ m ++ dnsMark ∧ m ≠ n ++ dnsMark := by
  constructor
  · intro h
    refine ⟨?_, ?_⟩
    · rintro rfl
      exact h.keys .port .dnsPort (key_port_dns m)
    · rintro rfl
      exact h.keys .dnsPort .port (key_port_dns n).symm
  · rintro ⟨hn, hm⟩
    apply separate_of_keys
    intro f g he
    rcases key_eq_iff.mp he with ⟨hsame, _⟩ | ⟨hdns, _⟩ | ⟨hdns, _⟩
    · exact hne hsame
    · exact hn hdns
    · exact hm hdns

theorem separate_iff_work : "work".toList ≠ "home".toList ∧ Separate "work".toList "home".toList :=
  ⟨by decide, (separate_iff (by decide)).mpr ⟨by decide, by decide⟩⟩

/-- The port of `homedns_` is the DNS port of `home`. -/
theorem separate_dns_fails : ¬ ∀ n m : Str, trim n ≠ [] → trim m ≠ [] → n ≠ m → Separate n m := by
  intro h
  have hsep := h "homedns_".toList "home".toList (by decide) (by decide) (by decide)
  exact hsep.keys .port .dnsPort (key_port_dns "home".toList)

end Profile

end KiloProxy.Util
