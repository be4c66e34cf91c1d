import KiloProxy.Util.StoredNames

/-!
# Old keys beside new ones

Both layouts keep the small letters of a name and add none, so an old key of a name is
never a new key of it. What a migration leaves under a key, whatever the iteration order,
is settled by three things: the old key that moves there, whether the key itself begins
like an old one, and what it held (`init_orders_iff`).
-/

namespace KiloProxy.Util
set_option autoImplicit false
open KiloProxy.Text KiloProxy.Store

namespace Profile

/-! ## The letters of a prefix -/

/-- Old prefixes keep the small letters of the name. -/
theorem letters_legacyPrefix (n : Str) : (legacyPrefix n).countP isLowerAscii = n.countP isLowerAscii := by
  rw [legacyPrefix_eq]
  induction n with
  | nil => rfl
  | cons c n ih =>
    rw [List.flatMap_cons, List.countP_append, ih, List.countP_cons, Nat.add_comm]
    congr 1
    unfold legacyChar
    split
    · rename_i h
      rw [h]
      decide
    · split
      · rename_i h
        rw [h]
        decide
      · rw [List.countP_singleton]

theorem letters_percentByte (b : UInt8) : (percentByte b).countP isLowerAscii = 0 := by
  have hlow : ∀ n < 16, isLowerAscii (hexDigit n) = false := by decide
  have h₁ := hlow (b.toNat / 16) (by have := b.toNat_lt; omega)
  have h₂ := hlow (b.toNat % 16) (Nat.mod_lt _ (by decide))
  have h₀ : isLowerAscii '%' = false := by decide
  simp only [percentByte, List.countP_cons, List.countP_nil, h₀, h₁, h₂]
  decide

/-- The encoding of a character keeps its small letter. -/
theorem letters_encodeChar (c : Char) : (encodeChar c).countP isLowerAscii = if isLowerAscii c = true then 1 else 0 := by
  unfold encodeChar
  split
  · rw [List.countP_singleton]
  · rename_i hreserved
    have hlow : isLowerAscii c ≠ true := fun h => hreserved (isUnreserved_of_plain (isPlain_of_lower h))
    rw [if_neg hlow]
    split
    · decide
    · rw [List.countP_eq_zero]
      intro x hx
      obtain ⟨b, _, hxb⟩ := List.mem_flatMap.mp hx
      exact List.countP_eq_zero.mp (letters_percentByte b) x hxb

theorem letters_prefPrefix (n : Str) : (prefPrefix n).countP isLowerAscii = n.countP isLowerAscii := by
  show (urlEncode n).countP isLowerAscii = _
  induction n with
  | nil => rfl
  | cons c n ih => rw [urlEncode_cons, List.countP_append, ih, letters_encodeChar, List.countP_cons, Nat.add_comm]

/-- An old key of a name is no new one of it. -/
theorem old_ne_key {n : Str} (hne : legacyPrefix n ≠ prefPrefix n) (f g : ProfileField) :
    legacyPrefix n ++ f.suffix ≠ key n g := by
  intro h
  unfold key at h
  have hcount := congrArg (List.countP isLowerAscii) h
  rw [List.countP_append, List.countP_append, letters_legacyPrefix, letters_prefPrefix] at hcount
  have hsuffix : f.suffix <:+ g.suffix ∨ g.suffix <:+ f.suffix := by
    have hf : f.suffix <:+ prefPrefix n ++ g.suffix := h ▸ List.suffix_append _ _
    rcases Nat.le_total f.suffix.length g.suffix.length with hle | hle
    · exact .inl (List.suffix_of_suffix_length_le hf (List.suffix_append _ _) hle)
    · exact .inr (List.suffix_of_suffix_length_le (List.suffix_append _ _) hf hle)
  -- `dns_port` has three letters more than `port`
  have hmore : ProfileField.port.suffix.countP isLowerAscii ≠ ProfileField.dnsPort.suffix.countP isLowerAscii := by
    decide
  rcases hsuffix with hs | hs
  · rcases suffix_cases hs with rfl | ⟨rfl, rfl⟩
    · exact hne (List.append_cancel_right h)
    · exact hmore (by omega)
  · rcases suffix_cases hs with rfl | ⟨rfl, rfl⟩
    · exact hne (List.append_cancel_right h)
    · exact hmore (by omega)

/-! ## What a migration leaves under a key -/

/-- What is read under a key after a migration, in every iteration order. -/
theorem init_orders_iff {pref : ProfileStore} {name : Str} (hmig : Migrates pref name) {k : Str} {d v : PrefValue} :
    (∀ all, all.Perm pref.list → ((init pref all name).get k).getD d = v) ↔
      (∀ suf, prefPrefix name ++ suf = k → ∀ w, pref.get (legacyPrefix name ++ suf) = some w → w = v) ∧
      (startsWith k (legacyPrefix name) = true → pref.get k ≠ none → d = v) ∧
      ((∀ suf, prefPrefix name ++ suf = k → pref.get (legacyPrefix name ++ suf) = none) →
        ¬ (startsWith k (legacyPrefix name) = true ∧ pref.get k ≠ none) → (pref.get k).getD d = v) := by
  constructor
  · intro h
    have hleft : ∀ {r}, Left pref name k r → r.getD d = v := by
      intro r hr
      obtain ⟨all, hall, rfl⟩ := hr.exists_init hmig
      exact h all hall
    exact ⟨fun suf hk w hget => hleft (.moved hk hget), fun hpre hsome => hleft (.gone hpre hsome),
      fun hnone hstay => hleft (.kept hnone hstay)⟩
  · rintro ⟨hmoved, hgone, hkept⟩ all hall
    have hleft := init_left hmig hall k
    generalize (init pref all name).get k = r at hleft ⊢
    cases hleft with
    | moved hk hget => exact hmoved _ hk _ hget
    | gone hpre hsome => exact hgone hpre hsome
    | kept hnone hstay => exact hkept hnone hstay

end Profile

end KiloProxy.Util
