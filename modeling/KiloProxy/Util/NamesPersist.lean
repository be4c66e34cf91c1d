import KiloProxy.Util.Mutators

/-!
# Names through the stored list

A name that is added or renamed to goes into the list in memory, the list goes into one
text, and the mutator reads the text back. The list that comes back is the one that was
meant exactly when the name has no line break: a name with one comes back in pieces.
-/

namespace KiloProxy.Util
set_option autoImplicit false
open KiloProxy.Text KiloProxy.Store KiloProxy.Run

namespace ProfileManager

/-- The calls that bring a name into the list. -/
inductive Naming where
  | add (name : Str)
  | rename (oldName newName : Str)

namespace Naming

def action : Naming → Action
  | add name => .addProfile name
  | rename oldName newName => .renameProfile oldName newName

/-- The name the call brings in. -/
def name : Naming → Str
  | add name => name
  | rename _ newName => newName

/-- The list the call means to leave. -/
def intended (s : ProfileManager) : Naming → List Str
  | add name => s.mProfiles ++ [name]
  | rename oldName newName => s.mProfiles.set (s.mProfiles.idxOf oldName) newName

/-- The call does not turn the name down: it returns a profile or true, or throws. -/
def Accepted (s : ProfileManager) : Naming → Prop
  | add name => s.addProfileResult name ≠ .ok none
  | rename oldName newName => s.renameProfileResult oldName newName = true

/-- An added profile is the one that is returned. -/
def Returned (s : ProfileManager) : Naming → Prop
  | add name => s.addProfileResult name = .ok (some name)
  | rename _ _ => True

/-- Where the new name goes: a rename needs the old name's place. -/
def HasPlace (s : ProfileManager) : Naming → Prop
  | add _ => True
  | rename oldName _ => oldName ∈ s.mProfiles

end Naming

/-- The list comes back as it was meant, with the name in it, now and at the next reload, and
`addProfile` returns that profile. -/
structure Persists (s : ProfileManager) (c : Naming) (s' : ProfileManager) : Prop where
  list : s'.mProfiles = c.intended s
  stored : storedProfiles s'.pref = c.intended s
  listed : c.name ∈ s'.mProfiles
  returned : c.Returned s

/-! ## What is accepted -/

/-- A name is accepted unless it is taken. -/
theorem addProfile_accepted {s : ProfileManager} {name : Str} :
    (Naming.add name).Accepted s ↔ name ∉ s.mProfiles := by
  show s.addProfileResult name ≠ .ok none ↔ _
  unfold addProfileResult getDefaultResult
  constructor
  · intro h hmem
    exact h (if_pos hmem)
  · intro hnew h
    rw [if_neg hnew] at h
    split at h
    · cases h
    · cases h

/-- A rename is accepted when it changes nothing or may rename. -/
theorem renameProfile_accepted {s : ProfileManager} {oldName newName : Str} :
    (Naming.rename oldName newName).Accepted s ↔ oldName = newName ∨ Renames s oldName newName := by
  show s.renameProfileResult oldName newName = true ↔ _
  unfold renameProfileResult Renames
  by_cases hsame : oldName = newName
  · rw [if_pos hsame]
    exact ⟨fun _ => .inl hsame, fun _ => rfl⟩
  · rw [if_neg hsame]
    by_cases hold : oldName ∈ s.mProfiles
    · rw [if_neg (not_not_intro hold)]
      by_cases hguard : oldName = s.mProfiles.headD profDefault ∨ newName ∈ s.mProfiles
      · rw [if_pos hguard]
        constructor
        · intro h
          cases h
        · rintro (h | ⟨_, _, hhead, hnew⟩)
          · exact absurd h hsame
          · exact absurd hguard (not_or.mpr ⟨hhead, hnew⟩)
      · rw [if_neg hguard]
        rw [not_or] at hguard
        exact ⟨fun _ => .inr ⟨hsame, hold, hguard.1, hguard.2⟩, fun _ => rfl⟩
    · rw [if_pos hold]
      constructor
      · intro h
        cases h
      · rintro (h | h)
        · exact absurd h hsame
        · exact absurd h.2.1 hold

/-! ## What comes back -/

/-- The caller is told so exactly when the name is on the list afterwards. -/
theorem addProfileResult_listed {s : ProfileManager} {name : Str} (hnew : name ∉ s.mProfiles) :
    s.addProfileResult name = .ok (some name) ↔ name ∈ (s.register name).mProfiles := by
  unfold addProfileResult getDefaultResult
  rw [if_neg hnew, register_lastProfile]
  split
  · rename_i hmem
    exact ⟨fun _ => hmem, fun _ => rfl⟩
  · rename_i hout
    constructor
    · intro h
      cases h
    · intro h
      exact absurd h hout

/-- A name put in its own place changes nothing. -/
theorem set_idxOf_self (l : List Str) (n : Str) : l.set (l.idxOf n) n = l := by
  by_cases hn : n ∈ l
  · have hlt : l.idxOf n < l.length := List.idxOf_lt_length_of_mem hn
    have hget : l[l.idxOf n] = n := List.getElem_idxOf hlt
    calc l.set (l.idxOf n) n = l.set (l.idxOf n) l[l.idxOf n] := by rw [hget]
      _ = l := List.set_getElem_self hlt
  · exact List.set_eq_of_length_le (List.idxOf_eq_length_iff.mpr hn).ge

section

variable {s s' : ProfileManager} {all : List (Str × PrefValue)}

/-- The list in memory after an accepted name that fits on a line. -/
theorem Reloaded.intended (h : Reloaded s) {c : Naming} (hne : c.name ≠ []) (hline : '\n' ∉ c.name)
    (haccepted : c.Accepted s) (hs : system.step s (c.action, all) = some s') : s'.mProfiles = c.intended s := by
  cases c with
  | add name =>
    obtain hsame | ⟨hnew, hgot⟩ := addProfile_cases hs
    · exact absurd hsame.1 (addProfile_accepted.mp haccepted)
    · exact hgot.list.trans (h.register_names ⟨hne, hline⟩ hnew)
  | rename oldName newName =>
    obtain ⟨hnot, rfl⟩ | ⟨⟨hdiffer, hold, hhead, hnew⟩, t, hgot, rfl⟩ := renameProfile_cases hs
    · obtain rfl := (renameProfile_accepted.mp haccepted).resolve_right hnot
      exact (set_idxOf_self _ _).symm
    · have hname : Listable newName := ⟨hne, hline⟩
      rw [h.head] at hhead
      rw [← hgot.list] at hnew
      rw [(h.got hgot).rename_names hhead hname hnew, hgot.list]
      rfl

/-- **Names survive** exactly when they have no line break; a name renamed to itself has to be
there. -/
theorem names_persist_iff (hreach : Reachable system s) {c : Naming} (htrim : trim c.name = c.name)
    (hne : c.name ≠ []) (haccepted : c.Accepted s) (hs : system.step s (c.action, all) = some s') :
    Persists s c s' ↔ '\n' ∉ c.name ∧ c.HasPlace s := by
  have h : Reloaded s := reachable_reloaded hreach
  have h' : Reloaded s' := h.step hs
  constructor
  · intro hp
    refine ⟨h'.oneLine hp.listed, ?_⟩
    cases c with
    | add name => trivial
    | rename oldName newName =>
      obtain ⟨hnot, rfl⟩ | hr := renameProfile_cases hs
      · obtain rfl := (renameProfile_accepted.mp haccepted).resolve_right hnot
        exact hp.listed
      · exact hr.1.2.1
  · rintro ⟨hline, hplace⟩
    have hlist := h.intended hne hline haccepted hs
    have hlisted : c.name ∈ s'.mProfiles := by
      rw [hlist]
      cases c with
      | add name => exact List.mem_append_right _ List.mem_cons_self
      | rename oldName newName => exact List.mem_set (List.idxOf_lt_length_of_mem hplace) newName
    refine ⟨hlist, h'.symm.trans hlist, hlisted, ?_⟩
    cases c with
    | add name =>
      have hname : Listable name := ⟨hne, hline⟩
      have hnew := addProfile_accepted.mp haccepted
      apply (addProfileResult_listed hnew).mpr
      rw [h.register_names hname hnew]
      exact List.mem_append_right _ List.mem_cons_self
    | rename oldName newName => trivial

end

/-- `Work` on a fresh store. -/
theorem names_persist_work : ∃ s', system.step (opened Entries.empty) (.addProfile "Work".toList,
      [(prefProfile, .string "Work".toList), (prefLastProfile, .string "Work".toList)]) = some s' ∧
    Persists (opened Entries.empty) (.add "Work".toList) s' := by
  have hsome : (system.step (opened Entries.empty) (.addProfile "Work".toList,
      [(prefProfile, .string "Work".toList), (prefLastProfile, .string "Work".toList)])).isSome = true := by
    decide +kernel
  obtain ⟨s', hstep⟩ := Option.isSome_iff_exists.mp hsome
  have haccepted : (Naming.add "Work".toList).Accepted (opened Entries.empty) :=
    addProfile_accepted.mpr (by decide +kernel)
  have hiff : Persists (opened Entries.empty) (.add "Work".toList) s' ↔ _ :=
    names_persist_iff (opened_reachable _) (by decide +kernel) (by decide) haccepted hstep
  exact ⟨s', hstep, hiff.mpr ⟨by decide, trivial⟩⟩

/-- `a`, a line break and `b` come back as two names, and `addProfile` throws. -/
theorem line_break_splits : ¬ ∀ s s' all c, Reachable system s → trim (Naming.name c) = c.name → c.name ≠ [] →
    c.Accepted s → system.step s (c.action, all) = some s' → Persists s c s' := by
  intro h
  have hsome : ((system.step (opened Entries.empty) (.addProfile "a\nb".toList, [])).map
      fun s' => s'.mProfiles) = some [profDefault, "a".toList, "b".toList] := by
    decide +kernel
  obtain ⟨s', hstep, hlist⟩ := Option.map_eq_some_iff.mp hsome
  have haccepted : (Naming.add "a\nb".toList).Accepted (opened Entries.empty) :=
    addProfile_accepted.mpr (by decide +kernel)
  have hp := h _ s' _ (.add "a\nb".toList) (opened_reachable _) (by decide +kernel) (by decide) haccepted hstep
  have hlisted := hp.listed
  rw [hlist] at hlisted
  exact absurd hlisted (by decide)

end ProfileManager

end KiloProxy.Util
