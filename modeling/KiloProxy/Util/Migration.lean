import KiloProxy.Util.Readings

/-!
# The migration of old profile keys

The constructor moves every key that starts with the old prefix of its name. Such a
key may belong to another profile: the old prefix of `a b` is the new prefix of `a_b`,
and that of `My Proxy` begins every old key of `My Proxy 2`. A migration is clean when no
key it moves is one that a getter of another registered profile depends on, nor a current
key of its own, none lands on one that holds another value, and none lands on the old
server key again.
-/

namespace KiloProxy.Util
set_option autoImplicit false
open KiloProxy.Text KiloProxy.Store KiloProxy.Run

namespace Profile

/-- The value of a field that is the profile's own: the one under its key, or the one
an old layout holds. -/
def ownValue (pref : ProfileStore) (name : Str) (f : ProfileField) : Option PrefValue :=
  match pref.get (key name f) with
  | some v => some v
  | none => if Migrates pref name then pref.get (legacyPrefix name ++ f.suffix) else none

/-- The keys that the getters of `m` depend on: its current ones and, as long as it is not
alive, its old server key, and if that is stored all its old ones. -/
def watched (pref : ProfileStore) (alive : List Str) (m : Str) : List Str :=
  ProfileField.all.map (key m) ++
    if m ∈ alive then []
    else if Migrates pref m then ProfileField.all.map fun f => legacyPrefix m ++ f.suffix
    else [legacyPrefix m ++ "server".toList]

/-- The migration of `name`, which is alive by then, leaves the keys others depend on alone. -/
def CleanMigration (pref : ProfileStore) (registered alive : List Str) (name : Str) : Prop :=
  Migrates pref name → ∀ suf v, pref.get (legacyPrefix name ++ suf) = some v →
    (∀ m ∈ registered, ∀ k ∈ watched pref (name :: alive) m, legacyPrefix name ++ suf ≠ k ∧
      (prefPrefix name ++ suf = k → pref.get k = some v ∨ (m = name ∧ pref.get k = none))) ∧
    prefPrefix name ++ suf ≠ legacyPrefix name ++ "server".toList

/-- The condition, read off the entries of the store. -/
theorem cleanMigration_iff {pref : ProfileStore} {registered alive : List Str} {name : Str} :
    CleanMigration pref registered alive name ↔
      (Migrates pref name → ∀ e ∈ pref.list, startsWith e.1 (legacyPrefix name) = true →
        (∀ m ∈ registered, ∀ k ∈ watched pref (name :: alive) m, e.1 ≠ k ∧
          (prefPrefix name ++ removePrefix e.1 (legacyPrefix name) = k →
            pref.get k = some e.2 ∨ (m = name ∧ pref.get k = none))) ∧
        prefPrefix name ++ removePrefix e.1 (legacyPrefix name) ≠ legacyPrefix name ++ "server".toList) := by
  constructor
  · rintro h hmig ⟨k, v⟩ he hpre
    obtain ⟨suf, rfl⟩ := List.isPrefixOf_iff_prefix.mp hpre
    rw [removePrefix_append]
    exact h hmig suf v (Entries.mem_list_iff.mp he)
  · intro h hmig suf v hget
    have hrow := h hmig _ (Entries.mem_list_iff.mpr hget) (startsWith_append _ _)
    rwa [removePrefix_append] at hrow

instance (pref : ProfileStore) (registered alive : List Str) (name : Str) :
    Decidable (CleanMigration pref registered alive name) :=
  @decidable_of_iff _ _ cleanMigration_iff.symm (@instDecidableForall _ _ inferInstance (List.decidableBAll _ _))

end Profile

/-- A construction that does what the migration is for: what the getters of the other
registered profiles may return stays, be they alive or yet to be built. -/
structure Construction.Harmless (c : Construction) : Prop where
  others : ∀ m ∈ c.registered, m ≠ c.name → ∀ f,
    Profile.readings c.after (m ∈ c.alive) m f = Profile.readings c.before (m ∈ c.alive) m f
  own : ∀ f v, Profile.ownValue c.before c.name f = some v → c.after.get (Profile.key c.name f) = some v
  again : ∀ all, all.Perm c.after.list → (Profile.init c.after all c.name).get = c.after.get

namespace Profile

section Watched

variable {pref : ProfileStore} {alive : List Str} {m : Str}

theorem key_watched (f : ProfileField) : key m f ∈ watched pref alive m :=
  List.mem_append_left _ (List.mem_map_of_mem f.mem_all)

theorem old_watched (hdead : m ∉ alive) (hmig : Migrates pref m) (f : ProfileField) :
    legacyPrefix m ++ f.suffix ∈ watched pref alive m := by
  unfold watched
  rw [if_neg hdead, if_pos hmig]
  exact List.mem_append_right _ (List.mem_map_of_mem (f := fun f => legacyPrefix m ++ f.suffix) f.mem_all)

/-- The old server key of a profile that is not built decides whether it migrates. -/
theorem server_watched (hdead : m ∉ alive) : legacyPrefix m ++ "server".toList ∈ watched pref alive m := by
  by_cases hmig : Migrates pref m
  · exact old_watched hdead hmig .server
  · unfold watched
    rw [if_neg hdead, if_neg hmig]
    exact List.mem_append_right _ (List.mem_singleton_self _)

/-- Where the watched keys keep their values, the getters do. -/
theorem readings_of_watched {pref' : ProfileStore} (h : ∀ k ∈ watched pref alive m, pref'.get k = pref.get k)
    (f : ProfileField) : readings pref' (m ∈ alive) m f = readings pref (m ∈ alive) m f := by
  apply readings_congr (h _ (key_watched f))
  · intro hdead
    exact h _ (server_watched (of_decide_eq_false hdead))
  · intro hdead hmig
    exact h _ (old_watched (of_decide_eq_false hdead) hmig f)

end Watched

section Clean

variable {pref : ProfileStore} {all : List (Str × PrefValue)} {registered alive : List Str} {name : Str}
  (hall : all.Perm pref.list) (hclean : CleanMigration pref registered alive name) (hmig : Migrates pref name)
include hall hclean hmig

/-- No moved key is watched. -/
theorem source_ne {m k : Str} (hm : m ∈ registered) (hk : k ∈ watched pref (name :: alive) m) :
    ∀ mv ∈ all.filterMap (legacyMove name), mv.source ≠ k := by
  intro mv hmv
  obtain ⟨suf, hs, _, hget⟩ := (mem_moves hall).mp hmv
  rw [hs]
  exact ((hclean hmig suf _ hget).1 m hm k hk).1

/-- What is moved onto a watched key is its value already, or it is the profile's own
and was empty. -/
theorem target_value {m k : Str} (hm : m ∈ registered) (hk : k ∈ watched pref (name :: alive) m) :
    ∀ mv ∈ all.filterMap (legacyMove name), mv.target = k →
      pref.get k = some mv.value ∨ (m = name ∧ pref.get k = none) := by
  intro mv hmv ht
  obtain ⟨suf, _, ht', hget⟩ := (mem_moves hall).mp hmv
  exact ((hclean hmig suf _ hget).1 m hm k hk).2 (ht'.symm.trans ht)

/-- The watched keys of the other profiles keep their values. -/
theorem edit_others {m k : Str} (hm : m ∈ registered) (hne : m ≠ name) (hk : k ∈ watched pref (name :: alive) m) :
    putAll (movePuts (all.filterMap (legacyMove name))) pref.get k = pref.get k := by
  have hs := source_ne hall hclean hmig hm hk
  have ht := target_value hall hclean hmig hm hk
  by_cases htarget : ∃ mv ∈ all.filterMap (legacyMove name), mv.target = k
  · obtain ⟨mv, hmv, he⟩ := htarget
    have hval := (ht mv hmv he).resolve_right fun h => hne h.1
    rw [hval]
    apply putAll_move_target hs _ (.inl hval)
    intro mv' hmv' he'
    have hval' := (ht mv' hmv' he').resolve_right fun h => hne h.1
    rw [hval] at hval'
    exact (Option.some.inj hval').symm
  · apply putAll_move_other hs
    intro mv hmv he
    exact htarget ⟨mv, hmv, he⟩

/-- The profile's own values are under its keys afterwards. -/
theorem edit_own (hname : name ∈ registered) {f : ProfileField} {v : PrefValue} (hv : ownValue pref name f = some v) :
    putAll (movePuts (all.filterMap (legacyMove name))) pref.get (key name f) = some v := by
  have hs := source_ne hall hclean hmig hname (key_watched f)
  have ht := target_value hall hclean hmig hname (key_watched f)
  unfold ownValue at hv
  split at hv
  · rename_i w hw
    obtain rfl := Option.some.inj hv
    apply putAll_move_target hs _ (.inl hw)
    intro mv hmv he
    rcases ht mv hmv he with h | ⟨_, h⟩
    · rw [hw] at h; exact (Option.some.inj h).symm
    · rw [hw] at h; cases h
  · rw [if_pos hmig] at hv
    apply putAll_move_target hs
    · intro mv hmv he
      obtain ⟨suf, _, ht', hget⟩ := (mem_moves hall).mp hmv
      have hsuf : suf = f.suffix := List.append_cancel_left (ht'.symm.trans he)
      rw [hsuf, hv] at hget
      exact (Option.some.inj hget).symm
    · refine .inr ⟨⟨legacyPrefix name ++ f.suffix, prefPrefix name ++ f.suffix, v⟩, ?_, rfl⟩
      exact (mem_moves hall).mpr ⟨f.suffix, rfl, rfl, hv⟩

/-- The old server key is gone afterwards. -/
theorem edit_server :
    putAll (movePuts (all.filterMap (legacyMove name))) pref.get (legacyPrefix name ++ "server".toList) = none := by
  obtain ⟨v, hv⟩ := Option.isSome_iff_exists.mp hmig.2
  apply putAll_move_source
  · intro mv hmv
    obtain ⟨suf, _, ht, hget⟩ := (mem_moves hall).mp hmv
    rw [ht]
    exact (hclean hmig suf _ hget).2
  · exact .inr ⟨⟨_, prefPrefix name ++ "server".toList, v⟩, (mem_moves hall).mpr ⟨_, rfl, rfl, hv⟩, rfl⟩

end Clean

/-- A clean construction is harmless. -/
theorem init_harmless {pref : ProfileStore} {all : List (Str × PrefValue)} {registered alive : List Str} {name : Str}
    (hall : all.Perm pref.list) (hname : name ∈ registered) (hclean : CleanMigration pref registered alive name) :
    Construction.Harmless ⟨name, registered, alive, pref, init pref all name⟩ := by
  by_cases hmig : Migrates pref name
  · have hinit : (init pref all name).get = putAll (movePuts (all.filterMap (legacyMove name))) pref.get := by
      rw [init_eq, if_pos hmig, Entries.get_edit]
    refine ⟨fun m hm hne f => ?_, fun f v hv => ?_, fun all' _ => ?_⟩
    · have hstill : m ∈ name :: alive ↔ m ∈ alive := by
        rw [List.mem_cons]
        exact ⟨fun h => h.resolve_left hne, .inr⟩
      have hkeep : ∀ k ∈ watched pref alive m, (init pref all name).get k = pref.get k := by
        intro k hk
        rw [hinit]
        apply edit_others hall hclean hmig hm hne
        unfold watched at hk ⊢
        simpa only [hstill] using hk
      exact readings_of_watched hkeep f
    · show (init pref all name).get (key name f) = some v
      rw [hinit]
      exact edit_own hall hclean hmig hname hv
    · show (init (init pref all name) all' name).get = (init pref all name).get
      rw [init_eq (init pref all name), if_neg]
      rintro ⟨_, hserver⟩
      rw [Entries.contains, hinit, edit_server hall hclean hmig] at hserver
      cases hserver
  · have hinit : ∀ all, init pref all name = pref := fun all => by rw [init_eq, if_neg hmig]
    refine ⟨fun m _ _ f => by rw [hinit], fun f v hv => ?_, fun all' _ => by simp only [hinit]⟩
    show (init pref all name).get (key name f) = some v
    rw [hinit]
    unfold ownValue at hv
    split at hv
    · rename_i hget; rw [hget, hv]
    · rw [if_neg hmig] at hv; cases hv

end Profile

/-! ## Runs of the registry -/

namespace ProfileManager

/-- The registry at which `getProfile` asks the factory, and the name. -/
def asked (s : ProfileManager) (name : Str) : Option (ProfileManager × Str) :=
  if name ∈ s.mProfiles then some (s, name) else none

/-- The registry at which a call asks the factory, and the name. -/
def building (s : ProfileManager) : Action → Option (ProfileManager × Str)
  | .getProfile name => s.asked name
  | .getDefault => s.asked s.lastProfile
  | .addProfile name =>
    if name ∈ s.mProfiles then none else (s.register name).asked (s.register name).lastProfile
  | .removeProfile name => if name = s.mProfiles.headD profDefault then none else s.asked name
  | .renameProfile oldName newName =>
    if oldName = newName ∨ oldName = s.mProfiles.headD profDefault ∨ newName ∈ s.mProfiles then none
    else s.asked oldName
  | _ => none

/-- When the call builds a profile, the migration it runs is clean. -/
def CleanStep (s : ProfileManager) (a : Action × List (Str × PrefValue)) : Prop :=
  ∀ p ∈ s.building a.1, p.2 ∉ p.1.cached → Profile.CleanMigration p.1.pref p.1.mProfiles p.1.cached p.2

instance (s : ProfileManager) (a : Action × List (Str × PrefValue)) : Decidable (CleanStep s a) := by
  unfold CleanStep; infer_instance

/-- `s'` records what `s` does, and at most the construction of `name` at `s₁`. -/
def Builds (s s' : ProfileManager) (all : List (Str × PrefValue)) (asks : Option (ProfileManager × Str)) : Prop :=
  s'.built = s.built ∨ ∃ s₁ name, asks = some (s₁, name) ∧ name ∉ s₁.cached ∧ name ∈ s₁.mProfiles ∧
    all.Perm s₁.pref.list ∧
    s'.built = s.built ++ [⟨name, s₁.mProfiles, s₁.cached, s₁.pref, Profile.init s₁.pref all name⟩]

/-- Registering, unregistering and renaming build nothing themselves. -/
theorem register_built (s : ProfileManager) (name : Str) : (s.register name).built = s.built := by
  rw [register, reload]

theorem unregister_built (s : ProfileManager) (name : Str) : (s.unregister name).built = s.built := by
  rw [unregister, reload]

theorem rename_built (s : ProfileManager) (oldName newName : Str) : (s.rename oldName newName).built = s.built := by
  rw [rename, reload]

theorem switchDefault_built (s : ProfileManager) (name : Str) : (s.switchDefault name).built = s.built := by
  unfold switchDefault
  split
  · rfl
  · rfl

theorem Builds.congr {s s' t t' : ProfileManager} {all : List (Str × PrefValue)} {asks : Option (ProfileManager × Str)}
    (h : Builds s s' all asks) (hs : t.built = s.built) (hs' : t'.built = s'.built) : Builds t t' all asks := by
  rcases h with h | ⟨s₁, name, hasks, hnew, hreg, hall, hbuilt⟩
  · exact .inl (by rw [hs, hs', h])
  · exact .inr ⟨s₁, name, hasks, hnew, hreg, hall, by rw [hs, hs', hbuilt]⟩

theorem getProfile_builds {s s' : ProfileManager} {all : List (Str × PrefValue)} {name : Str}
    (h : s.getProfile all name = some s') : Builds s s' all (s.asked name) := by
  unfold getProfile at h
  split at h
  · rename_i hreg
    unfold factoryGetProfile at h
    split at h
    · obtain rfl := Option.some.inj h
      exact .inl rfl
    · rename_i hnew
      split at h
      · rename_i hall
        obtain rfl := Option.some.inj h
        exact .inr ⟨s, name, if_pos hreg, hnew, hreg, hall, rfl⟩
      · cases h
  · obtain rfl := Option.some.inj h
    exact .inl rfl

/-- A step builds the profile it asks for and no other. -/
theorem step_builds {s s' : ProfileManager} {a : Action × List (Str × PrefValue)} (h : step s a = some s') :
    Builds s s' a.2 (s.building a.1) := by
  obtain ⟨act, all⟩ := a
  cases act with
  | getProfile name => exact getProfile_builds h
  | getDefault => exact getProfile_builds h
  | addProfile name =>
    replace h : s.addProfile all name = some s' := h
    unfold addProfile at h
    split at h
    · obtain rfl := Option.some.inj h
      exact .inl rfl
    · rename_i hnew
      show Builds _ _ _ (if _ then _ else _)
      rw [if_neg hnew]
      exact (getProfile_builds (s := s.register name) h).congr (register_built s name).symm rfl
  | removeProfile name =>
    replace h : s.removeProfile all name = some s' := h
    unfold removeProfile at h
    split at h
    · obtain rfl := Option.some.inj h
      exact .inl rfl
    · rename_i hguard
      obtain ⟨s₂, hget, rfl⟩ := Option.map_eq_some_iff.mp h
      show Builds _ _ _ (if _ then _ else _)
      rw [if_neg fun hhead => hguard (.inl hhead)]
      exact (getProfile_builds hget).congr rfl (unregister_built s₂ name)
  | renameProfile oldName newName =>
    replace h : s.renameProfile all oldName newName = some s' := h
    unfold renameProfile at h
    split at h
    · obtain rfl := Option.some.inj h
      exact .inl rfl
    · rename_i hguard
      obtain ⟨s₂, hget, rfl⟩ := Option.map_eq_some_iff.mp h
      show Builds _ _ _ (if _ then _ else _)
      rw [if_neg fun hc => hguard (hc.imp id .inr)]
      exact (getProfile_builds hget).congr rfl (rename_built s₂ oldName newName)
  | switchDefault name =>
    have he : s.switchDefault name = s' := Option.some.inj h
    exact .inl (by rw [← he, switchDefault_built])
  | reload =>
    have he : s.reload = s' := Option.some.inj h
    exact .inl (by rw [← he, reload])
  | setField name f v =>
    replace h : (if _ then some _ else none) = some s' := h
    split at h
    · obtain rfl := Option.some.inj h
      exact .inl rfl
    · cases h
  | collect name =>
    obtain rfl := Option.some.inj h
    exact .inl rfl

/-- A clean call records harmless constructions only. -/
theorem step_harmless {s s' : ProfileManager} {a : Action × List (Str × PrefValue)}
    (hs : ∀ c ∈ s.built, c.Harmless) (hclean : CleanStep s a) (h : step s a = some s') :
    ∀ c ∈ s'.built, c.Harmless := by
  intro c hc
  rcases step_builds h with hsame | ⟨s₁, name, hasks, hnew, hreg, hall, hbuilt⟩
  · rw [hsame] at hc
    exact hs c hc
  · rw [hbuilt, List.mem_append, List.mem_singleton] at hc
    rcases hc with hc | rfl
    · exact hs c hc
    · exact Profile.init_harmless hall hreg (hclean (s₁, name) hasks hnew)

/-- **Clean migrations stay within their profile**, in every run. -/
theorem migration_harmless {s : ProfileManager} (h : Reaches system CleanStep s) :
    ∀ c ∈ s.built, c.Harmless := by
  apply Reaches.invariant (P := fun s => ∀ c ∈ s.built, Construction.Harmless c) _ _ h
  · intro s hs c hc
    rw [hs.2.2] at hc
    cases hc
  · intro s a s' hs hclean hstep
    exact step_harmless hs hclean hstep

/-- An old store with the profiles `a b` and `c d`. -/
def oldLayout : ProfileManager where
  pref := ⟨[(prefProfile, .string "a b\nc d".toList), ("a_bserver".toList, .string "10.0.0.1".toList),
    ("c_dserver".toList, .string "10.0.0.2".toList)], by decide +kernel⟩
  mProfiles := [profDefault, "a b".toList, "c d".toList]
  cached := []
  built := []

/-- `a b` moves to the new layout. -/
theorem migration_harmless_old :
    ∃ s, Reaches system CleanStep s ∧ (s.built.map Construction.name) = ["a b".toList] ∧ ∀ c ∈ s.built, c.Harmless := by
  have hinit : Reaches system CleanStep oldLayout := .start ⟨by decide +kernel, rfl, rfl⟩
  have hsome : ((system.step oldLayout (.getProfile "a b".toList, oldLayout.pref.list)).map
      fun s => s.built.map Construction.name) = some ["a b".toList] := by decide +kernel
  obtain ⟨s, hstep, hbuilt⟩ := Option.map_eq_some_iff.mp hsome
  have hs : Reaches system CleanStep s := hinit.next (by decide +kernel) hstep
  exact ⟨s, hs, hbuilt, migration_harmless hs⟩

/-- Nothing stored yet. -/
def fresh : ProfileManager := ⟨Entries.empty, [profDefault], [], []⟩

/-- Add `a_b`, set its server, add `a b`. -/
def underscoreThenBlank : List (Action × List (Str × PrefValue)) :=
  [(.addProfile "a_b".toList,
     [(prefProfile, .string "a_b".toList), (prefLastProfile, .string "a_b".toList)]),
   (.setField "a_b".toList .server (.string "10.0.0.1".toList), []),
   (.addProfile "a b".toList,
     [("a_bserver".toList, .string "10.0.0.1".toList), (prefProfile, .string "a_b\na b".toList),
      (prefLastProfile, .string "a b".toList)])]

/-- The construction changed the server of another profile that was alive. -/
def losesServer (c : Construction) : Bool :=
  c.registered.any fun m => m ∈ c.alive && m != c.name &&
    Profile.getField c.after m .server != Profile.getField c.before m .server

/-- The profile `a b` takes the keys of `a_b`. -/
theorem migration_takes_others : ¬ ∀ s, Reachable system s → ∀ c ∈ s.built, c.Harmless := by
  intro h
  have hrun : ((exec system fresh underscoreThenBlank).any fun s => s.built.any losesServer) = true := by
    decide +kernel
  obtain ⟨s, hexec, hany⟩ := (Option.any_eq_true _ _).mp hrun
  have hfresh : Reachable system fresh := .start ⟨by decide +kernel, rfl, rfl⟩
  obtain ⟨c, hc, hloses⟩ := List.any_eq_true.mp hany
  obtain ⟨m, hm, hne⟩ := List.any_eq_true.mp hloses
  rw [Bool.and_eq_true, Bool.and_eq_true, bne_iff_ne, bne_iff_ne] at hne
  obtain ⟨⟨halive, hother⟩, hchanged⟩ := hne
  have hreads := (h s (exec_reaches _ hfresh hexec) c hc).others m hm hother .server
  have hbefore : Profile.getField c.before m .server ∈ Profile.readings c.before (m ∈ c.alive) m .server :=
    (Profile.mem_readings_still (.inl halive)).mpr rfl
  rw [← hreads, Profile.mem_readings_still (.inl halive)] at hbefore
  exact hchanged hbefore

end ProfileManager

end KiloProxy.Util
