import KiloProxy.Run.System
import KiloProxy.Store.WeakHeap
import KiloProxy.Util.ProfileManager
import Mathlib.Logic.Function.Basic

/-!
# `ProfileFactory`

`getProfile` step by step, with the collector between any two steps. The profile is read
twice through its weak reference: to test that it is there, and to return it; between the
two, and from its construction on, nothing else holds it. A collection of that reference
in between makes the call fail, and nothing else does.
-/

namespace KiloProxy.Util
set_option autoImplicit false
open KiloProxy.Text KiloProxy.Store KiloProxy.Run

/-- Where a call of `getProfile` is; `wrap` has the profile it constructed in hand. -/
inductive FactoryPc where
  | lookup
  | test
  | construct
  | wrap (profile : Nat)
  | store
  | deref
deriving DecidableEq

/-- A call with its local `p`. -/
structure FactoryCall where
  name : Str
  p : Option Nat
  pc : FactoryPc

/-- A profile is its name. `held` are the profiles that callers hold, and `returned` is what the
calls returned, none for an exception; it is no part of the program. -/
structure ProfileFactory where
  heap : WeakHeap Str
  mMap : Str → Option Nat
  held : List Nat
  call : Option FactoryCall
  returned : List (Str × Option Nat)

namespace ProfileFactory

/-- `p?.get()` -/
def get (s : ProfileFactory) (p : Option Nat) : Option Nat := p.bind s.heap.referent

/-- The next step of the call. -/
def eval (s : ProfileFactory) (c : FactoryCall) : ProfileFactory :=
  match c.pc with
  | .lookup => { s with call := some { c with p := s.mMap c.name, pc := .test } }
  | .test => { s with call := some { c with pc := if s.get c.p = none then .construct else .deref } }
  | .construct =>
    let (profile, heap) := s.heap.alloc c.name
    { s with heap := heap, call := some { c with pc := .wrap profile } }
  | .wrap profile =>
    let (p, heap) := s.heap.weaken profile
    { s with heap := heap, call := some { c with p := some p, pc := .store } }
  | .store => { s with mMap := Function.update s.mMap c.name c.p, call := some { c with pc := .deref } }
  | .deref =>
    match s.get c.p with
    | some profile =>
      { s with held := profile :: s.held, call := none, returned := s.returned ++ [(c.name, some profile)] }
    | none => { s with call := none, returned := s.returned ++ [(c.name, none)] }

/-- Something other than a weak reference leads to the profile. -/
def Strong (s : ProfileFactory) (profile : Nat) : Prop :=
  profile ∈ s.held ∨ ∃ c ∈ s.call, c.pc = .wrap profile

instance (s : ProfileFactory) (profile : Nat) : Decidable (s.Strong profile) := by
  unfold Strong; infer_instance

/-- Calls exclude each other. A collection clears one reference; `release` is a caller that lets go
of a profile. -/
inductive Action where
  | getProfile (name : Str)
  | eval
  | collect (p : Nat)
  | release (profile : Nat)

def step (s : ProfileFactory) : Action → Option ProfileFactory
  | .getProfile name => if s.call.isNone then some { s with call := some ⟨name, none, .lookup⟩ } else none
  | .eval => s.call.map s.eval
  | .collect p =>
    (s.heap.referent p).bind fun profile => if s.Strong profile then none else some { s with heap := s.heap.clear p }
  | .release profile => if profile ∈ s.held then some { s with held := s.held.erase profile } else none

def start : ProfileFactory := ⟨.empty, fun _ => none, [], none, []⟩

def system : System ProfileFactory Action where
  init s := s = start
  step := step

/-- What a step does. -/
theorem step_some {s s' : ProfileFactory} {a : Action} (hs : system.step s a = some s') :
    match a with
    | .getProfile name => s.call = none ∧ s' = { s with call := some ⟨name, none, .lookup⟩ }
    | .eval => ∃ c, s.call = some c ∧ s' = s.eval c
    | .collect p => (∀ profile, s.heap.referent p = some profile → ¬ s.Strong profile) ∧
        s' = { s with heap := s.heap.clear p }
    | .release profile => profile ∈ s.held ∧ s' = { s with held := s.held.erase profile } := by
  cases a with
  | getProfile name =>
    simp only [system, step] at hs
    split at hs
    · rename_i hidle
      exact ⟨Option.isNone_iff_eq_none.mp hidle, (Option.some.inj hs).symm⟩
    · cases hs
  | eval =>
    obtain ⟨c, hc, he⟩ := Option.map_eq_some_iff.mp hs
    exact ⟨c, hc, he.symm⟩
  | collect p =>
    obtain ⟨profile, hprofile, hs⟩ := Option.bind_eq_some_iff.mp hs
    split at hs
    · cases hs
    · rename_i hweak
      refine ⟨fun other hother => ?_, (Option.some.inj hs).symm⟩
      rw [← Option.some.inj (hprofile.symm.trans hother)]
      exact hweak
  | release profile =>
    simp only [system, step] at hs
    split at hs
    · rename_i hheld
      exact ⟨hheld, (Option.some.inj hs).symm⟩
    · cases hs

/-! ## The gap -/

/-- The call has a reference that it will only read once more. -/
def Gap (s : ProfileFactory) (p : Option Nat) : Prop := ∃ c ∈ s.call, (c.pc = .store ∨ c.pc = .deref) ∧ c.p = p

instance (s : ProfileFactory) (p : Option Nat) : Decidable (s.Gap p) := by
  unfold Gap; infer_instance

/-- The collector leaves that reference alone. -/
def Spares (s : ProfileFactory) : Action → Prop
  | .collect p => ¬ s.Gap (some p)
  | _ => True

instance (s : ProfileFactory) (a : Action) : Decidable (Spares s a) := by
  cases a <;> unfold Spares <;> infer_instance

/-- The call is going to fail. -/
def Doomed (s : ProfileFactory) : Prop := ∃ p, s.Gap p ∧ s.get p = none

/-! ## Every reference is to a profile of its name -/

/-- What the local of the call is, by where the call is. -/
def CallSound (heap : WeakHeap Str) (c : FactoryCall) : Prop :=
  match c.pc with
  | .lookup => True
  | .test => ∀ p ∈ c.p, heap.Refers p c.name
  | .construct => True
  | .wrap profile => heap.objects[profile]? = some c.name
  | .store => ∃ p, c.p = some p ∧ heap.Refers p c.name
  | .deref => ∃ p, c.p = some p ∧ heap.Refers p c.name

structure Sound (s : ProfileFactory) : Prop where
  mapped : ∀ name, ∀ p ∈ s.mMap name, s.heap.Refers p name
  call : ∀ c ∈ s.call, CallSound s.heap c
  returned : ∀ r ∈ s.returned, ∀ profile ∈ r.2, s.heap.objects[profile]? = some r.1

/-- Along the heap it stays so. -/
theorem CallSound.mono {heap heap' : WeakHeap Str} {c : FactoryCall} (h : CallSound heap c)
    (hext : heap.Extends heap') : CallSound heap' c := by
  unfold CallSound at h ⊢
  split at h
  · trivial
  · exact fun p hp => (h p hp).mono hext
  · trivial
  · exact hext.objects _ _ h
  · obtain ⟨p, hp, hrefers⟩ := h
    exact ⟨p, hp, hrefers.mono hext⟩
  · obtain ⟨p, hp, hrefers⟩ := h
    exact ⟨p, hp, hrefers.mono hext⟩

/-- A later heap and a call that is sound over it. -/
theorem Sound.later {s : ProfileFactory} (h : Sound s) {heap : WeakHeap Str} (hext : s.heap.Extends heap)
    {call : Option FactoryCall} (hcall : ∀ c ∈ call, CallSound heap c) : Sound { s with heap := heap, call := call } where
  mapped := fun name p hp => (h.mapped name p hp).mono hext
  call := hcall
  returned := fun r hr profile hp => hext.objects _ _ (h.returned r hr profile hp)

/-- Every line of the call keeps the map and the heap in agreement. -/
theorem Sound.eval {s : ProfileFactory} (h : Sound s) {c : FactoryCall} (hc : c ∈ s.call) : Sound (s.eval c) := by
  have hsound := h.call c hc
  obtain ⟨name, p, pc⟩ := c
  cases pc with
  | lookup =>
    refine h.later (.refl _) fun c hc => ?_
    obtain rfl := Option.some.inj hc
    exact h.mapped name
  | test =>
    refine h.later (.refl _) fun c hc => ?_
    obtain rfl := Option.some.inj hc
    show CallSound s.heap ⟨name, p, if s.get p = none then .construct else .deref⟩
    split
    · trivial
    · rename_i hp
      obtain ⟨profile, hprofile⟩ := Option.ne_none_iff_exists'.mp hp
      obtain ⟨q, hq, _⟩ := Option.bind_eq_some_iff.mp hprofile
      exact ⟨q, hq, hsound q hq⟩
  | construct =>
    refine h.later (s.heap.alloc_extends name) fun c hc => ?_
    obtain rfl := Option.some.inj hc
    exact s.heap.alloc_object name
  | wrap profile =>
    refine h.later (s.heap.weaken_extends profile) fun c hc => ?_
    obtain rfl := Option.some.inj hc
    exact ⟨_, rfl, WeakHeap.weaken_refers hsound⟩
  | store =>
    refine ⟨fun n q hq => ?_, fun c hc => ?_, h.returned⟩
    · have hput : Function.update s.mMap name p n = some q := hq
      by_cases he : n = name
      · rw [he, Function.update_self] at hput
        obtain ⟨r, hr, hrefers⟩ := hsound
        obtain rfl := Option.some.inj (hr.symm.trans hput)
        rw [he]
        exact hrefers
      · rw [Function.update_of_ne he] at hput
        exact h.mapped n q hput
    · obtain rfl := Option.some.inj hc
      exact hsound
  | deref =>
    obtain ⟨q, hq, hrefers⟩ := hsound
    have hobject : ∀ profile, s.get p = some profile → s.heap.objects[profile]? = some name := by
      intro profile hprofile
      obtain ⟨r, hr, hreferent⟩ := Option.bind_eq_some_iff.mp hprofile
      obtain rfl := Option.some.inj (hq.symm.trans hr)
      exact hrefers.object profile hreferent
    have hlog : ∀ o, (∀ profile ∈ o, s.heap.objects[profile]? = some name) →
        ∀ r ∈ s.returned ++ [(name, o)], ∀ profile ∈ r.2, s.heap.objects[profile]? = some r.1 := by
      intro o ho r hr
      rcases List.mem_append.mp hr with hr | hr
      · exact h.returned r hr
      · rw [List.mem_singleton.mp hr]
        exact ho
    simp only [ProfileFactory.eval]
    cases hget : s.get p with
    | some profile =>
      refine ⟨h.mapped, fun c hc => (by cases hc), hlog _ fun o ho => ?_⟩
      obtain rfl := Option.some.inj ho
      exact hobject _ hget
    | none => exact ⟨h.mapped, fun c hc => (by cases hc), hlog _ fun o ho => (by cases ho)⟩

/-- A step keeps the map and the heap in agreement, a collection included. -/
theorem Sound.step {s s' : ProfileFactory} {a : Action} (h : Sound s) (hs : system.step s a = some s') : Sound s' := by
  cases a with
  | getProfile name =>
    obtain ⟨_, rfl⟩ := step_some hs
    refine h.later (.refl _) fun c hc => ?_
    obtain rfl := Option.some.inj hc
    trivial
  | eval =>
    obtain ⟨c, hc, rfl⟩ := step_some hs
    exact h.eval hc
  | collect p =>
    obtain ⟨_, rfl⟩ := step_some hs
    have hext := s.heap.clear_extends p
    exact h.later hext fun c hc => (h.call c hc).mono hext
  | release profile =>
    obtain ⟨_, rfl⟩ := step_some hs
    exact ⟨h.mapped, h.call, h.returned⟩

theorem start_sound : Sound start where
  mapped := fun _ _ h => by cases h
  call := fun _ h => by cases h
  returned := fun _ h => absurd h List.not_mem_nil

theorem reaches_sound {ok : ProfileFactory → Action → Prop} {s : ProfileFactory} (h : Reaches system ok s) :
    Sound s := by
  refine h.invariant (fun s hs => ?_) fun s a s' hs _ hstep => hs.step hstep
  obtain rfl : s = start := hs
  exact start_sound

/-! ## The reference in the gap -/

/-- The gap, by where the call is. -/
theorem gap_iff {s : ProfileFactory} {c : FactoryCall} (hc : s.call = some c) {p : Option Nat} :
    s.Gap p ↔ (c.pc = .store ∨ c.pc = .deref) ∧ c.p = p := by
  unfold Gap
  rw [hc]
  constructor
  · rintro ⟨d, hd, h⟩
    obtain rfl := Option.some.inj hd
    exact h
  · intro h
    exact ⟨c, rfl, h⟩

theorem no_gap {s : ProfileFactory} (hc : s.call = none) {p : Option Nat} : ¬ s.Gap p := by
  rintro ⟨c, h, _⟩
  rw [hc] at h
  cases h

/-- The reference in the gap is there, and every call returned a profile. -/
structure Alive (s : ProfileFactory) : Prop where
  gap : ¬ s.Doomed
  returned : ∀ r ∈ s.returned, r.2 ≠ none

/-- What is in the gap afterwards is there. -/
theorem Alive.later {s s' : ProfileFactory} (h : Alive s) (hgap : ∀ p, s'.Gap p → s'.get p ≠ none)
    (hreturned : s'.returned = s.returned) : Alive s' where
  gap := fun ⟨p, hp, hnone⟩ => hgap p hp hnone
  returned := by rw [hreturned]; exact h.returned

/-- The profile a call has in hand is not collected before it returns. -/
theorem Alive.eval {s : ProfileFactory} (h : Alive s) {c : FactoryCall} (hc : s.call = some c) :
    Alive (s.eval c) := by
  have hget : ∀ p, s.Gap p → s.get p ≠ none := fun p hp hnone => h.gap ⟨p, hp, hnone⟩
  obtain ⟨name, p, pc⟩ := c
  cases pc with
  | lookup =>
    refine h.later (fun q hq => ?_) rfl
    obtain ⟨hpc, _⟩ := (gap_iff rfl).mp hq
    exact absurd hpc (by simp)
  | test =>
    refine h.later (fun q hq => ?_) rfl
    obtain ⟨hpc, rfl⟩ := (gap_iff rfl).mp hq
    intro hnone
    have hp : s.get p = none := hnone
    simp only [hp, if_true] at hpc
    exact absurd hpc (by simp)
  | construct =>
    refine h.later (fun q hq => ?_) rfl
    obtain ⟨hpc, _⟩ := (gap_iff rfl).mp hq
    exact absurd hpc (by simp)
  | wrap profile =>
    refine h.later (fun q hq => ?_) rfl
    obtain ⟨_, rfl⟩ := (gap_iff rfl).mp hq
    have hnew : (s.heap.weaken profile).2.referent (s.heap.weaken profile).1 ≠ none := by
      rw [WeakHeap.referent_weaken_new]
      exact Option.some_ne_none profile
    exact hnew
  | store =>
    refine h.later (fun q hq => ?_) rfl
    obtain ⟨_, rfl⟩ := (gap_iff rfl).mp hq
    exact hget p ((gap_iff hc).mpr ⟨.inl rfl, rfl⟩)
  | deref =>
    have hsome := hget p ((gap_iff hc).mpr ⟨.inr rfl, rfl⟩)
    obtain ⟨profile, hprofile⟩ := Option.ne_none_iff_exists'.mp hsome
    simp only [ProfileFactory.eval, hprofile]
    constructor
    · rintro ⟨q, hq, _⟩
      exact no_gap rfl hq
    · intro r hr
      rcases List.mem_append.mp hr with hr | hr
      · exact h.returned r hr
      · rw [List.mem_singleton.mp hr]
        exact Option.some_ne_none profile

/-- Under the condition no step collects the profile a call has in hand. -/
theorem Alive.step {s s' : ProfileFactory} {a : Action} (h : Alive s) (hspares : Spares s a)
    (hs : system.step s a = some s') : Alive s' := by
  have hget : ∀ p, s.Gap p → s.get p ≠ none := fun p hp hnone => h.gap ⟨p, hp, hnone⟩
  cases a with
  | getProfile name =>
    obtain ⟨_, rfl⟩ := step_some hs
    refine h.later (fun q hq => ?_) rfl
    obtain ⟨hpc, _⟩ := (gap_iff rfl).mp hq
    exact absurd hpc (by simp)
  | eval =>
    obtain ⟨c, hc, rfl⟩ := step_some hs
    exact h.eval hc
  | collect p =>
    obtain ⟨_, rfl⟩ := step_some hs
    refine h.later (fun q hq => ?_) rfl
    have hgap : s.Gap q := hq
    cases q with
    | none => exact absurd rfl (hget none hgap)
    | some q =>
      -- another reference than the one that is cleared
      have hne : q ≠ p := by
        rintro rfl
        exact hspares hgap
      show (s.heap.clear p).referent q ≠ none
      rw [WeakHeap.referent_clear_ne hne]
      exact hget (some q) hgap
  | release profile =>
    obtain ⟨_, rfl⟩ := step_some hs
    exact h.later hget rfl

theorem reaches_alive {s : ProfileFactory} (h : Reaches system Spares s) : Alive s := by
  refine h.invariant (fun s hs => ?_) fun s a s' hs hok hstep => hs.step hok hstep
  obtain rfl : s = start := hs
  exact ⟨fun ⟨p, hp, _⟩ => no_gap rfl hp, fun r hr => absurd hr List.not_mem_nil⟩

/-! ## A collection in the gap -/

/-- The collector took the reference. -/
theorem collect_dooms {s s' : ProfileFactory} {a : Action} (hnot : ¬ Spares s a) (hs : system.step s a = some s') :
    s'.Doomed := by
  cases a with
  | collect p =>
    have hgap : s.Gap (some p) := Decidable.not_not.mp hnot
    obtain ⟨_, rfl⟩ := step_some hs
    exact ⟨some p, hgap, s.heap.referent_clear_self p⟩
  | getProfile name => exact absurd trivial hnot
  | eval => exact absurd trivial hnot
  | release profile => exact absurd trivial hnot

/-- The last read fails. -/
theorem deref_fails {s : ProfileFactory} {c : FactoryCall} (hc : s.call = some c) (hpc : c.pc = .deref)
    (hnone : s.get c.p = none) : ∃ t, system.step s .eval = some t ∧ ∃ r ∈ t.returned, r.2 = none := by
  obtain ⟨name, p, pc⟩ := c
  obtain rfl : pc = .deref := hpc
  refine ⟨s.eval ⟨name, p, .deref⟩, congrArg (Option.map s.eval) hc, (name, none), ?_, rfl⟩
  have hnone : s.get p = none := hnone
  simp only [eval, hnone]
  exact List.mem_append_right _ List.mem_cons_self

/-- Once the reference is gone the call goes on to fail. -/
theorem doomed_fails {s : ProfileFactory} (h : s.Doomed) :
    ∃ as t, (∀ a ∈ as, a = Action.eval) ∧ exec system s as = some t ∧ ∃ r ∈ t.returned, r.2 = none := by
  obtain ⟨p, ⟨c, hc, hpc, rfl⟩, hnone⟩ := h
  rcases hpc with hstore | hderef
  · obtain ⟨name, p, pc⟩ := c
    obtain rfl : pc = .store := hstore
    have hnext : (s.eval ⟨name, p, .store⟩).call = some ⟨name, p, .deref⟩ := rfl
    obtain ⟨t, ht, hfailed⟩ := deref_fails hnext rfl hnone
    refine ⟨[.eval, .eval], t, by simp, ?_, hfailed⟩
    have hfirst : system.step s .eval = some (s.eval ⟨name, p, .store⟩) := congrArg (Option.map s.eval) hc
    simp only [exec, hfirst, Option.bind_some, ht]
  · obtain ⟨t, ht, hfailed⟩ := deref_fails hc hderef hnone
    exact ⟨[.eval], t, by simp, by simp only [exec, ht, Option.bind_some], hfailed⟩

/-- **Every call returns a profile of its name** as long as no collection takes the reference that
a call has tested or made and has yet to read; the first one that does makes that call fail. -/
theorem getProfile_safe {s : ProfileFactory} (h : Reaches system Spares s) :
    (∀ r ∈ s.returned, ∃ profile, r.2 = some profile ∧ s.heap.objects[profile]? = some r.1) ∧
    ∀ a s', ¬ Spares s a → system.step s a = some s' →
      ∃ as t, (∀ a ∈ as, a = Action.eval) ∧ exec system s' as = some t ∧ ∃ r ∈ t.returned, r.2 = none := by
  constructor
  · intro r hr
    obtain ⟨profile, hprofile⟩ := Option.ne_none_iff_exists'.mp ((reaches_alive h).returned r hr)
    exact ⟨profile, hprofile, (reaches_sound h).returned r hr profile hprofile⟩
  · exact fun a s' hnot hs => doomed_fails (collect_dooms hnot hs)

/-- The first call for a name: looked up, tested, constructed, wrapped, stored and returned. -/
def firstCall : List Action := .getProfile "Work".toList :: List.replicate 6 .eval

theorem getProfile_safe_first : ∃ s, Reaches system Spares s ∧ s.returned = [("Work".toList, some 0)] ∧
    ∃ profile, some 0 = some profile ∧ s.heap.objects[profile]? = some "Work".toList := by
  have hrun : (execWhere system Spares start firstCall).map returned = some [("Work".toList, some 0)] := by
    decide +kernel
  obtain ⟨s, hs, hreturned⟩ := Option.map_eq_some_iff.mp hrun
  have hreach : Reaches system Spares s := execWhere_reaches firstCall (.start rfl) hs
  refine ⟨s, hreach, hreturned, (getProfile_safe hreach).1 ("Work".toList, some 0) ?_⟩
  rw [hreturned]
  exact List.mem_cons_self

/-- The profile is collected right after it was wrapped, and the call throws. -/
theorem collected_before_return : ¬ ∀ s, Reachable system s →
    ∀ r ∈ s.returned, ∃ profile, r.2 = some profile ∧ s.heap.objects[profile]? = some r.1 := by
  intro h
  have hrun : (exec system start [.getProfile "Work".toList, .eval, .eval, .eval, .eval, .collect 0, .eval,
      .eval]).map returned = some [("Work".toList, none)] := by
    decide +kernel
  obtain ⟨s, hs, hreturned⟩ := Option.map_eq_some_iff.mp hrun
  have hreach : Reachable system s := exec_reaches _ (.start rfl) hs
  have hmem : ("Work".toList, none) ∈ s.returned := by
    rw [hreturned]
    exact List.mem_cons_self
  obtain ⟨profile, hsome, _⟩ := h s hreach _ hmem
  cases hsome

/-! ## A call in one piece -/

/-- A profile of the name is cached. -/
def Live (s : ProfileFactory) (name : Str) : Prop := s.get (s.mMap name) ≠ none

/-- A call that nothing interrupts. -/
structure Called (s : ProfileFactory) (name : Str) (s' : ProfileFactory) : Prop where
  idle : s'.call = none
  returned : ∃ profile, s'.returned = s.returned ++ [(name, some profile)]
  live : ∀ n, s'.Live n ↔ n = name ∨ s.Live n
  built : s.Live name → s'.heap.objects = s.heap.objects
  fresh : ¬ s.Live name → s'.heap.objects = s.heap.objects ++ [name]

/-- Left alone, a call ends and returns the cached profile, or a new one. -/
theorem called {s : ProfileFactory} (h : Sound s) (hidle : s.call = none) (name : Str) :
    ∃ as s', exec system s (.getProfile name :: as) = some s' ∧ Called s name s' := by
  cases hget : s.get (s.mMap name) with
  | some profile =>
    refine ⟨[.eval, .eval, .eval],
      ⟨s.heap, s.mMap, profile :: s.held, none, s.returned ++ [(name, some profile)]⟩, ?_, ?_⟩
    · have hread : (s.mMap name).bind s.heap.referent = some profile := hget
      simp [exec, system, step, hidle, eval, get, hread]
    · have hlive : s.Live name := by
        rw [Live, hget]
        exact Option.some_ne_none profile
      refine ⟨rfl, ⟨profile, rfl⟩, fun n => ⟨.inr, ?_⟩, fun _ => rfl, fun hnot => absurd hlive hnot⟩
      rintro (rfl | hn)
      · exact hlive
      · exact hn
  | none =>
    refine ⟨List.replicate 6 .eval,
      ⟨((s.heap.alloc name).2.weaken (s.heap.alloc name).1).2,
        Function.update s.mMap name (some ((s.heap.alloc name).2.weaken (s.heap.alloc name).1).1),
        (s.heap.alloc name).1 :: s.held, none, s.returned ++ [(name, some (s.heap.alloc name).1)]⟩, ?_, ?_⟩
    · have hread : (s.mMap name).bind s.heap.referent = none := hget
      have hnew := (s.heap.alloc name).2.referent_weaken_new (s.heap.alloc name).1
      simp [exec, system, step, hidle, eval, get, hread, hnew]
    · have hdead : ¬ s.Live name := fun hlive => hlive hget
      refine ⟨rfl, ⟨_, rfl⟩, fun n => ?_, fun hlive => absurd hlive hdead, fun _ => rfl⟩
      simp only [Live, get]
      by_cases he : n = name
      · rw [he, Function.update_self, Option.bind_some, WeakHeap.referent_weaken_new]
        exact ⟨fun _ => .inl rfl, fun _ => Option.some_ne_none _⟩
      · -- the reference of another name is as before
        have hsame : (s.mMap n).bind ((s.heap.alloc name).2.weaken (s.heap.alloc name).1).2.referent =
            (s.mMap n).bind s.heap.referent := by
          cases hn : s.mMap n with
          | none => rfl
          | some q => exact WeakHeap.referent_weaken_old (h.mapped n q hn).lt
        rw [Function.update_of_ne he, hsame]
        exact ⟨.inr, fun hor => hor.resolve_left he⟩

/-- The registry knows which profiles are cached. -/
def Caches (pm : ProfileManager) (s : ProfileFactory) : Prop := ∀ n, n ∈ pm.cached ↔ s.Live n

/-- What the registry says of a call is what an uninterrupted call does: it builds a profile exactly
when none is cached, and has it cached afterwards. -/
theorem factoryGetProfile_called {pm pm' : ProfileManager} {s s' : ProfileFactory} {name : Str}
    {all : List (Str × PrefValue)} (hcaches : Caches pm s) (hcalled : Called s name s')
    (hs : pm.factoryGetProfile all name = some pm') :
    Caches pm' s' ∧ (pm'.built = pm.built ↔ s'.heap.objects = s.heap.objects) := by
  unfold ProfileManager.factoryGetProfile at hs
  split at hs
  · rename_i hcached
    obtain rfl := Option.some.inj hs
    have hlive := (hcaches name).mp hcached
    refine ⟨fun n => ?_, fun _ => hcalled.built hlive, fun _ => rfl⟩
    rw [hcalled.live, hcaches]
    constructor
    · exact .inr
    · rintro (rfl | hn)
      · exact hlive
      · exact hn
  · rename_i hnew
    split at hs
    · obtain rfl := Option.some.inj hs
      have hdead : ¬ s.Live name := fun hlive => hnew ((hcaches name).mpr hlive)
      refine ⟨fun n => ?_, fun h => absurd h ?_, fun h => absurd h ?_⟩
      · rw [hcalled.live, ← hcaches]
        exact List.mem_cons
      · simp
      · rw [hcalled.fresh hdead]
        simp
    · cases hs

end ProfileFactory
end KiloProxy.Util
