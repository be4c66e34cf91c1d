import Mathlib.Data.List.Basic

/-!
# Runs of a partial step function

A system is a set of initial states and a partial step function over actions.
`Reaches ok` collects the states of the runs whose every step satisfies `ok`, a
condition on the state before the step and the action taken; `Reachable` is the
case without a condition. Invariants are proved once per step and folded over the
run by `Reaches.invariant`, relations between a state and a later one by
`Leads.preorder`; a concrete run is executed by `exec` or `execWhere`.
-/

namespace KiloProxy.Run
set_option autoImplicit false

variable {σ α : Type}

/-- A partial step function with its initial states. -/
structure System (σ α : Type) where
  init : σ → Prop
  step : σ → α → Option σ

/-- States of the runs all of whose steps satisfy `ok`. -/
inductive Reaches (M : System σ α) (ok : σ → α → Prop) : σ → Prop where
  | start {s : σ} : M.init s → Reaches M ok s
  | next {s s' : σ} {a : α} : Reaches M ok s → ok s a → M.step s a = some s' → Reaches M ok s'

/-- States of all runs. -/
abbrev Reachable (M : System σ α) : σ → Prop := Reaches M fun _ _ => True

namespace Reaches

variable {M : System σ α} {ok : σ → α → Prop}

/-- A weaker step condition reaches more. -/
theorem mono {ok' : σ → α → Prop} (weaker : ∀ s a, ok s a → ok' s a) {s : σ} (h : Reaches M ok s) :
    Reaches M ok' s := by
  induction h with
  | start hi => exact .start hi
  | next _ hok hstep ih => exact .next ih (weaker _ _ hok) hstep

theorem reachable {s : σ} (h : Reaches M ok s) : Reachable M s :=
  h.mono fun _ _ _ => trivial

/-- The invariant rule: true initially, kept by every allowed step. -/
theorem invariant {P : σ → Prop} (base : ∀ s, M.init s → P s)
    (keep : ∀ s a s', P s → ok s a → M.step s a = some s' → P s') {s : σ} (h : Reaches M ok s) : P s := by
  induction h with
  | start hi => exact base _ hi
  | next _ hok hstep ih => exact keep _ _ _ ih hok hstep

/-- The invariant rule over an invariant already known. -/
theorem invariant_of {J P : σ → Prop} (known : ∀ s, Reaches M ok s → J s)
    (base : ∀ s, M.init s → P s)
    (keep : ∀ s a s', J s → P s → ok s a → M.step s a = some s' → P s') {s : σ} (h : Reaches M ok s) :
    P s := by
  induction h with
  | start hi => exact base _ hi
  | next hs hok hstep ih => exact keep _ _ _ (known _ hs) ih hok hstep

end Reaches

/-- `s'` comes after `s` by steps that satisfy `ok`. -/
inductive Leads (M : System σ α) (ok : σ → α → Prop) (s : σ) : σ → Prop where
  | here : Leads M ok s s
  | next {t u : σ} {a : α} : Leads M ok s t → ok t a → M.step t a = some u → Leads M ok s u

namespace Leads

variable {M : System σ α} {ok : σ → α → Prop}

theorem reaches {s t : σ} (hs : Reaches M ok s) (h : Leads M ok s t) : Reaches M ok t := by
  induction h with
  | here => exact hs
  | next _ hok hstep ih => exact ih.next hok hstep

/-- The invariant rule from a given state. -/
theorem invariant {P : σ → Prop} {s t : σ} (h : Leads M ok s t) (hs : P s)
    (keep : ∀ s a s', P s → ok s a → M.step s a = some s' → P s') : P t := by
  induction h with
  | here => exact hs
  | next _ hok hstep ih => exact keep _ _ _ ih hok hstep

/-- A preorder that every step follows holds between a state and all later ones. -/
theorem preorder {R : σ → σ → Prop} (refl : ∀ s, R s s) (trans : ∀ s t u, R s t → R t u → R s u)
    (keep : ∀ s a t, Reaches M ok s → ok s a → M.step s a = some t → R s t) {s t : σ} (hs : Reaches M ok s)
    (h : Leads M ok s t) : R s t := by
  induction h with
  | here => exact refl s
  | next ht hok hstep ih => exact trans _ _ _ ih (keep _ _ _ (ht.reaches hs) hok hstep)

end Leads

/-- Run a list of actions. -/
def exec (M : System σ α) : σ → List α → Option σ
  | s, [] => some s
  | s, a :: as => (M.step s a).bind fun s' => exec M s' as

/-- An executed run leads from its first state to its last. -/
theorem exec_leads {M : System σ α} {r s s' : σ} (as : List α) (hr : Leads M (fun _ _ => True) r s)
    (h : exec M s as = some s') : Leads M (fun _ _ => True) r s' := by
  induction as generalizing s with
  | nil => cases h; exact hr
  | cons a as ih =>
    obtain ⟨m, hm, hrest⟩ := Option.bind_eq_some_iff.mp h
    exact ih (hr.next trivial hm) hrest

theorem exec_reaches {M : System σ α} {s s' : σ} (as : List α) (hs : Reachable M s)
    (h : exec M s as = some s') : Reachable M s' :=
  (exec_leads as .here h).reaches hs

/-- Run a list of actions, each of which has to satisfy `ok`. -/
def execWhere (M : System σ α) (ok : σ → α → Prop) [∀ s a, Decidable (ok s a)] : σ → List α → Option σ
  | s, [] => some s
  | s, a :: as => if ok s a then (M.step s a).bind fun s' => execWhere M ok s' as else none

theorem execWhere_leads {M : System σ α} {ok : σ → α → Prop} [∀ s a, Decidable (ok s a)] {r s s' : σ}
    (as : List α) (hr : Leads M ok r s) (h : execWhere M ok s as = some s') : Leads M ok r s' := by
  induction as generalizing s with
  | nil => cases h; exact hr
  | cons a as ih =>
    unfold execWhere at h
    split at h
    · rename_i hok
      obtain ⟨m, hm, hrest⟩ := Option.bind_eq_some_iff.mp h
      exact ih (hr.next hok hm) hrest
    · cases h

theorem execWhere_reaches {M : System σ α} {ok : σ → α → Prop} [∀ s a, Decidable (ok s a)] {s s' : σ} (as : List α)
    (hs : Reaches M ok s) (h : execWhere M ok s as = some s') : Reaches M ok s' :=
  (execWhere_leads as .here h).reaches hs

end KiloProxy.Run
