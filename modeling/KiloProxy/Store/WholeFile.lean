import Mathlib.Logic.Function.Basic
import Mathlib.Data.List.Basic

/-!
# A file shared by processes that each keep a copy

Every process loads the whole file into its own map at its first access, reads only
that map, and writes the whole map back on each commit. `latest` is what was committed
last to every key by any process; it is no part of the system. The file holds it after
a commit exactly when the committing process's map agreed with the file on the keys
it did not put (`commit_current_iff`).
-/

namespace KiloProxy.Store
set_option autoImplicit false

variable {P κ ν : Type} [DecidableEq P] [DecidableEq κ]

/-- The edits of one commit, in order; `none` removes a key. -/
abbrev Puts (κ ν : Type) := List (κ × Option ν)

/-- Apply the edits to a map. -/
def putAll (puts : Puts κ ν) (m : κ → Option ν) : κ → Option ν :=
  puts.foldl (fun m p => Function.update m p.1 p.2) m

structure Shared (P κ ν : Type) where
  durable : κ → Option ν
  copy : P → Option (κ → Option ν)
  latest : κ → Option ν

namespace Shared

/-- What a process reads: its copy, or the file at its first access. -/
def view (s : Shared P κ ν) (p : P) : κ → Option ν := (s.copy p).getD s.durable

/-- The first access of a process. -/
def load (s : Shared P κ ν) (p : P) : Shared P κ ν :=
  { s with copy := Function.update s.copy p (some (s.view p)) }

/-- `apply()` or `commit()` of process `p`. -/
def commit (s : Shared P κ ν) (p : P) (puts : Puts κ ν) : Shared P κ ν :=
  { durable := putAll puts (s.view p)
    copy := Function.update s.copy p (some (putAll puts (s.view p)))
    latest := putAll puts s.latest }

/-- The process dies and with it its copy. -/
def exit (s : Shared P κ ν) (p : P) : Shared P κ ν := { s with copy := Function.update s.copy p none }

/-- No update is lost: the file holds what was committed last. -/
def Current (s : Shared P κ ν) : Prop := s.durable = s.latest

/-- The map of `p` agrees with the file outside `written`. -/
def AgreesOutside (s : Shared P κ ν) (p : P) (written : List κ) : Prop :=
  ∀ k, k ∉ written → s.view p k = s.durable k

/-- The map of `p` agrees with the file on `keys`. -/
def AgreesOn (s : Shared P κ ν) (p : P) (keys : List κ) : Prop :=
  ∀ k ∈ keys, s.view p k = s.durable k

end Shared

@[simp] theorem putAll_nil (m : κ → Option ν) : putAll [] m = m := rfl

theorem putAll_cons (k : κ) (v : Option ν) (puts : Puts κ ν) (m : κ → Option ν) :
    putAll ((k, v) :: puts) m = putAll puts (Function.update m k v) := rfl

/-- A key that is not put keeps its value. -/
theorem putAll_of_notMem {k : κ} {puts : Puts κ ν} (h : k ∉ puts.map Prod.fst) (m : κ → Option ν) :
    putAll puts m k = m k := by
  induction puts generalizing m with
  | nil => rfl
  | cons p puts ih =>
    rw [List.map_cons, List.mem_cons, not_or] at h
    rw [putAll_cons, ih h.2, Function.update_of_ne h.1]

/-- A key that is put has the same value whatever it was put into. -/
theorem putAll_of_mem {k : κ} {puts : Puts κ ν} (h : k ∈ puts.map Prod.fst) (m m' : κ → Option ν) :
    putAll puts m k = putAll puts m' k := by
  induction puts generalizing m m' with
  | nil => cases h
  | cons p puts ih =>
    rw [putAll_cons, putAll_cons]
    by_cases hrest : k ∈ puts.map Prod.fst
    · exact ih hrest _ _
    · rw [putAll_of_notMem hrest, putAll_of_notMem hrest]
      rw [List.map_cons, List.mem_cons] at h
      obtain rfl := h.resolve_right hrest
      rw [Function.update_self, Function.update_self]

namespace Shared

/-- A commit loses no update exactly when the process's map agreed with the file on
the keys that it did not put. -/
theorem commit_current_iff {s : Shared P κ ν} (h : s.Current) (p : P) (puts : Puts κ ν) :
    (s.commit p puts).Current ↔ s.AgreesOutside p (puts.map Prod.fst) := by
  unfold Current at h
  constructor
  · intro hcur k hk
    have hkey := congrFun (show putAll puts (s.view p) = putAll puts s.latest from hcur) k
    rw [putAll_of_notMem hk, putAll_of_notMem hk, ← h] at hkey
    exact hkey
  · intro hag
    show putAll puts (s.view p) = putAll puts s.latest
    funext k
    by_cases hk : k ∈ puts.map Prod.fst
    · exact putAll_of_mem hk _ _
    · rw [putAll_of_notMem hk, putAll_of_notMem hk, hag k hk, h]

omit [DecidableEq P] [DecidableEq κ] in
/-- What a process reads on keys where its map agrees with the file is what was
committed last. -/
theorem view_latest {s : Shared P κ ν} {p : P} {keys : List κ} (h : s.Current) (hag : s.AgreesOn p keys) :
    ∀ k ∈ keys, s.view p k = s.latest k := by
  intro k hk
  rw [hag k hk, h]

end Shared

end KiloProxy.Store
