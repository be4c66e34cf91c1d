import KiloProxy.Store.WholeFile
import Mathlib.Data.List.Nodup

/-!
# A key-value store with an iteration order

A list of entries with distinct keys. An edit is a batch of puts and removals, of
which the last one to a key wins (`get_edit`). A batch that moves entries to other
keys is described by what it does to a key that is the source of a move, the target
of one, or neither.
-/

namespace KiloProxy.Store
set_option autoImplicit false

variable {κ ν : Type} [DecidableEq κ]

structure Entries (κ ν : Type) where
  list : List (κ × ν)
  nodup : (list.map Prod.fst).Nodup

namespace Entries

def empty : Entries κ ν := ⟨[], List.nodup_nil⟩

/-- The value of a key. -/
def get (s : Entries κ ν) (k : κ) : Option ν := s.list.lookup k

def contains (s : Entries κ ν) (k : κ) : Bool := (s.get k).isSome

omit [DecidableEq κ] in
theorem nodup_filter {l : List (κ × ν)} (h : (l.map Prod.fst).Nodup) (q : κ × ν → Bool) :
    ((l.filter q).map Prod.fst).Nodup :=
  h.sublist (List.filter_sublist.map Prod.fst)

def remove (s : Entries κ ν) (k : κ) : Entries κ ν :=
  ⟨s.list.filter fun e => e.1 ≠ k, nodup_filter s.nodup _⟩

def put (s : Entries κ ν) (k : κ) (v : ν) : Entries κ ν where
  list := (s.remove k).list ++ [(k, v)]
  nodup := by
    rw [List.map_append, List.nodup_append]
    refine ⟨(s.remove k).nodup, List.nodup_singleton k, fun a ha b hb => ?_⟩
    obtain ⟨e, he, rfl⟩ := List.mem_map.mp ha
    obtain rfl : b = k := by simpa using hb
    have := (List.mem_filter.mp he).2
    simpa using this

/-- One edit: a put or a removal. -/
def editOne (s : Entries κ ν) (p : κ × Option ν) : Entries κ ν :=
  match p.2 with
  | some v => s.put p.1 v
  | none => s.remove p.1

/-- A batch of edits. -/
def edit (s : Entries κ ν) (puts : Puts κ ν) : Entries κ ν := puts.foldl editOne s

@[simp] theorem edit_nil (s : Entries κ ν) : s.edit [] = s := rfl

theorem lookup_filter_ne (l : List (κ × ν)) (k x : κ) :
    (l.filter fun e => e.1 ≠ k).lookup x = if x = k then none else l.lookup x := by
  induction l with
  | nil => simp
  | cons e l ih =>
    rw [List.filter_cons]
    by_cases hk : e.1 = k
    · rw [if_neg (by simp [hk]), ih]
      split
      · rfl
      · rename_i hx
        rw [List.lookup_cons, beq_false_of_ne (by rw [hk]; exact hx)]
    · rw [if_pos (by simp [hk]), List.lookup_cons, List.lookup_cons, ih]
      by_cases hx : x = e.1
      · rw [hx, beq_self_eq_true]
        simp only [if_neg hk]
      · rw [beq_false_of_ne hx]

/-- A removed key reads as absent, and the others as before. -/
theorem get_remove (s : Entries κ ν) (k : κ) : (s.remove k).get = Function.update s.get k none := by
  funext x
  rw [get, remove, lookup_filter_ne, Function.update_apply]
  rfl

/-- A put key reads as put. -/
theorem get_put (s : Entries κ ν) (k : κ) (v : ν) : (s.put k v).get = Function.update s.get k (some v) := by
  funext x
  show ((s.remove k).list ++ [(k, v)]).lookup x = _
  have hrest : (s.remove k).list.lookup x = if x = k then none else s.get x := lookup_filter_ne s.list k x
  rw [List.lookup_append, hrest, Function.update_apply]
  by_cases hx : x = k
  · rw [if_pos hx, if_pos hx, hx]
    simp
  · rw [if_neg hx, if_neg hx, List.lookup_cons, beq_false_of_ne hx]
    simp

/-- What a batch does to the map of values. -/
theorem get_edit (s : Entries κ ν) (puts : Puts κ ν) : (s.edit puts).get = putAll puts s.get := by
  induction puts generalizing s with
  | nil => rfl
  | cons p puts ih =>
    obtain ⟨k, v⟩ := p
    rw [edit, List.foldl_cons, ← edit, ih, putAll_cons]
    cases v with
    | none => rw [editOne, get_remove]
    | some v => rw [editOne, get_put]

/-- A key outside the batch keeps its value. -/
theorem get_edit_of_notMem {s : Entries κ ν} {puts : Puts κ ν} {k : κ} (h : k ∉ puts.map Prod.fst) :
    (s.edit puts).get k = s.get k := by
  rw [get_edit, putAll_of_notMem h]

/-- The entries listed are the keys with what they read as. -/
theorem mem_list_iff {s : Entries κ ν} {k : κ} {v : ν} : (k, v) ∈ s.list ↔ s.get k = some v := by
  obtain ⟨l, hl⟩ := s
  unfold get
  simp only
  induction l with
  | nil => simp
  | cons e l ih =>
    rw [List.map_cons, List.nodup_cons] at hl
    rw [List.mem_cons, List.lookup_cons]
    by_cases hk : k = e.1
    · subst hk
      rw [beq_self_eq_true]
      constructor
      · rintro (h | h)
        · rw [← h]
        · exact absurd (List.mem_map_of_mem h) hl.1
      · intro h
        cases h
        exact .inl rfl
    · rw [beq_false_of_ne hk]
      constructor
      · rintro (h | h)
        · exact absurd (congrArg Prod.fst h) hk
        · exact (ih hl.2).mp h
      · intro h
        exact .inr ((ih hl.2).mpr h)

end Entries

/-! ## Moving entries -/

/-- A move: source key, target key, value. -/
structure Move (κ ν : Type) where
  source : κ
  target : κ
  value : ν

/-- Put the value under the target, remove the source; move by move. -/
def movePuts (moves : List (Move κ ν)) : Puts κ ν :=
  moves.flatMap fun m => [(m.target, some m.value), (m.source, none)]

theorem movePuts_cons (m : Move κ ν) (moves : List (Move κ ν)) (f : κ → Option ν) :
    putAll (movePuts (m :: moves)) f =
      putAll (movePuts moves) (Function.update (Function.update f m.target (some m.value)) m.source none) := rfl

/-- A key that is neither a source nor a target keeps its value. -/
theorem putAll_move_other {x : κ} {moves : List (Move κ ν)} (hs : ∀ m ∈ moves, m.source ≠ x)
    (ht : ∀ m ∈ moves, m.target ≠ x) (f : κ → Option ν) : putAll (movePuts moves) f x = f x := by
  induction moves generalizing f with
  | nil => rfl
  | cons m moves ih =>
    rw [movePuts_cons, ih (fun n hn => hs n (by simp [hn])) (fun n hn => ht n (by simp [hn])),
      Function.update_of_ne (hs m (by simp)).symm, Function.update_of_ne (ht m (by simp)).symm]

/-- A key that is no target ends up empty when it is a source, or was empty. -/
theorem putAll_move_source {x : κ} {moves : List (Move κ ν)} (ht : ∀ m ∈ moves, m.target ≠ x) {f : κ → Option ν}
    (hs : f x = none ∨ ∃ m ∈ moves, m.source = x) : putAll (movePuts moves) f x = none := by
  induction moves generalizing f with
  | nil =>
    rcases hs with h | ⟨m, hm, _⟩
    · exact h
    · cases hm
  | cons m moves ih =>
    rw [movePuts_cons]
    apply ih fun n hn => ht n (by simp [hn])
    by_cases hx : m.source = x
    · rw [← hx, Function.update_self]; exact .inl rfl
    · rw [Function.update_of_ne (Ne.symm hx), Function.update_of_ne (ht m (by simp)).symm]
      rcases hs with h | ⟨n, hn, he⟩
      · exact .inl h
      · rcases List.mem_cons.mp hn with rfl | hn
        · exact absurd he hx
        · exact .inr ⟨n, hn, he⟩

/-- A key that is no source and to which only `v` is moved holds `v`, if it did before
or `v` is moved to it. -/
theorem putAll_move_target {x : κ} {v : ν} {moves : List (Move κ ν)} (hs : ∀ m ∈ moves, m.source ≠ x)
    (hv : ∀ m ∈ moves, m.target = x → m.value = v) {f : κ → Option ν}
    (ht : f x = some v ∨ ∃ m ∈ moves, m.target = x) : putAll (movePuts moves) f x = some v := by
  induction moves generalizing f with
  | nil =>
    rcases ht with h | ⟨m, hm, _⟩
    · exact h
    · cases hm
  | cons m moves ih =>
    rw [movePuts_cons]
    apply ih (fun n hn => hs n (by simp [hn])) (fun n hn => hv n (by simp [hn]))
    rw [Function.update_of_ne (hs m (by simp)).symm]
    by_cases hx : m.target = x
    · rw [← hx, Function.update_self, hv m (by simp) hx]; exact .inl rfl
    · rw [Function.update_of_ne (Ne.symm hx)]
      rcases ht with h | ⟨n, hn, he⟩
      · exact .inl h
      · rcases List.mem_cons.mp hn with rfl | hn
        · exact absurd he hx
        · exact .inr ⟨n, hn, he⟩

end KiloProxy.Store
