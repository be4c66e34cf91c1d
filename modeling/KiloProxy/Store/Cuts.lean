import KiloProxy.Store.Entries

/-!
# Sequences of edits cut short

A call makes a sequence of edits, each of them durable at once, and may be cut after
any number of them. `view` is what is looked at afterwards. The call is atomic when
every cut shows what was there before or what the whole call leaves
(`CrashAtomic`); where one edit makes all the difference, the others have to show
nothing (`crashAtomic_last`, `crashAtomic_first`).
-/

namespace KiloProxy.Store
set_option autoImplicit false

section Cuts

variable {σ ε β : Type} (apply : σ → ε → σ) (view : σ → β)

/-- The state after the first `k` edits. -/
def cut (s : σ) (es : List ε) (k : Nat) : σ := (es.take k).foldl apply s

/-- The state after all of them. -/
def whole (s : σ) (es : List ε) : σ := es.foldl apply s

/-- Every cut shows the state before or the state after. -/
def CrashAtomic (s : σ) (es : List ε) : Prop :=
  ∀ k, view (cut apply s es k) = view s ∨ view (cut apply s es k) = view (whole apply s es)

/-- No edit shows. -/
def Quiet (s : σ) : List ε → Prop
  | [] => True
  | e :: es => view (apply s e) = view s ∧ Quiet (apply s e) es

@[simp] theorem cut_zero (s : σ) (es : List ε) : cut apply s es 0 = s := rfl

@[simp] theorem cut_nil (s : σ) (k : Nat) : cut apply s [] k = s := by
  rw [cut, List.take_nil, List.foldl_nil]

@[simp] theorem cut_cons (s : σ) (e : ε) (es : List ε) (k : Nat) :
    cut apply s (e :: es) (k + 1) = cut apply (apply s e) es k := rfl

/-- A cut behind the last edit is the whole. -/
theorem cut_of_le {s : σ} {es : List ε} {k : Nat} (h : es.length ≤ k) : cut apply s es k = whole apply s es := by
  rw [cut, List.take_of_length_le h, whole]

/-- A cut inside the first edits does not see the later ones. -/
theorem cut_append {s : σ} {es : List ε} {k : Nat} (h : k ≤ es.length) (es' : List ε) :
    cut apply s (es ++ es') k = cut apply s es k := by
  rw [cut, List.take_append_of_le_length h, cut]

/-- Quiet edits show the first state at every cut. -/
theorem cuts_iff_quiet {s : σ} {es : List ε} : (∀ k, view (cut apply s es k) = view s) ↔ Quiet apply view s es := by
  induction es generalizing s with
  | nil => simp [Quiet]
  | cons e es ih =>
    constructor
    · intro h
      have hfirst : view (apply s e) = view s := h 1
      refine ⟨hfirst, ih.mp fun k => ?_⟩
      rw [hfirst]
      exact h (k + 1)
    · rintro ⟨hfirst, hrest⟩ k
      cases k with
      | zero => rfl
      | succ k => exact (ih.mpr hrest k).trans hfirst

/-- Edits in turn are quiet when each part is where it starts. -/
theorem quiet_append {s : σ} {es es' : List ε} :
    Quiet apply view s (es ++ es') ↔ Quiet apply view s es ∧ Quiet apply view (whole apply s es) es' := by
  induction es generalizing s with
  | nil => simp [Quiet, whole]
  | cons e es ih =>
    have hstep : whole apply s (e :: es) = whole apply (apply s e) es := rfl
    rw [List.cons_append, hstep]
    constructor
    · rintro ⟨hfirst, hrest⟩
      exact ⟨⟨hfirst, (ih.mp hrest).1⟩, (ih.mp hrest).2⟩
    · rintro ⟨⟨hfirst, hes⟩, hes'⟩
      exact ⟨hfirst, ih.mpr ⟨hes, hes'⟩⟩

/-- Quiet edits leave the view. -/
theorem Quiet.whole {s : σ} {es : List ε} (h : Quiet apply view s es) : view (whole apply s es) = view s := by
  rw [← cut_of_le apply (Nat.le_refl es.length)]
  exact (cuts_iff_quiet apply view).mpr h _

/-- When only the last edit leads to the final view, the others must be quiet. -/
theorem crashAtomic_last {s : σ} {front : List ε} {e : ε}
    (hne : ∀ k, view (cut apply s front k) ≠ view (whole apply s (front ++ [e]))) :
    CrashAtomic apply view s (front ++ [e]) ↔ Quiet apply view s front := by
  rw [← cuts_iff_quiet]
  constructor
  · intro h k
    have hk : cut apply s front k = cut apply s (front ++ [e]) (min k front.length) := by
      rw [cut_append apply (Nat.min_le_right _ _), cut, cut, List.take_eq_take_min]
    rw [hk]
    apply (h _).resolve_right
    rw [← hk]
    exact hne k
  · intro h k
    by_cases hk : k ≤ front.length
    · rw [cut_append apply hk]
      exact .inl (h k)
    · apply Or.inr
      rw [cut_of_le]
      rw [List.length_append, List.length_singleton]
      omega

/-- When the first edit leaves the first view for good, the others must be quiet. -/
theorem crashAtomic_first {s : σ} {e : ε} {rest : List ε}
    (hne : ∀ k, view (cut apply (apply s e) rest k) ≠ view s) :
    CrashAtomic apply view s (e :: rest) ↔ Quiet apply view (apply s e) rest := by
  have hwhole : whole apply s (e :: rest) = whole apply (apply s e) rest := rfl
  constructor
  · intro h
    have hend : ∀ k, view (cut apply (apply s e) rest k) = view (whole apply (apply s e) rest) :=
      fun k => (h (k + 1)).resolve_left (hne k)
    apply (cuts_iff_quiet apply view).mp
    intro k
    exact (hend k).trans (hend 0).symm
  · intro h k
    cases k with
    | zero => exact .inl rfl
    | succ k =>
      apply Or.inr
      rw [cut_cons, hwhole, h.whole]
      exact (cuts_iff_quiet apply view).mpr h k

end Cuts

/-! ## What a batch writes to a key -/

variable {κ ν : Type} [DecidableEq κ]

/-- The last thing that a batch writes to a key. -/
def lastWrite : Puts κ ν → κ → Option (Option ν)
  | [], _ => none
  | (k, v) :: puts, x => (lastWrite puts x).or (if x = k then some v else none)

/-- Of several writes of a key the last one counts. -/
theorem putAll_apply (puts : Puts κ ν) (m : κ → Option ν) (k : κ) :
    putAll puts m k = (lastWrite puts k).getD (m k) := by
  induction puts generalizing m with
  | nil => rfl
  | cons p puts ih =>
    obtain ⟨x, v⟩ := p
    rw [putAll_cons, ih, lastWrite, Function.update_apply]
    cases lastWrite puts k with
    | some w => rfl
    | none =>
      rw [Option.none_or]
      split
      · rfl
      · rfl

theorem Entries.get_edit_apply (s : Entries κ ν) (puts : Puts κ ν) (k : κ) :
    (s.edit puts).get k = (lastWrite puts k).getD (s.get k) := by
  rw [Entries.get_edit, putAll_apply]

/-- The last write is one of the writes. -/
theorem mem_of_lastWrite {puts : Puts κ ν} {k : κ} {w : Option ν} (h : lastWrite puts k = some w) : (k, w) ∈ puts := by
  induction puts with
  | nil => cases h
  | cons p puts ih =>
    rw [lastWrite] at h
    cases hrest : lastWrite puts k with
    | some w' =>
      rw [hrest, Option.some_or] at h
      obtain rfl := Option.some.inj h
      exact List.mem_cons_of_mem _ (ih hrest)
    | none =>
      rw [hrest, Option.none_or] at h
      split at h
      · rename_i hk
        obtain rfl := Option.some.inj h
        rw [hk]
        exact List.mem_cons_self
      · cases h

/-- Later writes come first. -/
theorem lastWrite_append (puts puts' : Puts κ ν) (k : κ) :
    lastWrite (puts ++ puts') k = (lastWrite puts' k).or (lastWrite puts k) := by
  induction puts with
  | nil => rw [List.nil_append, lastWrite, Option.or_none]
  | cons p puts ih => rw [List.cons_append, lastWrite, lastWrite, ih, Option.or_assoc]

theorem notMem_of_lastWrite {puts : Puts κ ν} {k : κ} (h : lastWrite puts k = none) : k ∉ puts.map Prod.fst := by
  induction puts with
  | nil => simp
  | cons p puts ih =>
    rw [lastWrite, Option.or_eq_none_iff] at h
    obtain ⟨hrest, hhead⟩ := h
    rw [List.map_cons, List.mem_cons, not_or]
    refine ⟨fun he => ?_, ih hrest⟩
    rw [if_pos he] at hhead
    cases hhead

omit [DecidableEq κ] in
/-- A move writes where it goes and where it comes from. -/
theorem target_mem_movePuts {moves : List (Move κ ν)} {m : Move κ ν} (h : m ∈ moves) :
    m.target ∈ (movePuts moves).map Prod.fst := by
  rw [movePuts, List.map_flatMap]
  exact List.mem_flatMap.mpr ⟨m, h, List.mem_cons_self⟩

omit [DecidableEq κ] in
theorem source_mem_movePuts {moves : List (Move κ ν)} {m : Move κ ν} (h : m ∈ moves) :
    m.source ∈ (movePuts moves).map Prod.fst := by
  rw [movePuts, List.map_flatMap]
  exact List.mem_flatMap.mpr ⟨m, h, List.mem_cons_of_mem _ List.mem_cons_self⟩

/-- The last move of a batch: its source is empty afterwards, its target filled. -/
theorem lastWrite_move_last (moves : List (Move κ ν)) (m : Move κ ν) (k : κ) :
    lastWrite (movePuts (moves ++ [m])) k =
      if k = m.source then some none
      else if k = m.target then some (some m.value)
      else lastWrite (movePuts moves) k := by
  have hsplit : movePuts (moves ++ [m]) = movePuts moves ++ [(m.target, some m.value), (m.source, none)] := by
    unfold movePuts
    rw [List.flatMap_append, List.flatMap_singleton]
  rw [hsplit, lastWrite_append, lastWrite, lastWrite, lastWrite, Option.none_or]
  split
  · rfl
  · rw [Option.none_or]
    split
    · rfl
    · rfl

/-- A batch that writes every key once. -/
theorem lastWrite_iff_mem {puts : Puts κ ν} (hnodup : (puts.map Prod.fst).Nodup) {k : κ} {w : Option ν} :
    lastWrite puts k = some w ↔ (k, w) ∈ puts := by
  refine ⟨mem_of_lastWrite, fun h => ?_⟩
  induction puts with
  | nil => cases h
  | cons p puts ih =>
    obtain ⟨x, v⟩ := p
    rw [List.map_cons, List.nodup_cons] at hnodup
    rw [lastWrite]
    cases List.mem_cons.mp h with
    | inl he =>
      obtain ⟨rfl, rfl⟩ := Prod.mk.inj he
      rw [if_pos rfl]
      cases hrest : lastWrite puts k with
      | none => rfl
      | some w' => exact absurd (List.mem_map_of_mem (mem_of_lastWrite hrest)) hnodup.1
    | inr hmem => rw [ih hnodup.2 hmem, Option.some_or]

end KiloProxy.Store
