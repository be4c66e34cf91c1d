import Mathlib.Data.List.DropRight
import Mathlib.Data.List.Infix

/-!
# Lines, their ends and runs of breaks

Texts over any alphabet with a separator. `EndsClean` follows a text symbol by symbol and
says that no piece ends in a blank; `RunsAtMost k` that no more than `k` separators stand in
a row. `squeeze k` cuts longer runs to `k`: it keeps the ends of the pieces, gives a text
with short runs, and leaves such a text alone.
-/

namespace KiloProxy.Text
set_option autoImplicit false

section

variable {α : Type} {sep : α} {blank : α → Bool}

/-- The symbol before a separator or the end is not blank; `behind` is whether the one
before the text is. -/
def EndsClean (sep : α) (blank : α → Bool) (behind : Bool) : List α → Prop
  | [] => behind = false
  | c :: cs => (c = sep → behind = false) ∧ EndsClean sep blank (blank c) cs

/-! ## The ends of the pieces -/

namespace EndsClean

theorem mono {behind : Bool} {s : List α} (h : EndsClean sep blank behind s) : EndsClean sep blank false s := by
  cases s with
  | nil => rfl
  | cons c cs => exact ⟨fun _ => rfl, h.2⟩

/-- Some separators before the text. -/
theorem replicate_append (hsep : blank sep = false) {behind : Bool} (n : Nat) {s : List α} :
    EndsClean sep blank behind (List.replicate (n + 1) sep ++ s) ↔ behind = false ∧ EndsClean sep blank false s := by
  induction n generalizing behind with
  | zero =>
    constructor
    · rintro ⟨hbehind, hrest⟩
      exact ⟨hbehind rfl, hsep ▸ hrest⟩
    · rintro ⟨hbehind, hrest⟩
      exact ⟨fun _ => hbehind, hsep.symm ▸ hrest⟩
  | succ n ih =>
    rw [List.replicate_succ, List.cons_append]
    constructor
    · rintro ⟨hbehind, hrest⟩
      exact ⟨hbehind rfl, (ih.mp hrest).2⟩
    · rintro ⟨hbehind, hrest⟩
      exact ⟨fun _ => hbehind, ih.mpr ⟨hsep, hrest⟩⟩

/-- What stands behind a cut. -/
theorem right {behind : Bool} {s t : List α} (h : EndsClean sep blank behind (s ++ t)) : EndsClean sep blank false t := by
  induction s generalizing behind with
  | nil => exact h.mono
  | cons c s ih => exact ih h.2

/-- What stands before a cut behind a symbol that is not blank. -/
theorem left {behind : Bool} {s t : List α} (h : EndsClean sep blank behind (s ++ t))
    (hlast : (s.getLast?.map blank).getD behind = false) : EndsClean sep blank behind s := by
  induction s generalizing behind with
  | nil => exact hlast
  | cons c s ih =>
    refine ⟨h.1, ih h.2 ?_⟩
    rw [List.getLast?_cons] at hlast
    cases hs : s.getLast? with
    | none => simpa [hs] using hlast
    | some d => simpa [hs] using hlast

end EndsClean

/-- What joined pieces hold. -/
theorem mem_joined {pieces : List (List α)} {c : α} (h : c ∈ [sep].intercalate pieces) :
    c = sep ∨ ∃ piece ∈ pieces, c ∈ piece := by
  induction pieces with
  | nil => cases h
  | cons piece pieces ih =>
    by_cases hne : pieces = []
    · subst hne
      rw [List.intercalate_singleton] at h
      exact .inr ⟨piece, List.mem_cons_self, h⟩
    · rw [List.intercalate_cons_of_ne_nil hne] at h
      obtain h | h := List.mem_append.mp h
      · obtain h | h := List.mem_append.mp h
        · exact .inr ⟨piece, List.mem_cons_self, h⟩
        · exact .inl (List.mem_singleton.mp h)
      · obtain h | ⟨q, hq, hc⟩ := ih h
        · exact .inl h
        · exact .inr ⟨q, List.mem_cons_of_mem _ hq, hc⟩

/-- Another symbol ends a run. -/
theorem replicate_infix_cut {k n : Nat} {c : α} {s : List α} (hc : c ≠ sep) :
    List.replicate (k + 1) sep <:+: List.replicate n sep ++ c :: s ↔
      k + 1 ≤ n ∨ List.replicate (k + 1) sep <:+: s := by
  constructor
  · intro h
    obtain hrun | hrest | ⟨l₁, l₂, hl, hl₁, hl₂⟩ := List.infix_append_iff.mp h
    · exact .inl (by simpa using (List.infix_replicate_iff.mp hrun).1)
    · obtain ⟨t, ht⟩ | hrest := List.infix_cons_iff.mp hrest
      · exact absurd (List.cons.inj ht).1.symm hc
      · exact .inr hrest
    · cases l₂ with
      | nil =>
        rw [List.append_nil] at hl
        rw [← hl] at hl₁
        exact .inl (by simpa using hl₁.length_le)
      | cons d l₂ =>
        have hd : d ∈ List.replicate (k + 1) sep := hl ▸ List.mem_append_right _ List.mem_cons_self
        exact absurd ((List.cons_prefix_cons.mp hl₂).1.symm.trans (List.eq_of_mem_replicate hd)) hc
  · rintro (h | h)
    · obtain ⟨m, rfl⟩ := Nat.exists_eq_add_of_le h
      have hrun : List.replicate (k + 1 + m) sep = List.replicate (k + 1) sep ++ List.replicate m sep :=
        List.replicate_add _ _ _
      rw [hrun, List.append_assoc]
      exact (List.prefix_append _ _).isInfix
    · exact h.trans ((List.suffix_cons c s).trans (List.suffix_append _ _)).isInfix

variable [DecidableEq α]

/-- No more than `k` separators in a row; `n` stand before the text. -/
def RunsAtMost (sep : α) (k n : Nat) : List α → Prop
  | [] => n ≤ k
  | c :: cs => if c = sep then RunsAtMost sep k (n + 1) cs else n ≤ k ∧ RunsAtMost sep k 0 cs

/-- The text with every longer run of separators cut to `k`; `n` are still to be written. -/
def squeeze (sep : α) (k n : Nat) : List α → List α
  | [] => List.replicate (min n k) sep
  | c :: cs => if c = sep then squeeze sep k (n + 1) cs else List.replicate (min n k) sep ++ c :: squeeze sep k 0 cs

/-- What a piece holds is in the text. -/
theorem mem_of_mem_piece {s piece : List α} {c : α} (h : piece ∈ s.splitOn sep) (hc : c ∈ piece) : c ∈ s := by
  induction s generalizing piece with
  | nil =>
    rw [List.splitOn_nil, List.mem_singleton] at h
    rwa [h] at hc
  | cons d s ih =>
    obtain ⟨first, rest, hsplit⟩ := List.exists_cons_of_ne_nil (List.splitOn_ne_nil sep s)
    rw [hsplit] at ih
    rw [List.splitOn_cons_eq_if_modifyHead, hsplit] at h
    split at h
    · obtain rfl | h := List.mem_cons.mp h
      · cases hc
      · exact List.mem_cons_of_mem d (ih h hc)
    · rw [List.modifyHead_cons] at h
      obtain rfl | h := List.mem_cons.mp h
      · obtain rfl | hc := List.mem_cons.mp hc
        · exact List.mem_cons_self
        · exact List.mem_cons_of_mem d (ih List.mem_cons_self hc)
      · exact List.mem_cons_of_mem d (ih (List.mem_cons_of_mem _ h) hc)

namespace EndsClean

/-- The text is clean exactly when no piece ends in a blank, and the first one is only empty
when nothing blank stands before it. -/
theorem iff_pieces (hsep : blank sep = false) {behind : Bool} {s : List α} : EndsClean sep blank behind s ↔
    ((s.splitOn sep).head? = some [] → behind = false) ∧ ∀ piece ∈ s.splitOn sep, ∀ c ∈ piece.getLast?, blank c = false := by
  induction s generalizing behind with
  | nil => simp [EndsClean]
  | cons c s ih =>
    obtain ⟨first, rest, hsplit⟩ := List.exists_cons_of_ne_nil (List.splitOn_ne_nil sep s)
    rw [hsplit] at ih
    rw [List.splitOn_cons_eq_if_modifyHead, EndsClean, ih, hsplit]
    by_cases hc : c = sep
    · subst hc
      simp [hsep]
    · rw [if_neg (by simpa using hc), List.modifyHead_cons]
      cases first with
      | nil => simp [hc]
      | cons d first => simp [hc, List.getLast?_cons_cons]

/-- Shorter runs end where the runs ended. -/
theorem squeeze (hsep : blank sep = false) (k : Nat) {behind : Bool} {n : Nat} {s : List α}
    (h : EndsClean sep blank behind (List.replicate n sep ++ s)) : EndsClean sep blank behind (squeeze sep k n s) := by
  have hrun : ∀ {behind : Bool} {n : Nat} {t : List α}, EndsClean sep blank behind (List.replicate n sep ++ t) →
      EndsClean sep blank behind (List.replicate (min n k) sep ++ t) := by
    intro behind n t ht
    cases hmin : min n k with
    | zero =>
      cases n with
      | zero => exact ht
      | succ n =>
        obtain ⟨rfl, hrest⟩ := (replicate_append hsep n).mp ht
        exact hrest
    | succ m =>
      cases n with
      | zero => rw [Nat.zero_min] at hmin; cases hmin
      | succ n => exact (replicate_append hsep m).mpr ((replicate_append hsep n).mp ht)
  induction s generalizing behind n with
  | nil =>
    have hend := hrun h
    rwa [List.append_nil] at hend
  | cons c s ih =>
    unfold Text.squeeze
    split
    · rename_i hc
      apply ih
      rw [hc, ← List.singleton_append, ← List.append_assoc] at h
      rwa [List.replicate_succ']
    · apply hrun
      cases n with
      | zero => exact ⟨h.1, ih h.2⟩
      | succ n =>
        obtain ⟨hbehind, hhere, hrest⟩ := (replicate_append hsep n).mp h
        exact (replicate_append hsep n).mpr ⟨hbehind, hhere, ih hrest⟩

end EndsClean

/-! ## Runs -/

namespace RunsAtMost

theorem replicate_append {k n : Nat} (m : Nat) {s : List α} :
    RunsAtMost sep k n (List.replicate m sep ++ s) ↔ RunsAtMost sep k (n + m) s := by
  induction m generalizing n with
  | zero => rfl
  | succ m ih =>
    rw [List.replicate_succ, List.cons_append, RunsAtMost, if_pos rfl, ih, Nat.add_right_comm, Nat.add_assoc]

/-- No longer run of separators occurs. -/
theorem iff_no_run {k n : Nat} {s : List α} : RunsAtMost sep k n s ↔
    ¬ List.replicate (k + 1) sep <:+: List.replicate n sep ++ s := by
  induction s generalizing n with
  | nil =>
    rw [RunsAtMost, List.append_nil, List.infix_replicate_iff, List.length_replicate, and_iff_left rfl]
    omega
  | cons c s ih =>
    rw [RunsAtMost]
    split
    · rename_i hc
      have hshift : List.replicate n sep ++ sep :: s = List.replicate (n + 1) sep ++ s := by
        rw [List.replicate_succ', List.append_assoc, List.singleton_append]
      rw [ih, hc, hshift]
    · rename_i hc
      rw [ih, replicate_infix_cut hc, List.replicate_zero, List.nil_append, not_or]
      exact and_congr_left' (by omega)

/-- The cut runs are short. -/
theorem squeeze {k n : Nat} {s : List α} : RunsAtMost sep k 0 (squeeze sep k n s) := by
  induction s generalizing n with
  | nil =>
    have hend : RunsAtMost sep k 0 (List.replicate (min n k) sep ++ []) :=
      (replicate_append _).mpr (by rw [Nat.zero_add]; exact Nat.min_le_right n k)
    rwa [List.append_nil] at hend
  | cons c s ih =>
    unfold Text.squeeze
    split
    · exact ih
    · rename_i hc
      rw [replicate_append, RunsAtMost, if_neg hc, Nat.zero_add]
      exact ⟨Nat.min_le_right n k, ih⟩

/-- A text with short runs is left alone. -/
theorem squeeze_eq {k n : Nat} {s : List α} (h : RunsAtMost sep k n s) :
    Text.squeeze sep k n s = List.replicate n sep ++ s := by
  induction s generalizing n with
  | nil =>
    have hmin : min n k = n := Nat.min_eq_left h
    rw [Text.squeeze, hmin, List.append_nil]
  | cons c s ih =>
    rw [RunsAtMost] at h
    unfold Text.squeeze
    split
    · rename_i hc
      rw [if_pos hc] at h
      rw [ih h, hc, List.replicate_succ', List.append_assoc, List.singleton_append]
    · rename_i hc
      rw [if_neg hc] at h
      rw [ih h.2, Nat.min_eq_left h.1]
      rfl

end RunsAtMost

/-- Squeezing adds nothing but separators. -/
theorem mem_squeeze {k n : Nat} {s : List α} {c : α} (h : c ∈ squeeze sep k n s) : c = sep ∨ c ∈ s := by
  induction s generalizing n with
  | nil => exact .inl (List.eq_of_mem_replicate h)
  | cons d s ih =>
    unfold squeeze at h
    split at h
    · exact (ih h).imp_right (List.mem_cons_of_mem d)
    · obtain hrun | hrest := List.mem_append.mp h
      · exact .inl (List.eq_of_mem_replicate hrun)
      · obtain rfl | hrest := List.mem_cons.mp hrest
        · exact .inr List.mem_cons_self
        · exact (ih hrest).imp_right (List.mem_cons_of_mem d)

end

end KiloProxy.Text
