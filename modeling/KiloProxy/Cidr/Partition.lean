import KiloProxy.Cidr.Siblings
import Mathlib.Data.Set.BooleanAlgebra
import Mathlib.Order.CompletePartialOrder

/-!
# Cutting one element out of a set

`CutOut t whole parts` says that the sets of the list are `whole` without `t`, each element
once. A list grows by one set at a time: what is cut out of one part of a set is cut out of
the set once the other part is put in front (`CutOut.cons`). The halving loop cuts its
target out of its block (`bisect_cutOut`), wherever the block starts; from an aligned start
it leaves aligned blocks behind (`bisect_aligned`).
-/

namespace KiloProxy.Cidr
set_option autoImplicit false

variable {α : Type}

/-- The sets in `parts`, no two of which meet, are `whole` without `t`. -/
structure CutOut (t : α) (whole : Set α) (parts : List (Set α)) : Prop where
  disjoint : parts.Pairwise Disjoint
  spares : ∀ p ∈ parts, t ∉ p
  cover : ∀ a, a ∈ whole ↔ a = t ∨ ∃ p ∈ parts, a ∈ p

namespace CutOut

variable {t : α} {half rest whole : Set α} {parts : List (Set α)}

theorem mem_whole (h : CutOut t whole parts) : t ∈ whole := (h.cover t).mpr (.inl rfl)

theorem subset (h : CutOut t whole parts) {p : Set α} (hp : p ∈ parts) : p ⊆ whole := fun a ha =>
  (h.cover a).mpr (.inr ⟨p, hp, ha⟩)

/-- Nothing is left of a set of one element. -/
theorem single (h : ∀ a, a ∈ whole ↔ a = t) : CutOut t whole [] where
  disjoint := .nil
  spares := fun _ hp => by cases hp
  cover := fun a => by
    rw [h a]
    exact ⟨.inl, fun ha => ha.elim id fun ⟨_, hp, _⟩ => by cases hp⟩

/-- The other part of the set is kept whole. -/
theorem cons (h : CutOut t rest parts) (apart : Disjoint half rest) (hw : ∀ a, a ∈ whole ↔ a ∈ half ∨ a ∈ rest) :
    CutOut t whole (half :: parts) where
  disjoint := List.pairwise_cons.mpr ⟨fun _ hp => apart.mono_right (h.subset hp), h.disjoint⟩
  spares := by
    intro p hp
    obtain rfl | hp := List.mem_cons.mp hp
    · exact fun ht => Set.disjoint_left.mp apart ht h.mem_whole
    · exact h.spares p hp
  cover := by
    intro a
    rw [hw, h.cover]
    constructor
    · rintro (hhalf | rfl | ⟨p, hp, ha⟩)
      · exact .inr ⟨half, List.mem_cons_self, hhalf⟩
      · exact .inl rfl
      · exact .inr ⟨p, List.mem_cons_of_mem _ hp, ha⟩
    · rintro (rfl | ⟨p, hp, ha⟩)
      · exact .inr (.inl rfl)
      · obtain rfl | hp := List.mem_cons.mp hp
        · exact .inl ha
        · exact .inr (.inr ⟨p, hp, ha⟩)

end CutOut

/-- The addresses of a block, given by its first one and its size exponent. -/
def cell (c : Nat × Nat) : Set Nat := Set.Ico c.1 (c.1 + 2 ^ c.2)

theorem mem_cell {e j a : Nat} : a ∈ cell (e, j) ↔ e ≤ a ∧ a < e + 2 ^ j := Set.mem_Ico

/-- A block is its two halves. -/
theorem mem_cell_succ {e j a : Nat} : a ∈ cell (e, j + 1) ↔ a ∈ cell (e, j) ∨ a ∈ cell (e + 2 ^ j, j) := by
  have double : 2 ^ (j + 1) = 2 ^ j + 2 ^ j := by ring
  rw [mem_cell, mem_cell, mem_cell]
  omega

theorem cell_halves (e j : Nat) : Disjoint (cell (e, j)) (cell (e + 2 ^ j, j)) := by
  rw [Set.disjoint_left]
  intro a hlow hhigh
  rw [mem_cell] at hlow hhigh
  omega

/-- The loop cuts its target out of its block. The induction is on the size of the block; the
half without the target is left behind, the other one goes on. -/
theorem bisect_cutOut {t n cur : Nat} (h : t ∈ cell (cur, n)) :
    CutOut t (cell (cur, n)) ((bisect t n cur).map cell) := by
  induction n generalizing cur with
  | zero =>
    apply CutOut.single
    intro a
    rw [mem_cell] at h ⊢
    omega
  | succ n ih =>
    have hin := mem_cell_succ.mp h
    rw [bisect]
    split
    · rename_i low
      have hlow : t ∈ cell (cur, n) := hin.resolve_right fun hhigh => by
        rw [mem_cell] at hhigh
        omega
      refine (ih hlow).cons (cell_halves cur n).symm fun a => ?_
      rw [mem_cell_succ, or_comm]
    · rename_i high
      have hhigh : t ∈ cell (cur + 2 ^ n, n) := hin.resolve_left fun hlow => by
        rw [mem_cell] at hlow
        omega
      exact (ih hhigh).cons (cell_halves cur n) fun a => mem_cell_succ

theorem mod_two_pow_of_succ {e n : Nat} (h : e % 2 ^ (n + 1) = 0) : e % 2 ^ n = 0 :=
  Nat.mod_eq_zero_of_dvd ((Nat.pow_dvd_pow 2 (Nat.le_succ n)).trans (Nat.dvd_of_mod_eq_zero h))

/-- From an aligned start every block left behind is aligned. -/
theorem bisect_aligned {t n cur : Nat} (h : cur % 2 ^ n = 0) : ∀ c ∈ bisect t n cur, c.1 % 2 ^ c.2 = 0 := by
  induction n generalizing cur with
  | zero =>
    intro c hc
    cases hc
  | succ n ih =>
    have hlow : cur % 2 ^ n = 0 := mod_two_pow_of_succ h
    have hhigh : (cur + 2 ^ n) % 2 ^ n = 0 := by rw [Nat.add_mod_right, hlow]
    intro c hc
    rw [bisect] at hc
    split at hc
    · obtain rfl | hc := List.mem_cons.mp hc
      · exact hhigh
      · exact ih hlow c hc
    · obtain rfl | hc := List.mem_cons.mp hc
      · exact hlow
      · exact ih hhigh c hc

/-- One block is left behind of every size below that of the whole, the largest first. -/
theorem bisect_sizes (t n cur : Nat) : (bisect t n cur).map Prod.snd = (List.range n).reverse := by
  induction n generalizing cur with
  | zero => rfl
  | succ n ih =>
    rw [List.range_succ, List.reverse_append, List.reverse_singleton, List.singleton_append, bisect]
    split
    · rw [List.map_cons, ih]
    · rw [List.map_cons, ih]

theorem bisect_size_lt {t n cur : Nat} {c : Nat × Nat} (hc : c ∈ bisect t n cur) : c.2 < n := by
  have hmem : c.2 ∈ (bisect t n cur).map Prod.snd := List.mem_map_of_mem hc
  rw [bisect_sizes, List.mem_reverse, List.mem_range] at hmem
  exact hmem

/-- The loop stays in the interval it starts with, wherever its target lies. -/
theorem bisect_within {t n cur : Nat} : ∀ c ∈ bisect t n cur, cell c ⊆ cell (cur, n) := by
  induction n generalizing cur with
  | zero =>
    intro c hc
    cases hc
  | succ n ih =>
    have hlow : cell (cur, n) ⊆ cell (cur, n + 1) := fun a ha => mem_cell_succ.mpr (.inl ha)
    have hhigh : cell (cur + 2 ^ n, n) ⊆ cell (cur, n + 1) := fun a ha => mem_cell_succ.mpr (.inr ha)
    intro c hc
    rw [bisect] at hc
    split at hc
    · obtain rfl | hc := List.mem_cons.mp hc
      · exact hhigh
      · exact (ih c hc).trans hlow
    · obtain rfl | hc := List.mem_cons.mp hc
      · exact hlow
      · exact (ih c hc).trans hhigh

end KiloProxy.Cidr
