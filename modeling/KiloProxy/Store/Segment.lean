import Mathlib.Data.List.Basic
import Mathlib.Data.List.Infix

/-!
# Segments of an array

`Segment mem s xs`: the cells of `mem` from `s` on are `xs`. A write outside leaves a
segment as it is, and neighbouring segments are one.

Buffers that are written and read at computed places are followed in this way: what a
reader is to find is a segment, a writer overwrites cells outside of it, and a segment
is taken apart or put together where the reader or the writer moves on.
-/

namespace KiloProxy.Store
set_option autoImplicit false

variable {α : Type}

/-- `xs` stands in `mem` at `s`. -/
def Segment (mem : List α) (s : Nat) (xs : List α) : Prop := xs <+: mem.drop s

/-- `ys` is written over the cells from `d` on. -/
def overwrite (mem : List α) (d : Nat) (ys : List α) : List α := mem.take d ++ (ys ++ mem.drop (d + ys.length))

theorem overwrite_length {mem : List α} {d : Nat} {ys : List α} (h : d + ys.length ≤ mem.length) :
    (overwrite mem d ys).length = mem.length := by
  unfold overwrite
  rw [List.length_append, List.length_append, List.length_take, List.length_drop]
  omega

namespace Segment

variable {mem xs ys : List α} {s : Nat}

theorem nil (mem : List α) (s : Nat) : Segment mem s [] := List.nil_prefix

/-- The cells that are there. -/
theorem take_drop (mem : List α) (s n : Nat) : Segment mem s ((mem.drop s).take n) := List.take_prefix _ _

theorem eq_take (h : Segment mem s xs) : (mem.drop s).take xs.length = xs :=
  (List.prefix_iff_eq_take.mp h).symm

/-- The frame rule. -/
theorem set (h : Segment mem s xs) {i : Nat} (hi : i < s ∨ s + xs.length ≤ i) (w : α) : Segment (mem.set i w) s xs := by
  unfold Segment
  rcases Nat.lt_or_ge i s with hlt | hge
  · rw [List.drop_set_of_lt hlt]
    exact h
  · obtain ⟨t, ht⟩ := h
    rw [List.drop_set, if_neg (by omega), ← ht, List.set_append_right _ _ (by omega)]
    exact List.prefix_append _ _

/-- Two segments side by side are one. -/
theorem append (h : Segment mem s xs) (h' : Segment mem (s + xs.length) ys) : Segment mem s (xs ++ ys) := by
  obtain ⟨t, ht⟩ := h
  unfold Segment at h' ⊢
  rw [← List.drop_drop, ← ht, List.drop_left] at h'
  rw [← ht, List.prefix_append_right_inj]
  exact h'

theorem left (h : Segment mem s (xs ++ ys)) : Segment mem s xs := (List.prefix_append _ _).trans h

/-- The second part of a segment starts where the first ends. -/
theorem right (h : Segment mem s (xs ++ ys)) : Segment mem (s + xs.length) ys := by
  obtain ⟨t, ht⟩ := h
  unfold Segment
  rw [← List.drop_drop, ← ht, List.append_assoc, List.drop_left]
  exact List.prefix_append _ _

/-- The cell just written, and those behind it. -/
theorem cons_set {i : Nat} (hi : i < mem.length) (w : α) (h : Segment mem (i + 1) xs) :
    Segment (mem.set i w) i (w :: xs) := by
  unfold Segment at h ⊢
  rw [List.drop_eq_getElem_cons (by rw [List.length_set]; exact hi), List.getElem_set_self,
    List.drop_set_of_lt (Nat.lt_succ_self i)]
  exact (List.prefix_cons_inj w).mpr h

theorem drop (h : Segment mem s xs) (k : Nat) : Segment mem (s + k) (xs.drop k) := by
  unfold Segment at h ⊢
  rw [← List.drop_drop]
  exact List.IsPrefix.drop h k

/-- What was written stands there. -/
theorem written {d : Nat} (hd : d ≤ mem.length) : Segment (overwrite mem d ys) d ys := by
  unfold Segment overwrite
  rw [List.drop_left' (by rw [List.length_take, Nat.min_eq_left hd])]
  exact List.prefix_append _ _

/-- What lies before the cells written stays. -/
theorem before {d : Nat} (h : Segment mem s xs) (hd : s + xs.length ≤ d) : Segment (overwrite mem d ys) s xs := by
  obtain ⟨t, ht⟩ := h
  unfold Segment overwrite
  rcases Nat.lt_or_ge mem.length s with hlt | hge
  · have hnil : xs = [] := by
      rw [List.drop_of_length_le (Nat.le_of_lt hlt)] at ht
      exact (List.append_eq_nil_iff.mp ht).1
    rw [hnil]
    exact List.nil_prefix
  · rcases Nat.lt_or_ge mem.length d with hlong | hshort
    · rw [List.take_of_length_le (Nat.le_of_lt hlong), List.drop_append_of_le_length hge, ← ht, List.append_assoc]
      exact List.prefix_append _ _
    · rw [List.drop_append_of_le_length (by rw [List.length_take]; omega), List.drop_take, ← ht,
        List.take_append, List.take_of_length_le (by omega), List.append_assoc]
      exact List.prefix_append _ _

/-- A segment starts with its first element. -/
theorem head {x : α} (h : Segment mem s (x :: xs)) : mem[s]? = some x := by
  obtain ⟨t, ht⟩ := h
  have hget : (mem.drop s)[0]? = some x := by rw [← ht]; rfl
  rwa [List.getElem?_drop, Nat.add_zero] at hget

end Segment

end KiloProxy.Store
