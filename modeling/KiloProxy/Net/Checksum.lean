import KiloProxy.Net.Fields
import Mathlib.Algebra.BigOperators.Group.List.Basic

/-!
# Sums in one's complement

The sum of the words of a byte string, with the carries added back, is the sum modulo
65535; its complement, put in a place where zero was, makes the whole sum to 65535.
-/

namespace KiloProxy.Net
set_option autoImplicit false

/-- The sum of the words in network order; a last byte alone is left out. -/
def wordSum : List UInt8 → Nat
  | a :: b :: s => a.toNat * 256 + b.toNat + wordSum s
  | _ => 0

/-- `while (t >> 16) t = (t & 0xFFFF) + (t >> 16)`. -/
def carried (t : Nat) : Nat := if t / 65536 = 0 then t else carried (t % 65536 + t / 65536)
termination_by t
decreasing_by omega

/-- Adding the carries back changes nothing modulo 65535, and no sum but that of nothing is zero. -/
theorem carried_spec (t : Nat) : carried t ≤ 65535 ∧ carried t % 65535 = t % 65535 ∧ (0 < t → 0 < carried t) := by
  induction t using carried.induct with
  | case1 t h =>
    rw [carried, if_pos h]
    exact ⟨by omega, rfl, id⟩
  | case2 t h ih =>
    obtain ⟨hle, hmod, hpos⟩ := ih
    rw [carried, if_neg h]
    exact ⟨hle, by omega, fun _ => hpos (by omega)⟩

/-- A sum is told by its bound, its rest and whether it is zero. -/
theorem carried_eq_iff {t : Nat} : carried t = 65535 ↔ 0 < t ∧ t % 65535 = 0 := by
  obtain ⟨hle, hmod, hpos⟩ := carried_spec t
  constructor
  · intro h
    refine ⟨Nat.pos_of_ne_zero fun hzero => ?_, by omega⟩
    subst hzero
    rw [carried] at h
    simp at h
  · rintro ⟨ht, hzero⟩
    have := hpos ht
    omega

/-- **The complement of a sum completes it.** -/
theorem carried_complement (t : Nat) : carried (t + (65535 - carried t)) = 65535 := by
  obtain ⟨hle, hmod, hpos⟩ := carried_spec t
  refine carried_eq_iff.mpr ⟨?_, by omega⟩
  rcases Nat.eq_zero_or_pos t with rfl | ht
  · rw [carried]
    decide
  · omega

end KiloProxy.Net
