import Mathlib.Algebra.Order.Ring.Nat
import Mathlib.Tactic.Ring

/-!
# Splitting an address block down to one address

Addresses are natural numbers; the block of size `2 ^ n` around `a` is the set of
addresses with the same quotient `a / 2 ^ n`. The path from a block down to one of
its addresses `t` leaves one sibling block behind at every level, and those siblings
are exactly the block without `t` (`siblings_cover`). `bisect` is the loop that walks
the path from a literal base by comparing `t` with the middle; `mem_bisect` says which
base it leaves behind at each level. Started inside the block instead of at its first
address the loop always misses (`misaligned_misses`).
-/

namespace KiloProxy.Cidr
set_option autoImplicit false

/-- The other child of the parent of `x`. -/
def sib (x : Nat) : Nat := if x % 2 = 0 then x + 1 else x - 1

theorem half_eq_iff (x y : Nat) : x / 2 = y / 2 ↔ x = y ∨ x = sib y := by
  unfold sib
  split <;> omega

theorem sib_ne (x : Nat) : x ≠ sib x := by
  unfold sib
  split <;> omega

theorem sib_add_even {x e : Nat} (h : e % 2 = 0) : sib (x + e) = sib x + e := by
  unfold sib
  split <;> split <;> omega

theorem sib_lt {x e : Nat} (h : x < 2 * e) : sib x < 2 * e := by
  unfold sib
  split <;> omega

theorem div_pow_succ (a j : Nat) : a / 2 ^ (j + 1) = a / 2 ^ j / 2 := by
  rw [Nat.pow_succ, Nat.div_div_eq_div_mul]

/-- Quotients of the same block agree at every coarser level. -/
theorem div_pow_eq_of_le {a b i j : Nat} (hij : i ≤ j) (h : a / 2 ^ i = b / 2 ^ i) :
    a / 2 ^ j = b / 2 ^ j := by
  obtain ⟨k, rfl⟩ := Nat.exists_eq_add_of_le hij
  rw [Nat.pow_add, ← Nat.div_div_eq_div_mul, ← Nat.div_div_eq_div_mul, h]

/-- The siblings along the path to `t` are the block of `t` without `t`. -/
theorem siblings_cover (a t n : Nat) :
    (∃ j, j < n ∧ a / 2 ^ j = sib (t / 2 ^ j)) ↔ a / 2 ^ n = t / 2 ^ n ∧ a ≠ t := by
  induction n with
  | zero => simp
  | succ n ih =>
    have top : (∃ j, j < n + 1 ∧ a / 2 ^ j = sib (t / 2 ^ j)) ↔
        (∃ j, j < n ∧ a / 2 ^ j = sib (t / 2 ^ j)) ∨ a / 2 ^ n = sib (t / 2 ^ n) := by
      constructor
      · rintro ⟨j, hj, he⟩
        rcases Nat.lt_succ_iff_lt_or_eq.mp hj with h | rfl
        · exact .inl ⟨j, h, he⟩
        · exact .inr he
      · rintro (⟨j, hj, he⟩ | he)
        · exact ⟨j, by omega, he⟩
        · exact ⟨n, by omega, he⟩
    rw [top, ih, div_pow_succ, div_pow_succ, half_eq_iff]
    constructor
    · rintro (⟨h, hne⟩ | h)
      · exact ⟨.inl h, hne⟩
      · exact ⟨.inr h, fun e => sib_ne _ (e ▸ h)⟩
    · rintro ⟨h | h, hne⟩
      · exact .inl ⟨h, hne⟩
      · exact .inr h

/-- The halving loop on `[cur, cur + 2 ^ n)`: keep the half that does not hold `t`,
as its base and size exponent, and go on in the other one. -/
def bisect (t : Nat) : (n : Nat) → (cur : Nat) → List (Nat × Nat)
  | 0, _ => []
  | n + 1, cur =>
    if t < cur + 2 ^ n then (cur + 2 ^ n, n) :: bisect t n cur
    else (cur, n) :: bisect t n (cur + 2 ^ n)

/-- The base left behind at level `j` by the loop started at `cur`. -/
def leftBehind (t cur j : Nat) : Nat := cur + sib ((t - cur) / 2 ^ j) * 2 ^ j

theorem leftBehind_div (t cur j : Nat) :
    leftBehind t cur j / 2 ^ j = cur / 2 ^ j + sib ((t - cur) / 2 ^ j) := by
  rw [leftBehind, Nat.add_mul_div_right _ _ (Nat.two_pow_pos _)]

/-- Entering the upper half changes no lower level. -/
theorem leftBehind_upper {t cur n j : Nat} (hj : j < n) (ht : cur + 2 ^ n ≤ t) :
    leftBehind t (cur + 2 ^ n) j = leftBehind t cur j := by
  obtain ⟨k, rfl⟩ := Nat.exists_eq_add_of_lt hj
  have split : 2 ^ (j + k + 1) = 2 * 2 ^ k * 2 ^ j := by ring
  have off : (t - cur) / 2 ^ j = (t - (cur + 2 ^ (j + k + 1))) / 2 ^ j + 2 * 2 ^ k := by
    rw [← Nat.add_mul_div_right _ _ (Nat.two_pow_pos _), ← split]
    congr 1
    omega
  unfold leftBehind
  rw [off, sib_add_even (by omega), split]
  ring

/-- What the halving loop emits. -/
theorem mem_bisect {t n cur e j : Nat} (h : t - cur < 2 ^ n) :
    (e, j) ∈ bisect t n cur ↔ j < n ∧ e = leftBehind t cur j := by
  induction n generalizing cur with
  | zero => simp [bisect]
  | succ n ih =>
    have double : 2 ^ (n + 1) = 2 ^ n + 2 ^ n := by ring
    have low_or : ∀ P : Prop, (j < n + 1 ∧ P) ↔ (j = n ∧ P) ∨ (j < n ∧ P) := by
      intro P
      rw [Nat.lt_succ_iff_lt_or_eq]
      tauto
    rw [bisect, low_or]
    split
    · rename_i low
      have top : leftBehind t cur n = cur + 2 ^ n := by
        rw [leftBehind, Nat.div_eq_of_lt (by omega)]
        simp [sib]
      rw [List.mem_cons, Prod.mk.injEq, ih (by omega)]
      constructor
      · rintro (⟨rfl, rfl⟩ | h)
        · exact .inl ⟨rfl, top.symm⟩
        · exact .inr h
      · rintro (⟨rfl, rfl⟩ | h)
        · exact .inl ⟨top, rfl⟩
        · exact .inr h
    · rename_i high
      have one : (t - cur) / 2 ^ n = 1 := by
        rw [Nat.div_eq_of_lt_le] <;> omega
      have top : leftBehind t cur n = cur := by
        rw [leftBehind, one]
        simp [sib]
      rw [List.mem_cons, Prod.mk.injEq, ih (by omega)]
      constructor
      · rintro (⟨rfl, rfl⟩ | ⟨hj, rfl⟩)
        · exact .inl ⟨rfl, top.symm⟩
        · exact .inr ⟨hj, leftBehind_upper hj (by omega)⟩
      · rintro (⟨rfl, rfl⟩ | ⟨hj, rfl⟩)
        · exact .inl ⟨top, rfl⟩
        · exact .inr ⟨hj, (leftBehind_upper hj (by omega)).symm⟩

/-- Started at the first address of the block, the loop leaves the siblings of `t`. -/
theorem leftBehind_aligned {t cur n j : Nat} (hj : j < n) (hblock : cur / 2 ^ n = t / 2 ^ n)
    (haligned : cur % 2 ^ n = 0) : leftBehind t cur j / 2 ^ j = sib (t / 2 ^ j) := by
  obtain ⟨k, rfl⟩ := Nat.exists_eq_add_of_lt hj
  have hcur : cur = 2 ^ (j + k + 1) * (t / 2 ^ (j + k + 1)) := by
    rw [← hblock, Nat.mul_div_cancel' (Nat.dvd_of_mod_eq_zero haligned)]
  have hle : cur ≤ t := by rw [hcur]; exact Nat.mul_div_le _ _
  have split : 2 ^ (j + k + 1) = 2 ^ j * (2 * 2 ^ k) := by ring
  have quot : cur / 2 ^ j = 2 * 2 ^ k * (t / 2 ^ (j + k + 1)) := by
    rw [hcur, split, Nat.mul_assoc, Nat.mul_div_cancel_left _ (Nat.two_pow_pos _), ← split]
  have parts : t / 2 ^ j = (t - cur) / 2 ^ j + 2 * 2 ^ k * (t / 2 ^ (j + k + 1)) := by
    rw [← Nat.add_mul_div_right _ _ (Nat.two_pow_pos _)]
    congr 1
    have : 2 * 2 ^ k * (t / 2 ^ (j + k + 1)) * 2 ^ j = cur := by
      rw [hcur, split]; ring
    omega
  rw [leftBehind_div, quot, parts, sib_add_even (by
    rw [Nat.mul_assoc, Nat.mul_mod_right])]
  ring

/-- Nothing left behind reaches below the level-`n` block of `cur`. -/
theorem below_not_left {t cur n a j : Nat} (hj : j ≤ n) (ha : a < 2 ^ n * (cur / 2 ^ n)) :
    a / 2 ^ j ≠ leftBehind t cur j / 2 ^ j := by
  obtain ⟨k, rfl⟩ := Nat.exists_eq_add_of_le hj
  have hle : 2 ^ k * (cur / 2 ^ (j + k)) ≤ cur / 2 ^ j := by
    rw [Nat.le_div_iff_mul_le (Nat.two_pow_pos j)]
    calc 2 ^ k * (cur / 2 ^ (j + k)) * 2 ^ j = 2 ^ (j + k) * (cur / 2 ^ (j + k)) := by
          rw [Nat.pow_add]; ring
      _ ≤ cur := Nat.mul_div_le _ _
  have hlt : a / 2 ^ j < 2 ^ k * (cur / 2 ^ (j + k)) := by
    rw [Nat.div_lt_iff_lt_mul (Nat.two_pow_pos j)]
    calc a < 2 ^ (j + k) * (cur / 2 ^ (j + k)) := ha
      _ = 2 ^ k * (cur / 2 ^ (j + k)) * 2 ^ j := by rw [Nat.pow_add]; ring
  rw [leftBehind_div]
  omega

/-- What the loop of the half of `t` misses is missed in the whole block, unless the
other half was left behind wrongly. -/
theorem misses_lift {t cur c n : Nat} (same : ∀ j, j < n → leftBehind t c j = leftBehind t cur j)
    (top : leftBehind t cur n / 2 ^ n ≠ t / 2 ^ n)
    (h : (∃ j, j < n ∧ t / 2 ^ j = leftBehind t c j / 2 ^ j) ∨
      ∃ a, a / 2 ^ n = t / 2 ^ n ∧ a ≠ t ∧ ∀ j, j < n → a / 2 ^ j ≠ leftBehind t c j / 2 ^ j) :
    (∃ j, j < n + 1 ∧ t / 2 ^ j = leftBehind t cur j / 2 ^ j) ∨
      ∃ a, a / 2 ^ (n + 1) = t / 2 ^ (n + 1) ∧ a ≠ t ∧
        ∀ j, j < n + 1 → a / 2 ^ j ≠ leftBehind t cur j / 2 ^ j := by
  rcases h with ⟨j, hj, he⟩ | ⟨a, ha, hne, hmiss⟩
  · exact .inl ⟨j, by omega, by rw [he, same j hj]⟩
  · refine .inr ⟨a, div_pow_eq_of_le (Nat.le_succ n) ha, hne, fun j hj => ?_⟩
    rcases Nat.lt_succ_iff_lt_or_eq.mp hj with h | rfl
    · rw [← same j h]; exact hmiss j h
    · rw [ha]; exact fun e => top e.symm

/-- Started in the upper half, the loop leaves out an address of the lower half. -/
theorem upper_misses {t cur n : Nat} (hblock : cur / 2 ^ (n + 1) = t / 2 ^ (n + 1))
    (hodd : cur / 2 ^ n % 2 = 1) :
    ∃ a, a / 2 ^ (n + 1) = t / 2 ^ (n + 1) ∧ a ≠ t ∧
      ∀ j, j < n + 1 → a / 2 ^ j ≠ leftBehind t cur j / 2 ^ j := by
  cases n with
  | zero =>
    simp only [Nat.pow_zero, Nat.div_one, Nat.zero_add, Nat.pow_one] at *
    refine ⟨sib t, (half_eq_iff _ _).mpr (.inr rfl), (sib_ne t).symm, fun j hj => ?_⟩
    obtain rfl : j = 0 := by omega
    have small : t - cur = 0 := by omega
    simp only [leftBehind, small, Nat.pow_zero, Nat.div_one, Nat.mul_one]
    unfold sib
    split <;> simp <;> omega
  | succ m =>
    have hpow : 2 ^ (m + 1 + 1) = 2 ^ (m + 1) + 2 ^ (m + 1) := by ring
    have hpos : 2 ≤ 2 ^ (m + 1) := by
      have := Nat.two_pow_pos m
      rw [Nat.pow_succ]; omega
    have hbase : 2 ^ (m + 1 + 1) * (t / 2 ^ (m + 1 + 1)) + 2 ^ (m + 1) = 2 ^ (m + 1) * (cur / 2 ^ (m + 1)) := by
      have hsplit : cur / 2 ^ (m + 1) = 2 * (t / 2 ^ (m + 1 + 1)) + 1 := by
        have := div_pow_succ cur (m + 1)
        omega
      rw [hsplit]; ring
    have inBlock : ∀ e, e < 2 →
        (2 ^ (m + 1 + 1) * (t / 2 ^ (m + 1 + 1)) + e) / 2 ^ (m + 1 + 1) = t / 2 ^ (m + 1 + 1) := by
      intro e he
      have small : e / 2 ^ (m + 1 + 1) = 0 := Nat.div_eq_of_lt (by omega)
      rw [Nat.mul_add_div (Nat.two_pow_pos _), small, Nat.add_zero]
    by_cases hfirst : 2 ^ (m + 1 + 1) * (t / 2 ^ (m + 1 + 1)) = t
    · exact ⟨_, inBlock 1 (by omega), by omega, fun j hj => below_not_left (by omega : j ≤ m + 1) (by omega)⟩
    · exact ⟨_, inBlock 0 (by omega), by omega, fun j hj => below_not_left (by omega : j ≤ m + 1) (by omega)⟩

/-- Started inside the block, the loop either leaves a block behind that holds `t` or
leaves out an address other than `t`. The induction is on the size of the block; the
case split is which half of it `cur` and `t` lie in. -/
theorem misaligned_misses {t cur n : Nat} (hblock : cur / 2 ^ n = t / 2 ^ n) (hin : cur % 2 ^ n ≠ 0) :
    (∃ j, j < n ∧ t / 2 ^ j = leftBehind t cur j / 2 ^ j) ∨
      ∃ a, a / 2 ^ n = t / 2 ^ n ∧ a ≠ t ∧ ∀ j, j < n → a / 2 ^ j ≠ leftBehind t cur j / 2 ^ j := by
  induction n generalizing cur with
  | zero => simp [Nat.mod_one] at hin
  | succ n ih =>
    by_cases hodd : cur / 2 ^ n % 2 = 1
    · exact .inr (upper_misses hblock hodd)
    have hhalf : cur / 2 ^ n / 2 = t / 2 ^ n / 2 := by rw [← div_pow_succ, ← div_pow_succ, hblock]
    have hc := Nat.div_add_mod cur (2 ^ n)
    have ht := Nat.div_add_mod t (2 ^ n)
    have hcr := Nat.mod_lt cur (Nat.two_pow_pos n)
    have htr := Nat.mod_lt t (Nat.two_pow_pos n)
    have hin' : cur % 2 ^ n ≠ 0 := by
      intro h0
      apply hin
      have hdiv : cur = 2 ^ (n + 1) * (cur / 2 ^ n / 2) := by
        have : 2 * (cur / 2 ^ n / 2) = cur / 2 ^ n := by omega
        rw [Nat.pow_succ, Nat.mul_assoc, this]; omega
      rw [hdiv, Nat.mul_mod_right]
    by_cases hlow : t / 2 ^ n = cur / 2 ^ n
    · refine misses_lift (fun _ _ => rfl) ?_ (ih hlow.symm hin')
      have small : (t - cur) / 2 ^ n = 0 := Nat.div_eq_of_lt (by rw [hlow] at ht; omega)
      rw [leftBehind_div, small, hlow]
      simp [sib]
    · have hup : t / 2 ^ n = cur / 2 ^ n + 1 := by omega
      rw [hup, Nat.mul_add] at ht
      by_cases hnear : t < cur + 2 ^ n
      · refine .inl ⟨n, by omega, ?_⟩
        rw [leftBehind_div, Nat.div_eq_of_lt (by omega : t - cur < 2 ^ n), hup]
        simp [sib]
      · have one : (t - cur) / 2 ^ n = 1 := by
          rw [Nat.div_eq_of_lt_le] <;> omega
        have hcn : (cur + 2 ^ n) / 2 ^ n = t / 2 ^ n := by
          rw [Nat.add_div_right _ (Nat.two_pow_pos n), hup]
        refine misses_lift (c := cur + 2 ^ n) (fun j hj => leftBehind_upper hj (by omega)) ?_
          (ih hcn (by rwa [Nat.add_mod_right]))
        rw [leftBehind_div, one, hup]
        simp [sib]

end KiloProxy.Cidr
