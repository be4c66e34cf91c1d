import KiloProxy.Cidr.Siblings

/-!
# Splitting a block of machine-word addresses

Addresses of `w` bits: the bases the halving loop leaves behind are printed modulo
`2 ^ w`. `Left w t cur n a` says that one of the printed blocks holds `a`. A loop
started at the first address of a block leaves the block without `t`
(`left_aligned`); started anywhere else in a block smaller than the address space it
does not (`left_misaligned`). On the whole space there is one more start that works,
because its first printed base wraps to zero (`left_whole`).
-/

namespace KiloProxy.Cidr
set_option autoImplicit false

/-- Some block printed by the loop started at `cur`, of `n` levels, holds `a`. -/
def Left (w t cur n a : Nat) : Prop := ∃ j, j < n ∧ a / 2 ^ j = leftBehind t cur j % 2 ^ w / 2 ^ j

/-- A base whose block holds an address is printed unchanged. -/
theorem printed_of_div {w t x j : Nat} (hj : j ≤ w) (ht : t < 2 ^ w) (h : x / 2 ^ j = t / 2 ^ j) :
    x % 2 ^ w = x := by
  have hdiv := div_pow_eq_of_le hj h
  rw [Nat.div_eq_of_lt ht] at hdiv
  exact Nat.mod_eq_of_lt ((Nat.div_eq_zero_iff_lt (Nat.two_pow_pos w)).mp hdiv)

/-- From an aligned cursor the pieces are the block without the target. -/
theorem left_aligned {w t cur n : Nat} (hn : n ≤ w) (ht : t < 2 ^ w) (hblock : cur / 2 ^ n = t / 2 ^ n)
    (haligned : cur % 2 ^ n = 0) (a : Nat) : Left w t cur n a ↔ a / 2 ^ n = t / 2 ^ n ∧ a ≠ t := by
  have same : ∀ j, j < n → leftBehind t cur j % 2 ^ w / 2 ^ j = sib (t / 2 ^ j) := by
    intro j hj
    have hsib := leftBehind_aligned hj hblock haligned
    have hcoarse : leftBehind t cur j / 2 ^ (j + 1) = t / 2 ^ (j + 1) := by
      rw [div_pow_succ, div_pow_succ]
      exact (half_eq_iff _ _).mpr (.inr hsib)
    rw [printed_of_div (by omega) ht hcoarse, hsib]
  rw [← siblings_cover]
  constructor
  · rintro ⟨j, hj, h⟩; exact ⟨j, hj, by rw [h, same j hj]⟩
  · rintro ⟨j, hj, h⟩; exact ⟨j, hj, by rw [h, same j hj]⟩

/-- A base that leaves the address space wraps below the block it came from. -/
theorem wrapped_misses {w t cur n j a : Nat} (hn : n < w) (hj : j < n) (ht : t < 2 ^ w)
    (hblock : cur / 2 ^ n = t / 2 ^ n) (ha : a / 2 ^ n = t / 2 ^ n)
    (hover : 2 ^ w ≤ leftBehind t cur j) : a / 2 ^ j ≠ leftBehind t cur j % 2 ^ w / 2 ^ j := by
  have hc := Nat.div_add_mod cur (2 ^ n)
  have hcr := Nat.mod_lt cur (Nat.two_pow_pos n)
  have ht' := Nat.div_add_mod t (2 ^ n)
  have htr := Nat.mod_lt t (Nat.two_pow_pos n)
  have ha' := Nat.div_add_mod a (2 ^ n)
  rw [ha] at ha'
  rw [hblock] at hc
  obtain ⟨k, rfl⟩ := Nat.exists_eq_add_of_lt hj
  obtain ⟨m, rfl⟩ := Nat.exists_eq_add_of_lt hn
  generalize hB : t / 2 ^ (j + k + 1) = q at *
  have hsplit : 2 ^ (j + k + 1) = 2 * 2 ^ k * 2 ^ j := by ring
  have htop : 2 ^ (j + k + 1 + m + 1) = 2 ^ (j + k + 1) * 2 ^ (m + 1) := by
    rw [← Nat.pow_add]; rfl
  have hm : 2 ≤ 2 ^ (m + 1) := by
    have := Nat.two_pow_pos m
    rw [Nat.pow_succ]; omega
  have hdouble : 2 ^ (j + k + 1) * 2 ≤ 2 ^ (j + k + 1 + m + 1) := by
    rw [htop]; exact Nat.mul_le_mul_left _ hm
  have hfit : 2 ^ (j + k + 1) * q + 2 ^ (j + k + 1) ≤ 2 ^ (j + k + 1 + m + 1) := by
    rw [htop, ← Nat.mul_succ]
    apply Nat.mul_le_mul_left
    rw [← hB, Nat.succ_le_iff, Nat.div_lt_iff_lt_mul (Nat.two_pow_pos _), Nat.mul_comm, ← htop]
    exact ht
  have hstep : sib ((t - cur) / 2 ^ j) < 2 * 2 ^ k := by
    apply sib_lt
    rw [Nat.div_lt_iff_lt_mul (Nat.two_pow_pos j), ← hsplit]
    omega
  have hbound : leftBehind t cur j < cur + 2 ^ (j + k + 1) := by
    rw [leftBehind, hsplit]
    exact Nat.add_lt_add_left (Nat.mul_lt_mul_of_pos_right hstep (Nat.two_pow_pos j)) _
  have hwrap : leftBehind t cur j % 2 ^ (j + k + 1 + m + 1) = leftBehind t cur j - 2 ^ (j + k + 1 + m + 1) := by
    rw [Nat.mod_eq_sub_mod hover, Nat.mod_eq_of_lt]
    omega
  have hlow : (leftBehind t cur j - 2 ^ (j + k + 1 + m + 1)) / 2 ^ j < 2 * 2 ^ k * q := by
    rw [Nat.div_lt_iff_lt_mul (Nat.two_pow_pos j)]
    calc leftBehind t cur j - 2 ^ (j + k + 1 + m + 1) < 2 ^ (j + k + 1) * q := by omega
      _ = 2 * 2 ^ k * q * 2 ^ j := by rw [hsplit]; ring
  have hhigh : 2 * 2 ^ k * q ≤ a / 2 ^ j := by
    rw [Nat.le_div_iff_mul_le (Nat.two_pow_pos j)]
    calc 2 * 2 ^ k * q * 2 ^ j = 2 ^ (j + k + 1) * q := by rw [hsplit]; ring
      _ ≤ a := by omega
  rw [hwrap]
  omega

/-- Printed modulo `2 ^ w`, a loop started inside its block still holds `t` or leaves
an address out. -/
theorem left_misses {w t cur n : Nat} (hn : n < w) (ht : t < 2 ^ w) (hblock : cur / 2 ^ n = t / 2 ^ n)
    (hin : cur % 2 ^ n ≠ 0) :
    Left w t cur n t ∨ ∃ a, a / 2 ^ n = t / 2 ^ n ∧ a ≠ t ∧ ¬ Left w t cur n a := by
  rcases misaligned_misses hblock hin with ⟨j, hj, he⟩ | ⟨a, ha, hne, hmiss⟩
  · exact .inl ⟨j, hj, by rw [printed_of_div (by omega) ht he.symm, he]⟩
  · refine .inr ⟨a, ha, hne, ?_⟩
    rintro ⟨j, hj, he⟩
    by_cases hover : 2 ^ w ≤ leftBehind t cur j
    · exact wrapped_misses hn hj ht hblock ha hover he
    · rw [Nat.mod_eq_of_lt (by omega)] at he
      exact hmiss j hj he

/-- From any other they are not. -/
theorem left_misaligned {w t cur n : Nat} (hn : n < w) (ht : t < 2 ^ w) (hblock : cur / 2 ^ n = t / 2 ^ n)
    (hin : cur % 2 ^ n ≠ 0) : ¬ ∀ a, a < 2 ^ w → (Left w t cur n a ↔ a / 2 ^ n = t / 2 ^ n ∧ a ≠ t) := by
  intro h
  rcases left_misses hn ht hblock hin with hl | ⟨a, ha, hne, hmiss⟩
  · exact ((h t ht).mp hl).2 rfl
  · have haw : a < 2 ^ w := by
      have hcoarse := div_pow_eq_of_le (Nat.le_of_lt hn) ha
      rw [Nat.div_eq_of_lt ht] at hcoarse
      exact (Nat.div_eq_zero_iff_lt (Nat.two_pow_pos w)).mp hcoarse
    exact hmiss ((h a haw).mpr ⟨ha, hne⟩)

/-- Started at the first address of a block or of its upper half, the loop leaves no
block behind that holds `t`. -/
theorem left_half_aligned {w t cur n : Nat} (hn : n < w) (ht : t < 2 ^ w) (hblock : cur / 2 ^ n = t / 2 ^ n)
    (hhalf : cur % 2 ^ (n - 1) = 0) : ¬ Left w t cur n t := by
  rintro ⟨j, hj, he⟩
  by_cases hover : 2 ^ w ≤ leftBehind t cur j
  · exact wrapped_misses hn hj ht hblock rfl hover he
  · rw [Nat.mod_eq_of_lt (by omega), leftBehind_div] at he
    have hlevel : cur % 2 ^ j = 0 :=
      Nat.mod_eq_zero_of_dvd ((Nat.pow_dvd_pow 2 (by omega : j ≤ n - 1)).trans (Nat.dvd_of_mod_eq_zero hhalf))
    by_cases hlow : t < cur
    · -- `t` lies below the start: every base left behind lies above it
      have hzero : (t - cur) / 2 ^ j = 0 := by
        rw [Nat.sub_eq_zero_of_le (Nat.le_of_lt hlow), Nat.zero_div]
      have hle : t / 2 ^ j ≤ cur / 2 ^ j := Nat.div_le_div_right (Nat.le_of_lt hlow)
      rw [hzero] at he
      simp only [sib, Nat.zero_mod, if_true] at he
      omega
    · have hparts : t / 2 ^ j = cur / 2 ^ j + (t - cur) / 2 ^ j := by
        have hcur : 2 ^ j * (cur / 2 ^ j) = cur := Nat.mul_div_cancel' (Nat.dvd_of_mod_eq_zero hlevel)
        calc t / 2 ^ j = (2 ^ j * (cur / 2 ^ j) + (t - cur)) / 2 ^ j := by rw [hcur]; congr 1; omega
          _ = cur / 2 ^ j + (t - cur) / 2 ^ j := Nat.mul_add_div (Nat.two_pow_pos j) _ _
      exact sib_ne ((t - cur) / 2 ^ j) (by omega)

theorem left_succ {w t cur n a : Nat} :
    Left w t cur (n + 1) a ↔ Left w t cur n a ∨ a / 2 ^ n = leftBehind t cur n % 2 ^ w / 2 ^ n := by
  constructor
  · rintro ⟨j, hj, h⟩
    rcases Nat.lt_succ_iff_lt_or_eq.mp hj with hlt | rfl
    · exact .inl ⟨j, hlt, h⟩
    · exact .inr h
  · rintro (⟨j, hj, h⟩ | h)
    · exact ⟨j, by omega, h⟩
    · exact ⟨n, by omega, h⟩

/-- Entering the upper half, the levels below are those of the loop started there. -/
theorem left_upper {w t cur n a : Nat} (ht : cur + 2 ^ n ≤ t) :
    Left w t (cur + 2 ^ n) n a ↔ Left w t cur n a := by
  constructor
  · rintro ⟨j, hj, h⟩; exact ⟨j, hj, by rwa [leftBehind_upper hj ht] at h⟩
  · rintro ⟨j, hj, h⟩; exact ⟨j, hj, by rwa [leftBehind_upper hj ht]⟩

/-- A loop over the whole space that misses in the half of `t` misses. -/
theorem whole_misses {m t cur c : Nat} (ht : t < 2 ^ (m + 1)) (hblock : c / 2 ^ m = t / 2 ^ m)
    (hin : c % 2 ^ m ≠ 0) (same : ∀ a, Left (m + 1) t c m a ↔ Left (m + 1) t cur m a)
    (top : t / 2 ^ m ≠ leftBehind t cur m % 2 ^ (m + 1) / 2 ^ m) :
    ¬ ∀ a, a < 2 ^ (m + 1) → (Left (m + 1) t cur (m + 1) a ↔ a ≠ t) := by
  intro h
  rcases left_misses (Nat.lt_succ_self m) ht hblock hin with hl | ⟨a, ha, hne, hmiss⟩
  · exact (h t ht).mp (left_succ.mpr (.inl ((same t).mp hl))) rfl
  · have haw : a < 2 ^ (m + 1) := by
      have hcoarse := div_pow_eq_of_le (Nat.le_succ m) ha
      rw [Nat.div_eq_of_lt ht] at hcoarse
      exact (Nat.div_eq_zero_iff_lt (Nat.two_pow_pos _)).mp hcoarse
    rcases left_succ.mp ((h a haw).mpr hne) with hl | hl
    · exact hmiss ((same a).mpr hl)
    · exact top (ha ▸ hl)

/-- On the whole space the loop is right from zero, and from the middle when `t` lies
above it: the first base it prints there is `2 ^ (m + 1)`, that is zero. -/
theorem left_whole {m t cur : Nat} (ht : t < 2 ^ (m + 1)) (hc : cur < 2 ^ (m + 1)) :
    (∀ a, a < 2 ^ (m + 1) → (Left (m + 1) t cur (m + 1) a ↔ a ≠ t)) ↔
      cur = 0 ∨ (cur = 2 ^ m ∧ 2 ^ m ≤ t) := by
  have hpow : 2 ^ (m + 1) = 2 ^ m + 2 ^ m := by ring
  have hpos := Nat.two_pow_pos m
  have low : ∀ x, x < 2 ^ m → x / 2 ^ m = 0 := fun x hx => Nat.div_eq_of_lt hx
  have high : ∀ x, 2 ^ m ≤ x → x < 2 ^ (m + 1) → x / 2 ^ m = 1 := fun x h1 h2 => by
    rw [Nat.div_eq_of_lt_le] <;> omega
  have near : t < cur + 2 ^ m → leftBehind t cur m = cur + 2 ^ m := fun h => by
    rw [leftBehind, low _ (by omega)]; simp [sib]
  constructor
  · intro h
    by_contra hbad
    rw [not_or] at hbad
    obtain ⟨hne, hmid⟩ := hbad
    have hcover : t / 2 ^ m = leftBehind t cur m % 2 ^ (m + 1) / 2 ^ m → False := fun e =>
      (h t ht).mp (left_succ.mpr (.inr e)) rfl
    by_cases hcl : cur < 2 ^ m
    · have hin : cur % 2 ^ m ≠ 0 := by rwa [Nat.mod_eq_of_lt hcl]
      by_cases hnear : t < cur + 2 ^ m
      · have top : leftBehind t cur m % 2 ^ (m + 1) / 2 ^ m = 1 := by
          rw [near hnear, Nat.mod_eq_of_lt (by omega), high _ (by omega) (by omega)]
        by_cases htl : t < 2 ^ m
        · exact whole_misses ht (by rw [low t htl, low cur hcl]) hin (fun _ => Iff.rfl)
            (by rw [top, low t htl]; decide) h
        · exact hcover (by rw [top, high t (by omega) ht])
      · have one : (t - cur) / 2 ^ m = 1 := high _ (by omega) (by omega)
        have top : leftBehind t cur m = cur := by rw [leftBehind, one]; simp [sib]
        refine whole_misses (c := cur + 2 ^ m) ht ?_ (by rwa [Nat.add_mod_right])
          (fun _ => left_upper (by omega)) ?_ h
        · rw [high _ (by omega) (by omega), high t (by omega) ht]
        · rw [top, Nat.mod_eq_of_lt hc, low cur hcl, high t (by omega) ht]; decide
    · have wrap : leftBehind t cur m % 2 ^ (m + 1) / 2 ^ m = 0 := by
        rw [near (by omega), Nat.mod_eq_sub_mod (by omega), Nat.mod_eq_of_lt (by omega), low _ (by omega)]
      by_cases htl : t < 2 ^ m
      · exact hcover (by rw [wrap, low t htl])
      · have hin : cur % 2 ^ m ≠ 0 := by
          rw [Nat.mod_eq_sub_mod (by omega), Nat.mod_eq_of_lt (by omega)]
          omega
        exact whole_misses ht (by rw [high cur (by omega) hc, high t (by omega) ht]) hin (fun _ => Iff.rfl)
          (by rw [wrap, high t (by omega) ht]; decide) h
  · rintro (rfl | ⟨rfl, hle⟩) a ha
    · rw [left_aligned (Nat.le_refl _) ht (by rw [Nat.div_eq_of_lt ht, Nat.zero_div]) (Nat.zero_mod _),
        Nat.div_eq_of_lt ha, Nat.div_eq_of_lt ht]
      simp
    · have wrap : leftBehind t (2 ^ m) m % 2 ^ (m + 1) / 2 ^ m = 0 := by
        rw [near (by omega), ← hpow, Nat.mod_self, Nat.zero_div]
      have hone : t / 2 ^ m = 1 := high t hle ht
      rw [left_succ, wrap, left_aligned (Nat.le_succ m) ht
        (by rw [Nat.div_self hpos, hone]) (Nat.mod_self _), hone]
      by_cases hal : a < 2 ^ m
      · simp only [low a hal, or_true, true_iff]
        omega
      · simp [high a (by omega) ha]

end KiloProxy.Cidr
