import Mathlib.Data.List.Nodup
import Mathlib.Data.List.Perm.Subperm
import Mathlib.Data.Nat.Find

/-!
# Loops that search for something free

A `while` loop is run with a bound on its tests. Nothing counts down in a search for a
free candidate: it ends because the candidates differ and only finitely many are taken,
so one of the first `taken.length + 1` is free.
-/

namespace KiloProxy.Run
set_option autoImplicit false

section While

variable {σ : Type}

/-- `while (test) body` with at most `fuel` tests. A test may change the state. -/
def runWhile (test : σ → Bool × σ) (body : σ → σ) : Nat → σ → Option σ
  | 0, _ => none
  | fuel + 1, s =>
    match test s with
    | (true, t) => runWhile test body fuel (body t)
    | (false, t) => some t

variable {test : σ → Bool × σ} {body : σ → σ}

/-- **The loop rule**: what holds before turn `j` lets the test pass, as long as `j` is not
`last`, and holds before the next turn; at `last` the test fails. Any more fuel does. -/
theorem runWhile_exits {J : Nat → σ → Prop} {Q : σ → Prop} {last : Nat}
    (turn : ∀ j s, j < last → J j s → ∃ t, test s = (true, t) ∧ J (j + 1) (body t))
    (exit : ∀ s, J last s → ∃ t, test s = (false, t) ∧ Q t) {fuel : Nat} (hfuel : last < fuel) {s : σ}
    (hs : J 0 s) : ∃ t, runWhile test body fuel s = some t ∧ Q t := by
  -- from any turn that is left, over the fuel
  have hrun : ∀ fuel j s, j ≤ last → last < j + fuel → J j s → ∃ t, runWhile test body fuel s = some t ∧ Q t := by
    intro fuel
    induction fuel with
    | zero =>
      intro j s hj hfuel _
      omega
    | succ fuel ih =>
      intro j s hj hfuel hs
      rcases Nat.lt_or_eq_of_le hj with hlt | rfl
      · obtain ⟨t, ht, hnext⟩ := turn j s hlt hs
        obtain ⟨u, hu, hq⟩ := ih (j + 1) (body t) hlt (by omega) hnext
        exact ⟨u, by simp only [runWhile, ht, hu], hq⟩
      · obtain ⟨t, ht, hq⟩ := exit s hs
        exact ⟨t, by simp only [runWhile, ht], hq⟩
  exact hrun fuel 0 s (Nat.zero_le last) (by omega) hs

end While

variable {α : Type}

/-- `candidate k` is the first candidate that is not taken. -/
structure FirstFree (taken : List α) (candidate : Nat → α) (k : Nat) : Prop where
  free : candidate k ∉ taken
  earlier : ∀ j, j < k → candidate j ∈ taken

/-- There is only one. -/
theorem FirstFree.unique {taken : List α} {candidate : Nat → α} {k l : Nat} (hk : FirstFree taken candidate k)
    (hl : FirstFree taken candidate l) : k = l := by
  rcases Nat.lt_trichotomy k l with hlt | he | hgt
  · exact absurd (hl.earlier k hlt) hk.free
  · exact he
  · exact absurd (hk.earlier l hgt) hl.free

/-- Different candidates cannot all be taken. -/
theorem exists_free (taken : List α) {candidate : Nat → α} (hinj : Function.Injective candidate) :
    ∃ k, k ≤ taken.length ∧ candidate k ∉ taken := by
  by_contra hno
  have hall : ∀ k, k ≤ taken.length → candidate k ∈ taken := by
    intro k hk
    by_contra hfree
    exact hno ⟨k, hk, hfree⟩
  have hnodup : ((List.range (taken.length + 1)).map candidate).Nodup := List.nodup_range.map hinj
  have hsub : (List.range (taken.length + 1)).map candidate ⊆ taken := by
    intro x hx
    obtain ⟨k, hk, rfl⟩ := List.mem_map.mp hx
    exact hall k (Nat.le_of_lt_succ (List.mem_range.mp hk))
  have hle := (hnodup.subperm hsub).length_le
  rw [List.length_map, List.length_range] at hle
  omega

theorem exists_firstFree [DecidableEq α] (taken : List α) {candidate : Nat → α}
    (hinj : Function.Injective candidate) : ∃ k, k ≤ taken.length ∧ FirstFree taken candidate k := by
  have hex : ∃ k, candidate k ∉ taken := (exists_free taken hinj).imp fun _ h => h.2
  obtain ⟨k, hk, hfree⟩ := exists_free taken hinj
  refine ⟨Nat.find hex, Nat.le_trans (Nat.find_min' hex hfree) hk, Nat.find_spec hex, fun j hj => ?_⟩
  exact Decidable.not_not.mp (Nat.find_min hex hj)

end KiloProxy.Run
