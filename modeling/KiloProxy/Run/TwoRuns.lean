import KiloProxy.Run.System

/-!
# Two runs side by side

Two runs whose visible actions are the same, with any other actions in between, stay in a
relation that visible actions keep on both sides and that the others keep on one side.
-/

namespace KiloProxy.Run
set_option autoImplicit false

section TwoRuns

variable {σ α β : Type} {M : System σ α} {low : α → Option β} {ok : β → Prop} {R : σ → σ → Prop}

theorem rel_bind {x y : Option σ} {f g : σ → Option σ} (h : Option.Rel R x y)
    (hfg : ∀ s t, R s t → Option.Rel R (f s) (g t)) : Option.Rel R (x.bind f) (y.bind g) := by
  cases h with
  | none => exact .none
  | some hst => exact hfg _ _ hst

/-- Related results look the same. -/
theorem rel_map {γ : Type} {x y : Option σ} {f : σ → γ} (h : Option.Rel R x y) (hf : ∀ s t, R s t → f s = f t) :
    x.map f = y.map f := by
  cases h with
  | none => rfl
  | some hst => exact congrArg some (hf _ _ hst)

/-- One side runs through actions that are not visible. -/
theorem exec_hidden {s t : σ} {bs : List α} (hR : R s t) (hhidden : bs.filterMap low = [])
    (right : ∀ s t b, R s t → low b = none → ∃ t', M.step t b = some t' ∧ R s t') :
    ∃ t', exec M t bs = some t' ∧ R s t' := by
  induction bs generalizing t with
  | nil => exact ⟨t, rfl, hR⟩
  | cons b bs ih =>
    cases hb : low b with
    | some c =>
      rw [List.filterMap_cons_some hb] at hhidden
      cases hhidden
    | none =>
      rw [List.filterMap_cons_none hb] at hhidden
      obtain ⟨t', hstep, hR'⟩ := right s t b hR hb
      rw [exec, hstep]
      exact ih hR' hhidden

/-- The same up to the first visible action. -/
theorem exec_upto {s t : σ} {c : β} {cs : List β} {bs : List α} (hR : R s t) (hlow : bs.filterMap low = c :: cs)
    (right : ∀ s t b, R s t → low b = none → ∃ t', M.step t b = some t' ∧ R s t') :
    ∃ t' b rest, low b = some c ∧ rest.filterMap low = cs ∧ R s t' ∧ exec M t bs = exec M t' (b :: rest) := by
  induction bs generalizing t with
  | nil => cases hlow
  | cons b bs ih =>
    cases hb : low b with
    | some c' =>
      rw [List.filterMap_cons_some hb] at hlow
      obtain ⟨rfl, hrest⟩ := List.cons.inj hlow
      exact ⟨t, b, bs, hb, hrest, hR, rfl⟩
    | none =>
      rw [List.filterMap_cons_none hb] at hlow
      obtain ⟨t', hstep, hR'⟩ := right s t b hR hb
      obtain ⟨u, b', rest, hb', hrest, hu, hexec⟩ := ih hR' hlow
      refine ⟨u, b', rest, hb', hrest, hu, ?_⟩
      rw [exec, hstep]
      exact hexec

/-- Both runs end in related states, or neither gets to its end. -/
theorem exec_related
    (both : ∀ s t a b c, R s t → low a = some c → low b = some c → ok c → Option.Rel R (M.step s a) (M.step t b))
    (left : ∀ s t a, R s t → low a = none → ∃ s', M.step s a = some s' ∧ R s' t)
    (right : ∀ s t b, R s t → low b = none → ∃ t', M.step t b = some t' ∧ R s t') {as bs : List α}
    (hsame : as.filterMap low = bs.filterMap low) (hok : ∀ c ∈ as.filterMap low, ok c) {s t : σ} (hR : R s t) :
    Option.Rel R (exec M s as) (exec M t bs) := by
  induction as generalizing s t bs with
  | nil =>
    obtain ⟨t', hexec, hR'⟩ := exec_hidden hR hsame.symm right
    rw [hexec]
    exact .some hR'
  | cons a as ih =>
    cases ha : low a with
    | none =>
      rw [List.filterMap_cons_none ha] at hsame hok
      obtain ⟨s', hstep, hR'⟩ := left s t a hR ha
      rw [exec, hstep]
      exact ih hsame hok hR'
    | some c =>
      rw [List.filterMap_cons_some ha] at hsame hok
      obtain ⟨t', b, rest, hb, hrest, hR', hexec⟩ := exec_upto hR hsame.symm right
      have hstep := both s t' a b c hR' ha hb (hok c List.mem_cons_self)
      rw [hexec, exec, exec]
      exact rel_bind hstep fun u v huv => ih hrest.symm (fun c hc => hok c (List.mem_cons_of_mem _ hc)) huv

end TwoRuns

end KiloProxy.Run
