import Mathlib.Data.List.Induction

/-!
# A slot and the log of what was done to it

A slot holds at most one value. Its content is what the last event of the log that
touched it left; an event is justified by the events before it.

So the invariant of a cache that is one slot need not follow the slot: whatever is in
it was put there by some event of the log (`content_origin`), and what the log allows
to be put is said once.
-/

namespace KiloProxy.Store
set_option autoImplicit false

variable {ε α : Type}

/-- What an event does to the slot. -/
inductive Effect (α : Type) where
  | keep
  | put (a : α)
  | delete

def Effect.apply : Effect α → Option α → Option α
  | keep, old => old
  | put a, _ => some a
  | delete, _ => none

/-- The content after a log, over an empty slot. -/
def content (effect : ε → Effect α) (log : List ε) : Option α :=
  log.foldl (fun old e => (effect e).apply old) none

/-- One more event has its effect on the content. -/
theorem content_concat (effect : ε → Effect α) (log : List ε) (e : ε) :
    content effect (log ++ [e]) = (effect e).apply (content effect log) := by
  simp only [content, List.foldl_append, List.foldl_cons, List.foldl_nil]

/-- A value in the slot was put there, and nothing touched the slot since. -/
theorem content_origin {effect : ε → Effect α} {log : List ε} {a : α} (h : content effect log = some a) :
    ∃ before e after, log = before ++ e :: after ∧ effect e = .put a ∧ ∀ d ∈ after, effect d = .keep := by
  induction log using List.reverseRecOn with
  | nil => cases h
  | append_singleton log e ih =>
    rw [content_concat] at h
    cases he : effect e with
    | keep =>
      rw [he] at h
      obtain ⟨before, d, after, rfl, hput, hkeep⟩ := ih h
      refine ⟨before, d, after ++ [e], by simp only [List.append_assoc, List.cons_append], hput, ?_⟩
      intro x hx
      rcases List.mem_append.mp hx with hx | hx
      · exact hkeep x hx
      · rw [List.mem_singleton.mp hx, he]
    | put b =>
      rw [he] at h
      obtain rfl : b = a := Option.some.inj h
      exact ⟨log, e, [], rfl, he, fun x hx => absurd hx (List.not_mem_nil)⟩
    | delete =>
      rw [he] at h
      cases h

/-- Every event of the log is justified by the events before it. -/
def Justified (P : List ε → ε → Prop) (log : List ε) : Prop :=
  ∀ before e after, log = before ++ e :: after → P before e

theorem Justified.nil (P : List ε → ε → Prop) : Justified P [] := by
  intro before e after h
  cases before <;> cases h

/-- A log is justified event by event. -/
theorem Justified.concat {P : List ε → ε → Prop} {log : List ε} {e : ε} (h : Justified P log) (he : P log e) :
    Justified P (log ++ [e]) := by
  intro before d after heq
  rcases List.eq_nil_or_concat after with rfl | ⟨rest, x, rfl⟩
  · obtain ⟨rfl, hd⟩ := List.append_inj' heq rfl
    cases hd
    exact he
  · have hsplit : log ++ [e] = (before ++ d :: rest) ++ [x] := by
      rw [heq, List.concat_eq_append, List.append_assoc, List.cons_append]
    exact h before d rest (List.append_inj' hsplit rfl).1

end KiloProxy.Store
