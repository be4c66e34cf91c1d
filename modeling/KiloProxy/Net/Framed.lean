import Mathlib.Data.List.Basic
import Mathlib.Data.List.Infix

/-!
# Frames in a stream

A framing writes values one after another into a stream, and parses the first one back. Its
parser answers `more` while nothing is decided, and an answer other than that stands
whatever follows. So what a receiver takes off the front, however far it got, is the
beginning of what was written (`frames_prefix`).
-/

namespace KiloProxy.Net
set_option autoImplicit false

/-- What is at the front of a stream. -/
inductive Parsed (α β : Type) where
  | more
  | bad
  | frame (x : α) (rest : List β)

/-- A framing of the values that are valid. -/
structure Framing (α β : Type) where
  Valid : α → Prop
  frame : α → List β
  parse : List β → Parsed α β
  nil : parse [] = .more
  complete : ∀ x rest, Valid x → parse (frame x ++ rest) = .frame x rest
  sound : ∀ s x rest, parse s = .frame x rest → s = frame x ++ rest ∧ Valid x
  bad_stays : ∀ s t, parse s = .bad → parse (s ++ t) = .bad

namespace Framing

variable {α β : Type} (F : Framing α β)

def frames (xs : List α) : List β := xs.flatMap F.frame

@[simp] theorem frames_nil : F.frames [] = [] := rfl

@[simp] theorem frames_cons (x : α) (xs : List α) : F.frames (x :: xs) = F.frame x ++ F.frames xs := List.flatMap_cons

@[simp] theorem frames_append (xs ys : List α) : F.frames (xs ++ ys) = F.frames xs ++ F.frames ys := List.flatMap_append

variable {F}

/-- The first frame of a stream of frames. -/
theorem parse_frames_cons {x : α} {xs : List α} (h : ∀ z ∈ x :: xs, F.Valid z) :
    F.parse (F.frames (x :: xs)) = .frame x (F.frames xs) := by
  rw [frames_cons, F.complete x _ (h x List.mem_cons_self)]

/-- The same first frame is taken off both. -/
theorem frames_cons_eq {x y : α} {xs : List α} {rest : List β} (hxs : ∀ z ∈ x :: xs, F.Valid z) (hy : F.Valid y)
    (h : F.frame y ++ rest = F.frames (x :: xs)) : y = x ∧ rest = F.frames xs := by
  have hparse := F.complete y rest hy
  rw [h, parse_frames_cons hxs] at hparse
  obtain ⟨rfl, rfl⟩ := Parsed.frame.inj hparse
  exact ⟨rfl, rfl⟩

/-- **What was taken off is the beginning of what was written.** The frames `ys` were found in a stream
that goes on to all of `xs`, and nothing bad is behind them. -/
theorem frames_prefix {xs ys : List α} {s t : List β} (hxs : ∀ x ∈ xs, F.Valid x) (hys : ∀ y ∈ ys, F.Valid y)
    (h : F.frames ys ++ s ++ t = F.frames xs) : ys <+: xs ∧ F.parse s ≠ .bad := by
  induction ys generalizing xs with
  | nil =>
    refine ⟨List.nil_prefix, fun hbad => ?_⟩
    have hwhole := F.bad_stays s t hbad
    rw [frames_nil, List.nil_append] at h
    rw [h] at hwhole
    cases xs with
    | nil =>
      rw [frames_nil, F.nil] at hwhole
      cases hwhole
    | cons x xs =>
      rw [parse_frames_cons hxs] at hwhole
      cases hwhole
  | cons y ys ih =>
    have hy := hys y List.mem_cons_self
    rw [frames_cons, List.append_assoc, List.append_assoc] at h
    cases xs with
    | nil =>
      have hparse := F.complete y (F.frames ys ++ (s ++ t)) hy
      rw [h, frames_nil, F.nil] at hparse
      cases hparse
    | cons x xs =>
      obtain ⟨rfl, hrest⟩ := frames_cons_eq hxs hy h
      rw [← List.append_assoc] at hrest
      obtain ⟨hpre, hbad⟩ :=
        ih (fun z hz => hxs z (List.mem_cons_of_mem _ hz)) (fun z hz => hys z (List.mem_cons_of_mem _ hz)) hrest
      exact ⟨(List.prefix_cons_inj y).mpr hpre, hbad⟩

/-- A receiver that got everything and waits for more has taken it all off. -/
theorem frames_all {xs ys : List α} {s : List β} (hxs : ∀ x ∈ xs, F.Valid x) (hys : ∀ y ∈ ys, F.Valid y)
    (h : F.frames ys ++ s = F.frames xs) (hmore : F.parse s = .more) : ys = xs := by
  obtain ⟨⟨zs, rfl⟩, _⟩ := frames_prefix hxs hys ((List.append_nil _).trans h)
  rw [frames_append] at h
  obtain rfl := List.append_cancel_left h
  cases zs with
  | nil => rw [List.append_nil]
  | cons z zs =>
    rw [parse_frames_cons fun x hx => hxs x (List.mem_append_right _ hx)] at hmore
    cases hmore

end Framing

end KiloProxy.Net
