import Mathlib.Data.List.Basic

/-!
# Reading a stream that arrives in chunks

A stream is the list of the chunks that arrive, none of them empty. One read returns at
most as many bytes as it asks for and never more than what is left of the first chunk;
at the end of the stream it returns nothing. A read of a fixed size gets all of it
exactly when no chunk ends inside (`read_full`, `read_short`); a loop that reads until it
has enough does not depend on the chunks (`drain_flatten`).
-/

namespace KiloProxy.Net
set_option autoImplicit false

variable {α : Type}

/-- One read of up to `n`: what it returns, and the chunks left. -/
def read (n : Nat) : List (List α) → Option (List α × List (List α))
  | [] => none
  | c :: cs => some (c.take n, if c.length ≤ n then cs else c.drop n :: cs)

/-- Reads of what is left until `n` are skipped; a read returns at most one chunk. -/
def drain : Nat → List (List α) → Option (List (List α))
  | 0, cs => some cs
  | _ + 1, [] => none
  | n + 1, c :: cs => if c.length ≤ n + 1 then drain (n + 1 - c.length) cs else some (c.drop (n + 1) :: cs)

/-- No chunk is empty. -/
def Chunked (cs : List (List α)) : Prop := ∀ c ∈ cs, c ≠ []

instance [DecidableEq α] (cs : List (List α)) : Decidable (Chunked cs) := List.decidableBAll _ cs

/-- Where chunks begin and end. -/
def boundaries : List (List α) → List Nat
  | [] => [0]
  | c :: cs => 0 :: (boundaries cs).map fun b => c.length + b

/-- A chunk ends inside the `n` bytes behind the first `o`. -/
def CutInside (cs : List (List α)) (o n : Nat) : Prop := ∃ b ∈ boundaries cs, o < b ∧ b < o + n

instance (cs : List (List α)) (o n : Nat) : Decidable (CutInside cs o n) := by
  unfold CutInside; infer_instance

/-- The whole stream at once. -/
def atOnce (s : List α) : List (List α) := if s = [] then [] else [s]

/-- A stream that arrives at once is one chunk, or none. -/
theorem atOnce_chunked (s : List α) : Chunked (atOnce s) := by
  intro c hc
  unfold atOnce at hc
  split at hc
  · cases hc
  · rename_i hne
    rw [List.mem_singleton.mp hc]
    exact hne

@[simp] theorem atOnce_flatten (s : List α) : (atOnce s).flatten = s := by
  unfold atOnce
  split
  · rename_i hnil
    rw [hnil, List.flatten_nil]
  · rw [List.flatten_singleton]

/-- The start of the stream is a boundary. -/
theorem zero_mem_boundaries (cs : List (List α)) : 0 ∈ boundaries cs := by
  cases cs with
  | nil => exact List.mem_cons_self
  | cons c cs => exact List.mem_cons_self

theorem mem_boundaries_cons {c : List α} {cs : List (List α)} {b : Nat} :
    b ∈ boundaries (c :: cs) ↔ b = 0 ∨ ∃ b' ∈ boundaries cs, c.length + b' = b := by
  rw [boundaries, List.mem_cons, List.mem_map]

/-- Nothing is cut when it all comes at once. -/
theorem atOnce_not_cut {s : List α} {o n : Nat} (h : o + n ≤ s.length) : ¬ CutInside (atOnce s) o n := by
  rintro ⟨b, hb, hlow, hhigh⟩
  unfold atOnce at hb
  split at hb
  · rw [boundaries, List.mem_singleton] at hb
    omega
  · rw [mem_boundaries_cons] at hb
    obtain hzero | ⟨b', hb', hsum⟩ := hb
    · omega
    · rw [boundaries, List.mem_singleton] at hb'
      omega

/-- The first chunk holds the first `n` bytes, unless it ends inside them. -/
theorem first_holds {c : List α} {cs : List (List α)} {n : Nat} (nonempty : c ≠ []) (whole : ¬ CutInside (c :: cs) 0 n) :
    n ≤ c.length := by
  by_contra hlt
  apply whole
  have hpos : 0 < c.length := List.length_pos_iff.mpr nonempty
  refine ⟨c.length, mem_boundaries_cons.mpr (.inr ⟨0, zero_mem_boundaries cs, Nat.add_zero _⟩), hpos, ?_⟩
  omega

/-- A read whose bytes arrive together gets them all. -/
theorem read_full {cs : List (List α)} {n : Nat} (chunked : Chunked cs) (pos : 0 < n)
    (there : n ≤ cs.flatten.length) (whole : ¬ CutInside cs 0 n) :
    ∃ cs', read n cs = some (cs.flatten.take n, cs') ∧ cs'.flatten = cs.flatten.drop n ∧ Chunked cs' ∧
      ∀ o m, CutInside cs (n + o) m ↔ CutInside cs' o m := by
  cases cs with
  | nil =>
    rw [List.flatten_nil, List.length_nil] at there
    omega
  | cons c cs =>
    have hholds := first_holds (chunked c List.mem_cons_self) whole
    have hrest : Chunked cs := fun d hd => chunked d (List.mem_cons_of_mem _ hd)
    refine ⟨if c.length ≤ n then cs else c.drop n :: cs, ?_, ?_, ?_, ?_⟩
    · rw [read, List.flatten_cons, List.take_append_of_le_length hholds]
    · rw [List.flatten_cons, List.drop_append_of_le_length hholds]
      split
      · rename_i hle
        rw [List.drop_of_length_le hle, List.nil_append]
      · rw [List.flatten_cons]
    · split
      · exact hrest
      · rename_i hgt
        intro d hd
        cases List.mem_cons.mp hd with
        | inl he =>
          rw [he, ← List.length_pos_iff, List.length_drop]
          omega
        | inr hmem => exact hrest d hmem
    · -- boundaries behind the bytes read move up by `n`
      intro o m
      split
      · rename_i hle
        constructor
        · rintro ⟨b, hb, hlow, hhigh⟩
          obtain hzero | ⟨b', hb', hsum⟩ := mem_boundaries_cons.mp hb
          · omega
          · exact ⟨b', hb', by omega, by omega⟩
        · rintro ⟨b, hb, hlow, hhigh⟩
          exact ⟨c.length + b, mem_boundaries_cons.mpr (.inr ⟨b, hb, rfl⟩), by omega, by omega⟩
      · rename_i hgt
        have hdrop : (c.drop n).length = c.length - n := List.length_drop
        constructor
        · rintro ⟨b, hb, hlow, hhigh⟩
          obtain hzero | ⟨b', hb', hsum⟩ := mem_boundaries_cons.mp hb
          · omega
          · exact ⟨b - n, mem_boundaries_cons.mpr (.inr ⟨b', hb', by omega⟩), by omega, by omega⟩
        · rintro ⟨b, hb, hlow, hhigh⟩
          obtain hzero | ⟨b', hb', hsum⟩ := mem_boundaries_cons.mp hb
          · omega
          · exact ⟨n + b, mem_boundaries_cons.mpr (.inr ⟨b', hb', by omega⟩), by omega, by omega⟩

/-- A read whose bytes are not there, or do not arrive together, gets fewer. -/
theorem read_short {cs cs' : List (List α)} {n : Nat} {bs : List α}
    (broken : cs.flatten.length < n ∨ CutInside cs 0 n) (h : read n cs = some (bs, cs')) : bs.length < n := by
  cases cs with
  | nil => cases h
  | cons c cs =>
    obtain ⟨rfl, _⟩ := Prod.mk.inj (Option.some.inj h)
    rw [List.length_take]
    have hlt : c.length < n := by
      cases broken with
      | inl hend =>
        rw [List.flatten_cons, List.length_append] at hend
        omega
      | inr hcut =>
        obtain ⟨b, hb, hlow, hhigh⟩ := hcut
        obtain hzero | ⟨b', _, hsum⟩ := mem_boundaries_cons.mp hb
        · omega
        · omega
    omega

/-- A single byte is never cut. -/
theorem not_cut_one (cs : List (List α)) (o : Nat) : ¬ CutInside cs o 1 := by
  rintro ⟨b, _, hlow, hhigh⟩
  omega

/-- Skipping bytes gets past as many as asked for, however they arrive. -/
theorem drain_flatten (cs : List (List α)) (n : Nat) :
    (drain n cs).map List.flatten = if n ≤ cs.flatten.length then some (cs.flatten.drop n) else none := by
  induction cs generalizing n with
  | nil =>
    cases n with
    | zero => rfl
    | succ n => rfl
  | cons c cs ih =>
    cases n with
    | zero => rfl
    | succ n =>
      rw [drain, List.flatten_cons, List.length_append, List.drop_append]
      split
      · rename_i hle
        rw [ih, List.drop_of_length_le hle, List.nil_append]
        by_cases hroom : n + 1 ≤ c.length + cs.flatten.length
        · rw [if_pos hroom, if_pos (by omega)]
        · rw [if_neg hroom, if_neg (by omega)]
      · rename_i hgt
        rw [if_pos (by omega), Option.map_some, List.flatten_cons, Nat.sub_eq_zero_of_le (by omega), List.drop_zero]

end KiloProxy.Net
