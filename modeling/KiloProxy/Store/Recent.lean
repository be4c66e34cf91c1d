import Mathlib.Data.List.Induction
import Mathlib.Data.List.Nodup

/-!
# Most recently used lists

`touch` puts an element in front and drops its older occurrence. After a history of uses the
list is the history read from its end, each element once (`foldl_touch`). A list that is cut to
`k` elements after every use is the full list cut once (`foldl_touch_take`): the cut never drops
what a later cut would keep.
-/

namespace KiloProxy.Store
set_option autoImplicit false

variable {α : Type} {uses l : List α} {a b : α}

/-- `a` was used after every use of `b`. -/
def UsedAfter (uses : List α) (a b : α) : Prop := ∃ before after, uses = before ++ a :: after ∧ b ∉ a :: after

/-- What was used after the last use of `b` still is, as long as `b` is not used again. -/
theorem UsedAfter.concat {c : α} (h : UsedAfter uses a b) (hb : b ≠ c) : UsedAfter (uses ++ [c]) a b := by
  obtain ⟨before, after, rfl, hout⟩ := h
  refine ⟨before, after ++ [c], by rw [List.append_assoc, List.cons_append], ?_⟩
  rw [← List.cons_append, List.mem_append, List.mem_singleton]
  exact not_or.mpr ⟨hout, hb⟩

theorem usedAfter_last (h : b ≠ a) : UsedAfter (uses ++ [a]) a b :=
  ⟨uses, [], rfl, by rw [List.mem_singleton]; exact h⟩

variable [DecidableEq α]

/-- One use of `a`. -/
def touch (l : List α) (a : α) : List α := a :: l.filter fun b => b ≠ a

/-- What was used, the most recent first. -/
def mostRecent (uses : List α) : List α := uses.reverse.eraseDups

/-! ## The whole list -/

/-- Repetitions are dropped from a part as from the whole. -/
theorem filter_eraseDups (p : α → Bool) (l : List α) : (l.filter p).eraseDups = l.eraseDups.filter p := by
  induction h : l.length using Nat.strongRecOn generalizing l with
  | ind n ih =>
    cases l with
    | nil => rfl
    | cons b l =>
      have hshort : (l.filter fun c => !c == b).length < n := by
        have hle := List.length_filter_le (fun c => !c == b) l
        rw [List.length_cons] at h
        omega
      have hrest := ih _ hshort (l.filter fun c => !c == b) rfl
      rw [List.eraseDups_cons]
      by_cases hb : p b = true
      · rw [List.filter_cons_of_pos hb, List.filter_cons_of_pos hb, List.eraseDups_cons, ← hrest, List.filter_filter,
          List.filter_filter]
        simp only [Bool.and_comm]
      · rw [List.filter_cons_of_neg hb, List.filter_cons_of_neg hb, ← hrest, List.filter_filter]
        congr 1
        apply List.filter_congr
        intro c _
        by_cases hc : c = b
        · subst hc
          simp [hb]
        · simp [hc]

/-- A use brings its element to the front. -/
theorem mostRecent_concat (uses : List α) (a : α) : mostRecent (uses ++ [a]) = touch (mostRecent uses) a := by
  have hsame : (fun b => !b == a) = fun b => decide (b ≠ a) := by
    funext b
    by_cases h : b = a <;> simp [h]
  rw [mostRecent, List.reverse_append, List.reverse_singleton, List.singleton_append, List.eraseDups_cons, hsame,
    filter_eraseDups]
  rfl

theorem nodup_touch (h : l.Nodup) : (touch l a).Nodup := by
  refine List.nodup_cons.mpr ⟨fun hmem => ?_, h.filter _⟩
  simpa using (List.mem_filter.mp hmem).2

/-- Uses fold to the history read backwards. The induction is on the last use. -/
theorem foldl_touch (uses : List α) : uses.foldl touch [] = mostRecent uses := by
  induction uses using List.reverseRecOn with
  | nil => rfl
  | append_singleton uses a ih => rw [List.foldl_append, ih, mostRecent_concat, List.foldl_cons, List.foldl_nil]

/-- Each element stands there once. -/
theorem nodup_mostRecent (uses : List α) : (mostRecent uses).Nodup := by
  induction uses using List.reverseRecOn with
  | nil => exact List.nodup_nil
  | append_singleton uses a ih =>
    rw [mostRecent_concat]
    exact nodup_touch ih

/-- The list is ordered by the last use. -/
theorem mostRecent_ordered (uses : List α) : (mostRecent uses).Pairwise (UsedAfter uses) := by
  induction uses using List.reverseRecOn with
  | nil => exact .nil
  | append_singleton uses a ih =>
    rw [mostRecent_concat]
    have hother : ∀ b ∈ (mostRecent uses).filter (fun b => b ≠ a), b ≠ a := fun b hb => by
      simpa using (List.mem_filter.mp hb).2
    refine List.pairwise_cons.mpr ⟨fun b hb => usedAfter_last (hother b hb), ?_⟩
    exact (ih.filter _).imp_of_mem fun _ hd hlater => hlater.concat (hother _ hd)

/-! ## Cut lists -/

/-- Of a list cut behind its first `k + 1` elements, at least `k` stay when one is dropped. -/
theorem take_filter_take (h : l.Nodup) (k : Nat) :
    ((l.take (k + 1)).filter fun b => b ≠ a).take k = (l.filter fun b => b ≠ a).take k := by
  induction l generalizing k with
  | nil => rfl
  | cons b l ih =>
    obtain ⟨hb, hl⟩ := List.nodup_cons.mp h
    rw [List.take_succ_cons]
    by_cases hba : b = a
    · subst hba
      have hkeep : ∀ l' : List α, b ∉ l' → l'.filter (fun c => c ≠ b) = l' := fun l' hout =>
        List.filter_eq_self.mpr fun c hc => by simpa using fun he : c = b => hout (he ▸ hc)
      have hcut : b ∉ l.take k := fun hmem => hb (List.mem_of_mem_take hmem)
      rw [List.filter_cons_of_neg (by simp), List.filter_cons_of_neg (by simp), hkeep _ hcut, hkeep l hb,
        List.take_take, Nat.min_self]
    · rw [List.filter_cons_of_pos (by simpa using hba), List.filter_cons_of_pos (by simpa using hba)]
      cases k with
      | zero => rfl
      | succ k => rw [List.take_succ_cons, List.take_succ_cons, ih hl k]

/-- A cut before the use does not change what the cut after it keeps. -/
theorem take_touch_take (h : l.Nodup) (a : α) (k : Nat) : (touch (l.take k) a).take k = (touch l a).take k := by
  cases k with
  | zero => rfl
  | succ k => rw [touch, touch, List.take_succ_cons, List.take_succ_cons, take_filter_take h]

/-- Cutting after every use is cutting once. -/
theorem foldl_touch_take (k : Nat) (uses : List α) :
    uses.foldl (fun l a => (touch l a).take k) [] = (mostRecent uses).take k := by
  induction uses using List.reverseRecOn with
  | nil => exact List.take_nil.symm
  | append_singleton uses a ih =>
    rw [List.foldl_append, ih, List.foldl_cons, List.foldl_nil, take_touch_take (nodup_mostRecent uses), mostRecent_concat]

/-! ## Queues with the least recent in front -/

/-- `queue` holds the `k` used last, the least recent in front. -/
def RecentQueue (k : Nat) (uses queue : List α) : Prop := queue = ((mostRecent uses).take k).reverse

namespace RecentQueue

variable {k : Nat} {queue : List α}

theorem nil (k : Nat) : RecentQueue k [] ([] : List α) := (congrArg List.reverse (List.take_nil : [].take k = [])).symm

theorem nodup (h : RecentQueue k uses queue) : queue.Nodup := by
  rw [h]
  exact List.nodup_reverse.mpr ((nodup_mostRecent uses).take)

theorem length_le (h : RecentQueue k uses queue) : queue.length ≤ k := by
  rw [h, List.length_reverse]
  exact List.length_take_le _ _

/-- The queue holds the most recent elements, the latest last. -/
theorem reverse_eq (h : RecentQueue k uses queue) : queue.reverse = (mostRecent uses).take k := by
  rw [h, List.reverse_reverse]

/-- After one more use the list is that of the queue, cut again. -/
theorem next (h : RecentQueue k uses queue) (a : α) :
    ((mostRecent (uses ++ [a])).take k).reverse = ((touch queue.reverse a).take k).reverse := by
  rw [mostRecent_concat, h.reverse_eq, take_touch_take (nodup_mostRecent uses)]

/-- Moving an element keeps the length. -/
theorem length_moved {l : List α} (h : l.Nodup) (ha : a ∈ l) : (l.filter (fun b => b ≠ a) ++ [a]).length = l.length := by
  have herase : l.erase a = l.filter fun b => b ≠ a := by
    rw [h.erase_eq_filter]
    exact List.filter_congr fun b _ => by by_cases hba : b = a <;> simp [hba]
  have hpos : 0 < l.length := List.length_pos_of_mem ha
  rw [List.length_append, ← herase, List.length_erase_of_mem ha, List.length_singleton, Nat.sub_add_cancel hpos]

/-- An element of the queue moves to its end. -/
theorem moved (h : RecentQueue k uses queue) (ha : a ∈ queue) :
    RecentQueue k (uses ++ [a]) (queue.filter (fun b => b ≠ a) ++ [a]) := by
  have hlength := length_moved (List.nodup_reverse.mpr h.nodup) (List.mem_reverse.mpr ha)
  rw [List.length_append, List.length_reverse, List.length_singleton] at hlength
  have hle := h.length_le
  unfold RecentQueue
  rw [h.next, touch, List.take_of_length_le (by rw [List.length_cons]; omega), List.reverse_cons, List.filter_reverse,
    List.reverse_reverse]

/-- A new element goes in front of all others. -/
theorem touch_new (ha : a ∉ queue) : touch queue.reverse a = a :: queue.reverse := by
  rw [touch, List.filter_eq_self.mpr]
  intro b hb
  have hne : b ≠ a := fun he => ha (he ▸ List.mem_reverse.mp hb)
  simpa using hne

/-- A new element joins a queue with room for it. -/
theorem joined (h : RecentQueue k uses queue) (ha : a ∉ queue) (hroom : queue.length < k) :
    RecentQueue k (uses ++ [a]) (queue ++ [a]) := by
  unfold RecentQueue
  rw [h.next, touch_new ha, List.take_of_length_le (by rw [List.length_cons, List.length_reverse]; omega),
    List.reverse_cons, List.reverse_reverse]

/-- In a full queue it takes the place of the least recent. -/
theorem replaced {b : α} {rest : List α} (h : RecentQueue k uses (b :: rest)) (ha : a ∉ b :: rest)
    (hfull : (b :: rest).length = k) : RecentQueue k (uses ++ [a]) (rest ++ [a]) := by
  have hk : k = rest.reverse.length + 1 := by rw [← hfull, List.length_cons, List.length_reverse]
  unfold RecentQueue
  rw [h.next, touch_new ha, hk, List.take_succ_cons, List.reverse_cons (a := b), List.take_left, List.reverse_cons,
    List.reverse_reverse]

end RecentQueue

end KiloProxy.Store
