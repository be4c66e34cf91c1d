import Mathlib.Algebra.Order.Ring.Nat
import Mathlib.Data.List.Basic

/-!
# A job that reschedules itself

A run of the job is due at a timer. It hands one piece of work out, and the answer to that
work sets the next timer; a run that finds work handed out does nothing, and one that is
blocked sets its timer again. An answer that comes before the gate has opened is kept for
the opening, which then waits for the next run; without one the opening asks for a run now.
`Alive` says that the job goes on as long as it is switched on, whatever is answered and
however it is switched (`Alive.next`). `Single` says that it goes on in one chain only, which
needs that chains merge where a second one is begun (`Single.next`). In one chain an answer
puts the job to rest for its delay, from which only a kick can rouse it (`Rests.next`).
-/

namespace KiloProxy.Run
set_option autoImplicit false

/-- The state of the job. `out` counts the pieces of work that are not answered yet, `busy`
is the flag that a run looks at. -/
structure Job where
  on : Bool
  gate : Bool
  now : Nat
  timers : List Nat
  out : Nat
  busy : Bool
  kept : Bool
deriving DecidableEq, Repr

namespace Job

/-- What happens to the job. A run that is blocked comes with its delay. -/
inductive Event where
  | nothing
  | wait (ms : Nat)
  | start
  | stop
  | opens (delay : Nat)
  | kick
  | fire (i : Nat) (blocked : Option Nat)
  | again (delay : Nat)
  | keep
  | giveUp
deriving DecidableEq, Repr

/-- The timer for a run in `delay`. -/
def post (j : Job) (delay : Nat) : Job := { j with timers := j.timers ++ [j.now + delay] }

def off (j : Job) : Job := { j with on := false, gate := false, timers := [], busy := false, kept := false }

/-- A run of the job. -/
def run (j : Job) : Option Nat → Job
  | some delay => if j.on then j.post delay else j
  | none => if j.on && !j.busy then { j with busy := true, out := j.out + 1 } else j

/-- A piece of work comes back. -/
def answered (j : Job) : Job := { j with busy := false, out := j.out - 1 }

def next (j : Job) : Event → Job
  | .nothing => j
  | .wait ms => { j with now := j.now + ms }
  | .start => { j with on := true }.post 0
  | .stop => j.off
  | .opens delay => { j with gate := true, kept := false }.post (if j.kept then delay else 0)
  | .kick => { j with timers := [] }.post 0
  | .fire i blocked => { j with timers := j.timers.eraseIdx i }.run blocked
  | .again delay => j.answered.post delay
  | .keep => { j.answered with kept := true }
  | .giveUp => if j.on then j.answered.off else j.answered

/-- The event can happen in this state. -/
def Fits (j : Job) : Event → Prop
  | .start => j.on = false
  | .opens _ | .kick => j.on = true
  | .fire i _ => ∃ due, j.timers[i]? = some due ∧ due ≤ j.now
  | .again _ | .giveUp => 0 < j.out
  | .keep => 0 < j.out ∧ j.gate = false
  | _ => True

/-! ## The job goes on -/

/-- Something is there that brings the next run. -/
structure Alive (j : Job) : Prop where
  goes : j.on = true → j.timers ≠ [] ∨ 0 < j.out ∨ (j.gate = false ∧ j.kept = true)
  busy : j.busy = true → 0 < j.out

variable {j : Job}

theorem post_timers (j : Job) (delay : Nat) : (j.post delay).timers ≠ [] := by
  simp [post]

/-- A run that does nothing finds work handed out. -/
theorem Alive.run (blocked : Option Nat) (busy : j.busy = true → 0 < j.out) : Alive (j.run blocked) := by
  unfold Job.run
  cases blocked with
  | some delay =>
    simp only
    split
    · exact ⟨fun _ => .inl (post_timers j delay), busy⟩
    · rename_i hoff
      exact ⟨fun hon => absurd hon hoff, busy⟩
  | none =>
    simp only
    split
    · exact ⟨fun _ => .inr (.inl (Nat.succ_pos _)), fun _ => Nat.succ_pos _⟩
    · rename_i hskip
      refine ⟨fun hon => ?_, busy⟩
      rw [hon, Bool.true_and, Bool.not_eq_true', Bool.not_eq_false] at hskip
      exact .inr (.inl (busy hskip))

/-- No event ends the job but a stop. -/
theorem Alive.next (h : Alive j) {e : Event} (fits : j.Fits e) : Alive (j.next e) := by
  cases e with
  | nothing => exact h
  | wait ms => exact ⟨h.goes, h.busy⟩
  | start => exact ⟨fun _ => .inl (post_timers _ 0), h.busy⟩
  | stop => exact ⟨nofun, nofun⟩
  | opens delay => exact ⟨fun _ => .inl (post_timers _ _), h.busy⟩
  | kick => exact ⟨fun _ => .inl (post_timers _ 0), h.busy⟩
  | fire i blocked => exact .run blocked h.busy
  | again delay => exact ⟨fun _ => .inl (post_timers _ delay), nofun⟩
  | keep => exact ⟨fun _ => .inr (.inr ⟨fits.2, rfl⟩), nofun⟩
  | giveUp =>
    unfold Job.next
    simp only
    split
    · exact ⟨nofun, nofun⟩
    · rename_i hoff
      exact ⟨fun hon => absurd hon hoff, nofun⟩

/-! ## The job goes on once -/

/-- The timers that are not due yet. -/
def ahead (j : Job) : Nat := j.timers.countP fun due => j.now < due

/-- No run is due. -/
def Settled (j : Job) : Prop := ∀ due ∈ j.timers, j.now < due

/-- Every timer is due. -/
def AllDue (j : Job) : Prop := ∀ due ∈ j.timers, due ≤ j.now

instance (j : Job) : Decidable j.Settled := inferInstanceAs (Decidable (∀ due ∈ j.timers, j.now < due))
instance (j : Job) : Decidable j.AllDue := inferInstanceAs (Decidable (∀ due ∈ j.timers, due ≤ j.now))

/-- A second chain that the event begins merges with the first: the run that is due next
finds the flag set, or the timers of both are due. -/
def Merges (j : Job) : Event → Prop
  | .start => j.AllDue ∧ j.out = 0
  | .opens _ => if j.kept then j.timers = [] ∧ j.out = 0 else j.AllDue
  | .fire _ (some _) => j.on = true → j.timers.length = 1 ∧ j.out = 0
  | .again _ => j.on = true → j.Settled
  | _ => True

instance (j : Job) (e : Event) : Decidable (j.Merges e) := by
  unfold Merges
  split <;> infer_instance

/-- At most one timer lies ahead or one piece of work is out; a timer ahead is the only one. -/
structure Single (j : Job) : Prop where
  busy : 0 < j.out → j.busy = true
  one : j.ahead + j.out ≤ 1
  alone : 0 < j.ahead → j.Settled

theorem ahead_of_allDue (h : j.AllDue) : j.ahead = 0 := by
  rw [ahead, List.countP_eq_zero]
  intro due hdue
  simpa using h due hdue

theorem ahead_of_settled (h : j.Settled) : j.ahead = j.timers.length := by
  rw [ahead, List.countP_eq_length]
  intro due hdue
  simpa using h due hdue

/-- With every timer due there is no chain but what is out. -/
theorem Single.of_allDue (due : j.AllDue) (busy : 0 < j.out → j.busy = true) (out : j.out ≤ 1) : Single j := by
  have hnone := ahead_of_allDue due
  refine ⟨busy, by omega, fun hpos => ?_⟩
  rw [hnone] at hpos
  exact absurd hpos (Nat.lt_irrefl 0)

/-- One timer, due or not, with nothing out. -/
theorem Single.of_timer {t : Nat} (timers : j.timers = [t]) (out : j.out = 0) : Single j := by
  have hone : j.ahead ≤ 1 := by
    rw [ahead, timers]
    exact List.countP_le_length
  refine ⟨fun hpos => ?_, by omega, fun hpos => ?_⟩
  · rw [out] at hpos
    exact absurd hpos (Nat.lt_irrefl 0)
  · obtain ⟨other, hother, hlate⟩ := List.countP_pos_iff.mp hpos
    intro due hdue
    rw [timers, List.mem_singleton] at hother hdue
    rw [hdue, ← hother]
    exact of_decide_eq_true hlate

namespace Single

/-- A due timer is there, so none lies ahead. -/
theorem allDue (h : Single j) {due : Nat} (hmem : due ∈ j.timers) (hdue : due ≤ j.now) : j.AllDue := by
  intro other hother
  by_contra hlate
  rw [Nat.not_le] at hlate
  have hpos : 0 < j.ahead := List.countP_pos_iff.mpr ⟨other, hother, by simpa using hlate⟩
  have hahead := h.alone hpos due hmem
  omega

/-- No timer lies ahead while work is out. -/
theorem allDue_of_out (h : Single j) (out : 0 < j.out) : j.AllDue := by
  intro due hmem
  by_contra hlate
  rw [Nat.not_le] at hlate
  have hpos : 0 < j.ahead := List.countP_pos_iff.mpr ⟨due, hmem, by simpa using hlate⟩
  have hone := h.one
  omega

/-- A due run takes its timer off and merges with the others that are due. -/
theorem fire (h : Single j) {i due : Nat} {blocked : Option Nat} (hdue : j.timers[i]? = some due) (hnow : due ≤ j.now)
    (hon : j.on = true) (merges : j.Merges (.fire i blocked)) : Single (j.next (.fire i blocked)) := by
  have hall := h.allDue (List.mem_of_getElem? hdue) hnow
  have hone := h.one
  have hrest : ({ j with timers := j.timers.eraseIdx i } : Job).AllDue := fun t ht =>
    hall t (List.mem_of_mem_eraseIdx ht)
  unfold Job.next Job.run
  cases blocked with
  | some delay =>
    obtain ⟨hlength, hout⟩ := merges hon
    obtain ⟨t, ht⟩ := List.length_eq_one_iff.mp hlength
    have hi : i = 0 := by
      have hlt := (List.getElem?_eq_some_iff.mp hdue).1
      omega
    have hrun : ({ j with timers := j.timers.eraseIdx i } : Job).timers = [] := by
      show j.timers.eraseIdx i = []
      rw [ht, hi]
      rfl
    show Single (if j.on then _ else _)
    rw [if_pos hon]
    refine .of_timer (t := j.now + delay) ?_ hout
    rw [post, hrun]
    rfl
  | none =>
    simp only [hon, Bool.true_and]
    split
    · rename_i hidle
      have hout : j.out = 0 := by
        by_contra hne
        rw [h.busy (Nat.pos_of_ne_zero hne)] at hidle
        cases hidle
      exact .of_allDue hrest (fun _ => rfl) (by simp [hout])
    · exact .of_allDue hrest h.busy (by simp only; omega)

/-- An answer finds no timer, or only due ones. -/
theorem again (h : Single j) {delay : Nat} (out : 0 < j.out) (hon : j.on = true) (merges : j.Merges (.again delay)) :
    Single (j.next (.again delay)) := by
  have hone := h.one
  have hnil : j.timers = [] := by
    apply List.eq_nil_iff_forall_not_mem.mpr
    intro due hdue
    have hlate := merges hon due hdue
    have hpast := h.allDue_of_out out due hdue
    omega
  apply Single.of_timer (t := j.now + delay)
  · rw [Job.next, post, answered, hnil]
    rfl
  · show j.out - 1 = 0
    omega

theorem wait (h : Single j) (ms : Nat) : Single (j.next (.wait ms)) := by
  by_cases hdue : ∃ due ∈ j.timers, due ≤ j.now + ms
  · -- all that lay ahead was one timer, and it is due now
    have hall : (j.next (.wait ms)).AllDue := by
      intro other hother
      obtain ⟨due, hmem, hle⟩ := hdue
      by_cases hpos : 0 < j.ahead
      · have hlength := ahead_of_settled (h.alone hpos)
        have hone := h.one
        obtain ⟨t, ht⟩ := List.length_eq_one_iff.mp (by omega : j.timers.length = 1)
        rw [ht, List.mem_singleton] at hmem
        have hsame : other = t := by simpa [Job.next, ht] using hother
        rw [hsame, ← hmem]
        exact hle
      · have hpast : ¬ j.now < other := fun hlate =>
          hpos (List.countP_pos_iff.mpr ⟨other, hother, by simpa using hlate⟩)
        show other ≤ j.now + ms
        omega
    exact .of_allDue hall h.busy (by have hone := h.one; simp only [Job.next]; omega)
  · have hsettled : (j.next (.wait ms)).Settled := fun due hmem => by
      by_contra hle
      exact hdue ⟨due, hmem, Nat.not_lt.mp hle⟩
    have hbefore : j.Settled := fun due hmem => Nat.lt_of_le_of_lt (Nat.le_add_right _ ms) (hsettled due hmem)
    have hone := h.one
    refine ⟨h.busy, ?_, fun _ => hsettled⟩
    rw [ahead_of_settled hsettled]
    rw [ahead_of_settled hbefore] at hone
    exact hone

/-- One chain stays one where chains merge. -/
theorem next (h : j.on = true → Single j) {e : Event} (fits : j.Fits e) (merges : j.Merges e) :
    (j.next e).on = true → Single (j.next e) := by
  intro hon
  cases e with
  | nothing => exact h hon
  | wait ms => exact (h hon).wait ms
  | start =>
    obtain ⟨hdue, hout⟩ := merges
    refine .of_allDue (fun due hmem => ?_) (fun hpos => ?_) (by simp [Job.next, post, hout])
    · obtain hold | hnew := List.mem_append.mp hmem
      · exact hdue due hold
      · exact (List.mem_singleton.mp hnew).le
    · exact absurd hpos (by simp [Job.next, post, hout])
  | stop => cases hon
  | opens delay =>
    have hold := h hon
    have hmerge : if j.kept then j.timers = [] ∧ j.out = 0 else j.AllDue := merges
    split at hmerge
    · rename_i hkept
      obtain ⟨hnil, hout⟩ := hmerge
      exact .of_timer (t := j.now + delay) (by simp [Job.next, post, hnil, hkept]) hout
    · rename_i hkept
      refine .of_allDue (fun due hmem => ?_) hold.busy (by have hone := hold.one; simp only [Job.next, post]; omega)
      obtain hpast | hnew := List.mem_append.mp hmem
      · exact hmerge due hpast
      · rw [if_neg hkept] at hnew
        exact (List.mem_singleton.mp hnew).le
  | kick =>
    have hold := h fits
    have hone := hold.one
    refine .of_allDue (fun due hmem => ?_) hold.busy (by simp only [Job.next, post]; omega)
    exact (List.mem_singleton.mp hmem).le
  | fire i blocked =>
    obtain ⟨due, hdue, hnow⟩ := fits
    have hwas : j.on = true := by
      unfold Job.next Job.run at hon
      cases blocked <;> simp only at hon <;> split at hon <;> exact hon
    exact (h hwas).fire hdue hnow hwas merges
  | again delay => exact (h hon).again fits hon merges
  | keep =>
    have hold := h hon
    have hone := hold.one
    exact .of_allDue (hold.allDue_of_out fits.1) (fun hpos => absurd hpos (by simp [Job.next, answered]; omega))
      (by simp only [Job.next, answered]; omega)
  | giveUp =>
    unfold Job.next at hon
    simp only at hon
    split at hon
    · cases hon
    · rename_i hoff
      exact absurd hon hoff

/-- Once nothing is due, a timer or a piece of work is all there is. -/
theorem settled (h : Single j) (hs : j.Settled) : j.timers.length + j.out ≤ 1 := by
  rw [← ahead_of_settled hs]
  exact h.one

end Single

/-! ## Rest -/

/-- Until `t` the job has one timer, for `t`, and nothing out. -/
def Rests (j : Job) (t : Nat) : Prop := j.on = true → j.now < t → j.timers = [t] ∧ j.out = 0

/-- In one chain an answer sets the only timer. -/
theorem Single.again_rests (h : Single j) {delay : Nat} (out : 0 < j.out) (hon : j.on = true)
    (merges : j.Merges (.again delay)) : (j.next (.again delay)).Rests (j.now + delay) := by
  have hone := h.one
  have hnil : j.timers = [] := by
    apply List.eq_nil_iff_forall_not_mem.mpr
    intro due hdue
    have hlate := merges hon due hdue
    have hpast := h.allDue_of_out out due hdue
    omega
  intro _ _
  constructor
  · show j.timers ++ [j.now + delay] = [j.now + delay]
    rw [hnil, List.nil_append]
  · show j.out - 1 = 0
    omega

/-- A job at rest is answered by nobody. -/
theorem Rests.wakes {t : Nat} (h : j.Rests t) (hon : j.on = true) (out : 0 < j.out) : t ≤ j.now := by
  by_contra hearly
  have hout := (h hon (Nat.not_le.mp hearly)).2
  omega

/-- **The job rests on**, unless it is kicked or switched on anew. -/
theorem Rests.next {t : Nat} (h : j.Rests t) {e : Event} (fits : j.Fits e) (merges : j.Merges e) (kick : e ≠ .kick)
    (start : e ≠ .start) : (j.next e).Rests t := by
  intro hon hearly
  cases e with
  | nothing => exact h hon hearly
  | wait ms => exact h hon (Nat.lt_of_le_of_lt (Nat.le_add_right j.now ms) hearly)
  | start => exact absurd rfl start
  | kick => exact absurd rfl kick
  | stop => cases hon
  | opens delay =>
    -- the timer ahead forbids a second chain
    obtain ⟨htimers, _⟩ := h hon hearly
    have hmerge : if j.kept then j.timers = [] ∧ j.out = 0 else j.AllDue := merges
    have hearly : j.now < t := hearly
    split at hmerge
    · rw [htimers] at hmerge
      cases hmerge.1
    · have hdue := hmerge t (by rw [htimers]; exact List.mem_singleton_self t)
      omega
  | fire i blocked =>
    obtain ⟨due, hdue, hnow⟩ := fits
    have hstate : j.on = true ∧ j.now < t := by
      unfold Job.next Job.run at hon hearly
      cases blocked <;> simp only at hon hearly <;> split at hon <;> split at hearly <;> exact ⟨hon, hearly⟩
    have hmem := List.mem_of_getElem? hdue
    rw [(h hstate.1 hstate.2).1, List.mem_singleton] at hmem
    omega
  | again delay =>
    have hout : 0 < j.out := fits
    have hearly : j.now < t := hearly
    have hwakes := h.wakes hon hout
    omega
  | keep =>
    have hearly : j.now < t := hearly
    have hwakes := h.wakes hon fits.1
    omega
  | giveUp =>
    unfold Job.next at hon
    simp only at hon
    split at hon
    · cases hon
    · rename_i hoff
      exact absurd hon hoff

end Job

end KiloProxy.Run
