import KiloProxy.Ui.FloatingControl

/-!
# A lost binding is taken up again

The bubble always has a timer or a poll that will set one. The app has its timer from
the first callback on; before that everything hangs on the very first `bindService`,
whose outcome `init` does not look at: if it is refused, nothing will ever try again.
-/

namespace KiloProxy.Ui
set_option autoImplicit false
open KiloProxy.Run

/-! ## The app -/

namespace Binding

/-- No service is bound. -/
def Unbound (b : Binding) : Prop := b.bound = false ∨ b.vpnService = false

/-- Without a service, a bind is outstanding or a rebind timer is pending. -/
def Tended (b : Binding) : Prop := b.Unbound → b.outstanding = true ∨ b.rebindRunnable ≠ none

/-- What holds until the model is cleared. -/
structure Live (b : Binding) : Prop where
  same : b.bound = b.vpnService
  /-- A pending retry can go on. -/
  retry : ∀ delay, b.rebindRunnable = some ⟨.retry, delay⟩ → b.rebinding = false
  tended : b.Tended

/-- Past its early return `scheduleRebind` always leaves a timer. -/
theorem scheduleRebind_live {b : Binding} (accepted : Bool) (hcleared : b.cleared = false) (hfree : b.rebinding = false)
    (hsame : b.bound = b.vpnService) : (b.scheduleRebind accepted).Live := by
  have hgo : ¬ (b.cleared || b.rebinding) = true := by simp [hcleared, hfree]
  cases accepted with
  | true =>
    have hs : b.scheduleRebind true =
        (({ b with rebinding := true }.bindToService true).post .watchdog 2000) := if_neg hgo
    rw [hs]
    exact ⟨hsame, fun _ h => (by cases h), fun _ => .inr (by simp [post])⟩
  | false =>
    have hs : b.scheduleRebind false =
        { { b with rebinding := true }.bindToService false with
          rebinding := false, rebindAttempts := b.rebindAttempts + 1 }.post .retry
            (rebindDelay (b.rebindAttempts + 1)) := if_neg hgo
    rw [hs]
    exact ⟨hsame, fun _ _ => rfl, fun _ => .inr (by simp [post])⟩

theorem scheduleRebind_cleared (b : Binding) (accepted : Bool) : (b.scheduleRebind accepted).cleared = b.cleared := by
  unfold scheduleRebind
  split
  · rfl
  · cases accepted <;> rfl

theorem onServiceConnected_live (b : Binding) : b.onServiceConnected.Live :=
  ⟨rfl, fun _ h => (by cases h), fun h => (by rcases h with h | h <;> cases h)⟩

theorem onServiceDisconnected_live {b : Binding} (accepted : Bool) (hcleared : b.cleared = false) :
    (b.onServiceDisconnected accepted).Live :=
  scheduleRebind_live accepted hcleared rfl rfl

theorem onServiceDisconnected_cleared (b : Binding) (accepted : Bool) :
    (b.onServiceDisconnected accepted).cleared = b.cleared := scheduleRebind_cleared _ accepted

theorem fire_live {b b' : Binding} {accepted : Bool} (h : b.Live) (hcleared : b.cleared = false)
    (hfire : b.fire accepted = some b') : b'.Live := by
  obtain ⟨⟨runnable, delay⟩, htimer, rfl⟩ := Option.map_eq_some_iff.mp hfire
  cases runnable with
  | retry =>
    have hgo : (!b.cleared) = true := by rw [hcleared]; rfl
    simp only [hgo, if_true]
    exact scheduleRebind_live accepted hcleared (h.retry delay htimer) h.same
  | watchdog =>
    simp only
    split
    · exact scheduleRebind_live accepted hcleared rfl h.same
    · rename_i hbound
      have hb : b.bound = true := by simpa [hcleared] using hbound
      refine ⟨h.same, fun _ h => (by cases h), fun hun => ?_⟩
      rcases hun with hun | hun
      · exact absurd (hb.symm.trans hun) (by decide)
      · exact absurd ((hb.symm.trans h.same).trans hun) (by decide)

/-- Firing does not bring back a cleared screen. -/
theorem fire_cleared {b b' : Binding} {accepted : Bool} (hfire : b.fire accepted = some b') : b'.cleared = b.cleared := by
  obtain ⟨⟨runnable, delay⟩, _, rfl⟩ := Option.map_eq_some_iff.mp hfire
  cases runnable with
  | retry =>
    simp only
    split
    · rw [scheduleRebind_cleared]
    · rfl
  | watchdog =>
    simp only
    split
    · rw [scheduleRebind_cleared]
    · rfl

end Binding

namespace VpnViewModel

theorem syncState_binding (s : VpnViewModel) (reply : StateReply) : (s.syncState reply).toBinding = s.toBinding := by
  unfold syncState
  split <;> rfl

theorem poll_binding (s : VpnViewModel) (reply : StateReply) : (s.poll reply).toBinding = s.toBinding := by
  unfold poll
  split
  · exact syncState_binding s reply
  · rfl

/-- Every step keeps the binding live, until the model is cleared. -/
theorem step_live {s s' : VpnViewModel} {e : Event} (h : s.cleared = false → s.toBinding.Live)
    (hstep : s.step e = some s') (hcleared : s'.cleared = false) : s'.toBinding.Live := by
  cases e with
  | connected reply =>
    cases hstep
    rw [syncState_binding]
    exact Binding.onServiceConnected_live _
  | disconnected accepted =>
    cases hstep
    exact Binding.onServiceDisconnected_live accepted ((Binding.onServiceDisconnected_cleared _ accepted).symm.trans hcleared)
  | bindingDied accepted =>
    cases hstep
    exact Binding.onServiceDisconnected_live accepted ((Binding.onServiceDisconnected_cleared _ accepted).symm.trans hcleared)
  | poll reply =>
    cases hstep
    have hsame := poll_binding s reply
    have hc : s.cleared = false := (congrArg Binding.cleared hsame).symm.trans hcleared
    rw [hsame]
    exact h hc
  | broadcast reply error =>
    cases hstep
    have hsame := syncState_binding s reply
    have hc : s.cleared = false := (congrArg Binding.cleared hsame).symm.trans hcleared
    have hlive := h hc
    rw [← hsame] at hlive
    exact hlive
  | timer accepted =>
    obtain ⟨b, hfire, rfl⟩ := Option.map_eq_some_iff.mp hstep
    have hc : s.cleared = false := (Binding.fire_cleared hfire).symm.trans hcleared
    exact Binding.fire_live (h hc) hc hfire
  | cleared =>
    cases hstep
    cases hcleared

/-- Once the first bind was accepted, every run stays tended. -/
theorem accepted_live {s : VpnViewModel} (h : Reachable (system true) s) : s.cleared = false → s.toBinding.Live := by
  refine Reaches.invariant (P := fun s => s.cleared = false → s.toBinding.Live) ?_ ?_ h
  · rintro s rfl _
    exact ⟨rfl, fun _ h => (by cases h), fun _ => .inl rfl⟩
  · intro s e s' hs _ hstep
    exact step_live hs hstep

end VpnViewModel

/-! ## The bubble -/

namespace FloatingControl

/-- No service is bound. -/
def Unbound (s : FloatingControl) : Prop := s.bound = false ∨ s.vpnService = false

/-- Without a service, a bind is outstanding, a rebind timer is pending, or the next poll
leaves one pending. -/
def Tended (s : FloatingControl) : Prop :=
  s.Unbound → s.outstanding = true ∨ s.rebindRunnable ≠ none ∨
    (s.polling = true ∧ ∀ p, (s.pollState p).rebindRunnable ≠ none)

structure Live (s : FloatingControl) : Prop where
  polling : s.polling = true
  idle : s.pendingProfile = none
  same : s.bound = s.vpnService
  timer : s.rebindInFlight = s.rebindRunnable.isSome
  retry : s.Unbound → s.rebindRunnable.isSome = true ∨ s.rebindAttempts = 0

variable {s : FloatingControl}

/-- `setState` moves the state and its timeout only. -/
theorem setState_frame (newState : BubbleState) :
    s.setState newState = { s with state := newState, connectTimeout := (s.setState newState).connectTimeout } := by
  unfold setState
  split
  · rename_i h
    rw [← h]
  · rfl

theorem setState_live (h : s.Live) (newState : BubbleState) : (s.setState newState).Live := by
  rw [setState_frame]
  exact ⟨h.polling, h.idle, h.same, h.timer, h.retry⟩

/-- After `scheduleRebind` a timer is pending. -/
theorem scheduleRebind_live (hpolling : s.polling = true) (hidle : s.pendingProfile = none)
    (hsame : s.bound = s.vpnService) (htimer : s.rebindInFlight = s.rebindRunnable.isSome) :
    s.scheduleRebind.Live ∧ s.scheduleRebind.rebindRunnable ≠ none := by
  unfold scheduleRebind
  split
  · rename_i hflight
    rw [htimer] at hflight
    exact ⟨⟨hpolling, hidle, hsame, htimer, fun _ => .inl hflight⟩, Option.isSome_iff_ne_none.mp hflight⟩
  · exact ⟨⟨hpolling, hidle, hsame, rfl, fun _ => .inl rfl⟩, by simp⟩

theorem fire_live {s' : FloatingControl} {accepted : Bool} (h : s.Live) (hfire : s.fire accepted = some s') : s'.Live := by
  obtain ⟨delay, _, rfl⟩ := Option.map_eq_some_iff.mp hfire
  simp only
  split
  · rename_i hbound
    split
    · refine (scheduleRebind_live ?_ ?_ ?_ ?_).1
      exacts [h.polling, h.idle, h.same, rfl]
    · rename_i hagain
      exact absurd hbound hagain
  · rename_i hbound
    have hb : s.bound = true := by simpa using hbound
    refine ⟨h.polling, h.idle, h.same, rfl, fun hun => ?_⟩
    rcases hun with hun | hun
    · exact absurd (hb.symm.trans hun) (by decide)
    · exact absurd ((hb.symm.trans h.same).trans hun) (by decide)

/-- A binder that throws is dropped, and a timer is pending. -/
theorem pollFailed_live (h : s.Live) : s.pollFailed.Live ∧ s.pollFailed.rebindRunnable ≠ none := by
  simp only [pollFailed]
  split
  · rw [setState_frame]
    exact scheduleRebind_live h.polling h.idle rfl h.timer
  · exact scheduleRebind_live h.polling h.idle rfl h.timer

/-- Polling keeps the bubble bound or waiting. -/
theorem pollState_live (h : s.Live) (p : Poll) : (s.pollState p).Live := by
  have hidle : (s.pendingProfile.isSome && p.prepared) = false := by simp [h.idle]
  simp only [pollState, hidle, Bool.false_eq_true, if_false]
  split
  · split
    · exact (scheduleRebind_live h.polling h.idle h.same h.timer).1
    · exact h
  · cases p.reply with
    | bundle state =>
      simp only [follow]
      split_ifs
      · exact setState_live h _
      · exact setState_live h _
      · exact h
      · exact setState_live h _
    | failed message => exact (pollFailed_live h).1

theorem step_live {s' : FloatingControl} {e : Event} (h : s.Live) (hstep : s.step e = some s') : s'.Live := by
  cases e with
  | connected =>
    cases hstep
    exact ⟨h.polling, h.idle, rfl, h.timer, fun _ => .inr rfl⟩
  | disconnected =>
    cases hstep
    refine (scheduleRebind_live ?_ ?_ ?_ ?_).1
    exacts [h.polling, h.idle, rfl, h.timer]
  | bindingDied =>
    cases hstep
    exact ⟨h.polling, h.idle, h.same, h.timer, h.retry⟩
  | poll p =>
    simp only [step, h.polling, if_true, Option.some.injEq] at hstep
    rw [← hstep]
    exact pollState_live h p
  | timer accepted => exact fire_live h hstep
  | connectTimeout =>
    simp only [step] at hstep
    split at hstep
    · cases hstep
      split
      · rw [setState_frame]
        exact ⟨h.polling, h.idle, h.same, h.timer, h.retry⟩
      · exact ⟨h.polling, h.idle, h.same, h.timer, h.retry⟩
    · cases hstep

/-- In every reachable state the bubble is bound or waits to try again. -/
theorem reachable_live (h : Reachable system s) : s.Live := by
  refine h.invariant ?_ ?_
  · rintro s ⟨accepted, rfl⟩
    exact ⟨rfl, rfl, rfl, rfl, fun _ => .inr rfl⟩
  · intro s e s' hs _ hstep
    exact step_live hs hstep

/-- Without a service either the timer is pending or the next poll posts it. -/
theorem Live.tended (h : s.Live) : s.Tended := by
  intro hun
  rcases h.retry hun with htimer | hattempts
  · exact .inr (.inl (Option.isSome_iff_ne_none.mp htimer))
  · refine .inr (.inr ⟨h.polling, fun p => ?_⟩)
    have hidle : (s.pendingProfile.isSome && p.prepared) = false := by simp [h.idle]
    have hlost : (!s.bound || !s.vpnService) = true := by
      rcases hun with hun | hun <;> simp [hun]
    simp only [pollState, hidle, Bool.false_eq_true, if_false, hlost, if_true, hattempts]
    exact (scheduleRebind_live h.polling h.idle h.same h.timer).2

end FloatingControl

/-! ## Both clients -/

/-- **Rebinding.** The app stays tended in all its runs exactly when its first bind was
accepted; the bubble does in all its runs. -/
theorem clients_tended_iff (first : Bool) :
    ((∀ s, Reachable (VpnViewModel.system first) s → s.cleared = false → s.Tended) ↔ first = true) ∧
      ∀ b, Reachable FloatingControl.system b → b.Tended := by
  refine ⟨⟨fun h => ?_, ?_⟩, fun b hb => (FloatingControl.reachable_live hb).tended⟩
  · cases first with
    | true => rfl
    | false =>
      rcases h _ (.start rfl) rfl (.inl rfl) with houtstanding | htimer
      · cases houtstanding
      · exact absurd rfl htimer
  · rintro rfl s hs hcleared
    exact (VpnViewModel.accepted_live hs hcleared).tended

/-- Right after a refused first bind nothing is under way. -/
theorem refused_strands : ∃ s, Reachable (VpnViewModel.system false) s ∧ s.cleared = false ∧ s.bound = false ∧
    s.outstanding = false ∧ s.rebindRunnable = none ∧ ¬ s.Tended := by
  refine ⟨VpnViewModel.create false, .start rfl, rfl, rfl, rfl, rfl, fun h => ?_⟩
  rcases h (.inl rfl) with houtstanding | htimer
  · cases houtstanding
  · exact htimer rfl

end KiloProxy.Ui
