import KiloProxy.Ui.FloatingControl

/-!
# The app and the bubble on the same snapshots

Both clients read the bundle of `getState`. The app's flows follow the last bundle; the
bubble keeps its state on a bundle that says running and not connected, unless it was
disconnected. So they part exactly when the proxy was verified and the bundles since then
say that it no longer is.
-/

namespace KiloProxy.Ui
set_option autoImplicit false
open KiloProxy.Vpn

/-- The bubble shows what the app's flows say. -/
structure Agree (vm : VpnViewModel) (bubble : FloatingControl) : Prop where
  connected : bubble.state = .connected ↔ vm.isConnected = true
  connecting : bubble.state = .connecting ↔ vm.isConnecting = true
  disconnected : bubble.state = .disconnected ↔ vm.isConnected = false ∧ vm.isConnecting = false

/-- The app after polling the service in these states, one after the other. -/
def VpnViewModel.polls (vm : VpnViewModel) (seen : List Svc) : VpnViewModel :=
  seen.foldl (fun vm s => vm.poll (.bundle s.getState)) vm

/-- The bubble after polling the service in these states. -/
def FloatingControl.polls (bubble : FloatingControl) (seen : List Svc) : FloatingControl :=
  seen.foldl (fun b s => b.pollState ⟨true, true, .bundle s.getState⟩) bubble

/-- The bundle says connected. -/
def Verified (s : Svc) : Prop := s.getState.connected = true

/-- The bundle says running and not connected. -/
def Unverified (s : Svc) : Prop := s.getState.running = true ∧ s.getState.connected = false

/-- The last bundle that is not of an unverified proxy is of a verified one. -/
def HeldVerified (seen : List Svc) : Prop :=
  ∃ before s after, seen = before ++ s :: after ∧ Verified s ∧ ∀ t ∈ after, Unverified t

/-- The proxy was verified and then lost its verification without a stop in between. -/
def LostVerification (seen : List Svc) : Prop :=
  ∃ before s after, seen = before ++ s :: after ∧ Verified s ∧ after ≠ [] ∧ ∀ t ∈ after, Unverified t

/-- A verification is held when it is new, or was held before an unverified snapshot. -/
theorem heldVerified_concat {seen : List Svc} {s : Svc} :
    HeldVerified (seen ++ [s]) ↔ Verified s ∨ (Unverified s ∧ HeldVerified seen) := by
  constructor
  · rintro ⟨before, t, after, hseen, ht, hafter⟩
    cases after using List.reverseRecOn with
    | nil =>
      obtain ⟨_, rfl⟩ := List.append_inj' hseen rfl |>.imp id List.singleton_inj.mp
      exact .inl ht
    | append_singleton after u =>
      have hsplit : seen ++ [s] = (before ++ t :: after) ++ [u] := by rw [hseen]; simp
      obtain ⟨rfl, hu⟩ := List.append_inj' hsplit rfl
      obtain rfl := List.singleton_inj.mp hu
      exact .inr ⟨hafter s (by simp), before, t, after, rfl, ht, fun v hv => hafter v (by simp [hv])⟩
  · rintro (hs | ⟨hs, before, t, after, rfl, ht, hafter⟩)
    · exact ⟨seen, s, [], rfl, hs, by simp⟩
    · refine ⟨before, t, after ++ [s], by simp, ht, fun v hv => ?_⟩
      rcases List.mem_append.mp hv with hv | hv
      · exact hafter v hv
      · rw [List.mem_singleton.mp hv]
        exact hs

/-- A verification is lost by an unverified snapshot behind a held one. -/
theorem lostVerification_concat {seen : List Svc} {s : Svc} :
    LostVerification (seen ++ [s]) ↔ Unverified s ∧ HeldVerified seen := by
  constructor
  · rintro ⟨before, t, after, hseen, ht, hne, hafter⟩
    obtain ⟨after, u, rfl⟩ := List.eq_nil_or_concat'  after |>.resolve_left hne
    have hsplit : seen ++ [s] = (before ++ t :: after) ++ [u] := by rw [hseen]; simp
    obtain ⟨rfl, hu⟩ := List.append_inj' hsplit rfl
    obtain rfl := List.singleton_inj.mp hu
    exact ⟨hafter s (by simp), before, t, after, rfl, ht, fun v hv => hafter v (by simp [hv])⟩
  · rintro ⟨hs, before, t, after, rfl, ht, hafter⟩
    refine ⟨before, t, after ++ [s], by simp, ht, by simp, fun v hv => ?_⟩
    rcases List.mem_append.mp hv with hv | hv
    · exact hafter v hv
    · rw [List.mem_singleton.mp hv]
      exact hs

/-- A service that is not running is not connected. -/
theorem connected_running {s : Svc} (h : s.getState.connected = true) : s.getState.running = true := by
  simp only [Svc.getState, Bool.and_eq_true] at h
  exact h.1.1

/-! ## The app -/

/-- A client that is bound and has no start request. -/
structure Idle (vm : VpnViewModel) : Prop where
  bound : vm.bound = true
  service : vm.vpnService = true
  quiet : vm.connectRequested = false

theorem poll_flows {vm : VpnViewModel} (h : Idle vm) (s : Svc) :
    vm.poll (.bundle s.getState) = { vm with toFlows := vm.toFlows.sync s.getState } := by
  simp only [VpnViewModel.poll, h.bound, h.service, Bool.and_self, if_true, VpnViewModel.syncState, Flows.syncState]

theorem poll_idle {vm : VpnViewModel} (h : Idle vm) (s : Svc) : Idle (vm.poll (.bundle s.getState)) := by
  rw [poll_flows h]
  refine ⟨h.bound, h.service, ?_⟩
  simp only [Flows.sync]
  split
  · simp [h.quiet]
  · simp [Flows.blank, h.quiet]

theorem polls_idle {vm : VpnViewModel} (h : Idle vm) (seen : List Svc) : Idle (vm.polls seen) := by
  induction seen generalizing vm with
  | nil => exact h
  | cons s seen ih => exact ih (poll_idle h s)

/-- The app follows the last bundle. -/
theorem app_follows {vm : VpnViewModel} (h : Idle vm) (seen : List Svc) (s : Svc) :
    (vm.polls (seen ++ [s])).isConnected = s.getState.connected ∧
      (vm.polls (seen ++ [s])).isConnecting = (s.getState.running && !s.getState.connected) := by
  have hidle := polls_idle h seen
  have hlast : vm.polls (seen ++ [s]) = (vm.polls seen).poll (.bundle s.getState) := by
    rw [VpnViewModel.polls, List.foldl_concat]
    rfl
  rw [hlast, poll_flows hidle]
  cases hrun : s.getState.running with
  | true => simp [Flows.sync, Flows.isConnecting, hrun]
  | false =>
    have hconn : s.getState.connected = false := by
      by_contra hc
      rw [connected_running (by simpa using hc)] at hrun
      cases hrun
    simp [Flows.sync, Flows.isConnecting, Flows.blank, hrun, hconn, hidle.quiet]

/-! ## The bubble -/

/-- A bubble that is bound and waits for no permission. -/
structure Watching (bubble : FloatingControl) : Prop where
  bound : bubble.bound = true
  service : bubble.vpnService = true
  idle : bubble.pendingProfile = none

theorem setState_to (bubble : FloatingControl) (newState : BubbleState) :
    (bubble.setState newState).state = newState := by
  unfold FloatingControl.setState
  split
  · assumption
  · rfl

theorem setState_watching {bubble : FloatingControl} (h : Watching bubble) (newState : BubbleState) :
    Watching (bubble.setState newState) := by
  unfold FloatingControl.setState
  split
  · exact h
  · exact ⟨h.bound, h.service, h.idle⟩

section Bubble

variable {bubble : FloatingControl} (h : Watching bubble)
include h

theorem pollState_follow (p : Poll) {s : Svc} (hp : p.reply = .bundle s.getState) :
    bubble.pollState p = bubble.follow s.getState := by
  simp [FloatingControl.pollState, h.bound, h.service, h.idle, hp]

theorem follow_watching (s : Svc) : Watching (bubble.follow s.getState) := by
  unfold FloatingControl.follow
  split_ifs
  · exact setState_watching h _
  · exact setState_watching h _
  · exact h
  · exact setState_watching h _

/-- The bubble keeps watching over any snapshots. -/
theorem polls_watching (seen : List Svc) : Watching (bubble.polls seen) := by
  induction seen generalizing bubble with
  | nil => exact h
  | cons s seen ih =>
    have hnext := follow_watching h s
    rw [← pollState_follow h ⟨true, true, .bundle s.getState⟩ rfl] at hnext
    exact ih hnext

theorem polls_concat (seen : List Svc) (s : Svc) :
    bubble.polls (seen ++ [s]) = (bubble.polls seen).follow s.getState := by
  rw [FloatingControl.polls, List.foldl_concat]
  exact pollState_follow (polls_watching h seen) _ rfl

/-- The bubble shows connected as long as no bundle moved it away. -/
theorem bubble_connected_iff (hstart : bubble.state = .disconnected) (seen : List Svc) :
    (bubble.polls seen).state = .connected ↔ HeldVerified seen := by
  induction seen using List.reverseRecOn with
  | nil =>
    refine iff_of_false (fun hc => ?_) ?_
    · have hsame : bubble.state = .connected := hc
      rw [hstart] at hsame
      cases hsame
    · rintro ⟨before, s, after, hnil, _⟩
      simp at hnil
  | append_singleton seen s ih =>
    rw [polls_concat h, heldVerified_concat, ← ih]
    unfold FloatingControl.follow Verified Unverified
    split_ifs with hconn hrun hdis
    · simp [setState_to, hconn]
    · simp [setState_to, hconn, hdis]
    · simp [hconn, hrun]
    · simp [setState_to, hconn, hrun]

end Bubble

/-! ## Both -/

section Both

variable (vm : VpnViewModel) (bubble : FloatingControl) (hvm : Idle vm) (hbubble : Watching bubble)
  (hstart : bubble.state = .disconnected)
include hvm hbubble hstart

/-- **Agreement.** After both clients have processed the latest snapshot, whatever each of
them polled before, they agree exactly when the bubble has not seen a verified proxy lose
its verification. -/
theorem clients_agree_iff (appSeen bubbleSeen : List Svc) (latest : Svc) :
    Agree (vm.polls (appSeen ++ [latest])) (bubble.polls (bubbleSeen ++ [latest])) ↔
      ¬ LostVerification (bubbleSeen ++ [latest]) := by
  obtain ⟨hconnected, hconnecting⟩ := app_follows hvm appSeen latest
  have hheld := bubble_connected_iff hbubble hstart bubbleSeen
  have hstate : (bubble.polls (bubbleSeen ++ [latest])).state =
      ((bubble.polls bubbleSeen).follow latest.getState).state := by rw [polls_concat hbubble]
  rw [lostVerification_concat, ← hheld]
  unfold FloatingControl.follow at hstate
  unfold Unverified
  cases hconn : latest.getState.connected with
  | true =>
    rw [hconn, if_pos rfl, setState_to] at hstate
    refine iff_of_true ⟨?_, ?_, ?_⟩ (by simp)
    · simp [hstate, hconnected, hconn]
    · simp [hstate, hconnecting, hconn]
    · simp [hstate, hconnected, hconn]
  | false =>
    cases hrun : latest.getState.running with
    | false =>
      simp only [hconn, hrun, Bool.false_eq_true, if_false, setState_to] at hstate
      refine iff_of_true ⟨?_, ?_, ?_⟩ (by simp)
      · simp [hstate, hconnected, hconn]
      · simp [hstate, hconnecting, hrun]
      · simp [hstate, hconnected, hconnecting, hconn, hrun]
    | true =>
      -- the bubble keeps what it showed, unless that was disconnected
      simp only [hconn, hrun, Bool.false_eq_true, if_false, if_true] at hstate
      cases hbefore : (bubble.polls bubbleSeen).state with
      | connected =>
        simp only [hbefore, reduceCtorEq, if_false] at hstate
        refine iff_of_false (fun hagree => ?_) (by simp)
        have happ := hagree.connected.mp hstate
        rw [hconnected, hconn] at happ
        cases happ
      | connecting =>
        simp only [hbefore, reduceCtorEq, if_false] at hstate
        refine iff_of_true ⟨?_, ?_, ?_⟩ (by simp)
        · simp [hstate, hconnected, hconn]
        · simp [hstate, hconnecting, hconn, hrun]
        · simp [hstate, hconnecting, hconn, hrun]
      | disconnected =>
        simp only [hbefore, if_true, setState_to] at hstate
        refine iff_of_true ⟨?_, ?_, ?_⟩ (by simp)
        · simp [hstate, hconnected, hconn]
        · simp [hstate, hconnecting, hconn, hrun]
        · simp [hstate, hconnecting, hconn, hrun]

end Both

/-! ## Two clients on one service -/

/-- Both clients with their first bind through. -/
def boundApp : VpnViewModel := { VpnViewModel.create true with toBinding := (VpnViewModel.create true).onServiceConnected }
def boundBubble : FloatingControl := (FloatingControl.create true).onServiceConnected

/-- A service with a tunnel that is up, verified or not. -/
def tunnelled (verified : Bool) : Svc :=
  { Svc.created phone none with mRunning := true, mTunnelUp := true, mProxyVerified := verified }

/-- A proxy that gets verified. -/
theorem clients_agree_verified :
    Agree (boundApp.polls [tunnelled false, tunnelled true]) (boundBubble.polls [tunnelled false, tunnelled true]) ↔
      ¬ LostVerification [tunnelled false, tunnelled true] :=
  clients_agree_iff boundApp boundBubble ⟨rfl, rfl, rfl⟩ ⟨rfl, rfl, rfl⟩ rfl [tunnelled false] [tunnelled false]
    (tunnelled true)

/-- After a handshake failed the bubble still shows connected and the app connecting. -/
theorem bubble_stays_connected :
    (boundBubble.polls [tunnelled true, tunnelled false]).state = .connected ∧
      (boundApp.polls [tunnelled true, tunnelled false]).isConnected = false ∧
      (boundApp.polls [tunnelled true, tunnelled false]).isConnecting = true ∧
      ¬ Agree (boundApp.polls [tunnelled true, tunnelled false]) (boundBubble.polls [tunnelled true, tunnelled false]) := by
  refine ⟨by decide, by decide, by decide, fun h => ?_⟩
  have happ := h.connected.mp (by decide)
  revert happ
  decide

end KiloProxy.Ui
