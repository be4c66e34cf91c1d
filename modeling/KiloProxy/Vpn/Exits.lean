import KiloProxy.Vpn.Frames

/-!
# The exits of an ip check

The completion of an ip check leaves through one of eight exits, by its answer, the tunnel
and the probe options. `Svc.probeDone_exit` is that case analysis, made once; what an exit
does to the callbacks, the failures or the notification is read off it.
-/

namespace KiloProxy.Vpn
set_option autoImplicit false
open KiloProxy.Text KiloProxy.Util KiloProxy.Service KiloProxy.Run

namespace Svc

/-- The completion has cleared the in-flight flag. -/
def cleared (s : Svc) : Svc := { s with mProbeInFlight := false }

/-- The handshake went through. -/
def verified (s : Svc) (p : Probe) : Svc := { s.land .verified p with mProxyVerified := true, mIpCheckFailures := 0 }

end Svc

/-- The exit that the completion of `p` takes from `s`. -/
inductive Exit (s : Svc) (p : Probe) : Answer → Svc → Prop where
  | buffered {i : IpInfo} : s.mTunnelUp = false →
      Exit s p (.info i) { s.cleared.land .buffered p with mPendingIpInfo := some (i, p) }
  | applied {i : IpInfo} : s.mTunnelUp = true →
      Exit s p (.info i) ((s.cleared.applyIpInfo i p).postIpCheck s.healthyInterval)
  | early {probe : ProxyProbe} : s.mTunnelUp = false → Exit s p (.handshake probe) (s.cleared.postIpCheck ipInfoRetry)
  | verified : s.mTunnelUp = true → Exit s p (.handshake .ok)
      (((s.cleared.verified p).updateNotification.notifyStateChanged none).postIpCheck ipInfoRetry)
  | counted {probe : ProxyProbe} : s.mTunnelUp = true → probe ≠ .ok → s.countsFailures = true →
      s.mIpCheckFailures + 1 < maxIpCheckFailures →
      Exit s p (.handshake probe) ((s.cleared.countFailure p).postIpCheck ipCheckRetry)
  | last {probe : ProxyProbe} : s.mTunnelUp = true → probe ≠ .ok → s.countsFailures = true →
      maxIpCheckFailures ≤ s.mIpCheckFailures + 1 →
      Exit s p (.handshake probe)
        ({ s.cleared.countFailure p with mError := some (Svc.probeError probe) }.stopMe .proxyConnectFailed none)
  | uncounted {probe : ProxyProbe} : s.mTunnelUp = true → probe ≠ .ok → s.countsFailures = false →
      Exit s p (.handshake probe) ({ s.cleared with accelDns := none }.postIpCheck ipCheckRetry)
  | exception : Exit s p .exception (s.cleared.postIpCheck (if !s.mTunnelUp then ipInfoRetry else ipCheckRetry))

namespace Svc

/-- What a handshake of a check comes to, outcome by outcome. -/
theorem handshake_exit (s : Svc) (p : Probe) (probe : ProxyProbe) :
    Exit s p (.handshake probe) (s.probeDone p (.handshake probe)) := by
  by_cases hup : s.mTunnelUp = true
  · by_cases hok : probe = .ok
    · have he : s.probeDone p (.handshake probe) =
          ((s.cleared.verified p).updateNotification.notifyStateChanged none).postIpCheck ipInfoRetry :=
        (if_neg (by rw [hup]; exact Bool.false_ne_true)).trans (if_pos hok)
      rw [he, hok]
      exact .verified hup
    · have hdone : s.probeDone p (.handshake probe) = if s.countsFailures then _ else _ :=
        (if_neg (by rw [hup]; exact Bool.false_ne_true)).trans (if_neg hok)
      by_cases hcounts : s.countsFailures = true
      · rw [if_pos hcounts] at hdone
        by_cases hlast : maxIpCheckFailures ≤ s.mIpCheckFailures + 1
        · rw [hdone.trans (if_pos hlast)]
          exact .last hup hok hcounts hlast
        · rw [hdone.trans (if_neg hlast)]
          exact .counted hup hok hcounts (Nat.not_le.mp hlast)
      · rw [hdone, if_neg hcounts]
        exact .uncounted hup hok (Bool.not_eq_true _ ▸ hcounts)
  · have hdown : s.mTunnelUp = false := Bool.not_eq_true _ ▸ hup
    have he : s.probeDone p (.handshake probe) = s.cleared.postIpCheck ipInfoRetry := if_pos (by rw [hdown]; rfl)
    rw [he]
    exact .early hdown

/-- What any answer to a check comes to. -/
theorem probeDone_exit (s : Svc) (p : Probe) (answer : Answer) : Exit s p answer (s.probeDone p answer) := by
  cases answer with
  | info i =>
    cases hup : s.mTunnelUp with
    | false =>
      have he : s.probeDone p (.info i) = { s.cleared.land .buffered p with mPendingIpInfo := some (i, p) } :=
        if_pos (by rw [hup]; rfl)
      rw [he]
      exact .buffered hup
    | true =>
      have he : s.probeDone p (.info i) = (s.cleared.applyIpInfo i p).postIpCheck s.healthyInterval :=
        if_neg (by rw [hup]; exact Bool.false_ne_true)
      rw [he]
      exact .applied hup
  | handshake probe => exact handshake_exit s p probe
  | exception => exact .exception

end Svc

end KiloProxy.Vpn
