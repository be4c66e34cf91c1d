import KiloProxy.Run.System
import KiloProxy.Store.Slot
import KiloProxy.Util.AccelCache

/-!
# The DNS cache of the accelerator

`resolveServerHost`, `warmAccelDns` and `clearAccelDns` on `accel_dns.json`, which holds
one resolution for whichever host was resolved last. The log of what the calls did is no
part of the program; the file is what the log leaves in a slot.
-/

namespace KiloProxy.Util
set_option autoImplicit false
open KiloProxy.Text KiloProxy.Run KiloProxy.Store

/-- What a call does. -/
inductive DnsEvent where
  | resolved (host : Str) (answer : Option Str)
  | wrote (host ip : Str) (time : Int)
  | served (host ip : Str) (now : Int)
  | cleared

def DnsEvent.effect : DnsEvent → Effect AccelDns
  | resolved _ _ => .keep
  | wrote host ip time => .put ⟨host, ip, time⟩
  | served _ _ _ => .keep
  | cleared => .delete

structure DnsCache where
  file : Option AccelDns
  log : List DnsEvent

/-- The calls. `answer` is what `resolveHost` gives if it is asked, and `readAt` and `writeAt`
are what the clock shows when the file is read and written. -/
inductive DnsCall where
  | resolveServerHost (server : Option Str) (accelerated : Bool) (answer : Option Str) (readAt writeAt : Int)
  | warmAccelDns (server : Option Str) (answer : Option Str) (readAt writeAt : Int)
  | clearAccelDns

namespace DnsCache

section Calls

variable (numeric : Str → Bool)

/-- `resolveHost` gave `answer` for `host`. -/
def resolveHost (s : DnsCache) (host : Str) (answer : Option Str) : DnsCache :=
  { s with log := s.log ++ [.resolved host answer] }

/-- `writeAccelDns` -/
def write (s : DnsCache) (now : Int) (host ip : Str) : DnsCache :=
  { file := some ⟨host, ip, now⟩, log := s.log ++ [.wrote host ip now] }

/-- An answer is written when `isNumericAddress` takes it. -/
def writeNumeric (s : DnsCache) (now : Int) (host : Str) (answer : Option Str) : DnsCache :=
  match answer with
  | none => s
  | some ip => if numeric ip then s.write now host ip else s

/-- The call with what it returns. -/
def resolveServerHost (s : DnsCache) (server : Option Str) (accelerated : Bool) (answer : Option Str)
    (readAt writeAt : Int) : Option Str × DnsCache :=
  match server with
  | none => (none, s)
  | some [] => (some [], s)
  | some (c :: cs) =>
    match if accelerated then readAccelDns numeric readAt s.file (c :: cs) else none with
    | some ip => (some ip, { s with log := s.log ++ [.served (c :: cs) ip readAt] })
    | none =>
      let s := s.resolveHost (c :: cs) answer
      (answer, if accelerated then s.writeNumeric numeric writeAt (c :: cs) answer else s)

def warmAccelDns (s : DnsCache) (server : Option Str) (answer : Option Str) (readAt writeAt : Int) : DnsCache :=
  match server with
  | none => s
  | some [] => s
  | some (c :: cs) =>
    match readAccelDns numeric readAt s.file (c :: cs) with
    | some ip => { s with log := s.log ++ [.served (c :: cs) ip readAt] }
    | none => (s.resolveHost (c :: cs) answer).writeNumeric numeric writeAt (c :: cs) answer

def clearAccelDns (s : DnsCache) : DnsCache := { file := none, log := s.log ++ [.cleared] }

def call (s : DnsCache) : DnsCall → DnsCache
  | .resolveServerHost server accelerated answer readAt writeAt =>
    (s.resolveServerHost numeric server accelerated answer readAt writeAt).2
  | .warmAccelDns server answer readAt writeAt => s.warmAccelDns numeric server answer readAt writeAt
  | .clearAccelDns => s.clearAccelDns

/-- Any calls, from no file on. -/
def system : System DnsCache DnsCall where
  init s := s = ⟨none, []⟩
  step s c := some (s.call numeric c)

end Calls

/-! ## What the calls keep -/

/-- The entry that is read: for the host, numeric, and of the right age. -/
structure Valid (numeric : Str → Bool) (o : AccelDns) (host ip : Str) (now : Int) : Prop where
  host : o.host = host
  served : o.ip = ip
  numeric : numeric ip = true
  notBefore : 0 ≤ long (now - o.time)
  notAfter : long (now - o.time) ≤ accelDnsTtlMs

/-- What is read from the file is fresh and of that host. -/
theorem readAccelDns_valid {numeric : Str → Bool} {now : Int} {file : Option AccelDns} {host ip : Str}
    (h : readAccelDns numeric now file host = some ip) : ∃ o, file = some o ∧ Valid numeric o host ip now := by
  unfold readAccelDns at h
  cases file with
  | none => cases h
  | some o =>
    simp only at h
    split_ifs at h with hhost hage hnumeric
    rw [not_or, Int.not_lt, Int.not_lt] at hage
    obtain rfl := Option.some.inj h
    exact ⟨o, rfl, Decidable.not_not.mp hhost, rfl, hnumeric, hage.1, hage.2⟩

/-- An event after what happened: what is written has just been resolved, what is served is in the
slot. -/
def Follows (numeric : Str → Bool) (before : List DnsEvent) : DnsEvent → Prop
  | .wrote host ip _ => ∃ earlier, before = earlier ++ [.resolved host (some ip)]
  | .served host ip now => ∃ o, content DnsEvent.effect before = some o ∧ Valid numeric o host ip now
  | _ => True

/-- The file holds what the log leaves, and every event follows from those before it. -/
structure Sound (numeric : Str → Bool) (s : DnsCache) : Prop where
  file : s.file = content DnsEvent.effect s.log
  log : Justified (Follows numeric) s.log

section Keep

variable {numeric : Str → Bool} {s : DnsCache}

/-- The log grows by an event, and the file follows its effect. -/
theorem Sound.event (h : Sound numeric s) {e : DnsEvent} (he : Follows numeric s.log e) :
    Sound numeric ⟨e.effect.apply s.file, s.log ++ [e]⟩ where
  file := by rw [h.file, content_concat]
  log := h.log.concat he

theorem Sound.served (h : Sound numeric s) {host ip : Str} {now : Int}
    (hread : readAccelDns numeric now s.file host = some ip) :
    Sound numeric { s with log := s.log ++ [.served host ip now] } := by
  obtain ⟨o, hfile, hvalid⟩ := readAccelDns_valid hread
  have hfollows : Follows numeric s.log (.served host ip now) := ⟨o, h.file.symm.trans hfile, hvalid⟩
  exact h.event hfollows

theorem Sound.resolveHost (h : Sound numeric s) (host : Str) (answer : Option Str) :
    Sound numeric (s.resolveHost host answer) := h.event (e := .resolved host answer) trivial

/-- A write right after its resolution. -/
theorem Sound.writeNumeric (h : Sound numeric s) (now : Int) (host : Str) (answer : Option Str) :
    Sound numeric ((s.resolveHost host answer).writeNumeric numeric now host answer) := by
  cases answer with
  | none => exact h.resolveHost host none
  | some ip =>
    simp only [DnsCache.writeNumeric]
    split
    · have hfollows : Follows numeric (s.resolveHost host (some ip)).log (.wrote host ip now) := ⟨s.log, rfl⟩
      exact (h.resolveHost host (some ip)).event hfollows
    · exact h.resolveHost host (some ip)

/-- A call keeps every entry justified by an earlier answer. -/
theorem Sound.call (h : Sound numeric s) (c : DnsCall) : Sound numeric (s.call numeric c) := by
  cases c with
  | resolveServerHost server accelerated answer readAt writeAt =>
    simp only [DnsCache.call, DnsCache.resolveServerHost]
    rcases server with _ | ⟨_ | ⟨c, cs⟩⟩
    · exact h
    · exact h
    · cases accelerated with
      | false => exact h.resolveHost _ answer
      | true =>
        cases hread : readAccelDns numeric readAt s.file (c :: cs) with
        | some ip => simpa only [if_true, hread] using h.served hread
        | none => simpa only [if_true, hread] using h.writeNumeric writeAt (c :: cs) answer
  | warmAccelDns server answer readAt writeAt =>
    simp only [DnsCache.call, DnsCache.warmAccelDns]
    rcases server with _ | ⟨_ | ⟨c, cs⟩⟩
    · exact h
    · exact h
    · cases hread : readAccelDns numeric readAt s.file (c :: cs) with
      | some ip => simpa only [hread] using h.served hread
      | none => simpa only [hread] using h.writeNumeric writeAt (c :: cs) answer
  | clearAccelDns => exact h.event (e := .cleared) trivial

end Keep

/-- In every reachable cache the entries are justified by earlier answers. -/
theorem reachable_sound {numeric : Str → Bool} {s : DnsCache} (h : Reachable (system numeric) s) :
    Sound numeric s := by
  refine h.invariant ?base fun s c s' hs _ hstep => ?keep
  case base =>
    rintro s rfl
    exact ⟨rfl, .nil _⟩
  case keep =>
    obtain rfl := Option.some.inj hstep
    exact hs.call c

/-! ## Where a served answer comes from -/

/-- The event put an entry into the slot. -/
theorem effect_put {e : DnsEvent} {o : AccelDns} (h : e.effect = .put o) : e = .wrote o.host o.ip o.time := by
  cases e with
  | wrote host ip time => cases h; rfl
  | resolved host answer => cases h
  | served host ip now => cases h
  | cleared => cases h

/-- `ip` was resolved for `host` and written with its time, which is between zero and the limit
before `now`; nothing was written or cleared since. -/
def Origin (numeric : Str → Bool) (before : List DnsEvent) (host ip : Str) (now : Int) : Prop :=
  ∃ earlier time since, before = earlier ++ .resolved host (some ip) :: .wrote host ip time :: since ∧
    numeric ip = true ∧ (0 ≤ long (now - time) ∧ long (now - time) ≤ accelDnsTtlMs) ∧
    (InLong (now - time) → 0 ≤ now - time ∧ now - time ≤ accelDnsTtlMs) ∧
    ∀ e ∈ since, e ≠ .cleared ∧ ∀ host ip time, e ≠ .wrote host ip time

/-- Whatever was served had been resolved before. -/
theorem Sound.origin {numeric : Str → Bool} {s : DnsCache} (h : Sound numeric s) {before after : List DnsEvent}
    {host ip : Str} {now : Int} (hlog : s.log = before ++ .served host ip now :: after) :
    Origin numeric before host ip now := by
  obtain ⟨o, hcontent, rfl, rfl, hnumeric, hlow, hhigh⟩ := h.log _ _ _ hlog
  obtain ⟨written, e, since, rfl, hput, hkeep⟩ := content_origin hcontent
  obtain rfl := effect_put hput
  have hfollows : Follows numeric written (.wrote o.host o.ip o.time) := by
    apply h.log written _ (since ++ .served o.host o.ip now :: after)
    rw [hlog, List.append_assoc, List.cons_append]
  obtain ⟨earlier, rfl⟩ := hfollows
  refine ⟨earlier, o.time, since, by simp only [List.append_assoc, List.cons_append, List.nil_append], hnumeric,
    ⟨hlow, hhigh⟩, fun hin => ?_, fun e he => ?_⟩
  · rw [long_eq hin] at hlow hhigh
    exact ⟨hlow, hhigh⟩
  · have hnone := hkeep e he
    constructor
    · rintro rfl
      cases hnone
    · rintro host ip time rfl
      cases hnone

/-- An answer that is returned is the resolver's, or the log says that it was served. -/
theorem resolveServerHost_answer (numeric : Str → Bool) (s : DnsCache) {host : Str} (hne : host ≠ [])
    (accelerated : Bool) (answer : Option Str) (readAt writeAt : Int) :
    (s.resolveServerHost numeric (some host) accelerated answer readAt writeAt).1 = answer ∨
    ∃ ip, (s.resolveServerHost numeric (some host) accelerated answer readAt writeAt).1 = some ip ∧
      (s.resolveServerHost numeric (some host) accelerated answer readAt writeAt).2.log =
        s.log ++ [.served host ip readAt] := by
  cases host with
  | nil => exact absurd rfl hne
  | cons c cs =>
    simp only [resolveServerHost]
    cases (if accelerated then readAccelDns numeric readAt s.file (c :: cs) else none) with
    | some ip => exact .inr ⟨ip, rfl, rfl⟩
    | none => exact .inl rfl

/-- A failed lookup leaves the file as it was. -/
theorem failed_lookup (numeric : Str → Bool) (s : DnsCache) (server : Option Str) (accelerated : Bool)
    (readAt writeAt : Int) :
    (s.resolveServerHost numeric server accelerated none readAt writeAt).2.file = s.file ∧
    (s.warmAccelDns numeric server none readAt writeAt).file = s.file := by
  rcases server with _ | ⟨_ | ⟨c, cs⟩⟩
  · exact ⟨rfl, rfl⟩
  · exact ⟨rfl, rfl⟩
  · constructor
    · simp only [resolveServerHost]
      cases (if accelerated then readAccelDns numeric readAt s.file (c :: cs) else none) with
      | some ip => rfl
      | none => cases accelerated <;> rfl
    · simp only [warmAccelDns]
      cases readAccelDns numeric readAt s.file (c :: cs) with
      | some ip => rfl
      | none => rfl

/-- **The DNS cache is sound**: over all calls, hosts, resolver answers and clock readings, what is
served from the file has its origin in the log, and a failed lookup leaves the file alone. -/
theorem cache_sound {numeric : Str → Bool} {s : DnsCache} (hreach : Reachable (system numeric) s) :
    (∀ before host ip now after, s.log = before ++ .served host ip now :: after →
      Origin numeric before host ip now) ∧
    (∀ host, host ≠ [] → ∀ accelerated answer readAt writeAt,
      let r := s.resolveServerHost numeric (some host) accelerated answer readAt writeAt
      r.1 = answer ∨ ∃ ip, r.1 = some ip ∧ r.2.log = s.log ++ [.served host ip readAt]) ∧
    ∀ server accelerated readAt writeAt,
      (s.resolveServerHost numeric server accelerated none readAt writeAt).2.file = s.file ∧
      (s.warmAccelDns numeric server none readAt writeAt).file = s.file := by
  refine ⟨fun before host ip now after hlog => (reachable_sound hreach).origin hlog, ?_, failed_lookup numeric s⟩
  exact fun host hne accelerated answer readAt writeAt =>
    resolveServerHost_answer numeric s hne accelerated answer readAt writeAt

/-- An address with a dot counts as numeric; the second call is served five seconds after the first. -/
theorem cache_sound_served : ∃ s, Reachable (system fun ip => '.' ∈ ip) s ∧
    s.log = [.resolved "proxy".toList (some "1.2.3.4".toList), .wrote "proxy".toList "1.2.3.4".toList 0,
      .served "proxy".toList "1.2.3.4".toList 5000] ∧
    Origin (fun ip => '.' ∈ ip) [.resolved "proxy".toList (some "1.2.3.4".toList),
      .wrote "proxy".toList "1.2.3.4".toList 0] "proxy".toList "1.2.3.4".toList 5000 := by
  have hreach : Reachable (system fun ip => '.' ∈ ip)
      ⟨some ⟨"proxy".toList, "1.2.3.4".toList, 0⟩, [.resolved "proxy".toList (some "1.2.3.4".toList),
        .wrote "proxy".toList "1.2.3.4".toList 0, .served "proxy".toList "1.2.3.4".toList 5000]⟩ :=
    exec_reaches [.warmAccelDns (some "proxy".toList) (some "1.2.3.4".toList) 0 0,
      .resolveServerHost (some "proxy".toList) true none 5000 5000] (.start rfl) (by rfl)
  exact ⟨_, hreach, rfl, (cache_sound hreach).1 [.resolved "proxy".toList (some "1.2.3.4".toList),
    .wrote "proxy".toList "1.2.3.4".toList 0] _ _ _ [] rfl⟩

end DnsCache
end KiloProxy.Util
