import KiloProxy.Engine.FairQueue
import Mathlib.Algebra.BigOperators.Group.List.Basic
import Mathlib.Algebra.GroupWithZero.Nat
import Mathlib.Algebra.Order.Group.Int

/-!
# Runs of the fair queue

The flow that sends has no later time than any that waits. Hence the time never wraps, though
the arithmetic does in between, and of two flows that both have packets neither is served
more than one packet ahead of the other, over the head start that it had.

`Core` is what every call keeps, `Sound` adds that the output is not idle while a flow waits.
A step is seen as a shift of all times and a charge to one flow (`Charged`); fairness follows
by adding up what the steps of a stretch charge.
-/

namespace KiloProxy.Engine.PacketPassFairQueue
set_option autoImplicit false
open KiloProxy.Run

variable {m m' : PacketPassFairQueue} {fs : List FairQueueFlow} {f g : FairQueueFlow} {id k : Nat} {data : List UInt8}
  {packetWeight mtu : Nat}

/-! ## The tree -/

/-- Without a first flow nothing is queued. -/
theorem getFirst_none (h : getFirst fs = none) : ∀ f ∈ fs, f.queued = none := by
  induction fs with
  | nil => exact fun f hf => absurd hf List.not_mem_nil
  | cons f fs ih =>
    unfold getFirst at h
    split at h
    · rename_i hidle
      intro g hg
      rcases List.mem_cons.mp hg with rfl | hg
      · exact hidle
      · exact ih h g hg
    · split at h
      · cases h
      · split at h <;> cases h

/-- A queued flow makes for a first one. -/
theorem getFirst_isSome (hf : f ∈ fs) (hq : f.queued ≠ none) : (getFirst fs).isSome := by
  cases h : getFirst fs with
  | none => exact absurd (getFirst_none h f hf) hq
  | some g => rfl

/-- The first of the tree waits, and no other that waits has an earlier time. -/
theorem getFirst_some (h : getFirst fs = some g) :
    g ∈ fs ∧ g.queued ≠ none ∧ ∀ f ∈ fs, f.queued ≠ none → g.time ≤ f.time := by
  induction fs generalizing g with
  | nil => cases h
  | cons f fs ih =>
    unfold getFirst at h
    split at h
    · rename_i hidle
      obtain ⟨hmem, hq, hleast⟩ := ih h
      refine ⟨List.mem_cons_of_mem f hmem, hq, fun x hx hwait => ?_⟩
      rcases List.mem_cons.mp hx with rfl | hx
      · exact absurd hidle hwait
      · exact hleast x hx hwait
    · rename_i hwait
      split at h
      · rename_i hnone
        obtain rfl := Option.some.inj h
        refine ⟨List.mem_cons_self, hwait, fun x hx hxq => ?_⟩
        rcases List.mem_cons.mp hx with rfl | hx
        · exact Nat.le_refl _
        · exact absurd (getFirst_none hnone x hx) hxq
      · rename_i b hb
        obtain ⟨hmem, hq, hleast⟩ := ih hb
        split at h
        · rename_i hbefore
          obtain rfl := Option.some.inj h
          have hle : b.time ≤ f.time := by
            unfold before at hbefore
            rcases of_decide_eq_true hbefore with hlt | ⟨heq, _⟩
            · exact Nat.le_of_lt hlt
            · exact Nat.le_of_eq heq
          refine ⟨List.mem_cons_of_mem f hmem, hq, fun x hx hxq => ?_⟩
          rcases List.mem_cons.mp hx with rfl | hx
          · exact hle
          · exact hleast x hx hxq
        · rename_i hbefore
          obtain rfl := Option.some.inj h
          have hle : f.time ≤ b.time := by
            unfold before at hbefore
            have hnot := of_decide_eq_false (Bool.eq_false_iff.mpr hbefore)
            omega
          refine ⟨List.mem_cons_self, hwait, fun x hx hxq => ?_⟩
          rcases List.mem_cons.mp hx with rfl | hx
          · exact Nat.le_refl _
          · exact Nat.le_trans hle (hleast x hx hxq)

/-! ## Flows by their address -/

/-- A change that leaves addresses alone is seen at each address. -/
theorem find_map {change : FairQueueFlow → FairQueueFlow} (hid : ∀ f, (change f).id = f.id) (fs : List FairQueueFlow) (k : Nat) :
    (fs.map change).find? (fun f => f.id = k) = (fs.find? fun f => f.id = k).map change := by
  rw [List.find?_map]
  congr 2
  funext f
  show decide ((change f).id = k) = _
  rw [hid]

/-- Ids tell the flows apart. -/
theorem flow_eq_some (hids : (m.flows.map FairQueueFlow.id).Nodup) : m.flow id = some f ↔ f ∈ m.flows ∧ f.id = id := by
  constructor
  · intro h
    exact ⟨List.mem_of_find?_eq_some h, by simpa using List.find?_some h⟩
  · rintro ⟨hmem, rfl⟩
    cases h : m.flow f.id with
    | none => exact absurd (List.find?_eq_none.mp h f hmem) (by simp)
    | some g =>
      have hg : g.id = f.id := by simpa using List.find?_some h
      rw [List.inj_on_of_nodup_map hids (List.mem_of_find?_eq_some h) hmem hg]

/-- A change of one flow leaves the others. -/
theorem flow_setFlow (m : PacketPassFairQueue) (id k : Nat) (change : FairQueueFlow → FairQueueFlow)
    (hid : ∀ f, (change f).id = f.id) :
    (m.setFlow id change).flow k = if k = id then (m.flow k).map change else m.flow k := by
  show (m.flows.map fun f => if f.id = id then change f else f).find? (fun f => f.id = k) = _
  rw [find_map (fun f => by split <;> simp [hid])]
  split
  · rename_i hk
    subst hk
    show (m.flow k).map _ = _
    cases h : m.flow k with
    | none => rfl
    | some f =>
      have hf : f.id = k := by simpa using List.find?_some h
      simp [hf]
  · rename_i hk
    show (m.flow k).map _ = _
    cases h : m.flow k with
    | none => rfl
    | some f =>
      have hf : f.id = k := by simpa using List.find?_some h
      have hne : f.id ≠ id := hf.trans_ne hk
      simp [hne]

/-- A change of one flow keeps the ids. -/
theorem ids_setFlow (m : PacketPassFairQueue) (id : Nat) (change : FairQueueFlow → FairQueueFlow)
    (hid : ∀ f, (change f).id = f.id) :
    (m.setFlow id change).flows.map FairQueueFlow.id = m.flows.map FairQueueFlow.id := by
  show (m.flows.map _).map _ = _
  rw [List.map_map]
  refine List.map_congr_left fun f _ => ?_
  show (if f.id = id then change f else f).id = f.id
  split
  · exact hid f
  · rfl

/-! ## The invariant -/

/-- The packets of a flow, in order. -/
def packetsOf (id : Nat) (ps : List (Nat × List UInt8)) : List (List UInt8) := (ps.filter fun p => p.1 = id).map Prod.snd

theorem packetsOf_concat (id : Nat) (ps : List (Nat × List UInt8)) (p : Nat × List UInt8) :
    packetsOf id (ps ++ [p]) = packetsOf id ps ++ if p.1 = id then [p.2] else [] := by
  unfold packetsOf
  rw [List.filter_append, List.map_append]
  split
  · rename_i h
    rw [List.filter_cons_of_pos (by simpa using h)]
    rfl
  · rename_i h
    rw [List.filter_cons_of_neg (by simpa using h)]
    rfl

/-- The packet of a flow that waits. -/
def waitingOf (f : Option FairQueueFlow) : List (List UInt8) := (f.bind FairQueueFlow.queued).toList

/-- What holds at any time: the flow that sends has no later time than any that waits, the job is set while a flow
was just served, and each flow's packets went to the output but for the one that waits. -/
structure Core (packetWeight mtu : Nat) (m : PacketPassFairQueue) : Prop where
  ids : (m.flows.map FairQueueFlow.id).Nodup
  weight : m.packetWeight = packetWeight
  mtu_eq : m.mtu = mtu
  fits : packetWeight + mtu ≤ fairqueueMaxTime
  time_le : ∀ k f, m.flow k = some f → f.time ≤ fairqueueMaxTime
  len_le : ∀ k f, m.flow k = some f → ∀ d ∈ f.queued, d.length ≤ mtu
  sending : ∀ s, m.sendingFlow = some s → m.scheduleJob = false ∧ m.sendingLen ≤ mtu ∧
    ∃ f, m.flow s = some f ∧ f.queued = none ∧ ∀ k g, m.flow k = some g → g.queued ≠ none → f.time ≤ g.time
  previous : ∀ p, m.previousFlow = some p → m.scheduleJob = true ∧ ∃ f, m.flow p = some f ∧ f.queued = none
  passed : ∀ k, packetsOf k m.submitted = packetsOf k m.output ++ waitingOf (m.flow k)

/-- Between calls the output is only left idle when no flow waits. -/
structure Sound (packetWeight mtu : Nat) (m : PacketPassFairQueue) : Prop extends Core packetWeight mtu m where
  busy : m.sendingFlow = none → m.scheduleJob = false → ∀ k f, m.flow k = some f → f.queued = none

/-- The first flow is a queued one with the least time. -/
theorem Core.getFirst_some (h : Core packetWeight mtu m) (hg : getFirst m.flows = some g) :
    m.flow g.id = some g ∧ g.queued ≠ none ∧ ∀ k f, m.flow k = some f → f.queued ≠ none → g.time ≤ f.time := by
  obtain ⟨hmem, hq, hleast⟩ := PacketPassFairQueue.getFirst_some hg
  exact ⟨(flow_eq_some h.ids).mpr ⟨hmem, rfl⟩, hq, fun k f hf => hleast f ((flow_eq_some h.ids).mp hf).1⟩

theorem Core.getFirst_none (h : Core packetWeight mtu m) (hg : getFirst m.flows = none) (hf : m.flow k = some f) :
    f.queued = none := PacketPassFairQueue.getFirst_none hg f ((flow_eq_some h.ids).mp hf).1

theorem Core.ids_setFlow (h : Core packetWeight mtu m) (id : Nat) (change : FairQueueFlow → FairQueueFlow)
    (hid : ∀ f, (change f).id = f.id) : ((m.setFlow id change).flows.map FairQueueFlow.id).Nodup := by
  rw [PacketPassFairQueue.ids_setFlow m id change hid]
  exact h.ids

/-! ## Times and charges -/

def timeOf (m : PacketPassFairQueue) (id : Nat) : Nat := ((m.flow id).map FairQueueFlow.time).getD 0

theorem timeOf_eq (h : m.flow id = some f) : timeOf m id = f.time := by
  unfold timeOf
  rw [h]
  rfl

/-- What a flow was charged for so far. -/
def service (m : PacketPassFairQueue) (id : Nat) : Nat := ((m.served.filter fun p => p.1 = id).map Prod.snd).sum

/-- A flow has a packet: it waits, is being sent, or was just sent and the next flow is not chosen yet. -/
def Backlogged (m : PacketPassFairQueue) (id : Nat) : Prop :=
  (∃ f ∈ m.flow id, f.queued ≠ none) ∨ m.sendingFlow = some id ∨ m.previousFlow = some id

/-- A backlogged flow is in the queue. -/
theorem Core.exists_flow (h : Core packetWeight mtu m) (hk : Backlogged m k) : ∃ f, m.flow k = some f := by
  rcases hk with ⟨f, hf, _⟩ | hs | hp
  · exact ⟨f, hf⟩
  · obtain ⟨_, _, f, hf, _⟩ := h.sending k hs
    exact ⟨f, hf⟩
  · obtain ⟨_, f, hf, _⟩ := h.previous k hp
    exact ⟨f, hf⟩

/-- What a step does to the times of the flows that have packets: all are shifted by the same, and a flow that is
charged had no later time than any of them. -/
structure Charged (packetWeight mtu : Nat) (m m' : PacketPassFairQueue) (shift : Nat) (charge : Nat → Nat) : Prop where
  time : ∀ k, Backlogged m k → Backlogged m' k → timeOf m' k + shift = timeOf m k + charge k
  served : ∀ k, service m' k = service m k + charge k
  first : ∀ k, 0 < charge k → charge k ≤ packetWeight + mtu ∧ ∀ j, Backlogged m j → timeOf m k ≤ timeOf m j

/-- A step that charges no flow and leaves the times of those with packets. -/
theorem Charged.free (htime : ∀ k, Backlogged m k → Backlogged m' k → timeOf m' k = timeOf m k)
    (hserved : m'.served = m.served) : Charged packetWeight mtu m m' 0 fun _ => 0 :=
  ⟨htime, fun k => by unfold service; rw [hserved]; rfl, fun _ h => absurd h (Nat.lt_irrefl 0)⟩

/-! ## The calls -/

/-- The flow is chosen and its packet goes to the output. -/
def scheduled (m : PacketPassFairQueue) (q : FairQueueFlow) (data : List UInt8) : PacketPassFairQueue :=
  { m.setFlow q.id fun f => { f with queued := none } with
    sendingFlow := some q.id, sendingLen := data.length, output := m.output ++ [(q.id, data)] }

/-- Scheduling serves the first flow: its packet goes to the output, no time moves and nobody is charged. The
flow that sends was the least queued one, which is the invariant its charge will rest on. -/
theorem Core.schedule (h : Core packetWeight mtu m) (hs : m.sendingFlow = none) (hp : m.previousFlow = none)
    (hj : m.scheduleJob = false) (hf : m.flow k = some f) (hq : f.queued ≠ none) :
    ∃ m', m.schedule = some m' ∧ Sound packetWeight mtu m' ∧ (∀ k, timeOf m' k = timeOf m k) ∧ m'.served = m.served := by
  obtain ⟨q, hfirst⟩ := Option.isSome_iff_exists.mp (getFirst_isSome ((flow_eq_some h.ids).mp hf).1 hq)
  obtain ⟨hqflow, hqq, hleast⟩ := h.getFirst_some hfirst
  obtain ⟨data, hdata⟩ := Option.ne_none_iff_exists'.mp hqq
  have hflow : ∀ k, (m.scheduled q data).flow k = if k = q.id then (m.flow k).map fun f => { f with queued := none } else m.flow k :=
    fun k => flow_setFlow m q.id k _ fun _ => rfl
  -- what is there afterwards was there before, and waits only if it did
  have hback : ∀ k f', (m.scheduled q data).flow k = some f' → ∃ f, m.flow k = some f ∧ f'.time = f.time ∧
      (f'.queued ≠ none → f'.queued = f.queued) := by
    intro k f' hf'
    rw [hflow] at hf'
    split at hf'
    · obtain ⟨f, hf, rfl⟩ := Option.map_eq_some_iff.mp hf'
      exact ⟨f, hf, rfl, fun hn => absurd rfl hn⟩
    · exact ⟨f', hf', rfl, fun _ => rfl⟩
  refine ⟨m.scheduled q data, ?_, ⟨⟨?_, h.weight, h.mtu_eq, h.fits, ?_, ?_, ?_, ?_, ?_⟩, ?_⟩, ?_, rfl⟩
  · unfold PacketPassFairQueue.schedule
    rw [if_neg (by simp [hs, hp]), hfirst, Option.bind_some, hdata]
    rfl
  · exact h.ids_setFlow q.id (fun f => { f with queued := none }) fun _ => rfl
  · intro k f' hf'
    obtain ⟨f, hf, htime, _⟩ := hback k f' hf'
    rw [htime]
    exact h.time_le k f hf
  · intro k f' hf' d hd
    obtain ⟨f, hf, _, hqueued⟩ := hback k f' hf'
    have hne : f'.queued ≠ none := fun hn => by
      rw [hn] at hd
      cases hd
    exact h.len_le k f hf d (hqueued hne ▸ hd)
  · intro s hsend
    obtain rfl := Option.some.inj hsend
    refine ⟨hj, h.len_le q.id q hqflow data hdata, { q with queued := none }, ?_, rfl, fun k f' hf' hwait => ?_⟩
    · rw [hflow, if_pos rfl, hqflow]
      rfl
    · obtain ⟨f, hf, htime, hqueued⟩ := hback k f' hf'
      rw [htime]
      exact hleast k f hf (hqueued hwait ▸ hwait)
  · intro p hprev
    have hprev : m.previousFlow = some p := hprev
    rw [hp] at hprev
    cases hprev
  · intro k
    show packetsOf k m.submitted = packetsOf k (m.output ++ [(q.id, data)]) ++ waitingOf ((m.scheduled q data).flow k)
    rw [packetsOf_concat, hflow, h.passed k]
    by_cases hk : k = q.id
    · subst hk
      rw [if_pos rfl, if_pos rfl, hqflow]
      simp [waitingOf, hdata]
    · rw [if_neg (Ne.symm hk), if_neg hk, List.append_nil]
  · intro hidle
    cases hidle
  · intro k
    unfold timeOf
    rw [hflow]
    split
    · cases m.flow k <;> rfl
    · rfl

/-! ### The job -/

/-- The scheduling job takes the next packet, if any, and charges nobody. -/
theorem Sound.scheduleJob (h : Sound packetWeight mtu m) (hj : m.scheduleJob) :
    ∃ m', m.scheduleJobHandler = some m' ∧ Sound packetWeight mtu m' ∧ (∀ k, timeOf m' k = timeOf m k) ∧ m'.served = m.served := by
  have hs : m.sendingFlow = none := by
    cases hs : m.sendingFlow with
    | none => rfl
    | some s => exact absurd ((h.sending s hs).1.symm.trans hj) Bool.false_ne_true
  have hcore : Core packetWeight mtu { m with scheduleJob := false, previousFlow := none } := by
    refine ⟨h.ids, h.weight, h.mtu_eq, h.fits, h.time_le, h.len_le, fun s hsend => ?_, fun p hp => ?_, h.passed⟩
    · rw [hs] at hsend
      cases hsend
    · cases hp
  unfold scheduleJobHandler
  rw [if_neg (not_not_intro hs)]
  dsimp only
  cases hfirst : getFirst m.flows with
  | none =>
    rw [if_neg (by simp)]
    exact ⟨_, rfl, ⟨hcore, fun _ _ k f hf => h.getFirst_none hfirst hf⟩, fun _ => rfl, rfl⟩
  | some q =>
    obtain ⟨hq, hwait, _⟩ := h.getFirst_some hfirst
    rw [if_pos Option.isSome_some]
    exact hcore.schedule hs rfl rfl hq hwait

/-! ### The output is done -/

/-- Time is subtracted from a flow that is not the one served, down to zero. -/
theorem subtractTime_other {subtract : Nat} (hid : f.id ≠ id) (hle : f.time ≤ fairqueueMaxTime) :
    subtractTime id subtract f = { f with time := f.time - subtract } := by
  unfold subtractTime
  split
  · rename_i hlack
    rw [Nat.sub_eq_zero_of_le (Nat.le_of_lt hlack.1)]
  · rename_i hhas
    have hge : subtract ≤ f.time := Nat.le_of_not_lt fun hlt => hhas ⟨hlt, hid⟩
    have htime : uint64 (f.time + 2 ^ 64 - subtract) = f.time - subtract := by
      unfold uint64
      unfold fairqueueMaxTime at hle
      omega
    rw [htime]

/-- The flow that was served underflows and overflows back. -/
theorem uint64_served {time subtract amount : Nat} (hsub : time ≤ subtract) (hle : subtract ≤ time + amount)
    (hmax : subtract ≤ fairqueueMaxTime) (hamount : amount ≤ fairqueueMaxTime) :
    uint64 (uint64 (time + 2 ^ 64 - subtract) + amount) = time + amount - subtract := by
  unfold uint64
  unfold fairqueueMaxTime at hmax hamount
  omega

theorem subtractTime_id (id subtract : Nat) (f : FairQueueFlow) : (subtractTime id subtract f).id = f.id := by
  unfold subtractTime
  split <;> rfl

/-- What is subtracted is the least time that waits, and no earlier than that of the flow. -/
theorem subtrahend_spec (hids : (m.flows.map FairQueueFlow.id).Nodup) (hmax : f.time ≤ fairqueueMaxTime)
    (htime : ∀ k g, m.flow k = some g → g.time ≤ fairqueueMaxTime)
    (hleast : ∀ k g, m.flow k = some g → g.queued ≠ none → f.time ≤ g.time) :
    f.time ≤ m.subtrahend f ∧ m.subtrahend f ≤ fairqueueMaxTime ∧
      ∀ k g, m.flow k = some g → g.queued ≠ none → m.subtrahend f ≤ g.time := by
  unfold subtrahend
  cases hfirst : getFirst m.flows with
  | none =>
    exact ⟨Nat.le_refl _, hmax, fun k g hg hwait =>
      absurd (PacketPassFairQueue.getFirst_none hfirst g ((flow_eq_some hids).mp hg).1) hwait⟩
  | some q =>
    obtain ⟨hmem, hwait, hall⟩ := PacketPassFairQueue.getFirst_some hfirst
    have hqflow : m.flow q.id = some q := (flow_eq_some hids).mpr ⟨hmem, rfl⟩
    exact ⟨hleast q.id q hqflow hwait, htime q.id q hqflow, fun k g hg => hall g ((flow_eq_some hids).mp hg).1⟩

/-- The flows after the amount was added to one of them. -/
def added (m : PacketPassFairQueue) (id amount : Nat) : PacketPassFairQueue :=
  m.setFlow id fun f => { f with time := uint64 (f.time + amount) }

/-- Where nothing overflows nothing is subtracted. -/
theorem flow_added {amount : Nat} (hf : m.flow id = some f) (hmax : f.time ≤ fairqueueMaxTime)
    (hroom : amount ≤ fairqueueMaxTime - f.time) (k : Nat) :
    (m.added id amount).flow k = if k = id then some { f with time := f.time + amount - 0 }
      else (m.flow k).map fun g => { g with time := g.time - 0 } := by
  refine (flow_setFlow m id k (fun f => { f with time := uint64 (f.time + amount) }) fun _ => rfl).trans ?_
  split
  · rename_i hk
    subst hk
    have hexact : uint64 (f.time + amount) = f.time + amount := by
      unfold uint64
      unfold fairqueueMaxTime at hroom hmax
      omega
    rw [hf, Option.map_some, hexact]
    rfl
  · cases m.flow k <;> rfl

/-- The time of the flow is counted on from a time that is subtracted, and all others are less by it. -/
theorem flow_subtracted {amount subtract : Nat} (hids : (m.flows.map FairQueueFlow.id).Nodup) (hf : m.flow id = some f)
    (htime : ∀ k g, m.flow k = some g → g.time ≤ fairqueueMaxTime) (hsub : f.time ≤ subtract)
    (hle : subtract ≤ f.time + amount) (hsubmax : subtract ≤ fairqueueMaxTime) (hamount : amount ≤ fairqueueMaxTime) (k : Nat) :
    (added { m with flows := m.flows.map (subtractTime id subtract) } id amount).flow k =
      if k = id then some { f with time := f.time + amount - subtract }
      else (m.flow k).map fun g => { g with time := g.time - subtract } := by
  refine (flow_setFlow _ id k (fun f => { f with time := uint64 (f.time + amount) }) fun _ => rfl).trans ?_
  have hmap : ({ m with flows := m.flows.map (subtractTime id subtract) } : PacketPassFairQueue).flow k =
      (m.flow k).map (subtractTime id subtract) := find_map (subtractTime_id id subtract) m.flows k
  rw [hmap]
  split
  · rename_i hk
    subst hk
    have hself : subtractTime k subtract f = { f with time := uint64 (f.time + 2 ^ 64 - subtract) } :=
      if_neg fun hlack => hlack.2 ((flow_eq_some hids).mp hf).2
    rw [hf, Option.map_some, Option.map_some, hself, uint64_served hsub hle hsubmax hamount]
  · rename_i hk
    cases hg : m.flow k with
    | none => rfl
    | some g =>
      have hgid : g.id ≠ id := ((flow_eq_some hids).mp hg).2.trans_ne hk
      rw [Option.map_some, Option.map_some, subtractTime_other hgid (htime k g hg)]

theorem ids_added {amount : Nat} (hids : (m.flows.map FairQueueFlow.id).Nodup) :
    ((m.added id amount).flows.map FairQueueFlow.id).Nodup :=
  (ids_setFlow m id (fun f => { f with time := uint64 (f.time + amount) }) fun _ => rfl) ▸ hids

theorem ids_subtracted {subtract : Nat} (hids : (m.flows.map FairQueueFlow.id).Nodup) :
    ((m.flows.map (subtractTime id subtract)).map FairQueueFlow.id).Nodup := by
  rw [List.map_map, show FairQueueFlow.id ∘ subtractTime id subtract = _ from funext (subtractTime_id id subtract)]
  exact hids

/-- **The time of the flow that was served is exact**: all times are shifted by the same, and none that waits lacks it. -/
theorem incrementSentFlow_eq {amount : Nat} (hids : (m.flows.map FairQueueFlow.id).Nodup) (hf : m.flow id = some f)
    (hq : f.queued = none) (hs : m.sendingFlow = none) (hamount : amount ≤ fairqueueMaxTime)
    (htime : ∀ k g, m.flow k = some g → g.time ≤ fairqueueMaxTime)
    (hleast : ∀ k g, m.flow k = some g → g.queued ≠ none → f.time ≤ g.time) :
    ∃ fs subtract, m.incrementSentFlow id amount = some { m with flows := fs } ∧ (fs.map FairQueueFlow.id).Nodup ∧
      subtract ≤ f.time + amount ∧ f.time + amount - subtract ≤ fairqueueMaxTime ∧
        (∀ k g, m.flow k = some g → g.queued ≠ none → subtract ≤ g.time) ∧
          ∀ k, fs.find? (fun f => f.id = k) = if k = id then some { f with time := f.time + amount - subtract }
            else (m.flow k).map fun g => { g with time := g.time - subtract } := by
  have hmax := htime id f hf
  unfold incrementSentFlow
  rw [hf, Option.bind_some, if_neg (by simp [hq, hs, hamount])]
  dsimp only
  by_cases hover : fairqueueMaxTime - f.time < amount
  · rw [if_pos hover]
    obtain ⟨hsub, hsubmax, hwaits⟩ := subtrahend_spec hids hmax htime hleast
    generalize m.subtrahend f = subtract at hsub hsubmax hwaits
    have hle : subtract ≤ f.time + amount := by omega
    rw [if_neg]
    · exact ⟨_, subtract, rfl, ids_added (ids_subtracted hids), hle, by omega, hwaits,
        flow_subtracted hids hf htime hsub hle hsubmax hamount⟩
    · intro hany
      obtain ⟨g, hg, hlack⟩ := List.any_eq_true.mp hany
      obtain ⟨hlt, _, hwait⟩ := of_decide_eq_true hlack
      exact absurd (hwaits g.id g ((flow_eq_some hids).mpr ⟨hg, rfl⟩) hwait) (Nat.not_le.mpr hlt)
  · rw [if_neg hover]
    exact ⟨_, 0, rfl, ids_added hids, Nat.zero_le _, by omega, fun _ _ _ _ => Nat.zero_le _,
      flow_added hf hmax (Nat.le_of_not_lt hover)⟩

/-- What a flow has been served is the sum over its own packets. -/
theorem service_concat {amount : Nat} (hserved : m'.served = m.served ++ [(id, amount)]) (k : Nat) :
    service m' k = service m k + if k = id then amount else 0 := by
  unfold service
  rw [hserved, List.filter_append, List.map_append, List.sum_append]
  by_cases hk : k = id
  · subst hk
    simp
  · simp [hk, Ne.symm hk]

/-- The output is done with the packet of a flow. -/
def justSent (m : PacketPassFairQueue) (id : Nat) : PacketPassFairQueue :=
  { m with sendingFlow := none, previousFlow := some id }

/-- The flow was charged, and the next flow is to be chosen. -/
def charged (m : PacketPassFairQueue) (id : Nat) (fs : List FairQueueFlow) : PacketPassFairQueue :=
  { m.justSent id with flows := fs, scheduleJob := true, served := m.served ++ [(id, m.packetWeight + m.sendingLen)] }

section Charge

variable {subtract : Nat}

/-- The flows after one was served and time was subtracted from all. -/
theorem Sound.of_charged (h : Sound packetWeight mtu m) (hf : m.flow id = some f) (hq : f.queued = none)
    (hids : (fs.map FairQueueFlow.id).Nodup) (hmax : f.time + (m.packetWeight + m.sendingLen) - subtract ≤ fairqueueMaxTime)
    (hflow : ∀ k, (m.charged id fs).flow k =
      if k = id then some { f with time := f.time + (m.packetWeight + m.sendingLen) - subtract }
      else (m.flow k).map fun g => { g with time := g.time - subtract }) :
    Sound packetWeight mtu (m.charged id fs) := by
  -- a flow afterwards is one from before, with the same packet
  have hback : ∀ k f', (m.charged id fs).flow k = some f' → ∃ g, m.flow k = some g ∧ f'.queued = g.queued ∧
      f'.time ≤ fairqueueMaxTime := by
    intro k f' hf'
    rw [hflow] at hf'
    split at hf'
    · rename_i hk
      subst hk
      obtain rfl := Option.some.inj hf'
      exact ⟨f, hf, rfl, hmax⟩
    · obtain ⟨g, hg, rfl⟩ := Option.map_eq_some_iff.mp hf'
      exact ⟨g, hg, rfl, Nat.le_trans (Nat.sub_le _ _) (h.time_le k g hg)⟩
  refine ⟨⟨hids, h.weight, h.mtu_eq, h.fits, ?_, ?_, ?_, ?_, ?_⟩, ?_⟩
  · intro k f' hf'
    exact (hback k f' hf').elim fun _ hg => hg.2.2
  · intro k f' hf' d hd
    obtain ⟨g, hg, hqueued, _⟩ := hback k f' hf'
    exact h.len_le k g hg d (hqueued ▸ hd)
  · intro _ hsend
    cases hsend
  · intro p hprev
    obtain rfl := Option.some.inj hprev
    exact ⟨rfl, { f with time := f.time + (m.packetWeight + m.sendingLen) - subtract }, by rw [hflow, if_pos rfl], hq⟩
  · intro k
    refine (h.passed k).trans (congrArg (_ ++ ·) ?_)
    rw [hflow]
    split
    · rename_i hk
      subst hk
      rw [hf]
      rfl
    · cases m.flow k <;> rfl
  · intro _ hidle
    cases hidle

/-- The one that was served is charged for it, and was served because its time was the least. -/
theorem Sound.charge (h : Sound packetWeight mtu m) (hs : m.sendingFlow = some id) (hp : m.previousFlow = none)
    (hf : m.flow id = some f) (hle : subtract ≤ f.time + (m.packetWeight + m.sendingLen))
    (hwaits : ∀ k g, m.flow k = some g → g.queued ≠ none → subtract ≤ g.time)
    (hflow : ∀ k, (m.charged id fs).flow k =
      if k = id then some { f with time := f.time + (m.packetWeight + m.sendingLen) - subtract }
      else (m.flow k).map fun g => { g with time := g.time - subtract }) :
    Charged packetWeight mtu m (m.charged id fs) subtract fun k => if k = id then m.packetWeight + m.sendingLen else 0 := by
  obtain ⟨_, hlen, f', hf', _, hleast⟩ := h.sending id hs
  obtain rfl := Option.some.inj (hf.symm.trans hf')
  have hweight := h.weight
  refine ⟨?_, ?_, ?_⟩
  · intro k hk _
    show timeOf (m.charged id fs) k + subtract = timeOf m k + if k = id then _ else 0
    by_cases hks : k = id
    · subst hks
      rw [if_pos rfl, timeOf_eq hf, timeOf_eq (by rw [hflow, if_pos rfl])]
      exact Nat.sub_add_cancel hle
    · rcases hk with ⟨g, hg, hwait⟩ | hsend | hprev
      · have hg : m.flow k = some g := hg
        have htime : timeOf (m.charged id fs) k = g.time - subtract := by
          unfold timeOf
          rw [hflow, if_neg hks, hg]
          rfl
        rw [if_neg hks, timeOf_eq hg, htime]
        exact Nat.sub_add_cancel (hwaits k g hg hwait)
      · exact absurd (Option.some.inj (hsend.symm.trans hs)) hks
      · rw [hp] at hprev
        cases hprev
  · exact service_concat rfl
  · intro k hk
    by_cases hks : k = id
    · subst hks
      refine ⟨by rw [if_pos rfl]; omega, fun j hj => ?_⟩
      rw [timeOf_eq hf]
      rcases hj with ⟨g, hg, hwait⟩ | hsend | hprev
      · rw [timeOf_eq hg]
        exact hleast j g hg hwait
      · obtain rfl := Option.some.inj (hsend.symm.trans hs)
        exact Nat.le_of_eq (timeOf_eq hf).symm
      · rw [hp] at hprev
        cases hprev
    · rw [if_neg hks] at hk
      exact absurd hk (Nat.lt_irrefl 0)

end Charge

/-- The packet went out, and its flow is charged for it. -/
theorem Sound.outputDone (h : Sound packetWeight mtu m) (hc : m.sendingFlow ≠ none) :
    ∃ m' shift charge, m.outputHandlerDone = some m' ∧ Sound packetWeight mtu m' ∧
      Charged packetWeight mtu m m' shift charge := by
  obtain ⟨s, hs⟩ := Option.ne_none_iff_exists'.mp hc
  obtain ⟨hj, hlen, f, hf, hq, hleast⟩ := h.sending s hs
  have hp : m.previousFlow = none := by
    cases hp : m.previousFlow with
    | none => rfl
    | some p => exact absurd ((h.previous p hp).1.symm.trans hj) Bool.noConfusion
  have hfits := h.fits
  have hweight := h.weight
  have hamount : m.packetWeight + m.sendingLen ≤ fairqueueMaxTime := by omega
  have hjust : (m.justSent s).flow s = some f := hf
  obtain ⟨fs, subtract, hsent, hids, hle, hmax, hwaits, hflow⟩ :=
    incrementSentFlow_eq (by exact h.ids) hjust hq rfl hamount (by exact h.time_le) (by exact hleast)
  refine ⟨m.charged s fs, subtract, _, ?_, h.of_charged hf hq hids hmax hflow, h.charge hs hp hf hle hwaits hflow⟩
  unfold outputHandlerDone
  rw [hs, Option.bind_some, hf, Option.bind_some, if_neg (by simp [hp, hj, hq])]
  exact Option.map_eq_some_iff.mpr ⟨_, hsent, rfl⟩

/-! ### A flow sends -/

/-- The current time is that of the flow that sends, and no time is out of range. -/
theorem Sound.getCurrentTime (h : Sound packetWeight mtu m) :
    ∃ time, m.getCurrentTime = some time ∧ time ≤ fairqueueMaxTime ∧
      ∀ s g, m.sendingFlow = some s → m.flow s = some g → time = g.time := by
  have hfirst : ∀ q, getFirst m.flows = some q → q.time ≤ fairqueueMaxTime := fun q hq =>
    h.time_le q.id q (h.getFirst_some hq).1
  unfold PacketPassFairQueue.getCurrentTime
  cases hs : m.sendingFlow with
  | some s =>
    obtain ⟨_, _, f, hf, _⟩ := h.sending s hs
    refine ⟨f.time, by dsimp only; rw [hf]; rfl, h.time_le s f hf, fun s' g hs' hg => ?_⟩
    obtain rfl := Option.some.inj hs'
    rw [Option.some.inj (hf.symm.trans hg)]
  | none =>
    cases hp : m.previousFlow with
    | none =>
      refine ⟨_, rfl, ?_, fun _ _ hn => by cases hn⟩
      cases hq : getFirst m.flows with
      | none => exact Nat.zero_le _
      | some q => exact hfirst q hq
    | some p =>
      obtain ⟨_, f, hf, _⟩ := h.previous p hp
      dsimp only
      rw [hf]
      refine ⟨_, rfl, ?_, fun _ _ hn => by cases hn⟩
      have hle := h.time_le p f hf
      cases hq : getFirst m.flows with
      | none => exact hle
      | some q =>
        have hqle := hfirst q hq
        show (if f.time < q.time then f.time else q.time) ≤ _
        split
        · exact hle
        · exact hqle

/-- The flow waits with its packet. -/
def enqueued (m : PacketPassFairQueue) (fs : List FairQueueFlow) (previous : Option Nat) (id : Nat) (data : List UInt8) :
    PacketPassFairQueue :=
  { m with flows := fs, previousFlow := previous, submitted := m.submitted ++ [(id, data)] }

/-- A flow is queued: it keeps its time if it was just served, and is raised to the current one otherwise. -/
theorem Sound.inputHandlerSend_eq (h : Sound packetWeight mtu m) (hf : m.flow id = some f) (hq : f.queued = none)
    (hs : m.sendingFlow ≠ some id) (data : List UInt8) :
    ∃ fs time previous, m.inputHandlerSend id data =
        (if m.sendingFlow = none ∧ ¬ m.scheduleJob then (m.enqueued fs previous id data).schedule
          else some (m.enqueued fs previous id data)) ∧
      (fs.map FairQueueFlow.id).Nodup ∧ time ≤ fairqueueMaxTime ∧
        (∀ k, fs.find? (fun f => f.id = k) = if k = id then some { f with time := time, queued := some data } else m.flow k) ∧
          (∀ p, previous = some p → m.previousFlow = some p ∧ p ≠ id) ∧ (m.previousFlow = some id → time = f.time) ∧
            ∀ s g, m.sendingFlow = some s → m.flow s = some g → g.time ≤ time := by
  unfold PacketPassFairQueue.inputHandlerSend
  rw [hf, Option.bind_some, if_neg (by simp [hs, hq])]
  by_cases hp : m.previousFlow = some id
  · rw [if_pos hp, Option.bind_some]
    have hid : ∀ f : FairQueueFlow, ({ f with queued := some data } : FairQueueFlow).id = f.id := fun _ => rfl
    refine ⟨_, f.time, none, rfl, h.ids_setFlow id _ hid, h.time_le id f hf, fun k => ?_, ?_, fun _ => rfl, fun s g hsend => ?_⟩
    · refine (flow_setFlow m id k _ hid).trans ?_
      split
      · rename_i hk
        rw [hk, hf]
        rfl
      · rfl
    · intro p hn
      cases hn
    · exact absurd ((h.sending s hsend).1.symm.trans (h.previous id hp).1) Bool.false_ne_true
  · obtain ⟨time, htime, hle, hsend⟩ := h.getCurrentTime
    rw [if_neg hp, htime, Option.map_some, Option.bind_some]
    have hraise : ∀ f : FairQueueFlow, ({ f with time := max f.time time } : FairQueueFlow).id = f.id := fun _ => rfl
    have hid : ∀ f : FairQueueFlow, ({ f with queued := some data } : FairQueueFlow).id = f.id := fun _ => rfl
    refine ⟨_, max f.time time, m.previousFlow, rfl, ?_, Nat.max_le.mpr ⟨h.time_le id f hf, hle⟩, fun k => ?_, fun p hprev => ?_,
      fun hn => absurd hn hp, fun s g hs hg => ?_⟩
    · have hids := h.ids_setFlow id _ hraise
      rw [← ids_setFlow _ id _ hid] at hids
      exact hids
    · refine (flow_setFlow (m.setFlow id fun f => { f with time := max f.time time }) id k _ hid).trans ?_
      rw [flow_setFlow m id k _ hraise]
      split
      · rename_i hk
        rw [hk, hf]
        rfl
      · rfl
    · exact ⟨hprev, fun he => hp (he ▸ hprev)⟩
    · rw [← hsend s g hs hg]
      exact Nat.le_max_right _ _

/-- A packet handed in is queued: backlogged flows keep their times and nobody is charged. -/
theorem Sound.inputHandlerSend (h : Sound packetWeight mtu m) (hc : m.Calls (.send id data)) :
    ∃ m', m.inputHandlerSend id data = some m' ∧ Sound packetWeight mtu m' ∧
      (∀ k, Backlogged m k → timeOf m' k = timeOf m k) ∧ m'.served = m.served := by
  obtain ⟨⟨f, hf, hq⟩, hs, hlen⟩ := hc
  have hf : m.flow id = some f := hf
  obtain ⟨fs, time, previous, heq, hids, hmax, hfind, hprevious, hkeep, hsending⟩ := h.inputHandlerSend_eq hf hq hs data
  have hflow : ∀ k, (m.enqueued fs previous id data).flow k =
      if k = id then some { f with time := time, queued := some data } else m.flow k := hfind
  have hother : ∀ k, k ≠ id → (m.enqueued fs previous id data).flow k = m.flow k := fun k hk => (hflow k).trans (if_neg hk)
  have hcore : Core packetWeight mtu (m.enqueued fs previous id data) := by
    refine ⟨hids, h.weight, h.mtu_eq, h.fits, fun k g hg => ?_, fun k g hg d hd => ?_, fun s hsend => ?_, fun p hprev => ?_,
      fun k => ?_⟩
    · rw [hflow] at hg
      split at hg
      · obtain rfl := Option.some.inj hg
        exact hmax
      · exact h.time_le k g hg
    · rw [hflow] at hg
      split at hg
      · obtain rfl := Option.some.inj hg
        obtain rfl := Option.some.inj hd
        exact h.mtu_eq ▸ hlen
      · exact h.len_le k g hg d hd
    · have hsend : m.sendingFlow = some s := hsend
      obtain ⟨hjob, hsize, g, hg, hidle, hleast⟩ := h.sending s hsend
      refine ⟨hjob, hsize, g, (hother s fun he => hs (he ▸ hsend)).trans hg, hidle, fun k x hx hwait => ?_⟩
      rw [hflow] at hx
      split at hx
      · obtain rfl := Option.some.inj hx
        exact hsending s g hsend hg
      · exact hleast k x hx hwait
    · obtain ⟨hprev, hne⟩ := hprevious p hprev
      obtain ⟨hjob, g, hg, hidle⟩ := h.previous p hprev
      exact ⟨hjob, g, (hother p hne).trans hg, hidle⟩
    · show packetsOf k (m.submitted ++ [(id, data)]) = packetsOf k m.output ++ waitingOf ((m.enqueued fs previous id data).flow k)
      rw [packetsOf_concat, h.passed k, hflow]
      by_cases hk : k = id
      · subst hk
        rw [if_pos rfl, if_pos rfl, hf]
        simp [waitingOf, hq]
      · rw [if_neg (Ne.symm hk), if_neg hk, List.append_nil]
  have htimes : ∀ k, Backlogged m k → timeOf (m.enqueued fs previous id data) k = timeOf m k := by
    intro k hk
    by_cases hkid : k = id
    · subst hkid
      have hp : m.previousFlow = some k := by
        rcases hk with ⟨g, hg, hwait⟩ | hsend | hprev
        · rw [Option.some.inj (hf.symm.trans hg)] at hq
          exact absurd hq hwait
        · exact absurd hsend hs
        · exact hprev
      rw [timeOf_eq hf, timeOf_eq ((hflow k).trans (if_pos rfl))]
      exact hkeep hp
    · unfold timeOf
      rw [hother k hkid]
  rw [heq]
  split
  · rename_i hidle
    have hjob : m.scheduleJob = false := by simpa using hidle.2
    have hprev : previous = none := by
      cases hprev : previous with
      | none => rfl
      | some p => exact absurd (hjob.symm.trans (h.previous p (hprevious p hprev).1).1) Bool.false_ne_true
    obtain ⟨m', hm', hsound, htime, hserved⟩ :=
      hcore.schedule hidle.1 hprev hjob ((hflow id).trans (if_pos rfl)) (Option.some_ne_none data)
    exact ⟨m', hm', hsound, fun k hk => (htime k).trans (htimes k hk), hserved⟩
  · rename_i hnot
    refine ⟨_, rfl, ⟨hcore, fun hsend hjob => absurd ⟨hsend, ?_⟩ hnot⟩, htimes, rfl⟩
    have hjob : m.scheduleJob = false := hjob
    simp [hjob]

/-! ### Flows come and go -/

/-- A new flow starts with nothing queued and no backlogged flow notices. -/
theorem Sound.flowInit (h : Sound packetWeight mtu m) (hc : m.flow id = none) :
    Sound packetWeight mtu (m.flowInit id) ∧ ∀ k, Backlogged m k → timeOf (m.flowInit id) k = timeOf m k := by
  have hflow : ∀ k, (m.flowInit id).flow k = (m.flow k).or (if k = id then some ⟨id, 0, none⟩ else none) := by
    intro k
    show (m.flows ++ [_]).find? _ = _
    rw [List.find?_append]
    refine congrArg (Option.or _) ?_
    by_cases hk : k = id
    · subst hk
      simp
    · simp [hk, Ne.symm hk]
  -- a flow that was there is the same, and another is the new one
  have hold : ∀ k f, m.flow k = some f → (m.flowInit id).flow k = some f := by
    intro k f hf
    rw [hflow, hf]
    rfl
  have hback : ∀ k f, (m.flowInit id).flow k = some f → m.flow k = some f ∨ f = ⟨id, 0, none⟩ := by
    intro k f hf
    rw [hflow] at hf
    cases hk : m.flow k with
    | some g =>
      rw [hk] at hf
      exact .inl hf
    | none =>
      rw [hk, Option.none_or] at hf
      split at hf
      · exact .inr (Option.some.inj hf).symm
      · cases hf
  refine ⟨⟨⟨?_, h.weight, h.mtu_eq, h.fits, fun k f hf => ?_, fun k f hf d hd => ?_, fun s hs => ?_, fun p hp => ?_, fun k => ?_⟩,
    fun hs hj k f hf => ?_⟩, fun k hk => ?_⟩
  · show ((m.flows ++ [_]).map _).Nodup
    rw [List.map_append]
    refine h.ids.append (List.nodup_singleton id) (List.disjoint_singleton.mpr fun hmem => ?_)
    obtain ⟨f, hf, hfid⟩ := List.mem_map.mp hmem
    rw [(flow_eq_some h.ids).mpr ⟨hf, hfid⟩] at hc
    cases hc
  · rcases hback k f hf with hf | rfl
    · exact h.time_le k f hf
    · exact Nat.zero_le _
  · rcases hback k f hf with hf | rfl
    · exact h.len_le k f hf d hd
    · cases hd
  · obtain ⟨hj, hlen, f, hf, hidle, hleast⟩ := h.sending s hs
    refine ⟨hj, hlen, f, hold s f hf, hidle, fun k g hg hwait => ?_⟩
    rcases hback k g hg with hg | rfl
    · exact hleast k g hg hwait
    · exact absurd rfl hwait
  · obtain ⟨hj, f, hf, hidle⟩ := h.previous p hp
    exact ⟨hj, f, hold p f hf, hidle⟩
  · refine (h.passed k).trans (congrArg (_ ++ ·) ?_)
    rw [hflow]
    cases m.flow k with
    | some f => rfl
    | none =>
      rw [Option.none_or]
      split <;> rfl
  · rcases hback k f hf with hf | rfl
    · exact h.busy hs hj k f hf
    · rfl
  · obtain ⟨f, hf⟩ := h.exists_flow hk
    rw [timeOf_eq hf, timeOf_eq (hold k f hf)]

/-- The flow is gone, and its packets are forgotten. -/
def freed (m : PacketPassFairQueue) (id : Nat) : PacketPassFairQueue :=
  { m with
    previousFlow := if m.previousFlow = some id then none else m.previousFlow,
    flows := m.flows.filter fun f => f.id ≠ id,
    submitted := m.submitted.filter fun p => p.1 ≠ id,
    output := m.output.filter fun p => p.1 ≠ id }

theorem packetsOf_filter (k id : Nat) (ps : List (Nat × List UInt8)) :
    packetsOf k (ps.filter fun p => p.1 ≠ id) = if k = id then [] else packetsOf k ps := by
  unfold packetsOf
  rw [List.filter_filter]
  split
  · rename_i hk
    subst hk
    rw [List.filter_eq_nil_iff.mpr fun p _ => by simp]
    rfl
  · rename_i hk
    refine congrArg (List.map Prod.snd) (List.filter_congr fun p _ => ?_)
    by_cases hp : p.1 = k
    · simp [hp, hk]
    · simp [hp]

/-- Freeing removes the one flow. -/
theorem flow_freed (m : PacketPassFairQueue) (id k : Nat) : (m.freed id).flow k = if k = id then none else m.flow k := by
  show (m.flows.filter _).find? _ = _
  rw [List.find?_filter]
  split
  · rename_i hk
    subst hk
    exact List.find?_eq_none.mpr fun f _ => by simp
  · rename_i hk
    refine congrArg (List.find? · m.flows) (funext fun f => ?_)
    by_cases hf : f.id = k
    · simp [hf, hk]
    · simp [hf]

/-- A flow may be freed while another one is sending, and the others keep their times. -/
theorem Sound.flowFree (h : Sound packetWeight mtu m) (hc : m.sendingFlow ≠ some id) :
    Sound packetWeight mtu (m.freed id) ∧
      ∀ k, Backlogged (m.freed id) k → timeOf (m.freed id) k = timeOf m k := by
  have hback : ∀ k f, (m.freed id).flow k = some f → m.flow k = some f := by
    intro k f hf
    rw [flow_freed] at hf
    split at hf
    · cases hf
    · exact hf
  have hother : ∀ k, k ≠ id → (m.freed id).flow k = m.flow k := fun k hk => (flow_freed m id k).trans (if_neg hk)
  have hsound : Sound packetWeight mtu (m.freed id) := by
    refine ⟨⟨?_, h.weight, h.mtu_eq, h.fits, fun k f hf => h.time_le k f (hback k f hf),
      fun k f hf => h.len_le k f (hback k f hf), fun s hs => ?_, fun p hp => ?_, fun k => ?_⟩,
      fun hs hj k f hf => h.busy hs hj k f (hback k f hf)⟩
    · exact h.ids.sublist (List.filter_sublist.map _)
    · have hs : m.sendingFlow = some s := hs
      obtain ⟨hj, hlen, f, hf, hidle, hleast⟩ := h.sending s hs
      exact ⟨hj, hlen, f, (hother s fun he => hc (he ▸ hs)).trans hf, hidle, fun k g hg => hleast k g (hback k g hg)⟩
    · have hp : (if m.previousFlow = some id then none else m.previousFlow) = some p := hp
      split at hp
      · cases hp
      · rename_i hne
        obtain ⟨hj, f, hf, hidle⟩ := h.previous p hp
        exact ⟨hj, f, (hother p fun he => hne (he ▸ hp)).trans hf, hidle⟩
    · show packetsOf k (m.submitted.filter _) = packetsOf k (m.output.filter _) ++ waitingOf ((m.freed id).flow k)
      rw [packetsOf_filter, packetsOf_filter, flow_freed]
      split
      · rfl
      · exact h.passed k
  refine ⟨hsound, fun k hk => ?_⟩
  obtain ⟨f, hf⟩ := hsound.exists_flow hk
  rw [timeOf_eq hf, timeOf_eq (hback k f hf)]

/-! ## Whole runs -/

/-- The queue starts sound. -/
theorem init_sound (h : init packetWeight mtu = some m) : Sound packetWeight mtu m := by
  unfold init at h
  split at h
  · cases h
  · rename_i hfits
    obtain rfl := Option.some.inj h
    exact ⟨⟨List.nodup_nil, rfl, rfl, by omega, nofun, nofun, nofun, nofun, fun _ => rfl⟩, nofun⟩

/-- Every call the environment may make succeeds, keeps the queue sound, and charges only a flow that was behind
all backlogged ones. -/
theorem Sound.handle (h : Sound packetWeight mtu m) {a : Call} (hc : m.Calls a) :
    ∃ m' shift charge, m.handle a = some m' ∧ Sound packetWeight mtu m' ∧ Charged packetWeight mtu m m' shift charge := by
  cases a with
  | send id data =>
    obtain ⟨m', hm', hs, htime, hserved⟩ := h.inputHandlerSend hc
    exact ⟨m', 0, _, hm', hs, .free (fun k hk _ => htime k hk) hserved⟩
  | done => exact h.outputDone hc
  | job =>
    obtain ⟨m', hm', hs, htime, hserved⟩ := h.scheduleJob hc
    exact ⟨m', 0, _, hm', hs, .free (fun k _ _ => htime k) hserved⟩
  | flowInit id =>
    obtain ⟨hs, htime⟩ := h.flowInit hc
    exact ⟨_, 0, _, rfl, hs, .free (fun k hk _ => htime k hk) rfl⟩
  | flowFree id =>
    obtain ⟨hs, htime⟩ := h.flowFree hc.2
    exact ⟨_, 0, _, if_neg hc.2, hs, .free (fun k _ hk => htime k hk) rfl⟩

/-- Every step keeps the queue sound, and charges only a flow that was behind all backlogged ones. -/
theorem step_sound (h : Sound packetWeight mtu m) {a : Call} (hstep : (system packetWeight mtu).step m a = some m') :
    Sound packetWeight mtu m' ∧ ∃ shift charge, Charged packetWeight mtu m m' shift charge := by
  have hstep : (if m.Calls a then m.handle a else none) = some m' := hstep
  split at hstep
  · rename_i hc
    obtain ⟨r, shift, charge, hr, hs, hcharged⟩ := h.handle hc
    obtain rfl := Option.some.inj (hr.symm.trans hstep)
    exact ⟨hs, shift, charge, hcharged⟩
  · cases hstep

/-- The invariant of every reachable queue. -/
theorem reachable_sound (h : Reachable (system packetWeight mtu) m) : Sound packetWeight mtu m :=
  h.invariant (fun _ hm => init_sound hm) fun _ _ _ hs _ hstep => (step_sound hs hstep).1

/-- Two flows at an output of packets up to four bytes: each sends two. -/
def taking : List Call :=
  [.flowInit 1, .flowInit 2, .send 1 [1, 1, 1, 1], .send 2 [2], .done, .send 1 [1], .job, .done, .send 2 [2], .job, .done]

/-- The state after a run. -/
def ranTo (as : List Call) : Option PacketPassFairQueue := (init 1 4).bind fun m => exec (system 1 4) m as

theorem ranTo_reachable {as : List Call} (h : ranTo as = some m) : Reachable (system 1 4) m := by
  obtain ⟨m₀, hm₀, hrun⟩ := Option.bind_eq_some_iff.mp h
  exact exec_reaches as (.start hm₀) hrun

/-- **The queue is safe**: no assertion fails, the output is only left idle when no flow waits, and what a flow
submitted is what went to the output, in order, and the packet that waits. -/
theorem fairQueue_total (h : Reachable (system packetWeight mtu) m) :
    (∀ a, m.Calls a → ∃ m', m.handle a = some m') ∧
      (m.sendingFlow = none → m.scheduleJob = false → ∀ f ∈ m.flows, f.queued = none) ∧
        ∀ k, packetsOf k m.submitted = packetsOf k m.output ++ waitingOf (m.flow k) := by
  have hs := reachable_sound h
  refine ⟨fun a hc => ?_, fun hidle hj f hf => ?_, hs.passed⟩
  · obtain ⟨m', _, _, hm', _⟩ := hs.handle hc
    exact ⟨m', hm'⟩
  · exact hs.busy hidle hj f.id f ((flow_eq_some hs.ids).mpr ⟨hf, rfl⟩)

theorem fairQueue_total_taking :
    ∃ m, ranTo taking = some m ∧ (∀ a, m.Calls a → ∃ m', m.handle a = some m') ∧
      (m.sendingFlow = none → m.scheduleJob = false → ∀ f ∈ m.flows, f.queued = none) ∧
        ∀ k, packetsOf k m.submitted = packetsOf k m.output ++ waitingOf (m.flow k) := by
  obtain ⟨m, hm⟩ : ∃ m, ranTo taking = some m := Option.isSome_iff_exists.mp (by decide)
  exact ⟨m, hm, fairQueue_total (ranTo_reachable hm)⟩

/-! ## Fairness -/

/-- How far the time of a flow is ahead of that of another. -/
def lead (m : PacketPassFairQueue) (j k : Nat) : Int := timeOf m j - timeOf m k

/-- From `s` to `t` the one flow gained over the other what it was served more, and its lead is no more than the one
it had or one packet. -/
structure Gains (s t : PacketPassFairQueue) (j k : Nat) (packet : Int) : Prop where
  gained : (service t j : Int) - service s j - (service t k - service s k) = lead t j k - lead s j k
  bounded : lead t j k ≤ max (lead s j k) packet

/-- A step keeps it, as long as both flows have packets. -/
theorem Gains.step {s t u : PacketPassFairQueue} {j k : Nat} (h : Gains s t j k (packetWeight + mtu)) {shift : Nat}
    {charge : Nat → Nat} (hstep : Charged packetWeight mtu t u shift charge) (hj : Backlogged t j) (hk : Backlogged t k)
    (hj' : Backlogged u j) (hk' : Backlogged u k) : Gains s u j k (packetWeight + mtu) := by
  have hgained := h.gained
  have hbounded := h.bounded
  have htj := hstep.time j hj hj'
  have htk := hstep.time k hk hk'
  have hsj := hstep.served j
  have hsk := hstep.served k
  unfold lead at hgained hbounded
  have hlead : lead u j k = lead t j k + charge j - charge k := by
    unfold lead
    omega
  refine ⟨?_, ?_⟩
  · rw [hlead]
    unfold lead
    omega
  · rw [hlead]
    unfold lead
    rcases Nat.eq_zero_or_pos (charge j) with hzero | hpos
    · omega
    · -- the flow that is charged was not ahead
      obtain ⟨hle, hleast⟩ := hstep.first j hpos
      have hnot := hleast k hk
      omega

/-- What holds after each step of a run that began in `s`. -/
def GainsWhile (packetWeight mtu : Nat) (s : PacketPassFairQueue) (j k : Nat) (t : PacketPassFairQueue) : Prop :=
  Sound packetWeight mtu t ∧ (Backlogged t j → Backlogged t k → Gains s t j k (packetWeight + mtu))

/-- As long as both have packets, a flow gains over another what it is served more. -/
theorem gains_of_leads {s t : PacketPassFairQueue} {j k : Nat} (hs : Reachable (system packetWeight mtu) s)
    (h : Leads (system packetWeight mtu) (fun m _ => Backlogged m j ∧ Backlogged m k) s t) (hj : Backlogged t j)
    (hk : Backlogged t k) : Gains s t j k (packetWeight + mtu) := by
  have hrun : GainsWhile packetWeight mtu s j k t := by
    refine h.invariant ⟨reachable_sound hs, fun _ _ => ⟨by omega, by omega⟩⟩ fun t a u ht hboth hstep => ?_
    obtain ⟨hsound, shift, charge, hcharged⟩ := step_sound ht.1 hstep
    exact ⟨hsound, fun hj hk => (ht.2 hboth.1 hboth.2).step hcharged hboth.1 hboth.2 hj hk⟩
  exact hrun.2 hj hk

instance (m : PacketPassFairQueue) (id : Nat) : Decidable (Backlogged m id) := by
  unfold Backlogged
  infer_instance

/-- **Flows are served fairly.** While two flows both have packets, neither is charged for more than one packet over
what the other is, but for the head start that the other had. -/
theorem served_fairly {s t : PacketPassFairQueue} {j k : Nat} (hs : Reachable (system packetWeight mtu) s)
    (h : Leads (system packetWeight mtu) (fun m _ => Backlogged m j ∧ Backlogged m k) s t) (hj : Backlogged t j)
    (hk : Backlogged t k) :
    (service t j : Int) - service s j - (service t k - service s k) ≤ max 0 (packetWeight + mtu - lead s j k) := by
  obtain ⟨hgained, hbounded⟩ := gains_of_leads hs h hj hk
  omega

theorem served_fairly_taking :
    ∃ s t, ranTo (taking.take 4) = some s ∧
      execWhere (system 1 4) (fun m _ => Backlogged m 1 ∧ Backlogged m 2) s [.done, .send 1 [1], .job] = some t ∧
        (service t 1 : Int) - service s 1 - (service t 2 - service s 2) ≤ max 0 (1 + 4 - lead s 1 2) := by
  let run := fun s => execWhere (system 1 4) (fun m _ => Backlogged m 1 ∧ Backlogged m 2) s [.done, .send 1 [1], .job]
  obtain ⟨s, hs, t, ht, hboth⟩ :
      ∃ s ∈ ranTo (taking.take 4), ∃ t ∈ run s, Backlogged t 1 ∧ Backlogged t 2 := by decide
  exact ⟨s, t, hs, ht, served_fairly (ranTo_reachable hs) (execWhere_leads _ .here ht) hboth.1 hboth.2⟩

end KiloProxy.Engine.PacketPassFairQueue
