import KiloProxy.Run.System
import Mathlib.Algebra.Group.Nat.Defs
import Mathlib.Data.List.Nodup

/-!
# `PacketPassFairQueue.c`

Flows share an output. A flow has a time, which grows with what it sends, and the flow with
the least time is next. Times are of 64 bits: before one would overflow, the least time that
waits is subtracted from all. `none` is a failed assertion; the queue is not being freed, and
no handler waits for a flow.
-/

namespace KiloProxy.Engine
set_option autoImplicit false
open KiloProxy.Run

/-- `UINT64_MAX`. -/
def fairqueueMaxTime : Nat := 2 ^ 64 - 1

/-- Arithmetic of `uint64_t`. -/
def uint64 (n : Nat) : Nat := n % 2 ^ 64

/-- `id` is the address of the flow, `queued` its packet when `is_queued` is set. -/
structure FairQueueFlow where
  id : Nat
  time : Nat
  queued : Option (List UInt8)
deriving DecidableEq

/-- `queuedTree` is in `flows`. `submitted` and `output` are the packets of each flow that came from it and
went to the output since it was set up, `served` what flows were charged for; they are no part of the
program. -/
structure PacketPassFairQueue where
  packetWeight : Nat
  mtu : Nat
  flows : List FairQueueFlow
  sendingFlow : Option Nat
  sendingLen : Nat
  previousFlow : Option Nat
  scheduleJob : Bool
  submitted : List (Nat × List UInt8)
  output : List (Nat × List UInt8)
  served : List (Nat × Nat)
deriving DecidableEq

namespace PacketPassFairQueue

/-- `compare_flows`. -/
def before (f g : FairQueueFlow) : Bool := f.time < g.time ∨ f.time = g.time ∧ f.id < g.id

/-- `PacketPassFairQueue__Tree_GetFirst`: the least of the flows that are queued. -/
def getFirst : List FairQueueFlow → Option FairQueueFlow
  | [] => none
  | f :: fs =>
    if f.queued = none then getFirst fs
    else
      match getFirst fs with
      | none => some f
      | some g => if before g f then some g else some f

def flow (m : PacketPassFairQueue) (id : Nat) : Option FairQueueFlow := m.flows.find? fun f => f.id = id

def setFlow (m : PacketPassFairQueue) (id : Nat) (change : FairQueueFlow → FairQueueFlow) : PacketPassFairQueue :=
  { m with flows := m.flows.map fun f => if f.id = id then change f else f }

def getCurrentTime (m : PacketPassFairQueue) : Option Nat :=
  match m.sendingFlow with
  | some id => (m.flow id).map FairQueueFlow.time
  | none =>
    let first := (getFirst m.flows).map FairQueueFlow.time
    match m.previousFlow with
    | none => some (first.getD 0)
    | some id => (m.flow id).map fun previous =>
        match first with
        | none => previous.time
        | some time => if previous.time < time then previous.time else time

/-- Time is subtracted from a flow, down to zero but for the one that was just served. -/
def subtractTime (id subtract : Nat) (f : FairQueueFlow) : FairQueueFlow :=
  if f.time < subtract ∧ f.id ≠ id then { f with time := 0 } else { f with time := uint64 (f.time + 2 ^ 64 - subtract) }

/-- The time that is subtracted when the one of the flow would overflow. -/
def subtrahend (m : PacketPassFairQueue) (f : FairQueueFlow) : Nat :=
  match getFirst m.flows with
  | none => f.time
  | some first => first.time

def incrementSentFlow (m : PacketPassFairQueue) (id amount : Nat) : Option PacketPassFairQueue :=
  (m.flow id).bind fun f =>
    if fairqueueMaxTime < amount ∨ f.queued ≠ none ∨ m.sendingFlow ≠ none then none
    else
      let add (m : PacketPassFairQueue) := m.setFlow id fun f => { f with time := uint64 (f.time + amount) }
      if fairqueueMaxTime - f.time < amount then
        -- only a flow that is not queued may lack the time to subtract
        if m.flows.any fun g => g.time < m.subtrahend f ∧ g.id ≠ id ∧ g.queued ≠ none then none
        else some (add { m with flows := m.flows.map (subtractTime id (m.subtrahend f)) })
      else some (add m)

def schedule (m : PacketPassFairQueue) : Option PacketPassFairQueue :=
  if m.sendingFlow ≠ none ∨ m.previousFlow ≠ none then none
  else
    (getFirst m.flows).bind fun qflow => qflow.queued.map fun data =>
      { m.setFlow qflow.id fun f => { f with queued := none } with
        sendingFlow := some qflow.id, sendingLen := data.length, output := m.output ++ [(qflow.id, data)] }

def scheduleJobHandler (m : PacketPassFairQueue) : Option PacketPassFairQueue :=
  if m.sendingFlow ≠ none then none
  else
    let m := { m with scheduleJob := false, previousFlow := none }
    if (getFirst m.flows).isSome then m.schedule else some m

def inputHandlerSend (m : PacketPassFairQueue) (id : Nat) (data : List UInt8) : Option PacketPassFairQueue :=
  (m.flow id).bind fun f =>
    if m.sendingFlow = some id ∨ f.queued ≠ none then none
    else
      -- a flow that was just served keeps its time, another is raised to the current one
      (if m.previousFlow = some id then some { m with previousFlow := none }
        else m.getCurrentTime.map fun time => m.setFlow id fun f => { f with time := max f.time time }).bind fun m =>
        let m := { m.setFlow id fun f => { f with queued := some data } with submitted := m.submitted ++ [(id, data)] }
        if m.sendingFlow = none ∧ ¬ m.scheduleJob then m.schedule else some m

def outputHandlerDone (m : PacketPassFairQueue) : Option PacketPassFairQueue :=
  m.sendingFlow.bind fun id => (m.flow id).bind fun f =>
    if m.previousFlow ≠ none ∨ m.scheduleJob ∨ f.queued ≠ none then none
    else
      (incrementSentFlow { m with sendingFlow := none, previousFlow := some id } id (m.packetWeight + m.sendingLen)).map
        fun m => { m with scheduleJob := true, served := m.served ++ [(id, m.packetWeight + m.sendingLen)] }

/-- `PacketPassFairQueueFlow_Init`. -/
def flowInit (m : PacketPassFairQueue) (id : Nat) : PacketPassFairQueue := { m with flows := m.flows ++ [⟨id, 0, none⟩] }

/-- `PacketPassFairQueueFlow_Free`, and its packets are forgotten. -/
def flowFree (m : PacketPassFairQueue) (id : Nat) : Option PacketPassFairQueue :=
  if m.sendingFlow = some id then none
  else
    some { m with
      previousFlow := if m.previousFlow = some id then none else m.previousFlow,
      flows := m.flows.filter fun f => f.id ≠ id,
      submitted := m.submitted.filter fun p => p.1 ≠ id,
      output := m.output.filter fun p => p.1 ≠ id }

/-- `PacketPassFairQueue_Init`, which fails when a packet of the output's MTU would be too much for the time. -/
def init (packetWeight mtu : Nat) : Option PacketPassFairQueue :=
  if packetWeight = 0 ∨ fairqueueMaxTime < mtu ∨ fairqueueMaxTime - mtu < packetWeight then none
  else some ⟨packetWeight, mtu, [], none, 0, none, false, [], [], []⟩

inductive Call where
  | send (id : Nat) (data : List UInt8)
  | done
  | job
  | flowInit (id : Nat)
  | flowFree (id : Nat)
deriving DecidableEq

/-- A flow sends no packet before the last one is done, the output is done with what it was given, the job runs
when it is set, and a flow is not freed while it sends. -/
def Calls (m : PacketPassFairQueue) : Call → Prop
  | .send id data => (∃ f ∈ m.flow id, f.queued = none) ∧ m.sendingFlow ≠ some id ∧ data.length ≤ m.mtu
  | .done => m.sendingFlow ≠ none
  | .job => m.scheduleJob
  | .flowInit id => m.flow id = none
  | .flowFree id => m.flow id ≠ none ∧ m.sendingFlow ≠ some id

instance (m : PacketPassFairQueue) (a : Call) : Decidable (m.Calls a) := by
  unfold Calls
  split <;> infer_instance

def handle (m : PacketPassFairQueue) : Call → Option PacketPassFairQueue
  | .send id data => m.inputHandlerSend id data
  | .done => m.outputHandlerDone
  | .job => m.scheduleJobHandler
  | .flowInit id => some (m.flowInit id)
  | .flowFree id => m.flowFree id

def system (packetWeight mtu : Nat) : System PacketPassFairQueue Call where
  init m := init packetWeight mtu = some m
  step m a := if m.Calls a then m.handle a else none

end PacketPassFairQueue
end KiloProxy.Engine
