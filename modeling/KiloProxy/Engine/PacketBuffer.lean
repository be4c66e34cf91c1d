import KiloProxy.Engine.ChunkQueue
import KiloProxy.Run.System

/-!
# `PacketBuffer.c`

Packets of an input interface wait in a circular buffer for an output interface. Both
interfaces work on the buffer itself: the input may write at any time into the room it was
given, and the output may read its packet until it is done. No packet is lost, changed or
overtaken, and the input is only made to wait when `num_packets` are held.
-/

namespace KiloProxy.Engine
set_option autoImplicit false
open KiloProxy.Run KiloProxy.Store

/-- `receiving` is the place that the input interface was given, `sending` the place and the length
that the output interface was. `received` and `sent` are the packets that passed; they are no part of
the program. -/
structure PacketBuffer where
  buf : ChunkBuffer2
  inputMtu : Nat
  receiving : Option Nat
  sending : Option (Nat × Int)
  received : List (List UInt8)
  sent : List (List UInt8)
deriving DecidableEq

namespace PacketBuffer

/-- `PacketRecvInterface_Receiver_Recv`, which must not be called while it receives. -/
def receiverRecv (p : PacketBuffer) : Option PacketBuffer :=
  if p.receiving ≠ none then none
  else p.buf.inputDest.map fun dest => { p with receiving := some dest }

/-- `PacketPassInterface_Sender_Send`, which must not be called while it sends. -/
def senderSend (p : PacketBuffer) : Option PacketBuffer :=
  if p.sending ≠ none ∨ p.buf.outputAvail < 0 then none
  else p.buf.outputDest.map fun dest => { p with sending := some (dest, p.buf.outputAvail) }

def inputHandlerDone (p : PacketBuffer) (inLen : Nat) : Option PacketBuffer :=
  if p.inputMtu < inLen then none
  else
    p.receiving.bind fun dest =>
      let p := { p with receiving := none, received := p.received ++ [readBytes p.buf.buffer dest inLen] }
      let wasEmpty := p.buf.outputAvail < 0
      (p.buf.submitPacket inLen).bind fun buf =>
        let p := { p with buf := buf }
        (if (p.inputMtu : Int) ≤ p.buf.inputAvail then p.receiverRecv else some p).bind fun p =>
          if wasEmpty then p.senderSend else some p

def outputHandlerDone (p : PacketBuffer) : Option PacketBuffer :=
  p.sending.bind fun (dest, len) =>
    let p := { p with sending := none, sent := p.sent ++ [readBytes p.buf.buffer dest len.toNat] }
    let wasFull := p.buf.inputAvail < (p.inputMtu : Int)
    p.buf.consumePacket.bind fun buf =>
      let p := { p with buf := buf }
      (if wasFull ∧ (p.inputMtu : Int) ≤ p.buf.inputAvail then p.receiverRecv else some p).bind fun p =>
        if 0 ≤ p.buf.outputAvail then p.senderSend else some p

/-- `PacketBuffer_Init`, with what was allocated. -/
def init (buffer : List UInt32) (inputMtu numPackets : Nat) : Option PacketBuffer :=
  (ChunkBuffer2.calcBlocks inputMtu numPackets).bind fun numBlocks =>
    (ChunkBuffer2.init buffer numBlocks inputMtu).bind fun buf =>
      receiverRecv { buf := buf, inputMtu := inputMtu, receiving := none, sending := none, received := [], sent := [] }

/-- What can happen: the input writes a block of the room it was given, or is done with a packet; the
output is done with its packet. -/
inductive Call where
  | write (i : Nat) (w : UInt32)
  | inputDone (inLen : Nat)
  | outputDone
deriving DecidableEq

def Calls (p : PacketBuffer) : Call → Prop
  | .write i _ => p.receiving ≠ none ∧ i < blocklen p.inputMtu
  | .inputDone inLen => p.receiving ≠ none ∧ inLen ≤ p.inputMtu
  | .outputDone => p.sending ≠ none

instance (p : PacketBuffer) (a : Call) : Decidable (p.Calls a) := by
  unfold Calls
  split <;> infer_instance

/-- The input wrote the `i`-th block of the room it was given. -/
def write (p : PacketBuffer) (i : Nat) (w : UInt32) : Option PacketBuffer :=
  p.receiving.bind fun dest =>
    if p.buf.buffer.length ≤ dest + i then none
    else some { p with buf := { p.buf with buffer := p.buf.buffer.set (dest + i) w } }

def handle (p : PacketBuffer) : Call → Option PacketBuffer
  | .write i w => p.write i w
  | .inputDone inLen => p.inputHandlerDone inLen
  | .outputDone => p.outputHandlerDone

def system (inputMtu numPackets : Nat) : System PacketBuffer Call where
  init p := ∃ buffer, (∃ numBlocks ∈ ChunkBuffer2.calcBlocks inputMtu numPackets, buffer.length = numBlocks) ∧
    init buffer inputMtu numPackets = some p
  step p a := if p.Calls a then p.handle a else none

/-! ## The invariant -/

/-- The buffer holds the packets that were received and not sent. The input is given room exactly when
a full packet fits, and the output the first packet. -/
structure Sound (numPackets : Nat) (p : PacketBuffer) (ahead behind : List Chunk) : Prop where
  buf : p.buf.Sound ahead behind
  bound : p.inputMtu ≤ intMax
  mtu : p.buf.mtu = blocklen p.inputMtu
  size : p.buf.size = (1 + blocklen p.inputMtu) * (numPackets + 1)
  small : ∀ c ∈ ahead ++ behind, c.len ≤ p.inputMtu
  passed : p.received = p.sent ++ (ahead ++ behind).map Chunk.bytes
  receiving : p.receiving = if blocklen p.inputMtu < p.buf.free then some (p.buf.endBlock + 1) else none
  sending : p.sending = (ahead ++ behind).head?.map fun c => (p.buf.start + 1, (c.len : Int))

variable {numPackets : Nat} {p : PacketBuffer} {ahead behind : List Chunk}

/-- Packets no longer than the MTU take no more blocks than it does. -/
theorem all_length_le {mtu : Nat} {cs : List Chunk} (h : ∀ c ∈ cs, c.len ≤ mtu) :
    (Chunk.all cs).length ≤ (1 + blocklen mtu) * cs.length := by
  induction cs with
  | nil => exact Nat.zero_le _
  | cons c cs ih =>
    have hle : blocklen c.len ≤ blocklen mtu :=
      blocklen_le_iff.mpr (Nat.le_trans (h c List.mem_cons_self) (blocklen_le_iff.mp (Nat.le_refl _)))
    have hrest := ih fun d hd => h d (List.mem_cons_of_mem c hd)
    rw [Chunk.all_cons, List.length_append, Chunk.words_length, List.length_cons, Nat.mul_succ]
    omega

/-- **The input waits only when `num_packets` are held.** A wrapped buffer wastes less than a full packet. -/
theorem Sound.room (h : Sound numPackets p ahead behind) (hfew : (ahead ++ behind).length < numPackets) :
    blocklen p.inputMtu < p.buf.free := by
  have hroomy := h.buf.roomy
  have hmtu := h.mtu
  have hsize := h.size
  rcases h.buf.shape with ⟨_, _, _, _, _, hfree⟩ | ⟨_, hall, hend, hle, hfree, hwaste⟩
  · omega
  · have hused := all_length_le h.small
    rw [Chunk.all_append, List.length_append] at hused
    have hone : (1 + blocklen p.inputMtu) * ((ahead ++ behind).length + 1) ≤ (1 + blocklen p.inputMtu) * numPackets :=
      Nat.mul_le_mul_left _ hfew
    rw [Nat.mul_succ] at hone hsize
    omega

/-! ## The handlers -/

/-- The input is asked for a packet when there is room and it does not receive. -/
theorem receiverRecv_eq (hbuf : p.buf.Sound ahead behind) (hidle : p.receiving = none)
    (hroom : blocklen p.inputMtu < p.buf.free) : p.receiverRecv = some { p with receiving := some (p.buf.endBlock + 1) } := by
  unfold receiverRecv
  rw [if_neg (not_not_intro hidle), hbuf.inputDest_eq (by omega), Option.map_some]

/-- An idle input is asked for a packet exactly when there is room. -/
theorem receiverRecv_fits (hbuf : p.buf.Sound ahead behind) (hidle : p.receiving = none) :
    (if (p.inputMtu : Int) ≤ p.buf.inputAvail then p.receiverRecv else some p) =
      some { p with receiving := if blocklen p.inputMtu < p.buf.free then some (p.buf.endBlock + 1) else none } := by
  by_cases hroom : blocklen p.inputMtu < p.buf.free
  · rw [if_pos (hbuf.avail_iff.mpr hroom), if_pos hroom]
    exact receiverRecv_eq hbuf hidle hroom
  · rw [if_neg fun hle => hroom (hbuf.avail_iff.mp hle), if_neg hroom, ← hidle]

/-- The output is given the first packet when it does not send. -/
theorem senderSend_eq (hbuf : p.buf.Sound ahead behind) (hidle : p.sending = none) {c : Chunk} {rest : List Chunk}
    (hq : ahead ++ behind = c :: rest) : p.senderSend = some { p with sending := some (p.buf.start + 1, (c.len : Int)) } := by
  obtain ⟨hdest, havail⟩ := hbuf.output_cons hq
  unfold senderSend
  rw [if_neg, hdest, havail, Option.map_some]
  rintro (hn | hn)
  · exact hn hidle
  · omega

/-- Writing into the place that was offered keeps the packets already there. -/
theorem Sound.write (h : Sound numPackets p ahead behind) {i : Nat} {w : UInt32} (hc : p.Calls (.write i w)) :
    ∃ p', p.handle (.write i w) = some p' ∧ Sound numPackets p' ahead behind := by
  obtain ⟨hne, hi⟩ := hc
  have hroom : blocklen p.inputMtu < p.buf.free := by
    by_contra hnot
    rw [h.receiving, if_neg hnot] at hne
    exact hne rfl
  have hrecv := h.receiving
  rw [if_pos hroom] at hrecv
  have hend := h.buf.end_free
  have hset := h.buf.set (show p.buf.endBlock < p.buf.endBlock + 1 + i by omega) (by omega) w
  have hsize := h.buf.size
  refine ⟨{ p with buf := { p.buf with buffer := p.buf.buffer.set (p.buf.endBlock + 1 + i) w } }, ?_, ?_⟩
  · show p.receiving.bind _ = _
    rw [hrecv, Option.bind_some, if_neg (by omega)]
  · exact ⟨hset, h.bound, h.mtu, h.size, h.small, h.passed, h.receiving, h.sending⟩

/-- A packet came in. -/
theorem Sound.inputDone (h : Sound numPackets p ahead behind) {inLen : Nat} (hc : p.Calls (.inputDone inLen)) :
    ∃ p' ahead' behind', p.handle (.inputDone inLen) = some p' ∧ Sound numPackets p' ahead' behind' := by
  obtain ⟨hne, hle⟩ := hc
  have hroom : blocklen p.inputMtu < p.buf.free := by
    by_contra hnot
    rw [h.receiving, if_neg hnot] at hne
    exact hne rfl
  have hrecv := h.receiving
  rw [if_pos hroom] at hrecv
  have hblocks : blocklen inLen ≤ blocklen p.inputMtu :=
    blocklen_le_iff.mpr (Nat.le_trans hle (blocklen_le_iff.mp (Nat.le_refl _)))
  obtain ⟨buf, ahead', behind', hsubmit, hb, hbuf, hqueue, hstart, hsize, hmtu⟩ :=
    h.buf.submitPacket (Nat.le_trans hle h.bound) (Nat.lt_of_le_of_lt hblocks hroom)
  generalize hc : Chunk.written p.buf.buffer (p.buf.endBlock + 1) inLen (Nat.le_trans hle h.bound) hsubmit = c at hqueue
  have hbytes : readBytes p.buf.buffer (p.buf.endBlock + 1) inLen = c.bytes := by
    rw [← hc]
    rfl
  have hclen : c.len = inLen := by rw [← hc]; rfl
  have hempty : p.buf.outputAvail < 0 ↔ ahead ++ behind = [] := by
    cases hq : ahead ++ behind with
    | nil => simp [(h.buf.output_nil hq).2]
    | cons d rest => simp [(h.buf.output_cons hq).2]
  show ∃ p' ahead' behind', p.inputHandlerDone inLen = some p' ∧ Sound numPackets p' ahead' behind'
  unfold inputHandlerDone
  dsimp only
  rw [if_neg (Nat.not_lt.mpr hle), hrecv, Option.bind_some, hb, Option.bind_some]
  have hnext := @receiverRecv_fits { p with
    buf := buf, receiving := none, received := p.received ++ [readBytes p.buf.buffer (p.buf.endBlock + 1) inLen] } _ _ hbuf rfl
  dsimp only at hnext
  rw [hnext, Option.bind_some]
  have hpassed : p.received ++ [readBytes p.buf.buffer (p.buf.endBlock + 1) inLen] =
      p.sent ++ (ahead' ++ behind').map Chunk.bytes := by
    rw [hqueue, List.map_append, ← List.append_assoc, ← h.passed, hbytes]
    rfl
  have hsmall : ∀ d ∈ ahead' ++ behind', d.len ≤ p.inputMtu := by
    intro d hd
    rw [hqueue, List.mem_append] at hd
    rcases hd with hd | hd
    · exact h.small d hd
    · rw [List.mem_singleton] at hd
      rw [hd, hclen]
      exact hle
  by_cases hq : ahead ++ behind = []
  · -- the packet is the first, and goes out at once
    have hq' : ahead' ++ behind' = c :: [] := by rw [hqueue, hq]; rfl
    have hidle : p.sending = none := by rw [h.sending, hq]; rfl
    rw [if_pos (hempty.mpr hq)]
    refine ⟨_, ahead', behind', senderSend_eq ?_ ?_ hq', ?_⟩
    · exact hbuf
    · exact hidle
    · exact ⟨hbuf, h.bound, hmtu.trans h.mtu, hsize.trans h.size, hsmall, hpassed, rfl, by rw [hq']; rfl⟩
  · rw [if_neg fun hn => hq (hempty.mp hn)]
    obtain ⟨d, rest, hd⟩ := List.exists_cons_of_ne_nil hq
    have hsending : p.sending = (ahead' ++ behind').head?.map fun c => (buf.start + 1, (c.len : Int)) := by
      rw [h.sending, hqueue, hd, hstart]
      rfl
    exact ⟨_, ahead', behind', rfl,
      hbuf, h.bound, hmtu.trans h.mtu, hsize.trans h.size, hsmall, hpassed, rfl, hsending⟩

/-- A packet went out. -/
theorem Sound.outputDone (h : Sound numPackets p ahead behind) (hc : p.Calls .outputDone) :
    ∃ p' ahead' behind', p.handle .outputDone = some p' ∧ Sound numPackets p' ahead' behind' := by
  obtain ⟨c, rest, hq⟩ : ∃ c rest, ahead ++ behind = c :: rest := by
    refine List.exists_cons_of_ne_nil fun hnil => ?_
    have hidle := h.sending
    rw [hnil] at hidle
    exact hc hidle
  have hsend : p.sending = some (p.buf.start + 1, (c.len : Int)) := by rw [h.sending, hq]; rfl
  obtain ⟨buf, ahead', behind', hconsume, hbuf, hqueue, hsame, hend, hmore, hsize, hmtu⟩ := h.buf.consumePacket hq
  have hbytes : readBytes p.buf.buffer (p.buf.start + 1) c.len = c.bytes := h.buf.readBytes_cons hq
  show ∃ p' ahead' behind', p.outputHandlerDone = some p' ∧ Sound numPackets p' ahead' behind'
  unfold outputHandlerDone
  rw [hsend, Option.bind_some]
  dsimp only
  rw [hconsume, Option.bind_some, Int.toNat_natCast]
  -- an input that had to wait is asked again
  have hnext : (if p.buf.inputAvail < (p.inputMtu : Int) ∧ (p.inputMtu : Int) ≤ buf.inputAvail then
        receiverRecv { p with
          buf := buf, sending := none, sent := p.sent ++ [readBytes p.buf.buffer (p.buf.start + 1) c.len] }
      else
        some { p with
          buf := buf, sending := none, sent := p.sent ++ [readBytes p.buf.buffer (p.buf.start + 1) c.len] }) =
      some { p with
        buf := buf, receiving := if blocklen p.inputMtu < buf.free then some (buf.endBlock + 1) else none, sending := none,
        sent := p.sent ++ [readBytes p.buf.buffer (p.buf.start + 1) c.len] } := by
    by_cases hfull : blocklen p.inputMtu < p.buf.free
    · have hrecv := h.receiving
      rw [if_pos hfull] at hrecv
      rw [if_neg fun hn => absurd (h.buf.avail_iff.mpr hfull) (Int.not_le.mpr hn.1), if_pos (Nat.lt_of_lt_of_le hfull hmore),
        hend, ← hrecv]
    · have hidle := h.receiving
      rw [if_neg hfull] at hidle
      have hwas : p.buf.inputAvail < (p.inputMtu : Int) := Int.not_le.mp fun hle => hfull (h.buf.avail_iff.mp hle)
      simp only [hwas, true_and]
      exact @receiverRecv_fits { p with
        buf := buf, sending := none, sent := p.sent ++ [readBytes p.buf.buffer (p.buf.start + 1) c.len] } _ _ hbuf hidle
  rw [hnext, Option.bind_some]
  have hpassed : p.received = (p.sent ++ [readBytes p.buf.buffer (p.buf.start + 1) c.len]) ++
      (ahead' ++ behind').map Chunk.bytes := by
    rw [hbytes, hqueue, h.passed, hq, List.map_cons, List.append_assoc]
    rfl
  have hsmall : ∀ d ∈ ahead' ++ behind', d.len ≤ p.inputMtu := by
    intro d hd
    rw [hqueue] at hd
    exact h.small d (hq ▸ List.mem_cons_of_mem c hd)
  cases hq' : ahead' ++ behind' with
  | nil =>
    have havail := (hbuf.output_nil hq').2
    rw [if_neg (show ¬ 0 ≤ buf.outputAvail by omega)]
    exact ⟨_, ahead', behind', rfl,
      hbuf, h.bound, hmtu.trans h.mtu, hsize.trans h.size, hsmall, hpassed, rfl, by rw [hq']; rfl⟩
  | cons d more =>
    have havail := (hbuf.output_cons hq').2
    rw [if_pos (show 0 ≤ buf.outputAvail by omega)]
    refine ⟨_, ahead', behind', senderSend_eq ?_ ?_ hq', ?_⟩
    · exact hbuf
    · rfl
    · exact ⟨hbuf, h.bound, hmtu.trans h.mtu, hsize.trans h.size, hsmall, hpassed, rfl, by rw [hq']; rfl⟩

/-! ## Whole runs -/

/-- What is allocated is within the range of an `int`, so the computation of it does not fail. -/
theorem calcBlocks_eq {chunkLen num : Nat} (h : (1 + blocklen chunkLen) * (num + 1) ≤ intMax) :
    ChunkBuffer2.calcBlocks chunkLen num = some ((1 + blocklen chunkLen) * (num + 1)) := by
  have hdiv : 1 + blocklen chunkLen ≤ intMax / (num + 1) := (Nat.le_div_iff_mul_le (Nat.succ_pos num)).mpr h
  have hchunk : 1 + blocklen chunkLen ≤ intMax := Nat.le_trans (Nat.le_mul_of_pos_right _ (Nat.succ_pos num)) h
  have hnum : num + 1 ≤ intMax := Nat.le_trans (Nat.le_mul_of_pos_left _ (by omega)) h
  unfold ChunkBuffer2.calcBlocks
  rw [if_neg (by omega), if_neg (by omega), if_neg (by omega)]

/-- An empty buffer of the size the source allocates is sound. -/
theorem init_sound {inputMtu : Nat} (hbound : (1 + blocklen inputMtu) * (numPackets + 1) * blockSize ≤ intMax)
    {buffer : List UInt32} (hlength : buffer.length = (1 + blocklen inputMtu) * (numPackets + 1)) :
    ∃ p, init buffer inputMtu numPackets = some p ∧ p.inputMtu = inputMtu ∧ Sound numPackets p [] [] := by
  have hle : 1 + blocklen inputMtu ≤ (1 + blocklen inputMtu) * (numPackets + 1) :=
    Nat.le_mul_of_pos_right _ (Nat.succ_pos _)
  have hfit : inputMtu ≤ blocklen inputMtu * blockSize := blocklen_le_iff.mp (Nat.le_refl _)
  have hmtu : inputMtu ≤ intMax := by
    unfold blockSize at hfit hbound
    omega
  have hcalc := calcBlocks_eq (Nat.le_trans (Nat.le_mul_of_pos_right _ (by decide : 0 < blockSize)) hbound)
  obtain ⟨buf, hbuf, hs, hsize, hbmtu⟩ := ChunkBuffer2.init_sound hlength hbound hle
  have hroomy := hs.roomy
  have hroom : blocklen inputMtu < buf.free := by
    rcases hs.shape with ⟨_, _, _, _, _, hfree⟩ | ⟨_, heq, _⟩
    · omega
    · have hstart := hs.start
      simp only [Chunk.all_nil, List.length_nil] at heq
      omega
  refine ⟨⟨buf, inputMtu, some (buf.endBlock + 1), none, [], []⟩, ?_, rfl, ?_⟩
  · unfold init
    rw [hcalc, Option.bind_some, hbuf, Option.bind_some]
    exact receiverRecv_eq (by exact hs) rfl (by exact hroom)
  · exact ⟨hs, hmtu, hbmtu, hsize, fun c hc => by simp at hc, rfl, (if_pos hroom).symm, rfl⟩

/-- Every call the environment may make succeeds and keeps the packets in order. -/
theorem Sound.handle (h : Sound numPackets p ahead behind) {a : Call} (hc : p.Calls a) :
    ∃ p' ahead' behind', p.handle a = some p' ∧ Sound numPackets p' ahead' behind' := by
  cases a with
  | write i w =>
    obtain ⟨p', hp', hs⟩ := h.write hc
    exact ⟨p', ahead, behind, hp', hs⟩
  | inputDone inLen => exact h.inputDone hc
  | outputDone => exact h.outputDone hc

/-- The buffer is sound with some packets. -/
def Correct (numPackets : Nat) (p : PacketBuffer) : Prop := ∃ ahead behind, Sound numPackets p ahead behind

/-- The invariant of every reachable buffer. -/
theorem reachable_sound {inputMtu : Nat} (hbound : (1 + blocklen inputMtu) * (numPackets + 1) * blockSize ≤ intMax)
    (h : Reachable (system inputMtu numPackets) p) : Correct numPackets p := by
  have hcalc := calcBlocks_eq (Nat.le_trans (Nat.le_mul_of_pos_right _ (by decide : 0 < blockSize)) hbound)
  refine h.invariant (fun q hq => ?_) fun q a q' hq _ hstep => ?_
  · obtain ⟨buffer, ⟨numBlocks, hblocks, hlength⟩, hinit⟩ := hq
    rw [hcalc] at hblocks
    obtain rfl := Option.some.inj hblocks
    obtain ⟨q', hq', _, hs⟩ := init_sound hbound hlength
    rw [hq'] at hinit
    obtain rfl := Option.some.inj hinit
    exact ⟨[], [], hs⟩
  · obtain ⟨ahead, behind, hs⟩ := hq
    have hstep : (if q.Calls a then q.handle a else none) = some q' := hstep
    split at hstep
    · rename_i hc
      obtain ⟨r, ahead', behind', hr, hsr⟩ := hs.handle hc
      rw [hr] at hstep
      obtain rfl := Option.some.inj hstep
      exact ⟨ahead', behind', hsr⟩
    · cases hstep

/-- A buffer for two packets of at most six bytes; two came in, and one went out. -/
def passing : List Call :=
  [.write 0 0x04030201, .write 1 0x0605, .inputDone 6, .write 0 0x07, .inputDone 1, .outputDone]

def ranTo (as : List Call) : Option PacketBuffer := (init (List.replicate 9 0) 6 2).bind fun p => exec (system 6 2) p as

theorem ranTo_reachable {as : List Call} (h : ranTo as = some p) : Reachable (system 6 2) p := by
  obtain ⟨q, hq, hrun⟩ := Option.bind_eq_some_iff.mp h
  exact exec_reaches as (.start ⟨List.replicate 9 0, ⟨9, by decide, rfl⟩, hq⟩) hrun

/-- **The buffer is a queue that holds at least `num_packets`.** The packets received are those sent and
those still held, in order; the first of them is what the output was given, byte for byte; and the
input receives unless `num_packets` are held. -/
theorem packetBuffer_fifo {inputMtu : Nat} (hbound : (1 + blocklen inputMtu) * (numPackets + 1) * blockSize ≤ intMax)
    (h : Reachable (system inputMtu numPackets) p) :
    ∃ queued, p.received = p.sent ++ queued ∧ (queued.length < numPackets → p.receiving ≠ none) ∧
      match queued with
      | [] => p.sending = none
      | first :: _ => ∃ dest, p.sending = some (dest, (first.length : Int)) ∧ readBytes p.buf.buffer dest first.length = first := by
  obtain ⟨ahead, behind, hs⟩ := reachable_sound hbound h
  refine ⟨(ahead ++ behind).map Chunk.bytes, hs.passed, fun hfew => ?_, ?_⟩
  · rw [List.length_map] at hfew
    rw [hs.receiving, if_pos (hs.room hfew)]
    exact Option.some_ne_none _
  · cases hq : ahead ++ behind with
    | nil =>
      rw [List.map_nil]
      show p.sending = none
      rw [hs.sending, hq]
      rfl
    | cons c rest =>
      have hlen : c.bytes.length = c.len := c.bytes_length
      rw [List.map_cons]
      refine ⟨p.buf.start + 1, ?_, ?_⟩
      · rw [hs.sending, hq, hlen]
        rfl
      · rw [hlen]
        exact hs.buf.readBytes_cons hq

theorem packetBuffer_fifo_passing : ∃ p, ranTo passing = some p ∧
    ∃ queued, p.received = p.sent ++ queued ∧ (queued.length < 2 → p.receiving ≠ none) ∧
      match queued with
      | [] => p.sending = none
      | first :: _ =>
        ∃ dest, p.sending = some (dest, (first.length : Int)) ∧ readBytes p.buf.buffer dest first.length = first := by
  have hrun : (ranTo passing).isSome = true := by decide
  obtain ⟨p, hp⟩ := Option.isSome_iff_exists.mp hrun
  exact ⟨p, hp, packetBuffer_fifo (by decide) (ranTo_reachable hp)⟩

/-- **No handler faults**: no assertion of the buffer or of the interfaces fails, no block outside the
array is read or written, and no interface is asked while it is busy, in whatever order they finish. -/
theorem packetBuffer_total {inputMtu : Nat} (hbound : (1 + blocklen inputMtu) * (numPackets + 1) * blockSize ≤ intMax)
    (h : Reachable (system inputMtu numPackets) p) {a : Call} (hc : p.Calls a) : ∃ p', p.handle a = some p' := by
  obtain ⟨ahead, behind, hs⟩ := reachable_sound hbound h
  obtain ⟨p', _, _, hp', _⟩ := hs.handle hc
  exact ⟨p', hp'⟩

theorem packetBuffer_total_passing : ∃ p, ranTo passing = some p ∧ ∃ p', p.handle .outputDone = some p' := by
  have hrun : ((ranTo passing).map fun p => decide (p.Calls .outputDone)) = some true := by decide
  obtain ⟨p, hp, hc⟩ := Option.map_eq_some_iff.mp hrun
  exact ⟨p, hp, packetBuffer_total (by decide) (ranTo_reachable hp) (of_decide_eq_true hc)⟩

end PacketBuffer
end KiloProxy.Engine
