import KiloProxy.Engine.ChunkBuffer

/-!
# The circular buffer is a queue

The packets held lie in two runs: `ahead` from `start` on and, once the data is wrapped,
`behind` from the front of the array on. A wrapped buffer wastes less than a full packet,
and every packet begins where a full one would have fitted; so the place for the next
packet never becomes one where a full packet can no longer be written.
-/

namespace KiloProxy.Engine.ChunkBuffer2
set_option autoImplicit false
open KiloProxy.Store Chunk

/-- The blocks of the array hold these packets. -/
structure Holds (b : ChunkBuffer2) (ahead behind : List Chunk) : Prop where
  size : b.buffer.length = b.size
  bound : b.size * blockSize ≤ intMax
  start : b.start < b.wrap
  wrap : b.wrap ≤ b.size
  front : Segment b.buffer b.start (all ahead)
  back : Segment b.buffer 0 (all behind)
  used : b.used = (all ahead).length + (all behind).length
  place : b.start + (all ahead).length < b.wrap ∧ behind = [] ∧ b.wrap = b.size ∨
    b.start + (all ahead).length = b.wrap ∧ (all behind).length ≤ b.start ∧ b.size < b.wrap + 1 + b.mtu
  roomy : b.endBlock + 1 + b.mtu ≤ b.size
  lastFits : ∀ cs c, ahead = cs ++ [c] → b.start + (all cs).length + 1 + b.mtu ≤ b.size

/-- The invariant of the operations. -/
structure Sound (b : ChunkBuffer2) (ahead behind : List Chunk) : Prop extends Holds b ahead behind where
  io : b.AssertIo

variable {b : ChunkBuffer2} {ahead behind : List Chunk}

theorem endBlock_wrapped (h : b.Wrapped) : b.endBlock = b.used - (b.wrap - b.start) := if_pos h

theorem endBlock_straight (h : ¬ b.Wrapped) : b.endBlock = b.start + b.used := if_neg h

namespace Holds

/-- The two shapes, with the end of the data and the free blocks behind it. -/
theorem shape (h : Holds b ahead behind) :
    ¬ b.Wrapped ∧ behind = [] ∧ b.wrap = b.size ∧ b.endBlock = b.start + (all ahead).length ∧
        b.endBlock < b.size ∧ b.free = b.size - b.endBlock ∨
      b.Wrapped ∧ b.start + (all ahead).length = b.wrap ∧ b.endBlock = (all behind).length ∧
        b.endBlock ≤ b.start ∧ b.free = b.start - b.endBlock ∧ b.size < b.wrap + 1 + b.mtu := by
  have hused := h.used
  have hstart := h.start
  rcases h.place with ⟨hlt, hbehind, hwrap⟩ | ⟨heq, hle, hwaste⟩
  · have hnil : (all behind).length = 0 := by rw [hbehind]; rfl
    have hnot : ¬ b.Wrapped := by unfold Wrapped; omega
    have hend : b.endBlock = b.start + (all ahead).length := by
      unfold endBlock
      rw [if_neg hnot]
      omega
    exact .inl ⟨hnot, hbehind, hwrap, hend, by omega, if_neg hnot⟩
  · have hyes : b.Wrapped := by unfold Wrapped; omega
    have hend : b.endBlock = (all behind).length := by
      unfold endBlock
      rw [if_pos hyes]
      omega
    exact .inr ⟨hyes, heq, hend, by omega, if_pos hyes, hwaste⟩

/-- The assertion of the source on the fields holds of every buffer that holds packets. -/
theorem assertBuffer (h : Holds b ahead behind) : b.AssertBuffer := by
  have hused := h.used
  have hstart := h.start
  have hwrap := h.wrap
  rcases h.shape with ⟨_, hbehind, heq, hend, hlt, _⟩ | ⟨hyes, heq, hend, hle, _⟩
  · have hnil : (all behind).length = 0 := by rw [hbehind]; rfl
    exact ⟨by omega, by omega, hwrap, hstart, by omega, .inl heq⟩
  · exact ⟨by omega, by omega, hwrap, hstart, by omega, .inr hyes⟩

/-- The block behind the last packet is inside the buffer. -/
theorem end_lt (h : Holds b ahead behind) : b.endBlock < b.size := by
  have hroomy := h.roomy
  omega

/-- What counts as free behind the last packet is inside it too. -/
theorem end_free (h : Holds b ahead behind) : b.endBlock + b.free ≤ b.size := by
  have hstart := h.start
  have hwrap := h.wrap
  rcases h.shape with ⟨_, _, _, _, hlt, hfree⟩ | ⟨_, _, _, hle, hfree, _⟩
  · omega
  · omega

/-- The first packet is at `start`. -/
theorem ahead_of_cons (h : Holds b ahead behind) {c : Chunk} {rest : List Chunk} (hq : ahead ++ behind = c :: rest) :
    ∃ more, ahead = c :: more ∧ rest = more ++ behind := by
  cases ahead with
  | cons a as =>
    obtain ⟨rfl, hrest⟩ := List.cons.inj hq
    exact ⟨as, rfl, hrest.symm⟩
  | nil =>
    have hstart := h.start
    rcases h.place with ⟨_, hbehind, _⟩ | ⟨heq, _⟩
    · rw [hbehind] at hq
      cases hq
    · simp only [all_nil, List.length_nil] at heq
      omega

/-- Blocks are in use exactly while packets wait. -/
theorem used_pos_iff (h : Holds b ahead behind) : 0 < b.used ↔ ahead ++ behind ≠ [] := by
  have hlen : b.used = (all (ahead ++ behind)).length := by rw [all_append, List.length_append, h.used]
  rw [hlen]
  constructor
  · rintro hpos hnil
    rw [hnil] at hpos
    exact Nat.lt_irrefl 0 hpos
  · exact all_length_pos

/-! ## What the interfaces are told -/

/-- A full packet can be written there some day, so only the free blocks count. -/
theorem inputIo_eq (h : Holds b ahead behind) :
    b.inputIo = if 0 < b.free then (some (b.endBlock + 1), (((b.free - 1) * blockSize : Nat) : Int)) else (none, -1) := by
  unfold inputIo
  rw [if_neg (Nat.not_lt.mpr h.roomy)]

/-- An empty buffer offers no packet. -/
theorem outputIo_nil (h : Holds b ahead behind) (hq : ahead ++ behind = []) : b.outputIo = some (none, -1) := by
  unfold outputIo
  rw [if_neg fun hpos => h.used_pos_iff.mp hpos hq]

/-- The packet offered is the oldest one. -/
theorem outputIo_cons (h : Holds b ahead behind) {c : Chunk} {rest : List Chunk} (hq : ahead ++ behind = c :: rest) :
    b.outputIo = some (some (b.start + 1), (c.len : Int)) := by
  obtain ⟨more, hahead, _⟩ := h.ahead_of_cons hq
  have hlen : lenAt b.buffer b.start = some c.len := by
    have hfront := h.front
    rw [hahead, all_cons] at hfront
    exact lenAt_of_segment hfront
  have htotal : (all ahead).length = 1 + blocklen c.len + (all more).length := by
    rw [hahead, all_cons, List.length_append, words_length]
  have hused := h.used
  have hfits : b.start + (all ahead).length ≤ b.wrap := h.place.elim (fun hp => Nat.le_of_lt hp.1) fun hp => Nat.le_of_eq hp.1
  unfold outputIo
  rw [if_pos (h.used_pos_iff.mpr (by simp [hq])), hlen, Option.bind_some, if_pos (by omega)]

/-- After an update the offer to the writer is the one the fields call for. -/
theorem updateInput_io (h : Holds b ahead behind) :
    (b.updateInput.inputDest, b.updateInput.inputAvail) = b.updateInput.inputIo := by
  show (b.inputIo.1, if b.inputIo.1 = none then -1 else asInt b.inputIo.2.toNat) = b.inputIo
  rw [h.inputIo_eq]
  split
  · have hend := h.end_free
    have hbound := h.bound
    have hle : (b.free - 1) * blockSize ≤ intMax := by
      unfold blockSize at *
      omega
    rw [if_neg (Option.some_ne_none _), Int.toNat_natCast, asInt_of_lt hle]
  · rfl

/-- The interface fields stand aside. -/
theorem of_fields (h : Holds b ahead behind) (inputDest : Option Nat) (inputAvail : Int) (outputDest : Option Nat)
    (outputAvail : Int) :
    Holds { b with inputDest := inputDest, inputAvail := inputAvail, outputDest := outputDest, outputAvail := outputAvail }
      ahead behind :=
  ⟨h.size, h.bound, h.start, h.wrap, h.front, h.back, h.used, h.place, h.roomy, h.lastFits⟩

/-! ## Writing into the free blocks -/

/-- What lies in the free blocks may change. -/
theorem set (h : Holds b ahead behind) {i : Nat} (hlo : b.endBlock ≤ i) (hhi : i < b.endBlock + b.free) (w : UInt32) :
    Holds { b with buffer := b.buffer.set i w } ahead behind where
  size := by rw [← h.size, List.length_set]
  bound := h.bound
  start := h.start
  wrap := h.wrap
  front := by
    refine h.front.set ?_ w
    rcases h.shape with ⟨_, _, _, hend, _, _⟩ | ⟨_, _, _, _, hfree, _⟩
    · exact .inr (by omega)
    · exact .inl (by omega)
  back := by
    refine h.back.set (.inr ?_) w
    rcases h.shape with ⟨_, hbehind, _⟩ | ⟨_, _, hend, _⟩
    · rw [hbehind]
      exact Nat.zero_le i
    · omega
  used := h.used
  place := h.place
  roomy := h.roomy
  lastFits := h.lastFits

/-! ## A packet is submitted -/

/-- The header and the data behind it are the packet. -/
theorem segment_written (h : Holds b ahead behind) {len : Nat} (hlen : len ≤ intMax)
    (hroom : b.endBlock + 1 + blocklen len ≤ b.buffer.length) :
    Segment (b.buffer.set b.endBlock (UInt32.ofNat len)) b.endBlock
      (written b.buffer (b.endBlock + 1) len hlen hroom).words := by
  have hlt := h.end_lt
  rw [← h.size] at hlt
  exact Segment.cons_set hlt _ (Segment.take_drop _ _ _)

section Appended

variable {len : Nat} {c : Chunk}

/-- Behind the packets ahead, which ends the array when a full one no longer fits. -/
theorem appended_ahead (h : Holds b ahead []) (hset : Holds { b with buffer := b.buffer.set b.endBlock (UInt32.ofNat len) } ahead [])
    (hseg : Segment (b.buffer.set b.endBlock (UInt32.ofNat len)) b.endBlock c.words)
    (hwords : c.words.length = 1 + blocklen len) (hend : b.endBlock = b.start + (all ahead).length) (hfull : b.wrap = b.size)
    (hroom : b.endBlock + 1 + blocklen len ≤ b.size) : Holds (b.appended len) (ahead ++ [c]) [] := by
  have hused := h.used
  have hroomy := h.roomy
  have hnil : (all ([] : List Chunk)).length = 0 := rfl
  have hfront : Segment (b.buffer.set b.endBlock (UInt32.ofNat len)) b.start (all (ahead ++ [c])) := by
    rw [all_append, all_cons, all_nil, List.append_nil]
    refine hset.front.append ?_
    rw [← hend]
    exact hseg
  have htotal : (all (ahead ++ [c])).length = (all ahead).length + (1 + blocklen len) := by
    rw [all_append, all_cons, all_nil, List.append_nil, List.length_append, hwords]
  have hlast : ∀ cs d, ahead ++ [c] = cs ++ [d] → b.start + (all cs).length + 1 + b.mtu ≤ b.size := by
    intro cs d he
    obtain ⟨rfl, _⟩ := List.append_inj' he rfl
    omega
  have hstart := h.start
  unfold ChunkBuffer2.appended
  dsimp only
  split
  · rename_i hends
    exact {
      size := hset.size
      bound := h.bound
      start := by dsimp only; omega
      wrap := by dsimp only; omega
      front := hfront
      back := Segment.nil _ _
      used := by dsimp only; omega
      place := .inr ⟨by dsimp only; omega, Nat.zero_le _, by dsimp only; omega⟩
      roomy := by
        rw [endBlock_wrapped (by unfold Wrapped; dsimp only; omega)]
        dsimp only
        omega
      lastFits := hlast }
  · rename_i hmore
    exact {
      size := hset.size
      bound := h.bound
      start := hstart
      wrap := h.wrap
      front := hfront
      back := Segment.nil _ _
      used := by dsimp only; omega
      place := .inl ⟨by dsimp only; omega, rfl, hfull⟩
      roomy := by
        rw [endBlock_straight (by unfold Wrapped; dsimp only; omega)]
        dsimp only
        omega
      lastFits := hlast }

/-- Behind the packets at the front. -/
theorem appended_behind (h : Holds b ahead behind)
    (hset : Holds { b with buffer := b.buffer.set b.endBlock (UInt32.ofNat len) } ahead behind)
    (hseg : Segment (b.buffer.set b.endBlock (UInt32.ofNat len)) b.endBlock c.words)
    (hwords : c.words.length = 1 + blocklen len) (hall : b.start + (all ahead).length = b.wrap)
    (hend : b.endBlock = (all behind).length) (hroom : b.endBlock + 1 + blocklen len ≤ b.start)
    (hwaste : b.size < b.wrap + 1 + b.mtu) : Holds (b.appended len) ahead (behind ++ [c]) := by
  have hused := h.used
  have hstart := h.start
  have hback : Segment (b.buffer.set b.endBlock (UInt32.ofNat len)) 0 (all (behind ++ [c])) := by
    rw [all_append, all_cons, all_nil, List.append_nil]
    refine hset.back.append ?_
    rw [Nat.zero_add, ← hend]
    exact hseg
  have htotal : (all (behind ++ [c])).length = (all behind).length + (1 + blocklen len) := by
    rw [all_append, all_cons, all_nil, List.append_nil, List.length_append, hwords]
  have hfirst : b.start + 1 + b.mtu ≤ b.size := by
    rcases List.eq_nil_or_concat' ahead with hnil | ⟨cs, d, hlast⟩
    · rw [hnil, all_nil, List.length_nil] at hall
      omega
    · have hfit := h.lastFits cs d hlast
      omega
  unfold ChunkBuffer2.appended
  dsimp only
  rw [if_neg (by omega)]
  exact {
    size := hset.size
    bound := h.bound
    start := hstart
    wrap := h.wrap
    front := hset.front
    back := hback
    used := by dsimp only; omega
    place := .inr ⟨hall, by dsimp only; omega, hwaste⟩
    roomy := by
      rw [endBlock_wrapped (by unfold Wrapped; dsimp only; omega)]
      dsimp only
      omega
    lastFits := h.lastFits }

end Appended

/-- **The packet joins the queue.** -/
theorem appended (h : Holds b ahead behind) {len : Nat} (hlen : len ≤ intMax) (hfits : blocklen len + 1 ≤ b.free)
    (hroom : b.endBlock + 1 + blocklen len ≤ b.buffer.length) :
    ∃ ahead' behind', Holds (b.appended len) ahead' behind' ∧
      ahead' ++ behind' = ahead ++ behind ++ [written b.buffer (b.endBlock + 1) len hlen hroom] := by
  have hset := h.set (Nat.le_refl _) (by omega) (UInt32.ofNat len)
  have hseg := h.segment_written hlen hroom
  have hwords : (written b.buffer (b.endBlock + 1) len hlen hroom).words.length = 1 + blocklen len := words_length _
  rcases h.shape with ⟨-, rfl, hfull, hend, -, hfree⟩ | ⟨-, hall, hend, -, hfree, hwaste⟩
  · exact ⟨_, [], h.appended_ahead hset hseg hwords hend hfull (by omega), by simp⟩
  · exact ⟨ahead, _, h.appended_behind hset hseg hwords hall hend (by omega) hwaste, by rw [List.append_assoc]⟩

/-! ## The first packet is consumed -/

theorem advanced_on {len : Nat} (hmore : b.start + (1 + blocklen len) ≠ b.wrap) :
    b.advanced len = { b with start := b.start + (1 + blocklen len), used := b.used - (1 + blocklen len) } := if_neg hmore

theorem advanced_turn {len : Nat} (hlast : b.start + (1 + blocklen len) = b.wrap) :
    b.advanced len = { b with start := 0, wrap := b.size, used := b.used - (1 + blocklen len) } := if_pos hlast

/-- What a packet leaves that is consumed: the rest of the queue, the end of the data where it was, and no free block
less. -/
structure Consumed (b b' : ChunkBuffer2) (rest : List Chunk) : Prop where
  holds : ∃ ahead behind, Holds b' ahead behind ∧ ahead ++ behind = rest
  endBlock : b'.endBlock = b.endBlock
  free : b.free ≤ b'.free
  straight : ¬ b.Wrapped → b'.free = b.free

section Consumed

variable {c : Chunk} {more : List Chunk}

theorem length_cons (h : Holds b (c :: more) behind) :
    b.used = 1 + blocklen c.len + (all more).length + (all behind).length := by
  rw [h.used, all_cons, List.length_append, words_length]

/-- The packets behind the first one. -/
theorem front_cons (h : Holds b (c :: more) behind) : Segment b.buffer (b.start + (1 + blocklen c.len)) (all more) := by
  have hall := h.front
  rw [all_cons] at hall
  have hright := hall.right
  rwa [words_length] at hright

/-- When the first packet leaves, the last one still stands where a full packet fits. -/
theorem lastFits_cons (h : Holds b (c :: more) behind) :
    ∀ cs d, more = cs ++ [d] → b.start + (1 + blocklen c.len) + (all cs).length + 1 + b.mtu ≤ b.size := by
  rintro cs d rfl
  have hfit := h.lastFits (c :: cs) d rfl
  rw [all_cons, List.length_append, words_length] at hfit
  omega

/-- The data does not reach the end of the array. -/
theorem consumed_straight (h : Holds b (c :: more) []) (hnot : ¬ b.Wrapped) (hlt : b.endBlock < b.wrap)
    (hfull : b.wrap = b.size) : Consumed b (b.advanced c.len) more := by
  have hused := h.length_cons
  have hnil : (all ([] : List Chunk)).length = 0 := rfl
  have hend := endBlock_straight hnot
  rw [advanced_on (by omega)]
  have hnot' : ¬ Wrapped { b with start := b.start + (1 + blocklen c.len), used := b.used - (1 + blocklen c.len) } := by
    unfold Wrapped at hnot ⊢
    dsimp only
    omega
  have hend' : endBlock { b with start := b.start + (1 + blocklen c.len), used := b.used - (1 + blocklen c.len) } =
      b.endBlock := by
    rw [endBlock_straight hnot', hend]
    dsimp only
    omega
  have hfree' : free { b with start := b.start + (1 + blocklen c.len), used := b.used - (1 + blocklen c.len) } = b.free := by
    unfold ChunkBuffer2.free
    rw [if_neg hnot', if_neg hnot, hend']
  exact {
    holds := ⟨more, [], {
      size := h.size
      bound := h.bound
      start := by dsimp only; omega
      wrap := h.wrap
      front := h.front_cons
      back := h.back
      used := by dsimp only; omega
      place := .inl ⟨by dsimp only; omega, rfl, hfull⟩
      roomy := by rw [hend']; exact h.roomy
      lastFits := h.lastFits_cons }, List.append_nil _⟩
    endBlock := hend'
    free := Nat.le_of_eq hfree'.symm
    straight := fun _ => hfree' }

/-- The packet is the last one ahead: those at the front are ahead now. -/
theorem consumed_turn (h : Holds b [c] behind) (hyes : b.Wrapped) (hlast : b.start + (1 + blocklen c.len) = b.wrap)
    (hle : b.endBlock ≤ b.start) : Consumed b (b.advanced c.len) behind := by
  have hused := h.length_cons
  have hnil : (all ([] : List Chunk)).length = 0 := rfl
  have hend := endBlock_wrapped hyes
  have hstart := h.start
  have hwrap := h.wrap
  have hroomy := h.roomy
  rw [advanced_turn hlast]
  have hnot' : ¬ Wrapped { b with start := 0, wrap := b.size, used := b.used - (1 + blocklen c.len) } := by
    unfold Wrapped
    dsimp only
    omega
  have hend' : endBlock { b with start := 0, wrap := b.size, used := b.used - (1 + blocklen c.len) } = b.endBlock := by
    rw [endBlock_straight hnot', hend]
    dsimp only
    omega
  have hfree : b.free = b.start - b.endBlock := if_pos hyes
  exact {
    holds := ⟨behind, [], {
      size := h.size
      bound := h.bound
      start := by dsimp only; omega
      wrap := Nat.le_refl _
      front := h.back
      back := Segment.nil _ _
      used := by dsimp only; omega
      place := .inl ⟨by dsimp only; omega, rfl, rfl⟩
      roomy := by rw [hend']; exact hroomy
      lastFits := by
        rintro cs d rfl
        have hsum : (all (cs ++ [d])).length = (all cs).length + (all [d]).length := by
          rw [all_append, List.length_append]
        dsimp only
        omega }, List.append_nil _⟩
    endBlock := hend'
    free := by
      unfold ChunkBuffer2.free at hfree ⊢
      rw [if_neg hnot', hend', hfree]
      dsimp only
      omega
    straight := fun hn => absurd hyes hn }

/-- There are more packets ahead, and others at the front. -/
theorem consumed_wrapped (h : Holds b (c :: more) behind) (hyes : b.Wrapped)
    (hall : b.start + (all (c :: more)).length = b.wrap) (hmore : b.start + (1 + blocklen c.len) ≠ b.wrap)
    (hend : b.endBlock = (all behind).length) (hle : b.endBlock ≤ b.start) (hwaste : b.size < b.wrap + 1 + b.mtu) :
    Consumed b (b.advanced c.len) (more ++ behind) := by
  have hused := h.length_cons
  have hwrapped := endBlock_wrapped hyes
  rw [all_cons, List.length_append, words_length] at hall
  rw [advanced_on hmore]
  have hyes' : Wrapped { b with start := b.start + (1 + blocklen c.len), used := b.used - (1 + blocklen c.len) } := by
    unfold Wrapped
    dsimp only
    omega
  have hend' : endBlock { b with start := b.start + (1 + blocklen c.len), used := b.used - (1 + blocklen c.len) } =
      b.endBlock := by
    rw [endBlock_wrapped hyes', hwrapped]
    dsimp only
    omega
  exact {
    holds := ⟨more, behind, {
      size := h.size
      bound := h.bound
      start := by dsimp only; omega
      wrap := h.wrap
      front := h.front_cons
      back := h.back
      used := by dsimp only; omega
      place := .inr ⟨by dsimp only; omega, by dsimp only; omega, hwaste⟩
      roomy := by rw [hend']; exact h.roomy
      lastFits := h.lastFits_cons }, rfl⟩
    endBlock := hend'
    free := by
      unfold ChunkBuffer2.free
      rw [if_pos hyes', if_pos hyes, hend']
      dsimp only
      omega
    straight := fun hn => absurd hyes hn }

end Consumed

/-- **The packet leaves the queue**; the end of the data stays where it is, and no free block is lost. -/
theorem advanced (h : Holds b ahead behind) {c : Chunk} {rest : List Chunk} (hq : ahead ++ behind = c :: rest) :
    Consumed b (b.advanced c.len) rest := by
  obtain ⟨more, rfl, rfl⟩ := h.ahead_of_cons hq
  rcases h.shape with ⟨hnot, rfl, hfull, -, hlt, -⟩ | ⟨hyes, hall, hend, hle, -, hwaste⟩
  · rw [List.append_nil]
    exact h.consumed_straight hnot (hfull ▸ hlt) hfull
  · by_cases hlast : b.start + (1 + blocklen c.len) = b.wrap
    · have hmore : more = [] := by
        by_contra hne
        have hpos := all_length_pos hne
        rw [all_cons, List.length_append, words_length] at hall
        omega
      subst hmore
      exact h.consumed_turn hyes hlast hle
    · exact h.consumed_wrapped hyes hall hlast hend hle hwaste

end Holds

/-- What an appended packet leaves as it was. -/
theorem appended_frame (b : ChunkBuffer2) (len : Nat) :
    (b.appended len).start = b.start ∧ (b.appended len).size = b.size ∧ (b.appended len).mtu = b.mtu ∧
      (b.appended len).used = b.used + (1 + blocklen len) ∧ (b.appended len).outputDest = b.outputDest ∧
      (b.appended len).outputAvail = b.outputAvail := by
  unfold ChunkBuffer2.appended
  dsimp only
  split <;> exact ⟨rfl, rfl, rfl, rfl, rfl, rfl⟩

/-- What a consumed packet leaves as it was. -/
theorem advanced_frame (b : ChunkBuffer2) (len : Nat) :
    (b.advanced len).buffer = b.buffer ∧ (b.advanced len).size = b.size ∧ (b.advanced len).mtu = b.mtu ∧
      (b.advanced len).inputDest = b.inputDest ∧ (b.advanced len).inputAvail = b.inputAvail := by
  unfold ChunkBuffer2.advanced
  dsimp only
  split <;> exact ⟨rfl, rfl, rfl, rfl, rfl⟩

theorem checked_eq (h : b.AssertIo) : b.checked = some b := if_pos h

@[simp] theorem updateInput_start (b : ChunkBuffer2) : b.updateInput.start = b.start := rfl

@[simp] theorem updateInput_used (b : ChunkBuffer2) : b.updateInput.used = b.used := rfl

@[simp] theorem updateInput_size (b : ChunkBuffer2) : b.updateInput.size = b.size := rfl

@[simp] theorem updateInput_mtu (b : ChunkBuffer2) : b.updateInput.mtu = b.mtu := rfl

@[simp] theorem updateInput_buffer (b : ChunkBuffer2) : b.updateInput.buffer = b.buffer := rfl

theorem updateInput_endBlock (b : ChunkBuffer2) : b.updateInput.endBlock = b.endBlock := rfl

theorem updateInput_free (b : ChunkBuffer2) : b.updateInput.free = b.free := rfl

@[simp] theorem updateInput_outputDest (b : ChunkBuffer2) : b.updateInput.outputDest = b.outputDest := rfl

@[simp] theorem updateInput_outputAvail (b : ChunkBuffer2) : b.updateInput.outputAvail = b.outputAvail := rfl

namespace Holds

theorem updateInput (h : Holds b ahead behind) : Holds b.updateInput ahead behind := h.of_fields _ _ _ _

/-! ## The interfaces are told again -/

/-- With the input fields right, the output fields are put right. -/
theorem checked_output (h : Holds b ahead behind) (hinput : (b.inputDest, b.inputAvail) = b.inputIo) :
    ∃ b', b.updateOutput.bind checked = some b' ∧ Sound b' ahead behind ∧ b'.buffer = b.buffer ∧
      b'.endBlock = b.endBlock ∧ b'.free = b.free ∧ b'.start = b.start ∧ b'.size = b.size ∧ b'.mtu = b.mtu := by
  obtain ⟨⟨dest, avail⟩, hio⟩ : ∃ io, b.outputIo = some io := by
    cases hq : ahead ++ behind with
    | nil => exact ⟨_, h.outputIo_nil hq⟩
    | cons c rest => exact ⟨_, h.outputIo_cons hq⟩
  have hsound : Sound { b with outputDest := dest, outputAvail := avail } ahead behind :=
    ⟨h.of_fields _ _ dest avail, hinput, hio.symm⟩
  refine ⟨_, ?_, hsound, rfl, rfl, rfl, rfl, rfl, rfl⟩
  unfold updateOutput
  rw [hio, Option.map_some, Option.bind_some]
  exact checked_eq hsound.io

end Holds

namespace Sound

/-- What may be written is what is free. -/
theorem avail_iff (h : Sound b ahead behind) {len : Nat} : (len : Int) ≤ b.inputAvail ↔ blocklen len < b.free := by
  have hio := congrArg Prod.snd h.io.1
  rw [h.inputIo_eq] at hio
  dsimp only at hio
  by_cases hfree : 0 < b.free
  · rw [if_pos hfree] at hio
    rw [hio, Int.ofNat_le, ← blocklen_le_iff]
    omega
  · rw [if_neg hfree] at hio
    constructor
    · intro hle
      omega
    · intro hlt
      omega

/-- The writer is offered the place behind the last packet while there is room. -/
theorem inputDest_eq (h : Sound b ahead behind) (hfree : 0 < b.free) : b.inputDest = some (b.endBlock + 1) := by
  have hio := congrArg Prod.fst h.io.1
  rw [h.inputIo_eq, if_pos hfree] at hio
  exact hio

/-- Nothing is offered to the reader of an empty buffer. -/
theorem output_nil (h : Sound b ahead behind) (hq : ahead ++ behind = []) :
    b.outputDest = none ∧ b.outputAvail = -1 := by
  have hio := h.io.2
  rw [h.outputIo_nil hq] at hio
  exact Prod.mk.inj (Option.some.inj hio)

/-- The reader is offered the bytes of the oldest packet. -/
theorem output_cons (h : Sound b ahead behind) {c : Chunk} {rest : List Chunk} (hq : ahead ++ behind = c :: rest) :
    b.outputDest = some (b.start + 1) ∧ b.outputAvail = c.len := by
  have hio := h.io.2
  rw [h.outputIo_cons hq] at hio
  exact Prod.mk.inj (Option.some.inj hio)

/-- What is read where the output points is the first packet. -/
theorem readBytes_cons (h : Sound b ahead behind) {c : Chunk} {rest : List Chunk} (hq : ahead ++ behind = c :: rest) :
    readBytes b.buffer (b.start + 1) c.len = c.bytes := by
  obtain ⟨more, rfl, _⟩ := h.ahead_of_cons hq
  have hfront := h.front
  rw [all_cons] at hfront
  exact readBytes_of_segment hfront

/-- **A packet is submitted**: the bytes that were written where the input points join the queue. -/
theorem submitPacket (h : Sound b ahead behind) {len : Nat} (hlen : len ≤ intMax) (hfits : blocklen len < b.free) :
    ∃ b' ahead' behind' hroom, b.submitPacket len = some b' ∧ Sound b' ahead' behind' ∧
      ahead' ++ behind' = ahead ++ behind ++ [written b.buffer (b.endBlock + 1) len hlen hroom] ∧
      b'.start = b.start ∧ b'.size = b.size ∧ b'.mtu = b.mtu := by
  have hend := h.end_free
  have hroom : b.endBlock + 1 + blocklen len ≤ b.buffer.length := by
    rw [h.size]
    omega
  obtain ⟨ahead', behind', hnext, hqueue⟩ := h.appended hlen (by omega) hroom
  obtain ⟨hstart, hsize, hmtu, hused, hdest', havail'⟩ := appended_frame b len
  have hinput := hnext.updateInput_io
  have hupdated := hnext.updateInput
  unfold ChunkBuffer2.submitPacket
  rw [if_neg]
  swap
  · rintro (hc | hc | hc | hc | hc | ⟨hc, hlt⟩ | hc)
    · rw [h.inputDest_eq (by omega)] at hc
      cases hc
    · exact absurd (h.avail_iff.mpr hfits) (Int.not_le.mpr hc)
    · exact hc h.assertBuffer
    · exact hc h.io
    · omega
    · rcases h.shape with ⟨hnot, _⟩ | ⟨_, _, _, hle, hfree, _⟩
      · exact hnot hc
      · omega
    · omega
  dsimp only
  rw [if_neg (not_not_intro hnext.assertBuffer)]
  by_cases hempty : ahead ++ behind = []
  · have hzero : b.used = 0 := by
      by_contra hpos
      exact h.used_pos_iff.mp (Nat.pos_of_ne_zero hpos) hempty
    have hone : (b.appended len).updateInput.used = 1 + blocklen len := by
      rw [updateInput_used]
      omega
    obtain ⟨b', hchecked, hsound, _, _, _, hs, hsz, hm⟩ := hupdated.checked_output hinput
    rw [if_pos hone, hchecked]
    refine ⟨b', ahead', behind', hroom, rfl, hsound, hqueue, ?_, ?_, ?_⟩
    · rw [hs, updateInput_start, hstart]
    · rw [hsz, updateInput_size, hsize]
    · rw [hm, updateInput_mtu, hmtu]
  · have hpos := h.used_pos_iff.mpr hempty
    have hmore : ¬ (b.appended len).updateInput.used = 1 + blocklen len := by
      rw [updateInput_used]
      omega
    rw [if_neg hmore, Option.bind_some]
    obtain ⟨c, rest, hq⟩ := List.exists_cons_of_ne_nil hempty
    obtain ⟨hdest, havail⟩ := h.output_cons hq
    have hoff : some ((b.appended len).updateInput.outputDest, (b.appended len).updateInput.outputAvail) =
        (b.appended len).updateInput.outputIo := by
      have hq' : ahead' ++ behind' = c :: (rest ++ [written b.buffer (b.endBlock + 1) len hlen hroom]) := by
        rw [hqueue, hq, List.cons_append]
      rw [hupdated.outputIo_cons hq', updateInput_outputDest, updateInput_outputAvail, updateInput_start, hdest',
        havail', hdest, havail, hstart]
    have hsound : Sound (b.appended len).updateInput ahead' behind' := ⟨hupdated, hinput, hoff⟩
    refine ⟨_, ahead', behind', hroom, checked_eq hsound.io, hsound, hqueue, ?_, ?_, ?_⟩
    · rw [updateInput_start, hstart]
    · rw [updateInput_size, hsize]
    · rw [updateInput_mtu, hmtu]

/-- **The first packet is consumed**; the place where the input points does not move. -/
theorem consumePacket (h : Sound b ahead behind) {c : Chunk} {rest : List Chunk} (hq : ahead ++ behind = c :: rest) :
    ∃ b' ahead' behind', b.consumePacket = some b' ∧ Sound b' ahead' behind' ∧ ahead' ++ behind' = rest ∧
      b'.buffer = b.buffer ∧ b'.endBlock = b.endBlock ∧ b.free ≤ b'.free ∧ b'.size = b.size ∧ b'.mtu = b.mtu := by
  obtain ⟨⟨ahead', behind', hnext, hqueue⟩, hend, hmore, hsame⟩ := h.advanced hq
  obtain ⟨more, hahead, _⟩ := h.ahead_of_cons hq
  have htotal : (all ahead).length = 1 + blocklen c.len + (all more).length := by
    rw [hahead, all_cons, List.length_append, words_length]
  have hused := h.used
  have hfits : b.start + (all ahead).length ≤ b.wrap := h.place.elim (fun hp => Nat.le_of_lt hp.1) fun hp => Nat.le_of_eq hp.1
  have hlen : lenAt b.buffer b.start = some c.len := by
    have hfront := h.front
    rw [hahead, all_cons] at hfront
    exact lenAt_of_segment hfront
  obtain ⟨hbuffer, hsize, hmtu, hdest, havail⟩ := advanced_frame b c.len
  unfold ChunkBuffer2.consumePacket
  rw [if_neg, hlen, Option.bind_some, if_neg (by omega)]
  swap
  · rintro (hc | hc | hc | hc)
    · rw [(h.output_cons hq).1] at hc
      cases hc
    · exact hc h.assertBuffer
    · exact hc h.io
    · exact Nat.ne_of_gt (h.used_pos_iff.mpr (by simp [hq])) hc
  dsimp only
  rw [if_neg (not_not_intro hnext.assertBuffer)]
  split
  · obtain ⟨b', hchecked, hsound, hb, he, hf, _, hsz, hm⟩ := hnext.updateInput.checked_output hnext.updateInput_io
    rw [updateInput_buffer] at hb
    rw [updateInput_endBlock] at he
    rw [updateInput_free] at hf
    rw [updateInput_size] at hsz
    rw [updateInput_mtu] at hm
    exact ⟨b', ahead', behind', hchecked, hsound, hqueue, hb.trans hbuffer, he.trans hend, hf ▸ hmore,
      hsz.trans hsize, hm.trans hmtu⟩
  · rename_i hnot
    have hinput : ((b.advanced c.len).inputDest, (b.advanced c.len).inputAvail) = (b.advanced c.len).inputIo := by
      rw [hdest, havail, h.io.1, hnext.inputIo_eq, h.inputIo_eq, hend, hsame hnot]
    obtain ⟨b', hchecked, hsound, hb, he, hf, _, hsz, hm⟩ := hnext.checked_output hinput
    exact ⟨b', ahead', behind', hchecked, hsound, hqueue, hb.trans hbuffer, he.trans hend, hf ▸ hmore,
      hsz.trans hsize, hm.trans hmtu⟩

/-- Writing where the input points leaves the packets alone. -/
theorem set (h : Sound b ahead behind) {i : Nat} (hlo : b.endBlock < i) (hhi : i < b.endBlock + b.free) (w : UInt32) :
    Sound { b with buffer := b.buffer.set i w } ahead behind := by
  have hset := h.toHolds.set (Nat.le_of_lt hlo) hhi w
  refine ⟨hset, h.io.1, ?_⟩
  have hio := h.io.2
  cases hq : ahead ++ behind with
  | nil =>
    rw [h.outputIo_nil hq] at hio
    rw [hset.outputIo_nil hq]
    exact hio
  | cons c rest =>
    rw [h.outputIo_cons hq] at hio
    rw [hset.outputIo_cons hq]
    exact hio

end Sound

/-- A new buffer that a full packet fits into. -/
theorem init_sound {buffer : List UInt32} {blocks mtu : Nat} (hlength : buffer.length = blocks)
    (hbound : blocks * blockSize ≤ intMax) (hroom : 1 + blocklen mtu ≤ blocks) :
    ∃ b, init buffer blocks mtu = some b ∧ Sound b [] [] ∧ b.size = blocks ∧ b.mtu = blocklen mtu := by
  have hholds : Holds (⟨buffer, blocks, blocks, 0, 0, blocklen mtu, none, -1, none, -1⟩ : ChunkBuffer2) [] [] := {
    size := hlength
    bound := hbound
    start := by dsimp only; omega
    wrap := Nat.le_refl _
    front := Segment.nil _ _
    back := Segment.nil _ _
    used := rfl
    place := .inl ⟨by dsimp only [all_nil, List.length_nil]; omega, rfl, rfl⟩
    roomy := by
      rw [endBlock_straight (by unfold Wrapped; dsimp only; omega)]
      dsimp only
      omega
    lastFits := fun cs c hnil => by simp at hnil }
  unfold init
  rw [if_neg (by omega)]
  dsimp only
  rw [if_neg (not_not_intro hholds.assertBuffer)]
  obtain ⟨b', hchecked, hsound, _, _, _, _, hsize, hmtu⟩ := hholds.updateInput.checked_output hholds.updateInput_io
  exact ⟨b', hchecked, hsound, hsize, hmtu⟩

end KiloProxy.Engine.ChunkBuffer2
