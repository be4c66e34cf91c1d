import KiloProxy.Engine.PacketProto

/-!
# Decoding a stream of packets

However the stream is cut into pieces, the decoder hands on exactly the packets that were
encoded, in order. `Holds` says what is in the buffer, `Phase` what the decoder waits for.

A call leaves the decoder in a phase: it waits for the rest of a packet and has room for
it, it is handing one on, or it has met a length above its MTU. In each the stream so far
is the packets passed on and what the buffer still holds, so the packets can be read off
at any time.
-/

namespace KiloProxy.Engine.PacketProtoDecoder
set_option autoImplicit false
open KiloProxy.Run KiloProxy.Store KiloProxy.Net

/-- The stream that encodes some packets. -/
def stream (ps : List (List UInt8)) : List UInt8 := ps.flatMap encoded

theorem stream_snoc (ps : List (List UInt8)) (p : List UInt8) : stream (ps ++ [p]) = stream ps ++ encoded p := by
  rw [stream, List.flatMap_append, List.flatMap_singleton]
  rfl

/-- The buffer holds `content`. -/
structure Holds (d : PacketProtoDecoder) (content : List UInt8) : Prop where
  mtu : d.outputMtu ≤ packetprotoMaxpayload
  length : d.buf.length = d.bufSize
  size : d.bufSize = packetprotoHeader + d.outputMtu
  segment : Segment d.buf d.bufStart content
  used : d.bufUsed = content.length
  fits : d.bufStart + d.bufUsed ≤ d.bufSize
  valid : ∀ p ∈ d.passed, p.length ≤ d.outputMtu

/-- It waits for more of a packet, hands one on, or has failed. -/
inductive Phase (d : PacketProtoDecoder) (content : List UInt8) : Prop where
  | waiting : d.errored = false → d.sending = none → d.bufStart + d.bufUsed < d.bufSize →
      d.receiving = some (d.bufStart + d.bufUsed, d.bufSize - (d.bufStart + d.bufUsed)) →
      parsePacket d.outputMtu content = .more → d.received = stream d.passed ++ content → Phase d content
  | handing (p : List UInt8) (data : Nat) : d.errored = false → d.receiving = none →
      d.sending = some (data, p.length) → Segment d.buf data p → p.length ≤ d.outputMtu →
      d.received = stream (d.passed ++ [p]) ++ content → Phase d content
  | failed (bad : List UInt8) : d.errored = true → parsePacket d.outputMtu bad = .bad →
      d.received = stream d.passed ++ bad → Phase d content

/-- The invariant between calls. -/
structure Sound (d : PacketProtoDecoder) (content : List UInt8) : Prop extends Holds d content where
  phase : Phase d content

variable {d : PacketProtoDecoder} {content : List UInt8}

/-- A packet that is not complete leaves room in the buffer. -/
theorem length_lt_of_more {mtu : Nat} {s : List UInt8} (h : parsePacket mtu s = .more) :
    s.length < packetprotoHeader + mtu ∨ s.length < packetprotoHeader := by
  match s with
  | [] => exact .inr (by decide)
  | [_] => exact .inr (by decide : 1 < 2)
  | a :: b :: s =>
    rw [parsePacket_cons] at h
    split at h
    · cases h
    · split at h
      · rename_i hle hshort
        refine .inl ?_
        rw [List.length_cons, List.length_cons]
        unfold packetprotoHeader
        omega
      · cases h

/-- Moving what is left to the front. -/
theorem Holds.wrapped (h : Holds d content) : Holds d.wrapped content ∧
    (d.wrapped.bufStart + d.wrapped.bufUsed = d.bufSize → d.wrapped.bufStart = 0) := by
  unfold PacketProtoDecoder.wrapped
  have hused := h.used
  have hlength := h.length
  have hfits := h.fits
  split
  · rename_i hend
    have hcontent : (d.buf.drop d.bufStart).take d.bufUsed = content := by
      rw [hused]
      exact h.segment.eq_take
    rw [hcontent]
    refine ⟨⟨h.mtu, ?_, h.size, Segment.written (Nat.zero_le _), hused, ?_, h.valid⟩, fun _ => rfl⟩
    · rw [← hlength]
      exact overwrite_length (by omega)
    · dsimp only
      omega
  · rename_i hmore
    exact ⟨h, fun hend => absurd hend hmore⟩

/-- There is room to receive in, when no packet is complete. -/
theorem Holds.wait (h : Holds d content) (hrecv : d.receiving = none) (hsend : d.sending = none)
    (herr : d.errored = false) (hmore : parsePacket d.outputMtu content = .more)
    (hpassed : d.received = stream d.passed ++ content) : ∃ d', d.wrapped.receiverRecv = some d' ∧ Sound d' content := by
  obtain ⟨hw, hend⟩ := h.wrapped
  have hsame : d.wrapped.receiving = none ∧ d.wrapped.sending = none ∧ d.wrapped.errored = false ∧
      d.wrapped.outputMtu = d.outputMtu ∧ d.wrapped.received = d.received ∧ d.wrapped.passed = d.passed ∧
      d.wrapped.bufSize = d.bufSize := by
    unfold PacketProtoDecoder.wrapped
    split <;> exact ⟨hrecv, hsend, herr, rfl, rfl, rfl, rfl⟩
  obtain ⟨hr, hs, he, hm, hrc, hp, hz⟩ := hsame
  have hlt : d.wrapped.bufStart + d.wrapped.bufUsed < d.wrapped.bufSize := by
    have hfits := hw.fits
    have hused := hw.used
    have hsize := h.size
    rcases Nat.lt_or_eq_of_le hfits with hlt | heq
    · exact hlt
    · have hzero := hend (heq.trans hz)
      rcases length_lt_of_more hmore with hshort | hshort
      · omega
      · omega
  refine ⟨{ d.wrapped with
    receiving := some (d.wrapped.bufStart + d.wrapped.bufUsed,
      d.wrapped.bufSize - (d.wrapped.bufStart + d.wrapped.bufUsed)) }, ?_, ?_⟩
  · unfold receiverRecv
    rw [if_neg]
    rintro (hn | hn)
    · exact hn hr
    · omega
  · refine ⟨⟨hw.mtu, hw.length, hw.size, hw.segment, hw.used, hw.fits, hw.valid⟩, .waiting he hs hlt rfl ?_ ?_⟩
    · rw [← hm] at hmore
      exact hmore
    · rw [← hp, ← hrc] at hpassed
      exact hpassed

/-- **What is at the front decides**: an announced length that is too large is an error, a packet that
is complete is handed on, and the rest waits. -/
theorem Holds.processData (content : List UInt8) (h : Holds d content) (hrecv : d.receiving = none) (hsend : d.sending = none)
    (herr : d.errored = false) (hpassed : d.received = stream d.passed ++ content) :
    ∃ d' content', d.processData = some d' ∧ Sound d' content' := by
  have hused := h.used
  have hfits := h.fits
  unfold PacketProtoDecoder.processData
  match content, h, hpassed, hused with
  | [], h, hpassed, hused =>
    rw [if_pos (by rw [hused]; decide)]
    obtain ⟨d', hd', hs⟩ := h.wait hrecv hsend herr rfl hpassed
    exact ⟨d', [], hd', hs⟩
  | [a], h, hpassed, hused =>
    rw [if_pos (by rw [hused]; exact Nat.lt_succ_self 1)]
    obtain ⟨d', hd', hs⟩ := h.wait hrecv hsend herr rfl hpassed
    exact ⟨d', [a], hd', hs⟩
  | a :: b :: s, h, hpassed, hused =>
    obtain ⟨t, ht⟩ := h.segment
    have hbuf : d.buf.drop d.bufStart = a :: b :: (s ++ t) := ht.symm
    have hcount : d.bufUsed = s.length + 2 := hused
    have hparse := parsePacket_cons d.outputMtu a b s
    rw [if_neg (by rw [hcount]; exact Nat.not_lt.mpr (Nat.le_add_left 2 _)), hbuf]
    dsimp only
    split
    · rename_i hlarge
      rw [if_pos hlarge] at hparse
      have hroom : 0 < d.bufSize := by
        have hsize := h.size
        unfold packetprotoHeader at hsize
        omega
      refine ⟨{ d with bufStart := 0, bufUsed := 0, receiving := some (0, d.bufSize), errored := true }, [], ?_, ?_⟩
      · unfold receiverRecv
        dsimp only
        rw [if_neg]
        · rfl
        · rintro (hn | hn)
          · exact hn hrecv
          · omega
      · exact ⟨⟨h.mtu, h.length, h.size, Segment.nil _ _, rfl, Nat.zero_le _, h.valid⟩, .failed _ rfl hparse hpassed⟩
    · rename_i hle
      rw [if_neg hle] at hparse
      have hleft : d.bufUsed - packetprotoHeader = s.length := by
        rw [hcount]
        rfl
      rw [hleft]
      split
      · rename_i hshort
        rw [if_pos hshort] at hparse
        obtain ⟨d', hd', hs⟩ := h.wait hrecv hsend herr hparse hpassed
        exact ⟨d', _, hd', hs⟩
      · -- the packet lies behind its header, and the rest behind the packet
        rename_i hall
        have htake : (s.take (ltoh16 a b)).length = ltoh16 a b := by
          rw [List.length_take]
          omega
        have hbody : Segment d.buf (d.bufStart + 2) s := h.segment.drop 2
        have hsplit : Segment d.buf (d.bufStart + 2) (s.take (ltoh16 a b) ++ s.drop (ltoh16 a b)) := by
          rw [List.take_append_drop]
          exact hbody
        have hrest : Segment d.buf (d.bufStart + (packetprotoHeader + ltoh16 a b)) (s.drop (ltoh16 a b)) := by
          have hright := hsplit.right
          rw [htake, Nat.add_assoc] at hright
          exact hright
        have hencoded : a :: b :: s = encoded (s.take (ltoh16 a b)) ++ s.drop (ltoh16 a b) := by
          rw [encoded, htake, htol16_ltoh16, List.append_assoc, List.take_append_drop]
          rfl
        unfold senderSend
        rw [if_neg (not_not_intro hsend)]
        refine ⟨_, s.drop (ltoh16 a b), rfl,
          ⟨h.mtu, h.length, h.size, hrest, ?_, ?_, h.valid⟩, .handing (s.take (ltoh16 a b)) _ herr hrecv ?_ hsplit.left ?_ ?_⟩
        · rw [List.length_drop]
          unfold packetprotoHeader
          dsimp only
          omega
        · unfold packetprotoHeader
          dsimp only
          omega
        · rw [htake]
          rfl
        · rw [htake]
          exact Nat.le_of_not_lt hle
        · show d.received = stream (d.passed ++ [s.take (ltoh16 a b)]) ++ s.drop (ltoh16 a b)
          rw [hpassed, stream_snoc, List.append_assoc, ← hencoded]

/-! ## The handlers -/

/-- Bytes that arrive extend the unparsed content, and every whole packet is passed on in turn. -/
theorem Sound.inputDone (h : Sound d content) {data : List UInt8} (hc : d.Calls (.inputDone data)) :
    ∃ d' content', d.handle (.inputDone data) = some d' ∧ Sound d' content' := by
  obtain ⟨herr, hne, r, hr, hle⟩ := hc
  have hlength := h.length
  have hused := h.used
  cases h.phase with
  | handing p at' _ hrecv => exact absurd (hrecv.symm.trans hr) (by simp)
  | failed bad hfail => exact absurd (herr.symm.trans hfail) Bool.false_ne_true
  | waiting _ hsend hlt hrecv _ hpassed =>
    obtain rfl := Option.some.inj (hrecv.symm.trans hr)
    have hroom : data.length ≤ d.bufSize - (d.bufStart + d.bufUsed) := hle
    have hsegment : Segment (overwrite d.buf (d.bufStart + d.bufUsed) data) d.bufStart (content ++ data) := by
      refine Segment.append (h.segment.before (by omega)) ?_
      rw [← hused]
      exact Segment.written (by omega)
    show ∃ d' content', d.inputHandlerDone data = some d' ∧ Sound d' content'
    unfold inputHandlerDone
    rw [hrecv, Option.bind_some]
    dsimp only
    rw [if_neg]
    swap
    · rintro (hn | hn)
      · exact hne hn
      · omega
    refine Holds.processData (content ++ data) ⟨h.mtu, ?_, h.size, hsegment, ?_, ?_, h.valid⟩ rfl hsend herr ?_
    · rw [← hlength]
      exact overwrite_length (by omega)
    · rw [List.length_append]
      dsimp only
      omega
    · dsimp only
      omega
    · dsimp only
      rw [hpassed, List.append_assoc]

/-- A packet taken by the output makes room for the next. -/
theorem Sound.outputDone (h : Sound d content) (hc : d.Calls .outputDone) :
    ∃ d' content', d.handle .outputDone = some d' ∧ Sound d' content' := by
  obtain ⟨herr, hne⟩ := hc
  cases h.phase with
  | waiting _ hsend => exact absurd hsend hne
  | failed bad hfail => exact absurd (herr.symm.trans hfail) Bool.false_ne_true
  | handing p data _ hrecv hsend hsegment hvalid hpassed =>
    have hbytes : (d.buf.drop data).take p.length = p := hsegment.eq_take
    show ∃ d' content', d.outputHandlerDone = some d' ∧ Sound d' content'
    unfold outputHandlerDone
    rw [hsend, Option.bind_some]
    dsimp only
    rw [hbytes]
    refine Holds.processData content ⟨h.mtu, h.length, h.size, h.segment, h.used, h.fits, ?_⟩ hrecv rfl herr hpassed
    intro q hq
    rcases List.mem_append.mp hq with hq | hq
    · exact h.valid q hq
    · rw [List.mem_singleton.mp hq]
      exact hvalid

/-! ## Whole runs -/

/-- The decoder is sound with something in its buffer. -/
def Correct (mtu : Nat) (d : PacketProtoDecoder) : Prop :=
  d.outputMtu = min mtu packetprotoMaxpayload ∧ ∃ content, Sound d content

/-- The decoder starts with room for the largest packet. -/
theorem init_correct {mtu : Nat} {buf : List UInt8} (hbuf : buf.length = packetprotoHeader + min mtu packetprotoMaxpayload) :
    ∃ d, init mtu buf = some d ∧ Correct mtu d := by
  refine ⟨_, if_neg ?_, rfl, [], ⟨Nat.min_le_right _ _, hbuf, rfl, Segment.nil _ _, rfl, Nat.zero_le _, ?_⟩, ?_⟩
  · rintro (hn | hn)
    · exact hn rfl
    · unfold packetprotoHeader at hn
      dsimp only at hn
      omega
  · intro p hp
    cases hp
  · refine .waiting rfl rfl ?_ rfl rfl rfl
    unfold packetprotoHeader
    dsimp only
    omega

/-- Passing on the packets of the content does not change the MTU. -/
theorem processData_mtu {d d' : PacketProtoDecoder} (h : d.processData = some d') : d'.outputMtu = d.outputMtu := by
  have hrecv : ∀ {e e' : PacketProtoDecoder}, e.receiverRecv = some e' → e'.outputMtu = e.outputMtu := by
    intro e e' he
    unfold receiverRecv at he
    split at he
    · cases he
    · rw [← Option.some.inj he]
  have hwrapped : d.wrapped.outputMtu = d.outputMtu := by
    unfold PacketProtoDecoder.wrapped
    split <;> rfl
  unfold PacketProtoDecoder.processData at h
  split at h
  · exact (hrecv h).trans hwrapped
  · split at h
    · dsimp only at h
      split at h
      · obtain ⟨e, he, rfl⟩ := Option.map_eq_some_iff.mp h
        have hmtu := hrecv he
        exact hmtu
      · split at h
        · exact (hrecv h).trans hwrapped
        · unfold senderSend at h
          split at h
          · cases h
          · rw [← Option.some.inj h]
    · cases h

theorem handle_mtu {d d' : PacketProtoDecoder} {a : Call} (h : d.handle a = some d') : d'.outputMtu = d.outputMtu := by
  cases a with
  | inputDone data =>
    obtain ⟨r, _, h⟩ := Option.bind_eq_some_iff.mp h
    dsimp only at h
    split at h
    · cases h
    · have hmtu := processData_mtu h
      exact hmtu
  | outputDone =>
    obtain ⟨r, _, h⟩ := Option.bind_eq_some_iff.mp h
    have hmtu := processData_mtu h
    exact hmtu

/-- Every call the environment may make succeeds and keeps the decoder sound. -/
theorem Sound.handle (h : Sound d content) {a : Call} (hc : d.Calls a) :
    ∃ d' content', d.handle a = some d' ∧ Sound d' content' := by
  cases a with
  | inputDone data => exact h.inputDone hc
  | outputDone => exact h.outputDone hc

/-- In every reachable state the decoder has passed on the packets of what arrived. -/
theorem reachable_correct {mtu : Nat} (h : Reachable (system mtu) d) : Correct mtu d := by
  refine h.invariant (fun e he => ?_) fun e a e' he _ hstep => ?_
  · obtain ⟨buf, hbuf, hinit⟩ := he
    obtain ⟨e', he', hs⟩ := init_correct hbuf
    rw [he'] at hinit
    obtain rfl := Option.some.inj hinit
    exact hs
  · obtain ⟨hmtu, content, hs⟩ := he
    have hstep : (if e.Calls a then e.handle a else none) = some e' := hstep
    split at hstep
    · rename_i hc
      obtain ⟨f, content', hf, hsf⟩ := hs.handle hc
      rw [hf] at hstep
      obtain rfl := Option.some.inj hstep
      exact ⟨(handle_mtu hf).trans hmtu, content', hsf⟩
    · cases hstep

/-- A decoder of packets up to three bytes gets three packets in pieces that fit none of them. -/
def cut : List Call :=
  [.inputDone [3], .inputDone [0, 1, 2, 3], .outputDone, .inputDone [0, 0, 1, 0], .outputDone, .inputDone [9], .outputDone]

def ranTo (as : List Call) : Option PacketProtoDecoder := (init 3 (List.replicate 5 0)).bind fun d => exec (system 3) d as

theorem ranTo_reachable {as : List Call} (h : ranTo as = some d) : Reachable (system 3) d := by
  obtain ⟨e, he, hrun⟩ := Option.bind_eq_some_iff.mp h
  exact exec_reaches as (.start ⟨List.replicate 5 0, by decide, he⟩) hrun

/-- **No handler faults**, and the decoder always waits for something: for bytes, with room for them, or
for its output. -/
theorem decoder_total {mtu : Nat} (h : Reachable (system mtu) d) :
    (∀ a, d.Calls a → ∃ d', d.handle a = some d') ∧
      (d.errored = false → d.sending ≠ none ∨ ∃ r ∈ d.receiving, 0 < r.2) := by
  obtain ⟨_, content, hs⟩ := reachable_correct h
  refine ⟨fun a hc => ?_, fun herr => ?_⟩
  · obtain ⟨d', _, hd', _⟩ := hs.handle hc
    exact ⟨d', hd'⟩
  · cases hs.phase with
    | waiting _ _ hlt hrecv => exact .inr ⟨_, hrecv, Nat.sub_pos_of_lt hlt⟩
    | handing p data _ _ hsend =>
      rw [hsend]
      exact .inl (Option.some_ne_none _)
    | failed _ hfail => exact absurd (herr.symm.trans hfail) Bool.false_ne_true

theorem decoder_total_cut : ∃ d, ranTo cut = some d ∧ (∀ a, d.Calls a → ∃ d', d.handle a = some d') ∧
    (d.errored = false → d.sending ≠ none ∨ ∃ r ∈ d.receiving, 0 < r.2) := by
  have hrun : (ranTo cut).isSome = true := by decide
  obtain ⟨d, hd⟩ := Option.isSome_iff_exists.mp hrun
  exact ⟨d, hd, decoder_total (ranTo_reachable hd)⟩

/-- **The pieces do not matter.** Of a stream that encodes packets the decoder hands on a beginning, in
order, and reports no error; when it got all of the stream and its output is done, it handed on all. -/
theorem decoder_exact {mtu : Nat} (h : Reachable (system mtu) d) {ps : List (List UInt8)}
    (hps : ∀ p ∈ ps, p.length ≤ min mtu packetprotoMaxpayload) (hin : d.received <+: stream ps) :
    d.errored = false ∧ d.passed <+: ps ∧ (d.received = stream ps → d.sending = none → d.passed = ps) := by
  obtain ⟨hmtu, content, hs⟩ := reachable_correct h
  obtain ⟨t, ht⟩ := hin
  have hvalid := hs.valid
  rw [hmtu] at hvalid
  generalize hF : packets (min mtu packetprotoMaxpayload) (Nat.min_le_right _ _) = F
  have hxs : ∀ p ∈ ps, F.Valid p := by rw [← hF]; exact hps
  have hframes : ∀ qs, F.frames qs = stream qs := by rw [← hF]; exact fun qs => rfl
  have hpassed : ∀ p ∈ d.passed, F.Valid p := by rw [← hF]; exact hvalid
  have hparse : ∀ s, F.parse s = parsePacket d.outputMtu s := by rw [← hF, hmtu]; exact fun s => rfl
  cases hs.phase with
  | waiting herr hsend _ _ hmore hrec =>
    rw [hrec, ← hframes, ← hframes] at ht
    refine ⟨herr, (Framing.frames_prefix hxs hpassed ht).1, fun hall _ => ?_⟩
    rw [hrec, ← hframes, ← hframes] at hall
    exact Framing.frames_all hxs hpassed hall ((hparse content).trans hmore)
  | handing p data herr _ hsend _ hle hrec =>
    rw [hrec, ← hframes, ← hframes] at ht
    have hall : ∀ q ∈ d.passed ++ [p], F.Valid q := by
      intro q hq
      rcases List.mem_append.mp hq with hq | hq
      · exact hpassed q hq
      · rw [List.mem_singleton.mp hq, ← hF]
        rw [hmtu] at hle
        exact hle
    refine ⟨herr, (List.prefix_append _ _).trans (Framing.frames_prefix hxs hall ht).1, fun _ hidle => ?_⟩
    rw [hsend] at hidle
    cases hidle
  | failed bad _ hbad hrec =>
    rw [hrec, ← hframes, ← hframes] at ht
    exact absurd ((hparse bad).trans hbad) (Framing.frames_prefix hxs hpassed ht).2

end KiloProxy.Engine.PacketProtoDecoder
