import Avs4000.RxBlocks

namespace Avs4000
open Memory Frames
open BlockFifo hiding count
set_option autoImplicit true

namespace RawRxSystem

theorem receiveStep_done {s t : RawRxSystem} (hs : ReceiveStep s t) :
    t.buffer.done = s.buffer.done := by
  cases hs with
  | enter | finish | nothing | goOn | full | copy | empty | look | copied => rfl

end RawRxSystem

namespace RxSystem
open TcpRxSignalClient (complete)

/-- The same state with more to come. -/
def extend (pad : List UInt8) (s : RxSystem) : RxSystem :=
  { s with incoming := s.incoming ++ pad }

theorem ReceiveStep.extend (pad : List UInt8) (hs : ReceiveStep s t) :
    ReceiveStep (s.extend pad) (t.extend pad) := by
  cases hs with
  | enter hc hlt hz hf => exact .enter hc hlt hz hf
  | timeout hc hlt hz hf => exact .timeout hc hlt hz hf
  | goOn hc hlt hz => exact .goOn hc hlt hz
  | finish hc hge => exact .finish hc hge
  | noBlock hc hr => exact .noBlock hc hr
  | parse hc hr hk => exact .parse hc hr hk
  | copy hc hb => exact .copy hc hb
  | fault hc hb => exact .fault hc hb
  | copied hc => exact .copied hc

theorem Step.extend (pad : List UInt8) (hs : Step s a t) :
    Step (s.extend pad) a (t.extend pad) := by
  cases hs with
  | receive hc hlt => exact .receive hc hlt
  | receiveStep hs => exact .receiveStep (hs.extend pad)
  | flush hc => exact .flush hc
  | startNone hp hd hw => exact .startNone hp hd hw
  | startSome hp hd hw => exact .startSome hp hd hw
  | again hp => exact .again hp
  | closed hp hres => exact .closed hp hres
  | @data r n hp hm hn =>
    have hle : n + 1 ≤ (s.extend pad).incoming.length := by
      rw [RxSystem.extend, List.length_append]
      exact Nat.le_add_right_of_le hn
    have htake : (s.extend pad).incoming.take (n + 1) = s.incoming.take (n + 1) :=
      List.take_append_of_le_length hn
    have hdrop : (s.extend pad).incoming.drop (n + 1) = s.incoming.drop (n + 1) ++ pad :=
      List.drop_append_of_le_length hn
    have hstep : Step (s.extend pad) (.got (.data (n + 1))) _ := .data hp hm hle
    rw [htake, hdrop] at hstep
    exact hstep
  | complete hp => exact .complete hp

/-- What holds of a run without a `Flush`, with `pad` added to the stream. -/
structure Flows (pkts : List (List UInt8)) (pad : List UInt8) (b : Nat) (s : RxSystem) : Prop where
  delivers : Delivers pkts (s.extend pad)
  blocks : InBlocks b s.client.buffer.fifo s.received s.pump

theorem Flows.inv (h : Flows pkts pad b s) : Inv s :=
  have hi := h.delivers.inv
  ⟨hi.fifo, hi.blocks, hi.caller, hi.pump, hi.done, hi.calls⟩

theorem step_flows (hp : ∀ p ∈ pkts, p.length = 0x2000) (h : Flows pkts pad b s) (hf : a ≠ .flush)
    (hs : Step s a t) : Flows pkts pad b t :=
  ⟨step_delivers hp h.delivers hf (hs.extend pad), step_inBlocks h.inv hf h.blocks hs⟩

/-- If a call returned short since there were only the calls `old`, the last one left nothing in
the ring. -/
def ShortDrains (old : List ReceiveCall) (s : RxSystem) : Prop :=
  s.calls = old ∨ ∀ calls c, s.calls = calls ++ [c] → c.samples.length < c.count →
    s.client.buffer.fifo.count = 0

theorem ShortDrains.drained (h : ShortDrains old s) (hc : s.calls = old ++ more ++ [c])
    (hl : c.samples.length < c.count) : s.client.buffer.fifo.count = 0 := by
  refine h.elim (fun he => ?_) fun hd => hd _ c hc hl
  have hlen := congrArg List.length (he.symm.trans hc)
  simp only [List.length_append, List.length_singleton] at hlen
  omega

theorem ShortDrains.consumer (h : ShortDrains old s) (hc : t.calls = s.calls)
    (hk : t.client.buffer.fifo.count ≤ s.client.buffer.fifo.count) : ShortDrains old t := by
  rw [ShortDrains, hc]
  rcases h with he | hd
  · exact .inl he
  · exact .inr fun calls c he hl => Nat.eq_zero_of_le_zero (hd calls c he hl ▸ hk)

theorem Flows.drained {s : RxSystem} (h : Flows pkts pad b s) (hd : s.client.buffer.done = true)
    (hz : s.client.buffer.fifo.count = 0) (hi : s.caller = .idle)
    (hp : ∀ p ∈ pkts, p.length = 0x2000) :
    ∃ ks, ks ≤ pkts.length ∧ s.received.length = 0x2000 * ks + s.received.length % b ∧
      samplesOf s.calls = (List.range ks).flatMap fun k => payloadOf (pkt pkts k) := by
  have hinv := h.inv
  have hidle := hinv.done hd
  have hblocks := h.blocks
  rw [hidle] at hblocks
  have hfill := hblocks.filled_eq hinv.fifo
  obtain ⟨gone, ks, htrack, hgap⟩ := h.delivers.track
  have hnot : ¬Begun s.client s.caller := fun hb =>
    absurd hz (Nat.ne_of_gt (Begun.count_pos hinv hb))
  obtain ⟨_, hsamples⟩ := htrack.closed hnot
  obtain ⟨late, hgot, hqueue⟩ := htrack.queue
  have hlog : log (s.extend pad) = s.calls := (log_eq hi).trans (List.append_nil _)
  have hgot' : PumpGot s.client.buffer.fifo s.mem late .idle := hidle ▸ hgot
  obtain rfl := hgot'
  have hlen := congrArg List.length hqueue
  change s.received.length = (gone ++ (s.client.buffer.fifo.unread s.mem ++
    s.client.buffer.fifo.filling s.mem ++ [])).length at hlen
  rw [unread_of_count hz, List.nil_append, List.append_nil, List.length_append,
    length_filling, hfill, hgap.1] at hlen
  rw [hlog, hgap.2] at hsamples
  exact ⟨ks.length, hgap.length_le hp htrack, hlen, hsamples⟩

end RxSystem
end Avs4000
