import Avs4000.Loopback
import Avs4000.RxRest
import Avs4000.TxRest

namespace Avs4000
open Memory Frames
set_option autoImplicit true

namespace TxSystem

theorem length_packets (h : 8160 * n ≤ bs.length) : (packets dn n bs).length = 0x2000 * n := by
  rw [← flatten_packetList, length_flatten (length_packetList h), packetList, List.length_map,
    List.length_range]

/-- A drained sender has all on the wire but the packets of the block being filled. -/
theorem Content.drained (h : Content dn s n whole part) (hi : Inv s)
    (hw : WholePackets b s.client.buffer.fifo) (hd : s.Drained) :
    ∃ k, 0x2000 * n = s.wire.length + 0x2000 * k ∧ k ≤ (b - 1) / 0x2000 := by
  obtain ⟨k, hk, hle⟩ := hw.filled hi.fifo
  refine ⟨k, ?_, hle⟩
  obtain ⟨gone, hgone, hstream⟩ := h.stream
  rw [hd.pump] at hgone
  obtain rfl : s.wire = gone := hgone
  have hlen := congrArg List.length hstream
  rw [RxSystem.unread_of_count hd.count, List.nil_append, List.length_append,
    BlockFifo.length_filling, hk, length_packets (Nat.le_of_eq h.length.symm)] at hlen
  exact hlen.symm

end TxSystem

namespace RxSystem

theorem Inv.extend (h : Inv s) (w : List UInt8) : Inv (s.extend w) :=
  ⟨h.fifo, h.blocks, h.caller, h.pump, h.done, h.calls⟩

theorem Going.extend (h : Going s) (w : List UInt8) : Going (s.extend w) :=
  ⟨h.inv.extend w, h.live, h.done, h.room⟩

/-- A drained receiver has handed out all it has received but for the block being filled. -/
theorem Flows.drained_samples (hp : ∀ p ∈ pkts, p.length = 0x2000) (h : Flows pkts rest b s)
    (hd : s.Drained) (hs : pkts.flatten = wire ++ rest) :
    ∃ m ≤ pkts.length, samplesOf s.calls = (pkts.take m).flatMap payloadOf ∧
      wire.length = 0x2000 * m + wire.length % b := by
  have hi := h.inv
  obtain ⟨gone, ks, htrack, hgap⟩ := h.delivers.track
  have hrecv : s.received = wire := by
    have hstream := htrack.stream
    change s.received ++ (s.incoming ++ rest) = _ at hstream
    rw [hd.incoming, hs] at hstream
    exact List.append_cancel_right hstream
  have hblocks := h.blocks
  rw [hd.pump, hrecv] at hblocks
  have hfill := hblocks.filled_eq hi.fifo
  have hnot : ¬Begun s.client s.caller := fun hb =>
    Nat.ne_of_gt (Begun.count_pos hi hb) hd.count
  have hle := hgap.length_le hp htrack
  refine ⟨ks.length, hle, ?_, ?_⟩
  · have hlog : log (s.extend rest) = s.calls := (log_eq hd.caller).trans (List.append_nil _)
    have hsamples := (htrack.closed hnot).2
    have hpkts := map_pkt_range hle
    rw [← hgap.2] at hpkts
    rw [← hlog, hsamples, ← List.flatMap_map (pkt pkts) payloadOf, hpkts]
  · obtain ⟨late, hgot, hqueue⟩ := htrack.queue
    have hlate : PumpGot s.client.buffer.fifo s.mem late .idle := hd.pump ▸ hgot
    obtain rfl := hlate
    have hlen := congrArg List.length hqueue
    change s.received.length = (gone ++ (s.client.buffer.fifo.unread s.mem ++
      s.client.buffer.fifo.filling s.mem ++ [])).length at hlen
    rwa [unread_of_count hd.count, List.nil_append, List.append_nil, List.length_append,
      BlockFifo.length_filling, hfill, hgap.1, hrecv] at hlen

end RxSystem

namespace Loopback
open TxSystem (packetList)
open RxSystem (samplesOf payloadOf)

/-- No call is running, and neither pump has anything to move. -/
structure Drained (s : Loopback) : Prop where
  sender : s.sender.Drained
  receiver : s.receiver.Drained

/-- No other `Send` and no `Flush`, and the sockets neither fail nor close. -/
def Goes : Act → Prop
  | .sender a => a.Goes
  | .receiver b => b.Goes

/-- The samples of the first packets are through, and no more packets are missing than the two
blocks being filled can hold. -/
def Through (b q : Nat) (s : Loopback) : Prop :=
  ∃ m, samplesOf s.receiver.calls = words (s.sender.taken.take (8160 * m)) ∧
    m ≤ s.sender.taken.length / 8160 ∧
    s.sender.taken.length / 8160 ≤ m + (b - 1) / 0x2000 + (q - 1)

theorem Goes.noFlush {a : Act} (h : Goes a) : NoFlush a := by
  cases a with
  | sender a =>
    rintro rfl
    exact h
  | receiver b =>
    rintro rfl
    exact h

theorem take_packetList (dn : UInt8) (bs : List UInt8) (h : m ≤ n) :
    (packetList dn n bs).take m = packetList dn m bs := by
  rw [packetList, ← List.map_take, List.take_range, Nat.min_eq_left h, packetList]

theorem Carries.through (h : Carries dn (0x2000 * q) n whole part rest s) (hq : 1 ≤ q)
    (hw : TxSystem.WholePackets b s.sender.client.buffer.fifo) (hd : s.Drained) :
    s.Through b q := by
  have hp : ∀ p ∈ packetList dn n whole, p.length = 0x2000 :=
    TxSystem.length_packetList h.length_whole
  obtain ⟨k, hwire, hk⟩ := h.content.drained h.inv hw hd.sender
  obtain ⟨m, hm, hsamples, hlen⟩ := h.flows.drained_samples hp hd.receiver h.stream
  rw [packetList, List.length_map, List.length_range] at hm
  have hlt := TxSystem.part_lt h.inv h.content
  have htaken : s.sender.taken.length = 8160 * n + part.length := by
    rw [h.content.taken, List.length_append, h.content.length]
  have hdiv : s.sender.taken.length / 8160 = n := by omega
  have hmod := Nat.mod_lt s.sender.wire.length (Nat.mul_pos (by decide : 0 < 0x2000) hq)
  refine ⟨m, ?_, by omega, by omega⟩
  have hle : 8160 * m ≤ whole.length := h.content.length ▸ Nat.mul_le_mul_left _ hm
  rw [hsamples, take_packetList dn whole hm, TxSystem.payloads_packetList hle, h.content.taken,
    List.take_append_of_le_length hle]

theorem run_sends {b c : Nat} (hb : 0x2000 ≤ b) (hc : 2 ≤ c)
    (hr : Sys.run step (init dn b c b' c') acts = some s) :
    TxSystem.Inv s.sender ∧ TxSystem.Sends s.sender ∧
      TxSystem.WholePackets b s.sender.client.buffer.fifo := by
  obtain ⟨as, _, hrun⟩ := Pipe.run_sender hr
  have hinv : TxSystem.Inv (.init dn b c) := TxSystem.init_inv
    (Nat.lt_of_lt_of_le (by decide) hb) (Nat.lt_of_lt_of_le Nat.zero_lt_two hc)
  refine Sys.run_invariant (I := fun u => TxSystem.Inv u ∧ TxSystem.Sends u ∧
    TxSystem.WholePackets b u.client.buffer.fifo) ?_
    ⟨hinv, TxSystem.init_sends dn hb c, TxSystem.init_wholePackets dn b c⟩ hrun
  intro u a v ⟨hi, hs, hw⟩ hstep
  have hstep := TxSystem.step_cases hstep
  exact ⟨TxSystem.step_inv hi hstep, TxSystem.step_sends hi hs hstep,
    TxSystem.step_wholePackets hi hw hstep⟩

theorem run_room (hq : 1 ≤ q) (hc' : 2 ≤ c') (hf : ∀ a ∈ acts, NoFlush a)
    (hr : Sys.run step (init dn b c (0x2000 * q) c') acts = some s) :
    RxSystem.Inv s.receiver ∧ 2 ≤ s.receiver.client.buffer.fifo.blkCount := by
  have hinv : RxSystem.Inv (.init [] (0x2000 * q) c') := RxSystem.init_inv
    (Nat.mul_pos (by decide) hq) (Nat.mul_mod_right ..) (Nat.lt_of_lt_of_le Nat.zero_lt_two hc') []
  refine Sys.run_induction (I := fun u => RxSystem.Inv u.receiver ∧
    2 ≤ u.receiver.client.buffer.fifo.blkCount) ?_ ⟨hinv, hc'⟩ (Sys.along_of_forall hf _) hr
  intro u a v ⟨hi, hroom⟩ ha hs
  cases Pipe.step_cases hs with
  | sender h => exact ⟨hi.extend _, hroom⟩
  | receiver h =>
    have hstep := RxSystem.step_cases h
    exact ⟨RxSystem.step_inv hi (fun he => absurd he ha) hstep,
      RxSystem.step_blkCount hi hstep ▸ hroom⟩

theorem exists_drained {s : Loopback} (hs : TxSystem.Going s.sender)
    (hr : RxSystem.Going s.receiver) : ∃ more t, (∀ a ∈ more, Goes a) ∧
      Sys.run step s more = some t ∧ t.Drained ∧ s.sender.taken <+: t.sender.taken := by
  obtain ⟨as, t, has, hrun, hd⟩ := hs.drain
  have hsnd : Sys.run step s (as.map .sender) = some ⟨t, RxSystem.extend _ s.receiver⟩ :=
    run_sender hrun s.receiver
  obtain ⟨bs, r, hbs, hrun', hd'⟩ := (hr.extend _).drain
  have hrcv : Sys.run step _ (bs.map .receiver) = some ⟨t, r⟩ := Pipe.run_map_receiver hrun' t
  refine ⟨as.map .sender ++ bs.map .receiver, ⟨t, r⟩, fun a ha => ?_,
    Sys.run_append_eq_some.2 ⟨_, hsnd, hrcv⟩, ⟨hd, hd'⟩, TxSystem.run_taken hs has hrun⟩
  rcases List.mem_append.1 ha with ha | ha
  · obtain ⟨x, hx, rfl⟩ := List.mem_map.1 ha
    exact has x hx
  · obtain ⟨x, hx, rfl⟩ := List.mem_map.1 ha
    exact hbs x hx

theorem run_through {b c : Nat} (hb : 0x2000 ≤ b) (hc : 2 ≤ c) (hq : 1 ≤ q) (hc' : 2 ≤ c')
    (hf : ∀ a ∈ acts, NoFlush a)
    (hr : Sys.run step (init dn b c (0x2000 * q) c') acts = some s) (hd : s.Drained) :
    s.Through b q := by
  obtain ⟨n, whole, part, rest, h⟩ := run_carries hb hc hq hc' hf hr
  exact h.through hq (run_sends hb hc hr).2.2 hd

/-- When both clients are at rest, the receiver has all but the packets that the two blocks being
filled can hold. As long as neither socket has failed they can come to rest from any state, with no
other call of `Send`. -/
theorem comes_to_rest {b c : Nat} (hb : 0x2000 ≤ b) (hc : 2 ≤ c) (hq : 1 ≤ q) (hc' : 2 ≤ c')
    (hf : ∀ a ∈ acts, NoFlush a)
    (hr : Sys.run step (init dn b c (0x2000 * q) c') acts = some s) :
    (s.Drained → s.Through b q) ∧
      (s.sender.client.buffer.done = false → s.receiver.client.buffer.done = false →
        ∃ more t, (∀ a ∈ more, Goes a) ∧ Sys.run step s more = some t ∧ t.Drained ∧
          t.Through b q ∧ s.sender.taken <+: t.sender.taken) := by
  refine ⟨run_through hb hc hq hc' hf hr, fun hd hd' => ?_⟩
  obtain ⟨hi, hs, _⟩ := run_sends hb hc hr
  obtain ⟨hi', hroom⟩ := run_room hq hc' hf hr
  obtain ⟨_, _, _, _, h⟩ := run_carries hb hc hq hc' hf hr
  obtain ⟨more, t, hmore, hrun, hdrained, htaken⟩ :=
    exists_drained ⟨hi, hs, hd⟩ ⟨hi', h.flows.delivers.live, hd', hroom⟩
  have hacts : ∀ a ∈ acts ++ more, NoFlush a := fun a ha =>
    (List.mem_append.1 ha).elim (hf a) fun hm => (hmore a hm).noFlush
  have hthrough := run_through hb hc hq hc' hacts (Sys.run_append_eq_some.2 ⟨s, hr, hrun⟩) hdrained
  exact ⟨more, t, hmore, hrun, hdrained, hthrough, htaken⟩

/-- A packet that is in the sender's ring gets through when a block holds no more than one. -/
theorem comes_to_rest_packet : ∃ s more t,
    Sys.run step (init 3 0x2000 2 (0x2000 * 1) 2)
      ((TxSystem.callPacket (List.replicate 8160 0)).map .sender) = some s ∧
    s.sender.wire = [] ∧ s.receiver.calls = [] ∧ Sys.run step s more = some t ∧ t.Drained ∧
      2040 ≤ (samplesOf t.receiver.calls).length := by
  have hlen : (List.replicate 8160 (0 : UInt8)).length = 8160 := List.length_replicate
  obtain ⟨u, hu, h⟩ := TxSystem.run_callPacket 3 hlen
  have hs := run_sender hu (.init [] (0x2000 * 1) 2)
  have hf : ∀ a ∈ (TxSystem.callPacket (List.replicate 8160 0)).map Pipe.Act.sender,
      NoFlush a := by
    intro a ha
    obtain ⟨x, hx, rfl⟩ := List.mem_map.1 ha
    exact TxSystem.callPacket_ne_flush _ x hx
  obtain ⟨_, hrest⟩ := comes_to_rest (Nat.le_refl _) (Nat.le_refl 2) (Nat.le_refl 1)
    (Nat.le_refl 2) hf hs
  obtain ⟨more, t, _, hrun, hdrained, ⟨m, hsamples, hle, hm⟩, hpre⟩ := hrest h.done rfl
  refine ⟨_, more, t, hs, h.wire, rfl, hrun, hdrained, ?_⟩
  have htook : 8160 ≤ t.sender.taken.length := by
    rw [← hlen, ← h.taken]
    exact hpre.length_le
  have htake : (t.sender.taken.take (8160 * m)).length = 4 * (2040 * m) := by
    rw [List.length_take]
    omega
  rw [hsamples, length_words _ htake]
  omega

end Loopback
end Avs4000
