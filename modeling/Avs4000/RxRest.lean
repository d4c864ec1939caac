import Avs4000.RxBlocks
import Avs4000.RxReturns
import Avs4000.TxAccounting

namespace Avs4000
set_option autoImplicit true

namespace BlockFifo
open Memory

/-- The number of bytes in the ring, those of the block being filled among them. -/
def queued (f : BlockFifo) : Nat := (f.stored fun _ => 0).length

theorem queued_writeStart (h : Inv f) (hs : f.writeStart = (f', p)) : f'.queued = f.queued :=
  congrArg List.length (stored_writeStart h hs _)

theorem queued_readStart (h : Inv f) (hs : f.readStart = (f', p)) : f'.queued = f.queued :=
  congrArg List.length (stored_readStart h hs _)

theorem queued_writeComplete (h : Inv f) (hw : f.Writing r) (ha : amt ≤ r.maxAmt) :
    (f.writeComplete amt).queued = f.queued + amt := by
  rw [queued, stored_writeComplete h hw ha, List.length_append, Mem.length_load, queued]

theorem queued_readComplete (h : Inv f) (hr : f.Reading r) (ha : amt ≤ r.maxAmt) :
    f.queued = (f.readComplete amt).queued + amt := by
  rw [queued, stored_readComplete h hr ha, List.length_append, Mem.length_load, queued,
    Nat.add_comm]

end BlockFifo

namespace RxSystem
open BlockFifo hiding count
open TcpRxSignalClient (pktSize receiveAmt complete)

/-- The pump has nothing more to bring, and no call is running that could take from the ring, in
which no block is left to take. -/
structure Drained (s : RxSystem) : Prop where
  caller : s.caller = .idle
  pump : s.pump = .idle
  incoming : s.incoming = []
  count : s.client.buffer.fifo.count = 0

/-- How far a call is from the next words it hands out. -/
def callerRank (f : BlockFifo) : ReceivePc → Nat
  | .idle => if f.count = 0 then 0 else 5
  | .loop count recv .. => if recv < count then 4 else 6
  | .ready .. => 3
  | .copy .. => 2
  | .copied .. => 7
  | .fault => 0

/-- How far the pump is from the next bytes it brings. -/
def pumpRank (incoming : List UInt8) : ReadDataPc → Nat
  | .idle => if incoming = [] then 0 else 2
  | .holding _ => 1
  | .got _ => 9

/-- What is left to do. A byte counts until the packet it is in has been handed out, and twice
until it is received. -/
def left (s : RxSystem) : Nat :=
  16 * (2 * s.incoming.length + s.pump.late + s.client.buffer.fifo.queued +
    (2040 - s.client.partialCount)) +
  callerRank s.client.buffer.fifo s.caller + pumpRank s.incoming s.pump

theorem callerRank_idle_le (f : BlockFifo) : callerRank f .idle ≤ 5 := by
  rw [callerRank]
  split <;> decide

theorem callerRank_loop (f : BlockFifo) (count recv : Nat) (samples : List UInt32)
    (tList : List TimeTag) :
    callerRank f (.loop count recv samples tList) = if recv < count then 4 else 6 := rfl

theorem pumpRank_idle_le (incoming : List UInt8) : pumpRank incoming .idle ≤ 2 := by
  rw [pumpRank]
  split <;> decide

theorem complete_left {c : TcpRxSignalClient} (hi : c.buffer.fifo.Inv)
    (hb : WholeBlocks c.buffer.fifo) (ho : OpenPacket c) :
    c.complete.buffer.fifo.queued + (2040 - c.complete.partialCount) ≤
      c.buffer.fifo.queued + (2040 - c.partialCount) := by
  rw [complete, ho.samplesLen]
  split
  · obtain ⟨_, r, _, hr⟩ := ho
    have hq := queued_readComplete hi hr (hb.reading hi hr)
    change (c.buffer.fifo.readComplete pktSize).queued + (2040 - 0) ≤ _
    rw [hq, pktSize]
    omega
  · exact Nat.le_refl _

theorem receiveStep_left (hi : Inv s) (hs : ReceiveStep s t) : t.left < s.left := by
  have hcaller := hi.caller
  cases hs with
  | enter hc hlt hz hf =>
    simp only [left, hc, callerRank, if_pos hlt]
    omega
  | timeout hc hlt hz hf =>
    have hrank : callerRank s.client.buffer.fifo .idle = 0 := if_pos (hi.fifo.empty_iff.1 hf)
    simp only [left, ret, hc, hrank]
    rw [callerRank, if_pos hlt]
    omega
  | goOn hc hlt hz =>
    simp only [left, hc, callerRank, if_pos hlt]
    omega
  | finish hc hge =>
    have hle := callerRank_idle_le s.client.buffer.fifo
    simp only [left, ret, hc, callerRank_loop, if_neg hge]
    omega
  | noBlock hc hr => exact absurd hr (hi.readStart_ne_none hc)
  | parse hc hr hk =>
    have hq := queued_readStart hi.fifo hr
    subst hk
    simp only [left, hc, callerRank, hq]
    omega
  | copy hc hb =>
    rw [hc] at hcaller
    obtain ⟨_, hlt, ho, hp⟩ := hcaller
    obtain ⟨hpos, _, hroom⟩ := receiveAmt_bounds ho hp hlt
    simp only [left, hc, callerRank]
    omega
  | fault hc hb => exact absurd hb (hi.samples_ne_none hc)
  | copied hc =>
    rw [hc] at hcaller
    obtain ⟨_, _, ho, _⟩ := hcaller
    have hle := complete_left hi.fifo hi.blocks ho
    simp only [left, hc, callerRank]
    split <;> omega

/-- No `Flush`, and the socket neither fails nor closes. -/
def Act.Goes : Act → Prop
  | .flush | .got .error | .got (.data 0) => False
  | _ => True

/-- The pump runs, on a ring with room. -/
structure Going (s : RxSystem) : Prop where
  inv : Inv s
  live : Live s
  done : s.client.buffer.done = false
  room : 2 ≤ s.client.buffer.fifo.blkCount

theorem receiveStep_done (hs : ReceiveStep s t) :
    t.client.buffer.done = s.client.buffer.done := by
  cases hs with
  | enter | timeout | goOn | finish | noBlock | copy | fault => rfl
  | parse hc hr hk => exact hk ▸ rfl
  | copied hc =>
    change s.client.complete.buffer.done = _
    rw [complete]
    split
    · exact SocketRxBuffer.receiveComplete_done ..
    · rfl

theorem step_blkCount (hi : Inv s) (hs : Step s a t) :
    t.client.buffer.fifo.blkCount = s.client.buffer.fifo.blkCount := by
  cases hs with
  | receive | flush | again | closed | data => rfl
  | receiveStep hs => exact (receiveStep_sameFill hi hs).1.blkCount
  | startNone hp hd hw =>
    obtain ⟨rfl, _⟩ := writeStart_none hw
    rfl
  | startSome hp hd hw => exact (writeStart_same hi.fifo hw).blkCount
  | @complete rval hp => exact (writeComplete_tail s.client.buffer.fifo rval).2.2.2

theorem step_going (h : Going s) (ha : a.Goes) (hs : Step s a t) : Going t := by
  have hf : a ≠ .flush := by
    rintro rfl
    exact ha
  have hi := step_inv h.inv (fun he => absurd he hf) hs
  refine ⟨hi, step_live h.inv h.live hf hs, ?_, step_blkCount h.inv hs ▸ h.room⟩
  cases hs with
  | receive | startNone | startSome | again | data | complete => exact h.done
  | receiveStep hs => exact (receiveStep_done hs).trans h.done
  | flush => exact absurd rfl hf
  | closed hp hres => rcases hres with rfl | rfl <;> exact absurd ha id

/-- A step that leads on. -/
def Advances (s : RxSystem) : Prop :=
  ∃ a t, a.Goes ∧ step s a = some t ∧ t.left < s.left

theorem Going.receiveStep (h : Going s) (hc : s.caller ≠ .idle) : s.Advances := by
  have hcaller := h.inv.caller
  obtain ⟨count, hr⟩ : ∃ count, s.caller.Receives count := by
    cases hpc : s.caller with
    | idle => exact absurd hpc hc
    | fault =>
      rw [hpc] at hcaller
      exact hcaller.elim
    | loop | ready | copy | copied => exact ⟨_, rfl⟩
  obtain ⟨t, ht⟩ := Calling.receiveStep ⟨hr, rfl⟩
  exact ⟨.receiveStep, t, trivial, ht, receiveStep_left h.inv (receiveStep_cases ht)⟩

theorem advances_receive {s : RxSystem} (hc : s.caller = .idle)
    (hn : s.client.buffer.fifo.count ≠ 0) : s.Advances := by
  refine ⟨.receive 1, { s with caller := .loop 1 0 [] [] }, trivial, ?_, ?_⟩
  · simp only [step, hc]
    rfl
  · simp only [left, hc, callerRank, if_neg hn, Nat.zero_lt_one, if_true]
    omega

theorem Going.start (h : Going s) (hc : s.caller = .idle) (hp : s.pump = .idle)
    (hz : s.client.buffer.fifo.count = 0) (hne : s.incoming ≠ []) : s.Advances := by
  have hroom : ¬s.client.buffer.fifo.full := by
    have htwo := h.room
    rw [h.inv.fifo.full_iff]
    omega
  obtain ⟨f', r, hw⟩ : ∃ f' r, s.client.buffer.fifo.writeStart = (f', some r) := by
    rcases hw : s.client.buffer.fifo.writeStart with ⟨f', _ | r⟩
    · exact absurd (writeStart_none hw).2.2 hroom
    · exact ⟨f', r, rfl⟩
  refine ⟨.readDataStart, { s with client.buffer.fifo := f', pump := .holding r }, trivial, ?_, ?_⟩
  · simp only [step, hp, h.done, SocketRxBuffer.readDataStart, hw, Bool.false_eq_true, if_false]
  · have hq := queued_writeStart h.inv.fifo hw
    have hcount := (writeStart_same h.inv.fifo hw).count
    simp only [left, hc, hp, hq, callerRank, hcount, pumpRank, if_neg hne, ReadDataPc.late]
    omega

theorem Going.got (h : Going s) (hp : s.pump = .holding r) : s.Advances := by
  cases hin : s.incoming with
  | nil =>
    refine ⟨.got .again, { s with pump := .idle }, trivial, ?_, ?_⟩
    · simp only [step, hp]
      rfl
    · simp only [left, hin, hp, pumpRank, ReadDataPc.late, if_true]
      omega
  | cons b bs =>
    have hpump := h.inv.pump
    rw [hp] at hpump
    have hw := hpump.resolve_left fun hn => h.live r hp hn.1
    have hmax := hw.maxAmt_pos h.inv.fifo
    have hlen : 1 ≤ (b :: bs).length := Nat.le_add_left ..
    refine ⟨.got (.data 1), { s with
      pump := .got 1, mem := s.mem.store r.ptr [b], incoming := bs
      received := s.received ++ [b] }, trivial, ?_, ?_⟩
    · simp only [step, hp, hin]
      rw [if_pos ⟨hmax, hlen⟩]
      rfl
    · simp only [left, hin, hp, pumpRank, ReadDataPc.late, List.length_cons]
      omega

theorem Going.complete (h : Going s) (hc : s.caller = .idle) (hp : s.pump = .got n) :
    s.Advances := by
  refine ⟨.readDataComplete, { s with
    client.buffer := s.client.buffer.readDataComplete n, pump := .idle }, trivial, ?_, ?_⟩
  · simp only [step, hp]
  · have hpump := h.inv.pump
    rw [hp] at hpump
    obtain ⟨hpos, hpump⟩ := hpump
    have hq : (s.client.buffer.fifo.writeComplete n).queued ≤ s.client.buffer.fifo.queued + n := by
      rcases hpump with ⟨ho, _⟩ | ⟨r, hw, hle⟩
      · rw [writeComplete_outBlk_none ho]
        exact Nat.le_add_right ..
      · exact Nat.le_of_eq (queued_writeComplete h.inv.fifo hw hle)
    have hcall := callerRank_idle_le (s.client.buffer.fifo.writeComplete n)
    have hidle := pumpRank_idle_le s.incoming
    simp only [left, hc, hp, SocketRxBuffer.readDataComplete, ReadDataPc.late]
    rw [pumpRank.eq_3]
    omega

theorem Going.drained_or_advances (h : Going s) : s.Drained ∨ s.Advances := by
  by_cases hc : s.caller = .idle
  case neg => exact .inr (h.receiveStep hc)
  cases hp : s.pump with
  | got n => exact .inr (h.complete hc hp)
  | holding r => exact .inr (h.got hp)
  | idle =>
    by_cases hz : s.client.buffer.fifo.count = 0
    · by_cases hin : s.incoming = []
      · exact .inl ⟨hc, hp, hin, hz⟩
      · exact .inr (h.start hc hp hz hin)
    · exact .inr (advances_receive hc hz)

/-- From any state the receiver can hand out all that has come, but for the bytes of a block that
is not full. -/
theorem Going.drain (h : Going s) : ∃ as t,
    (∀ a ∈ as, a.Goes) ∧ Sys.run step s as = some t ∧ t.Drained := by
  have hadv : ∀ s, Going s → s.Drained ∨ ∃ as t, as.length ≤ 1 ∧ (∀ a ∈ as, a.Goes) ∧
      Sys.run step s as = some t ∧ Going t ∧ t.left < s.left := by
    intro s h
    refine h.drained_or_advances.imp_right ?_
    rintro ⟨a, t, ha, hs, hlt⟩
    exact ⟨[a], t, Nat.le_refl 1, fun b hb => List.mem_singleton.1 hb ▸ ha,
      Sys.run_cons_eq_some.2 ⟨t, hs, rfl⟩, step_going h ha (step_cases hs), hlt⟩
  obtain ⟨as, t, _, has, hr, hd, _⟩ := Sys.exists_rest hadv h
  exact ⟨as, t, has, hr, hd⟩

end RxSystem
end Avs4000
